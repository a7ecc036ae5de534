import ChatProject.ListIterators

/-!
# Several lists in one memory

Lists whose cells are different stay apart: an operation on one of them leaves the others as
they are.
-/

namespace ChatProject
open Memory

namespace DLinkedList
variable {mem mem' : Nodes} {l : Ptr} {ns ms : List Entry} {n : Entry}

theorem Holds.frame (h : Holds mem l ns) (hsame : ∀ p ∈ cells l ns, mem' p = mem p) :
    Holds mem' l ns where
  linked := by
    refine isChain_frame h.linked (fun p hp => ?_) fun p hp => ?_
    · rw [Nodes.next, Nodes.next, hsame p ((List.dropLast_sublist _).subset hp)]
    · rw [Nodes.prev, Nodes.prev, hsame p (List.mem_of_mem_tail hp)]
  nodup := h.nodup
  ended := by
    rw [Nodes.next, hsame _ tail_mem_cells]
    exact h.ended
  live := by
    intro p hp
    rw [hsame p hp]
    exact h.live p hp
  data := by
    intro n hn
    rw [Nodes.data, hsame _ (mem_cells hn)]
    exact h.data n hn

theorem Holds.unique (h : Holds mem l ns) (h' : Holds mem l ms) : ns = ms := by
  have haddr : ns.map Prod.fst = ms.map Prod.fst := h.path.unique h'.path
  have hdata : (ns.map Prod.snd).map some = (ms.map Prod.snd).map some := by
    rw [← h.map_data, ← h'.map_data, haddr]
  have hitems := List.map_injective_iff.mpr (Option.some_injective _) hdata
  exact (List.zip_of_prod haddr hitems).trans (List.zip_of_prod rfl rfl).symm

instance {a b : Ptr} : Decidable (Link mem a b) := inferInstanceAs (Decidable (_ ∧ _))

instance : Decidable (Holds mem l ns) :=
  decidable_of_iff ((cells l ns).IsChain (Link mem) ∧ (cells l ns).Nodup ∧
      mem.next (tail l) = some (tail l) ∧ (∀ p ∈ cells l ns, p ≠ 0 ∧ mem p ≠ none) ∧
      ∀ n ∈ ns, mem.data n.1 = some n.2)
    ⟨fun h => ⟨h.1, h.2.1, h.2.2.1, h.2.2.2.1, h.2.2.2.2⟩,
      fun h => ⟨h.linked, h.nodup, h.ended, h.live, h.data⟩⟩

abbrev World := List (Ptr × List Entry)

/-- The lists of the world, at different cells. -/
structure Lists (mem : Nodes) (world : World) : Prop where
  holds : ∀ w ∈ world, Holds mem w.1 w.2
  apart : world.Pairwise fun v w => (cells v.1 v.2).Disjoint (cells w.1 w.2)

theorem lists_middle {front back : World} {w : Ptr × List Entry} :
    Lists mem (front ++ w :: back) ↔ Holds mem w.1 w.2 ∧ Lists mem (front ++ back) ∧
      ∀ v ∈ front ++ back, (cells w.1 w.2).Disjoint (cells v.1 v.2) := by
  have hmem : ∀ v, v ∈ front ++ w :: back ↔ v = w ∨ v ∈ front ++ back :=
    fun v => List.perm_middle.mem_iff.trans List.mem_cons
  have hapart : (front ++ w :: back).Pairwise (fun v w =>
        (cells v.1 v.2).Disjoint (cells w.1 w.2)) ↔
      (∀ v ∈ front ++ back, (cells w.1 w.2).Disjoint (cells v.1 v.2)) ∧
        (front ++ back).Pairwise fun v w => (cells v.1 v.2).Disjoint (cells w.1 w.2) :=
    (List.pairwise_middle fun {_ _} h => List.disjoint_symm h).trans List.pairwise_cons
  constructor
  · intro h
    obtain ⟨hdisjoint, hrest⟩ := hapart.mp h.apart
    exact ⟨h.holds w (by simp), ⟨fun v hv => h.holds v ((hmem v).mpr (.inr hv)), hrest⟩, hdisjoint⟩
  · intro h
    obtain ⟨hw, hrest, hdisjoint⟩ := h
    refine ⟨fun v hv => ?_, hapart.mpr ⟨hdisjoint, hrest.apart⟩⟩
    rcases (hmem v).mp hv with rfl | hv
    · exact hw
    · exact hrest.holds v hv

theorem Lists.frame {world : World} (h : Lists mem world)
    (hsame : ∀ w ∈ world, ∀ p ∈ cells w.1 w.2, mem' p = mem p) : Lists mem' world where
  holds := fun w hw => (h.holds w hw).frame (hsame w hw)
  apart := h.apart

theorem Lists.itrRemove {front back : World} (h : Lists mem (front ++ (l, ns ++ n :: ms) :: back)) :
    ∃ mem', itrRemove mem n.1 = some (n.2, mem') ∧ Lists mem' (front ++ (l, ns ++ ms) :: back) ∧
      mem' n.1 = none ∧ ∀ q, q ≠ n.1 → mem'.data q = mem.data q := by
  obtain ⟨hl, hrest, hdisjoint⟩ := lists_middle.mp h
  obtain ⟨fr, bk, a, b, hb⟩ := exists_between l ns ms
  have hremoved := hl.removed hb
  have hcells : ∀ q, q ∈ cells l (ns ++ ms) → q ∈ cells l (ns ++ n :: ms) :=
    fun q hq => mem_cells_insert.mpr (.inr hq)
  refine ⟨mem.cut a n.1 b, hl.itrRemove_eq hb,
    lists_middle.mpr ⟨hl.cut hb, hrest.frame fun w hw p hp => ?_, fun v hv q hq hqv => ?_⟩,
    hremoved.freed, hremoved.data⟩
  · have hp' : p ∉ cells l (ns ++ n :: ms) := fun hmem => hdisjoint w hw hmem hp
    rw [hb.cells_insert, List.mem_append, List.mem_cons, List.mem_cons, List.mem_cons] at hp'
    simp only [not_or] at hp'
    simp only [Nodes.cut, hp'.2.1, hp'.2.2.1, hp'.2.2.2.1, if_false]
  · exact hdisjoint v hv (hcells q hq) hqv

theorem Lists.itrInsertBefore {front back : World}
    (h : Lists mem (front ++ (l, ns ++ ms) :: back)) {newElement : Chunk}
    (hfresh : Fresh mem newElement) (hroom : sizeofNode ≤ newElement.room) {element : Ptr}
    (helement : element ≠ 0) :
    ∃ mem', itrInsertBefore mem (position l ms) element newElement =
        some (newElement.addr, mem') ∧
      Lists mem' (front ++ (l, ns ++ (newElement.addr, element) :: ms) :: back) ∧
      ∀ q, q ≠ newElement.addr → mem'.data q = mem.data q := by
  obtain ⟨hl, hrest, hdisjoint⟩ := lists_middle.mp h
  obtain ⟨fr, bk, a, b, hb⟩ := exists_between l ns ms
  have hunused : ∀ w ∈ front ++ back, newElement.addr ∉ cells w.1 w.2 :=
    fun w hw hmem => ((hrest.holds w hw).live _ hmem).2 hfresh.unused
  refine ⟨_, hl.itrInsertBefore_eq hb hfresh hroom helement,
    lists_middle.mpr ⟨hl.put hb hfresh element, hrest.frame fun w hw p hp => ?_,
      fun v hv q hq hqv => ?_⟩, (hl.inserted hb hfresh element).data⟩
  · have hpnew : p ≠ newElement.addr := fun heq => hunused w hw (heq ▸ hp)
    have hp' : p ∉ cells l (ns ++ ms) := fun hmem => hdisjoint w hw hmem hp
    rw [hb.cells_eq, List.mem_append, List.mem_cons, List.mem_cons] at hp'
    simp only [not_or] at hp'
    simp only [Nodes.put, hpnew, hp'.2.1, hp'.2.2.1, if_false]
  · rcases mem_cells_insert.mp hq with rfl | hq
    · exact hunused v hv hqv
    · exact hdisjoint v hv hq hqv

end DLinkedList
end ChatProject
