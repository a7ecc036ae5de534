import ChatProject.DLinkedList
import Mathlib.Data.List.Chain
import Mathlib.Data.List.Nodup

/-!
# Links between the nodes of a list

The sentinels and the nodes of a list form a chain in which each cell is linked to the next
one in both directions. An operation on the list puts one node between two linked cells or
takes one out, and changes nothing else.
-/

namespace ChatProject
open Memory

/-- `a` is followed by `b`, in both directions. -/
def Link (mem : Nodes) (a b : Ptr) : Prop := mem.next a = some b ∧ mem.prev b = some a

theorem isChain_frame {mem mem' : Nodes} {ps : List Ptr} (h : ps.IsChain (Link mem))
    (hnext : ∀ p ∈ ps.dropLast, mem'.next p = mem.next p)
    (hprev : ∀ p ∈ ps.tail, mem'.prev p = mem.prev p) : ps.IsChain (Link mem') := by
  rw [List.isChain_iff_forall₂] at h ⊢
  rw [List.forall₂_iff_zip] at h ⊢
  refine ⟨h.1, ?_⟩
  intro a b hab
  obtain ⟨hn, hp⟩ := h.2 hab
  obtain ⟨ha, hb⟩ := List.of_mem_zip hab
  exact ⟨(hnext a ha).trans hn, (hprev b hb).trans hp⟩

/-- The node `new` with `item` has been put between `a` and `b`. -/
structure Inserted (mem mem' : Nodes) (a b new item : Ptr) : Prop where
  node : mem' new = some ⟨item, b, a⟩
  before : mem'.next a = some new
  after : mem'.prev b = some new
  next : ∀ p, p ≠ a → p ≠ new → mem'.next p = mem.next p
  prev : ∀ p, p ≠ b → p ≠ new → mem'.prev p = mem.prev p
  data : ∀ p, p ≠ new → mem'.data p = mem.data p

/-- The node `p` between `a` and `b` has been taken out and freed. -/
structure Removed (mem mem' : Nodes) (a p b : Ptr) : Prop where
  freed : mem' p = none
  before : mem'.next a = some b
  after : mem'.prev b = some a
  next : ∀ q, q ≠ a → q ≠ p → mem'.next q = mem.next q
  prev : ∀ q, q ≠ b → q ≠ p → mem'.prev q = mem.prev q
  data : ∀ q, q ≠ p → mem'.data q = mem.data q

/-- The three cells around which a list is rewired are no others of its cells. -/
structure Apart (front back : List Ptr) (a p b : Ptr) : Prop where
  front : ∀ q ∈ front, q ≠ a ∧ q ≠ p ∧ q ≠ b
  back : ∀ q ∈ back, q ≠ a ∧ q ≠ p ∧ q ≠ b
  before : a ≠ p
  after : p ≠ b
  ends : a ≠ b

section Rewire
variable {mem mem' : Nodes} {front back : List Ptr} {a b p item : Ptr}

theorem apart_of_nodup (h : (front ++ a :: p :: b :: back).Nodup) : Apart front back a p b := by
  obtain ⟨-, hrest, hfront⟩ := List.nodup_append.mp h
  simp only [List.nodup_cons, List.mem_cons, not_or] at hrest
  obtain ⟨⟨hap, hab, ha⟩, ⟨hpb, hp⟩, hb, -⟩ := hrest
  refine ⟨?_, ?_, hap, hpb, hab⟩
  · intro q hq
    exact ⟨hfront q hq a (by simp), hfront q hq p (by simp), hfront q hq b (by simp)⟩
  · intro q hq
    refine ⟨?_, ?_, ?_⟩
    · rintro rfl
      exact ha hq
    · rintro rfl
      exact hp hq
    · rintro rfl
      exact hb hq

theorem Apart.frame (h : Apart front back a p b)
    (hnext : ∀ q, q ≠ a → q ≠ p → mem'.next q = mem.next q)
    (hprev : ∀ q, q ≠ b → q ≠ p → mem'.prev q = mem.prev q)
    (hfront : (front ++ [a]).IsChain (Link mem)) (hback : (b :: back).IsChain (Link mem)) :
    (front ++ [a]).IsChain (Link mem') ∧ (b :: back).IsChain (Link mem') := by
  constructor
  · apply isChain_frame hfront
    · intro q hq
      rw [List.dropLast_concat] at hq
      exact hnext q (h.front q hq).1 (h.front q hq).2.1
    · intro q hq
      rcases List.mem_append.mp (List.mem_of_mem_tail hq) with hq | hq
      · exact hprev q (h.front q hq).2.2 (h.front q hq).2.1
      · rw [List.mem_singleton.mp hq]
        exact hprev a h.ends h.before
  · apply isChain_frame hback
    · intro q hq
      rcases List.mem_cons.mp ((List.dropLast_sublist _).subset hq) with rfl | hq
      · exact hnext q h.ends.symm h.after.symm
      · exact hnext q (h.back q hq).1 (h.back q hq).2.1
    · intro q hq
      exact hprev q (h.back q hq).2.2 (h.back q hq).2.1

theorem Inserted.isChain (h : Inserted mem mem' a b p item)
    (hchain : (front ++ a :: b :: back).IsChain (Link mem)) (hapart : Apart front back a p b) :
    (front ++ a :: p :: b :: back).IsChain (Link mem') := by
  obtain ⟨hfront, -, hback⟩ := List.isChain_append_cons_cons.mp hchain
  obtain ⟨hfront', hback'⟩ := hapart.frame h.next h.prev hfront hback
  refine List.isChain_append_cons_cons.mpr ⟨hfront', ?_, List.isChain_cons_cons.mpr ⟨?_, hback'⟩⟩
  · exact ⟨h.before, by rw [Nodes.prev, h.node]; rfl⟩
  · exact ⟨by rw [Nodes.next, h.node]; rfl, h.after⟩

theorem Removed.isChain (h : Removed mem mem' a p b)
    (hchain : (front ++ a :: p :: b :: back).IsChain (Link mem))
    (hapart : Apart front back a p b) : (front ++ a :: b :: back).IsChain (Link mem') := by
  obtain ⟨hfront, -, hrest⟩ := List.isChain_append_cons_cons.mp hchain
  obtain ⟨-, hback⟩ := List.isChain_cons_cons.mp hrest
  obtain ⟨hfront', hback'⟩ := hapart.frame h.next h.prev hfront hback
  exact List.isChain_append_cons_cons.mpr ⟨hfront', ⟨h.before, h.after⟩, hback'⟩

end Rewire

namespace DLinkedList

/-- A node of a list: its address and its item. -/
abbrev Entry := Ptr × Ptr

def cells (l : Ptr) (ns : List Entry) : List Ptr := head l :: ns.map Prod.fst ++ [tail l]

/-- The list `l` has the nodes `ns`, from head to tail. -/
structure Holds (mem : Nodes) (l : Ptr) (ns : List Entry) : Prop where
  linked : (cells l ns).IsChain (Link mem)
  nodup : (cells l ns).Nodup
  ended : mem.next (tail l) = some (tail l)
  live : ∀ p ∈ cells l ns, p ≠ 0 ∧ mem p ≠ none
  data : ∀ n ∈ ns, mem.data n.1 = some n.2

/-- The place between the nodes `ns` and the nodes `ms` is that between the cells `a` and `b`. -/
structure Between (l : Ptr) (ns ms : List Entry) (front back : List Ptr) (a b : Ptr) : Prop where
  before : head l :: ns.map Prod.fst = front ++ [a]
  after : ms.map Prod.fst ++ [tail l] = b :: back

section Holds
variable {mem mem' : Nodes} {l a b item : Ptr} {ns ms : List Entry} {n : Entry}
  {front back : List Ptr}

theorem exists_between (l : Ptr) (ns ms : List Entry) :
    ∃ front back a b, Between l ns ms front back a b := by
  obtain ⟨front, a, hfront⟩ := (List.eq_nil_or_concat (head l :: ns.map Prod.fst)).resolve_left
    (List.cons_ne_nil _ _)
  obtain ⟨b, back, hback⟩ := List.exists_cons_of_ne_nil
    (List.append_ne_nil_of_right_ne_nil (ms.map Prod.fst) (List.cons_ne_nil (tail l) []))
  exact ⟨front, back, a, b, by simpa using hfront, hback⟩

namespace Between

theorem cells_eq (h : Between l ns ms front back a b) :
    cells l (ns ++ ms) = front ++ a :: b :: back := by
  rw [cells, List.map_append, ← List.cons_append, List.append_assoc, h.before, h.after]
  simp

theorem cells_insert (h : Between l ns ms front back a b) :
    cells l (ns ++ n :: ms) = front ++ a :: n.1 :: b :: back := by
  rw [cells, List.map_append, List.map_cons, ← List.cons_append, List.append_assoc, h.before,
    List.cons_append, h.after]
  simp

theorem before_mem (h : Between l ns ms front back a b) : a ∈ head l :: ns.map Prod.fst := by
  rw [h.before]
  simp

end Between

theorem mem_cells_insert {q : Ptr} :
    q ∈ cells l (ns ++ n :: ms) ↔ q = n.1 ∨ q ∈ cells l (ns ++ ms) := by
  simp only [cells, List.map_append, List.map_cons, List.cons_append, List.append_assoc,
    List.mem_cons, List.mem_append]
  tauto

theorem mem_cells (h : n ∈ ns) : n.1 ∈ cells l ns :=
  List.mem_append_left _ (List.mem_cons_of_mem _ (List.mem_map_of_mem h))

theorem tail_mem_cells : tail l ∈ cells l ns := by
  simp [cells]

theorem Holds.ne_tail (h : Holds mem l ns) {q : Ptr} (hq : q ∈ head l :: ns.map Prod.fst) :
    q ≠ tail l := by
  have hnodup := h.nodup
  rw [cells, List.nodup_append] at hnodup
  exact hnodup.2.2 q hq (tail l) (List.mem_singleton_self _)

theorem Holds.link (h : Holds mem l (ns ++ ms)) (hb : Between l ns ms front back a b) :
    Link mem a b ∧ a ≠ b := by
  have hlinked := h.linked
  have hnodup := h.nodup
  rw [hb.cells_eq] at hlinked hnodup
  refine ⟨(List.isChain_append_cons_cons.mp hlinked).2.1, ?_⟩
  rintro rfl
  simp [List.nodup_append] at hnodup

theorem live_of_data {q : Ptr} (h : mem'.data q = mem.data q) (hq : mem q ≠ none) :
    mem' q ≠ none := by
  intro hnone
  rw [Nodes.data, Nodes.data, hnone, Option.map_none, eq_comm, Option.map_eq_none_iff] at h
  exact hq h

theorem Holds.insert (h : Holds mem l (ns ++ ms)) (hb : Between l ns ms front back a b)
    (hfresh : mem n.1 = none) (hn : n.1 ≠ 0) (hi : Inserted mem mem' a b n.1 n.2) :
    Holds mem' l (ns ++ n :: ms) := by
  have hnew : ∀ q ∈ cells l (ns ++ ms), q ≠ n.1 := by
    rintro q hq rfl
    exact (h.live _ hq).2 hfresh
  have hnodup : (front ++ a :: n.1 :: b :: back).Nodup := by
    have happ : front ++ a :: n.1 :: b :: back = (front ++ [a]) ++ n.1 :: (b :: back) := by simp
    have hcells : (front ++ [a]) ++ b :: back = cells l (ns ++ ms) := by simp [hb.cells_eq]
    rw [happ, List.nodup_middle, List.nodup_cons, hcells]
    exact ⟨fun hmem => hnew _ hmem rfl, h.nodup⟩
  constructor
  · rw [hb.cells_insert]
    exact hi.isChain (hb.cells_eq ▸ h.linked) (apart_of_nodup hnodup)
  · rw [hb.cells_insert]
    exact hnodup
  · have hne : a ≠ tail l := by
      refine h.ne_tail ?_
      rw [List.map_append, ← List.cons_append]
      exact List.mem_append_left _ hb.before_mem
    rw [hi.next _ hne.symm (hnew _ tail_mem_cells), h.ended]
  · intro q hq
    rcases mem_cells_insert.mp hq with rfl | hq
    · exact ⟨hn, by simp [hi.node]⟩
    · exact ⟨(h.live q hq).1, live_of_data (hi.data q (hnew q hq)) (h.live q hq).2⟩
  · intro m hm
    have hmem : m = n ∨ m ∈ ns ++ ms := by
      simp only [List.mem_append, List.mem_cons] at hm ⊢
      tauto
    rcases hmem with rfl | hmem
    · rw [Nodes.data, hi.node]
      rfl
    · rw [hi.data _ (hnew _ (mem_cells hmem)), h.data m hmem]

theorem Holds.remove (h : Holds mem l (ns ++ n :: ms)) (hb : Between l ns ms front back a b)
    (hr : Removed mem mem' a n.1 b) : Holds mem' l (ns ++ ms) := by
  have hnodup := h.nodup
  have hlinked := h.linked
  rw [hb.cells_insert] at hnodup hlinked
  have hapart := apart_of_nodup hnodup
  have hsub : ∀ q ∈ cells l (ns ++ ms), q ∈ cells l (ns ++ n :: ms) ∧ q ≠ n.1 := by
    intro q hq
    refine ⟨mem_cells_insert.mpr (.inr hq), ?_⟩
    rw [hb.cells_eq, List.mem_append, List.mem_cons, List.mem_cons] at hq
    rcases hq with hq | rfl | rfl | hq
    · exact (hapart.front q hq).2.1
    · exact hapart.before
    · exact hapart.after.symm
    · exact (hapart.back q hq).2.1
  constructor
  · rw [hb.cells_eq]
    exact hr.isChain hlinked hapart
  · rw [hb.cells_eq]
    have hsublist : (front ++ a :: b :: back).Sublist (front ++ a :: n.1 :: b :: back) :=
      ((List.sublist_cons_self n.1 (b :: back)).cons_cons a).append_left front
    exact hnodup.sublist hsublist
  · have hne : a ≠ tail l := by
      refine h.ne_tail ?_
      rw [List.map_append, ← List.cons_append]
      exact List.mem_append_left _ hb.before_mem
    rw [hr.next _ hne.symm (hsub _ tail_mem_cells).2, h.ended]
  · intro q hq
    obtain ⟨hmem, hne⟩ := hsub q hq
    exact ⟨(h.live q hmem).1, live_of_data (hr.data q hne) (h.live q hmem).2⟩
  · intro m hm
    rw [hr.data _ (hsub _ (mem_cells hm)).2, h.data m]
    simp only [List.mem_append, List.mem_cons] at hm ⊢
    tauto

end Holds
end DLinkedList
end ChatProject
