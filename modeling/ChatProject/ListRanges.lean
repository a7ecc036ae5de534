import ChatProject.SeveralLists
import ChatProject.Loop

/-!
# Ranges of a list

A range is a half open piece of a list. The loops over a range go on until their iterator equals
the range's end, that is until they read the data word of the node there, or of the tail sentinel.
-/

namespace ChatProject
open Memory DLinkedList

/-- The range of the list between `front` and `back`. No element is `NULL`, as no operation puts
one in. -/
structure ListRange where
  mem : Nodes
  l : Ptr
  front : List Entry
  range : List Entry
  back : List Entry
  holds : DLinkedList.Holds mem l (front ++ (range ++ back))
  items : ∀ n ∈ front ++ (range ++ back), n.2 ≠ 0

namespace ListRange
variable (r : ListRange)

def first : Ptr := position r.l (r.range ++ r.back)

def last : Ptr := position r.l r.back

def word : Ptr := (r.mem.data r.last).getD 0

theorem holds_back : DLinkedList.Holds r.mem r.l ((r.front ++ r.range) ++ r.back) := by
  rw [List.append_assoc]
  exact r.holds

theorem first_ne : r.first ≠ 0 := r.holds.position_live

theorem last_ne : r.last ≠ 0 := r.holds_back.position_live

theorem data_last : r.mem.data r.last = some r.word := by
  obtain ⟨w, hw⟩ := r.holds_back.exists_word
  rw [word, last, hw]
  rfl

end ListRange

namespace DLinkedList
variable {mem : Nodes} {l : Ptr} {ns ms ks : List Entry} {n m : Entry}

theorem Holds.entry_notMem (h : Holds mem l (ns ++ n :: ms)) :
    n.1 ∉ ms.map Prod.fst ++ [tail l] := by
  have hnodup := h.nodup
  have hcells : cells l (ns ++ n :: ms) =
      (head l :: ns.map Prod.fst) ++ n.1 :: (ms.map Prod.fst ++ [tail l]) := by
    simp [cells]
  rw [hcells, List.nodup_append] at hnodup
  exact (List.nodup_cons.mp hnodup.2.1).1

theorem Holds.ne_entry (h : Holds mem l (ns ++ n :: ms)) (hm : m ∈ ns ++ ms) : m.1 ≠ n.1 := by
  have hnodup : (n.1 :: (ns ++ ms).map Prod.fst).Nodup := by
    have hsub := h.nodup.sublist ((List.sublist_cons_self _ _).trans (List.sublist_append_left _ _))
    rw [List.map_append, List.map_cons] at hsub
    rw [List.map_append]
    exact List.nodup_middle.mp hsub
  intro heq
  exact (List.nodup_cons.mp hnodup).1 (heq ▸ List.mem_map_of_mem hm)

theorem position_mem_suffix (l : Ptr) (ms ks : List Entry) :
    position l ks ∈ (ms ++ ks).map Prod.fst ++ [tail l] := by
  cases ks with
  | nil => simp [position]
  | cons k ks => simp [position]

theorem Holds.entry_ne_position (h : Holds mem l (ns ++ n :: (ms ++ ks))) :
    n.1 ≠ position l ks := by
  intro heq
  exact h.entry_notMem (heq ▸ position_mem_suffix l ms ks)

theorem Lists.create {mem : Nodes} {world : World} {l : Ptr} (h : Lists mem world) (hl : l ≠ 0)
    (hhead : mem (head l) = none) (htail : mem (tail l) = none) (headData tailData : Ptr) :
    Lists (create mem l headData tailData).2 ((l, []) :: world) := by
  have hnew : ∀ w ∈ world, ∀ p ∈ cells w.1 w.2, p ≠ head l ∧ p ≠ tail l := by
    intro w hw p hp
    have hlive := ((h.holds w hw).live p hp).2
    exact ⟨fun heq => hlive (heq ▸ hhead), fun heq => hlive (heq ▸ htail)⟩
  refine ⟨List.forall_mem_cons.mpr ⟨holds_create mem hl headData tailData, fun w hw => ?_⟩,
    List.pairwise_cons.mpr ⟨fun w hw p hp => ?_, h.apart⟩⟩
  · refine (h.holds w hw).frame fun p hp => ?_
    simp only [DLinkedList.create, if_neg hl, Function.update_of_ne (hnew w hw p hp).2,
      Function.update_of_ne (hnew w hw p hp).1]
  · intro hpw
    simp only [cells, List.map_nil, List.cons_append, List.nil_append, List.mem_cons,
      List.not_mem_nil, or_false] at hp
    exact hp.elim (hnew w hw p hpw).1 (hnew w hw p hpw).2

theorem Lists.tail_ne_position {k : Ptr} {others : World}
    (h : Lists mem ((k, ks) :: (l, ns ++ ms) :: others)) : tail k ≠ position l ms := by
  have hdisjoint : (cells k ks).Disjoint (cells l (ns ++ ms)) :=
    (List.pairwise_cons.mp h.apart).1 _ List.mem_cons_self
  intro heq
  exact hdisjoint tail_mem_cells (heq ▸ position_mem_cells ns ms)

/-- A node is taken out and its item pushed on a new list. Its link can no longer be followed,
unless the new node has been put at its address; then it leads to the end of the new list. -/
theorem Lists.moved {world others : World}
    (h : Lists mem (world ++ (l, ns ++ n :: ms) :: others)) {newList : Ptr}
    (hnew : newList ≠ 0 → world = [(newList, [])]) (allocator : NodeAllocator) (k : ℕ) :
    ∃ mem' mem'' result, DLinkedList.itrRemove mem n.1 = some (n.2, mem') ∧
      pushHead mem' newList n.2 (allocator.malloc k mem') = some (result, mem'') ∧
      (itrNext mem'' n.1 = none ∨
        itrNext mem'' n.1 = some (tail newList) ∧ Holds mem'' newList [n]) := by
  have hholds : Holds mem l (ns ++ n :: ms) := h.holds (l, ns ++ n :: ms) (by simp)
  have hundefined : ∀ mem' : Nodes, mem' n.1 = none → itrNext mem' n.1 = none := by
    intro mem' hfreed
    rw [itrNext, if_neg hholds.entry_ne, Nodes.next, hfreed, Option.map_none]
  obtain ⟨mem', hremove, hlists, hfreed, -⟩ := h.itrRemove
  by_cases hrefused : newList = 0 ∨ n.2 = 0 ∨ (allocator.malloc k mem').addr = 0
  · obtain ⟨result, hpush⟩ := pushHead_refused hrefused
    exact ⟨mem', mem', result, hremove, hpush, .inl (hundefined mem' hfreed)⟩
  obtain ⟨hnull, hrest⟩ := not_or.mp hrefused
  obtain ⟨hitem, hmalloc⟩ := not_or.mp hrest
  obtain rfl := hnew hnull
  have hempty : Holds mem' newList [] := hlists.holds (newList, []) (by simp)
  have hfresh := allocator.fresh k mem' ⟨n.1, hholds.entry_ne, hfreed⟩
  obtain ⟨mem'', hpush, hpushed, hdata⟩ :=
    hempty.pushHead_entry hfresh (allocator.room k mem') hitem
  rw [← NodeAllocator.malloc_of_ne hmalloc] at hpush
  refine ⟨mem', mem'', .success, hremove, hpush, ?_⟩
  by_cases haddr : n.1 = (allocator.chunk k mem').addr
  · rw [← haddr] at hpushed
    exact .inr ⟨hpushed.itrNext_first, hpushed⟩
  · refine .inl (hundefined mem'' ?_)
    have hnone := hdata n.1 haddr
    rw [Nodes.data, Nodes.data, hfreed] at hnone
    exact Option.map_eq_none_iff.mp hnone

def oneNode : Nodes := fun p =>
  [(100, ⟨0, 200, 0⟩), (200, ⟨7, 124, 100⟩), (124, ⟨0, 124, 200⟩)].lookup p

theorem holds_oneNode : Holds oneNode 100 [(200, 7)] := by decide

theorem lists_oneNode : Lists oneNode [(100, [(200, 7)])] :=
  ⟨List.forall_mem_singleton.mpr holds_oneNode, List.pairwise_singleton _ _⟩

theorem unused_oneNode : oneNode (head 400) = none ∧ oneNode (tail 400) = none := by decide

theorem items_oneNode : ∀ n ∈ [((200, 7) : Entry)], n.2 ≠ 0 := by decide

end DLinkedList
end ChatProject
