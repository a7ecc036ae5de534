import ChatProject.ListRanges

/-!
# `ListItr_Cut`

The loop takes out the node that its iterator is at, and then goes on from there.
-/

namespace ChatProject
open Memory DLinkedList Loop

namespace DLinkedList

structure CutState where
  iter : Ptr
  mem : Nodes
  turns : ℕ

/-- The iterators are compared by their addresses, and the result of `List_PushHead` is not
tested. -/
def cutTurn (newList iterEnd : Ptr) (allocator : NodeAllocator) (s : CutState) :
    Option (CutState ⊕ (Ptr × Nodes)) :=
  if s.iter = iterEnd then some (.inr (newList, s.mem))
  else do
    let (item, mem) ← itrRemove s.mem s.iter
    let (_, mem) ← pushHead mem newList item (allocator.malloc s.turns mem)
    let next ← itrNext mem s.iter
    pure (.inl ⟨next, mem, s.turns + 1⟩)

/-- `newList` is what `malloc` returns for the list. -/
def cut (mem : Nodes) (iterBegin iterEnd newList headData tailData : Ptr)
    (allocator : NodeAllocator) (n : ℕ) : Outcome (Ptr × Nodes) :=
  let (newList, mem) := create mem newList headData tailData
  run (cutTurn newList iterEnd allocator) n ⟨iterBegin, mem, 0⟩

end DLinkedList

/-- A range of one of the lists. All allocations succeed, with memory that no node is in. -/
structure RangeCut where
  mem : Nodes
  l : Ptr
  front : List Entry
  range : List Entry
  back : List Entry
  others : World
  lists : Lists mem ((l, front ++ (range ++ back)) :: others)
  newList : Ptr
  allocated : newList ≠ 0
  created : mem (head newList) = none ∧ mem (tail newList) = none
  headData : Ptr
  tailData : Ptr
  allocator : NodeAllocator
  succeeds : ∀ k, allocator.fails k = false

namespace RangeCut
variable (q : RangeCut)

def first : Ptr := position q.l (q.range ++ q.back)

def last : Ptr := position q.l q.back

/-- `ListItr_Cut` ends, follows the links of live nodes only, and returns a list of the elements
of the range, which the range's list no longer has. -/
def Cuts : Prop :=
  ∃ n mem removed,
    DLinkedList.cut q.mem q.first q.last q.newList q.headData q.tailData q.allocator n =
      .returned (q.newList, mem) ∧
    Lists mem ((q.newList, removed) :: (q.l, q.front ++ q.back) :: q.others) ∧
    (removed.map Prod.snd).Perm (q.range.map Prod.snd)

def turn : CutState → Option (CutState ⊕ (Ptr × Nodes)) := cutTurn q.newList q.last q.allocator

def start : CutState := ⟨q.first, (create q.mem q.newList q.headData q.tailData).2, 0⟩

theorem cut_eq (n : ℕ) :
    DLinkedList.cut q.mem q.first q.last q.newList q.headData q.tailData q.allocator n =
      run q.turn n q.start := by
  rw [DLinkedList.cut, turn, start, create, if_neg q.allocated]

theorem cuts_iff_returns :
    q.Cuts ↔ ∃ mem removed, Returns q.turn q.start (q.newList, mem) ∧
      Lists mem ((q.newList, removed) :: (q.l, q.front ++ q.back) :: q.others) ∧
      (removed.map Prod.snd).Perm (q.range.map Prod.snd) := by
  simp only [Cuts, cut_eq, Returns]
  constructor
  · intro h
    obtain ⟨n, mem, removed, hrun, h⟩ := h
    exact ⟨mem, removed, ⟨n, hrun⟩, h⟩
  · intro h
    obtain ⟨mem, removed, ⟨n, hrun⟩, h⟩ := h
    exact ⟨n, mem, removed, hrun, h⟩

theorem lists_start : Lists q.start.mem
    ((q.newList, []) :: (q.l, q.front ++ (q.range ++ q.back)) :: q.others) :=
  q.lists.create q.allocated q.created.1 q.created.2 q.headData q.tailData

variable {q} {n : Entry} {ms : List Entry}

theorem turn_tail {mem : Nodes} {ns : List Entry} (hholds : DLinkedList.Holds mem q.newList ns)
    (hne : tail q.newList ≠ q.last) (turns : ℕ) :
    q.turn ⟨tail q.newList, mem, turns⟩ = some (.inl ⟨tail q.newList, mem, turns + 1⟩) := by
  have hpush : pushHead mem q.newList 0 (q.allocator.malloc turns mem) =
      some (.nullElementError, mem) := by
    rw [pushHead, if_neg hholds.head_ne, if_pos rfl]
  simp only [turn, cutTurn, if_neg hne, hholds.itrRemove_end, hpush, hholds.itrNext_tail,
    Option.bind_eq_bind, Option.bind_some, Option.pure_def]

theorem not_returns_tail {mem : Nodes} {ns : List Entry}
    (hholds : DLinkedList.Holds mem q.newList ns) (hne : tail q.newList ≠ q.last) (turns : ℕ)
    (b : Ptr × Nodes) : ¬ Returns q.turn ⟨tail q.newList, mem, turns⟩ b := by
  apply not_returns_of_stays (I := fun s => ∃ k, s = ⟨tail q.newList, mem, k⟩)
  · intro s hs
    obtain ⟨k, rfl⟩ := hs
    exact ⟨_, turn_tail hholds hne k, k + 1, rfl⟩
  · exact ⟨turns, rfl⟩

theorem not_returns (hrange : q.range = n :: ms) (b : Ptr × Nodes) :
    ¬ Returns q.turn q.start b := by
  have hlists := q.lists_start
  rw [hrange, List.cons_append] at hlists
  have hholds : DLinkedList.Holds q.start.mem q.l (q.front ++ n :: (ms ++ q.back)) :=
    hlists.holds (q.l, q.front ++ n :: (ms ++ q.back)) (by simp)
  have hfirst : q.first = n.1 := by
    rw [first, hrange]
    rfl
  have hlast : q.start.iter ≠ q.last := by
    rw [start, hfirst]
    exact hholds.entry_ne_position
  have hmoved : Lists q.start.mem
      ([(q.newList, [])] ++ (q.l, q.front ++ n :: (ms ++ q.back)) :: q.others) := hlists
  obtain ⟨mem', mem'', result, hremove, hpush, hnext⟩ :=
    hmoved.moved (fun _ => rfl) q.allocator 0
  have hturn : q.turn q.start = (do
      let next ← itrNext mem'' n.1
      pure (.inl ⟨next, mem'', 1⟩)) := by
    rw [turn, cutTurn, if_neg hlast]
    simp only [start, hfirst] at hremove ⊢
    simp only [hremove, hpush, Option.bind_eq_bind, Option.bind_some]
  rcases hnext with hnext | ⟨hnext, hpushed⟩
  · apply not_returns_of_undefined
    rw [hturn, hnext]
    rfl
  · rw [hnext] at hturn
    rw [returns_turn_iff hturn]
    have hne : tail q.newList ≠ q.last := by
      rw [← List.cons_append, ← List.append_assoc] at hlists
      exact hlists.tail_ne_position
    exact not_returns_tail hpushed hne 1 b

theorem returns_empty_iff (hrange : q.range = []) (b : Ptr × Nodes) :
    Returns q.turn q.start b ↔ b = (q.newList, q.start.mem) := by
  have hfirst : q.start.iter = q.last := by
    rw [start, first, hrange, last, List.nil_append]
  have hleave : q.turn q.start = some (.inr (q.newList, q.start.mem)) := by
    rw [turn, cutTurn, if_pos hfirst]
  exact returns_leave_iff hleave

theorem cuts_iff (q : RangeCut) : q.Cuts ↔ q.range = [] := by
  rw [cuts_iff_returns]
  cases hrange : q.range with
  | nil =>
    refine iff_of_true ⟨q.start.mem, [], (returns_empty_iff hrange _).mpr rfl, ?_, ?_⟩ rfl
    · have hlists := q.lists_start
      rwa [hrange] at hlists
    · exact List.Perm.refl _
  | cons n ms =>
    refine iff_of_false ?_ (List.cons_ne_nil n ms)
    intro h
    obtain ⟨mem, removed, hreturns, -⟩ := h
    exact not_returns hrange _ hreturns

noncomputable def oneElement : RangeCut where
  mem := oneNode
  l := 100
  front := []
  range := [(200, 7)]
  back := []
  others := []
  lists := lists_oneNode
  newList := 400
  allocated := by decide
  created := unused_oneNode
  headData := 0
  tailData := 0
  allocator := .lowest fun _ => false
  succeeds := fun _ => rfl

/-- The element is removed, and the loop goes on from the freed node. -/
theorem not_cuts_oneElement : ¬ oneElement.Cuts := by
  rw [cuts_iff_returns]
  intro h
  obtain ⟨mem, removed, hreturns, -⟩ := h
  exact not_returns (q := oneElement) rfl _ hreturns

end RangeCut
end ChatProject
