import ChatProject.ListRanges

/-!
# `ListItr_Unique`

Both loops use the same iterator, and the inner one begins with the element that the others are
compared with.
-/

namespace ChatProject
open Memory DLinkedList Loop

namespace DLinkedList

/-- In the inner loop the element of the outer one is at hand. -/
structure UniqueState where
  iter : Ptr
  val1 : Option Ptr
  mem : Nodes
  turns : ℕ

/-- The body of the inner loop: `chunk` is what `malloc` returns if `List_PushHead` calls it. -/
def uniqueInner (newList : Ptr) (equals : Ptr → Ptr → ℤ) (chunk : Nodes → Chunk) (mem : Nodes)
    (iter val1 : Ptr) : Option Nodes := do
  let val2 ← itrGet mem iter
  if equals val1 val2 ≠ 0 then
    let (item, mem) ← itrRemove mem iter
    let (_, mem) ← pushHead mem newList item (chunk mem)
    pure mem
  else pure mem

/-- The iterators are compared by their addresses. After the inner loop the iterator goes on from
the end of the range. -/
def uniqueTurn (newList iterBegin iterEnd : Ptr) (equals : Ptr → Ptr → ℤ)
    (allocator : NodeAllocator) (s : UniqueState) : Option (UniqueState ⊕ (Ptr × Nodes)) :=
  match s.val1 with
  | none =>
    if s.iter = iterEnd then some (.inr (newList, s.mem))
    else do
      let val1 ← itrGet s.mem s.iter
      let _ ← itrNext s.mem s.iter
      pure (.inl { s with iter := iterBegin, val1 := some val1 })
  | some val1 =>
    if s.iter = iterEnd then do
      let next ← itrNext s.mem s.iter
      pure (.inl { s with iter := next, val1 := none })
    else do
      let mem ← uniqueInner newList equals (allocator.malloc s.turns) s.mem s.iter val1
      let next ← itrNext mem s.iter
      pure (.inl ⟨next, some val1, mem, s.turns + 1⟩)

/-- `newList` is what `malloc` returns for the list. -/
def unique (mem : Nodes) (iterBegin iterEnd : Ptr) (equals : Ptr → Ptr → ℤ)
    (newList headData tailData : Ptr) (allocator : NodeAllocator) (n : ℕ) :
    Outcome (Ptr × Nodes) :=
  let (newList, mem) := create mem newList headData tailData
  run (uniqueTurn newList iterBegin iterEnd equals allocator) n ⟨iterBegin, none, mem, 0⟩

end DLinkedList

/-- A range with equal elements next to each other. For the new list `malloc` returns `NULL`, or
memory that no node is in. -/
structure RangeUnique where
  mem : Nodes
  l : Ptr
  front : List Entry
  range : List Entry
  back : List Entry
  others : World
  lists : Lists mem ((l, front ++ (range ++ back)) :: others)
  items : ∀ n ∈ range, n.2 ≠ 0
  equals : Ptr → Ptr → ℤ
  equivalence : Equivalence fun a b : {x // x ∈ range.map Prod.snd} => equals a b ≠ 0
  adjacent : ∀ xs a ys b zs, range.map Prod.snd = xs ++ a :: ys ++ b :: zs → equals a b ≠ 0 →
    ∀ c ∈ ys, equals a c ≠ 0
  newList : Ptr
  headData : Ptr
  tailData : Ptr
  created : newList ≠ 0 → mem (head newList) = none ∧ mem (tail newList) = none
  allocator : NodeAllocator

namespace RangeUnique
variable (q : RangeUnique)

def first : Ptr := position q.l (q.range ++ q.back)

def last : Ptr := position q.l q.back

def kept : List Entry := q.range.eraseDupsBy fun m n => q.equals m.2 n.2 ≠ 0

/-- `ListItr_Unique` ends and returns a list of the elements that it has taken out of the range,
where it has left the first element of each class. -/
def RemovesDuplicates : Prop :=
  ∃ n newList mem removed,
    unique q.mem q.first q.last q.equals q.newList q.headData q.tailData q.allocator n =
      .returned (newList, mem) ∧
    Lists mem ((newList, removed) :: (q.l, q.front ++ (q.kept ++ q.back)) :: q.others) ∧
    (q.kept.map Prod.snd ++ removed.map Prod.snd).Perm (q.range.map Prod.snd)

def turn : UniqueState → Option (UniqueState ⊕ (Ptr × Nodes)) :=
  uniqueTurn q.newList q.first q.last q.equals q.allocator

def start : UniqueState :=
  ⟨q.first, none, (create q.mem q.newList q.headData q.tailData).2, 0⟩

theorem unique_eq (n : ℕ) :
    unique q.mem q.first q.last q.equals q.newList q.headData q.tailData q.allocator n =
      run q.turn n q.start := by
  rw [unique, turn, start, create]
  split_ifs with h
  · rw [h]
  · rfl

theorem removesDuplicates_iff_returns :
    q.RemovesDuplicates ↔ ∃ newList mem removed, Returns q.turn q.start (newList, mem) ∧
      Lists mem ((newList, removed) :: (q.l, q.front ++ (q.kept ++ q.back)) :: q.others) ∧
      (q.kept.map Prod.snd ++ removed.map Prod.snd).Perm (q.range.map Prod.snd) := by
  simp only [RemovesDuplicates, unique_eq, Returns]
  constructor
  · intro h
    obtain ⟨n, newList, mem, removed, hrun, h⟩ := h
    exact ⟨newList, mem, removed, ⟨n, hrun⟩, h⟩
  · intro h
    obtain ⟨newList, mem, removed, ⟨n, hrun⟩, h⟩ := h
    exact ⟨n, newList, mem, removed, hrun, h⟩

variable {q} {n : Entry} {ms : List Entry}

theorem turn_tail {mem : Nodes} {ns : List Entry} (hholds : DLinkedList.Holds mem q.newList ns)
    (hne : tail q.newList ≠ q.last) (v : Ptr) (turns : ℕ) :
    q.turn ⟨tail q.newList, some v, mem, turns⟩ =
      some (.inl ⟨tail q.newList, some v, mem, turns + 1⟩) := by
  have hpush : pushHead mem q.newList 0 (q.allocator.malloc turns mem) =
      some (.nullElementError, mem) := by
    rw [pushHead, if_neg hholds.head_ne, if_pos rfl]
  have hinner : uniqueInner q.newList q.equals (q.allocator.malloc turns) mem (tail q.newList) v =
      some mem := by
    simp only [uniqueInner, hholds.itrGet_tail, hholds.itrRemove_end, hpush, Option.bind_eq_bind,
      Option.bind_some, Option.pure_def, ite_self]
  simp only [turn, uniqueTurn, if_neg hne, hinner, hholds.itrNext_tail, Option.bind_eq_bind,
    Option.bind_some, Option.pure_def]

theorem not_returns_tail {mem : Nodes} {ns : List Entry}
    (hholds : DLinkedList.Holds mem q.newList ns) (hne : tail q.newList ≠ q.last) (v : Ptr)
    (turns : ℕ) (b : Ptr × Nodes) :
    ¬ Returns q.turn ⟨tail q.newList, some v, mem, turns⟩ b := by
  apply not_returns_of_stays (I := fun s => ∃ k, s = ⟨tail q.newList, some v, mem, k⟩)
  · intro s hs
    obtain ⟨k, rfl⟩ := hs
    exact ⟨_, turn_tail hholds hne v k, k + 1, rfl⟩
  · exact ⟨turns, rfl⟩

theorem first_turns {mem : Nodes} (hrange : q.range = n :: ms)
    (hlists : Lists mem ((q.l, q.front ++ n :: (ms ++ q.back)) :: q.others)) (turns : ℕ)
    (b : Ptr × Nodes) :
    Returns q.turn ⟨q.first, none, mem, turns⟩ b ↔
      Returns q.turn ⟨n.1, some n.2, mem, turns⟩ b := by
  have hholds : DLinkedList.Holds mem q.l (q.front ++ n :: (ms ++ q.back)) :=
    hlists.holds _ List.mem_cons_self
  have hfirst : q.first = n.1 := by rw [first, hrange]; rfl
  have hne : n.1 ≠ q.last := hholds.entry_ne_position
  have hturn : q.turn ⟨q.first, none, mem, turns⟩ =
      some (.inl ⟨n.1, some n.2, mem, turns⟩) := by
    simp only [turn, uniqueTurn, hfirst, if_neg hne, hholds.itrGet_entry, hholds.itrNext_entry,
      Option.bind_eq_bind, Option.bind_some, Option.pure_def]
  exact returns_turn_iff hturn

/-- The first element is taken out as a duplicate of itself. -/
theorem turn_first {mem mem' mem'' : Nodes} {result : ListResult} (hrange : q.range = n :: ms)
    (hholds : DLinkedList.Holds mem q.l (q.front ++ n :: (ms ++ q.back)))
    (hremove : itrRemove mem n.1 = some (n.2, mem')) {turns : ℕ}
    (hpush : pushHead mem' q.newList n.2 (q.allocator.malloc turns mem') = some (result, mem'')) :
    q.turn ⟨n.1, some n.2, mem, turns⟩ = (do
      let next ← itrNext mem'' n.1
      pure (.inl ⟨next, some n.2, mem'', turns + 1⟩)) := by
  have hne : n.1 ≠ q.last := hholds.entry_ne_position
  have hself : q.equals n.2 n.2 ≠ 0 := q.equivalence.refl ⟨n.2, by simp [hrange]⟩
  have hinner : uniqueInner q.newList q.equals (q.allocator.malloc turns) mem n.1 n.2 =
      some mem'' := by
    simp only [uniqueInner, hholds.itrGet_entry, if_pos hself, hremove, hpush,
      Option.bind_eq_bind, Option.bind_some, Option.pure_def]
  simp only [turn, uniqueTurn, if_neg hne, hinner, Option.bind_eq_bind, Option.bind_some]

/-- The freed node is left by its link, which is undefined unless the new node has been put there;
then the loop has changed to the new list. -/
theorem not_returns_first (world : World) {mem : Nodes} (hrange : q.range = n :: ms)
    (hlists : Lists mem (world ++ (q.l, q.front ++ n :: (ms ++ q.back)) :: q.others))
    (hnew : q.newList ≠ 0 → world = [(q.newList, [])]) (turns : ℕ) (b : Ptr × Nodes) :
    ¬ Returns q.turn ⟨n.1, some n.2, mem, turns⟩ b := by
  have hholds : DLinkedList.Holds mem q.l (q.front ++ n :: (ms ++ q.back)) :=
    hlists.holds (q.l, q.front ++ n :: (ms ++ q.back)) (by simp)
  obtain ⟨mem', mem'', result, hremove, hpush, hnext⟩ := hlists.moved hnew q.allocator turns
  have hturn := turn_first hrange hholds hremove hpush
  rcases hnext with hnext | ⟨hnext, hpushed⟩
  · apply not_returns_of_undefined
    rw [hturn, hnext]
    rfl
  · obtain rfl := hnew hpushed.head_ne
    have hne : tail q.newList ≠ q.last := by
      have hlists' := hlists
      rw [← List.cons_append, ← List.append_assoc] at hlists'
      exact hlists'.tail_ne_position
    rw [hnext] at hturn
    rw [returns_turn_iff hturn]
    exact not_returns_tail hpushed hne n.2 (turns + 1) b

theorem lists_start (h : q.newList ≠ 0) :
    Lists (create q.mem q.newList q.headData q.tailData).2
      ((q.newList, []) :: (q.l, q.front ++ (q.range ++ q.back)) :: q.others) :=
  q.lists.create h (q.created h).1 (q.created h).2 q.headData q.tailData

theorem not_removesDuplicates (hrange : q.range = n :: ms) : ¬ q.RemovesDuplicates := by
  rw [removesDuplicates_iff_returns]
  intro h
  obtain ⟨newList, mem, removed, hreturns, -⟩ := h
  by_cases hnull : q.newList = 0
  · have hlists := q.lists
    have hcreate : (create q.mem q.newList q.headData q.tailData).2 = q.mem := by
      rw [create, if_pos hnull]
    rw [hrange] at hlists
    rw [start, hcreate, first_turns hrange hlists] at hreturns
    exact not_returns_first [] hrange hlists (fun h => absurd hnull h) 0 _ hreturns
  · have hlists := lists_start hnull
    rw [hrange] at hlists
    have hrest : Lists (create q.mem q.newList q.headData q.tailData).2
        ((q.l, q.front ++ n :: (ms ++ q.back)) :: q.others) :=
      ⟨fun w hw => hlists.holds w (List.mem_cons_of_mem _ hw),
        (List.pairwise_cons.mp hlists.apart).2⟩
    rw [start, first_turns hrange hrest] at hreturns
    exact not_returns_first [(q.newList, [])] hrange hlists (fun _ => rfl) 0 _ hreturns

theorem returns_empty_iff (hrange : q.range = []) (b : Ptr × Nodes) :
    Returns q.turn q.start b ↔
      b = (q.newList, (create q.mem q.newList q.headData q.tailData).2) := by
  have hfirst : q.first = q.last := by rw [first, hrange, last, List.nil_append]
  have hleave : q.turn q.start =
      some (.inr (q.newList, (create q.mem q.newList q.headData q.tailData).2)) := by
    simp only [turn, uniqueTurn, start, hfirst, if_true]
  exact returns_leave_iff hleave

/-- There must be no element to look at, and memory for the new list. -/
theorem removesDuplicates_iff (q : RangeUnique) :
    q.RemovesDuplicates ↔ q.range = [] ∧ q.newList ≠ 0 := by
  cases hrange : q.range with
  | cons n ms =>
    exact iff_of_false (not_removesDuplicates hrange) fun h => List.cons_ne_nil _ _ h.1
  | nil =>
    rw [removesDuplicates_iff_returns, and_iff_right rfl]
    simp only [returns_empty_iff hrange]
    constructor
    · intro h
      obtain ⟨newList, mem, removed, heq, hlists, -⟩ := h
      cases heq
      have hholds : DLinkedList.Holds _ q.newList removed := hlists.holds _ List.mem_cons_self
      exact hholds.head_ne
    · intro h
      have hlists := lists_start h
      have hkept : q.kept = q.range := by rw [kept, hrange]; rfl
      refine ⟨q.newList, _, [], rfl, hkept ▸ hlists, ?_⟩
      rw [hkept, List.map_nil, List.append_nil]

noncomputable def oneElement : RangeUnique where
  mem := oneNode
  l := 100
  front := []
  range := [(200, 7)]
  back := []
  others := []
  lists := lists_oneNode
  items := items_oneNode
  equals := fun a b => if a = b then 1 else 0
  equivalence := by
    have hequals : ∀ a b : Ptr, (if a = b then 1 else 0 : ℤ) ≠ 0 ↔ a = b := by
      intro a b
      split_ifs <;> simp_all
    simp only [hequals]
    exact ⟨fun _ => rfl, Eq.symm, Eq.trans⟩
  adjacent := by
    intro xs a ys b zs heq
    have hlength := congrArg List.length heq
    simp only [List.length_append, List.length_cons, List.map_cons, List.map_nil,
      List.length_nil] at hlength
    omega
  newList := 400
  headData := 0
  tailData := 0
  created := fun _ => unused_oneNode
  allocator := .lowest fun _ => false

theorem not_removesDuplicates_oneElement : ¬ oneElement.RemovesDuplicates :=
  not_removesDuplicates (q := oneElement) rfl

end RangeUnique
end ChatProject
