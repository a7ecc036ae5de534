import ChatProject.ListRanges
import ChatProject.BubblePass

/-!
# `ListItr_Sort`

The loop makes one pass over the range. It looks one node ahead, so at the last node of the range
it compares the element with the one after the range.
-/

namespace ChatProject
open Memory DLinkedList Loop

namespace DLinkedList

/-- The calls of `_less` are recorded. -/
structure SortState where
  iterBegin : Ptr
  mem : Nodes
  calls : List (Ptr × Ptr)

def sortExchange (mem : Nodes) (iterBegin prevValue currValue : Ptr) : Option Nodes := do
  let (_, mem) ← itrSet mem iterBegin currValue
  let next ← itrNext mem iterBegin
  let (_, mem) ← itrSet mem next prevValue
  pure mem

def sortTurn (iterEnd : Ptr) (less : Ptr → Ptr → ℤ) (s : SortState) :
    Option (SortState ⊕ SortState) := do
  let equals ← itrEquals s.mem s.iterBegin iterEnd
  if equals then pure (.inr s)
  else
    let prevValue ← itrGet s.mem s.iterBegin
    let next ← itrNext s.mem s.iterBegin
    let currValue ← itrGet s.mem next
    let mem ← (if less prevValue currValue ≠ 0 then
        sortExchange s.mem s.iterBegin prevValue currValue
      else pure s.mem)
    let next ← itrNext mem s.iterBegin
    pure (.inl ⟨next, mem, s.calls ++ [(prevValue, currValue)]⟩)

def sort (mem : Nodes) (iterBegin iterEnd : Ptr) (less : Ptr → Ptr → ℤ) (n : ℕ) :
    Outcome SortState :=
  if iterBegin = 0 ∨ iterEnd = 0 then .returned ⟨iterBegin, mem, []⟩
  else run (sortTurn iterEnd less) n ⟨iterBegin, mem, []⟩

theorem sortTurn_cases {iterEnd : Ptr} {less : Ptr → Ptr → ℤ} {s : SortState}
    {t : SortState ⊕ SortState} (h : sortTurn iterEnd less s = some t) :
    itrEquals s.mem s.iterBegin iterEnd = some true ∧ t = .inr s ∨
      ∃ s' prev next curr, t = .inl s' ∧ itrGet s.mem s.iterBegin = some prev ∧
        itrNext s.mem s.iterBegin = some next ∧ itrGet s.mem next = some curr ∧
        s'.calls = s.calls ++ [(prev, curr)] := by
  obtain ⟨equals, hequals, h⟩ := Option.bind_eq_some_iff.mp h
  cases equals with
  | true => exact .inl ⟨hequals, (Option.some.inj h).symm⟩
  | false =>
    obtain ⟨prev, hprev, h⟩ := Option.bind_eq_some_iff.mp h
    obtain ⟨next, hnext, h⟩ := Option.bind_eq_some_iff.mp h
    obtain ⟨curr, hcurr, h⟩ := Option.bind_eq_some_iff.mp h
    obtain ⟨mem, -, h⟩ := Option.bind_eq_some_iff.mp h
    obtain ⟨itr, -, h⟩ := Option.bind_eq_some_iff.mp h
    exact .inr ⟨_, prev, next, curr, (Option.some.inj h).symm, hprev, hnext, hcurr, rfl⟩

theorem sort_call_mem {iterEnd : Ptr} {less : Ptr → Ptr → ℤ} {s s' : SortState} {call : Ptr × Ptr}
    (h : Returns (sortTurn iterEnd less) s s') (hcall : call ∈ s.calls) : call ∈ s'.calls := by
  refine h.of_invariant (I := fun s => call ∈ s.calls) (Q := fun s => call ∈ s.calls)
    (fun s s' hs hturn => ?_) (fun s b hs hturn => ?_) hcall
  · rcases sortTurn_cases hturn with h | h
    · cases h.2
    · obtain ⟨s₁, prev, next, curr, heq, -, -, -, hcalls⟩ := h
      cases heq
      rw [hcalls]
      exact List.mem_append_left _ hs
  · rcases sortTurn_cases hturn with h | h
    · cases h.2
      exact hs
    · obtain ⟨s₁, prev, next, curr, heq, -⟩ := h
      cases heq

variable {mem : Nodes} {l : Ptr} {ns ms : List Entry} {n m : Entry}

theorem Holds.set_entry (h : Holds mem l (ns ++ n :: ms)) {node : Node}
    (hnode : mem n.1 = some node) (element : Ptr) :
    Holds (Function.update mem n.1 (some { node with data := element })) l
      (ns ++ (n.1, element) :: ms) := by
  set mem' : Nodes := Function.update mem n.1 (some { node with data := element })
  have hself : mem' n.1 = some { node with data := element } := Function.update_self _ _ _
  have hsame : ∀ p, p ≠ n.1 → mem' p = mem p := fun p hp => Function.update_of_ne hp _ _
  have hlinks : ∀ p, mem'.next p = mem.next p ∧ mem'.prev p = mem.prev p := by
    intro p
    by_cases hp : p = n.1
    · rw [hp]
      simp only [Nodes.next, Nodes.prev, hself, hnode, Option.map_some, and_self]
    · simp only [Nodes.next, Nodes.prev, hsame p hp, and_self]
  have hcells : cells l (ns ++ (n.1, element) :: ms) = cells l (ns ++ n :: ms) := by simp [cells]
  constructor
  · rw [hcells]
    exact isChain_frame h.linked (fun p _ => (hlinks p).1) fun p _ => (hlinks p).2
  · rw [hcells]
    exact h.nodup
  · exact (hlinks _).1.trans h.ended
  · intro p hp
    rw [hcells] at hp
    refine ⟨(h.live p hp).1, ?_⟩
    by_cases hpn : p = n.1
    · rw [hpn, hself]
      exact Option.some_ne_none _
    · rw [hsame p hpn]
      exact (h.live p hp).2
  · intro m hm
    rcases List.mem_cons.mp (List.perm_middle.mem_iff.mp hm) with rfl | hm
    · rw [Nodes.data, hself]
      rfl
    · rw [Nodes.data, hsame _ (h.ne_entry hm)]
      exact h.data m (List.perm_middle.mem_iff.mpr (List.mem_cons_of_mem n hm))

theorem Holds.itrSet_entry (h : Holds mem l (ns ++ n :: ms)) {element : Ptr}
    (helement : element ≠ 0) :
    ∃ mem', itrSet mem n.1 element = some (n.2, mem') ∧ Holds mem' l (ns ++ (n.1, element) :: ms) ∧
      ∀ p, p ≠ n.1 → mem' p = mem p := by
  obtain ⟨node, hnode⟩ := Option.ne_none_iff_exists'.mp (h.live n.1 (mem_cells (by simp))).2
  refine ⟨_, ?_, h.set_entry hnode element, fun p hp => Function.update_of_ne hp _ _⟩
  simp only [itrSet, h.entry_ne, helement, or_self, if_false, h.data n (by simp),
    Nodes.setData_of_some hnode, Option.bind_eq_bind, Option.bind_some]
  rfl

theorem Holds.sortTurn_entry {s : SortState} {iterEnd word : Ptr} {less : Ptr → Ptr → ℤ}
    (h : Holds s.mem l (ns ++ n :: m :: ms)) (hitr : s.iterBegin = n.1) (hn : n.2 ≠ 0)
    (hm : m.2 ≠ 0) (hend : iterEnd ≠ 0) (hword : s.mem.data iterEnd = some word)
    (hne : n.2 ≠ word) :
    ∃ mem', sortTurn iterEnd less s = some (.inl ⟨m.1, mem', s.calls ++ [(n.2, m.2)]⟩) ∧
      (less n.2 m.2 ≠ 0 → Holds mem' l (ns ++ (n.1, m.2) :: (m.1, n.2) :: ms)) ∧
      (less n.2 m.2 = 0 → mem' = s.mem) ∧
      ∀ p, p ≠ n.1 → p ≠ m.1 → mem' p = s.mem p := by
  have hequals := itrEquals_of_data h.entry_ne hend (h.data n (by simp)) hword
  have hnext : itrNext s.mem n.1 = some m.1 := h.itrNext_entry
  have hcurr : itrGet s.mem m.1 = some m.2 := h.snoc.itrGet_entry
  by_cases hless : less n.2 m.2 = 0
  · refine ⟨s.mem, ?_, fun hne => absurd hless hne, fun _ => rfl, fun _ _ _ => rfl⟩
    simp only [sortTurn, hitr, hequals, hne, h.itrGet_entry, hnext, hcurr, hless, ne_eq,
      not_true_eq_false, decide_false, Bool.false_eq_true, if_false, Option.bind_eq_bind,
      Option.bind_some, Option.pure_def]
  · obtain ⟨mem₁, hset, hholds, hsame⟩ := h.itrSet_entry hm
    have hnext₁ : itrNext mem₁ n.1 = some m.1 := Holds.itrNext_entry (n := (n.1, m.2)) hholds
    obtain ⟨mem₂, hset₂, hholds₂, hsame₂⟩ := hholds.snoc.itrSet_entry hn
    rw [← List.append_cons] at hholds₂
    have hnext₂ : itrNext mem₂ n.1 = some m.1 := Holds.itrNext_entry (n := (n.1, m.2)) hholds₂
    refine ⟨mem₂, ?_, fun _ => hholds₂, fun heq => absurd heq hless, fun p hpn hpm => ?_⟩
    swap
    · exact (hsame₂ p hpm).trans (hsame p hpn)
    simp only [sortTurn, hitr, hequals, hne, h.itrGet_entry, hnext, hcurr, hless, ne_eq,
      not_false_eq_true, decide_false, Bool.false_eq_true, if_false, if_true, sortExchange, hset,
      hset₂, hnext₁, hnext₂, Option.bind_eq_bind, Option.bind_some, Option.pure_def]

end DLinkedList

open BubblePass

structure RangeSort extends ListRange where
  less : Ptr → Ptr → ℤ
  ordered : OrderedOn (fun a b => less a b ≠ 0) (range.map Prod.snd)

namespace RangeSort
variable (q : RangeSort)

def elements : List Ptr := q.range.map Prod.snd

def Less : Ptr → Ptr → Prop := fun a b => q.less a b ≠ 0

instance : DecidableRel q.Less := fun a b => inferInstanceAs (Decidable (q.less a b ≠ 0))

def Sorted (xs : List Ptr) : Prop := xs.Pairwise fun a b => ¬ q.Less b a

/-- `ListItr_Sort` ends, has compared elements of the range only, and leaves the range sorted and
the rest of the memory as it was. -/
def Sorts : Prop :=
  ∃ n s, sort q.mem q.first q.last q.less n = .returned s ∧
    (∀ call ∈ s.calls, call.1 ∈ q.elements ∧ call.2 ∈ q.elements) ∧
    (∃ range', DLinkedList.Holds s.mem q.l (q.front ++ (range' ++ q.back)) ∧
      (range'.map Prod.snd).Perm q.elements ∧ q.Sorted (range'.map Prod.snd)) ∧
    ∀ p, p ∉ q.range.map Prod.fst → s.mem p = q.mem p

theorem sort_eq (n : ℕ) :
    sort q.mem q.first q.last q.less n =
      run (sortTurn q.last q.less) n ⟨q.first, q.mem, []⟩ := by
  rw [sort, if_neg (not_or.mpr ⟨q.first_ne, q.last_ne⟩)]

theorem last_notMem : q.last ∉ q.range.map Prod.fst := by
  intro hmem
  obtain ⟨n, hn, heq⟩ := List.mem_map.mp hmem
  obtain ⟨ns, ms, hrange⟩ := List.append_of_mem hn
  have hholds := q.holds
  have happ : q.front ++ (q.range ++ q.back) = (q.front ++ ns) ++ n :: (ms ++ q.back) := by
    simp [hrange]
  exact (happ ▸ hholds).entry_ne_position heq

/-- The loop is at the node `n` of the range, with `passed` behind it and `ms` before it. -/
structure At (s : SortState) (passed : List Entry) (n : Entry) (ms : List Entry) : Prop where
  itr : s.iterBegin = n.1
  holds : DLinkedList.Holds s.mem q.l (q.front ++ (passed ++ n :: ms ++ q.back))
  addrs : (passed ++ n :: ms).map Prod.fst = q.range.map Prod.fst
  perm : ((passed ++ n :: ms).map Prod.snd).Perm q.elements
  calls : ∀ call ∈ s.calls, call.1 ∈ q.elements ∧ call.2 ∈ q.elements
  kept : ∀ p, p ∉ q.range.map Prod.fst → s.mem p = q.mem p

variable {q} {s : SortState} {passed ms : List Entry} {n m : Entry}

theorem orderedOn (q : RangeSort) : OrderedOn q.Less q.elements := q.ordered

theorem item_ne {x : Ptr} (hx : x ∈ q.elements) : x ≠ 0 := by
  obtain ⟨n, hn, rfl⟩ := List.mem_map.mp hx
  exact q.items n (List.mem_append_right _ (List.mem_append_left _ hn))

theorem At.mem_elements (h : q.At s passed n ms) : (n :: ms).map Prod.snd ⊆ q.elements := by
  intro x hx
  refine h.perm.mem_iff.mp ?_
  rw [List.map_append]
  exact List.mem_append_right _ hx

theorem At.word (h : q.At s passed n ms) : s.mem.data q.last = some q.word := by
  rw [Nodes.data, h.kept _ q.last_notMem]
  exact q.data_last

theorem At.holds_node (h : q.At s passed n ms) :
    DLinkedList.Holds s.mem q.l ((q.front ++ passed) ++ n :: (ms ++ q.back)) := by
  have hholds := h.holds
  rwa [List.append_assoc passed, ← List.append_assoc q.front] at hholds

theorem At.equals (h : q.At s passed n ms) :
    itrEquals s.mem s.iterBegin q.last = some (decide (n.2 = q.word)) := by
  have hholds := h.holds_node
  rw [h.itr]
  exact itrEquals_of_data hholds.entry_ne q.last_ne (hholds.data n (by simp)) h.word

theorem At.leave (h : q.At s passed n ms) (hword : n.2 = q.word) :
    sortTurn q.last q.less s = some (.inr s) := by
  simp only [sortTurn, h.equals, hword, decide_true, if_true, Option.bind_eq_bind,
    Option.bind_some, Option.pure_def]

theorem At.turn (h : q.At s passed n (m :: ms)) (hword : n.2 ≠ q.word) :
    ∃ s', sortTurn q.last q.less s = some (.inl s') ∧
      if q.Less n.2 m.2 then q.At s' (passed ++ [(n.1, m.2)]) (m.1, n.2) ms
      else q.At s' (passed ++ [n]) m ms := by
  have hn : n.2 ∈ q.elements := h.mem_elements (by simp)
  have hm : m.2 ∈ q.elements := h.mem_elements (by simp)
  have haddr : ∀ p, p ∉ q.range.map Prod.fst → p ≠ n.1 ∧ p ≠ m.1 := by
    intro p hp
    rw [← h.addrs] at hp
    simp only [List.map_append, List.map_cons, List.mem_append, List.mem_cons, not_or] at hp
    exact ⟨hp.2.1, hp.2.2.1⟩
  have hholds := h.holds_node
  obtain ⟨mem', hturn, hswapped, hleft, hsame⟩ :=
    hholds.sortTurn_entry h.itr (item_ne hn) (item_ne hm) q.last_ne h.word hword
  have hcalls : ∀ call ∈ s.calls ++ [(n.2, m.2)], call.1 ∈ q.elements ∧ call.2 ∈ q.elements := by
    intro call hcall
    rcases List.mem_append.mp hcall with hcall | hcall
    · exact h.calls call hcall
    · rw [List.mem_singleton.mp hcall]
      exact ⟨hn, hm⟩
  have hkept : ∀ p, p ∉ q.range.map Prod.fst → mem' p = q.mem p := by
    intro p hp
    rw [hsame p (haddr p hp).1 (haddr p hp).2, h.kept p hp]
  refine ⟨_, hturn, ?_⟩
  split_ifs with hless
  · refine ⟨rfl, by simpa using hswapped hless, by simpa using h.addrs, ?_, hcalls, hkept⟩
    refine List.Perm.trans ?_ h.perm
    simp only [List.map_append, List.map_cons, List.append_assoc, List.singleton_append]
    exact (List.Perm.swap n.2 m.2 _).append_left _
  · refine ⟨rfl, ?_, by simpa using h.addrs, by simpa using h.perm, hcalls, hkept⟩
    rw [hleft (not_not.mp hless)]
    simpa using hholds

/-- The loop does on the nodes what a pass does on their elements. -/
theorem At.pass (h : q.At s passed n ms) :
    ∃ s' passed' n' ms', q.At s' passed' n' ms' ∧
      (∀ b, Returns (sortTurn q.last q.less) s b ↔ Returns (sortTurn q.last q.less) s' b) ∧
      passed'.map Prod.snd = passed.map Prod.snd ++
        (BubblePass.pass q.Less q.word n.2 (ms.map Prod.snd)).passed ∧
      n'.2 = (BubblePass.pass q.Less q.word n.2 (ms.map Prod.snd)).carry ∧
      ms'.map Prod.snd = (BubblePass.pass q.Less q.word n.2 (ms.map Prod.snd)).rest := by
  induction ms generalizing s passed n with
  | nil => exact ⟨s, passed, n, [], h, fun _ => Iff.rfl, by simp [BubblePass.pass], rfl, rfl⟩
  | cons m ms ih =>
    rw [List.map_cons, BubblePass.pass]
    by_cases hword : n.2 = q.word
    · rw [if_pos hword]
      exact ⟨s, passed, n, m :: ms, h, fun _ => Iff.rfl, by simp, rfl, rfl⟩
    rw [if_neg hword]
    obtain ⟨s₁, hturn, hat⟩ := h.turn hword
    split_ifs at hat ⊢ with hless
    · obtain ⟨s', passed', n', ms', hat', hreturns, hpassed, hn', hms'⟩ := ih hat
      refine ⟨s', passed', n', ms', hat', fun b => ?_, by simp [hpassed, Pass.behind], hn', hms'⟩
      exact (returns_turn_iff hturn).trans (hreturns b)
    · obtain ⟨s', passed', n', ms', hat', hreturns, hpassed, hn', hms'⟩ := ih hat
      refine ⟨s', passed', n', ms', hat', fun b => ?_, by simp [hpassed, Pass.behind], hn', hms'⟩
      exact (returns_turn_iff hturn).trans (hreturns b)

/-- At the end of the list the last element is compared with `NULL`. -/
theorem At.compares_null (h : q.At s passed n []) (hword : n.2 ≠ q.word) (hback : q.back = [])
    {s' : SortState} (hreturns : Returns (sortTurn q.last q.less) s s') : (n.2, 0) ∈ s'.calls := by
  have hholds := h.holds_node
  rw [hback] at hholds
  have hnext : itrNext s.mem n.1 = some (tail q.l) := hholds.itrNext_entry
  cases hturn : sortTurn q.last q.less s with
  | none => exact absurd hreturns (not_returns_of_undefined hturn)
  | some t =>
    rcases sortTurn_cases hturn with hleave | hgo
    · rw [h.equals, decide_eq_false hword] at hleave
      cases hleave.1
    · obtain ⟨s₁, prev, next, curr, rfl, hprev, hnext', hcurr, hcalls⟩ := hgo
      rw [h.itr, hholds.itrGet_entry] at hprev
      rw [h.itr, hnext] at hnext'
      cases hprev
      cases hnext'
      rw [hholds.itrGet_tail] at hcurr
      cases hcurr
      refine sort_call_mem ((returns_turn_iff hturn).mp hreturns) ?_
      rw [hcalls]
      exact List.mem_append_right _ (List.mem_singleton_self _)

theorem At.compares_next (h : q.At s passed n []) (hword : n.2 ≠ q.word) {m : Entry}
    {back : List Entry} (hback : q.back = m :: back) {s' : SortState}
    (hreturns : Returns (sortTurn q.last q.less) s s') :
    (n.2, q.word) ∈ s'.calls ∧ (q.Less n.2 q.word → s'.mem.data q.last = some n.2) := by
  have hholds : DLinkedList.Holds s.mem q.l ((q.front ++ passed) ++ n :: m :: back) := by
    have hholds := h.holds_node
    rwa [hback] at hholds
  have hm : q.last = m.1 := by rw [ListRange.last, hback, position]
  have hlast_ne := q.last_ne
  have hdata := h.word
  rw [hm] at hdata hlast_ne hreturns ⊢
  have hmword : m.2 = q.word := by
    have hm_data := hholds.data m (by simp)
    rw [hdata] at hm_data
    exact (Option.some.inj hm_data).symm
  have hm_ne : m.2 ≠ 0 := q.items m (by simp [hback])
  obtain ⟨mem', hturn, hswapped, -, -⟩ :=
    hholds.sortTurn_entry h.itr (item_ne (h.mem_elements (by simp))) hm_ne hlast_ne hdata hword
  rw [returns_turn_iff hturn] at hreturns
  refine ⟨sort_call_mem hreturns (by simp [hmword]), fun hless => ?_⟩
  have hholds' := (hswapped (hmword ▸ hless)).snoc
  have hself : itrEquals mem' m.1 m.1 = some true := hholds'.itrEquals_self
  have hleave : sortTurn m.1 q.less ⟨m.1, mem', s.calls ++ [(n.2, m.2)]⟩ =
      some (.inr ⟨m.1, mem', s.calls ++ [(n.2, m.2)]⟩) := by
    simp only [sortTurn, hself, if_true, Option.bind_eq_bind, Option.bind_some, Option.pure_def]
  rw [returns_leave_iff hleave] at hreturns
  rw [hreturns]
  exact hholds'.data (m.1, n.2) (by simp)

/-- A loop that does not stop at the last node of the range has gone outside it. -/
theorem At.not_sorts_last (h : q.At s passed n []) (hword : n.2 ≠ q.word)
    (hless : q.word ∈ q.elements → q.Less n.2 q.word) {s' : SortState}
    (hreturns : Returns (sortTurn q.last q.less) s s')
    (hcalls : ∀ call ∈ s'.calls, call.1 ∈ q.elements ∧ call.2 ∈ q.elements)
    (hkept : ∀ p, p ∉ q.range.map Prod.fst → s'.mem p = q.mem p) : False := by
  cases hback : q.back with
  | nil =>
    have hcall := h.compares_null hword hback hreturns
    exact item_ne (hcalls _ hcall).2 rfl
  | cons m back =>
    obtain ⟨hcall, hreplaced⟩ := h.compares_next hword hback hreturns
    have hdata := hreplaced (hless (hcalls _ hcall).2)
    rw [Nodes.data, hkept _ q.last_notMem] at hdata
    have hlast := q.data_last
    rw [Nodes.data, hdata] at hlast
    exact hword (Option.some.inj hlast)

theorem sorts_iff_returns :
    q.Sorts ↔ ∃ s, Returns (sortTurn q.last q.less) ⟨q.first, q.mem, []⟩ s ∧
      (∀ call ∈ s.calls, call.1 ∈ q.elements ∧ call.2 ∈ q.elements) ∧
      (∃ range', DLinkedList.Holds s.mem q.l (q.front ++ (range' ++ q.back)) ∧
        (range'.map Prod.snd).Perm q.elements ∧ q.Sorted (range'.map Prod.snd)) ∧
      ∀ p, p ∉ q.range.map Prod.fst → s.mem p = q.mem p := by
  simp only [Sorts, sort_eq]
  exact exists_returned_iff id

theorem At.sorts_cons_iff (h : q.At ⟨q.first, q.mem, []⟩ [] n ms) (hrange : q.range = n :: ms) :
    q.Sorts ↔ q.Sorted q.elements ∧ q.word ∈ q.elements ∧ ¬ q.Less n.2 q.word := by
  have hsub : n.2 :: ms.map Prod.snd ⊆ q.elements := h.mem_elements
  have helements : q.elements = n.2 :: ms.map Prod.snd := by rw [elements, hrange]; rfl
  obtain ⟨s', passed, n', ms', hat, hreturns, hpassed, hn', hms'⟩ := h.pass
  have hitems : (passed ++ n' :: ms').map Prod.snd =
      (BubblePass.pass q.Less q.word n.2 (ms.map Prod.snd)).items := by
    rw [List.map_append, List.map_cons, hpassed, hn', hms']
    rfl
  rw [sorts_iff_returns]
  constructor
  · intro hsorts
    obtain ⟨s, hs, hcalls, hsorted, hkept⟩ := hsorts
    obtain ⟨range', hholds, -, hsorted⟩ := hsorted
    rw [hreturns] at hs
    by_cases hword : n'.2 = q.word
    · rw [returns_leave_iff (hat.leave hword)] at hs
      subst hs
      have heq := hholds.unique hat.holds
      rw [List.append_cancel_left_eq, List.append_cancel_right_eq] at heq
      rw [heq, hitems] at hsorted
      have hsame := items_of_sorted hsorted
      rw [hsame, ← helements] at hsorted
      refine ⟨hsorted, ?_, ?_⟩
      · rw [← hword]
        exact hat.mem_elements (by simp)
      · rw [← hword, hn']
        exact not_lt_carry q.orderedOn hsub
    · have hrest : ms' = [] := by
        rw [hn'] at hword
        exact List.map_eq_nil_iff.mp (hms'.trans (rest_eq_nil hword))
      subst hrest
      refine (hat.not_sorts_last hword (fun hmem => ?_) hs hcalls hkept).elim
      rw [hn'] at hword ⊢
      exact carry_lt_stop q.orderedOn hsub hword (helements ▸ hmem)
  · intro hcond
    obtain ⟨hsorted, hmem, hless⟩ := hcond
    rw [helements] at hsorted hmem
    obtain ⟨hcarry, hsame⟩ := pass_of_sorted q.orderedOn hsub hsorted hmem hless
    refine ⟨s', ?_, hat.calls, ⟨passed ++ n' :: ms', hat.holds, hat.perm, ?_⟩, hat.kept⟩
    · rw [hreturns, returns_leave_iff (hat.leave (hn'.trans hcarry))]
    · rw [hitems, hsame]
      exact hsorted

theorem at_first (q : RangeSort) (hrange : q.range = n :: ms) :
    q.At ⟨q.first, q.mem, []⟩ [] n ms := by
  refine ⟨?_, ?_, by rw [hrange]; rfl, ?_, by simp, fun _ _ => rfl⟩
  · rw [ListRange.first, hrange]
    rfl
  · have hholds := q.holds
    rwa [hrange] at hholds
  · rw [elements, hrange]
    exact List.Perm.refl _

theorem sorts_of_empty (q : RangeSort) (hrange : q.range = []) : q.Sorts := by
  have hfirst : q.first = q.last := by rw [ListRange.first, hrange, ListRange.last, List.nil_append]
  have hself : itrEquals q.mem q.last q.last = some true := q.holds_back.itrEquals_self
  have hleave : sortTurn q.last q.less ⟨q.first, q.mem, []⟩ = some (.inr ⟨q.first, q.mem, []⟩) := by
    rw [hfirst]
    simp only [sortTurn, hself, if_true, Option.bind_eq_bind, Option.bind_some, Option.pure_def]
  refine sorts_iff_returns.mpr ⟨_, (returns_leave_iff hleave).mpr rfl, by simp, ?_, fun _ _ => rfl⟩
  refine ⟨[], ?_, by rw [elements, hrange], List.Pairwise.nil⟩
  have hholds := q.holds
  rwa [hrange] at hholds

/-- The pass sorts only a range that is sorted, and that ends at a node with an element that is
among the first of the range. -/
theorem sorts_iff (q : RangeSort) :
    q.Sorts ↔ q.range = [] ∨
      q.Sorted q.elements ∧ q.word ∈ q.elements ∧ ∀ n ∈ q.range.head?, ¬ q.Less n.2 q.word := by
  cases hrange : q.range with
  | nil => exact iff_of_true (q.sorts_of_empty hrange) (.inl rfl)
  | cons n ms =>
    rw [(q.at_first hrange).sorts_cons_iff hrange, or_iff_right (List.cons_ne_nil n ms)]
    simp only [List.head?_cons, Option.mem_def, Option.some.injEq, forall_eq']

def wholeList : RangeSort where
  mem := fun p =>
    [(100, ⟨0, 200, 0⟩), (200, ⟨8, 300, 100⟩), (300, ⟨9, 124, 200⟩), (124, ⟨0, 124, 300⟩)].lookup p
  l := 100
  front := []
  range := [(200, 8), (300, 9)]
  back := []
  holds := by decide
  items := by decide
  less := fun a b => if a < b then 1 else 0
  ordered := by
    have hlt : ∀ a b : Ptr, (if a < b then 1 else 0 : ℤ) ≠ 0 ↔ a < b := by
      intro a b
      split_ifs <;> simp_all
    simp only [OrderedOn, hlt]
    exact @isStrictWeakOrder_of_isOrderConnected _ _ ⟨fun a b => Nat.lt_asymm⟩
      ⟨fun a b c hac => (Nat.lt_or_ge a b).imp_right fun hba => Nat.lt_of_le_of_lt hba hac⟩

theorem not_sorts_wholeList : ¬ wholeList.Sorts := by
  have hword : wholeList.word ∉ wholeList.elements := by decide
  rw [(wholeList.at_first rfl).sorts_cons_iff rfl]
  intro h
  exact hword h.2.1

end RangeSort
end ChatProject
