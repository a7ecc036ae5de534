import ChatProject.ListRanges

/-!
# `ListItr_FindFirst`, `ListItr_CountIf` and `ListItr_ForEach`

Callbacks get the element of a node. A predicate answers for the element in the context that is
passed along; an action may change its context.
-/

namespace ChatProject
open Memory DLinkedList Loop

namespace DLinkedList
variable {σ : Type}

def findFirstTurn (mem : Nodes) (iterEnd : Ptr) (predicate : Ptr → ℤ) (iterator : Ptr) :
    Option (Ptr ⊕ Ptr) := do
  let equals ← itrEquals mem iterator iterEnd
  if equals then pure (.inr iterEnd)
  else
    let element ← itrGet mem iterator
    if predicate element ≠ 0 then
      let next ← itrNext mem iterator
      pure (.inl next)
    else pure (.inr iterator)

def findFirst (mem : Nodes) (iterBegin iterEnd : Ptr) (predicate : Option (Ptr → ℤ)) (n : ℕ) :
    Outcome Ptr :=
  if iterBegin = 0 ∨ iterEnd = 0 then .returned 0
  else
    match predicate with
    | none => .returned iterEnd
    | some predicate => run (findFirstTurn mem iterEnd predicate) n iterBegin

/-- The counter is returned in the body of the loop, 0 after the loop. -/
def countIfTurn (mem : Nodes) (iterEnd : Ptr) (predicate : Ptr → ℤ) (s : Ptr × ℕ) :
    Option ((Ptr × ℕ) ⊕ ℕ) := do
  let equals ← itrEquals mem s.1 iterEnd
  if equals then pure (.inr 0)
  else
    let element ← itrGet mem s.1
    let counter := if predicate element ≠ 0 then s.2 + 1 else s.2
    pure (.inr counter)

def countIf (mem : Nodes) (iterBegin iterEnd : Ptr) (predicate : Option (Ptr → ℤ)) (n : ℕ) :
    Outcome ℕ :=
  match predicate with
  | none => .returned 0
  | some predicate => run (countIfTurn mem iterEnd predicate) n (iterBegin, 0)

/-- The iterator, the context, and the elements that the action was applied to. -/
structure ForEachState (σ : Type) where
  iterator : Ptr
  context : σ
  elements : List Ptr

def forEachTurn (mem : Nodes) (iterEnd : Ptr) (action : Ptr → σ → ℤ × σ) (s : ForEachState σ) :
    Option (ForEachState σ ⊕ ForEachState σ) := do
  let equals ← itrEquals mem s.iterator iterEnd
  if equals then pure (.inr { s with iterator := iterEnd })
  else
    let element ← itrGet mem s.iterator
    let (result, context) := action element s.context
    let s := { s with context := context, elements := s.elements ++ [element] }
    if result ≠ 0 then pure (.inr s)
    else
      let next ← itrNext mem s.iterator
      pure (.inl { s with iterator := next })

def forEach (mem : Nodes) (iterBegin iterEnd : Ptr) (action : Option (Ptr → σ → ℤ × σ))
    (context : σ) (n : ℕ) : Outcome (ForEachState σ) :=
  if iterBegin = 0 ∨ iterEnd = 0 then .returned ⟨0, context, []⟩
  else
    match action with
    | none => .returned ⟨iterEnd, context, []⟩
    | some action => run (forEachTurn mem iterEnd action) n ⟨iterBegin, context, []⟩

end DLinkedList

/-- The action applied up to and including the first element for which it returns 0. -/
def applyUntilZero {σ : Type} (action : Ptr → σ → ℤ × σ) (iterEnd : Ptr) :
    List Entry → σ → ForEachState σ
  | [], context => ⟨iterEnd, context, []⟩
  | n :: ns, context =>
    let (result, context) := action n.2 context
    if result = 0 then ⟨n.1, context, [n.2]⟩
    else
      let s := applyUntilZero action iterEnd ns context
      { s with elements := n.2 :: s.elements }

section
variable {σ : Type} {action : Ptr → σ → ℤ × σ} {iterEnd : Ptr} {context : σ} {n : Entry}

theorem applyUntilZero_cons (ns : List Entry) :
    applyUntilZero action iterEnd (n :: ns) context =
      if (action n.2 context).1 = 0 then ⟨n.1, (action n.2 context).2, [n.2]⟩
      else
        { applyUntilZero action iterEnd ns (action n.2 context).2 with
          elements := n.2 :: (applyUntilZero action iterEnd ns (action n.2 context).2).elements } :=
  rfl

theorem applyUntilZero_elements_ne {ns : List Entry} :
    (applyUntilZero action iterEnd (n :: ns) context).elements ≠ [] := by
  rw [applyUntilZero_cons]
  split_ifs <;> exact List.cons_ne_nil _ _

theorem applyUntilZero_iterator (ns : List Entry) :
    (applyUntilZero action iterEnd ns context).iterator = iterEnd ∨
      (applyUntilZero action iterEnd ns context).iterator ∈ ns.map Prod.fst := by
  induction ns generalizing context with
  | nil => exact .inl rfl
  | cons n ns ih =>
    rw [applyUntilZero_cons]
    split_ifs
    · exact .inr List.mem_cons_self
    · exact ih.imp_right (List.mem_cons_of_mem _)

end

structure RangeQuery (σ : Type) extends ListRange where
  predicate : Ptr → ℤ
  action : Ptr → σ → ℤ × σ
  context : σ

namespace RangeQuery
variable {σ : Type} (q : RangeQuery σ)

def holding : Entry → Bool := fun n => q.predicate n.2 ≠ 0

def firstHolding : Ptr := ((q.range.find? q.holding).map Prod.fst).getD q.last

def FindsFirst : Prop :=
  ∃ n, findFirst q.mem q.first q.last (some q.predicate) n = .returned q.firstHolding

def Counts : Prop :=
  ∃ n, countIf q.mem q.first q.last (some q.predicate) n = .returned (q.range.countP q.holding)

def AppliesEach : Prop :=
  ∃ n, forEach q.mem q.first q.last (some q.action) q.context n =
    .returned (applyUntilZero q.action q.last q.range q.context)

/-- The three functions do what their descriptions say, and a count of 0 means that there is no
first element to find. -/
structure MeetsContracts : Prop where
  findsFirst : q.FindsFirst
  counts : q.Counts
  appliesEach : q.AppliesEach
  agree : ∀ n m counter itr, countIf q.mem q.first q.last (some q.predicate) n = .returned counter →
    findFirst q.mem q.first q.last (some q.predicate) m = .returned itr →
    (counter = 0 ↔ itr = q.last)

theorem findFirst_eq (n : ℕ) :
    findFirst q.mem q.first q.last (some q.predicate) n =
      run (findFirstTurn q.mem q.last q.predicate) n q.first := by
  rw [findFirst, if_neg (not_or.mpr ⟨q.first_ne, q.last_ne⟩)]

theorem forEach_eq (n : ℕ) :
    forEach q.mem q.first q.last (some q.action) q.context n =
      run (forEachTurn q.mem q.last q.action) n ⟨q.first, q.context, []⟩ := by
  rw [forEach, if_neg (not_or.mpr ⟨q.first_ne, q.last_ne⟩)]

theorem findsFirst_iff_returns :
    q.FindsFirst ↔ Returns (findFirstTurn q.mem q.last q.predicate) q.first q.firstHolding := by
  simp only [FindsFirst, Returns, findFirst_eq]

theorem counts_iff_returns :
    q.Counts ↔ Returns (countIfTurn q.mem q.last q.predicate) (q.first, 0)
      (q.range.countP q.holding) := by
  simp only [Counts, Returns, countIf]

theorem appliesEach_iff_returns :
    q.AppliesEach ↔ Returns (forEachTurn q.mem q.last q.action) ⟨q.first, q.context, []⟩
      (applyUntilZero q.action q.last q.range q.context) := by
  simp only [AppliesEach, Returns, forEach_eq]

def At (itr : Ptr) (ms : List Entry) : Prop :=
  itr = position q.l (ms ++ q.back) ∧
    ∃ ns, DLinkedList.Holds q.mem q.l (ns ++ (ms ++ q.back))

variable {q} {itr : Ptr} {n : Entry} {ms : List Entry}

theorem at_first (q : RangeQuery σ) : q.At q.first q.range := ⟨rfl, q.front, q.holds⟩

theorem At.equals_end (h : q.At itr []) : itrEquals q.mem itr q.last = some true := by
  obtain ⟨rfl, ns, hns⟩ := h
  exact hns.itrEquals_self

theorem At.equals_entry (h : q.At itr (n :: ms)) :
    itrEquals q.mem itr q.last = some (decide (n.2 = q.word)) := by
  obtain ⟨rfl, ns, hns⟩ := h
  exact hns.itrEquals_position q.last_ne q.data_last

theorem At.get_entry (h : q.At itr (n :: ms)) : itrGet q.mem itr = some n.2 := by
  obtain ⟨rfl, ns, hns⟩ := h
  exact hns.itrGet_entry

theorem At.next_entry (h : q.At itr (n :: ms)) :
    itrNext q.mem itr = some (position q.l (ms ++ q.back)) ∧
      q.At (position q.l (ms ++ q.back)) ms := by
  obtain ⟨rfl, ns, hns⟩ := h
  exact ⟨hns.itrNext_entry, rfl, ns ++ [n], hns.snoc⟩

theorem At.entry_ne_last (h : q.At itr (n :: ms)) : n.1 ≠ q.last := by
  obtain ⟨rfl, ns, hns⟩ := h
  exact hns.entry_ne_position

theorem At.entry_notMem (h : q.At itr (n :: ms)) : n.1 ∉ ms.map Prod.fst := by
  obtain ⟨rfl, ns, hns⟩ := h
  intro hmem
  have hmem' : n.1 ∈ (ms ++ q.back).map Prod.fst := by
    rw [List.map_append]
    exact List.mem_append_left _ hmem
  exact hns.entry_notMem (List.mem_append_left _ hmem')

theorem At.findFirst_end (h : q.At itr []) :
    findFirstTurn q.mem q.last q.predicate itr = some (.inr q.last) := by
  simp only [findFirstTurn, h.equals_end, Option.bind_eq_bind, Option.bind_some, if_true]
  rfl

theorem At.findFirst_entry (h : q.At itr (n :: ms)) :
    findFirstTurn q.mem q.last q.predicate itr = some (
      if n.2 = q.word then .inr q.last
      else if q.predicate n.2 ≠ 0 then .inl (position q.l (ms ++ q.back))
      else .inr n.1) := by
  obtain ⟨rfl, -⟩ := id h
  simp only [findFirstTurn, h.equals_entry, h.get_entry, h.next_entry.1, Option.bind_eq_bind,
    Option.bind_some, decide_eq_true_eq]
  split_ifs <;> rfl

theorem At.not_findFirst (h : q.At itr ms) (hlast : n.1 ≠ q.last) (hmem : n.1 ∉ ms.map Prod.fst) :
    ¬ Returns (findFirstTurn q.mem q.last q.predicate) itr n.1 := by
  induction ms generalizing itr with
  | nil =>
    rw [returns_leave_iff h.findFirst_end]
    exact hlast
  | cons m ms ih =>
    obtain ⟨hne, hmem'⟩ := not_or.mp (List.mem_cons.not.mp hmem)
    have hturn := h.findFirst_entry
    split_ifs at hturn
    · rw [returns_leave_iff hturn]
      exact hlast
    · rw [returns_turn_iff hturn]
      exact ih h.next_entry.2 hmem'
    · rw [returns_leave_iff hturn]
      exact hne

theorem At.forEach_end {s : ForEachState σ} (h : q.At s.iterator []) :
    forEachTurn q.mem q.last q.action s = some (.inr { s with iterator := q.last }) := by
  simp only [forEachTurn, h.equals_end, Option.bind_eq_bind, Option.bind_some, if_true]
  rfl

theorem At.forEach_entry {s : ForEachState σ} (h : q.At s.iterator (n :: ms)) :
    forEachTurn q.mem q.last q.action s = some (
      if n.2 = q.word then .inr { s with iterator := q.last }
      else if (q.action n.2 s.context).1 ≠ 0 then
        .inr ⟨n.1, (q.action n.2 s.context).2, s.elements ++ [n.2]⟩
      else
        .inl ⟨position q.l (ms ++ q.back), (q.action n.2 s.context).2, s.elements ++ [n.2]⟩) := by
  have hiterator : s.iterator = n.1 := h.1
  simp only [forEachTurn, h.equals_entry, h.get_entry, h.next_entry.1, Option.bind_eq_bind,
    Option.bind_some, decide_eq_true_eq]
  split_ifs <;> simp [hiterator]

theorem At.not_forEach {s s' : ForEachState σ} (h : q.At s.iterator ms) (hlast : n.1 ≠ q.last)
    (hmem : n.1 ∉ ms.map Prod.fst) (hs' : s'.iterator = n.1) :
    ¬ Returns (forEachTurn q.mem q.last q.action) s s' := by
  induction ms generalizing s with
  | nil =>
    rw [returns_leave_iff h.forEach_end]
    intro heq
    exact hlast (by rw [← hs', heq])
  | cons m ms ih =>
    obtain ⟨hne, hmem'⟩ := not_or.mp (List.mem_cons.not.mp hmem)
    have hturn := h.forEach_entry
    split_ifs at hturn
    · rw [returns_leave_iff hturn]
      intro heq
      exact hlast (by rw [← hs', heq])
    · rw [returns_leave_iff hturn]
      intro heq
      exact hne (by rw [← hs', heq])
    · rw [returns_turn_iff hturn]
      exact ih h.next_entry.2 hmem'

theorem firstHolding_eq_last_iff (hat : q.At itr q.range) :
    q.firstHolding = q.last ↔ ∀ m ∈ q.range, q.predicate m.2 = 0 := by
  rw [firstHolding]
  cases hfind : q.range.find? q.holding with
  | none =>
    rw [List.find?_eq_none] at hfind
    exact iff_of_true rfl fun m hm => by simpa [holding] using hfind m hm
  | some m =>
    obtain ⟨hm, front, back, hrange, -⟩ := List.find?_eq_some_iff_append.mp hfind
    refine iff_of_false ?_ fun hnone => ?_
    · obtain ⟨-, ns, hns⟩ := hat
      have happ : ns ++ (q.range ++ q.back) = (ns ++ front) ++ m :: (back ++ q.back) := by
        simp [hrange]
      exact (happ ▸ hns).entry_ne_position
    · have hzero := hnone m (by simp [hrange])
      simp [holding, hzero] at hm

/-- The search is right only where it finds nothing: at once at the end, and without an element
to find. -/
theorem findsFirst_iff :
    q.FindsFirst ↔
      ∀ n, q.range.head? = some n → n.2 = q.word ∧ ∀ m ∈ q.range, q.predicate m.2 = 0 := by
  have hat := q.at_first
  have hlast := firstHolding_eq_last_iff hat
  rw [findsFirst_iff_returns]
  cases hrange : q.range with
  | nil =>
    rw [hrange] at hat hlast
    rw [returns_leave_iff hat.findFirst_end]
    exact iff_of_true (hlast.mpr (by simp)) (by simp)
  | cons n ms =>
    have hfirst : q.predicate n.2 ≠ 0 → q.firstHolding = n.1 := by
      intro hn
      simp [firstHolding, hrange, holding, hn]
    rw [hrange] at hat hlast
    have hturn := hat.findFirst_entry
    simp only [List.head?_cons, Option.some.injEq, forall_eq']
    split_ifs at hturn with hword hholds
    · rw [returns_leave_iff hturn, hlast]
      exact (and_iff_right hword).symm
    · rw [returns_turn_iff hturn, hfirst hholds]
      refine iff_of_false ?_ fun h => hword h.1
      exact hat.next_entry.2.not_findFirst hat.entry_ne_last hat.entry_notMem
    · rw [returns_leave_iff hturn]
      refine iff_of_false (fun heq => ?_) fun h => hword h.1
      -- the first element does not hold, so another node is to be found, or the end
      rw [firstHolding, hrange, List.find?_cons_of_neg (by simpa [holding] using hholds)] at heq
      cases hfind : ms.find? q.holding with
      | none =>
        rw [hfind] at heq
        exact hat.entry_ne_last heq.symm
      | some m =>
        rw [hfind] at heq
        have hm := List.mem_map_of_mem (f := Prod.fst) (List.mem_of_find?_eq_some hfind)
        exact hat.entry_notMem (heq ▸ hm)

/-- Only the first element is counted, so no later one may hold, and nothing is counted if the end
is taken to be reached at once. -/
theorem counts_iff :
    q.Counts ↔
      match q.range with
      | [] => True
      | n :: ms => (if n.2 = q.word then n :: ms else ms).countP q.holding = 0 := by
  have hat := q.at_first
  rw [counts_iff_returns]
  cases hrange : q.range with
  | nil =>
    rw [hrange] at hat
    have hturn : countIfTurn q.mem q.last q.predicate (q.first, 0) = some (.inr 0) := by
      simp only [countIfTurn, hat.equals_end, Option.bind_eq_bind, Option.bind_some, if_true]
      rfl
    rw [returns_leave_iff hturn]
    exact iff_of_true rfl trivial
  | cons n ms =>
    rw [hrange] at hat
    have hturn : countIfTurn q.mem q.last q.predicate (q.first, 0) = some (.inr
        (if n.2 = q.word then 0 else if q.predicate n.2 ≠ 0 then 1 else 0)) := by
      simp only [countIfTurn, hat.equals_entry, hat.get_entry, Option.bind_eq_bind,
        Option.bind_some, decide_eq_true_eq]
      split_ifs <;> rfl
    have hcount : (n :: ms).countP q.holding =
        ms.countP q.holding + if q.predicate n.2 ≠ 0 then 1 else 0 := by
      simp only [List.countP_cons, holding, decide_eq_true_eq]
    rw [returns_leave_iff hturn]
    by_cases hword : n.2 = q.word
    · simp only [if_pos hword]
    · simp only [if_neg hword, hcount, Nat.add_eq_right]

/-- The action's result is taken the other way round, so no element is gone past rightly. -/
theorem appliesEach_iff : q.AppliesEach ↔ q.range = [] := by
  have hat := q.at_first
  rw [appliesEach_iff_returns]
  cases hrange : q.range with
  | nil =>
    rw [hrange] at hat
    rw [returns_leave_iff (At.forEach_end (s := ⟨q.first, q.context, []⟩) hat)]
    exact iff_of_true rfl rfl
  | cons n ms =>
    rw [hrange] at hat
    have hturn := At.forEach_entry (s := ⟨q.first, q.context, []⟩) hat
    refine iff_of_false ?_ (List.cons_ne_nil _ _)
    by_cases hword : n.2 = q.word
    · -- nothing is applied
      rw [if_pos hword] at hturn
      rw [returns_leave_iff hturn]
      intro heq
      exact applyUntilZero_elements_ne (congrArg ForEachState.elements heq)
    · rw [if_neg hword] at hturn
      by_cases hresult : (q.action n.2 q.context).1 = 0
      · -- the loop goes on where it is to stop
        rw [if_neg (not_not.mpr hresult)] at hturn
        rw [returns_turn_iff hturn]
        have hstop : (applyUntilZero q.action q.last (n :: ms) q.context).iterator = n.1 := by
          rw [applyUntilZero_cons, if_pos hresult]
        exact At.not_forEach hat.next_entry.2 hat.entry_ne_last hat.entry_notMem hstop
      · -- the loop stops where it is to go on
        rw [if_pos hresult] at hturn
        rw [returns_leave_iff hturn]
        intro heq
        rw [applyUntilZero_cons, if_neg hresult] at heq
        have hitr : (applyUntilZero q.action q.last ms (q.action n.2 q.context).2).iterator = n.1 :=
          congrArg ForEachState.iterator heq
        have hstops : n.1 = q.last ∨ n.1 ∈ ms.map Prod.fst := hitr ▸ applyUntilZero_iterator ms
        rcases hstops with hlast | hmem
        · exact hat.entry_ne_last hlast
        · exact hat.entry_notMem hmem

theorem meetsContracts_iff : q.MeetsContracts ↔ q.range = [] := by
  constructor
  · intro h
    exact appliesEach_iff.mp h.appliesEach
  · intro hrange
    have hfind : q.FindsFirst := findsFirst_iff.mpr (by simp [hrange])
    have hcount : q.Counts := counts_iff.mpr (by simp [hrange])
    refine ⟨hfind, hcount, appliesEach_iff.mpr hrange, fun n m counter itr hn hm => ?_⟩
    rw [findFirst_eq] at hm
    have hitr := Returns.unique ⟨m, hm⟩ (q.findsFirst_iff_returns.mp hfind)
    have hcounter := Returns.unique ⟨n, hn⟩ (q.counts_iff_returns.mp hcount)
    rw [hitr, hcounter, hrange]
    exact iff_of_true rfl ((firstHolding_eq_last_iff q.at_first).mpr (by simp [hrange]))

def singleElement : RangeQuery Unit where
  mem := oneNode
  l := 100
  front := []
  range := [(200, 7)]
  back := []
  holds := holds_oneNode
  items := items_oneNode
  predicate := fun _ => 1
  action := fun _ _ => (1, ())
  context := ()

theorem not_meetsContracts_singleElement : ¬ singleElement.MeetsContracts := by
  intro h
  exact List.cons_ne_nil _ _ (appliesEach_iff.mp h.appliesEach)

end RangeQuery
end ChatProject
