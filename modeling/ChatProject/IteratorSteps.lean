import ChatProject.ListRanges
import ChatProject.ReachedLists

/-!
# Steps of an iterator

`ListItr_Prev` looks for a sentinel that is its own predecessor. The head sentinel has none, so
the step back from the begin iterator leads to it.
-/

namespace ChatProject
open Memory DLinkedList Run

inductive IteratorStep
  | next
  | prev

inductive IteratorStart
  | itrBegin
  | itrEnd

namespace IteratorStep

def apply (mem : Nodes) (itr : Ptr) : IteratorStep → Option Ptr
  | next => itrNext mem itr
  | prev => itrPrev mem itr

/-- A step leaves the iterator at which it can go no further, and the other step undoes it
elsewhere. -/
def Lawful (mem : Nodes) (l itr : Ptr) : IteratorStep → Prop
  | next =>
    if itrEnd mem l = some itr then itrNext mem itr = some itr
    else (itrNext mem itr).bind (itrPrev mem) = some itr
  | prev =>
    if itrBegin mem l = some itr then itrPrev mem itr = some itr
    else (itrPrev mem itr).bind (itrNext mem) = some itr

def move (length i : ℕ) : IteratorStep → ℕ
  | next => min (i + 1) length
  | prev => i - 1

end IteratorStep

namespace DLinkedList

/-- The item can be read, and removing it follows two links that are not `NULL`. -/
structure Usable (mem : Nodes) (itr item : Ptr) : Prop where
  get : itrGet mem itr = some item
  remove : ∃ mem', itrRemove mem itr = some (item, mem')
  next : ∃ p ≠ 0, mem.next itr = some p
  prev : ∃ p ≠ 0, mem.prev itr = some p

def Inside (mem : Nodes) (l : Ptr) (ns : List Entry) (itr : Ptr) : Prop :=
  itr = tail l ∧ Usable mem itr 0 ∨ ∃ n ∈ ns, itr = n.1 ∧ Usable mem itr n.2

variable {mem : Nodes} {l : Ptr} {ns ms : List Entry} {n : Entry} {i : ℕ}

theorem Holds.prev_position (h : Holds mem l (ns ++ ms)) :
    ∃ p ≠ 0, mem.prev (position l ms) = some p := by
  obtain ⟨front, back, a, b, hb⟩ := exists_between l ns ms
  obtain ⟨hlink, -⟩ := h.link hb
  have hmem : a ∈ cells l (ns ++ ms) := by
    rw [hb.cells_eq]
    simp
  refine ⟨a, (h.live a hmem).1, ?_⟩
  rw [← hb.after_eq]
  exact hlink.2

theorem Holds.inside (h : Holds mem l ns) (i : ℕ) : Inside mem l ns (position l (ns.drop i)) := by
  have hnext : ∃ p ≠ 0, mem.next (position l (ns.drop i)) = some p :=
    ⟨_, h.drop_live (i + 1), h.next_drop i⟩
  have hsplit := h.split i
  have hprev := hsplit.prev_position
  cases hd : ns.drop i with
  | nil =>
    rw [hd] at hnext hprev
    exact .inl ⟨rfl, h.itrGet_tail, ⟨mem, h.itrRemove_end⟩, hnext, hprev⟩
  | cons n ms =>
    rw [hd] at hnext hprev hsplit
    obtain ⟨mem', hremove, -⟩ := hsplit.itrRemove_entry
    have hmem : n ∈ ns := (List.drop_sublist i ns).subset (hd ▸ List.mem_cons_self)
    exact .inr ⟨n, hmem, rfl, hsplit.itrGet_entry, ⟨mem', hremove⟩, hnext, hprev⟩

theorem Holds.itrPrev_drop (h : Holds mem l ns) (hi : i < ns.length) :
    itrPrev mem (position l (ns.drop (i + 1))) = some (position l (ns.drop i)) := by
  rw [List.drop_eq_getElem_cons hi]
  exact (h.split_cons hi).itrPrev_position

theorem Holds.drop_ne (h : Holds mem l ns) (hi : i < ns.length) :
    position l ns ≠ position l (ns.drop (i + 1)) := by
  cases ns with
  | nil => exact absurd hi (Nat.not_lt_zero i)
  | cons n ms =>
    have hsplit : Holds mem l ([] ++ n :: (ms.take i ++ ms.drop i)) := by
      rwa [List.take_append_drop]
    exact hsplit.entry_ne_position

theorem WellFormed.itrPrev_begin (h : WellFormed mem l ns) :
    itrPrev mem (position l ns) = some (head l) := by
  have hholds : Holds mem l ([] ++ ns) := h.toHolds
  obtain ⟨front, back, a, b, hb⟩ := exists_between l [] ns
  obtain ⟨hlink, -⟩ := hholds.link hb
  rw [hb.first_eq, hb.after_eq] at hlink
  have hne : 0 ≠ head l := Ne.symm h.head_ne
  simp only [itrPrev, if_neg hholds.position_live, hlink.2, h.closed, if_neg hne,
    Option.bind_eq_bind, Option.bind_some]

theorem Holds.next_lawful (h : Holds mem l ns) (i : ℕ) :
    IteratorStep.next.Lawful mem l (position l (ns.drop i)) := by
  rw [IteratorStep.Lawful, h.itrEnd_eq]
  by_cases hi : i < ns.length
  · have hne : tail l ≠ position l (ns.drop i) := by
      rw [List.drop_eq_getElem_cons hi]
      exact (h.split_cons hi).entry_ne_tail.symm
    rw [if_neg (Option.some_inj.not.mpr hne), h.itrNext_drop, Option.bind_some, h.itrPrev_drop hi]
  · rw [List.drop_eq_nil_of_le (Nat.le_of_not_lt hi), position, if_pos rfl, h.itrNext_tail]

theorem WellFormed.prev_lawful_iff (h : WellFormed mem l ns) (hi : i ≤ ns.length) :
    IteratorStep.prev.Lawful mem l (position l (ns.drop i)) ↔ i ≠ 0 := by
  rw [IteratorStep.Lawful, itrBegin, if_neg h.head_ne, h.next_head]
  cases i with
  | zero =>
    rw [List.drop_zero, if_pos rfl, h.itrPrev_begin, Option.some_inj]
    refine iff_of_false ?_ fun hne => hne rfl
    intro heq
    have hmem := position_mem_suffix l [] ns
    exact h.head_notMem (heq ▸ hmem)
  | succ i =>
    refine iff_of_true ?_ (Nat.succ_ne_zero i)
    rw [if_neg (Option.some_inj.not.mpr (h.drop_ne hi)), h.itrPrev_drop hi, Option.bind_some,
      h.itrNext_drop]

end DLinkedList

/-- Steps on a list from `ListItr_Begin` or `ListItr_End`. -/
structure IteratorRun where
  mem : Nodes
  l : Ptr
  ns : List Entry
  wellFormed : WellFormed mem l ns
  start : IteratorStart
  steps : List IteratorStep

namespace IteratorRun
variable (r : IteratorRun)

def first : Option Ptr :=
  match r.start with
  | .itrBegin => itrBegin r.mem r.l
  | .itrEnd => itrEnd r.mem r.l

def iterator (pre : List IteratorStep) : Option Ptr :=
  after (fun o s => o.bind fun itr => s.apply r.mem itr) r.first pre

def cursor (pre : List IteratorStep) : ℕ :=
  after (fun i s => s.move r.ns.length i)
    (match r.start with
    | .itrBegin => 0
    | .itrEnd => r.ns.length) pre

/-- The iterator always refers to the end or to an element, and the steps are lawful. -/
def StaysInside : Prop :=
  ∀ pre, pre <+: r.steps → ∃ itr, r.iterator pre = some itr ∧ Inside r.mem r.l r.ns itr ∧
    ∀ s, Occurs r.steps pre s → s.Lawful r.mem r.l itr

variable {r} {pre : List IteratorStep} {s : IteratorStep}

theorem iterator_snoc : r.iterator (pre ++ [s]) =
    (r.iterator pre).bind fun itr => s.apply r.mem itr :=
  after_snoc _ _ _ _

theorem cursor_snoc : r.cursor (pre ++ [s]) = s.move r.ns.length (r.cursor pre) :=
  after_snoc _ _ _ _

theorem cursor_le (pre : List IteratorStep) : r.cursor pre ≤ r.ns.length := by
  apply Run.invariant (P := fun i => i ≤ r.ns.length)
  · intro i s hi
    cases s with
    | next => exact Nat.min_le_right _ _
    | prev => exact (Nat.sub_le i 1).trans hi
  · cases r.start with
    | itrBegin => exact Nat.zero_le _
    | itrEnd => exact Nat.le_refl _

def AtCursor (r : IteratorRun) (pre : List IteratorStep) : Prop :=
  r.iterator pre = some (position r.l (r.ns.drop (r.cursor pre)))

theorem atCursor_nil : r.AtCursor [] := by
  rw [AtCursor, iterator, cursor, after_nil, after_nil, first]
  cases r.start with
  | itrBegin => rw [itrBegin, if_neg r.wellFormed.head_ne, r.wellFormed.next_head, List.drop_zero]
  | itrEnd => rw [r.wellFormed.itrEnd_eq, List.drop_length, position]

theorem AtCursor.next (h : r.AtCursor pre) : r.AtCursor (pre ++ [.next]) := by
  have hdrop : r.ns.drop (min (r.cursor pre + 1) r.ns.length) = r.ns.drop (r.cursor pre + 1) := by
    rcases Nat.le_total (r.cursor pre + 1) r.ns.length with hle | hle
    · rw [Nat.min_eq_left hle]
    · rw [Nat.min_eq_right hle, List.drop_length, List.drop_eq_nil_of_le hle]
  rw [AtCursor, iterator_snoc, h, Option.bind_some, cursor_snoc, IteratorStep.move, hdrop]
  exact r.wellFormed.itrNext_drop _

theorem AtCursor.prev (h : r.AtCursor pre) (hne : r.cursor pre ≠ 0) :
    r.AtCursor (pre ++ [.prev]) := by
  obtain ⟨i, hi⟩ := Nat.exists_eq_succ_of_ne_zero hne
  have hlt : i < r.ns.length := by
    have hle := r.cursor_le pre
    omega
  rw [AtCursor, iterator_snoc, h, Option.bind_some, cursor_snoc, hi]
  exact r.wellFormed.itrPrev_drop hlt

/-- The step is not a step back from the begin iterator. -/
def Safe (r : IteratorRun) (pre : List IteratorStep) : IteratorStep → Prop
  | .next => True
  | .prev => r.cursor pre ≠ 0

theorem AtCursor.step (h : r.AtCursor pre) (hs : r.Safe pre s) : r.AtCursor (pre ++ [s]) := by
  cases s with
  | next => exact h.next
  | prev => exact h.prev hs

theorem AtCursor.lawful_iff (h : r.AtCursor pre) :
    (∀ itr, r.iterator pre = some itr → s.Lawful r.mem r.l itr) ↔ r.Safe pre s := by
  rw [h]
  simp only [Option.some_inj, forall_eq']
  cases s with
  | next => exact iff_of_true (r.wellFormed.next_lawful _) trivial
  | prev => exact r.wellFormed.prev_lawful_iff (r.cursor_le pre)

theorem staysInside_iff (r : IteratorRun) :
    r.StaysInside ↔ ∀ pre, Occurs r.steps pre .prev → r.cursor pre ≠ 0 := by
  have hsafe : (∀ pre, Occurs r.steps pre .prev → r.cursor pre ≠ 0) ↔
      ∀ pre s, Occurs r.steps pre s → r.Safe pre s := by
    constructor
    · intro h pre s hs
      cases s with
      | next => trivial
      | prev => exact h pre hs
    · intro h pre hs
      exact h pre .prev hs
  have hlawful : (∀ pre s, Occurs r.steps pre s →
      ∀ itr, r.iterator pre = some itr → s.Lawful r.mem r.l itr) ↔
        ∀ pre s, Occurs r.steps pre s → r.Safe pre s :=
    forall_steps_iff (I := r.AtCursor) atCursor_nil (fun _ _ _ h => h.lawful_iff)
      (fun _ _ _ h hs => h.step hs)
  rw [hsafe]
  constructor
  · intro h
    apply hlawful.mp
    intro pre s hs itr hitr
    obtain ⟨itr', hitr', -, hall⟩ := h pre hs.history
    rw [hitr] at hitr'
    cases hitr'
    exact hall s hs
  · intro h pre hpre
    have hat : r.AtCursor pre :=
      invariant_of_steps atCursor_nil (fun _ _ _ h hs => h.step hs) h pre hpre
    refine ⟨_, hat, r.wellFormed.inside _, ?_⟩
    intro s hs
    exact hlawful.mpr h pre s hs _ hat

def backFromBegin : IteratorRun where
  mem := oneNode
  l := 100
  ns := [(200, 7)]
  wellFormed := ⟨holds_oneNode, rfl⟩
  start := .itrBegin
  steps := [.prev]

/-- The step leads to the head sentinel. -/
theorem not_staysInside_backFromBegin : ¬ backFromBegin.StaysInside := by
  intro h
  obtain ⟨itr, hitr, -, hlawful⟩ := h [] List.nil_prefix
  cases hitr
  have hprev : itrPrev oneNode 200 = some 200 := hlawful .prev List.prefix_rfl
  cases hprev

end IteratorRun
end ChatProject
