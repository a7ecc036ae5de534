import ChatProject.Run
import Mathlib.Logic.Function.Basic

/-!
# Linearizability

Clients call the operations of one sequential object, each client one at a time. A history
of calls and returns is linearizable if some sequential order of operations explains it: the
order takes the operations of a client as they were called, each result is the object's
reply at the place of its operation in the order, and an operation that has returned before
another is called comes before it.

The atomic object lets each operation take effect in one step between its call and its
return. All its histories are linearizable.
-/

namespace ChatProject.Linearizability
open Run Function

structure SequentialObject (σ op res : Type) where
  next : σ → op → σ
  reply : σ → op → res

inductive Observed (ι op res : Type)
  | call (i : ι) (o : op)
  | ret (i : ι) (r : res)

variable {ι σ op res : Type}

def stateAfter (obj : SequentialObject σ op res) (s₀ : σ) (l : List (ι × op)) : σ :=
  after (fun s e => obj.next s e.2) s₀ l

@[simp] theorem stateAfter_nil (obj : SequentialObject σ op res) (s₀ : σ) :
    stateAfter obj s₀ ([] : List (ι × op)) = s₀ := rfl

@[simp] theorem stateAfter_snoc (obj : SequentialObject σ op res) (s₀ : σ) (l : List (ι × op))
    (e : ι × op) : stateAfter obj s₀ (l ++ [e]) = obj.next (stateAfter obj s₀ l) e.2 :=
  after_snoc _ _ _ _

section History
variable [DecidableEq ι]

def calls (i : ι) (h : List (Observed ι op res)) : List op :=
  h.filterMap fun
    | .call j o => if j = i then some o else none
    | .ret _ _ => none

def returns (i : ι) (h : List (Observed ι op res)) : List res :=
  h.filterMap fun
    | .call _ _ => none
    | .ret j r => if j = i then some r else none

def taken (i : ι) (l : List (ι × op)) : List op :=
  l.filterMap fun e => if e.1 = i then some e.2 else none

@[simp] theorem calls_nil (i : ι) : calls i ([] : List (Observed ι op res)) = [] := rfl

@[simp] theorem returns_nil (i : ι) : returns i ([] : List (Observed ι op res)) = [] := rfl

@[simp] theorem taken_nil (i : ι) : taken i ([] : List (ι × op)) = [] := rfl

@[simp] theorem calls_call (i j : ι) (h : List (Observed ι op res)) (o : op) :
    calls i (h ++ [.call j o]) = if j = i then calls i h ++ [o] else calls i h := by
  by_cases hj : j = i <;> simp [calls, hj]

@[simp] theorem calls_ret (i j : ι) (h : List (Observed ι op res)) (r : res) :
    calls i (h ++ [.ret j r]) = calls i h := by
  simp [calls]

@[simp] theorem returns_call (i j : ι) (h : List (Observed ι op res)) (o : op) :
    returns i (h ++ [.call j o]) = returns i h := by
  simp [returns]

@[simp] theorem returns_ret (i j : ι) (h : List (Observed ι op res)) (r : res) :
    returns i (h ++ [.ret j r]) = if j = i then returns i h ++ [r] else returns i h := by
  by_cases hj : j = i <;> simp [returns, hj]

@[simp] theorem taken_snoc (i j : ι) (l : List (ι × op)) (o : op) :
    taken i (l ++ [(j, o)]) = if j = i then taken i l ++ [o] else taken i l := by
  by_cases hj : j = i <;> simp [taken, hj]

theorem taken_mono {i : ι} {l l' : List (ι × op)} (h : l <+: l') : taken i l <+: taken i l' :=
  h.filterMap _

/-- The order `l` explains the history `h` of the object started in `s₀`. -/
structure Linearizes (obj : SequentialObject σ op res) (s₀ : σ) (h : List (Observed ι op res))
    (l : List (ι × op)) : Prop where
  programOrder : ∀ i, taken i l <+: calls i h
  results : ∀ i k r, (returns i h)[k]? = some r →
    ∃ pre o, Occurs l pre (i, o) ∧ (taken i pre).length = k ∧
      r = obj.reply (stateAfter obj s₀ pre) o
  /-- The `k`-th operation of `i` has returned when the `m`-th operation of `j` is called. -/
  realTime : ∀ h₁, h₁ <+: h → ∀ i j k m, k < (returns i h₁).length → (calls j h₁).length ≤ m →
    ∀ pre o, Occurs l pre (i, o) → (taken i pre).length = k →
    ∀ pre' o', Occurs l pre' (j, o') → (taken j pre').length = m → pre.length < pre'.length

/-- At this moment of the history the first part of the order holds all operations that have
returned and none that has not been called. -/
def Splits (h : List (Observed ι op res)) (l : List (ι × op)) : Prop :=
  ∀ i, taken i l <+: calls i h ∧ (returns i h).length ≤ (taken i l).length

theorem Splits.before {h₁ : List (Observed ι op res)} {l₁ l : List (ι × op)} (hs : Splits h₁ l₁)
    (hl : l₁ <+: l) {i j : ι} {k m : ℕ} (hret : k < (returns i h₁).length)
    (hcall : (calls j h₁).length ≤ m) {pre : List (ι × op)} {o : op} (ho : Occurs l pre (i, o))
    (hk : (taken i pre).length = k) {pre' : List (ι × op)} {o' : op} (ho' : Occurs l pre' (j, o'))
    (hm : (taken j pre').length = m) : pre.length < pre'.length := by
  have hin : ¬ l₁ <+: pre := by
    intro hle
    have hlen := (taken_mono (i := i) hle).length_le
    have hmany := (hs i).2
    omega
  have hout : ¬ pre' ++ [(j, o')] <+: l₁ := by
    intro hle
    have hlen := (taken_mono (i := j) hle).length_le
    have hcalled := (hs j).1.length_le
    rw [taken_snoc, if_pos rfl, List.length_append, List.length_singleton] at hlen
    omega
  have hpre : pre.length < l₁.length := by
    by_contra hle
    exact hin (List.prefix_of_prefix_length_le hl ho.history (Nat.le_of_not_lt hle))
  have hpre' : l₁.length ≤ pre'.length := by
    by_contra hlt
    refine hout (List.prefix_of_prefix_length_le ho' hl ?_)
    rw [List.length_append, List.length_singleton]
    omega
  exact Nat.lt_of_lt_of_le hpre hpre'

end History

/-! ## The atomic object -/

inductive Action (ι op res : Type)
  | call (i : ι) (o : op)
  | commit (i : ι) (o : op)
  | ret (i : ι) (r : res)

inductive Status (op res : Type)
  | idle
  | called (o : op)
  | done (r : res)

structure Atomic (ι σ op res : Type) where
  state : σ
  status : ι → Status op res

def Atomic.start (s₀ : σ) : Atomic ι σ op res := ⟨s₀, fun _ => .idle⟩

def observed (as : List (Action ι op res)) : List (Observed ι op res) :=
  as.filterMap fun
    | .call i o => some (.call i o)
    | .commit _ _ => none
    | .ret i r => some (.ret i r)

def committed (as : List (Action ι op res)) : List (ι × op) :=
  as.filterMap fun
    | .commit i o => some (i, o)
    | _ => none

section Lists
variable (as : List (Action ι op res)) (i : ι) (o : op) (r : res)

@[simp] theorem observed_nil : observed ([] : List (Action ι op res)) = [] := rfl

@[simp] theorem committed_nil : committed ([] : List (Action ι op res)) = [] := rfl

@[simp] theorem observed_call : observed (as ++ [.call i o]) = observed as ++ [.call i o] := by
  simp [observed]

@[simp] theorem observed_commit : observed (as ++ [.commit i o]) = observed as := by
  simp [observed]

@[simp] theorem observed_ret : observed (as ++ [.ret i r]) = observed as ++ [.ret i r] := by
  simp [observed]

@[simp] theorem committed_call : committed (as ++ [.call i o]) = committed as := by
  simp [committed]

@[simp] theorem committed_commit :
    committed (as ++ [.commit i o]) = committed as ++ [(i, o)] := by
  simp [committed]

@[simp] theorem committed_ret : committed (as ++ [.ret i r]) = committed as := by
  simp [committed]

end Lists

section Atomic
variable [DecidableEq ι] (obj : SequentialObject σ op res)

inductive Atomic.Step : Atomic ι σ op res → Action ι op res → Atomic ι σ op res → Prop
  | call {s : Atomic ι σ op res} {i : ι} {o : op} : s.status i = .idle →
      Step s (.call i o) { s with status := update s.status i (.called o) }
  | commit {s : Atomic ι σ op res} {i : ι} {o : op} : s.status i = .called o →
      Step s (.commit i o)
        ⟨obj.next s.state o, update s.status i (.done (obj.reply s.state o))⟩
  | ret {s : Atomic ι σ op res} {i : ι} {r : res} : s.status i = .done r →
      Step s (.ret i r) { s with status := update s.status i .idle }

inductive Atomic.Runs (s₀ : Atomic ι σ op res) : List (Action ι op res) → Atomic ι σ op res → Prop
  | nil : Runs s₀ [] s₀
  | snoc {as : List (Action ι op res)} {a : Action ι op res} {s s' : Atomic ι σ op res} :
      Runs s₀ as s → Atomic.Step obj s a s' → Runs s₀ (as ++ [a]) s'

/-- Where the operations of a client are, in the history and in the order. -/
def Placed (s₀ : σ) (cs : List op) (rs : List res) (l : List (ι × op)) (i : ι) :
    Status op res → Prop
  | .idle => cs = taken i l ∧ rs.length = (taken i l).length
  | .called o => cs = taken i l ++ [o] ∧ rs.length = (taken i l).length
  | .done r => cs = taken i l ∧ (taken i l).length = rs.length + 1 ∧
      ∃ pre o, Occurs l pre (i, o) ∧ (taken i pre).length = rs.length ∧
        r = obj.reply (stateAfter obj s₀ pre) o

structure Explained (s₀ : σ) (as : List (Action ι op res)) (s : Atomic ι σ op res) : Prop where
  state : s.state = stateAfter obj s₀ (committed as)
  placed : ∀ i, Placed obj s₀ (calls i (observed as)) (returns i (observed as)) (committed as) i
    (s.status i)
  results : ∀ i k r, (returns i (observed as))[k]? = some r →
    ∃ pre o, Occurs (committed as) pre (i, o) ∧ (taken i pre).length = k ∧
      r = obj.reply (stateAfter obj s₀ pre) o

variable {obj} {s₀ : σ} {as : List (Action ι op res)} {s s' : Atomic ι σ op res}

theorem Placed.snoc {cs : List op} {rs : List res} {l : List (ι × op)} {i j : ι}
    {st : Status op res} (h : Placed obj s₀ cs rs l i st) (hj : j ≠ i) (o : op) :
    Placed obj s₀ cs rs (l ++ [(j, o)]) i st := by
  cases st with
  | idle => simpa [Placed, hj] using h
  | called o' => simpa [Placed, hj] using h
  | done r =>
    obtain ⟨htaken, hlen, pre, o', hocc, hpre⟩ := h
    have hocc' := hocc.mono (List.prefix_append l [(j, o)])
    exact ⟨by simpa [hj] using htaken, by simpa [hj] using hlen, pre, o', hocc', hpre⟩

theorem Explained.call (h : Explained obj s₀ as s) {i : ι} {o : op} (hi : s.status i = .idle) :
    Explained obj s₀ (as ++ [.call i o])
      { s with status := update s.status i (.called o) } where
  state := by simpa using h.state
  placed := by
    intro j
    have hj := h.placed j
    by_cases hji : j = i
    · subst hji
      rw [hi] at hj
      simpa [Placed] using hj
    · simpa [hji, Ne.symm hji] using hj
  results := by simpa using h.results

theorem Explained.commit (h : Explained obj s₀ as s) {i : ι} {o : op}
    (hi : s.status i = .called o) :
    Explained obj s₀ (as ++ [.commit i o])
      ⟨obj.next s.state o, update s.status i (.done (obj.reply s.state o))⟩ where
  state := by simp [h.state]
  placed := by
    intro j
    have hj := h.placed j
    by_cases hji : j = i
    · subst hji
      rw [hi] at hj
      obtain ⟨hcalls, hlen⟩ := hj
      simp only [observed_commit, committed_commit, update_self, Placed, taken_snoc, if_true]
      refine ⟨hcalls, by simp [hlen], committed as, o, occurs_last _ _, hlen.symm, ?_⟩
      rw [h.state]
    · simpa [hji] using hj.snoc (Ne.symm hji) o
  results := by
    intro j k r hr
    rw [observed_commit] at hr
    obtain ⟨pre, o', hocc, hpre⟩ := h.results j k r hr
    rw [committed_commit]
    exact ⟨pre, o', hocc.mono (List.prefix_append _ _), hpre⟩

theorem Explained.ret (h : Explained obj s₀ as s) {i : ι} {r : res} (hi : s.status i = .done r) :
    Explained obj s₀ (as ++ [.ret i r]) { s with status := update s.status i .idle } where
  state := by simpa using h.state
  placed := by
    intro j
    have hj := h.placed j
    by_cases hji : j = i
    · subst hji
      rw [hi] at hj
      obtain ⟨htaken, hlen, -⟩ := hj
      simp [Placed, htaken, ← hlen]
    · simpa [hji, Ne.symm hji] using hj
  results := by
    intro j k r' hr
    rw [observed_ret, returns_ret] at hr
    rw [committed_ret]
    split_ifs at hr with hji
    · subst hji
      by_cases hk : k < (returns i (observed as)).length
      · rw [List.getElem?_append_left hk] at hr
        exact h.results i k r' hr
      · -- the result returned now is that of the last operation of the client
        have hi' := h.placed i
        rw [hi] at hi'
        obtain ⟨-, -, pre, o, hocc, hpre, hreply⟩ := hi'
        rw [List.getElem?_append_right (Nat.le_of_not_lt hk), List.getElem?_singleton] at hr
        split_ifs at hr with hzero
        obtain rfl := Option.some.inj hr
        exact ⟨pre, o, hocc, by omega, hreply⟩
    · exact h.results j k r' hr

theorem Explained.step (h : Explained obj s₀ as s) {a : Action ι op res}
    (hs : Atomic.Step obj s a s') : Explained obj s₀ (as ++ [a]) s' := by
  cases hs with
  | call hi => exact h.call hi
  | commit hi => exact h.commit hi
  | ret hi => exact h.ret hi

theorem explained_start : Explained obj s₀ [] (Atomic.start s₀ : Atomic ι σ op res) where
  state := rfl
  placed := by simp [Atomic.start, Placed]
  results := by simp

theorem Atomic.Runs.explained (h : Atomic.Runs obj (Atomic.start s₀) as s) :
    Explained obj s₀ as s := by
  induction h with
  | nil => exact explained_start
  | snoc _ hstep ih => exact ih.step hstep

theorem Explained.splits (h : Explained obj s₀ as s) : Splits (observed as) (committed as) := by
  intro i
  have hi := h.placed i
  cases hs : s.status i with
  | idle =>
    rw [hs] at hi
    exact ⟨hi.1 ▸ List.prefix_rfl, Nat.le_of_eq hi.2⟩
  | called o =>
    rw [hs] at hi
    exact ⟨hi.1 ▸ List.prefix_append _ _, Nat.le_of_eq hi.2⟩
  | done r =>
    rw [hs] at hi
    exact ⟨hi.1 ▸ List.prefix_rfl, by have hlen := hi.2.1; omega⟩

/-- Every first part of a run is a run, and so every moment of its history splits the order. -/
theorem Atomic.Runs.splits (h : Atomic.Runs obj (Atomic.start s₀) as s)
    {h₁ : List (Observed ι op res)} (h₁h : h₁ <+: observed as) :
    ∃ l₁, l₁ <+: committed as ∧ Splits h₁ l₁ := by
  induction h with
  | nil =>
    obtain rfl := List.prefix_nil.mp h₁h
    have hstart : Explained obj s₀ [] (Atomic.start s₀ : Atomic ι σ op res) := explained_start
    exact ⟨[], List.prefix_rfl, hstart.splits⟩
  | @snoc as a s s' hruns hstep ih =>
    have hnow := (hruns.explained.step hstep).splits
    have hmono : committed as <+: committed (as ++ [a]) := (List.prefix_append as [a]).filterMap _
    have hcases : observed (as ++ [a]) = observed as ∨
        ∃ e, observed (as ++ [a]) = observed as ++ [e] := by
      cases a with
      | call i o => exact .inr ⟨_, observed_call as i o⟩
      | commit i o => exact .inl (observed_commit as i o)
      | ret i r => exact .inr ⟨_, observed_ret as i r⟩
    have hbefore : h₁ <+: observed as → ∃ l₁, l₁ <+: committed (as ++ [a]) ∧ Splits h₁ l₁ := by
      intro hle
      obtain ⟨l₁, hl₁, hsplits⟩ := ih hle
      exact ⟨l₁, hl₁.trans hmono, hsplits⟩
    rcases hcases with he | ⟨e, he⟩
    · exact hbefore (he ▸ h₁h)
    · rw [he, List.prefix_concat_iff] at h₁h
      rcases h₁h with rfl | hle
      · exact ⟨_, List.prefix_rfl, he ▸ hnow⟩
      · exact hbefore hle

/-- The order in which the operations take effect linearizes every run of the atomic object. -/
theorem Atomic.Runs.linearizes (h : Atomic.Runs obj (Atomic.start s₀) as s) :
    Linearizes obj s₀ (observed as) (committed as) where
  programOrder := fun i => (h.explained.splits i).1
  results := h.explained.results
  realTime := by
    intro h₁ hle i j k m hret hcall pre o ho hk pre' o' ho' hm
    obtain ⟨l₁, hl₁, hsplits⟩ := h.splits hle
    exact hsplits.before hl₁ hret hcall ho hk ho' hm

end Atomic
end ChatProject.Linearizability
