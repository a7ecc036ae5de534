import Mathlib.Data.List.Induction

/-!
# Runs of a machine that takes one input after another

A run is the list of its inputs. `Occurs is pre i` says that the run `is` takes the
input `i` after the inputs `pre`, so a property of all steps of a run quantifies over
`pre` and `i`, and the state in which the step is taken is `after step s pre`.
-/

namespace ChatProject.Run
variable {σ τ ι α : Type}

def after (step : σ → ι → σ) (s : σ) (is : List ι) : σ := is.foldl step s

@[simp] theorem after_nil (step : σ → ι → σ) (s : σ) : after step s [] = s := rfl

@[simp] theorem after_snoc (step : σ → ι → σ) (s : σ) (is : List ι) (i : ι) :
    after step s (is ++ [i]) = step (after step s is) i := by
  simp [after]

theorem after_append (step : σ → ι → σ) (s : σ) (is js : List ι) :
    after step s (is ++ js) = after step (after step s is) js := by
  simp [after]

def Occurs (is pre : List ι) (i : ι) : Prop := pre ++ [i] <+: is

theorem not_occurs_nil (pre : List ι) (i : ι) : ¬ Occurs [] pre i := by
  simp [Occurs]

theorem occurs_snoc (is pre : List ι) (i j : ι) :
    Occurs (is ++ [j]) pre i ↔ Occurs is pre i ∨ pre = is ∧ i = j := by
  rw [Occurs, List.prefix_concat_iff, Occurs, List.append_singleton_inj, or_comm]

theorem forall_occurs_nil (P : List ι → ι → Prop) : ∀ pre i, Occurs [] pre i → P pre i :=
  fun pre i h => absurd h (not_occurs_nil pre i)

theorem forall_occurs_snoc {P : List ι → ι → Prop} (is : List ι) (j : ι) :
    (∀ pre i, Occurs (is ++ [j]) pre i → P pre i) ↔
      (∀ pre i, Occurs is pre i → P pre i) ∧ P is j := by
  constructor
  · intro h
    exact ⟨fun pre i hocc => h pre i ((occurs_snoc is pre i j).mpr (.inl hocc)),
      h is j ((occurs_snoc is is j j).mpr (.inr ⟨rfl, rfl⟩))⟩
  · rintro ⟨hbefore, hlast⟩ pre i hocc
    rcases (occurs_snoc is pre i j).mp hocc with hocc | ⟨rfl, rfl⟩
    · exact hbefore pre i hocc
    · exact hlast

theorem forall_occurs_iff {P : ι → Prop} {is : List ι} :
    (∀ pre i, Occurs is pre i → P i) ↔ ∀ i ∈ is, P i := by
  constructor
  · intro h i hi
    obtain ⟨pre, post, rfl⟩ := List.append_of_mem hi
    exact h pre i ⟨post, by simp⟩
  · intro h pre i hocc
    exact h i (hocc.subset (by simp))

theorem forall_occurs_length_iff {P : ι → Prop} (is : List ι) (n : ℕ) :
    (∀ pre i, Occurs is pre i → P i ∧ pre.length < n) ↔ (∀ i ∈ is, P i) ∧ is.length ≤ n := by
  induction is using List.reverseRecOn with
  | nil => exact iff_of_true (forall_occurs_nil _) (by simp)
  | append_singleton is j ih =>
    rw [forall_occurs_snoc, ih, List.length_append, List.length_singleton]
    simp only [List.mem_append, List.mem_singleton, or_imp, forall_and, forall_eq]
    constructor
    · intro h
      exact ⟨⟨h.1.1, h.2.1⟩, h.2.2⟩
    · intro h
      exact ⟨⟨h.1.1, Nat.le_of_lt h.2⟩, h.1.2, h.2⟩

theorem occurs_last (is : List ι) (i : ι) : Occurs (is ++ [i]) is i := List.prefix_rfl

theorem Occurs.history {is pre : List ι} {i : ι} (h : Occurs is pre i) : pre <+: is :=
  (List.prefix_append _ _).trans h

theorem Occurs.length_lt {is pre : List ι} {i : ι} (h : Occurs is pre i) :
    pre.length < is.length := by
  have hl := h.length_le
  simp only [List.length_append, List.length_singleton] at hl
  omega

theorem Occurs.mono {is pre pre' : List ι} {i : ι} (h : Occurs pre' pre i)
    (hp : pre' <+: is) : Occurs is pre i :=
  List.IsPrefix.trans h hp

theorem invariant {step : σ → ι → σ} {P : σ → Prop} (hstep : ∀ s i, P s → P (step s i)) {s : σ}
    (h0 : P s) (is : List ι) : P (after step s is) := by
  induction is using List.reverseRecOn with
  | nil => exact h0
  | append_singleton is i ih =>
    rw [after_snoc]
    exact hstep _ i ih

theorem simulation {step : σ → ι → σ} {step' : τ → ι → τ} {R : σ → τ → Prop}
    (hstep : ∀ s t i, R s t → R (step s i) (step' t i)) {s : σ} {t : τ} (h0 : R s t)
    (is : List ι) : R (after step s is) (after step' t is) := by
  induction is using List.reverseRecOn with
  | nil => exact h0
  | append_singleton is i ih =>
    rw [after_snoc, after_snoc]
    exact hstep _ _ i ih

theorem findSome_after {step : σ → ι → σ} (get : σ → Option α) (offer : ι → Option α)
    (hstep : ∀ s i, get (step s i) = (get s).or (offer i)) (s : σ) (is : List ι) :
    get (after step s is) = (get s).or (is.findSome? offer) := by
  induction is using List.reverseRecOn with
  | nil => simp
  | append_singleton is i ih =>
    rw [after_snoc, hstep, ih, List.findSome?_append, Option.or_assoc, List.findSome?_singleton]

theorem findSome_eq_some_iff {is : List ι} {offer : ι → Option α} {a : α} :
    is.findSome? offer = some a ↔
      ∃ pre i, Occurs is pre i ∧ offer i = some a ∧ pre.findSome? offer = none := by
  rw [List.findSome?_eq_some_iff]
  constructor
  · rintro ⟨pre, i, post, rfl, hi, hpre⟩
    exact ⟨pre, i, ⟨post, by simp⟩, hi, List.findSome?_eq_none_iff.mpr hpre⟩
  · rintro ⟨pre, i, ⟨post, rfl⟩, hi, hpre⟩
    exact ⟨pre, i, post, by simp, hi, List.findSome?_eq_none_iff.mp hpre⟩

/-- A count that grows by at most one a step takes every value on its way. -/
theorem exists_crossing (f : List ι → ℕ) (hstep : ∀ pre i, f (pre ++ [i]) ≤ f pre + 1) {k : ℕ}
    (h0 : f [] ≤ k) {is : List ι} (hk : k < f is) :
    ∃ pre i, Occurs is pre i ∧ f pre = k ∧ k < f (pre ++ [i]) := by
  induction is using List.reverseRecOn with
  | nil => omega
  | append_singleton is i ih =>
    by_cases hlt : k < f is
    · obtain ⟨pre, j, hocc, hpre, hj⟩ := ih hlt
      exact ⟨pre, j, hocc.mono (List.prefix_append _ _), hpre, hj⟩
    · have h := hstep is i
      exact ⟨is, i, occurs_last is i, by omega, hk⟩

/-- Some step turned a condition on, and no later step turned it off. -/
def Since (on off : List ι → ι → Prop) (is : List ι) : Prop :=
  ∃ pre i, Occurs is pre i ∧ on pre i ∧
    ∀ pre' j, Occurs is pre' j → pre.length < pre'.length → ¬ off pre' j

section Since
variable {on off : List ι → ι → Prop}

theorem not_since_nil : ¬ Since on off [] := by
  rintro ⟨pre, i, hocc, -⟩
  exact not_occurs_nil pre i hocc

theorem since_snoc (is : List ι) (i : ι) :
    Since on off (is ++ [i]) ↔ on is i ∨ Since on off is ∧ ¬ off is i := by
  constructor
  · rintro ⟨pre, j, hocc, hon, hoff⟩
    rcases (occurs_snoc _ _ _ _).mp hocc with hocc | ⟨rfl, rfl⟩
    · refine .inr ⟨⟨pre, j, hocc, hon, fun pre' k hk hlt => ?_⟩, ?_⟩
      · exact hoff pre' k (hk.mono (List.prefix_append _ _)) hlt
      · exact hoff is i (occurs_last is i) hocc.length_lt
    · exact .inl hon
  · rintro (hon | ⟨⟨pre, j, hocc, hon, hoff⟩, hi⟩)
    · refine ⟨is, i, occurs_last is i, hon, fun pre' j hj hlt => ?_⟩
      have hle := hj.length_lt
      simp only [List.length_append, List.length_singleton] at hle
      omega
    · refine ⟨pre, j, hocc.mono (List.prefix_append _ _), hon, fun pre' k hk hlt => ?_⟩
      rcases (occurs_snoc _ _ _ _).mp hk with hk | ⟨rfl, rfl⟩
      · exact hoff pre' k hk hlt
      · exact hi

theorem Since.imp {on' off' : List ι → ι → Prop} {is : List ι} (h : Since on off is)
    (hon : ∀ pre i, Occurs is pre i → on pre i → on' pre i)
    (hoff : ∀ pre i, Occurs is pre i → off' pre i → off pre i) : Since on' off' is := by
  obtain ⟨pre, i, hocc, hi, hlater⟩ := h
  exact ⟨pre, i, hocc, hon pre i hocc hi, fun pre' j hj hlt hoff' =>
    hlater pre' j hj hlt (hoff pre' j hj hoff')⟩

theorem since_after (step : σ → ι → σ) (flag : σ → Prop) {s : σ} (h0 : ¬ flag s)
    (hstep : ∀ pre i, flag (after step s (pre ++ [i])) ↔
      on pre i ∨ flag (after step s pre) ∧ ¬ off pre i) (is : List ι) :
    flag (after step s is) ↔ Since on off is := by
  induction is using List.reverseRecOn with
  | nil => simpa [not_since_nil] using h0
  | append_singleton is i ih => rw [hstep, since_snoc, ih]

end Since

/-- A property that the steps meeting a condition keep, and all others break. -/
theorem forall_states_iff (step : σ → ι → σ) (P : σ → Prop) (C : List ι → ι → Prop) {s : σ}
    (h0 : P s) {is : List ι}
    (hstep : ∀ pre i, P (after step s pre) → (P (after step s (pre ++ [i])) ↔ C pre i)) :
    (∀ pre, pre <+: is → P (after step s pre)) ↔ ∀ pre i, Occurs is pre i → C pre i := by
  constructor
  · intro h pre i hi
    exact (hstep pre i (h pre hi.history)).mp (h _ hi)
  · intro h pre hp
    induction pre using List.reverseRecOn with
    | nil => exact h0
    | append_singleton pre i ih =>
      exact (hstep pre i (ih (Occurs.history hp))).mpr (h pre i hp)

theorem invariant_of_steps {I : List ι → Prop} {C : List ι → ι → Prop} {is : List ι} (h0 : I [])
    (hstep : ∀ pre i, Occurs is pre i → I pre → C pre i → I (pre ++ [i]))
    (hC : ∀ pre i, Occurs is pre i → C pre i) (pre : List ι) (hp : pre <+: is) : I pre := by
  induction pre using List.reverseRecOn with
  | nil => exact h0
  | append_singleton pre i ih => exact hstep pre i hp (ih (Occurs.history hp)) (hC pre i hp)

/-- Where the invariant holds, a step is right exactly when it meets the condition, and then
it keeps the invariant. -/
theorem forall_steps_iff {I : List ι → Prop} {S C : List ι → ι → Prop} {is : List ι} (h0 : I [])
    (hright : ∀ pre i, Occurs is pre i → I pre → (S pre i ↔ C pre i))
    (hstep : ∀ pre i, Occurs is pre i → I pre → C pre i → I (pre ++ [i])) :
    (∀ pre i, Occurs is pre i → S pre i) ↔ ∀ pre i, Occurs is pre i → C pre i := by
  constructor
  · intro h pre i hi
    have hkept := invariant_of_steps h0 (C := S) (fun pre i hi hI hS =>
      hstep pre i hi hI ((hright pre i hi hI).mp hS)) h
    exact (hright pre i hi (hkept pre hi.history)).mp (h pre i hi)
  · intro h pre i hi
    have hkept := invariant_of_steps h0 hstep h
    exact (hright pre i hi (hkept pre hi.history)).mpr (h pre i hi)

end ChatProject.Run
