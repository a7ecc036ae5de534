import Mathlib.Data.Nat.Basic

/-!
# Loops that may be undefined or not end

One turn of a loop is undefined (`none`), goes on with a state, or leaves with a result. A run
is bounded by a number of turns, and what a loop returns does not depend on that number.
-/

namespace ChatProject.Loop
variable {σ β : Type}

inductive Outcome (β : Type)
  | undefined
  | running
  | returned (b : β)
  deriving DecidableEq

def run (turn : σ → Option (σ ⊕ β)) : ℕ → σ → Outcome β
  | 0, _ => .running
  | n + 1, s =>
    match turn s with
    | none => .undefined
    | some (.inl s) => run turn n s
    | some (.inr b) => .returned b

def Returns (turn : σ → Option (σ ⊕ β)) (s : σ) (b : β) : Prop :=
  ∃ n, run turn n s = .returned b

variable {turn : σ → Option (σ ⊕ β)} {s s' : σ} {b b' : β}

theorem exists_returned_iff {α : Type} (result : α → β) {P : α → Prop} :
    (∃ n a, run turn n s = .returned (result a) ∧ P a) ↔
      ∃ a, Returns turn s (result a) ∧ P a := by
  constructor
  · intro h
    obtain ⟨n, a, hn, ha⟩ := h
    exact ⟨a, ⟨n, hn⟩, ha⟩
  · intro h
    obtain ⟨a, ⟨n, hn⟩, ha⟩ := h
    exact ⟨n, a, hn, ha⟩

theorem returns_leave_iff (h : turn s = some (.inr b)) : Returns turn s b' ↔ b' = b := by
  constructor
  · intro hreturns
    obtain ⟨n, hn⟩ := hreturns
    cases n with
    | zero => cases hn
    | succ n =>
      simp only [run, h, Outcome.returned.injEq] at hn
      exact hn.symm
  · intro heq
    subst heq
    exact ⟨1, by simp only [run, h]⟩

theorem returns_turn_iff (h : turn s = some (.inl s')) :
    Returns turn s b ↔ Returns turn s' b := by
  constructor
  · intro hreturns
    obtain ⟨n, hn⟩ := hreturns
    cases n with
    | zero => cases hn
    | succ n =>
      simp only [run, h] at hn
      exact ⟨n, hn⟩
  · intro hreturns
    obtain ⟨n, hn⟩ := hreturns
    exact ⟨n + 1, by simp only [run, h, hn]⟩

theorem not_returns_of_undefined (h : turn s = none) : ¬ Returns turn s b := by
  intro hreturns
  obtain ⟨n, hn⟩ := hreturns
  cases n with
  | zero => cases hn
  | succ n =>
    simp only [run, h] at hn
    cases hn

theorem not_returns_of_stays {I : σ → Prop}
    (hturn : ∀ s, I s → ∃ s', turn s = some (.inl s') ∧ I s') (hs : I s) :
    ¬ Returns turn s b := by
  intro hreturns
  obtain ⟨n, hn⟩ := hreturns
  induction n generalizing s with
  | zero => cases hn
  | succ n ih =>
    obtain ⟨s', hstep, hs'⟩ := hturn s hs
    simp only [run, hstep] at hn
    exact ih hs' hn

theorem Returns.of_invariant {I : σ → Prop} {Q : β → Prop} (h : Returns turn s b)
    (hturn : ∀ s s', I s → turn s = some (.inl s') → I s')
    (hleave : ∀ s b, I s → turn s = some (.inr b) → Q b) (hs : I s) : Q b := by
  obtain ⟨n, hn⟩ := h
  induction n generalizing s with
  | zero => cases hn
  | succ n ih =>
    cases hstep : turn s with
    | none =>
      simp only [run, hstep] at hn
      cases hn
    | some next =>
      cases next with
      | inl s' =>
        simp only [run, hstep] at hn
        exact ih (hturn s s' hs hstep) hn
      | inr b' =>
        simp only [run, hstep, Outcome.returned.injEq] at hn
        exact hn ▸ hleave s b' hs hstep

theorem Returns.unique (h : Returns turn s b) (h' : Returns turn s b') : b = b' := by
  obtain ⟨n, hn⟩ := h
  induction n generalizing s with
  | zero => cases hn
  | succ n ih =>
    cases hstep : turn s with
    | none => exact absurd h' (not_returns_of_undefined hstep)
    | some next =>
      cases next with
      | inl s' =>
        simp only [run, hstep] at hn
        exact ih ((returns_turn_iff hstep).mp h') hn
      | inr b₀ =>
        simp only [run, hstep, Outcome.returned.injEq] at hn
        rw [← hn]
        exact ((returns_leave_iff hstep).mp h').symm

end ChatProject.Loop
