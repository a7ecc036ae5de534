import ChatProject.HashMapSpec
import Mathlib.NumberTheory.Bertrand
import Mathlib.Order.Bounds.Basic

/-!
# The table size is a prime

Trial division by the odd numbers up to the square root, in 64-bit arithmetic. The search for a
prime ends by Bertrand's postulate, below the numbers whose square roots' squares would wrap.
-/

namespace ChatProject
open Memory HashMap

inductive Asked (number : ℕ) : ℕ → Prop
  | first : Asked number number
  | next {m : ℕ} : Asked number m → checkIfPrime m = some 0 → Asked number (sizeT (m + 1))

inductive Tested (numToChec : ℕ) : ℕ → Prop
  | first : numToChec ≠ 2 → numToChec % 2 ≠ 0 → Tested numToChec 3
  | next {i : ℕ} : Tested numToChec i → sizeT (i * i) ≤ numToChec → numToChec % i ≠ 0 →
      Tested numToChec (sizeT (i + 2))

section Division
variable {m i : ℕ}

/-- What is known when the loop comes to `i`: nothing from 2 up to `i` divides `m`. -/
structure Undivided (m i : ℕ) : Prop where
  odd : i % 2 = 1
  three_le : 3 ≤ i
  none : ∀ d, 2 ≤ d → d < i → ¬ d ∣ m
  square : i = 3 ∨ (i - 2) * (i - 2) ≤ m

theorem Undivided.first (hm : m % 2 ≠ 0) : Undivided m 3 where
  odd := rfl
  three_le := le_refl 3
  none := by
    intro d hd hlt hdvd
    obtain rfl : d = 2 := by omega
    omega
  square := .inl rfl

theorem Undivided.next (h : Undivided m i) (hm : m % 2 ≠ 0) (hsquare : i * i ≤ m)
    (hdvd : m % i ≠ 0) : Undivided m (i + 2) where
  odd := by
    have hodd := h.odd
    omega
  three_le := by
    have hle := h.three_le
    omega
  none := by
    intro d hd hlt hd'
    have hodd := h.odd
    by_cases hdi : d < i
    · exact h.none d hd hdi hd'
    · obtain rfl | rfl : d = i ∨ d = i + 1 := by omega
      · exact hdvd (Nat.mod_eq_zero_of_dvd hd')
      · -- an even divisor would make `m` even
        have htwo : 2 ∣ m := (Nat.dvd_of_mod_eq_zero (by omega)).trans hd'
        omega
  square := .inr hsquare

theorem Undivided.square_lt (h : Undivided m i) (hm : m ≤ 2 ^ 62) : i * i < 2 ^ 64 := by
  have hle : i ≤ 2 ^ 31 + 2 := by
    rcases h.square with rfl | hsquare
    · omega
    · by_contra hgt
      have hroot : 2 ^ 31 + 1 ≤ i - 2 := by omega
      have hmul := Nat.mul_le_mul hroot hroot
      omega
  have hmul := Nat.mul_le_mul hle hle
  omega

theorem Undivided.prime (h : Undivided m i) (hm : 2 ≤ m) (hlt : m < i * i) : m.Prime := by
  by_contra hprime
  have hsquare := Nat.minFac_sq_le_self (by omega) hprime
  have hfactor := Nat.minFac_prime (show m ≠ 1 by omega)
  have hle : i ≤ m.minFac := by
    by_contra hgt
    exact h.none m.minFac hfactor.two_le (by omega) (Nat.minFac_dvd m)
  have hmul := Nat.mul_le_mul hle hle
  rw [pow_two] at hsquare
  omega

theorem Undivided.not_prime (h : Undivided m i) (hsquare : i * i ≤ m) (hdvd : m % i = 0) :
    ¬ m.Prime := by
  intro hprime
  have hle := h.three_le
  have hlt : i < m := by
    have hmul := Nat.mul_le_mul_right i hle
    omega
  rcases (Nat.dvd_prime hprime).mp (Nat.dvd_of_mod_eq_zero hdvd) with hone | hself
  · omega
  · omega

theorem Undivided.sizeT_next (h : Undivided m i) (hm : m ≤ 2 ^ 62) : sizeT (i + 2) = i + 2 := by
  have hsquare := h.square_lt hm
  have hle := Nat.mul_le_mul_right i h.three_le
  exact Nat.mod_eq_of_lt (by omega)

theorem checkIfPrimeLoop_eq (hm : 2 ≤ m) (hbound : m ≤ 2 ^ 62) (hodd : m % 2 ≠ 0) (n : ℕ)
    (h : Undivided m i) (hn : m < i + n) (hn' : 0 < n) :
    checkIfPrimeLoop m n i = some (if m.Prime then 1 else 0) := by
  induction n generalizing i with
  | zero => omega
  | succ n ih =>
    have hwrap : sizeT (i * i) = i * i := Nat.mod_eq_of_lt (h.square_lt hbound)
    rw [checkIfPrimeLoop, hwrap]
    by_cases hsquare : i * i ≤ m
    · rw [if_pos hsquare]
      by_cases hdvd : m % i = 0
      · rw [if_pos hdvd, if_neg (h.not_prime hsquare hdvd)]
      · have hle := Nat.mul_le_mul_right i h.three_le
        rw [if_neg hdvd, h.sizeT_next hbound]
        exact ih (h.next hodd hsquare hdvd) (by omega) (by omega)
    · rw [if_neg hsquare, if_pos (h.prime hm (by omega))]

theorem checkIfPrime_eq (hm : 2 ≤ m) (hbound : m ≤ 2 ^ 62) :
    checkIfPrime m = some (if m.Prime then 1 else 0) := by
  rw [checkIfPrime]
  by_cases htwo : m = 2
  · rw [if_pos htwo, htwo, if_pos Nat.prime_two]
  · rw [if_neg htwo]
    by_cases heven : m % 2 = 0
    · have hprime : ¬ m.Prime := fun hprime => htwo (hprime.even_iff.mp (Nat.even_iff.mpr heven))
      rw [if_pos heven, if_neg hprime]
    · rw [if_neg heven]
      exact checkIfPrimeLoop_eq hm hbound heven m (.first heven) (by omega) (by omega)

theorem Tested.undivided (h : Tested m i) (hbound : m ≤ 2 ^ 62) :
    m % 2 ≠ 0 ∧ Undivided m i := by
  induction h with
  | first _ hodd => exact ⟨hodd, .first hodd⟩
  | next _ hsquare hdvd ih =>
    obtain ⟨hodd, hundivided⟩ := ih
    rw [sizeT, Nat.mod_eq_of_lt (hundivided.square_lt hbound)] at hsquare
    rw [hundivided.sizeT_next hbound]
    exact ⟨hodd, hundivided.next hodd hsquare hdvd⟩

end Division

section Search
variable {n p : ℕ}

theorem findPrimeLoop_eq (hp : IsLeast {q | n ≤ q ∧ q.Prime} p) (hn : 2 ≤ n) (hbound : p ≤ 2 ^ 62)
    (fuel : ℕ) (hfuel : p < n + fuel) : findPrimeLoop fuel n = some p := by
  obtain ⟨⟨hle, hprime⟩, hleast⟩ := hp
  induction fuel generalizing n with
  | zero => omega
  | succ fuel ih =>
    rw [findPrimeLoop, checkIfPrime_eq hn (hle.trans hbound)]
    by_cases hnp : n.Prime
    · obtain rfl : p = n := le_antisymm (hleast ⟨le_refl n, hnp⟩) hle
      rw [if_pos hnp]
      rfl
    · have hlt : n < p := lt_of_le_of_ne hle fun heq => hnp (heq ▸ hprime)
      have hwrap : sizeT (n + 1) = n + 1 := Nat.mod_eq_of_lt (by omega)
      rw [if_neg hnp, hwrap]
      have hleast' : p ∈ lowerBounds {q | n + 1 ≤ q ∧ q.Prime} :=
        fun q hq => hleast ⟨Nat.le_of_succ_le hq.1, hq.2⟩
      exact ih (by omega) (by omega) hleast' hlt

theorem exists_least_prime (hn : n ≠ 0) :
    ∃ p, IsLeast {q | n ≤ q ∧ q.Prime} p ∧ p ≤ 2 * n := by
  obtain ⟨q, hprime, hlt, hle⟩ := Nat.exists_prime_lt_and_le_two_mul n hn
  have hex : ∃ q, n ≤ q ∧ q.Prime := ⟨q, hlt.le, hprime⟩
  classical
  refine ⟨Nat.find hex, ⟨Nat.find_spec hex, fun r hr => Nat.find_min' hex hr⟩, ?_⟩
  exact (Nat.find_min' hex ⟨hlt.le, hprime⟩).trans hle

theorem Asked.between {m : ℕ} (h : Asked n m) (hp : IsLeast {q | n ≤ q ∧ q.Prime} p) (hn : 2 ≤ n)
    (hbound : p ≤ 2 ^ 62) : n ≤ m ∧ m ≤ p := by
  induction h with
  | first => exact ⟨le_refl n, hp.1.1⟩
  | @next m _ hzero ih =>
    obtain ⟨hle, hle'⟩ := ih
    rw [checkIfPrime_eq (hn.trans hle) (hle'.trans hbound), Option.some.injEq] at hzero
    have hnp : ¬ m.Prime := by
      intro hprime
      rw [if_pos hprime] at hzero
      cases hzero
    have hlt : m < p := lt_of_le_of_ne hle' fun heq => hnp (heq ▸ hp.1.2)
    rw [sizeT, Nat.mod_eq_of_lt (by omega)]
    exact ⟨by omega, by omega⟩

/-- `p` is what the search for `n` ends with, and nothing has wrapped on the way. -/
structure FindsLeastPrime (n p : ℕ) : Prop where
  found : findPrimeLargerThan n = some p
  least : IsLeast {q | n ≤ q ∧ q.Prime} p
  decides : ∀ m, Asked n m → checkIfPrime m = some (if m.Prime then 1 else 0)
  squares : ∀ m i, Asked n m → Tested m i → i * i < 2 ^ 64
  increments : ∀ m, Asked n m → m + 1 < 2 ^ 64

theorem findsLeastPrime_of_isLeast (hn : 2 ≤ n) (hp : IsLeast {q | n ≤ q ∧ q.Prime} p)
    (hle : p ≤ 2 * n) (hbound : p ≤ 2 ^ 62) : FindsLeastPrime n p where
  found := findPrimeLoop_eq hp hn hbound (n + 1) (by omega)
  least := hp
  decides := by
    intro m hm
    obtain ⟨hnm, hmp⟩ := hm.between hp hn hbound
    exact checkIfPrime_eq (hn.trans hnm) (hmp.trans hbound)
  squares := by
    intro m i hm hi
    have hmp := (hm.between hp hn hbound).2.trans hbound
    exact (hi.undivided hmp).2.square_lt hmp
  increments := by
    intro m hm
    have hmp := (hm.between hp hn hbound).2
    omega

/-- For a capacity of which the table's bytes can be counted, the search ends with the least prime
that is not below it, and a map from `HashMap_Create` has that size. -/
theorem tableSize_leastPrime (n : ℕ) (hn : 2 ≤ n) (hn' : n ≤ 2 ^ 61) :
    ∃ p, FindsLeastPrime n p ∧
      ∀ (σ K V : Type) (hashFunc : σ → K → ℕ) (keysEqualFunc : σ → K → K → ℤ) (h : Heap)
        (m : HashMap σ K V), (create n hashFunc keysEqualFunc h).1 = some m → m.allocSize = p := by
  obtain ⟨p, hp, hle⟩ := exists_least_prime (show n ≠ 0 by omega)
  have hfinds := findsLeastPrime_of_isLeast hn hp hle (by omega)
  refine ⟨p, hfinds, fun σ K V hashFunc keysEqualFunc h m hm => ?_⟩
  rw [create_eq (by omega) hfinds.found] at hm
  split_ifs at hm
  rw [← Option.some.inj hm]
  rfl

theorem tableSize_fifty : FindsLeastPrime 50 53 ∧ ∀ m : HashMap Unit ℕ ℕ,
    (create 50 (fun _ k => k) (fun _ a b => if a = b then 1 else 0) (Heap.succeeding id)).1 =
      some m → m.allocSize = 53 := by
  obtain ⟨p, hp, hsize⟩ := tableSize_leastPrime 50 (by decide) (by decide)
  obtain rfl : 53 = p := Option.some.inj hp.found
  exact ⟨hp, hsize Unit ℕ ℕ _ _ _⟩

end Search
end ChatProject
