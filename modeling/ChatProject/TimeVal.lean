import Mathlib.Algebra.Order.Group.Int
import Mathlib.Data.Int.Notation

/-!
# Times as seconds and microseconds

The pairs of `sys/time.h` with its `timeradd`, `timersub` and `timercmp`. A pair is
normalised when its microseconds are less than a second; on normalised pairs the
operations are those of the number of microseconds.
-/

namespace ChatProject

structure TimeVal where
  sec : ℤ
  usec : ℤ
  deriving DecidableEq

namespace TimeVal

def second : ℤ := 1000000

def Normalised (t : TimeVal) : Prop := 0 ≤ t.usec ∧ t.usec < second

instance (t : TimeVal) : Decidable t.Normalised := inferInstanceAs (Decidable (_ ∧ _))

def timeradd (a b : TimeVal) : TimeVal :=
  let r : TimeVal := ⟨a.sec + b.sec, a.usec + b.usec⟩
  if second ≤ r.usec then ⟨r.sec + 1, r.usec - second⟩ else r

def timersub (a b : TimeVal) : TimeVal :=
  let r : TimeVal := ⟨a.sec - b.sec, a.usec - b.usec⟩
  if r.usec < 0 then ⟨r.sec - 1, r.usec + second⟩ else r

/-- `timercmp( a, b, > )`. -/
def after (a b : TimeVal) : Bool :=
  if a.sec = b.sec then b.usec < a.usec else b.sec < a.sec

def micros (t : TimeVal) : ℤ := t.sec * second + t.usec

def ofSeconds (s : ℤ) : TimeVal := ⟨s, 0⟩

@[simp] theorem micros_ofSeconds (s : ℤ) : (ofSeconds s).micros = s * second := by
  simp [micros, ofSeconds]

theorem micros_ofSeconds_mono {m n : ℕ} (h : m ≤ n) :
    (ofSeconds m).micros ≤ (ofSeconds n).micros := by
  rw [micros_ofSeconds, micros_ofSeconds, second]
  omega

theorem normalised_ofSeconds (s : ℤ) : (ofSeconds s).Normalised := by
  simp [Normalised, ofSeconds, second]

section Carry
variable {a b : TimeVal}

theorem timeradd_carry (h : second ≤ a.usec + b.usec) :
    timeradd a b = ⟨a.sec + b.sec + 1, a.usec + b.usec - second⟩ :=
  if_pos h

theorem timeradd_no_carry (h : ¬ second ≤ a.usec + b.usec) :
    timeradd a b = ⟨a.sec + b.sec, a.usec + b.usec⟩ :=
  if_neg h

theorem timersub_borrow (h : a.usec - b.usec < 0) :
    timersub a b = ⟨a.sec - b.sec - 1, a.usec - b.usec + second⟩ :=
  if_pos h

theorem timersub_no_borrow (h : ¬ a.usec - b.usec < 0) :
    timersub a b = ⟨a.sec - b.sec, a.usec - b.usec⟩ :=
  if_neg h

end Carry

theorem micros_timeradd (a b : TimeVal) : (timeradd a b).micros = a.micros + b.micros := by
  by_cases h : second ≤ a.usec + b.usec
  · simp only [timeradd_carry h, micros, second]
    omega
  · simp only [timeradd_no_carry h, micros, second]
    omega

theorem micros_timersub (a b : TimeVal) : (timersub a b).micros = a.micros - b.micros := by
  by_cases h : a.usec - b.usec < 0
  · simp only [timersub_borrow h, micros, second]
    omega
  · simp only [timersub_no_borrow h, micros, second]
    omega

theorem normalised_timeradd {a b : TimeVal} (ha : a.Normalised) (hb : b.Normalised) :
    (timeradd a b).Normalised := by
  simp only [Normalised, second] at ha hb
  by_cases h : second ≤ a.usec + b.usec
  · simp only [timeradd_carry h, Normalised, second] at h ⊢
    omega
  · simp only [timeradd_no_carry h, Normalised, second] at h ⊢
    omega

theorem normalised_timersub {a b : TimeVal} (ha : a.Normalised) (hb : b.Normalised) :
    (timersub a b).Normalised := by
  simp only [Normalised, second] at ha hb
  by_cases h : a.usec - b.usec < 0
  · simp only [timersub_borrow h, Normalised, second]
    omega
  · simp only [timersub_no_borrow h, Normalised, second]
    omega

theorem after_iff {a b : TimeVal} (ha : a.Normalised) (hb : b.Normalised) :
    after a b = true ↔ b.micros < a.micros := by
  simp only [Normalised, second] at ha hb
  by_cases h : a.sec = b.sec
  · simp only [after, micros, h, ↓reduceIte, second, decide_eq_true_eq]
    omega
  · simp only [after, micros, h, ↓reduceIte, second, decide_eq_true_eq]
    omega

theorem sec_nonneg_iff {t : TimeVal} (ht : t.Normalised) : 0 ≤ t.sec ↔ 0 ≤ t.micros := by
  simp only [Normalised, second] at ht
  simp only [micros, second]
  omega

end TimeVal
end ChatProject
