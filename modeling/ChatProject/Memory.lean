import Mathlib.Algebra.Group.Int.Defs
import Mathlib.Algebra.Group.Nat.Defs
import Mathlib.Data.List.Basic

/-!
# C memory: the allocator and strings in byte arrays

The allocator is the sequence of pointers that the coming `malloc` and `calloc`
calls return, with 0 for `NULL`, so a sequence is a pattern of successes and
failures. A byte array is a list of bytes. The string at an offset is read up to
its terminator; a read that meets none stops at the end of the array.
-/

namespace ChatProject.Memory

abbrev Ptr := ℕ

abbrev Bytes := List UInt8

abbrev Block (n : ℕ) := {b : Bytes // b.length = n}

abbrev CStr := List UInt8

abbrev Heap := ℕ → Ptr

namespace Heap

def next (h : Heap) : Ptr := h 0

def rest (h : Heap) : Heap := fun n => h (n + 1)

/-- An allocator that never returns `NULL`; every such one has this form. -/
def succeeding (p : ℕ → ℕ) : Heap := fun n => p n + 1

@[simp] theorem succeeding_next (p : ℕ → ℕ) : (succeeding p).next = p 0 + 1 := rfl

@[simp] theorem succeeding_rest (p : ℕ → ℕ) :
    (succeeding p).rest = succeeding (fun n => p (n + 1)) := rfl

end Heap

/-- What `malloc` left in memory is read as zero, as a page fresh from the system is. -/
def blank : ℕ := 0

def text : Bytes → CStr
  | [] => []
  | b :: bs => if b = 0 then [] else b :: text bs

def cstr (b : Bytes) (off : ℕ) : CStr := text (b.drop off)

def strcmp : CStr → CStr → ℤ
  | [], [] => 0
  | [], _ :: _ => -1
  | _ :: _, [] => 1
  | a :: as, b :: bs => if a = b then strcmp as bs else if a < b then -1 else 1

@[simp] theorem strcmp_eq_zero (a b : CStr) : strcmp a b = 0 ↔ a = b := by
  induction a generalizing b with
  | nil => cases b <;> simp [strcmp]
  | cons x xs ih =>
    cases b with
    | nil => simp [strcmp]
    | cons y ys =>
      by_cases hxy : x = y
      · simp [strcmp, hxy, ih]
      · by_cases hlt : x < y <;> simp [strcmp, hxy, hlt]

def store (dst : Bytes) (off : ℕ) (src : Bytes) : Bytes :=
  dst.take off ++ src ++ dst.drop (off + src.length)

def strcpy (dst : Bytes) (off : ℕ) (s : CStr) : Bytes := store dst off (s ++ [0])

theorem store_append (a b c src : Bytes) (h : b.length = src.length) :
    store (a ++ (b ++ c)) a.length src = a ++ (src ++ c) := by
  simp [store, ← h, List.drop_append]

theorem text_append_zero (s rest : Bytes) (hs : 0 ∉ s) : text (s ++ 0 :: rest) = s := by
  induction s with
  | nil => simp [text]
  | cons x xs ih =>
    have hx : x ≠ 0 := fun h => hs (by simp [h])
    simp [text, hx, ih (fun h => hs (List.mem_cons_of_mem _ h))]

theorem zero_notMem_text (b : Bytes) : (0 : UInt8) ∉ text b := by
  induction b with
  | nil => simp [text]
  | cons x xs ih =>
    by_cases hx : x = 0
    · simp [text, hx]
    · simpa [text, hx, Ne.symm hx] using ih

theorem text_of_notMem (b : Bytes) (h : (0 : UInt8) ∉ b) : text b = b := by
  induction b with
  | nil => rfl
  | cons x xs ih =>
    have hx : x ≠ 0 := fun h' => h (by simp [h'])
    simp [text, hx, ih (fun h' => h (List.mem_cons_of_mem _ h'))]

@[simp] theorem zero_notMem_cstr (b : Bytes) (off : ℕ) : (0 : UInt8) ∉ cstr b off :=
  zero_notMem_text _

theorem text_append_of_mem (a b : Bytes) (h : (0 : UInt8) ∈ a) : text (a ++ b) = text a := by
  induction a with
  | nil => simp at h
  | cons x xs ih =>
    by_cases hx : x = 0
    · simp [text, hx]
    · have hm : (0 : UInt8) ∈ xs := by simpa [Ne.symm hx] using h
      simp [text, hx, ih hm]

theorem text_append_of_notMem (a b : Bytes) (h : (0 : UInt8) ∉ a) :
    text (a ++ b) = a ++ text b := by
  induction a with
  | nil => rfl
  | cons x xs ih =>
    have hx : x ≠ 0 := fun h' => h (by simp [h'])
    simp [text, hx, ih (fun h' => h (List.mem_cons_of_mem _ h'))]

theorem text_length_lt (a : Bytes) (h : (0 : UInt8) ∈ a) : (text a).length < a.length := by
  induction a with
  | nil => simp at h
  | cons x xs ih =>
    by_cases hx : x = 0
    · simp [text, hx]
    · have hm : (0 : UInt8) ∈ xs := by simpa [Ne.symm hx] using h
      simpa [text, hx] using ih hm

theorem cstr_length_lt {b : Bytes} {off n : ℕ} (h : (0 : UInt8) ∈ (b.drop off).take n) :
    (cstr b off).length < n := by
  have hfield : cstr b off = text ((b.drop off).take n) := by
    rw [← text_append_of_mem _ ((b.drop off).drop n) h, List.take_append_drop]
    rfl
  rw [hfield]
  exact Nat.lt_of_lt_of_le (text_length_lt _ h) (List.length_take_le n _)

theorem cstr_of_getElem? (b : Bytes) (off : ℕ) (c : UInt8) (h : b[off]? = some c) :
    cstr b off = if c = 0 then [] else c :: cstr b (off + 1) := by
  obtain ⟨hlt, rfl⟩ := List.getElem?_eq_some_iff.mp h
  simp only [cstr, List.drop_eq_getElem_cons hlt, text]

end ChatProject.Memory
