import Mathlib.Data.List.Basic
import Mathlib.Data.List.Nodup
import Mathlib.Data.List.Perm.Basic
import Mathlib.Data.Nat.ModEq

/-!
# A window of a circular array

The items of a ring are the cells from its head onwards, going round the end of the array.
Writing the cell behind the last item appends an item, and moving the head on drops the
first one.
-/

namespace ChatProject.CircularArray
variable {α : Type} {cells items : List α} {head : ℕ} {a : α}

structure Window (cells : List α) (head : ℕ) (items : List α) : Prop where
  fits : items.length ≤ cells.length
  cell : ∀ i, i < items.length → cells[(head + i) % cells.length]? = items[i]?

theorem window_nil (cells : List α) (head : ℕ) : Window cells head [] where
  fits := Nat.zero_le _
  cell := fun i hi => by simp at hi

theorem place_inj {n i j : ℕ} (hi : i < n) (hj : j < n) (h : (head + i) % n = (head + j) % n) :
    i = j := by
  have hmod : Nat.ModEq n i j := Nat.ModEq.add_left_cancel' head h
  exact hmod.eq_of_lt_of_lt hi hj

theorem Window.snoc (h : Window cells head items) (hroom : items.length < cells.length) :
    Window (cells.set ((head + items.length) % cells.length) a) head (items ++ [a]) where
  fits := by simpa [Nat.succ_le_iff] using hroom
  cell := by
    intro i hi
    rw [List.length_append, List.length_singleton] at hi
    rw [List.length_set]
    by_cases hlast : i = items.length
    · subst hlast
      have hplace : (head + items.length) % cells.length < cells.length := Nat.mod_lt _ (by omega)
      simp [hplace]
    · have hlt : i < items.length := by omega
      have hne : (head + items.length) % cells.length ≠ (head + i) % cells.length := by
        intro heq
        exact hlast (place_inj (by omega) hroom heq.symm)
      rw [List.getElem?_set_ne hne, h.cell i hlt, List.getElem?_append_left hlt]

theorem Window.first (h : Window cells head (a :: items)) (hhead : head < cells.length) :
    cells[head]? = some a := by
  have hcell := h.cell 0 (by simp)
  rw [Nat.add_zero, Nat.mod_eq_of_lt hhead] at hcell
  exact hcell

theorem Window.rest (h : Window cells head (a :: items)) :
    Window cells ((head + 1) % cells.length) items where
  fits := Nat.le_of_succ_le h.fits
  cell := by
    intro i hi
    have hcell := h.cell (i + 1) (by simpa using hi)
    rw [List.getElem?_cons_succ] at hcell
    have hplace : ((head + 1) % cells.length + i) % cells.length =
        (head + (i + 1)) % cells.length := by
      rw [Nat.mod_add_mod, Nat.add_assoc, Nat.add_comm 1 i]
    rw [hplace, hcell]

/-- Only a window at the start of the array, an empty one and a full one reach no place behind
the places that they have at the start. -/
theorem covers_start_iff {n m : ℕ} (hhead : head < n) (hm : m ≤ n) :
    (∀ j < m, ∃ i < m, (head + i) % n = j) ↔ head = 0 ∨ m = 0 ∨ m = n := by
  constructor
  · intro h
    by_contra hnot
    obtain ⟨h0, hm0, hmn⟩ : head ≠ 0 ∧ m ≠ 0 ∧ m ≠ n := by tauto
    -- the place before the head, or the last one of the start, is not in the window
    obtain ⟨i, hi, heq⟩ := h (min (head - 1) (m - 1)) (by omega)
    by_cases hwrap : head + i < n
    · rw [Nat.mod_eq_of_lt hwrap] at heq
      omega
    · rw [Nat.mod_eq_sub_mod (by omega), Nat.mod_eq_of_lt (by omega)] at heq
      omega
  · intro h j hj
    rcases h with rfl | rfl | rfl
    · exact ⟨j, hj, by rw [Nat.zero_add, Nat.mod_eq_of_lt (by omega)]⟩
    · omega
    · by_cases hle : head ≤ j
      · exact ⟨j - head, by omega, by rw [Nat.add_sub_of_le hle, Nat.mod_eq_of_lt hj]⟩
      · refine ⟨j + m - head, by omega, ?_⟩
        rw [Nat.add_sub_of_le (by omega), Nat.add_mod_right, Nat.mod_eq_of_lt hj]

theorem window_places_nodup {n m : ℕ} (hm : m ≤ n) :
    ((List.range m).map fun i => (head + i) % n).Nodup := by
  refine List.Nodup.map_on (fun i hi j hj h => ?_) List.nodup_range
  exact place_inj (Nat.lt_of_lt_of_le (List.mem_range.mp hi) hm)
    (Nat.lt_of_lt_of_le (List.mem_range.mp hj) hm) h

section Perm
variable {β : Type} [DecidableEq α] {xs ys : List α}

theorem perm_map_iff_of_nodup (hxs : xs.Nodup) (hys : ys.Nodup) (f : α → β) :
    (xs.map f).Perm (ys.map f) ↔
      ((xs.filter (· ∉ ys)).map f).Perm ((ys.filter (· ∉ xs)).map f) := by
  have hsplit : ∀ xs ys : List α, xs.Perm (xs.filter (· ∈ ys) ++ xs.filter (· ∉ ys)) := by
    intro xs ys
    have h := (List.filter_append_perm (fun x => decide (x ∈ ys)) xs).symm
    simpa only [decide_not] using h
  have hshared : (xs.filter (· ∈ ys)).Perm (ys.filter (· ∈ xs)) := by
    refine (List.perm_ext_iff_of_nodup (hxs.filter _) (hys.filter _)).mpr fun x => ?_
    simp only [List.mem_filter, decide_eq_true_eq, and_comm]
  have hx := (hsplit xs ys).map f
  have hy := ((hsplit ys xs).trans (hshared.symm.append_right _)).map f
  rw [List.map_append] at hx hy
  rw [hx.congr_left, hy.congr_right, List.perm_append_left_iff]

end Perm

end ChatProject.CircularArray
