import ChatProject.StringMap

/-!
# A map of names as a set of names

A user's `m_myGroups` is keyed by copies of group names, so what it holds does not depend
on the receive buffer: each bucket holds the names of a list that fall into it, in the
order of the list.
-/

namespace ChatProject
open Memory HashMap

structure Holds (m : GroupNames) (gs : List CStr) : Prop where
  map : StringMap m
  bucket : ∀ b, m.bucket b =
    (gs.filter (fun g => bucketOf g = b)).map (fun g => ⟨.own g, .own g⟩)

namespace Holds
variable {m : GroupNames} {gs : List CStr}

theorem fresh : Holds freshStrings [] where
  map := freshStrings_map
  bucket := fun b => by simpa using bucket_fresh 50 53 _ _ b

theorem lookup (hm : Holds m gs) (buf : Bytes) (k : CharPtr) :
    m.lookup buf k =
      if k.str buf ∈ gs then some ⟨.own (k.str buf), .own (k.str buf)⟩ else none := by
  rw [hm.map.lookup, hm.bucket, List.find?_map, List.find?_filter]
  have hp : (fun g : CStr => decide (decide (bucketOf g = bucketOf (k.str buf)) = true ∧
      ((fun e : DataItem CharPtr CharPtr => decide (e.key.str buf = k.str buf)) ∘
        fun g => ⟨.own g, .own g⟩) g = true)) = fun g => g == k.str buf := by
    funext g
    by_cases hg : g = k.str buf <;> simp [hg]
  rw [hp]
  by_cases hk : k.str buf ∈ gs
  · have hfind : gs.find? (fun g => g == k.str buf) = some (k.str buf) := by
      cases hf : gs.find? (fun g => g == k.str buf) with
      | none => simpa using (List.find?_eq_none.mp hf) _ hk
      | some g => simpa using List.find?_some hf
    simp [hfind, hk]
  · have hfind : gs.find? (fun g => g == k.str buf) = none := by
      rw [List.find?_eq_none]
      intro g hg he
      exact hk (by simpa using (beq_iff_eq.mp he) ▸ hg)
    simp [hfind, hk]

theorem find_own (hm : Holds m gs) (buf : Bytes) (g : CStr) :
    (m.find buf (some (.own g))).1 = .success ↔ g ∈ gs := by
  have hl := hm.lookup buf (.own g)
  by_cases hg : g ∈ gs
  · simp only [CharPtr.str_own, hg, ↓reduceIte] at hl
    simp [find_of_lookup_some hm.map.sound hl, hg]
  · simp only [CharPtr.str_own, hg, ↓reduceIte] at hl
    simp [find_of_lookup_none hm.map.sound hl, hg]

theorem insert (hm : Holds m gs) (buf : Bytes) (g : CStr) (p : ℕ → ℕ) :
    ∃ r m' p', m.insert blank buf (some (.own g)) (.own g) (Heap.succeeding p) =
      (r, m', Heap.succeeding p') ∧ Holds m' (gs.insert g) := by
  have hl := hm.lookup buf (.own g)
  by_cases hg : g ∈ gs
  · simp only [CharPtr.str_own, hg, ↓reduceIte] at hl
    refine ⟨_, _, _, insert_present hm.map.sound hl _ _ _, ?_⟩
    rwa [List.insert_of_mem hg]
  · simp only [CharPtr.str_own, hg, ↓reduceIte] at hl
    obtain ⟨m', p', he, hm', -, hb⟩ := hm.map.insert_absent_succeeding hl (.own g) p
    refine ⟨_, m', p', he, hm', fun b => ?_⟩
    rw [hb, hm.bucket, List.insert_of_not_mem hg, List.filter_cons]
    by_cases h : bucketOf g = b
    · simp [h]
    · simp [h, Ne.symm h]

theorem remove_absent (hm : Holds m gs) (buf : Bytes) {k : CharPtr} (hk : k.str buf ∉ gs) :
    m.remove buf (some k) = (.keyNotFoundError, none, m) := by
  apply HashMap.remove_absent hm.map.sound
  rw [hm.lookup, if_neg hk]

theorem remove_present (hm : Holds m gs) (buf : Bytes) {k : CharPtr} (hk : k.str buf ∈ gs) :
    ∃ e m', m.remove buf (some k) = (.success, e, m') ∧ Holds m' (gs.erase (k.str buf)) := by
  have hl := hm.lookup buf k
  rw [if_pos hk] at hl
  obtain ⟨m', he, hs, hsame, hb⟩ := HashMap.remove_present hm.map.sound hl
  refine ⟨_, m', he, hm.map.of_same hs hsame, fun b => ?_⟩
  rw [hb, hm.map.index, hm.bucket, ← List.erase_filter]
  split_ifs with h
  · rw [List.eraseP_map, List.erase_eq_eraseP']
    congr 2
    funext g
    by_cases hg : g = k.str buf <;> simp [hm.map.isEqual, hg]
  · rw [List.erase_of_not_mem]
    simp [Ne.symm h]

end Holds
end ChatProject
