import ChatProject.DataBase
import ChatProject.HashMapSpec

/-!
# The database's maps, keyed by strings

All maps of the database have 53 buckets and compare keys by their text. A map of names
that own their memory holds a list of names, whatever the receive buffer contains: each
bucket holds the names of the list that fall into it, in the order of the list.
-/

namespace ChatProject
open Memory HashMap DataBase

/-- The bucket of a name: its character sum modulo the table size. -/
def bucketOf (s : CStr) : ℕ := stringHash s % 53

theorem bucketOf_lt (s : CStr) : bucketOf s < 53 := Nat.mod_lt _ (by decide)

structure StringMap {V : Type} (m : HashMap Bytes CharPtr V) : Prop where
  sound : m.Sound (· = blank)
  size : m.allocSize = 53
  hash : m.hashFunc = fun buf key => stringHash (key.str buf)
  equal : m.keysEqualFunc = fun buf a b => stringsEqual (a.str buf) (b.str buf)

namespace StringMap
variable {V : Type} {m : HashMap Bytes CharPtr V}

theorem index (hm : StringMap m) (buf : Bytes) (k : CharPtr) :
    m.index buf k = bucketOf (k.str buf) := by
  simp [HashMap.index, bucketOf, hm.size, hm.hash]

theorem isEqual (hm : StringMap m) (buf : Bytes) (k : CharPtr) (e : DataItem CharPtr V) :
    m.isEqual buf k e = decide (e.key.str buf = k.str buf) := by
  by_cases h : e.key.str buf = k.str buf <;>
    simp [HashMap.isEqual, hm.equal, stringsEqual, h]

theorem of_same (hm : StringMap m) {m' : HashMap Bytes CharPtr V} (hs : m'.Sound (· = blank))
    (h : SameTable m m') : StringMap m' where
  sound := hs
  size := h.allocSize.trans hm.size
  hash := h.hashFunc.trans hm.hash
  equal := h.keysEqualFunc.trans hm.equal

theorem lookup (hm : StringMap m) (buf : Bytes) (k : CharPtr) :
    m.lookup buf k =
      (m.bucket (bucketOf (k.str buf))).find? (fun e => e.key.str buf = k.str buf) := by
  rw [HashMap.lookup, hm.index, show m.isEqual buf k = _ from funext (hm.isEqual buf k)]

theorem lookup_of_empty (hm : StringMap m) {buf : Bytes} {k : CharPtr}
    (h : m.bucket (bucketOf (k.str buf)) = []) : m.lookup buf k = none := by
  rw [hm.lookup, h]
  rfl

theorem lookup_of_single (hm : StringMap m) {buf : Bytes} {k : CharPtr} {e : DataItem CharPtr V}
    (h : m.bucket (bucketOf (k.str buf)) = [e]) :
    m.lookup buf k = if e.key.str buf = k.str buf then some e else none := by
  rw [hm.lookup, h]
  by_cases he : e.key.str buf = k.str buf <;> simp [he]

/-- Where all keys point to one place, a lookup reads that place and its own, and finds the
first entry of its bucket or none. -/
theorem lookup_of_keys (hm : StringMap m) {k₀ : CharPtr} (hkey : ∀ b, ∀ e ∈ m.bucket b, e.key = k₀)
    (buf : Bytes) (k : CharPtr) :
    m.lookup buf k =
      if k₀.str buf = k.str buf then (m.bucket (bucketOf (k.str buf))).head? else none := by
  rw [hm.lookup]
  have hall := hkey (bucketOf (k.str buf))
  cases hb : m.bucket (bucketOf (k.str buf)) with
  | nil => simp
  | cons e es =>
    rw [hb] at hall
    split_ifs with hk
    · simp [hall e List.mem_cons_self, hk]
    · rw [List.find?_eq_none]
      intro e' he'
      simp [hall e' he', hk]

theorem insert_absent (hm : StringMap m) {buf : Bytes} {k : CharPtr}
    (hk : m.lookup buf k = none) (v : V) (h : Heap) :
    StringMap (m.insert blank buf (some k) v h).2.1 ∧
      ∀ b, (m.insert blank buf (some k) v h).2.1.bucket b =
        if b = bucketOf (k.str buf) then
          (if m.insertStores b h then [⟨v, k⟩] else []) ++ m.bucket b
        else m.bucket b := by
  have hblank : blank = blank := rfl
  have hi := (HashMap.insert_absent hm.sound hk hblank v (h := h) (fun n hn => hn)).2
  refine ⟨hm.of_same hi.sound hi.same, fun b => ?_⟩
  rw [hi.bucket b, hm.index]
  split_ifs with hb <;> simp_all

theorem insert_absent_succeeding (hm : StringMap m) {buf : Bytes} {k : CharPtr}
    (hk : m.lookup buf k = none) (v : V) (p : ℕ → ℕ) :
    ∃ m' p', m.insert blank buf (some k) v (Heap.succeeding p) =
        (.success, m', Heap.succeeding p') ∧ StringMap m' ∧
      m'.numOfItems = sizeT (m.numOfItems + 1) ∧
      ∀ b, m'.bucket b =
        if b = bucketOf (k.str buf) then ⟨v, k⟩ :: m.bucket b else m.bucket b := by
  obtain ⟨m', p', he, hi, hn⟩ := HashMap.insert_absent_succeeding hm.sound hk v p
  exact ⟨m', p', he, hm.of_same hi.sound hi.same, hn, fun b => by rw [hi.bucket b, hm.index]; rfl⟩

theorem modifyFound (hm : StringMap m) {buf : Bytes} {k : CharPtr} {e : DataItem CharPtr V}
    (he : m.lookup buf k = some e) (f : V → V) :
    StringMap (m.modifyFound buf k f) ∧ (m.modifyFound buf k f).numOfItems = m.numOfItems ∧
      ∀ b, (m.modifyFound buf k f).bucket b =
        if b = bucketOf (k.str buf) then
          (m.bucket b).modify ((m.bucket b).findIdx (m.isEqual buf k))
            (fun e => { e with value := f e.value })
        else m.bucket b := by
  obtain ⟨hs, hsame, hn, hb⟩ := modifyFound_spec hm.sound he f
  exact ⟨hm.of_same hs hsame, hn, fun b => by rw [hb b, hm.index]⟩

theorem modifyFound_of_single (hm : StringMap m) {buf : Bytes} {k : CharPtr}
    {e : DataItem CharPtr V} (h : m.bucket (bucketOf (k.str buf)) = [e])
    (he : e.key.str buf = k.str buf) (f : V → V) :
    StringMap (m.modifyFound buf k f) ∧ (m.modifyFound buf k f).numOfItems = m.numOfItems ∧
      ∀ b, (m.modifyFound buf k f).bucket b =
        if b = bucketOf (k.str buf) then [{ e with value := f e.value }] else m.bucket b := by
  have hl : m.lookup buf k = some e := by rw [hm.lookup_of_single h, if_pos he]
  obtain ⟨hm', hn, hb⟩ := hm.modifyFound hl f
  refine ⟨hm', hn, fun b => ?_⟩
  rw [hb]
  split_ifs with hbb
  · subst hbb
    have hidx : ([e] : List (DataItem CharPtr V)).findIdx (m.isEqual buf k) = 0 := by
      simp [List.findIdx_cons, hm.isEqual, he]
    rw [h, hidx]
    rfl
  · rfl

end StringMap

theorem findPrimeLargerThan_fifty : findPrimeLargerThan 50 = some 53 := by decide

section Create
variable {V : Type}

abbrev freshStrings : HashMap Bytes CharPtr V :=
  fresh 50 53 hashFunctionGroups equalityFunctionForGroups

theorem freshStrings_map : StringMap (freshStrings : HashMap Bytes CharPtr V) where
  sound := fresh_sound 50 (by decide) _ _
  size := rfl
  hash := rfl
  equal := rfl

theorem create_strings (h : Heap) :
    (HashMap.create 50 hashFunctionGroups equalityFunctionForGroups h :
      Option (HashMap Bytes CharPtr V) × Heap).1 =
      if h 0 = 0 ∨ h 1 = 0 then none else some freshStrings :=
  create_eq (by decide) findPrimeLargerThan_fifty _ _ h

theorem create_strings_succeeding (p : ℕ → ℕ) :
    (HashMap.create 50 hashFunctionGroups equalityFunctionForGroups (Heap.succeeding p) :
      Option (HashMap Bytes CharPtr V) × Heap) =
      (some freshStrings, Heap.succeeding (fun n => p (n + 2))) := by
  simp only [HashMap.create, findPrimeLargerThan_fifty]
  rfl

end Create

end ChatProject
