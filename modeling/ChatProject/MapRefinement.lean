import ChatProject.FiniteMap
import ChatProject.HashMapSpec
import ChatProject.Run
import Mathlib.Order.Interval.Finset.Nat

/-!
# The hash map refines a finite map

The entries of all chains, each tagged with the class of its key, are the pairs of the
finite map. That every entry is in the bucket of its hash makes the search of one chain a
search of all of them.
-/

namespace ChatProject
open Memory HashMap Run

namespace HashMap
variable {σ K C V : Type}

theorem bucket_subset (m : HashMap σ K V) {b : ℕ} {e : DataItem K V} (he : e ∈ m.bucket b) :
    e ∈ m.entries :=
  (m.mem_entries e).mpr ⟨b, he⟩

def others (m : HashMap σ K V) (b : ℕ) : List (DataItem K V) :=
  ((List.range m.data.length).erase b).flatMap m.bucket

theorem entries_perm (m : HashMap σ K V) {b : ℕ} (hb : b < m.data.length) :
    m.entries.Perm (m.bucket b ++ m.others b) := by
  have hperm := List.perm_cons_erase (List.mem_range.mpr hb)
  exact hperm.flatMap_right m.bucket

theorem others_congr {m m' : HashMap σ K V} {b : ℕ} (hlen : m'.data.length = m.data.length)
    (h : ∀ b', b' ≠ b → m'.bucket b' = m.bucket b') : m'.others b = m.others b := by
  rw [others, others, hlen]
  refine List.flatMap_congr fun b' hb' => h b' ?_
  rintro rfl
  exact List.nodup_range.not_mem_erase hb'

theorem entries_cons_perm {m m' : HashMap σ K V} {b : ℕ} {e : DataItem K V}
    (hb : b < m.data.length) (hlen : m'.data.length = m.data.length)
    (hothers : ∀ b', b' ≠ b → m'.bucket b' = m.bucket b')
    (hbucket : (m'.bucket b).Perm (e :: m.bucket b)) : m'.entries.Perm (e :: m.entries) := by
  have hsplit := m'.entries_perm (hlen.symm ▸ hb)
  rw [others_congr hlen hothers] at hsplit
  have hmiddle := hbucket.append_right (m.others b)
  exact hsplit.trans (hmiddle.trans ((m.entries_perm hb).symm.cons e))

theorem entries_fresh (capacity n : ℕ) (hashFunc : σ → K → ℕ) (keysEqualFunc : σ → K → K → ℤ) :
    (fresh capacity n hashFunc keysEqualFunc : HashMap σ K V).entries = [] := by
  rw [entries, List.flatMap_eq_nil_iff]
  intro b _
  exact bucket_fresh capacity n hashFunc keysEqualFunc b

def cells (m : HashMap σ K V) : List (Ptr × DataItem K V) :=
  (List.range m.data.length).flatMap fun b =>
    match m.chainAt b with
    | none => []
    | some l => l.nodes

theorem map_cells (m : HashMap σ K V) : m.cells.map Prod.snd = m.entries := by
  rw [cells, entries, List.map_flatMap]
  refine List.flatMap_congr fun b _ => ?_
  cases hc : m.chainAt b with
  | none => simp [bucket_of_chainAt_none hc]
  | some l => simp [bucket_of_chainAt hc]

theorem mem_cells {m : HashMap σ K V} {b : ℕ} {l : LinkedList (DataItem K V)}
    (hl : m.chainAt b = some l) {n : Ptr × DataItem K V} (hn : n ∈ l.nodes) : n ∈ m.cells := by
  have hb : b < m.data.length := by
    by_contra hge
    simp [chainAt, Nat.le_of_not_lt hge] at hl
  refine List.mem_flatMap.mpr ⟨b, List.mem_range.mpr hb, ?_⟩
  rw [hl]
  exact hn

theorem mem_data {m : HashMap σ K V} {b : ℕ} {l : LinkedList (DataItem K V)}
    (hl : m.chainAt b = some l) : some l ∈ m.data := by
  rw [chainAt, List.getD_eq_getElem?_getD] at hl
  cases hd : m.data[b]? with
  | none => simp [hd] at hl
  | some c =>
    rw [hd, Option.getD_some] at hl
    exact hl ▸ List.mem_of_getElem? hd

/-- Where the memory allocator puts the entries: at different addresses, none of which is
the word that a chain's tail sentinel holds. -/
structure Placed (m : HashMap σ K V) : Prop where
  tail : ∀ c ∈ m.data, ∀ l ∈ c, ∀ n ∈ m.cells, n.1 ≠ l.tailData
  nodup : (m.cells.map Prod.fst).Nodup
  address : ∀ n ∈ m.cells, 0 < n.1 ∧ n.1 < 2 ^ 64

instance (m : HashMap σ K V) : Decidable m.Placed :=
  decidable_of_iff ((∀ c ∈ m.data, ∀ l ∈ c, ∀ n ∈ m.cells, n.1 ≠ l.tailData) ∧
      (m.cells.map Prod.fst).Nodup ∧ ∀ n ∈ m.cells, 0 < n.1 ∧ n.1 < 2 ^ 64)
    ⟨fun h => ⟨h.1, h.2.1, h.2.2⟩, fun h => ⟨h.tail, h.nodup, h.address⟩⟩

theorem Placed.length_lt {m : HashMap σ K V} (h : m.Placed) : m.entries.length < 2 ^ 64 := by
  have hsub : (m.cells.map Prod.fst).toFinset ⊆ Finset.Ico 1 (2 ^ 64) := by
    intro p hp
    obtain ⟨n, hn, rfl⟩ := List.mem_map.mp (List.mem_toFinset.mp hp)
    exact Finset.mem_Ico.mpr (h.address n hn)
  have hcard := Finset.card_le_card hsub
  rw [List.toFinset_card_of_nodup h.nodup, List.length_map, Nat.card_Ico] at hcard
  rw [← map_cells, List.length_map]
  omega

def TailWord (m : HashMap σ K V) (p : Ptr) : Prop := ∃ b l, m.chainAt b = some l ∧ l.tailData = p

/-- The map is in use, with the functions of `keys`. -/
structure InUse (keys : Keys σ K C) (m : HashMap σ K V) : Prop where
  valid : m.isValid = true
  pos : 0 < m.allocSize
  size : m.data.length = m.allocSize
  hashFunc : m.hashFunc = keys.hashFunc
  keysEqualFunc : m.keysEqualFunc = keys.keysEqualFunc

theorem inUse_fresh {keys : Keys σ K C} {capacity n : ℕ} (hn : 0 < n) :
    InUse keys (fresh capacity n keys.hashFunc keys.keysEqualFunc : HashMap σ K V) :=
  ⟨by simp [isValid, fresh], hn, by simp [fresh], rfl, rfl⟩

theorem InUse.sound {keys : Keys σ K C} {m : HashMap σ K V} (h : InUse keys m) (hp : m.Placed) :
    m.Sound m.TailWord where
  valid := h.valid
  pos := h.pos
  size := h.size
  tail := fun b l hl => ⟨b, l, hl, rfl⟩
  item := by
    rintro b' l' hl' n hn ⟨b, l, hl, htail⟩
    exact hp.tail (some l) (mem_data hl) l rfl n (mem_cells hl' hn) htail.symm

theorem InUse.of_sameTable {keys : Keys σ K C} {m m' : HashMap σ K V} {J : Ptr → Prop}
    (h : InUse keys m) (hs : m'.Sound J) (hsame : SameTable m m') : InUse keys m' where
  valid := hs.valid
  pos := hs.pos
  size := hs.size
  hashFunc := hsame.hashFunc.trans h.hashFunc
  keysEqualFunc := hsame.keysEqualFunc.trans h.keysEqualFunc

theorem isEqual_iff {keys : Keys σ K C} {m : HashMap σ K V} (h : InUse keys m) {mem : σ} {k : K}
    {e : DataItem K V} :
    m.isEqual mem k e = true ↔ keys.classOf mem e.key = keys.classOf mem k := by
  rw [isEqual, h.keysEqualFunc, decide_eq_true_eq, Keys.classOf_eq_iff]
  rfl

theorem index_eq {keys : Keys σ K C} {m : HashMap σ K V} (h : InUse keys m) {mem : σ} {a b : K}
    (hc : keys.classOf mem a = keys.classOf mem b) : m.index mem a = m.index mem b := by
  rw [index, index, h.hashFunc, Keys.hashFunc_eq hc]

theorem insert_allocated {J : Ptr → Prop} {m : HashMap σ K V} (hm : m.Sound J) {mem : σ} {k : K}
    (hk : m.lookup mem k = none) (junk : Ptr) (v : V) {h : Heap} (hh : ∀ n, h n ≠ 0) :
    ∃ l h', m.insert junk mem (some k) v h =
        (.success, { m with
          data := m.data.set (m.index mem k) (some l)
          numOfItems := sizeT (m.numOfItems + 1) }, h') ∧
      l.nodes.map Prod.snd = ⟨v, k⟩ :: m.bucket (m.index mem k) := by
  cases hc : m.chainAt (m.index mem k) with
  | none =>
    have hpush := pushItem_some m (m.index mem k) ⟨[], junk⟩ ⟨v, k⟩ h.rest
    rw [if_neg (show h.rest 0 ≠ 0 from hh 1), if_neg (show h.rest 1 ≠ 0 from hh 2)] at hpush
    refine ⟨⟨[(h 1, ⟨v, k⟩)], junk⟩, h.rest.rest.rest, ?_, ?_⟩
    · rw [insert_absent_none hm hc, if_neg (hh 0), hpush]
      rfl
    · rw [bucket_of_chainAt_none hc]
      rfl
  | some l =>
    have hpush := pushItem_some m (m.index mem k) l ⟨v, k⟩ h
    rw [if_neg (hh 0), if_neg (hh 1)] at hpush
    refine ⟨⟨(h 0, ⟨v, k⟩) :: l.nodes, l.tailData⟩, h.rest.rest, ?_, ?_⟩
    · rw [insert_absent_some hm hk hc, hpush]
    · rw [List.map_cons, bucket_of_chainAt hc]

theorem remove_numOfItems {m m' : HashMap σ K V} {mem : σ} {k : K} {item : Option (DataItem K V)}
    (h : m.remove mem (some k) = (.success, item, m')) :
    m'.numOfItems = sizePred m.numOfItems ∧ m'.data.length = m.data.length := by
  simp only [remove] at h
  split_ifs at h
  · cases hc : m.chainAt (m.index mem k) with
    | none => simp [hc] at h
    | some l =>
      simp only [hc] at h
      split_ifs at h
      · cases h
      · simp only [Prod.mk.injEq, true_and] at h
        rw [← h.2]
        exact ⟨rfl, List.length_set⟩
  · simp at h

theorem cons_eraseP_perm {α : Type} {p : α → Bool} {xs : List α} {a : α}
    (h : xs.find? p = some a) : xs.Perm (a :: xs.eraseP p) := by
  obtain ⟨ha, front, back, rfl, hfront⟩ := List.find?_eq_some_iff_append.mp h
  have herase : (front ++ a :: back).eraseP p = front ++ back := by
    rw [List.eraseP_append_right _ fun b hb => by simpa using hfront b hb,
      List.eraseP_cons_of_pos ha]
  rw [herase]
  exact List.perm_middle

end HashMap

open HashMap

section Represents
variable {σ K C V : Type} {keys : Keys σ K C}

def tagged (keys : Keys σ K C) (mem : σ) (e : DataItem K V) :
    (_ : keys.Class) × DataItem K V :=
  ⟨keys.classOf mem e.key, e⟩

/-- The hash map holds the pairs of the finite map, each in the bucket of its hash. -/
structure Represents (keys : Keys σ K C) (mem : σ) (m : HashMap σ K V) (f : FiniteMap keys V) :
    Prop where
  inUse : InUse keys m
  hashed : ∀ b, ∀ e ∈ m.bucket b, m.index mem e.key = b
  pairs : f.entries = (m.entries.map (tagged keys mem) : Multiset _)
  counted : m.numOfItems = m.entries.length

namespace Represents
variable {mem mem' : σ} {m m' : HashMap σ K V} {f : FiniteMap keys V}

theorem mem_iff (h : Represents keys mem m f) {q : keys.Class} {e : DataItem K V} :
    f.lookup q = some e ↔ e ∈ m.entries ∧ keys.classOf mem e.key = q := by
  rw [Finmap.lookup_eq_some_iff, h.pairs, Multiset.mem_coe, List.mem_map]
  constructor
  · rintro ⟨e', he', heq⟩
    obtain ⟨rfl, rfl⟩ := Sigma.mk.inj_iff.mp heq
    exact ⟨he', rfl⟩
  · rintro ⟨he, rfl⟩
    exact ⟨e, he, rfl⟩

theorem lookup_eq (h : Represents keys mem m f) (k : K) :
    f.lookup (keys.classOf mem k) = m.lookup mem k := by
  cases hl : m.lookup mem k with
  | some e =>
    have hbucket := List.mem_of_find?_eq_some hl
    have hequal := (isEqual_iff h.inUse).mp (List.find?_some hl)
    exact h.mem_iff.mpr ⟨m.bucket_subset hbucket, hequal⟩
  | none =>
    rw [Option.eq_none_iff_forall_ne_some]
    intro e he
    obtain ⟨hmem, hequal⟩ := h.mem_iff.mp he
    obtain ⟨b, hb⟩ := (m.mem_entries e).mp hmem
    have hindex : m.index mem k = b := (index_eq h.inUse hequal).symm.trans (h.hashed b e hb)
    rw [lookup, hindex, List.find?_eq_none] at hl
    exact hl e hb ((isEqual_iff h.inUse).mpr hequal)

theorem card_eq (h : Represents keys mem m f) : f.keys.card = m.entries.length := by
  have hcard : f.keys.card = f.entries.card := Multiset.card_map _ _
  rw [hcard, h.pairs, Multiset.coe_card, List.length_map]

theorem reread (h : Represents keys mem m f)
    (hkeys : ∀ e ∈ m.entries, keys.read mem' e.key = keys.read mem e.key) :
    Represents keys mem' m f where
  inUse := h.inUse
  hashed := by
    intro b e he
    have hindex := h.hashed b e he
    rw [index, h.inUse.hashFunc, Keys.hashFunc] at hindex ⊢
    rw [hkeys e (m.bucket_subset he), hindex]
  pairs := by
    rw [h.pairs]
    refine congrArg _ (List.map_congr_left fun e he => ?_)
    rw [tagged, tagged, Keys.classOf_congr (hkeys e he)]
  counted := h.counted

theorem fresh {capacity n : ℕ} (hn : 0 < n) :
    Represents keys mem (fresh capacity n keys.hashFunc keys.keysEqualFunc : HashMap σ K V) ∅ where
  inUse := inUse_fresh hn
  hashed := by simp [bucket_fresh]
  pairs := by
    rw [entries_fresh]
    rfl
  counted := by
    rw [entries_fresh]
    rfl

theorem insert (h : Represents keys mem m f) (hp : m.Placed) {k : K}
    (hk : m.lookup mem k = none) {junk : Ptr} {v : V} {heap : Heap} (hheap : ∀ n, heap n ≠ 0)
    (hp' : (m.insert junk mem (some k) v heap).2.1.Placed) :
    (m.insert junk mem (some k) v heap).1 = .success ∧
      Represents keys mem (m.insert junk mem (some k) v heap).2.1
        (f.insert (keys.classOf mem k) ⟨v, k⟩) := by
  obtain ⟨l, h', heq, hl⟩ := insert_allocated (h.inUse.sound hp) hk junk v hheap
  rw [heq] at hp' ⊢
  dsimp only at hp' ⊢
  have hb := index_lt (h.inUse.sound hp) mem k
  have hset := bucket_set m _ hb l (sizeT (m.numOfItems + 1))
  have hlen : (m.data.set (m.index mem k) (some l)).length = m.data.length := List.length_set
  generalize hm' : ({ m with
    data := m.data.set (m.index mem k) (some l)
    numOfItems := sizeT (m.numOfItems + 1) } : HashMap σ K V) = m' at hp' hset ⊢
  have hperm : m'.entries.Perm (⟨v, k⟩ :: m.entries) := by
    refine entries_cons_perm hb (by rw [← hm']; exact hlen) ?_ ?_
    · intro b' hne
      rw [hset, if_neg hne]
    · rw [hset, if_pos rfl, hl]
  refine ⟨rfl, ⟨?_, ?_, ?_, ?_⟩⟩
  · rw [← hm']
    exact ⟨h.inUse.valid, h.inUse.pos, hlen.trans h.inUse.size, h.inUse.hashFunc,
      h.inUse.keysEqualFunc⟩
  · intro b e he
    have hindex : m'.index mem e.key = m.index mem e.key := by rw [← hm']; rfl
    rw [hindex]
    rw [hset] at he
    split_ifs at he with hbb
    · rw [hl, ← hbb, List.mem_cons] at he
      rcases he with rfl | he
      · exact hbb.symm
      · exact h.hashed b e he
    · exact h.hashed b e he
  · have hnew : keys.classOf mem k ∉ f := by
      rw [← Finmap.lookup_eq_none, h.lookup_eq, hk]
    have hmap := hperm.map (tagged keys mem)
    rw [List.map_cons] at hmap
    rw [Finmap.entries_insert_of_notMem hnew, h.pairs, Multiset.cons_coe, Multiset.coe_eq_coe]
    exact hmap.symm
  · have hlt := hp'.length_lt
    have hlength := hperm.length_eq
    rw [List.length_cons] at hlength
    have hnum : m'.numOfItems = sizeT (m.numOfItems + 1) := by rw [← hm']
    rw [hnum, h.counted, ← hlength]
    exact Nat.mod_eq_of_lt hlt

theorem remove (h : Represents keys mem m f) (hp : m.Placed) {k : K} {e : DataItem K V}
    (he : m.lookup mem k = some e) :
    ∃ m', m.remove mem (some k) = (.success, some e, m') ∧
      Represents keys mem m' (f.erase (keys.classOf mem k)) := by
  obtain ⟨m', heq, hs, hsame, hbuckets⟩ := remove_present (h.inUse.sound hp) he
  obtain ⟨hnum, hlen⟩ := remove_numOfItems heq
  have hb := index_lt (h.inUse.sound hp) mem k
  have hperm : m.entries.Perm (e :: m'.entries) := by
    refine entries_cons_perm (hlen.symm ▸ hb) hlen.symm ?_ ?_
    · intro b' hne
      rw [hbuckets, if_neg hne]
    · rw [hbuckets, if_pos rfl]
      exact cons_eraseP_perm he
  refine ⟨m', heq, h.inUse.of_sameTable hs hsame, ?_, ?_, ?_⟩
  · intro b e' he'
    have hindex : m'.index mem e'.key = m.index mem e'.key := by
      rw [index, index, hsame.allocSize, hsame.hashFunc]
    rw [hindex]
    rw [hbuckets] at he'
    split_ifs at he'
    · exact h.hashed b e' (List.mem_of_mem_eraseP he')
    · exact h.hashed b e' he'
  · have hlookup : f.lookup (keys.classOf mem k) = some e := by rw [h.lookup_eq, he]
    have hentries := h.pairs
    rw [entries_eq_cons_erase hlookup, Multiset.coe_eq_coe.mpr (hperm.map _), List.map_cons,
      ← Multiset.cons_coe] at hentries
    have htag : tagged keys mem e = ⟨keys.classOf mem k, e⟩ := by
      rw [tagged, (h.mem_iff.mp hlookup).2]
    rw [htag] at hentries
    exact (Multiset.cons_inj_right _).mp hentries
  · have hlength := hperm.length_eq
    rw [List.length_cons] at hlength
    rw [hnum, h.counted, hlength, sizePred, if_neg (Nat.succ_ne_zero _)]
    rfl

/-- One call: the answers agree, and so do the maps afterwards. -/
theorem call (h : Represents keys mem m f) (hp : m.Placed) {c : MapCall K V} (hc : c.Allocates)
    (hp' : (m.call mem c).2.Placed) :
    (m.call mem c).1 = (f.call mem c).1 ∧
      Represents keys mem (m.call mem c).2 (f.call mem c).2 := by
  have hsound := h.inUse.sound hp
  cases c with
  | insert k v junk heap =>
    cases hl : m.lookup mem k with
    | some e =>
      have heq := insert_present hsound hl junk v heap
      simp only [HashMap.call, FiniteMap.call, h.lookup_eq, hl, heq, true_and]
      exact h
    | none =>
      obtain ⟨hresult, hrep⟩ := h.insert hp hl hc hp'
      simp only [HashMap.call, FiniteMap.call, h.lookup_eq, hl, hresult, true_and]
      exact hrep
  | remove k =>
    cases hl : m.lookup mem k with
    | some e =>
      obtain ⟨m', heq, hrep⟩ := h.remove hp hl
      simp only [HashMap.call, FiniteMap.call, h.lookup_eq, hl, heq, true_and]
      exact hrep
    | none =>
      have heq := remove_absent hsound hl
      simp only [HashMap.call, FiniteMap.call, h.lookup_eq, hl, heq, true_and]
      exact h
  | find k =>
    cases hl : m.lookup mem k with
    | some e =>
      have heq := find_of_lookup_some hsound hl
      simp only [HashMap.call, FiniteMap.call, h.lookup_eq, hl, heq, true_and]
      exact h
    | none =>
      have heq := find_of_lookup_none hsound hl
      simp only [HashMap.call, FiniteMap.call, h.lookup_eq, hl, heq, true_and]
      exact h
  | size =>
    have hsize : m.size = f.keys.card := by
      rw [size, if_pos h.inUse.valid, h.counted, h.card_eq]
    simp only [HashMap.call, FiniteMap.call, hsize, true_and]
    exact h

end Represents

end Represents

namespace HashMap
variable {σ K V : Type}

theorem findPrimeLoop_pos (n number : ℕ) {p : ℕ} (h : findPrimeLoop n number = some p) : 0 < p := by
  induction n generalizing number with
  | zero => simp [findPrimeLoop] at h
  | succ n ih =>
    rw [findPrimeLoop] at h
    split at h
    · cases h
    · exact ih _ h
    · rename_i r hr hprime
      obtain rfl : number = p := Option.some.inj h
      rw [Nat.pos_iff_ne_zero]
      rintro rfl
      exact hr (Option.some.inj hprime).symm

theorem create_some {capacity : ℕ} {hashFunc : σ → K → ℕ} {keysEqualFunc : σ → K → K → ℤ} {h : Heap}
    {m : HashMap σ K V} (hm : (create capacity hashFunc keysEqualFunc h).1 = some m) :
    ∃ n, 0 < n ∧ m = fresh capacity n hashFunc keysEqualFunc := by
  have hc : capacity ≠ 0 := by
    rintro rfl
    simp [create] at hm
  cases hn : findPrimeLargerThan capacity with
  | none =>
    simp only [create, if_neg hc, hn] at hm
    split_ifs at hm
  | some n =>
    rw [create_eq hc hn] at hm
    split_ifs at hm
    exact ⟨n, findPrimeLoop_pos _ _ hn, (Option.some.inj hm).symm⟩

end HashMap

/-- A table from `HashMap_Create` and the calls on it, each with the memory that it finds.
All allocations succeed, and the memory of the stored keys does not change. -/
structure MapRun {σ K C : Type} (keys : Keys σ K C) (V : Type) where
  capacity : ℕ
  creation : Heap
  table : HashMap σ K V
  created : (create capacity keys.hashFunc keys.keysEqualFunc creation).1 = some table
  calls : List (σ × MapCall K V)
  allocates : ∀ c ∈ calls, c.2.Allocates
  placed : ∀ pre, pre <+: calls → (after (fun m c => (m.call c.1 c.2).2) table pre).Placed
  unchanged : ∀ pre c c', Occurs calls (pre ++ [c]) c' →
    ∀ e ∈ (after (fun m c => (m.call c.1 c.2).2) table (pre ++ [c])).entries,
      keys.read c'.1 e.key = keys.read c.1 e.key

namespace MapRun
variable {σ K C V : Type} {keys : Keys σ K C}

def concrete (r : MapRun keys V) (pre : List (σ × MapCall K V)) : HashMap σ K V :=
  after (fun m c => (m.call c.1 c.2).2) r.table pre

def abstract (_ : MapRun keys V) (pre : List (σ × MapCall K V)) : FiniteMap keys V :=
  after (fun f c => (f.call c.1 c.2).2) ∅ pre

variable {r : MapRun keys V} {pre : List (σ × MapCall K V)} {c : σ × MapCall K V}

theorem concrete_snoc : r.concrete (pre ++ [c]) = ((r.concrete pre).call c.1 c.2).2 :=
  after_snoc _ _ _ _

theorem abstract_snoc : r.abstract (pre ++ [c]) = ((r.abstract pre).call c.1 c.2).2 :=
  after_snoc _ _ _ _

theorem call (h : Occurs r.calls pre c)
    (hrep : Represents keys c.1 (r.concrete pre) (r.abstract pre)) :
    ((r.concrete pre).call c.1 c.2).1 = ((r.abstract pre).call c.1 c.2).1 ∧
      Represents keys c.1 (r.concrete (pre ++ [c])) (r.abstract (pre ++ [c])) := by
  have hnext : ((r.concrete pre).call c.1 c.2).2.Placed := concrete_snoc ▸ r.placed _ h
  rw [concrete_snoc, abstract_snoc]
  exact hrep.call (r.placed pre h.history) (r.allocates c (h.subset (by simp))) hnext

theorem represents (h : Occurs r.calls pre c) :
    Represents keys c.1 (r.concrete pre) (r.abstract pre) := by
  induction pre using List.reverseRecOn generalizing c with
  | nil =>
    obtain ⟨n, hn, htable⟩ := create_some r.created
    rw [concrete, after_nil, htable]
    exact Represents.fresh hn
  | append_singleton pre c₀ ih =>
    have h₀ : Occurs r.calls pre c₀ := h.history
    exact (call h₀ (ih h₀)).2.reread (r.unchanged pre c₀ c h)

/-- Every call of the run is answered as the finite map answers it. -/
def Refines (r : MapRun keys V) : Prop :=
  ∀ pre c, Occurs r.calls pre c →
    ((r.concrete pre).call c.1 c.2).1 = ((r.abstract pre).call c.1 c.2).1

theorem refines (r : MapRun keys V) : r.Refines :=
  fun _ _ h => (call h (represents h)).1

end MapRun

/-- Numbers as keys, all with the same hash. -/
def collidingKeys : Keys Unit ℕ ℕ where
  read _ k := k
  hash _ := 7
  equal a b := if a = b then 1 else 0
  equivalence := by constructor <;> simp +contextual [eq_comm]
  hash_eq _ _ _ := rfl

def collidingRun : MapRun collidingKeys ℕ where
  capacity := 1
  creation := Heap.succeeding id
  table := fresh 1 1 collidingKeys.hashFunc collidingKeys.keysEqualFunc
  created := rfl
  calls := [((), .insert 5 50 0 (Heap.succeeding id)),
    ((), .insert 6 60 0 (Heap.succeeding (· + 10))),
    ((), .insert 5 70 0 (Heap.succeeding (· + 20))), ((), .remove 5)]
  allocates := by simp [MapCall.Allocates, Heap.succeeding]
  placed := by
    simp only [← List.mem_inits]
    decide
  unchanged := fun _ _ _ _ _ _ => rfl

example : ((collidingRun.concrete collidingRun.calls).find () (some 6)) = (.success, some 60) := by
  decide

end ChatProject
