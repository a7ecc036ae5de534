import ChatProject.MapRefinement

/-!
# Insertion under allocation failures

The maps here are those that any insertions and removals lead to, whatever the allocations
return and whatever word a new chain's tail sentinel holds. An entry may then lie at the
address that its chain's sentinel holds, and a search ends there.
-/

namespace ChatProject
open Memory

namespace LinkedList
variable {α : Type}

def visible (l : LinkedList α) : List (Ptr × α) := l.nodes.takeWhile fun n => n.1 ≠ l.tailData

theorem findIdx_stop (p : α → Bool) (word : Ptr) (ns : List (Ptr × α)) :
    match (ns.takeWhile fun n => n.1 ≠ word).find? fun n => p n.2 with
    | none => ∀ n, ns[ns.findIdx fun e => e.1 = word || p e.2]? = some n → n.1 = word
    | some n => ns[ns.findIdx fun e => e.1 = word || p e.2]? = some n ∧ n.1 ≠ word := by
  induction ns with
  | nil => simp
  | cons n ns ih =>
    by_cases hw : n.1 = word
    · simp +contextual [hw, List.findIdx_cons]
    · by_cases hp : p n.2
      · simp [hw, hp, List.findIdx_cons]
      · simpa [hw, hp, List.findIdx_cons] using ih

end LinkedList

namespace HashMap
variable {σ K C V : Type} {keys : Keys σ K C}

/-- The maps that insertions and removals lead to, each with the memory that it finds. -/
inductive Reached (keys : Keys σ K C) : HashMap σ K V → Prop
  | create (capacity : ℕ) (h : Heap) {m : HashMap σ K V} :
      (create capacity keys.hashFunc keys.keysEqualFunc h).1 = some m → Reached keys m
  | insert {m : HashMap σ K V} (junk : Ptr) (mem : σ) (key : Option K) (value : V) (h : Heap) :
      Reached keys m → Reached keys (m.insert junk mem key value h).2.1
  | remove {m : HashMap σ K V} (mem : σ) (searchKey : Option K) :
      Reached keys m → Reached keys (m.remove mem searchKey).2.2

def stored (m : HashMap σ K V) (mem : σ) (k : K) : Option (DataItem K V) :=
  match m.chainAt (m.index mem k) with
  | none => none
  | some l => (l.visible.find? fun n => m.isEqual mem k n.2).map Prod.snd

theorem InUse.set {m : HashMap σ K V} (hm : InUse keys m) (b : ℕ) (c : Chain K V) (n : ℕ) :
    InUse keys { m with data := m.data.set b c, numOfItems := n } where
  valid := hm.valid
  pos := hm.pos
  size := by simpa using hm.size
  hashFunc := hm.hashFunc
  keysEqualFunc := hm.keysEqualFunc

theorem InUse.index_lt {m : HashMap σ K V} (hm : InUse keys m) (mem : σ) (k : K) :
    m.index mem k < m.data.length := by
  rw [hm.size]
  exact Nat.mod_lt _ hm.pos

theorem searchChain_some {m : HashMap σ K V} {mem : σ} {k : K} {l : LinkedList (DataItem K V)}
    {n : Ptr × DataItem K V} (h : l.visible.find? (fun n => m.isEqual mem k n.2) = some n) :
    l.itrEquals (m.searchChain mem k l) l.itrEnd = false ∧
      l.itrGet (m.searchChain mem k l) = some n.2 := by
  have hstop := LinkedList.findIdx_stop (m.isEqual mem k) l.tailData l.nodes
  rw [LinkedList.visible] at h
  rw [h] at hstop
  rw [searchChain, l.search_first, LinkedList.itrEquals, LinkedList.itrGet, l.data_itrEnd,
    LinkedList.data_of_getElem? hstop.1, hstop.1]
  exact ⟨by simpa using hstop.2, rfl⟩

theorem searchChain_none {m : HashMap σ K V} {mem : σ} {k : K} {l : LinkedList (DataItem K V)}
    (h : l.visible.find? (fun n => m.isEqual mem k n.2) = none) :
    l.itrEquals (m.searchChain mem k l) l.itrEnd = true := by
  have hstop := LinkedList.findIdx_stop (m.isEqual mem k) l.tailData l.nodes
  rw [LinkedList.visible] at h
  rw [h] at hstop
  rw [searchChain, l.search_first, LinkedList.itrEquals, l.data_itrEnd, LinkedList.data]
  split
  · rename_i n hn
    simpa using hstop n hn
  · simp

theorem find_eq_stored {m : HashMap σ K V} (hm : InUse keys m) (mem : σ) (k : K) :
    m.find mem (some k) =
      match m.stored mem k with
      | none => (.keyNotFoundError, none)
      | some e => (.success, some e.value) := by
  simp only [find, hm.valid, ↓reduceIte, stored]
  cases hc : m.chainAt (m.index mem k) with
  | none => rfl
  | some l =>
    cases hf : l.visible.find? (fun n => m.isEqual mem k n.2) with
    | none => simp [searchChain_none hf, hf]
    | some n => simp [searchChain_some hf, hf]

theorem find_congr {m m' : HashMap σ K V} (hm : InUse keys m) (hm' : InUse keys m')
    (hs : ∀ mem k, m'.stored mem k = m.stored mem k) (mem : σ) (searchKey : Option K) :
    m'.find mem searchKey = m.find mem searchKey := by
  cases searchKey with
  | none => simp [find, hm.valid, hm'.valid]
  | some k => rw [find_eq_stored hm, find_eq_stored hm', hs]

theorem insert_found {m : HashMap σ K V} (hm : InUse keys m) {mem : σ} {k : K}
    {e : DataItem K V} (he : m.stored mem k = some e) (junk : Ptr) (v : V) (h : Heap) :
    m.insert junk mem (some k) v h = (.keyDuplicateError, m, h) := by
  simp only [insert, hm.valid, ↓reduceIte]
  rw [stored] at he
  cases hc : m.chainAt (m.index mem k) with
  | none => simp [hc] at he
  | some l =>
    simp only [hc] at he
    obtain ⟨n, hn, -⟩ := Option.map_eq_some_iff.mp he
    simp [searchChain_some hn]

theorem insert_missing_some {m : HashMap σ K V} (hm : InUse keys m) {mem : σ} {k : K}
    (hk : m.stored mem k = none) {l : LinkedList (DataItem K V)}
    (hc : m.chainAt (m.index mem k) = some l) (junk : Ptr) (v : V) (h : Heap) :
    m.insert junk mem (some k) v h = m.pushItem (m.index mem k) (some l) ⟨v, k⟩ h := by
  rw [stored, hc] at hk
  simp [insert, hm.valid, hc, searchChain_none (Option.map_eq_none_iff.mp hk)]

theorem insert_missing_none {m : HashMap σ K V} (hm : InUse keys m) {mem : σ} {k : K}
    (hc : m.chainAt (m.index mem k) = none) (junk : Ptr) (v : V) (h : Heap) :
    m.insert junk mem (some k) v h =
      m.pushItem (m.index mem k) (if h 0 = 0 then none else some ⟨[], junk⟩) ⟨v, k⟩ h.rest := by
  simp only [insert, hm.valid, ↓reduceIte, hc, LinkedList.create, Heap.next]
  by_cases h0 : h 0 = 0 <;> simp [h0]

theorem pushItem_shape (m : HashMap σ K V) (b : ℕ) (chain : Chain K V) (item : DataItem K V)
    (h : Heap) :
    ∃ c n, (m.pushItem b chain item h).2.1 =
        { m with data := m.data.set b c, numOfItems := n } ∧
      ∀ l', c = some l' → ∃ l, chain = some l ∧
        ∀ e ∈ l'.nodes.map Prod.snd, e = item ∨ e ∈ l.nodes.map Prod.snd := by
  cases chain with
  | none =>
    rw [pushItem_none]
    split_ifs
    · exact ⟨none, m.numOfItems, rfl, by simp⟩
    · exact ⟨none, _, rfl, by simp⟩
  | some l =>
    have hsame : ∀ l', some l = some l' → ∃ l₀, some l = some l₀ ∧
        ∀ e ∈ l'.nodes.map Prod.snd, e = item ∨ e ∈ l₀.nodes.map Prod.snd := by
      intro l' hl'
      exact ⟨l', hl', fun e he => .inr he⟩
    rw [pushItem_some]
    split_ifs
    · exact ⟨some l, m.numOfItems, rfl, hsame⟩
    · exact ⟨some l, m.numOfItems, rfl, hsame⟩
    · refine ⟨some _, _, rfl, fun l' hl' => ⟨l, rfl, fun e he => ?_⟩⟩
      rw [← Option.some.inj hl'] at he
      exact List.mem_cons.mp he

theorem InUse.pushItem {m : HashMap σ K V} (hm : InUse keys m) (b : ℕ) (chain : Chain K V)
    (item : DataItem K V) (h : Heap) : InUse keys (m.pushItem b chain item h).2.1 := by
  obtain ⟨c, n, heq, -⟩ := m.pushItem_shape b chain item h
  rw [heq]
  exact hm.set b c n

theorem InUse.insert {m : HashMap σ K V} (hm : InUse keys m) (junk : Ptr) (mem : σ)
    (key : Option K) (v : V) (h : Heap) : InUse keys (m.insert junk mem key v h).2.1 := by
  cases key with
  | none => simpa [HashMap.insert, hm.valid] using hm
  | some k =>
    cases hk : m.stored mem k with
    | some e =>
      rw [insert_found hm hk]
      exact hm
    | none =>
      cases hc : m.chainAt (m.index mem k) with
      | none =>
        rw [insert_missing_none hm hc]
        exact hm.pushItem _ _ _ _
      | some l =>
        rw [insert_missing_some hm hk hc]
        exact hm.pushItem _ _ _ _

theorem InUse.remove {m : HashMap σ K V} (hm : InUse keys m) (mem : σ) (searchKey : Option K) :
    InUse keys (m.remove mem searchKey).2.2 := by
  simp only [HashMap.remove, hm.valid, ↓reduceIte]
  cases searchKey with
  | none => exact hm
  | some k =>
    cases hc : m.chainAt (m.index mem k) with
    | none => simpa [hc] using hm
    | some l =>
      simp only [hc]
      split_ifs
      · exact hm
      · exact hm.set _ _ _

theorem Reached.inUse {m : HashMap σ K V} (h : Reached keys m) : InUse keys m := by
  induction h with
  | create capacity h hm =>
    obtain ⟨n, hn, rfl⟩ := create_some hm
    exact inUse_fresh hn
  | insert junk mem key value h _ ih => exact ih.insert junk mem key value h
  | remove mem searchKey _ ih => exact ih.remove mem searchKey

/-- After the insertion the pair is found and counted, or the map answers as before. -/
structure InsertAtomic (m : HashMap σ K V) (junk : Ptr) (mem : σ) (k : K) (v : V) (h : Heap) :
    Prop where
  success : (m.insert junk mem (some k) v h).1 = .success →
    (m.insert junk mem (some k) v h).2.1.find mem (some k) = (.success, some v) ∧
      (m.insert junk mem (some k) v h).2.1.size = m.size + 1
  failure : (m.insert junk mem (some k) v h).1 ≠ .success →
    (∀ mem' searchKey, (m.insert junk mem (some k) v h).2.1.find mem' searchKey =
      m.find mem' searchKey) ∧ (m.insert junk mem (some k) v h).2.1.size = m.size

/-- Every allocation for the bucket `b` succeeds, and the entry is not put at the address that
the tail sentinel of its chain happens to hold. -/
def StoresEntry (m : HashMap σ K V) (junk : Ptr) (b : ℕ) (h : Heap) : Prop :=
  m.insertStores b h = true ∧
    match m.chainAt b with
    | none => h 1 ≠ junk
    | some l => h 0 ≠ l.tailData

theorem stored_set {m : HashMap σ K V} {mem : σ} {k : K} {b : ℕ} (hb : b < m.data.length)
    (c : Chain K V) (n : ℕ) :
    stored { m with data := m.data.set b c, numOfItems := n } mem k =
      if m.index mem k = b then
        (c.bind fun l => (l.visible.find? fun n => m.isEqual mem k n.2).map Prod.snd)
      else m.stored mem k := by
  have hindex : index { m with data := m.data.set b c, numOfItems := n } mem k =
    m.index mem k := rfl
  rw [stored, hindex, chainAt_set m b hb]
  by_cases hbb : m.index mem k = b
  · rw [if_pos hbb, if_pos hbb]
    cases c <;> rfl
  · rw [if_neg hbb, if_neg hbb]
    rfl

theorem stored_same {m : HashMap σ K V} {b : ℕ} (hb : b < m.data.length) {c : Chain K V}
    (hc : c = m.chainAt b ∨ m.chainAt b = none ∧ ∀ l ∈ c, l.nodes = []) (n : ℕ) (mem : σ)
    (k : K) : stored { m with data := m.data.set b c, numOfItems := n } mem k =
      m.stored mem k := by
  rw [stored_set hb]
  by_cases hbb : m.index mem k = b
  · rw [if_pos hbb, stored, hbb]
    rcases hc with rfl | ⟨hnone, hempty⟩
    · cases m.chainAt b <;> rfl
    · rw [hnone]
      cases c with
      | none => rfl
      | some l => simp [LinkedList.visible, hempty l rfl]
  · rw [if_neg hbb]

theorem insertAtomic_of_refused {m : HashMap σ K V} (hm : InUse keys m) {junk : Ptr} {mem : σ}
    {k : K} {v : V} {h h' : Heap} {c : Chain K V} {b : ℕ} (hb : b < m.data.length)
    (hc : c = m.chainAt b ∨ m.chainAt b = none ∧ ∀ l ∈ c, l.nodes = [])
    (heq : m.insert junk mem (some k) v h =
      (.allocationError, { m with data := m.data.set b c }, h')) :
    m.InsertAtomic junk mem k v h where
  success := by simp [heq]
  failure := by
    intro _
    have hin := hm.set b c m.numOfItems
    rw [heq]
    exact ⟨find_congr hm hin fun mem' k' => stored_same hb hc m.numOfItems mem' k', rfl⟩

/-- An insertion that reports success is right exactly when a search then finds the new entry
and the count has not wrapped. -/
theorem insertAtomic_of_success {m : HashMap σ K V} (hm : InUse keys m) {junk : Ptr} {mem : σ}
    {k : K} {v : V} {h h' : Heap} {c : Chain K V} {b : ℕ}
    (heq : m.insert junk mem (some k) v h =
      (.success, { m with data := m.data.set b c, numOfItems := sizeT (m.numOfItems + 1) }, h')) :
    m.InsertAtomic junk mem k v h ↔
      HashMap.find { m with data := m.data.set b c, numOfItems := sizeT (m.numOfItems + 1) } mem
          (some k) = (.success, some v) ∧ sizeT (m.numOfItems + 1) = m.numOfItems + 1 := by
  have hin := hm.set b c (sizeT (m.numOfItems + 1))
  have hsize : size { m with data := m.data.set b c, numOfItems := sizeT (m.numOfItems + 1) } =
      sizeT (m.numOfItems + 1) := if_pos hin.valid
  have hbefore : m.size = m.numOfItems := if_pos hm.valid
  constructor
  · intro hatomic
    have hsuccess := hatomic.success (by rw [heq])
    rwa [heq, hsize, hbefore] at hsuccess
  · intro hfound
    refine ⟨fun _ => ?_, fun hne => absurd (by rw [heq]) hne⟩
    rwa [heq, hsize, hbefore]

theorem sizeT_eq_iff (n : ℕ) : sizeT n = n ↔ n < 2 ^ 64 := by
  rw [sizeT, Nat.mod_eq_iff_lt (by decide)]

/-- The key equals itself, so its entry is found unless it lies at the sentinel's word. -/
theorem find_pushed_iff {m : HashMap σ K V} (hm : InUse keys m) (mem : σ) (k : K) (v : V)
    (p : Ptr) (l : LinkedList (DataItem K V)) (n : ℕ) :
    HashMap.find { m with
        data := m.data.set (m.index mem k) (some ⟨(p, ⟨v, k⟩) :: l.nodes, l.tailData⟩)
        numOfItems := n } mem (some k) = (.success, some v) ↔ p ≠ l.tailData := by
  have hself : m.isEqual mem k ⟨v, k⟩ = true := (isEqual_iff hm).mpr rfl
  rw [find_eq_stored (hm.set _ _ _), stored_set (hm.index_lt mem k), if_pos rfl]
  by_cases hp : p = l.tailData
  · simp [LinkedList.visible, hp]
  · simp [LinkedList.visible, hp, hself]

theorem find_unpushed {m : HashMap σ K V} (hm : InUse keys m) (mem : σ) (k : K) (n : ℕ) :
    HashMap.find { m with data := m.data.set (m.index mem k) none, numOfItems := n } mem (some k) =
      (.keyNotFoundError, none) := by
  rw [find_eq_stored (hm.set _ _ _), stored_set (hm.index_lt mem k), if_pos rfl]
  rfl

/-- An insertion is atomic exactly when the key is found, an allocation failure is reported, or
the entry is stored: it is not when the chain alone cannot be allocated, as the refusal of a
`NULL` list is then taken for success. -/
theorem insertAtomic_iff {m : HashMap σ K V} (hm : Reached keys m) (junk : Ptr) (mem : σ) (k : K)
    (v : V) (h : Heap) :
    m.InsertAtomic junk mem k v h ↔
      m.stored mem k ≠ none ∨ m.insertReports (m.index mem k) h = false ∨
        m.StoresEntry junk (m.index mem k) h ∧ m.numOfItems + 1 < 2 ^ 64 := by
  have hin := hm.inUse
  have hb := hin.index_lt mem k
  cases hk : m.stored mem k with
  | some e =>
    have heq := insert_found hin hk junk v h
    simp only [ne_eq, reduceCtorEq, not_false_eq_true, true_or, iff_true]
    exact ⟨by simp [heq], fun _ => by simp [heq]⟩
  | none =>
    simp only [ne_eq, not_true_eq_false, false_or]
    cases hc : m.chainAt (m.index mem k) with
    | some l =>
      have heq := insert_missing_some hin hk hc junk v h
      rw [pushItem_some] at heq
      simp only [insertReports, StoresEntry, insertStores, hc]
      by_cases h0 : h 0 = 0
      · rw [if_pos h0] at heq
        simpa [h0] using insertAtomic_of_refused hin hb (.inl hc.symm) heq
      · by_cases h1 : h 1 = 0
        · rw [if_neg h0, if_pos h1] at heq
          simpa [h0, h1] using insertAtomic_of_refused hin hb (.inl hc.symm) heq
        · rw [if_neg h0, if_neg h1] at heq
          rw [insertAtomic_of_success hin heq, find_pushed_iff hin, sizeT_eq_iff]
          simp [h0, h1]
    | none =>
      have heq := insert_missing_none hin hc junk v h
      simp only [insertReports, StoresEntry, insertStores, hc]
      by_cases h0 : h 0 = 0
      · rw [if_pos h0, pushItem_none] at heq
        by_cases h1 : h 1 = 0
        · rw [if_pos (show h.rest 0 = 0 from h1)] at heq
          simpa [h0, h1] using insertAtomic_of_refused hin hb (.inl hc.symm) heq
        · rw [if_neg (show h.rest 0 ≠ 0 from h1)] at heq
          rw [insertAtomic_of_success hin heq, find_unpushed hin]
          simp [h0, h1]
      · rw [if_neg h0, pushItem_some] at heq
        have hempty : ∀ l ∈ some (⟨[], junk⟩ : LinkedList (DataItem K V)), l.nodes = [] := by simp
        by_cases h1 : h 1 = 0
        · rw [if_pos (show h.rest 0 = 0 from h1)] at heq
          simpa [h0, h1] using insertAtomic_of_refused hin hb (.inr ⟨hc, hempty⟩) heq
        · by_cases h2 : h 2 = 0
          · rw [if_neg (show h.rest 0 ≠ 0 from h1), if_pos (show h.rest 1 = 0 from h2)] at heq
            simpa [h0, h1, h2] using insertAtomic_of_refused hin hb (.inr ⟨hc, hempty⟩) heq
          · rw [if_neg (show h.rest 0 ≠ 0 from h1), if_neg (show h.rest 1 ≠ 0 from h2)] at heq
            rw [insertAtomic_of_success hin heq, find_pushed_iff hin _ _ _ _ ⟨[], junk⟩,
              sizeT_eq_iff]
            simp [h0, h1, h2, Heap.rest]

def collidingTable : HashMap Unit ℕ ℕ :=
  fresh 1 1 collidingKeys.hashFunc collidingKeys.keysEqualFunc

theorem reached_collidingTable : Reached collidingKeys collidingTable :=
  .create 1 (Heap.succeeding id) rfl

/-- The chain of the first insertion cannot be allocated, and the entry can. -/
theorem not_insertAtomic_collidingTable :
    Reached collidingKeys collidingTable ∧ ¬ collidingTable.InsertAtomic 0 () 5 50 id := by
  refine ⟨reached_collidingTable, fun h => ?_⟩
  have hfound := (h.success (by decide)).1
  revert hfound
  decide

theorem insertAtomic_collidingTable :
    collidingTable.InsertAtomic 0 () 5 50 (Heap.succeeding id) :=
  (insertAtomic_iff reached_collidingTable 0 () 5 50 (Heap.succeeding id)).mpr
    (.inr (.inr ⟨⟨by decide, Nat.succ_ne_zero 1⟩, by decide⟩))

end HashMap
end ChatProject
