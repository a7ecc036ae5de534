import ChatProject.HashMap
import Mathlib.Data.List.InsertIdx

/-!
# What the map operations do to the buckets

Each operation is described by its effect on `bucket`, for a sound map, any
memory and any key. Insertion is described for every pattern of allocation
failures.
-/

namespace ChatProject.HashMap
open Memory
variable {σ K V : Type} {J : Ptr → Prop}

def fresh (capacity n : ℕ) (hashFunc : σ → K → ℕ) (keysEqualFunc : σ → K → K → ℤ) :
    HashMap σ K V :=
  ⟨List.replicate n none, capacity, n, 0, magicNumber, hashFunc, keysEqualFunc⟩

theorem create_eq {capacity n : ℕ} (hc : capacity ≠ 0) (hn : findPrimeLargerThan capacity = some n)
    (hashFunc : σ → K → ℕ) (keysEqualFunc : σ → K → K → ℤ) (h : Heap) :
    (create capacity hashFunc keysEqualFunc h : Option (HashMap σ K V) × Heap).1 =
      if h 0 = 0 ∨ h 1 = 0 then none else some (fresh capacity n hashFunc keysEqualFunc) := by
  by_cases h0 : h 0 = 0
  · simp [create, hc, Heap.next, h0]
  · by_cases h1 : h 1 = 0 <;> simp [create, hc, Heap.next, Heap.rest, h0, h1, hn, fresh]

theorem chainAt_fresh (capacity n : ℕ) (hashFunc : σ → K → ℕ) (keysEqualFunc : σ → K → K → ℤ)
    (b : ℕ) : (fresh capacity n hashFunc keysEqualFunc : HashMap σ K V).chainAt b = none := by
  rw [chainAt, fresh, List.getD_eq_getElem?_getD, List.getElem?_replicate]
  split_ifs <;> rfl

theorem fresh_sound (capacity : ℕ) {n : ℕ} (hn : 0 < n) (hashFunc : σ → K → ℕ)
    (keysEqualFunc : σ → K → K → ℤ) :
    (fresh capacity n hashFunc keysEqualFunc : HashMap σ K V).Sound J where
  valid := by simp [isValid, fresh]
  pos := hn
  size := by simp [fresh]
  tail := fun b l hl => by simp [chainAt_fresh] at hl
  item := fun b l hl => by simp [chainAt_fresh] at hl

theorem bucket_fresh (capacity n : ℕ) (hashFunc : σ → K → ℕ) (keysEqualFunc : σ → K → K → ℤ)
    (b : ℕ) : (fresh capacity n hashFunc keysEqualFunc : HashMap σ K V).bucket b = [] :=
  bucket_of_chainAt_none (chainAt_fresh capacity n hashFunc keysEqualFunc b)

structure SameTable (m m' : HashMap σ K V) : Prop where
  allocSize : m'.allocSize = m.allocSize
  hashFunc : m'.hashFunc = m.hashFunc
  keysEqualFunc : m'.keysEqualFunc = m.keysEqualFunc

def lookup (m : HashMap σ K V) (mem : σ) (k : K) : Option (DataItem K V) :=
  (m.bucket (m.index mem k)).find? (m.isEqual mem k)

theorem find_of_lookup_none {m : HashMap σ K V} (hm : m.Sound J) {mem : σ} {k : K}
    (h : m.lookup mem k = none) : m.find mem (some k) = (.keyNotFoundError, none) := by
  rw [lookup] at h
  rw [find_some hm, h]

theorem find_of_lookup_some {m : HashMap σ K V} (hm : m.Sound J) {mem : σ} {k : K}
    {e : DataItem K V} (h : m.lookup mem k = some e) :
    m.find mem (some k) = (.success, some e.value) := by
  rw [lookup] at h
  rw [find_some hm, h]

theorem lookup_congr {m : HashMap σ K V} {mem mem' : σ} {k k' : K}
    (hi : m.index mem k = m.index mem' k')
    (he : ∀ e ∈ m.bucket (m.index mem k), m.isEqual mem k e = m.isEqual mem' k' e) :
    m.lookup mem k = m.lookup mem' k' := by
  rw [lookup, lookup, ← hi]
  generalize m.bucket (m.index mem k) = es at he
  induction es with
  | nil => rfl
  | cons e es ih =>
    simp only [List.find?_cons, he e (by simp), ih (fun e' h' => he e' (by simp [h']))]

/-- Whether an insertion of an absent key reports success: the entry and, where there
is a chain, its node are allocated. A chain that could not be created refuses the node
before allocating it, and the map does not look at that refusal. -/
def insertReports (m : HashMap σ K V) (b : ℕ) (h : Heap) : Bool :=
  match m.chainAt b with
  | none => if h 0 = 0 then h 1 ≠ 0 else h 1 ≠ 0 && h 2 ≠ 0
  | some _ => h 0 ≠ 0 && h 1 ≠ 0

/-- Whether such an insertion stores its entry: every allocation succeeds. -/
def insertStores (m : HashMap σ K V) (b : ℕ) (h : Heap) : Bool :=
  match m.chainAt b with
  | none => h 0 ≠ 0 && h 1 ≠ 0 && h 2 ≠ 0
  | some _ => h 0 ≠ 0 && h 1 ≠ 0

theorem pushItem_none (m : HashMap σ K V) (b : ℕ) (item : DataItem K V) (h : Heap) :
    m.pushItem b none item h =
      if h 0 = 0 then (.allocationError, { m with data := m.data.set b none }, h.rest)
      else (.success,
        { m with data := m.data.set b none, numOfItems := sizeT (m.numOfItems + 1) }, h.rest) := by
  rfl

theorem pushItem_some (m : HashMap σ K V) (b : ℕ) (l : LinkedList (DataItem K V))
    (item : DataItem K V) (h : Heap) :
    m.pushItem b (some l) item h =
      if h 0 = 0 then (.allocationError, { m with data := m.data.set b (some l) }, h.rest)
      else if h 1 = 0 then
        (.allocationError, { m with data := m.data.set b (some l) }, h.rest.rest)
      else (.success,
        { m with
          data := m.data.set b (some ⟨(h 0, item) :: l.nodes, l.tailData⟩)
          numOfItems := sizeT (m.numOfItems + 1) }, h.rest.rest) := by
  by_cases h0 : h 0 = 0
  · simp [pushItem, Heap.next, h0]
  · by_cases h1 : h 1 = 0
    · simp [pushItem, Heap.next, Heap.rest, LinkedList.pushHead, h0, h1]
    · simp [pushItem, Heap.next, Heap.rest, LinkedList.pushHead, h0, h1]

structure Inserted (J : Ptr → Prop) (m m' : HashMap σ K V) (b : ℕ)
    (items : List (DataItem K V)) : Prop where
  sound : m'.Sound J
  same : SameTable m m'
  bucket : ∀ b', m'.bucket b' = if b' = b then items ++ m.bucket b' else m.bucket b'

theorem inserted_of_set {m : HashMap σ K V} (hm : m.Sound J) {b : ℕ} (hb : b < m.data.length)
    {l : LinkedList (DataItem K V)} (ht : J l.tailData) (hi : ∀ n ∈ l.nodes, ¬ J n.1)
    {items : List (DataItem K V)} (hl : l.nodes.map Prod.snd = items ++ m.bucket b) (n : ℕ) :
    Inserted J m { m with data := m.data.set b (some l), numOfItems := n } b items where
  sound := hm.set hb (fun l' h => by cases h; exact ht) (fun l' h => by cases h; exact hi) n
  same := ⟨rfl, rfl, rfl⟩
  bucket := by
    intro b'
    rw [bucket_set m b hb]
    split_ifs with hbb
    · rw [hbb, hl]
    · rfl

theorem pushItem_inserted {m : HashMap σ K V} (hm : m.Sound J) {b : ℕ} (hb : b < m.data.length)
    {l : LinkedList (DataItem K V)} (ht : J l.tailData) (hi : ∀ n ∈ l.nodes, ¬ J n.1)
    (hl : l.nodes.map Prod.snd = m.bucket b) (item : DataItem K V) {h : Heap}
    (hh : ∀ n, h n ≠ 0 → ¬ J (h n)) :
    Inserted J m (m.pushItem b (some l) item h).2.1 b
      (if h 0 ≠ 0 ∧ h 1 ≠ 0 then [item] else []) := by
  rw [pushItem_some]
  by_cases h0 : h 0 = 0
  · simpa [h0] using inserted_of_set hm hb ht hi (by simpa using hl) _
  · by_cases h1 : h 1 = 0
    · simpa [h0, h1] using inserted_of_set hm hb ht hi (by simpa using hl) _
    · have hpush : ∀ n ∈ (h 0, item) :: l.nodes, ¬ J n.1 := by
        intro n hn
        rcases List.mem_cons.mp hn with rfl | hn
        · exact hh 0 h0
        · exact hi n hn
      have hnodes : ((h 0, item) :: l.nodes).map Prod.snd = [item] ++ m.bucket b := by
        simpa using hl
      simpa [h0, h1] using inserted_of_set (l := ⟨(h 0, item) :: l.nodes, l.tailData⟩) hm hb ht
        hpush hnodes _

theorem inserted_nil_of_none {m : HashMap σ K V} (hm : m.Sound J) {b : ℕ}
    (hb : b < m.data.length) (hc : m.chainAt b = none) (n : ℕ) :
    Inserted J m { m with data := m.data.set b none, numOfItems := n } b [] where
  sound := hm.set hb (fun l h => by cases h) (fun l h => by cases h) n
  same := ⟨rfl, rfl, rfl⟩
  bucket := by
    intro b'
    have hb' : bucket { m with data := m.data.set b none, numOfItems := n } b' = m.bucket b' := by
      simp only [bucket, chainAt_set m b hb]
      split_ifs with hbb
      · simp [hbb, hc]
      · rfl
    simp [hb']

theorem insert_present {m : HashMap σ K V} (hm : m.Sound J) {mem : σ} {k : K}
    {e : DataItem K V} (he : m.lookup mem k = some e) (junk : Ptr) (v : V) (h : Heap) :
    m.insert junk mem (some k) v h = (.keyDuplicateError, m, h) := by
  simp only [insert, hm.valid, ↓reduceIte]
  cases hc : m.chainAt (m.index mem k) with
  | none => simp [lookup, bucket_of_chainAt_none hc] at he
  | some l =>
    have hne : l.itrEquals (m.searchChain mem k l) l.itrEnd = false := by
      rw [itrEquals_searchChain mem k (hm.clean hc), ← bucket_of_chainAt hc]
      simp only [lookup] at he
      simp [he]
    simp [hne]

theorem insert_absent_some {m : HashMap σ K V} (hm : m.Sound J) {mem : σ} {k : K}
    (hk : m.lookup mem k = none) {l : LinkedList (DataItem K V)}
    (hc : m.chainAt (m.index mem k) = some l) (junk : Ptr) (v : V) (h : Heap) :
    m.insert junk mem (some k) v h = m.pushItem (m.index mem k) (some l) ⟨v, k⟩ h := by
  have heq : l.itrEquals (m.searchChain mem k l) l.itrEnd = true := by
    rw [itrEquals_searchChain mem k (hm.clean hc), ← bucket_of_chainAt hc]
    simp only [lookup] at hk
    simp [hk]
  simp [insert, hm.valid, hc, heq]

theorem insert_absent_none {m : HashMap σ K V} (hm : m.Sound J) {mem : σ} {k : K}
    (hc : m.chainAt (m.index mem k) = none) (junk : Ptr) (v : V) (h : Heap) :
    m.insert junk mem (some k) v h =
      m.pushItem (m.index mem k) (if h 0 = 0 then none else some ⟨[], junk⟩) ⟨v, k⟩ h.rest := by
  simp only [insert, hm.valid, ↓reduceIte, hc, LinkedList.create, Heap.next]
  by_cases h0 : h 0 = 0 <;> simp [h0]

theorem insert_absent {m : HashMap σ K V} (hm : m.Sound J) {mem : σ} {k : K}
    (hk : m.lookup mem k = none) {junk : Ptr} (hj : J junk) (v : V) {h : Heap}
    (hh : ∀ n, h n ≠ 0 → ¬ J (h n)) :
    (m.insert junk mem (some k) v h).1 =
        (if m.insertReports (m.index mem k) h then .success else .allocationError) ∧
      Inserted J m (m.insert junk mem (some k) v h).2.1 (m.index mem k)
        (if m.insertStores (m.index mem k) h then [⟨v, k⟩] else []) := by
  have hb := index_lt hm mem k
  cases hc : m.chainAt (m.index mem k) with
  | some l =>
    rw [insert_absent_some hm hk hc]
    constructor
    · simp only [insertReports, hc, pushItem_some]
      by_cases h0 : h 0 = 0 <;> by_cases h1 : h 1 = 0 <;> simp [h0, h1]
    · have hp := pushItem_inserted hm hb (hm.tail _ l hc) (hm.item _ l hc)
        (bucket_of_chainAt hc).symm ⟨v, k⟩ hh
      simpa [insertStores, hc] using hp
  | none =>
    rw [insert_absent_none hm hc]
    by_cases h0 : h 0 = 0
    · simp only [h0, ↓reduceIte, pushItem_none]
      constructor
      · by_cases h1 : h 1 = 0 <;> simp [insertReports, hc, h0, h1, Heap.rest]
      · by_cases h1 : h 1 = 0 <;>
          simpa [insertStores, hc, h0, h1, Heap.rest] using inserted_nil_of_none hm hb hc _
    · simp only [h0, ↓reduceIte]
      constructor
      · simp only [insertReports, hc, pushItem_some]
        by_cases h1 : h 1 = 0 <;> by_cases h2 : h 2 = 0 <;> simp [h0, h1, h2, Heap.rest]
      · have hp := pushItem_inserted (l := ⟨[], junk⟩) hm hb hj (by simp)
          (by simp [bucket_of_chainAt_none hc]) ⟨v, k⟩ (h := h.rest) (fun n => hh (n + 1))
        simpa [insertStores, hc, h0, Heap.rest] using hp

theorem insert_absent_succeeding {m : HashMap σ K V} (hm : m.Sound (· = blank)) {mem : σ} {k : K}
    (hk : m.lookup mem k = none) (v : V) (p : ℕ → ℕ) :
    ∃ m' p', m.insert blank mem (some k) v (Heap.succeeding p) =
        (.success, m', Heap.succeeding p') ∧
      Inserted (· = blank) m m' (m.index mem k) [⟨v, k⟩] ∧
      m'.numOfItems = sizeT (m.numOfItems + 1) := by
  have hs := insert_absent hm hk rfl v (h := Heap.succeeding p) (fun n hn => hn)
  cases hc : m.chainAt (m.index mem k) with
  | some l =>
    rw [insert_absent_some hm hk hc, pushItem_some] at hs ⊢
    simp only [Heap.succeeding, Nat.add_one_ne_zero, ↓reduceIte, insertStores, hc] at hs ⊢
    exact ⟨_, _, rfl, by simpa using hs.2, rfl⟩
  | none =>
    rw [insert_absent_none hm hc] at hs ⊢
    simp only [Heap.succeeding, Nat.add_one_ne_zero, ↓reduceIte, insertStores, hc, pushItem_some,
      Heap.rest] at hs ⊢
    exact ⟨_, _, rfl, by simpa using hs.2, rfl⟩

theorem eraseIdx_findIdx {α : Type} (p : α → Bool) (xs : List α) :
    xs.eraseIdx (xs.findIdx p) = xs.eraseP p := by
  induction xs with
  | nil => rfl
  | cons x xs ih =>
    by_cases hp : p x <;> simp [List.findIdx_cons, hp, ih]

theorem remove_absent {m : HashMap σ K V} (hm : m.Sound J) {mem : σ} {k : K}
    (hk : m.lookup mem k = none) : m.remove mem (some k) = (.keyNotFoundError, none, m) := by
  simp only [remove, hm.valid, ↓reduceIte]
  cases hc : m.chainAt (m.index mem k) with
  | none => rfl
  | some l =>
    have heq : l.itrEquals (m.searchChain mem k l) l.itrEnd = true := by
      rw [itrEquals_searchChain mem k (hm.clean hc), ← bucket_of_chainAt hc]
      simp only [lookup] at hk
      simp [hk]
    simp [heq]

theorem remove_present {m : HashMap σ K V} (hm : m.Sound J) {mem : σ} {k : K}
    {e : DataItem K V} (he : m.lookup mem k = some e) :
    ∃ m', m.remove mem (some k) = (.success, some e, m') ∧ m'.Sound J ∧ SameTable m m' ∧
      ∀ b, m'.bucket b =
        if b = m.index mem k then (m.bucket b).eraseP (m.isEqual mem k) else m.bucket b := by
  have hb := index_lt hm mem k
  cases hc : m.chainAt (m.index mem k) with
  | none => simp [lookup, bucket_of_chainAt_none hc] at he
  | some l =>
    have hl := hm.clean hc
    rw [lookup, bucket_of_chainAt hc] at he
    have hne : l.itrEquals (m.searchChain mem k l) l.itrEnd = false := by
      rw [itrEquals_searchChain mem k hl, he]
      rfl
    have hget := itrGet_searchChain (m := m) mem k hl
    rw [he] at hget
    refine ⟨{ m with
      data := m.data.set (m.index mem k) (some (l.itrRemove (m.searchChain mem k l)).2)
      numOfItems := sizePred m.numOfItems }, ?_, ?_, ⟨rfl, rfl, rfl⟩, fun b => ?_⟩
    · simp [remove, hm.valid, hc, hne, LinkedList.itrRemove, hget]
    · refine hm.set hb (fun l' h => ?_) (fun l' h n hn => ?_) _
      · cases h
        exact hm.tail _ l hc
      · cases h
        exact hm.item _ l hc n ((List.eraseIdx_sublist _ _).subset hn)
    · rw [bucket_set m _ hb]
      split_ifs with hbb
      · rw [hbb, bucket_of_chainAt hc, LinkedList.itrRemove, ← List.eraseIdx_map,
          ← eraseIdx_findIdx, searchChain, LinkedList.search_begin hl, List.findIdx_map]
        rfl
      · rfl

theorem map_snd_modify {α : Type} (ns : List (Ptr × α)) (i : ℕ) (f : α → α) :
    (ns.modify i (fun n => (n.1, f n.2))).map Prod.snd = (ns.map Prod.snd).modify i f := by
  apply List.ext_getElem?
  intro j
  simp only [List.getElem?_map, List.getElem?_modify]
  cases ns[j]? with
  | none => rfl
  | some n => by_cases h : i = j <;> simp [h]

theorem modifyFound_spec {m : HashMap σ K V} (hm : m.Sound J) {mem : σ} {k : K}
    {e : DataItem K V} (he : m.lookup mem k = some e) (f : V → V) :
    (m.modifyFound mem k f).Sound J ∧ SameTable m (m.modifyFound mem k f) ∧
      (m.modifyFound mem k f).numOfItems = m.numOfItems ∧
      ∀ b, (m.modifyFound mem k f).bucket b =
        if b = m.index mem k then
          (m.bucket b).modify ((m.bucket b).findIdx (m.isEqual mem k))
            (fun e => { e with value := f e.value })
        else m.bucket b := by
  have hb := index_lt hm mem k
  cases hc : m.chainAt (m.index mem k) with
  | none => simp [lookup, bucket_of_chainAt_none hc] at he
  | some l =>
    have hl := hm.clean hc
    rw [modifyFound, hc]
    refine ⟨hm.set hb (fun l' h => ?_) (fun l' h n hn => ?_) _, ⟨rfl, rfl, rfl⟩, rfl, fun b => ?_⟩
    · cases h
      exact hm.tail _ l hc
    · cases h
      obtain ⟨j, hj⟩ := List.mem_iff_getElem?.mp hn
      rw [LinkedList.write, List.getElem?_modify] at hj
      obtain ⟨n', hn', rfl⟩ := Option.map_eq_some_iff.mp hj
      have hi := hm.item _ l hc n' (List.mem_of_getElem? hn')
      split_ifs <;> exact hi
    · rw [bucket_set m _ hb]
      split_ifs with hbb
      · rw [hbb, bucket_of_chainAt hc, LinkedList.write,
          map_snd_modify l.nodes _ (fun e => { e with value := f e.value }), searchChain,
          LinkedList.search_begin hl, List.findIdx_map]
        rfl
      · rfl

end ChatProject.HashMap
