import ChatProject.LinkedList

/-!
# The chained hash map

The map keeps an array of chains, a chain being absent (`NULL`) until the first
insertion into its bucket. A key is a pointer: the hash and equality functions
read the memory it points into, and receive that memory here. Values are kept in
the entry itself; a write through the value pointer that a lookup returns is
`modifyFound`. Sizes are 64-bit, with the wrap made explicit.
-/

namespace ChatProject
open Memory

def sizeT (n : ℕ) : ℕ := n % 2 ^ 64

def sizePred (n : ℕ) : ℕ := if n = 0 then 2 ^ 64 - 1 else n - 1

inductive MapResult
  | success
  | uninitializedError
  | keyNullError
  | keyDuplicateError
  | keyNotFoundError
  | allocationError
  deriving DecidableEq

structure DataItem (K V : Type) where
  value : V
  key : K
  deriving DecidableEq

abbrev Chain (K V : Type) := Option (LinkedList (DataItem K V))

structure HashMap (σ K V : Type) where
  data : List (Chain K V)
  hashSize : ℕ
  allocSize : ℕ
  numOfItems : ℕ
  magicNum : ℕ
  hashFunc : σ → K → ℕ
  keysEqualFunc : σ → K → K → ℤ

namespace HashMap
variable {σ K V : Type}

def magicNumber : ℕ := 52214221

/-- `HashMapIsValid`; a map and its table are never `NULL` here. -/
def isValid (m : HashMap σ K V) : Bool := m.magicNum = magicNumber

def checkIfPrimeLoop (numToChec : ℕ) : ℕ → ℕ → Option ℕ
  | 0, _ => none
  | n + 1, i =>
    if sizeT (i * i) ≤ numToChec then
      if numToChec % i = 0 then some 0 else checkIfPrimeLoop numToChec n (sizeT (i + 2))
    else some 1

def checkIfPrime (numToChec : ℕ) : Option ℕ :=
  if numToChec = 2 then some 1
  else if numToChec % 2 = 0 then some 0
  else checkIfPrimeLoop numToChec numToChec 3

def findPrimeLoop : ℕ → ℕ → Option ℕ
  | 0, _ => none
  | n + 1, number =>
    match checkIfPrime number with
    | none => none
    | some 0 => findPrimeLoop n (sizeT (number + 1))
    | some _ => some number

/-- `none` stands for a search still running after `number + 1` candidates. -/
def findPrimeLargerThan (number : ℕ) : Option ℕ := findPrimeLoop (number + 1) number

def create (capacity : ℕ) (hashFunc : σ → K → ℕ) (keysEqualFunc : σ → K → K → ℤ) (h : Heap) :
    Option (HashMap σ K V) × Heap :=
  if capacity = 0 then (none, h)
  else if h.next = 0 then (none, h.rest)
  else match findPrimeLargerThan capacity with
    | none => (none, h.rest)
    | some newSize =>
      if h.rest.next = 0 then (none, h.rest.rest)
      else
        (some ⟨List.replicate newSize none, capacity, newSize, 0, magicNumber, hashFunc,
          keysEqualFunc⟩, h.rest.rest)

def index (m : HashMap σ K V) (mem : σ) (k : K) : ℕ := m.hashFunc mem k % m.allocSize

def chainAt (m : HashMap σ K V) (b : ℕ) : Chain K V := m.data.getD b none

def isEqual (m : HashMap σ K V) (mem : σ) (k : K) (e : DataItem K V) : Bool :=
  m.keysEqualFunc mem e.key k = 1

/-- The loop over a chain that `Insert`, `Remove` and `Find` share. -/
def searchChain (m : HashMap σ K V) (mem : σ) (k : K) (l : LinkedList (DataItem K V)) : ℕ :=
  l.search (m.isEqual mem k) l.itrEnd l.itrBegin

/-- The end of `HashMap_Insert`: the entry and its node are allocated and the node
is pushed. A chain that could not be created is still `NULL` here. -/
def pushItem (m : HashMap σ K V) (b : ℕ) (chain : Chain K V) (item : DataItem K V) (h : Heap) :
    MapResult × HashMap σ K V × Heap :=
  if h.next = 0 then (.allocationError, { m with data := m.data.set b chain }, h.rest)
  else
    match LinkedList.pushHead chain h.next item h.rest with
    | (.allocationError, chain', h') =>
      (.allocationError, { m with data := m.data.set b chain' }, h')
    | (_, chain', h') =>
      (.success,
        { m with data := m.data.set b chain', numOfItems := sizeT (m.numOfItems + 1) }, h')

/-- `junk` is what the memory of a new chain's tail sentinel holds. -/
def insert (m : HashMap σ K V) (junk : Ptr) (mem : σ) (key : Option K) (value : V) (h : Heap) :
    MapResult × HashMap σ K V × Heap :=
  if m.isValid then
    match key with
    | none => (.keyNullError, m, h)
    | some k =>
      match m.chainAt (m.index mem k) with
      | none =>
        let (chain, h) := LinkedList.create junk h
        m.pushItem (m.index mem k) chain ⟨value, k⟩ h
      | some l =>
        if l.itrEquals (m.searchChain mem k l) l.itrEnd then
          m.pushItem (m.index mem k) (some l) ⟨value, k⟩ h
        else (.keyDuplicateError, m, h)
  else (.uninitializedError, m, h)

def remove (m : HashMap σ K V) (mem : σ) (searchKey : Option K) :
    MapResult × Option (DataItem K V) × HashMap σ K V :=
  if m.isValid then
    match searchKey with
    | none => (.keyNullError, none, m)
    | some k =>
      match m.chainAt (m.index mem k) with
      | none => (.keyNotFoundError, none, m)
      | some l =>
        let itr := m.searchChain mem k l
        if l.itrEquals itr l.itrEnd then (.keyNotFoundError, none, m)
        else
          (.success, (l.itrRemove itr).1,
            { m with
              data := m.data.set (m.index mem k) (some (l.itrRemove itr).2)
              numOfItems := sizePred m.numOfItems })
  else (.uninitializedError, none, m)

def size (m : HashMap σ K V) : ℕ := if m.isValid then m.numOfItems else 0

def find (m : HashMap σ K V) (mem : σ) (searchKey : Option K) : MapResult × Option V :=
  if m.isValid then
    match searchKey with
    | none => (.keyNullError, none)
    | some k =>
      match m.chainAt (m.index mem k) with
      | none => (.keyNotFoundError, none)
      | some l =>
        let itr := m.searchChain mem k l
        if l.itrEquals itr l.itrEnd then (.keyNotFoundError, none)
        else (.success, (l.itrGet itr).map DataItem.value)
  else (.uninitializedError, none)

def modifyFound (m : HashMap σ K V) (mem : σ) (k : K) (f : V → V) : HashMap σ K V :=
  match m.chainAt (m.index mem k) with
  | none => m
  | some l =>
    { m with
      data := m.data.set (m.index mem k)
        (some (l.write (m.searchChain mem k l) (fun e => { e with value := f e.value }))) }

def bucket (m : HashMap σ K V) (b : ℕ) : List (DataItem K V) :=
  match m.chainAt b with
  | none => []
  | some l => l.nodes.map Prod.snd

def entries (m : HashMap σ K V) : List (DataItem K V) :=
  (List.range m.data.length).flatMap m.bucket

/-- What holds of every map in use: it is valid, its table has the allocated size,
the words in the tail sentinels satisfy `J` and no entry's pointer does. -/
structure Sound (J : Ptr → Prop) (m : HashMap σ K V) : Prop where
  valid : m.isValid = true
  pos : 0 < m.allocSize
  size : m.data.length = m.allocSize
  tail : ∀ b l, m.chainAt b = some l → J l.tailData
  item : ∀ b l, m.chainAt b = some l → ∀ n ∈ l.nodes, ¬ J n.1

variable {J : Ptr → Prop}

theorem Sound.clean {m : HashMap σ K V} (hm : m.Sound J) {b : ℕ}
    {l : LinkedList (DataItem K V)} (hl : m.chainAt b = some l) : l.Clean :=
  fun n hn he => hm.item b l hl n hn (he ▸ hm.tail b l hl)

theorem index_lt {m : HashMap σ K V} (hm : m.Sound J) (mem : σ) (k : K) :
    m.index mem k < m.data.length := by
  rw [hm.size]
  exact Nat.mod_lt _ hm.pos

theorem chainAt_set (m : HashMap σ K V) (b : ℕ) (hb : b < m.data.length) (c : Chain K V)
    (n b' : ℕ) :
    chainAt { m with data := m.data.set b c, numOfItems := n } b' =
      if b' = b then c else m.chainAt b' := by
  by_cases h : b' = b
  · subst h
    simp [chainAt, hb]
  · simp [chainAt, List.getElem?_set_ne (Ne.symm h), h]

theorem bucket_set (m : HashMap σ K V) (b : ℕ) (hb : b < m.data.length)
    (l : LinkedList (DataItem K V)) (n b' : ℕ) :
    bucket { m with data := m.data.set b (some l), numOfItems := n } b' =
      if b' = b then l.nodes.map Prod.snd else m.bucket b' := by
  simp only [bucket, chainAt_set m b hb]
  split_ifs <;> rfl

theorem Sound.set {m : HashMap σ K V} (hm : m.Sound J) {b : ℕ} (hb : b < m.data.length)
    {c : Chain K V} (ht : ∀ l, c = some l → J l.tailData)
    (hi : ∀ l, c = some l → ∀ n ∈ l.nodes, ¬ J n.1) (n : ℕ) :
    Sound J { m with data := m.data.set b c, numOfItems := n } where
  valid := hm.valid
  pos := hm.pos
  size := by simpa using hm.size
  tail := by
    intro b' l hl
    rw [chainAt_set m b hb] at hl
    split_ifs at hl
    · exact ht l hl
    · exact hm.tail b' l hl
  item := by
    intro b' l hl
    rw [chainAt_set m b hb] at hl
    split_ifs at hl
    · exact hi l hl
    · exact hm.item b' l hl

theorem bucket_of_chainAt {m : HashMap σ K V} {b : ℕ} {l : LinkedList (DataItem K V)}
    (h : m.chainAt b = some l) : m.bucket b = l.nodes.map Prod.snd := by
  simp [bucket, h]

theorem bucket_of_chainAt_none {m : HashMap σ K V} {b : ℕ} (h : m.chainAt b = none) :
    m.bucket b = [] := by
  simp [bucket, h]

theorem mem_entries (m : HashMap σ K V) (e : DataItem K V) :
    e ∈ m.entries ↔ ∃ b, e ∈ m.bucket b := by
  simp only [entries, List.mem_flatMap, List.mem_range]
  constructor
  · rintro ⟨b, -, he⟩
    exact ⟨b, he⟩
  · rintro ⟨b, he⟩
    by_cases hb : b < m.data.length
    · exact ⟨b, hb, he⟩
    · have hnone : m.chainAt b = none := by simp [chainAt, Nat.le_of_not_lt hb]
      simp [bucket_of_chainAt_none hnone] at he

theorem itrEquals_searchChain {m : HashMap σ K V} (mem : σ) (k : K)
    {l : LinkedList (DataItem K V)} (hl : l.Clean) :
    l.itrEquals (m.searchChain mem k l) l.itrEnd =
      ((l.nodes.map Prod.snd).find? (m.isEqual mem k)).isNone := by
  have hle : l.nodes.findIdx (fun e => m.isEqual mem k e.2) ≤ l.itrEnd := List.findIdx_le_length
  rw [searchChain, LinkedList.search_begin hl, LinkedList.itrEquals_end hl hle, Bool.eq_iff_iff,
    decide_eq_true_iff, LinkedList.itrEnd, List.findIdx_eq_length]
  simp

theorem itrGet_searchChain {m : HashMap σ K V} (mem : σ) (k : K)
    {l : LinkedList (DataItem K V)} (hl : l.Clean) :
    l.itrGet (m.searchChain mem k l) = (l.nodes.map Prod.snd).find? (m.isEqual mem k) := by
  rw [searchChain, LinkedList.search_begin hl, LinkedList.itrGet, List.find?_map,
    List.find?_eq_getElem?_findIdx]
  rfl

theorem find_some {m : HashMap σ K V} (hm : m.Sound J) (mem : σ) (k : K) :
    m.find mem (some k) =
      match (m.bucket (m.index mem k)).find? (m.isEqual mem k) with
      | none => (.keyNotFoundError, none)
      | some e => (.success, some e.value) := by
  simp only [find, hm.valid, ↓reduceIte]
  cases hc : m.chainAt (m.index mem k) with
  | none => simp [bucket_of_chainAt_none hc]
  | some l =>
    have hl := hm.clean hc
    simp only [bucket_of_chainAt hc, itrEquals_searchChain mem k hl, itrGet_searchChain mem k hl]
    cases (l.nodes.map Prod.snd).find? (m.isEqual mem k) <;> rfl

end HashMap
end ChatProject
