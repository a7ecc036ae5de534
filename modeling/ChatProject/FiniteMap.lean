import ChatProject.HashMap
import Mathlib.Data.Finmap

/-!
# Finite maps keyed by what a pointer points at

A map compares keys by their contents, so the abstract key of a pointer is the class of
what it points at under the equality function. A finite map over such classes keeps, for
each class, the value and the key pointer that were inserted.
-/

namespace ChatProject
open Memory

theorem entries_eq_cons_erase {α : Type} {β : α → Type} [DecidableEq α] {f : Finmap β} {a : α}
    {b : β a} (h : f.lookup a = some b) : f.entries = ⟨a, b⟩ ::ₘ (f.erase a).entries := by
  have hinsert : (f.erase a).insert a b = f := by
    refine Finmap.ext_lookup fun a' => ?_
    by_cases ha : a' = a
    · rw [ha, Finmap.lookup_insert, h]
    · rw [Finmap.lookup_insert_of_ne _ ha, Finmap.lookup_erase_ne ha]
  rw [← Finmap.entries_insert_of_notMem Finmap.notMem_erase_self, hinsert]

/-- The contents that key pointers read as, with a hash function and an equality function
on them. Equal keys have equal hashes; on keys that are not equal the function may return
anything but 1. -/
structure Keys (σ K C : Type) where
  read : σ → K → C
  hash : C → ℕ
  equal : C → C → ℤ
  equivalence : Equivalence fun a b => equal a b = 1
  hash_eq : ∀ a b, equal a b = 1 → hash a = hash b

namespace Keys
variable {σ K C : Type} (keys : Keys σ K C)

def hashFunc (mem : σ) (k : K) : ℕ := keys.hash (keys.read mem k)

def keysEqualFunc (mem : σ) (a b : K) : ℤ := keys.equal (keys.read mem a) (keys.read mem b)

def setoid : Setoid C := ⟨fun a b => keys.equal a b = 1, keys.equivalence⟩

abbrev Class : Type := Quotient keys.setoid

def classOf (mem : σ) (k : K) : keys.Class := Quotient.mk keys.setoid (keys.read mem k)

instance : DecidableEq keys.Class :=
  @Quotient.decidableEq C keys.setoid fun a b => inferInstanceAs (Decidable (keys.equal a b = 1))

variable {keys}

theorem classOf_eq_iff {mem mem' : σ} {a b : K} :
    keys.classOf mem a = keys.classOf mem' b ↔
      keys.equal (keys.read mem a) (keys.read mem' b) = 1 :=
  Quotient.eq (r := keys.setoid)

theorem classOf_congr {mem mem' : σ} {k : K} (h : keys.read mem' k = keys.read mem k) :
    keys.classOf mem' k = keys.classOf mem k :=
  congrArg (Quotient.mk keys.setoid) h

theorem hashFunc_eq {mem : σ} {a b : K} (h : keys.classOf mem a = keys.classOf mem b) :
    keys.hashFunc mem a = keys.hashFunc mem b :=
  keys.hash_eq _ _ (classOf_eq_iff.mp h)

end Keys

/-- A call with a key that is not `NULL`. An insertion is given the word that a new chain's
tail sentinel holds and what its allocations return. -/
inductive MapCall (K V : Type)
  | insert (key : K) (value : V) (junk : Ptr) (heap : Heap)
  | remove (searchKey : K)
  | find (searchKey : K)
  | size

def MapCall.Allocates {K V : Type} : MapCall K V → Prop
  | .insert _ _ _ heap => ∀ n, heap n ≠ 0
  | _ => True

inductive MapAnswer (K V : Type)
  | inserted (result : MapResult)
  | removed (result : MapResult) (item : Option (DataItem K V))
  | found (result : MapResult) (value : Option V)
  | size (n : ℕ)

abbrev FiniteMap {σ K C : Type} (keys : Keys σ K C) (V : Type) :=
  Finmap fun _ : keys.Class => DataItem K V

section Call
variable {σ K C V : Type} {keys : Keys σ K C}

def FiniteMap.call (f : FiniteMap keys V) (mem : σ) :
    MapCall K V → MapAnswer K V × FiniteMap keys V
  | .insert key value _ _ =>
    match f.lookup (keys.classOf mem key) with
    | some _ => (.inserted .keyDuplicateError, f)
    | none => (.inserted .success, f.insert (keys.classOf mem key) ⟨value, key⟩)
  | .remove searchKey =>
    match f.lookup (keys.classOf mem searchKey) with
    | some item => (.removed .success (some item), f.erase (keys.classOf mem searchKey))
    | none => (.removed .keyNotFoundError none, f)
  | .find searchKey =>
    match f.lookup (keys.classOf mem searchKey) with
    | some item => (.found .success (some item.value), f)
    | none => (.found .keyNotFoundError none, f)
  | .size => (.size f.keys.card, f)

def HashMap.call (m : HashMap σ K V) (mem : σ) : MapCall K V → MapAnswer K V × HashMap σ K V
  | .insert key value junk heap =>
    let (result, m', _) := m.insert junk mem (some key) value heap
    (.inserted result, m')
  | .remove searchKey =>
    let (result, item, m') := m.remove mem (some searchKey)
    (.removed result item, m')
  | .find searchKey =>
    let (result, value) := m.find mem (some searchKey)
    (.found result value, m)
  | .size => (.size m.size, m)

end Call
end ChatProject
