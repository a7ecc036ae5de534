import ChatProject.Memory

/-!
# The list under the hash map's chains

A list from `List_Create` as its clients see it: the element nodes from head to
tail, each with its data word and the element that word points at, and the data
word of the tail sentinel, which `List_Create` leaves unset. An iterator is a
position, the position after the last node being the tail sentinel. Two
iterators are compared through the data words they stand on, so the end of a
list is recognised by its sentinel's word.
-/

namespace ChatProject
open Memory

inductive ListResult
  | success
  | uninitializedError
  | allocationError
  | nullElementError
  | isEmpty
  deriving DecidableEq

def ListResult.code : ListResult → ℕ
  | .success => 0
  | .uninitializedError => 1
  | .allocationError => 2
  | .nullElementError => 3
  | .isEmpty => 4

structure LinkedList (α : Type) where
  nodes : List (Ptr × α)
  tailData : Ptr
  deriving DecidableEq

namespace LinkedList
variable {α : Type}

def create (junk : Ptr) (h : Heap) : Option (LinkedList α) × Heap :=
  if h.next = 0 then (none, h.rest) else (some ⟨[], junk⟩, h.rest)

def pushHead (l : Option (LinkedList α)) (item : Ptr) (x : α) (h : Heap) :
    ListResult × Option (LinkedList α) × Heap :=
  match l with
  | none => (.uninitializedError, none, h)
  | some l =>
    if item = 0 then (.nullElementError, some l, h)
    else if h.next = 0 then (.allocationError, some l, h.rest)
    else (.success, some ⟨(item, x) :: l.nodes, l.tailData⟩, h.rest)

/-- `none` is the write through the node that could not be allocated, which is not tested. -/
def pushTail (l : LinkedList α) (item : Ptr) (x : α) (h : Heap) :
    Option (ListResult × LinkedList α × Heap) :=
  if item = 0 then some (.nullElementError, l, h)
  else if h.next = 0 then none
  else some (.success, ⟨l.nodes ++ [(item, x)], l.tailData⟩, h.rest)

/-- The popped data word with its element, and the list after it. -/
def popHead (l : Option (LinkedList α)) :
    ListResult × Option (Ptr × α) × Option (LinkedList α) :=
  match l with
  | none => (.uninitializedError, none, none)
  | some l =>
    match l.nodes with
    | [] => (.isEmpty, none, some l)
    | n :: ns => (.success, some n, some ⟨ns, l.tailData⟩)

def size (l : LinkedList α) : ℕ := l.nodes.length

def itrBegin (_ : LinkedList α) : ℕ := 0

def itrEnd (l : LinkedList α) : ℕ := l.nodes.length

def data (l : LinkedList α) (i : ℕ) : Ptr :=
  match l.nodes[i]? with
  | some n => n.1
  | none => l.tailData

def itrEquals (l : LinkedList α) (a b : ℕ) : Bool := l.data a = l.data b

def itrNext (l : LinkedList α) (i : ℕ) : ℕ := if i < l.itrEnd then i + 1 else i

/-- For a position after the first. -/
def itrPrev (_ : LinkedList α) (i : ℕ) : ℕ := i - 1

def itrGet (l : LinkedList α) (i : ℕ) : Option α := l.nodes[i]?.map Prod.snd

def itrRemove (l : LinkedList α) (i : ℕ) : Option α × LinkedList α :=
  (l.itrGet i, { l with nodes := l.nodes.eraseIdx i })

def write (l : LinkedList α) (i : ℕ) (f : α → α) : LinkedList α :=
  { l with nodes := l.nodes.modify i (fun n => (n.1, f n.2)) }

def search (l : LinkedList α) (p : α → Bool) : ℕ → ℕ → ℕ
  | 0, itr => itr
  | n + 1, itr =>
    if l.itrEquals itr l.itrEnd then itr
    else match l.itrGet itr with
      | none => itr
      | some x => if p x then itr else search l p n (l.itrNext itr)

/-- No element's pointer is the word left in the tail sentinel. -/
def Clean (l : LinkedList α) : Prop := ∀ n ∈ l.nodes, n.1 ≠ l.tailData

theorem data_itrEnd (l : LinkedList α) : l.data l.itrEnd = l.tailData := by
  simp [data, itrEnd]

theorem data_of_getElem? {l : LinkedList α} {i : ℕ} {n : Ptr × α} (h : l.nodes[i]? = some n) :
    l.data i = n.1 := by
  rw [data, h]

theorem itrEquals_end {l : LinkedList α} (hl : l.Clean) {i : ℕ} (hi : i ≤ l.itrEnd) :
    l.itrEquals i l.itrEnd = decide (i = l.itrEnd) := by
  by_cases h : i = l.itrEnd
  · simp [h, itrEquals]
  · have hlt : i < l.nodes.length := Nat.lt_of_le_of_ne hi h
    have hd : l.data i = l.nodes[i].1 := data_of_getElem? (List.getElem?_eq_getElem hlt)
    simp [itrEquals, l.data_itrEnd, hd, h, hl _ (List.getElem_mem hlt)]

/-- A search ends where the element is found or the sentinel's word is read. -/
theorem search_stop (l : LinkedList α) (p : α → Bool) (n i : ℕ) (hi : i + n = l.itrEnd) :
    l.search p n i = i + (l.nodes.drop i).findIdx fun e => e.1 = l.tailData || p e.2 := by
  induction n generalizing i with
  | zero =>
    have hd : l.nodes.drop i = [] := List.drop_eq_nil_of_le (by simp [itrEnd] at hi; omega)
    simp [search, hd]
  | succ n ih =>
    have hlt : i < l.nodes.length := by simp only [itrEnd] at hi; omega
    have hget := List.getElem?_eq_getElem hlt
    have hdata : l.data i = l.nodes[i].1 := data_of_getElem? hget
    have hnext := ih (i + 1) (by omega)
    simp only [search, itrEquals, l.data_itrEnd, hdata, itrGet, hget, Option.map_some, itrNext,
      show i < l.itrEnd by omega, ↓reduceIte, hnext, List.drop_eq_getElem_cons hlt,
      List.findIdx_cons]
    by_cases ht : l.nodes[i].1 = l.tailData
    · simp [ht]
    · by_cases hp : p l.nodes[i].2
      · simp [ht, hp]
      · simp [ht, hp]
        omega

theorem search_first (l : LinkedList α) (p : α → Bool) :
    l.search p l.itrEnd l.itrBegin =
      l.nodes.findIdx fun e => e.1 = l.tailData || p e.2 := by
  rw [itrBegin, l.search_stop p l.itrEnd 0 (Nat.zero_add _), Nat.zero_add, List.drop_zero]

theorem findIdx_congr {p q : α → Bool} {xs : List α} (h : ∀ x ∈ xs, p x = q x) :
    xs.findIdx p = xs.findIdx q := by
  induction xs with
  | nil => rfl
  | cons x xs ih =>
    rw [List.findIdx_cons, List.findIdx_cons, h x List.mem_cons_self,
      ih fun y hy => h y (List.mem_cons_of_mem _ hy)]

theorem search_begin {l : LinkedList α} (hl : l.Clean) (p : α → Bool) :
    l.search p l.itrEnd l.itrBegin = l.nodes.findIdx (fun e => p e.2) := by
  rw [search_first]
  refine findIdx_congr fun n hn => ?_
  rw [decide_eq_false (hl n hn), Bool.false_or]

end LinkedList
end ChatProject
