import ChatProject.HashMap

/-!
# The ring-buffer queue

`QueueCreate` sets the size and the magic number only; the indices and the item
count are whatever the fresh memory held, which is the parameter `junk`. The test
for an empty queue in `QueueRemove` is on the size of the array.
-/

namespace ChatProject
open Memory

inductive QueueErr
  | ok
  | notInitialized
  | underflow
  | overflow
  deriving DecidableEq

structure Queue (α : Type) where
  queueArray : List (Option α)
  size : ℕ
  head : ℕ
  tail : ℕ
  nItems : ℕ
  magicNumber : ℕ
  deriving DecidableEq

namespace Queue
variable {α : Type}

def megicNum : ℕ := 873613

def create (junk size : ℕ) (h : Heap) : Option (Queue α) × Heap :=
  if size ≤ 1 then (none, h)
  else if h.next = 0 then (none, h.rest)
  else if h.rest.next = 0 then (none, h.rest.rest)
  else (some ⟨List.replicate size none, size, junk, junk, junk, megicNum⟩, h.rest.rest)

def insert (q : Queue α) (item : Option α) : QueueErr × Queue α :=
  if q.magicNumber ≠ megicNum ∨ item.isNone then (.notInitialized, q)
  else if q.nItems = q.size then (.overflow, q)
  else
    (.ok, { q with
      queueArray := q.queueArray.set q.tail item
      tail := (q.tail + 1) % q.size
      nItems := sizeT (q.nItems + 1) })

/-- The array slot at the head, which may be `NULL`, and the queue after it. -/
def remove (q : Queue α) : QueueErr × Option α × Queue α :=
  if q.magicNumber ≠ megicNum then (.notInitialized, none, q)
  else if q.size = 0 then (.underflow, none, q)
  else
    (.ok, q.queueArray.getD q.head none,
      { q with head := (q.head + 1) % q.size, nItems := sizePred q.nItems })

def isEmpty (q : Queue α) : ℤ :=
  if q.magicNumber ≠ megicNum then -1
  else if q.nItems = 0 ∧ q.head = q.tail then 1
  else 0

/-- What is freed. `none` is a count past the end of the array, which is read there. -/
def destroy (q : Queue α) : Option (List (Option α)) :=
  if q.magicNumber ≠ megicNum then some []
  else if q.queueArray.length < q.nItems then none
  else some (q.queueArray.take q.nItems)

end Queue

end ChatProject
