import ChatProject.LinkedList
import Mathlib.Logic.Function.Basic

/-!
# The doubly linked list in memory

Memory is a partial map from addresses to nodes; `none` is an address at which no node is
allocated. A list is the address of its two sentinels, the head and, one node further, the
tail, which is its own successor. An operation is `none` where the C code is undefined: it
reads or writes where no node is, or its counter overflows.
-/

namespace ChatProject
open Memory

structure Node where
  data : Ptr
  next : Ptr
  prev : Ptr
  deriving DecidableEq

def sizeofNode : ℕ := 24

def sizeofPtr : ℕ := 8

/-- A chunk from `malloc`: its address, the bytes that there is room for, and what was left
in them. -/
structure Chunk where
  addr : Ptr
  room : ℕ
  left : Node

abbrev Nodes := Ptr → Option Node

namespace Nodes

def data (mem : Nodes) (p : Ptr) : Option Ptr := (mem p).map Node.data

def next (mem : Nodes) (p : Ptr) : Option Ptr := (mem p).map Node.next

def prev (mem : Nodes) (p : Ptr) : Option Ptr := (mem p).map Node.prev

def modify (mem : Nodes) (p : Ptr) (f : Node → Node) : Option Nodes :=
  (mem p).map fun n => Function.update mem p (some (f n))

def setData (mem : Nodes) (p item : Ptr) : Option Nodes :=
  mem.modify p fun n => { n with data := item }

def setNext (mem : Nodes) (p q : Ptr) : Option Nodes := mem.modify p fun n => { n with next := q }

def setPrev (mem : Nodes) (p q : Ptr) : Option Nodes := mem.modify p fun n => { n with prev := q }

/-- The chunk becomes a node. All fields of a new node are written, so a chunk without room
for them is overrun. -/
def allocate (mem : Nodes) (b : Chunk) : Option Nodes :=
  if b.addr = 0 ∨ b.room < sizeofNode then none
  else some (Function.update mem b.addr (some b.left))

def free (mem : Nodes) (p : Ptr) : Option Nodes := (mem p).map fun _ => Function.update mem p none

end Nodes

namespace DLinkedList

def head (l : Ptr) : Ptr := l

def tail (l : Ptr) : Ptr := l + sizeofNode

/-- `l` is what `malloc` returns; the data words of the sentinels are not set. -/
def create (mem : Nodes) (l headData tailData : Ptr) : Ptr × Nodes :=
  if l = 0 then (0, mem)
  else
    (l, Function.update (Function.update mem (head l) (some ⟨headData, tail l, 0⟩))
      (tail l) (some ⟨tailData, tail l, head l⟩))

def pushHead (mem : Nodes) (l item : Ptr) (newNode : Chunk) : Option (ListResult × Nodes) :=
  if l = 0 then some (.uninitializedError, mem)
  else if item = 0 then some (.nullElementError, mem)
  else if newNode.addr = 0 then some (.allocationError, mem)
  else do
    let mem ← mem.allocate newNode
    let first ← mem.next (head l)
    let mem ← mem.setNext newNode.addr first
    let mem ← mem.setPrev newNode.addr (head l)
    let mem ← mem.setNext (head l) newNode.addr
    let second ← mem.next newNode.addr
    let mem ← mem.setPrev second newNode.addr
    let mem ← mem.setData newNode.addr item
    pure (.success, mem)

/-- The result of `malloc` is not tested. -/
def pushTail (mem : Nodes) (l item : Ptr) (newNode : Chunk) : Option (ListResult × Nodes) :=
  if l = 0 then some (.uninitializedError, mem)
  else if item = 0 then some (.nullElementError, mem)
  else do
    let mem ← mem.allocate newNode
    let last ← mem.prev (tail l)
    let mem ← mem.setPrev newNode.addr last
    let mem ← mem.setNext newNode.addr (tail l)
    let last ← mem.prev (tail l)
    let mem ← mem.setNext last newNode.addr
    let second ← mem.next newNode.addr
    let mem ← mem.setPrev second newNode.addr
    let mem ← mem.setData newNode.addr item
    pure (.success, mem)

def popHead (mem : Nodes) (l : Ptr) : Option ((ListResult × Option Ptr) × Nodes) :=
  if l = 0 then some ((.uninitializedError, none), mem)
  else do
    let removeFromH ← mem.next (head l)
    if removeFromH = tail l then some ((.isEmpty, none), mem)
    else
      let item ← mem.data removeFromH
      let second ← mem.next removeFromH
      let mem ← mem.setNext (head l) second
      let second ← mem.next (head l)
      let mem ← mem.setPrev second (head l)
      let mem ← mem.free removeFromH
      pure ((.success, some item), mem)

def popTail (mem : Nodes) (l : Ptr) : Option ((ListResult × Option Ptr) × Nodes) :=
  if l = 0 then some ((.uninitializedError, none), mem)
  else do
    let first ← mem.next (head l)
    if first = tail l then some ((.isEmpty, none), mem)
    else
      let removeFromT ← mem.prev (tail l)
      let item ← mem.data removeFromT
      let last ← mem.prev removeFromT
      let mem ← mem.setNext last (tail l)
      let last ← mem.prev removeFromT
      let mem ← mem.setPrev (tail l) last
      let mem ← mem.free removeFromT
      pure ((.success, some item), mem)

/-- `counter` is an `int`: `room` is what it can still be incremented by. -/
def sizeLoop (mem : Nodes) (l : Ptr) : ℕ → Ptr → ℕ → Option ℕ
  | 0, counterTemp, counter => if counterTemp = tail l then some counter else none
  | room + 1, counterTemp, counter =>
    if counterTemp = tail l then some counter
    else do
      let counterTemp ← mem.next counterTemp
      sizeLoop mem l room counterTemp (counter + 1)

def intMax : ℕ := 2 ^ 31 - 1

def size (mem : Nodes) (l : Ptr) : Option ℕ :=
  if l = 0 then some 0
  else do
    let first ← mem.next (head l)
    sizeLoop mem l intMax first 0

def itrBegin (mem : Nodes) (l : Ptr) : Option Ptr := if l = 0 then some 0 else mem.next (head l)

/-- `m_prev` of the tail is read for a test that changes nothing. -/
def itrEnd (mem : Nodes) (l : Ptr) : Option Ptr :=
  if l = 0 then some 0
  else do
    let _ ← mem.prev (tail l)
    mem.next (tail l)

/-- Iterators are compared by the data of their nodes. -/
def itrEquals (mem : Nodes) (a b : Ptr) : Option Bool :=
  if a = 0 ∨ b = 0 then some false
  else do
    let x ← mem.data a
    let y ← mem.data b
    pure (decide (x = y))

def itrNext (mem : Nodes) (itr : Ptr) : Option Ptr := if itr = 0 then some 0 else mem.next itr

def itrPrev (mem : Nodes) (itr : Ptr) : Option Ptr :=
  if itr = 0 then some 0
  else do
    let node ← mem.prev itr
    let before ← mem.prev node
    if before = node then pure itr else mem.prev itr

def itrGet (mem : Nodes) (itr : Ptr) : Option Ptr :=
  if itr = 0 then some 0
  else do
    let next ← mem.next itr
    if next = itr then pure 0 else mem.data itr

def itrSet (mem : Nodes) (itr element : Ptr) : Option (Ptr × Nodes) :=
  if itr = 0 ∨ element = 0 then some (0, mem)
  else do
    let item ← mem.data itr
    let mem ← mem.setData itr element
    pure (item, mem)

/-- `malloc` is asked for the size of a pointer. -/
def itrInsertBefore (mem : Nodes) (itr element : Ptr) (newElement : Chunk) : Option (Ptr × Nodes) :=
  if element = 0 ∨ itr = 0 then some (0, mem)
  else if newElement.addr = 0 then some (0, mem)
  else do
    let mem ← mem.allocate newElement
    let mem ← mem.setData newElement.addr element
    let mem ← mem.setNext newElement.addr itr
    let before ← mem.prev itr
    let mem ← mem.setPrev newElement.addr before
    let mem ← mem.setPrev itr newElement.addr
    let before ← mem.prev newElement.addr
    let mem ← mem.setNext before newElement.addr
    pure (newElement.addr, mem)

def itrRemove (mem : Nodes) (itr : Ptr) : Option (Ptr × Nodes) :=
  if itr = 0 then some (0, mem)
  else do
    let next ← itrNext mem itr
    if next = itr then some (0, mem)
    else
      let data ← mem.data itr
      let next ← mem.next itr
      let prev ← mem.prev itr
      let mem ← mem.setPrev next prev
      let prev ← mem.prev itr
      let next ← mem.next itr
      let mem ← mem.setNext prev next
      let mem ← mem.free itr
      pure (data, mem)

end DLinkedList
end ChatProject
