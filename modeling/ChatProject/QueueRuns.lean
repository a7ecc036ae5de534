import ChatProject.Queue
import ChatProject.CircularArray
import ChatProject.Run

/-!
# Runs of the queue against a bounded FIFO

A FIFO is the list of the items queued, oldest first. As long as nothing is removed from an
empty queue, the array is a window of that list, the tail index being the place behind it.
The item count is what tells a full array from an empty one.
-/

namespace ChatProject
open Memory Run CircularArray

inductive QueueCall (α : Type)
  | insert (item : α)
  | remove
  | isEmpty
  deriving DecidableEq

inductive QueueAnswer (α : Type)
  | inserted (err : QueueErr)
  | removed (err : QueueErr) (item : Option α)
  | isEmpty (answer : ℤ)
  deriving DecidableEq

section Call
variable {α : Type}

def Queue.call (q : Queue α) : QueueCall α → QueueAnswer α × Queue α
  | .insert item =>
    let (err, q') := q.insert (some item)
    (.inserted err, q')
  | .remove =>
    let (err, item, q') := q.remove
    (.removed err item, q')
  | .isEmpty => (.isEmpty q.isEmpty, q)

def Queue.slot (q : Queue α) (i : ℕ) : Option α := q.queueArray.getD i none

/-- The slots from the head on, as many as there are items. -/
def Queue.window (q : Queue α) : List ℕ :=
  (List.range q.nItems).map fun i => (q.head + i) % q.size

def Queue.queued (q : Queue α) : List (Option α) := q.window.map q.slot

abbrev Fifo (α : Type) := List α

/-- What a FIFO of at most `size` items answers. -/
def Fifo.call (size : ℕ) (items : Fifo α) : QueueCall α → QueueAnswer α × Fifo α
  | .insert item =>
    if items.length = size then (.inserted .overflow, items)
    else (.inserted .ok, items ++ [item])
  | .remove =>
    match items with
    | [] => (.removed .underflow none, [])
    | item :: rest => (.removed .ok (some item), rest)
  | .isEmpty => (.isEmpty (if items = [] then 1 else 0), items)

def QueueAnswer.Refused (answer : QueueAnswer α) : Prop :=
  answer = .inserted .overflow ∨ answer = .removed .underflow none

/-- A queue with the items that were reported inserted and removed so far, in order. -/
structure QueueHistory (α : Type) where
  queue : Queue α
  inserted : List α
  removed : List (Option α)

def QueueHistory.call (s : QueueHistory α) (c : QueueCall α) : QueueHistory α :=
  match c, s.queue.call c with
  | .insert item, (.inserted .ok, q) => { s with queue := q, inserted := s.inserted ++ [item] }
  | .remove, (.removed .ok item, q) => { s with queue := q, removed := s.removed ++ [item] }
  | _, (_, q) => { s with queue := q }

@[simp] theorem QueueHistory.call_queue (s : QueueHistory α) (c : QueueCall α) :
    (s.call c).queue = (s.queue.call c).2 := by
  unfold QueueHistory.call
  split <;> simp_all

end Call

structure HoldsItems {α : Type} (size : ℕ) (s : QueueHistory α) (items : Fifo α) : Prop where
  magicNumber : s.queue.magicNumber = Queue.megicNum
  capacity : s.queue.size = size
  length : s.queue.queueArray.length = size
  head : s.queue.head < size
  tail : s.queue.tail = (s.queue.head + items.length) % size
  nItems : s.queue.nItems = items.length
  window : Window s.queue.queueArray s.queue.head (items.map some)
  conserved : s.inserted.map some = s.removed ++ items.map some

namespace HoldsItems
variable {α : Type} {size : ℕ} {s : QueueHistory α} {items : Fifo α}

theorem create {junk : ℕ} (hjunk : junk = 0) (hsize : 1 < size) {h : Heap} {q : Queue α}
    (hq : (Queue.create junk size h).1 = some q) : HoldsItems size ⟨q, [], []⟩ [] := by
  subst hjunk
  rw [Queue.create, if_neg (by omega)] at hq
  split_ifs at hq
  obtain rfl := Option.some.inj hq
  exact ⟨rfl, rfl, List.length_replicate, Nat.lt_of_succ_lt hsize, by simp, rfl, window_nil _ _,
    rfl⟩

theorem length_le (h : HoldsItems size s items) : items.length ≤ size := by
  have hfits := h.window.fits
  rwa [List.length_map, h.length] at hfits

theorem insert_full (h : HoldsItems size s items) (hfull : items.length = size) (item : α) :
    s.queue.call (.insert item) = (.inserted .overflow, s.queue) := by
  simp [Queue.call, Queue.insert, h.magicNumber, h.nItems, h.capacity, hfull]

theorem call_insert (h : HoldsItems size s items) (hroom : items.length ≠ size) (item : α) :
    s.queue.call (.insert item) = (.inserted .ok,
      { s.queue with
        queueArray := s.queue.queueArray.set s.queue.tail (some item)
        tail := (s.queue.tail + 1) % size
        nItems := sizeT (items.length + 1) }) := by
  simp [Queue.call, Queue.insert, h.magicNumber, h.nItems, h.capacity, hroom]

theorem history_insert (h : HoldsItems size s items) (hroom : items.length ≠ size) (item : α) :
    s.call (.insert item) =
      ⟨(s.queue.call (.insert item)).2, s.inserted ++ [item], s.removed⟩ := by
  simp [QueueHistory.call, h.call_insert hroom item]

theorem insert_room (h : HoldsItems size s items) (hlt : size < 2 ^ 64)
    (hroom : items.length ≠ size) (item : α) :
    (s.queue.call (.insert item)).1 = .inserted .ok ∧
      HoldsItems size (s.call (.insert item)) (items ++ [item]) := by
  have hle := h.length_le
  have hwindow := h.window.snoc (a := some item) (by rw [List.length_map, h.length]; omega)
  rw [List.length_map, h.length, ← h.tail] at hwindow
  rw [h.history_insert hroom item, h.call_insert hroom item]
  refine ⟨rfl, ⟨h.magicNumber, h.capacity, ?_, h.head, ?_, ?_, ?_, ?_⟩⟩
  · rw [List.length_set, h.length]
  · rw [h.tail, List.length_append, List.length_singleton, Nat.mod_add_mod, Nat.add_assoc]
  · rw [List.length_append, List.length_singleton]
    exact Nat.mod_eq_of_lt (by omega)
  · rwa [List.map_append, List.map_singleton]
  · rw [List.map_append, List.map_append, h.conserved, List.append_assoc]

theorem call_remove {item : α} (h : HoldsItems size s (item :: items)) :
    s.queue.call .remove = (.removed .ok (some item),
      { s.queue with head := (s.queue.head + 1) % size, nItems := items.length }) := by
  have hsize : size ≠ 0 := by
    have hhead := h.head
    omega
  have hfirst := h.window.first (h.length.symm ▸ h.head)
  simp [Queue.call, Queue.remove, h.magicNumber, h.capacity, hsize, hfirst, h.nItems, sizePred]

theorem history_remove {item : α} (h : HoldsItems size s (item :: items)) :
    s.call .remove = ⟨(s.queue.call .remove).2, s.inserted, s.removed ++ [some item]⟩ := by
  simp [QueueHistory.call, h.call_remove]

theorem remove_first {item : α} (h : HoldsItems size s (item :: items)) :
    (s.queue.call .remove).1 = .removed .ok (some item) ∧
      HoldsItems size (s.call .remove) items := by
  have hhead := h.head
  have hwindow := h.window.rest
  rw [h.length] at hwindow
  rw [h.history_remove, h.call_remove]
  refine ⟨rfl, ⟨h.magicNumber, h.capacity, h.length, Nat.mod_lt _ (by omega), ?_, rfl, hwindow, ?_⟩⟩
  · rw [h.tail, List.length_cons, Nat.mod_add_mod]
    congr 1
    omega
  · rw [h.conserved, List.map_cons, List.append_assoc, List.singleton_append]

/-- The count is not looked at: the head slot is handed out again. -/
theorem remove_empty (h : HoldsItems size s []) :
    ∃ item, (s.queue.call .remove).1 = .removed .ok item := by
  have hsize : size ≠ 0 := by
    have hhead := h.head
    omega
  refine ⟨s.queue.queueArray.getD s.queue.head none, ?_⟩
  simp only [Queue.call, Queue.remove, h.magicNumber, h.capacity, hsize, ne_eq,
    not_true_eq_false, if_false]

theorem isEmpty_eq (h : HoldsItems size s items) :
    s.queue.isEmpty = if items = [] then 1 else 0 := by
  have hmod := Nat.mod_eq_of_lt h.head
  cases items with
  | nil => simp [Queue.isEmpty, h.magicNumber, h.nItems, h.tail, hmod]
  | cons item rest => simp [Queue.isEmpty, h.magicNumber, h.nItems]

theorem queued_eq (h : HoldsItems size s items) : s.queue.queued = items.map some := by
  refine List.ext_getElem (by simp [Queue.queued, Queue.window, h.nItems]) fun i hi hi' => ?_
  have hcell := h.window.cell i hi'
  rw [h.length, ← h.capacity] at hcell
  simp only [Queue.queued, Queue.window, Queue.slot, List.getElem_map, List.getElem_range,
    List.getD_eq_getElem?_getD, hcell, List.getElem?_eq_getElem hi', Option.getD_some]

/-- A call that does not remove from the empty queue is answered as the FIFO answers it. -/
theorem call (h : HoldsItems size s items) (hlt : size < 2 ^ 64) {c : QueueCall α}
    (hc : ¬ (c = .remove ∧ items = [])) :
    (s.queue.call c).1 = (items.call size c).1 ∧
      ((s.queue.call c).1.Refused → (s.queue.call c).2 = s.queue) ∧
      HoldsItems size (s.call c) (items.call size c).2 := by
  cases c with
  | insert item =>
    by_cases hfull : items.length = size
    · have heq := h.insert_full hfull item
      have hnext : s.call (.insert item) = s := by simp [QueueHistory.call, heq]
      simpa [Fifo.call, hfull, heq, hnext] using h
    · obtain ⟨hans, hnext⟩ := h.insert_room hlt hfull item
      simp only [Fifo.call, hfull, if_false, hans]
      exact ⟨trivial, by simp [QueueAnswer.Refused], hnext⟩
  | remove =>
    cases items with
    | nil => exact absurd ⟨rfl, rfl⟩ hc
    | cons item rest =>
      obtain ⟨hans, hnext⟩ := h.remove_first
      simp only [Fifo.call, hans]
      exact ⟨trivial, by simp [QueueAnswer.Refused], hnext⟩
  | isEmpty =>
    have hnext : s.call .isEmpty = s := by simp [QueueHistory.call, Queue.call]
    rw [hnext]
    exact ⟨by rw [Queue.call, Fifo.call, h.isEmpty_eq], fun _ => rfl, h⟩

end HoldsItems

/-- A queue from `QueueCreate`, with the fields that it does not set reading 0, and the calls
on it. -/
structure QueueRun (α : Type) where
  size : ℕ
  one_lt : 1 < size
  lt : size < 2 ^ 64
  creation : Heap
  queue : Queue α
  created : (Queue.create 0 size creation).1 = some queue
  calls : List (QueueCall α)

namespace QueueRun
variable {α : Type}

def concrete (r : QueueRun α) (pre : List (QueueCall α)) : QueueHistory α :=
  after QueueHistory.call ⟨r.queue, [], []⟩ pre

def abstract (r : QueueRun α) (pre : List (QueueCall α)) : Fifo α :=
  after (fun items c => (items.call r.size c).2) [] pre

structure AnswersFifo (r : QueueRun α) (pre : List (QueueCall α)) (c : QueueCall α) : Prop where
  answer : ((r.concrete pre).queue.call c).1 = ((r.abstract pre).call r.size c).1
  refused : ((r.concrete pre).queue.call c).1.Refused →
    ((r.concrete pre).queue.call c).2 = (r.concrete pre).queue

/-- Every call is answered as the bounded FIFO answers it, a refused call changes nothing, and
the items removed are the first of the items inserted. -/
structure RefinesFifo (r : QueueRun α) : Prop where
  answers : ∀ pre c, Occurs r.calls pre c → r.AnswersFifo pre c
  inOrder : ∀ pre, pre <+: r.calls →
    (r.concrete pre).removed <+: (r.concrete pre).inserted.map some

def RemovesFromEmpty (r : QueueRun α) (pre : List (QueueCall α)) (c : QueueCall α) : Prop :=
  c = .remove ∧ r.abstract pre = []

variable {r : QueueRun α} {pre : List (QueueCall α)} {c : QueueCall α}

def Holds (r : QueueRun α) (pre : List (QueueCall α)) : Prop :=
  HoldsItems r.size (r.concrete pre) (r.abstract pre)

theorem holds_nil (r : QueueRun α) : r.Holds [] :=
  HoldsItems.create rfl r.one_lt r.created

theorem holds_snoc (h : r.Holds pre) (hc : ¬ r.RemovesFromEmpty pre c) : r.Holds (pre ++ [c]) := by
  have hcall := HoldsItems.call h r.lt hc
  rw [Holds, concrete, abstract, after_snoc, after_snoc]
  exact hcall.2.2

theorem answersFifo_iff (h : r.Holds pre) :
    r.AnswersFifo pre c ↔ ¬ r.RemovesFromEmpty pre c := by
  constructor
  · intro hanswer hempty
    obtain ⟨hans, -⟩ := hanswer
    obtain ⟨rfl, hnil⟩ := hempty
    rw [Holds, hnil] at h
    rw [hnil] at hans
    obtain ⟨item, hitem⟩ := h.remove_empty
    rw [hitem] at hans
    cases hans
  · intro hc
    obtain ⟨hans, hrefused, -⟩ := HoldsItems.call h r.lt hc
    exact ⟨hans, hrefused⟩

theorem refinesFifo_iff (r : QueueRun α) :
    r.RefinesFifo ↔ ∀ pre c, Occurs r.calls pre c → ¬ r.RemovesFromEmpty pre c := by
  have hsteps : (∀ pre c, Occurs r.calls pre c → r.AnswersFifo pre c) ↔
      ∀ pre c, Occurs r.calls pre c → ¬ r.RemovesFromEmpty pre c :=
    forall_steps_iff r.holds_nil (fun _ _ _ h => answersFifo_iff h) fun _ _ _ h => holds_snoc h
  constructor
  · intro h
    exact hsteps.mp h.answers
  · intro h
    refine ⟨hsteps.mpr h, fun pre hpre => ?_⟩
    have hkept := invariant_of_steps r.holds_nil (fun pre c _ h => holds_snoc h) h pre hpre
    exact ⟨_, hkept.conserved.symm⟩

def emptyRemoval : QueueRun ℕ where
  size := 2
  one_lt := by decide
  lt := by decide
  creation := Heap.succeeding id
  queue := ⟨[none, none], 2, 0, 0, 0, Queue.megicNum⟩
  created := rfl
  calls := [.remove]

theorem not_refinesFifo_emptyRemoval : ¬ emptyRemoval.RefinesFifo := by
  intro h
  have hans := (h.answers [] .remove List.prefix_rfl).answer
  revert hans
  decide

end QueueRun
end ChatProject
