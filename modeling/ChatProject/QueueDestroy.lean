import ChatProject.QueueRuns
import Mathlib.Data.List.ReduceOption

/-!
# `QueueDestroy` after a run

The slots freed are the first ones of the array, as many as there are items; the items are in the
window at the head.
-/

namespace ChatProject
open Memory Run CircularArray

namespace Queue
variable {α : Type} (q : Queue α)

/-- What is in the freed slots that are not in the window. -/
def stale : List (Option α) := ((List.range q.nItems).filter (· ∉ q.window)).map q.slot

def missed : List (Option α) := (q.window.filter (· ∉ List.range q.nItems)).map q.slot

end Queue

theorem reduceOption_perm_iff {α : Type} {slots : List (Option α)} {items : List α}
    (hlength : slots.length = items.length) :
    slots.reduceOption.Perm items ↔ slots.Perm (items.map some) := by
  constructor
  · intro h
    have hsome := List.reduceOption_length_eq_iff.mp (h.length_eq.trans hlength.symm)
    have hslots : slots.reduceOption.map some = slots := by
      clear h hlength
      induction slots with
      | nil => rfl
      | cons x slots ih =>
        obtain ⟨a, rfl⟩ := Option.isSome_iff_exists.mp (hsome x List.mem_cons_self)
        rw [List.reduceOption_cons_of_some, List.map_cons,
          ih fun y hy => hsome y (List.mem_cons_of_mem _ hy)]
    exact hslots ▸ h.map some
  · intro h
    have hitems : (items.map some).reduceOption = items := by
      simp [List.reduceOption, List.filterMap_map]
    have hperm : slots.reduceOption.Perm (items.map some).reduceOption := h.filterMap id
    rwa [hitems] at hperm

/-- A slot outside the window was never written, or its item has been removed. -/
def Remains {α : Type} (size : ℕ) (s : QueueHistory α) (items : Fifo α) : Prop :=
  ∀ i a, (∀ k < items.length, (s.queue.head + k) % size ≠ i) →
    s.queue.queueArray[i]? = some (some a) → some a ∈ s.removed

namespace HoldsItems
variable {α : Type} {size : ℕ} {s : QueueHistory α} {items : Fifo α}

theorem remains_create {junk : ℕ} {h : Heap} {q : Queue α}
    (hq : (Queue.create junk size h).1 = some q) : Remains size ⟨q, [], []⟩ [] := by
  intro i a _ hslot
  rw [Queue.create] at hq
  split_ifs at hq
  obtain rfl := Option.some.inj hq
  have hmem := List.mem_of_getElem? hslot
  cases List.eq_of_mem_replicate hmem

theorem remains_insert (h : HoldsItems size s items) (hremains : Remains size s items)
    (hroom : items.length ≠ size) (item : α) :
    Remains size (s.call (.insert item)) (items ++ [item]) := by
  intro i a hout hslot
  rw [h.history_insert hroom, h.call_insert hroom] at hout hslot ⊢
  rw [List.length_append, List.length_singleton] at hout
  have htail : s.queue.tail ≠ i := by
    rw [h.tail]
    exact hout items.length (Nat.lt_succ_self _)
  rw [List.getElem?_set_ne htail] at hslot
  exact hremains i a (fun k hk => hout k (Nat.lt_succ_of_lt hk)) hslot

theorem remains_remove {item : α} (h : HoldsItems size s (item :: items))
    (hremains : Remains size s (item :: items)) : Remains size (s.call .remove) items := by
  intro i a hout hslot
  rw [h.history_remove, h.call_remove] at hout hslot ⊢
  by_cases hfirst : s.queue.head = i
  · have hitem := h.window.first (h.length.symm ▸ h.head)
    rw [hfirst, hslot] at hitem
    rw [Option.some.inj hitem]
    exact List.mem_append_right _ (List.mem_singleton_self _)
  · refine List.mem_append_left _ (hremains i a (fun k hk => ?_) hslot)
    cases k with
    | zero => rwa [Nat.add_zero, Nat.mod_eq_of_lt h.head]
    | succ k =>
      have hne := hout k (Nat.lt_of_succ_lt_succ hk)
      rwa [Nat.mod_add_mod, Nat.add_right_comm, Nat.add_assoc] at hne

theorem remains_call (h : HoldsItems size s items) (hremains : Remains size s items)
    {c : QueueCall α} (hc : ¬ (c = .remove ∧ items = [])) :
    Remains size (s.call c) (items.call size c).2 := by
  cases c with
  | insert item =>
    by_cases hfull : items.length = size
    · have hnext : s.call (.insert item) = s := by
        simp [QueueHistory.call, h.insert_full hfull item]
      rw [hnext, Fifo.call, if_pos hfull]
      exact hremains
    · rw [Fifo.call, if_neg hfull]
      exact h.remains_insert hremains hfull item
  | remove =>
    cases items with
    | nil => exact absurd ⟨rfl, rfl⟩ hc
    | cons item items => exact h.remains_remove hremains
  | isEmpty =>
    have hnext : s.call .isEmpty = s := by simp [QueueHistory.call, Queue.call]
    rw [hnext]
    exact hremains

/-- What is freed are the items, unless an item is missed and not freed in another slot. -/
theorem destroy_perm_iff (h : HoldsItems size s items) :
    (∃ freed, s.queue.destroy = some freed ∧ freed.reduceOption.Perm items) ↔
      s.queue.stale.Perm s.queue.missed := by
  have hle : s.queue.nItems ≤ s.queue.queueArray.length := by
    rw [h.nItems, h.length]
    exact h.length_le
  have hdestroy : s.queue.destroy = some (s.queue.queueArray.take s.queue.nItems) := by
    rw [Queue.destroy, if_neg (not_not.mpr h.magicNumber), if_neg (Nat.not_lt.mpr hle)]
  have htake : s.queue.queueArray.take s.queue.nItems =
      (List.range s.queue.nItems).map s.queue.slot := by
    refine List.ext_getElem (by simpa using hle) fun i hi hi' => ?_
    rw [List.length_take] at hi
    simp only [List.getElem_take, List.getElem_map, List.getElem_range, Queue.slot,
      List.getD_eq_getElem?_getD,
      List.getElem?_eq_getElem (show i < s.queue.queueArray.length by omega), Option.getD_some]
  have hlength : (s.queue.queueArray.take s.queue.nItems).length = items.length := by
    rw [List.length_take, Nat.min_eq_left hle, h.nItems]
  have hwindow : s.queue.window.Nodup := by
    refine window_places_nodup ?_
    rw [h.nItems, h.capacity]
    exact h.length_le
  simp only [hdestroy, Option.some.injEq, exists_eq_left']
  rw [reduceOption_perm_iff hlength, ← h.queued_eq, htake, Queue.queued,
    perm_map_iff_of_nodup List.nodup_range hwindow]
  rfl

theorem mem_window (h : HoldsItems size s items) {i : ℕ} :
    i ∈ s.queue.window ↔ ∃ k < items.length, (s.queue.head + k) % size = i := by
  simp only [Queue.window, List.mem_map, List.mem_range, h.nItems, h.capacity]

theorem slot_notMem_missed (h : HoldsItems size s items) (hremains : Remains size s items)
    (hnodup : s.inserted.Nodup) {i : ℕ} (hi : i ∉ s.queue.window) :
    s.queue.slot i ∉ s.queue.missed := by
  intro hmem
  obtain ⟨j, hj, heq⟩ := List.mem_map.mp hmem
  have hqueued : s.queue.slot i ∈ items.map some := by
    rw [← heq, ← h.queued_eq]
    exact List.mem_map_of_mem (List.mem_of_mem_filter hj)
  obtain ⟨a, ha, hslot⟩ := List.mem_map.mp hqueued
  have hcell : s.queue.queueArray[i]? = some (some a) := by
    rw [Queue.slot, List.getD_eq_getElem?_getD] at hslot
    cases hget : s.queue.queueArray[i]? with
    | none =>
      rw [hget] at hslot
      cases hslot
    | some x =>
      rw [hget] at hslot
      exact congrArg some hslot.symm
  have hremoved : some a ∈ s.removed := by
    refine hremains i a (fun k hk heq => hi ?_) hcell
    exact h.mem_window.mpr ⟨k, hk, heq⟩
  have hinserted : (s.inserted.map some).Nodup := hnodup.map (Option.some_injective α)
  rw [h.conserved, List.nodup_append] at hinserted
  exact hinserted.2.2 _ hremoved _ (List.mem_map_of_mem ha) rfl

theorem stale_perm_iff (h : HoldsItems size s items) (hremains : Remains size s items)
    (hnodup : s.inserted.Nodup) :
    s.queue.stale.Perm s.queue.missed ↔
      s.queue.head = 0 ∨ items = [] ∨ items.length = size := by
  have hcovers := covers_start_iff h.head h.length_le
  rw [List.length_eq_zero_iff] at hcovers
  rw [← hcovers]
  constructor
  · intro hperm i hi
    by_contra hnot
    have hwindow : i ∉ s.queue.window := fun hmem => hnot (h.mem_window.mp hmem)
    have hstale : s.queue.slot i ∈ s.queue.stale := by
      refine List.mem_map_of_mem (List.mem_filter.mpr ⟨?_, decide_eq_true hwindow⟩)
      rwa [h.nItems, List.mem_range]
    exact h.slot_notMem_missed hremains hnodup hwindow (hperm.mem_iff.mp hstale)
  · intro hcover
    have hsub : List.range s.queue.nItems ⊆ s.queue.window := by
      intro i hi
      rw [h.nItems, List.mem_range] at hi
      exact h.mem_window.mpr (hcover i hi)
    have hperm : (List.range s.queue.nItems).Perm s.queue.window := by
      refine (List.subperm_of_subset List.nodup_range hsub).perm_of_length_le ?_
      simp [Queue.window]
    have hstale : s.queue.stale = [] := by
      rw [Queue.stale, List.map_eq_nil_iff, List.filter_eq_nil_iff]
      intro i hi
      simpa using hsub hi
    have hmissed : s.queue.missed = [] := by
      rw [Queue.missed, List.map_eq_nil_iff, List.filter_eq_nil_iff]
      intro i hi
      simpa using hperm.mem_iff.mpr hi
    rw [hstale, hmissed]

end HoldsItems

/-- A run that never removes from the empty queue. -/
structure QueueLife (α : Type) extends QueueRun α where
  neverEmpty : ∀ pre c, Occurs calls pre c → ¬ toQueueRun.RemovesFromEmpty pre c

namespace QueueLife
variable {α : Type} (r : QueueLife α)

def queueAtEnd : Queue α := (r.concrete r.calls).queue

/-- Exactly the items that are queued are freed, each as often as it is queued. -/
def Releases : Prop :=
  ∃ freed, r.queueAtEnd.destroy = some freed ∧ freed.reduceOption.Perm (r.abstract r.calls)

theorem holds (r : QueueLife α) {pre : List (QueueCall α)} (hpre : pre <+: r.calls) :
    r.Holds pre ∧ Remains r.size (r.concrete pre) (r.abstract pre) := by
  refine invariant_of_steps
    (I := fun pre => r.Holds pre ∧ Remains r.size (r.concrete pre) (r.abstract pre))
    ⟨r.holds_nil, HoldsItems.remains_create r.created⟩ (fun pre c _ h hc => ?_) r.neverEmpty
    pre hpre
  refine ⟨QueueRun.holds_snoc h.1 hc, ?_⟩
  rw [QueueRun.concrete, QueueRun.abstract, after_snoc, after_snoc]
  exact HoldsItems.remains_call h.1 h.2 hc

/-- Freed are the items if those missed are in other freed slots. Where no item was inserted twice
that means that the window is at the start of the array, or empty, or all of it. -/
theorem releases_iff (r : QueueLife α) :
    (r.Releases ↔ r.queueAtEnd.stale.Perm r.queueAtEnd.missed) ∧
      ((r.concrete r.calls).inserted.Nodup →
        (r.Releases ↔ r.queueAtEnd.head = 0 ∨ r.abstract r.calls = [] ∨
          (r.abstract r.calls).length = r.size)) := by
  obtain ⟨hholds, hremains⟩ := r.holds List.prefix_rfl
  have hreleases := HoldsItems.destroy_perm_iff hholds
  exact ⟨hreleases, fun hnodup =>
    hreleases.trans (HoldsItems.stale_perm_iff hholds hremains hnodup)⟩

def oneRemovedRun : QueueRun ℕ where
  size := 3
  one_lt := by decide
  lt := by decide
  creation := Heap.succeeding id
  queue := ⟨[none, none, none], 3, 0, 0, 0, Queue.megicNum⟩
  created := rfl
  calls := [.insert 1, .insert 2, .remove]

theorem oneRemovedRun_neverEmpty (pre : List (QueueCall ℕ)) (c : QueueCall ℕ)
    (hocc : Occurs oneRemovedRun.calls pre c) : ¬ oneRemovedRun.RemovesFromEmpty pre c := by
  rw [QueueRun.RemovesFromEmpty]
  rcases (occurs_snoc [QueueCall.insert 1, .insert 2] pre c .remove).mp hocc with hocc | hlast
  · rcases (occurs_snoc [QueueCall.insert 1] pre c (.insert 2)).mp hocc with hocc | hlast
    · rcases (occurs_snoc [] pre c (QueueCall.insert 1)).mp hocc with hocc | hlast
      · exact absurd hocc (not_occurs_nil pre c)
      · simp [hlast.2]
    · simp [hlast.2]
  · obtain ⟨rfl, rfl⟩ := hlast
    decide

def oneRemoved : QueueLife ℕ := ⟨oneRemovedRun, oneRemovedRun_neverEmpty⟩

theorem not_releases_oneRemoved : ¬ oneRemoved.Releases := by
  have hnodup : (oneRemoved.concrete oneRemoved.calls).inserted.Nodup := by decide
  obtain ⟨hholds, hremains⟩ := oneRemoved.holds List.prefix_rfl
  intro h
  have hcond := (HoldsItems.stale_perm_iff hholds hremains hnodup).mp
    ((HoldsItems.destroy_perm_iff hholds).mp h)
  revert hcond
  decide

end QueueLife
end ChatProject
