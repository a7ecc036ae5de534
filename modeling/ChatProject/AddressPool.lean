import ChatProject.PoolAddr
import ChatProject.QueueRuns
import Mathlib.Data.List.Nodup

/-!
# Runs of the address pool

The addresses held and the addresses queued are together those that the pool was created with.
The counter of the pool is decremented for an address that is taken, and not incremented for one
that is given back. The queue of a pool that refuses an address is destroyed.
-/

namespace ChatProject
open Memory Run

inductive PoolCall
  | getIPAddress
  | returnIPAddress (ipAddress : CStr)
  deriving DecidableEq

/-- The pool, `none` when its queue has been destroyed, and the addresses that are held. -/
structure PoolHistory where
  pool : Option IPPoolAddr
  held : List CStr

open IPPoolAddr

def PoolHistory.call (s : PoolHistory) (c : PoolCall) : PoolHistory :=
  match s.pool, c with
  | none, _ => s
  | some pool, .getIPAddress =>
    match getIPAddress pool with
    | (.success, some ipAddress, pool) => ⟨some pool, ipAddress :: s.held⟩
    | (_, _, pool) => ⟨some pool, s.held⟩
  | some pool, .returnIPAddress ipAddress =>
    match returnIPAddress pool (some ipAddress) with
    | (.success, _, pool) => ⟨pool, s.held.erase ipAddress⟩
    | (_, _, pool) => ⟨pool, s.held⟩

def poolAddresses : List CStr := (List.range capacity).map addressAt

theorem poolAddresses_nodup : poolAddresses.Nodup := by
  refine List.Nodup.map_on (fun i hi j hj h => ?_) List.nodup_range
  exact addressAt_injOn (List.mem_range.mp hi) (List.mem_range.mp hj) h

theorem holdsItems_taken :
    HoldsItems capacity ⟨(taken 0).queueAddr, poolAddresses, []⟩ poolAddresses where
  magicNumber := rfl
  capacity := rfl
  length := by simp [taken]
  head := by decide
  tail := by simp [taken, poolAddresses]
  nItems := by simp [taken, poolAddresses]
  window := by
    refine ⟨by simp [taken, poolAddresses], fun i hi => ?_⟩
    have hlt : i < capacity := by simpa [poolAddresses] using hi
    simp [taken, poolAddresses, Nat.mod_eq_of_lt hlt, hlt]
  conserved := rfl

/-- The queue holds the items, and with the addresses that are held they are all of the pool. -/
structure PoolHolds (s : PoolHistory) (pool : IPPoolAddr) (queue : QueueHistory CStr)
    (items : Fifo CStr) : Prop where
  pool_eq : s.pool = some pool
  queue_eq : queue.queue = pool.queueAddr
  holds : HoldsItems capacity queue items
  conserved : (s.held ++ items).Perm poolAddresses

theorem poolHolds_taken :
    PoolHolds ⟨some (taken 0), []⟩ (taken 0) ⟨(taken 0).queueAddr, poolAddresses, []⟩
      poolAddresses :=
  ⟨rfl, rfl, holdsItems_taken, List.Perm.refl _⟩

namespace PoolHolds
variable {s : PoolHistory} {pool : IPPoolAddr} {queue : QueueHistory CStr} {items : Fifo CStr}
  {ipAddress : CStr}

theorem queued_eq (h : PoolHolds s pool queue items) : pool.queueAddr.queued = items.map some := by
  rw [← h.queue_eq]
  exact h.holds.queued_eq

theorem length_add (h : PoolHolds s pool queue items) :
    s.held.length + items.length = capacity := by
  have hlength := h.conserved.length_eq
  rwa [List.length_append, poolAddresses, List.length_map, List.length_range] at hlength

theorem held_nodup (h : PoolHolds s pool queue items) : s.held.Nodup :=
  (h.conserved.nodup_iff.mpr poolAddresses_nodup).of_append_left

/-- A pool with no address left hands one out all the same. -/
theorem get_success (h : PoolHolds s pool queue items) : (getIPAddress pool).1 = .success := by
  have hsize : pool.queueAddr.size ≠ 0 := by
    rw [← h.queue_eq, h.holds.capacity]
    decide
  have hmagic : pool.queueAddr.magicNumber = Queue.megicNum := by
    rw [← h.queue_eq]
    exact h.holds.magicNumber
  simp only [getIPAddress, Queue.remove, hmagic, hsize, ne_eq, not_true_eq_false, if_false]

theorem get (h : PoolHolds s pool queue (ipAddress :: items)) :
    ∃ pool', pool'.poolSize = sizePred pool.poolSize ∧
      PoolHolds (s.call .getIPAddress) pool' (queue.call .remove) items := by
  obtain ⟨hans, hnext⟩ := h.holds.remove_first
  cases hremove : pool.queueAddr.remove with
  | mk err rest =>
    obtain ⟨res, q⟩ := rest
    rw [Queue.call, h.queue_eq, hremove] at hans
    obtain ⟨rfl, rfl⟩ := QueueAnswer.removed.inj hans
    have hget : getIPAddress pool = (.success, some ipAddress, ⟨q, sizePred pool.poolSize⟩) := by
      rw [getIPAddress, hremove]
    have hcall : s.call .getIPAddress =
        ⟨some ⟨q, sizePred pool.poolSize⟩, ipAddress :: s.held⟩ := by
      simp only [PoolHistory.call, h.pool_eq, hget]
    rw [hcall]
    refine ⟨⟨q, sizePred pool.poolSize⟩, rfl, rfl, ?_, hnext, ?_⟩
    · rw [QueueHistory.call_queue, Queue.call, h.queue_eq, hremove]
    · exact List.perm_middle.symm.trans h.conserved

theorem giveBack (h : PoolHolds s pool queue items) (hheld : ipAddress ∈ s.held) :
    ∃ pool', pool'.poolSize = pool.poolSize ∧
      PoolHolds (s.call (.returnIPAddress ipAddress)) pool' (queue.call (.insert ipAddress))
        (items ++ [ipAddress]) := by
  have hroom : items.length ≠ capacity := by
    have hpos := List.length_pos_of_mem hheld
    have hadd := h.length_add
    omega
  obtain ⟨hans, hnext⟩ := h.holds.insert_room (by decide) hroom ipAddress
  cases hinsert : pool.queueAddr.insert (some ipAddress) with
  | mk err q =>
    rw [Queue.call, h.queue_eq, hinsert] at hans
    obtain rfl := QueueAnswer.inserted.inj hans
    have hreturn : returnIPAddress pool (some ipAddress) =
        (.success, none, some ⟨q, pool.poolSize⟩) := by
      rw [returnIPAddress, hinsert]
      rfl
    have hcall : s.call (.returnIPAddress ipAddress) =
        ⟨some ⟨q, pool.poolSize⟩, s.held.erase ipAddress⟩ := by
      simp only [PoolHistory.call, h.pool_eq, hreturn]
    rw [hcall]
    refine ⟨⟨q, pool.poolSize⟩, rfl, rfl, ?_, hnext, ?_⟩
    · rw [QueueHistory.call_queue, Queue.call, h.queue_eq, hinsert]
    · refine List.Perm.trans ?_ h.conserved
      have hmove : (s.held.erase ipAddress ++ (items ++ [ipAddress])).Perm
          (ipAddress :: s.held.erase ipAddress ++ items) := by
        rw [← List.append_assoc, List.cons_append]
        exact List.perm_append_singleton _ _
      exact hmove.trans ((List.perm_cons_erase hheld).symm.append_right items)

end PoolHolds

/-- A pool from `CreateIP_Multecaste`, and calls that give back only addresses that are held. -/
structure PoolRun where
  creation : Heap
  pool : IPPoolAddr
  created : (createIPMultecaste creation).1 = some pool
  calls : List PoolCall
  returned : ∀ pre ipAddress, Occurs calls pre (.returnIPAddress ipAddress) →
    ipAddress ∈ (after PoolHistory.call ⟨some pool, []⟩ pre).held

namespace PoolRun
variable (r : PoolRun)

def state (pre : List PoolCall) : PoolHistory := after PoolHistory.call ⟨some r.pool, []⟩ pre

/-- No address has two holders, none is lost or new, and the counter is the number of addresses
left. -/
def Conserved (s : PoolHistory) : Prop :=
  ∃ pool, s.pool = some pool ∧ s.held.Nodup ∧
    (s.held.map some ++ pool.queueAddr.queued).Perm r.pool.queueAddr.queued ∧
    pool.poolSize = pool.queueAddr.queued.length

/-- An address is handed out if and only if one is left. -/
def GetsIfLeft (s : PoolHistory) : Prop :=
  ∃ pool, s.pool = some pool ∧
    ((getIPAddress pool).1 = .success ↔ pool.queueAddr.queued ≠ [])

structure Conserves : Prop where
  conserved : ∀ pre, pre <+: r.calls → r.Conserved (r.state pre)
  gets : ∀ pre, Occurs r.calls pre .getIPAddress → GetsIfLeft (r.state pre)

variable {r} {pre : List PoolCall} {c : PoolCall} {s : PoolHistory} {pool : IPPoolAddr}
  {queue : QueueHistory CStr} {items : Fifo CStr}

theorem pool_eq (r : PoolRun) : r.pool = taken 0 := createIPMultecaste_of_some r.created

theorem queued_pool (r : PoolRun) : r.pool.queueAddr.queued = poolAddresses.map some := by
  rw [r.pool_eq]
  exact poolHolds_taken.queued_eq

theorem conserved_iff (h : PoolHolds s pool queue items) :
    r.Conserved s ↔ pool.poolSize = items.length := by
  have hperm : (s.held.map some ++ pool.queueAddr.queued).Perm r.pool.queueAddr.queued := by
    rw [h.queued_eq, r.queued_pool, ← List.map_append]
    exact h.conserved.map some
  constructor
  · intro hconserved
    obtain ⟨pool', heq, -, -, hsize⟩ := hconserved
    rw [h.pool_eq] at heq
    cases heq
    rw [hsize, h.queued_eq, List.length_map]
  · intro hsize
    refine ⟨pool, h.pool_eq, h.held_nodup, hperm, ?_⟩
    rw [hsize, h.queued_eq, List.length_map]

theorem getsIfLeft_iff (h : PoolHolds s pool queue items) : GetsIfLeft s ↔ items ≠ [] := by
  have hleft : pool.queueAddr.queued ≠ [] ↔ items ≠ [] := by
    rw [h.queued_eq, ne_eq, List.map_eq_nil_iff]
  constructor
  · intro hgets
    obtain ⟨pool', heq, hiff⟩ := hgets
    rw [h.pool_eq] at heq
    cases heq
    exact hleft.mp (hiff.mp h.get_success)
  · intro hitems
    exact ⟨pool, h.pool_eq, iff_of_true h.get_success (hleft.mpr hitems)⟩

def Taken (r : PoolRun) (pre : List PoolCall) : Prop :=
  ∃ pool queue items, PoolHolds (r.state pre) pool queue items ∧ pool.poolSize = items.length ∧
    pre.length + items.length = capacity

theorem taken_nil (r : PoolRun) : r.Taken [] := by
  rw [Taken, state, r.pool_eq]
  exact ⟨_, _, _, poolHolds_taken, by simp [poolAddresses, taken], by simp [poolAddresses]⟩

def RightStep (r : PoolRun) (pre : List PoolCall) (c : PoolCall) : Prop :=
  (c = .getIPAddress → GetsIfLeft (r.state pre)) ∧ r.Conserved (r.state (pre ++ [c]))

theorem conserves_iff_rightStep (r : PoolRun) :
    r.Conserves ↔ ∀ pre c, Occurs r.calls pre c → r.RightStep pre c := by
  constructor
  · intro h pre c hocc
    exact ⟨fun hc => h.gets pre (hc ▸ hocc), h.conserved _ hocc⟩
  · intro h
    refine ⟨fun pre hpre => ?_, fun pre hocc => (h pre _ hocc).1 rfl⟩
    cases pre using List.reverseRecOn with
    | nil =>
      obtain ⟨pool, queue, items, hholds, hsize, -⟩ := r.taken_nil
      exact (conserved_iff hholds).mpr hsize
    | append_singleton pre c => exact (h pre c hpre).2

theorem taken_snoc (h : r.Taken pre) (hc : c = .getIPAddress ∧ pre.length < capacity) :
    r.Taken (pre ++ [c]) := by
  obtain ⟨rfl, hlt⟩ := hc
  obtain ⟨pool, queue, items, hholds, hsize, hcount⟩ := h
  cases items with
  | nil =>
    rw [List.length_nil] at hcount
    omega
  | cons ipAddress items =>
    obtain ⟨pool', hsize', hholds'⟩ := hholds.get
    rw [Taken, state, after_snoc]
    refine ⟨pool', _, items, hholds', ?_, ?_⟩
    · rw [hsize', hsize, List.length_cons, sizePred, if_neg (Nat.succ_ne_zero _)]
      rfl
    · rw [List.length_cons] at hcount
      rw [List.length_append, List.length_singleton]
      omega

theorem rightStep_iff (h : r.Taken pre) (hocc : Occurs r.calls pre c) :
    r.RightStep pre c ↔ c = .getIPAddress ∧ pre.length < capacity := by
  obtain ⟨pool, queue, items, hholds, hsize, hcount⟩ := id h
  constructor
  · intro hright
    cases c with
    | getIPAddress =>
      have hitems := (getsIfLeft_iff hholds).mp (hright.1 rfl)
      have hpos := List.length_pos_iff.mpr hitems
      exact ⟨rfl, by omega⟩
    | returnIPAddress ipAddress =>
      obtain ⟨pool', hsize', hholds'⟩ := hholds.giveBack (r.returned pre ipAddress hocc)
      have hconserved := hright.2
      rw [state, after_snoc] at hconserved
      have hcounter := (conserved_iff hholds').mp hconserved
      rw [hsize', hsize, List.length_append, List.length_singleton] at hcounter
      omega
  · intro hc
    refine ⟨fun _ => (getsIfLeft_iff hholds).mpr fun hnil => ?_, ?_⟩
    · rw [hnil, List.length_nil] at hcount
      omega
    · obtain ⟨pool', queue', items', hholds', hsize', -⟩ := taken_snoc h hc
      exact (conserved_iff hholds').mpr hsize'

/-- Only runs that take addresses, and not more than there are, keep the pool's books. -/
theorem conserves_iff (r : PoolRun) :
    r.Conserves ↔ (∀ c ∈ r.calls, c = .getIPAddress) ∧ r.calls.length ≤ capacity := by
  rw [conserves_iff_rightStep, ← forall_occurs_length_iff]
  exact forall_steps_iff r.taken_nil (fun pre c hocc h => rightStep_iff h hocc)
    fun pre c _ h hc => taken_snoc h hc

theorem addresses_conserved (r : PoolRun)
    (hleft : ∀ pre, Occurs r.calls pre .getIPAddress → (r.state pre).held.length < capacity)
    (hpre : pre <+: r.calls) :
    ∃ pool queue items, PoolHolds (r.state pre) pool queue items := by
  refine invariant_of_steps
    (I := fun pre => ∃ pool queue items, PoolHolds (r.state pre) pool queue items)
    (C := fun pre c => c = .getIPAddress → (r.state pre).held.length < capacity)
    ?_ (fun pre c hocc h hc => ?_) (fun pre c hocc hc => hleft pre (hc ▸ hocc)) pre hpre
  · obtain ⟨pool, queue, items, hholds, -⟩ := r.taken_nil
    exact ⟨pool, queue, items, hholds⟩
  · obtain ⟨pool, queue, items, hholds⟩ := h
    rw [state, after_snoc]
    cases c with
    | getIPAddress =>
      cases items with
      | nil =>
        have hadd := hholds.length_add
        have hlt := hc rfl
        rw [List.length_nil] at hadd
        omega
      | cons ipAddress items =>
        obtain ⟨pool', -, hholds'⟩ := hholds.get
        exact ⟨pool', _, items, hholds'⟩
    | returnIPAddress ipAddress =>
      obtain ⟨pool', -, hholds'⟩ := hholds.giveBack (r.returned pre ipAddress hocc)
      exact ⟨pool', _, _, hholds'⟩

def givenBack : PoolRun where
  creation := Heap.succeeding id
  pool := taken 0
  created := by
    obtain ⟨p, hp⟩ := createIPMultecaste_succeeding id
    rw [hp]
  calls := [.getIPAddress, .returnIPAddress (addressAt 0)]
  returned := by
    intro pre ipAddress hocc
    rcases (occurs_snoc [PoolCall.getIPAddress] pre _ (.returnIPAddress (addressAt 0))).mp hocc with
      hocc | hlast
    · rcases (occurs_snoc [] pre _ PoolCall.getIPAddress).mp hocc with hocc | hlast
      · exact absurd hocc (not_occurs_nil _ _)
      · cases hlast.2
    · obtain ⟨rfl, heq⟩ := hlast
      cases heq
      simp [after, PoolHistory.call, getIPAddress_taken]

theorem not_conserves_givenBack : ¬ givenBack.Conserves := by
  intro h
  have htaken : givenBack.Taken ([] ++ [.getIPAddress]) :=
    taken_snoc givenBack.taken_nil ⟨rfl, by decide⟩
  have hocc : Occurs givenBack.calls [.getIPAddress] (.returnIPAddress (addressAt 0)) :=
    List.prefix_rfl
  have hright := givenBack.conserves_iff_rightStep.mp h _ _ hocc
  cases ((rightStep_iff htaken hocc).mp hright).1

end PoolRun

def getAddresses : ℕ → Option IPPoolAddr → Option (List (IPAddrErr × Option CStr))
  | 0, _ => some []
  | n + 1, pool => do
    let pool ← pool
    let (err, ipAddress, pool) := getIPAddress pool
    let rest ← getAddresses n (some pool)
    pure ((err, ipAddress) :: rest)

structure ReachedPool where
  creation : Heap
  start : IPPoolAddr
  created : (createIPMultecaste creation).1 = some start
  calls : List PoolCall
  pool : IPPoolAddr
  reached : (after PoolHistory.call ⟨some start, []⟩ calls).pool = some pool

namespace ReachedPool

/-- If the address is refused the pool is as it was, and so are the pointer and what is handed out
later. -/
def RefusedKeeps (r : ReachedPool) (ipAddress : Option CStr) : Prop :=
  (returnIPAddress r.pool ipAddress).1 ≠ .success →
    (returnIPAddress r.pool ipAddress).2.2 = some r.pool ∧
      (returnIPAddress r.pool ipAddress).2.1 = ipAddress ∧
      ∀ n, getAddresses n (returnIPAddress r.pool ipAddress).2.2 = getAddresses n (some r.pool)

/-- The queue has not been destroyed, so its magic number and its size are those of the creation. -/
def Ready (s : PoolHistory) : Prop :=
  ∀ pool, s.pool = some pool →
    pool.queueAddr.magicNumber = Queue.megicNum ∧ pool.queueAddr.size = capacity

theorem ready_get {pool : IPPoolAddr} :
    (getIPAddress pool).2.2.queueAddr.magicNumber = pool.queueAddr.magicNumber ∧
      (getIPAddress pool).2.2.queueAddr.size = pool.queueAddr.size := by
  rw [getIPAddress, Queue.remove]
  split_ifs <;> exact ⟨rfl, rfl⟩

theorem ready_return {pool pool' : IPPoolAddr} {ipAddress : Option CStr}
    (h : (returnIPAddress pool ipAddress).2.2 = some pool') :
    pool'.queueAddr.magicNumber = pool.queueAddr.magicNumber ∧
      pool'.queueAddr.size = pool.queueAddr.size := by
  rw [returnIPAddress, Queue.insert] at h
  split_ifs at h <;> cases h <;> exact ⟨rfl, rfl⟩

theorem ready_call (s : PoolHistory) (c : PoolCall) (h : Ready s) : Ready (s.call c) := by
  intro pool' hpool'
  cases hpool : s.pool with
  | none =>
    simp only [PoolHistory.call, hpool] at hpool'
    cases hpool'
  | some pool =>
    obtain ⟨hmagic, hsize⟩ := h pool hpool
    rw [← hmagic, ← hsize]
    cases c with
    | getIPAddress =>
      have heq : (getIPAddress pool).2.2 = pool' := by
        simp only [PoolHistory.call, hpool] at hpool'
        split at hpool' <;> simp_all
      exact heq ▸ ready_get
    | returnIPAddress ipAddress =>
      have heq : (returnIPAddress pool (some ipAddress)).2.2 = some pool' := by
        simp only [PoolHistory.call, hpool] at hpool'
        split at hpool' <;> simp_all
      exact ready_return heq

theorem ready (r : ReachedPool) :
    r.pool.queueAddr.magicNumber = Queue.megicNum ∧ r.pool.queueAddr.size = capacity := by
  refine invariant (P := Ready) ready_call ?_ r.calls r.pool r.reached
  intro pool hpool
  cases hpool
  rw [createIPMultecaste_of_some r.created]
  exact ⟨rfl, rfl⟩

theorem refusedKeeps_iff (r : ReachedPool) (ipAddress : Option CStr) :
    r.RefusedKeeps ipAddress ↔ ipAddress = none ∨ r.pool.queueAddr.nItems ≠ capacity := by
  obtain ⟨hmagic, hsize⟩ := r.ready
  cases ipAddress with
  | none =>
    refine iff_of_true (fun _ => ?_) (.inl rfl)
    exact ⟨rfl, rfl, fun _ => rfl⟩
  | some ipAddress =>
    rw [or_iff_right (Option.some_ne_none _)]
    constructor
    · intro h hfull
      have hinsert : r.pool.queueAddr.insert (some ipAddress) = (.overflow, r.pool.queueAddr) := by
        simp [Queue.insert, hmagic, hsize, hfull]
      have hreturn : returnIPAddress r.pool (some ipAddress) =
          (.insertFail, some ipAddress, none) := by
        rw [returnIPAddress, hinsert]
        rfl
      rw [RefusedKeeps, hreturn] at h
      cases (h (show IPAddrErr.insertFail ≠ .success by decide)).1
    · intro hroom h
      have hsuccess : (returnIPAddress r.pool (some ipAddress)).1 = .success := by
        simp [returnIPAddress, Queue.insert, hmagic, hsize, hroom]
      exact absurd hsuccess h

def fresh : ReachedPool where
  creation := Heap.succeeding id
  start := taken 0
  created := by
    obtain ⟨p, hp⟩ := createIPMultecaste_succeeding id
    rw [hp]
  calls := []
  pool := taken 0
  reached := rfl

theorem not_refusedKeeps_fresh : ¬ fresh.RefusedKeeps (some (addressAt 0)) := by
  intro h
  have hpool := (h (by decide)).1
  revert hpool
  decide

end ReachedPool
end ChatProject
