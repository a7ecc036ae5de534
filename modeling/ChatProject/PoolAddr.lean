import ChatProject.Queue
import Mathlib.Logic.Function.Iterate

/-!
# The pool of multicast addresses

Fifty addresses are queued when the pool is created. A pool from which `k`
addresses were taken is described in closed form: the ring is never emptied of its
texts, so taking the next address always succeeds and the ring wraps.
-/

namespace ChatProject
open Memory

inductive IPAddrErr
  | notExist
  | insertFail
  | success
  deriving DecidableEq

structure IPPoolAddr where
  queueAddr : Queue CStr
  poolSize : ℕ
  deriving DecidableEq

namespace IPPoolAddr

def capacity : ℕ := 50

def decimal (n : ℕ) : CStr :=
  let digit (d : ℕ) : UInt8 := UInt8.ofNat (48 + d)
  if n < 10 then [digit n]
  else if n < 100 then [digit (n / 10), digit (n % 10)]
  else [digit (n / 100), digit (n / 10 % 10), digit (n % 10)]

def ipAddress (addr0 addr1 : ℕ) : CStr :=
  [50, 50, 57, 46, 49, 46] ++ decimal addr0 ++ [46] ++ decimal addr1

/-- `none` when an allocation or an insertion fails: the queue has then been destroyed
under the pool, whose further use is undefined. -/
def insertAllIPAddrToList : ℕ → Queue CStr → ℕ → ℕ → Heap → Option (Queue CStr) × Heap
  | 0, q, _, _, h => (some q, h)
  | n + 1, q, addr0, addr1, h =>
    if h.next = 0 then (none, h.rest)
    else
      match q.insert (some (ipAddress addr0 addr1)) with
      | (.ok, q') =>
        let addr1 := (addr1 + 1) % 256
        if addr1 = 255 then insertAllIPAddrToList n q' ((addr0 + 1) % 256) 1 h.rest
        else insertAllIPAddrToList n q' addr0 addr1 h.rest
      | _ => (none, h.rest)

def createIPMultecaste (h : Heap) : Option IPPoolAddr × Heap :=
  if h.next = 0 then (none, h.rest)
  else
    match Queue.create blank capacity h.rest with
    | (none, h) => (none, h)
    | (some q, h) =>
      match insertAllIPAddrToList capacity q 0 1 h with
      | (none, h) => (none, h)
      | (some q, h) => (some ⟨q, capacity⟩, h)

def getIPAddress (pool : IPPoolAddr) : IPAddrErr × Option CStr × IPPoolAddr :=
  match pool.queueAddr.remove with
  | (.ok, res, q) => (.success, res, ⟨q, sizePred pool.poolSize⟩)
  | (_, _, q) => (.insertFail, none, ⟨q, pool.poolSize⟩)

/-- The address is `*_Ipaddress`, which comes second in the result. For the pool `none` is one
whose queue has been destroyed under it. -/
def returnIPAddress (pool : IPPoolAddr) (ipAddress : Option CStr) :
    IPAddrErr × Option CStr × Option IPPoolAddr :=
  if ipAddress.isNone then (.notExist, ipAddress, some pool)
  else
    match pool.queueAddr.insert ipAddress with
    | (.ok, q) => (.success, none, some ⟨q, pool.poolSize⟩)
    | _ => (.insertFail, ipAddress, none)

def addressAt (k : ℕ) : CStr := ipAddress 0 (k + 1)

def taken (k : ℕ) : IPPoolAddr where
  queueAddr := ⟨(List.range capacity).map (fun i => some (addressAt i)), capacity, k % capacity, 0,
    Nat.iterate sizePred k capacity, Queue.megicNum⟩
  poolSize := Nat.iterate sizePred k capacity

theorem createIPMultecaste_succeeding (p : ℕ → ℕ) :
    ∃ p', createIPMultecaste (Heap.succeeding p) = (some (taken 0), Heap.succeeding p') :=
  ⟨fun n => p (n + 53), by rfl⟩

theorem insertAllIPAddrToList_of_some {n : ℕ} {q q' : Queue CStr} {addr0 addr1 : ℕ} {h : Heap}
    (hq : (insertAllIPAddrToList n q addr0 addr1 h).1 = some q') (p : ℕ → ℕ) :
    (insertAllIPAddrToList n q addr0 addr1 (Heap.succeeding p)).1 = some q' := by
  induction n generalizing q addr0 addr1 h p with
  | zero => exact hq
  | succ n ih =>
    have hp : (Heap.succeeding p).next ≠ 0 := Nat.succ_ne_zero (p 0)
    rw [insertAllIPAddrToList] at hq ⊢
    split_ifs at hq with h0
    rw [if_neg hp]
    split at hq
    next q₁ hinsert =>
      simp only at hq ⊢
      split_ifs at hq ⊢
      · exact ih hq _
      · exact ih hq _
    next => cases hq

theorem createIPMultecaste_of_some {h : Heap} {pool : IPPoolAddr}
    (hpool : (createIPMultecaste h).1 = some pool) : pool = taken 0 := by
  rw [createIPMultecaste] at hpool
  split_ifs at hpool
  split at hpool
  next => cases hpool
  next q h₁ hcreate =>
    have hqueue : q =
        ⟨List.replicate capacity none, capacity, blank, blank, blank, Queue.megicNum⟩ := by
      rw [Queue.create, if_neg (by decide)] at hcreate
      split_ifs at hcreate
      · cases hcreate
      · cases hcreate
      · cases hcreate
        rfl
    split at hpool
    next => cases hpool
    next q' h₂ hall =>
      have hsome := insertAllIPAddrToList_of_some (congrArg Prod.fst hall) id
      have hring : (insertAllIPAddrToList capacity q 0 1 (Heap.succeeding id)).1 =
          some (taken 0).queueAddr := by
        rw [hqueue]
        rfl
      rw [hring] at hsome
      cases hsome
      cases hpool
      rfl

theorem getIPAddress_taken (k : ℕ) :
    getIPAddress (taken k) = (.success, some (addressAt (k % capacity)), taken (k + 1)) := by
  have hk : k % 50 < 50 := Nat.mod_lt k (by omega)
  have hget : ((List.range 50).map (fun i => some (addressAt i))).getD (k % 50) none =
      some (addressAt (k % 50)) := by
    simp [hk]
  have hhead : (k % 50 + 1) % 50 = (k + 1) % 50 := by omega
  simp only [getIPAddress, Queue.remove, taken, capacity, ne_eq, not_true_eq_false, ↓reduceIte,
    hget, hhead, Function.iterate_succ_apply', Nat.reduceEqDiff]

def placeOf (ip : CStr) : ℕ := (ip.drop 8).foldl (fun n c => 10 * n + (c.toNat - 48)) 0 - 1

theorem placeOf_addressAt : ∀ i < capacity, placeOf (addressAt i) = i := by
  decide

theorem addressAt_injOn {i j : ℕ} (hi : i < capacity) (hj : j < capacity)
    (h : addressAt i = addressAt j) : i = j := by
  rw [← placeOf_addressAt i hi, ← placeOf_addressAt j hj, h]

theorem addressAt_text : ∀ i < capacity, addressAt i ≠ [] ∧ 0 ∉ addressAt i ∧
    (addressAt i).length ≤ 15 := by
  decide

end IPPoolAddr
end ChatProject
