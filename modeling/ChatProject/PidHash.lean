import ChatProject.DataBase
import ChatProject.MapInsertion

/-!
# The chat windows of a client

A client keeps the processes of its chat windows in a map keyed by group names. `RemovePID`
tests the result of the removal the wrong way round: it stops no process whose entry it has
removed, and where there is no entry it goes on to the `kill`s, with the pointer that
`HashMap_Remove` has not set, and destroys the client.
-/

namespace ChatProject
open Memory HashMap Run

section Model
variable {σ K : Type}

structure PID where
  sender : ℤ
  listen : ℤ
  deriving DecidableEq

inductive ClientStatus
  | connected
  | disconnected

structure ClientNet where
  socket : ℤ
  status : ClientStatus

structure Client (σ K : Type) where
  clientNet : ClientNet
  serverPort : ℤ
  pidHash : HashMap σ K PID

def groupKeys (read : σ → K → CStr) : Keys σ K CStr where
  read := read
  hash := DataBase.stringHash
  equal := DataBase.stringsEqual
  equivalence := by
    constructor <;> simp +contextual [DataBase.stringsEqual]
  hash_eq := by
    intro a b h
    have heq : a = b := by simpa [DataBase.stringsEqual] using h
    rw [heq]

/-- What a call returns, the processes that it sends `SIGINT` and the client, `none` once it
is freed. -/
structure PIDOutcome (σ K : Type) where
  result : ℤ
  killed : List ℤ
  client : Option (Client σ K)

namespace Client

def pidHashCap : ℕ := 40

def initClientNet (sock : ℤ) (h : Heap) : Option ClientNet × Heap :=
  if h.next = 0 then (none, h.rest) else (some ⟨sock, .connected⟩, h.rest)

/-- `none` also stands for `ConnectNewClient` reading through a `NULL` that it is given. -/
def connectUser (read : σ → K → CStr) (sock serverPort : ℤ) (h : Heap) :
    Option (Client σ K) × Heap :=
  if h.next = 0 then (none, h.rest)
  else
    match initClientNet sock h.rest with
    | (none, h) => (none, h)
    | (some clientNet, h) =>
      match HashMap.create pidHashCap (groupKeys read).hashFunc (groupKeys read).keysEqualFunc h
        with
      | (none, h) => (none, h)
      | (some pidHash, h) => (some ⟨clientNet, serverPort, pidHash⟩, h)

/-- The socket is closed and both structs are freed; the map is not. -/
def destroyClient (_ : Client σ K) : Option (Client σ K) := none

def insertPID (client : Client σ K) (junk : Ptr) (mem : σ) (pidSender pidListener : ℤ)
    (groupName : K) (h : Heap) : PIDOutcome σ K :=
  if h.next = 0 then ⟨-1, [], some client⟩
  else
    match client.pidHash.insert junk mem (some groupName) ⟨pidSender, pidListener⟩ h.rest with
    | (.success, pidHash, _) => ⟨1, [], some { client with pidHash := pidHash }⟩
    | (_, pidHash, _) => ⟨-1, [], some { client with pidHash := pidHash }⟩

/-- `pidsValue` is what the pointer of that name points at before anything sets it, `none` if it
points at no memory; then the program ends here. -/
def removePID (client : Client σ K) (mem : σ) (pidsValue : Option PID) (groupName : K) :
    Option (PIDOutcome σ K) :=
  match client.pidHash.remove mem (some groupName) with
  | (.success, _, pidHash) => some ⟨1, [], some { client with pidHash := pidHash }⟩
  | (_, _, pidHash) =>
    match pidsValue with
    | none => none
    | some pids =>
      some ⟨-1, [pids.sender, pids.listen], destroyClient { client with pidHash := pidHash }⟩

theorem connectUser_pidHash {read : σ → K → CStr} {sock serverPort : ℤ} {h : Heap}
    {client : Client σ K} (hc : (connectUser read sock serverPort h).1 = some client) :
    ∃ n, 0 < n ∧ client.pidHash =
      fresh pidHashCap n (groupKeys read).hashFunc (groupKeys read).keysEqualFunc := by
  rw [connectUser, initClientNet] at hc
  split_ifs at hc
  dsimp only at hc
  split at hc
  · cases hc
  · rename_i pidHash h' hcreate
    cases hc
    exact create_some (congrArg Prod.fst hcreate)

theorem insertPID_eq (client : Client σ K) (junk : Ptr) (mem : σ) (pidSender pidListener : ℤ)
    (groupName : K) (h : Heap) :
    ∃ result pidHash, client.insertPID junk mem pidSender pidListener groupName h =
        ⟨result, [], some { client with pidHash := pidHash }⟩ ∧
      (pidHash = client.pidHash ∨ ∃ h', pidHash =
        (client.pidHash.insert junk mem (some groupName) ⟨pidSender, pidListener⟩ h').2.1) := by
  rw [insertPID]
  split_ifs
  · exact ⟨-1, client.pidHash, rfl, .inl rfl⟩
  · split
    · rename_i pidHash h' heq
      exact ⟨1, pidHash, rfl, .inr ⟨h.rest, by rw [heq]⟩⟩
    · rename_i pidHash h' _ heq
      exact ⟨-1, pidHash, rfl, .inr ⟨h.rest, by rw [heq]⟩⟩

theorem removePID_success {client : Client σ K} {mem : σ} {groupName : K}
    (h : (client.pidHash.remove mem (some groupName)).1 = .success) (pidsValue : Option PID) :
    ∃ client', client.removePID mem pidsValue groupName = some ⟨1, [], some client'⟩ := by
  rw [removePID]
  split
  · exact ⟨_, rfl⟩
  · rename_i hne heq
    rw [heq] at h
    exact absurd h hne

theorem removePID_failure {client : Client σ K} {mem : σ} {groupName : K}
    (h : (client.pidHash.remove mem (some groupName)).1 ≠ .success) (pidsValue : Option PID) :
    (client.removePID mem pidsValue groupName).bind PIDOutcome.client = none := by
  rw [removePID]
  split
  · rename_i heq
    rw [heq] at h
    exact absurd rfl h
  · cases pidsValue <;> rfl

end Client

inductive PIDCall (K : Type)
  | insertPID (pidSender pidListener : ℤ) (groupName : K) (junk : Ptr) (heap : Heap)
  | removePID (groupName : K) (pidsValue : Option PID)

def PIDCall.Allocates : PIDCall K → Prop
  | .insertPID _ _ _ _ heap => ∀ n, heap n ≠ 0
  | .removePID _ _ => True

def PIDCall.IsRemoval : PIDCall K → Prop
  | .insertPID _ _ _ _ _ => False
  | .removePID _ _ => True

def Client.call (client : Client σ K) (mem : σ) : PIDCall K → Option (PIDOutcome σ K)
  | .insertPID pidSender pidListener groupName junk heap =>
    some (client.insertPID junk mem pidSender pidListener groupName heap)
  | .removePID groupName pidsValue => client.removePID mem pidsValue groupName

def Client.next (client : Option (Client σ K)) (c : σ × PIDCall K) : Option (Client σ K) :=
  client.bind fun client => (client.call c.1 c.2).bind PIDOutcome.client

end Model

namespace HashMap
variable {σ K C V : Type} {keys : Keys σ K C}

theorem mem_entries_set {m : HashMap σ K V} {b : ℕ} (hb : b < m.data.length) {c : Chain K V}
    {n : ℕ} {e : DataItem K V}
    (he : e ∈ entries { m with data := m.data.set b c, numOfItems := n }) :
    (∃ l, c = some l ∧ e ∈ l.nodes.map Prod.snd) ∨ e ∈ m.entries := by
  obtain ⟨b', he⟩ := (mem_entries _ e).mp he
  rw [bucket, chainAt_set m b hb] at he
  split_ifs at he with hbb
  · cases c with
    | none => cases he
    | some l => exact .inl ⟨l, rfl, he⟩
  · exact .inr ((m.mem_entries e).mpr ⟨b', he⟩)

theorem mem_entries_of_chainAt {m : HashMap σ K V} {b : ℕ} {l : LinkedList (DataItem K V)}
    (hl : m.chainAt b = some l) {e : DataItem K V} (he : e ∈ l.nodes.map Prod.snd) :
    e ∈ m.entries :=
  m.bucket_subset (b := b) (by rwa [bucket_of_chainAt hl])

theorem mem_entries_pushItem {m : HashMap σ K V} {b : ℕ} (hb : b < m.data.length)
    {chain : Chain K V} {item e : DataItem K V} {h : Heap}
    (he : e ∈ (m.pushItem b chain item h).2.1.entries) :
    e = item ∨ (∃ l, chain = some l ∧ e ∈ l.nodes.map Prod.snd) ∨ e ∈ m.entries := by
  obtain ⟨c, n, heq, hc⟩ := m.pushItem_shape b chain item h
  rw [heq] at he
  rcases mem_entries_set hb he with ⟨l', hl', he⟩ | he
  · obtain ⟨l, hl, hmem⟩ := hc l' hl'
    exact (hmem e he).imp_right fun he => .inl ⟨l, hl, he⟩
  · exact .inr (.inr he)

theorem mem_entries_insert {m : HashMap σ K V} (hm : InUse keys m) {junk : Ptr} {mem : σ} {k : K}
    {v : V} {h : Heap} {e : DataItem K V}
    (he : e ∈ (m.insert junk mem (some k) v h).2.1.entries) : e = ⟨v, k⟩ ∨ e ∈ m.entries := by
  have hb := hm.index_lt mem k
  cases hk : m.stored mem k with
  | some e₀ =>
    rw [insert_found hm hk] at he
    exact .inr he
  | none =>
    cases hc : m.chainAt (m.index mem k) with
    | none =>
      rw [insert_missing_none hm hc] at he
      refine (mem_entries_pushItem hb he).imp_right fun he => he.resolve_left ?_
      rintro ⟨l, hl, hmem⟩
      split_ifs at hl
      cases hl
      cases hmem
    | some l =>
      rw [insert_missing_some hm hk hc] at he
      refine (mem_entries_pushItem hb he).imp_right fun he => ?_
      obtain ⟨l', hl', hmem⟩ | he := he
      · exact mem_entries_of_chainAt (hc.trans hl') hmem
      · exact he

theorem remove_success {m : HashMap σ K V} (hm : InUse keys m) {mem : σ} {k : K}
    (h : (m.remove mem (some k)).1 = .success) :
    ∃ e ∈ m.entries, keys.classOf mem e.key = keys.classOf mem k := by
  simp only [remove, hm.valid, ↓reduceIte] at h
  cases hc : m.chainAt (m.index mem k) with
  | none => simp [hc] at h
  | some l =>
    simp only [hc] at h
    cases hf : l.visible.find? (fun n => m.isEqual mem k n.2) with
    | none => simp [searchChain_none hf] at h
    | some n =>
      have hn : n ∈ l.nodes := List.takeWhile_subset _ (List.mem_of_find?_eq_some hf)
      have hequal := List.find?_some hf
      exact ⟨n.2, mem_entries_of_chainAt hc (List.mem_map_of_mem hn), (isEqual_iff hm).mp hequal⟩

end HashMap

/-- A client from `Connect_User` and the calls on it, each with the memory that it finds. The
allocations succeed, and the memory of a name does not change while it is stored. -/
structure ChatRun {σ K : Type} (read : σ → K → CStr) where
  sock : ℤ
  serverPort : ℤ
  creation : Heap
  client : Client σ K
  connected : (Client.connectUser read sock serverPort creation).1 = some client
  calls : List (σ × PIDCall K)
  allocates : ∀ c ∈ calls, c.2.Allocates
  unchanged : ∀ pre c c', Occurs calls (pre ++ [c]) c' →
    ∀ client', after Client.next (some client) (pre ++ [c]) = some client' →
      ∀ e ∈ client'.pidHash.entries, read c'.1 e.key = read c.1 e.key

namespace ChatRun
variable {σ K : Type} {read : σ → K → CStr}

def state (r : ChatRun read) (pre : List (σ × PIDCall K)) : Option (Client σ K) :=
  after Client.next (some r.client) pre

/-- The processes recorded by the calls so far: an opened group keeps its first record. -/
def record (f : FiniteMap (groupKeys read) PID) (c : σ × PIDCall K) :
    FiniteMap (groupKeys read) PID :=
  match c.2 with
  | .insertPID pidSender pidListener groupName junk heap =>
    (f.call c.1 (.insert groupName ⟨pidSender, pidListener⟩ junk heap)).2
  | .removePID groupName _ => (f.call c.1 (.remove groupName)).2

def recorded (_ : ChatRun read) (pre : List (σ × PIDCall K)) : FiniteMap (groupKeys read) PID :=
  after record ∅ pre

def due (f : FiniteMap (groupKeys read) PID) (c : σ × PIDCall K) : List ℤ :=
  match c.2 with
  | .insertPID _ _ _ _ _ => []
  | .removePID groupName _ =>
    match f.lookup ((groupKeys read).classOf c.1 groupName) with
    | some item => [item.value.sender, item.value.listen]
    | none => []

/-- The call stops the processes that it has to and no other, the client and its connection
remain, and after a removal the map has the entries that are still recorded. -/
def RightCall (r : ChatRun read) (pre : List (σ × PIDCall K)) (c : σ × PIDCall K) : Prop :=
  ∃ client result client', r.state pre = some client ∧
    client.call c.1 c.2 = some ⟨result, due (r.recorded pre) c, some client'⟩ ∧
    client'.clientNet = client.clientNet ∧ client'.serverPort = client.serverPort ∧
    (c.2.IsRemoval → (r.recorded (pre ++ [c])).entries =
      (client'.pidHash.entries.map (tagged (groupKeys read) c.1) : Multiset _))

def KeepsBooks (r : ChatRun read) : Prop := ∀ pre c, Occurs r.calls pre c → r.RightCall pre c

variable {r : ChatRun read} {pre : List (σ × PIDCall K)} {c : σ × PIDCall K}

theorem state_snoc : r.state (pre ++ [c]) = Client.next (r.state pre) c := after_snoc _ _ _ _

theorem recorded_snoc : r.recorded (pre ++ [c]) = record (r.recorded pre) c := after_snoc _ _ _ _

/-- As long as no call is a removal, whatever the map holds is recorded. -/
def Known (r : ChatRun read) (pre : List (σ × PIDCall K)) : Prop :=
  ∃ client, r.state pre = some client ∧ InUse (groupKeys read) client.pidHash ∧
    ∀ c, Occurs r.calls pre c → ∀ e ∈ client.pidHash.entries,
      (groupKeys read).classOf c.1 e.key ∈ r.recorded pre

theorem known_nil : r.Known [] := by
  obtain ⟨n, hn, hfresh⟩ := Client.connectUser_pidHash r.connected
  refine ⟨r.client, rfl, ?_, ?_⟩
  · rw [hfresh]
    exact inUse_fresh hn
  · intro c _ e he
    rw [hfresh, entries_fresh] at he
    cases he

theorem mem_record_insertPID {f : FiniteMap (groupKeys read) PID} {mem : σ}
    {pidSender pidListener : ℤ} {groupName : K} {junk : Ptr} {heap : Heap}
    {q : (groupKeys read).Class} :
    q ∈ record f (mem, .insertPID pidSender pidListener groupName junk heap) ↔
      q = (groupKeys read).classOf mem groupName ∨ q ∈ f := by
  simp only [record, FiniteMap.call]
  cases hl : f.lookup ((groupKeys read).classOf mem groupName) with
  | some item =>
    have hmem : (groupKeys read).classOf mem groupName ∈ f := Finmap.mem_iff.mpr ⟨item, hl⟩
    constructor
    · exact .inr
    · rintro (rfl | hq)
      · exact hmem
      · exact hq
  | none => exact Finmap.mem_insert

theorem known_insertPID (h : r.Known pre) (hocc : Occurs r.calls pre c)
    (hc : ¬ c.2.IsRemoval) : r.Known (pre ++ [c]) := by
  obtain ⟨client, hstate, huse, hentries⟩ := h
  have hstored := hentries c hocc
  obtain ⟨mem, call⟩ := c
  cases call with
  | removePID groupName pidsValue => exact absurd trivial hc
  | insertPID pidSender pidListener groupName junk heap =>
    obtain ⟨result, pidHash, heq, hpidHash⟩ :=
      client.insertPID_eq junk mem pidSender pidListener groupName heap
    have hafter : r.state (pre ++ [(mem, .insertPID pidSender pidListener groupName junk heap)]) =
        some { client with pidHash := pidHash } := by
      rw [state_snoc, hstate]
      simp only [Client.next, Client.call, Option.bind_some, heq]
    refine ⟨_, hafter, ?_, fun c' hocc' e he => ?_⟩
    · rcases hpidHash with rfl | ⟨heap', rfl⟩
      · exact huse
      · exact huse.insert _ _ _ _ _
    · have hread := r.unchanged pre _ c' hocc' _ hafter e he
      have hclass : (groupKeys read).classOf c'.1 e.key = (groupKeys read).classOf mem e.key :=
        Keys.classOf_congr hread
      rw [hclass, recorded_snoc, mem_record_insertPID]
      rcases hpidHash with rfl | ⟨heap', rfl⟩
      · exact .inr (hstored e he)
      · rcases mem_entries_insert huse he with rfl | he
        · exact .inl rfl
        · exact .inr (hstored e he)

/-- A removal of a recorded group stops nobody, and any other one destroys the client. -/
theorem rightCall_iff (h : r.Known pre) (hocc : Occurs r.calls pre c) :
    r.RightCall pre c ↔ ¬ c.2.IsRemoval := by
  obtain ⟨client, hstate, huse, hentries⟩ := h
  have hstored := hentries c hocc
  obtain ⟨mem, call⟩ := c
  cases call with
  | insertPID pidSender pidListener groupName junk heap =>
    refine iff_of_true ?_ id
    obtain ⟨result, pidHash, heq, -⟩ :=
      client.insertPID_eq junk mem pidSender pidListener groupName heap
    exact ⟨client, result, _, hstate, congrArg some heq, rfl, rfl, False.elim⟩
  | removePID groupName pidsValue =>
    refine iff_of_false ?_ (not_not.mpr trivial)
    rintro ⟨client', result, after, hstate', hcall, -⟩
    obtain rfl := Option.some.inj (hstate.symm.trans hstate')
    rw [Client.call] at hcall
    by_cases hremove : (client.pidHash.remove mem (some groupName)).1 = .success
    · obtain ⟨e, he, hclass⟩ := remove_success huse hremove
      have hrecorded := hstored e he
      rw [hclass] at hrecorded
      obtain ⟨item, hitem⟩ := Finmap.mem_iff.mp hrecorded
      obtain ⟨client', heq⟩ := Client.removePID_success hremove pidsValue
      have hdue := congrArg (Option.map PIDOutcome.killed) (heq.symm.trans hcall)
      simp [due, hitem] at hdue
    · have hfreed := Client.removePID_failure hremove pidsValue
      rw [hcall] at hfreed
      cases hfreed

theorem keepsBooks_iff (r : ChatRun read) : r.KeepsBooks ↔ ∀ c ∈ r.calls, ¬ c.2.IsRemoval :=
  (forall_steps_iff known_nil (fun _ _ hocc h => rightCall_iff h hocc)
    fun _ _ hocc h hc => known_insertPID h hocc hc).trans forall_occurs_iff

def openedAndLeft : ChatRun fun (_ : Unit) (groupName : CStr) => groupName where
  sock := 3
  serverPort := 5555
  creation := Heap.succeeding id
  client := ⟨⟨3, .connected⟩, 5555, fresh Client.pidHashCap 41
    (groupKeys fun _ groupName => groupName).hashFunc
    (groupKeys fun _ groupName => groupName).keysEqualFunc⟩
  connected := rfl
  calls := [((), .insertPID 101 102 [97] 0 (Heap.succeeding id)),
    ((), .removePID [97] (some ⟨0, 0⟩))]
  allocates := by simp [PIDCall.Allocates, Heap.succeeding]
  unchanged := fun _ _ _ _ _ _ _ _ => rfl

theorem not_keepsBooks_openedAndLeft : ¬ openedAndLeft.KeepsBooks := by
  intro h
  let opened : List (Unit × PIDCall CStr) := [((), .insertPID 101 102 [97] 0 (Heap.succeeding id))]
  let left : Unit × PIDCall CStr := ((), .removePID [97] (some ⟨0, 0⟩))
  have hocc : Occurs openedAndLeft.calls opened left := List.prefix_rfl
  obtain ⟨client, result, client', hstate, hcall, -⟩ := h opened left hocc
  have hdue : due (openedAndLeft.recorded opened) left = [101, 102] := by decide
  have hkilled : ((openedAndLeft.state opened).bind fun client =>
      (client.call left.1 left.2).map PIDOutcome.killed) = some [] := by decide
  rw [hstate, Option.bind_some, hcall, hdue] at hkilled
  cases hkilled

end ChatRun
end ChatProject
