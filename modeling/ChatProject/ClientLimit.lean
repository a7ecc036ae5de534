import ChatProject.ClientTimes
import ChatProject.Descriptors

/-!
# The limit on connected clients

`AcceptClient` compares the limit with the number of clients before the new one is listed,
and lets a connection through when they are equal. With exactly the limit connected, one
more client is taken; with fewer, a connection is only lost for want of memory.
-/

namespace ChatProject
open Memory TimeVal Run

namespace TcpServer

theorem length_keptByPass (k : ℕ) : KeptByPass fun s => s.nodes.length ≤ k where
  serve := by
    intro s front todo n hn _ h
    rw [hn, List.length_append, List.length_cons] at h
    rw [serve_nodes, List.length_cons, List.length_append]
    omega
  lose := by
    intro s front todo n hn _ h
    rw [hn, List.length_append, List.length_cons] at h
    rw [lose_nodes, List.length_append]
    omega
  remove := by
    intro s front todo n farewell hn h
    rw [hn, List.length_append, List.length_cons] at h
    rw [removeClient_nodes, List.length_append]
    omega

theorem waitTime_heap (s : TcpServer) : s.waitTime.2.heap = s.heap := by
  rcases s.waitTime_eq with h | h <;> rw [h]

theorem beforePass_conn {s : TcpServer} {x : Round} {fds : Finset ℕ} {sock : ℕ}
    (hx : Permitted s x) (hmaster : s.masterSocket ∈ fds) (hconn : x.conn = some sock) :
    s.beforePass x fds =
      if clientsLimit < s.nodes.length then some s.waitTime.2
      else if s.heap 0 = 0 then some (s.waitTime.2.refuse sock)
      else if s.heap 1 = 0 then none
      else some (s.waitTime.2.enrol sock) := by
  rw [beforePass, if_pos hmaster, hconn, addClientToTheList_eq (waitTime_free hx sock hconn),
    waitTime_nodes, waitTime_heap]
  rfl

theorem enrol_length (s : TcpServer) (sock : ℕ) :
    (s.enrol sock).nodes.length = s.nodes.length + 1 := by
  simp [enrol, nodes]

theorem sock_mem_enrol (s : TcpServer) (sock : ℕ) : sock ∈ (s.enrol sock).socks := by
  simp [Registered.socks_enrol]

/-- The limit holds after the arrival of a connection, and below it the connection is taken. -/
structure LimitsArrival (s : TcpServer) (x : Round) : Prop where
  bounded : ∀ fds s₁, x.selected = .ready fds → s.beforePass x fds = some s₁ →
    s₁.nodes.length ≤ clientsLimit
  admits : ∀ fds sock, x.selected = .ready fds → s.masterSocket ∈ fds → x.conn = some sock →
    s.nodes.length < clientsLimit → ∃ s₁, s.beforePass x fds = some s₁ ∧ sock ∈ s₁.socks

/-- A connection that arrives below the limit finds memory for its client, and one that arrives
at the limit does not. -/
def MemoryLimits (s : TcpServer) (x : Round) : Prop :=
  ∀ fds sock, x.selected = .ready fds → s.masterSocket ∈ fds → x.conn = some sock →
    (s.nodes.length < clientsLimit → s.heap 0 ≠ 0 ∧ s.heap 1 ≠ 0) ∧
      (s.nodes.length = clientsLimit → s.heap 0 = 0 ∨ s.heap 1 = 0)

theorem beforePass_length {s s₁ : TcpServer} {x : Round} (hx : Permitted s x) {fds : Finset ℕ}
    (hb : s.beforePass x fds = some s₁) :
    s₁.nodes.length = s.nodes.length ∨ ∃ sock, s.masterSocket ∈ fds ∧ x.conn = some sock ∧
      s.heap 0 ≠ 0 ∧ s.heap 1 ≠ 0 ∧ s₁.nodes.length = s.nodes.length + 1 := by
  by_cases hmaster : s.masterSocket ∈ fds
  · cases hconn : x.conn with
    | none =>
      rw [beforePass, if_pos hmaster, hconn] at hb
      obtain rfl := Option.some.inj hb
      exact .inl (congrArg List.length s.waitTime_nodes)
    | some sock =>
      rw [beforePass_conn hx hmaster hconn] at hb
      split_ifs at hb with hlimit h0 h1
      · obtain rfl := Option.some.inj hb
        exact .inl (congrArg List.length s.waitTime_nodes)
      · obtain rfl := Option.some.inj hb
        exact .inl (congrArg List.length s.waitTime_nodes)
      · obtain rfl := Option.some.inj hb
        refine .inr ⟨sock, hmaster, rfl, h0, h1, ?_⟩
        rw [enrol_length, waitTime_nodes]
  · rw [beforePass, if_neg hmaster] at hb
    obtain rfl := Option.some.inj hb
    exact .inl (congrArg List.length s.waitTime_nodes)

theorem limitsArrival_iff {s : TcpServer} (ht : s.Timely) {x : Round} (hx : Permitted s x)
    (hs : s.nodes.length ≤ clientsLimit) : s.LimitsArrival x ↔ s.MemoryLimits x := by
  have hlimit : ¬ clientsLimit < s.nodes.length := Nat.not_lt.mpr hs
  constructor
  · intro hlaw fds sock hsel hmaster hconn
    obtain ⟨hbounded, hadmits⟩ := hlaw
    have hb := beforePass_conn hx hmaster hconn
    rw [if_neg hlimit] at hb
    refine ⟨fun hlt => ?_, fun heq => ?_⟩
    · obtain ⟨s₁, hs₁, hmem⟩ := hadmits fds sock hsel hmaster hconn hlt
      rw [hb] at hs₁
      split_ifs at hs₁ with h0 h1
      · obtain rfl := Option.some.inj hs₁
        -- a refused socket is no listed client's, as those are open
        obtain ⟨n, hn, rfl⟩ := List.mem_map.mp hmem
        exact absurd ((Timely.kept.waitTime ht).opened n hn) (waitTime_free hx n.sock hconn)
      · exact ⟨h0, h1⟩
    · by_contra hboth
      obtain ⟨h0, h1⟩ := not_or.mp hboth
      rw [if_neg h0, if_neg h1] at hb
      have hle := hbounded fds _ hsel hb
      rw [enrol_length, waitTime_nodes] at hle
      omega
  · intro hmem
    constructor
    · intro fds s₁ hsel hb
      rcases beforePass_length hx hb with hsame | ⟨sock, hmaster, hconn, h0, h1, hmore⟩
      · exact hsame ▸ hs
      · have hfull := (hmem fds sock hsel hmaster hconn).2
        have hne : s.nodes.length ≠ clientsLimit := fun heq => (hfull heq).elim h0 h1
        omega
    · intro fds sock hsel hmaster hconn hlt
      obtain ⟨h0, h1⟩ := (hmem fds sock hsel hmaster hconn).1 hlt
      refine ⟨s.waitTime.2.enrol sock, ?_, sock_mem_enrol _ _⟩
      rw [beforePass_conn hx hmaster hconn, if_neg hlimit, if_neg h0, if_neg h1]

theorem runServerBody_length {s s' : TcpServer} (hnull : s.NonNull) {x : Round}
    (hx : Permitted s x) (ha : s.LimitsArrival x) (hs : s.nodes.length ≤ clientsLimit)
    (hb : s.runServerBody x = some s') : s'.nodes.length ≤ clientsLimit := by
  have hwait : s.waitTime.2.nodes.length ≤ clientsLimit := s.waitTime_nodes.symm ▸ hs
  cases hsel : x.selected with
  | fails =>
    rw [runServerBody_fails hsel] at hb
    exact Option.some.inj hb ▸ hwait
  | timeout =>
    rw [runServerBody_timeout hsel] at hb
    rw [← Option.some.inj hb]
    exact (length_keptByPass clientsLimit).checkExpiryOfClients hwait
  | ready fds =>
    rw [runServerBody_ready hsel (hx.ready fds hsel).1, Option.map_eq_some_iff] at hb
    obtain ⟨s₁, hs₁, rfl⟩ := hb
    exact (length_keptByPass clientsLimit).receiveAndSend
      (NonNull.kept.beforePass hnull hx hs₁) (ha.bounded fds s₁ hsel hs₁) _ _ _

end TcpServer

open TcpServer

namespace ServerRun
variable {r : ServerRun} {pre : List Round} {x : Round} {s : TcpServer}

/-- At most the limit of clients is connected, after the arrival of a connection and at the top
of the loop, and a connection that arrives below the limit is taken. -/
structure WithinLimit (r : ServerRun) : Prop where
  bounded : ∀ pre s, r.Top pre s → s.nodes.length ≤ clientsLimit
  arrivals : ∀ pre x s, r.Enters pre x s → s.LimitsArrival x

theorem withinLimit_iff (r : ServerRun) :
    r.WithinLimit ↔ ∀ pre x s, r.Enters pre x s → s.MemoryLimits x := by
  have h0 : r.start.nodes.length ≤ clientsLimit := Nat.zero_le _
  have hright : ∀ pre x s, r.Enters pre x s → s.nodes.length ≤ clientsLimit →
      (s.LimitsArrival x ↔ s.MemoryLimits x) :=
    fun pre x s hs hle => limitsArrival_iff (r.timely hs.top) hs.permitted hle
  have hround : ∀ pre x s s', r.Enters pre x s → s.nodes.length ≤ clientsLimit →
      s.MemoryLimits x → s.runServerBody x = some s' → s'.nodes.length ≤ clientsLimit :=
    fun pre x s s' hs hle hC hb => runServerBody_length (r.nonNull hs.top) hs.permitted
      ((hright pre x s hs hle).mpr hC) hle hb
  have hiff := r.forall_enters_iff h0 hright hround
  constructor
  · intro h
    exact hiff.mp h.arrivals
  · intro h
    exact ⟨r.top_of_enters h0 hround h, hiff.mpr h⟩

/-! ## A connection more than the limit -/

def crowd (k : ℕ) : List Round := (List.range k).map fun i => acceptRound (i + 4)

def crowdSetup : Setup := serverSide stillClock

/-- The server after `k` accepted connections, all with the same deadline. -/
structure Crowded (k : ℕ) (s : TcpServer) : Prop where
  master : s.masterSocket = 3 ∧ 3 ∈ s.masterFds ∧ 3 ≤ s.maxSocket
  wait : s.maxWaitTime = ofSeconds 300
  clock : s.clock = stillClock
  heap : ∃ p, s.heap = Heap.succeeding p
  descriptors : ∀ fd ∈ s.descriptors, fd < k + 4
  length : s.nodes.length = k
  nonNull : s.NonNull
  clients : ∀ n ∈ s.nodes, n.timeout = ofSeconds 300 ∧ n.sock ≠ 3

theorem crowded_start : Crowded 0 crowdSetup.start where
  master := by decide
  wait := rfl
  clock := rfl
  heap := ⟨id, rfl⟩
  descriptors := by decide
  length := rfl
  nonNull := crowdSetup.start_nonNull
  clients := by simp [crowdSetup, Setup.start, createServer, nodes]

theorem Crowded.tick {k : ℕ} (h : Crowded k s) : Crowded k s.waitTime.2 := by
  rcases s.waitTime_eq with hw | hw
  · rw [hw]
    exact h
  · rw [hw]
    have hclock : s.clock.rest = stillClock := by
      rw [h.clock]
      rfl
    exact { h with clock := hclock }

theorem Crowded.permitted {k : ℕ} (h : Crowded k s) : Permitted s (acceptRound (k + 4)) where
  valid := by
    intro _ t ht
    rw [waitTime] at ht
    split_ifs at ht
    simp only [getTTL, LinkedList.itrGet, LinkedList.itrBegin, Option.map_map,
      Option.map_eq_some_iff] at ht
    obtain ⟨n, hn, rfl⟩ := ht
    have hdeadline : n.2.clientTimeout = ofSeconds 300 := (h.clients n (List.mem_of_getElem? hn)).1
    have hvalid : ValidWait (timersub (ofSeconds 300) stillClock.now) := by decide
    change ValidWait (timersub n.2.clientTimeout s.clock.now)
    rw [hdeadline, h.clock]
    exact hvalid
  limited := fun hsel => by cases hsel
  ready := by
    intro fds hsel
    cases hsel
    refine ⟨Finset.singleton_nonempty 3, fun fd hfd => ?_⟩
    rw [Finset.mem_singleton.mp hfd]
    exact h.master.2
  accepted := by
    intro sock hsock hmem
    obtain rfl := Option.some.inj hsock
    exact absurd (h.descriptors _ hmem) (lt_irrefl _)

theorem Crowded.enrol {k : ℕ} (h : Crowded k s) : Crowded (k + 1) (s.enrol (k + 4)) where
  master := by
    refine ⟨h.master.1, Finset.mem_insert_of_mem h.master.2.1, ?_⟩
    have hle := h.master.2.2
    change 3 ≤ if s.maxSocket < k + 4 then k + 4 else s.maxSocket
    split_ifs <;> omega
  wait := h.wait
  clock := by
    change s.clock.rest = stillClock
    rw [h.clock]
    rfl
  heap := by
    obtain ⟨p, hp⟩ := h.heap
    refine ⟨fun n => p (n + 2), ?_⟩
    change s.heap.rest.rest = _
    rw [hp]
    rfl
  descriptors := by
    intro fd hfd
    rcases Finset.mem_insert.mp hfd with rfl | hfd
    · omega
    · have hlt := h.descriptors fd hfd
      omega
  length := by rw [enrol_length, h.length]
  nonNull := by
    intro n hn
    rcases List.mem_append.mp hn with hn | hn
    · exact h.nonNull n hn
    · obtain ⟨p, hp⟩ := h.heap
      rw [List.mem_singleton.mp hn, enrolled, hp]
      exact Nat.succ_ne_zero _
  clients := by
    intro n hn
    rcases List.mem_append.mp hn with hn | hn
    · exact h.clients n hn
    · rw [List.mem_singleton.mp hn]
      refine ⟨?_, ?_⟩
      · change timeradd s.clock.now s.maxWaitTime = _
        rw [h.clock, h.wait]
        decide
      · change k + 4 ≠ 3
        omega

theorem Crowded.next {k : ℕ} (h : Crowded k s) (hk : k ≤ clientsLimit) :
    ∃ s', s.runServerBody (acceptRound (k + 4)) = some s' ∧ Crowded (k + 1) s' := by
  have hx := h.permitted
  have hlimit : ¬ clientsLimit < s.nodes.length := by
    rw [h.length]
    omega
  obtain ⟨p, hp⟩ := h.heap
  have hmaster : s.masterSocket ∈ ({3} : Finset ℕ) := Finset.mem_singleton.mpr h.master.1
  have hb := beforePass_conn hx hmaster rfl
  rw [if_neg hlimit, hp, if_neg (show Heap.succeeding p 0 ≠ 0 from Nat.succ_ne_zero _),
    if_neg (show Heap.succeeding p 1 ≠ 0 from Nat.succ_ne_zero _)] at hb
  have hnext := h.tick.enrol
  refine ⟨_, ?_, hnext⟩
  rw [runServerBody_ready rfl (Finset.singleton_nonempty 3), hb, Option.map_some,
    receiveAndSend_eq _ hnext.nonNull]
  refine congrArg some (pass_of_none_ready _ _ _ _ fun n hn => ?_)
  rw [Finset.mem_singleton]
  exact (hnext.clients n hn).2

theorem crowd_succ (k : ℕ) : crowd (k + 1) = crowd k ++ [acceptRound (k + 4)] := by
  rw [crowd, List.range_succ, List.map_append, List.map_singleton]
  rfl

theorem crowded_after {k : ℕ} (hk : k ≤ clientsLimit + 1) :
    crowdSetup.start.PermittedFrom (crowd k) ∧
      ∃ s, crowdSetup.after (crowd k) = some s ∧ Crowded k s := by
  induction k with
  | zero => exact ⟨permittedFrom_nil _, _, rfl, crowded_start⟩
  | succ k ih =>
    obtain ⟨hpermitted, s, hs, hcrowd⟩ := ih (by omega)
    obtain ⟨s', hb, hnext⟩ := hcrowd.next (by omega)
    rw [crowd_succ]
    refine ⟨(permittedFrom_snoc _ _).mpr ⟨hpermitted, fun s₀ hs₀ => ?_⟩, s', ?_, hnext⟩
    · have hsame : s₀ = s := Option.some.inj (hs₀.symm.trans hs)
      exact hsame ▸ hcrowd.permitted
    · rw [Setup.after_snoc, hs, Option.bind_some, hb]

def crowdRun (k : ℕ) (hk : k ≤ clientsLimit + 1) : ServerRun where
  toSetup := crowdSetup
  rounds := crowd k
  permitted := (crowded_after hk).1

theorem crowdRun_top (k : ℕ) (hk : k ≤ clientsLimit + 1) :
    ∃ s, (crowdRun k hk).Top (crowd k) s ∧ Crowded k s := by
  obtain ⟨s, hs, hcrowd⟩ := (crowded_after hk).2
  exact ⟨s, ⟨List.prefix_rfl, hs⟩, hcrowd⟩

/-- The listening socket 3 takes the connections 4 to 1004. -/
theorem not_withinLimit_crowdRun : ¬ (crowdRun (clientsLimit + 1) le_rfl).WithinLimit := by
  intro h
  obtain ⟨s, hs, hcrowd⟩ := crowdRun_top (clientsLimit + 1) le_rfl
  have hle := h.bounded _ s hs
  rw [hcrowd.length] at hle
  omega

end ServerRun
end ChatProject
