import ChatProject.ServerSteps

/-!
# Runs of the select loop

A run is a list of iterations of the loop whose system calls answer as the system may
answer. A property that holds of the new server and is kept by every step holds whenever
the run is at the top of the loop.
-/

namespace ChatProject
open Memory TimeVal Run

namespace TcpServer

/-- `select` refuses a negative time limit. -/
def ValidWait (t : TimeVal) : Prop := 0 ≤ t.sec ∧ 0 ≤ t.usec

/-- What the system calls may answer: `select` fails whenever its time limit is refused,
returns 0 only if it has a time limit, and otherwise reports descriptors of the set below
`m_max_socket + 1`; `accept` returns a descriptor that is not open. -/
structure Permitted (s : TcpServer) (x : Round) : Prop where
  valid : x.selected ≠ .fails → ∀ t, s.waitTime.1 = some t → ValidWait t
  limited : x.selected = .timeout → s.waitTime.1 ≠ none
  ready : ∀ fds, x.selected = .ready fds →
    fds.Nonempty ∧ ∀ fd ∈ fds, fd ∈ s.masterFds ∧ fd ≤ s.maxSocket
  accepted : ∀ sock, x.conn = some sock → sock ∉ s.descriptors

instance (t : TimeVal) : Decidable (ValidWait t) := inferInstanceAs (Decidable (_ ∧ _))

def mayReport (s : TcpServer) (fd : ℕ) (conn : Option ℕ) : Bool :=
  s.waitTime.1.all (fun t => ValidWait t) && decide (fd ∈ s.masterFds) &&
    decide (fd ≤ s.maxSocket) && conn.all fun sock => sock ∉ s.descriptors

theorem permitted_of_mayReport {o : Option TcpServer} {fd : ℕ} {conn : Option ℕ}
    {exchange : ℕ → Exchange} (h : o.all (fun s => s.mayReport fd conn) = true) :
    ∀ s, o = some s → Permitted s ⟨.ready {fd}, conn, exchange⟩ := by
  intro s hs
  subst hs
  simp only [Option.all_some, mayReport, Bool.and_eq_true, decide_eq_true_eq] at h
  obtain ⟨⟨⟨hwait, hfd⟩, hmax⟩, hconn⟩ := h
  constructor
  · intro _ t ht
    simpa [ht] using hwait
  · intro h
    cases h
  · intro fds h
    cases h
    refine ⟨Finset.singleton_nonempty fd, ?_⟩
    intro fd' hfd'
    rw [Finset.mem_singleton.mp hfd']
    exact ⟨hfd, hmax⟩
  · intro sock hsock
    subst hsock
    simpa using hconn

theorem waitTime_eq (s : TcpServer) :
    s.waitTime.2 = s ∨ s.waitTime.2 = { s with clock := s.clock.rest } := by
  rw [waitTime]
  split_ifs
  · exact .inl rfl
  · exact .inr rfl

theorem waitTime_nodes (s : TcpServer) : s.waitTime.2.nodes = s.nodes := by
  rcases s.waitTime_eq with h | h
  · rw [h]
  · rw [h]
    rfl

theorem waitTime_descriptors (s : TcpServer) : s.waitTime.2.descriptors = s.descriptors := by
  rcases s.waitTime_eq with h | h <;> rw [h]

def expiryTime (s : TcpServer) : TimeVal := s.waitTime.2.clock.now

def beforePass (s : TcpServer) (x : Round) (fds : Finset ℕ) : Option TcpServer :=
  if s.masterSocket ∈ fds then s.waitTime.2.addClientToTheList x.conn else some s.waitTime.2

theorem waitTime_free {s : TcpServer} {x : Round} (hx : Permitted s x) :
    ∀ sock, x.conn = some sock → sock ∉ s.waitTime.2.descriptors := by
  rw [waitTime_descriptors]
  exact hx.accepted

theorem Kept.beforePass {P : TcpServer → Prop} (h : Kept P) {s s₁ : TcpServer} (hs : P s)
    {x : Round} (hx : Permitted s x) {fds : Finset ℕ} (hb : s.beforePass x fds = some s₁) :
    P s₁ := by
  rw [TcpServer.beforePass] at hb
  split_ifs at hb
  · exact h.addClientToTheList (h.waitTime hs) (waitTime_free hx) hb
  · exact Option.some.inj hb ▸ h.waitTime hs

theorem runServerBody_fails {s : TcpServer} {x : Round} (hx : x.selected = .fails) :
    s.runServerBody x = some s.waitTime.2 := by
  simp [TcpServer.runServerBody, hx]

theorem runServerBody_timeout {s : TcpServer} {x : Round} (hx : x.selected = .timeout) :
    s.runServerBody x = some s.waitTime.2.checkExpiryOfClients := by
  simp [TcpServer.runServerBody, hx]

theorem runServerBody_ready {s : TcpServer} {x : Round} {fds : Finset ℕ}
    (hx : x.selected = .ready fds) (hfds : fds.Nonempty) :
    s.runServerBody x =
      (s.beforePass x fds).map fun s => s.receiveAndSend fds x.exchange fds.card := by
  have hmaster : s.waitTime.2.masterSocket = s.masterSocket := by
    rcases s.waitTime_eq with h | h <;> rw [h]
  simp only [runServerBody, hx, TcpServer.beforePass, Finset.card_pos.mpr hfds, ↓reduceIte,
    hmaster]

theorem Kept.runServerBody {P : TcpServer → Prop} (h : Kept P) {s s' : TcpServer}
    (hnull : s.NonNull) (hs : P s) {x : Round} (hx : Permitted s x)
    (hb : s.runServerBody x = some s') : P s' := by
  cases hsel : x.selected with
  | fails =>
    rw [runServerBody_fails hsel, Option.some.injEq] at hb
    exact hb ▸ h.waitTime hs
  | timeout =>
    rw [runServerBody_timeout hsel, Option.some.injEq] at hb
    exact hb ▸ h.checkExpiryOfClients (h.waitTime hs)
  | ready fds =>
    rw [runServerBody_ready hsel (hx.ready fds hsel).1, Option.map_eq_some_iff] at hb
    obtain ⟨s₁, hs₁, rfl⟩ := hb
    exact h.receiveAndSend (NonNull.kept.beforePass hnull hx hs₁) (h.beforePass hs hx hs₁) _ _ _

/-- The state at the top of the loop after some iterations; `none` after a crash. -/
def iterate (s : TcpServer) (xs : List Round) : Option TcpServer :=
  Run.after (fun s x => s.bind fun s => s.runServerBody x) (some s) xs

@[simp] theorem iterate_nil (s : TcpServer) : s.iterate [] = some s := rfl

@[simp] theorem iterate_snoc (s : TcpServer) (xs : List Round) (x : Round) :
    s.iterate (xs ++ [x]) = (s.iterate xs).bind fun s => s.runServerBody x :=
  Run.after_snoc _ _ _ _

def PermittedFrom (s : TcpServer) (xs : List Round) : Prop :=
  ∀ pre x, Occurs xs pre x → ∀ s', s.iterate pre = some s' → Permitted s' x

theorem permittedFrom_nil (s : TcpServer) : s.PermittedFrom [] := forall_occurs_nil _

theorem permittedFrom_snoc {s : TcpServer} (xs : List Round) (x : Round) :
    s.PermittedFrom (xs ++ [x]) ↔
      s.PermittedFrom xs ∧ ∀ s', s.iterate xs = some s' → Permitted s' x :=
  forall_occurs_snoc xs x

end TcpServer

open TcpServer

/-- How the server was created, and what the clock and the allocator will answer. -/
structure Setup where
  masterSocket : ℕ
  maxWaitTime : ℕ
  waits : 0 < maxWaitTime
  acceptFunction : Bool
  goodbye : Bool
  junk : Ptr
  otherFds : Finset ℕ
  clock : Clock
  heap : Heap

namespace Setup

def start (p : Setup) : TcpServer :=
  createServer p.masterSocket p.maxWaitTime p.acceptFunction p.goodbye p.junk p.otherFds p.clock
    p.heap

theorem start_nonNull (p : Setup) : p.start.NonNull := by
  simp [NonNull, start, createServer, nodes]

def after (p : Setup) (xs : List Round) : Option TcpServer := p.start.iterate xs

@[simp] theorem after_nil (p : Setup) : p.after [] = some p.start := rfl

@[simp] theorem after_snoc (p : Setup) (xs : List Round) (x : Round) :
    p.after (xs ++ [x]) = (p.after xs).bind fun s => s.runServerBody x :=
  p.start.iterate_snoc xs x

end Setup

def readings (f : ℕ → ℕ) (h : ∀ n, f n ≤ f (n + 1)) : Clock where
  reading n := ofSeconds (f n)
  normalised _ := normalised_ofSeconds _
  mono n := micros_ofSeconds_mono (h n)

def stillClock : Clock := readings (fun _ => 0) fun _ => le_rfl

/-- The server of `ServerSide.c` with the listening socket 3. -/
def serverSide (clock : Clock) : Setup where
  masterSocket := 3
  maxWaitTime := 300
  waits := by decide
  acceptFunction := true
  goodbye := true
  junk := blank
  otherFds := ∅
  clock := clock
  heap := Heap.succeeding id

def acceptRound (sock : ℕ) : Round := ⟨.ready {3}, some sock, fun _ => .succeeds⟩

def serveRound (sock : ℕ) : Round := ⟨.ready {sock}, none, fun _ => .succeeds⟩

def loseRound (sock : ℕ) : Round := ⟨.ready {sock}, none, fun _ => .recvFails⟩

structure ServerRun extends Setup where
  rounds : List Round
  permitted : toSetup.start.PermittedFrom rounds

namespace ServerRun

/-- The state of the run at the top of the loop after the iterations `pre`. -/
def Top (r : ServerRun) (pre : List Round) (s : TcpServer) : Prop :=
  pre <+: r.rounds ∧ r.toSetup.after pre = some s

def Enters (r : ServerRun) (pre : List Round) (x : Round) (s : TcpServer) : Prop :=
  Occurs r.rounds pre x ∧ r.toSetup.after pre = some s

theorem Enters.top {r : ServerRun} {pre : List Round} {x : Round} {s : TcpServer}
    (h : r.Enters pre x s) : r.Top pre s :=
  ⟨h.1.history, h.2⟩

theorem Enters.permitted {r : ServerRun} {pre : List Round} {x : Round} {s : TcpServer}
    (h : r.Enters pre x s) : Permitted s x :=
  r.permitted pre x h.1 s h.2

theorem Enters.next {r : ServerRun} {pre : List Round} {x : Round} {s s' : TcpServer}
    (h : r.Enters pre x s) (hb : s.runServerBody x = some s') : r.Top (pre ++ [x]) s' := by
  refine ⟨h.1, ?_⟩
  rw [Setup.after_snoc, h.2, Option.bind_some, hb]

theorem Top.start {r : ServerRun} {s : TcpServer} (h : r.Top [] s) : s = r.start :=
  (Option.some.inj h.2).symm

theorem Top.last {r : ServerRun} {pre : List Round} {x : Round} {s : TcpServer}
    (h : r.Top (pre ++ [x]) s) : ∃ s₀, r.Enters pre x s₀ ∧ s₀.runServerBody x = some s := by
  have hs := h.2
  rw [Setup.after_snoc, Option.bind_eq_some_iff] at hs
  obtain ⟨s₀, hs₀, hb⟩ := hs
  exact ⟨s₀, ⟨h.1, hs₀⟩, hb⟩

theorem top_of_enters {P : TcpServer → Prop} {C : TcpServer → Round → Prop} (r : ServerRun)
    (h0 : P r.start)
    (hround : ∀ pre x s s', r.Enters pre x s → P s → C s x → s.runServerBody x = some s' → P s')
    (hC : ∀ pre x s, r.Enters pre x s → C s x) : ∀ pre s, r.Top pre s → P s := by
  intro pre
  induction pre using List.reverseRecOn with
  | nil => exact fun s hs => hs.start ▸ h0
  | append_singleton pre x ih =>
    intro s hs
    obtain ⟨s₀, henter, hb⟩ := hs.last
    exact hround pre x s₀ s henter (ih s₀ henter.top) (hC pre x s₀ henter) hb

theorem nonNull_and_kept {P : TcpServer → Prop} (h : Kept P) (r : ServerRun) (h0 : P r.start) :
    ∀ pre s, r.Top pre s → s.NonNull ∧ P s := by
  refine r.top_of_enters (C := fun _ _ => True) ⟨r.start_nonNull, h0⟩ ?_ fun _ _ _ _ => trivial
  intro pre x s s' henter hP _ hb
  obtain ⟨hnull, hP⟩ := hP
  have hx := henter.permitted
  exact ⟨NonNull.kept.runServerBody hnull hnull hx hb, h.runServerBody hnull hP hx hb⟩

/-- A property of the new server that every step keeps holds at the top of the loop. -/
theorem kept {P : TcpServer → Prop} (h : Kept P) (r : ServerRun) (h0 : P r.start)
    {pre : List Round} {s : TcpServer} (hs : r.Top pre s) : P s :=
  (r.nonNull_and_kept h h0 pre s hs).2

theorem nonNull (r : ServerRun) {pre : List Round} {s : TcpServer} (hs : r.Top pre s) :
    s.NonNull :=
  r.kept NonNull.kept r.start_nonNull hs

/-- Where a property holds at the top of the loop, an iteration is right exactly when it meets
the condition, and then the property holds after it. -/
theorem forall_enters_iff {P : TcpServer → Prop} {S C : TcpServer → Round → Prop} (r : ServerRun)
    (h0 : P r.start)
    (hright : ∀ pre x s, r.Enters pre x s → P s → (S s x ↔ C s x))
    (hround : ∀ pre x s s', r.Enters pre x s → P s → C s x → s.runServerBody x = some s' → P s') :
    (∀ pre x s, r.Enters pre x s → S s x) ↔ ∀ pre x s, r.Enters pre x s → C s x := by
  constructor
  · intro h pre x s hs
    have hkept := r.top_of_enters h0 (fun pre x s s' hs hP hS hb =>
      hround pre x s s' hs hP ((hright pre x s hs hP).mp hS) hb) h
    exact (hright pre x s hs (hkept pre s hs.top)).mp (h pre x s hs)
  · intro h pre x s hs
    have hkept := r.top_of_enters h0 hround h
    exact (hright pre x s hs (hkept pre s hs.top)).mpr (h pre x s hs)

structure Fixed (p : Setup) (s : TcpServer) : Prop where
  masterSocket : s.masterSocket = p.masterSocket
  maxWaitTime : s.maxWaitTime = ofSeconds p.maxWaitTime
  tailData : s.tailData = p.junk

theorem Fixed.kept (p : Setup) : Kept (Fixed p) where
  tick := fun _ h => ⟨h.masterSocket, h.maxWaitTime, h.tailData⟩
  serve := fun _ _ _ _ _ _ h => ⟨h.masterSocket, h.maxWaitTime, h.tailData⟩
  lose := fun _ _ _ _ _ _ h => ⟨h.masterSocket, h.maxWaitTime, h.tailData⟩
  remove := fun _ _ _ _ _ _ h => ⟨h.masterSocket, h.maxWaitTime, h.tailData⟩
  refuse := fun _ _ _ _ h => ⟨h.masterSocket, h.maxWaitTime, h.tailData⟩
  enrol := fun _ _ _ _ _ h => ⟨h.masterSocket, h.maxWaitTime, h.tailData⟩

theorem fixed (r : ServerRun) {pre : List Round} {s : TcpServer} (hs : r.Top pre s) :
    Fixed r.toSetup s :=
  r.kept (Fixed.kept r.toSetup) ⟨rfl, rfl, rfl⟩ hs

end ServerRun
end ChatProject
