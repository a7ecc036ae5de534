import ChatProject.ServerProcess

/-!
# Runs of the server process

The iterations of the server and what the clients do come in any order. The list of clients and
the connections agree in every run: the connections of the listed clients are open, those of
the clients that have been dropped are closed. So each iteration of the loop is a sequence of
acts of the conversation, and the process with its clients is linearizable.
-/

namespace ChatProject
open Memory Run Function TcpServer Linearizability

/-! ## Acts of different clients -/

def LinkAct.closes : LinkAct → Bool
  | sendFails _ | close => true
  | sendToServer _ | sndRcv .. | reciveFromServer _ | reciveNothing => false

namespace Chat
variable {ι : Type} [DecidableEq ι] {s s' : Chat ι} {i : ι} {act : LinkAct}

theorem step_closed (h : s.step (i, act) = some s') :
    (s'.links i).closed = (act.closes || (s.links i).closed) := by
  have htransfer : ∀ {t : Transfer} {s₁ : Chat ι}, s.transfer i t = some s₁ →
      (s₁.links i).closed = (s.links i).closed := by
    intro t s₁ h
    rw [transfer, Option.map_eq_some_iff] at h
    obtain ⟨c, -, rfl⟩ := h
    simp [setLink, Connection.link]
  cases act with
  | sendToServer c =>
    simp only [step, Option.map_eq_some_iff] at h
    obtain ⟨s₁, h₁, rfl⟩ := h
    have hold := htransfer h₁
    exact hold
  | sndRcv n beyond => exact htransfer h
  | reciveFromServer n =>
    simp only [step, Option.map_eq_some_iff] at h
    obtain ⟨s₁, h₁, rfl⟩ := h
    have hold := htransfer h₁
    exact hold
  | sendFails n =>
    simp only [step] at h
    split at h
    · rw [← Option.some.inj h]
      simp [setLink, LinkAct.closes]
    · cases h
  | close =>
    rw [← Option.some.inj h]
    simp [setLink, LinkAct.closes]
  | reciveNothing =>
    simp only [step, Option.map_eq_some_iff] at h
    obtain ⟨c, -, rfl⟩ := h
    simp [setLink, LinkAct.closes]

omit [DecidableEq ι] in
theorem Permitted.congr {e : ι × LinkAct} (hp : s.Permitted e) (h : s'.links e.1 = s.links e.1) :
    s'.Permitted e := by
  obtain ⟨i, act⟩ := e
  have hlink : s'.links i = s.links i := h
  cases act with
  | close => trivial
  | _ =>
    simpa only [Permitted, connection, hlink, ClientLink.connection, Connection.Permitted,
      Connection.Idle] using hp

omit [DecidableEq ι] in
theorem Whole.congr {e : ι × LinkAct} (hw : s.Whole e) (h : s'.links e.1 = s.links e.1) :
    s'.Whole e := by
  obtain ⟨i, act⟩ := e
  have hlink : s'.links i = s.links i := h
  cases act with
  | sendToServer _ | close | reciveNothing => trivial
  | _ =>
    simpa only [Whole, connection, hlink, ClientLink.connection, Connection.Whole] using hw

/-- A run of the conversation whose acts are whole ends here. -/
def Reached (s : Chat ι) : Prop := ∃ r : Conversation ι, r.AllWhole ∧ r.after r.acts = some s

theorem Reached.step (h : s.Reached) {e : ι × LinkAct} (hp : s.Permitted e) (hw : s.Whole e) :
    ∃ s', s.step e = some s' ∧ s'.Reached := by
  obtain ⟨r, hr, hs⟩ := h
  obtain ⟨s₁, -, a, hs₁, -, href, -⟩ := r.runs_atomic hr List.prefix_rfl
  obtain rfl := Option.some.inj (hs.symm.trans hs₁)
  obtain ⟨s', -, hstep, -⟩ := href.step hp hw
  exact ⟨s', hstep, r.exists_snoc hr hs hp hw hstep⟩

theorem Reached.steps {es : List (ι × LinkAct)} (h : s.Reached)
    (hdistinct : (es.map Prod.fst).Nodup) (hes : ∀ e ∈ es, s.Permitted e ∧ s.Whole e) :
    ∃ s', s.steps es = some s' ∧ s'.Reached := by
  induction es generalizing s with
  | nil => exact ⟨s, rfl, h⟩
  | cons e es ih =>
    obtain ⟨hp, hw⟩ := hes e List.mem_cons_self
    obtain ⟨s₁, hstep, h₁⟩ := h.step hp hw
    obtain ⟨hnew, hdistinct⟩ := List.nodup_cons.mp hdistinct
    obtain ⟨s', hsteps, h'⟩ := ih h₁ hdistinct (by
      intro e' he'
      have hne : e'.1 ≠ e.1 := fun he => hnew (he ▸ List.mem_map_of_mem he')
      obtain ⟨hp', hw'⟩ := hes e' (List.mem_cons_of_mem _ he')
      have hsame := step_links hstep hne
      exact ⟨hp'.congr hsame, hw'.congr hsame⟩)
    refine ⟨s', ?_, h'⟩
    rw [steps_cons, hstep, Option.bind_some, hsteps]

end Chat

/-! ## The list and the connections -/

namespace ServerProcess
variable {ι : Type} [DecidableEq ι]

structure Linked (s : ServerProcess ι) : Prop where
  registered : s.tcp.Registered
  nonNull : s.tcp.NonNull
  peers : ∀ sock ∈ s.tcp.socks, ∃ i, s.peer sock = some i
  apart : ∀ sock sock' i, s.peer sock = some i → s.peer sock' = some i → sock = sock'
  listed : ∀ sock i, s.peer sock = some i → ((s.chat.links i).closed = false ↔ sock ∈ s.tcp.socks)

namespace Linked
variable {s : ServerProcess ι} {front todo : List ClientNode} {n : ClientNode} {chat : Chat ι}

theorem relisted (h : s.Linked) {sock : ℕ} (hsock : sock ∈ s.tcp.socks) {act : LinkAct}
    (hsteps : s.chat.steps (actsAt s.peer (fun _ => act) [sock]) = some chat) {tcp : TcpServer}
    (hregistered : tcp.Registered) (hnull : tcp.NonNull)
    (hsocks : ∀ sock', sock' ∈ tcp.socks ↔
      sock' ∈ s.tcp.socks ∧ (sock' = sock → act.closes = false)) :
    Linked { s with tcp := tcp, chat := chat } := by
  obtain ⟨i, hi⟩ := h.peers sock hsock
  have hopen := (h.listed sock i hi).mpr hsock
  have hstep : s.chat.step (i, act) = some chat := by simpa [actsAt, hi] using hsteps
  refine ⟨hregistered, hnull, fun sock' h' => h.peers sock' ((hsocks sock').mp h').1, h.apart, ?_⟩
  intro sock' j hj
  rw [hsocks sock']
  by_cases hsame : sock' = sock
  · subst hsame
    obtain rfl : i = j := Option.some.inj (hi.symm.trans hj)
    have hclosed := Chat.step_closed hstep
    rw [hopen, Bool.or_false] at hclosed
    simp [hsock, hclosed]
  · have hne : j ≠ i := fun he => hsame (h.apart sock' sock j hj (he ▸ hi))
    have hlink := Chat.step_links hstep hne
    rw [← h.listed sock' j hj]
    simp [hsame, hlink]

theorem serve (h : s.Linked) (hn : s.tcp.nodes = front ++ n :: todo) {act : LinkAct}
    (hact : act.closes = false)
    (hsteps : s.chat.steps (actsAt s.peer (fun _ => act) [n.sock]) = some chat) :
    Linked { s with tcp := s.tcp.serve front todo n, chat := chat } := by
  have halloc : s.tcp.heap.next ≠ 0 := h.registered.allocates 0
  refine h.relisted (mem_socks hn) hsteps (h.registered.serve hn)
    (NonNull.kept.serve _ _ _ _ hn halloc h.nonNull) fun sock => ?_
  have hmem : sock ∈ (s.tcp.serve front todo n).socks ↔ sock ∈ s.tcp.socks :=
    (Registered.socks_perm hn).mem_iff.symm
  simp [hmem, hact]

theorem removeClient (h : s.Linked) (hn : s.tcp.nodes = front ++ n :: todo) (farewell : Bool)
    {act : LinkAct} (hact : act.closes = true)
    (hsteps : s.chat.steps (actsAt s.peer (fun _ => act) [n.sock]) = some chat) :
    Linked { s with tcp := s.tcp.removeClient front todo n farewell, chat := chat } := by
  refine h.relisted (mem_socks hn) hsteps (h.registered.removeClient hn farewell)
    (NonNull.kept.remove _ _ _ _ farewell hn h.nonNull) fun sock => ?_
  have hperm := Registered.socks_perm hn
  have hnodup := (List.nodup_cons.mp (hperm.nodup_iff.mp h.registered.distinct)).1
  change sock ∈ (front ++ todo).map ClientNode.sock ↔ _
  rw [hperm.mem_iff, List.mem_cons]
  constructor
  · intro hmem
    exact ⟨.inr hmem, fun he => absurd (he ▸ hmem) hnodup⟩
  · rintro ⟨hmem, hopen⟩
    refine hmem.resolve_left fun he => ?_
    simp [hact] at hopen
    exact hopen he

theorem pass (forSelect : Finset ℕ) (traffic : ℕ → Traffic) :
    ∀ (todo front : List ClientNode) (activity : ℕ) (s : ServerProcess ι), s.Linked →
      s.tcp.nodes = front ++ todo → ∀ chat, s.chat.steps (actsAt s.peer
        (fun sock => (traffic sock).act)
        ((called forSelect s.tcp.tailData todo activity).map ClientNode.sock)) = some chat →
      Linked { s with
        tcp := TcpServer.pass forSelect (fun sock => (traffic sock).exchange) front todo activity
          s.tcp
        chat := chat } := by
  intro todo
  induction todo with
  | nil =>
    intro front activity s h _ chat hsteps
    rw [called_nil] at hsteps
    obtain rfl : s.chat = chat := Option.some.inj hsteps
    exact h
  | cons n todo ih =>
    intro front activity s h hn chat hsteps
    rw [TcpServer.pass]
    by_cases hstop : n.1 = s.tcp.tailData ∨ activity = 0
    · rw [called_stop hstop] at hsteps
      obtain rfl : s.chat = chat := Option.some.inj hsteps
      rw [if_pos hstop]
      exact h
    · rw [if_neg hstop]
      by_cases hready : n.sock ∈ forSelect
      · rw [called_ready hstop hready, List.map_cons, actsAt_cons, Chat.steps_append,
          Option.bind_eq_some_iff] at hsteps
        obtain ⟨chat₁, hstep, hsteps⟩ := hsteps
        rw [if_pos hready]
        cases hx : traffic n.sock with
        | succeeds k beyond =>
          have halloc : s.tcp.heap.next ≠ 0 := h.registered.allocates 0
          have hsucceeds : (Traffic.succeeds k beyond).exchange = .succeeds := rfl
          rw [if_pos hsucceeds, if_neg halloc]
          have hact : (traffic n.sock).act.closes = false := by rw [hx]; rfl
          exact ih _ _ _ (h.serve hn hact hstep) rfl chat hsteps
        | sendFails k =>
          have hact : (traffic n.sock).act.closes = true := by rw [hx]; rfl
          exact ih _ _ _ (h.removeClient hn false hact hstep) rfl chat hsteps
        | recvFails =>
          have hact : (traffic n.sock).act.closes = true := by rw [hx]; rfl
          exact ih _ _ _ (h.removeClient hn true hact hstep) rfl chat hsteps
      · rw [called_idle hstop hready] at hsteps
        rw [if_neg hready]
        exact ih _ _ s h (by simpa using hn) chat hsteps

theorem expire (now : TimeVal) :
    ∀ (todo : List ClientNode) (s : ServerProcess ι), s.Linked → s.tcp.nodes = todo →
      ∀ chat, s.chat.steps (actsAt s.peer (fun _ => .close)
        ((overdue now s.tcp.tailData todo).map ClientNode.sock)) = some chat →
      Linked { s with tcp := TcpServer.expire now todo s.tcp, chat := chat } := by
  intro todo
  induction todo with
  | nil =>
    intro s h _ chat hsteps
    obtain rfl : s.chat = chat := Option.some.inj hsteps
    exact h
  | cons n todo ih =>
    intro s h hn chat hsteps
    rw [TcpServer.expire]
    by_cases hstop : n.1 = s.tcp.tailData
    · rw [overdue_stop hstop] at hsteps
      obtain rfl : s.chat = chat := Option.some.inj hsteps
      rw [if_pos hstop]
      exact h
    · rw [if_neg hstop]
      by_cases hdue : now.after n.timeout = true
      · rw [overdue_due hstop hdue, List.map_cons, actsAt_cons, Chat.steps_append,
          Option.bind_eq_some_iff] at hsteps
        obtain ⟨chat₁, hstep, hsteps⟩ := hsteps
        rw [if_pos hdue]
        have hhead : s.tcp.nodes = [] ++ n :: todo := hn
        exact ih _ (h.removeClient hhead true rfl hstep) rfl chat hsteps
      · rw [overdue_early hstop hdue] at hsteps
        obtain rfl : s.chat = chat := Option.some.inj hsteps
        rw [if_neg hdue]
        exact h

omit [DecidableEq ι] in
theorem apart_update (h : s.Linked) {i : ι} (hnew : ∀ sock, s.peer sock ≠ some i) (sock : ℕ) :
    ∀ a b j, update s.peer sock (some i) a = some j → update s.peer sock (some i) b = some j →
      a = b := by
  intro a b j ha hb
  by_cases hasock : a = sock
  · by_cases hbsock : b = sock
    · rw [hasock, hbsock]
    · rw [hasock, update_self] at ha
      rw [update_of_ne hbsock, ← ha] at hb
      exact absurd hb (hnew b)
  · by_cases hbsock : b = sock
    · rw [hbsock, update_self] at hb
      rw [update_of_ne hasock, ← hb] at ha
      exact absurd ha (hnew a)
    · rw [update_of_ne hasock] at ha
      rw [update_of_ne hbsock] at hb
      exact h.apart a b j ha hb

omit [DecidableEq ι] in
theorem enrol (h : s.Linked) {sock : ℕ} {i : ι} (hfree : sock ∉ s.tcp.descriptors)
    (hopen : (s.chat.links i).closed = false) (hnew : ∀ sock', s.peer sock' ≠ some i) :
    Linked { s with tcp := s.tcp.enrol sock, peer := update s.peer sock (some i) } := by
  have halloc := h.registered.allocates
  have hsock : sock ∉ s.tcp.socks := fun hmem => hfree (h.registered.opened sock hmem)
  have hsocks : ∀ sock', sock' ∈ (s.tcp.enrol sock).socks ↔ sock' ∈ s.tcp.socks ∨ sock' = sock := by
    intro sock'
    rw [Registered.socks_enrol, List.mem_append, List.mem_singleton]
  refine ⟨h.registered.enrol hfree, NonNull.kept.enrol _ _ hfree (halloc 0) (halloc 1) h.nonNull,
    ?_, h.apart_update hnew sock, ?_⟩
  · intro sock' hsock'
    by_cases hsame : sock' = sock
    · exact ⟨i, by simp [hsame]⟩
    · obtain ⟨j, hj⟩ := h.peers sock' (((hsocks sock').mp hsock').resolve_right hsame)
      exact ⟨j, by simpa [hsame] using hj⟩
  · intro sock' j hj
    rw [hsocks]
    by_cases hsame : sock' = sock
    · simp only [hsame, update_self, Option.some.injEq] at hj
      simp [hsame, ← hj, hopen]
    · simp only [update_of_ne hsame] at hj
      simp [hsame, h.listed sock' j hj]

theorem refuse (h : s.Linked) {sock : ℕ} {i : ι} (hfree : sock ∉ s.tcp.descriptors)
    (hnew : ∀ sock', s.peer sock' ≠ some i) :
    Linked { s with
      chat := s.chat.setLink i { s.chat.links i with closed := true }
      peer := update s.peer sock (some i) } := by
  have hsock : sock ∉ s.tcp.socks := fun hmem => hfree (h.registered.opened sock hmem)
  refine ⟨h.registered, h.nonNull, ?_, h.apart_update hnew sock, ?_⟩
  · intro sock' hsock'
    have hsame : sock' ≠ sock := fun he => hsock (he ▸ hsock')
    obtain ⟨j, hj⟩ := h.peers sock' hsock'
    exact ⟨j, by simpa [hsame] using hj⟩
  · intro sock' j hj
    by_cases hsame : sock' = sock
    · simp only [hsame, update_self, Option.some.injEq] at hj
      simp [hsame, ← hj, hsock, Chat.setLink]
    · simp only [update_of_ne hsame] at hj
      have hne : j ≠ i := fun he => hnew sock' (he ▸ hj)
      simpa [Chat.setLink, hne] using h.listed sock' j hj

theorem client (h : s.Linked) {i : ι} {act : LinkAct} (hact : act.closes = false)
    (hstep : s.chat.step (i, act) = some chat) : Linked { s with chat := chat } := by
  refine ⟨h.registered, h.nonNull, h.peers, h.apart, fun sock j hj => ?_⟩
  rw [← h.listed sock j hj]
  by_cases hsame : j = i
  · subst hsame
    simp [Chat.step_closed hstep, hact]
  · rw [Chat.step_links hstep hsame]

omit [DecidableEq ι] in
theorem tick (h : s.Linked) : Linked { s with tcp := s.tcp.waitTime.2 } := by
  have hsocks : s.tcp.waitTime.2.socks = s.tcp.socks := by rw [socks, waitTime_nodes, socks]
  refine ⟨Registered.kept.waitTime h.registered, NonNull.kept.waitTime h.nonNull, ?_, h.apart, ?_⟩
  · intro sock hsock
    exact h.peers sock (hsocks ▸ hsock)
  · intro sock i hi
    rw [h.listed sock i hi, hsocks]

omit [DecidableEq ι] in
theorem distinct (h : s.Linked) (act : ℕ → LinkAct) {socks : List ℕ} (hsocks : socks.Nodup) :
    ((actsAt s.peer act socks).map Prod.fst).Nodup := by
  have hfst : (actsAt s.peer act socks).map Prod.fst = socks.filterMap s.peer := by
    rw [actsAt, List.map_filterMap]
    congr 1
    funext sock
    cases s.peer sock <;> rfl
  rw [hfst]
  refine hsocks.filterMap fun sock sock' i hi hi' => ?_
  exact h.apart sock sock' i (Option.mem_def.mp hi) (Option.mem_def.mp hi')

end Linked

/-! ## Runs -/

end ServerProcess

def LinkAct.OfClient : LinkAct → Prop
  | sendToServer _ | reciveFromServer _ | reciveNothing => True
  | sndRcv .. | sendFails _ | close => False

theorem LinkAct.OfClient.closes {act : LinkAct} (h : act.OfClient) : act.closes = false := by
  cases act <;> first | rfl | exact h.elim

/-- An iteration of the loop of `RunServer`, or an act of a client. -/
inductive ProcessAct (ι : Type)
  | iterate (x : ProcessRound ι)
  | client (i : ι) (act : LinkAct)

namespace ServerProcess
variable {ι : Type} [DecidableEq ι]

/-- `none` where the server crashes or has no answer. -/
def step (s : ServerProcess ι) : ProcessAct ι → Option (ServerProcess ι)
  | .iterate x => s.runServerBody x
  | .client i act => (s.chat.step (i, act)).map fun chat => { s with chat := chat }

def Receives (s : ServerProcess ι) (fds : Finset ℕ) (traffic : ℕ → Traffic) : Prop :=
  ∀ sock ∈ fds, ∀ i, s.peer sock = some i → ∀ n, (traffic sock).received = some n →
    0 < n ∧ n ≤ (s.chat.links i).toServer.length ∧ n ≤ Server.buffSize

def ReceivesAll (s : ServerProcess ι) (fds : Finset ℕ) (traffic : ℕ → Traffic) : Prop :=
  ∀ sock ∈ fds, ∀ i, s.peer sock = some i → ∀ n, (traffic sock).received = some n →
    n = min (s.chat.links i).toServer.length Server.buffSize

/-- What the system calls may answer. `accept` returns the connection of a client that it has
not returned before. -/
structure PermittedRound (s : ServerProcess ι) (x : ProcessRound ι) : Prop where
  calls : s.tcp.Permitted x.round
  connects : ∀ sock i, x.conn = some (sock, i) →
    (s.chat.links i).closed = false ∧ ∀ sock', s.peer sock' ≠ some i
  receives : ∀ fds, x.selected = .ready fds → s.Receives fds x.traffic

def Permitted (s : ServerProcess ι) : ProcessAct ι → Prop
  | .iterate x => s.PermittedRound x
  | .client i act => act.OfClient ∧ s.chat.Permitted (i, act)

def Whole (s : ServerProcess ι) : ProcessAct ι → Prop
  | .iterate x => ∀ fds, x.selected = .ready fds → s.ReceivesAll fds x.traffic
  | .client i act => s.chat.Whole (i, act)

section Step
variable {s : ServerProcess ι}

omit [DecidableEq ι] in
theorem act_possible {chat : Chat ι} {i : ι} (hopen : (chat.links i).closed = false)
    {x : Traffic} (hx : ∀ n, x.received = some n →
      (0 < n ∧ n ≤ (chat.links i).toServer.length ∧ n ≤ Server.buffSize) ∧
        n = min (chat.links i).toServer.length Server.buffSize) :
    chat.Permitted (i, x.act) ∧ chat.Whole (i, x.act) := by
  cases x with
  | recvFails => exact ⟨trivial, trivial⟩
  | sendFails n => exact ⟨⟨hopen, (hx n rfl).1⟩, (hx n rfl).2⟩
  | succeeds n beyond => exact ⟨⟨hopen, (hx n rfl).1⟩, (hx n rfl).2⟩

omit [DecidableEq ι] in
theorem Linked.pass_acts (h : s.Linked) {fds : Finset ℕ} {traffic : ℕ → Traffic}
    (hp : s.Receives fds traffic) (hw : s.ReceivesAll fds traffic) (activity : ℕ) :
    ∀ e ∈ actsAt s.peer (fun sock => (traffic sock).act)
      ((called fds s.tcp.tailData s.tcp.nodes activity).map ClientNode.sock),
      s.chat.Permitted e ∧ s.chat.Whole e := by
  intro e he
  obtain ⟨sock, hsock, he⟩ := List.mem_filterMap.mp he
  obtain ⟨i, hi, rfl⟩ := Option.map_eq_some_iff.mp he
  obtain ⟨n, hn, rfl⟩ := List.mem_map.mp hsock
  obtain ⟨hmet, hready⟩ := List.mem_filter.mp (List.mem_of_mem_take hn)
  have hlisted : n.sock ∈ s.tcp.socks :=
    List.mem_map_of_mem ((List.takeWhile_sublist _).subset hmet)
  have hfds : n.sock ∈ fds := of_decide_eq_true hready
  exact act_possible ((h.listed n.sock i hi).mpr hlisted) fun k hk =>
    ⟨hp n.sock hfds i hi k hk, hw n.sock hfds i hi k hk⟩

omit [DecidableEq ι] in
theorem Linked.called_nodup (h : s.Linked) (fds : Finset ℕ) (activity : ℕ) :
    ((called fds s.tcp.tailData s.tcp.nodes activity).map ClientNode.sock).Nodup := by
  have hsublist : (called fds s.tcp.tailData s.tcp.nodes activity).Sublist s.tcp.nodes :=
    (List.take_sublist _ _).trans (List.filter_sublist.trans (List.takeWhile_sublist _))
  exact h.registered.distinct.sublist (hsublist.map _)

omit [DecidableEq ι] in
theorem Linked.overdue_nodup (h : s.Linked) (now : TimeVal) :
    ((overdue now s.tcp.tailData s.tcp.nodes).map ClientNode.sock).Nodup := by
  have hsublist : (overdue now s.tcp.tailData s.tcp.nodes).Sublist s.tcp.nodes :=
    (List.takeWhile_sublist _).trans (List.takeWhile_sublist _)
  exact h.registered.distinct.sublist (hsublist.map _)

theorem Linked.receiveAndSend (h : s.Linked) (hc : s.chat.Reached) {fds : Finset ℕ}
    {traffic : ℕ → Traffic} (hp : s.Receives fds traffic) (hw : s.ReceivesAll fds traffic)
    (activity : ℕ) :
    ∃ s', s.receiveAndSend fds traffic activity = some s' ∧ s'.Linked ∧ s'.chat.Reached := by
  obtain ⟨chat, hsteps, hreached⟩ :=
    hc.steps (h.distinct _ (h.called_nodup fds activity)) (h.pass_acts hp hw activity)
  refine ⟨_, ?_, h.pass fds traffic s.tcp.nodes [] activity s rfl chat hsteps, hreached⟩
  rw [receiveAndSend_eq s h.nonNull, hsteps, Option.map_some,
    TcpServer.receiveAndSend_eq s.tcp h.nonNull]

theorem Linked.checkExpiryOfClients (h : s.Linked) (hc : s.chat.Reached) :
    ∃ s', s.checkExpiryOfClients = some s' ∧ s'.Linked ∧ s'.chat.Reached := by
  have hclock : Linked { s with tcp := { s.tcp with clock := s.tcp.clock.rest } } :=
    { h with registered := Registered.kept.tick _ h.registered }
  have hacts : ∀ e ∈ actsAt s.peer (fun _ => .close)
      ((overdue s.tcp.clock.now s.tcp.tailData s.tcp.nodes).map ClientNode.sock),
      s.chat.Permitted e ∧ s.chat.Whole e := by
    intro e he
    obtain ⟨sock, -, he⟩ := List.mem_filterMap.mp he
    obtain ⟨i, -, rfl⟩ := Option.map_eq_some_iff.mp he
    exact ⟨trivial, trivial⟩
  obtain ⟨chat, hsteps, hreached⟩ :=
    hc.steps (h.distinct _ (h.overdue_nodup s.tcp.clock.now)) hacts
  have hexpire := hclock.expire s.tcp.clock.now s.tcp.nodes _ rfl chat hsteps
  refine ⟨_, ?_, hexpire, hreached⟩
  rw [checkExpiryOfClients_eq, hsteps, Option.map_some, TcpServer.checkExpiryOfClients_eq]

/-- What becomes of a new client is nothing to those that `select` has reported on. -/
structure Undisturbed (s s' : ServerProcess ι) (fds : Finset ℕ) : Prop where
  called : ∀ activity, called fds s'.tcp.tailData s'.tcp.nodes activity =
    called fds s.tcp.tailData s.tcp.nodes activity
  peer : ∀ sock ∈ fds, s'.peer sock = s.peer sock
  links : ∀ sock i, s.peer sock = some i → s'.chat.links i = s.chat.links i
  server : s'.chat.server = s.chat.server

theorem Linked.addClientToTheList (h : s.Linked) (hc : s.chat.Reached) {sock : ℕ} {i : ι}
    (hfree : sock ∉ s.tcp.descriptors) (hopen : (s.chat.links i).closed = false)
    (hnew : ∀ sock', s.peer sock' ≠ some i) {fds : Finset ℕ} (hfds : sock ∉ fds) :
    ∃ s', s.addClientToTheList (some (sock, i)) = some s' ∧ s'.Linked ∧ s'.chat.Reached ∧
      s.Undisturbed s' fds := by
  have hpeer : ∀ sock' ∈ fds, update s.peer sock (some i) sock' = s.peer sock' := by
    intro sock' hsock'
    have hne : sock' ≠ sock := fun he => hfds (he ▸ hsock')
    exact update_of_ne hne _ _
  rw [addClientToTheList_eq h.registered.allocates hfree]
  by_cases hlimit : clientsLimit < s.tcp.nodes.length
  · rw [if_pos hlimit]
    obtain ⟨chat, hstep, hreached⟩ := hc.step (e := (i, .close)) trivial trivial
    obtain rfl := Option.some.inj hstep
    refine ⟨_, rfl, h.refuse hfree hnew, hreached, fun _ => rfl, hpeer, fun sock' j hj => ?_, rfl⟩
    exact Chat.step_links hstep fun he => hnew sock' (he ▸ hj)
  · rw [if_neg hlimit]
    refine ⟨_, rfl, h.enrol hfree hopen hnew, hc, fun _ => ?_, hpeer, fun _ _ _ => rfl, rfl⟩
    exact called_append_idle hfds s.tcp.nodes

omit [DecidableEq ι] in
theorem Undisturbed.tick (s : ServerProcess ι) (fds : Finset ℕ) :
    s.Undisturbed { s with tcp := s.tcp.waitTime.2 } fds := by
  refine ⟨fun activity => ?_, fun _ _ => rfl, fun _ _ _ => rfl, rfl⟩
  rcases s.tcp.waitTime_eq with hw | hw <;> rw [hw]
  rfl

theorem Linked.beforePass (h : s.Linked) (hc : s.chat.Reached) {x : ProcessRound ι}
    (hp : s.PermittedRound x) {fds : Finset ℕ} (hsel : x.selected = .ready fds) :
    ∃ s', s.beforePass x fds = some s' ∧ s'.Linked ∧ s'.chat.Reached ∧ s.Undisturbed s' fds := by
  have htick := h.tick
  have hsame := Undisturbed.tick s fds
  have hdescriptors := waitTime_descriptors s.tcp
  by_cases hmaster : s.tcp.waitTime.2.masterSocket ∈ fds
  · cases hconn : x.conn with
    | none =>
      refine ⟨{ s with tcp := s.tcp.waitTime.2 }, ?_, htick, hc, hsame⟩
      simp [ServerProcess.beforePass, hmaster, hconn, ServerProcess.addClientToTheList,
        TcpServer.addClientToTheList, acceptClient]
    | some conn =>
      obtain ⟨sock, i⟩ := conn
      have hfree : sock ∉ s.tcp.waitTime.2.descriptors := by
        rw [hdescriptors]
        exact hp.calls.accepted sock (by simp [ProcessRound.round, hconn])
      obtain ⟨hopen, hnew⟩ := hp.connects sock i hconn
      have hfds : sock ∉ fds := by
        intro hmem
        obtain ⟨hset, -⟩ := (hp.calls.ready fds hsel).2 sock hmem
        rw [h.registered.fds, Finset.mem_insert, List.mem_toFinset] at hset
        rw [hdescriptors] at hfree
        rcases hset with rfl | hset
        · exact hfree h.registered.master
        · exact hfree (h.registered.opened sock hset)
      obtain ⟨s', hs', hlinked, hreached, hnext⟩ :=
        htick.addClientToTheList hc hfree hopen hnew hfds
      refine ⟨s', ?_, hlinked, hreached, ?_⟩
      · simpa [ServerProcess.beforePass, hmaster, hconn] using hs'
      · exact ⟨fun k => (hnext.called k).trans (hsame.called k), hnext.peer, hnext.links,
          hnext.server⟩
  · refine ⟨{ s with tcp := s.tcp.waitTime.2 }, ?_, htick, hc, hsame⟩
    simp [ServerProcess.beforePass, hmaster]

omit [DecidableEq ι] in
theorem Undisturbed.reported {s' : ServerProcess ι} {fds : Finset ℕ} (h : s.Undisturbed s' fds)
    {traffic : ℕ → Traffic} (P : ClientLink → ℕ → Prop)
    (hp : ∀ sock ∈ fds, ∀ i, s.peer sock = some i → ∀ n, (traffic sock).received = some n →
      P (s.chat.links i) n) :
    ∀ sock ∈ fds, ∀ i, s'.peer sock = some i → ∀ n, (traffic sock).received = some n →
      P (s'.chat.links i) n := by
  intro sock hsock i hi n hn
  rw [h.peer sock hsock] at hi
  rw [h.links sock i hi]
  exact hp sock hsock i hi n hn

omit [DecidableEq ι] in
theorem Undisturbed.receives {s' : ServerProcess ι} {fds : Finset ℕ} (h : s.Undisturbed s' fds)
    {traffic : ℕ → Traffic} (hp : s.Receives fds traffic) : s'.Receives fds traffic :=
  h.reported (fun l n => 0 < n ∧ n ≤ l.toServer.length ∧ n ≤ Server.buffSize) hp

omit [DecidableEq ι] in
theorem Undisturbed.receivesAll {s' : ServerProcess ι} {fds : Finset ℕ} (h : s.Undisturbed s' fds)
    {traffic : ℕ → Traffic} (hw : s.ReceivesAll fds traffic) : s'.ReceivesAll fds traffic :=
  h.reported (fun l n => n = min l.toServer.length Server.buffSize) hw

theorem Linked.step (h : s.Linked) (hc : s.chat.Reached) {e : ProcessAct ι} (hp : s.Permitted e)
    (hw : s.Whole e) : ∃ s', s.step e = some s' ∧ s'.Linked ∧ s'.chat.Reached := by
  cases e with
  | client i act =>
    obtain ⟨chat, hstep, hreached⟩ := hc.step hp.2 hw
    refine ⟨{ s with chat := chat }, ?_, h.client hp.1.closes hstep, hreached⟩
    rw [ServerProcess.step, hstep, Option.map_some]
  | iterate x =>
    have hround : s.PermittedRound x := hp
    cases hsel : x.selected with
    | fails =>
      refine ⟨{ s with tcp := s.tcp.waitTime.2 }, ?_, h.tick, hc⟩
      simp [ServerProcess.step, runServerBody, hsel]
    | timeout =>
      obtain ⟨s', hexpiry, hlinked⟩ := h.tick.checkExpiryOfClients hc
      refine ⟨s', ?_, hlinked⟩
      simpa [ServerProcess.step, runServerBody, hsel] using hexpiry
    | ready fds =>
      obtain ⟨hfds, -⟩ := hround.calls.ready fds hsel
      obtain ⟨s₁, hs₁, h₁, hc₁, hsame⟩ := h.beforePass hc hround hsel
      have hp₁ := hsame.receives (hround.receives fds hsel)
      have hw₁ := hsame.receivesAll (hw fds hsel)
      obtain ⟨s', hs', hlinked⟩ := h₁.receiveAndSend hc₁ hp₁ hw₁ fds.card
      refine ⟨s', ?_, hlinked⟩
      rw [ServerProcess.step, runServerBody_ready hsel hfds, hs₁, Option.bind_some, hs']

end Step

def after (p : Setup) (server : Server) (es : List (ProcessAct ι)) : Option (ServerProcess ι) :=
  Run.after (fun o e => o.bind fun s => s.step e) (some (start p server)) es

@[simp] theorem after_nil (p : Setup) (server : Server) :
    after p server ([] : List (ProcessAct ι)) = some (start p server) := rfl

@[simp] theorem after_snoc (p : Setup) (server : Server) (es : List (ProcessAct ι))
    (e : ProcessAct ι) :
    after p server (es ++ [e]) = (after p server es).bind fun s => s.step e :=
  Run.after_snoc _ _ _ _

end ServerProcess

/-- A run of the server process and its clients, the allocations succeeding. -/
structure ProcessRun (ι : Type) [DecidableEq ι] extends Setup where
  allocates : ∀ n, heap n ≠ 0
  allocator : ℕ → ℕ
  acts : List (ProcessAct ι)
  permitted : ∀ pre e, Occurs acts pre e →
    ∀ s, ServerProcess.after toSetup (Server.running allocator) pre = some s → s.Permitted e

namespace ProcessRun
variable {ι : Type} [DecidableEq ι]

def after (r : ProcessRun ι) (pre : List (ProcessAct ι)) : Option (ServerProcess ι) :=
  ServerProcess.after r.toSetup (Server.running r.allocator) pre

/-- Every `recv` returns all bytes that are there, up to the length that it is asked for. -/
def AllWhole (r : ProcessRun ι) : Prop :=
  ∀ pre e, Occurs r.acts pre e → ∀ s, r.after pre = some s → s.Whole e

theorem after_last (r : ProcessRun ι) {pre : List (ProcessAct ι)} {e : ProcessAct ι}
    {s s' : ServerProcess ι} (hs : r.after pre = some s) (hstep : s.step e = some s') :
    r.after (pre ++ [e]) = some s' := by
  have hs' : ServerProcess.after r.toSetup (Server.running r.allocator) pre = some s := hs
  rw [after, ServerProcess.after_snoc, hs', Option.bind_some, hstep]

theorem start_linked (r : ProcessRun ι) :
    (ServerProcess.start r.toSetup (Server.running r.allocator) : ServerProcess ι).Linked where
  registered := AllocatingRun.registered_start
    ⟨⟨r.toSetup, [], permittedFrom_nil _⟩, r.allocates⟩
  nonNull := r.start_nonNull
  peers := by simp [ServerProcess.start, Setup.start, TcpServer.createServer, socks, nodes]
  apart := by simp [ServerProcess.start]
  listed := by simp [ServerProcess.start]

/-- The process does not crash; the list of clients and the connections agree, and the
connections are those of a run of the conversation. -/
theorem exists_after (r : ProcessRun ι) (hw : r.AllWhole) {pre : List (ProcessAct ι)}
    (hpre : pre <+: r.acts) : ∃ s, r.after pre = some s ∧ s.Linked ∧ s.chat.Reached := by
  induction pre using List.reverseRecOn with
  | nil =>
    refine ⟨_, rfl, r.start_linked, ⟨r.allocator, [], forall_occurs_nil _⟩, ?_, rfl⟩
    exact forall_occurs_nil _
  | append_singleton pre e ih =>
    obtain ⟨s, hs, hlinked, hreached⟩ := ih (Occurs.history hpre)
    obtain ⟨s', hstep, hlinked', hreached'⟩ :=
      hlinked.step hreached (r.permitted pre e hpre s hs) (hw pre e hpre s hs)
    exact ⟨s', r.after_last hs hstep, hlinked', hreached'⟩

def rounds (es : List (ProcessAct ι)) : List Round :=
  es.filterMap fun
    | .iterate x => some x.round
    | .client .. => none

/-- The list of clients is that of a run of the loop without the application. -/
theorem exists_serverRun (r : ProcessRun ι) {pre : List (ProcessAct ι)} (hpre : pre <+: r.acts)
    {s : ServerProcess ι} (hs : r.after pre = some s) :
    ∃ ra : AllocatingRun, ra.toSetup = r.toSetup ∧ ra.rounds = rounds pre ∧
      ra.Top ra.rounds s.tcp := by
  induction pre using List.reverseRecOn generalizing s with
  | nil =>
    obtain rfl := Option.some.inj hs
    exact ⟨⟨⟨r.toSetup, [], permittedFrom_nil _⟩, r.allocates⟩, rfl, rfl, List.prefix_rfl, rfl⟩
  | append_singleton pre e ih =>
    rw [after, ServerProcess.after_snoc, Option.bind_eq_some_iff] at hs
    obtain ⟨s₀, hs₀, hstep⟩ := hs
    obtain ⟨ra, hsetup, hrounds, htop⟩ := ih (Occurs.history hpre) hs₀
    cases e with
    | client i act =>
      obtain ⟨chat, -, rfl⟩ := Option.map_eq_some_iff.mp hstep
      exact ⟨ra, hsetup, by simp [hrounds, rounds], htop⟩
    | iterate x =>
      have hx : s₀.PermittedRound x := r.permitted pre _ hpre s₀ hs₀
      have hbody := ServerProcess.runServerBody_tcp (ra.nonNull htop) hx.calls hstep
      have hafter : ra.toSetup.start.iterate ra.rounds = some s₀.tcp := htop.2
      have hpermitted : ra.toSetup.start.PermittedFrom (ra.rounds ++ [x.round]) := by
        refine (permittedFrom_snoc _ _).mpr ⟨ra.permitted, fun s₁ hs₁ => ?_⟩
        obtain rfl := Option.some.inj (hafter.symm.trans hs₁)
        exact hx.calls
      refine ⟨⟨⟨ra.toSetup, ra.rounds ++ [x.round], hpermitted⟩, ra.allocates⟩, hsetup, ?_,
        List.prefix_rfl, ?_⟩
      · simp [hrounds, rounds]
      · rw [Setup.after_snoc, show ra.toSetup.after ra.rounds = some s₀.tcp from hafter,
          Option.bind_some, hbody]

theorem exists_snoc (r : ProcessRun ι) (hw : r.AllWhole) {s s' : ServerProcess ι}
    (hs : r.after r.acts = some s) {e : ProcessAct ι} (hp : s.Permitted e) (he : s.Whole e)
    (hstep : s.step e = some s') :
    ∃ r' : ProcessRun ι, r'.AllWhole ∧ r'.after r'.acts = some s' := by
  have hthere : ∀ s₀, r.after r.acts = some s₀ → s = s₀ :=
    fun _ hs₀ => Option.some.inj (hs.symm.trans hs₀)
  refine ⟨⟨r.toSetup, r.allocates, r.allocator, r.acts ++ [e],
    (forall_occurs_snoc _ _).mpr ⟨r.permitted, ?_⟩⟩, (forall_occurs_snoc _ _).mpr ⟨hw, ?_⟩,
    r.after_last hs hstep⟩
  · intro s₀ hs₀
    exact hthere s₀ hs₀ ▸ hp
  · intro s₀ hs₀
    exact hthere s₀ hs₀ ▸ he

theorem exists_client (r : ProcessRun ι) (hw : r.AllWhole) {s : ServerProcess ι}
    (hs : r.after r.acts = some s) {i : ι} (act : LinkAct) (hact : act.OfClient)
    (hp : s.chat.Permitted (i, act)) (he : s.chat.Whole (i, act)) {chat : Chat ι}
    (hstep : s.chat.step (i, act) = some chat) :
    ∃ r' : ProcessRun ι, r'.AllWhole ∧ r'.after r'.acts = some { s with chat := chat } := by
  have hstep' : s.step (.client i act) = some { s with chat := chat } := by
    rw [ServerProcess.step, hstep, Option.map_some]
  exact r.exists_snoc hw hs (e := .client i act) ⟨hact, hp⟩ he hstep'

/-! Two clients connect. One registers and the other one logs in, and one iteration of the
server handles both requests. -/

section TwoClients

def noClient : ProcessRun Bool where
  toSetup := serverSide stillClock
  allocates := Nat.succ_ne_zero
  allocator := id
  acts := []
  permitted := forall_occurs_nil _

def acceptIteration (sock : ℕ) (i : Bool) : ProcessRound Bool :=
  ⟨.ready {3}, some (sock, i), fun _ => .recvFails⟩

def requestOf : Bool → ClientCall
  | true => ConnectionRun.registerCall
  | false => ConnectionRun.loginCall

def serveIteration : ProcessRound Bool :=
  ⟨.ready {4, 5}, none,
    fun sock => .succeeds (requestOf (sock = 4)).message.length blankBuffer⟩

def accepted : ServerProcess Bool :=
  ⟨noClient.start.enrol 4, .start (Server.running id), update (fun _ => none) 4 (some true)⟩

def bothAccepted : ServerProcess Bool :=
  ⟨accepted.tcp.waitTime.2.enrol 5, accepted.chat, update accepted.peer 5 (some false)⟩

theorem step_acceptIteration :
    (ServerProcess.start noClient.toSetup (Server.running noClient.allocator)).step
        (.iterate (acceptIteration 4 true)) = some accepted ∧
      accepted.step (.iterate (acceptIteration 5 false)) = some bothAccepted := by
  exact ⟨rfl, rfl⟩

theorem acceptIteration_possible {s : ServerProcess Bool} (sock : ℕ) (i : Bool)
    (hcalls : s.tcp.Permitted (acceptIteration sock i).round)
    (hopen : (s.chat.links i).closed = false) (hpeer : ∀ sock', s.peer sock' ≠ some i) :
    s.Permitted (.iterate (acceptIteration sock i)) ∧
      s.Whole (.iterate (acceptIteration sock i)) := by
  refine ⟨⟨hcalls, ?_, ?_⟩, ?_⟩
  · intro sock' i' h
    cases h
    exact ⟨hopen, hpeer⟩
  · intro fds _ sock _ i hi n hn
    cases hn
  · intro fds _ sock _ i hi n hn
    cases hn

theorem exists_accepted : ∃ r : ProcessRun Bool, r.AllWhole ∧
    r.after r.acts = some bothAccepted := by
  obtain ⟨hstep₁, hstep₂⟩ := step_acceptIteration
  obtain ⟨hp₁, hw₁⟩ :=
    acceptIteration_possible (s := .start noClient.toSetup (Server.running noClient.allocator)) 4
      true
      (permitted_of_mayReport (o := some noClient.start) (by decide) _ rfl) rfl nofun
  obtain ⟨r₁, hr₁, hs₁⟩ := noClient.exists_snoc (forall_occurs_nil _) rfl hp₁ hw₁ hstep₁
  obtain ⟨hp₂, hw₂⟩ :=
    acceptIteration_possible (s := accepted) 5 false
      (permitted_of_mayReport (o := some accepted.tcp) (by decide) _ rfl) rfl (by
        intro sock' h
        by_cases hsock : sock' = 4 <;> simp [accepted, hsock] at h)
  exact r₁.exists_snoc hr₁ hs₁ hp₂ hw₂ hstep₂

theorem exists_called : ∃ (r : ProcessRun Bool) (chat : Chat Bool)
    (a : Atomic Bool Tables ClientCall Decoded), r.AllWhole ∧
      r.after r.acts = some { bothAccepted with chat := chat } ∧ chat.Refines a ∧
      chat.AllOpen ∧ a.state = Tables.empty ∧ (∀ i, a.status i = .called (requestOf i)) ∧
      chat.history = [.call true (requestOf true), .call false (requestOf false)] := by
  obtain ⟨r₀, hr₀, hs₀⟩ := exists_accepted
  have href₀ : bothAccepted.chat.Refines (Atomic.start Tables.empty) := Chat.refines_start id
  obtain ⟨hp₁, chat₁, hstep₁, href₁, hopen₁, hhist₁⟩ :=
    href₀.sends (i := true) (fun _ => rfl) rfl (requestOf true)
  obtain ⟨hp₂, chat₂, hstep₂, href₂, hopen₂, hhist₂⟩ :=
    href₁.sends (i := false) hopen₁ rfl (requestOf false)
  obtain ⟨r₁, hr₁, hs₁⟩ :=
    r₀.exists_client hr₀ hs₀ (.sendToServer (requestOf true)) trivial hp₁ trivial hstep₁
  obtain ⟨r₂, hr₂, hs₂⟩ :=
    r₁.exists_client hr₁ hs₁ (.sendToServer (requestOf false)) trivial hp₂ trivial hstep₂
  refine ⟨r₂, chat₂, _, hr₂, hs₂, href₂, hopen₂, rfl, ?_, ?_⟩
  · intro i
    cases i <;> rfl
  · rw [hhist₂, hhist₁]
    rfl

theorem serveIteration_possible {chat : Chat Bool} {a : Atomic Bool Tables ClientCall Decoded}
    (href : chat.Refines a) (hopen : chat.AllOpen)
    (hst : ∀ i, a.status i = .called (requestOf i)) :
    ({ bothAccepted with chat := chat } : ServerProcess Bool).Permitted
        (.iterate serveIteration) ∧
      ({ bothAccepted with chat := chat } : ServerProcess Bool).Whole
        (.iterate serveIteration) := by
  have hcalls : bothAccepted.tcp.Permitted serveIteration.round := by
    refine ⟨?_, nofun, ?_, nofun⟩
    · intro _ t ht
      have hvalid : bothAccepted.tcp.waitTime.1.all (fun t => ValidWait t) = true := by decide
      simpa [ht] using hvalid
    · intro fds h
      cases h
      exact ⟨⟨4, by decide⟩, by decide⟩
  have hserve : ∀ sock i, bothAccepted.peer sock = some i →
      chat.Permitted (i, .sndRcv (requestOf (sock = 4)).message.length blankBuffer) ∧
        chat.Whole (i, .sndRcv (requestOf (sock = 4)).message.length blankBuffer) := by
    intro sock i hi
    obtain rfl : decide (sock = 4) = i := by
      by_cases h₄ : sock = 4
      · simpa [bothAccepted, accepted, h₄] using hi
      · by_cases h₅ : sock = 5
        · simpa [bothAccepted, h₅] using hi
        · simp [bothAccepted, accepted, h₄, h₅] at hi
    exact href.canServe (hopen _) (hst _) blankBuffer
  refine ⟨⟨hcalls, nofun, ?_⟩, ?_⟩
  · intro fds _ sock _ i hi n hn
    cases hn
    exact (hserve sock i hi).1.2
  · intro fds _ sock _ i hi n hn
    cases hn
    exact (hserve sock i hi).2

theorem step_serveIteration {chat chat₁ chat₂ : Chat Bool}
    (h₁ : chat.step (true, .sndRcv (requestOf true).message.length blankBuffer) = some chat₁)
    (h₂ : chat₁.step (false, .sndRcv (requestOf false).message.length blankBuffer) = some chat₂) :
    ∃ tcp, ({ bothAccepted with chat := chat } : ServerProcess Bool).step
      (.iterate serveIteration) = some ⟨tcp, chat₂, bothAccepted.peer⟩ := by
  let s : ServerProcess Bool := ⟨bothAccepted.tcp.waitTime.2, chat, bothAccepted.peer⟩
  have hnull : s.tcp.NonNull := by
    intro n hn
    rcases List.mem_cons.mp hn with rfl | hn
    · exact Nat.succ_ne_zero _
    · obtain rfl := List.mem_singleton.mp hn
      exact Nat.succ_ne_zero _
  have hready : serveIteration.selected = .ready {4, 5} := rfl
  have hpass : ({ bothAccepted with chat := chat } : ServerProcess Bool).beforePass
      serveIteration {4, 5} = some s := rfl
  have hacts : actsAt s.peer (fun sock => (serveIteration.traffic sock).act)
      ((called {4, 5} s.tcp.tailData s.tcp.nodes ({4, 5} : Finset ℕ).card).map ClientNode.sock) =
      [(true, .sndRcv (requestOf true).message.length blankBuffer),
        (false, .sndRcv (requestOf false).message.length blankBuffer)] := rfl
  rw [ServerProcess.step, ServerProcess.runServerBody_ready hready ⟨4, by decide⟩, hpass,
    Option.bind_some, ServerProcess.receiveAndSend_eq s hnull, hacts, Chat.steps_cons,
    show s.chat.step _ = some chat₁ from h₁, Option.bind_some, Chat.steps_cons, h₂,
    Option.bind_some, Chat.steps_nil, Option.map_some]
  exact ⟨_, rfl⟩

theorem exists_answered : ∃ (r : ProcessRun Bool) (s : ServerProcess Bool), r.AllWhole ∧
    r.after r.acts = some s ∧ s.peer = bothAccepted.peer ∧ s.chat.AllOpen ∧
    s.chat.history = [.call true (requestOf true), .call false (requestOf false),
      .ret false (tablesObject.reply (tablesObject.next Tables.empty (requestOf true))
        (requestOf false)),
      .ret true (tablesObject.reply Tables.empty (requestOf true))] := by
  obtain ⟨r, chat, a, hr, hs, href, hopen, hstate, hst, hhist⟩ := exists_called
  obtain ⟨-, chat₁, hstep₁, href₁, hopen₁, hhist₁⟩ := href.isServed hopen (hst true)
  obtain ⟨-, chat₂, hstep₂, href₂, hopen₂, hhist₂⟩ :=
    href₁.isServed (i := false) hopen₁ (c := requestOf false) (hst false)
  obtain ⟨hp, hw⟩ := serveIteration_possible href hopen hst
  obtain ⟨tcp, hserve⟩ := step_serveIteration hstep₁ hstep₂
  obtain ⟨r₁, hr₁, hs₁⟩ := r.exists_snoc hr hs hp hw hserve
  obtain ⟨⟨hp₃, hw₃⟩, chat₃, hstep₃, href₃, hopen₃, hhist₃⟩ :=
    href₂.receives (i := false) hopen₂ rfl
  obtain ⟨⟨hp₄, hw₄⟩, chat₄, hstep₄, -, hopen₄, hhist₄⟩ :=
    href₃.receives (i := true) hopen₃ rfl
  obtain ⟨r₃, hr₃, hs₃⟩ :=
    r₁.exists_client hr₁ hs₁ (.reciveFromServer Server.buffSize) trivial hp₃ hw₃ hstep₃
  obtain ⟨r₄, hr₄, hs₄⟩ :=
    r₃.exists_client hr₃ hs₃ (.reciveFromServer Server.buffSize) trivial hp₄ hw₄ hstep₄
  refine ⟨r₄, _, hr₄, hs₄, rfl, hopen₄, ?_⟩
  rw [hhist₄, hhist₃, hhist₂, hhist₁, hhist, hstate]
  rfl

end TwoClients

/-- The process is the loop without the application, and a conversation with the clients. A
client that has been accepted is in the list as long as its connection is open. -/
theorem process_refines (r : ProcessRun ι) (hw : r.AllWhole) {pre : List (ProcessAct ι)}
    (hpre : pre <+: r.acts) : ∃ s, r.after pre = some s ∧
      (∃ ra : AllocatingRun, ra.toSetup = r.toSetup ∧ ra.rounds = rounds pre ∧
        ra.Top ra.rounds s.tcp) ∧
      (∃ c : Conversation ι, c.AllWhole ∧ c.after c.acts = some s.chat) ∧
      ∀ sock i, s.peer sock = some i →
        ((s.chat.links i).closed = false ↔ sock ∈ s.tcp.socks) := by
  obtain ⟨s, hs, hlinked, hreached⟩ := r.exists_after hw hpre
  exact ⟨s, hs, r.exists_serverRun hpre hs, hreached, hlinked.listed⟩

theorem process_refines_answered : ∃ s : ServerProcess Bool, s.chat.history.length = 4 ∧
    (∃ ra : AllocatingRun, ra.Top ra.rounds s.tcp) ∧
    (∃ c : Conversation Bool, c.AllWhole ∧ c.after c.acts = some s.chat) ∧
    4 ∈ s.tcp.socks ∧ 5 ∈ s.tcp.socks := by
  obtain ⟨r, s₀, hw, hs₀, hpeer, hopen, hhist⟩ := exists_answered
  obtain ⟨s, hs, ⟨ra, -, -, htop⟩, hchat, hlisted⟩ := r.process_refines hw List.prefix_rfl
  obtain rfl := Option.some.inj (hs₀.symm.trans hs)
  have hpeer₄ : s₀.peer 4 = some true := by
    rw [hpeer]
    rfl
  have hpeer₅ : s₀.peer 5 = some false := by
    rw [hpeer]
    rfl
  exact ⟨s₀, congrArg List.length hhist, ⟨ra, htop⟩, hchat,
    (hlisted 4 true hpeer₄).mp (hopen true), (hlisted 5 false hpeer₅).mp (hopen false)⟩

end ProcessRun
end ChatProject
