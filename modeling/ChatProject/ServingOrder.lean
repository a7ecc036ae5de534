import ChatProject.ProcessRuns

/-!
# The order of serving

An iteration of the server takes one request from each client that is ready, in the order of
the list of clients. Each request is answered as the tables are when its turn comes: all
requests of the clients before it have taken effect, and none of the clients behind it.
-/

namespace ChatProject
open Memory Run Function TcpServer Linearizability

namespace Chat
variable {ι : Type} [DecidableEq ι]

/-- What is done between `s` and `s'` for these clients, `l` being the requests handled and `t`
the tables before. -/
structure Handles (s s' : Chat ι) (t : Tables) (es : List (ι × Traffic))
    (l : List (ι × ClientCall)) : Prop where
  clients : l.map Prod.fst = (es.filter fun e => e.2.received.isSome).map Prod.fst
  requests : ∀ e ∈ l, (s.links e.1).toServer = e.2.message
  answers : ∀ pre e, Occurs l pre e → ∀ n beyond, (e.1, .succeeds n beyond) ∈ es →
    (s'.links e.1).toServer = [] ∧
      e.2.decode (s'.links e.1).toClient = tablesObject.reply (stateAfter tablesObject t pre) e.2
  closed : ∀ e ∈ es, (s'.links e.1).closed = e.2.act.closes

variable {s s' : Chat ι} {t : Tables} {es : List (ι × Traffic)} {l : List (ι × ClientCall)}

omit [DecidableEq ι] in
theorem Handles.mem_clients (h : s.Handles s' t es l) {e : ι × ClientCall} (he : e ∈ l) :
    e.1 ∈ es.map Prod.fst := by
  have hmem : e.1 ∈ l.map Prod.fst := List.mem_map_of_mem he
  rw [h.clients] at hmem
  exact (List.filter_sublist.map _).subset hmem

omit [DecidableEq ι] in
theorem Handles.congr {s₁ : Chat ι} (h : s₁.Handles s' t es l)
    (hlinks : ∀ i ∈ es.map Prod.fst, s₁.links i = s.links i) : s.Handles s' t es l where
  clients := h.clients
  requests := fun e he => hlinks e.1 (h.mem_clients he) ▸ h.requests e he
  answers := h.answers
  closed := h.closed

theorem step_requests {i : ι} {n : ℕ} {beyond : Block Server.buffSize}
    (h : s.step (i, .sndRcv n beyond) = some s') :
    (s'.links i).requests = (s.links i).requests := by
  obtain ⟨c, hc, rfl⟩ := Option.map_eq_some_iff.mp h
  have hrequests : c.requests = (s.links i).requests := by
    rw [Connection.step] at hc
    split at hc
    · rw [← Option.some.inj hc]
      rfl
    · cases hc
  simpa [setLink, Connection.link] using hrequests

variable {a : Atomic ι Tables ClientCall Decoded}

theorem Refines.handle (h : s.Refines a) {i : ι} {x : Traffic} (hp : s.Permitted (i, x.act))
    (hw : s.Whole (i, x.act)) :
    ∃ s' a', s.step (i, x.act) = some s' ∧ s'.Refines a' ∧
      (s'.links i).closed = x.act.closes ∧
      (x.received.isSome = false ∧ a'.state = a.state ∨
        x.received.isSome = true ∧ ∃ c, (s.links i).toServer = c.message ∧
          a'.state = tablesObject.next a.state c ∧ ∀ n beyond, x = .succeeds n beyond →
            (s'.links i).toServer = [] ∧
              c.decode (s'.links i).toClient = tablesObject.reply a.state c) := by
  cases x with
  | recvFails =>
    have hstep : s.step (i, Traffic.recvFails.act) =
        some (s.setLink i { s.links i with closed := true }) := rfl
    refine ⟨_, a, hstep, h.close i, ?_, .inl ⟨rfl, rfl⟩⟩
    rw [step_closed hstep]
    rfl
  | sendFails n =>
    obtain ⟨c, s', hst, hstep, href, -, hlost⟩ := h.sendFails hp hw
    have hat := h.open_at hp.1
    rw [hst] at hat
    refine ⟨s', _, hstep, href, hlost.closed, .inr ⟨rfl, c, hat.1, rfl, ?_⟩⟩
    intro m beyond hx
    cases hx
  | succeeds n beyond =>
    obtain ⟨c, s', hst, hstep, href, hopen, -⟩ := h.serve hp hw
    have hat := h.open_at hp.1
    rw [hst] at hat
    obtain ⟨htoServer, -, cs, hrequests, -⟩ := hat
    have hat' := href.open_at hopen
    simp only [update_self] at hat'
    obtain ⟨hempty, -, cs', c', hrequests', -, hdecode⟩ := hat'
    rw [step_requests hstep, hrequests] at hrequests'
    obtain ⟨-, rfl⟩ := List.append_singleton_inj.mp hrequests'
    exact ⟨s', _, hstep, href, hopen, .inr ⟨rfl, c, htoServer, rfl, fun _ _ _ => ⟨hempty, hdecode⟩⟩⟩

theorem Refines.handles (h : s.Refines a) (hdistinct : (es.map Prod.fst).Nodup)
    (hes : ∀ e ∈ es, s.Permitted (e.1, e.2.act) ∧ s.Whole (e.1, e.2.act)) :
    ∃ s' a' l, s.steps (es.map fun e => (e.1, e.2.act)) = some s' ∧ s'.Refines a' ∧
      a'.state = stateAfter tablesObject a.state l ∧ s.Handles s' a.state es l ∧
      ∀ j, j ∉ es.map Prod.fst → s'.links j = s.links j := by
  induction es using List.reverseRecOn with
  | nil =>
    refine ⟨s, a, [], rfl, h, rfl, ⟨rfl, ?_, forall_occurs_nil _, ?_⟩, fun _ _ => rfl⟩
    · intro e he
      cases he
    · intro e he
      cases he
  | append_singleton es e ih =>
    obtain ⟨i, x⟩ := e
    rw [List.map_append, List.nodup_append] at hdistinct
    obtain ⟨hnodup, -, hapart⟩ := hdistinct
    have hnew : i ∉ es.map Prod.fst := fun hmem => hapart i hmem i (by simp) rfl
    obtain ⟨s₁, a₁, l, hsteps, href₁, hstate, hl, hothers⟩ :=
      ih hnodup fun e he => hes e (List.mem_append_left _ he)
    have hlink : s₁.links i = s.links i := hothers i hnew
    obtain ⟨hp, hw⟩ := hes (i, x) (by simp)
    have hp₁ : s₁.Permitted (i, x.act) := hp.congr hlink
    have hw₁ : s₁.Whole (i, x.act) := hw.congr hlink
    obtain ⟨s', a', hstep, href', hclosed, hcase⟩ := href₁.handle hp₁ hw₁
    have hsteps' : s.steps ((es ++ [(i, x)]).map fun e => (e.1, e.2.act)) = some s' := by
      rw [List.map_append, steps_append, hsteps, Option.bind_some, List.map_singleton,
        steps_cons, hstep, Option.bind_some, steps_nil]
    have hkept : ∀ e ∈ es, s'.links e.1 = s₁.links e.1 := by
      intro e he
      have hne : e.1 ≠ i := fun heq => hnew (heq ▸ List.mem_map_of_mem he)
      exact step_links hstep hne
    have hclosed' : ∀ e ∈ es ++ [(i, x)], (s'.links e.1).closed = e.2.act.closes := by
      intro e he
      rcases List.mem_append.mp he with he | he
      · rw [hkept e he, hl.closed e he]
      · obtain rfl := List.mem_singleton.mp he
        exact hclosed
    have hanswers : ∀ pre e, Occurs l pre e → ∀ n beyond,
        (e.1, .succeeds n beyond) ∈ es ++ [(i, x)] → (s'.links e.1).toServer = [] ∧
          e.2.decode (s'.links e.1).toClient =
            tablesObject.reply (stateAfter tablesObject a.state pre) e.2 := by
      intro pre e hocc n beyond hmem
      have hearlier := hl.mem_clients (hocc.subset (by simp) : e ∈ l)
      rcases List.mem_append.mp hmem with hmem | hmem
      · rw [hkept _ hmem]
        exact hl.answers pre e hocc n beyond hmem
      · have heq : e.1 = i := congrArg Prod.fst (List.mem_singleton.mp hmem)
        exact absurd (heq ▸ hearlier) hnew
    have hothers' : ∀ j, j ∉ (es ++ [(i, x)]).map Prod.fst → s'.links j = s.links j := by
      intro j hj
      rw [List.map_append, List.mem_append, not_or] at hj
      have hne : j ≠ i := by simpa using hj.2
      rw [step_links hstep hne, hothers j hj.1]
    rcases hcase with ⟨hnone, hsame⟩ | ⟨hsome, c, hmessage, hnext, hserved⟩
    · refine ⟨s', a', l, hsteps', href', hsame.trans hstate, ⟨?_, hl.requests, hanswers, hclosed'⟩,
        hothers'⟩
      rw [List.filter_append, List.map_append, ← hl.clients]
      simp [hnone]
    · refine ⟨s', a', l ++ [(i, c)], hsteps', href', ?_, ⟨?_, ?_, ?_, hclosed'⟩, hothers'⟩
      · rw [hnext, hstate, stateAfter_snoc]
      · rw [List.filter_append, List.map_append, List.map_append, ← hl.clients]
        simp [hsome]
      · intro e he
        rcases List.mem_append.mp he with he | he
        · exact hl.requests e he
        · obtain rfl := List.mem_singleton.mp he
          exact hlink ▸ hmessage
      · refine (forall_occurs_snoc _ _).mpr ⟨hanswers, fun n beyond hmem => ?_⟩
        rcases List.mem_append.mp hmem with hmem | hmem
        · exact absurd (List.mem_map_of_mem hmem) hnew
        · have hx : x = .succeeds n beyond :=
            (congrArg Prod.snd (List.mem_singleton.mp hmem)).symm
          have hreply := hserved n beyond hx
          rwa [hstate] at hreply

end Chat

namespace ServerProcess
variable {ι : Type} [DecidableEq ι]

def readyClients (s : ServerProcess ι) (fds : Finset ℕ) (traffic : ℕ → Traffic) :
    List (ι × Traffic) :=
  ((met s.tcp.tailData s.tcp.nodes).filter fun n => n.sock ∈ fds).filterMap fun n =>
    (s.peer n.sock).map fun i => (i, traffic n.sock)

variable {s s' : ServerProcess ι} {fds : Finset ℕ} {traffic : ℕ → Traffic}

omit [DecidableEq ι] in
/-- `select` reports on all clients that are ready, so a pass calls all of them. -/
theorem Linked.called_eq (h : s.Linked) (fds : Finset ℕ) :
    called fds s.tcp.tailData s.tcp.nodes fds.card =
      (met s.tcp.tailData s.tcp.nodes).filter fun n => n.sock ∈ fds := by
  have hmet : (met s.tcp.tailData s.tcp.nodes).Sublist s.tcp.nodes := List.takeWhile_sublist _
  have hcount : readyCount fds (met s.tcp.tailData s.tcp.nodes) ≤ fds.card :=
    readyCount_le (h.registered.distinct.sublist (hmet.map _))
  rw [readyCount, List.countP_eq_length_filter] at hcount
  exact List.take_of_length_le hcount

omit [DecidableEq ι] in
theorem Linked.actsAt_called (h : s.Linked) (fds : Finset ℕ) (traffic : ℕ → Traffic) :
    actsAt s.peer (fun sock => (traffic sock).act)
        ((called fds s.tcp.tailData s.tcp.nodes fds.card).map ClientNode.sock) =
      (s.readyClients fds traffic).map fun e => (e.1, e.2.act) := by
  rw [h.called_eq, actsAt, List.filterMap_map, readyClients, List.map_filterMap]
  congr 1
  funext n
  cases hpeer : s.peer n.sock <;> simp [hpeer]

omit [DecidableEq ι] in
theorem mem_readyClients {i : ι} (h : i ∈ (s.readyClients fds traffic).map Prod.fst) :
    ∃ sock ∈ fds, s.peer sock = some i := by
  obtain ⟨e, he, rfl⟩ := List.mem_map.mp h
  obtain ⟨n, hn, he⟩ := List.mem_filterMap.mp he
  obtain ⟨i, hi, rfl⟩ := Option.map_eq_some_iff.mp he
  exact ⟨n.sock, of_decide_eq_true (List.mem_filter.mp hn).2, hi⟩

omit [DecidableEq ι] in
theorem Undisturbed.readyClients (h : s.Undisturbed s' fds) (hs : s.Linked) (hs' : s'.Linked)
    (traffic : ℕ → Traffic) : s'.readyClients fds traffic = s.readyClients fds traffic := by
  have hcalled := h.called fds.card
  rw [hs.called_eq, hs'.called_eq] at hcalled
  rw [ServerProcess.readyClients, hcalled, ServerProcess.readyClients]
  refine List.filterMap_congr fun n hn => ?_
  have hready : n.sock ∈ fds := of_decide_eq_true (List.mem_filter.mp hn).2
  rw [h.peer n.sock hready]

end ServerProcess

namespace ProcessRun
variable {ι : Type} [DecidableEq ι]

end ProcessRun
end ChatProject
