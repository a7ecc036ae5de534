import ChatProject.ClientTimes

/-!
# The time limit of `select`

`select` is given the deadline of the client at the head, less the present time, and refuses
it once the deadline is past. It refuses its set of descriptors as well if one of them is not
open, as when a client's record could not be allocated. The loop then goes on without looking
at any client, so the next `select` is refused too.
-/

namespace ChatProject
open Memory TimeVal Run

namespace TcpServer

/-- Unless it fails, `select` has found all descriptors that it is given open. -/
structure Possible (s : TcpServer) (x : Round) : Prop extends Permitted s x where
  opened : x.selected ≠ .fails → s.masterFds ⊆ s.descriptors

def PossibleFrom (s : TcpServer) (xs : List Round) : Prop :=
  ∀ pre x, Occurs xs pre x → ∀ s', s.iterate pre = some s' → Possible s' x

/-- `select` fails in every iteration from here on, although clients are connected. -/
def Stuck (s : TcpServer) : Prop :=
  s.nodes ≠ [] ∧ ∀ xs, s.PossibleFrom xs → ∀ x ∈ xs, x.selected = .fails

theorem waitTime_nil {s : TcpServer} (h : s.nodes = []) : s.waitTime.1 = none := by
  have hsize : s.connectedClient.size = 0 := congrArg List.length h
  rw [waitTime, if_pos hsize]

theorem waitTime_cons {s : TcpServer} {n : ClientNode} {rest : List ClientNode}
    (h : s.nodes = n :: rest) :
    s.waitTime = (some (timersub n.timeout s.clock.now), { s with clock := s.clock.rest }) := by
  have hget : s.connectedClient.itrGet s.connectedClient.itrBegin = some n.2 :=
    LinkedList.itrGet_split (show s.nodes = [] ++ n :: rest from h)
  have hsize : s.connectedClient.size ≠ 0 := by
    change s.nodes.length ≠ 0
    rw [h]
    exact Nat.succ_ne_zero _
  rw [waitTime, if_neg hsize, getTTL, hget]
  rfl

theorem validWait_timersub {a b : TimeVal} (ha : a.Normalised) (hb : b.Normalised) :
    ValidWait (timersub a b) ↔ b.micros ≤ a.micros := by
  have hn := normalised_timersub ha hb
  rw [ValidWait, sec_nonneg_iff hn, micros_timersub]
  constructor
  · rintro ⟨h, -⟩
    omega
  · intro h
    exact ⟨by omega, hn.1⟩

def Overdue (s : TcpServer) : Prop :=
  ∃ n rest, s.nodes = n :: rest ∧ n.timeout.Normalised ∧ n.timeout.micros < s.clock.now.micros

theorem Overdue.not_valid {s : TcpServer} (h : s.Overdue) :
    ∃ t, s.waitTime.1 = some t ∧ ¬ ValidWait t := by
  obtain ⟨n, rest, hn, hnorm, hlt⟩ := h
  refine ⟨timersub n.timeout s.clock.now, by rw [waitTime_cons hn], ?_⟩
  rw [validWait_timersub hnorm s.clock.now_normalised]
  omega

theorem Overdue.next {s : TcpServer} {x : Round} (h : s.Overdue) (hx : Permitted s x) :
    x.selected = .fails ∧ ∃ s', s.runServerBody x = some s' ∧ s'.Overdue := by
  obtain ⟨t, ht, hinvalid⟩ := h.not_valid
  have hfails : x.selected = .fails := by
    by_contra hne
    exact hinvalid (hx.valid hne t ht)
  obtain ⟨n, rest, hn, hnorm, hlt⟩ := h
  refine ⟨hfails, { s with clock := s.clock.rest }, ?_, n, rest, hn, hnorm, ?_⟩
  · rw [runServerBody_fails hfails, waitTime_cons hn]
  · exact hlt.trans_le s.clock.now_le_rest

/-- `select` refuses its time limit or its descriptors. -/
def Refused (s : TcpServer) : Prop :=
  s.Overdue ∨ s.nodes ≠ [] ∧ ¬ s.masterFds ⊆ s.descriptors

theorem Refused.nodes_ne_nil {s : TcpServer} (h : s.Refused) : s.nodes ≠ [] := by
  rcases h with ⟨n, rest, hn, -⟩ | ⟨hne, -⟩
  · simp [hn]
  · exact hne

theorem Refused.next {s : TcpServer} {x : Round} (h : s.Refused) (hx : Possible s x) :
    x.selected = .fails ∧ ∃ s', s.runServerBody x = some s' ∧ s'.Refused := by
  rcases h with hover | ⟨hne, hclosed⟩
  · obtain ⟨hfails, s', hs', hover'⟩ := hover.next hx.toPermitted
    exact ⟨hfails, s', hs', .inl hover'⟩
  · have hfails : x.selected = .fails := by
      by_contra hok
      exact hclosed (hx.opened hok)
    refine ⟨hfails, _, runServerBody_fails hfails, .inr ?_⟩
    rcases s.waitTime_eq with hw | hw
    · rw [hw]
      exact ⟨hne, hclosed⟩
    · rw [hw]
      exact ⟨hne, hclosed⟩

theorem Refused.iterate {s : TcpServer} (h : s.Refused) {xs : List Round}
    (hxs : s.PossibleFrom xs) (pre : List Round) (hpre : pre <+: xs) :
    ∃ s', s.iterate pre = some s' ∧ s'.Refused := by
  induction pre using List.reverseRecOn with
  | nil => exact ⟨s, rfl, h⟩
  | append_singleton pre x ih =>
    obtain ⟨s', hs', hrefused⟩ := ih (Occurs.history hpre)
    obtain ⟨-, s'', hs'', hrefused'⟩ := hrefused.next (hxs pre x hpre s' hs')
    exact ⟨s'', by rw [iterate_snoc, hs', Option.bind_some, hs''], hrefused'⟩

theorem Refused.stuck {s : TcpServer} (h : s.Refused) : s.Stuck := by
  refine ⟨h.nodes_ne_nil, ?_⟩
  intro xs hxs x hx
  obtain ⟨pre, post, rfl⟩ := List.append_of_mem hx
  have hocc : Occurs (pre ++ x :: post) pre x := ⟨post, by simp⟩
  obtain ⟨s', hs', hrefused⟩ := h.iterate hxs pre hocc.history
  exact (hrefused.next (hxs pre x hocc s' hs')).1

theorem not_stuck {s : TcpServer} (h : ∀ t, s.waitTime.1 = some t → ValidWait t)
    (hopen : s.masterFds ⊆ s.descriptors) : ¬ s.Stuck := by
  rintro ⟨hne, hstuck⟩
  obtain ⟨n, rest, hn⟩ := List.exists_cons_of_ne_nil hne
  have hx : Possible s ⟨.timeout, none, fun _ => .succeeds⟩ := by
    refine ⟨⟨?_, ?_, ?_, ?_⟩, fun _ => hopen⟩
    · intro _
      exact h
    · intro _
      simp [waitTime_cons hn]
    · intro fds hfds
      cases hfds
    · intro sock hsock
      cases hsock
  have hfrom : s.PossibleFrom ([] ++ [⟨.timeout, none, fun _ => .succeeds⟩]) := by
    refine (forall_occurs_snoc [] _).mpr ⟨forall_occurs_nil _, ?_⟩
    intro s' hs'
    exact Option.some.inj hs' ▸ hx
  have hfails := hstuck _ hfrom _ (List.mem_singleton_self _)
  cases hfails

end TcpServer

open TcpServer

namespace ServerRun

/-- `select` is never given a time limit that it refuses, and the loop does not get stuck. -/
def WaitsValid (r : ServerRun) : Prop :=
  ∀ pre s, r.Top pre s → (∀ t, s.waitTime.1 = some t → ValidWait t) ∧ ¬ s.Stuck

variable {r : ServerRun} {pre : List Round} {s : TcpServer}

theorem overdue_iff (hs : r.Top pre s) {n : ClientNode} {rest : List ClientNode}
    (hn : s.nodes = n :: rest) {t : TimeVal} (ht : lastActivity n.sock s.events = some t) :
    s.Overdue ↔ t.micros + r.maxWaitTime * second < s.clock.now.micros := by
  obtain ⟨t', hact⟩ := (r.timely hs).active n (by simp [hn])
  have htt : t' = t := Option.some.inj (hact.last.symm.trans ht)
  have hw := (r.fixed hs).maxWaitTime
  have hmicros : n.timeout.micros = t.micros + r.maxWaitTime * second := by
    rw [hact.timeout, micros_timeradd, htt, hw, micros_ofSeconds]
  constructor
  · rintro ⟨n', rest', hn', -, hlt⟩
    rw [hn, List.cons.injEq] at hn'
    rwa [← hn'.1, hmicros] at hlt
  · intro hlt
    refine ⟨n, rest, hn, ?_, by rwa [hmicros]⟩
    rw [hact.timeout, hw]
    exact normalised_timeradd hact.normalised (normalised_ofSeconds _)

theorem validWait_iff (hs : r.Top pre s) :
    (∀ t, s.waitTime.1 = some t → ValidWait t) ↔ ¬ s.Overdue := by
  constructor
  · intro hvalid hover
    obtain ⟨t, ht, hinvalid⟩ := hover.not_valid
    exact hinvalid (hvalid t ht)
  · intro hover t ht
    cases hn : s.nodes with
    | nil => simp [waitTime_nil hn] at ht
    | cons n rest =>
      obtain ⟨t', hact⟩ := (r.timely hs).active n (by simp [hn])
      have hnorm : n.timeout.Normalised := by
        rw [hact.timeout, (r.fixed hs).maxWaitTime]
        exact normalised_timeradd hact.normalised (normalised_ofSeconds _)
      rw [waitTime_cons hn, Option.some.injEq] at ht
      rw [← ht, validWait_timersub hnorm s.clock.now_normalised]
      by_contra hlt
      exact hover ⟨n, rest, hn, hnorm, by omega⟩

theorem stuck_iff (hs : r.Top pre s) : s.Stuck ↔ s.Refused := by
  constructor
  · intro hstuck
    by_contra hrefused
    obtain ⟨hover, hclosed⟩ := not_or.mp hrefused
    have hopen : s.masterFds ⊆ s.descriptors := by
      by_contra hnot
      exact hclosed ⟨hstuck.1, hnot⟩
    exact not_stuck ((validWait_iff hs).mpr hover) hopen hstuck
  · exact Refused.stuck

theorem clock_le_succ (n : ℕ) : 400 * n ≤ 400 * (n + 1) :=
  Nat.mul_le_mul_left 400 (Nat.le_succ n)

/-- Client 4 is accepted, and the clock is next read 400 seconds later. -/
def idleAfterAccept : ServerRun where
  toSetup := serverSide (readings (fun n => 400 * n) clock_le_succ)
  rounds := [acceptRound 4]
  permitted := by
    refine (permittedFrom_snoc [] (acceptRound 4)).mpr ⟨permittedFrom_nil _, ?_⟩
    exact permitted_of_mayReport (by decide)

end ServerRun
end ChatProject
