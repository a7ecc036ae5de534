import ChatProject.ServerRuns

/-!
# Failed accepts

`AcceptClient` registers the new socket before it allocates the client's record, and a
record that cannot be allocated leaves the socket registered, although closed. The result
of the allocation of a list node is not looked at. A connection that is refused by the
limit, or that `accept` did not return, leaves no trace.
-/

namespace ChatProject
open Memory Run

namespace TcpServer

/-- The ways in which no client is added. -/
def AddFails (s : TcpServer) (conn : Option ℕ) : Prop :=
  conn = none ∨ clientsLimit < s.nodes.length ∨ s.heap 0 = 0 ∨ s.heap 1 = 0

/-- The call returns with the set and the list as before, and with the socket closed and not
registered. -/
def LeavesAsWas (s : TcpServer) (conn : Option ℕ) : Prop :=
  ∃ s', s.addClientToTheList conn = some s' ∧ s'.masterFds = s.masterFds ∧
    s'.connectedClient = s.connectedClient ∧
    ∀ sock, conn = some sock → sock ∉ s'.descriptors ∧ sock ∉ s'.masterFds

def UndoesFailure (s : TcpServer) (conn : Option ℕ) : Prop :=
  s.AddFails conn → s.LeavesAsWas conn

/-- Neither of the two allocations fails, if it comes to them. -/
def AllocatesClient (s : TcpServer) (conn : Option ℕ) : Prop :=
  conn = none ∨ clientsLimit < s.nodes.length ∨ s.heap 0 ≠ 0 ∧ s.heap 1 ≠ 0

def OpenFds (s : TcpServer) : Prop := s.masterFds ⊆ s.descriptors

theorem OpenFds.keptByPass : KeptByPass OpenFds where
  serve := fun _ _ _ _ _ _ h => h
  lose := fun _ _ _ _ _ _ h => h
  remove := fun _ _ _ n _ _ h => Finset.erase_subset_erase n.sock h

theorem OpenFds.enrol {s : TcpServer} (h : s.OpenFds) (sock : ℕ) : (s.enrol sock).OpenFds :=
  Finset.insert_subset_insert sock h

theorem OpenFds.waitTime {s : TcpServer} (h : s.OpenFds) : s.waitTime.2.OpenFds := by
  rcases s.waitTime_eq with hw | hw
  · rw [hw]
    exact h
  · rw [hw]
    exact h

theorem undoesFailure_iff {s : TcpServer} (hs : s.OpenFds) {conn : Option ℕ}
    (hfree : ∀ sock, conn = some sock → sock ∉ s.descriptors) :
    s.UndoesFailure conn ↔ s.AllocatesClient conn := by
  cases conn with
  | none =>
    refine iff_of_true (fun _ => ?_) (.inl rfl)
    exact ⟨s, rfl, rfl, rfl, fun sock hsock => by cases hsock⟩
  | some sock =>
    have hsock := hfree sock rfl
    have hadd := addClientToTheList_eq hsock
    by_cases hlimit : clientsLimit < s.nodes.length
    · rw [if_pos hlimit] at hadd
      refine iff_of_true (fun _ => ⟨s, hadd, rfl, rfl, ?_⟩) (.inr (.inl hlimit))
      intro sock' hsock'
      obtain rfl := Option.some.inj hsock'
      exact ⟨hsock, fun hmem => hsock (hs hmem)⟩
    · rw [if_neg hlimit] at hadd
      by_cases h0 : s.heap 0 = 0
      · rw [if_pos (show s.heap.next = 0 from h0)] at hadd
        refine iff_of_false (fun h => ?_) ?_
        · obtain ⟨s', hs', -, -, hout⟩ := h (.inr (.inr (.inl h0)))
          rw [hadd] at hs'
          obtain rfl := Option.some.inj hs'
          exact (hout sock rfl).2 (Finset.mem_insert_self _ _)
        · intro hallocates
          rcases hallocates with h | h | h
          · cases h
          · exact hlimit h
          · exact h.1 h0
      · rw [if_neg (show s.heap.next ≠ 0 from h0)] at hadd
        by_cases h1 : s.heap 1 = 0
        · rw [if_pos (show s.heap.rest.next = 0 from h1)] at hadd
          refine iff_of_false (fun h => ?_) ?_
          · obtain ⟨s', hs', -⟩ := h (.inr (.inr (.inr h1)))
            rw [hadd] at hs'
            cases hs'
          · intro hallocates
            rcases hallocates with h | h | h
            · cases h
            · exact hlimit h
            · exact h.2 h1
        · refine iff_of_true ?_ (.inr (.inr ⟨h0, h1⟩))
          intro hfails
          rcases hfails with h | h | h | h
          · cases h
          · exact absurd h hlimit
          · exact absurd h h0
          · exact absurd h h1

theorem OpenFds.addClientToTheList {s s' : TcpServer} (h : s.OpenFds) {conn : Option ℕ}
    (hfree : ∀ sock, conn = some sock → sock ∉ s.descriptors) (hc : s.AllocatesClient conn)
    (ha : s.addClientToTheList conn = some s') : s'.OpenFds := by
  rcases addClientToTheList_cases hfree ha with
    rfl | ⟨sock, rfl, hsock, ⟨rfl, hclient⟩ | ⟨rfl, -, -⟩⟩
  · exact h
  · rw [addClientToTheList_eq hsock] at ha
    rcases hc with hnone | hlimit | ⟨h0, -⟩
    · cases hnone
    · rw [if_pos hlimit] at ha
      exact Option.some.inj ha ▸ h
    · exact absurd hclient h0
  · exact h.enrol sock

/-- Every accept of the iteration that fails is undone. -/
def UndoesFailedAccept (s : TcpServer) (x : Round) : Prop :=
  ∀ fds, x.selected = .ready fds → s.masterSocket ∈ fds → s.waitTime.2.UndoesFailure x.conn

def AllocatesAccepted (s : TcpServer) (x : Round) : Prop :=
  ∀ fds, x.selected = .ready fds → s.masterSocket ∈ fds → s.waitTime.2.AllocatesClient x.conn

theorem OpenFds.runServerBody {s s' : TcpServer} (h : s.OpenFds) (hnull : s.NonNull) {x : Round}
    (hx : Permitted s x) (hc : s.AllocatesAccepted x) (hb : s.runServerBody x = some s') :
    s'.OpenFds := by
  cases hsel : x.selected with
  | fails =>
    rw [runServerBody_fails hsel] at hb
    exact Option.some.inj hb ▸ h.waitTime
  | timeout =>
    rw [runServerBody_timeout hsel] at hb
    rw [← Option.some.inj hb]
    exact keptByPass.checkExpiryOfClients h.waitTime
  | ready fds =>
    rw [runServerBody_ready hsel (hx.ready fds hsel).1, Option.map_eq_some_iff] at hb
    obtain ⟨s₁, hs₁, rfl⟩ := hb
    refine keptByPass.receiveAndSend (NonNull.kept.beforePass hnull hx hs₁) ?_ _ _ _
    rw [beforePass] at hs₁
    split_ifs at hs₁ with hmaster
    · exact h.waitTime.addClientToTheList (waitTime_free hx) (hc fds hsel hmaster) hs₁
    · exact Option.some.inj hs₁ ▸ h.waitTime

end TcpServer

open TcpServer

namespace ServerRun
variable {r : ServerRun} {pre : List Round} {x : Round} {s : TcpServer}

def FailedAcceptsUndone (r : ServerRun) : Prop :=
  ∀ pre x s, r.Enters pre x s → s.UndoesFailedAccept x

theorem failedAcceptsUndone_iff (r : ServerRun) :
    r.FailedAcceptsUndone ↔ ∀ pre x s, r.Enters pre x s → s.AllocatesAccepted x := by
  have h0 : r.start.OpenFds := by
    intro fd hfd
    rw [Finset.mem_singleton.mp hfd]
    exact Finset.mem_insert_self _ _
  refine r.forall_enters_iff h0 ?_ ?_
  · intro pre x s hs hopen
    have hcall := undoesFailure_iff hopen.waitTime (waitTime_free hs.permitted)
    exact forall_congr' fun fds => imp_congr_right fun _ => imp_congr_right fun _ => hcall
  · intro pre x s s' hs hopen hc hb
    exact hopen.runServerBody (r.nonNull hs.top) hs.permitted hc hb

/-- The listening socket 3 is ready, and there is no memory for the record of connection 4. -/
def recordFailure : ServerRun where
  toSetup := { serverSide stillClock with heap := fun _ => 0 }
  rounds := [acceptRound 4]
  permitted := by
    refine (permittedFrom_snoc [] (acceptRound 4)).mpr ⟨permittedFrom_nil _, ?_⟩
    exact permitted_of_mayReport (by decide)

theorem not_failedAcceptsUndone_recordFailure : ¬ recordFailure.FailedAcceptsUndone := by
  intro h
  have henter : recordFailure.Enters [] (acceptRound 4) recordFailure.start :=
    ⟨List.prefix_rfl, rfl⟩
  obtain ⟨s', hs', hfds, -⟩ := h _ _ _ henter {3} rfl (by decide) (.inr (.inr (.inl rfl)))
  have hset : (recordFailure.start.waitTime.2.addClientToTheList (some 4)).map masterFds =
      some {3, 4} := by decide
  have hmaster : recordFailure.start.waitTime.2.masterFds = {3} := by decide
  change recordFailure.start.waitTime.2.addClientToTheList (some 4) = some s' at hs'
  rw [hs', Option.map_some, hfds, hmaster] at hset
  revert hset
  decide

end ServerRun
end ChatProject
