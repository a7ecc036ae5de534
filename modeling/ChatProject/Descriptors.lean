import ChatProject.ServerRuns

/-!
# The descriptor set and the client list

The set passed to `select` holds the master socket and the sockets of the listed clients,
which are open and different from each other. Accepting, serving and removing a client each
keep this, when the allocations succeed; a record or a node that cannot be allocated leaves
a socket in the set that no listed client has.
-/

namespace ChatProject
open Memory Run

namespace TcpServer

def socks (s : TcpServer) : List ℕ := s.nodes.map ClientNode.sock

structure DescriptorsAgree (s : TcpServer) : Prop where
  fds : s.masterFds = insert s.masterSocket s.socks.toFinset
  distinct : s.socks.Nodup
  opened : ∀ sock ∈ s.socks, sock ∈ s.descriptors
  max : ∀ fd ∈ s.masterFds, fd ≤ s.maxSocket

/-- What the steps keep besides: the master socket stays open and is no client's. -/
structure Registered (s : TcpServer) : Prop extends DescriptorsAgree s where
  master : s.masterSocket ∈ s.descriptors
  notMaster : s.masterSocket ∉ s.socks
  allocates : ∀ n, s.heap n ≠ 0

namespace Registered
variable {s : TcpServer} {front todo : List ClientNode} {n : ClientNode}

theorem socks_perm (hn : s.nodes = front ++ n :: todo) :
    s.socks.Perm (n.sock :: (front ++ todo).map ClientNode.sock) := by
  rw [socks, hn, ← List.map_cons]
  exact List.perm_middle.map _

theorem serve (h : s.Registered) (hn : s.nodes = front ++ n :: todo) :
    (s.serve front todo n).Registered := by
  have hperm := socks_perm hn
  change s.socks.Perm (s.serve front todo n).socks at hperm
  have hset : (s.serve front todo n).socks.toFinset = s.socks.toFinset :=
    (List.toFinset_eq_of_perm _ _ hperm).symm
  exact {
    fds := by rw [hset]; exact h.fds
    distinct := hperm.nodup_iff.mp h.distinct
    opened := fun sock hsock => h.opened sock (hperm.mem_iff.mpr hsock)
    max := h.max
    master := h.master
    notMaster := fun hm => h.notMaster (hperm.mem_iff.mpr hm)
    allocates := fun k => h.allocates (k + 1) }

theorem removeClient (h : s.Registered) (hn : s.nodes = front ++ n :: todo) (farewell : Bool) :
    (s.removeClient front todo n farewell).Registered := by
  have hperm := socks_perm hn
  change s.socks.Perm (n.sock :: (s.removeClient front todo n farewell).socks) at hperm
  have hnodup := List.nodup_cons.mp (hperm.nodup_iff.mp h.distinct)
  have hmaster : n.sock ≠ s.masterSocket := by
    intro he
    exact h.notMaster (hperm.mem_iff.mpr (he ▸ List.mem_cons_self))
  exact {
    fds := by
      change s.masterFds.erase n.sock = _
      rw [h.fds, List.toFinset_eq_of_perm _ _ hperm, List.toFinset_cons,
        Finset.erase_insert_of_ne hmaster.symm, Finset.erase_insert]
      · rfl
      · rw [List.mem_toFinset]
        exact hnodup.1
    distinct := hnodup.2
    opened := by
      intro sock hsock
      refine Finset.mem_erase.mpr ⟨fun he => hnodup.1 (he ▸ hsock), ?_⟩
      exact h.opened sock (hperm.mem_iff.mpr (List.mem_cons_of_mem _ hsock))
    max := fun fd hfd => h.max fd (Finset.mem_of_mem_erase hfd)
    master := Finset.mem_erase.mpr ⟨hmaster.symm, h.master⟩
    notMaster := fun hm => h.notMaster (hperm.mem_iff.mpr (List.mem_cons_of_mem _ hm))
    allocates := h.allocates }

theorem socks_enrol (s : TcpServer) (sock : ℕ) : (s.enrol sock).socks = s.socks ++ [sock] := by
  simp [socks, TcpServer.enrol, nodes, enrolled, ClientNode.sock]

theorem enrol (h : s.Registered) {sock : ℕ} (hsock : sock ∉ s.descriptors) :
    (s.enrol sock).Registered where
  fds := by
    change insert sock s.masterFds = insert s.masterSocket (s.enrol sock).socks.toFinset
    rw [socks_enrol, h.fds, List.toFinset_append, Finset.insert_comm]
    simp [Finset.union_comm]
  distinct := by
    rw [socks_enrol, List.nodup_append]
    refine ⟨h.distinct, List.nodup_singleton _, ?_⟩
    intro a ha b hb he
    rw [List.mem_singleton.mp hb] at he
    exact hsock (he ▸ h.opened a ha)
  opened := by
    intro a ha
    rw [socks_enrol, List.mem_append, List.mem_singleton] at ha
    rcases ha with ha | rfl
    · exact Finset.mem_insert_of_mem (h.opened a ha)
    · exact Finset.mem_insert_self _ _
  max := by
    intro fd hfd
    change fd ≤ if s.maxSocket < sock then sock else s.maxSocket
    rcases Finset.mem_insert.mp hfd with rfl | hfd
    · split_ifs <;> omega
    · have hle := h.max fd hfd
      split_ifs <;> omega
  master := Finset.mem_insert_of_mem h.master
  notMaster := by
    intro hm
    change s.masterSocket ∈ (s.enrol sock).socks at hm
    rw [socks_enrol, List.mem_append, List.mem_singleton] at hm
    rcases hm with hm | hm
    · exact h.notMaster hm
    · exact hsock (hm ▸ h.master)
  allocates := fun k => h.allocates (k + 2)

theorem kept : Kept Registered where
  tick := fun _ h => { h with }
  serve := fun _ _ _ _ hn _ h => h.serve hn
  lose := fun _ _ _ _ _ hheap h => absurd hheap (h.allocates 0)
  remove := fun _ _ _ _ farewell hn h => h.removeClient hn farewell
  refuse := fun _ _ _ hheap h => absurd hheap (h.allocates 0)
  enrol := fun _ _ hsock _ _ h => h.enrol hsock

end Registered
end TcpServer

open TcpServer

structure AllocatingRun extends ServerRun where
  allocates : ∀ n, heap n ≠ 0

namespace AllocatingRun

theorem registered_start (r : AllocatingRun) : r.start.Registered where
  fds := rfl
  distinct := List.nodup_nil
  opened := by simp [Setup.start, createServer, socks, nodes]
  max := by simp [Setup.start, createServer]
  master := Finset.mem_insert_self _ _
  notMaster := by simp [Setup.start, createServer, socks, nodes]
  allocates := r.allocates

theorem registered (r : AllocatingRun) {pre : List Round} {s : TcpServer} (h : r.Top pre s) :
    s.Registered :=
  r.kept Registered.kept r.registered_start h

theorem addClientToTheList_isSome {s : TcpServer} (h : ∀ n, s.heap n ≠ 0) (conn : Option ℕ) :
    (s.addClientToTheList conn).isSome := by
  have hclient : s.heap.next ≠ 0 := h 0
  have hnode : s.heap.rest.next ≠ 0 := h 1
  cases conn with
  | none => rfl
  | some sock =>
    by_cases hlimit : clientsLimit < s.connectedClient.size
    · simp [addClientToTheList, acceptClient, hlimit]
    · cases hw : s.acceptFunction <;>
        simp [addClientToTheList, acceptClient, hlimit, hclient, hw, emit, updateTimeForClient,
          LinkedList.pushTail, hnode]

theorem runServerBody_isSome {s : TcpServer} (h : ∀ n, s.heap n ≠ 0) (x : Round) :
    (s.runServerBody x).isSome := by
  have hw : ∀ n, s.waitTime.2.heap n ≠ 0 := by
    rcases s.waitTime_eq with hw | hw
    · rw [hw]
      exact h
    · rw [hw]
      exact h
  rw [runServerBody]
  cases x.selected with
  | fails => rfl
  | timeout => rfl
  | ready fds =>
    simp only [Option.isSome_map]
    split_ifs
    · exact addClientToTheList_isSome hw x.conn
    · rfl

theorem exists_top (r : AllocatingRun) :
    ∀ pre, pre <+: r.rounds → ∃ s, r.Top pre s := by
  intro pre
  induction pre using List.reverseRecOn with
  | nil => exact fun hpre => ⟨r.start, hpre, rfl⟩
  | append_singleton pre x ih =>
    intro hpre
    obtain ⟨s, hs⟩ := ih (Occurs.history hpre)
    obtain ⟨s', hs'⟩ := Option.isSome_iff_exists.mp
      (runServerBody_isSome (r.registered hs).allocates x)
    refine ⟨s', hpre, ?_⟩
    rw [Setup.after_snoc, hs.2, Option.bind_some, hs']

/-- The server does not crash, and the set and the list agree at the top of the loop. -/
def DescriptorsAlwaysAgree (r : AllocatingRun) : Prop :=
  ∀ pre, pre <+: r.rounds → ∃ s, r.toSetup.after pre = some s ∧ s.DescriptorsAgree

theorem descriptors_agree (r : AllocatingRun) : r.DescriptorsAlwaysAgree := by
  intro pre hpre
  obtain ⟨s, hs⟩ := r.exists_top pre hpre
  exact ⟨s, hs.2, (r.registered hs).toDescriptorsAgree⟩

/-- Descriptor 4 is closed when its client is gone, and given to the next client. -/
def reusedDescriptor : AllocatingRun where
  toSetup := serverSide (readings id fun n => Nat.le_succ n)
  rounds := [acceptRound 4, loseRound 4, acceptRound 4]
  permitted := by
    refine (permittedFrom_snoc [acceptRound 4, loseRound 4] (acceptRound 4)).mpr ⟨?_, ?_⟩
    · refine (permittedFrom_snoc [acceptRound 4] (loseRound 4)).mpr ⟨?_, ?_⟩
      · refine (permittedFrom_snoc [] (acceptRound 4)).mpr ⟨permittedFrom_nil _, ?_⟩
        exact permitted_of_mayReport (by decide)
      · exact permitted_of_mayReport (by decide)
    · exact permitted_of_mayReport (by decide)
  allocates := Nat.succ_ne_zero

example : (reusedDescriptor.toSetup.after reusedDescriptor.rounds).map
    (fun s => (s.socks, s.masterFds, s.maxSocket)) = some ([4], {3, 4}, 4) := by
  decide

end AllocatingRun
end ChatProject
