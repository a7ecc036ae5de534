import ChatProject.Descriptors
import Mathlib.Data.Finset.Option

/-!
# The life of the server

`CreateServer` opens the listening socket, `RunServer` runs the select loop until a signal sets
`stop`, and `DestroyServer` closes what is open. What the system calls answer when the socket is
opened is given from outside. Of the memory only the allocations that can fail are modelled, and
the links of a node that has just been removed can still be read, as in the loop.
-/

namespace ChatProject
open Memory Run

/-- What `CreateServer` looks at of its parameters; of the functions, whether they are given. -/
structure Params where
  backLog : ℤ
  serverPort : ℤ
  maxWaitTime : ℕ
  acceptFunc : Bool
  doSometing : Bool
  disconnect : Bool

/-- The answers of the system calls that open the listening socket, `true` for success. -/
structure Opening where
  socket : Option ℕ
  setsockopt : Bool
  bind : Bool
  listen : Bool

namespace Opening

def bindServer (o : Opening) : ℤ := if o.bind then 1 else 0

def initMasterSocket (fds : Finset ℕ) (o : Opening) : Option ℕ × Finset ℕ :=
  match o.socket with
  -- the descriptor -1 is refused by `setsockopt`
  | none => (none, fds)
  | some sock =>
    let fds := insert sock fds
    if ¬ o.setsockopt then (none, fds)
    else if 0 > o.bindServer then (none, fds.erase sock)
    else if ¬ o.listen then (none, fds.erase sock)
    else (some sock, fds)

/-- A `bind` that fails is not noticed. -/
theorem bindServer_nonneg (o : Opening) : ¬ 0 > o.bindServer := by
  cases hb : o.bind <;> simp [bindServer, hb]

theorem initMasterSocket_eq {fds : Finset ℕ} {o : Opening} {sock : ℕ}
    (hsocket : o.socket = some sock) (hsock : sock ∉ fds) : o.initMasterSocket fds =
      if o.setsockopt = false then (none, insert sock fds)
      else if o.listen = false then (none, fds)
      else (some sock, insert sock fds) := by
  simp only [initMasterSocket, hsocket, if_neg o.bindServer_nonneg, Finset.erase_insert hsock,
    Bool.not_eq_true]

end Opening

namespace Params

def createServer (p : Params) (o : Opening) (junk : Ptr) (otherFds : Finset ℕ) (clock : Clock)
    (heap : Heap) : Option TcpServer × Finset ℕ :=
  if ¬ p.doSometing ∨ 1024 > p.serverPort ∨ 0 = p.maxWaitTime ∨ 128 < p.backLog then
    (none, otherFds)
  else if heap.next = 0 then (none, otherFds)
  else
    match o.initMasterSocket otherFds with
    | (none, fds) => (none, fds)
    | (some sock, fds) =>
      match (LinkedList.create junk heap.rest : Option (LinkedList ClientData) × Heap) with
      | (none, _) => (none, fds.erase sock)
      | (some l, heap) =>
        -- two buffers are allocated, and their addresses are not looked at
        let s := TcpServer.createServer sock p.maxWaitTime p.acceptFunc p.disconnect junk otherFds
          clock heap.rest.rest
        (some { s with connectedClient := l }, fds)

def Accepted (p : Params) : Prop :=
  p.doSometing = true ∧ 1024 ≤ p.serverPort ∧ p.maxWaitTime ≠ 0 ∧ p.backLog ≤ 128

instance (p : Params) : Decidable p.Accepted := inferInstanceAs (Decidable (_ ∧ _))

end Params

namespace TcpServer

def elementDestroy (s : TcpServer) (client : ClientData) : TcpServer := s.close client.clientSock

def destroyServer (s : TcpServer) : Finset ℕ :=
  ((s.nodes.map Prod.snd).foldl elementDestroy s).descriptors.erase s.masterSocket

theorem destroyServer_eq (s : TcpServer) :
    s.destroyServer = (s.descriptors \ s.socks.toFinset).erase s.masterSocket := by
  have hfold : ∀ (ns : List ClientNode) (s : TcpServer),
      ((ns.map Prod.snd).foldl elementDestroy s).descriptors =
        s.descriptors \ (ns.map ClientNode.sock).toFinset := by
    intro ns
    induction ns with
    | nil => simp
    | cons n ns ih =>
      intro s
      rw [List.map_cons, List.foldl_cons, ih, List.map_cons, List.toFinset_cons]
      ext fd
      simp only [elementDestroy, close, ClientNode.sock, Finset.mem_sdiff, Finset.mem_erase,
        Finset.mem_insert]
      tauto
  rw [destroyServer, hfold, socks]

/-! ## What the server owns -/

/-- The descriptors besides `others` are in the set of the server, and those of the clients and
of the listening socket are not among `others`. -/
structure Owned (others : Finset ℕ) (s : TcpServer) : Prop where
  spared : others ⊆ s.descriptors
  within : s.descriptors ⊆ others ∪ s.masterFds
  listed : ∀ sock ∈ s.socks, sock ∉ others
  master : s.masterSocket ∉ others

namespace Owned
variable {others : Finset ℕ} {s : TcpServer} {front todo : List ClientNode} {n : ClientNode}

theorem sublist (h : Owned others s) (hn : s.nodes = front ++ n :: todo) :
    n.sock ∉ others ∧ ∀ sock ∈ (front ++ todo).map ClientNode.sock, sock ∉ others := by
  have hperm := Registered.socks_perm hn
  refine ⟨h.listed _ (hperm.mem_iff.mpr List.mem_cons_self), fun sock hsock => ?_⟩
  exact h.listed sock (hperm.mem_iff.mpr (List.mem_cons_of_mem _ hsock))

theorem removeClient (h : Owned others s) (hn : s.nodes = front ++ n :: todo) (farewell : Bool) :
    Owned others (s.removeClient front todo n farewell) := by
  obtain ⟨hsock, hrest⟩ := h.sublist hn
  refine ⟨?_, ?_, hrest, h.master⟩
  · intro fd hfd
    exact Finset.mem_erase.mpr ⟨fun he => hsock (he ▸ hfd), h.spared hfd⟩
  · intro fd hfd
    obtain ⟨hne, hfd⟩ := Finset.mem_erase.mp hfd
    rcases Finset.mem_union.mp (h.within hfd) with hfd | hfd
    · exact Finset.mem_union_left _ hfd
    · exact Finset.mem_union_right _ (Finset.mem_erase.mpr ⟨hne, hfd⟩)

theorem enrol (h : Owned others s) {sock : ℕ} (hsock : sock ∉ s.descriptors) :
    Owned others (s.enrol sock) := by
  refine ⟨?_, ?_, ?_, h.master⟩
  · exact h.spared.trans (Finset.subset_insert _ _)
  · intro fd hfd
    rcases Finset.mem_insert.mp hfd with rfl | hfd
    · exact Finset.mem_union_right _ (Finset.mem_insert_self _ _)
    · rcases Finset.mem_union.mp (h.within hfd) with hfd | hfd
      · exact Finset.mem_union_left _ hfd
      · exact Finset.mem_union_right _ (Finset.mem_insert_of_mem hfd)
  · intro fd hfd
    rw [Registered.socks_enrol, List.mem_append, List.mem_singleton] at hfd
    rcases hfd with hfd | rfl
    · exact h.listed fd hfd
    · exact fun hmem => hsock (h.spared hmem)

theorem kept (others : Finset ℕ) : Kept (Owned others) where
  tick := fun _ h => ⟨h.spared, h.within, h.listed, h.master⟩
  serve := by
    intro s front todo n hn _ h
    obtain ⟨hsock, hrest⟩ := h.sublist hn
    exact ⟨h.spared, h.within, List.forall_mem_cons.mpr ⟨hsock, hrest⟩, h.master⟩
  lose := fun _ _ _ _ hn _ h => ⟨h.spared, h.within, (h.sublist hn).2, h.master⟩
  remove := fun _ _ _ _ farewell hn h => h.removeClient hn farewell
  refuse := by
    intro s sock _ _ h
    refine ⟨h.spared, h.within.trans ?_, h.listed, h.master⟩
    exact Finset.union_subset_union_right (Finset.subset_insert _ _)
  enrol := fun _ _ hsock _ _ h => h.enrol hsock

theorem start {p : Setup} (hmaster : p.masterSocket ∉ p.otherFds) : Owned p.otherFds p.start where
  spared := Finset.subset_insert _ _
  within := by
    intro fd hfd
    rcases Finset.mem_insert.mp hfd with rfl | hfd
    · exact Finset.mem_union_right _ (Finset.mem_singleton_self _)
    · exact Finset.mem_union_left _ hfd
  listed := by simp [Setup.start, TcpServer.createServer, socks, nodes]
  master := hmaster

theorem others_subset (h : Owned others s) : others ⊆ s.destroyServer := by
  intro fd hfd
  rw [destroyServer_eq]
  refine Finset.mem_erase.mpr ⟨fun he => h.master (he ▸ hfd), ?_⟩
  refine Finset.mem_sdiff.mpr ⟨h.spared hfd, fun hsock => ?_⟩
  exact h.listed fd (List.mem_toFinset.mp hsock) hfd

theorem destroyServer_of_registered (h : Owned others s) (hs : s.Registered) :
    s.destroyServer = others := by
  refine Finset.Subset.antisymm ?_ h.others_subset
  intro fd hfd
  rw [destroyServer_eq, Finset.mem_erase, Finset.mem_sdiff] at hfd
  obtain ⟨hmaster, hopen, hsock⟩ := hfd
  have hwithin := h.within hopen
  rw [hs.fds, Finset.mem_union, Finset.mem_insert] at hwithin
  rcases hwithin with hother | hfd | hfd
  · exact hother
  · exact absurd hfd hmaster
  · exact absurd hfd hsock

end Owned
end TcpServer

open TcpServer

/-- A process that creates the server, runs it for these iterations, and destroys it. -/
structure Life where
  params : Params
  opening : Opening
  junk : Ptr
  otherFds : Finset ℕ
  clock : Clock
  heap : Heap
  rounds : List Round
  fresh : ∀ sock, opening.socket = some sock → sock ∉ otherFds
  permitted : ∀ s fds, params.createServer opening junk otherFds clock heap = (some s, fds) →
    s.PermittedFrom rounds

namespace Life
variable (l : Life)

def created : Option TcpServer × Finset ℕ :=
  l.params.createServer l.opening l.junk l.otherFds l.clock l.heap

/-- The descriptors that are open in the end; `none` is a crash of the server. `RunServer`
returns at once where no server has been created. -/
def left : Option (Finset ℕ) :=
  match l.created with
  | (none, fds) => some fds
  | (some s, _) => (s.iterate l.rounds).map destroyServer

def leaked : Finset ℕ :=
  if l.params.Accepted ∧ l.heap.next ≠ 0 ∧ l.opening.setsockopt = false then
    l.opening.socket.toFinset
  else ∅

variable {l}

theorem createServer_of_not_accepted (h : ¬ l.params.Accepted) :
    l.created = (none, l.otherFds) := by
  rw [created, Params.createServer, if_pos]
  by_contra hc
  refine h ⟨?_, ?_, ?_, ?_⟩
  · by_contra hd
    exact hc (.inl hd)
  · by_contra hd
    exact hc (.inr (.inl (by omega)))
  · intro hd
    exact hc (.inr (.inr (.inl hd.symm)))
  · by_contra hd
    exact hc (.inr (.inr (.inr (by omega))))

theorem createServer_of_accepted (h : l.params.Accepted) (hheap : l.heap.next ≠ 0) :
    l.created = match l.opening.initMasterSocket l.otherFds with
      | (none, fds) => (none, fds)
      | (some sock, fds) =>
        if l.heap.rest.next = 0 then (none, fds.erase sock)
        else (some (TcpServer.createServer sock l.params.maxWaitTime l.params.acceptFunc
          l.params.disconnect l.junk l.otherFds l.clock l.heap.rest.rest.rest.rest), fds) := by
  obtain ⟨hdo, hport, hwait, hlog⟩ := h
  rw [created, Params.createServer, if_neg, if_neg hheap]
  · cases l.opening.initMasterSocket l.otherFds with
    | mk sock fds =>
      cases sock with
      | none => rfl
      | some sock =>
        by_cases hlist : l.heap.rest.next = 0 <;> simp [LinkedList.create, hlist,
          TcpServer.createServer]
  · rintro (hd | hd | hd | hd)
    · exact hd hdo
    · omega
    · exact hwait hd.symm
    · omega

theorem created_cases (l : Life) :
    l.created = (none, l.otherFds ∪ l.leaked) ∨
      l.leaked = ∅ ∧ ∃ p : Setup, l.created.1 = some p.start ∧ p.otherFds = l.otherFds ∧
        p.masterSocket ∉ l.otherFds ∧ ∀ n, p.heap n = l.heap (n + 4) := by
  by_cases hacc : l.params.Accepted
  · by_cases hheap : l.heap.next = 0
    · left
      have hleaked : l.leaked = ∅ := if_neg fun h => h.2.1 hheap
      rw [hleaked, Finset.union_empty, created, Params.createServer]
      split_ifs <;> rfl
    · rw [createServer_of_accepted hacc hheap]
      cases hsocket : l.opening.socket with
      | none =>
        left
        have hleaked : l.leaked = ∅ := by simp [leaked, hsocket]
        simp [Opening.initMasterSocket, hsocket, hleaked]
      | some sock =>
        rw [Opening.initMasterSocket_eq hsocket (l.fresh sock hsocket)]
        by_cases hopt : l.opening.setsockopt = false
        · left
          have hleaked : l.leaked = {sock} := by
            rw [leaked, if_pos ⟨hacc, hheap, hopt⟩, hsocket, Option.toFinset_some]
          rw [if_pos hopt, hleaked, Finset.union_comm, ← Finset.insert_eq]
        · have hleaked : l.leaked = ∅ := if_neg fun h => hopt h.2.2
          rw [if_neg hopt, hleaked, Finset.union_empty]
          by_cases hlisten : l.opening.listen = false
          · left
            rw [if_pos hlisten]
          · rw [if_neg hlisten]
            by_cases hlist : l.heap.rest.next = 0
            · left
              simp only [hlist, if_true, Finset.erase_insert (l.fresh sock hsocket)]
            · right
              let p : Setup := ⟨sock, l.params.maxWaitTime, Nat.pos_of_ne_zero hacc.2.2.1,
                l.params.acceptFunc, l.params.disconnect, l.junk, l.otherFds, l.clock,
                l.heap.rest.rest.rest.rest⟩
              refine ⟨rfl, p, ?_, rfl, l.fresh sock hsocket, fun n => rfl⟩
              simp only [hlist, if_false]
              rfl
  · left
    have hleaked : l.leaked = ∅ := if_neg fun h => hacc h.1
    rw [createServer_of_not_accepted hacc, hleaked, Finset.union_empty]

/-- The server of `ServerSide.c` is destroyed while a client is connected. -/
def oneClient : Life where
  params := ⟨11, 5555, 300, true, true, true⟩
  opening := ⟨some 3, true, true, true⟩
  junk := blank
  otherFds := {0, 1, 2}
  clock := stillClock
  heap := Heap.succeeding id
  rounds := [acceptRound 4]
  fresh := by
    intro sock hsock
    rw [← Option.some.inj hsock]
    decide
  permitted := by
    intro s fds hs
    obtain rfl := Option.some.inj (congrArg Prod.fst hs)
    refine (permittedFrom_snoc [] (acceptRound 4)).mpr ⟨permittedFrom_nil _, ?_⟩
    exact permitted_of_mayReport (by decide)

end Life
end ChatProject
