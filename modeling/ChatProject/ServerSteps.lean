import ChatProject.TcpServer

/-!
# The steps of the select loop

What one pass over the clients does is a sequence of three steps on the list: a client is
served and put at the head, served and lost (the node for the head cannot be allocated), or
removed. A property that these steps keep is kept by `ReceiveAndSend`, and one that removals
keep by `Check_expiry_of_Clients`.
-/

namespace ChatProject
open Memory TimeVal Run

abbrev ClientNode := Ptr × ClientData

def ClientNode.sock (n : ClientNode) : ℕ := n.2.clientSock

def ClientNode.timeout (n : ClientNode) : TimeVal := n.2.clientTimeout

theorem mem_split {α : Type} {front todo : List α} (n : α) {m : α} (h : m ∈ front ++ todo) :
    m ∈ front ++ n :: todo := by
  rcases List.mem_append.mp h with h | h
  · exact List.mem_append_left _ h
  · exact List.mem_append_right _ (List.mem_cons_of_mem _ h)

namespace LinkedList
variable {α : Type} {l : LinkedList α} {front todo : List (Ptr × α)} {n : Ptr × α}

theorem data_split (h : l.nodes = front ++ n :: todo) : l.data front.length = n.1 := by
  simp [data, h]

theorem itrGet_split (h : l.nodes = front ++ n :: todo) : l.itrGet front.length = some n.2 := by
  simp [itrGet, h]

theorem itrEquals_split (h : l.nodes = front ++ n :: todo) :
    l.itrEquals front.length l.itrEnd = decide (n.1 = l.tailData) := by
  rw [itrEquals, data_split h, l.data_itrEnd]

theorem itrNext_split (h : l.nodes = front ++ n :: todo) :
    l.itrNext front.length = front.length + 1 := by
  simp [itrNext, itrEnd, h]

theorem itrRemove_split (h : l.nodes = front ++ n :: todo) :
    l.itrRemove front.length = (some n.2, ⟨front ++ todo, l.tailData⟩) := by
  rw [itrRemove, itrGet_split h, h, List.eraseIdx_append_of_length_le (Nat.le_refl _),
    Nat.sub_self, List.eraseIdx_cons_zero]

end LinkedList

namespace TcpServer

def nodes (s : TcpServer) : List ClientNode := s.connectedClient.nodes

def tailData (s : TcpServer) : Ptr := s.connectedClient.tailData

def refreshed (s : TcpServer) (n : ClientNode) : ClientNode :=
  (n.1, ⟨n.sock, timeradd s.clock.now s.maxWaitTime⟩)

def withNodes (s : TcpServer) (ns : List ClientNode) : TcpServer :=
  { s with connectedClient := ⟨ns, s.tailData⟩ }

/-- A successful exchange and the allocation for the head of the list. -/
def exchanged (s : TcpServer) (n : ClientNode) : TcpServer :=
  { s with
    clock := s.clock.rest
    heap := s.heap.rest
    events := .served n.sock s.clock.now :: s.events }

def serve (s : TcpServer) (front todo : List ClientNode) (n : ClientNode) : TcpServer :=
  (s.exchanged n).withNodes (s.refreshed n :: (front ++ todo))

def lose (s : TcpServer) (front todo : List ClientNode) (n : ClientNode) : TcpServer :=
  (s.exchanged n).withNodes (front ++ todo)

def removeClient (s : TcpServer) (front todo : List ClientNode) (n : ClientNode)
    (farewell : Bool) : TcpServer :=
  { s with
    connectedClient := ⟨front ++ todo, s.tailData⟩
    masterFds := s.masterFds.erase n.sock
    descriptors := s.descriptors.erase n.sock
    events := if farewell && s.goodbye then .goodbye n.sock :: s.events else s.events }

section Fields
variable (s : TcpServer) (front todo : List ClientNode) (n : ClientNode) (farewell : Bool)

@[simp] theorem serve_nodes : (s.serve front todo n).nodes = s.refreshed n :: (front ++ todo) := rfl

@[simp] theorem lose_nodes : (s.lose front todo n).nodes = front ++ todo := rfl

@[simp] theorem removeClient_nodes :
    (s.removeClient front todo n farewell).nodes = front ++ todo := rfl

end Fields

/-- `ReceiveAndSend` on the clients `todo` behind the clients `front`. -/
def pass (forSelect : Finset ℕ) (exchange : ℕ → Exchange) :
    List ClientNode → List ClientNode → ℕ → TcpServer → TcpServer
  | _, [], _, s => s
  | front, n :: todo, activity, s =>
    if n.1 = s.tailData ∨ activity = 0 then s
    else if n.sock ∈ forSelect then
      if exchange n.sock = .succeeds then
        if s.heap.next = 0 then
          pass forSelect exchange front todo (activity - 1) (s.lose front todo n)
        else
          pass forSelect exchange (s.refreshed n :: front) todo (activity - 1)
            (s.serve front todo n)
      else
        pass forSelect exchange front todo (activity - 1)
          (s.removeClient front todo n (exchange n.sock = .recvFails))
    else pass forSelect exchange (front ++ [n]) todo activity s

theorem pass_of_none_ready {forSelect : Finset ℕ} (exchange : ℕ → Exchange) {s : TcpServer} :
    ∀ (todo front : List ClientNode) (activity : ℕ), (∀ n ∈ todo, n.sock ∉ forSelect) →
      pass forSelect exchange front todo activity s = s := by
  intro todo
  induction todo with
  | nil => intro front activity _; rfl
  | cons n todo ih =>
    intro front activity hnone
    rw [pass, if_neg (hnone n List.mem_cons_self)]
    split_ifs
    · rfl
    · exact ih _ _ fun m hm => hnone m (List.mem_cons_of_mem _ hm)

theorem actionFuncSndRcv_succeeds (s : TcpServer) (client : ClientData) :
    s.actionFuncSndRcv client .succeeds =
      (some ⟨client.clientSock, timeradd s.clock.now s.maxWaitTime⟩,
        { s with
          clock := s.clock.rest
          events := .served client.clientSock s.clock.now :: s.events }) := rfl

theorem actionFuncSndRcv_fails (s : TcpServer) (client : ClientData) {x : Exchange}
    (hx : x ≠ .succeeds) :
    s.actionFuncSndRcv client x =
      (none, { s with
        descriptors := s.descriptors.erase client.clientSock
        events := if x = .recvFails && s.goodbye then .goodbye client.clientSock :: s.events
          else s.events }) := by
  cases x with
  | recvFails => cases hg : s.goodbye <;> simp [actionFuncSndRcv, sayGoodbye, emit, close, hg]
  | sendFails => simp [actionFuncSndRcv, close]
  | succeeds => exact absurd rfl hx

/-- Records are allocated before they are listed. -/
def NonNull (s : TcpServer) : Prop := ∀ n ∈ s.nodes, n.1 ≠ 0

theorem loop_eq_pass (forSelect : Finset ℕ) (exchange : ℕ → Exchange) :
    ∀ (todo front : List ClientNode) (activity : ℕ) (s : TcpServer),
      s.nodes = front ++ todo → s.NonNull →
      receiveAndSendLoop forSelect exchange todo.length front.length activity s =
        pass forSelect exchange front todo activity s := by
  intro todo
  induction todo with
  | nil => intro front activity s _ _; rfl
  | cons n todo ih =>
    intro front activity s hs hnull
    have hs' : s.connectedClient.nodes = front ++ n :: todo := hs
    have hn : n.1 ≠ 0 := hnull n (by simp [hs])
    have hrest : ∀ m ∈ front ++ todo, m.1 ≠ 0 := fun m hm => hnull m (hs ▸ mem_split n hm)
    rw [List.length_cons, receiveAndSendLoop, pass]
    simp only [LinkedList.itrEquals_split hs', LinkedList.itrGet_split hs']
    by_cases hstop : n.1 = s.tailData ∨ activity = 0
    · have hstop' :
          (decide (n.1 = s.connectedClient.tailData) || decide (activity = 0)) = true := by
        simpa [tailData] using hstop
      rw [if_pos hstop', if_pos hstop]
    · have hstop' :
          ¬ (decide (n.1 = s.connectedClient.tailData) || decide (activity = 0)) = true := by
        simpa [tailData] using hstop
      rw [if_neg hstop', if_neg hstop]
      by_cases hready : n.sock ∈ forSelect
      · have hready' : n.2.clientSock ∈ forSelect := hready
        rw [if_pos hready, if_pos hready']
        by_cases hx : exchange n.sock = .succeeds
        · have hx' : exchange n.2.clientSock = .succeeds := hx
          rw [if_pos hx, hx', actionFuncSndRcv_succeeds]
          simp only [LinkedList.itrNext_split hs', LinkedList.itrPrev, Nat.add_sub_cancel,
            LinkedList.itrRemove_split hs', LinkedList.data_split hs', LinkedList.pushHead, hn,
            ↓reduceIte]
          by_cases hheap : s.heap.next = 0
          · simp only [hheap, ↓reduceIte]
            exact ih front (activity - 1) (s.lose front todo n) rfl hrest
          · simp only [hheap, ↓reduceIte]
            have hserve : (s.serve front todo n).NonNull := by
              intro m hm
              rcases List.mem_cons.mp hm with rfl | hm
              · exact hn
              · exact hrest m hm
            exact ih (s.refreshed n :: front) (activity - 1) (s.serve front todo n) rfl hserve
        · have hx' : exchange n.2.clientSock ≠ .succeeds := hx
          rw [if_neg hx, actionFuncSndRcv_fails s n.2 hx']
          simp only [LinkedList.itrRemove_split hs']
          exact ih front (activity - 1) (s.removeClient front todo n _) rfl hrest
      · have hready' : n.2.clientSock ∉ forSelect := hready
        rw [if_neg hready, if_neg hready', LinkedList.itrNext_split hs']
        have h := ih (front ++ [n]) activity s (by simp [hs]) hnull
        simpa using h

theorem receiveAndSend_eq (s : TcpServer) (hnull : s.NonNull) (forSelect : Finset ℕ)
    (exchange : ℕ → Exchange) (activity : ℕ) :
    s.receiveAndSend forSelect exchange activity = pass forSelect exchange [] s.nodes activity s :=
  loop_eq_pass forSelect exchange s.nodes [] activity s rfl hnull

/-- `Check_expiry_of_Clients` on all clients of the list. -/
def expire (now : TimeVal) : List ClientNode → TcpServer → TcpServer
  | [], s => s
  | n :: todo, s =>
    if n.1 = s.tailData then s
    else if now.after n.timeout then expire now todo (s.removeClient [] todo n true)
    else s

theorem removeClientOnTimeout_eq {s : TcpServer} {n : ClientNode} {todo : List ClientNode}
    (hs : s.nodes = n :: todo) :
    s.removeClientOnTimeout n.2 0 = (0, s.removeClient [] todo n true) := by
  have hs' : s.connectedClient.nodes = [] ++ n :: todo := hs
  have hnext := LinkedList.itrNext_split hs'
  have hremove := LinkedList.itrRemove_split hs'
  simp only [List.length_nil, Nat.zero_add] at hnext hremove
  cases hg : s.goodbye with
  | false =>
    simp only [removeClientOnTimeout, sayGoodbye, hg, Bool.false_eq_true, ↓reduceIte, close,
      hnext, LinkedList.itrPrev, Nat.sub_self, hremove]
    simp [removeClient, hg, tailData, ClientNode.sock]
  | true =>
    simp only [removeClientOnTimeout, sayGoodbye, hg, ↓reduceIte, emit, close, hnext,
      LinkedList.itrPrev, Nat.sub_self, hremove]
    simp [removeClient, hg, tailData, ClientNode.sock]

theorem checkExpiryLoop_eq (now : TimeVal) :
    ∀ (todo : List ClientNode) (s : TcpServer), s.nodes = todo →
      checkExpiryLoop now todo.length 0 s = expire now todo s := by
  intro todo
  induction todo with
  | nil => intro s _; rfl
  | cons n todo ih =>
    intro s hs
    have hs' : s.connectedClient.nodes = [] ++ n :: todo := hs
    have hequals := LinkedList.itrEquals_split hs'
    have hget := LinkedList.itrGet_split hs'
    simp only [List.length_nil] at hequals hget
    rw [List.length_cons, checkExpiryLoop, expire]
    simp only [hequals, hget, decide_eq_true_eq]
    by_cases hstop : n.1 = s.tailData
    · rw [if_pos hstop, if_pos (show n.1 = s.connectedClient.tailData from hstop)]
    · rw [if_neg hstop, if_neg (show n.1 ≠ s.connectedClient.tailData from hstop)]
      by_cases hdue : now.after n.timeout
      · rw [if_pos hdue, if_pos (show now.after n.2.clientTimeout from hdue),
          removeClientOnTimeout_eq hs]
        exact ih _ rfl
      · rw [if_neg hdue, if_neg (show ¬ now.after n.2.clientTimeout from hdue)]

theorem checkExpiryOfClients_eq (s : TcpServer) :
    s.checkExpiryOfClients = expire s.clock.now s.nodes { s with clock := s.clock.rest } :=
  checkExpiryLoop_eq s.clock.now s.nodes { s with clock := s.clock.rest } rfl

theorem expire_nodes (now : TimeVal) :
    ∀ (todo : List ClientNode) (s : TcpServer), s.nodes = todo →
      (expire now todo s).nodes =
        todo.dropWhile fun n => decide (n.1 ≠ s.tailData) && now.after n.timeout := by
  intro todo
  induction todo with
  | nil => intro s hs; exact hs
  | cons n todo ih =>
    intro s hs
    rw [expire, List.dropWhile_cons]
    by_cases hstop : n.1 = s.tailData
    · simp [hstop, hs]
    · by_cases hdue : now.after n.timeout
      · simp only [hstop, hdue, ↓reduceIte, ne_eq, not_false_eq_true, decide_true, Bool.and_self]
        exact ih (s.removeClient [] todo n true) rfl
      · simp [hstop, hdue, hs]

/-! ## Accepting a client -/

def enrolled (s : TcpServer) (sock : ℕ) : ClientNode :=
  (s.heap.next, ⟨sock, timeradd s.clock.now s.maxWaitTime⟩)

/-- The client is put at the end of the list. -/
def enrol (s : TcpServer) (sock : ℕ) : TcpServer :=
  { s with
    descriptors := insert sock s.descriptors
    masterFds := insert sock s.masterFds
    maxSocket := if s.maxSocket < sock then sock else s.maxSocket
    connectedClient := ⟨s.nodes ++ [s.enrolled sock], s.tailData⟩
    clock := s.clock.rest
    heap := s.heap.rest.rest
    events := .accepted sock s.clock.now ::
      if s.acceptFunction then .welcome sock :: s.events else s.events }

/-- The record could not be allocated: the socket is closed but stays in the set. -/
def refuse (s : TcpServer) (sock : ℕ) : TcpServer :=
  { s with
    masterFds := insert sock s.masterFds
    maxSocket := if s.maxSocket < sock then sock else s.maxSocket
    heap := s.heap.rest }

theorem addClientToTheList_eq {s : TcpServer} {sock : ℕ} (hfree : sock ∉ s.descriptors) :
    s.addClientToTheList (some sock) =
      if clientsLimit < s.nodes.length then some s
      else if s.heap.next = 0 then some (s.refuse sock)
      else if s.heap.rest.next = 0 then none
      else some (s.enrol sock) := by
  have hclose : (insert sock s.descriptors).erase sock = s.descriptors := Finset.erase_insert hfree
  by_cases hlimit : clientsLimit < s.nodes.length
  · have hlimit' : clientsLimit < s.connectedClient.size := hlimit
    rw [if_pos hlimit]
    simp only [addClientToTheList, acceptClient, hlimit', ↓reduceIte, close, hclose]
  · have hlimit' : ¬ clientsLimit < s.connectedClient.size := hlimit
    rw [if_neg hlimit]
    by_cases hclient : s.heap.next = 0
    · rw [if_pos hclient]
      simp only [addClientToTheList, acceptClient, hlimit', ↓reduceIte, hclient, close, hclose]
      rfl
    · rw [if_neg hclient]
      by_cases hnode : s.heap.rest.next = 0
      · rw [if_pos hnode]
        cases hw : s.acceptFunction <;>
          simp [addClientToTheList, acceptClient, hlimit', hclient, hw, emit, updateTimeForClient,
            LinkedList.pushTail, hnode]
      · rw [if_neg hnode]
        cases hw : s.acceptFunction <;>
          simp [addClientToTheList, acceptClient, hlimit', hclient, hw, emit, updateTimeForClient,
            LinkedList.pushTail, hnode, enrol, enrolled, nodes, tailData]

theorem addClientToTheList_cases {s s' : TcpServer} {conn : Option ℕ}
    (hfree : ∀ sock, conn = some sock → sock ∉ s.descriptors)
    (h : s.addClientToTheList conn = some s') :
    s' = s ∨ ∃ sock, conn = some sock ∧ sock ∉ s.descriptors ∧
      (s' = s.refuse sock ∧ s.heap.next = 0 ∨
        s' = s.enrol sock ∧ s.heap.next ≠ 0 ∧ s.heap.rest.next ≠ 0) := by
  cases conn with
  | none => exact .inl (Option.some.inj h).symm
  | some sock =>
    have hsock := hfree sock rfl
    rw [addClientToTheList_eq hsock] at h
    split_ifs at h with hlimit hclient hnode
    · exact .inl (Option.some.inj h).symm
    · exact .inr ⟨sock, rfl, hsock, .inl ⟨(Option.some.inj h).symm, hclient⟩⟩
    · exact .inr ⟨sock, rfl, hsock, .inr ⟨(Option.some.inj h).symm, hclient, hnode⟩⟩

/-! ## Properties that every step keeps -/

/-- Kept by the steps on the clients that are listed. -/
structure KeptByPass (P : TcpServer → Prop) : Prop where
  serve : ∀ s front todo n, s.nodes = front ++ n :: todo → s.heap.next ≠ 0 → P s →
    P (s.serve front todo n)
  lose : ∀ s front todo n, s.nodes = front ++ n :: todo → s.heap.next = 0 → P s →
    P (s.lose front todo n)
  remove : ∀ s front todo n farewell, s.nodes = front ++ n :: todo → P s →
    P (s.removeClient front todo n farewell)

namespace KeptByPass
variable {P : TcpServer → Prop} (h : KeptByPass P)
include h

theorem pass (forSelect : Finset ℕ) (exchange : ℕ → Exchange) :
    ∀ (todo front : List ClientNode) (activity : ℕ) (s : TcpServer), s.nodes = front ++ todo →
      P s → P (TcpServer.pass forSelect exchange front todo activity s) := by
  intro todo
  induction todo with
  | nil => intro front activity s _ hs; exact hs
  | cons n todo ih =>
    intro front activity s hn hs
    rw [TcpServer.pass]
    split_ifs with hstop hready hx hheap
    · exact hs
    · exact ih _ _ _ rfl (h.lose s front todo n hn hheap hs)
    · exact ih _ _ _ rfl (h.serve s front todo n hn hheap hs)
    · exact ih _ _ _ rfl (h.remove s front todo n _ hn hs)
    · exact ih _ _ _ (by simpa using hn) hs

theorem expire (now : TimeVal) :
    ∀ (todo : List ClientNode) (s : TcpServer), s.nodes = todo → P s →
      P (TcpServer.expire now todo s) := by
  intro todo
  induction todo with
  | nil => intro s _ hs; exact hs
  | cons n todo ih =>
    intro s hn hs
    rw [TcpServer.expire]
    split_ifs
    · exact hs
    · exact ih _ rfl (h.remove s [] todo n true hn hs)
    · exact hs

theorem receiveAndSend {s : TcpServer} (hnull : s.NonNull) (hs : P s) (forSelect : Finset ℕ)
    (exchange : ℕ → Exchange) (activity : ℕ) :
    P (s.receiveAndSend forSelect exchange activity) := by
  rw [receiveAndSend_eq s hnull]
  exact h.pass _ _ _ _ _ _ rfl hs

theorem checkExpiryOfClients {s : TcpServer} (hs : P { s with clock := s.clock.rest }) :
    P s.checkExpiryOfClients := by
  rw [checkExpiryOfClients_eq]
  exact h.expire _ s.nodes { s with clock := s.clock.rest } rfl hs

end KeptByPass

/-- Kept by every step that one iteration of the loop makes. -/
structure Kept (P : TcpServer → Prop) : Prop where
  tick : ∀ s, P s → P { s with clock := s.clock.rest }
  serve : ∀ s front todo n, s.nodes = front ++ n :: todo → s.heap.next ≠ 0 → P s →
    P (s.serve front todo n)
  lose : ∀ s front todo n, s.nodes = front ++ n :: todo → s.heap.next = 0 → P s →
    P (s.lose front todo n)
  remove : ∀ s front todo n farewell, s.nodes = front ++ n :: todo → P s →
    P (s.removeClient front todo n farewell)
  refuse : ∀ s sock, sock ∉ s.descriptors → s.heap.next = 0 → P s → P (s.refuse sock)
  enrol : ∀ s sock, sock ∉ s.descriptors → s.heap.next ≠ 0 → s.heap.rest.next ≠ 0 → P s →
    P (s.enrol sock)

namespace Kept
variable {P : TcpServer → Prop} (h : Kept P)
include h

theorem byPass : KeptByPass P where
  serve := h.serve
  lose := h.lose
  remove := h.remove

theorem waitTime {s : TcpServer} (hs : P s) : P s.waitTime.2 := by
  rw [TcpServer.waitTime]
  split_ifs
  · exact hs
  · exact h.tick s hs

theorem checkExpiryOfClients {s : TcpServer} (hs : P s) : P s.checkExpiryOfClients :=
  h.byPass.checkExpiryOfClients (h.tick s hs)

theorem receiveAndSend {s : TcpServer} (hnull : s.NonNull) (hs : P s) (forSelect : Finset ℕ)
    (exchange : ℕ → Exchange) (activity : ℕ) :
    P (s.receiveAndSend forSelect exchange activity) :=
  h.byPass.receiveAndSend hnull hs forSelect exchange activity

theorem addClientToTheList {s s' : TcpServer} (hs : P s) {conn : Option ℕ}
    (hfree : ∀ sock, conn = some sock → sock ∉ s.descriptors)
    (ha : s.addClientToTheList conn = some s') : P s' := by
  rcases addClientToTheList_cases hfree ha with
    rfl | ⟨sock, -, hsock, ⟨rfl, hheap⟩ | ⟨rfl, hclient, hnode⟩⟩
  · exact hs
  · exact h.refuse s sock hsock hheap hs
  · exact h.enrol s sock hsock hclient hnode hs

end Kept

theorem NonNull.kept : Kept NonNull where
  tick := fun _ h => h
  serve := by
    intro s front todo n hn _ h m hm
    rcases List.mem_cons.mp hm with rfl | hm
    · exact h n (by simp [hn])
    · exact h m (hn ▸ mem_split n hm)
  lose := fun _ _ _ n hn _ h m hm => h m (hn ▸ mem_split n hm)
  remove := fun _ _ _ n _ hn h m hm => h m (hn ▸ mem_split n hm)
  refuse := fun _ _ _ _ h => h
  enrol := by
    intro s sock _ hclient _ h m hm
    rcases List.mem_append.mp hm with hm | hm
    · exact h m hm
    · rw [List.mem_singleton.mp hm]
      exact hclient

end TcpServer
end ChatProject
