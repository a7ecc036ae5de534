import ChatProject.Conversation
import ChatProject.Goodbyes

/-!
# The server process

The select loop with the application function in it, and the connections behind the sockets:
`peer` says which client is at the other end of a socket. An iteration of the loop does to the
list of clients what the loop without the application does, and on the connections one act for
each client that it serves or drops, in the order of the list. An iteration is one step: a
client whose request it handles waits for the answer all the while. As in that loop, the links of
a node that has just been removed can still be read.
-/

namespace ChatProject
open Memory Run Function TcpServer

/-- What `recv` and `send` answer for a client that is ready. -/
inductive Traffic
  | recvFails
  | sendFails (n : ℕ)
  | succeeds (n : ℕ) (beyond : Block Server.buffSize)

namespace Traffic

def exchange : Traffic → Exchange
  | recvFails => .recvFails
  | sendFails _ => .sendFails
  | succeeds .. => .succeeds

def act : Traffic → LinkAct
  | recvFails => .close
  | sendFails n => .sendFails n
  | succeeds n beyond => .sndRcv n beyond

def received : Traffic → Option ℕ
  | recvFails => none
  | sendFails n | succeeds n _ => some n

end Traffic

structure ProcessRound (ι : Type) where
  selected : Selected
  conn : Option (ℕ × ι)
  traffic : ℕ → Traffic

def ProcessRound.round {ι : Type} (x : ProcessRound ι) : Round :=
  ⟨x.selected, x.conn.map Prod.fst, fun sock => (x.traffic sock).exchange⟩

structure ServerProcess (ι : Type) where
  tcp : TcpServer
  chat : Chat ι
  peer : ℕ → Option ι

namespace ServerProcess
variable {ι : Type} [DecidableEq ι]

def start (p : Setup) (server : Server) : ServerProcess ι := ⟨p.start, .start server, fun _ => none⟩

def onSocket (s : ServerProcess ι) (sock : ℕ) (act : LinkAct) : Option (ServerProcess ι) :=
  match s.peer sock with
  | none => some s
  | some i => (s.chat.step (i, act)).map fun chat => { s with chat := chat }

/-- `none` is a crash of the application function. -/
def actionFuncSndRcv (s : ServerProcess ι) (client : ClientData) (x : Traffic) :
    Option (Option ClientData × ServerProcess ι) :=
  let (client', tcp) := s.tcp.actionFuncSndRcv client x.exchange
  ({ s with tcp := tcp }.onSocket client.clientSock x.act).map fun s => (client', s)

def receiveAndSendLoop (forSelect : Finset ℕ) (traffic : ℕ → Traffic) :
    ℕ → ℕ → ℕ → ServerProcess ι → Option (ServerProcess ι)
  | 0, _, _, s => some s
  | n + 1, itr, activity, s =>
    let l := s.tcp.connectedClient
    if l.itrEquals itr l.itrEnd || activity = 0 then some s
    else match l.itrGet itr with
      | none => some s
      | some client =>
        if client.clientSock ∈ forSelect then
          match s.actionFuncSndRcv client (traffic client.clientSock) with
          | none => none
          | some (none, s) =>
            receiveAndSendLoop forSelect traffic n itr (activity - 1)
              { s with tcp := { s.tcp with
                connectedClient := (l.itrRemove itr).2
                masterFds := s.tcp.masterFds.erase client.clientSock } }
          | some (some client', s) =>
            let item := l.data itr
            let (_, l) := l.itrRemove (l.itrPrev (l.itrNext itr))
            match LinkedList.pushHead (some l) item client' s.tcp.heap with
            | (.success, some l, h) =>
              receiveAndSendLoop forSelect traffic n (itr + 1) (activity - 1)
                { s with tcp := { s.tcp with connectedClient := l, heap := h } }
            | (_, _, h) =>
              receiveAndSendLoop forSelect traffic n itr (activity - 1)
                { s with tcp := { s.tcp with connectedClient := l, heap := h } }
        else receiveAndSendLoop forSelect traffic n (l.itrNext itr) activity s

def receiveAndSend (s : ServerProcess ι) (forSelect : Finset ℕ) (traffic : ℕ → Traffic)
    (activity : ℕ) : Option (ServerProcess ι) :=
  receiveAndSendLoop forSelect traffic s.tcp.connectedClient.size s.tcp.connectedClient.itrBegin
    activity s

def removeClientOnTimeout (s : ServerProcess ι) (client : ClientData) (itr : ℕ) :
    Option (ℕ × ServerProcess ι) :=
  let (itr, tcp) := s.tcp.removeClientOnTimeout client itr
  ({ s with tcp := tcp }.onSocket client.clientSock .close).map fun s => (itr, s)

def checkExpiryLoop (now : TimeVal) : ℕ → ℕ → ServerProcess ι → Option (ServerProcess ι)
  | 0, _, s => some s
  | n + 1, itr, s =>
    let l := s.tcp.connectedClient
    if l.itrEquals itr l.itrEnd then some s
    else match l.itrGet itr with
      | none => some s
      | some client =>
        if now.after client.clientTimeout then
          (s.removeClientOnTimeout client itr).bind fun (itr, s) => checkExpiryLoop now n itr s
        else some s

def checkExpiryOfClients (s : ServerProcess ι) : Option (ServerProcess ι) :=
  checkExpiryLoop s.tcp.clock.now s.tcp.connectedClient.size s.tcp.connectedClient.itrBegin
    { s with tcp := { s.tcp with clock := s.tcp.clock.rest } }

/-- The socket of a connection that is not taken is closed. -/
def addClientToTheList (s : ServerProcess ι) (conn : Option (ℕ × ι)) : Option (ServerProcess ι) :=
  (s.tcp.addClientToTheList (conn.map Prod.fst)).bind fun tcp =>
    match conn with
    | none => some { s with tcp := tcp }
    | some (sock, i) =>
      let s := { s with tcp := tcp, peer := update s.peer sock (some i) }
      if sock ∈ tcp.descriptors then some s else s.onSocket sock .close

def runServerBody (s : ServerProcess ι) (x : ProcessRound ι) : Option (ServerProcess ι) :=
  let s := { s with tcp := s.tcp.waitTime.2 }
  match x.selected with
  | .fails => some s
  | .timeout => s.checkExpiryOfClients
  | .ready fds =>
    let added := if s.tcp.masterSocket ∈ fds then s.addClientToTheList x.conn else some s
    added.bind fun s => if 0 < fds.card then s.receiveAndSend fds x.traffic fds.card else some s

end ServerProcess

/-! ## An iteration as a sequence of acts -/

namespace Chat
variable {ι : Type} [DecidableEq ι]

def steps (s : Chat ι) (es : List (ι × LinkAct)) : Option (Chat ι) := es.foldlM step s

@[simp] theorem steps_nil (s : Chat ι) : s.steps [] = some s := rfl

@[simp] theorem steps_cons (s : Chat ι) (e : ι × LinkAct) (es : List (ι × LinkAct)) :
    s.steps (e :: es) = (s.step e).bind fun s => s.steps es := List.foldlM_cons

theorem steps_append (s : Chat ι) (es es' : List (ι × LinkAct)) :
    s.steps (es ++ es') = (s.steps es).bind fun s => s.steps es' := List.foldlM_append

end Chat

/-- What happens on the connections of these sockets, in this order. -/
def actsAt {ι : Type} (peer : ℕ → Option ι) (act : ℕ → LinkAct) (socks : List ℕ) :
    List (ι × LinkAct) :=
  socks.filterMap fun sock => (peer sock).map fun i => (i, act sock)

theorem actsAt_cons {ι : Type} (peer : ℕ → Option ι) (act : ℕ → LinkAct) (sock : ℕ)
    (socks : List ℕ) :
    actsAt peer act (sock :: socks) = actsAt peer act [sock] ++ actsAt peer act socks := by
  rw [actsAt, ← List.singleton_append, List.filterMap_append]
  rfl

namespace TcpServer

/-- The clients that a pass calls `ActionFuncSndRcv` for. -/
def called (forSelect : Finset ℕ) (tail : Ptr) (todo : List ClientNode) (activity : ℕ) :
    List ClientNode :=
  ((met tail todo).filter fun n => n.sock ∈ forSelect).take activity

def overdue (now : TimeVal) (tail : Ptr) (todo : List ClientNode) : List ClientNode :=
  (met tail todo).takeWhile fun n => now.after n.timeout

section Called
variable {forSelect : Finset ℕ} {tail : Ptr} {n : ClientNode} {todo : List ClientNode}
  {activity : ℕ} {now : TimeVal}

@[simp] theorem called_nil : called forSelect tail [] activity = [] := by simp [called, met]

theorem called_stop (h : n.1 = tail ∨ activity = 0) :
    called forSelect tail (n :: todo) activity = [] := by
  rcases h with h | h
  · simp [called, met, h]
  · simp [called, h]

theorem called_ready (hstop : ¬ (n.1 = tail ∨ activity = 0)) (hready : n.sock ∈ forSelect) :
    called forSelect tail (n :: todo) activity =
      n :: called forSelect tail todo (activity - 1) := by
  obtain ⟨htail, hactivity⟩ := not_or.mp hstop
  obtain ⟨k, rfl⟩ := Nat.exists_eq_succ_of_ne_zero hactivity
  simp [called, met, htail, hready]

theorem called_idle (hstop : ¬ (n.1 = tail ∨ activity = 0)) (hready : n.sock ∉ forSelect) :
    called forSelect tail (n :: todo) activity = called forSelect tail todo activity := by
  obtain ⟨htail, -⟩ := not_or.mp hstop
  simp [called, met, htail, hready]

theorem called_append_idle (hidle : n.sock ∉ forSelect) (todo : List ClientNode) :
    called forSelect tail (todo ++ [n]) activity = called forSelect tail todo activity := by
  have hfilter : (met tail (todo ++ [n])).filter (fun m => m.sock ∈ forSelect) =
      (met tail todo).filter fun m => m.sock ∈ forSelect := by
    induction todo with
    | nil => by_cases htail : n.1 = tail <;> simp [met, htail, hidle]
    | cons m todo ih =>
      by_cases htail : m.1 = tail
      · simp [met, htail]
      · simp only [met, List.cons_append, ne_eq, htail, not_false_eq_true, decide_true,
          List.takeWhile_cons_of_pos, List.filter_cons] at ih ⊢
        rw [ih]
  rw [called, called, hfilter]

theorem overdue_stop (h : n.1 = tail) : overdue now tail (n :: todo) = [] := by
  simp [overdue, met, h]

theorem overdue_due (hstop : n.1 ≠ tail) (hdue : now.after n.timeout = true) :
    overdue now tail (n :: todo) = n :: overdue now tail todo := by
  simp [overdue, met, hstop, hdue]

theorem overdue_early (hstop : n.1 ≠ tail) (hdue : ¬ now.after n.timeout = true) :
    overdue now tail (n :: todo) = [] := by
  simp [overdue, met, hstop, hdue]

end Called
end TcpServer

namespace ServerProcess
variable {ι : Type} [DecidableEq ι]

/-! What the loops do, with the loops that have no application in them. -/

theorem onSocket_eq (s : ServerProcess ι) (act : ℕ → LinkAct) (sock : ℕ) :
    s.onSocket sock (act sock) =
      (s.chat.steps (actsAt s.peer act [sock])).map fun chat => { s with chat := chat } := by
  cases h : s.peer sock <;> simp [onSocket, actsAt, h]

theorem actionFuncSndRcv_eq (s : ServerProcess ι) (client : ClientData) (traffic : ℕ → Traffic) :
    s.actionFuncSndRcv client (traffic client.clientSock) =
      (s.chat.steps (actsAt s.peer (fun sock => (traffic sock).act) [client.clientSock])).map
        fun chat =>
          let (client', tcp) := s.tcp.actionFuncSndRcv client (traffic client.clientSock).exchange
          (client', { s with tcp := tcp, chat := chat }) := by
  have honSocket := onSocket_eq
    { s with tcp := (s.tcp.actionFuncSndRcv client (traffic client.clientSock).exchange).2 }
    (fun sock => (traffic sock).act) client.clientSock
  simp only [actionFuncSndRcv, honSocket, Option.map_map]
  rfl

theorem loop_ready {forSelect : Finset ℕ} (traffic : ℕ → Traffic) {front todo : List ClientNode}
    {n : ClientNode} {activity : ℕ} {s : ServerProcess ι} (hs : s.tcp.nodes = front ++ n :: todo)
    (hn : n.1 ≠ 0) (hstop : ¬ (n.1 = s.tcp.tailData ∨ activity = 0)) (hready : n.sock ∈ forSelect)
    (k : ℕ) :
    receiveAndSendLoop forSelect traffic (k + 1) front.length activity s =
      (s.chat.steps (actsAt s.peer (fun sock => (traffic sock).act) [n.sock])).bind fun chat =>
        if (traffic n.sock).exchange = .succeeds then
          if s.tcp.heap.next = 0 then
            receiveAndSendLoop forSelect traffic k front.length (activity - 1)
              { s with tcp := s.tcp.lose front todo n, chat := chat }
          else
            receiveAndSendLoop forSelect traffic k (front.length + 1) (activity - 1)
              { s with tcp := s.tcp.serve front todo n, chat := chat }
        else
          receiveAndSendLoop forSelect traffic k front.length (activity - 1)
            { s with
              tcp := s.tcp.removeClient front todo n ((traffic n.sock).exchange = .recvFails)
              chat := chat } := by
  have hs' : s.tcp.connectedClient.nodes = front ++ n :: todo := hs
  have hstop' :
      ¬ (decide (n.1 = s.tcp.connectedClient.tailData) || decide (activity = 0)) = true := by
    simpa [tailData] using hstop
  have hready' : n.2.clientSock ∈ forSelect := hready
  rw [receiveAndSendLoop]
  simp only [LinkedList.itrEquals_split hs', LinkedList.itrGet_split hs']
  rw [if_neg hstop', if_pos hready', actionFuncSndRcv_eq]
  cases hstep : s.chat.steps
      (actsAt s.peer (fun sock => (traffic sock).act) [n.2.clientSock]) with
  | none =>
    rw [show s.chat.steps (actsAt s.peer _ [n.sock]) = none from hstep]
    rfl
  | some chat =>
    rw [show s.chat.steps (actsAt s.peer _ [n.sock]) = some chat from hstep, Option.map_some,
      Option.bind_some]
    by_cases hx : (traffic n.sock).exchange = .succeeds
    · have hx' : (traffic n.2.clientSock).exchange = .succeeds := hx
      rw [if_pos hx, hx', actionFuncSndRcv_succeeds]
      simp only [LinkedList.itrNext_split hs', LinkedList.itrPrev, Nat.add_sub_cancel,
        LinkedList.itrRemove_split hs', LinkedList.data_split hs', LinkedList.pushHead, hn,
        ↓reduceIte]
      by_cases hheap : s.tcp.heap.next = 0
      · simp only [hheap, ↓reduceIte]
        rfl
      · simp only [hheap, ↓reduceIte]
        rfl
    · have hx' : (traffic n.2.clientSock).exchange ≠ .succeeds := hx
      rw [if_neg hx, actionFuncSndRcv_fails s.tcp n.2 hx']
      simp only [LinkedList.itrRemove_split hs']
      rfl

/-- A pass is the pass over the list and, on the connections, one act for each client called. -/
theorem loop_eq (forSelect : Finset ℕ) (traffic : ℕ → Traffic) :
    ∀ (todo front : List ClientNode) (activity : ℕ) (s : ServerProcess ι),
      s.tcp.nodes = front ++ todo → s.tcp.NonNull →
      receiveAndSendLoop forSelect traffic todo.length front.length activity s =
        (s.chat.steps (actsAt s.peer (fun sock => (traffic sock).act)
          ((called forSelect s.tcp.tailData todo activity).map ClientNode.sock))).map fun chat =>
            { s with
              tcp := TcpServer.pass forSelect (fun sock => (traffic sock).exchange) front todo
                activity s.tcp
              chat := chat } := by
  intro todo
  induction todo with
  | nil =>
    intro front activity s _ _
    simp [receiveAndSendLoop, TcpServer.pass, actsAt]
  | cons n todo ih =>
    intro front activity s hs hnull
    have hs' : s.tcp.connectedClient.nodes = front ++ n :: todo := hs
    have hn : n.1 ≠ 0 := hnull n (by simp [hs])
    have hrest : ∀ m ∈ front ++ todo, m.1 ≠ 0 := fun m hm => hnull m (hs ▸ mem_split n hm)
    rw [List.length_cons, TcpServer.pass]
    by_cases hstop : n.1 = s.tcp.tailData ∨ activity = 0
    · have hstop' :
          (decide (n.1 = s.tcp.connectedClient.tailData) || decide (activity = 0)) = true := by
        simpa [tailData] using hstop
      rw [receiveAndSendLoop]
      simp only [LinkedList.itrEquals_split hs', LinkedList.itrGet_split hs']
      rw [if_pos hstop', if_pos hstop, called_stop hstop]
      rfl
    · rw [if_neg hstop]
      by_cases hready : n.sock ∈ forSelect
      · rw [if_pos hready, called_ready hstop hready, List.map_cons, actsAt_cons,
          Chat.steps_append, loop_ready traffic hs hn hstop hready]
        cases hstep : s.chat.steps (actsAt s.peer (fun sock => (traffic sock).act) [n.sock]) with
        | none => rfl
        | some chat =>
          rw [Option.bind_some, Option.bind_some]
          by_cases hx : (traffic n.sock).exchange = .succeeds
          · rw [if_pos hx, if_pos hx]
            by_cases hheap : s.tcp.heap.next = 0
            · rw [if_pos hheap, if_pos hheap]
              exact ih front (activity - 1) { s with tcp := s.tcp.lose front todo n, chat := chat }
                rfl hrest
            · rw [if_neg hheap, if_neg hheap]
              have hserve : (s.tcp.serve front todo n).NonNull := by
                intro m hm
                rcases List.mem_cons.mp hm with rfl | hm
                · exact hn
                · exact hrest m hm
              exact ih (s.tcp.refreshed n :: front) (activity - 1)
                { s with tcp := s.tcp.serve front todo n, chat := chat } rfl hserve
          · rw [if_neg hx, if_neg hx]
            exact ih front (activity - 1)
              { s with tcp := s.tcp.removeClient front todo n _, chat := chat } rfl hrest
      · have hstop' :
            ¬ (decide (n.1 = s.tcp.connectedClient.tailData) || decide (activity = 0)) = true := by
          simpa [tailData] using hstop
        have hready' : n.2.clientSock ∉ forSelect := hready
        rw [receiveAndSendLoop]
        simp only [LinkedList.itrEquals_split hs', LinkedList.itrGet_split hs']
        rw [if_neg hstop', if_neg hready, if_neg hready', called_idle hstop hready,
          LinkedList.itrNext_split hs']
        have h := ih (front ++ [n]) activity s (by simp [hs]) hnull
        simpa using h

theorem receiveAndSend_eq (s : ServerProcess ι) (hnull : s.tcp.NonNull) (forSelect : Finset ℕ)
    (traffic : ℕ → Traffic) (activity : ℕ) :
    s.receiveAndSend forSelect traffic activity =
      (s.chat.steps (actsAt s.peer (fun sock => (traffic sock).act)
        ((called forSelect s.tcp.tailData s.tcp.nodes activity).map ClientNode.sock))).map
          fun chat =>
            { s with
              tcp := s.tcp.receiveAndSend forSelect (fun sock => (traffic sock).exchange) activity
              chat := chat } := by
  simp only [TcpServer.receiveAndSend_eq s.tcp hnull]
  exact loop_eq forSelect traffic s.tcp.nodes [] activity s rfl hnull

theorem removeClientOnTimeout_eq {s : ServerProcess ι} {n : ClientNode} {todo : List ClientNode}
    (hs : s.tcp.nodes = n :: todo) :
    s.removeClientOnTimeout n.2 0 =
      (s.chat.steps (actsAt s.peer (fun _ => .close) [n.sock])).map fun chat =>
        (0, { s with tcp := s.tcp.removeClient [] todo n true, chat := chat }) := by
  have honSocket := onSocket_eq { s with tcp := s.tcp.removeClient [] todo n true }
    (fun _ => .close) n.sock
  simp only [removeClientOnTimeout, TcpServer.removeClientOnTimeout_eq hs]
  rw [show n.2.clientSock = n.sock from rfl, honSocket, Option.map_map]
  rfl

theorem checkExpiryLoop_eq (now : TimeVal) :
    ∀ (todo : List ClientNode) (s : ServerProcess ι), s.tcp.nodes = todo →
      checkExpiryLoop now todo.length 0 s =
        (s.chat.steps (actsAt s.peer (fun _ => .close)
          ((overdue now s.tcp.tailData todo).map ClientNode.sock))).map fun chat =>
            { s with tcp := expire now todo s.tcp, chat := chat } := by
  intro todo
  induction todo with
  | nil => intro s _; rfl
  | cons n todo ih =>
    intro s hs
    have hs' : s.tcp.connectedClient.nodes = [] ++ n :: todo := hs
    have hequals := LinkedList.itrEquals_split hs'
    have hget := LinkedList.itrGet_split hs'
    simp only [List.length_nil] at hequals hget
    rw [List.length_cons, checkExpiryLoop, expire]
    simp only [hequals, hget, decide_eq_true_eq]
    by_cases hstop : n.1 = s.tcp.tailData
    · rw [if_pos hstop, if_pos (show n.1 = s.tcp.connectedClient.tailData from hstop),
        overdue_stop hstop]
      rfl
    · rw [if_neg hstop, if_neg (show n.1 ≠ s.tcp.connectedClient.tailData from hstop)]
      by_cases hdue : now.after n.timeout = true
      · rw [if_pos hdue, if_pos (show now.after n.2.clientTimeout = true from hdue),
          removeClientOnTimeout_eq hs, overdue_due hstop hdue, List.map_cons,
          actsAt_cons _ _ _ (List.map _ _), Chat.steps_append]
        cases hstep : s.chat.steps (actsAt s.peer (fun _ => .close) [n.sock]) with
        | none => rfl
        | some chat =>
          exact ih { s with tcp := s.tcp.removeClient [] todo n true, chat := chat } rfl
      · rw [if_neg hdue, if_neg (show ¬ now.after n.2.clientTimeout = true from hdue),
          overdue_early hstop hdue]
        rfl

theorem checkExpiryOfClients_eq (s : ServerProcess ι) :
    s.checkExpiryOfClients =
      (s.chat.steps (actsAt s.peer (fun _ => .close)
        ((overdue s.tcp.clock.now s.tcp.tailData s.tcp.nodes).map ClientNode.sock))).map
          fun chat => { s with tcp := s.tcp.checkExpiryOfClients, chat := chat } := by
  simp only [TcpServer.checkExpiryOfClients_eq]
  exact checkExpiryLoop_eq s.tcp.clock.now s.tcp.nodes
    { s with tcp := { s.tcp with clock := s.tcp.clock.rest } } rfl

theorem addClientToTheList_eq {s : ServerProcess ι} (halloc : ∀ n, s.tcp.heap n ≠ 0) {sock : ℕ}
    {i : ι} (hfree : sock ∉ s.tcp.descriptors) :
    s.addClientToTheList (some (sock, i)) =
      if clientsLimit < s.tcp.nodes.length then
        some { s with
          chat := s.chat.setLink i { s.chat.links i with closed := true }
          peer := update s.peer sock (some i) }
      else some { s with tcp := s.tcp.enrol sock, peer := update s.peer sock (some i) } := by
  have hclient : s.tcp.heap.next ≠ 0 := halloc 0
  have hnode : s.tcp.heap.rest.next ≠ 0 := halloc 1
  rw [addClientToTheList, Option.map_some, TcpServer.addClientToTheList_eq hfree]
  by_cases hlimit : clientsLimit < s.tcp.nodes.length
  · simp [hlimit, hfree, onSocket, Chat.step]
  · have hopen : sock ∈ (s.tcp.enrol sock).descriptors := Finset.mem_insert_self _ _
    simp [hlimit, hclient, hnode, hopen]

theorem onSocket_tcp {s s' : ServerProcess ι} {sock : ℕ} {act : LinkAct}
    (h : s.onSocket sock act = some s') : s'.tcp = s.tcp := by
  rw [onSocket] at h
  split at h
  · rw [← Option.some.inj h]
  · rw [Option.map_eq_some_iff] at h
    obtain ⟨chat, -, rfl⟩ := h
    rfl

theorem addClientToTheList_tcp {s s' : ServerProcess ι} {conn : Option (ℕ × ι)}
    (h : s.addClientToTheList conn = some s') :
    s.tcp.addClientToTheList (conn.map Prod.fst) = some s'.tcp := by
  rw [addClientToTheList, Option.bind_eq_some_iff] at h
  obtain ⟨tcp, htcp, h⟩ := h
  rw [htcp]
  cases conn with
  | none => rw [← Option.some.inj h]
  | some conn =>
    simp only at h
    split_ifs at h
    · rw [← Option.some.inj h]
    · rw [onSocket_tcp h]

def beforePass (s : ServerProcess ι) (x : ProcessRound ι) (fds : Finset ℕ) :
    Option (ServerProcess ι) :=
  let s := { s with tcp := s.tcp.waitTime.2 }
  if s.tcp.masterSocket ∈ fds then s.addClientToTheList x.conn else some s

theorem runServerBody_ready {s : ServerProcess ι} {x : ProcessRound ι} {fds : Finset ℕ}
    (hx : x.selected = .ready fds) (hfds : fds.Nonempty) :
    s.runServerBody x =
      (s.beforePass x fds).bind fun s => s.receiveAndSend fds x.traffic fds.card := by
  simp only [runServerBody, hx, beforePass, Finset.card_pos.mpr hfds, ↓reduceIte]

theorem beforePass_tcp {s s' : ServerProcess ι} {x : ProcessRound ι} {fds : Finset ℕ}
    (h : s.beforePass x fds = some s') : s.tcp.beforePass x.round fds = some s'.tcp := by
  have hmaster : s.tcp.waitTime.2.masterSocket = s.tcp.masterSocket := by
    rcases s.tcp.waitTime_eq with hw | hw <;> rw [hw]
  simp only [beforePass, hmaster] at h
  rw [TcpServer.beforePass]
  split_ifs at h ⊢
  · exact addClientToTheList_tcp h
  · rw [← Option.some.inj h]

/-- The process does to the list what the loop without the application does. -/
theorem runServerBody_tcp {s s' : ServerProcess ι} (hnull : s.tcp.NonNull) {x : ProcessRound ι}
    (hx : s.tcp.Permitted x.round) (h : s.runServerBody x = some s') :
    s.tcp.runServerBody x.round = some s'.tcp := by
  cases hsel : x.selected with
  | fails =>
    simp only [runServerBody, hsel, Option.some.injEq] at h
    rw [runServerBody_fails (x := x.round) hsel, ← h]
  | timeout =>
    simp only [runServerBody, hsel, checkExpiryOfClients_eq, Option.map_eq_some_iff] at h
    obtain ⟨chat, -, rfl⟩ := h
    exact runServerBody_timeout (x := x.round) hsel
  | ready fds =>
    obtain ⟨hfds, -⟩ := hx.ready fds hsel
    rw [runServerBody_ready hsel hfds, Option.bind_eq_some_iff] at h
    obtain ⟨s₁, hs₁, h⟩ := h
    have hs₁' := beforePass_tcp hs₁
    have hnull₁ := NonNull.kept.beforePass hnull hx hs₁'
    rw [receiveAndSend_eq s₁ hnull₁, Option.map_eq_some_iff] at h
    obtain ⟨chat, -, rfl⟩ := h
    rw [TcpServer.runServerBody_ready (x := x.round) hsel hfds, hs₁', Option.map_some]
    rfl

end ServerProcess
end ChatProject
