import ChatProject.ChatWindow
import ChatProject.Conversation

/-!
# The whole system

The server, and for each client its connection, its user interface and its chat windows. A
user types words; the interface reads them and calls the client's functions, which wait for
the server; a granted creation or join opens a chat window. In a chat window a user sends
lines, and the network delivers the datagrams to the listeners at their address: in any order,
some of them several times, some of them never.
-/

namespace ChatProject
open Memory Protocol Run Function Linearizability ChatWindow

/-! ## What a call does with the answer -/

namespace Operation

/-- The client function returns this for the answer it decodes. -/
def result : Operation → UInt32 → ClientErr
  | register .. => Client.registerResult
  | logIn .. => Client.logInResult
  | create .. => Client.createResult
  | join .. => Client.joinResult
  | leave .. => Client.leaveResult

/-- The client function returns this if `Send_To_Server` fails. -/
def unsent : Operation → ClientErr
  | register .. | logIn .. => .allocFail
  | create .. | join .. | leave .. => .sendToServerFail

end Operation

/-- The number of bytes that the allocator gives for one, the port of the server, and the shell
and the terminal of the clients. -/
structure Sessions.Settings where
  room : ℕ
  port : ℤ
  int : -2 ^ 31 ≤ port ∧ port < 2 ^ 31
  shell : Shell
  terminal : Terminal

/-- A chat window, with the arguments of its programs. -/
structure Window where
  groupIP : CStr
  userName : TypedName 17
  groupName : TypedName 18
  listener : Option Listener
  sender : Option Sender

def Window.opened (set : Sessions.Settings) (fileForListen : Bool) (groupIP : CStr)
    (userName : TypedName 17) (groupName : TypedName 18) : Window :=
  let programs := openChatWindow set.shell set.terminal groupIP set.port userName.val groupName.val
    fileForListen
  ⟨groupIP, userName, groupName, programs.1, programs.2⟩

def Operation.window (set : Sessions.Settings) (fileForListen : Bool) (d : Decoded) :
    Operation → List Window
  | create userName groupName =>
    if d.answer = Answers.groupSuccessfullyInsert.code then
      [.opened set fileForListen (d.groupIP.getD []) userName groupName]
    else []
  | join userName groupName =>
    if d.answer = Answers.groupSuccessfullyJoin.code then
      [.opened set fileForListen (d.groupIP.getD []) userName groupName]
    else []
  | register .. | logIn .. | leave .. => []

def Operation.removesPID (d : Decoded) : Operation → List CStr
  | leave _ groupName =>
    if d.answer = Answers.groupSuccessfullyFound.code then [groupName.val] else []
  | register .. | logIn .. | create .. | join .. => []

/-- What the network carries are the address and the bytes. -/
structure Datagram (ι : Type) where
  address : SockAddr
  bytes : Bytes
  client : ι
  userName : TypedName 17
  groupName : TypedName 18
  line : CStr

structure Sessions (ι : Type) where
  chat : Chat ι
  uis : ι → UI
  windows : ι → List Window
  removed : ι → List CStr
  network : List (Datagram ι)

/-- In `say` and `hear` the number `k` is that of the window, in `hear` `m` that of the
datagram. `fileForListen` is whether the client can open that file. In `unsent` the `send` of the
client fails, and `SIGPIPE` does not end it; a client that it ends does nothing more. -/
inductive Act
  | type (w : Word)
  | scan
  | transfer (t : LinkAct) (fileForListen : Bool)
  | unsent
  | say (k : ℕ) (read : Option Bytes)
  | hear (k m : ℕ)

namespace Sessions
variable {ι : Type}

def start (server : Server) (choice : ι → ℤ) : Sessions ι where
  chat := .start server
  uis i := .start (choice i)
  windows _ := []
  removed _ := []
  network := []

section Step
variable [DecidableEq ι] (set : Settings) (s : Sessions ι) (i : ι)

def setUI (u : UI) : Sessions ι := { s with uis := update s.uis i u }

def takeAnswer (fileForListen : Bool) (d : Decoded) : Sessions ι :=
  match (s.uis i).screen with
  | .waiting op =>
    { s with
      uis := update s.uis i ((s.uis i).resume (op.result d.answer))
      windows := update s.windows i (s.windows i ++ op.window set fileForListen d)
      removed := update s.removed i (s.removed i ++ op.removesPID d) }
  | _ => s

/-- What happens on the connection, and what the client does after its `recv`. -/
def transfer (t : LinkAct) (fileForListen : Bool) : Option (Sessions ι) :=
  (s.chat.step (i, t)).map fun chat =>
    let s := { s with chat := chat }
    match t with
    | .reciveFromServer _ | .reciveNothing =>
      (chat.links i).decoded.getLast?.elim s (s.takeAnswer set i fileForListen)
    | .sendToServer _ | .sndRcv .. | .sendFails _ | .close => s

/-- The call that waits for it returns without an answer. -/
def unsent : Sessions ι :=
  match (s.uis i).screen with
  | .waiting op => s.setUI i ((s.uis i).resume op.unsent)
  | _ => s

def setWindow (k : ℕ) (w : Window) : Sessions ι :=
  { s with windows := update s.windows i ((s.windows i).set k w) }

/-- A sender that has written beyond its buffer is gone. -/
def say (k : ℕ) (read : Option Bytes) : Sessions ι :=
  match (s.windows i)[k]? with
  | none => s
  | some w =>
    match w.sender with
    | none => s
    | some sender =>
      match sender.say read with
      | none => s.setWindow i k { w with sender := none }
      | some (sender', datagram) =>
        { s.setWindow i k { w with sender := some sender' } with
          network := s.network ++
            [⟨sender.address, datagram, i, w.userName, w.groupName, sender'.message⟩] }

/-- The network delivers a datagram to the sockets that are bound to its address. -/
def hear (k m : ℕ) : Sessions ι :=
  match (s.windows i)[k]?, s.network[m]? with
  | some w, some d =>
    match w.listener with
    | none => s
    | some listener =>
      if d.address = listener.address then
        s.setWindow i k { w with listener := some (listener.receive d.bytes) }
      else s
  | _, _ => s

end Step

section Run
variable [DecidableEq ι] (set : Settings)

def step (s : Sessions ι) (e : ι × Act) : Option (Sessions ι) :=
  match e.2 with
  | .type w => some (s.setUI e.1 ((s.uis e.1).typeWord w))
  | .scan => some (s.setUI e.1 ((s.uis e.1).scan set.room))
  | .transfer t fileForListen => s.transfer set e.1 t fileForListen
  | .unsent => some (s.unsent e.1)
  | .say k read => some (s.say e.1 k read)
  | .hear k m => some (s.hear e.1 k m)

def Requests (s : Sessions ι) (i : ι) : LinkAct → Prop
  | .sendToServer c => ∃ op user group, (s.uis i).screen = .waiting op ∧ c = op.call user group
  | _ => True

/-- `send` fails on a closed connection only. -/
def Permitted (s : Sessions ι) (e : ι × Act) : Prop :=
  match e.2 with
  | .transfer t _ => s.chat.Permitted (e.1, t) ∧ s.Requests e.1 t
  | .unsent => (s.chat.links e.1).closed = true ∧ (s.chat.connection e.1).Idle ∧
      ∃ op, (s.uis e.1).screen = .waiting op
  | _ => True

def Whole (s : Sessions ι) (e : ι × Act) : Prop :=
  match e.2 with
  | .transfer t _ => s.chat.Whole (e.1, t)
  | _ => True

def after (server : Server) (choice : ι → ℤ) (es : List (ι × Act)) : Option (Sessions ι) :=
  Run.after (fun o e => o.bind fun s => s.step set e) (some (start server choice)) es

@[simp] theorem after_snoc (server : Server) (choice : ι → ℤ) (es : List (ι × Act))
    (e : ι × Act) : after set server choice (es ++ [e]) =
      (after set server choice es).bind fun s => s.step set e :=
  Run.after_snoc _ _ _ _

end Run
end Sessions
end ChatProject
