import ChatProject.LinkedList
import ChatProject.Run
import ChatProject.TimeVal
import Mathlib.Data.Finset.Insert
import Mathlib.Data.Finset.Card

/-!
# The select loop of the server

The list of connected clients holds pointers to `ClientData` records; a record is kept in
the list with its pointer. What the system calls answer is given from outside: `select` and
`accept` for each iteration of the loop, `recv` and `send` for each exchange, and the clock
as the readings that the coming `gettimeofday` calls return. The descriptors that are open
are part of the state. Descriptor sets are sets, and `close` always succeeds. The
application function changes nothing that the loop uses.

Where a client is removed, the loops go on from the node that has just been freed. Here its links
are taken to be readable still, so they go on with the node that took its place. `ReceivePass`
follows `ReceiveAndSend` in memory, where this read is undefined; if no exchange fails, the pass
there is the pass here.

`events` records what the callbacks were called for, and when clients were accepted and
served.
-/

namespace ChatProject
open Memory TimeVal

/-- Normalised readings that never go back. -/
structure Clock where
  reading : ℕ → TimeVal
  normalised : ∀ n, (reading n).Normalised
  mono : ∀ n, (reading n).micros ≤ (reading (n + 1)).micros

namespace Clock

def now (c : Clock) : TimeVal := c.reading 0

def rest (c : Clock) : Clock where
  reading n := c.reading (n + 1)
  normalised n := c.normalised (n + 1)
  mono n := c.mono (n + 1)

end Clock

structure ClientData where
  clientSock : ℕ
  clientTimeout : TimeVal
  deriving DecidableEq

inductive Event
  | welcome (sock : ℕ)
  | goodbye (sock : ℕ)
  | accepted (sock : ℕ) (t : TimeVal)
  | served (sock : ℕ) (t : TimeVal)
  deriving DecidableEq

inductive Exchange
  | recvFails
  | sendFails
  | succeeds
  deriving DecidableEq

structure TcpServer where
  masterSocket : ℕ
  connectedClient : LinkedList ClientData
  masterFds : Finset ℕ
  maxWaitTime : TimeVal
  maxSocket : ℕ
  acceptFunction : Bool
  goodbye : Bool
  descriptors : Finset ℕ
  clock : Clock
  heap : Heap
  events : List Event

namespace TcpServer

def clientsLimit : ℕ := 1000

def close (s : TcpServer) (sock : ℕ) : TcpServer :=
  { s with descriptors := s.descriptors.erase sock }

def emit (s : TcpServer) (e : Event) : TcpServer := { s with events := e :: s.events }

def sayGoodbye (s : TcpServer) (sock : ℕ) : TcpServer :=
  if s.goodbye then s.emit (.goodbye sock) else s

def updateTimeForClient (s : TcpServer) : TimeVal × TcpServer :=
  (timeradd s.clock.now s.maxWaitTime, { s with clock := s.clock.rest })

/-- `conn` is the descriptor that `accept` returns, if it returns one. A client is its
record's pointer and its socket; the deadline is not yet set. -/
def acceptClient (s : TcpServer) (conn : Option ℕ) : Option (Ptr × ℕ) × TcpServer :=
  match conn with
  | none => (none, s)
  | some sock =>
    let s := { s with descriptors := insert sock s.descriptors }
    if clientsLimit < s.connectedClient.size then (none, s.close sock)
    else
      let s := { s with
        masterFds := insert sock s.masterFds
        maxSocket := if s.maxSocket < sock then sock else s.maxSocket }
      if s.heap.next = 0 then (none, { s.close sock with heap := s.heap.rest })
      else
        let client := s.heap.next
        let s := { s with heap := s.heap.rest }
        (some (client, sock), if s.acceptFunction then s.emit (.welcome sock) else s)

/-- `none` is the write through a null node in `List_PushTail`. -/
def addClientToTheList (s : TcpServer) (conn : Option ℕ) : Option TcpServer :=
  match s.acceptClient conn with
  | (none, s) => some s
  | (some (client, sock), s) =>
    let now := s.clock.now
    let (timeout, s) := s.updateTimeForClient
    match s.connectedClient.pushTail client ⟨sock, timeout⟩ s.heap with
    | none => none
    | some (_, l, h) =>
      some ({ s with connectedClient := l, heap := h }.emit (.accepted sock now))

/-- `none` for the result `-1`, otherwise the record with its new deadline. -/
def actionFuncSndRcv (s : TcpServer) (client : ClientData) :
    Exchange → Option ClientData × TcpServer
  | .recvFails => (none, (s.sayGoodbye client.clientSock).close client.clientSock)
  | .sendFails => (none, s.close client.clientSock)
  | .succeeds =>
    let now := s.clock.now
    let (timeout, s) := s.updateTimeForClient
    (some { client with clientTimeout := timeout }, s.emit (.served client.clientSock now))

/-- The loop of `ReceiveAndSend` from the position `itr`, for at most as many passes as the
list has elements from there on. -/
def receiveAndSendLoop (forSelect : Finset ℕ) (exchange : ℕ → Exchange) :
    ℕ → ℕ → ℕ → TcpServer → TcpServer
  | 0, _, _, s => s
  | n + 1, itr, activity, s =>
    let l := s.connectedClient
    if l.itrEquals itr l.itrEnd || activity = 0 then s
    else match l.itrGet itr with
      | none => s
      | some client =>
        if client.clientSock ∈ forSelect then
          match s.actionFuncSndRcv client (exchange client.clientSock) with
          | (none, s) =>
            -- `m_next` is read from the freed node: the node that has taken its place
            receiveAndSendLoop forSelect exchange n itr (activity - 1)
              { s with
                connectedClient := (l.itrRemove itr).2
                masterFds := s.masterFds.erase client.clientSock }
          | (some client', s) =>
            let item := l.data itr
            let (_, l) := l.itrRemove (l.itrPrev (l.itrNext itr))
            match LinkedList.pushHead (some l) item client' s.heap with
            | (.success, some l, h) =>
              receiveAndSendLoop forSelect exchange n (itr + 1) (activity - 1)
                { s with connectedClient := l, heap := h }
            -- the result of `List_PushHead` is not looked at: the client is in no list
            | (_, _, h) =>
              receiveAndSendLoop forSelect exchange n itr (activity - 1)
                { s with connectedClient := l, heap := h }
        else receiveAndSendLoop forSelect exchange n (l.itrNext itr) activity s

def receiveAndSend (s : TcpServer) (forSelect : Finset ℕ) (exchange : ℕ → Exchange)
    (activity : ℕ) : TcpServer :=
  receiveAndSendLoop forSelect exchange s.connectedClient.size s.connectedClient.itrBegin
    activity s

/-- The position of the next client is that of the client removed. -/
def removeClientOnTimeout (s : TcpServer) (client : ClientData) (itr : ℕ) : ℕ × TcpServer :=
  let s := s.sayGoodbye client.clientSock
  let s := { s with masterFds := s.masterFds.erase client.clientSock }
  let s := s.close client.clientSock
  let l := s.connectedClient
  let next := l.itrNext itr
  (l.itrPrev next, { s with connectedClient := (l.itrRemove (l.itrPrev next)).2 })

def checkExpiryLoop (now : TimeVal) : ℕ → ℕ → TcpServer → TcpServer
  | 0, _, s => s
  | n + 1, itr, s =>
    let l := s.connectedClient
    if l.itrEquals itr l.itrEnd then s
    else match l.itrGet itr with
      | none => s
      | some client =>
        if now.after client.clientTimeout then
          let (itr, s) := s.removeClientOnTimeout client itr
          checkExpiryLoop now n itr s
        else s

def checkExpiryOfClients (s : TcpServer) : TcpServer :=
  checkExpiryLoop s.clock.now s.connectedClient.size s.connectedClient.itrBegin
    { s with clock := s.clock.rest }

def getTTL (s : TcpServer) : Option TimeVal × TcpServer :=
  ((s.connectedClient.itrGet s.connectedClient.itrBegin).map fun client =>
      timersub client.clientTimeout s.clock.now,
    { s with clock := s.clock.rest })

/-- The time limit passed to `select`: none (`NULL`) while no client is connected. -/
def waitTime (s : TcpServer) : Option TimeVal × TcpServer :=
  if s.connectedClient.size = 0 then (none, s) else s.getTTL

inductive Selected
  | fails
  | timeout
  | ready (fds : Finset ℕ)

/-- What the system calls answer in one iteration of the loop of `RunServer`. -/
structure Round where
  selected : Selected
  conn : Option ℕ
  exchange : ℕ → Exchange

def runServerBody (s : TcpServer) (x : Round) : Option TcpServer :=
  let (_, s) := s.waitTime
  match x.selected with
  | .fails => some s
  | .timeout => some s.checkExpiryOfClients
  | .ready fds =>
    let added := if s.masterSocket ∈ fds then s.addClientToTheList x.conn else some s
    added.map fun s =>
      if 0 < fds.card then s.receiveAndSend fds x.exchange fds.card else s

def createServer (masterSocket maxWaitTime : ℕ) (acceptFunction goodbye : Bool) (junk : Ptr)
    (otherFds : Finset ℕ) (clock : Clock) (heap : Heap) : TcpServer where
  masterSocket := masterSocket
  connectedClient := ⟨[], junk⟩
  masterFds := {masterSocket}
  maxWaitTime := ofSeconds maxWaitTime
  maxSocket := masterSocket
  acceptFunction := acceptFunction
  goodbye := goodbye
  descriptors := insert masterSocket otherFds
  clock := clock
  heap := heap
  events := []

end TcpServer
end ChatProject
