import ChatProject.EndToEnd
import ChatProject.Isolation

/-!
# Requests and answers over a byte stream

Each direction of a connection is a stream of bytes, of which a `recv` takes some from the
front. The server handles what one `recv` returns as one message and sends a whole buffer;
the client decodes what its one `recv` returns as the answer. Neither looks at how many
bytes there were.
-/

namespace ChatProject
open Memory Protocol ByteOrder Run

namespace Client

def buffSize : ℕ := 4093

def buffRcv : ℕ := 1024

end Client

/-- What the client reads in the buffer that it has received into. -/
structure Decoded where
  type : Option ProtocolType
  answer : UInt32
  groupIP : Option CStr
  deriving DecidableEq

namespace ClientCall
open Client

def requested : ClientCall → ℕ
  | register .. | logIn .. => buffSize
  | create .. | join .. | leave .. => buffRcv

theorem buffSize_le_requested (c : ClientCall) : Server.buffSize ≤ c.requested := by
  cases c <;> simp [requested, Server.buffSize, buffSize, buffRcv]

def decodeGroupIP (buffer : Bytes) : ClientCall → Option CStr
  | create .. | join .. => some (cstr buffer ansGroupIP)
  | register .. | logIn .. | leave .. => none

/-- The buffer is zeroed before the bytes are received into it. -/
def decode (c : ClientCall) (received : Bytes) : Decoded :=
  let (type, buffer) :=
    unPack .little (received ++ List.replicate (buffSize - received.length) 0)
  ⟨type, load32 .little buffer c.answerAt, c.decodeGroupIP buffer⟩

theorem message_length (c : ClientCall) : 0 < c.message.length ∧ c.message.length < 1024 := by
  have hlen : c.message.length = c.request.message.length := congrArg _ c.message_eq
  rw [hlen]
  cases c.request <;> simp [Request.message, frame_length]

end ClientCall

/-- A connection of a client, with what has passed over it: the requests, the messages that
the server has handled with the buffer it sent for each, and what the client has decoded. -/
structure Connection where
  server : Server
  toServer : Bytes
  toClient : Bytes
  requests : List ClientCall
  handled : List (Bytes × Bytes)
  decoded : List Decoded

/-- `sendToServer` and `reciveFromServer` are steps of the client, `sndRcv` is one of the
server with this client and `other` one with another client. The numbers are what `recv`
returns. -/
inductive Transfer
  | sendToServer (c : ClientCall)
  | sndRcv (n : ℕ) (beyond : Block Server.buffSize)
  | reciveFromServer (n : ℕ)
  | other (msg : Bytes)

namespace Connection

def Idle (s : Connection) : Prop := s.decoded.length = s.requests.length

/-- `send` takes a whole buffer from the answer struct on, whatever is `beyond` it. -/
def sent (bytes : Bytes) (beyond : Block Server.buffSize) : Bytes :=
  (bytes ++ beyond.1).take Server.buffSize

/-- `none` where the server crashes or closes the connection, there being no answer. -/
def step (s : Connection) : Transfer → Option Connection
  | .sendToServer c =>
    some { s with toServer := s.toServer ++ c.message, requests := s.requests ++ [c] }
  | .sndRcv n beyond =>
    match s.server.exchange (s.toServer.take n) with
    | (.answer _ bytes, server) =>
      some { s with
        server := server
        toServer := s.toServer.drop n
        toClient := s.toClient ++ sent bytes beyond
        handled := s.handled ++ [(s.toServer.take n, sent bytes beyond)] }
    | _ => none
  | .reciveFromServer n =>
    s.requests.getLast?.map fun c =>
      { s with
        toClient := s.toClient.drop n
        decoded := s.decoded ++ [c.decode (s.toClient.take n)] }
  | .other msg =>
    match s.server.exchange msg with
    | (.crash, _) => none
    | (_, server) => some { s with server := server }

/-- A call sends its request and waits for one `recv`; a `recv` returns some of the bytes
that are there, at most as many as it is asked for. -/
def Permitted (s : Connection) : Transfer → Prop
  | .sendToServer _ => s.Idle
  | .sndRcv n _ => 0 < n ∧ n ≤ s.toServer.length ∧ n ≤ Server.buffSize
  | .reciveFromServer n => ¬ s.Idle ∧ 0 < n ∧ n ≤ s.toClient.length ∧
    ∀ c, s.requests.getLast? = some c → n ≤ c.requested
  | .other _ => True

/-- A `recv` returns all bytes that are there, up to the length that it is asked for. -/
def Whole (s : Connection) : Transfer → Prop
  | .sndRcv n _ => n = min s.toServer.length Server.buffSize
  | .reciveFromServer n => ∀ c, s.requests.getLast? = some c →
    n = min s.toClient.length c.requested
  | .sendToServer _ | .other _ => True

/-- The server has handled each request, so far, as one message, and the client has decoded
the answer to its `k`-th request for that request. -/
structure Paired (s : Connection) : Prop where
  messages : s.handled.map Prod.fst <+: s.requests.map ClientCall.message
  answers : ∀ (k : ℕ) (d : Decoded), s.decoded[k]? = some d →
    ∃ c h, s.requests[k]? = some c ∧ s.handled[k]? = some h ∧ d = c.decode h.2

/-- Where a request and its answer are, between two steps. -/
inductive Phase (s : Connection) : Prop
  | idle : s.toServer = [] → s.toClient = [] → s.handled.length = s.requests.length →
      s.decoded.length = s.requests.length → Phase s
  | asked (cs : List ClientCall) (c : ClientCall) : s.requests = cs ++ [c] →
      s.toServer = c.message → s.toClient = [] → s.handled.length = cs.length →
      s.decoded.length = cs.length → Phase s
  | answered (cs : List ClientCall) (c : ClientCall) (hs : List (Bytes × Bytes))
      (h : Bytes × Bytes) : s.requests = cs ++ [c] → s.handled = hs ++ [h] → s.toServer = [] →
      s.toClient = h.2 → h.2.length = Server.buffSize → hs.length = cs.length →
      s.decoded.length = cs.length → Phase s

structure Synced (s : Connection) : Prop where
  paired : s.Paired
  phase : s.Phase

variable {s s' : Connection} {t : Transfer}

theorem sent_length (bytes : Bytes) (beyond : Block Server.buffSize) :
    (sent bytes beyond).length = Server.buffSize := by
  rw [sent, List.length_take, List.length_append, beyond.2]
  omega

theorem Paired.send (h : s.Paired) (c : ClientCall) (toServer : Bytes) :
    Paired { s with toServer := toServer, requests := s.requests ++ [c] } where
  messages := by
    rw [List.map_append]
    exact h.messages.trans (List.prefix_append _ _)
  answers := by
    intro k d hd
    obtain ⟨c', h', hc, hh, hdec⟩ := h.answers k d hd
    have hlt := (List.getElem?_eq_some_iff.mp hc).1
    exact ⟨c', h', by rwa [List.getElem?_append_left hlt], hh, hdec⟩

theorem Paired.serve (h : s.Paired) {cs : List ClientCall} {c : ClientCall}
    (hreq : s.requests = cs ++ [c]) (hlen : s.handled.length = cs.length) (server : Server)
    (toServer toClient answer : Bytes) :
    Paired { s with
      server := server
      toServer := toServer
      toClient := toClient
      handled := s.handled ++ [(c.message, answer)] } where
  messages := by
    have hprefix : s.handled.map Prod.fst <+: cs.map ClientCall.message ++ [c.message] := by
      simpa [hreq] using h.messages
    have hmap : s.handled.map Prod.fst = cs.map ClientCall.message := by
      have htake := List.prefix_iff_eq_take.mp hprefix
      rwa [List.length_map, hlen, ← List.length_map (f := ClientCall.message),
        List.take_left] at htake
    simp [hmap, hreq]
  answers := by
    intro k d hd
    obtain ⟨c', h', hc, hh, hdec⟩ := h.answers k d hd
    have hlt := (List.getElem?_eq_some_iff.mp hh).1
    exact ⟨c', h', hc, by rwa [List.getElem?_append_left hlt], hdec⟩

theorem Paired.receive (h : s.Paired) {cs : List ClientCall} {c : ClientCall}
    {hs : List (Bytes × Bytes)} {g : Bytes × Bytes} (hreq : s.requests = cs ++ [c])
    (hhandled : s.handled = hs ++ [g]) (hlen : hs.length = cs.length)
    (hdec : s.decoded.length = cs.length) (toClient : Bytes) :
    Paired { s with toClient := toClient, decoded := s.decoded ++ [c.decode g.2] } where
  messages := h.messages
  answers := by
    intro k d hd
    by_cases hlt : k < s.decoded.length
    · rw [List.getElem?_append_left hlt] at hd
      exact h.answers k d hd
    · rw [List.getElem?_append_right (Nat.le_of_not_lt hlt), List.getElem?_singleton] at hd
      split_ifs at hd with hk
      obtain rfl := Option.some.inj hd
      obtain rfl : k = cs.length := by omega
      exact ⟨c, g, by simp [hreq], by simp [hhandled, ← hlen], rfl⟩

theorem Synced.send (h : s.Synced) (hidle : s.Idle) (c : ClientCall) :
    Synced { s with toServer := s.toServer ++ c.message, requests := s.requests ++ [c] } := by
  refine ⟨h.paired.send c _, ?_⟩
  rw [Idle] at hidle
  cases h.phase with
  | idle hserver hclient hhandled hdecoded =>
    exact .asked s.requests c rfl (by simp [hserver]) hclient hhandled hdecoded
  | asked cs c' hreq _ _ _ hdecoded =>
    rw [hreq, List.length_append] at hidle
    simp at hidle
    omega
  | answered cs c' hs g hreq _ _ _ _ _ hdecoded =>
    rw [hreq, List.length_append] at hidle
    simp at hidle
    omega

theorem Synced.serve (h : s.Synced) {n : ℕ} {beyond : Block Server.buffSize}
    (hp : s.Permitted (.sndRcv n beyond)) (hw : s.Whole (.sndRcv n beyond))
    (hs : s.step (.sndRcv n beyond) = some s') : s'.Synced := by
  obtain ⟨hpos, hle, -⟩ := hp
  cases h.phase with
  | idle hserver => simp [hserver] at hle; omega
  | answered cs c hs g hreq hhandled hserver => simp [hserver] at hle; omega
  | asked cs c hreq hserver hclient hhandled hdecoded =>
    obtain rfl : n = c.message.length := by
      have hlen := c.message_length.2
      have hmin := hw
      rw [Whole, hserver] at hmin
      simp only [Server.buffSize] at hmin
      omega
    have htake : s.toServer.take c.message.length = c.message := by rw [hserver, List.take_length]
    have hdrop : s.toServer.drop c.message.length = [] := by rw [hserver, List.drop_length]
    simp only [step, htake, hdrop, hclient, List.nil_append] at hs
    split at hs
    · obtain rfl := Option.some.inj hs
      refine ⟨h.paired.serve hreq hhandled _ _ _ _, ?_⟩
      exact .answered cs c s.handled _ hreq rfl rfl rfl (sent_length _ _) hhandled hdecoded
    · cases hs

theorem Synced.receive (h : s.Synced) {n : ℕ} (hp : s.Permitted (.reciveFromServer n))
    (hw : s.Whole (.reciveFromServer n)) (hs : s.step (.reciveFromServer n) = some s') :
    s'.Synced := by
  obtain ⟨-, hpos, hle, hreqd⟩ := hp
  cases h.phase with
  | idle _ hclient => simp [hclient] at hle; omega
  | asked cs c _ _ hclient => simp [hclient] at hle; omega
  | answered cs c hs g hreq hhandled hserver hclient hlen hlens hdecoded =>
    have hlast : s.requests.getLast? = some c := by simp [hreq]
    obtain rfl : n = g.2.length := by
      have hmin := hw c hlast
      have hsize : g.2.length ≤ c.requested := hlen ▸ c.buffSize_le_requested
      rw [hclient] at hmin
      omega
    have htake : s.toClient.take g.2.length = g.2 := by rw [hclient, List.take_length]
    have hdrop : s.toClient.drop g.2.length = [] := by rw [hclient, List.drop_length]
    simp only [step, hlast, Option.map_some, htake, hdrop, Option.some.injEq] at hs
    subst hs
    refine ⟨h.paired.receive hreq hhandled hlens hdecoded _, ?_⟩
    refine .idle hserver rfl ?_ ?_
    · simp [hhandled, hreq, hlens]
    · simp [hdecoded, hreq]

theorem Synced.other (h : s.Synced) (server : Server) : Synced { s with server := server } := by
  refine ⟨⟨h.paired.messages, h.paired.answers⟩, ?_⟩
  cases h.phase with
  | idle h₁ h₂ h₃ h₄ => exact .idle h₁ h₂ h₃ h₄
  | asked cs c h₁ h₂ h₃ h₄ h₅ => exact .asked cs c h₁ h₂ h₃ h₄ h₅
  | answered cs c hs g h₁ h₂ h₃ h₄ h₅ h₆ h₇ => exact .answered cs c hs g h₁ h₂ h₃ h₄ h₅ h₆ h₇

theorem Synced.step (h : s.Synced) (hp : s.Permitted t) (hw : s.Whole t)
    (hs : s.step t = some s') : s'.Synced := by
  cases t with
  | sendToServer c => exact Option.some.inj hs ▸ h.send hp c
  | sndRcv n beyond => exact h.serve hp hw hs
  | reciveFromServer n => exact h.receive hp hw hs
  | other msg =>
    simp only [Connection.step] at hs
    split at hs
    · cases hs
    · exact Option.some.inj hs ▸ h.other _

def start (server : Server) : Connection := ⟨server, [], [], [], [], []⟩

theorem synced_start (server : Server) : (start server).Synced :=
  ⟨⟨List.prefix_rfl, by simp [start]⟩, .idle rfl rfl rfl rfl⟩

/-- The state after some transfers, unless the server has crashed or closed the connection. -/
def after (server : Server) (ts : List Transfer) : Option Connection :=
  Run.after (fun o t => o.bind fun s => s.step t) (some (start server)) ts

theorem after_snoc (server : Server) (ts : List Transfer) (t : Transfer) :
    after server (ts ++ [t]) = (after server ts).bind fun s => s.step t :=
  Run.after_snoc _ _ _ _

end Connection

open Connection

structure ConnectionRun where
  server : Server
  transfers : List Transfer
  permitted : ∀ pre t, Occurs transfers pre t → ∀ s, Connection.after server pre = some s →
    s.Permitted t

namespace ConnectionRun

def AllWhole (r : ConnectionRun) : Prop :=
  ∀ pre t, Occurs r.transfers pre t → ∀ s, Connection.after r.server pre = some s → s.Whole t

def AllPaired (r : ConnectionRun) : Prop :=
  ∀ pre, pre <+: r.transfers → ∀ s, Connection.after r.server pre = some s → s.Paired

theorem synced (r : ConnectionRun) (hw : r.AllWhole) {pre : List Transfer}
    (hpre : pre <+: r.transfers) {s : Connection}
    (hs : Connection.after r.server pre = some s) : s.Synced := by
  induction pre using List.reverseRecOn generalizing s with
  | nil => exact Option.some.inj hs ▸ synced_start r.server
  | append_singleton pre t ih =>
    rw [Connection.after_snoc, Option.bind_eq_some_iff] at hs
    obtain ⟨s₀, hs₀, hstep⟩ := hs
    exact (ih (Occurs.history hpre) hs₀).step (r.permitted pre t hpre s₀ hs₀)
      (hw pre t hpre s₀ hs₀) hstep

/-- Requests and answers are paired in every run in which every `recv` returns all bytes
that are there. -/
theorem allPaired_of_allWhole (r : ConnectionRun) (hw : r.AllWhole) : r.AllPaired :=
  fun _ hpre _ hs => (r.synced hw hpre hs).paired

/-! ## A login of an unknown user -/

def loginCall : ClientCall :=
  .logIn ⟨List.replicate sizeofUserDetails 0, rfl⟩ ⟨[97], by decide⟩ ⟨[120], by decide⟩

def loginBuffer : Bytes := sent [ProtocolType.loginAns.toByte, 0, 0, 0, 0, 0, 0, 3] blankBuffer

theorem loginCall_exchange :
    ((Server.running id).exchange loginCall.message).1 =
      .answer ⟨.loginAns, none, some .loginUserNameNotExist⟩
        [ProtocolType.loginAns.toByte, 0, 0, 0, 0, 0, 0, 3] := by
  obtain ⟨-, s', he, -⟩ := (Server.running_serves id).exchange loginCall.request
  rw [loginCall.message_eq, he]
  change ServerApp.packAnswer (some (Tables.empty.reply loginCall.request.call)) = _
  decide

def loginHandled : Connection where
  server := ((Server.running id).exchange loginCall.message).2
  toServer := []
  toClient := loginBuffer
  requests := [loginCall]
  handled := [(loginCall.message, loginBuffer)]
  decoded := []

theorem after_sndRcv :
    Connection.after (Server.running id) [.sendToServer loginCall, .sndRcv 35 blankBuffer] =
      some loginHandled := by
  have htake : loginCall.message.take 35 = loginCall.message := by decide
  have hdrop : loginCall.message.drop 35 = [] := by decide
  have hexchange := loginCall_exchange
  rcases hx : (Server.running id).exchange loginCall.message with ⟨res, s'⟩
  rw [hx] at hexchange
  obtain rfl : res = _ := hexchange
  simp [Connection.after, Run.after, step, start, htake, hdrop, hx, loginHandled, loginBuffer]

theorem loginBuffer_length : loginBuffer.length = 1024 := sent_length _ _

/-- The client's `recv` returns `n` bytes of the answer. -/
def loginTransfers (n : ℕ) : List Transfer :=
  [.sendToServer loginCall, .sndRcv 35 blankBuffer, .reciveFromServer n]

theorem forall_loginTransfers {n : ℕ} {P : Connection → Transfer → Prop}
    (hsend : P (start (Server.running id)) (.sendToServer loginCall))
    (hserve : ∀ s, s.toServer = loginCall.message → P s (.sndRcv 35 blankBuffer))
    (hreceive : P loginHandled (.reciveFromServer n)) :
    ∀ pre t, Occurs (loginTransfers n) pre t →
      ∀ s, Connection.after (Server.running id) pre = some s → P s t := by
  refine (forall_occurs_snoc [_, _] _).mpr ⟨(forall_occurs_snoc [_] _).mpr ⟨?_, ?_⟩, ?_⟩
  · refine (forall_occurs_snoc [] _).mpr ⟨forall_occurs_nil _, ?_⟩
    intro s hs
    exact Option.some.inj hs ▸ hsend
  · intro s hs
    obtain rfl := Option.some.inj hs
    exact hserve _ rfl
  · intro s hs
    exact Option.some.inj (after_sndRcv.symm.trans hs) ▸ hreceive

theorem permitted_loginTransfers {n : ℕ} (hpos : 0 < n) (hle : n ≤ 1024) :
    ∀ pre t, Occurs (loginTransfers n) pre t →
      ∀ s, Connection.after (Server.running id) pre = some s → s.Permitted t := by
  have hserve : ∀ s : Connection, s.toServer = loginCall.message →
      s.Permitted (.sndRcv 35 blankBuffer) := by
    intro s hs
    rw [Connection.Permitted, hs]
    decide
  refine forall_loginTransfers rfl hserve ⟨by simp [Idle, loginHandled], hpos, ?_, ?_⟩
  · exact Nat.le_trans hle (Nat.le_of_eq loginBuffer_length.symm)
  · intro c hc
    obtain rfl : loginCall = c := by simpa [loginHandled] using hc
    exact Nat.le_trans hle (by decide)

def login (n : ℕ) (hpos : 0 < n) (hle : n ≤ 1024) : ConnectionRun where
  server := Server.running id
  transfers := loginTransfers n
  permitted := permitted_loginTransfers hpos hle

/-- With only four bytes of the answer, the client reads the code 0 and not 3. -/
theorem allPaired_fails : ¬ (login 4 (by decide) (by decide)).AllPaired := by
  intro h
  have hafter := Connection.after_snoc (Server.running id)
    [.sendToServer loginCall, .sndRcv 35 blankBuffer] (.reciveFromServer 4)
  rw [after_sndRcv] at hafter
  have hpaired := h (login 4 (by decide) (by decide)).transfers List.prefix_rfl _ hafter
  obtain ⟨c, g, hc, hg, hd⟩ := hpaired.answers 0 _ rfl
  obtain rfl : loginCall = c := by simpa [loginHandled] using hc
  obtain rfl : (loginCall.message, loginBuffer) = g := by simpa [loginHandled] using hg
  have hshort : (loginCall.decode (loginBuffer.take 4)).answer = 0 := by decide
  have hwhole : (loginCall.decode loginBuffer).answer = 3 := by decide
  have hsame : loginCall.decode (loginBuffer.take 4) = loginCall.decode loginBuffer := hd
  rw [hsame, hwhole] at hshort
  exact absurd hshort (by decide)

/-! ## A registration and a login -/

structure AtRest (s : Connection) (t : Tables) : Prop where
  toServer : s.toServer = []
  toClient : s.toClient = []
  idle : s.Idle
  serves : Serves s.server t

def callTransfers (c : ClientCall) : List Transfer :=
  [.sendToServer c, .sndRcv c.message.length blankBuffer, .reciveFromServer Server.buffSize]

theorem exists_snoc {r : ConnectionRun} (hw : r.AllWhole) {s s' : Connection}
    (hs : Connection.after r.server r.transfers = some s) {t : Transfer} (hp : s.Permitted t)
    (ht : s.Whole t) (hstep : s.step t = some s') :
    ∃ r' : ConnectionRun, r'.AllWhole ∧ r'.transfers = r.transfers ++ [t] ∧
      Connection.after r'.server r'.transfers = some s' := by
  have hthere : ∀ s₀, Connection.after r.server r.transfers = some s₀ → s = s₀ :=
    fun _ hs₀ => Option.some.inj (hs.symm.trans hs₀)
  refine ⟨⟨r.server, r.transfers ++ [t], (forall_occurs_snoc _ _).mpr ⟨r.permitted, ?_⟩⟩,
    (forall_occurs_snoc _ _).mpr ⟨hw, ?_⟩, rfl, ?_⟩
  · intro s₀ hs₀
    exact hthere s₀ hs₀ ▸ hp
  · intro s₀ hs₀
    exact hthere s₀ hs₀ ▸ ht
  · rw [Connection.after_snoc, hs, Option.bind_some, hstep]

theorem exists_call {r : ConnectionRun} (hw : r.AllWhole) {s : Connection} {t : Tables}
    (hs : Connection.after r.server r.transfers = some s) (h : AtRest s t) (c : ClientCall) :
    ∃ (r' : ConnectionRun) (s' : Connection), r'.AllWhole ∧
      r'.transfers = r.transfers ++ callTransfers c ∧
      Connection.after r'.server r'.transfers = some s' ∧ AtRest s' (t.next c.request.call) ∧
      s'.decoded.length = s.decoded.length + 1 := by
  obtain ⟨-, server, he, hserves⟩ := h.serves.exchange c.request
  rw [← c.message_eq, ServerApp.packAnswer] at he
  obtain ⟨hpos, hlt⟩ := c.message_length
  have hidle : s.decoded.length = s.requests.length := h.idle
  have hrequested := c.buffSize_le_requested
  let s₁ : Connection := { s with toServer := c.message, requests := s.requests ++ [c] }
  have hstep₁ : s.step (.sendToServer c) = some s₁ := by rw [Connection.step, h.toServer]; rfl
  have hsend : s.Permitted (.sendToServer c) := h.idle
  obtain ⟨r₁, hw₁, htransfers₁, hs₁⟩ := exists_snoc hw hs hsend trivial hstep₁
  let answer := sent (pack .little (t.reply c.request.call).type (t.reply c.request.call).image)
    blankBuffer
  let s₂ : Connection := { s₁ with
    server := server
    toServer := []
    toClient := answer
    handled := s.handled ++ [(c.message, answer)] }
  have hstep₂ : s₁.step (.sndRcv c.message.length blankBuffer) = some s₂ := by
    have hexchange : s₁.server.exchange c.message = _ := he
    have hfrom : s₁.toClient = [] := h.toClient
    simp only [Connection.step, show s₁.toServer = c.message from rfl, List.take_length, hexchange,
      List.drop_length, hfrom, List.nil_append]
    rfl
  have hserve : s₁.Permitted (.sndRcv c.message.length blankBuffer) :=
    ⟨hpos, Nat.le_refl _, Nat.le_of_lt hlt⟩
  obtain ⟨r₂, hw₂, htransfers₂, hs₂⟩ :=
    exists_snoc hw₁ hs₁ hserve (Nat.min_eq_left (Nat.le_of_lt hlt)).symm hstep₂
  have hlength : s₂.toClient.length = Server.buffSize := sent_length _ _
  have hlast : ∀ c', s₂.requests.getLast? = some c' → c = c' := by
    intro c' hc'
    simpa [s₂, s₁] using hc'
  have hreceive : s₂.Permitted (.reciveFromServer Server.buffSize) := by
    refine ⟨?_, by decide, Nat.le_of_eq hlength.symm, fun c' hc' => hlast c' hc' ▸ hrequested⟩
    intro hidle'
    have hsame : s.decoded.length = (s.requests ++ [c]).length := hidle'
    rw [List.length_append, List.length_singleton] at hsame
    omega
  have hwhole : s₂.Whole (.reciveFromServer Server.buffSize) := by
    intro c' hc'
    rw [← hlast c' hc', hlength, Nat.min_eq_left hrequested]
  let s₃ : Connection := { s₂ with
    toClient := s₂.toClient.drop Server.buffSize
    decoded := s.decoded ++ [c.decode (s₂.toClient.take Server.buffSize)] }
  have hstep₃ : s₂.step (.reciveFromServer Server.buffSize) = some s₃ := by
    have hc : s₂.requests.getLast? = some c := by simp [s₂, s₁]
    rw [Connection.step, hc, Option.map_some]
  obtain ⟨r₃, hw₃, htransfers₃, hs₃⟩ := exists_snoc hw₂ hs₂ hreceive hwhole hstep₃
  refine ⟨r₃, s₃, hw₃, ?_, hs₃, ⟨rfl, ?_, ?_, hserves⟩, ?_⟩
  · rw [htransfers₃, htransfers₂, htransfers₁]
    simp [callTransfers]
  · exact List.drop_eq_nil_of_le (Nat.le_of_eq hlength)
  · change (s.decoded ++ [_]).length = (s.requests ++ [c]).length
    rw [List.length_append, List.length_append, hidle]
    rfl
  · exact List.length_append

def registerCall : ClientCall :=
  .register ⟨List.replicate sizeofUserDetails 0, rfl⟩ ⟨[97], by decide⟩ ⟨[120], by decide⟩

theorem allPaired_registerLogin : ∃ (r : ConnectionRun) (s : Connection),
    r.transfers = callTransfers registerCall ++ callTransfers loginCall ∧
      Connection.after r.server r.transfers = some s ∧ s.decoded.length = 2 ∧ r.AllPaired := by
  let r₀ : ConnectionRun := ⟨Server.running id, [], forall_occurs_nil _⟩
  have hw₀ : r₀.AllWhole := forall_occurs_nil _
  have hrest : AtRest (start (Server.running id)) Tables.empty :=
    ⟨rfl, rfl, rfl, Server.running_serves id⟩
  obtain ⟨r₁, s₁, hw₁, htransfers₁, hs₁, hrest₁, hlen₁⟩ := exists_call hw₀ rfl hrest registerCall
  obtain ⟨r₂, s₂, hw₂, htransfers₂, hs₂, -, hlen₂⟩ := exists_call hw₁ hs₁ hrest₁ loginCall
  refine ⟨r₂, s₂, ?_, hs₂, ?_, allPaired_of_allWhole r₂ hw₂⟩
  · rw [htransfers₂, htransfers₁]
    rfl
  · rw [hlen₂, hlen₁]
    rfl

end ConnectionRun
end ChatProject
