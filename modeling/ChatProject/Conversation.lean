import ChatProject.AnsweredAddresses
import ChatProject.Linearizability
import ChatProject.Pairing

/-!
# The server with any number of clients

Each client has a connection of its own. The connections, the server and the clients act in
any order; the server takes one message from one connection at a time, and may close any of
them. It goes on after that, as its loop does if the links of a node that has just been removed
can still be read. If every `recv` returns all bytes that are there, the whole system refines
the atomic object whose state are the tables, so what the clients see is linearizable. A client
whose connection is gone does not notice: its `recv` returns no bytes, and it reads the zeros
that its buffer holds.
-/

namespace ChatProject
open Memory Protocol ByteOrder Run Function Linearizability

/-! ## What a client makes of a reply -/

namespace ClientCall

def heardAnswer (x : UInt32) : ClientCall → UInt32
  | leave .. => htonl .little x
  | _ => x

def heardIP (ip : Option CStr) : ClientCall → Option CStr
  | create .. | join .. => ip
  | register .. | logIn .. | leave .. => none

def heard (c : ClientCall) (a : Answer) : Decoded :=
  ⟨some a.type, c.heardAnswer (a.answer.elim 0 Answers.code), c.heardIP a.groupIP⟩

end ClientCall

namespace Tables

theorem reply_ip_zero (t : Tables) (call : Call) {ip : CStr}
    (h : (t.reply call).groupIP = some ip) : 0 ∉ ip := by
  have hleave : ∀ (t : Tables) (g : GroupName), 0 ∉ (t.leaveGroup g).1 := by
    intro t g
    rw [leaveGroup]
    cases hg : t.groups (bucketOf g) with
    | none => simp
    | some r => by_cases hr : r.Reads g <;> simp [hr, r.ip_text]
  cases call with
  | register name psw => cases h
  | login name psw => cases h
  | create g user spare =>
    have haddress := IPPoolAddr.addressAt_text (t.created % IPPoolAddr.capacity)
      (Nat.mod_lt _ (by decide))
    cases hg : t.groups (bucketOf g) with
    | none =>
      simp only [reply, create, hg, ServerApp.groupAnswer, Option.some.injEq] at h
      exact h ▸ haddress.2.1
    | some r =>
      simp only [reply, create, hg, ServerApp.groupAnswer, Option.some.injEq] at h
      simp [← h]
  | join g user =>
    cases hg : t.groups (bucketOf g) with
    | none =>
      simp only [reply, join, hg, ServerApp.groupAnswer, Option.some.injEq] at h
      simp [← h]
    | some r =>
      by_cases hr : r.Reads g
      · simp only [reply, join, hg, hr, if_true, ServerApp.groupAnswer, Option.some.injEq] at h
        exact h ▸ r.ip_text.2.1
      · simp only [reply, join, hg, hr, if_false, ServerApp.groupAnswer, Option.some.injEq] at h
        simp [← h]
  | leave g user spare =>
    cases hc : t.caller user spare with
    | none =>
      simp only [reply, leave, hc, ServerApp.groupAnswer, Option.some.injEq] at h
      simp [← h]
    | some a =>
      by_cases hm : g.1 ∈ a.groups
      · simp only [reply, leave, hc, hm, if_true, ServerApp.groupAnswer, Option.some.injEq] at h
        exact h ▸ hleave _ _
      · simp only [reply, leave, hc, hm, if_false, ServerApp.groupAnswer, Option.some.injEq] at h
        simp [← h]

end Tables

theorem Answer.unPack_image {a : Answer} (hs : a.Shaped) (hip : ∀ ip, a.groupIP = some ip → 0 ∉ ip)
    {x : Answers} (hx : a.answer = some x) (beyond : Bytes) :
    (unPack .little (pack .little a.type a.image ++ beyond)).1 = some a.type ∧
      ∀ ip, a.groupIP = some ip →
        cstr (unPack .little (pack .little a.type a.image ++ beyond)).2 ansGroupIP = ip := by
  obtain ⟨t, groupIP, answer⟩ := a
  cases hx
  have hw := wordBytes_length .little x.code
  cases groupIP with
  | none =>
    rw [Answer.image_user]
    have hread : ∀ t ∈ answerTypes, answerOffset t = registerAnsAnswer →
        (unPack .little (pack .little t (t.toByte :: [0, 0, 0] ++ wordBytes .little x.code) ++
          beyond)).1 = some t := by
      intro t ht hoff
      exact (read_answer .little .little ht [0, 0, 0] beyond hoff.symm hw).1
    refine ⟨?_, fun ip h => by cases h⟩
    rcases hs with rfl | rfl
    · exact hread _ (by simp [answerTypes]) rfl
    · exact hread _ (by simp [answerTypes]) rfl
  | some ip =>
    obtain ⟨hlen, ht⟩ := hs
    have hmem : t ∈ answerTypes ∧ answerOffset t = createGroupAnsAnswer := by
      rcases ht with rfl | rfl | rfl <;> simp [answerTypes, answerOffset]
    have hpre : (ip ++ List.replicate (19 - ip.length) 0).length + 1 = answerOffset t := by
      rw [hmem.2, List.length_append, List.length_replicate, createGroupAnsAnswer]
      omega
    rw [Answer.image_groupIP t hlen]
    obtain ⟨htype, htake, -⟩ := read_answer .little .little hmem.1 _ beyond hpre hw
    refine ⟨htype, fun ip' h => ?_⟩
    cases h
    obtain ⟨k, hk⟩ : ∃ k, 19 - ip.length = k + 1 := ⟨18 - ip.length, by omega⟩
    rw [← List.take_append_drop (answerOffset t) (unPack .little _).2, htake, hk,
      List.replicate_succ]
    simp only [cstr, ansGroupIP, List.cons_append, List.append_assoc, List.drop_succ_cons,
      List.drop_zero]
    exact text_append_zero _ _ (hip ip rfl)

theorem Answer.Shaped.pack_length {a : Answer} (hs : a.Shaped) {x : Answers}
    (hx : a.answer = some x) : (pack .little a.type a.image).length ≤ Server.buffSize := by
  obtain ⟨t, groupIP, answer⟩ := a
  cases hx
  obtain ⟨pre, hpre, ht, himage⟩ : ∃ pre, pre.length + 1 = answerOffset t ∧ t ∈ answerTypes ∧
      Answer.image ⟨t, groupIP, some x⟩ = t.toByte :: pre ++ wordBytes .little x.code := by
    cases groupIP with
    | none =>
      rcases hs with rfl | rfl
      · exact ⟨_, rfl, by simp [answerTypes], Answer.image_user _ x⟩
      · exact ⟨_, rfl, by simp [answerTypes], Answer.image_user _ x⟩
    | some ip =>
      obtain ⟨hip, ht⟩ := hs
      obtain ⟨pre, hpre, himage⟩ := Answer.image_group t hip x
      refine ⟨pre, ?_, ?_, himage⟩
      · rcases ht with rfl | rfl | rfl <;> simp [answerOffset, hpre, createGroupAnsAnswer]
      · rcases ht with rfl | rfl | rfl <;> simp [answerTypes]
  obtain ⟨w, hw, hpack, -⟩ :=
    pack_answer_split .little ht pre hpre (wordBytes_length .little x.code)
  have hoff : answerOffset t ≤ 20 := by
    cases t <;> simp [answerOffset, registerAnsAnswer, createGroupAnsAnswer]
  rw [himage, hpack, List.length_append, List.length_cons, hw, Server.buffSize]
  omega

namespace ClientCall

theorem decode_eq (c : ClientCall) {received buffer : Bytes}
    (h : received ++ List.replicate (Client.buffSize - received.length) 0 = buffer) :
    c.decode received = ⟨(unPack .little buffer).1,
      load32 .little (unPack .little buffer).2 c.answerAt,
      c.decodeGroupIP (unPack .little buffer).2⟩ := by
  rw [decode, h]

/-- The bytes after the answer struct do not matter. -/
theorem decode_sent (c : ClientCall) (t : Tables) (beyond : Block Server.buffSize) :
    c.decode (Connection.sent
        (pack .little (t.reply c.request.call).type (t.reply c.request.call).image) beyond) =
      c.heard (t.reply c.request.call) := by
  obtain ⟨x, hx⟩ := t.reply_assigned c.request.call
  have hshaped := t.reply_shaped c.request.call
  have hip : ∀ ip, (t.reply c.request.call).groupIP = some ip → 0 ∉ ip :=
    fun ip h => t.reply_ip_zero _ h
  have htype := t.reply_type c.request.call
  have hat := answerAt_eq t c
  generalize t.reply c.request.call = a at hx hshaped hip htype hat ⊢
  obtain ⟨rest, hrest⟩ : ∃ rest, Connection.sent (pack .little a.type a.image) beyond ++
      List.replicate (Client.buffSize -
        (Connection.sent (pack .little a.type a.image) beyond).length) 0 =
          pack .little a.type a.image ++ rest := by
    rw [Connection.sent, List.take_append, List.take_of_length_le (hshaped.pack_length hx),
      List.append_assoc]
    exact ⟨_, rfl⟩
  obtain ⟨hfst, htext⟩ := Answer.unPack_image hshaped hip hx rest
  have hanswer := Answer.read hshaped hx rest
  rw [ServerApp.packAnswer, Client.received, hat] at hanswer
  have hgroup : c.decodeGroupIP (unPack .little (pack .little a.type a.image ++ rest)).2 =
      c.heardIP a.groupIP := by
    have hnone : a.groupIP = none → a.type = .registerAns ∨ a.type = .loginAns := by
      intro hnone
      simpa [Answer.Shaped, hnone] using hshaped
    cases hgroupIP : a.groupIP with
    | none =>
      rw [htype] at hnone
      cases c with
      | create => rcases hnone hgroupIP with h | h <;> cases h
      | join => rcases hnone hgroupIP with h | h <;> cases h
      | _ => rfl
    | some ip =>
      have htext := htext ip hgroupIP
      cases c with
      | create => rw [decodeGroupIP, htext, heardIP]
      | join => rw [decodeGroupIP, htext, heardIP]
      | _ => rfl
  have hcode : (if a.type = .leaveConversationAns then htonl .little x.code else x.code) =
      c.heardAnswer x.code := by
    rw [htype]
    cases c <;> rfl
  rw [decode_eq c hrest, hfst, hanswer, hgroup, hcode, heard, hx, Option.elim_some]

theorem answer_decode_nil (c : ClientCall) : (c.decode []).answer = 0 := by
  cases c <;> rfl

end ClientCall

/-! ## The system -/

/-- A connection, without the server at its end. -/
structure ClientLink where
  toServer : Bytes
  toClient : Bytes
  requests : List ClientCall
  handled : List (Bytes × Bytes)
  decoded : List Decoded
  closed : Bool

def ClientLink.connection (l : ClientLink) (server : Server) : Connection :=
  ⟨server, l.toServer, l.toClient, l.requests, l.handled, l.decoded⟩

def Connection.link (s : Connection) (closed : Bool) : ClientLink :=
  ⟨s.toServer, s.toClient, s.requests, s.handled, s.decoded, closed⟩

/-- What happens on a connection. In `sendFails` the server handles a message of `n` bytes and
its `send` fails; in `close` it drops the client for another reason. In `reciveNothing` the
`recv` of the client fails or returns no bytes, and what was under way is lost. A `send` of the
client that fails is no act: nothing happens on the connection. -/
inductive LinkAct
  | sendToServer (c : ClientCall)
  | sndRcv (n : ℕ) (beyond : Block Server.buffSize)
  | reciveFromServer (n : ℕ)
  | sendFails (n : ℕ)
  | close
  | reciveNothing

def LinkAct.handled : LinkAct → Option ℕ
  | sndRcv n _ | sendFails n => some n
  | sendToServer _ | reciveFromServer _ | close | reciveNothing => none

def LinkAct.IsRecv : LinkAct → Prop
  | reciveFromServer _ | reciveNothing => True
  | sendToServer _ | sndRcv .. | sendFails _ | close => False

/-- `history` are the calls whose requests are sent before the server closes the connection,
and the answers that are received. -/
structure Chat (ι : Type) where
  server : Server
  links : ι → ClientLink
  history : List (Observed ι ClientCall Decoded)

namespace Chat
variable {ι : Type}

def start (server : Server) : Chat ι := ⟨server, fun _ => ⟨[], [], [], [], [], false⟩, []⟩

def connection (s : Chat ι) (i : ι) : Connection := (s.links i).connection s.server

section Step
variable [DecidableEq ι]

def setLink (s : Chat ι) (i : ι) (l : ClientLink) : Chat ι :=
  { s with links := update s.links i l }

def transfer (s : Chat ι) (i : ι) (t : Transfer) : Option (Chat ι) :=
  ((s.connection i).step t).map fun c =>
    { s.setLink i (c.link (s.links i).closed) with server := c.server }

theorem transfer_eq {s : Chat ι} {i : ι} {t : Transfer} {c : Connection}
    (h : (s.connection i).step t = some c) : s.transfer i t =
      some { s.setLink i (c.link (s.links i).closed) with server := c.server } := by
  rw [transfer, h, Option.map_some]

def observe (s : Chat ι) (seen : List (Observed ι ClientCall Decoded)) : Chat ι :=
  { s with history := s.history ++ seen }

/-- `none` where the server crashes or has no answer. -/
def step (s : Chat ι) (e : ι × LinkAct) : Option (Chat ι) :=
  let l := s.links e.1
  match e.2 with
  | .sendToServer c =>
    (s.transfer e.1 (.sendToServer c)).map fun s =>
      s.observe (if l.closed then [] else [.call e.1 c])
  | .sndRcv n beyond => s.transfer e.1 (.sndRcv n beyond)
  | .reciveFromServer n =>
    (s.transfer e.1 (.reciveFromServer n)).map fun s =>
      s.observe ((s.links e.1).decoded.getLast?.map (.ret e.1)).toList
  | .sendFails n =>
    match s.server.exchange (l.toServer.take n) with
    | (.answer .., server) =>
      some { s.setLink e.1 { l with toServer := l.toServer.drop n, closed := true } with
        server := server }
    | _ => none
  | .close => some (s.setLink e.1 { l with closed := true })
  | .reciveNothing =>
    l.requests.getLast?.map fun c =>
      s.setLink e.1 { l with toClient := [], decoded := l.decoded ++ [c.decode []] }

theorem step_links {s s' : Chat ι} {i : ι} {act : LinkAct} (h : s.step (i, act) = some s') {j : ι}
    (hj : j ≠ i) : s'.links j = s.links j := by
  have htransfer : ∀ {t : Transfer} {s₁ : Chat ι}, s.transfer i t = some s₁ →
      s₁.links j = s.links j := by
    intro t s₁ h
    rw [transfer, Option.map_eq_some_iff] at h
    obtain ⟨c, -, rfl⟩ := h
    exact update_of_ne hj _ _
  cases act with
  | sendToServer c =>
    simp only [step, Option.map_eq_some_iff] at h
    obtain ⟨s₁, h₁, rfl⟩ := h
    have hold := htransfer h₁
    exact hold
  | sndRcv n beyond => exact htransfer h
  | reciveFromServer n =>
    simp only [step, Option.map_eq_some_iff] at h
    obtain ⟨s₁, h₁, rfl⟩ := h
    have hold := htransfer h₁
    exact hold
  | sendFails n =>
    simp only [step] at h
    split at h
    · rw [← Option.some.inj h]
      exact update_of_ne hj _ _
    · cases h
  | close =>
    rw [← Option.some.inj h]
    exact update_of_ne hj _ _
  | reciveNothing =>
    simp only [step, Option.map_eq_some_iff] at h
    obtain ⟨c, -, rfl⟩ := h
    exact update_of_ne hj _ _

def after (server : Server) (es : List (ι × LinkAct)) : Option (Chat ι) :=
  Run.after (fun o e => o.bind fun s => s.step e) (some (start server)) es

@[simp] theorem after_nil (server : Server) :
    after server ([] : List (ι × LinkAct)) = some (start server) := rfl

@[simp] theorem after_snoc (server : Server) (es : List (ι × LinkAct)) (e : ι × LinkAct) :
    after server (es ++ [e]) = (after server es).bind fun s => s.step e :=
  Run.after_snoc _ _ _ _

end Step

/-- Bytes that the server has sent may be received although it has closed the connection. A
client may send on a closed connection as well; the server does not read it any more. -/
def Permitted (s : Chat ι) (e : ι × LinkAct) : Prop :=
  match e.2 with
  | .sendToServer c => (s.connection e.1).Permitted (.sendToServer c)
  | .sndRcv n beyond =>
    (s.links e.1).closed = false ∧ (s.connection e.1).Permitted (.sndRcv n beyond)
  | .reciveFromServer n => (s.connection e.1).Permitted (.reciveFromServer n)
  | .sendFails n => (s.links e.1).closed = false ∧ 0 < n ∧ n ≤ (s.links e.1).toServer.length ∧
      n ≤ Server.buffSize
  | .close => True
  | .reciveNothing => (s.links e.1).closed = true ∧ ¬ (s.connection e.1).Idle

def Whole (s : Chat ι) (e : ι × LinkAct) : Prop :=
  match e.2 with
  | .sndRcv n beyond => (s.connection e.1).Whole (.sndRcv n beyond)
  | .reciveFromServer n => (s.connection e.1).Whole (.reciveFromServer n)
  | .sendFails n => n = min (s.links e.1).toServer.length Server.buffSize
  | .sendToServer _ | .close | .reciveNothing => True

end Chat

def tablesObject : SequentialObject Tables ClientCall Decoded where
  next t c := t.next c.request.call
  reply t c := c.heard (t.reply c.request.call)

namespace ClientLink

def At (l : ClientLink) : Status ClientCall Decoded → Prop
  | .idle => l.toServer = [] ∧ l.toClient = [] ∧ l.decoded.length = l.requests.length
  | .called c => l.toServer = c.message ∧ l.toClient = [] ∧
      ∃ cs, l.requests = cs ++ [c] ∧ l.decoded.length = cs.length
  | .done d => l.toServer = [] ∧ l.toClient.length = Server.buffSize ∧
      ∃ cs c, l.requests = cs ++ [c] ∧ l.decoded.length = cs.length ∧ c.decode l.toClient = d

/-- The connection is closed, and no more bytes will come. -/
structure Lost (l : ClientLink) : Prop where
  closed : l.closed = true
  toClient : l.toClient = []
  decoded : l.decoded.length ≤ l.requests.length

/-- The server may yet handle a request of the client, or the client receive an answer. -/
def Live (l : ClientLink) : Prop := l.closed = false ∨ l.toClient ≠ []

theorem Lost.not_live {l : ClientLink} (h : l.Lost) : ¬ l.Live := by
  rintro (hopen | hclient)
  · rw [h.closed] at hopen
    cases hopen
  · exact hclient h.toClient

theorem At.decoded_le {l : ClientLink} {st : Status ClientCall Decoded} (h : l.At st) :
    l.decoded.length ≤ l.requests.length := by
  cases st with
  | idle => exact Nat.le_of_eq h.2.2
  | called c =>
    obtain ⟨-, -, cs, hreq, hdec⟩ := h
    simp [hreq, hdec]
  | done d =>
    obtain ⟨-, -, cs, c, hreq, hdec, -⟩ := h
    simp [hreq, hdec]

theorem At.idle {l : ClientLink} {st : Status ClientCall Decoded} (h : l.At st)
    (hidle : l.decoded.length = l.requests.length) : st = .idle := by
  cases st with
  | idle => rfl
  | called c =>
    obtain ⟨-, -, cs, hreq, hdec⟩ := h
    rw [hdec, hreq, List.length_append] at hidle
    simp at hidle
  | done d =>
    obtain ⟨-, -, cs, c, hreq, hdec, -⟩ := h
    rw [hdec, hreq, List.length_append] at hidle
    simp at hidle

end ClientLink

namespace Chat
variable {ι : Type}

structure Refines (s : Chat ι) (a : Atomic ι Tables ClientCall Decoded) : Prop where
  serves : Serves s.server a.state
  links : ∀ i, (s.links i).At (a.status i) ∨ (s.links i).Lost

theorem refines_start (p : ℕ → ℕ) :
    Refines (start (Server.running p) : Chat ι) (Atomic.start Tables.empty) where
  serves := Server.running_serves p
  links := fun _ => .inl ⟨rfl, rfl, rfl⟩

section Step
variable [DecidableEq ι] {s s' : Chat ι} {a : Atomic ι Tables ClientCall Decoded}

omit [DecidableEq ι] in
theorem Refines.open_at (h : Refines s a) {i : ι} (hopen : (s.links i).closed = false) :
    (s.links i).At (a.status i) := by
  rcases h.links i with hat | hlost
  · exact hat
  · rw [hlost.closed] at hopen
    cases hopen

theorem Refines.moved (h : Refines s a) {server : Server} {t : Tables} (hserves : Serves server t)
    (i : ι) {l : ClientLink} {st : Status ClientCall Decoded} (hl : l.At st ∨ l.Lost)
    (history : List (Observed ι ClientCall Decoded)) :
    Refines ⟨server, update s.links i l, history⟩ ⟨t, update a.status i st⟩ where
  serves := hserves
  links := by
    intro j
    by_cases hj : j = i
    · subst hj
      simpa using hl
    · simpa [hj] using h.links j

theorem Refines.relinked (h : Refines s a) (i : ι) {l : ClientLink}
    (hl : l.At (a.status i) ∨ l.Lost) (history : List (Observed ι ClientCall Decoded)) :
    Refines ⟨s.server, update s.links i l, history⟩ a := by
  have hmoved := h.moved h.serves i hl history
  rwa [update_eq_self] at hmoved

/-! What each act does, in the system and in the atomic object. -/

theorem Refines.send (h : Refines s a) {i : ι} {c : ClientCall}
    (hopen : (s.links i).closed = false) (hp : s.Permitted (i, .sendToServer c)) :
    a.status i = .idle ∧ ∃ s', s.step (i, .sendToServer c) = some s' ∧
      Refines s' { a with status := update a.status i (.called c) } ∧
      (s'.links i).closed = false ∧ s'.history = s.history ++ [.call i c] := by
  have hat := h.open_at hopen
  have hidle := hat.idle hp
  rw [hidle] at hat
  obtain ⟨hserver, hclient, hdec⟩ := hat
  refine ⟨hidle, _, rfl, ?_, by simpa [observe, setLink, Connection.link] using hopen,
    by simp [observe, hopen, setLink]⟩
  refine h.moved h.serves i (.inl ?_) _
  refine ⟨?_, hclient, (s.links i).requests, rfl, hdec⟩
  exact (congrArg (· ++ c.message) hserver).trans (List.nil_append _)

theorem Refines.sendLost (h : Refines s a) {i : ι} {c : ClientCall}
    (hclosed : (s.links i).closed = true) (hp : s.Permitted (i, .sendToServer c)) :
    ∃ s', s.step (i, .sendToServer c) = some s' ∧ Refines s' a ∧ s'.history = s.history ∧
      s'.server = s.server ∧ (s'.links i).Lost := by
  have hidle : (s.links i).decoded.length = (s.links i).requests.length := hp
  have hclient : (s.links i).toClient = [] := by
    rcases h.links i with hat | hlost
    · have hst := hat.idle hidle
      rw [hst] at hat
      exact hat.2.1
    · exact hlost.toClient
  let l : ClientLink := { s.links i with
    toServer := (s.links i).toServer ++ c.message, requests := (s.links i).requests ++ [c] }
  have hlost : l.Lost := by
    refine ⟨hclosed, hclient, ?_⟩
    rw [List.length_append, ← hidle]
    exact Nat.le_add_right _ _
  have hlink : ∀ history : List (Observed ι ClientCall Decoded),
      (⟨s.server, update s.links i l, history⟩ : Chat ι).links i = l := fun _ => update_self ..
  refine ⟨_, rfl, h.relinked i (.inr hlost) _, by simp [observe, hclosed, setLink], rfl, ?_⟩
  exact (hlink _).symm ▸ hlost

omit [DecidableEq ι] in
theorem Refines.exchange (h : Refines s a) {i : ι} (hopen : (s.links i).closed = false) {n : ℕ}
    (hpos : 0 < n) (hle : n ≤ (s.links i).toServer.length)
    (hw : n = min (s.links i).toServer.length Server.buffSize) :
    ∃ c, a.status i = .called c ∧ n = c.message.length ∧ (s.links i).toServer = c.message ∧
      ∃ server, s.server.exchange c.message =
        (.answer (a.state.reply c.request.call) (pack .little (a.state.reply c.request.call).type
          (a.state.reply c.request.call).image), server) ∧
      Serves server (tablesObject.next a.state c) := by
  have hat := h.open_at hopen
  cases hst : a.status i with
  | idle =>
    rw [hst] at hat
    rw [hat.1, List.length_nil] at hle
    omega
  | done r =>
    rw [hst] at hat
    rw [hat.1, List.length_nil] at hle
    omega
  | called c =>
    rw [hst] at hat
    have hlen := c.message_length.2
    rw [hat.1, Server.buffSize, Nat.min_eq_left (Nat.le_of_lt hlen)] at hw
    obtain ⟨-, server, he, hserves⟩ := h.serves.exchange c.request
    rw [← c.message_eq, ServerApp.packAnswer] at he
    exact ⟨c, rfl, hw, hat.1, server, he, hserves⟩

theorem Refines.serve (h : Refines s a) {i : ι} {n : ℕ} {beyond : Block Server.buffSize}
    (hp : s.Permitted (i, .sndRcv n beyond)) (hw : s.Whole (i, .sndRcv n beyond)) :
    ∃ c s', a.status i = .called c ∧ s.step (i, .sndRcv n beyond) = some s' ∧
      Refines s' ⟨tablesObject.next a.state c,
        update a.status i (.done (tablesObject.reply a.state c))⟩ ∧
      (s'.links i).closed = false ∧ s'.history = s.history := by
  obtain ⟨hopen, hpos, hle, -⟩ := hp
  obtain ⟨c, hst, rfl, hserver, server, he, hserves⟩ := h.exchange hopen hpos hle hw
  have hat := h.open_at hopen
  rw [hst] at hat
  obtain ⟨-, hclient, cs, hreq, hdec⟩ := hat
  have hto : (s.connection i).toServer = c.message := hserver
  have hfrom : (s.connection i).toClient = [] := hclient
  have hex : (s.connection i).server.exchange c.message = _ := he
  have hstep : (s.connection i).step (.sndRcv c.message.length beyond) = some
      { s.connection i with
        server := server
        toServer := []
        toClient := Connection.sent (pack .little (a.state.reply c.request.call).type
          (a.state.reply c.request.call).image) beyond
        handled := (s.links i).handled ++ [(c.message, Connection.sent
          (pack .little (a.state.reply c.request.call).type
            (a.state.reply c.request.call).image) beyond)] } := by
    simp only [Connection.step, hto, List.take_length, List.drop_length, hex, hfrom,
      List.nil_append]
    rfl
  refine ⟨c, _, hst, transfer_eq hstep, ?_, by simpa [setLink, Connection.link] using hopen, rfl⟩
  refine h.moved hserves i (.inl ?_) _
  exact ⟨rfl, Connection.sent_length _ _, cs, c, hreq, hdec, c.decode_sent a.state beyond⟩

theorem Refines.sendFails (h : Refines s a) {i : ι} {n : ℕ} (hp : s.Permitted (i, .sendFails n))
    (hw : s.Whole (i, .sendFails n)) :
    ∃ c s', a.status i = .called c ∧ s.step (i, .sendFails n) = some s' ∧
      Refines s' ⟨tablesObject.next a.state c,
        update a.status i (.done (tablesObject.reply a.state c))⟩ ∧
      s'.history = s.history ∧ (s'.links i).Lost := by
  obtain ⟨hopen, hpos, hle, -⟩ := hp
  obtain ⟨c, hst, rfl, hserver, server, he, hserves⟩ := h.exchange hopen hpos hle hw
  have hat := h.open_at hopen
  have hdec := hat.decoded_le
  rw [hst] at hat
  have hstep : s.step (i, .sendFails c.message.length) = some
      { s.setLink i { s.links i with toServer := [], closed := true } with server := server } := by
    simp only [step, hserver, List.take_length, he, List.drop_length]
  have hlost : ({ s.links i with toServer := [], closed := true } : ClientLink).Lost :=
    ⟨rfl, hat.2.1, hdec⟩
  refine ⟨c, _, hst, hstep, h.moved hserves i (.inr hlost) _, rfl, ?_⟩
  simpa [setLink] using hlost

theorem Refines.receive (h : Refines s a) {i : ι} {n : ℕ}
    (hp : s.Permitted (i, .reciveFromServer n)) (hw : s.Whole (i, .reciveFromServer n)) :
    ∃ d s', a.status i = .done d ∧ s.step (i, .reciveFromServer n) = some s' ∧
      Refines s' { a with status := update a.status i .idle } ∧
      s'.history = s.history ++ [.ret i d] ∧ (s'.links i).decoded.getLast? = some d ∧
      (s'.links i).closed = (s.links i).closed ∧ (s'.links i).toClient = [] := by
  obtain ⟨-, hpos, hle, -⟩ := hp
  have hle' : n ≤ (s.links i).toClient.length := hle
  rcases h.links i with hi | hlost
  · cases hst : a.status i with
    | idle =>
      rw [hst] at hi
      rw [hi.2.1, List.length_nil] at hle'
      omega
    | called c =>
      rw [hst] at hi
      rw [hi.2.1, List.length_nil] at hle'
      omega
    | done d =>
      rw [hst] at hi
      obtain ⟨hserver, hlen, cs, c, hreq, hdec, hdecode⟩ := hi
      have hlast : (s.links i).requests.getLast? = some c := by simp [hreq]
      have hn : n = (s.links i).toClient.length := by
        have hmin : n = min (s.links i).toClient.length c.requested := hw c hlast
        have hsize := c.buffSize_le_requested
        omega
      subst hn
      have hstep : (s.connection i).step (.reciveFromServer (s.links i).toClient.length) = some
          { s.connection i with
            toClient := []
            decoded := (s.links i).decoded ++ [d] } := by
        have hreq' : (s.connection i).requests.getLast? = some c := hlast
        have hfrom : (s.connection i).toClient = (s.links i).toClient := rfl
        simp only [Connection.step, hreq', Option.map_some, hfrom, List.take_length,
          List.drop_length, hdecode]
        rfl
      refine ⟨d, _, rfl, congrArg (Option.map _) (transfer_eq hstep), ?_, ?_, ?_, ?_, ?_⟩
      · refine h.moved h.serves i (.inl ?_) _
        refine ⟨hserver, rfl, ?_⟩
        change ((s.links i).decoded ++ [d]).length = (s.links i).requests.length
        rw [hreq, List.length_append, List.length_append, hdec]
        rfl
      · simp [observe, setLink, Connection.link]
      · simp [observe, setLink, Connection.link]
      · simp [observe, setLink, Connection.link]
      · simp [observe, setLink, Connection.link]
  · rw [hlost.toClient, List.length_nil] at hle'
    omega

theorem Refines.close (h : Refines s a) (i : ι) :
    Refines (s.setLink i { s.links i with closed := true }) a := by
  refine h.relinked i ?_ _
  rcases h.links i with hat | hlost
  · have hdec := hat.decoded_le
    cases hst : a.status i with
    | idle =>
      rw [hst] at hat
      exact .inr ⟨rfl, hat.2.1, hdec⟩
    | called c =>
      rw [hst] at hat
      exact .inr ⟨rfl, hat.2.1, hdec⟩
    | done d =>
      rw [hst] at hat
      exact .inl hat
  · exact .inr ⟨rfl, hlost.toClient, hlost.decoded⟩

theorem Refines.reciveNothing (h : Refines s a) {i : ι} (hp : s.Permitted (i, .reciveNothing)) :
    ∃ (c : ClientCall) (s' : Chat ι), s.step (i, .reciveNothing) = some s' ∧ Refines s' a ∧
      s'.history = s.history ∧ s'.server = s.server ∧
      (s'.links i).decoded.getLast? = some (c.decode []) ∧ (s'.links i).Lost := by
  obtain ⟨hclosed, hbusy⟩ := hp
  have hle : (s.links i).decoded.length ≤ (s.links i).requests.length := by
    rcases h.links i with hat | hlost
    · exact hat.decoded_le
    · exact hlost.decoded
  have hlt : (s.links i).decoded.length < (s.links i).requests.length :=
    Nat.lt_of_le_of_ne hle hbusy
  obtain ⟨c, hc⟩ : ∃ c, (s.links i).requests.getLast? = some c := by
    refine ⟨(s.links i).requests.getLast ?_, List.getLast?_eq_some_getLast _⟩
    exact List.ne_nil_of_length_pos (Nat.zero_lt_of_lt hlt)
  let l : ClientLink := { s.links i with
    toClient := [], decoded := (s.links i).decoded ++ [c.decode []] }
  have hlost : l.Lost := by
    refine ⟨hclosed, rfl, ?_⟩
    rw [List.length_append, List.length_singleton]
    exact hlt
  have hstep : s.step (i, .reciveNothing) = some (s.setLink i l) := by
    simp only [step, hc, Option.map_some]
    rfl
  refine ⟨c, s.setLink i l, hstep, h.relinked i (.inr hlost) _, rfl, rfl, ?_, ?_⟩
  · simp [setLink, l]
  · simpa [setLink] using hlost

/-! What may happen next on a connection. -/

omit [DecidableEq ι] in
theorem Refines.canSend (h : Refines s a) {i : ι} (hopen : (s.links i).closed = false)
    (hi : a.status i = .idle) (c : ClientCall) : s.Permitted (i, .sendToServer c) := by
  have hlink := h.open_at hopen
  rw [hi] at hlink
  exact hlink.2.2

omit [DecidableEq ι] in
theorem idle_congr {s' : Chat ι} {i : ι}
    (hrequests : (s'.links i).requests = (s.links i).requests)
    (hdecoded : (s'.links i).decoded = (s.links i).decoded) :
    (s'.connection i).Idle ↔ (s.connection i).Idle := by
  change (s'.links i).decoded.length = (s'.links i).requests.length ↔
    (s.links i).decoded.length = (s.links i).requests.length
  rw [hrequests, hdecoded]

omit [DecidableEq ι] in
theorem Refines.not_idle (h : Refines s a) {i : ι} (hopen : (s.links i).closed = false)
    (hi : a.status i ≠ .idle) : ¬ (s.connection i).Idle :=
  fun hidle => hi ((h.open_at hopen).idle hidle)

omit [DecidableEq ι] in
theorem Refines.called_iff (h : Refines s a) {i : ι} (hopen : (s.links i).closed = false) :
    (∃ c, a.status i = .called c) ↔ (s.links i).toServer ≠ [] := by
  have hlink := h.open_at hopen
  cases hst : a.status i with
  | idle =>
    rw [hst] at hlink
    exact ⟨nofun, fun hne => absurd hlink.1 hne⟩
  | called c =>
    rw [hst] at hlink
    refine ⟨fun _ => ?_, fun _ => ⟨c, rfl⟩⟩
    rw [hlink.1]
    exact List.ne_nil_of_length_pos c.message_length.1
  | done d =>
    rw [hst] at hlink
    exact ⟨nofun, fun hne => absurd hlink.1 hne⟩

omit [DecidableEq ι] in
theorem Refines.canServe (h : Refines s a) {i : ι} (hopen : (s.links i).closed = false)
    {c : ClientCall} (hi : a.status i = .called c) (beyond : Block Server.buffSize) :
    s.Permitted (i, .sndRcv c.message.length beyond) ∧
      s.Whole (i, .sndRcv c.message.length beyond) := by
  have hlink := h.open_at hopen
  rw [hi] at hlink
  have hto : (s.connection i).toServer = c.message := hlink.1
  obtain ⟨hpos, hlt⟩ := c.message_length
  refine ⟨⟨hopen, hpos, Nat.le_of_eq (congrArg List.length hto.symm), Nat.le_of_lt hlt⟩, ?_⟩
  change c.message.length = min (s.connection i).toServer.length Server.buffSize
  rw [hto]
  exact (Nat.min_eq_left (Nat.le_of_lt hlt)).symm

omit [DecidableEq ι] in
theorem Refines.canReceive (h : Refines s a) {i : ι} (hopen : (s.links i).closed = false)
    {d : Decoded} (hi : a.status i = .done d) :
    s.Permitted (i, .reciveFromServer Server.buffSize) ∧
      s.Whole (i, .reciveFromServer Server.buffSize) := by
  have hbusy : ¬ (s.connection i).Idle := h.not_idle hopen (by rw [hi]; nofun)
  have hlink := h.open_at hopen
  rw [hi] at hlink
  have hto : (s.connection i).toClient.length = Server.buffSize := hlink.2.1
  refine ⟨⟨hbusy, by decide, Nat.le_of_eq hto.symm, fun c _ => c.buffSize_le_requested⟩, ?_⟩
  intro c hc
  rw [hto, Nat.min_eq_left c.buffSize_le_requested]

/-! What may happen on a connection while no connection is closed. -/

def AllOpen (s : Chat ι) : Prop := ∀ i, (s.links i).closed = false

theorem AllOpen.step (h : AllOpen s) {i : ι} {act : LinkAct} (hstep : s.step (i, act) = some s')
    (hi : (s'.links i).closed = false) : AllOpen s' := by
  intro j
  by_cases hj : j = i
  · exact hj ▸ hi
  · rw [step_links hstep hj]
    exact h j

theorem Refines.sends (h : Refines s a) (hopen : AllOpen s) {i : ι} (hi : a.status i = .idle)
    (c : ClientCall) : s.Permitted (i, .sendToServer c) ∧
      ∃ s', s.step (i, .sendToServer c) = some s' ∧
        Refines s' { a with status := update a.status i (.called c) } ∧ AllOpen s' ∧
        s'.history = s.history ++ [.call i c] := by
  have hp := h.canSend (hopen i) hi c
  obtain ⟨-, s', hstep, href, hopen', hhist⟩ := h.send (hopen i) hp
  exact ⟨hp, s', hstep, href, hopen.step hstep hopen', hhist⟩

theorem Refines.isServed (h : Refines s a) (hopen : AllOpen s) {i : ι} {c : ClientCall}
    (hi : a.status i = .called c) :
    (s.Permitted (i, .sndRcv c.message.length blankBuffer) ∧
      s.Whole (i, .sndRcv c.message.length blankBuffer)) ∧
      ∃ s', s.step (i, .sndRcv c.message.length blankBuffer) = some s' ∧
        Refines s' ⟨tablesObject.next a.state c,
          update a.status i (.done (tablesObject.reply a.state c))⟩ ∧ AllOpen s' ∧
        s'.history = s.history := by
  obtain ⟨hp, hwhole⟩ := h.canServe (hopen i) hi blankBuffer
  obtain ⟨c', s', hst, hstep, href, hopen', hhist⟩ := h.serve hp hwhole
  obtain rfl : c = c' := Status.called.inj (hi.symm.trans hst)
  exact ⟨⟨hp, hwhole⟩, s', hstep, href, hopen.step hstep hopen', hhist⟩

theorem Refines.receives (h : Refines s a) (hopen : AllOpen s) {i : ι} {d : Decoded}
    (hi : a.status i = .done d) :
    (s.Permitted (i, .reciveFromServer Server.buffSize) ∧
      s.Whole (i, .reciveFromServer Server.buffSize)) ∧
      ∃ s', s.step (i, .reciveFromServer Server.buffSize) = some s' ∧
        Refines s' { a with status := update a.status i .idle } ∧ AllOpen s' ∧
        s'.history = s.history ++ [.ret i d] := by
  obtain ⟨hp, hwhole⟩ := h.canReceive (hopen i) hi
  obtain ⟨d', s', hst, hstep, href, hhist, -, hclosed, -⟩ := h.receive hp hwhole
  obtain rfl : d = d' := Status.done.inj (hi.symm.trans hst)
  exact ⟨⟨hp, hwhole⟩, s', hstep, href, hopen.step hstep (hclosed.trans (hopen i)), hhist⟩

/-- A step of the system is a step of the atomic object, and the clients see the same, or the
object stays as it is. -/
theorem Refines.step (h : Refines s a) {e : ι × LinkAct} (hp : s.Permitted e)
    (hw : s.Whole e) :
    ∃ s' a', s.step e = some s' ∧ Refines s' a' ∧
      (a' = a ∧ s'.history = s.history ∨
        ∃ act, Atomic.Step tablesObject a act a' ∧ s'.history = s.history ++ observed [act]) := by
  obtain ⟨i, act⟩ := e
  cases act with
  | sendToServer c =>
    cases hclosed : (s.links i).closed with
    | false =>
      obtain ⟨hst, s', hstep, href, -, hhist⟩ := h.send hclosed hp
      exact ⟨s', _, hstep, href, .inr ⟨.call i c, .call hst, hhist⟩⟩
    | true =>
      obtain ⟨s', hstep, href, hhist, -⟩ := h.sendLost hclosed hp
      exact ⟨s', a, hstep, href, .inl ⟨rfl, hhist⟩⟩
  | sndRcv n beyond =>
    obtain ⟨c, s', hst, hstep, href, -, hhist⟩ := h.serve hp hw
    exact ⟨s', _, hstep, href, .inr ⟨.commit i c, .commit hst, by simpa [observed] using hhist⟩⟩
  | reciveFromServer n =>
    obtain ⟨d, s', hst, hstep, href, hhist, -⟩ := h.receive hp hw
    exact ⟨s', _, hstep, href, .inr ⟨.ret i d, .ret hst, hhist⟩⟩
  | sendFails n =>
    obtain ⟨c, s', hst, hstep, href, hhist, -⟩ := h.sendFails hp hw
    exact ⟨s', _, hstep, href, .inr ⟨.commit i c, .commit hst, by simpa [observed] using hhist⟩⟩
  | close => exact ⟨_, a, rfl, h.close i, .inl ⟨rfl, rfl⟩⟩
  | reciveNothing =>
    obtain ⟨c, s', hstep, href, hhist, -⟩ := h.reciveNothing hp
    exact ⟨s', a, hstep, href, .inl ⟨rfl, hhist⟩⟩

end Step
end Chat

/-- A run of the server with the clients `ι`, its allocations succeeding. -/
structure Conversation (ι : Type) [DecidableEq ι] where
  allocator : ℕ → ℕ
  acts : List (ι × LinkAct)
  permitted : ∀ pre e, Occurs acts pre e →
    ∀ s, Chat.after (Server.running allocator) pre = some s → s.Permitted e

namespace Conversation
variable {ι : Type} [DecidableEq ι]

def after (r : Conversation ι) (pre : List (ι × LinkAct)) : Option (Chat ι) :=
  Chat.after (Server.running r.allocator) pre

/-- Every `recv` returns all bytes that are there, up to the length that it is asked for. -/
def AllWhole (r : Conversation ι) : Prop :=
  ∀ pre e, Occurs r.acts pre e → ∀ s, r.after pre = some s → s.Whole e

/-- The run is one of the atomic object, as far as the clients see. -/
theorem runs_atomic (r : Conversation ι) (hw : r.AllWhole) {pre : List (ι × LinkAct)}
    (hpre : pre <+: r.acts) : ∃ s as a, r.after pre = some s ∧
      Atomic.Runs tablesObject (Atomic.start Tables.empty) as a ∧ s.Refines a ∧
      s.history = observed as := by
  induction pre using List.reverseRecOn with
  | nil => exact ⟨_, [], _, rfl, .nil, Chat.refines_start _, rfl⟩
  | append_singleton pre e ih =>
    obtain ⟨s, as, a, hs, hruns, href, hhist⟩ := ih (Occurs.history hpre)
    obtain ⟨s', a', hstep, href', hact⟩ :=
      href.step (r.permitted pre e hpre s hs) (hw pre e hpre s hs)
    have hs' : r.after (pre ++ [e]) = some s' := by
      have hs' : Chat.after (Server.running r.allocator) pre = some s := hs
      rw [after, Chat.after_snoc, hs', Option.bind_some, hstep]
    rcases hact with ⟨rfl, hsame⟩ | ⟨act, hatomic, hsnoc⟩
    · exact ⟨s', as, a', hs', hruns, href', hsame.trans hhist⟩
    · refine ⟨s', as ++ [act], a', hs', hruns.snoc hatomic, href', ?_⟩
      rw [hsnoc, hhist, observed, observed, observed, List.filterMap_append]

theorem exists_snoc (r : Conversation ι) (hw : r.AllWhole) {s s' : Chat ι}
    (hs : r.after r.acts = some s) {e : ι × LinkAct} (hp : s.Permitted e) (he : s.Whole e)
    (hstep : s.step e = some s') :
    ∃ r' : Conversation ι, r'.AllWhole ∧ r'.after r'.acts = some s' := by
  have hthere : ∀ s₀, r.after r.acts = some s₀ → s = s₀ :=
    fun _ hs₀ => Option.some.inj (hs.symm.trans hs₀)
  refine ⟨⟨r.allocator, r.acts ++ [e], (forall_occurs_snoc _ _).mpr ⟨r.permitted, ?_⟩⟩,
    (forall_occurs_snoc _ _).mpr ⟨hw, ?_⟩, ?_⟩
  · intro s₀ hs₀
    exact hthere s₀ hs₀ ▸ hp
  · intro s₀ hs₀
    exact hthere s₀ hs₀ ▸ he
  · have hs' : Chat.after (Server.running r.allocator) r.acts = some s := hs
    rw [after, Chat.after_snoc, hs', Option.bind_some, hstep]

end Conversation
end ChatProject
