import ChatProject.Reachable

/-!
# Which messages get a proper answer

What the operations return is described for any keyed database, any receive buffer and
any pattern of allocation failures. From it follows when a received message is answered
with the type that belongs to its request and with an assigned code.
-/

namespace ChatProject
open Memory HashMap Protocol

/-! ## What the operations return -/

namespace Keyed
open DataBase
variable {db : DataBase} (hdb : Keyed db) (buf : Bytes)
include hdb

theorem register_code (h : Heap) :
    (isUserNameUnique db buf h).1 =
      if db.userNames.lookup buf (.rcv userUserName) = none then uniqe else alreadyExist := by
  rw [isUserNameUnique]
  cases hl : db.userNames.lookup buf (.rcv userUserName) with
  | none => simp [find_of_lookup_none hdb.users.map.sound hl]
  | some e => simp [find_of_lookup_some hdb.users.map.sound hl]

theorem login_code (h : Heap) :
    (checkClientStatusAndConnect db buf h).1 =
      match db.userNames.lookup buf (.rcv userUserName) with
      | none => .worngUserName
      | some e =>
        if e.value.status = connect then .alreadyConnected
        else if cstr buf userPassword ≠ e.value.psw then .worngPsw
        else .connectSuccesfully := by
  rw [checkClientStatusAndConnect]
  cases hl : db.userNames.lookup buf (.rcv userUserName) with
  | none => rw [find_of_lookup_none hdb.users.map.sound hl]
  | some e =>
    rw [find_of_lookup_some hdb.users.map.sound hl]
    by_cases hc : e.value.status = connect
    · simp [hc]
    · by_cases hp : cstr buf userPassword = e.value.psw <;> simp [hc, hp]

theorem create_code (h : Heap) :
    (checkGroupNameAndInsert db buf h).1 =
      if h 0 = 0 then .allocFail
      else if db.groupNames.lookup buf (.rcv groupGroupName) ≠ none then .groupNameAlreadyExist
      else if db.groupNames.insertReports (bucketOf (cstr buf groupGroupName)) h.rest then
        .groupSuccessfullyInsert
      else .insertFail := by
  by_cases h0 : h 0 = 0
  · simp [checkGroupNameAndInsert, Heap.next, h0]
  · cases hl : db.groupNames.lookup buf (.rcv groupGroupName) with
    | some e =>
      simp [checkGroupNameAndInsert, Heap.next, h0, find_of_lookup_some hdb.groups.map.sound hl]
    | none =>
      have hins : ∀ {v res}, db.groupNames.insert blank buf (some (.rcv groupGroupName)) v h.rest =
          res → res.1 =
            if db.groupNames.insertReports (bucketOf (cstr buf groupGroupName)) h.rest then .success
            else .allocationError := by
        rintro v res rfl
        rw [(insert_absent hdb.groups.map.sound hl rfl v (fun n hn => hn)).1, hdb.groups.map.index]
        rfl
      have hfind := find_of_lookup_none hdb.groups.map.sound hl
      simp only [checkGroupNameAndInsert, Heap.next, h0, hfind, ↓reduceIte, ne_eq,
        not_true_eq_false]
      split
      -- the result that is reported decides, whether or not the entry was stored
      next hi =>
        have hreports := hins hi
        split_ifs at hreports ⊢ with hr
        rfl
      next hne hi =>
        have hreports := hins hi
        split_ifs at hreports ⊢ with hr
        · exact absurd hreports (by simpa using hne)
        · rfl

theorem join_code :
    (tryToJoinToGroup db buf).1 =
      match db.groupNames.lookup buf (.rcv groupGroupName) with
      | none => .groupNameNotExist
      | some e =>
        if cstr buf groupGroupName = e.value.groupName then .groupJoinSuccessfully
        else .groupSuccessfullyInsert := by
  rw [tryToJoinToGroup]
  cases hl : db.groupNames.lookup buf (.rcv groupGroupName) with
  | none => rw [find_of_lookup_none hdb.groups.map.sound hl]
  | some e =>
    rw [find_of_lookup_some hdb.groups.map.sound hl]
    by_cases hg : cstr buf groupGroupName = e.value.groupName <;> simp [hg]

theorem leave_code :
    (tryToLeaveToGroup db buf).1 =
      match db.userNames.lookup buf (.rcv groupUserName) with
      | none => .groupNameNotExist
      | some e =>
        if e.value.myGroups.lookup buf (.rcv groupGroupName) = none then .groupNameNotExist
        else .groupRemoveSuccessfully := by
  rw [tryToLeaveToGroup]
  cases hl : db.userNames.lookup buf (.rcv groupUserName) with
  | none => rw [find_of_lookup_none hdb.users.map.sound hl]
  | some e =>
    rw [find_of_lookup_some hdb.users.map.sound hl]
    have hown := (hdb.users.of_lookup hl).2
    cases hg : e.value.myGroups.lookup buf (.rcv groupGroupName) with
    | none => simp [HashMap.remove_absent hown.map.sound hg, hg]
    | some g =>
      obtain ⟨m', hremove, -⟩ := HashMap.remove_present hown.map.sound hg
      simp only [hremove, hg, reduceCtorEq, ↓reduceIte]
      split
      · split_ifs <;> rfl
      · rfl

end Keyed

/-! ## What the server answers -/

def Protocol.ProtocolType.answerType : ProtocolType → Option ProtocolType
  | .registerReq => some .registerAns
  | .loginReq => some .loginAns
  | .unregisterReq => some .unregisterAns
  | .createGroupConversationReq => some .createGroupConversationAns
  | .joinConversationReq => some .joinConversationAns
  | .leaveConversationReq => some .leaveConversationAns
  | _ => none

/-- The code that is assigned once the answer struct has been allocated. -/
def ServerApp.code (db : DataBase) (buf : Bytes) (h : Heap) : ProtocolType → Option Answers
  | .registerReq => registerAnswer (DataBase.isUserNameUnique db buf h).1
  | .loginReq => loginAnswer (DataBase.checkClientStatusAndConnect db buf h).1
  | .createGroupConversationReq => groupCode (DataBase.checkGroupNameAndInsert db buf h).1
  | .joinConversationReq => groupCode (DataBase.tryToJoinToGroup db buf).1
  | .leaveConversationReq => groupCode (DataBase.tryToLeaveToGroup db buf).1
  | _ => none

namespace Server
variable (s : Server) (msg : Bytes)

def requested : Option ProtocolType := ProtocolType.ofByte ((recv msg s.bufferRcv).getD 0 0)

theorem requested_eq (hmsg : 1 ≤ msg.length) :
    s.requested msg = ProtocolType.ofByte (msg.getD 0 0) := by
  cases msg with
  | nil => cases hmsg
  | cons b bs => rfl

theorem unPack_fst (b : Bytes) : (unPack .little b).1 = ProtocolType.ofByte (b.getD 0 0) := by
  rw [unPack]
  split <;> rfl

theorem exchange_other (ht : ∀ t ∈ requestTypes, s.requested msg ≠ some t) :
    (s.exchange msg).1 = .crash := by
  have htype := unPack_fst (recv msg s.bufferRcv)
  rw [← requested] at htype
  simp only [exchange, ServerApp.getFromClientAndSendToServer]
  cases hr : s.requested msg with
  | none =>
    rw [hr] at htype
    simp only [htype]
    rfl
  | some t =>
    have hne := ht t
    rw [hr] at htype hne
    cases t <;> simp_all [requestTypes, ServerApp.packAnswer]

theorem exchange_unallocated {t : ProtocolType} (ht : s.requested msg = some t)
    (hreq : t ∈ requestTypes) (h0 : s.heap 0 = 0) :
    (s.exchange msg).1 = if t = .registerReq ∨ t = .loginReq then .null else .crash := by
  have hun := unPack_request ht hreq
  simp only [requestTypes, List.mem_cons, List.not_mem_nil, or_false] at hreq
  rcases hreq with rfl | rfl | rfl | rfl | rfl <;>
    simp [exchange, ServerApp.getFromClientAndSendToServer, hun, ServerApp.checkUserNameOnDB,
      ServerApp.ansForGroupRequests, Heap.next, h0, ServerApp.packAnswer]

theorem exchange_allocated {t : ProtocolType} (ht : s.requested msg = some t)
    (hreq : t ∈ requestTypes) (h0 : s.heap 0 ≠ 0) :
    ∃ a sent, (s.exchange msg).1 = .answer a sent ∧ t.answerType = some a.type ∧
      a.answer = ServerApp.code s.context (recv msg s.bufferRcv) s.heap.rest t := by
  have hun := unPack_request ht hreq
  simp only [requestTypes, List.mem_cons, List.not_mem_nil, or_false] at hreq
  rcases hreq with rfl | rfl | rfl | rfl | rfl <;>
    simp [exchange, ServerApp.getFromClientAndSendToServer, hun, ServerApp.checkUserNameOnDB,
      ServerApp.ansForGroupRequests, Heap.next, h0, ServerApp.packAnswer,
      ProtocolType.answerType, ServerApp.code]

end Server

namespace Keyed
variable {db : DataBase} (hdb : Keyed db) (buf : Bytes)
include hdb

theorem code_assigned (h : Heap) {t : ProtocolType} (ht : t ∈ requestTypes)
    (hne : t ≠ .createGroupConversationReq) : ServerApp.code db buf h t ≠ none := by
  simp only [requestTypes, List.mem_cons, List.not_mem_nil, or_false] at ht
  rcases ht with rfl | rfl | rfl | rfl | rfl
  · rw [ServerApp.code, hdb.register_code]
    split_ifs <;> decide
  · rw [ServerApp.code, hdb.login_code]
    split
    · decide
    · split_ifs <;> decide
  · exact absurd rfl hne
  · rw [ServerApp.code, hdb.join_code]
    split
    · decide
    · split_ifs <;> decide
  · rw [ServerApp.code, hdb.leave_code]
    split
    · decide
    · split_ifs <;> decide

theorem create_assigned (h : Heap) :
    ServerApp.code db buf h .createGroupConversationReq ≠ none ↔
      h 0 ≠ 0 ∧ (db.groupNames.bucket (bucketOf (cstr buf groupGroupName)) ≠ [] ∨
        db.groupNames.insertReports (bucketOf (cstr buf groupGroupName)) h.rest) := by
  have habsent : db.groupNames.lookup buf (.rcv groupGroupName) = none ↔
      db.groupNames.bucket (bucketOf (cstr buf groupGroupName)) = [] := by
    rw [hdb.group_lookup, List.head?_eq_none_iff]
  rw [ServerApp.code, hdb.create_code, ne_eq, ne_eq _ [], ← habsent]
  by_cases h0 : h 0 = 0
  · simp [h0, ServerApp.groupCode]
  · by_cases hl : db.groupNames.lookup buf (.rcv groupGroupName) = none
    · by_cases hr : db.groupNames.insertReports (bucketOf (cstr buf groupGroupName)) h.rest <;>
        simp [h0, hl, hr, ServerApp.groupCode]
    · simp [h0, hl, ServerApp.groupCode]

end Keyed

/-- A message that is delivered to a server after any run. -/
structure Delivery where
  server : Server
  message : Bytes
  reachable : server.Reachable
  delivers : server.Delivers message

namespace Delivery
variable (d : Delivery)

def type : Option ProtocolType := ProtocolType.ofByte (d.message.getD 0 0)

/-- No null answer is used, and an answer has the type that belongs to the request and an
assigned code. -/
def Proper : Prop :=
  (d.server.exchange d.message).1 ≠ .crash ∧
    ∀ a sent, (d.server.exchange d.message).1 = .answer a sent →
      d.type.bind ProtocolType.answerType = some a.type ∧ a.answer ≠ none

/-- The type is one of the five, a group request gets its answer struct allocated, and a
creation its record; a creation finds a group in its bucket or the insertion reports success. -/
def Answerable : Prop :=
  match d.type with
  | some .registerReq | some .loginReq => True
  | some .joinConversationReq | some .leaveConversationReq => d.server.heap 0 ≠ 0
  | some .createGroupConversationReq =>
    let group := cstr (Server.recv d.message d.server.bufferRcv) groupGroupName
    d.server.heap 0 ≠ 0 ∧ d.server.heap 1 ≠ 0 ∧
      (d.server.context.groupNames.bucket (bucketOf group) ≠ [] ∨
        d.server.context.groupNames.insertReports (bucketOf group) d.server.heap.rest.rest)
  | _ => False

theorem requested_eq : d.server.requested d.message = d.type :=
  d.server.requested_eq d.message d.delivers.nonempty

theorem proper_allocated {t : ProtocolType} (ht : d.type = some t) (hreq : t ∈ requestTypes)
    (h0 : d.server.heap 0 ≠ 0) :
    d.Proper ↔ ServerApp.code d.server.context (Server.recv d.message d.server.bufferRcv)
      d.server.heap.rest t ≠ none := by
  obtain ⟨a, sent, he, htype, hcode⟩ :=
    d.server.exchange_allocated d.message (d.requested_eq.trans ht) hreq h0
  rw [Proper, he, ht, ← hcode]
  constructor
  · rintro ⟨-, h⟩
    exact (h a sent rfl).2
  · intro h
    refine ⟨AppResult.noConfusion, ?_⟩
    rintro a' sent' ⟨⟩
    exact ⟨htype, h⟩

theorem proper_unallocated {t : ProtocolType} (ht : d.type = some t) (hreq : t ∈ requestTypes)
    (h0 : d.server.heap 0 = 0) : d.Proper ↔ t = .registerReq ∨ t = .loginReq := by
  rw [Proper, d.server.exchange_unallocated d.message (d.requested_eq.trans ht) hreq h0]
  by_cases h : t = .registerReq ∨ t = .loginReq <;> simp [h]

theorem not_proper_other (ht : ∀ t ∈ requestTypes, d.type ≠ some t) : ¬ d.Proper := by
  rintro ⟨hcrash, -⟩
  refine hcrash (d.server.exchange_other d.message ?_)
  rwa [d.requested_eq]

theorem proper_iff : d.Proper ↔ d.Answerable := by
  have hkeyed := d.reachable.keyed
  by_cases hreq : ∃ t ∈ requestTypes, d.type = some t
  · obtain ⟨t, hreq, ht⟩ := hreq
    rw [Answerable, ht]
    by_cases h0 : d.server.heap 0 = 0
    · rw [d.proper_unallocated ht hreq h0]
      simp only [requestTypes, List.mem_cons, List.not_mem_nil, or_false] at hreq
      rcases hreq with rfl | rfl | rfl | rfl | rfl <;> simp [h0]
    · rw [d.proper_allocated ht hreq h0]
      by_cases hcreate : t = .createGroupConversationReq
      · subst hcreate
        rw [hkeyed.create_assigned]
        simp [h0, Heap.rest]
      · have hcode := hkeyed.code_assigned (Server.recv d.message d.server.bufferRcv)
          d.server.heap.rest hreq hcreate
        simp only [requestTypes, List.mem_cons, List.not_mem_nil, or_false] at hreq
        rcases hreq with rfl | rfl | rfl | rfl | rfl <;> simp_all
  · have hother : ∀ t ∈ requestTypes, d.type ≠ some t := fun t ht he => hreq ⟨t, ht, he⟩
    have hno : ¬ d.Answerable := by
      rw [Answerable]
      cases ht : d.type with
      | none => exact id
      | some t =>
        have hne := hother t
        cases t <;> simp_all [requestTypes]
    exact iff_of_false (d.not_proper_other hother) hno

/-- A single byte that is no message type stops the server. -/
theorem proper_fails : ¬ ∀ d : Delivery, d.Proper := by
  intro h
  let d : Delivery := {
    server := Server.after id []
    message := [200]
    reachable := .after id []
    delivers := ⟨by decide, by decide, trivial⟩ }
  have hother : ∀ t ∈ requestTypes, d.type ≠ some t := by decide
  exact d.not_proper_other hother (h d)

end Delivery
end ChatProject
