import ChatProject.AnsweredAddresses
import ChatProject.GroupRecords

/-!
# Joining a group that was created

A creation that is answered with success hands out the address at the head of the pool. A later
request to join finds the record by the bucket of the name and compares the name with
`m_groupName`, which a name of 17 characters fills without its terminator: it is then read on
into the address.
-/

namespace ChatProject
open Memory HashMap Protocol DataBase

namespace Server
variable {s : Server} {msg : Bytes}

theorem exchange_create (ht : s.requested msg = some .createGroupConversationReq)
    (h0 : s.heap 0 ≠ 0) :
    (s.exchange msg).1 = ServerApp.packAnswer (some (ServerApp.groupAnswer
        ⟨.createGroupConversationAns, some [], none⟩
        (checkGroupNameAndInsert s.context (recv msg s.bufferRcv) s.heap.rest).2.1 [] []
        (checkGroupNameAndInsert s.context (recv msg s.bufferRcv) s.heap.rest).1)) ∧
      (s.exchange msg).2.context =
        (checkGroupNameAndInsert s.context (recv msg s.bufferRcv) s.heap.rest).2.2.1 := by
  have hun := unPack_request ht (by decide)
  constructor <;> simp [exchange, ServerApp.getFromClientAndSendToServer, hun,
    ServerApp.ansForGroupRequests, Heap.next, h0]

theorem exchange_join (ht : s.requested msg = some .joinConversationReq) (h0 : s.heap 0 ≠ 0) :
    (s.exchange msg).1 = ServerApp.packAnswer (some (ServerApp.groupAnswer
      ⟨.joinConversationAns, some [], none⟩ []
      (tryToJoinToGroup s.context (recv msg s.bufferRcv)).2.1 []
      (tryToJoinToGroup s.context (recv msg s.bufferRcv)).1)) := by
  have hun := unPack_request ht (by decide)
  simp [exchange, ServerApp.getFromClientAndSendToServer, hun, ServerApp.ansForGroupRequests,
    Heap.next, h0]

theorem create_of_answered {x : Option Answers}
    (h : answered (s.exchange msg).1 = some (.createGroupConversationAns, x)) :
    s.requested msg = some .createGroupConversationReq ∧ s.heap 0 ≠ 0 := by
  by_cases hreq : ∃ t ∈ requestTypes, s.requested msg = some t
  · obtain ⟨t, hreq, ht⟩ := hreq
    by_cases h0 : s.heap 0 = 0
    · rw [s.exchange_unallocated msg ht hreq h0] at h
      split_ifs at h <;> cases h
    · obtain ⟨a, sent, he, htype, -⟩ := s.exchange_allocated msg ht hreq h0
      rw [he] at h
      have htypes : a.type = .createGroupConversationAns :=
        congrArg Prod.fst (Option.some.inj h)
      refine ⟨?_, h0⟩
      rw [ht]
      rw [htypes] at htype
      cases t with
      | createGroupConversationReq => rfl
      | _ => simp [ProtocolType.answerType] at htype
  · have hother : ∀ t ∈ requestTypes, s.requested msg ≠ some t :=
      fun t ht he => hreq ⟨t, ht, he⟩
    rw [s.exchange_other msg hother] at h
    cases h

end Server

theorem groupCode_eq_insert {res : DBErr}
    (h : ServerApp.groupCode res = some .groupSuccessfullyInsert) :
    res = .groupSuccessfullyInsert := by
  cases res with
  | groupSuccessfullyInsert => rfl
  | _ => cases h

/-- A creation that is answered with success and an address. -/
structure Creation extends Delivery where
  ip : CStr
  answered : Server.answered (server.exchange message).1 =
    some (.createGroupConversationAns, some .groupSuccessfullyInsert)
  address : (server.exchange message).1.groupIP = some ip

namespace Creation
variable (c : Creation)

def buffer : Bytes := Server.recv c.message c.server.bufferRcv

def name : CStr := cstr c.buffer groupGroupName

def after : Server := (c.server.exchange c.message).2

/-- Every later request to join the group is granted with the same address. -/
def Joinable : Prop :=
  ∀ s, Server.Later c.after s → ∀ msg, s.Delivers msg →
    s.requested msg = some .joinConversationReq →
    cstr (Server.recv msg s.bufferRcv) groupGroupName = c.name →
    Server.answered (s.exchange msg).1 =
        some (.joinConversationAns, some .groupSuccessfullyJoin) ∧
      (s.exchange msg).1.groupIP = some c.ip

/-- The chain, the entry and the node for the new record are allocated. -/
def Stored : Prop :=
  c.server.context.groupNames.insertStores (bucketOf c.name) c.server.heap.rest.rest = true

def group (hlen : c.name.length ≤ maxLength) (k : ℕ) : Group :=
  ⟨⟨c.name, hlen, zero_notMem_cstr _ _⟩, k, 1⟩

theorem requested : c.server.requested c.message = some .createGroupConversationReq :=
  (Server.create_of_answered c.answered).1

theorem name_length : c.name.length ≤ maxLength := by
  have hterm := c.delivers.terminated
  have ht := c.requested
  rw [Server.requested] at ht
  rw [Server.Terminated, ht] at hterm
  exact Nat.le_of_lt_succ (cstr_length_lt hterm.1)

/-- What the creation did: it found no record, took an address and inserted the new record. -/
theorem created : ∃ k, c.ip = nextAddress k ∧
    ∀ b, c.after.context.groupNames.bucket b =
      if b = bucketOf c.name then
        if c.server.context.groupNames.insertStores b c.server.heap.rest.rest then
          [groupEntry (c.group c.name_length k)]
        else []
      else c.server.context.groupNames.bucket b := by
  obtain ⟨ht, h0⟩ := Server.create_of_answered c.answered
  obtain ⟨hans, hafter⟩ := Server.exchange_create ht h0
  have hdb := c.reachable.keyed
  obtain ⟨k, hk⟩ := c.reachable.pool
  have hres : (checkGroupNameAndInsert c.server.context c.buffer c.server.heap.rest).1 =
      .groupSuccessfullyInsert := by
    have hcode := c.answered
    rw [hans] at hcode
    have hsome := congrArg Prod.snd (Option.some.inj hcode)
    rw [ServerApp.groupAnswer_answer, Option.or_none] at hsome
    exact groupCode_eq_insert hsome
  have hcode := hres
  rw [hdb.create_code] at hcode
  split_ifs at hcode with h1 hl hr
  rw [ne_eq, not_not] at hl
  have hcreate := hdb.create_absent hk h1 hl
  rw [if_pos hr] at hcreate
  refine ⟨k, ?_, fun b => ?_⟩
  · have haddress := c.address
    obtain ⟨-, hzero, hlen⟩ := IPPoolAddr.addressAt_text (k % IPPoolAddr.capacity)
      (Nat.mod_lt _ (by decide))
    rw [hans, show Server.recv c.message c.server.bufferRcv = c.buffer from rfl, hcreate]
      at haddress
    have hsent := cstr_pack_group (.inl rfl) hzero hlen .groupSuccessfullyInsert
    exact (Option.some.inj haddress).symm.trans hsent
  · rw [after, hafter, show Server.recv c.message c.server.bufferRcv = c.buffer from rfl, hcreate,
      (updateGroupDetailsForUser_rest _ _ _ _ _).1]
    exact hdb.addedGroup_bucket k c.server.heap.rest.rest hl b

theorem after_text {k : ℕ} (hbucket : c.after.context.groupNames.bucket (bucketOf c.name) =
      [groupEntry (c.group c.name_length k)]) :
    c.after.context.groupText (bucketOf c.name) = some (c.group c.name_length k).record.text := by
  rw [groupText, hbucket]
  rfl

theorem reachable_after : c.after.Reachable := by
  refine c.reachable.exchange c.delivers fun hcrash => ?_
  have hans := c.answered
  rw [hcrash] at hans
  cases hans

def joinRequest (user : Field 17) : Request :=
  .join (.ofText 18 c.name (Nat.lt_succ_of_le c.name_length)) user

theorem joinRequest_requested (user : Field 17) (s : Server) :
    s.requested (c.joinRequest user).message = some .joinConversationReq :=
  s.requested_eq _ (s.delivers_message (c.joinRequest user)).nonempty

theorem joinRequest_name (user : Field 17) (s : Server) :
    cstr (Server.recv (c.joinRequest user).message s.bufferRcv) groupGroupName = c.name :=
  (cstr_frame_first _ _ _ _).trans (Field.str_ofText _ (zero_notMem_cstr _ _))

end Creation

namespace Keyed
variable {db : DataBase} {buf : Bytes} {r : Group}

theorem find_text (hdb : Keyed db)
    (htext : db.groupText (bucketOf (cstr buf groupGroupName)) = some r.record.text) :
    ∃ value, db.groupNames.find buf (some (.rcv groupGroupName)) = (.success, some value) ∧
      value.groupName = r.record.groupName ∧ value.ipAddGroup = r.ip := by
  rw [groupText, ← hdb.group_lookup, Option.map_eq_some_iff] at htext
  obtain ⟨e, hl, he⟩ := htext
  refine ⟨e.value, find_of_lookup_some hdb.groups.map.sound hl, ?_, ?_⟩
  · rw [GroupValue.groupName, he]
    rfl
  · rw [GroupValue.ipAddGroup, he]
    exact r.ipAddGroup_record

theorem join_granted (hdb : Keyed db)
    (htext : db.groupText (bucketOf (cstr buf groupGroupName)) = some r.record.text)
    (hname : cstr buf groupGroupName = r.name) (hshort : r.name.1.length < maxLength) :
    (tryToJoinToGroup db buf).1 = .groupJoinSuccessfully ∧
      (tryToJoinToGroup db buf).2.1 = r.ip := by
  obtain ⟨value, hfind, hvalue, hip⟩ := hdb.find_text htext
  have hreads : r.name.1 = value.groupName := by
    rw [hvalue]
    exact (r.eq_groupName_record r.name).mpr ⟨rfl, hshort⟩
  have hequal : strcmp (cstr buf groupGroupName) value.groupName = 0 := by
    rw [strcmp_eq_zero, hname, hreads]
  rw [tryToJoinToGroup, hfind]
  simp [hequal, hip]

theorem join_refused (hdb : Keyed db)
    (htext : db.groupText (bucketOf (cstr buf groupGroupName)) = some r.record.text)
    (hname : cstr buf groupGroupName = r.name) (hlong : ¬ r.name.1.length < maxLength) :
    (tryToJoinToGroup db buf).1 = .groupSuccessfullyInsert := by
  obtain ⟨value, hfind, hvalue, -⟩ := hdb.find_text htext
  have hequal : ¬ strcmp (cstr buf groupGroupName) value.groupName = 0 := by
    rw [strcmp_eq_zero, hname, hvalue, r.eq_groupName_record]
    exact fun h => hlong h.2
  rw [tryToJoinToGroup, hfind]
  simp [hequal]

end Keyed

namespace Creation
variable (c : Creation)

/-- Whatever messages come in between, the next answer struct is allocated. -/
def AnswersAllocated : Prop := ∀ s, Server.Later c.after s → s.heap.next ≠ 0

theorem answersAllocated_of_joinable (h : c.Joinable) : c.AnswersAllocated := by
  intro s hs h0
  let user := Field.ofText 17 [] (by decide)
  have hans := (h s hs (c.joinRequest user).message (s.delivers_message _)
    (c.joinRequest_requested user s) (c.joinRequest_name user s)).1
  rw [s.exchange_unallocated _ (c.joinRequest_requested user s) (by decide) h0] at hans
  cases hans

/-- Right after the creation a request to join is granted only by a stored record that reads as
the name. -/
theorem stored_of_joinable (h : c.Joinable) : c.name.length < maxLength ∧ c.Stored := by
  have h0 : c.after.heap 0 ≠ 0 := c.answersAllocated_of_joinable h c.after .refl
  let user := Field.ofText 17 [] (by decide)
  have hans := (h c.after .refl (c.joinRequest user).message (c.after.delivers_message _)
    (c.joinRequest_requested user _) (c.joinRequest_name user _)).1
  rw [Server.exchange_join (c.joinRequest_requested user _) h0] at hans
  have hcode := congrArg Prod.snd (Option.some.inj hans)
  rw [ServerApp.groupAnswer_answer, Option.or_none] at hcode
  have hdb := c.reachable_after.keyed
  have hname := c.joinRequest_name user c.after
  obtain ⟨k, -, hbuckets⟩ := c.created
  have hbucket := hbuckets (bucketOf c.name)
  rw [if_pos rfl] at hbucket
  by_cases hstored : c.Stored
  · refine ⟨?_, hstored⟩
    by_contra hlong
    rw [Stored] at hstored
    rw [if_pos hstored] at hbucket
    have htext := c.after_text hbucket
    rw [← hname] at htext
    rw [hdb.join_refused htext hname hlong] at hcode
    cases hcode
  · rw [Stored] at hstored
    rw [if_neg hstored] at hbucket
    have hlookup : c.after.context.groupNames.lookup
        (Server.recv (c.joinRequest user).message c.after.bufferRcv) (.rcv groupGroupName) =
          none := by
      rw [hdb.group_lookup, hname, hbucket]
      rfl
    rw [hdb.join_code, hlookup] at hcode
    cases hcode

/-- A group that was reported as created can be joined ever after exactly when its name leaves
room for the terminator in the record, the record was stored, and the answers are allocated. -/
theorem joinable_iff :
    c.Joinable ↔ c.name.length < maxLength ∧ c.Stored ∧ c.AnswersAllocated := by
  constructor
  · intro h
    obtain ⟨hshort, hstored⟩ := c.stored_of_joinable h
    exact ⟨hshort, hstored, c.answersAllocated_of_joinable h⟩
  · intro hwhen s hs msg hmsg ht hname
    obtain ⟨hshort, hstored, hall⟩ := hwhen
    obtain ⟨k, hip, hbuckets⟩ := c.created
    have hbucket := hbuckets (bucketOf c.name)
    rw [Stored] at hstored
    rw [if_pos rfl, if_pos hstored] at hbucket
    have htext := c.reachable_after.later_text hs (c.after_text hbucket)
    rw [← hname] at htext
    obtain ⟨hres, haddress⟩ :=
      (c.reachable_after.later hs).keyed.join_granted htext hname hshort
    obtain ⟨-, hzero, hlen⟩ := (c.group c.name_length k).ip_text
    rw [Server.exchange_join ht (hall s hs), hres, haddress, hip]
    exact ⟨rfl, congrArg some (cstr_pack_group (.inr rfl) hzero hlen .groupSuccessfullyJoin)⟩

/-- A group with a name of 17 characters. -/
def longName : Creation where
  server := Server.running id
  message := (Request.create (.ofText 18 (List.replicate 17 97) (by decide))
    (.ofText 17 [98, 97] (by decide))).message
  reachable := .after id []
  delivers := Server.delivers_message _ _
  ip := IPPoolAddr.addressAt 0
  answered := by decide
  address := by decide

theorem not_joinable_longName : ¬ longName.Joinable := by
  intro h
  have hlen : longName.name.length = 17 := by decide
  have hshort := (longName.stored_of_joinable h).1
  rw [hlen] at hshort
  exact absurd hshort (by decide)

end Creation
end ChatProject
