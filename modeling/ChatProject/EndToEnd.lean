import ChatProject.Client
import ChatProject.Membership
import ChatProject.PackRoundTrip

/-!
# Client and server end to end

A call of the client arrives as a request with the texts the caller gave, except that
packing a leave request reverses four bytes of its group name. The client's result is
compared with the success of the database operation that the server runs.
-/

namespace ChatProject
open Memory Protocol ByteOrder Run

abbrev Text (n : ℕ) := {s : CStr // s.length < n ∧ 0 ∉ s}

def written (f : Bytes) (s : CStr) : Bytes := s ++ 0 :: f.drop (s.length + 1)

theorem strcpy_field (a f c : Bytes) (s : CStr) (h : s.length < f.length) :
    strcpy (a ++ (f ++ c)) a.length s = a ++ (written f s ++ c) := by
  have hsplit : f ++ c = f.take (s.length + 1) ++ (f.drop (s.length + 1) ++ c) := by
    rw [← List.append_assoc, List.take_append_drop]
  rw [strcpy, hsplit, store_append _ _ _ _ (by simp; omega), written]
  simp

/-- Reversing bytes 4 to 7 of a group request, as seen from its group name field. -/
def swapped : Bytes → Bytes
  | b0 :: b1 :: b2 :: b3 :: b4 :: b5 :: b6 :: rest => b0 :: b1 :: b2 :: b6 :: b5 :: b4 :: b3 :: rest
  | b => b

theorem swapped_perm (b : Bytes) : (swapped b).Perm b := by
  match b with
  | [] | [_] | [_, _] | [_, _, _] | [_, _, _, _] | [_, _, _, _, _] | [_, _, _, _, _, _] => rfl
  | b0 :: b1 :: b2 :: b3 :: b4 :: b5 :: b6 :: rest =>
    have hrev := (List.reverse_perm [b3, b4, b5, b6]).append_right rest
    exact ((hrev.cons b2).cons b1).cons b0

namespace Field
variable {n : ℕ}

/-- The field of `n` bytes at an offset of a struct after `strcpy` into it. -/
def filled {k : ℕ} (memory : Block k) (off : ℕ) (h : off + n ≤ k) (s : Text n) : Field n where
  bytes := written ((memory.1.drop off).take n) s.1
  size := by
    have hs := s.2.1
    have hm := memory.2
    simp only [written, List.length_append, List.length_cons, List.length_drop, List.length_take]
    omega
  terminated := by simp [written]

theorem str_filled {k : ℕ} (memory : Block k) (off : ℕ) (h : off + n ≤ k) (s : Text n) :
    (filled memory off h s).str = s.1 :=
  text_append_zero _ _ s.2.2

def swap (f : Field n) : Field n where
  bytes := swapped f.bytes
  size := (swapped_perm _).length_eq.trans f.size
  terminated := (swapped_perm _).mem_iff.mpr f.terminated

end Field

inductive ClientCall
  | register (memory : Block sizeofUserDetails) (userName psw : Text 17)
  | logIn (memory : Block sizeofUserDetails) (userName psw : Text 17)
  | create (memory : Block sizeofGroupDetails) (userName : Text 17) (groupName : Text 18)
  | join (memory : Block sizeofGroupDetails) (userName : Text 17) (groupName : Text 18)
  | leave (memory : Block sizeofGroupDetails) (userName : Text 17) (groupName : Text 18)

namespace ClientCall
open Client

def run (s : Server) (beyond : Bytes) : ClientCall → ClientErr × Server
  | register memory userName psw => userRegister s beyond memory.1 userName.1 psw.1
  | logIn memory userName psw => userLogIn s beyond memory.1 userName.1 psw.1
  | create memory userName groupName => createNewGroup s beyond memory.1 userName.1 groupName.1
  | join memory userName groupName => joinToGroup s beyond memory.1 userName.1 groupName.1
  | leave memory userName groupName =>
    leaveGroupConversation s beyond memory.1 userName.1 groupName.1

def message : ClientCall → Bytes
  | register memory userName psw =>
    pack .little .registerReq (createUserDetails memory.1 userName.1 psw.1)
  | logIn memory userName psw =>
    pack .little .loginReq (createUserDetails memory.1 userName.1 psw.1)
  | create memory userName groupName =>
    pack .little .createGroupConversationReq (initGroupStruct memory.1 userName.1 groupName.1)
  | join memory userName groupName =>
    pack .little .joinConversationReq (initGroupStruct memory.1 userName.1 groupName.1)
  | leave memory userName groupName =>
    pack .little .leaveConversationReq (initGroupStruct memory.1 userName.1 groupName.1)

def request : ClientCall → Request
  | register memory userName psw =>
    .register (.filled memory userUserName (by decide) userName)
      (.filled memory userPassword (by decide) psw)
  | logIn memory userName psw =>
    .login (.filled memory userUserName (by decide) userName)
      (.filled memory userPassword (by decide) psw)
  | create memory userName groupName =>
    .create (.filled memory groupGroupName (by decide) groupName)
      (.filled memory groupUserName (by decide) userName)
  | join memory userName groupName =>
    .join (.filled memory groupGroupName (by decide) groupName)
      (.filled memory groupUserName (by decide) userName)
  | leave memory userName groupName =>
    .leave (Field.filled memory groupGroupName (by decide) groupName).swap
      (.filled memory groupUserName (by decide) userName)

end ClientCall

/-! ## The message sent is the request that arrives -/

theorem struct_split {k : ℕ} (memory : Block k) (n m : ℕ) (h : n + m + 1 = k) :
    ∃ c, memory.1 = c :: ((memory.1.drop 1).take n ++ (memory.1.drop (n + 1)).take m) := by
  obtain ⟨b, hb⟩ := memory
  cases b with
  | nil => simp [← h] at hb
  | cons c b =>
    refine ⟨c, ?_⟩
    simp only [List.length_cons] at hb
    have hlen : (b.drop n).length = m := by simp; omega
    rw [List.drop_succ_cons, List.drop_succ_cons, List.drop_zero, ← hlen, List.take_length,
      List.take_append_drop]

theorem strcpy_first (c : UInt8) (A B : Bytes) {off : ℕ} (s : CStr) (hoff : 1 = off)
    (h : s.length < A.length) : strcpy (c :: (A ++ B)) off s = c :: (written A s ++ B) := by
  subst hoff
  exact strcpy_field [c] A B s h

theorem strcpy_second (c : UInt8) (A B : Bytes) {off : ℕ} (s : CStr) (hoff : A.length + 1 = off)
    (h : s.length < B.length) : strcpy (c :: (A ++ B)) off s = c :: (A ++ written B s) := by
  subst hoff
  simpa using strcpy_field (c :: A) B [] s h

theorem written_length (f : Bytes) (s : CStr) (h : s.length < f.length) :
    (written f s).length = f.length := by
  simp only [written, List.length_append, List.length_cons, List.length_drop]
  omega

theorem createUserDetails_eq (type : ProtocolType) (memory : Block sizeofUserDetails)
    (userName psw : Text 17) :
    (Client.createUserDetails memory.1 userName.1 psw.1).set 0 type.toByte =
      frame type (.filled memory userPassword (by decide) psw)
        (.filled memory userUserName (by decide) userName) := by
  have hm := memory.2
  simp only [sizeofUserDetails] at hm
  have hA : ((memory.1.drop 1).take 17).length = 17 := by simp; omega
  have hB : ((memory.1.drop 18).take 17).length = 17 := by simp; omega
  have hoff : 1 = userPassword := rfl
  obtain ⟨c, hc⟩ := struct_split memory 17 17 rfl
  rw [Client.createUserDetails, hc,
    strcpy_second c _ _ userName.1 (by rw [hA]; rfl) (by rw [hB]; exact userName.2.1),
    strcpy_first c _ _ psw.1 hoff (by rw [hA]; exact psw.2.1)]
  rfl

theorem initGroupStruct_eq (type : ProtocolType) (memory : Block sizeofGroupDetails)
    (userName : Text 17) (groupName : Text 18) :
    (Client.initGroupStruct memory.1 userName.1 groupName.1).set 0 type.toByte =
      frame type (.filled memory groupGroupName (by decide) groupName)
        (.filled memory groupUserName (by decide) userName) := by
  have hm := memory.2
  simp only [sizeofGroupDetails] at hm
  have hA : ((memory.1.drop 1).take 18).length = 18 := by simp; omega
  have hB : ((memory.1.drop 19).take 17).length = 17 := by simp; omega
  have hA' : groupName.1.length < ((memory.1.drop 1).take 18).length := by
    rw [hA]
    exact groupName.2.1
  have hoff : 1 = groupGroupName := rfl
  obtain ⟨c, hc⟩ := struct_split memory 18 17 rfl
  rw [Client.initGroupStruct, hc, strcpy_first c _ _ groupName.1 hoff hA',
    strcpy_second c _ _ userName.1 (by rw [written_length _ _ hA', hA]; rfl)
      (by rw [hB]; exact userName.2.1)]
  rfl

theorem convertAnswer_frame (type : ProtocolType) (group : Field 18) (user : Field 17) :
    convertAnswer .little (frame type group user) registerAnsAnswer =
      frame type group.swap user := by
  have hs := group.size
  match hb : group.bytes with
  | [] | [_] | [_, _] | [_, _, _] | [_, _, _, _] | [_, _, _, _, _] | [_, _, _, _, _, _] =>
    simp [hb] at hs
  | b0 :: b1 :: b2 :: b3 :: b4 :: b5 :: b6 :: rest =>
    simp only [frame, hb, Field.swap, swapped, List.cons_append, convertAnswer_little]

theorem ClientCall.message_eq (c : ClientCall) : c.message = c.request.message := by
  cases c with
  | register memory userName psw => exact createUserDetails_eq .registerReq memory userName psw
  | logIn memory userName psw => exact createUserDetails_eq .loginReq memory userName psw
  | create memory userName groupName =>
    exact initGroupStruct_eq .createGroupConversationReq memory userName groupName
  | join memory userName groupName =>
    exact initGroupStruct_eq .joinConversationReq memory userName groupName
  | leave memory userName groupName =>
    have hset := initGroupStruct_eq .leaveConversationReq memory userName groupName
    simp only [message, request, Request.message, pack, packAns]
    rw [hset, ← convertAnswer_frame]
    rfl

/-! ## The answer field that the client reads -/

def Answer.Shaped (a : Answer) : Prop :=
  match a.groupIP with
  | none => a.type = .registerAns ∨ a.type = .loginAns
  | some ip => ip.length ≤ 15 ∧ (a.type = .createGroupConversationAns ∨
      a.type = .joinConversationAns ∨ a.type = .leaveConversationAns)

theorem Answer.image_user (t : ProtocolType) (x : Answers) :
    Answer.image ⟨t, none, some x⟩ = t.toByte :: [0, 0, 0] ++ wordBytes .little x.code := by
  simp [Answer.image, store, wordBytes, bytesLE, registerAnsAnswer, sizeofRegisterAns]

theorem Answer.image_groupIP (t : ProtocolType) {ip : CStr} (hip : ip.length ≤ 15) (x : Answers) :
    Answer.image ⟨t, some ip, some x⟩ =
      t.toByte :: (ip ++ List.replicate (19 - ip.length) 0) ++ wordBytes .little x.code := by
  let W := written (List.replicate 23 0) ip
  have hW : W = (ip ++ List.replicate (19 - ip.length) 0) ++ List.replicate 4 0 := by
    rw [List.append_assoc, ← List.replicate_add, show 19 - ip.length + 4 =
      (23 - (ip.length + 1)) + 1 by omega, List.replicate_succ]
    simp only [W, written, List.drop_replicate]
  have hoff : 1 = ansGroupIP := rfl
  have hip' : strcpy (t.toByte :: (List.replicate 23 0 ++ [])) ansGroupIP ip =
      t.toByte :: (W ++ []) := strcpy_first t.toByte _ [] ip hoff (by simp; omega)
  have hlen : (t.toByte :: (ip ++ List.replicate (19 - ip.length) 0)).length =
      createGroupAnsAnswer := by
    simp only [List.length_cons, List.length_append, List.length_replicate, createGroupAnsAnswer]
    omega
  have hsplit : t.toByte :: (W ++ []) =
      (t.toByte :: (ip ++ List.replicate (19 - ip.length) 0)) ++ (List.replicate 4 0 ++ []) := by
    simp [hW]
  have hstart : store (List.replicate sizeofCreateGroupAns 0) 0 [t.toByte] =
      t.toByte :: (List.replicate 23 0 ++ []) := rfl
  simp only [Answer.image, Option.elim_some]
  rw [hstart, hip', hsplit, ← hlen, store_append _ _ _ _ (by simp [wordBytes_length]),
    List.append_nil]

theorem Answer.image_group (t : ProtocolType) {ip : CStr} (hip : ip.length ≤ 15) (x : Answers) :
    ∃ pre, pre.length = 19 ∧
      Answer.image ⟨t, some ip, some x⟩ = t.toByte :: pre ++ wordBytes .little x.code := by
  refine ⟨ip ++ List.replicate (19 - ip.length) 0, ?_, Answer.image_groupIP t hip x⟩
  simp only [List.length_append, List.length_replicate]
  omega

/-- The client reads the code that the server assigned, except in a leave answer. -/
theorem Answer.read {a : Answer} (hs : a.Shaped) {x : Answers} (hx : a.answer = some x)
    (beyond : Bytes) :
    load32 .little (unPack .little (Client.received (ServerApp.packAnswer (some a)) beyond)).2
        (answerOffset a.type) =
      if a.type = .leaveConversationAns then htonl .little x.code else x.code := by
  obtain ⟨t, groupIP, answer⟩ := a
  cases hx
  obtain ⟨ht, pre, hpre, himage⟩ : t ∈ answerTypes ∧ ∃ pre, pre.length + 1 = answerOffset t ∧
      Answer.image ⟨t, groupIP, some x⟩ = t.toByte :: pre ++ wordBytes .little x.code := by
    cases groupIP with
    | none =>
      rcases hs with rfl | rfl
      · exact ⟨by simp [answerTypes], _, rfl, Answer.image_user _ x⟩
      · exact ⟨by simp [answerTypes], _, rfl, Answer.image_user _ x⟩
    | some ip =>
      obtain ⟨hip, ht⟩ := hs
      obtain ⟨pre, hpre, himage⟩ := Answer.image_group t hip x
      refine ⟨?_, pre, ?_, himage⟩
      · rcases ht with rfl | rfl | rfl <;> simp [answerTypes]
      · rcases ht with rfl | rfl | rfl <;> simp [answerOffset, hpre, createGroupAnsAnswer]
  have hw := wordBytes_length .little x.code
  have hcode := ofBytes_wordBytes .little x.code []
  rw [List.append_nil] at hcode
  rw [ServerApp.packAnswer, Client.received, himage,
    (read_answer .little .little ht pre beyond hpre hw).2.2, ← ofBytes_swap hw .little, hcode]

/-! ## The replies of the tables -/

def Call.answerType : Call → ProtocolType
  | register .. => .registerAns
  | login .. => .loginAns
  | create .. => .createGroupConversationAns
  | join .. => .joinConversationAns
  | leave .. => .leaveConversationAns

namespace Tables
variable (t : Tables)

theorem reply_type (call : Call) : (t.reply call).type = call.answerType := by
  cases call with
  | register | login => rfl
  | create | join | leave => exact ServerApp.groupAnswer_type _ _ _ _ _

theorem leaveGroup_ip (g : GroupName) : (t.leaveGroup g).1.length ≤ 15 := by
  rw [leaveGroup]
  cases hg : t.groups (bucketOf g) with
  | none => simp
  | some r => by_cases hr : r.Reads g <;> simp [hr, r.ip_text]

theorem reply_shaped (call : Call) : (t.reply call).Shaped := by
  cases call with
  | register name psw => simp [reply, Answer.Shaped]
  | login name psw => simp [reply, Answer.Shaped]
  | create g user spare =>
    have haddress := IPPoolAddr.addressAt_text (t.created % IPPoolAddr.capacity)
      (Nat.mod_lt _ (by decide))
    cases hg : t.groups (bucketOf g) <;>
      simp [reply, create, hg, ServerApp.groupAnswer, Answer.Shaped, haddress]
  | join g user =>
    cases hg : t.groups (bucketOf g) with
    | none => simp [reply, join, hg, ServerApp.groupAnswer, Answer.Shaped]
    | some r =>
      by_cases hr : r.Reads g <;>
        simp [reply, join, hg, hr, ServerApp.groupAnswer, Answer.Shaped, r.ip_text]
  | leave g user spare =>
    cases hc : t.caller user spare with
    | none => simp [reply, leave, hc, ServerApp.groupAnswer, Answer.Shaped]
    | some a =>
      by_cases hm : g.1 ∈ a.groups <;>
        simp [reply, leave, hc, hm, ServerApp.groupAnswer, Answer.Shaped, leaveGroup_ip]

theorem reply_assigned (call : Call) : ∃ x, (t.reply call).answer = some x := by
  cases call with
  | register name psw =>
    cases ha : t.accounts (bucketOf name) <;>
      simp [reply, register, ha, ServerApp.registerAnswer, DataBase.uniqe, DataBase.alreadyExist]
  | login name psw =>
    cases ha : t.accounts (bucketOf name) with
    | none => simp [reply, login, ha, ServerApp.loginAnswer]
    | some a => by_cases hp : psw = a.psw <;> simp [reply, login, ha, hp, ServerApp.loginAnswer]
  | create g user spare =>
    cases hg : t.groups (bucketOf g) <;> simp [reply, create, hg, ServerApp.groupAnswer]
  | join g user =>
    cases hg : t.groups (bucketOf g) with
    | none => simp [reply, join, hg, ServerApp.groupAnswer]
    | some r => by_cases hr : r.Reads g <;> simp [reply, join, hg, hr, ServerApp.groupAnswer]
  | leave g user spare =>
    cases hc : t.caller user spare with
    | none => simp [reply, leave, hc, ServerApp.groupAnswer]
    | some a => by_cases hm : g.1 ∈ a.groups <;> simp [reply, leave, hc, hm, ServerApp.groupAnswer]

theorem register_reply (name psw : CStr) :
    (t.reply (.register name psw)).answer = some .registerSuccess ↔
      t.Succeeds (.register name psw) := by
  cases ha : t.accounts (bucketOf name) <;>
    simp [reply, Succeeds, register, ha, ServerApp.registerAnswer, DataBase.uniqe,
      DataBase.alreadyExist]

theorem login_reply (name psw : CStr) :
    (t.reply (.login name psw)).answer = some .loginUserSuccessfullyConnected ↔
      t.Succeeds (.login name psw) := by
  cases ha : t.accounts (bucketOf name) with
  | none => simp [reply, Succeeds, login, ha, ServerApp.loginAnswer]
  | some a =>
    by_cases hp : psw = a.psw <;> simp [reply, Succeeds, login, ha, hp, ServerApp.loginAnswer]

theorem create_reply (g : GroupName) (user : CStr) (spare : UInt8) :
    (t.reply (.create g user spare)).answer = some .groupNameAlreadyExist ↔
      ¬ t.Succeeds (.create g user spare) := by
  cases hg : t.groups (bucketOf g) <;> simp [reply, Succeeds, create, hg, ServerApp.groupAnswer]

theorem join_reply (g : GroupName) (user : CStr) :
    (t.reply (.join g user)).answer = some .groupNameNotExist ↔ t.groups (bucketOf g) = none := by
  cases hg : t.groups (bucketOf g) with
  | none => simp [reply, join, hg, ServerApp.groupAnswer]
  | some r => by_cases hr : r.Reads g <;> simp [reply, join, hg, hr, ServerApp.groupAnswer]

theorem join_succeeds_iff (g : GroupName) (user : CStr) :
    t.Succeeds (.join g user) ↔ ∃ r, t.groups (bucketOf g) = some r ∧ r.Reads g := by
  cases hg : t.groups (bucketOf g) with
  | none => simp [Succeeds, join, hg]
  | some r => by_cases hr : r.Reads g <;> simp [Succeeds, join, hg, hr]

def Reported (t : Tables) : Call → Prop
  | .join g _ => t.groups (bucketOf g) ≠ none
  | .leave .. => True
  | call => t.Succeeds call

end Tables

/-! ## The client's result -/

namespace ClientCall
open Client

def result : ClientCall → UInt32 → ClientErr
  | register .. => registerResult
  | logIn .. => logInResult
  | create .. => createResult
  | join .. => joinResult
  | leave .. => leaveResult

def answerAt : ClientCall → ℕ
  | register .. | logIn .. => registerAnsAnswer
  | create .. | join .. | leave .. => createGroupAnsAnswer

theorem run_fst (s : Server) (beyond : Bytes) (c : ClientCall) :
    (c.run s beyond).1 =
      c.result (load32 .little (unPack .little (received (s.exchange c.message).1 beyond)).2
        c.answerAt) := by
  cases c with
  | register => simp only [run, userRegister, sendAndReceive, result, answerAt, message]
  | logIn => simp only [run, userLogIn, sendAndReceive, result, answerAt, message]
  | create => simp only [run, createNewGroup, sendAndReceive, result, answerAt, message]
  | join => simp only [run, joinToGroup, sendAndReceive, result, answerAt, message]
  | leave => simp only [run, leaveGroupConversation, sendAndReceive, result, answerAt, message]

theorem registerResult_code (x : Answers) :
    registerResult x.code = .success ↔ x = .registerSuccess := by
  cases x <;> decide

theorem logInResult_code (x : Answers) :
    logInResult x.code = .success ↔ x = .loginUserSuccessfullyConnected := by
  cases x <;> decide

theorem createResult_code (x : Answers) :
    createResult x.code = .success ↔ x ≠ .groupNameAlreadyExist := by
  cases x <;> decide

theorem joinResult_code (x : Answers) :
    joinResult x.code = .success ↔ x ≠ .groupNameNotExist := by
  cases x <;> decide

/-- No code is tested for once its bytes are reversed. -/
theorem leaveResult_swapped (x : Answers) : leaveResult (htonl .little x.code) = .success := by
  cases x <;> decide

theorem answerAt_eq (t : Tables) (c : ClientCall) :
    answerOffset (t.reply c.request.call).type = c.answerAt := by
  rw [t.reply_type]
  cases c <;> rfl

theorem run_eq {s : Server} {t : Tables} (h : Serves s t) (c : ClientCall) (beyond : Bytes)
    {x : Answers} (hx : (t.reply c.request.call).answer = some x) :
    (c.run s beyond).1 =
      c.result (if c.request.call.answerType = .leaveConversationAns then htonl .little x.code
        else x.code) := by
  obtain ⟨-, s', he, -⟩ := h.exchange c.request
  have hread := Answer.read (t.reply_shaped c.request.call) hx beyond
  rw [answerAt_eq, t.reply_type] at hread
  rw [run_fst, c.message_eq, he, hread]

theorem run_success_iff {s : Server} {t : Tables} (h : Serves s t) (c : ClientCall)
    (beyond : Bytes) : (c.run s beyond).1 = .success ↔ t.Reported c.request.call := by
  obtain ⟨x, hx⟩ := t.reply_assigned c.request.call
  rw [run_eq h c beyond hx]
  cases c with
  | register memory userName psw =>
    refine (registerResult_code x).trans ?_
    rw [← Option.some_inj, ← hx]
    exact t.register_reply _ _
  | logIn memory userName psw =>
    refine (logInResult_code x).trans ?_
    rw [← Option.some_inj, ← hx]
    exact t.login_reply _ _
  | create memory userName groupName =>
    refine (createResult_code x).trans ?_
    rw [ne_eq, ← Option.some_inj, ← hx]
    exact (not_congr (t.create_reply _ _ _)).trans not_not
  | join memory userName groupName =>
    refine (joinResult_code x).trans ?_
    rw [ne_eq, ← Option.some_inj, ← hx]
    exact not_congr (t.join_reply _ _)
  | leave memory userName groupName =>
    -- the reversed code matches no case of the switch
    exact iff_of_true (leaveResult_swapped x) trivial

/-- What a client call needs for its result to agree with the server's operation. -/
def Agrees (p : ℕ → ℕ) (rs : List Request) : ClientCall → Prop
  | join _ _ groupName => ∀ g, firstGroup rs (bucketOf groupName.1) = some g →
      g = groupName.1 ∧ groupName.1.length < 17
  | leave memory userName groupName =>
    Server.Reaches p rs (leave memory userName groupName).request
  | _ => True

theorem join_reported_iff (rs : List Request) (g : GroupName) (user : CStr) :
    ((Tables.after rs).Reported (.join g user) ↔ (Tables.after rs).Succeeds (.join g user)) ↔
      ∀ g', firstGroup rs (bucketOf g) = some g' → g' = g.1 ∧ g.1.length < 17 := by
  rw [Tables.join_succeeds_iff, ← Tables.names_after]
  cases hg : (Tables.after rs).groups (bucketOf g) with
  | none => simp [Tables.Reported, hg]
  | some r =>
    have hreads : r.Reads g ↔ r.name.1 = g.1 ∧ g.1.length < 17 := Iff.rfl
    simp [Tables.Reported, hg, hreads]

/-- The client reports a success exactly when the server's operation succeeds, except for
a join when the bucket of the name holds a group that does not read as that name, and for
a leave that does not reach its group. -/
theorem agrees_iff (p : ℕ → ℕ) (rs : List Request) (c : ClientCall) (beyond : Bytes) :
    ((c.run (Server.after p rs) beyond).1 = .success ↔
      (Server.after p rs).Succeeds c.message) ↔ c.Agrees p rs := by
  rw [run_success_iff (Server.after_serves p rs), c.message_eq]
  have hsucceeds := Server.succeeds_after p rs c.request
  cases c with
  | register memory userName psw => exact iff_of_true hsucceeds.symm trivial
  | logIn memory userName psw => exact iff_of_true hsucceeds.symm trivial
  | create memory userName groupName => exact iff_of_true hsucceeds.symm trivial
  | join memory userName groupName =>
    have hjoin := join_reported_iff rs
      (Field.filled memory groupGroupName (by decide) groupName).groupName
      (Field.filled memory groupUserName (by decide) userName).str
    rw [Field.groupName_val, Field.str_filled memory groupGroupName] at hjoin
    rw [hsucceeds]
    exact hjoin
  | leave memory userName groupName =>
    have hleave := Server.succeeds_leave_iff p rs
      (Field.filled memory groupGroupName (by decide) groupName).swap
      (.filled memory groupUserName (by decide) userName)
    exact (iff_true_left trivial).trans hleave

/-- Leaving a group that does not exist is reported as a success. -/
theorem agrees_fails :
    ¬ ∀ (p : ℕ → ℕ) (rs : List Request) (c : ClientCall) (beyond : Bytes),
      (c.run (Server.after p rs) beyond).1 = .success ↔
        (Server.after p rs).Succeeds c.message := by
  intro h
  let c := leave ⟨List.replicate 36 0, rfl⟩ ⟨[97, 98], by decide⟩ ⟨[103], by decide⟩
  have hleave := h id [] c []
  rw [run_success_iff (Server.after_serves id []), c.message_eq] at hleave
  have hreach := (Server.succeeds_leave_iff _ _ _ _).mp (hleave.mp trivial)
  exact absurd hreach.1 (by decide)

end ClientCall
end ChatProject
