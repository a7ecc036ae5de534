import ChatProject.ByteOrder

/-!
# The message structs and their packing

Structs are byte arrays: `char` fields follow the one-byte `type`, and the four-byte
`answer` of an answer struct is aligned to 4. `pack` and `unPack` overlay the structs
on the bytes they are given. `LEAVE_CONVERSATION_REQ` has no `break` in `pack`, and
`LEAVE_CONVERSATION_ANS` is converted by `unPack` only.
-/

namespace ChatProject.Protocol
open Memory ByteOrder

inductive ProtocolType
  | registerReq
  | registerAns
  | loginReq
  | loginAns
  | logout
  | unregisterReq
  | unregisterAns
  | createGroupConversationReq
  | createGroupConversationAns
  | joinConversationReq
  | joinConversationAns
  | createPrivateConversation
  | leaveConversationReq
  | leaveConversationAns
  | getUserList
  | getGroupChatList
  deriving DecidableEq

namespace ProtocolType

def toByte : ProtocolType → UInt8
  | registerReq => 0
  | registerAns => 1
  | loginReq => 2
  | loginAns => 3
  | logout => 4
  | unregisterReq => 5
  | unregisterAns => 6
  | createGroupConversationReq => 7
  | createGroupConversationAns => 8
  | joinConversationReq => 9
  | joinConversationAns => 10
  | createPrivateConversation => 11
  | leaveConversationReq => 12
  | leaveConversationAns => 13
  | getUserList => 14
  | getGroupChatList => 15

/-- `none` for a type byte without an enumerator; no `case` matches it. -/
def ofByte : UInt8 → Option ProtocolType
  | 0 => some registerReq
  | 1 => some registerAns
  | 2 => some loginReq
  | 3 => some loginAns
  | 4 => some logout
  | 5 => some unregisterReq
  | 6 => some unregisterAns
  | 7 => some createGroupConversationReq
  | 8 => some createGroupConversationAns
  | 9 => some joinConversationReq
  | 10 => some joinConversationAns
  | 11 => some createPrivateConversation
  | 12 => some leaveConversationReq
  | 13 => some leaveConversationAns
  | 14 => some getUserList
  | 15 => some getGroupChatList
  | _ => none

@[simp] theorem ofByte_toByte (t : ProtocolType) : ofByte t.toByte = some t := by
  cases t <;> rfl

end ProtocolType

inductive Answers
  | registerSuccess
  | registerUserNameAllreadyExist
  | loginUserSuccessfullyConnected
  | loginUserNameNotExist
  | loginWrongPsw
  | loginAllreadyConnected
  | groupSuccessfullyInsert
  | groupNameAlreadyExist
  | groupNameNotExist
  | groupSuccessfullyJoin
  | groupSuccessfullyFound
  deriving DecidableEq

def Answers.code : Answers → UInt32
  | registerSuccess => 0
  | registerUserNameAllreadyExist => 1
  | loginUserSuccessfullyConnected => 2
  | loginUserNameNotExist => 3
  | loginWrongPsw => 4
  | loginAllreadyConnected => 5
  | groupSuccessfullyInsert => 6
  | groupNameAlreadyExist => 7
  | groupNameNotExist => 8
  | groupSuccessfullyJoin => 9
  | groupSuccessfullyFound => 10

/-! Offsets and sizes of the structs. -/

def userPassword : ℕ := 1
def userUserName : ℕ := 18
def sizeofUserDetails : ℕ := 35
def groupGroupName : ℕ := 1
def groupUserName : ℕ := 19
def sizeofGroupDetails : ℕ := 36
def ansGroupIP : ℕ := 1
def registerAnsAnswer : ℕ := 4
def sizeofRegisterAns : ℕ := 8
def createGroupAnsAnswer : ℕ := 20
def sizeofCreateGroupAns : ℕ := 24

/-- `m_answer = htonl( m_answer )` on the struct whose `m_answer` is at `off`; `ntohl` is the same
function. -/
def convertAnswer (bo : ByteOrder) (b : Bytes) (off : ℕ) : Bytes :=
  store32 bo b off (htonl bo (load32 bo b off))

def packAns (bo : ByteOrder) (type : ProtocolType) (b : Bytes) (off : ℕ) : Bytes :=
  convertAnswer bo (b.set 0 type.toByte) off

def pack (bo : ByteOrder) (type : ProtocolType) (value : Bytes) : Bytes :=
  match type with
  | .registerReq | .loginReq => value.set 0 type.toByte
  | .createGroupConversationReq | .joinConversationReq => value.set 0 type.toByte
  -- no `break`: control goes on into the case of `REGISTER_ANS`
  | .leaveConversationReq => packAns bo type (value.set 0 type.toByte) registerAnsAnswer
  | .registerAns => packAns bo type value registerAnsAnswer
  | .loginAns => packAns bo type value registerAnsAnswer
  | .createGroupConversationAns => packAns bo type value createGroupAnsAnswer
  | .joinConversationAns => packAns bo type value createGroupAnsAnswer
  | _ => value

def unPack (bo : ByteOrder) (value : Bytes) : Option ProtocolType × Bytes :=
  let type := ProtocolType.ofByte (value.getD 0 0)
  match type with
  | some .loginAns => (type, convertAnswer bo value registerAnsAnswer)
  | some .registerAns => (type, convertAnswer bo value registerAnsAnswer)
  | some .createGroupConversationAns => (type, convertAnswer bo value createGroupAnsAnswer)
  | some .joinConversationAns => (type, convertAnswer bo value createGroupAnsAnswer)
  | some .leaveConversationAns => (type, convertAnswer bo value createGroupAnsAnswer)
  | _ => (type, value)

def requestTypes : List ProtocolType :=
  [.registerReq, .loginReq, .createGroupConversationReq, .joinConversationReq,
    .leaveConversationReq]

theorem unPack_request {b : Bytes} {t : ProtocolType}
    (ht : ProtocolType.ofByte (b.getD 0 0) = some t) (hreq : t ∈ requestTypes) :
    unPack .little b = (some t, b) := by
  simp only [requestTypes, List.mem_cons, List.not_mem_nil, or_false] at hreq
  rcases hreq with rfl | rfl | rfl | rfl | rfl <;> simp only [unPack, ht]

end ChatProject.Protocol
