import ChatProject.DataBase
import ChatProject.HashMapSpec

/-!
# The application function of the server

`GetFromClientAndSendToServer` unpacks the message in the receive buffer, runs the
database operation its type asks for and packs an allocated answer struct. It uses the
answer without a test: the outcome `crash` is the use of a null answer. An answer keeps
whether its `m_answer` has been assigned. The server runs on a little-endian machine.
-/

namespace ChatProject
open Memory Protocol

/-- A `Register_Ans` or `Login_Ans` has no `groupIP`; `answer` is `none` until assigned. -/
structure Answer where
  type : ProtocolType
  groupIP : Option CStr
  answer : Option Answers
  deriving DecidableEq

/-- The struct in memory. Padding, unwritten text and an unassigned answer are blank. -/
def Answer.image (a : Answer) : Bytes :=
  let word := ByteOrder.wordBytes .little (a.answer.elim 0 Answers.code)
  match a.groupIP with
  | none => store (store (List.replicate sizeofRegisterAns 0) 0 [a.type.toByte])
      registerAnsAnswer word
  | some ip => store (strcpy (store (List.replicate sizeofCreateGroupAns 0) 0 [a.type.toByte])
      ansGroupIP ip) createGroupAnsAnswer word

inductive AppResult
  | crash
  | null
  | answer (a : Answer) (sent : Bytes)
  deriving DecidableEq

namespace ServerApp
open DataBase

/-- The answer for `DB_*` codes of the group operations; other codes assign nothing. -/
def groupAnswer (a : Answer) (ipAddress ipJoinGroup ipRemoveGroup : CStr) : DBErr → Answer
  | .groupSuccessfullyInsert =>
    { a with groupIP := some ipAddress, answer := some .groupSuccessfullyInsert }
  | .groupNameAlreadyExist => { a with answer := some .groupNameAlreadyExist }
  | .groupNameNotExist =>
    { a with groupIP := some ipAddress, answer := some .groupNameNotExist }
  | .groupJoinSuccessfully =>
    { a with groupIP := some ipJoinGroup, answer := some .groupSuccessfullyJoin }
  | .groupRemoveSuccessfully =>
    { a with groupIP := some ipRemoveGroup, answer := some .groupSuccessfullyJoin }
  | _ => a

def groupCode : DBErr → Option Answers
  | .groupSuccessfullyInsert => some .groupSuccessfullyInsert
  | .groupNameAlreadyExist => some .groupNameAlreadyExist
  | .groupNameNotExist => some .groupNameNotExist
  | .groupJoinSuccessfully => some .groupSuccessfullyJoin
  | .groupRemoveSuccessfully => some .groupSuccessfullyJoin
  | _ => none

@[simp] theorem groupAnswer_type (a : Answer) (ip ipJoin ipRemove : CStr) (res : DBErr) :
    (groupAnswer a ip ipJoin ipRemove res).type = a.type := by
  cases res <;> rfl

@[simp] theorem groupAnswer_answer (a : Answer) (ip ipJoin ipRemove : CStr) (res : DBErr) :
    (groupAnswer a ip ipJoin ipRemove res).answer = (groupCode res).or a.answer := by
  cases res <;> rfl

def ansForGroupRequests (db : DataBase) (buf : Bytes) (type : ProtocolType) (h : Heap) :
    Option Answer × DataBase × Heap :=
  if h.next = 0 then (none, db, h.rest)
  else
    match type with
    | .createGroupConversationReq =>
      let (res, ipAddress, db, h) := checkGroupNameAndInsert db buf h.rest
      (some (groupAnswer ⟨.createGroupConversationAns, some [], none⟩ ipAddress [] [] res), db, h)
    | .joinConversationReq =>
      let (res, ipJoinGroup, db) := tryToJoinToGroup db buf
      (some (groupAnswer ⟨.joinConversationAns, some [], none⟩ [] ipJoinGroup [] res), db, h.rest)
    | .leaveConversationReq =>
      let (res, ipRemoveGroup, db) := tryToLeaveToGroup db buf
      (some (groupAnswer ⟨.leaveConversationAns, some [], none⟩ [] [] ipRemoveGroup res), db,
        h.rest)
    | _ => (none, db, h.rest)

def registerAnswer (res : ℤ) : Option Answers :=
  if res = uniqe then some .registerSuccess
  else if res = alreadyExist then some .registerUserNameAllreadyExist
  else none

def loginAnswer : DBErr → Option Answers
  | .connectSuccesfully => some .loginUserSuccessfullyConnected
  | .alreadyConnected => some .loginAllreadyConnected
  | .worngUserName => some .loginUserNameNotExist
  | .worngPsw => some .loginWrongPsw
  | _ => none

def checkUserNameOnDB (db : DataBase) (buf : Bytes) (type : ProtocolType) (h : Heap) :
    Option Answer × DataBase × Heap :=
  match type with
  | .registerReq =>
    if h.next = 0 then (none, db, h.rest)
    else
      let (res, db, h) := isUserNameUnique db buf h.rest
      (some ⟨.registerAns, none, registerAnswer res⟩, db, h)
  | .loginReq =>
    if h.next = 0 then (none, db, h.rest)
    else
      let (rcv, db, h) := checkClientStatusAndConnect db buf h.rest
      (some ⟨.loginAns, none, loginAnswer rcv⟩, db, h)
  | _ => (none, db, h)

/-- `Pack( answer->m_type, answer )`, or the use of a null answer. -/
def packAnswer : Option Answer → AppResult
  | none => .crash
  | some a => .answer a (pack .little a.type a.image)

def getFromClientAndSendToServer (rcvFromClient : Bytes) (db : DataBase) (h : Heap) :
    AppResult × Bytes × DataBase × Heap :=
  let (type, buf) := unPack .little rcvFromClient
  match type with
  | some .registerReq =>
    match checkUserNameOnDB db buf .registerReq h with
    | (none, db, h) => (.null, buf, db, h)
    | (some a, db, h) => (packAnswer (some a), buf, db, h)
  | some .loginReq =>
    match checkUserNameOnDB db buf .loginReq h with
    | (none, db, h) => (.null, buf, db, h)
    | (some a, db, h) => (packAnswer (some a), buf, db, h)
  | some .createGroupConversationReq =>
    let (a, db, h) := ansForGroupRequests db buf .createGroupConversationReq h
    (packAnswer a, buf, db, h)
  | some .joinConversationReq =>
    let (a, db, h) := ansForGroupRequests db buf .joinConversationReq h
    (packAnswer a, buf, db, h)
  | some .leaveConversationReq =>
    let (a, db, h) := ansForGroupRequests db buf .leaveConversationReq h
    (packAnswer a, buf, db, h)
  | _ => (packAnswer none, buf, db, h)

end ServerApp

/-- The server between two messages: what it keeps and the allocator. -/
structure Server where
  bufferRcv : Bytes
  context : DataBase
  heap : Heap

namespace Server

def buffSize : ℕ := 1024

def recv (msg buf : Bytes) : Bytes := msg ++ buf.drop msg.length

/-- The middle of `ActionFuncSndRcv`: a message is received into the one buffer, whatever
its length, and the application function handles the buffer. -/
def exchange (s : Server) (msg : Bytes) : AppResult × Server :=
  let (res, buf, db, h) :=
    ServerApp.getFromClientAndSendToServer (recv msg s.bufferRcv) s.context s.heap
  (res, ⟨buf, db, h⟩)

/-- Whether the database operation that the server runs for a message succeeds. -/
def Succeeds (s : Server) (msg : Bytes) : Prop :=
  let (type, buf) := unPack .little (recv msg s.bufferRcv)
  match type with
  | some .registerReq => (DataBase.isUserNameUnique s.context buf s.heap.rest).1 = DataBase.uniqe
  | some .loginReq =>
    (DataBase.checkClientStatusAndConnect s.context buf s.heap.rest).1 = .connectSuccesfully
  | some .createGroupConversationReq =>
    (DataBase.checkGroupNameAndInsert s.context buf s.heap.rest).1 = .groupSuccessfullyInsert
  | some .joinConversationReq =>
    (DataBase.tryToJoinToGroup s.context buf).1 = .groupJoinSuccessfully
  | some .leaveConversationReq =>
    (DataBase.tryToLeaveToGroup s.context buf).1 = .groupRemoveSuccessfully
  | _ => False

def answered : AppResult → Option (ProtocolType × Option Answers)
  | .answer a _ => some (a.type, a.answer)
  | _ => none

def start (h : Heap) : Option Server :=
  match DataBase.createMainDataBase h with
  | (some db, h) => some ⟨List.replicate buffSize 0, db, h⟩
  | (none, _) => none

end Server
end ChatProject
