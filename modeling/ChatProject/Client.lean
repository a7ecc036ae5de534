import ChatProject.ServerApp

/-!
# The client's requests

Each function fills a struct in allocated memory, packs it, sends it, and decides by the
answer field of what it receives. The allocations succeed, the bytes are delivered as
they were sent, and opening or closing the chat windows does not change the result. What
a struct's memory held before, and what lies beyond the answer struct that the server
sends from, are parameters.
-/

namespace ChatProject
open Memory Protocol ByteOrder

/-- `minusOne` is the `-1` that `User_LogIn` ends with, which is no enumerator. -/
inductive ClientErr
  | success
  | allocFail
  | fail
  | packingFail
  | initFail
  | wrongPsw
  | userNameNotExist
  | allreadyConnected
  | sendToServerFail
  | failGroupCreate
  | failGroupLeave
  | minusOne
  deriving DecidableEq

namespace Client

def createUserDetails (memory : Bytes) (userName psw : CStr) : Bytes :=
  strcpy (strcpy memory userUserName userName) userPassword psw

def initGroupStruct (memory : Bytes) (userName groupName : CStr) : Bytes :=
  strcpy (strcpy memory groupGroupName groupName) groupUserName userName

def received (res : AppResult) (beyond : Bytes) : Bytes :=
  match res with
  | .answer _ sent => sent ++ beyond
  | _ => List.replicate Server.buffSize 0

def sendAndReceive (s : Server) (beyond : Bytes) (type : ProtocolType) (details : Bytes) :
    Bytes × Server :=
  let (res, s) := s.exchange (pack .little type details)
  ((unPack .little (received res beyond)).2, s)

/-! What each function makes of the answer. -/

def registerResult (answer : UInt32) : ClientErr :=
  if answer = Answers.registerSuccess.code then .success
  else if answer = Answers.registerUserNameAllreadyExist.code then .fail
  else .fail

def logInResult (answer : UInt32) : ClientErr :=
  if answer = Answers.loginUserSuccessfullyConnected.code then .success
  else if answer = Answers.loginUserNameNotExist.code then .userNameNotExist
  else if answer = Answers.loginWrongPsw.code then .wrongPsw
  else if answer = Answers.loginAllreadyConnected.code then .allreadyConnected
  else .minusOne

def createResult (answer : UInt32) : ClientErr :=
  if answer = Answers.groupSuccessfullyInsert.code then .success
  else if answer = Answers.groupNameAlreadyExist.code then .failGroupCreate
  else .success

def joinResult (answer : UInt32) : ClientErr :=
  if answer = Answers.groupSuccessfullyJoin.code then .success
  else if answer = Answers.groupNameNotExist.code then .failGroupCreate
  else .success

def leaveResult (answer : UInt32) : ClientErr :=
  if answer = Answers.groupSuccessfullyFound.code then .success
  else if answer = Answers.groupNameNotExist.code then .failGroupLeave
  else .success

def userRegister (s : Server) (beyond memory : Bytes) (userName psw : CStr) :
    ClientErr × Server :=
  let (buffer, s) :=
    sendAndReceive s beyond .registerReq (createUserDetails memory userName psw)
  (registerResult (load32 .little buffer registerAnsAnswer), s)

def userLogIn (s : Server) (beyond memory : Bytes) (userName psw : CStr) :
    ClientErr × Server :=
  let (buffer, s) := sendAndReceive s beyond .loginReq (createUserDetails memory userName psw)
  (logInResult (load32 .little buffer registerAnsAnswer), s)

def createNewGroup (s : Server) (beyond memory : Bytes) (userName groupName : CStr) :
    ClientErr × Server :=
  let (buffer, s) := sendAndReceive s beyond .createGroupConversationReq
    (initGroupStruct memory userName groupName)
  (createResult (load32 .little buffer createGroupAnsAnswer), s)

def joinToGroup (s : Server) (beyond memory : Bytes) (userName groupNameToFind : CStr) :
    ClientErr × Server :=
  let (buffer, s) := sendAndReceive s beyond .joinConversationReq
    (initGroupStruct memory userName groupNameToFind)
  (joinResult (load32 .little buffer createGroupAnsAnswer), s)

def leaveGroupConversation (s : Server) (beyond memory : Bytes) (userName groupNameToFind : CStr) :
    ClientErr × Server :=
  let (buffer, s) := sendAndReceive s beyond .leaveConversationReq
    (initGroupStruct memory userName groupNameToFind)
  (leaveResult (load32 .little buffer createGroupAnsAnswer), s)

end Client
end ChatProject
