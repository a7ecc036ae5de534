import ChatProject.HashMap
import ChatProject.PoolAddr
import ChatProject.Protocol

/-!
# The server's database

The operations read the request struct where it was received, at the start of the
receive buffer. The user and group maps are given pointers into that buffer as keys
(`HashMap_Insert` stores the pointer), so the text of a stored key is whatever the
buffer holds when the key is read. The names in a user's own group map are copies.

A group record's two text fields are adjacent: `m_groupName[17]` and then
`m_ip_add_group[17]`, in one byte array.
-/

namespace ChatProject
open Memory Protocol

/-- A `char*`: a place in the receive buffer, or a string in memory of its own. -/
inductive CharPtr
  | rcv (off : ℕ)
  | own (s : CStr)
  deriving DecidableEq

def CharPtr.str (buf : Bytes) : CharPtr → CStr
  | .rcv off => cstr buf off
  | .own s => s

@[simp] theorem CharPtr.str_rcv (buf : Bytes) (off : ℕ) :
    (CharPtr.rcv off).str buf = cstr buf off := rfl

@[simp] theorem CharPtr.str_own (buf : Bytes) (s : CStr) : (CharPtr.own s).str buf = s := rfl

inductive DBErr
  | allocFail
  | insertFail
  | createFail
  | success
  | connectSuccesfully
  | alreadyConnected
  | worngUserName
  | worngPsw
  | groupSuccessfullyInsert
  | groupNameAlreadyExist
  | groupNameNotExist
  | groupJoinSuccessfully
  | groupRemoveSuccessfully
  deriving DecidableEq

abbrev GroupNames := HashMap Bytes CharPtr CharPtr

structure UserValue where
  status : ℤ
  psw : CStr
  myGroups : GroupNames

structure GroupValue where
  numOfPartic : ℤ
  text : Bytes

structure DataBase where
  userNames : HashMap Bytes CharPtr UserValue
  groupNames : HashMap Bytes CharPtr GroupValue
  addIPPool : IPPoolAddr

namespace DataBase

def capacity : ℕ := 50
def userGroupsCapacity : ℕ := 50
def connect : ℤ := 1
def disconnect : ℤ := 0
def alreadyExist : ℤ := 0
def uniqe : ℤ := 1
def maxLength : ℕ := 17

/-- A plain `char` is signed on the server's machine. -/
def charVal (c : UInt8) : ℤ := if c < 128 then c.toNat else c.toNat - 256

def stringHash (s : CStr) : ℕ := ((s.foldl (fun sum c => sum + charVal c) 0) % 2 ^ 64).toNat

def stringsEqual (a b : CStr) : ℤ := if strcmp a b = 0 then 1 else 0

def hashFunctionUsers (buf : Bytes) (key : CharPtr) : ℕ := stringHash (key.str buf)

def equalityFunctionForUsers (buf : Bytes) (firstKey secondKey : CharPtr) : ℤ :=
  stringsEqual (firstKey.str buf) (secondKey.str buf)

def hashFunctionGroups (buf : Bytes) (key : CharPtr) : ℕ := stringHash (key.str buf)

def equalityFunctionForGroups (buf : Bytes) (firstKey secondKey : CharPtr) : ℤ :=
  stringsEqual (firstKey.str buf) (secondKey.str buf)

end DataBase

namespace GroupValue

def groupNameAt : ℕ := 0
def ipAddGroupAt : ℕ := DataBase.maxLength

def malloced : GroupValue := ⟨0, List.replicate (2 * DataBase.maxLength) 0⟩

/-- `m_groupName` read as a string; it runs on into the next field if unterminated. -/
def groupName (v : GroupValue) : CStr := cstr v.text groupNameAt

def ipAddGroup (v : GroupValue) : CStr := cstr v.text ipAddGroupAt

end GroupValue

namespace DataBase

def createUserDataBase (h : Heap) : Option (HashMap Bytes CharPtr UserValue) × Heap :=
  if h.next = 0 then (none, h.rest)
  else HashMap.create capacity hashFunctionUsers equalityFunctionForUsers h.rest

def createGroupsDataBase (h : Heap) : Option (HashMap Bytes CharPtr GroupValue) × Heap :=
  if h.next = 0 then (none, h.rest)
  else HashMap.create capacity hashFunctionGroups equalityFunctionForGroups h.rest

/-- `none` when a part is missing: the function returns the database all the same, but
every operation on a missing part dereferences `NULL`. -/
def createMainDataBase (h : Heap) : Option DataBase × Heap :=
  if h.next = 0 then (none, h.rest)
  else
    let (userDB, h) := createUserDataBase h.rest
    let (groupDB, h) := createGroupsDataBase h
    let (addIPPool, h) := IPPoolAddr.createIPMultecaste h
    match userDB, groupDB, addIPPool with
    | some users, some groups, some pool => (some ⟨users, groups, pool⟩, h)
    | _, _, _ => (none, h)

/-- For a login the record is allocated and dropped; the map is not touched. -/
def insertUserToList (db : DataBase) (buf : Bytes) (status : ℤ) (h : Heap) :
    DBErr × DataBase × Heap :=
  if h.next = 0 then (.insertFail, db, h.rest)
  else if status = disconnect then
    match HashMap.create userGroupsCapacity hashFunctionGroups equalityFunctionForGroups h.rest with
    | (none, h) => (.insertFail, db, h)
    | (some myGroups, h) =>
      match db.userNames.insert blank buf (some (.rcv userUserName))
        ⟨status, cstr buf userPassword, myGroups⟩ h with
      | (.success, users, h) => (.success, { db with userNames := users }, h)
      | (_, users, h) => (.insertFail, { db with userNames := users }, h)
  else (.success, db, h.rest)

def isUserNameUnique (db : DataBase) (buf : Bytes) (h : Heap) : ℤ × DataBase × Heap :=
  if (db.userNames.find buf (some (.rcv userUserName))).1 = .keyNotFoundError then
    let (_, db, h) := insertUserToList db buf disconnect h
    (uniqe, db, h)
  else (alreadyExist, db, h)

def checkClientStatusAndConnect (db : DataBase) (buf : Bytes) (h : Heap) :
    DBErr × DataBase × Heap :=
  match db.userNames.find buf (some (.rcv userUserName)) with
  | (.success, some value) =>
    if value.status = connect then (.alreadyConnected, db, h)
    else if strcmp (cstr buf userPassword) value.psw ≠ 0 then (.worngPsw, db, h)
    else
      let (_, db, h) := insertUserToList db buf connect h
      (.connectSuccesfully, db, h)
  | _ => (.worngUserName, db, h)

def updateGroupDetailsForUser (db : DataBase) (buf : Bytes) (userNameKey groupToAdd : CharPtr)
    (h : Heap) : DataBase × Heap :=
  match db.userNames.find buf (some userNameKey) with
  | (.success, some valueForUser) =>
    if h.next = 0 then (db, h.rest)
    else
      let groupNameUpdate := CharPtr.own (groupToAdd.str buf)
      let (_, myGroups, h) :=
        valueForUser.myGroups.insert blank buf (some groupNameUpdate) groupNameUpdate h.rest
      ({ db with
        userNames := db.userNames.modifyFound buf userNameKey
          (fun value => { value with myGroups := myGroups }) }, h)
  | _ => (db, h)

def checkGroupNameAndInsert (db : DataBase) (buf : Bytes) (h : Heap) :
    DBErr × CStr × DataBase × Heap :=
  if h.next = 0 then (.allocFail, [], db, h.rest)
  else
    let name := cstr buf groupGroupName
    let value := GroupValue.malloced
    let value := { value with text := strcpy value.text GroupValue.groupNameAt name }
    let value := { value with numOfPartic := 1 }
    if (db.groupNames.find buf (some (.rcv groupGroupName))).1 ≠ .keyNotFoundError then
      (.groupNameAlreadyExist, [], db, h.rest)
    else
      let (_, ip, pool) := db.addIPPool.getIPAddress
      let ipAddress := ip.getD []
      let db := { db with addIPPool := pool }
      let value := { value with text := strcpy value.text GroupValue.ipAddGroupAt ipAddress }
      match db.groupNames.insert blank buf (some (.rcv groupGroupName)) value h.rest with
      | (.success, groups, h) =>
        let (db, h) := updateGroupDetailsForUser { db with groupNames := groups } buf
          (.rcv groupUserName) (.rcv groupGroupName) h
        (.groupSuccessfullyInsert, ipAddress, db, h)
      | (_, groups, h) => (.insertFail, ipAddress, { db with groupNames := groups }, h)

def tryToJoinToGroup (db : DataBase) (buf : Bytes) : DBErr × CStr × DataBase :=
  match db.groupNames.find buf (some (.rcv groupGroupName)) with
  | (.success, some groupValue) =>
    if strcmp (cstr buf groupGroupName) groupValue.groupName = 0 then
      (.groupJoinSuccessfully, groupValue.ipAddGroup,
        { db with
          groupNames := db.groupNames.modifyFound buf (.rcv groupGroupName)
            (fun value => { value with numOfPartic := value.numOfPartic + 1 }) })
    else (.groupSuccessfullyInsert, [], db)
  | (.keyNotFoundError, _) => (.groupNameNotExist, [], db)
  | _ => (.groupSuccessfullyInsert, [], db)

def tryToLeaveToGroup (db : DataBase) (buf : Bytes) : DBErr × CStr × DataBase :=
  match db.userNames.find buf (some (.rcv groupUserName)) with
  | (.success, some userLeave) =>
    match userLeave.myGroups.remove buf (some (.rcv groupGroupName)) with
    | (.success, _, myGroups) =>
      let db := { db with
        userNames := db.userNames.modifyFound buf (.rcv groupUserName)
          (fun value => { value with myGroups := myGroups }) }
      match db.groupNames.find buf (some (.rcv groupGroupName)) with
      | (.success, some groupValue) =>
        if strcmp (cstr buf groupGroupName) groupValue.groupName = 0 then
          (.groupRemoveSuccessfully, groupValue.ipAddGroup,
            { db with
              groupNames := db.groupNames.modifyFound buf (.rcv groupGroupName)
                (fun value => { value with numOfPartic := value.numOfPartic - 1 }) })
        else (.groupRemoveSuccessfully, [], db)
      | _ => (.groupRemoveSuccessfully, [], db)
    | _ => (.groupNameNotExist, [], db)
  | _ => (.groupNameNotExist, [], db)

end DataBase
end ChatProject
