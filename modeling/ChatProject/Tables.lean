import ChatProject.ServerApp
import ChatProject.StringMap
import Mathlib.Logic.Function.Basic

/-!
# The running server as tables

The server with memory taken away. All keys of the user map point to one place of the
receive buffer, and so do all keys of the group map, so a request finds whatever its
bucket holds: a bucket has room for one account and one group. The caller of a create or
a leave is looked up through another place of the buffer, and is found only if the name
read there is empty.
-/

namespace ChatProject
open Memory HashMap Protocol

/-- A group name that fits its field of a request. -/
abbrev GroupName := {s : CStr // s.length ≤ DataBase.maxLength ∧ 0 ∉ s}

structure Account where
  name : CStr
  psw : CStr
  groups : List CStr

/-- `serial` counts the groups created before this one. -/
structure Group where
  name : GroupName
  serial : ℕ
  partic : ℤ

def GroupValue.nameField (v : GroupValue) : CStr := Memory.text (v.text.take DataBase.maxLength)

namespace Group

/-- Addresses are taken from the pool in order, and the pool goes round. -/
def ip (r : Group) : CStr := IPPoolAddr.addressAt (r.serial % IPPoolAddr.capacity)

def record (r : Group) : GroupValue where
  numOfPartic := r.partic
  text := strcpy (strcpy GroupValue.malloced.text GroupValue.groupNameAt r.name)
    GroupValue.ipAddGroupAt r.ip

/-- The record's name field reads as `g`: a name of 17 characters runs on into the address. -/
def Reads (r : Group) (g : CStr) : Prop := r.name = g ∧ g.length < DataBase.maxLength

instance (r : Group) (g : CStr) : Decidable (r.Reads g) :=
  inferInstanceAs (Decidable (_ ∧ _))

theorem ip_text (r : Group) : r.ip ≠ [] ∧ 0 ∉ r.ip ∧ r.ip.length ≤ 15 :=
  IPPoolAddr.addressAt_text _ (Nat.mod_lt _ (by decide))

theorem record_text (r : Group) :
    r.record.text = (r.name.1 ++ List.replicate (17 - r.name.1.length) 0) ++
      (r.ip ++ 0 :: List.replicate (16 - r.ip.length) 0) := by
  obtain ⟨hlen, -⟩ := r.name.2
  obtain ⟨-, -, hip⟩ := r.ip_text
  simp only [DataBase.maxLength] at hlen
  have hfirst : GroupValue.malloced.text = [] ++ (List.replicate (r.name.1.length + 1) 0 ++
      List.replicate (33 - r.name.1.length) 0) := by
    rw [List.nil_append, ← List.replicate_add, show r.name.1.length + 1 + (33 - r.name.1.length) =
      34 by omega]
    rfl
  have hname : strcpy GroupValue.malloced.text GroupValue.groupNameAt r.name.1 =
      (r.name.1 ++ [0]) ++ List.replicate (33 - r.name.1.length) 0 := by
    rw [strcpy, hfirst]
    exact store_append [] _ _ _ (by simp)
  have hsecond : (r.name.1 ++ [0]) ++ List.replicate (33 - r.name.1.length) 0 =
      (r.name.1 ++ List.replicate (17 - r.name.1.length) 0) ++
        (List.replicate (r.ip.length + 1) 0 ++ List.replicate (16 - r.ip.length) 0) := by
    rw [List.append_assoc, List.append_assoc, ← List.replicate_add, ← List.replicate_add,
      List.singleton_append, ← List.replicate_succ]
    congr 2
    omega
  have hat : GroupValue.ipAddGroupAt =
      (r.name.1 ++ List.replicate (17 - r.name.1.length) 0).length := by
    simp only [GroupValue.ipAddGroupAt, DataBase.maxLength, List.length_append,
      List.length_replicate]
    omega
  rw [record, hname, hsecond, hat, strcpy, store_append _ _ _ _ (by simp)]
  simp

theorem nameField_record (r : Group) : r.record.nameField = r.name := by
  obtain ⟨hlen, hname⟩ := r.name.2
  simp only [GroupValue.nameField, DataBase.maxLength] at hlen ⊢
  have htake : r.record.text.take 17 = r.name.1 ++ List.replicate (17 - r.name.1.length) 0 := by
    rw [record_text, List.take_left']
    simp only [List.length_append, List.length_replicate]
    omega
  rw [htake]
  by_cases hfull : r.name.1.length = 17
  · simpa [hfull] using text_of_notMem r.name.1 hname
  · obtain ⟨k, hk⟩ : ∃ k, 17 - r.name.1.length = k + 1 := ⟨16 - r.name.1.length, by omega⟩
    rw [hk, List.replicate_succ]
    exact text_append_zero _ _ hname

theorem ipAddGroup_record (r : Group) : r.record.ipAddGroup = r.ip := by
  obtain ⟨hlen, -⟩ := r.name.2
  obtain ⟨-, hip, -⟩ := r.ip_text
  simp only [DataBase.maxLength] at hlen
  have hdrop : r.record.text.drop 17 = r.ip ++ 0 :: List.replicate (16 - r.ip.length) 0 := by
    rw [record_text, List.drop_left']
    simp only [List.length_append, List.length_replicate]
    omega
  change text (r.record.text.drop 17) = r.ip
  rw [hdrop]
  exact text_append_zero _ _ hip

theorem eq_groupName_record (r : Group) (g : GroupName) :
    g.1 = r.record.groupName ↔ r.Reads g := by
  obtain ⟨hlen, hname⟩ := r.name.2
  obtain ⟨hne, hip, -⟩ := r.ip_text
  simp only [DataBase.maxLength] at hlen
  change g.1 = text r.record.text ↔ r.name.1 = g.1 ∧ g.1.length < 17
  rw [record_text]
  by_cases hfull : r.name.1.length = 17
  · have hrun : text ((r.name.1 ++ List.replicate (17 - r.name.1.length) 0) ++
        (r.ip ++ 0 :: List.replicate (16 - r.ip.length) 0)) = r.name.1 ++ r.ip := by
      rw [hfull, Nat.sub_self, List.replicate_zero, List.append_nil,
        text_append_of_notMem _ _ hname, text_append_zero _ _ hip]
    have hg := g.2.1
    have hpos : 0 < r.ip.length := List.length_pos_of_ne_nil hne
    simp only [DataBase.maxLength] at hg
    rw [hrun]
    constructor
    · intro h
      rw [h, List.length_append] at hg
      omega
    · rintro ⟨h, hlt⟩
      rw [← h] at hlt
      omega
  · obtain ⟨k, hk⟩ : ∃ k, 17 - r.name.1.length = k + 1 := ⟨16 - r.name.1.length, by omega⟩
    have hrun : text ((r.name.1 ++ List.replicate (17 - r.name.1.length) 0) ++
        (r.ip ++ 0 :: List.replicate (16 - r.ip.length) 0)) = r.name := by
      rw [hk, List.replicate_succ, List.append_assoc, List.cons_append]
      exact text_append_zero _ _ hname
    rw [hrun]
    constructor
    · intro h
      refine ⟨h.symm, ?_⟩
      rw [h]
      omega
    · rintro ⟨h, -⟩
      exact h.symm

end Group

inductive Call
  | register (name psw : CStr)
  | login (name psw : CStr)
  | create (group : GroupName) (user : CStr) (spare : UInt8)
  | join (group : GroupName) (user : CStr)
  | leave (group : GroupName) (user : CStr) (spare : UInt8)

structure Tables where
  accounts : ℕ → Option Account
  groups : ℕ → Option Group
  created : ℕ

namespace Tables
open DataBase Function

def empty : Tables := ⟨fun _ => none, fun _ => none, 0⟩

def setAccount (t : Tables) (b : ℕ) (a : Account) : Tables :=
  { t with accounts := update t.accounts b (some a) }

def setGroup (t : Tables) (b : ℕ) (r : Group) : Tables :=
  { t with groups := update t.groups b (some r) }

section Fields
variable (t : Tables) (b : ℕ) (a : Account) (r : Group)

@[simp] theorem setAccount_accounts (b' : ℕ) :
    (t.setAccount b a).accounts b' = if b' = b then some a else t.accounts b' := by
  simp only [setAccount, update_apply]

@[simp] theorem setAccount_groups : (t.setAccount b a).groups = t.groups := rfl

@[simp] theorem setAccount_created : (t.setAccount b a).created = t.created := rfl

@[simp] theorem setGroup_groups (b' : ℕ) :
    (t.setGroup b r).groups b' = if b' = b then some r else t.groups b' := by
  simp only [setGroup, update_apply]

@[simp] theorem setGroup_accounts : (t.setGroup b r).accounts = t.accounts := rfl

@[simp] theorem setGroup_created : (t.setGroup b r).created = t.created := rfl

end Fields

/-- The account found through `m_userName` of a group request. The stored keys read from
one byte further to the left, the last of the group name's field. -/
def caller (t : Tables) (user : CStr) (spare : UInt8) : Option Account :=
  if user = [] ∧ spare = 0 then t.accounts (bucketOf []) else none

theorem caller_eq_some {t : Tables} {user : CStr} {spare : UInt8} {a : Account} :
    t.caller user spare = some a ↔ (user = [] ∧ spare = 0) ∧ t.accounts (bucketOf []) = some a := by
  rw [caller]
  split_ifs with h <;> simp [h]

def register (t : Tables) (name psw : CStr) : ℤ × Tables :=
  match t.accounts (bucketOf name) with
  | none => (uniqe, t.setAccount (bucketOf name) ⟨name, psw, []⟩)
  | some _ => (alreadyExist, t)

def login (t : Tables) (name psw : CStr) : DBErr :=
  match t.accounts (bucketOf name) with
  | none => .worngUserName
  | some a => if psw = a.psw then .connectSuccesfully else .worngPsw

def addGroup (t : Tables) (g : GroupName) : Tables :=
  { t.setGroup (bucketOf g) ⟨g, t.created, 1⟩ with created := t.created + 1 }

def updateDetails (t : Tables) (g : GroupName) (user : CStr) (spare : UInt8) : Tables :=
  match t.caller user spare with
  | none => t
  | some a => t.setAccount (bucketOf []) { a with groups := a.groups.insert g }

@[simp] theorem addGroup_accounts (t : Tables) (g : GroupName) :
    (t.addGroup g).accounts = t.accounts := rfl

@[simp] theorem addGroup_created (t : Tables) (g : GroupName) :
    (t.addGroup g).created = t.created + 1 := rfl

@[simp] theorem addGroup_groups (t : Tables) (g : GroupName) (b : ℕ) :
    (t.addGroup g).groups b =
      if b = bucketOf g then some ⟨g, t.created, 1⟩ else t.groups b :=
  t.setGroup_groups _ _ b

@[simp] theorem updateDetails_groups (t : Tables) (g : GroupName) (user : CStr) (spare : UInt8) :
    (t.updateDetails g user spare).groups = t.groups := by
  rw [updateDetails]
  cases t.caller user spare <;> rfl

@[simp] theorem updateDetails_created (t : Tables) (g : GroupName) (user : CStr) (spare : UInt8) :
    (t.updateDetails g user spare).created = t.created := by
  rw [updateDetails]
  cases t.caller user spare <;> rfl

def create (t : Tables) (g : GroupName) (user : CStr) (spare : UInt8) : DBErr × CStr × Tables :=
  match t.groups (bucketOf g) with
  | some _ => (.groupNameAlreadyExist, [], t)
  | none =>
    (.groupSuccessfullyInsert, IPPoolAddr.addressAt (t.created % IPPoolAddr.capacity),
      (t.addGroup g).updateDetails g user spare)

def join (t : Tables) (g : GroupName) : DBErr × CStr × Tables :=
  match t.groups (bucketOf g) with
  | none => (.groupNameNotExist, [], t)
  | some r =>
    if r.Reads g then
      (.groupJoinSuccessfully, r.ip, t.setGroup (bucketOf g) { r with partic := r.partic + 1 })
    else (.groupSuccessfullyInsert, [], t)

def leaveGroup (t : Tables) (g : GroupName) : CStr × Tables :=
  match t.groups (bucketOf g) with
  | none => ([], t)
  | some r =>
    if r.Reads g then (r.ip, t.setGroup (bucketOf g) { r with partic := r.partic - 1 })
    else ([], t)

@[simp] theorem leaveGroup_accounts (t : Tables) (g : GroupName) :
    (t.leaveGroup g).2.accounts = t.accounts := by
  rw [leaveGroup]
  cases t.groups (bucketOf g) with
  | none => rfl
  | some r => by_cases hr : r.Reads g <;> simp [hr]

@[simp] theorem leaveGroup_created (t : Tables) (g : GroupName) :
    (t.leaveGroup g).2.created = t.created := by
  rw [leaveGroup]
  cases t.groups (bucketOf g) with
  | none => rfl
  | some r => by_cases hr : r.Reads g <;> simp [hr]

def leave (t : Tables) (g : GroupName) (user : CStr) (spare : UInt8) : DBErr × CStr × Tables :=
  match t.caller user spare with
  | none => (.groupNameNotExist, [], t)
  | some a =>
    if g.1 ∈ a.groups then
      (.groupRemoveSuccessfully,
        (t.setAccount (bucketOf []) { a with groups := a.groups.erase g }).leaveGroup g)
    else (.groupNameNotExist, [], t)

def next (t : Tables) : Call → Tables
  | .register name psw => (t.register name psw).2
  | .login _ _ => t
  | .create g user spare => (t.create g user spare).2.2
  | .join g _ => (t.join g).2.2
  | .leave g user spare => (t.leave g user spare).2.2

def reply (t : Tables) : Call → Answer
  | .register name psw =>
    ⟨.registerAns, none, ServerApp.registerAnswer (t.register name psw).1⟩
  | .login name psw => ⟨.loginAns, none, ServerApp.loginAnswer (t.login name psw)⟩
  | .create g user spare =>
    ServerApp.groupAnswer ⟨.createGroupConversationAns, some [], none⟩
      (t.create g user spare).2.1 [] [] (t.create g user spare).1
  | .join g _ =>
    ServerApp.groupAnswer ⟨.joinConversationAns, some [], none⟩ [] (t.join g).2.1 []
      (t.join g).1
  | .leave g user spare =>
    ServerApp.groupAnswer ⟨.leaveConversationAns, some [], none⟩ [] []
      (t.leave g user spare).2.1 (t.leave g user spare).1

def Succeeds (t : Tables) : Call → Prop
  | .register name psw => (t.register name psw).1 = uniqe
  | .login name psw => t.login name psw = .connectSuccesfully
  | .create g user spare => (t.create g user spare).1 = .groupSuccessfullyInsert
  | .join g _ => (t.join g).1 = .groupJoinSuccessfully
  | .leave g user spare => (t.leave g user spare).1 = .groupRemoveSuccessfully

end Tables
end ChatProject
