import ChatProject.Requests

/-!
# What the tables owe to the requests of a run

The account of a bucket keeps the name and the password of the first registration that
falls into the bucket, and the group of a bucket the name of the first creation.
-/

namespace ChatProject
open Memory

def Account.credentials (a : Account) : CStr × CStr := (a.name, a.psw)

def Group.identity (r : Group) : CStr × ℕ := (r.name, r.serial)

namespace Request

def accountFor (b : ℕ) : Request → Option (CStr × CStr)
  | register name psw => if bucketOf name.str = b then some (name.str, psw.str) else none
  | _ => none

def groupFor (b : ℕ) : Request → Option CStr
  | create group _ => if bucketOf group.str = b then some group.str else none
  | _ => none

end Request

def firstAccount (rs : List Request) (b : ℕ) : Option (CStr × CStr) :=
  rs.findSome? (Request.accountFor b)

def firstGroup (rs : List Request) (b : ℕ) : Option CStr :=
  rs.findSome? (Request.groupFor b)

namespace Tables

theorem updateDetails_credentials (t : Tables) (g : GroupName) (user : CStr) (spare : UInt8)
    (b : ℕ) : ((t.updateDetails g user spare).accounts b).map Account.credentials =
      (t.accounts b).map Account.credentials := by
  rw [updateDetails]
  cases hc : t.caller user spare with
  | none => rfl
  | some a =>
    by_cases hb : b = bucketOf []
    · simp [hb, (caller_eq_some.mp hc).2, Account.credentials]
    · simp [hb]

theorem next_credentials (t : Tables) (r : Request) (b : ℕ) :
    ((t.next r.call).accounts b).map Account.credentials =
      ((t.accounts b).map Account.credentials).or (r.accountFor b) := by
  cases r with
  | register name psw =>
    cases ha : t.accounts (bucketOf name.str) with
    | none =>
      by_cases hb : b = bucketOf name.str
      · simp [next, Request.call, register, ha, hb, Request.accountFor, Account.credentials]
      · simp [next, Request.call, register, ha, hb, Request.accountFor, Ne.symm hb]
    | some a =>
      by_cases hb : b = bucketOf name.str
      · simp [next, Request.call, register, ha, hb]
      · simp [next, Request.call, register, ha, Request.accountFor, Ne.symm hb]
  | login name psw => simp [next, Request.call, Request.accountFor]
  | create group user =>
    cases hg : t.groups (bucketOf group.str) with
    | none =>
      simp [next, Request.call, create, hg, updateDetails_credentials, Request.accountFor]
    | some g => simp [next, Request.call, create, hg, Request.accountFor]
  | join group user =>
    cases hg : t.groups (bucketOf group.str) with
    | none => simp [next, Request.call, join, hg, Request.accountFor]
    | some g =>
      by_cases hr : g.Reads group.str <;>
        simp [next, Request.call, join, hg, hr, Request.accountFor]
  | leave group user =>
    cases hc : t.caller user.str group.last with
    | none => simp [next, Request.call, leave, hc, Request.accountFor]
    | some a =>
      by_cases hm : group.str ∈ a.groups
      · by_cases hb : b = bucketOf []
        · simp [next, Request.call, leave, hc, hm, hb, (caller_eq_some.mp hc).2,
            Request.accountFor, Account.credentials]
        · simp [next, Request.call, leave, hc, hm, hb, Request.accountFor]
      · simp [next, Request.call, leave, hc, hm, Request.accountFor]

theorem leaveGroup_identity (t : Tables) (g : GroupName) (b : ℕ) :
    ((t.leaveGroup g).2.groups b).map Group.identity = (t.groups b).map Group.identity := by
  rw [leaveGroup]
  cases hg : t.groups (bucketOf g) with
  | none => rfl
  | some r =>
    by_cases hr : r.Reads g
    · by_cases hb : b = bucketOf g
      · simp [hr, hb, hg, Group.identity]
      · simp [hr, hb]
    · simp [hr]

theorem next_identity (t : Tables) (r : Request) (b : ℕ) :
    ((t.next r.call).groups b).map Group.identity =
      ((t.groups b).map Group.identity).or ((r.groupFor b).map fun g => (g, t.created)) := by
  cases r with
  | register name psw =>
    cases ha : t.accounts (bucketOf name.str) <;>
      simp [next, Request.call, register, ha, Request.groupFor]
  | login name psw => simp [next, Request.call, Request.groupFor]
  | create group user =>
    cases hg : t.groups (bucketOf group.str) with
    | none =>
      by_cases hb : b = bucketOf group.str
      · simp [next, Request.call, create, hb, hg, Request.groupFor, Group.identity]
      · simp [next, Request.call, create, hb, hg, Request.groupFor, Ne.symm hb]
    | some g =>
      by_cases hb : b = bucketOf group.str
      · simp [next, Request.call, create, hb, hg]
      · simp [next, Request.call, create, hg, Request.groupFor, Ne.symm hb]
  | join group user =>
    cases hg : t.groups (bucketOf group.str) with
    | none => simp [next, Request.call, join, hg, Request.groupFor]
    | some g =>
      by_cases hr : g.Reads group.str
      · by_cases hb : b = bucketOf group.str
        · simp [next, Request.call, join, hg, hr, hb, Request.groupFor, Group.identity]
        · simp [next, Request.call, join, hg, hr, hb, Request.groupFor]
      · simp [next, Request.call, join, hg, hr, Request.groupFor]
  | leave group user =>
    cases hc : t.caller user.str group.last with
    | none => simp [next, Request.call, leave, hc, Request.groupFor]
    | some a =>
      by_cases hm : group.str ∈ a.groups <;>
        simp [next, Request.call, leave, hc, hm, leaveGroup_identity, Request.groupFor]

theorem next_names (t : Tables) (r : Request) (b : ℕ) :
    ((t.next r.call).groups b).map (fun g => g.name.1) =
      ((t.groups b).map (fun g => g.name.1)).or (r.groupFor b) := by
  have h := congrArg (Option.map Prod.fst) (next_identity t r b)
  simpa [Option.map_or, Function.comp_def, Group.identity] using h

theorem credentials_after (rs : List Request) (b : ℕ) :
    ((after rs).accounts b).map Account.credentials = firstAccount rs b :=
  Run.findSome_after (fun t => (t.accounts b).map Account.credentials) (Request.accountFor b)
    (fun t r => next_credentials t r b) empty rs

theorem names_after (rs : List Request) (b : ℕ) :
    ((after rs).groups b).map (fun g => g.name.1) = firstGroup rs b :=
  Run.findSome_after (fun t => (t.groups b).map (fun g => g.name.1)) (Request.groupFor b)
    (fun t r => next_names t r b) empty rs

end Tables

/-! ## Answers, in terms of the requests before them -/

namespace Server
open Protocol

theorem register_success_iff (p : ℕ → ℕ) (rs : List Request) (name psw : Field 17) :
    answerTo p rs (.register name psw) = some (.registerAns, some .registerSuccess) ↔
      firstAccount rs (bucketOf name.str) = none := by
  rw [answerTo_eq, ← Tables.credentials_after]
  cases ha : (Tables.after rs).accounts (bucketOf name.str) <;>
    simp [Tables.reply, Request.call, Tables.register, ha, ServerApp.registerAnswer,
      DataBase.uniqe, DataBase.alreadyExist]

theorem login_connected_iff (p : ℕ → ℕ) (rs : List Request) (name psw : Field 17) :
    answerTo p rs (.login name psw) = some (.loginAns, some .loginUserSuccessfullyConnected) ↔
      ∃ n, firstAccount rs (bucketOf name.str) = some (n, psw.str) := by
  rw [answerTo_eq, ← Tables.credentials_after]
  cases ha : (Tables.after rs).accounts (bucketOf name.str) with
  | none => simp [Tables.reply, Request.call, Tables.login, ha, ServerApp.loginAnswer]
  | some a =>
    by_cases hp : psw.str = a.psw
    · simp [Tables.reply, Request.call, Tables.login, ha, ServerApp.loginAnswer, hp,
        Account.credentials]
    · simp [Tables.reply, Request.call, Tables.login, ha, ServerApp.loginAnswer, hp,
        Account.credentials, Ne.symm hp]

theorem create_success_iff (p : ℕ → ℕ) (rs : List Request) (group : Field 18) (user : Field 17) :
    answerTo p rs (.create group user) =
        some (.createGroupConversationAns, some .groupSuccessfullyInsert) ↔
      firstGroup rs (bucketOf group.str) = none := by
  rw [answerTo_eq, ← Tables.names_after]
  cases hg : (Tables.after rs).groups (bucketOf group.str) <;>
    simp [Tables.reply, Request.call, Tables.create, hg, ServerApp.groupAnswer]

/-- A registration of the name with the password was answered `REGISTER_SUCCESS`. -/
def RegisteredWith (p : ℕ → ℕ) (rs : List Request) (n w : CStr) : Prop :=
  ∃ pre name psw, Run.Occurs rs pre (.register name psw) ∧ name.str = n ∧ psw.str = w ∧
    answerTo p pre (.register name psw) = some (.registerAns, some .registerSuccess)

def Created (p : ℕ → ℕ) (rs : List Request) (g : CStr) : Prop :=
  ∃ pre group user, Run.Occurs rs pre (.create group user) ∧ group.str = g ∧
    answerTo p pre (.create group user) =
      some (.createGroupConversationAns, some .groupSuccessfullyInsert)

theorem registeredWith_iff (p : ℕ → ℕ) (rs : List Request) (n w : CStr) :
    RegisteredWith p rs n w ↔ firstAccount rs (bucketOf n) = some (n, w) := by
  rw [firstAccount, Run.findSome_eq_some_iff]
  constructor
  · rintro ⟨pre, name, psw, hocc, rfl, rfl, hans⟩
    exact ⟨pre, _, hocc, by simp [Request.accountFor], (register_success_iff ..).mp hans⟩
  · rintro ⟨pre, r, hocc, hr, hnone⟩
    cases r with
    | register name psw =>
      have hr' : bucketOf name.str = bucketOf n ∧ name.str = n ∧ psw.str = w := by
        simpa [Request.accountFor] using hr
      obtain ⟨-, rfl, rfl⟩ := hr'
      exact ⟨pre, name, psw, hocc, rfl, rfl, (register_success_iff ..).mpr hnone⟩
    | _ => simp [Request.accountFor] at hr

theorem created_iff (p : ℕ → ℕ) (rs : List Request) (g : CStr) :
    Created p rs g ↔ firstGroup rs (bucketOf g) = some g := by
  rw [firstGroup, Run.findSome_eq_some_iff]
  constructor
  · rintro ⟨pre, group, user, hocc, rfl, hans⟩
    exact ⟨pre, _, hocc, by simp [Request.groupFor], (create_success_iff ..).mp hans⟩
  · rintro ⟨pre, r, hocc, hr, hnone⟩
    cases r with
    | create group user =>
      have hr' : bucketOf group.str = bucketOf g ∧ group.str = g := by
        simpa [Request.groupFor] using hr
      obtain ⟨-, rfl⟩ := hr'
      exact ⟨pre, group, user, hocc, rfl, (create_success_iff ..).mpr hnone⟩
    | _ => simp [Request.groupFor] at hr

end Server
end ChatProject
