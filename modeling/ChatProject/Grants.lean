import ChatProject.GroupAddresses
import ChatProject.Sessions

/-!
# What the server grants

Names that are typed are never empty, and with a name the server never finds the account of a
caller: no account records a group, and no leave is granted. What a session has been granted
stays true of the tables, whatever the other sessions do.
-/

namespace ChatProject
open Memory Protocol Run Function Linearizability ChatWindow

/-! ## The tables only grow -/

namespace Tables

structure Grows (t t' : Tables) : Prop where
  accounts : ∀ b a, t.accounts b = some a → t'.accounts b = some a
  groups : ∀ b r, t.groups b = some r →
    ∃ r', t'.groups b = some r' ∧ r'.identity = r.identity ∧ r.partic ≤ r'.partic
  created : t.created ≤ t'.created

theorem Grows.refl (t : Tables) : t.Grows t where
  accounts := fun _ _ h => h
  groups := fun _ r h => ⟨r, h, rfl, le_refl _⟩
  created := Nat.le_refl _

theorem Grows.trans {t t' t'' : Tables} (h : t.Grows t') (h' : t'.Grows t'') : t.Grows t'' where
  accounts := fun b a ha => h'.accounts b a (h.accounts b a ha)
  groups := by
    intro b r hr
    obtain ⟨r', hr', hid, hle⟩ := h.groups b r hr
    obtain ⟨r'', hr'', hid', hle'⟩ := h'.groups b r' hr'
    exact ⟨r'', hr'', hid'.trans hid, hle.trans hle'⟩
  created := h.created.trans h'.created

theorem Grows.setGroup {t t' : Tables} (h : t.Grows t') {b : ℕ} {r : Group}
    (hr : ∀ r₀, t.groups b = some r₀ → r.identity = r₀.identity ∧ r₀.partic ≤ r.partic) :
    t.Grows (t'.setGroup b r) where
  accounts := h.accounts
  groups := by
    intro b' r₀ hr₀
    rw [setGroup_groups]
    split_ifs with hb
    · subst hb
      exact ⟨r, rfl, hr r₀ hr₀⟩
    · exact h.groups b' r₀ hr₀
  created := h.created

theorem register_grows (t : Tables) (name psw : CStr) : t.Grows (t.register name psw).2 := by
  rw [register]
  cases ha : t.accounts (bucketOf name) with
  | some a => exact .refl t
  | none =>
    refine ⟨?_, (Grows.refl t).groups, Nat.le_refl _⟩
    intro b a hb
    rw [setAccount_accounts, if_neg, hb]
    rintro rfl
    rw [ha] at hb
    cases hb

theorem join_grows (t : Tables) (g : GroupName) : t.Grows (t.join g).2.2 := by
  rw [join]
  cases hg : t.groups (bucketOf g) with
  | none => exact .refl t
  | some r =>
    by_cases hr : r.Reads g
    · simp only [hr, if_true]
      refine (Grows.refl t).setGroup ?_
      intro r₀ hr₀
      obtain rfl := Option.some.inj (hg.symm.trans hr₀)
      exact ⟨rfl, Int.le_add_of_nonneg_right (by decide)⟩
    · simp only [hr, if_false]
      exact .refl t

/-! With a user's name no account is found, and so no account changes. -/

section NamedCaller
variable {t : Tables} {user : CStr} (h : user ≠ []) (g : GroupName) (spare : UInt8)
include h

theorem caller_of_ne : t.caller user spare = none := by
  rw [caller, if_neg fun hc => h hc.1]

theorem updateDetails_of_ne : t.updateDetails g user spare = t := by
  rw [updateDetails, caller_of_ne h]

theorem leave_of_ne : t.leave g user spare = (.groupNameNotExist, [], t) := by
  rw [leave, caller_of_ne h]

theorem create_grows : t.Grows (t.create g user spare).2.2 := by
  rw [create]
  cases hg : t.groups (bucketOf g) with
  | some r => exact .refl t
  | none =>
    simp only [updateDetails_of_ne h]
    have hset : t.Grows (t.setGroup (bucketOf g) ⟨g, t.created, 1⟩) := by
      refine (Grows.refl t).setGroup ?_
      intro r₀ hr₀
      rw [hg] at hr₀
      cases hr₀
    exact ⟨hset.accounts, hset.groups, Nat.le_succ _⟩

end NamedCaller

/-- The server has the group under the name, with the address. -/
def Granted (t : Tables) (groupIP groupName : CStr) : Prop :=
  ∃ r, t.groups (bucketOf groupName) = some r ∧ r.name.1 = groupName ∧ r.ip = groupIP

theorem Granted.grow {t t' : Tables} {groupIP groupName : CStr} (h : t.Granted groupIP groupName)
    (hg : t.Grows t') : t'.Granted groupIP groupName := by
  obtain ⟨r, hr, hname, hip⟩ := h
  obtain ⟨r', hr', hid, -⟩ := hg.groups _ r hr
  have hname' : r'.name.1 = r.name.1 := congrArg Prod.fst hid
  have hserial : r'.serial = r.serial := congrArg Prod.snd hid
  exact ⟨r', hr', hname'.trans hname, by rw [← hip, Group.ip, Group.ip, hserial]⟩

/-- In the bucket of the name is a group that a join under this name does not find. -/
def Hidden (t : Tables) (groupName : CStr) : Prop :=
  ∃ r, t.groups (bucketOf groupName) = some r ∧ ¬ r.Reads groupName

theorem Hidden.grow {t t' : Tables} {groupName : CStr} (h : t.Hidden groupName)
    (hg : t.Grows t') : t'.Hidden groupName := by
  obtain ⟨r, hr, hreads⟩ := h
  obtain ⟨r', hr', hid, -⟩ := hg.groups _ r hr
  have hname' : r'.name = r.name := Subtype.ext (congrArg Prod.fst hid)
  exact ⟨r', hr', fun hr' => hreads ⟨hname' ▸ hr'.1, hr'.2⟩⟩

theorem Granted.same {t : Tables} {ip ip' groupName : CStr} (h : t.Granted ip groupName)
    (h' : t.Granted ip' groupName) : ip = ip' := by
  obtain ⟨r, hr, -, hip⟩ := h
  obtain ⟨r', hr', -, hip'⟩ := h'
  rw [hr] at hr'
  rw [← hip, ← hip', Option.some.inj hr']

/-- No name has the address of another while no address has been given twice. -/
theorem Granted.name {t : Tables} (hser : t.SerialsDistinct)
    (hfew : t.created ≤ IPPoolAddr.capacity) {ip groupName groupName' : CStr}
    (h : t.Granted ip groupName) (h' : t.Granted ip groupName') : groupName = groupName' := by
  obtain ⟨r, hr, hname, hip⟩ := h
  obtain ⟨r', hr', hname', hip'⟩ := h'
  have hlt := (hser.lt _ r hr).trans_le hfew
  have hlt' := (hser.lt _ r' hr').trans_le hfew
  rw [← hip', Group.ip, Group.ip, Nat.mod_eq_of_lt hlt, Nat.mod_eq_of_lt hlt'] at hip
  have hbucket := hser.inj _ _ r r' hr hr' (IPPoolAddr.addressAt_injOn hlt hlt' hip)
  rw [hbucket, hr'] at hr
  rw [← hname, ← hname', Option.some.inj hr]

theorem Granted.pool {t : Tables} {ip groupName : CStr} (h : t.Granted ip groupName) :
    ∃ k < IPPoolAddr.capacity, ip = IPPoolAddr.addressAt k := by
  obtain ⟨r, -, -, hip⟩ := h
  exact ⟨r.serial % IPPoolAddr.capacity, Nat.mod_lt _ (by decide), hip.symm⟩

end Tables

/-! ## What an answer tells a session -/

/-- The user that the interface acts for, once it has accepted a name. -/
def Screen.holder : Screen → Option (TypedName 17)
  | .loginOffer name _ | .menu name | .groupToCreate name | .groupToJoin name
  | .groupToExitFrom name => some name
  | .waiting (.create name _) | .waiting (.join name _) | .waiting (.leave name _) => some name
  | _ => none

/-- The password is that of the account that the server takes for the user's. -/
def Tables.Password (t : Tables) (userName psw : TypedName 17) : Prop :=
  ∃ a, t.accounts (bucketOf userName.val) = some a ∧ a.psw = psw.val

theorem Tables.Password.grow {t t' : Tables} {userName psw : TypedName 17}
    (h : t.Password userName psw) (hg : t.Grows t') : t'.Password userName psw := by
  obtain ⟨a, ha, hpsw⟩ := h
  exact ⟨a, hg.accounts _ a ha, hpsw⟩

/-- What the tables hold when the call is answered so. -/
def Confirms (t : Tables) (d : Decoded) : Operation → Prop
  | .register userName psw => d.answer = Answers.registerSuccess.code → t.Password userName psw
  | .logIn userName psw =>
    d.answer = Answers.loginUserSuccessfullyConnected.code → t.Password userName psw
  | .create _ groupName =>
    d.answer = Answers.groupSuccessfullyInsert.code ∧
        t.Granted (d.groupIP.getD []) groupName.val ∨
      d.answer = Answers.groupNameAlreadyExist.code
  | .join _ groupName =>
    d.answer = Answers.groupSuccessfullyJoin.code ∧
        t.Granted (d.groupIP.getD []) groupName.val ∨
      d.answer = Answers.groupNameNotExist.code ∨
      d.answer = Answers.groupSuccessfullyInsert.code ∧ t.Hidden groupName.val
  | .leave .. => d.answer = ByteOrder.htonl .little Answers.groupNameNotExist.code

theorem Confirms.grow {t t' : Tables} {d : Decoded} {op : Operation} (h : Confirms t d op)
    (hg : t.Grows t') : Confirms t' d op := by
  cases op with
  | register userName psw => exact fun hd => (h hd).grow hg
  | logIn userName psw => exact fun hd => (h hd).grow hg
  | create userName groupName => exact h.imp_left fun hd => ⟨hd.1, hd.2.grow hg⟩
  | join userName groupName =>
    rcases h with hd | hd | hd
    · exact .inl ⟨hd.1, hd.2.grow hg⟩
    · exact .inr (.inl hd)
    · exact .inr (.inr ⟨hd.1, hd.2.grow hg⟩)
  | leave userName groupName => exact h

def TypedName.groupName (s : TypedName 18) : GroupName :=
  ⟨s.val, Nat.le_of_lt_succ s.short, s.zero⟩

section Reply
variable (user : Block sizeofUserDetails) (group : Block sizeofGroupDetails)

theorem call_register (userName psw : TypedName 17) :
    (Operation.call user group (.register userName psw)).request.call =
      .register userName.val psw.val := by
  simp [Operation.call, ClientCall.request, Request.call, Field.str_filled, TypedName.text]

theorem call_logIn (userName psw : TypedName 17) :
    (Operation.call user group (.logIn userName psw)).request.call =
      .login userName.val psw.val := by
  simp [Operation.call, ClientCall.request, Request.call, Field.str_filled, TypedName.text]

theorem groupName_filled (groupName : TypedName 18) :
    (Field.filled group groupGroupName (by decide) groupName.text).groupName =
      groupName.groupName :=
  Subtype.ext (Field.str_filled _ _ _ _)

theorem call_create (userName : TypedName 17) (groupName : TypedName 18) :
    ∃ spare, (Operation.call user group (.create userName groupName)).request.call =
      .create groupName.groupName userName.val spare := by
  refine ⟨(Field.filled group groupGroupName (by decide) groupName.text).last, ?_⟩
  rw [Operation.call, ClientCall.request, Request.call, groupName_filled, Field.str_filled]
  rfl

theorem call_join (userName : TypedName 17) (groupName : TypedName 18) :
    (Operation.call user group (.join userName groupName)).request.call =
      .join groupName.groupName userName.val := by
  rw [Operation.call, ClientCall.request, Request.call, groupName_filled, Field.str_filled]
  rfl

theorem call_leave (userName : TypedName 17) (groupName : TypedName 18) :
    ∃ g spare, (Operation.call user group (.leave userName groupName)).request.call =
      .leave g userName.val spare := by
  let f := (Field.filled group groupGroupName (by decide) groupName.text).swap
  refine ⟨f.groupName, f.last, ?_⟩
  rw [Operation.call, ClientCall.request, Request.call, Field.str_filled]
  rfl

variable (t : Tables)

theorem confirms_create (userName : TypedName 17) (groupName : TypedName 18) :
    Confirms (tablesObject.next t (Operation.call user group (.create userName groupName)))
      (tablesObject.reply t (Operation.call user group (.create userName groupName)))
      (.create userName groupName) := by
  obtain ⟨spare, hcall⟩ := call_create user group userName groupName
  simp only [Confirms, tablesObject, hcall]
  cases hg : t.groups (bucketOf groupName.val) with
  | some r =>
    have hg' : t.groups (bucketOf groupName.groupName.1) = some r := hg
    simp only [Tables.reply, Tables.create, hg', ServerApp.groupAnswer]
    exact .inr rfl
  | none =>
    have hg' : t.groups (bucketOf groupName.groupName.1) = none := hg
    simp only [Tables.next, Tables.reply, Tables.create, hg', ServerApp.groupAnswer]
    refine .inl ⟨rfl, ⟨groupName.groupName, t.created, 1⟩, ?_, rfl, rfl⟩
    rw [Tables.updateDetails_groups, Tables.addGroup_groups]
    exact if_pos rfl

theorem confirms_join (userName : TypedName 17) (groupName : TypedName 18) :
    Confirms (tablesObject.next t (Operation.call user group (.join userName groupName)))
      (tablesObject.reply t (Operation.call user group (.join userName groupName)))
      (.join userName groupName) := by
  have hcall := call_join user group userName groupName
  simp only [Confirms, tablesObject, hcall]
  cases hg : t.groups (bucketOf groupName.val) with
  | none =>
    have hg' : t.groups (bucketOf groupName.groupName.1) = none := hg
    simp only [Tables.reply, Tables.join, hg', ServerApp.groupAnswer]
    exact .inr (.inl rfl)
  | some r =>
    have hg' : t.groups (bucketOf groupName.groupName.1) = some r := hg
    by_cases hr : r.Reads groupName.groupName.1
    · simp only [Tables.next, Tables.reply, Tables.join, hg', hr, if_true, ServerApp.groupAnswer]
      refine .inl ⟨rfl, { r with partic := r.partic + 1 }, ?_, hr.1, rfl⟩
      rw [Tables.setGroup_groups]
      exact if_pos rfl
    · simp only [Tables.next, Tables.reply, Tables.join, hg', hr, if_false, ServerApp.groupAnswer]
      exact .inr (.inr ⟨rfl, r, hg, hr⟩)

theorem next_create (userName : TypedName 17) (groupName : TypedName 18) :
    t.Grows (tablesObject.next t (Operation.call user group (.create userName groupName))) := by
  obtain ⟨spare, hcall⟩ := call_create user group userName groupName
  simp only [tablesObject, hcall]
  exact Tables.create_grows userName.nonempty _ _

theorem next_leave (userName : TypedName 17) (groupName : TypedName 18) :
    tablesObject.next t (Operation.call user group (.leave userName groupName)) = t := by
  obtain ⟨g, spare, hcall⟩ := call_leave user group userName groupName
  simp only [tablesObject, hcall, Tables.next, Tables.leave_of_ne userName.nonempty]

theorem confirms_leave (userName : TypedName 17) (groupName : TypedName 18) :
    Confirms t (tablesObject.reply t (Operation.call user group (.leave userName groupName)))
      (.leave userName groupName) := by
  obtain ⟨g, spare, hcall⟩ := call_leave user group userName groupName
  simp only [Confirms, tablesObject, hcall, Tables.reply, Tables.leave_of_ne userName.nonempty,
    ServerApp.groupAnswer]
  rfl

theorem confirms_register (userName psw : TypedName 17) :
    Confirms (tablesObject.next t (Operation.call user group (.register userName psw)))
      (tablesObject.reply t (Operation.call user group (.register userName psw)))
      (.register userName psw) := by
  intro hd
  simp only [tablesObject, call_register] at hd ⊢
  cases ha : t.accounts (bucketOf userName.val) with
  | some a =>
    simp only [Tables.reply, Tables.register, ha] at hd
    have hcode : Answers.registerUserNameAllreadyExist.code = Answers.registerSuccess.code := hd
    exact absurd hcode (by decide)
  | none =>
    simp only [Tables.next, Tables.register, ha]
    refine ⟨⟨userName.val, psw.val, []⟩, ?_, rfl⟩
    rw [Tables.setAccount_accounts, if_pos rfl]

theorem confirms_logIn (userName psw : TypedName 17) :
    Confirms t (tablesObject.reply t (Operation.call user group (.logIn userName psw)))
      (.logIn userName psw) := by
  intro hd
  simp only [tablesObject, call_logIn] at hd
  cases ha : t.accounts (bucketOf userName.val) with
  | none =>
    simp only [Tables.reply, Tables.login, ha] at hd
    have hcode : Answers.loginUserNameNotExist.code =
      Answers.loginUserSuccessfullyConnected.code := hd
    exact absurd hcode (by decide)
  | some a =>
    by_cases hpsw : psw.val = a.psw
    · exact ⟨a, ha, hpsw.symm⟩
    · simp only [Tables.reply, Tables.login, ha, hpsw, if_false] at hd
      have hcode : Answers.loginWrongPsw.code = Answers.loginUserSuccessfullyConnected.code := hd
      exact absurd hcode (by decide)

variable {t} in
theorem reply_register {userName psw : TypedName 17}
    (h : t.accounts (bucketOf userName.val) = none) :
    (tablesObject.reply t (Operation.call user group (.register userName psw))).answer =
      Answers.registerSuccess.code := by
  simp only [tablesObject, call_register, Tables.reply, Tables.register, h]
  rfl

variable {t} in
theorem reply_create (userName : TypedName 17) {groupName : TypedName 18}
    (h : t.groups (bucketOf groupName.val) = none) :
    ∃ ip, (tablesObject.reply t (Operation.call user group (.create userName groupName))).answer =
        Answers.groupSuccessfullyInsert.code ∧
      (tablesObject.reply t (Operation.call user group (.create userName groupName))).groupIP =
        some ip ∧
      (tablesObject.next t (Operation.call user group (.create userName groupName))).Granted ip
        groupName.val := by
  obtain ⟨spare, hcall⟩ := call_create user group userName groupName
  have h' : t.groups (bucketOf groupName.groupName.1) = none := h
  simp only [tablesObject, hcall, Tables.next, Tables.reply, Tables.create, h',
    ServerApp.groupAnswer]
  refine ⟨_, rfl, rfl, ⟨groupName.groupName, t.created, 1⟩, ?_, rfl, rfl⟩
  rw [Tables.updateDetails_groups, Tables.addGroup_groups]
  exact if_pos rfl

variable {t} in
theorem reply_join (userName : TypedName 17) {groupName : TypedName 18} {ip : CStr}
    (hshort : groupName.val.length < 17) (h : t.Granted ip groupName.val) :
    (tablesObject.reply t (Operation.call user group (.join userName groupName))).answer =
        Answers.groupSuccessfullyJoin.code ∧
      (tablesObject.reply t (Operation.call user group (.join userName groupName))).groupIP =
        some ip := by
  obtain ⟨r, hr, hname, hip⟩ := h
  have hcall := call_join user group userName groupName
  have hr' : t.groups (bucketOf groupName.groupName.1) = some r := hr
  have hreads : r.Reads groupName.groupName.1 := ⟨hname, hshort⟩
  simp only [tablesObject, hcall, Tables.reply, Tables.join, hr', hreads, if_true,
    ServerApp.groupAnswer]
  exact ⟨rfl, congrArg some hip⟩

theorem next_grows (op : Operation) : t.Grows (tablesObject.next t (op.call user group)) := by
  cases op with
  | register userName psw =>
    simp only [tablesObject, call_register]
    exact t.register_grows _ _
  | logIn userName psw =>
    simp only [tablesObject, call_logIn]
    exact .refl t
  | create userName groupName => exact next_create user group t userName groupName
  | join userName groupName =>
    simp only [tablesObject, call_join]
    exact t.join_grows _
  | leave userName groupName =>
    rw [next_leave]
    exact .refl t

theorem confirms_reply (op : Operation) :
    Confirms (tablesObject.next t (op.call user group)) (tablesObject.reply t (op.call user group))
      op := by
  cases op with
  | register userName psw => exact confirms_register user group t userName psw
  | logIn userName psw =>
    exact (confirms_logIn user group t userName psw).grow (next_grows user group t _)
  | create userName groupName => exact confirms_create user group t userName groupName
  | join userName groupName => exact confirms_join user group t userName groupName
  | leave userName groupName =>
    exact (confirms_leave user group t userName groupName).grow (next_grows user group t _)

def Tables.Ungrouped (t : Tables) : Prop := ∀ b a, t.accounts b = some a → a.groups = []

theorem next_ungrouped {t : Tables} (h : t.Ungrouped) (op : Operation) :
    (tablesObject.next t (op.call user group)).Ungrouped := by
  cases op with
  | register userName psw =>
    simp only [tablesObject, call_register, Tables.next, Tables.register]
    cases ha : t.accounts (bucketOf userName.val) with
    | some a => exact h
    | none =>
      intro b a hb
      rw [Tables.setAccount_accounts] at hb
      split_ifs at hb
      · rw [← Option.some.inj hb]
      · exact h b a hb
  | logIn userName psw =>
    simp only [tablesObject, call_logIn]
    exact h
  | create userName groupName =>
    obtain ⟨spare, hcall⟩ := call_create user group userName groupName
    simp only [tablesObject, hcall, Tables.next, Tables.create]
    cases t.groups (bucketOf groupName.groupName) with
    | some r => exact h
    | none =>
      simp only [Tables.updateDetails_of_ne userName.nonempty]
      exact h
  | join userName groupName =>
    simp only [tablesObject, call_join, Tables.next, Tables.join]
    cases t.groups (bucketOf groupName.groupName) with
    | none => exact h
    | some r =>
      by_cases hr : r.Reads groupName.groupName
      · simp only [hr, if_true]
        exact h
      · simp only [hr, if_false]
        exact h
  | leave userName groupName =>
    rw [next_leave]
    exact h

end Reply
end ChatProject
