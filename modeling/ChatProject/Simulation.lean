import ChatProject.NameSet
import ChatProject.Tables
import Mathlib.Data.List.Forall2

/-!
# The database refines the tables

With allocations succeeding every operation of the database returns what the tables say
and leaves a database that refines the tables that follow. What the operations read of
the receive buffer is given by the strings in it.
-/

namespace ChatProject
open Memory HashMap Protocol DataBase

/-- A user's entry: its key points to the name field of a user request, and the stored
status is never changed. -/
structure AccountEntry (e : DataItem CharPtr UserValue) (a : Account) : Prop where
  key : e.key = .rcv userUserName
  status : e.value.status = disconnect
  psw : e.value.psw = a.psw
  groups : Holds e.value.myGroups a.groups

def groupEntry (r : Group) : DataItem CharPtr GroupValue := ⟨r.record, .rcv groupGroupName⟩

structure Refines (db : DataBase) (t : Tables) : Prop where
  users : StringMap db.userNames
  account : ∀ b, List.Forall₂ AccountEntry (db.userNames.bucket b) (t.accounts b).toList
  groupMap : StringMap db.groupNames
  group : ∀ b, db.groupNames.bucket b = (t.groups b).toList.map groupEntry
  pool : db.addIPPool = IPPoolAddr.taken t.created
  size : db.groupNames.numOfItems = sizeT t.created

theorem createMainDataBase_succeeding (p : ℕ → ℕ) :
    ∃ db p', createMainDataBase (Heap.succeeding p) = (some db, Heap.succeeding p') ∧
      Refines db Tables.empty := by
  have husers : createUserDataBase (Heap.succeeding fun n => p (n + 1)) =
      (some freshStrings, Heap.succeeding fun n => p (n + 2 + 1 + 1)) := by
    rw [createUserDataBase, if_neg (by simp)]
    exact create_strings_succeeding _
  have hgroups : createGroupsDataBase (Heap.succeeding fun n => p (n + 2 + 1 + 1)) =
      (some freshStrings, Heap.succeeding fun n => p (n + 2 + 1 + 2 + 1 + 1)) := by
    rw [createGroupsDataBase, if_neg (by simp)]
    exact create_strings_succeeding _
  obtain ⟨p', hpool⟩ :=
    IPPoolAddr.createIPMultecaste_succeeding (fun n => p (n + 2 + 1 + 2 + 1 + 1))
  refine ⟨⟨freshStrings, freshStrings, IPPoolAddr.taken 0⟩, p', ?_, ?_⟩
  · simp [createMainDataBase, husers, hgroups, hpool]
  · exact {
      users := freshStrings_map
      account := fun b => by simp [bucket_fresh, Tables.empty]
      groupMap := freshStrings_map
      group := fun b => by simp [bucket_fresh, Tables.empty]
      pool := rfl
      size := rfl }

namespace Refines
variable {db : DataBase} {t : Tables} {buf : Bytes}

theorem bucket_of_none (h : Refines db t) {b : ℕ} (hb : t.accounts b = none) :
    db.userNames.bucket b = [] := by
  have ha := h.account b
  rw [hb, Option.toList_none] at ha
  exact List.forall₂_nil_right_iff.mp ha

theorem bucket_of_some (h : Refines db t) {b : ℕ} {a : Account} (hb : t.accounts b = some a) :
    ∃ e, db.userNames.bucket b = [e] ∧ AccountEntry e a := by
  have ha := h.account b
  rw [hb, Option.toList_some] at ha
  obtain ⟨e, es, he, hnil, hes⟩ := List.forall₂_cons_right_iff.mp ha
  rw [List.forall₂_nil_right_iff.mp hnil] at hes
  exact ⟨e, hes, he⟩

theorem setAccount (h : Refines db t) {users : HashMap Bytes CharPtr UserValue}
    (hu : StringMap users) {b : ℕ} {a : Account} {e : DataItem CharPtr UserValue}
    (he : AccountEntry e a)
    (hb : ∀ b', users.bucket b' = if b' = b then [e] else db.userNames.bucket b') :
    Refines { db with userNames := users } (t.setAccount b a) where
  users := hu
  account := by
    intro b'
    rw [hb, Tables.setAccount]
    by_cases hbb : b' = b
    · subst hbb
      simpa using he
    · simpa [hbb] using h.account b'
  groupMap := h.groupMap
  group := h.group
  pool := h.pool
  size := h.size

theorem setGroup (h : Refines db t) {groups : HashMap Bytes CharPtr GroupValue}
    (hg : StringMap groups) (hn : groups.numOfItems = db.groupNames.numOfItems) {b : ℕ} {r : Group}
    (hb : ∀ b', groups.bucket b' = if b' = b then [groupEntry r] else db.groupNames.bucket b') :
    Refines { db with groupNames := groups } (t.setGroup b r) where
  users := h.users
  account := h.account
  groupMap := hg
  group := by
    intro b'
    rw [hb, Tables.setGroup]
    by_cases hbb : b' = b
    · subst hbb
      simp
    · simpa [hbb] using h.group b'
  pool := h.pool
  size := hn.trans h.size

theorem mem_groupEntries (h : Refines db t) (e : DataItem CharPtr GroupValue) :
    e ∈ db.groupNames.entries ↔ ∃ b r, t.groups b = some r ∧ e = groupEntry r := by
  simp only [mem_entries, h.group, List.mem_map, Option.mem_toList]
  constructor
  · rintro ⟨b, r, hr, rfl⟩
    exact ⟨b, r, hr, rfl⟩
  · rintro ⟨b, r, hr, rfl⟩
    exact ⟨b, r, hr, rfl⟩

/-! ## Registration and login -/

theorem findUser_none (h : Refines db t)
    (ha : t.accounts (bucketOf (cstr buf userUserName)) = none) :
    db.userNames.lookup buf (.rcv userUserName) = none :=
  h.users.lookup_of_empty (h.bucket_of_none ha)

/-- A user request finds the account of its bucket, whatever name that has. -/
theorem findUser_some (h : Refines db t) {a : Account}
    (ha : t.accounts (bucketOf (cstr buf userUserName)) = some a) :
    ∃ e, db.userNames.lookup buf (.rcv userUserName) = some e ∧ AccountEntry e a := by
  obtain ⟨e, hb, he⟩ := h.bucket_of_some ha
  refine ⟨e, ?_, he⟩
  rw [h.users.lookup_of_single (k := .rcv userUserName) hb, if_pos (by rw [he.key])]

theorem register (h : Refines db t) (buf : Bytes) (p : ℕ → ℕ) :
    ∃ db' p', isUserNameUnique db buf (Heap.succeeding p) =
        ((t.register (cstr buf userUserName) (cstr buf userPassword)).1, db',
          Heap.succeeding p') ∧
      Refines db' (t.register (cstr buf userUserName) (cstr buf userPassword)).2 := by
  cases ha : t.accounts (bucketOf (cstr buf userUserName)) with
  | some a =>
    obtain ⟨e, hl, -⟩ := h.findUser_some ha
    have hf := find_of_lookup_some h.users.sound hl
    refine ⟨db, p, ?_, ?_⟩
    · simp [isUserNameUnique, hf, Tables.register, ha]
    · simpa [Tables.register, ha] using h
  | none =>
    have hl := h.findUser_none ha
    have hf := find_of_lookup_none h.users.sound hl
    obtain ⟨users, p', hi, hu, -, hb⟩ := h.users.insert_absent_succeeding hl
      ⟨disconnect, cstr buf userPassword, freshStrings⟩ (fun n => p (n + 1 + 2))
    refine ⟨{ db with userNames := users }, p', ?_, ?_⟩
    · simp [isUserNameUnique, hf, Tables.register, ha, insertUserToList,
        create_strings_succeeding, userGroupsCapacity, hi]
    · simp only [Tables.register, ha]
      refine h.setAccount hu (e := ⟨⟨disconnect, cstr buf userPassword, freshStrings⟩,
        .rcv userUserName⟩) ⟨rfl, rfl, rfl, Holds.fresh⟩ (fun b => ?_)
      by_cases hbb : b = bucketOf (cstr buf userUserName)
      · simp [hb, hbb, h.bucket_of_none ha]
      · simp [hb, hbb]

theorem login (h : Refines db t) (buf : Bytes) (p : ℕ → ℕ) :
    ∃ p', checkClientStatusAndConnect db buf (Heap.succeeding p) =
      (t.login (cstr buf userUserName) (cstr buf userPassword), db, Heap.succeeding p') := by
  cases ha : t.accounts (bucketOf (cstr buf userUserName)) with
  | none =>
    have hf := find_of_lookup_none h.users.sound (h.findUser_none ha)
    exact ⟨p, by simp [checkClientStatusAndConnect, hf, Tables.login, ha]⟩
  | some a =>
    obtain ⟨e, hl, he⟩ := h.findUser_some ha
    have hf := find_of_lookup_some h.users.sound hl
    by_cases hpsw : cstr buf userPassword = a.psw
    · refine ⟨fun n => p (n + 1), ?_⟩
      simp [checkClientStatusAndConnect, hf, Tables.login, ha, he.status, he.psw, hpsw,
        insertUserToList, connect, disconnect]
    · refine ⟨p, ?_⟩
      simp [checkClientStatusAndConnect, hf, Tables.login, ha, he.status, he.psw, hpsw,
        connect, disconnect]

/-! ## Group requests -/

theorem findGroup_none (h : Refines db t)
    (hg : t.groups (bucketOf (cstr buf groupGroupName)) = none) :
    db.groupNames.lookup buf (.rcv groupGroupName) = none := by
  apply h.groupMap.lookup_of_empty
  simp [h.group, hg]

theorem findGroup_some (h : Refines db t) {r : Group}
    (hg : t.groups (bucketOf (cstr buf groupGroupName)) = some r) :
    db.groupNames.lookup buf (.rcv groupGroupName) = some (groupEntry r) := by
  have hb : db.groupNames.bucket (bucketOf ((CharPtr.rcv groupGroupName).str buf)) =
      [groupEntry r] := by
    simp [h.group, hg]
  rw [h.groupMap.lookup_of_single hb]
  exact if_pos rfl

theorem modifyGroup (h : Refines db t) {r : Group}
    (hg : t.groups (bucketOf (cstr buf groupGroupName)) = some r) (r' : Group)
    (f : GroupValue → GroupValue) (hf : f r.record = r'.record) :
    Refines { db with groupNames := db.groupNames.modifyFound buf (.rcv groupGroupName) f }
      (t.setGroup (bucketOf (cstr buf groupGroupName)) r') := by
  have hb : db.groupNames.bucket (bucketOf ((CharPtr.rcv groupGroupName).str buf)) =
      [groupEntry r] := by
    simp [h.group, hg]
  obtain ⟨hm, hn, hb'⟩ := h.groupMap.modifyFound_of_single hb rfl f
  refine h.setGroup hm hn (fun b => ?_)
  rw [hb', CharPtr.str_rcv]
  simp [groupEntry, hf]

structure GroupRequestAt (buf : Bytes) (g : GroupName) (user : CStr) (spare : UInt8) : Prop where
  group : cstr buf groupGroupName = g
  user : cstr buf groupUserName = user
  spare : buf[userUserName]? = some spare

variable {g : GroupName} {user : CStr} {spare : UInt8}

/-- The stored keys are read one byte to the left of the name looked up. -/
theorem GroupRequestAt.storedKey (hr : GroupRequestAt buf g user spare) :
    cstr buf userUserName = user ↔ user = [] ∧ spare = 0 := by
  have huser : cstr buf (userUserName + 1) = user := hr.user
  rw [cstr_of_getElem? buf userUserName spare hr.spare, huser]
  by_cases hs : spare = 0
  · simp [hs, eq_comm]
  · simp [hs]

theorem findCaller_none (h : Refines db t) (hr : GroupRequestAt buf g user spare)
    (hc : t.caller user spare = none) : db.userNames.lookup buf (.rcv groupUserName) = none := by
  cases ha : t.accounts (bucketOf user) with
  | none =>
    apply h.users.lookup_of_empty
    rw [CharPtr.str_rcv, hr.user, h.bucket_of_none ha]
  | some a =>
    obtain ⟨e, hb, he⟩ := h.bucket_of_some ha
    rw [← hr.user] at hb
    rw [h.users.lookup_of_single (k := .rcv groupUserName) hb, if_neg]
    rw [he.key, CharPtr.str_rcv, CharPtr.str_rcv, hr.user, hr.storedKey]
    rintro ⟨rfl, rfl⟩
    simp [Tables.caller, ha] at hc

theorem findCaller_some (h : Refines db t) (hr : GroupRequestAt buf g user spare) {a : Account}
    (hc : t.caller user spare = some a) :
    ∃ e, db.userNames.bucket (bucketOf (cstr buf groupUserName)) = [e] ∧
      e.key.str buf = cstr buf groupUserName ∧ bucketOf (cstr buf groupUserName) = bucketOf [] ∧
      AccountEntry e a := by
  by_cases hu : user = [] ∧ spare = 0
  · rw [Tables.caller, if_pos hu] at hc
    obtain ⟨e, hb, he⟩ := h.bucket_of_some hc
    refine ⟨e, ?_, ?_, ?_, he⟩
    · rw [hr.user, hu.1, hb]
    · rw [he.key, CharPtr.str_rcv, hr.user]
      exact hr.storedKey.mpr hu
    · rw [hr.user, hu.1]
  · simp [Tables.caller, hu] at hc

theorem findCaller (h : Refines db t) (hr : GroupRequestAt buf g user spare) {a : Account}
    (hc : t.caller user spare = some a) :
    ∃ e, db.userNames.find buf (some (.rcv groupUserName)) = (.success, some e.value) ∧
      AccountEntry e a := by
  obtain ⟨e, hb, hkey, -, he⟩ := h.findCaller_some hr hc
  refine ⟨e, find_of_lookup_some h.users.sound ?_, he⟩
  rw [h.users.lookup_of_single (k := .rcv groupUserName) hb]
  exact if_pos hkey

theorem modifyCaller (h : Refines db t) (hr : GroupRequestAt buf g user spare) {a : Account}
    (hc : t.caller user spare = some a) {m : GroupNames} {gs : List CStr} (hm : Holds m gs) :
    Refines { db with
        userNames := db.userNames.modifyFound buf (.rcv groupUserName)
          (fun value => { value with myGroups := m }) }
      (t.setAccount (bucketOf []) { a with groups := gs }) := by
  obtain ⟨e, hb, hkey, hzero, he⟩ := h.findCaller_some hr hc
  obtain ⟨hu, -, hb'⟩ := h.users.modifyFound_of_single (k := .rcv groupUserName) hb hkey
    (fun value => { value with myGroups := m })
  refine h.setAccount hu (e := { e with value := { e.value with myGroups := m } })
    ⟨he.key, he.status, he.psw, hm⟩ (fun b => ?_)
  rw [hb', CharPtr.str_rcv, hzero]

theorem updateGroupDetails (h : Refines db t) (hr : GroupRequestAt buf g user spare) (p : ℕ → ℕ) :
    ∃ db' p', updateGroupDetailsForUser db buf (.rcv groupUserName) (.rcv groupGroupName)
        (Heap.succeeding p) = (db', Heap.succeeding p') ∧
      Refines db' (t.updateDetails g user spare) := by
  cases hc : t.caller user spare with
  | none =>
    have hf := find_of_lookup_none h.users.sound (h.findCaller_none hr hc)
    refine ⟨db, p, by simp [updateGroupDetailsForUser, hf], ?_⟩
    simpa [Tables.updateDetails, hc] using h
  | some a =>
    obtain ⟨e, hf, he⟩ := h.findCaller hr hc
    obtain ⟨r, m, p', hi, hm⟩ := he.groups.insert buf g.1 (fun n => p (n + 1))
    refine ⟨_, p', ?_, by simpa [Tables.updateDetails, hc] using h.modifyCaller hr hc hm⟩
    simp [updateGroupDetailsForUser, hf, hr.group, hi]

theorem sizeT_succ (n : ℕ) : sizeT (sizeT n + 1) = sizeT (n + 1) := Nat.mod_add_mod n _ 1

theorem create (h : Refines db t) (hr : GroupRequestAt buf g user spare) (p : ℕ → ℕ) :
    ∃ db' p', checkGroupNameAndInsert db buf (Heap.succeeding p) =
        ((t.create g user spare).1, (t.create g user spare).2.1, db', Heap.succeeding p') ∧
      Refines db' (t.create g user spare).2.2 := by
  cases hg : t.groups (bucketOf g) with
  | some r =>
    have hl := h.findGroup_some (by rwa [← hr.group] at hg)
    have hf := find_of_lookup_some h.groupMap.sound hl
    refine ⟨db, fun n => p (n + 1), ?_, by simpa [Tables.create, hg] using h⟩
    simp [checkGroupNameAndInsert, hf, Tables.create, hg]
  | none =>
    have hl := h.findGroup_none (by rwa [← hr.group] at hg)
    have hf := find_of_lookup_none h.groupMap.sound hl
    have hpool := IPPoolAddr.getIPAddress_taken t.created
    rw [← h.pool] at hpool
    obtain ⟨groups, p', hi, hm, hn, hb⟩ := h.groupMap.insert_absent_succeeding hl
      (Group.record ⟨g, t.created, 1⟩) (fun n => p (n + 1))
    have hstored : Refines ⟨db.userNames, groups, IPPoolAddr.taken (t.created + 1)⟩
        (t.addGroup g) := {
      users := h.users
      account := h.account
      groupMap := hm
      group := by
        intro b
        by_cases hbb : b = bucketOf g
        · subst hbb
          simp [hb, hr.group, h.group, hg, Tables.addGroup, Tables.setGroup, groupEntry]
        · simp [hb, hr.group, h.group, hbb, Tables.addGroup, Tables.setGroup]
      pool := rfl
      size := by rw [hn, h.size, sizeT_succ]; rfl }
    obtain ⟨db', p'', hu, href⟩ := hstored.updateGroupDetails hr p'
    refine ⟨db', p'', ?_, by simpa [Tables.create, hg] using href⟩
    simp only [Group.record, Group.ip] at hi
    simp [checkGroupNameAndInsert, hf, hpool, Tables.create, hg, hr.group, hi, hu]

theorem join (h : Refines db t) (hr : GroupRequestAt buf g user spare) :
    ∃ db', tryToJoinToGroup db buf = ((t.join g).1, (t.join g).2.1, db') ∧
      Refines db' (t.join g).2.2 := by
  cases hg : t.groups (bucketOf g) with
  | none =>
    have hl := h.findGroup_none (by rwa [← hr.group] at hg)
    have hf := find_of_lookup_none h.groupMap.sound hl
    exact ⟨db, by simp [tryToJoinToGroup, hf, Tables.join, hg], by simpa [Tables.join, hg] using h⟩
  | some r =>
    have hgb : t.groups (bucketOf (cstr buf groupGroupName)) = some r := by rwa [← hr.group] at hg
    have hf := find_of_lookup_some h.groupMap.sound (h.findGroup_some hgb)
    by_cases hreads : r.Reads g
    · have heq := (r.eq_groupName_record g).mpr hreads
      have href := h.modifyGroup hgb { r with partic := r.partic + 1 }
        (fun value => { value with numOfPartic := value.numOfPartic + 1 }) rfl
      refine ⟨_, ?_, by simpa [Tables.join, hg, hreads, hr.group] using href⟩
      simp [tryToJoinToGroup, hf, hr.group, groupEntry, ← heq, Tables.join, hg, hreads,
        r.ipAddGroup_record]
    · have hne : g.1 ≠ r.record.groupName := fun he => hreads ((r.eq_groupName_record g).mp he)
      refine ⟨db, ?_, by simpa [Tables.join, hg, hreads] using h⟩
      simp [tryToJoinToGroup, hf, hr.group, groupEntry, hne, Tables.join, hg, hreads]

theorem leave (h : Refines db t) (hr : GroupRequestAt buf g user spare) :
    ∃ db', tryToLeaveToGroup db buf =
        ((t.leave g user spare).1, (t.leave g user spare).2.1, db') ∧
      Refines db' (t.leave g user spare).2.2 := by
  cases hc : t.caller user spare with
  | none =>
    have hf := find_of_lookup_none h.users.sound (h.findCaller_none hr hc)
    exact ⟨db, by simp [tryToLeaveToGroup, hf, Tables.leave, hc],
      by simpa [Tables.leave, hc] using h⟩
  | some a =>
    obtain ⟨e, hf, he⟩ := h.findCaller hr hc
    by_cases hmem : g.1 ∈ a.groups
    · obtain ⟨i, m, hrem, hm⟩ :=
        he.groups.remove_present buf (k := .rcv groupGroupName) (by rwa [CharPtr.str_rcv, hr.group])
      rw [CharPtr.str_rcv, hr.group] at hm
      -- the group has left the caller's map, whether or not its record is found
      have href := h.modifyCaller hr hc hm
      cases hg : t.groups (bucketOf g) with
      | none =>
        have hgb : t.groups (bucketOf (cstr buf groupGroupName)) = none := by
          rwa [← hr.group] at hg
        have hfg := find_of_lookup_none h.groupMap.sound (h.findGroup_none hgb)
        refine ⟨_, ?_, by
          simpa [Tables.leave, hc, hmem, Tables.leaveGroup, Tables.setAccount, hg] using href⟩
        simp [tryToLeaveToGroup, hf, hrem, hfg, Tables.leave, hc, hmem, Tables.leaveGroup,
          Tables.setAccount, hg]
      | some r =>
        have hgb : t.groups (bucketOf (cstr buf groupGroupName)) = some r := by
          rwa [← hr.group] at hg
        have hfg := find_of_lookup_some h.groupMap.sound (h.findGroup_some hgb)
        by_cases hreads : r.Reads g
        · have heq := (r.eq_groupName_record g).mpr hreads
          have href' := href.modifyGroup hgb { r with partic := r.partic - 1 }
            (fun value => { value with numOfPartic := value.numOfPartic - 1 }) rfl
          rw [hr.group] at href'
          refine ⟨_, ?_, by
            simpa [Tables.leave, hc, hmem, Tables.leaveGroup, Tables.setAccount, hg, hreads]
              using href'⟩
          simp [tryToLeaveToGroup, hf, hrem, hfg, hr.group, groupEntry, ← heq, Tables.leave, hc,
            hmem, Tables.leaveGroup, Tables.setAccount, hg, hreads, r.ipAddGroup_record]
        · have hne : g.1 ≠ r.record.groupName := fun he =>
            hreads ((r.eq_groupName_record g).mp he)
          refine ⟨_, ?_, by
            simpa [Tables.leave, hc, hmem, Tables.leaveGroup, Tables.setAccount, hg, hreads]
              using href⟩
          simp [tryToLeaveToGroup, hf, hrem, hfg, hr.group, groupEntry, hne, Tables.leave, hc,
            hmem, Tables.leaveGroup, Tables.setAccount, hg, hreads]
    · have hrem := he.groups.remove_absent buf (k := .rcv groupGroupName)
        (by rwa [CharPtr.str_rcv, hr.group])
      refine ⟨db, ?_, by simpa [Tables.leave, hc, hmem] using h⟩
      simp [tryToLeaveToGroup, hf, hrem, Tables.leave, hc, hmem]

end Refines
end ChatProject
