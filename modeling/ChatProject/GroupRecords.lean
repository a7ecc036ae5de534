import ChatProject.Answers
import Mathlib.Logic.Relation

/-!
# The group map and the pool over any run

Whatever messages arrive and whatever allocations fail, the pool has had some number of
addresses taken from it, and the record in a bucket of the group map keeps its two texts. A
creation that finds no record takes an address before it inserts the new one.
-/

namespace ChatProject
open Memory HashMap Protocol

namespace IPPoolAddr

theorem taken_start {h : Heap} {db : DataBase} {h' : Heap}
    (hdb : DataBase.createMainDataBase h = (some db, h')) : db.addIPPool = taken 0 := by
  rw [DataBase.createMainDataBase] at hdb
  split_ifs at hdb
  · cases hdb
  simp only at hdb
  split at hdb
  next users groups pool _ _ hpool =>
    cases hdb
    exact createIPMultecaste_of_some hpool
  next => cases hdb

end IPPoolAddr

namespace DataBase

/-! ## The parts that an operation leaves alone -/

theorem insertUserToList_rest (db : DataBase) (buf : Bytes) (status : ℤ) (h : Heap) :
    (insertUserToList db buf status h).2.1.groupNames = db.groupNames ∧
      (insertUserToList db buf status h).2.1.addIPPool = db.addIPPool := by
  rw [insertUserToList]
  split_ifs
  · exact ⟨rfl, rfl⟩
  · split
    next => exact ⟨rfl, rfl⟩
    next => split <;> exact ⟨rfl, rfl⟩
  · exact ⟨rfl, rfl⟩

theorem isUserNameUnique_rest (db : DataBase) (buf : Bytes) (h : Heap) :
    (isUserNameUnique db buf h).2.1.groupNames = db.groupNames ∧
      (isUserNameUnique db buf h).2.1.addIPPool = db.addIPPool := by
  rw [isUserNameUnique]
  split_ifs
  · exact insertUserToList_rest db buf disconnect h
  · exact ⟨rfl, rfl⟩

theorem checkClientStatusAndConnect_rest (db : DataBase) (buf : Bytes) (h : Heap) :
    (checkClientStatusAndConnect db buf h).2.1.groupNames = db.groupNames ∧
      (checkClientStatusAndConnect db buf h).2.1.addIPPool = db.addIPPool := by
  rw [checkClientStatusAndConnect]
  split
  · split_ifs
    · exact ⟨rfl, rfl⟩
    · exact ⟨rfl, rfl⟩
    · exact insertUserToList_rest db buf connect h
  · exact ⟨rfl, rfl⟩

theorem updateGroupDetailsForUser_rest (db : DataBase) (buf : Bytes) (k group : CharPtr)
    (h : Heap) :
    (updateGroupDetailsForUser db buf k group h).1.groupNames = db.groupNames ∧
      (updateGroupDetailsForUser db buf k group h).1.addIPPool = db.addIPPool := by
  rw [updateGroupDetailsForUser]
  split
  · split_ifs <;> exact ⟨rfl, rfl⟩
  · exact ⟨rfl, rfl⟩

theorem tryToJoinToGroup_pool (db : DataBase) (buf : Bytes) :
    (tryToJoinToGroup db buf).2.2.addIPPool = db.addIPPool := by
  rw [tryToJoinToGroup]
  split
  · split_ifs <;> rfl
  · rfl
  · rfl

theorem tryToLeaveToGroup_pool (db : DataBase) (buf : Bytes) :
    (tryToLeaveToGroup db buf).2.2.addIPPool = db.addIPPool := by
  rw [tryToLeaveToGroup]
  split
  · split
    · dsimp only
      split
      · split_ifs <;> rfl
      · rfl
    · rfl
  · rfl

/-! ## A creation that finds no group -/

def createdValue (name ip : CStr) : GroupValue where
  numOfPartic := 1
  text := strcpy (strcpy GroupValue.malloced.text GroupValue.groupNameAt name)
    GroupValue.ipAddGroupAt ip

def nextAddress (k : ℕ) : CStr := IPPoolAddr.addressAt (k % IPPoolAddr.capacity)

/-- The database after the insertion of the record, with the allocator that is left. -/
def addedGroup (db : DataBase) (buf : Bytes) (k : ℕ) (h : Heap) : DataBase × Heap :=
  let res := db.groupNames.insert blank buf (some (.rcv groupGroupName))
    (createdValue (cstr buf groupGroupName) (nextAddress k)) h
  ({ db with groupNames := res.2.1, addIPPool := IPPoolAddr.taken (k + 1) }, res.2.2)

end DataBase

namespace Keyed
variable {db : DataBase}
open DataBase

theorem create_absent (hdb : Keyed db) {k : ℕ} (hpool : db.addIPPool = IPPoolAddr.taken k)
    {buf : Bytes} {h : Heap} (h0 : h 0 ≠ 0)
    (hl : db.groupNames.lookup buf (.rcv groupGroupName) = none) :
    checkGroupNameAndInsert db buf h =
      if db.groupNames.insertReports (bucketOf (cstr buf groupGroupName)) h.rest then
        (.groupSuccessfullyInsert, nextAddress k,
          updateGroupDetailsForUser (addedGroup db buf k h.rest).1 buf (.rcv groupUserName)
            (.rcv groupGroupName) (addedGroup db buf k h.rest).2)
      else (.insertFail, nextAddress k, addedGroup db buf k h.rest) := by
  have hreported := (insert_absent hdb.groups.map.sound hl (show blank = blank from rfl)
    (createdValue (cstr buf groupGroupName) (nextAddress k)) (h := h.rest) (fun n hn => hn)).1
  rw [hdb.groups.map.index, CharPtr.str_rcv] at hreported
  have hfind := find_of_lookup_none hdb.groups.map.sound hl
  simp only [checkGroupNameAndInsert, Heap.next, h0, hfind, hpool, IPPoolAddr.getIPAddress_taken,
    ↓reduceIte, ne_eq, not_true_eq_false, Option.getD_some]
  split
  next groups h' hinsert =>
    have hres : db.groupNames.insert blank buf (some (.rcv groupGroupName))
        (createdValue (cstr buf groupGroupName) (nextAddress k)) h.rest =
          (.success, groups, h') := hinsert
    rw [hres] at hreported
    split_ifs at hreported with hr
    rw [if_pos hr, addedGroup, hres]
    rfl
  next res groups h' hne hinsert =>
    have hres : db.groupNames.insert blank buf (some (.rcv groupGroupName))
        (createdValue (cstr buf groupGroupName) (nextAddress k)) h.rest = (res, groups, h') :=
      hinsert
    rw [hres] at hreported
    split_ifs at hreported with hr
    · exact absurd hreported hne
    · rw [if_neg hr, addedGroup, hres]
      rfl

theorem create_unchanged (hdb : Keyed db) {buf : Bytes} {h : Heap}
    (hkept : h 0 = 0 ∨ db.groupNames.lookup buf (.rcv groupGroupName) ≠ none) :
    (checkGroupNameAndInsert db buf h).2.2.1 = db := by
  by_cases h0 : h 0 = 0
  · simp [checkGroupNameAndInsert, Heap.next, h0]
  · obtain ⟨e, he⟩ := Option.ne_none_iff_exists'.mp (hkept.resolve_left (fun h => h0 h))
    simp [checkGroupNameAndInsert, Heap.next, h0, find_of_lookup_some hdb.groups.map.sound he]

theorem addedGroup_bucket (hdb : Keyed db) {buf : Bytes} (k : ℕ) (h : Heap)
    (hl : db.groupNames.lookup buf (.rcv groupGroupName) = none) (b : ℕ) :
    (addedGroup db buf k h).1.groupNames.bucket b =
      if b = bucketOf (cstr buf groupGroupName) then
        if db.groupNames.insertStores b h then
          [⟨createdValue (cstr buf groupGroupName) (nextAddress k), .rcv groupGroupName⟩]
        else []
      else db.groupNames.bucket b := by
  have hempty : db.groupNames.bucket (bucketOf (cstr buf groupGroupName)) = [] :=
    List.head?_eq_none_iff.mp ((hdb.group_lookup buf).symm.trans hl)
  have hbucket := (hdb.groups.map.insert_absent hl
    (createdValue (cstr buf groupGroupName) (nextAddress k)) h).2 b
  rw [CharPtr.str_rcv] at hbucket
  rw [addedGroup, hbucket]
  by_cases hb : b = bucketOf (cstr buf groupGroupName)
  · rw [if_pos hb, if_pos hb, hb, hempty, List.append_nil]
  · rw [if_neg hb, if_neg hb]

end Keyed

/-! ## What is kept over a run -/

namespace DataBase

/-- The two texts of the record that a request finds in a bucket. -/
def groupText (db : DataBase) (b : ℕ) : Option Bytes :=
  (db.groupNames.bucket b).head?.map fun e => e.value.text

/-- Some number of addresses have been taken from the pool. -/
def PoolTaken (db : DataBase) : Prop := ∃ k, db.addIPPool = IPPoolAddr.taken k

theorem groupText_congr {db db' : DataBase} (h : db'.groupNames = db.groupNames) (b : ℕ) :
    db'.groupText b = db.groupText b := by
  rw [groupText, groupText, h]

end DataBase

namespace Keyed
variable {db : DataBase}
open DataBase

theorem poolTaken_operations (hdb : Keyed db) (hpool : PoolTaken db) :
    KeptByOperations PoolTaken db where
  unchanged := hpool
  register buf h := by
    rw [PoolTaken, (isUserNameUnique_rest db buf h).2]
    exact hpool
  login buf h := by
    rw [PoolTaken, (checkClientStatusAndConnect_rest db buf h).2]
    exact hpool
  create buf h := by
    obtain ⟨k, hk⟩ := hpool
    by_cases hkept : h 0 = 0 ∨ db.groupNames.lookup buf (.rcv groupGroupName) ≠ none
    · rw [hdb.create_unchanged hkept]
      exact ⟨k, hk⟩
    · rw [not_or, not_not] at hkept
      rw [hdb.create_absent hk hkept.1 hkept.2]
      split_ifs
      · exact ⟨k + 1, (updateGroupDetailsForUser_rest _ _ _ _ _).2⟩
      · exact ⟨k + 1, rfl⟩
  join buf := by
    rw [PoolTaken, tryToJoinToGroup_pool]
    exact hpool
  leave buf := by
    rw [PoolTaken, tryToLeaveToGroup_pool]
    exact hpool

theorem modifyFound_text (hdb : Keyed db) {buf : Bytes} {k : CharPtr} {group : GroupValue}
    (hfind : db.groupNames.find buf (some k) = (.success, some group)) {f : GroupValue → GroupValue}
    (hf : ∀ value, (f value).text = value.text) (b : ℕ) :
    groupText { db with groupNames := db.groupNames.modifyFound buf k f } b = db.groupText b := by
  obtain ⟨e, he, -⟩ := hdb.groups.lookup_of_find hfind
  obtain ⟨-, -, hb⟩ := hdb.groups.map.modifyFound he f
  rw [groupText, groupText, hb]
  split_ifs
  · rw [List.head?_eq_getElem?, List.head?_eq_getElem?, List.getElem?_modify]
    cases (db.groupNames.bucket b)[0]? with
    | none => rfl
    | some e' =>
      simp only [Option.map_eq_map, Option.map_some]
      split_ifs
      · rw [hf e'.value]
      · rfl
  · rfl

theorem create_text (hdb : Keyed db) (hpool : PoolTaken db) {b : ℕ} {text : Bytes}
    (htext : db.groupText b = some text) (buf : Bytes) (h : Heap) :
    (checkGroupNameAndInsert db buf h).2.2.1.groupText b = some text := by
  by_cases hkept : h 0 = 0 ∨ db.groupNames.lookup buf (.rcv groupGroupName) ≠ none
  · rw [hdb.create_unchanged hkept]
    exact htext
  · rw [not_or, not_not] at hkept
    obtain ⟨k, hk⟩ := hpool
    -- the record is inserted into an empty bucket, so not into this one
    have hother : b ≠ bucketOf (cstr buf groupGroupName) := by
      rintro rfl
      rw [groupText, ← hdb.group_lookup, hkept.2] at htext
      cases htext
    have hadded : (addedGroup db buf k h.rest).1.groupText b = some text := by
      rw [groupText, hdb.addedGroup_bucket k h.rest hkept.2, if_neg hother]
      exact htext
    rw [hdb.create_absent hk hkept.1 hkept.2]
    split_ifs
    · rw [groupText_congr (updateGroupDetailsForUser_rest _ _ _ _ _).1]
      exact hadded
    · exact hadded

theorem join_text (hdb : Keyed db) (buf : Bytes) (b : ℕ) :
    (tryToJoinToGroup db buf).2.2.groupText b = db.groupText b := by
  rw [tryToJoinToGroup]
  split
  next group hfind =>
    split_ifs
    · exact hdb.modifyFound_text hfind
        (f := fun value => { value with numOfPartic := value.numOfPartic + 1 }) (fun value => rfl) b
    · rfl
  next => rfl
  next => rfl

theorem leave_text (hdb : Keyed db) (buf : Bytes) (b : ℕ) :
    (tryToLeaveToGroup db buf).2.2.groupText b = db.groupText b := by
  rw [tryToLeaveToGroup]
  split
  next user hfind =>
    split
    next g myGroups hremove =>
      dsimp only
      split
      next group hgroup =>
        split_ifs
        · exact hdb.modifyFound_text hgroup
            (f := fun value => { value with numOfPartic := value.numOfPartic - 1 })
            (fun value => rfl) b
        · rfl
      next => rfl
    next => rfl
  next => rfl

theorem text_operations (hdb : Keyed db) (hpool : PoolTaken db) {b : ℕ} {text : Bytes}
    (htext : db.groupText b = some text) :
    KeptByOperations (fun db => db.groupText b = some text) db where
  unchanged := htext
  register buf h := (groupText_congr (isUserNameUnique_rest db buf h).1 b).trans htext
  login buf h := (groupText_congr (checkClientStatusAndConnect_rest db buf h).1 b).trans htext
  create buf h := hdb.create_text hpool htext buf h
  join buf := (hdb.join_text buf b).trans htext
  leave buf := (hdb.leave_text buf b).trans htext

end Keyed

namespace Server

theorem Reachable.pool {s : Server} (hs : Reachable s) : s.context.PoolTaken := by
  induction hs with
  | @start h s he =>
    rw [Server.start] at he
    split at he
    next db h' hdb =>
      cases he
      exact ⟨0, IPPoolAddr.taken_start hdb⟩
    next => cases he
  | exchange hs _ _ ih => exact (hs.keyed.poolTaken_operations ih).exchange _

def Next (s s' : Server) : Prop :=
  ∃ msg, s.Delivers msg ∧ (s.exchange msg).1 ≠ .crash ∧ s' = (s.exchange msg).2

/-- The servers that any further messages lead to. -/
abbrev Later (s s' : Server) : Prop := Relation.ReflTransGen Next s s'

theorem Reachable.next {s s' : Server} (hs : Reachable s) (h : Next s s') : Reachable s' := by
  obtain ⟨msg, hmsg, hcrash, rfl⟩ := h
  exact hs.exchange hmsg hcrash

theorem Reachable.later {s s' : Server} (hs : Reachable s) (h : Later s s') : Reachable s' := by
  induction h with
  | refl => exact hs
  | tail _ hnext ih => exact ih.next hnext

theorem Reachable.later_text {s s' : Server} (hs : Reachable s) (h : Later s s') {b : ℕ}
    {text : Bytes} (htext : s.context.groupText b = some text) :
    s'.context.groupText b = some text := by
  induction h with
  | refl => exact htext
  | tail hlater hnext ih =>
    have hmid := hs.later hlater
    obtain ⟨msg, -, -, rfl⟩ := hnext
    exact (hmid.keyed.text_operations hmid.pool ih).exchange msg

end Server
end ChatProject
