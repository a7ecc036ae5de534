import ChatProject.GroupRecords
import ChatProject.Registration

/-!
# What a creation changes

`Check_Group_Name_And_Insert` takes an address from the pool, inserts the record into the group
map and enters the group with its creator, in this order and without a way back. The queue of
the pool counts its items down past zero, and hands out the texts that are left in its ring.
-/

namespace ChatProject
open Memory HashMap Protocol

namespace IPPoolAddr
open DataBase

def available (pool : IPPoolAddr) : Set CStr :=
  {ip | ∃ i < pool.queueAddr.nItems, pool.queueAddr.queueArray.getD
    ((pool.queueAddr.head + i) % pool.queueAddr.size) none = some ip}

def counted (pool : IPPoolAddr) : ℕ := pool.queueAddr.nItems

theorem mem_available_taken (k : ℕ) (ip : CStr) :
    ip ∈ (taken k).available ↔ ∃ i < (taken k).counted, addressAt ((k + i) % capacity) = ip := by
  have hslot : ∀ i, ((List.range capacity).map fun i => some (addressAt i)).getD
      ((k % capacity + i) % capacity) none = some (addressAt ((k + i) % capacity)) := by
    intro i
    have hlt : (k + i) % capacity < capacity := Nat.mod_lt _ (by decide)
    simp [Nat.mod_add_mod, hlt]
  constructor
  · intro h
    obtain ⟨i, hi, hip⟩ := h
    exact ⟨i, hi, Option.some.inj ((hslot i).symm.trans hip)⟩
  · intro h
    obtain ⟨i, hi, rfl⟩ := h
    exact ⟨i, hi, hslot i⟩

theorem counted_succ (k : ℕ) : (taken (k + 1)).counted = sizePred (taken k).counted :=
  Function.iterate_succ_apply' ..

theorem mem_available_full {k : ℕ} (hk : capacity ≤ (taken k).counted) (ip : CStr) :
    ip ∈ (taken k).available ↔ ∃ j < capacity, addressAt j = ip := by
  rw [mem_available_taken]
  constructor
  · intro h
    obtain ⟨i, -, rfl⟩ := h
    exact ⟨_, Nat.mod_lt _ (by decide), rfl⟩
  · intro h
    obtain ⟨j, hj, rfl⟩ := h
    -- the slot at distance `j - k` round the ring
    refine ⟨(j + (capacity - k % capacity)) % capacity,
      Nat.lt_of_lt_of_le (Nat.mod_lt _ (by decide)) hk, ?_⟩
    congr 1
    simp only [capacity] at hj ⊢
    omega

theorem nextAddress_available (k : ℕ) :
    nextAddress k ∈ (taken k).available ↔ 1 ≤ (taken k).counted := by
  rw [mem_available_taken]
  constructor
  · intro h
    obtain ⟨i, hi, -⟩ := h
    omega
  · intro h
    exact ⟨0, h, rfl⟩

/-- The address that is taken comes round again only if more than a whole ring is counted. -/
theorem nextAddress_gone {k : ℕ} (hk : 1 ≤ (taken k).counted) :
    nextAddress k ∉ (taken (k + 1)).available ↔ (taken k).counted ≤ capacity := by
  rw [mem_available_taken, counted_succ, sizePred, if_neg (by omega)]
  constructor
  · intro h
    by_contra hgt
    refine h ⟨capacity - 1, by simp only [capacity] at hgt ⊢; omega, ?_⟩
    rw [nextAddress]
    congr 1
    simp only [capacity]
    omega
  · intro hle hmem
    obtain ⟨i, hi, hip⟩ := hmem
    have hplace := addressAt_injOn (Nat.mod_lt _ (by decide)) (Nat.mod_lt _ (by decide)) hip
    simp only [capacity] at hle hplace
    omega

theorem available_unchanged_iff (k : ℕ) :
    (taken (k + 1)).available = (taken k).available ↔ capacity < (taken k).counted := by
  constructor
  · intro h
    by_contra hle
    by_cases hpos : 1 ≤ (taken k).counted
    · have hin := (nextAddress_available k).mpr hpos
      rw [← h] at hin
      exact (nextAddress_gone hpos).mpr (by omega) hin
    · -- the count of an empty pool goes down to the largest number
      have hzero : (taken k).counted = 0 := by omega
      have hin : nextAddress (k + 1) ∈ (taken (k + 1)).available := by
        rw [nextAddress_available, counted_succ, hzero]
        decide
      rw [h, mem_available_taken, hzero] at hin
      obtain ⟨i, hi, -⟩ := hin
      omega
  · intro hgt
    have hnext : capacity ≤ (taken (k + 1)).counted := by
      rw [counted_succ, sizePred]
      split_ifs <;> simp only [capacity] at hgt ⊢ <;> omega
    ext ip
    rw [mem_available_full hnext, mem_available_full (by omega)]

end IPPoolAddr

namespace HashMap
variable {σ K V : Type} {J : Ptr → Prop} {m : HashMap σ K V} {mem : σ} {k : K}

/-- The allocator after an insertion that stores its entry in the bucket. -/
def heapAfterStore (m : HashMap σ K V) (b : ℕ) (h : Heap) : Heap :=
  match m.chainAt b with
  | none => h.rest.rest.rest
  | some _ => h.rest.rest

theorem insert_refused_items (hm : m.Sound J) (hk : m.lookup mem k = none) (junk : Ptr) (v : V)
    {h : Heap} (hr : ¬ m.insertReports (m.index mem k) h = true) :
    (m.insert junk mem (some k) v h).2.1.numOfItems = m.numOfItems := by
  cases hc : m.chainAt (m.index mem k) with
  | some l =>
    rw [insert_absent_some hm hk hc, pushItem_some]
    by_cases h0 : h 0 = 0 <;> by_cases h1 : h 1 = 0 <;> simp_all [insertReports]
  | none =>
    rw [insert_absent_none hm hc]
    by_cases h0 : h 0 = 0
    · by_cases h1 : h 1 = 0 <;> simp_all [insertReports, pushItem_none, Heap.rest]
    · by_cases h1 : h 1 = 0 <;> by_cases h2 : h 2 = 0 <;>
        simp_all [insertReports, pushItem_some, Heap.rest]

theorem insert_stored_heap (hm : m.Sound J) (hk : m.lookup mem k = none) (junk : Ptr) (v : V)
    {h : Heap} (hs : m.insertStores (m.index mem k) h = true) :
    (m.insert junk mem (some k) v h).2.2 = m.heapAfterStore (m.index mem k) h := by
  rw [heapAfterStore]
  cases hc : m.chainAt (m.index mem k) with
  | some l =>
    rw [insertStores, hc] at hs
    rw [insert_absent_some hm hk hc, pushItem_some]
    simp_all
  | none =>
    rw [insertStores, hc] at hs
    rw [insert_absent_none hm hc]
    simp_all [pushItem_some, Heap.rest]

theorem reports_of_stores {b : ℕ} {h : Heap} (hs : m.insertStores b h = true) :
    m.insertReports b h = true := by
  rw [insertStores] at hs
  rw [insertReports]
  cases hc : m.chainAt b with
  | some l => simpa [hc] using hs
  | none => simp_all

end HashMap

/-! ## Names in a user's own group map -/

theorem StringMap.found_iff {V : Type} {m : HashMap Bytes CharPtr V} (hm : StringMap m)
    (buf : Bytes) (k : CharPtr) :
    (m.find buf (some k)).1 = .success ↔ m.lookup buf k ≠ none := by
  cases hk : m.lookup buf k with
  | none => simp [find_of_lookup_none hm.sound hk]
  | some e => simp [find_of_lookup_some hm.sound hk]

theorem StringMap.found_inserted_iff {V : Type} {m : HashMap Bytes CharPtr V} (hm : StringMap m)
    (buf : Bytes) (k : CharPtr) (v : V) (h : Heap) :
    ((m.insert blank buf (some k) v h).2.1.find buf (some k)).1 = .success ↔
      (m.find buf (some k)).1 = .success ∨ m.insertStores (bucketOf (k.str buf)) h = true := by
  cases hk : m.lookup buf k with
  | some e =>
    rw [insert_present hm.sound hk, hm.found_iff]
    exact iff_of_true (by simp [hk]) (.inl (by simp [hk]))
  | none =>
    obtain ⟨hmap, hbuckets⟩ := hm.insert_absent hk v h
    rw [hm.found_iff, hmap.found_iff, hmap.lookup, hbuckets, if_pos rfl, hk]
    rw [hm.lookup] at hk
    by_cases hstores : m.insertStores (bucketOf (k.str buf)) h = true
    · rw [if_pos hstores]
      simp [hstores]
    · rw [if_neg hstores, List.nil_append, hk]
      simp [hstores]

namespace DataBase

def registered (db : DataBase) (name : CStr) : Option UserValue :=
  (db.userNames.find (List.replicate userUserName 0 ++ name) (some (.rcv userUserName))).2

def HasGroup (buf : Bytes) (value : UserValue) : Prop :=
  (value.myGroups.find buf (some (.own (cstr buf groupGroupName)))).1 = .success

/-- The group map, every user's group map and the addresses in the pool are the same. -/
structure SameContents (db db' : DataBase) : Prop where
  groups : ∀ b, db'.groupNames.bucket b = db.groupNames.bucket b
  size : db'.groupNames.size = db.groupNames.size
  users : db'.userNames = db.userNames
  available : db'.addIPPool.available = db.addIPPool.available

/-- The group is found with an address that is no longer available, and with its creator. -/
structure Entered (db : DataBase) (buf : Bytes) (db' : DataBase) : Prop where
  found : ∃ value, db'.groupNames.find buf (some (.rcv groupGroupName)) = (.success, some value) ∧
    value.ipAddGroup ∈ db.addIPPool.available ∧ value.ipAddGroup ∉ db'.addIPPool.available
  creator : (db.registered (cstr buf groupUserName)).isSome →
    ∃ value, db'.registered (cstr buf groupUserName) = some value ∧ HasGroup buf value

structure CreatesAtomically (db : DataBase) (buf : Bytes) (h : Heap) : Prop where
  refused : (checkGroupNameAndInsert db buf h).1 ≠ .groupSuccessfullyInsert →
    SameContents db (checkGroupNameAndInsert db buf h).2.2.1
  granted : (checkGroupNameAndInsert db buf h).1 = .groupSuccessfullyInsert →
    Entered db buf (checkGroupNameAndInsert db buf h).2.2.1

/-- The creator has the group already, or is found by the name in the request and gets the copy
of the group's name and the parts of the entry allocated. -/
def CreatorAllocated (db : DataBase) (buf : Bytes) (h : Heap) : Prop :=
  ∀ value, db.registered (cstr buf groupUserName) = some value →
    HasGroup buf value ∨ cstr buf userUserName = cstr buf groupUserName ∧ h 0 ≠ 0 ∧
      value.myGroups.insertStores (bucketOf (cstr buf groupGroupName)) h.rest = true

/-- What the creation needs once it has its record and has not found the name. -/
def InsertsGroup (db : DataBase) (buf : Bytes) (h : Heap) : Prop :=
  let b := bucketOf (cstr buf groupGroupName)
  if db.groupNames.insertReports b h then
    db.groupNames.insertStores b h = true ∧ 1 ≤ db.addIPPool.counted ∧
      db.addIPPool.counted ≤ IPPoolAddr.capacity ∧
      CreatorAllocated db buf (db.groupNames.heapAfterStore b h)
  else IPPoolAddr.capacity < db.addIPPool.counted

def GroupFound (db : DataBase) (buf : Bytes) : Prop :=
  (db.groupNames.find buf (some (.rcv groupGroupName))).1 ≠ .keyNotFoundError

end DataBase

namespace Keyed
variable {db : DataBase}
open DataBase

theorem registered_eq (hdb : Keyed db) {name : CStr} (hname : 0 ∉ name) :
    db.registered name = (db.userNames.bucket (bucketOf name)).head?.map DataItem.value := by
  have hread : cstr (List.replicate userUserName 0 ++ name) userUserName = name := by
    rw [cstr, List.drop_left' List.length_replicate]
    exact text_of_notMem name hname
  rw [registered, hdb.find_user, hread]
  cases (db.userNames.bucket (bucketOf name)).head? <;> rfl

/-- Entering the group changes the record that the creator's name finds only if the request's
name is the one that the stored keys read as, and the copy of the group's name is allocated. -/
theorem registered_updated (hdb : Keyed db) (buf : Bytes) (h : Heap) :
    (updateGroupDetailsForUser db buf (.rcv groupUserName) (.rcv groupGroupName) h).1.registered
        (cstr buf groupUserName) =
      (db.registered (cstr buf groupUserName)).map fun value =>
        if cstr buf userUserName = cstr buf groupUserName ∧ h 0 ≠ 0 then
          { value with
            myGroups := (value.myGroups.insert blank buf (some (.own (cstr buf groupGroupName)))
              (.own (cstr buf groupGroupName)) h.rest).2.1 }
        else value := by
  have hafter := hdb.updateGroupDetails buf (.rcv groupUserName) (.rcv groupGroupName) h
  have hcaller := hdb.caller_lookup buf
  rw [hafter.registered_eq (zero_notMem_cstr _ _), hdb.registered_eq (zero_notMem_cstr _ _),
    Option.map_map]
  by_cases hname : cstr buf userUserName = cstr buf groupUserName
  · rw [if_pos hname] at hcaller
    cases hb : db.userNames.bucket (bucketOf (cstr buf groupUserName)) with
    | nil =>
      rw [hb] at hcaller
      rw [updateGroupDetailsForUser, find_of_lookup_none hdb.users.map.sound hcaller, hb]
      rfl
    | cons e es =>
      rw [hb] at hcaller
      rw [updateGroupDetailsForUser, find_of_lookup_some hdb.users.map.sound hcaller]
      by_cases h0 : h 0 = 0
      · simp [Heap.next, h0, hb]
      · obtain ⟨-, -, hbuckets⟩ := hdb.users.map.modifyFound hcaller fun value =>
          { value with
            myGroups := (e.value.myGroups.insert blank buf
              (some (.own (cstr buf groupGroupName))) (.own (cstr buf groupGroupName)) h.rest).2.1 }
        have hkey : db.userNames.isEqual buf (.rcv groupUserName) e = true := by
          rw [hdb.users.map.isEqual, (hdb.users.of_lookup hcaller).1]
          exact decide_eq_true hname
        have hfirst : (e :: es).findIdx (db.userNames.isEqual buf (.rcv groupUserName)) = 0 := by
          rw [List.findIdx_cons, hkey]
          rfl
        have hbucket := hbuckets (bucketOf (cstr buf groupUserName))
        rw [CharPtr.str_rcv, if_pos rfl, hb, hfirst] at hbucket
        simp only [Heap.next, h0, ↓reduceIte, CharPtr.str_rcv, hname, ne_eq, not_false_eq_true,
          and_self, List.head?_cons, Option.map_some, Function.comp_apply]
        rw [hbucket]
        rfl
  · rw [if_neg hname] at hcaller
    rw [updateGroupDetailsForUser, find_of_lookup_none hdb.users.map.sound hcaller]
    simp [hname, Function.comp_def]

theorem groups_map (hdb : Keyed db) {name : CStr} (hname : 0 ∉ name) {value : UserValue}
    (hvalue : db.registered name = some value) : StringMap value.myGroups := by
  rw [hdb.registered_eq hname, Option.map_eq_some_iff] at hvalue
  obtain ⟨e, he, rfl⟩ := hvalue
  exact (hdb.users.all _ e (List.mem_of_mem_head? he)).2.map

theorem creator_entered_iff (hdb : Keyed db) (buf : Bytes) (h : Heap) :
    ((db.registered (cstr buf groupUserName)).isSome →
      ∃ value, (updateGroupDetailsForUser db buf (.rcv groupUserName) (.rcv groupGroupName)
          h).1.registered (cstr buf groupUserName) = some value ∧ HasGroup buf value) ↔
      CreatorAllocated db buf h := by
  rw [hdb.registered_updated, CreatorAllocated]
  cases hvalue : db.registered (cstr buf groupUserName) with
  | none => simp
  | some value =>
    have hfound := (hdb.groups_map (zero_notMem_cstr _ _) hvalue).found_inserted_iff buf
      (.own (cstr buf groupGroupName)) (.own (cstr buf groupGroupName)) h.rest
    rw [CharPtr.str_own] at hfound
    simp only [Option.isSome_some, Option.map_some, Option.some.injEq, exists_eq_left',
      true_imp_iff, forall_eq']
    by_cases hupdated : cstr buf userUserName = cstr buf groupUserName ∧ h 0 ≠ 0
    · rw [if_pos hupdated, HasGroup, hfound]
      simp [HasGroup, hupdated]
    · rw [if_neg hupdated, ← and_assoc]
      simp [hupdated]

end Keyed

namespace Keyed
variable {db : DataBase}
open DataBase

theorem addedGroup (hdb : Keyed db) (buf : Bytes) (k : ℕ) (h : Heap) :
    Keyed (db.addedGroup buf k h).1 :=
  ⟨hdb.users, hdb.groups.insert buf rfl h⟩

theorem ipAddGroup_created {name : CStr} (hlen : name.length ≤ maxLength) (h0 : 0 ∉ name) (k : ℕ) :
    (createdValue name (nextAddress k)).ipAddGroup = nextAddress k :=
  Group.ipAddGroup_record ⟨⟨name, hlen, h0⟩, k, 1⟩

theorem find_added (hdb : Keyed db) {buf : Bytes} (k : ℕ) (h : Heap)
    (hl : db.groupNames.lookup buf (.rcv groupGroupName) = none) :
    (db.addedGroup buf k h).1.groupNames.find buf (some (.rcv groupGroupName)) =
      if db.groupNames.insertStores (bucketOf (cstr buf groupGroupName)) h then
        (.success, some (createdValue (cstr buf groupGroupName) (nextAddress k)))
      else (.keyNotFoundError, none) := by
  have hadded := hdb.addedGroup buf k h
  have hbucket := hdb.addedGroup_bucket k h hl (bucketOf (cstr buf groupGroupName))
  rw [if_pos rfl] at hbucket
  have hlookup := hadded.group_lookup buf
  rw [hbucket] at hlookup
  split_ifs at hlookup ⊢
  · rw [find_of_lookup_some hadded.groups.map.sound hlookup]
  · rw [find_of_lookup_none hadded.groups.map.sound hlookup]

theorem sameContents_added_iff (hdb : Keyed db) {buf : Bytes} {k : ℕ}
    (hk : db.addIPPool = IPPoolAddr.taken k) {h : Heap}
    (hl : db.groupNames.lookup buf (.rcv groupGroupName) = none)
    (hr : ¬ db.groupNames.insertReports (bucketOf (cstr buf groupGroupName)) h = true) :
    SameContents db (db.addedGroup buf k h).1 ↔ IPPoolAddr.capacity < db.addIPPool.counted := by
  rw [hk, ← IPPoolAddr.available_unchanged_iff]
  constructor
  · intro hsame
    have havailable := hsame.available
    rwa [hk] at havailable
  · intro havailable
    have hadded := hdb.addedGroup buf k h
    have hstores : ¬ db.groupNames.insertStores (bucketOf (cstr buf groupGroupName)) h = true :=
      fun hs => hr (reports_of_stores hs)
    refine ⟨fun b => ?_, ?_, rfl, ?_⟩
    · rw [hdb.addedGroup_bucket k h hl]
      split_ifs with hb hs
      · rw [hb] at hs
        exact absurd hs hstores
      · rw [hb]
        exact (List.head?_eq_none_iff.mp ((hdb.group_lookup buf).symm.trans hl)).symm
      · rfl
    · have hitems := insert_refused_items hdb.groups.map.sound hl blank
        (createdValue (cstr buf groupGroupName) (nextAddress k)) (h := h)
        (by rwa [hdb.groups.map.index, CharPtr.str_rcv])
      rw [HashMap.size, HashMap.size, hadded.groups.map.sound.valid, hdb.groups.map.sound.valid]
      exact hitems
    · rw [hk]
      exact havailable

theorem entered_iff (hdb : Keyed db) {buf : Bytes} {k : ℕ}
    (hk : db.addIPPool = IPPoolAddr.taken k) {h : Heap}
    (hl : db.groupNames.lookup buf (.rcv groupGroupName) = none)
    (hlen : (cstr buf groupGroupName).length ≤ maxLength) :
    Entered db buf (updateGroupDetailsForUser (db.addedGroup buf k h).1 buf (.rcv groupUserName)
        (.rcv groupGroupName) (db.addedGroup buf k h).2).1 ↔
      db.groupNames.insertStores (bucketOf (cstr buf groupGroupName)) h = true ∧
        1 ≤ db.addIPPool.counted ∧ db.addIPPool.counted ≤ IPPoolAddr.capacity ∧
        CreatorAllocated db buf
          (db.groupNames.heapAfterStore (bucketOf (cstr buf groupGroupName)) h) := by
  have hadded := hdb.addedGroup buf k h
  have hfind := hdb.find_added k h hl
  obtain ⟨hgroups, hpool⟩ := updateGroupDetailsForUser_rest (db.addedGroup buf k h).1 buf
    (.rcv groupUserName) (.rcv groupGroupName) (db.addedGroup buf k h).2
  have hcreator := hadded.creator_entered_iff buf (db.addedGroup buf k h).2
  have hip := ipAddGroup_created hlen (zero_notMem_cstr buf groupGroupName) k
  by_cases hs : db.groupNames.insertStores (bucketOf (cstr buf groupGroupName)) h = true
  · rw [if_pos hs] at hfind
    have hheap : (db.addedGroup buf k h).2 =
        db.groupNames.heapAfterStore (bucketOf (cstr buf groupGroupName)) h := by
      have hleft := insert_stored_heap hdb.groups.map.sound hl blank
        (createdValue (cstr buf groupGroupName) (nextAddress k)) (h := h)
        (by rwa [hdb.groups.map.index, CharPtr.str_rcv])
      rw [hdb.groups.map.index, CharPtr.str_rcv] at hleft
      exact hleft
    rw [hheap] at hcreator hgroups hpool ⊢
    constructor
    · intro h
      obtain ⟨⟨value, hvalue, hin, hout⟩, hentered⟩ := h
      rw [hgroups, hfind] at hvalue
      cases hvalue
      rw [hip, hk] at hin
      have hpos := (IPPoolAddr.nextAddress_available k).mp hin
      rw [hip, hpool] at hout
      rw [hk]
      exact ⟨hs, hpos, (IPPoolAddr.nextAddress_gone hpos).mp hout, hcreator.mp hentered⟩
    · intro h
      obtain ⟨-, hpos, hle, hall⟩ := h
      rw [hk] at hpos hle
      refine ⟨⟨_, by rw [hgroups, hfind], ?_, ?_⟩, hcreator.mpr hall⟩
      · rw [hip, hk]
        exact (IPPoolAddr.nextAddress_available k).mpr hpos
      · rw [hip, hpool]
        exact (IPPoolAddr.nextAddress_gone hpos).mpr hle
  · rw [if_neg hs] at hfind
    refine iff_of_false ?_ fun h => hs h.1
    intro h
    obtain ⟨⟨value, hvalue, -⟩, -⟩ := h
    rw [hgroups, hfind] at hvalue
    cases hvalue

end Keyed

namespace Server
open DataBase
variable {s : Server} {msg : Bytes}

theorem Delivers.groupName_length (hmsg : s.Delivers msg)
    (ht : s.requested msg = some .createGroupConversationReq) :
    (cstr (recv msg s.bufferRcv) groupGroupName).length ≤ maxLength := by
  have hterm := hmsg.terminated
  rw [requested] at ht
  rw [Terminated, ht] at hterm
  exact Nat.le_of_lt_succ (cstr_length_lt hterm.1)

/-- A creation is all or nothing exactly when it stops before the pool, or is refused by the
group map with a pool that counts more than it has, or gets all of its allocations with an
address that is counted once. -/
theorem Reachable.createsAtomically_iff (hs : Reachable s) (hmsg : s.Delivers msg)
    (ht : s.requested msg = some .createGroupConversationReq) (h : Heap) :
    s.context.CreatesAtomically (recv msg s.bufferRcv) h ↔
      h 0 = 0 ∨ s.context.GroupFound (recv msg s.bufferRcv) ∨
        s.context.InsertsGroup (recv msg s.bufferRcv) h.rest := by
  have hdb := hs.keyed
  obtain ⟨k, hk⟩ := hs.pool
  have hlen := hmsg.groupName_length ht
  generalize recv msg s.bufferRcv = buf at hlen
  have hcode := hdb.create_code buf h
  have hfound : s.context.GroupFound buf ↔
      s.context.groupNames.lookup buf (.rcv groupGroupName) ≠ none := by
    rw [GroupFound]
    cases hl : s.context.groupNames.lookup buf (.rcv groupGroupName) with
    | none => simp [find_of_lookup_none hdb.groups.map.sound hl]
    | some e => simp [find_of_lookup_some hdb.groups.map.sound hl]
  by_cases hkept : h 0 = 0 ∨ s.context.groupNames.lookup buf (.rcv groupGroupName) ≠ none
  · have hsame := hdb.create_unchanged hkept
    have hne : (checkGroupNameAndInsert s.context buf h).1 ≠ .groupSuccessfullyInsert := by
      rw [hcode]
      rcases hkept with h0 | hl
      · simp [h0]
      · split_ifs <;> simp
    refine iff_of_true ⟨fun _ => ?_, fun he => absurd he hne⟩ ?_
    · rw [hsame]
      exact ⟨fun _ => rfl, rfl, rfl, rfl⟩
    · exact hkept.imp_right fun hl => .inl (hfound.mpr hl)
  · have hrest := hkept
    rw [not_or, not_not] at hrest
    obtain ⟨h0, hl⟩ := hrest
    have hcreate := hdb.create_absent hk h0 hl
    rw [hfound, ← or_assoc, or_iff_right hkept, InsertsGroup]
    by_cases hr : s.context.groupNames.insertReports (bucketOf (cstr buf groupGroupName)) h.rest
    · rw [if_pos hr] at hcreate ⊢
      rw [← hdb.entered_iff hk hl hlen]
      constructor
      · intro hatomic
        have hgranted := hatomic.granted
        rw [hcreate] at hgranted
        exact hgranted rfl
      · intro hentered
        refine ⟨fun hne => ?_, fun _ => ?_⟩
        · rw [hcreate] at hne
          exact absurd rfl hne
        · rw [hcreate]
          exact hentered
    · rw [if_neg hr] at hcreate ⊢
      rw [← hdb.sameContents_added_iff hk hl hr]
      constructor
      · intro hatomic
        have hrefused := hatomic.refused
        rw [hcreate] at hrefused
        exact hrefused (by simp)
      · intro hsame
        refine ⟨fun _ => ?_, fun he => ?_⟩
        · rw [hcreate]
          exact hsame
        · rw [hcreate] at he
          cases he

/-- The user `b`, who is not registered, creates the group `a` with all allocations. -/
theorem createsAtomically_running :
    let r := Request.create (.ofText 18 [97] (by decide)) (.ofText 17 [98] (by decide))
    (running id).context.CreatesAtomically (recv r.message (running id).bufferRcv)
      (Heap.succeeding id) := by
  intro r
  refine (reachable_running.createsAtomically_iff (delivers_message _ r) rfl _).mpr
    (.inr (.inr ?_))
  have hreports : (running id).context.groupNames.insertReports
      (bucketOf (cstr (recv r.message (running id).bufferRcv) groupGroupName))
      (Heap.succeeding id).rest = true := by decide
  rw [InsertsGroup, if_pos hreports]
  refine ⟨by decide, by decide, by decide, fun value hvalue => ?_⟩
  have hnone : ((running id).context.registered
      (cstr (recv r.message (running id).bufferRcv) groupUserName)).isNone = true := by decide
  rw [hvalue] at hnone
  cases hnone

/-- There is no memory for the entry of the group map: the creation fails, and the address that
it took is lost. -/
theorem not_createsAtomically_entryFailure :
    let r := Request.create (.ofText 18 [97] (by decide)) (.ofText 17 [98] (by decide))
    Reachable (running id) ∧ (running id).Delivers r.message ∧
      ¬ (running id).context.CreatesAtomically (recv r.message (running id).bufferRcv)
        fun n => if n = 2 then 0 else 1 := by
  intro r
  refine ⟨reachable_running, delivers_message _ r, fun hatomic => ?_⟩
  have havailable := (hatomic.refused (by decide)).available
  have hpool : (checkGroupNameAndInsert (running id).context
      (recv r.message (running id).bufferRcv) fun n => if n = 2 then 0 else 1).2.2.1.addIPPool =
        IPPoolAddr.taken 1 := by decide
  rw [hpool] at havailable
  exact absurd ((IPPoolAddr.available_unchanged_iff 0).mp havailable) (by decide)

end Server
end ChatProject
