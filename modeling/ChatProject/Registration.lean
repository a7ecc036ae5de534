import ChatProject.Reachable

/-!
# What a reported registration stores

`IsUserNameUnique` answers by its search alone: whatever becomes of the new record, of its
group map, and of the chain, entry and node in the user map, a name that was not found is
reported as unique.
-/

namespace ChatProject
open Memory HashMap Protocol

namespace DataBase

/-- The result `UNIQE` comes with the stored record, every other result with the map as it
was. -/
structure RegistersStored (db : DataBase) (buf : Bytes) (h : Heap) : Prop where
  stored : (isUserNameUnique db buf h).1 = uniqe →
    ∃ value, (isUserNameUnique db buf h).2.1.userNames.find buf (some (.rcv userUserName)) =
        (.success, some value) ∧
      value.status = disconnect ∧ value.psw = cstr buf userPassword ∧ value.myGroups.entries = []
  unchanged : (isUserNameUnique db buf h).1 ≠ uniqe →
    (isUserNameUnique db buf h).2.1.userNames = db.userNames

def NameFound (db : DataBase) (buf : Bytes) : Prop :=
  (db.userNames.find buf (some (.rcv userUserName))).1 ≠ .keyNotFoundError

/-- The record and the two parts of its group map are allocated, and then the chain, the entry
and the node in the user map. -/
def AllocatesUser (db : DataBase) (buf : Bytes) (h : Heap) : Prop :=
  (h 0 ≠ 0 ∧ h 1 ≠ 0 ∧ h 2 ≠ 0) ∧
    db.userNames.insertStores (db.userNames.index buf (.rcv userUserName)) h.rest.rest.rest = true

theorem create_allocated {V : Type} {h : Heap} (h0 : h 0 ≠ 0) (h1 : h 1 ≠ 0) :
    (HashMap.create userGroupsCapacity hashFunctionGroups equalityFunctionForGroups h :
      Option (HashMap Bytes CharPtr V) × Heap) = (some freshStrings, h.rest.rest) := by
  have hnext : h.next ≠ 0 := h0
  have hrest : h.rest.next ≠ 0 := h1
  have hcapacity : userGroupsCapacity ≠ 0 := by decide
  rw [HashMap.create, if_neg hcapacity, if_neg hnext, userGroupsCapacity,
    findPrimeLargerThan_fifty]
  simp only [hrest, ↓reduceIte]
  rfl

theorem create_unallocated {V : Type} {h : Heap} (hh : h 0 = 0 ∨ h 1 = 0) :
    (HashMap.create userGroupsCapacity hashFunctionGroups equalityFunctionForGroups h :
      Option (HashMap Bytes CharPtr V) × Heap).1 = none := by
  rw [userGroupsCapacity, create_strings, if_pos hh]

theorem insertUserToList_users (db : DataBase) (buf : Bytes) (h : Heap) :
    (insertUserToList db buf disconnect h).2.1.userNames =
      if h 0 ≠ 0 ∧ h 1 ≠ 0 ∧ h 2 ≠ 0 then
        (db.userNames.insert blank buf (some (.rcv userUserName))
          ⟨disconnect, cstr buf userPassword, freshStrings⟩ h.rest.rest.rest).2.1
      else db.userNames := by
  rw [insertUserToList]
  by_cases h0 : h 0 = 0
  · simp [Heap.next, h0]
  · rw [if_neg (show h.next ≠ 0 from h0), if_pos rfl]
    by_cases hmap : h 1 = 0 ∨ h 2 = 0
    · have hnone : (HashMap.create userGroupsCapacity hashFunctionGroups equalityFunctionForGroups
          h.rest : Option GroupNames × Heap).1 = none := create_unallocated hmap
      have hfail : ¬ (h 0 ≠ 0 ∧ h 1 ≠ 0 ∧ h 2 ≠ 0) := by tauto
      rw [if_neg hfail]
      split
      next => rfl
      next myGroups h' hcreate =>
        rw [hcreate] at hnone
        cases hnone
    · obtain ⟨h1, h2⟩ := not_or.mp hmap
      have hcreate : (HashMap.create userGroupsCapacity hashFunctionGroups
          equalityFunctionForGroups h.rest : Option GroupNames × Heap) =
          (some freshStrings, h.rest.rest.rest) := create_allocated h1 h2
      rw [hcreate, if_pos ⟨h0, h1, h2⟩]
      dsimp only
      split
      next users h' hinsert => rw [hinsert]
      next users h' _ hinsert => rw [hinsert]

end DataBase

namespace Keyed
variable {db : DataBase}
open DataBase

theorem find_user (hdb : Keyed db) (buf : Bytes) :
    db.userNames.find buf (some (.rcv userUserName)) =
      match (db.userNames.bucket (bucketOf (cstr buf userUserName))).head? with
      | none => (.keyNotFoundError, none)
      | some e => (.success, some e.value) := by
  cases hl : db.userNames.lookup buf (.rcv userUserName) with
  | none => rw [find_of_lookup_none hdb.users.map.sound hl, ← hdb.user_lookup, hl]
  | some e => rw [find_of_lookup_some hdb.users.map.sound hl, ← hdb.user_lookup, hl]

theorem find_inserted (hdb : Keyed db) {buf : Bytes}
    (hl : db.userNames.lookup buf (.rcv userUserName) = none) (value : UserValue) (h : Heap) :
    (db.userNames.insert blank buf (some (.rcv userUserName)) value h).2.1.find buf
        (some (.rcv userUserName)) =
      if db.userNames.insertStores (db.userNames.index buf (.rcv userUserName)) h = true then
        (.success, some value)
      else (.keyNotFoundError, none) := by
  obtain ⟨hmap, hbuckets⟩ := hdb.users.map.insert_absent hl value h
  have hindex := hdb.users.map.index buf (.rcv userUserName)
  rw [CharPtr.str_rcv] at hindex hbuckets
  have hempty : db.userNames.bucket (bucketOf (cstr buf userUserName)) = [] :=
    List.head?_eq_none_iff.mp ((hdb.user_lookup buf).symm.trans hl)
  have hbucket := hbuckets (bucketOf (cstr buf userUserName))
  rw [if_pos rfl, hempty, List.append_nil] at hbucket
  rw [hindex]
  by_cases hstores : db.userNames.insertStores (bucketOf (cstr buf userUserName)) h = true
  · rw [if_pos hstores] at hbucket ⊢
    have hsingle := hmap.lookup_of_single (k := .rcv userUserName) hbucket
    rw [if_pos rfl] at hsingle
    exact find_of_lookup_some hmap.sound hsingle
  · rw [if_neg hstores] at hbucket ⊢
    have hnone := hmap.lookup_of_empty (k := .rcv userUserName) hbucket
    exact find_of_lookup_none hmap.sound hnone

end Keyed

namespace Server
open DataBase

/-- A registration is stored as reported exactly when the name is found already or all the
allocations on the way succeed. -/
theorem Reachable.registersStored_iff {s : Server} (hs : Reachable s) (buf : Bytes) (h : Heap) :
    s.context.RegistersStored buf h ↔
      s.context.NameFound buf ∨ s.context.AllocatesUser buf h := by
  have hdb := hs.keyed
  cases hl : s.context.userNames.lookup buf (.rcv userUserName) with
  | some e =>
    have hfind := find_of_lookup_some hdb.users.map.sound hl
    have hfound : s.context.NameFound buf := by simp [NameFound, hfind]
    have hresult : isUserNameUnique s.context buf h = (alreadyExist, s.context, h) := by
      simp [isUserNameUnique, hfind]
    refine iff_of_true ⟨fun hne => ?_, fun _ => ?_⟩ (.inl hfound)
    · rw [hresult] at hne
      cases hne
    · rw [hresult]
  | none =>
    have hfind := find_of_lookup_none hdb.users.map.sound hl
    have hmissing : ¬ s.context.NameFound buf := by simp [NameFound, hfind]
    have hresult : (isUserNameUnique s.context buf h).1 = uniqe ∧
        (isUserNameUnique s.context buf h).2.1 =
          (insertUserToList s.context buf disconnect h).2.1 := by
      simp [isUserNameUnique, hfind]
    have husers := insertUserToList_users s.context buf h
    rw [← hresult.2] at husers
    rw [or_iff_right hmissing, AllocatesUser]
    by_cases hrecord : h 0 ≠ 0 ∧ h 1 ≠ 0 ∧ h 2 ≠ 0
    · rw [if_pos hrecord] at husers
      have hafter := hdb.find_inserted hl ⟨disconnect, cstr buf userPassword, freshStrings⟩
        h.rest.rest.rest
      rw [← husers] at hafter
      by_cases hstores : s.context.userNames.insertStores
          (s.context.userNames.index buf (.rcv userUserName)) h.rest.rest.rest = true
      · rw [if_pos hstores] at hafter
        refine iff_of_true ⟨fun _ => ⟨_, hafter, rfl, rfl, ?_⟩, fun hne => ?_⟩ ⟨hrecord, hstores⟩
        · rw [entries, List.flatMap_eq_nil_iff]
          exact fun b _ => bucket_fresh 50 53 _ _ b
        · exact absurd hresult.1 hne
      · rw [if_neg hstores] at hafter
        refine iff_of_false (fun hreg => ?_) fun hall => hstores hall.2
        obtain ⟨value, hvalue, -⟩ := hreg.stored hresult.1
        rw [hafter] at hvalue
        cases hvalue
    · rw [if_neg hrecord] at husers
      refine iff_of_false (fun hreg => ?_) fun hall => hrecord hall.1
      obtain ⟨value, hvalue, -⟩ := hreg.stored hresult.1
      rw [husers, hfind] at hvalue
      cases hvalue

theorem reachable_running : Reachable (running id) := .after id []

def registerRequest : Request :=
  .register (.ofText 17 [97] (by decide)) (.ofText 17 [98] (by decide))

def registerBuffer : Bytes := recv registerRequest.message (running id).bufferRcv

theorem registersStored_running :
    (running id).context.RegistersStored registerBuffer (Heap.succeeding id) :=
  (reachable_running.registersStored_iff registerBuffer (Heap.succeeding id)).mpr
    (.inr ⟨⟨by decide, by decide, by decide⟩, by decide⟩)

/-- There is no memory for the record. -/
theorem not_registersStored_running : Reachable (running id) ∧
    ¬ (running id).context.RegistersStored registerBuffer fun _ => 0 := by
  refine ⟨reachable_running, fun h => ?_⟩
  obtain ⟨value, hvalue, -⟩ := h.stored (by decide)
  have hfind : ((isUserNameUnique (running id).context registerBuffer fun _ => 0).2.1.userNames.find
      registerBuffer (some (.rcv userUserName))).1 = .keyNotFoundError := by decide
  rw [hvalue] at hfind
  cases hfind

end Server
end ChatProject
