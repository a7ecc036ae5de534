import ChatProject.NameSet
import ChatProject.Requests

/-!
# Servers that any messages and any allocation failures lead to

A message of up to a whole buffer arrives; the fields that its handler reads, in part
left by earlier messages, are terminated. A message that stops the server has no
successor state. Wherever the run has led, the keys of the user map and of the group map
point to the two name fields of the receive buffer, and the names of a user's groups own
their memory.
-/

namespace ChatProject
open Memory HashMap Protocol

structure Entries {V : Type} (P : DataItem CharPtr V → Prop) (m : HashMap Bytes CharPtr V) :
    Prop where
  map : StringMap m
  all : ∀ b, ∀ e ∈ m.bucket b, P e

namespace Entries
variable {V : Type} {P : DataItem CharPtr V → Prop} {m : HashMap Bytes CharPtr V}

theorem fresh : Entries P freshStrings where
  map := freshStrings_map
  all := fun b e he => by simp [bucket_fresh] at he

theorem insert (hm : Entries P m) (buf : Bytes) {k : CharPtr} {v : V} (hP : P ⟨v, k⟩) (h : Heap) :
    Entries P (m.insert blank buf (some k) v h).2.1 := by
  cases hk : m.lookup buf k with
  | some e =>
    rw [insert_present hm.map.sound hk]
    exact hm
  | none =>
    obtain ⟨hmap, hb⟩ := hm.map.insert_absent hk v h
    refine ⟨hmap, fun b e he => ?_⟩
    rw [hb] at he
    split_ifs at he
    · rcases List.mem_append.mp he with he | he
      · rw [List.mem_singleton.mp he]
        exact hP
      · exact hm.all b e he
    · exact hm.all b e (by simpa using he)
    · exact hm.all b e he

theorem modifyFound (hm : Entries P m) {buf : Bytes} {k : CharPtr} {e : DataItem CharPtr V}
    (he : m.lookup buf k = some e) {f : V → V} (hP : ∀ e, P e → P { e with value := f e.value }) :
    Entries P (m.modifyFound buf k f) := by
  obtain ⟨hmap, -, hb⟩ := hm.map.modifyFound he f
  refine ⟨hmap, fun b e' he' => ?_⟩
  rw [hb] at he'
  split_ifs at he'
  · obtain ⟨j, hj⟩ := List.mem_iff_getElem?.mp he'
    rw [List.getElem?_modify] at hj
    obtain ⟨e₀, he₀, rfl⟩ := Option.map_eq_some_iff.mp hj
    have hold := hm.all b e₀ (List.mem_of_getElem? he₀)
    split_ifs
    · exact hP e₀ hold
    · exact hold
  · exact hm.all b e' he'

theorem remove (hm : Entries P m) (buf : Bytes) (k : CharPtr) :
    Entries P (m.remove buf (some k)).2.2 := by
  cases hk : m.lookup buf k with
  | none =>
    rw [HashMap.remove_absent hm.map.sound hk]
    exact hm
  | some e =>
    obtain ⟨m', he, hs, hsame, hb⟩ := HashMap.remove_present hm.map.sound hk
    rw [he]
    refine ⟨hm.map.of_same hs hsame, fun b e' he' => ?_⟩
    rw [hb] at he'
    split_ifs at he'
    · exact hm.all b e' (List.mem_of_mem_eraseP he')
    · exact hm.all b e' he'

theorem of_lookup (hm : Entries P m) {buf : Bytes} {k : CharPtr} {e : DataItem CharPtr V}
    (he : m.lookup buf k = some e) : P e :=
  hm.all _ e (List.mem_of_find?_eq_some he)

theorem lookup_of_find (hm : Entries P m) {buf : Bytes} {k : CharPtr} {v : V}
    (h : m.find buf (some k) = (.success, some v)) :
    ∃ e, m.lookup buf k = some e ∧ e.value = v := by
  cases hk : m.lookup buf k with
  | none => simp [find_of_lookup_none hm.map.sound hk] at h
  | some e =>
    rw [find_of_lookup_some hm.map.sound hk] at h
    exact ⟨e, rfl, by simpa using h⟩

end Entries

/-! ## What the operations keep, a message keeps -/

structure KeptByOperations (P : DataBase → Prop) (db : DataBase) : Prop where
  unchanged : P db
  register : ∀ buf h, P (DataBase.isUserNameUnique db buf h).2.1
  login : ∀ buf h, P (DataBase.checkClientStatusAndConnect db buf h).2.1
  create : ∀ buf h, P (DataBase.checkGroupNameAndInsert db buf h).2.2.1
  join : ∀ buf, P (DataBase.tryToJoinToGroup db buf).2.2
  leave : ∀ buf, P (DataBase.tryToLeaveToGroup db buf).2.2

namespace KeptByOperations
variable {P : DataBase → Prop} {db : DataBase}

theorem userRequest (hP : KeptByOperations P db) (buf : Bytes) (type : ProtocolType) (h : Heap) :
    P (ServerApp.checkUserNameOnDB db buf type h).2.1 := by
  cases type with
  | registerReq =>
    rw [ServerApp.checkUserNameOnDB]
    split_ifs
    · exact hP.unchanged
    · exact hP.register buf h.rest
  | loginReq =>
    rw [ServerApp.checkUserNameOnDB]
    split_ifs
    · exact hP.unchanged
    · exact hP.login buf h.rest
  | _ => exact hP.unchanged

theorem groupRequest (hP : KeptByOperations P db) (buf : Bytes) (type : ProtocolType) (h : Heap) :
    P (ServerApp.ansForGroupRequests db buf type h).2.1 := by
  unfold ServerApp.ansForGroupRequests
  split_ifs
  · exact hP.unchanged
  · cases type with
    | createGroupConversationReq => exact hP.create buf h.rest
    | joinConversationReq => exact hP.join buf
    | leaveConversationReq => exact hP.leave buf
    | _ => exact hP.unchanged

theorem exchange {s : Server} (hP : KeptByOperations P s.context) (msg : Bytes) :
    P (s.exchange msg).2.context := by
  have huser : ∀ {buf type res}, ServerApp.checkUserNameOnDB s.context buf type s.heap = res →
      P res.2.1 := by
    rintro buf type res rfl
    exact hP.userRequest buf type s.heap
  simp only [Server.exchange, ServerApp.getFromClientAndSendToServer]
  split
  · split
    next hu => exact huser hu
    next hu => exact huser hu
  · split
    next hu => exact huser hu
    next hu => exact huser hu
  · exact hP.groupRequest _ _ _
  · exact hP.groupRequest _ _ _
  · exact hP.groupRequest _ _ _
  · exact hP.unchanged

end KeptByOperations

def OwnName (e : DataItem CharPtr CharPtr) : Prop := ∃ g, e.key = .own g

/-- Where the server's maps have their keys. -/
structure Keyed (db : DataBase) : Prop where
  users : Entries (fun e => e.key = .rcv userUserName ∧ Entries OwnName e.value.myGroups)
    db.userNames
  groups : Entries (fun e => e.key = .rcv groupGroupName) db.groupNames

namespace Keyed
variable {db : DataBase}
open DataBase

/-! All stored keys are read at the place of the name that a request brings. -/

theorem user_lookup (hdb : Keyed db) (buf : Bytes) :
    db.userNames.lookup buf (.rcv userUserName) =
      (db.userNames.bucket (bucketOf (cstr buf userUserName))).head? := by
  rw [hdb.users.map.lookup_of_keys (fun b e he => (hdb.users.all b e he).1), if_pos rfl]
  rfl

theorem group_lookup (hdb : Keyed db) (buf : Bytes) :
    db.groupNames.lookup buf (.rcv groupGroupName) =
      (db.groupNames.bucket (bucketOf (cstr buf groupGroupName))).head? := by
  rw [hdb.groups.map.lookup_of_keys hdb.groups.all, if_pos rfl]
  rfl

theorem caller_lookup (hdb : Keyed db) (buf : Bytes) :
    db.userNames.lookup buf (.rcv groupUserName) =
      if cstr buf userUserName = cstr buf groupUserName then
        (db.userNames.bucket (bucketOf (cstr buf groupUserName))).head?
      else none :=
  hdb.users.map.lookup_of_keys (fun b e he => (hdb.users.all b e he).1) buf _

theorem entries_of_create {V : Type} {P : DataItem CharPtr V → Prop} {m : HashMap Bytes CharPtr V}
    {h : Heap} (he : (HashMap.create 50 hashFunctionGroups equalityFunctionForGroups h :
      Option (HashMap Bytes CharPtr V) × Heap).1 = some m) : Entries P m := by
  rw [create_strings] at he
  split_ifs at he
  cases he
  exact .fresh

theorem of_create {h h' : Heap} (he : createMainDataBase h = (some db, h')) : Keyed db := by
  have husers : ∀ h m, (createUserDataBase h).1 = some m → Entries (fun e =>
      e.key = .rcv userUserName ∧ Entries OwnName e.value.myGroups) m := by
    intro h m hm
    rw [createUserDataBase] at hm
    split_ifs at hm
    exact entries_of_create hm
  have hgroups : ∀ h m, (createGroupsDataBase h).1 = some m →
      Entries (fun e => e.key = .rcv groupGroupName) m := by
    intro h m hm
    rw [createGroupsDataBase] at hm
    split_ifs at hm
    exact entries_of_create hm
  by_cases h0 : h.next = 0
  · simp [createMainDataBase, h0] at he
  · simp only [createMainDataBase, h0, ↓reduceIte] at he
    split at he
    next users groups pool hu hg hp =>
      cases he
      exact ⟨husers _ _ hu, hgroups _ _ hg⟩
    next => cases he

theorem insertUser (hdb : Keyed db) (buf : Bytes) (status : ℤ) (h : Heap) :
    Keyed (insertUserToList db buf status h).2.1 := by
  rw [insertUserToList]
  split_ifs with h0 hs
  · exact hdb
  · split
    next => exact hdb
    next myGroups h' hmap =>
      have hown : Entries OwnName myGroups := entries_of_create (congrArg Prod.fst hmap)
      have hins := hdb.users.insert buf (k := .rcv userUserName)
        (v := ⟨status, cstr buf userPassword, myGroups⟩) ⟨rfl, hown⟩ h'
      split
      next users h'' hu =>
        rw [hu] at hins
        exact ⟨hins, hdb.groups⟩
      next users h'' _ hu =>
        rw [hu] at hins
        exact ⟨hins, hdb.groups⟩
  · exact hdb

theorem register (hdb : Keyed db) (buf : Bytes) (h : Heap) :
    Keyed (isUserNameUnique db buf h).2.1 := by
  rw [isUserNameUnique]
  split_ifs
  · exact hdb.insertUser buf disconnect h
  · exact hdb

theorem login (hdb : Keyed db) (buf : Bytes) (h : Heap) :
    Keyed (checkClientStatusAndConnect db buf h).2.1 := by
  rw [checkClientStatusAndConnect]
  split
  · split_ifs
    · exact hdb
    · exact hdb
    · exact hdb.insertUser buf connect h
  · exact hdb

theorem setGroups (hdb : Keyed db) {buf : Bytes} {k : CharPtr} {user : UserValue}
    (hfind : db.userNames.find buf (some k) = (.success, some user)) {myGroups : GroupNames}
    (hown : Entries OwnName user.myGroups → Entries OwnName myGroups) :
    Keyed { db with
      userNames := db.userNames.modifyFound buf k
        (fun value => { value with myGroups := myGroups }) } where
  users := by
    obtain ⟨e, he, rfl⟩ := hdb.users.lookup_of_find hfind
    have hnew := hown (hdb.users.of_lookup he).2
    exact hdb.users.modifyFound (f := fun value => { value with myGroups := myGroups }) he
      (fun e' he' => ⟨he'.1, hnew⟩)
  groups := hdb.groups

theorem setPartic (hdb : Keyed db) {buf : Bytes} {k : CharPtr} {group : GroupValue}
    (hfind : db.groupNames.find buf (some k) = (.success, some group))
    (f : GroupValue → GroupValue) :
    Keyed { db with groupNames := db.groupNames.modifyFound buf k f } where
  users := hdb.users
  groups := by
    obtain ⟨e, he, -⟩ := hdb.groups.lookup_of_find hfind
    exact hdb.groups.modifyFound he (fun e' he' => he')

theorem updateGroupDetails (hdb : Keyed db) (buf : Bytes) (k group : CharPtr) (h : Heap) :
    Keyed (updateGroupDetailsForUser db buf k group h).1 := by
  rw [updateGroupDetailsForUser]
  split
  next user hfind =>
    split_ifs
    · exact hdb
    · exact hdb.setGroups hfind (fun hown => hown.insert buf ⟨group.str buf, rfl⟩ h.rest)
  next => exact hdb

theorem create (hdb : Keyed db) (buf : Bytes) (h : Heap) :
    Keyed (checkGroupNameAndInsert db buf h).2.2.1 := by
  have hins : ∀ {value h res},
      db.groupNames.insert blank buf (some (.rcv groupGroupName)) value h = res →
        Entries (fun e => e.key = .rcv groupGroupName) res.2.1 := by
    rintro value h res rfl
    exact hdb.groups.insert buf rfl h
  simp only [checkGroupNameAndInsert]
  split_ifs
  · exact hdb
  · exact hdb
  · split
    next groups h' hi =>
      have hadded : Keyed { db with
          groupNames := groups, addIPPool := (db.addIPPool.getIPAddress).2.2 } :=
        ⟨hdb.users, hins hi⟩
      exact hadded.updateGroupDetails buf _ _ h'
    next groups h' _ hi =>
      exact ⟨hdb.users, hins hi⟩

theorem join (hdb : Keyed db) (buf : Bytes) : Keyed (tryToJoinToGroup db buf).2.2 := by
  rw [tryToJoinToGroup]
  split
  next group hfind =>
    split_ifs
    · exact hdb.setPartic hfind _
    · exact hdb
  next => exact hdb
  next => exact hdb

theorem leave (hdb : Keyed db) (buf : Bytes) : Keyed (tryToLeaveToGroup db buf).2.2 := by
  rw [tryToLeaveToGroup]
  split
  next user hfind =>
    split
    next g myGroups hremove =>
      have hown : Entries OwnName user.myGroups → Entries OwnName myGroups := by
        intro hown
        simpa [hremove] using hown.remove buf (.rcv groupGroupName)
      have hleft := hdb.setGroups hfind hown
      dsimp only
      split
      next group hgroup =>
        split_ifs
        · exact hleft.setPartic hgroup _
        · exact hleft
      next => exact hleft
    next => exact hdb
  next => exact hdb

theorem operations (hdb : Keyed db) : KeptByOperations Keyed db where
  unchanged := hdb
  register := hdb.register
  login := hdb.login
  create := hdb.create
  join := hdb.join
  leave := hdb.leave

theorem exchange {s : Server} (hs : Keyed s.context) (msg : Bytes) :
    Keyed (s.exchange msg).2.context :=
  hs.operations.exchange msg

end Keyed

namespace Server

/-- The text fields that the handler of the received message reads are terminated. -/
def Terminated (buf : Bytes) : Prop :=
  match ProtocolType.ofByte (buf.getD 0 0) with
  | some .registerReq | some .loginReq =>
    0 ∈ (buf.drop userPassword).take 17 ∧ 0 ∈ (buf.drop userUserName).take 17
  | some .createGroupConversationReq | some .joinConversationReq | some .leaveConversationReq =>
    0 ∈ (buf.drop groupGroupName).take 18 ∧ 0 ∈ (buf.drop groupUserName).take 17
  | _ => True

structure Delivers (s : Server) (msg : Bytes) : Prop where
  nonempty : 1 ≤ msg.length
  fits : msg.length ≤ buffSize
  terminated : Terminated (recv msg s.bufferRcv)

inductive Reachable : Server → Prop
  | start {h : Heap} {s : Server} : start h = some s → Reachable s
  | exchange {s : Server} {msg : Bytes} : Reachable s → s.Delivers msg →
      (s.exchange msg).1 ≠ .crash → Reachable (s.exchange msg).2

theorem Reachable.keyed {s : Server} (hs : Reachable s) : Keyed s.context := by
  induction hs with
  | @start h s he =>
    rw [Server.start] at he
    split at he
    next db h' hdb =>
      cases he
      exact .of_create hdb
    next => cases he
  | exchange _ _ _ ih => exact ih.exchange _

end Server

/-! ## Runs of requests with succeeding allocations -/

section Frame
variable {n k : ℕ} (type : ProtocolType) (f : Field n) (f' : Field k)

theorem frame_length : (frame type f f').length = n + k + 1 := by
  simp [frame, f.size, f'.size]

theorem frame_terminated (rest : Bytes) :
    0 ∈ ((frame type f f' ++ rest).drop 1).take n ∧
      0 ∈ ((frame type f f' ++ rest).drop (n + 1)).take k := by
  simp only [frame, List.cons_append, List.drop_succ_cons, List.drop_zero, List.append_assoc]
  rw [List.take_left' f.size, List.drop_left' f.size, List.take_left' f'.size]
  exact ⟨f.terminated, f'.terminated⟩

end Frame

namespace Server

theorem delivers_message (s : Server) (r : Request) : s.Delivers r.message where
  nonempty := by cases r <;> simp [Request.message, frame_length]
  fits := by cases r <;> simp [Request.message, frame_length, buffSize]
  terminated := by cases r <;> exact frame_terminated _ _ _ _

theorem Reachable.after (p : ℕ → ℕ) (rs : List Request) : Reachable (Server.after p rs) := by
  have hstep : ∀ s r, (Reachable s ∧ ∃ t, Serves s t) →
      Reachable (handle s r) ∧ ∃ t, Serves (handle s r) t := by
    rintro s r ⟨hs, t, ht⟩
    obtain ⟨-, s', he, hs'⟩ := ht.exchange r
    refine ⟨hs.exchange (s.delivers_message r) (by simp [he, ServerApp.packAnswer]),
      t.next r.call, ?_⟩
    rwa [handle, he]
  have hstart : Server.start (Heap.succeeding p) = some (running p) := by simp [running]
  exact (Run.invariant hstep ⟨.start hstart, _, running_serves p⟩ rs).1

end Server
end ChatProject
