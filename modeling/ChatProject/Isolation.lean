import ChatProject.Answers

/-!
# What a message takes from earlier messages

A message overwrites only as much of the receive buffer as it is long. Its answer is the
same whatever the buffer held before, for every reachable database, exactly if the
message carries the names that its handler looks up, up to their terminators.
-/

namespace ChatProject
open Memory HashMap Protocol

namespace Server
variable (msg buf : Bytes)

theorem drop_recv (off : ℕ) :
    (recv msg buf).drop off = msg.drop off ++ buf.drop (max msg.length off) := by
  rw [recv, List.drop_append, List.drop_drop]
  congr 2
  omega

theorem cstr_recv_of_mem {off : ℕ} (h : 0 ∈ msg.drop off) :
    cstr (recv msg buf) off = text (msg.drop off) := by
  rw [cstr, drop_recv, text_append_of_mem _ _ h]

theorem cstr_recv_of_notMem {off : ℕ} (h : 0 ∉ msg.drop off) :
    cstr (recv msg buf) off = msg.drop off ++ cstr buf (max msg.length off) := by
  rw [cstr, drop_recv, text_append_of_notMem _ _ h, cstr]

theorem recv_getElem? {i : ℕ} (h : i < msg.length) : (recv msg buf)[i]? = msg[i]? :=
  List.getElem?_append_left h

end Server

theorem names_lookup_congr {m : GroupNames} (hm : Entries OwnName m) {buf buf' : Bytes}
    {k : CharPtr} (hname : k.str buf = k.str buf') : m.lookup buf k = m.lookup buf' k := by
  apply lookup_congr
  · rw [hm.map.index, hm.map.index, hname]
  · intro e he
    obtain ⟨g, hg⟩ := hm.all _ e he
    simp [hm.map.isEqual, hg, hname]

namespace Keyed
open DataBase
variable {db : DataBase} (hdb : Keyed db) {buf buf' : Bytes}
include hdb

theorem register_congr (hname : cstr buf userUserName = cstr buf' userUserName) (h : Heap) :
    ServerApp.code db buf h .registerReq = ServerApp.code db buf' h .registerReq := by
  rw [ServerApp.code, ServerApp.code, hdb.register_code, hdb.register_code,
    hdb.user_lookup, hdb.user_lookup, hname]

theorem login_congr (hname : cstr buf userUserName = cstr buf' userUserName)
    (hpsw : cstr buf userPassword = cstr buf' userPassword) (h : Heap) :
    ServerApp.code db buf h .loginReq = ServerApp.code db buf' h .loginReq := by
  rw [ServerApp.code, ServerApp.code, hdb.login_code, hdb.login_code,
    hdb.user_lookup, hdb.user_lookup, hname, hpsw]

theorem create_congr (hname : cstr buf groupGroupName = cstr buf' groupGroupName) (h : Heap) :
    ServerApp.code db buf h .createGroupConversationReq =
      ServerApp.code db buf' h .createGroupConversationReq := by
  rw [ServerApp.code, ServerApp.code, hdb.create_code, hdb.create_code,
    hdb.group_lookup, hdb.group_lookup, hname]

theorem join_congr (hname : cstr buf groupGroupName = cstr buf' groupGroupName) (h : Heap) :
    ServerApp.code db buf h .joinConversationReq =
      ServerApp.code db buf' h .joinConversationReq := by
  rw [ServerApp.code, ServerApp.code, hdb.join_code, hdb.join_code,
    hdb.group_lookup, hdb.group_lookup, hname]

theorem leave_congr (hkey : cstr buf userUserName = cstr buf' userUserName)
    (huser : cstr buf groupUserName = cstr buf' groupUserName)
    (hname : cstr buf groupGroupName = cstr buf' groupGroupName) (h : Heap) :
    ServerApp.code db buf h .leaveConversationReq =
      ServerApp.code db buf' h .leaveConversationReq := by
  rw [ServerApp.code, ServerApp.code, hdb.leave_code, hdb.leave_code,
    hdb.caller_lookup buf, hkey, huser, ← hdb.caller_lookup]
  cases hl : db.userNames.lookup buf' (.rcv groupUserName) with
  | none => rfl
  | some e =>
    have hown := (hdb.users.of_lookup hl).2
    have hgroup := names_lookup_congr hown (k := .rcv groupGroupName) hname
    simp only [hgroup]

theorem leave_absent (hne : cstr buf userUserName ≠ cstr buf groupUserName) (h : Heap) :
    ServerApp.code db buf h .leaveConversationReq = some .groupNameNotExist := by
  rw [ServerApp.code, hdb.leave_code, hdb.caller_lookup, if_neg hne]
  rfl

end Keyed

abbrev Received := {msg : Bytes // 1 ≤ msg.length ∧ msg.length ≤ Server.buffSize}

namespace Received
variable (msg : Received)

def type : Option ProtocolType := ProtocolType.ofByte (msg.1.getD 0 0)

/-- The message fills the buffer, or it has the terminator of the name that its handler
looks up. A leave must have the first byte of the user name, unless the byte before,
where the stored keys begin, is not a terminator. -/
def Carries : Prop :=
  msg.1.length = Server.buffSize ∨
    match msg.type with
    | some .registerReq | some .loginReq => 0 ∈ msg.1.drop userUserName
    | some .createGroupConversationReq | some .joinConversationReq =>
      0 ∈ msg.1.drop groupGroupName
    | some .leaveConversationReq =>
      groupUserName < msg.1.length ∨ ∃ c ≠ 0, msg.1[userUserName]? = some c
    | _ => True

def answer (s : Server) (buf : Block Server.buffSize) : Option (ProtocolType × Option Answers) :=
  Server.answered (({ s with bufferRcv := buf.1 } : Server).exchange msg.1).1

/-- The answer does not depend on what the buffer held before. -/
def Isolated (s : Server) : Prop := ∀ buf buf', msg.answer s buf = msg.answer s buf'

theorem mem_drop_of_getElem? {msg : Bytes} {i off : ℕ} {c : UInt8} (h : msg[i]? = some c)
    (hoff : off ≤ i) : c ∈ msg.drop off := by
  apply List.mem_of_getElem? (i := i - off)
  rw [List.getElem?_drop, Nat.add_sub_cancel' hoff, h]

theorem leave_carried {db : DataBase} (hdb : Keyed db) (buf buf' : Bytes)
    (hc : groupUserName < msg.1.length ∨ ∃ c ≠ 0, msg.1[userUserName]? = some c) (h : Heap) :
    ServerApp.code db (Server.recv msg.1 buf) h .leaveConversationReq =
      ServerApp.code db (Server.recv msg.1 buf') h .leaveConversationReq := by
  have hlt : userUserName < msg.1.length := by
    rcases hc with hc | ⟨c, -, hc⟩
    · exact Nat.lt_of_succ_lt hc
    · exact (List.getElem?_eq_some_iff.mp hc).1
  obtain ⟨c, hspare⟩ : ∃ c, msg.1[userUserName]? = some c := ⟨_, List.getElem?_eq_getElem hlt⟩
  have hkey : ∀ b, cstr (Server.recv msg.1 b) userUserName =
      if c = 0 then [] else c :: cstr (Server.recv msg.1 b) groupUserName := fun b =>
    cstr_of_getElem? _ _ _ ((Server.recv_getElem? msg.1 b hlt).trans hspare)
  -- the stored keys begin at byte 18, the name that is looked up at byte 19
  by_cases hzero : c = 0
  · have huser : groupUserName < msg.1.length := by
      rcases hc with hc | ⟨c', hne, hc'⟩
      · exact hc
      · rw [hspare, hzero] at hc'
        exact absurd (Option.some.inj hc').symm hne
    obtain ⟨d, hfirst⟩ : ∃ d, msg.1[groupUserName]? = some d :=
      ⟨_, List.getElem?_eq_getElem huser⟩
    have hname : ∀ b, cstr (Server.recv msg.1 b) groupUserName =
        if d = 0 then [] else d :: cstr (Server.recv msg.1 b) (groupUserName + 1) := fun b =>
      cstr_of_getElem? _ _ _ ((Server.recv_getElem? msg.1 b huser).trans hfirst)
    by_cases hempty : d = 0
    · rw [hzero] at hspare
      have hgroup : 0 ∈ msg.1.drop groupGroupName := mem_drop_of_getElem? hspare (by decide)
      apply hdb.leave_congr
      · simp [hkey, hzero]
      · simp [hname, hempty]
      · rw [Server.cstr_recv_of_mem _ _ hgroup, Server.cstr_recv_of_mem _ _ hgroup]
    · rw [hdb.leave_absent, hdb.leave_absent] <;> simp [hkey, hname, hzero, hempty]
  · rw [hdb.leave_absent, hdb.leave_absent] <;> simp [hkey, hzero]

theorem code_carried {db : DataBase} (hdb : Keyed db) {t : ProtocolType} (ht : msg.type = some t)
    (hreq : t ∈ requestTypes) (hc : msg.Carries) (buf buf' : Block Server.buffSize) (h : Heap) :
    ServerApp.code db (Server.recv msg.1 buf.1) h t =
      ServerApp.code db (Server.recv msg.1 buf'.1) h t := by
  rcases hc with hfull | hc
  · have hrecv : ∀ buf : Block Server.buffSize, Server.recv msg.1 buf.1 = msg.1 := by
      intro buf
      simp [Server.recv, hfull, buf.2]
    rw [hrecv, hrecv]
  · rw [ht] at hc
    have hsame : ∀ {off : ℕ}, 0 ∈ msg.1.drop off →
        cstr (Server.recv msg.1 buf.1) off = cstr (Server.recv msg.1 buf'.1) off := by
      intro off hmem
      rw [Server.cstr_recv_of_mem _ _ hmem, Server.cstr_recv_of_mem _ _ hmem]
    simp only [requestTypes, List.mem_cons, List.not_mem_nil, or_false] at hreq
    rcases hreq with rfl | rfl | rfl | rfl | rfl
    · exact hdb.register_congr (hsame hc) h
    · -- the zero that ends the name ends the password, at the latest
      have hpsw : 0 ∈ msg.1.drop userPassword := List.drop_subset_drop_left _ (by decide) hc
      exact hdb.login_congr (hsame hc) (hsame hpsw) h
    · exact hdb.create_congr (hsame hc) h
    · exact hdb.join_congr (hsame hc) h
    · exact msg.leave_carried hdb _ _ hc h

theorem requested (s : Server) (buf : Bytes) :
    ({ s with bufferRcv := buf } : Server).requested msg.1 = msg.type :=
  Server.requested_eq _ _ msg.2.1

theorem answer_eq (s : Server) {t : ProtocolType} (ht : msg.type = some t) (hreq : t ∈ requestTypes)
    (h0 : s.heap 0 ≠ 0) (buf : Block Server.buffSize) :
    msg.answer s buf = t.answerType.map fun t' =>
      (t', ServerApp.code s.context (Server.recv msg.1 buf.1) s.heap.rest t) := by
  obtain ⟨a, sent, he, htype, hcode⟩ :=
    Server.exchange_allocated { s with bufferRcv := buf.1 } msg.1
      ((msg.requested s buf.1).trans ht) hreq h0
  rw [answer, he, htype, Option.map_some, ← hcode]
  rfl

theorem isolated_of_carries (hc : msg.Carries) {s : Server} (hs : Keyed s.context) :
    msg.Isolated s := by
  intro buf buf'
  by_cases hreq : ∃ t ∈ requestTypes, msg.type = some t
  · obtain ⟨t, hreq, ht⟩ := hreq
    by_cases h0 : s.heap 0 = 0
    · have hnull : ∀ buf, msg.answer s buf = none := by
        intro buf
        rw [answer, Server.exchange_unallocated { s with bufferRcv := buf.1 } msg.1
          ((msg.requested s buf.1).trans ht) hreq h0]
        split_ifs <;> rfl
      rw [hnull, hnull]
    · rw [msg.answer_eq s ht hreq h0, msg.answer_eq s ht hreq h0,
        msg.code_carried hs ht hreq hc buf buf']
  · have hcrash : ∀ buf, msg.answer s buf = none := by
      intro buf
      rw [answer, Server.exchange_other]
      · rfl
      · intro t ht he
        exact hreq ⟨t, ht, (msg.requested s buf.1).symm.trans he⟩
    rw [hcrash, hcrash]

end Received

/-! ## Earlier contents that show -/

def blankBuffer : Block Server.buffSize := ⟨List.replicate Server.buffSize 0, List.length_replicate⟩

def markedBuffer (j : ℕ) : Block Server.buffSize :=
  ⟨(List.replicate Server.buffSize 0).set j 1, by simp⟩

theorem cstr_replicate (n off : ℕ) : cstr (List.replicate n 0) off = [] := by
  rw [cstr, List.drop_replicate]
  cases n - off <;> simp [List.replicate_succ, text]

theorem cstr_marked_succ (j : ℕ) : cstr (markedBuffer j).1 (j + 1) = [] := by
  rw [cstr, markedBuffer, List.drop_set_of_lt (Nat.lt_succ_self j)]
  exact cstr_replicate _ _

theorem cstr_marked {j : ℕ} (hj : j < Server.buffSize) : cstr (markedBuffer j).1 j = [1] := by
  have hmark : (markedBuffer j).1[j]? = some 1 := by simp [markedBuffer, hj]
  rw [cstr_of_getElem? _ _ _ hmark, cstr_marked_succ]
  rfl

theorem stringHash_succ (x : ℤ) : ((x + 1) % 2 ^ 64).toNat % 53 ≠ (x % 2 ^ 64).toNat % 53 := by
  have hpow : (2 : ℤ) ^ 64 = 18446744073709551616 := rfl
  rw [hpow]
  generalize hy : (x % 18446744073709551616).toNat = y
  have hsucc : ((x + 1) % 18446744073709551616).toNat =
      if y = 18446744073709551615 then 0 else y + 1 := by
    split_ifs <;> omega
  rw [hsucc]
  split_ifs with h
  · rw [h]
    decide
  · omega

theorem bucketOf_append_one (s : CStr) : bucketOf (s ++ [1]) ≠ bucketOf s := by
  rw [bucketOf, DataBase.stringHash, List.foldl_append]
  exact stringHash_succ _

theorem exists_byte : ∀ b < 53, ∃ c : UInt8, c ≠ 0 ∧ bucketOf [c] = b := by
  have h : ∀ b < 53, (UInt8.ofNat (if b = 0 then 53 else b)) ≠ 0 ∧
      bucketOf [UInt8.ofNat (if b = 0 then 53 else b)] = b := by decide
  exact fun b hb => ⟨_, h b hb⟩

namespace Server

theorem user_bucket (p : ℕ → ℕ) (name psw : Field 17) (b : ℕ) :
    (after p [.register name psw]).context.userNames.bucket b = [] ↔ b ≠ bucketOf name.str := by
  have hrefines := (after_serves p [.register name psw]).refines
  have haccount : (Tables.after [.register name psw]).accounts b =
      if b = bucketOf name.str then some ⟨name.str, psw.str, []⟩ else none :=
    Tables.setAccount_accounts _ _ _ b
  by_cases hb : b = bucketOf name.str
  · rw [if_pos hb] at haccount
    obtain ⟨e, he, -⟩ := hrefines.bucket_of_some haccount
    rw [he]
    exact iff_of_false (List.cons_ne_nil _ _) (not_not.mpr hb)
  · rw [if_neg hb] at haccount
    simp [hrefines.bucket_of_none haccount, hb]

theorem group_bucket (p : ℕ → ℕ) (group : Field 18) (user : Field 17) (b : ℕ) :
    (after p [.create group user]).context.groupNames.bucket b = [] ↔ b ≠ bucketOf group.str := by
  have hgroups : (Tables.after [.create group user]).groups b =
      (Tables.empty.create group.groupName user.str group.last).2.2.groups b := rfl
  rw [(after_serves p [.create group user]).refines.group, hgroups]
  by_cases hb : b = bucketOf group.str <;> simp [Tables.create, Tables.empty, hb]

theorem exists_member (g : CStr) (hg : g.length < 18) (h0 : 0 ∉ g) :
    ∃ s t, s.Reachable ∧ Serves s t ∧ ∃ a, t.caller [] 0 = some a ∧ g ∈ a.groups := by
  let empty := Field.ofText 17 [] (by decide)
  let group := Field.ofText 18 g hg
  let rs := [Request.register empty empty, Request.create group empty]
  have hname : group.str = g := Field.str_ofText hg h0
  have hlast : group.last = 0 := by
    change (g ++ List.replicate (18 - g.length) 0).getD 17 0 = 0
    rw [List.getD_eq_getElem?_getD, List.getElem?_append_right (by omega),
      List.getElem?_replicate]
    split_ifs <;> rfl
  refine ⟨after id rs, Tables.after rs, .after id rs, after_serves id rs, ?_⟩
  have hafter : Tables.after rs = (Tables.empty.next (.register [] [])).next
      (.create group.groupName [] 0) := by
    rw [← hlast]
    rfl
  refine ⟨⟨[], [], [g]⟩, ?_, List.mem_singleton_self g⟩
  rw [hafter]
  simp [Tables.next, Tables.register, Tables.create, Tables.empty, Tables.updateDetails,
    Tables.caller, hname]

end Server

namespace Keyed
variable {db : DataBase} (hdb : Keyed db)
include hdb

theorem user_code_ne {buf buf' : Bytes} {h : Heap} {t : ProtocolType}
    (ht : t = .registerReq ∨ t = .loginReq)
    (hsome : db.userNames.lookup buf (.rcv userUserName) ≠ none)
    (hnone : db.userNames.lookup buf' (.rcv userUserName) = none) :
    ServerApp.code db buf h t ≠ ServerApp.code db buf' h t := by
  obtain ⟨e, he⟩ := Option.ne_none_iff_exists'.mp hsome
  rcases ht with rfl | rfl
  · rw [ServerApp.code, ServerApp.code, hdb.register_code, hdb.register_code, he, hnone,
      if_neg (Option.some_ne_none e), if_pos rfl]
    decide
  · rw [ServerApp.code, ServerApp.code, hdb.login_code, hdb.login_code, he, hnone]
    dsimp only
    split_ifs <;> decide

theorem group_code_ne {buf buf' : Bytes} {h : Heap} (h0 : h 0 ≠ 0) {t : ProtocolType}
    (ht : t = .createGroupConversationReq ∨ t = .joinConversationReq)
    (hsome : db.groupNames.lookup buf (.rcv groupGroupName) ≠ none)
    (hnone : db.groupNames.lookup buf' (.rcv groupGroupName) = none) :
    ServerApp.code db buf h t ≠ ServerApp.code db buf' h t := by
  obtain ⟨e, he⟩ := Option.ne_none_iff_exists'.mp hsome
  rcases ht with rfl | rfl
  · rw [ServerApp.code, ServerApp.code, hdb.create_code, hdb.create_code, if_neg h0, if_neg h0,
      if_pos hsome, hnone, if_neg (not_not.mpr rfl)]
    split_ifs <;> decide
  · rw [ServerApp.code, ServerApp.code, hdb.join_code, hdb.join_code, he, hnone]
    dsimp only
    split_ifs <;> decide

end Keyed

namespace Received
variable (msg : Received)

theorem not_isolated_of_code_ne {s : Server} {p : ℕ → ℕ} (hheap : s.heap = Heap.succeeding p)
    {t : ProtocolType} (ht : msg.type = some t) (hreq : t ∈ requestTypes)
    (buf buf' : Block Server.buffSize)
    (hne : ServerApp.code s.context (Server.recv msg.1 buf.1) s.heap.rest t ≠
      ServerApp.code s.context (Server.recv msg.1 buf'.1) s.heap.rest t) : ¬ msg.Isolated s := by
  intro hiso
  have h0 : s.heap 0 ≠ 0 := by simp [hheap, Heap.succeeding]
  obtain ⟨t', ht'⟩ : ∃ t', t.answerType = some t' := by
    simp only [requestTypes, List.mem_cons, List.not_mem_nil, or_false] at hreq
    rcases hreq with rfl | rfl | rfl | rfl | rfl <;> exact ⟨_, rfl⟩
  have heq := hiso buf buf'
  rw [msg.answer_eq s ht hreq h0, msg.answer_eq s ht hreq h0, ht'] at heq
  exact hne (congrArg Prod.snd (Option.some.inj heq))

/-- With a zero after it the part of a name that was received is the name, and with a
character after it a name of another bucket. -/
theorem two_names {off : ℕ} (hoff : off < Server.buffSize) (hlen : msg.1.length < Server.buffSize)
    (hc : 0 ∉ msg.1.drop off) :
    cstr (Server.recv msg.1 blankBuffer.1) off = msg.1.drop off ∧
      cstr (Server.recv msg.1 (markedBuffer (max msg.1.length off)).1) off =
        msg.1.drop off ++ [1] := by
  constructor
  · rw [Server.cstr_recv_of_notMem _ _ hc, blankBuffer, cstr_replicate, List.append_nil]
  · rw [Server.cstr_recv_of_notMem _ _ hc, cstr_marked (Nat.max_lt.mpr ⟨hlen, hoff⟩)]

theorem not_isolated_user {t : ProtocolType} (ht : msg.type = some t)
    (huser : t = .registerReq ∨ t = .loginReq) (hlen : msg.1.length < Server.buffSize)
    (hc : 0 ∉ msg.1.drop userUserName) : ∃ s : Server, s.Reachable ∧ ¬ msg.Isolated s := by
  obtain ⟨c, hc0, hbucket⟩ := exists_byte _ (bucketOf_lt (msg.1.drop userUserName))
  let name := Field.ofText 17 [c] (Nat.le_add_left 2 15)
  let rs := [Request.register name (Field.ofText 17 [] (by decide))]
  have hname : name.str = [c] := Field.str_ofText _ (by simpa using hc0.symm)
  have hb := Server.user_bucket id name (Field.ofText 17 [] (by decide))
  obtain ⟨hblank, hmarked⟩ := msg.two_names (by decide) hlen hc
  have hs := Server.Reachable.after id rs
  have hreq : t ∈ requestTypes := by rcases huser with rfl | rfl <;> simp [requestTypes]
  obtain ⟨p, hheap⟩ := (Server.after_serves id rs).heap
  refine ⟨_, hs, msg.not_isolated_of_code_ne hheap ht hreq blankBuffer
    (markedBuffer (max msg.1.length userUserName)) (hs.keyed.user_code_ne huser ?_ ?_)⟩
  · rw [ne_eq, hs.keyed.user_lookup, List.head?_eq_none_iff, hblank, hb, hname, hbucket]
    exact not_not.mpr rfl
  · rw [hs.keyed.user_lookup, List.head?_eq_none_iff, hmarked, hb, hname, hbucket]
    exact bucketOf_append_one _

theorem not_isolated_group {t : ProtocolType} (ht : msg.type = some t)
    (hgroup : t = .createGroupConversationReq ∨ t = .joinConversationReq)
    (hlen : msg.1.length < Server.buffSize) (hc : 0 ∉ msg.1.drop groupGroupName) :
    ∃ s : Server, s.Reachable ∧ ¬ msg.Isolated s := by
  obtain ⟨c, hc0, hbucket⟩ := exists_byte _ (bucketOf_lt (msg.1.drop groupGroupName))
  let name := Field.ofText 18 [c] (Nat.le_add_left 2 16)
  let rs := [Request.create name (Field.ofText 17 [] (by decide))]
  have hname : name.str = [c] := Field.str_ofText _ (by simpa using hc0.symm)
  have hb := Server.group_bucket id name (Field.ofText 17 [] (by decide))
  obtain ⟨hblank, hmarked⟩ := msg.two_names (by decide) hlen hc
  have hs := Server.Reachable.after id rs
  have hreq : t ∈ requestTypes := by rcases hgroup with rfl | rfl <;> simp [requestTypes]
  obtain ⟨p, hheap⟩ := (Server.after_serves id rs).heap
  have h0 : (Server.after id rs).heap.rest 0 ≠ 0 := by simp [hheap, Heap.succeeding]
  refine ⟨_, hs, msg.not_isolated_of_code_ne hheap ht hreq blankBuffer
    (markedBuffer (max msg.1.length groupGroupName)) (hs.keyed.group_code_ne h0 hgroup ?_ ?_)⟩
  · rw [ne_eq, hs.keyed.group_lookup, List.head?_eq_none_iff, hblank, hb, hname, hbucket]
    exact not_not.mpr rfl
  · rw [hs.keyed.group_lookup, List.head?_eq_none_iff, hmarked, hb, hname, hbucket]
    exact bucketOf_append_one _

theorem spare_eq_zero (hspare : ∀ c ≠ 0, msg.1[userUserName]? ≠ some c)
    (hk : userUserName < msg.1.length) : msg.1[userUserName]? = some 0 := by
  have hget := List.getElem?_eq_getElem hk
  rw [hget]
  by_contra hne
  exact hspare _ (fun h => hne (congrArg some h)) hget

theorem leave_spare (hspare : ∀ c ≠ 0, msg.1[userUserName]? ≠ some c) :
    (Server.recv msg.1 blankBuffer.1)[userUserName]? = some 0 := by
  by_cases hk : userUserName < msg.1.length
  · rw [Server.recv_getElem? _ _ hk, msg.spare_eq_zero hspare hk]
  · rw [Server.recv, List.getElem?_append_right (Nat.le_of_not_lt hk), List.getElem?_drop,
      Nat.add_sub_cancel' (Nat.le_of_not_lt hk)]
    rfl

theorem leave_other (hlen : msg.1.length ≤ groupUserName)
    (hspare : ∀ c ≠ 0, msg.1[userUserName]? ≠ some c) :
    cstr (Server.recv msg.1 (markedBuffer (max msg.1.length userUserName)).1) userUserName ≠
      cstr (Server.recv msg.1 (markedBuffer (max msg.1.length userUserName)).1) groupUserName := by
  have hdrop : msg.1.drop groupUserName = [] := List.drop_eq_nil_of_le hlen
  have hnone : 0 ∉ msg.1.drop groupUserName := by simp [hdrop]
  rw [Server.cstr_recv_of_notMem _ _ hnone, hdrop, Nat.max_eq_right hlen, List.nil_append]
  by_cases hk : userUserName < msg.1.length
  · have hlast : msg.1.length = userUserName + 1 := Nat.le_antisymm hlen hk
    have hzero := msg.spare_eq_zero hspare hk
    have hmark : cstr (markedBuffer (userUserName + 1)).1 groupUserName = [1] :=
      cstr_marked (j := userUserName + 1) (by decide)
    rw [cstr_of_getElem? _ _ _ ((Server.recv_getElem? msg.1 _ hk).trans hzero), hlast,
      Nat.max_eq_left (Nat.le_succ userUserName), hmark, if_pos rfl]
    decide
  · have hshort := Nat.le_of_not_lt hk
    have hkey : msg.1.drop userUserName = [] := List.drop_eq_nil_of_le hshort
    have hmark : cstr (markedBuffer userUserName).1 groupUserName = [] :=
      cstr_marked_succ userUserName
    rw [(msg.two_names (by decide) (Nat.lt_of_le_of_lt hlen (by decide)) (by simp [hkey])).2,
      hkey, Nat.max_eq_right hshort, hmark]
    decide

theorem not_isolated_leave (ht : msg.type = some .leaveConversationReq)
    (hlen : msg.1.length ≤ groupUserName) (hspare : ∀ c ≠ 0, msg.1[userUserName]? ≠ some c) :
    ∃ s : Server, s.Reachable ∧ ¬ msg.Isolated s := by
  have hzero := msg.leave_spare hspare
  have hdrop : msg.1.drop groupUserName = [] := List.drop_eq_nil_of_le hlen
  have huser : cstr (Server.recv msg.1 blankBuffer.1) groupUserName = [] := by
    rw [(msg.two_names (by decide) (Nat.lt_of_le_of_lt hlen (by decide)) (by simp [hdrop])).1,
      hdrop]
  have hgroup : (cstr (Server.recv msg.1 blankBuffer.1) groupGroupName).length < 18 := by
    have hmem : 0 ∈ ((Server.recv msg.1 blankBuffer.1).drop groupGroupName).take 18 := by
      apply List.mem_of_getElem? (i := 17)
      rw [List.getElem?_take_of_lt (by decide), List.getElem?_drop]
      exact hzero
    exact cstr_length_lt hmem
  obtain ⟨s, t, hs, hserves, a, hcaller, hmem⟩ :=
    Server.exists_member _ hgroup (zero_notMem_cstr _ _)
  obtain ⟨p, hheap⟩ := hserves.heap
  have hat : Refines.GroupRequestAt (Server.recv msg.1 blankBuffer.1)
      ⟨_, Nat.le_of_lt_succ hgroup, zero_notMem_cstr _ _⟩ [] 0 := ⟨rfl, huser, hzero⟩
  obtain ⟨db', hleave, -⟩ := hserves.refines.leave hat
  have hremoved : ServerApp.code s.context (Server.recv msg.1 blankBuffer.1) s.heap.rest
      .leaveConversationReq = some .groupSuccessfullyJoin := by
    rw [ServerApp.code, hleave]
    simp [Tables.leave, hcaller, hmem, ServerApp.groupCode]
  refine ⟨s, hs, msg.not_isolated_of_code_ne hheap ht (by simp [requestTypes]) blankBuffer
    (markedBuffer (max msg.1.length userUserName)) ?_⟩
  rw [hremoved, hs.keyed.leave_absent (msg.leave_other hlen hspare)]
  decide

theorem carries_of_isolated (h : ∀ s : Server, s.Reachable → msg.Isolated s) : msg.Carries := by
  by_contra hc
  obtain ⟨hfull, hc⟩ := not_or.mp hc
  have hlen : msg.1.length < Server.buffSize := Nat.lt_of_le_of_ne msg.2.2 hfull
  have hno : ¬ ∃ s : Server, s.Reachable ∧ ¬ msg.Isolated s := by
    rintro ⟨s, hs, hiso⟩
    exact hiso (h s hs)
  cases ht : msg.type with
  | none => exact hc (by rw [ht]; trivial)
  | some t =>
    rw [ht] at hc
    cases t with
    | registerReq => exact hno (msg.not_isolated_user ht (.inl rfl) hlen hc)
    | loginReq => exact hno (msg.not_isolated_user ht (.inr rfl) hlen hc)
    | createGroupConversationReq => exact hno (msg.not_isolated_group ht (.inl rfl) hlen hc)
    | joinConversationReq => exact hno (msg.not_isolated_group ht (.inr rfl) hlen hc)
    | leaveConversationReq =>
      obtain ⟨hshort, hspare⟩ := not_or.mp hc
      refine hno (msg.not_isolated_leave ht (Nat.le_of_not_lt hshort) ?_)
      intro c hne he
      exact hspare ⟨c, hne, he⟩
    | _ => exact hc trivial

/-- The answer to a message does not depend on earlier messages exactly if the message
carries what its handler looks up. -/
theorem isolated_iff : (∀ s : Server, s.Reachable → msg.Isolated s) ↔ msg.Carries :=
  ⟨msg.carries_of_isolated, fun hc _ hs => msg.isolated_of_carries hc hs.keyed⟩

/-- After `ab` has registered with the password `x`, the byte of a login alone finds its user
after a login of `ab`, and none in an empty buffer. -/
theorem isolated_fails : ¬ ∀ (msg : Received) (s : Server), s.Reachable → msg.Isolated s := by
  intro h
  let name := Field.ofText 17 [97, 98] (by decide)
  let psw := Field.ofText 17 [120] (by decide)
  let msg : Received := ⟨[2], by decide⟩
  let earlier : Block Server.buffSize := ⟨frame .loginReq psw name ++ List.replicate 989 0, by
    rw [List.length_append, frame_length, List.length_replicate]
    rfl⟩
  have hs := Server.Reachable.after id [.register name psw]
  obtain ⟨p, hheap⟩ := (Server.after_serves id [.register name psw]).heap
  have hname : cstr (Server.recv msg.1 earlier.1) userUserName = name.str :=
    cstr_frame_second .loginReq psw name _
  have hblank : cstr (Server.recv msg.1 blankBuffer.1) userUserName = [] :=
    (msg.two_names (by decide) (by decide) (by decide)).1
  refine msg.not_isolated_of_code_ne hheap (t := .loginReq) rfl (by decide) earlier blankBuffer
    (hs.keyed.user_code_ne (.inr rfl) ?_ ?_) (h msg _ hs)
  · rw [ne_eq, hs.keyed.user_lookup, List.head?_eq_none_iff, hname, Server.user_bucket]
    exact not_not.mpr rfl
  · rw [hs.keyed.user_lookup, List.head?_eq_none_iff, hblank, Server.user_bucket]
    decide

end Received

/-! ## A login without name and password -/

namespace Server

theorem exchange_congr {s : Server} {msg msg' : Bytes}
    (h : recv msg s.bufferRcv = recv msg' s.bufferRcv) : s.exchange msg = s.exchange msg' := by
  simp only [exchange, h]

/-- The byte of a login alone is answered as a login with the name and the password of the
registration before it. -/
theorem bare_login (p : ℕ → ℕ) (rs : List Request) (name psw : Field 17) :
    answered ((after p (rs ++ [.register name psw])).exchange [ProtocolType.loginReq.toByte]).1 =
      answerTo p (rs ++ [.register name psw]) (.login name psw) := by
  have hafter : after p (rs ++ [.register name psw]) =
      ((after p rs).exchange (frame .registerReq psw name)).2 := Run.after_snoc _ _ _ _
  have hbuf : (after p (rs ++ [.register name psw])).bufferRcv =
      recv (frame .registerReq psw name) (after p rs).bufferRcv := by
    rw [hafter, exchange_bufferRcv, recv, unPack_frame _ _ _ _ (by decide)]
  have hrecv : recv [ProtocolType.loginReq.toByte]
        (after p (rs ++ [.register name psw])).bufferRcv =
      recv (Request.login name psw).message (after p (rs ++ [.register name psw])).bufferRcv := by
    rw [hbuf]
    simp [recv, Request.message, frame]
  rw [answerTo, exchange_congr hrecv]

end Server

end ChatProject
