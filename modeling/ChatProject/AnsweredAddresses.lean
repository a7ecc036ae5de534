import ChatProject.EndToEnd

/-!
# The addresses in the answers

A creation is answered with the address stored in the record it makes, and a join with
the address of the record it finds. The record of a bucket keeps its name and its address,
and a join succeeds only if the record has the name asked for, so all answers that grant a
name carry one address.
-/

namespace ChatProject
open Memory Protocol Run

/-- `m_groupIP` of the answer struct, read from the bytes that are sent. -/
def AppResult.groupIP : AppResult → Option CStr
  | .answer _ sent => some (cstr sent ansGroupIP)
  | _ => none

theorem cstr_pack_group {t : ProtocolType} (ht : t = .createGroupConversationAns ∨
      t = .joinConversationAns) {ip : CStr} (hzero : 0 ∉ ip) (hip : ip.length ≤ 15) (x : Answers) :
    cstr (pack .little t (Answer.image ⟨t, some ip, some x⟩)) ansGroupIP = ip := by
  have hlen : (t.toByte :: (ip ++ List.replicate (19 - ip.length) 0)).length =
      createGroupAnsAnswer := by
    simp only [List.length_cons, List.length_append, List.length_replicate, createGroupAnsAnswer]
    omega
  obtain ⟨k, hk⟩ : ∃ k, 19 - ip.length = k + 1 := ⟨18 - ip.length, by omega⟩
  have hpack : pack .little t (Answer.image ⟨t, some ip, some x⟩) = convertAnswer .little
      (t.toByte :: (ip ++ List.replicate (19 - ip.length) 0) ++
        (ByteOrder.wordBytes .little x.code ++ [])) createGroupAnsAnswer := by
    rw [Answer.image_groupIP t hip, List.append_nil, List.cons_append]
    rcases ht with rfl | rfl <;> rfl
  rw [hpack, convertAnswer_append _ _ _ _ _ hlen (ByteOrder.wordBytes_length _ _), hk,
    List.replicate_succ]
  simp only [cstr, ansGroupIP, List.cons_append, List.append_assoc, List.drop_succ_cons,
    List.drop_zero]
  exact text_append_zero _ _ hzero

namespace Tables

theorem next_ip {t : Tables} {b : ℕ} {ip : CStr} (h : (t.groups b).map Group.ip = some ip)
    (r : Request) : ((t.next r.call).groups b).map Group.ip = some ip := by
  have hid := congrArg (Option.map fun i => IPPoolAddr.addressAt (i.2 % IPPoolAddr.capacity))
    (next_identity t r b)
  simp only [Option.map_or, Option.map_map, Function.comp_def, Group.identity] at hid
  change ((t.next r.call).groups b).map Group.ip = _ at hid
  change _ = (((t.groups b).map Group.ip).or _) at hid
  rw [hid, h, Option.some_or]

theorem groups_ip_mono {pre rs : List Request} (hpre : pre <+: rs) {b : ℕ} {ip : CStr}
    (h : ((after pre).groups b).map Group.ip = some ip) :
    ((after rs).groups b).map Group.ip = some ip := by
  obtain ⟨post, rfl⟩ := hpre
  rw [after, Run.after_append]
  exact Run.invariant (P := fun t : Tables => (t.groups b).map Group.ip = some ip)
    (fun _ r ht => next_ip ht r) h post

end Tables

namespace Server

def carriedIP (p : ℕ → ℕ) (rs : List Request) (r : Request) : Option CStr :=
  ((after p rs).exchange r.message).1.groupIP

/-- The request creates or joins the group and its answer carries the address. -/
def Grants (p : ℕ → ℕ) (pre : List Request) (g ip : CStr) : Request → Prop
  | .create group user => group.str = g ∧ carriedIP p pre (.create group user) = some ip ∧
      answerTo p pre (.create group user) =
        some (.createGroupConversationAns, some .groupSuccessfullyInsert)
  | .join group user => group.str = g ∧ carriedIP p pre (.join group user) = some ip ∧
      answerTo p pre (.join group user) =
        some (.joinConversationAns, some .groupSuccessfullyJoin)
  | _ => False

/-- All answers that grant a group carry one address, and a join is granted only after a
creation of the group. -/
structure OneAddress (p : ℕ → ℕ) (rs : List Request) : Prop where
  same : ∀ g pre r ip pre' r' ip', Occurs rs pre r → Grants p pre g ip r →
    Occurs rs pre' r' → Grants p pre' g ip' r' → ip = ip'
  created : ∀ pre group user, Occurs rs pre (.join group user) →
    answerTo p pre (.join group user) = some (.joinConversationAns, some .groupSuccessfullyJoin) →
    Created p pre group.str

theorem carriedIP_eq (p : ℕ → ℕ) (rs : List Request) (r : Request) :
    carriedIP p rs r =
      (ServerApp.packAnswer (some ((Tables.after rs).reply r.call))).groupIP := by
  obtain ⟨-, s', he, -⟩ := (after_serves p rs).exchange r
  rw [carriedIP, he]

theorem granted_create {p : ℕ → ℕ} {pre : List Request} {group : Field 18} {user : Field 17}
    {g ip : CStr} (h : Grants p pre g ip (.create group user)) :
    ((Tables.after (pre ++ [.create group user])).groups (bucketOf g)).map Group.ip = some ip := by
  obtain ⟨rfl, hip, hans⟩ := h
  rw [create_success_iff, ← Tables.names_after, Option.map_eq_none_iff] at hans
  obtain ⟨-, hzero, hlen⟩ := IPPoolAddr.addressAt_text
    ((Tables.after pre).created % IPPoolAddr.capacity) (Nat.mod_lt _ (by decide))
  have hcarried : carriedIP p pre (.create group user) =
      some (IPPoolAddr.addressAt ((Tables.after pre).created % IPPoolAddr.capacity)) := by
    rw [carriedIP_eq, ← cstr_pack_group (.inl rfl) hzero hlen .groupSuccessfullyInsert]
    simp [Tables.reply, Request.call, Tables.create, hans, ServerApp.groupAnswer,
      ServerApp.packAnswer, AppResult.groupIP]
  rw [← hip, hcarried, Tables.after_snoc]
  simp [Tables.next, Request.call, Tables.create, hans, Group.ip]

theorem join_success_iff (p : ℕ → ℕ) (rs : List Request) (group : Field 18) (user : Field 17) :
    answerTo p rs (.join group user) = some (.joinConversationAns, some .groupSuccessfullyJoin) ↔
      ∃ r, (Tables.after rs).groups (bucketOf group.str) = some r ∧ r.Reads group.str := by
  rw [answerTo_eq]
  cases hg : (Tables.after rs).groups (bucketOf group.str) with
  | none => simp [Tables.reply, Request.call, Tables.join, hg, ServerApp.groupAnswer]
  | some r =>
    by_cases hr : r.Reads group.str <;>
      simp [Tables.reply, Request.call, Tables.join, hg, hr, ServerApp.groupAnswer]

theorem granted_join {p : ℕ → ℕ} {pre : List Request} {group : Field 18} {user : Field 17}
    {g ip : CStr} (h : Grants p pre g ip (.join group user)) :
    ((Tables.after pre).groups (bucketOf g)).map Group.ip = some ip := by
  obtain ⟨rfl, hip, hans⟩ := h
  obtain ⟨r, hg, hr⟩ := (join_success_iff ..).mp hans
  obtain ⟨-, hzero, hlen⟩ := r.ip_text
  have hcarried : carriedIP p pre (.join group user) = some r.ip := by
    rw [carriedIP_eq, ← cstr_pack_group (.inr rfl) hzero hlen .groupSuccessfullyJoin]
    simp [Tables.reply, Request.call, Tables.join, hg, hr, ServerApp.groupAnswer,
      ServerApp.packAnswer, AppResult.groupIP]
  rw [← hip, hcarried, hg, Option.map_some]

theorem granted_ip {p : ℕ → ℕ} {rs pre : List Request} {r : Request} {g ip : CStr}
    (hocc : Occurs rs pre r) (h : Grants p pre g ip r) :
    ((Tables.after rs).groups (bucketOf g)).map Group.ip = some ip := by
  cases r with
  | create group user => exact Tables.groups_ip_mono hocc (granted_create h)
  | join group user => exact Tables.groups_ip_mono hocc.history (granted_join h)
  | _ => exact h.elim

theorem oneAddress (p : ℕ → ℕ) (rs : List Request) : OneAddress p rs where
  same := by
    intro g pre r ip pre' r' ip' hocc h hocc' h'
    have heq := granted_ip hocc h
    rw [granted_ip hocc' h'] at heq
    exact (Option.some.inj heq).symm
  created := by
    intro pre group user _ hans
    obtain ⟨r, hg, hr⟩ := (join_success_iff ..).mp hans
    rw [created_iff, ← Tables.names_after, hg, Option.map_some, hr.1]

end Server
end ChatProject
