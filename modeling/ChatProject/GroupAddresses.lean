import ChatProject.History
import Mathlib.Data.Finset.Card

/-!
# Addresses of groups over whole runs

The serial number of a group gives the place of its address in the pool, and the pool
goes round after 50 addresses. A run creates one group for each bucket that a created
name falls into, so addresses stay different as long as at most 50 of the 53 buckets are
used.
-/

namespace ChatProject
open Memory HashMap Protocol Run

def bucketsUsed (rs : List Request) : Finset ℕ :=
  (Finset.range 53).filter fun b => (firstGroup rs b).isSome

theorem mem_bucketsUsed (rs : List Request) (b : ℕ) :
    b ∈ bucketsUsed rs ↔ b < 53 ∧ (firstGroup rs b).isSome := by
  simp [bucketsUsed]

theorem firstGroup_snoc (rs : List Request) (r : Request) (b : ℕ) :
    firstGroup (rs ++ [r]) b = (firstGroup rs b).or (r.groupFor b) := by
  simp [firstGroup, List.findSome?_append]

theorem bucketsUsed_create (rs : List Request) (group : Field 18) (user : Field 17) :
    bucketsUsed (rs ++ [.create group user]) = insert (bucketOf group.str) (bucketsUsed rs) := by
  ext b
  rw [Finset.mem_insert, mem_bucketsUsed, mem_bucketsUsed, firstGroup_snoc]
  by_cases hb : b = bucketOf group.str
  · simp [Request.groupFor, hb, bucketOf_lt]
  · simp [Request.groupFor, hb, Ne.symm hb]

theorem bucketsUsed_other (rs : List Request) (r : Request)
    (hr : ∀ group user, r ≠ .create group user) : bucketsUsed (rs ++ [r]) = bucketsUsed rs := by
  ext b
  rw [mem_bucketsUsed, mem_bucketsUsed, firstGroup_snoc]
  cases r with
  | create group user => exact absurd rfl (hr group user)
  | _ => simp [Request.groupFor]

theorem bucketsUsed_mono {pre rs : List Request} (h : pre <+: rs) :
    bucketsUsed pre ⊆ bucketsUsed rs := by
  intro b hb
  rw [mem_bucketsUsed] at hb ⊢
  obtain ⟨g, hg⟩ := Option.isSome_iff_exists.mp hb.2
  exact ⟨hb.1, by rw [firstGroup, h.findSome?_eq_some hg]; rfl⟩

namespace Tables

theorem next_created (t : Tables) (r : Request) :
    (t.next r.call).created =
      match r with
      | .create group _ =>
        if (t.groups (bucketOf group.str)).isNone then t.created + 1 else t.created
      | _ => t.created := by
  cases r with
  | register name psw =>
    cases ha : t.accounts (bucketOf name.str) <;> simp [next, Request.call, register, ha]
  | login name psw => rfl
  | create group user =>
    cases hg : t.groups (bucketOf group.str) <;> simp [next, Request.call, create, hg]
  | join group user =>
    cases hg : t.groups (bucketOf group.str) with
    | none => simp [next, Request.call, join, hg]
    | some g => by_cases hr : g.Reads group.str <;> simp [next, Request.call, join, hg, hr]
  | leave group user =>
    cases hc : t.caller user.str group.last with
    | none => simp [next, Request.call, leave, hc]
    | some a => by_cases hm : group.str ∈ a.groups <;> simp [next, Request.call, leave, hc, hm]

theorem groups_isNone_after (rs : List Request) (b : ℕ) :
    ((after rs).groups b).isNone = (firstGroup rs b).isNone := by
  rw [← names_after, Option.isNone_map]

theorem created_after (rs : List Request) : (after rs).created = (bucketsUsed rs).card := by
  induction rs using List.reverseRecOn with
  | nil => simp [empty, bucketsUsed, firstGroup]
  | append_singleton rs r ih =>
    rw [after_snoc, next_created, ih]
    cases r with
    | create group user =>
      simp only [bucketsUsed_create, groups_isNone_after]
      by_cases hb : bucketOf group.str ∈ bucketsUsed rs
      · rw [Finset.insert_eq_of_mem hb]
        rw [mem_bucketsUsed] at hb
        simp [Option.isSome_iff_ne_none.mp hb.2]
      · have hnone : firstGroup rs (bucketOf group.str) = none := by
          simpa [mem_bucketsUsed, bucketOf_lt] using hb
        rw [Finset.card_insert_of_notMem hb]
        simp [hnone]
    | _ => rw [bucketsUsed_other _ _ (by simp)]

structure SerialsDistinct (t : Tables) : Prop where
  lt : ∀ b r, t.groups b = some r → r.serial < t.created
  inj : ∀ b b' r r', t.groups b = some r → t.groups b' = some r' → r.serial = r'.serial → b = b'

theorem next_group_cases {t : Tables} {r : Request} {b : ℕ} {g : Group}
    (hg : (t.next r.call).groups b = some g) :
    (∃ g₀, t.groups b = some g₀ ∧ g₀.serial = g.serial) ∨
      (t.groups b = none ∧ g.serial = t.created ∧ (t.next r.call).created = t.created + 1 ∧
        (r.groupFor b).isSome) := by
  have hid := next_identity t r b
  rw [hg] at hid
  cases hb : t.groups b with
  | some g₀ =>
    simp only [hb, Option.map_some, Option.some_or, Option.some.injEq, Group.identity,
      Prod.mk.injEq] at hid
    exact .inl ⟨g₀, rfl, hid.2.symm⟩
  | none =>
    right
    simp only [hb, Option.map_none, Option.none_or, Option.map_some] at hid
    obtain ⟨n, hn, hpair⟩ := Option.map_eq_some_iff.mp hid.symm
    simp only [Group.identity, Prod.mk.injEq] at hpair
    obtain ⟨-, hserial⟩ := hpair
    cases r with
    | create group user =>
      have hbucket : bucketOf group.str = b := by
        by_contra hne
        simp [Request.groupFor, hne] at hn
      exact ⟨rfl, hserial.symm, by rw [next_created]; simp [hbucket, hb], by simp [hn]⟩
    | _ => simp [Request.groupFor] at hn

theorem created_le_next (t : Tables) (r : Request) : t.created ≤ (t.next r.call).created := by
  rw [next_created]
  cases r with
  | create group user => by_cases hg : (t.groups (bucketOf group.str)).isNone <;> simp [hg]
  | _ => exact Nat.le_refl _

theorem SerialsDistinct.next {t : Tables} (h : t.SerialsDistinct) (r : Request) :
    (t.next r.call).SerialsDistinct where
  lt := by
    intro b g hg
    rcases next_group_cases hg with ⟨g₀, hg₀, hserial⟩ | ⟨-, hserial, hcreated, -⟩
    · have hlt := h.lt b g₀ hg₀
      have hle := t.created_le_next r
      omega
    · omega
  inj := by
    intro b b' g g' hg hg' heq
    rcases next_group_cases hg with ⟨g₀, hg₀, hserial⟩ | ⟨-, hserial, -, hfor⟩ <;>
      rcases next_group_cases hg' with ⟨g₀', hg₀', hserial'⟩ | ⟨-, hserial', -, hfor'⟩
    · exact h.inj b b' g₀ g₀' hg₀ hg₀' (by omega)
    · have hlt := h.lt b g₀ hg₀
      omega
    · have hlt := h.lt b' g₀' hg₀'
      omega
    -- both groups are new: the request is one creation
    · cases r with
      | create group user =>
        have hb : bucketOf group.str = b := by
          by_contra hne
          simp [Request.groupFor, hne] at hfor
        have hb' : bucketOf group.str = b' := by
          by_contra hne
          simp [Request.groupFor, hne] at hfor'
        rw [← hb, ← hb']
      | _ => simp [Request.groupFor] at hfor

theorem serialsDistinct_after (rs : List Request) : (after rs).SerialsDistinct :=
  Run.invariant (P := SerialsDistinct) (fun _ r h => h.next r)
    ⟨by simp [empty], by simp [empty]⟩ rs

end Tables

namespace Server

/-- Groups have addresses of their own: different groups have different ones, a created
group has one, and no group is created when the pool's addresses are used up. -/
structure AddressesUnique (p : ℕ → ℕ) (rs : List Request) : Prop where
  distinct : ∀ pre, pre <+: rs → ∀ e ∈ (after p pre).context.groupNames.entries,
    ∀ e' ∈ (after p pre).context.groupNames.entries,
      e.value.nameField ≠ e'.value.nameField → e.value.ipAddGroup ≠ e'.value.ipAddGroup
  nonempty : ∀ pre, pre <+: rs → ∀ g, Created p pre g →
    ∃ e ∈ (after p pre).context.groupNames.entries,
      e.value.nameField = g ∧ e.value.ipAddGroup ≠ []
  exhausted : ∀ pre group user, Occurs rs pre (.create group user) →
    IPPoolAddr.capacity ≤ (after p pre).context.groupNames.size →
    answerTo p pre (.create group user) ≠
      some (.createGroupConversationAns, some .groupSuccessfullyInsert)

theorem size_after (p : ℕ → ℕ) (rs : List Request) :
    (after p rs).context.groupNames.size = (bucketsUsed rs).card := by
  have href := (after_serves p rs).refines
  have hcard : (bucketsUsed rs).card ≤ 53 :=
    (Finset.card_filter_le _ _).trans (Finset.card_range 53).le
  rw [HashMap.size, href.groupMap.sound.valid, if_pos rfl, href.size, Tables.created_after,
    sizeT, Nat.mod_eq_of_lt (by omega)]

theorem bucketsUsed_card_snoc_le (pre : List Request) (r : Request) :
    (bucketsUsed (pre ++ [r])).card ≤ (bucketsUsed pre).card + 1 := by
  cases r with
  | create group user =>
    rw [bucketsUsed_create]
    exact Finset.card_insert_le _ _
  | _ =>
    rw [bucketsUsed_other _ _ (by simp)]
    exact Nat.le_succ _

theorem create_of_card_lt {pre : List Request} {r : Request}
    (h : (bucketsUsed pre).card < (bucketsUsed (pre ++ [r])).card) :
    ∃ group user, r = .create group user ∧ bucketOf group.str ∉ bucketsUsed pre := by
  cases r with
  | create group user =>
    refine ⟨group, user, rfl, fun hmem => ?_⟩
    rw [bucketsUsed_create, Finset.insert_eq_of_mem hmem] at h
    exact Nat.lt_irrefl _ h
  | _ =>
    rw [bucketsUsed_other _ _ (by simp)] at h
    exact absurd h (Nat.lt_irrefl _)

theorem create_success_iff_notMem (p : ℕ → ℕ) (pre : List Request) (group : Field 18)
    (user : Field 17) :
    answerTo p pre (.create group user) =
        some (.createGroupConversationAns, some .groupSuccessfullyInsert) ↔
      bucketOf group.str ∉ bucketsUsed pre := by
  rw [create_success_iff, mem_bucketsUsed]
  simp [bucketOf_lt]

theorem le_of_addressesUnique {p : ℕ → ℕ} {rs : List Request} (h : AddressesUnique p rs) :
    (bucketsUsed rs).card ≤ IPPoolAddr.capacity := by
  by_contra hmany
  -- the creation that uses a bucket after the fiftieth
  obtain ⟨pre, r, hocc, hfull, hmore⟩ := exists_crossing (fun rs => (bucketsUsed rs).card)
    bucketsUsed_card_snoc_le (by simp [bucketsUsed, firstGroup]) (Nat.lt_of_not_le hmany)
  have hlt : (bucketsUsed pre).card < (bucketsUsed (pre ++ [r])).card := hfull ▸ hmore
  obtain ⟨group, user, rfl, hnew⟩ := create_of_card_lt hlt
  exact h.exhausted pre group user hocc (by rw [size_after, hfull])
    ((create_success_iff_notMem p pre group user).mpr hnew)

theorem addresses_distinct (p : ℕ → ℕ) {rs : List Request}
    (hfew : (bucketsUsed rs).card ≤ IPPoolAddr.capacity) {e e' : DataItem CharPtr GroupValue}
    (he : e ∈ (after p rs).context.groupNames.entries)
    (he' : e' ∈ (after p rs).context.groupNames.entries)
    (haddr : e.value.ipAddGroup = e'.value.ipAddGroup) : e = e' := by
  have href := (after_serves p rs).refines
  have hser := Tables.serialsDistinct_after rs
  rw [← Tables.created_after] at hfew
  obtain ⟨b, g, hg, rfl⟩ := (href.mem_groupEntries e).mp he
  obtain ⟨b', g', hg', rfl⟩ := (href.mem_groupEntries e').mp he'
  have hlt := (hser.lt b g hg).trans_le hfew
  have hlt' := (hser.lt b' g' hg').trans_le hfew
  simp only [groupEntry, Group.ipAddGroup_record, Group.ip, Nat.mod_eq_of_lt hlt,
    Nat.mod_eq_of_lt hlt'] at haddr
  have hb := hser.inj b b' g g' hg hg' (IPPoolAddr.addressAt_injOn hlt hlt' haddr)
  rw [hb, hg'] at hg
  rw [Option.some.inj hg]

theorem created_has_address {p : ℕ → ℕ} {rs : List Request} {g : CStr} (h : Created p rs g) :
    ∃ e ∈ (after p rs).context.groupNames.entries,
      e.value.nameField = g ∧ e.value.ipAddGroup ≠ [] := by
  rw [created_iff, ← Tables.names_after] at h
  obtain ⟨r, hr, rfl⟩ := Option.map_eq_some_iff.mp h
  have href := (after_serves p rs).refines
  refine ⟨groupEntry r, (href.mem_groupEntries _).mpr ⟨_, r, hr, rfl⟩, ?_, ?_⟩
  · exact r.nameField_record
  · rw [groupEntry, Group.ipAddGroup_record]
    exact r.ip_text.1

theorem addressesUnique_of_le (p : ℕ → ℕ) {rs : List Request}
    (hfew : (bucketsUsed rs).card ≤ IPPoolAddr.capacity) : AddressesUnique p rs where
  distinct := by
    intro pre hpre e he e' he' hname haddr
    have hle := (Finset.card_le_card (bucketsUsed_mono hpre)).trans hfew
    exact hname (by rw [addresses_distinct p hle he he' haddr])
  nonempty := fun pre _ g hcreated => created_has_address hcreated
  exhausted := by
    intro pre group user hocc hfull hans
    rw [create_success_iff_notMem] at hans
    rw [size_after] at hfull
    have hcard := Finset.card_le_card (bucketsUsed_mono hocc)
    rw [bucketsUsed_create, Finset.card_insert_of_notMem hans] at hcard
    omega

/-- Addresses are unique in exactly the runs whose created names use at most 50 buckets. -/
theorem addressesUnique_iff (p : ℕ → ℕ) (rs : List Request) :
    AddressesUnique p rs ↔ (bucketsUsed rs).card ≤ IPPoolAddr.capacity :=
  ⟨le_of_addressesUnique, addressesUnique_of_le p⟩

def createChar (c : UInt8) : Request :=
  .create (.ofText 18 [c] (by simp)) (.ofText 17 [] (by decide))

/-- The groups `!` to `S` are created, 51 groups in 51 buckets. -/
theorem addressesUnique_fails :
    ¬ AddressesUnique id ((List.range 51).map fun i => createChar (UInt8.ofNat (33 + i))) := by
  intro h
  have hocc : Occurs ((List.range 51).map fun i => createChar (UInt8.ofNat (33 + i)))
      ((List.range 50).map fun i => createChar (UInt8.ofNat (33 + i))) (createChar 83) := by
    rw [List.range_succ, List.map_append]
    exact occurs_last _ _
  refine h.exhausted _ _ _ hocc ?_ ?_
  · rw [size_after]
    decide +kernel
  · rw [create_success_iff]
    decide +kernel

end Server
end ChatProject
