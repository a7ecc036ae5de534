import ChatProject.History
import Mathlib.Data.List.Nodup

/-!
# Participants of groups over whole runs

Only the account of the empty name's bucket ever records groups, and each group it
records exists under that name. The participant count of a group is therefore right when
it is 1 for a recorded group and 0 otherwise.
-/

namespace ChatProject
open Memory HashMap Protocol Run

namespace Tables

def recorded (t : Tables) (g : CStr) : Bool :=
  (t.accounts (bucketOf [])).any (·.groups.contains g)

structure Consistent (t : Tables) : Prop where
  elsewhere : ∀ b a, t.accounts b = some a → b ≠ bucketOf [] → a.groups = []
  nodup : ∀ b a, t.accounts b = some a → a.groups.Nodup
  opened : ∀ b a, t.accounts b = some a → ∀ g ∈ a.groups,
    ∃ r, t.groups (bucketOf g) = some r ∧ r.name.1 = g
  placed : ∀ b r, t.groups b = some r → bucketOf r.name = b

theorem recorded_of_some {t : Tables} {a : Account} (ha : t.accounts (bucketOf []) = some a)
    (g : CStr) : t.recorded g = decide (g ∈ a.groups) := by
  simp [recorded, ha]

theorem recorded_iff {t : Tables} {g : CStr} :
    t.recorded g = true ↔ ∃ a, t.accounts (bucketOf []) = some a ∧ g ∈ a.groups := by
  cases ha : t.accounts (bucketOf []) <;> simp [recorded, ha]

@[simp] theorem recorded_setAccount (t : Tables) (a : Account) (g : CStr) :
    (t.setAccount (bucketOf []) a).recorded g = decide (g ∈ a.groups) := by
  simp [recorded]

namespace Consistent
variable {t : Tables}

theorem opened_of_recorded (h : t.Consistent) {g : CStr} (hg : t.recorded g = true) :
    ∃ r, t.groups (bucketOf g) = some r ∧ r.name.1 = g := by
  obtain ⟨a, ha, hmem⟩ := recorded_iff.mp hg
  exact h.opened _ a ha g hmem

theorem setAccount (h : t.Consistent) {b : ℕ} {a : Account}
    (helse : b ≠ bucketOf [] → a.groups = []) (hnodup : a.groups.Nodup)
    (hopened : ∀ g ∈ a.groups, ∃ r, t.groups (bucketOf g) = some r ∧ r.name.1 = g) :
    (t.setAccount b a).Consistent where
  elsewhere := by
    intro b' a' ha hb
    rw [setAccount_accounts] at ha
    split_ifs at ha with hbb
    · cases ha
      exact helse (hbb ▸ hb)
    · exact h.elsewhere b' a' ha hb
  nodup := by
    intro b' a' ha
    rw [setAccount_accounts] at ha
    split_ifs at ha
    · cases ha
      exact hnodup
    · exact h.nodup b' a' ha
  opened := by
    intro b' a' ha
    rw [setAccount_accounts] at ha
    split_ifs at ha
    · cases ha
      exact hopened
    · exact h.opened b' a' ha
  placed := h.placed

theorem setPartic (h : t.Consistent) {b : ℕ} {r : Group} (hr : t.groups b = some r) (k : ℤ) :
    (t.setGroup b { r with partic := k }).Consistent where
  elsewhere := h.elsewhere
  nodup := h.nodup
  opened := by
    intro b' a ha g hg
    obtain ⟨r', hr', hname⟩ := h.opened b' a ha g hg
    by_cases hb : bucketOf g = b
    · rw [hb, hr] at hr'
      cases hr'
      exact ⟨{ r with partic := k }, by simp [hb], hname⟩
    · exact ⟨r', by simp [hb, hr'], hname⟩
  placed := by
    intro b' r' hr'
    rw [setGroup_groups] at hr'
    split_ifs at hr' with hb
    · cases hr'
      exact hb ▸ h.placed b r hr
    · exact h.placed b' r' hr'

theorem addGroup (h : t.Consistent) {g : GroupName} (hg : t.groups (bucketOf g) = none) :
    (t.addGroup g).Consistent where
  elsewhere := h.elsewhere
  nodup := h.nodup
  opened := by
    intro b a ha g' hg'
    obtain ⟨r, hr, hname⟩ := h.opened b a ha g' hg'
    have hb : bucketOf g' ≠ bucketOf g := by
      intro he
      rw [he, hg] at hr
      cases hr
    exact ⟨r, by simp [hb, hr], hname⟩
  placed := by
    intro b r hr
    rw [addGroup_groups] at hr
    split_ifs at hr with hb
    · cases hr
      exact hb.symm
    · exact h.placed b r hr

theorem updateDetails (h : t.Consistent) {g : GroupName} (user : CStr) (spare : UInt8)
    (hg : ∃ r, t.groups (bucketOf g) = some r ∧ r.name.1 = g) :
    (t.updateDetails g user spare).Consistent := by
  rw [Tables.updateDetails]
  cases hc : t.caller user spare with
  | none => exact h
  | some a =>
    have ha := (caller_eq_some.mp hc).2
    refine h.setAccount (fun hne => absurd rfl hne) (List.Nodup.insert (h.nodup _ a ha)) ?_
    intro g' hg'
    rcases List.mem_insert_iff.mp hg' with rfl | hmem
    · exact hg
    · exact h.opened _ a ha g' hmem

theorem leaveGroup (h : t.Consistent) (g : GroupName) : (t.leaveGroup g).2.Consistent := by
  rw [Tables.leaveGroup]
  cases hg : t.groups (bucketOf g) with
  | none => exact h
  | some r =>
    by_cases hr : r.Reads g
    · simpa [hr] using h.setPartic hg (r.partic - 1)
    · simpa [hr] using h

theorem next (h : t.Consistent) (c : Call) : (t.next c).Consistent := by
  cases c with
  | register name psw =>
    cases ha : t.accounts (bucketOf name) with
    | none =>
      simpa [Tables.next, Tables.register, ha] using
        h.setAccount (a := ⟨name, psw, []⟩) (fun _ => rfl) List.nodup_nil (by simp)
    | some a => simpa [Tables.next, Tables.register, ha] using h
  | login name psw => exact h
  | create g user spare =>
    cases hg : t.groups (bucketOf g) with
    | none =>
      simpa [Tables.next, Tables.create, hg] using
        (h.addGroup hg).updateDetails user spare ⟨⟨g, t.created, 1⟩, by simp, rfl⟩
    | some r => simpa [Tables.next, Tables.create, hg] using h
  | join g user =>
    cases hg : t.groups (bucketOf g) with
    | none => simpa [Tables.next, Tables.join, hg] using h
    | some r =>
      by_cases hr : r.Reads g
      · simpa [Tables.next, Tables.join, hg, hr] using h.setPartic hg (r.partic + 1)
      · simpa [Tables.next, Tables.join, hg, hr] using h
  | leave g user spare =>
    cases hc : t.caller user spare with
    | none => simpa [Tables.next, Tables.leave, hc] using h
    | some a =>
      have ha := (caller_eq_some.mp hc).2
      by_cases hm : g.1 ∈ a.groups
      · have hset := h.setAccount (b := bucketOf []) (a := { a with groups := a.groups.erase g })
          (fun hne => absurd rfl hne) ((h.nodup _ a ha).erase _)
          (fun g' hg' => h.opened _ a ha g' (List.mem_of_mem_erase hg'))
        simpa [Tables.next, Tables.leave, hc, hm] using hset.leaveGroup g
      · simpa [Tables.next, Tables.leave, hc, hm] using h

end Consistent

theorem consistent_after (rs : List Request) : (after rs).Consistent :=
  Run.invariant (P := Consistent) (fun _ r h => h.next r.call)
    ⟨by simp [empty], by simp [empty], by simp [empty], by simp [empty]⟩ rs

def Counted (t : Tables) : Prop :=
  ∀ b r, t.groups b = some r → r.partic = if t.recorded r.name then 1 else 0

/-- A creation records its group, no join finds its group, and a leave that removes a
group finds it under its full name. -/
def KeepsCount (t : Tables) : Call → Prop
  | .register _ _ => True
  | .login _ _ => True
  | .create g user spare => t.groups (bucketOf g) = none → t.caller user spare ≠ none
  | .join g _ => ∀ r, t.groups (bucketOf g) = some r → ¬ r.Reads g
  | .leave g user spare => t.caller user spare ≠ none → t.recorded g → g.1.length < 17

theorem recorded_register {t : Tables} {b : ℕ} (hb : t.accounts b = none) (name psw g : CStr) :
    (t.setAccount b ⟨name, psw, []⟩).recorded g = t.recorded g := by
  by_cases hzero : bucketOf [] = b
  · simp [recorded, hzero, hb]
  · simp [recorded, hzero]

theorem counted_create {t : Tables} (hcons : t.Consistent) (h : t.Counted) {g : GroupName}
    (hg : t.groups (bucketOf g) = none) (user : CStr) (spare : UInt8) :
    ((t.addGroup g).updateDetails g user spare).Counted ↔ t.caller user spare ≠ none := by
  have hnew : t.recorded g = false := by
    by_contra hrec
    obtain ⟨r, hr, -⟩ := hcons.opened_of_recorded (by simpa using hrec)
    rw [hg] at hr
    cases hr
  cases hc : t.caller user spare with
  | none =>
    have hc' : (t.addGroup g).caller user spare = none := hc
    have hrec : (t.addGroup g).recorded g = false := hnew
    simp only [updateDetails, hc', ne_eq, not_true_eq_false, iff_false]
    intro hcount
    have h1 := hcount (bucketOf g) ⟨g, t.created, 1⟩ (by simp)
    simp [hrec] at h1
  | some a =>
    have hc' : (t.addGroup g).caller user spare = some a := hc
    have ha := (caller_eq_some.mp hc).2
    simp only [updateDetails, hc', ne_eq, reduceCtorEq, not_false_eq_true, iff_true]
    intro b r hr
    rw [setAccount_groups, addGroup_groups] at hr
    rw [recorded_setAccount]
    split_ifs at hr with hb
    · cases hr
      simp
    · have hne : r.name.1 ≠ g := fun he => hb (by rw [← hcons.placed b r hr, he])
      have hold := h b r hr
      rw [recorded_of_some ha] at hold
      simpa [List.mem_insert_iff, hne] using hold

theorem counted_leave {t : Tables} (hcons : t.Consistent) (h : t.Counted) {g : GroupName}
    {a : Account} (ha : t.accounts (bucketOf []) = some a) (hmem : g.1 ∈ a.groups) :
    ((t.setAccount (bucketOf []) { a with groups := a.groups.erase g }).leaveGroup g).2.Counted ↔
      g.1.length < 17 := by
  obtain ⟨r, hr, hname⟩ := hcons.opened _ a ha g.1 hmem
  have hone : r.partic = 1 := by
    have hold := h _ r hr
    simpa [recorded_of_some ha, hname, hmem] using hold
  have hgone : g.1 ∉ a.groups.erase g := (hcons.nodup _ a ha).not_mem_erase
  by_cases hlen : g.1.length < 17
  · have hreads : r.Reads g := ⟨hname, hlen⟩
    simp only [leaveGroup, setAccount_groups, hr, hreads, ↓reduceIte, hlen, iff_true]
    intro b r' hr'
    have hrec : (Tables.setGroup (t.setAccount (bucketOf []) { a with groups := a.groups.erase g })
        (bucketOf g) { r with partic := r.partic - 1 }).recorded r'.name =
          decide (r'.name.1 ∈ a.groups.erase g) :=
      recorded_setAccount t _ _
    rw [hrec]
    rw [setGroup_groups, setAccount_groups] at hr'
    split_ifs at hr' with hb
    · cases hr'
      simp [hname, hgone, hone]
    · have hne : r'.name.1 ≠ g := fun he => hb (by rw [← hcons.placed b r' hr', he])
      have hold := h b r' hr'
      rw [recorded_of_some ha] at hold
      simpa [List.mem_erase_of_ne hne] using hold
  · have hreads : ¬ r.Reads g := fun hreads => hlen hreads.2
    simp only [leaveGroup, setAccount_groups, hr, hreads, ↓reduceIte, hlen, iff_false]
    intro hcount
    have h0 := hcount _ r hr
    simp [hname, hgone, hone] at h0

theorem counted_next {t : Tables} (hcons : t.Consistent) (h : t.Counted) (c : Call) :
    (t.next c).Counted ↔ t.KeepsCount c := by
  cases c with
  | register name psw =>
    cases ha : t.accounts (bucketOf name) with
    | none =>
      simp only [next, register, ha, KeepsCount, iff_true]
      intro b r hr
      rw [recorded_register ha]
      exact h b r hr
    | some a => simpa [next, register, ha, KeepsCount] using h
  | login name psw => simpa [next, KeepsCount] using h
  | create g user spare =>
    cases hg : t.groups (bucketOf g) with
    | none => simpa [next, create, hg, KeepsCount] using counted_create hcons h hg user spare
    | some r => simpa [next, create, hg, KeepsCount] using h
  | join g user =>
    cases hg : t.groups (bucketOf g) with
    | none => simpa [next, join, hg, KeepsCount] using h
    | some r =>
      by_cases hr : r.Reads g
      · simp only [next, join, hg, hr, ↓reduceIte, KeepsCount, Option.some.injEq, forall_eq',
          not_true_eq_false, iff_false]
        intro hcount
        have hold := h _ r hg
        have hnew := hcount (bucketOf g) { r with partic := r.partic + 1 } (by simp)
        have hrec : (t.setGroup (bucketOf g) { r with partic := r.partic + 1 }).recorded r.name =
          t.recorded r.name := rfl
        simp only [hrec, ← hold] at hnew
        omega
      · simpa [next, join, hg, hr, KeepsCount] using h
  | leave g user spare =>
    cases hc : t.caller user spare with
    | none => simpa [next, leave, hc, KeepsCount] using h
    | some a =>
      have ha := (caller_eq_some.mp hc).2
      by_cases hm : g.1 ∈ a.groups
      · simpa [next, leave, hc, hm, KeepsCount, recorded_of_some ha] using
          counted_leave hcons h ha hm
      · simpa [next, leave, hc, hm, KeepsCount, recorded_of_some ha] using h

end Tables

namespace Server
open Tables (recorded_iff recorded_of_some)

def members (s : Server) (g : CStr) : List (DataItem CharPtr UserValue) :=
  s.context.userNames.entries.filter fun u =>
    (u.value.myGroups.find s.bufferRcv (some (.own g))).1 = .success

def CountsAgree (s : Server) : Prop :=
  ∀ e ∈ s.context.groupNames.entries, e.value.numOfPartic = (s.members e.value.nameField).length

theorem filter_bucket {s : Server} {t : Tables} (h : Serves s t) (hcons : t.Consistent) (g : CStr)
    (b : ℕ) :
    ((s.context.userNames.bucket b).filter fun u =>
        (u.value.myGroups.find s.bufferRcv (some (.own g))).1 = .success) =
      if b = bucketOf [] ∧ t.recorded g then s.context.userNames.bucket b else [] := by
  cases ha : t.accounts b with
  | none => simp [h.refines.bucket_of_none ha]
  | some a =>
    obtain ⟨e, he, hentry⟩ := h.refines.bucket_of_some ha
    have hfind := hentry.groups.find_own s.bufferRcv g
    rw [he]
    by_cases hb : b = bucketOf []
    · subst hb
      by_cases hg : g ∈ a.groups
      · simp [hfind.mpr hg, recorded_of_some ha, hg]
      · simp [mt hfind.mp hg, recorded_of_some ha, hg]
    · have hg : g ∉ a.groups := by simp [hcons.elsewhere b a ha hb]
      simp [mt hfind.mp hg, hb]

theorem members_length {s : Server} {t : Tables} (h : Serves s t) (hcons : t.Consistent)
    (g : CStr) : (s.members g).length = if t.recorded g then 1 else 0 := by
  have hlen : s.context.userNames.data.length = 53 :=
    h.refines.users.sound.size.trans h.refines.users.size
  have hzero : bucketOf [] = 0 := by decide
  simp only [members, entries, hlen, List.filter_flatMap, filter_bucket h hcons, hzero]
  cases hrec : t.recorded g with
  | false => simp
  | true =>
    obtain ⟨a, ha, -⟩ := recorded_iff.mp hrec
    obtain ⟨e, he, -⟩ := h.refines.bucket_of_some ha
    rw [hzero] at he
    simp [List.range_succ_eq_map (n := 52), List.flatMap_map, he]

theorem members_count {s : Server} {t : Tables} (h : Serves s t) (hcons : t.Consistent)
    (g : CStr) : ((s.members g).length : ℤ) = if t.recorded g then 1 else 0 := by
  rw [members_length h hcons]
  split_ifs <;> rfl

theorem countsAgree_iff {s : Server} {t : Tables} (h : Serves s t) (hcons : t.Consistent) :
    s.CountsAgree ↔ t.Counted := by
  constructor
  · intro hc b r hr
    have he := hc _ ((h.refines.mem_groupEntries _).mpr ⟨b, r, hr, rfl⟩)
    rw [groupEntry, r.nameField_record, members_count h hcons] at he
    exact he
  · intro hc e he
    obtain ⟨b, r, hr, rfl⟩ := (h.refines.mem_groupEntries e).mp he
    rw [groupEntry, r.nameField_record, members_count h hcons]
    exact hc b r hr

theorem members_ne_nil_iff (p : ℕ → ℕ) (rs : List Request) (g : CStr) :
    (after p rs).members g ≠ [] ↔ (Tables.after rs).recorded g = true := by
  rw [← List.length_pos_iff, members_length (after_serves p rs) (Tables.consistent_after rs)]
  cases (Tables.after rs).recorded g <;> simp

/-- What keeps the counts right, in terms of the requests before and the users' maps. -/
def KeepsCount (p : ℕ → ℕ) (pre : List Request) : Request → Prop
  | .register _ _ => True
  | .login _ _ => True
  | .create group user => firstGroup pre (bucketOf group.str) = none →
      user.str = [] ∧ group.last = 0 ∧ firstAccount pre (bucketOf []) ≠ none
  | .join group _ => firstGroup pre (bucketOf group.str) = some group.str → 17 ≤ group.str.length
  | .leave group user => user.str = [] → group.last = 0 →
      (after p pre).members group.str ≠ [] → group.str.length < 17

theorem keepsCount_iff (p : ℕ → ℕ) (pre : List Request) (r : Request) :
    KeepsCount p pre r ↔ (Tables.after pre).KeepsCount r.call := by
  have hgroup : ∀ b, firstGroup pre b = ((Tables.after pre).groups b).map (fun g => g.name.1) :=
    fun b => (Tables.names_after pre b).symm
  have haccount : firstAccount pre (bucketOf []) ≠ none ↔
      (Tables.after pre).accounts (bucketOf []) ≠ none := by
    rw [← Tables.credentials_after]
    simp
  cases r with
  | register name psw => rfl
  | login name psw => rfl
  | create group user =>
    have hcaller : (Tables.after pre).caller user.str group.last ≠ none ↔
        user.str = [] ∧ group.last = 0 ∧ (Tables.after pre).accounts (bucketOf []) ≠ none := by
      rw [Tables.caller]
      split_ifs with hu
      · simp [hu]
      · simp only [ne_eq, not_true_eq_false, false_iff]
        rintro ⟨hu1, hu2, -⟩
        exact hu ⟨hu1, hu2⟩
    simp only [KeepsCount, Request.call, Tables.KeepsCount, hgroup, haccount, hcaller,
      Field.groupName_val, Option.map_eq_none_iff]
  | join group user =>
    simp only [KeepsCount, Request.call, Tables.KeepsCount, hgroup, Field.groupName_val,
      Option.map_eq_some_iff, Group.Reads]
    constructor
    · rintro h r hr ⟨hname, hlt⟩
      have hle := h ⟨r, hr, hname⟩
      exact absurd hle (Nat.not_le_of_lt hlt)
    · rintro h ⟨r, hr, hname⟩
      exact Nat.le_of_not_lt fun hlt => h r hr ⟨hname, hlt⟩
  | leave group user =>
    simp only [KeepsCount, Request.call, Tables.KeepsCount, members_ne_nil_iff,
      Field.groupName_val]
    constructor
    · intro h hcaller hrec
      obtain ⟨a, hc⟩ := Option.ne_none_iff_exists'.mp hcaller
      obtain ⟨⟨hu, hs⟩, -⟩ := Tables.caller_eq_some.mp hc
      exact h hu hs hrec
    · intro h hu hs hrec
      obtain ⟨a, ha, -⟩ := recorded_iff.mp hrec
      exact h (by simp [Tables.caller, hu, hs, ha]) hrec

/-- The counts are right in every state of a run exactly if every step of it keeps them:
a group is created by the empty name with a terminated name field and a user in the empty
name's bucket, no join finds a group of its name, and no leave removes a name of 17
characters. -/
theorem countsAgree_run_iff (p : ℕ → ℕ) (rs : List Request) :
    (∀ pre, pre <+: rs → (after p pre).CountsAgree) ↔
      ∀ pre r, Occurs rs pre r → KeepsCount p pre r := by
  have hstate : ∀ pre, (after p pre).CountsAgree ↔ (Tables.after pre).Counted := fun pre =>
    countsAgree_iff (after_serves p pre) (Tables.consistent_after pre)
  have hempty : Tables.empty.Counted := fun b r hr => by cases hr
  simp only [hstate]
  refine forall_states_iff (fun t (r : Request) => t.next r.call) Tables.Counted (KeepsCount p)
    hempty ?_
  intro pre r hcount
  rw [after_snoc, keepsCount_iff]
  exact Tables.counted_next (Tables.consistent_after pre) hcount r.call

/-- `ab` registers and creates the group `g`: one participant, but in no user's map. -/
theorem countsAgree_run_fails :
    ¬ ∀ pre, pre <+:
        [Request.register (.ofText 17 [97, 98] (by decide)) (.ofText 17 [120] (by decide)),
          .create (.ofText 18 [103] (by decide)) (.ofText 17 [97, 98] (by decide))] →
      (after id pre).CountsAgree := by
  intro h
  have hagree := h _ List.prefix_rfl
  rw [countsAgree_iff (after_serves _ _) (Tables.consistent_after _)] at hagree
  have hcount := hagree 50 ⟨⟨[103], by decide⟩, 0, 1⟩ (by rfl)
  revert hcount
  decide

end Server
end ChatProject
