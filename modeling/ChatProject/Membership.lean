import ChatProject.Participants

/-!
# Membership over whole runs

A member registered, entered the group by a creation or a join that succeeded, and did
not leave it successfully since. The server decides a leave by the groups recorded for
the account it finds for the caller, which is the account of the empty name's bucket or
none, and only creations are recorded there.
-/

namespace ChatProject
open Memory HashMap Protocol Run

namespace Request

/-- A creation of or a join to the group by the user. -/
def Enters (g u : CStr) : Request → Prop
  | create group user => group.str = g ∧ user.str = u
  | join group user => group.str = g ∧ user.str = u
  | _ => False

def Leaves (g u : CStr) : Request → Prop
  | leave group user => group.str = g ∧ user.str = u
  | _ => False

end Request

namespace Server

/-- The user is registered and is in the group since an entering request that succeeded. -/
def Member (p : ℕ → ℕ) (rs : List Request) (g u : CStr) : Prop :=
  (∃ w, RegisteredWith p rs u w) ∧
    Since (fun pre r => r.Enters g u ∧ (after p pre).Succeeds r.message)
      (fun pre r => r.Leaves g u ∧ (after p pre).Succeeds r.message) rs

/-- Every leave of the run succeeds if and only if its user is a member of its group. -/
def MembershipLaw (p : ℕ → ℕ) (rs : List Request) : Prop :=
  ∀ pre group user, Occurs rs pre (.leave group user) →
    ((after p pre).Succeeds (Request.leave group user).message ↔
      Member p pre group.str user.str)

/-- A creation finds the bucket of its group empty, a join finds the group. -/
def Admits (pre : List Request) : Request → Prop
  | .create group _ => firstGroup pre (bucketOf group.str) = none
  | .join group _ =>
    firstGroup pre (bucketOf group.str) = some group.str ∧ group.str.length < 17
  | _ => False

/-- The name of a leave reads as the stored keys do, and a user's map holds its group. -/
def Reaches (p : ℕ → ℕ) (pre : List Request) : Request → Prop
  | .leave group user =>
    user.str = [] ∧ group.last = 0 ∧ (after p pre).members group.str ≠ []
  | _ => False

theorem succeeds_enters_iff (p : ℕ → ℕ) (pre : List Request) (r : Request) (g u : CStr) :
    r.Enters g u ∧ (after p pre).Succeeds r.message ↔ r.Enters g u ∧ Admits pre r := by
  refine and_congr_right fun henters => ?_
  rw [succeeds_after]
  cases r with
  | create group user =>
    rw [Admits, ← Tables.names_after]
    cases hg : (Tables.after pre).groups (bucketOf group.str) <;>
      simp [Tables.Succeeds, Request.call, Tables.create, hg]
  | join group user =>
    rw [Admits, ← Tables.names_after]
    cases hg : (Tables.after pre).groups (bucketOf group.str) with
    | none => simp [Tables.Succeeds, Request.call, Tables.join, hg]
    | some r =>
      have hreads : r.Reads group.str ↔ r.name.1 = group.str ∧ group.str.length < 17 := Iff.rfl
      simp only [Tables.Succeeds, Request.call, Tables.join, Field.groupName_val, hg,
        Option.map_some, Option.some.injEq, ← hreads]
      by_cases hr : r.Reads group.str <;> simp [hr]
  | _ => exact absurd henters id

theorem succeeds_leave_iff (p : ℕ → ℕ) (pre : List Request) (group : Field 18)
    (user : Field 17) :
    (after p pre).Succeeds (Request.leave group user).message ↔
      Reaches p pre (.leave group user) := by
  rw [succeeds_after, Reaches, members_ne_nil_iff, Tables.recorded_iff]
  cases hc : (Tables.after pre).caller user.str group.last with
  | none =>
    simp only [Tables.Succeeds, Request.call, Tables.leave, hc, reduceCtorEq, false_iff]
    rintro ⟨hu, hs, a, ha, -⟩
    rw [Tables.caller_eq_some.mpr ⟨⟨hu, hs⟩, ha⟩] at hc
    cases hc
  | some a =>
    obtain ⟨⟨hu, hs⟩, ha⟩ := Tables.caller_eq_some.mp hc
    rw [hu, hs] at hc
    by_cases hm : group.str ∈ a.groups <;>
      simp [Tables.Succeeds, Request.call, Tables.leave, hc, hm, hu, hs, ha]

end Server

namespace Tables

/-- A creation of the group adds it to the account that is found for the caller. -/
def Adds (t : Tables) (g : CStr) : Request → Prop
  | .create group user => group.str = g ∧ t.groups (bucketOf g) = none ∧
      t.caller user.str group.last ≠ none
  | _ => False

/-- A leave takes the group away from the account that is found for the caller. -/
def Takes (t : Tables) (g : CStr) : Request → Prop
  | .leave group user => group.str = g ∧ t.caller user.str group.last ≠ none
  | _ => False

theorem recorded_next {t : Tables} (hcons : t.Consistent) (r : Request) (g : CStr) :
    (t.next r.call).recorded g = true ↔ t.Adds g r ∨ t.recorded g = true ∧ ¬ t.Takes g r := by
  cases r with
  | register name psw =>
    cases ha : t.accounts (bucketOf name.str) with
    | none => simp [next, Request.call, register, ha, recorded_register ha, Adds, Takes]
    | some a => simp [next, Request.call, register, ha, Adds, Takes]
  | login name psw => simp [next, Request.call, Adds, Takes]
  | create group user =>
    cases hg : t.groups (bucketOf group.str) with
    | some r =>
      have hno : ¬ t.Adds g (.create group user) := by
        rintro ⟨rfl, hnone, -⟩
        rw [hg] at hnone
        cases hnone
      simp [next, Request.call, create, hg, hno, Takes]
    | none =>
      cases hc : t.caller user.str group.last with
      | none =>
        have hc' : (t.addGroup group.groupName).caller user.str group.last = none := hc
        have hrec : (t.addGroup group.groupName).recorded g = t.recorded g := rfl
        simp [next, Request.call, create, hg, updateDetails, hc, hc', hrec, Adds, Takes]
      | some a =>
        have hc' : (t.addGroup group.groupName).caller user.str group.last = some a := hc
        have hrec := recorded_of_some (caller_eq_some.mp hc).2 g
        have hadds : t.Adds g (.create group user) ↔ g = group.str := by
          constructor
          · rintro ⟨rfl, -⟩
            rfl
          · rintro rfl
            exact ⟨rfl, hg, by simp [hc]⟩
        simp [next, Request.call, create, hg, updateDetails, hc', hrec, hadds, Takes]
  | join group user =>
    have hsame : (t.next (Request.join group user).call).recorded g = t.recorded g := by
      cases hg : t.groups (bucketOf group.str) with
      | none => simp [next, Request.call, join, hg]
      | some r =>
        by_cases hr : r.Reads group.str <;> simp [next, Request.call, join, hg, hr, recorded]
    simp [hsame, Adds, Takes]
  | leave group user =>
    cases hc : t.caller user.str group.last with
    | none => simp [next, Request.call, leave, hc, Adds, Takes]
    | some a =>
      have ha := (caller_eq_some.mp hc).2
      have hrec := recorded_of_some ha g
      have htakes : t.Takes g (.leave group user) ↔ group.str = g := by simp [Takes, hc]
      have hleave : ∀ t' : Tables,
          (t'.leaveGroup group.groupName).2.recorded g = t'.recorded g := by
        intro t'
        simp [recorded]
      by_cases hm : group.str ∈ a.groups
      · have herase : g ∈ a.groups.erase group.str ↔ g ∈ a.groups ∧ ¬ group.str = g := by
          rw [(hcons.nodup _ a ha).mem_erase_iff, and_comm, ne_comm]
        simp [next, Request.call, leave, hc, hm, hleave, hrec, htakes, herase, Adds]
      · have hne : g ∈ a.groups → ¬ group.str = g := fun hg he => hm (he ▸ hg)
        simpa [next, Request.call, leave, hc, hm, hrec, htakes, Adds] using hne

theorem recorded_after (rs : List Request) (g : CStr) :
    (after rs).recorded g = true ↔
      Since (fun pre r => (after pre).Adds g r) (fun pre r => (after pre).Takes g r) rs := by
  refine since_after (fun (t : Tables) (r : Request) => t.next r.call)
    (fun t => t.recorded g = true) (by simp [recorded, empty]) (fun pre r => ?_) rs
  rw [Run.after_snoc]
  exact recorded_next (consistent_after pre) r g

end Tables

namespace Server

/-- The group a leave reaches was entered by the empty name, and not left since. -/
theorem since_of_reaches {p : ℕ → ℕ} {pre : List Request} {group : Field 18} {user : Field 17}
    (h : Reaches p pre (.leave group user)) :
    Since (fun pre r => r.Enters group.str user.str ∧ Admits pre r)
      (fun pre r => r.Leaves group.str user.str ∧ Reaches p pre r) pre := by
  obtain ⟨hu, -, hmem⟩ := h
  rw [members_ne_nil_iff, Tables.recorded_after] at hmem
  refine hmem.imp (fun pre r _ hadds => ?_) (fun pre r _ hleaves => ?_)
  · cases r with
    | create group' user' =>
      obtain ⟨hname, hnone, hcaller⟩ := hadds
      obtain ⟨a, hc⟩ := Option.ne_none_iff_exists'.mp hcaller
      refine ⟨⟨hname, ?_⟩, ?_⟩
      · rw [hu, (Tables.caller_eq_some.mp hc).1.1]
      · rw [Admits, ← Tables.names_after, hname, hnone]
        rfl
    | _ => exact absurd hadds id
  · cases r with
    | leave group' user' =>
      obtain ⟨⟨hname, -⟩, hu', hs', hmem'⟩ := hleaves
      rw [members_ne_nil_iff, Tables.recorded_iff] at hmem'
      obtain ⟨a, ha, -⟩ := hmem'
      exact ⟨hname, by simp [Tables.caller, hu', hs', ha]⟩
    | _ => exact absurd hleaves.1 id

theorem member_iff (p : ℕ → ℕ) (rs : List Request) (g u : CStr) :
    Member p rs g u ↔
      (∃ w, firstAccount rs (bucketOf u) = some (u, w)) ∧
        Since (fun pre r => r.Enters g u ∧ Admits pre r)
          (fun pre r => r.Leaves g u ∧ Reaches p pre r) rs := by
  have hleave : ∀ pre r, r.Leaves g u ∧ (after p pre).Succeeds r.message ↔
      r.Leaves g u ∧ Reaches p pre r := by
    intro pre r
    refine and_congr_right fun hl => ?_
    cases r with
    | leave group user => exact succeeds_leave_iff p pre group user
    | _ => exact absurd hl id
  simp only [Member, registeredWith_iff, succeeds_enters_iff, hleave]

/-- The law holds in exactly the runs in which at every leave the following holds: if it
reaches its group, the empty name is the first of its bucket to be registered; otherwise
its user is not the first registered in the bucket, or was not admitted to the group
since the last leave that reached it. -/
theorem membershipLaw_iff (p : ℕ → ℕ) (rs : List Request) :
    MembershipLaw p rs ↔
      ∀ pre group user, Occurs rs pre (.leave group user) →
        (Reaches p pre (.leave group user) →
          ∃ w, firstAccount pre (bucketOf []) = some ([], w)) ∧
        (¬ Reaches p pre (.leave group user) →
          (∃ w, firstAccount pre (bucketOf user.str) = some (user.str, w)) →
            ¬ Since (fun pre r => r.Enters group.str user.str ∧ Admits pre r)
              (fun pre r => r.Leaves group.str user.str ∧ Reaches p pre r) pre) := by
  refine forall_congr' fun pre => forall_congr' fun group => forall_congr' fun user =>
    imp_congr_right fun _ => ?_
  rw [succeeds_leave_iff, member_iff]
  by_cases hreach : Reaches p pre (.leave group user)
  · -- only the registration under the empty name is left to decide
    have hsince := since_of_reaches hreach
    have hu : user.str = [] := hreach.1
    rw [hu] at hsince ⊢
    simp [hreach, hsince]
  · simp only [hreach, false_iff, false_implies, not_false_eq_true, true_implies, true_and]
    exact not_and

/-- `ab` registers and creates the group `g`, but cannot leave it. -/
theorem membershipLaw_fails :
    ¬ MembershipLaw id
      [.register (.ofText 17 [97, 98] (by decide)) (.ofText 17 [120] (by decide)),
        .create (.ofText 18 [103] (by decide)) (.ofText 17 [97, 98] (by decide)),
        .leave (.ofText 18 [103] (by decide)) (.ofText 17 [97, 98] (by decide))] := by
  intro h
  let register := Request.register (.ofText 17 [97, 98] (by decide)) (.ofText 17 [120] (by decide))
  let create := Request.create (.ofText 18 [103] (by decide)) (.ofText 17 [97, 98] (by decide))
  have hlaw := h [register, create] (.ofText 18 [103] (by decide))
    (.ofText 17 [97, 98] (by decide)) (occurs_last _ _)
  have hmember : Member id [register, create] [103] [97, 98] := by
    rw [member_iff]
    have hadmits : Admits [register] create := by
      change firstGroup [register] (bucketOf [103]) = none
      decide
    refine ⟨⟨[120], by decide⟩, [register], create, occurs_last _ _, ⟨⟨rfl, rfl⟩, hadmits⟩, ?_⟩
    intro pre r hocc hlt
    have hlen := hocc.length_lt
    simp only [List.length_cons, List.length_nil] at hlt hlen
    omega
  have hreach := (succeeds_leave_iff _ _ _ _).mp (hlaw.mpr hmember)
  exact absurd hreach.1 (by decide)

end Server
end ChatProject
