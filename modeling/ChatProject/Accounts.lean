import ChatProject.History

/-!
# Names and passwords over whole runs

A login is checked against the account of the name's bucket, and a registration or a
creation is refused when the bucket is taken, whatever names the bucket was taken under.
So a run treats its names as names exactly where the first name of each bucket in
question is the name asked about.
-/

namespace ChatProject.Server
open Memory Protocol Run

/-- Every login answered with a connection has an earlier successful registration of the
same name with the same password. -/
def LoginSound (p : ℕ → ℕ) (rs : List Request) : Prop :=
  ∀ pre name psw, Occurs rs pre (.login name psw) →
    answerTo p pre (.login name psw) = some (.loginAns, some .loginUserSuccessfullyConnected) →
    RegisteredWith p pre name.str psw.str

/-- Authentication is sound in exactly the runs in which, at every login, the first name
registered in the bucket of the name given is that name, or has another password. -/
theorem loginSound_iff (p : ℕ → ℕ) (rs : List Request) :
    LoginSound p rs ↔
      ∀ pre name psw, Occurs rs pre (.login name psw) →
        ∀ n w, firstAccount pre (bucketOf name.str) = some (n, w) → w = psw.str →
          n = name.str := by
  constructor
  · rintro h pre name psw hocc n w hfirst rfl
    have hreg := h pre name psw hocc ((login_connected_iff ..).mpr ⟨n, hfirst⟩)
    rw [registeredWith_iff, hfirst] at hreg
    simpa using hreg
  · intro h pre name psw hocc hans
    obtain ⟨n, hfirst⟩ := (login_connected_iff ..).mp hans
    rw [registeredWith_iff, hfirst, h pre name psw hocc n _ hfirst rfl]

/-- `ad` registers and `bc`, whose characters have the same sum, logs in. -/
theorem loginSound_fails :
    ¬ LoginSound id
      [.register (.ofText 17 [97, 100] (by decide)) (.ofText 17 [120] (by decide)),
        .login (.ofText 17 [98, 99] (by decide)) (.ofText 17 [120] (by decide))] := by
  intro h
  have hocc := occurs_last
    [Request.register (.ofText 17 [97, 100] (by decide)) (.ofText 17 [120] (by decide))]
    (Request.login (.ofText 17 [98, 99] (by decide)) (.ofText 17 [120] (by decide)))
  have hreg := h _ _ _ hocc ((login_connected_iff ..).mpr ⟨[97, 100], by decide⟩)
  rw [registeredWith_iff] at hreg
  revert hreg
  decide

/-- A registration succeeds if and only if its name was not registered before, and so does
a creation as long as the pool has more addresses than there are groups. -/
structure NamesDecide (p : ℕ → ℕ) (rs : List Request) : Prop where
  register : ∀ pre name psw, Occurs rs pre (.register name psw) →
    (answerTo p pre (.register name psw) = some (.registerAns, some .registerSuccess) ↔
      ¬ ∃ w, RegisteredWith p pre name.str w)
  create : ∀ pre group user, Occurs rs pre (.create group user) →
    (after p pre).context.groupNames.size < IPPoolAddr.capacity →
    (answerTo p pre (.create group user) =
        some (.createGroupConversationAns, some .groupSuccessfullyInsert) ↔
      ¬ Created p pre group.str)

/-- The name alone decides in exactly the runs in which every registration, and every
creation that finds the pool not used up, finds its bucket empty or first taken under its
own name. -/
theorem namesDecide_iff (p : ℕ → ℕ) (rs : List Request) :
    NamesDecide p rs ↔
      (∀ pre name psw, Occurs rs pre (.register name psw) →
        ∀ n w, firstAccount pre (bucketOf name.str) = some (n, w) → n = name.str) ∧
      (∀ pre group user, Occurs rs pre (.create group user) →
        (after p pre).context.groupNames.size < IPPoolAddr.capacity →
        ∀ g, firstGroup pre (bucketOf group.str) = some g → g = group.str) := by
  constructor
  · rintro ⟨hreg, hcre⟩
    constructor
    · intro pre name psw hocc n w hfirst
      have h := hreg pre name psw hocc
      simp only [register_success_iff, registeredWith_iff, hfirst, reduceCtorEq, false_iff,
        not_not, Option.some.injEq, Prod.mk.injEq] at h
      obtain ⟨-, hn, -⟩ := h
      exact hn
    · intro pre group user hocc hsize g hfirst
      have h := hcre pre group user hocc hsize
      simpa [create_success_iff, created_iff, hfirst] using h
  · rintro ⟨hreg, hcre⟩
    constructor
    · intro pre name psw hocc
      simp only [register_success_iff, registeredWith_iff]
      constructor
      · rintro hnone ⟨w, hw⟩
        simp [hnone] at hw
      · intro hno
        rw [Option.eq_none_iff_forall_ne_some]
        rintro ⟨n, w⟩ hfirst
        exact hno ⟨w, hreg pre name psw hocc n w hfirst ▸ hfirst⟩
    · intro pre group user hocc hsize
      rw [create_success_iff, created_iff]
      constructor
      · intro hnone
        simp [hnone]
      · intro hno
        rw [Option.eq_none_iff_forall_ne_some]
        intro g hfirst
        exact hno (hcre pre group user hocc hsize g hfirst ▸ hfirst)

/-- `bc` is refused because `ad` is registered. -/
theorem namesDecide_fails :
    ¬ NamesDecide id
      [.register (.ofText 17 [97, 100] (by decide)) (.ofText 17 [120] (by decide)),
        .register (.ofText 17 [98, 99] (by decide)) (.ofText 17 [120] (by decide))] := by
  intro h
  have hocc := occurs_last
    [Request.register (.ofText 17 [97, 100] (by decide)) (.ofText 17 [120] (by decide))]
    (Request.register (.ofText 17 [98, 99] (by decide)) (.ofText 17 [120] (by decide)))
  have hreg := h.register _ _ _ hocc
  simp only [register_success_iff, registeredWith_iff] at hreg
  have hfirst : firstAccount
      [Request.register (.ofText 17 [97, 100] (by decide)) (.ofText 17 [120] (by decide))]
      (bucketOf [98, 99]) = some ([97, 100], [120]) := by decide
  have hno : ¬ ∃ w, firstAccount
      [Request.register (.ofText 17 [97, 100] (by decide)) (.ofText 17 [120] (by decide))]
      (bucketOf [98, 99]) = some ([98, 99], w) := by
    rw [hfirst]
    simp
  exact absurd (hreg.mpr hno) (by decide)

end ChatProject.Server
