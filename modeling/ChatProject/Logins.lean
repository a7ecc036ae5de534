import ChatProject.History

/-!
# What a registration settles for later logins

A login is answered by the account of the name's bucket, and the credentials of that
account never change. Its status never changes either: for a login `InsertUserToList`
fills a new record and drops it, and the record in the map keeps the status it was
registered with.
-/

namespace ChatProject.Server
open Memory HashMap Protocol DataBase Run

def loginCode (credentials : Option (CStr × CStr)) (psw : CStr) : Answers :=
  match credentials with
  | none => .loginUserNameNotExist
  | some (_, w) => if psw = w then .loginUserSuccessfullyConnected else .loginWrongPsw

theorem login_answer (p : ℕ → ℕ) (rs : List Request) (name psw : Field 17) :
    answerTo p rs (.login name psw) =
      some (.loginAns, some (loginCode (firstAccount rs (bucketOf name.str)) psw.str)) := by
  rw [answerTo_eq, ← Tables.credentials_after]
  cases ha : (Tables.after rs).accounts (bucketOf name.str) with
  | none => simp [Tables.reply, Request.call, Tables.login, ha, ServerApp.loginAnswer, loginCode]
  | some a =>
    by_cases hp : psw.str = a.psw <;>
      simp [Tables.reply, Request.call, Tables.login, ha, ServerApp.loginAnswer, loginCode,
        Account.credentials, hp]

theorem firstAccount_mono {pre rs : List Request} (h : pre <+: rs) {b : ℕ} {c : CStr × CStr}
    (hc : firstAccount pre b = some c) : firstAccount rs b = some c :=
  h.findSome?_eq_some hc

structure AccountsDurable (p : ℕ → ℕ) (rs : List Request) : Prop where
  known : ∀ pre name psw w, Occurs rs pre (.login name psw) → RegisteredWith p pre name.str w →
    answerTo p pre (.login name psw) ≠ some (.loginAns, some .loginUserNameNotExist)
  wrongPsw : ∀ pre name psw w, Occurs rs pre (.login name psw) →
    RegisteredWith p pre name.str w →
    answerTo p pre (.login name psw) = some (.loginAns, some .loginWrongPsw) → psw.str ≠ w
  connected : ∀ pre name psw w, Occurs rs pre (.login name psw) →
    RegisteredWith p pre name.str w →
    answerTo p pre (.login name psw) = some (.loginAns, some .loginUserSuccessfullyConnected) →
    psw.str = w

theorem login_registered {p : ℕ → ℕ} {rs : List Request} {name : Field 17} {w : CStr}
    (h : RegisteredWith p rs name.str w) (psw : Field 17) :
    answerTo p rs (.login name psw) = some (.loginAns,
      some (if psw.str = w then .loginUserSuccessfullyConnected else .loginWrongPsw)) := by
  rw [login_answer, (registeredWith_iff p rs name.str w).mp h, loginCode]

theorem accountsDurable (p : ℕ → ℕ) (rs : List Request) : AccountsDurable p rs where
  known := by
    intro pre name psw w _ hreg
    rw [login_registered hreg]
    by_cases hp : psw.str = w <;> simp [hp]
  wrongPsw := by
    intro pre name psw w _ hreg hans hp
    simp [login_registered hreg, hp] at hans
  connected := by
    intro pre name psw w _ hreg hans
    by_contra hp
    simp [login_registered hreg, hp] at hans

/-! ## One login for each user -/

/-- The map after the record found for the name in the buffer is marked as connected. -/
def markConnected (users : HashMap Bytes CharPtr UserValue) (buf : Bytes) :
    HashMap Bytes CharPtr UserValue :=
  users.modifyFound buf (.rcv userUserName) fun value => { value with status := connect }

/-- Once a login of a registered user was answered with a connection, the later logins of
the user are answered with `LOGIN_ALLREADY_CONNECTED`. -/
def LaterRefused (p : ℕ → ℕ) (rs : List Request) : Prop :=
  ∀ pre name psw, Occurs rs pre (.login name psw) → (∃ w, RegisteredWith p rs name.str w) →
    answerTo p pre (.login name psw) = some (.loginAns, some .loginUserSuccessfullyConnected) →
    ∀ pre' name' psw', Occurs rs pre' (.login name' psw') → pre.length < pre'.length →
      name'.str = name.str →
      answerTo p pre' (.login name' psw') = some (.loginAns, some .loginAllreadyConnected)

/-- Such a login marks the record of the user and changes nothing else in the map. -/
def StatusRecorded (p : ℕ → ℕ) (rs : List Request) : Prop :=
  ∀ pre name psw, Occurs rs pre (.login name psw) → (∃ w, RegisteredWith p rs name.str w) →
    answerTo p pre (.login name psw) = some (.loginAns, some .loginUserSuccessfullyConnected) →
    (after p (pre ++ [.login name psw])).context.userNames =
      markConnected (after p pre).context.userNames (after p (pre ++ [.login name psw])).bufferRcv

structure SingleLogin (p : ℕ → ℕ) (rs : List Request) : Prop where
  later : LaterRefused p rs
  record : StatusRecorded p rs

/-- A login of a registered user succeeds exactly with the credentials registered for it. -/
theorem connected_registered_iff (p : ℕ → ℕ) {rs pre : List Request} {name psw : Field 17}
    (hocc : Occurs rs pre (.login name psw)) :
    ((∃ w, RegisteredWith p rs name.str w) ∧ answerTo p pre (.login name psw) =
      some (.loginAns, some .loginUserSuccessfullyConnected)) ↔
    firstAccount pre (bucketOf name.str) = some (name.str, psw.str) := by
  constructor
  · rintro ⟨⟨w, hreg⟩, hans⟩
    obtain ⟨n, hfirst⟩ := (login_connected_iff ..).mp hans
    have hlater := firstAccount_mono hocc.history hfirst
    rw [(registeredWith_iff ..).mp hreg] at hlater
    simp only [Option.some.injEq, Prod.mk.injEq] at hlater
    rw [hfirst, hlater.1]
  · intro hfirst
    refine ⟨⟨psw.str, ?_⟩, (login_connected_iff ..).mpr ⟨_, hfirst⟩⟩
    exact (registeredWith_iff ..).mpr (firstAccount_mono hocc.history hfirst)

theorem answer_ne_allreadyConnected (p : ℕ → ℕ) (rs : List Request) (name psw : Field 17) :
    answerTo p rs (.login name psw) ≠ some (.loginAns, some .loginAllreadyConnected) := by
  rw [login_answer]
  cases firstAccount rs (bucketOf name.str) with
  | none => simp [loginCode]
  | some c => by_cases hp : psw.str = c.2 <;> simp [loginCode, hp]

theorem laterRefused_iff (p : ℕ → ℕ) (rs : List Request) :
    LaterRefused p rs ↔
      ∀ pre name psw, Occurs rs pre (.login name psw) →
        firstAccount pre (bucketOf name.str) = some (name.str, psw.str) →
        ∀ pre' name' psw', Occurs rs pre' (.login name' psw') → pre.length < pre'.length →
          name'.str ≠ name.str := by
  constructor
  · intro h pre name psw hocc hfirst pre' name' psw' hocc' hlt hname
    obtain ⟨hreg, hans⟩ := (connected_registered_iff p hocc).mpr hfirst
    exact answer_ne_allreadyConnected p pre' name' psw'
      (h pre name psw hocc hreg hans pre' name' psw' hocc' hlt hname)
  · intro h pre name psw hocc hreg hans pre' name' psw' hocc' hlt hname
    have hfirst := (connected_registered_iff p hocc).mp ⟨hreg, hans⟩
    exact absurd hname (h pre name psw hocc hfirst pre' name' psw' hocc' hlt)

theorem cstr_bufferRcv_login (p : ℕ → ℕ) (pre : List Request) (name psw : Field 17) :
    cstr (after p (pre ++ [.login name psw])).bufferRcv userUserName = name.str := by
  rw [bufferRcv_after, recv, Request.message, unPack_frame _ _ _ _ (by decide)]
  exact cstr_frame_second _ _ _ _

theorem mem_modify_findIdx {α : Type} {xs : List α} {q : α → Bool} {x : α}
    (hx : xs.find? q = some x) (f : α → α) : f x ∈ xs.modify (xs.findIdx q) f := by
  rw [List.find?_eq_getElem?_findIdx] at hx
  refine List.mem_of_getElem? (i := xs.findIdx q) ?_
  rw [List.getElem?_modify, hx]
  simp

theorem users_bucket_status (p : ℕ → ℕ) (rs : List Request) (b : ℕ) :
    ∀ e ∈ (after p rs).context.userNames.bucket b, e.value.status = disconnect := by
  intro e he
  have href := (after_serves p rs).refines
  cases ha : (Tables.after rs).accounts b with
  | none => simp [href.bucket_of_none ha] at he
  | some a =>
    obtain ⟨e', hb, he'⟩ := href.bucket_of_some ha
    rw [hb, List.mem_singleton] at he
    rw [he, he'.status]

/-- No login marks the record of its user: it keeps the status of the registration. -/
theorem not_markConnected (p : ℕ → ℕ) {pre : List Request} {name psw : Field 17} {w : CStr}
    (hfirst : firstAccount pre (bucketOf name.str) = some (name.str, w)) :
    (after p (pre ++ [.login name psw])).context.userNames ≠
      markConnected (after p pre).context.userNames
        (after p (pre ++ [.login name psw])).bufferRcv := by
  let buf := (after p (pre ++ [.login name psw])).bufferRcv
  have hbuf : cstr buf userUserName = name.str := cstr_bufferRcv_login p pre name psw
  have href := (after_serves p pre).refines
  rw [← Tables.credentials_after, ← hbuf] at hfirst
  obtain ⟨a, ha, -⟩ := Option.map_eq_some_iff.mp hfirst
  obtain ⟨e, hl, -⟩ := href.findUser_some ha
  intro hmark
  obtain ⟨-, -, -, hb⟩ := modifyFound_spec href.users.sound hl
    (fun value => { value with status := connect })
  have hmem : { e with value := { e.value with status := connect } } ∈
      (markConnected (after p pre).context.userNames buf).bucket
        ((after p pre).context.userNames.index buf (.rcv userUserName)) := by
    rw [markConnected, hb, if_pos rfl]
    exact mem_modify_findIdx hl fun e => { e with value := { e.value with status := connect } }
  rw [← hmark] at hmem
  have hconnect : connect = disconnect := users_bucket_status p _ _ _ hmem
  exact absurd hconnect (by decide)

/-- A run has one login a user, recorded in the map, in exactly the runs in which no
registered user logs in with its password. -/
theorem singleLogin_iff (p : ℕ → ℕ) (rs : List Request) :
    SingleLogin p rs ↔
      ∀ pre name psw, Occurs rs pre (.login name psw) →
        firstAccount pre (bucketOf name.str) ≠ some (name.str, psw.str) := by
  constructor
  · intro h pre name psw hocc hfirst
    obtain ⟨hreg, hans⟩ := (connected_registered_iff p hocc).mpr hfirst
    exact not_markConnected p hfirst (h.record pre name psw hocc hreg hans)
  · intro h
    constructor
    · intro pre name psw hocc hreg hans
      exact absurd ((connected_registered_iff p hocc).mp ⟨hreg, hans⟩) (h pre name psw hocc)
    · intro pre name psw hocc hreg hans
      exact absurd ((connected_registered_iff p hocc).mp ⟨hreg, hans⟩) (h pre name psw hocc)

/-- `ab` registers and logs in twice. -/
theorem singleLogin_fails :
    ¬ SingleLogin id
      [.register (.ofText 17 [97, 98] (by decide)) (.ofText 17 [120] (by decide)),
        .login (.ofText 17 [97, 98] (by decide)) (.ofText 17 [120] (by decide)),
        .login (.ofText 17 [97, 98] (by decide)) (.ofText 17 [120] (by decide))] := by
  intro h
  have hocc : Occurs [.register (.ofText 17 [97, 98] (by decide)) (.ofText 17 [120] (by decide)),
      .login (.ofText 17 [97, 98] (by decide)) (.ofText 17 [120] (by decide)),
      .login (.ofText 17 [97, 98] (by decide)) (.ofText 17 [120] (by decide))]
      [.register (.ofText 17 [97, 98] (by decide)) (.ofText 17 [120] (by decide))]
      (Request.login (.ofText 17 [97, 98] (by decide)) (.ofText 17 [120] (by decide))) :=
    ⟨[.login (.ofText 17 [97, 98] (by decide)) (.ofText 17 [120] (by decide))], rfl⟩
  obtain ⟨hreg, hans⟩ := (connected_registered_iff id hocc).mpr (by decide)
  refine answer_ne_allreadyConnected id _ _ _ (h.later _ _ _ hocc hreg hans
    [.register (.ofText 17 [97, 98] (by decide)) (.ofText 17 [120] (by decide)),
      .login (.ofText 17 [97, 98] (by decide)) (.ofText 17 [120] (by decide))] _ _
    (occurs_last _ _) (by decide) rfl)

end ChatProject.Server
