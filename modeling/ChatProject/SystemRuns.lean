import ChatProject.SessionRuns

/-!
# Runs with users

The invariant of the whole system over its runs, and how a run can go on: with the transfers of a
call, with a connection that is lost, and with what a user at the menu does next, while the other
clients' interfaces, windows and connections stay as they are.
-/

namespace ChatProject
open Memory Protocol Run Function Linearizability ChatWindow

/-- A run of the server and the clients `ι`, the allocations of the server succeeding. -/
structure SystemRun (ι : Type) [DecidableEq ι] where
  settings : Sessions.Settings
  allocator : ℕ → ℕ
  choice : ι → ℤ
  acts : List (ι × Act)
  permitted : ∀ pre e, Occurs acts pre e → ∀ s,
    Sessions.after settings (Server.running allocator) choice pre = some s → s.Permitted e

namespace SystemRun
variable {ι : Type} [DecidableEq ι] (r : SystemRun ι)

def after (pre : List (ι × Act)) : Option (Sessions ι) :=
  Sessions.after r.settings (Server.running r.allocator) r.choice pre

theorem after_snoc {pre : List (ι × Act)} {s : Sessions ι} (hs : r.after pre = some s)
    (e : ι × Act) : r.after (pre ++ [e]) = s.step r.settings e := by
  have hs' : Sessions.after r.settings (Server.running r.allocator) r.choice pre = some s := hs
  rw [after, Sessions.after_snoc, hs', Option.bind_some]

/-- Every `recv` returns all bytes that are there, up to the length that it is asked for. -/
def AllWhole : Prop :=
  ∀ pre e, Occurs r.acts pre e → ∀ s, r.after pre = some s → s.Whole e

variable {r}

theorem sound (hwhole : r.AllWhole) {pre : List (ι × Act)} (hpre : pre <+: r.acts) :
    ∃ s as a, r.after pre = some s ∧ s.Sound r.settings.port a ∧
      Atomic.Runs tablesObject (Atomic.start Tables.empty) as a ∧
      s.chat.history = observed as := by
  induction pre using List.reverseRecOn with
  | nil => exact ⟨_, [], _, rfl, Sessions.sound_start _ _ _, .nil, rfl⟩
  | append_singleton pre e ih =>
    obtain ⟨s, as, a, hs, hsound, hruns, hhist⟩ := ih (Occurs.history hpre)
    obtain ⟨s', a', hstep, hsound', -, hact⟩ :=
      hsound.step (r.permitted pre e hpre s hs) (hwhole pre e hpre s hs)
    have hs' : r.after (pre ++ [e]) = some s' := (r.after_snoc hs e).trans hstep
    rcases hact with ⟨rfl, hsame⟩ | ⟨act, hatomic, hsnoc⟩
    · exact ⟨s', as, a', hs', hsound', hruns, hsame.trans hhist⟩
    · refine ⟨s', as ++ [act], a', hs', hsound', hruns.snoc hatomic, ?_⟩
      rw [hsnoc, hhist, observed, observed, observed, List.filterMap_append]

theorem sound_at (hwhole : r.AllWhole) {pre : List (ι × Act)} (hpre : pre <+: r.acts)
    {s : Sessions ι} (hs : r.after pre = some s) : ∃ a, s.Sound r.settings.port a := by
  obtain ⟨s₀, -, a, hs₀, hsound, -⟩ := sound hwhole hpre
  obtain rfl := Option.some.inj (hs₀.symm.trans hs)
  exact ⟨a, hsound⟩

theorem grows (hwhole : r.AllWhole) {pre : List (ι × Act)} {s : Sessions ι}
    {a : Atomic ι Tables ClientCall Decoded} (hs : r.after pre = some s)
    (hsound : s.Sound r.settings.port a) {post : List (ι × Act)} (h : pre ++ post <+: r.acts) :
    ∃ s' a', r.after (pre ++ post) = some s' ∧ s'.Sound r.settings.port a' ∧
      a.state.Grows a'.state ∧ ∀ i, calls i s.chat.history ⊆ calls i s'.chat.history := by
  induction post using List.reverseRecOn with
  | nil => exact ⟨s, a, by rwa [List.append_nil], hsound, .refl _, fun _ => List.Subset.refl _⟩
  | append_singleton post e ih =>
    have hocc : Occurs r.acts (pre ++ post) e := by
      rw [Occurs, List.append_assoc]
      exact h
    obtain ⟨s', a', hs', hsound', hgrows, hcalls⟩ := ih hocc.history
    obtain ⟨s'', a'', hstep, hsound'', hgrows', hact⟩ :=
      hsound'.step (r.permitted _ e hocc s' hs') (hwhole _ e hocc s' hs')
    refine ⟨s'', a'', ?_, hsound'', hgrows.trans hgrows', ?_⟩
    · rw [← List.append_assoc, r.after_snoc hs' e, hstep]
    · intro i
      refine List.Subset.trans (hcalls i) ?_
      rcases hact with ⟨-, hsame⟩ | ⟨act, -, hsnoc⟩
      · rw [hsame]
        exact List.Subset.refl _
      · rw [hsnoc, calls, calls, List.filterMap_append]
        exact List.subset_append_left _ _

/-! ## Runs that go on -/

structure Continues (r r' : SystemRun ι) (acts : List (ι × Act)) : Prop where
  settings : r'.settings = r.settings
  allocator : r'.allocator = r.allocator
  choice : r'.choice = r.choice
  acts : r'.acts = r.acts ++ acts

theorem Continues.refl (r : SystemRun ι) : r.Continues r [] :=
  ⟨rfl, rfl, rfl, (List.append_nil _).symm⟩

theorem Continues.trans {r r' r'' : SystemRun ι} {acts acts' : List (ι × Act)}
    (h : r.Continues r' acts) (h' : r'.Continues r'' acts') :
    r.Continues r'' (acts ++ acts') where
  settings := h'.settings.trans h.settings
  allocator := h'.allocator.trans h.allocator
  choice := h'.choice.trans h.choice
  acts := by rw [h'.acts, h.acts, List.append_assoc]

theorem Continues.after {r r' : SystemRun ι} {acts : List (ι × Act)} (h : r.Continues r' acts)
    (pre : List (ι × Act)) : r'.after pre = r.after pre := by
  rw [SystemRun.after, SystemRun.after, h.settings, h.allocator, h.choice]

theorem Continues.occurs {r r' : SystemRun ι} {e : ι × Act} (h : r.Continues r' [e]) :
    Occurs r'.acts r.acts e := by
  rw [Occurs, h.acts]

/-- The run has led to the state `s`. -/
structure Stands (r : SystemRun ι) (s : Sessions ι) (a : Atomic ι Tables ClientCall Decoded) :
    Prop where
  whole : r.AllWhole
  after : r.after r.acts = some s
  sound : s.Sound r.settings.port a

theorem Stands.snoc {s s' : Sessions ι} {a a' : Atomic ι Tables ClientCall Decoded}
    (h : r.Stands s a) {e : ι × Act} (hp : s.Permitted e) (hw : s.Whole e)
    (hstep : s.step r.settings e = some s') (hsound : s'.Sound r.settings.port a') :
    ∃ r' : SystemRun ι, r.Continues r' [e] ∧ r'.Stands s' a' := by
  have hthere : ∀ s₀, r.after r.acts = some s₀ → s = s₀ :=
    fun _ hs₀ => Option.some.inj (h.after.symm.trans hs₀)
  let r' : SystemRun ι := { r with
    acts := r.acts ++ [e]
    permitted := (forall_occurs_snoc r.acts e).mpr
      ⟨r.permitted, fun s₀ hs₀ => hthere s₀ hs₀ ▸ hp⟩ }
  have hcont : r.Continues r' [e] := ⟨rfl, rfl, rfl, rfl⟩
  refine ⟨r', hcont, (forall_occurs_snoc r.acts e).mpr ⟨?_, ?_⟩, ?_, hsound⟩
  · intro pre e' hocc s₀ hs₀
    exact h.whole pre e' hocc s₀ (hcont.after pre ▸ hs₀)
  · intro s₀ hs₀
    exact hthere s₀ (hcont.after r.acts ▸ hs₀) ▸ hw
  · rw [hcont.after, hcont.acts, r.after_snoc h.after, hstep]

section Calls
variable {s : Sessions ι} {a : Atomic ι Tables ClientCall Decoded}

theorem Stands.type (h : r.Stands s a) (i : ι) (w : Word) : ∃ r' : SystemRun ι,
    r.Continues r' [(i, .type w)] ∧ r'.Stands (s.setUI i ((s.uis i).typeWord w)) a :=
  h.snoc trivial trivial rfl (h.sound.type w)

theorem Stands.scan (h : r.Stands s a) (i : ι) : ∃ r' : SystemRun ι,
    r.Continues r' [(i, .scan)] ∧
      r'.Stands (s.setUI i ((s.uis i).scan r.settings.room)) a :=
  h.snoc trivial trivial rfl h.sound.scan

def OpenAt (s : Sessions ι) (a : Atomic ι Tables ClientCall Decoded) (i : ι)
    (st : Status ClientCall Decoded) : Prop :=
  (s.chat.links i).closed = false ∧ a.status i = st

/-- The connections of the other clients stay as they are. -/
def Beside (i : ι) (s : Sessions ι) (a : Atomic ι Tables ClientCall Decoded) (s' : Sessions ι)
    (a' : Atomic ι Tables ClientCall Decoded) : Prop :=
  ∀ j, j ≠ i → ∀ st, OpenAt s a j st → OpenAt s' a' j st

theorem beside_transfer {set : Sessions.Settings} {s' : Sessions ι} {i : ι} {t : LinkAct}
    {fileForListen : Bool} (hstep : s.transfer set i t fileForListen = some s')
    (a : Atomic ι Tables ClientCall Decoded) (tables : Tables) (st : Status ClientCall Decoded) :
    Beside i s a s' ⟨tables, update a.status i st⟩ := by
  intro j hj st' hopen
  exact ⟨(congrArg ClientLink.closed (Sessions.transfer_links hstep hj)).trans hopen.1,
    (update_of_ne hj _ _).trans hopen.2⟩

def callActs (i : ι) (c : ClientCall) (beyond : Block Server.buffSize) (fileForListen : Bool) :
    List (ι × Act) :=
  [(i, .transfer (.sendToServer c) fileForListen),
    (i, .transfer (.sndRcv c.message.length beyond) fileForListen),
    (i, .transfer (.reciveFromServer Server.buffSize) fileForListen)]

theorem Stands.send (h : r.Stands s a) {i : ι} {op : Operation}
    (hscreen : (s.uis i).screen = .waiting op) (hidle : OpenAt s a i .idle)
    (user : Block sizeofUserDetails) (group : Block sizeofGroupDetails) (fileForListen : Bool) :
    ∃ r' chat a',
      r.Continues r' [(i, .transfer (.sendToServer (op.call user group)) fileForListen)] ∧
      r'.Stands { s with chat := chat } a' ∧ a'.state = a.state ∧
      OpenAt { s with chat := chat } a' i (.called (op.call user group)) ∧
      Beside i s a { s with chat := chat } a' := by
  have hp : s.Permitted (i, .transfer (.sendToServer (op.call user group)) fileForListen) :=
    ⟨h.sound.refines.canSend hidle.1 hidle.2 _, op, user, group, hscreen, rfl⟩
  obtain ⟨-, chat, hstep, hsound, hopen, -⟩ := h.sound.send hidle.1 hp
  obtain ⟨r', hcont, hstands⟩ := h.snoc hp trivial hstep hsound
  exact ⟨r', chat, _, hcont, hstands, rfl, ⟨hopen, update_self ..⟩, beside_transfer hstep a _ _⟩

theorem Stands.serve (h : r.Stands s a) {i : ι} {c : ClientCall}
    (hcalled : OpenAt s a i (.called c)) (beyond : Block Server.buffSize) (fileForListen : Bool) :
    ∃ r' chat a', r.Continues r' [(i, .transfer (.sndRcv c.message.length beyond) fileForListen)] ∧
      r'.Stands { s with chat := chat } a' ∧ a'.state = tablesObject.next a.state c ∧
      OpenAt { s with chat := chat } a' i (.done (tablesObject.reply a.state c)) ∧
      Beside i s a { s with chat := chat } a' := by
  obtain ⟨hchat, hwhole⟩ := h.sound.refines.canServe hcalled.1 hcalled.2 beyond
  have hp : s.Permitted (i, .transfer (.sndRcv c.message.length beyond) fileForListen) :=
    ⟨hchat, trivial⟩
  obtain ⟨op, user, group, chat, hst, -, hstep, hsound, hopen, -⟩ := h.sound.serve hp hwhole
  obtain rfl : c = op.call user group := Status.called.inj (hcalled.2.symm.trans hst)
  obtain ⟨r', hcont, hstands⟩ := h.snoc hp hwhole hstep hsound
  exact ⟨r', chat, _, hcont, hstands, rfl, ⟨hopen, update_self ..⟩, beside_transfer hstep a _ _⟩

theorem Stands.receive (h : r.Stands s a) {i : ι} {op : Operation} {d : Decoded}
    (hscreen : (s.uis i).screen = .waiting op) (hdone : OpenAt s a i (.done d))
    (fileForListen : Bool) :
    ∃ r' s' a',
      r.Continues r' [(i, .transfer (.reciveFromServer Server.buffSize) fileForListen)] ∧
      r'.Stands s' a' ∧ a'.state = a.state ∧ OpenAt s' a' i .idle ∧
      s'.uis = update s.uis i ((s.uis i).resume (op.result d.answer)) ∧
      s'.windows =
        update s.windows i (s.windows i ++ op.window r.settings fileForListen d) ∧
      s'.network = s.network ∧ Beside i s a s' a' := by
  obtain ⟨hchat, hwhole⟩ := h.sound.refines.canReceive hdone.1 hdone.2
  have hp : s.Permitted (i, .transfer (.reciveFromServer Server.buffSize) fileForListen) :=
    ⟨hchat, trivial⟩
  obtain ⟨op', d', s', hst, hscreen', -, hstep, huis, hwindows, hsound, hopen, -⟩ :=
    h.sound.receive hp hwhole
  obtain rfl : d = d' := Status.done.inj (hdone.2.symm.trans hst)
  obtain rfl : op = op' := Screen.waiting.inj (hscreen.symm.trans hscreen')
  obtain ⟨r', hcont, hstands⟩ := h.snoc hp hwhole hstep hsound
  exact ⟨r', s', _, hcont, hstands, rfl, ⟨hopen.trans hdone.1, update_self ..⟩, huis, hwindows,
    Sessions.transfer_network hstep, beside_transfer hstep a _ _⟩

theorem Stands.call (h : r.Stands s a) {i : ι} {op : Operation}
    (hscreen : (s.uis i).screen = .waiting op) (hidle : OpenAt s a i .idle)
    (user : Block sizeofUserDetails) (group : Block sizeofGroupDetails)
    (beyond : Block Server.buffSize) (fileForListen : Bool) :
    ∃ r' s' a', r.Continues r' (callActs i (op.call user group) beyond fileForListen) ∧
      r'.Stands s' a' ∧ a'.state = tablesObject.next a.state (op.call user group) ∧
      OpenAt s' a' i .idle ∧
      s'.uis = update s.uis i ((s.uis i).resume
        (op.result (tablesObject.reply a.state (op.call user group)).answer)) ∧
      s'.windows = update s.windows i (s.windows i ++ op.window r.settings fileForListen
        (tablesObject.reply a.state (op.call user group))) ∧
      s'.network = s.network ∧ Beside i s a s' a' := by
  obtain ⟨r₁, chat₁, a₁, hcont₁, h₁, hstate₁, hcalled, hbeside₁⟩ :=
    h.send hscreen hidle user group fileForListen
  obtain ⟨r₂, chat₂, a₂, hcont₂, h₂, hstate₂, hdone, hbeside₂⟩ :=
    h₁.serve hcalled beyond fileForListen
  rw [hstate₁] at hstate₂ hdone
  obtain ⟨r₃, s', a', hcont₃, h₃, hstate₃, hidle', huis, hwindows, hnetwork, hbeside₃⟩ :=
    h₂.receive hscreen hdone fileForListen
  have hsettings := (hcont₁.trans hcont₂).settings
  refine ⟨r₃, s', a', (hcont₁.trans hcont₂).trans hcont₃, h₃, hstate₃.trans hstate₂, hidle', huis,
    hsettings ▸ hwindows, hnetwork, ?_⟩
  intro j hj st hopen
  exact hbeside₃ j hj st (hbeside₂ j hj st (hbeside₁ j hj st hopen))

/-! Before the server handles a request it may drop the client, and it may handle the request
and fail to send the answer. Then the `recv` of the client returns nothing. -/

theorem Stands.close (h : r.Stands s a) (i : ι) (fileForListen : Bool) :
    ∃ r' chat, r.Continues r' [(i, .transfer .close fileForListen)] ∧
      r'.Stands { s with chat := chat } a ∧ chat.server = s.chat.server ∧
      chat.history = s.chat.history ∧ chat.links i = { s.chat.links i with closed := true } ∧
      Beside i s a { s with chat := chat } a := by
  have hp : s.Permitted (i, .transfer .close fileForListen) := ⟨trivial, trivial⟩
  obtain ⟨r', hcont, hstands⟩ := h.snoc hp trivial rfl h.sound.close
  refine ⟨r', _, hcont, hstands, rfl, rfl, update_self .., ?_⟩
  intro j hj st hopen
  refine ⟨Eq.trans ?_ hopen.1, hopen.2⟩
  exact congrArg ClientLink.closed (update_of_ne hj _ _)

theorem Stands.sendFails (h : r.Stands s a) {i : ι} {c : ClientCall}
    (hcalled : OpenAt s a i (.called c)) (fileForListen : Bool) :
    ∃ r' chat a', r.Continues r' [(i, .transfer (.sendFails c.message.length) fileForListen)] ∧
      r'.Stands { s with chat := chat } a' ∧ a'.state = tablesObject.next a.state c ∧
      chat.history = s.chat.history ∧ chat.server = (s.chat.server.exchange c.message).2 ∧
      (chat.links i).closed = true ∧ (chat.links i).requests = (s.chat.links i).requests ∧
      (chat.links i).decoded = (s.chat.links i).decoded := by
  obtain ⟨⟨hopen, hpos, hle, hbuff⟩, hwhole⟩ :=
    h.sound.refines.canServe hcalled.1 hcalled.2 blankBuffer
  have hp : s.Permitted (i, .transfer (.sendFails c.message.length) fileForListen) :=
    ⟨⟨hopen, hpos, hle, hbuff⟩, trivial⟩
  obtain ⟨op, user, group, chat, hst, -, hstep, hsound, hhist⟩ := h.sound.sendFails hp hwhole
  obtain rfl : c = op.call user group := Status.called.inj (hcalled.2.symm.trans hst)
  obtain ⟨r', hcont, hstands⟩ := h.snoc hp hwhole hstep hsound
  obtain ⟨hserver, hlink⟩ := Sessions.sendFails_link hstep
  refine ⟨r', chat, _, hcont, hstands, rfl, hhist, ?_, hlink⟩
  have hat := h.sound.refines.open_at hopen
  rw [hcalled.2] at hat
  rw [hserver, hat.1, List.take_length]

theorem Stands.receiveNothing (h : r.Stands s a) {i : ι} {op : Operation}
    (hscreen : (s.uis i).screen = .waiting op) (hclosed : (s.chat.links i).closed = true)
    (hbusy : ¬ (s.chat.connection i).Idle) (fileForListen : Bool) :
    ∃ r' s', r.Continues r' [(i, .transfer .reciveNothing fileForListen)] ∧ r'.Stands s' a ∧
      s'.windows = s.windows ∧ s'.chat.server = s.chat.server ∧
      s'.chat.history = s.chat.history ∧ s'.network = s.network ∧
      s'.uis = update s.uis i ((s.uis i).resume op.unanswered) := by
  have hp : s.Permitted (i, .transfer .reciveNothing fileForListen) := ⟨⟨hclosed, hbusy⟩, trivial⟩
  obtain ⟨s', hstep, hsound, hwindows, hserver, hhist, hui⟩ := h.sound.receiveNothing hp
  obtain ⟨r', hcont, hstands⟩ := h.snoc hp trivial hstep hsound
  refine ⟨r', s', hcont, hstands, hwindows, hserver, hhist, Sessions.transfer_network hstep, ?_⟩
  rw [hui op hscreen, Operation.result_zero]

theorem Stands.of_after (hwhole : r.AllWhole) (hs : r.after r.acts = some s) :
    ∃ a, r.Stands s a := by
  obtain ⟨a, hsound⟩ := sound_at hwhole List.prefix_rfl hs
  exact ⟨a, hwhole, hs, hsound⟩

def Quiet (acts : List (ι × Act)) : Prop := ∀ e ∈ acts, ∀ k read, e.2 ≠ .say k read

omit [DecidableEq ι] in
theorem Quiet.append {acts acts' : List (ι × Act)} (h : Quiet acts) (h' : Quiet acts') :
    Quiet (acts ++ acts') := by
  intro e he
  rcases List.mem_append.mp he with he | he
  · exact h e he
  · exact h' e he

omit [DecidableEq ι] in
theorem quiet_callActs (i : ι) (c : ClientCall) (beyond : Block Server.buffSize)
    (fileForListen : Bool) : Quiet (callActs i c beyond fileForListen) := by
  simp [Quiet, callActs]

/-- A run goes on with what one client does, and nothing is said. -/
structure Goes (i : ι) (r : SystemRun ι) (s : Sessions ι)
    (a : Atomic ι Tables ClientCall Decoded) (r' : SystemRun ι) (s' : Sessions ι)
    (a' : Atomic ι Tables ClientCall Decoded) : Prop where
  continues : ∃ acts, r.Continues r' acts ∧ Quiet acts
  stands : r'.Stands s' a'
  network : s'.network = s.network
  uis : ∀ j, j ≠ i → s'.uis j = s.uis j
  windows : ∀ j, j ≠ i → s'.windows j = s.windows j
  beside : Beside i s a s' a'

theorem Goes.settings {i : ι} {r' : SystemRun ι} {s' : Sessions ι}
    {a' : Atomic ι Tables ClientCall Decoded} (h : Goes i r s a r' s' a') :
    r'.settings = r.settings := by
  obtain ⟨acts, hcont, -⟩ := h.continues
  exact hcont.settings

theorem Goes.trans {i : ι} {r' r'' : SystemRun ι} {s' s'' : Sessions ι}
    {a' a'' : Atomic ι Tables ClientCall Decoded} (h : Goes i r s a r' s' a')
    (h' : Goes i r' s' a' r'' s'' a'') : Goes i r s a r'' s'' a'' where
  continues := by
    obtain ⟨acts, hcont, hquiet⟩ := h.continues
    obtain ⟨acts', hcont', hquiet'⟩ := h'.continues
    exact ⟨acts ++ acts', hcont.trans hcont', hquiet.append hquiet'⟩
  stands := h'.stands
  network := h'.network.trans h.network
  uis := fun j hj => (h'.uis j hj).trans (h.uis j hj)
  windows := fun j hj => (h'.windows j hj).trans (h.windows j hj)
  beside := fun j hj st hopen => h'.beside j hj st (h.beside j hj st hopen)

/-- The interface after these words are typed and read. -/
def entered (r : SystemRun ι) (u : UI) (ws : List Word) : UI :=
  ws.foldl (fun u w => (u.typeWord w).scan r.settings.room) u

theorem Stands.enter (h : r.Stands s a) (i : ι) (ws : List Word) :
    ∃ r', Goes i r s a r' (s.setUI i (r.entered (s.uis i) ws)) a := by
  have hothers : ∀ u : UI, ∀ j, j ≠ i → (s.setUI i u).uis j = s.uis j :=
    fun u j hj => update_of_ne hj _ _
  suffices ∃ r' acts, r.Continues r' acts ∧ Quiet acts ∧
      r'.Stands (s.setUI i (r.entered (s.uis i) ws)) a by
    obtain ⟨r', acts, hcont, hquiet, hstands⟩ := this
    exact ⟨r', ⟨acts, hcont, hquiet⟩, hstands, rfl, hothers _, fun _ _ => rfl,
      fun _ _ _ hopen => hopen⟩
  induction ws generalizing r s with
  | nil =>
    refine ⟨r, [], .refl r, by simp [Quiet], ?_⟩
    simpa [Sessions.setUI, entered] using h
  | cons w ws ih =>
    obtain ⟨r₁, hcont₁, h₁⟩ := h.type i w
    obtain ⟨r₂, hcont₂, h₂⟩ := h₁.scan i
    obtain ⟨r₃, acts, hcont₃, hquiet, h₃⟩ := ih h₂ fun u j hj => update_of_ne hj _ _
    refine ⟨r₃, _, (hcont₁.trans hcont₂).trans hcont₃, Quiet.append ?_ hquiet, ?_⟩
    · simp [Quiet]
    simpa [Sessions.setUI, entered, hcont₁.settings, hcont₂.settings] using h₃

/-- Words are typed until the interface makes a call, and the call is answered. -/
theorem Stands.turn (h : r.Stands s a) {i : ι} (op : Operation) (hidle : OpenAt s a i .idle)
    (ws : List Word) (hscreen : (r.entered (s.uis i) ws).screen = .waiting op)
    (user : Block sizeofUserDetails) (group : Block sizeofGroupDetails) (fileForListen : Bool) :
    ∃ r' s' a', Goes i r s a r' s' a' ∧
      a'.state = tablesObject.next a.state (op.call user group) ∧ OpenAt s' a' i .idle ∧
      s'.uis i = (r.entered (s.uis i) ws).resume
        (op.result (tablesObject.reply a.state (op.call user group)).answer) ∧
      s'.windows i = s.windows i ++ op.window r.settings fileForListen
        (tablesObject.reply a.state (op.call user group)) := by
  obtain ⟨r₁, hgoes₁⟩ := h.enter i ws
  have hui : (s.setUI i (r.entered (s.uis i) ws)).uis i = r.entered (s.uis i) ws :=
    update_self ..
  rw [← hui] at hscreen
  obtain ⟨r₂, s', a', hcont, h₂, hstate, hidle', huis, hwindows, hnetwork, hbeside⟩ :=
    hgoes₁.stands.call hscreen hidle user group blankBuffer fileForListen
  have hgoes₂ : Goes i r₁ (s.setUI i (r.entered (s.uis i) ws)) a r₂ s' a' := by
    refine ⟨⟨_, hcont, quiet_callActs _ _ _ _⟩, h₂, hnetwork, ?_, ?_, hbeside⟩
    · intro j hj
      rw [huis, update_of_ne hj]
    · intro j hj
      rw [hwindows, update_of_ne hj]
  refine ⟨r₂, s', a', hgoes₁.trans hgoes₂, hstate, hidle', ?_, ?_⟩
  · rw [huis, update_self, hui]
  · rw [hwindows, update_self, hgoes₁.settings]
    rfl

end Calls

/-! ## Users

What a user at the menu can do next. -/

/-- The user has these windows, and no request is under way. -/
structure AtMenu (s : Sessions ι) (a : Atomic ι Tables ClientCall Decoded) (i : ι)
    (userName : TypedName 17) (windows : List Window) : Prop where
  screen : (s.uis i).screen = .menu userName
  typed : (s.uis i).typed = []
  windows : s.windows i = windows
  idle : OpenAt s a i .idle

section Users
variable {s s' : Sessions ι} {a a' : Atomic ι Tables ClientCall Decoded} {i j : ι}
    {userName psw : TypedName 17} {groupName : TypedName 18} {windows : List Window}

theorem AtMenu.beside {r' : SystemRun ι} (h : AtMenu s a j userName windows)
    (hgoes : Goes i r s a r' s' a') (hj : j ≠ i) : AtMenu s' a' j userName windows where
  screen := (congrArg UI.screen (hgoes.uis j hj)).trans h.screen
  typed := (congrArg UI.typed (hgoes.uis j hj)).trans h.typed
  windows := (hgoes.windows j hj).trans h.windows
  idle := hgoes.beside j hj _ h.idle

def typed (c : UInt8) (h : c ≠ 0 ∧ isSpace c = false) : Word where
  val := [c]
  zero := by simpa using h.1.symm
  nonempty := by simp
  unbroken := by simpa using h.2

def word {n : ℕ} (name : TypedName n) : Word :=
  ⟨name.val, name.zero, name.nonempty, name.unbroken⟩

def zero : Word := typed 48 (by decide)

def one : Word := typed 49 (by decide)

def two : Word := typed 50 (by decide)

def three : Word := typed 51 (by decide)

theorem scanWord_word (room : ℕ) {n : ℕ} (name : TypedName n) (hroom : name.val.length < room)
    (again : Screen) (next : TypedName n → Screen) :
    UI.scanWord room (word name) (UI.readName n (word name) again next) = next name := by
  have hfits : ¬ room < (word name).val.length + 1 := Nat.not_lt.mpr hroom
  rw [UI.scanWord, if_neg hfits, UI.readName]
  exact dif_pos name.short

theorem entered_register {u : UI} (hscreen : u.screen = .entry) (htyped : u.typed = [])
    (hroom : 17 ≤ r.settings.room) (userName psw : TypedName 17) :
    r.entered u [zero, word userName, word psw] =
      { u with answer := 0, screen := .waiting (.register userName psw) } := by
  obtain ⟨answer, choice, screen, words, shown⟩ := u
  obtain rfl : screen = .entry := hscreen
  obtain rfl : words = [] := htyped
  have hentry : UI.scan r.settings.room ⟨answer, choice, .entry, [zero], shown⟩ =
      ⟨0, choice, .userName, [], shown⟩ := rfl
  have huser := scanWord_word r.settings.room userName (userName.short.trans_le hroom)
  have hpsw := scanWord_word r.settings.room psw (psw.short.trans_le hroom)
  simp only [entered, List.foldl_cons, List.foldl_nil, UI.typeWord, List.nil_append, hentry]
  simp only [UI.scan, huser, List.nil_append, hpsw]
  rfl

theorem entered_menu {u : UI} (hscreen : u.screen = .loginOffer userName psw)
    (htyped : u.typed = []) :
    r.entered u [two] = { u with answer := 2, screen := .menu userName } := by
  obtain ⟨answer, choice, screen, words, shown⟩ := u
  obtain rfl : screen = .loginOffer userName psw := hscreen
  obtain rfl : words = [] := htyped
  rfl

theorem entered_create {u : UI} (hscreen : u.screen = .menu userName) (htyped : u.typed = [])
    (hroom : 18 ≤ r.settings.room) (groupName : TypedName 18) :
    r.entered u [one, word groupName] =
      { u with choice := 1, screen := .waiting (.create userName groupName) } := by
  obtain ⟨answer, choice, screen, words, shown⟩ := u
  obtain rfl : screen = .menu userName := hscreen
  obtain rfl : words = [] := htyped
  have hmenu : UI.scan r.settings.room ⟨answer, choice, .menu userName, [one], shown⟩ =
      ⟨answer, 1, .groupToCreate userName, [], shown⟩ := rfl
  have hgroup := scanWord_word r.settings.room groupName (groupName.short.trans_le hroom)
  simp only [entered, List.foldl_cons, List.foldl_nil, UI.typeWord, List.nil_append, hmenu]
  simp only [UI.scan, hgroup]

theorem entered_join {u : UI} (hscreen : u.screen = .menu userName) (htyped : u.typed = [])
    (hshort : groupName.val.length < 17) : r.entered u [two, word groupName] =
      { u with choice := 2, screen := .waiting (.join userName groupName) } := by
  obtain ⟨answer, choice, screen, words, shown⟩ := u
  obtain rfl : screen = .menu userName := hscreen
  obtain rfl : words = [] := htyped
  have hmenu : UI.scan r.settings.room ⟨answer, choice, .menu userName, [two], shown⟩ =
      ⟨answer, 2, .groupToJoin userName, [], shown⟩ := rfl
  have hgroup := scanWord_word (UI.maxSize + 1) groupName hshort
  simp only [entered, List.foldl_cons, List.foldl_nil, UI.typeWord, List.nil_append, hmenu]
  simp only [UI.scan, hgroup]

theorem entered_leave {u : UI} (hscreen : u.screen = .menu userName) (htyped : u.typed = [])
    (hshort : groupName.val.length < 17) : r.entered u [three, word groupName] =
      { u with choice := 3, screen := .waiting (.leave userName groupName) } := by
  obtain ⟨answer, choice, screen, words, shown⟩ := u
  obtain rfl : screen = .menu userName := hscreen
  obtain rfl : words = [] := htyped
  have hmenu : UI.scan r.settings.room ⟨answer, choice, .menu userName, [three], shown⟩ =
      ⟨answer, 3, .groupToExitFrom userName, [], shown⟩ := rfl
  have hgroup := scanWord_word (UI.maxSize + 1) groupName hshort
  simp only [entered, List.foldl_cons, List.foldl_nil, UI.typeWord, List.nil_append, hmenu]
  simp only [UI.scan, hgroup]

theorem Stands.registers (h : r.Stands s a) (hscreen : (s.uis i).screen = .entry)
    (htyped : (s.uis i).typed = []) (hidle : OpenAt s a i .idle) (hroom : 17 ≤ r.settings.room)
    {userName : TypedName 17} (hfree : a.state.accounts (bucketOf userName.val) = none)
    (psw : TypedName 17) (user : Block sizeofUserDetails) (group : Block sizeofGroupDetails) :
    ∃ r' s' a', Goes i r s a r' s' a' ∧
      a'.state = (a.state.register userName.val psw.val).2 ∧
      AtMenu s' a' i userName (s.windows i) := by
  have hentered := entered_register (r := r) hscreen htyped hroom userName psw
  obtain ⟨r₁, s₁, a₁, hgoes₁, hstate, hidle₁, hui, hwindows⟩ :=
    h.turn (.register userName psw) hidle [zero, word userName, word psw]
      (congrArg UI.screen hentered) user group false
  rw [hentered, reply_register user group hfree] at hui
  obtain ⟨r₂, hgoes₂⟩ := hgoes₁.stands.enter i [two]
  have hmenu : r₁.entered (s₁.uis i) [two] =
      { s₁.uis i with answer := 2, screen := .menu userName } :=
    entered_menu (show (s₁.uis i).screen = .loginOffer userName psw by rw [hui]; rfl)
      (by rw [hui]; exact htyped)
  rw [hmenu] at hgoes₂
  refine ⟨r₂, _, a₁, hgoes₁.trans hgoes₂, ?_, ?_, ?_, ?_, hidle₁⟩
  · rw [hstate]
    exact congrArg a.state.next (call_register user group userName psw)
  · simp [Sessions.setUI]
  · simp only [Sessions.setUI, update_self, hui]
    exact htyped
  · rw [Sessions.setUI, hwindows, Operation.window, List.append_nil]

theorem AtMenu.creates (hmenu : AtMenu s a i userName windows) (h : r.Stands s a)
    (hroom : 18 ≤ r.settings.room) (hfree : a.state.groups (bucketOf groupName.val) = none)
    (user : Block sizeofUserDetails) (group : Block sizeofGroupDetails) (fileForListen : Bool) :
    ∃ r' s' a' ip, Goes i r s a r' s' a' ∧ a'.state.Granted ip groupName.val ∧
      AtMenu s' a' i userName
        (windows ++ [.opened r.settings fileForListen ip userName groupName]) := by
  have hentered := entered_create (r := r) hmenu.screen hmenu.typed hroom groupName
  obtain ⟨r', s', a', hgoes, hstate, hidle, hui, hwindows⟩ :=
    h.turn (.create userName groupName) hmenu.idle [one, word groupName]
      (congrArg UI.screen hentered) user group fileForListen
  obtain ⟨ip, hanswer, hip, hgranted⟩ := reply_create user group userName hfree
  rw [← hstate] at hgranted
  rw [Operation.window, if_pos hanswer, hip, hmenu.windows] at hwindows
  refine ⟨r', s', a', ip, hgoes, hgranted, ?_, ?_, hwindows, hidle⟩
  · rw [hui, hentered]
    rfl
  · rw [hui, hentered]
    exact hmenu.typed

theorem AtMenu.joins (hmenu : AtMenu s a i userName windows) (h : r.Stands s a)
    (hshort : groupName.val.length < 17) {ip : CStr}
    (hgranted : a.state.Granted ip groupName.val) (user : Block sizeofUserDetails)
    (group : Block sizeofGroupDetails) (fileForListen : Bool) :
    ∃ r' s' a', Goes i r s a r' s' a' ∧ a'.state.Granted ip groupName.val ∧
      AtMenu s' a' i userName
        (windows ++ [.opened r.settings fileForListen ip userName groupName]) := by
  have hentered := entered_join (r := r) hmenu.screen hmenu.typed hshort
  obtain ⟨r', s', a', hgoes, hstate, hidle, hui, hwindows⟩ :=
    h.turn (.join userName groupName) hmenu.idle [two, word groupName]
      (congrArg UI.screen hentered) user group fileForListen
  obtain ⟨hanswer, hip⟩ := reply_join user group userName hshort hgranted
  rw [Operation.window, if_pos hanswer, hip, hmenu.windows] at hwindows
  refine ⟨r', s', a', hgoes, ?_, ?_, ?_, hwindows, hidle⟩
  · rw [hstate]
    exact hgranted.grow (next_grows user group a.state _)
  · rw [hui, hentered]
    rfl
  · rw [hui, hentered]
    exact hmenu.typed

theorem AtMenu.leaves (hmenu : AtMenu s a i userName windows) (h : r.Stands s a)
    (groupName : TypedName 18) (hshort : groupName.val.length < 17) :
    ∃ r' s', Goes i r s a r' s' a ∧ (s'.uis i).screen = .waiting (.leave userName groupName) ∧
      s'.windows = s.windows ∧ OpenAt s' a i .idle := by
  obtain ⟨r', hgoes⟩ := h.enter i [three, word groupName]
  rw [entered_leave hmenu.screen hmenu.typed hshort] at hgoes
  refine ⟨r', _, hgoes, ?_, rfl, hmenu.idle⟩
  simp [Sessions.setUI]

theorem opened_programs {set : Sessions.Settings} {t : Tables} {ip : CStr}
    (hgranted : t.Granted ip groupName.val) (huser : PlainWord userName.val)
    (hgroup : PlainWord groupName.val) :
    (Window.opened set true ip userName groupName).listener =
        some ⟨groupAddress ip set.port, List.replicate msgBuffSize 0, []⟩ ∧
      (Window.opened set true ip userName groupName).sender =
        some ⟨groupAddress ip set.port, userName.val, [],
          ⟨List.replicate msgBuffSize 0, List.length_replicate⟩⟩ := by
  obtain ⟨k, hk, hip⟩ := hgranted.pool
  have hword : PlainWord ip := hip ▸ plainWord_addressAt hk
  rw [Window.opened, openChatWindow_eq set.shell set.terminal hword set.port huser hgroup true]
  exact ⟨rfl, rfl⟩

end Users

/-! ## Two users

The user `a` at the client `true` creates the group `g`, and the user `c` at the client `false`
joins it. -/

section Together

def letter {n : ℕ} (c : UInt8) (h : c ≠ 0 ∧ isSpace c = false ∧ 1 < n) : TypedName n where
  val := [c]
  short := h.2.2
  zero := by simpa using h.1.symm
  nonempty := by simp
  unbroken := by simpa using h.2.1

def nameA : TypedName 17 := letter 97 (by decide)

def pswB : TypedName 17 := letter 98 (by decide)

def nameC : TypedName 17 := letter 99 (by decide)

def pswD : TypedName 17 := letter 100 (by decide)

def nameG : TypedName 18 := letter 103 (by decide)

def line : Bytes := [104, 105, 10]

def userBlock : Block sizeofUserDetails :=
  ⟨List.replicate sizeofUserDetails 0, List.length_replicate⟩

def groupBlock : Block sizeofGroupDetails :=
  ⟨List.replicate sizeofGroupDetails 0, List.length_replicate⟩

def plainSettings : Sessions.Settings := ⟨24, 5555, by decide, plainShell, plainTerminal⟩

def together : SystemRun Bool where
  settings := plainSettings
  allocator := id
  choice := fun _ => 0
  acts := []
  permitted := forall_occurs_nil _

theorem together_stands :
    together.Stands (.start (Server.running id) fun _ => 0) (Atomic.start Tables.empty) where
  whole := forall_occurs_nil _
  after := rfl
  sound := Sessions.sound_start _ _ _

theorem together_registers : ∃ (r : SystemRun Bool) (s : Sessions Bool)
    (a : Atomic Bool Tables ClientCall Decoded), r.Stands s a ∧ r.settings = plainSettings ∧
      Quiet r.acts ∧ s.network = [] ∧ a.state.groups (bucketOf nameG.val) = none ∧
      AtMenu s a true nameA [] ∧ AtMenu s a false nameC [] := by
  obtain ⟨r₁, s₁, a₁, hgoes₁, hstate₁, hmenu₁⟩ :=
    together_stands.registers (i := true) rfl rfl ⟨rfl, rfl⟩ (by decide)
      (show Tables.empty.accounts (bucketOf nameA.val) = none from rfl) pswB userBlock groupBlock
  have hentry : s₁.uis false = UI.start 0 := hgoes₁.uis false (by decide)
  have hfree : a₁.state.accounts (bucketOf nameC.val) = none := by
    rw [hstate₁]
    rfl
  have hsettings : r₁.settings = plainSettings := hgoes₁.settings
  obtain ⟨r₂, s₂, a₂, hgoes₂, hstate₂, hmenu₂⟩ :=
    hgoes₁.stands.registers (by rw [hentry]; rfl) (by rw [hentry]; rfl)
      (hgoes₁.beside false (by decide) _ ⟨rfl, rfl⟩) (by rw [hsettings]; decide) hfree pswD
      userBlock groupBlock
  obtain ⟨acts₁, hcont₁, hquiet₁⟩ := hgoes₁.continues
  obtain ⟨acts₂, hcont₂, hquiet₂⟩ := hgoes₂.continues
  refine ⟨r₂, s₂, a₂, hgoes₂.stands, hgoes₂.settings.trans hsettings, ?_,
    hgoes₂.network.trans hgoes₁.network, ?_, hmenu₁.beside hgoes₂ (by decide), ?_⟩
  · rw [hcont₂.acts, hcont₁.acts]
    exact hquiet₁.append hquiet₂
  · rw [hstate₂, hstate₁]
    rfl
  · rwa [hgoes₁.windows false (by decide)] at hmenu₂

def windowOf (ip : CStr) (userName : TypedName 17) : Window :=
  .opened plainSettings true ip userName nameG

theorem windowOf_plain (ip : CStr) {c : UInt8} (h : c ≠ 0 ∧ isSpace c = false ∧ 1 < 17)
    (hc : isPlain c = true) : (windowOf ip (letter c h)).Plain := by
  have hletter : ∀ c, isPlain c = true → PlainWord [c] :=
    fun c hc => ⟨List.cons_ne_nil _ _, by simpa using hc⟩
  exact ⟨hletter c hc, hletter 103 rfl⟩

theorem together_creates : ∃ (r : SystemRun Bool) (s : Sessions Bool)
    (a : Atomic Bool Tables ClientCall Decoded) (ip : CStr), r.Stands s a ∧
      r.settings = plainSettings ∧ Quiet r.acts ∧ s.network = [] ∧
      a.state.Granted ip nameG.val ∧ AtMenu s a true nameA [windowOf ip nameA] ∧
      AtMenu s a false nameC [] := by
  obtain ⟨r₀, s₀, a₀, h₀, hset₀, hquiet₀, hnetwork₀, hfree, hmenuA, hmenuC⟩ := together_registers
  obtain ⟨r, s, a, ip, hgoes, hgranted, hmenuA'⟩ :=
    hmenuA.creates h₀ (by rw [hset₀]; decide) hfree userBlock groupBlock true
  obtain ⟨acts, hcont, hquiet⟩ := hgoes.continues
  refine ⟨r, s, a, ip, hgoes.stands, hgoes.settings.trans hset₀, ?_,
    hgoes.network.trans hnetwork₀, hgranted, ?_, hmenuC.beside hgoes (by decide)⟩
  · rw [hcont.acts]
    exact hquiet₀.append hquiet
  · rwa [hset₀] at hmenuA'

theorem together_joins : ∃ (r : SystemRun Bool) (s : Sessions Bool)
    (a : Atomic Bool Tables ClientCall Decoded) (ip : CStr), r.Stands s a ∧ Quiet r.acts ∧
      s.network = [] ∧ a.state.Granted ip nameG.val ∧ AtMenu s a true nameA [windowOf ip nameA] ∧
      AtMenu s a false nameC [windowOf ip nameC] := by
  obtain ⟨r₀, s₀, a₀, ip, h₀, hset₀, hquiet₀, hnetwork₀, hgranted, hmenuA, hmenuC⟩ :=
    together_creates
  obtain ⟨r, s, a, hgoes, hgranted', hmenuC'⟩ :=
    hmenuC.joins h₀ (by decide) hgranted userBlock groupBlock true
  obtain ⟨acts, hcont, hquiet⟩ := hgoes.continues
  refine ⟨r, s, a, ip, hgoes.stands, ?_, hgoes.network.trans hnetwork₀, hgranted',
    hmenuA.beside hgoes (by decide), ?_⟩
  · rw [hcont.acts]
    exact hquiet₀.append hquiet
  · rwa [hset₀] at hmenuC'

theorem plain_of_windows {s : Sessions Bool} {v w : Window} (hv : s.windows true = [v])
    (hw : s.windows false = [w]) (hplainV : v.Plain) (hplainW : w.Plain) : s.Plain := by
  intro i u hu
  cases i with
  | true =>
    rw [hv, List.mem_singleton] at hu
    exact hu ▸ hplainV
  | false =>
    rw [hw, List.mem_singleton] at hu
    exact hu ▸ hplainW

theorem windowOf_programs {t : Tables} {ip : CStr} (hgranted : t.Granted ip nameG.val) {c : UInt8}
    (h : c ≠ 0 ∧ isSpace c = false ∧ 1 < 17) (hc : isPlain c = true) :
    (windowOf ip (letter c h)).listener =
        some ⟨groupAddress ip 5555, List.replicate msgBuffSize 0, []⟩ ∧
      (windowOf ip (letter c h)).sender = some ⟨groupAddress ip 5555, [c], [],
        ⟨List.replicate msgBuffSize 0, List.length_replicate⟩⟩ :=
  opened_programs hgranted (windowOf_plain ip h hc).userName (windowOf_plain ip h hc).groupName

theorem together_says : ∃ (r : SystemRun Bool) (s : Sessions Bool)
    (a : Atomic Bool Tables ClientCall Decoded) (acts : List (Bool × Act)) (ip : CStr) (w : Window)
    (d : Datagram Bool), r.Stands s a ∧ r.acts = acts ++ [(true, .say 0 (some line))] ∧
      Quiet acts ∧ a.state.Granted ip nameG.val ∧ s.Plain ∧ s.windows true = [w] ∧
      s.windows false = [windowOf ip nameC] ∧ s.network = [d] ∧ d.client = true ∧
      d.groupName = nameG ∧ d.address = groupAddress ip 5555 := by
  obtain ⟨r₀, s₀, a, ip, h₀, hquiet, hnetwork, hgranted, hmenuA, hmenuC⟩ := together_joins
  let sender : Sender := ⟨groupAddress ip 5555, [97], [],
    ⟨List.replicate msgBuffSize 0, List.length_replicate⟩⟩
  have hsender : (windowOf ip nameA).sender = some sender :=
    (windowOf_programs hgranted (by decide) rfl).2
  have hfits : sender.say (some line) ≠ none := by
    rw [Ne, Sender.say_eq_none_iff]
    change ¬ msgBuffSize < 1 + (text line).length + 12
    decide
  obtain ⟨⟨sender', datagram⟩, hsay⟩ := Option.ne_none_iff_exists'.mp hfits
  let d : Datagram Bool := ⟨sender.address, datagram, true, nameA, nameG, sender'.message⟩
  have hstep : s₀.say true 0 (some line) =
      { s₀.setWindow true 0 { windowOf ip nameA with sender := some sender' } with
        network := s₀.network ++ [d] } := by
    have hk : (s₀.windows true)[0]? = some (windowOf ip nameA) := by rw [hmenuA.windows]; rfl
    simp only [Sessions.say, hk, hsender, hsay]
    rfl
  obtain ⟨r, hcont, h⟩ :=
    h₀.snoc (e := (true, .say 0 (some line))) trivial trivial rfl (h₀.sound.say _ _)
  have hplain : (windowOf ip nameA).Plain := windowOf_plain ip (by decide) rfl
  have hwindowsA : (s₀.say true 0 (some line)).windows true =
      [{ windowOf ip nameA with sender := some sender' }] := by
    rw [hstep]
    simp [Sessions.setWindow, hmenuA.windows]
  have hwindowsC : (s₀.say true 0 (some line)).windows false = [windowOf ip nameC] := by
    rw [hstep]
    simp [Sessions.setWindow, hmenuC.windows]
  refine ⟨r, _, a, r₀.acts, ip, _, d, h, hcont.acts, hquiet, hgranted, ?_, hwindowsA, hwindowsC,
    ?_, rfl, rfl, rfl⟩
  · exact plain_of_windows hwindowsA hwindowsC ⟨hplain.userName, hplain.groupName⟩
      (windowOf_plain ip (by decide) rfl)
  · rw [hstep]
    exact congrArg (· ++ [d]) hnetwork

theorem together_hears : ∃ (r : SystemRun Bool) (s : Sessions Bool)
    (a : Atomic Bool Tables ClientCall Decoded) (v w : Window) (l : Listener) (d : Datagram Bool),
      r.Stands s a ∧ s.Plain ∧ s.windows true = [v] ∧ s.windows false = [w] ∧
      w.listener = some l ∧ d.client = true ∧ l.printed = d.text := by
  obtain ⟨r₀, s₀, a, -, ip, v, d, h₀, -, -, hgranted, hplain, hwindowsA, hwindowsC, hnetwork,
    hclient, -, haddress⟩ := together_says
  let w := windowOf ip nameC
  let l : Listener := ⟨groupAddress ip 5555, List.replicate msgBuffSize 0, []⟩
  have hl : w.listener = some l := (windowOf_programs hgranted (by decide) rfl).1
  obtain ⟨r, hcont, h⟩ :=
    h₀.snoc (e := (false, .hear 0 0)) trivial trivial rfl (h₀.sound.hear _ _)
  have hstep : s₀.hear false 0 0 =
      s₀.setWindow false 0 { w with listener := some (l.receive d.bytes) } := by
    have hk : (s₀.windows false)[0]? = some w := by rw [hwindowsC]; rfl
    have hm : s₀.network[0]? = some d := by rw [hnetwork]; rfl
    simp only [Sessions.hear, hk, hm, hl]
    exact if_pos haddress
  have hd := h₀.sound.network hplain d (by simp [hnetwork])
  obtain ⟨beyond, hbytes⟩ := hd.bytes
  have hprinted : (l.receive d.bytes).printed = l.printed ++ d.text :=
    Listener.receive_printed hd.zero hd.length hbytes
  have hv : (s₀.hear false 0 0).windows true = [v] := by
    rw [hstep]
    simp [Sessions.setWindow, hwindowsA]
  have hw : (s₀.hear false 0 0).windows false =
      [{ w with listener := some (l.receive d.bytes) }] := by
    rw [hstep]
    simp [Sessions.setWindow, hwindowsC]
  have hplainC : w.Plain := windowOf_plain ip (by decide) rfl
  have hplainA : v.Plain := hplain true v (by simp [hwindowsA])
  exact ⟨r, _, a, v, _, _, d, h,
    plain_of_windows hv hw hplainA ⟨hplainC.userName, hplainC.groupName⟩, hv, hw, rfl, hclient,
    hprinted⟩

theorem together_leaves : ∃ (r : SystemRun Bool) (s : Sessions Bool)
    (a : Atomic Bool Tables ClientCall Decoded), r.Stands s a ∧
      (s.uis true).screen = .waiting (.leave nameA nameG) ∧
      (s.uis false).screen = .waiting (.leave nameC nameG) ∧ s.windows true ≠ [] ∧
      s.windows false ≠ [] ∧ OpenAt s a true .idle ∧ OpenAt s a false .idle := by
  obtain ⟨r₀, s₀, a₀, ip, h₀, -, -, -, hmenuA, hmenuC⟩ := together_joins
  obtain ⟨r₁, s₁, hgoes₁, hscreenA, hwindows₁, hidleA⟩ :=
    hmenuA.leaves h₀ nameG (by decide)
  obtain ⟨r₂, s₂, hgoes₂, hscreenC, hwindows₂, hidleC⟩ :=
    (hmenuC.beside hgoes₁ (by decide)).leaves hgoes₁.stands nameG (by decide)
  refine ⟨r₂, s₂, a₀, hgoes₂.stands, ?_, hscreenC, ?_, ?_, ?_, hidleC⟩
  · rw [hgoes₂.uis true (by decide), hscreenA]
  · rw [hwindows₂, hwindows₁, hmenuA.windows]
    exact List.cons_ne_nil _ _
  · rw [hwindows₂, hwindows₁, hmenuC.windows]
    exact List.cons_ne_nil _ _
  · exact hgoes₂.beside true (by decide) _ hidleA

end Together
end SystemRun
end ChatProject
