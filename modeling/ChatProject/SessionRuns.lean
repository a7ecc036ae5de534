import ChatProject.Grants

/-!
# Runs of the whole system
-/

namespace ChatProject
open Memory Protocol Run Function Linearizability ChatWindow

/-! ## The windows -/

section Windows
variable {ι : Type}

namespace Datagram

def text (d : Datagram ι) : CStr := rendered d.userName.val d.line

/-- It was sent to the address of a group that has been granted, and carries its line. -/
structure Sound (port : ℤ) (t : Tables) (d : Datagram ι) : Prop where
  granted : ∃ ip, t.Granted ip d.groupName.val ∧ d.address = groupAddress ip port
  zero : 0 ∉ d.text
  length : d.bytes.length = msgBuffSize
  bytes : ∃ beyond, d.bytes = d.text ++ 0 :: beyond

theorem Sound.grow {port : ℤ} {t t' : Tables} {d : Datagram ι} (h : d.Sound port t)
    (hg : t.Grows t') : d.Sound port t' := by
  obtain ⟨ip, hip, haddress⟩ := h.granted
  exact ⟨⟨ip, hip.grow hg, haddress⟩, h.zero, h.length, h.bytes⟩

end Datagram

def Listener.Prints (l : Listener) (network : List (Datagram ι)) : Prop :=
  ∃ ds : List (Datagram ι), (∀ d ∈ ds, d ∈ network ∧ d.address = l.address) ∧
    l.printed = (ds.map Datagram.text).flatten

theorem Listener.Prints.mono {l : Listener} {network network' : List (Datagram ι)}
    (h : l.Prints network) (hsub : network ⊆ network') : l.Prints network' := by
  obtain ⟨ds, hds, hprinted⟩ := h
  exact ⟨ds, fun d hd => ⟨hsub (hds d hd).1, (hds d hd).2⟩, hprinted⟩

theorem Listener.Prints.receive {l : Listener} {network : List (Datagram ι)} (h : l.Prints network)
    {port : ℤ} {t : Tables} {d : Datagram ι} (hd : d.Sound port t) (hmem : d ∈ network)
    (haddress : d.address = l.address) : (l.receive d.bytes).Prints network := by
  obtain ⟨ds, hds, hprinted⟩ := h
  obtain ⟨beyond, hbytes⟩ := hd.bytes
  refine ⟨ds ++ [d], ?_, ?_⟩
  · intro e he
    rcases List.mem_append.mp he with he | he
    · exact hds e he
    · rw [List.mem_singleton.mp he]
      exact ⟨hmem, haddress⟩
  · rw [Listener.receive_printed hd.zero hd.length hbytes, hprinted]
    simp

namespace Window

/-- No name has a character that could mean something to the shell. -/
structure Plain (w : Window) : Prop where
  userName : PlainWord w.userName.val
  groupName : PlainWord w.groupName.val

/-- The programs have the address of the group, and the listener has printed what it can have
received. -/
structure Sound (port : ℤ) (network : List (Datagram ι)) (w : Window) : Prop where
  address : ∀ l, w.listener = some l → l.address = groupAddress w.groupIP port
  printed : ∀ l, w.listener = some l → l.Prints network
  destination : ∀ s, w.sender = some s → s.address = groupAddress w.groupIP port
  clean : ∀ s, w.sender = some s → s.Clean ∧ s.userName = w.userName.val

theorem Sound.mono {port : ℤ} {network network' : List (Datagram ι)} {w : Window}
    (h : w.Sound port network) (hsub : network ⊆ network') : w.Sound port network' where
  address := h.address
  printed := fun l hl => (h.printed l hl).mono hsub
  destination := h.destination
  clean := h.clean

end Window

theorem Window.sound_opened {set : Sessions.Settings} {t : Tables} {groupIP : CStr}
    {userName : TypedName 17} {groupName : TypedName 18} (h : t.Granted groupIP groupName.val)
    {fileForListen : Bool}
    (hplain : (Window.opened set fileForListen groupIP userName groupName).Plain)
    (network : List (Datagram ι)) :
    (Window.opened set fileForListen groupIP userName groupName).Sound set.port network := by
  obtain ⟨k, hk, hip⟩ := h.pool
  have hword : PlainWord groupIP := hip ▸ plainWord_addressAt hk
  have hw := openChatWindow_eq set.shell set.terminal hword set.port hplain.userName
    hplain.groupName fileForListen
  have hlistener : (Window.opened set fileForListen groupIP userName groupName).listener =
      some ⟨groupAddress groupIP set.port, List.replicate msgBuffSize 0, []⟩ :=
    congrArg Prod.fst hw
  have hsender : ∀ s, (Window.opened set fileForListen groupIP userName groupName).sender =
      some s → s = ⟨groupAddress groupIP set.port, userName.val, [],
        ⟨List.replicate msgBuffSize 0, List.length_replicate⟩⟩ := by
    intro s hs
    rw [show (Window.opened set fileForListen groupIP userName groupName).sender = _ from
      congrArg Prod.snd hw] at hs
    simp only [Option.ite_none_right_eq_some, Option.some.injEq] at hs
    exact hs.2.symm
  refine ⟨?_, ?_, ?_, ?_⟩
  · intro l hl
    rw [hlistener, Option.some.injEq] at hl
    rw [← hl]
    rfl
  · intro l hl
    rw [hlistener, Option.some.injEq] at hl
    rw [← hl]
    exact ⟨[], by simp, rfl⟩
  · intro s hs
    rw [hsender s hs]
    rfl
  · intro s hs
    rw [hsender s hs]
    exact ⟨⟨userName.zero, List.not_mem_nil⟩, rfl⟩

namespace Operation

theorem removesPID_confirmed {t : Tables} {d : Decoded} {op : Operation}
    (h : Confirms t d op) : op.removesPID d = [] := by
  cases op with
  | leave userName groupName =>
    refine if_neg ?_
    rw [show d.answer = _ from h]
    decide
  | _ => rfl

theorem window_granted {t : Tables} {d : Decoded} {op : Operation} (h : Confirms t d op)
    {set : Sessions.Settings} {fileForListen : Bool} {w : Window}
    (hw : w ∈ op.window set fileForListen d) :
    t.Granted w.groupIP w.groupName.val ∧
      (w.Plain → ∀ network : List (Datagram ι), w.Sound set.port network) := by
  cases op with
  | create userName groupName =>
    simp only [window] at hw
    split_ifs at hw with hd
    · rcases h with ⟨-, hgranted⟩ | hexists
      · rw [List.mem_singleton.mp hw]
        exact ⟨hgranted, fun hplain network => Window.sound_opened hgranted hplain network⟩
      · exact absurd (hd.symm.trans hexists) (by decide)
    · cases hw
  | join userName groupName =>
    simp only [window] at hw
    split_ifs at hw with hd
    · rcases h with ⟨-, hgranted⟩ | hnot | ⟨hhidden, -⟩
      · rw [List.mem_singleton.mp hw]
        exact ⟨hgranted, fun hplain network => Window.sound_opened hgranted hplain network⟩
      · exact absurd (hd.symm.trans hnot) (by decide)
      · exact absurd (hd.symm.trans hhidden) (by decide)
    · cases hw
  | _ => cases hw

theorem window_holder {d : Decoded} {op : Operation} {set : Sessions.Settings}
    {fileForListen : Bool} {w : Window} (hw : w ∈ op.window set fileForListen d) :
    (Screen.waiting op).holder = some w.userName := by
  cases op with
  | create userName groupName =>
    simp only [window] at hw
    split_ifs at hw
    · rw [List.mem_singleton.mp hw]
      rfl
    · cases hw
  | join userName groupName =>
    simp only [window] at hw
    split_ifs at hw
    · rw [List.mem_singleton.mp hw]
      rfl
    · cases hw
  | _ => cases hw

theorem nothing_decoded (op : Operation) (set : Sessions.Settings) (fileForListen : Bool)
    {d : Decoded} (hd : d.answer = 0) :
    op.window set fileForListen d = [] ∧ op.removesPID d = [] := by
  cases op with
  | create userName groupName => exact ⟨if_neg (hd ▸ by decide), rfl⟩
  | join userName groupName => exact ⟨if_neg (hd ▸ by decide), rfl⟩
  | leave userName groupName => exact ⟨rfl, if_neg (hd ▸ by decide)⟩
  | _ => exact ⟨rfl, rfl⟩

end Operation
end Windows

/-- What a call has done whose user is told that it worked. Who joins is told so as well where
the server does not find the group in its bucket. A group is never left. -/
def Achieved (t : Tables) (windows : List Window) : Operation → Prop
  | .register userName psw | .logIn userName psw => t.Password userName psw
  | .create userName groupName =>
    ∃ w ∈ windows, w.userName = userName ∧ w.groupName = groupName ∧
      t.Granted w.groupIP groupName.val
  | .join userName groupName =>
    (∃ w ∈ windows, w.userName = userName ∧ w.groupName = groupName ∧
      t.Granted w.groupIP groupName.val) ∨ t.Hidden groupName.val
  | .leave .. => False

theorem Confirms.achieved {t : Tables} {d : Decoded} {op : Operation} (h : Confirms t d op)
    (hres : op.result d.answer = .success)
    (hstays : ∀ userName groupName, op ≠ .leave userName groupName) (set : Sessions.Settings)
    (fileForListen : Bool) : Achieved t (op.window set fileForListen d) op := by
  cases op with
  | register userName psw =>
    refine h ?_
    by_contra hne
    simp [Operation.result, Client.registerResult, hne] at hres
  | logIn userName psw =>
    refine h ?_
    by_contra hne
    simp only [Operation.result, Client.logInResult, hne, if_false] at hres
    split_ifs at hres
  | create userName groupName =>
    rcases h with ⟨hd, hgranted⟩ | hexists
    · rw [Operation.window, if_pos hd]
      exact ⟨_, List.mem_singleton_self _, rfl, rfl, hgranted⟩
    · rw [Operation.result, hexists] at hres
      cases hres
  | join userName groupName =>
    rcases h with ⟨hd, hgranted⟩ | hnot | ⟨-, hhidden⟩
    · rw [Operation.window, if_pos hd]
      exact .inl ⟨_, List.mem_singleton_self _, rfl, rfl, hgranted⟩
    · rw [Operation.result, hnot] at hres
      cases hres
    · exact .inr hhidden
  | leave userName groupName => exact absurd rfl (hstays userName groupName)

theorem Achieved.mono {t : Tables} {windows windows' : List Window} {op : Operation}
    (h : Achieved t windows op) (hsub : windows ⊆ windows') : Achieved t windows' op := by
  cases op with
  | create userName groupName =>
    obtain ⟨w, hw, hwindow⟩ := h
    exact ⟨w, hsub hw, hwindow⟩
  | join userName groupName =>
    rcases h with ⟨w, hw, hwindow⟩ | hhidden
    · exact .inl ⟨w, hsub hw, hwindow⟩
    · exact .inr hhidden
  | _ => exact h

def Operation.unanswered : Operation → ClientErr
  | .logIn .. => .minusOne
  | .register .. | .create .. | .join .. | .leave .. => .success

theorem Operation.result_zero (op : Operation) : op.result 0 = op.unanswered := by
  cases op <;> rfl

/-! ## The interface -/

namespace UI

theorem scan_waiting {room : ℕ} {u : UI} {op : Operation} (h : u.screen = .waiting op) :
    u.scan room = u := by
  rw [scan]
  split
  · rfl
  · simp [h]

/-- No `scanf` makes the interface accept another name. -/
theorem scan_holder {room : ℕ} {u : UI} {n : TypedName 17}
    (h : (u.scan room).screen.holder = some n) : u.screen.holder = some n := by
  have hword : ∀ {room : ℕ} {w : Word} {screen : Screen},
      (scanWord room w screen).holder = some n → screen.holder = some n := by
    intro room w screen h
    rw [scanWord] at h
    split_ifs at h
    · cases h
    · exact h
  have hname : ∀ {k : ℕ} {w : Word} {again : Screen} {next : TypedName k → Screen},
      (readName k w again next).holder = some n →
        again.holder = some n ∨ ∃ s, (next s).holder = some n := by
    intro k w again next h
    rw [readName] at h
    split_ifs at h
    · exact .inr ⟨_, h⟩
    · exact .inl h
  rw [scan] at h
  split at h
  · exact h
  · rename_i w ws htyped
    cases hscreen : u.screen with
    | entry =>
      simp only [hscreen, answered] at h
      split_ifs at h <;> cases h
    | wrongAnswer =>
      simp only [hscreen, answered] at h
      split_ifs at h <;> cases h
    | userName =>
      simp only [hscreen] at h
      rcases hname (hword h) with h | ⟨s, h⟩ <;> cases h
    | password userName =>
      simp only [hscreen] at h
      rcases hname (hword h) with h | ⟨s, h⟩
      · cases h
      · simp only [enter] at h
        split_ifs at h <;> cases h
    | loginOffer userName psw =>
      simp only [hscreen] at h
      split_ifs at h
      · cases h
      · exact h
    | menu userName =>
      simp only [hscreen, chosen] at h
      split_ifs at h <;> exact h
    | groupToCreate userName =>
      simp only [hscreen] at h
      rcases hname (hword h) with h | ⟨s, h⟩ <;> exact h
    | groupToJoin userName =>
      simp only [hscreen] at h
      rcases hname (hword h) with h | ⟨s, h⟩
      · cases h
      · exact h
    | groupToExitFrom userName =>
      simp only [hscreen] at h
      rcases hname (hword h) with h | ⟨s, h⟩
      · cases h
      · exact h
    | waiting op => simpa only [hscreen] using h
    | overrun => simpa only [hscreen] using h

end UI

/-- Among the requests is one to register or to log in with the user's password. -/
def Identified (t : Tables) (requests : List ClientCall) (userName : TypedName 17) : Prop :=
  ∃ psw, t.Password userName psw ∧ ∃ op, (op = .register userName psw ∨ op = .logIn userName psw) ∧
    ∃ user group, Operation.call user group op ∈ requests

theorem Identified.grow {t t' : Tables} {requests requests' : List ClientCall}
    {userName : TypedName 17} (h : Identified t requests userName) (hg : t.Grows t')
    (hsub : requests ⊆ requests') : Identified t' requests' userName := by
  obtain ⟨psw, hpsw, op, hop, user, group, hmem⟩ := h
  exact ⟨psw, hpsw.grow hg, op, hop, user, group, hsub hmem⟩

/-- The name that the interface acts for after a call is that of an identified user. -/
theorem UI.afterCall_holder {t : Tables} {requests : List ClientCall} {d : Decoded}
    {op : Operation} (hd : Confirms t d op) {user : Block sizeofUserDetails}
    {group : Block sizeofGroupDetails} (hmem : op.call user group ∈ requests)
    (hop : ∀ n, (Screen.waiting op).holder = some n → Identified t requests n)
    {n : TypedName 17} (h : (afterCall (op.result d.answer) op).holder = some n) :
    Identified t requests n := by
  cases op with
  | register userName psw =>
    have hres : Client.registerResult d.answer ≠ .fail ∧ userName = n := by
      simp only [afterCall] at h
      split_ifs at h with hres
      · cases h
      · exact ⟨hres, Option.some.inj h⟩
    obtain ⟨hres, rfl⟩ := hres
    refine ⟨psw, hd ?_, _, .inl rfl, user, group, hmem⟩
    by_contra hne
    simp [Client.registerResult, hne] at hres
  | logIn userName psw =>
    have hres : Client.logInResult d.answer = .success ∧ userName = n := by
      simp only [afterCall] at h
      split_ifs at h with hres
      · exact ⟨hres, Option.some.inj h⟩
      · cases h
    obtain ⟨hres, rfl⟩ := hres
    refine ⟨psw, hd ?_, _, .inr rfl, user, group, hmem⟩
    by_contra hne
    simp only [Client.logInResult, hne, if_false] at hres
    split_ifs at hres
  | create userName groupName => exact hop n h
  | join userName groupName => exact hop n h
  | leave userName groupName => exact hop n h

/-! ## The invariant -/

/-- The interface waits for the request that the connection carries, or for its answer. -/
structure Attends (t : Tables) (st : Status ClientCall Decoded) (u : UI)
    (requests : List ClientCall) : Prop where
  called : ∀ c, st = .called c → ∃ op user group, u.screen = .waiting op ∧
    c = op.call user group ∧ c ∈ requests
  done : ∀ d, st = .done d → ∃ op user group, u.screen = .waiting op ∧
    op.call user group ∈ requests ∧ Confirms t d op
  holder : ∀ n, u.screen.holder = some n → Identified t requests n

namespace Attends
variable {t t' : Tables} {st : Status ClientCall Decoded} {u u' : UI}
    {requests requests' : List ClientCall}

theorem grow (h : Attends t st u requests) (hg : t.Grows t') (hsub : requests ⊆ requests') :
    Attends t' st u requests' where
  called := by
    intro c hc
    obtain ⟨op, user, group, hop, hcall, hmem⟩ := h.called c hc
    exact ⟨op, user, group, hop, hcall, hsub hmem⟩
  done := by
    intro d hd
    obtain ⟨op, user, group, hop, hmem, hconf⟩ := h.done d hd
    exact ⟨op, user, group, hop, hsub hmem, hconf.grow hg⟩
  holder := fun n hn => (h.holder n hn).grow hg hsub

theorem goOn (h : Attends t st u requests)
    (hwaiting : ∀ op, u.screen = .waiting op → u'.screen = .waiting op)
    (hholder : ∀ n, u'.screen.holder = some n → u.screen.holder = some n) :
    Attends t st u' requests where
  called := by
    intro c hc
    obtain ⟨op, user, group, hop, hcall⟩ := h.called c hc
    exact ⟨op, user, group, hwaiting op hop, hcall⟩
  done := by
    intro d hd
    obtain ⟨op, user, group, hop, hcall⟩ := h.done d hd
    exact ⟨op, user, group, hwaiting op hop, hcall⟩
  holder := fun n hn => h.holder n (hholder n hn)

theorem idle (h : ∀ n, u.screen.holder = some n → Identified t requests n) :
    Attends t .idle u requests where
  called := fun c hc => by cases hc
  done := fun d hd => by cases hd
  holder := h

end Attends

namespace Sessions
variable {ι : Type} [DecidableEq ι]

def Plain (s : Sessions ι) : Prop := ∀ i, ∀ w ∈ s.windows i, w.Plain

structure Sound (port : ℤ) (s : Sessions ι) (a : Atomic ι Tables ClientCall Decoded) : Prop where
  refines : s.chat.Refines a
  serials : a.state.SerialsDistinct
  ungrouped : a.state.Ungrouped
  attends : ∀ i, (s.chat.links i).Live →
    Attends a.state (a.status i) (s.uis i) (calls i s.chat.history)
  granted : ∀ i, ∀ w ∈ s.windows i, a.state.Granted w.groupIP w.groupName.val
  windows : s.Plain → ∀ i, ∀ w ∈ s.windows i, w.Sound port s.network
  users : ∀ i, ∀ w ∈ s.windows i, Identified a.state (calls i s.chat.history) w.userName
  network : s.Plain → ∀ d ∈ s.network, d.Sound port a.state
  senders : ∀ d ∈ s.network, Identified a.state (calls d.client s.chat.history) d.userName
  removed : ∀ i, s.removed i = []

theorem sound_start (port : ℤ) (p : ℕ → ℕ) (choice : ι → ℤ) :
    Sound port (start (Server.running p) choice) (Atomic.start Tables.empty) where
  refines := Chat.refines_start p
  serials := Tables.serialsDistinct_after []
  ungrouped := by
    intro b a h
    cases h
  attends := fun i _ => .idle (by simp [start, UI.start, Screen.holder])
  granted := by simp [start]
  windows := by simp [start]
  users := by simp [start]
  network := by simp [start]
  senders := by simp [start]
  removed := by simp [start]

section Step
variable {set : Settings} {s s' : Sessions ι} {a a' : Atomic ι Tables ClientCall Decoded} {i : ι}

theorem Sound.setUI (h : Sound set.port s a) {u : UI}
    (hwaiting : ∀ op, (s.uis i).screen = .waiting op → u.screen = .waiting op)
    (hholder : ∀ n, u.screen.holder = some n → (s.uis i).screen.holder = some n) :
    Sound set.port (s.setUI i u) a := by
  refine ⟨h.refines, h.serials, h.ungrouped, ?_, h.granted, h.windows, h.users, h.network,
    h.senders, h.removed⟩
  intro j hlive
  by_cases hji : j = i
  · subst hji
    simpa [Sessions.setUI] using (h.attends j hlive).goOn hwaiting hholder
  · simpa [Sessions.setUI, hji] using h.attends j hlive

theorem Sound.type (h : Sound set.port s a) (w : Word) :
    Sound set.port (s.setUI i ((s.uis i).typeWord w)) a :=
  h.setUI (fun _ hop => hop) fun _ hn => hn

theorem Sound.scan (h : Sound set.port s a) :
    Sound set.port (s.setUI i ((s.uis i).scan set.room)) a := by
  refine h.setUI ?_ fun n hn => UI.scan_holder hn
  intro op hop
  rw [UI.scan_waiting hop, hop]

theorem Sound.setWindow (h : Sound set.port s a) {k : ℕ} {w₀ w : Window}
    (hk : (s.windows i)[k]? = some w₀) (hip : w.groupIP = w₀.groupIP)
    (huser : w.userName = w₀.userName) (hgroup : w.groupName = w₀.groupName)
    {network : List (Datagram ι)} (hsub : s.network ⊆ network)
    (hw : s.Plain → w.Sound set.port network)
    (hnetwork : s.Plain → ∀ d ∈ network, d.Sound set.port a.state)
    (hsenders : ∀ d ∈ network, Identified a.state (calls d.client s.chat.history) d.userName) :
    Sound set.port { s.setWindow i k w with network := network } a := by
  have hwindows : ∀ j, ∀ v ∈ (s.setWindow i k w).windows j, v = w ∧ j = i ∨ v ∈ s.windows j := by
    intro j v hv
    by_cases hj : j = i
    · subst hj
      have hv' : v ∈ (s.windows j).set k w := by simpa [Sessions.setWindow] using hv
      exact (List.mem_or_eq_of_mem_set hv').symm.imp_left fun he => ⟨he, rfl⟩
    · exact .inr (by simpa [Sessions.setWindow, hj] using hv)
  have hw₀ : w₀ ∈ s.windows i := List.mem_of_getElem? hk
  have hplain : (s.setWindow i k w).Plain → s.Plain := by
    intro hplain j v hv
    by_cases hj : j = i
    · subst hj
      obtain ⟨m, hlt, rfl⟩ := List.mem_iff_getElem.mp hv
      by_cases hm : m = k
      · subst hm
        obtain rfl : w₀ = (s.windows j)[m] := by
          rw [List.getElem?_eq_getElem hlt] at hk
          exact (Option.some.inj hk).symm
        have hset : w ∈ (s.setWindow j m w).windows j := by
          simpa [Sessions.setWindow] using List.mem_of_getElem? (List.getElem?_set_self hlt)
        exact ⟨huser ▸ (hplain j w hset).userName, hgroup ▸ (hplain j w hset).groupName⟩
      · refine hplain j _ ?_
        have hset : ((s.windows j).set k w)[m]? = some (s.windows j)[m] := by
          rw [List.getElem?_set_ne (Ne.symm hm), List.getElem?_eq_getElem hlt]
        simpa [Sessions.setWindow] using List.mem_of_getElem? hset
    · exact hplain j v (by simpa [Sessions.setWindow, hj] using hv)
  refine ⟨h.refines, h.serials, h.ungrouped, h.attends, ?_, ?_, ?_, ?_, hsenders, h.removed⟩
  · intro j v hv
    rcases hwindows j v hv with ⟨rfl, rfl⟩ | hv
    · rw [hip, hgroup]
      exact h.granted j w₀ hw₀
    · exact h.granted j v hv
  · intro hp j v hv
    rcases hwindows j v hv with ⟨rfl, rfl⟩ | hv
    · exact hw (hplain hp)
    · exact (h.windows (hplain hp) j v hv).mono hsub
  · intro j v hv
    rcases hwindows j v hv with ⟨rfl, rfl⟩ | hv
    · exact huser ▸ h.users j w₀ hw₀
    · exact h.users j v hv
  · exact fun hp => hnetwork (hplain hp)

theorem Sound.say (h : Sound set.port s a) (k : ℕ) (read : Option Bytes) :
    Sound set.port (s.say i k read) a := by
  rw [Sessions.say]
  split
  · exact h
  · rename_i w hk
    have hmem := List.mem_of_getElem? hk
    split
    · exact h
    · rename_i sender hsender
      split
      · refine h.setWindow hk (by rfl) (by rfl) (by rfl) (List.Subset.refl _) ?_ h.network h.senders
        intro hplain
        have hw := h.windows hplain i w hmem
        exact ⟨hw.address, hw.printed, by simp, by simp⟩
      · rename_i sender' datagram hsay
        have hsub : s.network ⊆ s.network ++
            [⟨sender.address, datagram, i, w.userName, w.groupName, sender'.message⟩] :=
          List.subset_append_left _ _
        refine h.setWindow hk (by rfl) (by rfl) (by rfl) hsub ?_ ?_ ?_
        · intro hplain
          have hw := h.windows hplain i w hmem
          obtain ⟨hclean, huser⟩ := hw.clean sender hsender
          obtain ⟨hclean', haddress, huser', -⟩ := hclean.say_some hsay
          refine ⟨hw.address, fun l hl => (hw.printed l hl).mono hsub, ?_, ?_⟩
          · intro t ht
            obtain rfl := Option.some.inj ht
            rw [haddress]
            exact hw.destination sender hsender
          · intro t ht
            obtain rfl := Option.some.inj ht
            exact ⟨hclean', huser'.trans huser⟩
        · intro hplain d hd
          rcases List.mem_append.mp hd with hd | hd
          · exact h.network hplain d hd
          · obtain rfl := List.mem_singleton.mp hd
            have hw := h.windows hplain i w hmem
            obtain ⟨hclean, huser⟩ := hw.clean sender hsender
            obtain ⟨-, -, -, hlen, beyond, hbytes⟩ := hclean.say_some hsay
            have hzero := hclean.rendered read
            rw [huser, ← Sender.say_message hsay] at hzero hbytes
            exact ⟨⟨w.groupIP, h.granted i w hmem, hw.destination sender hsender⟩, hzero, hlen,
              beyond, hbytes⟩
        · intro d hd
          rcases List.mem_append.mp hd with hd | hd
          · exact h.senders d hd
          · obtain rfl := List.mem_singleton.mp hd
            exact h.users i w hmem

theorem Sound.hear (h : Sound set.port s a) (k m : ℕ) : Sound set.port (s.hear i k m) a := by
  rw [Sessions.hear]
  split
  · rename_i w d hk hm
    have hd := List.mem_of_getElem? hm
    split
    · exact h
    · rename_i l hl
      split_ifs with haddress
      · refine h.setWindow hk (by rfl) (by rfl) (by rfl) (List.Subset.refl _) ?_ h.network h.senders
        intro hplain
        have hw := h.windows hplain i w (List.mem_of_getElem? hk)
        refine ⟨?_, ?_, hw.destination, hw.clean⟩
        · intro l' hl'
          obtain rfl := Option.some.inj hl'
          exact hw.address l hl
        · intro l' hl'
          obtain rfl := Option.some.inj hl'
          exact (hw.printed l hl).receive (h.network hplain d hd) hd haddress
      · exact h
  · exact h

theorem say_chat (s : Sessions ι) (i : ι) (k : ℕ) (read : Option Bytes) :
    (s.say i k read).chat = s.chat := by
  rw [Sessions.say]
  split
  · rfl
  · split
    · rfl
    · split <;> rfl

theorem hear_chat (s : Sessions ι) (i : ι) (k m : ℕ) : (s.hear i k m).chat = s.chat := by
  rw [Sessions.hear]
  split
  · split
    · rfl
    · split_ifs <;> rfl
  · rfl

theorem unsent_same (s : Sessions ι) (i : ι) : (s.unsent i).chat = s.chat ∧
    (s.unsent i).windows = s.windows ∧ (s.unsent i).network = s.network := by
  rw [Sessions.unsent]
  split <;> exact ⟨rfl, rfl, rfl⟩

theorem transfer_network {s s' : Sessions ι} {i : ι} {t : LinkAct} {fileForListen : Bool}
    (h : s.transfer set i t fileForListen = some s') : s'.network = s.network := by
  rw [transfer, Option.map_eq_some_iff] at h
  obtain ⟨chat, -, rfl⟩ := h
  have htake : ∀ o : Option Decoded, (o.elim { s with chat := chat }
      (({ s with chat := chat } : Sessions ι).takeAnswer set i fileForListen)).network =
        s.network := by
    intro o
    cases o with
    | none => rfl
    | some d =>
      rw [Option.elim_some, takeAnswer]
      split <;> rfl
  cases t with
  | reciveFromServer n => exact htake _
  | reciveNothing => exact htake _
  | _ => rfl

theorem transfer_links {s s' : Sessions ι} {i : ι} {t : LinkAct} {fileForListen : Bool}
    (h : s.transfer set i t fileForListen = some s') {j : ι} (hj : j ≠ i) :
    s'.chat.links j = s.chat.links j := by
  rw [transfer, Option.map_eq_some_iff] at h
  obtain ⟨chat, hchat, rfl⟩ := h
  have hlinks := Chat.step_links hchat hj
  have htake : ∀ o : Option Decoded, ((o.elim { s with chat := chat }
      (({ s with chat := chat } : Sessions ι).takeAnswer set i fileForListen)).chat.links j) =
        chat.links j := by
    intro o
    cases o with
    | none => rfl
    | some d =>
      rw [Option.elim_some, takeAnswer]
      split <;> rfl
  cases t with
  | reciveFromServer n => exact (htake _).trans hlinks
  | reciveNothing => exact (htake _).trans hlinks
  | _ => exact hlinks

theorem sendFails_link {s : Sessions ι} {i : ι} {n : ℕ} {fileForListen : Bool} {chat : Chat ι}
    (h : s.transfer set i (.sendFails n) fileForListen = some { s with chat := chat }) :
    chat.server = (s.chat.server.exchange ((s.chat.links i).toServer.take n)).2 ∧
      (chat.links i).closed = true ∧ (chat.links i).requests = (s.chat.links i).requests ∧
      (chat.links i).decoded = (s.chat.links i).decoded := by
  rw [transfer, Option.map_eq_some_iff] at h
  obtain ⟨chat', hchat, hsame⟩ := h
  obtain rfl : chat' = chat := congrArg Sessions.chat hsame
  simp only [Chat.step] at hchat
  split at hchat
  · rename_i hexchange
    obtain rfl := Option.some.inj hchat
    simp [Chat.setLink, hexchange]
  · cases hchat

theorem step_network {s s' : Sessions ι} {e : ι × Act} (h : s.step set e = some s')
    (d : Datagram ι) (hd : d ∈ s'.network) : d ∈ s.network ∨
      ∃ k read w sender, e = (d.client, .say k read) ∧ (s.windows d.client)[k]? = some w ∧
        w.sender = some sender ∧ d.userName = w.userName ∧ d.groupName = w.groupName ∧
        d.line = sender.afterFgets read := by
  obtain ⟨i, act⟩ := e
  cases act with
  | transfer t fileForListen => exact .inl (transfer_network h ▸ hd)
  | say k read =>
    obtain rfl := Option.some.inj h
    simp only [Sessions.say] at hd
    split at hd
    · exact .inl hd
    · rename_i w hk
      split at hd
      · exact .inl hd
      · rename_i sender hsender
        split at hd
        · exact .inl hd
        · rename_i sender' datagram hsay
          rcases List.mem_append.mp hd with hd | hd
          · exact .inl hd
          · obtain rfl := List.mem_singleton.mp hd
            exact .inr ⟨k, read, w, sender, rfl, hk, hsender, rfl, rfl, Sender.say_message hsay⟩
  | hear k m =>
    obtain rfl := Option.some.inj h
    simp only [Sessions.hear] at hd
    split at hd
    · split at hd
      · exact .inl hd
      · split_ifs at hd <;> exact .inl hd
    · exact .inl hd
  | unsent =>
    obtain rfl := Option.some.inj h
    exact .inl ((unsent_same s i).2.2 ▸ hd)
  | _ =>
    obtain rfl := Option.some.inj h
    exact .inl hd

theorem Sound.moved (h : Sound set.port s a) {chat : Chat ι} (href : chat.Refines a')
    (hlinks : ∀ j, j ≠ i → chat.links j = s.chat.links j)
    (hstatus : ∀ j, j ≠ i → a'.status j = a.status j)
    (hcalls : ∀ j, calls j s.chat.history ⊆ calls j chat.history) (hg : a.state.Grows a'.state)
    (hserials : a'.state.SerialsDistinct) (hungrouped : a'.state.Ungrouped)
    (hi : (chat.links i).Live →
      Attends a'.state (a'.status i) (s.uis i) (calls i chat.history)) :
    Sound set.port { s with chat := chat } a' where
  refines := href
  serials := hserials
  ungrouped := hungrouped
  attends := by
    intro j hlive
    by_cases hji : j = i
    · subst hji
      exact hi hlive
    · have hold : (s.chat.links j).Live := hlinks j hji ▸ hlive
      rw [hstatus j hji]
      exact (h.attends j hold).grow hg (hcalls j)
  granted := fun j w hw => (h.granted j w hw).grow hg
  windows := h.windows
  users := fun j w hw => (h.users j w hw).grow hg (hcalls j)
  network := fun hplain d hd => (h.network hplain d hd).grow hg
  senders := fun d hd => (h.senders d hd).grow hg (hcalls d.client)
  removed := h.removed

theorem Sound.taken (h : Sound set.port s a) {u : UI} {v : List Window} {g : List CStr}
    (hi : (s.chat.links i).Live → Attends a.state (a.status i) u (calls i s.chat.history))
    (hv : ∀ w ∈ v, a.state.Granted w.groupIP w.groupName.val ∧
      (w.Plain → w.Sound set.port s.network) ∧
      Identified a.state (calls i s.chat.history) w.userName) (hg : g = []) :
    Sound set.port { s with
      uis := update s.uis i u
      windows := update s.windows i (s.windows i ++ v)
      removed := update s.removed i (s.removed i ++ g) } a := by
  have hwindows : ∀ j, ∀ w ∈ update s.windows i (s.windows i ++ v) j,
      w ∈ s.windows j ∨ w ∈ v ∧ j = i := by
    intro j w hw
    by_cases hji : j = i
    · subst hji
      rw [update_self] at hw
      exact (List.mem_append.mp hw).imp_right fun hw => ⟨hw, rfl⟩
    · exact .inl (by simpa [hji] using hw)
  have hold : ∀ j, s.windows j ⊆ update s.windows i (s.windows i ++ v) j := by
    intro j w hw
    by_cases hji : j = i
    · subst hji
      simp [hw]
    · simpa [hji] using hw
  refine ⟨h.refines, h.serials, h.ungrouped, ?_, ?_, ?_, ?_, ?_, h.senders, ?_⟩
  · intro j hlive
    by_cases hji : j = i
    · subst hji
      simpa using hi hlive
    · simpa [hji] using h.attends j hlive
  · intro j w hw
    rcases hwindows j w hw with hw | ⟨hw, -⟩
    · exact h.granted j w hw
    · exact (hv w hw).1
  · intro hplain j w hw
    rcases hwindows j w hw with hw' | ⟨hw', -⟩
    · exact h.windows (fun j w hw => hplain j w (hold j hw)) j w hw'
    · exact (hv w hw').2.1 (hplain j w hw)
  · intro j w hw
    rcases hwindows j w hw with hw' | ⟨hw', rfl⟩
    · exact h.users j w hw'
    · exact (hv w hw').2.2
  · exact fun hplain => h.network fun j w hw => hplain j w (hold j hw)
  · intro j
    by_cases hji : j = i
    · subst hji
      simp [h.removed j, hg]
    · simpa [hji] using h.removed j

theorem Sound.send (h : Sound set.port s a) {c : ClientCall} {fileForListen : Bool}
    (hopen : (s.chat.links i).closed = false)
    (hp : s.Permitted (i, .transfer (.sendToServer c) fileForListen)) :
    a.status i = .idle ∧ ∃ chat,
      s.transfer set i (.sendToServer c) fileForListen = some { s with chat := chat } ∧
      Sound set.port { s with chat := chat } { a with status := update a.status i (.called c) } ∧
      (chat.links i).closed = false ∧ chat.history = s.chat.history ++ [.call i c] := by
  obtain ⟨hchat, op, user, group, hscreen, hc⟩ := hp
  obtain ⟨hidle, chat, hstep, href, hopen', hhist⟩ := h.refines.send hopen hchat
  refine ⟨hidle, chat, by rw [transfer, hstep, Option.map_some], ?_, hopen', hhist⟩
  have hcalls : ∀ j, calls j s.chat.history ⊆ calls j chat.history := by
    intro j
    rw [hhist, calls_call]
    split_ifs
    · exact List.subset_append_left _ _
    · exact List.Subset.refl _
  refine h.moved href (fun j hj => Chat.step_links hstep hj) (fun j hj => update_of_ne hj _ _)
    hcalls (.refl _) h.serials h.ungrouped ?_
  intro _
  refine ⟨?_, ?_, ?_⟩
  · intro c' hc'
    obtain rfl : c = c' := by simpa using hc'
    exact ⟨op, user, group, hscreen, hc, by simp [hhist]⟩
  · intro d hd
    simp at hd
  · intro n hn
    exact ((h.attends i (.inl hopen)).holder n hn).grow (.refl _) (hcalls i)

theorem Sound.sendLost (h : Sound set.port s a) {c : ClientCall} {fileForListen : Bool}
    (hclosed : (s.chat.links i).closed = true)
    (hp : s.Permitted (i, .transfer (.sendToServer c) fileForListen)) :
    ∃ chat, s.transfer set i (.sendToServer c) fileForListen = some { s with chat := chat } ∧
      Sound set.port { s with chat := chat } a ∧ chat.history = s.chat.history := by
  obtain ⟨chat, hstep, href, hhist, -, hlost⟩ := h.refines.sendLost hclosed hp.1
  refine ⟨chat, by rw [transfer, hstep, Option.map_some], ?_, hhist⟩
  refine h.moved href (fun j hj => Chat.step_links hstep hj) (fun _ _ => rfl) ?_ (.refl _)
    h.serials h.ungrouped fun hlive => absurd hlive hlost.not_live
  intro j
  rw [hhist]
  exact List.Subset.refl _

theorem Sound.requested (h : Sound set.port s a) (hopen : (s.chat.links i).closed = false)
    {c : ClientCall} (hst : a.status i = .called c) : ∃ op user group, c = op.call user group ∧
      (s.uis i).screen = .waiting op ∧ c ∈ calls i s.chat.history ∧
      ∀ n, (Screen.waiting op).holder = some n →
        Identified a.state (calls i s.chat.history) n := by
  have hattends := h.attends i (.inl hopen)
  obtain ⟨op, user, group, hscreen, hc, hmem⟩ := hattends.called c hst
  exact ⟨op, user, group, hc, hscreen, hmem, fun n hn => hattends.holder n (hscreen ▸ hn)⟩

theorem Sound.serve (h : Sound set.port s a) {n : ℕ} {beyond : Block Server.buffSize}
    {fileForListen : Bool} (hp : s.Permitted (i, .transfer (.sndRcv n beyond) fileForListen))
    (hw : s.Whole (i, .transfer (.sndRcv n beyond) fileForListen)) :
    ∃ op user group chat, a.status i = .called (op.call user group) ∧
      (s.uis i).screen = .waiting op ∧
      s.transfer set i (.sndRcv n beyond) fileForListen = some { s with chat := chat } ∧
      Sound set.port { s with chat := chat } ⟨tablesObject.next a.state (op.call user group),
        update a.status i (.done (tablesObject.reply a.state (op.call user group)))⟩ ∧
      (chat.links i).closed = false ∧ chat.history = s.chat.history := by
  obtain ⟨c, chat, hst, hstep, href, hopen', hhist⟩ := h.refines.serve hp.1 hw
  obtain ⟨op, user, group, rfl, hscreen, hmem, hholder⟩ := h.requested hp.1.1 hst
  refine ⟨op, user, group, chat, hst, hscreen, by rw [transfer, hstep, Option.map_some], ?_,
    hopen', hhist⟩
  have hgrows := next_grows user group a.state op
  refine h.moved href (fun j hj => Chat.step_links hstep hj) (fun j hj => update_of_ne hj _ _) ?_
    hgrows (h.serials.next _) (next_ungrouped user group h.ungrouped op) ?_
  · intro j
    rw [hhist]
    exact List.Subset.refl _
  · intro _
    rw [hhist]
    refine ⟨?_, ?_, ?_⟩
    · intro c' hc'
      simp at hc'
    · intro d hd
      obtain rfl : tablesObject.reply a.state (op.call user group) = d := by simpa using hd
      exact ⟨op, user, group, hscreen, hmem, confirms_reply user group a.state op⟩
    · intro n hn
      exact (hholder n (hscreen ▸ hn)).grow hgrows (List.Subset.refl _)

theorem Sound.sendFails (h : Sound set.port s a) {n : ℕ} {fileForListen : Bool}
    (hp : s.Permitted (i, .transfer (.sendFails n) fileForListen))
    (hw : s.Whole (i, .transfer (.sendFails n) fileForListen)) :
    ∃ op user group chat, a.status i = .called (op.call user group) ∧
      (s.uis i).screen = .waiting op ∧
      s.transfer set i (.sendFails n) fileForListen = some { s with chat := chat } ∧
      Sound set.port { s with chat := chat } ⟨tablesObject.next a.state (op.call user group),
        update a.status i (.done (tablesObject.reply a.state (op.call user group)))⟩ ∧
      chat.history = s.chat.history := by
  obtain ⟨c, chat, hst, hstep, href, hhist, hlost⟩ := h.refines.sendFails hp.1 hw
  obtain ⟨op, user, group, rfl, hscreen, hmem, -⟩ := h.requested hp.1.1 hst
  refine ⟨op, user, group, chat, hst, hscreen, by rw [transfer, hstep, Option.map_some], ?_, hhist⟩
  refine h.moved href (fun j hj => Chat.step_links hstep hj) (fun j hj => update_of_ne hj _ _) ?_
    (next_grows user group a.state op) (h.serials.next _)
    (next_ungrouped user group h.ungrouped op) fun hlive => absurd hlive hlost.not_live
  intro j
  rw [hhist]
  exact List.Subset.refl _

theorem Sound.close (h : Sound set.port s a) :
    Sound set.port
      { s with chat := s.chat.setLink i { s.chat.links i with closed := true } } a := by
  refine h.moved (h.refines.close i) (fun j hj => update_of_ne hj _ _) (fun _ _ => rfl)
    (fun j => List.Subset.refl _) (.refl _) h.serials h.ungrouped ?_
  rintro (hopen | hclient)
  · simp [Chat.setLink] at hopen
  · exact h.attends i (.inr (by simpa [Chat.setLink] using hclient))

theorem Sound.receive (h : Sound set.port s a) {n : ℕ} {fileForListen : Bool}
    (hp : s.Permitted (i, .transfer (.reciveFromServer n) fileForListen))
    (hw : s.Whole (i, .transfer (.reciveFromServer n) fileForListen)) :
    ∃ op d s', a.status i = .done d ∧ (s.uis i).screen = .waiting op ∧ Confirms a.state d op ∧
      s.transfer set i (.reciveFromServer n) fileForListen = some s' ∧
      s'.uis = update s.uis i ((s.uis i).resume (op.result d.answer)) ∧
      s'.windows = update s.windows i (s.windows i ++ op.window set fileForListen d) ∧
      Sound set.port s' { a with status := update a.status i .idle } ∧
      (s'.chat.links i).closed = (s.chat.links i).closed ∧
      s'.chat.history = s.chat.history ++ [.ret i d] := by
  have hchat : s.chat.Permitted (i, .reciveFromServer n) := hp.1
  have hlive : (s.chat.links i).Live := by
    obtain ⟨-, hpos, hle, -⟩ := hchat
    refine .inr fun hnil => ?_
    have hle : n ≤ (s.chat.links i).toClient.length := hle
    rw [hnil, List.length_nil] at hle
    omega
  obtain ⟨d, chat, hst, hstep, href, hhist, hlast, hclosed, -⟩ := h.refines.receive hchat hw
  have hattends := h.attends i hlive
  obtain ⟨op, user, group, hscreen, hmem, hconf⟩ := hattends.done d hst
  have hcalls : ∀ j, calls j chat.history = calls j s.chat.history := by
    intro j
    rw [hhist, calls_ret]
  have hmoved : Sound set.port { s with chat := chat }
      { a with status := update a.status i .idle } := by
    refine h.moved href (fun j hj => Chat.step_links hstep hj) (fun j hj => update_of_ne hj _ _)
      (fun j => (hcalls j).symm ▸ List.Subset.refl _) (.refl _) h.serials h.ungrouped ?_
    intro _
    simp only [hcalls, update_self]
    exact .idle hattends.holder
  have htaken := hmoved.taken (i := i) (u := (s.uis i).resume (op.result d.answer))
    (v := op.window set fileForListen d) (g := op.removesPID d) ?_ ?_
    (Operation.removesPID_confirmed hconf)
  · refine ⟨op, d, _, hst, hscreen, hconf, ?_, rfl, rfl, htaken, hclosed, hhist⟩
    rw [transfer, hstep, Option.map_some]
    simp only [hlast, Option.elim_some, takeAnswer, hscreen]
  · intro _
    simp only [update_self, hcalls]
    refine .idle fun m hm => ?_
    refine UI.afterCall_holder hconf hmem (fun m hm => hattends.holder m (hscreen ▸ hm)) ?_
    simpa [UI.resume, hscreen] using hm
  · intro w hw'
    obtain ⟨hgranted, hsound⟩ := Operation.window_granted hconf hw'
    refine ⟨hgranted, fun hplain => hsound hplain s.network, ?_⟩
    simp only [hcalls]
    exact hattends.holder _ (hscreen ▸ Operation.window_holder hw')

theorem Sound.receiveNothing (h : Sound set.port s a) {fileForListen : Bool}
    (hp : s.Permitted (i, .transfer .reciveNothing fileForListen)) :
    ∃ s', s.transfer set i .reciveNothing fileForListen = some s' ∧ Sound set.port s' a ∧
      s'.windows = s.windows ∧ s'.chat.server = s.chat.server ∧
      s'.chat.history = s.chat.history ∧
      ∀ op, (s.uis i).screen = .waiting op →
        s'.uis = update s.uis i ((s.uis i).resume (op.result 0)) := by
  obtain ⟨c, chat, hstep, href, hhist, hserver, hlast, hlost⟩ := h.refines.reciveNothing hp.1
  have hanswer := c.answer_decode_nil
  generalize c.decode [] = d at hlast hanswer
  have hmoved : Sound set.port { s with chat := chat } a := by
    refine h.moved href (fun j hj => Chat.step_links hstep hj) (fun _ _ => rfl) ?_ (.refl _)
      h.serials h.ungrouped fun hlive => absurd hlive hlost.not_live
    intro j
    rw [hhist]
    exact List.Subset.refl _
  have htransfer : s.transfer set i .reciveNothing fileForListen =
      some (({ s with chat := chat } : Sessions ι).takeAnswer set i fileForListen d) := by
    rw [transfer, hstep, Option.map_some]
    simp only [hlast, Option.elim_some]
  refine ⟨_, htransfer, ?_⟩
  rw [takeAnswer]
  split
  · rename_i op hscreen
    obtain ⟨hnone, hremoves⟩ := Operation.nothing_decoded op set fileForListen hanswer
    rw [hnone]
    refine ⟨hmoved.taken (fun hlive => absurd hlive hlost.not_live) (by simp) hremoves, ?_,
      hserver, hhist, ?_⟩
    · simp
    · intro op' hop'
      obtain rfl : op = op' := Screen.waiting.inj (hscreen.symm.trans hop')
      rw [hanswer]
  · rename_i hother
    exact ⟨hmoved, rfl, hserver, hhist, fun op hop => absurd hop (hother op)⟩

theorem Sound.unsent (h : Sound set.port s a) (hp : s.Permitted (i, .unsent)) :
    Sound set.port (s.unsent i) a := by
  obtain ⟨hclosed, hidle, op, hscreen⟩ := hp
  have hlost : ¬ (s.chat.links i).Live := by
    rintro (hopen | hclient)
    · rw [hclosed] at hopen
      cases hopen
    · rcases h.refines.links i with hat | hlost
      · rw [hat.idle hidle] at hat
        exact hclient hat.2.1
      · exact hclient hlost.toClient
  simp only [Sessions.unsent, hscreen]
  refine ⟨h.refines, h.serials, h.ungrouped, ?_, h.granted, h.windows, h.users, h.network,
    h.senders, h.removed⟩
  intro j hlive
  by_cases hji : j = i
  · subst hji
    exact absurd hlive hlost
  · simpa [Sessions.setUI, hji] using h.attends j hlive

/-- A step of the system is a step of the atomic object, or the object stays as it is. -/
theorem Sound.step (h : Sound set.port s a) {e : ι × Act} (hp : s.Permitted e)
    (hw : s.Whole e) :
    ∃ s' a', s.step set e = some s' ∧ Sound set.port s' a' ∧ a.state.Grows a'.state ∧
      (a' = a ∧ s'.chat.history = s.chat.history ∨
        ∃ act, Atomic.Step tablesObject a act a' ∧
          s'.chat.history = s.chat.history ++ observed [act]) := by
  obtain ⟨i, act⟩ := e
  cases act with
  | type w => exact ⟨_, a, rfl, h.type w, .refl _, .inl ⟨rfl, rfl⟩⟩
  | scan => exact ⟨_, a, rfl, h.scan, .refl _, .inl ⟨rfl, rfl⟩⟩
  | say k read => exact ⟨_, a, rfl, h.say k read, .refl _, .inl ⟨rfl, by rw [say_chat]⟩⟩
  | hear k m => exact ⟨_, a, rfl, h.hear k m, .refl _, .inl ⟨rfl, by rw [hear_chat]⟩⟩
  | unsent =>
    exact ⟨_, a, rfl, h.unsent hp, .refl _, .inl ⟨rfl, by rw [(unsent_same s i).1]⟩⟩
  | transfer t fileForListen =>
    cases t with
    | sendToServer c =>
      cases hclosed : (s.chat.links i).closed with
      | false =>
        obtain ⟨hst, chat, hstep, hsound, -, hhist⟩ := h.send hclosed hp
        exact ⟨_, _, hstep, hsound, .refl _, .inr ⟨.call i c, .call hst, hhist⟩⟩
      | true =>
        obtain ⟨chat, hstep, hsound, hhist⟩ := h.sendLost hclosed hp
        exact ⟨_, a, hstep, hsound, .refl _, .inl ⟨rfl, hhist⟩⟩
    | sndRcv n beyond =>
      obtain ⟨op, user, group, chat, hst, -, hstep, hsound, -, hhist⟩ := h.serve hp hw
      exact ⟨_, _, hstep, hsound, next_grows user group a.state op,
        .inr ⟨.commit i _, .commit hst, by simpa [observed] using hhist⟩⟩
    | reciveFromServer n =>
      obtain ⟨op, d, s', hst, -, -, hstep, -, -, hsound, -, hhist⟩ := h.receive hp hw
      exact ⟨s', _, hstep, hsound, .refl _, .inr ⟨.ret i d, .ret hst, hhist⟩⟩
    | sendFails n =>
      obtain ⟨op, user, group, chat, hst, -, hstep, hsound, hhist⟩ := h.sendFails hp hw
      exact ⟨_, _, hstep, hsound, next_grows user group a.state op,
        .inr ⟨.commit i _, .commit hst, by simpa [observed] using hhist⟩⟩
    | close => exact ⟨_, a, rfl, h.close (i := i), .refl _, .inl ⟨rfl, rfl⟩⟩
    | reciveNothing =>
      obtain ⟨s', hstep, hsound, -, -, hhist, -⟩ := h.receiveNothing hp
      exact ⟨s', a, hstep, hsound, .refl _, .inl ⟨rfl, hhist⟩⟩

/-! ## The lines in the senders' buffers -/

theorem transfer_windows {s s' : Sessions ι} {i : ι} {t : LinkAct} {fileForListen : Bool}
    (h : s.transfer set i t fileForListen = some s') : s'.windows = s.windows ∨
      ∃ op d, s'.windows =
        update s.windows i (s.windows i ++ Operation.window set fileForListen d op) := by
  rw [transfer, Option.map_eq_some_iff] at h
  obtain ⟨chat, -, rfl⟩ := h
  have htake : ∀ o : Option Decoded, ∀ s₁, o.elim { s with chat := chat }
      (({ s with chat := chat } : Sessions ι).takeAnswer set i fileForListen) = s₁ →
        s₁.windows = s.windows ∨ ∃ op d, s₁.windows =
          update s.windows i (s.windows i ++ Operation.window set fileForListen d op) := by
    intro o s₁ hs₁
    subst hs₁
    cases o with
    | none => exact .inl rfl
    | some d =>
      rw [Option.elim_some, takeAnswer]
      split
      · exact .inr ⟨_, d, rfl⟩
      · exact .inl rfl
  cases t with
  | reciveFromServer n => exact htake _ _ rfl
  | reciveNothing => exact htake _ _ rfl
  | _ => exact .inl rfl

def Short (m : ℕ) (s : Sessions ι) : Prop :=
  ∀ i, ∀ w ∈ s.windows i, ∀ sender, w.sender = some sender → sender.message.length ≤ m

theorem short_window {op : Operation} {fileForListen : Bool} {d : Decoded} {w : Window}
    (hw : w ∈ op.window set fileForListen d) {sender : Sender} (h : w.sender = some sender) :
    sender.message = [] := by
  have hstart : ∀ {argv : List CStr}, Sender.start argv = some sender → sender.message = [] := by
    intro argv hs
    rw [Sender.start.eq_def] at hs
    split at hs
    · rw [← Option.some.inj hs]
    · cases hs
  have hopened : ∀ {groupIP : CStr} {userName : TypedName 17} {groupName : TypedName 18},
      (Window.opened set fileForListen groupIP userName groupName).sender = some sender →
        sender.message = [] := by
    intro groupIP userName groupName hs
    simp only [Window.opened, openChatWindow, Option.ite_none_right_eq_some] at hs
    obtain ⟨-, hs⟩ := hs
    obtain ⟨argv, -, hs⟩ := Option.bind_eq_some_iff.mp hs
    exact hstart hs
  cases op with
  | create userName groupName =>
    simp only [Operation.window] at hw
    split_ifs at hw
    · exact hopened (List.mem_singleton.mp hw ▸ h)
    · cases hw
  | join userName groupName =>
    simp only [Operation.window] at hw
    split_ifs at hw
    · exact hopened (List.mem_singleton.mp hw ▸ h)
    · cases hw
  | _ => cases hw

theorem Short.setWindow {m : ℕ} (h : s.Short m) {k : ℕ} {w : Window}
    (hw : ∀ sender, w.sender = some sender → sender.message.length ≤ m) :
    (s.setWindow i k w).Short m := by
  intro j v hv sender hsender
  by_cases hj : j = i
  · subst hj
    have hv' : v ∈ (s.windows j).set k w := by simpa [Sessions.setWindow] using hv
    rcases List.mem_or_eq_of_mem_set hv' with hv' | rfl
    · exact h j v hv' sender hsender
    · exact hw sender hsender
  · exact h j v (by simpa [Sessions.setWindow, hj] using hv) sender hsender

theorem Short.say {m : ℕ} (h : s.Short m) (k : ℕ) {read : Option Bytes}
    (hread : ∀ bytes, read = some bytes → bytes.length ≤ m) : (s.say i k read).Short m := by
  rw [Sessions.say]
  split
  · exact h
  · rename_i w hk
    split
    · exact h
    · rename_i sender hsender
      split
      · exact h.setWindow (by simp)
      · rename_i sender' datagram hsay
        refine h.setWindow (i := i) (k := k) (w := { w with sender := some sender' }) ?_
        intro t ht
        obtain rfl := Option.some.inj ht
        rw [Sender.say_message hsay, Sender.afterFgets]
        cases read with
        | none => exact h i w (List.mem_of_getElem? hk) sender hsender
        | some bytes => exact (text_length_le bytes).trans (hread bytes rfl)

theorem Short.step {m : ℕ} (h : s.Short m) {e : ι × Act} (hstep : s.step set e = some s')
    (hline : ∀ k bytes, e.2 = .say k (some bytes) → bytes.length ≤ m) : s'.Short m := by
  obtain ⟨i, act⟩ := e
  cases act with
  | transfer t fileForListen =>
    intro j w hw sender hsender
    rcases transfer_windows hstep with hwindows | ⟨op, d, hwindows⟩
    · exact h j w (hwindows ▸ hw) sender hsender
    · rw [hwindows] at hw
      by_cases hj : j = i
      · subst hj
        rw [update_self] at hw
        rcases List.mem_append.mp hw with hw | hw
        · exact h j w hw sender hsender
        · rw [short_window hw hsender, List.length_nil]
          exact Nat.zero_le _
      · exact h j w (by simpa [hj] using hw) sender hsender
  | say k read =>
    obtain rfl := Option.some.inj hstep
    exact h.say k fun bytes hbytes => hline k bytes (hbytes ▸ rfl)
  | hear k n =>
    obtain rfl := Option.some.inj hstep
    change (s.hear i k n).Short m
    rw [Sessions.hear]
    split
    · rename_i w d hk hn
      split
      · exact h
      · split_ifs
        · exact h.setWindow fun sender hsender => h i w (List.mem_of_getElem? hk) sender hsender
        · exact h
    · exact h
  | unsent =>
    obtain rfl := Option.some.inj hstep
    intro j w hw sender hsender
    exact h j w ((unsent_same s i).2.1 ▸ hw) sender hsender
  | _ =>
    obtain rfl := Option.some.inj hstep
    exact h

end Step
end Sessions
end ChatProject
