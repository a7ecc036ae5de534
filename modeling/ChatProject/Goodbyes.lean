import ChatProject.Descriptors
import ChatProject.Expiry

/-!
# One goodbye for each client

A client's stay begins when it is put in the list. The goodbyes of each stay are counted
from the events by the client's socket, which no other listed client has, the latest stay
first. Expiry and a failing receive say goodbye; a failing send does not, nor does a client
for whose new node there is no memory.
-/

namespace ChatProject
open Memory Run

def goodbyes (sock : ℕ) : List Event → List ℕ
  | [] => []
  | .accepted sock' _ :: events =>
    if sock' = sock then 0 :: goodbyes sock events else goodbyes sock events
  | .goodbye sock' :: events =>
    if sock' = sock then (goodbyes sock events).modifyHead (· + 1) else goodbyes sock events
  | .welcome _ :: events | .served _ _ :: events => goodbyes sock events

section Goodbyes
variable (sock sock' : ℕ) (t : TimeVal) (events : List Event)

@[simp] theorem goodbyes_served :
    goodbyes sock (.served sock' t :: events) = goodbyes sock events := rfl

@[simp] theorem goodbyes_welcome :
    goodbyes sock (.welcome sock' :: events) = goodbyes sock events := rfl

@[simp] theorem goodbyes_accepted :
    goodbyes sock (.accepted sock' t :: events) =
      if sock' = sock then 0 :: goodbyes sock events else goodbyes sock events := rfl

@[simp] theorem goodbyes_goodbye :
    goodbyes sock (.goodbye sock' :: events) =
      if sock' = sock then (goodbyes sock events).modifyHead (· + 1)
      else goodbyes sock events := rfl

end Goodbyes

namespace TcpServer

def ended (s : TcpServer) (sock : ℕ) : List ℕ :=
  if sock ∈ s.socks then (goodbyes sock s.events).tail else goodbyes sock s.events

/-- No goodbye has been said to a client that is in the list, and one to each that has left. -/
structure GoodbyesExact (s : TcpServer) : Prop where
  listed : ∀ sock ∈ s.socks, (goodbyes sock s.events).head? = some 0
  left : ∀ sock, ∀ k ∈ s.ended sock, k = 1

def Listed (s : TcpServer) : Prop := ∀ sock ∈ s.socks, (goodbyes sock s.events).head? = some 0

/-- Some stay is over without exactly one goodbye. -/
def Missed (s : TcpServer) : Prop := ∃ sock, ∃ k ∈ s.ended sock, k ≠ 1

theorem not_missed_iff (s : TcpServer) : ¬ s.Missed ↔ ∀ sock, ∀ k ∈ s.ended sock, k = 1 := by
  simp [Missed]

section Steps
variable {s : TcpServer} {front todo : List ClientNode} {n : ClientNode} {farewell : Bool}

theorem mem_socks (hn : s.nodes = front ++ n :: todo) : n.sock ∈ s.socks :=
  (Registered.socks_perm hn).mem_iff.mpr List.mem_cons_self

theorem mem_socks_of_mem (hn : s.nodes = front ++ n :: todo) {sock : ℕ}
    (h : sock ∈ (front ++ todo).map ClientNode.sock) : sock ∈ s.socks :=
  (Registered.socks_perm hn).mem_iff.mpr (List.mem_cons_of_mem _ h)

theorem mem_socks_of_ne (hn : s.nodes = front ++ n :: todo) {sock : ℕ} (hne : n.sock ≠ sock) :
    sock ∈ (front ++ todo).map ClientNode.sock ↔ sock ∈ s.socks := by
  rw [(Registered.socks_perm hn).mem_iff, List.mem_cons]
  exact ⟨.inr, fun h => h.resolve_left (Ne.symm hne)⟩

theorem ended_serve (hn : s.nodes = front ++ n :: todo) (sock : ℕ) :
    (s.serve front todo n).ended sock = s.ended sock := by
  have hmem : sock ∈ (s.serve front todo n).socks ↔ sock ∈ s.socks :=
    (Registered.socks_perm hn).mem_iff.symm
  rw [ended, ended, if_congr hmem rfl rfl]
  rfl

theorem ended_lose (hn : s.nodes = front ++ n :: todo) {sock : ℕ} (hne : n.sock ≠ sock) :
    (s.lose front todo n).ended sock = s.ended sock := by
  have hmem : sock ∈ (s.lose front todo n).socks ↔ sock ∈ s.socks := mem_socks_of_ne hn hne
  rw [ended, ended, if_congr hmem rfl rfl]
  rfl

theorem ended_removeClient (hn : s.nodes = front ++ n :: todo) {sock : ℕ} (hne : n.sock ≠ sock) :
    (s.removeClient front todo n farewell).ended sock = s.ended sock := by
  have hmem : sock ∈ (s.removeClient front todo n farewell).socks ↔ sock ∈ s.socks :=
    mem_socks_of_ne hn hne
  have hevents : goodbyes sock (s.removeClient front todo n farewell).events =
      goodbyes sock s.events := by
    simp only [removeClient]
    split_ifs
    · rw [goodbyes_goodbye, if_neg hne]
    · rfl
  rw [ended, ended, hevents, if_congr hmem rfl rfl]

theorem mem_ended_of_tail {s : TcpServer} {sock k : ℕ} (h : k ∈ (goodbyes sock s.events).tail) :
    k ∈ s.ended sock := by
  rw [ended]
  split_ifs
  · exact h
  · exact List.mem_of_mem_tail h

theorem tail_goodbyes_removeClient (sock : ℕ) :
    (goodbyes sock (s.removeClient front todo n farewell).events).tail =
      (goodbyes sock s.events).tail := by
  simp only [removeClient]
  split_ifs
  · rw [goodbyes_goodbye]
    split_ifs
    · cases goodbyes sock s.events <;> rfl
    · rfl
  · rfl

theorem Missed.keptByPass : KeptByPass Missed where
  serve := by
    intro s front todo n hn _ hmissed
    obtain ⟨sock, k, hk, hne⟩ := hmissed
    exact ⟨sock, k, (ended_serve hn sock).symm ▸ hk, hne⟩
  lose := by
    intro s front todo n hn _ hmissed
    obtain ⟨sock, k, hk, hne⟩ := hmissed
    refine ⟨sock, k, ?_, hne⟩
    by_cases hsock : n.sock = sock
    · rw [ended, if_pos (hsock ▸ mem_socks hn)] at hk
      exact mem_ended_of_tail hk
    · rw [ended_lose hn hsock]
      exact hk
  remove := by
    intro s front todo n farewell hn hmissed
    obtain ⟨sock, k, hk, hne⟩ := hmissed
    refine ⟨sock, k, ?_, hne⟩
    by_cases hsock : n.sock = sock
    · rw [ended, if_pos (hsock ▸ mem_socks hn)] at hk
      refine mem_ended_of_tail ?_
      rw [tail_goodbyes_removeClient]
      exact hk
    · rw [ended_removeClient hn hsock]
      exact hk

theorem not_mem_socks_split (ht : s.Timely) (hn : s.nodes = front ++ n :: todo) :
    n.sock ∉ (front ++ todo).map ClientNode.sock := by
  intro hmem
  obtain ⟨m, hm, heq⟩ := List.mem_map.mp hmem
  exact (nodup_split (hn ▸ ht.socks)).2 m hm heq.symm

/-- The client leaves without a word: its last stay has no goodbye. -/
theorem missed_of_silent (ht : s.Timely) (hl : s.Listed) (hn : s.nodes = front ++ n :: todo) :
    (s.lose front todo n).Missed ∧ (s.removeClient front todo n false).Missed := by
  have hleft := not_mem_socks_split ht hn
  have hhead := List.mem_of_mem_head? (hl n.sock (mem_socks hn))
  constructor
  · refine ⟨n.sock, 0, ?_, Nat.zero_ne_one⟩
    rw [ended, if_neg (show n.sock ∉ (s.lose front todo n).socks from hleft)]
    exact hhead
  · refine ⟨n.sock, 0, ?_, Nat.zero_ne_one⟩
    rw [ended, if_neg (show n.sock ∉ (s.removeClient front todo n false).socks from hleft)]
    exact hhead

theorem not_missed_farewell (ht : s.Timely) (hl : s.Listed) (hg : s.goodbye = true)
    (hn : s.nodes = front ++ n :: todo) (h : ¬ s.Missed) :
    ¬ (s.removeClient front todo n true).Missed := by
  rw [not_missed_iff] at h ⊢
  intro sock k hk
  by_cases hsock : n.sock = sock
  · subst hsock
    have hended := h n.sock
    rw [ended, if_pos (mem_socks hn)] at hended
    have hevents : (s.removeClient front todo n true).events = .goodbye n.sock :: s.events := by
      simp [removeClient, hg]
    rw [ended, if_neg (show n.sock ∉ (s.removeClient front todo n true).socks from
      not_mem_socks_split ht hn), hevents, goodbyes_goodbye, if_pos rfl] at hk
    have hhead := hl n.sock (mem_socks hn)
    cases hstays : goodbyes n.sock s.events with
    | nil => simp [hstays] at hhead
    | cons g past =>
      rw [hstays] at hhead hended hk
      obtain rfl : g = 0 := by simpa using hhead
      rcases List.mem_cons.mp hk with rfl | hk
      · rfl
      · exact hended k hk
  · rw [ended_removeClient hn hsock] at hk
    exact h sock k hk

theorem not_missed_serve (hn : s.nodes = front ++ n :: todo) (h : ¬ s.Missed) :
    ¬ (s.serve front todo n).Missed := by
  rw [not_missed_iff] at h ⊢
  intro sock k hk
  rw [ended_serve hn] at hk
  exact h sock k hk

theorem not_missed_enrol {sock : ℕ} (hsock : sock ∉ s.socks) (h : ¬ s.Missed) :
    ¬ (s.enrol sock).Missed := by
  rw [not_missed_iff] at h ⊢
  intro sock' k hk
  have hgoodbyes : goodbyes sock' (s.enrol sock).events =
      if sock = sock' then 0 :: goodbyes sock' s.events else goodbyes sock' s.events := by
    cases hw : s.acceptFunction <;> simp [enrol, hw]
  rw [ended, Registered.socks_enrol, hgoodbyes] at hk
  refine h sock' k ?_
  rw [ended]
  by_cases heq : sock = sock'
  · subst heq
    rw [if_neg hsock]
    simpa using hk
  · have hiff : sock' ∈ s.socks ++ [sock] ↔ sock' ∈ s.socks := by simp [Ne.symm heq]
    rw [if_congr hiff rfl rfl, if_neg heq] at hk
    exact hk

theorem Listed.kept : Kept fun s => s.Timely ∧ s.Listed where
  tick := fun _ h => ⟨h.1.tick, h.2⟩
  serve := by
    intro s front todo n hn _ h
    refine ⟨h.1.serve hn, fun sock hsock => ?_⟩
    exact h.2 sock ((Registered.socks_perm hn).mem_iff.mpr hsock)
  lose := fun _ _ _ _ hn _ h =>
    ⟨h.1.lose hn, fun sock hsock => h.2 sock (mem_socks_of_mem hn hsock)⟩
  remove := by
    intro s front todo n farewell hn h
    refine ⟨h.1.removeClient hn farewell, fun sock hsock => ?_⟩
    have hne : n.sock ≠ sock := fun he => not_mem_socks_split h.1 hn (he ▸ hsock)
    have hhead := h.2 sock (mem_socks_of_mem hn hsock)
    simp only [removeClient]
    split_ifs
    · rw [goodbyes_goodbye, if_neg hne]
      exact hhead
    · exact hhead
  refuse := fun s sock _ _ h => ⟨h.1.refuse sock, h.2⟩
  enrol := by
    intro s sock hsock _ _ h
    refine ⟨h.1.enrol hsock, fun sock' hmem => ?_⟩
    have hgoodbyes : goodbyes sock' (s.enrol sock).events =
        if sock = sock' then 0 :: goodbyes sock' s.events else goodbyes sock' s.events := by
      cases hw : s.acceptFunction <;> simp [enrol, hw]
    rw [hgoodbyes]
    by_cases heq : sock = sock'
    · rw [if_pos heq]
      rfl
    · rw [if_neg heq]
      rw [Registered.socks_enrol, List.mem_append, List.mem_singleton] at hmem
      exact h.2 sock' (hmem.resolve_right (Ne.symm heq))

end Steps

/-! ## The condition on one pass -/

/-- The clients that a pass gets to: it stops at one whose record is where the tail sentinel
points. -/
def met (tail : Ptr) (ns : List ClientNode) : List ClientNode := ns.takeWhile fun n => n.1 ≠ tail

def servedCount (forSelect : Finset ℕ) (exchange : ℕ → Exchange) (ns : List ClientNode) : ℕ :=
  ns.countP fun n => n.sock ∈ forSelect ∧ exchange n.sock = .succeeds

/-- No send fails, and there is memory to put each served client back into the list. -/
structure TellsLeaving (forSelect : Finset ℕ) (exchange : ℕ → Exchange) (ns : List ClientNode)
    (h : Heap) : Prop where
  sends : ∀ n ∈ ns, n.sock ∈ forSelect → exchange n.sock ≠ .sendFails
  relists : ∀ k < servedCount forSelect exchange ns, h k ≠ 0

section Pass
variable {forSelect : Finset ℕ} {exchange : ℕ → Exchange} {tail : Ptr} {ns : List ClientNode}
  {n : ClientNode} {h : Heap}

theorem tellsLeaving_of_none_ready (hnone : ∀ n ∈ ns, n.sock ∉ forSelect) :
    TellsLeaving forSelect exchange ns h where
  sends := fun n hn hready => absurd hready (hnone n hn)
  relists := by
    have hzero : servedCount forSelect exchange ns = 0 :=
      List.countP_eq_zero.mpr fun n hn => by simp [hnone n hn]
    simp [hzero]

theorem tellsLeaving_cons_unserved (hsends : n.sock ∈ forSelect → exchange n.sock ≠ .sendFails)
    (hunserved : ¬ (n.sock ∈ forSelect ∧ exchange n.sock = .succeeds)) :
    TellsLeaving forSelect exchange (n :: ns) h ↔ TellsLeaving forSelect exchange ns h := by
  have hcount : servedCount forSelect exchange (n :: ns) = servedCount forSelect exchange ns :=
    List.countP_cons_of_neg (by simpa using hunserved)
  constructor
  · intro h
    exact ⟨fun m hm => h.sends m (List.mem_cons_of_mem _ hm), hcount ▸ h.relists⟩
  · intro h
    refine ⟨fun m hm hready => ?_, hcount.symm ▸ h.relists⟩
    rcases List.mem_cons.mp hm with rfl | hm
    · exact hsends hready
    · exact h.sends m hm hready

theorem tellsLeaving_cons_served (hn : n.sock ∈ forSelect) (hx : exchange n.sock = .succeeds) :
    TellsLeaving forSelect exchange (n :: ns) h ↔
      h.next ≠ 0 ∧ TellsLeaving forSelect exchange ns h.rest := by
  have hcount : servedCount forSelect exchange (n :: ns) =
      servedCount forSelect exchange ns + 1 := List.countP_cons_of_pos (by simp [hn, hx])
  constructor
  · intro h
    obtain ⟨hsends, hrelists⟩ := h
    rw [hcount] at hrelists
    refine ⟨hrelists 0 (by omega), fun m hm => hsends m (List.mem_cons_of_mem _ hm), ?_⟩
    intro k hk
    exact hrelists (k + 1) (by omega)
  · intro h
    obtain ⟨hnext, hsends, hrelists⟩ := h
    refine ⟨fun m hm hready => ?_, fun k hk => ?_⟩
    · rcases List.mem_cons.mp hm with rfl | hm
      · simp [hx]
      · exact hsends m hm hready
    · cases k with
      | zero => exact hnext
      | succ k => exact hrelists k (by omega)

/-- A pass ends every stay with its goodbye exactly when it tells each client that leaves. -/
theorem pass_not_missed_iff :
    ∀ (todo front : List ClientNode) (activity : ℕ) (s : TcpServer), s.nodes = front ++ todo →
      readyCount forSelect todo ≤ activity → s.Timely ∧ s.Listed → s.goodbye = true →
      ¬ s.Missed → (¬ (pass forSelect exchange front todo activity s).Missed ↔
        TellsLeaving forSelect exchange (met s.tailData todo) s.heap) := by
  intro todo
  induction todo with
  | nil =>
    intro front activity s _ _ _ _ hs
    exact iff_of_true hs (tellsLeaving_of_none_ready (by simp [met]))
  | cons n todo ih =>
    intro front activity s hn hcount ht hg hs
    rw [pass]
    by_cases hstop : n.1 = s.tailData ∨ activity = 0
    · rw [if_pos hstop]
      refine iff_of_true hs (tellsLeaving_of_none_ready fun m hm => ?_)
      rcases hstop with htail | hzero
      · simp [met, htail] at hm
      · rw [hzero, Nat.le_zero, readyCount, List.countP_eq_zero] at hcount
        simpa using hcount m ((List.takeWhile_sublist _).subset hm)
    · obtain ⟨htail, -⟩ := not_or.mp hstop
      have hmet : met s.tailData (n :: todo) = n :: met s.tailData todo := by simp [met, htail]
      rw [if_neg hstop, hmet]
      by_cases hready : n.sock ∈ forSelect
      · have hrest : readyCount forSelect todo ≤ activity - 1 := by
          simp only [readyCount, List.countP_cons, hready, decide_true, ↓reduceIte] at hcount ⊢
          omega
        rw [if_pos hready]
        cases hx : exchange n.sock with
        | succeeds =>
          rw [if_pos rfl, tellsLeaving_cons_served hready hx]
          by_cases hheap : s.heap.next = 0
          · rw [if_pos hheap]
            have hmissed := Missed.keptByPass.pass forSelect exchange todo front (activity - 1)
              (s.lose front todo n) rfl (missed_of_silent ht.1 ht.2 hn).1
            exact iff_of_false (not_not_intro hmissed) fun h => h.1 hheap
          · rw [if_neg hheap, ih _ _ (s.serve front todo n) rfl hrest
              (Listed.kept.serve s front todo n hn hheap ht) hg (not_missed_serve hn hs)]
            exact (and_iff_right hheap).symm
        | recvFails =>
          have hfarewell : decide (Exchange.recvFails = Exchange.recvFails) = true := rfl
          rw [if_neg (by decide), hfarewell,
            tellsLeaving_cons_unserved (fun _ => by simp [hx]) (by simp [hx])]
          exact ih _ _ (s.removeClient front todo n true) rfl hrest
            (Listed.kept.remove s front todo n true hn ht) hg
            (not_missed_farewell ht.1 ht.2 hg hn hs)
        | sendFails =>
          have hsilent : decide (Exchange.sendFails = Exchange.recvFails) = false := rfl
          rw [if_neg (by decide), hsilent]
          have hmissed := Missed.keptByPass.pass forSelect exchange todo front (activity - 1)
            (s.removeClient front todo n false) rfl (missed_of_silent ht.1 ht.2 hn).2
          refine iff_of_false (not_not_intro hmissed) fun h => ?_
          exact h.sends n List.mem_cons_self hready hx
      · have hrest : readyCount forSelect todo ≤ activity := by
          simpa [readyCount, List.countP_cons, hready] using hcount
        rw [if_neg hready, tellsLeaving_cons_unserved (absurd · hready) fun h => hready h.1]
        exact ih _ _ s (by simpa using hn) hrest ht hg hs

end Pass

theorem expire_not_missed (now : TimeVal) :
    ∀ (todo : List ClientNode) (s : TcpServer), s.nodes = todo → s.Timely ∧ s.Listed →
      s.goodbye = true → ¬ s.Missed → ¬ (expire now todo s).Missed := by
  intro todo
  induction todo with
  | nil => intro s _ _ _ hs; exact hs
  | cons n todo ih =>
    intro s hn ht hg hs
    rw [expire]
    split_ifs
    · exact hs
    · exact ih _ rfl (Listed.kept.remove s [] todo n true hn ht) hg
        (not_missed_farewell ht.1 ht.2 hg hn hs)
    · exact hs

theorem waitTime_not_missed {s : TcpServer} (h : ¬ s.Missed) : ¬ s.waitTime.2.Missed := by
  rcases s.waitTime_eq with hw | hw
  · rw [hw]
    exact h
  · rw [hw]
    exact h

theorem beforePass_not_missed {s s₁ : TcpServer} (ht : s.Timely) {x : Round} (hx : Permitted s x)
    {fds : Finset ℕ} (hb : s.beforePass x fds = some s₁) (h : ¬ s.Missed) : ¬ s₁.Missed := by
  have hw := waitTime_not_missed h
  rw [beforePass] at hb
  split_ifs at hb
  · rcases addClientToTheList_cases (waitTime_free hx) hb with
      rfl | ⟨sock, -, hsock, ⟨rfl, -⟩ | ⟨rfl, -, -⟩⟩
    · exact hw
    · exact hw
    · refine not_missed_enrol (fun hmem => ?_) hw
      obtain ⟨n, hn, rfl⟩ := List.mem_map.mp hmem
      exact hsock ((Timely.kept.waitTime ht).opened n hn)
  · exact Option.some.inj hb ▸ hw

theorem goodbye_kept : Kept fun s => s.goodbye = true where
  tick := fun _ h => h
  serve := fun _ _ _ _ _ _ h => h
  lose := fun _ _ _ _ _ _ h => h
  remove := fun _ _ _ _ _ _ h => h
  refuse := fun _ _ _ _ h => h
  enrol := fun _ _ _ _ _ h => h

/-- Each client that leaves in the iteration, other than by timeout, is told so. -/
def BidsGoodbye (s : TcpServer) (x : Round) : Prop :=
  ∀ fds s₁, x.selected = .ready fds → s.beforePass x fds = some s₁ →
    TellsLeaving fds x.exchange (met s₁.tailData s₁.nodes) s₁.heap

end TcpServer

open TcpServer

/-- A run of a server with both callbacks. -/
structure CallbackRun extends ServerRun where
  welcomes : acceptFunction = true
  bids : goodbye = true

namespace CallbackRun
variable {r : CallbackRun} {pre : List Round} {x : Round} {s s' : TcpServer}

def GoodbyeExactlyOnce (r : CallbackRun) : Prop :=
  ∀ pre s, r.Top pre s → s.GoodbyesExact

theorem listed (r : CallbackRun) (h : r.Top pre s) : s.Timely ∧ s.Listed :=
  r.kept Listed.kept ⟨Timely.createServer _, by simp [Listed, Setup.start, createServer, socks,
    nodes]⟩ h

theorem saysGoodbye (r : CallbackRun) (h : r.Top pre s) : s.goodbye = true :=
  r.kept goodbye_kept r.bids h

theorem timeout_not_missed (h : r.Enters pre x s) (hs : ¬ s.Missed) :
    ¬ s.waitTime.2.checkExpiryOfClients.Missed := by
  have ht := Listed.kept.waitTime (r.listed h.top)
  rw [checkExpiryOfClients_eq]
  exact expire_not_missed _ _ { s.waitTime.2 with clock := s.waitTime.2.clock.rest } rfl
    (Listed.kept.tick _ ht) (goodbye_kept.waitTime (r.saysGoodbye h.top)) (waitTime_not_missed hs)

theorem body_not_missed_iff (h : r.Enters pre x s) (hs : ¬ s.Missed) :
    (∀ s', s.runServerBody x = some s' → ¬ s'.Missed) ↔ s.BidsGoodbye x := by
  cases hx : x.selected with
  | fails =>
    rw [runServerBody_fails hx]
    refine iff_of_true ?_ fun fds s₁ hsel _ => ?_
    · intro s' hs'
      exact Option.some.inj hs' ▸ waitTime_not_missed hs
    · rw [hx] at hsel
      cases hsel
  | timeout =>
    rw [runServerBody_timeout hx]
    refine iff_of_true ?_ fun fds s₁ hsel _ => ?_
    · intro s' hs'
      exact Option.some.inj hs' ▸ timeout_not_missed h hs
    · rw [hx] at hsel
      cases hsel
  | ready fds =>
    have hp := h.permitted
    have hpass : ∀ s₁, s.beforePass x fds = some s₁ →
        (¬ (s₁.receiveAndSend fds x.exchange fds.card).Missed ↔
          TellsLeaving fds x.exchange (met s₁.tailData s₁.nodes) s₁.heap) := by
      intro s₁ hs₁
      have ht := Listed.kept.beforePass (r.listed h.top) hp hs₁
      rw [receiveAndSend_eq s₁ (NonNull.kept.beforePass (r.nonNull h.top) hp hs₁)]
      exact pass_not_missed_iff _ _ _ s₁ rfl (readyCount_le ht.1.socks) ht
        (goodbye_kept.beforePass (r.saysGoodbye h.top) hp hs₁)
        (beforePass_not_missed (r.listed h.top).1 hp hs₁ hs)
    rw [runServerBody_ready hx (hp.ready fds hx).1]
    constructor
    · intro hbody fds' s₁ hsel hs₁
      rw [hx, Selected.ready.injEq] at hsel
      subst hsel
      exact (hpass s₁ hs₁).mp (hbody _ (by rw [hs₁]; rfl))
    · intro hbids s' hs'
      obtain ⟨s₁, hs₁, rfl⟩ := Option.map_eq_some_iff.mp hs'
      exact (hpass s₁ hs₁).mpr (hbids fds s₁ hx hs₁)

/-- Every client is told goodbye exactly once in exactly the runs in which no ready client's
send fails and no served client is left without a node. -/
theorem goodbyeExactlyOnce_iff (r : CallbackRun) :
    r.GoodbyeExactlyOnce ↔ ∀ pre x s, r.Enters pre x s → s.BidsGoodbye x := by
  have h0 : ¬ r.start.Missed := by
    intro hmissed
    obtain ⟨sock, k, hk, -⟩ := hmissed
    simp [ended, Setup.start, createServer, socks, nodes, goodbyes] at hk
  constructor
  · intro h pre x s hs
    have hmissed : ∀ pre s, r.Top pre s → ¬ s.Missed := fun pre s hs =>
      s.not_missed_iff.mpr (h pre s hs).left
    exact (body_not_missed_iff hs (hmissed pre s hs.top)).mp fun s' hb =>
      hmissed _ s' (hs.next hb)
  · intro h pre s hs
    have hkept := r.top_of_enters h0 (fun pre x s s' hs hP hC hb =>
      (body_not_missed_iff hs hP).mpr hC s' hb) h pre s hs
    exact ⟨(r.listed hs).2, s.not_missed_iff.mp hkept⟩

def sendFailsRound (sock : ℕ) : Round := ⟨.ready {sock}, none, fun _ => .sendFails⟩

/-- Client 4 is accepted, then its send fails. -/
def sendFailure : CallbackRun where
  toSetup := serverSide (readings id fun n => Nat.le_succ n)
  rounds := [acceptRound 4, sendFailsRound 4]
  permitted := by
    refine (permittedFrom_snoc [acceptRound 4] (sendFailsRound 4)).mpr ⟨?_, ?_⟩
    · refine (permittedFrom_snoc [] (acceptRound 4)).mpr ⟨permittedFrom_nil _, ?_⟩
      exact permitted_of_mayReport (by decide)
    · exact permitted_of_mayReport (by decide)
  welcomes := rfl
  bids := rfl

theorem not_goodbyeExactlyOnce_sendFailure : ¬ sendFailure.GoodbyeExactlyOnce := by
  intro h
  have hended : (sendFailure.toSetup.after sendFailure.rounds).map (fun s => s.ended 4) =
      some [0] := by decide
  obtain ⟨s, hs, hlist⟩ := Option.map_eq_some_iff.mp hended
  have hone := (h _ s ⟨List.prefix_rfl, hs⟩).left 4 0 (by simp [hlist])
  cases hone

end CallbackRun
end ChatProject
