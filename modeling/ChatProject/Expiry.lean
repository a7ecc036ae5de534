import ChatProject.ClientTimes

/-!
# The order of the client list

Expiry stops at the first client that is not due, so it relies on a list ordered by
deadlines. Accepting a client keeps the order and so does expiry. A pass over the clients
puts the served ones, the last one first, before all others, although their new deadlines
are the latest: the order survives only where no client that stays has an earlier one.
-/

namespace ChatProject
open Memory TimeVal Run

theorem pairwise_reverse_append_iff {α : Type} {R : α → α → Prop} (hrefl : ∀ a, R a a)
    {moved rest : List α} (hmoved : moved.Pairwise R) (hrest : rest.Pairwise R) :
    (moved.reverse ++ rest).Pairwise R ↔ ∀ a ∈ moved, ∀ b ∈ moved ++ rest, R a b := by
  rw [List.pairwise_append, List.pairwise_reverse]
  constructor
  · rintro ⟨hflip, -, hcross⟩ a ha b hb
    rcases List.mem_append.mp hb with hb | hb
    · exact List.Pairwise.forall_of_forall_of_flip (fun x _ => hrefl x) hmoved hflip ha hb
    · exact hcross a (List.mem_reverse.mpr ha) b hb
  · intro h
    refine ⟨?_, hrest, ?_⟩
    · refine hmoved.imp_of_mem ?_
      intro a b ha hb _
      exact h b hb a (List.mem_append_left _ ha)
    · intro a ha b hb
      exact h a (List.mem_reverse.mp ha) b (List.mem_append_right _ hb)

namespace TcpServer

def EarlierOrEqual (a b : ClientNode) : Prop := a.timeout.micros ≤ b.timeout.micros

instance (a b : ClientNode) : Decidable (EarlierOrEqual a b) :=
  inferInstanceAs (Decidable (_ ≤ _))

theorem EarlierOrEqual.refl (n : ClientNode) : EarlierOrEqual n n := le_refl n.timeout.micros

def Ordered (s : TcpServer) : Prop := s.nodes.Pairwise EarlierOrEqual

def served (forSelect : Finset ℕ) (exchange : ℕ → Exchange) (tail : Ptr) (wait : TimeVal) :
    List ClientNode → Clock → Heap → List ClientNode
  | [], _, _ => []
  | n :: todo, c, h =>
    if n.1 = tail then []
    else if n.sock ∈ forSelect ∧ exchange n.sock = .succeeds then
      if h.next = 0 then served forSelect exchange tail wait todo c.rest h.rest
      else (n.1, ⟨n.sock, timeradd c.now wait⟩) ::
        served forSelect exchange tail wait todo c.rest h.rest
    else served forSelect exchange tail wait todo c h

/-- The clients that a pass leaves where they are: they are not ready, or it stops before
them at a client whose record is where the tail sentinel points. -/
def unserved (forSelect : Finset ℕ) (tail : Ptr) : List ClientNode → List ClientNode
  | [] => []
  | n :: todo =>
    if n.1 = tail then n :: todo
    else if n.sock ∈ forSelect then unserved forSelect tail todo
    else n :: unserved forSelect tail todo

def readyCount (forSelect : Finset ℕ) (ns : List ClientNode) : ℕ :=
  ns.countP fun n => n.sock ∈ forSelect

section Closed
variable {forSelect : Finset ℕ} {exchange : ℕ → Exchange} {tail : Ptr} {wait : TimeVal}

theorem served_of_none_ready {todo : List ClientNode} (h : ∀ n ∈ todo, n.sock ∉ forSelect)
    (c : Clock) (heap : Heap) : served forSelect exchange tail wait todo c heap = [] := by
  induction todo with
  | nil => rfl
  | cons n todo ih =>
    have hn := h n (by simp)
    have ih' := ih fun m hm => h m (List.mem_cons_of_mem _ hm)
    simp [served, hn, ih']

theorem unserved_of_none_ready {todo : List ClientNode} (h : ∀ n ∈ todo, n.sock ∉ forSelect) :
    unserved forSelect tail todo = todo := by
  induction todo with
  | nil => rfl
  | cons n todo ih =>
    have hn := h n (by simp)
    have ih' := ih fun m hm => h m (List.mem_cons_of_mem _ hm)
    simp [unserved, hn, ih']

theorem pass_nodes :
    ∀ (todo front : List ClientNode) (activity : ℕ) (s : TcpServer), s.nodes = front ++ todo →
      readyCount forSelect todo ≤ activity →
      (pass forSelect exchange front todo activity s).nodes =
        (served forSelect exchange s.tailData s.maxWaitTime todo s.clock s.heap).reverse ++
          (front ++ unserved forSelect s.tailData todo) := by
  intro todo
  induction todo with
  | nil => intro front activity s hs _; simpa [pass, served, unserved] using hs
  | cons n todo ih =>
    intro front activity s hs hcount
    rw [pass]
    by_cases hstop : n.1 = s.tailData ∨ activity = 0
    · rw [if_pos hstop, hs]
      rcases hstop with hstop | hzero
      · simp [served, unserved, hstop]
      · have hnone : ∀ m ∈ n :: todo, m.sock ∉ forSelect := by
          rw [hzero, Nat.le_zero, readyCount, List.countP_eq_zero] at hcount
          simpa using hcount
        rw [served_of_none_ready hnone, unserved_of_none_ready hnone]
        rfl
    · obtain ⟨htail, -⟩ := not_or.mp hstop
      rw [if_neg hstop]
      by_cases hready : n.sock ∈ forSelect
      · have hrest : readyCount forSelect todo ≤ activity - 1 := by
          simp only [readyCount, List.countP_cons, hready, decide_true, ↓reduceIte] at hcount ⊢
          omega
        rw [if_pos hready]
        by_cases hx : exchange n.sock = .succeeds
        · rw [if_pos hx]
          by_cases hheap : s.heap.next = 0
          · rw [if_pos hheap, ih front _ (s.lose front todo n) rfl hrest]
            simp only [served, unserved, htail, hready, hx, hheap, and_self, ↓reduceIte]
            rfl
          · rw [if_neg hheap, ih _ _ (s.serve front todo n) rfl hrest]
            simp only [served, unserved, htail, hready, hx, hheap, and_self, ↓reduceIte,
              List.reverse_cons, List.append_assoc, List.cons_append, List.nil_append]
            rfl
        · rw [if_neg hx, ih front _ (s.removeClient front todo n _) rfl hrest]
          simp only [served, unserved, htail, hready, hx, and_false, ↓reduceIte]
          rfl
      · have hrest : readyCount forSelect todo ≤ activity := by
          simpa [readyCount, List.countP_cons, hready] using hcount
        rw [if_neg hready, ih _ _ s (by simpa using hs) hrest]
        simp only [served, unserved, htail, hready, false_and, ↓reduceIte, List.append_assoc,
          List.singleton_append]

theorem readyCount_le {ns : List ClientNode} (h : (ns.map ClientNode.sock).Nodup) :
    readyCount forSelect ns ≤ forSelect.card := by
  have hsub : ((ns.filter fun n => n.sock ∈ forSelect).map ClientNode.sock).toFinset ⊆
      forSelect := by
    intro sock hsock
    simp only [List.mem_toFinset, List.mem_map, List.mem_filter, decide_eq_true_eq] at hsock
    obtain ⟨n, ⟨-, hn⟩, rfl⟩ := hsock
    exact hn
  have hnodup : ((ns.filter fun n => n.sock ∈ forSelect).map ClientNode.sock).Nodup :=
    h.sublist (List.filter_sublist.map _)
  have hcard := Finset.card_le_card hsub
  rw [List.toFinset_card_of_nodup hnodup, List.length_map] at hcard
  rwa [readyCount, List.countP_eq_length_filter]

theorem le_served {todo : List ClientNode} {c : Clock} {heap : Heap} {a : ClientNode}
    (ha : a ∈ served forSelect exchange tail wait todo c heap) :
    c.now.micros + wait.micros ≤ a.timeout.micros := by
  induction todo generalizing c heap with
  | nil => simp [served] at ha
  | cons n todo ih =>
    rw [served] at ha
    split_ifs at ha with htail hready hheap
    · simp at ha
    · have h := ih ha
      have hle := c.now_le_rest
      omega
    · rcases List.mem_cons.mp ha with rfl | ha
      · exact (micros_timeradd _ _).ge
      · have h := ih ha
        have hle := c.now_le_rest
        omega
    · exact ih ha

/-- Clients served later get later deadlines. -/
theorem served_ordered (todo : List ClientNode) (c : Clock) (heap : Heap) :
    (served forSelect exchange tail wait todo c heap).Pairwise EarlierOrEqual := by
  induction todo generalizing c heap with
  | nil => exact List.Pairwise.nil
  | cons n todo ih =>
    rw [served]
    split_ifs with htail hready hheap
    · exact List.Pairwise.nil
    · exact ih _ _
    · refine List.pairwise_cons.mpr ⟨?_, ih _ _⟩
      intro a ha
      have h := le_served ha
      have hle := c.now_le_rest
      change (timeradd c.now wait).micros ≤ a.timeout.micros
      rw [micros_timeradd]
      omega
    · exact ih _ _

theorem unserved_sublist (todo : List ClientNode) :
    (unserved forSelect tail todo).Sublist todo := by
  induction todo with
  | nil => exact List.Sublist.slnil
  | cons n todo ih =>
    rw [unserved]
    split_ifs
    · exact List.Sublist.refl _
    · exact ih.cons _
    · exact ih.cons_cons _

end Closed

/-- No client that stays in the list has a deadline before the one that a served client is
given. -/
def KeepsOrder (s : TcpServer) (forSelect : Finset ℕ) (exchange : ℕ → Exchange) : Prop :=
  ∀ a ∈ served forSelect exchange s.tailData s.maxWaitTime s.nodes s.clock s.heap,
    ∀ b ∈ served forSelect exchange s.tailData s.maxWaitTime s.nodes s.clock s.heap ++
      unserved forSelect s.tailData s.nodes, EarlierOrEqual a b

theorem receiveAndSend_ordered_iff {s : TcpServer} (hnull : s.NonNull) (ht : s.Timely)
    (h : s.Ordered) (forSelect : Finset ℕ) (exchange : ℕ → Exchange) :
    (s.receiveAndSend forSelect exchange forSelect.card).Ordered ↔
      s.KeepsOrder forSelect exchange := by
  rw [Ordered, receiveAndSend_eq s hnull, pass_nodes _ _ _ _ rfl (readyCount_le ht.socks),
    List.nil_append]
  exact pairwise_reverse_append_iff EarlierOrEqual.refl (served_ordered _ _ _)
    (h.sublist (unserved_sublist _))

theorem Ordered.enrol {s : TcpServer} (h : s.Ordered) (ht : s.Timely) (sock : ℕ) :
    (s.enrol sock).Ordered := by
  change (s.nodes ++ [s.enrolled sock]).Pairwise EarlierOrEqual
  rw [List.pairwise_append]
  refine ⟨h, List.pairwise_singleton _ _, ?_⟩
  intro n hn m hm
  obtain ⟨t, hact⟩ := ht.active n hn
  have hpast := hact.past
  rw [List.mem_singleton.mp hm]
  change n.timeout.micros ≤ (timeradd s.clock.now s.maxWaitTime).micros
  rw [hact.timeout, micros_timeradd, micros_timeradd]
  omega

theorem Ordered.addClientToTheList {s s' : TcpServer} (h : s.Ordered) (ht : s.Timely)
    {conn : Option ℕ} (hfree : ∀ sock, conn = some sock → sock ∉ s.descriptors)
    (ha : s.addClientToTheList conn = some s') : s'.Ordered := by
  rcases addClientToTheList_cases hfree ha with
    rfl | ⟨sock, -, -, ⟨rfl, -⟩ | ⟨rfl, -, -⟩⟩
  · exact h
  · exact h
  · exact h.enrol ht sock

theorem Ordered.waitTime {s : TcpServer} (h : s.Ordered) : s.waitTime.2.Ordered := by
  rw [Ordered, waitTime_nodes]
  exact h

theorem Ordered.beforePass {s s₁ : TcpServer} (h : s.Ordered) (ht : s.Timely) {x : Round}
    (hx : Permitted s x) {fds : Finset ℕ} (hb : s.beforePass x fds = some s₁) : s₁.Ordered := by
  rw [TcpServer.beforePass] at hb
  split_ifs at hb
  · exact h.waitTime.addClientToTheList (Timely.kept.waitTime ht) (waitTime_free hx) hb
  · exact Option.some.inj hb ▸ h.waitTime

def Meets (s : TcpServer) (x : Round) : Prop :=
  match x.selected with
  | .fails => True
  | .timeout => ∀ n ∈ s.nodes, s.expiryTime.after n.timeout → n.1 ≠ s.tailData
  | .ready fds => ∀ s₁, s.beforePass x fds = some s₁ → s₁.KeepsOrder fds x.exchange

theorem waitTime_tailData (s : TcpServer) : s.waitTime.2.tailData = s.tailData := by
  rcases s.waitTime_eq with h | h
  · rw [h]
  · rw [h]
    rfl

theorem expiryTime_normalised (s : TcpServer) : s.expiryTime.Normalised :=
  s.waitTime.2.clock.now_normalised

theorem due_iff {s : TcpServer} (hw : s.maxWaitTime.Normalised) (ht : s.Timely) {n : ClientNode}
    (hn : n ∈ s.nodes) :
    s.expiryTime.after n.timeout = true ↔ n.timeout.micros < s.expiryTime.micros := by
  obtain ⟨t, hact⟩ := ht.active n hn
  rw [after_iff s.expiryTime_normalised
    (hact.timeout ▸ normalised_timeradd hact.normalised hw)]

theorem expired_nodes (s : TcpServer) :
    s.waitTime.2.checkExpiryOfClients.nodes = s.nodes.dropWhile fun n =>
      decide (n.1 ≠ s.tailData) && s.expiryTime.after n.timeout := by
  rw [checkExpiry_nodes, waitTime_nodes, waitTime_tailData]
  rfl

theorem not_due_of_mem_dropWhile {q due : ClientNode → Bool} {ns : List ClientNode}
    (hq : ∀ n ∈ ns, due n → q n) (hns : ns.Pairwise fun a b => due b → due a) :
    ∀ n ∈ ns.dropWhile q, due n = false := by
  induction ns with
  | nil => simp
  | cons m ns ih =>
    obtain ⟨hm, hrest⟩ := List.pairwise_cons.mp hns
    rw [List.dropWhile_cons]
    by_cases hqm : q m
    · rw [if_pos hqm]
      exact ih (fun n hn => hq n (List.mem_cons_of_mem _ hn)) hrest
    · rw [if_neg hqm]
      have hnot : ¬ due m := fun h => hqm (hq m List.mem_cons_self h)
      intro n hn
      rw [← Bool.not_eq_true]
      rcases List.mem_cons.mp hn with rfl | hn
      · exact hnot
      · exact fun h => hnot (hm n hn h)

end TcpServer

open TcpServer

namespace ServerRun

/-- The list is ordered at the top of the loop, and expiry leaves no client that is due. -/
structure IdleExpired (r : ServerRun) : Prop where
  ordered : ∀ pre s, r.Top pre s → s.Ordered
  expired : ∀ pre x s s', r.Enters pre x s → x.selected = .timeout →
    s.runServerBody x = some s' → ∀ n ∈ s'.nodes, s.expiryTime.micros ≤ n.timeout.micros

variable {r : ServerRun} {pre : List Round} {x : Round} {s s' : TcpServer}

theorem Enters.maxWaitTime_normalised (h : r.Enters pre x s) : s.maxWaitTime.Normalised :=
  (r.fixed h.top).maxWaitTime ▸ normalised_ofSeconds _

/-- Expiry leaves no due client exactly if no due client stops it. -/
theorem expired_iff (h : r.Enters pre x s) (ho : s.Ordered) (hx : x.selected = .timeout) :
    (∀ n ∈ s.waitTime.2.checkExpiryOfClients.nodes, s.expiryTime.micros ≤ n.timeout.micros) ↔
      s.Meets x := by
  have ht := r.timely h.top
  have hw := h.maxWaitTime_normalised
  rw [expired_nodes, Meets, hx]
  constructor
  · intro hleft n hn hdue htail
    have hmem : n ∈ s.nodes.dropWhile fun n =>
        decide (n.1 ≠ s.tailData) && s.expiryTime.after n.timeout := by
      by_contra hgone
      simpa [htail] using mem_of_not_mem_dropWhile hn hgone
    have hle := hleft n hmem
    have hlt := (due_iff hw ht hn).mp hdue
    omega
  · intro hmeets n hn
    have hmem : n ∈ s.nodes := (List.dropWhile_sublist _).subset hn
    have hpairs : s.nodes.Pairwise fun a b =>
        s.expiryTime.after b.timeout = true → s.expiryTime.after a.timeout = true := by
      refine ho.imp_of_mem ?_
      intro a b ha hb hab hdue
      have hlt := (due_iff hw ht hb).mp hdue
      have hle : a.timeout.micros ≤ b.timeout.micros := hab
      exact (due_iff hw ht ha).mpr (by omega)
    have hnot := not_due_of_mem_dropWhile
      (fun m hm hdue => by simp [hmeets m hm hdue, hdue]) hpairs n hn
    by_contra hlt
    exact absurd ((due_iff hw ht hmem).mpr (by omega)) (by simp [hnot])

theorem ready_ordered_iff (h : r.Enters pre x s) (ho : s.Ordered) {fds : Finset ℕ}
    (hx : x.selected = .ready fds) {s₁ : TcpServer} (hs₁ : s.beforePass x fds = some s₁) :
    ∃ s', s.runServerBody x = some s' ∧ (s'.Ordered ↔ s₁.KeepsOrder fds x.exchange) := by
  have hp := h.permitted
  refine ⟨_, by rw [runServerBody_ready hx (hp.ready fds hx).1, hs₁]; rfl, ?_⟩
  exact receiveAndSend_ordered_iff (NonNull.kept.beforePass (r.nonNull h.top) hp hs₁)
    (Timely.kept.beforePass (r.timely h.top) hp hs₁) (ho.beforePass (r.timely h.top) hp hs₁) _ _

theorem body_ordered (h : r.Enters pre x s) (ho : s.Ordered) (hm : s.Meets x)
    (hb : s.runServerBody x = some s') : s'.Ordered := by
  cases hx : x.selected with
  | fails =>
    rw [runServerBody_fails hx, Option.some.injEq] at hb
    exact hb ▸ ho.waitTime
  | timeout =>
    rw [runServerBody_timeout hx] at hb
    rw [← Option.some.inj hb, Ordered, expired_nodes]
    exact ho.sublist (List.dropWhile_sublist _)
  | ready fds =>
    have hmap := hb
    rw [runServerBody_ready hx (h.permitted.ready fds hx).1, Option.map_eq_some_iff] at hmap
    obtain ⟨s₁, hs₁, -⟩ := hmap
    obtain ⟨s'', hb'', hiff⟩ := ready_ordered_iff h ho hx hs₁
    rw [hb, Option.some.injEq] at hb''
    rw [Meets, hx] at hm
    exact hb'' ▸ hiff.mpr (hm s₁ hs₁)

theorem meets_of_idleExpired (h : r.IdleExpired) (hs : r.Enters pre x s) : s.Meets x := by
  have ho := h.ordered pre s hs.top
  cases hx : x.selected with
  | fails =>
    rw [Meets, hx]
    trivial
  | timeout =>
    have hb := runServerBody_timeout (s := s) hx
    exact (expired_iff hs ho hx).mp (h.expired pre x s _ hs hx hb)
  | ready fds =>
    rw [Meets, hx]
    intro s₁ hs₁
    obtain ⟨s', hb, hiff⟩ := ready_ordered_iff hs ho hx hs₁
    exact hiff.mp (h.ordered _ s' (hs.next hb))

/-- The list stays ordered, and expiry removes all due clients, in exactly the runs in
which every pass keeps the order and no due client stops an expiry. -/
theorem idleExpired_iff (r : ServerRun) :
    r.IdleExpired ↔ ∀ pre x s, r.Enters pre x s → s.Meets x := by
  constructor
  · intro h pre x s hs
    exact meets_of_idleExpired h hs
  · intro h
    have hordered : ∀ pre s, r.Top pre s → s.Ordered :=
      r.top_of_enters List.Pairwise.nil (fun _ _ _ _ hs ho hm hb => body_ordered hs ho hm hb) h
    refine ⟨hordered, ?_⟩
    intro pre x s s' hs hx hb
    rw [runServerBody_timeout hx] at hb
    rw [← Option.some.inj hb]
    exact (expired_iff hs (hordered pre s hs.top) hx).mpr (h pre x s hs)

def requestAfterAccepts : ServerRun where
  toSetup := serverSide (readings id fun n => Nat.le_succ n)
  rounds := [acceptRound 4, acceptRound 5, serveRound 4]
  permitted := by
    refine (permittedFrom_snoc [acceptRound 4, acceptRound 5] (serveRound 4)).mpr ⟨?_, ?_⟩
    · refine (permittedFrom_snoc [acceptRound 4] (acceptRound 5)).mpr ⟨?_, ?_⟩
      · refine (permittedFrom_snoc [] (acceptRound 4)).mpr ⟨permittedFrom_nil _, ?_⟩
        exact permitted_of_mayReport (by decide)
      · exact permitted_of_mayReport (by decide)
    · exact permitted_of_mayReport (by decide)

/-- Client 4, with the deadline 304, is then before client 5 with the deadline 302. -/
theorem idleExpired_fails : ¬ requestAfterAccepts.IdleExpired := by
  intro h
  have hnodes : (requestAfterAccepts.toSetup.after requestAfterAccepts.rounds).map nodes =
      some [(1, ⟨4, ⟨304, 0⟩⟩), (3, ⟨5, ⟨302, 0⟩⟩)] := by decide
  obtain ⟨s, hs, hn⟩ := Option.map_eq_some_iff.mp hnodes
  have hordered := h.ordered _ s ⟨List.prefix_rfl, hs⟩
  rw [Ordered, hn] at hordered
  exact absurd ((List.pairwise_cons.mp hordered).1 _ (List.mem_singleton_self _)) (by decide)

end ServerRun
end ChatProject
