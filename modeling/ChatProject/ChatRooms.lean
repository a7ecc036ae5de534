import ChatProject.SystemRuns

/-!
# What users see of each other

In every run of the whole system: under which names requests are sent, which address a group
has, and whose lines a chat window prints.
-/

namespace ChatProject
open Memory Protocol Run Function Linearizability ChatWindow

namespace SystemRun
variable {ι : Type} [DecidableEq ι] {r : SystemRun ι} {s : Sessions ι}

/-! ## The server's answers -/

/-- The act belongs to a call. -/
def OfCall : Act → Prop
  | .transfer .. | .unsent => True
  | .type _ | .scan | .say .. | .hear .. => False

/-- Windows of one group have one address, and while the pool has not gone round windows with
one address are windows of one group. -/
theorem window_address (hwhole : r.AllWhole) {pre : List (ι × Act)} (hpre : pre <+: r.acts) :
    ∃ s t, r.after pre = some s ∧ Serves s.chat.server t ∧
      ∀ i j, ∀ w ∈ s.windows i, ∀ v ∈ s.windows j,
        (w.groupName.val = v.groupName.val → w.groupIP = v.groupIP) ∧
        (t.created ≤ IPPoolAddr.capacity → w.groupIP = v.groupIP →
          w.groupName.val = v.groupName.val) := by
  obtain ⟨s, -, a, hs, hsound, -⟩ := sound hwhole hpre
  refine ⟨s, a.state, hs, hsound.refines.serves, ?_⟩
  intro i j w hw v hv
  have hgw := hsound.granted i w hw
  have hgv := hsound.granted j v hv
  constructor
  · intro hname
    rw [← hname] at hgv
    exact hgw.same hgv
  · intro hfew hip
    rw [← hip] at hgv
    exact hgw.name hsound.serials hfew hgv

theorem window_address_together : ∃ (r : SystemRun Bool) (s : Sessions Bool) (t : Tables)
    (v w : Window), r.after r.acts = some s ∧ Serves s.chat.server t ∧ s.windows true = [v] ∧
      s.windows false = [w] ∧ v.groupIP = w.groupIP := by
  obtain ⟨r, s, a, ip, h, -, -, -, hmenuA, hmenuC⟩ := together_joins
  obtain ⟨s', t, hs', hserves, haddress⟩ := window_address h.whole (List.prefix_refl r.acts)
  obtain rfl := Option.some.inj (hs'.symm.trans h.after)
  have hv : windowOf ip nameA ∈ s'.windows true := by simp [hmenuA.windows]
  have hw : windowOf ip nameC ∈ s'.windows false := by simp [hmenuC.windows]
  exact ⟨r, s', t, windowOf ip nameA, windowOf ip nameC, hs', hserves, hmenuA.windows,
    hmenuC.windows, (haddress true false _ hv _ hw).1 rfl⟩

/-- The datagram was sent from a window of that user and group, with the line that was typed. -/
def Said (r : SystemRun ι) (pre : List (ι × Act)) (d : Datagram ι) : Prop :=
  ∃ before k read, Occurs pre before (d.client, .say k read) ∧
    ∃ s w sender, r.after before = some s ∧ (s.windows d.client)[k]? = some w ∧
      w.sender = some sender ∧ d.userName = w.userName ∧ d.groupName = w.groupName ∧
      d.line = sender.afterFgets read

theorem said (hwhole : r.AllWhole) {pre : List (ι × Act)} (hpre : pre <+: r.acts)
    {s : Sessions ι} (hs : r.after pre = some s) {d : Datagram ι} (hd : d ∈ s.network) :
    r.Said pre d := by
  induction pre using List.reverseRecOn generalizing s with
  | nil =>
    obtain rfl := Option.some.inj hs
    cases hd
  | append_singleton pre e ih =>
    obtain ⟨s₀, -, a, hs₀, hsound, -⟩ := sound hwhole (Occurs.history hpre)
    rw [r.after_snoc hs₀] at hs
    rcases Sessions.step_network hs d hd with hold | ⟨k, read, w, sender, he, hk, hsender, hwin⟩
    · obtain ⟨before, k, read, hocc, hwin⟩ := ih (Occurs.history hpre) hs₀ hold
      exact ⟨before, k, read, hocc.mono (List.prefix_append _ _), hwin⟩
    · exact ⟨pre, k, read, he ▸ List.prefix_rfl, s₀, w, sender, hs₀, hk, hsender, hwin⟩

theorem groupAddress_inj {t : Tables} {ip ip' groupName groupName' : CStr}
    (h : t.Granted ip groupName) (h' : t.Granted ip' groupName') {port : ℤ}
    (haddress : groupAddress ip port = groupAddress ip' port) : ip = ip' := by
  obtain ⟨k, hk, rfl⟩ := h.pool
  obtain ⟨k', hk', rfl⟩ := h'.pool
  have haddr := congrArg SockAddr.addr haddress
  simp only [groupAddress, inetAddr_addressAt k hk, inetAddr_addressAt k' hk'] at haddr
  have hnumber : k = k' := by simpa using haddr
  rw [hnumber]

/-- While the pool has not gone round, a datagram is sent to the address of a window exactly if
it is sent from a window of the same group. -/
theorem address_iff {s : Sessions ι} {a : Atomic ι Tables ClientCall Decoded} {port : ℤ}
    (h : s.Sound port a) (hplain : s.Plain) (hfew : a.state.created ≤ IPPoolAddr.capacity)
    {d : Datagram ι}
    (hd : d ∈ s.network) {i : ι} {w : Window} (hw : w ∈ s.windows i) {l : Listener}
    (hl : w.listener = some l) :
    d.address = l.address ↔ d.groupName.val = w.groupName.val := by
  obtain ⟨ip, hip, haddress⟩ := (h.network hplain d hd).granted
  have hgranted := h.granted i w hw
  rw [haddress, (h.windows hplain i w hw).address l hl]
  constructor
  · intro heq
    obtain rfl := groupAddress_inj hip hgranted heq
    exact hip.name h.serials hfew hgranted
  · intro hname
    rw [hname] at hip
    rw [hip.same hgranted]

/-- A datagram that the network brings is printed in a window of its group, and while the pool
has not gone round in no other. -/
theorem window_hears (hwhole : r.AllWhole) {pre : List (ι × Act)} {i : ι} {k m : ℕ}
    (hocc : Occurs r.acts pre (i, .hear k m)) {s : Sessions ι} (hs : r.after pre = some s)
    (hplain : s.Plain) {w : Window} (hk : (s.windows i)[k]? = some w) {l : Listener}
    (hl : w.listener = some l)
    {d : Datagram ι} (hm : s.network[m]? = some d) :
    ∃ s' t w' l', r.after (pre ++ [(i, .hear k m)]) = some s' ∧ Serves s'.chat.server t ∧
      (s'.windows i)[k]? = some w' ∧ w'.listener = some l' ∧
      (d.groupName.val = w.groupName.val → l'.printed = l.printed ++ d.text) ∧
      (t.created ≤ IPPoolAddr.capacity → d.groupName.val ≠ w.groupName.val → l' = l) := by
  obtain ⟨a, hsound⟩ := sound_at hwhole hocc.history hs
  have hw := List.mem_of_getElem? hk
  have hd := hsound.network hplain d (List.mem_of_getElem? hm)
  have hnext := r.after_snoc hs (i, .hear k m)
  have hstep : s.hear i k m = if d.address = l.address then
      s.setWindow i k { w with listener := some (l.receive d.bytes) } else s := by
    simp only [Sessions.hear, hk, hm, hl]
  by_cases haddress : d.address = l.address
  · rw [if_pos haddress] at hstep
    refine ⟨_, a.state, { w with listener := some (l.receive d.bytes) }, l.receive d.bytes, hnext,
      ?_, ?_, rfl, ?_, ?_⟩
    · rw [Sessions.hear_chat]
      exact hsound.refines.serves
    · obtain ⟨hlt, -⟩ := List.getElem?_eq_some_iff.mp hk
      simp [hstep, Sessions.setWindow, hlt]
    · intro _
      obtain ⟨beyond, hbytes⟩ := hd.bytes
      exact Listener.receive_printed hd.zero hd.length hbytes
    · intro hfew hne
      have hmem := List.mem_of_getElem? hm
      exact absurd ((address_iff hsound hplain hfew hmem hw hl).mp haddress) hne
  · rw [if_neg haddress] at hstep
    refine ⟨_, a.state, w, l, hnext, ?_, ?_, hl, ?_, fun _ _ => rfl⟩
    · rw [Sessions.hear_chat]
      exact hsound.refines.serves
    · rw [hstep, hk]
    · intro hname
      obtain ⟨ip, hip, haddress'⟩ := hd.granted
      rw [hname] at hip
      refine absurd ?_ haddress
      rw [haddress', (hsound.windows hplain i w hw).address l hl, hip.same (hsound.granted i w hw)]

theorem window_hears_together : ∃ (r : SystemRun Bool) (pre : List (Bool × Act))
    (s' : Sessions Bool) (w' : Window) (l l' : Listener) (d : Datagram Bool),
      Occurs r.acts pre (false, .hear 0 0) ∧ d.client = true ∧
      r.after (pre ++ [(false, .hear 0 0)]) = some s' ∧ (s'.windows false)[0]? = some w' ∧
      w'.listener = some l' ∧ l'.printed = l.printed ++ d.text := by
  obtain ⟨r, s, a, acts, ip, v, d, h, -, -, hgranted, hplain, -, hw, hnetwork, hclient, hname,
    -⟩ := together_says
  obtain ⟨r', hcont, h'⟩ :=
    h.snoc (e := (false, .hear 0 0)) trivial trivial rfl (h.sound.hear _ _)
  have hl := (windowOf_programs hgranted (c := 99) (by decide) rfl).1
  obtain ⟨s', t, w', l', hs', -, hk', hl', hprinted, -⟩ :=
    window_hears h'.whole hcont.occurs ((hcont.after r.acts).trans h.after) hplain
      (w := windowOf ip nameC) (by rw [hw]; rfl) hl (d := d) (by rw [hnetwork]; rfl)
  exact ⟨r', r.acts, s', w', _, l', d, hcont.occurs, hclient, hs', hk', hl',
    hprinted (by rw [hname]; rfl)⟩

end SystemRun
end ChatProject
