import ChatProject.ServerRuns
import Mathlib.Data.List.TakeWhile

/-!
# Deadlines of the connected clients

The deadline of a listed client is the reading of the clock at its last activity, its
admission or its last served exchange, plus the waiting time of the server. The activity is
read off the events of the run by the client's socket, which no other listed client has.
-/

namespace ChatProject
open Memory TimeVal Run

def Event.activityOf (sock : ℕ) : Event → Option TimeVal
  | .accepted sock' t | .served sock' t => if sock' = sock then some t else none
  | _ => none

/-- The events come with the latest one first. -/
def lastActivity (sock : ℕ) (events : List Event) : Option TimeVal :=
  events.findSome? (Event.activityOf sock)

section LastActivity
variable (sock sock' : ℕ) (t : TimeVal) (events : List Event)

@[simp] theorem lastActivity_served :
    lastActivity sock (.served sock' t :: events) =
      if sock' = sock then some t else lastActivity sock events := by
  simp only [lastActivity, List.findSome?_cons, Event.activityOf]
  split_ifs <;> rfl

@[simp] theorem lastActivity_accepted :
    lastActivity sock (.accepted sock' t :: events) =
      if sock' = sock then some t else lastActivity sock events := by
  simp only [lastActivity, List.findSome?_cons, Event.activityOf]
  split_ifs <;> rfl

@[simp] theorem lastActivity_welcome :
    lastActivity sock (.welcome sock' :: events) = lastActivity sock events := rfl

@[simp] theorem lastActivity_goodbye :
    lastActivity sock (.goodbye sock' :: events) = lastActivity sock events := rfl

end LastActivity

theorem Clock.now_le_rest (c : Clock) : c.now.micros ≤ c.rest.now.micros := c.mono 0

theorem Clock.now_normalised (c : Clock) : c.now.Normalised := c.normalised 0

namespace TcpServer

/-- The client's deadline is its last activity plus the waiting time. -/
structure ActiveAt (s : TcpServer) (n : ClientNode) (t : TimeVal) : Prop where
  last : lastActivity n.sock s.events = some t
  normalised : t.Normalised
  past : t.micros ≤ s.clock.now.micros
  timeout : n.timeout = timeradd t s.maxWaitTime

structure Timely (s : TcpServer) : Prop where
  socks : (s.nodes.map ClientNode.sock).Nodup
  opened : ∀ n ∈ s.nodes, n.sock ∈ s.descriptors
  active : ∀ n ∈ s.nodes, ∃ t, s.ActiveAt n t

theorem nodup_split {front todo : List ClientNode} {n : ClientNode}
    (h : ((front ++ n :: todo).map ClientNode.sock).Nodup) :
    ((front ++ todo).map ClientNode.sock).Nodup ∧ ∀ m ∈ front ++ todo, n.sock ≠ m.sock := by
  rw [List.map_append, List.map_cons, List.nodup_middle, List.nodup_cons, ← List.map_append] at h
  exact ⟨h.2, fun m hm he => h.1 (he ▸ List.mem_map_of_mem hm)⟩

namespace Timely
variable {s : TcpServer} {front todo : List ClientNode} {n : ClientNode}

theorem tick (h : s.Timely) : ({ s with clock := s.clock.rest } : TcpServer).Timely where
  socks := h.socks
  opened := h.opened
  active := by
    intro m hm
    obtain ⟨t, ht⟩ := h.active m hm
    exact ⟨t, ht.last, ht.normalised, ht.past.trans s.clock.now_le_rest, ht.timeout⟩

theorem others (h : s.Timely) (hn : s.nodes = front ++ n :: todo) {m : ClientNode}
    (hm : m ∈ front ++ todo) :
    m.sock ∈ s.descriptors ∧ ∃ t, ∀ ns, ((s.exchanged n).withNodes ns).ActiveAt m t := by
  have hmem : m ∈ s.nodes := hn ▸ mem_split n hm
  have hne := (nodup_split (hn ▸ h.socks)).2 m hm
  obtain ⟨t, ht⟩ := h.active m hmem
  refine ⟨h.opened m hmem, t, fun ns => ⟨?_, ht.normalised, ?_, ht.timeout⟩⟩
  · simp [exchanged, withNodes, hne, ht.last]
  · exact ht.past.trans s.clock.now_le_rest

theorem lose (h : s.Timely) (hn : s.nodes = front ++ n :: todo) :
    (s.lose front todo n).Timely where
  socks := (nodup_split (hn ▸ h.socks)).1
  opened := fun m hm => (h.others hn hm).1
  active := by
    intro m hm
    obtain ⟨-, t, ht⟩ := h.others hn hm
    exact ⟨t, ht _⟩

theorem serve (h : s.Timely) (hn : s.nodes = front ++ n :: todo) :
    (s.serve front todo n).Timely where
  socks := by
    have hs := h.socks
    rw [hn, List.map_append, List.map_cons, List.nodup_middle, ← List.map_append] at hs
    exact hs
  opened := by
    intro m hm
    rcases List.mem_cons.mp hm with rfl | hm
    · exact h.opened n (by simp [hn])
    · exact (h.others hn hm).1
  active := by
    intro m hm
    rcases List.mem_cons.mp hm with rfl | hm
    · refine ⟨s.clock.now, ?_, s.clock.now_normalised, s.clock.now_le_rest, rfl⟩
      simp [TcpServer.serve, withNodes, exchanged, refreshed, ClientNode.sock]
    · obtain ⟨-, t, ht⟩ := h.others hn hm
      exact ⟨t, ht _⟩

theorem removeClient (h : s.Timely) (hn : s.nodes = front ++ n :: todo) (farewell : Bool) :
    (s.removeClient front todo n farewell).Timely where
  socks := (nodup_split (hn ▸ h.socks)).1
  opened := by
    intro m hm
    have hne := (nodup_split (hn ▸ h.socks)).2 m hm
    exact Finset.mem_erase.mpr ⟨Ne.symm hne, h.opened m (hn ▸ mem_split n hm)⟩
  active := by
    intro m hm
    obtain ⟨t, ht⟩ := h.active m (hn ▸ mem_split n hm)
    refine ⟨t, ?_, ht.normalised, ht.past, ht.timeout⟩
    by_cases hg : (farewell && s.goodbye) = true
    · simp [TcpServer.removeClient, hg, ht.last]
    · simp [TcpServer.removeClient, hg, ht.last]

theorem refuse (h : s.Timely) (sock : ℕ) : (s.refuse sock).Timely where
  socks := h.socks
  opened := h.opened
  active := by
    intro m hm
    obtain ⟨t, ht⟩ := h.active m hm
    exact ⟨t, ht.last, ht.normalised, ht.past, ht.timeout⟩

theorem enrol (h : s.Timely) {sock : ℕ} (hsock : sock ∉ s.descriptors) :
    (s.enrol sock).Timely where
  socks := by
    change ((s.nodes ++ [s.enrolled sock]).map ClientNode.sock).Nodup
    rw [List.map_append, List.nodup_append]
    refine ⟨h.socks, by simp, ?_⟩
    intro a ha b hb
    obtain ⟨m, hm, rfl⟩ := List.mem_map.mp ha
    have hb' : b = sock := by simpa [enrolled, ClientNode.sock] using hb
    rw [hb']
    exact fun he => hsock (he ▸ h.opened m hm)
  opened := by
    intro m hm
    rcases List.mem_append.mp hm with hm | hm
    · exact Finset.mem_insert_of_mem (h.opened m hm)
    · rw [List.mem_singleton.mp hm]
      exact Finset.mem_insert_self _ _
  active := by
    intro m hm
    rcases List.mem_append.mp hm with hm | hm
    · obtain ⟨t, ht⟩ := h.active m hm
      have hne : sock ≠ m.sock := fun he => hsock (he ▸ h.opened m hm)
      refine ⟨t, ?_, ht.normalised, ht.past.trans s.clock.now_le_rest, ht.timeout⟩
      cases hw : s.acceptFunction <;> simp [TcpServer.enrol, hw, hne, ht.last]
    · rw [List.mem_singleton.mp hm]
      refine ⟨s.clock.now, ?_, s.clock.now_normalised, s.clock.now_le_rest, rfl⟩
      simp [TcpServer.enrol, enrolled, ClientNode.sock]

theorem kept : Kept Timely where
  tick := fun _ h => h.tick
  serve := fun _ _ _ _ hn _ h => h.serve hn
  lose := fun _ _ _ _ hn _ h => h.lose hn
  remove := fun _ _ _ _ farewell hn h => h.removeClient hn farewell
  refuse := fun _ sock _ _ h => h.refuse sock
  enrol := fun _ _ hsock _ _ h => h.enrol hsock

theorem createServer (p : Setup) : p.start.Timely where
  socks := by simp [Setup.start, TcpServer.createServer, nodes]
  opened := by simp [Setup.start, TcpServer.createServer, nodes]
  active := by simp [Setup.start, TcpServer.createServer, nodes]

end Timely
end TcpServer

open TcpServer

theorem ServerRun.timely (r : ServerRun) {pre : List Round} {s : TcpServer} (h : r.Top pre s) :
    s.Timely :=
  r.kept Timely.kept (Timely.createServer _) h

theorem TcpServer.checkExpiry_nodes (s : TcpServer) :
    s.checkExpiryOfClients.nodes = s.nodes.dropWhile fun n =>
      decide (n.1 ≠ s.tailData) && s.clock.now.after n.timeout := by
  rw [checkExpiryOfClients_eq]
  exact expire_nodes s.clock.now s.nodes { s with clock := s.clock.rest } rfl

theorem mem_of_not_mem_dropWhile {α : Type} {q : α → Bool} {xs : List α} {a : α} (ha : a ∈ xs)
    (hd : a ∉ xs.dropWhile q) : q a = true := by
  rw [← List.takeWhile_append_dropWhile (p := q) (l := xs), List.mem_append] at ha
  exact List.mem_takeWhile_imp (ha.resolve_right hd)

theorem TcpServer.ActiveAt.due_iff {s : TcpServer} {n : ClientNode} {t now : TimeVal}
    (h : s.ActiveAt n t) (hw : s.maxWaitTime.Normalised) (hnow : now.Normalised) :
    now.after n.timeout = true ↔ t.micros + s.maxWaitTime.micros < now.micros := by
  rw [h.timeout, after_iff hnow (normalised_timeradd h.normalised hw), micros_timeradd]

namespace ServerRun

/-- `Check_expiry_of_Clients` removes a client only when more than the waiting time has
passed since its last activity. -/
def NoPrematureExpiry (r : ServerRun) : Prop :=
  ∀ pre x s s', r.Enters pre x s → x.selected = .timeout → s.runServerBody x = some s' →
    ∀ n ∈ s.nodes, n ∉ s'.nodes →
      ∃ t, lastActivity n.sock s.events = some t ∧
        t.micros + r.maxWaitTime * second < s.expiryTime.micros

theorem noPrematureExpiry (r : ServerRun) : r.NoPrematureExpiry := by
  intro pre x s s' hs hx hb n hn hgone
  have hfixed := r.fixed hs.top
  obtain ⟨t, ht⟩ := (r.timely hs.top).active n hn
  rw [runServerBody_timeout hx] at hb
  rw [← Option.some.inj hb, checkExpiry_nodes, waitTime_nodes] at hgone
  have hdue := mem_of_not_mem_dropWhile hn hgone
  rw [Bool.and_eq_true] at hdue
  have hlate := (ht.due_iff (hfixed.maxWaitTime ▸ normalised_ofSeconds _)
    (s.waitTime.2.clock.now_normalised)).mp hdue.2
  rw [hfixed.maxWaitTime, micros_ofSeconds] at hlate
  exact ⟨t, ht.last, hlate⟩

end ServerRun
end ChatProject
