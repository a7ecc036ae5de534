import ChatProject.ListIterators
import ChatProject.PassOutcomes
import ChatProject.SeveralLists

/-!
# `ReceiveAndSend` on the list in memory

The loop takes the served client out of the list that it goes through and pushes it to the head,
and takes out a client whose exchange has failed. What is undefined in C is a result of its own:
`ListItr_Next` on the node that has just been freed is. In `TcpServer` that read succeeds; the two
passes are the same where no exchange fails.
-/

namespace ChatProject
open Memory DLinkedList

/-- What is given to one call of `ReceiveAndSend` and does not change in it. -/
structure PassInputs where
  connectedClient : Ptr
  forSelect : Finset ℕ
  exchange : ℕ → Exchange
  allocator : NodeAllocator

/-- `clients` holds the sockets of the `ClientData` records that are allocated; `called` has the
clients that `ActionFuncSndRcv` was called for, the last one first. -/
structure PassState where
  mem : Nodes
  clients : Ptr → Option ℕ
  activity : ℕ
  masterFds : Finset ℕ
  called : List Ptr

inductive PassResult
  | undefined
  | running
  | returned (s : PassState)

namespace PassInputs
variable (x : PassInputs)

/-- The body of the loop, up to where it is continued with the next iterator. -/
def receiveAndSendBody (itr : Ptr) (s : PassState) : Option (Ptr × PassState) := do
  let client ← itrGet s.mem itr
  let sock ← s.clients client
  if sock ∈ x.forSelect then
    let s := { s with activity := s.activity - 1, called := client :: s.called }
    if x.exchange sock ≠ .succeeds then
      let temp := itr
      let (client, mem) ← itrRemove s.mem temp
      let sock ← s.clients client
      let s := { s with
        mem := mem
        masterFds := s.masterFds.erase sock
        clients := Function.update s.clients client none }
      let itr ← itrNext s.mem itr
      pure (itr, s)
    else
      let itr ← itrNext s.mem itr
      let before ← itrPrev s.mem itr
      let (client, mem) ← itrRemove s.mem before
      let (_, mem) ← pushHead mem x.connectedClient client
        (x.allocator.malloc (s.called.length - 1) mem)
      pure (itr, { s with mem := mem })
  else
    let itr ← itrNext s.mem itr
    pure (itr, s)

def receiveAndSendLoop (iterEnd : Ptr) : ℕ → Ptr → PassState → PassResult
  | 0, _, _ => .running
  | n + 1, itr, s =>
    match itrEquals s.mem itr iterEnd with
    | none => .undefined
    | some equals =>
      if equals = false ∧ 0 < s.activity then
        match x.receiveAndSendBody itr s with
        | none => .undefined
        | some (itr, s) => receiveAndSendLoop iterEnd n itr s
      else .returned s

/-- `n` bounds the passes through the loop; `running` is a loop that has not ended by then. -/
def receiveAndSend (n : ℕ) (s : PassState) : PassResult :=
  match itrBegin s.mem x.connectedClient, itrEnd s.mem x.connectedClient with
  | some iterBegin, some iterEnd =>
    if iterBegin = 0 ∨ iterEnd = 0 then .returned s
    else x.receiveAndSendLoop iterEnd n iterBegin s
  | _, _ => .undefined

theorem receiveAndSendLoop_mono {iterEnd : Ptr} {n : ℕ} {itr : Ptr} {s : PassState}
    (h : x.receiveAndSendLoop iterEnd n itr s ≠ .running) (m : ℕ) :
    x.receiveAndSendLoop iterEnd (n + m) itr s = x.receiveAndSendLoop iterEnd n itr s := by
  induction n generalizing itr s with
  | zero => exact absurd rfl h
  | succ n ih =>
    rw [Nat.succ_add, receiveAndSendLoop, receiveAndSendLoop]
    rw [receiveAndSendLoop] at h
    cases hequals : itrEquals s.mem itr iterEnd with
    | none => rfl
    | some equals =>
      simp only [hequals] at h ⊢
      split_ifs at h ⊢ with hgo
      · cases hbody : x.receiveAndSendBody itr s with
        | none => rfl
        | some res =>
          simp only [hbody] at h ⊢
          exact ih h
      · rfl

end PassInputs

/-! ## The pass in memory -/

namespace PassInputs
variable (x : PassInputs)

def outcomes (clients : Ptr → Option ℕ) (tailData : Ptr) : PassOutcomes where
  ready c := (clients c).any fun sock => sock ∈ x.forSelect
  succeeds c := (clients c).any fun sock => x.exchange sock = .succeeds
  fails := x.allocator.fails
  tailData := tailData

/-- The loop has the nodes `front` behind it and the nodes `todo` before it. -/
structure At (clients : Ptr → Option ℕ) (word : Ptr) (s : PassState) (front todo : List Entry) :
    Prop where
  holds : DLinkedList.Holds s.mem x.connectedClient (front ++ todo)
  tailData : s.mem.data (tail x.connectedClient) = some word
  same : s.clients = clients
  records : ∀ n ∈ todo, n.2 ≠ 0 ∧ ∃ sock, clients n.2 = some sock

variable {x} {clients : Ptr → Option ℕ} {word : Ptr} {s : PassState} {front todo : List Entry}
  {n : Entry}

def served (s : PassState) (client : Ptr) (mem : Nodes) : PassState :=
  { s with mem := mem, activity := s.activity - 1, called := client :: s.called }

namespace At

theorem body_idle (h : x.At clients word s front (n :: todo))
    (hready : ¬ (x.outcomes clients word).ready n.2) :
    x.receiveAndSendBody n.1 s = some (position x.connectedClient todo, s) := by
  obtain ⟨-, sock, hsock⟩ := h.records n List.mem_cons_self
  have hidle : sock ∉ x.forSelect := by simpa [outcomes, hsock] using hready
  simp only [receiveAndSendBody, h.holds.itrGet_entry, h.same, hsock, hidle, ↓reduceIte,
    h.holds.itrNext_entry, Option.bind_eq_bind, Option.bind_some]
  rfl

/-- After a failed exchange `m_next` is read from the node that has been freed. -/
theorem body_failed (h : x.At clients word s front (n :: todo))
    (hready : (x.outcomes clients word).ready n.2)
    (hfailed : ¬ (x.outcomes clients word).succeeds n.2) :
    x.receiveAndSendBody n.1 s = none := by
  obtain ⟨-, sock, hsock⟩ := h.records n List.mem_cons_self
  have hin : sock ∈ x.forSelect := by simpa [outcomes, hsock] using hready
  have hfails : x.exchange sock ≠ .succeeds := by simpa [outcomes, hsock] using hfailed
  have hn : n.1 ≠ 0 := (h.holds.live _ (mem_cells (by simp))).1
  obtain ⟨mem', hremove, -, hfreed, -⟩ := h.holds.itrRemove_entry
  have hnext : itrNext mem' n.1 = none := by
    rw [itrNext, if_neg hn, Nodes.next, hfreed]
    rfl
  simp only [receiveAndSendBody, h.holds.itrGet_entry, h.same, hsock, hin, hfails, ↓reduceIte,
    hremove, hnext, ne_eq, not_false_eq_true, Option.bind_eq_bind, Option.bind_some,
    Option.bind_none]

/-- A client that was served has been taken out, and its node has been freed, before the node
at the head is allocated. -/
theorem body_called (h : x.At clients word s front (n :: todo))
    (hready : (x.outcomes clients word).ready n.2)
    (hsucceeds : (x.outcomes clients word).succeeds n.2) :
    ∃ mem, x.receiveAndSendBody n.1 s =
        (pushHead mem x.connectedClient n.2 (x.allocator.malloc s.called.length mem)).map
          (fun res => (position x.connectedClient todo, served s n.2 res.2)) ∧
      mem n.1 = none ∧ x.At clients word (served s n.2 mem) front todo := by
  obtain ⟨-, sock, hsock⟩ := h.records n List.mem_cons_self
  have hin : sock ∈ x.forSelect := by simpa [outcomes, hsock] using hready
  have hexchange : x.exchange sock = .succeeds := by simpa [outcomes, hsock] using hsucceeds
  obtain ⟨mem', hremove, hholds, hfreed, hdata⟩ := h.holds.itrRemove_entry
  refine ⟨mem', ?_, hfreed, hholds, hdata.trans h.tailData, h.same,
    fun m hm => h.records m (List.mem_cons_of_mem _ hm)⟩
  simp only [receiveAndSendBody, h.holds.itrGet_entry, h.same, hsock, hin, hexchange, ↓reduceIte,
    h.holds.itrNext_entry, h.holds.itrPrev_position, hremove, ne_eq, not_true_eq_false,
    List.length_cons, Nat.add_sub_cancel, Option.bind_eq_bind, Option.bind_some]
  cases pushHead mem' x.connectedClient n.2 (x.allocator.malloc s.called.length mem') with
  | none => rfl
  | some res =>
    rw [Option.map_some, served, h.same]
    rfl

/-- The result of `List_PushHead` is not looked at: the client is in no list. -/
theorem body_lost (h : x.At clients word s front (n :: todo))
    (hready : (x.outcomes clients word).ready n.2)
    (hsucceeds : (x.outcomes clients word).succeeds n.2)
    (hfails : x.allocator.fails s.called.length) :
    ∃ mem, x.receiveAndSendBody n.1 s = some (position x.connectedClient todo, served s n.2 mem) ∧
      x.At clients word (served s n.2 mem) front todo := by
  obtain ⟨mem, hbody, -, hat⟩ := h.body_called hready hsucceeds
  obtain ⟨hitem, -⟩ := h.records n List.mem_cons_self
  refine ⟨mem, ?_, hat⟩
  rw [hbody, NodeAllocator.malloc, if_pos hfails, pushHead, if_neg h.holds.head_ne, if_neg hitem,
    if_pos rfl]
  rfl

theorem body_served (h : x.At clients word s front (n :: todo))
    (hready : (x.outcomes clients word).ready n.2)
    (hsucceeds : (x.outcomes clients word).succeeds n.2)
    (hfails : ¬ x.allocator.fails s.called.length) :
    ∃ mem p, x.receiveAndSendBody n.1 s =
        some (position x.connectedClient todo, served s n.2 mem) ∧
      x.At clients word (served s n.2 mem) ((p, n.2) :: front) todo := by
  obtain ⟨mem, hbody, hfreed, hat⟩ := h.body_called hready hsucceeds
  obtain ⟨hitem, -⟩ := h.records n List.mem_cons_self
  have hn : n.1 ≠ 0 := (h.holds.live _ (mem_cells (by simp))).1
  have hfresh := x.allocator.fresh s.called.length mem ⟨n.1, hn, hfreed⟩
  obtain ⟨mem', hpush, hholds, hdata⟩ :=
    hat.holds.pushHead_entry hfresh (x.allocator.room s.called.length mem) hitem
  have htail : tail x.connectedClient ≠ (x.allocator.chunk s.called.length mem).addr := fun heq =>
    (hat.holds.live _ tail_mem_cells).2 (heq ▸ hfresh.unused)
  refine ⟨mem', (x.allocator.chunk s.called.length mem).addr, ?_, hholds,
    (hdata _ htail).trans hat.tailData, hat.same, hat.records⟩
  rw [hbody, NodeAllocator.malloc, if_neg hfails]
  exact congrArg (Option.map _) hpush

end At

/-- The loop does to the list in memory what the pass does to the sequence of its clients. -/
theorem At.loop_eq (h : x.At clients word s front todo) :
    match (x.outcomes clients word).pass (front.map Prod.snd) (todo.map Prod.snd) s.activity
      s.called with
    | none => x.receiveAndSendLoop (tail x.connectedClient) (todo.length + 1)
        (position x.connectedClient todo) s = .undefined
    | some (final, called) => ∃ s' ns, x.receiveAndSendLoop (tail x.connectedClient)
        (todo.length + 1) (position x.connectedClient todo) s = .returned s' ∧
          s'.called = called ∧ DLinkedList.Holds s'.mem x.connectedClient ns ∧
          ns.map Prod.snd = final := by
  induction todo generalizing front s with
  | nil =>
    have hend : itrEquals s.mem (tail x.connectedClient) (tail x.connectedClient) = some true :=
      h.holds.itrEquals_self
    refine ⟨s, front, ?_, rfl, ?_, rfl⟩
    · simp only [receiveAndSendLoop, position, hend, Bool.true_eq_false,
        false_and, ↓reduceIte]
    · have hholds := h.holds
      rwa [List.append_nil] at hholds
  | cons n todo ih =>
    have hequals : itrEquals s.mem n.1 (tail x.connectedClient) = some (decide (n.2 = word)) :=
      itrEquals_of_data h.holds.entry_ne h.holds.tail_ne (h.holds.data n (by simp)) h.tailData
    rw [List.map_cons, PassOutcomes.pass, List.length_cons, receiveAndSendLoop, position]
    simp only [hequals]
    by_cases hstop : n.2 = (x.outcomes clients word).tailData ∨ s.activity = 0
    · rw [if_pos hstop]
      have hgo : ¬ (decide (n.2 = word) = false ∧ 0 < s.activity) := by
        intro hgo
        obtain ⟨hne, hpos⟩ := hgo
        rcases hstop with heq | hzero
        · exact of_decide_eq_false hne heq
        · omega
      refine ⟨s, front ++ n :: todo, ?_, rfl, h.holds, ?_⟩
      · rw [if_neg hgo]
      · rw [List.map_append, List.map_cons]
    · have hgo : decide (n.2 = word) = false ∧ 0 < s.activity := by
        rw [not_or] at hstop
        exact ⟨decide_eq_false hstop.1, Nat.pos_of_ne_zero hstop.2⟩
      rw [if_neg hstop, if_pos hgo]
      by_cases hready : (x.outcomes clients word).ready n.2
      · rw [if_pos hready]
        by_cases hsucceeds : (x.outcomes clients word).succeeds n.2
        · rw [if_pos hsucceeds]
          by_cases hfails : x.allocator.fails s.called.length
          · have hfails' : (x.outcomes clients word).fails s.called.length := hfails
            obtain ⟨mem, hbody, hat⟩ := h.body_lost hready hsucceeds hfails
            rw [if_pos hfails', hbody]
            exact ih hat
          · have hfails' : ¬ (x.outcomes clients word).fails s.called.length := hfails
            obtain ⟨mem, p, hbody, hat⟩ := h.body_served hready hsucceeds hfails
            rw [if_neg hfails', hbody]
            exact ih hat
        · rw [if_neg hsucceeds, h.body_failed hready hsucceeds]
      · rw [if_neg hready, h.body_idle hready]
        have hat : x.At clients word s (front ++ [n]) todo :=
          ⟨h.holds.snoc, h.tailData, h.same, fun m hm => h.records m (List.mem_cons_of_mem _ hm)⟩
        have hnext := ih hat
        rw [List.map_append, List.map_singleton] at hnext
        exact hnext

end PassInputs

/-- A call of `ReceiveAndSend` on a well-formed list of clients with distinct sockets, with
`m_activity` the number of ready descriptors. -/
structure ClientPass where
  inputs : PassInputs
  mem : Nodes
  clients : Ptr → Option ℕ
  masterFds : Finset ℕ
  entries : List Entry
  holds : DLinkedList.Holds mem inputs.connectedClient entries
  records : ∀ n ∈ entries, n.2 ≠ 0 ∧ ∃ sock, clients n.2 = some sock
  distinct : (entries.map fun n => clients n.2).Nodup

namespace ClientPass
variable (p : ClientPass)

def start : PassState := ⟨p.mem, p.clients, p.inputs.forSelect.card, p.masterFds, []⟩

def listed : List Ptr := p.entries.map Prod.snd

def tailData : Ptr := (p.mem.data (tail p.inputs.connectedClient)).getD 0

def outcomes : PassOutcomes := p.inputs.outcomes p.clients p.tailData

/-- The loop ends without undefined behaviour, has called each ready client once and no other,
and has left the clients that were not ready or succeeded. -/
def ServesEachOnce : Prop :=
  ∃ n s xs, p.inputs.receiveAndSend n p.start = .returned s ∧
    s.called.Perm (p.listed.filter p.outcomes.ready) ∧
    DLinkedList.Represents s.mem p.inputs.connectedClient xs ∧
    xs.Perm (p.listed.filter fun c => !p.outcomes.ready c || p.outcomes.succeeds c)

theorem start_at : p.inputs.At p.clients p.tailData p.start [] p.entries where
  holds := p.holds
  tailData := by
    have hlive := (p.holds.live _ tail_mem_cells).2
    obtain ⟨node, hnode⟩ := Option.ne_none_iff_exists'.mp hlive
    rw [tailData, start, Nodes.data_of_some hnode]
    rfl
  same := rfl
  records := p.records

theorem receiveAndSend_eq (n : ℕ) :
    p.inputs.receiveAndSend n p.start =
      p.inputs.receiveAndSendLoop (tail p.inputs.connectedClient) n
        (position p.inputs.connectedClient p.entries) p.start := by
  have hbegin : itrBegin p.start.mem p.inputs.connectedClient =
      some (position p.inputs.connectedClient p.entries) := by
    rw [itrBegin, if_neg p.holds.head_ne]
    exact p.holds.next_head
  have hend : itrEnd p.start.mem p.inputs.connectedClient =
      some (tail p.inputs.connectedClient) := p.holds.itrEnd_eq
  have hfirst : position p.inputs.connectedClient p.entries ≠ 0 := by
    have hholds : DLinkedList.Holds p.mem p.inputs.connectedClient ([] ++ p.entries) := p.holds
    exact hholds.position_live
  have hlast : tail p.inputs.connectedClient ≠ 0 := (p.holds.live _ tail_mem_cells).1
  rw [PassInputs.receiveAndSend, hbegin, hend]
  simp only [hfirst, hlast, or_self, ↓reduceIte]

theorem sockets_nodup : (p.listed.map p.clients).Nodup := by
  rw [listed, List.map_map]
  exact p.distinct

theorem countP_ready_le : p.listed.countP p.outcomes.ready ≤ p.inputs.forSelect.card := by
  have hsub : (((p.listed.filter p.outcomes.ready).map p.clients).toFinset) ⊆
      p.inputs.forSelect.map Function.Embedding.some := by
    intro sock hsock
    simp only [List.mem_toFinset, List.mem_map, List.mem_filter] at hsock
    obtain ⟨c, ⟨-, hready⟩, rfl⟩ := hsock
    obtain ⟨sock, hc, hin⟩ := (Option.any_eq_true _ _).mp hready
    exact Finset.mem_map.mpr ⟨sock, of_decide_eq_true hin, hc.symm⟩
  have hnodup : ((p.listed.filter p.outcomes.ready).map p.clients).Nodup :=
    p.sockets_nodup.sublist (List.filter_sublist.map _)
  have hcard := Finset.card_le_card hsub
  rwa [List.toFinset_card_of_nodup hnodup, List.length_map, Finset.card_map,
    ← List.countP_eq_length_filter] at hcard

theorem result_unique {n m : ℕ} (hn : p.inputs.receiveAndSend n p.start ≠ .running)
    (hm : p.inputs.receiveAndSend m p.start ≠ .running) :
    p.inputs.receiveAndSend n p.start = p.inputs.receiveAndSend m p.start := by
  rw [receiveAndSend_eq] at hn hm ⊢
  rw [receiveAndSend_eq, ← p.inputs.receiveAndSendLoop_mono hn m, Nat.add_comm,
    p.inputs.receiveAndSendLoop_mono hm n]

theorem servesEachOnce_iff_complete :
    p.ServesEachOnce ↔ p.outcomes.Complete [] p.listed p.inputs.forSelect.card [] := by
  have hloop := p.start_at.loop_eq
  rw [← receiveAndSend_eq] at hloop
  change match p.outcomes.pass [] p.listed p.inputs.forSelect.card [] with
    | none => _
    | some (final, called) => _ at hloop
  rw [PassOutcomes.Complete]
  cases hpass : p.outcomes.pass [] p.listed p.inputs.forSelect.card [] with
  | none =>
    rw [hpass] at hloop
    constructor
    · intro hserves
      obtain ⟨n, s, xs, hn, -⟩ := hserves
      have hsame := p.result_unique (n := n) (m := p.entries.length + 1) (by simp [hn])
        (by simp [hloop])
      rw [hn, hloop] at hsame
      cases hsame
    · intro hcomplete
      obtain ⟨final, called, heq, -⟩ := hcomplete
      cases heq
  | some res =>
    obtain ⟨final, called⟩ := res
    rw [hpass] at hloop
    obtain ⟨s', ns, hreturned, hcalled, hholds, hfinal⟩ := hloop
    have hrepresents := hholds.represents
    rw [hfinal] at hrepresents
    constructor
    · intro hserves
      obtain ⟨n, s, xs, hn, hserved, hxs, hlist⟩ := hserves
      have hsame := p.result_unique (n := n) (m := p.entries.length + 1) (by simp [hn])
        (by simp [hreturned])
      rw [hn, hreturned] at hsame
      cases hsame
      obtain rfl := hxs.unique hrepresents
      rw [hcalled] at hserved
      exact ⟨xs, called, rfl, by rwa [List.append_nil], hlist⟩
    · intro hcomplete
      obtain ⟨final', called', heq, hserved, hlist⟩ := hcomplete
      cases heq
      rw [List.append_nil, ← hcalled] at hserved
      exact ⟨p.entries.length + 1, s', final, hreturned, hserved, hrepresents, hlist⟩

/-- A pass serves each ready client once exactly when no exchange with one fails, none of them is
at or behind a client whose record is where the data word of the tail points, and the node for
each of them is allocated. -/
theorem servesEachOnce_iff : p.ServesEachOnce ↔ p.outcomes.Undisturbed p.listed 0 := by
  rw [servesEachOnce_iff_complete, PassOutcomes.complete_iff p.sockets_nodup.of_map
    p.countP_ready_le, List.length_nil]

/-- The one client is ready, and `recv` has nothing from it. -/
noncomputable def hangsUp : ClientPass where
  inputs := ⟨8, {5}, fun _ => .recvFails, .lowest fun _ => false⟩
  mem := (create (fun _ => none) 8 0 0).2.put 8 32 64 100
  clients := fun c => if c = 100 then some 5 else none
  masterFds := {5}
  entries := [(64, 100)]
  holds := by decide
  records := by simp
  distinct := by simp

theorem not_servesEachOnce_recvFails : ¬ hangsUp.ServesEachOnce := by
  rw [servesEachOnce_iff_complete,
    PassOutcomes.complete_iff hangsUp.sockets_nodup.of_map hangsUp.countP_ready_le]
  intro hcomplete
  have hsucceeds : decide (Exchange.recvFails = .succeeds) = true :=
    hcomplete.succeed 100 (List.mem_singleton_self _) rfl
  cases hsucceeds

end ClientPass

end ChatProject
