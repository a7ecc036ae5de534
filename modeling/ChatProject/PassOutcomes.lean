import ChatProject.ServerSteps

/-!
# A pass over a sequence of clients

What `ReceiveAndSend` makes of its clients, as a sequence of their records. A client whose
exchange succeeds goes to the head, or is lost if there is no node for it. A client whose
exchange fails has its node freed under the iterator, so from there on the pass is undefined.
-/

namespace ChatProject
open Memory

/-- What a pass over the clients depends on. -/
structure PassOutcomes where
  ready : Ptr → Bool
  succeeds : Ptr → Bool
  fails : ℕ → Bool
  tailData : Ptr

namespace PassOutcomes
variable (o : PassOutcomes)

/-- The pass on the clients `todo` behind the clients `front`: the clients that are then in the
list and those that were served, or `none` where it is undefined. -/
def pass : List Ptr → List Ptr → ℕ → List Ptr → Option (List Ptr × List Ptr)
  | front, [], _, called => some (front, called)
  | front, c :: todo, activity, called =>
    if c = o.tailData ∨ activity = 0 then some (front ++ c :: todo, called)
    else if o.ready c then
      if o.succeeds c then
        if o.fails called.length then pass front todo (activity - 1) (c :: called)
        else pass (c :: front) todo (activity - 1) (c :: called)
      else none
    else pass (front ++ [c]) todo activity called

/-- Every ready client is in front of where the pass stops and is served with success, and the
allocations for all of them succeed. -/
structure Undisturbed (todo : List Ptr) (k : ℕ) : Prop where
  succeed : ∀ c ∈ todo, o.ready c → o.succeeds c
  seen : ∀ c ∈ todo.dropWhile (fun c => c ≠ o.tailData), ¬ o.ready c
  allocated : ∀ j < todo.countP o.ready, o.fails (k + j) = false

def stays (c : Ptr) : Bool := !o.ready c || o.succeeds c

/-- The pass ends, and has served the ready clients and kept the clients that stay. -/
def Complete (front todo : List Ptr) (activity : ℕ) (called : List Ptr) : Prop :=
  ∃ final called', o.pass front todo activity called = some (final, called') ∧
    called'.Perm (todo.filter o.ready ++ called) ∧ final.Perm (front ++ todo.filter o.stays)

variable {o} {front todo called : List Ptr} {c : Ptr} {activity k : ℕ}

theorem pass_subset {final called' : List Ptr}
    (h : o.pass front todo activity called = some (final, called')) : final ⊆ front ++ todo := by
  induction todo generalizing front activity called with
  | nil =>
    cases h
    exact List.subset_append_left _ _
  | cons c todo ih =>
    rw [pass] at h
    split_ifs at h
    · cases h
      exact List.Subset.refl _
    · refine List.Subset.trans (ih h) (List.append_subset.mpr ⟨List.subset_append_left _ _, ?_⟩)
      exact List.Subset.trans (List.subset_cons_self c todo) (List.subset_append_right _ _)
    · exact List.Subset.trans (ih h) (List.perm_middle.symm).subset
    · have hsub := ih h
      rwa [List.append_assoc, List.singleton_append] at hsub

theorem filter_stays (h : ∀ c ∈ todo, ¬ o.ready c) : todo.filter o.stays = todo := by
  rw [List.filter_eq_self]
  intro c hc
  simp [stays, h c hc]

theorem undisturbed_of_none_ready (h : ∀ c ∈ todo, ¬ o.ready c) (k : ℕ) :
    o.Undisturbed todo k where
  succeed c hc hready := absurd hready (h c hc)
  seen c hc := h c ((List.dropWhile_sublist _).subset hc)
  allocated j hj := by
    rw [List.countP_eq_zero.mpr h] at hj
    omega

theorem undisturbed_cons_ready (hc : c ≠ o.tailData) (hready : o.ready c) :
    o.Undisturbed (c :: todo) k ↔
      o.succeeds c ∧ o.fails k = false ∧ o.Undisturbed todo (k + 1) := by
  have hdrop : (c :: todo).dropWhile (fun c => c ≠ o.tailData) =
      todo.dropWhile fun c => c ≠ o.tailData := by
    simp [hc]
  have hcount : (c :: todo).countP o.ready = todo.countP o.ready + 1 := by
    simp [hready]
  constructor
  · intro h
    refine ⟨h.succeed c List.mem_cons_self hready, h.allocated 0 (by omega), ?_, ?_, ?_⟩
    · exact fun d hd => h.succeed d (List.mem_cons_of_mem _ hd)
    · rw [← hdrop]
      exact h.seen
    · intro j hj
      have hnext := h.allocated (j + 1) (by omega)
      rwa [show k + 1 + j = k + (j + 1) by omega]
  · intro h
    obtain ⟨hsucceeds, hfails, h⟩ := h
    refine ⟨?_, ?_, ?_⟩
    · intro d hd hd'
      rcases List.mem_cons.mp hd with rfl | hd
      · exact hsucceeds
      · exact h.succeed d hd hd'
    · rw [hdrop]
      exact h.seen
    · intro j hj
      cases j with
      | zero => exact hfails
      | succ j =>
        have hnext := h.allocated j (by omega)
        rwa [show k + 1 + j = k + (j + 1) by omega] at hnext

theorem undisturbed_cons_idle (hc : c ≠ o.tailData) (hready : ¬ o.ready c) :
    o.Undisturbed (c :: todo) k ↔ o.Undisturbed todo k := by
  have hdrop : (c :: todo).dropWhile (fun c => c ≠ o.tailData) =
      todo.dropWhile fun c => c ≠ o.tailData := by
    simp [hc]
  have hcount : (c :: todo).countP o.ready = todo.countP o.ready := by
    simp [hready]
  constructor
  · intro h
    refine ⟨fun d hd => h.succeed d (List.mem_cons_of_mem _ hd), ?_, ?_⟩
    · rw [← hdrop]
      exact h.seen
    · rw [← hcount]
      exact h.allocated
  · intro h
    refine ⟨?_, ?_, ?_⟩
    · intro d hd hd'
      rcases List.mem_cons.mp hd with rfl | hd
      · exact absurd hd' hready
      · exact h.succeed d hd hd'
    · rw [hdrop]
      exact h.seen
    · rw [hcount]
      exact h.allocated

theorem complete_stopped
    (hpass : o.pass front todo activity called = some (front ++ todo, called)) :
    o.Complete front todo activity called ↔ ∀ c ∈ todo, ¬ o.ready c := by
  constructor
  · intro hcomplete
    obtain ⟨final, called', heq, hcalled, -⟩ := hcomplete
    rw [hpass] at heq
    cases heq
    have hlength := hcalled.length_eq
    rw [List.length_append, Nat.right_eq_add, List.length_eq_zero_iff, List.filter_eq_nil_iff]
      at hlength
    exact hlength
  · intro h
    refine ⟨_, _, hpass, ?_, ?_⟩
    · rw [List.filter_eq_nil_iff.mpr h, List.nil_append]
    · rw [filter_stays h]

theorem complete_iff (hnodup : (front ++ todo).Nodup)
    (hactivity : todo.countP o.ready ≤ activity) :
    o.Complete front todo activity called ↔ o.Undisturbed todo called.length := by
  induction todo generalizing front activity called with
  | nil =>
    rw [complete_stopped (by rw [pass, List.append_nil])]
    exact iff_of_true (by simp) (undisturbed_of_none_ready (by simp) _)
  | cons c todo ih =>
    by_cases hstop : c = o.tailData ∨ activity = 0
    · rw [complete_stopped (by rw [pass, if_pos hstop])]
      constructor
      · exact fun h => undisturbed_of_none_ready h _
      · intro h
        rcases hstop with rfl | rfl
        · have hseen := h.seen
          rwa [List.dropWhile_cons_of_neg (by simp)] at hseen
        · exact List.countP_eq_zero.mp (Nat.le_zero.mp hactivity)
    · have hc : c ≠ o.tailData := fun h => hstop (.inl h)
      by_cases hready : o.ready c
      · have hrest : todo.countP o.ready ≤ activity - 1 := by
          simp only [List.countP_cons, hready, ↓reduceIte] at hactivity
          omega
        have hfilter : (c :: todo).filter o.ready = c :: todo.filter o.ready :=
          List.filter_cons_of_pos hready
        rw [undisturbed_cons_ready hc hready]
        by_cases hsucceeds : o.succeeds c
        · have hstays : (c :: todo).filter o.stays = c :: todo.filter o.stays :=
            List.filter_cons_of_pos (by simp [stays, hsucceeds])
          have hmiddle : (c :: front ++ todo).Nodup := List.perm_middle.nodup_iff.mp hnodup
          by_cases hfails : o.fails called.length
          · -- the client is in no list
            refine iff_of_false ?_ fun h => by simp [hfails] at h
            intro hcomplete
            obtain ⟨final, called', hpass, -, hfinal⟩ := hcomplete
            rw [pass, if_neg hstop, if_pos hready, if_pos hsucceeds, if_pos hfails] at hpass
            have hin : c ∈ final := hfinal.mem_iff.mpr (by simp [hstays])
            exact (List.nodup_cons.mp hmiddle).1 (pass_subset hpass hin)
          · have hnext : o.Complete (c :: front) todo (activity - 1) (c :: called) ↔
                o.Undisturbed todo (c :: called).length := ih hmiddle hrest
            rw [List.length_cons] at hnext
            simp only [hsucceeds, Bool.eq_false_iff.mpr hfails, true_and, ← hnext]
            rw [Complete, Complete, pass, if_neg hstop, if_pos hready, if_pos hsucceeds,
              if_neg hfails, hfilter, hstays]
            have hcalled : (c :: todo.filter o.ready ++ called).Perm
                (todo.filter o.ready ++ c :: called) := List.perm_middle.symm
            have hfinal : (front ++ c :: todo.filter o.stays).Perm
                (c :: front ++ todo.filter o.stays) := List.perm_middle
            simp only [List.Perm.congr_right hcalled, List.Perm.congr_right hfinal]
        · refine iff_of_false ?_ fun h => hsucceeds h.1
          intro hcomplete
          obtain ⟨final, called', hpass, -⟩ := hcomplete
          rw [pass, if_neg hstop, if_pos hready, if_neg hsucceeds] at hpass
          cases hpass
      · have hrest : todo.countP o.ready ≤ activity := by
          simpa [List.countP_cons, hready] using hactivity
        have hstays : (c :: todo).filter o.stays = c :: todo.filter o.stays :=
          List.filter_cons_of_pos (by simp [stays, hready])
        have hnodup' : (front ++ [c] ++ todo).Nodup := by simpa using hnodup
        rw [undisturbed_cons_idle hc hready, ← ih hnodup' hrest, Complete, Complete, pass,
          if_neg hstop, if_neg hready, List.filter_cons_of_neg hready, hstays]
        simp

end PassOutcomes

/-! ## The select loop's list of clients -/

/-- As long as no exchange fails, the pass leaves the records that the list of the select loop
has after it. -/
theorem PassOutcomes.pass_eq_nodes {o : PassOutcomes} {forSelect : Finset ℕ}
    {exchange : ℕ → Exchange} {todo front : List ClientNode} {activity : ℕ} {s : TcpServer}
    {called final called' : List Ptr} (hnodes : s.nodes = front ++ todo)
    (hready : ∀ n ∈ todo, o.ready n.1 = true ↔ n.sock ∈ forSelect)
    (hsucceeds : ∀ n ∈ todo, o.succeeds n.1 = true ↔ exchange n.sock = .succeeds)
    (hfails : ∀ j, o.fails (called.length + j) = true ↔ s.heap j = 0)
    (htail : o.tailData = s.tailData)
    (hpass : o.pass (front.map Prod.fst) (todo.map Prod.fst) activity called =
      some (final, called')) :
    (TcpServer.pass forSelect exchange front todo activity s).nodes.map Prod.fst = final := by
  induction todo generalizing front activity s called with
  | nil =>
    cases hpass
    rw [TcpServer.pass, hnodes, List.append_nil]
  | cons n todo ih =>
    have hready' := hready n List.mem_cons_self
    have hsucceeds' := hsucceeds n List.mem_cons_self
    have hrestReady : ∀ m ∈ todo, o.ready m.1 = true ↔ m.sock ∈ forSelect :=
      fun m hm => hready m (List.mem_cons_of_mem _ hm)
    have hrestSucceeds : ∀ m ∈ todo, o.succeeds m.1 = true ↔ exchange m.sock = .succeeds :=
      fun m hm => hsucceeds m (List.mem_cons_of_mem _ hm)
    have hlater : ∀ j, o.fails ((n.1 :: called).length + j) = true ↔ s.heap.rest j = 0 := by
      intro j
      have hj := hfails (j + 1)
      rwa [show called.length + (j + 1) = (n.1 :: called).length + j by
        rw [List.length_cons]; omega] at hj
    rw [List.map_cons, pass, htail] at hpass
    rw [TcpServer.pass]
    by_cases hstop : n.1 = s.tailData ∨ activity = 0
    · rw [if_pos hstop] at hpass ⊢
      cases hpass
      rw [hnodes, List.map_append, List.map_cons]
    · rw [if_neg hstop] at hpass ⊢
      by_cases hin : n.sock ∈ forSelect
      · rw [if_pos hin]
        rw [if_pos (hready'.mpr hin)] at hpass
        by_cases hx : exchange n.sock = .succeeds
        · have hfails' : o.fails called.length = true ↔ s.heap.next = 0 := hfails 0
          rw [if_pos hx]
          rw [if_pos (hsucceeds'.mpr hx)] at hpass
          by_cases hheap : s.heap.next = 0
          · rw [if_pos hheap]
            rw [if_pos (hfails'.mpr hheap)] at hpass
            exact ih (s := s.lose front todo n) rfl hrestReady hrestSucceeds hlater htail hpass
          · rw [if_neg hheap]
            rw [if_neg fun h => hheap (hfails'.mp h)] at hpass
            have hserve : (s.serve front todo n).nodes = (s.refreshed n :: front) ++ todo := rfl
            exact ih hserve hrestReady hrestSucceeds hlater htail hpass
        · rw [if_neg fun h => hx (hsucceeds'.mp h)] at hpass
          cases hpass
      · rw [if_neg hin]
        rw [if_neg fun h => hin (hready'.mp h)] at hpass
        have hnodes' : s.nodes = front ++ [n] ++ todo := by simp [hnodes]
        refine ih hnodes' hrestReady hrestSucceeds hfails htail ?_
        rwa [List.map_append, List.map_singleton]

end ChatProject
