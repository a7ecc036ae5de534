import ChatProject.MapInsertion

/-!
# Destroying a map

The loop over a chain goes on as long as `List_PopHead` does not return 0, the code of a
successful pop. What it reads through `foundData` is therefore never the entry just popped.
-/

namespace ChatProject
open Memory

inductive DestroyCall (K V : Type)
  | keyDestroy (key : K)
  | valDestroy (value : V)
  deriving DecidableEq

/-- The local `foundData`, `NULL` at first, the entries freed so far and the calls made. -/
structure Destruction (K V : Type) where
  foundData : Option (Ptr × DataItem K V)
  freed : List Ptr
  calls : List (DestroyCall K V)
  deriving DecidableEq

inductive DestroyStop
  | fault
  | running
  deriving DecidableEq

namespace HashMap
variable {σ K C V : Type} {keys : Keys σ K C}

/-- One turn of the loop over a chain; the flags say which of the two functions are given.
`none` is a read through `NULL` or of a freed entry, or a second `free`. -/
def destroyFound (keyDestroy valDestroy : Bool) (d : Destruction K V) :
    Option (Destruction K V) :=
  match d.foundData with
  | none => if keyDestroy || valDestroy then none else some d
  | some (p, e) =>
    if p ∈ d.freed then none
    else
      some { d with
        freed := p :: d.freed
        calls := d.calls ++ (if keyDestroy then [.keyDestroy e.key] else []) ++
          (if valDestroy then [.valDestroy e.value] else []) }

def destroyChain (keyDestroy valDestroy : Bool) :
    ℕ → Chain K V → Destruction K V → Except DestroyStop (Destruction K V)
  | 0, _, _ => .error .running
  | n + 1, chain, d =>
    match LinkedList.popHead chain with
    | (res, item, chain) =>
      let d := { d with foundData := item.or d.foundData }
      if res.code ≠ 0 then
        match destroyFound keyDestroy valDestroy d with
        | none => .error .fault
        | some d => destroyChain keyDestroy valDestroy n chain d
      else .ok d

def destroyChains (keyDestroy valDestroy : Bool) (fuel : ℕ) :
    List (Chain K V) → Destruction K V → Except DestroyStop (Destruction K V)
  | [], d => .ok d
  | none :: chains, d => destroyChains keyDestroy valDestroy fuel chains d
  | some l :: chains, d =>
    match destroyChain keyDestroy valDestroy fuel (some l) d with
    | .error stop => .error stop
    | .ok d => destroyChains keyDestroy valDestroy fuel chains d

/-- What `*_map` is afterwards, with the calls that were made. `fuel` bounds the turns of
the loop over each chain. -/
def destroy (keyDestroy valDestroy : Bool) (fuel : ℕ) (map : Option (HashMap σ K V)) :
    Except DestroyStop (Option (HashMap σ K V) × Destruction K V) :=
  match map with
  | none => .ok (none, ⟨none, [], []⟩)
  | some m =>
    if m.isValid then
      match destroyChains keyDestroy valDestroy fuel
        ((List.range m.allocSize).map m.chainAt) ⟨none, [], []⟩ with
      | .error stop => .error stop
      | .ok d => .ok (none, d)
    else .ok (some m, ⟨none, [], []⟩)

/-- The map is destroyed without a fault, with one call of each function for each pair. -/
def DestroysEachPair (m : HashMap σ K V) : Prop :=
  ∃ fuel d, destroy true true fuel (some m) = .ok (none, d) ∧
    d.calls.Perm (m.entries.flatMap fun e => [.keyDestroy e.key, .valDestroy e.value])

theorem destroyChain_nil_succ (n : ℕ) (tailData : Ptr) (d : Destruction K V) :
    destroyChain true true (n + 1) (some ⟨[], tailData⟩) d =
      match destroyFound true true d with
      | none => .error .fault
      | some d => destroyChain true true n (some ⟨[], tailData⟩) d := by
  rfl

theorem destroyChain_nil_freed {d : Destruction K V} {p : Ptr} {e : DataItem K V}
    (hfound : d.foundData = some (p, e)) (hp : p ∈ d.freed) (n : ℕ) (tailData : Ptr)
    (d' : Destruction K V) : destroyChain true true n (some ⟨[], tailData⟩) d ≠ .ok d' := by
  cases n with
  | zero => simp [destroyChain]
  | succ n => simp [destroyChain_nil_succ, destroyFound, hfound, hp]

/-- An empty chain is never left: the first turn reads through `NULL`, or it frees the entry
that the second turn reads. -/
theorem destroyChain_nil (n : ℕ) (tailData : Ptr) (d d' : Destruction K V) :
    destroyChain true true n (some ⟨[], tailData⟩) d ≠ .ok d' := by
  cases n with
  | zero => simp [destroyChain]
  | succ n =>
    rw [destroyChain_nil_succ, destroyFound]
    cases hfound : d.foundData with
    | none => simp
    | some item =>
      obtain ⟨p, e⟩ := item
      by_cases hp : p ∈ d.freed
      · simp [hp]
      · simp only [hp, ↓reduceIte]
        exact destroyChain_nil_freed rfl List.mem_cons_self n tailData d'

/-- A chain with entries is left after the first pop, with no call made. -/
theorem destroyChain_cons (n : ℕ) (item : Ptr × DataItem K V) (items : List (Ptr × DataItem K V))
    (tailData : Ptr) (d : Destruction K V) :
    destroyChain true true (n + 1) (some ⟨item :: items, tailData⟩) d =
      .ok { d with foundData := some item } := by
  simp [destroyChain, LinkedList.popHead, ListResult.code]

theorem destroyChain_ok {n : ℕ} {l : LinkedList (DataItem K V)} {d d' : Destruction K V}
    (h : destroyChain true true n (some l) d = .ok d') : l.nodes ≠ [] ∧ d'.calls = d.calls := by
  obtain ⟨nodes, tailData⟩ := l
  cases nodes with
  | nil => exact absurd h (destroyChain_nil n tailData d d')
  | cons item items =>
    cases n with
    | zero => simp [destroyChain] at h
    | succ n =>
      rw [destroyChain_cons] at h
      cases h
      exact ⟨List.cons_ne_nil _ _, rfl⟩

/-- No function is ever called on the way to a normal end. -/
theorem destroyChains_ok {fuel : ℕ} {chains : List (Chain K V)} {d d' : Destruction K V}
    (h : destroyChains true true fuel chains d = .ok d') :
    (∀ l, some l ∈ chains → l.nodes ≠ []) ∧ d'.calls = d.calls := by
  induction chains generalizing d with
  | nil =>
    rw [destroyChains] at h
    cases h
    simp
  | cons chain chains ih =>
    cases chain with
    | none =>
      rw [destroyChains] at h
      obtain ⟨hne, hcalls⟩ := ih h
      exact ⟨fun l hl => hne l (by simpa using hl), hcalls⟩
    | some l =>
      rw [destroyChains] at h
      split at h
      · cases h
      · rename_i d₁ hchain
        obtain ⟨hfirst, hcalls₁⟩ := destroyChain_ok hchain
        obtain ⟨hne, hcalls⟩ := ih h
        refine ⟨fun l' hl' => ?_, hcalls.trans hcalls₁⟩
        rcases List.mem_cons.mp hl' with heq | hmem
        · cases heq
          exact hfirst
        · exact hne l' hmem

theorem destroyChains_none {chains : List (Chain K V)} (h : ∀ c ∈ chains, c = none) (fuel : ℕ)
    (d : Destruction K V) : destroyChains true true fuel chains d = .ok d := by
  induction chains with
  | nil => rfl
  | cons chain chains ih =>
    obtain rfl := h chain List.mem_cons_self
    rw [destroyChains]
    exact ih fun c hc => h c (List.mem_cons_of_mem _ hc)

theorem chainAt_eq_none_of_destroys {m : HashMap σ K V} (hin : InUse keys m)
    (h : m.DestroysEachPair) (b : ℕ) : m.chainAt b = none := by
  obtain ⟨fuel, d, hd, hperm⟩ := h
  rw [destroy, if_pos hin.valid] at hd
  split at hd
  · cases hd
  · rename_i d' hchains
    cases hd
    obtain ⟨hne, hcalls⟩ := destroyChains_ok hchains
    rw [hcalls] at hperm
    have hentries := hperm.symm.eq_nil
    by_contra hb
    obtain ⟨l, hl⟩ := Option.ne_none_iff_exists'.mp hb
    have hlt : b < m.allocSize := by
      rw [← hin.size]
      by_contra hge
      simp [chainAt, Nat.le_of_not_lt hge] at hl
    have hnodes : l.nodes ≠ [] := hne l (List.mem_map.mpr ⟨b, List.mem_range.mpr hlt, hl⟩)
    obtain ⟨n, hn⟩ := List.exists_mem_of_ne_nil _ hnodes
    have hmem : n.2 ∈ m.entries := by
      refine m.bucket_subset (b := b) ?_
      rw [bucket_of_chainAt hl]
      exact List.mem_map_of_mem hn
    have hempty := List.flatMap_eq_nil_iff.mp hentries n.2 hmem
    cases hempty

theorem destroysEachPair_of_none {m : HashMap σ K V} (hin : InUse keys m)
    (hnone : ∀ b, m.chainAt b = none) : m.DestroysEachPair := by
  have hchains : destroyChains true true 0 ((List.range m.allocSize).map m.chainAt)
      ⟨none, [], []⟩ = .ok ⟨none, [], []⟩ := destroyChains_none (by simp [hnone]) 0 _
  have hentries : m.entries = [] := by
    rw [entries, List.flatMap_eq_nil_iff]
    intro b _
    exact bucket_of_chainAt_none (hnone b)
  refine ⟨0, ⟨none, [], []⟩, ?_, ?_⟩
  · rw [destroy, if_pos hin.valid, hchains]
  · rw [hentries]
    exact List.Perm.nil

/-- A map is destroyed as documented exactly when no bucket has a chain yet. -/
theorem destroysEachPair_iff {m : HashMap σ K V} (hm : Reached keys m) :
    m.DestroysEachPair ↔ ∀ b, m.chainAt b = none :=
  ⟨chainAt_eq_none_of_destroys hm.inUse, destroysEachPair_of_none hm.inUse⟩

theorem destroysEachPair_collidingTable : collidingTable.DestroysEachPair :=
  (destroysEachPair_iff reached_collidingTable).mpr fun b => chainAt_fresh 1 1 _ _ b

def onePair : HashMap Unit ℕ ℕ :=
  (collidingTable.insert 0 () (some 5) 50 (Heap.succeeding id)).2.1

theorem reached_onePair : Reached collidingKeys onePair :=
  .insert 0 () (some 5) 50 (Heap.succeeding id) reached_collidingTable

example : destroy true true 3 (some onePair) = .ok (none, ⟨some (2, ⟨50, 5⟩), [], []⟩) := by
  rfl

theorem not_destroysEachPair_onePair :
    Reached collidingKeys onePair ∧ ¬ onePair.DestroysEachPair := by
  refine ⟨reached_onePair, fun h => ?_⟩
  have hnone := chainAt_eq_none_of_destroys reached_onePair.inUse h 0
  revert hnone
  decide

end HashMap
end ChatProject
