import ChatProject.SeveralLists
import ChatProject.Loop
import ChatProject.ReachedLists

/-!
# `List_Destroy`

The loop goes on to the next node and frees the one before it, through the back link.
-/

namespace ChatProject
open Memory DLinkedList Loop

namespace DLinkedList

/-- `destroyed` are the items that `_elementDestroy` has been called with, `freed` is what `free`
has been called with. -/
structure DestroyState where
  iter : Ptr
  mem : Nodes
  destroyed : List Ptr
  freed : List Ptr

namespace DestroyState

/-- The cells that may be read. A freed one may not, whatever has been put there since. -/
def heap (s : DestroyState) : Nodes := fun p => if p ∈ s.freed then none else s.mem p

def destroy (s : DestroyState) : Option (Ptr → Nodes → Nodes) → Option DestroyState
  | none => some s
  | some elementDestroy => do
    let item ← s.heap.data s.iter
    pure { s with mem := elementDestroy item s.mem, destroyed := s.destroyed ++ [item] }

def free (s : DestroyState) (node : Ptr) : Option DestroyState := do
  let _ ← s.heap node
  pure { s with mem := Function.update s.mem node none, freed := s.freed ++ [node] }

/-- The end of a turn: `iter = iter->m_next, free(iter->m_prev)`. -/
def goOn (s : DestroyState) : Option DestroyState := do
  let iter ← s.heap.next s.iter
  let node ← s.heap.prev iter
  let s ← s.free node
  pure { s with iter := iter }

/-- Both sentinels are in the chunk of the list. -/
def freeList (s : DestroyState) (l : Ptr) : Option DestroyState := do
  let s' ← s.free (head l)
  let _ ← s.heap (tail l)
  pure { s' with mem := Function.update s'.mem (tail l) none }

end DestroyState

def destroyTurn (l : Ptr) (elementDestroy : Option (Ptr → Nodes → Nodes)) (s : DestroyState) :
    Option (DestroyState ⊕ (Option Ptr × DestroyState)) :=
  if s.iter = tail l then do
    let s ← s.freeList l
    pure (.inr (some 0, s))
  else do
    let s ← s.destroy elementDestroy
    let s ← s.goOn
    pure (.inl s)

/-- `pList` is what is at `_pList`, if that is not `NULL`. -/
def listDestroy (mem : Nodes) (pList : Option Ptr) (elementDestroy : Option (Ptr → Nodes → Nodes))
    (n : ℕ) : Outcome (Option Ptr × DestroyState) :=
  match pList with
  | none => .returned (none, ⟨0, mem, [], []⟩)
  | some l =>
    if l = 0 then .returned (some 0, ⟨0, mem, [], []⟩)
    else
      match mem.next (head l) with
      | none => .undefined
      | some iter => run (destroyTurn l elementDestroy) n ⟨iter, mem, [], []⟩

def handed (elementDestroy : Option (Ptr → Nodes → Nodes)) (ns : List Entry) : List Ptr :=
  if elementDestroy.isSome then ns.map Prod.snd else []

/-- Called with the item of a node, the function leaves alone this node, those behind it and the
sentinels. -/
def Spares (elementDestroy : Ptr → Nodes → Nodes) (l : Ptr) (ns : List Entry) : Prop :=
  ∀ n ms, n :: ms <:+ ns → ∀ mem, ∀ p ∈ cells l (n :: ms), elementDestroy n.2 mem p = mem p

/-- `List_Destroy` returns and has set `*_pList` to `NULL`. It has called `_elementDestroy` with
the items from head to tail, and freed each node and the list once. -/
def ReleasesOnce (mem : Nodes) (l : Ptr) (ns : List Entry)
    (elementDestroy : Option (Ptr → Nodes → Nodes)) : Prop :=
  ∃ n s, listDestroy mem (some l) elementDestroy n = .returned (some 0, s) ∧
    s.destroyed = handed elementDestroy ns ∧ s.freed = ns.map Prod.fst ++ [l] ∧ s.freed.Nodup

/-- The nodes `ns` have been freed; the nodes `ms` and the sentinels are as in the memory `mem`. -/
structure Destroying (mem : Nodes) (l : Ptr) (ns ms : List Entry) (s : DestroyState) : Prop where
  iter : s.iter = position l ms
  unchanged : ∀ p ∈ cells l ms, s.mem p = mem p
  freed : s.freed = ns.map Prod.fst

variable {mem : Nodes} {l : Ptr} {elementDestroy : Option (Ptr → Nodes → Nodes)}
  {ns ms : List Entry} {n : Entry} {s : DestroyState}

theorem handed_nil : handed elementDestroy [] = [] := by
  rw [handed, List.map_nil, ite_self]

theorem handed_cons (n : Entry) (ms : List Entry) : handed elementDestroy (n :: ms) =
    handed elementDestroy [n] ++ handed elementDestroy ms := by
  cases elementDestroy with
  | none => rfl
  | some f => rfl

theorem cells_perm (l : Ptr) (ns ms : List Entry) :
    (cells l (ns ++ ms)).Perm (ns.map Prod.fst ++ cells l ms) := by
  simp only [cells, List.map_append, List.cons_append, List.append_assoc]
  exact List.perm_middle.symm

theorem Holds.notMem_front (h : Holds mem l (ns ++ ms)) {p : Ptr} (hp : p ∈ cells l ms) :
    p ∉ ns.map Prod.fst := by
  have hnodup := (cells_perm l ns ms).nodup_iff.mp h.nodup
  intro hmem
  exact (List.nodup_append.mp hnodup).2.2 p hmem p hp rfl

theorem Holds.freed_nodup (h : Holds mem l ns) : (ns.map Prod.fst ++ [l]).Nodup := by
  have hnodup := h.nodup.sublist (List.sublist_append_left _ _)
  exact (List.perm_append_singleton l _).nodup_iff.mpr hnodup

namespace Destroying

theorem heap_eq (h : Destroying mem l ns ms s) (hholds : Holds mem l (ns ++ ms)) {p : Ptr}
    (hp : p ∈ cells l ms) : s.heap p = mem p := by
  have hfreed : p ∉ s.freed := by
    rw [h.freed]
    exact hholds.notMem_front hp
  rw [DestroyState.heap, if_neg hfreed]
  exact h.unchanged p hp

theorem exists_free (h : Destroying mem l ns ms s) (hholds : Holds mem l (ns ++ ms)) {p : Ptr}
    (hp : p ∈ cells l ms) (hlive : mem p ≠ none) :
    s.free p = some { s with mem := Function.update s.mem p none, freed := s.freed ++ [p] } := by
  obtain ⟨node, hnode⟩ := Option.ne_none_iff_exists'.mp hlive
  simp only [DestroyState.free, h.heap_eq hholds hp, hnode, Option.bind_eq_bind, Option.bind_some,
    Option.pure_def]

theorem destroy (h : Destroying mem l ns (n :: ms) s) (hholds : Holds mem l (ns ++ n :: ms))
    (hspares : ∀ f ∈ elementDestroy, Spares f l (ns ++ n :: ms)) :
    ∃ s', s.destroy elementDestroy = some s' ∧ Destroying mem l ns (n :: ms) s' ∧
      s'.destroyed = s.destroyed ++ handed elementDestroy [n] := by
  cases elementDestroy with
  | none => exact ⟨s, rfl, h, (List.append_nil _).symm⟩
  | some f =>
    have hiter : s.iter = n.1 := h.iter
    have hdata : s.heap.data s.iter = some n.2 := by
      rw [hiter, Nodes.data, h.heap_eq hholds (mem_cells List.mem_cons_self)]
      exact hholds.data n (by simp)
    refine ⟨{ s with mem := f n.2 s.mem, destroyed := s.destroyed ++ [n.2] }, ?_,
      ⟨h.iter, ?_, h.freed⟩, rfl⟩
    · simp only [DestroyState.destroy, hdata, Option.bind_eq_bind, Option.bind_some,
        Option.pure_def]
    · intro p hp
      exact (hspares f rfl n ms (List.suffix_append ns _) s.mem p hp).trans (h.unchanged p hp)

theorem goOn (h : Destroying mem l ns (n :: ms) s) (hholds : Holds mem l (ns ++ n :: ms)) :
    ∃ s', s.goOn = some s' ∧ Destroying mem l (ns ++ [n]) ms s' ∧ s'.destroyed = s.destroyed := by
  have hcells : ∀ p ∈ cells l ms, p ∈ cells l (n :: ms) := by
    intro p hp
    have hrest : p ∈ cells l ([] ++ ms) := hp
    exact mem_cells_insert.mpr (.inr hrest)
  have hself : n.1 ∈ cells l (n :: ms) := mem_cells List.mem_cons_self
  have hiter : s.iter = n.1 := h.iter
  have hnext : s.heap.next s.iter = some (position l ms) := by
    rw [hiter, Nodes.next, h.heap_eq hholds hself]
    exact hholds.next_entry
  have hprev : s.heap.prev (position l ms) = some n.1 := by
    rw [Nodes.prev, h.heap_eq hholds (hcells _ (position_mem_cells [] ms))]
    exact hholds.prev_after
  have hfree := h.exists_free hholds hself (hholds.live _ (mem_cells (by simp))).2
  refine ⟨⟨position l ms, Function.update s.mem n.1 none, s.destroyed, s.freed ++ [n.1]⟩, ?_,
    ⟨rfl, ?_, ?_⟩, rfl⟩
  · simp only [DestroyState.goOn, hnext, hprev, hfree, Option.bind_eq_bind, Option.bind_some,
      Option.pure_def]
  · intro p hp
    have hne : p ≠ n.1 := by
      intro heq
      apply hholds.snoc.notMem_front hp
      simp [heq]
    exact (Function.update_of_ne hne none s.mem).trans (h.unchanged p (hcells p hp))
  · rw [h.freed, List.map_append]
    rfl

theorem turn (h : Destroying mem l ns (n :: ms) s) (hholds : Holds mem l (ns ++ n :: ms))
    (hspares : ∀ f ∈ elementDestroy, Spares f l (ns ++ n :: ms)) :
    ∃ s', destroyTurn l elementDestroy s = some (.inl s') ∧ Destroying mem l (ns ++ [n]) ms s' ∧
      s'.destroyed = s.destroyed ++ handed elementDestroy [n] := by
  have hne : s.iter ≠ tail l := by
    rw [h.iter]
    exact hholds.entry_ne_tail
  obtain ⟨s₁, hdestroy, h₁, hdestroyed⟩ := h.destroy hholds hspares
  obtain ⟨s₂, hgoOn, h₂, hsame⟩ := h₁.goOn hholds
  refine ⟨s₂, ?_, h₂, hsame.trans hdestroyed⟩
  simp only [destroyTurn, if_neg hne, hdestroy, hgoOn, Option.bind_eq_bind, Option.bind_some,
    Option.pure_def]

theorem leave (h : Destroying mem l ns [] s) (hholds : Holds mem l ns)
    (elementDestroy : Option (Ptr → Nodes → Nodes)) :
    ∃ s', destroyTurn l elementDestroy s = some (.inr (some 0, s')) ∧
      s'.destroyed = s.destroyed ∧ s'.freed = ns.map Prod.fst ++ [l] := by
  rw [← List.append_nil ns] at hholds
  have hhead : head l ∈ cells l [] := List.mem_cons_self
  have hfree := h.exists_free hholds hhead (hholds.live _ List.mem_cons_self).2
  obtain ⟨node, hnode⟩ := Option.ne_none_iff_exists'.mp (hholds.live _ tail_mem_cells).2
  have htail : s.heap (tail l) = some node := (h.heap_eq hholds tail_mem_cells).trans hnode
  refine ⟨⟨s.iter, Function.update (Function.update s.mem (head l) none) (tail l) none,
    s.destroyed, s.freed ++ [l]⟩, ?_, rfl, ?_⟩
  · have hiter : s.iter = tail l := h.iter
    simp only [destroyTurn, if_pos hiter, DestroyState.freeList, hfree, htail,
      Option.bind_eq_bind, Option.bind_some, Option.pure_def]
    rfl
  · exact congrArg (fun freed => freed ++ [l]) h.freed

/-- The loop from the nodes that are left, by induction on these. -/
theorem returns (h : Destroying mem l ns ms s) (hholds : Holds mem l (ns ++ ms))
    (hspares : ∀ f ∈ elementDestroy, Spares f l (ns ++ ms)) :
    ∃ s', Returns (destroyTurn l elementDestroy) s (some 0, s') ∧
      s'.destroyed = s.destroyed ++ handed elementDestroy ms ∧
      s'.freed = (ns ++ ms).map Prod.fst ++ [l] := by
  induction ms generalizing ns s with
  | nil =>
    rw [List.append_nil] at hholds ⊢
    obtain ⟨s', hleave, hdestroyed, hfreed⟩ := h.leave hholds elementDestroy
    refine ⟨s', (returns_leave_iff hleave).mpr rfl, ?_, hfreed⟩
    rw [hdestroyed, handed_nil, List.append_nil]
  | cons n ms ih =>
    obtain ⟨s₁, hturn, h₁, hdestroyed₁⟩ := h.turn hholds hspares
    rw [List.append_cons ns n ms] at hholds hspares ⊢
    obtain ⟨s', hreturns, hdestroyed, hfreed⟩ := ih h₁ hholds hspares
    refine ⟨s', (returns_turn_iff hturn).mpr hreturns, ?_, hfreed⟩
    rw [hdestroyed, hdestroyed₁, List.append_assoc, handed_cons n ms]

end Destroying

theorem Holds.releases (h : Holds mem l ns) (hspares : ∀ f ∈ elementDestroy, Spares f l ns) :
    ReleasesOnce mem l ns elementDestroy := by
  have hstart : Destroying mem l [] ns ⟨position l ns, mem, [], []⟩ := ⟨rfl, fun _ _ => rfl, rfl⟩
  obtain ⟨s, ⟨n, hrun⟩, hdestroyed, hfreed⟩ := hstart.returns h hspares
  refine ⟨n, s, ?_, hdestroyed, hfreed, hfreed ▸ h.freed_nodup⟩
  simp only [listDestroy, if_neg h.head_ne, h.next_head]
  exact hrun

/-- A list is released, whatever calls it comes from. -/
theorem Reached.releasesOnce (h : Reached l mem) :
    ∃ ns, Holds mem l ns ∧ ∀ elementDestroy : Option (Ptr → Nodes → Nodes),
      (∀ f ∈ elementDestroy, Spares f l ns) → ReleasesOnce mem l ns elementDestroy := by
  obtain ⟨ns, hformed⟩ := h.wellFormed
  exact ⟨ns, hformed.toHolds, fun _ hspares => hformed.releases hspares⟩

def emptyList : Nodes := (create (fun _ => none) 100 0 0).2

def twoPushed : Nodes := (emptyList.put 100 124 200 7).put 100 200 300 9

theorem reached_put_head (h : Reached l mem) {b p item : Ptr} (hunused : mem p = none)
    (hp : p ≠ 0) (hitem : item ≠ 0) (hlink : Link mem (head l) b) (hne : head l ≠ b) (hl : l ≠ 0) :
    Reached l (mem.put (head l) b p item) := by
  have hfresh : Fresh mem ⟨p, sizeofNode, ⟨0, 0, 0⟩⟩ := ⟨hp, hunused⟩
  have ha : (ListCall.pushHead item ⟨p, sizeofNode, ⟨0, 0, 0⟩⟩).Allocated mem :=
    fun _ => ⟨hfresh, Nat.le_refl _⟩
  have hcall : call mem l (.pushHead item ⟨p, sizeofNode, ⟨0, 0, 0⟩⟩) =
      some (.pushed .success, mem.put (head l) b p item) := by
    rw [call, pushHead_eq hfresh (Nat.le_refl _) hl hitem hlink hne]
    rfl
  exact h.call ha hcall

theorem reached_twoPushed : Reached 100 twoPushed := by
  have hcreated : Reached 100 emptyList := .create _ 0 0 (by decide)
  have hone : Reached 100 (emptyList.put 100 124 200 7) :=
    reached_put_head hcreated rfl (by decide) (by decide) ⟨rfl, rfl⟩ (by decide) (by decide)
  exact reached_put_head hone rfl (by decide) (by decide) ⟨rfl, rfl⟩ (by decide) (by decide)

/-- An element at the address of the item is freed. -/
def freeItem (item : Ptr) (mem : Nodes) : Nodes := Function.update mem item none

theorem spares_freeItem (h : ∀ n ∈ ns, n.2 ∉ cells l ns) : Spares freeItem l ns := by
  intro n ms hsuffix mem p hp
  obtain ⟨front, rfl⟩ := hsuffix
  have hmem : p ∈ cells l (front ++ n :: ms) :=
    (cells_perm l front (n :: ms)).mem_iff.mpr (List.mem_append_right _ hp)
  have hne : p ≠ n.2 := by
    intro heq
    exact h n (by simp) (heq ▸ hmem)
  exact Function.update_of_ne hne none mem

theorem releasesOnce_twoPushed :
    ReleasesOnce twoPushed 100 [(300, 9), (200, 7)] (some freeItem) := by
  obtain ⟨ns, hholds, h⟩ := reached_twoPushed.releasesOnce
  have hpushed : Holds twoPushed 100 [(300, 9), (200, 7)] := by decide
  obtain rfl := hholds.unique hpushed
  apply h
  intro f hf
  cases hf
  exact spares_freeItem (by decide)

end DLinkedList
end ChatProject
