import ChatProject.SeveralLists
import ChatProject.Loop

/-!
# When equal iterators are at the same node

`ListItr_Equals` compares the data words of two nodes, and so does every loop that goes on until
its iterator equals the end of the list.
-/

namespace ChatProject
open Memory DLinkedList Loop

namespace DLinkedList

def iterators (l : Ptr) (ns : List Entry) : List Ptr := ns.map Prod.fst ++ [tail l]

/-- One turn of the loop of `HashMap_Insert` and of the server, which goes on with
`ListItr_Next` until the iterator equals the end. -/
def visitTurn (mem : Nodes) (iterEnd : Ptr) (s : Ptr × List Ptr) :
    Option ((Ptr × List Ptr) ⊕ (Ptr × List Ptr)) := do
  let equals ← itrEquals mem s.1 iterEnd
  if equals then pure (.inr s)
  else
    let next ← itrNext mem s.1
    pure (.inl (next, s.2 ++ [s.1]))

variable {mem : Nodes} {l word : Ptr} {front todo : List Entry}

theorem iterators_sublist (l : Ptr) (ns : List Entry) : (iterators l ns).Sublist (cells l ns) :=
  List.sublist_cons_self _ _

theorem Lists.iterators_nodup {world : World} (h : Lists mem world) :
    (world.flatMap fun w => iterators w.1 w.2).Nodup := by
  refine List.nodup_flatMap.mpr ⟨fun w hw => ?_, h.apart.imp fun {v w} hdisjoint => ?_⟩
  · exact (h.holds w hw).nodup.sublist (iterators_sublist _ _)
  · intro q hq hq'
    exact hdisjoint ((iterators_sublist _ _).subset hq) ((iterators_sublist _ _).subset hq')

/-- No node that holds the word of the tail sentinel stops the loop. -/
theorem Holds.visits (h : Holds mem l (front ++ todo)) (hword : mem.data (tail l) = some word)
    (hne : ∀ n ∈ todo, n.2 ≠ word) (visited : List Ptr) :
    Returns (visitTurn mem (tail l)) (position l todo, visited)
      (tail l, visited ++ todo.map Prod.fst) := by
  induction todo generalizing front visited with
  | nil =>
    have hequals : itrEquals mem (tail l) (tail l) = some true := h.itrEquals_self
    refine (returns_leave_iff (b := (tail l, visited)) ?_).mpr (by simp)
    simp only [visitTurn, position, hequals, Option.bind_eq_bind, Option.bind_some, if_true]
    rfl
  | cons n todo ih =>
    have hequals := itrEquals_of_data h.entry_ne h.tail_ne (h.data n (by simp)) hword
    rw [decide_eq_false (hne n List.mem_cons_self)] at hequals
    have hturn : visitTurn mem (tail l) (position l (n :: todo), visited) =
        some (.inl (position l todo, visited ++ [n.1])) := by
      simp only [visitTurn, position, hequals, h.itrNext_entry, Option.bind_eq_bind,
        Option.bind_some, Bool.false_eq_true, if_false]
      rfl
    have hrest := ih h.snoc (fun m hm => hne m (List.mem_cons_of_mem _ hm)) (visited ++ [n.1])
    rw [returns_turn_iff hturn, List.map_cons]
    simpa using hrest

end DLinkedList

/-- Well-formed lists with different cells, in a memory that may hold any data. -/
structure ListsInMemory where
  mem : Nodes
  world : World
  lists : Lists mem world

namespace ListsInMemory
variable (m : ListsInMemory)

def iterators : List Ptr := m.world.flatMap fun w => DLinkedList.iterators w.1 w.2

/-- Iterators are equal exactly at the same node, and the loop over a list visits each node once
and stops at the end. -/
structure IdentifiesNodes : Prop where
  equals : ∀ a ∈ m.iterators, ∀ b ∈ m.iterators, itrEquals m.mem a b = some (decide (a = b))
  visits : ∀ w ∈ m.world, ∃ iterBegin iterEnd visited, itrBegin m.mem w.1 = some iterBegin ∧
    itrEnd m.mem w.1 = some iterEnd ∧
    Returns (visitTurn m.mem iterEnd) (iterBegin, []) (tail w.1, visited) ∧
    visited.Perm (w.2.map Prod.fst)

theorem exists_data {a : Ptr} (ha : a ∈ m.iterators) : a ≠ 0 ∧ ∃ x, m.mem.data a = some x := by
  obtain ⟨w, hw, ha⟩ := List.mem_flatMap.mp ha
  obtain ⟨hne, hlive⟩ := (m.lists.holds w hw).live a ((iterators_sublist _ _).subset ha)
  obtain ⟨node, hnode⟩ := Option.ne_none_iff_exists'.mp hlive
  exact ⟨hne, node.data, Nodes.data_of_some hnode⟩

theorem equals_of_nodup (h : (m.iterators.map m.mem.data).Nodup) {a b : Ptr}
    (ha : a ∈ m.iterators) (hb : b ∈ m.iterators) :
    itrEquals m.mem a b = some (decide (a = b)) := by
  obtain ⟨ha0, x, hx⟩ := m.exists_data ha
  obtain ⟨hb0, y, hy⟩ := m.exists_data hb
  rw [itrEquals_of_data ha0 hb0 hx hy]
  by_cases hab : a = b
  · subst hab
    rw [hx, Option.some.injEq] at hy
    simp [hy]
  · have hxy : x ≠ y := by
      intro hxy
      exact hab (List.inj_on_of_nodup_map h ha hb (by rw [hx, hy, hxy]))
    rw [decide_eq_false hab, decide_eq_false hxy]

theorem nodup_of_equals
    (h : ∀ a ∈ m.iterators, ∀ b ∈ m.iterators, itrEquals m.mem a b = some (decide (a = b))) :
    (m.iterators.map m.mem.data).Nodup := by
  refine List.Nodup.map_on (fun a ha b hb hdata => ?_) m.lists.iterators_nodup
  obtain ⟨ha0, x, hx⟩ := m.exists_data ha
  obtain ⟨hb0, -⟩ := m.exists_data hb
  have hequals := h a ha b hb
  rw [itrEquals_of_data ha0 hb0 hx (hdata ▸ hx), decide_eq_true rfl, Option.some.injEq] at hequals
  exact of_decide_eq_true hequals.symm

theorem identifiesNodes_iff : m.IdentifiesNodes ↔ (m.iterators.map m.mem.data).Nodup := by
  constructor
  · intro h
    exact m.nodup_of_equals h.equals
  · intro h
    refine ⟨fun a ha b hb => m.equals_of_nodup h ha hb, fun w hw => ?_⟩
    have hl : DLinkedList.Holds m.mem w.1 ([] ++ w.2) := m.lists.holds w hw
    have hmem : ∀ q ∈ DLinkedList.iterators w.1 w.2, q ∈ m.iterators :=
      fun q hq => List.mem_flatMap.mpr ⟨w, hw, hq⟩
    have htail : tail w.1 ∈ DLinkedList.iterators w.1 w.2 := by simp [DLinkedList.iterators]
    obtain ⟨-, word, hword⟩ := m.exists_data (hmem _ htail)
    refine ⟨_, _, w.2.map Prod.fst, (if_neg hl.head_ne).trans hl.next_head, hl.itrEnd_eq,
      hl.visits hword (fun n hn heq => ?_) [], List.Perm.refl _⟩
    -- an element at the sentinel's word would be a second iterator with it
    have hn' : n.1 ∈ DLinkedList.iterators w.1 w.2 :=
      List.mem_append_left _ (List.mem_map_of_mem hn)
    have hsame := List.inj_on_of_nodup_map h (hmem _ hn') (hmem _ htail)
      (by rw [hl.data n hn, hword, heq])
    exact hl.ne_tail (List.mem_cons_of_mem _ (List.mem_map_of_mem hn)) hsame

def sharedElement : ListsInMemory where
  mem p := [(8, ⟨0, 64, 0⟩), (64, ⟨7, 32, 8⟩), (32, ⟨0, 32, 64⟩), (108, ⟨0, 164, 0⟩),
    (164, ⟨7, 132, 108⟩), (132, ⟨1, 132, 164⟩)].lookup p
  world := [(8, [(64, 7)]), (108, [(164, 7)])]
  lists := ⟨by decide, by simp [cells, head, tail, sizeofNode]⟩

theorem not_identifiesNodes_sharedElement : ¬ sharedElement.IdentifiesNodes := by
  intro h
  have hequals := h.equals 64 (by decide) 164 (by decide)
  revert hequals
  decide

end ListsInMemory
end ChatProject
