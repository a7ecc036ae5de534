import ChatProject.ListRanges

/-!
# `ListItr_Splice`

Every turn takes out the node behind the iterator and puts a new node before the destination. The
destination is in front of the range, behind it, which may be at its end, or in another list.
-/

namespace ChatProject
open Memory DLinkedList Loop

/-- The calls of `malloc( sizeof(Node*) )`, which succeed as long as there is unused memory. -/
structure PtrAllocator where
  addr : ℕ → Nodes → Ptr
  room : ℕ → ℕ
  left : ℕ → Node
  fresh : ∀ k mem, (∃ p ≠ 0, mem p = none) → addr k mem ≠ 0 ∧ mem (addr k mem) = none
  asked : ∀ k, sizeofPtr ≤ room k

namespace PtrAllocator
variable (malloc : PtrAllocator) {mem : Nodes} {k : ℕ}

def chunk (k : ℕ) (mem : Nodes) : Chunk := ⟨malloc.addr k mem, malloc.room k, malloc.left k⟩

theorem fresh_chunk {p : Ptr} (hp : p ≠ 0) (hunused : mem p = none) :
    DLinkedList.Fresh mem (malloc.chunk k mem) :=
  ⟨(malloc.fresh k mem ⟨p, hp, hunused⟩).1, (malloc.fresh k mem ⟨p, hp, hunused⟩).2⟩

noncomputable def lowest : PtrAllocator where
  addr := fun _ mem => (lowestChunk sizeofNode mem).addr
  room := fun _ => sizeofNode
  left := fun _ => ⟨0, 0, 0⟩
  fresh := fun _ _ h =>
    have hfresh : DLinkedList.Fresh _ (lowestChunk sizeofNode _) := fresh_lowestChunk h
    ⟨hfresh.addr, hfresh.unused⟩
  asked := fun _ => by decide

end PtrAllocator

namespace DLinkedList

structure SpliceState where
  iterator : Ptr
  mem : Nodes
  allocations : ℕ

def spliceTurn (dest iterEnd : Ptr) (malloc : PtrAllocator) (s : SpliceState) :
    Option (SpliceState ⊕ (Ptr × Nodes)) := do
  let equals ← itrEquals s.mem s.iterator iterEnd
  if equals then pure (.inr (dest, s.mem))
  else
    let iterator ← itrNext s.mem s.iterator
    let before ← itrPrev s.mem iterator
    let (element, mem) ← itrRemove s.mem before
    let (newElement, mem) ← itrInsertBefore mem dest element (malloc.chunk s.allocations mem)
    let _ ← itrNext mem newElement
    pure (.inl ⟨iterator, mem, s.allocations + 1⟩)

def splice (mem : Nodes) (dest iterBegin iterEnd : Ptr) (malloc : PtrAllocator) (n : ℕ) :
    Outcome (Ptr × Nodes) :=
  if iterBegin = 0 ∨ iterEnd = 0 ∨ dest = 0 then .returned (iterEnd, mem)
  else run (spliceTurn dest iterEnd malloc) n ⟨iterBegin, mem, 0⟩

end DLinkedList

/-- Where the destination is, and what is around it and around the range. -/
inductive Layout
  | inFront (before : List Entry) (node : Entry) (after back : List Entry) (others : World)
  | inBack (front before after : List Entry) (others : World)
  | inOther (front back : List Entry) (others : World) (l : Ptr) (before after : List Entry)
    (others' : World)

namespace Layout

def front : Layout → List Entry → List Entry
  | inFront before node after _ _, ins => before ++ ins ++ node :: after
  | inBack front _ _ _, _ => front
  | inOther front _ _ _ _ _ _, _ => front

def back : Layout → List Entry → List Entry
  | inFront _ _ _ back _, _ => back
  | inBack _ before after _, ins => before ++ ins ++ after
  | inOther _ back _ _ _ _ _, _ => back

def others : Layout → List Entry → World
  | inFront _ _ _ _ others, _ => others
  | inBack _ _ _ others, _ => others
  | inOther _ _ others l before after others', ins =>
    others ++ (l, before ++ ins ++ after) :: others'

def dest (y : Layout) (l : Ptr) : Ptr :=
  match y with
  | inFront _ node _ _ _ => node.1
  | inBack _ _ after _ => position l after
  | inOther _ _ _ l' _ after _ => position l' after

def world (y : Layout) (l : Ptr) (ms ins : List Entry) : World :=
  (l, y.front ins ++ (ms ++ y.back ins)) :: y.others ins

variable {y : Layout} {l : Ptr} {mem : Nodes} {ms ins : List Entry} {n : Entry}

theorem holds_range (h : Lists mem (y.world l ms ins)) :
    DLinkedList.Holds mem l (y.front ins ++ (ms ++ y.back ins)) :=
  h.holds _ List.mem_cons_self

theorem holds_back (h : Lists mem (y.world l ms ins)) :
    DLinkedList.Holds mem l ((y.front ins ++ ms) ++ y.back ins) := by
  rw [List.append_assoc]
  exact holds_range h

theorem last_mem : position l (y.back []) ∈ (y.back ins).map Prod.fst ++ [tail l] := by
  cases y with
  | inFront before node after back others => exact position_mem_suffix l [] back
  | inBack front before after others =>
    cases before with
    | nil => exact position_mem_suffix l ins after
    | cons b bs => simp [back, position]
  | inOther front back others l' before after others' => exact position_mem_suffix l [] back

theorem entry_ne_last (h : Lists mem (y.world l (n :: ms) ins)) : n.1 ≠ position l (y.back []) := by
  intro heq
  have hnot : n.1 ∉ (ms ++ y.back ins).map Prod.fst ++ [tail l] := (holds_range h).entry_notMem
  rw [List.map_append, List.append_assoc] at hnot
  exact hnot (List.mem_append_right _ (heq ▸ last_mem))

theorem dest_ne (h : Lists mem (y.world l ms ins)) : y.dest l ≠ 0 := by
  cases y with
  | inFront before node after back others =>
    have hholds : DLinkedList.Holds mem l ((before ++ ins) ++ node :: after ++ (ms ++ back)) :=
      holds_range h
    rw [List.append_assoc, List.cons_append] at hholds
    exact hholds.entry_ne
  | inBack front before after others =>
    have hholds : DLinkedList.Holds mem l (front ++ (ms ++ ((before ++ ins) ++ after))) :=
      holds_range h
    rw [← List.append_assoc, ← List.append_assoc] at hholds
    exact hholds.position_live
  | inOther front back others l' before after others' =>
    have hholds : DLinkedList.Holds mem l' ((before ++ ins) ++ after) :=
      h.holds (l', before ++ ins ++ after) (by simp [world, Layout.others])
    exact hholds.position_live

theorem insert (h : Lists mem (y.world l ms ins)) {newElement : Chunk}
    (hfresh : DLinkedList.Fresh mem newElement) (hroom : sizeofNode ≤ newElement.room)
    {element : Ptr} (helement : element ≠ 0) :
    ∃ mem', itrInsertBefore mem (y.dest l) element newElement = some (newElement.addr, mem') ∧
      Lists mem' (y.world l ms (ins ++ [(newElement.addr, element)])) ∧
      ∀ q, q ≠ newElement.addr → mem'.data q = mem.data q := by
  cases y with
  | inFront before node after back others =>
    have h' : Lists mem ([] ++ (l, (before ++ ins) ++ node :: after ++ (ms ++ back)) :: others) := h
    rw [List.append_assoc] at h'
    obtain ⟨mem', hinsert, hlists, hdata⟩ := h'.itrInsertBefore hfresh hroom helement
    refine ⟨mem', hinsert, ?_, hdata⟩
    simpa [world, Layout.front, Layout.back, Layout.others] using hlists
  | inBack front before after others =>
    have happ : (l, front ++ (ms ++ (before ++ ins ++ after))) =
        (l, (front ++ ms ++ before ++ ins) ++ after) := by simp
    have h' : Lists mem ([] ++ (l, front ++ (ms ++ (before ++ ins ++ after))) :: others) := h
    rw [happ] at h'
    obtain ⟨mem', hinsert, hlists, hdata⟩ := h'.itrInsertBefore hfresh hroom helement
    refine ⟨mem', hinsert, ?_, hdata⟩
    simpa [world, Layout.front, Layout.back, Layout.others] using hlists
  | inOther front back others l' before after others' =>
    have h' : Lists mem (((l, front ++ (ms ++ back)) :: others) ++
      (l', (before ++ ins) ++ after) :: others') := h
    obtain ⟨mem', hinsert, hlists, hdata⟩ := h'.itrInsertBefore hfresh hroom helement
    refine ⟨mem', hinsert, ?_, hdata⟩
    simpa [world, Layout.front, Layout.back, Layout.others] using hlists

/-- Away from the end of the range, what is put before the destination does not come between the
range and its end. -/
theorem position_back (hdest : y.dest l ≠ position l (y.back [])) (ms ins : List Entry) :
    position l (ms ++ y.back ins) = position l (ms ++ y.back []) := by
  cases y with
  | inFront before node after back others => rfl
  | inBack front before after others =>
    cases before with
    | nil => exact absurd rfl hdest
    | cons b bs => cases ms <;> rfl
  | inOther front back others l' before after others' => rfl

def AtEnd (y : Layout) : Prop := ∃ front after others, y = inBack front [] after others

theorem AtEnd.world (h : y.AtEnd) (l : Ptr) (ms ins : List Entry) :
    y.world l ms ins = y.world l (ms ++ ins) [] := by
  obtain ⟨front, after, others, rfl⟩ := h
  simp [Layout.world, Layout.front, Layout.back, Layout.others]

theorem atEnd_of_dest (h : Lists mem (y.world l ms ins))
    (hdest : y.dest l = position l (y.back [])) : y.AtEnd := by
  cases y with
  | inFront before node after back others =>
    have hholds : DLinkedList.Holds mem l ((before ++ ins) ++ node :: after ++ (ms ++ back)) :=
      holds_range h
    rw [List.append_assoc, List.cons_append, ← List.append_assoc after] at hholds
    exact absurd hdest hholds.entry_ne_position
  | inBack front before after others =>
    cases before with
    | nil => exact ⟨front, after, others, rfl⟩
    | cons b bs =>
      have hholds : DLinkedList.Holds mem l (front ++ (ms ++ (b :: bs ++ ins ++ after))) :=
        holds_range h
      have happ : front ++ (ms ++ (b :: bs ++ ins ++ after)) =
          (front ++ ms) ++ b :: ((bs ++ ins) ++ after) := by simp
      exact absurd hdest.symm (happ ▸ hholds).entry_ne_position
  | inOther front back others l' before after others' =>
    have hdisjoint := (List.pairwise_cons.mp h.apart).1 (l', before ++ ins ++ after)
      (by simp [Layout.others])
    have hdest' : position l' after = position l back := hdest
    have hlast : position l back ∈ cells l ((front ++ ms) ++ back) := position_mem_cells _ _
    rw [List.append_assoc] at hlast
    exact absurd (hdest' ▸ position_mem_cells (before ++ ins) after) (hdisjoint hlast)

theorem live_inserted (h : Lists mem (y.world l ms ins)) (hn : n ∈ ins) :
    n.1 ≠ 0 ∧ mem n.1 ≠ none := by
  cases y with
  | inFront before node after back others =>
    exact (holds_range h).live n.1 (mem_cells (by simp [Layout.front, hn]))
  | inBack front before after others =>
    exact (holds_range h).live n.1 (mem_cells (by simp [Layout.back, hn]))
  | inOther front back others l' before after others' =>
    have hholds : DLinkedList.Holds mem l' (before ++ ins ++ after) :=
      h.holds (l', before ++ ins ++ after) (by simp [world, Layout.others])
    exact hholds.live n.1 (mem_cells (by simp [hn]))

theorem range_empty (h : Lists mem (y.world l ms ins)) {new : List Entry}
    (hnew : Lists mem (y.world l [] new)) (hdest : y.dest l ≠ position l (y.back [])) :
    ms = [] := by
  have heq := (holds_range h).unique (holds_range hnew)
  cases y with
  | inFront before node after back others =>
    have hholds : DLinkedList.Holds mem l ((before ++ ins) ++ node :: after ++ (ms ++ back)) :=
      holds_range h
    rw [List.append_assoc, List.cons_append] at hholds
    have hbefore : node ∉ before ++ ins := fun hmem =>
      hholds.ne_entry (List.mem_append_left _ hmem) rfl
    have hafter : node ∉ after ++ (ms ++ back) := fun hmem =>
      hholds.ne_entry (List.mem_append_right _ hmem) rfl
    have heq' : (before ++ ins) ++ node :: (after ++ (ms ++ back)) =
        (before ++ new) ++ node :: (after ++ back) := by
      simpa [Layout.front, Layout.back] using heq
    have hrest := ((List.append_cons_inj_of_notMem hbefore hafter).mp heq').2.2
    exact List.append_left_eq_self.mp (List.append_cancel_left hrest)
  | inBack front before after others =>
    cases before with
    | nil => exact absurd rfl hdest
    | cons b bs =>
      cases ms with
      | nil => rfl
      | cons n ms =>
        have hnot := (holds_range h).entry_notMem
        simp only [Layout.front, Layout.back, List.cons_append, List.nil_append,
          List.append_cancel_left_eq, List.cons.injEq] at heq
        rw [heq.1] at hnot
        exact absurd (by simp [Layout.back]) hnot
  | inOther front back others l' before after others' =>
    have hlength := congrArg List.length heq
    simp only [Layout.front, Layout.back, List.length_append, List.nil_append] at hlength
    exact List.eq_nil_of_length_eq_zero (by omega)

end Layout

structure RangeSplice where
  mem : Nodes
  l : Ptr
  range : List Entry
  layout : Layout
  lists : Lists mem (layout.world l range [])
  items : ∀ n ∈ range, n.2 ≠ 0
  malloc : PtrAllocator

namespace RangeSplice
variable (q : RangeSplice)

def first : Ptr := position q.l (q.range ++ q.layout.back [])

def last : Ptr := position q.l (q.layout.back [])

def dest : Ptr := q.layout.dest q.l

def word : Ptr := (q.mem.data q.last).getD 0

/-- `ListItr_Splice` ends, and in the lists then new nodes with the elements of the range are
before the destination, no node is in the range, and all other nodes are where they were. -/
def Moves : Prop :=
  ∃ n mem, splice q.mem q.dest q.first q.last q.malloc n = .returned (q.dest, mem) ∧
    ∃ new, new.map Prod.snd = q.range.map Prod.snd ∧ Lists mem (q.layout.world q.l [] new)

theorem first_ne : q.first ≠ 0 := (Layout.holds_range q.lists).position_live

theorem last_ne : q.last ≠ 0 := (Layout.holds_back q.lists).position_live

theorem dest_ne : q.dest ≠ 0 := Layout.dest_ne q.lists

theorem data_last : q.mem.data q.last = some q.word := by
  obtain ⟨w, hw⟩ := (Layout.holds_back q.lists).exists_word
  rw [word, last, hw]
  rfl

theorem splice_eq (n : ℕ) :
    splice q.mem q.dest q.first q.last q.malloc n =
      run (spliceTurn q.dest q.last q.malloc) n ⟨q.first, q.mem, 0⟩ := by
  rw [splice, if_neg]
  rw [not_or, not_or]
  exact ⟨q.first_ne, q.last_ne, q.dest_ne⟩

/-- The nodes `ms` are still in the range, with the iterator at the first, and the nodes `ins` have
been put before the destination. -/
structure At (s : SpliceState) (ms ins : List Entry) : Prop where
  itr : s.iterator = position q.l (ms ++ q.layout.back ins)
  lists : Lists s.mem (q.layout.world q.l ms ins)
  word : s.mem.data q.last = some q.word
  items : ∀ n ∈ ms, n.2 ≠ 0

variable {q} {s : SpliceState} {ms ins : List Entry} {n : Entry}

theorem at_first (q : RangeSplice) : q.At ⟨q.first, q.mem, 0⟩ q.range [] :=
  ⟨rfl, q.lists, q.data_last, q.items⟩

theorem At.entry (h : q.At s (n :: ms) ins) :
    itrEquals s.mem s.iterator q.last = some (decide (n.2 = q.word)) := by
  have hholds := Layout.holds_range h.lists
  rw [h.itr]
  exact hholds.itrEquals_position q.last_ne h.word

theorem At.leave (h : q.At s (n :: ms) ins) (hword : n.2 = q.word) :
    spliceTurn q.dest q.last q.malloc s = some (.inr (q.dest, s.mem)) := by
  simp only [spliceTurn, h.entry, hword, decide_true, if_true, Option.bind_eq_bind,
    Option.bind_some, Option.pure_def]

theorem At.removed (h : q.At s (n :: ms) ins) (hword : n.2 ≠ q.word) :
    ∃ mem, Lists mem (q.layout.world q.l ms ins) ∧ mem n.1 = none ∧
      mem.data q.last = some q.word ∧
      spliceTurn q.dest q.last q.malloc s = (do
        let (newElement, mem) ← itrInsertBefore mem q.dest n.2 (q.malloc.chunk s.allocations mem)
        let _ ← itrNext mem newElement
        pure (.inl ⟨position q.l (ms ++ q.layout.back ins), mem, s.allocations + 1⟩)) := by
  have hholds := Layout.holds_range h.lists
  have hlists : Lists s.mem ([] ++ (q.l, q.layout.front ins ++ n :: (ms ++ q.layout.back ins)) ::
      q.layout.others ins) := h.lists
  obtain ⟨mem, hremove, hlists', hfreed, hdata⟩ := hlists.itrRemove
  have hitr : s.iterator = n.1 := h.itr
  have hentry := h.entry
  rw [hitr, decide_eq_false hword] at hentry
  have hnext : itrNext s.mem n.1 = some (position q.l (ms ++ q.layout.back ins)) :=
    hholds.itrNext_entry
  have hprev : itrPrev s.mem (position q.l (ms ++ q.layout.back ins)) = some n.1 :=
    hholds.itrPrev_position
  refine ⟨mem, hlists', hfreed, ?_, ?_⟩
  · exact (hdata _ (Layout.entry_ne_last h.lists).symm).trans h.word
  · simp only [spliceTurn, hitr, hentry, hnext, hprev, hremove, Bool.false_eq_true, if_false,
      Option.bind_eq_bind, Option.bind_some]

theorem At.undefined (h : q.At s (n :: ms) ins) (hword : n.2 ≠ q.word)
    (hroom : ¬ sizeofNode ≤ q.malloc.room s.allocations) :
    spliceTurn q.dest q.last q.malloc s = none := by
  obtain ⟨mem, -, hfreed, -, hturn⟩ := h.removed hword
  have hne : n.1 ≠ 0 := ((Layout.holds_range h.lists).live n.1 (mem_cells (by simp))).1
  have hfresh := q.malloc.fresh_chunk (k := s.allocations) hne hfreed
  have hoverrun : mem.allocate (q.malloc.chunk s.allocations mem) = none := by
    rw [Nodes.allocate, if_pos (.inr (Nat.lt_of_not_le hroom))]
  rw [hturn]
  simp only [itrInsertBefore, h.items n List.mem_cons_self, q.dest_ne, or_self, if_false,
    if_neg hfresh.addr, hoverrun, Option.bind_eq_bind, Option.bind_none]

theorem At.turn (h : q.At s (n :: ms) ins) (hword : n.2 ≠ q.word)
    (hroom : sizeofNode ≤ q.malloc.room s.allocations) :
    ∃ mem new, spliceTurn q.dest q.last q.malloc s =
        some (.inl ⟨position q.l (ms ++ q.layout.back ins), mem, s.allocations + 1⟩) ∧
      new.2 = n.2 ∧ Lists mem (q.layout.world q.l ms (ins ++ [new])) ∧
      mem.data q.last = some q.word := by
  obtain ⟨mem, hlists, hfreed, hdata, hturn⟩ := h.removed hword
  have hne : n.1 ≠ 0 := ((Layout.holds_range h.lists).live n.1 (mem_cells (by simp))).1
  have hfresh := q.malloc.fresh_chunk (k := s.allocations) hne hfreed
  obtain ⟨mem', hinsert, hlists', hdata'⟩ :=
    Layout.insert hlists hfresh hroom (h.items n List.mem_cons_self)
  set new : Entry := ((q.malloc.chunk s.allocations mem).addr, n.2)
  obtain ⟨hnew_ne, hnew⟩ := Layout.live_inserted (n := new) hlists' (by simp)
  obtain ⟨node, hnode⟩ := Option.ne_none_iff_exists'.mp hnew
  have hlast : q.last ≠ new.1 := by
    intro heq
    have hunused : mem new.1 = none := hfresh.unused
    rw [heq, Nodes.data, hunused] at hdata
    cases hdata
  have hnext : itrNext mem' new.1 = some node.next := by
    rw [itrNext, if_neg hnew_ne, Nodes.next_of_some hnode]
  have hinsert' : itrInsertBefore mem q.dest n.2 (q.malloc.chunk s.allocations mem) =
      some (new.1, mem') := hinsert
  refine ⟨mem', new, ?_, rfl, hlists', (hdata' _ hlast).trans hdata⟩
  rw [hturn]
  simp only [hinsert', hnext, Option.bind_eq_bind, Option.bind_some, Option.pure_def]

def Moved (q : RangeSplice) (s : SpliceState) (elements : List Ptr) : Prop :=
  ∃ mem, Returns (spliceTurn q.dest q.last q.malloc) s (q.dest, mem) ∧
    ∃ new, new.map Prod.snd = elements ∧ Lists mem (q.layout.world q.l [] new)

theorem moves_iff_moved : q.Moves ↔ q.Moved ⟨q.first, q.mem, 0⟩ (q.range.map Prod.snd) := by
  simp only [Moves, Moved, splice_eq]
  exact exists_returned_iff fun mem => (q.dest, mem)

theorem leave_last (hitr : s.iterator = q.last) (hword : s.mem.data q.last = some q.word) :
    spliceTurn q.dest q.last q.malloc s = some (.inr (q.dest, s.mem)) := by
  have hself : itrEquals s.mem q.last q.last = some true := by
    rw [itrEquals_of_data q.last_ne q.last_ne hword hword, decide_eq_true rfl]
  simp only [spliceTurn, hitr, hself, if_true, Option.bind_eq_bind, Option.bind_some,
    Option.pure_def]

theorem At.moved_iff (h : q.At s ms ins) (hdest : q.dest ≠ q.last)
    (hcount : s.allocations = ins.length) :
    q.Moved s (ins.map Prod.snd ++ ms.map Prod.snd) ↔
      (∀ n ∈ ms, n.2 ≠ q.word) ∧ ∀ k < ms.length, sizeofNode ≤ q.malloc.room (ins.length + k) := by
  induction ms generalizing s ins with
  | nil =>
    have hend : position q.l (q.layout.back ins) = q.last := Layout.position_back hdest [] ins
    have hleave := leave_last (h.itr.trans hend) h.word
    refine iff_of_true ⟨s.mem, (returns_leave_iff hleave).mpr rfl, ins, ?_, h.lists⟩
      ⟨by simp, by simp⟩
    rw [List.map_nil, List.append_nil]
  | cons n ms ih =>
    by_cases hword : n.2 = q.word
    · -- the node is taken for the end
      refine iff_of_false ?_ fun hcond => hcond.1 n List.mem_cons_self hword
      intro hmoved
      obtain ⟨mem, hreturns, new, -, hnew⟩ := hmoved
      rw [returns_leave_iff (h.leave hword)] at hreturns
      cases hreturns
      exact List.cons_ne_nil _ _ (Layout.range_empty h.lists hnew hdest)
    by_cases hroom : sizeofNode ≤ q.malloc.room s.allocations
    · obtain ⟨mem, new, hturn, hnew, hlists, hdata⟩ := h.turn hword hroom
      have hat : q.At ⟨position q.l (ms ++ q.layout.back ins), mem, s.allocations + 1⟩ ms
          (ins ++ [new]) := by
        refine ⟨?_, hlists, hdata, fun m hm => h.items m (List.mem_cons_of_mem n hm)⟩
        exact (Layout.position_back hdest ms ins).trans
          (Layout.position_back hdest ms (ins ++ [new])).symm
      have hih := ih hat (by simp [hcount])
      have hitems : (ins ++ [new]).map Prod.snd ++ ms.map Prod.snd =
          ins.map Prod.snd ++ (n :: ms).map Prod.snd := by simp [hnew]
      rw [hitems] at hih
      have hmoved : q.Moved s (ins.map Prod.snd ++ (n :: ms).map Prod.snd) ↔
          q.Moved ⟨position q.l (ms ++ q.layout.back ins), mem, s.allocations + 1⟩
            (ins.map Prod.snd ++ (n :: ms).map Prod.snd) := by
        simp only [Moved, returns_turn_iff hturn]
      rw [hmoved, hih, List.forall_mem_cons, and_iff_right (a := n.2 ≠ q.word) hword]
      refine and_congr_right fun _ => ?_
      rw [List.length_cons, Nat.forall_lt_succ_left', Nat.add_zero, ← hcount, and_iff_right hroom]
      simp only [List.length_append, List.length_singleton, hcount, Nat.add_assoc,
        Nat.add_comm 1]
    · refine iff_of_false ?_ fun hcond => ?_
      · intro hmoved
        obtain ⟨mem, hreturns, -⟩ := hmoved
        exact not_returns_of_undefined (h.undefined hword hroom) hreturns
      · exact hroom (hcount ▸ hcond.2 0 (by simp))

theorem At.rotate (h : q.At s (n :: ms) []) (hend : q.layout.AtEnd) (hms : ms ≠ [])
    (hword : n.2 ≠ q.word) {s' : SpliceState}
    (hturn : spliceTurn q.dest q.last q.malloc s = some (.inl s')) :
    ∃ new, q.At s' (ms ++ [new]) [] := by
  by_cases hroom : sizeofNode ≤ q.malloc.room s.allocations
  · obtain ⟨mem, new, hturn', hnew, hlists, hdata⟩ := h.turn hword hroom
    rw [hturn'] at hturn
    cases hturn
    refine ⟨new, ?_, hend.world q.l ms [new] ▸ hlists, hdata, ?_⟩
    · obtain ⟨m, ms, rfl⟩ := List.exists_cons_of_ne_nil hms
      rfl
    · intro m hm
      rcases List.mem_append.mp hm with hm | hm
      · exact h.items m (List.mem_cons_of_mem n hm)
      · rw [List.mem_singleton.mp hm, hnew]
        exact h.items n List.mem_cons_self
  · rw [h.undefined hword hroom] at hturn
    cases hturn

/-- At the end of the range two or more nodes are moved round, until the end is seen in the first
of them. -/
theorem At.first_of_returns {m : Entry} (h : q.At s (n :: m :: ms) []) (hend : q.layout.AtEnd)
    {b : Ptr × Nodes} (hreturns : Returns (spliceTurn q.dest q.last q.malloc) s b) :
    ∃ k ks, Lists b.2 (q.layout.world q.l (k :: ks) []) ∧ k.2 = q.word := by
  refine hreturns.of_invariant (I := fun s => ∃ n m ms, q.At s (n :: m :: ms) [])
    (Q := fun b => ∃ k ks, Lists b.2 (q.layout.world q.l (k :: ks) []) ∧ k.2 = q.word)
    (fun s s' hs hturn => ?_) (fun s b hs hturn => ?_) ⟨n, m, ms, h⟩
  · obtain ⟨n, m, ms, hat⟩ := hs
    have hword : n.2 ≠ q.word := by
      intro hword
      rw [hat.leave hword] at hturn
      cases hturn
    obtain ⟨new, hat'⟩ := hat.rotate hend (List.cons_ne_nil m ms) hword hturn
    obtain ⟨k, ks, hks⟩ := List.exists_cons_of_ne_nil
      (List.append_ne_nil_of_right_ne_nil ms (List.cons_ne_nil new []))
    rw [List.cons_append, hks] at hat'
    exact ⟨m, k, ks, hat'⟩
  · obtain ⟨n, m, ms, hat⟩ := hs
    have hword : n.2 = q.word := by
      by_contra hword
      by_cases hroom : sizeofNode ≤ q.malloc.room s.allocations
      · obtain ⟨mem, new, hturn', -⟩ := hat.turn hword hroom
        rw [hturn'] at hturn
        cases hturn
      · rw [hat.undefined hword hroom] at hturn
        cases hturn
    rw [hat.leave hword] at hturn
    cases hturn
    exact ⟨n, m :: ms, hat.lists, hword⟩

theorem At.moved_end_iff (h : q.At s ms []) (hend : q.layout.AtEnd)
    (hcount : s.allocations = 0) :
    q.Moved s (ms.map Prod.snd) ↔
      ∀ n ∈ ms.head?, n.2 = q.word ∨ ms.length = 1 ∧ sizeofNode ≤ q.malloc.room 0 := by
  cases ms with
  | nil =>
    have hleave := leave_last h.itr h.word
    refine iff_of_true ⟨s.mem, (returns_leave_iff hleave).mpr rfl, [], rfl, h.lists⟩ ?_
    simp
  | cons n ms =>
    simp only [List.head?_cons, Option.mem_def, Option.some.injEq, forall_eq']
    by_cases hword : n.2 = q.word
    · refine iff_of_true ⟨s.mem, (returns_leave_iff (h.leave hword)).mpr rfl, n :: ms, rfl, ?_⟩
        (.inl hword)
      rw [hend.world, List.nil_append]
      exact h.lists
    rw [or_iff_right hword]
    cases ms with
    | nil =>
      by_cases hroom : sizeofNode ≤ q.malloc.room s.allocations
      · obtain ⟨mem, new, hturn, hnew, hlists, hdata⟩ := h.turn hword hroom
        refine iff_of_true ⟨mem, ?_, [new], by simp [hnew], hlists⟩ ⟨rfl, hcount ▸ hroom⟩
        rw [returns_turn_iff hturn, returns_leave_iff (leave_last rfl hdata)]
      · refine iff_of_false ?_ fun hcond => hroom (hcount ▸ hcond.2)
        intro hmoved
        obtain ⟨mem, hreturns, -⟩ := hmoved
        exact not_returns_of_undefined (h.undefined hword hroom) hreturns
    | cons m ms =>
      refine iff_of_false ?_ fun hcond => ?_
      · intro hmoved
        obtain ⟨mem, hreturns, new, hnew, hlists⟩ := hmoved
        obtain ⟨k, ks, hks, hkword⟩ := h.first_of_returns hend hreturns
        rw [hend.world, List.nil_append] at hlists
        have heq := (Layout.holds_range hks).unique (Layout.holds_range hlists)
        rw [List.append_cancel_left_eq, List.append_cancel_right_eq] at heq
        rw [← heq, List.map_cons, List.map_cons] at hnew
        exact hword ((List.cons.inj hnew).1.symm.trans hkword)
      · have hlength := hcond.1
        simp at hlength

/-- Before a node that is not the end of the range, the move takes elements other than the data
word of the end, and chunks with room for a node. At the end of the range it ends only where the
first element is the end's data word, or there is one element. -/
theorem moves_iff (q : RangeSplice) :
    q.Moves ↔
      if q.dest = q.last then
        ∀ n ∈ q.range.head?, n.2 = q.word ∨ q.range.length = 1 ∧ sizeofNode ≤ q.malloc.room 0
      else
        (∀ n ∈ q.range, n.2 ≠ q.word) ∧ ∀ k < q.range.length, sizeofNode ≤ q.malloc.room k := by
  rw [moves_iff_moved]
  split_ifs with hdest
  · exact q.at_first.moved_end_iff (Layout.atEnd_of_dest q.lists hdest) rfl
  · simpa using q.at_first.moved_iff hdest rfl

noncomputable def repeatedElement : RangeSplice where
  mem := fun p =>
    [(100, ⟨0, 200, 0⟩), (200, ⟨7, 300, 100⟩), (300, ⟨7, 124, 200⟩), (124, ⟨0, 124, 300⟩),
      (400, ⟨0, 424, 0⟩), (424, ⟨0, 424, 400⟩)].lookup p
  l := 100
  range := [(200, 7)]
  layout := .inOther [] [(300, 7)] [] 400 [] [] []
  lists :=
    { holds := by decide
      apart := by
        simp [Layout.world, Layout.front, Layout.back, Layout.others, cells, head, tail,
          sizeofNode] }
  items := by decide
  malloc := .lowest

theorem not_moves_repeatedElement : ¬ repeatedElement.Moves := by
  have hdest : repeatedElement.dest ≠ repeatedElement.last := by decide
  have hword : repeatedElement.word = 7 := by decide
  intro h
  have hmoved := moves_iff_moved.mp h
  rw [← List.nil_append (repeatedElement.range.map Prod.snd), ← List.map_nil (f := Prod.snd),
    repeatedElement.at_first.moved_iff hdest rfl] at hmoved
  exact hmoved.1 (200, 7) List.mem_cons_self hword.symm

end RangeSplice
end ChatProject
