import ChatProject.ListSteps
import ChatProject.Run

/-!
# The doubly linked list refines a sequence

A run makes calls on a list from `List_Create`. In every state the list is compared with the
sequence that the same calls make of a plain list of items.
-/

namespace ChatProject
open Memory Run

/-- The cells that `f` leads to from a cell, up to the cell `stop`. -/
inductive Path (f : Ptr → Option Ptr) (stop : Ptr) : Ptr → List Ptr → Prop
  | last {a : Ptr} : f a = some stop → Path f stop a []
  | step {a b : Ptr} {ps : List Ptr} : f a = some b → b ≠ stop → Path f stop b ps →
      Path f stop a (b :: ps)

theorem Path.unique {f : Ptr → Option Ptr} {stop a : Ptr} {ps qs : List Ptr}
    (hp : Path f stop a ps) (hq : Path f stop a qs) : ps = qs := by
  induction hp generalizing qs with
  | last hf =>
    cases hq with
    | last => rfl
    | step hf' hne =>
      rw [hf, Option.some.injEq] at hf'
      exact absurd hf'.symm hne
  | step hf hne _ ih =>
    cases hq with
    | last hf' =>
      rw [hf, Option.some.injEq] at hf'
      exact absurd hf' hne
    | step hf' _ hrest =>
      rw [hf, Option.some.injEq] at hf'
      subst hf'
      rw [ih hrest]

theorem path_of_isChain {f : Ptr → Option Ptr} {stop a : Ptr} {ps : List Ptr}
    (h : (a :: ps ++ [stop]).IsChain fun a b => f a = some b) (hstop : stop ∉ ps) :
    Path f stop a ps := by
  induction ps generalizing a with
  | nil => exact .last (List.isChain_cons_cons.mp h).1
  | cons b ps ih =>
    obtain ⟨hab, hrest⟩ := List.isChain_cons_cons.mp h
    obtain ⟨hb, hps⟩ := not_or.mp (List.mem_cons.not.mp hstop)
    exact .step hab (Ne.symm hb) (ih hrest hps)

/-- A call on a list. An iterator is given by the number of steps from `ListItr_Begin`. -/
inductive ListCall
  | pushHead (item : Ptr) (newNode : Chunk)
  | pushTail (item : Ptr) (newNode : Chunk)
  | popHead
  | popTail
  | insertBefore (itr : ℕ) (element : Ptr) (newElement : Chunk)
  | remove (itr : ℕ)

inductive ListAnswer
  | pushed (result : ListResult)
  | popped (result : ListResult) (item : Option Ptr)
  | inserted (itr : Ptr)
  | removed (item : Ptr)

/-- The call on a sequence; 0 is the `NULL` that `ListItr_Remove` returns at the end. -/
def sequenceCall (xs : List Ptr) : ListCall → ListAnswer × List Ptr
  | .pushHead item _ => (.pushed .success, item :: xs)
  | .pushTail item _ => (.pushed .success, xs ++ [item])
  | .popHead =>
    match xs with
    | [] => (.popped .isEmpty none, [])
    | x :: xs => (.popped .success (some x), xs)
  | .popTail =>
    match xs.getLast? with
    | none => (.popped .isEmpty none, xs)
    | some x => (.popped .success (some x), xs.dropLast)
  | .insertBefore itr element newElement =>
    (.inserted newElement.addr, xs.take itr ++ element :: xs.drop itr)
  | .remove itr =>
    match xs[itr]? with
    | none => (.removed 0, xs)
    | some x => (.removed x, xs.eraseIdx itr)

namespace ListCall

/-- The items are not `NULL`, and the allocations succeed, with as much room as asked for. -/
def Permitted (mem : Nodes) : ListCall → Prop
  | pushHead item newNode | pushTail item newNode =>
    item ≠ 0 ∧ DLinkedList.Fresh mem newNode ∧ sizeofNode ≤ newNode.room
  | insertBefore _ element newElement =>
    element ≠ 0 ∧ DLinkedList.Fresh mem newElement ∧ sizeofPtr ≤ newElement.room
  | _ => True

/-- The chunk for the new element of `ListItr_InsertBefore` has room for a node. -/
def Fits : ListCall → Prop
  | insertBefore _ _ newElement => sizeofNode ≤ newElement.room
  | _ => True

end ListCall

namespace DLinkedList

def iterator (mem : Nodes) (l : Ptr) : ℕ → Option Ptr
  | 0 => itrBegin mem l
  | n + 1 => do
    let itr ← iterator mem l n
    itrNext mem itr

def call (mem : Nodes) (l : Ptr) : ListCall → Option (ListAnswer × Nodes)
  | .pushHead item newNode => do
    let (result, mem) ← pushHead mem l item newNode
    pure (.pushed result, mem)
  | .pushTail item newNode => do
    let (result, mem) ← pushTail mem l item newNode
    pure (.pushed result, mem)
  | .popHead => do
    let ((result, item), mem) ← popHead mem l
    pure (.popped result item, mem)
  | .popTail => do
    let ((result, item), mem) ← popTail mem l
    pure (.popped result item, mem)
  | .insertBefore itr element newElement => do
    let itr ← iterator mem l itr
    let (itr, mem) ← itrInsertBefore mem itr element newElement
    pure (.inserted itr, mem)
  | .remove itr => do
    let itr ← iterator mem l itr
    let (item, mem) ← itrRemove mem itr
    pure (.removed item, mem)

def position (l : Ptr) : List Entry → Ptr
  | [] => tail l
  | n :: _ => n.1

section Holds
variable {mem : Nodes} {l a b item : Ptr} {ns ms : List Entry} {n : Entry}
  {front back : List Ptr} {newNode : Chunk}

theorem Between.after_eq (h : Between l ns ms front back a b) : b = position l ms := by
  have hafter := h.after
  cases ms with
  | nil => exact (List.cons.inj hafter).1.symm
  | cons m ms => exact (List.cons.inj hafter).1.symm

theorem Between.before_eq (h : Between l (ns ++ [n]) ms front back a b) : a = n.1 := by
  have hbefore := h.before
  rw [List.map_append, ← List.cons_append] at hbefore
  have hsingle : [n.1] = [a] := (List.append_inj' hbefore rfl).2
  exact (List.cons.inj hsingle).1.symm

theorem Between.first_eq (h : Between l [] ms front back a b) : a = head l := by
  have hbefore : ([] : List Ptr) ++ [head l] = front ++ [a] := h.before
  have hsingle := (List.append_inj' hbefore rfl).2
  exact (List.cons.inj hsingle).1.symm

theorem Holds.head_ne (h : Holds mem l ns) : l ≠ 0 := (h.live l List.mem_cons_self).1

theorem Holds.next_head (h : Holds mem l ns) : mem.next (head l) = some (position l ns) := by
  obtain ⟨front, back, a, b, hb⟩ := exists_between l [] ns
  have h' : Holds mem l ([] ++ ns) := h
  have hlink := (h'.link hb).1.1
  rwa [hb.first_eq, hb.after_eq] at hlink

theorem Holds.snoc (h : Holds mem l (ns ++ n :: ms)) : Holds mem l (ns ++ [n] ++ ms) := by
  rwa [← List.append_cons]

theorem Holds.split (h : Holds mem l ns) (i : ℕ) : Holds mem l (ns.take i ++ ns.drop i) := by
  rwa [List.take_append_drop]

theorem Holds.split_cons (h : Holds mem l ns) {i : ℕ} (hi : i < ns.length) :
    Holds mem l (ns.take i ++ ns[i] :: ns.drop (i + 1)) := by
  rw [← List.drop_eq_getElem_cons hi]
  exact h.split i

theorem Holds.next_entry (h : Holds mem l (ns ++ n :: ms)) :
    mem.next n.1 = some (position l ms) := by
  obtain ⟨front, back, a, b, hb⟩ := exists_between l (ns ++ [n]) ms
  have hlink := (h.snoc.link hb).1.1
  rwa [hb.before_eq, hb.after_eq] at hlink

theorem Holds.prev_after (h : Holds mem l (ns ++ n :: ms)) :
    mem.prev (position l ms) = some n.1 := by
  obtain ⟨front, back, a, b, hb⟩ := exists_between l (ns ++ [n]) ms
  have hlink := (h.snoc.link hb).1.2
  rwa [hb.before_eq, hb.after_eq] at hlink

theorem Holds.entry_ne_tail (h : Holds mem l (ns ++ n :: ms)) : n.1 ≠ tail l := by
  refine h.ne_tail (List.mem_cons_of_mem _ ?_)
  exact List.mem_map_of_mem (by simp)

theorem Holds.position_live (h : Holds mem l (ns ++ ms)) : position l ms ≠ 0 := by
  cases ms with
  | nil => exact (h.live _ tail_mem_cells).1
  | cons m ms => exact (h.live _ (mem_cells (by simp))).1

theorem Holds.next_drop (h : Holds mem l ns) (i : ℕ) :
    mem.next (position l (ns.drop i)) = some (position l (ns.drop (i + 1))) := by
  have hsplit := h.split i
  rw [← List.drop_drop, List.drop_one]
  cases hd : ns.drop i with
  | nil => exact h.ended
  | cons n ms =>
    rw [hd] at hsplit
    exact hsplit.next_entry

theorem Holds.drop_live (h : Holds mem l ns) (i : ℕ) : position l (ns.drop i) ≠ 0 :=
  (h.split i).position_live

theorem Holds.itrNext_drop (h : Holds mem l ns) (i : ℕ) :
    itrNext mem (position l (ns.drop i)) = some (position l (ns.drop (i + 1))) := by
  rw [itrNext, if_neg (h.drop_live i), h.next_drop]

theorem Holds.iterator_eq (h : Holds mem l ns) (i : ℕ) :
    iterator mem l i = some (position l (ns.drop i)) := by
  induction i with
  | zero => rw [iterator, itrBegin, if_neg h.head_ne, h.next_head, List.drop_zero]
  | succ i ih => rw [iterator, ih, Option.bind_eq_bind, Option.bind_some, h.itrNext_drop]

theorem Holds.sizeLoop_eq (h : Holds mem l (ns ++ ms)) (room counter : ℕ) :
    sizeLoop mem l room (position l ms) counter =
      if ms.length ≤ room then some (counter + ms.length) else none := by
  induction ms generalizing ns room counter with
  | nil => cases room <;> simp [sizeLoop, position]
  | cons m ms ih =>
    have hne : position l (m :: ms) ≠ tail l := h.entry_ne_tail
    have hnext : mem.next (position l (m :: ms)) = some (position l ms) := h.next_entry
    cases room with
    | zero => simp [sizeLoop, hne]
    | succ room =>
      simp only [sizeLoop, if_neg hne, hnext, Option.bind_eq_bind, Option.bind_some, ih h.snoc,
        List.length_cons, Nat.add_le_add_iff_right]
      congr 2
      omega

theorem Holds.size_eq (h : Holds mem l ns) :
    size mem l = if ns.length ≤ intMax then some ns.length else none := by
  have h' : Holds mem l ([] ++ ns) := h
  have hloop := h'.sizeLoop_eq intMax 0
  rw [Nat.zero_add] at hloop
  simp only [size, if_neg h.head_ne, h.next_head, Option.bind_eq_bind, Option.bind_some, hloop]

theorem Holds.inserted (h : Holds mem l (ns ++ ms)) (hb : Between l ns ms front back a b)
    (hfresh : Fresh mem newNode) (item : Ptr) :
    Inserted mem (mem.put a b newNode.addr item) a b newNode.addr item := by
  obtain ⟨hlink, hne⟩ := h.link hb
  obtain ⟨na, nb, ha, hb', -, -⟩ := link_iff.mp hlink
  exact inserted_put hlink hne (hfresh.ne ha) (hfresh.ne hb')

theorem Holds.put (h : Holds mem l (ns ++ ms)) (hb : Between l ns ms front back a b)
    (hfresh : Fresh mem newNode) (item : Ptr) :
    Holds (mem.put a b newNode.addr item) l (ns ++ (newNode.addr, item) :: ms) :=
  h.insert hb hfresh.unused hfresh.addr (h.inserted hb hfresh item)

theorem Holds.links (h : Holds mem l (ns ++ n :: ms)) (hb : Between l ns ms front back a b) :
    Link mem a n.1 ∧ Link mem n.1 b := by
  have hlinked := h.linked
  rw [hb.cells_insert] at hlinked
  obtain ⟨-, hap, hrest⟩ := List.isChain_append_cons_cons.mp hlinked
  exact ⟨hap, (List.isChain_cons_cons.mp hrest).1⟩

theorem Holds.apart (h : Holds mem l (ns ++ n :: ms)) (hb : Between l ns ms front back a b) :
    Apart front back a n.1 b := by
  apply apart_of_nodup
  rw [← hb.cells_insert]
  exact h.nodup

theorem Holds.removed (h : Holds mem l (ns ++ n :: ms)) (hb : Between l ns ms front back a b) :
    Removed mem (mem.cut a n.1 b) a n.1 b := by
  obtain ⟨hap, hpb⟩ := h.links hb
  have hapart := h.apart hb
  exact removed_cut hap hpb hapart.before hapart.after hapart.ends

theorem Holds.cut (h : Holds mem l (ns ++ n :: ms)) (hb : Between l ns ms front back a b) :
    Holds (mem.cut a n.1 b) l (ns ++ ms) :=
  h.remove hb (h.removed hb)

theorem Holds.itrRemove_eq (h : Holds mem l (ns ++ n :: ms))
    (hb : Between l ns ms front back a b) :
    itrRemove mem n.1 = some (n.2, mem.cut a n.1 b) := by
  obtain ⟨hap, hpb⟩ := h.links hb
  have hapart := h.apart hb
  have hmem : n ∈ ns ++ n :: ms := by simp
  exact DLinkedList.itrRemove_eq (h.live _ (mem_cells hmem)).1 hap hpb (h.data n hmem)
    hapart.before hapart.after hapart.ends

theorem Holds.itrInsertBefore_eq (h : Holds mem l (ns ++ ms)) {b : Ptr}
    (hb : Between l ns ms front back a b) (hfresh : Fresh mem newNode)
    (hroom : sizeofNode ≤ newNode.room) (hitem : item ≠ 0) :
    itrInsertBefore mem (position l ms) item newNode =
      some (newNode.addr, mem.put a b newNode.addr item) := by
  obtain rfl := hb.after_eq
  obtain ⟨hlink, hne⟩ := h.link hb
  exact DLinkedList.itrInsertBefore_eq hfresh hroom h.position_live hitem hlink hne

theorem Holds.popHead_empty (h : Holds mem l []) :
    popHead mem l = some ((.isEmpty, none), mem) := by
  simp only [popHead, if_neg h.head_ne, h.next_head, position, Option.bind_eq_bind,
    Option.bind_some, ↓reduceIte]

theorem Holds.popTail_empty (h : Holds mem l []) :
    popTail mem l = some ((.isEmpty, none), mem) := by
  simp only [popTail, if_neg h.head_ne, h.next_head, position, Option.bind_eq_bind,
    Option.bind_some, ↓reduceIte]

theorem Holds.itrRemove_end (h : Holds mem l ns) : itrRemove mem (tail l) = some (0, mem) := by
  have hlive : tail l ≠ 0 := (h.live _ tail_mem_cells).1
  simp only [itrRemove, itrNext, if_neg hlive, h.ended, Option.bind_eq_bind, Option.bind_some,
    ↓reduceIte]

/-- What a call makes of the nodes of the list. -/
def Simulates (mem : Nodes) (l : Ptr) (ns : List Entry) (c : ListCall) : Prop :=
  ∃ mem' ns', call mem l c = some ((sequenceCall (ns.map Prod.snd) c).1, mem') ∧
    Holds mem' l ns' ∧ ns'.map Prod.snd = (sequenceCall (ns.map Prod.snd) c).2

/-- One node is put in or taken out, or nothing changes. -/
inductive Rewires (l : Ptr) (mem : Nodes) : List Entry → Nodes → List Entry → Prop
  | same (ns : List Entry) : Rewires l mem ns mem ns
  | put {ns ms : List Entry} {front back : List Ptr} {a b : Ptr} {newNode : Chunk} (item : Ptr) :
      Between l ns ms front back a b → Fresh mem newNode →
      Rewires l mem (ns ++ ms) (mem.put a b newNode.addr item) (ns ++ (newNode.addr, item) :: ms)
  | cut {ns ms : List Entry} {n : Entry} {front back : List Ptr} {a b : Ptr} :
      Between l ns ms front back a b → Rewires l mem (ns ++ n :: ms) (mem.cut a n.1 b) (ns ++ ms)

theorem Rewires.holds {mem' : Nodes} {ns' : List Entry} (h : Rewires l mem ns mem' ns')
    (hholds : Holds mem l ns) : Holds mem' l ns' := by
  cases h with
  | same => exact hholds
  | put item hb hfresh => exact hholds.put hb hfresh item
  | cut hb => exact hholds.cut hb

/-- What a call does to the nodes, and what its items are then. -/
def Performs (mem : Nodes) (l : Ptr) (ns : List Entry) (c : ListCall) : Prop :=
  ∃ mem' ns', call mem l c = some ((sequenceCall (ns.map Prod.snd) c).1, mem') ∧
    Rewires l mem ns mem' ns' ∧ ns'.map Prod.snd = (sequenceCall (ns.map Prod.snd) c).2

theorem Holds.performs_pushHead (h : Holds mem l ns)
    (hp : (ListCall.pushHead item newNode).Permitted mem) :
    Performs mem l ns (.pushHead item newNode) := by
  obtain ⟨hitem, hfresh, hroom⟩ := hp
  have h' : Holds mem l ([] ++ ns) := h
  obtain ⟨front, back, a, b, hb⟩ := exists_between l [] ns
  obtain rfl := hb.first_eq
  obtain ⟨hlink, hne⟩ := h'.link hb
  have heq := pushHead_eq hfresh hroom h.head_ne hitem hlink hne
  refine ⟨_, _, ?_, .put item hb hfresh, rfl⟩
  simp only [call, heq, Option.bind_eq_bind, Option.bind_some]
  rfl

theorem Holds.performs_pushTail (h : Holds mem l ns)
    (hp : (ListCall.pushTail item newNode).Permitted mem) :
    Performs mem l ns (.pushTail item newNode) := by
  obtain ⟨hitem, hfresh, hroom⟩ := hp
  rw [← List.append_nil ns] at h ⊢
  obtain ⟨front, back, a, b, hb⟩ := exists_between l ns []
  obtain rfl := hb.after_eq
  obtain ⟨hlink, hne⟩ := h.link hb
  have heq := pushTail_eq hfresh hroom h.head_ne hitem hlink hne
  refine ⟨_, _, ?_, .put item hb hfresh, ?_⟩
  · simp only [call, heq, Option.bind_eq_bind, Option.bind_some]
    rfl
  · simp [sequenceCall]

theorem Holds.performs_popHead (h : Holds mem l ns) : Performs mem l ns .popHead := by
  cases ns with
  | nil =>
    refine ⟨mem, [], ?_, .same [], rfl⟩
    simp only [call, h.popHead_empty, Option.bind_eq_bind, Option.bind_some]
    rfl
  | cons n ms =>
    have h' : Holds mem l ([] ++ n :: ms) := h
    obtain ⟨front, back, a, b, hb⟩ := exists_between l [] ms
    obtain rfl := hb.first_eq
    obtain ⟨hap, hpb⟩ := h'.links hb
    have hapart := h'.apart hb
    have heq := popHead_eq h.head_ne hap hpb (h.data n (by simp)) hapart.before hapart.after
      hapart.ends h'.entry_ne_tail
    refine ⟨_, _, ?_, .cut hb, rfl⟩
    simp only [call, heq, Option.bind_eq_bind, Option.bind_some]
    rfl

theorem Holds.performs_popTail (h : Holds mem l ns) : Performs mem l ns .popTail := by
  rcases List.eq_nil_or_concat ns with rfl | ⟨ms, n, rfl⟩
  · refine ⟨mem, [], ?_, .same [], rfl⟩
    simp only [call, h.popTail_empty, Option.bind_eq_bind, Option.bind_some]
    rfl
  · rw [List.concat_eq_append] at h ⊢
    obtain ⟨front, back, a, b, hb⟩ := exists_between l ms []
    obtain rfl := hb.after_eq
    obtain ⟨hap, hpb⟩ := h.links hb
    have hapart := h.apart hb
    have hfirst : position l (ms ++ [n]) ≠ tail l := by
      cases ms with
      | nil => exact h.entry_ne_tail
      | cons m ms =>
        have h' : Holds mem l ([] ++ m :: (ms ++ [n])) := h
        exact h'.entry_ne_tail
    have heq := popTail_eq h.head_ne hap hpb (h.data n (by simp)) hapart.before hapart.after
      hapart.ends h.next_head hfirst
    refine ⟨_, _, ?_, .cut hb, ?_⟩
    · simp only [call, heq, Option.bind_eq_bind, Option.bind_some, sequenceCall]
      simp [position]
    · simp [sequenceCall]

theorem Holds.performs_insertBefore (h : Holds mem l ns) {i : ℕ}
    (hp : (ListCall.insertBefore i item newNode).Permitted mem)
    (hf : (ListCall.insertBefore i item newNode).Fits) :
    Performs mem l ns (.insertBefore i item newNode) := by
  obtain ⟨hitem, hfresh, -⟩ := hp
  obtain ⟨front, back, a, b, hb⟩ := exists_between l (ns.take i) (ns.drop i)
  have heq := (h.split i).itrInsertBefore_eq hb hfresh hf hitem
  have hput := Rewires.put item hb hfresh
  rw [List.take_append_drop] at hput
  refine ⟨_, _, ?_, hput, ?_⟩
  · simp only [call, h.iterator_eq, heq, Option.bind_eq_bind, Option.bind_some]
    rfl
  · simp [sequenceCall]

theorem Holds.performs_remove (h : Holds mem l ns) (i : ℕ) : Performs mem l ns (.remove i) := by
  cases hi : ns[i]? with
  | none =>
    have hdrop : ns.drop i = [] := List.drop_eq_nil_of_le (List.getElem?_eq_none_iff.mp hi)
    refine ⟨mem, ns, ?_, .same ns, ?_⟩
    · simp only [call, h.iterator_eq, hdrop, position, h.itrRemove_end, Option.bind_eq_bind,
        Option.bind_some, sequenceCall, List.getElem?_map, hi, Option.map_none]
      rfl
    · simp only [sequenceCall, List.getElem?_map, hi, Option.map_none]
  | some n =>
    obtain ⟨hlt, rfl⟩ := List.getElem?_eq_some_iff.mp hi
    have hdrop : ns.drop i = ns[i] :: ns.drop (i + 1) := List.drop_eq_getElem_cons hlt
    have hsplit : ns.take i ++ ns[i] :: ns.drop (i + 1) = ns := by
      rw [← hdrop, List.take_append_drop]
    obtain ⟨front, back, a, b, hb⟩ := exists_between l (ns.take i) (ns.drop (i + 1))
    have heq := (h.split_cons hlt).itrRemove_eq hb
    have hcut : Rewires l mem (ns.take i ++ ns[i] :: ns.drop (i + 1)) (mem.cut a ns[i].1 b)
        (ns.take i ++ ns.drop (i + 1)) := .cut hb
    rw [hsplit] at hcut
    refine ⟨_, _, ?_, hcut, ?_⟩
    · simp only [call, h.iterator_eq, hdrop, position, heq, Option.bind_eq_bind, Option.bind_some,
        sequenceCall, List.getElem?_map, hi, Option.map_some]
      rfl
    · simp only [sequenceCall, List.getElem?_map, hi, Option.map_some, List.map_append,
        List.map_take, List.map_drop, List.eraseIdx_eq_take_drop_succ]

theorem Holds.performs (h : Holds mem l ns) {c : ListCall} (hp : c.Permitted mem) (hf : c.Fits) :
    Performs mem l ns c := by
  cases c with
  | pushHead item newNode => exact h.performs_pushHead hp
  | pushTail item newNode => exact h.performs_pushTail hp
  | popHead => exact h.performs_popHead
  | popTail => exact h.performs_popTail
  | insertBefore i item newNode => exact h.performs_insertBefore hp hf
  | remove i => exact h.performs_remove i

/-- One call: the answer is that of the sequence, and so are the nodes afterwards. -/
theorem Holds.simulates (h : Holds mem l ns) {c : ListCall} (hp : c.Permitted mem)
    (hf : c.Fits) : Simulates mem l ns c := by
  obtain ⟨mem', ns', hcall, hrewires, hitems⟩ := h.performs hp hf
  exact ⟨mem', ns', hcall, hrewires.holds h, hitems⟩

/-- Without room for a node the new element overruns its chunk. -/
theorem Holds.fits_of_defined (h : Holds mem l ns) {c : ListCall} (hp : c.Permitted mem)
    (hdef : call mem l c ≠ none) : c.Fits := by
  cases c with
  | insertBefore i element newElement =>
    obtain ⟨helement, hfresh, -⟩ := hp
    by_contra hroom
    have halloc : mem.allocate newElement = none := if_pos (.inr (Nat.not_le.mp hroom))
    apply hdef
    simp [call, h.iterator_eq, itrInsertBefore, helement, h.drop_live i, hfresh.addr, halloc]
  | _ => trivial

end Holds

/-- Forward and backward, the list has the same nodes, and they hold the items `xs`. -/
def Represents (mem : Nodes) (l : Ptr) (xs : List Ptr) : Prop :=
  ∃ ps, (∀ qs, Path mem.next (tail l) (head l) qs ↔ qs = ps) ∧
    (∀ qs, Path mem.prev (head l) (tail l) qs ↔ qs = ps.reverse) ∧ ps.map mem.data = xs.map some

theorem Holds.map_data {mem : Nodes} {l : Ptr} {ns : List Entry} (h : Holds mem l ns) :
    (ns.map Prod.fst).map mem.data = (ns.map Prod.snd).map some := by
  rw [List.map_map, List.map_map]
  exact List.map_congr_left h.data

theorem Holds.path {mem : Nodes} {l : Ptr} {ns : List Entry} (h : Holds mem l ns) :
    Path mem.next (tail l) (head l) (ns.map Prod.fst) := by
  have htail : tail l ∉ ns.map Prod.fst := by
    intro hmem
    exact h.ne_tail (List.mem_cons_of_mem _ hmem) rfl
  exact path_of_isChain (h.linked.imp fun _ _ hlink => hlink.1) htail

theorem Holds.represents {mem : Nodes} {l : Ptr} {ns : List Entry} (h : Holds mem l ns) :
    Represents mem l (ns.map Prod.snd) := by
  have hnodup := h.nodup
  have hhead : head l ∉ (ns.map Prod.fst).reverse := by
    rw [cells, List.cons_append, List.nodup_cons] at hnodup
    intro hmem
    exact hnodup.1 (List.mem_append_left _ (List.mem_reverse.mp hmem))
  have hbackward : Path mem.prev (head l) (tail l) (ns.map Prod.fst).reverse := by
    refine path_of_isChain ?_ hhead
    have hrev : tail l :: (ns.map Prod.fst).reverse ++ [head l] = (cells l ns).reverse := by
      simp [cells]
    rw [hrev, List.isChain_reverse]
    exact h.linked.imp fun _ _ hlink => hlink.2
  refine ⟨ns.map Prod.fst, fun qs => ?_, fun qs => ?_, ?_⟩
  · exact ⟨fun hqs => hqs.unique h.path, fun hqs => hqs ▸ h.path⟩
  · exact ⟨fun hqs => hqs.unique hbackward, fun hqs => hqs ▸ hbackward⟩
  · exact h.map_data

theorem holds_create (mem : Nodes) {l : Ptr} (hl : l ≠ 0) (headData tailData : Ptr) :
    Holds (create mem l headData tailData).2 l [] := by
  have hne : head l ≠ tail l := by simp [head, tail, sizeofNode]
  have hmem : (create mem l headData tailData).2 =
      Function.update (Function.update mem (head l) (some ⟨headData, tail l, 0⟩))
        (tail l) (some ⟨tailData, tail l, head l⟩) := by
    rw [create, if_neg hl]
  rw [hmem]
  constructor
  · refine List.isChain_cons_cons.mpr ⟨⟨?_, ?_⟩, List.isChain_singleton _⟩
    · simp [Nodes.next, Function.update_of_ne hne]
    · simp [Nodes.prev]
  · simpa [cells] using hne
  · simp [Nodes.next]
  · intro p hp
    simp only [cells, List.map_nil, List.cons_append, List.nil_append, List.mem_cons,
      List.not_mem_nil, or_false] at hp
    rcases hp with hp | hp
    · rw [hp, Function.update_of_ne hne, Function.update_self]
      exact ⟨hl, Option.some_ne_none _⟩
    · rw [hp, Function.update_self]
      exact ⟨by simp [tail, sizeofNode], Option.some_ne_none _⟩
  · simp

end DLinkedList

open DLinkedList

/-- Calls on the list `l` that `List_Create` makes in the memory `memory`. -/
structure ListRun where
  memory : Nodes
  l : Ptr
  allocated : l ≠ 0
  headData : Ptr
  tailData : Ptr
  calls : List ListCall
  permitted : ∀ pre c, Occurs calls pre c →
    ∀ mem, after (fun o c => o.bind fun mem => (call mem l c).map Prod.snd)
      (some (create memory l headData tailData).2) pre = some mem → c.Permitted mem

namespace ListRun

def start (r : ListRun) : Nodes := (create r.memory r.l r.headData r.tailData).2

def after (r : ListRun) (pre : List ListCall) : Option Nodes :=
  Run.after (fun o c => o.bind fun mem => (call mem r.l c).map Prod.snd) (some r.start) pre

def sequence (pre : List ListCall) : List Ptr :=
  Run.after (fun xs c => (sequenceCall xs c).2) [] pre

/-- Every call is defined and answered as the sequence answers it, a pop of an empty list
changes nothing, and in every state the list has the items of the sequence and its length. -/
structure Refines (r : ListRun) : Prop where
  represents : ∀ pre, pre <+: r.calls → ∃ mem, r.after pre = some mem ∧
    Represents mem r.l (sequence pre) ∧ size mem r.l = some (sequence pre).length
  answer : ∀ pre c mem, Occurs r.calls pre c → r.after pre = some mem →
    (call mem r.l c).map Prod.fst = some (sequenceCall (sequence pre) c).1
  empty : ∀ pre mem, pre <+: r.calls → r.after pre = some mem → sequence pre = [] →
    popHead mem r.l = some ((.isEmpty, none), mem) ∧ popTail mem r.l = some ((.isEmpty, none), mem)

/-- The new elements fit into their chunks, and the length of the list into an `int`. -/
structure Fits (r : ListRun) : Prop where
  room : ∀ c ∈ r.calls, c.Fits
  length : ∀ pre, pre <+: r.calls → (sequence pre).length ≤ intMax

variable {r : ListRun} {pre : List ListCall} {c : ListCall}

theorem after_snoc : r.after (pre ++ [c]) =
    (r.after pre).bind fun mem => (call mem r.l c).map Prod.snd :=
  Run.after_snoc _ _ _ _

theorem sequence_snoc : sequence (pre ++ [c]) = (sequenceCall (sequence pre) c).2 :=
  Run.after_snoc _ _ _ _

theorem holds (hpre : pre <+: r.calls) (hroom : ∀ c ∈ pre, c.Fits) :
    ∃ mem ns, r.after pre = some mem ∧ Holds mem r.l ns ∧ ns.map Prod.snd = sequence pre := by
  induction pre using List.reverseRecOn with
  | nil => exact ⟨r.start, [], rfl, holds_create _ r.allocated _ _, rfl⟩
  | append_singleton pre c ih =>
    obtain ⟨mem, ns, hmem, hns, hseq⟩ := ih (Occurs.history hpre) fun c hc =>
      hroom c (List.mem_append_left _ hc)
    obtain ⟨mem', ns', hcall, hns', hseq'⟩ :=
      hns.simulates (r.permitted pre c hpre mem hmem) (hroom c (by simp))
    refine ⟨mem', ns', ?_, hns', ?_⟩
    · rw [after_snoc, hmem, Option.bind_some, hcall, Option.map_some]
    · rw [hseq', hseq, sequence_snoc]

theorem room_of_defined (hdef : ∀ pre, pre <+: r.calls → r.after pre ≠ none)
    (hpre : pre <+: r.calls) : ∀ c ∈ pre, c.Fits := by
  induction pre using List.reverseRecOn with
  | nil => simp
  | append_singleton pre c ih =>
    have hroom := ih (Occurs.history hpre)
    obtain ⟨mem, ns, hmem, hns, -⟩ := holds (Occurs.history hpre) hroom
    intro c' hc'
    rcases List.mem_append.mp hc' with hc' | hc'
    · exact hroom c' hc'
    · rw [List.mem_singleton.mp hc']
      refine hns.fits_of_defined (r.permitted pre c hpre mem hmem) fun hnone => ?_
      apply hdef _ hpre
      rw [after_snoc, hmem, Option.bind_some, hnone, Option.map_none]

theorem fits_of_refines (h : r.Refines) : r.Fits := by
  have hdef : ∀ pre, pre <+: r.calls → r.after pre ≠ none := by
    intro pre hpre
    obtain ⟨mem, hmem, -⟩ := h.represents pre hpre
    simp [hmem]
  refine ⟨room_of_defined hdef List.prefix_rfl, ?_⟩
  intro pre hpre
  obtain ⟨mem, ns, hmem, hns, hseq⟩ := holds hpre (room_of_defined hdef hpre)
  obtain ⟨mem', hmem', -, hsize⟩ := h.represents pre hpre
  obtain rfl : mem = mem' := Option.some.inj (hmem.symm.trans hmem')
  rw [hns.size_eq, ← hseq, List.length_map] at hsize
  split_ifs at hsize with hle
  rwa [← hseq, List.length_map]

theorem refines_of_fits (h : r.Fits) : r.Refines where
  represents := by
    intro pre hpre
    obtain ⟨mem, ns, hmem, hns, hseq⟩ := holds hpre fun c hc => h.room c (hpre.subset hc)
    have hle := h.length pre hpre
    rw [← hseq, List.length_map] at hle
    refine ⟨mem, hmem, hseq ▸ hns.represents, ?_⟩
    rw [hns.size_eq, if_pos hle, ← hseq, List.length_map]
  answer := by
    intro pre c mem hocc hmem
    obtain ⟨mem', ns, hmem', hns, hseq⟩ := holds hocc.history fun c hc =>
      h.room c (hocc.history.subset hc)
    obtain rfl : mem = mem' := Option.some.inj (hmem.symm.trans hmem')
    obtain ⟨mem'', ns', hcall, -, -⟩ := hns.simulates (r.permitted pre c hocc mem hmem)
      (h.room c (hocc.subset (by simp)))
    rw [hcall, hseq, Option.map_some]
  empty := by
    intro pre mem hpre hmem hempty
    obtain ⟨mem', ns, hmem', hns, hseq⟩ := holds hpre fun c hc => h.room c (hpre.subset hc)
    obtain rfl : mem = mem' := Option.some.inj (hmem.symm.trans hmem')
    obtain rfl : ns = [] := List.map_eq_nil_iff.mp (hseq.trans hempty)
    exact ⟨hns.popHead_empty, hns.popTail_empty⟩

/-- The list refines the sequence in exactly the runs in which every new element fits into
its chunk and the length stays within an `int`. -/
theorem refines_iff (r : ListRun) : r.Refines ↔ r.Fits :=
  ⟨fits_of_refines, refines_of_fits⟩

/-- An insertion at the end of the new list; `malloc` returns no more than it is asked for. -/
def smallBlock : ListRun where
  memory := fun _ => none
  l := 100
  allocated := by decide
  headData := blank
  tailData := blank
  calls := [.insertBefore 0 7 ⟨200, sizeofPtr, ⟨blank, blank, blank⟩⟩]
  permitted := by
    refine (forall_occurs_snoc [] _).mpr ⟨forall_occurs_nil _, ?_⟩
    intro mem hmem
    obtain rfl := Option.some.inj hmem
    exact ⟨by decide, ⟨by decide, rfl⟩, le_refl _⟩

/-- The new element overruns its chunk. -/
theorem refines_fails : ¬ smallBlock.Refines := by
  intro h
  obtain ⟨mem, hmem, -⟩ := h.represents smallBlock.calls List.prefix_rfl
  have hnone : (smallBlock.after smallBlock.calls).isSome = false := by decide
  rw [hmem] at hnone
  cases hnone

end ListRun
end ChatProject
