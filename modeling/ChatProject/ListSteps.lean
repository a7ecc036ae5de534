import ChatProject.ListLinks

/-!
# What the list operations do to the links

Each operation on a list that is linked as it should be is defined, and puts in or takes
out one node at its place.
-/

namespace ChatProject
open Memory

theorem link_iff {mem : Nodes} {a b : Ptr} :
    Link mem a b ↔ ∃ na nb, mem a = some na ∧ mem b = some nb ∧ na.next = b ∧ nb.prev = a := by
  simp only [Link, Nodes.next, Nodes.prev, Option.map_eq_some_iff]
  tauto

namespace Nodes
variable {mem : Nodes} {a b p q item : Ptr} {n : Node}

@[simp] theorem next_of_some (h : mem p = some n) : mem.next p = some n.next := by
  rw [next, h, Option.map_some]

@[simp] theorem prev_of_some (h : mem p = some n) : mem.prev p = some n.prev := by
  rw [prev, h, Option.map_some]

@[simp] theorem data_of_some (h : mem p = some n) : mem.data p = some n.data := by
  rw [data, h, Option.map_some]

@[simp] theorem setData_of_some (h : mem p = some n) :
    mem.setData p item = some (Function.update mem p (some { n with data := item })) := by
  rw [setData, modify, h, Option.map_some]

@[simp] theorem setNext_of_some (h : mem p = some n) :
    mem.setNext p q = some (Function.update mem p (some { n with next := q })) := by
  rw [setNext, modify, h, Option.map_some]

@[simp] theorem setPrev_of_some (h : mem p = some n) :
    mem.setPrev p q = some (Function.update mem p (some { n with prev := q })) := by
  rw [setPrev, modify, h, Option.map_some]

@[simp] theorem free_of_some (h : mem p = some n) :
    mem.free p = some (Function.update mem p none) := by
  rw [free, h, Option.map_some]

def put (mem : Nodes) (a b p item : Ptr) : Nodes := fun q =>
  if q = p then some ⟨item, b, a⟩
  else if q = a then (mem a).map fun n => { n with next := p }
  else if q = b then (mem b).map fun n => { n with prev := p }
  else mem q

def cut (mem : Nodes) (a p b : Ptr) : Nodes := fun q =>
  if q = p then none
  else if q = a then (mem a).map fun n => { n with next := b }
  else if q = b then (mem b).map fun n => { n with prev := a }
  else mem q

end Nodes

theorem inserted_put {mem : Nodes} {a b p item : Ptr} (hlink : Link mem a b) (hne : a ≠ b)
    (hpa : a ≠ p) (hpb : b ≠ p) : Inserted mem (mem.put a b p item) a b p item := by
  obtain ⟨na, nb, ha, hb, -, -⟩ := link_iff.mp hlink
  constructor
  · simp [Nodes.put]
  · simp [Nodes.next, Nodes.put, hpa, ha]
  · simp [Nodes.prev, Nodes.put, hpb, hne.symm, hb]
  · intro q hqa hqp
    by_cases hqb : q = b <;> simp [Nodes.next, Nodes.put, hqa, hqp, hqb, hpb, hne.symm, hb]
  · intro q hqb hqp
    by_cases hqa : q = a <;> simp [Nodes.prev, Nodes.put, hqb, hqp, hqa, hpa, ha]
  · intro q hqp
    by_cases hqa : q = a
    · simp [Nodes.data, Nodes.put, hqa, hpa, ha]
    · by_cases hqb : q = b <;> simp [Nodes.data, Nodes.put, hqa, hqp, hqb, hpb, hne.symm, hb]

theorem removed_cut {mem : Nodes} {a b p : Ptr} (hap : Link mem a p) (hpb : Link mem p b)
    (ha : a ≠ p) (hb : p ≠ b) (hne : a ≠ b) : Removed mem (mem.cut a p b) a p b := by
  obtain ⟨na, -, hna, -, -, -⟩ := link_iff.mp hap
  obtain ⟨-, nb, -, hnb, -, -⟩ := link_iff.mp hpb
  constructor
  · simp [Nodes.cut]
  · simp [Nodes.next, Nodes.cut, ha, hna]
  · simp [Nodes.prev, Nodes.cut, hb.symm, hne.symm, hnb]
  · intro q hqa hqp
    by_cases hqb : q = b <;> simp [Nodes.next, Nodes.cut, hqa, hqp, hqb, hb.symm, hne.symm, hnb]
  · intro q hqb hqp
    by_cases hqa : q = a <;> simp [Nodes.prev, Nodes.cut, hqb, hqp, hqa, ha, hna]
  · intro q hqp
    by_cases hqa : q = a
    · simp [Nodes.data, Nodes.cut, hqa, ha, hna]
    · by_cases hqb : q = b <;>
        simp [Nodes.data, Nodes.cut, hqa, hqp, hqb, hb.symm, hne.symm, hnb]

namespace DLinkedList

/-- `malloc` has returned memory that no node is in. -/
structure Fresh (mem : Nodes) (b : Chunk) : Prop where
  addr : b.addr ≠ 0
  unused : mem b.addr = none

section Insert
variable {mem : Nodes} {l a b item : Ptr} {newNode : Chunk}

theorem Fresh.ne {q : Ptr} {n : Node} (h : Fresh mem newNode) (hq : mem q = some n) :
    q ≠ newNode.addr := by
  rintro rfl
  rw [h.unused] at hq
  cases hq

theorem Fresh.allocate (h : Fresh mem newNode) (hroom : sizeofNode ≤ newNode.room) :
    mem.allocate newNode = some (Function.update mem newNode.addr (some newNode.left)) := by
  rw [Nodes.allocate, if_neg]
  simpa [h.addr] using hroom

theorem pushHead_eq (hfresh : Fresh mem newNode) (hroom : sizeofNode ≤ newNode.room)
    (hl : l ≠ 0) (hitem : item ≠ 0) (hlink : Link mem (head l) b) (hne : head l ≠ b) :
    pushHead mem l item newNode = some (.success, mem.put (head l) b newNode.addr item) := by
  obtain ⟨na, nb, ha, hb, rfl, -⟩ := link_iff.mp hlink
  have hanew := hfresh.ne ha
  have hbnew := hfresh.ne hb
  have hwrites : Function.update (Function.update (Function.update (Function.update mem
      newNode.addr (some ⟨newNode.left.data, na.next, head l⟩))
      (head l) (some ⟨na.data, newNode.addr, na.prev⟩))
      na.next (some ⟨nb.data, nb.next, newNode.addr⟩))
      newNode.addr (some ⟨item, na.next, head l⟩) =
        mem.put (head l) na.next newNode.addr item := by
    funext q
    simp only [Nodes.put, Function.update_apply, ha, hb, Option.map_some]
    grind
  simpa [pushHead, hl, hitem, hfresh.addr, hfresh.allocate hroom, ha, hb, hanew, hbnew, hne.symm,
    hanew.symm, hbnew.symm] using hwrites

theorem pushHead_refused (h : l = 0 ∨ item = 0 ∨ newNode.addr = 0) :
    ∃ result, pushHead mem l item newNode = some (result, mem) := by
  by_cases hl : l = 0
  · exact ⟨.uninitializedError, if_pos hl⟩
  by_cases hitem : item = 0
  · exact ⟨.nullElementError, by rw [pushHead, if_neg hl, if_pos hitem]⟩
  have haddr := (h.resolve_left hl).resolve_left hitem
  exact ⟨.allocationError, by rw [pushHead, if_neg hl, if_neg hitem, if_pos haddr]⟩

theorem pushTail_eq (hfresh : Fresh mem newNode) (hroom : sizeofNode ≤ newNode.room)
    (hl : l ≠ 0) (hitem : item ≠ 0) (hlink : Link mem a (tail l)) (hne : a ≠ tail l) :
    pushTail mem l item newNode = some (.success, mem.put a (tail l) newNode.addr item) := by
  obtain ⟨na, nb, ha, hb, -, rfl⟩ := link_iff.mp hlink
  have hanew := hfresh.ne ha
  have hbnew := hfresh.ne hb
  have hwrites : Function.update (Function.update (Function.update (Function.update mem
      newNode.addr (some ⟨newNode.left.data, tail l, nb.prev⟩))
      nb.prev (some ⟨na.data, newNode.addr, na.prev⟩))
      (tail l) (some ⟨nb.data, nb.next, newNode.addr⟩))
      newNode.addr (some ⟨item, tail l, nb.prev⟩) =
        mem.put nb.prev (tail l) newNode.addr item := by
    funext q
    simp only [Nodes.put, Function.update_apply, ha, hb, Option.map_some]
    grind
  simpa [pushTail, hl, hitem, hfresh.allocate hroom, ha, hb, hanew, hbnew, hne.symm,
    hanew.symm, hbnew.symm] using hwrites

theorem itrInsertBefore_eq (hfresh : Fresh mem newNode) (hroom : sizeofNode ≤ newNode.room)
    (hitr : b ≠ 0) (hitem : item ≠ 0) (hlink : Link mem a b) (hne : a ≠ b) :
    itrInsertBefore mem b item newNode = some (newNode.addr, mem.put a b newNode.addr item) := by
  obtain ⟨na, nb, ha, hb, -, rfl⟩ := link_iff.mp hlink
  have hanew := hfresh.ne ha
  have hbnew := hfresh.ne hb
  have hwrites : Function.update (Function.update (Function.update mem
      newNode.addr (some ⟨item, b, nb.prev⟩))
      b (some ⟨nb.data, nb.next, newNode.addr⟩))
      nb.prev (some ⟨na.data, newNode.addr, na.prev⟩) =
        mem.put nb.prev b newNode.addr item := by
    funext q
    simp only [Nodes.put, Function.update_apply, ha, hb, Option.map_some]
    grind
  simpa [itrInsertBefore, hitr, hitem, hfresh.addr, hfresh.allocate hroom, ha, hb, hanew, hbnew,
    hne, hanew.symm, hbnew.symm] using hwrites

theorem itrInsertBefore_refused (h : item = 0 ∨ newNode.addr = 0) :
    itrInsertBefore mem b item newNode = some (0, mem) := by
  rw [itrInsertBefore]
  by_cases hnull : item = 0 ∨ b = 0
  · rw [if_pos hnull]
  · rw [if_neg hnull, if_pos (h.resolve_left (not_or.mp hnull).1)]

end Insert

section Remove
variable {mem : Nodes} {l a b p item : Ptr}

theorem popHead_eq (hl : l ≠ 0) (hap : Link mem (head l) p) (hpb : Link mem p b)
    (hitem : mem.data p = some item) (ha : head l ≠ p) (hb : p ≠ b) (hne : head l ≠ b)
    (htail : p ≠ tail l) :
    popHead mem l = some ((.success, some item), mem.cut (head l) p b) := by
  obtain ⟨na, np, hna, hnp, rfl, -⟩ := link_iff.mp hap
  obtain ⟨np', nb, hnp', hnb, rfl, -⟩ := link_iff.mp hpb
  obtain rfl : np = np' := Option.some.inj (hnp.symm.trans hnp')
  obtain rfl : np.data = item := by simpa [hnp] using hitem
  have hwrites : Function.update (Function.update (Function.update mem
      (head l) (some ⟨na.data, np.next, na.prev⟩))
      np.next (some ⟨nb.data, nb.next, head l⟩))
      na.next none = mem.cut (head l) na.next np.next := by
    funext q
    simp only [Nodes.cut, Function.update_apply, hna, hnb, Option.map_some]
    grind
  simpa [popHead, hl, hna, hnp, hnb, hb, htail, ha.symm, hb.symm, hne.symm] using hwrites

theorem popTail_eq (hl : l ≠ 0) (hap : Link mem a p) (hpb : Link mem p (tail l))
    (hitem : mem.data p = some item) (ha : a ≠ p) (hb : p ≠ tail l) (hne : a ≠ tail l)
    {first : Ptr} (hfirst : mem.next (head l) = some first) (htail : first ≠ tail l) :
    popTail mem l = some ((.success, some item), mem.cut a p (tail l)) := by
  obtain ⟨na, np, hna, hnp, -, rfl⟩ := link_iff.mp hap
  obtain ⟨np', nb, hnp', hnb, -, rfl⟩ := link_iff.mp hpb
  obtain rfl : np = np' := Option.some.inj (hnp.symm.trans hnp')
  obtain rfl : np.data = item := by simpa [hnp] using hitem
  have hwrites : Function.update (Function.update (Function.update mem
      np.prev (some ⟨na.data, tail l, na.prev⟩))
      (tail l) (some ⟨nb.data, nb.next, np.prev⟩))
      nb.prev none = mem.cut np.prev nb.prev (tail l) := by
    funext q
    simp only [Nodes.cut, Function.update_apply, hna, hnb, Option.map_some]
    grind
  simpa [popTail, hl, hfirst, hna, hnp, hnb, hb, htail, ha.symm, hb.symm, hne.symm] using hwrites

theorem itrRemove_eq (hp : p ≠ 0) (hap : Link mem a p) (hpb : Link mem p b)
    (hitem : mem.data p = some item) (ha : a ≠ p) (hb : p ≠ b) (hne : a ≠ b) :
    itrRemove mem p = some (item, mem.cut a p b) := by
  obtain ⟨na, np, hna, hnp, -, rfl⟩ := link_iff.mp hap
  obtain ⟨np', nb, hnp', hnb, rfl, -⟩ := link_iff.mp hpb
  obtain rfl : np = np' := Option.some.inj (hnp.symm.trans hnp')
  obtain rfl : np.data = item := by simpa [hnp] using hitem
  have hwrites : Function.update (Function.update (Function.update mem
      np.next (some ⟨nb.data, nb.next, np.prev⟩))
      np.prev (some ⟨na.data, np.next, na.prev⟩))
      p none = mem.cut np.prev p np.next := by
    funext q
    simp only [Nodes.cut, Function.update_apply, hna, hnb, Option.map_some]
  simpa [itrRemove, itrNext, hp, hna, hnp, hnb, hb, hne, ha.symm, hb.symm, hne.symm] using hwrites

end Remove
end DLinkedList
end ChatProject
