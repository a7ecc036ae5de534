import ChatProject.ListRuns
import Mathlib.Data.Option.Basic
import Mathlib.Order.Lattice.Nat

/-!
# Iterators on the list in memory

What each iterator operation does at a node of a list, and which lists it leaves in memory
when several are there.
-/

namespace ChatProject
open Memory

/-- The calls of `malloc( sizeof(Node) )`. Where a call does not fail it returns room for a node
where no node is, in any memory that has such a place. -/
structure NodeAllocator where
  fails : ℕ → Bool
  chunk : ℕ → Nodes → Chunk
  fresh : ∀ k mem, (∃ p ≠ 0, mem p = none) → DLinkedList.Fresh mem (chunk k mem)
  room : ∀ k mem, sizeofNode ≤ (chunk k mem).room

noncomputable def lowestChunk (room : ℕ) (mem : Nodes) : Chunk :=
  ⟨sInf {p | p ≠ 0 ∧ mem p = none}, room, ⟨0, 0, 0⟩⟩

theorem fresh_lowestChunk {room : ℕ} {mem : Nodes} (h : ∃ p ≠ 0, mem p = none) :
    DLinkedList.Fresh mem (lowestChunk room mem) := by
  obtain ⟨hne, hunused⟩ := Nat.sInf_mem h
  exact ⟨hne, hunused⟩

noncomputable def NodeAllocator.lowest (fails : ℕ → Bool) : NodeAllocator where
  fails := fails
  chunk := fun _ => lowestChunk sizeofNode
  fresh := fun _ _ h => fresh_lowestChunk h
  room := fun _ _ => Nat.le_refl _

def NodeAllocator.malloc (a : NodeAllocator) (k : ℕ) (mem : Nodes) : Chunk :=
  if a.fails k then ⟨0, 0, ⟨0, 0, 0⟩⟩ else a.chunk k mem

theorem NodeAllocator.malloc_of_ne {a : NodeAllocator} {k : ℕ} {mem : Nodes}
    (h : (a.malloc k mem).addr ≠ 0) : a.malloc k mem = a.chunk k mem := by
  rw [malloc] at h ⊢
  split_ifs at h ⊢
  · exact absurd rfl h
  · rfl

namespace DLinkedList
variable {mem : Nodes} {l : Ptr} {ns ms : List Entry} {n : Entry}

theorem Holds.itrEnd_eq (h : Holds mem l ns) : itrEnd mem l = some (tail l) := by
  obtain ⟨node, hnode⟩ := Option.ne_none_iff_exists'.mp (h.live _ tail_mem_cells).2
  have hnext := h.ended
  rw [Nodes.next_of_some hnode] at hnext
  simp only [itrEnd, if_neg h.head_ne, Nodes.prev_of_some hnode, Nodes.next_of_some hnode, hnext,
    Option.bind_eq_bind, Option.bind_some]

theorem itrEquals_of_data {a b x y : Ptr} (ha : a ≠ 0) (hb : b ≠ 0) (hx : mem.data a = some x)
    (hy : mem.data b = some y) : itrEquals mem a b = some (decide (x = y)) := by
  simp only [itrEquals, ha, hb, or_self, ↓reduceIte, hx, hy, Option.bind_eq_bind,
    Option.bind_some]
  rfl

theorem Holds.entry_ne (h : Holds mem l (ns ++ n :: ms)) : n.1 ≠ 0 :=
  (h.live _ (mem_cells (by simp))).1

theorem Holds.tail_ne (h : Holds mem l ns) : tail l ≠ 0 := (h.live _ tail_mem_cells).1

theorem position_mem_cells (ns ms : List Entry) : position l ms ∈ cells l (ns ++ ms) := by
  cases ms with
  | nil => exact tail_mem_cells
  | cons m ms => exact mem_cells (by simp)

theorem Holds.exists_word (h : Holds mem l (ns ++ ms)) :
    ∃ word, mem.data (position l ms) = some word := by
  obtain ⟨node, hnode⟩ := Option.ne_none_iff_exists'.mp (h.live _ (position_mem_cells ns ms)).2
  exact ⟨node.data, Nodes.data_of_some hnode⟩

theorem Holds.itrEquals_position (h : Holds mem l (ns ++ n :: ms)) {ks : List Entry} {word : Ptr}
    (hne : position l ks ≠ 0) (hword : mem.data (position l ks) = some word) :
    itrEquals mem n.1 (position l ks) = some (decide (n.2 = word)) :=
  itrEquals_of_data h.entry_ne hne (h.data n (by simp)) hword

theorem Holds.itrEquals_self (h : Holds mem l (ns ++ ms)) :
    itrEquals mem (position l ms) (position l ms) = some true := by
  obtain ⟨word, hword⟩ := h.exists_word
  rw [itrEquals_of_data h.position_live h.position_live hword hword, decide_eq_true rfl]

theorem Holds.itrNext_entry (h : Holds mem l (ns ++ n :: ms)) :
    itrNext mem n.1 = some (position l ms) := by
  rw [itrNext, if_neg (h.live _ (mem_cells (by simp))).1, h.next_entry]

theorem Holds.itrNext_first (h : Holds mem l (n :: ms)) :
    itrNext mem n.1 = some (position l ms) := by
  have hfirst : Holds mem l ([] ++ n :: ms) := h
  exact hfirst.itrNext_entry

theorem Holds.itrNext_tail (h : Holds mem l ns) : itrNext mem (tail l) = some (tail l) := by
  rw [itrNext, if_neg h.tail_ne, h.ended]

theorem Holds.itrGet_entry (h : Holds mem l (ns ++ n :: ms)) : itrGet mem n.1 = some n.2 := by
  obtain ⟨front, back, a, b, hb⟩ := exists_between l ns ms
  have hne : n.1 ≠ b := (h.apart hb).after
  have hn : n.1 ≠ 0 := (h.live _ (mem_cells (by simp))).1
  rw [hb.after_eq] at hne
  simp only [itrGet, if_neg hn, h.next_entry, if_neg hne.symm, h.data n (by simp),
    Option.bind_eq_bind, Option.bind_some]

theorem Holds.itrGet_tail (h : Holds mem l ns) : itrGet mem (tail l) = some 0 := by
  simp only [itrGet, if_neg h.tail_ne, h.ended, if_true, Option.bind_eq_bind, Option.bind_some]
  rfl

theorem Holds.itrPrev_position (h : Holds mem l (ns ++ n :: ms)) :
    itrPrev mem (position l ms) = some n.1 := by
  obtain ⟨front, back, a, b, hb⟩ := exists_between l ns ms
  obtain ⟨hap, -⟩ := h.links hb
  have hne := (h.apart hb).before
  have hlive : position l ms ≠ 0 := h.snoc.position_live
  simp only [itrPrev, if_neg hlive, h.prev_after, hap.2, if_neg hne, Option.bind_eq_bind,
    Option.bind_some]

theorem Holds.itrRemove_entry (h : Holds mem l (ns ++ n :: ms)) :
    ∃ mem', itrRemove mem n.1 = some (n.2, mem') ∧ Holds mem' l (ns ++ ms) ∧ mem' n.1 = none ∧
      mem'.data (tail l) = mem.data (tail l) := by
  obtain ⟨front, back, a, b, hb⟩ := exists_between l ns ms
  have hremoved := h.removed hb
  exact ⟨_, h.itrRemove_eq hb, h.cut hb, hremoved.freed,
    hremoved.data _ h.entry_ne_tail.symm⟩

theorem Holds.pushHead_entry (h : Holds mem l ns) {newNode : Chunk} (hfresh : Fresh mem newNode)
    (hroom : sizeofNode ≤ newNode.room) {item : Ptr} (hitem : item ≠ 0) :
    ∃ mem', pushHead mem l item newNode = some (.success, mem') ∧
      Holds mem' l ((newNode.addr, item) :: ns) ∧
      ∀ q, q ≠ newNode.addr → mem'.data q = mem.data q := by
  have h' : Holds mem l ([] ++ ns) := h
  obtain ⟨front, back, a, b, hb⟩ := exists_between l [] ns
  obtain rfl := hb.first_eq
  obtain ⟨hlink, hne⟩ := h'.link hb
  exact ⟨_, pushHead_eq hfresh hroom h.head_ne hitem hlink hne, h'.put hb hfresh item,
    (h'.inserted hb hfresh item).data⟩

theorem Represents.unique {xs ys : List Ptr}
    (hxs : Represents mem l xs) (hys : Represents mem l ys) : xs = ys := by
  obtain ⟨ps, hforward, -, hdata⟩ := hxs
  obtain ⟨qs, hforward', -, hdata'⟩ := hys
  obtain rfl : ps = qs := (hforward' ps).mp ((hforward ps).mpr rfl)
  exact List.map_injective_iff.mpr (Option.some_injective _) (hdata.symm.trans hdata')

end DLinkedList

end ChatProject
