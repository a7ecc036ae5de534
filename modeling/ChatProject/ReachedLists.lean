import ChatProject.ListRuns

/-!
# The lists that the calls make

A list is well formed if it is linked and its head sentinel has no predecessor. `List_Create` makes
such a list and every call keeps it so, whatever `malloc` returns and whatever item is pushed, as
long as the call is defined.
-/

namespace ChatProject
open Memory

namespace DLinkedList

/-- Memory from a call of `malloc( asked )`, if it is not `NULL`. -/
def Malloced (mem : Nodes) (asked : ℕ) (b : Chunk) : Prop :=
  b.addr ≠ 0 → Fresh mem b ∧ asked ≤ b.room

end DLinkedList

open DLinkedList

/-- The chunk of the call is one that `malloc` returns. -/
def ListCall.Allocated (mem : Nodes) : ListCall → Prop
  | pushHead _ newNode | pushTail _ newNode => Malloced mem sizeofNode newNode
  | insertBefore _ _ newElement => Malloced mem sizeofPtr newElement
  | _ => True

namespace DLinkedList

/-- The list `l` after calls from `List_Create` on. -/
inductive Reached (l : Ptr) : Nodes → Prop
  | create (mem : Nodes) (headData tailData : Ptr) : l ≠ 0 →
      Reached l (create mem l headData tailData).2
  | call {mem mem' : Nodes} {c : ListCall} {answer : ListAnswer} : Reached l mem →
      c.Allocated mem → call mem l c = some (answer, mem') → Reached l mem'

structure WellFormed (mem : Nodes) (l : Ptr) (ns : List Entry) : Prop extends Holds mem l ns where
  closed : mem.prev (head l) = some 0

variable {mem mem' : Nodes} {l item : Ptr} {ns ns' : List Entry} {newNode : Chunk}
  {c : ListCall} {answer : ListAnswer}

theorem Holds.head_notMem (h : Holds mem l ns) : head l ∉ ns.map Prod.fst ++ [tail l] := by
  have hnodup := h.nodup
  rw [cells, List.cons_append] at hnodup
  exact (List.nodup_cons.mp hnodup).1

theorem Between.head_ne_after {ms : List Entry} {front back : List Ptr} {a b : Ptr}
    (hb : Between l ns ms front back a b) (h : Holds mem l (ns ++ ms)) : head l ≠ b := by
  have hmem : b ∈ (ns ++ ms).map Prod.fst ++ [tail l] := by
    rw [List.map_append, List.append_assoc, hb.after]
    simp
  intro heq
  exact h.head_notMem (heq ▸ hmem)

theorem Rewires.prev_head (h : Rewires l mem ns mem' ns') (hholds : Holds mem l ns) :
    mem'.prev (head l) = mem.prev (head l) := by
  cases h with
  | same => rfl
  | @put ns ms front back a b newNode item hb hfresh =>
    have hlive : mem (head l) ≠ none := (hholds.live _ List.mem_cons_self).2
    have hne_new : head l ≠ newNode.addr := by
      intro heq
      exact hlive (heq ▸ hfresh.unused)
    exact (hholds.inserted hb hfresh item).prev _ (hb.head_ne_after hholds) hne_new
  | @cut ns ms n front back a b hb =>
    have hne_node : head l ≠ n.1 := by
      intro heq
      apply hholds.head_notMem
      simp [heq]
    exact (hholds.removed hb).prev _ (hb.head_ne_after (hholds.cut hb)) hne_node

theorem Rewires.wellFormed (h : Rewires l mem ns mem' ns') (hformed : WellFormed mem l ns) :
    WellFormed mem' l ns' where
  toHolds := h.holds hformed.toHolds
  closed := (h.prev_head hformed.toHolds).trans hformed.closed

theorem wellFormed_create (mem : Nodes) (hl : l ≠ 0) (headData tailData : Ptr) :
    WellFormed (create mem l headData tailData).2 l [] where
  toHolds := holds_create mem hl headData tailData
  closed := by
    have hne : head l ≠ tail l := by simp [head, tail, sizeofNode]
    simp only [create, if_neg hl, Nodes.prev, Function.update_of_ne hne, Function.update_self,
      Option.map_some]

theorem Holds.rewires_of_permitted (h : Holds mem l ns)
    (hcall : call mem l c = some (answer, mem')) (hp : c.Permitted mem) :
    ∃ ns', Rewires l mem ns mem' ns' := by
  have hdef : call mem l c ≠ none := by
    rw [hcall]
    exact Option.some_ne_none _
  obtain ⟨mem'', ns', hcall', hrewires, -⟩ := h.performs hp (h.fits_of_defined hp hdef)
  rw [hcall] at hcall'
  cases hcall'
  exact ⟨ns', hrewires⟩

theorem rewires_of_refused (hrefused : call mem l c = some (answer, mem))
    {answer' : ListAnswer} (hcall : call mem l c = some (answer', mem')) :
    ∃ ns', Rewires l mem ns mem' ns' := by
  rw [hrefused] at hcall
  cases hcall
  exact ⟨ns, .same ns⟩

theorem Holds.rewires_of_call (h : Holds mem l ns) (ha : c.Allocated mem)
    (hcall : call mem l c = some (answer, mem')) : ∃ ns', Rewires l mem ns mem' ns' := by
  cases c with
  | pushHead item newNode =>
    by_cases hrefused : item = 0 ∨ newNode.addr = 0
    · obtain ⟨result, hpush⟩ : ∃ result, pushHead mem l item newNode = some (result, mem) :=
        pushHead_refused (.inr hrefused)
      have hsame : call mem l (.pushHead item newNode) = some (.pushed result, mem) := by
        rw [call, hpush]
        rfl
      exact rewires_of_refused hsame hcall
    · obtain ⟨hitem, haddr⟩ := not_or.mp hrefused
      exact h.rewires_of_permitted hcall ⟨hitem, ha haddr⟩
  | pushTail item newNode =>
    by_cases hitem : item = 0
    · have hsame : call mem l (.pushTail item newNode) =
          some (.pushed .nullElementError, mem) := by
        simp [call, pushTail, h.head_ne, hitem]
      exact rewires_of_refused hsame hcall
    by_cases haddr : newNode.addr = 0
    · -- The new node would be written at `NULL`.
      simp [call, pushTail, h.head_ne, hitem, Nodes.allocate, haddr] at hcall
    · exact h.rewires_of_permitted hcall ⟨hitem, ha haddr⟩
  | popHead => exact h.rewires_of_permitted hcall trivial
  | popTail => exact h.rewires_of_permitted hcall trivial
  | insertBefore itr element newElement =>
    by_cases hrefused : element = 0 ∨ newElement.addr = 0
    · have hsame : call mem l (.insertBefore itr element newElement) =
          some (.inserted 0, mem) := by
        simp only [call, h.iterator_eq, itrInsertBefore_refused hrefused, Option.bind_eq_bind,
          Option.bind_some, Option.pure_def]
      exact rewires_of_refused hsame hcall
    · obtain ⟨helement, haddr⟩ := not_or.mp hrefused
      exact h.rewires_of_permitted hcall ⟨helement, ha haddr⟩
  | remove itr => exact h.rewires_of_permitted hcall trivial

theorem Reached.wellFormed (h : Reached l mem) : ∃ ns, WellFormed mem l ns := by
  induction h with
  | create mem headData tailData hl => exact ⟨[], wellFormed_create mem hl headData tailData⟩
  | call _ ha hcall ih =>
    obtain ⟨ns, hformed⟩ := ih
    obtain ⟨ns', hrewires⟩ := hformed.toHolds.rewires_of_call ha hcall
    exact ⟨ns', hrewires.wellFormed hformed⟩

end DLinkedList
end ChatProject
