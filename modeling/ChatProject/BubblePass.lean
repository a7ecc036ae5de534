import Mathlib.Order.RelClasses

/-!
# One pass of a bubble sort

The pass carries an element along a list and puts what is greater behind it. It stops at the end
of the list, and earlier where the element that it carries is `stop`.
-/

namespace ChatProject.BubblePass
variable {α : Type}

structure Pass (α : Type) where
  passed : List α
  carry : α
  rest : List α

def Pass.items (p : Pass α) : List α := p.passed ++ p.carry :: p.rest

def Pass.behind (x : α) (p : Pass α) : Pass α := { p with passed := x :: p.passed }

theorem Pass.items_behind (x : α) (p : Pass α) : (p.behind x).items = x :: p.items := rfl

def pass [DecidableEq α] (lt : α → α → Prop) [DecidableRel lt] (stop : α) : α → List α → Pass α
  | c, [] => ⟨[], c, []⟩
  | c, x :: xs =>
    if c = stop then ⟨[], c, x :: xs⟩
    else if lt c x then (pass lt stop c xs).behind x
    else (pass lt stop x xs).behind c

abbrev OrderedOn (lt : α → α → Prop) (ys : List α) : Prop :=
  IsStrictWeakOrder {y // y ∈ ys} fun a b => lt a b

variable {lt : α → α → Prop} {ys : List α} {a b c stop x : α} {xs : List α}

theorem OrderedOn.irrefl (h : OrderedOn lt ys) (ha : a ∈ ys) : ¬ lt a a :=
  h.toIsStrictOrder.toIrrefl.irrefl ⟨a, ha⟩

theorem OrderedOn.lt_or_lt (h : OrderedOn lt ys) (ha : a ∈ ys) (hb : b ∈ ys) (hc : c ∈ ys)
    (hac : lt a c) : lt a b ∨ lt b c := by
  have htrans : ∀ {x y z : α}, x ∈ ys → y ∈ ys → z ∈ ys → lt x y → lt y z → lt x z :=
    fun {x y z} hx hy hz => h.toIsStrictOrder.toIsTrans.trans ⟨x, hx⟩ ⟨y, hy⟩ ⟨z, hz⟩
  by_contra hnot
  obtain ⟨hab, hbc⟩ := not_or.mp hnot
  have hba : ¬ lt b a := fun hba => hbc (htrans hb ha hc hba hac)
  have hcb : ¬ lt c b := fun hcb => hab (htrans ha hc hb hac hcb)
  exact (h.incomp_trans ⟨a, ha⟩ ⟨b, hb⟩ ⟨c, hc⟩ ⟨hab, hba⟩ ⟨hbc, hcb⟩).1 hac

theorem subset_skip (h : c :: x :: xs ⊆ ys) : c :: xs ⊆ ys :=
  List.Subset.trans (List.cons_subset_cons c (List.subset_cons_self x xs)) h

variable [DecidableEq α] [DecidableRel lt]

theorem carry_mem : (pass lt stop c xs).carry ∈ c :: xs := by
  induction xs generalizing c with
  | nil => exact List.mem_cons_self
  | cons x xs ih =>
    rw [pass]
    split_ifs
    · exact List.mem_cons_self
    · have hmem : (pass lt stop c xs).carry ∈ c :: xs := ih
      exact subset_skip (List.Subset.refl _) hmem
    · exact List.mem_cons_of_mem c ih

theorem rest_eq_nil (h : (pass lt stop c xs).carry ≠ stop) : (pass lt stop c xs).rest = [] := by
  induction xs generalizing c with
  | nil => rfl
  | cons x xs ih =>
    rw [pass] at h ⊢
    split_ifs at h ⊢ with hstop hlt
    · exact absurd hstop h
    · exact ih h
    · exact ih h

theorem not_lt_carry (h : OrderedOn lt ys) (hsub : c :: xs ⊆ ys) :
    ¬ lt c (pass lt stop c xs).carry := by
  induction xs generalizing c with
  | nil => exact h.irrefl (hsub List.mem_cons_self)
  | cons x xs ih =>
    obtain ⟨hc, hx⟩ := List.cons_subset.mp hsub
    have hcx : c :: xs ⊆ ys := subset_skip hsub
    rw [pass]
    split_ifs with hstop hlt
    · exact h.irrefl hc
    · exact ih hcx
    · intro hcarry
      rcases h.lt_or_lt hc (hx List.mem_cons_self) (hx carry_mem) hcarry with hcx | hxcarry
      · exact hlt hcx
      · exact ih hx hxcarry

/-- A pass that goes past the stop has left it behind for a smaller element. -/
theorem carry_lt_stop (h : OrderedOn lt ys) (hsub : c :: xs ⊆ ys)
    (hne : (pass lt stop c xs).carry ≠ stop) (hmem : stop ∈ c :: xs) :
    lt (pass lt stop c xs).carry stop := by
  induction xs generalizing c with
  | nil => exact absurd (List.mem_singleton.mp hmem).symm hne
  | cons x xs ih =>
    obtain ⟨hc, hx⟩ := List.cons_subset.mp hsub
    have hcx : c :: xs ⊆ ys := subset_skip hsub
    rw [pass] at hne ⊢
    split_ifs at hne ⊢ with hstop hlt
    · exact absurd hstop hne
    · rcases List.mem_cons.mp hmem with rfl | hmem
      · exact absurd rfl hstop
      rcases List.mem_cons.mp hmem with rfl | hmem
      · have hmem_carry : (pass lt stop c xs).carry ∈ c :: xs := carry_mem
        rcases h.lt_or_lt hc (hcx hmem_carry) (hx List.mem_cons_self) hlt with hcarry | hcarry
        · exact absurd hcarry (not_lt_carry h hcx)
        · exact hcarry
      · exact ih hcx hne (List.mem_cons_of_mem c hmem)
    · rcases List.mem_cons.mp hmem with rfl | hmem
      · exact absurd rfl hstop
      · exact ih hx hne hmem

theorem items_of_sorted
    (hsorted : (pass lt stop c xs).items.Pairwise fun a b => ¬ lt b a) :
    (pass lt stop c xs).items = c :: xs := by
  induction xs generalizing c with
  | nil => rfl
  | cons x xs ih =>
    rw [pass] at hsorted ⊢
    split_ifs at hsorted ⊢ with hstop hlt
    · rfl
    · rw [Pass.items_behind, List.pairwise_cons] at hsorted
      have hmem : c ∈ (pass lt stop c xs).items := by
        rw [ih hsorted.2]
        exact List.mem_cons_self
      exact absurd hlt (hsorted.1 c hmem)
    · rw [Pass.items_behind, List.pairwise_cons] at hsorted
      rw [Pass.items_behind, ih hsorted.2]

theorem pass_of_sorted (h : OrderedOn lt ys) (hsub : c :: xs ⊆ ys)
    (hsorted : (c :: xs).Pairwise fun a b => ¬ lt b a) (hmem : stop ∈ c :: xs)
    (hstop : ¬ lt c stop) :
    (pass lt stop c xs).carry = stop ∧ (pass lt stop c xs).items = c :: xs := by
  induction xs generalizing c with
  | nil => exact ⟨(List.mem_singleton.mp hmem).symm, rfl⟩
  | cons x xs ih =>
    obtain ⟨hc, hx⟩ := List.cons_subset.mp hsub
    rw [pass]
    by_cases heq : c = stop
    · rw [if_pos heq]
      exact ⟨heq, rfl⟩
    · have hmem' : stop ∈ x :: xs := (List.mem_cons.mp hmem).resolve_left fun h => heq h.symm
      obtain ⟨hfirst, hsorted'⟩ := List.pairwise_cons.mp hsorted
      have hxs := List.pairwise_cons.mp hsorted'
      have hxmem : x ∈ ys := hx List.mem_cons_self
      have hstopx : ¬ lt stop x := by
        rcases List.mem_cons.mp hmem' with rfl | hmem'
        · exact h.irrefl hxmem
        · exact hxs.1 stop hmem'
      have hcx : ¬ lt c x := fun hcx => (h.lt_or_lt hc (hx hmem') hxmem hcx).elim hstop hstopx
      have hxstop : ¬ lt x stop := fun hxstop =>
        (h.lt_or_lt hxmem hc (hx hmem') hxstop).elim (hfirst x List.mem_cons_self) hstop
      obtain ⟨hcarry, hitems⟩ := ih hx hsorted' hmem' hxstop
      rw [if_neg heq, if_neg hcx]
      exact ⟨hcarry, by rw [Pass.items_behind, hitems]⟩

end ChatProject.BubblePass
