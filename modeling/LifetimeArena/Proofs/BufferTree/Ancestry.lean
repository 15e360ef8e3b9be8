import LifetimeArena.BufferTree.Walk
import LifetimeArena.Proofs.BufferTree.WellFormed

/-!
# Ancestry

In a linked tree parent numbers decrease, so the climb from a node ends before its steps run out and
ancestry follows the parent link: `a` is an ancestor of `b` if it is the parent of `b` or an
ancestor of that parent (`Linked.isAncestor_iff`). Everything else about kinship comes from this
one step, by induction on the number of the lower node.

- `Linked.isAncestor_trans`, `Linked.isAncestor_lt`: ancestry is a strict order.
- `Linked.related_of_isAncestor`: two ancestors of one node are related.
- `BufferTree.InSubtree`: a node lies in the subtree of another, upwards by parents and downwards
  by children (`Linked.inSubtree_iff_child`).
-/

namespace LifetimeArena

namespace BufferTree

variable {t : BufferTree}

/-- The node `i` lies in the subtree of `r`, the root of that subtree included. -/
def InSubtree (t : BufferTree) (r i : Nat) : Prop := r = i ∨ t.IsAncestor r i

instance (t : BufferTree) (r i : Nat) : Decidable (t.InSubtree r i) :=
  inferInstanceAs (Decidable (r = i ∨ t.IsAncestor r i))

theorem InSubtree.refl (t : BufferTree) (i : Nat) : t.InSubtree i i := .inl rfl

/-- Two nodes are related if one lies in the subtree of the other. -/
theorem related_iff {a b : Nat} : t.Related a b ↔ t.InSubtree a b ∨ t.InSubtree b a := by
  unfold Related InSubtree
  constructor
  · rintro (h | h | h)
    · exact .inl (.inl h)
    · exact .inl (.inr h)
    · exact .inr (.inr h)
  · rintro ((h | h) | (h | h))
    · exact .inl h
    · exact .inr (.inl h)
    · exact .inl h.symm
    · exact .inr (.inr h)

theorem Related.symm {a b : Nat} (h : t.Related a b) : t.Related b a :=
  related_iff.2 (related_iff.1 h).symm

namespace Linked

variable (wf : t.Linked)
include wf

/-! ## The climb -/

/-- A climb with at least as many steps as its start is not cut short. -/
theorem climb_eq_climb {i : Nat} : ∀ {m n : Nat}, i ≤ m → i ≤ n → t.climb m i = t.climb n i := by
  induction i using Nat.strong_induction_on with
  | _ i ih =>
    intro m n hm hn
    cases hp : t.parent? i with
    | none => cases m <;> cases n <;> simp [climb, hp]
    | some p =>
      have hlt : p < i := wf.parent_lt hp
      obtain ⟨m, rfl⟩ : ∃ k, m = k + 1 := ⟨m - 1, by omega⟩
      obtain ⟨n, rfl⟩ : ∃ k, n = k + 1 := ⟨n - 1, by omega⟩
      have htail : t.climb m p = t.climb n p := ih p hlt (by omega) (by omega)
      simp only [climb, hp, htail]

theorem ancestors_of_parent {i p : Nat} (h : t.parent? i = some p) :
    t.ancestors i = p :: t.ancestors p := by
  have hi : i < t.size := lt_size_of_parent? h
  have hlt : p < i := wf.parent_lt h
  unfold ancestors
  obtain ⟨n, hn⟩ : ∃ k, t.size = k + 1 := ⟨t.size - 1, by omega⟩
  have htail : t.climb n p = t.climb (n + 1) p := wf.climb_eq_climb (by omega) (by omega)
  rw [hn, climb, h, ← htail]

omit wf in
theorem ancestors_of_no_parent {i : Nat} (h : t.parent? i = none) : t.ancestors i = [] := by
  unfold ancestors
  cases t.size with
  | zero => rfl
  | succ n => rw [climb, h]

/-- The ancestors of a node are its parent and the ancestors of that. -/
theorem isAncestor_iff {a b : Nat} :
    t.IsAncestor a b ↔ ∃ p, t.parent? b = some p ∧ t.InSubtree a p := by
  unfold IsAncestor
  cases hp : t.parent? b with
  | none =>
    rw [ancestors_of_no_parent hp]
    simp
  | some p =>
    rw [wf.ancestors_of_parent hp, List.mem_cons]
    exact ⟨fun h => ⟨p, rfl, h⟩, fun ⟨q, hq, h⟩ => by cases hq; exact h⟩

theorem isAncestor_of_parent {i p : Nat} (h : t.parent? i = some p) : t.IsAncestor p i :=
  wf.isAncestor_iff.2 ⟨p, h, .refl t p⟩

/-! ## Ancestry as an order -/

theorem isAncestor_lt {a b : Nat} (h : t.IsAncestor a b) : a < b := by
  induction b using Nat.strong_induction_on with
  | _ b ih =>
    obtain ⟨p, hp, rfl | ha⟩ := wf.isAncestor_iff.1 h
    · exact wf.parent_lt hp
    · exact Nat.lt_trans (ih p (wf.parent_lt hp) ha) (wf.parent_lt hp)

theorem inSubtree_le {r i : Nat} (h : t.InSubtree r i) : r ≤ i := by
  rcases h with rfl | h
  · exact Nat.le_refl r
  · exact Nat.le_of_lt (wf.isAncestor_lt h)

theorem isAncestor_lt_size {a b : Nat} (h : t.IsAncestor a b) : b < t.size := by
  obtain ⟨p, hp, -⟩ := wf.isAncestor_iff.1 h
  exact lt_size_of_parent? hp

theorem isAncestor_trans {a b c : Nat} (hab : t.IsAncestor a b) (hbc : t.IsAncestor b c) :
    t.IsAncestor a c := by
  induction c using Nat.strong_induction_on with
  | _ c ih =>
    obtain ⟨p, hp, rfl | hb⟩ := wf.isAncestor_iff.1 hbc
    · exact wf.isAncestor_iff.2 ⟨b, hp, .inr hab⟩
    · exact wf.isAncestor_iff.2 ⟨p, hp, .inr (ih p (wf.parent_lt hp) hb)⟩

theorem inSubtree_trans {a b c : Nat} (hab : t.InSubtree a b) (hbc : t.InSubtree b c) :
    t.InSubtree a c := by
  rcases hab with rfl | hab
  · exact hbc
  · rcases hbc with rfl | hbc
    · exact .inr hab
    · exact .inr (wf.isAncestor_trans hab hbc)

/-- Whatever two subtrees share a node with are nested: ancestors of one node form a chain. -/
theorem related_of_inSubtree {a b i : Nat} (ha : t.InSubtree a i) (hb : t.InSubtree b i) :
    t.Related a b := by
  -- Both subtrees go up from the shared node by the same parents, so one root is met first.
  induction i using Nat.strong_induction_on with
  | _ i ih =>
    rcases ha with rfl | ha
    · exact related_iff.2 (.inr hb)
    · rcases hb with rfl | hb
      · exact related_iff.2 (.inl (.inr ha))
      · obtain ⟨p, hp, hap⟩ := wf.isAncestor_iff.1 ha
        obtain ⟨q, hq, hbq⟩ := wf.isAncestor_iff.1 hb
        rw [hp] at hq
        cases hq
        exact ih p (wf.parent_lt hp) hap hbq

/-! ## Subtrees from above -/

/-- A subtree is its root and the subtrees of the root's children. -/
theorem inSubtree_iff_child {r i : Nat} :
    t.InSubtree r i ↔ r = i ∨ ∃ c ∈ t.children r, t.InSubtree c i := by
  constructor
  · intro h
    -- Upwards from `i`: the last node before `r` is the child.
    induction i using Nat.strong_induction_on with
    | _ i ih =>
      rcases h with rfl | h
      · exact .inl rfl
      · obtain ⟨p, hp, hrp⟩ := wf.isAncestor_iff.1 h
        rcases ih p (wf.parent_lt hp) hrp with rfl | ⟨c, hc, hcp⟩
        · exact .inr ⟨i, wf.mem_children.2 hp, .refl t i⟩
        · exact .inr ⟨c, hc, wf.inSubtree_trans hcp (.inr (wf.isAncestor_of_parent hp))⟩
  · rintro (rfl | ⟨c, hc, hci⟩)
    · exact .refl t r
    · have hrc : t.IsAncestor r c := wf.isAncestor_of_parent (wf.mem_children.1 hc)
      exact wf.inSubtree_trans (.inr hrc) hci

/-- The subtrees of different children of one node have no node in common. -/
theorem child_eq_of_inSubtree {r c d i : Nat} (hc : c ∈ t.children r) (hd : d ∈ t.children r)
    (hci : t.InSubtree c i) (hdi : t.InSubtree d i) : c = d := by
  -- A child cannot lie below its sibling, for then it would lie below its own parent's child.
  have key : ∀ {x y : Nat}, x ∈ t.children r → y ∈ t.children r → ¬ t.IsAncestor x y := by
    intro x y hx hy h
    obtain ⟨p, hp, hxp⟩ := wf.isAncestor_iff.1 h
    rw [wf.mem_children.1 hy] at hp
    cases hp
    have hle := wf.inSubtree_le hxp
    have hlt := wf.parent_lt (wf.mem_children.1 hx)
    omega
  rcases wf.related_of_inSubtree hci hdi with h | h | h
  · exact h
  · exact absurd h (key hc hd)
  · exact absurd h (key hd hc)

/-- Every node lies in the subtree of the root. -/
theorem inSubtree_root {i : Nat} (hi : i < t.size) : t.InSubtree t.root i := by
  induction i using Nat.strong_induction_on with
  | _ i ih =>
    rcases Nat.eq_zero_or_pos i with rfl | hpos
    · exact .refl t 0
    · obtain ⟨p, hp, hlt⟩ := wf.parent_of_pos i hpos hi
      have hroot : t.InSubtree t.root p := ih p hlt (by omega)
      exact wf.inSubtree_trans hroot (.inr (wf.isAncestor_of_parent hp))

/-- Numbers grow towards the leaves, so a statement about nodes may assume it of all children. -/
theorem induction_on_children {motive : Nat → Prop} (i : Nat)
    (step : ∀ i, (∀ c ∈ t.children i, motive c) → motive i) : motive i := by
  -- The induction is on how many numbers there are above that of the node.
  obtain ⟨n, hn⟩ : ∃ n, t.size - i ≤ n := ⟨_, Nat.le_refl _⟩
  induction n generalizing i with
  | zero =>
    refine step i fun c hc => ?_
    have hlt := lt_size_of_parent? (wf.mem_children.1 hc)
    have hic := wf.parent_lt (wf.mem_children.1 hc)
    omega
  | succ n ih =>
    refine step i fun c hc => ih c ?_
    have hlt := lt_size_of_parent? (wf.mem_children.1 hc)
    have hic := wf.parent_lt (wf.mem_children.1 hc)
    omega

end Linked

end BufferTree

end LifetimeArena
