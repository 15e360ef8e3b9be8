import LifetimeArena.BufferTree.Spans
import LifetimeArena.Proofs.BufferTree.Preorder
import Mathlib.Algebra.BigOperators.Group.Finset.Basic

/-!
# Sums collected along parent links

Two quantities of a tree are computed by one pass over its nodes that visits children before
parents: every node adds an amount of its own to its parent's entry of an array. The entry of a node
is complete when the pass comes to it, because all its children have been there. `credit` is that
pass for any amount, and `foldl_credit` says what the finished array holds.

With the sizes of subtrees as amounts this gives the extents of `SubtreeSpans`, and so kinship as
the spans tell it is kinship by parent links (`WellFormed.contains_iff`).
-/

namespace LifetimeArena

open Finset

namespace BufferTree

variable {t : BufferTree}

/-- Node `i` adds `own i x` to the entry of its parent, where `x` is its own entry. -/
def credit (t : BufferTree) (own : Nat → Nat → Nat) (sums : Array Nat) (i : Nat) : Array Nat :=
  match t.parent? i with
  | some p => sums.modify p (· + own i (sums.getD i 0))
  | none => sums

/-- The order of a pass: no child comes after its parent. -/
def ChildrenFirst (t : BufferTree) (l : List Nat) : Prop :=
  l.Pairwise fun a b => t.parent? b ≠ some a

theorem size_credit (own : Nat → Nat → Nat) (sums : Array Nat) (i : Nat) :
    (t.credit own sums i).size = sums.size := by
  unfold credit
  split
  · exact Array.size_modify
  · rfl

theorem size_foldl_credit (own : Nat → Nat → Nat) (l : List Nat) (sums : Array Nat) :
    (l.foldl (t.credit own) sums).size = sums.size := by
  induction l generalizing sums with
  | nil => rfl
  | cons i l ih => rw [List.foldl_cons, ih, size_credit]

/-- A step changes the entry of the parent only. -/
theorem getD_credit {own : Nat → Nat → Nat} {sums : Array Nat} {i j : Nat} (hj : j < sums.size) :
    (t.credit own sums i).getD j 0 =
      sums.getD j 0 + if t.parent? i = some j then own i (sums.getD i 0) else 0 := by
  unfold credit
  cases hp : t.parent? i with
  | none => simp
  | some p =>
    rw [Array.getD_eq_getD_getElem?, Array.getElem?_modify]
    by_cases h : p = j
    · subst h
      simp [Array.getD_eq_getD_getElem?, Array.getElem?_eq_getElem hj]
    · rw [if_neg h, if_neg fun he => h (Option.some.inj he), Nat.add_zero,
        Array.getD_eq_getD_getElem?]

namespace Linked

variable (wf : t.Linked)
include wf

/-- What the visited children of `j` add up to, when one more node is visited. -/
theorem sum_children_append (f : Nat → Nat) {l : List Nat} {x : Nat} (hx : x ∉ l) (j : Nat) :
    ∑ c ∈ (t.children j).toFinset with c ∈ l ++ [x], f c =
      (∑ c ∈ (t.children j).toFinset with c ∈ l, f c) +
        if t.parent? x = some j then f x else 0 := by
  by_cases hp : t.parent? x = some j
  · have hins : {c ∈ (t.children j).toFinset | c ∈ l ++ [x]} =
        insert x {c ∈ (t.children j).toFinset | c ∈ l} := by
      ext c
      have hxj := wf.mem_children.2 hp
      simp only [mem_filter, mem_insert, List.mem_toFinset, List.mem_append, List.mem_singleton]
      constructor
      · rintro ⟨hc, hcl | rfl⟩
        · exact .inr ⟨hc, hcl⟩
        · exact .inl rfl
      · rintro (rfl | ⟨hc, hcl⟩)
        · exact ⟨hxj, .inr rfl⟩
        · exact ⟨hc, .inl hcl⟩
    rw [if_pos hp, hins, sum_insert fun h => hx (mem_filter.1 h).2, Nat.add_comm]
  · have hsame : {c ∈ (t.children j).toFinset | c ∈ l ++ [x]} =
        {c ∈ (t.children j).toFinset | c ∈ l} := by
      refine filter_congr fun c hc => ?_
      rw [List.mem_append, List.mem_singleton]
      refine or_iff_left fun hcx => hp ?_
      rw [← hcx]
      exact wf.mem_children.1 (List.mem_toFinset.1 hc)
    rw [if_neg hp, Nat.add_zero, hsame]

/-- Without its last node a pass still visits the children of all its nodes, and it has visited
those of the last node, too. -/
theorem closed_of_append_singleton {l : List Nat} {x : Nat} (horder : t.ChildrenFirst (l ++ [x]))
    (hclosed : ∀ i ∈ l ++ [x], ∀ c ∈ t.children i, c ∈ l ++ [x]) :
    (∀ i ∈ l, ∀ c ∈ t.children i, c ∈ l) ∧ ∀ c ∈ t.children x, c ∈ l := by
  obtain ⟨-, -, hlast⟩ := List.pairwise_append.1 horder
  have hxmem : x ∈ l ++ [x] := List.mem_append_right l (List.mem_singleton_self x)
  constructor
  · intro i hi c hc
    rcases List.mem_append.1 (hclosed i (List.mem_append_left [x] hi) c hc) with h | h
    · exact h
    · rw [List.mem_singleton.1 h] at hc
      exact absurd (wf.mem_children.1 hc) (hlast i hi x (List.mem_singleton_self x))
  · intro c hc
    rcases List.mem_append.1 (hclosed x hxmem c hc) with h | h
    · exact h
    · have hlt := wf.parent_lt (wf.mem_children.1 hc)
      rw [List.mem_singleton.1 h] at hlt
      exact absurd hlt (Nat.lt_irrefl x)

/-- In the middle of a pass every entry holds what the children visited so far have added. The
amounts are those of `target`, the completed entries: a node is visited after its children, so its
entry is complete by then. -/
theorem getD_foldl_credit {own : Nat → Nat → Nat} {init : Nat} {target : Nat → Nat}
    (htarget : ∀ i, target i = init + ∑ c ∈ (t.children i).toFinset, own c (target c))
    {l : List Nat} (hnodup : l.Nodup) (hsize : ∀ i ∈ l, i < t.size) (horder : t.ChildrenFirst l)
    (hclosed : ∀ i ∈ l, ∀ c ∈ t.children i, c ∈ l) {j : Nat} (hj : j < t.size) :
    (l.foldl (t.credit own) (Array.replicate t.size init)).getD j 0 =
      init + ∑ c ∈ (t.children j).toFinset with c ∈ l, own c (target c) := by
  -- The induction takes the last visited node off, which is where an entry changes.
  induction l using List.reverseRecOn generalizing j with
  | nil => simp [Array.getD_eq_getD_getElem?, hj]
  | append_singleton l x ih =>
    obtain ⟨hl, -, hne⟩ := List.nodup_append.1 hnodup
    have hx : x ∉ l := fun h => hne x h x (List.mem_singleton_self x) rfl
    obtain ⟨hlclosed, hxclosed⟩ := wf.closed_of_append_singleton horder hclosed
    have hentry : ∀ {i}, i < t.size →
        (l.foldl (t.credit own) (Array.replicate t.size init)).getD i 0 =
          init + ∑ c ∈ (t.children i).toFinset with c ∈ l, own c (target c) := fun hi =>
      ih hl (fun i hi => hsize i (List.mem_append_left [x] hi)) (List.pairwise_append.1 horder).1
        hlclosed hi
    -- All children of `x` have been visited, so its entry is complete.
    have hxdone : (l.foldl (t.credit own) (Array.replicate t.size init)).getD x 0 = target x := by
      have hall : ∀ c ∈ (t.children x).toFinset, c ∈ l := fun c hc =>
        hxclosed c (List.mem_toFinset.1 hc)
      rw [hentry (hsize x (List.mem_append_right l (List.mem_singleton_self x))),
        Finset.filter_true_of_mem hall, ← htarget]
    have hj' : j < (l.foldl (t.credit own) (Array.replicate t.size init)).size := by
      rw [size_foldl_credit, Array.size_replicate]
      exact hj
    rw [List.foldl_append, List.foldl_cons, List.foldl_nil, getD_credit hj', hentry hj, hxdone,
      wf.sum_children_append _ hx, Nat.add_assoc]

/-- A finished pass leaves every entry complete. -/
theorem foldl_credit (own : Nat → Nat → Nat) {init : Nat} {target : Nat → Nat}
    (htarget : ∀ i, target i = init + ∑ c ∈ (t.children i).toFinset, own c (target c))
    {l : List Nat} (hperm : l.Perm (List.range t.size)) (horder : t.ChildrenFirst l) {j : Nat}
    (hj : j < t.size) :
    (l.foldl (t.credit own) (Array.replicate t.size init)).getD j 0 = target j := by
  have hmem : ∀ {i}, i ∈ l ↔ i < t.size := by
    intro i
    rw [hperm.mem_iff, List.mem_range]
  have hchild : ∀ {i c}, c ∈ t.children i → c ∈ l := fun hc =>
    hmem.2 (lt_size_of_parent? (wf.mem_children.1 hc))
  rw [wf.getD_foldl_credit htarget (hperm.nodup_iff.2 List.nodup_range)
    (fun i hi => hmem.1 hi) horder (fun i _ c hc => hchild hc) hj, htarget j]
  congr 2
  exact filter_true_of_mem fun c hc => hchild (List.mem_toFinset.1 hc)

/-- The extent of a node is one more than the extents of its children together. -/
theorem extent_eq (i : Nat) : t.extent i = 1 + ∑ c ∈ (t.children i).toFinset, t.extent c := by
  rw [List.sum_toFinset _ (wf.nodup_children i), extent, wf.subtree_eq, List.length_cons,
    List.length_flatMap, Nat.add_comm]
  rfl

end Linked

/-! ## Spans -/

/-- Writing down where the entries of a list without repetition stand. -/
theorem getD_foldl_setIfInBounds {l : List Nat} {i k : Nat} {a : Array Nat} (hnodup : l.Nodup)
    (hi : i < a.size) :
    ((l.zipIdx k).foldl (fun positions x => positions.setIfInBounds x.1 x.2) a).getD i 0 =
      if i ∈ l then k + l.idxOf i else a.getD i 0 := by
  induction l generalizing k a with
  | nil => simp
  | cons j l ih =>
    obtain ⟨hj, hl⟩ := List.nodup_cons.1 hnodup
    have hsize : i < (a.setIfInBounds j k).size := by
      rw [Array.size_setIfInBounds]
      exact hi
    rw [List.zipIdx_cons, List.foldl_cons, ih hl hsize]
    by_cases hij : j = i
    · -- A later entry is for another node, so this one stays.
      subst hij
      simp [hj, Array.getD_eq_getD_getElem?, hi]
    · by_cases hil : i ∈ l
      · rw [if_pos hil, if_pos (List.mem_cons_of_mem j hil), List.idxOf_cons_ne l hij]
        omega
      · simp [hil, Ne.symm hij, Array.getD_eq_getD_getElem?, hij]

namespace WellFormed

variable (wf : t.WellFormed)
include wf

theorem childrenFirst_reverse_preorder : t.ChildrenFirst t.preorder.reverse := by
  unfold ChildrenFirst
  rw [List.pairwise_reverse, wf.preorder_eq_subtree]
  exact (wf.pairwise_subtree t.root).imp fun h hp => h (wf.isAncestor_of_parent hp)

theorem extent_ofTree {i : Nat} (hi : i < t.size) :
    (SubtreeSpans.ofTree t).extent.getD i 0 = t.extent i :=
  wf.foldl_credit (fun _ x => x) wf.extent_eq
    ((List.reverse_perm t.preorder).trans wf.preorder_perm) wf.childrenFirst_reverse_preorder hi

theorem position_ofTree {i : Nat} (hi : i < t.size) :
    (SubtreeSpans.ofTree t).position.getD i 0 = t.rank i := by
  have hsize : i < (Array.replicate t.size 0).size := by
    rw [Array.size_replicate]
    exact hi
  have h := getD_foldl_setIfInBounds (k := 0) wf.nodup_preorder hsize
  rw [if_pos (wf.mem_preorder.2 hi), Nat.zero_add] at h
  exact h

/-- Spans tell kinship as parent links do. -/
theorem contains_iff {r i : Nat} (hr : r < t.size) (hi : i < t.size) :
    (SubtreeSpans.ofTree t).Contains r i ↔ t.InSubtree r i := by
  rw [wf.inSubtree_iff_rank hr, SubtreeSpans.Contains, wf.position_ofTree hr,
    wf.position_ofTree hi, wf.extent_ofTree hr]

end WellFormed

end BufferTree

end LifetimeArena
