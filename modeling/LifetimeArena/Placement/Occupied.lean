import LifetimeArena.Interval

/-!
# Occupied intervals

An interval of the arena together with the node whose buffer occupies it. They are kept sorted by
start, then by stop, then by node number, so no two of one tree are ever tied.

- `Occupied.Before`: the order.
- `Occupied.insert`, `Occupied.sort`: sorting by insertion.
-/

namespace LifetimeArena

/-- An interval and the node whose buffer occupies it. -/
structure Occupied where
  /-- The bytes. -/
  range : Interval
  /-- The number of the node. -/
  node : Nat
deriving DecidableEq, Repr

namespace Occupied

/-- The order by start, then stop, then node number. -/
def Before (p q : Occupied) : Prop :=
  p.range.start < q.range.start ∨
    (p.range.start = q.range.start ∧
      (p.range.stop < q.range.stop ∨ (p.range.stop = q.range.stop ∧ p.node ≤ q.node)))

instance (p q : Occupied) : Decidable (p.Before q) :=
  inferInstanceAs (Decidable (_ ∨ _))

theorem before_total (p q : Occupied) : p.Before q ∨ q.Before p := by
  simp only [Before]
  omega

theorem Before.trans {p q r : Occupied} (h : p.Before q) (h' : q.Before r) : p.Before r := by
  simp only [Before] at *
  omega

/-- Puts an interval in front of the first one that it does not come after. -/
def insert (p : Occupied) : List Occupied → List Occupied
  | [] => [p]
  | q :: l => if p.Before q then p :: q :: l else q :: insert p l

/-- The intervals in order. -/
def sort (l : List Occupied) : List Occupied := l.foldr insert []

theorem insert_perm (p : Occupied) (l : List Occupied) : (insert p l).Perm (p :: l) := by
  induction l with
  | nil => exact .refl _
  | cons q l ih =>
    unfold insert
    split
    · exact .refl _
    · exact (ih.cons q).trans (.swap p q l)

theorem sort_perm (l : List Occupied) : (sort l).Perm l := by
  induction l with
  | nil => exact .refl _
  | cons p l ih => exact (insert_perm p _).trans (ih.cons p)

theorem pairwise_insert {p : Occupied} {l : List Occupied} (h : l.Pairwise Before) :
    (insert p l).Pairwise Before := by
  induction l with
  | nil => simp [insert]
  | cons q l ih =>
    obtain ⟨hq, hl⟩ := List.pairwise_cons.1 h
    unfold insert
    split
    · next hp =>
      refine List.pairwise_cons.2 ⟨fun r hr => ?_, h⟩
      rcases List.mem_cons.1 hr with rfl | hr
      · exact hp
      · exact hp.trans (hq r hr)
    · next hp =>
      refine List.pairwise_cons.2 ⟨fun r hr => ?_, ih hl⟩
      rcases List.mem_cons.1 ((insert_perm p l).mem_iff.1 hr) with rfl | hr
      · exact (before_total q r).resolve_right hp
      · exact hq r hr

theorem pairwise_sort (l : List Occupied) : (sort l).Pairwise Before := by
  induction l with
  | nil => exact .nil
  | cons p l ih => exact pairwise_insert ih

end Occupied

end LifetimeArena
