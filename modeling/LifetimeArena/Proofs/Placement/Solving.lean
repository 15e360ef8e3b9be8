import LifetimeArena.Placement.Solver
import LifetimeArena.Proofs.BufferTree.Assign
import LifetimeArena.Proofs.BufferTree.Pushing
import LifetimeArena.Sample.Families

/-!
# Solving once

A call of `Solver.solve` either changes nothing or writes the whole accepted proposal into an
unsolved tree (`Solver.solve_cases`). So a built tree has two kinds of states only, whatever solvers
are called on it and in whatever order: as it was built, or with one complete proposal written into
it (`Solver.run_cases`). The second kind never changes again.

- `Solver.run`: the tree after a sequence of calls.
- `Solver.Reachable`: a state that a built tree gets into.
- `Solver.Accepts`: what it takes for a proposal to be written.
- `Solver.Writes`: what writing a proposal changes, and what it leaves alone.
- `Solver.solve_writes_once`: failure leaves no trace, success is complete and final.
-/

namespace LifetimeArena

namespace Solver

/-- The tree after a sequence of calls with any solvers. -/
def run (calls : List Solver) (t : BufferTree) : BufferTree :=
  calls.foldl (fun t s => (s.solve t).tree) t

/-- The proposal comes from the strategy and nothing speaks against writing it. -/
structure Accepts (s : Solver) (t : BufferTree) (p : Placement) : Prop where
  unsolved : t.arenaSize = none
  aligned : s.settings.alignment.isPowerOfTwo
  proposed : s.strategy.place t s.settings.alignment = .ok p
  complete : p.offsets.size = t.size
  verified : s.settings.verify = true → (t.assign p.offsets p.arenaSize).check = .ok ()

/-- From `t` to `t'` every node gets the offset that the proposal has at its number and the tree
gets the arena size. Everything else stays. -/
structure Writes (p : Placement) (t t' : BufferTree) : Prop where
  arenaSize : t'.arenaSize = some p.arenaSize
  totalWeight : t'.totalWeight = t.totalWeight
  index : t'.index = t.index
  size : t'.size = t.size
  get? : ∀ i n, t.get? i = some n →
    ∃ o, p.offsets[i]? = some o ∧ t'.get? i = some { n with offset := some o }

variable {s : Solver} {t : BufferTree}

/-- A proposal of the right length leaves no node without its offset. -/
theorem writes_assign {p : Placement} (h : p.offsets.size = t.size) :
    Writes p t (t.assign p.offsets p.arenaSize) where
  arenaSize := rfl
  totalWeight := rfl
  index := rfl
  size := BufferTree.size_assign t p.offsets p.arenaSize
  get? := by
    intro i n hn
    have hi : i < p.offsets.size := h ▸ BufferTree.lt_size_of_get? hn
    have ho : p.offsets[i]? = some p.offsets[i] := Array.getElem?_eq_getElem hi
    refine ⟨p.offsets[i], ho, ?_⟩
    rw [BufferTree.get?_assign, hn, ho]
    rfl

theorem verify_ok {p : Placement} (h : verify t p = .ok ()) :
    (t.assign p.offsets p.arenaSize).check = .ok () := by
  unfold verify at h
  split at h
  · next hcheck => exact hcheck
  · cases h

theorem validate_ok {settings : Settings} (h : settings.validate = .ok ()) :
    settings.alignment.isPowerOfTwo := by
  unfold Settings.validate at h
  split at h
  · next hpow => exact hpow
  · cases h

/-- A plan is an accepted proposal. -/
theorem plan_ok {p : Placement} (h : s.plan t = .ok p) : s.Accepts t p := by
  unfold plan at h
  split at h
  · cases h
  · next hsolved =>
    have hnone : t.arenaSize = none := by
      simpa [BufferTree.isSolved] using hsolved
    split at h
    · cases h
    · next hvalid =>
      split at h
      · cases h
      · next q hq =>
        split at h
        · cases h
        · next hsize =>
          have hcomplete : q.offsets.size = t.size := Decidable.not_not.1 hsize
          split at h
          · split at h
            · cases h
            · next hverify =>
              cases h
              exact ⟨hnone, validate_ok hvalid, hq, hcomplete, fun _ => verify_ok hverify⟩
          · next hoff =>
            cases h
            exact ⟨hnone, validate_ok hvalid, hq, hcomplete, fun hon => absurd hon hoff⟩

/-- An error of the strategy is passed on. -/
theorem solve_of_place_error (hunsolved : t.arenaSize = none)
    (ha : s.settings.alignment.isPowerOfTwo) {e : SolveError}
    (hplace : s.strategy.place t s.settings.alignment = .error e) :
    s.solve t = { result := .error e, tree := t, events := [] } := by
  have hplan : s.plan t = .error e := by
    unfold plan Settings.validate BufferTree.isSolved
    rw [hunsolved, Option.isSome_none, if_neg Bool.false_ne_true, if_pos ha, hplace]
  unfold solve
  rw [hplan]

/-- A proposal that nothing speaks against is written. -/
theorem solve_of_accepts {p : Placement} (h : s.Accepts t p) :
    s.solve t =
      { result := .ok p.arenaSize
        tree := t.assign p.offsets p.arenaSize
        events := [s.report t p.arenaSize] } := by
  have hplan : s.plan t = .ok p := by
    unfold plan Settings.validate BufferTree.isSolved
    rw [h.unsolved, Option.isSome_none, if_neg Bool.false_ne_true, if_pos h.aligned, h.proposed]
    dsimp only
    rw [if_neg (not_not_intro h.complete)]
    split
    · next hon =>
      unfold verify
      rw [h.verified hon]
    · rfl
  unfold solve
  rw [hplan]

/-- A call fails and changes nothing, or it writes an accepted proposal. -/
theorem solve_cases (s : Solver) (t : BufferTree) :
    (∃ e, (s.solve t).result = .error e ∧ (s.solve t).tree = t) ∨
      ∃ p, s.Accepts t p ∧ (s.solve t).result = .ok p.arenaSize ∧
        (s.solve t).tree = t.assign p.offsets p.arenaSize := by
  unfold solve
  cases hplan : s.plan t with
  | error e => exact .inl ⟨e, rfl, rfl⟩
  | ok p => exact .inr ⟨p, plan_ok hplan, rfl, rfl⟩

theorem tree_of_error {e : SolveError} (h : (s.solve t).result = .error e) :
    (s.solve t).tree = t := by
  rcases solve_cases s t with ⟨_, -, htree⟩ | ⟨p, -, hok, -⟩
  · exact htree
  · rw [h] at hok
    cases hok

theorem accepts_of_ok {arena : Nat} (h : (s.solve t).result = .ok arena) :
    ∃ p, s.Accepts t p ∧ p.arenaSize = arena ∧
      (s.solve t).tree = t.assign p.offsets p.arenaSize := by
  rcases solve_cases s t with ⟨_, herr, -⟩ | ⟨p, haccepts, hok, htree⟩
  · rw [h] at herr
    cases herr
  · rw [h] at hok
    cases hok
    exact ⟨p, haccepts, rfl, htree⟩

/-- A solved tree is refused. -/
theorem solve_of_solved (s : Solver) (h : t.isSolved = true) :
    (s.solve t).result = .error .alreadySolved ∧ (s.solve t).tree = t := by
  have hplan : s.plan t = .error .alreadySolved := by
    unfold plan
    rw [if_pos h]
  unfold solve
  rw [hplan]
  exact ⟨rfl, rfl⟩

theorem run_of_solved (calls : List Solver) (h : t.isSolved = true) : run calls t = t := by
  induction calls with
  | nil => rfl
  | cons s calls ih =>
    show run calls (s.solve t).tree = t
    rw [(solve_of_solved s h).2]
    exact ih

/-! ## Reachable states -/

/-- A tree that was built from a list of stages, after some calls of solvers. -/
def Reachable (t : BufferTree) : Prop :=
  ∃ stages t₀ calls, BufferTree.ofStages stages = .ok t₀ ∧ run calls t₀ = t

/-- The trees of drafts are built trees, so they get into no other states. -/
theorem reachable_of_pushes {pushed : List Stage} {t₀ : BufferTree}
    (h : (Draft.pushes {} pushed).finish = .ok t₀) (calls : List Solver) :
    Reachable (run calls t₀) := by
  obtain ⟨stages, hstages⟩ := Draft.exists_stages h
  exact ⟨stages, t₀, calls, hstages, rfl⟩

/-- However solvers are called, an unsolved tree stays as it is or gets one complete proposal. -/
theorem run_cases (calls : List Solver) (t : BufferTree) :
    run calls t = t ∨
      ∃ p : Placement, p.offsets.size = t.size ∧ run calls t = t.assign p.offsets p.arenaSize := by
  induction calls with
  | nil => exact .inl rfl
  | cons s calls ih =>
    show run calls (s.solve t).tree = t ∨ ∃ p : Placement, p.offsets.size = t.size ∧
      run calls (s.solve t).tree = t.assign p.offsets p.arenaSize
    rcases solve_cases s t with ⟨e, -, htree⟩ | ⟨p, haccepts, -, htree⟩
    · rw [htree]
      exact ih
    · -- From here on every call is refused.
      rw [htree, run_of_solved calls (t := t.assign p.offsets p.arenaSize) rfl]
      exact .inr ⟨p, haccepts.complete, rfl⟩

namespace Reachable

theorem wellFormed (h : Reachable t) : t.WellFormed := by
  obtain ⟨stages, t₀, calls, hbuilt, rfl⟩ := h
  have wf := BufferTree.ofStages_wellFormed hbuilt
  rcases run_cases calls t₀ with hrun | ⟨p, -, hrun⟩
  · rw [hrun]
    exact wf
  · rw [hrun]
    exact wf.assign p.offsets p.arenaSize

/-- No two nodes have one name. -/
theorem nodup_names (h : Reachable t) : t.names.Nodup := by
  obtain ⟨stages, t₀, calls, hbuilt, rfl⟩ := h
  have hnodup := BufferTree.nodup_names_of_ofStages hbuilt
  rcases run_cases calls t₀ with hrun | ⟨p, -, hrun⟩
  · rw [hrun]
    exact hnodup
  · rw [hrun, BufferTree.names_assign]
    exact hnodup

/-- Either everything is unset or everything is set. -/
theorem unset_or_set (h : Reachable t) :
    (t.arenaSize = none ∧ ∀ i, t.offset? i = none) ∨
      (t.arenaSize.isSome ∧ ∀ i, i < t.size → (t.offset? i).isSome) := by
  obtain ⟨stages, t₀, calls, hbuilt, rfl⟩ := h
  rcases run_cases calls t₀ with hrun | ⟨p, hsize, hrun⟩
  · have hunsolved := BufferTree.ofStages_unsolved hbuilt
    rw [hrun]
    refine .inl ⟨hunsolved.arenaSize, fun i => ?_⟩
    unfold BufferTree.offset?
    cases hn : t₀.get? i with
    | none => rfl
    | some n => exact hunsolved.offset i n hn
  · rw [hrun]
    refine .inr ⟨rfl, fun i hi => ?_⟩
    rw [BufferTree.size_assign] at hi
    rw [BufferTree.offset?_assign hsize, Array.getElem?_eq_getElem (hsize ▸ hi)]
    rfl

end Reachable

/-- However solvers have been called on a built tree, either nothing is set or everything is. The
next call fails and leaves no trace, or it writes the proposal of its strategy, whole and nothing
else, and then no later call does anything; a layout that was tested stays sound. -/
theorem solve_writes_once (h : Reachable t) :
    (t.arenaSize = none ∧ (∀ i, t.offset? i = none) ∨
      t.arenaSize.isSome ∧ ∀ i, i < t.size → (t.offset? i).isSome) ∧
    (∀ s e, (solve s t).result = .error e → (solve s t).tree = t) ∧
    ∀ s arena, (solve s t).result = .ok arena →
      (∃ p, s.strategy.place t s.settings.alignment = .ok p ∧ p.arenaSize = arena ∧
        Writes p t (solve s t).tree) ∧
      ∀ later : List Solver,
        run later (solve s t).tree = (solve s t).tree ∧
        (∀ s', (solve s' (run later (solve s t).tree)).result = .error .alreadySolved) ∧
        (s.settings.verify = true → (run later (solve s t).tree).check = .ok ()) := by
  refine ⟨h.unset_or_set, fun s e herr => tree_of_error herr, fun s arena hok => ?_⟩
  obtain ⟨p, haccepts, harena, htree⟩ := accepts_of_ok hok
  rw [htree]
  refine ⟨⟨p, haccepts.proposed, harena, writes_assign haccepts.complete⟩, fun later => ?_⟩
  have hsolved : (t.assign p.offsets p.arenaSize).isSolved = true := rfl
  rw [run_of_solved later hsolved]
  exact ⟨rfl, fun s' => (solve_of_solved s' hsolved).1, haccepts.verified⟩

/-- A call with a bad alignment and then a verified one, on a root with two children. -/
theorem solve_writes_once_star :
    ∃ t, Reachable t ∧ (solve standard t).result = .ok 8 ∧
      ∀ later, (run later (solve standard t).tree).check = .ok () := by
  obtain ⟨t, h, hok⟩ : ∃ t, Reachable t ∧ (solve standard t).result = .ok 8 :=
    ⟨_, ⟨Sample.star 2 4, _, [ofSettings { alignment := 3 }], rfl, rfl⟩, rfl⟩
  have honce := (solve_writes_once h).2.2 standard 8 hok
  exact ⟨t, h, hok, fun later => (honce.2 later).2.2 rfl⟩

end Solver

end LifetimeArena
