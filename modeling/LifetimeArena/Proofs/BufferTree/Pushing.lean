import LifetimeArena.Proofs.BufferTree.Building

/-!
# Pushing on after a refusal

A draft that refuses a stage stays as it was, so the stages that it refused might as well never have
been pushed: the tree of the draft is the tree of the list of the accepted ones, and these were
numbered as in that list. Pushing a whole list is refused first where building it would be, because
both ask of every stage whether it may follow the stages in front of it. What building knows about
the stages behind shows in the cause alone.

- `Draft.accepted`: the stages whose push was not refused.
- `Draft.Took.pushes`: a draft takes what it accepts.
- `Draft.exists_stages`: the tree of a draft is the tree of a list.
- `Draft.KeepsAccepted`: what a sequence of pushes does to a draft.
- `StopsAt`, `Draft.FirstRefused`: where building and pushing end.
- `Draft.pushing_agrees`: both for every sequence.
-/

namespace LifetimeArena

/-- Building the list gets as far as position `i` and is refused there. -/
def StopsAt (stages : List Stage) (i : Nat) (e : Malformed) : Prop :=
  ∃ d s, growFrom stages {} 0 (stages.take i) = .ok d ∧ stages[i]? = some s ∧
    growFrom stages d i [s] = .error e

/-- The stages in front of position `i` are in order, and the stage there may not follow them. -/
def BreaksOff (stages : List Stage) (i : Nat) : Prop :=
  InOrder (stages.take i) ∧ ∃ s, stages[i]? = some s ∧ ¬ MayFollow (stages.take i) s

theorem exists_breaksOff {stages : List Stage} (h : ¬ InOrder stages) :
    ∃ i, BreaksOff stages i := by
  obtain ⟨taken, s, rest, rfl, htaken, hs⟩ := InOrder.exists_not_mayFollow h
  refine ⟨taken.length, ?_⟩
  rw [BreaksOff, List.take_left]
  exact ⟨htaken, s, by simp, hs⟩

namespace Draft

/-- Of the listed stages, pushed one after the other, those that are accepted. -/
def accepted (d : Draft) (stages : List Stage) : List Stage :=
  ((stages.zip (d.pushAll stages)).filter (·.2.1.isOk)).map (·.1)

/-- Pushing the list onto a new draft is refused at position `i` and not before. -/
def FirstRefused (stages : List Stage) (i : Nat) : Prop :=
  (∃ e d, (pushAll {} stages)[i]? = some (.error e, d)) ∧
    ∀ j < i, ∃ n d, (pushAll {} stages)[j]? = some (.ok n, d)

/-- What happens when the listed stages are pushed onto a new draft, refused or not. -/
structure KeepsAccepted (stages : List Stage) : Prop where
  /-- Every stage is pushed onto the draft that the stages in front of it leave behind. -/
  turns : ∀ i, (pushAll {} stages)[i]? =
    stages[i]?.map fun s => (pushes {} (stages.take i)).push s
  /-- A refused stage leaves the draft as it was. -/
  refused : ∀ i e d, (pushAll {} stages)[i]? = some (.error e, d) → d = pushes {} (stages.take i)
  /-- An accepted stage gets the number of stages that were accepted before, a 32-bit number. -/
  numbered : ∀ i n d, (pushAll {} stages)[i]? = some (.ok n, d) →
    n = (accepted {} (stages.take i)).length ∧ n < 2 ^ 32
  sublist : (accepted {} stages).Sublist stages
  /-- The accepted stages alone have the same outcomes. -/
  outcomes : pushAll {} (accepted {} stages) = (pushAll {} stages).filter (·.1.isOk)
  /-- The tree is the tree of the accepted stages. -/
  finish : (pushes {} stages).finish = BufferTree.ofStages (accepted {} stages)
  finish_nil : accepted {} stages = [] → (pushes {} stages).finish = .error .empty

/-- Building a list and pushing it come equally far. -/
structure ComesAsFar (stages : List Stage) : Prop where
  /-- Building is refused where it stops. -/
  stops : ∀ e, BufferTree.ofStages stages = .error e ↔ ∃ i, StopsAt stages i e
  /-- It stops where pushing is refused first. -/
  position : ∀ i, (∃ e, StopsAt stages i e) ↔ FirstRefused stages i
  /-- If no push is refused the trees are the same. -/
  built : (∀ outcome ∈ pushAll {} stages, outcome.1.isOk) →
    ∃ t, BufferTree.ofStages stages = .ok t ∧ (pushes {} stages).finish = .ok t

variable {d d' : Draft} {taken stages : List Stage} {s : Stage} {e : Malformed} {i n : Nat}

/-! ## Outcomes and accepted stages -/

theorem getElem?_pushAll (d : Draft) (stages : List Stage) (i : Nat) :
    (d.pushAll stages)[i]? = stages[i]?.map fun s => (d.pushes (stages.take i)).push s := by
  induction stages generalizing d i with
  | nil => rfl
  | cons s stages ih =>
    cases i with
    | zero => rfl
    | succ i =>
      rw [pushAll, List.getElem?_cons_succ, List.getElem?_cons_succ, ih, List.take_succ_cons]
      rfl

theorem push_cases (d : Draft) (s : Stage) :
    (∃ e, d.push s = (.error e, d)) ∨
      ∃ parent, d.accept s = .ok parent ∧ d.push s = (.ok d.size, d.extend s parent) := by
  cases haccept : d.accept s with
  | error e => exact .inl ⟨e, by rw [push, haccept]⟩
  | ok parent => exact .inr ⟨parent, rfl, push_of_accept haccept⟩

theorem accepted_cons_of_error (h : d.push s = (.error e, d)) (stages : List Stage) :
    d.accepted (s :: stages) = d.accepted stages := by
  rw [accepted, pushAll, h]
  rfl

theorem accepted_cons_of_ok (h : d.push s = (.ok n, d')) (stages : List Stage) :
    d.accepted (s :: stages) = s :: d'.accepted stages := by
  rw [accepted, pushAll, h]
  rfl

theorem accepted_sublist (d : Draft) (stages : List Stage) :
    (d.accepted stages).Sublist stages := by
  induction stages generalizing d with
  | nil => exact .slnil
  | cons s stages ih =>
    rcases d.push_cases s with ⟨e, h⟩ | ⟨parent, -, h⟩
    · rw [accepted_cons_of_error h]
      exact (ih d).cons s
    · rw [accepted_cons_of_ok h]
      exact (ih _).cons_cons s

/-- What was pushed and refused makes no difference to any outcome. -/
theorem pushAll_accepted (d : Draft) (stages : List Stage) :
    d.pushAll (d.accepted stages) = (d.pushAll stages).filter (·.1.isOk) := by
  induction stages generalizing d with
  | nil => rfl
  | cons s stages ih =>
    rcases d.push_cases s with ⟨e, h⟩ | ⟨parent, -, h⟩
    · rw [accepted_cons_of_error h, ih, pushAll, h]
      rfl
    · rw [accepted_cons_of_ok h, pushAll, pushAll, h, ih]
      rfl

namespace Took

/-- A draft takes what it accepts of further stages. -/
theorem pushes (h : d.Took taken) (stages : List Stage) :
    (d.pushes stages).Took (taken ++ d.accepted stages) := by
  induction stages generalizing d taken with
  | nil =>
    rw [show d.accepted [] = [] from rfl, List.append_nil]
    exact h
  | cons s stages ih =>
    rcases d.push_cases s with ⟨e, hpush⟩ | ⟨parent, haccept, hpush⟩
    · have hrest := ih h
      rw [accepted_cons_of_error hpush]
      rwa [Draft.pushes, List.foldl_cons, hpush]
    · have hrest := ih (h.extend haccept)
      rw [List.append_assoc, List.singleton_append] at hrest
      rw [accepted_cons_of_ok hpush]
      rwa [Draft.pushes, List.foldl_cons, hpush]

/-- A push is refused exactly if the stage may not come next. -/
theorem exists_push_error_iff (h : d.Took taken) :
    (∃ e d', d.push s = (.error e, d')) ↔ ¬ MayFollow taken s := by
  rw [← h.exists_accept_iff]
  constructor
  · rintro ⟨e, d', hpush⟩ ⟨parent, haccept⟩
    rw [(push_error hpush).1] at haccept
    cases haccept
  · intro hnot
    rcases d.push_cases s with ⟨e, hpush⟩ | ⟨parent, haccept, -⟩
    · exact ⟨e, d, hpush⟩
    · exact absurd ⟨parent, haccept⟩ hnot

theorem exists_push_ok_iff (h : d.Took taken) :
    (∃ n d', d.push s = (.ok n, d')) ↔ MayFollow taken s := by
  rw [← h.exists_accept_iff]
  constructor
  · rintro ⟨n, d', hpush⟩
    obtain ⟨parent, haccept, -⟩ := push_ok hpush
    exact ⟨parent, haccept⟩
  · rintro ⟨parent, haccept⟩
    exact ⟨_, _, push_of_accept haccept⟩

/-- The next number is the number of stages taken, which is below the number of names. -/
theorem number_eq (h : d.Took taken) (hpush : d.push s = (.ok n, d')) :
    n = taken.length ∧ n < 2 ^ 32 := by
  obtain ⟨parent, haccept, rfl, rfl⟩ := push_ok hpush
  have hle := (h.extend haccept).inOrder.length_le
  rw [List.length_append, List.length_singleton] at hle
  have hsize := h.lists.length_eq
  exact ⟨hsize, by omega⟩

theorem ofStages_eq (h : d.Took taken) : BufferTree.ofStages taken = d.finish := by
  rw [BufferTree.ofStages, h.growFrom_eq]

/-- Building goes on exactly if the next stage may come next. -/
theorem exists_growFrom_singleton_iff (h : d.Took taken) (more : List Stage) :
    (∃ e, growFrom (taken ++ more) d taken.length [s] = .error e) ↔ ¬ MayFollow taken s := by
  refine ⟨?_, fun hs => h.exists_growFrom_error hs ..⟩
  rintro ⟨e, hgrow⟩ hs
  obtain ⟨parent, haccept⟩ := h.exists_accept_iff.2 hs
  rw [growFrom, h.lists.checkOrder_eq h.linked haccept, push_of_accept haccept] at hgrow
  cases hgrow

end Took

theorem keepsAccepted (stages : List Stage) : KeepsAccepted stages where
  turns := getElem?_pushAll {} stages
  refused := by
    intro i e d hi
    rw [getElem?_pushAll, Option.map_eq_some_iff] at hi
    obtain ⟨s, -, hpush⟩ := hi
    exact (push_error hpush).2
  numbered := by
    intro i n d hi
    rw [getElem?_pushAll, Option.map_eq_some_iff] at hi
    obtain ⟨s, -, hpush⟩ := hi
    exact (took_empty.pushes (stages.take i)).number_eq hpush
  sublist := accepted_sublist {} stages
  outcomes := pushAll_accepted {} stages
  finish := (took_empty.pushes stages).ofStages_eq.symm
  finish_nil := by
    intro hnil
    rw [← (took_empty.pushes stages).ofStages_eq, List.nil_append, hnil]
    rfl

/-- Whatever is pushed and refused, the tree of a draft is the tree of a list of stages. -/
theorem exists_stages {pushed : List Stage} {t : BufferTree}
    (h : (pushes {} pushed).finish = .ok t) : ∃ stages, BufferTree.ofStages stages = .ok t :=
  ⟨_, (took_empty.pushes pushed).ofStages_eq.trans h⟩

/-! ## Where it ends -/

/-- Pushes are accepted for as long as the list is in order. -/
theorem pushes_accepted_iff (hi : i ≤ stages.length) :
    (∀ j < i, ∃ n d, (pushAll {} stages)[j]? = some (.ok n, d)) ↔ InOrder (stages.take i) := by
  induction i with
  | zero => exact ⟨fun _ => .nil, fun _ j hj => absurd hj (Nat.not_lt_zero j)⟩
  | succ i ih =>
    have hs := List.getElem?_eq_getElem hi
    rw [Nat.forall_lt_succ_right, ih (Nat.le_of_succ_le hi), InOrder.take_succ_iff hs]
    refine and_congr_right fun horder => ?_
    rw [← (took_pushes horder).exists_push_ok_iff, getElem?_pushAll, hs, Option.map_some]
    exact exists_congr fun n => exists_congr fun d => Option.some_inj

/-- Pushing is refused first where the order of the list breaks off. -/
theorem firstRefused_iff : FirstRefused stages i ↔ BreaksOff stages i := by
  rw [FirstRefused, BreaksOff, getElem?_pushAll]
  cases hs : stages[i]? with
  | none => exact ⟨fun ⟨⟨_, _, h⟩, _⟩ => (nomatch h), fun ⟨_, _, h, _⟩ => (nomatch h)⟩
  | some s =>
    have hi : i < stages.length := (List.getElem?_eq_some_iff.1 hs).1
    rw [pushes_accepted_iff (Nat.le_of_lt hi), and_comm]
    refine and_congr_right fun horder => ?_
    simp only [Option.map_some, Option.some_inj, exists_eq_left']
    exact (took_pushes horder).exists_push_error_iff

end Draft

/-- Building gets past the front of a list if the front is in order, and has taken it then. -/
theorem growFrom_take_eq_ok_iff {d : Draft} :
    growFrom stages {} 0 (stages.take i) = .ok d ↔
      InOrder (stages.take i) ∧ d = Draft.pushes {} (stages.take i) := by
  have hwhole : stages.take i ++ stages.drop i = stages := List.take_append_drop i stages
  by_cases horder : InOrder (stages.take i)
  · have hgrow := (Draft.took_pushes horder).lists.grown (stages.drop i)
    rw [hwhole] at hgrow
    rw [hgrow]
    refine ⟨fun h => ⟨horder, ?_⟩, fun h => h.2 ▸ rfl⟩
    cases h
    rfl
  · obtain ⟨e, hgrow⟩ := Draft.exists_growFrom_error horder (stages.drop i)
    rw [hwhole] at hgrow
    rw [hgrow]
    exact ⟨fun h => (nomatch h), fun h => absurd h.1 horder⟩

/-- Building stops where the order of the list breaks off. -/
theorem exists_stopsAt_iff : (∃ e, StopsAt stages i e) ↔ BreaksOff stages i := by
  have hstep : ∀ {s}, stages[i]? = some s → InOrder (stages.take i) →
      ((∃ e, growFrom stages (Draft.pushes {} (stages.take i)) i [s] = .error e) ↔
        ¬ MayFollow (stages.take i) s) := by
    intro s hs horder
    have hi : i < stages.length := (List.getElem?_eq_some_iff.1 hs).1
    have hiff := (Draft.took_pushes horder).exists_growFrom_singleton_iff (s := s) (stages.drop i)
    rwa [List.take_append_drop, List.length_take_of_le (Nat.le_of_lt hi)] at hiff
  constructor
  · rintro ⟨e, d, s, hgrow, hs, hstop⟩
    obtain ⟨horder, rfl⟩ := growFrom_take_eq_ok_iff.1 hgrow
    exact ⟨horder, s, hs, (hstep hs horder).1 ⟨e, hstop⟩⟩
  · rintro ⟨horder, s, hs, hnot⟩
    obtain ⟨e, hstop⟩ := (hstep hs horder).2 hnot
    exact ⟨e, _, s, growFrom_take_eq_ok_iff.2 ⟨horder, rfl⟩, hs, hstop⟩

/-- Where building stops it is refused. -/
theorem StopsAt.ofStages_eq (h : StopsAt stages i e) : BufferTree.ofStages stages = .error e := by
  obtain ⟨d, s, hgrow, hs, hstop⟩ := h
  have hi : i < stages.length := (List.getElem?_eq_some_iff.1 hs).1
  have hrun : growFrom stages {} 0 (stages.take i ++ ([s] ++ stages.drop (i + 1))) = .error e := by
    rw [growFrom_append, hgrow]
    show growFrom stages d (0 + (stages.take i).length) ([s] ++ stages.drop (i + 1)) = .error e
    rw [Nat.zero_add, List.length_take_of_le (Nat.le_of_lt hi), growFrom_append, hstop]
    rfl
  rw [List.singleton_append, take_append_cons_drop hs] at hrun
  rw [BufferTree.ofStages, hrun]

namespace Draft

theorem comesAsFar (hne : stages ≠ []) : ComesAsFar stages where
  stops := by
    intro e
    refine ⟨fun hrefused => ?_, fun ⟨i, hi⟩ => hi.ofStages_eq⟩
    have horder : ¬ InOrder stages := by
      intro horder
      obtain ⟨t, hbuilt⟩ := BufferTree.exists_ofStages ⟨horder, hne⟩
      rw [hrefused] at hbuilt
      cases hbuilt
    obtain ⟨i, hbreak⟩ := exists_breaksOff horder
    obtain ⟨e', hstop⟩ := exists_stopsAt_iff.2 hbreak
    rw [hstop.ofStages_eq] at hrefused
    cases hrefused
    exact ⟨i, hstop⟩
  position := fun i => exists_stopsAt_iff.trans firstRefused_iff.symm
  built := by
    intro hall
    have horder : InOrder stages := by
      by_contra hnot
      obtain ⟨i, hbreak⟩ := exists_breaksOff hnot
      obtain ⟨⟨e, d, hi⟩, -⟩ := firstRefused_iff.2 hbreak
      exact nomatch hall _ (List.mem_of_getElem? hi)
    obtain ⟨t, hbuilt⟩ := BufferTree.exists_ofStages ⟨horder, hne⟩
    exact ⟨t, hbuilt, (took_pushes horder).ofStages_eq ▸ hbuilt⟩

/-- Refused stages leave no trace in a draft, and pushing a list comes as far as building it. -/
theorem pushing_agrees (stages : List Stage) :
    KeepsAccepted stages ∧ (stages ≠ [] → ComesAsFar stages) :=
  ⟨keepsAccepted stages, comesAsFar⟩

/-- Stages of which the second one is listed too early. -/
def hasty : List Stage :=
  [{ id := .ofNat 1, weight := 8 },
    { id := .ofNat 2, weight := 8, parent := some (.ofNat 3) },
    { id := .ofNat 3, weight := 8, parent := some (.ofNat 1) },
    { id := .ofNat 4, weight := 8, parent := some (.ofNat 3) }]

/-- Building and pushing end at one stage, for different causes, and the draft goes on without it.
-/
theorem pushing_agrees_hasty :
    hasty ≠ [] ∧ (accepted {} hasty).length = 3 ∧
      (pushes {} hasty).finish = BufferTree.ofStages (accepted {} hasty) ∧
      ∃ i, StopsAt hasty i (.outOfOrder (.ofNat 2) (.ofNat 3)) ∧ FirstRefused hasty i ∧
        ((pushAll {} hasty)[1]?).map (·.1) = some (.error (.dangling (.ofNat 2) (.ofNat 3))) := by
  have hne : hasty ≠ [] := nofun
  obtain ⟨hkeeps, hfar⟩ := pushing_agrees hasty
  obtain ⟨i, hstop⟩ := ((hfar hne).stops (.outOfOrder (.ofNat 2) (.ofNat 3))).1 (by decide)
  exact ⟨hne, by decide, hkeeps.finish, i, hstop, ((hfar hne).position i).1 ⟨_, hstop⟩, by decide⟩

end Draft

end LifetimeArena
