import LifetimeArena.Proofs.BufferTree.Building
import LifetimeArena.Proofs.BufferTree.ParentLinks

/-!
# Why a list is refused

A list that describes no tree may break many rules at once, at many positions. What is reported is
the first position at which any rule is broken, and of the rules broken there the one that is looked
at first. Both are told from the list alone.

- `Offends`: the rules that a stage can break, each by itself.
- `Malformed.turn`: the order in which the rules are looked at.
- `FirstOffence`: the cause to report.
- `BufferTree.ofStages_eq_error_iff`: it is reported, and a list that breaks no rule is accepted.
-/

namespace LifetimeArena

/-- When a rule is looked at. What can be wrong with a parent that is not listed before its child is
looked at first, and is one of three things. -/
def Malformed.turn : Malformed → Nat
  | .empty => 0
  | .dangling .. => 0
  | .cyclic _ => 0
  | .outOfOrder .. => 0
  | .weightless _ => 1
  | .duplicate _ => 2
  | .secondRoot .. => 3
  | .tooHeavy => 4

/-- The stage `s`, which is listed after the `earlier` ones, breaks a rule. -/
inductive Offends (stages earlier : List Stage) (s : Stage) : Malformed → Prop
  /-- The parent is nowhere in the list. -/
  | dangling {p : StageId} (hparent : s.parent = some p) (hnowhere : p ∉ stages.map (·.id)) :
    Offends stages earlier s (.dangling s.id p)
  /-- The parent is not listed before, and following parent links from it leads to the stage. -/
  | cyclic {p : StageId} (hparent : s.parent = some p) (hlisted : p ∈ stages.map (·.id))
      (hlate : p ∉ earlier.map (·.id)) (hback : LeadsTo stages p s.id) :
    Offends stages earlier s (.cyclic s.id)
  /-- The parent is not listed before, and parent links do not lead from it to the stage. -/
  | outOfOrder {p : StageId} (hparent : s.parent = some p) (hlisted : p ∈ stages.map (·.id))
      (hlate : p ∉ earlier.map (·.id)) (haway : ¬ LeadsTo stages p s.id) :
    Offends stages earlier s (.outOfOrder s.id p)
  /-- The buffer has no byte. -/
  | weightless (hweight : s.weight = 0) : Offends stages earlier s (.weightless s.id)
  /-- The name was listed before. -/
  | duplicate (hname : s.id ∈ earlier.map (·.id)) : Offends stages earlier s (.duplicate s.id)
  /-- There is no parent, though the stage is not the first one. -/
  | secondRoot {first : Stage} (hparent : s.parent = none) (hfirst : earlier[0]? = some first) :
    Offends stages earlier s (.secondRoot first.id s.id)
  /-- The sizes so far add up to more than a word. -/
  | tooHeavy (htotal : wordMax < (earlier.map (·.weight)).sum + s.weight) :
    Offends stages earlier s .tooHeavy

/-- The stage at a position breaks a rule. -/
def OffendsAt (stages : List Stage) (i : Nat) (e : Malformed) : Prop :=
  ∃ s, stages[i]? = some s ∧ Offends stages (stages.take i) s e

/-- The stage at position `i` is the first to break a rule, and `e` is the first rule that it
breaks. -/
structure FirstOffence (stages : List Stage) (i : Nat) (e : Malformed) : Prop where
  offends : OffendsAt stages i e
  first : ∀ j < i, ∀ e', ¬ OffendsAt stages j e'
  soonest : ∀ e', OffendsAt stages i e' → e.turn ≤ e'.turn

/-- The rule that is looked at in a turn. -/
def Obeys (earlier : List Stage) (s : Stage) : (turn : Nat) → Prop
  | 0 => ∀ p, s.parent = some p → p ∈ earlier.map (·.id)
  | 1 => 0 < s.weight
  | 2 => s.id ∉ earlier.map (·.id)
  | 3 => s.parent = none → earlier = []
  | _ + 4 => (earlier.map (·.weight)).sum + s.weight ≤ wordMax

variable {stages earlier rest taken : List Stage} {s : Stage} {e e' : Malformed} {i : Nat}

/-- The rules are what it takes to come next. -/
theorem mayFollow_iff_obeys : MayFollow earlier s ↔ ∀ k, Obeys earlier s k := by
  constructor
  · intro h k
    match k with
    | 0 => exact h.parent
    | 1 => exact h.weight_pos
    | 2 => exact h.fresh
    | 3 => exact h.root
    | _ + 4 => exact h.total_le
  · intro h
    exact ⟨h 1, h 2, h 3, h 0, h 4⟩

namespace Offends

/-- Of the rules that are looked at together one at most is broken. -/
theorem eq_of_turn_eq (h : Offends stages earlier s e) (h' : Offends stages earlier s e')
    (hturn : e.turn = e'.turn) : e = e' := by
  cases h <;> cases h' <;> grind [Malformed.turn]

/-- A cause is told only if the rule of its turn is broken. -/
theorem not_obeys (h : Offends stages earlier s e) (hsub : ∀ r ∈ earlier, r ∈ stages) :
    ¬ Obeys earlier s e.turn := by
  intro hobeys
  cases h with
  | dangling hparent hnowhere =>
    obtain ⟨r, hr, hid⟩ := List.mem_map.1 (hobeys _ hparent)
    exact hnowhere (List.mem_map.2 ⟨r, hsub r hr, hid⟩)
  | cyclic hparent _ hlate _ => exact hlate (hobeys _ hparent)
  | outOfOrder hparent _ hlate _ => exact hlate (hobeys _ hparent)
  | weightless hweight => exact absurd hweight (Nat.ne_of_gt hobeys)
  | duplicate hname => exact hobeys hname
  | secondRoot hparent hfirst =>
    rw [hobeys hparent] at hfirst
    cases hfirst
  | tooHeavy htotal => exact absurd hobeys (Nat.not_le.2 htotal)

/-- A stage that obeys the rules up to a turn can only break a later one. -/
theorem le_turn (h : Offends stages earlier s e) (hsub : ∀ r ∈ earlier, r ∈ stages) {n : Nat}
    (hobeys : ∀ k < n, Obeys earlier s k) : n ≤ e.turn :=
  Nat.le_of_not_lt fun hlt => h.not_obeys hsub (hobeys _ hlt)

/-- A broken rule has a cause. -/
theorem exists_of_not_obeys {k : Nat} (h : ¬ Obeys earlier s k) :
    ∃ e, Offends stages earlier s e := by
  match k with
  | 0 =>
    obtain ⟨p, hp⟩ := not_forall.1 h
    obtain ⟨hparent, hlate⟩ := Classical.not_imp.1 hp
    by_cases hlisted : p ∈ stages.map (·.id)
    · by_cases hback : LeadsTo stages p s.id
      · exact ⟨_, .cyclic hparent hlisted hlate hback⟩
      · exact ⟨_, .outOfOrder hparent hlisted hlate hback⟩
    · exact ⟨_, .dangling hparent hlisted⟩
  | 1 => exact ⟨_, .weightless (Nat.eq_zero_of_not_pos h)⟩
  | 2 => exact ⟨_, .duplicate (not_not.1 h)⟩
  | 3 =>
    obtain ⟨hparent, hne⟩ := Classical.not_imp.1 h
    obtain ⟨first, later, rfl⟩ := List.exists_cons_of_ne_nil hne
    exact ⟨_, .secondRoot hparent rfl⟩
  | _ + 4 => exact ⟨_, .tooHeavy (Nat.lt_of_not_le h)⟩

/-- A stage may follow those in front of it unless it breaks a rule. -/
theorem exists_iff (hsub : ∀ r ∈ earlier, r ∈ stages) :
    (∃ e, Offends stages earlier s e) ↔ ¬ MayFollow earlier s := by
  rw [mayFollow_iff_obeys, not_forall]
  constructor
  · rintro ⟨e, h⟩
    exact ⟨e.turn, h.not_obeys hsub⟩
  · rintro ⟨k, hk⟩
    exact exists_of_not_obeys hk

end Offends

/-! ## One stage -/

theorem firstPosition?_eq_none_iff {p : StageId} :
    firstPosition? stages p = none ↔ p ∉ stages.map (·.id) := by
  rw [firstPosition?, List.findIdx?_eq_none_iff, List.mem_map]
  simp only [decide_eq_false_iff_not, not_exists, not_and]

theorem mem_of_firstPosition? {p : StageId} {q : Nat} (h : firstPosition? stages p = some q) :
    p ∈ stages.map (·.id) := by
  by_contra hnot
  rw [firstPosition?_eq_none_iff.2 hnot] at h
  cases h

/-- A name that is listed in front is found in front, and no other. -/
theorem lt_iff_of_firstPosition? {p : StageId} {q : Nat}
    (h : firstPosition? (earlier ++ rest) p = some q) :
    q < earlier.length ↔ p ∈ earlier.map (·.id) := by
  have happend : firstPosition? (earlier ++ rest) p =
      (firstPosition? earlier p).or ((firstPosition? rest p).map (· + earlier.length)) :=
    List.findIdx?_append
  rw [happend] at h
  cases hfront : firstPosition? earlier p with
  | none =>
    rw [hfront, Option.none_or, Option.map_eq_some_iff] at h
    obtain ⟨k, -, rfl⟩ := h
    refine ⟨fun hlt => ?_, fun hp => absurd hp (firstPosition?_eq_none_iff.1 hfront)⟩
    omega
  | some k =>
    rw [hfront, Option.some_or] at h
    cases h
    have hlt : q < earlier.length := (List.findIdx?_eq_some_iff_getElem.1 hfront).1
    exact ⟨fun _ => mem_of_firstPosition? hfront, fun _ => hlt⟩

/-- The test on the parent passes if the parent is listed before, and tells what is wrong with it
otherwise. -/
theorem checkOrder_cases (hstages : stages = earlier ++ s :: rest) :
    (checkOrder stages earlier.length s = .ok () ∧ Obeys earlier s 0) ∨
      ∃ e, checkOrder stages earlier.length s = .error e ∧ Offends stages earlier s e ∧
        e.turn = 0 := by
  unfold checkOrder
  cases hparent : s.parent with
  | none =>
    refine .inl ⟨rfl, fun p hp => ?_⟩
    rw [hparent] at hp
    cases hp
  | some p =>
    dsimp only
    cases hposition : firstPosition? stages p with
    | none => exact .inr ⟨_, rfl, .dangling hparent (firstPosition?_eq_none_iff.1 hposition), rfl⟩
    | some q =>
      dsimp only
      have hfront : q < earlier.length ↔ p ∈ earlier.map (·.id) :=
        lt_iff_of_firstPosition? (hstages ▸ hposition)
      by_cases hq : q < earlier.length
      · rw [if_pos hq]
        refine .inl ⟨rfl, fun p' hp' => ?_⟩
        rw [hparent] at hp'
        cases hp'
        exact hfront.1 hq
      · rw [if_neg hq]
        have hlisted := mem_of_firstPosition? hposition
        have hlate : p ∉ earlier.map (·.id) := fun hp => hq (hfront.2 hp)
        have hself : s.id ∈ stages.map (·.id) :=
          List.mem_map_of_mem (hstages ▸ List.mem_append_right earlier (List.mem_cons_self ..))
        have hcycle : ClosesCycle stages s.id p ↔ LeadsTo stages p s.id :=
          meets_iff_leadsTo hself (Nat.le_refl _)
        by_cases hback : LeadsTo stages p s.id
        · rw [if_pos (hcycle.2 hback)]
          exact .inr ⟨_, rfl, .cyclic hparent hlisted hlate hback, rfl⟩
        · rw [if_neg fun h => hback (hcycle.1 h)]
          exact .inr ⟨_, rfl, .outOfOrder hparent hlisted hlate hback, rfl⟩

namespace Draft

variable {d : Draft}

/-- A second root is told the first one. -/
theorem Took.parentFor_of_root {first : Stage} (h : d.Took taken) (hparent : s.parent = none)
    (hfirst : taken[0]? = some first) : d.parentFor s = .error (.secondRoot first.id s.id) := by
  obtain ⟨n, hn, hstage⟩ : ∃ n, d.nodes[0]? = some n ∧ n.stage = first.id := by
    have hname : d.tree.names[0]? = some first.id := by
      rw [h.lists.names, List.getElem?_map, hfirst, Option.map_some]
    rw [BufferTree.names, List.getElem?_map, Array.getElem?_toList] at hname
    exact Option.map_eq_some_iff.1 hname
  rw [parentFor, hparent]
  dsimp only
  rw [hn, ← hstage]

/-- If the parent was listed before, refusing a stage tells the first rule that it breaks. -/
theorem Took.offends_of_accept (h : d.Took taken) (hsub : ∀ r ∈ taken, r ∈ stages)
    (hparent : Obeys taken s 0) (hrefused : d.accept s = .error e) :
    Offends stages taken s e ∧ ∀ e', Offends stages taken s e' → e.turn ≤ e'.turn := by
  have hone : ∀ k < 1, Obeys taken s k := Nat.forall_lt_succ_right.2 ⟨nofun, hparent⟩
  rcases accept_eq_error_cases hrefused with ⟨hweight, rfl⟩ | ⟨hweight, hrest⟩
  · exact ⟨.weightless hweight, fun e' h' => h'.le_turn hsub hone⟩
  have htwo := Nat.forall_lt_succ_right.2 ⟨hone, hweight⟩
  rcases hrest with ⟨hknown, rfl⟩ | ⟨hunknown, hrest⟩
  · have hname : s.id ∈ taken.map (·.id) :=
      not_not.1 fun hnot => hknown (h.indexOf?_eq_none_iff.2 hnot)
    exact ⟨.duplicate hname, fun e' h' => h'.le_turn hsub htwo⟩
  have hname := h.indexOf?_eq_none_iff.1 hunknown
  have hthree := Nat.forall_lt_succ_right.2 ⟨htwo, hname⟩
  rcases hrest with hlost | ⟨parent, hfound, htotal, rfl⟩
  · -- A parent that was listed before is found, so there is none and should be one.
    have hroot : ¬ (s.parent = none → taken = []) := by
      intro hroot
      obtain ⟨parent, hfound⟩ := h.exists_parentFor hname hroot hparent
      rw [hlost] at hfound
      cases hfound
    obtain ⟨hnone, hne⟩ := Classical.not_imp.1 hroot
    obtain ⟨first, later, rfl⟩ := List.exists_cons_of_ne_nil hne
    rw [h.parentFor_of_root hnone rfl] at hlost
    cases hlost
    exact ⟨.secondRoot hnone rfl, fun e' h' => h'.le_turn hsub hthree⟩
  · have hfour := Nat.forall_lt_succ_right.2 ⟨hthree, h.root_of_parentFor hfound⟩
    rw [h.totalWeight_eq] at htotal
    exact ⟨.tooHeavy htotal, fun e' h' => h'.le_turn hsub hfour⟩

/-- A stage that may not come next is refused for the first rule that it breaks. -/
theorem Took.exists_soonest (h : d.Took taken) (hs : ¬ MayFollow taken s)
    (hstages : stages = taken ++ s :: rest) :
    ∃ e, growFrom stages d taken.length (s :: rest) = .error e ∧ Offends stages taken s e ∧
      ∀ e', Offends stages taken s e' → e.turn ≤ e'.turn := by
  obtain ⟨e, hgrow⟩ := h.exists_growFrom_error hs stages rest
  refine ⟨e, hgrow, ?_⟩
  rw [growFrom] at hgrow
  rcases checkOrder_cases hstages with ⟨hpassed, hparent⟩ | ⟨e', hrefused, hoffends, hturn⟩
  · rw [hpassed] at hgrow
    dsimp only at hgrow
    cases haccept : d.accept s with
    | ok parent => exact absurd (h.exists_accept_iff.1 ⟨parent, haccept⟩) hs
    | error e' =>
      rw [Draft.push, haccept] at hgrow
      cases hgrow
      exact h.offends_of_accept (hstages ▸ fun r hr => List.mem_append_left _ hr) hparent haccept
  · rw [hrefused] at hgrow
    cases hgrow
    exact ⟨hoffends, fun e' _ => hturn ▸ Nat.zero_le _⟩

end Draft

/-! ## The whole list -/

/-- No stage of a list in order breaks a rule, whatever follows. -/
theorem not_offendsAt (h : InOrder taken) (rest : List Stage) (hi : i < taken.length)
    (e : Malformed) : ¬ OffendsAt (taken ++ rest) i e := by
  rintro ⟨s, hs, hoffends⟩
  rw [List.take_append_of_le_length (Nat.le_of_lt hi)] at hoffends
  rw [List.getElem?_append_left hi] at hs
  have hsub : ∀ r ∈ taken.take i, r ∈ taken ++ rest := fun r hr =>
    List.mem_append_left rest (List.mem_of_mem_take hr)
  exact (Offends.exists_iff hsub).1 ⟨e, hoffends⟩ (h.mayFollow_of_getElem? hs)

namespace FirstOffence

/-- There is one first offence at most. -/
theorem eq_of_firstOffence {i' : Nat} (h : FirstOffence stages i e)
    (h' : FirstOffence stages i' e') : e = e' := by
  have hsame : i = i' := by
    rcases Nat.lt_trichotomy i i' with hlt | heq | hgt
    · exact absurd h.offends (h'.first i hlt e)
    · exact heq
    · exact absurd h'.offends (h.first i' hgt e')
  subst hsame
  have hturn := Nat.le_antisymm (h.soonest e' h'.offends) (h'.soonest e h.offends)
  obtain ⟨s, hs, hoffends⟩ := h.offends
  obtain ⟨s', hs', hoffends'⟩ := h'.offends
  rw [hs] at hs'
  cases hs'
  exact hoffends.eq_of_turn_eq hoffends' hturn

theorem of_inOrder (h : InOrder taken) (hoffends : Offends (taken ++ s :: rest) taken s e)
    (hsoonest : ∀ e', Offends (taken ++ s :: rest) taken s e' → e.turn ≤ e'.turn) :
    FirstOffence (taken ++ s :: rest) taken.length e := by
  have hs : (taken ++ s :: rest)[taken.length]? = some s := by simp
  have hfront : (taken ++ s :: rest).take taken.length = taken := List.take_left
  refine ⟨⟨s, hs, hfront.symm ▸ hoffends⟩, fun j hj => not_offendsAt h _ hj, ?_⟩
  rintro e' ⟨s', hs', hoffends'⟩
  rw [hs] at hs'
  cases hs'
  rw [hfront] at hoffends'
  exact hsoonest e' hoffends'

end FirstOffence

namespace BufferTree

/-- A list that is not in order is refused for its first offence. -/
theorem exists_firstOffence (h : ¬ InOrder stages) :
    ∃ i e, ofStages stages = .error e ∧ FirstOffence stages i e := by
  obtain ⟨taken, s, rest, rfl, htaken, hs⟩ := InOrder.exists_not_mayFollow h
  have htook := Draft.took_pushes htaken
  obtain ⟨e, hgrow, hoffends, hsoonest⟩ := htook.exists_soonest hs (Eq.refl (taken ++ s :: rest))
  refine ⟨taken.length, e, ?_, .of_inOrder htaken hoffends hsoonest⟩
  rw [ofStages, htook.growFrom_append, hgrow]

/-- A list is empty, or it is built, or it is refused for its first offence. -/
theorem ofStages_verdict (stages : List Stage) :
    (ofStages stages = .error .empty ∧ stages = [] ∧ ∀ i e, ¬ OffendsAt stages i e) ∨
      ((∃ t, ofStages stages = .ok t) ∧ stages ≠ [] ∧ ∀ i e, ¬ OffendsAt stages i e) ∨
        ∃ i e, ofStages stages = .error e ∧ FirstOffence stages i e := by
  by_cases horder : InOrder stages
  · have hnone : ∀ i e, ¬ OffendsAt stages i e := by
      rintro i e ⟨s, hs, hoffends⟩
      have hi : i < stages.length := (List.getElem?_eq_some_iff.1 hs).1
      have hnot := not_offendsAt horder [] hi e
      rw [List.append_nil] at hnot
      exact hnot ⟨s, hs, hoffends⟩
    by_cases hnil : stages = []
    · exact .inl ⟨hnil ▸ rfl, hnil, hnone⟩
    · exact .inr (.inl ⟨exists_ofStages ⟨horder, hnil⟩, hnil, hnone⟩)
  · exact .inr (.inr (exists_firstOffence horder))

/-- A list is refused for its first offence, or for being empty, and accepted otherwise. A cycle of
parent links through a stage is found with as many looks as there are stages; more of them find no
other. -/
theorem ofStages_eq_error_iff (stages : List Stage) :
    (∀ e, ofStages stages = .error e ↔
        (stages = [] ∧ e = .empty) ∨ ∃ i, FirstOffence stages i e) ∧
      ((∃ t, ofStages stages = .ok t) ↔ stages ≠ [] ∧ ∀ i e, ¬ OffendsAt stages i e) ∧
      ∀ s ∈ stages, ∀ p, ∀ looks ≥ stages.length,
        (meets stages s.id looks p = true ↔ LeadsTo stages p s.id) := by
  rw [← and_assoc]
  refine ⟨?_, fun s hs p looks hlooks => meets_iff_leadsTo (List.mem_map_of_mem hs) hlooks⟩
  rcases ofStages_verdict stages with
    ⟨hempty, hnil, hnone⟩ | ⟨⟨t, hbuilt⟩, hne, hnone⟩ | ⟨i, e, hrefused, hfirst⟩
  · rw [hempty]
    refine ⟨fun e => ⟨fun h => ?_, ?_⟩, fun ⟨t, ht⟩ => (nomatch ht), fun h => absurd hnil h.1⟩
    · cases h
      exact .inl ⟨hnil, rfl⟩
    · rintro (⟨-, rfl⟩ | ⟨i, hi⟩)
      · rfl
      · exact absurd hi.offends (hnone i e)
  · rw [hbuilt]
    refine ⟨fun e => ⟨fun h => (nomatch h), ?_⟩, fun _ => ⟨hne, hnone⟩, fun _ => ⟨t, rfl⟩⟩
    rintro (⟨hnil, -⟩ | ⟨i, hi⟩)
    · exact absurd hnil hne
    · exact absurd hi.offends (hnone i e)
  · rw [hrefused]
    refine ⟨fun e' => ⟨fun h => ?_, ?_⟩, fun ⟨t, ht⟩ => (nomatch ht),
      fun h => absurd hfirst.offends (h.2 i e)⟩
    · cases h
      exact .inr ⟨i, hfirst⟩
    · rintro (⟨rfl, -⟩ | ⟨i', hi'⟩)
      · obtain ⟨s, hs, -⟩ := hfirst.offends
        cases hs
      · rw [hfirst.eq_of_firstOffence hi']

/-- Stages whose parent links are entangled: stage 2 names a parent that is listed late, and twice.
Its first entry leads into a cycle without stage 2, its second one leads back. -/
def entangled : List Stage :=
  [{ id := .ofNat 1, weight := 8 },
    { id := .ofNat 2, weight := 0, parent := some (.ofNat 3) },
    { id := .ofNat 3, weight := 8, parent := some (.ofNat 4) },
    { id := .ofNat 4, weight := 8, parent := some (.ofNat 3) },
    { id := .ofNat 3, weight := 8, parent := some (.ofNat 2) }]

/-- The late parent is reported and not the missing bytes, and no cycle, since the first entry of a
name counts. -/
theorem ofStages_eq_error_iff_entangled :
    (∃ i, FirstOffence entangled i (.outOfOrder (.ofNat 2) (.ofNat 3))) ∧
      ¬ LeadsTo entangled (.ofNat 3) (.ofNat 2) := by
  obtain ⟨hiff, -, hmeets⟩ := ofStages_eq_error_iff entangled
  have hrefused : ofStages entangled = .error (.outOfOrder (.ofNat 2) (.ofNat 3)) := by decide
  have hmissed : meets entangled (.ofNat 2) 5 (.ofNat 3) = false := by decide
  refine ⟨((hiff _).1 hrefused).resolve_left fun h => (nomatch h.2), fun hleads => ?_⟩
  have hfound := (hmeets ⟨.ofNat 2, 0, some (.ofNat 3), ⟨0⟩⟩ (by decide) _ 5 (by decide)).2 hleads
  exact absurd (hmissed.symm.trans hfound) Bool.false_ne_true

end BufferTree

end LifetimeArena
