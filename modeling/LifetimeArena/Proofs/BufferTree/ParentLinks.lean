import LifetimeArena.BufferTree.OfStages
import Mathlib.Data.Finset.Card
import Mathlib.Data.Nat.Find
import Mathlib.Logic.Relation

/-!
# Following parent links

In a list that is no tree the parent links of names may run into a cycle, or end at a name that is
not listed or at a root. The search for a cycle gives up after as many looks as there are stages.
It finds what there is to find all the same: on a shortest way to a listed name no name is met
twice, and every name on it is listed, so there are no more of them than stages.

- `LeadsTo`: what following parent links means, without a bound.
- `nthLink?`: the name after so many links.
- `Fewest`: the length of a shortest way, and what is met on it.
- `meets_iff_leadsTo`: the bounded search is exact.
-/

namespace LifetimeArena

variable {stages : List Stage} {id target : StageId}

/-- Following parent links from one name leads to another, which may be the same. -/
def LeadsTo (stages : List Stage) : StageId → StageId → Prop :=
  Relation.ReflTransGen fun id next => listedParent? stages id = some next

/-- The name that is met after following `n` parent links. -/
def nthLink? (stages : List Stage) : (n : Nat) → (id : StageId) → Option StageId
  | 0, id => some id
  | n + 1, id => (listedParent? stages id).bind (nthLink? stages n)

theorem nthLink?_add (stages : List Stage) (m n : Nat) (id : StageId) :
    nthLink? stages (m + n) id = (nthLink? stages m id).bind (nthLink? stages n) := by
  induction m generalizing id with
  | zero =>
    rw [Nat.zero_add]
    rfl
  | succ m ih =>
    rw [Nat.add_right_comm, nthLink?, nthLink?, Option.bind_assoc]
    exact congrArg _ (funext ih)

/-- Being led to a name is meeting it after some number of links. -/
theorem leadsTo_iff : LeadsTo stages id target ↔ ∃ n, nthLink? stages n id = some target := by
  constructor
  · intro h
    induction h using Relation.ReflTransGen.head_induction_on with
    | refl => exact ⟨0, rfl⟩
    | head hlink _ ih =>
      obtain ⟨n, hn⟩ := ih
      exact ⟨n + 1, by rw [nthLink?, hlink, Option.bind_some, hn]⟩
  · rintro ⟨n, hn⟩
    induction n generalizing id with
    | zero =>
      cases hn
      exact .refl
    | succ n ih =>
      obtain ⟨next, hlink, hnext⟩ := Option.bind_eq_some_iff.1 hn
      exact .head hlink (ih hnext)

/-- The search looks at one name more than it follows links. -/
theorem meets_iff (looks : Nat) :
    meets stages target looks id = true ↔ ∃ n < looks, nthLink? stages n id = some target := by
  induction looks generalizing id with
  | zero =>
    rw [meets]
    exact ⟨fun h => (nomatch h), fun ⟨n, hn, _⟩ => absurd hn (Nat.not_lt_zero n)⟩
  | succ looks ih =>
    rw [meets]
    split
    · next heq => exact ⟨fun _ => ⟨0, Nat.succ_pos looks, congrArg some heq⟩, fun _ => rfl⟩
    · next hne =>
      -- The name itself is not the target, so a link has to be followed.
      have hlater : (∃ n < looks + 1, nthLink? stages n id = some target) ↔
          ∃ n < looks, (listedParent? stages id).bind (nthLink? stages n) = some target := by
        constructor
        · rintro ⟨_ | n, hlt, hn⟩
          · exact absurd (Option.some.inj hn) hne
          · exact ⟨n, Nat.lt_of_succ_lt_succ hlt, hn⟩
        · rintro ⟨n, hlt, hn⟩
          exact ⟨n + 1, Nat.succ_lt_succ hlt, hn⟩
      rw [hlater]
      cases listedParent? stages id with
      | none => exact ⟨fun h => (nomatch h), fun ⟨_, _, h⟩ => (nomatch h)⟩
      | some next => exact ih

/-- Only the name of a listed stage has a parent link. -/
theorem mem_of_listedParent? {next : StageId} (h : listedParent? stages id = some next) :
    id ∈ stages.map (·.id) := by
  obtain ⟨s, hs, -⟩ := Option.bind_eq_some_iff.1 h
  have hid := List.find?_some hs
  rw [decide_eq_true_iff] at hid
  exact List.mem_map.2 ⟨s, List.mem_of_find?_eq_some hs, hid⟩

/-- No fewer than `n` parent links lead from one name to the other, and `n` do. -/
structure Fewest (stages : List Stage) (id target : StageId) (n : Nat) : Prop where
  meets : nthLink? stages n id = some target
  least : ∀ m < n, nthLink? stages m id ≠ some target

theorem exists_fewest (h : LeadsTo stages id target) : ∃ n, Fewest stages id target n := by
  have hmet := leadsTo_iff.1 h
  exact ⟨Nat.find hmet, Nat.find_spec hmet, fun _ => Nat.find_min hmet⟩

namespace Fewest

variable {n k : Nat}

/-- From every name on the way the rest of the way leads on. -/
theorem onward (h : Fewest stages id target n) (hk : k ≤ n) :
    (nthLink? stages k id).bind (nthLink? stages (n - k)) = some target := by
  rw [← nthLink?_add, Nat.add_sub_cancel' hk, h.meets]

/-- Every name on the way to a listed name is listed. -/
theorem exists_listed (h : Fewest stages id target n) (htarget : target ∈ stages.map (·.id))
    (hk : k ≤ n) : ∃ q ∈ stages.map (·.id), nthLink? stages k id = some q := by
  obtain ⟨q, hq, honward⟩ := Option.bind_eq_some_iff.1 (h.onward hk)
  refine ⟨q, ?_, hq⟩
  cases hsteps : n - k with
  | zero =>
    rw [hsteps] at honward
    cases honward
    exact htarget
  | succ steps =>
    rw [hsteps] at honward
    obtain ⟨next, hnext, -⟩ := Option.bind_eq_some_iff.1 honward
    exact mem_of_listedParent? hnext

/-- No name is met twice: the way would be shorter without the loop between the two. -/
theorem ne_of_lt (h : Fewest stages id target n) {a b : Nat} (hab : a < b) (hb : b ≤ n) :
    nthLink? stages a id ≠ nthLink? stages b id := by
  intro heq
  have hshort := h.onward hb
  rw [← heq, ← nthLink?_add] at hshort
  exact h.least (a + (n - b)) (by omega) hshort

theorem injOn (h : Fewest stages id target n) :
    Set.InjOn (fun k => nthLink? stages k id) (Finset.range (n + 1)) := by
  intro a ha b hb heq
  rw [Finset.mem_coe, Finset.mem_range] at ha hb
  rcases Nat.lt_trichotomy a b with hab | hab | hab
  · exact absurd heq (h.ne_of_lt hab (Nat.le_of_lt_succ hb))
  · exact hab
  · exact absurd heq.symm (h.ne_of_lt hab (Nat.le_of_lt_succ ha))

/-- The names on the way to a listed name are no more than the stages. -/
theorem lt_length (h : Fewest stages id target n) (htarget : target ∈ stages.map (·.id)) :
    n < stages.length := by
  have hmaps : Set.MapsTo (fun k => nthLink? stages k id) (Finset.range (n + 1))
      ((stages.map (·.id)).map some).toFinset := by
    intro k hk
    rw [Finset.mem_coe, Finset.mem_range] at hk
    obtain ⟨q, hlisted, hq⟩ := h.exists_listed htarget (Nat.le_of_lt_succ hk)
    rw [Finset.mem_coe, List.mem_toFinset]
    show nthLink? stages k id ∈ _
    rw [hq]
    exact List.mem_map_of_mem hlisted
  calc n + 1 = (Finset.range (n + 1)).card := (Finset.card_range _).symm
    _ ≤ ((stages.map (·.id)).map some).toFinset.card :=
        Finset.card_le_card_of_injOn _ hmaps h.injOn
    _ ≤ ((stages.map (·.id)).map some).length := List.toFinset_card_le _
    _ = stages.length := by rw [List.length_map, List.length_map]

end Fewest

/-- With a look for every stage, or more, the search for a listed name misses nothing. -/
theorem meets_iff_leadsTo (htarget : target ∈ stages.map (·.id)) {looks : Nat}
    (h : stages.length ≤ looks) :
    meets stages target looks id = true ↔ LeadsTo stages id target := by
  rw [meets_iff]
  constructor
  · rintro ⟨n, -, hn⟩
    exact leadsTo_iff.2 ⟨n, hn⟩
  · intro hleads
    obtain ⟨n, hfewest⟩ := exists_fewest hleads
    exact ⟨n, Nat.lt_of_lt_of_le (hfewest.lt_length htarget) h, hfewest.meets⟩

end LifetimeArena
