import LifetimeArena.Proofs.Paging.Guarding

/-!
# What a guard asks of its backend

A backend answers as it likes, and a guard cannot make it do otherwise. But what a guard asks for
does not depend on the answers: the pages of its region are to be locked when it begins and to be
unlocked when it ends, also where locking them was refused, and a guard without a region asks for
nothing. The answers decide only what is reported, and of two refusals only the first one is.

- `Effect.CarriedOutBy`: pages change by what the backend is asked for and by nothing else.
- `Effect.warnings`: what is reported as not having worked.
- `Guard.Idle`, `Guard.Pairs`: the life of a guard without a region, and of one with a region.
- `Guard.pairs_calls`: every guard lives one of the two lives, and its block decides which.
-/

namespace LifetimeArena

/-- Has a request carried out. -/
def Backend.perform (b : Backend) (t : PageTable) : Call → Backend.Reply
  | .lock r => b.lock r t
  | .unlock r => b.unlock r t

namespace Effect

/-- The pages are left as the requests leave them that were made one after the other. -/
def CarriedOutBy (e : Effect) (b : Backend) (t : PageTable) : Prop :=
  e.table = e.calls.foldl (fun t call => (b.perform t call).table) t

/-- The reports of what did not work. -/
def warnings (e : Effect) : List Event := e.events.filter (·.level = .warn)

end Effect

namespace Guard

/-- The status that the answer to locking leads to. -/
def statusAfter : Except ProtectionError Unit → ProtectionStatus
  | .ok () => .applied
  | .error e => .unavailable e

/-- What has to be complained about when locking a run and later unlocking it were answered so. -/
def complaints (r : PageRun) : (locked unlocked : Except ProtectionError Unit) → List Event
  | .error e, _ => [lockRefused e r]
  | .ok (), .error e => [unlockRefused e r]
  | .ok (), .ok () => []

/-- From beginning to end the guard asks for nothing and has nothing to complain about. -/
structure Idle (g : Guard) (begun ended : Effect) : Prop where
  status : g.status = .tooSmall
  begun_calls : begun.calls = []
  ended_calls : ended.calls = []
  warnings : begun.warnings ++ ended.warnings = []

/-- The guard has the run locked when it begins, over pages with the rights `t`, and unlocked when
it ends, over pages with the rights `t'`. It asks for nothing else, and complains only of the first
refusal. -/
structure Pairs (g : Guard) (b : Backend) (r : PageRun) (t t' : PageTable)
    (begun ended : Effect) : Prop where
  region : g.region = some r
  status : g.status = statusAfter (b.lock r t).answer
  begun_calls : begun.calls = [.lock r]
  ended_calls : ended.calls = [.unlock r]
  warnings : begun.warnings ++ ended.warnings =
    complaints r (b.lock r t).answer (b.unlock r t').answer

variable {b : Backend} {g : Guard} {r : PageRun} {t t' : PageTable}

theorem length_complaints_le (r : PageRun) (locked unlocked : Except ProtectionError Unit) :
    (complaints r locked unlocked).length ≤ 1 := by
  cases locked with
  | error e => exact Nat.le_refl 1
  | ok _ =>
    cases unlocked with
    | error e => exact Nat.le_refl 1
    | ok _ => exact Nat.zero_le 1

theorem statusAfter_eq_applied_iff {answer : Except ProtectionError Unit} :
    statusAfter answer = .applied ↔ answer = .ok () := by
  cases answer with
  | error e => exact ⟨nofun, nofun⟩
  | ok _ => exact ⟨fun _ => rfl, fun _ => rfl⟩

/-! ## Beginnings -/

/-- What a beginning over a run does, whatever the backend answers. -/
structure Asks (b : Backend) (r : PageRun) (t : PageTable) (begun : Guard × Effect) : Prop where
  backend : begun.1.backend = b
  region : begun.1.region = some r
  status : begun.1.status = statusAfter (b.lock r t).answer
  calls : begun.2.calls = [.lock r]
  carriedOut : begun.2.CarriedOutBy b t
  warnings : begun.2.warnings = complaints r (b.lock r t).answer (.ok ())

theorem asks_engageRun (b : Backend) (r : PageRun) (t : PageTable) :
    Asks b r t (engageRun b r t) := by
  unfold engageRun
  dsimp only
  cases hanswer : (b.lock r t).answer with
  | ok _ => exact ⟨rfl, rfl, by rw [hanswer]; rfl, rfl, rfl, by rw [hanswer]; rfl⟩
  | error e => exact ⟨rfl, rfl, by rw [hanswer]; rfl, rfl, rfl, by rw [hanswer]; rfl⟩

theorem Asks.isActive_iff {begun : Guard × Effect} (h : Asks b r t begun) :
    begun.1.isActive = true ↔ (b.lock r t).answer = .ok () := by
  rw [isActive, decide_eq_true_iff, h.status, statusAfter_eq_applied_iff]

/-! ## Ends -/

/-- The end of a guard with a region asks for that region to be unlocked. A refusal is complained of
if there was none before. -/
theorem drop_of_region (hregion : g.region = some r) (t' : PageTable) :
    (g.drop t').calls = [.unlock r] ∧ (g.drop t').CarriedOutBy g.backend t' ∧
      (g.drop t').warnings =
        if g.isActive then complaints r (.ok ()) (g.backend.unlock r t').answer else [] := by
  unfold drop
  rw [hregion]
  dsimp only
  cases hanswer : (g.backend.unlock r t').answer with
  | ok _ => exact ⟨rfl, rfl, by cases g.isActive <;> rfl⟩
  | error e =>
    refine ⟨rfl, rfl, ?_⟩
    unfold unlockComplaint Effect.warnings
    dsimp only
    cases g.isActive <;> rfl

theorem drop_of_no_region (hregion : g.region = none) (t' : PageTable) :
    g.drop t' = { table := t' } := by
  rw [drop, hregion]

/-! ## Lives -/

/-- A guard that has asked for a run to be locked will ask for it to be unlocked. -/
theorem Asks.pairs {begun : Guard × Effect} (h : Asks b r t begun) (t' : PageTable) :
    begun.1.Pairs b r t t' begun.2 (begun.1.drop t') := by
  obtain ⟨hcalls, -, hwarnings⟩ := drop_of_region h.region t'
  have hactive := h.isActive_iff
  refine ⟨h.region, h.status, h.calls, hcalls, ?_⟩
  rw [h.warnings, hwarnings, h.backend]
  cases hanswer : (b.lock r t).answer with
  | ok _ =>
    rw [if_pos (hactive.2 hanswer)]
    rfl
  | error e =>
    rw [hanswer] at hactive
    rw [if_neg fun hlocked => nomatch hactive.1 hlocked]
    rfl

/-- Every guard asks for as much at its end as at its beginning. If its block has no whole page,
that is nothing. Otherwise it is one request each, for the whole pages of the block, whatever the
backend answers. The guard is active exactly if locking was asked for and granted, and at most one
warning is given: about locking, or about unlocking what was locked. -/
theorem pairs_calls (b : Backend) (hp : b.pageSize.isPowerOfTwo) (addr size : Nat)
    (hword : addr + size ≤ wordMax) (t t' : PageTable) :
    ∃ g begun, engageWith b addr size t = .ok (g, begun) ∧
      begun.CarriedOutBy b t ∧ (g.drop t').CarriedOutBy b t' ∧
      (g.isActive = true ↔ ∃ r, .lock r ∈ begun.calls ∧ (b.lock r t).answer = .ok ()) ∧
      (begun.warnings ++ (g.drop t').warnings).length ≤ 1 ∧
      ((∀ k, ¬ (⟨addr, size⟩ : PageRun).Holds b.pageSize k) → g.Idle begun (g.drop t')) ∧
      ((∃ k, (⟨addr, size⟩ : PageRun).Holds b.pageSize k) →
        ∃ r, r.RoundsInward addr size b.pageSize ∧ g.Pairs b r t t' begun (g.drop t')) := by
  refine ⟨(engage b addr size t).1, (engage b addr size t).2, if_pos hp, ?_⟩
  unfold engage
  split
  · next hnone =>
    have hpages := PageRun.not_holds_of_covering?_eq_none hp hword hnone
    rw [drop_of_no_region rfl]
    refine ⟨rfl, rfl, ⟨nofun, fun ⟨r, hr, _⟩ => nomatch hr⟩, Nat.zero_le 1,
      fun _ => ⟨rfl, rfl, rfl, rfl⟩, fun ⟨k, hk⟩ => absurd hk (hpages k)⟩
  · next r hsome =>
    have hinward := PageRun.roundsInward_of_covering? hp hsome
    have hasks := asks_engageRun b r t
    have hpairs := hasks.pairs t'
    have hended := (drop_of_region hasks.region t').2.1
    rw [hasks.backend] at hended
    refine ⟨hasks.carriedOut, hended, ?_, ?_, fun hnot => ?_, fun _ => ⟨r, hinward, hpairs⟩⟩
    · rw [hasks.isActive_iff, hasks.calls]
      constructor
      · intro hanswer
        exact ⟨r, List.mem_singleton.2 rfl, hanswer⟩
      · rintro ⟨r', hr', hanswer⟩
        cases List.mem_singleton.1 hr'
        exact hanswer
    · rw [hpairs.warnings]
      exact length_complaints_le ..
    · obtain ⟨first, hfirst, -⟩ := hinward.exists_first
      exact absurd ((hinward.holds_iff first).1 hfirst) (hnot first)

/-- A backend that locks two pages and then cannot unlock them. -/
theorem pairs_calls_stuck :
    ∃ g begun, engageWith (.scripted 4096 .succeed (.fail 12)) 100 12288 (.fresh 4096) =
        .ok (g, begun) ∧ g.isActive = true ∧ begun.calls = [.lock ⟨4096, 8192⟩] ∧
      (g.drop begun.table).calls = [.unlock ⟨4096, 8192⟩] ∧
      begun.warnings ++ (g.drop begun.table).warnings =
        [unlockRefused (.os unlockOperation 12) ⟨4096, 8192⟩] := by
  obtain ⟨g, begun, hengage, -, -, hactive, -, -, hpairs⟩ :=
    pairs_calls (.scripted 4096 .succeed (.fail 12)) ⟨12, rfl⟩ 100 12288 (by decide)
      (.fresh 4096) (.fresh 4096)
  obtain ⟨r, -, hlife⟩ := hpairs ⟨1, by decide⟩
  have hbegun : engageWith (.scripted 4096 .succeed (.fail 12)) 100 12288 (.fresh 4096) =
      .ok ({ backend := .scripted 4096 .succeed (.fail 12), region := some ⟨4096, 8192⟩,
             status := .applied },
        { table := .fresh 4096, calls := [.lock ⟨4096, 8192⟩],
          events := [pagesLocked ⟨4096, 8192⟩] }) := rfl
  rw [hbegun] at hengage
  cases hengage
  cases hlife.region
  exact ⟨_, _, rfl, hactive.2 ⟨_, List.mem_singleton.2 rfl, rfl⟩, hlife.begun_calls,
    hlife.ended_calls, hlife.warnings⟩

end Guard

end LifetimeArena
