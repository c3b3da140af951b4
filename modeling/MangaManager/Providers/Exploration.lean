import Mathlib.Algebra.Order.Field.Rat
import Mathlib.Tactic.Linarith
import MangaManager.Providers.Cadence

/-!
# The limits of providers

`ProviderTelemetry.start_due_exploration` tries one job more than the learned limit of a
provider; `finish` falls back to the tier below when the run was limited and keeps the tier
when it was not. Failures of the provider halve the limit in between. Seconds are exact
fractions.

`limits_move_right_iff`: every finish moves the limits in its direction exactly when a limited
one finds the job limit not below the tier it falls back to, and a promotion does not round
the request interval up.
-/

namespace MangaManager

open Lib

inductive BenchmarkState where
  | running
  | limited
  | succeeded
  | inconclusive
  deriving DecidableEq, Repr

/-- A row of `provider_benchmark_run`; `completedJobs` is the entry of its report. -/
structure BenchmarkRun where
  id : Nat
  source : String
  state : BenchmarkState := .running
  requestedTier : Int := 1
  stableTier : Int := 1
  requestCount : Nat := 0
  successCount : Nat := 0
  failureCount : Nat := 0
  limitingSignal : String := ""
  startedAt : Time
  completedAt : Option Time := none
  completedJobs : Int := 0
  deriving DecidableEq

/-- What an observed request says. -/
structure RequestSample where
  source : String
  statusCode : Int := 0
  errorCode : String := ""
  retryAfterSeconds : Option Int := none
  deriving DecidableEq

/-- The columns of `provider_policy` that only the exploration uses. -/
structure ExplorationColumns where
  learnedPageLimit : Int := 1
  nextExplorationAt : Option Time := none
  successfulTierRuns : Nat := 0
  benchmarkRunId : Option Nat := none
  deriving DecidableEq

/-- A row of `provider_policy`. -/
structure LearnedPolicy extends ProviderPolicyRow, ExplorationColumns
  deriving DecidableEq

/-- The tables of the providers, with the columns above beside the policies; a retry delay is
kept with the run of its sample. -/
structure Telemetry where
  tables : Providers := {}
  columns : String → ExplorationColumns := fun _ => {}
  runs : List BenchmarkRun := []
  nextRunId : Nat := 1
  retries : List (Option Nat × Int) := []

def day : Time := 1440 * minute

/-- `round(seconds, 3)`. -/
def roundThousandths (seconds : Rat) : Rat :=
  (roundHalfEven (seconds * 1000).num (seconds * 1000).den : Rat) / 1000

namespace RequestSample

variable (sample : RequestSample)

def failed : Bool := sample.errorCode != "" || [403, 429, 503].contains sample.statusCode

/-- The limiting signal of a failed sample. -/
def signal : String :=
  strip ("HTTP " ++ toString sample.statusCode ++ " " ++ sample.errorCode)

end RequestSample

namespace BenchmarkRun

variable (run : BenchmarkRun) (rateLimited : Bool) (completedJobs : Int) (now : Time)

def observe (sample : RequestSample) : BenchmarkRun :=
  { run with
    requestCount := run.requestCount + 1
    failureCount := run.failureCount + sample.failed.toNat
    successCount := run.successCount + (!sample.failed).toNat
    limitingSignal := if sample.failed && run.limitingSignal == "" then sample.signal
      else run.limitingSignal }

def limited : Bool := rateLimited || run.limitingSignal != ""

def useful : Bool := decide (100 ≤ run.requestCount) || decide (2 ≤ completedJobs)

/-- The run as it is finished. -/
def complete : BenchmarkRun :=
  { run with
    state := if run.limited rateLimited then .limited
      else if run.useful completedJobs then .succeeded else .inconclusive
    completedAt := some now, completedJobs := completedJobs }

/-- The runs a tier must succeed in before it is kept. -/
def requiredRuns : Nat := if run.source = "asura" ∧ 2 ≤ run.requestedTier then 2 else 1

/-- The least interval a promotion leaves. -/
def intervalFloor : Rat := if run.source = "asura" then 1 / 2 else 0

end BenchmarkRun

namespace LearnedPolicy

variable (p : LearnedPolicy) (run : BenchmarkRun) (now : Time)

/-- The policy after a limited run. -/
def fallBack (retryValues : List Int) : LearnedPolicy :=
  { p with
    lastLimitedAt := some now, successfulTierRuns := 0
    learnedJobLimit := max 1 (run.requestedTier - 1)
    learnedPageLimit := max 1 (min p.learnedPageLimit
      (if run.source = "asura" then 1 else max 2 ((run.requestedTier - 1) * 2)))
    requestIntervalSeconds := max (1 / 2)
      (if 0 < p.requestIntervalSeconds then p.requestIntervalSeconds * 2 else 1 / 2)
    nextExplorationAt := some (now + 30 * day)
    cooldownSeconds := (retryValues.max?).elim p.cooldownSeconds (max p.cooldownSeconds) }

/-- The shorter interval of a promotion. -/
def shortened : Rat :=
  if run.intervalFloor < p.requestIntervalSeconds then
    max run.intervalFloor (roundThousandths (p.requestIntervalSeconds * (4 / 5)))
  else p.requestIntervalSeconds

/-- Whether this success is enough to keep the tier. -/
def promotes : Bool := decide (run.requiredRuns ≤ p.successfulTierRuns + 1)

/-- The policy after a run that was not limited, and long enough to tell. -/
def advance : LearnedPolicy :=
  let p' := if p.promotes run then
      { p with
        learnedJobLimit := max p.learnedJobLimit run.requestedTier
        learnedPageLimit := max p.learnedPageLimit
          (if run.source = "asura" then 2 else run.requestedTier * 2)
        requestIntervalSeconds := p.shortened run }
    else p
  { p' with
    successfulTierRuns := p.successfulTierRuns + 1
    cleanSince := some (p.cleanSince.getD now), nextExplorationAt := some (now + 7 * day) }

/-- The policy after a run that was too short. -/
def keepTrying : LearnedPolicy :=
  { p with successfulTierRuns := 0, nextExplorationAt := some (now + day) }

end LearnedPolicy

namespace Telemetry

variable (x : Telemetry) (source : String) (now : Time)

def policy : Option LearnedPolicy :=
  (x.tables.policies source).map fun row =>
    { toProviderPolicyRow := row, toExplorationColumns := x.columns source }

def putPolicy (p : LearnedPolicy) : Telemetry :=
  { x with
    tables := { x.tables with
      policies := Function.update x.tables.policies source (some p.toProviderPolicyRow) }
    columns := Function.update x.columns source p.toExplorationColumns }

def findRun (runId : Nat) : Option BenchmarkRun := x.runs.find? (·.id == runId)

/-- `start_due_exploration`. -/
def startDueExploration (ceiling : Int) : Telemetry :=
  match x.policy source with
  | none => x
  | some p =>
    if p.nextExplorationAt.all (now < ·) ∨ ceiling ≤ p.learnedJobLimit then x
    else if x.runs.any fun run => run.source == source && run.state == .running then x
    else
      let tier := min ceiling (p.learnedJobLimit + 1)
      let run : BenchmarkRun :=
        { id := x.nextRunId, source := source, requestedTier := tier
          stableTier := p.learnedJobLimit, startedAt := now }
      let x := { x with runs := x.runs ++ [run], nextRunId := x.nextRunId + 1 }
      x.putPolicy source
        { p with
          explorationTier := some tier, explorationUntil := some (now + 10 * minute)
          benchmarkRunId := some run.id, updatedAt := now }

/-- `record_samples` of one sample, of a known source. -/
def recordSample (sample : RequestSample) : Telemetry :=
  let active := (x.runs.filter fun run => run.source == sample.source && run.state == .running)
    |>.getLast?.map (·.id)
  { x with
    runs := x.runs.map fun run => if active = some run.id then run.observe sample else run
    retries := x.retries ++ (sample.retryAfterSeconds.map fun delay => (active, delay)).toList }

/-- `finish`; `none` when it raises. The limits of a policy that is missing have no value. -/
def finish (runId : Nat) (rateLimited : Bool) (completedJobs : Int) : Option Telemetry := do
  let run ← x.findRun runId
  let retryValues := (x.retries.filter (·.1 == some runId)).map Prod.snd
  let stored := x.policy run.source
  let p ← if run.limited rateLimited then
      stored.map fun p => p.fallBack run now retryValues
    else if run.useful completedJobs then stored.map fun p => p.advance run now
    else some ((stored.getD { source := run.source, updatedAt := now }).keepTrying now)
  let x := { x with
    runs := x.runs.map fun (row : BenchmarkRun) =>
      if row.id = runId then row.complete rateLimited completedJobs now else row }
  return x.putPolicy run.source { p with expiresAt := some (now + 30 * day), updatedAt := now }

end Telemetry

/-! ## The provider as a state machine -/

inductive TelemetryCall where
  | startDueExploration (source : String)
  | report (call : ProviderCall)
  | recordSample (sample : RequestSample)
  | finish (runId : Nat) (rateLimited : Bool) (completedJobs : Int)

/-- A call that raises is rolled back. -/
def Telemetry.call (env : ProviderEnv) (ceiling : String → Int) (x : Telemetry)
    (l : TelemetryCall × Time) : Telemetry :=
  match l.1 with
  | .startDueExploration source => x.startDueExploration source l.2 (ceiling source)
  | .report call => { x with tables := call.apply env x.tables l.2 }
  | .recordSample sample => x.recordSample sample
  | .finish runId rateLimited completedJobs =>
    (x.finish l.2 runId rateLimited completedJobs).getD x

def TelemetryStep (env : ProviderEnv) (ceiling : String → Int) (x : Telemetry)
    (l : TelemetryCall × Time) (x' : Telemetry) : Prop := x' = x.call env ceiling l

/-- A limited run does not raise a limit or shorten a delay. -/
structure LearnedPolicy.Restrained (p p' : LearnedPolicy) : Prop where
  jobs : p'.learnedJobLimit ≤ p.learnedJobLimit
  pages : p'.learnedPageLimit ≤ p.learnedPageLimit
  interval : p.requestIntervalSeconds ≤ p'.requestIntervalSeconds
  cooldown : p.cooldownSeconds ≤ p'.cooldownSeconds

/-- Another run does not lower a limit or lengthen the interval. -/
structure LearnedPolicy.Relaxed (p p' : LearnedPolicy) : Prop where
  jobs : p.learnedJobLimit ≤ p'.learnedJobLimit
  pages : p.learnedPageLimit ≤ p'.learnedPageLimit
  interval : p'.requestIntervalSeconds ≤ p.requestIntervalSeconds

/-- A finish moves the policy of the provider of its run the way the run went. -/
def FinishMovesRight (env : ProviderEnv) (ceiling : String → Int) (x : Telemetry)
    (l : TelemetryCall × Time) : Prop :=
  ∀ runId rateLimited completedJobs, l.1 = .finish runId rateLimited completedJobs →
    ∀ run, x.findRun runId = some run → ∀ p, x.policy run.source = some p →
      ∀ p', (x.call env ceiling l).policy run.source = some p' →
        if run.limited rateLimited then p.Restrained p' else p.Relaxed p'

/-- The job limits are positive, and at most their first value or the ceiling. -/
def Telemetry.LimitsInRange (ceiling : String → Int) (x₀ x : Telemetry) : Prop :=
  ∀ source p₀ p, x₀.policy source = some p₀ → x.policy source = some p →
    1 ≤ p.learnedJobLimit ∧ p.learnedJobLimit ≤ max p₀.learnedJobLimit (ceiling source)

/-- Four fifths of the interval round to more thousandths than it has. -/
def RoundsUp (seconds : Rat) : Prop :=
  1 / 1600 < seconds ∧ seconds < 1 / 1000 ∨ 3 / 1600 ≤ seconds ∧ seconds < 1 / 500

/-- A limited finish finds the job limit not below the tier under that of its run, and a page
limit of one at least; one that promotes finds an interval that does not round up. -/
def FinishKeepsDirection (x : Telemetry) (l : TelemetryCall × Time) : Prop :=
  ∀ runId rateLimited completedJobs, l.1 = .finish runId rateLimited completedJobs →
    ∀ run, x.findRun runId = some run → ∀ p, x.policy run.source = some p →
      if run.limited rateLimited then
        run.requestedTier - 1 ≤ p.learnedJobLimit ∧ 1 ≤ p.learnedPageLimit
      else run.useful completedJobs → p.promotes run →
        run.intervalFloor < p.requestIntervalSeconds → ¬ RoundsUp p.requestIntervalSeconds

/-! ## Rounding -/

/-- Rounding to the even neighbour is at most `m` up to the middle above `m`. -/
theorem roundHalfEven_le_iff {n d m : Int} (hd : 0 < d) :
    roundHalfEven n d ≤ m ↔ 2 * n < (2 * m + 1) * d ∨ (2 * n = (2 * m + 1) * d ∧ m % 2 = 0) := by
  have hdiv := Int.mul_ediv_add_emod n d
  have hr := Int.emod_nonneg n hd.ne'
  have hlt := Int.emod_lt_of_pos n hd
  unfold roundHalfEven
  generalize n / d = q at *
  generalize n % d = r at *
  obtain rfl : n = d * q + r := hdiv.symm
  rcases lt_trichotomy q m with hq | rfl | hq
  · have hm : d * (q + 1) ≤ d * m := Int.mul_le_mul_of_nonneg_left (by omega) hd.le
    have hleft : 2 * (d * q + r) < (2 * m + 1) * d := by linarith
    exact iff_of_true (by split <;> omega) (.inl hleft)
  · have hcompare : 2 * (d * q + r) - (2 * q + 1) * d = 2 * r - d := by ring
    split <;> omega
  · have hm : d * (m + 1) ≤ d * q := Int.mul_le_mul_of_nonneg_left (by omega) hd.le
    have hright : (2 * m + 1) * d < 2 * (d * q + r) := by linarith
    exact iff_of_false (by split <;> omega) (by omega)

theorem roundHalfEven_rat_le_iff {q : Rat} {m : Int} :
    roundHalfEven q.num q.den ≤ m ↔ 2 * q < 2 * m + 1 ∨ (2 * q = 2 * m + 1 ∧ m % 2 = 0) := by
  have hd : (0 : Rat) < q.den := by exact_mod_cast q.den_pos
  have hq : q * q.den = q.num := Rat.mul_den_eq_num q
  rw [roundHalfEven_le_iff (by exact_mod_cast q.den_pos)]
  have hcast : ((2 * q.num : Int) : Rat) = 2 * q * q.den := by push_cast; rw [mul_assoc, hq]
  have hcast' : (((2 * m + 1) * q.den : Int) : Rat) = (2 * m + 1) * q.den := by push_cast; rfl
  rw [← @Int.cast_lt Rat, ← @Int.cast_inj Rat, hcast, hcast', mul_lt_mul_iff_left₀ hd,
    mul_left_inj' hd.ne']

/-- A positive interval gets longer exactly when it rounds up. -/
theorem roundThousandths_le_iff {s : Rat} (hs : 0 < s) :
    roundThousandths (s * (4 / 5)) ≤ s ↔ ¬ RoundsUp s := by
  unfold roundThousandths
  set q := s * (4 / 5) * 1000 with hqs
  have hround : ∀ m : Int, roundHalfEven q.num q.den ≤ m ↔
      2 * q < 2 * m + 1 ∨ (2 * q = 2 * m + 1 ∧ m % 2 = 0) := fun m => roundHalfEven_rat_le_iff
  generalize roundHalfEven q.num q.den = k at hround
  have hle : (k : Rat) / 1000 ≤ s ↔ (k : Rat) ≤ 1000 * s := by
    rw [div_le_iff₀ (by norm_num), mul_comm s]
  rw [hle]
  constructor
  · rintro hk (⟨hlow, hhigh⟩ | ⟨hlow, hhigh⟩)
    · have hpos : ¬ k ≤ 0 := by
        rw [hround]
        rintro (h | ⟨h, -⟩) <;> push_cast at h <;> linarith
      have hone : (1 : Rat) ≤ k := by exact_mod_cast not_le.mp hpos
      linarith
    · have hpos : ¬ k ≤ 1 := by
        rw [hround]
        rintro (h | ⟨-, h⟩)
        · push_cast at h
          linarith
        · omega
      have htwo : (2 : Rat) ≤ k := by exact_mod_cast not_le.mp hpos
      linarith
  · intro hno
    by_contra hk
    rw [not_le] at hk
    -- the value is at most half a thousandth above its product, so it is one or two
    have hhalf : 2 * (k : Rat) ≤ 2 * q + 1 := by
      have hpred := mt (hround (k - 1)).mpr (by omega)
      have hge := not_lt.mp (not_or.mp hpred).1
      push_cast at hge
      linarith
    have hpos : 0 < k := by
      have : (0 : Rat) < k := by linarith
      exact_mod_cast this
    have hsmall : k < 3 := by
      have : (k : Rat) < 3 := by linarith
      exact_mod_cast this
    obtain rfl | rfl : k = 1 ∨ k = 2 := by omega
    · have hmid := not_or.mp (mt (hround 0).mpr (by decide))
      have hge := lt_of_le_of_ne (not_lt.mp hmid.1) fun h => hmid.2 ⟨h.symm, by decide⟩
      push_cast at hge hk
      exact hno (.inl ⟨by linarith, by linarith⟩)
    · have hge := not_lt.mp (not_or.mp (mt (hround 1).mpr (by decide))).1
      push_cast at hge hk
      exact hno (.inr ⟨by linarith, by linarith⟩)

/-! ## What a call leaves -/

namespace ProviderCall

variable {env : ProviderEnv} {call : ProviderCall} {d : Providers} {now : Time}

/-- A report keeps the job limit of a policy or halves it. -/
theorem apply_policies (env : ProviderEnv) (call : ProviderCall) (d : Providers) (now : Time)
    (source : String) : ∃ f : ProviderPolicyRow → ProviderPolicyRow,
      (call.apply env d now).policies source = (d.policies source).map f ∧
      ∀ row, (f row).learnedJobLimit = row.learnedJobLimit ∨
        (f row).learnedJobLimit = max 1 (row.learnedJobLimit / 2) := by
  -- each report writes one policy
  have hupdate : ∀ (d : Providers) (s : String) (f : ProviderPolicyRow → ProviderPolicyRow),
      (∀ row, (f row).learnedJobLimit = row.learnedJobLimit ∨
        (f row).learnedJobLimit = max 1 (row.learnedJobLimit / 2)) →
      ∃ g : ProviderPolicyRow → ProviderPolicyRow,
        (d.updatePolicy s f).policies source = (d.policies source).map g ∧
          ∀ row, (g row).learnedJobLimit = row.learnedJobLimit ∨
            (g row).learnedJobLimit = max 1 (row.learnedJobLimit / 2) := by
    intro d s f hf
    by_cases hs : source = s
    · subst hs
      exact ⟨f, by simp [Providers.updatePolicy], hf⟩
    · exact ⟨id, by simp [Providers.updatePolicy, hs], fun _ => .inl rfl⟩
  cases call with
  | pollSuccess s frontier partialFailures metrics => exact hupdate _ s _ fun _ => .inl rfl
  | jobSuccess s =>
    simp only [apply, Providers.recordProviderJobSuccess]
    split
    · exact ⟨id, by simp [Providers.putState], fun _ => .inl rfl⟩
    · refine hupdate _ s _ fun row => .inl ?_
      split <;> rfl
  | pollFailure s error cooldown =>
    refine hupdate _ s _ fun row => ?_
    split
    · exact .inl rfl
    · exact .inr rfl
  | sourceFailure s error cooldown trafficClass =>
    have hite (c : Prop) [Decidable c] (row row' : ProviderPolicyRow)
        (h : row'.learnedJobLimit = max 1 (row.learnedJobLimit / 2)) :
        (if c then row' else row).learnedJobLimit = row.learnedJobLimit ∨
          (if c then row' else row).learnedJobLimit = max 1 (row.learnedJobLimit / 2) := by
      split
      · exact .inr h
      · exact .inl rfl
    exact hupdate _ s _ fun row => hite _ row _ rfl

end ProviderCall

namespace Telemetry

variable {x : Telemetry} {source other : String} {now : Time}

@[simp] theorem policy_putPolicy (p : LearnedPolicy) :
    (x.putPolicy source p).policy source = some p := by
  simp [policy, putPolicy]

theorem policy_putPolicy_ne (p : LearnedPolicy) (h : other ≠ source) :
    (x.putPolicy source p).policy other = x.policy other := by
  simp [policy, putPolicy, h]

@[simp] theorem runs_putPolicy (p : LearnedPolicy) : (x.putPolicy source p).runs = x.runs := rfl

/-- A new exploration asks for a tier up to the ceiling, and leaves the limits. -/
theorem startDueExploration_spec (source : String) (now : Time) (ceiling : Int) :
    x.startDueExploration source now ceiling = x ∨
      ∃ p p' run, x.policy source = some p ∧
        (x.startDueExploration source now ceiling).policy source = some p' ∧
        p'.learnedJobLimit = p.learnedJobLimit ∧
        (∀ other, other ≠ source →
          (x.startDueExploration source now ceiling).policy other = x.policy other) ∧
        (x.startDueExploration source now ceiling).runs = x.runs ++ [run] ∧
        run.source = source ∧ run.requestedTier ≤ ceiling := by
  unfold startDueExploration
  cases hp : x.policy source with
  | none => exact .inl rfl
  | some p =>
    dsimp only
    split
    · exact .inl rfl
    · split
      · exact .inl rfl
      · exact .inr ⟨p, _, _, rfl, policy_putPolicy _, rfl,
          fun other ho => policy_putPolicy_ne _ ho, rfl, rfl, min_le_left ..⟩

/-- The policy a finish writes. -/
def finished (p : LearnedPolicy) (run : BenchmarkRun) (rateLimited : Bool) (completedJobs : Int)
    (now : Time) (retryValues : List Int) : LearnedPolicy :=
  { (if run.limited rateLimited then p.fallBack run now retryValues
    else if run.useful completedJobs then p.advance run now else p.keepTrying now) with
    expiresAt := some (now + 30 * day), updatedAt := now }

theorem finish_spec (now : Time) {runId : Nat} (rateLimited : Bool) (completedJobs : Int)
    {run : BenchmarkRun} {p : LearnedPolicy} (hrun : x.findRun runId = some run)
    (hp : x.policy run.source = some p) :
    ∃ x' retryValues, x.finish now runId rateLimited completedJobs = some x' ∧
      x'.policy run.source = some (finished p run rateLimited completedJobs now retryValues) ∧
      (∀ other, other ≠ run.source → x'.policy other = x.policy other) ∧
      x'.runs = x.runs.map fun row =>
        if row.id = runId then row.complete rateLimited completedJobs now else row := by
  let x' := { x with
    runs := x.runs.map fun (row : BenchmarkRun) =>
      if row.id = runId then row.complete rateLimited completedJobs now else row }
  refine ⟨x'.putPolicy run.source _, (x.retries.filter (·.1 == some runId)).map Prod.snd, ?_,
    policy_putPolicy _, fun other ho => policy_putPolicy_ne _ ho, rfl⟩
  simp only [finish, hrun, hp, finished, Option.map_some, Option.getD_some, Option.bind_eq_bind,
    Option.bind_some]
  split
  · rfl
  · split <;> rfl

theorem finish_none {runId : Nat} {rateLimited : Bool} {completedJobs : Int}
    (hrun : x.findRun runId = none) : x.finish now runId rateLimited completedJobs = none := by
  simp [finish, hrun]

end Telemetry

/-! ## Runs -/

/-- How a call may change the job limit of a policy. -/
inductive JobLimitChange (runs : List BenchmarkRun) (source : String) (p p' : LearnedPolicy) : Prop
  | kept : p'.learnedJobLimit = p.learnedJobLimit → JobLimitChange runs source p p'
  | halved : p'.learnedJobLimit = max 1 (p.learnedJobLimit / 2) → JobLimitChange runs source p p'
  | finished (run : BenchmarkRun) : run ∈ runs → run.source = source →
      p'.learnedJobLimit = max 1 (run.requestedTier - 1) ∨
        p'.learnedJobLimit = max p.learnedJobLimit run.requestedTier →
      JobLimitChange runs source p p'

/-- The limits are in range, every run has a policy and asks for no more than the ceiling. -/
structure Telemetry.Explored (ceiling : String → Int) (x₀ x : Telemetry) : Prop where
  known : ∀ source, (x.policy source).isSome → (x₀.policy source).isSome
  limits : x₀.LimitsInRange ceiling x
  tiers : ∀ run ∈ x.runs, run.requestedTier ≤ ceiling run.source ∧ (x.policy run.source).isSome

section
variable {env : ProviderEnv} {ceiling : String → Int} {x₀ x x' : Telemetry}
  {l : TelemetryCall × Time} {tr : List (Telemetry × (TelemetryCall × Time))}

theorem Telemetry.finished_limit (p : LearnedPolicy) (run : BenchmarkRun) (rateLimited : Bool)
    (completedJobs : Int) (now : Time) (retryValues : List Int) :
    (Telemetry.finished p run rateLimited completedJobs now retryValues).learnedJobLimit =
      if run.limited rateLimited then max 1 (run.requestedTier - 1)
      else if run.useful completedJobs && p.promotes run then
        max p.learnedJobLimit run.requestedTier
      else p.learnedJobLimit := by
  unfold finished
  split
  · rfl
  · cases hu : run.useful completedJobs with
    | false => rfl
    | true =>
      rw [if_pos rfl, Bool.true_and]
      simp only [LearnedPolicy.advance]
      split <;> rfl

/-- What a call leaves of the policies and of the tiers. -/
theorem Telemetry.call_spec (env : ProviderEnv) (ceiling : String → Int)
    (l : TelemetryCall × Time) (hruns : ∀ run ∈ x.runs, (x.policy run.source).isSome) :
    (∀ source, Option.Rel (JobLimitChange x.runs source) (x.policy source)
      ((x.call env ceiling l).policy source)) ∧
    ∀ run ∈ (x.call env ceiling l).runs,
      (∃ row ∈ x.runs, row.source = run.source ∧ row.requestedTier = run.requestedTier) ∨
        ((x.policy run.source).isSome ∧ run.requestedTier ≤ ceiling run.source) := by
  have hkept : ∀ source, Option.Rel (JobLimitChange x.runs source) (x.policy source)
      (x.policy source) := by
    intro source
    cases x.policy source with
    | none => exact .none
    | some p => exact .some (.kept rfl)
  obtain ⟨call, now⟩ := l
  cases call with
  | startDueExploration s =>
    rcases startDueExploration_spec (x := x) s now (ceiling s) with
      he | ⟨p, p', run, hp, hp', hlimit, hother, hrows, hsource, htier⟩
    · simp only [Telemetry.call, he]
      exact ⟨hkept, fun run hrun => .inl ⟨run, hrun, rfl, rfl⟩⟩
    · simp only [Telemetry.call]
      refine ⟨fun source => ?_, fun row hrow => ?_⟩
      · by_cases hs : source = s
        · subst hs
          rw [hp, hp']
          exact .some (.kept hlimit)
        · rw [hother source hs]
          exact hkept source
      · rw [hrows] at hrow
        rcases List.mem_append.mp hrow with hrow | hrow
        · exact .inl ⟨row, hrow, rfl, rfl⟩
        · obtain rfl := List.mem_singleton.mp hrow
          exact .inr ⟨by rw [hsource, hp]; rfl, by rw [hsource]; exact htier⟩
  | report call =>
    refine ⟨fun source => ?_, fun run hrun => .inl ⟨run, hrun, rfl, rfl⟩⟩
    obtain ⟨f, hf, hlimit⟩ := ProviderCall.apply_policies env call x.tables now source
    simp only [Telemetry.call, Telemetry.policy, hf]
    cases x.tables.policies source with
    | none => exact .none
    | some row =>
      refine .some ?_
      rcases hlimit row with h | h
      · exact .kept h
      · exact .halved h
  | recordSample sample =>
    refine ⟨hkept, fun run hrun => .inl ?_⟩
    obtain ⟨row, hrow, rfl⟩ := List.mem_map.mp hrun
    refine ⟨row, hrow, ?_⟩
    split <;> exact ⟨rfl, rfl⟩
  | finish runId rateLimited completedJobs =>
    cases hrun : x.findRun runId with
    | none =>
      simp only [Telemetry.call, finish_none hrun, Option.getD_none]
      exact ⟨hkept, fun run hrun => .inl ⟨run, hrun, rfl, rfl⟩⟩
    | some run =>
      have hmem : run ∈ x.runs := List.mem_of_find?_eq_some hrun
      obtain ⟨p, hp⟩ := Option.isSome_iff_exists.mp (hruns run hmem)
      obtain ⟨x', retryValues, he, hp', hother, hrows⟩ := finish_spec now rateLimited
        completedJobs hrun hp
      simp only [Telemetry.call, he, Option.getD_some]
      refine ⟨fun source => ?_, fun row hrow => .inl ?_⟩
      · by_cases hs : source = run.source
        · subst hs
          rw [hp, hp']
          have hlimit := finished_limit p run rateLimited completedJobs now retryValues
          refine .some ?_
          split at hlimit
          · exact .finished run hmem rfl (.inl hlimit)
          · split at hlimit
            · exact .finished run hmem rfl (.inr hlimit)
            · exact .kept hlimit
        · rw [hother source hs]
          exact hkept source
      · rw [hrows] at hrow
        obtain ⟨row', hrow', rfl⟩ := List.mem_map.mp hrow
        refine ⟨row', hrow', ?_⟩
        split <;> exact ⟨rfl, rfl⟩

/-- A call keeps the limits in range. -/
theorem TelemetryStep.explored (h : TelemetryStep env ceiling x l x')
    (hx : x₀.Explored ceiling x) : x₀.Explored ceiling x' := by
  obtain rfl := h
  obtain ⟨hpolicies, hruns⟩ := Telemetry.call_spec env ceiling l
    fun run hrun => (hx.tiers run hrun).2
  have hsome : ∀ source, ((x.call env ceiling l).policy source).isSome =
      (x.policy source).isSome := by
    intro source
    have hrel := hpolicies source
    generalize x.policy source = o, (x.call env ceiling l).policy source = o' at hrel
    cases hrel with
    | none => rfl
    | some => rfl
  refine ⟨fun source hs => hx.known source (by rwa [hsome] at hs), ?_, fun run hrun => ?_⟩
  · intro source p₀ p' hp₀ hp'
    have hrel := hpolicies source
    obtain ⟨p, hp⟩ : ∃ p, x.policy source = some p :=
      Option.isSome_iff_exists.mp (by rw [← hsome, hp']; rfl)
    rw [hp, hp'] at hrel
    have hchange : JobLimitChange x.runs source p p' := by
      cases hrel
      assumption
    obtain ⟨hlow, hhigh⟩ := hx.limits source p₀ p hp₀ hp
    cases hchange with
    | kept h => omega
    | halved h => omega
    | finished run hrun hsource h =>
      obtain ⟨htier, -⟩ := hx.tiers run hrun
      rw [hsource] at htier
      omega
  · rw [hsome]
    rcases hruns run hrun with ⟨row, hrow, hsource, htier⟩ | ⟨hs, htier⟩
    · rw [← hsource, ← htier]
      exact hx.tiers row hrow
    · exact ⟨htier, hs⟩

theorem LearnedPolicy.restrained_iff {p : LearnedPolicy} {run : BenchmarkRun} {rateLimited : Bool}
    {completedJobs : Int} {now : Time} {retryValues : List Int} (hp : 1 ≤ p.learnedJobLimit)
    (hl : run.limited rateLimited) :
    p.Restrained (Telemetry.finished p run rateLimited completedJobs now retryValues) ↔
      run.requestedTier - 1 ≤ p.learnedJobLimit ∧ 1 ≤ p.learnedPageLimit := by
  unfold Telemetry.finished
  rw [if_pos hl]
  constructor
  · rintro ⟨hjobs, hpages, -, -⟩
    simp only [fallBack] at hjobs hpages
    omega
  · rintro ⟨hjobs, hpages⟩
    refine ⟨?_, ?_, ?_, ?_⟩ <;> simp only [fallBack]
    · omega
    · exact max_le hpages (min_le_left ..)
    · split
      · exact le_max_of_le_right (by linarith)
      · exact le_max_of_le_left (by linarith)
    · cases retryValues.max? with
      | none => exact le_rfl
      | some v => exact le_max_left ..

theorem LearnedPolicy.shortened_le_iff {p : LearnedPolicy} {run : BenchmarkRun} :
    p.shortened run ≤ p.requestIntervalSeconds ↔
      (run.intervalFloor < p.requestIntervalSeconds → ¬ RoundsUp p.requestIntervalSeconds) := by
  have hfloor : 0 ≤ run.intervalFloor := by
    unfold BenchmarkRun.intervalFloor
    split <;> norm_num
  unfold shortened
  split
  · rename_i hlt
    rw [max_le_iff, and_iff_right hlt.le, roundThousandths_le_iff (hfloor.trans_lt hlt)]
    simp [hlt]
  · rename_i hlt
    simp [hlt]

theorem LearnedPolicy.relaxed_iff {p : LearnedPolicy} {run : BenchmarkRun} {rateLimited : Bool}
    {completedJobs : Int} {now : Time} {retryValues : List Int} (hl : ¬ run.limited rateLimited) :
    p.Relaxed (Telemetry.finished p run rateLimited completedJobs now retryValues) ↔
      (run.useful completedJobs → p.promotes run →
        run.intervalFloor < p.requestIntervalSeconds → ¬ RoundsUp p.requestIntervalSeconds) := by
  unfold Telemetry.finished
  rw [if_neg hl]
  by_cases hu : run.useful completedJobs
  · rw [if_pos hu]
    simp only [advance]
    by_cases hpr : p.promotes run
    · rw [if_pos hpr]
      simp only [hu, hpr, forall_const, ← shortened_le_iff]
      exact ⟨fun h => h.interval, fun h => ⟨le_max_left .., le_max_left .., h⟩⟩
    · rw [if_neg hpr]
      exact iff_of_true ⟨le_rfl, le_rfl, le_rfl⟩ fun _ h => absurd h hpr
  · rw [if_neg hu]
    exact iff_of_true ⟨le_rfl, le_rfl, le_rfl⟩ fun h => absurd h hu

/-- A finish moves the limits in its direction exactly when it meets the condition. -/
theorem finishMovesRight_iff (hx : x₀.Explored ceiling x) :
    FinishMovesRight env ceiling x l ↔ FinishKeepsDirection x l := by
  obtain ⟨call, now⟩ := l
  unfold FinishMovesRight FinishKeepsDirection
  refine forall_congr' fun runId => forall_congr' fun rateLimited =>
    forall_congr' fun completedJobs => forall_congr' fun hcall => forall_congr' fun run =>
      forall_congr' fun hrun => forall_congr' fun p => forall_congr' fun hp => ?_
  obtain rfl : call = .finish runId rateLimited completedJobs := hcall
  obtain ⟨p₀, hp₀⟩ := Option.isSome_iff_exists.mp (hx.known run.source (by rw [hp]; rfl))
  obtain ⟨x', retryValues, he, hp', -, -⟩ := Telemetry.finish_spec now rateLimited
    completedJobs hrun hp
  simp only [Telemetry.call, he, Option.getD_some, hp', Option.some.injEq, forall_eq']
  by_cases hl : run.limited rateLimited
  · rw [if_pos hl, if_pos hl]
    exact LearnedPolicy.restrained_iff (hx.limits run.source p₀ p hp₀ hp).1 hl
  · rw [if_neg hl, if_neg hl]
    exact LearnedPolicy.relaxed_iff hl

end

/-- Three jobs of `mangafire` at a time, and an exploration due. -/
def dueTelemetry (interval : Rat) : Telemetry :=
  ({} : Telemetry).putPolicy "mangafire"
    { source := "mangafire", learnedJobLimit := 3, requestIntervalSeconds := interval
      updatedAt := 0, nextExplorationAt := some 0 }

/-- An exploration that a failure interrupts, and its finish. -/
def interruptedExploration (rateLimited : Bool) : List (TelemetryCall × Time) :=
  [(.startDueExploration "mangafire", 0),
    (.report (.pollFailure "mangafire" "rate limited" (some (10 * minute))), minute),
    (.finish 1 rateLimited 2, 2 * minute)]

/-- The tables of an interrupted exploration before its finish. -/
def interrupted (interval : Rat) : Telemetry :=
  ((interruptedExploration true).take 2).foldl (Telemetry.call breakerEnv fun _ => 4)
    (dueTelemetry interval)

theorem telemetry_run (env : ProviderEnv) (ceiling : String → Int) (x₀ : Telemetry)
    (calls : List (TelemetryCall × Time)) :
    Run (TelemetryStep env ceiling) x₀ (Run.history (Telemetry.call env ceiling) x₀ calls)
      (calls.foldl (Telemetry.call env ceiling) x₀) :=
  Run.of_foldl _ calls fun _ _ => rfl

end MangaManager
