import Mathlib.Logic.Function.Basic
import MangaManager.Lib.Run
import MangaManager.Queue.Claim

/-!
# Cooldown of providers

The four calls that write `cooldown_until` of a provider as its jobs end:
`CatalogRepository.record_poll_success`, `record_provider_job_success` and
`record_poll_failure`, and `ChapterDownloadHandler._record_source_failure`.

`cooldown_kept_iff`: along a run of them no cooldown that lies ahead is cleared or
shortened exactly when every call meets `ProviderCall.KeepsCooldown`. Only
`record_provider_job_success` looks at the cooldown that is there.
-/

namespace MangaManager

open Lib

inductive HealthStatus where
  | healthy
  | degraded
  | cooldown
  deriving DecidableEq, Repr

/-- A row of `source_state_v2` with what the reports write; a null failure count is `0`. -/
structure SourceStateRow extends CatalogSourceState where
  healthStatus : HealthStatus := .healthy
  consecutiveFailures : Nat := 0
  lastError : String := ""
  frontier : List (List (String × String)) := []
  lastPull : List (String × Int) := []
  lastPollAt : Option Time := none
  updatedAt : Time
  deriving DecidableEq

/-- The poll cadence in the metadata of a policy. -/
structure PollCadence where
  basePollSeconds : Int := 0
  adaptivePollSeconds : Int := 0
  unchangedPollStreak : Nat := 0
  lastPollHadChanges : Bool := false
  deriving DecidableEq

/-- A row of `provider_policy` with what the reports write. -/
structure ProviderPolicyRow extends ProviderPolicy where
  cadence : PollCadence := {}
  recoveryProbeStep : Option Nat := none
  nextRecoveryProbe : Option Time := none
  recoveryProbeSuccesses : Option Nat := none
  updatedAt : Time
  deriving DecidableEq

/-- A row of `provider_endpoint_state`. -/
structure ProviderEndpointState where
  source : String
  trafficClass : String
  cooldownUntil : Option Time := none
  consecutiveFailures : Nat := 0
  lastError : String := ""
  updatedAt : Time
  deriving DecidableEq

/-- The tables of the providers, the first two by source. -/
structure Providers where
  states : String → Option SourceStateRow := fun _ => none
  policies : String → Option ProviderPolicyRow := fun _ => none
  endpoints : List ProviderEndpointState := []

/-- What the calls read besides the tables; `update_poll_cadence` computes with floats. -/
structure ProviderEnv where
  updatePollCadence : (successful changed : Bool) → PollCadence → PollCadence
  cooldowns : String → Time
  circuitBreakerFailures : Nat

def second : Time := 1000000

def minute : Time := 60 * second

namespace Providers

variable (env : ProviderEnv) (d : Providers) (source : String) (now : Time)

/-- `_source_state`: the row of the source, inserted when it is missing. -/
def sourceState : SourceStateRow := (d.states source).getD { source := source, updatedAt := now }

def putState (state : SourceStateRow) : Providers :=
  { d with states := Function.update d.states source (some state) }

/-- Writes the policy of the source, if there is one. -/
def updatePolicy (f : ProviderPolicyRow → ProviderPolicyRow) : Providers :=
  { d with policies := Function.update d.policies source ((d.policies source).map f) }

/-- The cooldown the source is under. -/
def cooldownUntil : Option Time := (d.states source).bind (·.cooldownUntil)

/-- `record_poll_success`. -/
def recordPollSuccess (frontier : List (List (String × String))) (partialFailures : Nat)
    (metrics : List (String × Int)) : Providers :=
  let d := d.putState source
    { d.sourceState source now with
      healthStatus := if partialFailures ≠ 0 then .degraded else .healthy
      consecutiveFailures := 0
      lastError := if partialFailures ≠ 0 then toString partialFailures ++ " item failures" else ""
      frontier := frontier, lastPull := metrics, cooldownUntil := none, lastPollAt := some now
      updatedAt := now }
  d.updatePolicy source fun policy =>
    { policy with
      cleanSince := some (policy.cleanSince.getD now)
      cadence := env.updatePollCadence (partialFailures == 0)
        ((metrics.lookup "candidates").any (· != 0)) policy.cadence }

/-- `cooldown_until > current` of a cooldown that may be null. -/
def ahead (cooldown : Option Time) (now : Time) : Bool := cooldown.any (now < ·)

/-- An endpoint of the source whose own cooldown is over starts anew. -/
def resetEndpoint (endpoint : ProviderEndpointState) : ProviderEndpointState :=
  if endpoint.source = source ∧ ahead endpoint.cooldownUntil now = false then
    { endpoint with
      consecutiveFailures := 0, lastError := "", cooldownUntil := none, updatedAt := now }
  else endpoint

/-- `record_provider_job_success`. -/
def recordProviderJobSuccess : Providers :=
  let state := d.sourceState source now
  if ahead state.cooldownUntil now then d.putState source state
  else
    let d := d.putState source
      { state with
        healthStatus := .healthy, consecutiveFailures := 0, lastError := "", cooldownUntil := none
        updatedAt := now }
    let d := { d with endpoints := d.endpoints.map (resetEndpoint source now) }
    d.updatePolicy source fun policy =>
      if policy.cleanSince = none then { policy with cleanSince := some now, updatedAt := now }
      else policy

/-- The cooldown `record_poll_failure` sets on its own after that many failures in a row. -/
def breakerCooldown (failures : Nat) : Time := minute * min (5 * 2 ^ (failures - 3)) 360

/-- The metadata that starts the recovery probes over. -/
def restartProbes (policy : ProviderPolicyRow) : ProviderPolicyRow :=
  { policy with
    recoveryProbeStep := some 0, nextRecoveryProbe := some (now + minute)
    recoveryProbeSuccesses := some 0 }

/-- `record_poll_failure`. -/
def recordPollFailure (error : String) (cooldownUntil : Option Time) : Providers :=
  let state := d.sourceState source now
  let failures := state.consecutiveFailures + 1
  let cooldown := if cooldownUntil = none ∧ 3 ≤ failures then some (now + breakerCooldown failures)
    else cooldownUntil
  let d := d.putState source
    { state with
      consecutiveFailures := failures
      healthStatus := if cooldown.isSome then .cooldown else .degraded
      lastError := truncate 4000 error, cooldownUntil := cooldown, lastPollAt := some now
      updatedAt := now }
  d.updatePolicy source fun policy =>
    let policy :=
      { policy with
        cleanSince := none, cadence := env.updatePollCadence false false policy.cadence }
    match cooldown with
    | none => policy
    | some until_ => restartProbes now
        { policy with
          lastLimitedAt := some now, learnedJobLimit := max 1 (policy.learnedJobLimit / 2)
          cooldownSeconds :=
            max policy.cooldownSeconds (max 60 (Int.tdiv (until_ - now) second)) }

/-- `_cooldown`. -/
def cooldownFor : Time :=
  match d.policies source with
  | some policy => if 0 < policy.cooldownSeconds then policy.cooldownSeconds * second
      else env.cooldowns source
  | none => env.cooldowns source

/-- The endpoint row of the traffic class, inserted when it is missing, records a failure. -/
def failEndpoint (trafficClass error : String) (cooldown : Option Time) : Providers :=
  let fail (endpoint : ProviderEndpointState) : ProviderEndpointState :=
    { endpoint with
      consecutiveFailures := endpoint.consecutiveFailures + 1, lastError := truncate 4000 error
      cooldownUntil := cooldown, updatedAt := now }
  let isRow (endpoint : ProviderEndpointState) : Bool :=
    endpoint.source == source && endpoint.trafficClass == trafficClass
  { d with
    endpoints :=
      if d.endpoints.any isRow then d.endpoints.map fun e => if isRow e then fail e else e
      else d.endpoints ++
        [fail { source := source, trafficClass := trafficClass, updatedAt := now }] }

/-- `_record_source_failure`, and the cooldown it returns. -/
def recordSourceFailure (error : String) (cooldownUntil : Option Time) (trafficClass : String) :
    Providers × Option Time :=
  let state := d.sourceState source now
  let failures := state.consecutiveFailures + 1
  let cooldown := if cooldownUntil = none ∧ env.circuitBreakerFailures ≤ failures then
      some (now + d.cooldownFor env source)
    else cooldownUntil
  let d := d.putState source
    { state with
      consecutiveFailures := failures, lastError := truncate 4000 error, cooldownUntil := cooldown
      healthStatus := if cooldown.isSome then .cooldown else .degraded, updatedAt := now }
  let d := d.updatePolicy source fun policy =>
    if cooldown.isSome then restartProbes now
      { policy with
        cleanSince := none, lastLimitedAt := some now
        learnedJobLimit := max 1 (policy.learnedJobLimit / 2) }
    else policy
  (d.failEndpoint source now trafficClass error cooldown, cooldown)

end Providers

/-! ## The provider tables as a state machine -/

/-- What a job reports about its provider as it ends. -/
inductive ProviderCall where
  | pollSuccess (source : String) (frontier : List (List (String × String)))
      (partialFailures : Nat) (metrics : List (String × Int))
  | jobSuccess (source : String)
  | pollFailure (source error : String) (cooldownUntil : Option Time)
  | sourceFailure (source error : String) (cooldownUntil : Option Time) (trafficClass : String)

namespace ProviderCall

def source : ProviderCall → String
  | pollSuccess source _ _ _ | jobSuccess source | pollFailure source _ _
  | sourceFailure source _ _ _ => source

def apply (env : ProviderEnv) (call : ProviderCall) (d : Providers) (now : Time) : Providers :=
  match call with
  | pollSuccess source frontier partialFailures metrics =>
    d.recordPollSuccess env source now frontier partialFailures metrics
  | jobSuccess source => d.recordProviderJobSuccess source now
  | pollFailure source error cooldown => d.recordPollFailure env source now error cooldown
  | sourceFailure source error cooldown trafficClass =>
    (d.recordSourceFailure env source now error cooldown trafficClass).1

/-- While a cooldown lies ahead, no poll succeeds, and a failure that is reported comes with a
cooldown as long, its own or that of the circuit breaker. -/
def KeepsCooldown (env : ProviderEnv) (call : ProviderCall) (d : Providers) (now : Time) : Prop :=
  let failures := (d.sourceState call.source now).consecutiveFailures + 1
  ∀ t, d.cooldownUntil call.source = some t → now < t →
    match call with
    | pollSuccess _ _ _ _ => False
    | jobSuccess _ => True
    | pollFailure _ _ (some cooldown) | sourceFailure _ _ (some cooldown) _ => t ≤ cooldown
    | pollFailure _ _ none => 3 ≤ failures ∧ t ≤ now + Providers.breakerCooldown failures
    | sourceFailure source _ none _ =>
      env.circuitBreakerFailures ≤ failures ∧ t ≤ now + d.cooldownFor env source

end ProviderCall

structure ClockedProviders where
  tables : Providers
  clock : Time

/-- A call at a time not before the clock. -/
def ProviderStep (env : ProviderEnv) (c : ClockedProviders) (l : ProviderCall × Time)
    (c' : ClockedProviders) : Prop :=
  c.clock ≤ l.2 ∧ c' = ⟨l.1.apply env c.tables l.2, l.2⟩

/-- A run of calls from any tables. -/
abbrev ProviderRun (env : ProviderEnv) (c₀ : ClockedProviders) := Run (ProviderStep env) c₀

def ClockedProviders.call (env : ProviderEnv) (c : ClockedProviders) (l : ProviderCall × Time) :
    ClockedProviders := ⟨l.1.apply env c.tables l.2, l.2⟩

/-- Every cooldown of `c` that still lies ahead is in force in `c'`, if not a longer one. -/
def CooldownsKept (c c' : ClockedProviders) : Prop :=
  c.clock ≤ c'.clock ∧ ∀ source t, c.tables.cooldownUntil source = some t → c'.clock < t →
    ∃ t', c'.tables.cooldownUntil source = some t' ∧ t ≤ t'

theorem CooldownsKept.trans {c₁ c₂ c₃ : ClockedProviders} (h₁ : CooldownsKept c₁ c₂)
    (h₂ : CooldownsKept c₂ c₃) : CooldownsKept c₁ c₃ := by
  refine ⟨h₁.1.trans h₂.1, fun source t ht hlt => ?_⟩
  obtain ⟨t', ht', hle⟩ := h₁.2 source t ht (h₂.1.trans_lt hlt)
  obtain ⟨t'', ht'', hle'⟩ := h₂.2 source t' ht' (hlt.trans_le hle)
  exact ⟨t'', ht'', hle.trans hle'⟩

/-! ## What a call writes -/

namespace Providers

variable {env : ProviderEnv} {d : Providers} {source other : String} {now : Time}

@[simp] theorem cooldownUntil_updatePolicy (f : ProviderPolicyRow → ProviderPolicyRow) :
    (d.updatePolicy source f).cooldownUntil other = d.cooldownUntil other := rfl

@[simp] theorem cooldownUntil_putState (state : SourceStateRow) :
    (d.putState source state).cooldownUntil source = state.cooldownUntil := by
  simp [cooldownUntil, putState]

theorem cooldownUntil_putState_ne (state : SourceStateRow) (h : other ≠ source) :
    (d.putState source state).cooldownUntil other = d.cooldownUntil other := by
  simp [cooldownUntil, putState, h]

@[simp] theorem cooldownUntil_failEndpoint (trafficClass error : String) (t : Option Time) :
    (d.failEndpoint source now trafficClass error t).cooldownUntil other = d.cooldownUntil other :=
  rfl

/-- A missing row is inserted without a cooldown. -/
@[simp] theorem sourceState_cooldownUntil :
    (d.sourceState source now).cooldownUntil = d.cooldownUntil source := by
  unfold sourceState cooldownUntil
  cases d.states source <;> rfl

end Providers

namespace ProviderCall

variable {env : ProviderEnv} {call : ProviderCall} {d : Providers} {now : Time}

/-- The other providers are left alone. -/
theorem apply_other {other : String} (h : other ≠ call.source) :
    (call.apply env d now).cooldownUntil other = d.cooldownUntil other := by
  cases call with
  | pollSuccess => exact Providers.cooldownUntil_putState_ne _ h
  | jobSuccess =>
    simp only [apply, Providers.recordProviderJobSuccess]
    split <;> exact Providers.cooldownUntil_putState_ne _ h
  | pollFailure => exact Providers.cooldownUntil_putState_ne _ h
  | sourceFailure => exact Providers.cooldownUntil_putState_ne _ h

/-- The cooldown a call leaves its provider under. -/
theorem apply_cooldownUntil :
    (call.apply env d now).cooldownUntil call.source =
      match call with
      | pollSuccess _ _ _ _ => none
      | jobSuccess source => (d.cooldownUntil source).filter (now < ·)
      | pollFailure source _ cooldown =>
        let failures := (d.sourceState source now).consecutiveFailures + 1
        if cooldown = none ∧ 3 ≤ failures then some (now + Providers.breakerCooldown failures)
        else cooldown
      | sourceFailure source _ cooldown _ =>
        if cooldown = none ∧
            env.circuitBreakerFailures ≤ (d.sourceState source now).consecutiveFailures + 1 then
          some (now + d.cooldownFor env source)
        else cooldown := by
  cases call with
  | pollSuccess => exact Providers.cooldownUntil_putState _
  | jobSuccess source =>
    simp only [apply, ProviderCall.source, Providers.recordProviderJobSuccess]
    rw [Providers.sourceState_cooldownUntil]
    cases hc : d.cooldownUntil source with
    | none => exact Providers.cooldownUntil_putState _
    | some t =>
      by_cases ht : now < t
      · rw [if_pos (by simpa [Providers.ahead] using ht), Providers.cooldownUntil_putState,
          Providers.sourceState_cooldownUntil, hc, Option.filter_some, if_pos (by simpa using ht)]
      · rw [if_neg (by simpa [Providers.ahead] using ht), Option.filter_some,
          if_neg (by simpa using ht)]
        exact Providers.cooldownUntil_putState _
  | pollFailure => exact Providers.cooldownUntil_putState _
  | sourceFailure => exact Providers.cooldownUntil_putState _

/-- A call keeps the cooldowns exactly when it meets the condition. -/
theorem cooldownsKept_iff {c : ClockedProviders} (hle : c.clock ≤ now) :
    CooldownsKept c ⟨call.apply env c.tables now, now⟩ ↔ call.KeepsCooldown env c.tables now := by
  have hother : CooldownsKept c ⟨call.apply env c.tables now, now⟩ ↔
      ∀ t, c.tables.cooldownUntil call.source = some t → now < t →
        ∃ t', (call.apply env c.tables now).cooldownUntil call.source = some t' ∧ t ≤ t' := by
    refine ⟨fun h => h.2 call.source, fun h => ⟨hle, fun source t ht hlt => ?_⟩⟩
    by_cases hs : source = call.source
    · subst hs
      exact h t ht hlt
    · exact ⟨t, (apply_other hs).trans ht, le_rfl⟩
  rw [hother, apply_cooldownUntil]
  unfold KeepsCooldown
  refine forall_congr' fun t => forall_congr' fun ht => forall_congr' fun hlt => ?_
  cases call with
  | pollSuccess => simp
  | jobSuccess source =>
    have hkept : (c.tables.cooldownUntil source).filter (now < ·) = some t := by
      rw [show c.tables.cooldownUntil source = some t from ht]
      simpa using hlt
    simp only [hkept, iff_true]
    exact ⟨t, rfl, le_rfl⟩
  | pollFailure source error cooldown =>
    cases cooldown with
    | some cooldown => simp
    | none =>
      simp only [ProviderCall.source]
      split
      · rename_i h
        simp [h.2]
      · rename_i h
        simp only [true_and] at h
        simp [h]
  | sourceFailure source error cooldown trafficClass =>
    cases cooldown with
    | some cooldown => simp
    | none =>
      simp only [ProviderCall.source]
      split
      · rename_i h
        simp [h.2]
      · rename_i h
        simp only [true_and] at h
        simp [h]

end ProviderCall

/-! ## Runs -/

/-- Along a run, every cooldown stays in force or grows while it lies ahead exactly when every
call meets the condition. -/
theorem cooldown_kept_iff {env : ProviderEnv} {c₀ c : ClockedProviders}
    {tr : List (ClockedProviders × (ProviderCall × Time))} (h : ProviderRun env c₀ tr c) :
    (∀ x y, Run.Later tr c x y → CooldownsKept x y) ↔
      Run.Meets (fun x l => l.1.KeepsCooldown env x.tables l.2) tr := by
  refine h.later_iff (I := fun _ => True) trivial (fun _ _ _ _ _ => trivial)
    (fun _ _ _ => CooldownsKept.trans) ?_
  rintro x l x' - ⟨hle, rfl⟩
  exact ProviderCall.cooldownsKept_iff hle

/-- A circuit breaker of three failures and cooldowns of five minutes. -/
def breakerEnv : ProviderEnv where
  updatePollCadence _ _ cadence := cadence
  cooldowns _ := 5 * minute
  circuitBreakerFailures := 3

/-- `asura` asks for ten minutes; a job that was already running reports after one. -/
def lateReport (late : ProviderCall) : List (ProviderCall × Time) :=
  [(.pollFailure "asura" "rate limited" (some (10 * minute)), 0), (late, minute)]

/-- The reports that reopen the provider: a poll that succeeds, a failure with a shorter cooldown
and two with none. -/
def reopeningReports : List ProviderCall :=
  [.pollSuccess "asura" [] 0 [], .pollFailure "asura" "rate limited" (some (2 * minute)),
    .pollFailure "asura" "timeout" none, .sourceFailure "asura" "http 500" none "origin"]

theorem reopeningReports_shorten : reopeningReports.Forall fun late => ∃ tr c,
    ProviderRun breakerEnv ⟨{}, 0⟩ tr c ∧ tr.map Prod.snd = lateReport late ∧
      ∃ x y, Run.Later tr c x y ∧ ¬ CooldownsKept x y := by
  rw [List.forall_iff_forall_mem]
  intro late hlate
  let c₁ := ClockedProviders.call breakerEnv ⟨{}, 0⟩
    (.pollFailure "asura" "rate limited" (some (10 * minute)), 0)
  let c₂ := c₁.call breakerEnv (late, minute)
  have hclock : c₁.clock ≤ minute := show (0 : Time) ≤ minute by decide
  have hrun : ProviderRun breakerEnv ⟨{}, 0⟩ [(_, _), (c₁, (late, minute))] c₂ :=
    .snoc (.single ⟨le_rfl, rfl⟩) ⟨hclock, rfl⟩
  have hlost : ∀ late ∈ reopeningReports,
      ∀ t ∈ (late.apply breakerEnv c₁.tables minute).cooldownUntil "asura", t < 10 * minute := by
    decide +kernel
  refine ⟨_, _, hrun, rfl, c₁, c₂, ⟨[_], _, [], rfl, Run.visits_last⟩, fun hkept => ?_⟩
  obtain ⟨t, ht, hle⟩ := hkept.2 "asura" (10 * minute) (by decide +kernel)
    (show minute < 10 * minute by decide)
  exact absurd (hlost late hlate t ht) (not_lt.mpr hle)

/-- A job that succeeds leaves the provider alone. -/
theorem cooldown_kept_once : ∃ tr c, ProviderRun breakerEnv ⟨{}, 0⟩ tr c ∧
    tr.map Prod.snd = lateReport (.jobSuccess "asura") ∧
    ∀ x y, Run.Later tr c x y → CooldownsKept x y := by
  let c₁ := ClockedProviders.call breakerEnv ⟨{}, 0⟩
    (.pollFailure "asura" "rate limited" (some (10 * minute)), 0)
  have hrun : ProviderRun breakerEnv ⟨{}, 0⟩ [(_, _), (c₁, (.jobSuccess "asura", minute))] _ :=
    .snoc (.single ⟨le_rfl, rfl⟩) ⟨by decide, rfl⟩
  refine ⟨_, _, hrun, rfl, (cooldown_kept_iff hrun).mpr ?_⟩
  simp only [Run.Meets, List.mem_cons, List.not_mem_nil, or_false, forall_eq_or_imp, forall_eq]
  exact ⟨fun t ht => (by cases ht), fun t _ _ => trivial⟩

end MangaManager
