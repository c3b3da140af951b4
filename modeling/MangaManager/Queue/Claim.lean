import Mathlib.Data.List.MinMax
import Mathlib.Data.Prod.Lex
import Mathlib.Data.Rat.Floor
import MangaManager.Lib.Semaphore
import MangaManager.Queue.Lifecycle

/-!
# Claiming

`Queue.claim` is `JobQueue.claim`: up to fifty times, take the first job in the
order of `claim_query` that is not excluded, and try to take its permits. The
exclusions (saturated pools and sources, full global pools, rejected jobs) are
the fields of `ClaimScan`; the tables other than the queue's that a claim reads
are `ClaimEnv`.
-/

namespace MangaManager

open Lib

/-! ## What a claim reads besides the queue -/

/-- A row of `source_state_v2`, as far as a claim reads it. -/
structure CatalogSourceState where
  source : String
  manualEnabled : Bool := true
  cooldownUntil : Option Time := none
  deriving DecidableEq

/-- A row of `provider_policy`, as far as a claim reads it; the last two fields are the
exploration entries of `metadata_json`, `none` when missing or unreadable. -/
structure ProviderPolicy where
  source : String
  learnedJobLimit : Int := 1
  requestIntervalSeconds : Rat := 0
  cooldownSeconds : Int := 300
  cleanSince : Option Time := none
  lastLimitedAt : Option Time := none
  expiresAt : Option Time := none
  explorationUntil : Option Time := none
  explorationTier : Option Int := none
  deriving DecidableEq

structure ClaimEnv where
  sources : List CatalogSourceState := []
  policies : List ProviderPolicy := []
  storagePaused : Bool := false

/-- The `pool_limits` dictionary. -/
structure PoolLimits where
  entries : List (String × Nat)
  nodup : (entries.map Prod.fst).Nodup

/-- `limits.get(pool)`. -/
def PoolLimits.get (l : PoolLimits) (pool : String) : Option Nat := l.entries.lookup pool

structure ClaimArgs where
  owner : String
  leaseFor : Time
  kinds : Option (List JobKind) := none
  limits : PoolLimits := ⟨[], List.nodup_nil⟩
  pacingWindow : Rat := 2
  pools : Option (List String) := none

/-! ## Properties of a job -/

/-- `NETWORK_JOB_KINDS`. -/
def JobKind.isNetwork : JobKind → Bool
  | .sourcePull | .sourceRefresh | .chapterDownload => true
  | _ => false

/-- `MUTATING_JOB_KINDS`. -/
def JobKind.isMutating : JobKind → Bool
  | .chapterDownload | .libraryRepair => true
  | _ => false

namespace WorkJob

/-- `_is_network_job`. -/
def isNetworkJob (j : WorkJob) : Bool := j.kind.isNetwork || hasPrefix "pull:" j.pool

/-- `scheduling_tier`. -/
def schedulingTier (j : WorkJob) : Nat :=
  match j.kind with
  | .chapterDownload => 0
  | .sourceRefresh => if j.payload.acquisitionCritical then 1 else 3
  | .sourcePull => 2
  | .maintenance => if hasPrefix "pull:" j.pool then 4 else 5
  | _ => 5

/-- `ready`: waiting, and available. -/
def ready (j : WorkJob) (now : Time) : Bool := j.status.isWaiting && j.availableAt ≤ now

/-- `expired`: leased, and the lease ran out. -/
def expired (j : WorkJob) (now : Time) : Bool := j.status == .leased && j.leaseExpired now

theorem Live.earlier {j : WorkJob} {now later : Time} (h : j.Live later) (hle : now ≤ later) :
    j.Live now := by
  obtain ⟨hs, e, he, hlt⟩ := h
  exact ⟨hs, e, he, lt_of_le_of_lt hle hlt⟩

theorem Live.not_expired {j : WorkJob} {now : Time} (h : j.Live now) : j.expired now = false := by
  obtain ⟨-, e, he, hlt⟩ := h
  simp [expired, leaseExpired, he, not_le.mpr hlt]

theorem Live.not_ready {j : WorkJob} {now : Time} (h : j.Live now) : j.ready now = false := by
  simp [ready, h.1, JobState.isWaiting]

/-- The pools `_acquire_permits` asks; the source sorts them only to fix the order of its
advisory locks. -/
def permitPools (j : WorkJob) : List String :=
  let network := if j.isNetworkJob then
      "network_global" :: (if j.source = "" then [] else ["provider:" ++ j.source])
    else []
  let chapter := if j.kind = .chapterDownload then ["chapter_global"] else []
  ((j.pool :: network ++ chapter).filter (· ≠ "")).eraseDups

end WorkJob

/-! ## `claim_query` -/

/-- The filters of one `claim_query` call. -/
structure ClaimFilter where
  kinds : Option (List JobKind)
  pools : Option (List String)
  excludeIds : List Nat := []
  excludePools : List String := []
  excludeSources : List String := []
  blockNetwork : Bool := false
  blockChapters : Bool := false

namespace Queue

/-- A row that holds the series of `j` against it: of a conflicting kind, with an unexpired
lease. -/
def holdsSeries (j r : WorkJob) (now : Time) : Bool :=
  (if j.kind = .chapterDownload then r.kind == .libraryRepair else r.kind.isMutating) &&
    r.status == .leased && r.seriesKey == j.seriesKey && r.leaseAfter now

/-- The series condition of `claim_query`. -/
def seriesFree (s : Queue) (j : WorkJob) (now : Time) : Bool :=
  !j.kind.isMutating || j.seriesKey == "" ||
    !(s.jobs.any fun r => r.id != j.id && holdsSeries j r now)

/-- The provider condition: enabled, and not cooling down. -/
def sourceOpen (env : ClaimEnv) (j : WorkJob) (now : Time) : Bool :=
  !j.kind.isNetwork ||
    !(env.sources.any fun st => st.source == j.source &&
      (!st.manualEnabled || st.cooldownUntil.any fun u => now < u))

/-- The conditions of `claim_query` that do not depend on exclusions. -/
def claimable (env : ClaimEnv) (s : Queue) (now : Time) (j : WorkJob) : Bool :=
  (j.ready now || j.expired now) && j.attempts < j.maxAttempts && sourceOpen env j now &&
    s.seriesFree j now && (j.kind != .chapterDownload || !env.storagePaused)

/-- The exclusions of `claim_query`. -/
def admitted (f : ClaimFilter) (j : WorkJob) : Bool :=
  f.kinds.all (fun ks => j.kind ∈ ks) && f.pools.all (fun ps => j.pool ∈ ps ∧ j.pool ≠ "") &&
    (j.id ∉ f.excludeIds) && (j.pool ∉ f.excludePools) && (j.source ∉ f.excludeSources) &&
    !(f.blockNetwork && j.isNetworkJob) && !(f.blockChapters && j.kind == .chapterDownload)

/-- `active_group_load`. -/
def groupLoad (s : Queue) (j : WorkJob) (now : Time) : Nat :=
  (s.jobs.filter fun r => r.groupKey == j.groupKey && r.status == .leased && r.leaseAfter now).length

/-- `fairness_load`. -/
def fairnessLoad (s : Queue) (j : WorkJob) (now : Time) : Nat :=
  if j.kind = .chapterDownload then s.groupLoad j now else 0

/-- What `claim_query` orders by: tier, fairness load, priority, `available_at`, id. -/
def ClaimKey := Nat ×ₗ Nat ×ₗ Int ×ₗ Int ×ₗ Nat

-- spelled out, since the instances found for `Int` need not be computable
instance : LinearOrder ClaimKey :=
  @Prod.Lex.instLinearOrder Nat _ Nat.instLinearOrder
    (@Prod.Lex.instLinearOrder Nat _ Nat.instLinearOrder
      (@Prod.Lex.instLinearOrder Int _ Int.instLinearOrder
        (@Prod.Lex.instLinearOrder Int Nat Int.instLinearOrder Nat.instLinearOrder)))

def claimKey (s : Queue) (now : Time) (j : WorkJob) : ClaimKey :=
  toLex (j.schedulingTier, toLex (s.fairnessLoad j now,
    toLex (j.priority, toLex (j.availableAt, j.id))))

/-- `claim_query`: its first row. -/
def claimQuery (env : ClaimEnv) (s : Queue) (now : Time) (f : ClaimFilter) : Option WorkJob :=
  (s.jobs.filter fun j => claimable env s now j && admitted f j).argmin (s.claimKey now)

/-! ## Permits -/

/-- `_effective_provider_limit`. -/
def effectiveProviderLimit (env : ClaimEnv) (source : String) (limit : Option Nat) (now : Time)
    (pacingWindow : Rat) : Option Nat :=
  match env.policies.find? fun p => p.source == source with
  | none => limit
  | some p =>
    if p.expiresAt.any fun e => e ≤ now then limit
    else
      let limit := if 0 < p.requestIntervalSeconds then
          let pacing := max 1 (pacingWindow / p.requestIntervalSeconds).floor.toNat
          some (limit.elim pacing fun l => min l pacing)
        else limit
      let limit := match p.lastLimitedAt with
        | none => limit
        | some limitedAt =>
          let window := max p.cooldownSeconds 300
          let grown := match p.cleanSince with
            | some clean => if limitedAt < clean then max 0 (now - clean) / (window * 1000000) else 0
            | none => 0
          let adaptive := (max 1 p.learnedJobLimit + grown).toNat
          some (limit.elim adaptive fun l => min l adaptive)
      if p.explorationUntil.any fun u => now < u then
        let base : Nat := max 1 (limit.getD 1)
        let explored := (p.explorationTier.filter (· ≠ 0)).getD base
        some (max base explored.toNat)
      else limit

/-- The pools whose limit follows the provider's policy. -/
def isAdaptivePool (pool : String) : Bool :=
  hasPrefix "download:" pool || hasPrefix "refresh:" pool || hasPrefix "provider:" pool

/-- The limit `_acquire_permits` applies to one pool. -/
def poolLimit (env : ClaimEnv) (a : ClaimArgs) (j : WorkJob) (now : Time) (pool : String) :
    Option Nat :=
  if isAdaptivePool pool ∧ j.source ≠ "" then
    effectiveProviderLimit env j.source (a.limits.get pool) now a.pacingWindow
  else a.limits.get pool

/-- Unexpired permits of a pool. -/
def permitCount (s : Queue) (now : Time) (pool : String) : Nat :=
  Semaphore.inUse JobPermit.pool JobPermit.leaseExpiresAt s.permits now pool

/-- The checks of `_acquire_permits`. -/
def permitsFree (env : ClaimEnv) (a : ClaimArgs) (s : Queue) (now : Time) (j : WorkJob) : Bool :=
  !(j.kind.isMutating && j.seriesKey != "" && s.jobs.any fun r => holdsSeries j r now) &&
    j.permitPools.all fun pool =>
      (poolLimit env a j now pool).all fun limit => s.permitCount now pool < limit

theorem permitsFree_iff {env : ClaimEnv} {a : ClaimArgs} {s : Queue} {now : Time} {j : WorkJob} :
    permitsFree env a s now j = true ↔
      (j.kind.isMutating = true → j.seriesKey ≠ "" → ∀ r ∈ s.jobs, holdsSeries j r now = false) ∧
      ∀ pool ∈ j.permitPools, ∀ limit, poolLimit env a j now pool = some limit →
        s.permitCount now pool < limit := by
  rw [permitsFree, Bool.and_eq_true]
  refine and_congr ?_ ?_
  · by_cases hm : j.kind.isMutating = true <;> by_cases hs : j.seriesKey = "" <;> simp [hm, hs]
  · rw [List.all_eq_true]
    refine forall₂_congr fun pool _ => ?_
    cases poolLimit env a j now pool <;> simp

/-- The permits `_acquire_permits` adds. -/
def newPermits (a : ClaimArgs) (now : Time) (j : WorkJob) : List JobPermit :=
  (j.permitPools.filter fun pool => (a.limits.get pool).isSome).map fun pool =>
    ⟨j.id, pool, strip a.owner, now + a.leaseFor⟩

/-- `_permit_pool_full`. -/
def permitPoolFull (limits : PoolLimits) (s : Queue) (now : Time) (pool : String) : Bool :=
  (limits.get pool).any fun limit => limit ≤ s.permitCount now pool

/-- `_saturated_direct_pools`. -/
def saturatedDirectPools (limits : PoolLimits) (s : Queue) (now : Time) : List String :=
  (limits.entries.filter fun e =>
    e.1 != "network_global" && e.1 != "chapter_global" && e.2 ≤ s.permitCount now e.1).map Prod.fst

/-- `_saturated_provider_sources`. -/
def saturatedProviderSources (env : ClaimEnv) (a : ClaimArgs) (s : Queue) (now : Time) :
    List String :=
  (a.limits.entries.filter fun e => hasPrefix "provider:" e.1 &&
    (effectiveProviderLimit env (removePrefix "provider:" e.1) (some e.2) now a.pacingWindow).any
      fun limit => limit ≤ s.permitCount now e.1).map fun e => removePrefix "provider:" e.1

/-! ## `claim` -/

/-- The local variables of `claim`'s loop. -/
structure ClaimScan where
  queue : Queue
  rejected : List Nat
  saturatedPools : List String
  saturatedSources : List String
  networkFull : Bool
  chapterFull : Bool

/-- The exclusions computed from the permits in use. -/
def scanOf (env : ClaimEnv) (a : ClaimArgs) (now : Time) (s : Queue) (rejected : List Nat)
    (sources : List String) : ClaimScan where
  queue := s
  rejected := rejected
  saturatedPools := saturatedDirectPools a.limits s now
  saturatedSources := sources ++ saturatedProviderSources env a s now
  networkFull := permitPoolFull a.limits s now "network_global"
  chapterFull := permitPoolFull a.limits s now "chapter_global"

def ClaimScan.filter (c : ClaimScan) (a : ClaimArgs) : ClaimFilter where
  kinds := a.kinds
  pools := a.pools
  excludeIds := c.rejected
  excludePools := c.saturatedPools
  excludeSources := c.saturatedSources
  blockNetwork := c.networkFull
  blockChapters := c.chapterFull

/-- A refresh whose stored pool is not the one of its source is moved to it. -/
def repoolRefresh (j : WorkJob) : WorkJob :=
  { j with pool := if j.kind = .sourceRefresh then defaultPool j.kind j.source else j.pool }

@[simp] theorem repoolRefresh_id (j : WorkJob) : (repoolRefresh j).id = j.id := rfl

/-- The loop of `claim`: the tables it leaves and the job whose permits it took. -/
def claimLoop (env : ClaimEnv) (a : ClaimArgs) (now : Time) : Nat → ClaimScan →
    Except QueueError (Queue × Option WorkJob)
  | 0, c => .ok (c.queue, none)
  | fuel + 1, c =>
    match claimQuery env c.queue now (c.filter a) with
    | none => .ok ((c.queue.failExhaustedLeases now).1, none)
    | some candidate =>
      let j := repoolRefresh candidate
      let s := c.queue.putJob j
      if j.expired now ∧ j.maxAttempts ≤ j.attempts then
        claimLoop env a now fuel
          { c with queue := s.failExpiredJob s.jobs j now, rejected := j.id :: c.rejected }
      else
        let s := if j.expired now then s.releasePermits j.id else s
        if permitsFree env a s now j then
          if s.permits.any fun p => p.jobId == j.id && (newPermits a now j).any (·.pool == p.pool)
          then .error (.integrity "uq_job_permit_job_pool")
          else .ok ({ s with permits := s.permits ++ newPermits a now j }, some j)
        else
          let sources := if j.isNetworkJob ∧ j.source ≠ "" then j.source :: c.saturatedSources
            else c.saturatedSources
          claimLoop env a now fuel (scanOf env a now s (j.id :: c.rejected) sources)

/-- `uq_job_leased_library_repair_series` would refuse to lease `j`. -/
def repairSeriesTaken (s : Queue) (j : WorkJob) : Bool :=
  j.kind == .libraryRepair && j.seriesKey != "" && s.jobs.any fun r =>
    r.id != j.id && r.kind == .libraryRepair && r.status == .leased && r.seriesKey == j.seriesKey

end Queue

/-- `JobLease`. -/
structure JobLease where
  id : Nat
  kind : JobKind
  dedupeKey : String
  payload : JobPayload
  priority : Int
  attempt : Nat
  maxAttempts : Nat
  owner : String
  expiresAt : Time
  source : String
  seriesKey : String
  pool : String
  deriving DecidableEq

/-- The lease `claim` returns for a job it leased. -/
def WorkJob.toLease (j : WorkJob) (payload : JobPayload) (expiresAt : Time) : JobLease where
  id := j.id
  kind := j.kind
  dedupeKey := j.dedupeKey
  payload := payload
  priority := j.priority
  attempt := j.attempts
  maxAttempts := j.maxAttempts
  owner := j.leaseOwner
  expiresAt := expiresAt
  source := j.source
  seriesKey := j.seriesKey
  pool := j.pool

namespace Queue

/-- The end of `claim`: lease the job the loop chose. -/
def leaseChosen (a : ClaimArgs) (now : Time) (s : Queue) (j : WorkJob) :
    Except QueueError (Queue × Option JobLease) :=
  if s.repairSeriesTaken j then .error (.integrity "uq_job_leased_library_repair_series")
  else
    let j' := j.lease (strip a.owner) a.leaseFor now
    match parseJobPayload j'.kind j'.payload with
    | none => .error .invalidPayload
    | some payload =>
      .ok ((s.putJob j').recordEvent j' .leased (strip a.owner),
        some (j'.toLease payload (now + a.leaseFor)))

def claim (env : ClaimEnv) (a : ClaimArgs) (s : Queue) (now : Time) :
    Except QueueError (Queue × Option JobLease) :=
  if strip a.owner = "" then .error .emptyOwner
  else if a.leaseFor ≤ 0 then .error .leaseForNotPositive
  else match claimLoop env a now 50 (scanOf env a now s [] []) with
    | .error e => .error e
    | .ok (s, none) => .ok (s, none)
    | .ok (s, some j) => leaseChosen a now s j

end Queue

end MangaManager
