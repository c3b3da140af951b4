import MangaManager.Queue.Rows

/-!
# Enqueueing

`Queue.enqueue` is `JobQueue.enqueue`. A key with an active job keeps that job:
`repool` moves it to the routed pool and `coalesceInto` merges the new payload
into it (into the pending slot while it is leased, into the payload while it
waits). Otherwise a job is added to the active workload cycle.
-/

namespace MangaManager

open Lib

/-- `default_pool`. -/
def defaultPool : JobKind → String → String
  | .sourcePull, source => if source = "" then "pull:unknown" else "pull:" ++ source
  | .sourceRefresh, source => if source = "" then "refresh:unknown" else "refresh:" ++ source
  | .chapterDownload, source => if source = "" then "download:unknown" else "download:" ++ source
  | .kavitaSync, _ => "kavita"
  | .coverBackfill, _ => "cover_backfill"
  | .notification, _ => "notification"
  | .matchOperation, _ => "catalog_mutation"
  | _, _ => "maintenance"

/-- The arguments of `enqueue`; a negative `logical_units` acts as `0`. -/
structure EnqueueArgs where
  kind : JobKind
  dedupeKey : String
  payload : JobPayload
  priority : Int := 100
  maxAttempts : Nat := 3
  availableAt : Option Time := none
  source : String := ""
  seriesKey : String := ""
  pool : String := ""
  workflowKey : String := ""
  groupKey : String := ""
  logicalUnits : Nat := 1
  coalesce : Bool := false

namespace EnqueueArgs

/-- `routed_source`. -/
def routedSource (a : EnqueueArgs) : String := (a.payload.source?).getD (strip a.source)

/-- `routed_pool`. -/
def routedPool (a : EnqueueArgs) : String :=
  let p := strip a.pool
  if p = "" then defaultPool a.kind a.routedSource else p

end EnqueueArgs

/-- `_should_coalesce`. -/
def shouldCoalesce (kind : JobKind) (current replacement : JobPayload) : Bool :=
  if kind ≠ .sourceRefresh then current != replacement
  else if replacement.acquisitionCritical && !current.acquisitionCritical then true
  else
    let old := strip current.observationVersion
    let new := strip replacement.observationVersion
    let differ := current != replacement
    if old = "" ∨ new = "" then differ
    else match (parseDecimal new).bind fun n => (parseDecimal old).bind n.gt with
      | some newer => newer
      | none => if new = old then false else differ

/-- `list(dict.fromkeys(xs))`. -/
def fromKeys (xs : List Nat) : List Nat := xs.eraseDups

/-- The payload the request is compared with. -/
def WorkJob.coalesceBase (j : WorkJob) : JobPayload :=
  if j.status = .leased then j.pendingPayload.getD j.payload else j.payload

/-- The Kavita branch: the merged replacement and the units it adds, or `none` when nothing
new is asked for. -/
def mergeSeriesIds (j : WorkJob) (replacement : JobPayload) : Option (JobPayload × Nat) :=
  let incoming := fromKeys replacement.seriesIds
  if j.status = .leased then
    let inFlight := j.payload.seriesIds
    let pending := (j.pendingPayload.map (·.seriesIds)).getD []
    let merged := ((fromKeys (pending ++ incoming)).filter (· ∉ inFlight)).take 100
    if merged.length ≤ pending.length then none
    else some (replacement.withSeriesIds merged, merged.length - pending.length)
  else
    let current := j.coalesceBase.seriesIds
    let merged := (fromKeys (current ++ incoming)).take 100
    if merged = current then none else some (replacement.withSeriesIds merged, 0)

/-- The replacement to coalesce and the units the leased Kavita branch adds. -/
def replacementFor (kind : JobKind) (j : WorkJob) (payload : JobPayload) :
    Option (JobPayload × Nat) :=
  if kind = .kavitaSync ∧ payload.seriesIds ≠ [] then mergeSeriesIds j payload
  else some (payload, 0)

/-- `acquisition_promotion`. -/
def isPromotion (a : EnqueueArgs) (j : WorkJob) : Bool :=
  a.kind == .sourceRefresh && a.payload.acquisitionCritical && !j.coalesceBase.acquisitionCritical

/-- The urgency an acquisition promotion gives to the job. -/
def promote (a : EnqueueArgs) (now : Time) (j : WorkJob) : WorkJob :=
  { j with
    priority := if isPromotion a j then min j.priority a.priority else j.priority
    maxAttempts := if isPromotion a j then max j.maxAttempts a.maxAttempts else j.maxAttempts
    availableAt := if isPromotion a j ∧ j.status ≠ .leased then
        min j.availableAt (a.availableAt.getD now)
      else j.availableAt }

/-- Put the accepted replacement in its slot; the units added to the cycle. -/
def storeReplacement (a : EnqueueArgs) (now : Time) (replacement : JobPayload) (added : Nat)
    (j : WorkJob) : WorkJob × Nat :=
  if j.status = .leased then
    let n := if a.kind = .kavitaSync then added else max a.logicalUnits 1
    ({ j with pendingPayload := some replacement, logicalUnits := j.logicalUnits + n }, n)
  else
    let units := if a.kind = .kavitaSync then max replacement.seriesIds.length 1
      else j.logicalUnits
    ({ j with
        payload := replacement, errorCode := "", errorMessage := "", updatedAt := now,
        logicalUnits := units },
      units - j.logicalUnits)

/-- The body of `if coalesce:`; `none` where it returns without coalescing. -/
def coalesceInto (a : EnqueueArgs) (now : Time) (j : WorkJob) : Option (WorkJob × Nat) :=
  match replacementFor a.kind j a.payload with
  | none => none
  | some (replacement, added) =>
    if shouldCoalesce a.kind j.coalesceBase replacement then
      some (storeReplacement a now replacement added (promote a now j))
    else none

namespace WorkJob

/-- A waiting job follows the routed pool. -/
def repool (j : WorkJob) (pool : String) (now : Time) : WorkJob :=
  { j with
    pool := if j.status ≠ .leased then pool else j.pool
    updatedAt := if j.status ≠ .leased ∧ j.pool ≠ pool then now else j.updatedAt }

end WorkJob

namespace Queue

/-- `active_job`: the newest active job of the key. -/
def activeJob (s : Queue) (kind : JobKind) (key : String) : Option WorkJob :=
  (s.jobs.filter fun j => j.kind == kind && j.dedupeKey == key && j.status.isActive).getLast?

/-- Active jobs of a cycle. -/
def activeInCycle (s : Queue) (cycleId : Nat) : Nat :=
  (s.jobs.filter fun j => j.cycleId == some cycleId && j.status.isActive).length

/-- `_active_cycle`: the active cycle, after settling one that has no active job left. -/
def activeCycle (s : Queue) (now : Time) : Queue × WorkloadCycle :=
  let fresh (s : Queue) : Queue × WorkloadCycle :=
    let c : WorkloadCycle := { id := s.nextCycle, startedAt := now, updatedAt := now }
    ({ s with cycles := s.cycles ++ [c], nextCycle := s.nextCycle + 1 }, c)
  match (s.cycles.filter fun c => c.status == .active).getLast? with
  | none => fresh s
  | some c =>
    if s.activeInCycle c.id = 0 then
      let settled := { c with status := .settled, settledAt := some now, updatedAt := now }
      fresh { s with cycles := Table.put WorkloadCycle.id s.cycles settled }
    else (s, c)

/-- `_default_group_key`. -/
def defaultGroupKey (kind : JobKind) (key source seriesKey workflowKey : String) (cycleId : Nat) :
    String :=
  if kind = .chapterDownload ∧ seriesKey ≠ "" then
    "cycle:" ++ toString cycleId ++ ":download:" ++ seriesKey
  else match kind with
    | .sourcePull | .sourceRefresh => if workflowKey ≠ "" then workflowKey else "pull:" ++ source
    | .libraryRepair | .kavitaSync | .coverBackfill | .maintenance =>
      "cycle:" ++ toString cycleId ++ ":maintenance:" ++ kind.value
    | _ => kind.value ++ ":" ++ key

/-- The row `enqueue` inserts. -/
def newJob (s : Queue) (a : EnqueueArgs) (c : WorkloadCycle) (now : Time) : WorkJob :=
  let seriesKey := strip a.seriesKey
  let workflow := if strip a.workflowKey ≠ "" then strip a.workflowKey else a.payload.workflowKey
  { id := s.nextJob
    kind := a.kind
    dedupeKey := strip a.dedupeKey
    payload := a.payload
    priority := a.priority
    maxAttempts := a.maxAttempts
    availableAt := a.availableAt.getD now
    source := a.routedSource
    seriesKey := seriesKey
    pool := a.routedPool
    cycleId := some c.id
    workflowKey := workflow
    groupKey := if strip a.groupKey ≠ "" then strip a.groupKey
      else defaultGroupKey a.kind (strip a.dedupeKey) a.routedSource seriesKey workflow c.id
    logicalUnits := max a.logicalUnits 1
    createdAt := now
    updatedAt := now }

/-- `enqueue` when the key has the active job `e`. -/
def enqueueExisting (s : Queue) (a : EnqueueArgs) (e : WorkJob) (now : Time) : Queue :=
  let e := e.repool a.routedPool now
  match if a.coalesce then coalesceInto a now e else none with
  | none => s.putJob e
  | some (e', added) => (s.putJob e').addUnits e'.cycleId added now

/-- `enqueue` when the key has no active job. -/
def enqueueNew (s : Queue) (a : EnqueueArgs) (now : Time) : Queue :=
  let (s, c) := s.activeCycle now
  let j := s.newJob a c now
  ({ s with jobs := s.jobs ++ [j], nextJob := s.nextJob + 1 }.recordEvent j .enqueued).addUnits
    j.cycleId j.logicalUnits now

/-- The checks `enqueue` makes on its arguments. -/
def checkEnqueue (a : EnqueueArgs) : Except QueueError Unit :=
  if strip a.dedupeKey = "" then .error .emptyDedupeKey
  else if a.maxAttempts < 1 then .error .maxAttemptsTooSmall
  else if (parseJobPayload a.kind a.payload).isNone then .error .invalidPayload
  else .ok ()

/-- `enqueue`: the job's id and whether it was created. The `IntegrityError` branch of the
source is taken only when another transaction inserts the key between the lookup and the
flush. -/
def enqueue (s : Queue) (a : EnqueueArgs) (now : Time) : Except QueueError (Queue × Nat × Bool) :=
  match checkEnqueue a with
  | .error e => .error e
  | .ok () =>
    match s.activeJob a.kind (strip a.dedupeKey) with
    | some e => .ok (s.enqueueExisting a e now, e.id, false)
    | none => .ok (s.enqueueNew a now, s.nextJob, true)

end Queue

end MangaManager
