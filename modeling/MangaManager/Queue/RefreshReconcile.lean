import Mathlib.Data.List.Sort
import MangaManager.Queue.Observations

/-!
# The reconciler of the refresh queue

`RefreshQueueReconciler`: `auditRefresh` sorts the active refresh jobs by the version and the keys
of their row, `applyRecords` repairs them one after another. An incompatible job that waits is
cancelled and enqueued again, one that runs gets its payload once more as the pending one, and a
compatible job is brought up to date in its row. `refreshPass` is one audit with its repair.
-/

namespace MangaManager

open Lib

/-! ## Versions -/

/-- `int(payload.get("version") or 1)`, `0` where it raises. -/
def PayloadVersion.read : PayloadVersion → Int
  | absent => 1
  | number n => if n = 0 then 1 else n
  | text t => if t = "" then 1 else (parseInt t).getD 0
  | other => 0

/-- `COMPATIBLE_REFRESH_VERSIONS`. -/
def compatibleRefreshVersions : List Int := [1, 2, 3]

namespace JobPayload

def version : JobPayload → PayloadVersion
  | sourceRefresh p => p.version
  | sourcePull p => .number p.version
  | chapterDownload p => .number p.version
  | kavitaSync p => .number p.version
  | libraryRepair p => .number p.version
  | coverBackfill p => .number p.version
  | maintenance p => .number p.version
  | notification p => .number p.version
  | matchOperation p => .number p.version

/-- `str(payload.get("source_id") or "")`. -/
def sourceId : JobPayload → String
  | sourceRefresh p => p.sourceId
  | _ => ""

/-- The fields of the payload with the current version. -/
def normalized : JobPayload → JobPayload
  | sourceRefresh p => sourceRefresh { p with version := .number 3 }
  | p => p

/-- `_normalize_payload`; `none` is a `ValidationError`. -/
def normalize (p : JobPayload) : Option JobPayload :=
  if p.kind = .sourceRefresh ∧ p.normalized.validate = true then some p.normalized else none

end JobPayload

/-! ## The audit -/

inductive RefreshAction where
  | blocked | deferRebuild | rebuild | regroup | upgrade | preserve
  deriving DecidableEq

structure RefreshQueueRecord where
  jobId : Nat
  source : String
  sourceId : String
  payloadVersion : Int
  action : RefreshAction
  reason : String
  deriving DecidableEq

namespace WorkJob

/-- The version is one that the reconciler can read. -/
def compatible (j : WorkJob) : Bool := compatibleRefreshVersions.contains j.payload.version.read

/-- The `action` and the `reason` of a row. -/
def refreshAction (j : WorkJob) : RefreshAction × String :=
  let version := j.payload.version.read
  if j.payload.normalize = none then
    (.blocked, "payload lacks fields required for a lossless rebuild")
  else if j.compatible = false then
    (if j.status = .leased then .deferRebuild else .rebuild,
      "payload version " ++ toString version ++ " is not supported")
  else if j.workflowKey = "" ∨ j.groupKey = "" then
    (.regroup, "compatible payload is missing durable workflow metadata")
  else if version < 3 then
    (.upgrade, "compatible v" ++ toString version ++ " payload can be normalized in place")
  else (.preserve, "payload and workflow metadata are compatible")

def refreshRecord (j : WorkJob) : RefreshQueueRecord :=
  { jobId := j.id
    source := j.source
    sourceId := j.payload.sourceId
    payloadVersion := j.payload.version.read
    action := j.refreshAction.1
    reason := j.refreshAction.2 }

def activeRefresh (j : WorkJob) : Bool := j.kind == .sourceRefresh && j.status.isActive

/-- `job.workflow_key or f"pull:{job.source}:legacy"`. -/
def durableWorkflow (j : WorkJob) : String :=
  if j.workflowKey = "" then "pull:" ++ j.source ++ ":legacy" else j.workflowKey

end WorkJob

/-! ## The repair -/

/-- The keyword arguments of the rebuild. -/
def rebuildArgs (j : WorkJob) (normalized : JobPayload) : EnqueueArgs where
  kind := .sourceRefresh
  dedupeKey := "refresh:" ++ j.source ++ ":" ++ normalized.sourceId
  payload := normalized
  priority := j.priority
  maxAttempts := j.maxAttempts
  source := j.source
  workflowKey := j.durableWorkflow
  groupKey := j.durableWorkflow
  coalesce := true

/-- `job.pending_payload = normalized`. -/
def WorkJob.deferred (j : WorkJob) (normalized : JobPayload) : WorkJob :=
  { j with pendingPayload := some normalized }

/-- The last branch of `apply`. -/
def WorkJob.upgraded (j : WorkJob) (normalized : JobPayload) : WorkJob :=
  { j with payload := normalized, workflowKey := j.durableWorkflow, groupKey := j.durableWorkflow }

namespace Queue

variable (s : Queue)

/-- The rows of the audit. -/
def activeRefreshes : List WorkJob :=
  (s.jobs.filter (·.activeRefresh)).insertionSort (·.id ≤ ·.id)

/-- `audit`, when no row is locked by another transaction. -/
def auditRefresh : List RefreshQueueRecord := s.activeRefreshes.map (·.refreshRecord)

/-- The loop body of `apply`. -/
def applyRecord (r : RefreshQueueRecord) (now : Time) : Except QueueError Queue :=
  if r.action = .preserve ∨ r.action = .blocked then .ok s
  else match s.selectActive r.jobId with
    | none => .ok s
    | some j =>
      match j.payload.normalize with
      | none => .error .invalidPayload
      | some normalized =>
        match r.action with
        | .deferRebuild => .ok (s.putJob (j.deferred normalized))
        | .rebuild =>
          ((s.cancel j.id "incompatible refresh payload replaced by current schema" now).1.enqueue
            (rebuildArgs j normalized) now).map (·.1)
        | _ => .ok (s.putJob (j.upgraded normalized))

/-- `apply`. -/
def applyRecords (now : Time) : List RefreshQueueRecord → Queue → Except QueueError Queue
  | [], s => .ok s
  | r :: records, s =>
    match s.applyRecord r now with
    | .error e => .error e
    | .ok s' => applyRecords now records s'

def refreshPass (now : Time) : Except QueueError Queue := applyRecords now s.auditRefresh s

end Queue

end MangaManager
