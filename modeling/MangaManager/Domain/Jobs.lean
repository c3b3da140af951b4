import MangaManager.Lib.Text

/-!
# Jobs of the domain

`JobKind`, `JobState` and the payload models of `manga_manager/domain/jobs.py`. A JSON
object stored in a payload column is the value of its pydantic model; the empty
object is the absence of a payload. `JobPayload.validate` collects the field
constraints, `parseJobPayload` is `parse_job_payload`.
-/

namespace MangaManager

open Lib

/-- Microseconds since the epoch; a `timedelta` is the same unit. -/
abbrev Time := Int

inductive JobKind where
  | sourcePull
  | sourceRefresh
  | chapterDownload
  | kavitaSync
  | libraryRepair
  | coverBackfill
  | maintenance
  | notification
  | matchOperation
  deriving DecidableEq, Repr

/-- The string value of the enumeration member. -/
def JobKind.value : JobKind → String
  | sourcePull => "source_pull"
  | sourceRefresh => "source_refresh"
  | chapterDownload => "chapter_download"
  | kavitaSync => "kavita_sync"
  | libraryRepair => "library_repair"
  | coverBackfill => "cover_backfill"
  | maintenance => "maintenance"
  | notification => "notification"
  | matchOperation => "match_operation"

inductive JobState where
  | queued
  | leased
  | retryWait
  | succeeded
  | failed
  | cancelled
  deriving DecidableEq, Repr

/-- Membership in `ACTIVE_JOB_STATES`. -/
def JobState.isActive : JobState → Bool
  | queued | leased | retryWait => true
  | succeeded | failed | cancelled => false

/-- Waiting to be claimed: `queued` or `retry_wait`. -/
def JobState.isWaiting : JobState → Bool
  | queued | retryWait => true
  | _ => false

/-! ## Payloads -/

structure SourcePullPayload where
  version : Nat := 1
  source : String
  workflowKey : String := ""
  deriving DecidableEq

/-- The value under the `version` key of a stored JSON object: rows that another version wrote may
have any. `other` is a list or an object. -/
inductive PayloadVersion where
  | absent
  | number (n : Int)
  | text (t : String)
  | other
  deriving DecidableEq

/-- `Field(ge=1)`, of an integer. -/
def PayloadVersion.positive : PayloadVersion → Bool
  | number n => decide (1 ≤ n)
  | _ => false

/-- `metadata` is the canonical text of the JSON object: the queue only compares it. -/
structure SourceRefreshPayload where
  version : PayloadVersion := .number 3
  source : String
  sourceId : String
  title : String
  url : String
  aliases : List String := []
  description : String := ""
  coverUrl : String := ""
  genres : List String := []
  popularity : Rat := 0
  externalIds : List (String × String) := []
  metadata : String := "{}"
  workflowKey : String := ""
  observationVersion : String := ""
  acquisitionCritical : Bool := false
  deriving DecidableEq

structure ChapterDownloadPayload where
  version : Nat := 1
  chapterReleaseId : Nat
  attemptedSources : List String := []
  preferredOnly : Bool := false
  deriving DecidableEq

structure CoverBackfillPayload where
  version : Nat := 1
  sourceSeriesId : Nat
  deriving DecidableEq

inductive ReadingMark where
  | unset
  | read
  | unread
  deriving DecidableEq, Repr

structure KavitaSyncPayload where
  version : Nat := 1
  seriesId : Nat := 0
  seriesIds : List Nat := []
  folderPath : String := ""
  readingStatus : ReadingMark := .unset
  deriving DecidableEq

structure LibraryRepairPayload where
  version : Nat := 1
  seriesId : Nat
  reason : String := "metadata"
  obsoleteStorageKeys : List String := []
  deriving DecidableEq

structure MaintenancePayload where
  version : Nat := 1
  action : String
  seriesId : Nat := 0
  deriving DecidableEq

structure NotificationPayload where
  version : Nat := 1
  activityEventId : Nat
  deriving DecidableEq

structure MatchOperationPayload where
  version : Nat := 1
  operationId : Nat
  deriving DecidableEq

/-- A member of `JOB_PAYLOAD_TYPES`. -/
inductive JobPayload where
  | sourcePull (p : SourcePullPayload)
  | sourceRefresh (p : SourceRefreshPayload)
  | chapterDownload (p : ChapterDownloadPayload)
  | kavitaSync (p : KavitaSyncPayload)
  | libraryRepair (p : LibraryRepairPayload)
  | coverBackfill (p : CoverBackfillPayload)
  | maintenance (p : MaintenancePayload)
  | notification (p : NotificationPayload)
  | matchOperation (p : MatchOperationPayload)
  deriving DecidableEq

namespace JobPayload

/-- The kind whose payload type this is. -/
def kind : JobPayload → JobKind
  | sourcePull _ => .sourcePull
  | sourceRefresh _ => .sourceRefresh
  | chapterDownload _ => .chapterDownload
  | kavitaSync _ => .kavitaSync
  | libraryRepair _ => .libraryRepair
  | coverBackfill _ => .coverBackfill
  | maintenance _ => .maintenance
  | notification _ => .notification
  | matchOperation _ => .matchOperation

/-- `Field(min_length=lo, max_length=hi)`. -/
def lengthIn (lo hi : Nat) (s : String) : Bool := lo ≤ s.length && s.length ≤ hi

/-- `pattern=r"^[a-z0-9_-]+$"`. -/
def isSlug (s : String) : Bool :=
  !s.toList.isEmpty && s.toList.all fun c => c.isLower || c.isDigit || c == '_' || c == '-'

/-- The field constraints and the model validators. -/
def validate : JobPayload → Bool
  | sourcePull p =>
    1 ≤ p.version && lengthIn 1 50 p.source && isSlug p.source && lengthIn 0 100 p.workflowKey
  | sourceRefresh p =>
    p.version.positive && lengthIn 1 50 p.source && isSlug p.source && lengthIn 1 500 p.sourceId &&
      lengthIn 1 500 p.title && lengthIn 1 4096 p.url && lengthIn 0 100 p.workflowKey &&
      lengthIn 0 100 p.observationVersion
  | chapterDownload p => 1 ≤ p.version && 0 < p.chapterReleaseId
  | kavitaSync p =>
    1 ≤ p.version && p.seriesIds.length ≤ 100 && lengthIn 0 4096 p.folderPath &&
      (0 < p.seriesId || !p.seriesIds.isEmpty) && p.seriesIds.all (0 < ·) &&
      (p.seriesIds.isEmpty || (p.folderPath == "" && p.readingStatus == .unset))
  | libraryRepair p => 1 ≤ p.version && 0 < p.seriesId && lengthIn 1 100 p.reason
  | coverBackfill p => 1 ≤ p.version && 0 < p.sourceSeriesId
  | maintenance p => 1 ≤ p.version && lengthIn 1 100 p.action && isSlug p.action
  | notification p => 1 ≤ p.version && 0 < p.activityEventId
  | matchOperation p => 1 ≤ p.version && 0 < p.operationId

/-- `payload.get("acquisition_critical")`, falsy when absent. -/
def acquisitionCritical : JobPayload → Bool
  | sourceRefresh p => p.acquisitionCritical
  | _ => false

/-- `payload.get("observation_version") or ""`. -/
def observationVersion : JobPayload → String
  | sourceRefresh p => p.observationVersion
  | _ => ""

/-- `payload.get("series_ids") or []`. -/
def seriesIds : JobPayload → List Nat
  | kavitaSync p => p.seriesIds
  | _ => []

/-- `payload["series_ids"] = ids`. -/
def withSeriesIds (ids : List Nat) : JobPayload → JobPayload
  | kavitaSync p => kavitaSync { p with seriesIds := ids }
  | p => p

/-- `getattr(payload, "workflow_key", "")`. -/
def workflowKey : JobPayload → String
  | sourcePull p => p.workflowKey
  | sourceRefresh p => p.workflowKey
  | _ => ""

/-- `payload.source` of the two catalog kinds. -/
def source? : JobPayload → Option String
  | sourcePull p => some p.source
  | sourceRefresh p => some p.source
  | _ => none

@[simp] theorem kind_withSeriesIds (ids : List Nat) (p : JobPayload) :
    (p.withSeriesIds ids).kind = p.kind := by
  cases p <;> rfl

end JobPayload

/-- `parse_job_payload`; `none` is a `ValidationError`. A payload of another kind never
validates: every model forbids extra fields and requires one of its own. -/
def parseJobPayload (kind : JobKind) (payload : JobPayload) : Option JobPayload :=
  if payload.kind = kind ∧ payload.validate = true then some payload else none

theorem parseJobPayload_eq_some {kind : JobKind} {p q : JobPayload} :
    parseJobPayload kind p = some q ↔ p = q ∧ p.kind = kind ∧ p.validate = true := by
  unfold parseJobPayload
  constructor
  · intro h
    split at h
    · rename_i hv
      exact ⟨Option.some.inj h, hv⟩
    · cases h
  · rintro ⟨rfl, hv⟩
    rw [if_pos hv]

end MangaManager
