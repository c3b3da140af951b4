import Mathlib.Data.List.Sort
import MangaManager.Queue.Machine

/-!
# Moving a chapter download to another provider

`DownloadPlanCoordinator.fallback_release` and `reroute`, and
`ChapterDownloadHandler._reroute`, which a worker calls when the provider of its
chapter failed. `Downloads` holds the tables they write besides the queue's.
-/

namespace MangaManager

open Lib

/-- A row of `chapter_release_v2`, as far as the plans read it; a null rank is `0`. -/
structure CatalogChapterRelease where
  id : Nat
  id_pos : 0 < id
  chapterId : Nat
  source : String
  downloadableAfter : Option Time := none
  qualityRank : Int := 0
  deriving DecidableEq

inductive AttemptOutcome where
  | failed
  | fallbackQueued
  | fallbackSucceeded
  | succeeded
  | upgraded
  deriving DecidableEq, Repr

/-- `details_json` of an attempt. -/
inductive AttemptDetails where
  | noFallback
  | fallback (releaseId : Nat)
  | replaces (failedReleaseId : Nat) (failedSource : String)
  | bypasses (releaseId : Nat) (source : String)
  | artifact (artifactId : Nat)
  deriving DecidableEq

/-- A row of `chapter_release_attempt`. -/
structure ChapterReleaseAttempt where
  chapterId : Nat
  chapterReleaseId : Nat
  jobId : Nat
  source : String
  outcome : AttemptOutcome
  errorCode : String := ""
  errorMessage : String := ""
  retryAfter : Option Time := none
  details : AttemptDetails
  deriving DecidableEq

inductive IntentState where
  | blocked
  | pending
  | queued
  | satisfied
  | attention
  | cancelled
  deriving DecidableEq, Repr

/-- A row of `chapter_download_intent`. -/
structure ChapterDownloadIntent where
  id : Nat
  chapterId : Nat
  state : IntentState
  jobId : Option Nat
  updatedAt : Time
  deriving DecidableEq

structure Downloads where
  queue : Queue := {}
  releases : List CatalogChapterRelease := []
  attempts : List ChapterReleaseAttempt := []
  intents : List ChapterDownloadIntent := []
  deriving DecidableEq

/-- What a worker knows of the release it downloads. -/
structure DownloadSnapshot where
  releaseId : Nat
  chapterId : Nat
  source : String
  deriving DecidableEq

inductive RerouteError where
  | queue (e : QueueError)
  | invalidPayload
  | leaseLost
  deriving DecidableEq, Repr

/-- The text of the exception. -/
def RerouteError.message : RerouteError → String
  | queue e => e.message
  | invalidPayload => "validation error"
  | leaseLost => "chapter lease was lost while rerouting"

/-! ## `DownloadPlanCoordinator` -/

/-- `SOURCE_PRIORITY` of the providers. -/
def providerPriority : List String := ["asura", "mangadex", "mangafire", "kingofshojo"]

/-- `SOURCE_PRIORITY.get(source, 0)` of the plans. -/
def sourcePriority (source : String) : Nat :=
  ((providerPriority.findIdx? (· == source)).map (providerPriority.length - ·)).getD 0

/-- Provider preference, then quality within the provider, then id. -/
def ReleaseRank := Nat ×ₗ Int ×ₗ Nat

-- spelled out, since the instances found for `Int` need not be computable
instance : LinearOrder ReleaseRank :=
  @Prod.Lex.instLinearOrder Nat _ Nat.instLinearOrder
    (@Prod.Lex.instLinearOrder Int Nat Int.instLinearOrder Nat.instLinearOrder)

/-- `_release_preference`. -/
def releasePreference (r : CatalogChapterRelease) : ReleaseRank :=
  toLex (sourcePriority r.source, toLex (r.qualityRank, r.id))

/-- `fallback_release`. -/
def fallbackRelease (releases : List CatalogChapterRelease) (chapterId failedId : Nat)
    (excluded : List String) (now : Time) : Option CatalogChapterRelease :=
  (releases.filter fun r => r.chapterId == chapterId && r.id != failedId && (r.source ∉ excluded) &&
    r.downloadableAfter.all (· ≤ now)).argmax releasePreference

namespace Downloads

def release? (d : Downloads) (id : Nat) : Option CatalogChapterRelease :=
  Table.get CatalogChapterRelease.id d.releases id

/-- `release.downloadable_after = t`. -/
def postpone (d : Downloads) (r : CatalogChapterRelease) (t : Option Time) : Downloads :=
  { d with
    releases := Table.put CatalogChapterRelease.id d.releases { r with downloadableAfter := t } }

def addAttempt (d : Downloads) (a : ChapterReleaseAttempt) : Downloads :=
  { d with attempts := d.attempts ++ [a] }

/-- The intent of the chapter waits for the job again. -/
def requeueIntent (d : Downloads) (chapterId jobId : Nat) (now : Time) : Downloads :=
  match d.intents.find? fun i => i.chapterId == chapterId with
  | none => d
  | some i =>
    { d with
      intents := Table.put ChapterDownloadIntent.id d.intents
        { i with jobId := some jobId, state := .queued, updatedAt := now } }

/-- The payload `reroute` puts in place of `current`. -/
def replacement (current : ChapterDownloadPayload)
    (failed alternative : CatalogChapterRelease) : JobPayload :=
  .chapterDownload
    { chapterReleaseId := alternative.id
      attemptedSources := (current.attemptedSources ++ [failed.source]).eraseDups
      preferredOnly := current.preferredOnly }

/-- `DownloadPlanCoordinator.reroute`. -/
def reroute (d : Downloads) (job : WorkJob) (current : ChapterDownloadPayload)
    (failed alternative : CatalogChapterRelease) (code message : String)
    (retryAfter : Option Time) (now : Time) : Except RerouteError Downloads :=
  match d.queue.reroute job.id job.leaseOwner (replacement current failed alternative)
      alternative.source now ("rerouted to " ++ alternative.source ++ ": " ++ code) now with
  | .error e => .error (.queue e)
  | .ok (_, false) => .error .leaseLost
  | .ok (queue, true) =>
    let d := d.postpone failed retryAfter
    let d := d.addAttempt
      { chapterId := failed.chapterId, chapterReleaseId := failed.id, jobId := job.id
        source := failed.source, outcome := .failed, errorCode := code
        errorMessage := truncate 4000 message, retryAfter := retryAfter
        details := .fallback alternative.id }
    let d := { d with queue := queue }.requeueIntent failed.chapterId job.id now
    .ok (d.addAttempt
      { chapterId := alternative.chapterId, chapterReleaseId := alternative.id, jobId := job.id
        source := alternative.source, outcome := .fallbackQueued
        details := .replaces failed.id failed.source })

/-! ## `ChapterDownloadHandler` -/

/-- `set(payload.attempted_sources) | {snapshot.source}`. -/
def attempted (payload : ChapterDownloadPayload) (source : String) : List String :=
  (payload.attemptedSources ++ [source]).eraseDups

/-- `job.payload = payload.model_copy(update={"attempted_sources": sources})`. -/
def withAttempted (job : WorkJob) (payload : ChapterDownloadPayload) (sources : List String) :
    WorkJob :=
  { job with payload := .chapterDownload { payload with attemptedSources := sources } }

/-- The sources tried are noted in the payload, for lack of a fallback. -/
def noteAttempted (d : Downloads) (job : WorkJob) (release : CatalogChapterRelease)
    (payload : ChapterDownloadPayload) (snapshot : DownloadSnapshot) (code message : String)
    (retryAt : Time) : Downloads :=
  let sources := (attempted payload snapshot.source).insertionSort (· ≤ ·)
  { d.postpone release (some retryAt) with
    queue := d.queue.putJob (withAttempted job payload sources) }.addAttempt
    { chapterId := snapshot.chapterId, chapterReleaseId := snapshot.releaseId, jobId := job.id
      source := snapshot.source, outcome := .failed, errorCode := code
      errorMessage := truncate 4000 message, retryAfter := some retryAt, details := .noFallback }

/-- `_reroute` once it found the job leased. -/
def leasedReroute (d : Downloads) (job : WorkJob) (release : CatalogChapterRelease)
    (payload : ChapterDownloadPayload) (snapshot : DownloadSnapshot) (code message : String)
    (retryAt now : Time) : Except RerouteError (Downloads × Bool) :=
  if payload.preferredOnly then .ok (d.postpone release (some retryAt), false)
  else match fallbackRelease d.releases snapshot.chapterId snapshot.releaseId
      (attempted payload snapshot.source) now with
    | none => .ok (d.noteAttempted job release payload snapshot code message retryAt, false)
    | some alternative =>
      (d.reroute job payload release alternative code message (some retryAt) now).map (·, true)

/-- `ChapterDownloadHandler._reroute`; `jobId` is the id in the worker's lease. -/
def handlerReroute (d : Downloads) (jobId : Nat) (snapshot : DownloadSnapshot)
    (code message : String) (retryAt now : Time) : Except RerouteError (Downloads × Bool) :=
  match d.queue.job? jobId, d.release? snapshot.releaseId with
  | some job, some release =>
    if job.status ≠ .leased then .ok (d, false)
    else match parseJobPayload .chapterDownload job.payload with
      | some (.chapterDownload payload) =>
        d.leasedReroute job release payload snapshot code message retryAt now
      | _ => .error .invalidPayload
  | _, _ => .ok (d, false)

end Downloads

end MangaManager
