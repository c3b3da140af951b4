import MangaManager.Downloads.Reroute

/-!
# The tables of the catalog

The rows the download plans, the chapter handler and the merges read and write,
besides those of `Downloads`. `Catalog` holds them with the queue;
`Catalog.downloads` is the part of it that `Downloads` describes.
-/

namespace MangaManager

open Lib

/-- A row of `source_series_v2`; `metadata` is the text of the JSON object. -/
structure CatalogSourceSeries where
  id : Nat
  seriesId : Nat
  source : String
  sourceId : String
  title : String
  url : String
  description : String := ""
  coverUrl : String := ""
  popularity : Rat := 0
  metadata : String := "{}"
  observationVersion : String := ""
  normalizedSourceId : String := ""
  normalizedTitle : String := ""
  revisionOverride : String := ""
  deriving DecidableEq

/-- A row of `chapter_v2`. -/
structure CatalogChapter where
  id : Nat
  seriesId : Nat
  canonicalNumber : String
  sortNumber : Option Rat := none
  createdAt : Time
  displayNumber : String := ""
  title : String := ""
  deriving DecidableEq

/-- A row of `chapter_release_v2` with its provider identity. -/
structure ReleaseRow extends CatalogChapterRelease where
  sourceSeriesId : Nat
  sourceReleaseId : String
  title : String := ""
  url : String := ""
  publishedAt : Option Time := none
  firstSeenAt : Time := 0
  deriving DecidableEq

/-- A row of `artifact_blob`. -/
structure ArtifactBlob where
  checksum : String
  relativePath : String
  byteCount : Nat
  deriving DecidableEq

inductive ArtifactState where
  | active
  | inactive
  | quarantined
  deriving DecidableEq, Repr

/-- A row of `chapter_artifact`; a null rank is `0`. -/
structure ChapterArtifact where
  id : Nat
  chapterId : Nat
  chapterReleaseId : Option Nat
  blobChecksum : String
  state : ArtifactState := .active
  provenance : String := "download"
  source : String := ""
  qualityRank : Int := 0
  imageCount : Nat := 0
  deactivatedAt : Option Time := none
  deriving DecidableEq

/-- A row of `library_projection`. -/
structure LibraryProjection where
  chapterId : Nat
  artifactId : Nat
  relativePath : String
  updatedAt : Time
  deriving DecidableEq

inductive PlanStatus where
  | active
  | complete
  | cancelled
  deriving DecidableEq, Repr

inductive PlanPhase where
  | priority
  | backfill
  | complete
  | cancelled
  deriving DecidableEq, Repr

/-- A row of `series_download_plan`. -/
structure SeriesDownloadPlan where
  seriesId : Nat
  status : PlanStatus := .active
  phase : PlanPhase := .priority
  totalChapters : Nat := 0
  satisfiedChapters : Nat := 0
  attentionChapters : Nat := 0
  createdAt : Time
  updatedAt : Time
  deriving DecidableEq

inductive IntentTier where
  | current
  | priority
  | backfill
  deriving DecidableEq, Repr

/-- A row of `chapter_download_intent` with its place in the plan. -/
structure IntentRow extends ChapterDownloadIntent where
  seriesId : Nat
  tier : IntentTier
  deriving DecidableEq

/-- The tables, with the next values of the id sequences. -/
structure Catalog where
  queue : Queue := {}
  identities : List CatalogSourceSeries := []
  chapters : List CatalogChapter := []
  releases : List ReleaseRow := []
  attempts : List ChapterReleaseAttempt := []
  blobs : List ArtifactBlob := []
  artifacts : List ChapterArtifact := []
  projections : List LibraryProjection := []
  plans : List SeriesDownloadPlan := []
  intents : List IntentRow := []
  nextArtifact : Nat := 1
  nextIntent : Nat := 1
  deriving DecidableEq

namespace Catalog

variable (c : Catalog)

def plan? (seriesId : Nat) : Option SeriesDownloadPlan :=
  Table.get SeriesDownloadPlan.seriesId c.plans seriesId

def putPlan (plan : SeriesDownloadPlan) : Catalog :=
  { c with plans := Table.put SeriesDownloadPlan.seriesId c.plans plan }

def putIntent (i : IntentRow) : Catalog :=
  { c with intents := Table.put (fun i : IntentRow => i.id) c.intents i }

/-- The intents of the plan of a series. -/
def intentsOf (seriesId : Nat) : List IntentRow := c.intents.filter (·.seriesId == seriesId)

def activeArtifact (chapterId : Nat) : Option ChapterArtifact :=
  c.artifacts.find? fun a => a.chapterId == chapterId && a.state == .active

/-- `_has_active_artifact`. -/
def hasActiveArtifact (chapterId : Nat) : Bool :=
  c.artifacts.any fun a => a.chapterId == chapterId && a.state == .active

/-! ## The tables of `Downloads` -/

def downloads : Downloads :=
  { queue := c.queue, attempts := c.attempts
    releases := c.releases.map (·.toCatalogChapterRelease)
    intents := c.intents.map (·.toChapterDownloadIntent) }

/-- The rows as a function on `Downloads` left them. -/
def withDownloads (d : Downloads) : Catalog :=
  { c with
    queue := d.queue, attempts := d.attempts
    releases := c.releases.map fun r =>
      { r with toCatalogChapterRelease := (d.release? r.id).getD r.toCatalogChapterRelease }
    intents := c.intents.map fun i =>
      { i with
        toChapterDownloadIntent :=
          (Table.get ChapterDownloadIntent.id d.intents i.id).getD i.toChapterDownloadIntent } }

end Catalog

end MangaManager
