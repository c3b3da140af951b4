import Mathlib.Data.Finset.Card
import MangaManager.Catalog.Tables

/-!
# The tables of the series

The rows of the canonical series and of what hangs on them, besides those of
`Catalog`. A column that no merge and no ingest reads or writes is left out.
-/

namespace MangaManager

open Lib

inductive SeriesStatus where
  | untracked
  | paused
  | caughtUp
  | interested
  | reading
  deriving DecidableEq, Repr

/-- `TRACKED_STATES`. -/
def SeriesStatus.isTracked : SeriesStatus → Bool
  | interested | reading | caughtUp | paused => true
  | untracked => false

inductive IntegrityState where
  | unknown
  | healthy
  | attention
  | quarantined
  deriving DecidableEq, Repr

/-- `provider_names()`. -/
def providerNames : List String := ["asura", "mangadex", "mangafire", "kingofshojo"]

/-- A row of `series_v2`. -/
structure CatalogSeries where
  id : Nat
  storageKey : String
  description : String := ""
  coverUrl : String := ""
  status : SeriesStatus := .untracked
  integrityState : IntegrityState := .unknown
  latestReleaseAt : Option Time := none
  latestReleaseNumber : String := ""
  latestReleaseSource : String := ""
  title : String := ""
  normalizedTitle : String := ""
  kavitaSeriesId : Option Nat := none
  kavitaLibraryId : Option Nat := none
  kavitaSyncedAt : Option Time := none
  kavitaCoverChecksum : String := ""
  deriving DecidableEq

/-- `evidence_json` of a listing that a merge retired. -/
structure ListingEvidence where
  chapterOverlap : Nat
  comparedChapters : Nat
  deriving DecidableEq

/-- A row of `alternate_source_listing_v2`. -/
structure CatalogAlternateSourceListing where
  id : Nat
  primarySourceSeriesId : Nat
  source : String
  sourceId : String
  title : String
  url : String
  evidence : Option ListingEvidence := none
  deriving DecidableEq

/-- A row of `series_alias_v2`. -/
structure CatalogSeriesAlias where
  id : Nat
  seriesId : Nat
  sourceSeriesId : Option Nat := none
  normalizedValue : String
  displayValue : String := ""
  deriving DecidableEq

/-- A row of `external_identifier_v2`. -/
structure CatalogExternalIdentifier where
  id : Nat
  seriesId : Nat
  sourceSeriesId : Nat
  provider : String
  value : String
  deriving DecidableEq

/-- The three tables of covers. -/
inductive CoverKind where
  | asset
  | signature
  | fingerprint (algorithm : String)
  deriving DecidableEq

/-- A row of `cover_asset_v2`, `cover_signature_v2` or `cover_fingerprint_v2`. -/
structure CoverRow where
  sourceSeriesId : Nat
  kind : CoverKind
  deriving DecidableEq

inductive MatchAction where
  | accepted
  | rejected
  deriving DecidableEq, Repr

inductive Decision where
  | pending
  | decided (action : MatchAction)
  deriving DecidableEq, Repr

/-- A row of `match_decision_v2`. -/
structure CatalogMatchDecision where
  id : Nat
  leftSourceSeriesId : Nat
  rightSourceSeriesId : Nat
  decision : Decision := .pending
  confidence : Rat := 0
  deriving DecidableEq

inductive ReadingStatus where
  | unread
  | reading
  | read
  deriving DecidableEq, Repr

/-- `rank` of the merge. -/
def ReadingStatus.rank : ReadingStatus → Nat
  | unread => 0
  | reading => 1
  | read => 2

/-- A row of `chapter_reading_state_v2`. -/
structure CatalogChapterReadingState where
  chapterId : Nat
  status : ReadingStatus := .unread
  readAt : Option Time := none
  deriving DecidableEq

/-- A row of `kavita_projection`. -/
structure KavitaProjection where
  chapterId : Nat
  artifactId : Nat
  relativePath : String
  deriving DecidableEq

/-- The catalog with the tables of the series. -/
structure Collection extends Catalog where
  series : List CatalogSeries := []
  alternates : List CatalogAlternateSourceListing := []
  aliases : List CatalogSeriesAlias := []
  identifiers : List CatalogExternalIdentifier := []
  covers : List CoverRow := []
  decisions : List CatalogMatchDecision := []
  readingStates : List CatalogChapterReadingState := []
  kavitaProjections : List KavitaProjection := []
  nextAlternate : Nat := 1
  deriving DecidableEq

namespace Collection

variable (s : Collection)

def series? (id : Nat) : Option CatalogSeries := Table.get CatalogSeries.id s.series id

def identity? (id : Nat) : Option CatalogSourceSeries :=
  Table.get CatalogSourceSeries.id s.identities id

def chapter? (id : Nat) : Option CatalogChapter := Table.get CatalogChapter.id s.chapters id

/-- The number of a chapter. -/
def numberOf (chapterId : Nat) : Option String := (s.chapter? chapterId).map (·.canonicalNumber)

/-- The identities of a series, by id. -/
def identitiesOf (seriesId : Nat) : List CatalogSourceSeries :=
  (s.identities.filter (·.seriesId == seriesId)).insertionSort (·.id ≤ ·.id)

/-- The numbers of the chapters a provider identity has a release of. -/
def numbers (identityId : Nat) : Finset String :=
  ((s.releases.filter (·.sourceSeriesId == identityId)).filterMap fun r =>
    (s.chapter? r.chapterId).map (·.canonicalNumber)).toFinset

/-- `_chapter_overlap`. -/
def chapterOverlap (left right : Nat) : Nat × Nat :=
  ((s.numbers left ∩ s.numbers right).card, min (s.numbers left).card (s.numbers right).card)

end Collection

end MangaManager
