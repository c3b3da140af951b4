import MangaManager.Portable.State

/-!
# Exporting the portable state

`export_portable_state`: the series that are tracked, have a downloaded chapter, were
merged, or have an identity of a rejected match, with what the snapshot keeps of
them. The order of texts is the one of Lean, where the database has its collation.
-/

namespace MangaManager

open Lib

/-- The tables of an installation. -/
structure Installation extends Shelf where
  sourceStates : List CatalogSourceState := []
  deriving DecidableEq

namespace Installation

variable (t : PortableText) (s : Installation)

def rejectedDecisions : List CatalogMatchDecision :=
  s.decisions.filter (·.decision == .decided .rejected)

/-- A chapter of the series has an active artifact. -/
def isDownloaded (seriesId : Nat) : Bool :=
  s.chapters.any fun c => c.seriesId == seriesId && s.hasActiveArtifact c.id

/-- `_selected_series_ids`. -/
def isSelected (u : CatalogSeries) : Bool :=
  u.status.isTracked || s.isDownloaded u.id || decide (1 < s.identities.countP (·.seriesId == u.id)) ||
    s.identities.any fun i => i.seriesId == u.id && s.rejectedDecisions.any fun d =>
      d.leftSourceSeriesId == i.id || d.rightSourceSeriesId == i.id

/-- The identities of a series, by source and id there. -/
def sourceRows (seriesId : Nat) : List CatalogSourceSeries :=
  (s.identities.filter (·.seriesId == seriesId)).insertionSort fun i j =>
    i.source < j.source ∨ (i.source = j.source ∧ i.sourceId ≤ j.sourceId)

/-- The series of the snapshot. -/
def exportedRows : List CatalogSeries :=
  ((s.series.filter fun u => s.isSelected u).insertionSort fun u v =>
    u.normalizedTitle < v.normalizedTitle ∨
      (u.normalizedTitle = v.normalizedTitle ∧ u.id ≤ v.id)).filter fun u =>
    !(s.sourceRows u.id).isEmpty

/-- The values of the aliases of an identity; of the series itself, when there is none. -/
def exportAliases (p : CatalogSeriesAlias → Bool) : List String :=
  ((s.aliases.filter p).insertionSort (·.normalizedValue ≤ ·.normalizedValue)).map (·.displayValue)

def exportSource (u : CatalogSeries) (i : CatalogSourceSeries) : PortableSource where
  source := i.source
  sourceId := i.sourceId
  title := orText i.title u.title
  url := i.url
  description := i.description
  revisionOverride := i.revisionOverride
  aliases := s.exportAliases (·.sourceSeriesId == some i.id)
  externalIds := ((s.identifiers.filter (·.sourceSeriesId == i.id)).insertionSort
    (·.provider ≤ ·.provider)).map fun e => (e.provider, e.value)
  alternates := ((s.alternates.filter (·.primarySourceSeriesId == i.id)).insertionSort
    (·.sourceId ≤ ·.sourceId)).map fun a => ⟨a.sourceId, a.title, a.url⟩

/-- The order by `sort_number`, where null is last, and `canonical_number`. -/
def chapterBefore (c d : CatalogChapter) : Bool :=
  match c.sortNumber, d.sortNumber with
  | some m, some n => m < n || (m == n && decide (c.canonicalNumber ≤ d.canonicalNumber))
  | some _, none => true
  | none, some _ => false
  | none, none => decide (c.canonicalNumber ≤ d.canonicalNumber)

/-- The reading states that say something, by chapter. -/
def exportReading (seriesId : Nat) : List PortableReadingState :=
  let rows := s.readingStates.filterMap fun r =>
    ((s.chapter? r.chapterId).filter (·.seriesId == seriesId)).map fun c => (c, r)
  let sorted := rows.insertionSort fun x y => chapterBefore x.1 y.1
  (sorted.filter fun x => x.2.status != .unread || x.2.readAt.isSome).map fun x =>
    ⟨x.1.canonicalNumber, x.2.status, x.2.readAt⟩

def exportSeries (u : CatalogSeries) : PortableSeries where
  title := u.title
  status := if s.isDownloaded u.id ∧ u.status = .untracked then .interested else u.status
  downloadedOnExport := s.isDownloaded u.id
  description := u.description
  aliases := s.exportAliases fun a => a.seriesId == u.id && a.sourceSeriesId == none
  sources := (s.sourceRows u.id).map (s.exportSource u)
  reading := s.exportReading u.id

/-- The ids of the identities of the snapshot. -/
def exportedIdentities : List Nat := s.exportedRows.flatMap fun u => (s.sourceRows u.id).map (·.id)

def exportSeparations : List PortableSeparation :=
  let rows := (s.rejectedDecisions.filter fun d =>
    decide (d.leftSourceSeriesId ∈ s.exportedIdentities) &&
      decide (d.rightSourceSeriesId ∈ s.exportedIdentities)).insertionSort (·.id ≤ ·.id)
  rows.filterMap fun d =>
    match s.identity? d.leftSourceSeriesId, s.identity? d.rightSourceSeriesId with
    | some left, some right => some ⟨⟨left.source, left.sourceId⟩, ⟨right.source, right.sourceId⟩⟩
    | _, _ => none

/-- The values that `export_portable_state` puts into the models. -/
def exported : PortableState where
  series := s.exportedRows.map s.exportSeries
  separations := s.exportSeparations
  providers := (s.sourceStates.insertionSort (·.source ≤ ·.source)).map fun p =>
    ⟨p.source, p.manualEnabled⟩

/-- `export_portable_state`. -/
def exportPortableState : Except PortableError (Snapshot t) :=
  if h : s.exported.validate t = true then .ok ⟨s.exported, h⟩ else .error .validation

end Installation

end MangaManager
