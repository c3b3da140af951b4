import MangaManager.Catalog.Planned
import MangaManager.Library.Repair
import MangaManager.Portable.Export

/-!
# Recovering the tracked series of an older database

`manga_manager/application/catalog_recovery.py`: the import tool reads from an older database the
titles that have downloaded chapters, finds each of them in the catalog or does not, and tracks it
again. `recoveryRecords` is the first transaction of `run` and `applyRecovery` the second one. The
observation that a recreated title leaves is not modelled.
-/

namespace MangaManager

open Lib

/-- A row of `_legacy_rows`, with the identities its active files were downloaded from. -/
structure LegacyRow where
  id : Nat
  title : String
  status : String := "interested"
  identities : List (String × String)
  deriving DecidableEq

inductive RecoveryAction where
  | track
  | verified
  | reviewMerge
  | createTrack
  deriving DecidableEq, Repr

structure RecoveryRecord where
  legacyId : Nat
  title : String
  legacyStatus : String
  action : RecoveryAction
  seriesIds : List Nat := []
  evidence : String := ""
  deriving DecidableEq

inductive RecoveryError where
  /-- A `KeyError` or an `IndexError`. -/
  | lookup
  | integrity
  | queue (e : QueueError)
  deriving DecidableEq

/-- The session of `_apply`; `pairs` are the review pairs that were added since the last flush. -/
structure Recovering where
  tables : Installation
  pairs : List (Nat × Nat) := []
  refreshSources : List String := []
  recoveredSeriesIds : List Nat := []

namespace Installation

variable (t : CatalogText) (s : Installation)

/-! ## What is to be done -/

/-- `_matches`. -/
def recoveryMatches (row : LegacyRow) : List CatalogSeries × String :=
  let ids := row.identities.filterMap fun (source, sourceId) =>
    (s.identities.find? fun i => i.source == source && i.sourceId == sourceId).map (·.seriesId)
  if ids ≠ [] then (s.series.filter (·.id ∈ ids), "provider_identity")
  else
    let found := s.series.filter (·.normalizedTitle == t.normalizeTitle row.title)
    (found, if found ≠ [] then "normalized_title" else "no_current_identity")

/-- `_needs_tracking_or_repair`. -/
def needsTrackingOrRepair (u : CatalogSeries) : Bool :=
  if !u.status.isTracked then true
  else
    let inSeries (chapterId : Nat) : Bool := (s.chapter? chapterId).any (·.seriesId == u.id)
    s.artifacts.countP (fun a => a.state == .active && inSeries a.chapterId) !=
      s.kavitaProjections.countP fun p => inSeries p.chapterId

/-- The records of `run`. -/
def recoveryRecords (legacy : List LegacyRow) : List RecoveryRecord :=
  legacy.map fun row =>
    let (found, evidence) := s.recoveryMatches t row
    let action := match found with
      | [] => .createTrack
      | [u] => if s.needsTrackingOrRepair u then .track else .verified
      | _ :: _ :: _ => .reviewMerge
    { legacyId := row.id, title := row.title, legacyStatus := row.status, action := action
      seriesIds := found.map (·.id), evidence := evidence }

end Installation

namespace Recovering

variable (t : CatalogText) (x : Recovering) (now : Time)

/-! ## What is done -/

/-- The pending pairs are inserted; the pair is unique in the table. -/
def flush : Except RecoveryError Recovering :=
  if ¬ x.pairs.Nodup ∨ x.tables.decisions.any (fun d =>
      decide ((d.leftSourceSeriesId, d.rightSourceSeriesId) ∈ x.pairs)) then .error .integrity
  else .ok { x with
    pairs := []
    tables := { x.tables with
      decisions := x.tables.decisions ++ x.pairs.zipIdx.map fun (pair, n) =>
        { id := x.tables.nextDecision + n, leftSourceSeriesId := pair.1
          rightSourceSeriesId := pair.2, confidence := 99 / 100 }
      nextDecision := x.tables.nextDecision + x.pairs.length } }

/-- `track`, which flushes first, and the repair of the library. -/
def restore (seriesId : Nat) : Except RecoveryError Recovering :=
  match x.flush with
  | .error e => .error e
  | .ok x => match x.tables.toCatalog.track now Catalog.rollingWindow seriesId with
    | .error e => .error (.queue e)
    | .ok c => match c.queue.enqueueLibraryRepair seriesId "legacy_recovery" 85 [] now with
      | .error e => .error (.queue e)
      | .ok (queue, _) => .ok { x with
        tables := { x.tables with toCatalog := { c with queue := queue } }
        recoveredSeriesIds := x.recoveredSeriesIds ++ [seriesId] }

/-- `"reading" if record.legacy_status == "reading" else "interested"`. -/
def restoredStatus (legacyStatus : String) : SeriesStatus :=
  if legacyStatus = "reading" then .reading else .interested

/-- A series of the catalog is tracked again. -/
def trackSeries (legacyStatus : String) (seriesId : Nat) : Except RecoveryError Recovering :=
  match x.tables.series? seriesId with
  | none => .ok x
  | some u => ({ x with
      tables := { x.tables with
        series := Table.put CatalogSeries.id x.tables.series
          { u with status := restoredStatus legacyStatus } } } : Recovering).restore now seriesId

/-- The series of a `review_merge`. -/
def reviewSeries (legacyStatus : String) (x : Recovering) (seriesId : Nat) :
    Except RecoveryError Recovering :=
  match x.tables.series? seriesId with
  | none => .ok x
  | some u =>
    if x.tables.needsTrackingOrRepair u then x.trackSeries now legacyStatus seriesId else .ok x

/-- The first two identities of different providers. -/
def reviewPair (left right : Nat) : Option (CatalogSourceSeries × CatalogSourceSeries) :=
  let identities (id : Nat) := x.tables.identities.filter (·.seriesId == id)
  ((identities left).flatMap fun l => (identities right).map fun r => (l, r)).find? fun pair =>
    pair.1.source != pair.2.source

/-- `_create_review_pairs`; the rows that were not flushed are not found. -/
def createReviewPairs : List Nat → List (Nat × Nat)
  | [] => []
  | left :: rest =>
    (rest.filterMap fun right => (x.reviewPair left right).bind fun (l, r) =>
      if x.tables.decisions.any fun d => d.leftSourceSeriesId == min l.id r.id &&
          d.rightSourceSeriesId == max l.id r.id then none
      else some (min l.id r.id, max l.id r.id)) ++ createReviewPairs rest

/-- A row for an identity of the old database, without a url; the pairs of a provider and an id, and
of a series and a provider, are unique in the table. -/
def createIdentity (title : String) (seriesId : Nat) (x : Recovering) (identity : String × String) :
    Except RecoveryError Recovering :=
  let (source, sourceId) := identity
  if source ∉ providerNames then .ok x
  else if x.tables.identities.any fun i => i.source == source &&
      (i.sourceId == sourceId || i.seriesId == seriesId) then .error .integrity
  else .ok { x with
    tables := { x.tables with
      identities := x.tables.identities ++
        [{ id := x.tables.nextIdentity, seriesId := seriesId, source := source, sourceId := sourceId
           title := title, normalizedTitle := t.normalizeTitle title, url := "" }]
      nextIdentity := x.tables.nextIdentity + 1 }
    refreshSources := x.refreshSources ++ [source] }

/-- A title that the catalog does not have; `keys` generates the storage keys. -/
def createSeries (keys : Nat → String) (record : RecoveryRecord)
    (identities : List (String × String)) : Except RecoveryError Recovering :=
  match x.flush with
  | .error e => .error e
  | .ok x =>
    let id := x.tables.nextSeries
    let created : Recovering := { x with
      tables := { x.tables with
        series := x.tables.series ++
          [{ id := id, storageKey := keys id, title := record.title
             normalizedTitle := t.normalizeTitle record.title
             status := restoredStatus record.legacyStatus, integrityState := .attention }]
        nextSeries := id + 1 } }
    match identities.foldlM (createIdentity t record.title id) created with
    | .error e => .error e
    | .ok x => x.restore now id

/-- One record of `_apply`. -/
def applyRecord (keys : Nat → String) (legacy : List LegacyRow) (x : Recovering)
    (record : RecoveryRecord) : Except RecoveryError Recovering :=
  match record.action with
  | .verified => .ok x
  | .track => match record.seriesIds with
    | [] => .error .lookup
    | seriesId :: _ => x.trackSeries now record.legacyStatus seriesId
  | .reviewMerge =>
    match record.seriesIds.foldlM (reviewSeries now record.legacyStatus) x with
    | .error e => .error e
    | .ok x => .ok { x with pairs := x.pairs ++ x.createReviewPairs record.seriesIds }
  | .createTrack =>
    match legacy.find? (·.id == record.legacyId) with
    | none => .error .lookup
    | some row => x.createSeries t now keys record row.identities

/-- The request for a provider whose identities were created. -/
def pullRequest (source : String) : EnqueueArgs where
  kind := .sourcePull
  dedupeKey := "source:" ++ source
  payload := .sourcePull { source := source }
  priority := 70
  source := source

/-- The request for an identity of a series that was recovered. -/
def refreshRequest (i : CatalogSourceSeries) : EnqueueArgs where
  kind := .sourceRefresh
  dedupeKey := "refresh:" ++ i.source ++ ":" ++ i.sourceId
  payload := .sourceRefresh
    { source := i.source, sourceId := i.sourceId, title := orText i.title "Unknown manga"
      url := i.url, description := i.description, coverUrl := i.coverUrl, popularity := i.popularity
      metadata := i.metadata }
  priority := 60
  source := i.source
  maxAttempts := 4

/-- The requests at the end of `_apply`. -/
def requests : List EnqueueArgs :=
  let sources := ((x.refreshSources.filter (· ∈ providerNames)).eraseDups).insertionSort (· ≤ ·)
  let identities := x.tables.identities.filter fun i =>
    decide (i.seriesId ∈ x.recoveredSeriesIds) && decide (i.source ∈ providerNames) && i.url != ""
  sources.map pullRequest ++ identities.map refreshRequest

end Recovering

namespace Installation

/-- `_apply`: one transaction, in which every request may flush. -/
def applyRecovery (t : CatalogText) (s : Installation) (keys : Nat → String)
    (legacy : List LegacyRow) (records : List RecoveryRecord) (now : Time) :
    Except RecoveryError Installation :=
  match records.foldlM (Recovering.applyRecord t now keys legacy) { tables := s } with
  | .error e => .error e
  | .ok x => match x.flush with
    | .error e => .error e
    | .ok x =>
      match x.requests.foldlM (fun queue request =>
          (queue.enqueue request now).map fun r => r.1) x.tables.queue with
      | .error e => .error (.queue e)
      | .ok queue => .ok { x.tables with queue := queue }

end Installation

end MangaManager
