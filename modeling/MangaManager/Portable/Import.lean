import MangaManager.Catalog.Planned
import MangaManager.Portable.Export
import MangaManager.Series.United

/-!
# Importing a portable state

`plan_portable_import` and `apply_portable_import`. The sources of a snapshot are looked up in a
map of the identities that is made once and filled on; the series that they are found in are merged.
`Importing` is the session: a row that a merge deleted is still an object in the map, with the
values it had. The session does not flush before it reads, so a statement sees the rows of the last
flush (`seen`), and what was added since is checked when it is flushed.
-/

namespace MangaManager

open Lib

namespace Installation

variable (s : Installation)

/-- The unique constraints of the tables that an import writes. -/
def Unique : Prop :=
  (s.identities.map fun i => (i.source, i.sourceId)).Nodup ∧
    (s.identities.map fun i => (i.seriesId, i.source)).Nodup ∧
    (s.aliases.map fun a => (a.seriesId, a.normalizedValue)).Nodup ∧
    (s.identifiers.map fun e => (e.provider, e.value)).Nodup ∧
    (s.identifiers.map fun e => (e.sourceSeriesId, e.provider)).Nodup ∧
    (s.alternates.map fun a => (a.source, a.sourceId)).Nodup ∧
    (s.readingStates.map (·.chapterId)).Nodup ∧
    (s.decisions.map fun d => (d.leftSourceSeriesId, d.rightSourceSeriesId)).Nodup ∧
    (s.sourceStates.map (·.source)).Nodup

/-- Their references to the identities. -/
def Referenced : Prop :=
  let isRow (id : Nat) : Prop := id ∈ s.identities.map (·.id)
  (∀ a ∈ s.aliases, ∀ id ∈ a.sourceSeriesId, isRow id) ∧
    (∀ e ∈ s.identifiers, isRow e.sourceSeriesId) ∧
    (∀ a ∈ s.alternates, isRow a.primarySourceSeriesId) ∧
    ∀ d ∈ s.decisions, isRow d.leftSourceSeriesId ∧ isRow d.rightSourceSeriesId

/-- What is made of a text that was checked fits into its column; `sort_number` has fourteen digits
before the point, and six after it. -/
def Fits : Prop :=
  (∀ u ∈ s.series, u.normalizedTitle.length ≤ 500) ∧
    (∀ i ∈ s.identities, i.normalizedTitle.length ≤ 500) ∧
    (∀ a ∈ s.aliases, a.normalizedValue.length ≤ 500) ∧
    (∀ c ∈ s.chapters, c.canonicalNumber.length ≤ 100 ∧
      ∀ n ∈ c.sortNumber, n < 100000000000000 - 1 / 2000000) ∧
    ∀ j ∈ s.queue.jobs, j.dedupeKey.length ≤ 500

instance : Decidable s.Unique := inferInstanceAs (Decidable (_ ∧ _))
instance : Decidable s.Referenced := inferInstanceAs (Decidable (_ ∧ _))
instance : Decidable s.Fits := inferInstanceAs (Decidable (_ ∧ _))

end Installation

structure PortableImportReport where
  applied : Bool
  series : Nat
  sources : Nat
  separations : Nat
  providers : Nat
  createSeries : Nat := 0
  createSources : Nat := 0
  mergeSeries : Nat := 0
  readingStates : Nat := 0
  refreshJobs : Nat := 0
  downloadPlans : Nat := 0
  conflicts : List String := []
  deriving DecidableEq

/-- The session of an import. -/
structure Importing where
  tables : Installation
  gone : List CatalogSourceSeries := []
  identities : List (IdentityKey × Nat)
  restored : List (IdentityKey × Nat) := []
  refreshJobs : Nat := 0
  downloadPlans : Nat := 0

def PortableSource.listing (p : PortableSource) : ProviderIdentity := ⟨p.source, p.sourceId, p.url⟩

/-- `_existing_identity_map`. -/
def Installation.identityMap (s : Installation) : List (IdentityKey × Nat) :=
  (s.identities.insertionSort (·.id ≤ ·.id)).foldl (fun m i =>
    if m.any (·.1 == i.identityKey) then m else m ++ [(i.identityKey, i.id)]) []

def Installation.importing (s : Installation) : Importing := ⟨s, [], s.identityMap, [], 0, 0⟩

namespace Importing

variable (t : PortableText) (x : Importing)

/-! ## What is there -/

/-- The object of an identity: its row, or what is left of it. -/
def object? (id : Nat) : Option CatalogSourceSeries :=
  (x.tables.identity? id).or (x.gone.find? (·.id == id))

/-- `_resolve_existing_identity`. -/
def resolveIdentity (p : PortableSource) : Except PortableError (Option CatalogSourceSeries) :=
  match (x.identities.lookup p.key).bind x.object? with
  | some i => .ok (some i)
  | none =>
    let found := (x.identities.filterMap fun e => x.object? e.2).filter fun i =>
      i.source == p.source && t.providerIdentitiesEquivalent i.listing p.listing
    match found with
    | [] => .ok none
    | [i] => .ok (some i)
    | _ :: _ :: _ =>
      .error (.conflict ("multiple local identities match " ++ p.source ++ ":" ++ p.sourceId))

/-- The sources of a series, each with its object. -/
def resolveAll : List PortableSource →
    Except PortableError (List (PortableSource × Option CatalogSourceSeries))
  | [] => .ok []
  | p :: sources => match x.resolveIdentity t p with
    | .error e => .error e
    | .ok i => match resolveAll sources with
      | .error e => .error e
      | .ok resolved => .ok ((p, i) :: resolved)

/-- `existing_series_ids`. -/
def existingSeries (resolved : List (PortableSource × Option CatalogSourceSeries)) : List Nat :=
  (resolved.filterMap fun r => r.2.map (·.seriesId)).dedup

end Importing

/-! ## The plan -/

/-- `local manga #1 is claimed by both "a" and "b"`. -/
def claimedTwice (seriesId : Nat) (previous title : String) : String :=
  "local manga #" ++ toString seriesId ++ " is claimed by both \"" ++ previous ++ "\" and \"" ++
    title ++ "\""

/-- The state of the loop; the last claim of a series is first. -/
structure Planning where
  claimed : List (Nat × String) := []
  report : PortableImportReport

namespace Planning

/-- A local series is claimed. -/
def claim (title : String) (acc : Planning) (seriesId : Nat) : Planning where
  claimed := (seriesId, title) :: acc.claimed
  report := match acc.claimed.lookup seriesId with
    | none => acc.report
    | some previous =>
      if previous = title then acc.report
      else { acc.report with
        conflicts := acc.report.conflicts ++ [claimedTwice seriesId previous title] }

/-- A turn of the loop over the series. -/
def planSeries (t : PortableText) (x : Importing) (acc : Planning) (p : PortableSeries) :
    Except PortableError Planning :=
  match x.resolveAll t p.sources with
  | .error e => .error e
  | .ok resolved =>
    let ids := Importing.existingSeries resolved
    let report := { acc.report with
      createSources := acc.report.createSources + resolved.countP (·.2.isNone)
      createSeries := acc.report.createSeries + if ids = [] then 1 else 0
      mergeSeries := acc.report.mergeSeries + (ids.length - 1) }
    .ok (ids.foldl (claim p.title) { acc with report := report })

end Planning

namespace PortableState

variable (p : PortableState)

/-- The separations of identities of one series. -/
def separationConflicts : List String :=
  (p.separations.filter fun d => p.owner d.left.key == p.owner d.right.key).map fun d =>
    "snapshot marks two identities as both merged and separated: " ++ d.left.source ++ ":" ++
      d.left.sourceId ++ " / " ++ d.right.source ++ ":" ++ d.right.sourceId

/-- The counts of the report. -/
def report : PortableImportReport where
  applied := false
  series := p.series.length
  sources := (p.series.map (·.sources.length)).sum
  separations := p.separations.length
  providers := p.providers.length
  readingStates := (p.series.map (·.reading.length)).sum

end PortableState

/-- `plan_portable_import`. -/
def Installation.planPortableImport (t : PortableText) (s : Installation) (p : PortableState) :
    Except PortableError PortableImportReport :=
  (p.series.foldlM (Planning.planSeries t s.importing) { report := p.report }).map fun acc =>
    { acc.report with conflicts := acc.report.conflicts ++ p.separationConflicts }

/-! ## The import -/

namespace Installation

variable (t : PortableText) (seen s : Installation)

/-- `_upsert_alias`; the aliases that were not flushed are looked at too. -/
def upsertAlias (seriesId : Nat) (sourceSeriesId : Option Nat) (s : Installation) (value : String) :
    Installation :=
  let normalized := t.normalizeTitle value
  if normalized = "" ∨ s.aliases.any (fun a =>
      a.seriesId == seriesId && a.normalizedValue == normalized) then s
  else { s with
    aliases := s.aliases ++
      [{ id := s.nextAlias, seriesId := seriesId, sourceSeriesId := sourceSeriesId
         normalizedValue := normalized, displayValue := value }]
    nextAlias := s.nextAlias + 1 }

/-- An external id of `_upsert_source_details`. -/
def upsertExternalId (seriesId identityId : Nat) (s : Installation) (entry : String × String) :
    Installation :=
  let (provider, value) := entry
  let conflict := seen.identifiers.find? fun e => e.provider == provider && e.value == value
  match seen.identifiers.find? fun e =>
      e.sourceSeriesId == identityId && e.provider == provider with
  | some existing =>
    if conflict.all (·.id == existing.id) then
      { s with
        identifiers := s.identifiers.map fun e =>
          if e.id = existing.id then { e with value := value } else e }
    else s
  | none =>
    if conflict.isSome then s
    else { s with
      identifiers := s.identifiers ++
        [{ id := s.nextIdentifier, seriesId := seriesId, sourceSeriesId := identityId
           provider := provider, value := value }]
      nextIdentifier := s.nextIdentifier + 1 }

/-- An alternate listing of `_upsert_source_details`. -/
def upsertAlternate (p : PortableSource) (identityId : Nat) (s : Installation)
    (a : PortableAlternate) : Installation :=
  if seen.alternates.any fun b => b.source == p.source && b.sourceId == a.sourceId then s
  else { s with
    alternates := s.alternates ++
      [{ id := s.nextAlternate, primarySourceSeriesId := identityId, source := p.source
         sourceId := a.sourceId, title := orText a.title p.title, url := orText a.url p.url }]
    nextAlternate := s.nextAlternate + 1 }

/-- The rows that `_upsert_source_details` adds for a source. -/
def upsertSourceRows (seriesId identityId : Nat) (p : PortableSource) : Installation :=
  let s := p.aliases.foldl (upsertAlias t seriesId (some identityId)) s
  let s := p.externalIds.foldl (upsertExternalId seen seriesId identityId) s
  p.alternates.foldl (upsertAlternate seen p identityId) s

/-- The chapter of a number, and a new one when there is none. -/
def chapterFor (seriesId : Nat) (now : Time) (chapter : String) : Installation × Nat :=
  let number := t.canonicalChapterNumber chapter
  match s.chapters.find? fun c => c.seriesId == seriesId && c.canonicalNumber == number with
  | some c => (s, c.id)
  | none => ({ s with
      chapters := s.chapters ++
        [{ id := s.nextChapter, seriesId := seriesId, canonicalNumber := number
           sortNumber := t.chapterSortNumber number, createdAt := now, displayNumber := chapter }]
      nextChapter := s.nextChapter + 1 }, s.nextChapter)

/-- `_upsert_reading_state`; a state that was not flushed is not found. -/
def upsertReading (seriesId : Nat) (now : Time) (s : Installation) (r : PortableReadingState) :
    Installation :=
  let (s, chapterId) := s.chapterFor t seriesId now r.chapter
  if seen.readingStates.any (·.chapterId == chapterId) then
    { s with
      readingStates := s.readingStates.map fun row =>
        if row.chapterId = chapterId ∧ row.status.rank ≤ r.status.rank then
          { row with status := r.status, readAt := r.readAt.or row.readAt }
        else row }
  else { s with
    readingStates := s.readingStates ++
      [{ chapterId := chapterId, status := r.status, readAt := r.readAt }] }

/-- The preference for a provider. -/
def restoreProvider (s : Installation) (p : PortableProviderPreference) : Installation :=
  if seen.sourceStates.any (·.source == p.source) then
    { s with
      sourceStates := s.sourceStates.map fun state =>
        if state.source = p.source then { state with manualEnabled := p.enabled } else state }
  else { s with sourceStates := s.sourceStates ++ [⟨p.source, p.enabled, none⟩] }

end Installation

/-- The series with what the snapshot says; texts that it has stay. -/
def CatalogSeries.restored (t : PortableText) (u : CatalogSeries) (p : PortableSeries) :
    CatalogSeries :=
  { u with
    title := orText u.title p.title
    normalizedTitle := t.normalizeTitle (orText u.title p.title)
    description := orText u.description p.description
    status :=
      if Collection.statusRank u.status < Collection.statusRank p.status then p.status
      else u.status }

/-- What `_upsert_source_details` writes into the row of a source. -/
def CatalogSourceSeries.restored (t : PortableText) (i : CatalogSourceSeries) (seriesId : Nat)
    (p : PortableSource) : CatalogSourceSeries :=
  { i with
    seriesId := seriesId, sourceId := p.sourceId
    normalizedSourceId := portableIdentity p.source p.sourceId, title := p.title
    normalizedTitle := t.normalizeTitle p.title, url := p.url, description := p.description
    revisionOverride := p.revisionOverride }

namespace Importing

variable (t : PortableText) (x : Importing) (now : Time)

def flush : Except PortableError Importing :=
  if x.tables.Unique ∧ x.tables.Referenced ∧ x.tables.Fits then .ok x else .error .integrity

/-- `_merge_existing_series`. -/
def mergeExisting (ids : List Nat) : Except PortableError (Importing × Nat) :=
  match ids with
  | [id] => .ok (x, id)
  | _ => match x.tables.toCollection.mergeCanonicalSeries t.toTextLib ids now with
    | .error (.repair e) => .error (.queue e)
    | .error e => .error (.conflict e.detail)
    | .ok (c, target) => .ok ({ x with
        tables := { x.tables with toCollection := c }
        gone := x.gone ++ x.tables.retiredListings ids }, target)

/-- `canonical`; `keys` generates the storage keys. -/
def canonicalSeries (keys : Nat → String) (p : PortableSeries) (ids : List Nat) :
    Except PortableError (Importing × CatalogSeries) :=
  match ids with
  | [] =>
    let row : CatalogSeries :=
      { id := x.tables.nextSeries, storageKey := keys x.tables.nextSeries, title := p.title
        normalizedTitle := t.normalizeTitle p.title, description := p.description
        status := p.status }
    .ok ({ x with
      tables := { x.tables with
        series := x.tables.series ++ [row], nextSeries := x.tables.nextSeries + 1 } }, row)
  | _ :: _ => match x.mergeExisting t now ids with
    | .error e => .error e
    | .ok (x, id) => match x.tables.series? id with
      | none => .error (.conflict ("could not restore \"" ++ p.title ++ "\""))
      | some row => .ok (x, row)

/-- The row of a source that was not found. -/
def createSource (seriesId : Nat) (p : PortableSource) : Importing × Nat :=
  ({ x with
    tables := { x.tables with
      identities := x.tables.identities ++
        [{ id := x.tables.nextIdentity, seriesId := seriesId, source := p.source
           sourceId := p.sourceId, normalizedSourceId := portableIdentity p.source p.sourceId
           title := p.title, normalizedTitle := t.normalizeTitle p.title, url := p.url }]
      nextIdentity := x.tables.nextIdentity + 1 }
    identities := x.identities ++ [(p.key, x.tables.nextIdentity)] }, x.tables.nextIdentity)

/-- The values of an object are written; of one that was deleted nobody reads them back. -/
def writeSource (i : CatalogSourceSeries) : Importing :=
  if (x.tables.identity? i.id).isSome then
    { x with
      tables := { x.tables with
        identities := Table.put CatalogSourceSeries.id x.tables.identities i } }
  else { x with gone := Table.put CatalogSourceSeries.id x.gone i }

/-- The first statements of `_upsert_source_details`. -/
def rewriteSource (seriesId id : Nat) (p : PortableSource) : Importing :=
  match x.object? id with
  | some i => x.writeSource (i.restored t seriesId p)
  | none => x

/-- `_upsert_source_details`, and `restored[key]`. -/
def upsertSourceDetails (seen : Installation) (seriesId id : Nat) (p : PortableSource) : Importing :=
  let x := x.rewriteSource t seriesId id p
  { x with
    tables := Installation.upsertSourceRows t seen x.tables seriesId id p
    restored := x.restored ++ [(p.key, id)] }

/-- A source of a series, with a new row when it was not found. -/
def restoreSource (seen : Installation) (seriesId : Nat) (x : Importing)
    (r : PortableSource × Option CatalogSourceSeries) : Importing :=
  match r.2 with
  | some i => x.upsertSourceDetails t seen seriesId i.id r.1
  | none =>
    let (x, id) := x.createSource t seriesId r.1
    x.upsertSourceDetails t seen seriesId id r.1

/-- The refresh of a source. -/
def refreshRequest (u : CatalogSeries) (workflowKey : String) (p : PortableSource) : EnqueueArgs where
  kind := .sourceRefresh
  dedupeKey := "refresh:" ++ p.source ++ ":" ++ p.sourceId
  payload := .sourceRefresh
    { source := p.source, sourceId := p.sourceId, title := p.title, url := p.url
      aliases := p.aliases, description := p.description, externalIds := p.externalIds
      metadata :=
        if p.revisionOverride = "" then "\x7b\x7d"
        else "\x7b\"asura_revision_override\": \"" ++ p.revisionOverride ++ "\"\x7d"
      workflowKey := workflowKey, acquisitionCritical := u.status.isTracked }
  priority := if u.status.isTracked then 10 else 55
  maxAttempts := 4
  source := p.source
  seriesKey := toString u.id
  workflowKey := workflowKey
  groupKey := workflowKey
  coalesce := true

/-- A refresh is enqueued. -/
def enqueueRefresh (u : CatalogSeries) (workflowKey : String) (x : Importing) (p : PortableSource) :
    Except PortableError Importing :=
  match x.tables.queue.enqueue (refreshRequest u workflowKey p) now with
  | .error e => .error (.queue e)
  | .ok (queue, _, created) => .ok { x with
    tables := { x.tables with queue := queue }, refreshJobs := x.refreshJobs + created.toNat }

/-- A tracked series has a download plan. -/
def trackRestored (u : CatalogSeries) : Except PortableError Importing :=
  if u.status.isTracked then
    match x.tables.toCatalog.track now Catalog.rollingWindow u.id with
    | .error e => .error (.queue e)
    | .ok c => .ok { x with
      tables := { x.tables with toCatalog := c }, downloadPlans := x.downloadPlans + 1 }
  else .ok x

/-- The rows of a series, before they are flushed. -/
def describeSeries (u : CatalogSeries) (p : PortableSeries)
    (resolved : List (PortableSource × Option CatalogSourceSeries)) : Importing :=
  let seen := x.tables
  let s := { x.tables with series := Table.put CatalogSeries.id x.tables.series u }
  let s := p.aliases.foldl (Installation.upsertAlias t u.id none) s
  let x := resolved.foldl (restoreSource t seen u.id) { x with tables := s }
  { x with tables := p.reading.foldl (Installation.upsertReading t seen u.id now) x.tables }

/-- A turn of the loop over the series. -/
def restoreSeries (keys : Nat → String) (workflowKey : String) (x : Importing)
    (p : PortableSeries) : Except PortableError Importing :=
  match x.resolveAll t p.sources with
  | .error e => .error e
  | .ok resolved => match x.canonicalSeries t now keys p (existingSeries resolved) with
    | .error e => .error e
    | .ok (x, row) =>
      let u := row.restored t p
      match (x.describeSeries t now u p resolved).flush with
      | .error e => .error e
      | .ok x => match p.sources.foldlM (enqueueRefresh now u workflowKey) x with
        | .error e => .error e
        | .ok x => match x.trackRestored now u with
          | .error e => .error e
          | .ok x => x.flush

/-- A turn of the loop over the separations; each of its identities was restored. -/
def restoreSeparation (seen : Installation) (x : Importing) (d : PortableSeparation) :
    Except PortableError Importing :=
  match (x.restored.lookup d.left.key).bind x.object?,
      (x.restored.lookup d.right.key).bind x.object? with
  | some left, some right =>
    if left.seriesId = right.seriesId then
      .error (.conflict
        ("cannot restore a separation after its identities were already merged: " ++ left.source ++
          ":" ++ left.sourceId ++ " / " ++ right.source ++ ":" ++ right.sourceId))
    else
      let isPair (c : CatalogMatchDecision) : Bool :=
        c.leftSourceSeriesId == min left.id right.id && c.rightSourceSeriesId == max left.id right.id
      .ok { x with
        tables :=
          if seen.decisions.any isPair then { x.tables with
            decisions := x.tables.decisions.map fun c =>
              if isPair c then { c with decision := .decided .rejected } else c }
          else { x.tables with
            decisions := x.tables.decisions ++
              [{ id := x.tables.nextDecision, leftSourceSeriesId := min left.id right.id
                 rightSourceSeriesId := max left.id right.id, decision := .decided .rejected }]
            nextDecision := x.tables.nextDecision + 1 } }
  | _, _ => .error .validation

/-- `workflow_key`; the digest is cut to twelve characters. -/
def workflowKey (digest : PortableState → String) (p : PortableState) : String :=
  "portable-import:" ++ String.ofList ((digest p).toList.take 12)

end Importing

/-- `apply_portable_import`; `digest` is the SHA-256 of the snapshot. -/
def Installation.applyPortableImport (t : PortableText) (keys : Nat → String)
    (digest : PortableState → String) (s : Installation) (p : PortableState) (now : Time) :
    Except PortableError (Installation × PortableImportReport) :=
  match s.planPortableImport t p with
  | .error e => .error e
  | .ok report =>
    if report.conflicts ≠ [] then .error (.conflict ("; ".intercalate report.conflicts))
    else
      match p.series.foldlM (Importing.restoreSeries t now keys (Importing.workflowKey digest p))
          s.importing with
      | .error e => .error e
      | .ok x => match p.separations.foldlM (Importing.restoreSeparation x.tables) x with
        | .error e => .error e
        | .ok x =>
          let s := p.providers.foldl (Installation.restoreProvider x.tables) x.tables
          match ({ x with tables := s } : Importing).flush with
          | .error e => .error e
          | .ok x => .ok (x.tables, { report with
            applied := true, refreshJobs := x.refreshJobs, downloadPlans := x.downloadPlans })

end MangaManager
