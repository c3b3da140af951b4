import MangaManager.Catalog.Plans
import MangaManager.Domain.Matching
import MangaManager.Library.Repair
import MangaManager.Series.Tables

/-!
# Merging canonical series

`merge_canonical_series`, with `merge_match_groups` for one pair of series and
`_consolidate_overlapping_provider_identities` for the providers both sides have.
The series are checked pairwise, the best one becomes the target, and the others are
merged into it one after the other, by id.

A call is one transaction: what it raises rolls it back. Rows whose parent is
deleted go with it (`ON DELETE CASCADE`).
-/

namespace MangaManager

open Lib

inductive SeriesMergeError where
  | tooFew
  | notFound
  | leased
  | weakOverlap (source : String)
  | identityGone
  | sameProviders (sources : List String)
  | noIdentity
  | repair (e : QueueError)
  deriving DecidableEq

namespace SeriesMergeError

/-- The status of the `HTTPException`; a failure of the repair request is not one. -/
def status : SeriesMergeError → Option Nat
  | tooFew => some 422
  | notFound => some 404
  | leased | weakOverlap _ | identityGone | sameProviders _ | noIdentity => some 409
  | repair _ => none

def detail : SeriesMergeError → String
  | tooFew => "select at least two manga"
  | notFound => "one or more manga no longer exist"
  | leased => "wait for active series jobs to finish before merging"
  | weakOverlap source => "duplicate " ++ source ++ " identities lack strong chapter overlap"
  | identityGone => "one match identity no longer exists"
  | sameProviders sources =>
    "merge would create duplicate provider identities: " ++ ", ".intercalate sources
  | noIdentity => "each manga must have a provider identity"
  | repair e => e.message

end SeriesMergeError

/-- The fields that name a provider's listing. -/
def CatalogSourceSeries.listing (i : CatalogSourceSeries) : ProviderIdentity :=
  ⟨i.source, i.sourceId, i.url⟩

/-- `payload["chapter_release_id"]` after duplicates were replaced. -/
def JobPayload.mapRelease (f : Nat → Nat) : JobPayload → JobPayload
  | .chapterDownload p => .chapterDownload { p with chapterReleaseId := f p.chapterReleaseId }
  | p => p

/-- `overlap < 2 or (minimum and overlap / minimum < 0.5)`. -/
def lacksOverlap (overlap : Nat × Nat) : Bool :=
  overlap.1 < 2 || (overlap.2 != 0 && 2 * overlap.1 < overlap.2)

namespace Collection

variable (t : TextLib) (s : Collection)

/-- Two identities of a provider must not end up in one series. -/
def conflicting (left right : CatalogSourceSeries) : Bool :=
  !t.providerIdentitiesEquivalent left.listing right.listing &&
    lacksOverlap (s.chapterOverlap left.id right.id)

/-! ## One provider of both series -/

section
variable (keeper duplicate : CatalogSourceSeries)

/-- The release that stands for a release of the duplicate, when the keeper has it too. -/
def existingRelease (r : ReleaseRow) : Option ReleaseRow :=
  if r.sourceSeriesId = duplicate.id then
    s.releases.find? fun k =>
      k.sourceSeriesId == keeper.id && k.sourceReleaseId == r.sourceReleaseId
  else none

/-- The id that stands for a release after `_replace_release_references`. -/
def replacedRelease (id : Nat) : Nat :=
  match (s.releases.find? (·.id == id)).bind (s.existingRelease keeper duplicate) with
  | some k => k.id
  | none => id

/-- `_replace_release_references`, and the other releases of the duplicate. -/
def moveReleases : Collection :=
  let f := s.replacedRelease keeper duplicate
  { s with
    releases := (s.releases.filter fun r => (s.existingRelease keeper duplicate r).isNone).map
      fun r => if r.sourceSeriesId = duplicate.id then { r with sourceSeriesId := keeper.id } else r
    artifacts := s.artifacts.map fun a => { a with chapterReleaseId := a.chapterReleaseId.map f }
    attempts := s.attempts.map fun a => { a with chapterReleaseId := f a.chapterReleaseId }
    queue := { s.queue with
      jobs := s.queue.jobs.map fun j =>
        if j.kind = .chapterDownload then
          { j with
            payload := j.payload.mapRelease f
            pendingPayload := j.pendingPayload.map (JobPayload.mapRelease f) }
        else j } }

/-- The alternate listings of the duplicate, and the duplicate itself as one. -/
def moveAlternates (overlap : Nat × Nat) : Collection :=
  let moved := (s.alternates.filter fun a => a.primarySourceSeriesId != duplicate.id ||
      !s.alternates.any fun b =>
        b.id != a.id && b.source == a.source && b.sourceId == a.sourceId).map fun a =>
    if a.primarySourceSeriesId = duplicate.id then { a with primarySourceSeriesId := keeper.id }
    else a
  let isListed (a : CatalogAlternateSourceListing) : Bool :=
    a.source == duplicate.source && a.sourceId == duplicate.sourceId
  let evidence : Option ListingEvidence := some ⟨overlap.1, overlap.2⟩
  if s.alternates.any isListed then
    { s with
      alternates := moved.map fun a =>
        if isListed a then
          { a with
            primarySourceSeriesId := keeper.id, title := duplicate.title, url := duplicate.url
            evidence := evidence }
        else a }
  else
    { s with
      alternates := moved ++
        [{ id := s.nextAlternate, primarySourceSeriesId := keeper.id, source := duplicate.source
           sourceId := duplicate.sourceId, title := duplicate.title, url := duplicate.url
           evidence := evidence }]
      nextAlternate := s.nextAlternate + 1 }

/-- The keeper takes the texts it lacks. -/
def enriched : CatalogSourceSeries :=
  { keeper with
    description := orText keeper.description duplicate.description
    coverUrl := orText keeper.coverUrl duplicate.coverUrl
    metadata := if keeper.metadata = "{}" then duplicate.metadata else keeper.metadata }

/-- The covers, the aliases and the external identifiers of the duplicate. -/
def moveEvidence : Collection :=
  { s with
    covers := (s.covers.filter fun c => c.sourceSeriesId != duplicate.id ||
        !s.covers.any fun k => k.sourceSeriesId == keeper.id && k.kind == c.kind).map fun c =>
      if c.sourceSeriesId = duplicate.id then { c with sourceSeriesId := keeper.id } else c
    aliases := (s.aliases.filter fun a => a.sourceSeriesId != some duplicate.id ||
        !s.aliases.any fun b => b.id != a.id && b.seriesId == a.seriesId &&
          b.normalizedValue == a.normalizedValue).map fun a =>
      if a.sourceSeriesId = some duplicate.id then { a with sourceSeriesId := some keeper.id } else a
    identifiers := (s.identifiers.filter fun e => e.sourceSeriesId != duplicate.id ||
        !s.identifiers.any fun k =>
          k.sourceSeriesId == keeper.id && k.provider == e.provider).map fun e =>
      if e.sourceSeriesId = duplicate.id then { e with sourceSeriesId := keeper.id } else e
    decisions := s.decisions.filter fun d =>
      d.leftSourceSeriesId != duplicate.id && d.rightSourceSeriesId != duplicate.id }

/-- The end of one round: the duplicate is deleted. -/
def dropIdentity : Collection :=
  { s with
    identities := (Table.put CatalogSourceSeries.id s.identities (enriched keeper duplicate)).filter
      (·.id != duplicate.id) }

/-- One provider of both series, when its identities may be consolidated. -/
def consolidate (overlap : Nat × Nat) : Collection :=
  (((s.moveAlternates keeper duplicate overlap).moveReleases keeper duplicate).moveEvidence keeper
    duplicate).dropIdentity keeper duplicate

end

/-- The identity of a series with a source; the last one, should there be two. -/
def identityWith (seriesId : Nat) (source : String) : Option CatalogSourceSeries :=
  ((s.identitiesOf seriesId).filter (·.source == source)).getLast?

/-- The providers of a series. -/
def sourcesOf (seriesId : Nat) : List String :=
  ((s.identitiesOf seriesId).map (·.source)).eraseDups

/-- The providers of both series. -/
def sharedSources (left right : Nat) : List String :=
  (s.sourcesOf left).filter (· ∈ s.sourcesOf right)

/-- The identity that is kept, and the one that is not. -/
def keeperOf (right : CatalogSourceSeries) (leftIdentity rightIdentity : CatalogSourceSeries) :
    CatalogSourceSeries × CatalogSourceSeries :=
  if right.source = leftIdentity.source then (rightIdentity, leftIdentity)
  else (leftIdentity, rightIdentity)

/-- One round of `_consolidate_overlapping_provider_identities`. -/
def consolidatePair (right : CatalogSourceSeries) (s : Collection)
    (pair : CatalogSourceSeries × CatalogSourceSeries) : Except SeriesMergeError Collection :=
  let (keeper, duplicate) := keeperOf right pair.1 pair.2
  if s.conflicting t keeper duplicate then .error (.weakOverlap keeper.source)
  else .ok (s.consolidate keeper duplicate (s.chapterOverlap keeper.id duplicate.id))

/-- The identities of the two series that share a source. -/
def sharedPairs (left right : Nat) : List (CatalogSourceSeries × CatalogSourceSeries) :=
  (s.sharedSources left right).filterMap fun source =>
    match s.identityWith left source, s.identityWith right source with
    | some l, some r => some (l, r)
    | _, _ => none

/-- `_consolidate_overlapping_provider_identities`. -/
def consolidateOverlapping (left right : CatalogSourceSeries) :
    Except SeriesMergeError Collection :=
  (s.sharedPairs left.seriesId right.seriesId).foldlM (consolidatePair t right) s

/-! ## One pair of series -/

/-- The intents once the chapter went into the target's. -/
def mergeIntents (targetSeriesId : Nat) (chapter target : CatalogChapter) : List IntentRow :=
  let kept := match s.intents.find? (·.chapterId == chapter.id) with
    | none => s.intents
    | some i =>
      if s.intents.any (·.chapterId == target.id) then s.intents
      else Table.put (fun i : IntentRow => i.id) s.intents
        { i with seriesId := targetSeriesId, chapterId := target.id }
  kept.filter (·.chapterId != chapter.id)

/-- The reading states once the chapter went into the target's. -/
def mergeReading (chapter target : CatalogChapter) : List CatalogChapterReadingState :=
  let find (id : Nat) := Table.get CatalogChapterReadingState.chapterId s.readingStates id
  match find chapter.id with
  | none => s.readingStates
  | some source => match find target.id with
    | none => s.readingStates.map fun r =>
        if r.chapterId = chapter.id then { r with chapterId := target.id } else r
    | some kept =>
      let rows := if kept.status.rank < source.status.rank then
          Table.put CatalogChapterReadingState.chapterId s.readingStates
            { kept with status := source.status, readAt := source.readAt }
        else s.readingStates
      rows.filter (·.chapterId != chapter.id)

/-- A chapter of the source series whose number the target series has too. -/
def absorbChapter (targetSeriesId : Nat) (chapter target : CatalogChapter) : Collection :=
  let move (id : Nat) : Nat := if id = chapter.id then target.id else id
  let kept := s.hasActiveArtifact target.id
  { s with
    intents := s.mergeIntents targetSeriesId chapter target
    releases := s.releases.map fun r => { r with chapterId := move r.chapterId }
    attempts := s.attempts.map fun a => { a with chapterId := move a.chapterId }
    artifacts := s.artifacts.map fun a =>
      { a with
        state := if kept ∧ a.chapterId = chapter.id ∧ a.state = .active then .quarantined
          else a.state
        chapterId := move a.chapterId }
    projections := if kept then s.projections.filter (·.chapterId != chapter.id)
      else s.projections.map fun p => { p with chapterId := move p.chapterId }
    kavitaProjections := if kept then s.kavitaProjections.filter (·.chapterId != chapter.id)
      else s.kavitaProjections.map fun p => { p with chapterId := move p.chapterId }
    readingStates := s.mergeReading chapter target
    chapters := s.chapters.filter (·.id != chapter.id) }

/-- A chapter of the source series. -/
def mergeChapter (targetSeriesId : Nat) (s : Collection) (chapter : CatalogChapter) : Collection :=
  match s.chapters.find? fun c =>
      c.seriesId == targetSeriesId && c.canonicalNumber == chapter.canonicalNumber with
  | none =>
    { s with
      chapters := Table.put CatalogChapter.id s.chapters
        { chapter with seriesId := targetSeriesId } }
  | some target => s.absorbChapter targetSeriesId chapter target

/-- The plan of the source series, when the target has none. -/
def mergePlans (targetSeriesId sourceSeriesId : Nat) : List SeriesDownloadPlan :=
  match s.plan? sourceSeriesId, s.plan? targetSeriesId with
  | none, _ => s.plans
  | some _, none => s.plans.map fun p =>
      if p.seriesId = sourceSeriesId then { p with seriesId := targetSeriesId } else p
  | some _, some _ => s.plans.filter (·.seriesId != sourceSeriesId)

/-- The target takes what it lacks, and the later release. -/
def adopt (target source : CatalogSeries) : CatalogSeries :=
  let later := match target.latestReleaseAt, source.latestReleaseAt with
    | none, _ => true
    | some x, some y => x < y
    | some _, none => false
  let mapped := target.kavitaSeriesId = none ∧ source.kavitaSeriesId ≠ none
  { target with
    integrityState := .healthy
    description := orText target.description source.description
    coverUrl := orText target.coverUrl source.coverUrl
    kavitaSeriesId := if mapped then source.kavitaSeriesId else target.kavitaSeriesId
    kavitaLibraryId := if mapped then source.kavitaLibraryId else target.kavitaLibraryId
    kavitaSyncedAt := if mapped then source.kavitaSyncedAt else target.kavitaSyncedAt
    kavitaCoverChecksum := if mapped then source.kavitaCoverChecksum else target.kavitaCoverChecksum
    latestReleaseAt := if later then source.latestReleaseAt else target.latestReleaseAt
    latestReleaseNumber := if later then source.latestReleaseNumber else target.latestReleaseNumber
    latestReleaseSource := if later then source.latestReleaseSource else target.latestReleaseSource }

def mergeSeriesRows (targetSeriesId sourceSeriesId : Nat) : List CatalogSeries :=
  (match s.series? targetSeriesId, s.series? sourceSeriesId with
    | some target, some source => Table.put CatalogSeries.id s.series (adopt target source)
    | some target, none =>
      Table.put CatalogSeries.id s.series { target with integrityState := .healthy }
    | none, _ => s.series).filter (·.id != sourceSeriesId)

/-- The rows that hang on the source series, once its chapters are merged. -/
def moveSeries (targetSeriesId sourceSeriesId : Nat) : Collection :=
  let move (id : Nat) : Nat := if id = sourceSeriesId then targetSeriesId else id
  { s with
    identities := s.identities.map fun i => { i with seriesId := move i.seriesId }
    intents := s.intents.map fun i => { i with seriesId := move i.seriesId }
    plans := s.mergePlans targetSeriesId sourceSeriesId
    queue := { s.queue with
      jobs := s.queue.jobs.map fun j =>
        if j.seriesKey = toString sourceSeriesId then
          { j with seriesKey := toString targetSeriesId }
        else j }
    aliases := (s.aliases.filter fun a => a.seriesId != sourceSeriesId ||
        !s.aliases.any fun b =>
          b.seriesId == targetSeriesId && b.normalizedValue == a.normalizedValue).map fun a =>
      { a with seriesId := move a.seriesId }
    identifiers := s.identifiers.map fun e => { e with seriesId := move e.seriesId }
    series := s.mergeSeriesRows targetSeriesId sourceSeriesId }

/-- `merge_match_groups`, for the decision on two identities. -/
def mergeMatchGroups (leftId rightId : Nat) : Except SeriesMergeError Collection :=
  match s.identity? leftId, s.identity? rightId with
  | some left, some right =>
    if left.seriesId = right.seriesId then .ok s
    else match s.consolidateOverlapping t left right with
      | .error e => .error e
      | .ok s =>
        let overlap := s.sharedSources left.seriesId right.seriesId
        if overlap ≠ [] then .error (.sameProviders (overlap.insertionSort (· ≤ ·)))
        else
          let chapters := (s.chapters.filter (·.seriesId == right.seriesId)).insertionSort
            (·.id ≤ ·.id)
          .ok ((chapters.foldl (mergeChapter left.seriesId) s).moveSeries left.seriesId
            right.seriesId)
  | _, _ => .error .identityGone

/-! ## All series -/

/-- The pairs of identities the first pass looks at, with a source they share. -/
def firstConflict (rows : List CatalogSeries) : Option String :=
  (rows.flatMap fun row => (rows.filter (row.id < ·.id)).flatMap fun other =>
    (s.sharedPairs row.id other.id).filterMap fun (l, r) =>
      if s.conflicting t l r then some l.source else none).head?

/-- Provider preference, texts, chapters, age. -/
def SeriesRank := Nat ×ₗ Nat ×ₗ Nat ×ₗ Natᵒᵈ

instance : LinearOrder SeriesRank := inferInstanceAs (LinearOrder (Nat ×ₗ Nat ×ₗ Nat ×ₗ Natᵒᵈ))

/-- `rank`. -/
def rank (row : CatalogSeries) : SeriesRank :=
  let provider := ((s.identitiesOf row.id).map (sourcePriority ·.source)).foldl max 0
  let metadata := (if row.coverUrl = "" then 0 else 1) + if row.description = "" then 0 else 1
  let chapters := s.chapters.countP (·.seriesId == row.id)
  toLex (provider, toLex (metadata, toLex (chapters, OrderDual.toDual row.id)))

/-- `status_rank`. -/
def statusRank : SeriesStatus → Nat
  | .untracked => 0
  | .paused => 1
  | .caughtUp => 2
  | .interested => 3
  | .reading => 4

/-- One round of the fold: the series `sourceId` is merged into the target. -/
def mergeInto (targetId : Nat) (s : Collection) (sourceId : Nat) :
    Except SeriesMergeError Collection :=
  let targets := s.identitiesOf targetId
  let sources := s.identitiesOf sourceId
  let shared := targets.filter fun i => sources.any (·.source == i.source)
  match (shared ++ targets).head? with
  | none => .error .noIdentity
  | some left =>
    match (sources.filter (·.source == left.source) ++ sources).head? with
    | none => .error .noIdentity
    | some right => s.mergeMatchGroups t left.id right.id

/-- The rows `merge_canonical_series` selects. -/
def selectedSeries (ids : List Nat) : List CatalogSeries :=
  (s.series.filter (·.id ∈ ids)).insertionSort (·.id ≤ ·.id)

/-- A leased job of one of the series. -/
def anyLeased (ids : List Nat) : Bool :=
  s.queue.jobs.any fun j => j.status == .leased && decide (j.seriesKey ∈ ids.map toString)

/-- `target.status`, the most tracked one. -/
def withStatus (target : CatalogSeries) (rows : List CatalogSeries) : Collection :=
  let best := (rows.argmax fun row => statusRank row.status).getD target
  { s with series := Table.put CatalogSeries.id s.series { target with status := best.status } }

/-- `merge_canonical_series`, and the id of the series that is left. -/
def mergeCanonicalSeries (ids : List Nat) (now : Time) :
    Except SeriesMergeError (Collection × Nat) :=
  let rows := s.selectedSeries ids
  if ids.eraseDups.length < 2 then .error .tooFew
  else if rows.length ≠ ids.eraseDups.length then .error .notFound
  else if s.anyLeased ids then .error .leased
  else match s.firstConflict t rows with
    | some source => .error (.weakOverlap source)
    | none => match rows.argmax s.rank with
      | none => .error .tooFew
      | some target =>
        let others := rows.filter (·.id != target.id)
        match (others.map (·.id)).foldlM (mergeInto t target.id) (s.withStatus target rows) with
        | .error e => .error e
        | .ok s =>
          match s.queue.enqueueLibraryRepair target.id "merge" 90 (others.map (·.storageKey)) now with
          | .error e => .error (.repair e)
          | .ok (queue, _) => .ok ({ s with queue := queue }, target.id)

end Collection

/-- The row of a release that a provider shows again. -/
def ReleaseRow.observe (r : ReleaseRow) (title url : String) (publishedAt : Option Time)
    (qualityRank : Int) : ReleaseRow :=
  { r with title := title, url := url, publishedAt := publishedAt, qualityRank := qualityRank }

end MangaManager
