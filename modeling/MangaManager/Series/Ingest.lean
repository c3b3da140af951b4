import MangaManager.Domain.Catalog
import MangaManager.Providers.Asura
import MangaManager.Series.Merge

/-!
# Ingesting what a provider says

`CatalogRepository.ingest`: a listing with its chapters is found among the identities of
its provider, or becomes a new one, and the rows that hang on the identity are brought
up to date. `Shelf` adds the id sequences these rows need. The scores of the match
decisions are not modelled.

A call is one transaction: what it raises rolls it back.
-/

namespace MangaManager

open Lib

/-- What a provider says of a listing; `observationVersion` is `listing_observation_version`, and
`revisionOverride` the entry of the metadata for `asura_revision_override`. -/
structure SeriesItem where
  source : String
  sourceId : String
  title : String
  url : String
  aliases : List String := []
  description : String := ""
  coverUrl : String := ""
  popularity : Rat := 0
  externalIds : List (String × String) := []
  metadata : String := "{}"
  revisionOverride : String := ""
  observationVersion : String := ""
  deriving DecidableEq

/-- A chapter of a listing; `qualityRank` is `chapter_quality_rank`. -/
structure ChapterItem where
  source : String
  number : String
  title : String := ""
  url : String := ""
  publishedAt : Option Time := none
  qualityRank : Int := 0
  deriving DecidableEq

inductive IngestError where
  /-- A unique constraint. -/
  | integrity
  | seriesMissing (seriesId : Nat)
  deriving DecidableEq

/-- The tables, with the next values of the other id sequences. -/
structure Shelf extends Collection where
  nextSeries : Nat := 1
  nextIdentity : Nat := 1
  nextChapter : Nat := 1
  lastRelease : Nat := 0
  nextAlias : Nat := 1
  nextIdentifier : Nat := 1
  nextDecision : Nat := 1
  deriving DecidableEq

/-- The identity an item is about. -/
inductive Located where
  | identity (i : CatalogSourceSeries)
  | listing (i : CatalogSourceSeries) (a : CatalogAlternateSourceListing)
  | equivalent (i : CatalogSourceSeries) (evidence : ListingEvidence)
  | unknown
  deriving DecidableEq

namespace Shelf

variable (t : CatalogText) (s : Shelf)

/-- `_normalized_identity`. -/
def normalizedIdentity (item : SeriesItem) : String :=
  if item.source = "asura" then (splitAsuraSourceId item.sourceId).1 else strip item.sourceId

/-! ## The identity -/

/-- The numbers of the chapters of an identity that can be sorted. -/
def sortableNumbers (identityId : Nat) : Finset String :=
  ((s.releases.filter (·.sourceSeriesId == identityId)).filterMap fun r =>
    (s.chapter? r.chapterId).bind fun c => c.sortNumber.map fun _ => c.canonicalNumber).toFinset

def incomingNumbers (chapters : List ChapterItem) : Finset String :=
  ((chapters.filter fun c => (t.chapterSortNumber c.number).isSome).map fun c =>
    t.canonicalChapterNumber c.number).toFinset

/-- `round(ratio, 4)`. -/
def overlapRatio (e : ListingEvidence) : Rat :=
  if e.comparedChapters = 0 then 0
  else mkRat (mkRat (e.chapterOverlap * 10000) e.comparedChapters + 1 / 2).floor 10000

/-- `duplicate_identity_evidence` without covers; none, when it is not equivalent. -/
def duplicateEvidence (left : CatalogSourceSeries) (item : SeriesItem)
    (leftChapters rightChapters : Finset String) : Option ListingEvidence :=
  let e : ListingEvidence :=
    ⟨(leftChapters ∩ rightChapters).card, min leftChapters.card rightChapters.card⟩
  let conflicting := s.identifiers.any fun x => x.sourceSeriesId == left.id &&
    item.externalIds.any fun (provider, value) => provider == x.provider && value != x.value
  let identity := t.providerIdentitiesEquivalent left.listing ⟨item.source, item.sourceId, item.url⟩
  let leftTitle := orText (t.normalizeTitle left.title) left.normalizedTitle
  let title := leftTitle ≠ "" ∧ leftTitle = t.normalizeTitle item.title
  let strong := 5 ≤ e.comparedChapters ∧ 9 * e.comparedChapters ≤ 10 * e.chapterOverlap
  if identity = true ∨ (title ∧ strong ∧ conflicting = false) then some e else none

/-- `_equivalent_provider_identity`: the most overlap, and the oldest identity. -/
def equivalentIdentity (item : SeriesItem) (chapters : List ChapterItem) :
    Option (CatalogSourceSeries × ListingEvidence) :=
  let title := t.normalizeTitle item.title
  let incoming := incomingNumbers t chapters
  if title = "" ∨ incoming = ∅ then none
  else
    let candidates := (s.identities.filter fun i =>
      i.source == item.source && i.normalizedTitle == title).insertionSort (·.id ≤ ·.id)
    (candidates.filterMap fun i =>
      (s.duplicateEvidence t i item (s.sortableNumbers i.id) incoming).map fun e => (i, e)).argmax
        fun m => toLex (overlapRatio m.2, toLex (m.2.chapterOverlap, OrderDual.toDual m.1.id))

/-- The identity of the item, its alternate listing, or the one that it is equivalent to. -/
def locate (item : SeriesItem) (chapters : List ChapterItem) : Located :=
  match s.identities.find? fun i => i.source == item.source &&
      (i.normalizedSourceId == normalizedIdentity item || i.sourceId == item.sourceId) with
  | some i => .identity i
  | none =>
    match s.alternates.find? fun a => a.source == item.source && a.sourceId == item.sourceId with
    | some a => match s.identity? a.primarySourceSeriesId with
      | some i => .listing i a
      | none => .unknown
    | none => match s.equivalentIdentity t item chapters with
      | some (i, e) => .equivalent i e
      | none => .unknown

/-- `_matching_series`: a shared external id, and no identity of the provider. -/
def matchingSeries (item : SeriesItem) : Option Nat :=
  item.externalIds.findSome? fun (provider, value) =>
    (s.identifiers.find? fun x => x.provider == provider && x.value == value).bind fun x =>
      if s.identities.any fun i => i.seriesId == x.seriesId && i.source == item.source then none
      else some x.seriesId

/-- The series of a new identity; `key` is the storage key that is generated. -/
def addSeries (item : SeriesItem) (key : String) : Shelf × Nat :=
  match s.matchingSeries item with
  | some id => (s, id)
  | none =>
    ({ s with
      series := s.series ++
        [{ id := s.nextSeries, storageKey := key, title := item.title
           normalizedTitle := t.normalizeTitle item.title, description := item.description
           coverUrl := item.coverUrl }]
      nextSeries := s.nextSeries + 1 }, s.nextSeries)

/-- `_record_match_candidates`. -/
def recordCandidates (i : CatalogSourceSeries) (item : SeriesItem) : Shelf :=
  let values := ((item.title :: item.aliases).map t.normalizeTitle).filter (· ≠ "")
  let candidates := (s.identities.filter fun c =>
    c.id != i.id && c.source != i.source && decide (c.normalizedTitle ∈ values)).insertionSort
      (·.id ≤ ·.id)
  let missing := candidates.filter fun c => !s.decisions.any fun d =>
    d.leftSourceSeriesId == min c.id i.id && d.rightSourceSeriesId == max c.id i.id
  { s with
    decisions := s.decisions ++ missing.zipIdx.map fun (c, n) =>
      { id := s.nextDecision + n, leftSourceSeriesId := min c.id i.id
        rightSourceSeriesId := max c.id i.id }
    nextDecision := s.nextDecision + missing.length }

/-- A new identity, with its series. -/
def addIdentity (item : SeriesItem) (key : String) : Shelf × CatalogSourceSeries :=
  let (s, seriesId) := s.addSeries t item key
  let i : CatalogSourceSeries :=
    { id := s.nextIdentity, seriesId := seriesId, source := item.source, sourceId := item.sourceId
      normalizedSourceId := normalizedIdentity item, title := item.title
      normalizedTitle := t.normalizeTitle item.title, url := item.url
      revisionOverride := if item.source = "asura" then item.revisionOverride else "" }
  (({ s with identities := s.identities ++ [i], nextIdentity := s.nextIdentity + 1 } : Shelf
    ).recordCandidates t i item, i)

/-- The alternate listing of an equivalent identity. -/
def addListing (item : SeriesItem) (i : CatalogSourceSeries) (e : ListingEvidence) :
    Shelf × CatalogAlternateSourceListing :=
  let a : CatalogAlternateSourceListing :=
    { id := s.nextAlternate, primarySourceSeriesId := i.id, source := item.source
      sourceId := item.sourceId, title := item.title, url := item.url, evidence := some e }
  ({ s with alternates := s.alternates ++ [a], nextAlternate := s.nextAlternate + 1 }, a)

/-- The identity as the item describes it; the names of the primary listing stay when the item is
about an alternate one. -/
def observed (i : CatalogSourceSeries) (item : SeriesItem) (alternate : Bool) : CatalogSourceSeries :=
  let named := if alternate then i else
    { i with
      title := item.title, normalizedSourceId := normalizedIdentity item
      sourceId := if item.source = "asura" then normalizedIdentity item else item.sourceId
      normalizedTitle := t.normalizeTitle item.title, url := item.url }
  { named with
    description := item.description, coverUrl := item.coverUrl, popularity := item.popularity
    metadata := item.metadata, observationVersion := item.observationVersion
    revisionOverride := if item.source = "asura" then item.revisionOverride
      else named.revisionOverride }

/-! ## The rows that hang on the identity -/

/-- The values of the delete statement in `_sync_aliases`. -/
def boilerplate : List String := ["asura scans home", "home", "manga list"]

/-- The normalized values that are not empty. -/
def normalizedAliases (values : List String) : List String :=
  (values.map t.normalizeTitle).filter (· ≠ "")

/-- The first value of each normalized one. -/
def firstValues : List String → List String → List (String × String)
  | _, [] => []
  | seen, value :: values =>
    let normalized := t.normalizeTitle value
    if normalized = "" ∨ normalized ∈ seen then firstValues seen values
    else (normalized, value) :: firstValues (normalized :: seen) values

/-- The rows of the identity that are still reported, and the rows of others. -/
def keptAliases (identityId : Nat) (values : List String) : List CatalogSeriesAlias :=
  s.aliases.filter fun a => a.sourceSeriesId != some identityId ||
    (decide (a.normalizedValue ∈ normalizedAliases t values) &&
      decide (t.lower a.displayValue ∉ boilerplate))

/-- `_sync_aliases`. -/
def syncAliases (seriesId identityId : Nat) (values : List String) : Shelf :=
  let kept := s.keptAliases t identityId values
  let missing := (firstValues t [] values).filter fun (normalized, _) =>
    !kept.any fun a => a.seriesId == seriesId && a.normalizedValue == normalized
  { s with
    aliases := kept ++ missing.zipIdx.map fun ((normalized, value), n) =>
      { id := s.nextAlias + n, seriesId := seriesId, sourceSeriesId := some identityId
        normalizedValue := normalized, displayValue := value }
    nextAlias := s.nextAlias + missing.length }

/-- One provider of `_sync_external_ids`. -/
def syncExternalId (seriesId identityId : Nat) (acc : List CatalogExternalIdentifier × Nat)
    (entry : String × String) : List CatalogExternalIdentifier × Nat :=
  let (provider, value) := entry
  let existing := acc.1.find? fun x => x.provider == provider && x.value == value
  if provider = "" ∨ value = "" then acc
  else match acc.1.find? fun x => x.sourceSeriesId == identityId && x.provider == provider with
    | some own =>
      if existing.all (·.id == own.id) then
        (acc.1.map fun x => if x.id = own.id then { x with value := value } else x, acc.2)
      else acc
    | none =>
      if existing.isSome then acc
      else (acc.1 ++ [{ id := acc.2, seriesId := seriesId, sourceSeriesId := identityId
                        provider := provider, value := value }], acc.2 + 1)

/-- `_sync_external_ids`. -/
def syncExternalIds (seriesId identityId : Nat) (externalIds : List (String × String)) : Shelf :=
  let acc := externalIds.foldl (syncExternalId seriesId identityId) (s.identifiers, s.nextIdentifier)
  { s with identifiers := acc.1, nextIdentifier := acc.2 }

/-- The items by canonical number: the place of the first one, and the last one. -/
def byNumber (items : List ChapterItem) : List (String × ChapterItem) :=
  items.foldl (fun rows item =>
    let canonical := t.canonicalChapterNumber item.number
    if canonical = "" then rows
    else if rows.any (·.1 == canonical) then
      rows.map fun row => if row.1 = canonical then (canonical, item) else row
    else rows ++ [(canonical, item)]) []

/-- The chapter of an item. -/
def upsertChapter (seriesId : Nat) (now : Time) (acc : List CatalogChapter × Nat)
    (row : String × ChapterItem) : List CatalogChapter × Nat :=
  let (canonical, item) := row
  let isRow (c : CatalogChapter) : Bool := c.seriesId == seriesId && c.canonicalNumber == canonical
  if acc.1.any isRow then
    (acc.1.map fun c => if isRow c then { c with title := orText c.title item.title } else c, acc.2)
  else
    (acc.1 ++ [{ id := acc.2, seriesId := seriesId, canonicalNumber := canonical
                 sortNumber := t.chapterSortNumber item.number, createdAt := now
                 displayNumber := item.number, title := item.title }], acc.2 + 1)

/-- The release of an item. -/
def upsertRelease (chapters : List CatalogChapter) (seriesId identityId : Nat) (now : Time)
    (acc : List ReleaseRow × Nat) (row : String × ChapterItem) : List ReleaseRow × Nat :=
  let (canonical, item) := row
  let isRow (r : ReleaseRow) : Bool :=
    r.sourceSeriesId == identityId && r.sourceReleaseId == canonical
  let observe (r : ReleaseRow) : ReleaseRow :=
    r.observe item.title item.url item.publishedAt item.qualityRank
  if acc.1.any isRow then (acc.1.map fun r => if isRow r then observe r else r, acc.2)
  else match chapters.find? fun c => c.seriesId == seriesId && c.canonicalNumber == canonical with
    | none => acc
    | some chapter =>
      (acc.1 ++ [observe
        { id := acc.2 + 1, id_pos := Nat.succ_pos _, chapterId := chapter.id, source := item.source
          sourceSeriesId := identityId, sourceReleaseId := canonical, firstSeenAt := now }],
        acc.2 + 1)

/-- `_upsert_chapters`. -/
def upsertChapters (seriesId identityId : Nat) (items : List ChapterItem) (now : Time) : Shelf :=
  let rows := byNumber t items
  let chapters := rows.foldl (upsertChapter t seriesId now) (s.chapters, s.nextChapter)
  let releases := rows.foldl (upsertRelease chapters.1 seriesId identityId now)
    (s.releases, s.lastRelease)
  { s with
    chapters := chapters.1, nextChapter := chapters.2
    releases := releases.1, lastRelease := releases.2 }

end Shelf

/-! ## The latest release -/

namespace Collection

variable (s : Collection)

/-- The releases of a series, each with its chapter. -/
def seriesReleases (seriesId : Nat) : List (CatalogChapter × ReleaseRow) :=
  s.releases.filterMap fun r =>
    ((s.chapter? r.chapterId).filter (·.seriesId == seriesId)).map fun c => (c, r)

/-- The release `_recompute_latest` selects: the highest number, and the greatest id; without a
number the newest one. -/
def latestRelease (seriesId : Nat) : Option (CatalogChapter × ReleaseRow) :=
  let rows := s.seriesReleases seriesId
  let numeric := rows.filterMap fun row => row.1.sortNumber.map fun n => (n, row)
  match numeric.argmax fun m => toLex (m.1, m.2.2.id) with
  | some m => some m.2
  | none => rows.argmax fun row =>
      toLex ((row.2.publishedAt.map fun at_ => ((at_ : Rat) : WithBot Rat)).getD ⊥, row.2.id)

/-- `_recompute_latest`. -/
def recomputeLatest (seriesId : Nat) : Collection :=
  match s.latestRelease seriesId with
  | none => s
  | some (chapter, release) =>
    { s with
      series := s.series.map fun u =>
        if u.id = seriesId then
          { u with
            latestReleaseNumber := chapter.displayNumber, latestReleaseSource := release.source
            latestReleaseAt := some (release.publishedAt.getD release.firstSeenAt)
            integrityState := .healthy }
        else u }

end Collection

/-! ## The call -/

/-- The arguments of `ingest`; `storageKey` is the one a new series gets. -/
structure IngestCall where
  item : SeriesItem
  chapters : List ChapterItem := []
  storageKey : String := ""
  now : Time := 0
  deriving DecidableEq

namespace Shelf

variable (t : CatalogText) (s : Shelf) (call : IngestCall)

/-- The identity of the call, with the alternate listing when the item is about one. -/
def target : Shelf × CatalogSourceSeries × Option CatalogAlternateSourceListing :=
  match s.locate t call.item call.chapters with
  | .identity i => (s, i, none)
  | .listing i a => (s, i, some a)
  | .equivalent i e =>
    let (s, a) := s.addListing call.item i e
    (s, i, some a)
  | .unknown =>
    let (s, i) := s.addIdentity t call.item call.storageKey
    (s, i, none)

/-- The rows of the identity, its alternate listing and its series. -/
def describe (i : CatalogSourceSeries) (listing : Option CatalogAlternateSourceListing) : Shelf :=
  { s with
    identities := Table.put CatalogSourceSeries.id s.identities
      (observed t i call.item listing.isSome)
    alternates := match listing with
      | none => s.alternates
      | some a => Table.put CatalogAlternateSourceListing.id s.alternates
          { a with title := call.item.title, url := call.item.url }
    series := s.series.map fun u =>
      if u.id = i.seriesId then
        { u with
          description := orText u.description call.item.description
          coverUrl := orText u.coverUrl call.item.coverUrl }
      else u }

/-- The rows that hang on the identity. -/
def sync (i : CatalogSourceSeries) : Shelf :=
  let s := ((s.syncAliases t i.seriesId i.id call.item.aliases).syncExternalIds i.seriesId i.id
    call.item.externalIds).upsertChapters t i.seriesId i.id call.chapters call.now
  { s with toCollection := s.toCollection.recomputeLatest i.seriesId }

/-- Another identity of the provider has the id that the item gives this one. -/
def taken (i : CatalogSourceSeries) (listing : Option CatalogAlternateSourceListing) : Bool :=
  let row := observed t i call.item listing.isSome
  s.identities.any fun j => j.id != i.id && j.source == row.source && j.sourceId == row.sourceId

/-- `ingest`, and the id of the identity. -/
def ingest : Except IngestError (Shelf × Nat) :=
  let (s, i, listing) := s.target t call
  if (s.series? i.seriesId).isNone then .error (.seriesMissing i.seriesId)
  else if s.taken t call i listing then .error .integrity
  else .ok ((s.describe t call i listing).sync t call i, i.id)

end Shelf

end MangaManager
