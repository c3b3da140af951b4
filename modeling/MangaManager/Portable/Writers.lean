import MangaManager.Lib.Run
import MangaManager.Matches.Review
import MangaManager.Portable.Kept
import MangaManager.Portable.Recovery
import MangaManager.Web.SeriesState

/-!
# The writers of the catalog

Ingest, recovery, status changes and reviews in any order. Each keeps what the export needs of the
tables, when ingest is given what a snapshot could hold and recovery creates no identity: the row
that `_apply` creates has no url, and the models ask for one.
-/

namespace MangaManager

open Lib

/-! ## Status changes -/

namespace Shelf

variable {s : Shelf} {c : Collection} {now : Time} {u v : CatalogSeries}

/-- A collection of other plans, jobs and reading states, and with the titles of before. -/
theorem Elsewhere.of_library (hlib : s.toCatalog.SameLibrary c.toCatalog)
    (htitles : c.series.map seriesTitle = s.series.map seriesTitle)
    (hidentifiers : c.identifiers = s.identifiers) (haliases : c.aliases = s.aliases)
    (halternates : c.alternates = s.alternates) (hdecisions : c.decisions = s.decisions) :
    Elsewhere s { s with toCollection := c } :=
  ⟨hlib.identities, rfl, htitles, rfl, hidentifiers, rfl, haliases, halternates, hlib.chapters,
    congrArg _ hdecisions⟩

/-- A row is written with the title that it has. -/
theorem put_titles (hk : Table.Keyed CatalogSeries.id s.series) (hu : u ∈ s.series)
    (h : seriesTitle v = seriesTitle u) :
    (Table.put CatalogSeries.id s.series v).map seriesTitle = s.series.map seriesTitle :=
  Table.map_put hk hu (seriesTitle_eq.mp h).1.symm h

theorem Elsewhere.put (hk : Table.Keyed CatalogSeries.id s.series) (hu : u ∈ s.series)
    (h : seriesTitle v = seriesTitle u) :
    Elsewhere s { s with series := Table.put CatalogSeries.id s.series v } :=
  ⟨rfl, rfl, put_titles hk hu h, rfl, rfl, rfl, rfl, rfl, rfl, rfl⟩

theorem Elsewhere.markSeriesRead (hk : Table.Keyed CatalogSeries.id s.series) (hu : u ∈ s.series)
    (h : s.toCollection.markSeriesRead now u = .ok c) :
    Elsewhere s { s with toCollection := c } := by
  obtain ⟨⟨queue, jobId, new⟩, -, rfl⟩ := map_eq_ok.mp h
  exact .of_library ⟨rfl, rfl, rfl, rfl⟩ (put_titles hk hu rfl) rfl rfl rfl rfl

theorem Elsewhere.readAll {seriesId : Nat} (hk : Table.Keyed CatalogSeries.id s.series)
    (h : s.toCollection.readAll now seriesId = .ok c) :
    Elsewhere s { s with toCollection := c } := by
  unfold Collection.readAll at h
  split at h
  · cases h
  · rename_i u hu
    split at h
    · cases h
    · rename_i c' hread
      cases h
      exact .markSeriesRead hk (Table.get_mem hu) hread

theorem Elsewhere.changeSeries {seriesId : Nat} {status : SeriesStatus}
    (hk : Table.Keyed CatalogSeries.id s.series)
    (h : s.toCollection.changeSeries now seriesId status = .ok c) :
    Elsewhere s { s with toCollection := c } := by
  unfold Collection.changeSeries at h
  split at h
  · cases h
  · rename_i u hu
    have hmem := Table.get_mem hu
    have h₁ : Elsewhere s
        { s with series := Table.put CatalogSeries.id s.series { u with status := status } } :=
      .put hk hmem rfl
    have hnew : ({ u with status := status } : CatalogSeries) ∈
        Table.put CatalogSeries.id s.series { u with status := status } :=
      Table.mem_put_self hmem rfl
    dsimp only at h
    split at h
    · cases h
    · rename_i c₁ hread
      -- the chapters of a series that is caught up are read
      have h₂ : Elsewhere s { s with toCollection := c₁ } := by
        split at hread
        · exact h₁.trans (.markSeriesRead (h₁.keyed hk) hnew hread)
        · cases hread
          exact h₁
      split at h
      · cases h
      · rename_i c₂ htrack
        have hlib : c₁.toCatalog.SameLibrary c₂ := by
          split at htrack
          · exact Catalog.track_library htrack
          · cases htrack
            exact Catalog.untrack_library
        split at h
        · cases h
        · cases h
          refine h₂.trans (.of_library ?_ rfl rfl rfl rfl rfl)
          exact ⟨hlib.identities, hlib.chapters, hlib.artifacts, hlib.nextArtifact⟩

end Shelf

/-! ## Match decisions -/

namespace Shelf

variable {t : PortableText} {s : Shelf} {now : Time}

theorem Exportable.proposeByCover (hs : s.Exportable t)
    (similar : CatalogSourceSeries → CatalogSourceSeries → Bool) (sourceSeriesId : Nat) :
    (s.proposeByCover similar sourceSeriesId).Exportable t := by
  unfold Shelf.proposeByCover
  split
  · exact hs
  · refine hs.withDecisions _ fun d hd => ?_
    rcases List.mem_append.mp hd with hd | hd
    · exact hs.decision d hd
    · obtain ⟨⟨c, n⟩, hcn, rfl⟩ := List.mem_map.mp hd
      have hmem := (List.mem_filter.mp (List.fst_mem_of_mem_zipIdx hcn)).1
      rw [List.mem_insertionSort, List.mem_filter] at hmem
      simp only [Bool.and_eq_true, bne_iff_ne] at hmem
      have hne := hmem.2.1.1.1
      dsimp only at hne ⊢
      omega

theorem Exportable.review {action : MatchAction} {decisionIds seriesIds : List Nat} {c : Collection}
    (hs : s.Exportable t)
    (h : s.toCollection.review t.toTextLib action decisionIds seriesIds now = .ok c) :
    ({ s with toCollection := c } : Shelf).Exportable t := by
  unfold Collection.review at h
  dsimp only at h
  split at h
  · cases h
  · have hdecided : ({ s with
        decisions := s.decisions.map fun d =>
          if d.id ∈ (s.decisions.filter fun d =>
              d.id ∈ decisionIds && d.decision == .pending).map (·.id) then
            { d with decision := .decided action }
          else d } : Shelf).Exportable t := by
      refine hs.withDecisions s.nextDecision fun d hd => ?_
      obtain ⟨d₀, hd₀, rfl⟩ := List.mem_map.mp hd
      split
      · exact hs.decision d₀ hd₀
      · exact hs.decision d₀ hd₀
    cases action with
    | rejected =>
      cases h
      exact hdecided
    | accepted =>
      dsimp only at h
      split at h
      · cases h
      · rename_i c' target hmerge
        cases h
        exact hdecided.merge hmerge

end Shelf

/-! ## Recovery -/

/-- The old database has no provider for the series that the record creates. -/
def RecoveryRecord.CreatesNone (legacy : List LegacyRow) (record : RecoveryRecord) : Prop :=
  record.action = .createTrack → ∀ row, legacy.find? (·.id == record.legacyId) = some row →
    ∀ e ∈ row.identities, e.1 ∉ providerNames

namespace Recovering

variable {t : PortableText} {x y : Recovering} {now : Time}

/-- The tables can be exported, also when the pairs are in them; and they hold the providers'
states of before. -/
structure Exportable (t : PortableText) (s : Installation) (x : Recovering) : Prop where
  tables : x.tables.toShelf.Exportable t
  states : x.tables.sourceStates = s.sourceStates
  pairs : ∀ p ∈ x.pairs, p.1 ≠ p.2

variable {s : Installation}

theorem Exportable.flush (hx : x.Exportable t s) (h : x.flush = .ok y) : y.Exportable t s := by
  unfold Recovering.flush at h
  split at h
  · cases h
  · cases h
    refine ⟨hx.tables.withDecisions _ fun d hd => ?_, hx.states, by simp⟩
    rcases List.mem_append.mp hd with hd | hd
    · exact hx.tables.decision d hd
    · obtain ⟨⟨p, n⟩, hpn, rfl⟩ := List.mem_map.mp hd
      exact hx.pairs p (List.fst_mem_of_mem_zipIdx hpn)

theorem Exportable.restore {seriesId : Nat} (hx : x.Exportable t s)
    (h : x.restore now seriesId = .ok y) : y.Exportable t s := by
  unfold Recovering.restore at h
  split at h
  · cases h
  · rename_i x₁ hflush
    have h₁ := hx.flush hflush
    split at h
    · cases h
    · rename_i c htrack
      have hlib := Catalog.track_library htrack
      split at h
      · cases h
      · cases h
        refine ⟨h₁.tables.elsewhere ?_, h₁.states, h₁.pairs⟩
        exact ⟨hlib.identities, rfl, rfl, rfl, rfl, rfl, rfl, rfl, hlib.chapters, rfl⟩

theorem Exportable.trackSeries {status : String} {seriesId : Nat} (hx : x.Exportable t s)
    (h : x.trackSeries now status seriesId = .ok y) : y.Exportable t s := by
  unfold Recovering.trackSeries at h
  split at h
  · cases h
    exact hx
  · rename_i u hu
    refine Exportable.restore ?_ h
    have hput : Shelf.Elsewhere x.tables.toShelf { x.tables.toShelf with
        series := Table.put CatalogSeries.id x.tables.series
          { u with status := restoredStatus status } } :=
      .put hx.tables.homes.series (Table.get_mem hu) rfl
    exact ⟨hx.tables.elsewhere hput, hx.states, hx.pairs⟩

theorem Exportable.reviewSeries {status : String} {seriesId : Nat} (hx : x.Exportable t s)
    (h : Recovering.reviewSeries now status x seriesId = .ok y) : y.Exportable t s := by
  unfold Recovering.reviewSeries at h
  split at h
  · cases h
    exact hx
  · split at h
    · exact hx.trackSeries h
    · cases h
      exact hx

/-- The identities of a pair have different providers. -/
theorem reviewPair_ne (hk : Table.Keyed CatalogSourceSeries.id x.tables.identities)
    {left right : Nat} {l r : CatalogSourceSeries} (h : x.reviewPair left right = some (l, r)) :
    l.id ≠ r.id := by
  have hsource := List.find?_some h
  obtain ⟨l', hl, hpair⟩ := List.mem_flatMap.mp (List.mem_of_find?_eq_some h)
  obtain ⟨r', hr, he⟩ := List.mem_map.mp hpair
  cases he
  intro hid
  obtain rfl := hk.eq (List.mem_filter.mp hl).1 (List.mem_filter.mp hr).1 hid
  simp at hsource

theorem createReviewPairs_ne (hk : Table.Keyed CatalogSourceSeries.id x.tables.identities)
    {ids : List Nat} : ∀ p ∈ x.createReviewPairs ids, p.1 ≠ p.2 := by
  induction ids with
  | nil => simp [createReviewPairs]
  | cons left rest ih =>
    intro p hp
    rcases List.mem_append.mp hp with hp | hp
    · obtain ⟨right, -, hright⟩ := List.mem_filterMap.mp hp
      obtain ⟨⟨l, r⟩, hpair, hnew⟩ := Option.bind_eq_some_iff.mp hright
      have hne := reviewPair_ne hk hpair
      dsimp only at hnew
      split at hnew
      · cases hnew
      · cases hnew
        dsimp only
        omega
    · exact ih p hp

theorem Exportable.createIdentity {title : String} {seriesId : Nat} {e : String × String}
    (hx : x.Exportable t s) (he : e.1 ∉ providerNames)
    (h : Recovering.createIdentity t.toCatalogText title seriesId x e = .ok y) :
    y.Exportable t s := by
  unfold Recovering.createIdentity at h
  dsimp only at h
  rw [if_pos he] at h
  cases h
  exact hx

theorem Exportable.createSeries {keys : Nat → String} {record : RecoveryRecord}
    {identities : List (String × String)} (hx : x.Exportable t s)
    (hno : ∀ e ∈ identities, e.1 ∉ providerNames)
    (h : x.createSeries t.toCatalogText now keys record identities = .ok y) : y.Exportable t s := by
  unfold Recovering.createSeries at h
  split at h
  · cases h
  · rename_i x₁ hflush
    have h₁ := hx.flush hflush
    dsimp only at h
    split at h
    · cases h
    · rename_i x₂ hfold
      refine Exportable.restore ?_ h
      refine foldlM_inv (P := Exportable t s) hfold
        ⟨h₁.tables.withSeries rfl, h₁.states, h₁.pairs⟩ ?_
      intro x e y he hx hy
      exact hx.createIdentity (hno e he) hy

theorem Exportable.applyRecord {keys : Nat → String} {legacy : List LegacyRow}
    {record : RecoveryRecord} (hx : x.Exportable t s) (hno : record.CreatesNone legacy)
    (h : Recovering.applyRecord t.toCatalogText now keys legacy x record = .ok y) :
    y.Exportable t s := by
  unfold Recovering.applyRecord at h
  split at h
  · cases h
    exact hx
  · split at h
    · cases h
    · exact hx.trackSeries h
  · split at h
    · cases h
    · rename_i x₁ hfold
      cases h
      have h₁ : x₁.Exportable t s := foldlM_inv (P := Exportable t s) hfold hx
        fun _ _ _ _ hx hy => hx.reviewSeries hy
      refine ⟨h₁.tables, h₁.states, fun p hp => ?_⟩
      rcases List.mem_append.mp hp with hp | hp
      · exact h₁.pairs p hp
      · exact createReviewPairs_ne h₁.tables.homes.keyed p hp
  · rename_i hcreate
    split at h
    · cases h
    · rename_i row hrow
      exact hx.createSeries (hno hcreate row hrow) h

end Recovering

theorem Installation.applyRecovery_exportable {t : PortableText} {s s' : Installation}
    {keys : Nat → String} {legacy : List LegacyRow} {records : List RecoveryRecord} {now : Time}
    (hs : s.toShelf.Exportable t) (hno : ∀ record ∈ records, record.CreatesNone legacy)
    (h : s.applyRecovery t.toCatalogText keys legacy records now = .ok s') :
    s'.toShelf.Exportable t ∧ s'.sourceStates = s.sourceStates := by
  unfold Installation.applyRecovery at h
  split at h
  · cases h
  · rename_i x hfold
    have hx : x.Exportable t s := foldlM_inv (P := Recovering.Exportable t s) hfold
      ⟨hs, rfl, by simp⟩ fun _ record _ hr hx hy => hx.applyRecord (hno record hr) hy
    split at h
    · cases h
    · rename_i x₁ hflush
      have h₁ := hx.flush hflush
      dsimp only at h
      split at h
      · cases h
      · cases h
        refine ⟨h₁.tables.elsewhere ?_, h₁.states⟩
        exact ⟨rfl, rfl, rfl, rfl, rfl, rfl, rfl, rfl, rfl, rfl⟩

/-! ## Runs -/

/-- A call that writes the catalog; `other` is one that writes other tables. -/
inductive CatalogCall where
  | ingest (call : IngestCall)
  | recover (keys : Nat → String) (legacy : List LegacyRow) (records : List RecoveryRecord)
      (now : Time)
  | changeSeries (seriesId : Nat) (status : SeriesStatus) (now : Time)
  | readAll (seriesId : Nat) (now : Time)
  | propose (similar : CatalogSourceSeries → CatalogSourceSeries → Bool) (sourceSeriesId : Nat)
  | review (action : MatchAction) (decisionIds seriesIds : List Nat) (now : Time)
  | other (s : Installation)

namespace CatalogCall

variable (t : PortableText) (s : Installation)

/-- What a call raises rolls it back. -/
def apply : CatalogCall → Installation
  | .ingest call => match s.toShelf.ingest t.toCatalogText call with
    | .ok (shelf, _) => { s with toShelf := shelf }
    | .error _ => s
  | .recover keys legacy records now =>
    match s.applyRecovery t.toCatalogText keys legacy records now with
    | .ok s => s
    | .error _ => s
  | .changeSeries seriesId status now =>
    match s.toCollection.changeSeries now seriesId status with
    | .ok c => { s with toCollection := c }
    | .error _ => s
  | .readAll seriesId now => match s.toCollection.readAll now seriesId with
    | .ok c => { s with toCollection := c }
    | .error _ => s
  | .propose similar sourceSeriesId =>
    { s with toShelf := s.toShelf.proposeByCover similar sourceSeriesId }
  | .review action decisionIds seriesIds now =>
    match s.toCollection.review t.toTextLib action decisionIds seriesIds now with
    | .ok c => { s with toCollection := c }
    | .error _ => s
  | .other s => s

/-- The other tables are written, and the states of providers. -/
def Allowed : CatalogCall → Prop
  | .other s' => Shelf.Elsewhere s.toShelf s'.toShelf ∧
    ∀ p ∈ s'.sourceStates, isSourceField p.source = true
  | _ => True

/-- What is ingested could be in a snapshot, and recovery creates no identity. -/
def Portable : CatalogCall → Prop
  | .ingest call => call.Portable t
  | .recover _ legacy records _ => ∀ record ∈ records, record.CreatesNone legacy
  | _ => True

end CatalogCall

def CatalogStep (t : PortableText) (s : Installation) (call : CatalogCall) (s' : Installation) :
    Prop :=
  call.Allowed s ∧ s' = call.apply t s

/-- What the export needs. -/
def Installation.CanExport (t : PortableText) (s : Installation) : Prop :=
  s.toShelf.Exportable t ∧ ∀ p ∈ s.sourceStates, isSourceField p.source = true

theorem Installation.canExport_init (t : PortableText) : ({} : Installation).CanExport t := by
  refine ⟨⟨⟨?_, ?_, ?_, ?_, ?_, ?_⟩, ?_, ?_, ⟨?_, ?_, ?_, ?_⟩, ?_, ?_, ?_, ?_, ?_, ?_, ?_⟩, ?_⟩ <;>
    simp [Table.Keyed]

theorem CatalogStep.canExport {t : PortableText} {s s' : Installation} {call : CatalogCall}
    (hs : s.CanExport t) (hp : call.Portable t) (h : CatalogStep t s call s') :
    s'.CanExport t := by
  obtain ⟨hallowed, rfl⟩ := h
  obtain ⟨hshelf, hstates⟩ := hs
  have hkeyed := hshelf.homes.series
  cases call with
  | ingest call =>
    unfold CatalogCall.apply
    dsimp only
    split
    · rename_i shelf id hok
      exact ⟨hshelf.ingest hp hok, hstates⟩
    · exact ⟨hshelf, hstates⟩
  | recover keys legacy records now =>
    unfold CatalogCall.apply
    dsimp only
    split
    · rename_i s₁ hok
      obtain ⟨h₁, he⟩ := Installation.applyRecovery_exportable hshelf hp hok
      exact ⟨h₁, he ▸ hstates⟩
    · exact ⟨hshelf, hstates⟩
  | changeSeries seriesId status now =>
    unfold CatalogCall.apply
    dsimp only
    split
    · rename_i c hok
      exact ⟨hshelf.elsewhere (.changeSeries hkeyed hok), hstates⟩
    · exact ⟨hshelf, hstates⟩
  | readAll seriesId now =>
    unfold CatalogCall.apply
    dsimp only
    split
    · rename_i c hok
      exact ⟨hshelf.elsewhere (.readAll hkeyed hok), hstates⟩
    · exact ⟨hshelf, hstates⟩
  | propose similar sourceSeriesId => exact ⟨hshelf.proposeByCover similar sourceSeriesId, hstates⟩
  | review action decisionIds seriesIds now =>
    unfold CatalogCall.apply
    dsimp only
    split
    · rename_i c hok
      exact ⟨hshelf.review hok, hstates⟩
    · exact ⟨hshelf, hstates⟩
  | other s' => exact ⟨hshelf.elsewhere hallowed.1, hallowed.2⟩

/-- In a run that ingests what a snapshot could hold, and in which recovery creates no identity,
every state can be exported. -/
theorem export_succeeds {t : PortableText} {tr : List (Installation × CatalogCall)}
    {s : Installation} (hrun : Run (CatalogStep t) {} tr s)
    (hc : Run.Meets (fun _ call => call.Portable t) tr) :
    ∀ x, Run.Visits tr s x → ∃ h, x.exportPortableState t = .ok ⟨x.exported, h⟩ := by
  intro x hx
  have hok : x.CanExport t := hrun.invariant_visits hc (Installation.canExport_init t)
    (fun _ _ _ hp hs hstep => hstep.canExport hs hp) x hx
  have hvalid := Installation.Exportable.valid hok.1 hok.2
  exact ⟨hvalid, by rw [Installation.exportPortableState, dif_pos hvalid]⟩

/-- A title of two providers, which the catalog has twice at first. -/
def soloMangadex : IngestCall where
  item :=
    { source := "mangadex", sourceId := "m-1", title := "Solo"
      url := "https://mangadex.org/title/m-1", aliases := ["Solo Max"]
      externalIds := [("anilist", "7")] }
  chapters := [{ source := "mangadex", number := "1", url := "https://mangadex.org/chapter/1" }]
  storageKey := "a"

def soloMangafire : IngestCall where
  item :=
    { source := "mangafire", sourceId := "f-1", title := "Solo", url := "https://mangafire.to/f-1" }
  chapters := [{ source := "mangafire", number := "2", url := "https://mangafire.to/2" }]
  storageKey := "b"

/-- The old database has it too. -/
def soloLegacy : List LegacyRow :=
  [{ id := 1, title := "Solo", status := "reading", identities := [("mangadex", "m-1")] }]

def soloRecords : List RecoveryRecord :=
  [{ legacyId := 1, title := "Solo", legacyStatus := "reading", action := .track, seriesIds := [1]
     evidence := "provider_identity" }]

def soloCalls : List CatalogCall :=
  [.ingest soloMangadex, .ingest soloMangafire, .recover (fun _ => "c") soloLegacy soloRecords 5,
    .changeSeries 2 .reading 6, .review .accepted [1] [1, 2] 7]

/-- The merged series is exported with both identities. -/
theorem solo_export_succeeds : ∃ tr s, Run (CatalogStep asciiPortable) {} tr s ∧
    s.exported.series.map (fun u => u.sources.map (·.source)) = [["mangadex", "mangafire"]] ∧
    ∃ h, s.exportPortableState asciiPortable = .ok ⟨s.exported, h⟩ := by
  have hrun : Run (CatalogStep asciiPortable) {}
      (Run.history (fun s call => call.apply asciiPortable s) {} soloCalls)
      (soloCalls.foldl (fun s call => call.apply asciiPortable s) {}) := by
    refine Run.of_foldl _ _ fun x hx => ⟨?_, rfl⟩
    simp only [soloCalls, Run.history, List.mem_cons, List.not_mem_nil, or_false] at hx
    rcases hx with rfl | rfl | rfl | rfl | rfl <;> trivial
  refine ⟨_, _, hrun, by decide +kernel, export_succeeds hrun (fun x hx => ?_) _ Run.visits_last⟩
  simp only [soloCalls, Run.history, List.mem_cons, List.not_mem_nil, or_false] at hx
  rcases hx with rfl | rfl | rfl | rfl | rfl
  · exact ⟨by decide, by decide, by decide, by decide, by decide, by decide, by decide, by decide,
      by decide, by decide, by decide⟩
  · exact ⟨by decide, by decide, by decide, by decide, by decide, by decide, by decide, by decide,
      by decide, by decide, by decide⟩
  · intro record hrecord hcreate
    obtain rfl := List.mem_singleton.mp hrecord
    cases hcreate
  · trivial
  · trivial

/-- The title that recovery makes a series of has an identity without a url. -/
theorem recovered_not_exported : ¬ ∀ (t : PortableText) (tr : List (Installation × CatalogCall))
    (s : Installation), Run (CatalogStep t) {} tr s →
      ∃ h, s.exportPortableState t = .ok ⟨s.exported, h⟩ := by
  intro hall
  let call : CatalogCall := .recover (fun _ => "c") soloLegacy
    (({} : Installation).recoveryRecords asciiCatalog soloLegacy) 5
  obtain ⟨h, -⟩ := hall asciiPortable _ _
    (.snoc .nil (⟨trivial, rfl⟩ : CatalogStep asciiPortable {} call _))
  exact absurd h (by decide +kernel)

end MangaManager
