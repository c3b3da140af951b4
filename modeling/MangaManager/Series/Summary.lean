import MangaManager.Series.Idempotent
import MangaManager.Series.Latest

/-!
# The latest release over runs

An ingest computes the columns of the latest release of its series again, and leaves the releases
of the other series alone. With the rounds of the merges that gives `latest_always`: in a run of
ingests and merges in which the later row of each round agrees with the releases of both
series, the columns of every series are those that `_recompute_latest` would write.
-/

namespace MangaManager

open Lib

namespace Collection

variable {s s' : Collection}

theorem Housed.of_tables (h : s.Housed) (hser : Table.Keyed CatalogSeries.id s'.series)
    (hid : Table.Keyed CatalogSourceSeries.id s'.identities)
    (hj : ∀ j ∈ s.identities, ∃ j' ∈ s'.identities, j'.id = j.id ∧ j'.seriesId = j.seriesId)
    (hc : s'.chapters = s.chapters) (hr : s'.releases = s.releases) : s'.Housed := by
  refine ⟨hser, hid, ⟨hc ▸ h.chapters.keyed, hc ▸ h.chapters.numbers⟩, hr ▸ h.releases,
    fun r hm => ?_⟩
  obtain ⟨j, hjm, hjid, n, c, hcm, hcid, hcu, hcn⟩ := h.home r (hr ▸ hm)
  obtain ⟨j', hjm', hjid', hju⟩ := hj j hjm
  exact ⟨j', hjm', hjid'.trans hjid, n, c, hc ▸ hcm, hcid, hcu.trans hju.symm, hcn⟩

/-- `_recompute_latest` puts the columns of its series right. -/
theorem recomputeLatest_latestOk {seriesId : Nat} (h : ∀ u ∈ s.series, u.id ≠ seriesId →
    ∀ p, s.latestRelease u.id = some p → u.latest = latestOf p) :
    (s.recomputeLatest seriesId).LatestOk := by
  unfold recomputeLatest
  cases hl : s.latestRelease seriesId with
  | none =>
    intro u hu p hp
    by_cases he : u.id = seriesId
    · rw [he, hl] at hp
      cases hp
    · exact h u hu he p hp
  | some row =>
    intro u' hu' p hp
    obtain ⟨u, hu, rfl⟩ := List.mem_map.mp hu'
    by_cases he : u.id = seriesId
    · rw [if_pos he] at hp ⊢
      have hp' : s.latestRelease u.id = some p := hp
      rw [he, hl] at hp'
      obtain rfl := Option.some.inj hp'
      rfl
    · rw [if_neg he] at hp ⊢
      exact h u hu he p hp

end Collection

namespace Shelf

variable {t : CatalogText} {s s' : Shelf} {call : IngestCall} {id seriesId identityId : Nat}
  {now : Time}

/-- Rows with primary keys, below the next ones. -/
structure Summed (s : Shelf) : Prop where
  housed : s.toCollection.Housed
  newSeries : ∀ u ∈ s.series, u.id < s.nextSeries
  newIdentity : ∀ j ∈ s.identities, j.id < s.nextIdentity
  newChapter : ∀ c ∈ s.chapters, c.id < s.nextChapter
  newRelease : ∀ r ∈ s.releases, r.id < s.lastRelease + 1

/-! ## The identity of the item -/

/-- What is there before the identity is described: its series and itself may be new. -/
structure Opened (s s' : Shelf) (seriesId : Nat) : Prop where
  summed : s'.Summed
  series : ∀ u ∈ s'.series, u ∈ s.series ∨ u.id = seriesId
  chapters : s'.chapters = s.chapters
  releases : s'.releases = s.releases

theorem addSeries_opened (hs : s.Summed) (item : SeriesItem) (key : String) :
    Opened s (s.addSeries t item key).1 (s.addSeries t item key).2 := by
  unfold addSeries
  split
  · exact ⟨hs, fun u hu => .inl hu, rfl, rfl⟩
  · have hkeyed : Table.Keyed CatalogSeries.id (s.series ++ [{
        id := s.nextSeries, storageKey := key, title := item.title
        normalizedTitle := t.normalizeTitle item.title, description := item.description
        coverUrl := item.coverUrl }]) :=
      Table.keyed_append.mpr ⟨hs.housed.series, fun u hu => (hs.newSeries u hu).ne⟩
    refine ⟨⟨hs.housed.of_tables hkeyed hs.housed.identities (fun j hj => ⟨j, hj, rfl, rfl⟩) rfl
      rfl, fresh_append hs.newSeries rfl, hs.newIdentity, hs.newChapter, hs.newRelease⟩,
      fun u hu => ?_, rfl, rfl⟩
    rcases List.mem_append.mp hu with hu | hu
    · exact .inl hu
    · rw [List.mem_singleton.mp hu]
      exact .inr rfl

theorem addIdentity_opened (hs : s.Summed) (item : SeriesItem) (key : String) :
    Opened s (s.addIdentity t item key).1 (s.addIdentity t item key).2.seriesId := by
  have h := addSeries_opened (t := t) hs item key
  unfold addIdentity
  rcases hadd : s.addSeries t item key with ⟨s₁, seriesId⟩
  rw [hadd] at h
  obtain ⟨h₁, hseries, hc, hr⟩ := h
  refine ⟨⟨h₁.housed.of_tables h₁.housed.series ?_ (fun j hj => ?_) rfl rfl, h₁.newSeries,
    fresh_append h₁.newIdentity rfl, h₁.newChapter, h₁.newRelease⟩, hseries, hc, hr⟩
  · exact Table.keyed_append.mpr ⟨h₁.housed.identities, fun j hj => (h₁.newIdentity j hj).ne⟩
  · exact ⟨j, List.mem_append_left _ hj, rfl, rfl⟩

theorem target_opened (hs : s.Summed) (call : IngestCall) :
    Opened s (s.target t call).1 (s.target t call).2.1.seriesId := by
  unfold target
  split
  · exact ⟨hs, fun u hu => .inl hu, rfl, rfl⟩
  · exact ⟨hs, fun u hu => .inl hu, rfl, rfl⟩
  · exact ⟨⟨hs.housed.of_tables hs.housed.series hs.housed.identities
      (fun j hj => ⟨j, hj, rfl, rfl⟩) rfl rfl, hs.newSeries, hs.newIdentity, hs.newChapter,
      hs.newRelease⟩, fun u hu => .inl hu, rfl, rfl⟩
  · exact addIdentity_opened hs call.item call.storageKey

theorem describe_summed (hs : s.Summed) {i : CatalogSourceSeries} (hi : i ∈ s.identities)
    (listing : Option CatalogAlternateSourceListing) : (s.describe t call i listing).Summed := by
  obtain ⟨hoid, hou, -⟩ := observed_same t i call.item listing.isSome
  obtain ⟨f, hf, hseries⟩ := describe_series t s call i listing
  have hkeyed : Table.Keyed CatalogSeries.id (s.describe t call i listing).series := by
    rw [hseries]
    refine hs.housed.series.map fun x _ y _ he => ?_
    rwa [(hf x).1, (hf y).1] at he
  refine ⟨hs.housed.of_tables hkeyed (Table.keyed_put.mpr hs.housed.identities) (fun j hj => ?_)
    rfl rfl, fun u hu => ?_, fun j hj => ?_, hs.newChapter, hs.newRelease⟩
  · by_cases he : j.id = i.id
    · obtain rfl := hs.housed.identities.eq hj hi he
      exact ⟨_, Table.mem_put_self hj hoid.symm, hoid, hou⟩
    · exact ⟨j, Table.mem_put_of_ne hj (hoid ▸ he), rfl, rfl⟩
  · rw [hseries] at hu
    obtain ⟨u₀, hu₀, rfl⟩ := List.mem_map.mp hu
    rw [(hf u₀).1]
    exact hs.newSeries u₀ hu₀
  · rcases Table.mem_put.mp hj with ⟨rfl, -⟩ | ⟨hj, -⟩
    · rw [hoid]
      exact hs.newIdentity i hi
    · exact hs.newIdentity j hj

/-! ## The chapters and the releases -/

/-- The chapters, while those of a series are found or added. -/
structure ChaptersLoop (seriesId : Nat) (chapters : List CatalogChapter)
    (acc : List CatalogChapter × Nat) : Prop where
  keyed : Table.Keyed CatalogChapter.id acc.1
  fresh : ∀ c ∈ acc.1, c.id < acc.2
  others : ∀ c, c.seriesId ≠ seriesId → (c ∈ acc.1 ↔ c ∈ chapters)
  stays : ∀ c ∈ chapters, ∃ c' ∈ acc.1, c'.id = c.id ∧ c'.seriesId = c.seriesId ∧
    c'.canonicalNumber = c.canonicalNumber

theorem upsertChapter_loop {chapters : List CatalogChapter} {acc : List CatalogChapter × Nat}
    (h : ChaptersLoop seriesId chapters acc) (row : String × ChapterItem) :
    ChaptersLoop seriesId chapters (upsertChapter t seriesId now acc row) := by
  unfold upsertChapter
  dsimp only
  split
  · have hsame : ∀ c : CatalogChapter,
        (if (c.seriesId == seriesId && c.canonicalNumber == row.1) = true then
          { c with title := orText c.title row.2.title } else c).id = c.id ∧
        (if (c.seriesId == seriesId && c.canonicalNumber == row.1) = true then
          { c with title := orText c.title row.2.title } else c).seriesId = c.seriesId ∧
        (if (c.seriesId == seriesId && c.canonicalNumber == row.1) = true then
          { c with title := orText c.title row.2.title } else c).canonicalNumber =
            c.canonicalNumber := fun c => by split <;> exact ⟨rfl, rfl, rfl⟩
    refine ⟨h.keyed.map fun x _ y _ he => ?_, fun c hc => ?_, fun c hu => ?_, fun c hc => ?_⟩
    · rwa [(hsame x).1, (hsame y).1] at he
    · obtain ⟨c₀, hc₀, rfl⟩ := List.mem_map.mp hc
      rw [(hsame c₀).1]
      exact h.fresh c₀ hc₀
    · rw [← h.others c hu, List.mem_map]
      constructor
      · rintro ⟨c₀, hc₀, he⟩
        have hu₀ : c₀.seriesId ≠ seriesId := by
          rw [← (hsame c₀).2.1, he]
          exact hu
        rw [if_neg (by simp [hu₀])] at he
        exact he ▸ hc₀
      · exact fun hc => ⟨c, hc, if_neg (by simp [hu])⟩
    · obtain ⟨c', hc', hid, hu, hn⟩ := h.stays c hc
      obtain ⟨h₁, h₂, h₃⟩ := hsame c'
      exact ⟨_, List.mem_map_of_mem hc', h₁.trans hid, h₂.trans hu, h₃.trans hn⟩
  · refine ⟨Table.keyed_append.mpr ⟨h.keyed, fun c hc => (h.fresh c hc).ne⟩,
      fresh_append h.fresh rfl, fun c hu => ?_, fun c hc => ?_⟩
    · rw [← h.others c hu, List.mem_append, List.mem_singleton]
      exact or_iff_left fun he => hu (by rw [he])
    · obtain ⟨c', hc', hsame⟩ := h.stays c hc
      exact ⟨c', List.mem_append_left _ hc', hsame⟩

/-- The releases, while those of an identity are found or added. -/
structure ReleasesLoop (seriesId identityId : Nat) (chapters : List CatalogChapter)
    (releases : List ReleaseRow) (acc : List ReleaseRow × Nat) : Prop where
  keyed : Table.Keyed (fun r : ReleaseRow => r.id) acc.1
  fresh : ∀ r ∈ acc.1, r.id < acc.2 + 1
  others : ∀ r, r.sourceSeriesId ≠ identityId → (r ∈ acc.1 ↔ r ∈ releases)
  own : ∀ r ∈ acc.1, r.sourceSeriesId = identityId →
    ∃ c ∈ chapters, c.id = r.chapterId ∧ c.seriesId = seriesId

theorem upsertRelease_loop {chapters : List CatalogChapter} {releases : List ReleaseRow}
    {acc : List ReleaseRow × Nat} (h : ReleasesLoop seriesId identityId chapters releases acc)
    (row : String × ChapterItem) : ReleasesLoop seriesId identityId chapters releases
      (upsertRelease chapters seriesId identityId now acc row) := by
  unfold upsertRelease
  dsimp only
  split
  · have hsame : ∀ r : ReleaseRow,
        (if (r.sourceSeriesId == identityId && r.sourceReleaseId == row.1) = true then
          r.observe row.2.title row.2.url row.2.publishedAt row.2.qualityRank else r).id = r.id ∧
        (if (r.sourceSeriesId == identityId && r.sourceReleaseId == row.1) = true then
          r.observe row.2.title row.2.url row.2.publishedAt row.2.qualityRank
            else r).sourceSeriesId = r.sourceSeriesId ∧
        (if (r.sourceSeriesId == identityId && r.sourceReleaseId == row.1) = true then
          r.observe row.2.title row.2.url row.2.publishedAt row.2.qualityRank
            else r).chapterId = r.chapterId := fun r => by split <;> exact ⟨rfl, rfl, rfl⟩
    refine ⟨h.keyed.map fun x _ y _ he => ?_, fun r hr => ?_, fun r hu => ?_, fun r hr hid => ?_⟩
    · rwa [(hsame x).1, (hsame y).1] at he
    · obtain ⟨r₀, hr₀, rfl⟩ := List.mem_map.mp hr
      rw [(hsame r₀).1]
      exact h.fresh r₀ hr₀
    · rw [← h.others r hu, List.mem_map]
      constructor
      · rintro ⟨r₀, hr₀, he⟩
        have hu₀ : r₀.sourceSeriesId ≠ identityId := by
          rw [← (hsame r₀).2.1, he]
          exact hu
        rw [if_neg (by simp [hu₀])] at he
        exact he ▸ hr₀
      · exact fun hr => ⟨r, hr, if_neg (by simp [hu])⟩
    · obtain ⟨r₀, hr₀, rfl⟩ := List.mem_map.mp hr
      rw [(hsame r₀).2.1] at hid
      rw [(hsame r₀).2.2]
      exact h.own r₀ hr₀ hid
  · split
    · exact h
    · rename_i chapter hchapter
      have hm := List.mem_of_find?_eq_some hchapter
      obtain ⟨hu, -⟩ : chapter.seriesId = seriesId ∧ chapter.canonicalNumber = row.1 := by
        simpa using List.find?_some hchapter
      refine ⟨Table.keyed_append.mpr ⟨h.keyed, fun r hr => (h.fresh r hr).ne⟩,
        fresh_append h.fresh rfl, fun r hne => ?_, fun r hr hid => ?_⟩
      · rw [← h.others r hne, List.mem_append, List.mem_singleton]
        exact or_iff_left fun he => hne (by rw [he]; rfl)
      · rcases List.mem_append.mp hr with hr | hr
        · exact h.own r hr hid
        · rw [List.mem_singleton.mp hr]
          exact ⟨chapter, hm, rfl, hu⟩

/-- What `_upsert_chapters` leaves: the releases of the other series are as they were. -/
theorem upsertChapters_summed (hs : s.Summed)
    (hi : ∃ j ∈ s.identities, j.id = identityId ∧ j.seriesId = seriesId)
    (items : List ChapterItem) :
    (s.upsertChapters t seriesId identityId items now).Summed ∧
      ∀ u, u ≠ seriesId →
        ((s.upsertChapters t seriesId identityId items now).latestRelease u).map latestOf =
          (s.latestRelease u).map latestOf := by
  obtain ⟨hnumbers, -⟩ := @chapters_settled seriesId t now _ (byNumber_nodup t items)
    (s.chapters, s.nextChapter) hs.housed.chapters.nodup
  have hchapters : ChaptersLoop seriesId s.chapters ((byNumber t items).foldl
      (upsertChapter t seriesId now) (s.chapters, s.nextChapter)) :=
    List.foldlRecOn (motive := ChaptersLoop seriesId s.chapters) _ _
      ⟨hs.housed.chapters.keyed, hs.newChapter, fun _ _ => Iff.rfl,
        fun c hc => ⟨c, hc, rfl, rfl, rfl⟩⟩ fun _ h row _ => upsertChapter_loop h row
  obtain ⟨j, hj, rfl, rfl⟩ := hi
  -- a release of the identity is of a chapter of the series
  have hown : ∀ r ∈ s.releases, r.sourceSeriesId = j.id →
      ∃ c ∈ s.chapters, c.id = r.chapterId ∧ c.seriesId = j.seriesId := by
    intro r hr he
    obtain ⟨k, hk, hkid, n, c, hc, hcid, hcu, -⟩ := hs.housed.home r hr
    rw [hs.housed.identities.eq hk hj (hkid.trans he)] at hcu
    exact ⟨c, hc, hcid, hcu⟩
  generalize hfold : (byNumber t items).foldl (upsertChapter t j.seriesId now)
    (s.chapters, s.nextChapter) = chapters at hnumbers hchapters
  have hreleases : ReleasesLoop j.seriesId j.id chapters.1 s.releases ((byNumber t items).foldl
      (upsertRelease chapters.1 j.seriesId j.id now) (s.releases, s.lastRelease)) := by
    refine List.foldlRecOn (motive := ReleasesLoop j.seriesId j.id chapters.1 s.releases) _ _
      ⟨hs.housed.releases, hs.newRelease, fun _ _ => Iff.rfl, fun r hr he => ?_⟩
      fun _ h row _ => upsertRelease_loop h row
    obtain ⟨c, hc, hid, hu⟩ := hown r hr he
    obtain ⟨c', hc', hid', hu', -⟩ := hchapters.stays c hc
    exact ⟨c', hc', hid'.trans hid, hu'.trans hu⟩
  generalize hfold' : (byNumber t items).foldl (upsertRelease chapters.1 j.seriesId j.id now)
    (s.releases, s.lastRelease) = releases at hreleases
  have hresult : s.upsertChapters t j.seriesId j.id items now = { s with
      chapters := chapters.1, nextChapter := chapters.2
      releases := releases.1, lastRelease := releases.2 } := by
    unfold upsertChapters
    simp only [hfold, hfold']
  rw [hresult]
  have hhoused : ({ s with
      chapters := chapters.1, nextChapter := chapters.2
      releases := releases.1, lastRelease := releases.2 } : Shelf).toCollection.Housed := by
    refine ⟨hs.housed.series, hs.housed.identities, .of_nodup hchapters.keyed hnumbers,
      hreleases.keyed, fun r hr => ?_⟩
    by_cases he : r.sourceSeriesId = j.id
    · obtain ⟨c, hc, hid, hu⟩ := hreleases.own r hr he
      exact ⟨j, hj, he.symm, c.canonicalNumber, c, hc, hid, hu, rfl⟩
    · obtain ⟨k, hk, hkid, n, c, hc, hid, hu, hn⟩ :=
        hs.housed.home r ((hreleases.others r he).mp hr)
      obtain ⟨c', hc', hid', hu', hn'⟩ := hchapters.stays c hc
      exact ⟨k, hk, hkid, n, c', hc', hid'.trans hid, hu'.trans hu, hn'.trans hn⟩
  refine ⟨⟨hhoused, hs.newSeries, hs.newIdentity, hchapters.fresh, hreleases.fresh⟩,
    fun u hu => ?_⟩
  have hsame : SameReleases (s.seriesReleases u) (({ s with
      chapters := chapters.1, nextChapter := chapters.2
      releases := releases.1, lastRelease := releases.2 } : Shelf).seriesReleases u) → _ :=
    hhoused.pick_congr
  refine hsame ⟨fun a ha => ?_, fun b hb => ?_⟩
  · obtain ⟨hr, hc, hid, hcu⟩ := (Collection.mem_seriesReleases hs.housed.chapters.keyed).mp ha
    refine ⟨a, (Collection.mem_seriesReleases hhoused.chapters.keyed).mpr
      ⟨(hreleases.others a.2 fun he => ?_).mpr hr, (hchapters.others a.1 (hcu ▸ hu)).mpr hc, hid,
        hcu⟩, rfl, rfl, rfl, rfl, rfl, rfl⟩
    obtain ⟨c, hcm, hcid, hcu'⟩ := hown a.2 hr he
    rw [hs.housed.chapters.keyed.eq hcm hc (hcid.trans hid.symm), hcu] at hcu'
    exact hu hcu'
  · obtain ⟨hr, hc, hid, hcu⟩ := (Collection.mem_seriesReleases hhoused.chapters.keyed).mp hb
    refine ⟨b, (Collection.mem_seriesReleases hs.housed.chapters.keyed).mpr
      ⟨(hreleases.others b.2 fun he => ?_).mp hr, (hchapters.others b.1 (hcu ▸ hu)).mp hc, hid,
        hcu⟩, rfl, rfl, rfl, rfl, rfl, rfl⟩
    obtain ⟨c, hcm, hcid, hcu'⟩ := hreleases.own b.2 hr he
    rw [hchapters.keyed.eq hcm hc (hcid.trans hid.symm), hcu] at hcu'
    exact hu hcu'

/-- A call of `ingest` puts the columns of its series right, and leaves the others. -/
theorem ingest_latestOk (hs : s.Summed) (hl : s.toCollection.LatestOk)
    (h : s.ingest t call = .ok (s', id)) : s'.Summed ∧ s'.toCollection.LatestOk := by
  obtain ⟨-, -, -, rfl⟩ := ingest_inv h
  have hmem := target_mem t s call
  obtain ⟨hs₀, hseries₀, hc₀, hr₀⟩ := target_opened (t := t) hs call
  generalize (s.target t call).2.1 = i at hmem hseries₀ ⊢
  generalize (s.target t call).2.2 = listing
  generalize (s.target t call).1 = s₀ at hmem hs₀ hseries₀ hc₀ hr₀ ⊢
  have hs₁ : (s₀.describe t call i listing).Summed := describe_summed hs₀ hmem listing
  obtain ⟨hoid, hou, -⟩ := observed_same t i call.item listing.isSome
  have hi : ∃ j ∈ (s₀.describe t call i listing).identities, j.id = i.id ∧
      j.seriesId = i.seriesId :=
    ⟨_, Table.mem_put_self hmem hoid.symm, hoid, hou⟩
  have hcolumns : ∀ u ∈ (s₀.describe t call i listing).series, ∃ v ∈ s₀.series, v.id = u.id ∧
      u.latest = v.latest := by
    intro u hu
    obtain ⟨v, hv, rfl⟩ := List.mem_map.mp hu
    refine ⟨v, hv, ?_⟩
    split <;> exact ⟨rfl, rfl⟩
  have hsame : ∀ u, (s₀.describe t call i listing).latestRelease u = s.latestRelease u := by
    intro u
    have hc : (s₀.describe t call i listing).chapters = s.chapters := hc₀
    have hr : (s₀.describe t call i listing).releases = s.releases := hr₀
    simp only [Collection.latestRelease, Collection.seriesReleases, Collection.chapter?, hc, hr]
  generalize s₀.describe t call i listing = s₁ at hs₁ hi hcolumns hsame ⊢
  -- the aliases and the external ids are other tables
  have hs₂ : (s₁.identified t call i).Summed :=
    ⟨hs₁.housed.of_tables hs₁.housed.series hs₁.housed.identities
      (fun j hj => ⟨j, hj, rfl, rfl⟩) rfl rfl, hs₁.newSeries, hs₁.newIdentity, hs₁.newChapter,
      hs₁.newRelease⟩
  obtain ⟨hs₃, hothers⟩ := @upsertChapters_summed t _ _ _ call.now hs₂ hi call.chapters
  obtain ⟨g, hg, hsync, -⟩ := sync_eq t s₁ call i
  constructor
  · rw [hsync]
    refine ⟨hs₃.housed.of_tables ?_ hs₃.housed.identities (fun j hj => ⟨j, hj, rfl, rfl⟩) rfl rfl,
      fun u hu => ?_, hs₃.newIdentity, hs₃.newChapter, hs₃.newRelease⟩
    · refine hs₁.housed.series.map fun x _ y _ he => ?_
      rwa [(hg x).1, (hg y).1] at he
    · obtain ⟨v, hv, rfl⟩ := List.mem_map.mp hu
      rw [(hg v).1]
      exact hs₁.newSeries v hv
  · refine Collection.recomputeLatest_latestOk fun u hu hne p hp => ?_
    obtain ⟨v, hv, hid, hlatest⟩ := hcolumns u hu
    have hvs : v ∈ s.series := (hseries₀ v hv).resolve_right fun he => hne (hid.symm.trans he)
    have hpick := hothers u.id hne
    have hsame' : (s₁.identified t call i).latestRelease u.id = s.latestRelease u.id := hsame u.id
    have hp' : ((s₁.identified t call i).upsertChapters t i.seriesId i.id call.chapters
        call.now).latestRelease u.id = some p := hp
    rw [hsame', hp', Option.map_some, eq_comm, Option.map_eq_some_iff] at hpick
    obtain ⟨q, hq, he⟩ := hpick
    rw [hlatest, ← he]
    exact hl v hvs q (hid ▸ hq)

/-! ## Runs -/

/-- The calls that write the columns. -/
inductive SummaryCall where
  | ingest (call : IngestCall)
  | merge (ids : List Nat) (now : Time)

/-- A call; what it raises rolls it back. -/
def summarize (t : CatalogText) (s : Shelf) : SummaryCall → Shelf
  | .ingest call => match s.ingest t call with
    | .ok (s', _) => s'
    | .error _ => s
  | .merge ids now => match s.mergeCanonicalSeries t.toTextLib ids now with
    | .ok (c, _) => { s with toCollection := c }
    | .error _ => s

def Summarizes (t : CatalogText) (s : Shelf) (l : SummaryCall) (s' : Shelf) : Prop :=
  s' = s.summarize t l

/-- The rows that a merge takes columns of agree with the releases of both series. -/
def SummaryCall.Agrees (t : CatalogText) (s : Shelf) : SummaryCall → Prop
  | .ingest _ => True
  | .merge ids _ => s.MergeAgrees t.toTextLib ids

theorem summarize_latestOk (hs : s.Summed) (hl : s.toCollection.LatestOk) {l : SummaryCall}
    (hagree : l.Agrees t s) : (s.summarize t l).Summed ∧
      (s.summarize t l).toCollection.LatestOk := by
  cases l with
  | ingest call =>
    unfold summarize
    dsimp only
    split
    · rename_i h
      exact ingest_latestOk hs hl h
    · exact ⟨hs, hl⟩
  | merge ids now =>
    unfold summarize
    dsimp only
    split
    · rename_i c id h
      obtain ⟨hc, hlc, hno⟩ := Collection.mergeCanonicalSeries_latestOk hs.housed hl hagree h
      refine ⟨⟨hc, fun u hu => ?_, fun j hj => ?_, fun d hd => ?_, fun r hr => ?_⟩, hlc⟩
      · obtain ⟨v, hv, he⟩ := hno.series u hu
        exact he ▸ hs.newSeries v hv
      · obtain ⟨k, hk, he⟩ := hno.identities j hj
        exact he ▸ hs.newIdentity k hk
      · obtain ⟨e, he, hid⟩ := hno.chapters d hd
        exact hid ▸ hs.newChapter e he
      · obtain ⟨q, hq, he⟩ := hno.releases r hr
        exact he ▸ hs.newRelease q hq
    · exact ⟨hs, hl⟩

instance (s : Shelf) (l : SummaryCall) : Decidable (l.Agrees t s) := by
  unfold SummaryCall.Agrees
  cases l <;> infer_instance

end Shelf

/-- A provider reports one chapter of a title of its own. -/
def oneChapter (source number : String) (publishedAt : Time) : Shelf.SummaryCall :=
  .ingest
    { item :=
        { source := source, sourceId := source, title := source, url := "https://one.example" }
      chapters := [{ source := source, number := number, publishedAt := some publishedAt }]
      storageKey := source }

/-- Chapter 10 came out before chapter 5 of the other listing. -/
def mergedLate : List Shelf.SummaryCall :=
  [oneChapter "asura" "10" 50, oneChapter "mangadex" "5" 100, .merge [1, 2] 1]

end MangaManager
