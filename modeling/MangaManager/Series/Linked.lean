import MangaManager.Series.Pooled

/-!
# The foreign keys over a merge

The rows of most tables name a series, an identity, a chapter, a release or an artifact, and the
database deletes them with it. `merge_canonical_series` deletes series, identities, chapters and
releases. `Linked` says that no row names one that is gone, so that no row goes by a cascade that
the merge did not delete or move itself; the downloads that wait in the queue name releases too.
`mergeCanonicalSeries_linked`: a merge keeps that. Artifacts and attempts are all left.
-/

namespace MangaManager

open Lib

/-- The release that a download names. -/
def JobPayload.release? : JobPayload → Option Nat
  | .chapterDownload p => some p.chapterReleaseId
  | _ => none

theorem storeMerged_kind {j : WorkJob} {merged current : LibraryRepairPayload} :
    (storeMerged j merged current).kind = j.kind := by
  unfold storeMerged
  split
  · rfl
  · split <;> rfl

namespace Queue

variable {q q' : Queue} {now : Time}

/-- The jobs of other kinds are as they were. -/
theorem enqueue_others {a : EnqueueArgs} {id : Nat} {created : Bool}
    (h : q.enqueue a now = .ok (q', id, created)) :
    ∀ j ∈ q'.jobs, j.kind ≠ a.kind → j ∈ q.jobs := by
  unfold enqueue at h
  split at h
  · cases h
  · rename_i hc
    split at h
    · rename_i e he
      cases h
      obtain ⟨e', n, hedit, hq⟩ := enqueueExisting_edit now hc he
      have hkind : e'.kind = a.kind :=
        (RowStep.edit hedit).sameJob.kind.trans (activeJob_some he).2.1
      intro j hj hne
      rw [hq] at hj
      rcases Table.mem_put.mp hj with ⟨rfl, -⟩ | ⟨hj, -⟩
      · exact absurd hkind hne
      · exact hj
    · cases h
      intro j hj hne
      rw [enqueueNew_jobs, List.mem_append, List.mem_singleton] at hj
      rcases hj with hj | rfl
      · exact hj
      · exact absurd rfl hne

theorem enqueueLibraryRepair_others {seriesId : Nat} {reason : String} {priority : Int}
    {keys : List String} {created : Bool}
    (h : q.enqueueLibraryRepair seriesId reason priority keys now = .ok (q', created)) :
    ∀ j ∈ q'.jobs, j.kind ≠ .libraryRepair → j ∈ q.jobs := by
  unfold enqueueLibraryRepair at h
  dsimp only at h
  split at h
  · cases h
  split at h
  · rename_i j hj
    split at h
    · rename_i j' hmerge
      cases h
      have hkind : j'.kind = .libraryRepair := by
        rw [← (activeJob_some hj).2.1]
        unfold mergeInto at hmerge
        split at hmerge
        · cases hmerge
          exact storeMerged_kind
        · cases hmerge
      intro k hk hne
      rcases Table.mem_put.mp hk with ⟨rfl, -⟩ | ⟨hk, -⟩
      · exact absurd hkind hne
      · exact hk
    · cases h
  · obtain ⟨⟨q₁, id, new⟩, he, h⟩ := map_eq_ok.mp h
    cases h
    exact enqueue_others he

end Queue

namespace Collection

variable (s : Collection)

def HasSeries (id : Nat) : Prop := ∃ u ∈ s.series, u.id = id

def HasIdentity (id : Nat) : Prop := ∃ i ∈ s.identities, i.id = id

def HasChapter (id : Nat) : Prop := ∃ c ∈ s.chapters, c.id = id

def HasRelease (id : Nat) : Prop := ∃ r ∈ s.releases, r.id = id

def HasArtifact (id : Nat) : Prop := ∃ a ∈ s.artifacts, a.id = id

/-- The foreign keys, and the releases that downloads name. -/
structure Linked : Prop where
  identity : ∀ i ∈ s.identities, s.HasSeries i.seriesId
  chapter : ∀ c ∈ s.chapters, s.HasSeries c.seriesId
  release : ∀ r ∈ s.releases, s.HasChapter r.chapterId ∧ s.HasIdentity r.sourceSeriesId
  artifact : ∀ a ∈ s.artifacts, s.HasChapter a.chapterId ∧ ∀ r ∈ a.chapterReleaseId, s.HasRelease r
  projection : ∀ p ∈ s.projections, s.HasChapter p.chapterId ∧ s.HasArtifact p.artifactId
  kavita : ∀ p ∈ s.kavitaProjections, s.HasChapter p.chapterId ∧ s.HasArtifact p.artifactId
  attempt : ∀ a ∈ s.attempts, s.HasChapter a.chapterId ∧ s.HasRelease a.chapterReleaseId
  plan : ∀ p ∈ s.plans, s.HasSeries p.seriesId
  intent : ∀ i ∈ s.intents, s.HasSeries i.seriesId ∧ s.HasChapter i.chapterId
  named : ∀ a ∈ s.aliases, s.HasSeries a.seriesId ∧ ∀ i ∈ a.sourceSeriesId, s.HasIdentity i
  identifier : ∀ e ∈ s.identifiers, s.HasSeries e.seriesId ∧ s.HasIdentity e.sourceSeriesId
  alternate : ∀ a ∈ s.alternates, s.HasIdentity a.primarySourceSeriesId
  cover : ∀ c ∈ s.covers, s.HasIdentity c.sourceSeriesId
  decision : ∀ d ∈ s.decisions, s.HasIdentity d.leftSourceSeriesId ∧
    s.HasIdentity d.rightSourceSeriesId
  reading : ∀ r ∈ s.readingStates, s.HasChapter r.chapterId
  job : ∀ j ∈ s.queue.jobs, j.kind = .chapterDownload →
    (∀ r ∈ j.payload.release?, s.HasRelease r) ∧
      ∀ p ∈ j.pendingPayload, ∀ r ∈ p.release?, s.HasRelease r

section
variable {s s₁ s' : Collection} {t : TextLib} {target source : Nat}
  {chapter home : CatalogChapter} {keeper duplicate : CatalogSourceSeries}

/-! ## One provider of both series -/

theorem mapRelease_release? {f : Nat → Nat} {p : JobPayload} {r : Nat}
    (h : r ∈ (p.mapRelease f).release?) : ∃ r₀ ∈ p.release?, r = f r₀ := by
  cases p with
  | chapterDownload p =>
    obtain rfl := Option.some.inj h
    exact ⟨p.chapterReleaseId, rfl, rfl⟩
  | _ => cases h

/-- The release that stands for another one is there. -/
theorem replacedRelease_mem (hne : keeper.id ≠ duplicate.id) {id : Nat} (h : s.HasRelease id) :
    ∃ r ∈ s.releases, (s.existingRelease keeper duplicate r).isNone = true ∧
      r.id = s.replacedRelease keeper duplicate id := by
  obtain ⟨r₀, hr₀, rfl⟩ := h
  unfold replacedRelease
  obtain ⟨r, hr⟩ : ∃ r, s.releases.find? (·.id == r₀.id) = some r := by
    rw [← Option.isSome_iff_exists, List.find?_isSome]
    exact ⟨r₀, hr₀, by simp⟩
  have hid : r.id = r₀.id := by simpa using List.find?_some hr
  rw [hr, Option.bind_some]
  cases hk : s.existingRelease keeper duplicate r with
  | none => exact ⟨r, List.mem_of_find?_eq_some hr, by rw [hk]; rfl, hid⟩
  | some k =>
    unfold existingRelease at hk
    split at hk
    · have hks : k.sourceSeriesId = keeper.id := by
        have := List.find?_some hk
        simp only [Bool.and_eq_true, beq_iff_eq] at this
        exact this.1
      refine ⟨k, List.mem_of_find?_eq_some hk, ?_, rfl⟩
      -- a release of the keeper is not one of the duplicate
      unfold existingRelease
      rw [if_neg fun he => hne (hks.symm.trans he)]
      rfl
    · cases hk

theorem consolidate_linked (hs : s.Linked) (hne : keeper.id ≠ duplicate.id)
    (hk : ∃ i ∈ s.identities, i.id = keeper.id) (hu : s.HasSeries keeper.seriesId)
    (overlap : Nat × Nat) :
    (s.consolidate keeper duplicate overlap).Linked := by
  have halternates : ∀ a ∈ (s.moveAlternates keeper duplicate overlap).alternates,
      a.primarySourceSeriesId = keeper.id ∨
        (a.primarySourceSeriesId ≠ duplicate.id ∧ s.HasIdentity a.primarySourceSeriesId) := by
    have hmoved : ∀ a ∈ (s.alternates.filter fun a => a.primarySourceSeriesId != duplicate.id ||
        !s.alternates.any fun b => b.id != a.id && b.source == a.source && b.sourceId == a.sourceId
          ).map (fun a => if a.primarySourceSeriesId = duplicate.id then
            { a with primarySourceSeriesId := keeper.id } else a),
        a.primarySourceSeriesId = keeper.id ∨
          (a.primarySourceSeriesId ≠ duplicate.id ∧ s.HasIdentity a.primarySourceSeriesId) := by
      intro a ha
      obtain ⟨b, hb, rfl⟩ := List.mem_map.mp ha
      split
      · exact .inl rfl
      · rename_i he
        exact .inr ⟨he, hs.alternate b (List.mem_filter.mp hb).1⟩
    intro a ha
    unfold moveAlternates at ha
    dsimp only at ha
    split at ha
    · obtain ⟨b, hb, rfl⟩ := List.mem_map.mp ha
      split
      · exact .inl rfl
      · exact hmoved b hb
    · rcases List.mem_append.mp ha with ha | ha
      · exact hmoved a ha
      · obtain rfl := List.mem_singleton.mp ha
        exact .inl rfl
  have hrelease : ∀ {id : Nat}, s.HasRelease id →
      ∃ r ∈ s.releases, (s.existingRelease keeper duplicate r).isNone = true ∧
        r.id = s.replacedRelease keeper duplicate id := fun h => replacedRelease_mem hne h
  obtain ⟨alternates, next, he⟩ := @moveAlternates_eq s keeper duplicate overlap
  rw [he] at halternates
  generalize hs' : s.consolidate keeper duplicate overlap = s'
  have hids : s'.identities = (Table.put CatalogSourceSeries.id s.identities
      (enriched keeper duplicate)).filter (·.id != duplicate.id) := by
    rw [← hs', consolidate, he]
    rfl
  have hreleases : s'.releases =
      (s.releases.filter fun r => (s.existingRelease keeper duplicate r).isNone).map fun r =>
        if r.sourceSeriesId = duplicate.id then { r with sourceSeriesId := keeper.id } else r := by
    rw [← hs', consolidate, he]
    rfl
  -- identities other than the duplicate are there, and a release is there or replaced
  have hkeeper : s'.HasIdentity keeper.id := by
    obtain ⟨i, hi, hid⟩ := hk
    refine ⟨enriched keeper duplicate, ?_, rfl⟩
    rw [hids]
    exact List.mem_filter.mpr ⟨Table.mem_put_self hi hid, by simpa [enriched] using hne⟩
  have hother : ∀ id, id ≠ duplicate.id → s.HasIdentity id → s'.HasIdentity id := by
    rintro _ hid ⟨i, hi, rfl⟩
    by_cases hik : i.id = keeper.id
    · exact hik ▸ hkeeper
    · refine ⟨i, ?_, rfl⟩
      rw [hids]
      exact List.mem_filter.mpr ⟨Table.mem_put_of_ne hi hik, by simpa using hid⟩
  have hrel : ∀ id, s.HasRelease id → s'.HasRelease (s.replacedRelease keeper duplicate id) := by
    intro id h
    obtain ⟨r, hr, hnone, hid⟩ := hrelease h
    refine ⟨_, hreleases ▸ List.mem_map_of_mem (List.mem_filter.mpr ⟨hr, hnone⟩), ?_⟩
    rw [← hid]
    split
    · rfl
    · rfl
  subst hs'
  unfold consolidate at hids hreleases hkeeper hother hrel ⊢
  rw [he] at hids hreleases hkeeper hother hrel ⊢
  refine ⟨fun i hi => ?_, hs.chapter, fun r hr => ?_, fun a ha => ?_, fun p hp => ?_,
    fun p hp => ?_, fun a ha => ?_, hs.plan, hs.intent, fun a ha => ⟨?_, fun i hi => ?_⟩,
    fun e hm => ⟨?_, ?_⟩, fun a ha => ?_, fun c hc => ?_, fun d hd => ?_, hs.reading,
    fun j hj hkind => ?_⟩
  · rw [hids] at hi
    rcases Table.mem_put.mp (List.mem_filter.mp hi).1 with ⟨rfl, -⟩ | ⟨hi, -⟩
    · exact hu
    · exact hs.identity i hi
  · rw [hreleases] at hr
    obtain ⟨r₀, hr₀, rfl⟩ := List.mem_map.mp hr
    obtain ⟨hc, hi⟩ := hs.release r₀ (List.mem_filter.mp hr₀).1
    split
    · exact ⟨hc, hkeeper⟩
    · rename_i hsource
      exact ⟨hc, hother _ hsource hi⟩
  · obtain ⟨a₀, ha₀, rfl⟩ := List.mem_map.mp ha
    obtain ⟨hc, hr⟩ := hs.artifact a₀ ha₀
    refine ⟨hc, fun r hm => ?_⟩
    obtain ⟨r₀, hr₀, rfl⟩ := Option.map_eq_some_iff.mp hm
    exact hrel r₀ (hr r₀ hr₀)
  · obtain ⟨hc, a, ha, hid⟩ := hs.projection p hp
    exact ⟨hc, _, List.mem_map_of_mem ha, hid⟩
  · obtain ⟨hc, a, ha, hid⟩ := hs.kavita p hp
    exact ⟨hc, _, List.mem_map_of_mem ha, hid⟩
  · obtain ⟨a₀, ha₀, rfl⟩ := List.mem_map.mp ha
    obtain ⟨hc, hr⟩ := hs.attempt a₀ ha₀
    exact ⟨hc, hrel _ hr⟩
  · obtain ⟨a₀, ha₀, rfl⟩ := List.mem_map.mp ha
    have := (hs.named a₀ (List.mem_filter.mp ha₀).1).1
    split
    · exact this
    · exact this
  · obtain ⟨a₀, ha₀, rfl⟩ := List.mem_map.mp ha
    split at hi
    · obtain rfl := Option.some.inj hi
      exact hkeeper
    · rename_i hsource
      refine hother i (fun hd => hsource ?_) ((hs.named a₀ (List.mem_filter.mp ha₀).1).2 i hi)
      rw [← hd]
      exact hi
  · obtain ⟨e₀, hm₀, rfl⟩ := List.mem_map.mp hm
    have := (hs.identifier e₀ (List.mem_filter.mp hm₀).1).1
    split
    · exact this
    · exact this
  · obtain ⟨e₀, hm₀, rfl⟩ := List.mem_map.mp hm
    split
    · exact hkeeper
    · rename_i hsource
      exact hother _ hsource (hs.identifier e₀ (List.mem_filter.mp hm₀).1).2
  · rcases halternates a ha with h | ⟨h, hi⟩
    · exact h ▸ hkeeper
    · exact hother _ h hi
  · obtain ⟨c₀, hc₀, rfl⟩ := List.mem_map.mp hc
    split
    · exact hkeeper
    · rename_i hsource
      exact hother _ hsource (hs.cover c₀ (List.mem_filter.mp hc₀).1)
  · obtain ⟨hd, hno⟩ := List.mem_filter.mp hd
    rw [Bool.and_eq_true, bne_iff_ne, bne_iff_ne] at hno
    obtain ⟨hl, hr⟩ := hs.decision d hd
    exact ⟨hother _ hno.1 hl, hother _ hno.2 hr⟩
  · obtain ⟨j₀, hj₀, rfl⟩ := List.mem_map.mp hj
    split at hkind
    · rename_i hdownload
      obtain ⟨h₁, h₂⟩ := hs.job j₀ hj₀ hdownload
      rw [if_pos hdownload]
      refine ⟨fun r hr => ?_, fun p hp r hr => ?_⟩
      · obtain ⟨r₀, hr₀, rfl⟩ := mapRelease_release? hr
        exact hrel r₀ (h₁ r₀ hr₀)
      · obtain ⟨p₀, hp₀, rfl⟩ := Option.map_eq_some_iff.mp hp
        obtain ⟨r₀, hr₀, rfl⟩ := mapRelease_release? hr
        exact hrel r₀ (h₂ p₀ hp₀ r₀ hr₀)
    · rename_i hdownload
      exact absurd hkind hdownload

/-- The keepers of the pairs still to come are there. -/
theorem foldlM_consolidatePair_linked {right : CatalogSourceSeries}
    {pairs : List (CatalogSourceSeries × CatalogSourceSeries)} (hs : s.Linked)
    (hpairs : ∀ p ∈ pairs, p.1.id ≠ p.2.id ∧ s.HasIdentity p.1.id ∧ s.HasIdentity p.2.id ∧
      s.HasSeries p.1.seriesId ∧ s.HasSeries p.2.seriesId)
    (hd : pairs.Pairwise Apart) (h : pairs.foldlM (consolidatePair t right) s = .ok s') :
    s'.Linked := by
  induction pairs generalizing s with
  | nil =>
    cases h
    exact hs
  | cons p pairs ih =>
    obtain ⟨s₁, hp, hrest⟩ := foldlM_cons_eq_ok.mp h
    obtain ⟨hhead, htail⟩ := List.pairwise_cons.mp hd
    obtain ⟨hne, h₁, h₂, hu₁, hu₂⟩ := hpairs p List.mem_cons_self
    unfold consolidatePair at hp
    dsimp only at hp
    split at hp
    · cases hp
    cases hp
    have hroles : (keeperOf right p.1 p.2).1.id ≠ (keeperOf right p.1 p.2).2.id ∧
        s.HasIdentity (keeperOf right p.1 p.2).1.id ∧
        s.HasSeries (keeperOf right p.1 p.2).1.seriesId ∧
        ∀ id, id ≠ p.1.id → id ≠ p.2.id → id ≠ (keeperOf right p.1 p.2).2.id := by
      rcases keeperOf_cases right p.1 p.2 with he | he <;> rw [he]
      · exact ⟨hne.symm, h₂, hu₂, fun id h _ => h⟩
      · exact ⟨hne, h₁, hu₁, fun id _ h => h⟩
    obtain ⟨hrole, hkeeper, hku, hout⟩ := hroles
    generalize keeperOf right p.1 p.2 = q at hrole hkeeper hku hout hrest
    have hlinked := consolidate_linked hs hrole hkeeper hku (s.chapterOverlap q.1.id q.2.id)
    have hstays : ∀ id, id ≠ q.2.id → s.HasIdentity id →
        (s.consolidate q.1 q.2 (s.chapterOverlap q.1.id q.2.id)).HasIdentity id := by
      rintro _ hid ⟨i, hi, rfl⟩
      unfold HasIdentity
      rw [consolidate_identities.1]
      by_cases hik : i.id = q.1.id
      · exact ⟨enriched q.1 q.2, List.mem_filter.mpr ⟨Table.mem_put_self hi hik,
          by simpa [enriched] using hrole⟩, hik.symm⟩
      · exact ⟨i, List.mem_filter.mpr ⟨Table.mem_put_of_ne hi hik, by simpa using hid⟩, rfl⟩
    have hseries : ∀ u, s.HasSeries u →
        (s.consolidate q.1 q.2 (s.chapterOverlap q.1.id q.2.id)).HasSeries u := by
      intro u hu
      unfold HasSeries
      rw [consolidate_consolidated.series]
      exact hu
    refine ih hlinked (fun p' hp' => ?_) htail hrest
    obtain ⟨hne', h₁', h₂', hu₁', hu₂'⟩ := hpairs p' (List.mem_cons_of_mem _ hp')
    obtain ⟨⟨ha, hb⟩, hc, hd⟩ := hhead p' hp'
    exact ⟨hne', hstays _ (hout _ ha.symm hc.symm) h₁', hstays _ (hout _ hb.symm hd.symm) h₂',
      hseries _ hu₁', hseries _ hu₂'⟩

/-! ## One chapter -/

theorem mergeChapter_linked (hne : target ≠ source) (hs : s.Linked) (hok : s.ChaptersOk)
    (hk : Table.Keyed CatalogChapterReadingState.chapterId s.readingStates)
    (ht : s.HasSeries target) (hc : chapter ∈ s.chapters) (hu : chapter.seriesId = source) :
    (mergeChapter target s chapter).Linked := by
  unfold mergeChapter
  split
  · -- the chapter keeps its id
    have hchapter : ∀ id, s.HasChapter id → Collection.HasChapter { s with
        chapters := Table.put CatalogChapter.id s.chapters { chapter with seriesId := target } }
          id := by
      rintro _ ⟨c, hcm, rfl⟩
      by_cases he : c.id = chapter.id
      · exact ⟨_, Table.mem_put_self hcm he, he.symm⟩
      · exact ⟨c, Table.mem_put_of_ne hcm he, rfl⟩
    refine ⟨hs.identity, fun c hcm => ?_, fun r hr => (hs.release r hr).imp_left (hchapter _),
      fun a ha => (hs.artifact a ha).imp_left (hchapter _),
      fun p hp => (hs.projection p hp).imp_left (hchapter _),
      fun p hp => (hs.kavita p hp).imp_left (hchapter _),
      fun a ha => (hs.attempt a ha).imp_left (hchapter _), hs.plan,
      fun i hi => (hs.intent i hi).imp_right (hchapter _), hs.named, hs.identifier, hs.alternate,
      hs.cover, hs.decision, fun r hr => hchapter _ (hs.reading r hr), hs.job⟩
    rcases Table.mem_put.mp hcm with ⟨rfl, -⟩ | ⟨hcm, -⟩
    · exact ht
    · exact hs.chapter c hcm
  · rename_i home hhome
    have hm := List.mem_of_find?_eq_some hhome
    obtain ⟨hht, -⟩ : home.seriesId = target ∧ home.canonicalNumber = chapter.canonicalNumber := by
      simpa using List.find?_some hhome
    have hid : home.id ≠ chapter.id := fun he => hne <| by
      rw [← hht, hok.keyed.eq hm hc he, hu]
    have hread : ReadingMerged chapter home s.readingStates (s.mergeReading chapter home) :=
      mergeReading_merged hid hk
    have hother : ∀ id, id ≠ chapter.id → s.HasChapter id →
        (s.absorbChapter target chapter home).HasChapter id := by
      rintro _ he ⟨c, hcm, rfl⟩
      exact ⟨c, List.mem_filter.mpr ⟨hcm, bne_iff_ne.mpr he⟩, rfl⟩
    have hthere : (s.absorbChapter target chapter home).HasChapter home.id :=
      hother _ hid ⟨home, hm, rfl⟩
    have hmoved : ∀ id, s.HasChapter id → (s.absorbChapter target chapter home).HasChapter
        (if id = chapter.id then home.id else id) := by
      intro id h
      split
      · exact hthere
      · rename_i he
        exact hother id he h
    have hartifact : ∀ id, s.HasArtifact id →
        (s.absorbChapter target chapter home).HasArtifact id := by
      rintro _ ⟨a, ha, rfl⟩
      exact ⟨_, List.mem_map_of_mem ha, rfl⟩
    have hrelease : ∀ id, s.HasRelease id →
        (s.absorbChapter target chapter home).HasRelease id := by
      rintro _ ⟨r, hr, rfl⟩
      exact ⟨_, List.mem_map_of_mem hr, rfl⟩
    refine ⟨hs.identity, fun c hcm => hs.chapter c (List.mem_filter.mp hcm).1, fun r hr => ?_,
      fun a ha => ?_, fun p hp => ?_, fun p hp => ?_, fun a ha => ?_, hs.plan, fun i hi => ?_,
      hs.named, hs.identifier, hs.alternate, hs.cover, hs.decision, fun r hr => ?_,
      fun j hj hkind => ?_⟩
    · obtain ⟨r₀, hr₀, rfl⟩ := List.mem_map.mp hr
      exact (hs.release r₀ hr₀).imp_left (hmoved _)
    · obtain ⟨a₀, ha₀, rfl⟩ := List.mem_map.mp ha
      obtain ⟨hca, hra⟩ := hs.artifact a₀ ha₀
      exact ⟨hmoved _ hca, fun r hr => hrelease r (hra r hr)⟩
    · by_cases hkept : s.hasActiveArtifact home.id = true
      · simp only [absorbChapter, if_pos hkept] at hp
        obtain ⟨hp, hno⟩ := List.mem_filter.mp hp
        obtain ⟨hcp, hap⟩ := hs.projection p hp
        exact ⟨hother _ (by simpa using hno) hcp, hartifact _ hap⟩
      · simp only [absorbChapter, if_neg hkept] at hp
        obtain ⟨p₀, hp₀, rfl⟩ := List.mem_map.mp hp
        exact (hs.projection p₀ hp₀).imp (hmoved _) (hartifact _)
    · by_cases hkept : s.hasActiveArtifact home.id = true
      · simp only [absorbChapter, if_pos hkept] at hp
        obtain ⟨hp, hno⟩ := List.mem_filter.mp hp
        obtain ⟨hcp, hap⟩ := hs.kavita p hp
        exact ⟨hother _ (by simpa using hno) hcp, hartifact _ hap⟩
      · simp only [absorbChapter, if_neg hkept] at hp
        obtain ⟨p₀, hp₀, rfl⟩ := List.mem_map.mp hp
        exact (hs.kavita p₀ hp₀).imp (hmoved _) (hartifact _)
    · obtain ⟨a₀, ha₀, rfl⟩ := List.mem_map.mp ha
      exact (hs.attempt a₀ ha₀).imp (hmoved _) (hrelease _)
    · rcases mem_mergeIntents hi with ⟨hi, hne⟩ | ⟨-, i, -, -, rfl⟩
      · exact (hs.intent i hi).imp_right (hother _ hne)
      · exact ⟨ht, hthere⟩
    · rcases hread.origin r hr with hr' | ⟨he, -⟩
      · exact hother _ (hread.gone r hr) (hs.reading r hr')
      · exact he ▸ hthere
    · obtain ⟨h₁, h₂⟩ := hs.job j hj hkind
      exact ⟨fun r hr => hrelease r (h₁ r hr), fun p hp r hr => hrelease r (h₂ p hp r hr)⟩

/-! ## One series -/

theorem mem_mergePlans {p : SeriesDownloadPlan} (hne : target ≠ source)
    (h : p ∈ s.mergePlans target source) :
    p.seriesId ≠ source ∧ (p.seriesId = target ∨ p ∈ s.plans) := by
  unfold mergePlans at h
  split at h
  · rename_i hnone
    exact ⟨Table.get_eq_none.mp hnone p h, .inr h⟩
  · obtain ⟨q, hq, rfl⟩ := List.mem_map.mp h
    split
    · exact ⟨hne, .inl rfl⟩
    · rename_i hs
      exact ⟨hs, .inr hq⟩
  · obtain ⟨h, hs⟩ := List.mem_filter.mp h
    exact ⟨by simpa using hs, .inr h⟩

theorem mem_mergeSeriesRows_of {u : Nat} (hu : u ≠ source) (h : s.HasSeries u) :
    ∃ v ∈ s.mergeSeriesRows target source, v.id = u := by
  obtain ⟨v, hv, rfl⟩ := h
  have hput : ∀ w : CatalogSeries, ∃ x ∈ (Table.put CatalogSeries.id s.series w).filter
      (·.id != source), x.id = v.id := by
    intro w
    by_cases he : v.id = w.id
    · exact ⟨w, List.mem_filter.mpr ⟨Table.mem_put_self hv he, by simpa [← he] using hu⟩, he.symm⟩
    · exact ⟨v, List.mem_filter.mpr ⟨Table.mem_put_of_ne hv he, by simpa using hu⟩, rfl⟩
  unfold mergeSeriesRows
  split
  · exact hput _
  · exact hput _
  · exact ⟨v, List.mem_filter.mpr ⟨hv, by simpa using hu⟩, rfl⟩

/-- The series goes once nothing of it is left. -/
theorem moveSeries_linked (hne : target ≠ source) (hs : s.Linked) (ht : s.HasSeries target)
    (hempty : ∀ c ∈ s.chapters, c.seriesId ≠ source) :
    (s.moveSeries target source).Linked := by
  have hother : ∀ u, u ≠ source → s.HasSeries u → (s.moveSeries target source).HasSeries u :=
    fun u hu h => mem_mergeSeriesRows_of hu h
  have hmoved : ∀ u, s.HasSeries u →
      (s.moveSeries target source).HasSeries (if u = source then target else u) := by
    intro u h
    split
    · exact hother target hne ht
    · rename_i he
      exact hother u he h
  have hidentity : ∀ id, s.HasIdentity id → (s.moveSeries target source).HasIdentity id := by
    rintro _ ⟨i, hi, rfl⟩
    exact ⟨_, List.mem_map_of_mem hi, rfl⟩
  refine ⟨fun i hi => ?_, fun c hc => hother _ (hempty c hc) (hs.chapter c hc),
    fun r hr => (hs.release r hr).imp_right (hidentity _), hs.artifact, hs.projection, hs.kavita,
    hs.attempt, fun p hp => ?_, fun i hi => ?_, fun a ha => ?_, fun e he => ?_,
    fun a ha => hidentity _ (hs.alternate a ha), fun c hc => hidentity _ (hs.cover c hc),
    fun d hd => (hs.decision d hd).imp (hidentity _) (hidentity _), hs.reading,
    fun j hj hkind => ?_⟩
  · obtain ⟨i₀, hi₀, rfl⟩ := List.mem_map.mp hi
    exact hmoved _ (hs.identity i₀ hi₀)
  · obtain ⟨hps, rfl | hp⟩ := mem_mergePlans hne hp
    · exact hother _ hne ht
    · exact hother _ hps (hs.plan p hp)
  · obtain ⟨i₀, hi₀, rfl⟩ := List.mem_map.mp hi
    exact (hs.intent i₀ hi₀).imp_left (hmoved _)
  · obtain ⟨a₀, ha₀, rfl⟩ := List.mem_map.mp ha
    obtain ⟨hu, hi⟩ := hs.named a₀ (List.mem_filter.mp ha₀).1
    exact ⟨hmoved _ hu, fun i h => hidentity i (hi i h)⟩
  · obtain ⟨e₀, he₀, rfl⟩ := List.mem_map.mp he
    exact (hs.identifier e₀ he₀).imp (hmoved _) (hidentity _)
  · obtain ⟨j₀, hj₀, rfl⟩ := List.mem_map.mp hj
    have := hs.job j₀ hj₀
    split at hkind
    · rename_i hkey
      rw [if_pos hkey]
      exact this hkind
    · rename_i hkey
      rw [if_neg hkey]
      exact this hkind

theorem mergeInto_linked (hne : target ≠ source) (hs : s.Linked) (hok : s.MergeOk)
    (hk : Table.Keyed CatalogChapterReadingState.chapterId s.readingStates)
    (h : mergeInto t target s source = .ok s') : s'.Linked := by
  obtain ⟨lr, s₁, hc, hover, hfold, -, rfl⟩ := mergeInto_ok hok.identities hne h
  have hcons := consolidateOverlapping_consolidated hover
  have ht : s₁.HasSeries target := by
    obtain ⟨⟨hl, hlu⟩, -⟩ := chosen_some hc
    unfold HasSeries
    rw [hcons.series]
    exact hlu ▸ hs.identity _ hl
  have hs₁ := foldlM_consolidatePair_linked hs (fun p hp => by
    obtain ⟨⟨h₁, hu₁⟩, ⟨h₂, hu₂⟩, -⟩ := sharedPairs_mem hp
    refine ⟨fun he => hne ?_, ⟨_, h₁, rfl⟩, ⟨_, h₂, rfl⟩, hs.identity _ h₁, hs.identity _ h₂⟩
    rw [← hu₁, ← hu₂, hok.identities.eq h₁ h₂ he]) (sharedPairs_apart hok.identities) hfold
  have hk₁ := (foldlM_consolidatePair_pools (List.mem_singleton_self target) hfold).keyed hk
  have hok₁ : s₁.ChaptersOk :=
    ⟨hcons.chapters ▸ hok.chapters.keyed, hcons.chapters ▸ hok.chapters.numbers⟩
  generalize hlist : (s₁.chapters.filter (·.seriesId == source)).insertionSort (·.id ≤ ·.id) = l
  have hmem : ∀ c, c ∈ l ↔ c ∈ s₁.chapters ∧ c.seriesId = source := by
    intro c
    rw [← hlist, List.mem_insertionSort]
    simp
  have hnd : (l.map (·.id)).Nodup := by
    rw [← hlist]
    exact ((List.perm_insertionSort _ _).map _).nodup_iff.mpr hok₁.keyed.filter
  obtain ⟨⟨hs₂, ht₂, -⟩, -, hrest⟩ := foldl_mergeChapter_keeps
    (P := fun s' => s'.Linked ∧ s'.HasSeries target ∧
      Table.Keyed CatalogChapterReadingState.chapterId s'.readingStates) hne hok₁
    (fun c hc => (hmem c).mp hc) hnd ⟨hs₁, ht, hk₁⟩
    fun s₂ c ⟨hs₂, ht₂, hk₂⟩ hok₂ hcm hu => by
      refine ⟨mergeChapter_linked hne hs₂ hok₂ hk₂ ht₂ hcm hu, ?_, ?_⟩
      · unfold HasSeries
        rw [mergeChapter_tables.series]
        exact ht₂
      · exact (mergeChapter_pools List.mem_cons_self
          (List.mem_cons_of_mem target (List.mem_singleton_self source)) hne hok₂ hk₂ hcm
          hu).keyed hk₂
  refine moveSeries_linked hne hs₂ ht₂ fun c hcm hu => ?_
  obtain ⟨hc₁, hno⟩ := hrest c hcm hu
  exact hno c ((hmem c).mpr ⟨hc₁, hu⟩) rfl

/-! ## All series -/

theorem foldlM_mergeInto_linked {l : List Nat} (hl : ∀ u ∈ l, u ≠ target) (hs : s.Linked)
    (hok : s.MergeOk) (hk : Table.Keyed CatalogChapterReadingState.chapterId s.readingStates)
    (h : l.foldlM (mergeInto t target) s = .ok s') : s'.Linked := by
  induction l generalizing s with
  | nil =>
    cases h
    exact hs
  | cons source l ih =>
    obtain ⟨s₁, h₁, h⟩ := foldlM_cons_eq_ok.mp h
    have hne := (hl source List.mem_cons_self).symm
    have hpools : Pools [target, source] target s s₁ :=
      mergeInto_pools (by simp) (by simp) hne hok hk h₁
    exact ih (fun u hu => hl u (List.mem_cons_of_mem _ hu)) (mergeInto_linked hne hs hok hk h₁)
      (mergeInto_round hok hne h₁).ok (hpools.keyed hk) h

/-- A merge leaves no row that names one that it deleted. -/
theorem mergeCanonicalSeries_linked {ids : List Nat} {now : Time} (hs : s.Linked) (hok : s.MergeOk)
    (hk : Table.Keyed CatalogChapterReadingState.chapterId s.readingStates)
    (h : s.mergeCanonicalSeries t ids now = .ok (s', target)) : s'.Linked := by
  obtain ⟨row, s₁, queue, created, hrow, rfl, hfold, hrepair, rfl⟩ := mergeCanonicalSeries_ok h
  have hstart : (s.withStatus row (s.selectedSeries ids)).Linked := by
    have hseries : ∀ u, s.HasSeries u → (s.withStatus row (s.selectedSeries ids)).HasSeries u := by
      rintro _ ⟨u, hu, rfl⟩
      by_cases he : u.id = row.id
      · exact ⟨_, Table.mem_put_self hu he, he.symm⟩
      · exact ⟨u, Table.mem_put_of_ne hu he, rfl⟩
    exact ⟨fun i hi => hseries _ (hs.identity i hi), fun c hc => hseries _ (hs.chapter c hc),
      hs.release, hs.artifact, hs.projection, hs.kavita, hs.attempt,
      fun p hp => hseries _ (hs.plan p hp), fun i hi => (hs.intent i hi).imp_left (hseries _),
      fun a ha => (hs.named a ha).imp_left (hseries _),
      fun e he => (hs.identifier e he).imp_left (hseries _), hs.alternate, hs.cover, hs.decision,
      hs.reading, hs.job⟩
  have hlinked := foldlM_mergeInto_linked (fun u hu => by
    obtain ⟨x, hx, rfl⟩ := List.mem_map.mp hu
    simpa using (List.mem_filter.mp hx).2) hstart (withStatus_mergeOk hok) hk hfold
  have hjobs := Queue.enqueueLibraryRepair_others hrepair
  exact ⟨hlinked.identity, hlinked.chapter, hlinked.release, hlinked.artifact, hlinked.projection,
    hlinked.kavita, hlinked.attempt, hlinked.plan, hlinked.intent, hlinked.named,
    hlinked.identifier, hlinked.alternate, hlinked.cover, hlinked.decision, hlinked.reading,
    fun j hj hkind => hlinked.job j (hjobs j hj (by simp [hkind])) hkind⟩

end

/-- Both titles have the releases 1 and 2; the one of chapter 2 was downloaded from the second
listing, and from the first listing in vain. -/
def twoListings : Collection :=
  { twoReaders with
    releases := twoReaders.releases.map fun r =>
      { r with sourceReleaseId := toString (r.chapterId % 100) }
    artifacts := [{ id := 1, chapterId := 202, chapterReleaseId := some 203, blobChecksum := "x" }]
    attempts := [{ chapterId := 102, chapterReleaseId := 103, jobId := 1, source := "mangadex"
                   outcome := .failed, details := .noFallback }]
    projections := [
      { chapterId := 202, artifactId := 1, relativePath := "2.cbz", updatedAt := 0 }] }

theorem twoListings_mergeOk : twoListings.MergeOk := by
  obtain ⟨⟨h₁, h₂, h₃, h₄⟩, h₅, h₆, -, -, ⟨h₇, h₈⟩, h₉⟩ := twoReaders_mergeOk
  refine ⟨⟨h₁, h₂, h₃, h₄⟩, h₅, h₆, ?_, ?_, ⟨h₇, h₈⟩, h₉⟩
  · decide
  · simp [twoListings, twoReaders]

theorem twoListings_linked : twoListings.Linked := by
  unfold twoListings twoReaders titlesOf
  constructor <;> simp [HasSeries, HasIdentity, HasChapter, HasRelease, HasArtifact]

/-- The merge of the two succeeds, and leaves no dangling row. -/
theorem twoListings_merge_linked : ∃ s' target,
    twoListings.mergeCanonicalSeries asciiText [1, 2] 0 = .ok (s', target) ∧ s'.Linked := by
  have hok : (twoListings.mergeCanonicalSeries asciiText [1, 2] 0).isOk = true := by decide +kernel
  cases h : twoListings.mergeCanonicalSeries asciiText [1, 2] 0 with
  | error e =>
    rw [h] at hok
    cases hok
  | ok r =>
    exact ⟨r.1, r.2, rfl, mergeCanonicalSeries_linked twoListings_linked twoListings_mergeOk
      (by decide) h⟩

end Collection

end MangaManager
