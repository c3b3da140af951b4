import MangaManager.Series.Latest
import MangaManager.Series.Linked

/-!
# The releases over a merge

When both series have a listing of one provider, a release of the retired listing that the kept one
has too is deleted, and the other one stands for it. `Follows f` says that every release is there
under the id that `f` gives: it is itself, under its number, or a release of the same provider with
the same id there. The artifacts, the attempts and the downloads in the queue name the release that
stands for the one they named. `mergeCanonicalSeries_followed`: a merge does that, and nothing
else to these rows.
-/

namespace MangaManager

open Lib

theorem JobPayload.mapRelease_id (p : JobPayload) : p.mapRelease id = p := by cases p <;> rfl

theorem JobPayload.mapRelease_comp (f g : Nat → Nat) (p : JobPayload) :
    (p.mapRelease f).mapRelease g = p.mapRelease (g ∘ f) := by cases p <;> rfl

namespace Collection

/-- The release of a provider that stands for another one. -/
structure Stands (s s' : Collection) (r r' : ReleaseRow) : Prop where
  released : r'.sourceReleaseId = r.sourceReleaseId
  provider : ∀ i ∈ s.identities, i.id = r.sourceSeriesId →
    ∃ i' ∈ s'.identities, i'.id = r'.sourceSeriesId ∧ i'.source = i.source

/-- Where the releases are under their new ids, and that what named them follows. -/
structure Follows (ids : List Nat) (target : Nat) (f : Nat → Nat) (s s' : Collection) : Prop where
  release : ∀ r ∈ s.releases, ∃ r' ∈ s'.releases, r'.id = f r.id ∧ Stands s s' r r' ∧
    (f r.id = r.id → ∀ u n, s.IsAt u n r.chapterId →
      s'.IsAt u n r'.chapterId ∨ (u ∈ ids ∧ s'.IsAt target n r'.chapterId))
  gone : ∀ id, f id ≠ id → ¬ s'.HasRelease id
  origin : ∀ id, s'.HasRelease id → s.HasRelease id
  artifacts : (s'.artifacts.map fun a => (a.id, a.blobChecksum, a.chapterReleaseId)) =
    s.artifacts.map fun a => (a.id, a.blobChecksum, a.chapterReleaseId.map f)
  attempts : (s'.attempts.map fun a => (a.jobId, a.outcome, a.chapterReleaseId)) =
    s.attempts.map fun a => (a.jobId, a.outcome, f a.chapterReleaseId)
  jobs : ∀ j' ∈ s'.queue.jobs, j'.kind = .chapterDownload → ∃ j ∈ s.queue.jobs, j.id = j'.id ∧
    j.kind = .chapterDownload ∧ j'.payload = j.payload.mapRelease f ∧
    j'.pendingPayload = j.pendingPayload.map (JobPayload.mapRelease f)

section
variable {s s₁ s' : Collection} {t : TextLib} {ids : List Nat} {target source : Nat}
  {f g : Nat → Nat} {chapter : CatalogChapter} {keeper duplicate : CatalogSourceSeries}
  {r r₁ r' : ReleaseRow}

theorem Stands.trans (h : Stands s s₁ r r₁) (h' : Stands s₁ s' r₁ r') : Stands s s' r r' := by
  refine ⟨h'.released.trans h.released, fun i hi he => ?_⟩
  obtain ⟨i₁, hi₁, he₁, hsrc₁⟩ := h.provider i hi he
  obtain ⟨i', hi', he', hsrc'⟩ := h'.provider i₁ hi₁ he₁
  exact ⟨i', hi', he', hsrc'.trans hsrc₁⟩

theorem Follows.trans (h : Follows ids target f s s₁)
    (h' : Follows ids target g s₁ s') : Follows ids target (g ∘ f) s s' := by
  refine ⟨fun r hr => ?_, fun id hne hid => ?_,
    fun id hid => h.origin id (h'.origin id hid), ?_, ?_,
    fun j' hj' hkind => ?_⟩
  · obtain ⟨r₁, hr₁, hid₁, hs₁, hat₁⟩ := h.release r hr
    obtain ⟨r', hr', hid', hs', hat'⟩ := h'.release r₁ hr₁
    refine ⟨r', hr', by rw [hid', hid₁, Function.comp_apply], hs₁.trans hs',
      fun hsame u n hat => ?_⟩
    rw [Function.comp_apply] at hsame
    -- a release that was replaced does not come back
    have hf : f r.id = r.id := by
      by_contra hne
      refine h.gone r.id hne (h'.origin r.id ⟨r', hr', ?_⟩)
      rw [hid', hid₁, hsame]
    have hg : g r₁.id = r₁.id := by rw [hid₁, hsame, hf]
    rcases hat₁ hf u n hat with hat | ⟨hu, hat⟩
    · exact hat' hg u n hat
    · rcases hat' hg target n hat with hat | ⟨-, hat⟩
      · exact .inr ⟨hu, hat⟩
      · exact .inr ⟨hu, hat⟩
  · rw [Function.comp_apply] at hne
    by_cases hf : f id = id
    · rw [hf] at hne
      exact h'.gone id hne hid
    · exact h.gone id hf (h'.origin id hid)
  · have := congrArg (List.map fun x : Nat × String × Option Nat => (x.1, x.2.1, x.2.2.map g))
      h.artifacts
    rw [List.map_map, List.map_map] at this
    rw [h'.artifacts]
    refine this.trans (List.map_congr_left fun a _ => ?_)
    simp [Option.map_map]
  · have := congrArg (List.map fun x : _ × _ × Nat => (x.1, x.2.1, g x.2.2)) h.attempts
    rw [List.map_map, List.map_map] at this
    rw [h'.attempts]
    exact this
  · obtain ⟨j₁, hj₁, hid₁, hkind₁, hp₁, hq₁⟩ := h'.jobs j' hj' hkind
    obtain ⟨j, hj, hid, hk, hp, hq⟩ := h.jobs j₁ hj₁ hkind₁
    refine ⟨j, hj, hid.trans hid₁, hk, ?_, ?_⟩
    · rw [hp₁, hp, JobPayload.mapRelease_comp]
    · rw [hq₁, hq, Option.map_map]
      congr 1
      funext p
      exact p.mapRelease_comp f g

/-- A step that names releases as before, and moves them with their chapters. -/
theorem follows_of_same {m : Nat → Nat} (hreleases : s'.releases = s.releases.map fun r =>
      { r with chapterId := m r.chapterId })
    (hat : ∀ u n id, s.IsAt u n id → s'.IsAt u n (m id) ∨ (u ∈ ids ∧ s'.IsAt target n (m id)))
    (hidentities : ∀ i ∈ s.identities, ∃ i' ∈ s'.identities, i'.id = i.id ∧ i'.source = i.source)
    (hartifacts : (s'.artifacts.map fun a => (a.id, a.blobChecksum, a.chapterReleaseId)) =
      s.artifacts.map fun a => (a.id, a.blobChecksum, a.chapterReleaseId))
    (hattempts : (s'.attempts.map fun a => (a.jobId, a.outcome, a.chapterReleaseId)) =
      s.attempts.map fun a => (a.jobId, a.outcome, a.chapterReleaseId))
    (hjobs : ∀ j' ∈ s'.queue.jobs, j'.kind = .chapterDownload → ∃ j ∈ s.queue.jobs, j.id = j'.id ∧
      j.kind = .chapterDownload ∧ j'.payload = j.payload ∧ j'.pendingPayload = j.pendingPayload) :
    Follows ids target id s s' := by
  refine ⟨fun r hr => ?_, fun id hne => absurd rfl hne, fun id ⟨r', hr', he⟩ => ?_, ?_, ?_,
    fun j' hj' hkind => ?_⟩
  · have hm : ({ r with chapterId := m r.chapterId } : ReleaseRow) ∈ s'.releases := by
      rw [hreleases]
      exact List.mem_map_of_mem hr
    refine ⟨_, hm, rfl, ⟨rfl, fun i hi he => ?_⟩, fun _ u n h => hat u n _ h⟩
    obtain ⟨i', hi', hid, hsrc⟩ := hidentities i hi
    exact ⟨i', hi', hid.trans he, hsrc⟩
  · rw [hreleases] at hr'
    obtain ⟨r, hr, rfl⟩ := List.mem_map.mp hr'
    exact ⟨r, hr, he⟩
  · simpa using hartifacts
  · simpa using hattempts
  · obtain ⟨j, hj, hid, hk, hp, hq⟩ := hjobs j' hj' hkind
    refine ⟨j, hj, hid, hk, hp.trans j.payload.mapRelease_id.symm, hq.trans ?_⟩
    rw [show JobPayload.mapRelease id = id from funext JobPayload.mapRelease_id, Option.map_id]
    rfl

theorem Follows.refl : Follows ids target id s s :=
  follows_of_same (m := id) (List.map_id _).symm (fun _ _ _ h => .inl h)
    (fun i hi => ⟨i, hi, rfl, rfl⟩) rfl rfl fun j hj hkind => ⟨j, hj, rfl, hkind, rfl, rfl⟩

/-! ## One provider of both series -/

/-- What is replaced, when the ids of releases are distinct. -/
theorem replacedRelease_eq (hk : Table.Keyed (fun r : ReleaseRow => r.id) s.releases)
    (hr : r ∈ s.releases) : s.replacedRelease keeper duplicate r.id =
      ((s.existingRelease keeper duplicate r).map (·.id)).getD r.id := by
  unfold replacedRelease
  rw [show s.releases.find? (·.id == r.id) = some r from hk.get_eq hr, Option.bind_some]
  cases s.existingRelease keeper duplicate r with
  | none => rfl
  | some k => rfl

theorem existingRelease_some {k : ReleaseRow} (h : s.existingRelease keeper duplicate r = some k) :
    r.sourceSeriesId = duplicate.id ∧ k ∈ s.releases ∧ k.sourceSeriesId = keeper.id ∧
      k.sourceReleaseId = r.sourceReleaseId := by
  unfold existingRelease at h
  split at h
  · rename_i he
    have hp := List.find?_some h
    simp only [Bool.and_eq_true, beq_iff_eq] at hp
    exact ⟨he, List.mem_of_find?_eq_some h, hp.1, hp.2⟩
  · cases h

/-- The rows of the two listings, as the loop first saw them, are of one provider. -/
structure OneProvider (s : Collection) (keeper duplicate : CatalogSourceSeries) : Prop where
  ne : keeper.id ≠ duplicate.id
  there : ∃ i ∈ s.identities, i.id = keeper.id
  kept : ∀ i ∈ s.identities, i.id = keeper.id → i.source = keeper.source
  retired : ∀ i ∈ s.identities, i.id = duplicate.id → i.source = keeper.source

theorem consolidate_follows (hk : Table.Keyed (fun r : ReleaseRow => r.id) s.releases)
    (h : OneProvider s keeper duplicate) (overlap : Nat × Nat) :
    Follows ids target (s.replacedRelease keeper duplicate) s
      (s.consolidate keeper duplicate overlap) := by
  have hids := (@consolidate_identities s keeper duplicate overlap).1
  have hrows := consolidate_rows (s := s) (keeper, duplicate) overlap
  dsimp only at hrows
  have hat : ∀ u n id, s.IsAt u n id → (s.consolidate keeper duplicate overlap).IsAt u n id := by
    intro u n id hid
    rw [IsAt, consolidate_consolidated.chapters]
    exact hid
  have hkeeper : enriched keeper duplicate ∈
      (s.consolidate keeper duplicate overlap).identities := by
    obtain ⟨i, hi, hid⟩ := h.there
    rw [hids]
    exact List.mem_filter.mpr ⟨Table.mem_put_self hi hid, by simpa [enriched] using h.ne⟩
  -- a release that the keeper has is not one of the duplicate
  have hstays : ∀ k ∈ s.releases, k.sourceSeriesId = keeper.id →
      k ∈ (s.consolidate keeper duplicate overlap).releases := by
    intro k hkm hks
    have hne : k.sourceSeriesId ≠ duplicate.id := fun he => h.ne (hks.symm.trans he)
    rw [hrows]
    refine List.mem_map.mpr ⟨k, List.mem_filter.mpr ⟨hkm, ?_⟩, if_neg hne⟩
    unfold existingRelease
    rw [if_neg hne]
    rfl
  refine ⟨fun r hr => ?_, fun id hne hid' => ?_, fun id hid' => ?_, ?_, ?_,
    fun j' hj' hkind => ?_⟩
  · rw [replacedRelease_eq hk hr]
    cases hex : s.existingRelease keeper duplicate r with
    | some k =>
      obtain ⟨hrs, hkm, hks, hkr⟩ := existingRelease_some hex
      refine ⟨k, hstays k hkm hks, rfl, ⟨hkr, fun i hi he => ?_⟩, fun hsame u n hid => ?_⟩
      · exact ⟨_, hkeeper, hks.symm, (h.retired i hi (he.trans hrs)).symm⟩
      · obtain rfl := hk.eq hkm hr hsame
        exact absurd (hks.symm.trans hrs) h.ne
    | none =>
      have hm : (if r.sourceSeriesId = duplicate.id then { r with sourceSeriesId := keeper.id }
          else r) ∈ (s.consolidate keeper duplicate overlap).releases := by
        rw [hrows]
        exact List.mem_map.mpr ⟨r, List.mem_filter.mpr ⟨hr, by rw [hex]; rfl⟩, rfl⟩
      split at hm
      · rename_i hrs
        refine ⟨_, hm, rfl, ⟨rfl, fun i hi he => ?_⟩, fun _ u n hid => .inl (hat u n _ hid)⟩
        exact ⟨_, hkeeper, rfl, (h.retired i hi (he.trans hrs)).symm⟩
      · rename_i hrs
        refine ⟨r, hm, rfl, ⟨rfl, fun i hi he => ?_⟩, fun _ u n hid => .inl (hat u n _ hid)⟩
        by_cases hik : i.id = keeper.id
        · exact ⟨_, hkeeper, hik.symm.trans he, (h.kept i hi hik).symm⟩
        · refine ⟨i, ?_, he, rfl⟩
          rw [hids]
          exact List.mem_filter.mpr ⟨Table.mem_put_of_ne hi hik, by simpa [he] using hrs⟩
  · obtain ⟨r', hr', he⟩ := hid'
    rw [hrows] at hr'
    obtain ⟨r, hr, rfl⟩ := List.mem_map.mp hr'
    obtain ⟨hr, hnone⟩ := List.mem_filter.mp hr
    have hid : r.id = id := by
      rw [← he]
      split
      · rfl
      · rfl
    rw [← hid, replacedRelease_eq hk hr, Option.isNone_iff_eq_none.mp hnone] at hne
    exact hne rfl
  · obtain ⟨r', hr', he⟩ := hid'
    rw [hrows] at hr'
    obtain ⟨r, hr, rfl⟩ := List.mem_map.mp hr'
    refine ⟨r, (List.mem_filter.mp hr).1, ?_⟩
    rw [← he]
    split
    · rfl
    · rfl
  · obtain ⟨alternates, next, he⟩ := @moveAlternates_eq s keeper duplicate overlap
    unfold consolidate
    rw [he]
    exact List.map_map
  · obtain ⟨alternates, next, he⟩ := @moveAlternates_eq s keeper duplicate overlap
    unfold consolidate
    rw [he]
    exact List.map_map
  · obtain ⟨alternates, next, he⟩ := @moveAlternates_eq s keeper duplicate overlap
    unfold consolidate at hj'
    rw [he] at hj'
    obtain ⟨j, hj, rfl⟩ := List.mem_map.mp hj'
    split at hkind
    · rename_i hdownload
      rw [if_pos hdownload]
      exact ⟨j, hj, rfl, hdownload, rfl, rfl⟩
    · rename_i hdownload
      exact absurd hkind hdownload

/-- The rows of a pair still to come are there, of one provider. -/
structure PairThere (s : Collection) (p : CatalogSourceSeries × CatalogSourceSeries) : Prop where
  ne : p.1.id ≠ p.2.id
  provider : p.1.source = p.2.source
  left : s.HasIdentity p.1.id
  right : s.HasIdentity p.2.id
  source : ∀ i ∈ s.identities, i.id = p.1.id ∨ i.id = p.2.id → i.source = p.1.source

theorem PairThere.keeperOf {p : CatalogSourceSeries × CatalogSourceSeries} (h : PairThere s p)
    (right : CatalogSourceSeries) : OneProvider s (Collection.keeperOf right p.1 p.2).1
      (Collection.keeperOf right p.1 p.2).2 := by
  rcases keeperOf_cases right p.1 p.2 with he | he <;> rw [he]
  · exact ⟨h.ne.symm, h.right, fun i hi he => (h.source i hi (.inr he)).trans h.provider,
      fun i hi he => (h.source i hi (.inl he)).trans h.provider⟩
  · exact ⟨h.ne, h.left, fun i hi he => h.source i hi (.inl he),
      fun i hi he => h.source i hi (.inr he)⟩

theorem PairThere.consolidate {p : CatalogSourceSeries × CatalogSourceSeries} (h : PairThere s p)
    (hk : p.1.id ≠ keeper.id ∧ p.2.id ≠ keeper.id)
    (hd : p.1.id ≠ duplicate.id ∧ p.2.id ≠ duplicate.id) (overlap : Nat × Nat) :
    PairThere (s.consolidate keeper duplicate overlap) p := by
  have hids := (@consolidate_identities s keeper duplicate overlap).1
  have hstays : ∀ id, id ≠ keeper.id → id ≠ duplicate.id → s.HasIdentity id →
      (s.consolidate keeper duplicate overlap).HasIdentity id := by
    rintro _ hne hne' ⟨i, hi, rfl⟩
    refine ⟨i, ?_, rfl⟩
    rw [hids]
    exact List.mem_filter.mpr ⟨Table.mem_put_of_ne hi hne, by simpa using hne'⟩
  refine ⟨h.ne, h.provider, hstays _ hk.1 hd.1 h.left, hstays _ hk.2 hd.2 h.right,
    fun i hi he => ?_⟩
  rw [hids] at hi
  rcases Table.mem_put.mp (List.mem_filter.mp hi).1 with ⟨rfl, -⟩ | ⟨hi, -⟩
  · rcases he with he | he
    · exact absurd he.symm hk.1
    · exact absurd he.symm hk.2
  · exact h.source i hi he

theorem foldlM_consolidatePair_follows {right : CatalogSourceSeries}
    {pairs : List (CatalogSourceSeries × CatalogSourceSeries)}
    (hk : Table.Keyed (fun r : ReleaseRow => r.id) s.releases)
    (hpairs : ∀ p ∈ pairs, PairThere s p) (hd : pairs.Pairwise Apart)
    (h : pairs.foldlM (consolidatePair t right) s = .ok s') : ∃ f, Follows ids target f s s' := by
  induction pairs generalizing s with
  | nil =>
    cases h
    exact ⟨id, .refl⟩
  | cons p pairs ih =>
    obtain ⟨s₁, hp, hrest⟩ := foldlM_cons_eq_ok.mp h
    obtain ⟨hhead, htail⟩ := List.pairwise_cons.mp hd
    unfold consolidatePair at hp
    dsimp only at hp
    split at hp
    · cases hp
    cases hp
    have hone := (hpairs p List.mem_cons_self).keeperOf right
    have hout : ∀ p' ∈ pairs, (p'.1.id ≠ (keeperOf right p.1 p.2).1.id ∧
        p'.2.id ≠ (keeperOf right p.1 p.2).1.id) ∧ p'.1.id ≠ (keeperOf right p.1 p.2).2.id ∧
          p'.2.id ≠ (keeperOf right p.1 p.2).2.id := by
      intro p' hp'
      obtain ⟨⟨ha, hb⟩, hc, hd⟩ := hhead p' hp'
      rcases keeperOf_cases right p.1 p.2 with he | he <;> rw [he]
      · exact ⟨⟨hc.symm, hd.symm⟩, ha.symm, hb.symm⟩
      · exact ⟨⟨ha.symm, hb.symm⟩, hc.symm, hd.symm⟩
    generalize keeperOf right p.1 p.2 = q at hone hout hrest
    obtain ⟨g, hg⟩ := ih ((consolidate_carries hone.ne _).keyed hk) (fun p' hp' =>
      (hpairs p' (List.mem_cons_of_mem _ hp')).consolidate (hout p' hp').1 (hout p' hp').2 _)
      htail hrest
    exact ⟨_, (consolidate_follows hk hone _).trans hg⟩

/-! ## One series -/

theorem mergeChapter_follows (hs : source ∈ ids) (hne : target ≠ source) (hok : s.ChaptersOk)
    (hc : chapter ∈ s.chapters) (hu : chapter.seriesId = source) :
    Follows ids target id s (mergeChapter target s chapter) := by
  obtain ⟨m, hm, hat⟩ := (mergeChapter_shifted hne hok hc hu).releases
  have htables := @mergeChapter_tables s target chapter
  refine follows_of_same hm (fun u n id h => ?_)
    (fun i hi => ⟨i, by rwa [htables.identities], rfl, rfl⟩) ?_ ?_ fun j hj hkind => ?_
  · rcases hat u n id h with h | ⟨rfl, h⟩
    · exact .inl h
    · exact .inr ⟨hs, h⟩
  · unfold mergeChapter
    split
    · rfl
    · exact List.map_map
  · unfold mergeChapter
    split
    · rfl
    · exact List.map_map
  · rw [htables.queue] at hj
    exact ⟨j, hj, rfl, hkind, rfl, rfl⟩

theorem moveSeries_follows : Follows ids target id s (s.moveSeries target source) := by
  refine follows_of_same (m := id) (List.map_id _).symm (fun _ _ _ h => .inl h)
    (fun i hi => ⟨_, List.mem_map_of_mem hi, rfl, rfl⟩) rfl rfl fun j' hj' hkind => ?_
  obtain ⟨j, hj, rfl⟩ := List.mem_map.mp hj'
  split at hkind
  · rename_i hkey
    rw [if_pos hkey]
    exact ⟨j, hj, rfl, hkind, rfl, rfl⟩
  · rename_i hkey
    rw [if_neg hkey]
    exact ⟨j, hj, rfl, hkind, rfl, rfl⟩

theorem mergeInto_follows (hs : source ∈ ids) (hne : target ≠ source) (hok : s.MergeOk)
    (hk : Table.Keyed (fun r : ReleaseRow => r.id) s.releases)
    (h : mergeInto t target s source = .ok s') :
    (∃ f, Follows ids target f s s') ∧ Table.Keyed (fun r : ReleaseRow => r.id) s'.releases := by
  obtain ⟨lr, s₁, hc, hover, hfold, -, rfl⟩ := mergeInto_ok hok.identities hne h
  have hcons := consolidateOverlapping_consolidated hover
  have hpairs : ∀ p ∈ s.sharedPairs target source, PairThere s p := by
    intro p hp
    obtain ⟨⟨h₁, hu₁⟩, ⟨h₂, hu₂⟩, hsrc⟩ := sharedPairs_mem hp
    refine ⟨fun he => hne ?_, hsrc, ⟨_, h₁, rfl⟩, ⟨_, h₂, rfl⟩, fun i hi he => ?_⟩
    · rw [← hu₁, ← hu₂, hok.identities.eq h₁ h₂ he]
    · rcases he with he | he
      · rw [hok.identities.eq hi h₁ he]
      · rw [hok.identities.eq hi h₂ he, hsrc]
  have hapart : (s.sharedPairs target source).Pairwise Apart := sharedPairs_apart hok.identities
  obtain ⟨f, hf⟩ : ∃ f, Follows ids target f s s₁ :=
    foldlM_consolidatePair_follows hk hpairs hapart hfold
  have hk₁ := (foldlM_consolidatePair_carries hfold (fun p hp => (hpairs p hp).ne) hapart).keyed hk
  have hok₁ : s₁.ChaptersOk :=
    ⟨hcons.chapters ▸ hok.chapters.keyed, hcons.chapters ▸ hok.chapters.numbers⟩
  generalize hlist : (s₁.chapters.filter (·.seriesId == source)).insertionSort (·.id ≤ ·.id) = l
  have hmem : ∀ c ∈ l, c ∈ s₁.chapters ∧ c.seriesId = source := by
    intro c hc
    rw [← hlist, List.mem_insertionSort] at hc
    simpa using hc
  have hnd : (l.map (·.id)).Nodup := by
    rw [← hlist]
    exact ((List.perm_insertionSort _ _).map _).nodup_iff.mpr hok₁.keyed.filter
  obtain ⟨⟨hf₂, hk₂⟩, -, -⟩ := foldl_mergeChapter_keeps (P := fun s' =>
      Follows ids target id s₁ s' ∧ Table.Keyed (fun r : ReleaseRow => r.id) s'.releases) hne hok₁
    hmem hnd ⟨.refl, hk₁⟩ fun s₂ c ⟨hf₂, hk₂⟩ hok₂ hcm hu => by
      obtain ⟨m, hm, -⟩ := (mergeChapter_shifted hne hok₂ hcm hu).releases
      refine ⟨hf₂.trans (mergeChapter_follows hs hne hok₂ hcm hu), ?_⟩
      rw [hm]
      exact hk₂.map fun _ _ _ _ he => he
  exact ⟨⟨_, (hf.trans hf₂).trans moveSeries_follows⟩, hk₂⟩

/-! ## All series -/

theorem foldlM_mergeInto_follows {l : List Nat} (hl : ∀ u ∈ l, u ∈ ids ∧ u ≠ target)
    (hok : s.MergeOk) (hk : Table.Keyed (fun r : ReleaseRow => r.id) s.releases)
    (h : l.foldlM (mergeInto t target) s = .ok s') : ∃ f, Follows ids target f s s' := by
  induction l generalizing s with
  | nil =>
    cases h
    exact ⟨id, .refl⟩
  | cons source l ih =>
    obtain ⟨s₁, h₁, h⟩ := foldlM_cons_eq_ok.mp h
    obtain ⟨hs, hne⟩ := hl source List.mem_cons_self
    obtain ⟨⟨f, hf⟩, hk₁⟩ := mergeInto_follows hs hne.symm hok hk h₁
    obtain ⟨g, hg⟩ := ih (fun u hu => hl u (List.mem_cons_of_mem _ hu))
      (mergeInto_round hok hne.symm h₁).ok hk₁ h
    exact ⟨_, hf.trans hg⟩

/-- Every release is there, under its number in the series that is left, or one of its provider
stands for it; and what named it names that one. -/
structure Followed (ids : List Nat) (target : Nat) (f : Nat → Nat) (s s' : Collection) : Prop where
  release : ∀ r ∈ s.releases, ∃ r' ∈ s'.releases, r'.id = f r.id ∧ Stands s s' r r' ∧
    (f r.id = r.id → ∀ u n, s.IsAt u n r.chapterId →
      s'.IsAt (if u ∈ ids then target else u) n r'.chapterId)
  origin : ∀ id, s'.HasRelease id → f id = id ∧ s.HasRelease id
  artifacts : (s'.artifacts.map fun a => (a.id, a.blobChecksum, a.chapterReleaseId)) =
    s.artifacts.map fun a => (a.id, a.blobChecksum, a.chapterReleaseId.map f)
  attempts : (s'.attempts.map fun a => (a.jobId, a.outcome, a.chapterReleaseId)) =
    s.attempts.map fun a => (a.jobId, a.outcome, f a.chapterReleaseId)
  jobs : ∀ j' ∈ s'.queue.jobs, j'.kind = .chapterDownload → ∃ j ∈ s.queue.jobs, j.id = j'.id ∧
    j.kind = .chapterDownload ∧ j'.payload = j.payload.mapRelease f ∧
    j'.pendingPayload = j.pendingPayload.map (JobPayload.mapRelease f)

/-- What a merge does to the releases, and to the rows that name them. -/
theorem mergeCanonicalSeries_followed {now : Time} (hok : s.MergeOk)
    (hread : Table.Keyed CatalogChapterReadingState.chapterId s.readingStates)
    (hk : Table.Keyed (fun r : ReleaseRow => r.id) s.releases)
    (h : s.mergeCanonicalSeries t ids now = .ok (s', target)) :
    ∃ f, Followed ids target f s s' := by
  obtain ⟨-, -, hempty⟩ := mergeCanonicalSeries_pools hok hread h
  have hmem := @mem_mergeOrder _ _ _ _ _ _ hok.series h
  obtain ⟨row, s₁, queue, created, hrow, rfl, hfold, hrepair, rfl⟩ := mergeCanonicalSeries_ok h
  rw [mergeOrder_eq hrow] at hmem
  have hstart : Follows ids row.id id s (s.withStatus row (s.selectedSeries ids)) :=
    follows_of_same (m := id) (List.map_id _).symm (fun _ _ _ h => .inl h)
      (fun i hi => ⟨i, hi, rfl, rfl⟩) rfl rfl fun j hj hkind => ⟨j, hj, rfl, hkind, rfl, rfl⟩
  obtain ⟨f, hf⟩ : ∃ f, Follows ids row.id f (s.withStatus row (s.selectedSeries ids)) s₁ := by
    refine foldlM_mergeInto_follows (fun u hu => ?_) (withStatus_mergeOk hok) hk hfold
    refine ⟨hmem.mp (List.mem_cons_of_mem _ hu), ?_⟩
    obtain ⟨x, hx, rfl⟩ := List.mem_map.mp hu
    simpa using (List.mem_filter.mp hx).2
  have hjobs := Queue.enqueueLibraryRepair_others hrepair
  have hend : Follows ids row.id id s₁ { s₁ with queue := queue } :=
    follows_of_same (m := id) (List.map_id _).symm (fun _ _ _ h => .inl h)
      (fun i hi => ⟨i, hi, rfl, rfl⟩) rfl rfl fun j hj hkind =>
        ⟨j, hjobs j hj (by simp [hkind]), rfl, hkind, rfl, rfl⟩
  have hall := (hstart.trans hf).trans hend
  refine ⟨_, fun r hr => ?_, fun id hid => ⟨?_, hall.origin id hid⟩, hall.artifacts, hall.attempts,
    hall.jobs⟩
  · obtain ⟨r', hr', hid, hstands, hat⟩ := hall.release r hr
    refine ⟨r', hr', hid, hstands, fun hsame u n hrn => ?_⟩
    rcases hat hsame u n hrn with h | ⟨hu, h⟩
    · split
      · -- the others of the series that were merged are empty
        rename_i hu
        by_cases he : u = row.id
        · exact he ▸ h
        · exact absurd h (hempty u hu he n _)
      · exact h
    · rwa [if_pos hu]
  · by_contra hne
    exact hall.gone id hne hid

end

/-- The releases of the retired listing are replaced, and the attempt names the one of the kept
listing. -/
theorem twoListings_followed : ∃ s' target f,
    twoListings.mergeCanonicalSeries asciiText [1, 2] 0 = .ok (s', target) ∧
      Followed [1, 2] target f twoListings s' ∧
      s'.releases.map (·.id) = [104, 202, 203, 206] ∧
      s'.attempts.map (·.chapterReleaseId) = [203] := by
  have hrows : ((twoListings.mergeCanonicalSeries asciiText [1, 2] 0).map fun r =>
      (r.1.releases.map (·.id), r.1.attempts.map (·.chapterReleaseId))).toOption =
        some ([104, 202, 203, 206], [203]) := by decide +kernel
  cases h : twoListings.mergeCanonicalSeries asciiText [1, 2] 0 with
  | error e =>
    rw [h] at hrows
    cases hrows
  | ok r =>
    rw [h] at hrows
    obtain ⟨hreleases, hattempts⟩ := Prod.mk.inj (Option.some.inj hrows)
    obtain ⟨f, hf⟩ := mergeCanonicalSeries_followed twoListings_mergeOk (by decide)
      (by decide +kernel) h
    exact ⟨r.1, r.2, f, rfl, hf, hreleases, hattempts⟩

end Collection

end MangaManager
