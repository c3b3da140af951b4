import MangaManager.Matches.Separations
import MangaManager.Series.Preview
import Mathlib.Order.Bounds.Basic

/-!
# What a merge makes of the chapters

A merge moves the chapters of several series into one. A chapter is found by its place,
the series and the number: `Pools` says that a step moves what hangs on a chapter of the
series `ids` only to the target, under the same number, and that of several reading states
of a number the furthest is left. `mergeCanonicalSeries_pooled` puts the steps together:
the series that is left has one chapter for each number of all of them, with the furthest
reading state, and the other series are as before.
-/

namespace MangaManager

open Lib

/-- What a row of `chapter_reading_state_v2` says of its chapter. -/
structure Reading where
  status : ReadingStatus
  readAt : Option Time
  deriving DecidableEq

/-- Reading states are compared by how far they are. -/
instance : Preorder Reading := Preorder.lift fun v => v.status.rank

theorem Reading.le_iff {v w : Reading} : v ≤ w ↔ v.status.rank ≤ w.status.rank := Iff.rfl

def CatalogChapterReadingState.reading (r : CatalogChapterReadingState) : Reading :=
  ⟨r.status, r.readAt⟩

namespace Collection

/-- What the reading states of the chapters of number `n` say, over the series `ids`. -/
def readings (s : Collection) (ids : List Nat) (n : String) : Set Reading :=
  {v | ∃ u ∈ ids, ∃ r ∈ s.readingStates, s.IsAt u n r.chapterId ∧ r.reading = v}

/-- Chapters of `ids` go to the target, and what hangs on them goes with them. -/
structure Pools (ids : List Nat) (target : Nat) (s s' : Collection) : Prop where
  kept : ∀ u n id, s.IsAt u n id → ∃ id', s'.IsAt u n id' ∨ (u ∈ ids ∧ s'.IsAt target n id')
  origin : ∀ u n id, s'.IsAt u n id → s.IsAt u n id ∨ (u = target ∧ ∃ v ∈ ids, s.IsAt v n id)
  active : ∀ u n, s'.ActiveAt u n → s.ActiveAt u n ∨ (u = target ∧ ∃ v ∈ ids, s.ActiveAt v n)
  reads : ∀ n, s'.readings ids n ⊆ s.readings ids n
  furthest : ∀ n, IsCofinalFor (s.readings ids n) (s'.readings ids n)
  others : ∀ u, u ∉ ids → ∀ n, s'.readings [u] n = s.readings [u] n
  keyed : Table.Keyed CatalogChapterReadingState.chapterId s.readingStates →
    Table.Keyed CatalogChapterReadingState.chapterId s'.readingStates

section
variable {s s₁ s' : Collection} {ids : List Nat} {t : TextLib} {target source : Nat}
  {chapter home : CatalogChapter} {u : Nat} {n : String} {id : Nat}

theorem mem_readings_singleton {v : Reading} :
    v ∈ s.readings [u] n ↔ ∃ r ∈ s.readingStates, s.IsAt u n r.chapterId ∧ r.reading = v := by
  simp [readings]

theorem Pools.refl : Pools ids target s s :=
  ⟨fun _ _ id h => ⟨id, .inl h⟩, fun _ _ _ h => .inl h, fun _ _ h => .inl h, fun _ _ h => h,
    fun _ v h => ⟨v, h, le_rfl⟩, fun _ _ _ => rfl, id⟩

theorem Pools.trans (ht : target ∈ ids) (h₁ : Pools ids target s s₁)
    (h₂ : Pools ids target s₁ s') : Pools ids target s s' := by
  refine ⟨fun u n id h => ?_, fun u n id h => ?_, fun u n h => ?_,
    fun n => (h₂.reads n).trans (h₁.reads n), fun n v hv => ?_,
    fun u hu n => (h₂.others u hu n).trans (h₁.others u hu n), fun h => h₂.keyed (h₁.keyed h)⟩
  · obtain ⟨id₁, h | ⟨hu, h⟩⟩ := h₁.kept u n id h
    · exact h₂.kept u n id₁ h
    · obtain ⟨id', h | ⟨-, h⟩⟩ := h₂.kept target n id₁ h
      · exact ⟨id', .inr ⟨hu, h⟩⟩
      · exact ⟨id', .inr ⟨hu, h⟩⟩
  · rcases h₂.origin u n id h with h | ⟨rfl, v, hv, h⟩
    · exact h₁.origin u n id h
    · rcases h₁.origin v n id h with h | ⟨-, w, hw, h⟩
      · exact .inr ⟨rfl, v, hv, h⟩
      · exact .inr ⟨rfl, w, hw, h⟩
  · rcases h₂.active u n h with h | ⟨rfl, v, hv, h⟩
    · exact h₁.active u n h
    · rcases h₁.active v n h with h | ⟨-, w, hw, h⟩
      · exact .inr ⟨rfl, v, hv, h⟩
      · exact .inr ⟨rfl, w, hw, h⟩
  · obtain ⟨w, hw, hvw⟩ := h₁.furthest n hv
    obtain ⟨x, hx, hwx⟩ := h₂.furthest n hw
    exact ⟨x, hx, hvw.trans hwx⟩

/-- A step on other tables, which leaves the artifacts where they are. -/
theorem pools_of_same {f : ChapterArtifact → ChapterArtifact} (hc : s'.chapters = s.chapters)
    (hr : s'.readingStates = s.readingStates) (ha : s'.artifacts = s.artifacts.map f)
    (hf : ∀ a, (f a).state = a.state ∧ (f a).chapterId = a.chapterId) : Pools ids target s s' := by
  have hat : ∀ u n id, s'.IsAt u n id ↔ s.IsAt u n id := by
    intro u n id
    rw [IsAt, hc, IsAt]
  have hread : ∀ ids n, s'.readings ids n = s.readings ids n := by
    intro ids n
    simp only [readings, hr, hat]
  refine ⟨fun u n id h => ⟨id, .inl ((hat u n id).mpr h)⟩, fun u n id h => .inl ((hat u n id).mp h),
    fun u n h => .inl ?_, fun n => (hread ids n).le, fun n v hv => ⟨v, ?_, le_rfl⟩,
    fun u _ n => hread [u] n, fun h => hr ▸ h⟩
  · obtain ⟨a', ha', hact, h⟩ := h
    rw [ha] at ha'
    obtain ⟨a, hm, rfl⟩ := List.mem_map.mp ha'
    rw [(hf a).1] at hact
    rw [(hf a).2] at h
    exact ⟨a, hm, hact, (hat u n _).mp h⟩
  · rw [hread]
    exact hv

/-! ## One chapter -/

/-- The reading states once the chapter went into `home`. -/
structure ReadingMerged (chapter home : CatalogChapter)
    (rows rows' : List CatalogChapterReadingState) : Prop where
  gone : ∀ r' ∈ rows', r'.chapterId ≠ chapter.id
  origin : ∀ r' ∈ rows', r' ∈ rows ∨ (r'.chapterId = home.id ∧
    ∃ r ∈ rows, r.chapterId = chapter.id ∧ r.reading = r'.reading)
  covers : ∀ r ∈ rows, r.chapterId = chapter.id ∨ r.chapterId = home.id →
    ∃ r' ∈ rows', r'.chapterId = home.id ∧ r.reading ≤ r'.reading
  rest : ∀ r ∈ rows, r.chapterId ≠ chapter.id → r.chapterId ≠ home.id → r ∈ rows'
  keyed : Table.Keyed CatalogChapterReadingState.chapterId rows'

theorem mergeReading_merged (hne : home.id ≠ chapter.id)
    (hk : Table.Keyed CatalogChapterReadingState.chapterId s.readingStates) :
    ReadingMerged chapter home s.readingStates (s.mergeReading chapter home) := by
  unfold mergeReading
  dsimp only
  split
  · -- the chapter has none
    rename_i hnone
    have hno := Table.get_eq_none.mp hnone
    exact ⟨hno, fun r hr => .inl hr, fun r hr h => ⟨r, hr, h.resolve_left (hno r hr), le_rfl⟩,
      fun r hr _ _ => hr, hk⟩
  rename_i src hsrc
  have hsm := Table.get_mem hsrc
  have hsid : src.chapterId = chapter.id := Table.get_key hsrc
  split
  · -- and `home` has none, so the row goes over
    rename_i hnone
    have hno := Table.get_eq_none.mp hnone
    refine ⟨fun r' hr' => ?_, fun r' hr' => ?_, fun r hr h => ?_, fun r hr h _ => ?_, ?_⟩
    · obtain ⟨r, -, rfl⟩ := List.mem_map.mp hr'
      split
      · exact hne
      · assumption
    · obtain ⟨r, hr, rfl⟩ := List.mem_map.mp hr'
      split
      · rename_i he
        exact .inr ⟨rfl, r, hr, he, rfl⟩
      · exact .inl hr
    · have he := h.resolve_right (hno r hr)
      refine ⟨{ r with chapterId := home.id }, ?_, rfl, le_rfl⟩
      exact List.mem_map.mpr ⟨r, hr, if_pos he⟩
    · exact List.mem_map.mpr ⟨r, hr, if_neg h⟩
    · refine hk.map fun x hx y hy he => ?_
      have hx' := hno x hx
      have hy' := hno y hy
      grind
  · -- both have one, and the further of the two is left
    rename_i kept hkept
    have hkm := Table.get_mem hkept
    have hkid : kept.chapterId = home.id := Table.get_key hkept
    have hmem : ∀ r' : CatalogChapterReadingState, r' ∈ (if kept.status.rank < src.status.rank then
        Table.put CatalogChapterReadingState.chapterId s.readingStates
          { kept with status := src.status, readAt := src.readAt }
        else s.readingStates) ↔
        (r'.chapterId ≠ home.id ∧ r' ∈ s.readingStates) ∨
          r' = if kept.status.rank < src.status.rank then
            { kept with status := src.status, readAt := src.readAt } else kept := by
      intro r'
      split
      · rw [Table.mem_put]
        constructor
        · rintro (⟨rfl, -⟩ | ⟨hr, he⟩)
          · exact .inr rfl
          · exact .inl ⟨hkid ▸ he, hr⟩
        · rintro (⟨he, hr⟩ | rfl)
          · exact .inr ⟨hr, hkid.symm ▸ he⟩
          · exact .inl ⟨rfl, kept, hkm, rfl⟩
      · constructor
        · intro hr
          by_cases he : r'.chapterId = home.id
          · exact .inr (hk.eq hr hkm (he.trans hkid.symm))
          · exact .inl ⟨he, hr⟩
        · rintro (⟨-, hr⟩ | rfl)
          · exact hr
          · exact hkm
    have hleft : ∀ r' : CatalogChapterReadingState, (r' = if kept.status.rank < src.status.rank then
        { kept with status := src.status, readAt := src.readAt } else kept) →
        r'.chapterId = home.id ∧ (r' = kept ∨ r'.reading = src.reading) ∧
          kept.reading ≤ r'.reading ∧ src.reading ≤ r'.reading := by
      rintro r' rfl
      split
      · rename_i hlt
        exact ⟨hkid, .inr rfl, Reading.le_iff.mpr hlt.le, le_rfl⟩
      · rename_i hlt
        exact ⟨hkid, .inl rfl, le_rfl, Reading.le_iff.mpr (not_lt.mp hlt)⟩
    refine ⟨fun r' hr' => ?_, fun r' hr' => ?_, fun r hr h => ?_, fun r hr h h' => ?_, ?_⟩
    · simpa using (List.mem_filter.mp hr').2
    · rcases (hmem r').mp (List.mem_filter.mp hr').1 with ⟨-, hr⟩ | he
      · exact .inl hr
      · obtain ⟨hid, rfl | hsame, -, -⟩ := hleft r' he
        · exact .inl hkm
        · exact .inr ⟨hid, src, hsm, hsid, hsame.symm⟩
    · obtain ⟨hid, -, hle, hle'⟩ := hleft _ rfl
      refine ⟨_, List.mem_filter.mpr ⟨(hmem _).mpr (.inr rfl), ?_⟩, hid, ?_⟩
      · simpa [hid] using hne
      · rcases h with h | h
        · rwa [hk.eq hr hsm (h.trans hsid.symm)]
        · rwa [hk.eq hr hkm (h.trans hkid.symm)]
    · exact List.mem_filter.mpr ⟨(hmem r).mpr (.inl ⟨h', hr⟩), by simpa using h⟩
    · refine Table.Keyed.filter ?_
      split
      · exact Table.keyed_put.mpr hk
      · exact hk

/-- A chapter of a number that the target has not goes over with all that hangs on it. -/
theorem put_pools (ht : target ∈ ids) (hs : source ∈ ids) (hok : s.ChaptersOk)
    (hc : chapter ∈ s.chapters) (hu : chapter.seriesId = source) :
    Pools ids target s { s with
      chapters := Table.put CatalogChapter.id s.chapters { chapter with seriesId := target } } := by
  generalize hs' : ({ s with
    chapters := Table.put CatalogChapter.id s.chapters { chapter with seriesId := target } } :
      Collection) = s'
  have hread : s'.readingStates = s.readingStates := by rw [← hs']
  have hart : s'.artifacts = s.artifacts := by rw [← hs']
  have hat : ∀ u n id, s'.IsAt u n id ↔ (s.IsAt u n id ∧ id ≠ chapter.id) ∨
      (u = target ∧ n = chapter.canonicalNumber ∧ id = chapter.id) := by
    intro u n id
    subst hs'
    simp only [IsAt, Table.mem_put]
    constructor
    · rintro ⟨c, ⟨rfl, -⟩ | ⟨hcm, hne⟩, rfl, rfl, rfl⟩
      · exact .inr ⟨rfl, rfl, rfl⟩
      · exact .inl ⟨⟨c, hcm, rfl, rfl, rfl⟩, hne⟩
    · rintro (⟨⟨c, hcm, rfl, rfl, rfl⟩, hne⟩ | ⟨rfl, rfl, rfl⟩)
      · exact ⟨c, .inr ⟨hcm, hne⟩, rfl, rfl, rfl⟩
      · exact ⟨_, .inl ⟨rfl, chapter, hc, rfl⟩, rfl, rfl, rfl⟩
  have hthere : s.IsAt source chapter.canonicalNumber chapter.id := ⟨chapter, hc, rfl, hu, rfl⟩
  have hto : ∀ u n id, s.IsAt u n id → s'.IsAt u n id ∨ (u = source ∧ s'.IsAt target n id) := by
    intro u n id h
    by_cases he : id = chapter.id
    · subst he
      obtain ⟨rfl, rfl⟩ := hok.isAt_eq h hthere
      exact .inr ⟨rfl, (hat _ _ _).mpr (.inr ⟨rfl, rfl, rfl⟩)⟩
    · exact .inl ((hat u n id).mpr (.inl ⟨h, he⟩))
  have hfrom : ∀ u n id, s'.IsAt u n id → s.IsAt u n id ∨ (u = target ∧ s.IsAt source n id) := by
    intro u n id h
    rcases (hat u n id).mp h with ⟨h, -⟩ | ⟨rfl, rfl, rfl⟩
    · exact .inl h
    · exact .inr ⟨rfl, hthere⟩
  refine ⟨fun u n id h => ⟨id, ?_⟩, fun u n id h => ?_, fun u n h => ?_, fun n v hv => ?_,
    fun n v hv => ⟨v, ?_, le_rfl⟩, fun u hu' n => Set.ext fun v => ?_, fun h => hread ▸ h⟩
  · rcases hto u n id h with h | ⟨rfl, h⟩
    · exact .inl h
    · exact .inr ⟨hs, h⟩
  · exact (hfrom u n id h).imp_right fun h => ⟨h.1, source, hs, h.2⟩
  · obtain ⟨a, ha, hact, h⟩ := h
    exact (hfrom u n _ h).imp (fun h => ⟨a, hart ▸ ha, hact, h⟩)
      fun h => ⟨h.1, source, hs, a, hart ▸ ha, hact, h.2⟩
  · obtain ⟨w, hw, r, hr, h, rfl⟩ := hv
    rcases hfrom w n _ h with h | ⟨-, h⟩
    · exact ⟨w, hw, r, hread ▸ hr, h, rfl⟩
    · exact ⟨source, hs, r, hread ▸ hr, h, rfl⟩
  · obtain ⟨w, hw, r, hr, h, rfl⟩ := hv
    rcases hto w n _ h with h | ⟨-, h⟩
    · exact ⟨w, hw, r, hread ▸ hr, h, rfl⟩
    · exact ⟨target, ht, r, hread ▸ hr, h, rfl⟩
  · have hut : u ≠ target := fun he => hu' (he ▸ ht)
    have hus : u ≠ source := fun he => hu' (he ▸ hs)
    have hiff : ∀ id, s'.IsAt u n id ↔ s.IsAt u n id := fun id =>
      ⟨fun h => (hfrom u n id h).resolve_right fun h => hut h.1,
        fun h => (hto u n id h).resolve_right fun h => hus h.1⟩
    rw [mem_readings_singleton, mem_readings_singleton, hread]
    simp only [hiff]

/-- A chapter of a number that the target has is absorbed. -/
theorem absorbChapter_pools (ht : target ∈ ids) (hs : source ∈ ids) (hne : target ≠ source)
    (hok : s.ChaptersOk) (hk : Table.Keyed CatalogChapterReadingState.chapterId s.readingStates)
    (hc : chapter ∈ s.chapters) (hu : chapter.seriesId = source) (hh : home ∈ s.chapters)
    (hhu : home.seriesId = target) (hn : home.canonicalNumber = chapter.canonicalNumber) :
    Pools ids target s (s.absorbChapter target chapter home) := by
  have hid : home.id ≠ chapter.id := by
    intro he
    obtain rfl := hok.keyed.eq hh hc he
    exact hne (hhu.symm.trans hu)
  have hread := mergeReading_merged hid hk
  have hart : (s.absorbChapter target chapter home).artifacts = s.artifacts.map fun a =>
      { a with
        state := if s.hasActiveArtifact home.id = true ∧ a.chapterId = chapter.id ∧
            a.state = .active then .quarantined else a.state
        chapterId := if a.chapterId = chapter.id then home.id else a.chapterId } := rfl
  have hat : ∀ u n id, (s.absorbChapter target chapter home).IsAt u n id ↔
      s.IsAt u n id ∧ id ≠ chapter.id := by
    intro u n id
    simp only [IsAt, absorbChapter, List.mem_filter, bne_iff_ne]
    constructor
    · rintro ⟨c, ⟨hcm, hne⟩, rfl, h⟩
      exact ⟨⟨c, hcm, rfl, h⟩, hne⟩
    · rintro ⟨⟨c, hcm, rfl, h⟩, hne⟩
      exact ⟨c, ⟨hcm, hne⟩, rfl, h⟩
  have hrows : (s.absorbChapter target chapter home).readingStates = s.mergeReading chapter home :=
    rfl
  generalize s.absorbChapter target chapter home = s' at hart hat hrows ⊢
  rw [← hrows] at hread
  have hthere : s.IsAt source chapter.canonicalNumber chapter.id := ⟨chapter, hc, rfl, hu, rfl⟩
  have hhome : s.IsAt target chapter.canonicalNumber home.id := ⟨home, hh, rfl, hhu, hn⟩
  have hhome' : s'.IsAt target chapter.canonicalNumber home.id := (hat _ _ _).mpr ⟨hhome, hid⟩
  refine ⟨fun u n id h => ?_, fun u n id h => .inl ((hat u n id).mp h).1, fun u n h => ?_,
    fun n v hv => ?_, fun n v hv => ?_, fun u hu' n => Set.ext fun v => ?_, fun _ => hread.keyed⟩
  · by_cases he : id = chapter.id
    · subst he
      obtain ⟨rfl, rfl⟩ := hok.isAt_eq h hthere
      exact ⟨home.id, .inr ⟨hs, hhome'⟩⟩
    · exact ⟨id, .inl ((hat u n id).mpr ⟨h, he⟩)⟩
  · -- nothing becomes active, and what moves goes to the same number
    obtain ⟨a', ha', hact, h⟩ := h
    rw [hart] at ha'
    obtain ⟨a, ha, rfl⟩ := List.mem_map.mp ha'
    dsimp only at hact h
    have hact₀ : a.state = .active := by
      split at hact
      · cases hact
      · exact hact
    split at h
    · rename_i he
      obtain ⟨rfl, rfl⟩ := hok.isAt_eq ((hat u n _).mp h).1 hhome
      exact .inr ⟨rfl, source, hs, a, ha, hact₀, he ▸ hthere⟩
    · exact .inl ⟨a, ha, hact₀, ((hat u n _).mp h).1⟩
  · obtain ⟨w, hw, r', hr', h, rfl⟩ := hv
    obtain ⟨h, -⟩ := (hat w n _).mp h
    rcases hread.origin r' hr' with hr | ⟨he, r, hr, hrc, hsame⟩
    · exact ⟨w, hw, r', hr, h, rfl⟩
    · obtain ⟨rfl, rfl⟩ := hok.isAt_eq (he ▸ h) hhome
      exact ⟨source, hs, r, hr, hrc ▸ hthere, hsame⟩
  · obtain ⟨w, hw, r, hr, h, rfl⟩ := hv
    by_cases he : r.chapterId = chapter.id ∨ r.chapterId = home.id
    · obtain ⟨r', hr', hid', hle⟩ := hread.covers r hr he
      have hn' : n = chapter.canonicalNumber := by
        rcases he with he | he
        · exact (hok.isAt_eq (he ▸ h) hthere).2
        · exact (hok.isAt_eq (he ▸ h) hhome).2
      exact ⟨r'.reading, ⟨target, ht, r', hr', hn' ▸ hid' ▸ hhome', rfl⟩, hle⟩
    · rw [not_or] at he
      exact ⟨r.reading, ⟨w, hw, r, hread.rest r hr he.1 he.2, (hat w n _).mpr ⟨h, he.1⟩, rfl⟩,
        le_rfl⟩
  · have hut : u ≠ target := fun he => hu' (he ▸ ht)
    have hus : u ≠ source := fun he => hu' (he ▸ hs)
    rw [mem_readings_singleton, mem_readings_singleton]
    constructor
    · rintro ⟨r', hr', h, rfl⟩
      obtain ⟨h, -⟩ := (hat u n _).mp h
      rcases hread.origin r' hr' with hr | ⟨he, -⟩
      · exact ⟨r', hr, h, rfl⟩
      · exact absurd (hok.isAt_eq (he ▸ h) hhome).1 hut
    · rintro ⟨r, hr, h, rfl⟩
      have h₁ : r.chapterId ≠ chapter.id := fun he => hus (hok.isAt_eq (he ▸ h) hthere).1
      have h₂ : r.chapterId ≠ home.id := fun he => hut (hok.isAt_eq (he ▸ h) hhome).1
      exact ⟨r, hread.rest r hr h₁ h₂, (hat u n _).mpr ⟨h, h₁⟩, rfl⟩

theorem mergeChapter_pools (ht : target ∈ ids) (hs : source ∈ ids) (hne : target ≠ source)
    (hok : s.ChaptersOk) (hk : Table.Keyed CatalogChapterReadingState.chapterId s.readingStates)
    (hc : chapter ∈ s.chapters) (hu : chapter.seriesId = source) :
    Pools ids target s (mergeChapter target s chapter) := by
  unfold mergeChapter
  split
  · exact put_pools ht hs hok hc hu
  · rename_i home hhome
    obtain ⟨hhu, hn⟩ : home.seriesId = target ∧
        home.canonicalNumber = chapter.canonicalNumber := by
      simpa using List.find?_some hhome
    exact absorbChapter_pools ht hs hne hok hk hc hu (List.mem_of_find?_eq_some hhome) hhu hn

/-! ## One series -/

theorem foldlM_consolidatePair_pools {right : CatalogSourceSeries}
    {pairs : List (CatalogSourceSeries × CatalogSourceSeries)} (ht : target ∈ ids)
    (h : pairs.foldlM (consolidatePair t right) s = .ok s') : Pools ids target s s' := by
  refine foldlM_inv (P := fun s' => Pools ids target s s') h .refl fun s₁ p s₂ _ hs₁ hp => ?_
  unfold consolidatePair at hp
  dsimp only at hp
  split at hp
  · cases hp
  cases hp
  refine hs₁.trans ht ?_
  generalize keeperOf right p.1 p.2 = q
  obtain ⟨alternates, next, he⟩ := @moveAlternates_eq s₁ q.1 q.2 (s₁.chapterOverlap q.1.id q.2.id)
  unfold consolidate
  rw [he]
  exact pools_of_same rfl rfl rfl fun _ => ⟨rfl, rfl⟩

theorem mergeInto_pools (ht : target ∈ ids) (hs : source ∈ ids) (hne : target ≠ source)
    (hok : s.MergeOk) (hk : Table.Keyed CatalogChapterReadingState.chapterId s.readingStates)
    (h : mergeInto t target s source = .ok s') : Pools ids target s s' := by
  obtain ⟨lr, s₁, -, hover, hfold, -, rfl⟩ := mergeInto_ok hok.identities hne h
  have hcons := consolidateOverlapping_consolidated hover
  have hpools₁ : Pools ids target s s₁ := foldlM_consolidatePair_pools ht hfold
  have hok₁ : s₁.ChaptersOk :=
    ⟨hcons.chapters ▸ hok.chapters.keyed, hcons.chapters ▸ hok.chapters.numbers⟩
  generalize hlist : (s₁.chapters.filter (·.seriesId == source)).insertionSort (·.id ≤ ·.id) = l
  have hmem : ∀ c ∈ l, c ∈ s₁.chapters ∧ c.seriesId = source := by
    intro c hc
    rw [← hlist, List.mem_insertionSort] at hc
    simpa using hc
  have hnd : (l.map (·.id)).Nodup := by
    rw [← hlist]
    exact ((List.perm_insertionSort _ _).map _).nodup_iff.mpr hok₁.keyed.filter
  obtain ⟨hpools₂, -, -⟩ := foldl_mergeChapter_keeps (P := fun s' => Pools ids target s₁ s') hne
    hok₁ hmem hnd .refl fun s₂ c hs₂ hok₂ hc hu => hs₂.trans ht <|
      mergeChapter_pools ht hs hne hok₂ (hs₂.keyed (hpools₁.keyed hk)) hc hu
  refine (hpools₁.trans ht hpools₂).trans ht ?_
  exact pools_of_same rfl rfl (List.map_id _).symm fun _ => ⟨rfl, rfl⟩

/-! ## All series -/

theorem foldlM_mergeInto_pools {l : List Nat} (ht : target ∈ ids)
    (hl : ∀ u ∈ l, u ∈ ids ∧ u ≠ target) (hok : s.MergeOk)
    (hk : Table.Keyed CatalogChapterReadingState.chapterId s.readingStates)
    (h : l.foldlM (mergeInto t target) s = .ok s') :
    Pools ids target s s' ∧ s'.MergeOk ∧ ∀ u ∈ l, ∀ n id, ¬ s'.IsAt u n id := by
  induction l generalizing s with
  | nil =>
    cases h
    exact ⟨.refl, hok, fun u hu => by cases hu⟩
  | cons source l ih =>
    obtain ⟨s₁, h₁, h⟩ := foldlM_cons_eq_ok.mp h
    obtain ⟨hs, hne⟩ := hl source List.mem_cons_self
    have hround := mergeInto_round hok hne.symm h₁
    have hpools := mergeInto_pools ht hs hne.symm hok hk h₁
    obtain ⟨hpools', hok', hempty⟩ := ih (fun u hu => hl u (List.mem_cons_of_mem _ hu)) hround.ok
      (hpools.keyed hk) h
    refine ⟨hpools.trans ht hpools', hok', fun u hu n id hid => ?_⟩
    rcases List.mem_cons.mp hu with rfl | hu
    · -- the later rounds bring nothing back
      rcases hpools'.origin u n id hid with hid | ⟨he, -⟩
      · exact hround.emptied n id hid
      · exact hne he
    · exact hempty u hu n id hid

/-- The series `ids` are one: what each number had in any of them, `target` has. -/
structure Pooled (ids : List Nat) (target : Nat) (s s' : Collection) : Prop where
  chapter : ∀ u ∈ ids, ∀ n id, s.IsAt u n id → ∃! id', s'.IsAt target n id'
  fromOne : ∀ n id, s'.IsAt target n id → ∃ u ∈ ids, s.IsAt u n id
  artifact : ∀ n, s'.ActiveAt target n ↔ ∃ u ∈ ids, s.ActiveAt u n
  reading : ∀ n v, v ∈ s'.readings [target] n → IsGreatest (s.readings ids n) v
  readingKept : ∀ n, (s.readings ids n).Nonempty → (s'.readings [target] n).Nonempty
  emptied : ∀ u ∈ ids, u ≠ target → ∀ n id, ¬ s'.IsAt u n id
  others : ∀ u, u ∉ ids → ∀ n, (∀ id, s'.IsAt u n id ↔ s.IsAt u n id) ∧
    (s'.ActiveAt u n ↔ s.ActiveAt u n) ∧ s'.readings [u] n = s.readings [u] n

/-- A number is one chapter's in a series. -/
theorem ChaptersOk.isAt_id {id' : Nat} (h : s.ChaptersOk) (h₁ : s.IsAt u n id)
    (h₂ : s.IsAt u n id') : id = id' := by
  obtain ⟨c, hc, rfl, hu, hn⟩ := h₁
  obtain ⟨d, hd, rfl, hu', hn'⟩ := h₂
  rw [h.numbers c hc d hd (hu.trans hu'.symm) (hn.trans hn'.symm)]

theorem withStatus_mergeOk {row : CatalogSeries} {rows : List CatalogSeries} (h : s.MergeOk) :
    (s.withStatus row rows).MergeOk :=
  ⟨⟨h.plansOk.queue, h.plansOk.intents, h.plansOk.below, h.plansOk.plans⟩, h.identities,
    Table.keyed_put.mpr h.series, h.artifacts, h.artifactsBelow,
    ⟨h.chapters.keyed, h.chapters.numbers⟩, h.place⟩

/-- The steps of a merge, and that the series it removes are empty. -/
theorem mergeCanonicalSeries_pools {now : Time} (hs : s.MergeOk)
    (hk : Table.Keyed CatalogChapterReadingState.chapterId s.readingStates)
    (h : s.mergeCanonicalSeries t ids now = .ok (s', target)) :
    Pools ids target s s' ∧ s'.ChaptersOk ∧ ∀ u ∈ ids, u ≠ target → ∀ n id, ¬ s'.IsAt u n id := by
  have ht : target ∈ ids := target_mem hs.identities hs.series h
  have hmem := @mem_mergeOrder _ _ _ _ _ _ hs.series h
  obtain ⟨row, s₁, queue, created, hrow, rfl, hfold, -, rfl⟩ := mergeCanonicalSeries_ok h
  rw [mergeOrder_eq hrow] at hmem
  generalize hsources : ((s.selectedSeries ids).filter (·.id != row.id)).map (·.id) = sources
    at hfold hmem
  have hsource : ∀ u ∈ sources, u ∈ ids ∧ u ≠ row.id := by
    intro u hu
    refine ⟨hmem.mp (List.mem_cons_of_mem _ hu), ?_⟩
    rw [← hsources] at hu
    obtain ⟨x, hx, rfl⟩ := List.mem_map.mp hu
    simpa using (List.mem_filter.mp hx).2
  obtain ⟨hpools, hok₁, hempty⟩ := foldlM_mergeInto_pools (s := s.withStatus row _) ht hsource
    (withStatus_mergeOk hs) hk hfold
  have hstart : Pools ids row.id s (s.withStatus row (s.selectedSeries ids)) :=
    pools_of_same rfl rfl (List.map_id _).symm fun _ => ⟨rfl, rfl⟩
  have hend : Pools ids row.id s₁ { s₁ with queue := queue } :=
    pools_of_same rfl rfl (List.map_id _).symm fun _ => ⟨rfl, rfl⟩
  exact ⟨(hstart.trans ht hpools).trans ht hend, ⟨hok₁.chapters.keyed, hok₁.chapters.numbers⟩,
    fun u hu hne => hempty u ((List.mem_cons.mp (hmem.mpr hu)).resolve_left hne)⟩

/-- A merge makes one series of several, chapter by chapter. -/
theorem mergeCanonicalSeries_pooled {now : Time} (hs : s.MergeOk)
    (hk : Table.Keyed CatalogChapterReadingState.chapterId s.readingStates)
    (h : s.mergeCanonicalSeries t ids now = .ok (s', target)) : Pooled ids target s s' := by
  have ht : target ∈ ids := target_mem hs.identities hs.series h
  have hmem := @mem_mergeOrder _ _ _ _ _ _ hs.series h
  obtain ⟨-, hgathered⟩ := mergeCanonicalSeries_gathered hs h
  obtain ⟨hall, hok, hgone⟩ := mergeCanonicalSeries_pools hs hk h
  have hread' := hall.keyed hk
  -- what is left of `ids` is at the target
  have hleft : ∀ n v, v ∈ s'.readings ids n → v ∈ s'.readings [target] n := by
    rintro n v ⟨u, hu, r, hr, hid, rfl⟩
    have he : u = target := by
      by_contra hne
      exact hgone u hu hne n _ hid
    exact mem_readings_singleton.mpr ⟨r, hr, he ▸ hid, rfl⟩
  have hinto : ∀ n v, v ∈ s'.readings [target] n → v ∈ s'.readings ids n := by
    intro n v hv
    obtain ⟨r, hr, hid, rfl⟩ := mem_readings_singleton.mp hv
    exact ⟨target, ht, r, hr, hid, rfl⟩
  refine ⟨fun u hu n id hid => ?_, fun n id hid => ?_,
    fun n => ⟨fun ha => ?_, fun ⟨u, hu, ha⟩ => ?_⟩,
    fun n v hv => ⟨hall.reads n (hinto n v hv), fun w hw => ?_⟩, fun n ⟨v, hv⟩ => ?_, hgone,
    fun u hu n => ⟨fun id => ⟨fun hid => ?_, fun hid => ?_⟩, ⟨fun ha => ?_, fun ha => ?_⟩,
      hall.others u hu n⟩⟩
  · obtain ⟨id', hid'⟩ := hall.kept u n id hid
    have hat : s'.IsAt target n id' := by
      rcases hid' with hid' | ⟨-, hid'⟩
      · by_cases he : u = target
        · exact he ▸ hid'
        · exact absurd hid' (hgone u hu he n id')
      · exact hid'
    exact ⟨id', hat, fun y hy => hok.isAt_id hy hat⟩
  · rcases hall.origin target n id hid with hid | ⟨-, v, hv, hid⟩
    · exact ⟨target, ht, hid⟩
    · exact ⟨v, hv, hid⟩
  · rcases hall.active target n ha with ha | ⟨-, v, hv, ha⟩
    · exact ⟨target, ht, ha⟩
    · exact ⟨v, hv, ha⟩
  · exact hgathered.active u (hmem.mpr hu) n ha
  · obtain ⟨x, hx, hwx⟩ := hall.furthest n hw
    obtain ⟨r, hr, hid, rfl⟩ := mem_readings_singleton.mp (hleft n x hx)
    obtain ⟨q, hq, hid', rfl⟩ := mem_readings_singleton.mp hv
    rwa [hread'.eq hr hq (hok.isAt_id hid hid')] at hwx
  · obtain ⟨x, hx, -⟩ := hall.furthest n hv
    exact ⟨x, hleft n x hx⟩
  · exact (hall.origin u n id hid).resolve_right fun h => hu (h.1 ▸ ht)
  · obtain ⟨id', hid' | ⟨hu', -⟩⟩ := hall.kept u n id hid
    · have hid₀ := (hall.origin u n id' hid').resolve_right fun h => hu (h.1 ▸ ht)
      exact hs.chapters.isAt_id hid hid₀ ▸ hid'
    · exact absurd hu' hu
  · exact (hall.active u n ha).resolve_right fun h => hu (h.1 ▸ ht)
  · exact hgathered.othersActive u (fun hm => hu (hmem.mp hm)) n ha

end

/-- Two titles that share the numbers 1 and 2: the second reader is further in the first chapter. -/
def twoReaders : Collection :=
  { titlesOf [(1, [1, 2, 3]), (2, [1, 2, 5])] with
    readingStates :=
      [{ chapterId := 101, status := .reading },
        { chapterId := 201, status := .read, readAt := some 4 },
        { chapterId := 205, status := .reading }]
    artifacts := [{ id := 1, chapterId := 202, chapterReleaseId := none, blobChecksum := "x" }]
    nextArtifact := 2 }

theorem twoReaders_mergeOk : twoReaders.MergeOk := by
  refine ⟨⟨⟨?_, ?_⟩, ?_, ?_, ?_⟩, ?_, ?_, ?_, ?_, .of_nodup ?_ ?_, ?_⟩
  · decide
  · simp [twoReaders, titlesOf]
  · decide
  · simp [twoReaders, titlesOf]
  · decide
  · decide +kernel
  · decide +kernel
  · decide
  · simp [twoReaders]
  · decide +kernel
  · decide +kernel
  · simp [twoReaders, titlesOf]

/-- The first chapter is read once the titles are merged. -/
theorem twoReaders_pooled : ∃ s' target,
    twoReaders.mergeCanonicalSeries asciiText [1, 2] 0 = .ok (s', target) ∧
      Pooled [1, 2] target twoReaders s' ∧
      s'.readingStates = [{ chapterId := 101, status := .read, readAt := some 4 },
        { chapterId := 205, status := .reading }] := by
  have hrows : ((twoReaders.mergeCanonicalSeries asciiText [1, 2] 0).map
      fun r => r.1.readingStates).toOption =
        some [{ chapterId := 101, status := .read, readAt := some 4 },
        { chapterId := 205, status := .reading }] := by decide +kernel
  cases h : twoReaders.mergeCanonicalSeries asciiText [1, 2] 0 with
  | error e =>
    rw [h] at hrows
    cases hrows
  | ok r =>
    rw [h] at hrows
    exact ⟨r.1, r.2, rfl, mergeCanonicalSeries_pooled twoReaders_mergeOk (by decide) h,
      Option.some.inj hrows⟩

end Collection

end MangaManager
