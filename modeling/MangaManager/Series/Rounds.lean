import MangaManager.Catalog.Reconcile
import MangaManager.Series.Merge

/-!
# One round of a merge

What `merge_match_groups` makes of the chapters of two series, and of what hangs on
them. The rows are found by their place, the series and the number of their chapter:
the chapters of the source series are taken one by one (`Absorbed`), so a row of the
source ends at the same number of the target, and of two intents at one number the
target's stays.
-/

namespace MangaManager

open Lib

theorem Queue.enqueueLibraryRepair_keeps {q q' : Queue} {seriesId : Nat} {reason : String}
    {priority : Int} {keys : List String} {now : Time} {created : Bool} (hq : q.RowsOk)
    (h : q.enqueueLibraryRepair seriesId reason priority keys now = .ok (q', created)) :
    q.Keeps q' := by
  unfold enqueueLibraryRepair at h
  dsimp only at h
  split at h
  · cases h
  split at h
  · rename_i j hj
    obtain ⟨hm, -, -, ha⟩ := activeJob_some hj
    split at h
    · rename_i j' hmerge
      cases h
      obtain ⟨hid, hstatus⟩ := mergeInto_same hmerge
      exact keeps_putJob hq hm hid.symm (hstatus ▸ ha)
    · cases h
  · obtain ⟨⟨q₁, id, created⟩, he, h⟩ := map_eq_ok.mp h
    cases h
    obtain ⟨hg, hok, -⟩ := enqueue_grows hq he
    exact hg.keeps hok

namespace Collection

/-- The row has the chapter of number `n` in the series `u`. -/
def IsAt (s : Collection) (u : Nat) (n : String) (chapterId : Nat) : Prop :=
  ∃ c ∈ s.chapters, c.id = chapterId ∧ c.seriesId = u ∧ c.canonicalNumber = n

def IntentAt (s : Collection) (u : Nat) (n : String) (i : IntentRow) : Prop :=
  i ∈ s.intents ∧ s.IsAt u n i.chapterId

def ActiveAt (s : Collection) (u : Nat) (n : String) : Prop :=
  ∃ a ∈ s.artifacts, a.state = .active ∧ s.IsAt u n a.chapterId

/-- A merge moves an intent to another chapter, and leaves the rest of the row. -/
structure SameIntent (i i' : IntentRow) : Prop where
  id : i'.id = i.id
  tier : i'.tier = i.tier
  state : i'.state = i.state
  job : i'.jobId = i.jobId

theorem SameIntent.refl {i : IntentRow} : SameIntent i i := ⟨rfl, rfl, rfl, rfl⟩

theorem SameIntent.trans {i j k : IntentRow} (h : SameIntent i j) (h' : SameIntent j k) :
    SameIntent i k :=
  ⟨h'.id.trans h.id, h'.tier.trans h.tier, h'.state.trans h.state, h'.job.trans h.job⟩

/-- Primary keys, and one chapter of a number in a series (`uq_chapter_v2_series_number`). -/
structure ChaptersOk (s : Collection) : Prop where
  keyed : Table.Keyed CatalogChapter.id s.chapters
  numbers : ∀ a ∈ s.chapters, ∀ b ∈ s.chapters, a.seriesId = b.seriesId →
    a.canonicalNumber = b.canonicalNumber → a = b

/-- Chapters of `source` go to `target`: their intents follow them one by one, the `series_id` of
the others at the end. -/
structure Merging (target source : Nat) (s : Collection) : Prop where
  chapters : s.ChaptersOk
  intents : Table.Keyed (fun i : IntentRow => i.id) s.intents
  place : ∀ i ∈ s.intents, ∃ u n, s.IsAt u n i.chapterId ∧
    (i.seriesId = u ∨ (i.seriesId = source ∧ u = target))

/-- What the rounds over chapters of `source` make of the rows at each place. -/
structure Absorbed (target source : Nat) (s s' : Collection) : Prop where
  chapters : ∀ u n id, s.IsAt u n id → ∃ id', s'.IsAt u n id' ∨ (u = source ∧ s'.IsAt target n id')
  stays : ∀ u n i, u ≠ source → s.IntentAt u n i → ∃ i', SameIntent i i' ∧ s'.IntentAt u n i'
  origin : ∀ u n i', s'.IntentAt u n i' →
    (∃ i, SameIntent i i' ∧ s.IntentAt u n i) ∨
      (u = target ∧ ∃ i, SameIntent i i' ∧ s.IntentAt source n i ∧ ∀ j, ¬ s.IntentAt target n j)
  covers : ∀ n i, s.IntentAt source n i → ∃ i', s'.IntentAt target n i' ∨ s'.IntentAt source n i'
  active : ∀ u n, s.ActiveAt u n → s'.ActiveAt u n ∨ (u = source ∧ s'.ActiveAt target n)

section
variable {s s₁ s' : Collection} {target source : Nat} {chapter t : CatalogChapter} {u : Nat}
  {n : String} {id : Nat} {i : IntentRow}

theorem Absorbed.refl : Absorbed target source s s :=
  ⟨fun _ _ id h => ⟨id, .inl h⟩, fun _ _ i _ h => ⟨i, .refl, h⟩, fun _ _ i h => .inl ⟨i, .refl, h⟩,
    fun _ i h => ⟨i, .inr h⟩, fun _ _ h => .inl h⟩

theorem Absorbed.trans (hne : target ≠ source) (h₁ : Absorbed target source s s₁)
    (h₂ : Absorbed target source s₁ s') : Absorbed target source s s' := by
  refine ⟨fun u n id h => ?_, fun u n i hu h => ?_, fun u n i' h => ?_, fun n i h => ?_,
    fun u n h => ?_⟩
  · obtain ⟨id₁, h | ⟨rfl, h⟩⟩ := h₁.chapters u n id h
    · exact h₂.chapters u n id₁ h
    · obtain ⟨id', h | ⟨rfl, h⟩⟩ := h₂.chapters _ n id₁ h
      · exact ⟨id', .inr ⟨rfl, h⟩⟩
      · exact absurd rfl hne
  · obtain ⟨i₁, hs, h⟩ := h₁.stays u n i hu h
    obtain ⟨i', hs', h⟩ := h₂.stays u n i₁ hu h
    exact ⟨i', hs.trans hs', h⟩
  · rcases h₂.origin u n i' h with ⟨i₁, hs, h⟩ | ⟨rfl, i₁, hs, h, hno⟩
    · rcases h₁.origin u n i₁ h with ⟨i, hs', h⟩ | ⟨rfl, i, hs', h, hno⟩
      · exact .inl ⟨i, hs'.trans hs, h⟩
      · exact .inr ⟨rfl, i, hs'.trans hs, h, hno⟩
    · -- the target had no intent there before either, since its intents stay
      rcases h₁.origin source n i₁ h with ⟨i, hs', h⟩ | ⟨he, -⟩
      · refine .inr ⟨rfl, i, hs'.trans hs, h, fun j hj => ?_⟩
        obtain ⟨j₁, -, hj₁⟩ := h₁.stays u n j hne hj
        exact hno j₁ hj₁
      · exact absurd he.symm hne
  · obtain ⟨i₁, h | h⟩ := h₁.covers n i h
    · obtain ⟨i', -, h⟩ := h₂.stays target n i₁ hne h
      exact ⟨i', .inl h⟩
    · exact h₂.covers n i₁ h
  · rcases h₁.active u n h with h | ⟨rfl, h⟩
    · exact h₂.active u n h
    · rcases h₂.active target n h with h | ⟨he, -⟩
      · exact .inr ⟨rfl, h⟩
      · exact absurd he hne

/-! ## One chapter -/

theorem ChaptersOk.isAt_iff (h : s.ChaptersOk) {c : CatalogChapter} (hc : c ∈ s.chapters) :
    s.IsAt u n c.id ↔ c.seriesId = u ∧ c.canonicalNumber = n := by
  constructor
  · rintro ⟨d, hd, he, hu, hn⟩
    obtain rfl := h.keyed.eq hd hc he
    exact ⟨hu, hn⟩
  · rintro ⟨hu, hn⟩
    exact ⟨c, hc, rfl, hu, hn⟩

/-- `uq_chapter_v2_series_number`, as distinct values. -/
theorem ChaptersOk.nodup (h : s.ChaptersOk) :
    (s.chapters.map fun c => (c.seriesId, c.canonicalNumber)).Nodup := by
  refine List.Nodup.map_on (fun a ha b hb he => ?_) (List.Nodup.of_map _ h.keyed)
  exact h.numbers a ha b hb (congrArg Prod.fst he) (congrArg Prod.snd he)

theorem ChaptersOk.of_nodup (hk : Table.Keyed CatalogChapter.id s.chapters)
    (hn : (s.chapters.map fun c => (c.seriesId, c.canonicalNumber)).Nodup) : s.ChaptersOk :=
  ⟨hk, fun _ ha _ hb hu hc => List.inj_on_of_nodup_map hn ha hb (Prod.ext hu hc)⟩

/-- A chapter is at one place. -/
theorem ChaptersOk.isAt_eq (h : s.ChaptersOk) {u' : Nat} {n' : String} (h₁ : s.IsAt u n id)
    (h₂ : s.IsAt u' n' id) : u = u' ∧ n = n' := by
  obtain ⟨c, hc, rfl, rfl, rfl⟩ := h₁
  exact (h.isAt_iff hc).mp h₂

/-- What one round over a chapter makes of the chapters. -/
structure ChapterTaken (source : Nat) (chapter : CatalogChapter) (s s' : Collection) : Prop where
  ok : s'.ChaptersOk
  others : ∀ c ∈ s.chapters, c.id ≠ chapter.id → c ∈ s'.chapters
  rest : ∀ c ∈ s'.chapters, c.seriesId = source → c ∈ s.chapters ∧ c.id ≠ chapter.id

theorem chapterTaken_put (hne : target ≠ source) (hok : s.ChaptersOk)
    (hno : ∀ c ∈ s.chapters, c.seriesId = target → c.canonicalNumber ≠ chapter.canonicalNumber)
    (h : s'.chapters = Table.put CatalogChapter.id s.chapters { chapter with seriesId := target }) :
    ChapterTaken source chapter s s' := by
  have hmem : ∀ c ∈ s'.chapters,
      c = { chapter with seriesId := target } ∨ (c ∈ s.chapters ∧ c.id ≠ chapter.id) := by
    intro c hm
    rcases Table.mem_put.mp (h ▸ hm) with ⟨rfl, -⟩ | hm
    · exact .inl rfl
    · exact .inr hm
  refine ⟨⟨h ▸ Table.keyed_put.mpr hok.keyed, ?_⟩, fun c hm he => ?_, fun c hm hu => ?_⟩
  · intro a ha b hb h₁ h₂
    rcases hmem a ha with rfl | ⟨ha, -⟩ <;> rcases hmem b hb with rfl | ⟨hb, -⟩
    · rfl
    · exact absurd h₂.symm (hno b hb h₁.symm)
    · exact absurd h₂ (hno a ha h₁)
    · exact hok.numbers a ha b hb h₁ h₂
  · rw [h]
    exact Table.mem_put_of_ne hm he
  · rcases hmem c hm with rfl | hm
    · exact absurd hu hne
    · exact hm

theorem chapterTaken_filter (hok : s.ChaptersOk)
    (h : s'.chapters = s.chapters.filter (·.id != chapter.id)) :
    ChapterTaken source chapter s s' := by
  have hmem : ∀ c, c ∈ s'.chapters ↔ c ∈ s.chapters ∧ c.id ≠ chapter.id := by
    intro c
    rw [h, List.mem_filter, bne_iff_ne]
  refine ⟨⟨h ▸ hok.keyed.filter, ?_⟩, fun c hm he => (hmem c).mpr ⟨hm, he⟩,
    fun c hm _ => (hmem c).mp hm⟩
  intro a ha b hb
  exact hok.numbers a ((hmem a).mp ha).1 b ((hmem b).mp hb).1

theorem mergeChapter_chapters (hne : target ≠ source) (hok : s.ChaptersOk) :
    ChapterTaken source chapter s (mergeChapter target s chapter) := by
  unfold mergeChapter
  split
  · rename_i hno
    refine chapterTaken_put hne hok (fun c hm hu hn => ?_) rfl
    have := List.find?_eq_none.mp hno c hm
    simp [hu, hn] at this
  · exact chapterTaken_filter hok rfl

/-- What one round over a chapter keeps. -/
structure Taken (target source : Nat) (s s' : Collection) : Prop where
  merging : Merging target source s'
  absorbed : Absorbed target source s s'

/-- A chapter of a number the target lacks goes over as it is. -/
theorem mergeChapter_none (hne : target ≠ source) (hs : Merging target source s)
    (hc : chapter ∈ s.chapters) (hser : chapter.seriesId = source)
    (hno : ∀ c ∈ s.chapters, c.seriesId = target → c.canonicalNumber ≠ chapter.canonicalNumber) :
    Taken target source s { s with
      chapters := Table.put CatalogChapter.id s.chapters { chapter with seriesId := target } } := by
  obtain ⟨hok, hik, hplace⟩ := hs
  have hmem : ∀ c, c ∈ Table.put CatalogChapter.id s.chapters { chapter with seriesId := target } ↔
      c = { chapter with seriesId := target } ∨ (c ∈ s.chapters ∧ c.id ≠ chapter.id) := by
    intro c
    rw [Table.mem_put]
    constructor
    · rintro (⟨h, -⟩ | h)
      · exact .inl h
      · exact .inr h
    · rintro (h | h)
      · exact .inl ⟨h, chapter, hc, rfl⟩
      · exact .inr h
  generalize hs' : ({ s with
    chapters := Table.put CatalogChapter.id s.chapters { chapter with seriesId := target } } :
      Collection) = s'
  have hok' : s'.ChaptersOk := (chapterTaken_put hne hok hno (by rw [← hs'])).ok
  have hch : ∀ c, c ∈ s'.chapters ↔
      c = { chapter with seriesId := target } ∨ (c ∈ s.chapters ∧ c.id ≠ chapter.id) := by
    subst hs'
    exact hmem
  have hint : s'.intents = s.intents := by rw [← hs']
  have hart : s'.artifacts = s.artifacts := by rw [← hs']
  -- a row stays at its place, or is of the chapter and goes with it
  have hto : ∀ u n id, s.IsAt u n id → s'.IsAt u n id ∨
      (u = source ∧ n = chapter.canonicalNumber ∧ id = chapter.id ∧ s'.IsAt target n id) := by
    rintro u n _ ⟨c, hm, rfl, rfl, rfl⟩
    by_cases he : c.id = chapter.id
    · obtain rfl := hok.keyed.eq hm hc he
      exact .inr ⟨hser, rfl, rfl, _, (hch _).mpr (.inl rfl), rfl, rfl, rfl⟩
    · exact .inl ⟨c, (hch c).mpr (.inr ⟨hm, he⟩), rfl, rfl, rfl⟩
  have hfrom : ∀ u n id, s'.IsAt u n id → s.IsAt u n id ∨
      (u = target ∧ n = chapter.canonicalNumber ∧ id = chapter.id) := by
    rintro u n _ ⟨c, hm, rfl, rfl, rfl⟩
    rcases (hch c).mp hm with rfl | ⟨hm, -⟩
    · exact .inr ⟨rfl, rfl, rfl⟩
    · exact .inl ⟨c, hm, rfl, rfl, rfl⟩
  refine ⟨⟨hok', hint ▸ hik, ?_⟩, ?_, ?_, ?_, ?_, ?_⟩
  · intro i hi
    obtain ⟨u, n, hat, hu⟩ := hplace i (hint ▸ hi)
    rcases hto u n _ hat with h | ⟨rfl, -, -, h⟩
    · exact ⟨u, n, h, hu⟩
    · exact ⟨target, n, h, .inr ⟨hu.elim id fun h => h.1, rfl⟩⟩
  · intro u n id h
    rcases hto u n id h with h | ⟨rfl, -, -, h⟩
    · exact ⟨id, .inl h⟩
    · exact ⟨id, .inr ⟨rfl, h⟩⟩
  · rintro u n i hu ⟨hi, hat⟩
    rcases hto u n _ hat with h | ⟨rfl, -⟩
    · exact ⟨i, .refl, hint ▸ hi, h⟩
    · exact absurd rfl hu
  · rintro u n i ⟨hi, hat⟩
    rw [hint] at hi
    rcases hfrom u n _ hat with h | ⟨rfl, rfl, hid⟩
    · exact .inl ⟨i, .refl, hi, h⟩
    · refine .inr ⟨rfl, i, .refl, ⟨hi, hid ▸ ⟨chapter, hc, rfl, hser, rfl⟩⟩, ?_⟩
      rintro j ⟨-, c, hm, -, hu, hn⟩
      exact hno c hm hu hn
  · rintro n i ⟨hi, hat⟩
    rcases hto source n _ hat with h | ⟨-, -, -, h⟩
    · exact ⟨i, .inr ⟨hint ▸ hi, h⟩⟩
    · exact ⟨i, .inl ⟨hint ▸ hi, h⟩⟩
  · rintro u n ⟨a, ha, hact, hat⟩
    rcases hto u n _ hat with h | ⟨rfl, -, -, h⟩
    · exact .inl ⟨a, hart ▸ ha, hact, h⟩
    · exact .inr ⟨rfl, a, hart ▸ ha, hact, h⟩

/-- The intents that go to the chapter of the target. -/
theorem mem_mergeIntents {i' : IntentRow} :
    i' ∈ s.mergeIntents target chapter t →
      (i' ∈ s.intents ∧ i'.chapterId ≠ chapter.id) ∨
      ((∀ j ∈ s.intents, j.chapterId ≠ t.id) ∧ ∃ i ∈ s.intents, i.chapterId = chapter.id ∧
        i' = { i with seriesId := target, chapterId := t.id }) := by
  intro h
  obtain ⟨h, hch⟩ := List.mem_filter.mp h
  have hch' : i'.chapterId ≠ chapter.id := by simpa using hch
  split at h
  · exact .inl ⟨h, hch'⟩
  · rename_i i hi
    split at h
    · exact .inl ⟨h, hch'⟩
    · rename_i hany
      rcases Table.mem_put.mp h with ⟨rfl, -⟩ | ⟨h, -⟩
      · refine .inr ⟨?_, i, List.mem_of_find?_eq_some hi, by simpa using List.find?_some hi, rfl⟩
        simpa using hany
      · exact .inl ⟨h, hch'⟩

theorem mergeIntents_keeps (hk : Table.Keyed (fun i : IntentRow => i.id) s.intents)
    (hi : i ∈ s.intents) (hch : i.chapterId ≠ chapter.id) :
    i ∈ s.mergeIntents target chapter t := by
  refine List.mem_filter.mpr ⟨?_, by simpa using hch⟩
  split
  · exact hi
  · rename_i j hj
    split
    · exact hi
    · refine Table.mem_put_of_ne hi fun he => hch ?_
      rw [hk.eq hi (List.mem_of_find?_eq_some hj) he]
      simpa using List.find?_some hj

/-- The target has an intent there afterwards. -/
theorem mergeIntents_covers (target : Nat) (hk : Table.Keyed (fun i : IntentRow => i.id) s.intents)
    (hne : t.id ≠ chapter.id) (hi : i ∈ s.intents) (hch : i.chapterId = chapter.id) :
    ∃ i' ∈ s.mergeIntents target chapter t, i'.chapterId = t.id := by
  by_cases hany : s.intents.any (·.chapterId == t.id) = true
  · obtain ⟨j, hj, he⟩ := List.any_eq_true.mp hany
    have he' : j.chapterId = t.id := by simpa using he
    exact ⟨j, mergeIntents_keeps hk hj (he' ▸ hne), he'⟩
  · obtain ⟨j, hj⟩ : ∃ j, s.intents.find? (·.chapterId == chapter.id) = some j := by
      rw [← Option.isSome_iff_exists, List.find?_isSome]
      exact ⟨i, hi, by simpa using hch⟩
    refine ⟨{ j with seriesId := target, chapterId := t.id }, List.mem_filter.mpr ⟨?_, ?_⟩, rfl⟩
    · rw [hj]
      dsimp only
      rw [if_neg hany]
      exact Table.mem_put_self (List.mem_of_find?_eq_some hj) rfl
    · simpa using hne

theorem mergeIntents_keyed (hk : Table.Keyed (fun i : IntentRow => i.id) s.intents) :
    Table.Keyed (fun i : IntentRow => i.id) (s.mergeIntents target chapter t) := by
  refine List.Nodup.sublist (List.Sublist.map _ List.filter_sublist) ?_
  split
  · exact hk
  · split
    · exact hk
    · exact Table.keyed_put.mpr hk

/-- A chapter of a number the target has goes into the target's chapter. -/
theorem absorbChapter_taken (hne : target ≠ source) (hs : Merging target source s)
    (hc : chapter ∈ s.chapters) (hser : chapter.seriesId = source) (ht : t ∈ s.chapters)
    (htt : t.seriesId = target) (hn : t.canonicalNumber = chapter.canonicalNumber) :
    Taken target source s (s.absorbChapter target chapter t) := by
  obtain ⟨hok, hik, hplace⟩ := hs
  have htc : t.id ≠ chapter.id := by
    intro he
    obtain rfl := hok.keyed.eq ht hc he
    exact hne (htt.symm.trans hser)
  have hch : ∀ c, c ∈ (s.absorbChapter target chapter t).chapters ↔
      c ∈ s.chapters ∧ c.id ≠ chapter.id := by
    intro c
    simp [absorbChapter]
  have hint : (s.absorbChapter target chapter t).intents = s.mergeIntents target chapter t := rfl
  -- the rows of other chapters stay where they are
  have hto : ∀ u n id, id ≠ chapter.id → s.IsAt u n id →
      (s.absorbChapter target chapter t).IsAt u n id := by
    rintro u n _ hid ⟨c, hm, rfl, rfl, rfl⟩
    exact ⟨c, (hch c).mpr ⟨hm, hid⟩, rfl, rfl, rfl⟩
  have hfrom : ∀ u n id, (s.absorbChapter target chapter t).IsAt u n id → s.IsAt u n id := by
    rintro u n _ ⟨c, hm, rfl, rfl, rfl⟩
    exact ⟨c, ((hch c).mp hm).1, rfl, rfl, rfl⟩
  have htat : s.IsAt target chapter.canonicalNumber t.id := ⟨t, ht, rfl, htt, hn⟩
  have hat : ∀ u n, s.IsAt u n chapter.id → u = source ∧ n = chapter.canonicalNumber := by
    intro u n h
    obtain ⟨hu, hn⟩ := (hok.isAt_iff hc).mp h
    exact ⟨hu.symm.trans hser, hn.symm⟩
  have hok' : (s.absorbChapter target chapter t).ChaptersOk :=
    (@chapterTaken_filter s _ source chapter hok rfl).ok
  refine ⟨⟨hok', mergeIntents_keyed hik, ?_⟩, ?_, ?_, ?_, ?_, ?_⟩
  · intro i' hi'
    rcases mem_mergeIntents (hint ▸ hi') with ⟨hi, hid⟩ | ⟨-, i, -, -, rfl⟩
    · obtain ⟨u, n, h, hu⟩ := hplace i' hi
      exact ⟨u, n, hto u n _ hid h, hu⟩
    · exact ⟨target, _, hto _ _ _ htc htat, .inl rfl⟩
  · intro u n id h
    by_cases hid : id = chapter.id
    · obtain ⟨rfl, rfl⟩ := hat u n (hid ▸ h)
      exact ⟨t.id, .inr ⟨rfl, hto _ _ _ htc htat⟩⟩
    · exact ⟨id, .inl (hto u n id hid h)⟩
  · rintro u n i hu ⟨hi, h⟩
    have hid : i.chapterId ≠ chapter.id := by
      intro he
      exact hu (hat u n (he ▸ h)).1
    exact ⟨i, .refl, mergeIntents_keeps hik hi hid, hto u n _ hid h⟩
  · rintro u n i' ⟨hi', h⟩
    rcases mem_mergeIntents (hint ▸ hi') with ⟨hi, -⟩ | ⟨hno, i, hi, hid, rfl⟩
    · exact .inl ⟨i', .refl, hi, hfrom u n _ h⟩
    · obtain ⟨rfl, rfl⟩ := hok.isAt_eq htat (hfrom u n _ h)
      refine .inr ⟨rfl, i, ⟨rfl, rfl, rfl, rfl⟩, ⟨hi, hid ▸ ⟨chapter, hc, rfl, hser, rfl⟩⟩, ?_⟩
      rintro j ⟨hj, c, hm, hcj, hcu, hcn⟩
      obtain rfl := hok.numbers c hm t ht (hcu.trans htt.symm) (hcn.trans hn.symm)
      exact hno j hj hcj.symm
  · rintro n i ⟨hi, h⟩
    by_cases hid : i.chapterId = chapter.id
    · obtain ⟨-, rfl⟩ := hat source n (hid ▸ h)
      obtain ⟨i', hi', he⟩ := mergeIntents_covers target hik htc hi hid
      exact ⟨i', .inl ⟨hi', he ▸ hto _ _ _ htc htat⟩⟩
    · exact ⟨i, .inr ⟨mergeIntents_keeps hik hi hid, hto source n _ hid h⟩⟩
  · rintro u n ⟨a, ha, hact, h⟩
    -- the artifact as it is moved
    have hmem : ∀ b ∈ s.artifacts, b.state = .active → (b.chapterId = chapter.id →
        s.hasActiveArtifact t.id = false) → ∃ b' ∈ (s.absorbChapter target chapter t).artifacts,
        b'.state = .active ∧ b'.chapterId = if b.chapterId = chapter.id then t.id else b.chapterId := by
      intro b hb hact hkept
      refine ⟨_, List.mem_map_of_mem hb, ?_, rfl⟩
      dsimp only
      rw [if_neg, hact]
      rintro ⟨hk, he, -⟩
      rw [hkept he] at hk
      cases hk
    by_cases hid : a.chapterId = chapter.id
    · obtain ⟨rfl, rfl⟩ := hat u n (hid ▸ h)
      refine .inr ⟨rfl, ?_⟩
      by_cases hk : s.hasActiveArtifact t.id = true
      · obtain ⟨b, hb, he⟩ := List.any_eq_true.mp hk
        obtain ⟨hbt, hba⟩ : b.chapterId = t.id ∧ b.state = .active := by simpa using he
        obtain ⟨b', hb', hact', hch'⟩ := hmem b hb hba fun he => absurd (hbt.symm.trans he) htc
        rw [hbt, if_neg htc] at hch'
        exact ⟨b', hb', hact', hch' ▸ hto _ _ _ htc htat⟩
      · obtain ⟨b', hb', hact', hch'⟩ := hmem a ha hact fun _ => by simpa using hk
        rw [hid, if_pos rfl] at hch'
        exact ⟨b', hb', hact', hch' ▸ hto _ _ _ htc htat⟩
    · obtain ⟨b', hb', hact', hch'⟩ := hmem a ha hact fun he => absurd he hid
      rw [if_neg hid] at hch'
      exact .inl ⟨b', hb', hact', hch' ▸ hto u n _ hid h⟩

theorem mergeChapter_taken (hne : target ≠ source) (hs : Merging target source s)
    (hc : chapter ∈ s.chapters) (hser : chapter.seriesId = source) :
    Taken target source s (mergeChapter target s chapter) := by
  unfold mergeChapter
  split
  · rename_i hno
    refine mergeChapter_none hne hs hc hser fun c hm hu hn => ?_
    have := List.find?_eq_none.mp hno c hm
    simp [hu, hn] at this
  · rename_i t ht
    have hp := List.find?_some ht
    simp only [Bool.and_eq_true, beq_iff_eq] at hp
    exact absorbChapter_taken hne hs hc hser (List.mem_of_find?_eq_some ht) hp.1 hp.2

/-! ## All chapters -/

/-- What every chapter of the source keeps, all of them keep; the chapters of the list are gone. -/
theorem foldl_mergeChapter_keeps {P : Collection → Prop} (hne : target ≠ source)
    {l : List CatalogChapter} (hok : s.ChaptersOk)
    (hl : ∀ c ∈ l, c ∈ s.chapters ∧ c.seriesId = source) (hnd : (l.map (·.id)).Nodup) (hs : P s)
    (hstep : ∀ s' c, P s' → s'.ChaptersOk → c ∈ s'.chapters → c.seriesId = source →
      P (mergeChapter target s' c)) :
    P (l.foldl (mergeChapter target) s) ∧ (l.foldl (mergeChapter target) s).ChaptersOk ∧
      ∀ c ∈ (l.foldl (mergeChapter target) s).chapters, c.seriesId = source →
        c ∈ s.chapters ∧ ∀ d ∈ l, c.id ≠ d.id := by
  induction l generalizing s with
  | nil => exact ⟨hs, hok, fun c hc _ => ⟨hc, fun _ h => (by cases h)⟩⟩
  | cons d l ih =>
    obtain ⟨hd, hnd⟩ := List.nodup_cons.mp hnd
    obtain ⟨hdm, hds⟩ := hl d List.mem_cons_self
    have hchapters := @mergeChapter_chapters s target source d hne hok
    -- the chapters still to come are as the loop first saw them
    have hl' : ∀ c ∈ l, c ∈ (mergeChapter target s d).chapters ∧ c.seriesId = source := by
      intro c hc
      obtain ⟨hcm, hcs⟩ := hl c (List.mem_cons_of_mem _ hc)
      refine ⟨hchapters.others c hcm fun he => hd ?_, hcs⟩
      exact List.mem_map.mpr ⟨c, hc, he⟩
    obtain ⟨hp, hok', hrest⟩ := ih hchapters.ok hl' hnd (hstep s d hs hok hdm hds)
    refine ⟨hp, hok', fun c hc hu => ?_⟩
    obtain ⟨hc, hno⟩ := hrest c hc hu
    obtain ⟨hc, he⟩ := hchapters.rest c hc hu
    refine ⟨hc, fun x hx => ?_⟩
    rcases List.mem_cons.mp hx with rfl | hx
    · exact he
    · exact hno x hx

theorem foldl_mergeChapter (hne : target ≠ source) {l : List CatalogChapter}
    (hs : Merging target source s) (hl : ∀ c ∈ l, c ∈ s.chapters ∧ c.seriesId = source)
    (hnd : (l.map (·.id)).Nodup) :
    Merging target source (l.foldl (mergeChapter target) s) ∧
      Absorbed target source s (l.foldl (mergeChapter target) s) ∧
      ∀ c ∈ (l.foldl (mergeChapter target) s).chapters, c.seriesId = source →
        c ∈ s.chapters ∧ ∀ d ∈ l, c.id ≠ d.id := by
  obtain ⟨⟨hm, ha⟩, -, hrest⟩ := foldl_mergeChapter_keeps
    (P := fun s' => Merging target source s' ∧ Absorbed target source s s') hne hs.chapters hl hnd
    ⟨hs, .refl⟩ fun s' c ⟨hm, ha⟩ _ hc hu => by
      have htaken := mergeChapter_taken hne hm hc hu
      exact ⟨htaken.merging, ha.trans hne htaken.absorbed⟩
  exact ⟨hm, ha, hrest⟩

/-- The tables a chapter does not hang on, and the keys of the artifacts. -/
structure SameTables (s s' : Collection) : Prop where
  queue : s'.queue = s.queue
  plans : s'.plans = s.plans
  identities : s'.identities = s.identities
  series : s'.series = s.series
  nextIntent : s'.nextIntent = s.nextIntent
  nextArtifact : s'.nextArtifact = s.nextArtifact
  artifacts : s'.artifacts.map (·.id) = s.artifacts.map (·.id)

theorem mergeChapter_tables : SameTables s (mergeChapter target s chapter) := by
  unfold mergeChapter
  split
  · exact ⟨rfl, rfl, rfl, rfl, rfl, rfl, rfl⟩
  · refine ⟨rfl, rfl, rfl, rfl, rfl, rfl, ?_⟩
    unfold absorbChapter
    rw [List.map_map]
    rfl

theorem foldl_mergeChapter_tables (l : List CatalogChapter) :
    SameTables s (l.foldl (mergeChapter target) s) := by
  refine List.foldlRecOn (motive := fun s' : Collection => SameTables s s') _ _
    ⟨rfl, rfl, rfl, rfl, rfl, rfl, rfl⟩ fun s' h c _ => ?_
  have hc : SameTables s' (mergeChapter target s' c) := mergeChapter_tables
  exact ⟨hc.queue.trans h.queue, hc.plans.trans h.plans, hc.identities.trans h.identities,
    hc.series.trans h.series, hc.nextIntent.trans h.nextIntent,
    hc.nextArtifact.trans h.nextArtifact, hc.artifacts.trans h.artifacts⟩

/-! ## The rows of the series -/

/-- The invariant between the rounds: intents are of the series of their chapter. -/
structure MergeOk (s : Collection) : Prop where
  plansOk : s.PlansOk
  identities : Table.Keyed CatalogSourceSeries.id s.identities
  series : Table.Keyed CatalogSeries.id s.series
  artifacts : Table.Keyed ChapterArtifact.id s.artifacts
  artifactsBelow : ∀ a ∈ s.artifacts, a.id < s.nextArtifact
  chapters : s.ChaptersOk
  place : ∀ i ∈ s.intents, ∃ n, s.IsAt i.seriesId n i.chapterId

theorem MergeOk.merging (h : s.MergeOk) : Merging target source s := by
  refine ⟨h.chapters, h.plansOk.intents, fun i hi => ?_⟩
  obtain ⟨n, hat⟩ := h.place i hi
  exact ⟨_, n, hat, .inl rfl⟩

/-- The chapters are the same, and what hangs on them has moved nowhere. -/
theorem absorbed_of_chapters {f : IntentRow → IntentRow} {g : ChapterArtifact → ChapterArtifact}
    (hc : s'.chapters = s.chapters) (hi : s'.intents = s.intents.map f)
    (ha : s'.artifacts = s.artifacts.map g)
    (hf : ∀ i, SameIntent i (f i) ∧ (f i).chapterId = i.chapterId)
    (hg : ∀ a, (g a).state = a.state ∧ (g a).chapterId = a.chapterId) :
    Absorbed target source s s' := by
  have hat : ∀ u n id, s'.IsAt u n id ↔ s.IsAt u n id := by
    intro u n id
    rw [IsAt, hc, IsAt]
  have hto : ∀ u n i, s.IntentAt u n i → s'.IntentAt u n (f i) := by
    rintro u n i ⟨hm, h⟩
    refine ⟨hi ▸ List.mem_map_of_mem hm, ?_⟩
    rw [(hf i).2, hat]
    exact h
  refine ⟨fun u n id h => ⟨id, .inl ((hat u n id).mpr h)⟩,
    fun u n i _ h => ⟨_, (hf i).1, hto u n i h⟩, fun u n i' h => ?_,
    fun n i h => ⟨_, .inr (hto _ n i h)⟩, fun u n h => ?_⟩
  · obtain ⟨hm, h⟩ := h
    rw [hi] at hm
    obtain ⟨i, hi₀, rfl⟩ := List.mem_map.mp hm
    rw [(hf i).2, hat] at h
    exact .inl ⟨i, (hf i).1, hi₀, h⟩
  · obtain ⟨a, hm, hact, h⟩ := h
    refine .inl ⟨g a, ha ▸ List.mem_map_of_mem hm, (hg a).1.trans hact, ?_⟩
    rw [(hg a).2, hat]
    exact h

/-- Rows of jobs rewritten under their ids. -/
theorem map_jobs_keeps {q : Queue} {f : WorkJob → WorkJob} (hf : ∀ j, (f j).id = j.id)
    (hq : q.RowsOk) : ({ q with jobs := q.jobs.map f } : Queue).RowsOk ∧
      q.KeepsRows { q with jobs := q.jobs.map f } := by
  refine ⟨⟨?_, fun j hj => ?_⟩, fun id h => ?_⟩
  · unfold Table.Keyed
    rw [List.map_map, show WorkJob.id ∘ f = WorkJob.id from funext hf]
    exact hq.keyed
  · obtain ⟨j₀, hj₀, rfl⟩ := List.mem_map.mp hj
    rw [hf]
    exact hq.below j₀ hj₀
  · obtain ⟨j, hj, rfl⟩ := Table.isSome_get.mp h
    exact Table.isSome_get.mpr ⟨f j, List.mem_map_of_mem hj, hf j⟩

/-- A plan that a merge moves keeps its progress. -/
structure SamePlan (p p' : SeriesDownloadPlan) : Prop where
  status : p'.status = p.status
  phase : p'.phase = p.phase

theorem SamePlan.refl {p : SeriesDownloadPlan} : SamePlan p p := ⟨rfl, rfl⟩

theorem SamePlan.trans {p q r : SeriesDownloadPlan} (h : SamePlan p q) (h' : SamePlan q r) :
    SamePlan p r := ⟨h'.status.trans h.status, h'.phase.trans h.phase⟩

theorem samePlan_refl : ∀ p : Option SeriesDownloadPlan, Option.Rel SamePlan p p
  | none => .none
  | some _ => .some .refl

theorem moveAlternates_eq {keeper duplicate : CatalogSourceSeries} {overlap : Nat × Nat} :
    ∃ alternates next, s.moveAlternates keeper duplicate overlap =
      { s with alternates := alternates, nextAlternate := next } := by
  unfold moveAlternates
  dsimp only
  split
  · exact ⟨_, _, rfl⟩
  · exact ⟨_, _, rfl⟩

/-- What is left alone for the providers of both series. -/
structure Consolidated (s s' : Collection) : Prop where
  chapters : s'.chapters = s.chapters
  intents : s'.intents = s.intents
  plans : s'.plans = s.plans
  series : s'.series = s.series
  nextIntent : s'.nextIntent = s.nextIntent
  nextArtifact : s'.nextArtifact = s.nextArtifact
  identities : Table.Keyed CatalogSourceSeries.id s.identities →
    Table.Keyed CatalogSourceSeries.id s'.identities
  artifacts : ∃ f : ChapterArtifact → ChapterArtifact,
    (∀ a, (f a).id = a.id ∧ (f a).state = a.state ∧ (f a).chapterId = a.chapterId) ∧
      s'.artifacts = s.artifacts.map f
  queue : s.queue.RowsOk → s'.queue.RowsOk ∧ s.queue.KeepsRows s'.queue

theorem Consolidated.refl : Consolidated s s :=
  ⟨rfl, rfl, rfl, rfl, rfl, rfl, id, ⟨id, fun _ => ⟨rfl, rfl, rfl⟩, (List.map_id _).symm⟩,
    fun h => ⟨h, fun _ => id⟩⟩

theorem Consolidated.trans (h₁ : Consolidated s s₁) (h₂ : Consolidated s₁ s') :
    Consolidated s s' := by
  obtain ⟨f, hf, ha⟩ := h₁.artifacts
  obtain ⟨g, hg, ha'⟩ := h₂.artifacts
  refine ⟨h₂.chapters.trans h₁.chapters, h₂.intents.trans h₁.intents, h₂.plans.trans h₁.plans,
    h₂.series.trans h₁.series, h₂.nextIntent.trans h₁.nextIntent,
    h₂.nextArtifact.trans h₁.nextArtifact, fun h => h₂.identities (h₁.identities h),
    ⟨g ∘ f, fun a => ?_, by rw [ha', ha, List.map_map]⟩, fun hq => ?_⟩
  · obtain ⟨h₁, h₂, h₃⟩ := hf a
    obtain ⟨h₁', h₂', h₃'⟩ := hg (f a)
    exact ⟨h₁'.trans h₁, h₂'.trans h₂, h₃'.trans h₃⟩
  · obtain ⟨hq₁, hr₁⟩ := h₁.queue hq
    obtain ⟨hq₂, hr₂⟩ := h₂.queue hq₁
    exact ⟨hq₂, hr₁.trans hr₂⟩

theorem consolidate_consolidated {keeper duplicate : CatalogSourceSeries} {overlap : Nat × Nat} :
    Consolidated s (s.consolidate keeper duplicate overlap) := by
  obtain ⟨alternates, next, he⟩ := @moveAlternates_eq s keeper duplicate overlap
  unfold consolidate
  rw [he]
  refine ⟨rfl, rfl, rfl, rfl, rfl, rfl, fun h => (Table.keyed_put.mpr h).filter,
    ⟨_, fun a => ?_, rfl⟩, fun hq => ?_⟩
  · exact ⟨rfl, rfl, rfl⟩
  · exact map_jobs_keeps (fun j => by split <;> rfl) hq

theorem consolidateOverlapping_consolidated {t : TextLib} {left right : CatalogSourceSeries}
    (h : s.consolidateOverlapping t left right = .ok s') : Consolidated s s' := by
  refine foldlM_inv (P := fun s' => Consolidated s s') h .refl ?_
  intro s₁ pair s₂ _ hs₁ hpair
  unfold consolidatePair at hpair
  dsimp only at hpair
  split at hpair
  · cases hpair
  · cases hpair
    exact hs₁.trans consolidate_consolidated

/-- What becomes of the plans. -/
structure Steered (target source : Nat) (s s' : Collection) : Prop where
  keyed : Table.Keyed SeriesDownloadPlan.seriesId s'.plans
  kept : ∀ p' ∈ s'.plans, ∃ p ∈ s.plans, SamePlan p p'
  others : ∀ u, u ≠ target → u ≠ source → s'.plan? u = s.plan? u
  gone : s'.plan? source = none
  plan : Option.Rel SamePlan ((s.plan? target).or (s.plan? source)) (s'.plan? target)

theorem mergePlans_steered (hne : target ≠ source)
    (hk : Table.Keyed SeriesDownloadPlan.seriesId s.plans)
    (h : s'.plans = s.mergePlans target source) : Steered target source s s' := by
  unfold mergePlans at h
  cases hs : s.plan? source with
  | none =>
    rw [hs] at h
    have hplans : s'.plans = s.plans := h
    have hget : ∀ u, s'.plan? u = s.plan? u := by
      intro u
      rw [Catalog.plan?, hplans, Catalog.plan?]
    refine ⟨hplans ▸ hk, fun p hp => ⟨p, hplans ▸ hp, rfl, rfl⟩, fun u _ _ => hget u,
      (hget source).trans hs, ?_⟩
    rw [hget, hs, Option.or_none]
    exact samePlan_refl _
  | some ps =>
    rw [hs] at h
    have hps : ps.seriesId = source := Table.get_key hs
    cases ht : s.plan? target with
    | some pt =>
      rw [ht] at h
      have hplans : s'.plans = s.plans.filter (·.seriesId != source) := h
      have hk' : Table.Keyed SeriesDownloadPlan.seriesId s'.plans := hplans ▸ hk.filter
      have hget : ∀ u, u ≠ source → s'.plan? u = s.plan? u := by
        intro u hu
        refine hk'.get_congr fun p hp => ?_
        rw [hplans]
        simp [hp, hu]
      refine ⟨hk', fun p hp => ⟨p, ?_, rfl, rfl⟩, fun u _ hu => hget u hu, ?_, ?_⟩
      · rw [hplans] at hp
        exact (List.mem_filter.mp hp).1
      · refine Table.get_eq_none.mpr fun p hp he => ?_
        rw [hplans] at hp
        simp [he] at hp
      · rw [hget target hne, ht]
        exact samePlan_refl _
    | none =>
      rw [ht] at h
      have hnt : ∀ p ∈ s.plans, p.seriesId ≠ target := Table.get_eq_none.mp ht
      have hplans : s'.plans = s.plans.map fun p =>
        if p.seriesId = source then { p with seriesId := target } else p := h
      have hk' : Table.Keyed SeriesDownloadPlan.seriesId s'.plans := by
        rw [hplans]
        refine hk.map fun x hx y hy he => ?_
        have hxt := hnt x hx
        have hyt := hnt y hy
        grind
      refine ⟨hk', fun p hp => ?_, fun u hu hu' => ?_, ?_, ?_⟩
      · rw [hplans] at hp
        obtain ⟨q, hq, rfl⟩ := List.mem_map.mp hp
        refine ⟨q, hq, ?_⟩
        split <;> exact ⟨rfl, rfl⟩
      · refine hk'.get_congr fun p hp => ?_
        rw [hplans, List.mem_map]
        constructor
        · intro hm
          exact ⟨p, hm, if_neg (hp ▸ hu')⟩
        · rintro ⟨q, hq, rfl⟩
          by_cases hqs : q.seriesId = source
          · rw [if_pos hqs] at hp
            exact absurd hp.symm hu
          · rw [if_neg hqs]
            exact hq
      · refine Table.get_eq_none.mpr fun p hp he => ?_
        rw [hplans] at hp
        obtain ⟨q, -, rfl⟩ := List.mem_map.mp hp
        by_cases hqs : q.seriesId = source
        · rw [if_pos hqs] at he
          exact hne he
        · rw [if_neg hqs] at he
          exact hqs he
      · have hm : { ps with seriesId := target } ∈ s'.plans := by
          rw [hplans]
          exact List.mem_map.mpr ⟨ps, Table.get_mem hs, if_pos hps⟩
        have hg : s'.plan? target = some { ps with seriesId := target } := hk'.get_eq hm
        have hsame : SamePlan ps { ps with seriesId := target } := ⟨rfl, rfl⟩
        rw [ht, hs, Option.none_or, hg]
        exact .some hsame

/-- A round of the fold over the series. -/
structure Round (target source : Nat) (s s' : Collection) : Prop where
  ok : s'.MergeOk
  absorbed : Absorbed target source s s'
  emptied : ∀ n id, ¬ s'.IsAt source n id
  rows : s.queue.KeepsRows s'.queue
  steered : Steered target source s s'

/-- The intents of a merge are rows of before. -/
theorem Absorbed.mem_intents (h : Absorbed target source s s')
    (hp : ∀ i ∈ s'.intents, ∃ u n, s'.IsAt u n i.chapterId) {i' : IntentRow} (hi : i' ∈ s'.intents) :
    ∃ i ∈ s.intents, SameIntent i i' := by
  obtain ⟨u, n, hat⟩ := hp i' hi
  rcases h.origin u n i' ⟨hi, hat⟩ with ⟨i, hs, hm, -⟩ | ⟨-, i, hs, ⟨hm, -⟩, -⟩
  · exact ⟨i, hm, hs⟩
  · exact ⟨i, hm, hs⟩

theorem mergeSeriesRows_keyed (hk : Table.Keyed CatalogSeries.id s.series) :
    Table.Keyed CatalogSeries.id (s.mergeSeriesRows target source) := by
  refine Table.Keyed.filter ?_
  split
  · exact Table.keyed_put.mpr hk
  · exact Table.keyed_put.mpr hk
  · exact hk

theorem mem_mergeSeriesRows {u : CatalogSeries} (hu : u ∈ s.mergeSeriesRows target source) :
    ∃ u₀ ∈ s.series, u₀.id = u.id := by
  unfold mergeSeriesRows at hu
  obtain ⟨hu, -⟩ := List.mem_filter.mp hu
  split at hu
  · rcases Table.mem_put.mp hu with ⟨rfl, u₀, hu₀, he⟩ | ⟨hu, -⟩
    · exact ⟨u₀, hu₀, he⟩
    · exact ⟨u, hu, rfl⟩
  · rcases Table.mem_put.mp hu with ⟨rfl, u₀, hu₀, he⟩ | ⟨hu, -⟩
    · exact ⟨u₀, hu₀, he⟩
    · exact ⟨u, hu, rfl⟩
  · exact ⟨u, hu, rfl⟩

/-- The rows of the series are moved once none of its chapters are left. -/
theorem moveSeries_round (hne : target ≠ source) (hs : Merging target source s)
    (hp : s.PlansOk) (hk : Table.Keyed CatalogSourceSeries.id s.identities)
    (hser : Table.Keyed CatalogSeries.id s.series)
    (ha : Table.Keyed ChapterArtifact.id s.artifacts)
    (hb : ∀ a ∈ s.artifacts, a.id < s.nextArtifact) (hno : ∀ n id, ¬ s.IsAt source n id) :
    Round target source s (s.moveSeries target source) := by
  have habs : Absorbed target source s (s.moveSeries target source) :=
    absorbed_of_chapters rfl rfl (List.map_id _).symm
      (fun i => ⟨⟨rfl, rfl, rfl, rfl⟩, rfl⟩) fun a => ⟨rfl, rfl⟩
  have hat : ∀ u n id, (s.moveSeries target source).IsAt u n id ↔ s.IsAt u n id :=
    fun _ _ _ => Iff.rfl
  obtain ⟨hq, hrows⟩ := map_jobs_keeps (f := fun j =>
    if j.seriesKey = toString source then { j with seriesKey := toString target } else j)
    (fun j => by split <;> rfl) hp.queue
  have hplans : Steered target source s (s.moveSeries target source) :=
    mergePlans_steered hne hp.plans rfl
  refine ⟨⟨⟨hq, ?_, ?_, hplans.keyed⟩, hk.map fun x _ y _ he => he, ?_, ha, hb, ?_, ?_⟩,
    habs, hno, hrows, hplans⟩
  · exact hp.intents.map fun x _ y _ he => he
  · intro i hi
    obtain ⟨i₀, hi₀, rfl⟩ := List.mem_map.mp hi
    exact hp.below i₀ hi₀
  · exact mergeSeriesRows_keyed hser
  · exact ⟨hs.chapters.keyed, hs.chapters.numbers⟩
  · intro i hi
    obtain ⟨i₀, hi₀, rfl⟩ := List.mem_map.mp hi
    obtain ⟨u, n, h, hu⟩ := hs.place i₀ hi₀
    refine ⟨n, (hat _ _ _).mpr ?_⟩
    dsimp only
    rcases hu with rfl | ⟨hu, rfl⟩
    · rw [if_neg]
      · exact h
      · intro he
        exact hno n _ (he ▸ h)
    · rw [if_pos hu]
      exact h

theorem mergeMatchGroups_round {t : TextLib} {left right : CatalogSourceSeries} {leftId rightId : Nat}
    (hs : s.MergeOk) (hl : s.identity? leftId = some left) (hr : s.identity? rightId = some right)
    (hne : left.seriesId ≠ right.seriesId) (h : s.mergeMatchGroups t leftId rightId = .ok s') :
    Round left.seriesId right.seriesId s s' := by
  unfold mergeMatchGroups at h
  rw [hl, hr] at h
  dsimp only at h
  rw [if_neg hne] at h
  split at h
  · cases h
  rename_i s₁ hcons
  split at h
  · cases h
  cases h
  have hcs := consolidateOverlapping_consolidated hcons
  obtain ⟨f, hf, ha⟩ := hcs.artifacts
  obtain ⟨hq, hrows⟩ := hcs.queue hs.plansOk.queue
  have habs₁ : Absorbed left.seriesId right.seriesId s s₁ :=
    absorbed_of_chapters hcs.chapters (hcs.intents.trans (List.map_id _).symm) ha
      (fun i => ⟨⟨rfl, rfl, rfl, rfl⟩, rfl⟩) fun a => (hf a).2
  have hok₁ : s₁.MergeOk := by
    refine ⟨⟨hq, ?_, ?_, ?_⟩, hcs.identities hs.identities, ?_, ?_, ?_, ⟨?_, ?_⟩, fun i hm => ?_⟩
    · exact hcs.intents ▸ hs.plansOk.intents
    · exact hcs.intents ▸ hcs.nextIntent ▸ hs.plansOk.below
    · exact hcs.plans ▸ hs.plansOk.plans
    · exact hcs.series ▸ hs.series
    · exact ha ▸ hs.artifacts.map fun x _ y _ he => (hf x).1.symm.trans (he.trans (hf y).1)
    · rw [ha, hcs.nextArtifact]
      intro a hm
      obtain ⟨a₀, hm₀, rfl⟩ := List.mem_map.mp hm
      exact (hf a₀).1 ▸ hs.artifactsBelow a₀ hm₀
    · exact hcs.chapters ▸ hs.chapters.keyed
    · exact hcs.chapters ▸ hs.chapters.numbers
    · obtain ⟨n, hat⟩ := hs.place i (hcs.intents ▸ hm)
      refine ⟨n, ?_⟩
      rw [IsAt, hcs.chapters]
      exact hat
  generalize hlist : (s₁.chapters.filter (·.seriesId == right.seriesId)).insertionSort
    (·.id ≤ ·.id) = l
  have hmem : ∀ c, c ∈ l ↔ c ∈ s₁.chapters ∧ c.seriesId = right.seriesId := by
    intro c
    rw [← hlist, List.mem_insertionSort]
    simp
  have hnd : (l.map (·.id)).Nodup := by
    rw [← hlist]
    refine ((List.perm_insertionSort _ _).map _).nodup_iff.mpr ?_
    exact hok₁.chapters.keyed.filter
  obtain ⟨hmerging, habs₂, hrest⟩ := foldl_mergeChapter hne (s := s₁) hok₁.merging
    (fun c hc => (hmem c).mp hc) hnd
  have htab : SameTables s₁ (l.foldl (mergeChapter left.seriesId) s₁) := foldl_mergeChapter_tables l
  generalize l.foldl (mergeChapter left.seriesId) s₁ = s₂ at *
  have hno : ∀ n id, ¬ s₂.IsAt right.seriesId n id := by
    rintro n id ⟨c, hc, -, hu, -⟩
    obtain ⟨hc₁, hne⟩ := hrest c hc hu
    exact hne c ((hmem c).mpr ⟨hc₁, hu⟩) rfl
  have habs : Absorbed left.seriesId right.seriesId s s₂ := habs₁.trans hne habs₂
  have hok₂ : s₂.PlansOk := by
    refine ⟨htab.queue ▸ hq, hmerging.intents, fun i' hi' => ?_, htab.plans ▸ hok₁.plansOk.plans⟩
    obtain ⟨i, hm, hsame⟩ := habs.mem_intents
      (fun i hi => (hmerging.place i hi).imp fun u h => h.imp fun n h => h.1) hi'
    rw [hsame.id, htab.nextIntent, hcs.nextIntent]
    exact hs.plansOk.below i hm
  have hart : Table.Keyed ChapterArtifact.id s₂.artifacts ∧
      ∀ a ∈ s₂.artifacts, a.id < s₂.nextArtifact := by
    refine ⟨?_, fun a hm => ?_⟩
    · unfold Table.Keyed
      rw [htab.artifacts]
      exact hok₁.artifacts
    · have hid : a.id ∈ s₂.artifacts.map (·.id) := List.mem_map_of_mem hm
      rw [htab.artifacts] at hid
      obtain ⟨a₀, hm₀, he⟩ := List.mem_map.mp hid
      rw [htab.nextArtifact, ← he]
      exact hok₁.artifactsBelow a₀ hm₀
  have hround := moveSeries_round hne hmerging hok₂ (htab.identities ▸ hok₁.identities)
    (htab.series ▸ hok₁.series) hart.1 hart.2 hno
  refine ⟨hround.ok, habs.trans hne hround.absorbed, hround.emptied, hrows.trans ?_, ?_⟩
  · rw [← htab.queue]
    exact hround.rows
  · have hplan : ∀ u, s₂.plan? u = s.plan? u := by
      intro u
      rw [Catalog.plan?, htab.plans, hcs.plans, Catalog.plan?]
    obtain ⟨h₁, h₂, h₃, h₄, h₅⟩ := hround.steered
    refine ⟨h₁, fun p hp' => ?_, fun u hu hu' => (h₃ u hu hu').trans (hplan u), h₄, ?_⟩
    · rw [← hcs.plans, ← htab.plans]
      exact h₂ p hp'
    · rw [← hplan, ← hplan]
      exact h₅

theorem mem_identitiesOf {x : CatalogSourceSeries} :
    x ∈ s.identitiesOf u ↔ x ∈ s.identities ∧ x.seriesId = u := by
  simp [identitiesOf, List.mem_insertionSort]

theorem mergeInto_round {t : TextLib} (hs : s.MergeOk) (hne : target ≠ source)
    (h : mergeInto t target s source = .ok s') : Round target source s s' := by
  unfold mergeInto at h
  dsimp only at h
  split at h
  · cases h
  rename_i left hl
  split at h
  · cases h
  rename_i right hr
  have hleft : left ∈ s.identitiesOf target := by
    rcases List.mem_append.mp (List.mem_of_head? hl) with hm | hm
    · exact (List.mem_filter.mp hm).1
    · exact hm
  have hright : right ∈ s.identitiesOf source := by
    rcases List.mem_append.mp (List.mem_of_head? hr) with hm | hm
    · exact (List.mem_filter.mp hm).1
    · exact hm
  obtain ⟨hlm, rfl⟩ := mem_identitiesOf.mp hleft
  obtain ⟨hrm, rfl⟩ := mem_identitiesOf.mp hright
  exact mergeMatchGroups_round hs (hs.identities.get_eq hlm) (hs.identities.get_eq hrm) hne h

/-! ## All rounds -/

/-- What the rounds so far, over the series of `order` after its first, made of the tables `s`: the
first one has what the others had, at each number the intent of the earliest. -/
structure Gathered (order : List Nat) (target : Nat) (s s' : Collection) : Prop where
  ok : s'.MergeOk
  rows : s.queue.KeepsRows s'.queue
  origin : ∀ n i', s'.IntentAt target n i' → ∃ pre u post i, order = pre ++ u :: post ∧
    SameIntent i i' ∧ s.IntentAt u n i ∧ ∀ v ∈ pre, ∀ j, ¬ s.IntentAt v n j
  covers : ∀ u ∈ order, ∀ n i, s.IntentAt u n i → ∃ i', s'.IntentAt target n i'
  active : ∀ u ∈ order, ∀ n, s.ActiveAt u n → s'.ActiveAt target n
  others : ∀ u, u ∉ order → ∀ n i', s'.IntentAt u n i' → ∃ i, SameIntent i i' ∧ s.IntentAt u n i
  othersStay : ∀ u, u ∉ order → ∀ n i, s.IntentAt u n i → ∃ i', SameIntent i i' ∧ s'.IntentAt u n i'
  othersActive : ∀ u, u ∉ order → ∀ n, s.ActiveAt u n → s'.ActiveAt u n
  emptied : ∀ u ∈ order, u ≠ target → ∀ n i', ¬ s'.IntentAt u n i'
  kept : ∀ p' ∈ s'.plans, ∃ p ∈ s.plans, SamePlan p p'
  plan : Option.Rel SamePlan (order.findSome? s.plan?) (s'.plan? target)
  otherPlans : ∀ u, u ∉ order → s'.plan? u = s.plan? u
  gone : ∀ u ∈ order, u ≠ target → s'.plan? u = none

theorem Gathered.refl (h : s.MergeOk) : Gathered [target] target s s := by
  refine ⟨h, fun _ => id, fun n i hi => ⟨[], target, [], i, rfl, .refl, hi, by simp⟩,
    fun u hu n i hi => ?_, fun u hu n ha => ?_, fun u _ n i hi => ⟨i, .refl, hi⟩,
    fun u _ n i hi => ⟨i, .refl, hi⟩, fun u _ n h => h, fun u hu hne => ?_, fun p hp => ⟨p, hp, .refl⟩,
    ?_, fun _ _ => rfl, fun u hu hne => ?_⟩
  · obtain rfl := List.mem_singleton.mp hu
    exact ⟨i, hi⟩
  · obtain rfl := List.mem_singleton.mp hu
    exact ha
  · exact absurd (List.mem_singleton.mp hu) hne
  · rw [List.findSome?_singleton]
    exact samePlan_refl _
  · exact absurd (List.mem_singleton.mp hu) hne

theorem Gathered.snoc {order : List Nat} (h : Gathered order target s s₁) (ht : target ∈ order)
    (hs : source ∉ order) (hr : Round target source s₁ s') :
    Gathered (order ++ [source]) target s s' := by
  have hne : target ≠ source := fun he => hs (he ▸ ht)
  have hout : ∀ u, u ∉ order ++ [source] → u ∉ order ∧ u ≠ source ∧ u ≠ target := by
    intro u hu
    rw [List.mem_append, List.mem_singleton, not_or] at hu
    exact ⟨hu.1, hu.2, fun he => hu.1 (he ▸ ht)⟩
  have hin : ∀ u, u ∈ order ++ [source] → u ∈ order ∨ u = source := by
    intro u hu
    rwa [List.mem_append, List.mem_singleton] at hu
  refine ⟨hr.ok, h.rows.trans hr.rows, fun n i' hi' => ?_, fun u hu n i hi => ?_,
    fun u hu n ha => ?_, fun u hu n i' hi' => ?_, fun u hu n i hi => ?_, fun u hu n ha => ?_,
    fun u hu hut n i' hi' => ?_, fun p' hp' => ?_, ?_, fun u hu => ?_, fun u hu hut => ?_⟩
  · rcases hr.absorbed.origin target n i' hi' with ⟨i₁, hsame, hi₁⟩ | ⟨-, i₁, hsame, hi₁, hno⟩
    · obtain ⟨pre, u, post, i, he, hsame', hi, hpre⟩ := h.origin n i₁ hi₁
      refine ⟨pre, u, post ++ [source], i, ?_, hsame'.trans hsame, hi, hpre⟩
      rw [he, List.append_assoc, List.cons_append]
    · -- none of the series before had an intent there
      obtain ⟨i, hsame', hi⟩ := h.others source hs n i₁ hi₁
      refine ⟨order, source, [], i, rfl, hsame'.trans hsame, hi, fun v hv j hj => ?_⟩
      obtain ⟨j₁, hj₁⟩ := h.covers v hv n j hj
      exact hno j₁ hj₁
  · rcases hin u hu with hu | rfl
    · obtain ⟨i₁, hi₁⟩ := h.covers u hu n i hi
      obtain ⟨i', -, hi'⟩ := hr.absorbed.stays target n i₁ hne hi₁
      exact ⟨i', hi'⟩
    · obtain ⟨i₁, -, hi₁⟩ := h.othersStay u hs n i hi
      obtain ⟨i', hi' | hi'⟩ := hr.absorbed.covers n i₁ hi₁
      · exact ⟨i', hi'⟩
      · exact absurd hi'.2 (hr.emptied n _)
  · rcases hin u hu with hu | rfl
    · rcases hr.absorbed.active target n (h.active u hu n ha) with ha | ⟨he, -⟩
      · exact ha
      · exact absurd he hne
    · rcases hr.absorbed.active u n (h.othersActive u hs n ha) with ⟨a, -, -, hat⟩ | ⟨-, ha⟩
      · exact absurd hat (hr.emptied n _)
      · exact ha
  · obtain ⟨hu, -, hut⟩ := hout u hu
    rcases hr.absorbed.origin u n i' hi' with ⟨i₁, hsame, hi₁⟩ | ⟨he, -⟩
    · obtain ⟨i, hsame', hi⟩ := h.others u hu n i₁ hi₁
      exact ⟨i, hsame'.trans hsame, hi⟩
    · exact absurd he hut
  · obtain ⟨hu, hus, -⟩ := hout u hu
    obtain ⟨i₁, hsame, hi₁⟩ := h.othersStay u hu n i hi
    obtain ⟨i', hsame', hi'⟩ := hr.absorbed.stays u n i₁ hus hi₁
    exact ⟨i', hsame.trans hsame', hi'⟩
  · obtain ⟨hu, hus, -⟩ := hout u hu
    rcases hr.absorbed.active u n (h.othersActive u hu n ha) with ha | ⟨he, -⟩
    · exact ha
    · exact absurd he hus
  · rcases hin u hu with hu | rfl
    · rcases hr.absorbed.origin u n i' hi' with ⟨i₁, -, hi₁⟩ | ⟨he, -⟩
      · exact h.emptied u hu hut n i₁ hi₁
      · exact hut he
    · exact hr.emptied n _ hi'.2
  · obtain ⟨p₁, hp₁, hsame⟩ := hr.steered.kept p' hp'
    obtain ⟨p, hp, hsame'⟩ := h.kept p₁ hp₁
    exact ⟨p, hp, hsame'.trans hsame⟩
  · have hplan := hr.steered.plan
    rw [h.otherPlans source hs] at hplan
    rw [List.findSome?_append, List.findSome?_singleton]
    cases hf : order.findSome? s.plan? with
    | none =>
      have hnone := h.plan
      rw [hf] at hnone
      cases ht₁ : s₁.plan? target with
      | none => rwa [ht₁] at hplan
      | some p =>
        rw [ht₁] at hnone
        cases hnone
    | some p =>
      have hsome := h.plan
      rw [hf] at hsome
      cases ht₁ : s₁.plan? target with
      | none =>
        rw [ht₁] at hsome
        cases hsome
      | some p₁ =>
        rw [ht₁] at hplan hsome
        obtain ⟨hsame⟩ := hsome
        rw [Option.some_or] at hplan ⊢
        cases ht' : s'.plan? target with
        | none =>
          rw [ht'] at hplan
          cases hplan
        | some p' =>
          rw [ht'] at hplan
          obtain ⟨hsame'⟩ := hplan
          exact .some (hsame.trans hsame')
  · obtain ⟨hu, hus, hut⟩ := hout u hu
    exact (hr.steered.others u hut hus).trans (h.otherPlans u hu)
  · rcases hin u hu with hu | rfl
    · exact (hr.steered.others u hut fun he => hs (he ▸ hu)).trans (h.gone u hu hut)
    · exact hr.steered.gone

theorem foldlM_mergeInto {t : TextLib} {l : List Nat} {order : List Nat}
    (h : Gathered order target s s₁) (ht : target ∈ order) (hnd : (order ++ l).Nodup)
    (hl : l.foldlM (mergeInto t target) s₁ = .ok s') : Gathered (order ++ l) target s s' := by
  induction l generalizing order s₁ with
  | nil =>
    cases hl
    rw [List.append_nil]
    exact h
  | cons source l ih =>
    obtain ⟨s₂, hs₂, hl⟩ := foldlM_cons_eq_ok.mp hl
    rw [List.append_cons] at hnd ⊢
    have hs : source ∉ order := by
      intro hm
      have := (List.nodup_append.mp (List.nodup_append.mp hnd).1).2.2 source hm
      exact this source (List.mem_singleton_self _) rfl
    have hne : target ≠ source := fun he => hs (he ▸ ht)
    exact ih (h.snoc ht hs (mergeInto_round h.ok hne hs₂)) (List.mem_append_left _ ht) hnd hl

/-! ## `merge_canonical_series` -/

/-- The series in the order they are merged, the one that is left first. -/
def mergeOrder (s : Collection) (ids : List Nat) : List Nat :=
  match (s.selectedSeries ids).argmax s.rank with
  | none => []
  | some target => target.id :: ((s.selectedSeries ids).filter (·.id != target.id)).map (·.id)

theorem mem_selectedSeries {row : CatalogSeries} {ids : List Nat} :
    row ∈ s.selectedSeries ids ↔ row ∈ s.series ∧ row.id ∈ ids := by
  simp [selectedSeries, List.mem_insertionSort]

/-- A merge that does not raise: its rounds, and the repair it requests. -/
theorem mergeCanonicalSeries_ok {t : TextLib} {ids : List Nat} {now : Time}
    (h : s.mergeCanonicalSeries t ids now = .ok (s', target)) :
    ∃ row s₁ queue created, (s.selectedSeries ids).argmax s.rank = some row ∧ row.id = target ∧
      (((s.selectedSeries ids).filter (·.id != row.id)).map (·.id)).foldlM (mergeInto t row.id)
        (s.withStatus row (s.selectedSeries ids)) = .ok s₁ ∧
      s₁.queue.enqueueLibraryRepair row.id "merge" 90
        (((s.selectedSeries ids).filter (·.id != row.id)).map (·.storageKey)) now =
          .ok (queue, created) ∧
      s' = { s₁ with queue := queue } := by
  unfold mergeCanonicalSeries at h
  dsimp only at h
  split at h
  · cases h
  split at h
  · cases h
  split at h
  · cases h
  split at h
  · cases h
  split at h
  · cases h
  rename_i row hrow
  split at h
  · cases h
  rename_i s₁ hfold
  split at h
  · cases h
  rename_i queue created hrepair
  cases h
  exact ⟨row, s₁, queue, created, hrow, rfl, hfold, hrepair, rfl⟩

theorem mergeOrder_eq {ids : List Nat} {row : CatalogSeries}
    (h : (s.selectedSeries ids).argmax s.rank = some row) : s.mergeOrder ids =
      row.id :: ((s.selectedSeries ids).filter (·.id != row.id)).map (·.id) := by
  unfold mergeOrder
  rw [h]

/-- No series is merged twice. -/
theorem mergeOrder_nodup {ids : List Nat} (hk : Table.Keyed CatalogSeries.id s.series) :
    (s.mergeOrder ids).Nodup := by
  unfold mergeOrder
  split
  · exact List.nodup_nil
  · rename_i row hrow
    refine List.nodup_cons.mpr ⟨fun hm => ?_, ?_⟩
    · obtain ⟨x, hx, he⟩ := List.mem_map.mp hm
      simpa [he] using (List.mem_filter.mp hx).2
    · refine @Table.Keyed.filter _ CatalogSeries.id _ _ ?_
      exact ((List.perm_insertionSort _ _).map _).nodup_iff.mpr hk.filter

/-- A merge that does not raise runs through all its rounds, and requests a repair. -/
theorem mergeCanonicalSeries_gathered {t : TextLib} {ids : List Nat} {now : Time} (hs : s.MergeOk)
    (h : s.mergeCanonicalSeries t ids now = .ok (s', target)) :
    (s.mergeOrder ids).head? = some target ∧ Gathered (s.mergeOrder ids) target s s' := by
  obtain ⟨row, s₁, queue, created, hrow, rfl, hfold, hrepair, rfl⟩ := mergeCanonicalSeries_ok h
  have horder := mergeOrder_eq hrow
  rw [← List.singleton_append] at horder
  have hnd : (s.mergeOrder ids).Nodup := mergeOrder_nodup hs.series
  -- the new status is written before the rounds, and no table of theirs
  have hstart : Gathered [row.id] row.id s (s.withStatus row (s.selectedSeries ids)) := by
    have hok : (s.withStatus row (s.selectedSeries ids)).MergeOk :=
      ⟨⟨hs.plansOk.queue, hs.plansOk.intents, hs.plansOk.below, hs.plansOk.plans⟩, hs.identities,
        Table.keyed_put.mpr hs.series, hs.artifacts, hs.artifactsBelow,
        ⟨hs.chapters.keyed, hs.chapters.numbers⟩, hs.place⟩
    obtain ⟨-, h₂, h₃, h₄, h₅, h₆, h₇, h₈, h₉, h₁₀, h₁₁, h₁₂, h₁₃⟩ := @Gathered.refl _ row.id hs
    exact ⟨hok, h₂, h₃, h₄, h₅, h₆, h₇, h₈, h₉, h₁₀, h₁₁, h₁₂, h₁₃⟩
  rw [horder] at hnd ⊢
  refine ⟨rfl, ?_⟩
  obtain ⟨h₁, h₂, h₃, h₄, h₅, h₆, h₇, h₈, h₉, h₁₀, h₁₁, h₁₂, h₁₃⟩ :=
    foldlM_mergeInto hstart (List.mem_singleton_self _) hnd hfold
  have hk := Queue.enqueueLibraryRepair_keeps h₁.plansOk.queue hrepair
  exact ⟨⟨⟨hk.ok, h₁.plansOk.intents, h₁.plansOk.below, h₁.plansOk.plans⟩, h₁.identities, h₁.series,
    h₁.artifacts, h₁.artifactsBelow, ⟨h₁.chapters.keyed, h₁.chapters.numbers⟩, h₁.place⟩,
    h₂.trans hk.rows, h₃, h₄, h₅, h₆, h₇, h₈, h₉, h₁₀, h₁₁, h₁₂, h₁₃⟩

end

end Collection

end MangaManager
