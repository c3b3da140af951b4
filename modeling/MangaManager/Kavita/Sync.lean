import MangaManager.Kavita.Matching
import MangaManager.Lib.Dict
import MangaManager.Lib.Upsert
import MangaManager.Series.Tables

/-!
# Storing what Kavita has

The transaction at the end of `KavitaSyncHandler.__call__` in
`manga_manager/application/kavita_sync.py`: the series and its chapters are mapped to what Kavita
has, the progress there becomes the reading state of the chapters, and these promote the series.

`syncTables_synced` says what every row is afterwards, `syncTables_again` that a second
synchronization with the same answers changes time stamps only.
-/

namespace MangaManager

open Lib

structure KavitaReadProgress where
  chapterId : Nat
  pagesRead : Int := 0
  pagesTotal : Int := 0
  deriving DecidableEq

/-- The Kavita columns of `chapter_v2`. -/
structure ChapterMapping where
  kavitaChapterId : Option Nat := none
  kavitaVolumeId : Option Nat := none
  kavitaMappedAt : Option Time := none
  kavitaCoverChecksum : String := ""
  deriving DecidableEq

/-- The columns of `series_v2` that the synchronization writes besides those of `CatalogSeries`. -/
structure SeriesColumns where
  coverChecksum : String := ""
  coverRelativePath : String := ""
  updatedAt : Time
  deriving DecidableEq

/-- The catalog with the columns about Kavita, by chapter and by series. -/
structure KavitaCatalog extends Collection where
  mapping : Nat → ChapterMapping := fun _ => {}
  columns : Nat → SeriesColumns

/-- What the handler has learned: the match and its chapters, the checksum and the path of the
cover, and the progress. -/
structure KavitaAnswer where
  series : KavitaSeries
  chapters : List KavitaChapter
  cover : Option (String × String) := none
  progress : List KavitaReadProgress := []

namespace KavitaAnswer

variable (t : CatalogText) (a : KavitaAnswer)

/-- `by_number.get(canonical_number)`. -/
def byNumber (number : String) : Option KavitaChapter :=
  (Dict.keepLast (fun c : KavitaChapter => t.canonicalChapterNumber c.number) id a.chapters).lookup
    number

/-- `reading_progress.get(chapter_id)`. -/
def progressOf (kavitaChapterId : Nat) : Option KavitaReadProgress :=
  (Dict.keepLast KavitaReadProgress.chapterId id a.progress).lookup kavitaChapterId

/-- The progress of a chapter of the catalog. -/
def chapterProgress (ch : CatalogChapter) : Option KavitaReadProgress :=
  (a.byNumber t ch.canonicalNumber).bind fun mapped => a.progressOf mapped.id

/-- The columns of a chapter. -/
def mapChapter (now : Time) (ch : CatalogChapter) (m : ChapterMapping) : ChapterMapping :=
  match a.byNumber t ch.canonicalNumber with
  | none => { m with kavitaChapterId := none, kavitaVolumeId := none, kavitaMappedAt := none }
  | some mapped =>
    { kavitaChapterId := some mapped.id, kavitaVolumeId := mapped.volumeId
      kavitaMappedAt := some now
      kavitaCoverChecksum := (a.cover.map (·.1)).getD m.kavitaCoverChecksum }

/-- The row of the series. -/
def mapSeries (now : Time) (u : CatalogSeries) (status : SeriesStatus) : CatalogSeries :=
  { u with
    kavitaSeriesId := some a.series.id
    kavitaLibraryId := a.series.libraryId
    kavitaSyncedAt := some now
    kavitaCoverChecksum := (a.cover.map (·.1)).getD u.kavitaCoverChecksum
    status := status }

/-- The columns of the series; it is updated when its status changes. -/
def mapColumns (now : Time) (x : SeriesColumns) (changed : Bool) : SeriesColumns where
  coverChecksum := (a.cover.map (·.1)).getD x.coverChecksum
  coverRelativePath := (a.cover.map (·.2)).getD x.coverRelativePath
  updatedAt := if changed then now else x.updatedAt

end KavitaAnswer

/-- `complete`. -/
def KavitaReadProgress.complete (p : KavitaReadProgress) : Bool :=
  0 < p.pagesTotal && p.pagesTotal ≤ p.pagesRead

/-- The reading state that a progress makes of another. -/
def KavitaReadProgress.reading (p : KavitaReadProgress) (now : Time)
    (r : CatalogChapterReadingState) : CatalogChapterReadingState :=
  if p.complete then { r with status := .read, readAt := some (r.readAt.getD now) }
  else if 0 < p.pagesRead then { r with status := .reading, readAt := none }
  else { r with status := .unread, readAt := none }

section
variable (t : CatalogText) (a : KavitaAnswer) (now : Time)

/-- Write a row, or add it. -/
def setReading (rows : List CatalogChapterReadingState) (r : CatalogChapterReadingState) :
    List CatalogChapterReadingState :=
  if (Table.get CatalogChapterReadingState.chapterId rows r.chapterId).isSome then
    Table.put CatalogChapterReadingState.chapterId rows r
  else rows ++ [r]

/-- The reading state of one chapter. -/
def syncReading (rows : List CatalogChapterReadingState) (ch : CatalogChapter) :
    List CatalogChapterReadingState :=
  match a.chapterProgress t ch with
  | none => rows
  | some p => setReading rows
    (p.reading now ((Table.get CatalogChapterReadingState.chapterId rows ch.id).getD
      { chapterId := ch.id }))

/-- `next_status`, from the chapters of the series and their reading states. -/
def nextStatus (chapterIds : List Nat) (rows : List CatalogChapterReadingState) : SeriesStatus :=
  let rows := rows.filter fun r => r.chapterId ∈ chapterIds
  if (rows.filter (·.status == .read)).length = chapterIds.length ∧ chapterIds ≠ [] then .caughtUp
  else if rows.any fun r => r.status == .read || r.status == .reading then .reading
  else .interested

/-- A series that is paused or untracked keeps its status, and so does one without progress. -/
def KavitaAnswer.promote (status : SeriesStatus) (chapterIds : List Nat)
    (rows : List CatalogChapterReadingState) : SeriesStatus :=
  if a.progress ≠ [] ∧ status ≠ .paused ∧ status ≠ .untracked then nextStatus chapterIds rows
  else status

namespace KavitaCatalog

variable (c : KavitaCatalog)

/-- The chapters of a series. -/
def chaptersOf (seriesId : Nat) : List CatalogChapter := c.chapters.filter (·.seriesId == seriesId)

/-- The transaction; `none` is `series_missing`. -/
def syncTables (seriesId : Nat) : Option KavitaCatalog :=
  match c.series? seriesId with
  | none => none
  | some u =>
    let chapters := c.chaptersOf seriesId
    let readings := chapters.foldl (syncReading t a now) c.readingStates
    let status := a.promote u.status (chapters.map (·.id)) readings
    some { c with
      series := Table.put CatalogSeries.id c.series (a.mapSeries now u status)
      readingStates := readings
      mapping := fun id => match chapters.find? fun ch => ch.id == id with
        | none => c.mapping id
        | some ch => a.mapChapter t now ch (c.mapping id)
      columns := Function.update c.columns seriesId
        (a.mapColumns now (c.columns seriesId) (status != u.status)) }

end KavitaCatalog

end

/-! ## Reading states -/

section
variable {t : CatalogText} {a : KavitaAnswer} {now later : Time}
  {rows : List CatalogChapterReadingState} {r : CatalogChapterReadingState}
  {chs : List CatalogChapter} {ch : CatalogChapter} {id : Nat} {p : KavitaReadProgress}

@[simp] theorem KavitaReadProgress.reading_chapterId :
    (p.reading now r).chapterId = r.chapterId := by
  unfold reading
  split
  · rfl
  · split <;> rfl

/-- The first reading counts. -/
theorem KavitaReadProgress.reading_again :
    p.reading later (p.reading now r) = p.reading now r := by
  unfold reading
  split
  · rfl
  · split <;> rfl

theorem get_setReading_self :
    Table.get CatalogChapterReadingState.chapterId (setReading rows r) r.chapterId = some r := by
  unfold setReading
  split
  · rename_i h
    obtain ⟨x, hx⟩ := Option.isSome_iff_exists.mp h
    exact Table.get_put_self (Table.get_mem hx) (Table.get_key hx)
  · rename_i h
    rw [Option.not_isSome_iff_eq_none] at h
    unfold Table.get at h ⊢
    rw [List.find?_append, h]
    simp

theorem get_setReading_of_ne (h : id ≠ r.chapterId) :
    Table.get CatalogChapterReadingState.chapterId (setReading rows r) id =
      Table.get CatalogChapterReadingState.chapterId rows id := by
  unfold setReading
  split
  · exact Table.get_put_of_ne h
  · unfold Table.get
    rw [List.find?_append]
    have hr : (r.chapterId == id) = false := by simpa using Ne.symm h
    simp [hr]

theorem keyed_setReading (h : Table.Keyed CatalogChapterReadingState.chapterId rows) :
    Table.Keyed CatalogChapterReadingState.chapterId (setReading rows r) := by
  unfold setReading
  split
  · exact Table.keyed_put.mpr h
  · rename_i hnone
    rw [Option.not_isSome_iff_eq_none] at hnone
    exact Upsert.nodup_append h (Table.get_eq_none.mp hnone)

theorem setReading_self (h : Table.Keyed CatalogChapterReadingState.chapterId rows)
    (hr : Table.get CatalogChapterReadingState.chapterId rows r.chapterId = some r) :
    setReading rows r = rows := by
  unfold setReading
  rw [hr]
  exact Table.put_self h (Table.get_mem hr)

theorem syncReading_keyed (h : Table.Keyed CatalogChapterReadingState.chapterId rows) :
    Table.Keyed CatalogChapterReadingState.chapterId (syncReading t a now rows ch) := by
  unfold syncReading
  split
  · exact h
  · exact keyed_setReading h

theorem get_syncReading_of_ne (h : id ≠ ch.id) :
    Table.get CatalogChapterReadingState.chapterId (syncReading t a now rows ch) id =
      Table.get CatalogChapterReadingState.chapterId rows id := by
  unfold syncReading
  split
  · rfl
  · rename_i p _
    refine get_setReading_of_ne ?_
    rw [KavitaReadProgress.reading_chapterId]
    cases hg : Table.get CatalogChapterReadingState.chapterId rows ch.id with
    | none => exact h
    | some x => exact Table.get_key hg ▸ h

/-- What a chapter with progress is read as. -/
theorem get_syncReading_self (h : a.chapterProgress t ch = some p) :
    Table.get CatalogChapterReadingState.chapterId (syncReading t a now rows ch) ch.id =
      some (p.reading now ((Table.get CatalogChapterReadingState.chapterId rows ch.id).getD
        { chapterId := ch.id })) := by
  unfold syncReading
  rw [h]
  dsimp only
  generalize hx : (Table.get CatalogChapterReadingState.chapterId rows ch.id).getD
    { chapterId := ch.id } = x
  have hid : ch.id = (p.reading now x).chapterId := by
    rw [KavitaReadProgress.reading_chapterId, ← hx]
    cases hg : Table.get CatalogChapterReadingState.chapterId rows ch.id with
    | none => rfl
    | some y => exact (Table.get_key hg).symm
  rw [hid]
  exact get_setReading_self

theorem foldl_syncReading_keyed (h : Table.Keyed CatalogChapterReadingState.chapterId rows) :
    Table.Keyed CatalogChapterReadingState.chapterId (chs.foldl (syncReading t a now) rows) :=
  List.foldlRecOn (motive := Table.Keyed CatalogChapterReadingState.chapterId) chs _ h
    fun _ h _ _ => syncReading_keyed h

theorem get_foldl_of_notMem (h : ∀ ch ∈ chs, ch.id ≠ id) :
    Table.get CatalogChapterReadingState.chapterId (chs.foldl (syncReading t a now) rows) id =
      Table.get CatalogChapterReadingState.chapterId rows id :=
  List.foldlRecOn (motive := fun rows' => Table.get CatalogChapterReadingState.chapterId rows' id =
    Table.get CatalogChapterReadingState.chapterId rows id) chs _ rfl
    fun _ ih ch hch => (get_syncReading_of_ne (h ch hch).symm).trans ih

/-- The row of a chapter is written in its own turn. -/
theorem get_foldl_of_mem (hids : Table.Keyed CatalogChapter.id chs) (hch : ch ∈ chs) :
    Table.get CatalogChapterReadingState.chapterId (chs.foldl (syncReading t a now) rows) ch.id =
      Table.get CatalogChapterReadingState.chapterId (syncReading t a now rows ch) ch.id := by
  induction chs generalizing rows with
  | nil => cases hch
  | cons x chs ih =>
    obtain ⟨hx, hids⟩ := List.nodup_cons.mp hids
    rw [List.foldl_cons]
    rcases List.mem_cons.mp hch with rfl | hch
    · refine get_foldl_of_notMem fun y hy he => hx ?_
      rw [← he]
      exact List.mem_map_of_mem hy
    · have hne : ch.id ≠ x.id := fun he => hx (he ▸ List.mem_map_of_mem hch)
      rw [ih hids hch]
      -- the turn of `x` leaves the row of the chapter alone
      cases hp : a.chapterProgress t ch with
      | none =>
        have hskip : ∀ rows, syncReading t a now rows ch = rows := fun rows => by
          unfold syncReading
          rw [hp]
        rw [hskip, hskip]
        exact get_syncReading_of_ne hne
      | some p => rw [get_syncReading_self hp, get_syncReading_self hp, get_syncReading_of_ne hne]

/-! ## The status of the series -/

/-- All chapters are read exactly when there are as many read rows as chapters. -/
theorem nextStatus_caughtUp {ids : List Nat} (hids : ids.Nodup)
    (h : Table.Keyed CatalogChapterReadingState.chapterId rows) :
    nextStatus ids rows = .caughtUp ↔
      ids ≠ [] ∧ ∀ id ∈ ids, ∃ r ∈ rows, r.chapterId = id ∧ r.status = .read := by
  let read := (rows.filter fun r => r.chapterId ∈ ids).filter (·.status == .read)
  have hread : ∀ r, r ∈ read ↔ (r ∈ rows ∧ r.chapterId ∈ ids) ∧ r.status = .read := by
    intro r
    simp only [read, List.mem_filter, beq_iff_eq, decide_eq_true_eq]
  have hsub : (read.map (·.chapterId)).Subperm ids := by
    refine List.subperm_of_subset (List.Nodup.sublist ?_ h) fun id hid => ?_
    · exact (List.filter_sublist.trans List.filter_sublist).map _
    · obtain ⟨r, hr, rfl⟩ := List.mem_map.mp hid
      exact ((hread r).mp hr).1.2
  have hall : read.length = ids.length ↔
      ∀ id ∈ ids, ∃ r ∈ rows, r.chapterId = id ∧ r.status = .read := by
    constructor
    · intro hlen id hid
      have hperm := hsub.perm_of_length_le (by rw [List.length_map, hlen])
      obtain ⟨r, hr, rfl⟩ := List.mem_map.mp (hperm.mem_iff.mpr hid)
      exact ⟨r, ((hread r).mp hr).1.1, rfl, ((hread r).mp hr).2⟩
    · intro hall
      have hle := hsub.length_le
      rw [List.length_map] at hle
      refine le_antisymm hle ?_
      have hback : ids.Subperm (read.map (·.chapterId)) := by
        refine List.subperm_of_subset hids fun id hid => ?_
        obtain ⟨r, hr, rfl, hs⟩ := hall id hid
        exact List.mem_map.mpr ⟨r, (hread r).mpr ⟨⟨hr, hid⟩, hs⟩, rfl⟩
      simpa using hback.length_le
  unfold nextStatus
  dsimp only
  constructor
  · intro hs
    split at hs
    · rename_i hc
      exact ⟨hc.2, hall.mp hc.1⟩
    · split at hs <;> cases hs
  · rintro ⟨hne, hr⟩
    exact if_pos ⟨hall.mpr hr, hne⟩

end

/-! ## The synchronization -/

namespace KavitaCatalog

/-- `_snapshot`: the chapters that Kavita has to have are those with a projection. -/
def snapshot (c : KavitaCatalog) (u : CatalogSeries) : KavitaSnapshot where
  title := u.title
  existingKavitaId := u.kavitaSeriesId
  tracked := u.status.isTracked
  aliases := (c.aliases.filter (·.seriesId == u.id)).map (·.displayValue)
  externalIds := ((c.identifiers.filter (·.seriesId == u.id)).map fun x =>
    (x.provider, x.value)).reverse
  expectedChapters := (((c.chaptersOf u.id).filter fun ch =>
    c.kavitaProjections.any (·.chapterId == ch.id)).map (·.canonicalNumber)).eraseDups

def reading? (c : KavitaCatalog) (chapterId : Nat) : Option CatalogChapterReadingState :=
  Table.get CatalogChapterReadingState.chapterId c.readingStates chapterId

/-- What a synchronization of the series leaves. -/
structure Synced (t : CatalogText) (a : KavitaAnswer) (now : Time) (u : CatalogSeries)
    (c c' : KavitaCatalog) : Prop where
  /-- A chapter is mapped to a chapter of its number. -/
  mapped : ∀ ch ∈ c.chaptersOf u.id, ∀ k, (c'.mapping ch.id).kavitaChapterId = some k →
    ∃ r ∈ a.chapters, r.id = k ∧ t.canonicalChapterNumber r.number = ch.canonicalNumber
  /-- There is one exactly for the chapters that are mapped. -/
  found : ∀ ch ∈ c.chaptersOf u.id, (c'.mapping ch.id).kavitaChapterId ≠ none ↔
    ∃ r ∈ a.chapters, t.canonicalChapterNumber r.number = ch.canonicalNumber
  /-- The progress of the mapped chapter becomes the reading state. -/
  reading : ∀ ch ∈ c.chaptersOf u.id, c'.reading? ch.id = match a.chapterProgress t ch with
    | none => c.reading? ch.id
    | some p => some (p.reading now ((c.reading? ch.id).getD { chapterId := ch.id }))
  /-- The chapters of other series are left alone, and so are the other series. -/
  others : ∀ id, (∀ ch ∈ c.chaptersOf u.id, ch.id ≠ id) →
    c'.mapping id = c.mapping id ∧ c'.reading? id = c.reading? id
  otherSeries : ∀ id, id ≠ u.id → c'.series? id = c.series? id ∧ c'.columns id = c.columns id
  row : ∃ u', c'.series? u.id = some u' ∧ u'.kavitaSeriesId = some a.series.id ∧
    u'.kavitaSyncedAt = some now ∧
    (a.progress = [] ∨ u.status = .paused ∨ u.status = .untracked → u'.status = u.status) ∧
    (a.progress ≠ [] → u.status ≠ .paused → u.status ≠ .untracked →
      (u'.status = .caughtUp ↔ c.chaptersOf u.id ≠ [] ∧ ∀ ch ∈ c.chaptersOf u.id,
        ∃ r, c'.reading? ch.id = some r ∧ r.status = .read) ∧
      (u'.status = .interested → ∀ ch ∈ c.chaptersOf u.id, ∀ r, c'.reading? ch.id = some r →
        r.status = .unread))

section
variable {t : CatalogText} {a : KavitaAnswer} {now later : Time} {seriesId : Nat}
  {u : CatalogSeries} {c c' c'' : KavitaCatalog} {ch : CatalogChapter}

theorem chaptersOf_keyed (h : Table.Keyed CatalogChapter.id c.chapters) :
    Table.Keyed CatalogChapter.id (c.chaptersOf seriesId) :=
  List.Nodup.sublist (List.filter_sublist.map _) h

/-- What the dictionary has under a number is a chapter of the number. -/
theorem byNumber_some {number : String} {r : KavitaChapter}
    (h : a.byNumber t number = some r) :
    r ∈ a.chapters ∧ t.canonicalChapterNumber r.number = number := by
  unfold KavitaAnswer.byNumber at h
  rw [Dict.lookup_keepLast, List.map_id] at h
  have hm := List.mem_of_getLast? h
  simpa using List.mem_filter.mp hm

theorem byNumber_none {number : String} (h : a.byNumber t number = none) :
    ∀ r ∈ a.chapters, t.canonicalChapterNumber r.number ≠ number := by
  unfold KavitaAnswer.byNumber at h
  rw [Dict.lookup_keepLast, List.map_id, List.getLast?_eq_none_iff] at h
  intro r hr
  simpa using List.filter_eq_nil_iff.mp h r hr

theorem mapping_of_mem (hids : Table.Keyed CatalogChapter.id (c.chaptersOf seriesId))
    (h : c.syncTables t a now seriesId = some c') (hch : ch ∈ c.chaptersOf seriesId) :
    c'.mapping ch.id = a.mapChapter t now ch (c.mapping ch.id) := by
  unfold syncTables at h
  split at h
  · cases h
  cases h
  dsimp only
  rw [show (c.chaptersOf seriesId).find? (fun x => x.id == ch.id) = some ch from hids.get_eq hch]

theorem syncTables_reading (h : c.syncTables t a now seriesId = some c') :
    c'.readingStates = (c.chaptersOf seriesId).foldl (syncReading t a now) c.readingStates := by
  unfold syncTables at h
  split at h
  · cases h
  cases h
  rfl

theorem syncTables_chapters (h : c.syncTables t a now seriesId = some c') :
    c'.chapters = c.chapters := by
  unfold syncTables at h
  split at h
  · cases h
  cases h
  rfl

theorem syncTables_row (h : c.syncTables t a now seriesId = some c')
    (hu : c.series? seriesId = some u) :
    c'.series = Table.put CatalogSeries.id c.series (a.mapSeries now u
      (a.promote u.status ((c.chaptersOf seriesId).map (·.id)) c'.readingStates)) := by
  have hreading := syncTables_reading h
  unfold syncTables at h
  rw [hu] at h
  cases h
  rfl

/-- Rows that differ in what is left out. -/
theorem map_put_congr {rows : List CatalogSeries} {r r' : CatalogSeries}
    {f : CatalogSeries → CatalogSeries} (hid : r.id = r'.id) (hf : f r = f r') :
    (Table.put CatalogSeries.id rows r).map f = (Table.put CatalogSeries.id rows r').map f := by
  unfold Table.put
  rw [List.map_map, List.map_map]
  refine List.map_congr_left fun x _ => ?_
  simp only [Function.comp_apply, hid]
  split
  · exact hf
  · rfl

theorem syncTables_columns (h : c.syncTables t a now seriesId = some c')
    (hu : c.series? seriesId = some u) :
    c'.columns = Function.update c.columns seriesId (a.mapColumns now (c.columns seriesId)
      (a.promote u.status ((c.chaptersOf seriesId).map (·.id)) c'.readingStates != u.status)) := by
  have hreading := syncTables_reading h
  unfold syncTables at h
  rw [hu] at h
  cases h
  rfl

theorem syncTables_mapping (h : c.syncTables t a now seriesId = some c') (id : Nat) :
    c'.mapping id = match (c.chaptersOf seriesId).find? fun ch => ch.id == id with
      | none => c.mapping id
      | some ch => a.mapChapter t now ch (c.mapping id) := by
  unfold syncTables at h
  split at h
  · cases h
  cases h
  rfl

/-- What the synchronization leaves, of the tables as they are when it writes. -/
theorem syncTables_synced (hchapters : Table.Keyed CatalogChapter.id c.chapters)
    (hreadings : Table.Keyed CatalogChapterReadingState.chapterId c.readingStates)
    (hu : c.series? seriesId = some u) (h : c.syncTables t a now seriesId = some c') :
    Synced t a now u c c' := by
  have hids : Table.Keyed CatalogChapter.id (c.chaptersOf seriesId) := chaptersOf_keyed hchapters
  have hid : u.id = seriesId := Table.get_key hu
  subst hid
  have hrows := syncTables_reading h
  have hkeyed : Table.Keyed CatalogChapterReadingState.chapterId c'.readingStates :=
    hrows ▸ foldl_syncReading_keyed hreadings
  have hread : ∀ id, c'.reading? id = Table.get CatalogChapterReadingState.chapterId
      ((c.chaptersOf u.id).foldl (syncReading t a now) c.readingStates) id := fun id => by
    unfold reading?
    rw [hrows]
  have hrow := syncTables_row h hu
  refine ⟨fun ch hch k hk => ?_, fun ch hch => ?_, fun ch hch => ?_, fun id hid => ⟨?_, ?_⟩,
    fun id hid => ⟨?_, ?_⟩, ?_⟩
  · rw [mapping_of_mem hids h hch] at hk
    unfold KavitaAnswer.mapChapter at hk
    split at hk
    · cases hk
    · rename_i r hr
      obtain ⟨hm, hn⟩ := byNumber_some hr
      exact ⟨r, hm, Option.some.inj hk, hn⟩
  · rw [mapping_of_mem hids h hch]
    unfold KavitaAnswer.mapChapter
    split
    · rename_i hnone
      exact ⟨fun hne => absurd rfl hne, fun ⟨r, hr, hn⟩ => absurd hn (byNumber_none hnone r hr)⟩
    · rename_i r hr
      exact ⟨fun _ => ⟨r, byNumber_some hr⟩, fun _ => Option.some_ne_none _⟩
  · rw [hread, get_foldl_of_mem hids hch]
    split
    · rename_i hnone
      unfold syncReading
      rw [hnone]
      rfl
    · rename_i p hp
      exact get_syncReading_self hp
  · unfold syncTables at h
    rw [hu] at h
    cases h
    dsimp only
    have hnone : (c.chaptersOf u.id).find? (fun ch => ch.id == id) = none :=
      List.find?_eq_none.mpr fun ch hch => by simpa using hid ch hch
    rw [hnone]
  · rw [hread]
    exact get_foldl_of_notMem hid
  · unfold Collection.series?
    rw [hrow]
    exact Table.get_put_of_ne hid
  · unfold syncTables at h
    rw [hu] at h
    cases h
    exact Function.update_of_ne hid _ _
  · refine ⟨a.mapSeries now u (a.promote u.status ((c.chaptersOf u.id).map (·.id))
      c'.readingStates), ?_, rfl, rfl, fun hno => ?_, fun hp hpaused huntracked => ?_⟩
    · unfold Collection.series?
      rw [hrow]
      exact Table.get_put_self (Table.get_mem hu) rfl
    · refine if_neg ?_
      rintro ⟨hp, hpaused, huntracked⟩
      rcases hno with hno | hno | hno
      · exact hp hno
      · exact hpaused hno
      · exact huntracked hno
    · have hpromote : a.promote u.status ((c.chaptersOf u.id).map (·.id)) c'.readingStates =
          nextStatus ((c.chaptersOf u.id).map (·.id)) c'.readingStates :=
        if_pos ⟨hp, hpaused, huntracked⟩
      rw [hpromote]
      refine ⟨?_, fun hs ch hch r hr => ?_⟩
      · refine (nextStatus_caughtUp hids hkeyed).trans ?_
        refine and_congr (by simp) ⟨fun hall ch hch => ?_, fun hall id hid => ?_⟩
        · obtain ⟨r, hr, hrid, hrs⟩ := hall ch.id (List.mem_map_of_mem hch)
          exact ⟨r, hrid ▸ hkeyed.get_eq hr, hrs⟩
        · obtain ⟨ch, hch, rfl⟩ := List.mem_map.mp hid
          obtain ⟨r, hr, hrs⟩ := hall ch hch
          exact ⟨r, Table.get_mem hr, Table.get_key hr, hrs⟩
      · unfold KavitaAnswer.mapSeries nextStatus at hs
        dsimp only at hs
        split at hs
        · cases hs
        split at hs
        · cases hs
        rename_i hno
        have hmem : r ∈ c'.readingStates.filter fun r =>
            r.chapterId ∈ (c.chaptersOf u.id).map (·.id) := by
          refine List.mem_filter.mpr ⟨Table.get_mem hr, ?_⟩
          rw [decide_eq_true_eq, Table.get_key hr]
          exact List.mem_map_of_mem hch
        cases hrs : r.status with
        | unread => rfl
        | _ => exact absurd (List.any_eq_true.mpr ⟨r, hmem, by rw [hrs]; rfl⟩) hno

/-- A second turn for a chapter finds the reading state of the first. -/
theorem syncReading_again {rows : List CatalogChapterReadingState} {chs : List CatalogChapter}
    (hids : Table.Keyed CatalogChapter.id chs)
    (h : Table.Keyed CatalogChapterReadingState.chapterId rows) (hch : ch ∈ chs) :
    syncReading t a later (chs.foldl (syncReading t a now) rows) ch =
      chs.foldl (syncReading t a now) rows := by
  cases hp : a.chapterProgress t ch with
  | none =>
    unfold syncReading
    rw [hp]
  | some p =>
    have hfold : Table.get CatalogChapterReadingState.chapterId
        (chs.foldl (syncReading t a now) rows) ch.id =
          Table.get CatalogChapterReadingState.chapterId (syncReading t a now rows ch) ch.id :=
      get_foldl_of_mem hids hch
    have hget := hfold.trans (get_syncReading_self hp)
    have hkeyed : Table.Keyed CatalogChapterReadingState.chapterId
        (chs.foldl (syncReading t a now) rows) := foldl_syncReading_keyed h
    generalize chs.foldl (syncReading t a now) rows = rows' at hget hkeyed
    unfold syncReading
    rw [hp]
    dsimp only
    rw [hget, Option.getD_some, KavitaReadProgress.reading_again]
    exact setReading_self hkeyed (by rw [← hget]; exact congrArg _ (Table.get_key hget))

theorem promote_again {status : SeriesStatus} {ids : List Nat}
    {rows : List CatalogChapterReadingState} :
    a.promote (a.promote status ids rows) ids rows = a.promote status ids rows := by
  have hnext : nextStatus ids rows ≠ .paused ∧ nextStatus ids rows ≠ .untracked := by
    unfold nextStatus
    dsimp only
    split
    · exact ⟨by decide, by decide⟩
    · split <;> exact ⟨by decide, by decide⟩
  unfold KavitaAnswer.promote
  by_cases h : a.progress ≠ [] ∧ status ≠ .paused ∧ status ≠ .untracked
  · rw [if_pos h, if_pos ⟨h.1, hnext⟩]
  · rw [if_neg h, if_neg h]

theorem mapChapter_again {m : ChapterMapping} :
    { a.mapChapter t later ch (a.mapChapter t now ch m) with kavitaMappedAt := none } =
      { a.mapChapter t now ch m with kavitaMappedAt := none } := by
  unfold KavitaAnswer.mapChapter
  split
  · rfl
  · cases a.cover <;> rfl

/-- The handler: the match for a snapshot of `c₀`, and the transaction on the tables `c` of then. -/
def synchronize (t : CatalogText) (kavitaFolder : String) (c₀ c : KavitaCatalog)
    (u₀ : CatalogSeries)
    (candidates : List KavitaSeries) (detail : Nat → List KavitaChapter)
    (polls : List (List KavitaSeries × (Nat → List KavitaChapter)))
    (cover : Option (String × String)) (progress : List KavitaReadProgress) (now : Time) :
    Option (KavitaAnswer × KavitaCatalog) :=
  match kavitaMatch t (c₀.snapshot u₀) kavitaFolder candidates detail polls with
  | none => none
  | some (series, chapters) =>
    let a : KavitaAnswer := { series, chapters, cover, progress }
    (c.syncTables t a now u₀.id).map fun c' => (a, c')

/-- A synchronization maps the chapters of the series to chapters of their numbers, among them those
of a tracked series that had a projection when it began; what Kavita knows of their progress becomes
their reading state, and the series is promoted by it. Everything else stays. -/
theorem synchronize_synced {kavitaFolder : String} {c₀ : KavitaCatalog} {u₀ : CatalogSeries}
    {candidates : List KavitaSeries} {detail : Nat → List KavitaChapter}
    {polls : List (List KavitaSeries × (Nat → List KavitaChapter))}
    {cover : Option (String × String)} {progress : List KavitaReadProgress}
    (hchapters : Table.Keyed CatalogChapter.id c.chapters)
    (hreadings : Table.Keyed CatalogChapterReadingState.chapterId c.readingStates)
    (h : synchronize t kavitaFolder c₀ c u₀ candidates detail polls cover progress now =
      some (a, c')) :
    (c₀.snapshot u₀).evidence t kavitaFolder a.series = true ∧
    ∃ u, c.series? u₀.id = some u ∧ Synced t a now u c c' ∧
      (u₀.status.isTracked = true → ∀ ch ∈ c.chaptersOf u.id,
        ch.canonicalNumber ∈ (c₀.snapshot u₀).expectedChapters →
          (c'.mapping ch.id).kavitaChapterId ≠ none) := by
  unfold synchronize at h
  split at h
  · cases h
  rename_i series chapters hmatch
  obtain ⟨c₁, hsync, he⟩ := Option.map_eq_some_iff.mp h
  cases he
  obtain ⟨hevidence, hcomplete⟩ := kavitaMatch_some hmatch
  refine ⟨hevidence, ?_⟩
  cases hu : c.series? u₀.id with
  | none =>
    unfold syncTables at hsync
    rw [hu] at hsync
    cases hsync
  | some u =>
    have hsynced := syncTables_synced hchapters hreadings hu hsync
    refine ⟨u, rfl, hsynced, fun htracked ch hch hexpected => (hsynced.found ch hch).mpr ?_⟩
    unfold KavitaSnapshot.complete at hcomplete
    rw [show (c₀.snapshot u₀).tracked = true from htracked] at hcomplete
    have hmem := List.all_eq_true.mp hcomplete _ hexpected
    rw [decide_eq_true_eq] at hmem
    obtain ⟨r, hr, hn⟩ := List.mem_map.mp hmem
    exact ⟨r, hr, hn⟩

end

end KavitaCatalog

/-! One chapter of a series was read in Kavita, and another one has been begun. -/

def soloCatalog : KavitaCatalog where
  series := [{ id := 1, storageKey := "a", status := .interested, title := "Solo" }]
  chapters :=
    [{ id := 1, seriesId := 1, canonicalNumber := "1", createdAt := 0 },
      { id := 2, seriesId := 1, canonicalNumber := "2", createdAt := 0 }]
  kavitaProjections := [{ chapterId := 1, artifactId := 1, relativePath := "solo/1.cbz" }]
  columns := fun _ => { updatedAt := 0 }

def soloDetail (_ : Nat) : List KavitaChapter :=
  [{ id := 40, number := "1", pagesTotal := 20 }, { id := 41, number := "2.0", pagesTotal := 20 }]

def soloProgress : List KavitaReadProgress :=
  [{ chapterId := 40, pagesRead := 20, pagesTotal := 20 },
    { chapterId := 41, pagesRead := 3, pagesTotal := 20 }]

theorem soloCatalog_synced : ∃ a c', KavitaCatalog.synchronize asciiCatalog "/manga/solo"
      soloCatalog soloCatalog { id := 1, storageKey := "a", status := .interested, title := "Solo" }
      [] soloDetail [(soloRows, soloDetail)] none soloProgress 9 = some (a, c') ∧
    c'.readingStates.map (·.status) = [.read, .reading] ∧
    c'.series.map (fun u => (u.kavitaSeriesId, u.status)) = [(some 9, .reading)] ∧
    ∃ u, soloCatalog.series? 1 = some u ∧
      KavitaCatalog.Synced asciiCatalog a 9 u soloCatalog c' := by
  cases h : KavitaCatalog.synchronize asciiCatalog "/manga/solo" soloCatalog soloCatalog
      { id := 1, storageKey := "a", status := .interested, title := "Solo" } [] soloDetail
      [(soloRows, soloDetail)] none soloProgress 9 with
  | none => exact absurd (congrArg Option.isSome h) (by decide +kernel)
  | some x =>
    obtain ⟨a, c'⟩ := x
    obtain ⟨-, u, hu, hsynced, -⟩ := KavitaCatalog.synchronize_synced (by decide) (by decide) h
    have hx := congrArg (Option.map fun x => (x.2.readingStates.map (·.status),
      x.2.series.map fun u => (u.kavitaSeriesId, u.status))) h
    have hvalue : Option.map (fun x : KavitaAnswer × KavitaCatalog =>
        (x.2.readingStates.map (·.status), x.2.series.map fun u => (u.kavitaSeriesId, u.status)))
        (KavitaCatalog.synchronize asciiCatalog "/manga/solo" soloCatalog soloCatalog
          { id := 1, storageKey := "a", status := .interested, title := "Solo" } [] soloDetail
          [(soloRows, soloDetail)] none soloProgress 9) =
        some ([.read, .reading], [(some 9, .reading)]) := by decide +kernel
    rw [hvalue] at hx
    simp only [Option.map_some, Option.some.injEq, Prod.mk.injEq] at hx
    exact ⟨a, c', rfl, hx.1.symm, hx.2.symm, u, hu, hsynced⟩

def soloAnswer : KavitaAnswer where
  series := { id := 9, name := "Solo" }
  chapters := soloDetail 9
  progress := soloProgress

end MangaManager
