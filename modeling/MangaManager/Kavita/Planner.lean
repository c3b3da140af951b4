import Mathlib.Data.Prod.Lex
import Mathlib.Order.WithBot
import MangaManager.Kavita.Sync
import MangaManager.Lib.Rotation

/-!
# Planning synchronizations

`KavitaSyncPlanner.enqueue_pending` of `manga_manager/application/kavita_sync.py` asks for the
series that were synchronized longest ago. `pending_served`: where a batch is synchronized before
the next one is planned, a series that is due is passed over in no more batches than the series
ahead of it fill, and those that come new.
-/

namespace MangaManager

open Lib

/-- Nulls are before all times. -/
def SyncStamp := WithBot Int

-- spelled out, as for the keys of a claim
instance : LinearOrder SyncStamp := @WithBot.linearOrder Int Int.instLinearOrder

/-- What `enqueue_pending` orders by: the series that were never synchronized come first. -/
def SyncKey := SyncStamp ×ₗ Nat

instance : LinearOrder SyncKey :=
  @Prod.Lex.instLinearOrder SyncStamp Nat instLinearOrderSyncStamp Nat.instLinearOrder

def CatalogSeries.syncedAt (u : CatalogSeries) : SyncStamp := u.kavitaSyncedAt

/-- The key of the series `i`, last synchronized at `s`. -/
def syncKeyAt (s : SyncStamp) (i : Nat) : SyncKey := toLex (s, i)

def CatalogSeries.syncKey (u : CatalogSeries) : SyncKey := syncKeyAt u.syncedAt u.id

/-- The series comes before the series `i`, last synchronized at `s`. -/
def CatalogSeries.isBefore (u : CatalogSeries) (s : Option Time) (i : Nat) : Bool :=
  decide (u.syncKey < syncKeyAt s i)

namespace KavitaCatalog

variable (c : KavitaCatalog) (limit : Nat) (refreshAfter : Option Time) (now : Time)

/-- A tracked series with a projection that Kavita does not have, or not as it is now. -/
def pendingSync (u : CatalogSeries) : Bool :=
  u.status.isTracked &&
    ((c.chaptersOf u.id).any fun ch => c.kavitaProjections.any (·.chapterId == ch.id)) &&
    (u.kavitaSeriesId.isNone || u.kavitaSyncedAt.isNone ||
      (u.kavitaSyncedAt.any fun s => s < (c.columns u.id).updatedAt) ||
      refreshAfter.any fun r => u.kavitaSyncedAt.any fun s => s < now - r)

/-- `rows`. -/
def pendingRows : List CatalogSeries :=
  Rotation.firstBy CatalogSeries.syncKey limit (c.series.filter (c.pendingSync refreshAfter now))

/-- The request for one series, or for all of a batch. -/
def syncRequest (key : String) (payload : KavitaSyncPayload) (units : Nat) (coalesce : Bool) :
    EnqueueArgs where
  kind := .kavitaSync
  dedupeKey := key
  payload := .kavitaSync payload
  priority := 70
  logicalUnits := units
  coalesce := coalesce

/-- One request; a job that waits for the configuration is woken. The number says whether there is
a job to run. -/
def requestSync (queue : Queue) (a : EnqueueArgs) : Except QueueError (Queue × Nat) :=
  match queue.enqueue a now with
  | .error e => .error e
  | .ok (queue, _, true) => .ok (queue, 1)
  | .ok (queue, jobId, false) => match queue.job? jobId with
    | none => .ok (queue, 0)
    | some j =>
      if j.status = .retryWait ∧ j.errorCode = "kavita_unconfigured" then
        .ok (queue.putJob (j.resume now), 1)
      else .ok (queue, 0)

/-- `enqueue_pending`. -/
def enqueuePending (batch : Bool) : Except QueueError (KavitaCatalog × Nat × Nat) :=
  if c.queue.jobs.any fun j => j.kind == .chapterDownload && j.status.isActive then .ok (c, 0, 0)
  else
    let rows := c.pendingRows limit refreshAfter now
    if batch ∧ rows ≠ [] then
      (requestSync now c.queue (syncRequest "periodic-refresh" { seriesIds := rows.map (·.id) }
        rows.length true)).map fun (queue, created) =>
          ({ c with queue := queue }, rows.length, created)
    else
      (rows.foldlM (fun (x : Queue × Nat) u =>
        (requestSync now x.1 (syncRequest ("series:" ++ toString u.id) { seriesId := u.id } 1
          false)).map fun (queue, created) => (queue, x.2 + created)) (c.queue, 0)).map
        fun (queue, created) => ({ c with queue := queue }, rows.length, created)

/-- The series of a batch are synchronized, each with its answer and at its time. -/
def runBatch (t : CatalogText) (batch : List (Nat × KavitaAnswer × Time)) : KavitaCatalog :=
  batch.foldl (fun c x => (c.syncTables t x.2.1 x.2.2 x.1).getD c) c

/-- A batch is planned and synchronized. Meanwhile and afterwards series may be added, go, change in
other columns, and be synchronized otherwise. -/
structure SyncRound (t : CatalogText) (added : List Nat) (c' : KavitaCatalog) : Prop where
  batch : ∃ batch : List (Nat × KavitaAnswer × Time),
    batch.map (·.1) = (c.pendingRows limit refreshAfter now).map (·.id) ∧
    (∀ x ∈ batch, ∀ u ∈ c.series, ∀ s, u.kavitaSyncedAt = some s → s < x.2.2) ∧
    ∀ u' ∈ c'.series, u'.id ∈ added ∨
      ∃ u ∈ (c.runBatch t batch).series, u.id = u'.id ∧ u.syncedAt ≤ u'.syncedAt
  fresh : ∀ u ∈ c.series, u.id ∉ added
  keyed : Table.Keyed CatalogSeries.id c'.series

/-- Rounds in which the series `i`, last synchronized at `s`, is due and not in the batch; `m` series
are added. -/
inductive Waits (t : CatalogText) (limit : Nat) (refreshAfter : Option Time) (i : Nat)
    (s : Option Time) : KavitaCatalog → Nat → Nat → KavitaCatalog → Prop where
  | nil {c : KavitaCatalog} : Table.Keyed CatalogSeries.id c.series →
      Waits t limit refreshAfter i s c 0 0 c
  | snoc {c c₁ c₂ : KavitaCatalog} {n m : Nat} {now : Time} {added : List Nat} {x : CatalogSeries} :
      Waits t limit refreshAfter i s c n m c₁ → x ∈ c₁.series → x.id = i → x.kavitaSyncedAt = s →
      c₁.pendingSync refreshAfter now x = true →
      i ∉ (c₁.pendingRows limit refreshAfter now).map (·.id) →
      c₁.SyncRound limit refreshAfter now t added c₂ →
      Waits t limit refreshAfter i s c (n + 1) (m + added.length) c₂

section
variable {c c' c₀ : KavitaCatalog} {t : CatalogText} {limit i n m : Nat} {added : List Nat}
  {refreshAfter s : Option Time} {now : Time} {a : KavitaAnswer}

/-- A synchronization stamps the row of its series. -/
theorem syncTables_stamp {u' : CatalogSeries} {id : Nat} (h : c.syncTables t a now id = some c')
    (hu' : u' ∈ c'.series) : ∃ u ∈ c.series, u.id = u'.id ∧
      ((u.id ≠ id ∧ u'.kavitaSyncedAt = u.kavitaSyncedAt) ∨
        (u.id = id ∧ u'.kavitaSyncedAt = some now)) := by
  cases hu : c.series? id with
  | none =>
    unfold syncTables at h
    rw [hu] at h
    cases h
  | some u =>
    have hid : u.id = id := Table.get_key hu
    rw [syncTables_row h hu] at hu'
    rcases Table.mem_put.mp hu' with ⟨rfl, -⟩ | ⟨hu', hne⟩
    · exact ⟨u, Table.get_mem hu, rfl, .inr ⟨hid, rfl⟩⟩
    · exact ⟨u', hu', rfl, .inl ⟨fun he => hne (he.trans hid.symm), rfl⟩⟩

/-- A row after a batch: it was in the batch and is stamped by it, or it is as it was. -/
theorem runBatch_row (t : CatalogText) (batch : List (Nat × KavitaAnswer × Time)) :
    ∀ u' ∈ (c.runBatch t batch).series, ∃ u ∈ c.series, u.id = u'.id ∧
      ((u.id ∉ batch.map (·.1) ∧ u'.kavitaSyncedAt = u.kavitaSyncedAt) ∨
        ∃ x ∈ batch, u.id = x.1 ∧ u'.kavitaSyncedAt = some x.2.2) := by
  induction batch using List.reverseRecOn with
  | nil => exact fun u' hu' => ⟨u', hu', rfl, .inl ⟨List.not_mem_nil, rfl⟩⟩
  | append_singleton batch x ih =>
    intro u' hu'
    have hlast : c.runBatch t (batch ++ [x]) =
        ((c.runBatch t batch).syncTables t x.2.1 x.2.2 x.1).getD (c.runBatch t batch) := by
      unfold runBatch
      rw [List.foldl_append, List.foldl_cons, List.foldl_nil]
    have hmore : ∀ {u : CatalogSeries}, u.id ≠ x.1 → u.id ∉ batch.map (·.1) →
        u.id ∉ (batch ++ [x]).map (·.1) := by
      intro u hne hnot
      simpa using ⟨by simpa using hnot, hne⟩
    rw [hlast] at hu'
    cases hsync : (c.runBatch t batch).syncTables t x.2.1 x.2.2 x.1 with
    | none =>
      rw [hsync] at hu'
      have hu₁ : u' ∈ (c.runBatch t batch).series := hu'
      -- the series is gone
      have hne : u'.id ≠ x.1 := by
        cases hx : (c.runBatch t batch).series? x.1 with
        | none => exact Table.get_eq_none.mp hx u' hu₁
        | some u =>
          unfold syncTables at hsync
          rw [hx] at hsync
          cases hsync
      obtain ⟨u, hu, hid, h⟩ := ih u' hu₁
      refine ⟨u, hu, hid, h.imp (fun h => ⟨hmore (hid ▸ hne) h.1, h.2⟩) ?_⟩
      rintro ⟨y, hy, h⟩
      exact ⟨y, List.mem_append_left _ hy, h⟩
    | some c₁ =>
      rw [hsync] at hu'
      obtain ⟨u₁, hu₁, hid₁, h₁⟩ := syncTables_stamp hsync hu'
      obtain ⟨u, hu, hid, h⟩ := ih u₁ hu₁
      refine ⟨u, hu, hid.trans hid₁, ?_⟩
      rcases h₁ with ⟨hne, hsame⟩ | ⟨heq, hstamp⟩
      · rw [hsame]
        refine h.imp (fun h => ⟨hmore (hid ▸ hne) h.1, h.2⟩) ?_
        rintro ⟨y, hy, h⟩
        exact ⟨y, List.mem_append_left _ hy, h⟩
      · exact .inr ⟨x, List.mem_append_right _ (List.mem_singleton_self x), hid.trans heq, hstamp⟩

theorem syncKey_id {u v : CatalogSeries} (h : u.syncKey = v.syncKey) : u.id = v.id :=
  (Prod.mk.inj h).2

theorem syncKey_lt {u v : CatalogSeries} :
    u.syncKey < v.syncKey ↔ u.syncedAt < v.syncedAt ∨ u.syncedAt = v.syncedAt ∧ u.id < v.id :=
  Prod.Lex.lt_iff

/-- A row that is as it was, or stamped later. -/
theorem syncKey_le {u v : CatalogSeries} (hid : u.id = v.id)
    (h : u.syncedAt ≤ v.syncedAt) : u.syncKey ≤ v.syncKey := by
  rcases lt_or_eq_of_le h with hlt | heq
  · exact le_of_lt (syncKey_lt.mpr (.inl hlt))
  · unfold CatalogSeries.syncKey
    rw [hid, heq]

/-- A round of the code is one of the rotation. -/
theorem SyncRound.round (h : c.SyncRound limit refreshAfter now t added c') :
    Rotation.Round CatalogSeries.id CatalogSeries.syncKey limit (c.pendingSync refreshAfter now)
      c.series added c'.series := by
  obtain ⟨batch, hids, htimes, hrows⟩ := h.batch
  -- a stamp of the batch is later than all the stamps before
  have hlate : ∀ {u : CatalogSeries}, ∀ x ∈ batch, u.kavitaSyncedAt = some x.2.2 →
      ∀ v ∈ c.series, v.syncedAt < u.syncedAt := by
    intro u x hx hstamp v hv
    have hu : u.syncedAt = ((x.2.2 : Int) : WithBot Int) := hstamp
    rw [hu]
    unfold CatalogSeries.syncedAt
    cases hs : v.kavitaSyncedAt with
    | none => exact WithBot.bot_lt_coe _
    | some s => exact WithBot.coe_lt_coe.mpr (htimes x hx v hv s hs)
  refine ⟨fun u' hu' => ?_, fun u hu u' hu' hid v hv => ?_⟩
  · refine (hrows u' hu').imp_right ?_
    rintro ⟨u₁, hu₁, hid₁, hle⟩
    obtain ⟨u, hu, hid, h⟩ := runBatch_row t batch u₁ hu₁
    refine ⟨u, hu, hid.trans hid₁, syncKey_le (hid.trans hid₁) (le_trans ?_ hle)⟩
    rcases h with ⟨-, hsame⟩ | ⟨x, hx, -, hstamp⟩
    · exact le_of_eq hsame.symm
    · exact le_of_lt (hlate x hx hstamp u hu)
  · have hu₀ : u ∈ c.series := (List.mem_filter.mp (Rotation.mem_firstBy hu)).1
    obtain ⟨u₁, hu₁, hid₁, hle⟩ := (hrows u' hu').resolve_left (hid ▸ h.fresh u hu₀)
    obtain ⟨u₂, hu₂, hid₂, h₂⟩ := runBatch_row t batch u₁ hu₁
    have hin : u₂.id ∈ batch.map (·.1) := by
      rw [hids, hid₂, hid₁, hid]
      exact List.mem_map_of_mem hu
    rcases h₂ with ⟨hnot, -⟩ | ⟨x, hx, -, hstamp⟩
    · exact absurd hin hnot
    · exact syncKey_lt.mpr (.inl (lt_of_lt_of_le (hlate x hx hstamp v hv) hle))

/-- The rounds are rounds of the rotation. -/
theorem Waits.rounds (h : Waits t limit refreshAfter i s c₀ n m c) :
    Table.Keyed CatalogSeries.id c.series ∧
      Rotation.Rounds CatalogSeries.id CatalogSeries.syncKey limit i (syncKeyAt s i)
        c₀.series n m c.series := by
  induction h with
  | nil hkeyed => exact ⟨hkeyed, .nil⟩
  | snoc _ hx hxi hxs hdue hnot hround ih =>
    obtain ⟨hkeyed, hrounds⟩ := ih
    refine ⟨hround.keyed, hrounds.snoc hround.round hkeyed hround.keyed
      (fun _ _ _ _ h => syncKey_id h) hx hxi ?_ hdue hnot⟩
    unfold CatalogSeries.syncKey CatalogSeries.syncedAt
    rw [hxi, hxs]

end

/-- Two series that Kavita does not have, and batches of one. -/
def twoPending : KavitaCatalog where
  series :=
    [{ id := 1, storageKey := "a", status := .reading },
      { id := 2, storageKey := "b", status := .reading }]
  chapters :=
    [{ id := 1, seriesId := 1, canonicalNumber := "1", createdAt := 0 },
      { id := 2, seriesId := 2, canonicalNumber := "1", createdAt := 0 }]
  kavitaProjections :=
    [{ chapterId := 1, artifactId := 1, relativePath := "a/1.cbz" },
      { chapterId := 2, artifactId := 2, relativePath := "b/1.cbz" }]
  columns := fun _ => { updatedAt := 0 }

end KavitaCatalog

end MangaManager
