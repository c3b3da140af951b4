import MangaManager.Catalog.Reconcile
import MangaManager.Downloads.Fencing

/-!
# What moving jobs between providers does to the intents

`ChapterDownloadHandler._reroute` and `bypass_cooling_source` write the tables of
`Downloads`. In the catalog this leaves the plans and the library, keeps active
jobs active, and lets an intent of a moved chapter wait for its active job again
(`Requeued`), whatever became of the intent in the meantime.
-/

namespace MangaManager

open Lib

namespace Catalog

/-- An intent of a chapter in `P` may have been put back to wait for an active job. -/
structure Requeued (P : Nat → Prop) (now : Time) (c c' : Catalog) : Prop where
  library : SameLibrary c c'
  plans : c'.plans = c.plans
  releases : ∀ r' ∈ c'.releases, ∃ r ∈ c.releases, r.id = r'.id ∧ r.chapterId = r'.chapterId ∧
    r.source = r'.source
  ok : c'.PlansOk
  queue : c.queue.Keeps c'.queue
  rows : List.Forall₂ (fun i i' => i' = i ∨ (P i.chapterId ∧ ∃ jobId,
    i' = { i with jobId := some jobId, state := .queued, updatedAt := now } ∧
      c'.queue.IsActive jobId)) c.intents c'.intents

section
variable {P : Nat → Prop} {c c₁ c' : Catalog} {d : Downloads} {now : Time} {chapterId jobId : Nat}

theorem Requeued.refl (hc : c.PlansOk) : Requeued P now c c :=
  ⟨.refl, rfl, fun r hr => ⟨r, hr, rfl, rfl, rfl⟩, hc, .refl hc.queue,
    List.forall₂_same.mpr fun _ _ => .inl rfl⟩

theorem Requeued.trans (h₁ : Requeued P now c c₁) (h₂ : Requeued P now c₁ c') :
    Requeued P now c c' := by
  refine ⟨h₁.library.trans h₂.library, h₂.plans.trans h₁.plans, fun r'' hr'' => ?_, h₂.ok,
    h₁.queue.trans h₂.queue, (Table.forall₂_comp h₁.rows h₂.rows).imp ?_⟩
  · obtain ⟨r', hr', hid', hch', hsrc'⟩ := h₂.releases r'' hr''
    obtain ⟨r, hr, hid, hch, hsrc⟩ := h₁.releases r' hr'
    exact ⟨r, hr, hid.trans hid', hch.trans hch', hsrc.trans hsrc'⟩
  · rintro i i'' ⟨i', h, h'⟩
    rcases h with rfl | ⟨hP, id, rfl, ha⟩
    · exact h'
    · rcases h' with rfl | ⟨-, id', rfl, ha'⟩
      · exact .inr ⟨hP, id, rfl, h₂.queue.active id ha⟩
      · exact .inr ⟨hP, id', rfl, ha'⟩

/-! ## The rows of `Downloads` in the catalog -/

theorem keyed_downloads (hc : c.PlansOk) :
    Table.Keyed ChapterDownloadIntent.id c.downloads.intents := by
  unfold Table.Keyed downloads
  rw [List.map_map]
  exact hc.intents

/-- The row of an intent as `requeueIntent` leaves it. -/
theorem get_requeueIntent (hc : c.PlansOk) {i : IntentRow} (hi : i ∈ c.intents) (hd : d.intents = c.downloads.intents) :
    Table.get ChapterDownloadIntent.id (d.requeueIntent chapterId jobId now).intents i.id =
        some i.toChapterDownloadIntent ∨
      (i.chapterId = chapterId ∧
        Table.get ChapterDownloadIntent.id (d.requeueIntent chapterId jobId now).intents i.id =
          some { i.toChapterDownloadIntent with
            jobId := some jobId, state := .queued, updatedAt := now }) := by
  have hk' : Table.Keyed ChapterDownloadIntent.id d.intents := hd ▸ keyed_downloads hc
  have hm : i.toChapterDownloadIntent ∈ d.intents := hd ▸ List.mem_map_of_mem hi
  unfold Downloads.requeueIntent
  split
  · exact .inl (hk'.get_eq hm)
  · rename_i x hx
    have hxm := List.mem_of_find?_eq_some hx
    have hxc : x.chapterId = chapterId := by simpa using List.find?_some hx
    by_cases he : i.id = x.id
    · -- the row that was written
      obtain rfl := hk'.eq hm hxm he
      refine .inr ⟨hxc, ?_⟩
      exact @Table.get_put_self _ ChapterDownloadIntent.id _ { i.toChapterDownloadIntent with
        jobId := some jobId, state := .queued, updatedAt := now } _ hxm rfl
    · refine .inl ((?_ : _ = _).trans (hk'.get_eq hm))
      exact @Table.get_put_of_ne _ ChapterDownloadIntent.id _ { x with
        jobId := some jobId, state := .queued, updatedAt := now } _ he

/-- The tables of `Downloads` written back, the intents as they were or one of them put back. -/
theorem requeued_withDownloads (hc : c.PlansOk) (hq : c.queue.Keeps d.queue)
    (hr : ∀ r ∈ d.releases, ∃ r₀ ∈ c.releases, r₀.id = r.id ∧ r₀.chapterId = r.chapterId ∧
      r₀.source = r.source)
    (hi : d.intents = c.downloads.intents ∨ ∃ d₀ : Downloads, ∃ chapterId jobId,
      d₀.intents = c.downloads.intents ∧ P chapterId ∧ d.queue.IsActive jobId ∧
      d.intents = (d₀.requeueIntent chapterId jobId now).intents) :
    Requeued P now c (c.withDownloads d) := by
  have hrows : List.Forall₂ (fun i i' => i' = i ∨ (P i.chapterId ∧ ∃ jobId,
      i' = { i with jobId := some jobId, state := .queued, updatedAt := now } ∧
        d.queue.IsActive jobId)) c.intents (c.withDownloads d).intents := by
    unfold withDownloads
    rw [List.forall₂_map_right_iff, List.forall₂_same]
    intro i hm
    rcases hi with hi | ⟨d₀, chapterId, jobId, hd₀, hP, ha, hi⟩
    · have hg : Table.get ChapterDownloadIntent.id d.intents i.id =
          some i.toChapterDownloadIntent := by
        rw [hi]
        exact (keyed_downloads hc).get_eq (List.mem_map_of_mem hm)
      rw [hg]
      exact .inl rfl
    · rw [hi]
      rcases get_requeueIntent hc hm hd₀ with hg | ⟨hch, hg⟩
      · rw [hg]
        exact .inl rfl
      · rw [hg]
        exact .inr ⟨hch ▸ hP, jobId, rfl, ha⟩
  have hids : (c.withDownloads d).intents.map (fun i => i.id) = c.intents.map fun i => i.id := by
    refine @Table.map_key_forall₂ _ (fun i : IntentRow => i.id) _ _ _ hrows ?_
    rintro i i' (rfl | ⟨-, _, rfl, -⟩) <;> rfl
  refine ⟨⟨rfl, rfl, rfl, rfl⟩, rfl, fun r' hr' => ?_, ⟨hq.ok, ?_, ?_, hc.plans⟩, hq, hrows⟩
  · obtain ⟨r, hm, rfl⟩ := List.mem_map.mp hr'
    dsimp only
    cases hg : d.release? r.id with
    | none => exact ⟨r, hm, rfl, rfl, rfl⟩
    | some x => exact hr x (Table.get_mem hg)
  · unfold Table.Keyed
    rw [hids]
    exact hc.intents
  · intro i' hi'
    obtain ⟨i, hm, h⟩ := Table.forall₂_right hrows hi'
    rcases h with rfl | ⟨-, _, rfl, -⟩
    · exact hc.below i' hm
    · exact hc.below i hm

/-- A release written back with another date is a release of the same chapter. -/
theorem mem_postpone {release r : CatalogChapterRelease} {t : Option Time}
    (hd : ∀ r ∈ d.releases, ∃ r₀ ∈ c.releases, r₀.id = r.id ∧ r₀.chapterId = r.chapterId ∧
      r₀.source = r.source)
    (hrel : release ∈ d.releases) (hr : r ∈ (d.postpone release t).releases) :
    ∃ r₀ ∈ c.releases, r₀.id = r.id ∧ r₀.chapterId = r.chapterId ∧
      r₀.source = r.source := by
  rcases Table.mem_put.mp hr with ⟨rfl, -⟩ | ⟨hm, -⟩
  · exact hd release hrel
  · exact hd r hm

@[simp] theorem requeueIntent_releases :
    (d.requeueIntent chapterId jobId now).releases = d.releases := by
  unfold Downloads.requeueIntent
  split <;> rfl

theorem downloads_releases :
    ∀ r ∈ c.downloads.releases, ∃ r₀ ∈ c.releases, r₀.id = r.id ∧ r₀.chapterId = r.chapterId ∧
      r₀.source = r.source := by
  intro r hr
  obtain ⟨r₀, hm, rfl⟩ := List.mem_map.mp hr
  exact ⟨r₀, hm, rfl, rfl, rfl⟩

/-! ## The two functions -/

/-- The chapter of the release a handler works on. -/
def SnapshotChapter (c : Catalog) (releaseId chapterId : Nat) : Prop :=
  ∃ r ∈ c.releases, r.id = releaseId ∧ r.chapterId = chapterId

/-- The handler of a leased job finds another release for the chapter. -/
def ReroutedChapter (c : Catalog) (jobId : Nat) (snapshot : DownloadSnapshot) (now : Time)
    (chapterId : Nat) : Prop :=
  c.SnapshotChapter snapshot.releaseId chapterId ∧ ∃ job payload,
    c.queue.job? jobId = some job ∧ job.status = .leased ∧ job.payload = .chapterDownload payload ∧
    payload.preferredOnly = false ∧ (fallbackRelease c.downloads.releases snapshot.chapterId
      snapshot.releaseId (Downloads.attempted payload snapshot.source) now).isSome = true

theorem handlerReroute_requeued {snapshot : DownloadSnapshot} {code message : String}
    {retryAt : Time} {moved : Bool} (hc : c.PlansOk)
    (h : c.downloads.handlerReroute jobId snapshot code message retryAt now = .ok (d, moved)) :
    Requeued (c.ReroutedChapter jobId snapshot now) now c (c.withDownloads d) := by
  have hsame : Requeued (c.ReroutedChapter jobId snapshot now) now c
      (c.withDownloads c.downloads) :=
    requeued_withDownloads hc (.refl hc.queue) downloads_releases (.inl rfl)
  unfold Downloads.handlerReroute at h
  split at h
  · rename_i job release hj hrel
    obtain ⟨hjm, hjid⟩ := Queue.job?_some hj
    have hrm : release ∈ c.downloads.releases := Table.get_mem hrel
    split at h
    · cases h
      exact hsame
    rename_i hl
    rw [not_not] at hl
    split at h
    · rename_i payload hparse
      obtain ⟨hpayload, -⟩ := parseJobPayload_eq_some.mp hparse
      unfold Downloads.leasedReroute at h
      split at h
      · cases h
        exact requeued_withDownloads hc (.refl hc.queue)
          (fun r hr => mem_postpone downloads_releases hrm hr) (.inl rfl)
      rename_i hpref
      split at h
      · -- the sources tried are noted in the row of the leased job
        cases h
        have hk := @Queue.keeps_putJob c.queue job (Downloads.withAttempted job payload
          ((Downloads.attempted payload snapshot.source).insertionSort (· ≤ ·))) hc.queue hjm rfl
          (show job.status.isActive = true by rw [hl]; rfl)
        exact requeued_withDownloads hc hk
          (fun r hr => mem_postpone downloads_releases hrm hr) (.inl rfl)
      · rename_i alternative halt
        obtain ⟨d₁, hd, he⟩ := map_eq_ok.mp h
        cases he
        unfold Downloads.reroute at hd
        split at hd
        · cases hd
        · cases hd
        · rename_i queue hq
          cases hd
          obtain ⟨hk, ha⟩ := Queue.reroute_keeps hc.queue hq
          refine requeued_withDownloads hc ?_ (fun r hr => ?_) (.inr ?_)
          · simpa [Downloads.addAttempt] using hk
          · refine mem_postpone (t := some retryAt) downloads_releases hrm ?_
            simpa [Downloads.addAttempt] using hr
          · refine ⟨_, release.chapterId, job.id, ?_, ?_, ?_, rfl⟩
            · rfl
            · obtain ⟨r, hr, he⟩ := List.mem_map.mp hrm
              refine ⟨⟨r, hr, ?_, by rw [← he]⟩, job, payload, hj, hl, hpayload,
                by simpa using hpref, by rw [halt]; rfl⟩
              rw [← Table.get_key hrel, ← he]
            · simpa [Downloads.addAttempt] using ha rfl
    · cases h
  · cases h
    exact hsame

/-- The chapter of a waiting download from the source, when it has a release of another one. -/
def CoolingChapter (c : Catalog) (source : String) (chapterId : Nat) : Prop :=
  ∃ job ∈ c.queue.jobs, job.source = source ∧ job.status.isWaiting = true ∧
    ∃ payload, job.payload = .chapterDownload payload ∧ payload.preferredOnly = false ∧
      c.SnapshotChapter payload.chapterReleaseId chapterId ∧
      ∃ r ∈ c.releases, r.chapterId = chapterId ∧ r.id ≠ payload.chapterReleaseId ∧
        r.source ∉ Downloads.attempted payload source

theorem holdJob_requeued {job k : WorkJob} {release : CatalogChapterRelease} {retryAfter : Time}
    (hc : c.PlansOk) (hk : k ∈ c.queue.jobs) (hid : k.id = job.id)
    (hrel : release ∈ c.downloads.releases) :
    Requeued P now c (c.holdJob job release retryAfter) := by
  have hq := @Queue.keeps_putJob c.queue k
    { job with status := .retryWait, availableAt := retryAfter } hc.queue hk hid rfl
  exact requeued_withDownloads hc hq (fun r hr => mem_postpone downloads_releases hrel hr) (.inl rfl)

theorem fallbackRelease_some {releases : List CatalogChapterRelease} {failedId : Nat}
    {excluded : List String} {a : CatalogChapterRelease}
    (h : fallbackRelease releases chapterId failedId excluded now = some a) :
    a ∈ releases ∧ a.chapterId = chapterId ∧ a.id ≠ failedId ∧ a.source ∉ excluded := by
  have hm := List.argmax_mem (Option.mem_def.mpr h)
  simp only [List.mem_filter, Bool.and_eq_true, beq_iff_eq, bne_iff_ne, decide_eq_true_eq] at hm
  exact ⟨hm.1, hm.2.1.1.1, hm.2.1.1.2, hm.2.1.2⟩

/-- One waiting job of the loop, found in the tables `c` it started with. -/
theorem bypassJob_requeued {source : String} {retryAfter : Time} {job : WorkJob} {n n' : Nat}
    (hc : c.PlansOk) (hjob : job ∈ c.queue.jobs) (hsource : job.source = source)
    (hw : job.status.isWaiting = true) (h₁ : Requeued (c.CoolingChapter source) now c c₁)
    (h : bypassJob now source retryAfter (c₁, n) job = .ok (c', n')) :
    Requeued (c.CoolingChapter source) now c c' := by
  have hactive : c.queue.IsActive job.id := by
    refine ⟨job, Queue.job?_eq hc.queue.keyed hjob, ?_⟩
    cases hs : job.status <;> rw [hs] at hw <;> first | rfl | cases hw
  have hactive₁ := h₁.queue.active _ hactive
  obtain ⟨k, hk, hid⟩ := Table.isSome_get.mp hactive₁.isSome
  unfold bypassJob at h
  dsimp only at h
  split at h
  · rename_i payload hp
    split at h
    · cases h
      exact h₁
    rename_i failed hf
    have hfm : failed ∈ c₁.downloads.releases := Table.get_mem hf
    split at h
    · cases h
      exact h₁.trans (holdJob_requeued h₁.ok hk hid hfm)
    rename_i hpref
    split at h
    · cases h
      exact h₁.trans (holdJob_requeued h₁.ok hk hid hfm)
    · rename_i alternative halt
      obtain ⟨⟨queue, moved⟩, hq, he⟩ := map_eq_ok.mp h
      cases he
      obtain ⟨hkeep, -⟩ := Queue.rerouteWaiting_keeps h₁.ok.queue hq
      refine h₁.trans (requeued_withDownloads h₁.ok ?_ (fun r hr => ?_) (.inr ?_))
      · simpa [Downloads.addAttempt] using hkeep
      · refine downloads_releases r ?_
        simpa [Downloads.addAttempt] using hr
      · refine ⟨{ c₁.downloads with queue := queue }, failed.chapterId, job.id, rfl, ?_, ?_, rfl⟩
        · -- both releases were there when the loop started
          have hback : ∀ x ∈ c₁.downloads.releases, ∃ r ∈ c.releases,
              r.id = x.id ∧ r.chapterId = x.chapterId ∧ r.source = x.source := by
            intro x hx
            obtain ⟨r₁, hr₁, rfl⟩ := List.mem_map.mp hx
            exact h₁.releases r₁ hr₁
          have hfid : failed.id = payload.chapterReleaseId := Table.get_key hf
          obtain ⟨r, hr, hrid, hrch, -⟩ := hback failed hfm
          obtain ⟨ham, hach, haid, hasrc⟩ := fallbackRelease_some halt
          obtain ⟨x, hx, hxid, hxch, hxsrc⟩ := hback alternative ham
          refine ⟨job, hjob, hsource, hw, payload, hp, by simpa using hpref,
            ⟨r, hr, hrid.trans hfid, hrch⟩, x, hx, hxch.trans hach, ?_, hxsrc ▸ hasrc⟩
          rw [hxid, ← hfid]
          exact haid
        · simpa [Downloads.addAttempt] using hkeep.active _ hactive₁
  · cases h
    exact h₁

theorem bypassCoolingSource_requeued {source : String} {retryAfter : Time} {n : Nat}
    (hc : c.PlansOk) (h : c.bypassCoolingSource now source retryAfter = .ok (c', n)) :
    Requeued (c.CoolingChapter source) now c c' := by
  unfold bypassCoolingSource at h
  refine foldlM_inv (P := fun acc => Requeued (c.CoolingChapter source) now c acc.1) h
    (.refl hc) ?_
  rintro ⟨c₁, n₁⟩ job ⟨c₂, n₂⟩ hjob h₁ hj
  simp only [List.mem_filter, Bool.and_eq_true, beq_iff_eq] at hjob
  exact bypassJob_requeued hc hjob.1 hjob.2.1.2 hjob.2.2 h₁ hj

end

end Catalog

end MangaManager
