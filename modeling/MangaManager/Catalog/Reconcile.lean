import MangaManager.Catalog.Plans
import MangaManager.Queue.Growth

/-!
# What a reconciliation makes of the intents

`advance` in three steps, with a specification each: chapters without an intent
get one (`Synced`), every intent follows its job (`followJob`) and may be
unblocked, and the pending ones get a job (`Readied`). `advance_spec` puts them
together: each intent of the series after the call comes from one before it, or
from a chapter that had none.
-/

namespace MangaManager

open Lib

namespace Catalog

/-- Primary keys of the tables, and ids of the sequences. -/
structure PlansOk (c : Catalog) : Prop where
  queue : c.queue.RowsOk
  intents : Table.Keyed (fun i : IntentRow => i.id) c.intents
  below : ∀ i ∈ c.intents, i.id < c.nextIntent
  plans : Table.Keyed SeriesDownloadPlan.seriesId c.plans

section
variable {c c' c₁ : Catalog} {now : Time} {plan : SeriesDownloadPlan} {phase : PlanPhase}
  {window seriesId n n' : Nat} {i i' : IntentRow}

theorem PlansOk.plan?_eq (hc : c.PlansOk) (hp : plan ∈ c.plans) :
    c.plan? plan.seriesId = some plan := hc.plans.get_eq hp

/-! ## Chapters without an intent -/

/-- The intent of a chapter that had none. -/
structure Fresh (c : Catalog) (plan : SeriesDownloadPlan) (i : IntentRow) : Prop where
  series : i.seriesId = plan.seriesId
  job : i.jobId = none
  place : ∃ chapter ∈ c.chapters, chapter.seriesId = plan.seriesId ∧ i.chapterId = chapter.id ∧
    i.tier = (c.newIntentState plan chapter).1 ∧
    i.state = if c.hasActiveArtifact chapter.id then .satisfied
      else (c.newIntentState plan chapter).2

/-- What `_sync_chapters` does. -/
structure Synced (plan : SeriesDownloadPlan) (c c' : Catalog) : Prop where
  rest : ∃ rows next, c' = { c with intents := rows, nextIntent := next }
  ok : c.PlansOk → c'.PlansOk
  kept : ∀ i ∈ c.intents, i ∈ c'.intents
  fresh : ∀ i ∈ c'.intents, i ∈ c.intents ∨ c.Fresh plan i

theorem addIntent_synced (now : Time) {chapter : CatalogChapter} (hm : chapter ∈ c.chapters)
    (hs : chapter.seriesId = plan.seriesId) :
    Synced plan c (c.addIntent now plan chapter) ∧
      ∃ i ∈ (c.addIntent now plan chapter).intents,
        i.seriesId = plan.seriesId ∧ i.chapterId = chapter.id := by
  refine ⟨⟨⟨_, _, rfl⟩, fun hc => ⟨hc.queue, ?_, ?_, hc.plans⟩, fun i hi => ?_, fun i hi => ?_⟩, ?_⟩
  · exact Table.keyed_append.mpr ⟨hc.intents, fun i hi => (hc.below i hi).ne⟩
  · intro i hi
    rcases List.mem_append.mp hi with hi | hi
    · exact (hc.below i hi).trans (Nat.lt_succ_self _)
    · rw [List.mem_singleton.mp hi]
      exact Nat.lt_succ_self _
  · exact List.mem_append_left _ hi
  · rcases List.mem_append.mp hi with hi | hi
    · exact .inl hi
    · rw [List.mem_singleton.mp hi]
      exact .inr ⟨rfl, rfl, chapter, hm, hs, rfl, rfl, rfl⟩
  · exact ⟨_, List.mem_append_right _ (List.mem_singleton_self _), rfl, rfl⟩

theorem Synced.refl : Synced plan c c := ⟨⟨_, _, rfl⟩, id, fun _ => id, fun _ => .inl⟩

theorem Synced.trans (h₁ : Synced plan c c₁) (h₂ : Synced plan c₁ c') : Synced plan c c' := by
  obtain ⟨⟨rows, next, rfl⟩, ok₁, kept₁, fresh₁⟩ := h₁
  obtain ⟨⟨rows', next', rfl⟩, ok₂, kept₂, fresh₂⟩ := h₂
  refine ⟨⟨_, _, rfl⟩, fun hc => ok₂ (ok₁ hc), fun i hi => kept₂ i (kept₁ i hi), fun i hi => ?_⟩
  rcases fresh₂ i hi with hi | hi
  · exact fresh₁ i hi
  · exact .inr ⟨hi.series, hi.job, hi.place⟩

/-- The intents added in a row. -/
theorem foldl_addIntent {l : List CatalogChapter}
    (hl : ∀ ch ∈ l, ch ∈ c.chapters ∧ ch.seriesId = plan.seriesId) :
    Synced plan c (l.foldl (fun c chapter => c.addIntent now plan chapter) c) ∧
      ∀ ch ∈ l, ∃ i ∈ (l.foldl (fun c chapter => c.addIntent now plan chapter) c).intents,
        i.seriesId = plan.seriesId ∧ i.chapterId = ch.id := by
  induction l generalizing c with
  | nil => exact ⟨.refl, fun _ h => (by cases h)⟩
  | cons ch l ih =>
    obtain ⟨hm, hs⟩ := hl ch List.mem_cons_self
    obtain ⟨hadd, i, hi, hi'⟩ := addIntent_synced now hm hs
    obtain ⟨hrest, hcov⟩ := ih (c := c.addIntent now plan ch)
      fun x hx => hl x (List.mem_cons_of_mem _ hx)
    refine ⟨hadd.trans hrest, fun x hx => ?_⟩
    rcases List.mem_cons.mp hx with rfl | hx
    · exact ⟨i, hrest.kept i hi, hi'⟩
    · exact hcov x hx

theorem mem_chaptersOf {chapter : CatalogChapter} :
    chapter ∈ c.chaptersOf seriesId ↔ chapter ∈ c.chapters ∧ chapter.seriesId = seriesId := by
  simp [chaptersOf, List.mem_insertionSort]

theorem mem_intentsOf : i ∈ c.intentsOf seriesId ↔ i ∈ c.intents ∧ i.seriesId = seriesId := by
  simp [intentsOf]

theorem syncChapters_synced : Synced plan c (c.syncChapters now plan) :=
  (foldl_addIntent fun _ h => mem_chaptersOf.mp (List.mem_filter.mp h).1).1

/-- Every chapter of the series has an intent. -/
theorem syncChapters_covers (now : Time) {chapter : CatalogChapter} (hm : chapter ∈ c.chapters)
    (hs : chapter.seriesId = plan.seriesId) :
    ∃ i ∈ (c.syncChapters now plan).intents,
      i.seriesId = plan.seriesId ∧ i.chapterId = chapter.id := by
  by_cases he : chapter.id ∈ (c.intentsOf plan.seriesId).map (·.chapterId)
  · obtain ⟨i, hi, hid⟩ := List.mem_map.mp he
    obtain ⟨hi, hs'⟩ := mem_intentsOf.mp hi
    exact ⟨i, syncChapters_synced.kept i hi, hs', hid⟩
  · refine (foldl_addIntent fun ch hch => mem_chaptersOf.mp (List.mem_filter.mp hch).1).2 chapter ?_
    exact List.mem_filter.mpr ⟨mem_chaptersOf.mpr ⟨hm, hs⟩, by simpa using he⟩

/-! ## Intents follow their jobs -/

/-- `followJob` writes the state, the job and the time. -/
theorem followJob_eq : ∃ state jobId updatedAt, c.followJob now i =
    { i with state := state, jobId := jobId, updatedAt := updatedAt } := by
  unfold followJob
  split
  · exact ⟨_, _, _, rfl⟩
  · split
    · exact ⟨_, _, _, rfl⟩
    · split <;> exact ⟨_, _, _, rfl⟩

@[simp] theorem followJob_id : (c.followJob now i).id = i.id := by
  obtain ⟨_, _, _, h⟩ := followJob_eq
  rw [h]

@[simp] theorem followJob_seriesId : (c.followJob now i).seriesId = i.seriesId := by
  obtain ⟨_, _, _, h⟩ := followJob_eq
  rw [h]

@[simp] theorem followJob_chapterId : (c.followJob now i).chapterId = i.chapterId := by
  obtain ⟨_, _, _, h⟩ := followJob_eq
  rw [h]

@[simp] theorem followJob_tier : (c.followJob now i).tier = i.tier := by
  obtain ⟨_, _, _, h⟩ := followJob_eq
  rw [h]

theorem followJob_satisfied (h : c.hasActiveArtifact i.chapterId = true) :
    c.followJob now i = { i with state := .satisfied, updatedAt := now } := if_pos h

theorem followJob_idle (h : c.hasActiveArtifact i.chapterId = false) (hj : i.jobId = none) :
    c.followJob now i = i := by
  simp [followJob, h, hj]

theorem followJob_lost (now : Time) {jobId : Nat} (h : c.hasActiveArtifact i.chapterId = false)
    (hj : i.jobId = some jobId) (hq : c.queue.job? jobId = none) :
    (c.followJob now i).jobId = none ∧
      (i.state ≠ .queued → (c.followJob now i).state = i.state) ∧
      (i.state = .queued →
        (c.followJob now i).state = if i.tier ≠ .backfill then .pending else .blocked) := by
  simp +contextual [followJob, h, hj, hq]

theorem followJob_job (now : Time) {jobId : Nat} {job : WorkJob}
    (h : c.hasActiveArtifact i.chapterId = false) (hj : i.jobId = some jobId)
    (hq : c.queue.job? jobId = some job) :
    (c.followJob now i).jobId = some jobId ∧
      (job.status.isActive = true → (c.followJob now i).state = .queued) ∧
      (job.status = .succeeded → (c.followJob now i).state = .satisfied) ∧
      (job.status = .failed ∨ job.status = .cancelled →
        (c.followJob now i).state = .attention) := by
  cases hs : job.status <;> simp [followJob, h, hj, hq, hs, JobState.isActive]

@[simp] theorem unblock_id : (unblock plan phase i).id = i.id := by
  unfold unblock
  split <;> rfl

@[simp] theorem unblock_seriesId : (unblock plan phase i).seriesId = i.seriesId := by
  unfold unblock
  split <;> rfl

@[simp] theorem unblock_chapterId : (unblock plan phase i).chapterId = i.chapterId := by
  unfold unblock
  split <;> rfl

@[simp] theorem unblock_tier : (unblock plan phase i).tier = i.tier := by
  unfold unblock
  split <;> rfl

@[simp] theorem unblock_jobId : (unblock plan phase i).jobId = i.jobId := by
  unfold unblock
  split <;> rfl

/-- Only a blocked intent is unblocked. -/
theorem unblock_of_ne (h : i.state ≠ .blocked) : unblock plan phase i = i :=
  if_neg fun hb => h hb.2.2.2

theorem unblock_blocked (h : (unblock plan phase i).state = .blocked) :
    unblock plan phase i = i ∧ i.state = .blocked := by
  unfold unblock at h ⊢
  split
  · rename_i hu
    rw [if_pos hu] at h
    cases h
  · rename_i hu
    rw [if_neg hu] at h
    exact ⟨rfl, h⟩

theorem unblock_state (h : i.state = .blocked) :
    (unblock plan phase i).state = .blocked ∨ (unblock plan phase i).state = .pending := by
  unfold unblock
  split
  · exact .inr rfl
  · exact .inl h

theorem mapIntents_ok {f : IntentRow → IntentRow} (hf : ∀ i, (f i).id = i.id) (hc : c.PlansOk) :
    (c.mapIntents seriesId f).PlansOk := by
  have hid : ∀ i : IntentRow, (if i.seriesId = seriesId then f i else i).id = i.id := by
    intro i
    split
    · exact hf i
    · rfl
  refine ⟨hc.queue, ?_, ?_, hc.plans⟩
  · unfold Table.Keyed mapIntents
    rw [List.map_map]
    exact (List.map_congr_left fun i _ => hid i) ▸ hc.intents
  · intro i hi
    obtain ⟨i₀, hi₀, rfl⟩ := List.mem_map.mp hi
    rw [hid]
    exact hc.below i₀ hi₀

/-! ## Pending intents get a job -/

/-- What `_enqueue_ready` makes of a pending intent. -/
inductive Readied (c : Catalog) (now : Time) (queue : Queue) (i : IntentRow) : IntentRow → Prop where
  | starved : i.state = .pending → c.bestRelease now i.chapterId = none →
      Readied c now queue i { i with state := .attention }
  | queued {jobId : Nat} : i.state = .pending → (c.bestRelease now i.chapterId).isSome = true →
      queue.IsActive jobId →
      Readied c now queue i { i with jobId := some jobId, state := .queued, updatedAt := now }

/-- What a loop of `_enqueue_ready` over the intents of `l` does. -/
structure Enqueued (now : Time) (l : List IntentRow) (c c' : Catalog) : Prop where
  rest : ∃ q rows, c' = { c with queue := q, intents := rows }
  ok : c'.PlansOk
  grows : c.queue.Grows c'.queue
  rows : List.Forall₂ (fun i i' => i' = i ∨ (i ∈ l ∧ c.Readied now c'.queue i i'))
    c.intents c'.intents

theorem Readied.mono {q q' : Queue} (h : c.Readied now q i i') (hq : q.Grows q') :
    c.Readied now q' i i' := by
  cases h with
  | starved hs hr => exact .starved hs hr
  | queued hs hr ha => exact .queued hs hr (hq.active _ ha)

theorem bestRelease_congr (h : c'.releases = c.releases) (chapterId : Nat) :
    c'.bestRelease now chapterId = c.bestRelease now chapterId := by
  rw [bestRelease, h, bestRelease]

theorem Readied.of_releases {q : Queue} (h : c'.Readied now q i i')
    (hr : c'.releases = c.releases) : c.Readied now q i i' := by
  cases h with
  | starved hs hb => exact .starved hs (bestRelease_congr hr _ ▸ hb)
  | queued hs hb ha => exact .queued hs (bestRelease_congr hr _ ▸ hb) ha

theorem Readied.id_eq {q : Queue} (h : c.Readied now q i i') :
    i'.id = i.id ∧ i'.seriesId = i.seriesId ∧ i'.chapterId = i.chapterId ∧ i'.tier = i.tier := by
  cases h <;> exact ⟨rfl, rfl, rfl, rfl⟩

theorem Enqueued.refl (hc : c.PlansOk) : Enqueued now [] c c :=
  ⟨⟨_, _, rfl⟩, hc, .refl, List.forall₂_same.mpr fun _ _ => .inl rfl⟩

/-- A row of the table is written back with another queue. -/
theorem enqueued_put {q : Queue} (hc : c.PlansOk) (hi : i ∈ c.intents) (hq : c.queue.Grows q)
    (hok : q.RowsOk) (hr : c.Readied now q i i') :
    Enqueued now [i] c ({ c with queue := q }.putIntent i') := by
  obtain ⟨hid, -⟩ := hr.id_eq
  refine ⟨⟨_, _, rfl⟩, ⟨hok, Table.keyed_put.mpr hc.intents, fun j hj => ?_, hc.plans⟩, hq, ?_⟩
  · rcases Table.mem_put.mp hj with ⟨rfl, -⟩ | ⟨hj, -⟩
    · exact hid ▸ hc.below i hi
    · exact hc.below j hj
  · exact Table.forall₂_put hc.intents hi hid.symm (.inr ⟨List.mem_singleton_self i, hr⟩)
      fun _ _ => .inl rfl

theorem enqueueIntent_enqueued (hc : c.PlansOk) (hi : i ∈ c.intents)
    (h : enqueueIntent now window seriesId (c, n) i = .ok (c', n')) : Enqueued now [i] c c' := by
  have hid : Enqueued now [i] c c :=
    ⟨⟨_, _, rfl⟩, hc, .refl, List.forall₂_same.mpr fun _ _ => .inl rfl⟩
  unfold enqueueIntent at h
  dsimp only at h
  split at h
  · cases h
    exact hid
  rename_i hs
  rw [not_not] at hs
  split at h
  · cases h
    exact hid
  split at h
  · rename_i hr
    cases h
    exact enqueued_put hc hi .refl hc.queue (.starved hs hr)
  · rename_i release hr
    split at h
    · cases h
    · rename_i queue jobId created hq
      cases h
      obtain ⟨hg, hok, ha⟩ := Queue.enqueue_grows hc.queue hq
      exact enqueued_put hc hi hg hok (.queued hs (by rw [hr]; rfl) ha)

/-- Loops over distinct rows compose. -/
theorem Enqueued.cons {l : List IntentRow} (hl : ∀ j ∈ l, j.id ≠ i.id)
    (h₁ : Enqueued now [i] c c₁) (h₂ : Enqueued now l c₁ c') : Enqueued now (i :: l) c c' := by
  obtain ⟨⟨q, rows, rfl⟩, -, hg₁, hrows₁⟩ := h₁
  obtain ⟨⟨q', rows', rfl⟩, hok, hg₂, hrows₂⟩ := h₂
  refine ⟨⟨_, _, rfl⟩, hok, hg₁.trans hg₂, (Table.forall₂_comp hrows₁ hrows₂).imp ?_⟩
  rintro x z ⟨y, hxy, hyz⟩
  rcases hxy with rfl | ⟨hx, hr⟩
  · rcases hyz with rfl | ⟨hy, hr⟩
    · exact .inl rfl
    · refine .inr ⟨List.mem_cons_of_mem _ hy, ?_⟩
      exact hr.of_releases rfl
  · obtain rfl := List.mem_singleton.mp hx
    have hyz' : z = y := by
      rcases hyz with rfl | ⟨hy, -⟩
      · rfl
      · exact absurd hr.id_eq.1 (hl y hy)
    rw [hyz']
    exact .inr ⟨List.mem_cons_self, hr.mono hg₂⟩

theorem foldlM_enqueueIntent {l : List IntentRow} (hc : c.PlansOk) (hl : ∀ i ∈ l, i ∈ c.intents)
    (hnd : (l.map (·.id)).Nodup)
    (h : l.foldlM (enqueueIntent now window seriesId) (c, n) = .ok (c', n')) :
    Enqueued now l c c' := by
  induction l generalizing c n with
  | nil =>
    cases h
    exact .refl hc
  | cons i l ih =>
    obtain ⟨⟨c₁, n₁⟩, hi, hrest⟩ := foldlM_cons_eq_ok.mp h
    obtain ⟨hni, hnd⟩ := List.nodup_cons.mp hnd
    have hne : ∀ j ∈ l, j.id ≠ i.id := by
      intro j hj he
      exact hni (List.mem_map.mpr ⟨j, hj, he⟩)
    have h₁ := enqueueIntent_enqueued hc (hl i List.mem_cons_self) hi
    refine .cons hne h₁ (ih h₁.ok (fun j hj => ?_) hnd hrest)
    -- the rows still to come are as the loop first saw them
    obtain ⟨j', hj', hr⟩ := Table.forall₂_left h₁.rows (hl j (List.mem_cons_of_mem _ hj))
    rcases hr with rfl | ⟨hm, -⟩
    · exact hj'
    · exact absurd (congrArg (·.id) (List.mem_singleton.mp hm)) (hne j hj)

theorem enqueueReady_enqueued (hc : c.PlansOk) (h : c.enqueueReady now window seriesId = .ok c') :
    Enqueued now (c.intentsOf seriesId) c c' := by
  unfold enqueueReady at h
  obtain ⟨⟨c₁, n⟩, hl, rfl⟩ := map_eq_ok.mp h
  have hperm := List.perm_insertionSort (fun a b : IntentRow =>
    a.tier.order < b.tier.order ∨ (a.tier.order = b.tier.order ∧ a.id ≤ b.id))
    (c.intentsOf seriesId)
  have hnd : ((c.intentsOf seriesId).map (·.id)).Nodup :=
    List.Nodup.sublist (List.Sublist.map _ List.filter_sublist) hc.intents
  obtain ⟨hrest, hok, hg, hrows⟩ := foldlM_enqueueIntent hc
    (fun i hi => (mem_intentsOf.mp (hperm.mem_iff.mp hi)).1) ((hperm.map _).nodup_iff.mpr hnd) hl
  refine ⟨hrest, hok, hg, hrows.imp fun i i' hr => ?_⟩
  exact hr.imp_right fun ⟨hi, hr⟩ => ⟨hperm.mem_iff.mp hi, hr⟩

theorem isSpace_toString (n : Nat) : ∀ ch ∈ (toString n).toList, isSpace ch = false := by
  intro ch hch
  have hd : ch.isDigit = true := Nat.isDigit_of_mem_toDigits (by decide) (by decide)
    (Nat.toList_repr ▸ hch)
  exact (isDigit_ne hd).1

/-- A request for a download passes the checks of the queue, when its key has no blanks. -/
theorem checkEnqueue_download {a : EnqueueArgs} {p : ChapterDownloadPayload}
    (hkind : a.kind = .chapterDownload) (hpayload : a.payload = .chapterDownload p)
    (hp : (JobPayload.chapterDownload p).validate = true) (hattempts : 1 ≤ a.maxAttempts)
    (hne : a.dedupeKey.toList ≠ []) (hkey : ∀ ch ∈ a.dedupeKey.toList, isSpace ch = false) :
    Queue.checkEnqueue a = .ok () := by
  have hkey : strip a.dedupeKey ≠ "" := by
    rw [strip_eq_self hkey]
    intro he
    rw [he] at hne
    exact hne rfl
  have hvalid : a.payload.ValidFor a.kind := by
    rw [hpayload, hkind]
    exact ⟨rfl, hp⟩
  unfold Queue.checkEnqueue
  rw [if_neg hkey, if_neg, if_neg]
  · rw [Option.isNone_iff_eq_none, ← ne_eq, ← Option.isSome_iff_ne_none]
    exact parseJobPayload_validFor.mpr hvalid
  · omega

/-- The request for a download passes the checks of the queue. -/
theorem checkEnqueue_downloadRequest (seriesId : Nat) (i : IntentRow)
    (release : CatalogChapterRelease) :
    Queue.checkEnqueue (downloadRequest seriesId i release) = .ok () := by
  refine checkEnqueue_download rfl rfl ?_ (show 1 ≤ 3 by omega) ?_ fun ch hch => ?_
  · simp [JobPayload.validate, release.id_pos]
  · simp [downloadRequest]
  · simp only [downloadRequest, String.toList_append, List.mem_append] at hch
    rcases hch with hch | hch
    · have hall : "chapter:".toList.all (fun c => !isSpace c) = true := by decide
      exact (Bool.not_eq_true' _).mp (List.all_eq_true.mp hall ch hch)
    · exact isSpace_toString _ ch hch

/-- No intent makes `_enqueue_ready` raise. -/
theorem enqueueIntent_ok (acc : Catalog × Nat) (i : IntentRow) :
    ∃ acc', enqueueIntent now window seriesId acc i = .ok acc' := by
  unfold enqueueIntent
  dsimp only
  split
  · exact ⟨_, rfl⟩
  split
  · exact ⟨_, rfl⟩
  split
  · exact ⟨_, rfl⟩
  · rename_i release _
    obtain ⟨q, id, created, hq⟩ := Queue.enqueue_ok acc.1.queue now
      (checkEnqueue_downloadRequest seriesId i release)
    rw [hq]
    exact ⟨_, rfl⟩

theorem enqueueReady_ok (c : Catalog) (now : Time) (window seriesId : Nat) :
    ∃ c', c.enqueueReady now window seriesId = .ok c' := by
  obtain ⟨acc, hacc⟩ := foldlM_ok (P := fun _ : Catalog × Nat => True)
    (f := enqueueIntent now window seriesId) trivial
    fun acc i _ _ => (enqueueIntent_ok acc i).imp fun _ h => ⟨h, trivial⟩
  exact ⟨acc.1, map_eq_ok.mpr ⟨acc, hacc, rfl⟩⟩

/-! ## The whole step -/

/-- The intent as `_enqueue_ready` finds it. -/
def followed (c : Catalog) (now : Time) (plan : SeriesDownloadPlan) (phase : PlanPhase)
    (i : IntentRow) : IntentRow := unblock plan phase (c.followJob now i)

/-- The phase `reconcile` goes on with, after `_sync_chapters`. -/
def phaseAfter (c : Catalog) (now : Time) (plan : SeriesDownloadPlan) : PlanPhase :=
  (c.mapIntents plan.seriesId (c.followJob now)).nextPhase plan

/-- What becomes of an intent: `phase` is the one the plan goes on with. -/
def Moved (c : Catalog) (now : Time) (plan : SeriesDownloadPlan) (phase : PlanPhase) (queue : Queue)
    (i i' : IntentRow) : Prop :=
  if i.seriesId = plan.seriesId then
    i' = c.followed now plan phase i ∨ c.Readied now queue (c.followed now plan phase i) i'
  else i' = i

/-- What `advance` does. -/
structure Advanced (now : Time) (plan : SeriesDownloadPlan) (c c' : Catalog) : Prop where
  library : SameLibrary c c'
  releases : c'.releases = c.releases
  ok : c'.PlansOk
  grows : c.queue.Grows c'.queue
  rows : List.Forall₂
    (c.Moved now plan ((c.syncChapters now plan).phaseAfter now plan) c'.queue)
    (c.syncChapters now plan).intents c'.intents
  plans : c'.plans = Table.put SeriesDownloadPlan.seriesId c.plans
    (c'.tally now plan ((c.syncChapters now plan).phaseAfter now plan))

theorem Synced.followJob (h : Synced plan c c') : c'.followJob now = c.followJob now := by
  obtain ⟨_, _, rfl⟩ := h.rest
  rfl

/-- The intents before `_enqueue_ready`, after `_sync_chapters`. -/
theorem mapIntents_followed : ((c.mapIntents plan.seriesId (c₁.followJob now)).mapIntents
      plan.seriesId (unblock plan phase)).intents =
    c.intents.map fun i =>
      if i.seriesId = plan.seriesId then c₁.followed now plan phase i else i := by
  unfold mapIntents
  rw [List.map_map]
  refine List.map_congr_left fun i _ => ?_
  by_cases hs : i.seriesId = plan.seriesId
  · simp [hs, followed]
  · simp [hs]

theorem advance_spec (hc : c.PlansOk) (h : c.advance now window plan = .ok c') :
    Advanced now plan c c' := by
  have hsync : Synced plan c (c.syncChapters now plan) := syncChapters_synced
  obtain ⟨c₂, hr, rfl⟩ := map_eq_ok.mp h
  have hfollow : followed (c.syncChapters now plan) = followed c := by
    unfold followed
    funext t p ph i
    rw [hsync.followJob]
  obtain ⟨hrest, hok₂, hg, hrows⟩ := enqueueReady_enqueued
    (mapIntents_ok (fun _ => unblock_id) (mapIntents_ok (fun _ => followJob_id) (hsync.ok hc))) hr
  rw [mapIntents_followed, List.forall₂_map_left_iff] at hrows
  obtain ⟨rows, next, hs⟩ := hsync.rest
  obtain ⟨q, rows', hc₂⟩ := hrest
  have hplans : c₂.plans = c.plans := by rw [hc₂, mapIntents, mapIntents, hs]
  have hqueue : (c.syncChapters now plan).queue = c.queue := by rw [hs]
  have hreleases : c₂.releases = c.releases := by rw [hc₂, mapIntents, mapIntents, hs]
  refine ⟨advance_library h, hreleases, ⟨hok₂.queue, hok₂.intents, hok₂.below, ?_⟩, ?_, ?_, ?_⟩
  · exact Table.keyed_put.mpr hok₂.plans
  · rw [← hqueue]
    exact hg
  · refine hrows.imp fun i i' hi => ?_
    unfold Moved
    by_cases hser : i.seriesId = plan.seriesId
    · rw [if_pos hser, hfollow] at hi
      rw [if_pos hser]
      exact hi.imp id fun hi => hi.2.of_releases (by rw [mapIntents, mapIntents, hs])
    · rw [if_neg hser] at hi
      rw [if_neg hser]
      rcases hi with hi | ⟨hm, -⟩
      · exact hi
      · exact absurd (mem_intentsOf.mp hm).2 hser
  · rw [← hplans]
    rfl

theorem advance_ok (c : Catalog) (now : Time) (window : Nat) (plan : SeriesDownloadPlan) :
    ∃ c', c.advance now window plan = .ok c' := by
  obtain ⟨c₂, hr⟩ := enqueueReady_ok
    (((c.syncChapters now plan).mapIntents plan.seriesId
      ((c.syncChapters now plan).followJob now)).mapIntents plan.seriesId
        (unblock plan ((c.syncChapters now plan).phaseAfter now plan))) now window plan.seriesId
  exact ⟨_, map_eq_ok.mpr ⟨c₂, hr, rfl⟩⟩

end

end Catalog

end MangaManager
