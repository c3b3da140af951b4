import MangaManager.Catalog.Tracking

/-!
# Tracking a series again

`untrack` writes `cancelled` into the open intents and cancels their jobs, and
`track` keeps the rows: an intent without a job stays `cancelled`, and one whose job
was cancelled ends in `attention`, both of which count as done.

`resumed_iff`: after `untrack`, any calls, and `track`, the chapters that can be
downloaded are under way again exactly when each intent of theirs has a job that
is active or failed.
-/

namespace MangaManager

open Lib

namespace Catalog

/-- The job of the intent failed. -/
def ownJobFailed (c : Catalog) (i : IntentRow) : Bool :=
  i.jobId.any fun id => (c.queue.job? id).any (·.status == .failed)

/-- The job of the intent is active, or failed. -/
def ownJobCounts (c : Catalog) (i : IntentRow) : Bool :=
  i.jobId.any fun id => (c.queue.job? id).any fun j => j.status.isActive || j.status == .failed

/-- The chapter has no active artifact, and a release to download. -/
def Needs (c : Catalog) (now : Time) (chapterId : Nat) : Prop :=
  c.hasActiveArtifact chapterId = false ∧ (c.bestRelease now chapterId).isSome = true

/-- The intents of a chapter of a series. -/
def chapterIntents (c : Catalog) (seriesId chapterId : Nat) : List IntentRow :=
  (c.intentsOf seriesId).filter (·.chapterId == chapterId)

/-- Every chapter of the series that can be downloaded has an open intent, or one whose own job
failed; a complete plan has let go of the failed ones only. -/
structure Resumed (c : Catalog) (now : Time) (seriesId : Nat) : Prop where
  exists_intent : ∀ chapter ∈ c.chaptersOf seriesId, c.Needs now chapter.id →
    c.chapterIntents seriesId chapter.id ≠ []
  intents : ∀ chapter ∈ c.chaptersOf seriesId, c.Needs now chapter.id →
    ∀ i ∈ c.chapterIntents seriesId chapter.id,
      (i.state = .pending ∨ i.state = .queued ∨ i.state = .blocked) ∨
        (i.state = .attention ∧ c.ownJobFailed i = true)
  plan : ∀ plan, c.plan? seriesId = some plan → plan.status = .complete →
    ∀ chapter ∈ c.chaptersOf seriesId, c.Needs now chapter.id →
      ∀ i ∈ c.chapterIntents seriesId chapter.id, c.ownJobFailed i = true

/-- Every intent of a chapter that can be downloaded has a job that is active or failed. -/
def Resumable (c : Catalog) (now : Time) (seriesId : Nat) : Prop :=
  ∀ chapter ∈ c.chaptersOf seriesId, c.Needs now chapter.id →
    ∀ i ∈ c.chapterIntents seriesId chapter.id, c.ownJobCounts i = true

instance (c : Catalog) (now : Time) (chapterId : Nat) : Decidable (c.Needs now chapterId) :=
  inferInstanceAs (Decidable (_ ∧ _))

instance (c : Catalog) (now : Time) (seriesId : Nat) : Decidable (c.Resumable now seriesId) :=
  inferInstanceAs (Decidable (∀ chapter ∈ c.chaptersOf seriesId, c.Needs now chapter.id →
    ∀ i ∈ c.chapterIntents seriesId chapter.id, c.ownJobCounts i = true))

/-- A call on the catalog between the two. -/
def CatalogStep (c : Catalog) (l : ChapterCall × Time) (c' : Catalog) : Prop :=
  c' = l.1.applyCatalog c l.2

/-- The tables while a series is not tracked. -/
structure Untracked (seriesId : Nat) (c : Catalog) : Prop where
  ok : c.PlansOk
  plan : ∀ plan, c.plan? seriesId = some plan → plan.status = .cancelled
  open_ : ∀ i ∈ c.intents, i.seriesId = seriesId → i.state.isFinished = false →
    ∃ id, i.jobId = some id ∧ (c.queue.job? id).isSome = true

section
variable {c c' mid : Catalog} {now t₀ : Time} {plan : SeriesDownloadPlan} {phase : PlanPhase}
  {window seriesId : Nat} {i i' : IntentRow}

theorem mem_chapterIntents {chapterId : Nat} : i ∈ c.chapterIntents seriesId chapterId ↔
    i ∈ c.intents ∧ i.seriesId = seriesId ∧ i.chapterId = chapterId := by
  simp [chapterIntents, mem_intentsOf, and_assoc]

/-! ## While the series is not tracked -/

theorem Dropped.untracked (h : Dropped now seriesId c c') : Untracked seriesId c' := by
  refine ⟨h.ok, h.row, fun i hi hs ho => ?_⟩
  rw [h.finished hi hs] at ho
  cases ho

/-- Nothing the series owns was written, but intents put back to an active job. -/
theorem Untracked.of_rows (h : Untracked seriesId c)
    (hok : c'.PlansOk) (hp : c'.plan? seriesId = c.plan? seriesId)
    (hq : c.queue.KeepsRows c'.queue)
    (hrows : ∀ i' ∈ c'.intents, i'.seriesId = seriesId → i' ∈ c.intents ∨
      ∃ id, i'.jobId = some id ∧ c'.queue.IsActive id) : Untracked seriesId c' := by
  refine ⟨hok, fun plan hplan => h.plan plan (hp ▸ hplan), fun i hi hs ho => ?_⟩
  rcases hrows i hi hs with hi | ⟨id, hj, ha⟩
  · obtain ⟨id, hj, hrow⟩ := h.open_ i hi hs ho
    exact ⟨id, hj, hq id hrow⟩
  · exact ⟨id, hj, ha.isSome⟩

theorem Untracked.requeued {P : Nat → Prop} (h : Untracked seriesId c) (hr : Requeued P now c c') :
    Untracked seriesId c' := by
  refine h.of_rows hr.ok ?_ hr.queue.rows fun i' hi' _ => ?_
  · rw [plan?, plan?, hr.plans]
  · obtain ⟨i, hi, he⟩ := Table.forall₂_right hr.rows hi'
    rcases he with rfl | ⟨-, id, rfl, ha⟩
    · exact .inl hi
    · exact .inr ⟨id, rfl, ha⟩

/-- The plan of another series moves on. -/
theorem Untracked.advanced (h : Untracked seriesId c) (hne : plan.seriesId ≠ seriesId)
    (ha : Advanced now plan c c') : Untracked seriesId c' := by
  refine h.of_rows ha.ok ?_ ha.grows.keepsRows fun i' hi' hs => ?_
  · rw [plan?, ha.plans]
    exact Table.get_put_of_ne (Ne.symm hne)
  · obtain ⟨i, hi, hm⟩ := Table.forall₂_right ha.rows hi'
    unfold Moved at hm
    split at hm
    · rename_i hser
      have hid : i'.seriesId = i.seriesId := by
        rcases hm with rfl | hm
        · simp [followed]
        · rw [hm.id_eq.2.1]
          simp [followed]
      exact absurd (hser.symm.trans (hid.symm.trans hs)) hne
    · subst hm
      rcases syncChapters_synced.fresh i' hi with hi | hf
      · exact .inl hi
      · exact absurd (hf.series.symm.trans hs) hne

theorem Untracked.step (h : Untracked seriesId c) (l : ChapterCall) (t : Time) :
    Untracked seriesId (l.applyCatalog c t) := by
  have hsame : ∀ c' : Catalog, c'.queue = c.queue → c'.intents = c.intents →
      c'.nextIntent = c.nextIntent → c'.plans = c.plans → Untracked seriesId c' := by
    intro c' hq hi hn hp
    refine ⟨⟨hq ▸ h.ok.queue, hi ▸ h.ok.intents, hi ▸ hn ▸ h.ok.below, hp ▸ h.ok.plans⟩, ?_, ?_⟩
    · rw [plan?, hp]
      exact h.plan
    · rw [hi, hq]
      exact h.open_
  cases l with
  | call op =>
    obtain ⟨hq, hk⟩ := Op.apply_rowsOk op t h.ok.queue
    exact h.of_rows ⟨hq, h.ok.intents, h.ok.below, h.ok.plans⟩ rfl hk
      fun i' hi' _ => .inl hi'
  | discover chapters releases => exact hsame _ rfl rfl rfl rfl
  | start jobId => exact h
  | complete d blob projection =>
    obtain ⟨hq, hi, hn, hp⟩ := complete_rest c d blob projection t
    exact hsame _ hq hi hn hp
  | reconcile window other =>
    simp only [ChapterCall.applyCatalog]
    cases hr : c.reconcile t window other with
    | error e => exact h
    | ok c' =>
      unfold reconcile at hr
      split at hr
      · cases hr
        exact h
      · rename_i plan hp
        split at hr
        · cases hr
          exact h
        · rename_i hactive
          refine h.advanced (fun hs => hactive ?_) (advance_spec h.ok hr)
          rw [← Table.get_key hp, hs] at hp
          rw [h.plan plan hp]
          decide
  | upgrade seriesIds =>
    simp only [ChapterCall.applyCatalog]
    cases hr : c.enqueuePreferredUpgrades t seriesIds with
    | error e => exact h
    | ok r =>
      obtain ⟨q, he, hg, hok⟩ := enqueuePreferredUpgrades_spec h.ok hr
      rw [ChapterCall.kept, he]
      exact h.of_rows ⟨hok, h.ok.intents, h.ok.below, h.ok.plans⟩ rfl hg.keepsRows
        fun i' hi' _ => .inl hi'
  | bypass source retryAfter =>
    simp only [ChapterCall.applyCatalog]
    cases hr : c.bypassCoolingSource t source retryAfter with
    | error e => exact h
    | ok r => exact h.requeued (bypassCoolingSource_requeued h.ok hr)
  | reroute jobId snapshot code message retryAt =>
    simp only [ChapterCall.applyCatalog]
    cases hr : c.downloads.handlerReroute jobId snapshot code message retryAt t with
    | error e => exact h
    | ok r => exact h.requeued (handlerReroute_requeued h.ok hr)

theorem Untracked.run {tr : List (Catalog × (ChapterCall × Time))} (hc : c.PlansOk)
    (h : Run CatalogStep (c.untrack t₀ seriesId) tr mid) : Untracked seriesId mid := by
  refine h.always (untrack_spec hc).untracked ?_
  rintro c l _ hc rfl
  exact hc.step l.1 l.2

/-! ## What becomes of an intent -/

/-- A chapter that can be downloaded can still be once other tables changed. -/
theorem needs_congr (hl : SameLibrary c c') (hr : c'.releases = c.releases) (chapterId : Nat) :
    c'.Needs now chapterId ↔ c.Needs now chapterId := by
  rw [Needs, Needs, hl.hasActiveArtifact, bestRelease_congr hr]

theorem chaptersOf_congr (hl : SameLibrary c c') : c'.chaptersOf seriesId = c.chaptersOf seriesId := by
  rw [chaptersOf, hl.chapters, chaptersOf]

/-- Of the intents of the plan, only the blocked and the pending ones move after their job. -/
theorem Moved.settled {q : Queue} (h : c.Moved now plan phase q i i')
    (hs : i.seriesId = plan.seriesId) (hb : (c.followJob now i).state ≠ .blocked)
    (hp : (c.followJob now i).state ≠ .pending) : i' = c.followJob now i := by
  rw [Moved, if_pos hs, followed, unblock_of_ne hb] at h
  rcases h with h | h
  · exact h
  · cases h with
    | starved hs _ => exact absurd hs hp
    | queued hs _ _ => exact absurd hs hp

/-- An intent that waits for a download is still open afterwards. -/
theorem Moved.isOpen {q : Queue} (h : c.Moved now plan phase q i i')
    (hs : i.seriesId = plan.seriesId) (hb : (c.bestRelease now i.chapterId).isSome = true)
    (hw : (c.followJob now i).state = .blocked ∨ (c.followJob now i).state = .pending) :
    i'.state.isFinished = false := by
  have hf : (c.followed now plan phase i).state = .blocked ∨
      (c.followed now plan phase i).state = .pending := by
    unfold followed
    rcases hw with hw | hw
    · exact unblock_state hw
    · rw [unblock_of_ne (by rw [hw]; decide)]
      exact .inr hw
  rw [Moved, if_pos hs] at h
  rcases h with rfl | h
  · rcases hf with hf | hf <;> rw [hf] <;> rfl
  · cases h with
    | starved _ hn =>
      have hch : (c.followed now plan phase i).chapterId = i.chapterId := by simp [followed]
      rw [hch] at hn
      rw [hn] at hb
      cases hb
    | queued => rfl

theorem Moved.place {q : Queue} (h : c.Moved now plan phase q i i') :
    i'.id = i.id ∧ i'.seriesId = i.seriesId ∧ i'.chapterId = i.chapterId := by
  unfold Moved at h
  split at h
  · rcases h with rfl | h
    · simp [followed]
    · obtain ⟨h₁, h₂, h₃, -⟩ := h.id_eq
      exact ⟨h₁.trans (by simp [followed]), h₂.trans (by simp [followed]),
        h₃.trans (by simp [followed])⟩
  · rw [h]
    exact ⟨rfl, rfl, rfl⟩

/-- The intent of a chapter that had none waits for a download. -/
theorem Fresh.waits (h : c.Fresh plan i) (ha : c.hasActiveArtifact i.chapterId = false) :
    i.state = .blocked ∨ i.state = .pending := by
  obtain ⟨chapter, -, -, hch, -, hs⟩ := h.place
  rw [hs, ← hch, ha, if_neg (by decide)]
  unfold newIntentState
  split
  · exact .inr rfl
  · split
    · exact .inr rfl
    · split
      · exact .inr rfl
      · exact .inl rfl

/-! ## The intents after `track` -/

theorem ownJobFailed_eq {id : Nat} {job : WorkJob} (hj : i.jobId = some id)
    (hq : c.queue.job? id = some job) : c.ownJobFailed i = (job.status == .failed) := by
  simp [ownJobFailed, hj, hq]

/-- An intent whose job is active or failed is taken up again. -/
theorem Moved.resumed (hm : c.Moved now plan phase c'.queue i i') (hs : i.seriesId = plan.seriesId)
    (hn : c.hasActiveArtifact i.chapterId = false) (hg : c.queue.Grows c'.queue)
    (hc : c.ownJobCounts i = true) :
    i'.state = .queued ∨ (i'.state = .attention ∧ c'.ownJobFailed i' = true) := by
  simp only [ownJobCounts, Option.any_eq_true, Bool.or_eq_true, beq_iff_eq] at hc
  obtain ⟨id, hj, job, hq, ha⟩ := hc
  obtain ⟨hjob, hactive, -, hended⟩ := followJob_job now hn hj hq
  rcases ha with ha | hf
  · have hst := hactive ha
    rw [hm.settled hs (by rw [hst]; decide) (by rw [hst]; decide)]
    exact .inl hst
  · have hst := hended (.inl hf)
    rw [hm.settled hs (by rw [hst]; decide) (by rw [hst]; decide)]
    have hq' := hg.ended id job hq (by rw [hf]; rfl)
    exact .inr ⟨hst, by rw [ownJobFailed_eq hjob hq', hf]; rfl⟩

/-- Any other intent, unless it is open without its job's row, is not. -/
theorem Moved.not_resumed (hm : c.Moved now plan phase c'.queue i i')
    (hs : i.seriesId = plan.seriesId) (hn : c.hasActiveArtifact i.chapterId = false)
    (hg : c.queue.Grows c'.queue) (hc : c.ownJobCounts i = false)
    (ho : i.state.isFinished = false → ∃ id, i.jobId = some id ∧ (c.queue.job? id).isSome = true) :
    i'.state.isFinished = true ∧ c'.ownJobFailed i' = false := by
  -- the state follows a job that ended otherwise, or stays for lack of one
  have hkey : (c.followJob now i).state.isFinished = true ∧
      c'.ownJobFailed (c.followJob now i) = false := by
    cases hj : i.jobId with
    | none =>
      rw [followJob_idle hn hj]
      refine ⟨?_, by simp [ownJobFailed, hj]⟩
      by_contra hf
      obtain ⟨id, hid, -⟩ := ho (by simpa using hf)
      rw [hj] at hid
      cases hid
    | some id =>
      cases hq : c.queue.job? id with
      | none =>
        have hfin : i.state.isFinished = true := by
          by_contra hf
          obtain ⟨id', hid, hrow⟩ := ho (by simpa using hf)
          cases hj.symm.trans hid
          rw [hq] at hrow
          cases hrow
        obtain ⟨hjob, hst, -⟩ := followJob_lost now hn hj hq
        rw [hst (fun h => by rw [h] at hfin; cases hfin)]
        exact ⟨hfin, by simp [ownJobFailed, hjob]⟩
      | some job =>
        simp only [ownJobCounts, hj, hq, Option.any_some, Bool.or_eq_false_iff, beq_eq_false_iff_ne]
          at hc
        obtain ⟨hjob, -, hsucc, hended⟩ := followJob_job now hn hj hq
        have hq' := hg.ended id job hq hc.1
        refine ⟨?_, by rw [ownJobFailed_eq hjob hq']; simpa using hc.2⟩
        cases hst : job.status with
        | succeeded => rw [hsucc hst]; rfl
        | cancelled => rw [hended (.inr hst)]; rfl
        | failed => exact absurd hst hc.2
        | queued => rw [hst] at hc; cases hc.1
        | leased => rw [hst] at hc; cases hc.1
        | retryWait => rw [hst] at hc; cases hc.1
  have hne : ∀ s, s.isFinished = false → (c.followJob now i).state ≠ s := by
    rintro s hsf rfl
    rw [hkey.1] at hsf
    cases hsf
  rw [hm.settled hs (hne _ rfl) (hne _ rfl)]
  exact hkey

/-- A complete plan has finished intents only. -/
theorem Advanced.complete (h : Advanced now plan c c') (hrow : c.plan? plan.seriesId = some plan)
    (hactive : plan.status = .active) {p : SeriesDownloadPlan}
    (hp : c'.plan? plan.seriesId = some p) (hc : p.status = .complete) :
    ∀ i ∈ c'.intentsOf plan.seriesId, i.state.isFinished = true := by
  have hself : c'.plan? plan.seriesId = some
      (c'.tally now plan ((c.syncChapters now plan).phaseAfter now plan)) := by
    rw [plan?, h.plans]
    exact @Table.get_put_self _ SeriesDownloadPlan.seriesId c.plans
      (c'.tally now plan ((c.syncChapters now plan).phaseAfter now plan)) _ (Table.get_mem hrow) rfl
  cases hp.symm.trans hself
  unfold tally at hc
  dsimp only at hc
  split at hc
  · rename_i hdone
    exact List.all_eq_true.mp hdone.2
  · rw [hactive] at hc
    cases hc

theorem Fresh.of_library (hl : SameLibrary c c') (h : c'.Fresh plan i) : c.Fresh plan i := by
  obtain ⟨chapter, hm, hs, hch, htier, hst⟩ := h.place
  have hnew : c'.newIntentState plan chapter = c.newIntentState plan chapter := by
    rw [newIntentState, priorityIds, chaptersOf_congr hl, newIntentState, priorityIds]
  rw [hnew] at htier hst
  rw [hl.hasActiveArtifact] at hst
  exact ⟨h.series, h.job, chapter, hl.chapters ▸ hm, hs, hch, htier, hst⟩

/-- Where the intents of a chapter come from when its series is tracked again. -/
theorem Advanced.origin {c₁ : Catalog} {chapterId : Nat} (hprep : Prepared plan c c₁)
    (hadv : Advanced now plan c₁ c') (hi' : i' ∈ c'.chapterIntents plan.seriesId chapterId) :
    ∃ i, c₁.Moved now plan ((c₁.syncChapters now plan).phaseAfter now plan) c'.queue i i' ∧
      i.seriesId = plan.seriesId ∧ i.chapterId = chapterId ∧ (i ∈ c.intents ∨ c.Fresh plan i) := by
  obtain ⟨hi', hs, hch⟩ := mem_chapterIntents.mp hi'
  obtain ⟨i, hi, hm⟩ := Table.forall₂_right hadv.rows hi'
  obtain ⟨-, hser, hchap⟩ := hm.place
  refine ⟨i, hm, hser.symm.trans hs, hchap.symm.trans hch, ?_⟩
  rcases syncChapters_synced.fresh i hi with hi | hf
  · exact hprep.fresh i hi
  · exact .inr (hf.of_library hprep.library)

theorem Advanced.target {c₁ : Catalog} {chapterId : Nat} (hadv : Advanced now plan c₁ c')
    (hi : i ∈ (c₁.syncChapters now plan).intents) (hs : i.seriesId = plan.seriesId)
    (hch : i.chapterId = chapterId) :
    ∃ i' ∈ c'.chapterIntents plan.seriesId chapterId,
      c₁.Moved now plan ((c₁.syncChapters now plan).phaseAfter now plan) c'.queue i i' := by
  obtain ⟨i', hi', hm⟩ := Table.forall₂_left hadv.rows hi
  obtain ⟨-, hser, hchap⟩ := hm.place
  exact ⟨i', mem_chapterIntents.mpr ⟨hi', hser.trans hs, hchap.trans hch⟩, hm⟩

/-- What `track` makes of a series that is not tracked. -/
theorem Untracked.track (h : Untracked seriesId mid)
    (ht : mid.track now window seriesId = .ok c') :
    c'.Resumed now seriesId ↔ mid.Resumable now seriesId := by
  obtain ⟨plan, c₁, rfl, hactive, -, -, hprep, hvisit⟩ := track_spec h.ok ht
  have hadv := advance_spec hprep.ok hvisit
  have hlib := hprep.library.trans hadv.library
  have hrel : c'.releases = mid.releases := hadv.releases.trans hprep.releases
  have hchapters : c'.chaptersOf plan.seriesId = mid.chaptersOf plan.seriesId := chaptersOf_congr hlib
  have hneeds : ∀ id, c'.Needs now id ↔ mid.Needs now id := needs_congr hlib hrel
  have hneeds₁ : ∀ id, c₁.Needs now id ↔ mid.Needs now id :=
    needs_congr hprep.library hprep.releases
  have hcounts : ∀ chapter ∈ mid.chaptersOf plan.seriesId, ∀ i,
      c₁.ownJobCounts i = mid.ownJobCounts i := by
    intro chapter hch i
    obtain ⟨hm, hs⟩ := mem_chaptersOf.mp hch
    rw [ownJobCounts, hprep.queue ⟨chapter, hm, hs⟩, ownJobCounts]
  constructor
  · intro hres chapter hch hn i hi
    obtain ⟨hm, hs, hid⟩ := mem_chapterIntents.mp hi
    obtain ⟨i', hi', hmoved⟩ := hadv.target (syncChapters_synced.kept i (hprep.kept i hm)) hs hid
    by_contra hcount
    rw [Bool.not_eq_true, ← hcounts chapter hch] at hcount
    have hn₁ := ((hneeds₁ chapter.id).mpr hn).1
    rw [← hid] at hn₁
    obtain ⟨hfin, hfail⟩ := hmoved.not_resumed hs hn₁ hadv.grows hcount fun ho => by
      rw [hprep.queue ⟨chapter, mem_chaptersOf.mp hch⟩]
      exact h.open_ i hm hs ho
    rcases hres.intents chapter (hchapters ▸ hch) ((hneeds _).mpr hn) i' hi' with ho | ⟨-, hf⟩
    · rw [IntentState.isFinished_eq_false.mpr ho] at hfin
      cases hfin
    · rw [hf] at hfail
      cases hfail
  · intro hres
    have hintents : ∀ chapter ∈ c'.chaptersOf plan.seriesId, c'.Needs now chapter.id →
        ∀ i ∈ c'.chapterIntents plan.seriesId chapter.id,
          (i.state = .pending ∨ i.state = .queued ∨ i.state = .blocked) ∨
            (i.state = .attention ∧ c'.ownJobFailed i = true) := by
      intro chapter hch hn i' hi'
      rw [hchapters] at hch
      rw [hneeds] at hn
      obtain ⟨hart, hrelease⟩ := (hneeds₁ chapter.id).mpr hn
      obtain ⟨i, hmoved, hs, hid, hfrom⟩ := hadv.origin hprep hi'
      rw [← hid] at hart hrelease
      rcases hfrom with hm | hf
      · have hcount := hres chapter hch hn i (mem_chapterIntents.mpr ⟨hm, hs, hid⟩)
        rw [← hcounts chapter hch] at hcount
        rcases hmoved.resumed hs hart hadv.grows hcount with hq | ha
        · exact .inl (.inr (.inl hq))
        · exact .inr ha
      · refine .inl (IntentState.isFinished_eq_false.mp (hmoved.isOpen hs hrelease ?_))
        rw [followJob_idle hart hf.job]
        rw [hprep.library.hasActiveArtifact] at hart
        exact hf.waits hart
    refine ⟨fun chapter hch hn => ?_, hintents, fun p hp hcomp chapter hch hn i hi => ?_⟩
    · obtain ⟨hm, hs⟩ := mem_chaptersOf.mp (hchapters ▸ hch)
      obtain ⟨i, hi, hser, hid⟩ := syncChapters_covers now
        (hprep.library.chapters ▸ hm : chapter ∈ c₁.chapters) hs
      obtain ⟨i', hi', -⟩ := hadv.target hi hser hid
      exact List.ne_nil_of_mem hi'
    · have hfin := hadv.complete hprep.row hactive hp hcomp i (List.mem_filter.mp hi).1
      rcases hintents chapter hch hn i hi with ho | ⟨-, hf⟩
      · rw [IntentState.isFinished_eq_false.mpr ho] at hfin
        cases hfin
      · exact hf

/-- After `untrack` and any calls, `track` succeeds on a series with chapters, and takes up what
can be downloaded exactly when each intent of it has a job that is active or failed. -/
theorem resumed_iff (now : Time) (window : Nat) {tr : List (Catalog × (ChapterCall × Time))}
    (hc : c.PlansOk)
    (h : Run CatalogStep (c.untrack t₀ seriesId) tr mid) :
    (∀ c', mid.track now window seriesId = .ok c' →
      (c'.Resumed now seriesId ↔ mid.Resumable now seriesId)) ∧
    ((∃ chapter ∈ mid.chapters, chapter.seriesId = seriesId) →
      ∃ c', mid.track now window seriesId = .ok c') :=
  ⟨fun _ ht => (Untracked.run hc h).track ht, track_ok (Untracked.run hc h).ok⟩

/-- A series with one chapter, tracked. -/
def trackedOnce : Catalog :=
  let chapter : CatalogChapter := { id := 7, seriesId := 1, canonicalNumber := "1", createdAt := 0 }
  ChapterCall.kept {} id (track { chapters := [chapter], releases := [releaseOf 1 "asura" Nat.one_pos] } 0 20 1)

/-- The same after a worker claimed the download. -/
def leasedOnce : Catalog := (claimCall "w").1.applyCatalog trackedOnce 0

theorem trackedOnce_ok : trackedOnce.PlansOk ∧ leasedOnce.PlansOk := by
  refine ⟨⟨⟨?_, ?_⟩, ?_, ?_, ?_⟩, ⟨⟨?_, ?_⟩, ?_, ?_, ?_⟩⟩ <;> decide +kernel

/-- The job of the chapter waits when the series is untracked: tracked again, the plan is complete
and the chapter is left for its cancelled job. -/
theorem retracked_abandoned : ∃ c', trackedOnce.PlansOk ∧
    (trackedOnce.untrack 1 1).track 2 20 1 = .ok c' ∧ ¬ c'.Resumed 2 1 := by
  refine ⟨ChapterCall.kept {} id ((trackedOnce.untrack 1 1).track 2 20 1), trackedOnce_ok.1,
    by decide +kernel, fun h => ?_⟩
  have hi := h.intents
  revert hi
  decide +kernel

/-- A worker has the job: it is taken up again. -/
theorem retracked_leased : ∃ c', (leasedOnce.untrack 1 1).track 2 20 1 = .ok c' ∧
    c'.Resumed 2 1 := by
  obtain ⟨hiff, hok⟩ := resumed_iff 2 20
    trackedOnce_ok.2 (.nil : Run CatalogStep (leasedOnce.untrack 1 1) [] _)
  obtain ⟨c', hc'⟩ := hok (by decide +kernel)
  exact ⟨c', hc', (hiff c' hc').mpr (by decide +kernel)⟩

end

end Catalog

end MangaManager
