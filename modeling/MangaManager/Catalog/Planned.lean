import MangaManager.Catalog.Window
import MangaManager.Series.Tables

/-!
# New chapters of a tracked series

`SourceRefreshHandler` reconciles the plan of a tracked series after each `ingest`, and a
portable import tracks the series again. A plan that is complete is not reconciled, and an
intent that ended without a job, or whose job left no artifact, is not taken up again.

`chapters_planned`: in every run from a catalog in which nothing was tracked, a call that
plans a series leaves no chapter behind that could be downloaded, when it finds the plan
active and no such intent, or nothing new.
-/

namespace MangaManager

open Lib

namespace Catalog

/-- `rolling_window`, unless it is configured. -/
def rollingWindow : Nat := 20

/-- What `SourceRefreshHandler` does after `ingest` with the canonical series. -/
def refreshTracked (c : Catalog) (now : Time) (status : SeriesStatus) (seriesId : Nat) :
    Except QueueError Catalog :=
  if status.isTracked then
    match c.reconcile now rollingWindow seriesId with
    | .error e => .error e
    | .ok c => (c.enqueuePreferredUpgrades now [seriesId]).map Prod.fst
  else .ok c

/-- The job of the intent failed, or was cancelled. -/
def ownJobEnded (c : Catalog) (i : IntentRow) : Bool :=
  i.jobId.any fun id => (c.queue.job? id).any fun j => j.status == .failed || j.status == .cancelled

/-- The intent is where its plan leaves what is still to do. -/
def Waits (c : Catalog) (window : Nat) (i : IntentRow) : Prop :=
  i.state = .queued ∨
    (i.state = .pending ∧ i.tier = .backfill ∧ window ≤ c.backfillQueued i.seriesId) ∨
    (i.state = .blocked ∧ ∃ plan ∈ c.plan? i.seriesId, plan.phase = .priority)

/-- Every chapter of the series that can be downloaded has an intent that waits, unless its own job
failed or was cancelled. -/
def AllPlanned (c : Catalog) (now : Time) (window seriesId : Nat) : Prop :=
  ∀ chapter ∈ c.chaptersOf seriesId, c.Needs now chapter.id →
    ∃ i ∈ c.chapterIntents seriesId chapter.id, c.Waits window i ∨ c.ownJobEnded i = true

/-- The intent is done without a job, or its job succeeded. -/
def letGo (c : Catalog) (i : IntentRow) : Bool :=
  match i.jobId.bind c.queue.job? with
  | none => i.state.isFinished
  | some job => job.status == .succeeded

/-- No chapter of the series that can be downloaded was let go. -/
def NoneLetGo (c : Catalog) (now : Time) (seriesId : Nat) : Prop :=
  ∀ chapter ∈ c.chaptersOf seriesId, c.Needs now chapter.id →
    ∀ i ∈ c.chapterIntents seriesId chapter.id, c.letGo i = false

/-- Every chapter of the series that can be downloaded has an intent with a job under way, or one
that failed or was cancelled. -/
def NothingNew (c : Catalog) (now : Time) (seriesId : Nat) : Prop :=
  ∀ chapter ∈ c.chaptersOf seriesId, c.Needs now chapter.id →
    ∃ i ∈ c.chapterIntents seriesId chapter.id, i.state = .queued ∨ c.ownJobEnded i = true

instance (c : Catalog) (now : Time) (seriesId : Nat) : Decidable (c.NoneLetGo now seriesId) :=
  inferInstanceAs (Decidable (∀ chapter ∈ c.chaptersOf seriesId, c.Needs now chapter.id →
    ∀ i ∈ c.chapterIntents seriesId chapter.id, c.letGo i = false))

end Catalog

/-- A call while series are tracked; the series of the second has the status. -/
inductive PlanningCall where
  | chapter (call : ChapterCall)
  | refresh (status : SeriesStatus) (seriesId : Nat)
  | track (window seriesId : Nat)

namespace PlanningCall

def apply (l : PlanningCall) (c : Catalog) (now : Time) : Catalog :=
  match l with
  | chapter call => call.applyCatalog c now
  | refresh status seriesId => ChapterCall.kept c id (c.refreshTracked now status seriesId)
  | track window seriesId => ChapterCall.kept c id (c.track now window seriesId)

/-- The window, when the call plans a series that is tracked. -/
def window? (l : PlanningCall) (seriesId : Nat) : Option Nat :=
  match l with
  | chapter (.reconcile window id) => if id = seriesId then some window else none
  | chapter _ => none
  | refresh status id =>
    if status.isTracked ∧ id = seriesId then some Catalog.rollingWindow else none
  | track window id => if id = seriesId then some window else none

/-- The call finds the plan of the series active, or makes it so. -/
def Reaches (l : PlanningCall) (c : Catalog) (seriesId : Nat) : Prop :=
  match l with
  | track _ _ => True
  | _ => ∃ plan ∈ c.plan? seriesId, plan.status = .active

/-- An active plan has let no chapter go, and one that is not active has none to take up. -/
def Ready (l : PlanningCall) (c : Catalog) (now : Time) (seriesId : Nat) : Prop :=
  (l.Reaches c seriesId → c.NoneLetGo now seriesId) ∧
    (¬ l.Reaches c seriesId → c.NothingNew now seriesId)

end PlanningCall

/-- A call at some time. -/
def PlanningStep (c : Catalog) (l : PlanningCall × Time) (c' : Catalog) : Prop :=
  c' = l.1.apply c l.2

namespace Catalog

/-- Nothing was tracked yet. -/
structure NothingTracked (c : Catalog) : Prop where
  ok : c.PlansOk
  intents : c.intents = []
  plans : c.plans = []

/-- What the calls keep of the intents. -/
structure Watched (c : Catalog) : Prop where
  ok : c.PlansOk
  phases : ∀ plan ∈ c.plans, plan.status = .active →
    plan.phase = .priority ∨ plan.phase = .backfill
  tiers : ∀ i ∈ c.intents, i.state = .blocked → i.tier = .backfill
  blocked : ∀ i ∈ c.intents, i.state = .blocked →
    ∃ plan, c.plan? i.seriesId = some plan ∧ plan.status = .active ∧ plan.phase = .priority
  queued : ∀ i ∈ c.intents, i.state = .queued → i.jobId.isSome = true
  named : ∀ i ∈ c.intents, ∀ id, i.jobId = some id → (c.queue.job? id).isSome = true

section
variable {c c' c₁ : Catalog} {now : Time} {plan : SeriesDownloadPlan} {phase : PlanPhase}
  {window seriesId : Nat} {i i' : IntentRow}

/-! ## The intents between the calls -/

theorem NothingTracked.watched (h : c.NothingTracked) : c.Watched := by
  refine ⟨h.ok, ?_, ?_, ?_, ?_, ?_⟩
  · simp [h.plans]
  all_goals simp [h.intents]

theorem Watched.holdsOpen (hc : c.Watched) (hrow : c.plan? plan.seriesId = some plan)
    (hactive : plan.status = .active) : c.HoldsOpen plan := by
  refine ⟨hactive, hc.phases plan (Table.get_mem hrow) hactive, hc.tiers, fun i hi hs _ => ?_⟩
  refine ⟨hactive, fun _ hb => ?_, fun _ hq => ?_⟩
  · obtain ⟨p, hp, -, hphase⟩ := hc.blocked i hi hb
    rw [hs, hrow] at hp
    cases hp
    exact hphase
  · obtain ⟨id, hid⟩ := Option.isSome_iff_exists.mp (hc.queued i hi hq)
    exact ⟨id, hid, .inl (hc.named i hi id hid)⟩

/-- Plans and intents are the same, and no job row is gone. -/
theorem Watched.of_tables (hc : c.Watched) (hq : c'.queue.RowsOk)
    (hrows : c.queue.KeepsRows c'.queue) (hi : c'.intents = c.intents)
    (hn : c'.nextIntent = c.nextIntent) (hp : c'.plans = c.plans) : c'.Watched := by
  refine ⟨⟨hq, hi ▸ hc.ok.intents, hi ▸ hn ▸ hc.ok.below, hp ▸ hc.ok.plans⟩, hp ▸ hc.phases,
    hi ▸ hc.tiers, ?_, hi ▸ hc.queued, fun i hm id hid => hrows id (hc.named i (hi ▸ hm) id hid)⟩
  intro i hm hb
  rw [plan?, hp]
  exact hc.blocked i (hi ▸ hm) hb

/-- A job that went to another provider. -/
theorem Watched.requeued {P : Nat → Prop} (hc : c.Watched) (h : Requeued P now c c') :
    c'.Watched := by
  refine ⟨h.ok, h.plans ▸ hc.phases, fun i' hi' hb => ?_, fun i' hi' hb => ?_, fun i' hi' hq => ?_,
    fun i' hi' id hid => ?_⟩
  all_goals obtain ⟨i, hi, rfl | ⟨-, jobId, rfl, ha⟩⟩ := Table.forall₂_right h.rows hi'
  · exact hc.tiers i' hi hb
  · cases hb
  · rw [plan?, h.plans]
    exact hc.blocked i' hi hb
  · cases hb
  · exact hc.queued i' hi hq
  · rfl
  · exact h.queue.rows id (hc.named i' hi id hid)
  · cases hid
    exact ha.isSome

/-- The jobs of the intents after a visit. -/
theorem Moved.jobId (h : c.Moved now plan phase c'.queue i i') :
    i'.jobId = i.jobId ∨ i'.jobId = none ∨ ∃ id, i'.jobId = some id ∧ c'.queue.IsActive id := by
  unfold Moved at h
  split at h
  · rcases h with rfl | h
    · exact (c.followed_jobId now plan phase i).imp_right .inl
    · cases h with
      | starved => exact (c.followed_jobId now plan phase i).imp_right .inl
      | queued _ _ ha => exact .inr (.inr ⟨_, rfl, ha⟩)
  · rw [h]
    exact .inl rfl

theorem Watched.advanced (hc : c.Watched) (hrow : c.plan? plan.seriesId = some plan)
    (hactive : plan.status = .active) (h : Advanced now plan c c') : c'.Watched := by
  have hholds := hc.holdsOpen hrow hactive
  refine ⟨h.ok, h.phases hc.phases hholds.phase, fun i' hi' hb => ?_, fun i' hi' hb => ?_,
    fun i' hi' hq => ?_, fun i' hi' id hid => ?_⟩
  · by_cases hs : i'.seriesId = plan.seriesId
    · exact (h.place hholds hrow hi' hs).2 hb
    · exact hc.tiers i' (h.other hi' hs).1 hb
  · by_cases hs : i'.seriesId = plan.seriesId
    · obtain ⟨p, hp, ha, hphase⟩ := ((h.place hholds hrow hi' hs).1 (by rw [hb]; rfl)).plan
      exact ⟨p, hp, ha, hphase hb⟩
    · obtain ⟨hi, hp⟩ := h.other hi' hs
      rw [hp]
      exact hc.blocked i' hi hb
  · by_cases hs : i'.seriesId = plan.seriesId
    · obtain ⟨id, hid, -⟩ := ((h.place hholds hrow hi' hs).1 (by rw [hq]; rfl)).job hq
      rw [hid]
      rfl
    · exact hc.queued i' (h.other hi' hs).1 hq
  · obtain ⟨i, hi, hm⟩ := Table.forall₂_right h.rows hi'
    rcases hm.jobId with hj | hj | ⟨k, hj, ha⟩
    · rcases syncChapters_synced.fresh i hi with hi | hf
      · exact h.grows.keepsRows id (hc.named i hi id (hj ▸ hid))
      · rw [hj, hf.job] at hid
        cases hid
    · rw [hj] at hid
      cases hid
    · obtain rfl := Option.some.inj (hj.symm.trans hid)
      exact ha.isSome

theorem Watched.prepared (hc : c.Watched) (h : Prepared plan c c') (hactive : plan.status = .active)
    (hphase : plan.phase = .priority ∨ plan.phase = .backfill)
    (hsame : ∀ p, c.plan? plan.seriesId = some p → p.phase = .priority ∨ p.phase = .backfill →
      plan.phase = p.phase) : c'.Watched := by
  refine ⟨h.ok, h.phases hc.phases hphase, fun i hi hb => ?_, fun i hi hb => ?_, fun i hi hq => ?_,
    fun i hi id hid => ?_⟩
  all_goals rcases h.fresh i hi with hold | hf
  · exact hc.tiers i hold hb
  · exact (hf.blocked hb).2
  · obtain ⟨p, hp, ha, hprio⟩ := hc.blocked i hold hb
    by_cases hs : i.seriesId = plan.seriesId
    · rw [hs] at hp ⊢
      exact ⟨plan, h.row, hactive, (hsame p hp (.inl hprio)).trans hprio⟩
    · exact ⟨p, (h.others _ hs).trans hp, ha, hprio⟩
  · exact ⟨plan, hf.series ▸ h.row, hactive, hphase.resolve_right (hf.blocked hb).1⟩
  · exact hc.queued i hold hq
  · exact absurd hq hf.not_queued
  · exact h.grows.keepsRows id (hc.named i hold id hid)
  · rw [hf.job] at hid
    cases hid

theorem Watched.reconcile (hc : c.Watched) (h : c.reconcile now window seriesId = .ok c') :
    c'.Watched := by
  unfold Catalog.reconcile at h
  split at h
  · cases h
    exact hc
  · rename_i plan hp
    split at h
    · cases h
      exact hc
    · rename_i hactive
      rw [not_not] at hactive
      obtain rfl := Table.get_key hp
      exact hc.advanced hp hactive (advance_spec hc.ok h)

theorem Watched.upgrade (hc : c.Watched) {seriesIds : List Nat} {r : Catalog × Nat}
    (h : c.enqueuePreferredUpgrades now seriesIds = .ok r) : r.1.Watched := by
  obtain ⟨q, he, hg, hok⟩ := enqueuePreferredUpgrades_spec hc.ok h
  rw [he]
  exact hc.of_tables hok hg.keepsRows rfl rfl rfl

theorem Watched.chapter (hc : c.Watched) (l : ChapterCall) (t : Time) :
    (l.applyCatalog c t).Watched := by
  cases l with
  | call op =>
    obtain ⟨hq, hk⟩ := Op.apply_rowsOk op t hc.ok.queue
    exact hc.of_tables hq hk rfl rfl rfl
  | discover chapters releases => exact hc.of_tables hc.ok.queue (fun _ => id) rfl rfl rfl
  | start jobId => exact hc
  | complete d blob projection =>
    obtain ⟨hq, hi, hn, hp⟩ := complete_rest c d blob projection t
    exact hc.of_tables (hq ▸ hc.ok.queue) (hq ▸ fun _ => id) hi hn hp
  | reconcile window seriesId =>
    obtain ⟨c', h⟩ := reconcile_ok c t window seriesId
    simp only [ChapterCall.applyCatalog, h]
    exact hc.reconcile h
  | upgrade seriesIds =>
    simp only [ChapterCall.applyCatalog]
    cases h : c.enqueuePreferredUpgrades t seriesIds with
    | error e => exact hc
    | ok r => exact hc.upgrade h
  | bypass source retryAfter =>
    simp only [ChapterCall.applyCatalog]
    cases h : c.bypassCoolingSource t source retryAfter with
    | error e => exact hc
    | ok r => exact hc.requeued (bypassCoolingSource_requeued hc.ok h)
  | reroute jobId snapshot code message retryAt =>
    simp only [ChapterCall.applyCatalog]
    cases h : c.downloads.handlerReroute jobId snapshot code message retryAt t with
    | error e => exact hc
    | ok r => exact hc.requeued (handlerReroute_requeued hc.ok h)

theorem Watched.track (hc : c.Watched) (h : c.track now window seriesId = .ok c') : c'.Watched := by
  obtain ⟨plan, c₁, rfl, hactive, hphase, hsame, hprep, hvisit⟩ := track_spec hc.ok h
  exact (hc.prepared hprep hactive hphase hsame).advanced hprep.row hactive
    (advance_spec hprep.ok hvisit)

/-- What `SourceRefreshHandler` does never fails. -/
theorem refreshTracked_ok (c : Catalog) (now : Time) (status : SeriesStatus) (seriesId : Nat) :
    (c.refreshTracked now status seriesId = .ok c ∧ status.isTracked = false) ∨
      ∃ c₁ r, c.reconcile now rollingWindow seriesId = .ok c₁ ∧
        c₁.enqueuePreferredUpgrades now [seriesId] = .ok r ∧
        c.refreshTracked now status seriesId = .ok r.1 := by
  cases hs : status.isTracked with
  | false => exact .inl ⟨by rw [refreshTracked, hs]; rfl, rfl⟩
  | true =>
    obtain ⟨c₁, h₁⟩ := reconcile_ok c now rollingWindow seriesId
    obtain ⟨r, hr⟩ := enqueuePreferredUpgrades_ok c₁ now [seriesId]
    refine .inr ⟨c₁, r, h₁, hr, ?_⟩
    rw [refreshTracked, hs, if_pos rfl, h₁]
    exact map_eq_ok.mpr ⟨r, hr, rfl⟩

theorem Watched.step (hc : c.Watched) (l : PlanningCall) (t : Time) : (l.apply c t).Watched := by
  cases l with
  | chapter call => exact hc.chapter call t
  | refresh status seriesId =>
    simp only [PlanningCall.apply]
    rcases c.refreshTracked_ok t status seriesId with ⟨h, -⟩ | ⟨c₁, r, h₁, hr, h⟩
    · rw [h]
      exact hc
    · rw [h]
      exact (hc.reconcile h₁).upgrade hr
  | track window seriesId =>
    simp only [PlanningCall.apply]
    cases h : c.track t window seriesId with
    | error e => exact hc
    | ok c' => exact hc.track h

/-! ## What a visit leaves -/

/-- An intent that is open after the visit waits. -/
theorem Watched.waits (hc : c.Watched) (hrow : c.plan? plan.seriesId = some plan)
    (hactive : plan.status = .active) (h : c.advance now window plan = .ok c')
    (hi : i ∈ c'.intents) (hs : i.seriesId = plan.seriesId) (ho : i.state.isFinished = false) :
    c'.Waits window i := by
  have hadv := advance_spec hc.ok h
  obtain ⟨⟨p, hp, -, hblocked⟩, -⟩ := (hadv.place (hc.holdsOpen hrow hactive) hrow hi hs).1 ho
  rcases IntentState.isFinished_eq_false.mp ho with hst | hst | hst
  · obtain ⟨htier, hfull⟩ := advance_pending hc.ok h (mem_intentsOf.mpr ⟨hi, hs⟩) hst
    exact .inr (.inl ⟨hst, htier, hs ▸ hfull⟩)
  · exact .inl hst
  · exact .inr (.inr ⟨hst, p, hp, hblocked hst⟩)

/-- An intent that was not let go is open after the visit, or its own job ended. -/
theorem Watched.taken (hc : c.Watched) (hi : i ∈ c.intents)
    (hm : c.Moved now plan phase c'.queue i i') (hs : i.seriesId = plan.seriesId)
    (hn : c.Needs now i.chapterId) (hg : c.queue.Grows c'.queue) (hl : c.letGo i = false) :
    i'.state.isFinished = false ∨ c'.ownJobEnded i' = true := by
  obtain ⟨hart, hrelease⟩ := hn
  cases hj : i.jobId with
  | none =>
    have ho : i.state.isFinished = false := by simpa [letGo, hj] using hl
    refine .inl (hm.isOpen hs hrelease ?_)
    rw [followJob_idle hart hj]
    rcases IntentState.isFinished_eq_false.mp ho with hst | hst | hst
    · exact .inr hst
    · have hsome := hc.queued i hi hst
      rw [hj] at hsome
      cases hsome
    · exact .inl hst
  | some id =>
    obtain ⟨job, hq⟩ := Option.isSome_iff_exists.mp (hc.named i hi id hj)
    obtain ⟨hjob, hactive, -, hended⟩ := followJob_job now hart hj hq
    have hsucc : job.status ≠ .succeeded := by simpa [letGo, hj, hq] using hl
    by_cases ha : job.status.isActive = true
    · have hst := hactive ha
      rw [hm.settled hs (by rw [hst]; decide) (by rw [hst]; decide), hst]
      exact .inl rfl
    · have he : job.status = .failed ∨ job.status = .cancelled := by
        cases hst : job.status <;> simp_all [JobState.isActive]
      have hst := hended he
      rw [hm.settled hs (by rw [hst]; decide) (by rw [hst]; decide)]
      have hq' := hg.ended id job hq (by simpa using ha)
      exact .inr (by simp [ownJobEnded, hjob, hq', he])

/-- The visit of an active plan that let no chapter go. -/
theorem Watched.advance_planned (hc : c.Watched) (hrow : c.plan? plan.seriesId = some plan)
    (hactive : plan.status = .active) (h : c.advance now window plan = .ok c')
    (hl : c.NoneLetGo now plan.seriesId) : c'.AllPlanned now window plan.seriesId := by
  have hadv := advance_spec hc.ok h
  intro chapter hch hn
  rw [chaptersOf_congr hadv.library] at hch
  rw [needs_congr hadv.library hadv.releases] at hn
  obtain ⟨hm, hs⟩ := mem_chaptersOf.mp hch
  obtain ⟨i, hi, hser, hid⟩ := syncChapters_covers now hm hs
  obtain ⟨i', hi', hmoved⟩ := hadv.target hi hser hid
  have htaken : i'.state.isFinished = false ∨ c'.ownJobEnded i' = true := by
    rcases syncChapters_synced.fresh i hi with hold | hf
    · exact hc.taken hold hmoved hser (hid ▸ hn) hadv.grows
        (hl chapter hch hn i (mem_chapterIntents.mpr ⟨hold, hser, hid⟩))
    · have hart : c.hasActiveArtifact i.chapterId = false := hid ▸ hn.1
      refine .inl (hmoved.isOpen hser (hid ▸ hn.2) ?_)
      rw [followJob_idle hart hf.job]
      exact hf.waits hart
  obtain ⟨him, hser', -⟩ := mem_chapterIntents.mp hi'
  exact ⟨i', hi', htaken.imp_left (hc.waits hrow hactive h him hser')⟩

/-- A series that is tracked again, none of whose chapters was let go. -/
theorem Watched.track_planned (hc : c.Watched) (h : c.track now window seriesId = .ok c')
    (hl : c.NoneLetGo now seriesId) : c'.AllPlanned now window seriesId := by
  obtain ⟨plan, c₁, rfl, hactive, hphase, hsame, hprep, hvisit⟩ := track_spec hc.ok h
  have hc₁ := hc.prepared hprep hactive hphase hsame
  refine hc₁.advance_planned hprep.row hactive hvisit fun chapter hch hn i hi => ?_
  rw [chaptersOf_congr hprep.library] at hch
  rw [needs_congr hprep.library hprep.releases] at hn
  obtain ⟨hm, hs⟩ := mem_chaptersOf.mp hch
  obtain ⟨him, hser, hid⟩ := mem_chapterIntents.mp hi
  rcases hprep.fresh i him with hold | hf
  · have hsame : c₁.letGo i = c.letGo i := by
      rw [letGo, hprep.queue ⟨chapter, hm, hs⟩, letGo]
    rw [hsame]
    exact hl chapter hch hn i (mem_chapterIntents.mpr ⟨hold, hser, hid⟩)
  · have hwaits := hf.waits (hid ▸ hn.1)
    have ho : i.state.isFinished = false := IntentState.isFinished_eq_false.mpr (by tauto)
    simpa [letGo, hf.job] using ho

/-- The chapters stay planned when upgrades are queued. -/
theorem AllPlanned.upgrade {seriesIds : List Nat} {r : Catalog × Nat} (hc : c.PlansOk)
    (h : c.AllPlanned now window seriesId)
    (hr : c.enqueuePreferredUpgrades now seriesIds = .ok r) :
    r.1.AllPlanned now window seriesId := by
  obtain ⟨q, he, hg, -⟩ := enqueuePreferredUpgrades_spec hc hr
  rw [he]
  intro chapter hch hn
  obtain ⟨i, hi, hw | hj⟩ := h chapter hch hn
  · exact ⟨i, hi, .inl hw⟩
  · refine ⟨i, hi, .inr ?_⟩
    simp only [ownJobEnded, Option.any_eq_true, Bool.or_eq_true, beq_iff_eq] at hj ⊢
    obtain ⟨id, hid, job, hq, hst⟩ := hj
    have hend : job.status.isActive = false := by
      rcases hst with hst | hst <;> rw [hst] <;> rfl
    exact ⟨id, hid, job, hg.ended id job hq hend, hst⟩

/-- A plan that is not active leaves everything as it is. -/
theorem NothingNew.allPlanned (h : c.NothingNew now seriesId) :
    c.AllPlanned now window seriesId := by
  intro chapter hch hn
  obtain ⟨i, hi, hq | hj⟩ := h chapter hch hn
  · exact ⟨i, hi, .inl (.inl hq)⟩
  · exact ⟨i, hi, .inr hj⟩

theorem Watched.reconcile_planned (hc : c.Watched)
    (h : c.reconcile now window seriesId = .ok c')
    (hl : (∃ plan ∈ c.plan? seriesId, plan.status = .active) → c.NoneLetGo now seriesId)
    (hn : (¬ ∃ plan ∈ c.plan? seriesId, plan.status = .active) → c.NothingNew now seriesId) :
    c'.AllPlanned now window seriesId := by
  unfold Catalog.reconcile at h
  split at h
  · rename_i hp
    cases h
    refine (hn ?_).allPlanned
    rintro ⟨plan, hplan, -⟩
    rw [Option.mem_def, hp] at hplan
    cases hplan
  · rename_i plan hp
    split at h
    · rename_i hactive
      cases h
      refine (hn ?_).allPlanned
      rintro ⟨p, hplan, ha⟩
      rw [Option.mem_def, hp] at hplan
      cases hplan
      exact hactive ha
    · rename_i hactive
      rw [not_not] at hactive
      obtain rfl := Table.get_key hp
      exact hc.advance_planned hp hactive h (hl ⟨plan, hp, hactive⟩)

/-- A call that plans the series, in a state that is ready for it. -/
theorem Watched.step_planned (hc : c.Watched) {l : PlanningCall}
    (hw : l.window? seriesId = some window) (hr : l.Ready c now seriesId) :
    (l.apply c now).AllPlanned now window seriesId := by
  obtain ⟨hl, hn⟩ := hr
  cases l with
  | chapter call =>
    cases call with
    | reconcile w id =>
      simp only [PlanningCall.window?, Option.ite_none_right_eq_some, Option.some.injEq] at hw
      obtain ⟨rfl, rfl⟩ := hw
      obtain ⟨c', h⟩ := reconcile_ok c now w id
      simp only [PlanningCall.apply, ChapterCall.applyCatalog, h]
      exact hc.reconcile_planned h hl hn
    | _ => cases hw
  | refresh status id =>
    simp only [PlanningCall.window?, Option.ite_none_right_eq_some, Option.some.injEq] at hw
    obtain ⟨⟨hs, rfl⟩, rfl⟩ := hw
    simp only [PlanningCall.apply]
    rcases c.refreshTracked_ok now status id with ⟨-, hu⟩ | ⟨c₁, r, h₁, hr, h⟩
    · rw [hs] at hu
      cases hu
    · rw [h]
      exact (hc.reconcile_planned h₁ hl hn).upgrade (hc.reconcile h₁).ok hr
  | track w id =>
    simp only [PlanningCall.window?, Option.ite_none_right_eq_some, Option.some.injEq] at hw
    obtain ⟨rfl, rfl⟩ := hw
    simp only [PlanningCall.apply]
    cases h : c.track now w id with
    | error e =>
      -- a title without chapters, whose refreshes could not be queued
      intro chapter hch _
      obtain ⟨c', h'⟩ := @track_ok c now w id hc.ok ⟨chapter, mem_chaptersOf.mp hch⟩
      rw [h] at h'
      cases h'
    | ok c' => exact hc.track_planned h (hl trivial)

/-- In every run from a catalog in which nothing was tracked, a call that plans a tracked series in
a state that is ready for it leaves all its chapters planned. -/
theorem chapters_planned {tr : List (Catalog × (PlanningCall × Time))} {c₀ : Catalog}
    (h₀ : c₀.NothingTracked) (h : Run PlanningStep c₀ tr c) (seriesId : Nat) :
    ∀ x l t window, (x, (l, t)) ∈ tr → l.window? seriesId = some window → l.Ready x t seriesId →
      (l.apply x t).AllPlanned t window seriesId := by
  intro x l t window hm hw hr
  obtain ⟨tr', s', hrun, hstep, -⟩ := h.mem_step hm
  have hx : x.Watched := hrun.always h₀.watched fun s l s' hs hl => hl ▸ hs.step l.1 l.2
  exact hx.step_planned hw hr

/-- A title with one chapter, which is tracked. -/
def trackCalls : List (PlanningCall × Time) :=
  [(.chapter (.discover [{ id := 7, seriesId := 1, canonicalNumber := "1", createdAt := 0 }]
      [releaseOf 1 "mangafire" Nat.one_pos]), 0),
    (.track 20 1, 0)]

/-- Another chapter is found. -/
def findCalls : List (PlanningCall × Time) :=
  [(.chapter (.discover
      [{ id := 7, seriesId := 1, canonicalNumber := "1", createdAt := 0 },
        { id := 8, seriesId := 1, canonicalNumber := "2", createdAt := 1 }]
      [releaseOf 1 "mangafire" Nat.one_pos,
        { id := 2, id_pos := Nat.two_pos, chapterId := 8, source := "mangafire"
          sourceSeriesId := 1, sourceReleaseId := "2" }]), 1)]

/-- The download of the first chapter. -/
def downloadCalls : List (PlanningCall × Time) :=
  [(.chapter (claimCall "w").1, 0), (.chapter (completeCall mangafireDownload "a").1, 0),
    (.chapter (.call (.succeed 1 "w")), 0), (.chapter (.reconcile 20 1), 0)]

/-- The catalog after the calls. -/
def afterPlanning (calls : List (PlanningCall × Time)) : Catalog :=
  calls.foldl (fun c l => l.1.apply c l.2) {}

/-- The calls, and one more. -/
theorem run_afterPlanning (calls : List (PlanningCall × Time)) (l : PlanningCall) (t : Time) :
    Run PlanningStep {} (Run.history (fun c l => l.1.apply c l.2) {} calls ++
      [(afterPlanning calls, (l, t))]) (l.apply (afterPlanning calls) t) :=
  .snoc (Run.of_foldl _ calls fun _ _ => rfl) rfl

theorem nothingTracked_empty : ({} : Catalog).NothingTracked :=
  ⟨⟨⟨.nil, fun _ h => (by cases h)⟩, .nil, fun _ h => (by cases h), .nil⟩, rfl, rfl⟩

/-- The first chapter was downloaded, and the plan is complete: the second one is not planned. -/
theorem found_after_completion : ({} : Catalog).NothingTracked ∧
    ∃ tr c, Run PlanningStep {} (tr ++ [(c, (.refresh .reading 1, 1))])
        ((PlanningCall.refresh .reading 1).apply c 1) ∧
      (PlanningCall.refresh .reading 1).window? 1 = some rollingWindow ∧
      ¬ ((PlanningCall.refresh .reading 1).apply c 1).AllPlanned 1 rollingWindow 1 := by
  let calls := trackCalls ++ downloadCalls ++ findCalls
  refine ⟨nothingTracked_empty, _, _, run_afterPlanning calls (.refresh .reading 1) 1, rfl,
    fun h => ?_⟩
  have hlast : ((PlanningCall.refresh .reading 1).apply (afterPlanning calls) 1).chaptersOf 1 =
        [{ id := 7, seriesId := 1, canonicalNumber := "1", createdAt := 0 },
          { id := 8, seriesId := 1, canonicalNumber := "2", createdAt := 1 }] ∧
      ((PlanningCall.refresh .reading 1).apply (afterPlanning calls) 1).Needs 1 8 ∧
      ((PlanningCall.refresh .reading 1).apply (afterPlanning calls) 1).chapterIntents 1 8 =
        [] := by
    decide +kernel
  obtain ⟨hch, hn, hnone⟩ := hlast
  obtain ⟨i, hi, -⟩ := h { id := 8, seriesId := 1, canonicalNumber := "2", createdAt := 1 }
    (by rw [hch]; simp) hn
  rw [hnone] at hi
  cases hi

/-- Found while the first one waits for its download, it is. -/
theorem found_in_time : ((PlanningCall.refresh .reading 1).apply
    (afterPlanning (trackCalls ++ findCalls)) 1).AllPlanned 1 rollingWindow 1 := by
  let calls := trackCalls ++ findCalls
  refine chapters_planned nothingTracked_empty (run_afterPlanning calls (.refresh .reading 1) 1) 1
    (afterPlanning calls) (.refresh .reading 1) 1 rollingWindow
    (List.mem_append_right _ (List.mem_singleton_self _)) rfl
    ⟨fun _ => by decide +kernel, fun h => absurd ?_ h⟩
  have hplan : ((afterPlanning calls).plan? 1).any (·.status == .active) = true := by decide +kernel
  simp only [Option.any_eq_true, beq_iff_eq] at hplan
  exact hplan

end

end Catalog

end MangaManager
