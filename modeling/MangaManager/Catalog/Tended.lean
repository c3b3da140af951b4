import MangaManager.Catalog.Resume

/-!
# Open intents and the plans that visit them

Only active plans are reconciled, and only the end of the priority phase unblocks an
intent. `Tended` says of every open intent that its plan is active and will put it
right at the next visit; `Advanced.tended` that the visit does, and the other lemmas
which calls keep it. An intent whose chapter has an active artifact is put right by
any visit.
-/

namespace MangaManager

open Lib

namespace Catalog

/-- The intent is where its plan looks for it: its plan is active, a blocked one waits for the end
of the priority phase, and a queued one for its active job. -/
structure Placed (c : Catalog) (i : IntentRow) : Prop where
  plan : ∃ plan, c.plan? i.seriesId = some plan ∧ plan.status = .active ∧
    (i.state = .blocked → plan.phase = .priority)
  job : i.state = .queued → ∃ id, i.jobId = some id ∧ c.queue.IsActive id

/-- Every intent that is blocked, pending or queued is placed. -/
def NoneStranded (c : Catalog) : Prop := ∀ i ∈ c.intents, i.state.isFinished = false → c.Placed i

/-- The next visit of `plan` leaves the open intent placed. -/
structure Held (c : Catalog) (plan : SeriesDownloadPlan) (i : IntentRow) : Prop where
  active : plan.status = .active
  blocked : c.hasActiveArtifact i.chapterId = false → i.state = .blocked → plan.phase = .priority
  queued : c.hasActiveArtifact i.chapterId = false → i.state = .queued →
    ∃ id, i.jobId = some id ∧
      ((c.queue.job? id).isSome = true ∨ i.tier ≠ .backfill ∨ plan.phase = .priority)

/-- Every open intent is held by the plan of its series. -/
structure Tended (c : Catalog) : Prop where
  ok : c.PlansOk
  phases : ∀ plan ∈ c.plans, plan.status = .active →
    plan.phase = .priority ∨ plan.phase = .backfill
  tiers : ∀ i ∈ c.intents, i.state = .blocked → i.tier = .backfill
  held : ∀ i ∈ c.intents, i.state.isFinished = false →
    ∃ plan, c.plan? i.seriesId = some plan ∧ c.Held plan i

/-- The plan is active, and its next visit leaves the open intents of its series placed. -/
structure HoldsOpen (c : Catalog) (plan : SeriesDownloadPlan) : Prop where
  active : plan.status = .active
  phase : plan.phase = .priority ∨ plan.phase = .backfill
  tiers : ∀ i ∈ c.intents, i.state = .blocked → i.tier = .backfill
  held : ∀ i ∈ c.intents, i.seriesId = plan.seriesId → i.state.isFinished = false → c.Held plan i

/-- The open intents of a series are placed. -/
def Visited (c : Catalog) (seriesId : Nat) : Prop :=
  ∀ i ∈ c.intents, i.seriesId = seriesId → i.state.isFinished = false → c.Placed i

section
variable {c c' : Catalog} {now : Time} {plan : SeriesDownloadPlan} {phase : PlanPhase}
  {window seriesId : Nat} {i i' : IntentRow}

theorem Held.mono (h : c.Held plan i) (hq : c.queue.KeepsRows c'.queue)
    (ha : c.hasActiveArtifact i.chapterId = true → c'.hasActiveArtifact i.chapterId = true) :
    c'.Held plan i := by
  have hno : c'.hasActiveArtifact i.chapterId = false → c.hasActiveArtifact i.chapterId = false := by
    intro h'
    by_contra hn
    rw [ha (by simpa using hn)] at h'
    cases h'
  refine ⟨h.active, fun hn hs => h.blocked (hno hn) hs, fun hn hs => ?_⟩
  obtain ⟨id, hj, hrow | hrest⟩ := h.queued (hno hn) hs
  · exact ⟨id, hj, .inl (hq id hrow)⟩
  · exact ⟨id, hj, .inr hrest⟩

theorem Placed.held (h : c.Placed i) : ∃ plan, c.plan? i.seriesId = some plan ∧ c.Held plan i := by
  obtain ⟨plan, hp, hactive, hb⟩ := h.plan
  refine ⟨plan, hp, hactive, fun _ => hb, fun _ hs => ?_⟩
  obtain ⟨id, hj, ha⟩ := h.job hs
  exact ⟨id, hj, .inl ha.isSome⟩

/-! ## A visit -/

/-- A fresh intent that is blocked waits for the priority phase. -/
theorem Fresh.blocked (h : c.Fresh plan i) (hs : i.state = .blocked) :
    plan.phase ≠ .backfill ∧ i.tier = .backfill := by
  obtain ⟨chapter, -, -, -, htier, hst⟩ := h.place
  rw [hs] at hst
  rw [htier]
  split at hst
  · cases hst
  · unfold newIntentState at hst ⊢
    split at hst
    · cases hst
    · rename_i hcur
      split at hst
      · cases hst
      · rename_i hprio
        rw [if_neg hcur, if_neg hprio]
        refine ⟨fun hp => ?_, rfl⟩
        rw [if_pos hp] at hst
        cases hst

theorem Fresh.not_queued (h : c.Fresh plan i) : i.state ≠ .queued := by
  obtain ⟨chapter, -, -, -, -, hst⟩ := h.place
  rw [hst]
  unfold newIntentState
  split
  · decide
  · split
    · decide
    · split
      · decide
      · split <;> decide

/-- The phase goes from priority to backfill, or stays. -/
theorem phaseAfter_cases (c : Catalog) (now : Time) (plan : SeriesDownloadPlan) :
    c.phaseAfter now plan = plan.phase ∨
      (plan.phase = .priority ∧ c.phaseAfter now plan = .backfill) := by
  unfold phaseAfter nextPhase
  split
  · rename_i h
    exact .inr ⟨h.1, rfl⟩
  · exact .inl rfl

/-- An intent that is blocked after it followed its job: its plan is in the priority phase. -/
theorem followJob_blocked (hp : plan.phase = .priority ∨ plan.phase = .backfill)
    (hi : (i.state.isFinished = false → c.Held plan i) ∨ c.Fresh plan i)
    (ht : i.state = .blocked → i.tier = .backfill) (h : (c.followJob now i).state = .blocked) :
    plan.phase = .priority ∧ i.tier = .backfill := by
  have hno : c.hasActiveArtifact i.chapterId = false := by
    by_contra hn
    rw [followJob_satisfied (by simpa using hn)] at h
    cases h
  have hblocked : i.state = .blocked → plan.phase = .priority ∧ i.tier = .backfill := by
    intro hs
    refine ⟨?_, ht hs⟩
    rcases hi with hh | hf
    · exact (hh (by rw [hs]; rfl)).blocked hno hs
    · exact hp.resolve_right (hf.blocked hs).1
  cases hj : i.jobId with
  | none =>
    rw [followJob_idle hno hj] at h
    exact hblocked h
  | some id =>
    cases hq : c.queue.job? id with
    | none =>
      obtain ⟨-, hst, hlost⟩ := followJob_lost now hno hj hq
      by_cases hs : i.state = .queued
      · -- the job of a backfill intent was lost
        rw [hlost hs] at h
        have htier : i.tier = .backfill := by
          by_contra hne
          rw [if_pos hne] at h
          cases h
        refine ⟨?_, htier⟩
        rcases hi with hh | hf
        · obtain ⟨id', hj', hrow⟩ := (hh (by rw [hs]; rfl)).queued hno hs
          cases hj.symm.trans hj'
          rcases hrow with hrow | hne | hphase
          · rw [hq] at hrow
            cases hrow
          · exact absurd htier hne
          · exact hphase
        · exact absurd hs hf.not_queued
      · rw [hst hs] at h
        exact hblocked h
    | some job =>
      exfalso
      obtain ⟨-, hactive, hsucc, hended⟩ := followJob_job now hno hj hq
      cases hst : job.status with
      | succeeded => rw [hsucc hst] at h; cases h
      | cancelled => rw [hended (.inr hst)] at h; cases h
      | failed => rw [hended (.inl hst)] at h; cases h
      | queued => rw [hactive (by rw [hst]; rfl)] at h; cases h
      | leased => rw [hactive (by rw [hst]; rfl)] at h; cases h
      | retryWait => rw [hactive (by rw [hst]; rfl)] at h; cases h

/-- An intent that is queued after it followed its job has an active one. -/
theorem followJob_queued (hi : (i.state.isFinished = false → c.Held plan i) ∨ c.Fresh plan i)
    (h : (c.followJob now i).state = .queued) :
    ∃ id, (c.followJob now i).jobId = some id ∧ c.queue.IsActive id := by
  have hno : c.hasActiveArtifact i.chapterId = false := by
    by_contra hn
    rw [followJob_satisfied (by simpa using hn)] at h
    cases h
  cases hj : i.jobId with
  | none =>
    exfalso
    rw [followJob_idle hno hj] at h
    rcases hi with hh | hf
    · obtain ⟨id, hj', -⟩ := (hh (by rw [h]; rfl)).queued hno h
      rw [hj] at hj'
      cases hj'
    · exact hf.not_queued h
  | some id =>
    cases hq : c.queue.job? id with
    | none =>
      exfalso
      obtain ⟨-, hst, hlost⟩ := followJob_lost now hno hj hq
      by_cases hs : i.state = .queued
      · rw [hlost hs] at h
        split at h <;> cases h
      · rw [hst hs] at h
        exact hs h
    | some job =>
      obtain ⟨hjob, -, hsucc, hended⟩ := followJob_job now hno hj hq
      refine ⟨id, hjob, job, hq, ?_⟩
      cases hst : job.status with
      | succeeded => rw [hsucc hst] at h; cases h
      | cancelled => rw [hended (.inr hst)] at h; cases h
      | failed => rw [hended (.inl hst)] at h; cases h
      | queued => rfl
      | leased => rfl
      | retryWait => rfl

/-- The row of the plan after its visit. -/
theorem Advanced.row (h : Advanced now plan c c') (hrow : c.plan? plan.seriesId = some plan) :
    c'.plan? plan.seriesId = some
      (c'.tally now plan ((c.syncChapters now plan).phaseAfter now plan)) := by
  rw [plan?, h.plans]
  exact @Table.get_put_self _ SeriesDownloadPlan.seriesId c.plans
    (c'.tally now plan ((c.syncChapters now plan).phaseAfter now plan)) _ (Table.get_mem hrow) rfl

/-- While an intent is open, the plan is not complete. -/
theorem tally_open {p : SeriesDownloadPlan} (hi : i ∈ c.intents) (hs : i.seriesId = plan.seriesId)
    (ho : i.state.isFinished = false) (h : c.tally now plan phase = p) :
    p.status = plan.status ∧ p.phase = phase := by
  have hnot : ¬ (c.intentsOf plan.seriesId ≠ [] ∧
      (c.intentsOf plan.seriesId).all (·.state.isFinished) = true) := by
    rintro ⟨-, hall⟩
    rw [List.all_eq_true.mp hall i (mem_intentsOf.mpr ⟨hi, hs⟩)] at ho
    cases ho
  subst h
  unfold tally
  dsimp only
  rw [if_neg hnot, if_neg hnot]
  exact ⟨rfl, rfl⟩

theorem Tended.holdsOpen (ht : c.Tended) (hrow : c.plan? plan.seriesId = some plan)
    (hactive : plan.status = .active) : c.HoldsOpen plan := by
  refine ⟨hactive, ht.phases plan (Table.get_mem hrow) hactive, ht.tiers, fun i hi hs ho => ?_⟩
  obtain ⟨p, hp, hh⟩ := ht.held i hi ho
  rw [hs, hrow] at hp
  cases hp
  exact hh

/-- An intent before the visit, or of a chapter that had none. -/
theorem HoldsOpen.source (hh : c.HoldsOpen plan) (hi : i ∈ (c.syncChapters now plan).intents)
    (hs : i.seriesId = plan.seriesId) :
    ((i.state.isFinished = false → c.Held plan i) ∨ c.Fresh plan i) ∧
      (i.state = .blocked → i.tier = .backfill) := by
  rcases syncChapters_synced.fresh i hi with hi | hf
  · exact ⟨.inl (hh.held i hi hs), hh.tiers i hi⟩
  · exact ⟨.inr hf, fun hs => (hf.blocked hs).2⟩

/-- After the visit of its plan an open intent is placed, and only a backfill one is blocked. -/
theorem Advanced.place (h : Advanced now plan c c') (hh : c.HoldsOpen plan)
    (hrow : c.plan? plan.seriesId = some plan)
    (hi' : i' ∈ c'.intents) (hs' : i'.seriesId = plan.seriesId) :
    (i'.state.isFinished = false → c'.Placed i') ∧ (i'.state = .blocked → i'.tier = .backfill) := by
  obtain ⟨i, hi, hm⟩ := Table.forall₂_right h.rows hi'
  obtain ⟨-, hser, -⟩ := hm.place
  have hs : i.seriesId = plan.seriesId := hser.symm.trans hs'
  obtain ⟨hsource, htier⟩ := hh.source hi hs
  have hm' := hm
  unfold Moved at hm'
  rw [if_pos hs] at hm'
  -- a blocked intent was so after it followed its job, and was not unblocked
  have hblocked : i'.state = .blocked →
      (c.syncChapters now plan).phaseAfter now plan = .priority ∧ i'.tier = .backfill := by
    intro hb
    rcases hm' with rfl | hr
    · obtain ⟨hsame, hb'⟩ := unblock_blocked hb
      obtain ⟨hprio, hback⟩ := followJob_blocked hh.phase hsource htier hb'
      have htf : (c.followJob now i).tier = .backfill := by rw [followJob_tier, hback]
      refine ⟨?_, by rw [followed, unblock_tier, htf]⟩
      rcases phaseAfter_cases (c.syncChapters now plan) now plan with he | ⟨-, he⟩
      · rw [he, hprio]
      · rw [followed, unblock, if_pos ⟨hprio, he, htf, hb'⟩] at hb
        cases hb
    · cases hr <;> cases hb
  refine ⟨fun ho => ⟨?_, fun hq => ?_⟩, fun hb => (hblocked hb).2⟩
  · obtain ⟨hst, hph⟩ := tally_open hi' hs' ho rfl
    refine ⟨_, hs' ▸ h.row hrow, hst.trans hh.active, fun hb => hph.trans (hblocked hb).1⟩
  · rcases hm' with rfl | hr
    · have hf : (c.followJob now i).state = .queued := by
        by_cases hb : (c.followJob now i).state = .blocked
        · have hu := @unblock_state plan ((c.syncChapters now plan).phaseAfter now plan) _ hb
          rw [← followed, hq] at hu
          rcases hu with hu | hu <;> cases hu
        · rwa [followed, unblock_of_ne hb] at hq
      obtain ⟨id, hj, ha⟩ := followJob_queued hsource hf
      exact ⟨id, by rw [followed, unblock_jobId, hj], h.grows.active id ha⟩
    · cases hr with
      | starved => cases hq
      | queued _ _ ha => exact ⟨_, rfl, ha⟩

/-- The other series keep their intents and their plans. -/
theorem Advanced.other (h : Advanced now plan c c') (hi' : i' ∈ c'.intents)
    (hne : i'.seriesId ≠ plan.seriesId) :
    i' ∈ c.intents ∧ c'.plan? i'.seriesId = c.plan? i'.seriesId := by
  obtain ⟨i, hi, hm⟩ := Table.forall₂_right h.rows hi'
  obtain ⟨-, hser, -⟩ := hm.place
  unfold Moved at hm
  rw [if_neg fun hs => hne (hser.trans hs)] at hm
  subst hm
  refine ⟨?_, ?_⟩
  · rcases syncChapters_synced.fresh i' hi with hi | hf
    · exact hi
    · exact absurd hf.series hne
  · rw [plan?, h.plans]
    exact Table.get_put_of_ne hne

/-- A plan that is active after the visit was so before, and is in one of the two phases. -/
theorem Advanced.phases (h : Advanced now plan c c')
    (hp : ∀ p ∈ c.plans, p.status = .active → p.phase = .priority ∨ p.phase = .backfill)
    (hphase : plan.phase = .priority ∨ plan.phase = .backfill) :
    ∀ p ∈ c'.plans, p.status = .active → p.phase = .priority ∨ p.phase = .backfill := by
  intro p hm ha
  rw [h.plans] at hm
  rcases Table.mem_put.mp hm with ⟨rfl, -⟩ | ⟨hm, -⟩
  · unfold tally at ha ⊢
    dsimp only at ha ⊢
    split
    · rename_i hdone
      rw [if_pos hdone] at ha
      cases ha
    · rcases phaseAfter_cases (c.syncChapters now plan) now plan with he | ⟨-, he⟩
      · rw [he]
        exact hphase
      · exact .inr he
  · exact hp p hm ha

theorem Advanced.tended (h : Advanced now plan c c') (ht : c.Tended)
    (hrow : c.plan? plan.seriesId = some plan) (hactive : plan.status = .active) : c'.Tended := by
  have hholds := ht.holdsOpen hrow hactive
  refine ⟨h.ok, h.phases ht.phases hholds.phase, fun i' hi' hb => ?_, fun i' hi' ho => ?_⟩
  · by_cases hs : i'.seriesId = plan.seriesId
    · exact (h.place hholds hrow hi' hs).2 hb
    · exact ht.tiers i' (h.other hi' hs).1 hb
  · by_cases hs : i'.seriesId = plan.seriesId
    · exact ((h.place hholds hrow hi' hs).1 ho).held
    · obtain ⟨hi, hp⟩ := h.other hi' hs
      obtain ⟨p, hplan, hh⟩ := ht.held i' hi ho
      refine ⟨p, hp.trans hplan, hh.mono h.grows.keepsRows fun ha => ?_⟩
      rw [h.library.hasActiveArtifact]
      exact ha

theorem Advanced.visited (h : Advanced now plan c c') (ht : c.Tended)
    (hrow : c.plan? plan.seriesId = some plan) (hactive : plan.status = .active) :
    c'.Visited plan.seriesId ∧ ∀ u, c.Visited u → c'.Visited u := by
  have hself : c'.Visited plan.seriesId := fun i hi hs =>
    (h.place (ht.holdsOpen hrow hactive) hrow hi hs).1
  refine ⟨hself, fun u hu => ?_⟩
  by_cases hne : u = plan.seriesId
  · rw [hne]
    exact hself
  · intro i' hi' hs ho
    subst hs
    obtain ⟨hi, hp⟩ := h.other hi' hne
    obtain ⟨hplan, hjob⟩ := hu i' hi rfl ho
    refine ⟨hp ▸ hplan, fun hq => ?_⟩
    obtain ⟨id, hj, ha⟩ := hjob hq
    exact ⟨id, hj, h.grows.active id ha⟩

/-- A reconciliation of any series: its open intents are placed afterwards. -/
theorem Tended.reconcile (ht : c.Tended) (h : c.reconcile now window seriesId = .ok c') :
    c'.Tended ∧ c'.Visited seriesId ∧ (∀ u, c.Visited u → c'.Visited u) := by
  unfold Catalog.reconcile at h
  split at h
  · rename_i hp
    cases h
    refine ⟨ht, fun i hi hs ho => ?_, fun _ hu => hu⟩
    obtain ⟨p, hplan, -⟩ := ht.held i hi ho
    rw [hs, hp] at hplan
    cases hplan
  · rename_i plan hp
    split at h
    · rename_i hna
      cases h
      refine ⟨ht, fun i hi hs ho => ?_, fun _ hu => hu⟩
      obtain ⟨p, hplan, hh⟩ := ht.held i hi ho
      rw [hs, hp] at hplan
      cases hplan
      exact absurd hh.active hna
    · rename_i hactive
      rw [not_not] at hactive
      obtain rfl := Table.get_key hp
      have hadv := advance_spec ht.ok h
      obtain ⟨hself, hother⟩ := hadv.visited ht hp hactive
      exact ⟨hadv.tended ht hp hactive, hself, hother⟩

/-! ## Visits of all plans -/

theorem reconcile_ok (c : Catalog) (now : Time) (window seriesId : Nat) :
    ∃ c', c.reconcile now window seriesId = .ok c' := by
  unfold reconcile
  split
  · exact ⟨_, rfl⟩
  · split
    · exact ⟨_, rfl⟩
    · exact advance_ok _ _ _ _

theorem reconcile_plans (hc : c.PlansOk) (h : c.reconcile now window seriesId = .ok c') :
    c'.plans.map (·.seriesId) = c.plans.map (·.seriesId) := by
  unfold reconcile at h
  split at h
  · cases h
    rfl
  · split at h
    · cases h
      rfl
    · rw [(advance_spec hc h).plans]
      exact Table.map_key_put

/-- The series of `visits` are reconciled one after the other, each at its time. -/
def reconcileAll (c : Catalog) (window : Nat) (visits : List (Nat × Time)) :
    Except QueueError Catalog :=
  visits.foldlM (fun c v => c.reconcile v.2 window v.1) c

theorem Tended.reconcileAll (ht : c.Tended) (window : Nat) (visits : List (Nat × Time)) :
    ∃ c', c.reconcileAll window visits = .ok c' ∧ c'.Tended ∧
      (∀ v ∈ visits, c'.Visited v.1) ∧ (∀ u, c.Visited u → c'.Visited u) ∧
      c'.plans.map (·.seriesId) = c.plans.map (·.seriesId) := by
  induction visits generalizing c with
  | nil => exact ⟨c, rfl, ht, fun _ h => (by cases h), fun _ h => h, rfl⟩
  | cons v visits ih =>
    obtain ⟨c₁, h₁⟩ := reconcile_ok c v.2 window v.1
    obtain ⟨ht₁, hself, hother⟩ := ht.reconcile h₁
    obtain ⟨c', h', ht', hall, hkeep, hplans⟩ := ih ht₁
    refine ⟨c', foldlM_cons_eq_ok.mpr ⟨c₁, h₁, h'⟩, ht', fun x hx => ?_,
      fun u hu => hkeep u (hother u hu), hplans.trans (reconcile_plans ht.ok h₁)⟩
    rcases List.mem_cons.mp hx with rfl | hx
    · exact hkeep _ hself
    · exact hall x hx

/-- Once every plan has been visited, no open intent is stranded. -/
theorem Tended.noneStranded (ht : c.Tended) (window : Nat) {visits : List (Nat × Time)}
    (hall : ∀ plan ∈ c.plans, ∃ v ∈ visits, v.1 = plan.seriesId) :
    ∃ c', c.reconcileAll window visits = .ok c' ∧ c'.NoneStranded := by
  obtain ⟨c', h, ht', hvisited, -, hplans⟩ := ht.reconcileAll window visits
  refine ⟨c', h, fun i hi ho => ?_⟩
  obtain ⟨p, hp, -⟩ := ht'.held i hi ho
  have hid : p.seriesId ∈ c.plans.map (·.seriesId) := hplans ▸ List.mem_map_of_mem (Table.get_mem hp)
  obtain ⟨q, hq, he⟩ := List.mem_map.mp hid
  obtain ⟨v, hv, hvs⟩ := hall q hq
  exact hvisited v hv i hi ((Table.get_key hp).symm.trans (he.symm.trans hvs.symm)) ho

/-! ## The other calls -/

/-- Plans and intents are the same, no job row is gone and no chapter lost its artifact. -/
theorem Tended.of_tables (ht : c.Tended) (hq : c'.queue.RowsOk) (hrows : c.queue.KeepsRows c'.queue)
    (hi : c'.intents = c.intents) (hn : c'.nextIntent = c.nextIntent) (hp : c'.plans = c.plans)
    (ha : ∀ id, c.hasActiveArtifact id = true → c'.hasActiveArtifact id = true) : c'.Tended := by
  refine ⟨⟨hq, hi ▸ ht.ok.intents, hi ▸ hn ▸ ht.ok.below, hp ▸ ht.ok.plans⟩, hp ▸ ht.phases,
    hi ▸ ht.tiers, fun i hm ho => ?_⟩
  obtain ⟨plan, hplan, hh⟩ := ht.held i (hi ▸ hm) ho
  refine ⟨plan, ?_, hh.mono hrows (ha _)⟩
  rw [plan?, hp]
  exact hplan

theorem Prepared.phases (h : Prepared plan c c')
    (hp : ∀ p ∈ c.plans, p.status = .active → p.phase = .priority ∨ p.phase = .backfill)
    (hphase : plan.phase = .priority ∨ plan.phase = .backfill) :
    ∀ p ∈ c'.plans, p.status = .active → p.phase = .priority ∨ p.phase = .backfill := by
  intro p hm ha
  have hget := h.ok.plan?_eq hm
  by_cases he : p.seriesId = plan.seriesId
  · rw [he, h.row] at hget
    cases hget
    exact hphase
  · rw [h.others _ he] at hget
    exact hp p (Table.get_mem hget) ha

theorem Prepared.tended (h : Prepared plan c c') (ht : c.Tended) (hactive : plan.status = .active)
    (hphase : plan.phase = .priority ∨ plan.phase = .backfill)
    (hsame : ∀ p, c.plan? plan.seriesId = some p → p.phase = .priority ∨ p.phase = .backfill →
      plan.phase = p.phase) : c'.Tended := by
  refine ⟨h.ok, h.phases ht.phases hphase, fun i hi hb => ?_, fun i hi ho => ?_⟩
  · rcases h.fresh i hi with hi | hf
    · exact ht.tiers i hi hb
    · exact (hf.blocked hb).2
  · have hmono : ∀ p, c.Held p i → c'.Held p i := by
      intro p hh
      refine hh.mono h.grows.keepsRows fun ha => ?_
      rw [h.library.hasActiveArtifact]
      exact ha
    rcases h.fresh i hi with hi | hf
    · obtain ⟨p, hp, hh⟩ := ht.held i hi ho
      by_cases he : i.seriesId = plan.seriesId
      · rw [he] at hp ⊢
        have hph := hsame p hp (ht.phases p (Table.get_mem hp) hh.active)
        refine ⟨plan, h.row, hactive, fun hn hb => ?_, fun hn hs => ?_⟩
        · rw [hph]
          exact (hmono p hh).blocked hn hb
        · rw [hph]
          exact (hmono p hh).queued hn hs
      · exact ⟨p, (h.others _ he).trans hp, hmono p hh⟩
    · refine ⟨plan, hf.series ▸ h.row, hactive, fun _ hb => ?_, fun _ hs => absurd hs hf.not_queued⟩
      exact hphase.resolve_right (hf.blocked hb).1

theorem Tended.track (ht : c.Tended) (h : c.track now window seriesId = .ok c') : c'.Tended := by
  obtain ⟨plan, c₁, rfl, hactive, hphase, hsame, hprep, hadv⟩ := track_spec ht.ok h
  exact (advance_spec hprep.ok hadv).tended (hprep.tended ht hactive hphase hsame) hprep.row hactive

theorem Tended.untrack (ht : c.Tended) (now : Time) (seriesId : Nat) :
    (c.untrack now seriesId).Tended := by
  have h : Dropped now seriesId c (c.untrack now seriesId) := untrack_spec ht.ok
  generalize c.untrack now seriesId = c' at *
  refine ⟨h.ok, fun p hp ha => ?_, fun i hi hb => ?_, fun i hi ho => ?_⟩
  · have hget := h.ok.plan?_eq hp
    by_cases he : p.seriesId = seriesId
    · rw [he] at hget
      rw [h.row p hget] at ha
      cases ha
    · rw [h.others _ he] at hget
      exact ht.phases p (Table.get_mem hget) ha
  · rw [h.intents] at hi
    obtain ⟨i₀, hi₀, rfl⟩ := List.mem_map.mp hi
    split at hb
    · cases hb
    · rename_i hno
      rw [if_neg hno]
      exact ht.tiers i₀ hi₀ hb
  · have hne : i.seriesId ≠ seriesId := by
      intro he
      rw [h.finished hi he] at ho
      cases ho
    rw [h.intents] at hi
    obtain ⟨i₀, hi₀, rfl⟩ := List.mem_map.mp hi
    by_cases hm : i₀ ∈ c.openIntents seriesId
    · rw [if_pos hm] at ho
      cases ho
    · rw [if_neg hm] at ho hne ⊢
      obtain ⟨p, hp, hh⟩ := ht.held i₀ hi₀ ho
      refine ⟨p, (h.others _ hne).trans hp, hh.mono h.queue fun ha => ?_⟩
      rw [h.library.hasActiveArtifact]
      exact ha

/-- The series of the intent has an active plan. -/
def HasActivePlan (c : Catalog) (seriesId : Nat) : Prop :=
  ∃ plan, c.plan? seriesId = some plan ∧ plan.status = .active

theorem Requeued.tended {P : Nat → Prop} (h : Requeued P now c c') (ht : c.Tended)
    (hP : ∀ i ∈ c.intents, P i.chapterId → c.HasActivePlan i.seriesId) : c'.Tended := by
  refine ⟨h.ok, h.plans ▸ ht.phases, fun i' hi' hb => ?_, fun i' hi' ho => ?_⟩
  · obtain ⟨i, hi, rfl | ⟨-, id, rfl, -⟩⟩ := Table.forall₂_right h.rows hi'
    · exact ht.tiers i' hi hb
    · cases hb
  · have hplan : ∀ u, c'.plan? u = c.plan? u := by
      intro u
      rw [plan?, h.plans, plan?]
    obtain ⟨i, hi, rfl | ⟨hp, id, rfl, ha⟩⟩ := Table.forall₂_right h.rows hi'
    · obtain ⟨p, hp, hh⟩ := ht.held i' hi ho
      refine ⟨p, (hplan _).trans hp, hh.mono h.queue.rows fun ha => ?_⟩
      rw [h.library.hasActiveArtifact]
      exact ha
    · obtain ⟨p, hget, hactive⟩ := hP i hi hp
      exact ⟨p, (hplan _).trans hget, hactive, fun _ hb => (by cases hb),
        fun _ _ => ⟨id, rfl, .inl ha.isSome⟩⟩

/-- Artifacts have distinct ids of the sequence. -/
structure ArtifactKeys (c : Catalog) : Prop where
  keyed : Table.Keyed ChapterArtifact.id c.artifacts
  below : ∀ a ∈ c.artifacts, a.id < c.nextArtifact

theorem SameLibrary.artifactKeys (h : SameLibrary c c') (hc : c.ArtifactKeys) :
    c'.ArtifactKeys := by
  refine ⟨h.artifacts ▸ hc.keyed, ?_⟩
  rw [h.artifacts, h.nextArtifact]
  exact hc.below

theorem hasActiveArtifact_iff {chapterId : Nat} : c.hasActiveArtifact chapterId = true ↔
    ∃ a ∈ c.artifacts, a.chapterId = chapterId ∧ a.state = .active := by
  simp [hasActiveArtifact]

theorem ArtifactKeys.add (h : c.ArtifactKeys) (args : ActivateArgs) (state : ArtifactState) :
    (c.addArtifact args state).ArtifactKeys := by
  refine ⟨Table.keyed_append.mpr ⟨h.keyed, fun a ha => (h.below a ha).ne⟩, fun a ha => ?_⟩
  rcases List.mem_append.mp ha with ha | ha
  · exact (h.below a ha).trans (Nat.lt_succ_self _)
  · rw [List.mem_singleton.mp ha]
    exact Nat.lt_succ_self _

theorem ArtifactKeys.put (h : c.ArtifactKeys) {x y : ChapterArtifact} (hx : x ∈ c.artifacts)
    (hid : y.id = x.id) : (c.putArtifact y).ArtifactKeys := by
  refine ⟨Table.keyed_put.mpr h.keyed, fun a ha => ?_⟩
  rcases Table.mem_put.mp ha with ⟨rfl, -⟩ | ⟨ha, -⟩
  · exact hid ▸ h.below x hx
  · exact h.below a ha

/-- A chapter keeps an active artifact when one is replaced. -/
theorem ArtifactKeys.activate (h : c.ArtifactKeys) {args : ActivateArgs} (hr : args.replace = true)
    (now : Time) : (c.activate args now).1.ArtifactKeys ∧ ∀ chapterId,
      c.hasActiveArtifact chapterId = true →
        (c.activate args now).1.hasActiveArtifact chapterId = true := by
  have hlib := activate_library (c := c) hr now
  generalize (c.activate args now).1 = c' at *
  cases hold : c.activeArtifact args.chapterId with
  | none =>
    rw [hold] at hlib
    refine ⟨hlib.artifactKeys (h.add args .active), fun k ha => ?_⟩
    · rw [hlib.hasActiveArtifact]
      obtain ⟨a, hm, hch⟩ := hasActiveArtifact_iff.mp ha
      exact hasActiveArtifact_iff.mpr ⟨a, List.mem_append_left _ hm, hch⟩
  | some old =>
    rw [hold] at hlib
    obtain ⟨hom, hoch, hos⟩ := activeArtifact_some hold
    dsimp only at hlib
    by_cases hsame : old.blobChecksum = args.blob.checksum
    · rw [if_pos hsame] at hlib
      refine ⟨hlib.artifactKeys (h.put hom rfl), fun k ha => ?_⟩
      · rw [hlib.hasActiveArtifact]
        obtain ⟨a, hm, hch, hact⟩ := hasActiveArtifact_iff.mp ha
        by_cases he : a.id = old.id
        · obtain rfl := h.keyed.eq hm hom he
          exact hasActiveArtifact_iff.mpr ⟨refreshed args a, Table.mem_put_self hom rfl, hch, hact⟩
        · exact hasActiveArtifact_iff.mpr ⟨a, Table.mem_put_of_ne hm he, hch, hact⟩
    · rw [if_neg hsame] at hlib
      have hk : (c.putArtifact (deactivated now old)).ArtifactKeys := h.put hom rfl
      refine ⟨hlib.artifactKeys (hk.add args .active), fun k ha => ?_⟩
      · rw [hlib.hasActiveArtifact]
        obtain ⟨a, hm, hch, hact⟩ := hasActiveArtifact_iff.mp ha
        by_cases he : a.id = old.id
        · -- the new artifact takes its place
          obtain rfl := h.keyed.eq hm hom he
          refine hasActiveArtifact_iff.mpr ⟨_, List.mem_append_right _ (List.mem_singleton_self _),
            ?_, rfl⟩
          exact hoch.symm.trans hch
        · refine hasActiveArtifact_iff.mpr ⟨a, List.mem_append_left _ ?_, hch, hact⟩
          exact Table.mem_put_of_ne hm he

end

end Catalog

end MangaManager
