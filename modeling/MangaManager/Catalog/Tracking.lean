import MangaManager.Catalog.Artifacts
import MangaManager.Catalog.Requeue

/-!
# What tracking a series does to its intents

`track` makes the plan active, adds the missing intents and reconciles
(`Prepared`, then `Advanced`); `untrack` cancels the plan, its open intents and the
jobs of these that still wait (`untrack_spec`). The other calls on the catalog
leave the plans, and the intents but for a job that is taken up again.
-/

namespace MangaManager

open Lib

theorem IntentState.isFinished_eq_false {s : IntentState} :
    s.isFinished = false ↔ s = .pending ∨ s = .queued ∨ s = .blocked := by
  cases s <;> simp [isFinished]

namespace Catalog

section
variable {c c' : Catalog} {now : Time} {plan : SeriesDownloadPlan} {window seriesId n : Nat}
  {i : IntentRow}

/-! ## `track` -/

/-- The tables in which `track` reconciles `plan`. -/
structure Prepared (plan : SeriesDownloadPlan) (c c' : Catalog) : Prop where
  library : SameLibrary c c'
  releases : c'.releases = c.releases
  ok : c'.PlansOk
  grows : c.queue.Grows c'.queue
  queue : (∃ chapter ∈ c.chapters, chapter.seriesId = plan.seriesId) → c'.queue = c.queue
  kept : ∀ i ∈ c.intents, i ∈ c'.intents
  fresh : ∀ i ∈ c'.intents, i ∈ c.intents ∨ c.Fresh plan i
  row : c'.plan? plan.seriesId = some plan
  others : ∀ id, id ≠ plan.seriesId → c'.plan? id = c.plan? id

theorem ensurePlan_spec (now : Time) (seriesId : Nat) (hc : c.PlansOk) :
    (c.ensurePlan now seriesId).2.seriesId = seriesId ∧
      (∃ plans, (c.ensurePlan now seriesId).1 = { c with plans := plans }) ∧
      (c.ensurePlan now seriesId).1.PlansOk ∧
      (c.ensurePlan now seriesId).2 ∈ (c.ensurePlan now seriesId).1.plans ∧
      ∀ id, id ≠ seriesId → (c.ensurePlan now seriesId).1.plan? id = c.plan? id := by
  unfold ensurePlan
  cases hp : c.plan? seriesId with
  | some plan => exact ⟨Table.get_key hp, ⟨_, rfl⟩, hc, Table.get_mem hp, fun _ _ => rfl⟩
  | none =>
    have hnew : ∀ p ∈ c.plans, p.seriesId ≠ seriesId := Table.get_eq_none.mp hp
    refine ⟨rfl, ⟨_, rfl⟩, ⟨hc.queue, hc.intents, hc.below, ?_⟩, ?_, fun id hne => ?_⟩
    · exact Table.keyed_append.mpr ⟨hc.plans, hnew⟩
    · exact List.mem_append_right _ (List.mem_singleton_self _)
    · unfold plan?
      dsimp only
      rw [Table.get_append hnew, if_neg hne]

/-- Acquisition refreshes only add jobs. -/
theorem enqueueAcquisitionRefreshes_spec (hc : c.PlansOk)
    (h : c.enqueueAcquisitionRefreshes now seriesId = .ok (c', n)) :
    ∃ q, c' = { c with queue := q } ∧ c.queue.Grows q ∧ q.RowsOk ∧
      ((∃ chapter ∈ c.chapters, chapter.seriesId = seriesId) → q = c.queue) := by
  unfold enqueueAcquisitionRefreshes at h
  split at h
  · cases h
    exact ⟨_, rfl, .refl, hc.queue, fun _ => rfl⟩
  · rename_i hany
    have hno : ¬ ∃ chapter ∈ c.chapters, chapter.seriesId = seriesId := by
      simpa using hany
    refine (foldlM_inv (P := fun acc => ∃ q, acc.1 = { c with queue := q } ∧ c.queue.Grows q ∧
      q.RowsOk) h ⟨_, rfl, .refl, hc.queue⟩ ?_).imp
      fun q ⟨he, hg, hok⟩ => ⟨he, hg, hok, fun h => absurd h hno⟩
    rintro ⟨c₁, n₁⟩ identity ⟨c₂, n₂⟩ - ⟨q, rfl, hg, hok⟩ he
    obtain ⟨⟨q', id, created⟩, hq, he⟩ := map_eq_ok.mp he
    cases he
    obtain ⟨hg', hok', -⟩ := Queue.enqueue_grows hok hq
    exact ⟨q', rfl, hg.trans hg', hok'⟩

theorem enqueuePreferredUpgrades_spec {seriesIds : List Nat} (hc : c.PlansOk)
    (h : c.enqueuePreferredUpgrades now seriesIds = .ok (c', n)) :
    ∃ q, c' = { c with queue := q } ∧ c.queue.Grows q ∧ q.RowsOk := by
  unfold enqueuePreferredUpgrades at h
  refine foldlM_inv (P := fun acc => ∃ q, acc.1 = { c with queue := q } ∧ c.queue.Grows q ∧
    q.RowsOk) h ⟨_, rfl, .refl, hc.queue⟩ ?_
  rintro ⟨c₁, n₁⟩ artifact ⟨c₂, n₂⟩ - ⟨q, rfl, hg, hok⟩ he
  unfold upgradeArtifact at he
  dsimp only at he
  split at he
  · split at he
    · cases he
      exact ⟨q, rfl, hg, hok⟩
    · obtain ⟨⟨q', id, created⟩, hq, he⟩ := map_eq_ok.mp he
      cases he
      obtain ⟨hg', hok', -⟩ := Queue.enqueue_grows hok hq
      exact ⟨q', rfl, hg.trans hg', hok'⟩
  · cases he
    exact ⟨q, rfl, hg, hok⟩

/-- No artifact makes `enqueue_preferred_upgrades` raise. -/
theorem upgradeArtifact_ok (acc : Catalog × Nat) (artifact : ChapterArtifact) :
    ∃ acc', upgradeArtifact now acc artifact = .ok acc' := by
  unfold upgradeArtifact
  dsimp only
  split
  · rename_i release chapter _ _
    split
    · exact ⟨_, rfl⟩
    · have hkey : ∀ ch ∈ ("upgrade:" ++ toString artifact.chapterId ++ ":" ++
          toString release.id).toList, isSpace ch = false := by
        intro ch hch
        simp only [String.toList_append, List.mem_append] at hch
        have hall : "upgrade:".toList.all (fun c => !isSpace c) = true := by decide
        have hcolon : ":".toList.all (fun c => !isSpace c) = true := by decide
        rcases hch with ((hch | hch) | hch) | hch
        · exact (Bool.not_eq_true' _).mp (List.all_eq_true.mp hall ch hch)
        · exact isSpace_toString _ ch hch
        · exact (Bool.not_eq_true' _).mp (List.all_eq_true.mp hcolon ch hch)
        · exact isSpace_toString _ ch hch
      have hp : (JobPayload.chapterDownload
          { chapterReleaseId := release.id, preferredOnly := true }).validate = true := by
        simp [JobPayload.validate, release.id_pos]
      obtain ⟨q, id, created, hq⟩ := Queue.enqueue_ok acc.1.queue now
        (checkEnqueue_download (a := { kind := .chapterDownload
                                       dedupeKey := "upgrade:" ++ toString artifact.chapterId ++
                                         ":" ++ toString release.id
                                       payload := .chapterDownload
                                         { chapterReleaseId := release.id, preferredOnly := true }
                                       priority := 250, source := release.source
                                       seriesKey := toString chapter.seriesId
                                       maxAttempts := 3 })
          rfl rfl hp (show 1 ≤ 3 by omega) (by simp) hkey)
      exact ⟨_, map_eq_ok.mpr ⟨_, hq, rfl⟩⟩
  · exact ⟨_, rfl⟩

theorem enqueuePreferredUpgrades_ok (c : Catalog) (now : Time) (seriesIds : List Nat) :
    ∃ r, c.enqueuePreferredUpgrades now seriesIds = .ok r := by
  unfold enqueuePreferredUpgrades
  exact foldlM_ok (P := fun _ => True) trivial
    fun acc a _ _ => (upgradeArtifact_ok acc a).imp fun _ h => ⟨h, trivial⟩

theorem Synced.prepared (hc : c.PlansOk) (hs : Synced plan c c')
    (hrow : c.plan? plan.seriesId = some plan) : Prepared plan c c' := by
  have hok := hs.ok hc
  obtain ⟨⟨_, _, rfl⟩, -, kept, fresh⟩ := hs
  exact ⟨⟨rfl, rfl, rfl, rfl⟩, rfl, hok, .refl, fun _ => rfl, kept, fresh, hrow, fun _ _ => rfl⟩

theorem track_spec (hc : c.PlansOk) (h : c.track now window seriesId = .ok c') :
    ∃ plan c₁, plan.seriesId = seriesId ∧ plan.status = .active ∧
      (plan.phase = .priority ∨ plan.phase = .backfill) ∧
      (∀ p, c.plan? seriesId = some p → p.phase = .priority ∨ p.phase = .backfill →
        plan.phase = p.phase) ∧
      Prepared plan c c₁ ∧ c₁.advance now window plan = .ok c' := by
  obtain ⟨hser, ⟨plans, hens⟩, hok₀, hmem, hoth⟩ := ensurePlan_spec now
    seriesId hc
  have hold : ∀ p, c.plan? seriesId = some p → (c.ensurePlan now seriesId).2 = p := by
    intro p hp
    unfold ensurePlan
    rw [hp]
  unfold track at h
  dsimp only at h
  generalize (c.ensurePlan now seriesId).2 = plan₀ at *
  generalize (c.ensurePlan now seriesId).1 = c₀ at *
  obtain rfl := hens
  generalize hplan : ({ plan₀ with
    status := .active
    phase := if plan₀.phase = .complete ∨ plan₀.phase = .cancelled then .priority
      else plan₀.phase } : SeriesDownloadPlan) = plan at *
  have hid : plan.seriesId = plan₀.seriesId := by rw [← hplan]
  have hactive : plan.status = .active := by rw [← hplan]
  have hphase : plan.phase = .priority ∨ plan.phase = .backfill := by
    rw [← hplan]
    cases hp : plan₀.phase <;> simp
  have hok₁ : (putPlan { c with plans := plans } plan).PlansOk :=
    ⟨hc.queue, hc.intents, hc.below, Table.keyed_put.mpr hok₀.plans⟩
  have hrow : (putPlan { c with plans := plans } plan).plan? plan.seriesId = some plan :=
    Table.get_put_self hmem hid.symm
  have hprep : Prepared plan _ ((putPlan { c with plans := plans } plan).syncChapters now plan) :=
    syncChapters_synced.prepared hok₁ hrow
  generalize hc₂ : (putPlan { c with plans := plans } plan).syncChapters now plan = c₂ at *
  split at h
  · cases h
  · rename_i c₃ m hacq
    obtain ⟨q, rfl, hg, hq, hsame⟩ := enqueueAcquisitionRefreshes_spec hprep.ok hacq
    have hadv : ({ c₂ with queue := q } : Catalog).advance now window plan = .ok c' := by
      unfold reconcile at h
      rw [← hser, ← hid, show ({ c₂ with queue := q } : Catalog).plan? plan.seriesId = some plan
        from hprep.row] at h
      simpa [hactive] using h
    have hok₃ : ({ c₂ with queue := q } : Catalog).PlansOk :=
      ⟨hq, hprep.ok.intents, hprep.ok.below, hprep.ok.plans⟩
    refine ⟨plan, _, hid.trans hser, hactive, hphase, fun p hp hph => ?_, ?_, hadv⟩
    · obtain rfl := hold p hp
      rcases hph with hph | hph <;> simp [← hplan, hph]
    refine ⟨⟨hprep.library.identities, hprep.library.chapters, hprep.library.artifacts,
      hprep.library.nextArtifact⟩,
      hprep.releases, hok₃, hprep.grows.trans hg, fun hch => ?_, hprep.kept, fun i hi => ?_,
      hprep.row, fun id hne => ?_⟩
    · refine (hsame ?_).trans (hprep.queue hch)
      rw [hprep.library.chapters, ← hser, ← hid]
      exact hch
    · exact (hprep.fresh i hi).imp_right fun hf => ⟨hf.series, hf.job, hf.place⟩
    · refine (hprep.others id hne).trans ((?_ : _ = _).trans (hoth id ?_))
      · exact Table.get_put_of_ne hne
      · rw [← hser, ← hid]
        exact hne

/-- `track` does not raise on a series with chapters. -/
theorem track_ok (hc : c.PlansOk) (hch : ∃ chapter ∈ c.chapters, chapter.seriesId = seriesId) :
    ∃ c', c.track now window seriesId = .ok c' := by
  obtain ⟨-, ⟨plans, hens⟩, -, -, -⟩ := ensurePlan_spec now seriesId hc
  unfold track
  dsimp only
  rw [hens]
  generalize ({ (c.ensurePlan now seriesId).2 with
    status := PlanStatus.active, phase := _ } : SeriesDownloadPlan) = plan
  have hs : Synced plan (putPlan { c with plans := plans } plan)
      ((putPlan { c with plans := plans } plan).syncChapters now plan) := syncChapters_synced
  generalize (putPlan { c with plans := plans } plan).syncChapters now plan = c₂ at *
  have hany : c₂.chapters.any (·.seriesId == seriesId) = true := by
    obtain ⟨_, _, rfl⟩ := hs.rest
    obtain ⟨chapter, hm, he⟩ := hch
    exact List.any_eq_true.mpr ⟨chapter, hm, by simpa using he⟩
  unfold enqueueAcquisitionRefreshes
  rw [if_pos hany]
  dsimp only
  unfold reconcile
  split
  · exact ⟨_, rfl⟩
  · split
    · exact ⟨_, rfl⟩
    · exact advance_ok _ _ _ _

/-! ## `untrack` -/

/-- The intent as `untrack` writes it. -/
def cancelled (now : Time) (i : IntentRow) : IntentRow :=
  { i with state := .cancelled, updatedAt := now }

/-- The open intents of a series. -/
def openIntents (c : Catalog) (seriesId : Nat) : List IntentRow :=
  (c.intentsOf seriesId).filter (!·.state.isFinished)

theorem cancelIntent_queue (hq : c.queue.RowsOk) : (c.cancelIntent now i).queue.RowsOk ∧
    c.queue.KeepsRows (c.cancelIntent now i).queue := by
  unfold cancelIntent
  dsimp only
  split
  · exact ⟨hq, fun _ => id⟩
  · split
    · exact ⟨hq, fun _ => id⟩
    · exact Op.apply_rowsOk (.cancel _ "series was untracked") now hq

/-- What the loop of `untrack` leaves. -/
theorem foldl_cancelIntent (now : Time) (l : List IntentRow) (hq : c.queue.RowsOk) :
    let c' := l.foldl (fun c i => c.cancelIntent now i) c
    c'.intents = l.foldl (fun t i => Table.put (fun i : IntentRow => i.id) t (cancelled now i))
        c.intents ∧
      c'.plans = c.plans ∧ c'.nextIntent = c.nextIntent ∧ SameLibrary c c' ∧
      c'.releases = c.releases ∧ c'.queue.RowsOk ∧ c.queue.KeepsRows c'.queue := by
  induction l generalizing c with
  | nil => exact ⟨rfl, rfl, rfl, .refl, rfl, hq, fun _ => id⟩
  | cons i l ih =>
    obtain ⟨hq₁, hr⟩ := @cancelIntent_queue c now i hq
    obtain ⟨h₁, h₂, h₃, h₄, h₅, h₆, h₇⟩ := ih (c := c.cancelIntent now i) hq₁
    exact ⟨h₁, h₂, h₃, ⟨h₄.identities, h₄.chapters, h₄.artifacts, h₄.nextArtifact⟩, h₅, h₆, hr.trans h₇⟩

/-- What `untrack` does. -/
structure Dropped (now : Time) (seriesId : Nat) (c c' : Catalog) : Prop where
  library : SameLibrary c c'
  releases : c'.releases = c.releases
  ok : c'.PlansOk
  queue : c.queue.KeepsRows c'.queue
  row : ∀ plan, c'.plan? seriesId = some plan → plan.status = .cancelled
  others : ∀ id, id ≠ seriesId → c'.plan? id = c.plan? id
  intents : c'.intents =
    c.intents.map fun i => if i ∈ c.openIntents seriesId then cancelled now i else i

/-- The first half of `untrack`: the plan of the series is cancelled. -/
theorem untrack_plan (now : Time) (seriesId : Nat) (hc : c.PlansOk) : ∃ plans,
    c.untrack now seriesId = (openIntents { c with plans := plans } seriesId).foldl
      (fun c i => c.cancelIntent now i) { c with plans := plans } ∧
    ({ c with plans := plans } : Catalog).PlansOk ∧
    (∀ plan, ({ c with plans := plans } : Catalog).plan? seriesId = some plan →
      plan.status = .cancelled) ∧
    ∀ id, id ≠ seriesId → ({ c with plans := plans } : Catalog).plan? id = c.plan? id := by
  unfold untrack
  cases hp : c.plan? seriesId with
  | none =>
    refine ⟨c.plans, rfl, hc, fun plan h => ?_, fun _ _ => rfl⟩
    rw [show ({ c with plans := c.plans } : Catalog).plan? seriesId = none from hp] at h
    cases h
  | some plan =>
    have hkey : plan.seriesId = seriesId := Table.get_key hp
    refine ⟨_, rfl, ⟨hc.queue, hc.intents, hc.below, Table.keyed_put.mpr hc.plans⟩,
      fun plan' h => ?_, fun id hne => Table.get_put_of_ne (hkey ▸ hne)⟩
    subst hkey
    have hself := @Table.get_put_self _ SeriesDownloadPlan.seriesId c.plans
      { plan with status := .cancelled, phase := .cancelled, updatedAt := now } _
      (Table.get_mem hp) rfl
    cases h.symm.trans hself
    rfl

theorem untrack_spec (hc : c.PlansOk) : Dropped now seriesId c (c.untrack now seriesId) := by
  obtain ⟨plans, hun, hok, hrow, hothers⟩ := untrack_plan now seriesId hc
  rw [hun]
  obtain ⟨hi, hp, hn, hlib, hrel, hq, hrows⟩ := foldl_cancelIntent now
    (openIntents { c with plans := plans } seriesId) hok.queue
  have hmap := Table.foldl_put (g := cancelled now) (l := c.openIntents seriesId) hc.intents
    (fun _ => rfl) fun i hi => (mem_intentsOf.mp (List.mem_filter.mp hi).1).1
  have hint := hi.trans hmap
  refine ⟨⟨hlib.identities, hlib.chapters, hlib.artifacts, hlib.nextArtifact⟩, hrel, ⟨hq, ?_, ?_, ?_⟩, hrows,
    fun plan h => hrow plan ?_, fun id hne => (?_ : _ = _).trans (hothers id hne), hint⟩
  · rw [hint]
    unfold Table.Keyed
    rw [List.map_map, List.map_congr_left (g := fun i : IntentRow => i.id) fun i _ => ?_]
    · exact hc.intents
    · dsimp only [Function.comp_apply]
      split <;> rfl
  · rw [hint, hn]
    intro i hm
    obtain ⟨i₀, hm₀, rfl⟩ := List.mem_map.mp hm
    split
    · exact hc.below i₀ hm₀
    · exact hc.below i₀ hm₀
  · rw [hp]
    exact hok.plans
  · rw [← h, plan?, plan?, hp]
  · rw [plan?, plan?, hp]

/-- No intent of the series is open after `untrack`. -/
theorem Dropped.finished (h : Dropped now seriesId c c') (hi : i ∈ c'.intents)
    (hs : i.seriesId = seriesId) : i.state.isFinished = true := by
  rw [h.intents] at hi
  obtain ⟨i₀, hm, rfl⟩ := List.mem_map.mp hi
  by_cases ho : i₀ ∈ c.openIntents seriesId
  · rw [if_pos ho]
    rfl
  · rw [if_neg ho] at hs ⊢
    by_contra hf
    refine ho (List.mem_filter.mpr ⟨mem_intentsOf.mpr ⟨hm, hs⟩, ?_⟩)
    simpa using hf

/-! ## The end of a download -/

/-- `activate` writes the blobs, the artifacts and the projections. -/
theorem activate_rest (a : ActivateArgs) :
    (c.activate a now).1.queue = c.queue ∧ (c.activate a now).1.intents = c.intents ∧
      (c.activate a now).1.nextIntent = c.nextIntent ∧ (c.activate a now).1.plans = c.plans := by
  have hblob : (c.addBlob a).queue = c.queue ∧ (c.addBlob a).intents = c.intents ∧
      (c.addBlob a).nextIntent = c.nextIntent ∧ (c.addBlob a).plans = c.plans := by
    unfold addBlob
    split <;> exact ⟨rfl, rfl, rfl, rfl⟩
  unfold activate
  dsimp only
  split
  · exact hblob
  · split
    · exact hblob
    · split <;> exact hblob

/-- The titles and the chapters are the same. -/
theorem activate_tables (a : ActivateArgs) :
    (c.activate a now).1.identities = c.identities ∧ (c.activate a now).1.chapters = c.chapters := by
  have hblob : (c.addBlob a).identities = c.identities ∧ (c.addBlob a).chapters = c.chapters := by
    unfold addBlob
    split <;> exact ⟨rfl, rfl⟩
  unfold activate
  dsimp only
  split
  · exact hblob
  · split
    · exact hblob
    · split <;> exact hblob

theorem complete_rest (c : Catalog) (d : RunningDownload) (blob : StoredBlob) (projection : String)
    (now : Time) :
    (d.complete c blob projection now).queue = c.queue ∧
      (d.complete c blob projection now).intents = c.intents ∧
      (d.complete c blob projection now).nextIntent = c.nextIntent ∧
      (d.complete c blob projection now).plans = c.plans := activate_rest _

end

end Catalog

end MangaManager
