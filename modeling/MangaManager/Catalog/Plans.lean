import MangaManager.Catalog.Tables
import MangaManager.Lib.Raise

/-!
# Download plans

`DownloadPlanCoordinator`: a tracked series has a plan, and each of its chapters an
intent that follows the job which downloads it. The first and the last two chapters
are downloaded first (`priority`), the others wait (`blocked`) until these are done
(`backfill`), and chapters that appear after the plan are due at once (`current`).

The methods run in a transaction of their caller, which a `QueueError` rolls back.
-/

namespace MangaManager

open Lib

/-- Provider preference, then quality within the provider. -/
def ArtifactRank := Nat ×ₗ Int

-- spelled out, as for `ReleaseRank`
instance : LinearOrder ArtifactRank :=
  @Prod.Lex.instLinearOrder Nat Int Nat.instLinearOrder Int.instLinearOrder

/-- The first two entries of `_release_preference`, of a source and a rank. -/
def sourceRank (source : String) (qualityRank : Int) : ArtifactRank :=
  toLex (sourcePriority source, qualityRank)

def ChapterArtifact.rank (a : ChapterArtifact) : ArtifactRank := sourceRank a.source a.qualityRank

namespace IntentState

/-- The states that neither the phase nor the end of a plan waits for. -/
def isFinished : IntentState → Bool
  | satisfied | attention | cancelled => true
  | blocked | pending | queued => false

end IntentState

/-- `ORDER BY sort_number ASC NULLS LAST, id`. -/
def CatalogChapter.before (a b : CatalogChapter) : Bool :=
  match a.sortNumber, b.sortNumber with
  | some x, some y => x < y || (x == y && a.id ≤ b.id)
  | some _, none => true
  | none, some _ => false
  | none, none => a.id ≤ b.id

namespace IntentTier

/-- The priority of the download. -/
def jobPriority : IntentTier → Int
  | current => 5
  | priority => 20
  | backfill => 100

/-- The first entry of `_intent_order`. -/
def order : IntentTier → Nat
  | current => 0
  | priority => 1
  | backfill => 2

end IntentTier

namespace Catalog

variable (c : Catalog) (now : Time)

/-- `_best_release`. -/
def bestRelease (chapterId : Nat) : Option CatalogChapterRelease :=
  ((c.releases.map (·.toCatalogChapterRelease)).filter fun r =>
    r.chapterId == chapterId && r.downloadableAfter.all (· ≤ now)).argmax releasePreference

/-! ## Chapters and intents -/

def chaptersOf (seriesId : Nat) : List CatalogChapter :=
  (c.chapters.filter (·.seriesId == seriesId)).insertionSort fun a b => a.before b = true

/-- `chapters[:2] + chapters[-2:]`. -/
def priorityIds (seriesId : Nat) : List Nat :=
  let chapters := c.chaptersOf seriesId
  (chapters.take 2 ++ chapters.drop (chapters.length - 2)).map (·.id)

/-- The tier and the state of the intent of a chapter that has none. -/
def newIntentState (plan : SeriesDownloadPlan) (chapter : CatalogChapter) :
    IntentTier × IntentState :=
  if plan.createdAt < chapter.createdAt then (.current, .pending)
  else if chapter.id ∈ c.priorityIds plan.seriesId ∧ plan.phase = .priority then
    (.priority, .pending)
  else (.backfill, if plan.phase = .backfill then .pending else .blocked)

def addIntent (plan : SeriesDownloadPlan) (chapter : CatalogChapter) : Catalog :=
  let (tier, state) := c.newIntentState plan chapter
  { c with
    intents := c.intents ++
      [{ id := c.nextIntent, seriesId := plan.seriesId, chapterId := chapter.id, tier := tier
         state := if c.hasActiveArtifact chapter.id then .satisfied else state
         jobId := none, updatedAt := now }]
    nextIntent := c.nextIntent + 1 }

/-- `_sync_chapters`. -/
def syncChapters (plan : SeriesDownloadPlan) : Catalog :=
  let existing := (c.intentsOf plan.seriesId).map (·.chapterId)
  ((c.chaptersOf plan.seriesId).filter (·.id ∉ existing)).foldl
    (fun c chapter => c.addIntent now plan chapter) c

/-! ## Reconciliation -/

/-- The intent after its chapter and its job. -/
def followJob (i : IntentRow) : IntentRow :=
  if c.hasActiveArtifact i.chapterId then { i with state := .satisfied, updatedAt := now }
  else match i.jobId with
    | none => i
    | some jobId => match c.queue.job? jobId with
      | none =>
        { i with
          jobId := none
          state := if i.state = .queued then
              if i.tier ≠ .backfill then .pending else .blocked
            else i.state }
      | some job =>
        { i with
          state := match job.status with
            | .succeeded => .satisfied
            | .failed | .cancelled => .attention
            | .queued | .leased | .retryWait => .queued }

/-- Rewrites the intents of a series. -/
def mapIntents (seriesId : Nat) (f : IntentRow → IntentRow) : Catalog :=
  { c with intents := c.intents.map fun i => if i.seriesId = seriesId then f i else i }

/-- The phase after the priority chapters are done. -/
def nextPhase (plan : SeriesDownloadPlan) : PlanPhase :=
  if plan.phase = .priority ∧ ((c.intentsOf plan.seriesId).filter (·.tier == .priority)).all
      (·.state.isFinished) then .backfill
  else plan.phase

/-- A backfill intent is unblocked as the priority phase ends. -/
def unblock (plan : SeriesDownloadPlan) (phase : PlanPhase) (i : IntentRow) : IntentRow :=
  if plan.phase = .priority ∧ phase = .backfill ∧ i.tier = .backfill ∧ i.state = .blocked then
    { i with state := .pending }
  else i

/-- The request for the download of a chapter. -/
def downloadRequest (seriesId : Nat) (i : IntentRow) (release : CatalogChapterRelease) :
    EnqueueArgs :=
  { kind := .chapterDownload, dedupeKey := "chapter:" ++ toString i.chapterId
    payload := .chapterDownload { chapterReleaseId := release.id }
    priority := i.tier.jobPriority, source := release.source, seriesKey := toString seriesId
    maxAttempts := 3 }

/-- One intent of `_enqueue_ready`, with the number of backfill chapters under way. -/
def enqueueIntent (window seriesId : Nat) (acc : Catalog × Nat) (i : IntentRow) :
    Except QueueError (Catalog × Nat) :=
  let (c, activeBackfill) := acc
  if i.state ≠ .pending then .ok acc
  else if i.tier = .backfill ∧ window ≤ activeBackfill then .ok acc
  else match c.bestRelease now i.chapterId with
    | none => .ok (c.putIntent { i with state := .attention }, activeBackfill)
    | some release =>
      match c.queue.enqueue (downloadRequest seriesId i release) now with
      | .error e => .error e
      | .ok (queue, jobId, _) =>
        .ok ({ c with queue := queue }.putIntent
            { i with jobId := some jobId, state := .queued, updatedAt := now },
          if i.tier = .backfill then activeBackfill + 1 else activeBackfill)

/-- `_enqueue_ready`. -/
def enqueueReady (window seriesId : Nat) : Except QueueError Catalog :=
  let intents := c.intentsOf seriesId
  let activeBackfill := intents.countP fun i => i.tier == .backfill && i.state == .queued
  let order := intents.insertionSort fun a b =>
    a.tier.order < b.tier.order ∨ (a.tier.order = b.tier.order ∧ a.id ≤ b.id)
  (order.foldlM (enqueueIntent now window seriesId) (c, activeBackfill)).map Prod.fst

/-- The plan with its counters, complete when nothing is left to do. -/
def tally (plan : SeriesDownloadPlan) (phase : PlanPhase) : SeriesDownloadPlan :=
  let intents := c.intentsOf plan.seriesId
  let done := intents ≠ [] ∧ intents.all (·.state.isFinished)
  { plan with
    status := if done then .complete else plan.status
    phase := if done then .complete else phase
    totalChapters := intents.length
    satisfiedChapters := intents.countP (·.state == .satisfied)
    attentionChapters := intents.countP (·.state == .attention)
    updatedAt := now }

/-- `reconcile` of an active plan. -/
def advance (window : Nat) (plan : SeriesDownloadPlan) : Except QueueError Catalog :=
  let c := c.syncChapters now plan
  let c := c.mapIntents plan.seriesId (c.followJob now)
  let phase := c.nextPhase plan
  let c := c.mapIntents plan.seriesId (unblock plan phase)
  (c.enqueueReady now window plan.seriesId).map fun c => c.putPlan (c.tally now plan phase)

/-- `reconcile`; the plan it returns is the row. -/
def reconcile (window seriesId : Nat) : Except QueueError Catalog :=
  match c.plan? seriesId with
  | none => .ok c
  | some plan => if plan.status ≠ .active then .ok c else c.advance now window plan

/-- `reconcile_active`. -/
def reconcileActive (window limit : Nat) : Except QueueError Catalog :=
  let active := (c.plans.filter (·.status == .active)).insertionSort fun a b =>
    a.updatedAt < b.updatedAt ∨ (a.updatedAt = b.updatedAt ∧ a.seriesId ≤ b.seriesId)
  ((active.take limit).map (·.seriesId)).foldlM (fun c id => c.reconcile now window id) c

/-! ## Tracking -/

/-- The request for the chapters of a title that has none. -/
def acquisitionRequest (seriesId : Nat) (identity : CatalogSourceSeries) : EnqueueArgs :=
  let workflowKey := "acquire:" ++ toString seriesId
  { kind := .sourceRefresh, dedupeKey := "refresh:" ++ identity.source ++ ":" ++ identity.sourceId
    payload := .sourceRefresh
      { source := identity.source, sourceId := identity.sourceId
        title := if identity.title = "" then "Unknown manga" else identity.title
        url := identity.url, description := identity.description, coverUrl := identity.coverUrl
        popularity := identity.popularity, metadata := identity.metadata
        workflowKey := workflowKey, observationVersion := identity.observationVersion
        acquisitionCritical := true }
    priority := 10, maxAttempts := 4, source := identity.source, seriesKey := toString seriesId
    workflowKey := workflowKey, groupKey := workflowKey, coalesce := true }

/-- `enqueue_acquisition_refreshes`, and the number of jobs created. -/
def enqueueAcquisitionRefreshes (seriesId : Nat) : Except QueueError (Catalog × Nat) :=
  if c.chapters.any (·.seriesId == seriesId) then .ok (c, 0)
  else
    let identities := (c.identities.filter (·.seriesId == seriesId)).insertionSort (·.id ≤ ·.id)
    (identities.filter fun i => i.sourceId != "" && i.url != "").foldlM
      (fun (c, created) identity =>
        (c.queue.enqueue (acquisitionRequest seriesId identity) now).map fun (queue, _, new) =>
          ({ c with queue := queue }, if new then created + 1 else created))
      (c, 0)

/-- The plan of the series, inserted when it is missing. -/
def ensurePlan (seriesId : Nat) : Catalog × SeriesDownloadPlan :=
  match c.plan? seriesId with
  | some plan => (c, plan)
  | none =>
    let plan := { seriesId := seriesId, createdAt := now, updatedAt := now }
    ({ c with plans := c.plans ++ [plan] }, plan)

/-- `track`. -/
def track (window seriesId : Nat) : Except QueueError Catalog :=
  let (c, plan) := c.ensurePlan now seriesId
  let plan := { plan with
    status := .active
    phase := if plan.phase = .complete ∨ plan.phase = .cancelled then .priority else plan.phase }
  let c := (c.putPlan plan).syncChapters now plan
  match c.enqueueAcquisitionRefreshes now seriesId with
  | .error e => .error e
  | .ok (c, _) => c.reconcile now window seriesId

/-- One intent of `untrack`: a waiting job is cancelled with it. -/
def cancelIntent (i : IntentRow) : Catalog :=
  let queue := match i.jobId with
    | none => c.queue
    | some jobId => match c.queue.selectWaiting jobId with
      | none => c.queue
      | some job => (c.queue.cancel job.id "series was untracked" now).1
  { c with queue := queue }.putIntent { i with state := .cancelled, updatedAt := now }

/-- `untrack`. -/
def untrack (seriesId : Nat) : Catalog :=
  let c := match c.plan? seriesId with
    | some plan =>
      c.putPlan { plan with status := .cancelled, phase := .cancelled, updatedAt := now }
    | none => c
  ((c.intentsOf seriesId).filter (!·.state.isFinished)).foldl (fun c i => c.cancelIntent now i) c

/-! ## Other providers -/

/-- `enqueue_preferred_upgrades` for one artifact. -/
def upgradeArtifact (acc : Catalog × Nat) (artifact : ChapterArtifact) :
    Except QueueError (Catalog × Nat) :=
  let (c, created) := acc
  match c.bestRelease now artifact.chapterId,
      c.chapters.find? (·.id == artifact.chapterId) with
  | some release, some chapter =>
    if sourceRank release.source release.qualityRank ≤ artifact.rank then .ok acc
    else
      (c.queue.enqueue
        { kind := .chapterDownload
          dedupeKey :=
            "upgrade:" ++ toString artifact.chapterId ++ ":" ++ toString release.id
          payload := .chapterDownload { chapterReleaseId := release.id, preferredOnly := true }
          priority := 250, source := release.source, seriesKey := toString chapter.seriesId
          maxAttempts := 3 } now).map fun (queue, _, new) =>
        ({ c with queue := queue }, if new then created + 1 else created)
  | _, _ => .ok acc

/-- `enqueue_preferred_upgrades`, and the number of jobs created. -/
def enqueuePreferredUpgrades (seriesIds : List Nat) : Except QueueError (Catalog × Nat) :=
  let chapters := (c.chapters.filter (·.seriesId ∈ seriesIds)).map (·.id)
  (c.artifacts.filter fun a => a.chapterId ∈ chapters && a.state == .active &&
    (a.provenance == "fallback" || a.source != "asura")).foldlM (upgradeArtifact now) (c, 0)

/-- The job waits for its provider. -/
def holdJob (job : WorkJob) (release : CatalogChapterRelease) (retryAfter : Time) : Catalog :=
  let d := c.downloads.postpone release (some retryAfter)
  c.withDownloads
    { d with queue := d.queue.putJob { job with status := .retryWait, availableAt := retryAfter } }

/-- `bypass_cooling_source` for one job, with the number of jobs moved. -/
def bypassJob (source : String) (retryAfter : Time) (acc : Catalog × Nat) (job : WorkJob) :
    Except QueueError (Catalog × Nat) :=
  let (c, rerouted) := acc
  match job.payload with
  | .chapterDownload payload =>
    match c.downloads.release? payload.chapterReleaseId with
    | none => .ok acc
    | some failed =>
      let attempted := Downloads.attempted payload source
      if payload.preferredOnly then .ok (c.holdJob job failed retryAfter, rerouted)
      else match fallbackRelease c.downloads.releases failed.chapterId failed.id attempted now with
        | none => .ok (c.holdJob job failed retryAfter, rerouted)
        | some alternative =>
          let replacement : JobPayload := .chapterDownload
            { chapterReleaseId := alternative.id
              attemptedSources := attempted.insertionSort (· ≤ ·) }
          (c.queue.rerouteWaiting job.id replacement alternative.source now
            ("bypassed while " ++ source ++ " is cooling down") now).map fun (queue, _) =>
            let d := { c.downloads with queue := queue }.requeueIntent failed.chapterId job.id now
            (c.withDownloads (d.addAttempt
              { chapterId := alternative.chapterId, chapterReleaseId := alternative.id
                jobId := job.id, source := alternative.source, outcome := .fallbackQueued
                retryAfter := some retryAfter, details := .bypasses failed.id source }),
              rerouted + 1)
  | _ => .ok acc

/-- `bypass_cooling_source`, and the number of jobs moved. -/
def bypassCoolingSource (source : String) (retryAfter : Time) :
    Except QueueError (Catalog × Nat) :=
  (c.queue.jobs.filter fun j => j.kind == .chapterDownload && j.source == source &&
    j.status.isWaiting).foldlM (bypassJob now source retryAfter) (c, 0)

/-! ## What the coordinator leaves alone -/

/-- The providers' titles, the chapters and their artifacts are the same. -/
structure SameLibrary (c c' : Catalog) : Prop where
  identities : c'.identities = c.identities
  chapters : c'.chapters = c.chapters
  artifacts : c'.artifacts = c.artifacts
  nextArtifact : c'.nextArtifact = c.nextArtifact

end Catalog

namespace Catalog.SameLibrary

variable {c c₁ c₂ : Catalog}

theorem refl : SameLibrary c c := ⟨rfl, rfl, rfl, rfl⟩

theorem trans (h₁ : SameLibrary c c₁) (h₂ : SameLibrary c₁ c₂) : SameLibrary c c₂ :=
  ⟨h₂.identities.trans h₁.identities, h₂.chapters.trans h₁.chapters,
    h₂.artifacts.trans h₁.artifacts, h₂.nextArtifact.trans h₁.nextArtifact⟩

theorem activeArtifact (h : SameLibrary c c₁) (chapterId : Nat) :
    c₁.activeArtifact chapterId = c.activeArtifact chapterId := by
  rw [Catalog.activeArtifact, h.artifacts, Catalog.activeArtifact]

theorem hasActiveArtifact (h : SameLibrary c c₁) (chapterId : Nat) :
    c₁.hasActiveArtifact chapterId = c.hasActiveArtifact chapterId := by
  rw [Catalog.hasActiveArtifact, h.artifacts, Catalog.hasActiveArtifact]

end Catalog.SameLibrary

namespace Catalog

section
variable {c c' : Catalog} {now : Time} {window seriesId n n' : Nat} {plan : SeriesDownloadPlan}

theorem syncChapters_library : SameLibrary c (c.syncChapters now plan) := by
  unfold syncChapters
  refine List.foldlRecOn (motive := fun c' => SameLibrary c c') _ _ .refl fun c' h ch _ => ?_
  exact h.trans ⟨rfl, rfl, rfl, rfl⟩

theorem mapIntents_library {f : IntentRow → IntentRow} :
    SameLibrary c (c.mapIntents seriesId f) := ⟨rfl, rfl, rfl, rfl⟩

theorem enqueueIntent_library {i : IntentRow}
    (h : enqueueIntent now window seriesId (c, n) i = .ok (c', n')) : SameLibrary c c' := by
  unfold enqueueIntent at h
  dsimp only at h
  split at h
  · cases h
    exact .refl
  · split at h
    · cases h
      exact .refl
    · split at h
      · cases h
        exact ⟨rfl, rfl, rfl, rfl⟩
      · split at h
        · cases h
        · cases h
          exact ⟨rfl, rfl, rfl, rfl⟩

theorem enqueueReady_library (h : c.enqueueReady now window seriesId = .ok c') :
    SameLibrary c c' := by
  unfold enqueueReady at h
  obtain ⟨⟨c₁, n⟩, hl, rfl⟩ := map_eq_ok.mp h
  refine foldlM_inv (P := fun acc => SameLibrary c acc.1) hl .refl ?_
  rintro ⟨c₁, n₁⟩ i ⟨c₂, n₂⟩ - hc hi
  exact hc.trans (enqueueIntent_library hi)

theorem advance_library (h : c.advance now window plan = .ok c') : SameLibrary c c' := by
  unfold advance at h
  obtain ⟨c₁, hr, rfl⟩ := map_eq_ok.mp h
  exact ((syncChapters_library.trans mapIntents_library).trans mapIntents_library).trans
    ((enqueueReady_library hr).trans ⟨rfl, rfl, rfl, rfl⟩)

theorem reconcile_library (h : c.reconcile now window seriesId = .ok c') : SameLibrary c c' := by
  unfold reconcile at h
  split at h
  · cases h
    exact .refl
  · split at h
    · cases h
      exact .refl
    · exact advance_library h

theorem enqueueAcquisitionRefreshes_library
    (h : c.enqueueAcquisitionRefreshes now seriesId = .ok (c', n)) : SameLibrary c c' := by
  unfold enqueueAcquisitionRefreshes at h
  split at h
  · cases h
    exact .refl
  · refine foldlM_inv (P := fun acc => SameLibrary c acc.1) h .refl ?_
    rintro ⟨c₁, n₁⟩ i ⟨c₂, n₂⟩ - hc hi
    obtain ⟨⟨queue, id, new⟩, -, he⟩ := map_eq_ok.mp hi
    cases he
    exact hc.trans ⟨rfl, rfl, rfl, rfl⟩

theorem track_library (h : c.track now window seriesId = .ok c') : SameLibrary c c' := by
  unfold track at h
  have hplan : SameLibrary c (c.ensurePlan now seriesId).1 := by
    unfold ensurePlan
    split
    · exact .refl
    · exact ⟨rfl, rfl, rfl, rfl⟩
  have hsync : ∀ (c₁ : Catalog) plan, SameLibrary c₁ ((c₁.putPlan plan).syncChapters now plan) := by
    intro c₁ plan
    have hput : SameLibrary c₁ (c₁.putPlan plan) := ⟨rfl, rfl, rfl, rfl⟩
    exact hput.trans syncChapters_library
  rcases c.ensurePlan now seriesId with ⟨c₁, plan⟩
  dsimp only at h hplan
  split at h
  · cases h
  rename_i c₂ n₂ hrefresh
  exact (hplan.trans (hsync _ _)).trans
    ((enqueueAcquisitionRefreshes_library hrefresh).trans (reconcile_library h))

theorem untrack_library : SameLibrary c (c.untrack now seriesId) := by
  unfold untrack
  dsimp only
  refine List.foldlRecOn (motive := fun c' => SameLibrary c c') _ _ ?_ fun c' h i _ => ?_
  · split
    · exact ⟨rfl, rfl, rfl, rfl⟩
    · exact .refl
  · exact h.trans ⟨rfl, rfl, rfl, rfl⟩

theorem enqueuePreferredUpgrades_library {seriesIds : List Nat}
    (h : c.enqueuePreferredUpgrades now seriesIds = .ok (c', n)) : SameLibrary c c' := by
  unfold enqueuePreferredUpgrades at h
  refine foldlM_inv (P := fun acc => SameLibrary c acc.1) h .refl ?_
  rintro ⟨c₁, n₁⟩ a ⟨c₂, n₂⟩ - hc ha
  unfold upgradeArtifact at ha
  dsimp only at ha
  split at ha
  · split at ha
    · cases ha
      exact hc
    · obtain ⟨⟨queue, id, new⟩, -, he⟩ := map_eq_ok.mp ha
      cases he
      exact hc.trans ⟨rfl, rfl, rfl, rfl⟩
  · cases ha
    exact hc

theorem bypassCoolingSource_library {source : String} {retryAfter : Time}
    (h : c.bypassCoolingSource now source retryAfter = .ok (c', n)) : SameLibrary c c' := by
  unfold bypassCoolingSource at h
  refine foldlM_inv (P := fun acc => SameLibrary c acc.1) h .refl ?_
  rintro ⟨c₁, n₁⟩ job ⟨c₂, n₂⟩ - hc hj
  unfold bypassJob at hj
  dsimp only at hj
  split at hj
  · split at hj
    · cases hj
      exact hc
    · split at hj
      · cases hj
        exact hc.trans ⟨rfl, rfl, rfl, rfl⟩
      · split at hj
        · cases hj
          exact hc.trans ⟨rfl, rfl, rfl, rfl⟩
        · obtain ⟨⟨queue, moved⟩, -, he⟩ := map_eq_ok.mp hj
          cases he
          exact hc.trans ⟨rfl, rfl, rfl, rfl⟩
  · cases hj
    exact hc

end

end Catalog

end MangaManager
