import MangaManager.Catalog.Tended

/-!
# The rolling window

`_enqueue_ready` keeps at most `rolling_window` backfill chapters under way and gives the
other pending intents a job at once. `reconcile_window`: after a `reconcile` the queued
backfill intents are within the window, or are those that were under way before; none is
left pending while there is room; and each queued intent has an active download.
-/

namespace MangaManager

open Lib

namespace Catalog

/-- The backfill intents of a series that are queued. -/
def backfillQueued (c : Catalog) (seriesId : Nat) : Nat :=
  (c.intentsOf seriesId).countP fun i => i.tier == .backfill && i.state == .queued

/-- The backfill intents of a series whose job is active. -/
def backfillUnderWay (c : Catalog) (seriesId : Nat) : Nat :=
  (c.intentsOf seriesId).countP fun i => i.tier == .backfill &&
    i.jobId.any fun id => (c.queue.job? id).any (·.status.isActive)

/-- Every queued intent of the series names a row of the queue. -/
def QueuedNamed (c : Catalog) (seriesId : Nat) : Prop :=
  ∀ i ∈ c.intentsOf seriesId, i.state = .queued →
    ∃ id, i.jobId = some id ∧ (c.queue.job? id).isSome = true

/-- The job the intent names is a download. -/
def NamesDownload (queue : Queue) (i : IntentRow) : Prop :=
  ∀ id, i.jobId = some id → ∀ job, queue.job? id = some job → job.kind = .chapterDownload

/-- The jobs the intents of the series name are downloads. -/
def JobsDownload (c : Catalog) (seriesId : Nat) : Prop :=
  ∀ i ∈ c.intentsOf seriesId, NamesDownload c.queue i

/-- Every queued intent of the series has an active download. -/
def QueuedDownload (c : Catalog) (seriesId : Nat) : Prop :=
  ∀ i ∈ c.intentsOf seriesId, i.state = .queued →
    ∃ id job, i.jobId = some id ∧ c.queue.job? id = some job ∧ job.status.isActive = true ∧
      job.kind = .chapterDownload

/-- What a `reconcile` of an active plan leaves; an intent that was pending without a release needs
attention, so the ones that are pending still have one. -/
structure Windowed (now : Time) (window : Nat) (plan : SeriesDownloadPlan) (c c' : Catalog) :
    Prop where
  bounded : c'.backfillQueued plan.seriesId ≤ max window (c.backfillUnderWay plan.seriesId)
  filled : ∀ i ∈ c'.intentsOf plan.seriesId, i.tier = .backfill → i.state = .pending →
    window ≤ c'.backfillQueued plan.seriesId
  due : ∀ i ∈ (c.syncChapters now plan).intentsOf plan.seriesId, i.tier ≠ .backfill →
    (c.followJob now i).state = .pending → (c.bestRelease now i.chapterId).isSome = true →
    ∃ i' ∈ c'.intentsOf plan.seriesId, i'.id = i.id ∧ i'.state = .queued
  noneDue : ∀ i ∈ c'.intentsOf plan.seriesId, i.tier ≠ .backfill → i.state ≠ .pending
  jobs : c'.QueuedDownload plan.seriesId
  downloads : c'.JobsDownload plan.seriesId

section
variable {c c' c₁ : Catalog} {now : Time} {plan : SeriesDownloadPlan} {phase : PlanPhase}
  {window seriesId n n' : Nat} {i i' : IntentRow}

/-! ## The count of the loop -/

/-- What a loop of `_enqueue_ready` over `l` keeps of its count. -/
structure Filled (window seriesId : Nat) (l : List IntentRow) (n : Nat) (c' : Catalog)
    (n' : Nat) : Prop where
  counted : n' = c'.backfillQueued seriesId
  grows : n ≤ n'
  bounded : n' ≤ max window n
  settled : ∀ i ∈ l, i.state = .pending → (i.tier = .backfill ∧ window ≤ n') ∨
    ∃ i' ∈ c'.intents, i'.id = i.id ∧ i'.state ≠ .pending

theorem backfillQueued_put (q : Queue) (i' : IntentRow) (hc : c.PlansOk) (hi : i ∈ c.intents)
    (hs : i.state = .pending) (hid : i'.id = i.id) (hseries : i'.seriesId = seriesId) :
    ({ c with queue := q }.putIntent i').backfillQueued seriesId =
      c.backfillQueued seriesId + (i'.tier == .backfill && i'.state == .queued).toNat := by
  have hput := Table.countP_put (fun i : IntentRow =>
    (i.tier == .backfill && i.state == .queued) && (i.seriesId == seriesId)) hc.intents hi hid.symm
  rw [hs, hseries, beq_self_eq_true, Bool.and_true,
    show (IntentState.pending == IntentState.queued) = false from rfl, Bool.and_false,
    Bool.false_and, Bool.toNat_false, Nat.add_zero] at hput
  unfold backfillQueued intentsOf
  rw [List.countP_filter, List.countP_filter]
  exact hput

/-- One round: a pending intent waits for room, or is settled. -/
theorem enqueueIntent_filled (hc : c.PlansOk) (hi : i ∈ c.intents) (hseries : i.seriesId = seriesId)
    (hn : n = c.backfillQueued seriesId)
    (h : enqueueIntent now window seriesId (c, n) i = .ok (c', n')) :
    Filled window seriesId [i] n c' n' := by
  unfold enqueueIntent at h
  dsimp only at h
  split at h
  · rename_i hs
    cases h
    exact ⟨hn, le_rfl, le_max_right .., fun j hj hp =>
      absurd (List.mem_singleton.mp hj ▸ hp) hs⟩
  rename_i hs
  rw [not_not] at hs
  split at h
  · rename_i hfull
    cases h
    refine ⟨hn, le_rfl, le_max_right .., fun j hj _ => .inl ?_⟩
    rw [List.mem_singleton.mp hj]
    exact hfull
  rename_i hroom
  split at h
  · cases h
    have hcount := backfillQueued_put c.queue { i with state := .attention } hc hi hs rfl hseries
    refine ⟨?_, le_rfl, le_max_right .., fun j hj _ => .inr ?_⟩
    · rw [hn]
      refine (hcount.trans ?_).symm
      simp
    · rw [List.mem_singleton.mp hj]
      exact ⟨_, Table.mem_put_self hi rfl, rfl, by simp⟩
  · split at h
    · cases h
    · rename_i queue jobId created hq
      cases h
      have hcount := backfillQueued_put queue
        { i with jobId := some jobId, state := .queued, updatedAt := now } hc hi hs rfl hseries
      refine ⟨?_, ?_, ?_, fun j hj _ => .inr ?_⟩
      · rw [hcount, hn]
        by_cases ht : i.tier = .backfill <;> simp [ht]
      · split <;> omega
      · split
        · rename_i ht
          have : n < window := Nat.lt_of_not_le fun hle => hroom ⟨ht, hle⟩
          omega
        · omega
      · rw [List.mem_singleton.mp hj]
        exact ⟨_, Table.mem_put_self hi rfl, rfl, by simp⟩

/-- The whole loop. -/
theorem foldlM_enqueueIntent_filled {l : List IntentRow} (hc : c.PlansOk)
    (hl : ∀ i ∈ l, i ∈ c.intents ∧ i.seriesId = seriesId) (hnd : (l.map (·.id)).Nodup)
    (hn : n = c.backfillQueued seriesId)
    (h : l.foldlM (enqueueIntent now window seriesId) (c, n) = .ok (c', n')) :
    Filled window seriesId l n c' n' := by
  induction l generalizing c n with
  | nil =>
    cases h
    exact ⟨hn, le_rfl, le_max_right .., fun j hj => (by cases hj)⟩
  | cons i l ih =>
    obtain ⟨⟨c₁, n₁⟩, hi, hrest⟩ := foldlM_cons_eq_ok.mp h
    obtain ⟨hni, hnd⟩ := List.nodup_cons.mp hnd
    obtain ⟨him, his⟩ := hl i List.mem_cons_self
    have hne : ∀ j ∈ l, j.id ≠ i.id := by
      intro j hj he
      exact hni (List.mem_map.mpr ⟨j, hj, he⟩)
    have hround := enqueueIntent_enqueued hc him hi
    have hfirst := enqueueIntent_filled hc him his hn hi
    -- the rows still to come are as the loop first saw them
    have hl₁ : ∀ j ∈ l, j ∈ c₁.intents ∧ j.seriesId = seriesId := by
      intro j hj
      obtain ⟨hjm, hjs⟩ := hl j (List.mem_cons_of_mem _ hj)
      obtain ⟨j', hj', rfl | ⟨hm, -⟩⟩ := Table.forall₂_left hround.rows hjm
      · exact ⟨hj', hjs⟩
      · exact absurd (congrArg (·.id) (List.mem_singleton.mp hm)) (hne j hj)
    have htail := ih hround.ok hl₁ hnd hfirst.counted hrest
    have hrows := (foldlM_enqueueIntent hround.ok (fun j hj => (hl₁ j hj).1) hnd hrest).rows
    refine ⟨htail.counted, hfirst.grows.trans htail.grows, ?_, fun j hj hp => ?_⟩
    · have hb₁ := hfirst.bounded
      have hb₂ := htail.bounded
      omega
    · rcases List.mem_cons.mp hj with rfl | hj
      · rcases hfirst.settled j List.mem_cons_self hp with ⟨ht, hw⟩ | ⟨k, hk, hid, hs⟩
        · exact .inl ⟨ht, hw.trans htail.grows⟩
        · obtain ⟨k', hk', rfl | ⟨hm, -⟩⟩ := Table.forall₂_left hrows hk
          · exact .inr ⟨k', hk', hid, hs⟩
          · exact absurd hid (hne k hm)
      · exact htail.settled j hj hp

/-! ## The jobs of queued intents -/

/-- A request for a download leaves the names of downloads. -/
theorem NamesDownload.enqueue {q q' : Queue} {a : EnqueueArgs} {id : Nat} {created : Bool}
    (h : NamesDownload q i) (hq : q.RowsOk) (ha : a.kind = .chapterDownload)
    (he : q.enqueue a now = .ok (q', id, created)) : NamesDownload q' i := by
  intro k hk job' hj'
  rcases (Queue.enqueue_kinds hq he).1 k job' hj' with hkind | ⟨job, hj, hkind⟩
  · exact hkind.trans ha
  · exact hkind.trans (h k hk job hj)

/-- What the loop of `_enqueue_ready` over `l` keeps. -/
structure Downloading (seriesId : Nat) (l : List IntentRow) (c : Catalog) : Prop where
  rows : c.queue.RowsOk
  queued : c.QueuedDownload seriesId
  named : c.JobsDownload seriesId
  coming : ∀ i ∈ l, NamesDownload c.queue i

theorem enqueueIntent_downloading {acc acc' : Catalog × Nat} {l : List IntentRow} (hi : i ∈ l)
    (h : enqueueIntent now window seriesId acc i = .ok acc')
    (hc : Downloading seriesId l acc.1) : Downloading seriesId l acc'.1 := by
  obtain ⟨c, n⟩ := acc
  unfold enqueueIntent at h
  dsimp only at h
  split at h
  · cases h
    exact hc
  split at h
  · cases h
    exact hc
  split at h
  · cases h
    refine ⟨hc.rows, fun k hk hs => ?_, fun k hk => ?_, hc.coming⟩
    · obtain ⟨hk, hks⟩ := mem_intentsOf.mp hk
      rcases Table.mem_put.mp hk with ⟨rfl, -⟩ | ⟨hk, -⟩
      · cases hs
      · exact hc.queued k (mem_intentsOf.mpr ⟨hk, hks⟩) hs
    · obtain ⟨hk, hks⟩ := mem_intentsOf.mp hk
      rcases Table.mem_put.mp hk with ⟨rfl, -⟩ | ⟨hk, -⟩
      · exact hc.coming i hi
      · exact hc.named k (mem_intentsOf.mpr ⟨hk, hks⟩)
  · split at h
    · cases h
    · rename_i release _ queue jobId created hq
      cases h
      obtain ⟨hgrows, hrows, job, hj, ha⟩ := Queue.enqueue_grows hc.rows hq
      obtain ⟨hkinds, hkind⟩ := Queue.enqueue_kinds hc.rows hq
      refine ⟨hrows, fun k hk hs => ?_, fun k hk => ?_, fun k hk =>
        (hc.coming k hk).enqueue hc.rows rfl hq⟩
      · obtain ⟨hk, hks⟩ := mem_intentsOf.mp hk
        rcases Table.mem_put.mp hk with ⟨rfl, -⟩ | ⟨hk, -⟩
        · exact ⟨jobId, job, rfl, hj, ha, hkind job hj⟩
        · have hk := mem_intentsOf.mpr ⟨hk, hks⟩
          obtain ⟨id, old, hid, hold, hactive, -⟩ := hc.queued k hk hs
          obtain ⟨job₁, hj₁, ha₁⟩ := hgrows.active id ⟨old, hold, hactive⟩
          exact ⟨id, job₁, hid, hj₁, ha₁,
            (hc.named k hk).enqueue hc.rows rfl hq id hid job₁ hj₁⟩
      · obtain ⟨hk, hks⟩ := mem_intentsOf.mp hk
        rcases Table.mem_put.mp hk with ⟨rfl, -⟩ | ⟨hk, -⟩
        · rintro id ⟨⟩ job' hj'
          exact hkind job' hj'
        · exact (hc.named k (mem_intentsOf.mpr ⟨hk, hks⟩)).enqueue hc.rows rfl hq

/-- An intent that follows its job is queued because that job is active. -/
theorem followed_queued
    (hi : i.state = .queued → ∃ id, i.jobId = some id ∧ (c.queue.job? id).isSome = true)
    (h : (c.followed now plan phase i).state = .queued) :
    ∃ id job, i.jobId = some id ∧ (c.followed now plan phase i).jobId = some id ∧
      c.queue.job? id = some job ∧ job.status.isActive = true := by
  have hfollow : (c.followJob now i).state = .queued := by
    unfold followed unblock at h
    split at h
    · cases h
    · exact h
  have hsame : c.followed now plan phase i = c.followJob now i :=
    unblock_of_ne (by rw [hfollow]; decide)
  rw [hsame]
  cases ha : c.hasActiveArtifact i.chapterId with
  | true =>
    rw [followJob_satisfied ha] at hfollow
    cases hfollow
  | false =>
    cases hj : i.jobId with
    | none =>
      rw [followJob_idle ha hj] at hfollow
      obtain ⟨id, hid, -⟩ := hi hfollow
      rw [hj] at hid
      cases hid
    | some id =>
      cases hq : c.queue.job? id with
      | none =>
        obtain ⟨-, hother, hlost⟩ := followJob_lost now ha hj hq
        by_cases hs : i.state = .queued
        · obtain ⟨id', hid', hsome⟩ := hi hs
          obtain rfl := Option.some.inj (hj.symm.trans hid')
          rw [hq] at hsome
          cases hsome
        · exact absurd ((hother hs).symm.trans hfollow) hs
      | some job =>
        obtain ⟨hid, hactive, hdone, hfailed⟩ := followJob_job now ha hj hq
        refine ⟨id, job, rfl, hid, hq, ?_⟩
        cases hst : job.status with
        | succeeded => exact absurd (hdone hst ▸ hfollow) (by decide)
        | failed => exact absurd (hfailed (.inl hst) ▸ hfollow) (by decide)
        | cancelled => exact absurd (hfailed (.inr hst) ▸ hfollow) (by decide)
        | queued => rfl
        | leased => rfl
        | retryWait => rfl

/-- The new intents come after the old ones. -/
theorem syncChapters_append (now : Time) (plan : SeriesDownloadPlan) (hc : c.PlansOk) : ∃ new,
    (c.syncChapters now plan).intents = c.intents ++ new ∧ ∀ i ∈ new, c.Fresh plan i := by
  have happend : ∀ (l : List CatalogChapter) (c : Catalog), ∃ new,
      (l.foldl (fun c chapter => c.addIntent now plan chapter) c).intents = c.intents ++ new := by
    intro l
    induction l with
    | nil => exact fun c => ⟨[], (List.append_nil _).symm⟩
    | cons chapter l ih =>
      intro c
      obtain ⟨new, hnew⟩ := ih (c.addIntent now plan chapter)
      exact ⟨_ :: new, hnew.trans (List.append_assoc ..)⟩
  obtain ⟨new, hnew⟩ := happend _ c
  refine ⟨new, hnew, fun i hi => ?_⟩
  have hsync : Synced plan c (c.syncChapters now plan) := syncChapters_synced
  rcases hsync.fresh i (by rw [syncChapters, hnew]; exact List.mem_append_right _ hi) with hold | hf
  · have hkeyed := (hsync.ok hc).intents
    rw [Table.Keyed, syncChapters, hnew, List.map_append, List.nodup_append'] at hkeyed
    exact absurd (List.mem_map_of_mem hi) (hkeyed.2.2 (List.mem_map_of_mem hold))
  · exact hf

/-- The intents as `_enqueue_ready` finds them. -/
def followedAll (c : Catalog) (now : Time) (plan : SeriesDownloadPlan) (phase : PlanPhase) :
    Catalog :=
  ((c.syncChapters now plan).mapIntents plan.seriesId
    ((c.syncChapters now plan).followJob now)).mapIntents plan.seriesId (unblock plan phase)

theorem followedAll_intents : (c.followedAll now plan phase).intents =
    (c.syncChapters now plan).intents.map fun i =>
      if i.seriesId = plan.seriesId then c.followed now plan phase i else i := by
  have hsync : Synced plan c (c.syncChapters now plan) := syncChapters_synced
  have hfollow : followed (c.syncChapters now plan) = followed c := by
    unfold followed
    funext t p ph i
    rw [hsync.followJob]
  rw [followedAll, mapIntents_followed, hfollow]

theorem followedAll_rest (now : Time) (plan : SeriesDownloadPlan) (phase : PlanPhase) :
    (c.followedAll now plan phase).queue = c.queue ∧
      (c.followedAll now plan phase).releases = c.releases := by
  have hsync : Synced plan c (c.syncChapters now plan) := syncChapters_synced
  obtain ⟨rows, next, hs⟩ := hsync.rest
  rw [followedAll, mapIntents, mapIntents, hs]
  exact ⟨rfl, rfl⟩

theorem followedAll_ok (now : Time) (plan : SeriesDownloadPlan) (phase : PlanPhase)
    (hc : c.PlansOk) : (c.followedAll now plan phase).PlansOk :=
  mapIntents_ok (fun _ => unblock_id) (mapIntents_ok (fun _ => followJob_id)
    (syncChapters_synced.ok hc))

@[simp] theorem followed_seriesId :
    (c.followed now plan phase i).seriesId = i.seriesId := by
  rw [followed, unblock_seriesId, followJob_seriesId]

@[simp] theorem followed_tier : (c.followed now plan phase i).tier = i.tier := by
  rw [followed, unblock_tier, followJob_tier]

theorem mem_followedAll : i' ∈ (c.followedAll now plan phase).intentsOf plan.seriesId ↔
    ∃ i ∈ (c.syncChapters now plan).intentsOf plan.seriesId,
      c.followed now plan phase i = i' := by
  rw [mem_intentsOf, followedAll_intents, List.mem_map]
  constructor
  · rintro ⟨⟨i, hi, rfl⟩, hs⟩
    split at hs
    · rename_i his
      exact ⟨i, mem_intentsOf.mpr ⟨hi, his⟩, (if_pos his).symm⟩
    · rename_i his
      exact absurd hs his
  · rintro ⟨i, hi, rfl⟩
    obtain ⟨hi, his⟩ := mem_intentsOf.mp hi
    exact ⟨⟨i, hi, if_pos his⟩, followed_seriesId.trans his⟩

/-- The queued intents before the loop are those with an active job. -/
theorem followedAll_queued (hq : c.QueuedNamed plan.seriesId)
    (hi : i ∈ (c.syncChapters now plan).intentsOf plan.seriesId)
    (hs : (c.followed now plan phase i).state = .queued) :
    i ∈ c.intentsOf plan.seriesId ∧ ∃ id job, i.jobId = some id ∧
      (c.followed now plan phase i).jobId = some id ∧ c.queue.job? id = some job ∧
      job.status.isActive = true := by
  have hsync : Synced plan c (c.syncChapters now plan) := syncChapters_synced
  obtain ⟨hi, his⟩ := mem_intentsOf.mp hi
  rcases hsync.fresh i hi with hold | hfresh
  · have hi := mem_intentsOf.mpr ⟨hold, his⟩
    exact ⟨hi, followed_queued (hq i hi) hs⟩
  · obtain ⟨id, job, hid, -⟩ := followed_queued (fun h => absurd h hfresh.not_queued) hs
    rw [hfresh.job] at hid
    cases hid

/-- Following the jobs keeps their names, or forgets them. -/
theorem followed_jobId (c : Catalog) (now : Time) (plan : SeriesDownloadPlan) (phase : PlanPhase)
    (i : IntentRow) : (c.followed now plan phase i).jobId = i.jobId ∨
    (c.followed now plan phase i).jobId = none := by
  rw [followed, unblock_jobId, followJob]
  split
  · exact .inl rfl
  · split
    · exact .inl rfl
    · split
      · exact .inr rfl
      · exact .inl rfl

theorem followedAll_downloading (hc : c.PlansOk) (hq : c.QueuedNamed plan.seriesId)
    (hk : c.JobsDownload plan.seriesId) : Downloading plan.seriesId
      ((c.followedAll now plan phase).intentsOf plan.seriesId) (c.followedAll now plan phase) := by
  have hnamed : (c.followedAll now plan phase).JobsDownload plan.seriesId := by
    intro i' hi' id hid
    obtain ⟨i, hi, rfl⟩ := mem_followedAll.mp hi'
    rw [(followedAll_rest ..).1]
    rcases c.followed_jobId now plan phase i with h | h
    · have hsync : Synced plan c (c.syncChapters now plan) := syncChapters_synced
      obtain ⟨hi, his⟩ := mem_intentsOf.mp hi
      rcases hsync.fresh i hi with hold | hfresh
      · exact hk i (mem_intentsOf.mpr ⟨hold, his⟩) id (h ▸ hid)
      · rw [h, hfresh.job] at hid
        cases hid
    · rw [h] at hid
      cases hid
  refine ⟨(followedAll_ok now plan phase hc).queue, fun i' hi' hs => ?_, hnamed, hnamed⟩
  obtain ⟨i, hi, rfl⟩ := mem_followedAll.mp hi'
  obtain ⟨hold, id, job, hid, hid', hj, ha⟩ := followedAll_queued hq hi hs
  exact ⟨id, job, hid', by rw [(followedAll_rest ..).1, hj], ha, hk i hold id hid job hj⟩

theorem followedAll_backfillQueued (now : Time) (phase : PlanPhase) (hc : c.PlansOk)
    (hq : c.QueuedNamed plan.seriesId) :
    (c.followedAll now plan phase).backfillQueued plan.seriesId ≤
      c.backfillUnderWay plan.seriesId := by
  obtain ⟨new, hnew, hfresh⟩ := syncChapters_append now plan hc
  have hqueued : ∀ i ∈ (c.syncChapters now plan).intents,
      (if i.seriesId = plan.seriesId then c.followed now plan phase i else i).state = .queued →
      i.seriesId = plan.seriesId → i ∈ c.intentsOf plan.seriesId ∧
        ∃ id job, i.jobId = some id ∧ c.queue.job? id = some job ∧ job.status.isActive = true := by
    intro i hi hs his
    rw [if_pos his] at hs
    obtain ⟨hold, id, job, hid, -, hrest⟩ := followedAll_queued hq (mem_intentsOf.mpr ⟨hi, his⟩) hs
    exact ⟨hold, id, job, hid, hrest⟩
  unfold backfillQueued backfillUnderWay
  unfold intentsOf
  rw [List.countP_filter, List.countP_filter, followedAll_intents, List.countP_map, hnew,
    List.countP_append]
  have hzero : new.countP ((fun i : IntentRow => (i.tier == .backfill && i.state == .queued) &&
      i.seriesId == plan.seriesId) ∘ fun i =>
        if i.seriesId = plan.seriesId then c.followed now plan phase i else i) = 0 := by
    refine List.countP_eq_zero.mpr fun i hi hp => ?_
    simp only [Function.comp_apply, Bool.and_eq_true, beq_iff_eq] at hp
    have hin : i ∈ (c.syncChapters now plan).intents := hnew ▸ List.mem_append_right _ hi
    obtain ⟨-, id, job, hid, -⟩ := hqueued i hin hp.1.2 (hfresh i hi).series
    rw [(hfresh i hi).job] at hid
    cases hid
  rw [hzero, Nat.add_zero]
  refine List.countP_mono_left fun i hi hp => ?_
  simp only [Function.comp_apply, Bool.and_eq_true, beq_iff_eq] at hp
  obtain ⟨⟨htier, hs⟩, hseries⟩ := hp
  have his : i.seriesId = plan.seriesId := by
    split at hseries
    · assumption
    · exact hseries
  have hin : i ∈ (c.syncChapters now plan).intents := hnew ▸ List.mem_append_left _ hi
  obtain ⟨-, id, job, hid, hj, ha⟩ := hqueued i hin hs his
  rw [if_pos his, followed_tier] at htier
  simp [htier, hid, hj, ha, his]

/-! ## The whole step -/

/-- `_enqueue_ready` from any catalog. -/
theorem enqueueReady_filled (hc : c.PlansOk) (h : c.enqueueReady now window seriesId = .ok c') :
    ∃ n', Filled window seriesId (c.intentsOf seriesId) (c.backfillQueued seriesId) c' n' := by
  unfold enqueueReady at h
  obtain ⟨⟨c₁, n'⟩, hl, rfl⟩ := map_eq_ok.mp h
  have hperm := List.perm_insertionSort (fun a b : IntentRow =>
    a.tier.order < b.tier.order ∨ (a.tier.order = b.tier.order ∧ a.id ≤ b.id))
    (c.intentsOf seriesId)
  have hnd : ((c.intentsOf seriesId).map (·.id)).Nodup :=
    List.Nodup.sublist (List.Sublist.map _ List.filter_sublist) hc.intents
  have hfilled := foldlM_enqueueIntent_filled hc
    (fun i hi => mem_intentsOf.mp (hperm.mem_iff.mp hi)) ((hperm.map _).nodup_iff.mpr hnd) rfl hl
  exact ⟨n', hfilled.counted, hfilled.grows, hfilled.bounded,
    fun i hi => hfilled.settled i (hperm.mem_iff.mpr hi)⟩

/-- What is pending after `_enqueue_ready` is a backfill intent, and the window is full. -/
theorem enqueueReady_pending (hc : c.PlansOk) (h : c.enqueueReady now window seriesId = .ok c')
    (hi : i' ∈ c'.intentsOf seriesId) (hs : i'.state = .pending) :
    i'.tier = .backfill ∧ window ≤ c'.backfillQueued seriesId := by
  have henq := enqueueReady_enqueued hc h
  obtain ⟨n', hfilled⟩ := enqueueReady_filled hc h
  obtain ⟨hi, his⟩ := mem_intentsOf.mp hi
  obtain ⟨i, hold, rfl | ⟨-, hr⟩⟩ := Table.forall₂_right henq.rows hi
  · rcases hfilled.settled i' (mem_intentsOf.mpr ⟨hold, his⟩) hs with hfull | ⟨k, hk, hid, hks⟩
    · exact hfilled.counted ▸ hfull
    · exact absurd (henq.ok.intents.eq hk hi hid ▸ hs) hks
  · cases hr with
    | starved => cases hs
    | queued => cases hs

theorem enqueueReady_downloading (hd : Downloading seriesId (c.intentsOf seriesId) c)
    (h : c.enqueueReady now window seriesId = .ok c') :
    Downloading seriesId (c.intentsOf seriesId) c' := by
  unfold enqueueReady at h
  obtain ⟨⟨c₁, n'⟩, hl, rfl⟩ := map_eq_ok.mp h
  have hperm := List.perm_insertionSort (fun a b : IntentRow =>
    a.tier.order < b.tier.order ∨ (a.tier.order = b.tier.order ∧ a.id ≤ b.id))
    (c.intentsOf seriesId)
  exact foldlM_inv (P := fun acc => Downloading seriesId (c.intentsOf seriesId) acc.1) hl hd
    fun acc i acc' hi hacc he => enqueueIntent_downloading (hperm.mem_iff.mp hi) he hacc

/-- What is pending after a visit waits for room. -/
theorem advance_pending (hc : c.PlansOk) (h : c.advance now window plan = .ok c')
    (hi : i ∈ c'.intentsOf plan.seriesId) (hs : i.state = .pending) :
    i.tier = .backfill ∧ window ≤ c'.backfillQueued plan.seriesId := by
  obtain ⟨c₂, hr, rfl⟩ := map_eq_ok.mp h
  have hr : (c.followedAll now plan ((c.syncChapters now plan).phaseAfter now plan)).enqueueReady
      now window plan.seriesId = .ok c₂ := hr
  have hpending := enqueueReady_pending (followedAll_ok now plan _ hc) hr
    (show i ∈ c₂.intentsOf plan.seriesId from hi) hs
  exact hpending

theorem advance_windowed (hc : c.PlansOk) (hq : c.QueuedNamed plan.seriesId)
    (hk : c.JobsDownload plan.seriesId) (h : c.advance now window plan = .ok c') :
    Windowed now window plan c c' := by
  have hpending := fun i => @advance_pending c c' now plan window i hc h
  obtain ⟨c₂, hr, rfl⟩ := map_eq_ok.mp h
  set phase := (c.syncChapters now plan).phaseAfter now plan with hphase
  have hr : (c.followedAll now plan phase).enqueueReady now window plan.seriesId = .ok c₂ := hr
  have hok := followedAll_ok now plan phase hc
  obtain ⟨n', hfilled⟩ := enqueueReady_filled hok hr
  obtain ⟨hqueue, hreleases⟩ := c.followedAll_rest now plan phase
  have hdown := enqueueReady_downloading (followedAll_downloading hc hq hk) hr
  refine ⟨?_, fun i hi ht hs => ?_, fun i hi ht hs hrel => ?_, fun i hi ht hs => ?_,
    hdown.queued, hdown.named⟩
  · have hbefore := followedAll_backfillQueued now phase hc hq
    have hcounted := hfilled.counted
    have hbounded := hfilled.bounded
    show c₂.backfillQueued plan.seriesId ≤ _
    omega
  · exact (hpending i hi hs).2
  · have hsame : c.followed now plan phase i = c.followJob now i :=
      unblock_of_ne (by rw [hs]; decide)
    have hin : c.followJob now i ∈ (c.followedAll now plan phase).intentsOf plan.seriesId :=
      mem_followedAll.mpr ⟨i, hi, hsame⟩
    obtain ⟨hin, his⟩ := mem_intentsOf.mp hin
    obtain ⟨i', hi', hcase⟩ := Table.forall₂_left (enqueueReady_enqueued hok hr).rows hin
    rcases hcase with rfl | ⟨-, hready⟩
    · exact absurd ((enqueueReady_pending hok hr (mem_intentsOf.mpr ⟨hi', his⟩) hs).1)
        (by rwa [followJob_tier])
    · cases hready with
      | starved _ hno =>
        rw [bestRelease_congr hreleases, followJob_chapterId] at hno
        rw [hno] at hrel
        cases hrel
      | queued => exact ⟨_, mem_intentsOf.mpr ⟨hi', his⟩, followJob_id, rfl⟩
  · exact ht (hpending i hi hs).1

/-- The first of two backfill chapters is under way, the second waits. -/
def windowFull : Catalog :=
  { trackedOnce with
    plans := [{ seriesId := 1, phase := .backfill, createdAt := 0, updatedAt := 0 }]
    intents :=
      [{ id := 1, seriesId := 1, chapterId := 7, tier := .backfill, state := .queued
         jobId := some 1, updatedAt := 0 },
       { id := 2, seriesId := 1, chapterId := 8, tier := .backfill, state := .pending
         jobId := none, updatedAt := 0 }]
    nextIntent := 3 }

end

end Catalog

end MangaManager
