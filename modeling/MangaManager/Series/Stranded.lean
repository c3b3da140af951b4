import MangaManager.Catalog.Tended
import MangaManager.Series.Rounds

/-!
# No chapter is stranded

Three calls can leave an open intent that no later reconciliation puts right: a merge
that keeps the plan of another series than the intent's, the loss of the job of a
queued intent, and a download that goes to another provider after its series was
untracked. `none_stranded`: in every run from a collection in which nothing was
tracked, in which no call does so, the open intents are placed once all plans have
been reconciled.
-/

namespace MangaManager

open Lib

namespace Catalog

/-- A job row is deleted. `job_id` of its intents is set to null where the database enforces the
foreign key, and is left as it is elsewhere. -/
def loseJob (c : Catalog) (jobId : Nat) (nulls : Bool) : Catalog :=
  { c with
    queue := { c.queue with jobs := c.queue.jobs.filter (·.id != jobId) }
    intents := if nulls then
        c.intents.map fun i => if i.jobId = some jobId then { i with jobId := none } else i
      else c.intents }

end Catalog

/-- A call that writes plans or intents. -/
inductive PlanCall where
  | track (window seriesId : Nat)
  | untrack (seriesId : Nat)
  | chapter (call : ChapterCall)
  | loseJob (jobId : Nat) (nulls : Bool)
  | merge (ids : List Nat)

namespace Collection

variable (s : Collection)

def withCatalog (c : Catalog) : Collection := { s with toCatalog := c }

/-- No series merged before the intent's has an intent for the same number. -/
def Survives (order : List Nat) (i : IntentRow) : Prop :=
  ∀ u ∈ order.takeWhile (· != i.seriesId), ∀ j ∈ s.intentsOf u,
    s.numberOf j.chapterId ≠ s.numberOf i.chapterId

/-- Some series of the merge has an active artifact of the number of the intent. -/
def DoneIn (order : List Nat) (i : IntentRow) : Prop :=
  ∃ a ∈ s.artifacts, a.state = .active ∧ s.numberOf a.chapterId = s.numberOf i.chapterId ∧
    ∃ c ∈ s.chapters, c.id = a.chapterId ∧ c.seriesId ∈ order

/-- The plan that is left after a merge, the first one in its order, is active and holds the open
intents that are left. -/
def PlanHolds (order : List Nat) : Prop :=
  ∀ i ∈ s.intents, i.seriesId ∈ order → i.state.isFinished = false → s.Survives order i →
    ∃ plan, order.findSome? s.plan? = some plan ∧ plan.status = .active ∧
      (s.DoneIn order i ∨ s.Held plan i)

/-- The intents that wait for the job have an artifact; or they keep its id, and their plan is in
the priority phase or they are not of the backfill. -/
def JobSpared (jobId : Nat) (nulls : Bool) : Prop :=
  ∀ i ∈ s.intents, i.state = .queued → i.jobId = some jobId →
    s.hasActiveArtifact i.chapterId = true ∨ (nulls = false ∧ (i.tier ≠ .backfill ∨
      ∃ plan, s.plan? i.seriesId = some plan ∧ plan.phase = .priority))

end Collection

namespace PlanCall

variable (t : TextLib) (l : PlanCall) (s : Collection) (now : Time)

def apply : Collection :=
  match l with
  | track window seriesId =>
    s.withCatalog (ChapterCall.kept s.toCatalog id (s.toCatalog.track now window seriesId))
  | untrack seriesId => s.withCatalog (s.toCatalog.untrack now seriesId)
  | chapter call => s.withCatalog (call.applyCatalog s.toCatalog now)
  | loseJob jobId nulls => s.withCatalog (s.toCatalog.loseJob jobId nulls)
  | merge ids =>
    match s.mergeCanonicalSeries t ids now with
    | .ok (s', _) => s'
    | .error _ => s

/-- Chapters that are ingested join those of their series, one of a number. -/
def Possible : Prop :=
  match l with
  | chapter (.discover chapters _) =>
    Table.Keyed CatalogChapter.id chapters ∧
      (∀ a ∈ chapters, ∀ b ∈ chapters, a.seriesId = b.seriesId →
        a.canonicalNumber = b.canonicalNumber → a = b) ∧
      ∀ c ∈ s.chapters, ∃ c' ∈ chapters, c'.id = c.id ∧ c'.seriesId = c.seriesId
  | _ => True

/-- The call leaves every open intent to a plan that holds it. -/
def Minds : Prop :=
  match l with
  | chapter (.bypass source _) =>
    ∀ i ∈ s.intents, s.CoolingChapter source i.chapterId → s.HasActivePlan i.seriesId
  | chapter (.reroute jobId snapshot _ _ _) =>
    ∀ i ∈ s.intents, s.ReroutedChapter jobId snapshot now i.chapterId → s.HasActivePlan i.seriesId
  | loseJob jobId nulls => s.JobSpared jobId nulls
  | merge ids => (∃ r, s.mergeCanonicalSeries t ids now = .ok r) → s.PlanHolds (s.mergeOrder ids)
  | _ => True

end PlanCall

/-- A call at some time. -/
def PlanStep (t : TextLib) (s : Collection) (l : PlanCall × Time) (s' : Collection) : Prop :=
  l.1.Possible s ∧ s' = l.1.apply t s l.2

/-- Nothing was tracked yet. -/
structure Collection.Blank (s : Collection) : Prop where
  ok : s.MergeOk
  intents : s.intents = []
  plans : s.plans = []

/-- What the calls keep. -/
structure Collection.Kept (s : Collection) : Prop where
  tended : s.Tended
  ok : s.MergeOk

namespace Collection

section
variable {t : TextLib} {s s' : Collection} {c : Catalog} {now : Time} {i i' : IntentRow}
  {order : List Nat} {target : Nat}

theorem numberOf_of_isAt (h : s.ChaptersOk) {u : Nat} {n : String} {id : Nat} (hat : s.IsAt u n id) :
    s.numberOf id = some n := by
  obtain ⟨c, hc, rfl, -, rfl⟩ := hat
  unfold numberOf chapter?
  rw [h.keyed.get_eq hc]
  rfl

/-! ## Calls on the catalog -/

/-- A call that keeps the keys of the catalog, and the series of an intent that of its chapter. -/
theorem MergeOk.withCatalog (hs : s.MergeOk) (hc : c.PlansOk) (ha : c.ArtifactKeys)
    (hi : c.identities = s.identities) (hch : c.chapters = s.chapters)
    (hrows : ∀ i' ∈ c.intents, (∃ i ∈ s.intents, i'.seriesId = i.seriesId ∧
      i'.chapterId = i.chapterId) ∨
      ∃ chapter ∈ s.chapters, chapter.id = i'.chapterId ∧ chapter.seriesId = i'.seriesId) :
    (s.withCatalog c).MergeOk := by
  refine ⟨hc, hi ▸ hs.identities, hs.series, ha.keyed, ha.below, ⟨?_, ?_⟩, fun i' hi' => ?_⟩
  · exact hch ▸ hs.chapters.keyed
  · exact hch ▸ hs.chapters.numbers
  · have hat : ∀ u n id, (s.withCatalog c).IsAt u n id ↔ s.IsAt u n id := by
      intro u n id
      show (∃ x ∈ c.chapters, x.id = id ∧ x.seriesId = u ∧ x.canonicalNumber = n) ↔ _
      rw [hch, IsAt]
    rcases hrows i' hi' with ⟨i, hi, hser, hid⟩ | ⟨chapter, hm, hid, hser⟩
    · obtain ⟨n, h⟩ := hs.place i hi
      exact ⟨n, (hat _ _ _).mpr (hser ▸ hid ▸ h)⟩
    · exact ⟨_, (hat _ _ _).mpr ⟨chapter, hm, hid, hser, rfl⟩⟩

theorem MergeOk.artifactKeys (h : s.MergeOk) : s.ArtifactKeys := ⟨h.artifacts, h.artifactsBelow⟩

/-- The intents are rows of before, or of chapters of their series. -/
theorem Kept.withCatalog (hs : s.Kept) (ht : c.Tended) (hl : Catalog.SameLibrary s.toCatalog c)
    (hrows : ∀ i' ∈ c.intents, (∃ i ∈ s.intents, i'.seriesId = i.seriesId ∧
      i'.chapterId = i.chapterId) ∨
      ∃ chapter ∈ s.chapters, chapter.id = i'.chapterId ∧ chapter.seriesId = i'.seriesId) :
    (s.withCatalog c).Kept :=
  ⟨ht, hs.ok.withCatalog ht.ok (hl.artifactKeys hs.ok.artifactKeys) hl.identities hl.chapters hrows⟩

/-- Where the intents come from that a visit leaves. -/
theorem advanced_rows {c₀ : Catalog} {plan : SeriesDownloadPlan}
    (h : Catalog.Advanced now plan c₀ c) :
    ∀ i' ∈ c.intents, (∃ i ∈ c₀.intents, i'.seriesId = i.seriesId ∧ i'.chapterId = i.chapterId) ∨
      ∃ chapter ∈ c₀.chapters, chapter.id = i'.chapterId ∧ chapter.seriesId = i'.seriesId := by
  intro i' hi'
  obtain ⟨i, hi, hm⟩ := Table.forall₂_right h.rows hi'
  obtain ⟨-, hser, hch⟩ := hm.place
  rcases Catalog.syncChapters_synced.fresh i hi with hi | hf
  · exact .inl ⟨i, hi, hser, hch⟩
  · obtain ⟨chapter, hm, hs, hid, -⟩ := hf.place
    exact .inr ⟨chapter, hm, hid.symm.trans hch.symm, hs.trans (hf.series.symm.trans hser.symm)⟩

theorem Kept.track {window seriesId : Nat} (hs : s.Kept)
    (h : s.toCatalog.track now window seriesId = .ok c) : (s.withCatalog c).Kept := by
  obtain ⟨plan, c₁, -, -, -, -, hprep, hvisit⟩ := Catalog.track_spec hs.tended.ok h
  have hadv := Catalog.advance_spec hprep.ok hvisit
  refine hs.withCatalog (hs.tended.track h) (hprep.library.trans hadv.library) fun i' hi' => ?_
  rcases advanced_rows hadv i' hi' with ⟨i, hi, hser, hch⟩ | ⟨chapter, hm, hid, hser⟩
  · rcases hprep.fresh i hi with hi | hf
    · exact .inl ⟨i, hi, hser, hch⟩
    · obtain ⟨chapter, hm, hs, hid, -⟩ := hf.place
      exact .inr ⟨chapter, hm, hid.symm.trans hch.symm, hs.trans (hf.series.symm.trans hser.symm)⟩
  · exact .inr ⟨chapter, hprep.library.chapters ▸ hm, hid, hser⟩

theorem Kept.untrack (hs : s.Kept) (now : Time) (seriesId : Nat) :
    (s.withCatalog (s.toCatalog.untrack now seriesId)).Kept := by
  have h : Catalog.Dropped now seriesId s.toCatalog (s.toCatalog.untrack now seriesId) :=
    Catalog.untrack_spec hs.tended.ok
  refine hs.withCatalog (hs.tended.untrack now seriesId) h.library fun i' hi' => .inl ?_
  rw [h.intents] at hi'
  obtain ⟨i, hi, rfl⟩ := List.mem_map.mp hi'
  refine ⟨i, hi, ?_⟩
  split <;> exact ⟨rfl, rfl⟩

theorem Kept.requeued {P : Nat → Prop} (hs : s.Kept)
    (h : Catalog.Requeued P now s.toCatalog c)
    (hP : ∀ i ∈ s.intents, P i.chapterId → s.HasActivePlan i.seriesId) : (s.withCatalog c).Kept := by
  refine hs.withCatalog (h.tended hs.tended hP) h.library fun i' hi' => .inl ?_
  obtain ⟨i, hi, rfl | ⟨-, id, rfl, -⟩⟩ := Table.forall₂_right h.rows hi'
  · exact ⟨i', hi, rfl, rfl⟩
  · exact ⟨i, hi, rfl, rfl⟩

/-- A call that writes jobs, artifacts or other tables. -/
theorem Kept.of_tables (hs : s.Kept) (hq : c.queue.RowsOk) (hrows : s.queue.KeepsRows c.queue)
    (hi : c.intents = s.intents) (hn : c.nextIntent = s.nextIntent) (hp : c.plans = s.plans)
    (hid : c.identities = s.identities) (hch : c.chapters = s.chapters) (hk : c.ArtifactKeys)
    (ha : ∀ id, s.hasActiveArtifact id = true → c.hasActiveArtifact id = true) :
    (s.withCatalog c).Kept := by
  have ht := hs.tended.of_tables hq hrows hi hn hp ha
  refine ⟨ht, hs.ok.withCatalog ht.ok hk hid hch fun i' hi' => .inl ?_⟩
  exact ⟨i', hi ▸ hi', rfl, rfl⟩

theorem Kept.chapter (hs : s.Kept) {call : ChapterCall} (hp : (PlanCall.chapter call).Possible s)
    (hm : (PlanCall.chapter call).Minds t s now) :
    (s.withCatalog (call.applyCatalog s.toCatalog now)).Kept := by
  cases call with
  | call op =>
    obtain ⟨hq, hk⟩ := Op.apply_rowsOk op now hs.tended.ok.queue
    exact hs.of_tables hq hk rfl rfl rfl rfl rfl ⟨hs.ok.artifacts, hs.ok.artifactsBelow⟩ fun _ h => h
  | discover chapters releases =>
    obtain ⟨hkeyed, hnum, hkeep⟩ := hp
    have ht : ((ChapterCall.discover chapters releases).applyCatalog s.toCatalog now).Tended :=
      hs.tended.of_tables hs.tended.ok.queue (fun _ h => h) rfl rfl rfl fun _ h => h
    refine ⟨ht, ht.ok, hs.ok.identities, hs.ok.series, hs.ok.artifacts, hs.ok.artifactsBelow,
      ⟨hkeyed, hnum⟩, fun i hi => ?_⟩
    obtain ⟨n, c, hc, hid, hser, -⟩ := hs.ok.place i hi
    obtain ⟨c', hc', hid', hser'⟩ := hkeep c hc
    exact ⟨_, c', hc', hid'.trans hid, hser'.trans hser, rfl⟩
  | start jobId => exact hs
  | complete d blob projection =>
    obtain ⟨hq, hi, hn, hpl⟩ := Catalog.complete_rest s.toCatalog d blob projection now
    obtain ⟨hk, ha⟩ := @Catalog.ArtifactKeys.activate s.toCatalog hs.ok.artifactKeys
      (d.activation s.toCatalog blob projection) rfl now
    obtain ⟨hid, hch⟩ := @Catalog.activate_tables s.toCatalog now
      (d.activation s.toCatalog blob projection)
    refine hs.of_tables (hq ▸ hs.tended.ok.queue) (hq ▸ fun _ h => h) hi hn hpl hid hch
      ⟨hk.keyed, hk.below⟩ ha
  | reconcile window seriesId =>
    simp only [ChapterCall.applyCatalog]
    obtain ⟨c', hr⟩ := Catalog.reconcile_ok s.toCatalog now window seriesId
    rw [hr]
    obtain ⟨ht, -, -⟩ := hs.tended.reconcile hr
    refine hs.withCatalog ht (Catalog.reconcile_library hr) ?_
    unfold Catalog.reconcile at hr
    split at hr
    · cases hr
      exact fun i hi => .inl ⟨i, hi, rfl, rfl⟩
    · split at hr
      · cases hr
        exact fun i hi => .inl ⟨i, hi, rfl, rfl⟩
      · exact advanced_rows (Catalog.advance_spec hs.tended.ok hr)
  | upgrade seriesIds =>
    simp only [ChapterCall.applyCatalog]
    cases hr : s.toCatalog.enqueuePreferredUpgrades now seriesIds with
    | error e => exact hs
    | ok r =>
      obtain ⟨q, he, hg, hok⟩ := Catalog.enqueuePreferredUpgrades_spec hs.tended.ok hr
      rw [ChapterCall.kept, he]
      exact hs.of_tables hok hg.keepsRows rfl rfl rfl rfl rfl ⟨hs.ok.artifacts, hs.ok.artifactsBelow⟩
        fun _ h => h
  | bypass source retryAfter =>
    simp only [ChapterCall.applyCatalog]
    cases hr : s.toCatalog.bypassCoolingSource now source retryAfter with
    | error e => exact hs
    | ok r => exact hs.requeued (Catalog.bypassCoolingSource_requeued hs.tended.ok hr) hm
  | reroute jobId snapshot code message retryAt =>
    simp only [ChapterCall.applyCatalog]
    cases hr : s.toCatalog.downloads.handlerReroute jobId snapshot code message retryAt now with
    | error e => exact hs
    | ok r => exact hs.requeued (Catalog.handlerReroute_requeued hs.tended.ok hr) hm

/-! ## A lost job -/

theorem Kept.loseJob (hs : s.Kept) {jobId : Nat} {nulls : Bool} (hm : s.JobSpared jobId nulls) :
    (s.withCatalog (s.toCatalog.loseJob jobId nulls)).Kept := by
  generalize hc : s.toCatalog.loseJob jobId nulls = c
  have hqueue : c.queue = { s.queue with jobs := s.queue.jobs.filter (·.id != jobId) } := by
    rw [← hc, Catalog.loseJob]
  -- the intents of before, but for `job_id`
  have hrows : ∀ i' ∈ c.intents, ∃ i ∈ s.intents, i'.seriesId = i.seriesId ∧
      i'.chapterId = i.chapterId ∧ i'.state = i.state ∧ i'.tier = i.tier ∧
      (i'.jobId = i.jobId ∨ (nulls = true ∧ i.jobId = some jobId)) := by
    intro i' hi'
    rw [← hc, Catalog.loseJob] at hi'
    cases hn : nulls with
    | false =>
      rw [hn, if_neg (by decide)] at hi'
      exact ⟨i', hi', rfl, rfl, rfl, rfl, .inl rfl⟩
    | true =>
      rw [hn, if_pos rfl] at hi'
      obtain ⟨i, hi, rfl⟩ := List.mem_map.mp hi'
      by_cases hj : i.jobId = some jobId
      · rw [if_pos hj]
        exact ⟨i, hi, rfl, rfl, rfl, rfl, .inr ⟨rfl, hj⟩⟩
      · rw [if_neg hj]
        exact ⟨i, hi, rfl, rfl, rfl, rfl, .inl rfl⟩
  have hids : c.intents.map (fun i => i.id) = s.intents.map fun i => i.id := by
    rw [← hc, Catalog.loseJob]
    cases nulls
    · rfl
    · simp only [if_true, List.map_map]
      refine List.map_congr_left fun i _ => ?_
      dsimp only [Function.comp_apply]
      split <;> rfl
  have hok : c.PlansOk := by
    refine ⟨⟨?_, ?_⟩, ?_, fun i' hi' => ?_, ?_⟩
    · rw [hqueue]
      exact hs.tended.ok.queue.keyed.filter
    · rw [hqueue]
      exact fun j hj => hs.tended.ok.queue.below j (List.mem_filter.mp hj).1
    · unfold Table.Keyed
      rw [hids]
      exact hs.tended.ok.intents
    · have hid : i'.id ∈ s.intents.map fun i => i.id := hids ▸ List.mem_map_of_mem hi'
      obtain ⟨i, hi, he⟩ := List.mem_map.mp hid
      rw [← he, ← hc]
      exact hs.tended.ok.below i hi
    · rw [← hc]
      exact hs.tended.ok.plans
  have hjob : ∀ id, id ≠ jobId → (s.queue.job? id).isSome = true → (c.queue.job? id).isSome = true := by
    intro id hne h
    obtain ⟨j, hj, he⟩ := Table.isSome_get.mp h
    rw [hqueue]
    refine Table.isSome_get.mpr ⟨j, List.mem_filter.mpr ⟨hj, ?_⟩, he⟩
    simpa [he] using hne
  have hplan : ∀ u, c.plan? u = s.plan? u := by
    intro u
    rw [← hc]
    rfl
  have hact : ∀ id, c.hasActiveArtifact id = s.hasActiveArtifact id := by
    intro id
    rw [← hc]
    rfl
  have ht : c.Tended := by
    refine ⟨hok, ?_, fun i' hi' hb => ?_, fun i' hi' ho => ?_⟩
    · rw [← hc]
      exact hs.tended.phases
    · obtain ⟨i, hi, -, -, hst, htier, -⟩ := hrows i' hi'
      exact htier.trans (hs.tended.tiers i hi (hst.symm.trans hb))
    · obtain ⟨i, hi, hser, hch, hst, htier, hj⟩ := hrows i' hi'
      obtain ⟨plan, hp, hh⟩ := hs.tended.held i hi (hst ▸ ho)
      refine ⟨plan, hser ▸ (hplan _).trans hp, hh.active, fun hn hb => ?_, fun hn hq => ?_⟩
      · rw [hact, hch] at hn
        exact hh.blocked hn (hst.symm.trans hb)
      · rw [hact, hch] at hn
        rw [hst] at hq
        obtain ⟨id, hjid, hrow⟩ := hh.queued hn hq
        by_cases he : id = jobId
        · -- the intent waits for the lost job
          subst he
          rcases hm i hi hq hjid with ha | ⟨rfl, hrest⟩
          · rw [ha] at hn
            cases hn
          · have hj' : i'.jobId = some id := by
              rcases hj with hj | ⟨hf, -⟩
              · exact hj.trans hjid
              · cases hf
            refine ⟨id, hj', .inr ?_⟩
            rcases hrest with htne | ⟨p, hp', hphase⟩
            · exact .inl (htier ▸ htne)
            · rw [hp] at hp'
              cases hp'
              exact .inr hphase
        · have hj' : i'.jobId = some id := by
            rcases hj with hj | ⟨-, hj⟩
            · exact hj.trans hjid
            · rw [hjid] at hj
              exact absurd (Option.some.inj hj) he
          refine ⟨id, hj', ?_⟩
          rcases hrow with hrow | htne | hphase
          · exact .inl (hjob id he hrow)
          · exact .inr (.inl (htier ▸ htne))
          · exact .inr (.inr hphase)
  refine hs.withCatalog ht ?_ fun i' hi' => .inl ?_
  · rw [← hc]
    exact ⟨rfl, rfl, rfl, rfl⟩
  · obtain ⟨i, hi, hser, hch, -⟩ := hrows i' hi'
    exact ⟨i, hi, hser, hch⟩

/-! ## A merge -/

theorem MergeOk.at_iff (h : s.MergeOk) {u : Nat} {n : String} (hi : s.IntentAt u n i) :
    i.seriesId = u ∧ s.numberOf i.chapterId = some n := by
  obtain ⟨n', hat⟩ := h.place i hi.1
  exact ⟨(h.chapters.isAt_eq hat hi.2).1, numberOf_of_isAt h.chapters hi.2⟩

/-- The chapter of a row at a place with an active artifact has one. -/
theorem ActiveAt.hasActive (hs : s.ChaptersOk) {u : Nat} {n : String} {id : Nat}
    (ha : s.ActiveAt u n) (hat : s.IsAt u n id) : s.hasActiveArtifact id = true := by
  obtain ⟨a, hm, hact, c, hc, hid, hu, hn⟩ := ha
  obtain ⟨d, hd, rfl, hu', hn'⟩ := hat
  obtain rfl := hs.numbers c hc d hd (hu.trans hu'.symm) (hn.trans hn'.symm)
  exact Catalog.hasActiveArtifact_iff.mpr ⟨a, hm, hid.symm, hact⟩

/-- A plan that held the intent before its chapter moved holds it after. -/
theorem Held.moved {p p' : SeriesDownloadPlan} (h : s.Held p i) (hp : SamePlan p p')
    (hi : SameIntent i i') (hq : s.queue.KeepsRows s'.queue)
    (ha : s.hasActiveArtifact i.chapterId = true → s'.hasActiveArtifact i'.chapterId = true) :
    s'.Held p' i' := by
  have hno : s'.hasActiveArtifact i'.chapterId = false →
      s.hasActiveArtifact i.chapterId = false := by
    intro h'
    by_contra hn
    rw [ha (by simpa using hn)] at h'
    cases h'
  refine ⟨hp.status.trans h.active, fun hn hb => ?_, fun hn hs => ?_⟩
  · exact hp.phase.trans (h.blocked (hno hn) (hi.state.symm.trans hb))
  · obtain ⟨id, hj, hrow⟩ := h.queued (hno hn) (hi.state.symm.trans hs)
    refine ⟨id, hi.job.trans hj, ?_⟩
    rcases hrow with hrow | hne | hphase
    · exact .inl (hq id hrow)
    · exact .inr (.inl (hi.tier ▸ hne))
    · exact .inr (.inr (hp.phase.trans hphase))

/-- The intent that is left at a number was the first one in the order of the merge. -/
theorem survives_of_first (hs : s.MergeOk) {pre post : List Nat} {u : Nat} {n : String}
    (he : order = pre ++ u :: post) (hi : s.IntentAt u n i)
    (hpre : ∀ v ∈ pre, ∀ j, ¬ s.IntentAt v n j) : s.Survives order i := by
  obtain ⟨hu, hn⟩ := hs.at_iff hi
  have htake : order.takeWhile (· != i.seriesId) = pre := by
    rw [he, hu, List.takeWhile_append_of_pos, List.takeWhile_cons_of_neg, List.append_nil]
    · simp
    · intro v hv
      simp only [bne_iff_ne, ne_eq]
      rintro rfl
      exact hpre v hv i hi
  intro v hv j hj heq
  rw [htake] at hv
  obtain ⟨hjm, hjv⟩ := Catalog.mem_intentsOf.mp hj
  obtain ⟨n', hat⟩ := hs.place j hjm
  rw [numberOf_of_isAt hs.chapters hat, hn] at heq
  cases heq
  exact hpre v hv j ⟨hjm, hjv ▸ hat⟩

/-- The artifact is one of a chapter of the merge. -/
theorem DoneIn.activeAt (hs : s.ChaptersOk) {n : String} (h : s.DoneIn order i)
    (hn : s.numberOf i.chapterId = some n) : ∃ u ∈ order, s.ActiveAt u n := by
  obtain ⟨a, hm, hact, hnum, c, hc, hid, hu⟩ := h
  refine ⟨_, hu, a, hm, hact, c, hc, hid, rfl, ?_⟩
  have hat : s.IsAt c.seriesId c.canonicalNumber a.chapterId := ⟨c, hc, hid, rfl, rfl⟩
  rw [numberOf_of_isAt hs hat, hn] at hnum
  exact Option.some.inj hnum

theorem Kept.merge (hs : s.Kept) (hg : Gathered order target s s')
    (hm : s.PlanHolds order) : s'.Kept := by
  -- each intent comes from one of before, at its place or at the place of a merged series
  have hfrom : ∀ i' ∈ s'.intents, ∃ n i, SameIntent i i' ∧ s'.IsAt i'.seriesId n i'.chapterId ∧
      ((i'.seriesId ∉ order ∧ s.IntentAt i'.seriesId n i) ∨
        (i'.seriesId = target ∧ i.seriesId ∈ order ∧ s.IntentAt i.seriesId n i ∧
          s.Survives order i)) := by
    intro i' hi'
    obtain ⟨n, hat⟩ := hg.ok.place i' hi'
    by_cases hmem : i'.seriesId ∈ order
    · have ht : i'.seriesId = target := by
        by_contra hne
        exact hg.emptied _ hmem hne n i' ⟨hi', hat⟩
      obtain ⟨pre, u, post, i, he, hsame, hi, hpre⟩ := hg.origin n i' ⟨hi', ht ▸ hat⟩
      obtain ⟨hu, -⟩ := hs.ok.at_iff hi
      refine ⟨n, i, hsame, hat, .inr ⟨ht, ?_, hu.symm ▸ hi, survives_of_first hs.ok he hi hpre⟩⟩
      rw [hu, he]
      exact List.mem_append_right _ List.mem_cons_self
    · obtain ⟨i, hsame, hi⟩ := hg.others _ hmem n i' ⟨hi', hat⟩
      exact ⟨n, i, hsame, hat, .inl ⟨hmem, hi⟩⟩
  refine ⟨⟨hg.ok.plansOk, fun p' hp' ha => ?_, fun i' hi' hb => ?_, fun i' hi' ho => ?_⟩, hg.ok⟩
  · obtain ⟨p, hp, hsame⟩ := hg.kept p' hp'
    rw [hsame.phase]
    exact hs.tended.phases p hp (hsame.status.symm.trans ha)
  · obtain ⟨n, i, hsame, -, hi⟩ := hfrom i' hi'
    have hm : i ∈ s.intents := hi.elim (fun h => h.2.1) fun h => h.2.2.1.1
    exact hsame.tier.trans (hs.tended.tiers i hm (hsame.state.symm.trans hb))
  · obtain ⟨n, i, hsame, hat, hi⟩ := hfrom i' hi'
    have ho' : i.state.isFinished = false := hsame.state ▸ ho
    rcases hi with ⟨hout, hi⟩ | ⟨ht, hser, hi, hsurv⟩
    · obtain ⟨hu, -⟩ := hs.ok.at_iff hi
      obtain ⟨p, hp, hh⟩ := hs.tended.held i hi.1 ho'
      rw [hu] at hp
      refine ⟨p, (hg.otherPlans _ hout).trans hp, Held.moved hh .refl hsame hg.rows fun ha => ?_⟩
      obtain ⟨a, ham, hch, hact⟩ := Catalog.hasActiveArtifact_iff.mp ha
      exact (hg.othersActive _ hout n ⟨a, ham, hact, hch ▸ hi.2⟩).hasActive hg.ok.chapters hat
    · obtain ⟨p, hp, hactive, hh⟩ := hm i hi.1 hser ho' hsurv
      have hplan := hg.plan
      rw [hp] at hplan
      rw [ht]
      rw [ht] at hat
      cases hp' : s'.plan? target with
      | none =>
        rw [hp'] at hplan
        cases hplan
      | some p' =>
        rw [hp'] at hplan
        obtain ⟨hsp⟩ := hplan
        refine ⟨p', rfl, ?_⟩
        rcases hh with hdone | hh
        · obtain ⟨u, hu, ha⟩ := DoneIn.activeAt hs.ok.chapters hdone (hs.ok.at_iff hi).2
          have hact := (hg.active u hu n ha).hasActive hg.ok.chapters hat
          refine ⟨hsp.status.trans hactive, fun hn => ?_, fun hn => ?_⟩ <;>
          · rw [hact] at hn
            cases hn
        · refine Held.moved hh hsp hsame hg.rows fun ha => ?_
          obtain ⟨a, ham, hch, hact⟩ := Catalog.hasActiveArtifact_iff.mp ha
          exact (hg.active _ hser n ⟨a, ham, hact, hch ▸ hi.2⟩).hasActive hg.ok.chapters hat

/-! ## Runs -/

theorem Kept.step {l : PlanCall} (hs : s.Kept) (hp : l.Possible s) (hm : l.Minds t s now) :
    (l.apply t s now).Kept := by
  cases l with
  | track window seriesId =>
    simp only [PlanCall.apply]
    cases h : s.toCatalog.track now window seriesId with
    | error e => exact hs
    | ok c => exact hs.track h
  | untrack seriesId => exact hs.untrack now seriesId
  | chapter call => exact hs.chapter hp hm
  | loseJob jobId nulls => exact hs.loseJob hm
  | merge ids =>
    simp only [PlanCall.apply]
    cases h : s.mergeCanonicalSeries t ids now with
    | error e => exact hs
    | ok r =>
      obtain ⟨-, hg⟩ := mergeCanonicalSeries_gathered hs.ok h
      exact hs.merge hg (hm ⟨r, h⟩)

theorem Blank.kept (h : s.Blank) : s.Kept := by
  refine ⟨⟨h.ok.plansOk, ?_, ?_, ?_⟩, h.ok⟩
  · simp [h.plans]
  · simp [h.intents]
  · simp [h.intents]

/-- In a run whose calls leave every open intent to a plan that holds it, from a collection in
which nothing was tracked, no open intent is stranded once all plans have been reconciled, whenever
that is. -/
theorem none_stranded {tr : List (Collection × (PlanCall × Time))} {s₀ : Collection} (h₀ : s₀.Blank)
    (h : Run (PlanStep t) s₀ tr s) (hm : Run.Meets (fun s l => l.1.Minds t s l.2) tr) :
    ∀ x, Run.Visits tr s x → ∀ (window : Nat) (visits : List (Nat × Time)),
      (∀ plan ∈ x.plans, ∃ v ∈ visits, v.1 = plan.seriesId) →
      ∃ c, x.reconcileAll window visits = .ok c ∧ c.NoneStranded := by
  intro x hx window visits hall
  have hk : x.Kept := h.invariant_visits hm h₀.kept (fun s l s' hl hs hstep => by
    obtain ⟨hp, rfl⟩ := hstep
    exact hs.step hp hl) x hx
  exact hk.tended.noneStranded window hall

end

/-- Two titles that are not tracked: the first one has its chapter, the second one can be had from
another provider. -/
def twoTitles : Collection where
  identities :=
    [{ id := 1, seriesId := 1, source := "asura", sourceId := "a", title := "A", url := "" },
      { id := 2, seriesId := 2, source := "mangadex", sourceId := "b", title := "B", url := "" }]
  chapters :=
    [{ id := 7, seriesId := 1, canonicalNumber := "1", createdAt := 0 },
      { id := 8, seriesId := 2, canonicalNumber := "2", createdAt := 0 }]
  releases := [{ releaseOf 2 "mangadex" Nat.two_pos with chapterId := 8 }]
  artifacts := [{ id := 1, chapterId := 7, chapterReleaseId := none, blobChecksum := "x" }]
  nextArtifact := 2
  series := [{ id := 1, storageKey := "a" }, { id := 2, storageKey := "b" }]

/-- Both titles are tracked, and then merged. -/
def mergeTracked : List (PlanCall × Time) :=
  [(.track 20 1, 1), (.track 20 2, 2), (.merge [1, 2], 3)]

theorem twoTitles_blank : twoTitles.Blank := by
  refine ⟨⟨⟨⟨?_, ?_⟩, ?_, ?_, ?_⟩, ?_, ?_, ?_, ?_, ⟨?_, ?_⟩, ?_⟩, rfl, rfl⟩
  · decide
  · simp [twoTitles]
  · decide
  · simp [twoTitles]
  · decide
  · decide
  · decide
  · decide
  · simp [twoTitles]
  · decide
  · decide
  · simp [twoTitles]

/-- The state after the calls. -/
def afterCalls (calls : List (PlanCall × Time)) : Collection :=
  calls.foldl (fun s l => l.1.apply asciiText s l.2) twoTitles

/-- The first title's plan is complete, and it is the one that stays: the download of the other
title's chapter is left to it. -/
theorem merged_stranded : ∃ tr s c, twoTitles.Blank ∧ Run (PlanStep asciiText) twoTitles tr s ∧
    (∀ plan ∈ s.plans, ∃ v ∈ [((1 : Nat), (4 : Time))], v.1 = plan.seriesId) ∧
    s.reconcileAll 20 [(1, 4)] = .ok c ∧ ¬ c.NoneStranded := by
  refine ⟨_, _, (afterCalls mergeTracked).toCatalog, twoTitles_blank,
    Run.of_foldl (fun s l => l.1.apply asciiText s l.2) mergeTracked fun x hx => ⟨?_, rfl⟩,
    ?_, ?_, fun h => ?_⟩
  · simp only [mergeTracked, Run.history, List.mem_cons, List.not_mem_nil, or_false] at hx
    rcases hx with rfl | rfl | rfl <;> exact trivial
  · decide +kernel
  · decide +kernel
  · have hactive : ∀ i ∈ (afterCalls mergeTracked).intents, i.state.isFinished = false →
        ((afterCalls mergeTracked).plan? i.seriesId).any (·.status == .active) = true := by
      intro i hi ho
      obtain ⟨plan, hp, ha, -⟩ := (h i hi ho).plan
      rw [hp, Option.any_some, ha]
      rfl
    revert hactive
    decide +kernel

/-- Only the second title is tracked: its plan goes over to the first. -/
def mergeUntracked : List (PlanCall × Time) := [(.track 20 2, 1), (.merge [1, 2], 2)]

theorem mergeUntracked_minds :
    (afterCalls (mergeUntracked.take 1)).PlanHolds
      ((afterCalls (mergeUntracked.take 1)).mergeOrder [1, 2]) := by
  intro i hi _ _ _
  have hone : ∀ i ∈ (afterCalls (mergeUntracked.take 1)).intents, i.state = .queued ∧
      i.jobId = some 1 := by decide +kernel
  obtain ⟨hs, hj⟩ := hone i hi
  let plan : SeriesDownloadPlan :=
    { seriesId := 2, totalChapters := 1, createdAt := 1, updatedAt := 1 }
  refine ⟨plan, by decide +kernel, rfl, .inr ⟨rfl, fun _ _ => rfl, fun _ _ => ?_⟩⟩
  exact ⟨1, hj, .inl (by decide +kernel)⟩

theorem none_stranded_merged : ∃ c, (afterCalls mergeUntracked).reconcileAll 20 [(1, 3)] = .ok c ∧
    c.NoneStranded := by
  refine none_stranded twoTitles_blank
    (Run.of_foldl (fun s l => l.1.apply asciiText s l.2) mergeUntracked fun x hx => ⟨?_, rfl⟩)
    (fun x hx => ?_) _ Run.visits_last 20 [(1, 3)] (by decide +kernel)
  · simp only [mergeUntracked, Run.history, List.mem_cons, List.not_mem_nil, or_false] at hx
    rcases hx with rfl | rfl <;> exact trivial
  · simp only [mergeUntracked, Run.history, List.mem_cons, List.not_mem_nil, or_false] at hx
    rcases hx with rfl | rfl
    · exact trivial
    · exact fun _ => mergeUntracked_minds

end Collection

end MangaManager
