import MangaManager.Downloads.Reroute
import MangaManager.Queue.Fencing

/-!
# Fencing of the workers

Workers interleave calls of the queue with `_reroute` of the chapter handler,
while other transactions change the catalog. The queue's calls are fenced by the
worker's name. The handler's step is not: it looks at `status = leased` only,
and the coordinator passes on whatever owner the row has. `fencing_iff`: a step
of a superseded worker leaves the job alone and reports failure exactly when it
is not a handler step that finds the job leased, a fallback to move it to, or
another provider to note in its payload.
-/

namespace MangaManager

open Lib

/-- A step of a worker, or of a transaction on the catalog. -/
inductive DownloadCall where
  | call (op : Op)
  | handlerReroute (owner : String) (jobId : Nat) (snapshot : DownloadSnapshot)
      (code message : String) (retryAt : Time)
  | catalog (releases : List CatalogChapterRelease) (attempts : List ChapterReleaseAttempt)
      (intents : List ChapterDownloadIntent)

/-- The job is leased, and its release and payload are there. -/
structure Downloads.Finds (d : Downloads) (jobId : Nat) (snapshot : DownloadSnapshot)
    (job : WorkJob) (release : CatalogChapterRelease) (payload : ChapterDownloadPayload) :
    Prop where
  row : d.queue.job? jobId = some job
  releaseRow : d.release? snapshot.releaseId = some release
  leased : job.status = .leased
  typed : job.payload = .chapterDownload payload

namespace DownloadCall

def apply (l : DownloadCall) (d : Downloads) (now : Time) : Downloads :=
  match l with
  | call op => { d with queue := op.apply d.queue now }
  | handlerReroute _ jobId snapshot code message retryAt =>
    match d.handlerReroute jobId snapshot code message retryAt now with
    | .ok (d', _) => d'
    | .error _ => d
  | catalog releases attempts intents =>
    { d with releases := releases, attempts := attempts, intents := intents }

/-- The worker a step is made by, and the job it is about. -/
def actor : DownloadCall → Option (String × Nat)
  | call op => op.actor
  | handlerReroute owner jobId _ _ _ _ => some (owner, jobId)
  | catalog _ _ _ => none

/-- Whether a worker's step reports success. -/
def reports (l : DownloadCall) (d : Downloads) (now : Time) : Bool :=
  match l with
  | call op => op.reports d.queue now
  | handlerReroute _ jobId snapshot code message retryAt =>
    match d.handlerReroute jobId snapshot code message retryAt now with
    | .ok (_, moved) => moved
    | .error _ => false
  | catalog _ _ _ => true

/-- The job and the worker a step leases it to. -/
def claims (l : DownloadCall) (d : Downloads) (now : Time) : Option (Nat × String) :=
  match l with
  | call op => op.claims d.queue now
  | _ => none

/-- The handler finds nothing to do to the job's row. -/
def HandlerHarmless (d : Downloads) (jobId : Nat) (snapshot : DownloadSnapshot) (now : Time) :
    Prop :=
  ∀ job release payload, d.Finds jobId snapshot job release payload →
    payload.preferredOnly = true ∨
      (fallbackRelease d.releases snapshot.chapterId snapshot.releaseId
          (Downloads.attempted payload snapshot.source) now = none ∧
        (Downloads.attempted payload snapshot.source).insertionSort (· ≤ ·) =
          payload.attemptedSources)

def Harmless (l : DownloadCall) (d : Downloads) (now : Time) : Prop :=
  match l with
  | handlerReroute _ jobId snapshot _ _ _ => HandlerHarmless d jobId snapshot now
  | _ => True

/-- The step leaves the row, the payload, the lease and the permits of job `id`, and reports
failure. -/
def Fenced (l : DownloadCall) (d : Downloads) (now : Time) (id : Nat) : Prop :=
  (l.apply d now).queue.job? id = d.queue.job? id ∧
    ((l.apply d now).queue.permits.filter fun p => p.jobId == id) =
      (d.queue.permits.filter fun p => p.jobId == id) ∧
    l.reports d now = false

end DownloadCall

structure ClockedDownloads where
  tables : Downloads
  clock : Time

/-- A step at a time not before the clock. -/
def DownloadStep (c : ClockedDownloads) (l : DownloadCall × Time) (c' : ClockedDownloads) : Prop :=
  c.clock ≤ l.2 ∧ c' = ⟨l.1.apply c.tables l.2, l.2⟩

abbrev DownloadRun (t₀ : Time) := Run DownloadStep ⟨{}, t₀⟩

/-- The history of leases of a run. -/
def leaseGrants (c : ClockedDownloads) (l : DownloadCall × Time) : Option (Nat × String) :=
  l.1.claims c.tables l.2

/-! ## The handler's step -/

namespace Downloads

section
variable {d d' : Downloads} {jobId : Nat} {snapshot : DownloadSnapshot} {code message : String}
  {retryAt now : Time} {job : WorkJob} {release alternative : CatalogChapterRelease}
  {payload : ChapterDownloadPayload} {moved : Bool}

@[simp] theorem requeueIntent_queue {chapterId : Nat} :
    (d.requeueIntent chapterId jobId now).queue = d.queue := by
  unfold requeueIntent
  split <;> rfl

/-- A payload the coordinator builds validates. -/
theorem parse_replacement (payload : ChapterDownloadPayload)
    (release alternative : CatalogChapterRelease) : parseJobPayload .chapterDownload
    (replacement payload release alternative) = some (replacement payload release alternative) :=
  parseJobPayload_eq_some.mpr ⟨rfl, rfl, by simp [replacement, JobPayload.validate,
    alternative.id_pos]⟩

/-- On a leased row of the kind the coordinator always moves the job. -/
theorem reroute_ok (code message : String) (retryAfter : Option Time) (now : Time) (payload : ChapterDownloadPayload)
    (release alternative : CatalogChapterRelease) (hk : Table.Keyed WorkJob.id d.queue.jobs)
    (hj : job ∈ d.queue.jobs) (hl : job.status = .leased) (hkind : job.kind = .chapterDownload) :
    ∃ d', d.reroute job payload release alternative code message retryAfter now = .ok d' ∧
      d'.queue = (Op.reroute job.id job.leaseOwner (replacement payload release alternative)
        alternative.source now ("rerouted to " ++ alternative.source ++ ": " ++ code)).apply
          d.queue now ∧
      d'.queue.job? job.id = some (job.clearLease.rerouteTo (replacement payload release
        alternative) alternative.source now
          ("rerouted to " ++ alternative.source ++ ": " ++ code) now) := by
  have hsel := Queue.selectOwned_eq hk hj hl
  have hp := hkind ▸ parse_replacement payload release alternative
  refine ⟨_, by simp only [reroute, Queue.reroute, hsel, hp]; rfl, ?_, ?_⟩
  · simp [addAttempt, postpone, Op.apply, Queue.reroute, hsel, hp, committed]
  · simp only [addAttempt, requeueIntent_queue]
    exact Queue.job?_putJob (r := job.clearLease.rerouteTo _ _ _ _ now) hj rfl

/-- The handler stops early, or goes on with what it finds. -/
theorem handlerReroute_cases (jobId : Nat) (snapshot : DownloadSnapshot) (code message : String)
    (retryAt now : Time) (hw : d.queue.WellFormed) :
    ((∀ job release payload, ¬ d.Finds jobId snapshot job release payload) ∧
      (d.handlerReroute jobId snapshot code message retryAt now = .ok (d, false) ∨
        d.handlerReroute jobId snapshot code message retryAt now = .error .invalidPayload)) ∨
    ∃ job release payload, d.Finds jobId snapshot job release payload ∧
      d.handlerReroute jobId snapshot code message retryAt now =
        d.leasedReroute job release payload snapshot code message retryAt now := by
  unfold handlerReroute
  split
  · rename_i job release hj hr
    obtain ⟨hm, -⟩ := Queue.job?_some hj
    split
    · rename_i hl
      refine .inl ⟨fun _ _ _ h => hl ?_, .inl rfl⟩
      rw [Option.some.inj (hj.symm.trans h.row)]
      exact h.leased
    rename_i hl
    split
    · rename_i payload hp
      exact .inr ⟨job, release, payload,
        ⟨hj, hr, not_not.mp hl, (parseJobPayload_eq_some.mp hp).1⟩, rfl⟩
    · rename_i hp
      refine .inl ⟨fun job' _ payload h => hp payload ?_, .inr rfl⟩
      obtain rfl := Option.some.inj (hj.symm.trans h.row)
      have hv := (hw.rows job hm).payload
      rw [h.typed] at hv ⊢
      exact parseJobPayload_eq_some.mpr ⟨rfl, rfl, hv.2⟩
  · rename_i hn
    exact .inl ⟨fun job release _ h => hn job release h.row h.releaseRow, .inl rfl⟩

/-- What the handler does to the queue: nothing, a note in the payload of the leased row, or a
reroute in the name of whoever holds the lease. -/
theorem handlerReroute_queue (hw : d.queue.WellFormed)
    (h : d.handlerReroute jobId snapshot code message retryAt now = .ok (d', moved)) :
    d'.queue = d.queue ∨
    ∃ job release payload, d.Finds jobId snapshot job release payload ∧
      ((∃ sources, d'.queue = d.queue.putJob (withAttempted job payload sources)) ∨
      ∃ payload source message, d'.queue =
        (Op.reroute job.id job.leaseOwner payload source now message).apply d.queue now) := by
  rcases handlerReroute_cases jobId snapshot code message retryAt now hw with ⟨-, he | he⟩ |
    ⟨job, release, payload, hf, he⟩
  · rw [he] at h
    cases h
    exact .inl rfl
  · rw [he] at h
    cases h
  · rw [he] at h
    obtain ⟨hm, -⟩ := Queue.job?_some hf.row
    have hk : job.kind = .chapterDownload := by
      rw [← (hw.rows job hm).payload.1, hf.typed]
      rfl
    unfold leasedReroute at h
    split at h
    · cases h
      exact .inl rfl
    split at h
    · cases h
      exact .inr ⟨job, release, payload, hf, .inl ⟨_, rfl⟩⟩
    · rename_i alternative _
      obtain ⟨d₁, ho, hq, -⟩ := reroute_ok code message (some retryAt) now payload release
        alternative hw.jobs hm hf.leased hk
      rw [ho] at h
      cases h
      exact .inr ⟨job, release, payload, hf, .inr ⟨_, _, _, hq⟩⟩

end

end Downloads

section
variable {d : Downloads} {now : Time} {l : DownloadCall}

/-- A note in the payload keeps the queue well formed. -/
theorem Queue.WellFormed.put_attempted {s : Queue} {job : WorkJob}
    {payload : ChapterDownloadPayload} {sources : List String} (hw : s.WellFormed)
    (hj : job ∈ s.jobs) (hl : job.status = .leased) (hp : job.payload = .chapterDownload payload) :
    (s.putJob (Downloads.withAttempted job payload sources)).WellFormed := by
  have hrow := hw.rows job hj
  have hv : (Downloads.withAttempted job payload sources).payload.ValidFor job.kind := by
    have hv := hrow.payload
    rw [hp] at hv
    exact hv
  refine hw.of_put (k := Downloads.withAttempted job payload sources) (.inl ⟨rfl, rfl⟩) hj
    ⟨rfl, rfl, rfl, rfl, rfl, rfl⟩ ?_ (by rw [hl]; rfl) rfl rfl
  exact hrow.of_lease rfl hv (.inl rfl) rfl rfl hrow.attempts hrow.lease hrow.owner

theorem DownloadCall.apply_wellFormed (hw : d.queue.WellFormed) :
    (l.apply d now).queue.WellFormed := by
  cases l with
  | call op => exact Op.apply_wellFormed _ _ hw
  | catalog => exact hw
  | handlerReroute owner jobId snapshot code message retryAt =>
    simp only [DownloadCall.apply]
    cases hr : d.handlerReroute jobId snapshot code message retryAt now with
    | error e => exact hw
    | ok r =>
      obtain ⟨d', moved⟩ := r
      rcases Downloads.handlerReroute_queue hw hr with h | ⟨job, release, payload, hf, ⟨sources, h⟩ |
        ⟨payload, source, message, h⟩⟩
      · exact h ▸ hw
      · exact h ▸ hw.put_attempted (Queue.job?_some hf.row).1 hf.leased hf.typed
      · exact h ▸ Op.apply_wellFormed _ _ hw

/-- A note in the payload leaves the row as it is only if it notes nothing new. -/
theorem job?_put_attempted {s : Queue} {job : WorkJob} {payload : ChapterDownloadPayload}
    {sources : List String} (hj : job ∈ s.jobs) (hp : job.payload = .chapterDownload payload) :
    (s.putJob (Downloads.withAttempted job payload sources)).job? job.id = some job ↔
      sources = payload.attemptedSources := by
  have hget := Queue.job?_putJob (r := Downloads.withAttempted job payload sources) hj rfl
  rw [show (s.putJob _).job? job.id = _ from hget, Option.some.injEq]
  constructor
  · intro e
    have he := congrArg WorkJob.payload e
    rw [hp] at he
    exact congrArg ChapterDownloadPayload.attemptedSources (JobPayload.chapterDownload.inj he)
  · rintro rfl
    rw [Downloads.withAttempted, ← hp]

/-- The handler's step is fenced exactly when it is harmless. -/
theorem DownloadCall.handler_fenced_iff (owner : String) (jobId : Nat)
    (snapshot : DownloadSnapshot) (code message : String) (retryAt : Time)
    (hw : d.queue.WellFormed) :
    (handlerReroute owner jobId snapshot code message retryAt).Fenced d now jobId ↔
      HandlerHarmless d jobId snapshot now := by
  rcases Downloads.handlerReroute_cases jobId snapshot code message retryAt now hw with
    ⟨hn, he | he⟩ | ⟨job, release, payload, hf, he⟩
  · simp [Fenced, HandlerHarmless, apply, reports, he, hn]
  · simp [Fenced, HandlerHarmless, apply, reports, he, hn]
  obtain ⟨hm, rfl⟩ := Queue.job?_some hf.row
  have hharm : HandlerHarmless d job.id snapshot now ↔ payload.preferredOnly = true ∨
      (fallbackRelease d.releases snapshot.chapterId snapshot.releaseId
          (Downloads.attempted payload snapshot.source) now = none ∧
        (Downloads.attempted payload snapshot.source).insertionSort (· ≤ ·) =
          payload.attemptedSources) := by
    refine ⟨fun h => h job release payload hf, fun h job' _ payload' hf' => ?_⟩
    obtain rfl := Option.some.inj (hf.row.symm.trans hf'.row)
    obtain rfl := JobPayload.chapterDownload.inj (hf.typed.symm.trans hf'.typed)
    exact h
  rw [hharm]
  unfold Fenced
  simp only [apply, reports, he, Downloads.leasedReroute]
  by_cases hpref : payload.preferredOnly = true
  · simp [hpref, Downloads.postpone, hf.row]
  simp only [hpref]
  cases hfb : fallbackRelease d.releases snapshot.chapterId snapshot.releaseId
      (Downloads.attempted payload snapshot.source) now with
  | none =>
    rw [hf.row, ← job?_put_attempted hm hf.typed]
    simp [Downloads.noteAttempted, Downloads.addAttempt, Queue.putJob]
  | some alternative =>
    have hk : job.kind = .chapterDownload := by
      rw [← (hw.rows job hm).payload.1, hf.typed]
      rfl
    obtain ⟨d₁, ho, -, -⟩ := Downloads.reroute_ok code message (some retryAt) now payload release
      alternative hw.jobs hm hf.leased hk
    simp [ho, Except.map]

/-! ## The other steps -/

/-- Who holds a lease after a step. -/
theorem DownloadCall.holds (hw : d.queue.WellFormed) {id : Nat} {o : String}
    (hh : (l.apply d now).queue.Holds id o) :
    l.claims d now = some (id, o) ∨ (d.queue.Holds id o ∧ ∀ o', l.claims d now ≠ some (id, o')) := by
  cases l with
  | call op => exact Op.holds hw.jobs hh
  | catalog => exact .inr ⟨hh, fun _ h => by cases h⟩
  | handlerReroute owner jobId snapshot code message retryAt =>
    refine .inr ⟨?_, fun _ h => by cases h⟩
    simp only [DownloadCall.apply] at hh
    cases hr : d.handlerReroute jobId snapshot code message retryAt now with
    | error e => rwa [hr] at hh
    | ok r =>
      obtain ⟨d', moved⟩ := r
      rw [hr] at hh
      dsimp only at hh
      rcases Downloads.handlerReroute_queue hw hr with h | ⟨job, release, payload, hf, ⟨sources, h⟩ |
        ⟨payload, source, message, h⟩⟩ <;> rw [h] at hh
      · exact hh
      · obtain ⟨k, hk, hid, hl, ho⟩ := hh
        rcases Table.mem_put.mp hk with ⟨rfl, -⟩ | ⟨hk, -⟩
        · exact ⟨job, (Queue.job?_some hf.row).1, hid, hl, ho⟩
        · exact ⟨k, hk, hid, hl, ho⟩
      · rcases Op.holds hw.jobs hh with h | ⟨h, -⟩
        · cases h
        · exact h

/-- A harmless step of anybody but the holder keeps an unexpired lease, a cancel excepted. -/
theorem DownloadCall.keeps_lease (hw : d.queue.WellFormed) {j : WorkJob} (hj : j ∈ d.queue.jobs)
    (hl : j.Live now) (hh : l.Harmless d now) (ha : l.actor ≠ some (j.leaseOwner, j.id))
    (hc : ∀ reason, l ≠ .call (.cancel j.id reason)) :
    ∃ j' ∈ (l.apply d now).queue.jobs, SameLease j j' := by
  cases l with
  | call op => exact Op.keeps_lease hw hj hl ha fun reason e => hc reason (congrArg _ e)
  | catalog => exact ⟨j, hj, rfl, rfl, rfl, rfl⟩
  | handlerReroute owner jobId snapshot code message retryAt =>
    by_cases hid : j.id = jobId
    · subst hid
      have hf := (handler_fenced_iff owner j.id snapshot code message retryAt hw).mpr hh
      have hget := hf.1.trans (Queue.job?_eq hw.jobs hj)
      exact ⟨j, (Queue.job?_some hget).1, rfl, rfl, rfl, rfl⟩
    · simp only [DownloadCall.apply]
      cases hr : d.handlerReroute jobId snapshot code message retryAt now with
      | error e => exact ⟨j, hj, rfl, rfl, rfl, rfl⟩
      | ok r =>
        obtain ⟨d', moved⟩ := r
        dsimp only
        rcases Downloads.handlerReroute_queue hw hr with h | ⟨job, release, payload, hf,
          ⟨sources, h⟩ | ⟨payload, source, message, h⟩⟩ <;> rw [h]
        · exact ⟨j, hj, rfl, rfl, rfl, rfl⟩
        · have hne : j.id ≠ job.id := fun e => hid (e.trans (Queue.job?_some hf.row).2)
          exact ⟨j, Table.mem_put_of_ne hj hne, rfl, rfl, rfl, rfl⟩
        · have hne : j.id ≠ job.id := fun e => hid (e.trans (Queue.job?_some hf.row).2)
          refine Op.keeps_lease hw hj hl (fun e => hne ?_) fun _ e => by cases e
          exact (Prod.mk.inj (Option.some.inj e)).2.symm

end

/-! ## Runs -/

section
variable {t₀ : Time} {tr : List (ClockedDownloads × (DownloadCall × Time))} {c : ClockedDownloads}

theorem DownloadRun.wellFormed (h : DownloadRun t₀ tr c) : c.tables.queue.WellFormed := by
  refine h.always (P := fun c => c.tables.queue.WellFormed) Queue.wellFormed_empty ?_
  rintro c l c' hw ⟨-, rfl⟩
  exact DownloadCall.apply_wellFormed hw

/-- Whoever holds the lease of a job was the last to claim it. -/
theorem DownloadRun.lastGrant (h : DownloadRun t₀ tr c) {id : Nat} {o : String}
    (hh : c.tables.queue.Holds id o) : lastGrant leaseGrants tr id = some o := by
  refine h.holds_lastGrant (H := fun c => c.tables.queue.Holds) ?_ ?_ hh
  · rintro k o ⟨j, hj, -⟩
    cases hj
  · rintro tr c ⟨l, now⟩ c' hrun ⟨-, rfl⟩ k o hh
    exact DownloadCall.holds (DownloadRun.wellFormed hrun) hh

/-- After any run: a step of a superseded worker is fenced exactly when it is harmless, and a
harmless step of anybody but the holder keeps an unexpired lease, an operator's cancel
excepted. -/
theorem fencing_iff (h : DownloadRun t₀ tr c) (l : DownloadCall) (now : Time) :
    (∀ w id, l.actor = some (w, id) → Superseded leaseGrants tr w id →
      (l.Fenced c.tables now id ↔ l.Harmless c.tables now)) ∧
    (∀ j ∈ c.tables.queue.jobs, j.Live now → l.Harmless c.tables now →
      l.actor ≠ some (j.leaseOwner, j.id) → (∀ reason, l ≠ .call (.cancel j.id reason)) →
      ∃ j' ∈ (l.apply c.tables now).queue.jobs, SameLease j j') := by
  have hw := DownloadRun.wellFormed h
  refine ⟨fun w id ha hs => ?_, fun j hj hl hh ha hc => l.keeps_lease hw hj hl hh ha hc⟩
  have hno : ¬ c.tables.queue.Holds id w := hs.not_holds (H := fun c : ClockedDownloads => c.tables.queue.Holds) (s := c)
    fun o => DownloadRun.lastGrant h
  cases l with
  | call op =>
    obtain ⟨he, hr⟩ := Op.fenced now ha hno
    simp [DownloadCall.Fenced, DownloadCall.Harmless, DownloadCall.apply, DownloadCall.reports,
      he, hr]
  | handlerReroute owner jobId snapshot code message retryAt =>
    cases ha
    exact DownloadCall.handler_fenced_iff w id snapshot code message retryAt hw
  | catalog => cases ha

/-- Worker `a` claims a chapter, its lease runs out, and worker `b` claims it again. -/
def reclaimedChapter : List (DownloadCall × Time) :=
  let claim (owner : String) : DownloadCall := .call (.claim {} { owner := owner, leaseFor := 10 })
  [(.catalog [⟨1, Nat.one_pos, 7, "mangadex", none, 0⟩, ⟨2, Nat.two_pos, 7, "asura", none, 0⟩] [] [], 0),
    (.call (.enqueue { kind := .chapterDownload, dedupeKey := "chapter:7", source := "mangadex"
                       payload := .chapterDownload { chapterReleaseId := 1 } }), 0),
    (claim "a", 1), (claim "b", 12)]

def afterCall (c : ClockedDownloads) (l : DownloadCall × Time) : ClockedDownloads :=
  ⟨l.1.apply c.tables l.2, l.2⟩

theorem reclaimedChapter_run :
    DownloadRun 0 (Run.history afterCall ⟨{}, 0⟩ reclaimedChapter)
      (reclaimedChapter.foldl afterCall ⟨{}, 0⟩) := by
  refine Run.of_foldl afterCall reclaimedChapter fun x hx => ⟨?_, rfl⟩
  revert x
  decide +kernel

theorem reclaimedChapter_superseded :
    Superseded leaseGrants (Run.history afterCall ⟨{}, 0⟩ reclaimedChapter) "a" 1 :=
  ⟨by decide +kernel, "b", by decide +kernel, by decide⟩

/-- The late failure of `a` takes the job away from `b`. -/
theorem reclaimedChapter_moved :
    ∃ tr c, DownloadRun 0 tr c ∧ Superseded leaseGrants tr "a" 1 ∧
      ¬ (DownloadCall.handlerReroute "a" 1 ⟨1, 7, "mangadex"⟩ "rate_limited" "slow down" 500).Fenced
        c.tables 13 1 := by
  refine ⟨_, _, reclaimedChapter_run, reclaimedChapter_superseded, fun h => ?_⟩
  have hrow := h.1
  revert hrow
  decide +kernel

/-- A late success of `a` is fenced. -/
theorem fencing_iff_reclaimed :
    ∃ tr c, DownloadRun 0 tr c ∧ Superseded leaseGrants tr "a" 1 ∧
      (DownloadCall.call (.succeed 1 "a")).Fenced c.tables 13 1 := by
  refine ⟨_, _, reclaimedChapter_run, reclaimedChapter_superseded, ?_⟩
  exact ((fencing_iff reclaimedChapter_run (.call (.succeed 1 "a")) 13).1 "a" 1 rfl
    reclaimedChapter_superseded).mpr trivial

end

end MangaManager
