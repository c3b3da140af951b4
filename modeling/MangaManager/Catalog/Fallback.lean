import MangaManager.Catalog.Artifacts
import MangaManager.Catalog.Requeue

/-!
# The fallback of a chapter

A chapter download moves from provider to provider: its handler reroutes it when the
provider failed, and the coordinator when it is cooling down. `attempted_sources` of the
payload keeps the providers it left.

`fallback_terminates_iff`: along a run each reroute goes to a provider that was not
attempted and notes the one it leaves, and there are fewer of them than providers of the
chapter, exactly when no handler moves the job from a provider that is neither its own nor
noted.
-/

namespace MangaManager

open Lib

/-- A call that leaves the route of a download; the two reroutes are made by the coordinator, and
downloads are not coalesced. -/
def Op.KeepsRoutes : Op → Prop
  | enqueue a => a.kind ≠ .chapterDownload ∨ a.coalesce = false
  | reroute _ _ _ _ _ _ | rerouteWaiting _ _ _ _ _ => False
  | _ => True

inductive FallbackCall where
  | call (op : Op)
  | addRelease (release : ReleaseRow)
  | start (jobId : Nat)
  | fail (d : RunningDownload) (code message : String) (retryAt : Time)
  | bypass (source : String) (retryAfter : Time)

namespace FallbackCall

def apply (l : FallbackCall) (w : ChapterWork) (now : Time) : ChapterWork :=
  match l with
  | call op => { w with catalog := { w.catalog with queue := op.apply w.catalog.queue now } }
  | addRelease release =>
    { w with catalog := { w.catalog with releases := w.catalog.releases ++ [release] } }
  | start jobId => { w with running := w.running ++ (w.catalog.startDownload jobId).toList }
  | fail d code message retryAt =>
    if d ∈ w.running then
      ⟨ChapterCall.kept w.catalog (fun r => w.catalog.withDownloads r.1)
          (w.catalog.downloads.handlerReroute d.jobId d.snapshot.toDownloadSnapshot code message
            retryAt now),
        w.running.erase d⟩
    else w
  | bypass source retryAfter =>
    { w with
      catalog := ChapterCall.kept w.catalog Prod.fst
        (w.catalog.bypassCoolingSource now source retryAfter) }

/-- A release is added under a new id, of a provider named without blanks around it. -/
def Allowed (l : FallbackCall) (w : ChapterWork) : Prop :=
  match l with
  | call op => op.KeepsRoutes
  | addRelease release =>
    (∀ r ∈ w.catalog.releases, r.id ≠ release.id) ∧ strip release.source = release.source
  | _ => True

end FallbackCall

def FallbackStep (w : ChapterWork) (l : FallbackCall × Time) (w' : ChapterWork) : Prop :=
  l.1.Allowed w ∧ w' = l.1.apply w l.2

namespace Catalog

variable (c : Catalog) (jobId : Nat)

/-- The reroutes of a job that are on record. -/
def reroutes : Nat := c.attempts.countP fun a => a.jobId == jobId && a.outcome == .fallbackQueued

/-- The provider a job is at. -/
def jobSource : Option String := (c.queue.job? jobId).map (·.source)

def attemptedSources : List String :=
  match c.queue.job? jobId with
  | none => []
  | some job => match job.payload with
    | .chapterDownload payload => payload.attemptedSources
    | _ => []

/-- The distinct providers of a chapter. -/
def chapterSources (chapterId : Nat) : List String :=
  ((c.releases.filter (·.chapterId == chapterId)).map (·.source)).eraseDups

/-- A step forgets no provider that was attempted, and if it moves the job it goes to one that was
not and notes the one it left. -/
structure MovesOn (jobId : Nat) (c c' : Catalog) : Prop where
  kept : c.attemptedSources jobId ⊆ c'.attemptedSources jobId
  moved : c'.reroutes jobId ≠ c.reroutes jobId →
    c'.reroutes jobId = c.reroutes jobId + 1 ∧
      ∀ left source, c.jobSource jobId = some left → c'.jobSource jobId = some source →
        source ∉ c.attemptedSources jobId ∧ left ∈ c'.attemptedSources jobId

end Catalog

/-- The step reroutes the job. -/
def Reroutes (jobId : Nat) (y : ChapterWork × (FallbackCall × Time)) : Bool :=
  (y.2.1.apply y.1 y.2.2).catalog.reroutes jobId != y.1.catalog.reroutes jobId

/-- The providers the job left, in order. -/
def leftSources (jobId : Nat) (tr : List (ChapterWork × (FallbackCall × Time))) : List String :=
  (tr.filter (Reroutes jobId)).filterMap fun y => y.1.catalog.jobSource jobId

/-- A handler that finds the job leased, not only for its provider, and a release to move it to,
finds it at its own provider or at one that is noted. -/
def FallbackCall.LeavesKnown (jobId : Nat) (w : ChapterWork) (l : FallbackCall × Time) : Prop :=
  match l.1 with
  | fail d _ _ _ => d ∈ w.running → d.jobId = jobId → ∀ job payload,
      w.catalog.queue.job? jobId = some job → job.status = .leased →
      job.payload = .chapterDownload payload → payload.preferredOnly = false →
      (fallbackRelease w.catalog.downloads.releases d.snapshot.chapterId d.snapshot.releaseId
        (Downloads.attempted payload d.snapshot.source) l.2).isSome = true →
      job.source ∈ Downloads.attempted payload d.snapshot.source
  | _ => True

/-- Each reroute goes to a provider that was not attempted and notes the one it leaves, there are
fewer of them than providers of the chapter, and the job is never again at a provider it left. -/
structure FallbackTerminates (jobId chapterId : Nat) (w₀ : ChapterWork)
    (tr : List (ChapterWork × (FallbackCall × Time))) (w : ChapterWork) : Prop where
  moves : ∀ y ∈ tr, y.1.catalog.MovesOn jobId (y.2.1.apply y.1 y.2.2).catalog
  bounded : w.catalog.reroutes jobId + 1 ≤
    w₀.catalog.reroutes jobId + (w.catalog.chapterSources chapterId).length
  fresh : ∀ tr₁ y, tr₁ ++ [y] <+: tr → ∀ source,
    (y.2.1.apply y.1 y.2.2).catalog.jobSource jobId = some source →
      source ∉ leftSources jobId (tr₁ ++ [y])

/-! ## The route of a job -/

/-- Where a download is, what it tried and how often it was moved. -/
structure Route where
  source : String
  releaseId : Nat
  attempted : List String
  moves : Nat

/-- The row of the job, its release and its record are those of the route. -/
structure Catalog.OnRoute (c : Catalog) (jobId chapterId : Nat) (r : Route) : Prop where
  row : ∃ job payload, c.queue.job? jobId = some job ∧ job.kind = .chapterDownload ∧
    job.pendingPayload = none ∧ job.source = r.source ∧ job.payload = .chapterDownload payload ∧
    payload.chapterReleaseId = r.releaseId ∧ payload.attemptedSources = r.attempted ∧
    (JobPayload.chapterDownload payload).validate = true
  release : ∃ x ∈ c.releases, x.id = r.releaseId ∧ x.chapterId = chapterId ∧ x.source = r.source
  record : c.reroutes jobId = r.moves

/-- What a call may make of a route; `s` is the provider it excludes. -/
inductive Route.Next (c : Catalog) (chapterId : Nat) (s : String) (r : Route) : Route → Prop where
  | kept : Next c chapterId s r r
  | noted {l : List String} : (∀ x, x ∈ l ↔ x ∈ r.attempted ∨ x = s) →
      Next c chapterId s r { r with attempted := l }
  | moved {x : ReleaseRow} {l : List String} : x ∈ c.releases → x.chapterId = chapterId →
      x.source ∉ r.attempted → x.source ≠ s → (∀ x, x ∈ l ↔ x ∈ r.attempted ∨ x = s) →
      Next c chapterId s r ⟨x.source, x.id, l, r.moves + 1⟩

/-! ## Calls of the queue -/

section
variable {now : Time} {op : Op} {j j' : WorkJob}

theorem RowStep.route (h : RowStep now op j j') (hop : op.KeepsRoutes)
    (hk : j.kind = .chapterDownload) (hp : j.pendingPayload = none) :
    j'.source = j.source ∧ j'.payload = j.payload ∧ j'.pendingPayload = none := by
  cases h with
  | edit h =>
    cases h with
    | coalesce hkind _ _ hco _ _ =>
      rcases hop with h | h
      · exact absurd (hkind.symm.trans hk) h
      · rw [h] at hco
        cases hco
    | rerouteWaiting => exact hop.elim
    | touch | progress | retryNow | resume | repool => exact ⟨rfl, rfl, hp⟩
  | unlease h =>
    cases h with
    | requeue _ _ hpending =>
      rw [hp] at hpending
      cases hpending
    | reroute => exact hop.elim
    | retry | release | defer => exact ⟨rfl, rfl, hp⟩
  | terminate h => cases h <;> exact ⟨rfl, rfl, hp⟩
  | renew => exact ⟨rfl, rfl, hp⟩
  | grant => exact ⟨rfl, rfl, hp⟩

/-- The row of a download, as far as its route goes. -/
structure RouteRow (s : Queue) (jobId : Nat) (source : String) (payload : ChapterDownloadPayload) :
    Prop where
  rows : s.RowsOk
  row : ∃ job, s.job? jobId = some job ∧ job.kind = .chapterDownload ∧ job.pendingPayload = none ∧
    job.source = source ∧ job.payload = .chapterDownload payload

theorem RouteRow.apply {s : Queue} {jobId : Nat} {source : String}
    {payload : ChapterDownloadPayload}
    (now : Time) (h : RouteRow s jobId source payload) (hop : op.KeepsRoutes) :
    RouteRow (op.apply s now) jobId source payload := by
  refine Op.apply_inv (P := fun q => RouteRow q jobId source payload) op now h.rows.keyed
    (fun q q' hq hstep => ⟨(hstep.rowsOk hq.rows).1, ?_⟩) h
  obtain ⟨hrows, job, hj, hkind, hpending, hsource, hpayload⟩ := hq
  obtain ⟨hm, hid⟩ := Queue.job?_some hj
  rcases hstep.jobs_cases with ⟨hjobs, -⟩ | ⟨a, -, -, -, rfl⟩ | ⟨k, k', hk, hrow, hjobs, -⟩
  · exact ⟨job, by rw [Queue.job?, hjobs]; exact hj, hkind, hpending, hsource, hpayload⟩
  · refine ⟨job, ?_, hkind, hpending, hsource, hpayload⟩
    rw [Queue.job?, Queue.enqueueNew_jobs, Table.get_append fun k hk => (hrows.below k hk).ne]
    have hlt := hrows.below job hm
    rw [hid] at hlt
    exact (if_neg hlt.ne).trans hj
  · by_cases hjk : k.id = jobId
    · obtain rfl : job = k := by
        rw [← hjk, Queue.job?_eq hrows.keyed hk] at hj
        exact (Option.some.inj hj).symm
      obtain ⟨hsource', hpayload', hpending'⟩ := hrow.route hop hkind hpending
      refine ⟨k', ?_, hrow.sameJob.kind.trans hkind, hpending', hsource'.trans hsource,
        hpayload'.trans hpayload⟩
      rw [Queue.job?, hjobs, ← hid, ← hrow.sameJob.id]
      exact Table.get_put_self hk hrow.sameJob.id.symm
    · refine ⟨job, ?_, hkind, hpending, hsource, hpayload⟩
      rw [Queue.job?, hjobs, Table.get_put_of_ne (by rw [hrow.sameJob.id]; exact Ne.symm hjk)]
      exact hj

end

namespace Queue

variable {s s' : Queue} {jobId : Nat} {owner source message : String} {payload : JobPayload}
  {at_ now : Time} {moved : Bool}

/-- A reroute writes the row of its job only. -/
theorem reroute_row (h : s.reroute jobId owner payload source at_ message now = .ok (s', true)) :
    ∃ j, s.job? jobId = some j ∧
      s'.job? jobId = some (j.clearLease.rerouteTo payload source at_ message now) ∧
      payload.validate = true ∧ ∀ k, k ≠ jobId → s'.job? k = s.job? k := by
  unfold reroute at h
  split at h
  · cases h
  · rename_i j hj
    obtain ⟨hm, rfl⟩ := job?_some (selectOwned_some hj).1
    split at h
    · cases h
    · rename_i p hp
      obtain ⟨rfl, -, hvalid⟩ := parseJobPayload_eq_some.mp hp
      cases h
      exact ⟨j, (selectOwned_some hj).1,
        job?_putJob (r := j.clearLease.rerouteTo payload source at_ message now) hm rfl, hvalid,
        fun k hk => Table.get_put_of_ne hk⟩

theorem rerouteWaiting_row {j : WorkJob} (hj : s.job? jobId = some j)
    (hw : j.status.isWaiting = true)
    (h : s.rerouteWaiting jobId payload source at_ message now = .ok (s', moved)) :
    s'.job? jobId = some (j.rerouteTo payload source at_ message now) ∧
      payload.validate = true ∧ ∀ k, k ≠ jobId → s'.job? k = s.job? k := by
  have hsel : s.selectWaiting jobId = some j := by
    rw [selectWaiting, hj, Option.filter_some, if_pos (by simpa using hw)]
  obtain ⟨hm, rfl⟩ := job?_some hj
  unfold rerouteWaiting at h
  rw [hsel] at h
  dsimp only at h
  split at h
  · cases h
  · rename_i p hp
    obtain ⟨rfl, -, hvalid⟩ := parseJobPayload_eq_some.mp hp
    cases h
    exact ⟨job?_putJob (r := j.rerouteTo payload source at_ message now) hm rfl, hvalid,
      fun k hk => Table.get_put_of_ne hk⟩

end Queue

/-! ## Releases -/

/-- What a reroute does not change of a release. -/
def ReleaseRow.place (r : ReleaseRow) : Nat × Nat × String := (r.id, r.chapterId, r.source)

namespace Catalog

/-- The same releases, but for the dates from which they can be downloaded. -/
def SameReleases (c c' : Catalog) : Prop :=
  c'.releases.map ReleaseRow.place = c.releases.map ReleaseRow.place

section
variable {c c' : Catalog} {d : Downloads} {now : Time}

theorem SameReleases.exists (h : SameReleases c c') {x : ReleaseRow} (hx : x ∈ c.releases) :
    ∃ x' ∈ c'.releases, x'.id = x.id ∧ x'.chapterId = x.chapterId ∧ x'.source = x.source := by
  have hm : x.place ∈ c'.releases.map ReleaseRow.place := h ▸ List.mem_map_of_mem hx
  obtain ⟨x', hx', he⟩ := List.mem_map.mp hm
  obtain ⟨hid, hrest⟩ := Prod.mk.inj he
  exact ⟨x', hx', hid, Prod.mk.inj hrest⟩

theorem SameReleases.symm (h : SameReleases c c') : SameReleases c' c := Eq.symm h

theorem SameReleases.trans {c'' : Catalog} (h : SameReleases c c') (h' : SameReleases c' c'') :
    SameReleases c c'' := Eq.trans h' h

theorem SameReleases.ids (h : SameReleases c c') :
    c'.releases.map (·.id) = c.releases.map (·.id) := by
  have hfst := congrArg (List.map Prod.fst) h
  rwa [List.map_map, List.map_map] at hfst

theorem SameReleases.chapterSources (h : SameReleases c c') (chapterId : Nat) :
    c'.chapterSources chapterId = c.chapterSources chapterId := by
  have hplaces : ∀ l : List ReleaseRow,
      (l.filter (·.chapterId == chapterId)).map (·.source) =
        ((l.map ReleaseRow.place).filter fun p => p.2.1 == chapterId).map (·.2.2) := by
    intro l
    rw [List.filter_map, List.map_map]
    rfl
  rw [Catalog.chapterSources, hplaces, h, ← hplaces, Catalog.chapterSources]

/-- Rows of `Downloads` written back keep the places of the releases. -/
theorem sameReleases_withDownloads (hk : (c.releases.map (·.id)).Nodup)
    (hd : ∀ r ∈ d.releases, ∃ r₀ ∈ c.releases, r₀.id = r.id ∧ r₀.chapterId = r.chapterId ∧
      r₀.source = r.source) : SameReleases c (c.withDownloads d) := by
  unfold SameReleases withDownloads
  rw [List.map_map]
  refine List.map_congr_left fun r hr => ?_
  simp only [Function.comp_apply, ReleaseRow.place]
  cases hg : d.release? r.id with
  | none => rfl
  | some x =>
    obtain ⟨r₀, hr₀, hid, hchapter, hsource⟩ := hd x (Table.get_mem hg)
    obtain rfl : r₀ = r := List.inj_on_of_nodup_map hk hr₀ hr (hid.trans (Table.get_key hg))
    simp only [Option.getD_some, hid, hchapter, hsource]

end

/-! ## The handler -/

/-- A handler at work on the job finds it where it can be moved. -/
def Movable (c : Catalog) (jobId : Nat) (snapshot : DownloadSnapshot) (now : Time) : Prop :=
  ∃ job payload, c.queue.job? jobId = some job ∧ job.status = .leased ∧
    job.payload = .chapterDownload payload ∧ payload.preferredOnly = false ∧
    (fallbackRelease c.downloads.releases snapshot.chapterId snapshot.releaseId
      (Downloads.attempted payload snapshot.source) now).isSome = true

/-- The tables a route depends on. -/
structure RouteTables (c : Catalog) : Prop where
  rows : c.queue.RowsOk
  releases : (c.releases.map (·.id)).Nodup
  names : ∀ r ∈ c.releases, strip r.source = r.source

section
variable {c c' : Catalog} {d : Downloads} {now retryAt : Time} {jobId J chapterId : Nat}
  {snapshot : DownloadSnapshot} {code message : String} {moved : Bool} {r r' : Route}

theorem RouteTables.of_same (h : c.RouteTables) (hq : c'.queue.RowsOk)
    (hr : SameReleases c c') : c'.RouteTables := by
  refine ⟨hq, by rw [hr.ids]; exact h.releases, fun x hx => ?_⟩
  obtain ⟨y, hy, -, -, hsource⟩ := hr.symm.exists hx
  rw [← hsource]
  exact h.names y hy

theorem mem_attempted {payload : ChapterDownloadPayload} {source x : String} :
    x ∈ Downloads.attempted payload source ↔ x ∈ payload.attemptedSources ∨ x = source := by
  simp [Downloads.attempted]

/-- The route of a job whose row and whose record are the same. -/
theorem OnRoute.of_same (h : c.OnRoute J chapterId r)
    (hj : c'.queue.job? J = c.queue.job? J) (ha : c'.reroutes J = c.reroutes J)
    (hr : SameReleases c c') : c'.OnRoute J chapterId r := by
  refine ⟨hj ▸ h.row, ?_, ha.trans h.record⟩
  obtain ⟨x, hx, hid, hchapter, hsource⟩ := h.release
  obtain ⟨y, hy, hyid, hychapter, hysource⟩ := hr.exists hx
  exact ⟨y, hy, hyid.trans hid, hychapter.trans hchapter, hysource.trans hsource⟩

/-- What the handler of a job writes of the queue and of the record. -/
inductive HandlerWrites (c : Catalog) (jobId : Nat) (snapshot : DownloadSnapshot) (now : Time)
    (d : Downloads) : Prop where
  | nothing : ¬ c.Movable jobId snapshot now → d.queue = c.queue → d.attempts = c.attempts →
      HandlerWrites c jobId snapshot now d
  | note {job : WorkJob} {payload : ChapterDownloadPayload} {a : ChapterReleaseAttempt} :
      ¬ c.Movable jobId snapshot now → c.queue.job? jobId = some job → job.status = .leased →
      job.payload = .chapterDownload payload →
      d.queue = c.queue.putJob (Downloads.withAttempted job payload
        ((Downloads.attempted payload snapshot.source).insertionSort (· ≤ ·))) →
      d.attempts = c.attempts ++ [a] → a.outcome = .failed → HandlerWrites c jobId snapshot now d
  | move {job : WorkJob} {payload : ChapterDownloadPayload} {a b : ChapterReleaseAttempt}
      {release alternative : CatalogChapterRelease} {message : String} :
      c.queue.job? jobId = some job → job.status = .leased →
      job.payload = .chapterDownload payload → payload.preferredOnly = false →
      c.downloads.release? snapshot.releaseId = some release →
      fallbackRelease c.downloads.releases snapshot.chapterId snapshot.releaseId
        (Downloads.attempted payload snapshot.source) now = some alternative →
      c.queue.reroute jobId job.leaseOwner (Downloads.replacement payload release alternative)
        alternative.source now message now = .ok (d.queue, true) →
      d.attempts = c.attempts ++ [a, b] → a.outcome = .failed → b.outcome = .fallbackQueued →
      b.jobId = jobId → HandlerWrites c jobId snapshot now d

theorem Downloads.reroute_fields {d d' : Downloads} {job : WorkJob}
    {payload : ChapterDownloadPayload} {release alternative : CatalogChapterRelease}
    {retryAfter : Option Time}
    (h : d.reroute job payload release alternative code message retryAfter now = .ok d') :
    d.queue.reroute job.id job.leaseOwner (Downloads.replacement payload release alternative)
        alternative.source now ("rerouted to " ++ alternative.source ++ ": " ++ code) now =
      .ok (d'.queue, true) ∧
    d'.releases = (d.postpone release retryAfter).releases ∧
    ∃ a b, d'.attempts = d.attempts ++ [a, b] ∧ a.outcome = .failed ∧
      b.outcome = .fallbackQueued ∧ b.jobId = job.id := by
  have hintent : ∀ (d : Downloads) (chapterId : Nat),
      (d.requeueIntent chapterId job.id now).attempts = d.attempts := by
    intro d chapterId
    unfold Downloads.requeueIntent
    split <;> rfl
  unfold Downloads.reroute at h
  split at h
  · cases h
  · cases h
  · rename_i queue hq
    cases h
    have hattempts : ∀ (d : Downloads) (a b : ChapterReleaseAttempt) (chapterId : Nat),
        (({ d.addAttempt a with queue := queue }.requeueIntent chapterId job.id now).addAttempt
          b).attempts = d.attempts ++ [a, b] := by
      intro d a b chapterId
      simp only [Downloads.addAttempt, hintent, List.append_assoc]
      rfl
    refine ⟨?_, ?_, _, _, hattempts _ _ _ _, rfl, rfl, rfl⟩
    · rw [hq]
      simp [Downloads.addAttempt]
    · simp [Downloads.addAttempt]

theorem handlerReroute_writes (hrelease : (c.downloads.release? snapshot.releaseId).isSome = true)
    (h : c.downloads.handlerReroute jobId snapshot code message retryAt now = .ok (d, moved)) :
    (∀ x ∈ d.releases, ∃ y ∈ c.releases, y.id = x.id ∧ y.chapterId = x.chapterId ∧
      y.source = x.source) ∧ HandlerWrites c jobId snapshot now d := by
  unfold Downloads.handlerReroute at h
  split at h
  · rename_i job release hj hrel
    obtain ⟨-, rfl⟩ := Queue.job?_some hj
    have hrm : release ∈ c.downloads.releases := Table.get_mem hrel
    have hpostpone : ∀ x ∈ (c.downloads.postpone release (some retryAt)).releases,
        ∃ y ∈ c.releases, y.id = x.id ∧ y.chapterId = x.chapterId ∧ y.source = x.source :=
      fun x hx => mem_postpone downloads_releases hrm hx
    split at h
    · rename_i hl
      cases h
      refine ⟨downloads_releases, .nothing ?_ rfl rfl⟩
      rintro ⟨job', payload, hj', hl', -⟩
      obtain rfl := Option.some.inj (hj.symm.trans hj')
      exact hl hl'
    rename_i hl
    rw [not_not] at hl
    split at h
    · rename_i payload hparse
      obtain ⟨hpayload, -⟩ := parseJobPayload_eq_some.mp hparse
      have hsame : ∀ job' payload', c.queue.job? job.id = some job' →
          job'.payload = .chapterDownload payload' → payload' = payload := by
        intro job' payload' hj' hp'
        obtain rfl := Option.some.inj (hj.symm.trans hj')
        exact JobPayload.chapterDownload.inj (hp'.symm.trans hpayload)
      unfold Downloads.leasedReroute at h
      split at h
      · rename_i hpref
        cases h
        refine ⟨hpostpone, .nothing ?_ rfl rfl⟩
        rintro ⟨job', payload', hj', -, hp', hno, -⟩
        rw [hsame job' payload' hj' hp', hpref] at hno
        cases hno
      rename_i hpref
      split at h
      · rename_i hnone
        cases h
        refine ⟨hpostpone, .note ?_ hj hl hpayload rfl rfl rfl⟩
        rintro ⟨job', payload', hj', -, hp', -, hsome⟩
        rw [hsame job' payload' hj' hp', hnone] at hsome
        cases hsome
      · rename_i alternative halt
        obtain ⟨d₁, hd, he⟩ := map_eq_ok.mp h
        cases he
        obtain ⟨hq, hreleases, a, b, hattempts, ha, hb, hid⟩ := Downloads.reroute_fields hd
        exact ⟨by rw [hreleases]; exact hpostpone,
          .move hj hl hpayload (by simpa using hpref) hrel halt hq hattempts ha hb hid⟩
    · cases h
  · rename_i hnone
    cases h
    refine ⟨downloads_releases, .nothing ?_ rfl rfl⟩
    rintro ⟨job, payload, hj, -⟩
    obtain ⟨release, hrel⟩ := Option.isSome_iff_exists.mp hrelease
    exact hnone job release hj hrel

/-- The handler does not raise on a download whose payload validates. -/
theorem handlerReroute_ok (hk : c.queue.RowsOk) {job : WorkJob} {payload : ChapterDownloadPayload}
    (hj : c.queue.job? jobId = some job) (hkind : job.kind = .chapterDownload)
    (hp : job.payload = .chapterDownload payload)
    (hvalid : (JobPayload.chapterDownload payload).validate = true) :
    ∃ d moved, c.downloads.handlerReroute jobId snapshot code message retryAt now =
      .ok (d, moved) := by
  obtain ⟨hm, hid⟩ := Queue.job?_some hj
  have hparse : parseJobPayload .chapterDownload job.payload = some (.chapterDownload payload) :=
    parseJobPayload_eq_some.mpr ⟨hp, by rw [hp]; rfl, hp ▸ hvalid⟩
  unfold Downloads.handlerReroute
  rw [show c.downloads.queue.job? jobId = some job from hj]
  cases c.downloads.release? snapshot.releaseId with
  | none => exact ⟨_, _, rfl⟩
  | some release =>
    dsimp only
    split
    · exact ⟨_, _, rfl⟩
    rename_i hl
    rw [hparse]
    dsimp only [Downloads.leasedReroute]
    split
    · exact ⟨_, _, rfl⟩
    split
    · exact ⟨_, _, rfl⟩
    · rename_i alternative _
      obtain ⟨d, hd, -⟩ := Downloads.reroute_ok (d := c.downloads) code message (some retryAt) now
        payload release alternative hk.keyed hm (not_not.mp hl) hkind
      exact ⟨d, true, by rw [hd]; rfl⟩

/-- What the handler of a job leaves of the tables and of the other jobs. -/
theorem HandlerWrites.tables (ht : c.RouteTables)
    (hd : ∀ x ∈ d.releases, ∃ y ∈ c.releases, y.id = x.id ∧ y.chapterId = x.chapterId ∧
      y.source = x.source) (h : HandlerWrites c jobId snapshot now d) :
    SameReleases c (c.withDownloads d) ∧ (c.withDownloads d).RouteTables := by
  have hsame := sameReleases_withDownloads ht.releases hd
  refine ⟨hsame, ht.of_same ?_ hsame⟩
  show d.queue.RowsOk
  cases h with
  | nothing _ hq => rw [hq]; exact ht.rows
  | @note job payload a _ hj hl _ hq =>
    rw [hq]
    exact (@Queue.keeps_putJob c.queue job (Downloads.withAttempted job payload
      ((Downloads.attempted payload snapshot.source).insertionSort (· ≤ ·))) ht.rows
      (Queue.job?_some hj).1 rfl (show job.status.isActive = true by rw [hl]; rfl)).ok
  | move _ _ _ _ _ _ hq => exact (Queue.reroute_keeps ht.rows hq).1.ok

/-- A failed attempt is no reroute, and neither is one of another job. -/
theorem reroutes_append {l : List ChapterReleaseAttempt} (h : d.attempts = c.attempts ++ l)
    (J : Nat) :
    (c.withDownloads d).reroutes J =
      c.reroutes J + l.countP fun a => a.jobId == J && a.outcome == .fallbackQueued := by
  show d.attempts.countP _ = _
  rw [h, List.countP_append]
  rfl

theorem HandlerWrites.other (h : HandlerWrites c jobId snapshot now d) (hJ : J ≠ jobId) :
    d.queue.job? J = c.queue.job? J ∧ (c.withDownloads d).reroutes J = c.reroutes J := by
  cases h with
  | nothing _ hq ha =>
    refine ⟨by rw [hq], ?_⟩
    rw [reroutes_append (ha.trans (List.append_nil _).symm), List.countP_nil, Nat.add_zero]
  | note _ hj _ _ hq ha hfailed =>
    obtain ⟨-, rfl⟩ := Queue.job?_some hj
    refine ⟨by rw [hq]; exact Table.get_put_of_ne hJ, ?_⟩
    rw [reroutes_append ha]
    simp [hfailed]
  | move _ _ _ _ _ _ hq ha hfailed _ hid =>
    obtain ⟨-, -, -, -, hother⟩ := Queue.reroute_row hq
    refine ⟨hother J hJ, ?_⟩
    rw [reroutes_append ha]
    simp [hfailed, hid, Ne.symm hJ]

/-- The route of the job a handler works on. -/
theorem HandlerWrites.own (ht : c.RouteTables) (hr : c.OnRoute jobId chapterId r)
    (hchapter : snapshot.chapterId = chapterId)
    (hsource : ∀ release, c.downloads.release? snapshot.releaseId = some release →
      release.source = snapshot.source)
    (hsame : SameReleases c (c.withDownloads d)) (h : HandlerWrites c jobId snapshot now d) :
    ∃ r', (c.withDownloads d).OnRoute jobId chapterId r' ∧ r.Next c chapterId snapshot.source r' ∧
      ((r'.moves = r.moves ∧ ¬ c.Movable jobId snapshot now) ∨
        (r'.moves = r.moves + 1 ∧ c.Movable jobId snapshot now)) := by
  obtain ⟨⟨job, payload, hj, hkind, hpending, hjs, hp, hpr, hpa, hvalid⟩, hrelease, hrecord⟩ := hr
  cases h with
  | nothing hno hq ha =>
    refine ⟨r, ?_, .kept, .inl ⟨rfl, hno⟩⟩
    refine OnRoute.of_same ⟨⟨job, payload, hj, hkind, hpending, hjs, hp, hpr, hpa, hvalid⟩,
      hrelease, hrecord⟩ (by show d.queue.job? _ = _; rw [hq]) ?_ hsame
    rw [reroutes_append (ha.trans (List.append_nil _).symm), List.countP_nil, Nat.add_zero]
  | @note job' payload' a hno hj' hl hp' hq ha hfailed =>
    obtain rfl := Option.some.inj (hj.symm.trans hj')
    obtain rfl := JobPayload.chapterDownload.inj (hp.symm.trans hp')
    obtain ⟨hm, rfl⟩ := Queue.job?_some hj
    obtain ⟨x, hx, hxid, hxchapter, hxsource⟩ := hrelease
    obtain ⟨y, hy, hyid, hychapter, hysource⟩ := hsame.exists hx
    set sources := (Downloads.attempted payload snapshot.source).insertionSort (· ≤ ·) with hsources
    refine ⟨{ r with attempted := sources }, ⟨⟨Downloads.withAttempted job payload sources,
      { payload with attemptedSources := sources }, ?_, hkind, hpending, hjs, rfl, hpr, rfl,
      hvalid⟩, ⟨y, hy, hyid.trans hxid, hychapter.trans hxchapter,
        hysource.trans hxsource⟩, ?_⟩, .noted fun x => ?_, .inl ⟨rfl, hno⟩⟩
    · show d.queue.job? job.id = _
      rw [hq]
      exact Queue.job?_putJob (r := Downloads.withAttempted job payload _) hm rfl
    · rw [reroutes_append ha]
      simpa [hfailed] using hrecord
    · rw [hsources, List.mem_insertionSort, mem_attempted, hpa]
  | @move job' payload' a b release alternative message hj' hl hp' hpref hrel halt hq ha hfailed
      hfallback hid =>
    obtain rfl := Option.some.inj (hj.symm.trans hj')
    obtain rfl := JobPayload.chapterDownload.inj (hp.symm.trans hp')
    obtain ⟨j, hj₁, hrow, hvalid, -⟩ := Queue.reroute_row hq
    obtain rfl := Option.some.inj (hj.symm.trans hj₁)
    obtain ⟨ham, hach, -, hasrc⟩ := fallbackRelease_some halt
    obtain ⟨x, hx, hxid, hxchapter, hxsource⟩ := downloads_releases alternative ham
    obtain ⟨y, hy, hyid, hychapter, hysource⟩ := hsame.exists hx
    rw [mem_attempted, not_or, hpa, ← hxsource] at hasrc
    refine ⟨⟨x.source, x.id, (payload.attemptedSources ++ [release.source]).eraseDups, r.moves + 1⟩,
      ⟨⟨_, _, hrow, hkind, hpending, ?_, rfl, hxid.symm, rfl, hvalid⟩, ⟨y, hy, hyid,
        hychapter.trans (hxchapter.trans (hach.trans hchapter)), hysource⟩, ?_⟩,
      .moved hx (hxchapter.trans (hach.trans hchapter)) hasrc.1 hasrc.2 fun z => ?_,
      .inr ⟨rfl, job, payload, hj, hl, hp, hpref, by rw [halt]; rfl⟩⟩
    · show strip alternative.source = x.source
      rw [← hxsource, ht.names x hx]
    · rw [reroutes_append ha, hrecord]
      simp [hfailed, hfallback, hid]
    · simp [hpa, hsource release hrel]

/-! ## The providers that cool down -/

theorem next_of_same {s : String} (h : r.Next c' chapterId s r') (hs : SameReleases c c') :
    r.Next c chapterId s r' := by
  cases h with
  | kept => exact .kept
  | noted hl => exact .noted hl
  | @moved x l hx hchapter hno hne hl =>
    obtain ⟨y, hy, hid, hchapter', hsource⟩ := hs.symm.exists hx
    rw [← hid, ← hsource]
    exact .moved hy (hchapter'.trans hchapter) (hsource ▸ hno) (hsource ▸ hne) hl

/-- What the loop of `bypass_cooling_source` does for one of its jobs. -/
structure Bypassed (source : String) (job : WorkJob) (c c' : Catalog) : Prop where
  releases : SameReleases c c'
  tables : c'.RouteTables
  other : ∀ k, k ≠ job.id → c'.queue.job? k = c.queue.job? k ∧ c'.reroutes k = c.reroutes k
  own : ∀ chapterId r, c.OnRoute job.id chapterId r → ∃ r', c'.OnRoute job.id chapterId r' ∧
    r.Next c chapterId source r' ∧ (r'.moves = r.moves ∨ r'.moves = r.moves + 1)

theorem Bypassed.refl {source : String} {job : WorkJob} (ht : c.RouteTables) :
    Bypassed source job c c :=
  ⟨rfl, ht, fun _ _ => ⟨rfl, rfl⟩, fun _ r hr => ⟨r, hr, .kept, .inl rfl⟩⟩

theorem holdJob_bypassed {source : String} {job : WorkJob} {release : CatalogChapterRelease}
    {retryAfter : Time} (ht : c.RouteTables) (hj : c.queue.job? job.id = some job)
    (hrel : release ∈ c.downloads.releases) :
    Bypassed source job c (c.holdJob job release retryAfter) := by
  obtain ⟨hm, -⟩ := Queue.job?_some hj
  have hrows := (@Queue.keeps_putJob c.queue job
    { job with status := .retryWait, availableAt := retryAfter } ht.rows hm rfl rfl).ok
  have hsame : SameReleases c (c.holdJob job release retryAfter) :=
    sameReleases_withDownloads ht.releases fun x hx => mem_postpone downloads_releases hrel hx
  have hself : (c.holdJob job release retryAfter).queue.job? job.id =
      some { job with status := .retryWait, availableAt := retryAfter } :=
    Queue.job?_putJob (r := { job with status := .retryWait, availableAt := retryAfter }) hm rfl
  refine ⟨hsame, ht.of_same hrows hsame, fun k hk => ⟨Table.get_put_of_ne hk, rfl⟩,
    fun chapterId r hr => ⟨r, ?_, .kept, .inl rfl⟩⟩
  obtain ⟨⟨job', payload, hj', hrest⟩, ⟨x, hx, hxid, hxchapter, hxsource⟩, hrecord⟩ := hr
  obtain rfl := Option.some.inj (hj.symm.trans hj')
  obtain ⟨y, hy, hyid, hychapter, hysource⟩ := hsame.exists hx
  exact ⟨⟨_, payload, hself, hrest⟩, ⟨y, hy, hyid.trans hxid, hychapter.trans hxchapter,
    hysource.trans hxsource⟩, hrecord⟩

theorem bypassJob_bypassed {source : String} {retryAfter : Time} {job : WorkJob} {n n' : Nat}
    (ht : c.RouteTables) (hj : c.queue.job? job.id = some job) (hw : job.status.isWaiting = true)
    (h : bypassJob now source retryAfter (c, n) job = .ok (c', n')) :
    Bypassed source job c c' := by
  unfold bypassJob at h
  dsimp only at h
  split at h
  · rename_i payload hp
    split at h
    · cases h
      exact .refl ht
    rename_i failed hf
    have hfm : failed ∈ c.downloads.releases := Table.get_mem hf
    split at h
    · cases h
      exact holdJob_bypassed ht hj hfm
    split at h
    · cases h
      exact holdJob_bypassed ht hj hfm
    · rename_i alternative halt
      obtain ⟨⟨queue, moved⟩, hq, he⟩ := map_eq_ok.mp h
      cases he
      have hq : c.queue.rerouteWaiting job.id _ _ now _ now = .ok (queue, moved) := hq
      obtain ⟨hrow, hvalid, hother⟩ := Queue.rerouteWaiting_row hj hw hq
      have hrows := (Queue.rerouteWaiting_keeps ht.rows hq).1.ok
      set d := ({ c.downloads with queue := queue }.requeueIntent failed.chapterId job.id
          now).addAttempt
        { chapterId := alternative.chapterId, chapterReleaseId := alternative.id, jobId := job.id
          source := alternative.source, outcome := .fallbackQueued
          retryAfter := some retryAfter, details := .bypasses failed.id source } with hd
      have hdq : d.queue = queue := by simp [hd, Downloads.addAttempt]
      have hda : d.attempts = c.attempts ++
          [{ chapterId := alternative.chapterId, chapterReleaseId := alternative.id, jobId := job.id
             source := alternative.source, outcome := .fallbackQueued
             retryAfter := some retryAfter, details := .bypasses failed.id source }] := by
        simp only [hd, Downloads.addAttempt]
        unfold Downloads.requeueIntent
        split <;> rfl
      have hsame : SameReleases c (c.withDownloads d) :=
        sameReleases_withDownloads ht.releases fun x hx => downloads_releases x (by
          simpa [hd, Downloads.addAttempt] using hx)
      refine ⟨hsame, ht.of_same (by show d.queue.RowsOk; rw [hdq]; exact hrows) hsame,
        fun k hk => ⟨by show d.queue.job? k = _; rw [hdq]; exact hother k hk, ?_⟩,
        fun chapterId r hr => ?_⟩
      · rw [reroutes_append hda]
        simp [Ne.symm hk]
      · obtain ⟨⟨job', payload', hj', hkind, hpending, hjs, hp', hpr, hpa, -⟩,
          ⟨x, hx, hxid, hxchapter, hxsource⟩, hrecord⟩ := hr
        obtain rfl := Option.some.inj (hj.symm.trans hj')
        obtain rfl := JobPayload.chapterDownload.inj (hp.symm.trans hp')
        obtain ⟨ham, hach, -, hasrc⟩ := fallbackRelease_some halt
        obtain ⟨z, hz, hzid, hzchapter, hzsource⟩ := downloads_releases alternative ham
        obtain ⟨y, hy, hyid, hychapter, hysource⟩ := hsame.exists hz
        have hfchapter : failed.chapterId = chapterId := by
          obtain ⟨f, hfm, hfid, hfchapter, -⟩ := downloads_releases failed hfm
          obtain rfl : f = x := List.inj_on_of_nodup_map ht.releases hfm hx
            (hfid.trans ((Table.get_key hf).trans (hpr.trans hxid.symm)))
          exact hfchapter.symm.trans hxchapter
        have hzch : z.chapterId = chapterId := hzchapter.trans (hach.trans hfchapter)
        rw [mem_attempted, not_or, hpa, ← hzsource] at hasrc
        have hrow : (c.withDownloads d).queue.job? job.id = some _ :=
          (congrArg (fun q : Queue => q.job? job.id) hdq).trans hrow
        refine ⟨⟨z.source, z.id, (Downloads.attempted payload source).insertionSort (· ≤ ·),
          r.moves + 1⟩, ⟨⟨_, { chapterReleaseId := alternative.id
                               attemptedSources :=
                                 (Downloads.attempted payload source).insertionSort (· ≤ ·) },
            hrow, hkind, hpending, ?_, rfl, hzid.symm, rfl, hvalid⟩,
            ⟨y, hy, hyid, hychapter.trans hzch, hysource⟩, ?_⟩,
          .moved hz hzch hasrc.1 hasrc.2 fun w => ?_, .inr rfl⟩
        · show strip alternative.source = z.source
          rw [← hzsource, ht.names z hz]
        · rw [reroutes_append hda, hrecord]
          simp
        · rw [List.mem_insertionSort, mem_attempted, hpa]
  · cases h
    exact .refl ht

/-- The loop, over waiting jobs that are as it first saw them. -/
theorem foldlM_bypassJob {source : String} {retryAfter : Time} {l : List WorkJob} {n n' : Nat}
    (ht : c.RouteTables) (hl : ∀ job ∈ l, c.queue.job? job.id = some job ∧
      job.status.isWaiting = true) (hnd : (l.map (·.id)).Nodup)
    (h : l.foldlM (bypassJob now source retryAfter) (c, n) = .ok (c', n'))
    (hr : c.OnRoute J chapterId r) :
    SameReleases c c' ∧ c'.RouteTables ∧ ∃ r', c'.OnRoute J chapterId r' ∧
      r.Next c chapterId source r' ∧ (r'.moves = r.moves ∨ r'.moves = r.moves + 1) ∧
      (J ∉ l.map (·.id) → r' = r) := by
  induction l generalizing c n r with
  | nil =>
    cases h
    exact ⟨rfl, ht, r, hr, .kept, .inl rfl, fun _ => rfl⟩
  | cons job l ih =>
    obtain ⟨⟨c₁, n₁⟩, hjob, hrest⟩ := foldlM_cons_eq_ok.mp h
    obtain ⟨hni, hnd⟩ := List.nodup_cons.mp hnd
    obtain ⟨hj, hw⟩ := hl job List.mem_cons_self
    have hone := bypassJob_bypassed ht hj hw hjob
    have hl₁ : ∀ k ∈ l, c₁.queue.job? k.id = some k ∧ k.status.isWaiting = true := by
      intro k hk
      obtain ⟨hk', hkw⟩ := hl k (List.mem_cons_of_mem _ hk)
      have hne : k.id ≠ job.id := fun he => hni (List.mem_map.mpr ⟨k, hk, he⟩)
      exact ⟨(hone.other k.id hne).1.trans hk', hkw⟩
    by_cases hJ : J = job.id
    · subst hJ
      obtain ⟨r₁, hr₁, hnext, hmoves⟩ := hone.own chapterId r hr
      obtain ⟨hsame, ht', r', hr', -, -, hno⟩ := ih hone.tables hl₁ hnd hrest hr₁
      obtain rfl := hno hni
      exact ⟨hone.releases.trans hsame, ht', r', hr', hnext, hmoves,
        fun hmem => absurd List.mem_cons_self hmem⟩
    · obtain ⟨hrow, hcount⟩ := hone.other J hJ
      obtain ⟨hsame, ht', r', hr', hnext, hmoves, hno⟩ :=
        ih hone.tables hl₁ hnd hrest (hr.of_same hrow hcount hone.releases)
      exact ⟨hone.releases.trans hsame, ht', r', hr', next_of_same hnext hone.releases, hmoves,
        fun hmem => hno fun hm => hmem (List.mem_cons_of_mem _ hm)⟩

theorem bypassCoolingSource_route {source : String} {retryAfter : Time} {n : Nat}
    (ht : c.RouteTables) (h : c.bypassCoolingSource now source retryAfter = .ok (c', n))
    (hr : c.OnRoute J chapterId r) :
    SameReleases c c' ∧ c'.RouteTables ∧ ∃ r', c'.OnRoute J chapterId r' ∧
      (r' = r ∨ (r.source = source ∧ r.Next c chapterId source r' ∧
        (r'.moves = r.moves ∨ r'.moves = r.moves + 1))) := by
  unfold bypassCoolingSource at h
  have hl : ∀ job ∈ c.queue.jobs.filter (fun j => j.kind == .chapterDownload &&
      j.source == source && j.status.isWaiting),
      c.queue.job? job.id = some job ∧ job.status.isWaiting = true := by
    intro job hj
    simp only [List.mem_filter, Bool.and_eq_true] at hj
    exact ⟨Queue.job?_eq ht.rows.keyed hj.1, hj.2.2⟩
  obtain ⟨hsame, ht', r', hr', hnext, hmoves, hno⟩ := foldlM_bypassJob ht hl
    (List.Nodup.sublist (List.Sublist.map _ List.filter_sublist) ht.rows.keyed) h hr
  refine ⟨hsame, ht', r', hr', ?_⟩
  by_cases hJ : J ∈ (c.queue.jobs.filter fun j => j.kind == .chapterDownload &&
      j.source == source && j.status.isWaiting).map (·.id)
  · obtain ⟨job, hj, rfl⟩ := List.mem_map.mp hJ
    simp only [List.mem_filter, Bool.and_eq_true, beq_iff_eq] at hj
    obtain ⟨job', payload, hj', -, -, hjs, -⟩ := hr.row
    obtain rfl := Option.some.inj ((Queue.job?_eq ht.rows.keyed hj.1).symm.trans hj')
    exact .inr ⟨hjs.symm.trans hj.2.1.2, hnext, hmoves⟩
  · exact .inl (hno hJ)

end

end Catalog

/-! ## A step -/

/-- The tables have their keys, and each handler works on a release that is there, of the chapter
if it works on the job. -/
structure FallbackOk (jobId chapterId : Nat) (w : ChapterWork) : Prop where
  tables : w.catalog.RouteTables
  running : ∀ d ∈ w.running, ∃ x ∈ w.catalog.releases, x.id = d.snapshot.releaseId ∧
    x.chapterId = d.snapshot.chapterId ∧ x.source = d.snapshot.source ∧
    (d.jobId = jobId → x.chapterId = chapterId)

/-- What a step makes of the route of the job. -/
inductive RouteStep (known : Prop) (r r' : Route) : Prop where
  | stays : r'.moves = r.moves → r'.source = r.source → r.attempted ⊆ r'.attempted → known →
      RouteStep known r r'
  | goes (s : String) : r'.moves = r.moves + 1 → r'.source ∉ r.attempted → r'.source ≠ s →
      (∀ x, x ∈ r'.attempted ↔ x ∈ r.attempted ∨ x = s) →
      (known ↔ r.source ∈ r.attempted ∨ r.source = s) → RouteStep known r r'

section
variable {w w₀ w' : ChapterWork} {l : FallbackCall × Time} {J chapterId : Nat} {r r' : Route}
  {c : Catalog} {s : String} {known : Prop} {tr : List (ChapterWork × (FallbackCall × Time))}

theorem Route.Next.stays (h : r.Next c chapterId s r') (hm : r'.moves = r.moves) :
    r'.source = r.source ∧ r.attempted ⊆ r'.attempted := by
  cases h with
  | kept => exact ⟨rfl, fun _ => id⟩
  | noted hl => exact ⟨rfl, fun x hx => (hl x).mpr (.inl hx)⟩
  | moved => exact absurd hm (by simp)

theorem Route.Next.goes (h : r.Next c chapterId s r') (hm : r'.moves = r.moves + 1) :
    r'.source ∉ r.attempted ∧ r'.source ≠ s ∧
      ∀ x, x ∈ r'.attempted ↔ x ∈ r.attempted ∨ x = s := by
  cases h with
  | kept => exact absurd hm (by simp)
  | noted => exact absurd hm (by simp)
  | moved _ _ hno hne hl => exact ⟨hno, hne, hl⟩

theorem FallbackOk.of_same (h : FallbackOk J chapterId w) {c' : Catalog}
    {running : List RunningDownload} (hs : w.catalog.SameReleases c') (ht : c'.RouteTables)
    (hr : running ⊆ w.running) : FallbackOk J chapterId ⟨c', running⟩ := by
  refine ⟨ht, fun d hd => ?_⟩
  obtain ⟨x, hx, hid, hchapter, hsource, hown⟩ := h.running d (hr hd)
  obtain ⟨y, hy, hyid, hychapter, hysource⟩ := hs.exists hx
  exact ⟨y, hy, hyid.trans hid, hychapter.trans hchapter, hysource.trans hsource,
    fun he => hychapter.trans (hown he)⟩

/-- The release of a handler, as `Downloads` has it. -/
theorem FallbackOk.release (h : FallbackOk J chapterId w) {d : RunningDownload}
    (hd : d ∈ w.running) : ∃ release,
      w.catalog.downloads.release? d.snapshot.releaseId = some release ∧
        release.source = d.snapshot.source ∧
        (d.jobId = J → d.snapshot.chapterId = chapterId) := by
  obtain ⟨x, hx, hid, hchapter, hsource, hown⟩ := h.running d hd
  have hkeyed : Table.Keyed CatalogChapterRelease.id w.catalog.downloads.releases := by
    unfold Table.Keyed Catalog.downloads
    rw [List.map_map]
    exact h.tables.releases
  have hm : x.toCatalogChapterRelease ∈ w.catalog.downloads.releases := List.mem_map_of_mem hx
  refine ⟨x.toCatalogChapterRelease, ?_, hsource, fun he => hchapter.symm.trans (hown he)⟩
  rw [← hid]
  exact hkeyed.get_eq hm

/-- The condition, in terms of the route of the job. -/
theorem leavesKnown_fail (hr : w.catalog.OnRoute J chapterId r) {d : RunningDownload}
    {code message : String} {retryAt now : Time} (hd : d ∈ w.running) (hJ : d.jobId = J) :
    FallbackCall.LeavesKnown J w (.fail d code message retryAt, now) ↔
      (w.catalog.Movable J d.snapshot.toDownloadSnapshot now →
        r.source ∈ r.attempted ∨ r.source = d.snapshot.source) := by
  obtain ⟨⟨job, payload, hj, -, -, hjs, hp, -, hpa, -⟩, -⟩ := hr
  constructor
  · rintro hknown ⟨job', payload', hj', hl, hp', hpref, halt⟩
    obtain rfl := Option.some.inj (hj.symm.trans hj')
    obtain rfl := JobPayload.chapterDownload.inj (hp.symm.trans hp')
    have hmem := hknown hd hJ job payload hj hl hp hpref halt
    rwa [Catalog.mem_attempted, hpa, hjs] at hmem
  · intro h _ _ job' payload' hj' hl hp' hpref halt
    obtain rfl := Option.some.inj (hj.symm.trans hj')
    obtain rfl := JobPayload.chapterDownload.inj (hp.symm.trans hp')
    rw [Catalog.mem_attempted, hpa, hjs]
    exact h ⟨job, payload, hj, hl, hp, hpref, halt⟩

theorem RouteStep.refl (hknown : known) : RouteStep known r r :=
  .stays rfl rfl (fun _ => id) hknown

theorem FallbackOk.call {op : Op} (now : Time) (hop : op.KeepsRoutes)
    (hw : FallbackOk J chapterId w) (hr : w.catalog.OnRoute J chapterId r) :
    FallbackOk J chapterId ((FallbackCall.call op).apply w now) ∧
      ((FallbackCall.call op).apply w now).catalog.OnRoute J chapterId r := by
  obtain ⟨⟨job, payload, hj, hkind, hpending, hjs, hp, hpr, hpa, hvalid⟩, hrelease,
    hrecord⟩ := hr
  have hrow : RouteRow w.catalog.queue J r.source payload :=
    ⟨hw.tables.rows, job, hj, hkind, hpending, hjs, hp⟩
  obtain ⟨hrows, job', hj', hkind', hpending', hjs', hp'⟩ := hrow.apply now hop
  refine ⟨⟨⟨hrows, hw.tables.releases, hw.tables.names⟩, hw.running⟩, ?_⟩
  exact ⟨⟨job', payload, hj', hkind', hpending', hjs', hp', hpr, hpa, hvalid⟩, hrelease, hrecord⟩

theorem FallbackOk.addRelease {release : ReleaseRow}
    (hnew : ∀ x ∈ w.catalog.releases, x.id ≠ release.id)
    (hname : strip release.source = release.source)
    (hw : FallbackOk J chapterId w) (hr : w.catalog.OnRoute J chapterId r) (now : Time) :
    FallbackOk J chapterId ((FallbackCall.addRelease release).apply w now) ∧
      w.catalog.chapterSources chapterId ⊆
        ((FallbackCall.addRelease release).apply w now).catalog.chapterSources chapterId ∧
      ((FallbackCall.addRelease release).apply w now).catalog.OnRoute J chapterId r := by
  have hmem : ∀ x ∈ w.catalog.releases, x ∈ w.catalog.releases ++ [release] :=
    fun x hx => List.mem_append_left _ hx
  refine ⟨⟨⟨hw.tables.rows, ?_, fun x hx => ?_⟩, fun d hd => ?_⟩, fun x hx => ?_, ?_⟩
  · show ((w.catalog.releases ++ [release]).map (·.id)).Nodup
    rw [List.map_append]
    refine List.Nodup.append hw.tables.releases (List.nodup_singleton _) ?_
    rw [List.map_singleton, List.disjoint_singleton]
    intro hm
    obtain ⟨y, hy, hid⟩ := List.mem_map.mp hm
    exact hnew y hy hid
  · rcases List.mem_append.mp hx with hx | hx
    · exact hw.tables.names x hx
    · rwa [List.mem_singleton.mp hx]
  · obtain ⟨x, hx, hrest⟩ := hw.running d hd
    exact ⟨x, hmem x hx, hrest⟩
  · simp only [Catalog.chapterSources, List.mem_eraseDups, List.mem_map, List.mem_filter] at hx ⊢
    obtain ⟨y, ⟨hy, hchapter⟩, hsource⟩ := hx
    exact ⟨y, ⟨hmem y hy, hchapter⟩, hsource⟩
  · obtain ⟨hrow, ⟨x, hx, hrest⟩, hrecord⟩ := hr
    exact ⟨hrow, ⟨x, hmem x hx, hrest⟩, hrecord⟩

/-- A handler starts on the release its job is at. -/
theorem FallbackOk.start {jobId : Nat} (hw : FallbackOk J chapterId w)
    (hr : w.catalog.OnRoute J chapterId r) (now : Time) :
    FallbackOk J chapterId ((FallbackCall.start jobId).apply w now) := by
  refine ⟨hw.tables, fun d hd => ?_⟩
  rcases List.mem_append.mp hd with hd | hd
  · exact hw.running d hd
  have hd := Option.mem_toList.mp hd
  unfold Catalog.startDownload at hd
  split at hd
  · cases hd
  rename_i job hj
  split at hd
  · rename_i payload hp
    split at hd
    · rename_i release hrel
      split at hd
      · cases hd
        obtain ⟨x, hx, hid, hchapter, hsource⟩ :=
          Catalog.downloads_releases release (Table.get_mem hrel)
        refine ⟨x, hx, hid, hchapter, hsource, ?_⟩
        rintro (rfl : job.id = J)
        obtain ⟨⟨job', payload', hj', -, -, -, hp', hpr, -⟩, ⟨y, hy, hyid, hychapter, -⟩, -⟩ := hr
        obtain ⟨-, hjid⟩ := Queue.job?_some hj
        rw [← hjid] at hj
        obtain rfl := Option.some.inj (hj.symm.trans hj')
        obtain rfl := JobPayload.chapterDownload.inj (hp.symm.trans hp')
        obtain rfl : x = y := List.inj_on_of_nodup_map hw.tables.releases hx hy
          (hid.trans ((Table.get_key hrel).trans (hpr.trans hyid.symm)))
        exact hychapter
      · cases hd
    · cases hd
  · cases hd

/-- A handler that fails moves its own job only, and only when it can. -/
theorem FallbackOk.fail {d : RunningDownload} (code message : String) (retryAt now : Time)
    (hd : d ∈ w.running) (hw : FallbackOk J chapterId w)
    (hr : w.catalog.OnRoute J chapterId r) :
    FallbackOk J chapterId ((FallbackCall.fail d code message retryAt).apply w now) ∧
      w.catalog.SameReleases ((FallbackCall.fail d code message retryAt).apply w now).catalog ∧
      ∃ r',
        ((FallbackCall.fail d code message retryAt).apply w now).catalog.OnRoute J chapterId r' ∧
        RouteStep (FallbackCall.LeavesKnown J w (.fail d code message retryAt, now)) r r' := by
  obtain ⟨release, hrel, hsource, hchapter⟩ := hw.release hd
  simp only [FallbackCall.apply, if_pos hd]
  have herase : w.running.erase d ⊆ w.running := List.erase_subset
  cases hres : w.catalog.downloads.handlerReroute d.jobId d.snapshot.toDownloadSnapshot code message
      retryAt now with
  | error e =>
    -- the transaction is rolled back, and this is no handler of the job
    refine ⟨hw.of_same rfl hw.tables herase, rfl, r, hr, .refl ?_⟩
    intro _ hJ
    obtain ⟨⟨job, payload, hj, hkind, -, -, hp, -, -, hvalid⟩, -⟩ := hr
    rw [← hJ] at hj
    obtain ⟨downloads, moved, hok⟩ := Catalog.handlerReroute_ok hw.tables.rows hj hkind hp hvalid
    rw [hok] at hres
    cases hres
  | ok result =>
    obtain ⟨downloads, moved⟩ := result
    obtain ⟨hreleases, hwrites⟩ := Catalog.handlerReroute_writes (by rw [hrel]; rfl) hres
    obtain ⟨hsame, ht⟩ := hwrites.tables hw.tables hreleases
    refine ⟨hw.of_same hsame ht herase, hsame, ?_⟩
    by_cases hJ : d.jobId = J
    · subst hJ
      obtain ⟨r', hr', hnext, hmoves⟩ := hwrites.own hw.tables hr (hchapter rfl)
        (fun x hx => by
          obtain rfl := Option.some.inj (hrel.symm.trans hx)
          exact hsource) hsame
      refine ⟨r', hr', ?_⟩
      rcases hmoves with ⟨hm, hno⟩ | ⟨hm, hmovable⟩
      · obtain ⟨hs, ha⟩ := hnext.stays hm
        exact .stays hm hs ha ((leavesKnown_fail hr hd rfl).mpr fun h => absurd h hno)
      · obtain ⟨hno, hne, ha⟩ := hnext.goes hm
        refine .goes d.snapshot.source hm hno hne ha ?_
        rw [leavesKnown_fail hr hd rfl]
        exact ⟨fun h => h hmovable, fun h _ => h⟩
    · obtain ⟨hrow, hcount⟩ := hwrites.other (Ne.symm hJ)
      exact ⟨r, hr.of_same hrow hcount hsame, .refl fun _ h => absurd h hJ⟩

theorem FallbackStep.spec (h : FallbackStep w l w') (hw : FallbackOk J chapterId w)
    (hr : w.catalog.OnRoute J chapterId r) :
    FallbackOk J chapterId w' ∧
      w.catalog.chapterSources chapterId ⊆ w'.catalog.chapterSources chapterId ∧
      ∃ r', w'.catalog.OnRoute J chapterId r' ∧
        RouteStep (FallbackCall.LeavesKnown J w l) r r' := by
  obtain ⟨hallowed, rfl⟩ := h
  obtain ⟨call, now⟩ := l
  cases call with
  | call op =>
    obtain ⟨hok, hr'⟩ := hw.call now hallowed hr
    exact ⟨hok, fun _ => id, r, hr', .refl trivial⟩
  | addRelease release =>
    obtain ⟨hok, hsources, hr'⟩ := hw.addRelease hallowed.1 hallowed.2 hr now
    exact ⟨hok, hsources, r, hr', .refl trivial⟩
  | start jobId => exact ⟨hw.start hr now, fun _ => id, r, hr, .refl trivial⟩
  | fail d code message retryAt =>
    by_cases hd : d ∈ w.running
    · obtain ⟨hok, hsame, r', hr', hstep⟩ := hw.fail code message retryAt now hd hr
      exact ⟨hok, by rw [hsame.chapterSources]; exact fun _ => id, r', hr', hstep⟩
    · simp only [FallbackCall.apply, if_neg hd]
      exact ⟨hw, fun _ => id, r, hr, .refl fun h => absurd h hd⟩
  | bypass source retryAfter =>
    simp only [FallbackCall.apply]
    cases hres : w.catalog.bypassCoolingSource now source retryAfter with
    | error e => exact ⟨hw, fun _ => id, r, hr, .refl trivial⟩
    | ok result =>
      obtain ⟨c', n⟩ := result
      obtain ⟨hsame, ht, r', hr', hroute⟩ := Catalog.bypassCoolingSource_route hw.tables hres hr
      refine ⟨hw.of_same hsame ht fun _ => id, ?_, r', hr', ?_⟩
      · show _ ⊆ c'.chapterSources chapterId
        rw [hsame.chapterSources]
        exact fun _ => id
      rcases hroute with rfl | ⟨hsource, hnext, hm | hm⟩
      · exact .refl trivial
      · obtain ⟨hs, ha⟩ := hnext.stays hm
        exact .stays hm hs ha trivial
      · obtain ⟨hno, hne, ha⟩ := hnext.goes hm
        exact .goes source hm hno hne ha (iff_of_true trivial (.inr hsource))

/-! ## Runs -/

theorem Catalog.OnRoute.jobSource (hr : w.catalog.OnRoute J chapterId r) :
    w.catalog.jobSource J = some r.source := by
  obtain ⟨⟨job, payload, hj, -, -, hjs, -⟩, -⟩ := hr
  rw [Catalog.jobSource, hj, Option.map_some, hjs]

theorem Catalog.OnRoute.attemptedSources (hr : w.catalog.OnRoute J chapterId r) :
    w.catalog.attemptedSources J = r.attempted := by
  obtain ⟨⟨job, payload, hj, -, -, -, hp, -, hpa, -⟩, -⟩ := hr
  simp only [Catalog.attemptedSources, hj, hp, hpa]

theorem Catalog.OnRoute.mem_chapterSources (hr : w.catalog.OnRoute J chapterId r) :
    r.source ∈ w.catalog.chapterSources chapterId := by
  obtain ⟨x, hx, -, hchapter, hsource⟩ := hr.release
  simp only [Catalog.chapterSources, List.mem_eraseDups, List.mem_map, List.mem_filter, beq_iff_eq]
  exact ⟨x, ⟨hx, hchapter⟩, hsource⟩

/-- A step moves the job on exactly when the condition holds of it. -/
theorem RouteStep.movesOn_iff (h : RouteStep known r r') (hr : w.catalog.OnRoute J chapterId r)
    (hr' : w'.catalog.OnRoute J chapterId r') : w.catalog.MovesOn J w'.catalog ↔ known := by
  cases h with
  | stays hm hs ha hknown =>
    refine iff_of_true ⟨?_, fun hne => ?_⟩ hknown
    · rwa [hr.attemptedSources, hr'.attemptedSources]
    · exact absurd (hr'.record.trans (hm.trans hr.record.symm)) hne
  | goes s hm hno hne ha hiff =>
    rw [hiff, ← ha]
    have hcount : w'.catalog.reroutes J = w.catalog.reroutes J + 1 := by
      rw [hr'.record, hr.record, hm]
    constructor
    · intro hmoves
      have hleft := ((hmoves.moved (by omega)).2 _ _ hr.jobSource
        hr'.jobSource).2
      rwa [hr'.attemptedSources] at hleft
    · intro hleft
      refine ⟨?_, fun _ => ⟨hcount, fun left source hl hs => ?_⟩⟩
      · rw [hr.attemptedSources, hr'.attemptedSources]
        exact fun x hx => (ha x).mpr (.inl hx)
      · obtain rfl := Option.some.inj (hr.jobSource.symm.trans hl)
        obtain rfl := Option.some.inj (hr'.jobSource.symm.trans hs)
        rw [hr.attemptedSources, hr'.attemptedSources]
        exact ⟨hno, hleft⟩

/-- The job was at each of the providers it left once, and notes them. -/
structure Route.Leaves (w₀ : ChapterWork) (J chapterId : Nat)
    (tr : List (ChapterWork × (FallbackCall × Time))) (w : ChapterWork) (r : Route) : Prop where
  noted : leftSources J tr ⊆ r.attempted
  nodup : (leftSources J tr).Nodup
  present : r.source ∉ leftSources J tr
  moves : r.moves = w₀.catalog.reroutes J + (leftSources J tr).length
  sources : leftSources J tr ⊆ w.catalog.chapterSources chapterId

theorem leftSources_snoc : leftSources J (tr ++ [(w, l)]) = leftSources J tr ++
    if Reroutes J (w, l) then (w.catalog.jobSource J).toList else [] := by
  rw [leftSources, List.filter_append, List.filterMap_append, List.filter_singleton]
  congr 1
  cases Reroutes J (w, l) with
  | true =>
    show ([(w, l)].filterMap fun y => y.1.catalog.jobSource J) = _
    rw [List.filterMap_cons]
    cases w.catalog.jobSource J <;> rfl
  | false => rfl

theorem Route.Leaves.step (h : r.Leaves w₀ J chapterId tr w) (hr : w.catalog.OnRoute J chapterId r)
    (hr' : (l.1.apply w l.2).catalog.OnRoute J chapterId r') (hknown : known)
    (hsources : w.catalog.chapterSources chapterId ⊆
      (l.1.apply w l.2).catalog.chapterSources chapterId)
    (hstep : RouteStep known r r') :
    r'.Leaves w₀ J chapterId (tr ++ [(w, l)]) (l.1.apply w l.2) := by
  have hreroutes : Reroutes J (w, l) = (r'.moves != r.moves) := by
    rw [Reroutes, hr'.record, hr.record]
  cases hstep with
  | stays hm hs ha =>
    have hleft : leftSources J (tr ++ [(w, l)]) = leftSources J tr := by
      rw [leftSources_snoc, hreroutes, hm]
      simp
    refine ⟨?_, ?_, ?_, ?_, ?_⟩ <;> rw [hleft]
    · exact fun x hx => ha (h.noted hx)
    · exact h.nodup
    · rw [hs]
      exact h.present
    · exact hm.trans h.moves
    · exact fun x hx => hsources (h.sources hx)
  | goes s hm hno hne ha hiff =>
    have hleft : leftSources J (tr ++ [(w, l)]) = leftSources J tr ++ [r.source] := by
      rw [leftSources_snoc, hreroutes, hm, hr.jobSource]
      simp
    have hsub : leftSources J tr ++ [r.source] ⊆ r'.attempted := by
      intro x hx
      rcases List.mem_append.mp hx with hx | hx
      · exact (ha x).mpr (.inl (h.noted hx))
      · rw [List.mem_singleton.mp hx]
        exact (ha r.source).mpr (hiff.mp hknown)
    refine ⟨?_, ?_, ?_, ?_, ?_⟩ <;> rw [hleft]
    · exact hsub
    · exact h.nodup.append (List.nodup_singleton _) (List.disjoint_singleton.mpr h.present)
    · intro hmem
      -- the new provider is none of the noted ones
      rcases (ha _).mp (hsub hmem) with hatt | he
      · exact hno hatt
      · exact hne he
    · rw [hm, h.moves, List.length_append, List.length_singleton, Nat.add_assoc]
    · intro x hx
      rcases List.mem_append.mp hx with hx | hx
      · exact hsources (h.sources hx)
      · rw [List.mem_singleton.mp hx]
        exact hsources hr.mem_chapterSources

theorem fallback_leaves (h : Run FallbackStep w₀ tr w) (hw₀ : FallbackOk J chapterId w₀)
    (hr₀ : ∃ r, w₀.catalog.OnRoute J chapterId r)
    (hknown : Run.Meets (FallbackCall.LeavesKnown J) tr) :
    ∃ r, w.catalog.OnRoute J chapterId r ∧ r.Leaves w₀ J chapterId tr w := by
  have hinv := h.recorded (R := fun tr w => FallbackOk J chapterId w ∧
    ∃ r, w.catalog.OnRoute J chapterId r ∧ r.Leaves w₀ J chapterId tr w) hknown ?_ ?_
  · exact hinv.2
  · obtain ⟨r, hr⟩ := hr₀
    exact ⟨hw₀, r, hr, ⟨List.nil_subset _, List.nodup_nil, List.not_mem_nil, hr.record.symm,
      List.nil_subset _⟩⟩
  · rintro tr w l w' hl ⟨hw, r, hr, hleaves⟩ hstep
    obtain ⟨hw', hsources, r', hr', hroute⟩ := hstep.spec hw hr
    obtain rfl := hstep.2
    exact ⟨hw', r', hr', hleaves.step hr hr' hl hsources hroute⟩

/-- The condition on the tables holds all along a run. -/
theorem fallbackOk_run (h : Run FallbackStep w₀ tr w) (hw₀ : FallbackOk J chapterId w₀)
    (hr₀ : ∃ r, w₀.catalog.OnRoute J chapterId r) :
    FallbackOk J chapterId w ∧ ∃ r, w.catalog.OnRoute J chapterId r := by
  refine h.always (P := fun w => FallbackOk J chapterId w ∧
    ∃ r, w.catalog.OnRoute J chapterId r) ⟨hw₀, hr₀⟩ ?_
  rintro w l w' ⟨hw, r, hr⟩ hstep
  obtain ⟨hw', -, r', hr', -⟩ := hstep.spec hw hr
  exact ⟨hw', r', hr'⟩

/-- The fallback of a download terminates in a run exactly when no handler moves the job from a
provider that is neither its own nor noted. -/
theorem fallback_terminates_iff (h : Run FallbackStep w₀ tr w) (hw₀ : FallbackOk J chapterId w₀)
    (hr₀ : ∃ r, w₀.catalog.OnRoute J chapterId r) :
    FallbackTerminates J chapterId w₀ tr w ↔ Run.Meets (FallbackCall.LeavesKnown J) tr := by
  constructor
  · intro hterm y hy
    obtain ⟨tr', w₂, hrun, hstep, -⟩ := h.mem_step hy
    obtain ⟨hok, r, hr⟩ := fallbackOk_run hrun hw₀ hr₀
    obtain ⟨-, -, r', hr', hroute⟩ := hstep.spec hok hr
    obtain rfl := hstep.2
    exact (hroute.movesOn_iff hr hr').mp (hterm.moves y hy)
  · intro hknown
    refine ⟨fun y hy => ?_, ?_, fun tr₁ y hpre source hsource => ?_⟩
    · obtain ⟨tr', w₂, hrun, hstep, -⟩ := h.mem_step hy
      obtain ⟨hok, r, hr⟩ := fallbackOk_run hrun hw₀ hr₀
      obtain ⟨-, -, r', hr', hroute⟩ := hstep.spec hok hr
      obtain rfl := hstep.2
      exact (hroute.movesOn_iff hr hr').mpr (hknown y hy)
    · obtain ⟨r, hr, hleaves⟩ := fallback_leaves h hw₀ hr₀ hknown
      -- the provider the job is at is one more than those it left
      have hnd : (r.source :: leftSources J tr).Nodup :=
        List.nodup_cons.mpr ⟨hleaves.present, hleaves.nodup⟩
      have hsub : r.source :: leftSources J tr ⊆ w.catalog.chapterSources chapterId :=
        List.cons_subset.mpr ⟨hr.mem_chapterSources, hleaves.sources⟩
      have hlen := (List.subperm_of_subset hnd hsub).length_le
      rw [List.length_cons] at hlen
      rw [hr.record, hleaves.moves]
      omega
    · obtain ⟨w₂, hrun, hstep⟩ := h.of_prefix hpre
      obtain rfl := hstep.2
      obtain ⟨r, hr, hleaves⟩ := fallback_leaves (hrun.snoc hstep) hw₀ hr₀ fun x hx =>
        hknown x (hpre.subset hx)
      obtain rfl := Option.some.inj (hr.jobSource.symm.trans hsource)
      exact hleaves.present

end

/-! ## A handler whose lease ran out -/

def claimDownload (owner : String) (now : Time) : FallbackCall × Time :=
  (.call (.claim {} { owner := owner, leaseFor := 10 }), now)

def ChapterWork.fallback (w : ChapterWork) (l : FallbackCall × Time) : ChapterWork :=
  l.1.apply w l.2

def mangafireRequest : EnqueueArgs :=
  { kind := .chapterDownload, dedupeKey := "chapter:7", source := "mangafire", seriesKey := "1"
    payload := .chapterDownload { chapterReleaseId := 1 } }

/-- A chapter with two providers, to be downloaded from one of them. -/
def twoProviders : ChapterWork :=
  { catalog :=
      { releases := [releaseOf 1 "mangafire" Nat.one_pos, releaseOf 2 "asura" Nat.two_pos]
        queue := (Op.enqueue mangafireRequest).apply {} 0 } }

def mangafireFails (now : Time) : FallbackCall × Time :=
  (.fail mangafireDownload "http_503" "unavailable" 1000, now)

/-- The lease of the first handler runs out, and the job is claimed and started again; one of the
two handlers moves it. -/
def reclaimedCalls : List (FallbackCall × Time) :=
  [claimDownload "a" 0, (.start 1, 0), claimDownload "b" 20, (.start 1, 20),
    mangafireFails 21, claimDownload "c" 22]

theorem twoProviders_ok : FallbackOk 1 7 twoProviders := by
  refine ⟨⟨?_, by decide +kernel, by decide +kernel⟩, fun d hd => by cases hd⟩
  have hempty : Queue.RowsOk {} := ⟨List.nodup_nil, fun _ hj => by cases hj⟩
  exact (Op.apply_rowsOk (.enqueue mangafireRequest) 0 hempty).1

theorem twoProviders_route : ∃ r, twoProviders.catalog.OnRoute 1 7 r := by
  exact ⟨⟨"mangafire", 1, [], 0⟩, ⟨_, _, rfl, rfl, rfl, rfl, rfl, rfl, rfl, rfl⟩,
    ⟨releaseOf 1 "mangafire" Nat.one_pos, by decide +kernel, rfl, rfl, rfl⟩, by decide +kernel⟩

/-- The calls made one after the other. -/
theorem fallback_run (calls : List (FallbackCall × Time))
    (h : ∀ x ∈ Run.history ChapterWork.fallback twoProviders calls, x.2.1.Allowed x.1) :
    Run FallbackStep twoProviders (Run.history ChapterWork.fallback twoProviders calls)
      (calls.foldl ChapterWork.fallback twoProviders) :=
  Run.of_foldl _ calls fun x hx => ⟨h x hx, rfl⟩

/-- The other handler finds the job at `asura`, and moves it from there to `asura`; that is one
reroute too many. -/
theorem reclaimedCalls_unbounded : ∃ tr w, Run FallbackStep twoProviders tr w ∧
    tr.map Prod.snd = reclaimedCalls ++ [mangafireFails 23] ∧ FallbackOk 1 7 twoProviders ∧
    (∃ r, twoProviders.catalog.OnRoute 1 7 r) ∧ ¬ FallbackTerminates 1 7 twoProviders tr w := by
  refine ⟨_, _, fallback_run (reclaimedCalls ++ [mangafireFails 23]) ?_, rfl, twoProviders_ok,
    twoProviders_route, fun hterm => ?_⟩
  · simp [reclaimedCalls, Run.history, claimDownload, mangafireFails, FallbackCall.Allowed,
      Op.KeepsRoutes]
  · have hmoves : ((reclaimedCalls ++ [mangafireFails 23]).foldl ChapterWork.fallback
        twoProviders).catalog.reroutes 1 = 2 := by decide +kernel
    have hsources : ((reclaimedCalls ++ [mangafireFails 23]).foldl ChapterWork.fallback
        twoProviders).catalog.chapterSources 7 = ["mangafire", "asura"] := by decide +kernel
    have hnone : twoProviders.catalog.reroutes 1 = 0 := by decide +kernel
    have hle := hterm.bounded
    rw [hmoves, hsources, hnone] at hle
    exact absurd hle (by decide)

/-- Without it the job goes to `asura` and stays there. -/
theorem reclaimedCalls_terminate : ∃ tr w, Run FallbackStep twoProviders tr w ∧
    tr.map Prod.snd = reclaimedCalls ∧ w.catalog.jobSource 1 = some "asura" ∧
    FallbackTerminates 1 7 twoProviders tr w := by
  have hrun := fallback_run reclaimedCalls (by
    simp [reclaimedCalls, Run.history, claimDownload, mangafireFails, FallbackCall.Allowed,
      Op.KeepsRoutes])
  refine ⟨_, _, hrun, rfl, by decide +kernel,
    (fallback_terminates_iff hrun twoProviders_ok twoProviders_route).mpr ?_⟩
  simp only [reclaimedCalls, Run.history, Run.Meets, List.mem_cons, List.not_mem_nil, or_false,
    forall_eq_or_imp, forall_eq]
  refine ⟨trivial, trivial, trivial, trivial, ?_, trivial⟩
  intro _ _ job payload hj _ _ _ _
  have hsource : (([claimDownload "a" 0, (.start 1, 0), claimDownload "b" 20,
      (.start 1, 20)].foldl ChapterWork.fallback twoProviders).catalog.queue.job? 1).map
        (·.source) = some "mangafire" := by
    decide +kernel
  simp only [List.foldl_cons, List.foldl_nil, hj, Option.map_some] at hsource
  exact Catalog.mem_attempted.mpr (.inr (Option.some.inj hsource))

end MangaManager
