import MangaManager.Library.Repair
import MangaManager.Queue.Scan
import MangaManager.Queue.SeriesLock

/-!
# Merging series

`merge_canonical_series` folds several manga into one: the jobs of the merged
series get the series key of the one that is kept, downloads of a duplicate
release download the kept one, and a repair of the kept series is requested.
`CatalogMerge` is what the catalog decides in one call.

`LibraryRun` interleaves queue calls, repair requests and merges. A merge is
refused while any job of its series is leased, so it moves no lock:
`series_exclusion` says that an unexpired repair lease is alone on its series
key, and that downloads may share one.
-/

namespace MangaManager

open Lib

/-- The outcome of the catalog half of a merge of `ids`. -/
structure CatalogMerge (ids : List Nat) where
  target : Nat
  /-- The release that replaces a release, itself unless it was a duplicate. -/
  release : Nat → Nat
  obsoleteStorageKeys : List String
  target_mem : target ∈ ids
  release_pos : ∀ i, 0 < i → 0 < release i

inductive MergeError where
  | tooFew
  | leased
  | catalog
  | repair (e : QueueError)
  deriving DecidableEq, Repr

/-- The status of the `HTTPException`; a failure of the repair request is not one. -/
def MergeError.status : MergeError → Option Nat
  | tooFew => some 422
  | leased => some 409
  | catalog => some 409
  | repair _ => none

namespace CatalogMerge

variable {ids : List Nat}

/-- The series key of a job after the merge. -/
def rekey (m : CatalogMerge ids) (key : String) : String :=
  if key ∈ (ids.filter (· ≠ m.target)).map toString then toString m.target else key

/-- `payload["chapter_release_id"] = keeper.id`. -/
def replaceRelease (m : CatalogMerge ids) : JobPayload → JobPayload
  | .chapterDownload p => .chapterDownload { p with chapterReleaseId := m.release p.chapterReleaseId }
  | p => p

/-- `_replace_release_references` and the new series key, on one job row. -/
def rewrite (m : CatalogMerge ids) (j : WorkJob) : WorkJob :=
  { j with
    seriesKey := m.rekey j.seriesKey
    payload := if j.kind = .chapterDownload then m.replaceRelease j.payload else j.payload
    pendingPayload := if j.kind = .chapterDownload then j.pendingPayload.map m.replaceRelease
      else j.pendingPayload }

end CatalogMerge

namespace Queue

/-- The jobs whose leases hold up a merge of `ids`. -/
def leasedOf (s : Queue) (ids : List Nat) : List WorkJob :=
  s.jobs.filter fun j => j.status == .leased && decide (j.seriesKey ∈ ids.map toString)

/-- `merge_canonical_series`; without an outcome the catalog refused the merge. -/
def mergeCanonicalSeries (s : Queue) (ids : List Nat) (outcome : Option (CatalogMerge ids))
    (now : Time) : Except MergeError (Queue × Nat) :=
  if ids.eraseDups.length < 2 then .error .tooFew
  else if s.leasedOf ids ≠ [] then .error .leased
  else match outcome with
    | none => .error .catalog
    | some m =>
      let s' := { s with jobs := s.jobs.map m.rewrite }
      match s'.enqueueLibraryRepair m.target "merge" 90 m.obsoleteStorageKeys now with
      | .error e => .error (.repair e)
      | .ok (s'', _) => .ok (s'', m.target)

end Queue

/-! ## What a merge does to the rows -/

section
variable {ids : List Nat} {m : CatalogMerge ids} {j : WorkJob} {s : Queue} {now : Time}

theorem CatalogMerge.replaceRelease_validFor {p : JobPayload} {kind : JobKind}
    (h : p.ValidFor kind) : (m.replaceRelease p).ValidFor kind := by
  cases p with
  | chapterDownload p =>
    obtain ⟨hk, hv⟩ := h
    simp only [JobPayload.validate, Bool.and_eq_true, decide_eq_true_eq] at hv
    refine ⟨hk, ?_⟩
    simp only [CatalogMerge.replaceRelease, JobPayload.validate, Bool.and_eq_true,
      decide_eq_true_eq]
    exact ⟨hv.1, m.release_pos _ hv.2⟩
  | _ => exact h

theorem CatalogMerge.rewrite_wellFormed (hj : j.WellFormed) : (m.rewrite j).WellFormed where
  payload := by
    unfold CatalogMerge.rewrite
    dsimp only
    split
    · exact CatalogMerge.replaceRelease_validFor hj.payload
    · exact hj.payload
  pending q hq := by
    unfold CatalogMerge.rewrite at hq
    dsimp only at hq
    split at hq
    · obtain ⟨p, hp, rfl⟩ := Option.map_eq_some_iff.mp hq
      exact CatalogMerge.replaceRelease_validFor (hj.pending p hp)
    · exact hj.pending q hq
  units := hj.units
  ceiling := hj.ceiling
  attempts := hj.attempts
  lease := hj.lease
  owner := hj.owner

/-- A merge leaves the key of a job that is not of one of its series. -/
theorem CatalogMerge.rekey_of_not_mem {key : String} (h : key ∉ ids.map toString) :
    m.rekey key = key := by
  refine if_neg fun hm => h ?_
  obtain ⟨i, hi, rfl⟩ := List.mem_map.mp hm
  exact List.mem_map_of_mem (List.mem_of_mem_filter hi)

/-- No lease is of a merged series, so the locks stay where they are. -/
theorem Queue.locks_rewrite (h : s.leasedOf ids = []) :
    ({ s with jobs := s.jobs.map m.rewrite } : Queue).locks now = s.locks now := by
  have hkey : ∀ j ∈ s.jobs, j.Live now → m.rekey j.seriesKey = j.seriesKey := by
    intro j hj hl
    refine CatalogMerge.rekey_of_not_mem fun hm => ?_
    have hno := List.filter_eq_nil_iff.mp h j hj
    simp only [hl.1, beq_self_eq_true, Bool.true_and, decide_eq_true_eq] at hno
    exact hno hm
  have hlock : ∀ j ∈ s.jobs, j.Live now → Queue.seriesLock (m.rewrite j) = Queue.seriesLock j :=
    fun j hj hl => by simp only [Queue.seriesLock, CatalogMerge.rewrite, hkey j hj hl]
  ext l
  constructor
  · rintro ⟨k, hk, hl, hm, hne, rfl⟩
    obtain ⟨j, hj, rfl⟩ := List.mem_map.mp hk
    have hne' : m.rekey j.seriesKey ≠ "" := hne
    rw [hkey j hj hl] at hne'
    exact ⟨j, hj, hl, hm, hne', hlock j hj hl⟩
  · rintro ⟨j, hj, hl, hm, hne, rfl⟩
    have hne' : m.rekey j.seriesKey ≠ "" := by rwa [hkey j hj hl]
    exact ⟨m.rewrite j, List.mem_map_of_mem hj, hl, hm, hne', (hlock j hj hl).symm⟩

theorem Queue.WellFormed.rewrite (hw : s.WellFormed) (m : CatalogMerge ids) :
    ({ s with jobs := s.jobs.map m.rewrite } : Queue).WellFormed :=
  hw.of_map (fun _ => rfl) (fun _ => rfl) (fun _ => rfl) (fun _ => rfl) (fun _ => rfl)
    fun j hj => CatalogMerge.rewrite_wellFormed (hw.rows j hj)

end

/-! ## Runs of the library -/

/-- A call of the queue, a repair request, or a merge. -/
inductive LibraryCall where
  | queue (op : Op)
  | repair (seriesId : Nat) (reason : String) (priority : Int) (obsoleteStorageKeys : List String)
  | merge (ids : List Nat) (outcome : Option (CatalogMerge ids))

/-- The effect of a call; a call that raises rolls its transaction back. -/
def LibraryCall.apply (call : LibraryCall) (s : Queue) (now : Time) : Queue :=
  match call with
  | queue op => op.apply s now
  | repair seriesId reason priority keys =>
    committed s (s.enqueueLibraryRepair seriesId reason priority keys now)
  | merge ids outcome =>
    match s.mergeCanonicalSeries ids outcome now with
    | .ok (s', _) => s'
    | .error _ => s

def LibraryStep (c : Clocked) (l : LibraryCall × Time) (c' : Clocked) : Prop :=
  c.clock ≤ l.2 ∧ c' = ⟨l.1.apply c.queue l.2, l.2⟩

abbrev LibraryRun (t₀ : Time) := Run LibraryStep ⟨{}, t₀⟩

def Clocked.libraryCall (c : Clocked) (l : LibraryCall × Time) : Clocked :=
  ⟨l.1.apply c.queue l.2, l.2⟩

section
variable {s s' : Queue} {now : Time} {seriesId : Nat} {reason : String} {priority : Int}
  {keys : List String} {op : Op}

/-- What a run keeps: the tables are well formed and the series locks consistent. -/
structure Queue.SeriesSafe (s : Queue) (now : Time) : Prop where
  tables : s.WellFormed
  locks : Lock.Consistent (s.locks now)

theorem Op.apply_seriesSafe (h : s.SeriesSafe now) : (op.apply s now).SeriesSafe now :=
  Op.apply_inv (P := fun s => s.SeriesSafe now) op now h.tables.jobs
    (fun _ _ h ht => ⟨ht.wellFormed h.tables, ht.consistent h.locks⟩) h

theorem Queue.enqueueLibraryRepair_seriesSafe {created : Bool}
    (hr : s.enqueueLibraryRepair seriesId reason priority keys now = .ok (s', created))
    (h : s.SeriesSafe now) : s'.SeriesSafe now := by
  rcases enqueueLibraryRepair_ok h.tables hr with ⟨j, j', hj, ha, hm, rfl⟩ | ⟨args, rfl⟩
  · refine ⟨h.tables.of_put (.inl ⟨rfl, rfl⟩) hj hm.same hm.row ha rfl rfl, ?_⟩
    refine h.locks.mono (Queue.locks_put hj hm.same (fun hl => ?_) rfl)
    obtain ⟨e, he, hlt⟩ := hl.2
    exact ⟨hm.status ▸ hl.1, e, hm.expiry ▸ he, hlt⟩
  · exact Op.apply_seriesSafe h

theorem LibraryCall.apply_seriesSafe (call : LibraryCall) (h : s.SeriesSafe now) :
    (call.apply s now).SeriesSafe now := by
  cases call with
  | queue op => exact Op.apply_seriesSafe h
  | repair seriesId reason priority keys =>
    simp only [LibraryCall.apply]
    cases hr : s.enqueueLibraryRepair seriesId reason priority keys now with
    | error e => exact h
    | ok r => exact Queue.enqueueLibraryRepair_seriesSafe hr h
  | merge ids outcome =>
    simp only [LibraryCall.apply, Queue.mergeCanonicalSeries]
    by_cases htwo : ids.eraseDups.length < 2
    · rw [if_pos htwo]
      exact h
    by_cases hleased : s.leasedOf ids = []
    · rw [if_neg htwo, if_neg (by simpa using hleased)]
      cases outcome with
      | none => exact h
      | some m =>
        have hsafe : ({ s with jobs := s.jobs.map m.rewrite } : Queue).SeriesSafe now :=
          ⟨h.tables.rewrite m, (Queue.locks_rewrite hleased).symm ▸ h.locks⟩
        dsimp only
        cases hr : Queue.enqueueLibraryRepair { s with jobs := s.jobs.map m.rewrite } m.target
            "merge" 90 m.obsoleteStorageKeys now with
        | error e => exact h
        | ok r => exact Queue.enqueueLibraryRepair_seriesSafe hr hsafe
    · rw [if_neg htwo, if_pos hleased]
      exact h

end

section
variable {t₀ : Time} {tr : List (Clocked × (LibraryCall × Time))} {c : Clocked}

theorem LibraryRun.seriesSafe (h : LibraryRun t₀ tr c) : c.queue.SeriesSafe c.clock := by
  have h₀ : Queue.SeriesSafe {} t₀ := by
    refine ⟨Queue.wellFormed_empty, ?_⟩
    rintro l ⟨j, hj, -⟩
    cases hj
  refine h.always (P := fun c => c.queue.SeriesSafe c.clock) h₀ ?_
  rintro c l c' hs ⟨hle, rfl⟩
  exact l.1.apply_seriesSafe ⟨hs.tables, hs.locks.mono (Queue.locks_later hle)⟩

end

/-! ## Downloads of one series side by side -/

/-- A download of series `"1"`, under a key of its own. -/
def download (n : Nat) : EnqueueArgs where
  kind := .chapterDownload
  dedupeKey := String.ofList (List.replicate (n + 1) 'a')
  payload := .chapterDownload { chapterReleaseId := 1 }
  seriesKey := "1"

def downloadClaim : ClaimArgs where
  owner := "w"
  leaseFor := 1

/-- `n` unexpired downloads of series `"1"`, and nothing else. -/
structure Sharing (n : Nat) (s : Queue) : Prop where
  tables : s.WellFormed
  lockstep : s.Lockstep
  rows : ∀ j ∈ s.jobs, j.kind = .chapterDownload ∧ j.seriesKey = "1" ∧ j.Live 0 ∧
    j.dedupeKey.length ≤ n
  count : s.jobs.length = n
  permits : s.permits = []

section
variable {s : Queue} {n : Nat}

theorem strip_download : strip (download n).dedupeKey = (download n).dedupeKey := by
  refine strip_eq_self fun c hc => ?_
  simp only [download, String.toList_ofList, List.mem_replicate] at hc
  rw [hc.2]
  decide

theorem length_download : (download n).dedupeKey.length = n + 1 := by
  rw [download, ← String.length_toList, String.toList_ofList, List.length_replicate]

theorem checkEnqueue_download : Queue.checkEnqueue (download n) = .ok () := by
  have hne : (download n).dedupeKey ≠ "" := fun h => by
    have hl := length_download (n := n)
    rw [h] at hl
    cases hl
  unfold Queue.checkEnqueue
  rw [strip_download, if_neg hne]
  rfl

theorem Sharing.enqueue (h : Sharing n s) :
    (Op.enqueue (download n)).apply s 0 = s.enqueueNew (download n) 0 := by
  have hnone : s.activeJob (download n).kind (strip (download n).dedupeKey) = none := by
    refine Queue.activeJob_none.mpr fun k hk _ _ hd => ?_
    have hlen := (h.rows k hk).2.2.2
    rw [hd, strip_download, length_download] at hlen
    omega
  simp only [Op.apply, Queue.enqueue, checkEnqueue_download, hnone, committed]

/-- The new download is the one job a claim finds, and fits beside the others. -/
theorem Sharing.scan (h : Sharing n s) :
    Queue.scan {} downloadClaim (s.enqueueNew (download n) 0) 0 =
      some (s.insertedJob (download n) 0) := by
  have hkind : (s.insertedJob (download n) 0).kind = .chapterDownload := rfl
  have hholds : ∀ r ∈ (s.enqueueNew (download n) 0).jobs,
      Queue.holdsSeries (s.insertedJob (download n) 0) r 0 = false := by
    rw [Queue.enqueueNew_jobs]
    simp only [List.mem_append, List.mem_singleton]
    rintro r (hr | rfl)
    · simp [Queue.holdsSeries, hkind, (h.rows r hr).1]
    · simp [Queue.holdsSeries, hkind]
  have hcand : Queue.candidates {} downloadClaim (s.enqueueNew (download n) 0) 0 =
      [s.insertedJob (download n) 0] := by
    unfold Queue.candidates
    rw [Queue.enqueueNew_jobs, List.filter_append, List.filter_eq_nil_iff.mpr, List.nil_append,
      List.filter_cons_of_pos, List.filter_nil]
    · have hseries : (s.enqueueNew (download n) 0).seriesFree (s.insertedJob (download n) 0) 0 =
          true := by
        simp only [Queue.seriesFree, Bool.or_eq_true, Bool.not_eq_true', List.any_eq_false]
        exact .inr fun r hr => by simp [hholds r hr]
      have hclaim : Queue.claimable {} (s.enqueueNew (download n) 0) 0
          (s.insertedJob (download n) 0) = true := by
        rw [Queue.claimable, hseries]
        rfl
      rw [hclaim]
      rfl
    · intro r hr
      have hl := (h.rows r hr).2.2.1
      simp [Queue.claimable, hl.not_ready, hl.not_expired]
  have hfits : Queue.fits {} downloadClaim (s.enqueueNew (download n) 0) 0
      (s.insertedJob (download n) 0) = true := by
    rw [Queue.fits, repoolRefresh_of_ne (by rw [hkind]; decide), Queue.permitsFree_iff]
    refine ⟨fun _ _ r hr => hholds r hr, fun pool _ limit hlim => ?_⟩
    simp [Queue.poolLimit, downloadClaim, PoolLimits.get, Queue.effectiveProviderLimit] at hlim
  rw [Queue.scan, hcand]
  exact FirstFit.firstFit_singleton hfits

theorem Sharing.step (h : Sharing n s) : Sharing (n + 1)
    ((Op.claim {} downloadClaim).apply ((Op.enqueue (download n)).apply s 0) 0) := by
  have hw := Op.apply_wellFormed (.enqueue (download n)) 0 h.tables
  have hl := Op.apply_lockstep (.enqueue (download n)) 0 h.tables h.lockstep
  have hw' := Op.apply_wellFormed (.claim {} downloadClaim) 0 hw
  have hl' := Op.apply_lockstep (.claim {} downloadClaim) 0 hw hl
  rw [h.enqueue] at hw hl hw' hl' ⊢
  obtain ⟨q, seen, e, l, hq, -, -, hc⟩ := (claim_of_some hw hl (by decide) (by decide) h.scan).2 rfl
  have hjobs := hq.jobs
  rw [Queue.enqueueNew_jobs] at hjobs
  -- the row that is leased
  have hkind : (s.insertedJob (download n) 0).kind = .chapterDownload := rfl
  have hseries : (s.insertedJob (download n) 0).seriesKey = "1" := by
    show strip "1" = "1"
    decide
  have hkey : (s.insertedJob (download n) 0).dedupeKey.length = n + 1 := by
    rw [← length_download, ← strip_download]
    rfl
  generalize s.insertedJob (download n) 0 = j at hc hjobs hkind hseries hkey
  rw [repoolRefresh_of_ne (by rw [hkind]; decide)] at hc
  have hrows : q.jobs = s.jobs ++ [j] := by
    rw [hjobs]
    conv_rhs => rw [← List.map_id (s.jobs ++ _)]
    refine List.map_congr_left fun r hr => ?_
    have hr : r.kind = .chapterDownload := by
      rcases List.mem_append.mp hr with hr | hr
      · exact (h.rows r hr).1
      · rw [List.mem_singleton.mp hr, hkind]
    rw [repoolRefresh_of_ne (by rw [hr]; decide), ite_self]
    rfl
  have hperm : q.permits = [] := by
    refine List.eq_nil_iff_forall_not_mem.mpr fun p hp => ?_
    have hp := hq.held p hp
    rw [Queue.enqueueNew_permits, h.permits] at hp
    cases hp
  refine ⟨hw', hl', ?_, ?_, ?_⟩ <;> simp only [Op.apply, hc, committed]
  · intro r hr
    rcases Table.mem_put.mp hr with ⟨rfl, -⟩ | ⟨hr, hne⟩
    · exact ⟨hkind, hseries, ⟨rfl, 1, rfl, by decide⟩, hkey.le⟩
    · rw [hrows] at hr
      rcases List.mem_append.mp hr with hr | hr
      · obtain ⟨h1, h2, h3, h4⟩ := h.rows r hr
        exact ⟨h1, h2, h3, Nat.le_succ_of_le h4⟩
      · exact absurd (congrArg WorkJob.id (List.mem_singleton.mp hr)) hne
  · simp [Queue.granted, Queue.putJob, Table.put, hrows, h.count]
  · simp [Queue.granted, Queue.putJob, hperm, Queue.newPermits, downloadClaim, PoolLimits.get]

/-- A run that ends with `n` unexpired downloads of one series. -/
theorem sharing_run (n : Nat) : ∃ tr c, LibraryRun 0 tr c ∧ c.clock = 0 ∧ Sharing n c.queue := by
  induction n with
  | zero =>
    exact ⟨[], _, .nil, rfl,
      ⟨Queue.wellFormed_empty, ⟨by simp, List.nodup_nil⟩, by simp, rfl, rfl⟩⟩
  | succ n ih =>
    obtain ⟨tr, c, hrun, hclock, hs⟩ := ih
    have hstep := hs.step
    generalize hq : (Op.enqueue (download n)).apply c.queue 0 = q at hstep
    generalize hq' : (Op.claim {} downloadClaim).apply q 0 = q' at hstep
    have henq : LibraryStep c (.queue (.enqueue (download n)), 0) ⟨q, 0⟩ :=
      ⟨hclock.le, by rw [← hq]; rfl⟩
    have hclaim : LibraryStep ⟨q, 0⟩ (.queue (.claim {} downloadClaim), 0) ⟨q', 0⟩ :=
      ⟨le_refl (0 : Time), by rw [← hq']; rfl⟩
    exact ⟨_, ⟨q', 0⟩, (hrun.snoc henq).snoc hclaim, rfl, hstep⟩

end

/-- In a run of queue calls, repair requests and merges, no unexpired repair lease ever shares a
series key with another unexpired repair or download lease, and any number of unexpired download
leases may share one. -/
theorem series_exclusion :
    (∀ t₀ tr c, LibraryRun t₀ tr c → ∀ now, c.clock ≤ now → ∀ j ∈ c.queue.jobs,
      ∀ k ∈ c.queue.jobs, j.id ≠ k.id → j.Live now → k.Live now → j.kind = .libraryRepair →
      k.kind = .libraryRepair ∨ k.kind = .chapterDownload → j.seriesKey ≠ "" →
      j.seriesKey ≠ k.seriesKey) ∧
    ∀ n, ∃ tr c, LibraryRun 0 tr c ∧ c.queue.jobs.length = n ∧ ∀ j ∈ c.queue.jobs,
      j.kind = .chapterDownload ∧ j.seriesKey = "1" ∧ j.Live c.clock := by
  constructor
  · intro t₀ tr c h now hnow j hj k hk hid hjl hkl hjk hkk hne he
    have hsafe := (LibraryRun.seriesSafe h).locks.mono (Queue.locks_later hnow)
    have hjm : j.kind.isMutating = true := by rw [hjk]; rfl
    have hkm : k.kind.isMutating = true := by rcases hkk with h | h <;> rw [h] <;> rfl
    have hcompat := hsafe _ ⟨j, hj, hjl, hjm, hne, rfl⟩ _ ⟨k, hk, hkl, hkm, he ▸ hne, rfl⟩ he hid
    exact hcompat.1 hjk
  · intro n
    obtain ⟨tr, c, hrun, hclock, hs⟩ := sharing_run n
    refine ⟨tr, c, hrun, hs.count, fun j hj => ?_⟩
    obtain ⟨hk, hkey, hl, -⟩ := hs.rows j hj
    exact ⟨hk, hkey, hclock ▸ hl⟩

/-- A repair of series 2, the merge of series 1 and 2, and claims of the two repairs of the kept
series. -/
def mergeCalls : List (LibraryCall × Time) :=
  [(.repair 2 "tracking" 100 [], 0),
    (.merge [1, 2] (some ⟨1, id, ["two"], by decide, fun _ h => h⟩), 1),
    (.queue (.claim {} { owner := "v", leaseFor := 10 }), 2),
    (.queue (.claim {} { owner := "w", leaseFor := 10 }), 3)]

/-- Both repairs have the key of the kept series, and one of them is leased. -/
theorem series_exclusion_merged : ∃ tr c, LibraryRun 0 tr c ∧ tr.map Prod.snd = mergeCalls ∧
    (c.queue.jobs.map fun j => (j.kind, j.seriesKey)) =
      [(.libraryRepair, "1"), (.libraryRepair, "1")] ∧
    ∀ j ∈ c.queue.jobs, ∀ k ∈ c.queue.jobs, j.id ≠ k.id → j.Live 4 → ¬ k.Live 4 := by
  have hrun : LibraryRun 0 (Run.history Clocked.libraryCall ⟨{}, 0⟩ mergeCalls)
      (mergeCalls.foldl Clocked.libraryCall ⟨{}, 0⟩) := by
    have hclock : ∀ x ∈ Run.history Clocked.libraryCall ⟨{}, 0⟩ mergeCalls, x.1.clock ≤ x.2.2 := by
      decide +kernel
    exact Run.of_foldl _ _ fun x hx => ⟨hclock x hx, rfl⟩
  have hrows : ∀ j ∈ (mergeCalls.foldl Clocked.libraryCall ⟨{}, 0⟩).queue.jobs,
      j.kind = .libraryRepair ∧ j.seriesKey = "1" := by decide +kernel
  refine ⟨_, _, hrun, rfl, by decide +kernel, fun j hj k hk hid hjl hkl => ?_⟩
  obtain ⟨hjk, hjs⟩ := hrows j hj
  obtain ⟨hkk, hks⟩ := hrows k hk
  exact series_exclusion.1 _ _ _ hrun 4 (by decide +kernel) j hj k hk hid hjl hkl hjk (.inl hkk)
    (by rw [hjs]; decide) (hjs.trans hks.symm)

end MangaManager
