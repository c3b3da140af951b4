import MangaManager.Lib.FirstFit
import MangaManager.Queue.Permits

/-!
# The scan of a claim

The loop of `claim` re-reads the tables after every refusal, but a refusal moves
a refresh to its pool and drops the permits of an expired lease, and neither
changes what the loop decides: `Queue.Scanned` relates the tables the loop has
reached to the tables it started from. So the loop is a first fit with
exclusions over the jobs of its first query (`claimLoop_firstFit`): a refused
network job hides the other jobs of its source, and a job fits when its permits
are free. `claim_of_none` and `claim_of_some` say what `claim` returns in terms
of that scan.
-/

namespace MangaManager

open Lib FirstFit

namespace Queue

/-- The jobs the first `claim_query` of a claim selects. -/
def candidates (env : ClaimEnv) (a : ClaimArgs) (s : Queue) (now : Time) : List WorkJob :=
  s.jobs.filter fun j => claimable env s now j && admitted ((scanOf env a now s [] []).filter a) j

/-- A refused network job hides every job of its source. -/
def hidesSource (y x : WorkJob) : Bool := y.isNetworkJob && y.source != "" && x.source == y.source

/-- `_acquire_permits` would succeed, with the pool set right. -/
def fits (env : ClaimEnv) (a : ClaimArgs) (s : Queue) (now : Time) (j : WorkJob) : Bool :=
  permitsFree env a s now (repoolRefresh j)

/-- The job the scan of `claim` settles on. -/
def scan (env : ClaimEnv) (a : ClaimArgs) (s : Queue) (now : Time) : Option WorkJob :=
  firstFit (s.claimKey now) (fits env a s now) hidesSource (candidates env a s now) 50 []

/-- The scan of `claim` ends with nothing left to look at. -/
def idle (env : ClaimEnv) (a : ClaimArgs) (s : Queue) (now : Time) : Bool :=
  runsDry (s.claimKey now) (fits env a s now) hidesSource (candidates env a s now) 50 []

/-- The tables before the permits of `k` are asked for. -/
def look (s : Queue) (now : Time) (k : WorkJob) : Queue :=
  if k.expired now then (s.putJob (repoolRefresh k)).releasePermits k.id
  else s.putJob (repoolRefresh k)

/-- `q` is `s` after the loop looked at the jobs `seen`. -/
structure Scanned (s q : Queue) (now : Time) (seen : List WorkJob) : Prop where
  jobs : q.jobs = s.jobs.map fun j => if j ∈ seen then repoolRefresh j else j
  count : ∀ pool, q.permitCount now pool = s.permitCount now pool
  held : ∀ p ∈ q.permits, p ∈ s.permits

end Queue

theorem hidesSource_trans (x y z : WorkJob) (hxy : Queue.hidesSource x y = true)
    (hyz : Queue.hidesSource y z = true) : Queue.hidesSource x z = true := by
  simp only [Queue.hidesSource, Bool.and_eq_true, bne_iff_ne, beq_iff_eq] at *
  exact ⟨hxy.1, hyz.2.trans hxy.2⟩

/-! ## What the loop decides does not change -/

section
variable {env : ClaimEnv} {a : ClaimArgs} {s q : Queue} {now : Time} {j k : WorkJob}
  {seen : List WorkJob}

theorem isNetworkJob_repoolRefresh : (Queue.repoolRefresh j).isNetworkJob = j.isNetworkJob := by
  unfold WorkJob.isNetworkJob Queue.repoolRefresh
  by_cases hk : j.kind = .sourceRefresh <;> simp [hk, JobKind.isNetwork]

theorem Queue.admitted_iff {f : ClaimFilter} : Queue.admitted f j = true ↔
    f.kinds.all (fun ks => j.kind ∈ ks) = true ∧
      f.pools.all (fun ps => j.pool ∈ ps ∧ j.pool ≠ "") = true ∧ j.id ∉ f.excludeIds ∧
      j.pool ∉ f.excludePools ∧ j.source ∉ f.excludeSources ∧
      (f.blockNetwork = true → j.isNetworkJob = false) ∧
      (f.blockChapters = true → j.kind ≠ .chapterDownload) := by
  unfold Queue.admitted
  cases f.blockNetwork <;> cases f.blockChapters <;> simp [and_assoc]

theorem repoolRefresh_of_ne (h : j.kind ≠ .sourceRefresh) : Queue.repoolRefresh j = j := by
  rw [Queue.repoolRefresh, if_neg h]

namespace Queue.Scanned

theorem refl : s.Scanned s now [] := ⟨by simp, fun _ => rfl, fun _ h => h⟩

/-- A test of the rows that does not read the pool. -/
theorem any_eq (h : s.Scanned q now seen) {p : WorkJob → Bool}
    (hp : ∀ r, p (repoolRefresh r) = p r) : q.jobs.any p = s.jobs.any p := by
  rw [h.jobs, List.any_map]
  congr 1
  funext r
  simp only [Function.comp]
  split
  · exact hp r
  · rfl

theorem filter_length_eq (h : s.Scanned q now seen) {p : WorkJob → Bool}
    (hp : ∀ r, p (repoolRefresh r) = p r) : (q.jobs.filter p).length = (s.jobs.filter p).length := by
  rw [h.jobs, ← List.countP_eq_length_filter, ← List.countP_eq_length_filter, List.countP_map]
  congr 1
  funext r
  simp only [Function.comp]
  split
  · exact hp r
  · rfl

theorem seriesFree_eq (h : s.Scanned q now seen) : q.seriesFree j now = s.seriesFree j now := by
  unfold seriesFree
  rw [h.any_eq fun r => rfl]

theorem claimable_eq (h : s.Scanned q now seen) : claimable env q now j = claimable env s now j := by
  unfold claimable
  rw [h.seriesFree_eq]

theorem claimKey_eq (h : s.Scanned q now seen) : q.claimKey now = s.claimKey now := by
  funext j
  unfold claimKey fairnessLoad groupLoad
  rw [h.filter_length_eq fun r => rfl]

theorem permitsFree_eq (h : s.Scanned q now seen) :
    permitsFree env a q now j = permitsFree env a s now j := by
  unfold permitsFree
  rw [h.any_eq fun r => rfl]
  simp only [h.count]

theorem repairSeriesTaken_eq (h : s.Scanned q now seen) :
    q.repairSeriesTaken j = s.repairSeriesTaken j := by
  unfold repairSeriesTaken
  rw [h.any_eq fun r => rfl]

theorem saturatedDirectPools_eq (h : s.Scanned q now seen) (l : PoolLimits) :
    saturatedDirectPools l q now = saturatedDirectPools l s now := by
  simp only [saturatedDirectPools, h.count]

theorem saturatedProviderSources_eq (h : s.Scanned q now seen) :
    saturatedProviderSources env a q now = saturatedProviderSources env a s now := by
  simp only [saturatedProviderSources, h.count]

theorem permitPoolFull_eq (h : s.Scanned q now seen) (l : PoolLimits) (pool : String) :
    permitPoolFull l q now pool = permitPoolFull l s now pool := by
  simp only [permitPoolFull, h.count]

theorem keyed (h : s.Scanned q now seen) (hk : Table.Keyed WorkJob.id s.jobs) :
    Table.Keyed WorkJob.id q.jobs := by
  unfold Table.Keyed
  rw [h.jobs, List.map_map]
  refine (List.map_congr_left fun j _ => ?_) ▸ hk
  simp only [Function.comp]
  split <;> rfl

/-- Where a row is after the loop looked at the jobs `seen`. -/
theorem mem (h : s.Scanned q now seen) (hj : j ∈ s.jobs) :
    (if j ∈ seen then repoolRefresh j else j) ∈ q.jobs := by
  rw [h.jobs]
  exact List.mem_map_of_mem hj

/-- Looking at one more job. -/
theorem look (h : s.Scanned q now seen) (hk : Table.Keyed WorkJob.id s.jobs) (hl : s.Lockstep)
    (hj : k ∈ s.jobs) : s.Scanned (q.look now k) now (k :: seen) := by
  have hput : Table.put WorkJob.id q.jobs (repoolRefresh k) =
      s.jobs.map fun j => if j ∈ k :: seen then repoolRefresh j else j := by
    rw [h.jobs]
    exact Table.put_map hk (fun _ => rfl) hj
  unfold Queue.look
  split
  · rename_i he
    refine ⟨hput, fun pool => ?_, fun p hp => h.held p (List.mem_of_mem_filter hp)⟩
    rw [← h.count pool]
    -- only permits of the expired lease go
    refine Semaphore.inUse_filter_eq _ fun p hp hkeep => ?_
    have hid : p.jobId = k.id := by simpa using hkeep
    exact (hl.holder hk (h.held p hp) hj hid).expired he
  · exact ⟨hput, h.count, h.held⟩

end Queue.Scanned

/-! ## The loop is a first fit -/

/-- The loop's variables after it refused the jobs `seen`. -/
structure Tracks (env : ClaimEnv) (a : ClaimArgs) (now : Time) (s : Queue) (seen : List WorkJob)
    (c : Queue.ClaimScan) : Prop where
  queue : s.Scanned c.queue now seen
  mem : ∀ k ∈ seen, k ∈ s.jobs
  rejected : c.rejected = seen.map WorkJob.id
  pools : c.saturatedPools = Queue.saturatedDirectPools a.limits s now
  sources : ∀ x, x ∈ c.saturatedSources ↔ x ∈ Queue.saturatedProviderSources env a s now ∨
    ∃ y ∈ seen, y.isNetworkJob = true ∧ y.source ≠ "" ∧ x = y.source
  network : c.networkFull = Queue.permitPoolFull a.limits s now "network_global"
  chapter : c.chapterFull = Queue.permitPoolFull a.limits s now "chapter_global"

theorem Tracks.start : Tracks env a now s [] (Queue.scanOf env a now s [] []) :=
  ⟨.refl, by simp, rfl, rfl, by simp [Queue.scanOf], rfl, rfl⟩

/-- A query after some refusals admits what the first one did, less what is refused or hidden. -/
theorem Tracks.admitted {c : Queue.ClaimScan} (h : Tracks env a now s seen c)
    (hk : Table.Keyed WorkJob.id s.jobs) (hj : j ∈ s.jobs) :
    Queue.admitted (c.filter a) j =
      (Queue.admitted ((Queue.scanOf env a now s [] []).filter a) j &&
        (decide (j ∉ seen) && seen.all fun y => !Queue.hidesSource y j)) := by
  have hid : j.id ∈ c.rejected ↔ j ∈ seen := by
    rw [h.rejected, List.mem_map]
    constructor
    · rintro ⟨y, hy, he⟩
      rwa [hk.eq hj (h.mem y hy) he.symm]
    · exact fun hm => ⟨j, hm, rfl⟩
  have hhide : (seen.all fun y => !Queue.hidesSource y j) = true ↔
      ¬ ∃ y ∈ seen, y.isNetworkJob = true ∧ y.source ≠ "" ∧ j.source = y.source := by
    rw [List.all_eq_true]
    push Not
    refine forall₂_congr fun y _ => ?_
    cases hn : y.isNetworkJob <;> by_cases hs : y.source = "" <;> simp [Queue.hidesSource, hn, hs]
  rw [Bool.eq_iff_iff, Bool.and_eq_true, Bool.and_eq_true, hhide, Queue.admitted_iff,
    Queue.admitted_iff]
  simp only [Queue.ClaimScan.filter, Queue.scanOf, hid, h.pools, h.sources, h.network, h.chapter,
    List.nil_append, List.not_mem_nil, not_false_eq_true, not_or, decide_eq_true_eq]
  tauto

/-- The first row of a query is the first job left to look at. -/
theorem Tracks.claimQuery_eq {c : Queue.ClaimScan} (h : Tracks env a now s seen c)
    (hk : Table.Keyed WorkJob.id s.jobs) :
    Queue.claimQuery env c.queue now (c.filter a) =
      (left Queue.hidesSource (Queue.candidates env a s now) seen).argmin (s.claimKey now) := by
  unfold Queue.claimQuery
  rw [h.queue.claimKey_eq]
  congr 1
  unfold left Queue.candidates
  rw [h.queue.jobs, List.filter_map, List.filter_filter]
  have hpoint : ∀ j ∈ s.jobs, ((fun r => Queue.claimable env c.queue now r &&
      Queue.admitted (c.filter a) r) ∘ fun j => if j ∈ seen then Queue.repoolRefresh j else j) j =
      (Queue.claimable env s now j &&
        Queue.admitted ((Queue.scanOf env a now s [] []).filter a) j &&
        (decide (j ∉ seen) && seen.all fun y => !Queue.hidesSource y j)) := by
    intro j hj
    by_cases hs : j ∈ seen
    · have hrej : Queue.admitted (c.filter a) (Queue.repoolRefresh j) = false := by
        rw [Bool.eq_false_iff]
        intro hadm
        refine (Queue.admitted_iff.mp hadm).2.2.1 ?_
        rw [Queue.repoolRefresh_id, Queue.ClaimScan.filter, h.rejected]
        exact List.mem_map_of_mem hs
      simp [hs, hrej]
    · simp only [Function.comp, if_neg hs]
      rw [h.queue.claimable_eq, h.admitted hk hj, Bool.and_assoc]
  rw [List.filter_congr hpoint]
  -- the rows that are left are those of `s`
  conv_rhs => rw [← List.map_id (List.filter _ s.jobs)]
  rw [List.filter_congr fun j _ => Bool.and_comm _ _]
  refine List.map_congr_left fun j hj => if_neg ?_
  have hj := (List.mem_filter.mp hj).2
  simp only [Bool.and_eq_true, decide_eq_true_eq] at hj
  exact hj.1.1

theorem Queue.mem_candidates : j ∈ Queue.candidates env a s now ↔ j ∈ s.jobs ∧
    Queue.claimable env s now j = true ∧
      Queue.admitted ((Queue.scanOf env a now s [] []).filter a) j = true := by
  simp [Queue.candidates]

/-- The loop's variables after one more refusal. -/
theorem Tracks.refuse {c : Queue.ClaimScan} (h : Tracks env a now s seen c)
    (hk : Table.Keyed WorkJob.id s.jobs) (hl : s.Lockstep) (hj : k ∈ s.jobs) :
    Tracks env a now s (k :: seen) (Queue.scanOf env a now (c.queue.look now k) (k.id :: c.rejected)
      (if (Queue.repoolRefresh k).isNetworkJob = true ∧ k.source ≠ "" then
        k.source :: c.saturatedSources else c.saturatedSources)) := by
  have hq := h.queue.look hk hl hj
  refine ⟨hq, ?_, ?_, hq.saturatedDirectPools_eq _, fun x => ?_, hq.permitPoolFull_eq _ _,
    hq.permitPoolFull_eq _ _⟩
  · intro y hy
    rcases List.mem_cons.mp hy with rfl | hy
    · exact hj
    · exact h.mem y hy
  · rw [Queue.scanOf, h.rejected, List.map_cons]
  · have hold := h.sources x
    rw [Queue.scanOf, List.mem_append, hq.saturatedProviderSources_eq, isNetworkJob_repoolRefresh]
    simp only [List.mem_cons, exists_eq_or_imp]
    generalize (∃ y ∈ seen, y.isNetworkJob = true ∧ y.source ≠ "" ∧ x = y.source) = hidden at *
    by_cases hnet : k.isNetworkJob = true ∧ k.source ≠ ""
    · rw [if_pos hnet, List.mem_cons, hold]
      tauto
    · rw [if_neg hnet, hold]
      tauto

/-- The loop of `claim` is the first fit over the jobs of its first query. -/
theorem claimLoop_firstFit (hw : s.WellFormed) (hl : s.Lockstep) :
    ∀ {fuel : Nat} {seen : List WorkJob} {c : Queue.ClaimScan}, Tracks env a now s seen c →
      match firstFit (s.claimKey now) (Queue.fits env a s now) Queue.hidesSource
        (Queue.candidates env a s now) fuel seen with
      | none => ∃ q seen', s.Scanned q now seen' ∧ Queue.claimLoop env a now fuel c =
          .ok (if runsDry (s.claimKey now) (Queue.fits env a s now) Queue.hidesSource
              (Queue.candidates env a s now) fuel seen = true
            then (q.failExhaustedLeases now).1 else q, none)
      | some k => ∃ q seen', s.Scanned q now seen' ∧ k ∈ seen' ∧
          Queue.claimLoop env a now fuel c =
            .ok ({ q with permits := q.permits ++ Queue.newPermits a now (Queue.repoolRefresh k) },
              some (Queue.repoolRefresh k)) := by
  intro fuel
  induction fuel with
  | zero => intro seen c h; exact ⟨c.queue, seen, h.queue, rfl⟩
  | succ fuel ih =>
    intro seen c h
    unfold firstFit Queue.claimLoop runsDry
    rw [h.claimQuery_eq hw.jobs]
    cases hx : (left Queue.hidesSource (Queue.candidates env a s now) seen).argmin
        (s.claimKey now) with
    | none => exact ⟨c.queue, seen, h.queue, rfl⟩
    | some k =>
      obtain ⟨hkc, hn, -⟩ := mem_left.mp (List.argmin_mem hx)
      obtain ⟨hk, hcl, -⟩ := Queue.mem_candidates.mp hkc
      obtain ⟨hr, hatt⟩ := Queue.claimable_ready hcl
      have hq := h.queue.look hw.jobs hl hk
      have hex : ¬ ((Queue.repoolRefresh k).expired now = true ∧
          (Queue.repoolRefresh k).maxAttempts ≤ (Queue.repoolRefresh k).attempts) :=
        fun he => absurd he.2 (Nat.not_le.mpr hatt)
      dsimp only
      rw [if_neg hex]
      have hlook : (if (Queue.repoolRefresh k).expired now = true then
          (c.queue.putJob (Queue.repoolRefresh k)).releasePermits (Queue.repoolRefresh k).id
          else c.queue.putJob (Queue.repoolRefresh k)) = c.queue.look now k := rfl
      rw [hlook, hq.permitsFree_eq]
      by_cases hf : Queue.fits env a s now k = true
      · rw [if_pos hf, if_pos (show Queue.permitsFree env a s now _ = true from hf)]
        have hno : ∀ p ∈ (c.queue.look now k).permits, p.jobId ≠ k.id := by
          intro p hp hid
          by_cases hexp : k.expired now = true
          · rw [Queue.look, if_pos hexp] at hp
            have hkeep := (List.mem_filter.mp hp).2
            simp [hid] at hkeep
          · have hready := hr.resolve_right hexp
            rw [WorkJob.ready, (hl.holder hw.jobs (hq.held p hp) hk hid).leased] at hready
            cases hready
        rw [if_neg]
        · exact ⟨_, _, hq, List.mem_cons_self, rfl⟩
        · rw [List.any_eq_true]
          rintro ⟨p, hp, he⟩
          simp only [Bool.and_eq_true, beq_iff_eq] at he
          exact hno p hp he.1
      · rw [if_neg hf, if_neg (show ¬ Queue.permitsFree env a s now _ = true from hf)]
        simp only [show Queue.fits env a s now k = false by simpa using hf, Bool.not_false,
          Bool.true_and]
        exact ih (h.refuse hw.jobs hl hk)

/-! ## What a claim returns -/

theorem Queue.scan_some (h : Queue.scan env a s now = some k) :
    k ∈ s.jobs ∧ Queue.claimable env s now k = true ∧ Queue.fits env a s now k = true := by
  obtain ⟨hk, hf, -⟩ := firstFit_some hidesSource_trans h
  obtain ⟨hk, hc, -⟩ := Queue.mem_candidates.mp hk
  exact ⟨hk, hc, hf⟩

theorem Queue.claimKey_inj (h : s.claimKey now j = s.claimKey now k) : j.id = k.id := by
  have hid : ∀ x y : Queue.ClaimKey, x = y →
      (ofLex (ofLex (ofLex (ofLex x).2).2).2).2 = (ofLex (ofLex (ofLex (ofLex y).2).2).2).2 :=
    fun x y e => by rw [e]
  exact hid _ _ h

theorem Queue.claimKey_nodup (hw : s.WellFormed) :
    ((Queue.candidates env a s now).map (s.claimKey now)).Nodup := by
  have hnd : (Queue.candidates env a s now).Nodup := (List.Nodup.of_map _ hw.jobs).filter _
  refine hnd.map_on fun x hx y hy e => ?_
  exact hw.jobs.eq (List.mem_of_mem_filter hx) (List.mem_of_mem_filter hy) (Queue.claimKey_inj e)

/-- The scan settles on the first fitting candidate no refused job hides. -/
theorem Queue.scan_iff (hw : s.WellFormed) : Queue.scan env a s now = some p ↔
    Selected (s.claimKey now) (Queue.fits env a s now) Queue.hidesSource
      (Queue.candidates env a s now) p ∧
    (looksBefore (s.claimKey now) Queue.hidesSource (Queue.candidates env a s now) p).length < 50 :=
  firstFit_eq_some_iff (Queue.claimKey_nodup hw) hidesSource_trans

/-- The scan runs dry when it comes to fewer than fifty jobs, none of which fits. -/
theorem Queue.idle_iff (hw : s.WellFormed) : Queue.idle env a s now = true ↔
    (∀ x ∈ inView (s.claimKey now) Queue.hidesSource (Queue.candidates env a s now),
      Queue.fits env a s now x = false) ∧
    (inView (s.claimKey now) Queue.hidesSource (Queue.candidates env a s now)).length < 50 :=
  runsDry_iff (Queue.claimKey_nodup hw) hidesSource_trans

theorem claimLoop_scan (env : ClaimEnv) (a : ClaimArgs) (now : Time) (hw : s.WellFormed)
    (hl : s.Lockstep) :
    match Queue.scan env a s now with
    | none => ∃ q seen, s.Scanned q now seen ∧
        Queue.claimLoop env a now 50 (Queue.scanOf env a now s [] []) =
          .ok (if Queue.idle env a s now = true then (q.failExhaustedLeases now).1 else q, none)
    | some k => ∃ q seen, s.Scanned q now seen ∧ k ∈ seen ∧
        Queue.claimLoop env a now 50 (Queue.scanOf env a now s [] []) =
          .ok ({ q with permits := q.permits ++ Queue.newPermits a now (Queue.repoolRefresh k) },
            some (Queue.repoolRefresh k)) :=
  claimLoop_firstFit hw hl Tracks.start

/-- A claim whose scan settles on no job leases none; one whose scan runs dry ends the exhausted
leases. -/
theorem claim_of_none (hw : s.WellFormed) (hl : s.Lockstep) (ho : strip a.owner ≠ "")
    (hf : 0 < a.leaseFor) (h : Queue.scan env a s now = none) :
    ∃ q seen, s.Scanned q now seen ∧ Queue.claim env a s now =
      .ok (if Queue.idle env a s now = true then (q.failExhaustedLeases now).1 else q, none) := by
  have hloop := claimLoop_scan env a now hw hl
  rw [h] at hloop
  obtain ⟨q, seen, hs, hq⟩ := hloop
  refine ⟨q, seen, hs, ?_⟩
  rw [Queue.claim, if_neg ho, if_neg (not_le.mpr hf), hq]

/-- The scanned job is leased, unless another repair of its series is. -/
theorem claim_of_some (hw : s.WellFormed) (hl : s.Lockstep) (ho : strip a.owner ≠ "")
    (hf : 0 < a.leaseFor) (h : Queue.scan env a s now = some k) :
    (s.repairSeriesTaken k = true →
      Queue.claim env a s now = .error (.integrity "uq_job_leased_library_repair_series")) ∧
    (s.repairSeriesTaken k = false → ∃ q seen e l, s.Scanned q now seen ∧ k ∈ seen ∧
      l.id = k.id ∧ Queue.claim env a s now =
        .ok ({ q.granted a (Queue.repoolRefresh k) now with events := e }, some l)) := by
  have hloop := claimLoop_scan env a now hw hl
  rw [h] at hloop
  obtain ⟨q, seen, hq, hk, hc⟩ := hloop
  have htaken : ∀ p, Queue.repairSeriesTaken { q with permits := p } (Queue.repoolRefresh k) =
      s.repairSeriesTaken k := fun _ => hq.repairSeriesTaken_eq
  have hpayload : parseJobPayload k.kind k.payload = some k.payload := by
    obtain ⟨hkind, hval⟩ := (hw.rows k (Queue.scan_some h).1).payload
    exact parseJobPayload_eq_some.mpr ⟨rfl, hkind, hval⟩
  rw [Queue.claim, if_neg ho, if_neg (not_le.mpr hf), hc]
  dsimp only
  rw [Queue.leaseChosen, htaken]
  constructor
  · intro ht
    rw [if_pos ht]
  · intro ht
    rw [if_neg (by simp [ht])]
    dsimp only [WorkJob.lease, Queue.repoolRefresh]
    rw [hpayload]
    exact ⟨q, seen, _, _, hq, hk, rfl, rfl⟩

end

end MangaManager
