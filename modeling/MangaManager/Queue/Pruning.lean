import MangaManager.Queue.Scan

/-!
# The pruned claim and the plain scan

`Queue.plainClaim` is what a claim is for: the first job, in the order of
`claim_query`, among those it selects with no exclusions and whose permits are
free. `claim` prunes that scan with its exclusions. The two global ones cost
nothing (`fits_network`, `fits_chapter`); a saturated pool or source may hide a
job whose own limit is higher, and a refused job hides its source from other
lanes. `claim_plain_iff` says exactly when the claim is the plain one.
-/

namespace MangaManager

open Lib FirstFit

namespace Queue

/-- The kinds and pools of a claim, and no exclusions. -/
def noExclusions (a : ClaimArgs) : ClaimFilter where
  kinds := a.kinds
  pools := a.pools

/-- The jobs `claim_query` selects with no exclusions. -/
def eligible (env : ClaimEnv) (a : ClaimArgs) (s : Queue) (now : Time) : List WorkJob :=
  s.jobs.filter fun j => claimable env s now j && admitted (noExclusions a) j

/-- The first eligible job whose permits are free. -/
def plainClaim (env : ClaimEnv) (a : ClaimArgs) (s : Queue) (now : Time) : Option WorkJob :=
  firstOf (s.claimKey now) (fits env a s now) (eligible env a s now)

/-- `claim` leases the job of the plain scan, and nothing when there is none. -/
def ClaimsPlain (env : ClaimEnv) (a : ClaimArgs) (s : Queue) (now : Time) : Prop :=
  (claim env a s now).toOption.map (fun r => r.2.map JobLease.id) =
    some ((plainClaim env a s now).map WorkJob.id)

instance (env : ClaimEnv) (a : ClaimArgs) (s : Queue) (now : Time) :
    Decidable (ClaimsPlain env a s now) := inferInstanceAs (Decidable (_ = _))

/-- No exclusion of `claim` hides `p`, fewer than fifty jobs are looked at before it, and its
series has no other leased repair. -/
structure Unhidden (env : ClaimEnv) (a : ClaimArgs) (s : Queue) (now : Time) (p : WorkJob) :
    Prop where
  pool : p.pool ∉ saturatedDirectPools a.limits s now
  source : p.source ∉ saturatedProviderSources env a s now
  visible : Visible (s.claimKey now) hidesSource (candidates env a s now) p
  looks : (looksBefore (s.claimKey now) hidesSource (candidates env a s now) p).length < 50
  series : s.repairSeriesTaken p = false

instance (env : ClaimEnv) (a : ClaimArgs) (s : Queue) (now : Time) (p : WorkJob) :
    Decidable (Unhidden env a s now p) :=
  decidable_of_iff (_ ∧ _ ∧ _ ∧ _ ∧ _)
    ⟨fun ⟨h1, h2, h3, h4, h5⟩ => ⟨h1, h2, h3, h4, h5⟩,
      fun ⟨h1, h2, h3, h4, h5⟩ => ⟨h1, h2, h3, h4, h5⟩⟩

end Queue

section
variable {env : ClaimEnv} {a : ClaimArgs} {s : Queue} {now : Time} {j k p : WorkJob}

/-! ## The full global pools hide nothing -/

/-- A pool at its fixed limit refuses every job that uses it. -/
theorem permitPoolFull_not_free (env : ClaimEnv) {pool : String} (hp : pool ∈ j.permitPools)
    (ha : Queue.isAdaptivePool pool = false)
    (h : Queue.permitPoolFull a.limits s now pool = true) :
    Queue.permitsFree env a s now j = false := by
  rw [Bool.eq_false_iff]
  intro hf
  unfold Queue.permitPoolFull at h
  obtain ⟨limit, hg, hle⟩ := (Option.any_eq_true _ _).mp h
  have hlim : Queue.poolLimit env a j now pool = some limit := by
    rw [Queue.poolLimit, if_neg (by simp [ha]), hg]
  have hlt := (Queue.permitsFree_iff.mp hf).2 pool hp limit hlim
  exact absurd hlt (not_lt.mpr (of_decide_eq_true hle))

theorem WorkJob.mem_permitPools_network (h : j.isNetworkJob = true) :
    "network_global" ∈ j.permitPools := by
  unfold WorkJob.permitPools
  simp [h]

theorem WorkJob.mem_permitPools_chapter (h : j.kind = .chapterDownload) :
    "chapter_global" ∈ j.permitPools := by
  unfold WorkJob.permitPools
  simp [h]

theorem fits_network (hf : Queue.fits env a s now j = true)
    (h : Queue.permitPoolFull a.limits s now "network_global" = true) : j.isNetworkJob = false := by
  rw [Bool.eq_false_iff]
  intro hn
  have hm := WorkJob.mem_permitPools_network (isNetworkJob_repoolRefresh.trans hn)
  have hno := permitPoolFull_not_free env hm (by decide) h
  rw [Queue.fits, hno] at hf
  cases hf

theorem fits_chapter (hf : Queue.fits env a s now j = true)
    (h : Queue.permitPoolFull a.limits s now "chapter_global" = true) :
    j.kind ≠ .chapterDownload := by
  intro hk
  have hm := WorkJob.mem_permitPools_chapter (j := Queue.repoolRefresh j) hk
  have hno := permitPoolFull_not_free env hm (by decide) h
  rw [Queue.fits, hno] at hf
  cases hf

/-! ## The first query and the eligible jobs -/

theorem Queue.mem_eligible : j ∈ Queue.eligible env a s now ↔ j ∈ s.jobs ∧
    Queue.claimable env s now j = true ∧ Queue.admitted (Queue.noExclusions a) j = true := by
  simp [Queue.eligible]

/-- The first query selects the eligible jobs its exclusions leave. -/
theorem Queue.mem_candidates_iff : j ∈ Queue.candidates env a s now ↔
    j ∈ Queue.eligible env a s now ∧ j.pool ∉ Queue.saturatedDirectPools a.limits s now ∧
      j.source ∉ Queue.saturatedProviderSources env a s now ∧
      (Queue.permitPoolFull a.limits s now "network_global" = true → j.isNetworkJob = false) ∧
      (Queue.permitPoolFull a.limits s now "chapter_global" = true →
        j.kind ≠ .chapterDownload) := by
  rw [Queue.mem_candidates, Queue.mem_eligible, Queue.admitted_iff, Queue.admitted_iff]
  simp only [Queue.ClaimScan.filter, Queue.scanOf, Queue.noExclusions, List.nil_append,
    List.not_mem_nil, not_false_eq_true]
  tauto

/-- The scan settles on the job of the plain scan exactly when no exclusion hides it. -/
theorem Queue.scan_plain_iff (hw : s.WellFormed) (hp : Queue.plainClaim env a s now = some p) :
    Queue.scan env a s now = some p ∧ s.repairSeriesTaken p = false ↔
      Queue.Unhidden env a s now p := by
  obtain ⟨hel, hf, hmin⟩ := firstOf_some hp
  rw [Queue.scan_iff hw]
  constructor
  · rintro ⟨⟨hsel, hlooks⟩, hrep⟩
    obtain ⟨-, hpool, hsource, -⟩ := Queue.mem_candidates_iff.mp hsel.mem
    exact ⟨hpool, hsource, hsel.visible, hlooks, hrep⟩
  · intro h
    have hm : p ∈ Queue.candidates env a s now :=
      Queue.mem_candidates_iff.mpr ⟨hel, h.pool, h.source, fits_network hf, fits_chapter hf⟩
    refine ⟨⟨⟨hm, hf, h.visible, fun x hx _ hlt => ?_⟩, h.looks⟩, h.series⟩
    cases hfx : Queue.fits env a s now x with
    | false => rfl
    | true => exact absurd hlt (not_lt.mpr (hmin x (Queue.mem_candidates_iff.mp hx).1 hfx))

/-- A claim leases the job the plain scan finds, or none when it finds none, exactly when no
exclusion hides that job. -/
theorem claim_plain_iff (hw : s.WellFormed) (hl : s.Lockstep) (ho : strip a.owner ≠ "")
    (hf : 0 < a.leaseFor) : Queue.ClaimsPlain env a s now ↔
      ∀ p, Queue.plainClaim env a s now = some p → Queue.Unhidden env a s now p := by
  unfold Queue.ClaimsPlain
  cases hplain : Queue.plainClaim env a s now with
  | none =>
    have hscan : Queue.scan env a s now = none := by
      cases hs : Queue.scan env a s now with
      | none => rfl
      | some k =>
        obtain ⟨hsel, -⟩ := (Queue.scan_iff hw).mp hs
        have hnil := List.argmin_eq_none.mp hplain
        have hno := List.filter_eq_nil_iff.mp hnil k (Queue.mem_candidates_iff.mp hsel.mem).1
        exact absurd hsel.fitting hno
    obtain ⟨q, -, -, hq⟩ := claim_of_none hw hl ho hf hscan
    rw [hq]
    exact iff_of_true rfl (by simp)
  | some p =>
    have hiff := Queue.scan_plain_iff hw hplain
    constructor
    · intro hc p' hp'
      obtain rfl : p = p' := Option.some.inj hp'
      refine hiff.mp ?_
      cases hs : Queue.scan env a s now with
      | none =>
        obtain ⟨q, -, -, hq⟩ := claim_of_none hw hl ho hf hs
        rw [hq] at hc
        cases hc
      | some k =>
        obtain ⟨htaken, hfree⟩ := claim_of_some hw hl ho hf hs
        cases hr : s.repairSeriesTaken k with
        | true =>
          rw [htaken hr] at hc
          cases hc
        | false =>
          obtain ⟨q, seen, e, l, -, -, hk, hq⟩ := hfree hr
          rw [hq] at hc
          have hid : l.id = p.id := Option.some.inj (Option.some.inj hc)
          have hmem := (Queue.mem_eligible.mp (firstOf_some hplain).1).1
          obtain rfl := hw.jobs.eq (Queue.scan_some hs).1 hmem (hk.symm.trans hid)
          exact ⟨rfl, hr⟩
    · intro h
      obtain ⟨hs, hr⟩ := hiff.mpr (h p rfl)
      obtain ⟨q, seen, e, l, -, -, hk, hq⟩ := (claim_of_some hw hl ho hf hs).2 hr
      rw [hq]
      exact congrArg (fun i => some (some i)) hk

/-- The provider explores a tier above its limit of one. -/
def exploringEnv : ClaimEnv where
  policies := [{ source := "asura", explorationUntil := some 100, explorationTier := some 3 }]

def exploringArgs : ClaimArgs where
  owner := "w"
  leaseFor := 10
  limits := ⟨[("refresh:asura", 1)], by decide⟩

/-- Two refreshes of that provider, the first one leased. -/
def exploringCalls : List (Op × Time) :=
  let refresh (key : String) : Op := .enqueue
    { kind := .sourceRefresh, dedupeKey := key
      payload := .sourceRefresh { source := "asura", sourceId := "1", title := "t", url := "u" } }
  [(refresh "a", 0), (refresh "b", 0), (.claim exploringEnv exploringArgs, 1)]

/-- Its permits would be free, and still no claim leases the second refresh. -/
theorem exploringCalls_starved : ∃ tr c, QueueRun 0 tr c ∧ tr.map Prod.snd = exploringCalls ∧
    ¬ c.queue.ClaimsPlain exploringEnv exploringArgs 2 :=
  ⟨_, _, QueueRun.replay 0 exploringCalls (by decide +kernel), rfl, by decide +kernel⟩

/-- The first refresh is claimed as planned. -/
theorem claim_plain_iff_first : ∃ tr c, QueueRun 0 tr c ∧ tr.map Prod.snd = exploringCalls.take 1 ∧
    c.queue.ClaimsPlain exploringEnv exploringArgs 2 := by
  have hrun := QueueRun.replay 0 (exploringCalls.take 1) (by decide +kernel)
  refine ⟨_, _, hrun, rfl, ?_⟩
  refine (claim_plain_iff (QueueRun.wellFormed hrun) (QueueRun.lockstep hrun) (by decide)
    (by decide)).mpr fun p hp => ?_
  have hall : (Queue.plainClaim exploringEnv exploringArgs
      (replay 0 (exploringCalls.take 1)).queue 2).all fun p => Queue.Unhidden exploringEnv
        exploringArgs (replay 0 (exploringCalls.take 1)).queue 2 p := by decide +kernel
  exact of_decide_eq_true ((Option.all_eq_true _ _).mp hall p hp)

end

end MangaManager
