import MangaManager.Queue.Scan

/-!
# The unique indexes under claims

`uq_job_leased_library_repair_series` allows one leased repair per series. A row
keeps the status `leased` after its lease expired, while every check of `claim`
asks for unexpired leases, so a claim may settle on a repair whose series still
has an expired one: the flush then fails. `claim_returns_iff` says that this is
the only way a claim fails, and that committed tables satisfy both indexes.
-/

namespace MangaManager

open Lib FirstFit

namespace Queue

/-- `uq_job_active_dedupe` and `uq_job_leased_library_repair_series`. -/
structure UniqueRows (s : Queue) : Prop where
  active : ∀ j ∈ s.jobs, ∀ k ∈ s.jobs, j.status.isActive = true → k.status.isActive = true →
    j.kind = k.kind → j.dedupeKey = k.dedupeKey → j.id = k.id
  repair : ∀ j ∈ s.jobs, ∀ k ∈ s.jobs, j.status = .leased → k.status = .leased →
    j.kind = .libraryRepair → k.kind = .libraryRepair → j.seriesKey ≠ "" →
    j.seriesKey = k.seriesKey → j.id = k.id

/-- A claim comes to `p`: its permits are free, it is among the jobs of the first query, no
earlier one hides it or fits, and fewer than fifty are looked at before it. -/
structure ComesTo (env : ClaimEnv) (a : ClaimArgs) (s : Queue) (now : Time) (p : WorkJob) :
    Prop where
  selected : Selected (s.claimKey now) (fits env a s now) hidesSource (candidates env a s now) p
  looks : (looksBefore (s.claimKey now) hidesSource (candidates env a s now) p).length < 50

end Queue

section
variable {now : Time} {op : Op} {s s' : Queue} {j j' : WorkJob}

/-- Writing a row that is leased only when the old one was keeps the repairs unique. -/
theorem Queue.UniqueRows.put (h : s.UniqueRows) (hw' : s'.WellFormed) (hj : j ∈ s.jobs)
    (hs : SameJob j j') (hl : j'.status = .leased → j.status = .leased)
    (hjobs : s'.jobs = Table.put WorkJob.id s.jobs j') : s'.UniqueRows := by
  have hback : ∀ r ∈ s'.jobs, ∃ r₀ ∈ s.jobs, SameJob r₀ r ∧
      (r.status = .leased → r₀.status = .leased) := by
    rw [hjobs]
    intro r hr
    rcases Table.mem_put.mp hr with ⟨rfl, -⟩ | ⟨hr, -⟩
    · exact ⟨j, hj, hs, hl⟩
    · exact ⟨r, hr, ⟨rfl, rfl, rfl, rfl, rfl, rfl⟩, id⟩
  refine ⟨hw'.oneActive, fun x hx y hy hxl hyl hxk hyk hne he => ?_⟩
  obtain ⟨x₀, hx₀, hxs, hxl₀⟩ := hback x hx
  obtain ⟨y₀, hy₀, hys, hyl₀⟩ := hback y hy
  rw [hxs.id, hys.id]
  exact h.repair x₀ hx₀ y₀ hy₀ (hxl₀ hxl) (hyl₀ hyl) (hxs.kind ▸ hxk) (hys.kind ▸ hyk)
    (hxs.seriesKey ▸ hne) (by rw [← hxs.seriesKey, ← hys.seriesKey, he])

theorem Transition.uniqueRows (h : Transition now op s s') (hw : s.WellFormed)
    (hu : s.UniqueRows) : s'.UniqueRows := by
  have hw' := h.wellFormed hw
  cases h with
  | insert _ _ =>
    refine ⟨hw'.oneActive, ?_⟩
    simp only [Queue.enqueueNew_jobs, List.mem_append, List.mem_singleton]
    rintro x (hx | rfl) y (hy | rfl) hxl hyl
    · exact hu.repair x hx y hy hxl hyl
    · cases hyl
    · cases hxl
    · cases hxl
  | edit hj he => exact hu.put hw' hj (RowStep.edit he).sameJob he.edited.leased.mp rfl
  | unlease hj hul =>
    exact hu.put hw' hj (RowStep.unlease hul).sameJob (fun h => absurd h hul.not_leased) rfl
  | terminate hj ht =>
    exact hu.put hw' hj (RowStep.terminate ht).sameJob (fun h => absurd h ht.ended.not_leased) rfl
  | renew hj hl ho hp => exact hu.put hw' hj (RowStep.renew rfl hl ho hp).sameJob (fun _ => hl.1) rfl
  | @grant env a _ j _ hj hr ha _ _ hrep ho hl =>
    -- no other leased repair of the granted job's series
    have hfree : ∀ k ∈ s.jobs, k.id ≠ j.id → j.kind = .libraryRepair → j.seriesKey ≠ "" →
        k.kind = .libraryRepair → k.status = .leased → k.seriesKey ≠ j.seriesKey := by
      intro k hk hne hjk hjs hkk hkl he
      have hno : s.repairSeriesTaken j = true := by
        simp only [Queue.repairSeriesTaken, Bool.and_eq_true, List.any_eq_true]
        exact ⟨by simp [hjk, hjs], k, hk, by simp [hne, hkk, hkl, he]⟩
      rw [hrep] at hno
      cases hno
    refine ⟨hw'.oneActive, fun x hx y hy hxl hyl hxk hyk hne he => ?_⟩
    rcases Table.mem_put.mp hx with ⟨rfl, -⟩ | ⟨hx, hxj⟩ <;>
      rcases Table.mem_put.mp hy with ⟨rfl, -⟩ | ⟨hy, hyj⟩
    · rfl
    · exact absurd he.symm (hfree y hy hyj hxk hne hyk hyl)
    · exact absurd he (hfree x hx hxj hyk (he ▸ hne) hxk hxl)
    · exact hu.repair x hx y hy hxl hyl hxk hyk hne he
  | dropPermits _ _ => exact ⟨hw'.oneActive, hu.repair⟩
  | cleanup => exact ⟨hw'.oneActive, hu.repair⟩

end

/-! ## Runs -/

section
variable {t₀ : Time} {tr : List (Clocked × (Op × Time))} {c : Clocked}

theorem QueueRun.uniqueRows (h : QueueRun t₀ tr c) : c.queue.UniqueRows :=
  QueueRun.inv (I := fun _ => Queue.UniqueRows) (C := fun _ => True) h (fun _ _ => trivial)
    ⟨by simp, by simp⟩ (fun _ _ _ _ h => h) fun _ _ _ _ _ hw hu ht => ht.uniqueRows hw hu

/-- From a reachable queue a claim returns, with both indexes kept, exactly when the job it
comes to has no other leased repair of its series. -/
theorem claim_returns_iff (h : QueueRun t₀ tr c) (env : ClaimEnv) (a : ClaimArgs) (now : Time)
    (ho : strip a.owner ≠ "") (hf : 0 < a.leaseFor) :
    (∃ q l, Queue.claim env a c.queue now = .ok (q, l) ∧ q.UniqueRows) ↔
      ∀ p, Queue.ComesTo env a c.queue now p → c.queue.repairSeriesTaken p = false := by
  have hw := QueueRun.wellFormed h
  have hl := QueueRun.lockstep h
  have hcomes : ∀ p, Queue.ComesTo env a c.queue now p ↔ Queue.scan env a c.queue now = some p :=
    fun p => ⟨fun hp => (Queue.scan_iff hw).mpr ⟨hp.selected, hp.looks⟩, fun hs =>
      ⟨((Queue.scan_iff hw).mp hs).1, ((Queue.scan_iff hw).mp hs).2⟩⟩
  have hunique : ∀ q l, Queue.claim env a c.queue now = .ok (q, l) → q.UniqueRows := by
    intro q l hc
    have hinv := Op.apply_inv (P := fun s => s.WellFormed ∧ s.UniqueRows) (.claim env a) now hw.jobs
      (fun s s' hs ht => ⟨ht.wellFormed hs.1, ht.uniqueRows hs.1 hs.2⟩)
      ⟨hw, QueueRun.uniqueRows h⟩
    simp only [Op.apply, hc, committed] at hinv
    exact hinv.2
  simp only [hcomes]
  constructor
  · rintro ⟨q, l, hc, -⟩ p hp
    cases hr : c.queue.repairSeriesTaken p with
    | false => rfl
    | true =>
      rw [(claim_of_some hw hl ho hf hp).1 hr] at hc
      cases hc
  · intro hp
    cases hs : Queue.scan env a c.queue now with
    | none =>
      obtain ⟨q, -, -, hq⟩ := claim_of_none hw hl ho hf hs
      exact ⟨_, none, hq, hunique _ _ hq⟩
    | some k =>
      obtain ⟨q, seen, e, l, -, -, -, hq⟩ := (claim_of_some hw hl ho hf hs).2 (hp k hs)
      exact ⟨_, _, hq, hunique _ _ hq⟩

/-- Two repairs of one series; the lease of the first one, its only attempt, runs out. -/
def repairCalls : List (Op × Time) :=
  let repair (key : String) : Op := .enqueue
    { kind := .libraryRepair, dedupeKey := key, payload := .libraryRepair { seriesId := 1 }
      seriesKey := "1", maxAttempts := 1 }
  [(repair "a", 0), (.claim {} { owner := "v", leaseFor := 5 }, 1), (repair "b", 2)]

/-- The claim of the second repair raises `IntegrityError`. -/
theorem repairCalls_integrity : ∃ tr c, QueueRun 0 tr c ∧ tr.map Prod.snd = repairCalls ∧
    ∃ constraint, Queue.claim {} { owner := "w", leaseFor := 5 } c.queue 7 =
      .error (.integrity constraint) :=
  ⟨_, _, QueueRun.replay 0 repairCalls (by decide +kernel), rfl,
    "uq_job_leased_library_repair_series", by decide +kernel⟩

/-- The claim of the first one returns. -/
theorem claim_returns_iff_first : ∃ tr c, QueueRun 0 tr c ∧ tr.map Prod.snd = repairCalls.take 1 ∧
    ∃ q l, Queue.claim {} { owner := "v", leaseFor := 5 } c.queue 1 = .ok (q, l) ∧
      q.UniqueRows := by
  have hrun := QueueRun.replay 0 (repairCalls.take 1) (by decide +kernel)
  have hnone : ∀ p ∈ (replay 0 (repairCalls.take 1)).queue.jobs,
      (replay 0 (repairCalls.take 1)).queue.repairSeriesTaken p = false := by decide +kernel
  refine ⟨_, _, hrun, rfl, (claim_returns_iff hrun {} _ 1 (by decide) (by decide)).mpr ?_⟩
  intro p hp
  exact hnone p (List.mem_of_mem_filter hp.selected.mem)

end

end MangaManager
