import MangaManager.Worker.Runtime

/-!
# Heartbeats in time

A lease lasts `lease_for` from its last heartbeat, and `WorkerSettings` refuses a heartbeat interval
that is not shorter. `timely_workers`: in a run in which no step comes after the lease of a running
worker ran out, and nobody cancels its job, every running worker holds its job, and no two run the
same one.
-/

namespace MangaManager

open Lib

/-- No step comes after a running lease ran out; a call is no cancel of a job that is running, and
of the handlers' calls it reports progress at most. -/
def Timely (p : Fleet) (l : WorkerCall × Time) : Prop :=
  (∀ o r, p.running o = some r → l.2 < r.beatAt + r.worker.settings.leaseFor) ∧
  ∀ op, l.1 = .call op → ∀ o r, p.running o = some r →
    (∀ reason, op ≠ .cancel r.lease.id reason) ∧
    (op.actor = some (o, r.lease.id) → ∃ message d, op = .progress r.lease.id o message d)

/-- The job is leased to the worker until `lease_for` after the last heartbeat. -/
def Running.Held (r : Running) (q : Queue) : Prop :=
  ∃ j ∈ q.jobs, j.LeasedAt r.lease.id r.lease.owner r.lease.attempt ∧
    j.leaseExpiresAt = some (r.beatAt + r.worker.settings.leaseFor)

structure Fleet.Kept (p : Fleet) : Prop where
  fenced : p.Fenced
  kept : ∀ o r, p.running o = some r → r.lost = false ∧ r.Held p.queue

section
variable {p p' : Fleet} {r r' : Running} {q q' : Queue} {now delay : Time} {o o' o₁ : String}
  {op : Op}

theorem Running.Held.live (h : r.Held q) (hlt : now < r.beatAt + r.worker.settings.leaseFor) :
    ∃ j ∈ q.jobs, j.LeasedAt r.lease.id r.lease.owner r.lease.attempt ∧ j.Live now ∧
      j.leaseExpiresAt = some (r.beatAt + r.worker.settings.leaseFor) := by
  obtain ⟨j, hj, hat, he⟩ := h
  exact ⟨j, hj, hat, ⟨hat.status, _, he, hlt⟩, he⟩

/-- A row with the same lease holds it too; the attempt is the one that the worker knows. -/
theorem Running.Held.of_same {j j' : WorkJob} {clock : Time} (h : r.Fences q' clock)
    (hat : j.LeasedAt r.lease.id r.lease.owner r.lease.attempt)
    (he : j.leaseExpiresAt = some (r.beatAt + r.worker.settings.leaseFor)) (hj' : j' ∈ q'.jobs)
    (hs : SameLease j j') : r.Held q' :=
  ⟨j', hj', h.leasedAt hj' (hs.id.trans hat.id) (hs.status.trans hat.status)
    (hs.owner.trans hat.owner), hs.expiry.trans he⟩

/-- A report of progress leaves the leases as they are. -/
theorem progress_keeps_lease {jobId : Nat} {owner message : String} {d : ProgressDetails}
    {j : WorkJob} (hkeyed : Table.Keyed WorkJob.id q.jobs) (hj : j ∈ q.jobs) :
    ∃ j' ∈ ((Op.progress jobId owner message d).apply q now).jobs, SameLease j j' := by
  simp only [Op.apply, Queue.progress]
  split
  · exact ⟨j, hj, rfl, rfl, rfl, rfl⟩
  · rename_i k hk
    obtain ⟨hget, -, -⟩ := Queue.selectHeld_some hk
    obtain ⟨hm, rfl⟩ := Queue.job?_some hget
    have hput : ∃ j' ∈ (q.putJob (k.report message d now)).jobs, SameLease j j' := by
      by_cases he : j.id = k.id
      · obtain rfl := hkeyed.eq hj hm he
        exact ⟨_, Table.mem_put_self hj rfl, rfl, rfl, rfl, rfl⟩
      · exact ⟨j, Table.mem_put_of_ne hj he, rfl, rfl, rfl, rfl⟩
    split <;> exact hput

/-- A call that is not about the job of `r` keeps it held; nor does a report of progress. -/
theorem Running.Held.apply (h : r.Held q) (hw : q.WellFormed)
    (hlt : now < r.beatAt + r.worker.settings.leaseFor)
    (hfences : r.Fences (op.apply q now) now)
    (hcancel : ∀ reason, op ≠ .cancel r.lease.id reason)
    (hactor : op.actor = some (r.lease.owner, r.lease.id) →
      ∃ message d, op = .progress r.lease.id r.lease.owner message d) :
    r.Held (op.apply q now) := by
  obtain ⟨j, hj, hat, hlive, he⟩ := h.live hlt
  by_cases ha : op.actor = some (r.lease.owner, r.lease.id)
  · obtain ⟨message, d, rfl⟩ := hactor ha
    obtain ⟨j', hj', hs⟩ :
        ∃ j' ∈ ((Op.progress r.lease.id r.lease.owner message d).apply q now).jobs,
        SameLease j j' := progress_keeps_lease hw.jobs hj
    exact .of_same hfences hat he hj' hs
  · obtain ⟨j', hj', hs⟩ := Op.keeps_lease hw hj hlive (by rwa [hat.owner, hat.id])
      (by rwa [hat.id])
    exact .of_same hfences hat he hj' hs

/-- Two workers do not run the same job. -/
theorem Fleet.Kept.alone (h : p.Kept) (hr : p.running o = some r) (hr' : p.running o' = some r')
    (hid : r.lease.id = r'.lease.id) : o = o' := by
  obtain ⟨-, j, hj, hat, -⟩ := h.kept o r hr
  obtain ⟨-, k, hk, hat', -⟩ := h.kept o' r' hr'
  obtain rfl := h.fenced.queue.jobs.eq hj hk (hat.id.trans (hid.trans hat'.id.symm))
  rw [← (h.fenced.names o r hr).2, ← (h.fenced.names o' r' hr').2, ← hat.owner, ← hat'.owner]

/-- A call about the job of another worker leaves the jobs of the rest alone. -/
theorem Fleet.Kept.others (h : p.Kept) (hfenced : Fleet.Fenced { p with
      queue := op.apply p.queue now, clock := now })
    (htime : ∀ o r, p.running o = some r → now < r.beatAt + r.worker.settings.leaseFor)
    (hr : p.running o = some r) (hactor : op.actor = some (o', r.lease.id))
    (hr' : p.running o₁ = some r') (hne : o₁ ≠ o) :
    r'.lost = false ∧ r'.Held (op.apply p.queue now) := by
  obtain ⟨hlost, hheld⟩ := h.kept o₁ r' hr'
  refine ⟨hlost, hheld.apply h.fenced.queue (htime o₁ r' hr') (hfenced.fences o₁ r' hr') ?_ ?_⟩
  · rintro reason rfl
    cases hactor
  · intro ha
    rw [hactor] at ha
    have hid := (Prod.mk.inj (Option.some.inj ha)).2
    exact absurd (h.alone hr hr' hid).symm hne

theorem Fleet.Kept.claim (h : p.Kept) {w : JobWorker} {env : ClaimEnv}
    (hidle : p.running w.owner = none) (hle : p.clock ≤ now)
    (htime : ∀ o r, p.running o = some r → now < r.beatAt + r.worker.settings.leaseFor) :
    (p.claim w env now).Kept := by
  have hfenced : (p.claim w env now).Fenced := h.fenced.claim hidle hle
  refine ⟨hfenced, ?_⟩
  -- the claim leaves the jobs of the workers that are running alone
  have hothers : ∀ o r, p.running o = some r →
      r.Fences ((Op.claim env w.claimArgs).apply p.queue now) now →
      r.lost = false ∧ r.Held ((Op.claim env w.claimArgs).apply p.queue now) := by
    intro o r hr hfences
    obtain ⟨hlost, hheld⟩ := h.kept o r hr
    exact ⟨hlost, hheld.apply h.fenced.queue (htime o r hr) hfences (fun _ h => by cases h)
      fun h => by cases h⟩
  have hfences := hfenced.fences
  simp only [Op.apply] at hothers
  unfold Fleet.claim at hfences ⊢
  split at hfences <;> rename_i hclaim <;> rw [hclaim] at hothers
  · rename_i q lease
    intro o r hr
    have hf := hfences o r hr
    dsimp only at hr
    rw [Function.update_apply] at hr
    split at hr
    · cases hr
      obtain ⟨s₁, j, -, hg⟩ := Queue.claim_ok h.fenced.queue.jobs hclaim
      refine ⟨rfl, j.lease (strip w.owner) w.settings.leaseFor now, ?_, ?_, rfl⟩
      · dsimp only
        rw [hg.tables]
        exact Table.mem_put_self hg.mem rfl
      · dsimp only
        rw [hg.lease]
        exact ⟨rfl, rfl, rfl, rfl⟩
    · exact hothers o r hr hf
  · exact fun o r hr => hothers o r hr (hfences o r hr)
  · exact fun o r hr => hothers o r hr (hfences o r hr)

theorem Fleet.Kept.beat (h : p.Kept) (hr : p.running o = some r) (hle : p.clock ≤ now)
    (htime : ∀ o r, p.running o = some r → now < r.beatAt + r.worker.settings.leaseFor) :
    Fleet.Kept ⟨(r.beat p.queue now).1,
      Function.update p.running o (some (r.beat p.queue now).2), now⟩ := by
  refine ⟨h.fenced.beat hr hle, fun o' r' hr' => ?_⟩
  dsimp only at hr'
  rw [Function.update_apply] at hr'
  split at hr'
  · cases hr'
    obtain ⟨hlost, hheld⟩ := h.kept o r hr
    obtain ⟨j, hj, hat, hlive, -⟩ := hheld.live (htime o r hr)
    have hsel := Queue.selectHeld_eq h.fenced.queue.jobs hj hlive
    rw [hat.id, hat.owner] at hsel
    rcases r.beat_cases p.queue now with ⟨k, hk, hbeat⟩ | ⟨hnone, -⟩
    · obtain rfl : j = k := Option.some.inj (hsel.symm.trans hk)
      rw [hbeat]
      exact ⟨hlost, j.renew r.worker.settings.leaseFor now, Table.mem_put_self hj rfl,
        ⟨hat.id, hat.status, hat.owner, hat.attempt⟩, rfl⟩
    · rw [hnone] at hsel
      cases hsel
  · rename_i hne
    have hop := r.beat_op p.queue now
    have hfenced : Fleet.Fenced { p with
        queue :=
          (Op.heartbeat r.lease.id r.lease.owner r.worker.settings.leaseFor).apply p.queue now
        clock := now } := h.fenced.apply hle fun _ _ h => (by cases h)
    dsimp only
    rw [hop]
    exact h.others hfenced htime hr rfl hr' hne

theorem Fleet.Kept.finish (h : p.Kept) (hr : p.running o = some r) (hle : p.clock ≤ now)
    (htime : ∀ o r, p.running o = some r → now < r.beatAt + r.worker.settings.leaseFor)
    (how : HandlerEnd) {r' : Running} (hr' : p.running o' = some r') (hne : o' ≠ o) :
    r'.lost = false ∧ r'.Held (r.finish p.queue now delay how).1 := by
  rcases r.finish_op p.queue now delay how with he | ⟨op, o₁, hactor, he⟩
  · rw [he]
    exact h.kept o' r' hr'
  · rw [he]
    exact h.others (h.fenced.apply hle (Op.not_claim_of_actor hactor)) htime hr hactor hr' hne

theorem FleetStep.kept {l : WorkerCall × Time} (hstep : FleetStep p l p') (hc : Timely p l)
    (h : p.Kept) : p'.Kept := by
  refine ⟨hstep.fenced h.fenced, ?_⟩
  have hfenced := hstep.fenced h.fenced
  obtain ⟨hle, hallowed, rfl⟩ := hstep
  obtain ⟨c, now⟩ := l
  obtain ⟨htime, hcalls⟩ := hc
  dsimp only at hle hallowed htime hcalls
  cases c with
  | start w env => exact (h.claim hallowed hle htime).kept
  | beat o =>
    unfold WorkerCall.apply
    dsimp only
    split
    · exact h.kept
    · rename_i r hr
      exact (h.beat hr hle htime).kept
  | finish o how delay =>
    unfold WorkerCall.apply
    dsimp only
    split
    · exact h.kept
    · rename_i r hr
      intro o' r' hr'
      dsimp only at hr'
      rw [Function.update_apply] at hr'
      split at hr'
      · cases hr'
      · rename_i hne
        exact h.finish hr hle htime how hr' hne
  | crash o =>
    intro o' r' hr'
    unfold WorkerCall.apply at hr'
    dsimp only at hr'
    rw [Function.update_apply] at hr'
    split at hr'
    · cases hr'
    · exact h.kept o' r' hr'
  | call op =>
    intro o r hr
    obtain ⟨hcancel, hactor⟩ := hcalls op rfl o r hr
    obtain ⟨hlost, hheld⟩ := h.kept o r hr
    have howner := (h.fenced.names o r hr).2
    refine ⟨hlost, hheld.apply h.fenced.queue (htime o r hr) (hfenced.fences o r hr) hcancel ?_⟩
    rwa [howner]

end

/-- In a run in which the heartbeats are in time every running worker holds its job, at the attempt
of its lease, until `lease_for` after its last heartbeat; no two workers run the same job; and none
ends with a lost lease, unless its handler says so. -/
theorem timely_workers {t₀ : Time} {tr : List (Fleet × WorkerCall × Time)} {p : Fleet}
    (hrun : FleetRun t₀ tr p) (hc : Run.Meets Timely tr) :
    (∀ x, Run.Visits tr p x → ∀ o r, x.running o = some r →
      r.lost = false ∧ ∃ j ∈ x.queue.jobs, j.LeasedAt r.lease.id o r.lease.attempt ∧
        j.leaseExpiresAt = some (r.beatAt + r.worker.settings.leaseFor)) ∧
    (∀ x, Run.Visits tr p x → ∀ o o' r r', x.running o = some r → x.running o' = some r' →
      r.lease.id = r'.lease.id → o = o') ∧
    ∀ x o r how delay now, (x, .finish o how delay, now) ∈ tr → x.running o = some r →
      how ≠ .leaseLost → (r.finish x.queue now delay how).2 ≠ some .leaseLost := by
  have hkept := hrun.invariant_visits hc
    (P := Fleet.Kept) ⟨fenced_init t₀, fun _ _ h => by cases h⟩
    fun _ _ _ hc hs hstep => hstep.kept hc hs
  refine ⟨fun x hx o r hr => ?_, fun x hx o o' r r' hr hr' hid => (hkept x hx).alone hr hr' hid,
    fun x o r how delay now hm hr hhow hres => ?_⟩
  · obtain ⟨hlost, j, hj, hat, he⟩ := (hkept x hx).kept o r hr
    rw [((hkept x hx).fenced.names o r hr).2] at hat
    exact ⟨hlost, j, hj, hat, he⟩
  · obtain ⟨_, _, _, hstep, _⟩ := hrun.mem_step hm
    have hx := hkept x (.inr ⟨_, hm⟩)
    obtain ⟨-, hheld⟩ := hx.kept o r hr
    obtain ⟨j, hj, hat, hlive, -⟩ := hheld.live ((hc _ hm).1 o r hr)
    cases hsettles : how.settles with
    | true =>
      have hreports := Running.finish_reports hx.fenced.queue.jobs (hx.fenced.fences o r hr)
        hstep.1 hsettles hres
      exact hreports.2 j hj hat hlive
    | false =>
      cases how with
      | leaseLost => exact hhow rfl
      | rerouted => cases hres
      | cancelled => cases hres
      | _ => cases hsettles

/-! A run that is shorter than the leases is in time. -/

/-- The step comes at `b` or later, and before the leases from then on run out. -/
def Short (b d : Time) (_ : Fleet) (l : WorkerCall × Time) : Prop :=
  b ≤ l.2 ∧ l.2 < b + d ∧ (∀ w env, l.1 = .start w env → d ≤ w.settings.leaseFor) ∧
    ∀ op, l.1 = .call op → op.actor = none ∧ ∀ jobId reason, op ≠ .cancel jobId reason

theorem FleetStep.short {b d : Time} {p p' : Fleet} {l : WorkerCall × Time}
    (hstep : FleetStep p l p') (hc : Short b d p l)
    (h : ∀ o r, p.running o = some r → b ≤ r.beatAt ∧ d ≤ r.worker.settings.leaseFor) :
    ∀ o r, p'.running o = some r → b ≤ r.beatAt ∧ d ≤ r.worker.settings.leaseFor := by
  obtain ⟨-, -, rfl⟩ := hstep
  obtain ⟨c, now⟩ := l
  obtain ⟨hb, -, hstart, -⟩ := hc
  dsimp only at hb
  -- what a step writes for one worker
  have hset : ∀ {o₁ : String} {x : Option Running},
      (∀ r, x = some r → b ≤ r.beatAt ∧ d ≤ r.worker.settings.leaseFor) →
      ∀ o r, Function.update p.running o₁ x o = some r →
        b ≤ r.beatAt ∧ d ≤ r.worker.settings.leaseFor := by
    intro o₁ x hx o r hr
    rw [Function.update_apply] at hr
    split at hr
    · exact hx r hr
    · exact h o r hr
  cases c with
  | start w env =>
    unfold WorkerCall.apply Fleet.claim
    dsimp only
    split
    · refine hset fun r hr => ?_
      cases hr
      exact ⟨hb, hstart w env rfl⟩
    · exact h
    · exact h
  | beat o =>
    unfold WorkerCall.apply
    dsimp only
    split
    · exact h
    · rename_i r₀ hr₀
      refine hset fun r hr => ?_
      cases hr
      obtain ⟨hr, hd⟩ := h o r₀ hr₀
      rcases r₀.beat_cases p.queue now with ⟨j, -, hbeat⟩ | ⟨-, hbeat⟩ <;> rw [hbeat]
      · exact ⟨hb, hd⟩
      · exact ⟨hr, hd⟩
  | finish o how delay =>
    unfold WorkerCall.apply
    dsimp only
    split
    · exact h
    · exact hset fun r hr => by cases hr
  | crash o => exact hset fun r hr => by cases hr
  | call op => exact h

theorem FleetRun.timely_of_short {b d t₀ : Time} {tr : List (Fleet × WorkerCall × Time)}
    {p : Fleet} (hrun : FleetRun t₀ tr p) (hc : Run.Meets (Short b d) tr) :
    Run.Meets Timely tr := by
  have hinv := hrun.invariant_visits hc
    (P := fun p => ∀ o r, p.running o = some r →
      b ≤ r.beatAt ∧ d ≤ r.worker.settings.leaseFor)
    (fun _ _ h => by cases h) fun _ _ _ hc hs hstep => hstep.short hc hs
  intro x hx
  obtain ⟨-, hlt, -, hcalls⟩ := hc x hx
  refine ⟨fun o r hr => ?_, fun op hop o r _ => ⟨?_, fun ha => ?_⟩⟩
  · obtain ⟨hb, hd⟩ := hinv x.1 (.inr ⟨x.2, hx⟩) o r hr
    exact lt_of_lt_of_le hlt (add_le_add hb hd)
  · exact (hcalls op hop).2 r.lease.id
  · rw [(hcalls op hop).1] at ha
    cases ha

def promptCalls : List (WorkerCall × Time) :=
  [(.call (.enqueue chapterRequest), 0), (.start slowWorker {}, 0), (.beat "a", 200000000),
    (.start otherWorker {}, 210000000), (.finish "a" .returned 30000000, 250000000)]

/-- The other worker finds no job, and the first one succeeds. -/
theorem promptCalls_timely : ∃ tr p, FleetRun 0 tr p ∧ Run.Meets Timely tr ∧
    p.queue.jobs.map (fun j => (j.status, j.attempts)) = [(.succeeded, 1)] ∧
    ∀ x, Run.Visits tr p x → ∀ o o' r r', x.running o = some r → x.running o' = some r' →
      r.lease.id = r'.lease.id → o = o' := by
  have hrun : FleetRun 0 (Run.history (fun p l => l.1.apply p l.2) { clock := 0 } promptCalls)
      (promptCalls.foldl (fun p l => l.1.apply p l.2) { clock := 0 }) := by
    refine Run.of_foldl _ _ fun x hx => ?_
    simp only [promptCalls, Run.history, List.mem_cons, List.not_mem_nil, or_false] at hx
    rcases hx with rfl | rfl | rfl | rfl | rfl <;>
      exact ⟨by decide +kernel, by decide +kernel, rfl⟩
  have htimely := hrun.timely_of_short (b := 0) (d := 300000000) fun x hx => by
    simp only [promptCalls, Run.history, List.mem_cons, List.not_mem_nil, or_false] at hx
    rcases hx with rfl | rfl | rfl | rfl | rfl <;>
      refine ⟨by decide, by decide, fun w env h => ?_, fun op h => ?_⟩ <;> cases h
    · exact ⟨rfl, fun _ _ h => by cases h⟩
    · decide
    · decide
  exact ⟨_, _, hrun, htimely, by decide +kernel, (timely_workers hrun htimely).2.1⟩

end MangaManager
