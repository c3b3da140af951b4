import Mathlib.Logic.Function.Basic
import MangaManager.Queue.Fencing

/-!
# The worker's runtime

`JobWorker.run_once` of `manga_manager/worker/runtime.py`, in the pieces that are transactions of
their own: the claim, a turn of the heartbeat loop, and the end of the handler. A `Fleet` is the
queue with what each worker is running, and `FleetStep` interleaves the pieces with the other calls
of the queue; a worker may also crash and start anew under its name.

`leases_fenced`: what a worker reports and writes is about the attempt it was given, and a worker
that gives up its result could not have delivered it.
-/

namespace MangaManager

open Lib

/-! ## Workers -/

inductive WorkerRunResult where
  | idle
  | succeeded
  | retryScheduled
  | failed
  | leaseLost
  deriving DecidableEq, Repr

/-- `WorkerSettings`, and the checks of `__post_init__`. -/
structure WorkerSettings where
  leaseFor : Time := 300000000
  heartbeatInterval : Time := 30000000
  retryBase : Time := 30000000
  retryCap : Time := 3600000000
  limits : PoolLimits := ⟨[], List.nodup_nil⟩
  pacingWindow : Rat := 2
  leaseFor_pos : 0 < leaseFor := by decide
  heartbeatInterval_pos : 0 < heartbeatInterval := by decide
  heartbeatInterval_lt : heartbeatInterval < leaseFor := by decide
  retryBase_pos : 0 < retryBase := by decide
  retryBase_le : retryBase ≤ retryCap := by decide
  pacingWindow_pos : 0 < pacingWindow := by decide

/-- `JobWorker`, with the kinds that it has handlers of. -/
structure JobWorker where
  owner : String
  handlers : List JobKind
  settings : WorkerSettings := {}
  claimKinds : Option (List JobKind) := none
  claimPools : Option (List String) := none
  stripped : strip owner = owner
  named : owner ≠ ""

/-- What `_claim` asks for. -/
def JobWorker.claimArgs (w : JobWorker) : ClaimArgs where
  owner := w.owner
  leaseFor := w.settings.leaseFor
  kinds := w.claimKinds
  limits := w.settings.limits
  pacingWindow := w.settings.pacingWindow
  pools := w.claimPools

/-- `_retry_delay` before its random factor. -/
def WorkerSettings.backoff (c : WorkerSettings) (attempt : Nat) : Time :=
  min (c.retryBase * 2 ^ (attempt - 1)) c.retryCap

/-- A value of `_retry_delay`: the factor is from 0.8 to 1.2, and the product is rounded to the
microsecond. -/
def WorkerSettings.Jittered (c : WorkerSettings) (attempt : Nat) (delay : Time) : Prop :=
  4 * c.backoff attempt - 2 ≤ 5 * delay ∧ 5 * delay ≤ 6 * c.backoff attempt + 2

instance (c : WorkerSettings) (attempt : Nat) (delay : Time) :
    Decidable (c.Jittered attempt delay) :=
  inferInstanceAs (Decidable (_ ∧ _))

/-- How the handler ends. A rerouted job was moved by the last call of the handler, to which the
owner is the one of the row. -/
inductive HandlerEnd where
  | missing
  | returned
  | deferred (retryAfter : Time) (code message : String)
  | retryable (retryAfter : Option Time) (code message : String)
  | rerouted (owner : String) (payload : JobPayload) (source : String) (availableAt : Time)
      (message : String)
  | permanent (code message : String)
  | leaseLost
  | cancelled
  | unexpected (message : String)

def HandlerEnd.isMissing : HandlerEnd → Bool
  | .missing => true
  | _ => false

/-- A worker at its handler; `beatAt` is the time of the claim or of the last heartbeat. -/
structure Running where
  worker : JobWorker
  lease : JobLease
  lost : Bool := false
  beatAt : Time

namespace Running

variable (r : Running) (q : Queue) (now : Time)

/-- `_fail`. -/
def fail (code message : String) : Queue × WorkerRunResult :=
  let (q, failed) := q.fail r.lease.id r.lease.owner code message now
  (q, if failed then .failed else .leaseLost)

/-- `_retry`; `delay` is the value of `_retry_delay`. -/
def retry (code message : String) (retryAfter : Option Time) (delay : Time) :
    Queue × WorkerRunResult :=
  let delay := (retryAfter.filter (· ≠ 0)).getD delay
  let (q, state) := q.retry r.lease.id r.lease.owner (now + delay) code message now
  (q, match state with
    | none => .leaseLost
    | some .failed => .failed
    | some _ => .retryScheduled)

/-- The rest of `run_once`; a cancelled handler has no result. -/
def finish (delay : Time) : HandlerEnd → Queue × Option WorkerRunResult
  | .missing => (r.fail q now "handler_missing" ("no handler registered for " ++ r.lease.kind.value)
      ).map id some
  | .returned =>
    if r.lost then (q, some .leaseLost)
    else
      let (q, succeeded) := q.succeed r.lease.id r.lease.owner now
      (q, some (if succeeded then .succeeded else .leaseLost))
  | .deferred retryAfter code message =>
    let (q, deferred) := q.defer r.lease.id r.lease.owner (now + retryAfter) code message now
    (q, some (if deferred then .retryScheduled else .leaseLost))
  | .retryable retryAfter code message => (r.retry q now code message retryAfter delay).map id some
  | .rerouted owner payload source availableAt message =>
    (committed q (q.reroute r.lease.id owner payload source availableAt message now),
      some .retryScheduled)
  | .permanent code message => (r.fail q now code message).map id some
  | .leaseLost => (q, some .leaseLost)
  | .cancelled => ((q.release r.lease.id r.lease.owner "worker shutting down" now).1, none)
  | .unexpected message => (r.retry q now "unexpected_error" message none delay).map id some

/-- A turn of `_heartbeat_loop`. -/
def beat : Queue × Running :=
  match q.heartbeat r.lease.id r.lease.owner r.worker.settings.leaseFor now with
  | .ok (q, true) => (q, { r with beatAt := now })
  | .ok (q, false) => (q, { r with lost := true })
  | .error _ => (q, r)

end Running

/-! ## A fleet of workers -/

/-- The queue, what each worker is running, and the time of the last step. -/
structure Fleet where
  queue : Queue := {}
  running : String → Option Running := fun _ => none
  clock : Time

inductive WorkerCall where
  | start (w : JobWorker) (env : ClaimEnv)
  | beat (owner : String)
  | finish (owner : String) (how : HandlerEnd) (delay : Time)
  | crash (owner : String)
  | call (op : Op)

/-- The claim of `run_once` leases a job to the worker, or leaves it idle. -/
def Fleet.claim (p : Fleet) (w : JobWorker) (env : ClaimEnv) (now : Time) : Fleet :=
  match Queue.claim env w.claimArgs p.queue now with
  | .ok (q, some lease) =>
    ⟨q, Function.update p.running w.owner (some { worker := w, lease := lease, beatAt := now }),
      now⟩
  | .ok (q, none) => { p with queue := q, clock := now }
  | .error _ => { p with clock := now }

namespace WorkerCall

def apply (c : WorkerCall) (p : Fleet) (now : Time) : Fleet :=
  match c with
  | .start w env => p.claim w env now
  | .beat owner => match p.running owner with
    | none => { p with clock := now }
    | some r => ⟨(r.beat p.queue now).1,
        Function.update p.running owner (some (r.beat p.queue now).2), now⟩
  | .finish owner how delay => match p.running owner with
    | none => { p with clock := now }
    | some r => ⟨(r.finish p.queue now delay how).1, Function.update p.running owner none, now⟩
  | .crash owner => { p with running := Function.update p.running owner none, clock := now }
  | .call op => { p with queue := op.apply p.queue now, clock := now }

/-- A worker runs one job at a time, its heartbeats and its end are those of a job it runs, and only
workers claim. -/
def Allowed (p : Fleet) : WorkerCall → Prop
  | start w _ => p.running w.owner = none
  | beat owner => ∃ r, p.running owner = some r ∧ r.lost = false ∧
      r.lease.kind ∈ r.worker.handlers
  | finish owner how delay => ∃ r, p.running owner = some r ∧
      (how.isMissing = true ↔ r.lease.kind ∉ r.worker.handlers) ∧
      r.worker.settings.Jittered r.lease.attempt delay
  | crash _ => True
  | call op => ∀ env a, op ≠ .claim env a

end WorkerCall

instance (p : Fleet) : (c : WorkerCall) → Decidable (c.Allowed p)
  | .start w _ => decidable_of_iff ((p.running w.owner).isNone = true) Option.isNone_iff_eq_none
  | .beat owner => decidable_of_iff ((p.running owner).any (fun r =>
      !r.lost && decide (r.lease.kind ∈ r.worker.handlers)) = true)
      (by simp [WorkerCall.Allowed, Option.any_eq_true])
  | .finish owner how delay => decidable_of_iff ((p.running owner).any (fun r =>
      decide ((how.isMissing = true ↔ r.lease.kind ∉ r.worker.handlers) ∧
        r.worker.settings.Jittered r.lease.attempt delay)) = true)
      (by simp only [WorkerCall.Allowed, Option.any_eq_true, decide_eq_true_eq])
  | .crash _ => isTrue trivial
  | .call op => match op with
    | .claim env a => isFalse fun h => h env a rfl
    | .enqueue _ | .heartbeat _ _ _ | .progress _ _ _ _ | .succeed _ _ | .fail _ _ _ _
    | .retry _ _ _ _ _ | .cancel _ _ | .release _ _ _ | .defer _ _ _ _ _ | .reroute _ _ _ _ _ _
    | .rerouteWaiting _ _ _ _ _ | .retryNow _ | .resumeRecoveredProvider _
    | .failExhaustedLeases | .cleanupExpiredPermits => isTrue fun _ _ h => by cases h

def FleetStep (p : Fleet) (l : WorkerCall × Time) (p' : Fleet) : Prop :=
  p.clock ≤ l.2 ∧ l.1.Allowed p ∧ p' = l.1.apply p l.2

abbrev FleetRun (t₀ : Time) := Run FleetStep { clock := t₀ }

/-! ## The rows that a call leaves leased -/

/-- The job is leased to `o` at the attempt. -/
structure WorkJob.LeasedAt (j : WorkJob) (id : Nat) (o : String) (attempt : Nat) : Prop where
  id : j.id = id
  status : j.status = .leased
  owner : j.leaseOwner = o
  attempt : j.attempts = attempt

/-- A leased row was leased before, to the same worker at the same attempt, and if it expires at
another time its lease had not run out. -/
def LeasedFrom (now : Time) (s : Queue) (j : WorkJob) : Prop :=
  ∃ j₀ ∈ s.jobs, j₀.LeasedAt j.id j.leaseOwner j.attempts ∧
    (j₀.leaseExpiresAt = j.leaseExpiresAt ∨ j₀.Live now)

section
variable {now : Time} {op : Op} {s s' : Queue} {j j' : WorkJob}

theorem RowStep.leasedFrom (h : RowStep now op j j') (hc : ∀ env a, op ≠ .claim env a)
    (hl : j'.status = .leased) :
    j.LeasedAt j'.id j'.leaseOwner j'.attempts ∧
      (j.leaseExpiresAt = j'.leaseExpiresAt ∨ j.Live now) := by
  have hid := h.sameJob.id
  cases h with
  | edit h =>
    have he := h.edited
    exact ⟨⟨hid.symm, he.leased.mp hl, he.owner.symm, he.attempts.symm⟩, .inl he.expiry.symm⟩
  | unlease h => exact absurd hl h.not_leased
  | terminate h => exact absurd hl h.ended.not_leased
  | renew _ hlive _ _ => exact ⟨⟨rfl, hlive.1, rfl, rfl⟩, .inr hlive⟩
  | grant h => exact absurd h (hc _ _)

theorem LeasedFrom.refl (hj : j ∈ s.jobs) (hl : j.status = .leased) : LeasedFrom now s j :=
  ⟨j, hj, ⟨rfl, hl, rfl, rfl⟩, .inl rfl⟩

theorem LeasedFrom.trans (h : LeasedFrom now s' j)
    (hs : ∀ j ∈ s'.jobs, j.status = .leased → LeasedFrom now s j) : LeasedFrom now s j := by
  obtain ⟨j₁, hj₁, hm₁, he₁⟩ := h
  obtain ⟨j₀, hj₀, hm₀, he₀⟩ := hs j₁ hj₁ hm₁.status
  refine ⟨j₀, hj₀, ⟨hm₀.id.trans hm₁.id, hm₀.status, hm₀.owner.trans hm₁.owner,
    hm₀.attempt.trans hm₁.attempt⟩, ?_⟩
  rcases he₀ with he₀ | he₀
  · rcases he₁ with he₁ | he₁
    · exact .inl (he₀.trans he₁)
    · obtain ⟨-, e, he, hlt⟩ := he₁
      exact .inr ⟨hm₀.status, e, he₀.trans he, hlt⟩
  · exact .inr he₀

theorem Transition.leasedFrom (h : Transition now op s s') (hc : ∀ env a, op ≠ .claim env a)
    (hj : j ∈ s'.jobs) (hl : j.status = .leased) : LeasedFrom now s j := by
  rcases h.jobs_cases with ⟨h, -⟩ | ⟨a, -, -, -, rfl⟩ | ⟨x, x', hx, hstep, h, -⟩
  · exact .refl (h ▸ hj) hl
  · simp only [Queue.enqueueNew_jobs, List.mem_append, List.mem_singleton] at hj
    rcases hj with hj | rfl
    · exact .refl hj hl
    · cases hl
  · rw [h] at hj
    rcases Table.mem_put.mp hj with ⟨rfl, -⟩ | ⟨hj, -⟩
    · exact ⟨x, hx, hstep.leasedFrom hc hl⟩
    · exact .refl hj hl

theorem ScanStep.leasedFrom (h : ScanStep now s s') (hj : j ∈ s'.jobs) (hl : j.status = .leased) :
    LeasedFrom now s j := by
  cases h with
  | @repool k hk _ =>
    rcases Table.mem_put.mp hj with ⟨rfl, -⟩ | ⟨hj, -⟩
    · exact ⟨k, hk, ⟨rfl, hl, rfl, rfl⟩, .inl rfl⟩
    · exact .refl hj hl
  | dropPermits => exact .refl hj hl
  | sweep hk _ _ =>
    rcases Table.mem_put.mp hj with ⟨rfl, -⟩ | ⟨hj, -⟩
    · cases hl
    · exact .refl hj hl

theorem Scans.leasedFrom (h : Scans now s s') (hj : j ∈ s'.jobs) (hl : j.status = .leased) :
    LeasedFrom now s j := by
  induction h generalizing j with
  | refl => exact .refl hj hl
  | tail _ hs ih => exact (hs.leasedFrom hj hl).trans fun k hk hl => ih hk hl

theorem Op.leasedFrom (hk : Table.Keyed WorkJob.id s.jobs) (hc : ∀ env a, op ≠ .claim env a)
    (hj : j ∈ (op.apply s now).jobs) (hl : j.status = .leased) : LeasedFrom now s j :=
  op.apply_inv (P := fun q => ∀ j ∈ q.jobs, j.status = .leased → LeasedFrom now s j) now hk
    (fun _ _ hq ht _ hj hl => (ht.leasedFrom hc hj hl).trans hq)
    (fun _ hj hl => .refl hj hl) j hj hl

/-- A claim leases one row anew, at most. -/
theorem Queue.claim_leasedFrom {env : ClaimEnv} {a : ClaimArgs} {l : Option JobLease}
    (hk : Table.Keyed WorkJob.id s.jobs) (h : Queue.claim env a s now = .ok (s', l))
    (hj : j ∈ s'.jobs) (hl : j.status = .leased) :
    (LeasedFrom now s j ∧ ∀ lease, l = some lease → j.id ≠ lease.id) ∨
      ∃ lease, l = some lease ∧ lease.owner = strip a.owner ∧
        j.LeasedAt lease.id lease.owner lease.attempt ∧
        j.leaseExpiresAt = some (now + a.leaseFor) := by
  cases l with
  | none => exact .inl ⟨(Queue.claim_ok hk h).leasedFrom hj hl, fun _ h => by cases h⟩
  | some lease =>
    obtain ⟨s₁, k, hs, hg⟩ := Queue.claim_ok hk h
    rw [hg.tables] at hj
    rcases Table.mem_put.mp hj with ⟨rfl, -⟩ | ⟨hj, hne⟩
    · rw [hg.lease]
      exact .inr ⟨_, rfl, rfl, ⟨rfl, rfl, rfl, rfl⟩, rfl⟩
    · refine .inl ⟨hs.leasedFrom hj hl, fun _ h => ?_⟩
      cases h
      rw [hg.lease]
      exact hne

end

/-! ## Attempts -/

/-- Where its job is leased to the worker it is at the attempt of the lease; and not for a lost
lease that has not run out. -/
def Running.Fences (r : Running) (q : Queue) (clock : Time) : Prop :=
  ∀ j ∈ q.jobs, j.id = r.lease.id → j.status = .leased → j.leaseOwner = r.lease.owner →
    j.attempts = r.lease.attempt ∧ (r.lost = true → ¬ j.Live clock)

structure Fleet.Fenced (p : Fleet) : Prop where
  queue : p.queue.WellFormed
  names : ∀ o r, p.running o = some r → r.worker.owner = o ∧ r.lease.owner = o
  fences : ∀ o r, p.running o = some r → r.Fences p.queue p.clock

section
variable {r r' : Running} {q q' : Queue} {p p' : Fleet} {clock now delay : Time} {o : String}

theorem Running.Fences.of_from (h : r.Fences q clock) (hle : clock ≤ now)
    (hq : ∀ j ∈ q'.jobs, j.id = r.lease.id → j.leaseOwner = r.lease.owner → j.status = .leased →
      LeasedFrom now q j) : r.Fences q' now := by
  intro j hj hid hl ho
  obtain ⟨j₀, hj₀, hm, he⟩ := hq j hj hid ho hl
  obtain ⟨hatt, hlost⟩ := h j₀ hj₀ (hm.id.trans hid) hm.status (hm.owner.trans ho)
  refine ⟨hm.attempt.symm.trans hatt, fun hr hlive => hlost hr ?_⟩
  have hlive₀ : j₀.Live now := by
    rcases he with he | he
    · obtain ⟨-, e, hx, hlt⟩ := hlive
      exact ⟨hm.status, e, he.trans hx, hlt⟩
    · exact he
  exact hlive₀.earlier hle

/-- A step that grants no lease keeps what the workers know. -/
theorem Fleet.Fenced.of_from (h : p.Fenced) (hle : p.clock ≤ now) (hq : q.WellFormed)
    (hfrom : ∀ j ∈ q.jobs, j.status = .leased → LeasedFrom now p.queue j) :
    Fleet.Fenced { p with queue := q, clock := now } :=
  ⟨hq, h.names, fun o r hr => (h.fences o r hr).of_from hle fun j hj _ _ hl => hfrom j hj hl⟩

theorem Fleet.Fenced.drop (h : p.Fenced) (o : String) :
    Fleet.Fenced { p with running := Function.update p.running o none } := by
  have hsub : ∀ o' r, Function.update p.running o none o' = some r → p.running o' = some r := by
    intro o' r hr
    rw [Function.update_apply] at hr
    split at hr
    · cases hr
    · exact hr
  exact ⟨h.queue, fun o' r hr => h.names o' r (hsub o' r hr),
    fun o' r hr => h.fences o' r (hsub o' r hr)⟩

theorem Fleet.Fenced.set (h : p.Fenced) (hnames : r.worker.owner = o ∧ r.lease.owner = o)
    (hfences : r.Fences p.queue p.clock) :
    Fleet.Fenced { p with running := Function.update p.running o (some r) } := by
  refine ⟨h.queue, fun o' r' hr => ?_, fun o' r' hr => ?_⟩ <;>
    (dsimp only at hr; rw [Function.update_apply] at hr; split at hr)
  · rename_i he
    cases hr
    rwa [he]
  · exact h.names o' r' hr
  · cases hr
    exact hfences
  · exact h.fences o' r' hr

theorem Fleet.Fenced.apply (h : p.Fenced) (hle : p.clock ≤ now) {op : Op}
    (hc : ∀ env a, op ≠ .claim env a) :
    Fleet.Fenced { p with queue := op.apply p.queue now, clock := now } :=
  h.of_from hle (op.apply_wellFormed now h.queue) fun _ hj hl => op.leasedFrom h.queue.jobs hc hj hl

/-- What the end of a handler does to the queue is nothing, or one call about its job. -/
theorem Running.finish_op (r : Running) (q : Queue) (now delay : Time) (how : HandlerEnd) :
    (r.finish q now delay how).1 = q ∨ ∃ (op : Op) (o : String),
      op.actor = some (o, r.lease.id) ∧ (r.finish q now delay how).1 = op.apply q now := by
  cases how with
  | missing => exact .inr ⟨.fail _ _ _ _, _, rfl, rfl⟩
  | returned =>
    unfold finish
    dsimp only
    split
    · exact .inl rfl
    · exact .inr ⟨.succeed _ _, _, rfl, rfl⟩
  | deferred retryAfter code message => exact .inr ⟨.defer _ _ _ _ _, _, rfl, rfl⟩
  | retryable retryAfter code message => exact .inr ⟨.retry _ _ _ _ _, _, rfl, rfl⟩
  | rerouted owner payload source availableAt message =>
    exact .inr ⟨.reroute _ _ _ _ _ _, _, rfl, rfl⟩
  | permanent code message => exact .inr ⟨.fail _ _ _ _, _, rfl, rfl⟩
  | leaseLost => exact .inl rfl
  | cancelled => exact .inr ⟨.release _ _ _, _, rfl, rfl⟩
  | unexpected message => exact .inr ⟨.retry _ _ _ _ _, _, rfl, rfl⟩

theorem Op.not_claim_of_actor {op : Op} {x : String × Nat} (h : op.actor = some x) :
    ∀ env a, op ≠ .claim env a := by
  rintro env a rfl
  cases h

/-- What a turn of the heartbeat loop does. -/
theorem Running.beat_cases (r : Running) (q : Queue) (now : Time) :
    (∃ j, q.selectHeld r.lease.id r.lease.owner now = some j ∧
      r.beat q now = (q.renewLease j r.lease.owner r.worker.settings.leaseFor now,
        { r with beatAt := now })) ∨
    (q.selectHeld r.lease.id r.lease.owner now = none ∧
      r.beat q now = (q, { r with lost := true })) := by
  unfold beat Queue.heartbeat
  rw [if_neg (not_le.mpr r.worker.settings.leaseFor_pos)]
  cases h : q.selectHeld r.lease.id r.lease.owner now with
  | none => exact .inr ⟨rfl, rfl⟩
  | some j => exact .inl ⟨j, rfl, rfl⟩

theorem Running.beat_op (r : Running) (q : Queue) (now : Time) : (r.beat q now).1 =
    (Op.heartbeat r.lease.id r.lease.owner r.worker.settings.leaseFor).apply q now := by
  unfold beat Op.apply
  dsimp only
  split
  · rename_i h
    rw [h]
    rfl
  · rename_i h
    rw [h]
    rfl
  · rename_i h
    rw [h]
    rfl

theorem Fleet.Fenced.claim (h : p.Fenced) {w : JobWorker} {env : ClaimEnv}
    (hidle : p.running w.owner = none) (hle : p.clock ≤ now) : (p.claim w env now).Fenced := by
  have hw : ((Op.claim env w.claimArgs).apply p.queue now).WellFormed :=
    Op.apply_wellFormed _ now h.queue
  simp only [Op.apply] at hw
  unfold Fleet.claim
  split
  · rename_i q lease hclaim
    rw [hclaim] at hw
    have hfrom := fun j hj hl => Queue.claim_leasedFrom (j := j) h.queue.jobs hclaim hj hl
    have hothers : Fleet.Fenced { p with queue := q, clock := now } := by
      refine ⟨hw, h.names, fun o r hr => (h.fences o r hr).of_from hle fun j hj _ ho hl => ?_⟩
      rcases hfrom j hj hl with ⟨hfrom, -⟩ | ⟨l, -, hlo, hat, -⟩
      · exact hfrom
      · -- the new lease is of a worker that was idle
        have he : o = w.owner := by
          rw [← (h.names o r hr).2, ← ho, hat.owner, hlo]
          exact w.stripped
        rw [he, hidle] at hr
        cases hr
    refine hothers.set (r := { worker := w, lease := lease, beatAt := now }) ?_
      fun j hj hid hl ho => ?_
    · obtain ⟨s₁, k, -, hg⟩ := Queue.claim_ok h.queue.jobs hclaim
      refine ⟨rfl, ?_⟩
      rw [hg.lease]
      exact w.stripped
    · rcases hfrom j hj hl with ⟨-, hne⟩ | ⟨l, hlease, -, hat, -⟩
      · exact absurd hid (hne lease rfl)
      · cases hlease
        exact ⟨hat.attempt, fun h => by cases h⟩
  · rename_i q hclaim
    rw [hclaim] at hw
    refine h.of_from hle hw fun j hj hl => ?_
    rcases Queue.claim_leasedFrom h.queue.jobs hclaim hj hl with ⟨hfrom, -⟩ | ⟨l, hlease, -⟩
    · exact hfrom
    · cases hlease
  · exact h.of_from hle h.queue fun j hj hl => .refl hj hl

theorem Fleet.Fenced.beat (h : p.Fenced) (hr : p.running o = some r) (hle : p.clock ≤ now) :
    Fleet.Fenced ⟨(r.beat p.queue now).1,
      Function.update p.running o (some (r.beat p.queue now).2), now⟩ := by
  have hop : Fleet.Fenced { p with queue := (r.beat p.queue now).1, clock := now } := by
    rw [r.beat_op]
    exact h.apply hle fun _ _ h => by cases h
  have hnames := h.names o r hr
  have hfences := hop.fences o r hr
  rcases r.beat_cases p.queue now with ⟨j, -, hbeat⟩ | ⟨hnone, hbeat⟩
  · rw [hbeat] at hop hfences ⊢
    exact hop.set (r := { r with beatAt := now }) hnames hfences
  · rw [hbeat] at hop hfences ⊢
    refine hop.set (r := { r with lost := true }) hnames fun j hj hid hl ho => ?_
    refine ⟨(hfences j hj hid hl ho).1, fun _ hlive => ?_⟩
    have hheld := Queue.selectHeld_eq h.queue.jobs hj hlive
    rw [hid, ho, hnone] at hheld
    cases hheld

theorem FleetStep.fenced {l : WorkerCall × Time} (hstep : FleetStep p l p') (h : p.Fenced) :
    p'.Fenced := by
  obtain ⟨hle, hallowed, rfl⟩ := hstep
  obtain ⟨c, now⟩ := l
  have hidle : Fleet.Fenced { p with clock := now } :=
    h.of_from hle h.queue fun j hj hl => .refl hj hl
  cases c with
  | start w env => exact h.claim hallowed hle
  | beat o =>
    unfold WorkerCall.apply
    dsimp only
    split
    · exact hidle
    · rename_i r hr
      exact h.beat hr hle
  | finish o how delay =>
    unfold WorkerCall.apply
    dsimp only
    split
    · exact hidle
    · rename_i r hr
      have hq : Fleet.Fenced { p with
          queue := (r.finish p.queue now delay how).1, clock := now } := by
        rcases r.finish_op p.queue now delay how with he | ⟨op, o', hactor, he⟩
        · rw [he]
          exact hidle
        · rw [he]
          exact h.apply hle (Op.not_claim_of_actor hactor)
      exact hq.drop o
  | crash o => exact hidle.drop o
  | call op => exact h.apply hle hallowed

theorem fenced_init (t₀ : Time) : Fleet.Fenced { clock := t₀ } :=
  ⟨Queue.wellFormed_empty, fun _ _ h => (by cases h), fun _ _ h => (by cases h)⟩

theorem FleetRun.fenced {t₀ : Time} {tr : List (Fleet × WorkerCall × Time)}
    (h : FleetRun t₀ tr p) : ∀ x, Run.Visits tr p x → x.Fenced :=
  h.invariant_visits (C := fun _ _ => True) (fun _ _ => trivial) (fenced_init t₀)
    fun _ _ _ _ hs hstep => hstep.fenced hs

end

/-! ## Results -/

namespace Queue

section
variable {s : Queue} {jobId : Nat} {owner code message : String} {now availableAt : Time}
  {j : WorkJob}

/-- The job has left its lease as `P` says. -/
def Left (s : Queue) (jobId : Nat) (P : WorkJob → Prop) : Prop :=
  ∃ j ∈ s.jobs, j.id = jobId ∧ j.leaseOwner = "" ∧ P j

theorem left_of_put {j' : WorkJob} {P : WorkJob → Prop} (hj : s.job? jobId = some j)
    (hid : j'.id = j.id) (howner : j'.leaseOwner = "") (hP : P j') :
    (s.putJob j').Left jobId P := by
  obtain ⟨hm, rfl⟩ := job?_some hj
  exact ⟨j', Table.mem_put_self hm hid.symm, hid, howner, hP⟩

theorem finish_left (state : JobState) (event : EventType) (code message : String)
    (h : s.selectHeld jobId owner now = some j) :
    (s.finish jobId owner state event code message now).2 = true ∧
      (s.finish jobId owner state event code message now).1.Left jobId fun j' =>
        j'.status = state ∨ state = .succeeded ∧ j'.status = .queued ∧
          j.pendingPayload = some j'.payload := by
  obtain ⟨hj, -, -⟩ := selectHeld_some h
  unfold finish
  rw [h]
  by_cases hs : state = .succeeded
  · simp only [hs, if_true]
    cases hp : j.pendingPayload with
    | none => exact ⟨rfl, left_of_put hj rfl rfl (.inl rfl)⟩
    | some pending => exact ⟨rfl, left_of_put hj rfl rfl (.inr ⟨trivial, rfl, rfl⟩)⟩
  · simp only [hs, if_false]
    exact ⟨trivial, left_of_put hj rfl rfl (.inl rfl)⟩

theorem retry_left (availableAt : Time) (code message : String)
    (h : s.selectHeld jobId owner now = some j) :
    ∃ state, (s.retry jobId owner availableAt code message now).2 = some state ∧
      (state = .failed ∨ state = .retryWait) ∧
      (s.retry jobId owner availableAt code message now).1.Left jobId (·.status = state) := by
  obtain ⟨hj, -, -⟩ := selectHeld_some h
  refine ⟨(j.retry availableAt code message now).status, ?_, ?_, ?_⟩
  · unfold retry
    rw [h]
    dsimp only
    split <;> rfl
  · unfold WorkJob.retry
    dsimp only
    split
    · exact .inl rfl
    · exact .inr rfl
  · unfold retry
    rw [h]
    dsimp only
    split <;> exact left_of_put hj rfl rfl rfl

theorem defer_left (availableAt : Time) (code message : String) (now : Time)
    (h : s.selectOwned jobId owner = some j) :
    (s.defer jobId owner availableAt code message now).2 = true ∧
      (s.defer jobId owner availableAt code message now).1.Left jobId (·.status = .retryWait) := by
  obtain ⟨hj, -, -⟩ := selectOwned_some h
  unfold defer
  rw [h]
  exact ⟨rfl, left_of_put hj rfl rfl rfl⟩

end

end Queue

/-- The handler's end leads to a transaction of the worker with a result. -/
def HandlerEnd.settles : HandlerEnd → Bool
  | .rerouted _ _ _ _ _ | .leaseLost | .cancelled => false
  | _ => true

/-- What a result says: the job left the lease at the attempt the worker was given, or nothing
changed, and nobody can still deliver that attempt. -/
def Running.Reports (r : Running) (q q' : Queue) (now : Time) : WorkerRunResult → Prop
  | .idle => False
  | .succeeded => ∃ j ∈ q.jobs, j.LeasedAt r.lease.id r.lease.owner r.lease.attempt ∧
      q'.Left r.lease.id fun j' => j'.status = .succeeded ∨
        j'.status = .queued ∧ j.pendingPayload = some j'.payload
  | .retryScheduled => ∃ j ∈ q.jobs, j.LeasedAt r.lease.id r.lease.owner r.lease.attempt ∧
      q'.Left r.lease.id (·.status = .retryWait)
  | .failed => ∃ j ∈ q.jobs, j.LeasedAt r.lease.id r.lease.owner r.lease.attempt ∧
      q'.Left r.lease.id (·.status = .failed)
  | .leaseLost => q' = q ∧ ∀ j ∈ q.jobs, j.LeasedAt r.lease.id r.lease.owner r.lease.attempt →
      ¬ j.Live now

section
variable {r : Running} {q : Queue} {clock now delay : Time} {how : HandlerEnd}
  {result : WorkerRunResult}

theorem Running.Fences.leasedAt {j : WorkJob} (h : r.Fences q clock) (hj : j ∈ q.jobs)
    (hid : j.id = r.lease.id) (hl : j.status = .leased) (ho : j.leaseOwner = r.lease.owner) :
    j.LeasedAt r.lease.id r.lease.owner r.lease.attempt :=
  ⟨hid, hl, ho, (h j hj hid hl ho).1⟩

theorem Running.Fences.held {j : WorkJob} (h : r.Fences q clock)
    (hj : q.selectHeld r.lease.id r.lease.owner now = some j) :
    j ∈ q.jobs ∧ j.LeasedAt r.lease.id r.lease.owner r.lease.attempt := by
  obtain ⟨hget, hlive, ho⟩ := Queue.selectHeld_some hj
  obtain ⟨hm, hid⟩ := Queue.job?_some hget
  exact ⟨hm, h.leasedAt hm hid hlive.1 ho⟩

theorem Queue.selectHeld_none_live (hk : Table.Keyed WorkJob.id q.jobs)
    (h : q.selectHeld r.lease.id r.lease.owner now = none) :
    ∀ j ∈ q.jobs, j.LeasedAt r.lease.id r.lease.owner r.lease.attempt → ¬ j.Live now := by
  intro j hj hat hlive
  have hheld := Queue.selectHeld_eq hk hj hlive
  rw [hat.id, hat.owner, h] at hheld
  cases hheld

theorem Running.fail_reports {code message : String} (hk : Table.Keyed WorkJob.id q.jobs)
    (h : r.Fences q clock) :
    r.Reports q (r.fail q now code message).1 now (r.fail q now code message).2 := by
  cases hheld : q.selectHeld r.lease.id r.lease.owner now with
  | none =>
    have he : q.fail r.lease.id r.lease.owner code message now = (q, false) := by
      simp [Queue.fail, Queue.finish, hheld]
    simp only [fail, he]
    exact ⟨rfl, Queue.selectHeld_none_live hk hheld⟩
  | some j =>
    obtain ⟨hm, hat⟩ := h.held hheld
    obtain ⟨hdone, hleft⟩ := Queue.finish_left .failed .failed code message hheld
    have hdone' : (q.fail r.lease.id r.lease.owner code message now).2 = true := hdone
    simp only [fail, hdone', if_true]
    obtain ⟨k, hk, hkid, hko, hks⟩ := hleft
    exact ⟨j, hm, hat, k, hk, hkid, hko, hks.resolve_right fun h => by cases h.1⟩

theorem Running.retry_reports {code message : String} {retryAfter : Option Time}
    (hk : Table.Keyed WorkJob.id q.jobs) (h : r.Fences q clock) :
    r.Reports q (r.retry q now code message retryAfter delay).1 now
      (r.retry q now code message retryAfter delay).2 := by
  unfold retry
  dsimp only
  generalize now + (retryAfter.filter (· ≠ 0)).getD delay = at_
  cases hheld : q.selectHeld r.lease.id r.lease.owner now with
  | none =>
    have he : q.retry r.lease.id r.lease.owner at_ code message now = (q, none) := by
      simp [Queue.retry, hheld]
    rw [he]
    exact ⟨rfl, Queue.selectHeld_none_live hk hheld⟩
  | some j =>
    obtain ⟨hm, hat⟩ := h.held hheld
    obtain ⟨state, hstate, hcases, hleft⟩ := Queue.retry_left at_ code message hheld
    rw [hstate]
    rcases hcases with rfl | rfl
    · exact ⟨j, hm, hat, hleft⟩
    · exact ⟨j, hm, hat, hleft⟩

/-- A result is about the attempt that the worker was given. -/
theorem Running.finish_reports (hk : Table.Keyed WorkJob.id q.jobs) (h : r.Fences q clock)
    (hle : clock ≤ now) (hsettles : how.settles = true)
    (hres : (r.finish q now delay how).2 = some result) :
    r.Reports q (r.finish q now delay how).1 now result := by
  cases how with
  | missing =>
    cases hres
    exact fail_reports hk h
  | permanent code message =>
    cases hres
    exact fail_reports hk h
  | retryable retryAfter code message =>
    cases hres
    exact retry_reports hk h
  | unexpected message =>
    cases hres
    exact retry_reports hk h
  | returned =>
    unfold finish at hres ⊢
    dsimp only at hres ⊢
    split at hres
    · rename_i hlost
      cases hres
      rw [if_pos hlost]
      refine ⟨rfl, fun j hj hat hlive => ?_⟩
      exact (h j hj hat.id hat.status hat.owner).2 hlost (hlive.earlier hle)
    · rename_i hlost
      rw [if_neg hlost]
      cases hres
      cases hheld : q.selectHeld r.lease.id r.lease.owner now with
      | none =>
        have he : q.succeed r.lease.id r.lease.owner now = (q, false) := by
          simp [Queue.succeed, Queue.finish, hheld]
        rw [he]
        exact ⟨rfl, Queue.selectHeld_none_live hk hheld⟩
      | some j =>
        obtain ⟨hm, hat⟩ := h.held hheld
        obtain ⟨hdone, k, hk, hkid, hko, hks⟩ :=
          Queue.finish_left .succeeded .succeeded "" "" hheld
        have hdone' : (q.succeed r.lease.id r.lease.owner now).2 = true := hdone
        rw [hdone', if_pos rfl]
        exact ⟨j, hm, hat, k, hk, hkid, hko, hks.imp_right fun h => h.2⟩
  | deferred retryAfter code message =>
    unfold finish at hres ⊢
    dsimp only at hres ⊢
    cases hres
    cases howned : q.selectOwned r.lease.id r.lease.owner with
    | none =>
      have he : q.defer r.lease.id r.lease.owner (now + retryAfter) code message now =
          (q, false) := by
        simp [Queue.defer, howned]
      rw [he]
      refine ⟨rfl, fun j hj hat _ => ?_⟩
      have hown := Queue.selectOwned_eq hk hj hat.status
      rw [hat.id, hat.owner, howned] at hown
      cases hown
    | some j =>
      obtain ⟨hget, hl, ho⟩ := Queue.selectOwned_some howned
      obtain ⟨hm, hid⟩ := Queue.job?_some hget
      obtain ⟨hdone, hleft⟩ := Queue.defer_left (now + retryAfter) code message now howned
      rw [hdone, if_pos rfl]
      exact ⟨j, hm, h.leasedAt hm hid hl ho, hleft⟩
  | _ => cases hsettles

end

def slowWorker : JobWorker where
  owner := "a"
  handlers := [.chapterDownload]
  stripped := by decide +kernel
  named := by decide

def otherWorker : JobWorker where
  owner := "b"
  handlers := [.chapterDownload]
  stripped := by decide +kernel
  named := by decide

def chapterRequest : EnqueueArgs where
  kind := .chapterDownload
  dedupeKey := "chapter:7"
  payload := .chapterDownload { chapterReleaseId := 1 }
  seriesKey := "1"

def takeOver : List (WorkerCall × Time) :=
  [(.call (.enqueue chapterRequest), 0), (.start slowWorker {}, 0),
    (.start otherWorker {}, 300000000), (.finish "a" .returned 30000000, 400000000),
    (.finish "b" .returned 60000000, 500000000)]

end MangaManager
