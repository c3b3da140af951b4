import MangaManager.Queue.Enqueue

/-!
# Leaving and moving a lease

The methods of `JobQueue` that act on one existing job, and the sweeps over
expired rows. A method that finds no matching row returns `false` (`none` for
`retry` and `retry_now`) and changes nothing.
-/

namespace MangaManager

open Lib

/-- The `details` of a progress report. -/
structure ProgressDetails where
  phase : String := ""
  processed : Int := 0
  current : Int := 0
  total : Int := 0
  unit : String := ""
  bytes : Int := 0
  deriving DecidableEq

/-- `a or b` on integers. -/
def orInt (a b : Int) : Int := if a = 0 then b else a

/-- The progress in twentieths, `-1` without a total. -/
def progressBucket (current total : Nat) : Int :=
  if total = 0 then -1 else min 20 ((current * 20 / total : Nat) : Int)

namespace WorkJob

/-- The columns `progress` writes. -/
def report (j : WorkJob) (message : String) (d : ProgressDetails) (now : Time) : WorkJob :=
  { j with
    progressPhase := truncate 50 (orText d.phase (orText j.progressPhase "working"))
    progressCurrent := (orInt d.processed d.current).toNat
    progressTotal := d.total.toNat
    progressUnit := truncate 30 (orText d.unit (orText j.progressUnit "items"))
    progressBytes := (orInt d.bytes j.progressBytes).toNat
    progressMessage := truncate 4000 message
    progressUpdatedAt := some now
    updatedAt := now }

/-- Whether `progress` records an event between the rows `j` and `j'`. -/
def isMilestone (j j' : WorkJob) : Bool :=
  j.progressPhase != j'.progressPhase || j.progressTotal != j'.progressTotal ||
    progressBucket j.progressCurrent j.progressTotal !=
      progressBucket j'.progressCurrent j'.progressTotal ||
    (j'.progressTotal != 0 && j'.progressTotal ≤ j'.progressCurrent &&
      (j.progressTotal == 0 || j.progressCurrent < j.progressTotal))

/-- `reroute` and `reroute_waiting`: wait again, for another provider. -/
def rerouteTo (j : WorkJob) (payload : JobPayload) (source : String) (availableAt : Time)
    (message : String) (now : Time) : WorkJob :=
  { j with
    payload := payload, source := strip source, pool := defaultPool j.kind (strip source),
    status := .retryWait, availableAt := availableAt, errorCode := "rerouted",
    errorMessage := truncate 4000 message, updatedAt := now }

end WorkJob

/-- Membership in `PROVIDER_RECOVERY_ERROR_CODES`. -/
def isRecoveryCode (code : String) : Bool :=
  code == "provider_origin_unavailable" || code == "source_http_error" ||
    code == "source_network_error"

namespace Queue

/-- The updates of `heartbeat`: the row, its permits and its reservation expire together. -/
def renewLease (s : Queue) (j : WorkJob) (owner : String) (leaseFor now : Time) : Queue :=
  { s.putJob (j.renew leaseFor now) with
    permits := s.permits.map fun p =>
      if p.jobId = j.id ∧ p.owner = owner then { p with leaseExpiresAt := now + leaseFor } else p
    reservations := s.reservations.map fun r =>
      if r.jobId = j.id ∧ r.owner = owner then { r with leaseExpiresAt := now + leaseFor } else r }

def heartbeat (s : Queue) (jobId : Nat) (owner : String) (leaseFor now : Time) :
    Except QueueError (Queue × Bool) :=
  if leaseFor ≤ 0 then .error .leaseForNotPositive
  else match s.selectHeld jobId owner now with
    | none => .ok (s, false)
    | some j => .ok (s.renewLease j owner leaseFor now, true)

def progress (s : Queue) (jobId : Nat) (owner message : String) (d : ProgressDetails)
    (now : Time) : Queue × Bool :=
  match s.selectHeld jobId owner now with
  | none => (s, false)
  | some j =>
    let j' := j.report message d now
    let s' := s.putJob j'
    (if j.isMilestone j' then s'.recordEvent j' .progress owner else s', true)

/-- `_finish`. -/
def finish (s : Queue) (jobId : Nat) (owner : String) (state : JobState) (event : EventType)
    (code message : String) (now : Time) : Queue × Bool :=
  match s.selectHeld jobId owner now with
  | none => (s, false)
  | some j =>
    match (if state = .succeeded then j.pendingPayload else none) with
    | some pending =>
      let j' := j.requeuePending pending now
      (((s.putJob j').releasePermits jobId).recordEvent j' .released owner, true)
    | none =>
      let j' := j.finish state code message now
      ((((s.putJob j').releasePermits jobId).recordEvent j' event owner).recordTerminalUnits
        s.jobs j' state now, true)

def succeed (s : Queue) (jobId : Nat) (owner : String) (now : Time) : Queue × Bool :=
  s.finish jobId owner .succeeded .succeeded "" "" now

def fail (s : Queue) (jobId : Nat) (owner code message : String) (now : Time) : Queue × Bool :=
  s.finish jobId owner .failed .failed code message now

/-- `retry`: the state the job is left in. -/
def retry (s : Queue) (jobId : Nat) (owner : String) (availableAt : Time) (code message : String)
    (now : Time) : Queue × Option JobState :=
  match s.selectHeld jobId owner now with
  | none => (s, none)
  | some j =>
    let j' := j.retry availableAt code message now
    let s' := (s.putJob j').releasePermits jobId
    if j.maxAttempts ≤ j.attempts then
      ((s'.recordEvent j' .failed owner).recordTerminalUnits s.jobs j' .failed now, some j'.status)
    else (s'.recordEvent j' .retryScheduled owner, some j'.status)

def cancel (s : Queue) (jobId : Nat) (reason : String) (now : Time) : Queue × Bool :=
  match s.selectActive jobId with
  | none => (s, false)
  | some j =>
    let j' := j.cancel reason now
    ((((s.putJob j').releasePermits jobId).recordEvent j' .cancelled j.leaseOwner
      ).recordTerminalUnits s.jobs j' .cancelled now, true)

def release (s : Queue) (jobId : Nat) (owner reason : String) (now : Time) : Queue × Bool :=
  match s.selectOwned jobId owner with
  | none => (s, false)
  | some j =>
    let j' := j.release reason now
    (((s.putJob j').releasePermits jobId).recordEvent j' .released owner, true)

def defer (s : Queue) (jobId : Nat) (owner : String) (availableAt : Time) (code message : String)
    (now : Time) : Queue × Bool :=
  match s.selectOwned jobId owner with
  | none => (s, false)
  | some j =>
    let j' := j.defer availableAt code message now
    (((s.putJob j').releasePermits jobId).recordEvent j' .retryScheduled owner, true)

def reroute (s : Queue) (jobId : Nat) (owner : String) (payload : JobPayload) (source : String)
    (availableAt : Time) (message : String) (now : Time) : Except QueueError (Queue × Bool) :=
  match s.selectOwned jobId owner with
  | none => .ok (s, false)
  | some j =>
    match parseJobPayload j.kind payload with
    | none => .error .invalidPayload
    | some validated =>
      let j' := j.clearLease.rerouteTo validated source availableAt message now
      .ok (((s.putJob j').releasePermits jobId).recordEvent j' .rerouted owner, true)

def rerouteWaiting (s : Queue) (jobId : Nat) (payload : JobPayload) (source : String)
    (availableAt : Time) (message : String) (now : Time) : Except QueueError (Queue × Bool) :=
  match s.selectWaiting jobId with
  | none => .ok (s, false)
  | some j =>
    match parseJobPayload j.kind payload with
    | none => .error .invalidPayload
    | some validated =>
      let j' := j.rerouteTo validated source availableAt message now
      .ok ((s.putJob j').recordEvent j' .rerouted, true)

def retryNow (s : Queue) (jobId : Nat) (now : Time) : Queue × Bool :=
  match (s.selectWaiting jobId).filter fun j => j.status == .retryWait with
  | none => (s, false)
  | some j => ((s.putJob (j.retryNow now)).recordEvent (j.retryNow now) .released, true)

/-- The rows `resume_recovered_provider` releases. -/
def deferredByOutage (s : Queue) (source : String) (now : Time) : List WorkJob :=
  s.jobs.filter fun j => j.source == source && j.status == .retryWait && now < j.availableAt &&
    isRecoveryCode j.errorCode

def resumeRecoveredProvider (s : Queue) (source : String) (now : Time) : Queue × Nat :=
  let jobs := s.deferredByOutage source now
  (jobs.foldl (fun s j => (s.putJob (j.resume now)).recordEvent (j.resume now) .released) s,
    jobs.length)

/-- `_fail_expired_job`; `rows` as in `recordTerminalUnits`. -/
def failExpiredJob (s : Queue) (rows : List WorkJob) (j : WorkJob) (now : Time) : Queue :=
  let j' := j.failExpired now
  (((s.putJob j').recordEvent j' .leaseExpired j.leaseOwner).releasePermits j.id
    ).recordTerminalUnits rows j' .failed now

/-- The rows `fail_exhausted_leases` ends. -/
def exhaustedLeases (s : Queue) (now : Time) : List WorkJob :=
  s.jobs.filter fun j => j.status == .leased && j.leaseExpired now && j.maxAttempts ≤ j.attempts

def failExhaustedLeases (s : Queue) (now : Time) : Queue × Nat :=
  let jobs := s.exhaustedLeases now
  (jobs.foldl (fun q j => q.failExpiredJob s.jobs j now) s, jobs.length)

def cleanupExpiredPermits (s : Queue) (now : Time) : Queue × Nat :=
  let kept := s.permits.filter fun p => now < p.leaseExpiresAt
  ({ s with permits := kept }, s.permits.length - kept.length)

end Queue

end MangaManager
