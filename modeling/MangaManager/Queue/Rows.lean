import MangaManager.Domain.Jobs
import MangaManager.Lib.Table

/-!
# The queue's tables

Rows of `manga_manager/infrastructure/db_models.py` that `JobQueue` reads and
writes, and the changes its methods make to one row. An absent JSON payload
(`{}`) is `none`. A method is one transaction: it maps the committed tables to
the tables after its commit.

`Queue.select*` are the guarded lookups of the methods (`WHERE id = … AND status
= … AND lease_owner = …`), `Queue.releasePermits` is `_release_permits`, and
`Queue.recordTerminalUnits` is `_record_terminal_units`.
-/

namespace MangaManager

open Lib

/-- A row of `job`. -/
structure WorkJob where
  id : Nat
  kind : JobKind
  dedupeKey : String
  payload : JobPayload
  source : String
  seriesKey : String
  pool : String
  cycleId : Option Nat
  workflowKey : String
  groupKey : String
  logicalUnits : Nat
  pendingPayload : Option JobPayload := none
  status : JobState := .queued
  priority : Int
  attempts : Nat := 0
  maxAttempts : Nat
  availableAt : Time
  leaseOwner : String := ""
  leaseExpiresAt : Option Time := none
  heartbeatAt : Option Time := none
  errorCode : String := ""
  errorMessage : String := ""
  createdAt : Time
  updatedAt : Time
  completedAt : Option Time := none
  progressPhase : String := ""
  progressCurrent : Nat := 0
  progressTotal : Nat := 0
  progressUnit : String := ""
  progressBytes : Nat := 0
  progressMessage : String := ""
  progressUpdatedAt : Option Time := none
  deriving DecidableEq

inductive CycleStatus where
  | active
  | settled
  deriving DecidableEq, Repr

/-- A row of `workload_cycle`. -/
structure WorkloadCycle where
  id : Nat
  status : CycleStatus := .active
  totalUnits : Nat := 0
  successfulUnits : Nat := 0
  failedUnits : Nat := 0
  cancelledUnits : Nat := 0
  addedUnits : Nat := 0
  startedAt : Time
  updatedAt : Time
  settledAt : Option Time := none
  deriving DecidableEq

/-- A row of `job_permit`. -/
structure JobPermit where
  jobId : Nat
  pool : String
  owner : String
  leaseExpiresAt : Time
  deriving DecidableEq

/-- A row of `storage_reservation`. -/
structure StorageReservation where
  jobId : Nat
  owner : String
  reservedBytes : Nat
  leaseExpiresAt : Time
  deriving DecidableEq

inductive EventType where
  | enqueued
  | rerouted
  | released
  | leased
  | leaseExpired
  | succeeded
  | failed
  | retryScheduled
  | cancelled
  | progress
  deriving DecidableEq, Repr

/-- A row of `job_event`. -/
structure JobEvent where
  jobId : Nat
  eventType : EventType
  status : JobState
  owner : String
  deriving DecidableEq

/-- The queue's tables, with the next values of the two id sequences. -/
structure Queue where
  jobs : List WorkJob := []
  permits : List JobPermit := []
  reservations : List StorageReservation := []
  cycles : List WorkloadCycle := []
  events : List JobEvent := []
  nextJob : Nat := 1
  nextCycle : Nat := 1
  deriving DecidableEq

inductive QueueError where
  | emptyDedupeKey
  | maxAttemptsTooSmall
  | invalidPayload
  | emptyOwner
  | leaseForNotPositive
  | integrity (constraint : String)
  deriving DecidableEq, Repr

/-- The text of the exception. -/
def QueueError.message : QueueError → String
  | emptyDedupeKey => "dedupe_key must not be empty"
  | maxAttemptsTooSmall => "max_attempts must be at least 1"
  | invalidPayload => "validation error"
  | emptyOwner => "owner must not be empty"
  | leaseForNotPositive => "lease_for must be positive"
  | integrity c => "duplicate key value violates unique constraint " ++ c

/-! ## One job row -/

namespace WorkJob

/-- `lease_expires_at > now`; not true of a null. -/
def leaseAfter (j : WorkJob) (now : Time) : Bool := j.leaseExpiresAt.any fun e => now < e

/-- `lease_expires_at IS NOT NULL AND lease_expires_at <= now`. -/
def leaseExpired (j : WorkJob) (now : Time) : Bool := j.leaseExpiresAt.any fun e => e ≤ now

/-- An unexpired lease at `now`. -/
def Live (j : WorkJob) (now : Time) : Prop :=
  j.status = .leased ∧ ∃ e, j.leaseExpiresAt = some e ∧ now < e

theorem leaseAfter_iff {j : WorkJob} {now : Time} :
    j.leaseAfter now = true ↔ ∃ e, j.leaseExpiresAt = some e ∧ now < e := by
  cases h : j.leaseExpiresAt <;> simp [leaseAfter, h]

theorem leaseExpired_iff {j : WorkJob} {now : Time} :
    j.leaseExpired now = true ↔ ∃ e, j.leaseExpiresAt = some e ∧ e ≤ now := by
  cases h : j.leaseExpiresAt <;> simp [leaseExpired, h]

instance (j : WorkJob) (now : Time) : Decidable (j.Live now) :=
  decidable_of_iff (j.status = .leased ∧ j.leaseAfter now = true) (by rw [leaseAfter_iff, Live])

/-- `lease_owner = ""`, `lease_expires_at = None`, `heartbeat_at = None`. -/
def clearLease (j : WorkJob) : WorkJob :=
  { j with leaseOwner := "", leaseExpiresAt := none, heartbeatAt := none }

/-- `heartbeat`. -/
def renew (j : WorkJob) (leaseFor now : Time) : WorkJob :=
  { j with heartbeatAt := some now, leaseExpiresAt := some (now + leaseFor), updatedAt := now }

/-- The end of `claim`. -/
def lease (j : WorkJob) (owner : String) (leaseFor now : Time) : WorkJob :=
  { j with
    status := .leased, attempts := j.attempts + 1, leaseOwner := owner,
    leaseExpiresAt := some (now + leaseFor), heartbeatAt := some now,
    errorCode := "", errorMessage := "", updatedAt := now }

/-- `_finish` when a success meets a pending payload: the job runs again with it. -/
def requeuePending (j : WorkJob) (pending : JobPayload) (now : Time) : WorkJob :=
  { j.clearLease with
    payload := pending, pendingPayload := none, status := .queued, availableAt := now,
    errorCode := "coalesced_observation",
    errorMessage := "a newer provider observation was coalesced while leased",
    updatedAt := now }

/-- `_finish` otherwise. -/
def finish (j : WorkJob) (state : JobState) (code message : String) (now : Time) : WorkJob :=
  { j.clearLease with
    status := state, errorCode := code, errorMessage := message, updatedAt := now,
    completedAt := some now }

/-- `retry`: terminal once the attempts are used up. -/
def retry (j : WorkJob) (availableAt : Time) (code message : String) (now : Time) : WorkJob :=
  let terminal := j.maxAttempts ≤ j.attempts
  { j.clearLease with
    status := if terminal then .failed else .retryWait, availableAt := availableAt,
    errorCode := code, errorMessage := message, updatedAt := now,
    completedAt := if terminal then some now else none }

def cancel (j : WorkJob) (reason : String) (now : Time) : WorkJob :=
  { j.clearLease with
    status := .cancelled, errorCode := "cancelled", errorMessage := reason, updatedAt := now,
    completedAt := some now }

def release (j : WorkJob) (reason : String) (now : Time) : WorkJob :=
  { j.clearLease with
    status := .queued, attempts := j.attempts - 1, availableAt := now,
    errorCode := "released", errorMessage := reason, updatedAt := now }

def defer (j : WorkJob) (availableAt : Time) (code message : String) (now : Time) : WorkJob :=
  { j.clearLease with
    status := .retryWait, attempts := j.attempts - 1, availableAt := availableAt,
    errorCode := code, errorMessage := message, updatedAt := now }

/-- `_fail_expired_job`. -/
def failExpired (j : WorkJob) (now : Time) : WorkJob :=
  { j.clearLease with
    status := .failed, errorCode := "lease_expired",
    errorMessage := "job lease expired after its final attempt", updatedAt := now,
    completedAt := some now }

/-- `retry_now`. -/
def retryNow (j : WorkJob) (now : Time) : WorkJob :=
  { j with status := .queued, availableAt := now, updatedAt := now, completedAt := none }

/-- One row of `resume_recovered_provider`. -/
def resume (j : WorkJob) (now : Time) : WorkJob :=
  { j with availableAt := now, errorCode := "", errorMessage := "", updatedAt := now }

end WorkJob

/-! ## The tables -/

namespace Queue

/-- Write a job row back. -/
def putJob (s : Queue) (j : WorkJob) : Queue := { s with jobs := Table.put WorkJob.id s.jobs j }

def job? (s : Queue) (id : Nat) : Option WorkJob := Table.get WorkJob.id s.jobs id

def recordEvent (s : Queue) (j : WorkJob) (type : EventType) (owner : String := "") : Queue :=
  { s with events := s.events ++ [⟨j.id, type, j.status, owner⟩] }

/-- `_release_permits`. -/
def releasePermits (s : Queue) (jobId : Nat) : Queue :=
  { s with
    permits := s.permits.filter fun p => p.jobId != jobId
    reservations := s.reservations.filter fun r => r.jobId != jobId }

/-- `total_units += n; added_units += n` on a job's cycle, when `n > 0` and the cycle exists. -/
def growCycles (cycles : List WorkloadCycle) (cycleId : Option Nat) (n : Nat) (now : Time) :
    List WorkloadCycle :=
  if n = 0 then cycles
  else match cycleId.bind (Table.get WorkloadCycle.id cycles) with
    | none => cycles
    | some c =>
      Table.put WorkloadCycle.id cycles
        { c with
          totalUnits := c.totalUnits + n, addedUnits := c.addedUnits + n, updatedAt := now }

def addUnits (s : Queue) (cycleId : Option Nat) (n : Nat) (now : Time) : Queue :=
  { s with cycles := growCycles s.cycles cycleId n now }

/-- Active jobs of a cycle other than `j`, among the rows a statement sees. -/
def remaining (rows : List WorkJob) (cycleId : Nat) (j : WorkJob) : Nat :=
  (rows.filter fun r => r.cycleId == some cycleId && r.id != j.id && r.status.isActive).length

/-- The cycle row after `_record_terminal_units`. -/
def settleUnits (c : WorkloadCycle) (rows : List WorkJob) (j : WorkJob) (state : JobState)
    (now : Time) : WorkloadCycle :=
  let units := max j.logicalUnits 1
  { c with
    successfulUnits := c.successfulUnits + if state = .succeeded then units else 0
    failedUnits := c.failedUnits + if state = .failed then units else 0
    cancelledUnits := c.cancelledUnits + if state = .cancelled then units else 0
    updatedAt := now
    status := if remaining rows c.id j = 0 then .settled else c.status
    settledAt := if remaining rows c.id j = 0 then some now else c.settledAt }

def settleCycles (cycles : List WorkloadCycle) (rows : List WorkJob) (j : WorkJob)
    (state : JobState) (now : Time) : List WorkloadCycle :=
  match j.cycleId.bind (Table.get WorkloadCycle.id cycles) with
  | none => cycles
  | some c => Table.put WorkloadCycle.id cycles (settleUnits c rows j state now)

/-- `_record_terminal_units`. `rows` are the job rows its count sees: the session does not
autoflush, so they are the rows before the changes made in this transaction. -/
def recordTerminalUnits (s : Queue) (rows : List WorkJob) (j : WorkJob) (state : JobState)
    (now : Time) : Queue :=
  { s with cycles := settleCycles s.cycles rows j state now }

/-- `id = … AND status = 'leased' AND lease_owner = …`. -/
def selectOwned (s : Queue) (jobId : Nat) (owner : String) : Option WorkJob :=
  (s.job? jobId).filter fun j => j.status == .leased && j.leaseOwner == owner

/-- The same, `AND lease_expires_at > now`. -/
def selectHeld (s : Queue) (jobId : Nat) (owner : String) (now : Time) : Option WorkJob :=
  (s.job? jobId).filter fun j => j.status == .leased && j.leaseOwner == owner && j.leaseAfter now

/-- `id = … AND status IN ('queued', 'retry_wait')`. -/
def selectWaiting (s : Queue) (jobId : Nat) : Option WorkJob :=
  (s.job? jobId).filter fun j => j.status.isWaiting

/-- `id = … AND status IN` the active states. -/
def selectActive (s : Queue) (jobId : Nat) : Option WorkJob :=
  (s.job? jobId).filter fun j => j.status.isActive

theorem job?_some {s : Queue} {id : Nat} {j : WorkJob} (h : s.job? id = some j) :
    j ∈ s.jobs ∧ j.id = id := ⟨Table.get_mem h, Table.get_key h⟩

theorem job?_eq {s : Queue} {j : WorkJob} (hk : Table.Keyed WorkJob.id s.jobs) (hj : j ∈ s.jobs) :
    s.job? j.id = some j := hk.get_eq hj

theorem job?_putJob {s : Queue} {j r : WorkJob} (hj : j ∈ s.jobs) (h : j.id = r.id) :
    (s.putJob r).job? r.id = some r := Table.get_put_self hj h

theorem selectHeld_eq {s : Queue} {j : WorkJob} {now : Time} (hk : Table.Keyed WorkJob.id s.jobs)
    (hj : j ∈ s.jobs) (hl : j.Live now) : s.selectHeld j.id j.leaseOwner now = some j := by
  rw [selectHeld, job?_eq hk hj, Option.filter_some, if_pos]
  simp [hl.1, WorkJob.leaseAfter_iff.mpr hl.2]

theorem selectOwned_eq {s : Queue} {j : WorkJob} (hk : Table.Keyed WorkJob.id s.jobs)
    (hj : j ∈ s.jobs) (hl : j.status = .leased) : s.selectOwned j.id j.leaseOwner = some j := by
  rw [selectOwned, job?_eq hk hj, Option.filter_some, if_pos]
  simp [hl]

theorem selectOwned_some {s : Queue} {id : Nat} {o : String} {j : WorkJob}
    (h : s.selectOwned id o = some j) :
    s.job? id = some j ∧ j.status = .leased ∧ j.leaseOwner = o := by
  simpa [selectOwned, Option.filter_eq_some_iff] using h

theorem selectHeld_some {s : Queue} {id : Nat} {o : String} {now : Time} {j : WorkJob}
    (h : s.selectHeld id o now = some j) :
    s.job? id = some j ∧ j.Live now ∧ j.leaseOwner = o := by
  simp only [selectHeld, Option.filter_eq_some_iff, Bool.and_eq_true, beq_iff_eq] at h
  obtain ⟨hj, ⟨hs, ho⟩, he⟩ := h
  exact ⟨hj, ⟨hs, WorkJob.leaseAfter_iff.mp he⟩, ho⟩

theorem selectWaiting_some {s : Queue} {id : Nat} {j : WorkJob} (h : s.selectWaiting id = some j) :
    s.job? id = some j ∧ j.status.isWaiting = true := by
  simpa [selectWaiting, Option.filter_eq_some_iff] using h

theorem selectActive_some {s : Queue} {id : Nat} {j : WorkJob} (h : s.selectActive id = some j) :
    s.job? id = some j ∧ j.status.isActive = true := by
  simpa [selectActive, Option.filter_eq_some_iff] using h

end Queue

end MangaManager
