import MangaManager.Lib.ReadCommitted
import MangaManager.Queue.Claim

/-!
# Queue calls as transactions

The calls of `JobQueue` as their statements: what they read, which rows they lock and
what they write, so that several sessions can run them beside each other. The tables
are those of jobs and cycles; permits, reservations and events count no units and are
left out.

The session does not autoflush. A changed object is written when the call flushes, and
only the columns that differ from the loaded ones are (`WorkJob.flush`,
`WorkloadCycle.flush`). `_active_cycle` locks the cycle it returns, `recordTerminalUnits`
and the coalescing branch of `enqueue` load it with a plain `session.get`.
-/

namespace MangaManager

open Lib ReadCommitted

/-- The counters of a cycle. -/
inductive UnitCounter where
  | total
  | successful
  | failed
  | cancelled
  deriving DecidableEq

/-- The counter `_record_terminal_units` increments. -/
def JobState.counter : JobState → Option UnitCounter
  | succeeded => some .successful
  | failed => some .failed
  | cancelled => some .cancelled
  | queued | leased | retryWait => none

/-- Units that a call counted on a cycle. -/
structure BookedUnits where
  cycleId : Nat
  counter : UnitCounter
  units : Nat
  deriving DecidableEq

/-- The tables, and the units of the calls that were committed, which no code reads. -/
structure CycleTables where
  queue : Queue := {}
  booked : List BookedUnits := []
  deriving DecidableEq

/-- How a call ended. -/
inductive CallResult where
  | ended (found : Bool)
  | retried (state : Option JobState)
  | swept (n : Nat)
  | enqueued (jobId : Nat) (created : Bool)
  | raised (e : QueueError)
  deriving DecidableEq

/-! ## What a flush writes -/

/-- A column of the row, after the flush of an object that was loaded with `loaded`. -/
def flushColumn {α : Type*} [DecidableEq α] (loaded written row : α) : α :=
  if loaded = written then row else written

/-- The `UPDATE` of a job. -/
def WorkJob.flush (loaded written row : WorkJob) : WorkJob :=
  { row with
    payload := flushColumn loaded.payload written.payload row.payload
    source := flushColumn loaded.source written.source row.source
    pool := flushColumn loaded.pool written.pool row.pool
    logicalUnits := flushColumn loaded.logicalUnits written.logicalUnits row.logicalUnits
    pendingPayload :=
      flushColumn loaded.pendingPayload written.pendingPayload row.pendingPayload
    status := flushColumn loaded.status written.status row.status
    priority := flushColumn loaded.priority written.priority row.priority
    attempts := flushColumn loaded.attempts written.attempts row.attempts
    maxAttempts := flushColumn loaded.maxAttempts written.maxAttempts row.maxAttempts
    availableAt := flushColumn loaded.availableAt written.availableAt row.availableAt
    leaseOwner := flushColumn loaded.leaseOwner written.leaseOwner row.leaseOwner
    leaseExpiresAt :=
      flushColumn loaded.leaseExpiresAt written.leaseExpiresAt row.leaseExpiresAt
    heartbeatAt := flushColumn loaded.heartbeatAt written.heartbeatAt row.heartbeatAt
    errorCode := flushColumn loaded.errorCode written.errorCode row.errorCode
    errorMessage := flushColumn loaded.errorMessage written.errorMessage row.errorMessage
    updatedAt := flushColumn loaded.updatedAt written.updatedAt row.updatedAt
    completedAt := flushColumn loaded.completedAt written.completedAt row.completedAt
    progressPhase := flushColumn loaded.progressPhase written.progressPhase row.progressPhase
    progressCurrent :=
      flushColumn loaded.progressCurrent written.progressCurrent row.progressCurrent
    progressTotal := flushColumn loaded.progressTotal written.progressTotal row.progressTotal
    progressUnit := flushColumn loaded.progressUnit written.progressUnit row.progressUnit
    progressBytes := flushColumn loaded.progressBytes written.progressBytes row.progressBytes
    progressMessage :=
      flushColumn loaded.progressMessage written.progressMessage row.progressMessage
    progressUpdatedAt :=
      flushColumn loaded.progressUpdatedAt written.progressUpdatedAt row.progressUpdatedAt }

/-- The `UPDATE` of a cycle. -/
def WorkloadCycle.flush (loaded written row : WorkloadCycle) : WorkloadCycle :=
  { row with
    status := flushColumn loaded.status written.status row.status
    totalUnits := flushColumn loaded.totalUnits written.totalUnits row.totalUnits
    successfulUnits :=
      flushColumn loaded.successfulUnits written.successfulUnits row.successfulUnits
    failedUnits := flushColumn loaded.failedUnits written.failedUnits row.failedUnits
    cancelledUnits :=
      flushColumn loaded.cancelledUnits written.cancelledUnits row.cancelledUnits
    addedUnits := flushColumn loaded.addedUnits written.addedUnits row.addedUnits
    updatedAt := flushColumn loaded.updatedAt written.updatedAt row.updatedAt
    settledAt := flushColumn loaded.settledAt written.settledAt row.settledAt }

/-- What the statements write. -/
inductive CycleChange where
  | updateJob (loaded written : WorkJob)
  | insertJob (j : WorkJob)
  | updateCycle (loaded written : WorkloadCycle) (booked : List BookedUnits)
  | insertCycle (c : WorkloadCycle)

/-- What the statements lock: rows, the unique key of the active jobs, and the advisory lock of
`_active_cycle`. -/
inductive CycleKey where
  | job (id : Nat)
  | cycle (id : Nat)
  | dedupe (kind : JobKind) (key : String)
  | activeCycle
  deriving DecidableEq

namespace CycleTables

variable (db : CycleTables)

def job? (id : Nat) : Option WorkJob := db.queue.job? id

def cycle? (id : Nat) : Option WorkloadCycle := Table.get WorkloadCycle.id db.queue.cycles id

def apply : CycleChange → CycleTables
  | .updateJob loaded written =>
    { db with queue.jobs := db.queue.jobs.map fun row =>
        if row.id = loaded.id then loaded.flush written row else row }
  | .insertJob j => { db with queue.jobs := db.queue.jobs ++ [j] }
  | .updateCycle loaded written booked =>
    { db with
      queue.cycles := db.queue.cycles.map fun row =>
        if row.id = loaded.id then loaded.flush written row else row
      booked := db.booked ++ booked }
  | .insertCycle c => { db with queue.cycles := db.queue.cycles ++ [c] }

end CycleTables

/-- The rows and keys a change locks. -/
def CycleChange.keys : CycleChange → List CycleKey
  | updateJob loaded _ => [.job loaded.id]
  | insertJob j => [.job j.id, .dedupe j.kind j.dedupeKey]
  | updateCycle loaded _ _ => [.cycle loaded.id]
  | insertCycle c => [.cycle c.id]

/-- The program of a call. -/
abbrev CycleProg := Prog CycleTables CycleKey CycleChange CallResult

abbrev CycleThread := Thread CycleTables CycleKey CycleChange CallResult

/-! ## Statements -/

/-- `SELECT ... FOR UPDATE`: a row that qualifies is waited for, and must still qualify then. -/
def selectForUpdate (id : Nat) (query : Queue → Option WorkJob)
    (next : Option WorkJob → CycleProg) : CycleProg :=
  .read fun db => match query db.queue with
    | none => next none
    | some _ => .lock (.job id) fun db => next (query db.queue)

/-- `SELECT ... FOR UPDATE SKIP LOCKED` of several rows: those whose lock was free. -/
def selectSkipLocked (query : Queue → Nat → Option WorkJob) (next : List WorkJob → CycleProg) :
    List Nat → List WorkJob → CycleProg
  | [], found => next found
  | id :: ids, found => .lock (.job id) fun db =>
    selectSkipLocked query next ids (found ++ (query db.queue id).toList)

/-- The flush of a job. -/
def flushJob (loaded written : WorkJob) (next : CycleProg) : CycleProg :=
  if loaded = written then next else .write (.updateJob loaded written) next

/-- A cycle in the identity map of the session: as it was loaded, and what it has become. -/
structure LoadedCycle where
  loaded : WorkloadCycle
  current : WorkloadCycle
  booked : List BookedUnits := []

/-- The flush of the cycles. -/
def flushCycles : List LoadedCycle → CycleProg → CycleProg
  | [], next => next
  | c :: cs, next => .write (.updateCycle c.loaded c.current c.booked) (flushCycles cs next)

/-- `session.get(WorkloadCycle, id)`. -/
def getCycle (cycles : List LoadedCycle) (id : Nat) (next : Option LoadedCycle → CycleProg) :
    CycleProg :=
  match Table.get (fun c => c.loaded.id) cycles id with
  | some c => next (some c)
  | none => .read fun db => next ((db.cycle? id).map fun c => { loaded := c, current := c })

/-- The cycle after `_record_terminal_units`; `rows` are the jobs that its count sees. -/
def LoadedCycle.settle (c : LoadedCycle) (rows : List WorkJob) (j : WorkJob) (state : JobState)
    (now : Time) : LoadedCycle :=
  { c with
    current := Queue.settleUnits c.current rows j state now
    booked := c.booked ++ state.counter.toList.map fun k => ⟨c.loaded.id, k, max j.logicalUnits 1⟩ }

/-- `_record_terminal_units`. -/
def recordTerminalUnits (cycles : List LoadedCycle) (j : WorkJob) (state : JobState) (now : Time)
    (next : List LoadedCycle → CycleProg) : CycleProg :=
  match j.cycleId with
  | none => next cycles
  | some id => getCycle cycles id fun
    | none => next cycles
    | some c => .read fun db =>
      next (cycles.filter (·.loaded.id != id) ++ [c.settle db.queue.jobs j state now])

/-! ## The end of a job -/

/-- The loaded row `j` ends as `j'`. -/
def endJob (j j' : WorkJob) (state : JobState) (now : Time) (result : CallResult) : CycleProg :=
  recordTerminalUnits [] j' state now fun cycles =>
    .write (.updateJob j j') (flushCycles cycles (.commit result))

/-- `_finish`. -/
def finishCall (jobId : Nat) (owner : String) (state : JobState) (code message : String)
    (now : Time) : CycleProg :=
  selectForUpdate jobId (·.selectHeld jobId owner now) fun
    | none => .commit (.ended false)
    | some j => match if state = .succeeded then j.pendingPayload else none with
      | some pending => .write (.updateJob j (j.requeuePending pending now)) (.commit (.ended true))
      | none => endJob j (j.finish state code message now) state now (.ended true)

/-- `retry`. -/
def retryCall (jobId : Nat) (owner : String) (availableAt : Time) (code message : String)
    (now : Time) : CycleProg :=
  selectForUpdate jobId (·.selectHeld jobId owner now) fun
    | none => .commit (.retried none)
    | some j =>
      let j' := j.retry availableAt code message now
      if j.maxAttempts ≤ j.attempts then endJob j j' .failed now (.retried (some j'.status))
      else .write (.updateJob j j') (.commit (.retried (some j'.status)))

/-- `cancel`. -/
def cancelCall (jobId : Nat) (reason : String) (now : Time) : CycleProg :=
  selectForUpdate jobId (·.selectActive jobId) fun
    | none => .commit (.ended false)
    | some j => endJob j (j.cancel reason now) .cancelled now (.ended true)

/-- The flush of the jobs that `fail_exhausted_leases` ended. -/
def flushExpired (now : Time) : List WorkJob → CycleProg → CycleProg
  | [], next => next
  | j :: js, next => .write (.updateJob j (j.failExpired now)) (flushExpired now js next)

/-- The loop of `fail_exhausted_leases`. -/
def failExpiredJobs (now : Time) (jobs : List WorkJob) :
    List WorkJob → List LoadedCycle → CycleProg
  | [], cycles => flushExpired now jobs (flushCycles cycles (.commit (.swept jobs.length)))
  | j :: js, cycles => recordTerminalUnits cycles (j.failExpired now) .failed now
      (failExpiredJobs now jobs js)

/-- A row of `exhaustedLeases`. -/
def Queue.selectExhausted (s : Queue) (now : Time) (id : Nat) : Option WorkJob :=
  Table.get WorkJob.id (s.exhaustedLeases now) id

/-- `fail_exhausted_leases`; other transactions have the rows of `skipped`. -/
def failExhaustedCall (skipped : List Nat) (now : Time) : CycleProg :=
  .read fun db => selectSkipLocked (·.selectExhausted now)
    (fun jobs => failExpiredJobs now jobs jobs [])
    (((db.queue.exhaustedLeases now).map (·.id)).filter (· ∉ skipped)) []

/-! ## Requests -/

/-- The cycle with `n` more units. -/
def WorkloadCycle.grow (c : WorkloadCycle) (n : Nat) (now : Time) : WorkloadCycle :=
  { c with totalUnits := c.totalUnits + n, addedUnits := c.addedUnits + n, updatedAt := now }

/-- `cycle.total_units += n`, flushColumn. -/
def growCycle (c : WorkloadCycle) (n : Nat) (now : Time) (next : CycleProg) : CycleProg :=
  .write (.updateCycle c (c.grow n now) [⟨c.id, .total, n⟩]) next

/-- `enqueue` when the key has the active job `e`. -/
def coalesceCall (a : EnqueueArgs) (e : WorkJob) (now : Time) : CycleProg :=
  let result := .commit (.enqueued e.id false)
  match if a.coalesce then coalesceInto a now (e.repool a.routedPool now) else none with
  | none => flushJob e (e.repool a.routedPool now) result
  | some (e', 0) => flushJob e e' result
  | some (e', n + 1) => match e'.cycleId with
    | none => flushJob e e' result
    | some id => .read fun db => match db.cycle? id with
      | none => flushJob e e' result
      | some c => flushJob e e' (growCycle c (n + 1) now result)

/-- The active cycles of the query, newest first, until one is still active under its lock. -/
def lockActiveCycle (next : Option WorkloadCycle → CycleProg) : List Nat → CycleProg
  | [] => next none
  | id :: ids => .lock (.cycle id) fun db =>
    match (db.cycle? id).filter (·.status == .active) with
    | some c => next (some c)
    | none => lockActiveCycle next ids

/-- A new cycle; the sequence of the table gave it its id. -/
def newCycle (cycleId : Nat) (now : Time) (next : WorkloadCycle → CycleProg) : CycleProg :=
  .lock (.cycle cycleId) fun db => match db.cycle? cycleId with
    | some _ => .raise (.raised (.integrity "workload_cycle_pkey"))
    | none =>
      let c : WorkloadCycle := { id := cycleId, startedAt := now, updatedAt := now }
      .write (.insertCycle c) (next c)

/-- `_active_cycle`. -/
def activeCycleCall (cycleId : Nat) (now : Time) (next : WorkloadCycle → CycleProg) : CycleProg :=
  .lock .activeCycle fun _ => .read fun db =>
    lockActiveCycle (fun
      | none => newCycle cycleId now next
      | some c => .read fun db =>
        if db.queue.activeInCycle c.id = 0 then
          .write (.updateCycle c
            { c with status := .settled, settledAt := some now, updatedAt := now } [])
            (newCycle cycleId now next)
        else next c)
      ((db.queue.cycles.filter (·.status == .active)).map (·.id)).reverse

/-- `enqueue` when the key has no active job: the insertion in its savepoint, and the branch of
the `IntegrityError`. -/
def insertCall (a : EnqueueArgs) (jobId : Nat) (now : Time) (c : WorkloadCycle) : CycleProg :=
  .lock (.dedupe a.kind (strip a.dedupeKey)) fun db =>
    match db.queue.activeJob a.kind (strip a.dedupeKey) with
    | some _ => .read fun db => match db.queue.activeJob a.kind (strip a.dedupeKey) with
      | none => .raise (.raised (.integrity "uq_job_active_dedupe"))
      | some e => .commit (.enqueued e.id false)
    | none => .lock (.job jobId) fun db => match db.job? jobId with
      | some _ => .raise (.raised (.integrity "job_pkey"))
      | none =>
        let j := { db.queue with nextJob := jobId }.newJob a c now
        .write (.insertJob j) (growCycle c j.logicalUnits now (.commit (.enqueued jobId true)))

/-- `enqueue`; `jobId` and `cycleId` are the next values of the sequences. -/
def enqueueCall (a : EnqueueArgs) (jobId cycleId : Nat) (now : Time) : CycleProg :=
  match Queue.checkEnqueue a with
  | .error e => .raise (.raised e)
  | .ok () => .read fun db => match db.queue.activeJob a.kind (strip a.dedupeKey) with
    | some e => coalesceCall a e now
    | none => activeCycleCall cycleId now (insertCall a jobId now)

/-! ## The other calls -/

/-- A call that changes one row and ends no job. -/
def changeJob (jobId : Nat) (query : Queue → Option WorkJob) (change : WorkJob → WorkJob) :
    CycleProg :=
  selectForUpdate jobId query fun
    | none => .commit (.ended false)
    | some j => .write (.updateJob j (change j)) (.commit (.ended true))

/-- `claim` of the row `jobId`; `Queue.claim` says which row that is. -/
def claimRowCall (jobId : Nat) (owner : String) (leaseFor now : Time) : CycleProg :=
  if strip owner = "" then .raise (.raised .emptyOwner)
  else if leaseFor ≤ 0 then .raise (.raised .leaseForNotPositive)
  else changeJob jobId (fun s => (s.job? jobId).filter fun j =>
      (j.ready now || j.expired now) && j.attempts < j.maxAttempts)
    fun j => (Queue.repoolRefresh j).lease (strip owner) leaseFor now

/-- `heartbeat`. -/
def heartbeatCall (jobId : Nat) (owner : String) (leaseFor now : Time) : CycleProg :=
  if leaseFor ≤ 0 then .raise (.raised .leaseForNotPositive)
  else changeJob jobId (·.selectHeld jobId owner now) (·.renew leaseFor now)

/-- `progress`, which loads the row without a lock. -/
def progressCall (jobId : Nat) (owner message : String) (d : ProgressDetails) (now : Time) :
    CycleProg :=
  .read fun db => match db.queue.selectHeld jobId owner now with
    | none => .commit (.ended false)
    | some j => flushJob j (j.report message d now) (.commit (.ended true))

/-- `reroute` and `reroute_waiting`. -/
def rerouteCall (jobId : Nat) (query : Queue → Option WorkJob) (clear : WorkJob → WorkJob)
    (payload : JobPayload) (source : String) (availableAt : Time) (message : String) (now : Time) :
    CycleProg :=
  selectForUpdate jobId query fun
    | none => .commit (.ended false)
    | some j => match parseJobPayload j.kind payload with
      | none => .raise (.raised .invalidPayload)
      | some p => .write (.updateJob j ((clear j).rerouteTo p source availableAt message now))
          (.commit (.ended true))

/-- The flush of `resume_recovered_provider`. -/
def flushResumed (now : Time) (n : Nat) : List WorkJob → CycleProg
  | [] => .commit (.swept n)
  | j :: js => .write (.updateJob j (j.resume now)) (flushResumed now n js)

/-- `resume_recovered_provider`. -/
def resumeCall (source : String) (skipped : List Nat) (now : Time) : CycleProg :=
  .read fun db => selectSkipLocked (fun s => Table.get WorkJob.id (s.deferredByOutage source now))
    (fun jobs => flushResumed now jobs.length jobs)
    (((db.queue.deferredByOutage source now).map (·.id)).filter (· ∉ skipped)) []

/-- The calls of the queue. -/
inductive CycleCall where
  | enqueue (a : EnqueueArgs) (jobId cycleId : Nat)
  | succeed (jobId : Nat) (owner : String)
  | fail (jobId : Nat) (owner code message : String)
  | retry (jobId : Nat) (owner : String) (availableAt : Time) (code message : String)
  | cancel (jobId : Nat) (reason : String)
  | failExhaustedLeases (skipped : List Nat)
  | claim (jobId : Nat) (owner : String) (leaseFor : Time)
  | heartbeat (jobId : Nat) (owner : String) (leaseFor : Time)
  | progress (jobId : Nat) (owner message : String) (d : ProgressDetails)
  | release (jobId : Nat) (owner reason : String)
  | defer (jobId : Nat) (owner : String) (availableAt : Time) (code message : String)
  | reroute (jobId : Nat) (owner : String) (payload : JobPayload) (source : String)
      (availableAt : Time) (message : String)
  | rerouteWaiting (jobId : Nat) (payload : JobPayload) (source : String) (availableAt : Time)
      (message : String)
  | retryNow (jobId : Nat)
  | resumeRecoveredProvider (source : String) (skipped : List Nat)

def CycleCall.prog (now : Time) : CycleCall → CycleProg
  | enqueue a jobId cycleId => enqueueCall a jobId cycleId now
  | succeed jobId owner => finishCall jobId owner .succeeded "" "" now
  | fail jobId owner code message => finishCall jobId owner .failed code message now
  | retry jobId owner availableAt code message => retryCall jobId owner availableAt code message now
  | cancel jobId reason => cancelCall jobId reason now
  | failExhaustedLeases skipped => failExhaustedCall skipped now
  | claim jobId owner leaseFor => claimRowCall jobId owner leaseFor now
  | heartbeat jobId owner leaseFor => heartbeatCall jobId owner leaseFor now
  | progress jobId owner message d => progressCall jobId owner message d now
  | release jobId owner reason =>
    changeJob jobId (·.selectOwned jobId owner) (·.release reason now)
  | defer jobId owner availableAt code message =>
    changeJob jobId (·.selectOwned jobId owner) (·.defer availableAt code message now)
  | reroute jobId owner payload source availableAt message =>
    rerouteCall jobId (·.selectOwned jobId owner) (·.clearLease) payload source availableAt message
      now
  | rerouteWaiting jobId payload source availableAt message =>
    rerouteCall jobId (·.selectWaiting jobId) id payload source availableAt message now
  | retryNow jobId =>
    changeJob jobId (fun s => (s.selectWaiting jobId).filter fun j => j.status == .retryWait)
      (·.retryNow now)
  | resumeRecoveredProvider source skipped => resumeCall source skipped now

/-- A call in a transaction of its own. -/
def CycleCall.thread (x : CycleCall × Time) : CycleThread :=
  .transact (x.1.prog x.2) fun _ => .stop

end MangaManager
