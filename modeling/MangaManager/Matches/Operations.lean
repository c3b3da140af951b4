import MangaManager.Lib.ReadCommitted
import MangaManager.Queue.Machine
import MangaManager.Series.Merge

/-!
# Match operations

`manga_manager/application/match_operations.py`: an accepted or rejected match is an
operation with a job, and reserves its series until it is over. Its handler runs three
transactions, `beginOperation`, `applyOperation` and, when that one raises,
`failOperation`; `reconcileStranded` ends the operations whose job cannot run any more,
and `enqueueOperation` starts new ones.

The statements of the transactions interleave as READ COMMITTED allows. A change of an
attribute to the value it was loaded with is not written. The merge is a parameter of
the handler: what the call raised, or the series that it left and the decisions that went
with the identities it deleted. A call of the queue is one step here.
-/

namespace MangaManager

open Lib ReadCommitted

def MatchAction.value : MatchAction → String
  | accepted => "accepted"
  | rejected => "rejected"

inductive MatchStatus where
  | queued
  | running
  | succeeded
  | failed
  deriving DecidableEq, Repr

/-- `ACTIVE_OPERATION_STATUSES`. -/
def MatchStatus.isActive : MatchStatus → Bool
  | queued | running => true
  | succeeded | failed => false

/-- A row of `match_operation`. -/
structure MatchOperation where
  id : Nat
  action : MatchAction
  status : MatchStatus := .queued
  representativeId : Nat
  decisionIds : List Nat
  proposalIds : List Nat
  seriesIds : List Nat
  jobId : Option Nat := none
  errorCode : String := ""
  errorMessage : String := ""
  updatedAt : Time
  completedAt : Option Time := none
  deriving DecidableEq

/-- The failure of the operation, which was loaded with the status `loaded`. -/
def MatchOperation.failWith (op : MatchOperation) (loaded : MatchStatus) (code message : String)
    (now : Time) : MatchOperation :=
  { op with
    status := if loaded = .failed then op.status else .failed
    errorCode := code, errorMessage := truncate 4000 message, updatedAt := now
    completedAt := some now }

/-- A row of `match_operation_series`. -/
structure MatchOperationSeries where
  operationId : Nat
  seriesId : Nat
  deriving DecidableEq

/-- The columns of `match_decision_v2` that a review writes. -/
structure ReviewedDecision where
  id : Nat
  decision : Decision := .pending
  decidedBy : String := ""
  decidedAt : Option Time := none
  deriving DecidableEq

/-- The tables of the operations; `series` are the ids of `series_v2`. `applied` records the
operations whose decisions or merge were committed, and no code reads it. -/
structure Matches where
  operations : List MatchOperation := []
  reservations : List MatchOperationSeries := []
  decisions : List ReviewedDecision := []
  series : List Nat := []
  queue : Queue := {}
  applied : List Nat := []

/-- An exception of a transaction. -/
inductive MatchError where
  | http (status : Nat) (detail : String)
  | other (typeName text : String)
  deriving DecidableEq

namespace MatchError

def code : MatchError → String
  | http status _ => "match_operation_http_" ++ toString status
  | other _ _ => "match_operation_failed"

def message : MatchError → String
  | http _ detail => orText (strip detail) "HTTPException"
  | other typeName text => orText (strip text) typeName

def ofMerge (e : SeriesMergeError) : MatchError :=
  match e.status with
  | some status => http status e.detail
  | none => other "ValueError" e.detail

end MatchError

/-- What `merge_canonical_series` did. -/
structure MergeEffect where
  target : Nat
  droppedDecisions : List Nat := []
  deriving DecidableEq

/-- How a transaction ended. -/
inductive MatchResult where
  | returned
  | started
  | existing (operationId : Nat)
  | created (operationId : Nat)
  | permanent (code message : String)
  | raised (e : MatchError)
  deriving DecidableEq

/-- The arguments of `enqueue_match_operation`. -/
structure MatchRequest where
  action : MatchAction
  representativeId : Nat
  decisionIds : List Nat
  proposalIds : List Nat
  seriesIds : List Nat
  priority : Int := 70
  groupKey : String := ""
  deriving DecidableEq

/-- `sorted(set(ids))`. -/
def sortedSet (ids : List Nat) : List Nat := ids.eraseDups.insertionSort (· ≤ ·)

/-- The call of `JobQueue().enqueue`. -/
def MatchRequest.job (r : MatchRequest) (operationId : Nat) : EnqueueArgs where
  kind := .matchOperation
  dedupeKey := "match-operation:" ++ toString operationId
  payload := .matchOperation { operationId := operationId }
  priority := r.priority
  maxAttempts := 3
  pool := "catalog_mutation"
  groupKey := orText r.groupKey
    ("match-operation:" ++ r.action.value ++ ":" ++ toString operationId)

/-- What the statements of the transactions write. -/
inductive MatchChange where
  | begin (operationId : Nat) (now : Time)
  | decide (operationId : Nat) (decisionIds : List Nat) (action : MatchAction) (now : Time)
  | merge (operationId : Nat) (removed droppedDecisions : List Nat)
  | succeed (operationId : Nat) (now : Time)
  | fail (operationId : Nat) (loaded : MatchStatus) (code message : String) (now : Time)
  | release (operationId : Nat)
  | insert (op : MatchOperation)
  | reserve (operationId seriesId : Nat)
  | enqueueJob (operationId : Nat) (r : MatchRequest) (now : Time)
  | call (op : Op) (now : Time)
  | prune (jobIds : List Nat)

/-- What the transactions lock: rows, and unique keys. -/
inductive MatchKey where
  | operation (id : Nat)
  | decision (id : Nat)
  | series (id : Nat)
  deriving DecidableEq

namespace Matches

variable (db : Matches)

def operation? (id : Nat) : Option MatchOperation := Table.get MatchOperation.id db.operations id

/-- The operations with `f` written to one of them. -/
def update (id : Nat) (f : MatchOperation → MatchOperation) : Matches :=
  { db with operations := db.operations.map fun op => if op.id = id then f op else op }

/-- Rows of a deleted series go with it (`ON DELETE CASCADE`), the operations keep their list. -/
def apply : MatchChange → Matches
  | .begin id now => db.update id fun op => { op with status := .running, updatedAt := now }
  | .decide id decisionIds action now =>
    { db with
      decisions := db.decisions.map fun d =>
        if d.id ∈ decisionIds then
          { d with decision := .decided action, decidedBy := "operator", decidedAt := some now }
        else d
      applied := id :: db.applied }
  | .merge id removed dropped =>
    { db with
      series := db.series.filter (· ∉ removed)
      reservations := db.reservations.filter (·.seriesId ∉ removed)
      decisions := db.decisions.filter (·.id ∉ dropped)
      applied := id :: db.applied }
  | .succeed id now => db.update id fun op =>
    { op with
      status := .succeeded, errorCode := "", errorMessage := "", updatedAt := now
      completedAt := some now }
  | .fail id loaded code message now => db.update id (·.failWith loaded code message now)
  | .release id => { db with reservations := db.reservations.filter (·.operationId != id) }
  | .insert op => { db with operations := db.operations ++ [op] }
  | .reserve operationId seriesId =>
    { db with reservations := db.reservations ++ [⟨operationId, seriesId⟩] }
  | .enqueueJob id r now => match db.queue.enqueue (r.job id) now with
    | .ok (queue, jobId, _) =>
      { db.update id fun op => { op with jobId := some jobId, updatedAt := now } with queue := queue }
    | .error _ => db
  | .call op now => { db with queue := op.apply db.queue now }
  | .prune jobIds =>
    { db with
      operations := db.operations.map fun op =>
        if op.jobId.any (· ∈ jobIds) then { op with jobId := none } else op
      queue := { db.queue with jobs := db.queue.jobs.filter (·.id ∉ jobIds) } }

end Matches

/-- The rows a change locks. -/
def MatchChange.keys : MatchChange → List MatchKey
  | .begin id _ | .succeed id _ | .fail id _ _ _ _ | .enqueueJob id _ _ => [.operation id]
  | .decide _ decisionIds _ _ => decisionIds.map .decision
  | .merge _ removed dropped => removed.map .series ++ dropped.map .decision
  | .insert op => [.operation op.id]
  | .reserve _ seriesId => [.series seriesId]
  | .release _ | .call _ _ | .prune _ => []

/-- The program of a match transaction. -/
abbrev MatchProg := Prog Matches MatchKey MatchChange MatchResult

abbrev MatchThread := Thread Matches MatchKey MatchChange MatchResult

/-- `SELECT ... FOR UPDATE` of several rows. -/
def lockAll : List MatchKey → (Matches → MatchProg) → MatchProg
  | [], next => .read next
  | k :: ks, next => .lock k fun _ => lockAll ks next

/-! ## The handler -/

/-- The first transaction of `_execute`. -/
def beginOperation (id : Nat) (now : Time) : MatchProg :=
  .lock (.operation id) fun db => match db.operation? id with
    | none => .raise (.permanent "match_operation_missing"
        "the queued match operation no longer exists")
    | some op => match op.status with
      | .succeeded => .commit .returned
      | .failed => .raise (.permanent (orText op.errorCode "match_operation_failed")
          (orText op.errorMessage "the match operation previously failed"))
      | .queued | .running => .write (.begin id now) (.commit .started)

/-- The last statements of the second transaction. -/
def endOperation (id : Nat) (now : Time) : MatchProg :=
  .write (.release id) (.write (.succeed id now) (.commit .returned))

/-- The second transaction of `_execute`. -/
def applyOperation (id : Nat) (merge : Except SeriesMergeError MergeEffect) (now : Time) : MatchProg :=
  .lock (.operation id) fun db => match db.operation? id with
    | none => .raise (.raised (.other "RuntimeError" "the queued match operation no longer exists"))
    | some op => lockAll (op.decisionIds.map .decision) fun db =>
      let pending := db.decisions.filter fun d => d.id ∈ op.decisionIds && d.decision == .pending
      if pending.length ≠ op.decisionIds.length then
        .raise (.raised (.http 409 "one or more match decisions were already reviewed"))
      else .write (.decide id (pending.map (·.id)) op.action now) <|
        match op.action with
        | .rejected => endOperation id now
        | .accepted =>
          if op.seriesIds.eraseDups.length < 2 then .raise (.raised (.ofMerge .tooFew))
          else lockAll (op.seriesIds.map .series) fun db =>
            if ¬ op.seriesIds ⊆ db.series then .raise (.raised (.ofMerge .notFound))
            else match merge with
              | .error e => .raise (.raised (.ofMerge e))
              | .ok effect =>
                .write (.merge id (op.seriesIds.filter (· ≠ effect.target))
                  effect.droppedDecisions) (endOperation id now)

/-- The transaction of the exception branch. -/
def failOperation (id : Nat) (e : MatchError) (now : Time) : MatchProg :=
  .read fun db => match db.operation? id with
    | none => .commit (.permanent e.code e.message)
    | some op => .write (.release id) <| .write (.fail id op.status e.code e.message now) <|
        .commit (.permanent e.code e.message)

/-- An execution: what the merge did, the error when the database rolled the second transaction
back, and the times of the three transactions. -/
structure Execution where
  operationId : Nat
  merge : Except SeriesMergeError MergeEffect
  rolledBack : MatchError
  begunAt : Time
  appliedAt : Time
  failedAt : Time

/-- `_execute`. -/
def Execution.thread (x : Execution) : MatchThread :=
  .transact (beginOperation x.operationId x.begunAt) fun
    | some .started =>
      .transact (applyOperation x.operationId x.merge x.appliedAt) fun
        | some (.raised e) => .transact (failOperation x.operationId e x.failedAt) fun _ => .stop
        | none => .transact (failOperation x.operationId x.rolledBack x.failedAt) fun _ => .stop
        | some _ => .stop
    | _ => .stop

/-! ## The reconciler and new operations -/

def strandedMessage : String :=
  "The background worker stopped before this operation completed. Retry it when ready."

/-- The updates are flushed when the transaction commits. -/
def failStranded (now : Time) : List MatchOperation → MatchProg
  | [] => .commit .returned
  | op :: ops => .write (.fail op.id op.status "match_worker_interrupted" strandedMessage now)
      (failStranded now ops)

def reconcileLoop (now : Time) (changed : List MatchOperation) : List MatchOperation → MatchProg
  | [] => failStranded now changed
  | op :: ops => .read fun db =>
    if (op.jobId.bind db.queue.job?).any (·.status.isActive) then reconcileLoop now changed ops
    else .write (.release op.id) (reconcileLoop now (changed ++ [op]) ops)

/-- `reconcile_stranded_match_operations`. -/
def reconcileStranded (now : Time) : MatchProg :=
  .read fun db => reconcileLoop now [] (db.operations.filter (·.status.isActive))

/-- `find_equivalent_active_operation`. -/
def Matches.equivalentActive (db : Matches) (r : MatchRequest) : Option MatchOperation :=
  ((db.operations.filter (·.status.isActive)).insertionSort (·.id ≥ ·.id)).find? fun op =>
    op.action == r.action && sortedSet op.decisionIds == sortedSet r.decisionIds &&
      sortedSet op.seriesIds == sortedSet r.seriesIds

/-- The rows of `match_operation_series`, with the checks of the table. -/
def reserveAll (id : Nat) : List Nat → MatchProg → MatchProg
  | [], next => next
  | u :: us, next => .lock (.series u) fun db =>
    if db.reservations.any (·.seriesId == u) ∨ u ∉ db.series then
      .raise (.raised (.other "IntegrityError" ""))
    else .write (.reserve id u) (reserveAll id us next)

/-- `enqueue_match_operation`; the sequence of the table gave the new row its id. -/
def enqueueOperation (r : MatchRequest) (id : Nat) (now : Time) : MatchProg :=
  .read fun db => match db.equivalentActive r with
    | some op => .commit (.existing op.id)
    | none => .read fun db =>
      if db.reservations.any (·.seriesId ∈ r.seriesIds) then
        .raise (.raised (.http 409 "another merge or split is already using one of these manga"))
      else .lock (.operation id) fun db => match db.operation? id with
        | some _ => .raise (.raised (.other "IntegrityError" ""))
        | none => .write (.insert
            { id := id, action := r.action, representativeId := r.representativeId
              decisionIds := sortedSet r.decisionIds, proposalIds := sortedSet r.proposalIds
              seriesIds := sortedSet r.seriesIds, updatedAt := now }) <|
          reserveAll id (sortedSet r.seriesIds) <|
          .read fun db => match db.queue.enqueue (r.job id) now with
            | .error e => .raise (.raised (.other "ValueError" e.message))
            | .ok _ => .write (.enqueueJob id r now) (.commit (.created id))

/-- What runs beside each other. -/
inductive MatchCall where
  | execute (x : Execution)
  | reconcile (now : Time)
  | enqueue (r : MatchRequest) (id : Nat) (now : Time)
  | call (op : Op) (now : Time)
  | prune (jobIds : List Nat)

def MatchCall.thread : MatchCall → MatchThread
  | .execute x => x.thread
  | .reconcile now => .transact (reconcileStranded now) fun _ => .stop
  | .enqueue r id now => .transact (enqueueOperation r id now) fun _ => .stop
  | .call op now => .transact (.write (.call op now) (.commit .returned)) fun _ => .stop
  | .prune jobIds => .transact (.write (.prune jobIds) (.commit .returned)) fun _ => .stop

end MangaManager
