import MangaManager.Library.Repair
import MangaManager.Queue.Capacity
import MangaManager.Queue.Fencing

/-!
# The cleanup keys of repairs

The repair job of a series carries the storage keys that merges made obsolete, until an
attempt that had them succeeded. A request that finds the job locks its row and merges;
one that finds none enqueues, and when another transaction was faster it merges into the
job that `enqueue` read, which it locks only then. `LibraryRepairPlanner` collapses the
repairs of a series that older versions left.

`Cleanup` is the queue with the transactions under way, the payloads the running attempts
started with and the keys that are owed. `cleanup_kept`: no key is dropped in a run where
every job that is locked after it was read has not changed in between.
-/

namespace MangaManager

open Lib

/-! ## Collapsing the repairs of a series -/

/-- The payload and the pending payload, validated. -/
def WorkJob.repairPayloads (j : WorkJob) : Option (List LibraryRepairPayload) :=
  match repairPayload? j.payload, pendingRepairs j with
  | some payload, some pending => some (payload :: pending)
  | _, _ => none

/-- The columns of the job that is kept, with all keys of the group. -/
def WorkJob.collapsed (keeper : WorkJob) (merged : LibraryRepairPayload)
    (held : List LibraryRepairPayload) : WorkJob :=
  if keeper.status = .leased then
    if merged.obsoleteStorageKeys.all fun k => held.any (·.obsoleteStorageKeys.contains k) then keeper
    else { keeper with pendingPayload := some (.libraryRepair merged) }
  else { keeper with payload := .libraryRepair merged, pendingPayload := none }

/-- The job gets its place under the canonical key. -/
def WorkJob.regrouped (j : WorkJob) (dedupeKey groupKey : String) : WorkJob :=
  { j with dedupeKey := dedupeKey, groupKey := groupKey }

/-- `canonical_key`. -/
def canonicalRepairKey (seriesId : Int) : String := "series:" ++ toString seriesId ++ ":repair"

namespace Queue

variable (s : Queue)

/-- The rows that the planner locks, of those its statement has seen. -/
def activeRepairs (ids : List Nat) : List WorkJob :=
  (s.jobs.filter fun j => j.kind == .libraryRepair && j.status.isActive && j.seriesKey != "" &&
    ids.contains j.id).insertionSort (·.id ≤ ·.id)

/-- `group_key` of the repairs of a cycle. -/
def repairGroupKey (cycleId : Option Nat) : String :=
  "cycle:" ++ toString (cycleId.getD 0) ++ ":maintenance:library_repair"

/-- Another active job has the key. -/
def repairKeyTaken (key : String) (id : Nat) : Bool :=
  s.jobs.any fun j => j.kind == .libraryRepair && j.status.isActive && j.dedupeKey == key && j.id != id

def cancelAll (jobs : List WorkJob) (reason : String) (now : Time) : Queue :=
  jobs.foldl (fun s j => (s.cancel j.id reason now).1) s

/-- The loop body of `reconcile_active_jobs`: the tables, and how many jobs got the canonical key
and were cancelled. -/
def reconcileGroup (seriesKey : String) (group : List WorkJob) (now : Time) :
    Except QueueError (Queue × Nat × Nat) :=
  match parseInt seriesKey, group with
  | none, _ => .ok (s, 0, 0)
  | _, [] => .ok (s, 0, 0)
  | some n, first :: rest =>
    let canonicalKey := canonicalRepairKey n
    let groupKey := repairGroupKey first.cycleId
    if rest = [] ∧ first.dedupeKey = canonicalKey then
      .ok (s.putJob { first with groupKey := groupKey }, 0, 0)
    else
      let keeper := ((first :: rest).find? (·.status == .leased)).getD first
      let payloads := (first :: rest).flatMap fun j => j.repairPayloads.getD []
      if (first :: rest).any (·.repairPayloads.isNone) ∨ n ≤ 0 then .error .invalidPayload
      else
        let merged := mergedRepairPayload n.toNat payloads
        let others := (first :: rest).filter (·.id != keeper.id)
        let s := s.cancelAll others ("coalesced into library repair job " ++ toString keeper.id) now
        if s.repairKeyTaken canonicalKey keeper.id then .error (.integrity "uq_job_active_dedupe")
        else
          .ok (s.putJob ((keeper.collapsed merged (keeper.repairPayloads.getD [])).regrouped
              canonicalKey groupKey),
            if keeper.dedupeKey = canonicalKey then 0 else 1, others.length)

/-- The jobs by series. -/
def repairGroups (jobs : List WorkJob) : List (String × List WorkJob) :=
  (jobs.map (·.seriesKey)).eraseDups.map fun key => (key, jobs.filter (·.seriesKey == key))

/-- The rest of the loop. -/
def reconcileGroups (now : Time) : List (String × List WorkJob) → Queue →
    Except QueueError (Queue × Nat × Nat)
  | [], s => .ok (s, 0, 0)
  | (key, group) :: groups, s =>
    match s.reconcileGroup key group now with
    | .error e => .error e
    | .ok (s', canonicalized, cancelled) =>
      (reconcileGroups now groups s').map fun r =>
        (r.1, canonicalized + r.2.1, cancelled + r.2.2)

/-- `reconcile_active_jobs`, of the jobs its statement has seen. -/
def reconcileActiveJobs (ids : List Nat) (now : Time) : Except QueueError (Queue × Nat × Nat) :=
  reconcileGroups now (repairGroups (s.activeRepairs ids)) s

end Queue

/-! ## A job that was read before it was locked -/

/-- The row after the flush of a job that was read as `read`: the attributes that were set to other
values are written. -/
def WorkJob.flushed (row read job : WorkJob) : WorkJob :=
  { row with
    pool := if job.pool = read.pool then row.pool else job.pool
    priority := if job.priority = read.priority then row.priority else job.priority
    payload := if job.payload = read.payload then row.payload else job.payload
    pendingPayload := if job.pendingPayload = read.pendingPayload then row.pendingPayload
      else job.pendingPayload
    errorCode := if job.errorCode = read.errorCode then row.errorCode else job.errorCode
    errorMessage := if job.errorMessage = read.errorMessage then row.errorMessage
      else job.errorMessage
    updatedAt := if job.updatedAt = read.updatedAt then row.updatedAt else job.updatedAt }

/-- The keyword arguments of `enqueue_library_repair`. -/
structure RepairRequest where
  seriesId : Nat
  reason : String
  priority : Int
  obsoleteStorageKeys : List String := []
  deriving DecidableEq

namespace RepairRequest

variable (r : RepairRequest)

def incoming : LibraryRepairPayload :=
  { seriesId := r.seriesId, reason := r.reason, obsoleteStorageKeys := r.obsoleteStorageKeys }

def valid : Bool := (JobPayload.libraryRepair r.incoming).validate

def args : EnqueueArgs := repairArgs r.seriesId r.incoming r.priority

def mergeInto (job : WorkJob) : Option WorkJob :=
  MangaManager.mergeInto job r.seriesId r.incoming r.priority

/-- The keys that are to be cleaned for the series. -/
def owed : List (Nat × String) :=
  (r.obsoleteStorageKeys.filter (· ≠ "")).map fun key => (r.seriesId, key)

end RepairRequest

/-- A transaction under way: a request whose locking query found no job; one that has read the job
that another transaction inserted, as `read`, and holds it as `job`; the planner, which has seen
some rows. -/
inductive RepairCall where
  | missed (r : RepairRequest)
  | found (r : RepairRequest) (read job : WorkJob)
  | scanned (ids : List Nat)
  deriving DecidableEq

/-- The committed queue, the transactions under way, the payload that each leased job was claimed
with and the keys that are owed to a series. -/
structure Cleanup where
  queue : Queue := {}
  calls : List RepairCall := []
  attempts : List (Nat × JobPayload) := []
  owed : List (Nat × String) := []
  deriving DecidableEq

/-- A call on the queue, or a step of a transaction: `request` finds the job and merges, `miss`
finds none; `insert` and `read` go on with what `enqueue` does (`conflict`: the insert met the job
of another transaction), `merge` locks the job that was read. -/
inductive CleanupMove where
  | call (op : Op)
  | request (r : RepairRequest)
  | miss (r : RepairRequest)
  | insert (r : RepairRequest)
  | read (r : RepairRequest) (conflict : Bool)
  | merge (r : RepairRequest) (read job : WorkJob)
  | scan
  | reconcile (ids : List Nat)
  | rollback (call : RepairCall)

/-- The key is among those the payload names. -/
def JobPayload.cleans : JobPayload → String → Bool
  | libraryRepair p, key => p.obsoleteStorageKeys.contains key
  | _, _ => false

def WorkJob.cleans (j : WorkJob) (key : String) : Bool :=
  j.payload.cleans key || j.pendingPayload.any (·.cleans key)

def WorkJob.activeRepair (j : WorkJob) : Bool := j.kind == .libraryRepair && j.status.isActive

/-- A claim, a heartbeat, a report, or the end of a lease; repairs are ended by a success only. -/
def Op.handlesRepairs (op : Op) (s : Queue) (now : Time) : Bool :=
  match op with
  | succeed _ _ => true
  | claim _ _ | heartbeat _ _ _ | progress _ _ _ _ | retry _ _ _ _ _ | release _ _ _
  | defer _ _ _ _ _ =>
    s.jobs.all fun j => !j.activeRepair || ((op.apply s now).job? j.id).any (·.status.isActive)
  | _ => false

namespace Cleanup

variable (c : Cleanup)

/-- The payload of the attempt that runs. -/
def attempt? (jobId : Nat) : Option JobPayload :=
  (c.attempts.find? (·.1 == jobId)).map (·.2)

/-- The job whose attempt a call reports as succeeded. -/
def succeeds (op : Op) (now : Time) : Option WorkJob :=
  match op with
  | .succeed jobId owner => c.queue.selectHeld jobId owner now
  | _ => none

/-- The success of the attempt cleans the key. -/
def cleaned (j : WorkJob) (o : Nat × String) : Bool :=
  j.kind == .libraryRepair && j.dedupeKey == repairKey o.1 && (c.attempt? j.id).any (·.cleans o.2)

/-- The next state, `none` where the move is not possible or raises. -/
def move (m : CleanupMove × Time) : Option Cleanup :=
  match m.1 with
  | .call op =>
    if op.handlesRepairs c.queue m.2 then
      some { c with
        queue := op.apply c.queue m.2
        attempts := ((op.returned c.queue m.2).map fun l => (l.id, l.payload)).toList ++ c.attempts
        owed := c.owed.filter fun o => !(c.succeeds op m.2).any (c.cleaned · o) }
    else none
  | .request r =>
    if r.valid then do
      let job ← c.queue.activeJob .libraryRepair (repairKey r.seriesId)
      let job' ← r.mergeInto job
      some { c with queue := c.queue.putJob job', owed := r.owed ++ c.owed }
    else none
  | .miss r => if r.valid then some { c with calls := .missed r :: c.calls } else none
  | .insert r =>
    if .missed r ∈ c.calls ∧ c.queue.activeJob .libraryRepair (repairKey r.seriesId) = none then
      some { c with
        queue := (Op.enqueue r.args).apply c.queue m.2
        calls := c.calls.erase (.missed r), owed := r.owed ++ c.owed }
    else none
  | .read r conflict =>
    if .missed r ∈ c.calls then do
      let job ← c.queue.activeJob .libraryRepair (repairKey r.seriesId)
      some { c with
        calls := .found r job (if conflict then job else job.repool r.args.routedPool m.2) ::
          c.calls.erase (.missed r) }
    else none
  | .merge r read job =>
    if .found r read job ∈ c.calls then do
      let row ← c.queue.job? read.id
      let job' ← r.mergeInto job
      some { c with
        queue := c.queue.putJob (row.flushed read job')
        calls := c.calls.erase (.found r read job), owed := r.owed ++ c.owed }
    else none
  | .scan => some { c with calls := .scanned (c.queue.jobs.map (·.id)) :: c.calls }
  | .reconcile ids =>
    if .scanned ids ∈ c.calls then
      match c.queue.reconcileActiveJobs ids m.2 with
      | .ok (queue, _, _) => some { c with queue := queue, calls := c.calls.erase (.scanned ids) }
      | .error _ => none
    else none
  | .rollback call => some { c with calls := c.calls.erase call }

end Cleanup

def CleanupStep (c : Cleanup) (m : CleanupMove × Time) (c' : Cleanup) : Prop := c.move m = some c'

/-- A queue that older versions left, with its attempts. -/
def Cleanup.start (s : Queue) : Cleanup :=
  { queue := s
    attempts := (s.jobs.filter (·.status == .leased)).map fun j => (j.id, j.payload) }

/-- What a merge goes by. -/
def WorkJob.mergeState (j : WorkJob) : JobKind × String × JobState × JobPayload × Option JobPayload :=
  (j.kind, j.dedupeKey, j.status, j.payload, j.pendingPayload)

/-- A job that is locked after it was read is still as it was read. -/
def Cleanup.ReadsCurrent (c : Cleanup) (m : CleanupMove × Time) : Prop :=
  match m.1 with
  | .merge _ read _ => ∀ row, c.queue.job? read.id = some row → row.mergeState = read.mergeState
  | _ => True

instance (c : Cleanup) (m : CleanupMove × Time) : Decidable (c.ReadsCurrent m) :=
  match m with
  | (.merge _ read _, _) =>
    decidable_of_iff (∀ row ∈ (c.queue.job? read.id).toList, row.mergeState = read.mergeState)
      ⟨fun h row hr => h row (Option.mem_toList.mpr hr), fun h row hr => h row (Option.mem_toList.mp hr)⟩
  | (.call _, _) | (.request _, _) | (.miss _, _) | (.insert _, _) | (.read _ _, _) | (.scan, _)
  | (.reconcile _, _) | (.rollback _, _) => instDecidableTrue

/-! ## Keys in the slots of a job -/

section
variable {j j' : WorkJob} {k : String} {payloads : List LibraryRepairPayload} {n : Nat}

theorem mem_mergedKeys : k ∈ mergedKeys payloads ↔
    k ≠ "" ∧ ∃ p ∈ payloads, k ∈ p.obsoleteStorageKeys := by
  simp only [mergedKeys, List.mem_insertionSort, List.mem_eraseDups, List.mem_filter,
    List.mem_flatMap, decide_eq_true_eq]
  exact and_comm

theorem cleans_merged : (JobPayload.libraryRepair (mergedRepairPayload n payloads)).cleans k = true ↔
    k ≠ "" ∧ ∃ p ∈ payloads, k ∈ p.obsoleteStorageKeys := by
  simp only [JobPayload.cleans, mergedRepairPayload, List.contains_iff_mem, mem_mergedKeys]

/-- The validated payloads of a job name the keys of its slots. -/
theorem WorkJob.repairPayloads_cleans (h : j.repairPayloads = some payloads) :
    j.cleans k = true ↔ ∃ p ∈ payloads, k ∈ p.obsoleteStorageKeys := by
  unfold repairPayloads at h
  split at h
  · rename_i stored pending hs hp
    cases h
    obtain ⟨he, -⟩ := repairPayload?_some hs
    unfold pendingRepairs at hp
    split at hp
    · rename_i hnone
      cases hp
      simp [cleans, he, hnone, JobPayload.cleans]
    · rename_i q hq
      cases hr : repairPayload? q with
      | none =>
        rw [hr] at hp
        cases hp
      | some p =>
        rw [hr] at hp
        cases hp
        obtain ⟨rfl, -⟩ := repairPayload?_some hr
        simp [cleans, he, hq, JobPayload.cleans]
  · cases h

theorem WorkJob.repairPayloads_valid (h : j.repairPayloads = some payloads) :
    ∀ p ∈ payloads, (JobPayload.libraryRepair p).validate = true := by
  unfold repairPayloads at h
  split at h
  · rename_i stored pending hs hp
    cases h
    rintro p hm
    rcases List.mem_cons.mp hm with rfl | hm
    · obtain ⟨he, hv⟩ := repairPayload?_some hs
      rwa [← he]
    · exact pendingRepairs_some hp p hm
  · cases h

/-- The slot that is compared, or the one that is written, has the merged keys. -/
theorem storeMerged_slots {current : LibraryRepairPayload} (merged : LibraryRepairPayload)
    (hcur : ∀ k ∈ current.obsoleteStorageKeys, j.cleans k = true) :
    (∀ k ∈ merged.obsoleteStorageKeys, (storeMerged j merged current).cleans k = true) ∧
      (j.status = .leased → (storeMerged j merged current).payload = j.payload) := by
  unfold storeMerged
  split
  · rename_i hsame
    exact ⟨fun k hk => hcur k (hsame ▸ hk), fun _ => rfl⟩
  split
  · refine ⟨fun k hk => ?_, fun _ => rfl⟩
    simp [WorkJob.cleans, JobPayload.cleans, hk]
  · rename_i hl
    refine ⟨fun k hk => ?_, fun hl' => absurd hl' hl⟩
    simp [WorkJob.cleans, JobPayload.cleans, hk]

/-- A merge keeps the keys and takes those of the request; a running attempt keeps its payload. -/
theorem mergeInto_slots {incoming : LibraryRepairPayload} {priority : Int}
    (h : mergeInto j n incoming priority = some j') :
    (∀ k, k ≠ "" → j.cleans k = true ∨ k ∈ incoming.obsoleteStorageKeys → j'.cleans k = true) ∧
      (j.status = .leased → j'.payload = j.payload) := by
  unfold mergeInto at h
  split at h
  · rename_i stored pending hs hp
    cases h
    have hslots : ∀ k, j.cleans k = true ↔ ∃ p ∈ stored :: pending, k ∈ p.obsoleteStorageKeys :=
      fun k => WorkJob.repairPayloads_cleans (by simp only [WorkJob.repairPayloads, hs, hp])
    have hcur : ∀ k ∈ (if j.status = .leased then pending.headD stored else stored
        ).obsoleteStorageKeys, j.cleans k = true := by
      intro k hk
      refine (hslots k).mpr ?_
      split at hk
      · cases pending with
        | nil => exact ⟨stored, List.mem_cons_self, hk⟩
        | cons q qs => exact ⟨q, List.mem_cons_of_mem _ List.mem_cons_self, hk⟩
      · exact ⟨stored, List.mem_cons_self, hk⟩
    have hcur' : ∀ k ∈ (if j.status = .leased then pending.headD stored else stored
        ).obsoleteStorageKeys, ({ j with priority := min j.priority priority }).cleans k = true := hcur
    obtain ⟨hkeys, hpay⟩ :=
      storeMerged_slots (mergedRepairPayload n (stored :: incoming :: pending)) hcur'
    refine ⟨fun k hk hor => hkeys k (mem_mergedKeys.mpr ⟨hk, ?_⟩), hpay⟩
    rcases hor with hc | hin
    · obtain ⟨p, hm, hkp⟩ := (hslots k).mp hc
      rcases List.mem_cons.mp hm with rfl | hm
      · exact ⟨p, List.mem_cons_self, hkp⟩
      · exact ⟨p, List.mem_cons_of_mem _ (List.mem_cons_of_mem _ hm), hkp⟩
    · exact ⟨incoming, List.mem_cons_of_mem _ List.mem_cons_self, hin⟩
  · cases h

/-- The job that is kept has all keys of its group, and a running attempt its payload. -/
theorem WorkJob.collapsed_slots (n : Nat) (payloads : List LibraryRepairPayload)
    {held : List LibraryRepairPayload} (h : j.repairPayloads = some held) :
    (∀ k, k ≠ "" → (∃ p ∈ payloads, k ∈ p.obsoleteStorageKeys) →
      (j.collapsed (mergedRepairPayload n payloads) held).cleans k = true) ∧
    (j.status = .leased → (j.collapsed (mergedRepairPayload n payloads) held).payload = j.payload) := by
  have hmerged : ∀ k, k ≠ "" → (∃ p ∈ payloads, k ∈ p.obsoleteStorageKeys) →
      (JobPayload.libraryRepair (mergedRepairPayload n payloads)).cleans k = true :=
    fun k hk hp => cleans_merged.mpr ⟨hk, hp⟩
  unfold collapsed
  split
  · split
    · rename_i hall
      refine ⟨fun k hk hp => (repairPayloads_cleans h).mpr ?_, fun _ => rfl⟩
      have hm := hmerged k hk hp
      simp only [JobPayload.cleans, List.contains_iff_mem] at hm
      have hany := List.all_eq_true.mp hall k hm
      obtain ⟨p, hp, hk⟩ := List.any_eq_true.mp hany
      exact ⟨p, hp, by simpa using hk⟩
    · refine ⟨fun k hk hp => ?_, fun _ => rfl⟩
      simp only [cleans, Option.any_some, hmerged k hk hp, Bool.or_true]
  · rename_i hl
    refine ⟨fun k hk hp => ?_, fun hl' => absurd hl' hl⟩
    simp only [cleans, hmerged k hk hp, Bool.true_or]

end

/-! ## What a step keeps -/

namespace Queue

/-- A repair with the canonical key of a series is of that series. -/
def CanonicalRepairs (s : Queue) : Prop :=
  ∀ j ∈ s.jobs, j.activeRepair = true → ∀ n, j.dedupeKey = repairKey n →
    j.seriesKey = "" ∨ parseInt j.seriesKey = some n

/-- The active repair of the series has the key. -/
def Cleans (s : Queue) (n : Nat) (key : String) : Prop :=
  ∃ j ∈ s.jobs, j.activeRepair = true ∧ j.dedupeKey = repairKey n ∧ j.cleans key = true

structure KeepsCleanup (s s' : Queue) : Prop where
  queue : s'.WellFormed
  canonical : s'.CanonicalRepairs
  cleans : ∀ n key, key ≠ "" → s.Cleans n key → s'.Cleans n key
  running : ∀ j' ∈ s'.jobs, j'.kind = .libraryRepair → j'.status = .leased →
    ∃ j ∈ s.jobs, j.kind = .libraryRepair ∧ j.status = .leased ∧ j.id = j'.id ∧
      j.payload = j'.payload

end Queue

section
variable {s s' : Queue} {j j' : WorkJob} {n : Nat} {key : String} {now : Time}

theorem WorkJob.activeRepair_iff :
    j.activeRepair = true ↔ j.kind = .libraryRepair ∧ j.status.isActive = true := by
  simp [WorkJob.activeRepair]

theorem Queue.KeepsCleanup.refl (hw : s.WellFormed) (hc : s.CanonicalRepairs) :
    s.KeepsCleanup s :=
  ⟨hw, hc, fun _ _ _ h => h, fun j hj hk hl => ⟨j, hj, hk, hl, rfl, rfl⟩⟩

theorem Queue.KeepsCleanup.trans {s'' : Queue} (h : s.KeepsCleanup s') (h' : s'.KeepsCleanup s'') :
    s.KeepsCleanup s'' := by
  refine ⟨h'.queue, h'.canonical, fun n key hne hc => h'.cleans n key hne (h.cleans n key hne hc),
    fun j'' hj'' hk hl => ?_⟩
  obtain ⟨j', hj', hk', hl', hid', hp'⟩ := h'.running j'' hj'' hk hl
  obtain ⟨j, hj, hk, hl, hid, hp⟩ := h.running j' hj' hk' hl'
  exact ⟨j, hj, hk, hl, hid.trans hid', hp.trans hp'⟩

/-- An active row is rewritten, its key to one that no other active row of its kind has. -/
theorem Queue.WellFormed.rekey (hw : s.WellFormed) (hj : j ∈ s.jobs) (hid : j'.id = j.id)
    (hcycle : j'.cycleId = j.cycleId) (hrow : j'.WellFormed)
    (hfree : ∀ x ∈ s.jobs, x.status.isActive = true → x.kind = j'.kind →
      x.dedupeKey = j'.dedupeKey → x.id = j.id) : (s.putJob j').WellFormed := by
  have hmem : ∀ x ∈ (s.putJob j').jobs, x = j' ∨ (x ∈ s.jobs ∧ x.id ≠ j.id) := fun x hx =>
    (mem_put_job hj hid x).mp hx
  refine ⟨Table.keyed_put.mpr hw.jobs, fun x hx => ?_, fun x hx => ?_, fun x hx y hy hxa hya hk hd => ?_,
    hw.cycles, hw.cyclesBelow, fun x hx => ?_⟩
  · rcases hmem x hx with rfl | ⟨hx, -⟩
    · exact hid ▸ hw.jobsBelow j hj
    · exact hw.jobsBelow x hx
  · rcases hmem x hx with rfl | ⟨hx, -⟩
    · exact hrow
    · exact hw.rows x hx
  · rcases hmem x hx with hx' | ⟨hxm, hxne⟩ <;> rcases hmem y hy with hy' | ⟨hym, hyne⟩
    · rw [hx', hy']
    · subst hx'
      exact absurd (hfree y hym hya hk.symm hd.symm) hyne
    · subst hy'
      exact absurd (hfree x hxm hxa hk hd) hxne
    · exact hw.oneActive x hxm y hym hxa hya hk hd
  · rcases hmem x hx with rfl | ⟨hx, -⟩
    · rw [hcycle]
      exact hw.jobCycles j hj
    · exact hw.jobCycles x hx

/-- A repair that is rewritten: its place in the tables, its key that of its series, its keys kept
and, while it runs, its payload. -/
structure WorkJob.Recast (j j' : WorkJob) : Prop where
  id : j'.id = j.id
  kind : j'.kind = j.kind
  seriesKey : j'.seriesKey = j.seriesKey
  cycleId : j'.cycleId = j.cycleId
  status : j'.status = j.status
  dedupeKey : ∀ n, j.dedupeKey = repairKey n → j'.dedupeKey = repairKey n
  keys : ∀ k, k ≠ "" → j.cleans k = true → j'.cleans k = true
  payload : j.status = .leased → j'.payload = j.payload

theorem Queue.KeepsCleanup.put (hw : s.WellFormed) (hc : s.CanonicalRepairs) (hj : j ∈ s.jobs)
    (ha : j.activeRepair = true) (hr : j.Recast j') (hrow : j'.WellFormed)
    (hkey : ∀ n, j'.dedupeKey = repairKey n → j'.seriesKey = "" ∨ parseInt j'.seriesKey = some n)
    (hfree : ∀ x ∈ s.jobs, x.status.isActive = true → x.kind = j'.kind →
      x.dedupeKey = j'.dedupeKey → x.id = j.id) : s.KeepsCleanup (s.putJob j') := by
  have hk := (WorkJob.activeRepair_iff.mp ha).1
  have ha' : j'.activeRepair = true := by
    rw [WorkJob.activeRepair_iff] at ha ⊢
    rw [hr.kind, hr.status]
    exact ha
  have hmem : ∀ x ∈ (s.putJob j').jobs, x = j' ∨ (x ∈ s.jobs ∧ x.id ≠ j.id) := fun x hx =>
    (mem_put_job hj hr.id x).mp hx
  refine ⟨hw.rekey hj hr.id hr.cycleId hrow hfree, fun x hx hxa m hm => ?_, fun m k hne hcl => ?_,
    fun x hx hxk hxl => ?_⟩
  · rcases hmem x hx with rfl | ⟨hx, -⟩
    · exact hkey m hm
    · exact hc x hx hxa m hm
  · obtain ⟨x, hx, hxa, hxd, hxc⟩ := hcl
    by_cases he : x.id = j.id
    · obtain rfl := hw.jobs.eq hx hj he
      exact ⟨j', Table.mem_put_self hj hr.id.symm, ha', hr.dedupeKey m hxd, hr.keys k hne hxc⟩
    · exact ⟨x, Table.mem_put_of_ne hx (hr.id ▸ he), hxa, hxd, hxc⟩
  · rcases hmem x hx with rfl | ⟨hx, -⟩
    · exact ⟨j, hj, hk, hr.status ▸ hxl, hr.id.symm, (hr.payload (hr.status ▸ hxl)).symm⟩
    · exact ⟨x, hx, hxk, hxl, rfl, rfl⟩

/-- The key stays as well. -/
theorem Queue.KeepsCleanup.put_same (hw : s.WellFormed) (hc : s.CanonicalRepairs) (hj : j ∈ s.jobs)
    (ha : j.activeRepair = true) (hr : j.Recast j') (hrow : j'.WellFormed)
    (hkey : j'.dedupeKey = j.dedupeKey) : s.KeepsCleanup (s.putJob j') := by
  refine .put hw hc hj ha hr hrow (fun n hn => ?_) fun x hx hxa hxk hxd => ?_
  · rw [hr.seriesKey]
    exact hc j hj ha n (hkey ▸ hn)
  · rw [hr.kind] at hxk
    exact hw.oneActive x hx j hj hxa (WorkJob.activeRepair_iff.mp ha).2 hxk (hxd.trans hkey)

theorem repairKey_inj {m : Nat} (h : repairKey n = repairKey m) : n = m := by
  unfold repairKey at h
  have hl := congrArg String.toList h
  simp only [String.toList_append, List.append_cancel_right_eq, List.append_cancel_left_eq] at hl
  have hr := parseInt_toString n
  rw [String.toList_inj.mp hl, parseInt_toString] at hr
  exact_mod_cast (Option.some.inj hr).symm

/-! ## The planner -/

theorem Queue.cancel_spec (hw : s.WellFormed) (id : Nat) (reason : String) (now : Time) :
    (s.cancel id reason now).1.WellFormed ∧
      (∀ x ∈ s.jobs, x.id ≠ id → x ∈ (s.cancel id reason now).1.jobs) ∧
      ∀ x ∈ (s.cancel id reason now).1.jobs, x.status.isActive = true → x ∈ s.jobs ∧ x.id ≠ id := by
  refine ⟨Op.apply_wellFormed (.cancel id reason) now hw, ?_⟩
  unfold Queue.cancel
  cases hsel : s.selectActive id with
  | none =>
    refine ⟨fun x hx _ => hx, fun x hx ha => ⟨hx, ?_⟩⟩
    rintro rfl
    have hget : s.job? x.id = some x := hw.jobs.get_eq hx
    simp [Queue.selectActive, hget, ha] at hsel
  | some j =>
    obtain ⟨hget, -⟩ := Option.filter_eq_some_iff.mp hsel
    obtain ⟨hm, rfl⟩ := Queue.job?_some hget
    refine ⟨fun x hx hne => Table.mem_put_of_ne hx hne, fun x hx ha => ?_⟩
    rcases Table.mem_put.mp hx with ⟨rfl, -⟩ | ⟨hx, hne⟩
    · cases ha
    · exact ⟨hx, hne⟩

theorem Queue.cancelAll_spec (reason : String) (now : Time) : ∀ (jobs : List WorkJob) {s : Queue},
    s.WellFormed → (s.cancelAll jobs reason now).WellFormed ∧
      (∀ x ∈ s.jobs, (∀ j ∈ jobs, x.id ≠ j.id) → x ∈ (s.cancelAll jobs reason now).jobs) ∧
      ∀ x ∈ (s.cancelAll jobs reason now).jobs, x.status.isActive = true →
        x ∈ s.jobs ∧ ∀ j ∈ jobs, x.id ≠ j.id := by
  intro jobs
  induction jobs with
  | nil =>
    intro s hw
    exact ⟨hw, fun x hx _ => hx, fun x hx _ => ⟨hx, fun j hj => (by cases hj)⟩⟩
  | cons j jobs ih =>
    intro s hw
    obtain ⟨hw₁, hkeep₁, hback₁⟩ := s.cancel_spec hw j.id reason now
    obtain ⟨hw₂, hkeep₂, hback₂⟩ := ih hw₁
    refine ⟨hw₂, fun x hx hne => ?_, fun x hx ha => ?_⟩
    · exact hkeep₂ x (hkeep₁ x hx (hne j List.mem_cons_self)) fun k hk =>
        hne k (List.mem_cons_of_mem _ hk)
    · obtain ⟨hx₁, hne⟩ := hback₂ x hx ha
      obtain ⟨hx₀, hne₀⟩ := hback₁ x hx₁ ha
      refine ⟨hx₀, fun k hk => ?_⟩
      rcases List.mem_cons.mp hk with rfl | hk
      · exact hne₀
      · exact hne k hk

theorem WorkJob.collapsed_same (j : WorkJob) (merged : LibraryRepairPayload)
    (held : List LibraryRepairPayload) : SameJob j (j.collapsed merged held) ∧
      (j.collapsed merged held).status = j.status := by
  unfold collapsed
  split
  · split <;> exact ⟨⟨rfl, rfl, rfl, rfl, rfl, rfl⟩, rfl⟩
  · exact ⟨⟨rfl, rfl, rfl, rfl, rfl, rfl⟩, rfl⟩

theorem WorkJob.collapsed_wellFormed {merged : LibraryRepairPayload}
    (held : List LibraryRepairPayload) (hj : j.WellFormed)
    (hv : (JobPayload.libraryRepair merged).ValidFor j.kind) :
    (j.collapsed merged held).WellFormed := by
  unfold collapsed
  split
  · split
    · exact hj
    · exact { payload := hj.payload, pending := fun q hq => Option.some.inj hq ▸ hv
              units := hj.units, ceiling := hj.ceiling, attempts := hj.attempts, lease := hj.lease
              owner := hj.owner }
  · exact { payload := hv, pending := fun q hq => (by cases hq), units := hj.units
            ceiling := hj.ceiling, attempts := hj.attempts, lease := hj.lease, owner := hj.owner }

/-- The jobs that the planner works on are active repairs of one series. -/
def Queue.RepairGroup (s : Queue) (key : String) (group : List WorkJob) : Prop :=
  ∀ j ∈ group, j ∈ s.jobs ∧ j.activeRepair = true ∧ j.seriesKey = key

/-- The keeper has all keys of its group when the others are cancelled. -/
theorem Queue.KeepsCleanup.collapse {group : List WorkJob} {keeper : WorkJob} (hw : s.WellFormed)
    (hc : s.CanonicalRepairs) (hkey : key ≠ "") (hg : s.RepairGroup key group) (hpos : 0 < n)
    (hparse : parseInt key = some (n : Int)) (hkm : keeper ∈ group)
    (hvalid : ∀ x ∈ group, ∃ ps, x.repairPayloads = some ps) (reason groupKey : String)
    (htaken : (s.cancelAll (group.filter (·.id != keeper.id)) reason now).repairKeyTaken
      (repairKey n) keeper.id = false) :
    let s' := (s.cancelAll (group.filter (·.id != keeper.id)) reason now).putJob
      ((keeper.collapsed (mergedRepairPayload n (group.flatMap fun j => j.repairPayloads.getD []))
        (keeper.repairPayloads.getD [])).regrouped (repairKey n) groupKey)
    s.KeepsCleanup s' ∧ ∀ x ∈ s.jobs, x.seriesKey ≠ key → x ∈ s'.jobs := by
  obtain ⟨hm, ha, hs⟩ := hg keeper hkm
  obtain ⟨hkind, hact⟩ := WorkJob.activeRepair_iff.mp ha
  generalize hothers : group.filter (·.id != keeper.id) = others at *
  have hid : ∀ x ∈ group, x.id ≠ keeper.id → x ∈ others := by
    intro x hx hne
    rw [← hothers, List.mem_filter]
    exact ⟨hx, by simpa using hne⟩
  have hothersub : ∀ x ∈ others, x ∈ group ∧ keeper.id ≠ x.id := by
    intro x hx
    rw [← hothers, List.mem_filter] at hx
    exact ⟨hx.1, by simpa using Ne.symm (bne_iff_ne.mp hx.2)⟩
  obtain ⟨hwq, hkeepq, hbackq⟩ := Queue.cancelAll_spec reason now others hw
  generalize s.cancelAll others reason now = q at *
  have hkq : keeper ∈ q.jobs := hkeepq keeper hm fun x hx => (hothersub x hx).2
  have hcq : q.CanonicalRepairs := fun x hx hxa m hxm =>
    hc x (hbackq x hx (WorkJob.activeRepair_iff.mp hxa).2).1 hxa m hxm
  -- what the group names
  obtain ⟨held, hheld⟩ := hvalid keeper hkm
  rw [hheld]
  generalize hpays : (group.flatMap fun j => j.repairPayloads.getD []) = payloads
  have hpmem : ∀ x ∈ group, ∀ ps, x.repairPayloads = some ps → ∀ p ∈ ps, p ∈ payloads := by
    intro x hx ps hps p hp
    rw [← hpays]
    exact List.mem_flatMap.mpr ⟨x, hx, by rwa [hps]⟩
  have hnames : ∀ x ∈ group, ∀ k, x.cleans k = true →
      ∃ p ∈ payloads, k ∈ p.obsoleteStorageKeys := by
    intro x hx k hk
    obtain ⟨ps, hps⟩ := hvalid x hx
    obtain ⟨p, hp, hkp⟩ := (WorkJob.repairPayloads_cleans hps).mp hk
    exact ⟨p, hpmem x hx ps hps p hp, hkp⟩
  have hpvalid : ∀ p ∈ payloads, (JobPayload.libraryRepair p).validate = true := by
    intro p hp
    rw [← hpays] at hp
    obtain ⟨x, hx, hp⟩ := List.mem_flatMap.mp hp
    obtain ⟨ps, hps⟩ := hvalid x hx
    rw [hps] at hp
    exact WorkJob.repairPayloads_valid hps p hp
  have hpne : payloads ≠ [] := by
    cases held with
    | nil =>
      unfold WorkJob.repairPayloads at hheld
      split at hheld <;> cases hheld
    | cons p ps => exact List.ne_nil_of_mem (hpmem keeper hkm _ hheld p List.mem_cons_self)
  have hmerged : (JobPayload.libraryRepair (mergedRepairPayload n payloads)).ValidFor keeper.kind := by
    rw [hkind]
    exact mergedRepairPayload_valid hpos hpne hpvalid
  obtain ⟨hkeys, hpay⟩ := WorkJob.collapsed_slots n payloads hheld
  obtain ⟨hsame, hst⟩ := keeper.collapsed_same (mergedRepairPayload n payloads) held
  have hrow := WorkJob.collapsed_wellFormed held (hw.rows keeper hm) hmerged
  -- a canonical repair of the group is of the series of the group
  have hcanon : ∀ x ∈ group, ∀ m, x.dedupeKey = repairKey m → m = n := by
    intro x hx m hxm
    obtain ⟨hxj, hxa, hxs⟩ := hg x hx
    rcases hc x hxj hxa m hxm with he | he
    · exact absurd (hxs.symm.trans he) hkey
    · rw [hxs, hparse] at he
      exact_mod_cast (Option.some.inj he).symm
  intro s'
  have hput : q.KeepsCleanup s' := by
    refine .put hwq hcq hkq ha ⟨hsame.id, hsame.kind, hsame.seriesKey, hsame.cycleId, hst,
      fun m hm => congrArg repairKey (hcanon keeper hkm m hm).symm,
      fun k hk hcl => hkeys k hk (hnames keeper hkm k hcl), hpay⟩
      ⟨hrow.payload, hrow.pending, hrow.units, hrow.ceiling, hrow.attempts, hrow.lease, hrow.owner⟩
      (fun m hm => .inr ?_) fun x hx hxa hxk hxd => ?_
    · have hser : (keeper.collapsed (mergedRepairPayload n payloads) held).seriesKey = key :=
        hsame.seriesKey.trans hs
      have hnm : n = m := repairKey_inj hm
      subst hnm
      exact (congrArg parseInt hser).trans hparse
    · by_contra hne
      have htrue : q.repairKeyTaken (repairKey n) keeper.id = true := by
        refine List.any_eq_true.mpr ⟨x, hx, ?_⟩
        have hxk : x.kind = .libraryRepair := hxk.trans (hsame.kind.trans hkind)
        have hxd : x.dedupeKey = repairKey n := hxd
        simp [hxk, hxd, hxa, hne]
      rw [htaken] at htrue
      cases htrue
  refine ⟨⟨hput.queue, hput.canonical, fun m k hk hcl => ?_, fun x hx hxk hxl => ?_⟩, fun x hx hne => ?_⟩
  · obtain ⟨x, hx, hxa, hxd, hxc⟩ := hcl
    by_cases hxg : ∃ y ∈ others, x.id = y.id
    · -- the key moves from a job that is cancelled to the keeper
      obtain ⟨y, hy, he⟩ := hxg
      obtain ⟨hyg, -⟩ := hothersub y hy
      obtain rfl := hw.jobs.eq hx (hg y hyg).1 he
      obtain rfl := hcanon x hyg m hxd
      refine ⟨_, Table.mem_put_self hkq hsame.id.symm, ?_, rfl, hkeys k hk (hnames x hyg k hxc)⟩
      exact WorkJob.activeRepair_iff.mpr ⟨hsame.kind.trans hkind, hst.symm ▸ hact⟩
    · have hxq : x ∈ q.jobs := hkeepq x hx fun y hy he => hxg ⟨y, hy, he⟩
      exact hput.cleans m k hk ⟨x, hxq, hxa, hxd, hxc⟩
  · obtain ⟨y, hy, hyk, hyl, hyid, hyp⟩ := hput.running x hx hxk hxl
    exact ⟨y, (hbackq y hy (by rw [hyl]; rfl)).1, hyk, hyl, hyid, hyp⟩
  · have hxg : ∀ y ∈ group, x.id ≠ y.id := by
      intro y hy he
      obtain ⟨hyj, -, hys⟩ := hg y hy
      exact hne (hw.jobs.eq hx hyj he ▸ hys)
    refine Table.mem_put_of_ne (hkeepq x hx fun y hy => hxg y (hothersub y hy).1) fun he => ?_
    exact hxg keeper hkm (he.trans hsame.id)

/-- One group: no key is lost, and the other series keep their jobs. -/
theorem Queue.reconcileGroup_spec {group : List WorkJob} {r : Queue × Nat × Nat}
    (h : s.reconcileGroup key group now = .ok r) (hw : s.WellFormed) (hc : s.CanonicalRepairs)
    (hkey : key ≠ "") (hg : s.RepairGroup key group) :
    s.KeepsCleanup r.1 ∧ ∀ x ∈ s.jobs, x.seriesKey ≠ key → x ∈ r.1.jobs := by
  unfold reconcileGroup at h
  split at h
  · cases h
    exact ⟨.refl hw hc, fun x hx _ => hx⟩
  · cases h
    exact ⟨.refl hw hc, fun x hx _ => hx⟩
  · rename_i n first rest hn
    dsimp only at h
    split at h
    · -- one canonical job: only its group key is written
      cases h
      obtain ⟨hm, ha, hs⟩ := hg first List.mem_cons_self
      have hrow := hw.rows first hm
      refine ⟨.put_same hw hc hm ha ⟨rfl, rfl, rfl, rfl, rfl, fun _ h => h, fun _ _ h => h,
        fun _ => rfl⟩ ⟨hrow.payload, hrow.pending, hrow.units, hrow.ceiling, hrow.attempts, hrow.lease,
        hrow.owner⟩ rfl, fun x hx hne => Table.mem_put_of_ne hx fun he => hne ?_⟩
      rw [hw.jobs.eq hx hm he, hs]
    · split at h
      · cases h
      rename_i hvalid
      split at h
      · cases h
      rename_i htaken
      cases h
      rw [not_or, not_le] at hvalid
      obtain ⟨hvalid, hpos⟩ := hvalid
      obtain ⟨m, rfl⟩ := Int.eq_ofNat_of_zero_le hpos.le
      have hkm : ((first :: rest).find? (·.status == .leased)).getD first ∈ first :: rest := by
        cases hf : (first :: rest).find? (·.status == .leased) with
        | none => exact List.mem_cons_self
        | some j => exact List.mem_of_find?_eq_some hf
      have hslots : ∀ x ∈ first :: rest, ∃ ps, x.repairPayloads = some ps := by
        intro x hx
        cases hp : x.repairPayloads with
        | none => exact absurd (List.any_eq_true.mpr ⟨x, hx, by rw [hp]; rfl⟩) hvalid
        | some ps => exact ⟨ps, rfl⟩
      exact Queue.KeepsCleanup.collapse hw hc hkey hg (by exact_mod_cast hpos) hn hkm hslots _ _ (Bool.eq_false_iff.mpr htaken)

theorem Queue.reconcileGroups_spec : ∀ {groups : List (String × List WorkJob)} {s : Queue}
    {r : Queue × Nat × Nat}, Queue.reconcileGroups now groups s = .ok r → s.WellFormed →
    s.CanonicalRepairs → (groups.map Prod.fst).Nodup →
    (∀ g ∈ groups, g.1 ≠ "" ∧ s.RepairGroup g.1 g.2) → s.KeepsCleanup r.1 := by
  intro groups
  induction groups with
  | nil =>
    intro s r h hw hc _ _
    cases h
    exact .refl hw hc
  | cons g groups ih =>
    intro s r h hw hc hnd hg
    obtain ⟨key, group⟩ := g
    obtain ⟨hnew, hnd⟩ := List.nodup_cons.mp hnd
    unfold Queue.reconcileGroups at h
    split at h
    · cases h
    · rename_i s₁ a b hone
      obtain ⟨hkey, hgroup⟩ := hg _ List.mem_cons_self
      obtain ⟨hkeep, hothers⟩ := Queue.reconcileGroup_spec hone hw hc hkey hgroup
      cases hrest : Queue.reconcileGroups now groups s₁ with
      | error e =>
        rw [hrest] at h
        cases h
      | ok r₁ =>
        rw [hrest] at h
        cases h
        show s.KeepsCleanup r₁.1
        refine hkeep.trans (ih hrest hkeep.queue hkeep.canonical hnd fun g' hg' => ?_)
        obtain ⟨hkey', hgroup'⟩ := hg g' (List.mem_cons_of_mem _ hg')
        refine ⟨hkey', fun j hj => ?_⟩
        obtain ⟨hm, ha, hs⟩ := hgroup' j hj
        refine ⟨hothers j hm fun he => hnew ?_, ha, hs⟩
        have hin := List.mem_map_of_mem (f := Prod.fst) hg'
        rwa [← hs, he] at hin

theorem Queue.reconcileActiveJobs_spec {ids : List Nat} {r : Queue × Nat × Nat}
    (h : s.reconcileActiveJobs ids now = .ok r) (hw : s.WellFormed) (hc : s.CanonicalRepairs) :
    s.KeepsCleanup r.1 := by
  have hmem : ∀ j ∈ s.activeRepairs ids, j ∈ s.jobs ∧ j.activeRepair = true ∧ j.seriesKey ≠ "" := by
    intro j hj
    simp only [activeRepairs, List.mem_insertionSort, List.mem_filter, Bool.and_eq_true,
      bne_iff_ne] at hj
    obtain ⟨hm, ⟨⟨hk, ha⟩, hne⟩, -⟩ := hj
    exact ⟨hm, by rw [WorkJob.activeRepair, hk, ha]; rfl, hne⟩
  refine Queue.reconcileGroups_spec h hw hc ?_ fun g hg => ?_
  · have hkeys : (repairGroups (s.activeRepairs ids)).map Prod.fst =
        ((s.activeRepairs ids).map (·.seriesKey)).eraseDups := by
      simp only [repairGroups, List.map_map, Function.comp_def, List.map_id']
    rw [hkeys]
    exact Table.nodup_eraseDups _
  · obtain ⟨key, hkey, rfl⟩ := List.mem_map.mp hg
    obtain ⟨j, hj, rfl⟩ := List.mem_map.mp (List.mem_eraseDups.mp hkey)
    refine ⟨(hmem j hj).2.2, fun k hk => ?_⟩
    obtain ⟨hk, hs⟩ := List.mem_filter.mp hk
    exact ⟨(hmem k hk).1, (hmem k hk).2.1, beq_iff_eq.mp hs⟩

/-! ## Calls on the queue -/

/-- The slots of a job stay, and it is neither revived nor leased. -/
structure WorkJob.SlotsKept (j j' : WorkJob) : Prop where
  same : SameJob j j'
  payload : j'.payload = j.payload
  pending : j'.pendingPayload = j.pendingPayload
  active : j'.status.isActive = true → j.status.isActive = true
  leased : j'.status = .leased → j.status = .leased

theorem WorkJob.SlotsKept.refl (j : WorkJob) : j.SlotsKept j :=
  ⟨⟨rfl, rfl, rfl, rfl, rfl, rfl⟩, rfl, rfl, fun h => h, fun h => h⟩

theorem WorkJob.SlotsKept.trans {j'' : WorkJob} (h : j.SlotsKept j') (h' : j'.SlotsKept j'') :
    j.SlotsKept j'' where
  same := ⟨h'.same.id.trans h.same.id, h'.same.kind.trans h.same.kind,
    h'.same.dedupeKey.trans h.same.dedupeKey, h'.same.seriesKey.trans h.same.seriesKey,
    h'.same.cycleId.trans h.same.cycleId, h'.same.groupKey.trans h.same.groupKey⟩
  payload := h'.payload.trans h.payload
  pending := h'.pending.trans h.pending
  active ha := h.active (h'.active ha)
  leased hl := h.leased (h'.leased hl)

/-- The rows of two states, with their slots. -/
def Queue.SlotsKept (s s' : Queue) : Prop := List.Forall₂ WorkJob.SlotsKept s.jobs s'.jobs

theorem Queue.SlotsKept.refl (s : Queue) : s.SlotsKept s :=
  List.forall₂_same.mpr fun j _ => .refl j

theorem Queue.SlotsKept.trans {s'' : Queue} (h : s.SlotsKept s') (h' : s'.SlotsKept s'') :
    s.SlotsKept s'' :=
  (Table.forall₂_comp h h').imp fun _ _ ⟨_, h₁, h₂⟩ => h₁.trans h₂

theorem Queue.SlotsKept.put (hw : s.WellFormed) (hj : j ∈ s.jobs) (h : j.SlotsKept j')
    (hjobs : s'.jobs = Table.put WorkJob.id s.jobs j') : s.SlotsKept s' := by
  unfold Queue.SlotsKept
  rw [hjobs]
  exact Table.forall₂_put hw.jobs hj h.same.id.symm h fun y _ => .refl y

/-- A step on a row that is not a claim and writes no slot. -/
theorem RowStep.slotsKept {op : Op} (h : RowStep now op j j') (hclaim : ∀ env a, op ≠ .claim env a)
    (hsucceed : ∀ id owner, op ≠ .succeed id owner) (hroute : op.rerouted = none)
    (hreq : ∀ a, op ≠ .enqueue a) : j.SlotsKept j' := by
  refine ⟨h.sameJob, ?_, ?_, fun _ => h.active, fun hl => ?_⟩
  · cases h.slots with
    | kept hp _ => exact hp
    | requeue hop _ _ _ => exact absurd hop (hsucceed _ _)
    | reroute hop _ =>
      rw [hroute] at hop
      cases hop
    | pending hop _ _ _ _ | payload hop _ _ _ _ => exact absurd hop (hreq _)
  · cases h.slots with
    | kept _ hq => exact hq
    | requeue hop _ _ _ => exact absurd hop (hsucceed _ _)
    | reroute hop _ =>
      rw [hroute] at hop
      cases hop
    | pending hop _ _ _ _ | payload hop _ _ _ _ => exact absurd hop (hreq _)
  · rcases h.leased hl with ⟨env, a, hop⟩ | ⟨hl, -⟩
    · exact absurd hop (hclaim env a)
    · exact hl

theorem ScanStep.slotsKept (h : ScanStep now s s') (hw : s.WellFormed) : s.SlotsKept s' := by
  cases h with
  | @repool j hj _ =>
    have hkeep : j.SlotsKept (Queue.repoolRefresh j) :=
      ⟨⟨rfl, rfl, rfl, rfl, rfl, rfl⟩, rfl, rfl, fun h => h, fun h => h⟩
    exact .put hw hj hkeep rfl
  | dropPermits => exact .refl s
  | @sweep j _ _ hj _ _ =>
    have hkeep : j.SlotsKept (j.failExpired now) :=
      ⟨⟨rfl, rfl, rfl, rfl, rfl, rfl⟩, rfl, rfl, fun h => (by cases h), fun h => (by cases h)⟩
    exact .put hw hj hkeep rfl

theorem Scans.slotsKept (h : Scans now s s') (hw : s.WellFormed) :
    s.SlotsKept s' ∧ s'.WellFormed := by
  induction h with
  | refl => exact ⟨.refl s, hw⟩
  | tail _ hstep ih =>
    have ht : Transition now (.claim {} { owner := "", leaseFor := 0 }) _ _ := hstep.transition
    exact ⟨ih.1.trans (hstep.slotsKept ih.2), ht.wellFormed ih.2⟩

theorem Op.slotsKept {op : Op} (hw : s.WellFormed) (hclaim : ∀ env a, op ≠ .claim env a)
    (hsucceed : ∀ id owner, op ≠ .succeed id owner) (hroute : op.rerouted = none)
    (hreq : ∀ a, op ≠ .enqueue a) : s.SlotsKept (op.apply s now) := by
  have hinv := Op.apply_inv (P := fun q => q.WellFormed ∧ s.SlotsKept q) op now hw.jobs ?_
    ⟨hw, .refl s⟩
  · exact hinv.2
  rintro q q' ⟨hwq, hq⟩ ht
  refine ⟨ht.wellFormed hwq, ?_⟩
  rcases ht.jobs_cases with ⟨hjobs, -⟩ | ⟨a, hop, -⟩ | ⟨k, k', hk, hstep, hjobs, -⟩
  · unfold Queue.SlotsKept at hq ⊢
    rwa [hjobs]
  · exact absurd hop (hreq a)
  · exact hq.trans (.put hwq hk (hstep.slotsKept hclaim hsucceed hroute hreq) hjobs)

/-- The slots of all rows stay; a row that is leased was so before, or is the one that a claim
returned, with its payload. -/
structure Queue.SlotsStay (s s' : Queue) (granted : Option JobLease) : Prop where
  forward : ∀ j ∈ s.jobs, ∃ j' ∈ s'.jobs, SameJob j j' ∧ j'.payload = j.payload ∧
    j'.pendingPayload = j.pendingPayload
  backward : ∀ j' ∈ s'.jobs, ∃ j ∈ s.jobs, SameJob j j' ∧ j'.payload = j.payload ∧
    (j'.status.isActive = true → j.status.isActive = true) ∧
    (j'.status = .leased → (∃ l ∈ granted, l.id = j'.id ∧ l.payload = j'.payload) ∨
      (j.status = .leased ∧ ∀ l ∈ granted, l.id ≠ j'.id))

theorem Queue.SlotsKept.stay (h : s.SlotsKept s') : s.SlotsStay s' none := by
  refine ⟨fun j hj => ?_, fun j' hj' => ?_⟩
  · obtain ⟨j', hj', hk⟩ := Table.forall₂_left h hj
    exact ⟨j', hj', hk.same, hk.payload, hk.pending⟩
  · obtain ⟨j, hj, hk⟩ := Table.forall₂_right h hj'
    exact ⟨j, hj, hk.same, hk.payload, hk.active, fun hl =>
      .inr ⟨hk.leased hl, fun l hl => (by cases hl)⟩⟩

theorem claim_slotsStay {env : ClaimEnv} {a : ClaimArgs} (hw : s.WellFormed) :
    s.SlotsStay ((Op.claim env a).apply s now) ((Op.claim env a).returned s now) := by
  simp only [Op.apply, Op.returned]
  cases hr : Queue.claim env a s now with
  | error e => exact (Queue.SlotsKept.refl s).stay
  | ok r =>
    obtain ⟨s', _ | l⟩ := r
    · exact (Scans.slotsKept (Queue.claim_ok hw.jobs hr) hw).1.stay
    · obtain ⟨q, j, hs, hg⟩ := Queue.claim_ok hw.jobs hr
      obtain ⟨hq, hwq⟩ := Scans.slotsKept hs hw
      have hjobs : s'.jobs = Table.put WorkJob.id q.jobs (j.lease (strip a.owner) a.leaseFor now) := by
        rw [hg.tables]
        rfl
      have hstep : RowStep now (.claim env a) j (j.lease (strip a.owner) a.leaseFor now) :=
        .grant rfl hg.ready hg.attempts hg.owner hg.leaseFor
      have hact := RowStep.active hstep
      have hl : l.id = j.id ∧ l.payload = j.payload := by
        rw [hg.lease]
        exact ⟨rfl, rfl⟩
      simp only [committed]
      refine ⟨fun x hx => ?_, fun x hx => ?_⟩
      · obtain ⟨y, hy, hk⟩ := Table.forall₂_left hq hx
        rw [hjobs]
        by_cases he : y.id = j.id
        · obtain rfl := hwq.jobs.eq hy hg.mem he
          exact ⟨_, Table.mem_put_self hy rfl, ⟨hk.same.id, hk.same.kind, hk.same.dedupeKey,
            hk.same.seriesKey, hk.same.cycleId, hk.same.groupKey⟩, hk.payload, hk.pending⟩
        · exact ⟨y, Table.mem_put_of_ne hy he, hk.same, hk.payload, hk.pending⟩
      · rw [hjobs] at hx
        rcases Table.mem_put.mp hx with ⟨rfl, -⟩ | ⟨hx, hne⟩
        · obtain ⟨y, hy, hk⟩ := Table.forall₂_right hq hg.mem
          exact ⟨y, hy, ⟨hk.same.id, hk.same.kind, hk.same.dedupeKey, hk.same.seriesKey,
            hk.same.cycleId, hk.same.groupKey⟩, hk.payload, fun _ => hk.active hact,
            fun _ => .inl ⟨l, rfl, hl⟩⟩
        · obtain ⟨y, hy, hk⟩ := Table.forall₂_right hq hx
          refine ⟨y, hy, hk.same, hk.payload, hk.active, fun hxl => .inr ⟨hk.leased hxl, ?_⟩⟩
          rintro l' hl' he
          cases hl'
          exact hne (he.symm.trans hl.1)

/-- A success ends the job, or hands on what is pending. -/
theorem succeed_keeps (hw : s.WellFormed) (hc : s.CanonicalRepairs) (id : Nat) (owner : String) :
    ((Op.succeed id owner).apply s now).WellFormed ∧
      ((Op.succeed id owner).apply s now).CanonicalRepairs ∧
      (∀ x ∈ ((Op.succeed id owner).apply s now).jobs, x.status = .leased → x ∈ s.jobs) ∧
      ∀ n k, s.Cleans n k → (∀ j, s.selectHeld id owner now = some j → j.kind = .libraryRepair →
        j.dedupeKey = repairKey n → j.payload.cleans k = false) →
        ((Op.succeed id owner).apply s now).Cleans n k := by
  refine ⟨Op.apply_wellFormed (.succeed id owner) now hw, ?_⟩
  cases hj : s.selectHeld id owner now with
  | none =>
    have hsame : (Op.succeed id owner).apply s now = s := by
      simp only [Op.apply, Queue.succeed, Queue.finish, hj]
    rw [hsame]
    exact ⟨hc, fun x hx _ => hx, fun n k h _ => h⟩
  | some j =>
    obtain ⟨hget, hlive, -⟩ := Queue.selectHeld_some hj
    obtain ⟨hm, -⟩ := Queue.job?_some hget
    -- the row that is written waits with what was pending, or has ended
    obtain ⟨j', hjobs, hsame, hnl, hrow⟩ : ∃ j', ((Op.succeed id owner).apply s now).jobs =
        Table.put WorkJob.id s.jobs j' ∧ SameJob j j' ∧ j'.status ≠ .leased ∧
        ∀ k, j.payload.cleans k = false → j.cleans k = true →
          j'.status.isActive = true ∧ j'.cleans k = true := by
      cases hp : j.pendingPayload with
      | none =>
        refine ⟨j.finish .succeeded "" "" now, ?_, ⟨rfl, rfl, rfl, rfl, rfl, rfl⟩,
          fun h => (by cases h), fun k hno hcl => ?_⟩
        · simp only [Op.apply, Queue.succeed, Queue.finish, hj, hp, if_true]
          rfl
        · simp [WorkJob.cleans, hno, hp] at hcl
      | some p =>
        refine ⟨j.requeuePending p now, ?_, ⟨rfl, rfl, rfl, rfl, rfl, rfl⟩,
          fun h => (by cases h), fun k hno hcl => ⟨rfl, ?_⟩⟩
        · simp only [Op.apply, Queue.succeed, Queue.finish, hj, hp, if_true]
          rfl
        · simp only [WorkJob.cleans, hno, hp, Bool.false_or, Option.any_some] at hcl
          simp [WorkJob.cleans, WorkJob.requeuePending, hcl]
    have hmem : ∀ x ∈ ((Op.succeed id owner).apply s now).jobs,
        x = j' ∨ (x ∈ s.jobs ∧ x.id ≠ j.id) := by
      rw [hjobs]
      exact fun x hx => (mem_put_job hm hsame.id x).mp hx
    refine ⟨fun x hx hxa n hn => ?_, fun x hx hxl => ?_, fun n k hcl hno => ?_⟩
    · rcases hmem x hx with rfl | ⟨hx, -⟩
      · rw [hsame.seriesKey]
        refine hc j hm ?_ n (hsame.dedupeKey ▸ hn)
        rw [WorkJob.activeRepair_iff, hlive.1]
        exact ⟨hsame.kind ▸ (WorkJob.activeRepair_iff.mp hxa).1, rfl⟩
      · exact hc x hx hxa n hn
    · rcases hmem x hx with rfl | ⟨hx, -⟩
      · exact absurd hxl hnl
      · exact hx
    · obtain ⟨x, hx, hxa, hxd, hxc⟩ := hcl
      unfold Queue.Cleans
      rw [hjobs]
      by_cases he : x.id = j.id
      · obtain rfl := hw.jobs.eq hx hm he
        have hxk := (WorkJob.activeRepair_iff.mp hxa).1
        obtain ⟨hact, hkeys⟩ := hrow k (hno x rfl hxk hxd) hxc
        exact ⟨j', Table.mem_put_self hx hsame.id.symm, WorkJob.activeRepair_iff.mpr
          ⟨hsame.kind.trans hxk, hact⟩, hsame.dedupeKey.trans hxd, hkeys⟩
      · exact ⟨x, Table.mem_put_of_ne hx (hsame.id ▸ he), hxa, hxd, hxc⟩

/-! ## Requests -/

variable {r : RepairRequest}

theorem strip_repairKey (n : Nat) : strip (repairKey n) = repairKey n := by
  refine strip_eq_self fun c hc => ?_
  have hfix : ∀ t : String, t.toList.all (fun c => !isSpace c) = true → c ∈ t.toList →
      isSpace c = false := fun t ht hm => by simpa using List.all_eq_true.mp ht c hm
  simp only [repairKey, String.toList_append, List.mem_append] at hc
  rcases hc with (hc | hc) | hc
  · exact hfix "series:" rfl hc
  · exact (isDigit_ne (isDigit_of_mem_toString hc)).1
  · exact hfix ":repair" rfl hc

theorem checkEnqueue_repair (h : r.valid = true) : Queue.checkEnqueue r.args = .ok () := by
  have hne : repairKey r.seriesId ≠ "" := by
    intro he
    have hl := congrArg String.length he
    simp only [repairKey, String.length_append] at hl
    have h7 : "series:".length = 7 := rfl
    have h0 : "".length = 0 := rfl
    omega
  have hp : parseJobPayload r.args.kind r.args.payload = some r.args.payload :=
    parseJobPayload_eq_some.mpr ⟨rfl, rfl, h⟩
  have hkey : strip r.args.dedupeKey ≠ "" := (strip_repairKey r.seriesId).symm ▸ hne
  unfold Queue.checkEnqueue
  rw [if_neg hkey, if_neg (show ¬ r.args.maxAttempts < 1 from (by decide : ¬ 3 < 1)), hp]
  rfl

theorem RepairRequest.mem_owed {o : Nat × String} :
    o ∈ r.owed ↔ o.1 = r.seriesId ∧ o.2 ∈ r.incoming.obsoleteStorageKeys ∧ o.2 ≠ "" := by
  simp only [owed, List.mem_map, List.mem_filter, decide_eq_true_eq]
  constructor
  · rintro ⟨k, ⟨hk, hne⟩, rfl⟩
    exact ⟨rfl, hk, hne⟩
  · rintro ⟨h, hk, hne⟩
    exact ⟨o.2, ⟨hk, hne⟩, Prod.ext h.symm rfl⟩

/-- The job that a request finds takes its keys. -/
theorem request_keeps (hw : s.WellFormed) (hc : s.CanonicalRepairs)
    (hj : s.activeJob .libraryRepair (repairKey r.seriesId) = some j) (hv : r.valid = true)
    (hm : r.mergeInto j = some j') :
    s.KeepsCleanup (s.putJob j') ∧ ∀ o ∈ r.owed, (s.putJob j').Cleans o.1 o.2 := by
  obtain ⟨hjm, hk, hd, ha⟩ := Queue.activeJob_some hj
  have hpos : 0 < r.seriesId := by
    simp only [RepairRequest.valid, JobPayload.validate, Bool.and_eq_true, decide_eq_true_eq] at hv
    exact hv.1.2
  obtain ⟨hkeys, hpay⟩ := mergeInto_slots hm
  have hrow := mergeInto_some hm hk (hw.rows j hjm) hpos hv
  have hact : j.activeRepair = true := WorkJob.activeRepair_iff.mpr ⟨hk, ha⟩
  refine ⟨.put_same hw hc hjm hact ⟨hrow.same.id, hrow.same.kind, hrow.same.seriesKey,
    hrow.same.cycleId, hrow.status, fun n hn => hrow.same.dedupeKey.trans hn,
    fun k hne hcl => hkeys k hne (.inl hcl), hpay⟩ hrow.row hrow.same.dedupeKey, fun o ho => ?_⟩
  obtain ⟨hser, hkey, hne⟩ := RepairRequest.mem_owed.mp ho
  refine ⟨j', Table.mem_put_self hjm hrow.same.id.symm, ?_, ?_, hkeys o.2 hne (.inr hkey)⟩
  · rw [WorkJob.activeRepair_iff, hrow.same.kind, hrow.status]
    exact ⟨hk, ha⟩
  · rw [hrow.same.dedupeKey, hd, hser]

/-- The job that a request inserts has its keys. -/
theorem insert_keeps (hw : s.WellFormed) (hc : s.CanonicalRepairs)
    (hj : s.activeJob .libraryRepair (repairKey r.seriesId) = none) (hv : r.valid = true) :
    s.KeepsCleanup ((Op.enqueue r.args).apply s now) ∧
      ∀ o ∈ r.owed, ((Op.enqueue r.args).apply s now).Cleans o.1 o.2 := by
  have hwell := Op.apply_wellFormed (.enqueue r.args) now hw
  have hd : (s.insertedJob r.args now).dedupeKey = repairKey r.seriesId := strip_repairKey r.seriesId
  have hs : (s.insertedJob r.args now).seriesKey = toString r.seriesId :=
    strip_eq_self fun c hc => (isDigit_ne (isDigit_of_mem_toString hc)).1
  have hnone : s.activeJob r.args.kind (strip r.args.dedupeKey) = none := by
    rw [show strip r.args.dedupeKey = repairKey r.seriesId from hd]
    exact hj
  have hnew : (Op.enqueue r.args).apply s now = s.enqueueNew r.args now := by
    simp only [Op.apply, Queue.enqueue, checkEnqueue_repair hv, hnone, committed]
  rw [hnew] at hwell ⊢
  have hmem : ∀ x, x ∈ (s.enqueueNew r.args now).jobs ↔
      x ∈ s.jobs ∨ x = s.insertedJob r.args now := by
    intro x
    rw [Queue.enqueueNew_jobs, List.mem_append, List.mem_singleton]
  refine ⟨⟨hwell, fun x hx hxa n hn => ?_, fun n k _ hcl => ?_, fun x hx hxk hxl => ?_⟩, fun o ho => ?_⟩
  · rcases (hmem x).mp hx with hx | rfl
    · exact hc x hx hxa n hn
    · rw [hd] at hn
      rw [hs, parseInt_toString, repairKey_inj hn]
      exact .inr rfl
  · obtain ⟨x, hx, hx'⟩ := hcl
    exact ⟨x, (hmem x).mpr (.inl hx), hx'⟩
  · rcases (hmem x).mp hx with hx | rfl
    · exact ⟨x, hx, hxk, hxl, rfl, rfl⟩
    · cases hxl
  · obtain ⟨hser, hkey, hne⟩ := RepairRequest.mem_owed.mp ho
    refine ⟨_, (hmem _).mpr (.inr rfl), rfl, hser ▸ hd, ?_⟩
    have hpay : (s.insertedJob r.args now).payload = .libraryRepair r.incoming := rfl
    simp [WorkJob.cleans, hpay, JobPayload.cleans, hkey]

/-- A row that has not changed since it was read takes the keys of the request. -/
theorem merge_keeps {row read job job' : WorkJob} (hw : s.WellFormed) (hc : s.CanonicalRepairs)
    (hr : s.job? read.id = some row) (hv : r.valid = true) (hread : read.activeRepair = true)
    (hkey : read.dedupeKey = repairKey r.seriesId) (hjob : job.mergeState = read.mergeState)
    (hjw : job.WellFormed) (hcur : row.mergeState = read.mergeState)
    (hm : r.mergeInto job = some job') :
    s.KeepsCleanup (s.putJob (row.flushed read job')) ∧
      ∀ o ∈ r.owed, (s.putJob (row.flushed read job')).Cleans o.1 o.2 := by
  obtain ⟨hrm, -⟩ := Queue.job?_some hr
  obtain ⟨hkind, hact⟩ := WorkJob.activeRepair_iff.mp hread
  simp only [WorkJob.mergeState, Prod.mk.injEq] at hjob hcur
  obtain ⟨hjk, hjd, hjs, hjp, hjq⟩ := hjob
  obtain ⟨hrk, hrd, hrs, hrp, hrq⟩ := hcur
  have hpos : 0 < r.seriesId := by
    simp only [RepairRequest.valid, JobPayload.validate, Bool.and_eq_true, decide_eq_true_eq] at hv
    exact hv.1.2
  obtain ⟨hkeys, hpay⟩ := mergeInto_slots hm
  have hrow := mergeInto_some hm (hjk.trans hkind) hjw hpos hv
  -- the flush leaves the slots as the merge set them
  have hp : (row.flushed read job').payload = job'.payload := by
    unfold WorkJob.flushed
    dsimp only
    split
    · rename_i he
      rw [hrp, he]
    · rfl
  have hq : (row.flushed read job').pendingPayload = job'.pendingPayload := by
    unfold WorkJob.flushed
    dsimp only
    split
    · rename_i he
      rw [hrq, he]
    · rfl
  have hcl : ∀ k, (row.flushed read job').cleans k = job'.cleans k := by
    intro k
    simp only [WorkJob.cleans, hp, hq]
  have hold : ∀ k, row.cleans k = job.cleans k := by
    intro k
    simp only [WorkJob.cleans, hrp, hrq, hjp, hjq]
  have hra : row.activeRepair = true := by
    rw [WorkJob.activeRepair_iff, hrk, hrs]
    exact ⟨hkind, hact⟩
  have hwf := hw.rows row hrm
  have hvalid : (row.flushed read job').WellFormed := by
    refine ⟨?_, fun q hqs => ?_, hwf.units, hwf.ceiling, hwf.attempts, hwf.lease, hwf.owner⟩
    · rw [hp]
      show job'.payload.ValidFor row.kind
      rw [hrk, ← hjk, ← hrow.same.kind]
      exact hrow.row.payload
    · show q.ValidFor row.kind
      rw [hrk, ← hjk, ← hrow.same.kind]
      exact hrow.row.pending q (hq ▸ hqs)
  refine ⟨.put_same hw hc hrm hra ⟨rfl, rfl, rfl, rfl, rfl, fun _ h => h, fun k hne hk => ?_,
    fun hl => ?_⟩ hvalid rfl, fun o ho => ?_⟩
  · rw [hcl]
    exact hkeys k hne (.inl (hold k ▸ hk))
  · rw [hp, hpay (hjs.trans (hrs.symm.trans hl)), hjp, hrp]
  · obtain ⟨hser, hkey', hne⟩ := RepairRequest.mem_owed.mp ho
    refine ⟨_, Table.mem_put_self hrm rfl, hra, ?_, ?_⟩
    · exact hrd.trans (hkey.trans (congrArg repairKey hser.symm))
    · rw [hcl]
      exact hkeys o.2 hne (.inr hkey')

end

/-! ## Runs -/

/-- The queue, the transactions under way, the running attempts and the keys that are owed. -/
structure Cleanup.Ok (c : Cleanup) : Prop where
  queue : c.queue.WellFormed
  canonical : c.queue.CanonicalRepairs
  attempts : ∀ j ∈ c.queue.jobs, j.kind = .libraryRepair → j.status = .leased →
    c.attempt? j.id = some j.payload
  missed : ∀ r, .missed r ∈ c.calls → r.valid = true
  found : ∀ r read job, .found r read job ∈ c.calls → r.valid = true ∧ read.activeRepair = true ∧
    read.dedupeKey = repairKey r.seriesId ∧ job.mergeState = read.mergeState ∧ job.WellFormed
  named : ∀ o ∈ c.owed, o.2 ≠ ""
  kept : ∀ o ∈ c.owed, c.queue.Cleans o.1 o.2

section
variable {c c' : Cleanup} {m : CleanupMove × Time} {now : Time}

/-- A transaction that commits and keeps the keys, with those that it owes from now on. -/
theorem Cleanup.Ok.commit (h : c.Ok) {q : Queue} {calls : List RepairCall}
    (owed : List (Nat × String)) (hq : c.queue.KeepsCleanup q) (hcalls : ∀ x ∈ calls, x ∈ c.calls)
    (howed : ∀ o ∈ owed, o.2 ≠ "" ∧ q.Cleans o.1 o.2) :
    ({ c with queue := q, calls := calls, owed := owed ++ c.owed }).Ok := by
  refine ⟨hq.queue, hq.canonical, fun j hj hk hl => ?_, fun r hr => h.missed r (hcalls _ hr),
    fun r read job hr => h.found r read job (hcalls _ hr), fun o ho => ?_, fun o ho => ?_⟩
  · obtain ⟨j₀, hj₀, hk₀, hl₀, hid, hp⟩ := hq.running j hj hk hl
    rw [← hid, ← hp]
    exact h.attempts j₀ hj₀ hk₀ hl₀
  · rcases List.mem_append.mp ho with ho | ho
    · exact (howed o ho).1
    · exact h.named o ho
  · rcases List.mem_append.mp ho with ho | ho
    · exact (howed o ho).2
    · exact hq.cleans o.1 o.2 (h.named o ho) (h.kept o ho)

/-- A call of a worker. -/
theorem Cleanup.Ok.call (h : c.Ok) {op : Op} (hop : op.handlesRepairs c.queue now = true) :
    ({ c with
      queue := op.apply c.queue now
      attempts := ((op.returned c.queue now).map fun l : JobLease => (l.id, l.payload)).toList ++
        c.attempts
      owed := c.owed.filter fun o => !(c.succeeds op now).any (c.cleaned · o) }).Ok := by
  have howed : ∀ {o}, o ∈ c.owed.filter (fun o => !(c.succeeds op now).any (c.cleaned · o)) →
      o ∈ c.owed ∧ ∀ j, c.succeeds op now = some j → c.cleaned j o = false := by
    intro o ho
    obtain ⟨ho, hno⟩ := List.mem_filter.mp ho
    refine ⟨ho, fun j hj => ?_⟩
    simpa [hj] using hno
  by_cases hs : ∃ id owner, op = .succeed id owner
  · obtain ⟨id, owner, rfl⟩ := hs
    obtain ⟨hw, hc, hrun, hcl⟩ := succeed_keeps h.queue h.canonical id owner
    refine ⟨hw, hc, fun j hj hk hl => h.attempts j (hrun j hj hl) hk hl, h.missed, h.found,
      fun o ho => h.named o (howed ho).1, fun o ho => ?_⟩
    obtain ⟨ho, hno⟩ := howed ho
    refine hcl o.1 o.2 (h.kept o ho) fun j hj hk hd => ?_
    -- the attempt that succeeds has the payload of the row
    obtain ⟨hget, hlive, -⟩ := Queue.selectHeld_some hj
    have hatt := h.attempts j (Queue.job?_some hget).1 hk hlive.1
    have hnot := hno j hj
    simpa [Cleanup.cleaned, hk, hd, hatt] using hnot
  · have hsucceed : ∀ id owner, op ≠ .succeed id owner := fun id owner he => hs ⟨id, owner, he⟩
    have hstay : c.queue.SlotsStay (op.apply c.queue now) (op.returned c.queue now) := by
      by_cases hclaim : ∃ env a, op = .claim env a
      · obtain ⟨env, a, rfl⟩ := hclaim
        exact claim_slotsStay h.queue
      · have hclaim : ∀ env a, op ≠ .claim env a := fun env a he => hclaim ⟨env, a, he⟩
        have hret : op.returned c.queue now = none := by
          cases op with
          | claim env a => exact absurd rfl (hclaim env a)
          | _ => rfl
        have hroute : op.rerouted = none := by
          cases op with
          | reroute | rerouteWaiting => cases hop
          | _ => rfl
        have hreq : ∀ a, op ≠ .enqueue a := by
          rintro a rfl
          cases hop
        rw [hret]
        exact (Op.slotsKept h.queue hclaim hsucceed hroute hreq).stay
    have hact : ∀ j ∈ c.queue.jobs, j.activeRepair = true →
        ((op.apply c.queue now).job? j.id).any (·.status.isActive) = true := by
      intro j hj ha
      have hall : (c.queue.jobs.all fun j =>
          !j.activeRepair || ((op.apply c.queue now).job? j.id).any (·.status.isActive)) = true := by
        cases op with
        | succeed id owner => exact absurd rfl (hsucceed id owner)
        | claim | heartbeat | progress | retry | release | defer => exact hop
        | _ => cases hop
      have hj := List.all_eq_true.mp hall j hj
      simpa [ha] using hj
    have hw' := op.apply_wellFormed now h.queue
    refine ⟨hw', fun j' hj' ha n hn => ?_, fun j' hj' hk hl => ?_, h.missed, h.found,
      fun o ho => h.named o (howed ho).1, fun o ho => ?_⟩
    · obtain ⟨j, hj, hsame, -, hback, -⟩ := hstay.backward j' hj'
      obtain ⟨hk, ha⟩ := WorkJob.activeRepair_iff.mp ha
      rw [hsame.seriesKey]
      exact h.canonical j hj (WorkJob.activeRepair_iff.mpr ⟨hsame.kind.symm.trans hk, hback ha⟩) n
        (hsame.dedupeKey.symm.trans hn)
    · obtain ⟨j, hj, hsame, hp, -, hleased⟩ := hstay.backward j' hj'
      rcases hleased hl with ⟨l, hret, hid, hpay⟩ | ⟨hl₀, hno⟩
      · rw [Option.mem_def.mp hret]
        simp [Cleanup.attempt?, hid, hpay]
      · have hold := h.attempts j hj (hsame.kind.symm.trans hk) hl₀
        rw [← hsame.id, ← hp] at hold
        cases hret : op.returned c.queue now with
        | none => exact hold
        | some l =>
          have hne : l.id ≠ j'.id := hno l hret
          simpa [Cleanup.attempt?, hne] using hold
    · obtain ⟨j, hj, ha, hd, hcl⟩ := h.kept o (howed ho).1
      obtain ⟨j', hj', hsame, hp, hq⟩ := hstay.forward j hj
      have hactive := hact j hj ha
      rw [← hsame.id, show (op.apply c.queue now).job? j'.id = some j' from hw'.jobs.get_eq hj']
        at hactive
      refine ⟨j', hj', WorkJob.activeRepair_iff.mpr
        ⟨hsame.kind.trans (WorkJob.activeRepair_iff.mp ha).1, hactive⟩, hsame.dedupeKey.trans hd, ?_⟩
      simpa only [WorkJob.cleans, hp, hq] using hcl

/-- Only the transactions under way change. -/
theorem Cleanup.Ok.withCalls (h : c.Ok) {calls : List RepairCall}
    (hm : ∀ r, .missed r ∈ calls → r.valid = true)
    (hf : ∀ r read job, .found r read job ∈ calls → r.valid = true ∧ read.activeRepair = true ∧
      read.dedupeKey = repairKey r.seriesId ∧ job.mergeState = read.mergeState ∧ job.WellFormed) :
    ({ c with calls := calls }).Ok :=
  ⟨h.queue, h.canonical, h.attempts, hm, hf, h.named, h.kept⟩

theorem CleanupStep.ok (h : CleanupStep c m c') (ho : c.Ok) (hcur : c.ReadsCurrent m) : c'.Ok := by
  obtain ⟨move, now⟩ := m
  unfold CleanupStep Cleanup.move at h
  cases move with
  | call op =>
    dsimp only at h
    split at h
    · rename_i hop
      cases h
      exact ho.call hop
    · cases h
  | request r =>
    dsimp only at h
    split at h
    · rename_i hv
      simp only [Option.bind_eq_bind, Option.bind_eq_some_iff] at h
      obtain ⟨j, hj, j', hm, hc'⟩ := h
      cases hc'
      obtain ⟨hkeep, howed⟩ := request_keeps ho.queue ho.canonical hj hv hm
      exact ho.commit r.owed hkeep (fun _ hx => hx) fun o hmem =>
        ⟨(RepairRequest.mem_owed.mp hmem).2.2, howed o hmem⟩
    · cases h
  | miss r =>
    dsimp only at h
    split at h
    · rename_i hv
      cases h
      refine ho.withCalls (fun r' hr' => ?_) fun r' read job hr' => ?_
      · rcases List.mem_cons.mp hr' with he | hr'
        · cases he
          exact hv
        · exact ho.missed r' hr'
      · rcases List.mem_cons.mp hr' with he | hr'
        · cases he
        · exact ho.found r' read job hr'
    · cases h
  | insert r =>
    dsimp only at h
    split at h
    · rename_i hcall
      obtain rfl := Option.some.inj h
      have hkeep : c.queue.KeepsCleanup ((Op.enqueue r.args).apply c.queue now) ∧
          ∀ o ∈ r.owed, ((Op.enqueue r.args).apply c.queue now).Cleans o.1 o.2 :=
        insert_keeps ho.queue ho.canonical hcall.2 (ho.missed r hcall.1)
      obtain ⟨hkeep, howed⟩ := hkeep
      exact ho.commit r.owed hkeep (fun _ hx => List.mem_of_mem_erase hx) fun o hmem =>
        ⟨(RepairRequest.mem_owed.mp hmem).2.2, howed o hmem⟩
    · cases h
  | read r conflict =>
    dsimp only at h
    split at h
    · rename_i hcall
      simp only [Option.bind_eq_bind, Option.bind_eq_some_iff] at h
      obtain ⟨j, hj, hc'⟩ := h
      cases hc'
      obtain ⟨hjm, hk, hd, ha⟩ := Queue.activeJob_some hj
      have hrow := ho.queue.rows j hjm
      refine ho.withCalls (fun r' hr' => ?_) fun r' read job hr' => ?_
      · rcases List.mem_cons.mp hr' with he | hr'
        · cases he
        · exact ho.missed r' (List.mem_of_mem_erase hr')
      · rcases List.mem_cons.mp hr' with he | hr'
        · cases he
          refine ⟨ho.missed r hcall, WorkJob.activeRepair_iff.mpr ⟨hk, ha⟩, hd, ?_, ?_⟩
          · split <;> rfl
          · split
            · exact hrow
            · exact ⟨hrow.payload, hrow.pending, hrow.units, hrow.ceiling, hrow.attempts, hrow.lease,
                hrow.owner⟩
        · exact ho.found r' read job (List.mem_of_mem_erase hr')
    · cases h
  | merge r read job =>
    dsimp only at h
    split at h
    · rename_i hcall
      simp only [Option.bind_eq_bind, Option.bind_eq_some_iff] at h
      obtain ⟨row, hrow, job', hm, hc'⟩ := h
      cases hc'
      obtain ⟨hv, hread, hkey, hjob, hjw⟩ := ho.found r read job hcall
      obtain ⟨hkeep, howed⟩ := merge_keeps ho.queue ho.canonical hrow hv hread hkey hjob hjw
        (hcur row hrow) hm
      exact ho.commit r.owed hkeep (fun _ hx => List.mem_of_mem_erase hx) fun o hmem =>
        ⟨(RepairRequest.mem_owed.mp hmem).2.2, howed o hmem⟩
    · cases h
  | scan =>
    cases h
    refine ho.withCalls (fun r hr => ?_) fun r read job hr => ?_
    · rcases List.mem_cons.mp hr with he | hr
      · cases he
      · exact ho.missed r hr
    · rcases List.mem_cons.mp hr with he | hr
      · cases he
      · exact ho.found r read job hr
  | reconcile ids =>
    dsimp only at h
    split at h
    · split at h
      · rename_i hrec
        cases h
        have hkeep := Queue.reconcileActiveJobs_spec hrec ho.queue ho.canonical
        exact ho.commit [] hkeep (fun _ hx => List.mem_of_mem_erase hx)
          fun o hmem => (by cases hmem)
      · cases h
    · cases h
  | rollback call =>
    cases h
    exact ho.withCalls (fun r hr => ho.missed r (List.mem_of_mem_erase hr))
      fun r read job hr => ho.found r read job (List.mem_of_mem_erase hr)

/-- In every run in which a job that is locked after it was read has not changed in between: a key
that a request named is in the active repair of its series until an attempt that had it succeeded,
and a series has one active repair with its canonical key. -/
theorem cleanup_kept {s : Queue} {tr : List (Cleanup × CleanupMove × Time)} (hw : s.WellFormed)
    (hc : s.CanonicalRepairs) (h : Run CleanupStep (Cleanup.start s) tr c)
    (hcur : Run.Meets Cleanup.ReadsCurrent tr) :
    ∀ x, Run.Visits tr c x → (∀ o ∈ x.owed, x.queue.Cleans o.1 o.2) ∧
      ∀ n, ∀ j ∈ x.queue.jobs, ∀ k ∈ x.queue.jobs, j.activeRepair = true → k.activeRepair = true →
        j.dedupeKey = repairKey n → k.dedupeKey = repairKey n → j = k := by
  have hstart : (Cleanup.start s).Ok := by
    refine ⟨hw, hc, fun j hj _ hl => ?_, fun r hr => (by cases hr), fun r read job hr => (by cases hr),
      fun o ho => (by cases ho), fun o ho => (by cases ho)⟩
    have hin : (j.id, j.payload) ∈ (Cleanup.start s).attempts :=
      List.mem_map.mpr ⟨j, List.mem_filter.mpr ⟨hj, beq_iff_eq.mpr hl⟩, rfl⟩
    cases hf : (Cleanup.start s).attempts.find? (·.1 == j.id) with
    | none =>
      have hno := List.find?_eq_none.mp hf _ hin
      simp at hno
    | some a =>
      obtain ⟨k, hk, rfl⟩ := List.mem_map.mp (List.mem_of_find?_eq_some hf)
      have hid : k.id = j.id := by simpa using List.find?_some hf
      rw [Cleanup.attempt?, hf, hw.jobs.eq (List.mem_filter.mp hk).1 hj hid]
      rfl
  have hok := h.invariant_visits hcur hstart fun x m x' hx ho hstep => hstep.ok ho hx
  intro x hx
  have hx := hok x hx
  refine ⟨hx.kept, fun n j hj k hk hja hka hjd hkd => ?_⟩
  obtain ⟨hjk, hja⟩ := WorkJob.activeRepair_iff.mp hja
  obtain ⟨hkk, hka⟩ := WorkJob.activeRepair_iff.mp hka
  exact hx.queue.jobs.eq hj hk
    (hx.queue.oneActive j hj k hk hja hka (hjk.trans hkk.symm) (hjd.trans hkd.symm))

end

/-! ## Two requests at once -/

def Cleanup.replay (moves : List (CleanupMove × Time)) (c : Cleanup) : Cleanup :=
  moves.foldl (fun c m => (c.move m).getD c) c

theorem Cleanup.replay_run (moves : List (CleanupMove × Time)) (c : Cleanup)
    (h : ∀ x ∈ Run.history (fun c m => (c.move m).getD c) c moves, (x.1.move x.2).isSome = true) :
    Run CleanupStep c (Run.history (fun c m => (c.move m).getD c) c moves) (replay moves c) := by
  refine Run.of_foldl _ moves fun x hx => ?_
  obtain ⟨c', hc'⟩ := Option.isSome_iff_exists.mp (h x hx)
  show x.1.move x.2 = some _
  rw [hc']
  rfl

def mergedTitle (key : String) : RepairRequest :=
  { seriesId := 7, reason := "merge", priority := 80, obsoleteStorageKeys := [key] }

def claimRepair : Op := .claim {} { owner := "w", leaseFor := 10 }

/-- The job that was inserted meanwhile is read, then it runs to its end, and only then it is
locked. -/
def lockedTooLate : List (CleanupMove × Time) :=
  [(.miss (mergedTitle "b"), 0), (.miss (mergedTitle "a"), 0), (.insert (mergedTitle "a"), 0),
    (.read (mergedTitle "b") false, 1), (.call claimRepair, 2), (.call (.succeed 1 "w"), 3)] ++
  ((Op.enqueue (mergedTitle "a").args).apply {} 0).jobs.map fun job =>
    (.merge (mergedTitle "b") job job, 4)

theorem lockedTooLate_forgets : ∃ tr c, Run CleanupStep (Cleanup.start {}) tr c ∧
    tr.map Prod.snd = lockedTooLate ∧ (7, "b") ∈ c.owed ∧
      (∀ j ∈ c.queue.jobs, j.status = .succeeded) ∧ ¬ ∀ o ∈ c.owed, c.queue.Cleans o.1 o.2 := by
  have hdone : ∀ j ∈ (Cleanup.replay lockedTooLate (Cleanup.start {})).queue.jobs,
      j.status = .succeeded := by decide +kernel
  have howed : (7, "b") ∈ (Cleanup.replay lockedTooLate (Cleanup.start {})).owed := by
    decide +kernel
  refine ⟨_, _, Cleanup.replay_run lockedTooLate _ (by decide +kernel), rfl, howed, hdone,
    fun h => ?_⟩
  obtain ⟨j, hj, ha, -⟩ := h _ howed
  have hact := (WorkJob.activeRepair_iff.mp ha).2
  rw [hdone j hj] at hact
  cases hact

/-- Locked while the first attempt runs, the second key waits for the attempt after it. -/
theorem cleanup_kept_pending : ∃ tr c, Run CleanupStep (Cleanup.start {}) tr c ∧
    c.owed = [(7, "b")] ∧ ∀ x, Run.Visits tr c x → ∀ o ∈ x.owed, x.queue.Cleans o.1 o.2 := by
  let claimed : List (CleanupMove × Time) := [(.miss (mergedTitle "b"), 0),
    (.miss (mergedTitle "a"), 0), (.insert (mergedTitle "a"), 0), (.call claimRepair, 1)]
  let moves : List (CleanupMove × Time) := claimed ++ (.read (mergedTitle "b") false, 2) ::
    (Cleanup.replay claimed (Cleanup.start {})).queue.jobs.map
      (fun job => (.merge (mergedTitle "b") job job, 3)) ++
    [(.scan, 4), (.reconcile [1], 4), (.call (.succeed 1 "w"), 5)]
  have hrun := Cleanup.replay_run moves (Cleanup.start {}) (by decide +kernel)
  have hcur : ∀ x ∈ Run.history (fun c m => (c.move m).getD c) (Cleanup.start {}) moves,
      x.1.ReadsCurrent x.2 := by decide +kernel
  exact ⟨_, _, hrun, by decide +kernel, fun x hx => (cleanup_kept Queue.wellFormed_empty
    (fun j hj => (by cases hj)) hrun hcur x hx).1⟩

end MangaManager
