import Mathlib.Data.List.Sort
import MangaManager.Lib.Dict
import MangaManager.Queue.Growth

/-!
# Retention of finished jobs

`Retention.prune` is `JobRetention.prune`: finished jobs older than two weeks are added to the
daily aggregates of their buckets and deleted, a batch at a time; then aggregates older than a
year go, and settled cycles without jobs. `seen` is a history variable, every row a finished
job ever had. The aggregates count the deleted jobs as long as none of them is dropped
(`Retention.prune_tally`); the year is counted from the start of the day, so an aggregate can
go while its jobs are less than a year old.
-/

namespace MangaManager

open Lib

/-- `timedelta(days=n)`. -/
def days (n : Int) : Time := n * 86400000000

/-- `replace(hour=0, minute=0, second=0, microsecond=0)`, in UTC. -/
def startOfDay (t : Time) : Time := t - t % days 1

/-! ## The aggregates -/

/-- The columns of `uq_job_daily_aggregate_bucket`. -/
structure AggregateKey where
  day : Time
  kind : JobKind
  source : String
  status : JobState
  errorCode : String
  deriving DecidableEq

/-- The three sums of a bucket. -/
structure Tally where
  jobCount : Nat := 0
  attemptCount : Nat := 0
  durationSeconds : Nat := 0
  deriving DecidableEq

attribute [ext] Tally

/-- The other columns of `job_daily_aggregate`. -/
structure JobDailyAggregate extends Tally where
  updatedAt : Time
  deriving DecidableEq

namespace WorkJob

/-- `completed_at or updated_at`. -/
def completed (j : WorkJob) : Time := j.completedAt.getD j.updatedAt

/-- The bucket `prune` counts the job in. -/
def bucket (j : WorkJob) : AggregateKey :=
  ⟨startOfDay j.completed, j.kind, j.source, j.status, j.errorCode⟩

/-- `max(int((completed - created_at).total_seconds()), 0)`. -/
def durationSeconds (j : WorkJob) : Nat := ((j.completed - j.createdAt).tdiv 1000000).toNat

end WorkJob

namespace Tally

/-- `values[0] += 1; values[1] += attempts; values[2] += …`. -/
def count (j : WorkJob) (v : Tally) : Tally :=
  ⟨v.jobCount + 1, v.attemptCount + j.attempts, v.durationSeconds + j.durationSeconds⟩

def add (v w : Tally) : Tally :=
  ⟨v.jobCount + w.jobCount, v.attemptCount + w.attemptCount, v.durationSeconds + w.durationSeconds⟩

/-- The sums over some jobs. -/
def of (rows : List WorkJob) : Tally :=
  ⟨rows.length, (rows.map WorkJob.attempts).sum, (rows.map WorkJob.durationSeconds).sum⟩

end Tally

/-! ## The pass -/

/-- The queue's tables, the aggregates by their unique key, and the finished rows there ever
were. -/
structure Retention where
  queue : Queue := {}
  aggregates : Dict AggregateKey JobDailyAggregate := ∅
  seen : List WorkJob := []

namespace Queue

/-- The `WHERE` of the selection. -/
def prunable (now : Time) (j : WorkJob) : Bool :=
  let successCutoff := now - days 14
  let failureCutoff := now - days 14
  ((j.status == .succeeded || j.status == .cancelled) &&
      j.completedAt.any fun t => t < successCutoff) ||
    (j.status == .failed && j.completedAt.any fun t => t < failureCutoff)

/-- `ORDER BY completed_at, id`. -/
def OlderFirst (j k : WorkJob) : Prop :=
  j.completed < k.completed ∨ j.completed = k.completed ∧ j.id ≤ k.id

instance : DecidableRel OlderFirst := fun _ _ => inferInstanceAs (Decidable (_ ∨ _ ∧ _))

/-- The rows of one pass; `locked` are the jobs other transactions hold. -/
def prunableRows (s : Queue) (batch : Nat) (locked : List Nat) (now : Time) : List WorkJob :=
  ((s.jobs.filter fun j => prunable now j && j.id ∉ locked).insertionSort OlderFirst).take batch

/-- `DELETE FROM job`, with the rows that refer to a deleted job. -/
def deleteJobs (s : Queue) (ids : List Nat) : Queue :=
  { s with
    jobs := s.jobs.filter fun j => j.id ∉ ids
    permits := s.permits.filter fun p => p.jobId ∉ ids
    reservations := s.reservations.filter fun r => r.jobId ∉ ids
    events := s.events.filter fun e => e.jobId ∉ ids }

/-- `DELETE FROM workload_cycle` of the cycles settled before the cutoff that have no job. -/
def deleteCycles (s : Queue) (cutoff : Time) : Queue :=
  { s with
    cycles := s.cycles.filter fun c =>
      !(c.status == .settled && (c.settledAt.any fun t => t < cutoff) &&
        s.jobs.all fun j => j.cycleId != some c.id) }

end Queue

/-- `buckets`. -/
def aggregateBuckets (rows : List WorkJob) : Dict AggregateKey Tally :=
  Dict.fill WorkJob.bucket Tally.count (fun j => Tally.count j {}) rows

/-- The row of a bucket after the loop over `buckets`. -/
def JobDailyAggregate.absorb (now : Time) (v : Tally) (row : JobDailyAggregate) :
    JobDailyAggregate := { row.toTally.add v with updatedAt := now }

/-- The aggregates after the pass. The session does not autoflush: rows the loop added are
inserted after the deletion, which meets stored rows only. -/
def mergeBuckets (stored : Dict AggregateKey JobDailyAggregate) (buckets : Dict AggregateKey Tally)
    (now : Time) : Dict AggregateKey JobDailyAggregate :=
  let aggregateCutoff := now - days 365
  (stored.merge buckets (JobDailyAggregate.absorb now)
      fun v => JobDailyAggregate.absorb now v { updatedAt := now }).discard
    fun key => key.day < aggregateCutoff && (stored.lookup key).isSome

namespace Retention

/-- `JobRetention.prune`. -/
def prune (s : Retention) (batch : Nat) (locked : List Nat) (now : Time) : Retention × Nat :=
  let rows := s.queue.prunableRows batch locked now
  ({ s with
      queue := (s.queue.deleteJobs (rows.map WorkJob.id)).deleteCycles (now - days 30)
      aggregates := mergeBuckets s.aggregates (aggregateBuckets rows) now },
    rows.length)

/-- Finished rows of a table that are not in the history. -/
def newlyEnded (s : Retention) (q : Queue) : List WorkJob :=
  q.jobs.filter fun j => !j.status.isActive && j ∉ s.seen

/-- A call of the queue; the rows it finished are recorded. -/
def call (s : Retention) (op : Op) (now : Time) : Retention :=
  let q := op.apply s.queue now
  { s with queue := q, seen := s.seen ++ s.newlyEnded q }

end Retention

inductive RetentionCall where
  | call (op : Op)
  | prune (batch : Nat) (locked : List Nat)

def RetentionCall.apply (s : Retention) (l : RetentionCall × Time) : Retention :=
  match l.1 with
  | call op => s.call op l.2
  | prune batch locked => (s.prune batch locked l.2).1

/-- Calls of the queue and passes, at any times. -/
def RetentionStep (s : Retention) (l : RetentionCall × Time) (s' : Retention) : Prop :=
  s' = RetentionCall.apply s l

abbrev RetentionRun := Run RetentionStep {}

/-! ## What is to be conserved -/

namespace Retention

/-- The sums the aggregates hold of a bucket. -/
def tally (s : Retention) (key : AggregateKey) : Tally :=
  ((s.aggregates.lookup key).map JobDailyAggregate.toTally).getD {}

/-- The finished jobs ever in the bucket. -/
def endedIn (s : Retention) (key : AggregateKey) : List WorkJob :=
  s.seen.filter fun j => j.bucket = key

/-- Those still in the table. -/
def remainingIn (s : Retention) (key : AggregateKey) : List WorkJob :=
  s.queue.jobs.filter fun j => !j.status.isActive && j.bucket = key

/-- Those deleted. -/
def prunedIn (s : Retention) (key : AggregateKey) : List WorkJob :=
  s.seen.filter fun j => j ∉ s.queue.jobs && j.bucket = key

/-- The aggregates and the remaining rows account for every finished job of the bucket. -/
structure Conserved (s : Retention) (key : AggregateKey) : Prop where
  jobs : (s.tally key).jobCount + (s.remainingIn key).length = (s.endedIn key).length
  attempts : (s.tally key).attemptCount = ((s.prunedIn key).map WorkJob.attempts).sum
  duration : (s.tally key).durationSeconds = ((s.prunedIn key).map WorkJob.durationSeconds).sum

/-- No active job is deleted, and no cycle that still has a job. -/
structure Spares (s s' : Retention) : Prop where
  active : ∀ j ∈ s.queue.jobs, j.status.isActive = true → ∃ k ∈ s'.queue.jobs, k.id = j.id
  cycles : ∀ c ∈ s.queue.cycles, (∃ j ∈ s'.queue.jobs, j.cycleId = some c.id) →
    ∃ c' ∈ s'.queue.cycles, c'.id = c.id

end Retention

/-- No stored aggregate is of a day that began more than 365 days before the pass. -/
def RetentionCall.KeepsAggregates (s : Retention) (l : RetentionCall × Time) : Prop :=
  match l.1 with
  | call _ => True
  | prune _ _ => ∀ key ∈ s.aggregates, l.2 - days 365 ≤ key.day

/-! ## Sums -/

section
variable {rows : List WorkJob} {key : AggregateKey} {now : Time}

theorem Tally.of_snoc (rows : List WorkJob) (j : WorkJob) :
    Tally.of (rows ++ [j]) = Tally.count j (Tally.of rows) := by
  simp [Tally.of, Tally.count]

theorem Tally.of_append (rows rows' : List WorkJob) :
    Tally.of (rows ++ rows') = (Tally.of rows).add (Tally.of rows') := by
  simp [Tally.of, Tally.add]

theorem Tally.of_perm {rows' : List WorkJob} (h : rows.Perm rows') :
    Tally.of rows = Tally.of rows' := by
  unfold Tally.of
  rw [h.length_eq, (h.map WorkJob.attempts).sum_eq, (h.map WorkJob.durationSeconds).sum_eq]

@[simp] theorem Tally.add_zero (v : Tally) : v.add {} = v := rfl

@[simp] theorem Tally.zero_add (v : Tally) : Tally.add {} v = v := by
  simp [Tally.add]

/-- The loop over the rows counts those of a bucket under its key. -/
theorem lookup_aggregateBuckets (rows : List WorkJob) (key : AggregateKey) :
    (rows.filter (·.bucket = key) = [] ∧ (aggregateBuckets rows).lookup key = none) ∨
      ∃ v, (aggregateBuckets rows).lookup key = some v ∧
        v = Tally.of (rows.filter (·.bucket = key)) ∧ 0 < v.jobCount := by
  refine Dict.fill_spec (P := fun l v => v = Tally.of l ∧ 0 < v.jobCount) (fun j => ?_)
    (fun l j v hv => ?_) rows key
  · exact ⟨by simp [Tally.of, Tally.count], Nat.succ_pos _⟩
  · exact ⟨by rw [hv.1, Tally.of_snoc], Nat.succ_pos _⟩

/-! ## The rows of a pass -/

theorem Queue.prunable_ended {j : WorkJob} (h : Queue.prunable now j = true) :
    j.status.isActive = false := by
  revert h
  unfold Queue.prunable
  cases j.status <;> simp [JobState.isActive]

theorem Queue.prunableRows_sublist_perm (s : Queue) (batch : Nat) (locked : List Nat) (now : Time) :
    ∃ l, (s.prunableRows batch locked now).Sublist l ∧
      l.Perm (s.jobs.filter fun j => Queue.prunable now j && j.id ∉ locked) :=
  ⟨_, List.take_sublist _ _, List.perm_insertionSort _ _⟩

theorem Queue.mem_prunableRows {s : Queue} {batch : Nat} {locked : List Nat} {j : WorkJob}
    (h : j ∈ s.prunableRows batch locked now) : j ∈ s.jobs ∧ j.status.isActive = false := by
  obtain ⟨l, hsub, hperm⟩ := s.prunableRows_sublist_perm batch locked now
  have hm := hperm.mem_iff.mp (hsub.subset h)
  simp only [List.mem_filter, Bool.and_eq_true] at hm
  exact ⟨hm.1, Queue.prunable_ended hm.2.1⟩

theorem Queue.prunableRows_nodup {s : Queue} (hs : s.jobs.Nodup) (batch : Nat)
    (locked : List Nat) (now : Time) : (s.prunableRows batch locked now).Nodup := by
  obtain ⟨l, hsub, hperm⟩ := s.prunableRows_sublist_perm batch locked now
  exact (hperm.nodup_iff.mpr (hs.filter _)).sublist hsub

end

/-! ## Well-formed tables -/

namespace Retention

/-- The history holds every finished row, and a job of the table under an id of the history is the
recorded row. -/
structure WellFormed (s : Retention) : Prop where
  queue : s.queue.WellFormed
  nodup : s.seen.Nodup
  ended : ∀ j ∈ s.seen, j.status.isActive = false
  below : ∀ j ∈ s.seen, j.id < s.queue.nextJob
  same : ∀ j ∈ s.seen, ∀ k ∈ s.queue.jobs, k.id = j.id → k = j
  recorded : ∀ j ∈ s.queue.jobs, j.status.isActive = false → j ∈ s.seen
  counted : ∀ key row, s.aggregates.lookup key = some row → 0 < row.jobCount

theorem wellFormed_empty : WellFormed {} where
  queue := Queue.wellFormed_empty
  nodup := List.nodup_nil
  ended := by simp
  below := by simp
  same := by simp
  recorded := by simp
  counted := by simp

variable {s s' : Retention} {key : AggregateKey} {now : Time} {batch : Nat} {locked : List Nat}

theorem WellFormed.jobs_nodup (hw : s.WellFormed) : s.queue.jobs.Nodup :=
  List.Nodup.of_map _ hw.queue.jobs

theorem mem_prunedIn {j : WorkJob} :
    j ∈ s.prunedIn key ↔ j ∈ s.seen ∧ j ∉ s.queue.jobs ∧ j.bucket = key := by
  simp [prunedIn]

theorem mem_remainingIn {j : WorkJob} : j ∈ s.remainingIn key ↔
    j ∈ s.queue.jobs ∧ j.status.isActive = false ∧ j.bucket = key := by
  simp [remainingIn]

/-- A finished job was deleted or remains. -/
theorem WellFormed.endedIn_length (hw : s.WellFormed) (key : AggregateKey) :
    (s.endedIn key).length = (s.prunedIn key).length + (s.remainingIn key).length := by
  have hperm : (s.endedIn key).Perm (s.prunedIn key ++ s.remainingIn key) := by
    refine (List.perm_ext_iff_of_nodup (hw.nodup.filter _) ?_).mpr fun j => ?_
    · refine List.nodup_append.mpr ⟨hw.nodup.filter _, hw.jobs_nodup.filter _, ?_⟩
      rintro j hj _ hk rfl
      exact (mem_prunedIn.mp hj).2.1 (mem_remainingIn.mp hk).1
    · rw [List.mem_append, mem_prunedIn, mem_remainingIn]
      simp only [List.mem_filter, decide_eq_true_eq]
      constructor
      · rintro ⟨hj, hb⟩
        by_cases hm : j ∈ s.queue.jobs
        · exact .inr ⟨hm, hw.ended j hj, hb⟩
        · exact .inl ⟨hj, hm, hb⟩
      · rintro (⟨hj, -, hb⟩ | ⟨hm, he, hb⟩)
        · exact ⟨hj, hb⟩
        · exact ⟨hw.recorded j hm he, hb⟩
  rw [hperm.length_eq, List.length_append]

/-- A bucket is conserved when its aggregate is the sum over its deleted jobs. -/
theorem WellFormed.conserved_iff (hw : s.WellFormed) :
    s.Conserved key ↔ s.tally key = Tally.of (s.prunedIn key) := by
  have hlen := hw.endedIn_length key
  constructor
  · rintro ⟨hj, ha, hd⟩
    have hc : (s.tally key).jobCount = (s.prunedIn key).length := by omega
    exact Tally.ext hc ha hd
  · intro h
    refine ⟨?_, ?_, ?_⟩ <;> rw [h]
    · exact hlen.symm
    · rfl
    · rfl

/-! ## A pass -/

/-- A pass adds the rows it deletes to the sums of their bucket, and drops a stored bucket older
than the cutoff. -/
theorem prune_tally (s : Retention) (batch : Nat) (locked : List Nat) (now : Time)
    (key : AggregateKey) : (s.prune batch locked now).1.tally key =
      if key.day < now - days 365 ∧ key ∈ s.aggregates then {}
      else (s.tally key).add
        (Tally.of ((s.queue.prunableRows batch locked now).filter (·.bucket = key))) := by
  unfold tally prune mergeBuckets
  simp only [Dict.lookup_discard, Dict.lookup_merge, Bool.and_eq_true, decide_eq_true_eq,
    AList.lookup_isSome]
  split
  · rfl
  · rcases lookup_aggregateBuckets (s.queue.prunableRows batch locked now) key with
      ⟨he, hl⟩ | ⟨v, hl, rfl, -⟩
    · rw [he, hl]
      rfl
    · rw [hl]
      cases s.aggregates.lookup key with
      | none => rfl
      | some row => rfl

@[simp] theorem prune_seen : (s.prune batch locked now).1.seen = s.seen := rfl

/-- The jobs left by a pass. -/
theorem mem_prune_jobs {j : WorkJob} : j ∈ (s.prune batch locked now).1.queue.jobs ↔
    j ∈ s.queue.jobs ∧ j.id ∉ (s.queue.prunableRows batch locked now).map WorkJob.id := by
  simp [prune, Queue.deleteJobs, Queue.deleteCycles]

theorem WellFormed.mem_prune_jobs (hw : s.WellFormed) {j : WorkJob} :
    j ∈ (s.prune batch locked now).1.queue.jobs ↔
      j ∈ s.queue.jobs ∧ j ∉ s.queue.prunableRows batch locked now := by
  rw [Retention.mem_prune_jobs]
  refine and_congr_right fun hj => not_congr ⟨fun hid => ?_, List.mem_map_of_mem⟩
  obtain ⟨k, hk, hkj⟩ := List.mem_map.mp hid
  rwa [← hw.queue.jobs.eq (Queue.mem_prunableRows hk).1 hj hkj]

/-- A pass deletes the rows it selected. -/
theorem WellFormed.prunedIn_prune (hw : s.WellFormed) (batch : Nat) (locked : List Nat)
    (now : Time) (key : AggregateKey) : ((s.prune batch locked now).1.prunedIn key).Perm
      (s.prunedIn key ++ (s.queue.prunableRows batch locked now).filter (·.bucket = key)) := by
  have hrows := Queue.prunableRows_nodup hw.jobs_nodup batch locked now
  have hleft : ((s.prune batch locked now).1.prunedIn key).Nodup := hw.nodup.filter _
  refine (List.perm_ext_iff_of_nodup hleft ?_).mpr fun j => ?_
  · refine List.nodup_append.mpr ⟨hw.nodup.filter _, hrows.filter _, ?_⟩
    rintro j hj _ hk rfl
    exact (mem_prunedIn.mp hj).2.1 (Queue.mem_prunableRows (List.mem_of_mem_filter hk)).1
  · rw [List.mem_append, mem_prunedIn, mem_prunedIn, hw.mem_prune_jobs, List.mem_filter,
      prune_seen, decide_eq_true_eq]
    constructor
    · rintro ⟨hj, hn, hb⟩
      by_cases hm : j ∈ s.queue.jobs
      · exact .inr ⟨not_not.mp fun h => hn ⟨hm, h⟩, hb⟩
      · exact .inl ⟨hj, hm, hb⟩
    · rintro (⟨hj, hn, hb⟩ | ⟨hr, hb⟩)
      · exact ⟨hj, fun h => hn h.1, hb⟩
      · obtain ⟨hm, he⟩ := Queue.mem_prunableRows hr
        exact ⟨hw.recorded j hm he, fun h => h.2 hr, hb⟩

/-- A conserved bucket stays conserved exactly when the pass does not drop its aggregate. -/
theorem WellFormed.conserved_prune (hw : s.WellFormed)
    (hw' : (s.prune batch locked now).1.WellFormed) (hc : s.Conserved key) :
    (s.prune batch locked now).1.Conserved key ↔
      ¬ (key.day < now - days 365 ∧ key ∈ s.aggregates) := by
  have htally := hw.conserved_iff.mp hc
  have hpruned := Tally.of_perm (hw.prunedIn_prune batch locked now key)
  rw [hw'.conserved_iff, prune_tally, hpruned, Tally.of_append, htally]
  split
  · rename_i hdrop
    refine iff_of_false (fun hzero => ?_) (not_not.mpr hdrop)
    obtain ⟨row, hrow⟩ := Option.isSome_iff_exists.mp (AList.lookup_isSome.mpr hdrop.2)
    have hpos := hw.counted key row hrow
    have hrowTally : s.tally key = row.toTally := by rw [tally, hrow]; rfl
    rw [← htally, hrowTally] at hzero
    have hcount := congrArg Tally.jobCount hzero
    simp only [Tally.add] at hcount
    omega
  · rename_i hkeep
    exact iff_of_true rfl hkeep

theorem prune_cycles {c : WorkloadCycle} : c ∈ (s.prune batch locked now).1.queue.cycles ↔
    c ∈ s.queue.cycles ∧ ¬ (c.status = .settled ∧ (∃ t, c.settledAt = some t ∧
      t < now - days 30) ∧ ∀ j ∈ (s.prune batch locked now).1.queue.jobs,
        j.cycleId ≠ some c.id) := by
  simp only [prune, Queue.deleteCycles, List.mem_filter, Bool.not_eq_true', Bool.eq_false_iff,
    ne_eq, Bool.and_eq_true, beq_iff_eq, Option.any_eq_true, decide_eq_true_eq, List.all_eq_true,
    bne_iff_ne, and_assoc]
  rfl

/-- Finished rows and unused cycles are all a pass deletes. -/
theorem WellFormed.prune_queue (hw : s.WellFormed) :
    (s.prune batch locked now).1.queue.WellFormed := by
  have hsub : (s.prune batch locked now).1.queue.jobs.Sublist s.queue.jobs := List.filter_sublist
  have hcycles : (s.prune batch locked now).1.queue.cycles.Sublist s.queue.cycles :=
    List.filter_sublist
  refine ⟨hw.queue.jobs.sublist (hsub.map _), fun j hj => hw.queue.jobsBelow j (hsub.subset hj),
    fun j hj => hw.queue.rows j (hsub.subset hj), fun j hj k hk =>
      hw.queue.oneActive j (hsub.subset hj) k (hsub.subset hk),
    hw.queue.cycles.sublist (hcycles.map _), fun i hi =>
      hw.queue.cyclesBelow i ((hcycles.map _).subset hi), fun j hj => ?_⟩
  obtain ⟨i, hi, hji⟩ := hw.queue.jobCycles j (hsub.subset hj)
  obtain ⟨c, hc, rfl⟩ := List.mem_map.mp hi
  exact ⟨c.id, List.mem_map_of_mem (prune_cycles.mpr ⟨hc, fun h => h.2.2 j hj hji⟩), hji⟩

theorem WellFormed.prune (hw : s.WellFormed) (batch : Nat) (locked : List Nat) (now : Time) :
    (s.prune batch locked now).1.WellFormed where
  queue := hw.prune_queue
  nodup := hw.nodup
  ended := hw.ended
  below := hw.below
  same j hj k hk := hw.same j hj k (hw.mem_prune_jobs.mp hk).1
  recorded j hj := hw.recorded j (hw.mem_prune_jobs.mp hj).1
  counted key row hrow := by
    simp only [Retention.prune, mergeBuckets, Dict.lookup_discard, Dict.lookup_merge] at hrow
    split at hrow
    · cases hrow
    · rcases lookup_aggregateBuckets (s.queue.prunableRows batch locked now) key with
        ⟨-, hl⟩ | ⟨v, hl, -, hv⟩
      · rw [hl] at hrow
        exact hw.counted key row hrow
      · rw [hl] at hrow
        cases hs : s.aggregates.lookup key with
        | none =>
          rw [hs] at hrow
          cases hrow
          exact Nat.lt_of_lt_of_le hv (Nat.le_add_left _ _)
        | some row' =>
          rw [hs] at hrow
          cases hrow
          exact Nat.lt_of_lt_of_le hv (Nat.le_add_left _ _)

/-- No active job is deleted, and no cycle that still has a job. -/
theorem WellFormed.prune_spares (hw : s.WellFormed) : s.Spares (s.prune batch locked now).1 where
  active j hj ha := by
    refine ⟨j, hw.mem_prune_jobs.mpr ⟨hj, fun hr => ?_⟩, rfl⟩
    have he := (Queue.mem_prunableRows hr).2
    rw [ha] at he
    cases he
  cycles c hc h := by
    obtain ⟨j, hj, hjc⟩ := h
    exact ⟨c, prune_cycles.mpr ⟨hc, fun hdel => hdel.2.2 j hj hjc⟩, rfl⟩

/-! ## A call of the queue -/

/-- The rows of `seen` are as the tables `q` and `q'` know them, and the same of them are there. -/
structure Past (seen : List WorkJob) (q q' : Queue) : Prop where
  below : ∀ j ∈ seen, j.id < q'.nextJob
  same : ∀ j ∈ seen, ∀ k ∈ q'.jobs, k.id = j.id → k = j
  mem : ∀ j ∈ seen, j ∈ q'.jobs ↔ j ∈ q.jobs
  cycles : ∀ i ∈ q.cycles.map WorkloadCycle.id, i ∈ q'.cycles.map WorkloadCycle.id

/-- Calls change active rows and insert rows under new ids. -/
theorem WellFormed.past (hw : s.WellFormed) (op : Op) (now : Time) :
    Past s.seen s.queue (op.apply s.queue now) := by
  refine Op.apply_inv (P := Past s.seen s.queue) op now hw.queue.jobs ?_
    ⟨hw.below, hw.same, fun _ _ => Iff.rfl, fun _ => id⟩
  rintro q q' ⟨hbelow, hsame, hmem, hcycles⟩ ht
  have hgrow : ∀ i ∈ s.queue.cycles.map WorkloadCycle.id, i ∈ q'.cycles.map WorkloadCycle.id :=
    fun i hi => ht.cyclesGrow.subset i (hcycles i hi)
  rcases ht.jobs_cases with ⟨hj, hn⟩ | ⟨a, -, -, -, rfl⟩ | ⟨j, j', hj, hrow, hjobs, hn⟩
  · exact ⟨by rwa [hn], by rwa [hj], by rwa [hj], hgrow⟩
  · -- the inserted row has an id no row had
    have hnew : ∀ j ∈ s.seen, (q.insertedJob a now).id ≠ j.id := by
      intro j hj
      have hlt := hbelow j hj
      show q.nextJob ≠ j.id
      omega
    refine ⟨fun j hj => ?_, fun j hj k hk hid => ?_, fun j hj => ?_, hgrow⟩
    · rw [Queue.enqueueNew_nextJob]
      exact Nat.lt_succ_of_lt (hbelow j hj)
    · rw [Queue.enqueueNew_jobs, List.mem_append, List.mem_singleton] at hk
      rcases hk with hk | rfl
      · exact hsame j hj k hk hid
      · exact absurd hid (hnew j hj)
    · rw [Queue.enqueueNew_jobs, List.mem_append, List.mem_singleton, ← hmem j hj]
      exact or_iff_left fun he => hnew j hj (by rw [he])
  · -- the row that changes was active, so it is none of the finished ones
    have hother : ∀ k ∈ s.seen, j'.id ≠ k.id := by
      intro k hk hid
      have he := hw.ended k hk
      rw [← hsame k hk j hj (hrow.sameJob.id ▸ hid), hrow.active] at he
      cases he
    refine ⟨by rwa [hn], fun k hk x hx hid => ?_, fun k hk => ?_, hgrow⟩
    · rw [hjobs] at hx
      rcases Table.mem_put.mp hx with ⟨rfl, -⟩ | ⟨hx, -⟩
      · exact absurd hid (hother k hk)
      · exact hsame k hk x hx hid
    · rw [hjobs, ← hmem k hk, Table.mem_put]
      constructor
      · rintro (⟨rfl, -⟩ | ⟨hk', -⟩)
        · exact absurd rfl (hother k hk)
        · exact hk'
      · exact fun hk' => .inr ⟨hk', fun he => hother k hk he.symm⟩

theorem mem_newlyEnded {q : Queue} {j : WorkJob} :
    j ∈ s.newlyEnded q ↔ j ∈ q.jobs ∧ j.status.isActive = false ∧ j ∉ s.seen := by
  simp [newlyEnded]

theorem WellFormed.call (hw : s.WellFormed) (op : Op) (now : Time) :
    (s.call op now).WellFormed := by
  have hq := Op.apply_wellFormed op now hw.queue
  have hp := hw.past op now
  refine ⟨hq, ?_, ?_, ?_, ?_, ?_, hw.counted⟩
  · refine List.nodup_append.mpr ⟨hw.nodup, (List.Nodup.of_map _ hq.jobs).filter _, ?_⟩
    rintro j hj _ hk rfl
    exact (mem_newlyEnded.mp hk).2.2 hj
  · intro j hj
    rcases List.mem_append.mp hj with hj | hj
    · exact hw.ended j hj
    · exact (mem_newlyEnded.mp hj).2.1
  · intro j hj
    rcases List.mem_append.mp hj with hj | hj
    · exact hp.below j hj
    · exact hq.jobsBelow j (mem_newlyEnded.mp hj).1
  · intro j hj k hk hid
    rcases List.mem_append.mp hj with hj | hj
    · exact hp.same j hj k hk hid
    · exact hq.jobs.eq hk (mem_newlyEnded.mp hj).1 hid
  · intro j hj he
    by_cases hs : j ∈ s.seen
    · exact List.mem_append_left _ hs
    · exact List.mem_append_right _ (mem_newlyEnded.mpr ⟨hj, he, hs⟩)

/-- A call deletes no row. -/
theorem WellFormed.prunedIn_call (hw : s.WellFormed) (op : Op) (now : Time) (key : AggregateKey) :
    (s.call op now).prunedIn key = s.prunedIn key := by
  have hp := hw.past op now
  have hnew : (s.newlyEnded (op.apply s.queue now)).filter
      (fun j => j ∉ (op.apply s.queue now).jobs && j.bucket = key) = [] := by
    refine List.filter_eq_nil_iff.mpr fun j hj => ?_
    simp [(mem_newlyEnded.mp hj).1]
  have hold : s.seen.filter (fun j => j ∉ (op.apply s.queue now).jobs && j.bucket = key) =
      s.prunedIn key := by
    refine List.filter_congr fun j hj => ?_
    simp only [hp.mem j hj]
  rw [prunedIn, Retention.call, List.filter_append, hnew, hold, List.append_nil]

theorem WellFormed.conserved_call (hw : s.WellFormed) (op : Op) (now : Time) :
    (s.call op now).Conserved key ↔ s.Conserved key := by
  rw [(hw.call op now).conserved_iff, hw.conserved_iff, hw.prunedIn_call]
  rfl

theorem WellFormed.call_spares (hw : s.WellFormed) (op : Op) (now : Time) :
    s.Spares (s.call op now) where
  active j hj _ := by
    have hkeep := (Op.apply_rowsOk op now (Queue.RowsOk.of_wellFormed hw.queue)).2 j.id
    exact Table.isSome_get.mp (hkeep (Table.isSome_get.mpr ⟨j, hj, rfl⟩))
  cycles c hc _ := by
    have hmem := (hw.past op now).cycles c.id (List.mem_map_of_mem hc)
    exact List.mem_map.mp hmem

end Retention

/-! ## Runs -/

section
variable {tr : List (Retention × (RetentionCall × Time))} {s s' : Retention}
  {l : RetentionCall × Time}

theorem RetentionStep.wellFormed (h : RetentionStep s l s') (hw : s.WellFormed) :
    s'.WellFormed := by
  obtain ⟨c, now⟩ := l
  cases h
  cases c with
  | call op => exact hw.call op now
  | prune batch locked => exact hw.prune batch locked now

theorem RetentionStep.spares (h : RetentionStep s l s') (hw : s.WellFormed) : s.Spares s' := by
  obtain ⟨c, now⟩ := l
  cases h
  cases c with
  | call op => exact hw.call_spares op now
  | prune batch locked => exact hw.prune_spares

/-- A step from conserved buckets keeps them exactly when it drops no aggregate. -/
theorem RetentionStep.conserved_iff (h : RetentionStep s l s') (hw : s.WellFormed)
    (hc : ∀ key, s.Conserved key) :
    (∀ key, s'.Conserved key) ↔ RetentionCall.KeepsAggregates s l := by
  have hw' := h.wellFormed hw
  obtain ⟨c, now⟩ := l
  cases h
  cases c with
  | call op => exact iff_of_true (fun key => (hw.conserved_call op now).mpr (hc key)) trivial
  | prune batch locked =>
    refine forall_congr' fun key => (hw.conserved_prune hw' (hc key)).trans ?_
    rw [not_and', Int.not_lt]

theorem RetentionRun.wellFormed (h : RetentionRun tr s) : s.WellFormed :=
  h.always Retention.wellFormed_empty fun _ _ _ hw hstep => hstep.wellFormed hw

/-- Along a run no active job is deleted and no cycle that has a job, and the aggregates and the
remaining rows account for all finished jobs exactly when no pass meets an aggregate of a day that
began more than 365 days before. -/
theorem retention_conserves_iff (h : RetentionRun tr s) :
    ((∀ x, Run.Visits tr s x → ∀ key, x.Conserved key) ∧
      ∀ x ∈ tr, x.1.Spares (RetentionCall.apply x.1 x.2)) ↔
        Run.Meets RetentionCall.KeepsAggregates tr := by
  have hspares : ∀ x ∈ tr, x.1.Spares (RetentionCall.apply x.1 x.2) := by
    intro x hx
    obtain ⟨tr', s'', hrun, hstep, -⟩ := h.mem_step hx
    have hsp := hstep.spares (RetentionRun.wellFormed hrun)
    rwa [hstep] at hsp
  have hempty : ∀ key, ({} : Retention).Conserved key := fun key =>
    Retention.wellFormed_empty.conserved_iff.mpr rfl
  rw [and_iff_left hspares]
  exact h.always_iff Retention.wellFormed_empty hempty
    (fun _ _ _ hw hstep => hstep.wellFormed hw)
    fun _ _ _ hw hc hstep => hstep.conserved_iff hw hc

/-- A job at ten in the morning, a pass two weeks later, and one a year later less an hour. -/
def anniversaryCalls : List (RetentionCall × Time) :=
  let ten : Time := 36000000000
  [(.call (.enqueue
      { kind := .maintenance, dedupeKey := "sweep", payload := .maintenance { action := "sweep" } }),
      ten),
    (.call (.claim {} { owner := "w", leaseFor := 60000000 }), ten + 1000000),
    (.call (.succeed 1 "w"), ten + 4000000),
    (.prune 250 [], ten + days 15),
    (.prune 250 [], ten + days 365 - 3600000000)]

theorem RetentionRun.replay (calls : List (RetentionCall × Time)) :
    RetentionRun (Run.history RetentionCall.apply {} calls) (calls.foldl RetentionCall.apply {}) :=
  Run.of_foldl RetentionCall.apply calls fun _ _ => rfl

/-- The second pass drops the aggregate of the job, which is less than a year old. -/
theorem anniversaryCalls_lost : ¬ ∀ (t₀ : Time)
    (tr : List (Retention × (RetentionCall × Time))) (s : Retention), RetentionRun tr s →
      (∀ x ∈ tr, t₀ ≤ x.2.2 ∧ x.2.2 ≤ t₀ + days 365) → ∀ key, s.Conserved key := by
  intro hall
  have hrun := RetentionRun.replay anniversaryCalls
  have hc := hall 36000000000 _ _ hrun (by decide +kernel) ⟨0, .maintenance, "", .succeeded, ""⟩
  have hjobs := hc.jobs
  revert hjobs
  decide +kernel

/-- After the first pass the aggregate stands for the job. -/
theorem anniversaryCalls_kept : ∃ tr s, RetentionRun tr s ∧
    tr.map Prod.snd = anniversaryCalls.take 4 ∧ s.queue.jobs = [] ∧
    (s.tally ⟨0, .maintenance, "", .succeeded, ""⟩).durationSeconds = 4 ∧
    ∀ key, s.Conserved key := by
  have hrun := RetentionRun.replay (anniversaryCalls.take 4)
  have hmeets : Run.Meets RetentionCall.KeepsAggregates
      (Run.history RetentionCall.apply {} (anniversaryCalls.take 4)) := by
    simp only [anniversaryCalls, List.take, Run.history, Run.Meets, List.mem_cons,
      List.not_mem_nil, or_false, forall_eq_or_imp, forall_eq, RetentionCall.KeepsAggregates,
      true_and]
    intro key hkey
    exact absurd hkey (List.not_mem_nil)
  exact ⟨_, _, hrun, rfl, by decide +kernel, by decide +kernel,
    fun key => ((retention_conserves_iff hrun).mpr hmeets).1 _ (Run.visits_last) key⟩

end

end MangaManager
