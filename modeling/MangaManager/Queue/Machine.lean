import Mathlib.Logic.Relation
import MangaManager.Lib.Run
import MangaManager.Queue.Claim

/-!
# The queue as a state machine

`Op` is a call of a `JobQueue` method and `Op.apply` its effect on the tables; a
call that raises rolls its transaction back. `QueueStep` is a call at a time
that does not lie before the clock, and a run of it starts from the empty queue.

`Transition` says once what a call can do to the tables: insert a job, edit a
row without touching its lease (`Edit`), end a lease (`Unlease`), end a job
(`Terminate`), renew or grant a lease, drop permits. `Op.apply_transitions`: a
call is one transition or none, except for the three sweeping calls, which are a
sequence of them. Invariants of the queue are proved on `Transition`.
-/

namespace MangaManager

open Lib

/-- A call of a `JobQueue` method. -/
inductive Op where
  | enqueue (a : EnqueueArgs)
  | claim (env : ClaimEnv) (a : ClaimArgs)
  | heartbeat (jobId : Nat) (owner : String) (leaseFor : Time)
  | progress (jobId : Nat) (owner message : String) (d : ProgressDetails)
  | succeed (jobId : Nat) (owner : String)
  | fail (jobId : Nat) (owner code message : String)
  | retry (jobId : Nat) (owner : String) (availableAt : Time) (code message : String)
  | cancel (jobId : Nat) (reason : String)
  | release (jobId : Nat) (owner reason : String)
  | defer (jobId : Nat) (owner : String) (availableAt : Time) (code message : String)
  | reroute (jobId : Nat) (owner : String) (payload : JobPayload) (source : String)
      (availableAt : Time) (message : String)
  | rerouteWaiting (jobId : Nat) (payload : JobPayload) (source : String) (availableAt : Time)
      (message : String)
  | retryNow (jobId : Nat)
  | resumeRecoveredProvider (source : String)
  | failExhaustedLeases
  | cleanupExpiredPermits

/-- The tables after a method returned, or after its rollback. -/
def committed {α : Type} (s : Queue) : Except QueueError (Queue × α) → Queue
  | .ok (s', _) => s'
  | .error _ => s

/-- The effect of a call on the tables. -/
def Op.apply (op : Op) (s : Queue) (now : Time) : Queue :=
  match op with
  | enqueue a => committed s (s.enqueue a now)
  | claim env a => committed s (Queue.claim env a s now)
  | heartbeat jobId owner leaseFor => committed s (s.heartbeat jobId owner leaseFor now)
  | progress jobId owner message d => (s.progress jobId owner message d now).1
  | succeed jobId owner => (s.succeed jobId owner now).1
  | fail jobId owner code message => (s.fail jobId owner code message now).1
  | retry jobId owner availableAt code message =>
    (s.retry jobId owner availableAt code message now).1
  | cancel jobId reason => (s.cancel jobId reason now).1
  | release jobId owner reason => (s.release jobId owner reason now).1
  | defer jobId owner availableAt code message =>
    (s.defer jobId owner availableAt code message now).1
  | reroute jobId owner payload source availableAt message =>
    committed s (s.reroute jobId owner payload source availableAt message now)
  | rerouteWaiting jobId payload source availableAt message =>
    committed s (s.rerouteWaiting jobId payload source availableAt message now)
  | retryNow jobId => (s.retryNow jobId now).1
  | resumeRecoveredProvider source => (s.resumeRecoveredProvider source now).1
  | failExhaustedLeases => (s.failExhaustedLeases now).1
  | cleanupExpiredPermits => (s.cleanupExpiredPermits now).1

/-- The tables and the time of the last call. -/
structure Clocked where
  queue : Queue
  clock : Time

/-- A call at a time not before the clock. -/
def QueueStep (c : Clocked) (l : Op × Time) (c' : Clocked) : Prop :=
  c.clock ≤ l.2 ∧ c' = ⟨l.1.apply c.queue l.2, l.2⟩

/-- A run of calls from the empty queue. -/
abbrev QueueRun (t₀ : Time) := Run QueueStep ⟨{}, t₀⟩

def Clocked.call (c : Clocked) (l : Op × Time) : Clocked := ⟨l.1.apply c.queue l.2, l.2⟩

/-- The calls made one after the other from the empty queue. -/
def replay (t₀ : Time) (calls : List (Op × Time)) : Clocked := calls.foldl Clocked.call ⟨{}, t₀⟩

/-- Calls in the order of their times make a run. -/
theorem QueueRun.replay (t₀ : Time) (calls : List (Op × Time))
    (h : ∀ x ∈ Run.history Clocked.call ⟨{}, t₀⟩ calls, x.1.clock ≤ x.2.2) :
    QueueRun t₀ (Run.history Clocked.call ⟨{}, t₀⟩ calls) (replay t₀ calls) :=
  Run.of_foldl Clocked.call calls fun x hx => ⟨h x hx, rfl⟩

/-! ## What a call does to one row -/

/-- The lease columns stay as they are; the last argument is the units added to the cycle. -/
inductive Edit (now : Time) : Op → WorkJob → WorkJob → Nat → Prop where
  | touch {a : EnqueueArgs} {j : WorkJob} : j.kind = a.kind → j.dedupeKey = strip a.dedupeKey →
      j.status.isActive = true → a.coalesce = false ∨ coalesceInto a now (j.repool a.routedPool now) = none →
      Edit now (.enqueue a) j (j.repool a.routedPool now) 0
  | coalesce {a : EnqueueArgs} {j j' : WorkJob} {n : Nat} : j.kind = a.kind →
      j.dedupeKey = strip a.dedupeKey → j.status.isActive = true → a.coalesce = true →
      Queue.checkEnqueue a = .ok () →
      coalesceInto a now (j.repool a.routedPool now) = some (j', n) →
      Edit now (.enqueue a) j j' n
  | progress {j : WorkJob} {owner message : String} {d : ProgressDetails} : j.Live now →
      j.leaseOwner = owner → Edit now (.progress j.id owner message d) j (j.report message d now) 0
  | rerouteWaiting {j : WorkJob} {payload : JobPayload} {source message : String} {at_ : Time} :
      j.status.isWaiting = true → parseJobPayload j.kind payload = some payload →
      Edit now (.rerouteWaiting j.id payload source at_ message) j
        (j.rerouteTo payload source at_ message now) 0
  | retryNow {j : WorkJob} : j.status = .retryWait →
      Edit now (.retryNow j.id) j (j.retryNow now) 0
  | resume {j : WorkJob} {source : String} : j.status = .retryWait → j.source = source →
      Edit now (.resumeRecoveredProvider source) j (j.resume now) 0
  | repool {env : ClaimEnv} {a : ClaimArgs} {j : WorkJob} :
      j.status.isWaiting = true ∨ j.expired now = true →
      Edit now (.claim env a) j (Queue.repoolRefresh j) 0

/-- The lease ends and the job waits again. -/
inductive Unlease (now : Time) : Op → WorkJob → WorkJob → Prop where
  | requeue {j : WorkJob} {owner : String} {pending : JobPayload} : j.Live now →
      j.leaseOwner = owner → j.pendingPayload = some pending →
      Unlease now (.succeed j.id owner) j (j.requeuePending pending now)
  | retry {j : WorkJob} {owner code message : String} {at_ : Time} : j.Live now →
      j.leaseOwner = owner → j.attempts < j.maxAttempts →
      Unlease now (.retry j.id owner at_ code message) j (j.retry at_ code message now)
  | release {j : WorkJob} {owner reason : String} : j.status = .leased → j.leaseOwner = owner →
      Unlease now (.release j.id owner reason) j (j.release reason now)
  | defer {j : WorkJob} {owner code message : String} {at_ : Time} : j.status = .leased →
      j.leaseOwner = owner →
      Unlease now (.defer j.id owner at_ code message) j (j.defer at_ code message now)
  | reroute {j : WorkJob} {owner source message : String} {payload : JobPayload} {at_ : Time} :
      j.status = .leased → j.leaseOwner = owner → parseJobPayload j.kind payload = some payload →
      Unlease now (.reroute j.id owner payload source at_ message) j
        (j.clearLease.rerouteTo payload source at_ message now)

/-- The job ends, in the given state. -/
inductive Terminate (now : Time) : Op → WorkJob → WorkJob → JobState → Prop where
  | succeed {j : WorkJob} {owner : String} : j.Live now → j.leaseOwner = owner →
      j.pendingPayload = none →
      Terminate now (.succeed j.id owner) j (j.finish .succeeded "" "" now) .succeeded
  | fail {j : WorkJob} {owner code message : String} : j.Live now → j.leaseOwner = owner →
      Terminate now (.fail j.id owner code message) j (j.finish .failed code message now) .failed
  | retry {j : WorkJob} {owner code message : String} {at_ : Time} : j.Live now →
      j.leaseOwner = owner → j.maxAttempts ≤ j.attempts →
      Terminate now (.retry j.id owner at_ code message) j (j.retry at_ code message now) .failed
  | cancel {j : WorkJob} {reason : String} : j.status.isActive = true →
      Terminate now (.cancel j.id reason) j (j.cancel reason now) .cancelled
  | sweep {j : WorkJob} : j.expired now = true → j.maxAttempts ≤ j.attempts →
      Terminate now .failExhaustedLeases j (j.failExpired now) .failed
  | claimSweep {j : WorkJob} {env : ClaimEnv} {a : ClaimArgs} : j.expired now = true →
      j.maxAttempts ≤ j.attempts → Terminate now (.claim env a) j (j.failExpired now) .failed

/-! ## What a call does to the tables -/

inductive Transition (now : Time) : Op → Queue → Queue → Prop where
  | insert {a : EnqueueArgs} {s : Queue} : Queue.checkEnqueue a = .ok () →
      s.activeJob a.kind (strip a.dedupeKey) = none →
      Transition now (.enqueue a) s (s.enqueueNew a now)
  | edit {op : Op} {s : Queue} {j j' : WorkJob} {n : Nat} {e : List JobEvent} : j ∈ s.jobs →
      Edit now op j j' n →
      Transition now op s { (s.putJob j').addUnits j'.cycleId n now with events := e }
  | unlease {op : Op} {s : Queue} {j j' : WorkJob} {e : List JobEvent} : j ∈ s.jobs →
      Unlease now op j j' →
      Transition now op s { (s.putJob j').releasePermits j.id with events := e }
  | terminate {op : Op} {s : Queue} {j j' : WorkJob} {st : JobState} {rows : List WorkJob}
      {e : List JobEvent} : j ∈ s.jobs → Terminate now op j j' st →
      Transition now op s
        { ((s.putJob j').releasePermits j.id).recordTerminalUnits rows j' st now with events := e }
  | renew {s : Queue} {j : WorkJob} {owner : String} {leaseFor : Time} : j ∈ s.jobs →
      j.Live now → j.leaseOwner = owner → 0 < leaseFor →
      Transition now (.heartbeat j.id owner leaseFor) s (s.renewLease j owner leaseFor now)
  | grant {env : ClaimEnv} {a : ClaimArgs} {s : Queue} {j : WorkJob} {e : List JobEvent} :
      j ∈ s.jobs → j.ready now = true ∨ j.expired now = true → j.attempts < j.maxAttempts →
      (j.expired now = true → ∀ p ∈ s.permits, p.jobId ≠ j.id) →
      Queue.permitsFree env a s now j = true → s.repairSeriesTaken j = false →
      strip a.owner ≠ "" → 0 < a.leaseFor →
      Transition now (.claim env a) s
        { s.putJob (j.lease (strip a.owner) a.leaseFor now) with
          permits := s.permits ++ Queue.newPermits a now j, events := e }
  | dropPermits {env : ClaimEnv} {a : ClaimArgs} {s : Queue} {j : WorkJob} : j ∈ s.jobs →
      j.expired now = true → Transition now (.claim env a) s (s.releasePermits j.id)
  | cleanup {s : Queue} : Transition now .cleanupExpiredPermits s (s.cleanupExpiredPermits now).1

/-- Calls that may touch several rows. -/
def Op.isSweep : Op → Bool
  | claim _ _ | resumeRecoveredProvider _ | failExhaustedLeases => true
  | _ => false

/-- A sequence of transitions of one call. -/
abbrev Transitions (now : Time) (op : Op) := Relation.ReflTransGen (Transition now op)

/-- What the loop of `claim` does to the tables before it takes permits. -/
inductive ScanStep (now : Time) : Queue → Queue → Prop where
  | repool {s : Queue} {j : WorkJob} : j ∈ s.jobs →
      j.status.isWaiting = true ∨ j.expired now = true →
      ScanStep now s (s.putJob (Queue.repoolRefresh j))
  | dropPermits {s : Queue} {j : WorkJob} : j ∈ s.jobs → j.expired now = true →
      ScanStep now s (s.releasePermits j.id)
  | sweep {s : Queue} {j : WorkJob} {rows : List WorkJob} {e : List JobEvent} : j ∈ s.jobs →
      j.expired now = true → j.maxAttempts ≤ j.attempts →
      ScanStep now s
        { ((s.putJob (j.failExpired now)).releasePermits j.id).recordTerminalUnits rows
            (j.failExpired now) .failed now with events := e }

abbrev Scans (now : Time) := Relation.ReflTransGen (ScanStep now)

/-! ## Every call is made of transitions -/

section
variable {s : Queue} {now : Time}

theorem Queue.activeJob_some {kind : JobKind} {key : String} {e : WorkJob}
    (h : s.activeJob kind key = some e) :
    e ∈ s.jobs ∧ e.kind = kind ∧ e.dedupeKey = key ∧ e.status.isActive = true := by
  have hm := List.mem_of_getLast? h
  simpa [and_assoc] using hm

theorem Transition.of_edit {op : Op} {s' : Queue} {j j' : WorkJob} (hj : j ∈ s.jobs)
    (he : Edit now op j j' 0) (hs : s' = { s.putJob j' with events := s'.events }) :
    Transition now op s s' := by
  rw [hs]
  exact Transition.edit (n := 0) hj he

/-- A request to an active job edits that job. -/
theorem Queue.enqueueExisting_edit (now : Time) {a : EnqueueArgs} {e : WorkJob}
    (hc : Queue.checkEnqueue a = .ok ()) (he : s.activeJob a.kind (strip a.dedupeKey) = some e) :
    ∃ e' n, Edit now (.enqueue a) e e' n ∧
      s.enqueueExisting a e now = (s.putJob e').addUnits e'.cycleId n now := by
  obtain ⟨-, hk, hd, ha⟩ := Queue.activeJob_some he
  unfold Queue.enqueueExisting
  by_cases hco : a.coalesce = true
  · simp only [if_pos hco]
    cases hi : coalesceInto a now (e.repool a.routedPool now) with
    | none => exact ⟨_, 0, .touch hk hd ha (.inr hi), rfl⟩
    | some r => exact ⟨r.1, r.2, .coalesce hk hd ha hco hc hi, rfl⟩
  · simp only [if_neg hco]
    exact ⟨_, 0, .touch hk hd ha (.inl (by simpa using hco)), rfl⟩

theorem transition_enqueueExisting {a : EnqueueArgs} {e : WorkJob}
    (hc : Queue.checkEnqueue a = .ok ()) (he : s.activeJob a.kind (strip a.dedupeKey) = some e) :
    Transition now (.enqueue a) s (s.enqueueExisting a e now) := by
  obtain ⟨e', n, hedit, hs⟩ := Queue.enqueueExisting_edit now hc he
  rw [hs]
  exact .edit (e := s.events) (Queue.activeJob_some he).1 hedit

theorem transition_finish {jobId : Nat} {owner code message : String} {j : WorkJob}
    {state : JobState} {event : EventType} {op : Op}
    (hj : s.selectHeld jobId owner now = some j)
    (hq : ∀ p, state = .succeeded → j.pendingPayload = some p →
      Unlease now op j (j.requeuePending p now))
    (ht : (state = .succeeded → j.pendingPayload = none) →
      Terminate now op j (j.finish state code message now) state) :
    Transition now op s (s.finish jobId owner state event code message now).1 := by
  obtain ⟨hget, -, -⟩ := Queue.selectHeld_some hj
  obtain ⟨hm, hid⟩ := Queue.job?_some hget
  unfold Queue.finish
  rw [hj, ← hid]
  by_cases hs : state = .succeeded
  · simp only [hs, if_true]
    cases hp : j.pendingPayload with
    | none => exact .terminate hm (hs ▸ ht fun _ => hp)
    | some p => exact .unlease hm (hq p hs hp)
  · simp only [hs, if_false]
    exact .terminate hm (ht fun h => absurd h hs)

theorem transition_retry {jobId : Nat} {owner code message : String} {at_ : Time} {j : WorkJob}
    (hj : s.selectHeld jobId owner now = some j) :
    Transition now (.retry jobId owner at_ code message) s
      (s.retry jobId owner at_ code message now).1 := by
  obtain ⟨hget, hl, ho⟩ := Queue.selectHeld_some hj
  obtain ⟨hm, rfl⟩ := Queue.job?_some hget
  unfold Queue.retry
  rw [hj]
  by_cases ht : j.maxAttempts ≤ j.attempts
  · simp only [if_pos ht]
    exact .terminate hm (.retry hl ho ht)
  · simp only [if_neg ht]
    exact .unlease hm (.retry hl ho (by omega))

/-- A fold that rewrites rows of distinct keys one after the other is a sequence of steps when
each rewriting is one. -/
theorem steps_foldl {R : Queue → Queue → Prop} {f : Queue → WorkJob → Queue}
    {g : WorkJob → WorkJob} (hjobs : ∀ q j, (f q j).jobs = Table.put WorkJob.id q.jobs (g j))
    (hid : ∀ j, (g j).id = j.id) {l : List WorkJob} (hl : Table.Keyed WorkJob.id l)
    (ht : ∀ q, ∀ j ∈ l, j ∈ q.jobs → R q (f q j)) :
    ∀ {q : Queue}, (∀ j ∈ l, j ∈ q.jobs) → Relation.ReflTransGen R q (l.foldl f q) := by
  induction l with
  | nil => intro q _; exact .refl
  | cons j l ih =>
    intro q hq
    obtain ⟨hjl, hl⟩ := List.nodup_cons.mp hl
    refine .head (ht q j (by simp) (hq j (by simp))) ?_
    refine ih hl (fun q k hk => ht q k (by simp [hk])) fun k hk => ?_
    rw [hjobs]
    refine Table.mem_put_of_ne (hq k (by simp [hk])) fun e => hjl ?_
    rw [← hid j, ← e]
    exact List.mem_map_of_mem hk

theorem transitions_resume {source : String} (hk : Table.Keyed WorkJob.id s.jobs) :
    Transitions now (.resumeRecoveredProvider source) s
      (s.resumeRecoveredProvider source now).1 := by
  unfold Queue.resumeRecoveredProvider
  refine steps_foldl (g := fun j => j.resume now) (fun _ _ => rfl) (fun _ => rfl)
    (hk.sublist (List.filter_sublist.map _)) ?_ fun j hj => List.mem_of_mem_filter hj
  intro q j hj hq
  simp only [List.mem_filter, Bool.and_eq_true, beq_iff_eq] at hj
  exact .of_edit hq (.resume hj.2.1.1.2 hj.2.1.1.1) rfl

theorem steps_sweep {R : Queue → Queue → Prop} (hk : Table.Keyed WorkJob.id s.jobs)
    (ht : ∀ (q : Queue) (j : WorkJob), j ∈ q.jobs → j.expired now = true →
      j.maxAttempts ≤ j.attempts → R q (q.failExpiredJob s.jobs j now)) :
    Relation.ReflTransGen R s (s.failExhaustedLeases now).1 := by
  unfold Queue.failExhaustedLeases
  refine steps_foldl (g := fun j => j.failExpired now) (fun _ _ => rfl) (fun _ => rfl)
    (hk.sublist (List.filter_sublist.map _)) ?_ fun j hj => List.mem_of_mem_filter hj
  intro q j hj hq
  simp only [List.mem_filter, Bool.and_eq_true, beq_iff_eq,
    decide_eq_true_eq] at hj
  obtain ⟨-, ⟨hs, he⟩, ha⟩ := hj
  exact ht q j hq (by simp [WorkJob.expired, hs, he]) ha

theorem ScanStep.transition {env : ClaimEnv} {a : ClaimArgs} {s' : Queue} (h : ScanStep now s s') :
    Transition now (.claim env a) s s' := by
  cases h with
  | repool hj h => exact .of_edit hj (.repool h) rfl
  | dropPermits hj h => exact .dropPermits hj h
  | sweep hj he ha => exact .terminate hj (.claimSweep he ha)

theorem Scans.transitions {env : ClaimEnv} {a : ClaimArgs} {s' : Queue} (h : Scans now s s') :
    Transitions now (.claim env a) s s' :=
  h.lift id fun _ _ h => h.transition

end

/-! ## The loop of `claim` -/

section
variable {env : ClaimEnv} {a : ClaimArgs} {now : Time}

theorem Queue.claimQuery_some {s : Queue} {f : ClaimFilter} {j : WorkJob}
    (h : Queue.claimQuery env s now f = some j) :
    j ∈ s.jobs ∧ Queue.claimable env s now j = true ∧ Queue.admitted f j = true := by
  have hm := List.argmin_mem h
  simpa using hm

theorem Queue.claimable_ready {s : Queue} {j : WorkJob} (h : Queue.claimable env s now j = true) :
    (j.ready now = true ∨ j.expired now = true) ∧ j.attempts < j.maxAttempts := by
  simp only [Queue.claimable, Bool.and_eq_true, Bool.or_eq_true, decide_eq_true_eq] at h
  exact h.1.1.1

/-- The job `claim`'s loop stopped at, in the tables where its permits are free. -/
structure Chosen (env : ClaimEnv) (a : ClaimArgs) (now : Time) (s : Queue) (j : WorkJob) :
    Prop where
  mem : j ∈ s.jobs
  ready : j.ready now = true ∨ j.expired now = true
  attempts : j.attempts < j.maxAttempts
  dropped : j.expired now = true → ∀ p ∈ s.permits, p.jobId ≠ j.id
  free : Queue.permitsFree env a s now j = true

theorem claimLoop_scans {s' : Queue} {r : Option WorkJob} :
    ∀ {fuel : Nat} {c : Queue.ClaimScan}, Table.Keyed WorkJob.id c.queue.jobs →
      Queue.claimLoop env a now fuel c = .ok (s', r) →
      match r with
      | none => Scans now c.queue s'
      | some j => ∃ s, Scans now c.queue s ∧ Chosen env a now s j ∧
          s' = { s with permits := s.permits ++ Queue.newPermits a now j } := by
  intro fuel
  induction fuel with
  | zero =>
    intro c _ h
    cases h
    exact .refl
  | succ fuel ih =>
    intro c hk h
    unfold Queue.claimLoop at h
    cases hq : Queue.claimQuery env c.queue now (c.filter a) with
    | none =>
      rw [hq] at h
      cases h
      exact steps_sweep hk fun q j hj he ha => .sweep hj he ha
    | some k =>
      rw [hq] at h
      dsimp only at h
      obtain ⟨hm, hcl, -⟩ := Queue.claimQuery_some hq
      obtain ⟨hr, hatt⟩ := Queue.claimable_ready hcl
      -- the candidate's row, with its pool set right
      have hput : ScanStep now c.queue (c.queue.putJob (Queue.repoolRefresh k)) :=
        .repool hm (hr.imp_left fun h => by
          simp only [WorkJob.ready, Bool.and_eq_true] at h; exact h.1)
      have hmem : Queue.repoolRefresh k ∈ (c.queue.putJob (Queue.repoolRefresh k)).jobs :=
        Table.mem_put_self hm rfl
      rw [if_neg fun h => absurd h.2 (Nat.not_le.mpr hatt)] at h
      -- its permits are dropped when its lease ran out
      have hdrop : ∀ s, s = (if (Queue.repoolRefresh k).expired now = true then
          (c.queue.putJob (Queue.repoolRefresh k)).releasePermits (Queue.repoolRefresh k).id
          else c.queue.putJob (Queue.repoolRefresh k)) →
          Scans now c.queue s ∧ Queue.repoolRefresh k ∈ s.jobs ∧
            Table.Keyed WorkJob.id s.jobs ∧
            (k.expired now = true → ∀ p ∈ s.permits, p.jobId ≠ k.id) := by
        rintro s rfl
        split
        · rename_i he
          refine ⟨.tail (.single hput) (.dropPermits hmem he), hmem, Table.keyed_put.mpr hk, ?_⟩
          intro _ p hp
          simpa using (List.mem_filter.mp hp).2
        · rename_i he
          exact ⟨.single hput, hmem, Table.keyed_put.mpr hk, fun h => absurd h he⟩
      generalize hs : (if (Queue.repoolRefresh k).expired now = true then
          (c.queue.putJob (Queue.repoolRefresh k)).releasePermits (Queue.repoolRefresh k).id
          else c.queue.putJob (Queue.repoolRefresh k)) = s at h
      obtain ⟨hts, hms, hks, hno⟩ := hdrop s hs.symm
      split at h
      · rename_i hfree
        split at h
        · cases h
        · cases h
          exact ⟨s, hts, ⟨hms, hr, hatt, hno, hfree⟩, rfl⟩
      · have hrec := ih (c := Queue.scanOf env a now s _ _) hks h
        cases r with
        | none => exact hts.trans hrec
        | some j =>
          obtain ⟨s₂, ht, hch, he⟩ := hrec
          exact ⟨s₂, hts.trans ht, hch, he⟩

end

/-! ## Calls -/

section
variable {s : Queue} {now : Time}

/-- The tables after `claim` leased `j`. -/
def Queue.granted (s : Queue) (a : ClaimArgs) (j : WorkJob) (now : Time) : Queue :=
  { s.putJob (j.lease (strip a.owner) a.leaseFor now) with
    permits := s.permits ++ Queue.newPermits a now j }

/-- A lease granted by `claim`: where the loop stopped and what it returned. -/
structure Granted (env : ClaimEnv) (a : ClaimArgs) (now : Time) (s : Queue) (j : WorkJob)
    (s' : Queue) (l : JobLease) : Prop extends Chosen env a now s j where
  repair : s.repairSeriesTaken j = false
  owner : strip a.owner ≠ ""
  leaseFor : 0 < a.leaseFor
  lease : l = (j.lease (strip a.owner) a.leaseFor now).toLease j.payload (now + a.leaseFor)
  tables : s' = { s.granted a j now with events := s'.events }

theorem Queue.claim_ok {env : ClaimEnv} {a : ClaimArgs} {s' : Queue} {l : Option JobLease}
    (hk : Table.Keyed WorkJob.id s.jobs) (h : Queue.claim env a s now = .ok (s', l)) :
    match l with
    | none => Scans now s s'
    | some l => ∃ s₁ j, Scans now s s₁ ∧ Granted env a now s₁ j s' l := by
  unfold Queue.claim at h
  split at h
  · cases h
  rename_i ho
  split at h
  · cases h
  rename_i hl
  split at h
  · cases h
  · rename_i s₁ hloop
    cases h
    exact claimLoop_scans (c := Queue.scanOf env a now s [] []) hk hloop
  · rename_i s₁ j hloop
    obtain ⟨s₂, ht, hch, rfl⟩ := claimLoop_scans (c := Queue.scanOf env a now s [] []) hk hloop
    unfold Queue.leaseChosen at h
    split at h
    · cases h
    rename_i hrep
    dsimp only at h
    split at h
    · cases h
    rename_i payload hpayload
    obtain ⟨rfl, -⟩ := parseJobPayload_eq_some.mp hpayload
    cases h
    refine ⟨s₂, j, ht, hch, ?_, ho, not_le.mp hl, rfl, rfl⟩
    simpa [Queue.repairSeriesTaken] using hrep

theorem Granted.transition {env : ClaimEnv} {a : ClaimArgs} {s' : Queue} {j : WorkJob}
    {l : JobLease} (h : Granted env a now s j s' l) : Transition now (.claim env a) s s' := by
  rw [h.tables]
  exact .grant h.mem h.ready h.attempts h.dropped h.free h.repair h.owner h.leaseFor

theorem transitions_claim {env : ClaimEnv} {a : ClaimArgs} (hk : Table.Keyed WorkJob.id s.jobs) :
    Transitions now (.claim env a) s ((Op.claim env a).apply s now) := by
  simp only [Op.apply]
  cases hr : Queue.claim env a s now with
  | error e => exact .refl
  | ok r =>
    obtain ⟨s', _ | l⟩ := r
    · exact Scans.transitions (Queue.claim_ok hk hr)
    · obtain ⟨s₁, j, hs, hg⟩ := Queue.claim_ok hk hr
      exact hs.transitions.tail hg.transition

/-- A call changes nothing, is one transition, or sweeps. -/
theorem Op.apply_cases (op : Op) (now : Time) (hk : Table.Keyed WorkJob.id s.jobs) :
    op.apply s now = s ∨ Transition now op s (op.apply s now) ∨
      (op.isSweep = true ∧ Transitions now op s (op.apply s now)) := by
  cases op with
  | enqueue a =>
    simp only [Op.apply, Queue.enqueue]
    cases hc : Queue.checkEnqueue a with
    | error e => exact .inl rfl
    | ok =>
      cases he : s.activeJob a.kind (strip a.dedupeKey) with
      | none => exact .inr (.inl (.insert hc he))
      | some e => exact .inr (.inl (transition_enqueueExisting hc he))
  | claim env a => exact .inr (.inr ⟨rfl, transitions_claim hk⟩)
  | heartbeat jobId owner leaseFor =>
    simp only [Op.apply, Queue.heartbeat]
    split
    · exact .inl rfl
    · rename_i hpos
      split
      · exact .inl rfl
      · rename_i j hj
        obtain ⟨hget, hl, ho⟩ := Queue.selectHeld_some hj
        obtain ⟨hm, rfl⟩ := Queue.job?_some hget
        exact .inr (.inl (.renew hm hl ho (not_le.mp hpos)))
  | progress jobId owner message d =>
    simp only [Op.apply, Queue.progress]
    split
    · exact .inl rfl
    · rename_i j hj
      obtain ⟨hget, hl, ho⟩ := Queue.selectHeld_some hj
      obtain ⟨hm, rfl⟩ := Queue.job?_some hget
      refine .inr (.inl (.of_edit hm (.progress hl ho) ?_))
      split <;> rfl
  | succeed jobId owner =>
    simp only [Op.apply, Queue.succeed]
    cases hj : s.selectHeld jobId owner now with
    | none => exact .inl (by simp [Queue.finish, hj])
    | some j =>
      obtain ⟨hget, hl, ho⟩ := Queue.selectHeld_some hj
      obtain ⟨-, rfl⟩ := Queue.job?_some hget
      exact .inr (.inl (transition_finish hj (fun p _ hp => .requeue hl ho hp)
        fun hp => .succeed hl ho (hp rfl)))
  | fail jobId owner code message =>
    simp only [Op.apply, Queue.fail]
    cases hj : s.selectHeld jobId owner now with
    | none => exact .inl (by simp [Queue.finish, hj])
    | some j =>
      obtain ⟨hget, hl, ho⟩ := Queue.selectHeld_some hj
      obtain ⟨-, rfl⟩ := Queue.job?_some hget
      exact .inr (.inl (transition_finish hj (fun p h => by cases h) fun _ => .fail hl ho))
  | retry jobId owner at_ code message =>
    simp only [Op.apply]
    cases hj : s.selectHeld jobId owner now with
    | none => exact .inl (by simp [Queue.retry, hj])
    | some j => exact .inr (.inl (transition_retry hj))
  | cancel jobId reason =>
    simp only [Op.apply, Queue.cancel]
    split
    · exact .inl rfl
    · rename_i j hj
      obtain ⟨hget, ha⟩ := Queue.selectActive_some hj
      obtain ⟨hm, rfl⟩ := Queue.job?_some hget
      exact .inr (.inl (.terminate hm (.cancel ha)))
  | release jobId owner reason =>
    simp only [Op.apply, Queue.release]
    split
    · exact .inl rfl
    · rename_i j hj
      obtain ⟨hget, hl, ho⟩ := Queue.selectOwned_some hj
      obtain ⟨hm, rfl⟩ := Queue.job?_some hget
      exact .inr (.inl (.unlease hm (.release hl ho)))
  | defer jobId owner at_ code message =>
    simp only [Op.apply, Queue.defer]
    split
    · exact .inl rfl
    · rename_i j hj
      obtain ⟨hget, hl, ho⟩ := Queue.selectOwned_some hj
      obtain ⟨hm, rfl⟩ := Queue.job?_some hget
      exact .inr (.inl (.unlease hm (.defer hl ho)))
  | reroute jobId owner payload source at_ message =>
    simp only [Op.apply, Queue.reroute]
    split
    · exact .inl rfl
    · rename_i j hj
      obtain ⟨hget, hl, ho⟩ := Queue.selectOwned_some hj
      obtain ⟨hm, rfl⟩ := Queue.job?_some hget
      split
      · exact .inl rfl
      · rename_i v hv
        obtain ⟨rfl, -⟩ := parseJobPayload_eq_some.mp hv
        exact .inr (.inl (.unlease hm (.reroute hl ho hv)))
  | rerouteWaiting jobId payload source at_ message =>
    simp only [Op.apply, Queue.rerouteWaiting]
    split
    · exact .inl rfl
    · rename_i j hj
      obtain ⟨hget, hw⟩ := Queue.selectWaiting_some hj
      obtain ⟨hm, rfl⟩ := Queue.job?_some hget
      split
      · exact .inl rfl
      · rename_i v hv
        obtain ⟨rfl, -⟩ := parseJobPayload_eq_some.mp hv
        exact .inr (.inl (.of_edit hm (.rerouteWaiting hw hv) rfl))
  | retryNow jobId =>
    simp only [Op.apply, Queue.retryNow]
    split
    · exact .inl rfl
    · rename_i j hj
      obtain ⟨hj, hw⟩ := Option.filter_eq_some_iff.mp hj
      obtain ⟨hget, -⟩ := Queue.selectWaiting_some hj
      obtain ⟨hm, rfl⟩ := Queue.job?_some hget
      exact .inr (.inl (.of_edit hm (.retryNow (by simpa using hw)) rfl))
  | resumeRecoveredProvider source => exact .inr (.inr ⟨rfl, transitions_resume hk⟩)
  | failExhaustedLeases => exact .inr (.inr ⟨rfl, steps_sweep hk fun _ _ hj he ha => .terminate hj (.sweep he ha)⟩)
  | cleanupExpiredPermits => exact .inr (.inl .cleanup)

theorem Op.apply_transitions (op : Op) (now : Time) (hk : Table.Keyed WorkJob.id s.jobs) :
    Transitions now op s (op.apply s now) := by
  rcases op.apply_cases now hk with h | h | ⟨-, h⟩
  · rw [h]
  · exact .single h
  · exact h

/-- What every transition of a call keeps, the call keeps. -/
theorem Op.apply_inv {P : Queue → Prop} (op : Op) (now : Time) (hk : Table.Keyed WorkJob.id s.jobs)
    (ht : ∀ s s', P s → Transition now op s s' → P s') (h : P s) : P (op.apply s now) := by
  have hts := op.apply_transitions now hk
  generalize op.apply s now = s' at hts
  induction hts with
  | refl => exact h
  | tail _ hstep ih => exact ht _ _ ih hstep

end

end MangaManager
