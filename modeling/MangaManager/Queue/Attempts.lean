import MangaManager.Queue.Invariant

/-!
# Attempts of waiting jobs

A waiting job with no attempt left is never selected by `claim_query` and never
swept: it holds its dedupe key for good. `release` and `defer` give the attempt
of the lease back and `retry` ends the job instead; a success that meets a
pending payload and `reroute` do neither. `noZombie_iff`: along a run no such job
appears exactly when each of these two finds an attempt left.
-/

namespace MangaManager

open Lib

namespace Queue

/-- `claim_query` can select `j` at every time its provider, its series and the storage allow
it, from `available_at` on. -/
def Selectable (s : Queue) (j : WorkJob) : Prop :=
  ∀ (env : ClaimEnv) (now : Time), j.availableAt ≤ now → sourceOpen env j now = true →
    s.seriesFree j now = true → (j.kind = .chapterDownload → env.storagePaused = false) →
    claimable env s now j = true

/-- No active job is a zombie. -/
def NoZombie (s : Queue) : Prop :=
  ∀ j ∈ s.jobs, j.status.isWaiting = true → j.attempts < j.maxAttempts ∧ s.Selectable j

theorem selectable_of_attempts {s : Queue} {j : WorkJob} (hw : j.status.isWaiting = true)
    (ha : j.attempts < j.maxAttempts) : s.Selectable j := by
  intro env now hat hso hse hst
  have hstorage : (j.kind != .chapterDownload || !env.storagePaused) = true := by
    by_cases hk : j.kind = .chapterDownload
    · simp [hst hk]
    · simp [hk]
  simp [claimable, WorkJob.ready, hw, hat, ha, hso, hse, hstorage]

theorem noZombie_of_attempts {s : Queue}
    (h : ∀ j ∈ s.jobs, j.status.isWaiting = true → j.attempts < j.maxAttempts) : s.NoZombie :=
  fun j hj hw => ⟨h j hj hw, selectable_of_attempts hw (h j hj hw)⟩

end Queue

/-- A call that makes a leased job wait again without giving its attempt back finds one left. -/
def Op.Spares (op : Op) (s : Queue) (now : Time) : Prop :=
  match op with
  | succeed jobId owner => ∀ j, s.selectHeld jobId owner now = some j →
      j.pendingPayload.isSome = true → j.attempts < j.maxAttempts
  | reroute jobId owner payload _ _ _ => ∀ j, s.selectOwned jobId owner = some j →
      (parseJobPayload j.kind payload).isSome = true → j.attempts < j.maxAttempts
  | _ => True

section
variable {now : Time} {op : Op} {s : Queue} {j j' : WorkJob}

theorem Unlease.spares (h : Unlease now op j j') (hk : Table.Keyed WorkJob.id s.jobs)
    (hj : j ∈ s.jobs) (hs : op.Spares s now) (hw : j.WellFormed) : j'.attempts < j'.maxAttempts := by
  have hceil := hw.ceiling
  have hatt := hw.attempts
  cases h with
  | requeue hl ho hp =>
    subst ho
    exact hs j (Queue.selectHeld_eq hk hj hl) (by simp [hp])
  | retry _ _ ha => exact ha
  | release _ _ =>
    change j.attempts - 1 < j.maxAttempts
    omega
  | defer _ _ =>
    change j.attempts - 1 < j.maxAttempts
    omega
  | reroute hl ho hp =>
    subst ho
    exact hs j (Queue.selectOwned_eq hk hj hl) (by simp [hp])

/-- Other calls keep a waiting row below its ceiling. -/
theorem RowStep.attempts (h : RowStep now op j j')
    (hu : ∀ j', Unlease now op j j' → j'.attempts < j'.maxAttempts)
    (hj : j.status.isWaiting = true → j.attempts < j.maxAttempts)
    (hw' : j'.status.isWaiting = true) : j'.attempts < j'.maxAttempts := by
  cases h with
  | edit h =>
    have he := h.edited
    rw [he.attempts]
    exact Nat.lt_of_lt_of_le (hj (he.waiting ▸ hw')) he.maxAttempts
  | unlease h => exact hu _ h
  | terminate h =>
    have hi := JobState.not_waiting h.ended.inactive
    rw [← h.ended.status, hw'] at hi
    cases hi
  | renew _ hl _ _ =>
    rw [show (j.renew _ now).status = j.status from rfl, hl.1] at hw'
    cases hw'
  | grant => cases hw'

/-- A zombie-free queue stays so exactly when the call spares. -/
theorem Op.noZombie_iff_spares (hw : s.WellFormed) (hz : s.NoZombie) :
    (op.apply s now).NoZombie ↔ op.Spares s now := by
  constructor
  · intro h
    cases op with
    | succeed jobId owner =>
      intro j hj hp
      obtain ⟨hget, hl, rfl⟩ := Queue.selectHeld_some hj
      obtain ⟨hm, rfl⟩ := Queue.job?_some hget
      obtain ⟨p, hp⟩ := Option.isSome_iff_exists.mp hp
      refine (h (j.requeuePending p now) ?_ rfl).1
      simp only [Op.apply, Queue.succeed, Queue.finish, hj, hp, if_true]
      exact Table.mem_put_self hm rfl
    | reroute jobId owner payload source at_ message =>
      intro j hj hp
      obtain ⟨hget, hl, rfl⟩ := Queue.selectOwned_some hj
      obtain ⟨hm, rfl⟩ := Queue.job?_some hget
      obtain ⟨p, hp⟩ := Option.isSome_iff_exists.mp hp
      refine (h (j.clearLease.rerouteTo p source at_ message now) ?_ rfl).1
      simp only [Op.apply, Queue.reroute, hj, hp, committed]
      exact Table.mem_put_self hm rfl
    | _ => trivial
  · intro hs
    refine Op.apply_inv_of (C := fun q => op.Spares q now) hw hz hs
      (fun hsweep q => by cases op <;> trivial) ?_
    intro q q' hsq hwq hzq ht
    refine Queue.noZombie_of_attempts ?_
    rcases ht.jobs_cases with ⟨hj, -⟩ | ⟨a, -, hc, -, rfl⟩ | ⟨j, j', hj, hstep, hjobs, -⟩
    · exact fun j hm hwt => (hzq j (hj ▸ hm) hwt).1
    · simp only [Queue.enqueueNew_jobs, List.mem_append, List.mem_singleton]
      rintro j (hm | rfl) hwt
      · exact (hzq j hm hwt).1
      · exact (checkEnqueue_ok hc).2.1
    · rw [hjobs]
      intro k hk hwt
      rcases Table.mem_put.mp hk with ⟨rfl, -⟩ | ⟨hk, -⟩
      · exact hstep.attempts (fun _ hu => hu.spares hwq.jobs hj hsq (hwq.rows j hj))
          (fun h => (hzq j hj h).1) hwt
      · exact (hzq k hk hwt).1

end

/-! ## Runs -/

section
variable {t₀ : Time} {tr : List (Clocked × (Op × Time))} {c : Clocked}

/-- No zombie appears in a run exactly when all its calls spare. -/
theorem noZombie_iff (h : QueueRun t₀ tr c) :
    (∀ x, Run.Visits tr c x → x.queue.NoZombie) ↔
      Run.Meets (fun x l => l.1.Spares x.queue l.2) tr := by
  refine h.always_iff (I := fun x => x.queue.WellFormed) (P := fun x => x.queue.NoZombie)
    Queue.wellFormed_empty (fun j hj => by cases hj) ?_ ?_
  · rintro x l x' hw ⟨-, rfl⟩
    exact Op.apply_wellFormed _ _ hw
  · rintro x l x' hw hz ⟨-, rfl⟩
    exact Op.noZombie_iff_spares hw hz

/-- A refresh with one attempt, observed again while it runs, and finished. -/
def observedTwice : List (Op × Time) :=
  let seen (v : String) : EnqueueArgs :=
    { kind := .sourceRefresh, dedupeKey := "k", maxAttempts := 1, coalesce := true
      payload := .sourceRefresh
        { source := "mangadex", sourceId := "1", title := "t", url := "u", observationVersion := v } }
  [(.enqueue (seen "1"), 0), (.claim {} { owner := "w", leaseFor := 10 }, 1),
    (.enqueue (seen "2"), 2), (.succeed 1 "w", 3)]

/-- It waits again with no attempt left. -/
theorem observedTwice_zombie :
    ∃ tr c, QueueRun 0 tr c ∧ tr.map Prod.snd = observedTwice ∧ ¬ c.queue.NoZombie := by
  refine ⟨_, _, QueueRun.replay 0 observedTwice (by decide +kernel), rfl, fun h => ?_⟩
  have hz : ∃ j ∈ (replay 0 observedTwice).queue.jobs,
      j.status.isWaiting = true ∧ ¬ j.attempts < j.maxAttempts := by decide +kernel
  obtain ⟨j, hj, hw, ha⟩ := hz
  exact ha (h j hj hw).1

/-- Up to its success that run spares, and has no zombie. -/
theorem noZombie_iff_observed :
    ∃ tr c, QueueRun 0 tr c ∧ tr.map Prod.snd = observedTwice.take 3 ∧
      ∀ x, Run.Visits tr c x → x.queue.NoZombie := by
  have hrun := QueueRun.replay 0 (observedTwice.take 3) (by decide +kernel)
  exact ⟨_, _, hrun, rfl, (noZombie_iff hrun).mpr (by
    simp [observedTwice, Run.history, Run.Meets, Op.Spares])⟩

end

end MangaManager
