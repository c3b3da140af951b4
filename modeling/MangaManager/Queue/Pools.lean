import MangaManager.Queue.Invariant

/-!
# The pool and the source of a job

A network job is claimed under the permits of its pool and of `provider:source`;
they concern one provider when the pool is the default one of the job's source.
Every writer sets both columns together but one: a request to an active job moves
the waiting job to the pool of the request's source and leaves the job's source.
`pools_agree_iff`: along a run of requests with the default pool, pool and source
agree exactly when each such request has the default pool of the job's source.
-/

namespace MangaManager

open Lib

namespace WorkJob

/-- The pool is that of the job's own provider. -/
def PoolAgrees (j : WorkJob) : Prop := j.kind.isNetwork = true → j.pool = defaultPool j.kind j.source

/-- The permits of a claim are global, of the default pool of the source, or of the source. -/
def OneProvider (j : WorkJob) : Prop := j.kind.isNetwork = true → ∀ pool ∈ j.permitPools,
  pool = "network_global" ∨ pool = "chapter_global" ∨ pool = defaultPool j.kind j.source ∨
    pool = "provider:" ++ j.source

instance (j : WorkJob) : Decidable j.PoolAgrees := inferInstanceAs (Decidable (_ → _))

end WorkJob

/-- Waiting jobs are in the pool of their source, and a claim asks permits of one provider. -/
def Queue.PoolsAgree (s : Queue) : Prop :=
  ∀ j ∈ s.jobs, j.status.isWaiting = true → j.PoolAgrees ∧ j.OneProvider

/-- Requests leave the pool to the queue. -/
def Op.DefaultPool : Op → Prop
  | enqueue a => strip a.pool = ""
  | _ => True

/-- A request that meets a waiting job has the default pool of the job's source. -/
def Op.KeepsPools (op : Op) (s : Queue) : Prop :=
  match op with
  | enqueue a => Queue.checkEnqueue a = .ok () → a.kind.isNetwork = true →
      ∀ e, s.activeJob a.kind (strip a.dedupeKey) = some e → e.status ≠ .leased →
        defaultPool a.kind a.routedSource = defaultPool a.kind e.source
  | _ => True

section
variable {now : Time} {op : Op} {s s' : Queue} {j j' e : WorkJob} {a : EnqueueArgs} {n : Nat}

theorem WorkJob.PoolAgrees.oneProvider (h : j.PoolAgrees) : j.OneProvider := by
  intro hk pool hm
  have hpool := h hk
  unfold WorkJob.permitPools at hm
  rw [List.mem_eraseDups, List.mem_filter, List.mem_append, List.mem_cons] at hm
  rcases hm.1 with (rfl | hm) | hm
  · exact .inr (.inr (.inl hpool))
  · split at hm
    · rcases List.mem_cons.mp hm with rfl | hm
      · exact .inl rfl
      · split at hm
        · cases hm
        · exact .inr (.inr (.inr (List.mem_singleton.mp hm)))
    · cases hm
  · split at hm
    · exact .inr (.inl (List.mem_singleton.mp hm))
    · cases hm

theorem EnqueueArgs.routedPool_default (h : strip a.pool = "") :
    a.routedPool = defaultPool a.kind a.routedSource := by
  simp [EnqueueArgs.routedPool, h]

/-! ## What a call writes -/

/-- A request keeps the source of the job, and moves the job to its pool while it waits. -/
theorem Edit.request_pool (h : Edit now (.enqueue a) j j' n) : j'.source = j.source ∧
    j'.pool = if j.status ≠ .leased then a.routedPool else j.pool := by
  cases h with
  | touch => exact ⟨rfl, rfl⟩
  | coalesce _ _ _ _ _ hi =>
    obtain ⟨r, added, -, -, hst⟩ := coalesceInto_some hi
    unfold storeReplacement at hst
    split at hst <;> cases hst <;> exact ⟨rfl, rfl⟩

theorem Edit.request_kind (h : Edit now (.enqueue a) j j' n) :
    j.kind = a.kind ∧ j.dedupeKey = strip a.dedupeKey := by
  cases h with
  | touch hk hd _ _ => exact ⟨hk, hd⟩
  | coalesce hk hd _ _ _ _ => exact ⟨hk, hd⟩

/-- A row that stays active stays in the pool of its source. -/
theorem WorkJob.PoolAgrees.rowStep (h : j.PoolAgrees) (hs : RowStep now op j j')
    (hreq : ∀ a n, op = .enqueue a → Edit now (.enqueue a) j j' n → a.kind.isNetwork = true →
      j.status ≠ .leased → a.routedPool = defaultPool j.kind j.source)
    (ha : j'.status.isActive = true) : j'.PoolAgrees := by
  cases hs with
  | edit he =>
    have hsame := (RowStep.edit he).sameJob
    by_cases hop : ∃ a, op = .enqueue a
    · obtain ⟨a, rfl⟩ := hop
      intro hk
      rw [hsame.kind] at hk ⊢
      obtain ⟨hsrc, hpool⟩ := he.request_pool
      rw [hpool, hsrc]
      split
      · rename_i hl
        exact hreq a _ rfl he (he.request_kind.1 ▸ hk) hl
      · exact h hk
    · cases he with
      | touch => exact absurd ⟨_, rfl⟩ hop
      | coalesce => exact absurd ⟨_, rfl⟩ hop
      | progress => exact h
      | rerouteWaiting => exact fun _ => rfl
      | retryNow => exact h
      | resume => exact h
      | repool =>
        intro hk
        unfold Queue.repoolRefresh
        dsimp only
        split
        · rfl
        · exact h hk
  | unlease hu =>
    cases hu with
    | reroute => exact fun _ => rfl
    | _ => exact h
  | terminate ht =>
    rw [ht.ended.status, ht.ended.inactive] at ha
    cases ha
  | renew => exact h
  | grant => exact h

/-! ## Calls -/

/-- Every active job is in the pool of its source: what a run keeps. -/
def Queue.ActivePoolsAgree (s : Queue) : Prop :=
  ∀ j ∈ s.jobs, j.status.isActive = true → j.PoolAgrees

theorem Queue.ActivePoolsAgree.waiting (h : s.ActivePoolsAgree) : s.PoolsAgree := by
  intro j hj hw
  have ha : j.status.isActive = true := by
    revert hw
    cases j.status <;> decide
  exact ⟨h j hj ha, (h j hj ha).oneProvider⟩

theorem Op.KeepsPools.apply (hk : op.KeepsPools s) (hd : op.DefaultPool) (now : Time)
    (hw : s.WellFormed) (h : s.ActivePoolsAgree) : (op.apply s now).ActivePoolsAgree := by
  by_cases hbad : ∃ a err, op = .enqueue a ∧ Queue.checkEnqueue a = .error err
  · obtain ⟨a, err, rfl, hc⟩ := hbad
    simpa [Op.apply, Queue.enqueue, hc, committed] using h
  refine Op.apply_inv_of (C := op.KeepsPools) hw h hk
    (fun hsweep q => by cases op <;> trivial) ?_
  intro q q' hkq hwq hq ht
  rcases ht.jobs_cases with ⟨hjobs, -⟩ | ⟨a, rfl, -, -, rfl⟩ | ⟨j, j', hj, hstep, hjobs, -⟩
  · exact fun j hm => hq j (hjobs ▸ hm)
  · simp only [Queue.ActivePoolsAgree, Queue.enqueueNew_jobs, List.mem_append,
      List.mem_singleton]
    rintro j (hm | rfl) ha
    · exact hq j hm ha
    · exact fun _ => EnqueueArgs.routedPool_default hd
  · unfold Queue.ActivePoolsAgree
    rw [hjobs]
    intro k hm ha
    rcases Table.mem_put.mp hm with ⟨rfl, -⟩ | ⟨hm, -⟩
    · refine (hq j hj hstep.active).rowStep hstep ?_ ha
      rintro a n rfl he hnet hl
      obtain ⟨hkind, hkey⟩ := he.request_kind
      have hact := Queue.activeJob_eq hwq hj hstep.active
      rw [hkind, hkey] at hact
      rw [EnqueueArgs.routedPool_default hd, hkind]
      cases hc : Queue.checkEnqueue a with
      | ok => exact hkq hc hnet j hact hl
      | error err => exact absurd ⟨a, err, rfl, hc⟩ hbad
    · exact hq k hm ha

/-- A request after which pools and sources agree had the pool of the job's source. -/
theorem Op.KeepsPools.of_apply (hd : op.DefaultPool)
    (h : (op.apply s now).PoolsAgree) : op.KeepsPools s := by
  cases op with
  | enqueue a =>
    intro hc hnet e he hl
    obtain ⟨e', n, hedit, hs⟩ := Queue.enqueueExisting_edit now hc he
    obtain ⟨hm, hkind, -, ha⟩ := Queue.activeJob_some he
    obtain ⟨hsrc, hpool⟩ := hedit.request_pool
    have hsame := (RowStep.edit hedit).sameJob
    rw [if_pos hl, EnqueueArgs.routedPool_default hd] at hpool
    have hw' : e'.status.isWaiting = true := by
      rw [hedit.edited.waiting]
      revert ha hl
      cases e.status <;> decide
    simp only [Op.apply, Queue.enqueue, hc, he, committed, hs] at h
    have hagree := (h e' (Table.mem_put_self hm hsame.id.symm) hw').1
    have hkind' : e'.kind = a.kind := hsame.kind.trans hkind
    have hp := hagree (hkind' ▸ hnet)
    rw [hpool, hsrc, hkind'] at hp
    exact hp
  | _ => trivial

end

/-! ## Runs -/

section
variable {t₀ : Time} {tr : List (Clocked × (Op × Time))} {c : Clocked}

/-- Along a run of requests with the default pool, waiting jobs are in the pool of their source
exactly when no request moved a waiting job to the pool of another source. -/
theorem pools_agree_iff (h : QueueRun t₀ tr c)
    (hd : Run.Meets (fun _ l => l.1.DefaultPool) tr) :
    (∀ x, Run.Visits tr c x → x.queue.PoolsAgree) ↔
      Run.Meets (fun x l => l.1.KeepsPools x.queue) tr := by
  refine h.always_iff_of (I := fun x => x.queue.WellFormed) (Q := fun x => x.queue.ActivePoolsAgree)
    hd Queue.wellFormed_empty (fun j hj => by cases hj) ?_ (fun x hx => hx.waiting) ?_ ?_
  · rintro x l x' hw ⟨-, rfl⟩
    exact Op.apply_wellFormed _ _ hw
  · rintro x l x' hw hdl hq hk ⟨-, rfl⟩
    exact hk.apply hdl _ hw hq
  · rintro x l x' - hdl - hp ⟨-, rfl⟩
    exact Op.KeepsPools.of_apply hdl hp

/-- A download of one release, under a key that names no source. -/
def downloadFrom (source : String) : EnqueueArgs :=
  { kind := .chapterDownload, dedupeKey := "k", source := source
    payload := .chapterDownload { chapterReleaseId := 1 } }

/-- The second request moves the waiting download of `asura` to the pool of `mangadex`, where it
asks for permits of both. -/
theorem downloadFrom_mixed : ∃ tr c, QueueRun 0 tr c ∧
    tr.map Prod.snd =
      [(.enqueue (downloadFrom "asura"), 0), (.enqueue (downloadFrom "mangadex"), 1)] ∧
    Run.Meets (fun _ l => l.1.DefaultPool) tr ∧
    ∃ j ∈ c.queue.jobs, j.status.isWaiting = true ∧ j.kind.isNetwork = true ∧
      j.pool ≠ defaultPool j.kind j.source ∧ "download:mangadex" ∈ j.permitPools ∧
      "provider:asura" ∈ j.permitPools := by
  refine ⟨_, _, QueueRun.replay 0 [(.enqueue (downloadFrom "asura"), 0),
    (.enqueue (downloadFrom "mangadex"), 1)] (by decide +kernel), rfl, ?_, by decide +kernel⟩
  simp only [Run.history, Run.Meets, List.mem_cons, List.not_mem_nil, or_false, forall_eq_or_imp,
    forall_eq, Op.DefaultPool]
  decide +kernel

/-- One request, claimed and enqueued again for the same source: the pools agree. -/
theorem pools_agree_once : ∃ tr c, QueueRun 0 tr c ∧ c.queue.jobs ≠ [] ∧
    ∀ x, Run.Visits tr c x → x.queue.PoolsAgree := by
  let calls : List (Op × Time) :=
    [(.enqueue (downloadFrom "asura"), 0), (.enqueue (downloadFrom "asura"), 1)]
  have hrun := QueueRun.replay 0 calls (by decide +kernel)
  refine ⟨_, _, hrun, by decide +kernel, (pools_agree_iff hrun ?_).mpr ?_⟩
  · simp only [calls, Run.history, Run.Meets, List.mem_cons, List.not_mem_nil, or_false,
      forall_eq_or_imp, forall_eq, Op.DefaultPool]
    decide +kernel
  · simp only [calls, Run.history, Run.Meets, List.mem_cons, List.not_mem_nil, or_false,
      forall_eq_or_imp, forall_eq, Op.KeepsPools]
    refine ⟨fun _ _ e he => (by cases he), fun _ _ e he _ => ?_⟩
    have hsrc : ∀ e ∈ (replay 0 (calls.take 1)).queue.jobs, e.source = "asura" := by decide +kernel
    rw [hsrc e (Queue.activeJob_some he).1]
    decide +kernel

end

end MangaManager
