import MangaManager.Queue.Invariant

/-!
# Permits follow leases

`Queue.Lockstep`: a permit belongs to a leased job, of the same owner and
expiry, and a job has one permit in a pool at most. With fixed limits,
`Queue.Holding` says that an unexpired lease holds its permits and
`Queue.Capacity` that the permits in use of a pool stay within its limit; the
pools whose limit follows a provider's policy are left out there.
-/

namespace MangaManager

open Lib

/-- The job holds the lease the permit was taken for. -/
structure Holder (p : JobPermit) (j : WorkJob) : Prop where
  id : j.id = p.jobId
  leased : j.status = .leased
  owner : j.leaseOwner = p.owner
  expiry : j.leaseExpiresAt = some p.leaseExpiresAt

namespace Queue

structure Lockstep (s : Queue) : Prop where
  held : ∀ p ∈ s.permits, ∃ j ∈ s.jobs, Holder p j
  unique : (s.permits.map fun p => (p.jobId, p.pool)).Nodup

/-- An unexpired lease holds a permit in each limited pool it uses. -/
def Holding (l : PoolLimits) (now : Time) (s : Queue) : Prop :=
  ∀ j ∈ s.jobs, j.Live now → ∀ pool ∈ j.permitPools, (l.get pool).isSome = true →
    ∃ p ∈ s.permits, p.jobId = j.id ∧ p.pool = pool

/-- The permits in use of a pool with a fixed limit stay within it. -/
def Capacity (l : PoolLimits) (now : Time) (s : Queue) : Prop :=
  ∀ pool limit, l.get pool = some limit → isAdaptivePool pool = false →
    s.permitCount now pool ≤ limit

end Queue

section
variable {now : Time} {op : Op} {s s' : Queue} {j j' : WorkJob} {p : JobPermit} {l : PoolLimits}

theorem Queue.Lockstep.holder (hl : s.Lockstep) (hk : Table.Keyed WorkJob.id s.jobs)
    (hp : p ∈ s.permits) (hj : j ∈ s.jobs) (h : p.jobId = j.id) : Holder p j := by
  obtain ⟨k, hkm, hh⟩ := hl.held p hp
  rwa [hk.eq hkm hj (hh.id.trans h)] at hh

/-- A permit of a job with an unexpired lease is unexpired, and one of an expired lease is not. -/
theorem Holder.unexpired (h : Holder p j) (hl : j.Live now) : now < p.leaseExpiresAt := by
  obtain ⟨-, e, he, hlt⟩ := hl
  rwa [← Option.some.inj (he.symm.trans h.expiry)]

theorem Holder.expired (h : Holder p j) (he : j.expired now = true) : ¬ now < p.leaseExpiresAt := by
  simp only [WorkJob.expired, Bool.and_eq_true, WorkJob.leaseExpired_iff] at he
  obtain ⟨-, e, hee, hle⟩ := he
  rw [← Option.some.inj (hee.symm.trans h.expiry)]
  exact not_lt.mpr hle

/-- A job has one permit in a pool at most. -/
theorem Queue.Lockstep.one_permit (hl : s.Lockstep) (hp : p ∈ s.permits) {id : Nat} {pool : String}
    (hid : p.jobId = id) (hpool : p.pool = pool) :
    (s.permits.filter fun q => q.jobId == id && q.pool == pool).length = 1 := by
  have hpos : p ∈ s.permits.filter fun q => q.jobId == id && q.pool == pool :=
    List.mem_filter.mpr ⟨hp, by simp [hid, hpool]⟩
  have hle : (s.permits.map fun q => (q.jobId, q.pool)).count (id, pool) ≤ 1 :=
    List.nodup_iff_count_le_one.mp hl.unique _
  have hcount : (s.permits.map fun q => (q.jobId, q.pool)).count (id, pool) =
      (s.permits.filter fun q => q.jobId == id && q.pool == pool).length := by
    rw [List.count, List.countP_map, List.countP_eq_length_filter]
    rfl
  have hlen := List.length_pos_of_mem hpos
  omega

/-! ## The permits a transition leaves -/

theorem WorkJob.permitPools_nodup (j : WorkJob) : j.permitPools.Nodup :=
  Table.nodup_eraseDups _

theorem mem_newPermits {a : ClaimArgs} :
    p ∈ Queue.newPermits a now j ↔ p.jobId = j.id ∧ p.owner = strip a.owner ∧
      p.leaseExpiresAt = now + a.leaseFor ∧ p.pool ∈ j.permitPools ∧
      (a.limits.get p.pool).isSome = true := by
  simp only [Queue.newPermits, List.mem_map, List.mem_filter]
  constructor
  · rintro ⟨pool, ⟨hp, hl⟩, rfl⟩
    exact ⟨rfl, rfl, rfl, hp, hl⟩
  · rintro ⟨h1, h2, h3, h4, h5⟩
    refine ⟨p.pool, ⟨h4, h5⟩, ?_⟩
    rw [← h1, ← h2, ← h3]

theorem map_pool_newPermits {a : ClaimArgs} : (Queue.newPermits a now j).map JobPermit.pool =
    j.permitPools.filter fun pool => (a.limits.get pool).isSome := by
  rw [Queue.newPermits, List.map_map]
  exact List.map_id _

/-- The permits of a waiting job, or of a job whose old ones were dropped: none. -/
theorem no_permits (hw : s.WellFormed) (hl : s.Lockstep) (hj : j ∈ s.jobs)
    (hr : j.ready now = true ∨ j.expired now = true)
    (hd : j.expired now = true → ∀ p ∈ s.permits, p.jobId ≠ j.id) : ∀ p ∈ s.permits, p.jobId ≠ j.id := by
  rcases hr with hr | he
  · intro p hp h
    have hleased := (hl.holder hw.jobs hp hj h).leased
    rw [WorkJob.ready, hleased] at hr
    cases hr
  · exact hd he

/-- Removing the permits of one job whose row changes, or not. -/
theorem Queue.Lockstep.release (hl : s.Lockstep) {id : Nat}
    (hp : s'.permits = s.permits.filter fun p => p.jobId != id)
    (hj : ∀ k ∈ s.jobs, k.id ≠ id → k ∈ s'.jobs) : s'.Lockstep where
  held p hm := by
    rw [hp, List.mem_filter] at hm
    obtain ⟨k, hk, hh⟩ := hl.held p hm.1
    refine ⟨k, hj k hk ?_, hh⟩
    rw [hh.id]
    simpa using hm.2
  unique := by
    rw [hp]
    exact hl.unique.sublist (List.filter_sublist.map _)

theorem Transition.lockstep (h : Transition now op s s') (hw : s.WellFormed) (hl : s.Lockstep) :
    s'.Lockstep := by
  cases h with
  | insert _ _ =>
    refine ⟨fun p hp => ?_, by simpa using hl.unique⟩
    rw [Queue.enqueueNew_permits] at hp
    obtain ⟨k, hk, hh⟩ := hl.held p hp
    exact ⟨k, by simp [hk], hh⟩
  | @edit _ _ j j' _ _ hj he =>
    have hs := (RowStep.edit he).sameJob
    refine ⟨fun p hp => ?_, hl.unique⟩
    exact Table.exists_mem_put hw.jobs hj hs.id.symm (fun hh => ⟨hs.id.trans hh.id,
      he.edited.leased.mpr hh.leased, he.edited.owner.trans hh.owner,
      he.edited.expiry.trans hh.expiry⟩) (hl.held p hp)
  | @unlease _ _ j j' _ hj hu =>
    refine hl.release rfl fun k hk hne => ?_
    exact Table.mem_put_of_ne hk fun e => hne (e.trans (RowStep.unlease hu).sameJob.id)
  | @terminate _ _ j j' _ _ _ hj ht =>
    refine hl.release rfl fun k hk hne => ?_
    exact Table.mem_put_of_ne hk fun e => hne (e.trans (RowStep.terminate ht).sameJob.id)
  | @renew _ j owner leaseFor hj hlive ho hpos =>
    refine ⟨fun p hp => ?_, ?_⟩
    · obtain ⟨q, hq, rfl⟩ := List.mem_map.mp hp
      by_cases hid : q.jobId = j.id
      · have hh := hl.holder hw.jobs hq hj hid
        have howner : q.owner = owner := hh.owner.symm.trans ho
        refine ⟨j.renew leaseFor now, Table.mem_put_self hj rfl, ?_⟩
        rw [if_pos ⟨hid, howner⟩]
        exact ⟨hid.symm, hh.leased, hh.owner, rfl⟩
      · rw [if_neg fun h => hid h.1]
        obtain ⟨k, hk, hh⟩ := hl.held q hq
        exact ⟨k, Table.mem_put_of_ne hk fun e => hid (hh.id.symm.trans e), hh⟩
    · have hmap : (s.renewLease j owner leaseFor now).permits.map (fun p => (p.jobId, p.pool)) =
          s.permits.map fun p => (p.jobId, p.pool) := by
        simp only [Queue.renewLease, List.map_map]
        refine List.map_congr_left fun p _ => ?_
        simp only [Function.comp]
        split <;> rfl
      rw [hmap]
      exact hl.unique
  | @grant env a _ j _ hj hr _ hd _ _ _ _ =>
    have hno := no_permits hw hl hj hr hd
    refine ⟨fun p hp => ?_, ?_⟩
    · rcases List.mem_append.mp hp with hp | hp
      · obtain ⟨k, hk, hh⟩ := hl.held p hp
        exact ⟨k, Table.mem_put_of_ne hk fun e => hno p hp (hh.id.symm.trans e), hh⟩
      · obtain ⟨hid, ho, he, -, -⟩ := mem_newPermits.mp hp
        exact ⟨_, Table.mem_put_self hj rfl, hid.symm, rfl, ho.symm, congrArg some he.symm⟩
    · rw [List.map_append, List.nodup_append]
      refine ⟨hl.unique, ?_, ?_⟩
      · have hpools : ((Queue.newPermits a now j).map JobPermit.pool).Nodup := by
          rw [map_pool_newPermits]
          exact j.permitPools_nodup.filter _
        refine List.Nodup.of_map Prod.snd ?_
        rwa [List.map_map]
      · intro x hx y hy e
        obtain ⟨p, hp, rfl⟩ := List.mem_map.mp hx
        obtain ⟨q, hq, rfl⟩ := List.mem_map.mp hy
        exact hno p hp ((Prod.mk.inj e).1.trans (mem_newPermits.mp hq).1)
  | dropPermits _ _ => exact hl.release rfl fun k hk _ => hk
  | cleanup =>
    refine ⟨fun p hp => hl.held p (List.mem_of_mem_filter hp), ?_⟩
    exact hl.unique.sublist (List.filter_sublist.map _)

theorem Op.apply_lockstep (op : Op) (now : Time) (hw : s.WellFormed) (hl : s.Lockstep) :
    (op.apply s now).Lockstep := by
  have hinv := Op.apply_inv (P := fun s => s.WellFormed ∧ s.Lockstep) op now hw.jobs
    (fun _ _ h ht => ⟨ht.wellFormed h.1, ht.lockstep h.1 h.2⟩) ⟨hw, hl⟩
  exact hinv.2

/-! ## Unexpired leases hold their permits -/

/-- A row that is live after an edit was live in the same pools. -/
theorem Edit.live {n : Nat} (h : Edit now op j j' n) (hl : j'.Live now) :
    j.Live now ∧ j'.permitPools = j.permitPools := by
  have he := h.edited
  obtain ⟨e, hexp, hlt⟩ := hl.2
  have hlive : j.Live now := ⟨he.leased.mp hl.1, e, he.expiry.symm.trans hexp, hlt⟩
  obtain ⟨hp, hs⟩ := he.pools hlive
  refine ⟨hlive, ?_⟩
  unfold WorkJob.permitPools WorkJob.isNetworkJob
  rw [hp, hs, (RowStep.edit h).sameJob.kind]

/-- What is left after the permits of a job that is not live were removed. -/
theorem Queue.Holding.release (h : s.Holding l now) {id : Nat}
    (hp : s'.permits = s.permits.filter fun p => p.jobId != id)
    (hj : ∀ k ∈ s'.jobs, k.Live now → k ∈ s.jobs ∧ k.id ≠ id) : s'.Holding l now := by
  intro k hk hl pool hpool hlim
  obtain ⟨hks, hne⟩ := hj k hk hl
  obtain ⟨p, hpm, hid, hpp⟩ := h k hks hl pool hpool hlim
  refine ⟨p, ?_, hid, hpp⟩
  rw [hp, List.mem_filter]
  exact ⟨hpm, by simpa [hid] using hne⟩

theorem Transition.holding (h : Transition now op s s') (hw : s.WellFormed) (hl : s.Lockstep)
    (hop : ∀ env a, op = .claim env a → a.limits = l) (hh : s.Holding l now) :
    s'.Holding l now := by
  cases h with
  | insert _ _ =>
    intro k hk hlive pool hpool hlim
    rw [Queue.enqueueNew_jobs, List.mem_append, List.mem_singleton] at hk
    rw [Queue.enqueueNew_permits]
    rcases hk with hk | rfl
    · exact hh k hk hlive pool hpool hlim
    · cases hlive.1
  | @edit _ _ j j' _ _ hj he =>
    have hs := (RowStep.edit he).sameJob
    intro k hk hlive pool hpool hlim
    rcases Table.mem_put.mp hk with ⟨rfl, -⟩ | ⟨hk, -⟩
    · obtain ⟨hjl, hpools⟩ := he.live hlive
      rw [hs.id]
      exact hh j hj hjl pool (hpools ▸ hpool) hlim
    · exact hh k hk hlive pool hpool hlim
  | @unlease _ _ j j' _ hj hu =>
    refine hh.release rfl fun k hk hlive => ?_
    have hid := (RowStep.unlease hu).sameJob.id
    rcases Table.mem_put.mp hk with ⟨rfl, -⟩ | ⟨hk, hne⟩
    · exact absurd hlive.1 hu.not_leased
    · exact ⟨hk, fun e => hne (e.trans hid.symm)⟩
  | @terminate _ _ j j' _ _ _ hj ht =>
    refine hh.release rfl fun k hk hlive => ?_
    rcases Table.mem_put.mp hk with ⟨rfl, -⟩ | ⟨hk, hne⟩
    · exact absurd hlive.1 ht.ended.not_leased
    · exact ⟨hk, fun e => hne (e.trans (RowStep.terminate ht).sameJob.id.symm)⟩
  | @renew _ j owner leaseFor hj hjl ho hpos =>
    intro k hk hlive pool hpool hlim
    have hold : ∃ p ∈ s.permits, p.jobId = k.id ∧ p.pool = pool := by
      rcases Table.mem_put.mp hk with ⟨rfl, -⟩ | ⟨hk, -⟩
      · exact hh j hj hjl pool hpool hlim
      · exact hh k hk hlive pool hpool hlim
    obtain ⟨p, hp, hid, hpp⟩ := hold
    refine ⟨_, List.mem_map_of_mem hp, ?_⟩
    split <;> exact ⟨hid, hpp⟩
  | @grant env a _ j _ hj hr _ hd _ _ _ _ =>
    intro k hk hlive pool hpool hlim
    rcases Table.mem_put.mp hk with ⟨rfl, -⟩ | ⟨hk, -⟩
    · have hnew : (⟨j.id, pool, strip a.owner, now + a.leaseFor⟩ : JobPermit) ∈
          Queue.newPermits a now j :=
        mem_newPermits.mpr ⟨rfl, rfl, rfl, hpool, hop env a rfl ▸ hlim⟩
      exact ⟨_, List.mem_append_right _ hnew, rfl, rfl⟩
    · obtain ⟨p, hp, hp'⟩ := hh k hk hlive pool hpool hlim
      exact ⟨p, List.mem_append_left _ hp, hp'⟩
  | dropPermits hj he =>
    refine hh.release rfl fun k hk hlive => ⟨hk, fun e => ?_⟩
    rw [hw.jobs.eq hk hj e] at hlive
    rw [hlive.not_expired] at he
    cases he
  | cleanup =>
    intro k hk hlive pool hpool hlim
    obtain ⟨p, hp, hid, hpp⟩ := hh k hk hlive pool hpool hlim
    refine ⟨p, List.mem_filter.mpr ⟨hp, ?_⟩, hid, hpp⟩
    exact decide_eq_true ((hl.holder hw.jobs hp hk hid).unexpired hlive)

/-! ## Capacity -/

theorem Transition.capacity (h : Transition now op s s') (hw : s.WellFormed) (hl : s.Lockstep)
    (hop : ∀ env a, op = .claim env a → a.limits = l) (hc : s.Capacity l now) :
    s'.Capacity l now := by
  -- all but a grant leave at most the permits in use
  have hle : (∀ pool, s'.permitCount now pool ≤ s.permitCount now pool) → s'.Capacity l now :=
    fun h pool limit hg ha => le_trans (h pool) (hc pool limit hg ha)
  cases h with
  | insert _ _ => exact hle fun pool => by rw [Queue.permitCount, Queue.enqueueNew_permits]; rfl
  | edit _ _ => exact hle fun _ => le_rfl
  | unlease _ _ => exact hle fun _ => Semaphore.inUse_filter_le _
  | terminate _ _ => exact hle fun _ => Semaphore.inUse_filter_le _
  | @renew _ j owner leaseFor hj hjl ho hpos =>
    refine hle fun _ => Semaphore.inUse_map_le (fun p _ => ?_) fun p hp hlt => ?_
    · split <;> rfl
    · by_cases hpj : p.jobId = j.id ∧ p.owner = owner
      · exact (hl.holder hw.jobs hp hj hpj.1).unexpired hjl
      · rwa [if_neg hpj] at hlt
  | @grant env a _ j _ hj hr _ hd hfree _ _ _ =>
    intro pool limit hg ha
    have hold := hc pool limit hg ha
    have happ : s.permitCount now pool + Semaphore.inUse JobPermit.pool
        JobPermit.leaseExpiresAt (Queue.newPermits a now j) now pool ≤ limit := by
      by_cases hp : pool ∈ j.permitPools
      · have hone : Semaphore.inUse JobPermit.pool JobPermit.leaseExpiresAt
            (Queue.newPermits a now j) now pool ≤ 1 := by
          refine Semaphore.inUse_le_one ?_
          rw [map_pool_newPermits]
          exact j.permitPools_nodup.filter _
        have hlim : Queue.poolLimit env a j now pool = some limit := by
          rw [Queue.poolLimit, if_neg (by simp [ha]), hop env a rfl, hg]
        have hlt : s.permitCount now pool < limit := by
          exact (Queue.permitsFree_iff.mp hfree).2 pool hp limit hlim
        omega
      · have hzero : Semaphore.inUse JobPermit.pool JobPermit.leaseExpiresAt
            (Queue.newPermits a now j) now pool = 0 := by
          refine Semaphore.inUse_eq_zero fun p hpn e => hp ?_
          rw [← e]
          exact (mem_newPermits.mp hpn).2.2.2.1
        omega
    unfold Queue.permitCount at happ ⊢
    rwa [← Semaphore.inUse_append] at happ
  | dropPermits _ _ => exact hle fun _ => Semaphore.inUse_filter_le _
  | cleanup => exact hle fun _ => Semaphore.inUse_filter_le _

end

/-! ## Runs -/

section
variable {t₀ : Time} {tr : List (Clocked × (Op × Time))} {c : Clocked}

theorem QueueRun.lockstep (h : QueueRun t₀ tr c) : c.queue.Lockstep :=
  QueueRun.inv (I := fun _ => Queue.Lockstep) (C := fun _ => True) h (fun _ _ => trivial)
    ⟨by simp, List.nodup_nil⟩ (fun _ _ _ _ h => h) fun _ _ _ _ _ hw hl ht => ht.lockstep hw hl

/-- With fixed limits and at any later time: the permits in use stay within the fixed limits, an
unexpired lease holds one permit in each limited pool it uses, expiring with it, and a job that
is not leased holds none. -/
theorem permits_lockstep (l : PoolLimits) (h : QueueRun t₀ tr c)
    (hl : ∀ x ∈ tr, ∀ env a, x.2.1 = .claim env a → a.limits = l) {now : Time}
    (hnow : c.clock ≤ now) :
    (∀ pool limit, l.get pool = some limit → Queue.isAdaptivePool pool = false →
      c.queue.permitCount now pool ≤ limit) ∧
    (∀ j ∈ c.queue.jobs, j.Live now →
      (∀ pool ∈ j.permitPools, (l.get pool).isSome = true →
        ((c.queue.permits.filter fun p => p.jobId == j.id && p.pool == pool).length = 1)) ∧
      ∀ p ∈ c.queue.permits, p.jobId = j.id → j.leaseExpiresAt = some p.leaseExpiresAt) ∧
    (∀ j ∈ c.queue.jobs, j.status ≠ .leased → ∀ p ∈ c.queue.permits, p.jobId ≠ j.id) := by
  have hw := QueueRun.wellFormed h
  have hlock := QueueRun.lockstep h
  have hrun : c.queue.Lockstep ∧ c.queue.Holding l c.clock ∧ c.queue.Capacity l c.clock := by
    refine QueueRun.inv (I := fun t s => s.Lockstep ∧ s.Holding l t ∧ s.Capacity l t)
      (C := fun op => ∀ env a, op = .claim env a → a.limits = l) h hl ?_ ?_ ?_
    · refine ⟨⟨by simp, List.nodup_nil⟩, fun j hj => (by cases hj), fun _ _ _ _ => ?_⟩
      exact Nat.zero_le _
    · rintro t t' s hle ⟨h1, h2, h3⟩
      refine ⟨h1, fun j hj hlive => h2 j hj (hlive.earlier hle), fun pool limit hg ha => ?_⟩
      exact (Semaphore.inUse_later hle).trans (h3 pool limit hg ha)
    · rintro now op s s' hop hw ⟨h1, h2, h3⟩ ht
      exact ⟨ht.lockstep hw h1, ht.holding hw h1 hop h2, ht.capacity hw h1 hop h3⟩
  obtain ⟨-, hhold, hcap⟩ := hrun
  refine ⟨fun pool limit hg ha => ?_, fun j hj hlive => ⟨fun pool hpool hlim => ?_, ?_⟩, ?_⟩
  · exact (Semaphore.inUse_later hnow).trans (hcap pool limit hg ha)
  · obtain ⟨p, hp, hid, hpp⟩ := hhold j hj (hlive.earlier hnow) pool hpool hlim
    exact hlock.one_permit hp hid hpp
  · intro p hp hid
    exact (hlock.holder hw.jobs hp hj hid).expiry
  · intro j hj hne p hp hid
    exact hne (hlock.holder hw.jobs hp hj hid).leased

/-- Two pulls of one provider against a limit of one; the second one waits. -/
def pullsOfOneSource : List (Op × Time) :=
  let limits : PoolLimits := ⟨[("pull:asura", 1), ("network_global", 4)], by decide⟩
  let pull (key : String) : Op := .enqueue
    { kind := .sourcePull, dedupeKey := key, payload := .sourcePull { source := "asura" } }
  [(pull "a", 0), (pull "b", 0), (.claim {} { owner := "v", leaseFor := 10, limits := limits }, 1),
    (.claim {} { owner := "w", leaseFor := 10, limits := limits }, 2), (.heartbeat 1 "v" 10, 5)]

theorem permits_lockstep_pulls :
    (replay 0 pullsOfOneSource).queue.permits.length = 2 ∧
      (replay 0 pullsOfOneSource).queue.permitCount 7 "pull:asura" ≤ 1 := by
  refine ⟨by decide +kernel, ?_⟩
  refine (permits_lockstep ⟨[("pull:asura", 1), ("network_global", 4)], by decide⟩
    (QueueRun.replay 0 pullsOfOneSource (by decide +kernel)) ?_ (by decide +kernel)).1 _ 1
      (by decide) (by decide)
  simp [pullsOfOneSource, Run.history]

end

end MangaManager
