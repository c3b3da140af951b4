import MangaManager.Queue.Invariant

/-!
# Storage reservations

`manga_manager/infrastructure/storage_capacity.py`: before a job writes to the disk it
reserves space, in a row that expires. `heartbeat` moves the expiry with the lease, and
every call that ends a lease deletes the row (`Queue.releasePermits`). The amount of
free space is a constant of the coordinator.

`Capacity` is the queue with the leases its workers hold and the jobs that were granted
a reservation in the lease under way. A handler passes the expiry of the lease as it
was claimed: `reservations_last_iff` says when the reservation lasts as long as the
lease.
-/

namespace MangaManager

open Lib

/-- `min_free_bytes`, and what `shutil.disk_usage` finds. -/
structure StorageCapacityCoordinator where
  minFreeBytes : Nat
  freeBytes : Nat
  deriving DecidableEq

/-- The row of `storage_state`. -/
structure StorageState where
  freeBytes : Nat
  minFreeBytes : Nat
  reservedBytes : Nat
  paused : Bool
  reason : String
  updatedAt : Time
  deriving DecidableEq

def crossedReason : String := "free-space reserve would be crossed"

/-- `sum(reserved_bytes)`. -/
def reservedBytes (rows : List StorageReservation) : Nat := (rows.map (·.reservedBytes)).sum

namespace Queue

variable (s : Queue) (cap : StorageCapacityCoordinator)

/-- The rows that expired are deleted. -/
def dropLapsed (now : Time) : Queue :=
  { s with reservations := s.reservations.filter fun r => now < r.leaseExpiresAt }

/-- The job has a row, or its bytes leave the minimum free. -/
def roomFor (jobId bytes : Nat) : Bool :=
  (s.reservations.any fun r => r.jobId == jobId) ||
    decide (cap.minFreeBytes + reservedBytes s.reservations + bytes ≤ cap.freeBytes)

/-- The tables after `reserve`, with the row of `storage_state` when it is written. -/
def reserve (jobId : Nat) (owner : String) (bytes : Nat) (expiresAt now : Time) :
    Queue × Option StorageState × Bool :=
  let s := s.dropLapsed now
  if s.reservations.any fun r => r.jobId == jobId then
    ({ s with
      reservations := s.reservations.map fun r =>
        if r.jobId = jobId then { r with leaseExpiresAt := expiresAt } else r }, none, true)
  else
    let reserved := reservedBytes s.reservations
    if cap.minFreeBytes + reserved + bytes ≤ cap.freeBytes then
      ({ s with reservations := s.reservations ++ [⟨jobId, owner, bytes, expiresAt⟩] },
        some { freeBytes := cap.freeBytes, minFreeBytes := cap.minFreeBytes
               reservedBytes := reserved + bytes, paused := false, reason := "", updatedAt := now },
        true)
    else
      (s, some { freeBytes := cap.freeBytes, minFreeBytes := cap.minFreeBytes
                 reservedBytes := reserved, paused := true, reason := crossedReason
                 updatedAt := now }, false)

/-- `refresh`. -/
def refreshStorage (now : Time) : Queue × StorageState :=
  let s := s.dropLapsed now
  let reserved := reservedBytes s.reservations
  let paused := decide (cap.freeBytes < cap.minFreeBytes + reserved)
  (s, { freeBytes := cap.freeBytes, minFreeBytes := cap.minFreeBytes, reservedBytes := reserved
        paused := paused, reason := if paused then crossedReason else "", updatedAt := now })

end Queue

/-! ## The calls -/

/-- `lease` is the `JobLease` that the claim returned. -/
inductive CapacityCall where
  | call (op : Op)
  | reserve (lease : JobLease) (bytes : Nat)
  | refresh

/-- The queue and the state of the storage, with the leases that claims returned, the last one
first, and the jobs that were granted a reservation in the lease under way. -/
structure Capacity where
  queue : Queue := {}
  storage : Option StorageState := none
  clock : Time
  claimed : List JobLease := []
  granted : List Nat := []

/-- The lease that a call returns. -/
def Op.returned (op : Op) (s : Queue) (now : Time) : Option JobLease :=
  match op with
  | claim env a => match Queue.claim env a s now with
    | .ok (_, l) => l
    | .error _ => none
  | _ => none

namespace Capacity

variable (cap : StorageCapacityCoordinator) (c : Capacity)

/-- The worker still holds the lease at `now`. -/
def holds (lease : JobLease) (now : Time) : Bool :=
  c.claimed.find? (·.id == lease.id) == some lease &&
    (c.queue.selectHeld lease.id lease.owner now).isSome

def call (l : CapacityCall × Time) : Capacity :=
  match l.1 with
  | .call op =>
    let queue := op.apply c.queue l.2
    let lease := op.returned c.queue l.2
    { c with
      queue := queue, clock := l.2, claimed := lease.toList ++ c.claimed
      granted := c.granted.filter fun id =>
        (queue.job? id).any (·.status == .leased) && lease.all (·.id != id) }
  | .reserve lease bytes =>
    let (queue, state, ok) := c.queue.reserve cap lease.id lease.owner bytes lease.expiresAt l.2
    { c with
      queue := queue, storage := state.or c.storage, clock := l.2
      granted := if ok then lease.id :: c.granted else c.granted }
  | .refresh =>
    let (queue, state) := c.queue.refreshStorage cap l.2
    { c with queue := queue, storage := some state, clock := l.2 }

end Capacity

/-- A call at a time not before the clock; a reservation is the holder's. -/
def CapacityStep (cap : StorageCapacityCoordinator) (c : Capacity) (l : CapacityCall × Time)
    (c' : Capacity) : Prop :=
  c.clock ≤ l.2 ∧ (∀ lease bytes, l.1 = .reserve lease bytes → c.holds lease l.2 = true) ∧
    c' = c.call cap l

/-! ## The invariant -/

section
variable {cap : StorageCapacityCoordinator} {now : Time} {op : Op} {s s' : Queue} {j j' : WorkJob}

/-- A reservation is of a leased job and its owner, and all of them leave the minimum free. -/
structure Queue.ReservationsOk (cap : StorageCapacityCoordinator) (s : Queue) : Prop where
  queue : s.WellFormed
  keyed : Table.Keyed StorageReservation.jobId s.reservations
  owned : ∀ r ∈ s.reservations, ∃ j ∈ s.jobs, j.id = r.jobId ∧ j.status = .leased ∧
    j.leaseOwner = r.owner
  bounded : s.reservations ≠ [] →
    cap.minFreeBytes + reservedBytes s.reservations ≤ cap.freeBytes

/-- While the job has its lease, from the clock on, its reservation has not expired. -/
def Queue.Covered (s : Queue) (clock : Time) (id : Nat) : Prop :=
  ∀ j ∈ s.jobs, j.id = id → ∀ t, clock ≤ t → j.Live t →
    ∃ r ∈ s.reservations, r.jobId = id ∧ t < r.leaseExpiresAt

/-- What a call keeps of the reservations. -/
structure Queue.KeepsCovered (cap : StorageCapacityCoordinator) (now : Time) (s s' : Queue) :
    Prop where
  ok : s'.ReservationsOk cap
  covered : ∀ id clock, clock ≤ now → s.Covered clock id → s'.Covered now id

theorem Queue.KeepsCovered.trans {s₁ : Queue} (h : s.KeepsCovered cap now s₁)
    (h' : s₁.KeepsCovered cap now s') : s.KeepsCovered cap now s' :=
  ⟨h'.ok, fun id clock hle hc => h'.covered id now le_rfl (h.covered id clock hle hc)⟩

theorem Queue.Covered.later {clock : Time} {id : Nat} (h : s.Covered clock id) (hle : clock ≤ now) :
    s.Covered now id := fun j hj hid t ht => h j hj hid t (le_trans hle ht)

theorem reservedBytes_filter (p : StorageReservation → Bool) (rows : List StorageReservation) :
    reservedBytes (rows.filter p) ≤ reservedBytes rows := by
  unfold reservedBytes
  induction rows with
  | nil => exact Nat.le_refl _
  | cons r rows ih =>
    rw [List.filter_cons]
    split <;> simp only [List.map_cons, List.sum_cons] <;> omega

/-- The reservations of a job are deleted, and the lease of no other job changes. -/
theorem Queue.ReservationsOk.keepsCovered_drop {id : Nat} (h : s.ReservationsOk cap)
    (hw : s'.WellFormed) (hres : s'.reservations = s.reservations.filter (·.jobId != id))
    (hjobs : ∀ k ∈ s.jobs, k.id ≠ id → k ∈ s'.jobs) (hjobs' : ∀ k ∈ s'.jobs, k.id ≠ id → k ∈ s.jobs)
    (hdead : ∀ k ∈ s'.jobs, k.id = id → ¬ k.Live now) : s.KeepsCovered cap now s' := by
  have hmem : ∀ r, r ∈ s'.reservations ↔ r ∈ s.reservations ∧ r.jobId ≠ id := by
    intro r
    rw [hres, List.mem_filter, bne_iff_ne]
  refine ⟨⟨hw, ?_, fun r hr => ?_, fun hne => ?_⟩, fun id' clock hle hc k hk hid t ht hl => ?_⟩
  · rw [hres]
    exact h.keyed.filter
  · obtain ⟨hr, hne⟩ := (hmem r).mp hr
    obtain ⟨k, hk, hid, hl⟩ := h.owned r hr
    exact ⟨k, hjobs k hk (hid ▸ hne), hid, hl⟩
  · have hb := h.bounded fun he => hne (by rw [hres, he]; rfl)
    have hle := reservedBytes_filter (·.jobId != id) s.reservations
    rw [hres]
    omega
  · by_cases he : k.id = id
    · exact absurd (hl.earlier ht) (hdead k hk he)
    · obtain ⟨r, hr, hrid, hrt⟩ := hc k (hjobs' k hk he) hid t (le_trans hle ht) hl
      exact ⟨r, (hmem r).mpr ⟨hr, fun e => he (hid.trans (hrid.symm.trans e))⟩, hrid, hrt⟩

/-- The reservations stay, and the rows keep their lease or are new and wait. -/
theorem Queue.ReservationsOk.keepsCovered_same (h : s.ReservationsOk cap) (hw : s'.WellFormed)
    (hres : s'.reservations = s.reservations)
    (hjobs : ∀ k ∈ s.jobs, ∃ k' ∈ s'.jobs, k'.id = k.id ∧ k'.leaseOwner = k.leaseOwner ∧
      (k.status = .leased → k'.status = .leased))
    (hjobs' : ∀ k' ∈ s'.jobs, ∀ t, k'.Live t → ∃ k ∈ s.jobs, k.id = k'.id ∧ k.Live t) :
    s.KeepsCovered cap now s' := by
  refine ⟨⟨hw, hres ▸ h.keyed, fun r hr => ?_, fun hne => ?_⟩, fun id clock hle hc k hk hid t ht hl => ?_⟩
  · obtain ⟨k, hk, hid, hl, ho⟩ := h.owned r (hres ▸ hr)
    obtain ⟨k', hk', hid', ho', hl'⟩ := hjobs k hk
    exact ⟨k', hk', hid'.trans hid, hl' hl, ho'.trans ho⟩
  · rw [hres] at hne ⊢
    exact h.bounded hne
  · obtain ⟨k₀, hk₀, hid₀, hl₀⟩ := hjobs' k hk t hl
    rw [hres]
    exact hc k₀ hk₀ (hid₀.trans hid) t (le_trans hle ht) hl₀

/-- The rows of a table in which one job is written. -/
theorem mem_put_job (hj : j ∈ s.jobs) (hid : j'.id = j.id) (k : WorkJob) :
    k ∈ Table.put WorkJob.id s.jobs j' ↔ k = j' ∨ (k ∈ s.jobs ∧ k.id ≠ j.id) := by
  rw [Table.mem_put, hid]
  exact or_congr_left ⟨fun h => h.1, fun h => ⟨h, ⟨j, hj, rfl⟩⟩⟩

/-- The row of one job is written, and its lease stays as it is. -/
theorem Queue.ReservationsOk.keepsCovered_edit (h : s.ReservationsOk cap) (hw : s'.WellFormed)
    (hj : j ∈ s.jobs) (hres : s'.reservations = s.reservations)
    (hjobs : s'.jobs = Table.put WorkJob.id s.jobs j') (hid : j'.id = j.id)
    (he : Edited now j j') : s.KeepsCovered cap now s' := by
  have hmem := hjobs ▸ mem_put_job hj hid
  refine h.keepsCovered_same hw hres (fun k hk => ?_) fun k' hk' t hl => ?_
  · by_cases hkj : k.id = j.id
    · obtain rfl := h.queue.jobs.eq hk hj hkj
      exact ⟨j', (hmem j').mpr (.inl rfl), hid, he.owner, he.leased.mpr⟩
    · exact ⟨k, (hmem k).mpr (.inr ⟨hk, hkj⟩), rfl, rfl, fun hl => hl⟩
  · rcases (hmem k').mp hk' with rfl | ⟨hk', -⟩
    · exact ⟨j, hj, hid.symm, he.leased.mp hl.1, he.expiry ▸ hl.2⟩
    · exact ⟨k', hk', rfl, hl⟩

/-- A call that ends a lease. -/
theorem Queue.ReservationsOk.keepsCovered_end (h : s.ReservationsOk cap) (hw : s'.WellFormed)
    (hj : j ∈ s.jobs) (hres : s'.reservations = s.reservations.filter (·.jobId != j.id))
    (hjobs : s'.jobs = Table.put WorkJob.id s.jobs j') (hid : j'.id = j.id)
    (hl : j'.status ≠ .leased) : s.KeepsCovered cap now s' := by
  have hmem := hjobs ▸ mem_put_job hj hid
  refine h.keepsCovered_drop hw hres (fun k hk hne => (hmem k).mpr (.inr ⟨hk, hne⟩))
    (fun k hk hne => ?_) fun k hk he hlive => ?_
  · rcases (hmem k).mp hk with rfl | ⟨hk, -⟩
    · exact absurd hid hne
    · exact hk
  · rcases (hmem k).mp hk with rfl | ⟨-, hne⟩
    · exact hl hlive.1
    · exact hne he

/-- A heartbeat. -/
theorem Queue.ReservationsOk.keepsCovered_renew {leaseFor : Time} (h : s.ReservationsOk cap)
    (hw : (s.renewLease j j.leaseOwner leaseFor now).WellFormed) (hj : j ∈ s.jobs)
    (hl : j.Live now) : s.KeepsCovered cap now (s.renewLease j j.leaseOwner leaseFor now) := by
  have hmem := mem_put_job hj (show (j.renew leaseFor now).id = j.id from rfl)
  let f : StorageReservation → StorageReservation := fun r =>
    if r.jobId = j.id ∧ r.owner = j.leaseOwner then { r with leaseExpiresAt := now + leaseFor } else r
  have hf : ∀ r, (f r).jobId = r.jobId ∧ (f r).owner = r.owner ∧
      (f r).reservedBytes = r.reservedBytes := by
    intro r
    dsimp only [f]
    split <;> exact ⟨rfl, rfl, rfl⟩
  have hsum : reservedBytes (s.reservations.map f) = reservedBytes s.reservations := by
    unfold reservedBytes
    rw [List.map_map]
    exact congrArg List.sum (List.map_congr_left fun r _ => (hf r).2.2)
  refine ⟨⟨hw, ?_, ?_, ?_⟩, fun id clock hle hc k hk hid t ht hlt => ?_⟩
  · exact h.keyed.map fun x _ y _ he => by rwa [(hf x).1, (hf y).1] at he
  · intro r hr
    obtain ⟨r₀, hr₀, rfl⟩ := List.mem_map.mp hr
    obtain ⟨k, hk, hid, hlk, ho⟩ := h.owned r₀ hr₀
    show ∃ k ∈ Table.put WorkJob.id s.jobs _, k.id = (f r₀).jobId ∧ _ ∧ _ = (f r₀).owner
    rw [(hf r₀).1, (hf r₀).2.1]
    by_cases hkj : k.id = j.id
    · obtain rfl := h.queue.jobs.eq hk hj hkj
      exact ⟨_, (hmem _).mpr (.inl rfl), hid, hlk, ho⟩
    · exact ⟨k, (hmem k).mpr (.inr ⟨hk, hkj⟩), hid, hlk, ho⟩
  · intro hne
    show _ + reservedBytes (s.reservations.map f) ≤ _
    rw [hsum]
    exact h.bounded fun he => hne (show s.reservations.map f = [] by rw [he]; rfl)
  · show ∃ r ∈ s.reservations.map f, _
    rcases (hmem k).mp hk with rfl | ⟨hk, hne⟩
    · -- the reservation that covers the lease until now is moved with it
      obtain ⟨r, hr, hrid, -⟩ := hc j hj hid now hle hl
      obtain ⟨k, hk, hkid, -, ho⟩ := h.owned r hr
      obtain rfl := h.queue.jobs.eq hk hj (hkid.trans (hrid.trans hid.symm))
      refine ⟨f r, List.mem_map_of_mem hr, (hf r).1.trans hrid, ?_⟩
      dsimp only [f]
      rw [if_pos ⟨hkid.symm, ho.symm⟩]
      obtain ⟨-, e, he, hte⟩ := hlt
      cases he
      exact hte
    · obtain ⟨r, hr, hrid, hrt⟩ := hc k hk hid t (le_trans hle ht) hlt
      refine ⟨f r, List.mem_map_of_mem hr, (hf r).1.trans hrid, ?_⟩
      dsimp only [f]
      rw [if_neg fun hj => hne (hid.trans (hrid.symm.trans hj.1))]
      exact hrt

@[simp] theorem Queue.activeCycle_reservations :
    (s.activeCycle now).1.reservations = s.reservations := by
  unfold activeCycle
  split
  · rfl
  · dsimp only
    split <;> rfl

/-- A transition of a call that is no claim. -/
theorem Transition.keepsCovered (h : Transition now op s s') (ho : s.ReservationsOk cap)
    (hop : ∀ env a, op ≠ .claim env a) : s.KeepsCovered cap now s' := by
  have hw := h.wellFormed ho.queue
  cases h with
  | insert hc he =>
    refine ho.keepsCovered_same hw (by simp [Queue.enqueueNew, Queue.addUnits, Queue.recordEvent])
      (fun k hk => ⟨k, ?_, rfl, rfl, fun hl => hl⟩) fun k' hk' t hl => ?_
    · rw [Queue.enqueueNew_jobs]
      exact List.mem_append_left _ hk
    · rw [Queue.enqueueNew_jobs] at hk'
      rcases List.mem_append.mp hk' with hk' | hk'
      · exact ⟨k', hk', rfl, hl⟩
      · obtain rfl := List.mem_singleton.mp hk'
        cases hl.1
  | edit hj he =>
    exact ho.keepsCovered_edit hw hj rfl rfl (RowStep.edit he).sameJob.id he.edited
  | unlease hj he =>
    exact ho.keepsCovered_end hw hj rfl rfl (RowStep.unlease he).sameJob.id he.not_leased
  | terminate hj he =>
    exact ho.keepsCovered_end hw hj rfl rfl (RowStep.terminate he).sameJob.id he.ended.not_leased
  | renew hj hl howner hpos =>
    subst howner
    exact ho.keepsCovered_renew hw hj hl
  | grant | dropPermits => exact absurd rfl (hop _ _)
  | cleanup =>
    refine ho.keepsCovered_same hw rfl (fun k hk => ⟨k, hk, rfl, rfl, fun hl => hl⟩)
      fun k' hk' t hl => ⟨k', hk', rfl, hl⟩

theorem ScanStep.keepsCovered (h : ScanStep now s s') (ho : s.ReservationsOk cap) :
    s.KeepsCovered cap now s' := by
  have ht : Transition now (.claim {} { owner := "", leaseFor := 0 }) s s' := h.transition
  have hw := ht.wellFormed ho.queue
  cases h with
  | repool hj he =>
    have hedit : Edit now (.claim {} { owner := "", leaseFor := 0 }) _ _ 0 := .repool he
    exact ho.keepsCovered_edit hw hj rfl rfl rfl hedit.edited
  | dropPermits hj he =>
    refine ho.keepsCovered_drop hw rfl (fun k hk _ => hk) (fun k hk _ => hk) fun k hk hid hl => ?_
    obtain rfl := ho.queue.jobs.eq hk hj hid
    rw [hl.not_expired] at he
    cases he
  | sweep hj he ha =>
    exact ho.keepsCovered_end hw hj rfl rfl rfl fun hl => (by cases hl)

theorem Scans.keepsCovered (h : Scans now s s') (ho : s.ReservationsOk cap) :
    s.KeepsCovered cap now s' := by
  induction h with
  | refl => exact ⟨ho, fun id clock hle hc => hc.later hle⟩
  | tail _ hstep ih => exact ih.trans (hstep.keepsCovered ih.ok)

/-! ## A claim -/

/-- The reservations of an expired lease are gone when its job is leased again. -/
theorem claimLoop_dropped {env : ClaimEnv} {a : ClaimArgs} : ∀ {fuel : Nat} {c : Queue.ClaimScan},
    Queue.claimLoop env a now fuel c = .ok (s', some j) → j.expired now = true →
      ∀ r ∈ s'.reservations, r.jobId ≠ j.id := by
  intro fuel
  induction fuel with
  | zero =>
    intro c h
    cases h
  | succ fuel ih =>
    intro c h he
    unfold Queue.claimLoop at h
    cases hq : Queue.claimQuery env c.queue now (c.filter a) with
    | none =>
      rw [hq] at h
      cases h
    | some k =>
      rw [hq] at h
      dsimp only at h
      split at h
      · exact ih h he
      · generalize hs : (if (Queue.repoolRefresh k).expired now = true then
          (c.queue.putJob (Queue.repoolRefresh k)).releasePermits (Queue.repoolRefresh k).id
          else c.queue.putJob (Queue.repoolRefresh k)) = q at h
        split at h
        · split at h
          · cases h
          · cases h
            rw [if_pos he] at hs
            subst hs
            intro r hr
            simpa using (List.mem_filter.mp hr).2
        · exact ih h he

/-- The job that a claim leases has no reservation. -/
theorem claim_keepsCovered {env : ClaimEnv} {a : ClaimArgs} {l : Option JobLease}
    (ho : s.ReservationsOk cap) (h : Queue.claim env a s now = .ok (s', l)) :
    s'.ReservationsOk cap ∧ ∀ id clock, (∀ l' ∈ l, l'.id ≠ id) → clock ≤ now →
      s.Covered clock id → s'.Covered now id := by
  have hw : s'.WellFormed := by
    have hap := Op.apply_wellFormed (.claim env a) now ho.queue
    rwa [show (Op.claim env a).apply s now = s' by simp only [Op.apply, h, committed]] at hap
  cases l with
  | none =>
    have hk := Scans.keepsCovered (Queue.claim_ok ho.queue.jobs h) ho
    exact ⟨hk.ok, fun id clock _ => hk.covered id clock⟩
  | some l =>
    obtain ⟨s₂, j, hloop, hlid, hres₂, hjobs₂⟩ : ∃ s₂ j, Queue.claimLoop env a now 50
        (Queue.scanOf env a now s [] []) = .ok (s₂, some j) ∧ l.id = j.id ∧
        s'.reservations = s₂.reservations ∧
        s'.jobs = Table.put WorkJob.id s₂.jobs (j.lease (strip a.owner) a.leaseFor now) := by
      unfold Queue.claim at h
      split at h
      · cases h
      split at h
      · cases h
      split at h
      · cases h
      · cases h
      · rename_i s₂ j hloop
        refine ⟨s₂, j, hloop, ?_⟩
        unfold Queue.leaseChosen at h
        split at h
        · cases h
        dsimp only at h
        split at h
        · cases h
        cases h
        exact ⟨rfl, rfl, rfl⟩
    obtain ⟨s₁, hscan, hch, rfl⟩ :=
      claimLoop_scans (c := Queue.scanOf env a now s [] []) ho.queue.jobs hloop
    have hk := Scans.keepsCovered hscan ho
    have hres : s'.reservations = s₁.reservations := hres₂
    have hid : (j.lease (strip a.owner) a.leaseFor now).id = j.id := rfl
    have hmem := hjobs₂ ▸ mem_put_job hch.mem hid
    -- a waiting job has no reservation, and those of an expired lease were dropped
    have hno : ∀ r ∈ s₁.reservations, r.jobId ≠ j.id := by
      intro r hr hrid
      obtain ⟨k, hkm, hkid, hkl, -⟩ := hk.ok.owned r hr
      obtain rfl := hk.ok.queue.jobs.eq hkm hch.mem (hkid.trans hrid)
      rcases hch.ready with hready | hexp
      · simp [WorkJob.ready, hkl, JobState.isWaiting] at hready
      · exact claimLoop_dropped hloop hexp r hr hrid
    refine ⟨⟨hw, hres ▸ hk.ok.keyed, fun r hr => ?_, fun hne => ?_⟩, fun id clock hlno hle hc => ?_⟩
    · rw [hres] at hr
      obtain ⟨k, hkm, hkid, hkl, hko⟩ := hk.ok.owned r hr
      exact ⟨k, (hmem k).mpr (.inr ⟨hkm, fun he => hno r hr (hkid.symm.trans he)⟩), hkid, hkl, hko⟩
    · rw [hres] at hne ⊢
      exact hk.ok.bounded hne
    · intro k hkm hkid t ht hl
      rw [hres]
      rcases (hmem k).mp hkm with rfl | ⟨hkm, -⟩
      · exact absurd (hlid.trans hkid) (hlno l rfl)
      · exact hk.covered id clock hle hc k hkm hkid t ht hl

/-! ## One call -/

/-- A call of the queue, for a job that it does not lease. -/
theorem Op.keepsCovered (op : Op) (now : Time) (ho : s.ReservationsOk cap) :
    (op.apply s now).ReservationsOk cap ∧ ∀ id clock, (∀ l ∈ op.returned s now, l.id ≠ id) →
      clock ≤ now → s.Covered clock id → (op.apply s now).Covered now id := by
  by_cases hop : ∃ env a, op = .claim env a
  · obtain ⟨env, a, rfl⟩ := hop
    simp only [Op.apply, Op.returned]
    cases h : Queue.claim env a s now with
    | error e => exact ⟨ho, fun id clock _ hle hc => hc.later hle⟩
    | ok r => exact claim_keepsCovered ho h
  · have hop : ∀ env a, op ≠ .claim env a := fun env a he => hop ⟨env, a, he⟩
    have hkeep : s.KeepsCovered cap now (op.apply s now) := by
      rcases op.apply_cases now ho.queue.jobs with he | ht | ⟨-, ht⟩
      · rw [he]
        exact ⟨ho, fun id clock hle hc => hc.later hle⟩
      · exact ht.keepsCovered ho hop
      · generalize op.apply s now = q at ht ⊢
        induction ht with
        | refl => exact ⟨ho, fun id clock hle hc => hc.later hle⟩
        | tail _ hstep ih => exact ih.trans (hstep.keepsCovered ih.ok hop)
    exact ⟨hkeep.ok, fun id clock _ => hkeep.covered id clock⟩

/-- The rows that expired are of no live lease that is covered. -/
theorem Queue.ReservationsOk.keepsCovered_lapsed (h : s.ReservationsOk cap) (now : Time) :
    s.KeepsCovered cap now (s.dropLapsed now) := by
  refine ⟨⟨⟨h.queue.jobs, h.queue.jobsBelow, h.queue.rows, h.queue.oneActive, h.queue.cycles,
    h.queue.cyclesBelow, h.queue.jobCycles⟩, h.keyed.filter, fun r hr => ?_, fun hne => ?_⟩,
    fun id clock hle hc k hk hid t ht hl => ?_⟩
  · exact h.owned r (List.mem_filter.mp hr).1
  · have hb := h.bounded fun he => hne (by simp [Queue.dropLapsed, he])
    have hle := reservedBytes_filter (fun r => now < r.leaseExpiresAt) s.reservations
    show _ + reservedBytes (s.reservations.filter _) ≤ _
    omega
  · obtain ⟨r, hr, hrid, hrt⟩ := hc k hk hid t (le_trans hle ht) hl
    exact ⟨r, List.mem_filter.mpr ⟨hr, by simpa using lt_of_le_of_lt ht hrt⟩, hrid, hrt⟩

/-- What `reserve` does for the holder of the lease. -/
theorem reserve_spec {id bytes : Nat} {owner : String} {expiresAt : Time} {state : Option StorageState}
    {ok : Bool} (ho : s.ReservationsOk cap)
    (hj : ∃ j ∈ s.jobs, j.id = id ∧ j.status = .leased ∧ j.leaseOwner = owner)
    (h : s.reserve cap id owner bytes expiresAt now = (s', state, ok)) :
    s'.ReservationsOk cap ∧ s'.jobs = s.jobs ∧ ok = (s.dropLapsed now).roomFor cap id bytes ∧
      (ok = true → cap.minFreeBytes + reservedBytes s'.reservations ≤ cap.freeBytes ∧
        ∃ r ∈ s'.reservations, r.jobId = id ∧ r.leaseExpiresAt = expiresAt) ∧
      ∀ id' clock, (ok = true → id' ≠ id) → clock ≤ now → s.Covered clock id' →
        s'.Covered now id' := by
  have hk := ho.keepsCovered_lapsed now
  have hjobs : (s.dropLapsed now).jobs = s.jobs := rfl
  unfold Queue.reserve at h
  generalize s.dropLapsed now = q at h hk hjobs ⊢
  obtain ⟨hok, hcov⟩ := hk
  have hwell : ∀ rows : List StorageReservation,
      ({ q with reservations := rows } : Queue).WellFormed := fun rows =>
    ⟨hok.queue.jobs, hok.queue.jobsBelow, hok.queue.rows, hok.queue.oneActive, hok.queue.cycles,
      hok.queue.cyclesBelow, hok.queue.jobCycles⟩
  dsimp only at h
  split at h
  · rename_i hany
    obtain ⟨r₀, hr₀, hid₀⟩ := List.any_eq_true.mp hany
    rw [beq_iff_eq] at hid₀
    cases h
    let f : StorageReservation → StorageReservation := fun r =>
      if r.jobId = id then { r with leaseExpiresAt := expiresAt } else r
    have hf : ∀ r, (f r).jobId = r.jobId ∧ (f r).owner = r.owner ∧
        (f r).reservedBytes = r.reservedBytes := by
      intro r
      dsimp only [f]
      split <;> exact ⟨rfl, rfl, rfl⟩
    have hsum : reservedBytes (q.reservations.map f) = reservedBytes q.reservations := by
      unfold reservedBytes
      rw [List.map_map]
      exact congrArg List.sum (List.map_congr_left fun r _ => (hf r).2.2)
    have hb : cap.minFreeBytes + reservedBytes (q.reservations.map f) ≤ cap.freeBytes := by
      rw [hsum]
      exact hok.bounded (List.ne_nil_of_mem hr₀)
    refine ⟨⟨hwell _, ?_, fun r hr => ?_, fun _ => hb⟩, hjobs, ?_, fun _ => ⟨hb, f r₀,
      List.mem_map_of_mem hr₀, (hf r₀).1.trans hid₀, ?_⟩, fun id' clock hne hle hc => ?_⟩
    · exact hok.keyed.map fun x _ y _ he => by rwa [(hf x).1, (hf y).1] at he
    · obtain ⟨r₁, hr₁, rfl⟩ := List.mem_map.mp hr
      rw [(hf r₁).1, (hf r₁).2.1]
      exact hok.owned r₁ hr₁
    · simp [Queue.roomFor, hany]
    · dsimp only [f]
      rw [if_pos hid₀]
    · intro k hkm hkid t ht hl
      obtain ⟨r, hr, hrid, hrt⟩ := hcov id' clock hle hc k hkm hkid t ht hl
      refine ⟨f r, List.mem_map_of_mem hr, (hf r).1.trans hrid, ?_⟩
      dsimp only [f]
      rw [if_neg fun he => hne rfl (hrid.symm.trans he)]
      exact hrt
  · rename_i hany
    have hno : ∀ r ∈ q.reservations, r.jobId ≠ id := by simpa using hany
    split at h
    · rename_i hroom
      cases h
      have hb : cap.minFreeBytes + reservedBytes (q.reservations ++ [⟨id, owner, bytes, expiresAt⟩]) ≤
          cap.freeBytes := by
        simp only [reservedBytes, List.map_append, List.sum_append, List.map_singleton,
          List.sum_singleton] at hroom ⊢
        omega
      refine ⟨⟨hwell _, Table.keyed_append.mpr ⟨hok.keyed, hno⟩, fun r hr => ?_, fun _ => hb⟩, hjobs,
        ?_, fun _ => ⟨hb, _, List.mem_append_right _ (List.mem_singleton_self _), rfl, rfl⟩,
        fun id' clock hne hle hc => ?_⟩
      · rcases List.mem_append.mp hr with hr | hr
        · exact hok.owned r hr
        · obtain rfl := List.mem_singleton.mp hr
          obtain ⟨j, hjm, hj⟩ := hj
          exact ⟨j, hjobs ▸ hjm, hj⟩
      · simp [Queue.roomFor, hroom]
      · intro k hkm hkid t ht hl
        obtain ⟨r, hr, hrt⟩ := hcov id' clock hle hc k hkm hkid t ht hl
        exact ⟨r, List.mem_append_left _ hr, hrt⟩
    · rename_i hroom
      cases h
      refine ⟨hok, hjobs, ?_, fun he => (by cases he), fun id' clock _ hle hc =>
        hcov id' clock hle hc⟩
      simp [Queue.roomFor, hany, hroom]

end

/-! ## Runs -/

namespace Capacity

variable (cap : StorageCapacityCoordinator) (c : Capacity)

/-- A reservation granted to a job is there, and has not expired, as long as the job has the lease
that it was granted in. -/
def Lasting : Prop := ∀ id ∈ c.granted, c.queue.Covered c.clock id

/-- The call is a reservation that is granted. -/
def grants (l : CapacityCall × Time) : Bool :=
  match l.1 with
  | .reserve lease bytes => (c.queue.dropLapsed l.2).roomFor cap lease.id bytes
  | _ => false

/-- A reservation that is granted is not for a lease that ends later than it did when it was
claimed. -/
def ExpiryCurrent (l : CapacityCall × Time) : Prop := c.grants cap l = true →
  ∀ lease bytes, l.1 = .reserve lease bytes → ∀ j ∈ c.queue.jobs, j.id = lease.id →
    ∀ e ∈ j.leaseExpiresAt, e ≤ lease.expiresAt

/-- The bytes of the reservations that have not expired. -/
def unexpiredBytes : Nat :=
  reservedBytes (c.queue.reservations.filter fun r => c.clock < r.leaseExpiresAt)

end Capacity

section
variable {cap : StorageCapacityCoordinator} {c c' : Capacity} {l : CapacityCall × Time}

/-- The job of a lease that is held. -/
theorem Capacity.holds_iff {lease : JobLease} {now : Time} (h : c.holds lease now = true) :
    ∃ j ∈ c.queue.jobs, j.id = lease.id ∧ j.Live now ∧ j.leaseOwner = lease.owner := by
  simp only [Capacity.holds, Bool.and_eq_true, Option.isSome_iff_exists] at h
  obtain ⟨-, j, hj⟩ := h
  obtain ⟨hget, hl, ho⟩ := Queue.selectHeld_some hj
  obtain ⟨hm, hid⟩ := Queue.job?_some hget
  exact ⟨j, hm, hid, hl, ho⟩

/-- One call: the invariant, the bound after a grant, and when reservations still last. -/
theorem CapacityStep.spec (h : CapacityStep cap c l c') (ho : c.queue.ReservationsOk cap) :
    c'.queue.ReservationsOk cap ∧
      (c.grants cap l = true → cap.minFreeBytes + c'.unexpiredBytes ≤ cap.freeBytes) ∧
      (c.Lasting → (c'.Lasting ↔ c.ExpiryCurrent cap l)) := by
  obtain ⟨hclock, hholds, rfl⟩ := h
  obtain ⟨call, now⟩ := l
  cases call with
  | call op =>
    obtain ⟨hok, hcov⟩ := op.keepsCovered now ho
    refine ⟨hok, fun hg => (by cases hg), fun hlast => ⟨fun _ hg => (by cases hg), fun _ id hid => ?_⟩⟩
    obtain ⟨hid, hkeep⟩ := List.mem_filter.mp hid
    rw [Bool.and_eq_true] at hkeep
    refine hcov id c.clock (fun l hl => ?_) hclock (hlast id hid)
    have hkeep := hkeep.2
    rw [Option.mem_def.mp hl] at hkeep
    exact bne_iff_ne.mp hkeep
  | refresh =>
    have hk := ho.keepsCovered_lapsed now
    refine ⟨hk.ok, fun hg => (by cases hg), fun hlast => ⟨fun _ hg => (by cases hg), fun _ id hid => ?_⟩⟩
    exact hk.covered id c.clock hclock (hlast id hid)
  | reserve lease bytes =>
    obtain ⟨j, hjm, hjid, hjl, hjo⟩ := c.holds_iff (hholds lease bytes rfl)
    rcases hr : c.queue.reserve cap lease.id lease.owner bytes lease.expiresAt now with ⟨q, state, ok⟩
    obtain ⟨hok, hjobs, hgrant, hbound, hcov⟩ := reserve_spec ho ⟨j, hjm, hjid, hjl.1, hjo⟩ hr
    have hcall : c.call cap (.reserve lease bytes, now) =
        { c with
          queue := q, storage := state.or c.storage, clock := now
          granted := if ok then lease.id :: c.granted else c.granted } := by
      simp only [Capacity.call, hr]
    have hg : c.grants cap (.reserve lease bytes, now) = ok := hgrant.symm
    rw [hcall]
    refine ⟨hok, fun hg' => ?_, fun hlast => ?_⟩
    · have hb := (hbound (hg ▸ hg')).1
      have hle := reservedBytes_filter (fun r => now < r.leaseExpiresAt) q.reservations
      show cap.minFreeBytes + reservedBytes (q.reservations.filter fun r => now < r.leaseExpiresAt) ≤ _
      omega
    · unfold Capacity.ExpiryCurrent
      rw [hg]
      cases ok with
      | false =>
        refine ⟨fun _ hf => (by cases hf), fun _ id hid => ?_⟩
        exact hcov id c.clock (fun hf => (by cases hf)) hclock (hlast id hid)
      | true =>
        obtain ⟨-, r, hr, hrid, hre⟩ := hbound rfl
        constructor
        · intro hlast' _ lease' bytes' he k hkm hkid e hke
          cases he
          obtain rfl := ho.queue.jobs.eq hjm hkm (hjid.trans hkid.symm)
          -- the reservation that there is at the later of now and its expiry
          by_contra hlt
          have hlt : lease.expiresAt < e := not_le.mp hlt
          obtain ⟨hjst, e', he', hnow⟩ := hjl
          obtain rfl := Option.some.inj (he'.symm.trans hke)
          obtain ⟨r', hr', hrid', hrt'⟩ := hlast' lease.id List.mem_cons_self j (hjobs ▸ hkm) hkid
            (max now lease.expiresAt) (le_max_left _ _) ⟨hjst, e', he', max_lt hnow hlt⟩
          obtain rfl := hok.keyed.eq hr' hr (hrid'.trans hrid.symm)
          rw [hre] at hrt'
          exact absurd hrt' (not_lt.mpr (le_max_right _ _))
        · intro hcur id hid
          by_cases hne : id = lease.id
          · subst hne
            intro k hkm hkid t ht hl
            obtain ⟨-, e, he, hte⟩ := hl
            have hle := hcur rfl lease bytes rfl k (hjobs ▸ hkm) hkid e he
            exact ⟨r, hr, hrid, hre ▸ lt_of_lt_of_le hte hle⟩
          · have hid : id ∈ c.granted := (List.mem_cons.mp hid).resolve_left hne
            exact hcov id c.clock (fun _ => hne) hclock (hlast id hid)

/-- Along every run: what is reserved after a grant leaves the minimum free, no job has two
reservations, and reservations last as long as the leases they were granted in, exactly when no
reservation is granted for a lease that was extended since it was claimed. -/
theorem reservations_last_iff {tr : List (Capacity × CapacityCall × Time)} {t₀ : Time}
    (h : Run (CapacityStep cap) { clock := t₀ } tr c) :
    ((∀ x l y, (x, l) ∈ tr → CapacityStep cap x l y → x.grants cap l = true →
        cap.minFreeBytes + y.unexpiredBytes ≤ cap.freeBytes) ∧
      ∀ x, Run.Visits tr c x →
        Table.Keyed StorageReservation.jobId x.queue.reservations ∧ x.Lasting) ↔
    Run.Meets (Capacity.ExpiryCurrent cap) tr := by
  have hstart : (({ clock := t₀ } : Capacity).queue).ReservationsOk cap :=
    ⟨Queue.wellFormed_empty, List.nodup_nil, fun _ hr => (by cases hr), fun hne => absurd rfl hne⟩
  have hok : ∀ x, Run.Visits tr c x → x.queue.ReservationsOk cap :=
    h.invariant_visits (C := fun _ _ => True) (fun _ _ => trivial) hstart
      fun s l s' _ hs hstep => (hstep.spec hs).1
  have hlast : (∀ x, Run.Visits tr c x → x.Lasting) ↔ Run.Meets (Capacity.ExpiryCurrent cap) tr :=
    h.always_iff (I := fun x => x.queue.ReservationsOk cap) hstart (fun _ hid => (by cases hid))
      (fun s l s' hs hstep => (hstep.spec hs).1) fun s l s' hs hl hstep => (hstep.spec hs).2.2 hl
  rw [← hlast]
  refine ⟨fun hall x hx => (hall.2 x hx).2, fun hall => ⟨fun x l y hx hstep hg => ?_, fun x hx => ?_⟩⟩
  · exact (hstep.spec (hok x (.inr ⟨l, hx⟩))).2.1 hg
  · exact ⟨(hok x hx).keyed, hall x hx⟩

end

/-! ## A lease that was extended -/

/-- The guard of a call, computed. -/
def Capacity.mayTake (c : Capacity) (l : CapacityCall × Time) : Bool :=
  decide (c.clock ≤ l.2) && match l.1 with
    | .reserve lease _ => c.holds lease l.2
    | _ => true

def Capacity.replay (cap : StorageCapacityCoordinator) (calls : List (CapacityCall × Time)) :
    Capacity :=
  calls.foldl (Capacity.call cap) { clock := 0 }

theorem Capacity.replay_run (cap : StorageCapacityCoordinator) (calls : List (CapacityCall × Time))
    (h : (Run.history (Capacity.call cap) { clock := 0 } calls).all
      fun x => x.1.mayTake x.2) :
    Run (CapacityStep cap) { clock := 0 } (Run.history (Capacity.call cap) { clock := 0 } calls)
      (replay cap calls) := by
  refine Run.of_foldl _ calls fun x hx => ?_
  have hx := List.all_eq_true.mp h x hx
  simp only [mayTake, Bool.and_eq_true, decide_eq_true_eq] at hx
  refine ⟨hx.1, fun lease bytes he => ?_, rfl⟩
  have hheld := hx.2
  rwa [he] at hheld

/-- A download is claimed until 10. -/
def claimedDownload : List (CapacityCall × Time) :=
  [(.call (.enqueue { kind := .chapterDownload, dedupeKey := "k", source := "asura"
                      payload := .chapterDownload { chapterReleaseId := 1 } }), 0),
    (.call (.claim {} { owner := "w", leaseFor := 10 }), 0)]

/-- The lease that its worker has. -/
def downloadLease : JobLease :=
  { id := 1, kind := .chapterDownload, dedupeKey := "k"
    payload := .chapterDownload { chapterReleaseId := 1 }
    priority := 100, attempt := 1, maxAttempts := 3, owner := "w", expiresAt := 10
    source := "asura", seriesKey := "", pool := "download:asura" }

/-- A heartbeat at 5 extends the lease to 15; the space that is reserved at 6, as the handler does,
is given away at 10. -/
def lateReservation : List (CapacityCall × Time) :=
  claimedDownload ++ [(.call (.heartbeat 1 "w" 10), 5), (.reserve downloadLease 3, 6), (.refresh, 10)]

theorem lateReservation_lapses : ∃ tr c,
    Run (CapacityStep ⟨1, 4⟩) { clock := 0 } tr c ∧ tr.map Prod.snd = lateReservation ∧
      1 ∈ c.granted ∧ (∃ j ∈ c.queue.jobs, j.id = 1 ∧ j.Live c.clock) ∧
      c.queue.reservations = [] ∧
      ¬ ((∀ x l y, (x, l) ∈ tr → CapacityStep ⟨1, 4⟩ x l y → x.grants ⟨1, 4⟩ l = true →
          1 + y.unexpiredBytes ≤ 4) ∧
        ∀ x, Run.Visits tr c x →
          Table.Keyed StorageReservation.jobId x.queue.reservations ∧ x.Lasting) := by
  have hlive : ∃ j ∈ (Capacity.replay ⟨1, 4⟩ lateReservation).queue.jobs, j.id = 1 ∧
      j.status = .leased ∧ ∃ e, j.leaseExpiresAt = some e ∧
        (Capacity.replay ⟨1, 4⟩ lateReservation).clock < e := by
    refine ⟨_, List.mem_singleton_self _, rfl, rfl, 15, rfl, ?_⟩
    decide +kernel
  have hgone : (Capacity.replay ⟨1, 4⟩ lateReservation).queue.reservations = [] := by
    decide +kernel
  refine ⟨_, _, Capacity.replay_run ⟨1, 4⟩ lateReservation (by decide +kernel), rfl,
    by decide +kernel, hlive, hgone, fun h => ?_⟩
  obtain ⟨j, hj, hid, hl⟩ := hlive
  have hlast := (h.2 _ (.inl rfl)).2 1 (by decide +kernel)
  obtain ⟨r, hr, -⟩ := hlast j hj hid _ le_rfl hl
  rw [hgone] at hr
  cases hr

/-- Reserved at once, the space is kept: the heartbeat moves the reservation. -/
theorem reservations_last_early : ∃ tr c,
    Run (CapacityStep ⟨1, 4⟩) { clock := 0 } tr c ∧ c.granted ≠ [] ∧ c.queue.reservations ≠ [] ∧
      ∀ x, Run.Visits tr c x → x.Lasting := by
  let calls : List (CapacityCall × Time) := claimedDownload ++
    [(.reserve downloadLease 3, 0), (.call (.heartbeat 1 "w" 10), 5), (.refresh, 12)]
  have hrun := Capacity.replay_run ⟨1, 4⟩ calls (by decide +kernel)
  refine ⟨_, _, hrun, by decide +kernel, by decide +kernel, fun x hx =>
    (((reservations_last_iff hrun).mpr ?_).2 x hx).2⟩
  simp only [calls, claimedDownload, List.cons_append, List.nil_append, Run.history, Run.Meets,
    List.mem_cons, List.not_mem_nil, or_false, forall_eq_or_imp, forall_eq, Capacity.ExpiryCurrent,
    Capacity.grants]
  refine ⟨fun h => (by cases h), fun h => (by cases h), fun _ => ?_, fun h => (by cases h),
    fun h => (by cases h)⟩
  rintro lease bytes he
  cases he
  decide +kernel

end MangaManager
