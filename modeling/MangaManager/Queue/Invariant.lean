import MangaManager.Queue.Machine

/-!
# What every reachable queue satisfies

`RowStep` collects what a transition does to the one row it writes, and
`Transition.jobs_cases` says that a transition inserts a row, steps a row, or
leaves the rows alone. `Queue.WellFormed` is the invariant the other modules
start from: keys are distinct, payloads validate, a row has lease columns
exactly while it is leased, and a key has at most one active job
(`uq_job_active_dedupe`).
-/

namespace MangaManager

open Lib

/-! ## Steps of a row -/

/-- A change of one row by a call. -/
inductive RowStep (now : Time) (op : Op) (j : WorkJob) : WorkJob → Prop where
  | edit {j' : WorkJob} {n : Nat} : Edit now op j j' n → RowStep now op j j'
  | unlease {j' : WorkJob} : Unlease now op j j' → RowStep now op j j'
  | terminate {j' : WorkJob} {st : JobState} : Terminate now op j j' st → RowStep now op j j'
  | renew {owner : String} {leaseFor : Time} : op = .heartbeat j.id owner leaseFor → j.Live now →
      j.leaseOwner = owner → 0 < leaseFor → RowStep now op j (j.renew leaseFor now)
  | grant {env : ClaimEnv} {a : ClaimArgs} : op = .claim env a →
      j.ready now = true ∨ j.expired now = true → j.attempts < j.maxAttempts →
      strip a.owner ≠ "" → 0 < a.leaseFor →
      RowStep now op j (j.lease (strip a.owner) a.leaseFor now)

/-- The columns no call writes. -/
structure SameJob (j j' : WorkJob) : Prop where
  id : j'.id = j.id
  kind : j'.kind = j.kind
  dedupeKey : j'.dedupeKey = j.dedupeKey
  seriesKey : j'.seriesKey = j.seriesKey
  cycleId : j'.cycleId = j.cycleId
  groupKey : j'.groupKey = j.groupKey

section
variable {a : EnqueueArgs} {now : Time} {j j' : WorkJob} {n : Nat} {op : Op}

theorem coalesceInto_some (h : coalesceInto a now j = some (j', n)) :
    ∃ r added, replacementFor a.kind j a.payload = some (r, added) ∧
      shouldCoalesce a.kind j.coalesceBase r = true ∧
      storeReplacement a now r added (promote a now j) = (j', n) := by
  unfold coalesceInto at h
  split at h
  · cases h
  · rename_i r added hr
    split at h
    · rename_i hc
      exact ⟨r, added, hr, hc, by simpa using h⟩
    · cases h

theorem storeReplacement_sameJob {r : JobPayload} {added : Nat}
    (h : storeReplacement a now r added j = (j', n)) : SameJob j j' := by
  unfold storeReplacement at h
  split at h <;> cases h <;> exact ⟨rfl, rfl, rfl, rfl, rfl, rfl⟩

theorem coalesceInto_sameJob (h : coalesceInto a now j = some (j', n)) : SameJob j j' := by
  obtain ⟨r, added, -, -, h⟩ := coalesceInto_some h
  have hs := storeReplacement_sameJob h
  exact ⟨hs.id, hs.kind, hs.dedupeKey, hs.seriesKey, hs.cycleId, hs.groupKey⟩

/-- What an edit leaves as it is. -/
structure Edited (now : Time) (j j' : WorkJob) : Prop where
  owner : j'.leaseOwner = j.leaseOwner
  expiry : j'.leaseExpiresAt = j.leaseExpiresAt
  leased : j'.status = .leased ↔ j.status = .leased
  waiting : j'.status.isWaiting = j.status.isWaiting
  attempts : j'.attempts = j.attempts
  maxAttempts : j.maxAttempts ≤ j'.maxAttempts
  pools : j.Live now → j'.pool = j.pool ∧ j'.source = j.source

theorem coalesceInto_edited (h : coalesceInto a now j = some (j', n)) : Edited now j j' := by
  obtain ⟨r, added, -, -, h⟩ := coalesceInto_some h
  have hmax : j.maxAttempts ≤ (promote a now j).maxAttempts := by
    simp only [promote]
    split <;> omega
  unfold storeReplacement at h
  split at h <;> cases h <;> exact ⟨rfl, rfl, .rfl, rfl, rfl, hmax, fun _ => ⟨rfl, rfl⟩⟩

/-- A leased job stays in its pool. -/
theorem WorkJob.repool_pool {pool : String} (h : j.status = .leased) :
    (j.repool pool now).pool = j.pool := if_neg (not_not.mpr h)

theorem Edit.edited (h : Edit now op j j' n) : Edited now j j' := by
  cases h with
  | touch =>
    exact ⟨rfl, rfl, .rfl, rfl, rfl, le_rfl, fun hl => ⟨WorkJob.repool_pool hl.1, rfl⟩⟩
  | coalesce _ _ _ _ _ h =>
    have he := coalesceInto_edited h
    refine ⟨he.owner, he.expiry, he.leased, he.waiting, he.attempts, he.maxAttempts, fun hl => ?_⟩
    obtain ⟨hp, hs⟩ := he.pools hl
    exact ⟨hp.trans (WorkJob.repool_pool hl.1), hs⟩
  | progress => exact ⟨rfl, rfl, .rfl, rfl, rfl, le_rfl, fun _ => ⟨rfl, rfl⟩⟩
  | rerouteWaiting hw _ =>
    have hn : j.status ≠ .leased := fun h => by rw [h] at hw; cases hw
    exact ⟨rfl, rfl, ⟨fun h => (by cases h), fun h => absurd h hn⟩, hw.symm, rfl, le_rfl,
      fun hl => absurd hl.1 hn⟩
  | retryNow hw =>
    have hn : j.status ≠ .leased := fun h => by rw [h] at hw; cases hw
    exact ⟨rfl, rfl, ⟨fun h => (by cases h), fun h => absurd h hn⟩, by rw [hw]; rfl, rfl, le_rfl,
      fun hl => absurd hl.1 hn⟩
  | resume => exact ⟨rfl, rfl, .rfl, rfl, rfl, le_rfl, fun _ => ⟨rfl, rfl⟩⟩
  | repool h =>
    refine ⟨rfl, rfl, .rfl, rfl, rfl, le_rfl, fun hl => ?_⟩
    rw [hl.1, hl.not_expired] at h
    simp [JobState.isWaiting] at h

theorem RowStep.sameJob (h : RowStep now op j j') : SameJob j j' := by
  cases h with
  | edit h =>
    cases h with
    | coalesce _ _ _ _ _ h =>
      have hs := coalesceInto_sameJob h
      exact ⟨hs.id, hs.kind, hs.dedupeKey, hs.seriesKey, hs.cycleId, hs.groupKey⟩
    | _ => exact ⟨rfl, rfl, rfl, rfl, rfl, rfl⟩
  | unlease h => cases h <;> exact ⟨rfl, rfl, rfl, rfl, rfl, rfl⟩
  | terminate h => cases h <;> exact ⟨rfl, rfl, rfl, rfl, rfl, rfl⟩
  | renew => exact ⟨rfl, rfl, rfl, rfl, rfl, rfl⟩
  | grant => exact ⟨rfl, rfl, rfl, rfl, rfl, rfl⟩

end

/-- What the end of a job keeps and what it clears. -/
structure Ended (j j' : WorkJob) (st : JobState) : Prop where
  status : j'.status = st
  inactive : st.isActive = false
  owner : j'.leaseOwner = ""
  expiry : j'.leaseExpiresAt = none
  payload : j'.payload = j.payload
  pending : j'.pendingPayload = j.pendingPayload
  units : j'.logicalUnits = j.logicalUnits
  attempts : j'.attempts = j.attempts
  maxAttempts : j'.maxAttempts = j.maxAttempts

theorem JobState.not_waiting {st : JobState} (h : st.isActive = false) : st.isWaiting = false := by
  cases st <;> first | rfl | cases h

theorem Ended.not_leased {j j' : WorkJob} {st : JobState} (h : Ended j j' st) :
    j'.status ≠ .leased := by
  intro e
  have hi := h.inactive
  rw [← h.status, e] at hi
  cases hi

theorem Unlease.not_leased {now : Time} {op : Op} {j j' : WorkJob} (h : Unlease now op j j') :
    j'.status ≠ .leased := by
  cases h with
  | retry _ _ ha => simp [WorkJob.retry, Nat.not_le.mpr ha]
  | _ => exact fun h => by cases h

theorem Terminate.ended {now : Time} {op : Op} {j j' : WorkJob} {st : JobState}
    (h : Terminate now op j j' st) : Ended j j' st := by
  cases h with
  | retry _ _ ha => exact ⟨by simp [WorkJob.retry, ha], rfl, rfl, rfl, rfl, rfl, rfl, rfl, rfl⟩
  | _ => exact ⟨rfl, rfl, rfl, rfl, rfl, rfl, rfl, rfl, rfl⟩

theorem Terminate.active {now : Time} {op : Op} {j j' : WorkJob} {st : JobState}
    (h : Terminate now op j j' st) : j.status.isActive = true := by
  have hexp : j.expired now = true → j.status.isActive = true := fun he => by
    simp only [WorkJob.expired, Bool.and_eq_true, beq_iff_eq] at he
    rw [he.1]
    rfl
  cases h with
  | cancel ha => exact ha
  | sweep he _ => exact hexp he
  | claimSweep he _ => exact hexp he
  | succeed hl _ _ => rw [hl.1]; rfl
  | fail hl _ => rw [hl.1]; rfl
  | retry hl _ _ => rw [hl.1]; rfl

theorem Edited.active {now : Time} {j j' : WorkJob} (h : Edited now j j') :
    j.status.isActive = j'.status.isActive := by
  have hl := h.leased
  have hw := h.waiting
  cases hj : j.status <;> cases hj' : j'.status <;> simp [hj, hj', JobState.isWaiting,
    JobState.isActive] at hl hw ⊢

theorem Unlease.active {now : Time} {op : Op} {j j' : WorkJob} (h : Unlease now op j j') :
    j'.status.isActive = true ∧ j'.logicalUnits = j.logicalUnits := by
  cases h with
  | retry _ _ ha =>
    refine ⟨?_, rfl⟩
    simp [WorkJob.retry, Nat.not_le.mpr ha, JobState.isActive]
  | _ => exact ⟨rfl, rfl⟩

/-! ## The rows a transition leaves -/

namespace Queue

section
variable (s : Queue) (a : EnqueueArgs) (now : Time)

@[simp] theorem activeCycle_jobs : (s.activeCycle now).1.jobs = s.jobs := by
  unfold activeCycle
  split
  · rfl
  · dsimp only
    split <;> rfl

@[simp] theorem activeCycle_permits : (s.activeCycle now).1.permits = s.permits := by
  unfold activeCycle
  split
  · rfl
  · dsimp only
    split <;> rfl

@[simp] theorem activeCycle_nextJob : (s.activeCycle now).1.nextJob = s.nextJob := by
  unfold activeCycle
  split
  · rfl
  · dsimp only
    split <;> rfl

/-- The row a creating `enqueue` inserts. -/
def insertedJob : WorkJob := s.newJob a (s.activeCycle now).2 now

theorem newJob_activeCycle :
    (s.activeCycle now).1.newJob a (s.activeCycle now).2 now = s.insertedJob a now := by
  simp only [insertedJob, newJob, activeCycle_nextJob]

@[simp] theorem enqueueNew_jobs : (s.enqueueNew a now).jobs = s.jobs ++ [s.insertedJob a now] := by
  rw [← newJob_activeCycle]
  simp [enqueueNew, addUnits, recordEvent]

@[simp] theorem enqueueNew_permits : (s.enqueueNew a now).permits = s.permits := by
  simp [enqueueNew, addUnits, recordEvent]

@[simp] theorem enqueueNew_nextJob : (s.enqueueNew a now).nextJob = s.nextJob + 1 := by
  simp [enqueueNew, addUnits, recordEvent]

end

end Queue

section
variable {now : Time} {op : Op} {s s' : Queue}

/-- A transition inserts a job, steps one row, or leaves the rows alone. -/
theorem Transition.jobs_cases (h : Transition now op s s') :
    (s'.jobs = s.jobs ∧ s'.nextJob = s.nextJob) ∨
    (∃ a, op = .enqueue a ∧ Queue.checkEnqueue a = .ok () ∧
      s.activeJob a.kind (strip a.dedupeKey) = none ∧ s' = s.enqueueNew a now) ∨
    (∃ j j', j ∈ s.jobs ∧ RowStep now op j j' ∧ s'.jobs = Table.put WorkJob.id s.jobs j' ∧
      s'.nextJob = s.nextJob) := by
  cases h with
  | insert hc he => exact .inr (.inl ⟨_, rfl, hc, he, rfl⟩)
  | edit hj h => exact .inr (.inr ⟨_, _, hj, .edit h, rfl, rfl⟩)
  | unlease hj h => exact .inr (.inr ⟨_, _, hj, .unlease h, rfl, rfl⟩)
  | terminate hj h => exact .inr (.inr ⟨_, _, hj, .terminate h, rfl, rfl⟩)
  | renew hj hl ho hp => exact .inr (.inr ⟨_, _, hj, .renew rfl hl ho hp, rfl, rfl⟩)
  | grant hj hr ha _ _ _ ho hl => exact .inr (.inr ⟨_, _, hj, .grant rfl hr ha ho hl, rfl, rfl⟩)
  | dropPermits => exact .inl ⟨rfl, rfl⟩
  | cleanup => exact .inl ⟨rfl, rfl⟩

/-- A property of rows that inserted rows have and row steps keep. -/
theorem Transition.forall_jobs {R : WorkJob → Prop} (h : Transition now op s s')
    (hnew : ∀ a, Queue.checkEnqueue a = .ok () → R (s.insertedJob a now))
    (hrow : ∀ j j', RowStep now op j j' → R j → R j') (hR : ∀ j ∈ s.jobs, R j) :
    ∀ j ∈ s'.jobs, R j := by
  rcases h.jobs_cases with ⟨h, -⟩ | ⟨a, -, hc, -, rfl⟩ | ⟨j, j', hj, hs, h, -⟩
  · rwa [h]
  · simp only [Queue.enqueueNew_jobs, List.mem_append, List.mem_singleton]
    rintro j (hj | rfl)
    · exact hR j hj
    · exact hnew a hc
  · rw [h]
    intro k hk
    rcases Table.mem_put.mp hk with ⟨rfl, -⟩ | ⟨hk, -⟩
    · exact hrow j _ hs (hR j hj)
    · exact hR k hk

end

/-! ## Payloads -/

/-- A payload the queue may store in a job of this kind. -/
def JobPayload.ValidFor (p : JobPayload) (kind : JobKind) : Prop :=
  p.kind = kind ∧ p.validate = true

theorem parseJobPayload_validFor {kind : JobKind} {p : JobPayload} :
    (parseJobPayload kind p).isSome = true ↔ p.ValidFor kind := by
  rw [Option.isSome_iff_exists]
  simp [parseJobPayload_eq_some, JobPayload.ValidFor]

namespace JobPayload

theorem seriesIds_pos {p : JobPayload} (h : p.validate = true) : ∀ i ∈ p.seriesIds, 0 < i := by
  cases p with
  | kavitaSync p =>
    simp only [validate, Bool.and_eq_true, List.all_eq_true, decide_eq_true_eq] at h
    exact h.1.2
  | _ => simp [seriesIds]

theorem validate_withSeriesIds {p : JobPayload} {ids : List Nat} (h : p.validate = true)
    (hp : p.seriesIds ≠ []) (hne : ids ≠ []) (hlen : ids.length ≤ 100) (hpos : ∀ i ∈ ids, 0 < i) :
    (p.withSeriesIds ids).validate = true := by
  cases p with
  | kavitaSync p =>
    simp only [seriesIds] at hp
    simp only [validate, Bool.and_eq_true, Bool.or_eq_true, decide_eq_true_eq, List.isEmpty_iff,
      List.all_eq_true, hp, false_or] at h
    simp only [withSeriesIds, validate, Bool.and_eq_true, Bool.or_eq_true, decide_eq_true_eq,
      List.isEmpty_iff, List.all_eq_true, hne, false_or]
    obtain ⟨⟨⟨⟨⟨hv, -⟩, hf⟩, -⟩, -⟩, hs⟩ := h
    exact ⟨⟨⟨⟨⟨hv, hlen⟩, hf⟩, .inr (by simp [hne])⟩, hpos⟩, hs⟩
  | _ => exact h

end JobPayload

theorem mem_fromKeys {xs : List Nat} {i : Nat} : i ∈ fromKeys xs ↔ i ∈ xs := by
  simp [fromKeys]

theorem fromKeys_ne_nil {xs : List Nat} (h : xs ≠ []) : fromKeys xs ≠ [] := by
  obtain ⟨x, hx⟩ := List.exists_mem_of_ne_nil xs h
  exact List.ne_nil_of_mem (mem_fromKeys.mpr hx)

section
variable {j : WorkJob} {p r : JobPayload} {added : Nat} {kind : JobKind}

theorem mergeSeriesIds_some (h : mergeSeriesIds j p = some (r, added)) (hp : p.seriesIds ≠ []) :
    ∃ ids : List Nat, r = p.withSeriesIds ids ∧ ids ≠ [] ∧ ids.length ≤ 100 ∧
      ∀ i ∈ ids, i ∈ p.seriesIds ∨ i ∈ j.payload.seriesIds ∨
        ∃ q, j.pendingPayload = some q ∧ i ∈ q.seriesIds := by
  unfold mergeSeriesIds at h
  split at h
  · dsimp only at h
    split at h
    · cases h
    · rename_i hlen
      cases h
      refine ⟨_, rfl, ?_, List.length_take_le _ _, fun i hi => ?_⟩
      · intro hnil
        rw [hnil] at hlen
        simp at hlen
      · have hi := List.mem_of_mem_filter (List.mem_of_mem_take hi)
        rw [mem_fromKeys, List.mem_append, mem_fromKeys] at hi
        rcases hi with hi | hi
        · cases hq : j.pendingPayload with
          | none => simp [hq] at hi
          | some q => exact .inr (.inr ⟨q, rfl, by simpa [hq] using hi⟩)
        · exact .inl hi
  · rename_i hs
    dsimp only at h
    split at h
    · cases h
    · cases h
      refine ⟨_, rfl, ?_, List.length_take_le _ _, fun i hi => ?_⟩
      · have hne : fromKeys (j.coalesceBase.seriesIds ++ fromKeys p.seriesIds) ≠ [] :=
          fromKeys_ne_nil (by simp [fromKeys_ne_nil hp])
        simp [hne]
      · have hi := List.mem_of_mem_take hi
        rw [mem_fromKeys, List.mem_append, mem_fromKeys] at hi
        rcases hi with hi | hi
        · simp only [WorkJob.coalesceBase, if_neg hs] at hi
          exact .inr (.inl hi)
        · exact .inl hi

theorem replacementFor_validFor (h : replacementFor kind j p = some (r, added))
    (hp : p.ValidFor kind) (hj : j.payload.validate = true)
    (hq : ∀ q, j.pendingPayload = some q → q.validate = true) : r.ValidFor kind := by
  unfold replacementFor at h
  split at h
  · rename_i hk
    obtain ⟨ids, rfl, hne, hlen, hmem⟩ := mergeSeriesIds_some h hk.2
    refine ⟨by rw [JobPayload.kind_withSeriesIds]; exact hp.1, ?_⟩
    refine JobPayload.validate_withSeriesIds hp.2 hk.2 hne hlen fun i hi => ?_
    rcases hmem i hi with hi | hi | ⟨q, hq', hi⟩
    · exact JobPayload.seriesIds_pos hp.2 i hi
    · exact JobPayload.seriesIds_pos hj i hi
    · exact JobPayload.seriesIds_pos (hq q hq') i hi
  · cases h
    exact hp

end

/-! ## Well-formed rows -/

structure WorkJob.WellFormed (j : WorkJob) : Prop where
  payload : j.payload.ValidFor j.kind
  pending : ∀ q, j.pendingPayload = some q → q.ValidFor j.kind
  units : 1 ≤ j.logicalUnits
  ceiling : 1 ≤ j.maxAttempts
  attempts : j.attempts ≤ j.maxAttempts
  lease : j.status = .leased ↔ j.leaseExpiresAt.isSome = true
  owner : j.status = .leased ↔ j.leaseOwner ≠ ""

section
variable {a : EnqueueArgs} {now : Time} {j j' : WorkJob} {n : Nat} {op : Op} {s : Queue}

theorem checkEnqueue_ok (h : Queue.checkEnqueue a = .ok ()) :
    strip a.dedupeKey ≠ "" ∧ 1 ≤ a.maxAttempts ∧ a.payload.ValidFor a.kind := by
  unfold Queue.checkEnqueue at h
  split at h
  · cases h
  rename_i hd
  split at h
  · cases h
  rename_i hm
  split at h
  · cases h
  rename_i hp
  refine ⟨hd, by omega, ?_⟩
  exact parseJobPayload_validFor.mp (Option.isSome_iff_ne_none.mpr (by simpa using hp))

theorem insertedJob_wellFormed (h : Queue.checkEnqueue a = .ok ()) :
    (s.insertedJob a now).WellFormed := by
  obtain ⟨-, hm, hp⟩ := checkEnqueue_ok h
  exact {
    payload := hp
    pending := fun q hq => by cases hq
    units := Nat.le_max_right _ _
    ceiling := hm
    attempts := Nat.zero_le _
    lease := by simp [Queue.insertedJob, Queue.newJob]
    owner := by simp [Queue.insertedJob, Queue.newJob] }

theorem coalesceInto_wellFormed (h : coalesceInto a now j = some (j', n)) (hk : j.kind = a.kind)
    (hp : a.payload.ValidFor a.kind) (hj : j.WellFormed) : j'.WellFormed := by
  obtain ⟨r, added, hr, -, h⟩ := coalesceInto_some h
  have hv : r.ValidFor j.kind :=
    hk ▸ replacementFor_validFor hr hp hj.payload.2 fun q hq => (hj.pending q hq).2
  have hmax : (promote a now j).maxAttempts ≥ j.maxAttempts := by
    simp only [promote]
    split <;> omega
  have hceil := hj.ceiling
  have hatt := hj.attempts
  have hunits := hj.units
  unfold storeReplacement at h
  split at h <;> cases h
  · exact {
      payload := hj.payload
      pending := fun q hq => by cases hq; exact hv
      units := Nat.le_add_right_of_le hunits
      ceiling := le_trans hceil hmax
      attempts := le_trans hatt hmax
      lease := hj.lease
      owner := hj.owner }
  · exact {
      payload := hv
      pending := hj.pending
      units := by
        dsimp only
        split
        · exact Nat.le_max_right _ _
        · exact hunits
      ceiling := le_trans hceil hmax
      attempts := le_trans hatt hmax
      lease := hj.lease
      owner := hj.owner }

theorem WorkJob.WellFormed.of_lease (hj : j.WellFormed) (hk : j'.kind = j.kind)
    (hp : j'.payload.ValidFor j.kind) (hq : j'.pendingPayload = j.pendingPayload ∨
      j'.pendingPayload = none) (hu : j'.logicalUnits = j.logicalUnits)
    (hm : j'.maxAttempts = j.maxAttempts) (ha : j'.attempts ≤ j.maxAttempts)
    (hl : j'.status = .leased ↔ j'.leaseExpiresAt.isSome = true)
    (ho : j'.status = .leased ↔ j'.leaseOwner ≠ "") : j'.WellFormed where
  payload := hk ▸ hp
  pending q h := by
    rcases hq with hq | hq
    · exact hk ▸ hj.pending q (hq ▸ h)
    · rw [hq] at h; cases h
  units := hu ▸ hj.units
  ceiling := hm ▸ hj.ceiling
  attempts := hm ▸ ha
  lease := hl
  owner := ho

theorem RowStep.wellFormed (h : RowStep now op j j') (hj : j.WellFormed) : j'.WellFormed := by
  have ha := hj.attempts
  cases h with
  | edit h =>
    cases h with
    | touch _ _ _ _ => exact hj.of_lease rfl hj.payload (.inl rfl) rfl rfl ha hj.lease hj.owner
    | coalesce hk _ _ _ hc h =>
      have hr : ∀ pool, (j.repool pool now).WellFormed := fun _ =>
        hj.of_lease rfl hj.payload (.inl rfl) rfl rfl ha hj.lease hj.owner
      exact coalesceInto_wellFormed h hk (checkEnqueue_ok hc).2.2 (hr _)
    | progress _ _ => exact hj.of_lease rfl hj.payload (.inl rfl) rfl rfl ha hj.lease hj.owner
    | rerouteWaiting hw hp =>
      have hn : j.status ≠ .leased := fun e => by rw [e] at hw; cases hw
      have hl := mt hj.lease.mpr hn
      have ho := mt hj.owner.mpr hn
      exact hj.of_lease rfl (parseJobPayload_eq_some.mp hp).2 (.inl rfl) rfl rfl ha
        (by simpa [WorkJob.rerouteTo] using hl) (by simpa [WorkJob.rerouteTo] using ho)
    | retryNow hw =>
      have hn : j.status ≠ .leased := by rw [hw]; decide
      have hl := mt hj.lease.mpr hn
      have ho := mt hj.owner.mpr hn
      exact hj.of_lease rfl hj.payload (.inl rfl) rfl rfl ha
        (by simpa [WorkJob.retryNow] using hl) (by simpa [WorkJob.retryNow] using ho)
    | resume _ _ => exact hj.of_lease rfl hj.payload (.inl rfl) rfl rfl ha hj.lease hj.owner
    | repool _ => exact hj.of_lease rfl hj.payload (.inl rfl) rfl rfl ha hj.lease hj.owner
  | unlease h =>
    cases h with
    | requeue _ _ hp =>
      exact hj.of_lease rfl (hj.pending _ hp) (.inr rfl) rfl rfl ha
        (by simp [WorkJob.requeuePending, WorkJob.clearLease])
        (by simp [WorkJob.requeuePending, WorkJob.clearLease])
    | retry _ _ hlt =>
      have hs : ¬ j.maxAttempts ≤ j.attempts := by omega
      exact hj.of_lease rfl hj.payload (.inl rfl) rfl rfl ha
        (by simp [WorkJob.retry, WorkJob.clearLease, hs])
        (by simp [WorkJob.retry, WorkJob.clearLease, hs])
    | release _ _ =>
      exact hj.of_lease rfl hj.payload (.inl rfl) rfl rfl (Nat.le_trans (Nat.sub_le _ _) ha)
        (by simp [WorkJob.release, WorkJob.clearLease])
        (by simp [WorkJob.release, WorkJob.clearLease])
    | defer _ _ =>
      exact hj.of_lease rfl hj.payload (.inl rfl) rfl rfl (Nat.le_trans (Nat.sub_le _ _) ha)
        (by simp [WorkJob.defer, WorkJob.clearLease])
        (by simp [WorkJob.defer, WorkJob.clearLease])
    | reroute _ _ hp =>
      exact hj.of_lease rfl (parseJobPayload_eq_some.mp hp).2 (.inl rfl) rfl rfl ha
        (by simp [WorkJob.rerouteTo, WorkJob.clearLease])
        (by simp [WorkJob.rerouteTo, WorkJob.clearLease])
  | terminate h =>
    have he := h.ended
    exact hj.of_lease (RowStep.terminate h).sameJob.kind (he.payload ▸ hj.payload)
      (.inl he.pending) he.units he.maxAttempts (he.attempts ▸ ha)
      (by simp [he.not_leased, he.expiry]) (by simp [he.not_leased, he.owner])
  | renew _ hl ho _ =>
    exact hj.of_lease rfl hj.payload (.inl rfl) rfl rfl ha
      (by simp [WorkJob.renew, hl.1]) hj.owner
  | grant _ _ hlt ho _ =>
    exact hj.of_lease rfl hj.payload (.inl rfl) rfl rfl hlt
      (by simp [WorkJob.lease]) (by simp [WorkJob.lease, ho])

end

/-! ## Cycles -/

namespace Queue

section
variable {s : Queue} {now : Time}

@[simp] theorem growCycles_ids {cycles : List WorkloadCycle} {c : Option Nat} {n : Nat} :
    (growCycles cycles c n now).map WorkloadCycle.id = cycles.map WorkloadCycle.id := by
  unfold growCycles
  split
  · rfl
  · split
    · rfl
    · simp

@[simp] theorem settleCycles_ids {cycles : List WorkloadCycle} {rows : List WorkJob} {j : WorkJob}
    {st : JobState} :
    (settleCycles cycles rows j st now).map WorkloadCycle.id = cycles.map WorkloadCycle.id := by
  unfold settleCycles
  split
  · rfl
  · simp

theorem activeCycle_ids :
    ((s.activeCycle now).1.cycles.map WorkloadCycle.id = s.cycles.map WorkloadCycle.id ∧
      (s.activeCycle now).1.nextCycle = s.nextCycle) ∨
    ((s.activeCycle now).1.cycles.map WorkloadCycle.id =
        s.cycles.map WorkloadCycle.id ++ [s.nextCycle] ∧
      (s.activeCycle now).1.nextCycle = s.nextCycle + 1) := by
  unfold activeCycle
  split
  · exact .inr ⟨by simp, rfl⟩
  · dsimp only
    split
    · exact .inr ⟨by simp, rfl⟩
    · exact .inl ⟨rfl, rfl⟩

theorem activeCycle_mem : (s.activeCycle now).2 ∈ (s.activeCycle now).1.cycles := by
  unfold activeCycle
  split
  · simp
  · rename_i c hc
    dsimp only
    split
    · simp
    · exact List.mem_of_mem_filter (List.mem_of_getLast? hc)

theorem enqueueNew_ids {a : EnqueueArgs} :
    (s.enqueueNew a now).cycles.map WorkloadCycle.id =
        (s.activeCycle now).1.cycles.map WorkloadCycle.id ∧
      (s.enqueueNew a now).nextCycle = (s.activeCycle now).1.nextCycle := by
  simp [enqueueNew, addUnits, recordEvent]

end

/-- The invariant of every reachable queue. -/
structure WellFormed (s : Queue) : Prop where
  jobs : Table.Keyed WorkJob.id s.jobs
  jobsBelow : ∀ j ∈ s.jobs, j.id < s.nextJob
  rows : ∀ j ∈ s.jobs, j.WellFormed
  oneActive : ∀ j ∈ s.jobs, ∀ k ∈ s.jobs, j.status.isActive = true → k.status.isActive = true →
    j.kind = k.kind → j.dedupeKey = k.dedupeKey → j.id = k.id
  cycles : Table.Keyed WorkloadCycle.id s.cycles
  cyclesBelow : ∀ i ∈ s.cycles.map WorkloadCycle.id, i < s.nextCycle
  jobCycles : ∀ j ∈ s.jobs, ∃ i ∈ s.cycles.map WorkloadCycle.id, j.cycleId = some i

theorem wellFormed_empty : WellFormed {} where
  jobs := List.nodup_nil
  jobsBelow := by simp
  rows := by simp
  oneActive := by simp
  cycles := List.nodup_nil
  cyclesBelow := by simp
  jobCycles := by simp

end Queue

section
variable {now : Time} {op : Op} {s s' : Queue} {j j' : WorkJob}

/-- Only active jobs are stepped. -/
theorem RowStep.active (h : RowStep now op j j') : j.status.isActive = true := by
  have hw : j.status.isWaiting = true → j.status.isActive = true := by
    cases j.status <;> decide
  have he : j.expired now = true → j.status.isActive = true := fun he => by
    simp only [WorkJob.expired, Bool.and_eq_true, beq_iff_eq] at he
    rw [he.1]
    rfl
  cases h with
  | edit h =>
    cases h with
    | touch _ _ ha _ => exact ha
    | coalesce _ _ ha _ _ _ => exact ha
    | progress hl _ => rw [hl.1]; rfl
    | rerouteWaiting h _ => exact hw h
    | retryNow h => rw [h]; rfl
    | resume h _ => rw [h]; rfl
    | repool h => exact h.elim hw he
  | unlease h =>
    cases h with
    | requeue hl _ _ => rw [hl.1]; rfl
    | retry hl _ _ => rw [hl.1]; rfl
    | release hs _ => rw [hs]; rfl
    | defer hs _ => rw [hs]; rfl
    | reroute hs _ _ => rw [hs]; rfl
  | terminate h => exact h.active
  | renew _ hl _ _ => rw [hl.1]; rfl
  | grant _ h _ _ _ =>
    refine h.elim (fun h => hw ?_) he
    simp only [WorkJob.ready, Bool.and_eq_true] at h
    exact h.1

/-! ## The payload slots -/

/-- `enqueue` stores `r` in the active job `j`. -/
structure Accepted (a : EnqueueArgs) (j : WorkJob) (r : JobPayload) : Prop where
  kind : j.kind = a.kind
  dedupeKey : j.dedupeKey = strip a.dedupeKey
  active : j.status.isActive = true
  coalesce : a.coalesce = true
  checked : Queue.checkEnqueue a = .ok ()
  replacement : ∃ n, replacementFor a.kind j a.payload = some (r, n)
  differs : shouldCoalesce a.kind j.coalesceBase r = true

/-- What `enqueue` makes of the job. -/
theorem Accepted.coalesced {a : EnqueueArgs} {r : JobPayload} (h : Accepted a j r) (now : Time) :
    ∃ added, coalesceInto a now (j.repool a.routedPool now) =
      some (storeReplacement a now r added (promote a now (j.repool a.routedPool now))) := by
  obtain ⟨added, hr⟩ := h.replacement
  refine ⟨added, ?_⟩
  rw [coalesceInto, show replacementFor a.kind (j.repool _ _) a.payload = _ from hr]
  exact if_pos h.differs

/-- The job a call gives to another provider. -/
def Op.rerouted : Op → Option Nat
  | reroute jobId _ _ _ _ _ | rerouteWaiting jobId _ _ _ _ => some jobId
  | _ => none

/-- What a call does to the two payloads of a job. -/
inductive Slots (op : Op) (j j' : WorkJob) : Prop where
  | kept : j'.payload = j.payload → j'.pendingPayload = j.pendingPayload → Slots op j j'
  | requeue {owner : String} {p : JobPayload} : op = .succeed j.id owner →
      j.pendingPayload = some p → j'.payload = p → j'.pendingPayload = none → Slots op j j'
  | reroute : op.rerouted = some j.id → j'.pendingPayload = j.pendingPayload → Slots op j j'
  | pending {a : EnqueueArgs} {r : JobPayload} : op = .enqueue a → Accepted a j r →
      j.status = .leased → j'.payload = j.payload → j'.pendingPayload = some r → Slots op j j'
  | payload {a : EnqueueArgs} {r : JobPayload} : op = .enqueue a → Accepted a j r →
      j.status ≠ .leased → j'.payload = r → j'.pendingPayload = j.pendingPayload → Slots op j j'

theorem Edit.slots {n : Nat} (h : Edit now op j j' n) : Slots op j j' := by
  cases h with
  | @coalesce a _ _ _ hk hd ha hco hc hi =>
    obtain ⟨r, added, hr, hsh, hst⟩ := coalesceInto_some hi
    have hacc : Accepted a j r := ⟨hk, hd, ha, hco, hc, ⟨added, hr⟩, hsh⟩
    unfold storeReplacement at hst
    split at hst
    · rename_i hl
      cases hst
      exact .pending rfl hacc hl rfl rfl
    · rename_i hl
      cases hst
      exact .payload rfl hacc hl rfl rfl
  | rerouteWaiting => exact .reroute rfl rfl
  | _ => exact .kept rfl rfl

theorem RowStep.slots (h : RowStep now op j j') : Slots op j j' := by
  cases h with
  | edit h => exact h.slots
  | unlease h =>
    cases h with
    | requeue _ _ hp => exact .requeue rfl hp rfl rfl
    | reroute => exact .reroute rfl rfl
    | _ => exact .kept rfl rfl
  | terminate h => exact .kept h.ended.payload h.ended.pending
  | renew => exact .kept rfl rfl
  | grant => exact .kept rfl rfl

/-- A job that succeeds has nothing pending. -/
theorem RowStep.succeeded (h : RowStep now op j j') (hs : j'.status = .succeeded) :
    j'.pendingPayload = none := by
  have hno : j'.status.isActive ≠ true := by
    rw [hs]
    decide
  cases h with
  | edit h => exact absurd (h.edited.active ▸ (RowStep.edit h).active) hno
  | unlease h => exact absurd h.active.1 hno
  | terminate h =>
    cases h with
    | succeed _ _ hp => exact hp
    | retry _ _ ha => simp [WorkJob.retry, ha] at hs
    | _ => cases hs
  | renew _ hl _ _ => exact absurd (show j.status.isActive = true by rw [hl.1]; rfl) hno
  | grant => exact absurd rfl hno

/-- The cycle ids stay, or one more is taken. -/
def Queue.CyclesGrow (s s' : Queue) : Prop :=
  (s'.cycles.map WorkloadCycle.id = s.cycles.map WorkloadCycle.id ∧ s'.nextCycle = s.nextCycle) ∨
  (s'.cycles.map WorkloadCycle.id = s.cycles.map WorkloadCycle.id ++ [s.nextCycle] ∧
    s'.nextCycle = s.nextCycle + 1)

theorem Queue.CyclesGrow.subset (h : s.CyclesGrow s') :
    ∀ i ∈ s.cycles.map WorkloadCycle.id, i ∈ s'.cycles.map WorkloadCycle.id := by
  rcases h with ⟨h, -⟩ | ⟨h, -⟩ <;> rw [h]
  · exact fun _ => id
  · exact fun i hi => List.mem_append_left _ hi

theorem Queue.CyclesGrow.keyed (h : s.CyclesGrow s') (hw : s.WellFormed) :
    Table.Keyed WorkloadCycle.id s'.cycles ∧
      ∀ i ∈ s'.cycles.map WorkloadCycle.id, i < s'.nextCycle := by
  unfold Table.Keyed
  rcases h with ⟨h1, h2⟩ | ⟨h1, h2⟩ <;> rw [h1, h2]
  · exact ⟨hw.cycles, hw.cyclesBelow⟩
  · refine ⟨List.nodup_append.mpr ⟨hw.cycles, by simp, ?_⟩, ?_⟩
    · intro i hi k hk
      simp only [List.mem_singleton] at hk
      have hlt := hw.cyclesBelow i hi
      omega
    · intro i hi
      rcases List.mem_append.mp hi with hi | hi
      · have hlt := hw.cyclesBelow i hi
        omega
      · simp only [List.mem_singleton] at hi
        omega

theorem Transition.cyclesGrow (h : Transition now op s s') : s.CyclesGrow s' := by
  cases h with
  | insert hc he =>
    unfold Queue.CyclesGrow
    rw [Queue.enqueueNew_ids.1, Queue.enqueueNew_ids.2]
    exact Queue.activeCycle_ids
  | edit => exact .inl ⟨Queue.growCycles_ids, rfl⟩
  | terminate => exact .inl ⟨Queue.settleCycles_ids, rfl⟩
  | _ => exact .inl ⟨rfl, rfl⟩

theorem Queue.activeJob_none {kind : JobKind} {key : String} :
    s.activeJob kind key = none ↔
      ∀ k ∈ s.jobs, k.status.isActive = true → k.kind = kind → k.dedupeKey ≠ key := by
  rw [Queue.activeJob, List.getLast?_eq_none_iff, List.filter_eq_nil_iff]
  refine forall₂_congr fun k _ => ?_
  simp only [Bool.and_eq_true, beq_iff_eq, not_and]
  exact ⟨fun h ha hk hd => h ⟨hk, hd⟩ ha, fun h hk ha => h ha hk.1 hk.2⟩

theorem Queue.insertedJob_cycle {a : EnqueueArgs} :
    ∃ i ∈ (s.enqueueNew a now).cycles.map WorkloadCycle.id,
      (s.insertedJob a now).cycleId = some i := by
  refine ⟨_, ?_, rfl⟩
  rw [Queue.enqueueNew_ids.1]
  exact List.mem_map_of_mem Queue.activeCycle_mem

namespace Queue.WellFormed

/-- Nothing but the cycles changed. -/
theorem of_jobs_eq (hw : s.WellFormed) (hc : s.CyclesGrow s') (hj : s'.jobs = s.jobs)
    (hn : s'.nextJob = s.nextJob) : s'.WellFormed where
  jobs := hj ▸ hw.jobs
  jobsBelow := hj ▸ hn ▸ hw.jobsBelow
  rows := hj ▸ hw.rows
  oneActive := hj ▸ hw.oneActive
  cycles := (hc.keyed hw).1
  cyclesBelow := (hc.keyed hw).2
  jobCycles := by
    rw [hj]
    intro j hm
    obtain ⟨i, hi, he⟩ := hw.jobCycles j hm
    exact ⟨i, hc.subset i hi, he⟩

/-- A job was inserted whose key had no active job. -/
theorem of_insert {a : EnqueueArgs} (hw : s.WellFormed) (hc : s.CyclesGrow (s.enqueueNew a now))
    (hrow : (s.insertedJob a now).WellFormed)
    (he : s.activeJob a.kind (strip a.dedupeKey) = none) : (s.enqueueNew a now).WellFormed := by
  have hid : (s.insertedJob a now).id = s.nextJob := rfl
  have hother : ∀ k ∈ s.jobs, k.status.isActive = true → k.kind = (s.insertedJob a now).kind →
      k.dedupeKey ≠ (s.insertedJob a now).dedupeKey := Queue.activeJob_none.mp he
  refine ⟨?_, ?_, ?_, ?_, (hc.keyed hw).1, (hc.keyed hw).2, ?_⟩
  · unfold Table.Keyed
    rw [Queue.enqueueNew_jobs, List.map_append]
    refine List.nodup_append.mpr ⟨hw.jobs, by simp, ?_⟩
    intro i hi k hk
    obtain ⟨x, hx, rfl⟩ := List.mem_map.mp hi
    simp only [List.map_cons, List.map_nil, List.mem_singleton] at hk
    have hlt := hw.jobsBelow x hx
    omega
  all_goals simp only [Queue.enqueueNew_jobs, Queue.enqueueNew_nextJob, List.mem_append,
    List.mem_singleton]
  · rintro k (hk | rfl)
    · exact Nat.lt_succ_of_lt (hw.jobsBelow k hk)
    · omega
  · rintro k (hk | rfl)
    · exact hw.rows k hk
    · exact hrow
  · rintro x (hx | rfl) y (hy | rfl) hxa hya hk hd
    · exact hw.oneActive x hx y hy hxa hya hk hd
    · exact absurd hd (hother x hx hxa hk)
    · exact absurd hd.symm (hother y hy hya hk.symm)
    · rfl
  · rintro k (hk | rfl)
    · obtain ⟨i, hi, hc'⟩ := hw.jobCycles k hk
      exact ⟨i, hc.subset i hi, hc'⟩
    · exact Queue.insertedJob_cycle

/-- The row of an active job was rewritten. -/
theorem of_put (hw : s.WellFormed) (hc : s.CyclesGrow s') (hj : j ∈ s.jobs) {k : WorkJob} (hsame : SameJob j k)
    (hrow : k.WellFormed) (hact : j.status.isActive = true)
    (hjobs : s'.jobs = Table.put WorkJob.id s.jobs k) (hn : s'.nextJob = s.nextJob) :
    s'.WellFormed := by
  -- every row goes back to one of the same key, active if it is
  have hback : ∀ r ∈ s'.jobs, ∃ r₀ ∈ s.jobs, SameJob r₀ r ∧
      (r.status.isActive = true → r₀.status.isActive = true) := by
    rw [hjobs]
    intro r hr
    rcases Table.mem_put.mp hr with ⟨rfl, -⟩ | ⟨hr, -⟩
    · exact ⟨j, hj, hsame, fun _ => hact⟩
    · exact ⟨r, hr, ⟨rfl, rfl, rfl, rfl, rfl, rfl⟩, id⟩
  refine ⟨?_, ?_, ?_, ?_, (hc.keyed hw).1, (hc.keyed hw).2, ?_⟩
  · rw [hjobs, Table.keyed_put]
    exact hw.jobs
  · intro r hr
    obtain ⟨r₀, hr₀, hs, -⟩ := hback r hr
    rw [hn, hs.id]
    exact hw.jobsBelow r₀ hr₀
  · rw [hjobs]
    intro r hr
    rcases Table.mem_put.mp hr with ⟨rfl, -⟩ | ⟨hr, -⟩
    · exact hrow
    · exact hw.rows r hr
  · intro x hx y hy hxa hya hk hd
    obtain ⟨x₀, hx₀, hxs, hxact⟩ := hback x hx
    obtain ⟨y₀, hy₀, hys, hyact⟩ := hback y hy
    rw [hxs.id, hys.id]
    exact hw.oneActive x₀ hx₀ y₀ hy₀ (hxact hxa) (hyact hya)
      (by rw [← hxs.kind, ← hys.kind, hk]) (by rw [← hxs.dedupeKey, ← hys.dedupeKey, hd])
  · intro r hr
    obtain ⟨r₀, hr₀, hs, -⟩ := hback r hr
    obtain ⟨i, hi, hc'⟩ := hw.jobCycles r₀ hr₀
    exact ⟨i, hc.subset i hi, hs.cycleId.trans hc'⟩

/-- Every row was rewritten, in columns the invariant does not compare. -/
theorem of_map (hw : s.WellFormed) {f : WorkJob → WorkJob} (hid : ∀ j, (f j).id = j.id)
    (hkind : ∀ j, (f j).kind = j.kind) (hkey : ∀ j, (f j).dedupeKey = j.dedupeKey)
    (hcycle : ∀ j, (f j).cycleId = j.cycleId) (hstatus : ∀ j, (f j).status = j.status)
    (hrow : ∀ j ∈ s.jobs, (f j).WellFormed) :
    ({ s with jobs := s.jobs.map f } : Queue).WellFormed := by
  refine ⟨?_, ?_, ?_, ?_, hw.cycles, hw.cyclesBelow, ?_⟩
  · unfold Table.Keyed
    rw [List.map_map, show WorkJob.id ∘ f = WorkJob.id from funext hid]
    exact hw.jobs
  all_goals simp only [List.forall_mem_map]
  · intro j hj
    rw [hid]
    exact hw.jobsBelow j hj
  · exact hrow
  · intro j hj k hk
    simp only [hid, hkind, hkey, hstatus]
    exact hw.oneActive j hj k hk
  · intro j hj
    rw [hcycle]
    exact hw.jobCycles j hj

end Queue.WellFormed

theorem Transition.wellFormed (h : Transition now op s s') (hw : s.WellFormed) :
    s'.WellFormed := by
  have hc := h.cyclesGrow
  rcases h.jobs_cases with ⟨hj, hn⟩ | ⟨a, -, ha, he, rfl⟩ | ⟨j, j', hj, hs, hjobs, hn⟩
  · exact hw.of_jobs_eq hc hj hn
  · exact hw.of_insert hc (insertedJob_wellFormed ha) he
  · exact hw.of_put hc hj hs.sameJob (hs.wellFormed (hw.rows j hj)) hs.active hjobs hn

theorem Queue.activeJob_eq (hw : s.WellFormed) (hj : j ∈ s.jobs)
    (ha : j.status.isActive = true) : s.activeJob j.kind j.dedupeKey = some j := by
  cases he : s.activeJob j.kind j.dedupeKey with
  | none => exact absurd rfl (Queue.activeJob_none.mp he j hj ha rfl)
  | some e =>
    obtain ⟨hm, hk, hd, hea⟩ := Queue.activeJob_some he
    rw [hw.jobs.eq hm hj (hw.oneActive e hm j hj hea ha hk hd)]

theorem Op.apply_wellFormed (op : Op) (now : Time) (hw : s.WellFormed) :
    (op.apply s now).WellFormed :=
  Op.apply_inv op now hw.jobs (fun _ _ hw h => h.wellFormed hw) hw

/-- What the transitions of a call keep that start in tables where `C` holds. A call of several
transitions must meet `C` in all tables. -/
theorem Op.apply_inv_of {P C : Queue → Prop} (hw : s.WellFormed) (hs : P s) (hc : C s)
    (hall : op.isSweep = true → ∀ q, C q)
    (hstep : ∀ q q', C q → q.WellFormed → P q → Transition now op q q' → P q') :
    P (op.apply s now) := by
  rcases op.apply_cases now hw.jobs with h | h | ⟨hsweep, -⟩
  · rwa [h]
  · exact hstep _ _ hc hw hs h
  · have hinv := Op.apply_inv (P := fun q => q.WellFormed ∧ P q) op now hw.jobs
      (fun q q' hq ht => ⟨ht.wellFormed hq.1, hstep q q' (hall hsweep q) hq.1 hq.2 ht⟩) ⟨hw, hs⟩
    exact hinv.2

end

/-! ## Runs -/

section
variable {t₀ : Time} {tr : List (Clocked × (Op × Time))} {c : Clocked}

theorem QueueRun.wellFormed (h : QueueRun t₀ tr c) : c.queue.WellFormed := by
  refine h.always (P := fun c => c.queue.WellFormed) Queue.wellFormed_empty ?_
  rintro c l c' hw ⟨-, rfl⟩
  exact Op.apply_wellFormed _ _ hw

/-- An invariant that may speak of the clock: time passing and every transition of a
well-formed queue, by a call that meets `C`, keep it. -/
theorem QueueRun.inv {I : Time → Queue → Prop} {C : Op → Prop} (h : QueueRun t₀ tr c)
    (hc : Run.Meets (fun _ l => C l.1) tr) (h₀ : I t₀ {})
    (htime : ∀ t t' s, t ≤ t' → I t s → I t' s)
    (hstep : ∀ now op s s', C op → s.WellFormed → I now s → Transition now op s s' → I now s') :
    I c.clock c.queue := by
  have hrun : c.queue.WellFormed ∧ I c.clock c.queue := by
    refine h.invariant (P := fun c => c.queue.WellFormed ∧ I c.clock c.queue) hc
      ⟨Queue.wellFormed_empty, h₀⟩ ?_
    rintro c ⟨op, now⟩ c' hop ⟨hw, hi⟩ ⟨hle, rfl⟩
    refine Op.apply_inv (P := fun s => s.WellFormed ∧ I now s) op now hw.jobs ?_ ⟨hw, htime _ _ _ hle hi⟩
    rintro s s' ⟨hw, hi⟩ ht
    exact ⟨ht.wellFormed hw, hstep now op s s' hop hw hi ht⟩
  exact hrun.2

end

end MangaManager
