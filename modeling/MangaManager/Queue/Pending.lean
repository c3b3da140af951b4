import MangaManager.Queue.Observations
import MangaManager.Queue.Scan

/-!
# Coalesced work

A request merged into a leased job waits in its pending payload. `JobPayload.works`
lists the units of work a payload asks for, and a job carries a payload when it is
active and one of its slots covers each of them.

A success hands the pending payload on, and so does every call that only gives the
lease back. `fail`, a `retry` that ends the job, and the sweep of exhausted leases
leave it behind in the ended job, and a request accepted by the leased job
overwrites it. `coalesced_survives_iff`: along a run no pending work is dropped
other than by a cancel, exactly when in each of these cases another job, or the
replacement, carries the work.
-/

namespace MangaManager

open Lib FirstFit

/-- One piece of work of a payload. -/
inductive Work where
  | observe (p : SourceRefreshPayload)
  | sync (seriesId : Nat)
  | repair (seriesId : Nat)
  | cleanup (seriesId : Nat) (storageKey : String)
  | request (p : JobPayload)
  deriving DecidableEq

/-- What a payload asks for: a batch of Kavita syncs and the cleanup keys of a repair are separate
pieces. -/
def JobPayload.works : JobPayload → List Work
  | sourceRefresh p => [.observe p]
  | kavitaSync p =>
    if p.seriesIds ≠ [] then p.seriesIds.map .sync
    else if p.folderPath = "" ∧ p.readingStatus = .unset then [.sync p.seriesId]
    else [.request (.kavitaSync p)]
  | libraryRepair p => .repair p.seriesId :: p.obsoleteStorageKeys.map (.cleanup p.seriesId)
  | p => [.request p]

/-- Doing `v` makes `w` unnecessary: an observation covers those of its series that are not known
to be newer. -/
def Work.Covers : Work → Work → Prop
  | observe q, observe p => q.source = p.source ∧ q.sourceId = p.sourceId ∧
      ∀ v w, (JobPayload.sourceRefresh p).observed = some v →
        (JobPayload.sourceRefresh q).observed = some w → v ≤ w
  | v, w => v = w

theorem Work.Covers.refl (w : Work) : w.Covers w := by
  cases w with
  | observe p => exact ⟨rfl, rfl, fun v w hv hw => (Option.some.inj (hv.symm.trans hw)).le⟩
  | _ => rfl

/-- `j` is active, and its slots cover the work of `p`. -/
def WorkJob.Carries (j : WorkJob) (p : JobPayload) : Prop :=
  j.status.isActive = true ∧ ∀ w ∈ p.works, ∃ q, (q = j.payload ∨ j.pendingPayload = some q) ∧
    ∃ v ∈ q.works, v.Covers w

/-- The sweep would end `j`. -/
def WorkJob.exhausted (j : WorkJob) (now : Time) : Bool :=
  j.status == .leased && j.leaseExpired now && j.maxAttempts ≤ j.attempts

namespace Queue

def Carries (s : Queue) (p : JobPayload) : Prop := ∃ j ∈ s.jobs, j.Carries p

/-- A job other than `id` carries `p`. -/
def CarriesBeside (s : Queue) (id : Nat) (p : JobPayload) : Prop :=
  ∃ k ∈ s.jobs, k.id ≠ id ∧ k.Carries p

/-- What waits in exhausted leases is carried by a job the sweep leaves. -/
def ExhaustedCarried (s : Queue) (now : Time) : Prop :=
  ∀ j ∈ s.jobs, j.exhausted now = true → ∀ p, j.pendingPayload = some p →
    ∃ k ∈ s.jobs, k.exhausted now = false ∧ k.Carries p

/-- A claim comes to fewer than fifty jobs, and none gets its permits. -/
def NothingFits (env : ClaimEnv) (a : ClaimArgs) (s : Queue) (now : Time) : Prop :=
  (∀ x ∈ inView (s.claimKey now) hidesSource (candidates env a s now), fits env a s now x = false) ∧
    (inView (s.claimKey now) hidesSource (candidates env a s now)).length < 50

end Queue

/-- What waits in the pending slot of an active job is still carried after the call, unless the
call cancels the job. -/
def Op.Survives (op : Op) (s : Queue) (now : Time) : Prop :=
  ∀ j ∈ s.jobs, j.status.isActive = true → ∀ p, j.pendingPayload = some p →
    (∀ reason, op ≠ .cancel j.id reason) → (op.apply s now).Carries p

/-- Where a call would drop pending work, another job or the replacement carries it. -/
def Op.Preserves (op : Op) (s : Queue) (now : Time) : Prop :=
  match op with
  | enqueue a => ∀ e ∈ s.jobs, ∀ r p, Accepted a e r → e.status = .leased →
      e.pendingPayload = some p →
      WorkJob.Carries { e with pendingPayload := some r } p ∨ s.CarriesBeside e.id p
  | claim env a => strip a.owner ≠ "" → 0 < a.leaseFor → Queue.NothingFits env a s now →
      s.ExhaustedCarried now
  | fail jobId owner _ _ => ∀ j p, s.selectHeld jobId owner now = some j →
      j.pendingPayload = some p → s.CarriesBeside j.id p
  | retry jobId owner _ _ _ => ∀ j p, s.selectHeld jobId owner now = some j →
      j.maxAttempts ≤ j.attempts → j.pendingPayload = some p → s.CarriesBeside j.id p
  | failExhaustedLeases => s.ExhaustedCarried now
  | _ => True

section
variable {now : Time} {op : Op} {s s' : Queue} {j j' e : WorkJob} {p r : JobPayload}
  {a : EnqueueArgs}

/-! ## What a job carries -/

theorem WorkJob.carries_payload (h : j.status.isActive = true) : j.Carries j.payload :=
  ⟨h, fun w hw => ⟨_, .inl rfl, w, hw, .refl w⟩⟩

theorem WorkJob.carries_pending (h : j.status.isActive = true) (hp : j.pendingPayload = some p) :
    j.Carries p :=
  ⟨h, fun w hw => ⟨p, .inr hp, w, hw, .refl w⟩⟩

theorem WorkJob.carries_congr (hs : j'.status.isActive = j.status.isActive)
    (hp : j'.payload = j.payload) (hq : j'.pendingPayload = j.pendingPayload) :
    j'.Carries p ↔ j.Carries p := by
  rw [WorkJob.Carries, WorkJob.Carries, hs, hp, hq]

/-- One row changed. -/
theorem Queue.carries_put (hj : j ∈ s.jobs) (hid : j.id = j'.id)
    (hjobs : s'.jobs = Table.put WorkJob.id s.jobs j') :
    s'.Carries p ↔ j'.Carries p ∨ s.CarriesBeside j'.id p := by
  unfold Queue.Carries Queue.CarriesBeside
  rw [hjobs]
  constructor
  · rintro ⟨k, hk, hc⟩
    rcases Table.mem_put.mp hk with ⟨rfl, -⟩ | ⟨hk, hne⟩
    · exact .inl hc
    · exact .inr ⟨k, hk, hne, hc⟩
  · rintro (hc | ⟨k, hk, hne, hc⟩)
    · exact ⟨j', Table.mem_put_self hj hid, hc⟩
    · exact ⟨k, Table.mem_put_of_ne hk hne, hc⟩

/-! ## Calls that change one row -/

/-- Every active row keeps its pending payload. -/
theorem Op.survives_of_kept (h : ∀ j ∈ s.jobs, j.status.isActive = true →
    ∃ j' ∈ (op.apply s now).jobs, j'.status.isActive = true ∧
      j'.pendingPayload = j.pendingPayload) : op.Survives s now := by
  intro j hj ha p hp _
  obtain ⟨j', hj', ha', hp'⟩ := h j hj ha
  exact ⟨j', hj', WorkJob.carries_pending ha' (hp'.trans hp)⟩

theorem Op.survives_of_eq (h : (op.apply s now).jobs = s.jobs) : op.Survives s now :=
  Op.survives_of_kept fun j hj ha => ⟨j, h ▸ hj, ha, rfl⟩

/-- A call that rewrites one row can drop only what that row had pending. -/
theorem Op.survives_put (hw : s.WellFormed) (hj : j ∈ s.jobs) (ha : j.status.isActive = true)
    (hid : j'.id = j.id) (hjobs : (op.apply s now).jobs = Table.put WorkJob.id s.jobs j') :
    op.Survives s now ↔ ∀ p, j.pendingPayload = some p → (∀ reason, op ≠ .cancel j.id reason) →
      j'.Carries p ∨ s.CarriesBeside j.id p := by
  have hput : ∀ p, (op.apply s now).Carries p ↔ j'.Carries p ∨ s.CarriesBeside j.id p := by
    intro p
    rw [Queue.carries_put hj hid.symm hjobs, hid]
  constructor
  · intro h p hp hc
    exact (hput p).mp (h j hj ha p hp hc)
  · intro h k hk hka p hp hc
    rw [hput]
    by_cases he : k.id = j.id
    · obtain rfl := hw.jobs.eq hk hj he
      exact h p hp hc
    · exact .inr ⟨k, hk, he, WorkJob.carries_pending hka hp⟩

/-- Other than by ending the job or overwriting the slot, a row keeps what it had pending. -/
theorem RowStep.carries (h : RowStep now op j j') (hp : j.pendingPayload = some p)
    (ht : ∀ st, ¬ Terminate now op j j' st)
    (ho : ∀ a r, op = .enqueue a → Accepted a j r → j.status = .leased →
      j'.status.isActive = true → j'.payload = j.payload → j'.pendingPayload = some r →
      j'.Carries p) : j'.Carries p := by
  have ha : j'.status.isActive = true := by
    cases h with
    | edit h => exact h.edited.active ▸ (RowStep.edit h).active
    | unlease h => exact h.active.1
    | terminate h => exact absurd h (ht _)
    | renew _ hl _ _ => exact (show j.status.isActive = true by rw [hl.1]; rfl)
    | grant => rfl
  cases h.slots with
  | kept _ hq => exact WorkJob.carries_pending ha (hq.trans hp)
  | requeue _ hq hq' _ =>
    obtain rfl := Option.some.inj (hq.symm.trans hp)
    exact hq' ▸ WorkJob.carries_payload ha
  | reroute _ hq => exact WorkJob.carries_pending ha (hq.trans hp)
  | pending hop hacc hl hp' hq' => exact ho _ _ hop hacc hl ha hp' hq'
  | payload _ _ _ _ hq => exact WorkJob.carries_pending ha (hq.trans hp)

theorem WorkJob.not_carries (h : j.status.isActive = false) : ¬ j.Carries p := by
  rintro ⟨ha, -⟩
  rw [h] at ha
  cases ha

/-- A call that neither requests nor sweeps, and ends a job only with nothing pending or by a
cancel. -/
theorem Op.survives_of_terminate (hw : s.WellFormed) (hreq : ∀ a, op ≠ .enqueue a)
    (hsweep : op.isSweep = false)
    (ht : ∀ j j' st, Terminate now op j j' st →
      j.pendingPayload = none ∨ ∃ reason, op = .cancel j.id reason) : op.Survives s now := by
  rcases op.apply_cases now hw.jobs with h | h | ⟨h, -⟩
  · exact Op.survives_of_eq (by rw [h])
  · rcases h.jobs_cases with ⟨hjobs, -⟩ | ⟨a, hop, -⟩ | ⟨j, j', hj, hstep, hjobs, -⟩
    · exact Op.survives_of_eq hjobs
    · exact absurd hop (hreq a)
    · rw [Op.survives_put hw hj hstep.active hstep.sameJob.id hjobs]
      intro p hp hc
      refine .inl (hstep.carries hp (fun st h => ?_) fun a _ hop => absurd hop (hreq a))
      rcases ht j j' st h with hn | ⟨reason, hop⟩
      · rw [hp] at hn
        cases hn
      · exact hc reason hop
  · rw [hsweep] at h
    cases h

/-! ## Requests -/

/-- The leased job takes the replacement into its pending slot. -/
theorem Accepted.stored (h : Accepted a e r) (hl : e.status = .leased) (now : Time) :
    ∃ e' n, coalesceInto a now (e.repool a.routedPool now) = some (e', n) ∧
      e'.status = e.status ∧ e'.payload = e.payload ∧ e'.pendingPayload = some r := by
  obtain ⟨added, hi⟩ := h.coalesced now
  rw [storeReplacement, if_pos (show (promote a now (e.repool _ _)).status = .leased from hl)] at hi
  exact ⟨_, _, hi, rfl, rfl, rfl⟩

theorem survives_enqueue (hw : s.WellFormed) :
    (Op.enqueue a).Survives s now ↔ (Op.enqueue a).Preserves s now := by
  cases hc : Queue.checkEnqueue a with
  | error err =>
    refine iff_of_true (Op.survives_of_eq (by simp [Op.apply, Queue.enqueue, hc, committed])) ?_
    intro e _ r p hacc
    exact absurd hacc.checked (by simp [hc])
  | ok =>
    cases he : s.activeJob a.kind (strip a.dedupeKey) with
    | none =>
      refine iff_of_true (Op.survives_of_kept fun j hj ha => ⟨j, ?_, ha, rfl⟩) ?_
      · simp [Op.apply, Queue.enqueue, hc, he, committed, hj]
      · intro e hm r p hacc
        exact absurd hacc.dedupeKey (Queue.activeJob_none.mp he e hm hacc.active hacc.kind)
    | some e =>
      obtain ⟨hm, hk, hd, ha⟩ := Queue.activeJob_some he
      obtain ⟨e', n, hedit, hs⟩ := Queue.enqueueExisting_edit now hc he
      have hsame := (RowStep.edit hedit).sameJob
      have hjobs : ((Op.enqueue a).apply s now).jobs = Table.put WorkJob.id s.jobs e' := by
        simp only [Op.apply, Queue.enqueue, hc, he, committed, hs]
        rfl
      have ha' : e'.status.isActive = true := hedit.edited.active ▸ ha
      -- the row that takes the replacement carries what its slots cover
      have hrow : ∀ {r p}, e'.payload = e.payload → e'.pendingPayload = some r →
          (e'.Carries p ↔ WorkJob.Carries { e with pendingPayload := some r } p) := fun hp hq =>
        WorkJob.carries_congr (ha'.trans ha.symm) hp hq
      rw [Op.survives_put hw hm ha hsame.id hjobs]
      constructor
      · intro h e₁ hm₁ r p hacc hl hp
        obtain rfl : e₁ = e := Option.some.inj
          ((Queue.activeJob_eq hw hm₁ hacc.active).symm.trans (hacc.kind ▸ hacc.dedupeKey ▸ he))
        obtain ⟨e₂, m, hi, -, hpay, hpend⟩ := hacc.stored hl now
        cases hedit with
        | touch _ _ _ hno =>
          rcases hno with hno | hno
          · rw [hacc.coalesce] at hno
            cases hno
          · rw [hi] at hno
            cases hno
        | coalesce _ _ _ _ _ hi' =>
          rw [hi] at hi'
          cases hi'
          exact (h p hp fun _ h => (by cases h)).imp (hrow hpay hpend).mp id
      · intro h p hp _
        by_cases hb : s.CarriesBeside e.id p
        · exact .inr hb
        · refine .inl ((RowStep.edit hedit).carries hp (fun st h => by cases h) ?_)
          intro a' r hop hacc hl _ hpay hpend
          cases hop
          exact (hrow hpay hpend).mpr ((h e hm r p hacc hl hp).resolve_right hb)

/-! ## The ends of a lease -/

theorem survives_fail {jobId : Nat} {owner code message : String} (hw : s.WellFormed) :
    (Op.fail jobId owner code message).Survives s now ↔
      (Op.fail jobId owner code message).Preserves s now := by
  cases hj : s.selectHeld jobId owner now with
  | none =>
    refine iff_of_true (Op.survives_of_eq (by simp [Op.apply, Queue.fail, Queue.finish, hj])) ?_
    intro j p h
    rw [hj] at h
    cases h
  | some j =>
    obtain ⟨hget, hl, ho⟩ := Queue.selectHeld_some hj
    obtain ⟨hm, rfl⟩ := Queue.job?_some hget
    have hjobs : ((Op.fail j.id owner code message).apply s now).jobs =
        Table.put WorkJob.id s.jobs (j.finish .failed code message now) := by
      simp only [Op.apply, Queue.fail, Queue.finish, hj]
      rfl
    rw [Op.survives_put hw hm (by rw [hl.1]; rfl) (by rfl) hjobs]
    constructor
    · intro h j' p hj' hp
      obtain rfl := Option.some.inj (hj.symm.trans hj')
      exact (h p hp fun _ h => by cases h).resolve_left (WorkJob.not_carries rfl)
    · exact fun h p hp _ => .inr (h j p hj hp)

theorem survives_retry {jobId : Nat} {owner code message : String} {at_ : Time}
    (hw : s.WellFormed) : (Op.retry jobId owner at_ code message).Survives s now ↔
      (Op.retry jobId owner at_ code message).Preserves s now := by
  cases hj : s.selectHeld jobId owner now with
  | none =>
    refine iff_of_true (Op.survives_of_eq (by simp [Op.apply, Queue.retry, hj])) ?_
    intro j p h
    rw [hj] at h
    cases h
  | some j =>
    obtain ⟨hget, hl, ho⟩ := Queue.selectHeld_some hj
    obtain ⟨hm, rfl⟩ := Queue.job?_some hget
    have hjobs : ((Op.retry j.id owner at_ code message).apply s now).jobs =
        Table.put WorkJob.id s.jobs (j.retry at_ code message now) := by
      simp only [Op.apply, Queue.retry, hj]
      split <;> rfl
    rw [Op.survives_put hw hm (by rw [hl.1]; rfl) (by rfl) hjobs]
    constructor
    · intro h j' p hj' ht hp
      obtain rfl := Option.some.inj (hj.symm.trans hj')
      have hend : (j.retry at_ code message now).status.isActive = false := by
        simp [WorkJob.retry, ht, JobState.isActive]
      exact (h p hp fun _ h => by cases h).resolve_left (WorkJob.not_carries hend)
    · intro h p hp _
      by_cases ht : j.maxAttempts ≤ j.attempts
      · exact .inr (h j p hj ht hp)
      · refine .inl (WorkJob.carries_pending ?_ hp)
        simp [WorkJob.retry, ht, JobState.isActive]

/-! ## Sweeps -/

theorem survives_resume {source : String} (hw : s.WellFormed) :
    (Op.resumeRecoveredProvider source).Survives s now := by
  refine Op.survives_of_kept fun j hj ha => ?_
  have hinv := Op.apply_inv (P := fun q => q.WellFormed ∧ ∃ j' ∈ q.jobs,
    j'.status.isActive = true ∧ j'.pendingPayload = j.pendingPayload)
    (.resumeRecoveredProvider source) now hw.jobs ?_ ⟨hw, j, hj, ha, rfl⟩
  · exact hinv.2
  rintro q q' ⟨hwq, hq⟩ ht
  refine ⟨ht.wellFormed hwq, ?_⟩
  rcases ht.jobs_cases with ⟨hjobs, -⟩ | ⟨a, hop, -⟩ | ⟨k, k', hk, hstep, hjobs, -⟩
  · rwa [hjobs]
  · cases hop
  · rw [hjobs]
    refine Table.exists_mem_put hwq.jobs hk hstep.sameJob.id.symm ?_ hq
    rintro ⟨hka, hkp⟩
    cases hstep with
    | edit h =>
      cases h with
      | resume => exact ⟨hka, hkp⟩
    | unlease h => cases h
    | terminate h => cases h
    | renew hop _ _ _ => cases hop
    | grant hop _ _ _ _ => cases hop

/-- The rows after the sweep. -/
theorem Queue.failExhaustedLeases_jobs (hk : Table.Keyed WorkJob.id s.jobs) :
    (s.failExhaustedLeases now).1.jobs =
      s.jobs.map fun j => if j.exhausted now = true then j.failExpired now else j := by
  have hfold : (s.failExhaustedLeases now).1.jobs = (s.exhaustedLeases now).foldl
      (fun t j => Table.put WorkJob.id t (j.failExpired now)) s.jobs :=
    (List.foldl_hom Queue.jobs fun _ _ => rfl).symm
  have hsub : ∀ j ∈ s.exhaustedLeases now, j ∈ s.jobs := fun _ => List.mem_of_mem_filter
  rw [hfold, Table.foldl_put (g := fun j => j.failExpired now) hk (fun _ => rfl) hsub]
  refine List.map_congr_left fun j hj => ?_
  have hmem : j ∈ s.exhaustedLeases now ↔ j.exhausted now = true := by
    simp [Queue.exhaustedLeases, WorkJob.exhausted, hj]
  simp only [hmem]

/-- After a sweep a payload is carried by what carried it and was not exhausted. -/
theorem Op.survives_sweep {f : WorkJob → WorkJob} (hc : ∀ id reason, op ≠ .cancel id reason)
    (hf : ∀ j p, (f j).Carries p ↔ j.Carries p)
    (hjobs : (op.apply s now).jobs =
      s.jobs.map fun j => if j.exhausted now = true then (f j).failExpired now else f j) :
    op.Survives s now ↔ s.ExhaustedCarried now := by
  have hiff : ∀ p, (op.apply s now).Carries p ↔
      ∃ k ∈ s.jobs, k.exhausted now = false ∧ k.Carries p := by
    intro p
    rw [Queue.Carries, hjobs]
    constructor
    · rintro ⟨k, hk, hcar⟩
      obtain ⟨k₀, hk₀, rfl⟩ := List.mem_map.mp hk
      cases he : k₀.exhausted now with
      | true =>
        rw [if_pos he] at hcar
        exact absurd hcar (WorkJob.not_carries rfl)
      | false =>
        rw [if_neg (by simp [he])] at hcar
        exact ⟨k₀, hk₀, he, (hf _ _).mp hcar⟩
    · rintro ⟨k, hk, he, hcar⟩
      refine ⟨f k, List.mem_map.mpr ⟨k, hk, if_neg (by simp [he])⟩, (hf _ _).mpr hcar⟩
  constructor
  · intro h j hj he p hp
    have ha : j.status.isActive = true := by
      simp only [WorkJob.exhausted, Bool.and_eq_true, beq_iff_eq] at he
      rw [he.1.1]
      rfl
    exact (hiff p).mp (h j hj ha p hp fun _ => hc _ _)
  · intro h j hj ha p hp _
    rw [hiff]
    cases he : j.exhausted now with
    | true => exact h j hj he p hp
    | false => exact ⟨j, hj, he, WorkJob.carries_pending ha hp⟩

theorem survives_claim {env : ClaimEnv} {a : ClaimArgs} (hw : s.WellFormed) (hl : s.Lockstep) :
    (Op.claim env a).Survives s now ↔ (Op.claim env a).Preserves s now := by
  by_cases ho : strip a.owner = ""
  · exact iff_of_true (Op.survives_of_eq (by simp [Op.apply, Queue.claim, ho, committed]))
      fun h => absurd ho h
  by_cases hf : a.leaseFor ≤ 0
  · exact iff_of_true (Op.survives_of_eq (by simp [Op.apply, Queue.claim, ho, hf, committed]))
      fun _ h => absurd hf (not_le.mpr h)
  have hf := not_le.mp hf
  cases hs : Queue.scan env a s now with
  | none =>
    obtain ⟨q, seen, hq, hc⟩ := claim_of_none hw hl ho hf hs
    have hcar : ∀ (j : WorkJob) p, (if j ∈ seen then Queue.repoolRefresh j else j).Carries p ↔
        j.Carries p := fun j p => by split <;> exact .rfl
    cases hi : Queue.idle env a s now with
    | true =>
      have hkq : Table.Keyed WorkJob.id q.jobs := hq.keyed hw.jobs
      have hjobs : ((Op.claim env a).apply s now).jobs = s.jobs.map fun j =>
          if j.exhausted now = true then (if j ∈ seen then Queue.repoolRefresh j else j).failExpired now
          else if j ∈ seen then Queue.repoolRefresh j else j := by
        simp only [Op.apply, hc, hi, if_true, committed]
        rw [Queue.failExhaustedLeases_jobs hkq, hq.jobs, List.map_map]
        refine List.map_congr_left fun j _ => ?_
        have hex : (if j ∈ seen then Queue.repoolRefresh j else j).exhausted now =
            j.exhausted now := by split <;> rfl
        simp only [Function.comp, hex]
      rw [Op.survives_sweep (fun _ _ h => by cases h) hcar hjobs]
      exact ⟨fun h _ _ _ => h, fun h => h ho hf ((Queue.idle_iff hw).mp hi)⟩
    | false =>
      have hno : ¬ Queue.NothingFits env a s now := fun h => by
        rw [(Queue.idle_iff hw).mpr h] at hi
        cases hi
      refine iff_of_true (Op.survives_of_kept fun j hj ha => ?_) fun _ _ h => absurd h hno
      simp only [Op.apply, hc, hi, Bool.false_eq_true, if_false, committed]
      refine ⟨_, hq.mem hj, ?_⟩
      split <;> exact ⟨ha, rfl⟩
  | some k =>
    have hno : ¬ Queue.NothingFits env a s now := fun h => by
      have hnone : Queue.scan env a s now = none :=
        firstFit_none_of_runsDry (Queue.claimKey_nodup hw) hidesSource_trans
          ((Queue.idle_iff hw).mpr h)
      rw [hs] at hnone
      cases hnone
    refine iff_of_true ?_ fun _ _ h => absurd h hno
    obtain ⟨htaken, hfree⟩ := claim_of_some hw hl ho hf hs
    cases hr : s.repairSeriesTaken k with
    | true => exact Op.survives_of_eq (by simp [Op.apply, htaken hr, committed])
    | false =>
      obtain ⟨q, seen, e, l, hq, hk, -, hc⟩ := hfree hr
      refine Op.survives_of_kept fun j hj ha => ?_
      simp only [Op.apply, hc, committed, Queue.granted, Queue.putJob]
      by_cases hid : j.id = k.id
      · -- the leased row keeps what it had pending
        obtain rfl := hw.jobs.eq hj (Queue.scan_some hs).1 hid
        exact ⟨_, Table.mem_put_self (hq.mem hj) (by split <;> rfl), rfl, rfl⟩
      · refine ⟨_, Table.mem_put_of_ne (hq.mem hj) ?_, ?_⟩
        · split <;> exact hid
        · split <;> exact ⟨ha, rfl⟩

/-! ## Calls and runs -/

/-- A call drops no pending work exactly when it preserves. -/
theorem Op.survives_iff (op : Op) (hw : s.WellFormed) (hl : s.Lockstep) :
    op.Survives s now ↔ op.Preserves s now := by
  cases op with
  | enqueue a => exact survives_enqueue hw
  | claim env a => exact survives_claim hw hl
  | fail jobId owner code message => exact survives_fail hw
  | retry jobId owner at_ code message => exact survives_retry hw
  | resumeRecoveredProvider source => exact iff_of_true (survives_resume hw) trivial
  | failExhaustedLeases =>
    exact Op.survives_sweep (f := id) (fun _ _ h => by cases h) (fun _ _ => .rfl)
      (Queue.failExhaustedLeases_jobs hw.jobs)
  | succeed jobId owner =>
    refine iff_of_true (Op.survives_of_terminate hw (fun _ h => by cases h) rfl ?_) trivial
    intro j j' st h
    cases h with
    | succeed _ _ hp => exact .inl hp
  | cancel jobId reason =>
    refine iff_of_true (Op.survives_of_terminate hw (fun _ h => by cases h) rfl ?_) trivial
    intro j j' st h
    cases h with
    | cancel => exact .inr ⟨_, rfl⟩
  | _ =>
    exact iff_of_true (Op.survives_of_terminate hw (fun _ h => by cases h) rfl
      fun j j' st h => by cases h) trivial

end

section
variable {t₀ : Time} {tr : List (Clocked × (Op × Time))} {c : Clocked}

/-- No call of a run drops pending work other than by a cancel, exactly when all its calls
preserve. -/
theorem coalesced_survives_iff (h : QueueRun t₀ tr c) :
    (∀ x ∈ tr, x.2.1.Survives x.1.queue x.2.2) ↔
      Run.Meets (fun x l => l.1.Preserves x.queue l.2) tr := by
  refine forall₂_congr fun x hx => ?_
  obtain ⟨tr', c', hrun, -, -⟩ := h.mem_step hx
  exact Op.survives_iff _ (QueueRun.wellFormed hrun) (QueueRun.lockstep hrun)

/-- A refresh observed again while it runs; its lease fails. -/
def failedCalls : List (Op × Time) :=
  [(.enqueue (observation "1"), 0), (.claim {} { owner := "w", leaseFor := 10 }, 1),
    (.enqueue (observation "2"), 2), (.fail 1 "w" "error" "", 3)]

/-- No active job is left, and the second observation is dropped. -/
theorem failedCalls_dropped : ∃ tr c, QueueRun 0 tr c ∧ tr.map Prod.snd = failedCalls ∧
    ¬ ∀ x ∈ tr, x.2.1.Survives x.1.queue x.2.2 := by
  refine ⟨_, _, QueueRun.replay 0 failedCalls (by decide +kernel), rfl, fun h => ?_⟩
  have hin : (replay 0 (failedCalls.take 3), (Op.fail 1 "w" "error" "", (3 : Time))) ∈
      Run.history Clocked.call ⟨{}, 0⟩ failedCalls := by
    simp [failedCalls, Run.history, replay]
  have hpend : ∃ j ∈ (replay 0 (failedCalls.take 3)).queue.jobs, j.status.isActive = true ∧
      j.pendingPayload = some (observation "2").payload := by decide +kernel
  have hnone : ∀ j ∈ ((Op.fail 1 "w" "error" "").apply
      (replay 0 (failedCalls.take 3)).queue 3).jobs, j.status.isActive = false := by decide +kernel
  obtain ⟨j, hj, ha, hp⟩ := hpend
  obtain ⟨k, hk, hc⟩ := h _ hin j hj ha _ hp fun _ h => by cases h
  exact WorkJob.not_carries (hnone k hk) hc

/-- When the lease succeeds instead, nothing is dropped. -/
theorem coalesced_survives_iff_success : ∃ tr c, QueueRun 0 tr c ∧
    tr.map Prod.snd = failedCalls.take 3 ++ [(.succeed 1 "w", 3)] ∧
    ∀ x ∈ tr, x.2.1.Survives x.1.queue x.2.2 := by
  have hrun := QueueRun.replay 0 (failedCalls.take 3 ++ [(.succeed 1 "w", 3)]) (by decide +kernel)
  refine ⟨_, _, hrun, rfl, (coalesced_survives_iff hrun).mpr ?_⟩
  have hclean : ∀ j ∈ (replay 0 (failedCalls.take 2)).queue.jobs, j.pendingPayload = none := by
    decide +kernel
  have hwaits : ∀ j ∈ (replay 0 (failedCalls.take 1)).queue.jobs, j.pendingPayload = none := by
    decide +kernel
  simp only [failedCalls, List.take, List.cons_append, List.nil_append, Run.history, Run.Meets,
    List.mem_cons, List.not_mem_nil, or_false, forall_eq_or_imp, forall_eq, Op.Preserves, and_true]
  refine ⟨fun e he => (by cases he), fun _ _ _ j hj _ p hp => ?_, fun e he r p _ _ hp => ?_⟩
  · rw [hwaits j hj] at hp
    cases hp
  · rw [hclean e he] at hp
    cases hp

end

end MangaManager
