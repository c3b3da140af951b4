import MangaManager.Lib.Fencing
import MangaManager.Queue.Invariant

/-!
# Fencing of the queue's calls

Every call of a worker names the worker and finds its job through
`selectOwned` or `selectHeld`. A worker that does not hold the lease therefore
changes nothing and is told so (`Op.fenced`), and the lease of a job is ended or
moved before it expires only by its holder or by an operator's cancel
(`Op.keeps_lease`).
-/

namespace MangaManager

open Lib

/-- The worker a call is made by, and the job it is about. -/
def Op.actor : Op → Option (String × Nat)
  | heartbeat jobId owner _ => some (owner, jobId)
  | progress jobId owner _ _ => some (owner, jobId)
  | succeed jobId owner => some (owner, jobId)
  | fail jobId owner _ _ => some (owner, jobId)
  | retry jobId owner _ _ _ => some (owner, jobId)
  | release jobId owner _ => some (owner, jobId)
  | defer jobId owner _ _ _ => some (owner, jobId)
  | reroute jobId owner _ _ _ _ => some (owner, jobId)
  | _ => none

/-- Whether a worker's call reports success. -/
def Op.reports (op : Op) (s : Queue) (now : Time) : Bool :=
  match op with
  | heartbeat jobId owner leaseFor => ((s.heartbeat jobId owner leaseFor now).toOption.map (·.2)).getD false
  | progress jobId owner message d => (s.progress jobId owner message d now).2
  | succeed jobId owner => (s.succeed jobId owner now).2
  | fail jobId owner code message => (s.fail jobId owner code message now).2
  | retry jobId owner availableAt code message =>
    (s.retry jobId owner availableAt code message now).2.isSome
  | release jobId owner reason => (s.release jobId owner reason now).2
  | defer jobId owner availableAt code message =>
    (s.defer jobId owner availableAt code message now).2
  | reroute jobId owner payload source availableAt message =>
    ((s.reroute jobId owner payload source availableAt message now).toOption.map (·.2)).getD false
  | _ => true

/-- The job and the worker a call leases it to. -/
def Op.claims (op : Op) (s : Queue) (now : Time) : Option (Nat × String) :=
  match op with
  | claim env a => match Queue.claim env a s now with
    | .ok (_, some l) => some (l.id, l.owner)
    | _ => none
  | _ => none

/-- `o` holds the lease of job `id`, expired or not. -/
def Queue.Holds (s : Queue) (id : Nat) (o : String) : Prop :=
  ∃ j ∈ s.jobs, j.id = id ∧ j.status = .leased ∧ j.leaseOwner = o

/-- The lease columns are the same. -/
structure SameLease (j j' : WorkJob) : Prop where
  id : j'.id = j.id
  status : j'.status = j.status
  owner : j'.leaseOwner = j.leaseOwner
  expiry : j'.leaseExpiresAt = j.leaseExpiresAt

section
variable {now : Time} {op : Op} {s s' : Queue} {j j' : WorkJob} {w : String} {id : Nat}

theorem Queue.selectOwned_none (h : ¬ s.Holds id w) : s.selectOwned id w = none := by
  cases hs : s.selectOwned id w with
  | none => rfl
  | some j =>
    obtain ⟨hg, hl, ho⟩ := Queue.selectOwned_some hs
    obtain ⟨hm, hi⟩ := Queue.job?_some hg
    exact absurd ⟨j, hm, hi, hl, ho⟩ h

theorem Queue.selectHeld_none (now : Time) (h : ¬ s.Holds id w) : s.selectHeld id w now = none := by
  cases hs : s.selectHeld id w now with
  | none => rfl
  | some j =>
    obtain ⟨hg, hl, ho⟩ := Queue.selectHeld_some hs
    obtain ⟨hm, hi⟩ := Queue.job?_some hg
    exact absurd ⟨j, hm, hi, hl.1, ho⟩ h

/-- A worker that does not hold the lease changes nothing and is told so. -/
theorem Op.fenced (now : Time) (ha : op.actor = some (w, id)) (h : ¬ s.Holds id w) :
    op.apply s now = s ∧ op.reports s now = false := by
  have ho := Queue.selectOwned_none h
  have hh := Queue.selectHeld_none now h
  cases op with
  | heartbeat jobId owner leaseFor =>
    cases ha
    simp only [Op.apply, Op.reports, Queue.heartbeat, hh]
    split <;> exact ⟨rfl, rfl⟩
  | progress => cases ha; simp [Op.apply, Op.reports, Queue.progress, hh]
  | succeed => cases ha; simp [Op.apply, Op.reports, Queue.succeed, Queue.finish, hh]
  | fail => cases ha; simp [Op.apply, Op.reports, Queue.fail, Queue.finish, hh]
  | retry => cases ha; simp [Op.apply, Op.reports, Queue.retry, hh]
  | release => cases ha; simp [Op.apply, Op.reports, Queue.release, ho]
  | defer => cases ha; simp [Op.apply, Op.reports, Queue.defer, ho]
  | reroute =>
    cases ha
    simp [Op.apply, Op.reports, Queue.reroute, ho, committed, Except.toOption]
  | _ => cases ha

/-- A call that changes an unexpired lease is its holder's, or a cancel. -/
theorem RowStep.sameLease (h : RowStep now op j j') (hl : j.Live now)
    (ha : op.actor ≠ some (j.leaseOwner, j.id)) (hc : ∀ reason, op ≠ .cancel j.id reason) :
    SameLease j j' := by
  cases h with
  | edit h =>
    have he := h.edited
    exact ⟨(RowStep.edit h).sameJob.id, (he.leased.mpr hl.1).trans hl.1.symm, he.owner, he.expiry⟩
  | unlease h =>
    cases h with
    | requeue _ ho _ | retry _ ho _ | release _ ho | defer _ ho | reroute _ ho _ =>
      exact absurd (by rw [ho]; rfl) ha
  | terminate h =>
    cases h with
    | succeed _ ho _ | fail _ ho | retry _ ho _ => exact absurd (by rw [ho]; rfl) ha
    | cancel _ => exact absurd rfl (hc _)
    | sweep he _ | claimSweep he _ => rw [hl.not_expired] at he; cases he
  | renew hop _ ho _ => exact absurd (by rw [hop, ho]; rfl) ha
  | grant _ h _ _ _ => rw [hl.not_expired, hl.not_ready] at h; simp at h

theorem SameLease.live (h : SameLease j j') (hl : j.Live now) : j'.Live now := by
  obtain ⟨hs, e, he, hlt⟩ := hl
  exact ⟨h.status.trans hs, e, h.expiry.trans he, hlt⟩

theorem Op.keeps_lease (hw : s.WellFormed) (hj : j ∈ s.jobs) (hl : j.Live now)
    (ha : op.actor ≠ some (j.leaseOwner, j.id)) (hc : ∀ reason, op ≠ .cancel j.id reason) :
    ∃ j' ∈ (op.apply s now).jobs, SameLease j j' := by
  have hinv := Op.apply_inv (P := fun q => q.WellFormed ∧ ∃ k ∈ q.jobs, SameLease j k) op now
    hw.jobs ?_ ⟨hw, j, hj, rfl, rfl, rfl, rfl⟩
  · exact hinv.2
  rintro q q' ⟨hwq, k, hk, hs⟩ ht
  refine ⟨ht.wellFormed hwq, ?_⟩
  rcases ht.jobs_cases with ⟨h, -⟩ | ⟨a, -, -, -, rfl⟩ | ⟨x, x', hx, hstep, h, -⟩
  · exact ⟨k, h ▸ hk, hs⟩
  · exact ⟨k, by simp [hk], hs⟩
  · rw [h]
    by_cases he : k.id = x'.id
    · have hkx : k = x := hwq.jobs.eq hk hx (he.trans hstep.sameJob.id)
      subst hkx
      have hs' := hstep.sameLease (hs.live hl) (by rw [hs.owner, hs.id]; exact ha)
        (by rw [hs.id]; exact hc)
      exact ⟨x', Table.mem_put_self hk he, hs'.id.trans hs.id, hs'.status.trans hs.status,
        hs'.owner.trans hs.owner, hs'.expiry.trans hs.expiry⟩
    · exact ⟨k, Table.mem_put_of_ne hk he, hs⟩

/-! ## Who holds a lease -/

/-- A row is leased after a step only by a claim, or when it was leased to the same worker. -/
theorem RowStep.leased (h : RowStep now op j j') (hl : j'.status = .leased) :
    (∃ env a, op = .claim env a) ∨ (j.status = .leased ∧ j'.leaseOwner = j.leaseOwner) := by
  cases h with
  | edit h => exact .inr ⟨h.edited.leased.mp hl, h.edited.owner⟩
  | unlease h => exact absurd hl h.not_leased
  | terminate h => exact absurd hl h.ended.not_leased
  | renew _ hlive _ _ => exact .inr ⟨hlive.1, rfl⟩
  | grant h => exact .inl ⟨_, _, h⟩

theorem Transition.holds (h : Transition now op s s') (hc : ∀ env a, op ≠ .claim env a)
    {id : Nat} {o : String} (hh : s'.Holds id o) : s.Holds id o := by
  obtain ⟨k, hk, hid, hl, ho⟩ := hh
  rcases h.jobs_cases with ⟨h, -⟩ | ⟨a, -, -, -, rfl⟩ | ⟨x, x', hx, hstep, h, -⟩
  · exact ⟨k, h ▸ hk, hid, hl, ho⟩
  · simp only [Queue.enqueueNew_jobs, List.mem_append, List.mem_singleton] at hk
    rcases hk with hk | rfl
    · exact ⟨k, hk, hid, hl, ho⟩
    · cases hl
  · rw [h] at hk
    rcases Table.mem_put.mp hk with ⟨rfl, -⟩ | ⟨hk, -⟩
    · rcases hstep.leased hl with ⟨env, a, e⟩ | ⟨hxl, hxo⟩
      · exact absurd e (hc env a)
      · exact ⟨x, hx, hstep.sameJob.id.symm.trans hid, hxl, hxo.symm.trans ho⟩
    · exact ⟨k, hk, hid, hl, ho⟩

theorem ScanStep.holds (h : ScanStep now s s') {id : Nat} {o : String} (hh : s'.Holds id o) :
    s.Holds id o := by
  obtain ⟨k, hk, hid, hl, ho⟩ := hh
  cases h with
  | @repool j hj _ =>
    rcases Table.mem_put.mp hk with ⟨rfl, -⟩ | ⟨hk, -⟩
    · exact ⟨j, hj, hid, hl, ho⟩
    · exact ⟨k, hk, hid, hl, ho⟩
  | dropPermits => exact ⟨k, hk, hid, hl, ho⟩
  | sweep hj _ _ =>
    rcases Table.mem_put.mp hk with ⟨rfl, -⟩ | ⟨hk, -⟩
    · cases hl
    · exact ⟨k, hk, hid, hl, ho⟩

theorem Scans.holds (h : Scans now s s') {id : Nat} {o : String} (hh : s'.Holds id o) :
    s.Holds id o := by
  induction h with
  | refl => exact hh
  | tail _ hs ih => exact ih (hs.holds hh)

/-- Who holds a lease after a call was granted it by this call, or held it before and the call
granted it to nobody. -/
theorem Op.holds (hk : Table.Keyed WorkJob.id s.jobs) {id : Nat} {o : String}
    (hh : (op.apply s now).Holds id o) :
    op.claims s now = some (id, o) ∨ (s.Holds id o ∧ ∀ o', op.claims s now ≠ some (id, o')) := by
  by_cases hop : ∃ env a, op = .claim env a
  · obtain ⟨env, a, rfl⟩ := hop
    simp only [Op.apply, Op.claims] at hh ⊢
    cases hr : Queue.claim env a s now with
    | error e =>
      rw [hr] at hh
      exact .inr ⟨hh, by simp⟩
    | ok r =>
      rw [hr] at hh
      obtain ⟨s', _ | l⟩ := r
      · exact .inr ⟨(Queue.claim_ok hk hr).holds hh, by simp⟩
      · obtain ⟨s₁, j, hs, hg⟩ := Queue.claim_ok hk hr
        obtain ⟨k, hkm, hid, hl, ho⟩ := hh
        simp only [committed] at hkm
        rw [hg.tables] at hkm
        rcases Table.mem_put.mp hkm with ⟨rfl, -⟩ | ⟨hkm, hne⟩
        · left
          rw [hg.lease, ← hid, ← ho]
          rfl
        · right
          refine ⟨hs.holds ⟨k, hkm, hid, hl, ho⟩, fun o' e => hne ?_⟩
          rw [hid, ← (Prod.mk.inj (Option.some.inj e)).1, hg.lease]
          rfl
  · have hc : ∀ env a, op ≠ .claim env a := fun env a e => hop ⟨env, a, e⟩
    right
    refine ⟨?_, fun o' => ?_⟩
    · have hts := op.apply_transitions now hk
      generalize op.apply s now = s' at hts hh
      induction hts with
      | refl => exact hh
      | tail _ ht ih => exact ih (ht.holds hc hh)
    · cases op <;> first | exact fun e => by cases e | exact absurd rfl (hc _ _)

end

end MangaManager
