import MangaManager.Queue.Observations

/-!
# Acquisition promotion

An acquisition-critical observation puts the refresh of its series into an earlier
scheduling tier. `enqueue` replaces the whole payload, so an ordinary observation
with a newer version takes the flag away again, from a waiting job or from the
pending payload of a leased one; and a job whose lease is given back runs its old
payload first, while the promoted one stays pending.

`Owed` is read off the history: a critical observation was accepted and no critical
attempt has succeeded since. `promotion_sticky`: where the calls keep critical
slots critical, an owed job runs next with a critical payload.
-/

namespace MangaManager

open Lib

/-- The payload that runs next is critical: the payload, or the pending one of a leased job once
its attempt succeeds. -/
def WorkJob.Promoted (j : WorkJob) : Prop :=
  j.payload.acquisitionCritical = true ∨
    (j.status = .leased ∧ j.newest.acquisitionCritical = true)

/-- A call by which the job `id` takes a critical observation. -/
def Op.Promotes (op : Op) (s : Queue) (id : Nat) : Prop :=
  ∃ a, op = .enqueue a ∧ a.payload.acquisitionCritical = true ∧
    ((∃ e ∈ s.jobs, e.id = id ∧ Accepted a e a.payload) ∨
      (Queue.checkEnqueue a = .ok () ∧ s.activeJob a.kind (strip a.dedupeKey) = none ∧
        id = s.nextJob))

/-- A call by which an attempt of the job `id` succeeds with a critical payload. -/
def Op.Fulfils (op : Op) (s : Queue) (now : Time) (id : Nat) : Prop :=
  ∃ owner j, op = .succeed id owner ∧ s.selectHeld id owner now = some j ∧
    j.payload.acquisitionCritical = true

/-- The job `id` took a critical observation, and no critical attempt has succeeded since. -/
def Owed (tr : List (Clocked × (Op × Time))) (id : Nat) : Prop :=
  Run.Since (fun c l => l.1.Promotes c.queue id) (fun c l => l.1.Fulfils c.queue l.2 id) tr

/-- A call replaces a critical payload that is due by a critical one only, and gives no lease back
whose pending payload alone is critical. -/
def Op.KeepsCritical (op : Op) (s : Queue) (now : Time) : Prop :=
  let givenBack (j : WorkJob) : Prop :=
    j.newest.acquisitionCritical = true → j.payload.acquisitionCritical = true
  match op with
  | enqueue a => ∀ e ∈ s.jobs, ∀ r, Accepted a e r → e.Promoted →
      (e.status = .leased → e.payload.acquisitionCritical = false) →
      a.payload.acquisitionCritical = true
  | retry jobId owner _ _ _ => ∀ j, s.selectHeld jobId owner now = some j →
      j.attempts < j.maxAttempts → givenBack j
  | release jobId owner _ | defer jobId owner _ _ _ =>
    ∀ j, s.selectOwned jobId owner = some j → givenBack j
  | reroute jobId owner payload _ _ _ => ∀ j, s.selectOwned jobId owner = some j → j.Promoted →
      payload.acquisitionCritical = true
  | rerouteWaiting jobId payload _ _ _ => ∀ j, s.selectWaiting jobId = some j → j.Promoted →
      payload.acquisitionCritical = true
  | _ => True

section
variable {now : Time} {op : Op} {s s' : Queue} {j j' e : WorkJob} {a : EnqueueArgs} {id : Nat}
  {r : JobPayload}

/-! ## Critical payloads -/

theorem WorkJob.Promoted.payload (h : j.Promoted) (hw : j.status.isWaiting = true) :
    j.payload.acquisitionCritical = true := by
  refine h.resolve_right fun ⟨hl, _⟩ => ?_
  rw [hl] at hw
  cases hw

/-- Only refreshes are critical. -/
theorem JobPayload.kind_of_critical {p : JobPayload} (h : p.acquisitionCritical = true) :
    p.kind = .sourceRefresh := by
  cases p with
  | sourceRefresh p => rfl
  | _ => cases h

theorem WorkJob.Promoted.kind (h : j.Promoted) (hw : j.WellFormed) : j.kind = .sourceRefresh := by
  rcases h with h | ⟨-, h⟩
  · rw [← hw.payload.1]
    exact JobPayload.kind_of_critical h
  · unfold WorkJob.newest at h
    cases hp : j.pendingPayload with
    | none =>
      rw [hp] at h
      rw [← hw.payload.1]
      exact JobPayload.kind_of_critical h
    | some p =>
      rw [hp] at h
      rw [← (hw.pending p hp).1]
      exact JobPayload.kind_of_critical h

/-- A promoted job that waits is claimed in the tier of acquisition refreshes. -/
theorem WorkJob.Promoted.tier (h : j.Promoted) (hj : j.WellFormed)
    (hw : j.status.isWaiting = true) : j.schedulingTier = 1 := by
  unfold WorkJob.schedulingTier
  rw [h.kind hj]
  exact if_pos (h.payload hw)

/-- A refresh stores what was requested. -/
theorem Accepted.payload_eq (h : Accepted a e r) (hk : a.kind = .sourceRefresh) :
    r = a.payload := by
  obtain ⟨n, hr⟩ := h.replacement
  simp only [replacementFor, hk] at hr
  cases hr
  rfl

/-! ## One row -/

/-- A promoted row that stays active stays promoted, unless the call fulfils the promotion. -/
theorem WorkJob.Promoted.rowStep (h : j.Promoted) (hs : RowStep now op j j') (hw : s.WellFormed)
    (hj : j ∈ s.jobs) (hk : op.KeepsCritical s now) (ha : j'.status.isActive = true) :
    j'.Promoted ∨ op.Fulfils s now j.id := by
  have hkind := h.kind (hw.rows j hj)
  -- the job keeps both slots and its lease
  have hkept : j'.payload = j.payload → j'.pendingPayload = j.pendingPayload →
      (j.status = .leased → j'.status = .leased) → j'.Promoted := by
    intro hp hq hl
    refine h.imp (fun h => hp ▸ h) fun ⟨hs, hn⟩ => ⟨hl hs, ?_⟩
    rwa [WorkJob.newest, hp, hq]
  cases hs with
  | edit he =>
    have hl := he.edited.leased
    cases he.slots with
    | kept hp hq => exact .inl (hkept hp hq hl.mpr)
    | requeue hop _ _ _ => subst hop; cases he
    | reroute hop hq =>
      cases he with
      | rerouteWaiting hwait hp =>
        refine .inl (.inl (hk j ?_ h))
        rw [Queue.selectWaiting, Queue.job?_eq hw.jobs hj, Option.filter_some, if_pos hwait]
      | _ => cases hop
    | @pending a r hop hacc hs hp hq =>
      subst hop
      obtain rfl := hacc.payload_eq (hacc.kind ▸ hkind)
      by_cases hc : j.payload.acquisitionCritical = true
      · exact .inl (.inl (hp ▸ hc))
      · refine .inl (.inr ⟨hl.mpr hs, ?_⟩)
        rw [WorkJob.newest, hq]
        exact hk j hj _ hacc h fun _ => by simpa using hc
    | @payload a r hop hacc hs hp hq =>
      subst hop
      obtain rfl := hacc.payload_eq (hacc.kind ▸ hkind)
      refine .inl (.inl ?_)
      rw [hp]
      exact hk j hj _ hacc h fun h => absurd h hs
  | unlease hu =>
    -- what runs next when the lease is given back
    have hback : (j.newest.acquisitionCritical = true → j.payload.acquisitionCritical = true) →
        j.payload.acquisitionCritical = true := fun hb => h.elim (fun h => h) fun h => hb h.2
    cases hu with
    | @requeue _ owner p hl ho hp =>
      by_cases hc : j.payload.acquisitionCritical = true
      · exact .inr ⟨owner, j, rfl, ho ▸ Queue.selectHeld_eq hw.jobs hj hl, hc⟩
      · have hn := (h.resolve_left hc).2
        rw [WorkJob.newest, hp] at hn
        exact .inl (.inl hn)
    | retry hl ho hlt =>
      exact .inl (.inl (hback (hk j (ho ▸ Queue.selectHeld_eq hw.jobs hj hl) hlt)))
    | release hl ho => exact .inl (.inl (hback (hk j (ho ▸ Queue.selectOwned_eq hw.jobs hj hl))))
    | defer hl ho => exact .inl (.inl (hback (hk j (ho ▸ Queue.selectOwned_eq hw.jobs hj hl))))
    | reroute hl ho hp =>
      exact .inl (.inl (hk j (ho ▸ Queue.selectOwned_eq hw.jobs hj hl) h))
  | terminate ht =>
    rw [ht.ended.status, ht.ended.inactive] at ha
    cases ha
  | renew => exact .inl (hkept rfl rfl fun h => h)
  | grant => exact .inl (hkept rfl rfl fun _ => rfl)

/-- The row that takes a critical observation is promoted. -/
theorem Accepted.promoted (h : Accepted a e a.payload) (hk : a.payload.acquisitionCritical = true)
    {n : Nat} (he : Edit now (.enqueue a) e e' n) : e'.Promoted := by
  obtain ⟨added, hi⟩ := h.coalesced now
  cases he with
  | touch _ _ _ hno =>
    rcases hno with hno | hno
    · rw [h.coalesce] at hno
      cases hno
    · rw [hi] at hno
      cases hno
  | coalesce _ _ _ _ _ hi' =>
    rw [hi] at hi'
    have hst := Option.some.inj hi'
    unfold storeReplacement at hst
    split at hst
    · rename_i hl
      cases hst
      exact .inr ⟨hl, hk⟩
    · cases hst
      exact .inl hk

/-! ## Calls -/

/-- The job that was there keeps its promotion, or the call fulfils it. -/
theorem promotion_kept (op : Op) (now : Time) (hw : s.WellFormed) (hk : op.KeepsCritical s now) :
    ∀ j' ∈ (op.apply s now).jobs, j'.status.isActive = true → j'.id < s.nextJob →
      ∃ j ∈ s.jobs, j.id = j'.id ∧ j.status.isActive = true ∧
        (j.Promoted → ¬ op.Fulfils s now j.id → j'.Promoted) := by
  refine Op.apply_inv_of
    (C := fun q => op.KeepsCritical q now ∧ (op.isSweep = true ∨ q = s))
    (P := fun q => ∀ j' ∈ q.jobs, j'.status.isActive = true → j'.id < s.nextJob →
      ∃ j ∈ s.jobs, j.id = j'.id ∧ j.status.isActive = true ∧
        (j.Promoted → ¬ op.Fulfils s now j.id → j'.Promoted)) hw
    (fun j hj ha _ => ⟨j, hj, rfl, ha, fun h _ => h⟩) ⟨hk, .inr rfl⟩
    (fun hsweep q => ⟨by cases op <;> trivial, .inl hsweep⟩) ?_
  rintro q q' ⟨hkq, hsq⟩ hwq hq ht j'' hj'' ha hlt
  rcases ht.jobs_cases with ⟨hjobs, -⟩ | ⟨a, rfl, -, -, rfl⟩ | ⟨j₁, j₂, hj₁, hstep, hjobs, -⟩
  · exact hq j'' (hjobs ▸ hj'') ha hlt
  · obtain rfl := hsq.resolve_left (by simp [Op.isSweep])
    rw [Queue.enqueueNew_jobs] at hj''
    rcases List.mem_append.mp hj'' with hj'' | hj''
    · exact hq j'' hj'' ha hlt
    · obtain rfl := List.mem_singleton.mp hj''
      exact absurd hlt (Nat.lt_irrefl _)
  · rw [hjobs] at hj''
    rcases Table.mem_put.mp hj'' with ⟨rfl, -⟩ | ⟨hj'', -⟩
    · have hid := hstep.sameJob.id
      obtain ⟨j, hj, hjid, hja, hprom⟩ := hq j₁ hj₁ hstep.active (hid ▸ hlt)
      refine ⟨j, hj, hjid.trans hid.symm, hja, fun hp hno => ?_⟩
      refine ((hprom hp hno).rowStep hstep hwq hj₁ hkq ha).resolve_right fun hful => ?_
      rcases hsq with hsq | rfl
      · obtain ⟨owner, k, rfl, -⟩ := hful
        cases hsq
      · exact hno (hjid ▸ hful)
    · exact hq j'' hj'' ha hlt

/-- The job that takes a critical observation is promoted. -/
theorem promotion_given (now : Time) (hw : s.WellFormed) (h : op.Promotes s id) :
    ∀ j' ∈ (op.apply s now).jobs, j'.id = id → j'.Promoted := by
  obtain ⟨a, rfl, hcrit, ⟨e, he, rfl, hacc⟩ | ⟨hc, hnone, rfl⟩⟩ := h
  · intro j' hj' hid
    have hact : s.activeJob a.kind (strip a.dedupeKey) = some e :=
      hacc.kind ▸ hacc.dedupeKey ▸ Queue.activeJob_eq hw he hacc.active
    obtain ⟨e', n, hedit, hs⟩ := Queue.enqueueExisting_edit now hacc.checked hact
    simp only [Op.apply, Queue.enqueue, hacc.checked, hact, committed, hs] at hj'
    rcases Table.mem_put.mp hj' with ⟨rfl, -⟩ | ⟨-, hne⟩
    · exact hacc.promoted hcrit hedit
    · exact absurd (hid.trans (RowStep.edit hedit).sameJob.id.symm) hne
  · intro j' hj' hid
    simp only [Op.apply, Queue.enqueue, hc, hnone, committed, Queue.enqueueNew_jobs,
      List.mem_append, List.mem_singleton] at hj'
    rcases hj' with hj' | rfl
    · exact absurd hid (hw.jobsBelow j' hj').ne
    · exact .inl hcrit

end

/-! ## Runs -/

section
variable {t₀ : Time} {tr : List (Clocked × (Op × Time))} {c : Clocked}

/-- Owed jobs are promoted; nothing is owed to a job that is yet to come. -/
structure Sticky (tr : List (Clocked × (Op × Time))) (c : Clocked) : Prop where
  wellFormed : c.queue.WellFormed
  promoted : ∀ j ∈ c.queue.jobs, j.status.isActive = true → Owed tr j.id → j.Promoted
  fresh : ∀ id, c.queue.nextJob ≤ id → ¬ Owed tr id

theorem Sticky.step {c' : Clocked} {l : Op × Time} (h : Sticky tr c)
    (hk : l.1.KeepsCritical c.queue l.2) (hs : QueueStep c l c') : Sticky (tr ++ [(c, l)]) c' := by
  obtain ⟨-, rfl⟩ := hs
  have hw := h.wellFormed
  refine ⟨Op.apply_wellFormed _ _ hw, fun j' hj' ha ho => ?_, fun id hid ho => ?_⟩
  · rcases Run.since_snoc.mp ho with hp | ⟨ho, hno⟩
    · exact promotion_given l.2 hw hp j' hj' rfl
    · have hlt : j'.id < c.queue.nextJob := not_le.mp fun hle => h.fresh j'.id hle ho
      obtain ⟨j, hj, hid, hja, hprom⟩ := promotion_kept l.1 l.2 hw hk j' hj' ha hlt
      exact hprom (h.promoted j hj hja (hid ▸ ho)) (hid ▸ hno)
  · have hle := l.1.nextJob_le l.2 hw
    rcases Run.since_snoc.mp ho with ⟨a, hop, -, ⟨e, he, rfl, -⟩ | ⟨hc, hnone, rfl⟩⟩ | ⟨ho, -⟩
    · exact absurd (hw.jobsBelow e he) (not_lt.mpr (hle.trans hid))
    · simp only [hop, Op.apply, Queue.enqueue, hc, hnone, committed,
        Queue.enqueueNew_nextJob] at hid
      omega
    · exact h.fresh id (hle.trans hid) ho

/-- Where the calls keep critical slots critical, a job that is owed a critical attempt runs next
with a critical payload, and waits in the tier of acquisition refreshes. -/
theorem promotion_sticky (h : QueueRun t₀ tr c)
    (hk : Run.Meets (fun x l => l.1.KeepsCritical x.queue l.2) tr) :
    ∀ j ∈ c.queue.jobs, j.status.isActive = true → Owed tr j.id →
      j.Promoted ∧ (j.status.isWaiting = true → j.schedulingTier = 1) := by
  have hst : Sticky tr c := by
    refine h.recorded (R := Sticky) hk ⟨Queue.wellFormed_empty, ?_, ?_⟩
      fun _ _ _ _ hc hr hs => hr.step hc hs
    · exact fun j hj => by cases hj
    · exact fun id _ => Run.not_since_nil
  intro j hj ha ho
  have hp := hst.promoted j hj ha ho
  exact ⟨hp, hp.tier (hst.wellFormed.rows j hj)⟩

/-- An acquisition-critical refresh, and an ordinary observation of it while it waits. -/
def urgentCalls : List (Op × Time) :=
  let urgent : EnqueueArgs := { observation "1" with
    payload := .sourceRefresh
      { source := "mangadex", sourceId := "1", title := "t", url := "u", observationVersion := "1"
        acquisitionCritical := true } }
  [(.enqueue urgent, 0), (.enqueue (observation "2"), 1)]

/-- The flag is gone, and the job is back in the tier of ordinary refreshes. -/
theorem urgentCalls_demoted : ∃ tr c, QueueRun 0 tr c ∧ tr.map Prod.snd = urgentCalls ∧
    ∃ j ∈ c.queue.jobs, j.status.isActive = true ∧ Owed tr j.id ∧ ¬ j.Promoted ∧
      j.schedulingTier = 3 := by
  have hrun := QueueRun.replay 0 urgentCalls (by decide +kernel)
  have hlost : ∃ j ∈ (replay 0 urgentCalls).queue.jobs, j.status.isActive = true ∧ j.id = 1 ∧
      ¬ (j.payload.acquisitionCritical = true ∨
        (j.status = .leased ∧ j.newest.acquisitionCritical = true)) ∧ j.schedulingTier = 3 := by
    decide +kernel
  obtain ⟨j, hj, ha, hid, hp, ht⟩ := hlost
  refine ⟨_, _, hrun, rfl, j, hj, ha, ?_, hp, ht⟩
  refine ⟨[], _, [_], rfl, ⟨_, rfl, rfl, .inr ⟨rfl, rfl, hid⟩⟩, fun y hy => ?_⟩
  obtain rfl := List.mem_singleton.mp hy
  rintro ⟨owner, k, hop, -⟩
  cases hop

/-- Observed while it runs instead, it stays promoted. -/
theorem promotion_sticky_leased : ∃ tr c, QueueRun 0 tr c ∧
    (∃ j ∈ c.queue.jobs, j.status.isActive = true ∧ Owed tr j.id) ∧
    ∀ j ∈ c.queue.jobs, j.status.isActive = true → Owed tr j.id → j.Promoted := by
  let calls : List (Op × Time) := urgentCalls.take 1 ++
    [(.claim {} { owner := "w", leaseFor := 10 }, 1), (.enqueue (observation "2"), 2)]
  have hrun := QueueRun.replay 0 calls (by decide +kernel)
  have hthere : ∃ j ∈ (replay 0 calls).queue.jobs, j.status.isActive = true ∧ j.id = 1 := by
    decide +kernel
  have hleased : ∀ j ∈ (replay 0 (calls.take 2)).queue.jobs, j.status = .leased ∧
      j.payload.acquisitionCritical = true := by decide +kernel
  obtain ⟨j, hj, ha, hid⟩ := hthere
  refine ⟨_, _, hrun, ⟨j, hj, ha, ?_⟩, fun j hj ha ho => (promotion_sticky hrun ?_ j hj ha ho).1⟩
  · refine ⟨[], _, [_, _], rfl, ⟨_, rfl, rfl, .inr ⟨rfl, rfl, hid⟩⟩, ?_⟩
    simp only [List.mem_cons, List.not_mem_nil, or_false, forall_eq_or_imp, forall_eq]
    constructor <;> rintro ⟨owner, k, hop, -⟩ <;> cases hop
  · simp only [calls, urgentCalls, List.take, List.cons_append, List.nil_append, Run.history,
      Run.Meets, List.mem_cons, List.not_mem_nil, or_false, forall_eq_or_imp, forall_eq,
      Op.KeepsCritical, true_and]
    refine ⟨fun e he => (by cases he), fun e he r hacc hp hno => ?_⟩
    obtain ⟨hl, hc⟩ := hleased e he
    rw [hno hl] at hc
    cases hc

end

end MangaManager
