import MangaManager.Queue.Invariant

/-!
# The newest observation of a refresh

A refresh job has two slots: the payload it runs with and, while it is leased, a
pending one for an observation made in the meantime. `Newest m` says that what
the job ends with, if nothing more is coalesced, was observed at `m`.

Two kinds of requests break it. One merged into a waiting job that still carries
a pending payload (kept by `retry`, `release` and `defer`) is compared with the
payload only, so the older pending payload replaces it at the next success. One
that promotes the job to acquisition-critical is not compared at all.
`newest_wins`: without these, the payload of a job that succeeded is the newest
of those enqueued for it.
-/

namespace MangaManager

open Lib

/-- The numeric version of an observation. -/
def JobPayload.observed (p : JobPayload) : Option Dec.Value :=
  (parseDecimal (strip p.observationVersion)).bind Dec.value

/-- `q` is no older than the observation `p`. -/
def NotOlder (p q : JobPayload) : Prop :=
  ∀ v, p.observed = some v → ∃ w, q.observed = some w ∧ v ≤ w

namespace WorkJob

/-- `j` refreshes the source series of the key. -/
def Refreshes (j : WorkJob) (key : String) : Prop := j.kind = .sourceRefresh ∧ j.dedupeKey = key

instance (j : WorkJob) (key : String) : Decidable (j.Refreshes key) :=
  inferInstanceAs (Decidable (_ ∧ _))

/-- The payload the job ends with when nothing more is coalesced. -/
def newest (j : WorkJob) : JobPayload := j.pendingPayload.getD j.payload

/-- Neither slot went back to an older observation. -/
def Advances (j j' : WorkJob) : Prop :=
  NotOlder j.payload j'.payload ∧ NotOlder j.newest j'.newest

end WorkJob

/-- `m` is the newest observation the job was given, and the job will end with it. -/
structure Newest (m : Dec.Value) (j : WorkJob) : Prop where
  payload : ∃ v, j.payload.observed = some v ∧ v ≤ m
  newest : j.newest.observed = some m
  succeeded : j.status = .succeeded → j.pendingPayload = none

/-- The job `enqueue` returns. -/
def Queue.enqueuedId (s : Queue) (a : EnqueueArgs) (now : Time) : Option Nat :=
  (s.enqueue a now).toOption.map fun r => r.2.1

/-- The versions a call enqueues for the job `id`. -/
def Op.observes (op : Op) (s : Queue) (now : Time) (id : Nat) : Set Dec.Value :=
  {v | ∃ a, op = .enqueue a ∧ s.enqueuedId a now = some id ∧ a.payload.observed = some v}

/-- The versions a run enqueued for the job `id`. -/
def enqueuedVersions (tr : List (Clocked × (Op × Time))) (id : Nat) : Set Dec.Value :=
  {v | ∃ x ∈ tr, v ∈ x.2.1.observes x.1.queue x.2.2 id}

/-- The payload of a job that succeeded is the newest enqueued for it, and no step of the run
replaced a payload by an older one. -/
structure NewestWins (key : String) (tr : List (Clocked × (Op × Time))) (c : Clocked) : Prop where
  last : ∀ j ∈ c.queue.jobs, j.Refreshes key → j.status = .succeeded →
    ∃ m, j.payload.observed = some m ∧ IsGreatest (enqueuedVersions tr j.id) m
  advances : ∀ x ∈ tr, ∀ j ∈ x.1.queue.jobs, ∀ j' ∈ (x.2.1.apply x.1.queue x.2.2).jobs,
    j.id = j'.id → j'.Refreshes key → j.Advances j'

/-- Requests for the key coalesce and have a numeric version; its job is not rerouted. -/
def Op.Observing (key : String) (op : Op) (s : Queue) : Prop :=
  match op with
  | enqueue a => Queue.checkEnqueue a = .ok () → a.kind = .sourceRefresh →
      strip a.dedupeKey = key → a.coalesce = true ∧ a.payload.observed.isSome = true
  | reroute jobId _ _ _ _ _ | rerouteWaiting jobId _ _ _ _ =>
    ∀ j ∈ s.jobs, j.id = jobId → ¬ j.Refreshes key
  | _ => True

/-- A promotion is not older than what it is compared with, and what a waiting job accepts is not
newer than its pending payload. -/
def Op.KeepsNewest (key : String) (op : Op) (s : Queue) : Prop :=
  match op with
  | enqueue a => Queue.checkEnqueue a = .ok () → a.kind = .sourceRefresh →
      strip a.dedupeKey = key → ∀ e, s.activeJob a.kind key = some e →
        (isPromotion a e = true → NotOlder e.coalesceBase a.payload) ∧
        (e.status ≠ .leased → ∀ p, e.pendingPayload = some p →
          shouldCoalesce a.kind e.payload a.payload = true → NotOlder a.payload p)
  | _ => True

/-! ## Versions -/

theorem NotOlder.refl (p : JobPayload) : NotOlder p p := fun v h => ⟨v, h, le_rfl⟩

theorem NotOlder.trans {p q r : JobPayload} (h₁ : NotOlder p q) (h₂ : NotOlder q r) :
    NotOlder p r := by
  intro v hv
  obtain ⟨w, hw, hvw⟩ := h₁ v hv
  obtain ⟨x, hx, hwx⟩ := h₂ w hw
  exact ⟨x, hx, hvw.trans hwx⟩

theorem notOlder_iff {p q : JobPayload} {v w : Dec.Value} (hp : p.observed = some v)
    (hq : q.observed = some w) : NotOlder p q ↔ v ≤ w := by
  simp [NotOlder, hp, hq]

/-- Numeric versions are compared, unless the replacement promotes. -/
theorem shouldCoalesce_observed {p q : JobPayload} {v w : Dec.Value} (hp : p.observed = some v)
    (hq : q.observed = some w) : shouldCoalesce .sourceRefresh p q =
      (q.acquisitionCritical && !p.acquisitionCritical || decide (v < w)) := by
  obtain ⟨dp, hdp, hpv⟩ := Option.bind_eq_some_iff.mp hp
  obtain ⟨dq, hdq, hqw⟩ := Option.bind_eq_some_iff.mp hq
  have hne : ∀ {r d}, parseDecimal (strip r) = some d → strip r ≠ "" := fun h e => by
    rw [e] at h
    cases h
  have hor : ¬ (strip p.observationVersion = "" ∨ strip q.observationVersion = "") := by
    simp [hne hdp, hne hdq]
  unfold shouldCoalesce
  by_cases hc : (q.acquisitionCritical && !p.acquisitionCritical) = true
  · simp [hc]
  · rw [if_neg (by decide), if_neg hc]
    simp [hor, hdp, hdq, Dec.gt_eq hqw hpv, hc]

/-! ## The slots of a job -/

section
variable {key : String} {now : Time} {op : Op} {s : Queue} {j j' e : WorkJob} {a : EnqueueArgs}
  {m w : Dec.Value}

theorem WorkJob.Advances.refl (j : WorkJob) : j.Advances j := ⟨.refl _, .refl _⟩

theorem WorkJob.Advances.trans {j'' : WorkJob} (h₁ : j.Advances j') (h₂ : j'.Advances j'') :
    j.Advances j'' := ⟨h₁.1.trans h₂.1, h₁.2.trans h₂.2⟩

theorem Newest.notOlder (h : Newest m j) : NotOlder j.payload j.newest := by
  obtain ⟨v, hv, hle⟩ := h.payload
  exact (notOlder_iff hv h.newest).mpr hle

/-- Calls other than a request or a reroute at most move the pending payload to the payload. -/
theorem Slots.newest_eq (h : Slots op j j') (ha : ∀ a, op ≠ .enqueue a)
    (hr : op.rerouted ≠ some j.id) :
    j'.newest = j.newest ∧ (j'.payload = j.payload ∨ j'.payload = j.newest) := by
  cases h with
  | kept hp hq => exact ⟨by rw [WorkJob.newest, WorkJob.newest, hp, hq], .inl hp⟩
  | requeue _ hp hp' hq' => simp [WorkJob.newest, hp, hp', hq']
  | reroute h _ => exact absurd h hr
  | pending h => exact absurd h (ha _)
  | payload h => exact absurd h (ha _)

theorem Newest.rowStep (h : Newest m j) (hs : RowStep now op j j') (ha : ∀ a, op ≠ .enqueue a)
    (hr : op.rerouted ≠ some j.id) : Newest m j' ∧ j.Advances j' := by
  obtain ⟨hn, hp⟩ := hs.slots.newest_eq ha hr
  have hpay : NotOlder j.payload j'.payload := by
    rcases hp with hp | hp <;> rw [hp]
    · exact .refl _
    · exact h.notOlder
  refine ⟨⟨?_, hn ▸ h.newest, hs.succeeded⟩, hpay, hn ▸ .refl _⟩
  rcases hp with hp | hp <;> rw [hp]
  · exact h.payload
  · exact ⟨m, h.newest, le_rfl⟩

/-! ## A request -/

theorem coalesceInto_refresh (hk : a.kind = .sourceRefresh) : coalesceInto a now e =
    if shouldCoalesce a.kind e.coalesceBase a.payload = true then
      some (storeReplacement a now a.payload 0 (promote a now e)) else none := by
  simp [coalesceInto, replacementFor, hk]

/-- The request becomes the pending payload of a leased job. -/
theorem Newest.pending (h : Newest m e) (hl : e.status = .leased) (hw : a.payload.observed = some w)
    (hle : NotOlder e.newest a.payload) :
    Newest (max w m) (storeReplacement a now a.payload 0 (promote a now e)).1 ∧
      e.Advances (storeReplacement a now a.payload 0 (promote a now e)).1 := by
  obtain ⟨v, hv, hvm⟩ := h.payload
  have hmw : m ≤ w := (notOlder_iff h.newest hw).mp hle
  have hstored : storeReplacement a now a.payload 0 (promote a now e) =
      ({ promote a now e with
          pendingPayload := some a.payload
          logicalUnits := e.logicalUnits + if a.kind = .kavitaSync then 0 else max a.logicalUnits 1 },
        if a.kind = .kavitaSync then 0 else max a.logicalUnits 1) := if_pos hl
  rw [hstored, max_eq_left hmw]
  refine ⟨⟨⟨v, hv, hvm.trans hmw⟩, hw, fun hs => ?_⟩, .refl _, hle⟩
  rw [show e.status = .succeeded from hs] at hl
  cases hl

/-- The request becomes the payload of a waiting job, behind its pending payload if it has one. -/
theorem Newest.replaced (h : Newest m e) (hl : e.status ≠ .leased) (ha : e.status.isActive = true)
    (hw : a.payload.observed = some w) (hle : NotOlder e.payload a.payload)
    (hpend : ∀ p, e.pendingPayload = some p → NotOlder a.payload p) :
    Newest (max w m) (storeReplacement a now a.payload 0 (promote a now e)).1 ∧
      e.Advances (storeReplacement a now a.payload 0 (promote a now e)).1 := by
  have hdone : e.status ≠ .succeeded := fun hs => by
    rw [hs] at ha
    cases ha
  unfold storeReplacement
  rw [if_neg (show (promote a now e).status ≠ .leased from hl)]
  cases hp : e.pendingPayload with
  | none =>
    have hnew : e.newest = e.payload := by rw [WorkJob.newest, hp, Option.getD_none]
    have hmw : m ≤ w := (notOlder_iff h.newest hw).mp (hnew ▸ hle)
    rw [max_eq_left hmw]
    refine ⟨⟨⟨w, hw, le_rfl⟩, ?_, fun hs => absurd hs hdone⟩, hle, ?_⟩
    · simpa [WorkJob.newest, promote, hp] using hw
    · simpa [WorkJob.newest, promote, hp] using hle
  | some p =>
    have hnew : e.newest = p := by rw [WorkJob.newest, hp, Option.getD_some]
    have hwm : w ≤ m := (notOlder_iff hw (hnew ▸ h.newest)).mp (hpend p hp)
    rw [max_eq_right hwm]
    refine ⟨⟨⟨w, hw, hwm⟩, ?_, fun hs => absurd hs hdone⟩, hle, ?_⟩
    · simpa [WorkJob.newest, promote, hp] using hnew ▸ h.newest
    · simpa [WorkJob.newest, promote, hp] using NotOlder.refl p

/-- A request is no newer than what the job has, or the job takes it. -/
theorem Newest.request (h : Newest m e) (now : Time) (hk : a.kind = .sourceRefresh)
    (ha : e.status.isActive = true) (hw : a.payload.observed = some w)
    (hpro : isPromotion a e = true → NotOlder e.coalesceBase a.payload)
    (hwait : e.status ≠ .leased → ∀ p, e.pendingPayload = some p →
      shouldCoalesce a.kind e.payload a.payload = true → NotOlder a.payload p) :
    match coalesceInto a now e with
    | none => w ≤ m
    | some (e', _) => Newest (max w m) e' ∧ e.Advances e' := by
  obtain ⟨v, hv, hvm⟩ := h.payload
  -- the version the request is compared with
  obtain ⟨b, hb, hbm⟩ : ∃ b, e.coalesceBase.observed = some b ∧ b ≤ m := by
    unfold WorkJob.coalesceBase
    split
    · exact ⟨m, h.newest, le_rfl⟩
    · exact ⟨v, hv, hvm⟩
  have hsh : shouldCoalesce a.kind e.coalesceBase a.payload =
      (isPromotion a e || decide (b < w)) := by
    rw [hk, shouldCoalesce_observed hb hw]
    simp [isPromotion, hk]
  rw [coalesceInto_refresh hk]
  by_cases hacc : shouldCoalesce a.kind e.coalesceBase a.payload = true
  · rw [if_pos hacc]
    have hle : NotOlder e.coalesceBase a.payload := by
      rw [hsh, Bool.or_eq_true, decide_eq_true_eq] at hacc
      rcases hacc with hp | hlt
      · exact hpro hp
      · exact (notOlder_iff hb hw).mpr hlt.le
    by_cases hl : e.status = .leased
    · rw [WorkJob.coalesceBase, if_pos hl] at hle
      exact h.pending hl hw hle
    · rw [WorkJob.coalesceBase, if_neg hl] at hle hacc
      exact h.replaced hl ha hw hle fun p hp => hwait hl p hp hacc
  · rw [if_neg hacc]
    rw [hsh, Bool.or_eq_true, decide_eq_true_eq, not_or, not_lt] at hacc
    exact hacc.2.trans hbm

/-! ## Calls -/

theorem Op.observes_none (h : ∀ a, op ≠ .enqueue a) (id : Nat) : op.observes s now id = ∅ :=
  Set.eq_empty_of_forall_notMem fun _ ⟨a, ha, _⟩ => h a ha

/-- An accepted request observes its version, for the job it returns. -/
theorem Op.observes_self {id : Nat} (h : s.enqueuedId a now = some id)
    (hw : a.payload.observed = some w) : (Op.enqueue a).observes s now id = {w} := by
  ext v
  rw [Set.mem_singleton_iff]
  constructor
  · rintro ⟨a', ha, -, hv⟩
    cases ha
    exact Option.some.inj (hv.symm.trans hw)
  · rintro rfl
    exact ⟨a, rfl, h, hw⟩

theorem Op.observes_of_ne {id : Nat} (h : s.enqueuedId a now ≠ some id) :
    (Op.enqueue a).observes s now id = ∅ := by
  refine Set.eq_empty_of_forall_notMem ?_
  rintro v ⟨a', ha, he, -⟩
  cases ha
  exact h he

/-- The row `j'` of the key comes from the row `j`. -/
structure CameFrom (key : String) (s : Queue) (j j' : WorkJob) : Prop where
  mem : j ∈ s.jobs
  id : j.id = j'.id
  refreshes : j.Refreshes key
  advances : j.Advances j'

/-- A row of the key after a call that enqueued the versions `V` for it. -/
inductive FromRow (key : String) (s : Queue) (V : Set Dec.Value) (j' : WorkJob) : Prop where
  | kept {j : WorkJob} : CameFrom key s j j' → V = ∅ → (∀ m, Newest m j → Newest m j') →
      FromRow key s V j'
  | observed {j : WorkJob} {w : Dec.Value} : CameFrom key s j j' → V = {w} →
      (∀ m, Newest m j → Newest (max w m) j') → FromRow key s V j'
  | inserted {w : Dec.Value} : j'.id = s.nextJob → V = {w} → Newest w j' → FromRow key s V j'

theorem CameFrom.refl (hj : j ∈ s.jobs) (hk : j.Refreshes key) : CameFrom key s j j :=
  ⟨hj, rfl, hk, .refl j⟩

/-- A request keeps every job of the key at its newest observation. -/
theorem newest_enqueue (hw : s.WellFormed)
    (hobs : (Op.enqueue a).Observing key s) (hkeep : (Op.enqueue a).KeepsNewest key s)
    (hM : ∀ j ∈ s.jobs, j.Refreshes key → ∃ m, Newest m j) :
    ∀ j' ∈ ((Op.enqueue a).apply s now).jobs, j'.Refreshes key →
      FromRow key s ((Op.enqueue a).observes s now j'.id) j' := by
  intro j' hj' hk
  simp only [Op.apply] at hj'
  cases hc : Queue.checkEnqueue a with
  | error err =>
    have henq : s.enqueue a now = .error err := by simp [Queue.enqueue, hc]
    have hid : s.enqueuedId a now = none := by rw [Queue.enqueuedId, henq]; rfl
    rw [henq] at hj'
    exact .kept (.refl hj' hk) (Op.observes_of_ne (by simp [hid])) fun _ => id
  | ok =>
    cases he : s.activeJob a.kind (strip a.dedupeKey) with
    | none =>
      have henq : s.enqueue a now = .ok (s.enqueueNew a now, s.nextJob, true) := by
        simp [Queue.enqueue, hc, he]
      have hid : s.enqueuedId a now = some s.nextJob := by rw [Queue.enqueuedId, henq]; rfl
      rw [henq] at hj'
      simp only [committed, Queue.enqueueNew_jobs, List.mem_append, List.mem_singleton] at hj'
      rcases hj' with hj' | rfl
      · have hne : s.enqueuedId a now ≠ some j'.id := by
          rw [hid]
          exact fun h => (hw.jobsBelow j' hj').ne' (Option.some.inj h)
        exact .kept (.refl hj' hk) (Op.observes_of_ne hne) fun _ => id
      · obtain ⟨-, hnum⟩ := hobs hc hk.1 hk.2
        obtain ⟨w, hw⟩ := Option.isSome_iff_exists.mp hnum
        exact .inserted rfl (Op.observes_self hid hw) ⟨⟨w, hw, le_rfl⟩, hw, fun h => (by cases h)⟩
    | some e =>
      obtain ⟨hm, hek, hed, ha⟩ := Queue.activeJob_some he
      obtain ⟨e', n, hedit, hs⟩ := Queue.enqueueExisting_edit now hc he
      have hsame := (RowStep.edit hedit).sameJob
      have henq : s.enqueue a now = .ok (s.enqueueExisting a e now, e.id, false) := by
        simp [Queue.enqueue, hc, he]
      have hid : s.enqueuedId a now = some e'.id := by
        rw [Queue.enqueuedId, henq, hsame.id]
        rfl
      rw [henq] at hj'
      simp only [committed, hs] at hj'
      rcases Table.mem_put.mp hj' with ⟨rfl, -⟩ | ⟨hj', hne⟩
      · -- the job that takes the request
        have hk' : e.Refreshes key := ⟨hsame.kind ▸ hk.1, hsame.dedupeKey ▸ hk.2⟩
        have hkind : a.kind = .sourceRefresh := hek ▸ hk'.1
        have hkey : strip a.dedupeKey = key := hed ▸ hk'.2
        obtain ⟨hco, hnum⟩ := hobs hc hkind hkey
        obtain ⟨w, hw⟩ := Option.isSome_iff_exists.mp hnum
        obtain ⟨hpro, hwait⟩ := hkeep hc hkind hkey e (hkey ▸ he)
        have hre : ∀ m, Newest m e → Newest m (e.repool a.routedPool now) :=
          fun m h => ⟨h.payload, h.newest, h.succeeded⟩
        have hreq := fun m h => (hre m h).request now hkind ha hw hpro hwait
        have hV := Op.observes_self hid hw
        obtain ⟨m, hm'⟩ := hM e hm hk'
        cases hedit with
        | touch _ _ _ hno =>
          have hi := hno.resolve_left (by simp [hco])
          refine .observed ⟨hm, rfl, hk', .refl _⟩ hV fun m h => ?_
          have hle := hreq m h
          rw [hi] at hle
          rw [max_eq_right hle]
          exact hre m h
        | coalesce _ _ _ _ _ hi =>
          rw [hi] at hreq
          exact .observed ⟨hm, hsame.id.symm, hk', (hreq m hm').2⟩ hV fun m h => (hreq m h).1
      · have hne' : s.enqueuedId a now ≠ some j'.id := by
          rw [hid]
          exact fun h => hne (Option.some.inj h).symm
        exact .kept (.refl hj' hk) (Op.observes_of_ne hne') fun _ => id

/-- Other calls do. -/
theorem newest_other (hw : s.WellFormed) (ha : ∀ a, op ≠ .enqueue a)
    (hobs : op.Observing key s) (hM : ∀ j ∈ s.jobs, j.Refreshes key → ∃ m, Newest m j) :
    ∀ j' ∈ (op.apply s now).jobs, j'.Refreshes key →
      ∃ j, CameFrom key s j j' ∧ ∀ m, Newest m j → Newest m j' := by
  refine Op.apply_inv_of (C := fun q => op.Observing key q)
    (P := fun q => ∀ j' ∈ q.jobs, j'.Refreshes key →
      ∃ j, CameFrom key s j j' ∧ ∀ m, Newest m j → Newest m j') hw
    (fun j hj hk => ⟨j, .refl hj hk, fun _ => id⟩) hobs
    (fun hsweep q => by cases op <;> trivial) ?_
  intro q q' hoq _ hq ht j'' hj'' hk
  rcases ht.jobs_cases with ⟨hjobs, -⟩ | ⟨a, hop, -⟩ | ⟨j', j₁, hj', hstep, hjobs, -⟩
  · exact hq j'' (hjobs ▸ hj'') hk
  · exact absurd hop (ha a)
  · rw [hjobs] at hj''
    rcases Table.mem_put.mp hj'' with ⟨rfl, -⟩ | ⟨hj'', -⟩
    · have hsame := hstep.sameJob
      have hk' : j'.Refreshes key := ⟨hsame.kind ▸ hk.1, hsame.dedupeKey ▸ hk.2⟩
      obtain ⟨j, hfrom, hnew⟩ := hq j' hj' hk'
      have hre : op.rerouted ≠ some j'.id := by
        intro h
        cases op with
        | reroute => exact hoq j' hj' (Option.some.inj h).symm hk'
        | rerouteWaiting => exact hoq j' hj' (Option.some.inj h).symm hk'
        | _ => cases h
      have hrow := fun m hm => (hnew m hm).rowStep hstep ha hre
      obtain ⟨m, hm⟩ := hM j hfrom.mem hfrom.refreshes
      exact ⟨j, ⟨hfrom.mem, hfrom.id.trans hsame.id.symm, hfrom.refreshes,
        hfrom.advances.trans (hrow m hm).2⟩, fun m hm => (hrow m hm).1⟩
    · exact hq j'' hj'' hk

theorem Op.newest (op : Op) (now : Time) (hw : s.WellFormed)
    (hobs : op.Observing key s) (hkeep : op.KeepsNewest key s)
    (hM : ∀ j ∈ s.jobs, j.Refreshes key → ∃ m, Newest m j) :
    ∀ j' ∈ (op.apply s now).jobs, j'.Refreshes key →
      FromRow key s (op.observes s now j'.id) j' := by
  by_cases ha : ∃ a, op = .enqueue a
  · obtain ⟨a, rfl⟩ := ha
    exact newest_enqueue hw hobs hkeep hM
  · intro j' hj' hk
    have ha : ∀ a, op ≠ .enqueue a := fun a h => ha ⟨a, h⟩
    obtain ⟨j, hfrom, hnew⟩ := newest_other hw ha hobs hM j' hj' hk
    exact .kept hfrom (Op.observes_none ha _) hnew

end

/-! ## Runs -/

section
variable {t₀ : Time} {tr : List (Clocked × (Op × Time))} {c : Clocked} {key : String} {id : Nat}

theorem enqueuedVersions_snoc {l : Op × Time} : enqueuedVersions (tr ++ [(c, l)]) id =
    enqueuedVersions tr id ∪ l.1.observes c.queue l.2 id := by
  ext v
  simp [enqueuedVersions, or_and_right, exists_or]

/-- The job of every row of the key is at the newest version enqueued for it; nothing was enqueued
for a job that is yet to come. -/
structure Recorded (key : String) (tr : List (Clocked × (Op × Time))) (c : Clocked) : Prop where
  wellFormed : c.queue.WellFormed
  newest : ∀ j ∈ c.queue.jobs, j.Refreshes key → ∃ m, IsGreatest (enqueuedVersions tr j.id) m ∧
    Newest m j
  fresh : ∀ id, c.queue.nextJob ≤ id → enqueuedVersions tr id = ∅
  advances : ∀ x ∈ tr, ∀ j ∈ x.1.queue.jobs, ∀ j' ∈ (x.2.1.apply x.1.queue x.2.2).jobs,
    j.id = j'.id → j'.Refreshes key → j.Advances j'

/-- The job a call enqueues for is there after the call. -/
theorem Op.observes_fresh {op : Op} {now : Time} {s : Queue} (hw : s.WellFormed)
    (hid : (op.apply s now).nextJob ≤ id) : op.observes s now id = ∅ := by
  refine Set.eq_empty_of_forall_notMem ?_
  rintro v ⟨a, rfl, he, -⟩
  revert he hid
  simp only [Op.apply, Queue.enqueuedId, Queue.enqueue]
  cases Queue.checkEnqueue a with
  | error => simp [Except.toOption]
  | ok =>
    cases hj : s.activeJob a.kind (strip a.dedupeKey) with
    | none =>
      simp only [committed, Queue.enqueueNew_nextJob]
      intro hid he
      have he := Option.some.inj he
      simp only at he
      omega
    | some e =>
      have hlt := hw.jobsBelow e (Queue.activeJob_some hj).1
      have hnext : (s.enqueueExisting a e now).nextJob = s.nextJob := by
        unfold Queue.enqueueExisting
        dsimp only
        split <;> rfl
      simp only [committed, hnext]
      intro hid he
      have he := Option.some.inj he
      simp only at he
      omega

theorem Op.nextJob_le (op : Op) (now : Time) {s : Queue} (hw : s.WellFormed) :
    s.nextJob ≤ (op.apply s now).nextJob := by
  refine Op.apply_inv (P := fun q => s.nextJob ≤ q.nextJob) op now hw.jobs ?_ le_rfl
  intro q q' hle ht
  rcases ht.jobs_cases with ⟨-, h⟩ | ⟨a, -, -, -, rfl⟩ | ⟨j, j', -, -, -, h⟩
  · rwa [h]
  · rw [Queue.enqueueNew_nextJob]
    omega
  · rwa [h]

theorem Recorded.step {c' : Clocked} {l : Op × Time} (h : Recorded key tr c)
    (hobs : l.1.Observing key c.queue) (hkeep : l.1.KeepsNewest key c.queue)
    (hs : QueueStep c l c') : Recorded key (tr ++ [(c, l)]) c' := by
  obtain ⟨-, rfl⟩ := hs
  have hw := h.wellFormed
  have hM : ∀ j ∈ c.queue.jobs, j.Refreshes key → ∃ m, Newest m j :=
    fun j hj hk => (h.newest j hj hk).imp fun _ h => h.2
  have hrows := l.1.newest l.2 hw hobs hkeep hM
  refine ⟨Op.apply_wellFormed _ _ hw, ?_, ?_, ?_⟩
  · intro j' hj' hk
    rw [enqueuedVersions_snoc]
    cases hrows j' hj' hk with
    | kept hfrom hV hnew =>
      obtain ⟨m, hg, hm⟩ := h.newest _ hfrom.mem hfrom.refreshes
      rw [hV, Set.union_empty, ← hfrom.id]
      exact ⟨m, hg, hnew m hm⟩
    | @observed j w hfrom hV hnew =>
      obtain ⟨m, hg, hm⟩ := h.newest _ hfrom.mem hfrom.refreshes
      rw [hV, Set.union_comm, ← Set.insert_eq, ← hfrom.id]
      exact ⟨max w m, hg.insert w, hnew m hm⟩
    | @inserted w hid hV hnew =>
      rw [hV, h.fresh _ hid.ge, Set.empty_union]
      exact ⟨w, isGreatest_singleton, hnew⟩
  · intro id hid
    have hle := l.1.nextJob_le l.2 hw
    rw [enqueuedVersions_snoc, h.fresh id (hle.trans hid), Op.observes_fresh hw hid, Set.union_empty]
  · intro x hx
    rcases List.mem_append.mp hx with hx | hx
    · exact h.advances x hx
    · obtain rfl := List.mem_singleton.mp hx
      intro j hj j' hj' hid hk
      have hfrom : ∀ {i}, CameFrom key c.queue i j' → j.Advances j' := fun hf =>
        hw.jobs.eq hf.mem hj (hf.id.trans hid.symm) ▸ hf.advances
      cases hrows j' hj' hk with
      | kept hf _ _ => exact hfrom hf
      | observed hf _ _ => exact hfrom hf
      | inserted hnext _ _ => exact absurd (hid.trans hnext) (hw.jobsBelow j hj).ne

/-- Where requests for the key keep its job at the newest observation, the newest wins. -/
theorem newest_wins (h : QueueRun t₀ tr c)
    (hobs : Run.Meets (fun x l => l.1.Observing key x.queue) tr)
    (hkeep : Run.Meets (fun x l => l.1.KeepsNewest key x.queue) tr) : NewestWins key tr c := by
  have hrec : Recorded key tr c := by
    refine h.recorded (R := Recorded key)
      (C := fun x l => l.1.Observing key x.queue ∧ l.1.KeepsNewest key x.queue)
      (fun x hx => ⟨hobs x hx, hkeep x hx⟩) ⟨Queue.wellFormed_empty, ?_, ?_, ?_⟩
      fun _ _ _ _ hc hr hs => hr.step hc.1 hc.2 hs
    · exact fun j hj => by cases hj
    · simp [enqueuedVersions]
    · exact fun x hx => by cases hx
  refine ⟨fun j hj hk hs => ?_, hrec.advances⟩
  obtain ⟨m, hg, hm⟩ := hrec.newest j hj hk
  refine ⟨m, ?_, hg⟩
  have hnew := hm.newest
  rwa [WorkJob.newest, hm.succeeded hs, Option.getD_none] at hnew

/-- A refresh that coalesces, seen at the version. -/
def observation (v : String) : EnqueueArgs :=
  { kind := .sourceRefresh, dedupeKey := "k", coalesce := true
    payload := .sourceRefresh
      { source := "mangadex", sourceId := "1", title := "t", url := "u", observationVersion := v } }

/-- A refresh observed twice while it runs and while it waits to be retried. -/
def retriedCalls : List (Op × Time) :=
  let claim : Op := .claim {} { owner := "w", leaseFor := 10 }
  [(.enqueue (observation "1"), 0), (claim, 1), (.enqueue (observation "2"), 2),
    (.retry 1 "w" 3 "error" "", 3), (.enqueue (observation "3"), 4), (claim, 5), (.succeed 1 "w", 6),
    (claim, 7), (.succeed 1 "w", 8)]

/-- It succeeds with the second observation, though a third was enqueued. -/
theorem retriedCalls_older : ∃ tr c, QueueRun 0 tr c ∧ tr.map Prod.snd = retriedCalls ∧
    Run.Meets (fun x l => l.1.Observing "k" x.queue) tr ∧ ¬ NewestWins "k" tr c := by
  refine ⟨_, _, QueueRun.replay 0 retriedCalls (by decide +kernel), rfl, ?_, fun h => ?_⟩
  · simp only [retriedCalls, Run.history, Run.Meets, List.mem_cons, List.not_mem_nil, or_false,
      forall_eq_or_imp, forall_eq, Op.Observing, and_true, true_and]
    exact ⟨fun _ _ _ => ⟨rfl, by decide +kernel⟩, fun _ _ _ => ⟨rfl, by decide +kernel⟩,
      fun _ _ _ => ⟨rfl, by decide +kernel⟩⟩
  · have hlast : ∃ j ∈ (replay 0 retriedCalls).queue.jobs, j.Refreshes "k" ∧
        j.status = .succeeded ∧ j.id = 1 ∧ j.payload = (observation "2").payload := by
      decide +kernel
    obtain ⟨j, hj, hk, hs, hid, hp⟩ := hlast
    obtain ⟨m, hm, hg⟩ := h.last j hj hk hs
    have hsecond : (observation "2").payload.observed = (Dec.finite 2).value := by decide +kernel
    have hthird : (observation "3").payload.observed = (Dec.finite 3).value := by decide +kernel
    have hin : (replay 0 (retriedCalls.take 4), (Op.enqueue (observation "3"), 4)) ∈
        Run.history Clocked.call ⟨{}, 0⟩ retriedCalls := by
      simp [retriedCalls, Run.history, replay]
    have hle := hg.2 ⟨_, hin, observation "3", rfl, by rw [hid]; decide +kernel, hthird⟩
    rw [hp, hsecond] at hm
    obtain rfl := Option.some.inj hm
    exact absurd hle (by decide +kernel)

/-- A refresh observed again while it runs wins with the second observation. -/
theorem newest_wins_twice : ∃ tr c, QueueRun 0 tr c ∧ NewestWins "k" tr c ∧
    ∃ j ∈ c.queue.jobs, j.Refreshes "k" ∧ j.status = .succeeded ∧
      j.payload = (observation "2").payload := by
  let claim : Op := .claim {} { owner := "w", leaseFor := 10 }
  let calls : List (Op × Time) :=
    [(.enqueue (observation "1"), 0), (claim, 1), (.enqueue (observation "2"), 2),
      (.succeed 1 "w", 3), (claim, 4), (.succeed 1 "w", 5)]
  have hrun := QueueRun.replay 0 calls (by decide +kernel)
  have hleased : ∀ e, (replay 0 (calls.take 2)).queue.activeJob .sourceRefresh "k" = some e →
      e.status = .leased := by
    have hall : ((replay 0 (calls.take 2)).queue.activeJob .sourceRefresh "k").all
        (fun e => e.status = .leased) = true := by decide +kernel
    exact fun e he => of_decide_eq_true ((Option.all_eq_true _ _).mp hall e he)
  refine ⟨_, _, hrun, newest_wins hrun ?_ ?_, by decide +kernel⟩
  · simp only [calls, Run.history, Run.Meets, List.mem_cons, List.not_mem_nil, or_false,
      forall_eq_or_imp, forall_eq, Op.Observing, and_true, true_and, claim]
    exact ⟨fun _ _ _ => ⟨rfl, by decide +kernel⟩, fun _ _ _ => ⟨rfl, by decide +kernel⟩⟩
  · simp only [calls, Run.history, Run.Meets, List.mem_cons, List.not_mem_nil, or_false,
      forall_eq_or_imp, forall_eq, Op.KeepsNewest, and_true, true_and, claim]
    refine ⟨fun _ _ _ e he => (by cases he), fun _ _ _ e he => ⟨fun hp => ?_, fun hl => ?_⟩⟩
    · cases hp
    · exact absurd (hleased e he) hl

end

end MangaManager
