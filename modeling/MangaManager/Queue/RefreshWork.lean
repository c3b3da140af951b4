import MangaManager.Queue.RefreshReconcile

/-!
# The newest work of the refresh queue

What `RefreshQueueReconciler` does to the active refresh jobs of one source series. The jobs
under other keys than the canonical one are repaired in their rows or give their payload to the
job with the canonical key; `RefreshSlot` is that job as the reconciler reads and writes it, and
`slotAfter` what it holds when some rows have been repaired. `Progress` ties the queue to it.
-/

namespace MangaManager

open Lib

/-- The `(source, source_id)` that a payload is about. -/
def JobPayload.listing (p : JobPayload) : String × String := (p.source?.getD "", p.sourceId)

/-- The key under which the reconciler enqueues. -/
def refreshKey (i : String × String) : String := strip ("refresh:" ++ i.1 ++ ":" ++ i.2)

/-- The payload validates apart from its version and has a numeric observation version. -/
structure JobPayload.Refreshable (p : JobPayload) : Prop where
  kind : p.kind = .sourceRefresh
  valid : p.normalized.validate = true
  observed : p.observed.isSome = true

namespace WorkJob

/-- The job has another key than the canonical one of its series. -/
def offKey (j : WorkJob) : Bool := j.dedupeKey != refreshKey j.payload.listing

/-- The job is cancelled and enqueued again. -/
def rebuilt (j : WorkJob) : Bool := !j.compatible && j.status != .leased

end WorkJob

/-! ## A job as the reconciler sees it -/

structure RefreshSlot where
  leased : Bool
  payload : JobPayload
  pending : Option JobPayload
  placed : Bool
  deriving DecidableEq

namespace RefreshSlot

/-- The payload that a request is compared with. -/
def base (x : RefreshSlot) : JobPayload := if x.leased then x.pending.getD x.payload else x.payload

/-- A request for the job. -/
def take (x : RefreshSlot) (p : JobPayload) : RefreshSlot :=
  if shouldCoalesce .sourceRefresh x.base p then
    if x.leased then { x with pending := some p } else { x with payload := p }
  else x

/-- The job that the rebuild of `j` inserts. -/
def inserted (j : WorkJob) (p : JobPayload) : RefreshSlot :=
  { leased := false, payload := p, pending := none
    placed := strip j.durableWorkflow != "" || p.workflowKey != "" }

/-- The repair of the row `j`, whose job now holds `x`. -/
def repair (x : RefreshSlot) (j : WorkJob) : RefreshSlot :=
  match j.refreshAction.1 with
  | .blocked | .preserve => x
  | .deferRebuild => { x with pending := some x.payload.normalized }
  | .rebuild => inserted j x.payload.normalized
  | .regroup | .upgrade => { x with payload := x.payload.normalized, placed := true }

end RefreshSlot

def WorkJob.slot (j : WorkJob) : RefreshSlot :=
  { leased := j.status == .leased, payload := j.payload, pending := j.pendingPayload
    placed := j.workflowKey != "" && j.groupKey != "" }

/-- The job with the canonical key of `i` after the repair of one row. -/
def slotStep (i : String × String) (o : Option RefreshSlot) (j : WorkJob) : Option RefreshSlot :=
  if j.payload.listing ≠ i then o
  else if j.offKey = false then o.map (·.repair j)
  else if j.rebuilt then
    some (match o with
      | none => .inserted j j.payload.normalized
      | some x => x.take j.payload.normalized)
  else o

/-- The row of a job under another key, after its repair. -/
def WorkJob.repaired (j : WorkJob) : WorkJob :=
  match j.refreshAction.1 with
  | .deferRebuild => j.deferred j.payload.normalized
  | .regroup | .upgrade => j.upgraded j.payload.normalized
  | _ => j

/-! ## Payloads -/

section
variable {p q : JobPayload} {j : WorkJob}

theorem JobPayload.normalized_fields (p : JobPayload) : p.normalized.kind = p.kind ∧
    p.normalized.listing = p.listing ∧ p.normalized.observed = p.observed ∧
    p.normalized.acquisitionCritical = p.acquisitionCritical ∧
    p.normalized.workflowKey = p.workflowKey ∧ p.normalized.normalized = p.normalized := by
  cases p <;> exact ⟨rfl, rfl, rfl, rfl, rfl, rfl⟩

theorem JobPayload.Refreshable.normalize (h : p.Refreshable) : p.normalize = some p.normalized :=
  if_pos ⟨h.kind, h.valid⟩

theorem JobPayload.Refreshable.normalized (h : p.Refreshable) : p.normalized.Refreshable := by
  obtain ⟨hk, -, ho, -, -, hn⟩ := p.normalized_fields
  exact ⟨hk.trans h.kind, by rw [hn]; exact h.valid, by rw [ho]; exact h.observed⟩

theorem JobPayload.Refreshable.version (h : p.Refreshable) :
    p.normalized.version = .number 3 := by
  obtain ⟨hk, -, -⟩ := h
  cases p with
  | sourceRefresh p => rfl
  | _ => cases hk

/-- What is done with the row of a refreshable payload. -/
theorem WorkJob.refreshAction_eq (h : j.payload.Refreshable) : j.refreshAction.1 =
    if j.compatible = false then (if j.status = .leased then .deferRebuild else .rebuild)
    else if j.workflowKey = "" ∨ j.groupKey = "" then .regroup
    else if j.payload.version.read < 3 then .upgrade else .preserve := by
  unfold refreshAction
  simp only [h.normalize, reduceCtorEq, if_false]
  split
  · rfl
  · split
    · rfl
    · split <;> rfl

theorem WorkJob.rebuilt_iff (h : j.payload.Refreshable) :
    j.rebuilt = true ↔ j.refreshAction.1 = .rebuild := by
  rw [WorkJob.refreshAction_eq h, WorkJob.rebuilt]
  by_cases hc : j.compatible = false
  · by_cases hl : j.status = .leased <;> simp [hc, hl]
  · simp only [if_neg hc, Bool.not_eq_false] at hc ⊢
    simp only [hc, Bool.not_true, Bool.false_and, Bool.false_eq_true, false_iff]
    split
    · nofun
    · split <;> nofun

end

/-! ## The active rows -/

namespace Queue

/-- What the tables' constraints promise. -/
structure RefreshTables (s : Queue) : Prop where
  jobs : Table.Keyed WorkJob.id s.jobs
  jobsBelow : ∀ j ∈ s.jobs, j.id < s.nextJob
  oneActive : ∀ j ∈ s.jobs, ∀ k ∈ s.jobs, j.status.isActive = true → k.status.isActive = true →
    j.kind = k.kind → j.dedupeKey = k.dedupeKey → j = k
  ceiling : ∀ j ∈ s.jobs, 1 ≤ j.maxAttempts

/-- `x` is an active refresh job. -/
def Refreshing (s : Queue) (x : WorkJob) : Prop := x ∈ s.jobs ∧ x.activeRefresh = true

end Queue

section
variable {s s' : Queue} {j e r r' x y : WorkJob} {p : JobPayload} {now : Time}

theorem WorkJob.activeRefresh_iff :
    j.activeRefresh = true ↔ j.kind = .sourceRefresh ∧ j.status.isActive = true := by
  rw [WorkJob.activeRefresh, Bool.and_eq_true, beq_iff_eq]

theorem Queue.RefreshTables.key_eq (h : s.RefreshTables) (hx : s.Refreshing x)
    (hy : s.Refreshing y) (hk : x.dedupeKey = y.dedupeKey) : x = y := by
  obtain ⟨hxk, hxa⟩ := WorkJob.activeRefresh_iff.mp hx.2
  obtain ⟨hyk, hya⟩ := WorkJob.activeRefresh_iff.mp hy.2
  exact h.oneActive x hx.1 y hy.1 hxa hya (hxk.trans hyk.symm) hk

/-- The row of an active refresh is written, and its key and its state stay. -/
theorem Queue.RefreshTables.put (h : s.RefreshTables) (s' : Queue) (hr : s.Refreshing r)
    (hs : s'.jobs = Table.put WorkJob.id s.jobs r') (hn : s'.nextJob = s.nextJob)
    (hid : r'.id = r.id) (hkind : r'.kind = r.kind) (hkey : r'.dedupeKey = r.dedupeKey)
    (hst : r'.status = r.status) (hmax : 1 ≤ r'.maxAttempts) :
    s'.RefreshTables ∧ ∀ x, s'.Refreshing x ↔ x = r' ∨ (s.Refreshing x ∧ x.id ≠ r.id) := by
  have hmem : ∀ {x}, x ∈ s'.jobs ↔ x = r' ∨ (x ∈ s.jobs ∧ x.id ≠ r.id) := by
    intro x
    rw [hs, Table.mem_put, hid]
    exact or_congr_left ⟨fun h => h.1, fun h => ⟨h, r, hr.1, rfl⟩⟩
  have hra : r'.activeRefresh = true := by
    rw [WorkJob.activeRefresh, hkind, hst]
    exact hr.2
  refine ⟨⟨by rw [hs]; exact Table.keyed_put.mpr h.jobs, fun x hx => ?_, ?_, fun x hx => ?_⟩,
    fun x => ?_⟩
  · rw [hn]
    rcases hmem.mp hx with rfl | ⟨hx, -⟩
    · rw [hid]
      exact h.jobsBelow r hr.1
    · exact h.jobsBelow x hx
  · -- each row stands for the row of its id before
    have hold : ∀ {x}, x ∈ s'.jobs → ∃ x₀ ∈ s.jobs, x₀.id = x.id ∧ x₀.kind = x.kind ∧
        x₀.dedupeKey = x.dedupeKey ∧ x₀.status = x.status := by
      intro x hx
      rcases hmem.mp hx with rfl | ⟨hx, -⟩
      · exact ⟨r, hr.1, hid.symm, hkind.symm, hkey.symm, hst.symm⟩
      · exact ⟨x, hx, rfl, rfl, rfl, rfl⟩
    intro x hx y hy hxa hya hk hd
    obtain ⟨x₀, hx₀, hxi, hxk, hxd, hxs⟩ := hold hx
    obtain ⟨y₀, hy₀, hyi, hyk, hyd, hys⟩ := hold hy
    have heq := h.oneActive x₀ hx₀ y₀ hy₀ (hxs ▸ hxa) (hys ▸ hya) (by rw [hxk, hyk, hk])
      (by rw [hxd, hyd, hd])
    have hids : x.id = y.id := by rw [← hxi, ← hyi, heq]
    exact (show Table.Keyed WorkJob.id s'.jobs by rw [hs]; exact Table.keyed_put.mpr h.jobs).eq
      hx hy hids
  · rcases hmem.mp hx with rfl | ⟨hx, -⟩
    · exact hmax
    · exact h.ceiling x hx
  · simp only [Queue.Refreshing, hmem]
    constructor
    · rintro ⟨rfl | hx, ha⟩
      · exact .inl rfl
      · exact .inr ⟨⟨hx.1, ha⟩, hx.2⟩
    · rintro (rfl | ⟨⟨hx, ha⟩, hne⟩)
      · exact ⟨.inl rfl, hra⟩
      · exact ⟨.inr ⟨hx, hne⟩, ha⟩

/-- The job is cancelled. -/
theorem Queue.RefreshTables.cancel (h : s.RefreshTables) (hr : s.Refreshing r) (reason : String)
    (now : Time) :
    (s.cancel r.id reason now).1.RefreshTables ∧
      ∀ x, (s.cancel r.id reason now).1.Refreshing x ↔ s.Refreshing x ∧ x.id ≠ r.id := by
  have hsel : s.selectActive r.id = some r := by
    rw [Queue.selectActive, Queue.job?_eq h.jobs hr.1, Option.filter_some, if_pos]
    exact (WorkJob.activeRefresh_iff.mp hr.2).2
  have hjobs : (s.cancel r.id reason now).1.jobs =
      Table.put WorkJob.id s.jobs (r.cancel reason now) := by
    simp only [Queue.cancel, hsel]
    rfl
  have hnext : (s.cancel r.id reason now).1.nextJob = s.nextJob := by
    simp only [Queue.cancel, hsel]
    rfl
  generalize (s.cancel r.id reason now).1 = s' at hjobs hnext ⊢
  have hmem : ∀ {x}, x ∈ s'.jobs ↔ x = r.cancel reason now ∨ (x ∈ s.jobs ∧ x.id ≠ r.id) := by
    intro x
    rw [hjobs, Table.mem_put]
    exact or_congr_left ⟨fun h => h.1, fun h => ⟨h, r, hr.1, rfl⟩⟩
  refine ⟨⟨by rw [hjobs]; exact Table.keyed_put.mpr h.jobs, fun x hx => ?_,
    fun x hx y hy hxa hya hk hd => ?_, fun x hx => ?_⟩, fun x => ?_⟩
  · rw [hnext]
    rcases hmem.mp hx with rfl | ⟨hx, -⟩
    · exact h.jobsBelow r hr.1
    · exact h.jobsBelow x hx
  · rcases hmem.mp hx with rfl | ⟨hx, -⟩
    · cases hxa
    rcases hmem.mp hy with rfl | ⟨hy, -⟩
    · cases hya
    exact h.oneActive x hx y hy hxa hya hk hd
  · rcases hmem.mp hx with rfl | ⟨hx, -⟩
    · exact h.ceiling r hr.1
    · exact h.ceiling x hx
  · simp only [Queue.Refreshing, hmem]
    constructor
    · rintro ⟨rfl | hx, ha⟩
      · rw [WorkJob.activeRefresh_iff] at ha
        cases ha.2
      · exact ⟨⟨hx.1, ha⟩, hx.2⟩
    · rintro ⟨⟨hx, ha⟩, hne⟩
      exact ⟨.inr ⟨hx, hne⟩, ha⟩

theorem strip_refresh_ne (t : String) : strip ("refresh:" ++ t) ≠ "" :=
  strip_ne_empty (c := 'r') (by simp) (by decide)

/-- The arguments pass the checks. -/
theorem checkEnqueue_rebuild (hp : p.Refreshable) (hm : 1 ≤ j.maxAttempts) :
    Queue.checkEnqueue (rebuildArgs j p.normalized) = .ok () := by
  have hkey : strip (rebuildArgs j p.normalized).dedupeKey ≠ "" := by
    simp only [rebuildArgs, String.append_assoc]
    exact strip_refresh_ne _
  have hmax : ¬ (rebuildArgs j p.normalized).maxAttempts < 1 := Nat.not_lt.mpr hm
  have hparse : (parseJobPayload .sourceRefresh p.normalized).isNone = false := by
    rw [parseJobPayload, if_pos ⟨p.normalized_fields.1.trans hp.kind, hp.valid⟩]
    rfl
  rw [Queue.checkEnqueue, if_neg hkey, if_neg hmax]
  simp only [rebuildArgs, hparse, Bool.false_eq_true, if_false]

/-- A job takes the request, its place stays. -/
structure Takes (e e' : WorkJob) (p : JobPayload) : Prop where
  id : e'.id = e.id
  kind : e'.kind = e.kind
  dedupeKey : e'.dedupeKey = e.dedupeKey
  source : e'.source = e.source
  workflowKey : e'.workflowKey = e.workflowKey
  groupKey : e'.groupKey = e.groupKey
  status : e'.status = e.status
  ceiling : e.maxAttempts ≤ e'.maxAttempts
  slot : e'.slot = e.slot.take p

/-- The row after a replacement was stored. -/
theorem takes_store {a : EnqueueArgs} (hs : shouldCoalesce .sourceRefresh e.slot.base p = true) :
    Takes e (storeReplacement a now p 0 (promote a now e)).1 p := by
  have hmax : e.maxAttempts ≤ (promote a now e).maxAttempts := by
    unfold promote
    dsimp only
    split <;> omega
  unfold storeReplacement
  rw [show (promote a now e).status = e.status from rfl]
  by_cases hl : e.status = .leased
  · rw [if_pos hl]
    refine ⟨rfl, rfl, rfl, rfl, rfl, rfl, rfl, hmax, ?_⟩
    have hsl : e.slot.leased = true := beq_iff_eq.mpr hl
    rw [RefreshSlot.take, if_pos hs, if_pos hsl]
    rfl
  · rw [if_neg hl]
    refine ⟨rfl, rfl, rfl, rfl, rfl, rfl, rfl, hmax, ?_⟩
    have hsl : ¬ e.slot.leased = true := fun h => hl (beq_iff_eq.mp h)
    rw [RefreshSlot.take, if_pos hs, if_neg hsl]
    rfl

/-- The row of the job that the request finds. -/
theorem takes_enqueue (s : Queue) (j e : WorkJob) (p : JobPayload) (now : Time) :
    ∃ e' n, s.enqueueExisting (rebuildArgs j p) e now = (s.putJob e').addUnits e'.cycleId n now ∧
      Takes e e' p := by
  have hco : (rebuildArgs j p).coalesce = true := rfl
  unfold Queue.enqueueExisting
  dsimp only
  rw [if_pos hco, coalesceInto_refresh rfl]
  generalize hr : e.repool (rebuildArgs j p).routedPool now = e₀
  have hslot : e₀.slot = e.slot := hr ▸ rfl
  have hbase : e₀.coalesceBase = e.slot.base := by
    subst hr
    by_cases hl : e.status = .leased <;>
      simp [WorkJob.coalesceBase, WorkJob.repool, WorkJob.slot, RefreshSlot.base, hl]
  rw [hbase, show (rebuildArgs j p).kind = .sourceRefresh from rfl,
    show (rebuildArgs j p).payload = p from rfl]
  by_cases hs : shouldCoalesce .sourceRefresh e.slot.base p = true
  · rw [if_pos hs]
    have ht : Takes e₀ (storeReplacement (rebuildArgs j p) now p 0
        (promote (rebuildArgs j p) now e₀)).1 p := takes_store (by rw [hslot]; exact hs)
    refine ⟨_, _, rfl, ?_⟩
    subst hr
    exact ⟨ht.id, ht.kind, ht.dedupeKey, ht.source, ht.workflowKey, ht.groupKey, ht.status,
      ht.ceiling, ht.slot⟩
  · rw [if_neg hs]
    refine ⟨_, 0, rfl, ?_⟩
    subst hr
    refine ⟨rfl, rfl, rfl, rfl, rfl, rfl, rfl, le_rfl, ?_⟩
    rw [RefreshSlot.take, if_neg hs]
    rfl

theorem Queue.RefreshTables.activeJob_eq (h : s.RefreshTables) (he : s.Refreshing e) {key : String}
    (hkey : e.dedupeKey = key) : s.activeJob .sourceRefresh key = some e := by
  obtain ⟨hek, hea⟩ := WorkJob.activeRefresh_iff.mp he.2
  cases ha : s.activeJob .sourceRefresh key with
  | none => exact absurd hkey (Queue.activeJob_none.mp ha e he.1 hea hek)
  | some k =>
    obtain ⟨hm, hk, hd, hka⟩ := Queue.activeJob_some ha
    exact congrArg some (h.oneActive k hm e he.1 hka hea (hk.trans hek.symm) (hd.trans hkey.symm))

/-- The request finds the job `e`. -/
theorem Queue.RefreshTables.enqueue_some (h : s.RefreshTables) (he : s.Refreshing e)
    (hp : p.Refreshable) (hm : 1 ≤ j.maxAttempts) (now : Time)
    (hkey : e.dedupeKey = strip (rebuildArgs j p.normalized).dedupeKey) :
    ∃ s' e', (s.enqueue (rebuildArgs j p.normalized) now).map (·.1) = .ok s' ∧ s'.RefreshTables ∧
      Takes e e' p.normalized ∧
      ∀ x, s'.Refreshing x ↔ x = e' ∨ (s.Refreshing x ∧ x.id ≠ e.id) := by
  have hact := h.activeJob_eq he hkey
  have henq : s.enqueue (rebuildArgs j p.normalized) now =
      .ok (s.enqueueExisting (rebuildArgs j p.normalized) e now, e.id, false) := by
    rw [Queue.enqueue, checkEnqueue_rebuild hp hm]
    simp only [show (rebuildArgs j p.normalized).kind = .sourceRefresh from rfl, hact]
  obtain ⟨e', n, hex, ht⟩ := takes_enqueue s j e p.normalized now
  have hput := h.put ((s.putJob e').addUnits e'.cycleId n now) he rfl rfl ht.id ht.kind
    ht.dedupeKey ht.status ((h.ceiling e he.1).trans ht.ceiling)
  exact ⟨_, e', by rw [henq, hex]; rfl, hput.1, ht, hput.2⟩

theorem insertedJob_slot (s : Queue) (j : WorkJob) (p : JobPayload) (now : Time) :
    (s.insertedJob (rebuildArgs j p) now).slot = .inserted j p := by
  have hplaced : ((s.insertedJob (rebuildArgs j p) now).workflowKey != "" &&
      (s.insertedJob (rebuildArgs j p) now).groupKey != "") =
        (strip j.durableWorkflow != "" || p.workflowKey != "") := by
    simp only [Queue.insertedJob, Queue.newJob, rebuildArgs, ne_eq]
    by_cases hw : strip j.durableWorkflow = ""
    · by_cases hp : p.workflowKey = ""
      · simp [hw, hp]
      · simp [hw, hp, Queue.defaultGroupKey]
    · simp [hw]
  simp only [WorkJob.slot, RefreshSlot.inserted, ← hplaced]
  rfl

/-- The request inserts a job. -/
theorem Queue.RefreshTables.enqueue_none (h : s.RefreshTables)
    (hp : p.Refreshable) (hm : 1 ≤ j.maxAttempts) (now : Time)
    (hkey : ∀ x, s.Refreshing x → x.dedupeKey ≠ strip (rebuildArgs j p.normalized).dedupeKey) :
    ∃ s' e', (s.enqueue (rebuildArgs j p.normalized) now).map (·.1) = .ok s' ∧ s'.RefreshTables ∧
      e'.id = s.nextJob ∧ e'.dedupeKey = strip (rebuildArgs j p.normalized).dedupeKey ∧
      e'.source = p.listing.1 ∧ e'.slot = .inserted j p.normalized ∧
      ∀ x, s'.Refreshing x ↔ x = e' ∨ s.Refreshing x := by
  have hact : s.activeJob .sourceRefresh (strip (rebuildArgs j p.normalized).dedupeKey) = none :=
    Queue.activeJob_none.mpr fun x hx ha hk =>
      hkey x ⟨hx, WorkJob.activeRefresh_iff.mpr ⟨hk, ha⟩⟩
  have henq : s.enqueue (rebuildArgs j p.normalized) now =
      .ok (s.enqueueNew (rebuildArgs j p.normalized) now, s.nextJob, true) := by
    rw [Queue.enqueue, checkEnqueue_rebuild hp hm]
    simp only [show (rebuildArgs j p.normalized).kind = .sourceRefresh from rfl, hact]
  have hjobs := s.enqueueNew_jobs (rebuildArgs j p.normalized) now
  have hnext := s.enqueueNew_nextJob (rebuildArgs j p.normalized) now
  generalize s.enqueueNew (rebuildArgs j p.normalized) now = s' at henq hjobs hnext
  have hmem : ∀ {x}, x ∈ s'.jobs ↔ x ∈ s.jobs ∨ x = s.insertedJob (rebuildArgs j p.normalized) now := by
    intro x
    rw [hjobs, List.mem_append, List.mem_singleton]
  generalize hnew : s.insertedJob (rebuildArgs j p.normalized) now = e' at hjobs hmem
  have hid : e'.id = s.nextJob := hnew ▸ rfl
  have hkind : e'.kind = .sourceRefresh := hnew ▸ rfl
  have hdk : e'.dedupeKey = strip (rebuildArgs j p.normalized).dedupeKey := hnew ▸ rfl
  have hae : e'.activeRefresh = true := hnew ▸ rfl
  have hmax : e'.maxAttempts = j.maxAttempts := hnew ▸ rfl
  have hne : ∀ x ∈ s.jobs, x.id ≠ e'.id := fun x hx => hid ▸ (h.jobsBelow x hx).ne
  refine ⟨s', e', by rw [henq]; rfl, ⟨?_, fun x hx => ?_, ?_, fun x hx => ?_⟩, hid, hdk, ?_, ?_,
    fun x => ?_⟩
  · rw [hjobs]
    exact Table.keyed_append.mpr ⟨h.jobs, hne⟩
  · rw [hnext]
    rcases hmem.mp hx with hx | rfl
    · exact (h.jobsBelow x hx).trans (Nat.lt_succ_self _)
    · omega
  · have hnot : ∀ x ∈ s.jobs, x.status.isActive = true → x.kind = e'.kind →
        x.dedupeKey = e'.dedupeKey → False := by
      intro x hx ha hk hd
      rw [hkind] at hk
      exact hkey x ⟨hx, WorkJob.activeRefresh_iff.mpr ⟨hk, ha⟩⟩ (hd.trans hdk)
    intro x hx y hy hxa hya hk hd
    rcases hmem.mp hx with hx | hxe
    · rcases hmem.mp hy with hy | hye
      · exact h.oneActive x hx y hy hxa hya hk hd
      · subst hye
        exact (hnot x hx hxa hk hd).elim
    · subst hxe
      rcases hmem.mp hy with hy | hye
      · exact (hnot y hy hya hk.symm hd.symm).elim
      · exact hye.symm
  · rcases hmem.mp hx with hx | rfl
    · exact h.ceiling x hx
    · rwa [hmax]
  · rw [← hnew]
    obtain ⟨hk, -, -⟩ := hp
    cases p with
    | sourceRefresh p => rfl
    | _ => cases hk
  · rw [← hnew]
    exact insertedJob_slot s j p.normalized now
  · simp only [Queue.Refreshing, hmem]
    constructor
    · rintro ⟨hx | rfl, ha⟩
      · exact .inr ⟨hx, ha⟩
      · exact .inl rfl
    · rintro (rfl | ⟨hx, ha⟩)
      · exact ⟨.inr rfl, hae⟩
      · exact ⟨.inl hx, ha⟩

end

/-! ## The repair of the rows, one after another -/

namespace Queue

/-- The refresh jobs are as the callers of `enqueue` leave them, apart from their versions: each has
the source of its payload, and a series has its canonical key for itself. -/
structure RefreshBacklog (s : Queue) : Prop where
  tables : s.RefreshTables
  payload : ∀ x, s.Refreshing x → x.payload.Refreshable
  pending : ∀ x, s.Refreshing x → ∀ q, x.pendingPayload = some q → q.Refreshable
  source : ∀ x, s.Refreshing x → x.source = x.payload.listing.1
  apart : ∀ x y, s.Refreshing x → s.Refreshing y →
    refreshKey x.payload.listing = refreshKey y.payload.listing ∨
      x.dedupeKey = refreshKey y.payload.listing → x.payload.listing = y.payload.listing

/-- A series has an active refresh job. -/
def Lists (s : Queue) (i : String × String) : Prop := ∃ x, s.Refreshing x ∧ x.payload.listing = i

/-- The job with the canonical key of `i` after the repair of the rows `done`. -/
def slotAfter (s : Queue) (i : String × String) (done : List WorkJob) : Option RefreshSlot :=
  done.foldl (slotStep i) ((s.activeJob .sourceRefresh (refreshKey i)).map WorkJob.slot)

end Queue

/-- The job `e` is that of the canonical key of `i`, with its row as the rows `todo` have it. -/
structure Holds (i : String × String) (todo : List WorkJob) (e : WorkJob) : Prop where
  listing : e.payload.listing = i
  source : e.source = i.1
  payload : e.payload.Refreshable
  same : ∀ k ∈ todo, k.dedupeKey = refreshKey i → e.id = k.id ∧ e.workflowKey = k.workflowKey

/-- The rows `done` of `s₀` have been repaired, the rows `todo` have not. -/
structure Progress (s₀ : Queue) (done todo : List WorkJob) (s : Queue) : Prop where
  tables : s.RefreshTables
  moved : ∀ k ∈ todo, k.offKey = true → s.Refreshing k
  kept : ∀ k ∈ done, k.offKey = true → k.rebuilt = false → s.Refreshing k.repaired
  slot : ∀ i, s₀.Lists i → ∀ e, s.Refreshing e → e.dedupeKey = refreshKey i →
    s₀.slotAfter i done = some e.slot ∧ Holds i todo e
  filled : ∀ i, s₀.Lists i → s₀.slotAfter i done ≠ none →
    ∃ e, s.Refreshing e ∧ e.dedupeKey = refreshKey i
  rows : ∀ x, s.Refreshing x → (x ∈ todo ∧ x.offKey = true) ∨
    (∃ k ∈ done, k.offKey = true ∧ k.rebuilt = false ∧ x = k.repaired) ∨
    ∃ i, s₀.Lists i ∧ x.dedupeKey = refreshKey i

section
variable {s₀ s s' : Queue} {done todo : List WorkJob} {j e n : WorkJob} {i i' : String × String}
  {now : Time}

theorem Queue.mem_activeRefreshes {x : WorkJob} : x ∈ s.activeRefreshes ↔ s.Refreshing x := by
  rw [Queue.activeRefreshes, List.mem_insertionSort, List.mem_filter]
  rfl

theorem Queue.slotAfter_snoc : s.slotAfter i (done ++ [j]) = slotStep i (s.slotAfter i done) j := by
  rw [Queue.slotAfter, List.foldl_append]
  rfl

theorem Queue.RefreshBacklog.key_injective (h : s.RefreshBacklog) (hi : s.Lists i)
    (hi' : s.Lists i') (he : refreshKey i = refreshKey i') : i = i' := by
  obtain ⟨x, hx, rfl⟩ := hi
  obtain ⟨y, hy, rfl⟩ := hi'
  exact h.apart x y hx hy (.inl he)

theorem Queue.RefreshBacklog.offKey_ne (h : s.RefreshBacklog) (hj : s.Refreshing j)
    (ho : j.offKey = true) (hi : s.Lists i) : j.dedupeKey ≠ refreshKey i := by
  intro he
  obtain ⟨y, hy, rfl⟩ := hi
  have hl := h.apart j y hj hy (.inr he)
  rw [WorkJob.offKey, bne_iff_ne, hl] at ho
  exact ho he

theorem WorkJob.repaired_same (j : WorkJob) : j.repaired.id = j.id ∧ j.repaired.kind = j.kind ∧
    j.repaired.dedupeKey = j.dedupeKey ∧ j.repaired.status = j.status ∧
    j.repaired.maxAttempts = j.maxAttempts ∧ j.repaired.source = j.source := by
  unfold repaired
  split <;> exact ⟨rfl, rfl, rfl, rfl, rfl, rfl⟩

/-- The rows that are repaired are those of distinct jobs. -/
theorem Queue.RefreshTables.ids (h : s.RefreshTables) (hall : s.activeRefreshes = done ++ j :: todo) :
    s.Refreshing j ∧ (∀ k ∈ done, s.Refreshing k ∧ k.id ≠ j.id) ∧
      ∀ k ∈ todo, s.Refreshing k ∧ k.id ≠ j.id := by
  have hmem : ∀ {k}, k ∈ done ++ j :: todo → s.Refreshing k := fun hk =>
    Queue.mem_activeRefreshes.mp (hall ▸ hk)
  have hnodup : ((done ++ j :: todo).map WorkJob.id).Nodup := by
    rw [← hall]
    have hperm := (s.jobs.filter (·.activeRefresh)).perm_insertionSort (·.id ≤ ·.id)
    exact (hperm.map WorkJob.id).nodup_iff.mpr (h.jobs.filter)
  simp only [List.map_append, List.map_cons] at hnodup
  obtain ⟨hnot, -⟩ := List.nodup_cons.mp (List.nodup_middle.mp hnodup)
  simp only [List.mem_append, List.mem_map, not_or, not_exists, not_and] at hnot
  exact ⟨hmem (by simp), fun k hk => ⟨hmem (by simp [hk]), hnot.1 k hk⟩,
    fun k hk => ⟨hmem (by simp [hk]), hnot.2 k hk⟩⟩

/-- The row of a job under another key is written. -/
theorem Progress.put_row (hb : s₀.RefreshBacklog) (hp : Progress s₀ done (j :: todo) s)
    (hall : s₀.activeRefreshes = done ++ j :: todo) (ho : j.offKey = true)
    (hr : j.rebuilt = false) (ht : s'.RefreshTables)
    (hlive : ∀ x, s'.Refreshing x ↔ x = j.repaired ∨ (s.Refreshing x ∧ x.id ≠ j.id)) :
    Progress s₀ (done ++ [j]) todo s' := by
  obtain ⟨hj, hdone, htodo⟩ := hb.tables.ids hall
  have hslot : ∀ i, s₀.slotAfter i (done ++ [j]) = s₀.slotAfter i done := by
    intro i
    rw [Queue.slotAfter_snoc]
    unfold slotStep
    split
    · rfl
    · simp only [ho, Bool.true_eq_false, if_false, hr, Bool.false_eq_true]
  have hnot : ∀ i, s₀.Lists i → j.dedupeKey ≠ refreshKey i := fun i hi => hb.offKey_ne hj ho hi
  refine ⟨ht, fun k hk hok => ?_, fun k hk hok hrk => ?_, fun i hi e he hek => ?_,
    fun i hi hne => ?_, fun x hx => ?_⟩
  · exact (hlive k).mpr (.inr ⟨hp.moved k (List.mem_cons_of_mem _ hk) hok, (htodo k hk).2⟩)
  · rcases List.mem_append.mp hk with hk | hk
    · refine (hlive _).mpr (.inr ⟨hp.kept k hk hok hrk, ?_⟩)
      rw [k.repaired_same.1]
      exact (hdone k hk).2
    · rw [List.mem_singleton.mp hk]
      exact (hlive _).mpr (.inl rfl)
  · rw [hslot]
    rcases (hlive e).mp he with rfl | ⟨he, -⟩
    · exact absurd (j.repaired_same.2.2.1.symm.trans hek) (hnot i hi)
    · obtain ⟨hs, hh⟩ := hp.slot i hi e he hek
      exact ⟨hs, hh.listing, hh.source, hh.payload, fun k hk => hh.same k (List.mem_cons_of_mem _ hk)⟩
  · rw [hslot] at hne
    obtain ⟨e, he, hek⟩ := hp.filled i hi hne
    refine ⟨e, (hlive e).mpr (.inr ⟨he, fun hid => ?_⟩), hek⟩
    have heq := hp.tables.jobs.eq he.1 (hp.moved j List.mem_cons_self ho).1 hid
    exact hnot i hi (heq ▸ hek)
  · rcases (hlive x).mp hx with rfl | ⟨hx, hne⟩
    · exact .inr (.inl ⟨j, by simp, ho, hr, rfl⟩)
    · rcases hp.rows x hx with ⟨hxt, hxo⟩ | ⟨k, hk, hko, hkr, rfl⟩ | hxi
      · rcases List.mem_cons.mp hxt with rfl | hxt
        · exact absurd rfl hne
        · exact .inl ⟨hxt, hxo⟩
      · exact .inr (.inl ⟨k, by simp [hk], hko, hkr, rfl⟩)
      · exact .inr (.inr hxi)

/-- The job with the canonical key is written or inserted. -/
theorem Progress.put_slot (hb : s₀.RefreshBacklog) (hp : Progress s₀ done (j :: todo) s)
    (hall : s₀.activeRefreshes = done ++ j :: todo) (hi : j.payload.listing = i)
    (hor : j.offKey = true → j.rebuilt = true) (ht : s'.RefreshTables)
    (hkey : n.dedupeKey = refreshKey i) (hn : Holds i todo n)
    (hslot : slotStep i (s₀.slotAfter i done) j = some n.slot)
    (hlive : ∀ x, s'.Refreshing x ↔
      x = n ∨ (s.Refreshing x ∧ x.id ≠ j.id ∧ x.dedupeKey ≠ refreshKey i)) :
    Progress s₀ (done ++ [j]) todo s' := by
  obtain ⟨hj, hdone, htodo⟩ := hb.tables.ids hall
  have hli : s₀.Lists i := ⟨j, hj, hi⟩
  have hother : ∀ i', i' ≠ i → s₀.slotAfter i' (done ++ [j]) = s₀.slotAfter i' done := by
    intro i' hne
    rw [Queue.slotAfter_snoc]
    unfold slotStep
    rw [if_pos]
    rw [hi]
    exact hne.symm
  refine ⟨ht, fun k hk hok => ?_, fun k hk hok hrk => ?_, fun i' hi' e he hek => ?_,
    fun i' hi' hne => ?_, fun x hx => ?_⟩
  · exact (hlive k).mpr (.inr ⟨hp.moved k (List.mem_cons_of_mem _ hk) hok, (htodo k hk).2,
      hb.offKey_ne (htodo k hk).1 hok hli⟩)
  · rcases List.mem_append.mp hk with hk | hk
    · obtain ⟨hid, -, hdk, -⟩ := k.repaired_same
      refine (hlive _).mpr (.inr ⟨hp.kept k hk hok hrk, ?_, ?_⟩)
      · rw [hid]
        exact (hdone k hk).2
      · rw [hdk]
        exact hb.offKey_ne (hdone k hk).1 hok hli
    · rw [List.mem_singleton.mp hk] at hok hrk
      rw [hor hok] at hrk
      cases hrk
  · by_cases hii : i' = i
    · subst hii
      rcases (hlive e).mp he with rfl | ⟨-, -, hne⟩
      · exact ⟨by rw [Queue.slotAfter_snoc, hslot], hn⟩
      · exact absurd hek hne
    · rw [hother i' hii]
      rcases (hlive e).mp he with rfl | ⟨he, -⟩
      · exact absurd (hb.key_injective hi' hli (hek.symm.trans hkey)) hii
      · obtain ⟨hs, hh⟩ := hp.slot i' hi' e he hek
        exact ⟨hs, hh.listing, hh.source, hh.payload,
          fun k hk => hh.same k (List.mem_cons_of_mem _ hk)⟩
  · by_cases hii : i' = i
    · subst hii
      exact ⟨n, (hlive n).mpr (.inl rfl), hkey⟩
    · rw [hother i' hii] at hne
      obtain ⟨e, he, hek⟩ := hp.filled i' hi' hne
      refine ⟨e, (hlive e).mpr (.inr ⟨he, fun hid => ?_, fun hk => ?_⟩), hek⟩
      · -- the row `j` is not under the key of another series
        by_cases ho : j.offKey = true
        · have heq := hp.tables.jobs.eq he.1 (hp.moved j List.mem_cons_self ho).1 hid
          exact hb.offKey_ne hj ho hi' (heq ▸ hek)
        · have hjk : j.dedupeKey = refreshKey i := by simpa [WorkJob.offKey, hi] using ho
          have hsome : s₀.slotAfter i done ≠ none := by
            intro hnone
            unfold slotStep at hslot
            rw [hnone, if_neg (not_not.mpr hi), if_pos (Bool.not_eq_true _ ▸ ho)] at hslot
            cases hslot
          obtain ⟨e₁, he₁, hek₁⟩ := hp.filled i hli hsome
          have hid₁ := ((hp.slot i hli e₁ he₁ hek₁).2.same j List.mem_cons_self hjk).1
          have heq := hp.tables.jobs.eq he.1 he₁.1 (hid.trans hid₁.symm)
          exact hii (hb.key_injective hi' hli (hek.symm.trans (heq ▸ hek₁)))
      · exact hii (hb.key_injective hi' hli (hek.symm.trans hk))
  · rcases (hlive x).mp hx with rfl | ⟨hx, hne, -⟩
    · exact .inr (.inr ⟨i, hli, hkey⟩)
    · rcases hp.rows x hx with ⟨hxt, hxo⟩ | ⟨k, hk, hko, hkr, rfl⟩ | hxi
      · rcases List.mem_cons.mp hxt with rfl | hxt
        · exact absurd rfl hne
        · exact .inl ⟨hxt, hxo⟩
      · exact .inr (.inl ⟨k, by simp [hk], hko, hkr, rfl⟩)
      · exact .inr (.inr hxi)

theorem slotStep_isSome {o : Option RefreshSlot} (h : o ≠ none) : slotStep i o j ≠ none := by
  unfold slotStep
  split
  · exact h
  · split
    · simpa using h
    · split
      · simp
      · exact h

/-- The job with the canonical key stays until its row is repaired. -/
theorem Queue.RefreshTables.slotAfter_ne_none (h : s.RefreshTables) (hj : s.Refreshing j)
    (hk : j.dedupeKey = refreshKey i) (done : List WorkJob) : s.slotAfter i done ≠ none := by
  induction done using List.reverseRecOn with
  | nil =>
    show (s.activeJob .sourceRefresh (refreshKey i)).map WorkJob.slot ≠ none
    rw [h.activeJob_eq hj hk]
    simp
  | append_singleton done k ih =>
    rw [Queue.slotAfter_snoc]
    exact slotStep_isSome ih

theorem Queue.RefreshTables.selectActive_eq (h : s.RefreshTables) (hj : s.Refreshing j) :
    s.selectActive j.id = some j := by
  rw [Queue.selectActive, Queue.job?_eq h.jobs hj.1, Option.filter_some, if_pos]
  exact (WorkJob.activeRefresh_iff.mp hj.2).2

theorem rebuildArgs_key (hs : e.source = i.1) (hl : e.payload.listing = i) :
    strip (rebuildArgs e e.payload.normalized).dedupeKey = refreshKey i := by
  have hid : e.payload.normalized.sourceId = i.2 := by
    rw [← hl, ← e.payload.normalized_fields.2.1]
    rfl
  simp only [rebuildArgs, refreshKey, hs, hid]

/-- The rows that are not under the key of the job `e`. -/
theorem Queue.RefreshTables.ne_iff (h : s.RefreshTables) {x : WorkJob} (he : s.Refreshing e)
    (hx : s.Refreshing x) (hk : e.dedupeKey = refreshKey i) :
    x.id ≠ e.id ↔ x.dedupeKey ≠ refreshKey i := by
  refine not_congr ⟨fun hid => ?_, fun hd => ?_⟩
  · rw [h.jobs.eq hx.1 he.1 hid, hk]
  · rw [h.key_eq hx he (hd.trans hk.symm)]

/-- A waiting job under another key gives its payload to the job with the canonical key. -/
theorem Progress.step_rebuild (hb : s₀.RefreshBacklog) (hp : Progress s₀ done (j :: todo) s)
    (hall : s₀.activeRefreshes = done ++ j :: todo) (ho : j.offKey = true)
    (hr : j.rebuilt = true) :
    ∃ s', s.applyRecord j.refreshRecord now = .ok s' ∧ Progress s₀ (done ++ [j]) todo s' := by
  obtain ⟨hj, -, htodo⟩ := hb.tables.ids hall
  have hjs := hp.moved j List.mem_cons_self ho
  have href := hb.payload j hj
  have hact := (WorkJob.rebuilt_iff href).mp hr
  obtain ⟨i, hi⟩ : ∃ i, j.payload.listing = i := ⟨_, rfl⟩
  have hli : s₀.Lists i := ⟨j, hj, hi⟩
  have hkey := rebuildArgs_key ((hb.source j hj).trans (congrArg Prod.fst hi)) hi
  have hmax : 1 ≤ j.maxAttempts := hp.tables.ceiling j hjs.1
  obtain ⟨htc, hlc⟩ := hp.tables.cancel hjs "incompatible refresh payload replaced by current schema" now
  have heq : s.applyRecord j.refreshRecord now =
      ((s.cancel j.id "incompatible refresh payload replaced by current schema" now).1.enqueue
        (rebuildArgs j j.payload.normalized) now).map (·.1) := by
    simp only [Queue.applyRecord, WorkJob.refreshRecord, hact, reduceCtorEq, or_self, if_false,
      hp.tables.selectActive_eq hjs, href.normalize]
  rw [heq]
  generalize (s.cancel j.id "incompatible refresh payload replaced by current schema" now).1 = c
    at htc hlc ⊢
  have hnorm := j.payload.normalized_fields
  cases hs : s₀.slotAfter i done with
  | none =>
    have hfree : ∀ x, c.Refreshing x →
        x.dedupeKey ≠ strip (rebuildArgs j j.payload.normalized).dedupeKey := by
      intro x hx hk
      have hsome := (hp.slot i hli x ((hlc x).mp hx).1 (hk.trans hkey)).1
      rw [hs] at hsome
      cases hsome
    obtain ⟨s', n, henq, ht, -, hnk, hns, hnslot, hlive⟩ := htc.enqueue_none href hmax now hfree
    have hpay : n.payload = j.payload.normalized := congrArg RefreshSlot.payload hnslot
    refine ⟨s', henq, hp.put_slot hb hall hi (fun _ => hr) ht (hnk.trans hkey) ?_ ?_ fun x => ?_⟩
    · refine ⟨?_, hns.trans (congrArg Prod.fst hi), ?_, fun k hk hkk => ?_⟩
      · rw [hpay, hnorm.2.1, hi]
      · rw [hpay]
        exact href.normalized
      · exact absurd hs (hb.tables.slotAfter_ne_none (htodo k hk).1 hkk done)
    · unfold slotStep
      rw [if_neg (not_not.mpr hi), if_neg (by simp [ho]), if_pos hr, hs, hnslot]
    · rw [hlive, hlc]
      refine or_congr_right ⟨fun hx => ⟨hx.1, hx.2, fun hk => ?_⟩, fun hx => ⟨hx.1, hx.2.1⟩⟩
      have hsome := (hp.slot i hli x hx.1 hk).1
      rw [hs] at hsome
      cases hsome
  | some x₀ =>
    obtain ⟨e, he, hek⟩ := hp.filled i hli (by simp [hs])
    obtain ⟨hes, hh⟩ := hp.slot i hli e he hek
    have hne : e.id ≠ j.id := (hp.tables.ne_iff he hjs hek).mpr (hb.offKey_ne hj ho hli) |>.symm
    obtain ⟨s', n, henq, ht, htakes, hlive⟩ := htc.enqueue_some ((hlc e).mpr ⟨he, hne⟩) href hmax now
      (hek.trans hkey.symm)
    have hpay : n.payload = e.payload ∨ n.payload = j.payload.normalized := by
      have hslot := congrArg RefreshSlot.payload htakes.slot
      unfold RefreshSlot.take at hslot
      split at hslot
      · split at hslot
        · exact .inl hslot
        · exact .inr hslot
      · exact .inl hslot
    refine ⟨s', henq, hp.put_slot hb hall hi (fun _ => hr) ht (htakes.dedupeKey.trans hek) ?_ ?_
      fun x => ?_⟩
    · refine ⟨?_, htakes.source.trans hh.source, ?_, fun k hk hkk => ?_⟩
      · rcases hpay with hpay | hpay
        · rw [hpay, hh.listing]
        · rw [hpay, hnorm.2.1, hi]
      · rcases hpay with hpay | hpay
        · rw [hpay]
          exact hh.payload
        · rw [hpay]
          exact href.normalized
      · obtain ⟨hid, hw⟩ := hh.same k (List.mem_cons_of_mem _ hk) hkk
        exact ⟨htakes.id.trans hid, htakes.workflowKey.trans hw⟩
    · unfold slotStep
      rw [if_neg (not_not.mpr hi), if_neg (by simp [ho]), if_pos hr, hes, htakes.slot]
    · rw [hlive, hlc]
      refine or_congr_right ⟨fun hx => ⟨hx.1.1, hx.1.2, ?_⟩, fun hx => ⟨⟨hx.1, hx.2.1⟩, ?_⟩⟩
      · exact (hp.tables.ne_iff he hx.1.1 hek).mp hx.2
      · exact (hp.tables.ne_iff he hx.1 hek).mpr hx.2.2

theorem WorkJob.refreshAction_ne_blocked (h : j.payload.Refreshable) :
    j.refreshAction.1 ≠ .blocked := by
  rw [WorkJob.refreshAction_eq h]
  split
  · split <;> nofun
  · split
    · nofun
    · split <;> nofun

/-- A job under another key is repaired in its row. -/
theorem Progress.step_row (hb : s₀.RefreshBacklog) (hp : Progress s₀ done (j :: todo) s)
    (hall : s₀.activeRefreshes = done ++ j :: todo) (ho : j.offKey = true)
    (hr : j.rebuilt = false) :
    ∃ s', s.applyRecord j.refreshRecord now = .ok s' ∧ Progress s₀ (done ++ [j]) todo s' := by
  obtain ⟨hj, -, -⟩ := hb.tables.ids hall
  have hjs := hp.moved j List.mem_cons_self ho
  have href := hb.payload j hj
  have hblocked := WorkJob.refreshAction_ne_blocked href
  have hnr : j.refreshAction.1 ≠ .rebuild := fun h => by
    rw [(WorkJob.rebuilt_iff href).mpr h] at hr
    cases hr
  obtain ⟨hid, hkind, hdk, hst, hmax, -⟩ := j.repaired_same
  obtain ⟨ht, hlive⟩ := hp.tables.put (s.putJob j.repaired) hjs rfl rfl hid hkind hdk hst
    (hmax ▸ hp.tables.ceiling j hjs.1)
  have hsel := hp.tables.selectActive_eq hjs
  cases ha : j.refreshAction.1 with
  | blocked => exact absurd ha hblocked
  | rebuild => exact absurd ha hnr
  | preserve =>
    have hself : j.repaired = j := by simp only [WorkJob.repaired, ha]
    refine ⟨s, by simp [Queue.applyRecord, WorkJob.refreshRecord, ha], hp.put_row hb hall ho hr
      hp.tables fun x => ?_⟩
    rw [hself]
    refine ⟨fun hx => ?_, ?_⟩
    · by_cases hxj : x.id = j.id
      · exact .inl (hp.tables.jobs.eq hx.1 hjs.1 hxj)
      · exact .inr ⟨hx, hxj⟩
    · rintro (rfl | hx)
      · exact hjs
      · exact hx.1
  | deferRebuild =>
    refine ⟨_, ?_, hp.put_row hb hall ho hr ht hlive⟩
    simp [Queue.applyRecord, WorkJob.refreshRecord, WorkJob.repaired, ha, hsel, href.normalize]
  | regroup =>
    refine ⟨_, ?_, hp.put_row hb hall ho hr ht hlive⟩
    simp [Queue.applyRecord, WorkJob.refreshRecord, WorkJob.repaired, ha, hsel, href.normalize]
  | upgrade =>
    refine ⟨_, ?_, hp.put_row hb hall ho hr ht hlive⟩
    simp [Queue.applyRecord, WorkJob.refreshRecord, WorkJob.repaired, ha, hsel, href.normalize]

theorem durableWorkflow_ne (e : WorkJob) : e.durableWorkflow ≠ "" := by
  unfold WorkJob.durableWorkflow
  split
  · intro h
    have := congrArg String.length h
    simp [String.length_append] at this
  · assumption

/-- The job with the canonical key is repaired, by what its row was before. -/
theorem Progress.step_slot (hb : s₀.RefreshBacklog) (hp : Progress s₀ done (j :: todo) s)
    (hall : s₀.activeRefreshes = done ++ j :: todo) (ho : j.offKey = false) :
    ∃ s', s.applyRecord j.refreshRecord now = .ok s' ∧ Progress s₀ (done ++ [j]) todo s' := by
  obtain ⟨hj, -, htodo⟩ := hb.tables.ids hall
  obtain ⟨i, hi⟩ : ∃ i, j.payload.listing = i := ⟨_, rfl⟩
  have hli : s₀.Lists i := ⟨j, hj, hi⟩
  have hjk : j.dedupeKey = refreshKey i := by simpa [WorkJob.offKey, hi] using ho
  obtain ⟨e, he, hek⟩ := hp.filled i hli (hb.tables.slotAfter_ne_none hj hjk done)
  obtain ⟨hes, hh⟩ := hp.slot i hli e he hek
  obtain ⟨hid, hwk⟩ := hh.same j List.mem_cons_self hjk
  have hsel : s.selectActive j.id = some e := hid ▸ hp.tables.selectActive_eq he
  have hnot : ∀ k ∈ todo, k.dedupeKey ≠ refreshKey i := fun k hk hkk =>
    (htodo k hk).2 (congrArg WorkJob.id (hb.tables.key_eq (htodo k hk).1 hj (hkk.trans hjk.symm)))
  have hor : j.offKey = true → j.rebuilt = true := by simp [ho]
  have hstep : slotStep i (s₀.slotAfter i done) j = some (e.slot.repair j) := by
    unfold slotStep
    rw [if_neg (not_not.mpr hi), if_pos ho, hes]
    rfl
  have hself : ∀ x, s.Refreshing x →
      (x.id ≠ e.id ↔ x.id ≠ j.id ∧ x.dedupeKey ≠ refreshKey i) := by
    intro x hx
    rw [← hid]
    exact ⟨fun h => ⟨h, (hp.tables.ne_iff he hx hek).mp h⟩, fun h => h.1⟩
  have hnorm := e.payload.normalized_fields
  have hholds : ∀ n : WorkJob, n.payload = e.payload ∨ n.payload = e.payload.normalized →
      n.source = e.source → Holds i todo n := by
    intro n hpay hsrc
    refine ⟨?_, hsrc.trans hh.source, ?_, fun k hk hkk => absurd hkk (hnot k hk)⟩
    · rcases hpay with hpay | hpay
      · rw [hpay, hh.listing]
      · rw [hpay, hnorm.2.1, hh.listing]
    · rcases hpay with hpay | hpay
      · rw [hpay]
        exact hh.payload
      · rw [hpay]
        exact hh.payload.normalized
  -- the row is written, its place stays
  have hput : ∀ n : WorkJob, n.id = e.id → n.kind = e.kind → n.dedupeKey = e.dedupeKey →
      n.status = e.status → n.maxAttempts = e.maxAttempts → n.source = e.source →
      (n.payload = e.payload ∨ n.payload = e.payload.normalized) → n.slot = e.slot.repair j →
      Progress s₀ (done ++ [j]) todo (s.putJob n) := by
    intro n hni hnk hnd hns hnm hsrc hpay hslot
    obtain ⟨ht, hlive⟩ := hp.tables.put (s.putJob n) he rfl rfl hni hnk hnd hns
      (hnm ▸ hp.tables.ceiling e he.1)
    refine hp.put_slot hb hall hi hor ht (hnd.trans hek) (hholds n hpay hsrc)
      (by rw [hstep, hslot]) fun x => ?_
    rw [hlive]
    exact or_congr_right (and_congr_right fun hx => hself x hx)
  cases ha : j.refreshAction.1 with
  | blocked => exact absurd ha (WorkJob.refreshAction_ne_blocked (hb.payload j hj))
  | preserve =>
    refine ⟨s, by simp [Queue.applyRecord, WorkJob.refreshRecord, ha], ?_⟩
    refine hp.put_slot hb hall hi hor hp.tables hek (hholds e (.inl rfl) rfl) ?_ fun x => ?_
    · rw [hstep, RefreshSlot.repair, ha]
    · refine ⟨fun hx => ?_, ?_⟩
      · by_cases hxe : x.id = e.id
        · exact .inl (hp.tables.jobs.eq hx.1 he.1 hxe)
        · exact .inr ⟨hx, (hself x hx).mp hxe⟩
      · rintro (rfl | hx)
        · exact he
        · exact hx.1
  | deferRebuild =>
    refine ⟨_, ?_, hput (e.deferred e.payload.normalized) rfl rfl rfl rfl rfl rfl (.inl rfl) ?_⟩
    · simp [Queue.applyRecord, WorkJob.refreshRecord, ha, hsel, hh.payload.normalize]
    · rw [RefreshSlot.repair, ha]
      rfl
  | regroup | upgrade =>
    refine ⟨_, ?_, hput (e.upgraded e.payload.normalized) rfl rfl rfl rfl rfl rfl (.inr rfl) ?_⟩
    · simp [Queue.applyRecord, WorkJob.refreshRecord, ha, hsel, hh.payload.normalize]
    · rw [RefreshSlot.repair, ha]
      simp [WorkJob.slot, WorkJob.upgraded, durableWorkflow_ne]
  | rebuild =>
    have hkey := rebuildArgs_key hh.source hh.listing
    obtain ⟨htc, hlc⟩ :=
      hp.tables.cancel he "incompatible refresh payload replaced by current schema" now
    have heq : s.applyRecord j.refreshRecord now =
        ((s.cancel e.id "incompatible refresh payload replaced by current schema" now).1.enqueue
          (rebuildArgs e e.payload.normalized) now).map (·.1) := by
      simp only [Queue.applyRecord, WorkJob.refreshRecord, ha, reduceCtorEq, or_self, if_false,
        hsel, hh.payload.normalize]
    rw [heq]
    generalize (s.cancel e.id "incompatible refresh payload replaced by current schema" now).1 = c
      at htc hlc ⊢
    obtain ⟨s', n, henq, ht, -, hnk, hns, hnslot, hlive⟩ := htc.enqueue_none hh.payload
      (hp.tables.ceiling e he.1) now fun x hx hk =>
        (hp.tables.ne_iff he ((hlc x).mp hx).1 hek).mp ((hlc x).mp hx).2 (hk.trans hkey)
    have hpay : n.payload = e.payload.normalized := congrArg RefreshSlot.payload hnslot
    have hflow : e.durableWorkflow = j.durableWorkflow := by
      rw [WorkJob.durableWorkflow, WorkJob.durableWorkflow, hwk, hh.source, hb.source j hj, hi]
    refine ⟨s', henq, hp.put_slot hb hall hi hor ht (hnk.trans hkey) ?_ ?_ fun x => ?_⟩
    · refine hholds n (.inr hpay) (hns.trans ?_)
      rw [hh.listing, hh.source]
    · rw [hstep, RefreshSlot.repair, ha, hnslot]
      simp only [RefreshSlot.inserted, hflow]
      rfl
    · rw [hlive, hlc]
      exact or_congr_right (and_congr_right fun hx => hself x hx)

/-- The repair of one row. -/
theorem Progress.step (hb : s₀.RefreshBacklog) (hp : Progress s₀ done (j :: todo) s)
    (hall : s₀.activeRefreshes = done ++ j :: todo) (now : Time) :
    ∃ s', s.applyRecord j.refreshRecord now = .ok s' ∧ Progress s₀ (done ++ [j]) todo s' := by
  by_cases ho : j.offKey = true
  · by_cases hr : j.rebuilt = true
    · exact hp.step_rebuild hb hall ho hr
    · exact hp.step_row hb hall ho (by simpa using hr)
  · exact hp.step_slot hb hall (by simpa using ho)

theorem Progress.start (hb : s₀.RefreshBacklog) : Progress s₀ [] s₀.activeRefreshes s₀ := by
  refine ⟨hb.tables, fun k hk _ => Queue.mem_activeRefreshes.mp hk, fun k hk => (by cases hk),
    fun i hi e he hek => ?_, fun i hi hne => ?_, fun x hx => ?_⟩
  · obtain ⟨y, hy, rfl⟩ := hi
    have hl := hb.apart e y he hy (.inr hek)
    refine ⟨?_, hl, (hb.source e he).trans (congrArg Prod.fst hl), hb.payload e he,
      fun k hk hkk => ?_⟩
    · show (s₀.activeJob .sourceRefresh (refreshKey y.payload.listing)).map WorkJob.slot = _
      rw [hb.tables.activeJob_eq he hek]
      rfl
    · rw [hb.tables.key_eq he (Queue.mem_activeRefreshes.mp hk) (hek.trans hkk.symm)]
      exact ⟨rfl, rfl⟩
  · obtain ⟨x, hx⟩ := Option.ne_none_iff_exists'.mp hne
    obtain ⟨e, he, -⟩ := Option.map_eq_some_iff.mp hx
    obtain ⟨hm, hk, hd, ha⟩ := Queue.activeJob_some he
    exact ⟨e, ⟨hm, WorkJob.activeRefresh_iff.mpr ⟨hk, ha⟩⟩, hd⟩
  · by_cases ho : x.offKey = true
    · exact .inl ⟨Queue.mem_activeRefreshes.mpr hx, ho⟩
    · exact .inr (.inr ⟨x.payload.listing, ⟨x, hx, rfl⟩, by simpa [WorkJob.offKey] using ho⟩)

theorem applyRecords_progress (hb : s₀.RefreshBacklog) (now : Time) :
    ∀ {done todo : List WorkJob} {s : Queue}, s₀.activeRefreshes = done ++ todo →
      Progress s₀ done todo s →
      ∃ s', Queue.applyRecords now (todo.map (·.refreshRecord)) s = .ok s' ∧
        Progress s₀ s₀.activeRefreshes [] s' := by
  intro done todo
  induction todo generalizing done with
  | nil =>
    intro s hall hp
    rw [List.append_nil] at hall
    exact ⟨s, rfl, hall ▸ hp⟩
  | cons j todo ih =>
    intro s hall hp
    obtain ⟨s₁, hs₁, hp₁⟩ := hp.step hb hall now
    have hall₁ : s₀.activeRefreshes = (done ++ [j]) ++ todo := by simp [hall]
    obtain ⟨s', hs', hp'⟩ := ih hall₁ hp₁
    refine ⟨s', ?_, hp'⟩
    show Queue.applyRecords now (j.refreshRecord :: _) s = _
    simp only [Queue.applyRecords, hs₁]
    exact hs'

/-- A pass returns. -/
theorem Queue.RefreshBacklog.pass (hb : s₀.RefreshBacklog) (now : Time) :
    ∃ s', s₀.refreshPass now = .ok s' ∧ Progress s₀ s₀.activeRefreshes [] s' :=
  applyRecords_progress hb now (List.nil_append _).symm (.start hb)

end

end MangaManager
