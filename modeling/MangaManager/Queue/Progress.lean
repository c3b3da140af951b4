import MangaManager.Queue.Lifecycle

/-!
# Progress events

`JobQueue.progress` records an event at the first report of a job and when its progress
enters another twentieth of the total, so that a task of any length leaves a bounded
history: `progress_bounded`, which also says that the report that completes the task is
among the recorded ones.
-/

namespace MangaManager

open Lib

/-- A call of `progress` for some job. -/
structure ProgressCall where
  owner : String
  message : String := ""
  details : ProgressDetails
  now : Time
  deriving DecidableEq

/-- The count that the details report. -/
def ProgressCall.count (c : ProgressCall) : Nat :=
  (orInt c.details.processed c.details.current).toNat

/-- Reports of one phase with one total and counts that do not fall. -/
structure Reports (phase : String) (total : Nat) (calls : List ProgressCall) : Prop where
  phase : ∀ c ∈ calls, c.details.phase = phase
  total : ∀ c ∈ calls, c.details.total = total
  rising : calls.Pairwise (·.count ≤ ·.count)

namespace Queue

variable (s : Queue) (jobId : Nat)

def progressCall (c : ProgressCall) : Queue × Bool :=
  s.progress jobId c.owner c.message c.details c.now

/-- The queue after the calls. -/
def progressAll (calls : List ProgressCall) : Queue :=
  calls.foldl (fun s c => (s.progressCall jobId c).1) s

def progressEvents : Nat :=
  s.events.countP fun e => e.jobId == jobId && e.eventType == .progress

/-- The call comes after the others and finds the lease of its owner. -/
def TakesCall (calls : List ProgressCall) (c : ProgressCall) : Prop :=
  ((s.progressAll jobId calls).progressCall jobId c).2 = true

end Queue

section
variable {s : Queue} {jobId t m n : Nat} {j : WorkJob} {c : ProgressCall} {phase : String}
  {calls : List ProgressCall}

/-! ## One report -/

theorem progressBucket_pos (ht : 0 < t) :
    progressBucket n t = ((min 20 (n * 20 / t) : Nat) : Int) := by
  rw [progressBucket, if_neg (by omega)]
  omega

theorem truncate_truncate (k : Nat) (x : String) : truncate k (truncate k x) = truncate k x := by
  simp [truncate, List.take_take]

theorem truncate_ne_empty {k : Nat} {x : String} (hk : 0 < k) (hx : x ≠ "") :
    truncate k x ≠ "" := by
  intro h
  have htake : x.toList.take k = [] := by
    simpa [truncate] using congrArg String.toList h
  rcases List.take_eq_nil_iff.mp htake with hk' | hnil
  · omega
  · exact hx (String.toList_eq_nil_iff.mp hnil)

/-- A report of the same phase leaves the phase of the row. -/
def WorkJob.PhaseIs (j : WorkJob) (phase : String) : Prop :=
  truncate 50 (orText phase (orText j.progressPhase "working")) = j.progressPhase

theorem WorkJob.report_phaseIs (message : String) (d : ProgressDetails) (now : Time) :
    (j.report message d now).PhaseIs d.phase := by
  unfold PhaseIs report orText
  dsimp only
  split
  · have hne : truncate 50 (if j.progressPhase = "" then "working" else j.progressPhase) ≠ "" := by
      refine truncate_ne_empty (by omega) ?_
      split
      · decide
      · assumption
    rw [if_neg hne, truncate_truncate]
  · rfl

/-- The first report with a total is recorded. -/
theorem WorkJob.isMilestone_first {message : String} {now : Time} (hz : j.progressTotal = 0)
    (ht : 0 < t) (hd : c.details.total = t) :
    j.isMilestone (j.report message c.details now) = true := by
  have : j.progressTotal ≠ (j.report message c.details now).progressTotal := by
    show j.progressTotal ≠ c.details.total.toNat
    rw [hd]
    omega
  simp [isMilestone, this]

/-- Later reports: a recorded one enters another twentieth, and one that completes the task is
recorded. -/
theorem WorkJob.isMilestone_later {message : String} {now : Time} (ht : 0 < t)
    (hj : j.progressTotal = t) (hp : j.PhaseIs c.details.phase) (hd : c.details.total = t)
    (hc : j.progressCurrent ≤ c.count) :
    (j.isMilestone (j.report message c.details now) = true →
      min 20 (j.progressCurrent * 20 / t) < min 20 (c.count * 20 / t)) ∧
    (t ≤ c.count → j.progressCurrent < t →
      j.isMilestone (j.report message c.details now) = true) := by
  have hle : j.progressCurrent * 20 / t ≤ c.count * 20 / t :=
    Nat.div_le_div_right (Nat.mul_le_mul_right 20 hc)
  have hphase : (j.report message c.details now).progressPhase = j.progressPhase := hp
  have htotal : (j.report message c.details now).progressTotal = t := by
    show c.details.total.toNat = t
    rw [hd]
    omega
  have hcount : (j.report message c.details now).progressCurrent = c.count := rfl
  unfold isMilestone
  rw [hphase, htotal, hcount, hj, progressBucket_pos ht, progressBucket_pos ht]
  simp only [bne_self_eq_false, Bool.false_or, Bool.or_eq_true, bne_iff_ne, Bool.and_eq_true,
    decide_eq_true_eq, beq_iff_eq]
  refine ⟨?_, fun h₁ h₂ => .inr ⟨⟨by omega, h₁⟩, .inr h₂⟩⟩
  rintro (hne | ⟨⟨-, hdone⟩, hopen | hopen⟩)
  · omega
  · omega
  · -- below the total the twentieth is below the last one
    have h₁ : j.progressCurrent * 20 / t < 20 :=
      (Nat.div_lt_iff_lt_mul ht).mpr (by omega)
    have h₂ : 20 ≤ c.count * 20 / t := (Nat.le_div_iff_mul_le ht).mpr (by omega)
    omega

/-! ## A sequence of reports -/

namespace Queue

theorem progressAll_snoc : s.progressAll jobId (calls ++ [c]) =
    ((s.progressAll jobId calls).progressCall jobId c).1 := by
  unfold progressAll
  rw [List.foldl_append, List.foldl_cons, List.foldl_nil]

theorem progressCall_false (h : (s.progressCall jobId c).2 = false) :
    (s.progressCall jobId c).1 = s := by
  unfold progressCall progress at h ⊢
  split at h
  · rfl
  · cases h

/-- A call that finds the lease writes the row, and an event at a milestone. -/
theorem progressCall_true (hj : s.job? jobId = some j) (h : (s.progressCall jobId c).2 = true) :
    (s.progressCall jobId c).1.job? jobId = some (j.report c.message c.details c.now) ∧
      (s.progressCall jobId c).1.progressEvents jobId = s.progressEvents jobId +
        if j.isMilestone (j.report c.message c.details c.now) then 1 else 0 := by
  obtain ⟨hm, hid⟩ := job?_some hj
  have hput : (s.putJob (j.report c.message c.details c.now)).job? jobId =
      some (j.report c.message c.details c.now) := by
    have := @job?_putJob s j (j.report c.message c.details c.now) hm rfl
    rwa [show (j.report c.message c.details c.now).id = jobId from hid] at this
  unfold progressCall progress at h ⊢
  split at h
  · cases h
  rename_i j' hheld
  obtain ⟨hj', -, -⟩ := selectHeld_some hheld
  obtain rfl := Option.some.inj (hj.symm.trans hj')
  dsimp only
  split
  · refine ⟨hput, ?_⟩
    simp [progressEvents, recordEvent, putJob, WorkJob.report, hid]
  · exact ⟨hput, rfl⟩

/-- Where the row and the history are after some of the reports. -/
structure Reported (s : Queue) (jobId t : Nat) (phase : String) (calls : List ProgressCall)
    (j' : WorkJob) : Prop where
  total : j'.progressTotal = t
  phase : j'.PhaseIs phase
  last : ∃ pre b post, calls = pre ++ b :: post ∧ s.TakesCall jobId pre b ∧ b.count = j'.progressCurrent
  events : (s.progressAll jobId calls).progressEvents jobId ≤
    s.progressEvents jobId + (min 20 (j'.progressCurrent * 20 / t) + 1)

theorem reported (hj : s.job? jobId = some j) (hz : j.progressTotal = 0) (ht : 0 < t)
    (hr : Reports phase t calls) :
    ∃ j', (s.progressAll jobId calls).job? jobId = some j' ∧
      ((j' = j ∧ (s.progressAll jobId calls).progressEvents jobId = s.progressEvents jobId) ∨
        s.Reported jobId t phase calls j') := by
  induction calls using List.reverseRecOn with
  | nil => exact ⟨j, hj, .inl ⟨rfl, rfl⟩⟩
  | append_singleton calls c ih =>
    obtain ⟨hph, htot, hrise⟩ := hr
    obtain ⟨j₁, hj₁, hcase⟩ := ih ⟨fun b hb => hph b (List.mem_append_left _ hb),
      fun b hb => htot b (List.mem_append_left _ hb), (List.pairwise_append.mp hrise).1⟩
    have hphase := hph c (List.mem_append_right _ (List.mem_singleton_self c))
    have htotal := htot c (List.mem_append_right _ (List.mem_singleton_self c))
    rw [progressAll_snoc]
    cases htakes : ((s.progressAll jobId calls).progressCall jobId c).2 with
    | false =>
      refine ⟨j₁, ?_, hcase.imp ?_ ?_⟩
      · rwa [progressCall_false htakes]
      · rw [progressCall_false htakes]
        exact id
      · rintro ⟨h₁, h₂, ⟨pre, b, post, rfl, h₃⟩, h₄⟩
        refine ⟨h₁, h₂, ⟨pre, b, post ++ [c], by simp, h₃⟩, ?_⟩
        rw [progressAll_snoc, progressCall_false htakes]
        exact h₄
    | true =>
      obtain ⟨hrow, hev⟩ := progressCall_true hj₁ htakes
      refine ⟨_, hrow, .inr ⟨?_, hphase ▸ WorkJob.report_phaseIs _ _ _,
        ⟨calls, c, [], rfl, htakes, rfl⟩, ?_⟩⟩
      · show c.details.total.toNat = t
        rw [htotal]
        omega
      rw [progressAll_snoc, hev]
      show _ ≤ _ + (min 20 (c.count * 20 / t) + 1)
      rcases hcase with ⟨-, he⟩ | hrep
      · rw [he]
        have : (if j₁.isMilestone (j₁.report c.message c.details c.now) = true then 1
            else 0) ≤ 1 := by
          split <;> decide
        exact Nat.add_le_add_left (this.trans (Nat.le_add_left 1 _)) _
      · obtain ⟨pre, b, post, rfl, -, hb⟩ := hrep.last
        have hle : j₁.progressCurrent ≤ c.count := by
          rw [← hb]
          exact (List.pairwise_append.mp hrise).2.2 b (by simp) c (List.mem_singleton_self c)
        have hstep : j₁.isMilestone (j₁.report c.message c.details c.now) = true → _ :=
          (WorkJob.isMilestone_later ht hrep.total (hphase ▸ hrep.phase) htotal hle).1
        have hev₁ := hrep.events
        have hmono : j₁.progressCurrent * 20 / t ≤ c.count * 20 / t :=
          Nat.div_le_div_right (Nat.mul_le_mul_right 20 hle)
        split
        · rename_i hm
          have := hstep hm
          omega
        · omega

end Queue

/-- A job without a total gets reports of one phase and one total with counts that do not fall: they
record at most 21 events, and the first one that finds the lease and completes the task records
one. -/
theorem progress_bounded (hj : s.job? jobId = some j) (hz : j.progressTotal = 0) (ht : 0 < t)
    (hr : Reports phase t calls) :
    (s.progressAll jobId calls).progressEvents jobId ≤ s.progressEvents jobId + 21 ∧
    ∀ pre c post, calls = pre ++ c :: post → s.TakesCall jobId pre c → t ≤ c.count →
      (∀ pre' b post', pre = pre' ++ b :: post' → s.TakesCall jobId pre' b → b.count < t) →
      (s.progressAll jobId (pre ++ [c])).progressEvents jobId =
        (s.progressAll jobId pre).progressEvents jobId + 1 := by
  refine ⟨?_, ?_⟩
  · obtain ⟨j', -, ⟨-, he⟩ | hrep⟩ := Queue.reported hj hz ht hr
    · omega
    · have := hrep.events
      omega
  · rintro pre c post rfl htakes hdone hfirst
    obtain ⟨hph, htot, hrise⟩ := hr
    have hc : c ∈ pre ++ c :: post := by simp
    have hpre : Reports phase t pre := ⟨fun b hb => hph b (List.mem_append_left _ hb),
      fun b hb => htot b (List.mem_append_left _ hb), (List.pairwise_append.mp hrise).1⟩
    obtain ⟨j', hj', hcase⟩ := Queue.reported hj hz ht hpre
    obtain ⟨-, hev⟩ := Queue.progressCall_true hj' htakes
    have hmile : j'.isMilestone (j'.report c.message c.details c.now) = true := by
      rcases hcase with ⟨rfl, -⟩ | hrep
      · exact WorkJob.isMilestone_first hz ht (htot c hc)
      · obtain ⟨pre', b, post', rfl, hb, hcount⟩ := hrep.last
        have hle : j'.progressCurrent ≤ c.count := by
          rw [← hcount]
          exact (List.pairwise_append.mp hrise).2.2 b (by simp) c List.mem_cons_self
        refine (WorkJob.isMilestone_later ht hrep.total ((hph c hc).symm ▸ hrep.phase) (htot c hc)
          hle).2 hdone ?_
        rw [← hcount]
        exact hfirst pre' b post' rfl hb
    rw [Queue.progressAll_snoc, hev, if_pos hmile]

end

/-- A leased job that reported nothing so far. -/
def probeJob : WorkJob where
  id := 1
  kind := .maintenance
  dedupeKey := "maintenance:progress"
  payload := .maintenance { action := "stage_probe" }
  source := ""
  seriesKey := ""
  pool := "maintenance"
  cycleId := none
  workflowKey := ""
  groupKey := ""
  logicalUnits := 1
  status := .leased
  priority := 100
  maxAttempts := 3
  availableAt := 0
  leaseOwner := "worker-a"
  leaseExpiresAt := some 60
  createdAt := 0
  updatedAt := 0

/-- Reports of the owner, of a total of 100. -/
def probeReports (counts : List Int) : List ProgressCall :=
  counts.map fun n => { owner := "worker-a", now := 1
                        details := { phase := "work", processed := n, total := 100 } }

def probeQueue : Queue := { jobs := [probeJob] }

/-- Of five reports the first, the one that enters a new twentieth and the last one are recorded. -/
theorem probeJob_bounded :
    (probeQueue.progressAll 1 (probeReports [1, 2, 5, 6, 250])).progressEvents 1 = 3 ∧
    (probeQueue.progressAll 1 (probeReports [1, 2, 5, 6, 250])).progressEvents 1 ≤
      probeQueue.progressEvents 1 + 21 ∧
    (probeQueue.progressAll 1 (probeReports [1, 2, 5, 6] ++ probeReports [250])).progressEvents 1 =
      (probeQueue.progressAll 1 (probeReports [1, 2, 5, 6])).progressEvents 1 + 1 := by
  have h := @progress_bounded probeQueue 1 100 probeJob "work" (probeReports [1, 2, 5, 6, 250]) rfl
    rfl (by decide) ⟨by decide, by decide, by decide⟩
  refine ⟨by decide, h.1, h.2 (probeReports [1, 2, 5, 6]) _ [] rfl ?_ (by decide) ?_⟩
  · show (_ : Bool) = true
    decide
  · intro pre' b post' he _
    have hb : b ∈ probeReports [1, 2, 5, 6] := he ▸ List.mem_append_right _ List.mem_cons_self
    have hall : ∀ b ∈ probeReports [1, 2, 5, 6], b.count < 100 := by decide
    exact hall b hb

end MangaManager
