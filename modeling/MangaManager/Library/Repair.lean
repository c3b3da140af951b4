import Mathlib.Data.List.Sort
import MangaManager.Queue.Invariant

/-!
# Library repairs

`enqueue_library_repair` keeps one active repair job for a canonical series and
merges every new request into it: the obsolete storage keys are united, in the
pending slot while the job is leased.
-/

namespace MangaManager

open Lib

/-- `REPAIR_REASON_PRIORITY.get(reason, 0)`. -/
def repairReasonPriority (reason : String) : Nat :=
  match reason with
  | "merge" => 60
  | "manual_repair" => 50
  | "legacy_recovery" => 40
  | "tracking" => 30
  | "download" => 20
  | "automatic_projection_repair" => 10
  | _ => 0

/-- `max(reasons, key=…, default="metadata")`: the first of the most urgent. -/
def topReason : List String → String
  | [] => "metadata"
  | r :: rs => rs.foldl
    (fun best r => if repairReasonPriority best < repairReasonPriority r then r else best) r

/-- `sorted({key for payload in payloads for key in payload.obsolete_storage_keys if key})`. -/
def mergedKeys (payloads : List LibraryRepairPayload) : List String :=
  (((payloads.flatMap (·.obsoleteStorageKeys)).filter (· ≠ "")).eraseDups).insertionSort (· ≤ ·)

/-- `_merged_repair_payload`. -/
def mergedRepairPayload (seriesId : Nat) (payloads : List LibraryRepairPayload) :
    LibraryRepairPayload :=
  let keys := mergedKeys payloads
  { seriesId := seriesId
    reason := if keys ≠ [] then "merge" else topReason (payloads.map (·.reason))
    obsoleteStorageKeys := keys }

/-- `LibraryRepairPayload.model_validate` of a stored payload. -/
def repairPayload? (p : JobPayload) : Option LibraryRepairPayload :=
  match parseJobPayload .libraryRepair p with
  | some (.libraryRepair r) => some r
  | _ => none

/-- The pending payload as a list of none or one. -/
def pendingRepairs (j : WorkJob) : Option (List LibraryRepairPayload) :=
  match j.pendingPayload with
  | none => some []
  | some q => (repairPayload? q).map ([·])

/-- The end of `merge_into`: the merged payload goes to its slot unless it is there already. -/
def storeMerged (j : WorkJob) (merged current : LibraryRepairPayload) : WorkJob :=
  if merged = current then j
  else if j.status = .leased then { j with pendingPayload := some (.libraryRepair merged) }
  else { j with payload := .libraryRepair merged, errorCode := "", errorMessage := "" }

/-- `merge_into`; `none` is a `ValidationError`. -/
def mergeInto (j : WorkJob) (seriesId : Nat) (incoming : LibraryRepairPayload) (priority : Int) :
    Option WorkJob :=
  match repairPayload? j.payload, pendingRepairs j with
  | some stored, some pending =>
    let merged := mergedRepairPayload seriesId (stored :: incoming :: pending)
    let current := if j.status = .leased then pending.headD stored else stored
    some (storeMerged { j with priority := min j.priority priority } merged current)
  | _, _ => none

/-- The key of a series' repair job. -/
def repairKey (seriesId : Nat) : String := "series:" ++ toString seriesId ++ ":repair"

/-- The arguments of the `enqueue` call. -/
def repairArgs (seriesId : Nat) (incoming : LibraryRepairPayload) (priority : Int) :
    EnqueueArgs where
  kind := .libraryRepair
  dedupeKey := repairKey seriesId
  payload := .libraryRepair incoming
  priority := priority
  seriesKey := toString seriesId

/-- `enqueue_library_repair`. -/
def Queue.enqueueLibraryRepair (s : Queue) (seriesId : Nat) (reason : String) (priority : Int)
    (obsoleteStorageKeys : List String) (now : Time) : Except QueueError (Queue × Bool) :=
  let incoming : LibraryRepairPayload :=
    { seriesId := seriesId, reason := reason, obsoleteStorageKeys := obsoleteStorageKeys }
  if (JobPayload.libraryRepair incoming).validate = false then .error .invalidPayload
  else match s.activeJob .libraryRepair (repairKey seriesId) with
    | some j => match mergeInto j seriesId incoming priority with
      | some j' => .ok (s.putJob j', false)
      | none => .error .invalidPayload
    | none => (s.enqueue (repairArgs seriesId incoming priority) now).map fun r => (r.1, true)

/-! ## What a merged request keeps -/

section
variable {j j' : WorkJob} {seriesId : Nat} {incoming : LibraryRepairPayload} {priority : Int}

theorem topReason_mem {reasons : List String} (h : reasons ≠ []) : topReason reasons ∈ reasons := by
  cases reasons with
  | nil => exact absurd rfl h
  | cons r rs =>
    have hfold : ∀ (l : List String) (b : String), l.foldl (fun best r =>
        if repairReasonPriority best < repairReasonPriority r then r else best) b ∈ b :: l := by
      intro l
      induction l with
      | nil => intro b; simp
      | cons x xs ih =>
        intro b
        rw [List.foldl_cons]
        split
        · exact List.mem_cons_of_mem _ (ih x)
        · rcases List.mem_cons.mp (ih b) with h | h
          · rw [h]
            exact List.mem_cons_self
          · exact List.mem_cons_of_mem _ (List.mem_cons_of_mem _ h)
    exact hfold rs r

theorem repairPayload?_some {p : JobPayload} {r : LibraryRepairPayload}
    (h : repairPayload? p = some r) : p = .libraryRepair r ∧ p.validate = true := by
  unfold repairPayload? at h
  split at h
  · rename_i q hq
    obtain ⟨rfl, -, hv⟩ := parseJobPayload_eq_some.mp hq
    cases h
    exact ⟨rfl, hv⟩
  · cases h

/-- A payload merged from valid ones is valid. -/
theorem mergedRepairPayload_valid {payloads : List LibraryRepairPayload} (hid : 0 < seriesId)
    (hne : payloads ≠ [])
    (h : ∀ p ∈ payloads, (JobPayload.libraryRepair p).validate = true) :
    (JobPayload.libraryRepair (mergedRepairPayload seriesId payloads)).ValidFor .libraryRepair := by
  refine ⟨rfl, ?_⟩
  have hreason : JobPayload.lengthIn 1 100 (mergedRepairPayload seriesId payloads).reason = true := by
    by_cases hk : mergedKeys payloads = []
    · have hr : payloads.map (·.reason) ≠ [] := by simpa using hne
      have hm := topReason_mem hr
      obtain ⟨p, hp, he⟩ := List.mem_map.mp hm
      have hv := h p hp
      simp only [JobPayload.validate, Bool.and_eq_true] at hv
      simp only [mergedRepairPayload, hk, ne_eq, not_true_eq_false, if_false, ← he]
      exact hv.2
    · simp only [mergedRepairPayload, hk, ne_eq, not_false_eq_true, if_true]
      decide
  have hpos : 0 < (mergedRepairPayload seriesId payloads).seriesId := hid
  simp only [JobPayload.validate, hreason, hpos, decide_true, Bool.and_true]
  rfl

theorem pendingRepairs_some {pending : List LibraryRepairPayload}
    (h : pendingRepairs j = some pending) :
    ∀ p ∈ pending, (JobPayload.libraryRepair p).validate = true := by
  unfold pendingRepairs at h
  split at h
  · cases h
    simp
  · rename_i q _
    cases hr : repairPayload? q with
    | none => rw [hr] at h; cases h
    | some r =>
      rw [hr] at h
      cases h
      obtain ⟨rfl, hv⟩ := repairPayload?_some hr
      simpa using hv

/-- A merged request leaves the lease and the key of the job. -/
structure MergedRow (j j' : WorkJob) : Prop where
  same : SameJob j j'
  status : j'.status = j.status
  expiry : j'.leaseExpiresAt = j.leaseExpiresAt
  row : j'.WellFormed

theorem storeMerged_row {merged current : LibraryRepairPayload} (hj : j.WellFormed)
    (hv : (JobPayload.libraryRepair merged).ValidFor j.kind) :
    MergedRow j (storeMerged { j with priority := min j.priority priority } merged current) := by
  unfold storeMerged
  split
  · exact ⟨⟨rfl, rfl, rfl, rfl, rfl, rfl⟩, rfl, rfl,
      hj.of_lease rfl hj.payload (.inl rfl) rfl rfl hj.attempts hj.lease hj.owner⟩
  split
  · exact ⟨⟨rfl, rfl, rfl, rfl, rfl, rfl⟩, rfl, rfl,
      { payload := hj.payload, pending := fun q hq => Option.some.inj hq ▸ hv, units := hj.units
        ceiling := hj.ceiling, attempts := hj.attempts, lease := hj.lease, owner := hj.owner }⟩
  · exact ⟨⟨rfl, rfl, rfl, rfl, rfl, rfl⟩, rfl, rfl,
      { payload := hv, pending := hj.pending, units := hj.units
        ceiling := hj.ceiling, attempts := hj.attempts, lease := hj.lease, owner := hj.owner }⟩

theorem mergeInto_some (h : mergeInto j seriesId incoming priority = some j')
    (hk : j.kind = .libraryRepair) (hj : j.WellFormed) (hid : 0 < seriesId)
    (hin : (JobPayload.libraryRepair incoming).validate = true) : MergedRow j j' := by
  unfold mergeInto at h
  split at h
  · rename_i stored pending hs hp
    have hall : ∀ p ∈ stored :: incoming :: pending,
        (JobPayload.libraryRepair p).validate = true := by
      simp only [List.mem_cons]
      rintro p (rfl | rfl | hm)
      · obtain ⟨he, hval⟩ := repairPayload?_some hs
        rwa [← he]
      · exact hin
      · exact pendingRepairs_some hp p hm
    have hv := mergedRepairPayload_valid hid (by simp) hall
    rw [← hk] at hv
    cases h
    exact storeMerged_row hj hv
  · cases h

theorem storeMerged_same {merged current : LibraryRepairPayload} :
    (storeMerged j merged current).id = j.id ∧
      (storeMerged j merged current).status = j.status := by
  unfold storeMerged
  split
  · exact ⟨rfl, rfl⟩
  · split <;> exact ⟨rfl, rfl⟩

/-- The job is still the same and in the same state, whatever is stored in it. -/
theorem mergeInto_same (h : mergeInto j seriesId incoming priority = some j') :
    j'.id = j.id ∧ j'.status = j.status := by
  unfold mergeInto at h
  split at h
  · cases h
    exact storeMerged_same
  · cases h

/-- A repair request merges into the active job of the series, or enqueues one. -/
theorem enqueueLibraryRepair_ok {s s' : Queue} {reason : String} {keys : List String} {now : Time}
    {created : Bool} (hw : s.WellFormed)
    (h : s.enqueueLibraryRepair seriesId reason priority keys now = .ok (s', created)) :
    (∃ j j', j ∈ s.jobs ∧ j.status.isActive = true ∧ MergedRow j j' ∧ s' = s.putJob j') ∨
    ∃ args, s' = (Op.enqueue args).apply s now := by
  unfold Queue.enqueueLibraryRepair at h
  dsimp only at h
  split at h
  · cases h
  rename_i hv
  rw [Bool.not_eq_false] at hv
  have hid : 0 < seriesId := by
    simp only [JobPayload.validate, Bool.and_eq_true, decide_eq_true_eq] at hv
    exact hv.1.2
  split at h
  · rename_i j hj
    obtain ⟨hm, hk, -, ha⟩ := Queue.activeJob_some hj
    split at h
    · rename_i j' hmerge
      cases h
      exact .inl ⟨j, j', hm, ha, mergeInto_some hmerge hk (hw.rows j hm) hid hv, rfl⟩
    · cases h
  · right
    refine ⟨repairArgs seriesId ⟨1, seriesId, reason, keys⟩ priority, ?_⟩
    cases he : s.enqueue (repairArgs seriesId ⟨1, seriesId, reason, keys⟩ priority) now with
    | error e => rw [he] at h; cases h
    | ok r =>
      rw [he] at h
      cases h
      simp only [Op.apply, he, committed]

end

end MangaManager
