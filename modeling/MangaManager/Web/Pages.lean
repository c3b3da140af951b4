import Mathlib.Data.Int.ConditionallyCompleteOrder
import MangaManager.Lib.DateTime
import MangaManager.Lib.Paging
import MangaManager.Queue.Rows
import MangaManager.Series.Tables

/-!
# Pages of the web API

The endpoints of `manga_manager/web/api.py` that page with a cursor: `discovery`,
`job_groups` and `job_group_children`. Each writes its order twice, as `ORDER BY` and as
the condition on the rows after the cursor.

`pagination_lossless`: following `next_cursor` until it is null returns each matching row
once, in the order of the endpoint.

`ilike` is that of the database. A time of a row is what the driver makes of the stored
moment, `clock`.
-/

namespace MangaManager

open Lib Cursor

/-! ## Cursors -/

/-- The texts around the first `c`. -/
def cutFirst (c : Char) (cs : List Char) : Option (List Char × List Char) :=
  match cs.dropWhile (· != c) with
  | [] => none
  | _ :: rest => some (cs.takeWhile (· != c), rest)

/-- The texts around the last `c`. -/
def cutLast (c : Char) (cs : List Char) : Option (List Char × List Char) :=
  (cutFirst c cs.reverse).map fun r => (r.2.reverse, r.1.reverse)

/-- `encode_cursor`. -/
def encodeCursor (timestamp : Option DateTime) (rowId : Nat) : String :=
  (timestamp.map DateTime.isoformat).getD "none" ++ "|" ++ toString rowId

/-- `decode_cursor`; none is the error 422. -/
def decodeCursor (value : String) : Option (Option DateTime × Int) := do
  let (rawTime, rawId) ← cutLast '|' value.toList
  let time ← if rawTime = "none".toList then some none
    else (fromIsoformat (String.ofList rawTime)).map some
  let id ← parseInt (String.ofList rawId)
  pure (time, id)

/-- `encode_job_cursor`. -/
def encodeJobCursor (running priority : Int) (availableAt : DateTime) (rowId : Nat) : String :=
  toString running ++ "|" ++ toString priority ++ "|" ++ availableAt.isoformat ++ "|" ++
    toString rowId

structure JobCursor where
  running : Int
  priority : Int
  availableAt : DateTime
  rowId : Int

/-- `decode_job_cursor`; none is the error 422. -/
def decodeJobCursor (value : String) : Option JobCursor := do
  let (running, rest) ← cutFirst '|' value.toList
  let (priority, rest) ← cutFirst '|' rest
  let (availableAt, rowId) ← cutFirst '|' rest
  pure
    { running := ← parseInt (String.ofList running)
      priority := ← parseInt (String.ofList priority)
      availableAt := ← fromIsoformat (String.ofList availableAt)
      rowId := ← parseInt (String.ofList rowId) }

/-! ## Discovery -/

section
variable (ilike : String → String → Bool) (clock : Time → DateTime)

namespace Collection

variable (s : Collection)

/-- The filters of the request. -/
def isDiscovered (q : String) (source : List String) (r : CatalogSeries) : Bool :=
  let term := "%" ++ strip q ++ "%"
  let validSources := providerNames.filter fun name => decide (name ∈ source)
  r.status == .untracked &&
    (strip q == "" || ilike r.title term || ilike r.normalizedTitle term ||
      ilike r.description term ||
      s.aliases.any fun a => a.seriesId == r.id && ilike a.displayValue term) &&
    (validSources.isEmpty ||
      s.identities.any fun i => i.seriesId == r.id && decide (i.source ∈ validSources))

/-- `ORDER BY latest_release_at DESC NULLS LAST, id DESC`. -/
def latestFirst (a b : CatalogSeries) : Prop :=
  match a.latestReleaseAt, b.latestReleaseAt with
  | some x, some y => y < x ∨ (x = y ∧ b.id ≤ a.id)
  | some _, none => True
  | none, some _ => False
  | none, none => b.id ≤ a.id

instance (a b : CatalogSeries) : Decidable (latestFirst a b) := by
  unfold latestFirst
  cases a.latestReleaseAt <;> cases b.latestReleaseAt <;> infer_instance

/-- The condition on the rows after the cursor. -/
def isAfterCursor (cursorTime : Option DateTime) (cursorId : Int) (r : CatalogSeries) : Bool :=
  match cursorTime with
  | none => r.latestReleaseAt.isNone && decide ((r.id : Int) < cursorId)
  | some time =>
    r.latestReleaseAt.any (fun t => decide (t < time.instant)) || r.latestReleaseAt.isNone ||
      (r.latestReleaseAt == some time.instant && decide ((r.id : Int) < cursorId))

/-- `discovery`; none is the error 422. -/
def discovery (q : String) (source : List String) (limit : Nat) :
    String → Option (Page CatalogSeries) :=
  request (s.series.filter (s.isDiscovered ilike q source)) limit decodeCursor
    (fun c => isAfterCursor c.1 c.2) latestFirst
    (fun r => encodeCursor (r.latestReleaseAt.map clock) r.id) some

end Collection

/-! ## Jobs -/

def JobState.value : JobState → String
  | queued => "queued"
  | leased => "leased"
  | retryWait => "retry_wait"
  | succeeded => "succeeded"
  | failed => "failed"
  | cancelled => "cancelled"

/-- The key under which a job is grouped. -/
def WorkJob.groupName (j : WorkJob) : String :=
  if j.groupKey = "" then j.kind.value ++ ":" ++ toString j.id else j.groupKey

namespace Queue

variable (s : Queue)

/-- `job_state_predicate`, which an empty list does not ask for. -/
def isShown (states : List String) (j : WorkJob) : Bool :=
  states.isEmpty || (j.status != .failed && decide (j.status.value ∈ states)) ||
    (j.status == .failed && decide ("failed" ∈ states) &&
      !s.jobs.any fun later => later.kind == j.kind && later.dedupeKey == j.dedupeKey &&
        decide (j.id < later.id))

end Queue

/-- The cursor is before a row; `idAfter` compares the ids, where the rest is equal. -/
def JobCursor.isBefore (c : JobCursor) (running : Nat) (priority : Int) (availableAt : Time)
    (idAfter : Bool) : Bool :=
  decide ((running : Int) < c.running) ||
    (decide ((running : Int) = c.running) && decide (c.priority < priority)) ||
    (decide ((running : Int) = c.running) && decide (priority = c.priority) &&
      decide (c.availableAt.instant < availableAt)) ||
    (decide ((running : Int) = c.running) && decide (priority = c.priority) &&
      decide (availableAt = c.availableAt.instant) && idAfter)

/-- A row of `job_groups`. -/
structure JobGroup where
  key : String
  lastId : Nat
  taskCount : Nat
  running : Nat
  succeeded : Nat
  failed : Nat
  cancelled : Nat
  queued : Nat
  retryWait : Nat
  priority : Int
  availableAt : Time
  deriving DecidableEq

/-- The row of the jobs of a key. -/
def jobGroup (key : String) (jobs : List WorkJob) : JobGroup :=
  let count := fun status => jobs.countP (·.status = status)
  { key := key
    lastId := ((jobs.map (·.id)).max?).getD 0
    taskCount := jobs.length
    running := count .leased
    succeeded := count .succeeded
    failed := count .failed
    cancelled := count .cancelled
    queued := count .queued
    retryWait := count .retryWait
    priority := ((jobs.map (·.priority)).min?).getD 0
    availableAt := ((jobs.map (·.availableAt)).min?).getD 0 }

/-- The item of a group, with its representative. -/
structure JobGroupItem extends JobGroup where
  representative : WorkJob
  deriving DecidableEq

namespace JobGroup

/-- `ORDER BY running DESC, priority, available_at, last_id DESC`. -/
def isBefore (a b : JobGroup) : Prop :=
  b.running < a.running ∨ (a.running = b.running ∧ (a.priority < b.priority ∨
    (a.priority = b.priority ∧ (a.availableAt < b.availableAt ∨
      (a.availableAt = b.availableAt ∧ b.lastId ≤ a.lastId)))))

instance (a b : JobGroup) : Decidable (isBefore a b) :=
  inferInstanceAs (Decidable (_ ∨ _))

/-- The condition on the groups after the cursor. -/
def isAfterCursor (c : JobCursor) (g : JobGroup) : Bool :=
  c.isBefore g.running g.priority g.availableAt (decide ((g.lastId : Int) < c.rowId))

end JobGroup

namespace WorkJob

/-- `status == "leased"`, as a number. -/
def isRunning (j : WorkJob) : Nat := if j.status = .leased then 1 else 0

/-- `ORDER BY status = 'leased' DESC, priority, available_at, id`. -/
def isBefore (a b : WorkJob) : Prop :=
  b.isRunning < a.isRunning ∨ (a.isRunning = b.isRunning ∧ (a.priority < b.priority ∨
    (a.priority = b.priority ∧ (a.availableAt < b.availableAt ∨
      (a.availableAt = b.availableAt ∧ a.id ≤ b.id)))))

instance (a b : WorkJob) : Decidable (isBefore a b) :=
  inferInstanceAs (Decidable (_ ∨ _))

/-- The condition on the jobs after the cursor. -/
def isAfterCursor (c : JobCursor) (j : WorkJob) : Bool :=
  c.isBefore j.isRunning j.priority j.availableAt (decide (c.rowId < j.id))

end WorkJob

namespace Queue

variable (s : Queue)

/-- The jobs of a group that are shown. -/
def groupJobs (state : List String) (key : String) : List WorkJob :=
  (s.jobs.filter (s.isShown state)).filter (·.groupName = key)

/-- The groups of the jobs that are shown. -/
def allGroups (state : List String) : List JobGroup :=
  ((s.jobs.filter (s.isShown state)).map (·.groupName)).dedup.map fun key =>
    jobGroup key (s.groupJobs state key)

/-- A group without a representative is left out. -/
def groupItem (state : List String) (g : JobGroup) : Option JobGroupItem :=
  (((s.groupJobs state g.key).insertionSort WorkJob.isBefore).head?).map fun representative =>
    { g with representative := representative }

/-- `job_groups`; none is the error 422. -/
def jobGroups (state : List String) (limit : Nat) : String → Option (Page JobGroupItem) :=
  request (s.allGroups state) limit decodeJobCursor JobGroup.isAfterCursor JobGroup.isBefore
    (fun g => encodeJobCursor g.running g.priority (clock g.availableAt) g.lastId)
    (s.groupItem state)

/-- The jobs of a group, by its key. -/
def allChildren (groupKey : String) (state : List String) : List WorkJob :=
  s.jobs.filter fun j => j.groupKey == groupKey && s.isShown state j

/-- `job_group_children`; none is the error 422. -/
def jobGroupChildren (groupKey : String) (state : List String) (limit : Nat) :
    String → Option (Page WorkJob) :=
  request (s.allChildren groupKey state) limit decodeJobCursor WorkJob.isAfterCursor
    WorkJob.isBefore
    (fun j => encodeJobCursor j.isRunning j.priority (clock j.availableAt) j.id) some

end Queue

end

/-! ## Cursors are read back -/

theorem cutFirst_append {c : Char} {a b : List Char} (h : c ∉ a) :
    cutFirst c (a ++ c :: b) = some (a, b) := by
  have hall : ∀ x ∈ a, (x != c) = true := fun x hx => bne_iff_ne.mpr fun he => h (he ▸ hx)
  have hdrop : (a ++ c :: b).dropWhile (· != c) = c :: b := by
    rw [List.dropWhile_append_of_pos hall, List.dropWhile_cons_of_neg (by simp)]
  have htake : (a ++ c :: b).takeWhile (· != c) = a := by
    rw [List.takeWhile_append_of_pos hall, List.takeWhile_cons_of_neg (by simp), List.append_nil]
  rw [cutFirst, hdrop, htake]

theorem cutLast_append {c : Char} {a b : List Char} (h : c ∉ b) :
    cutLast c (a ++ c :: b) = some (a, b) := by
  have hrev : (a ++ c :: b).reverse = b.reverse ++ c :: a.reverse := by simp
  rw [cutLast, hrev, cutFirst_append (by simpa using h), Option.map_some, List.reverse_reverse,
    List.reverse_reverse]

theorem not_mem_isoformat (d : DateTime) : '|' ∉ d.isoformat.toList := by
  rw [DateTime.isoformat, String.toList_ofList]
  intro h
  rcases mem_isoText h with h | h <;> exact absurd h (by decide)

theorem isoformat_ne_none (d : DateTime) : d.isoformat.toList ≠ "none".toList := by
  rw [DateTime.isoformat, String.toList_ofList]
  intro h
  have hn : 'n' ∈ d.isoText := by rw [h]; decide
  rcases mem_isoText hn with h | h <;> exact absurd h (by decide)

theorem not_mem_toString (n : Nat) : '|' ∉ (toString n).toList :=
  fun h => absurd (isDigit_of_mem_toString h) (by decide)

theorem not_mem_toString_int (n : Int) : '|' ∉ (toString n).toList := by
  cases n with
  | ofNat n => exact not_mem_toString n
  | negSucc n =>
    rw [toString_negSucc]
    intro h
    rcases List.mem_cons.mp h with h | h
    · exact absurd h (by decide)
    · exact not_mem_toString _ h

theorem decodeCursor_encodeCursor (timestamp : Option DateTime) (rowId : Nat) :
    decodeCursor (encodeCursor timestamp rowId) = some (timestamp, (rowId : Int)) := by
  have hlist : (encodeCursor timestamp rowId).toList =
      ((timestamp.map DateTime.isoformat).getD "none").toList ++
        '|' :: (toString rowId).toList := by
    rw [encodeCursor, String.toList_append, String.toList_append, List.append_assoc]
    rfl
  rw [decodeCursor, hlist, cutLast_append (not_mem_toString rowId)]
  simp only [Option.bind_eq_bind, Option.bind_some, String.ofList_toList, parseInt_toString]
  cases timestamp with
  | none => rfl
  | some d =>
    rw [Option.map_some, Option.getD_some, if_neg (isoformat_ne_none d), fromIsoformat_isoformat]
    rfl

theorem decodeJobCursor_encodeJobCursor (running priority : Int) (availableAt : DateTime)
    (rowId : Nat) : decodeJobCursor (encodeJobCursor running priority availableAt rowId) =
      some ⟨running, priority, availableAt, rowId⟩ := by
  have hlist : (encodeJobCursor running priority availableAt rowId).toList =
      (toString running).toList ++ '|' :: ((toString priority).toList ++ '|' ::
        (availableAt.isoformat.toList ++ '|' :: (toString rowId).toList)) := by
    simp only [encodeJobCursor, String.toList_append, List.append_assoc]
    rfl
  rw [decodeJobCursor, hlist, cutFirst_append (not_mem_toString_int running), Option.bind_eq_bind,
    Option.bind_some]
  dsimp only
  rw [cutFirst_append (not_mem_toString_int priority), Option.bind_some]
  dsimp only
  rw [cutFirst_append (not_mem_isoformat availableAt), Option.bind_some]
  simp only [String.ofList_toList, parseInt_toString_int, fromIsoformat_isoformat,
    parseInt_toString]
  rfl

/-! ## The orders -/

section
variable {clock : Time → DateTime}

namespace Collection

/-- The place of a series: the latest release first, then the greatest id. -/
def latestKey (r : CatalogSeries) : WithTop Intᵒᵈ ×ₗ Natᵒᵈ :=
  toLex (match r.latestReleaseAt with
    | none => ⊤
    | some t => ((OrderDual.toDual t : Intᵒᵈ) : WithTop Intᵒᵈ), OrderDual.toDual r.id)

theorem latestFirst_iff (a b : CatalogSeries) : latestFirst a b ↔ latestKey a ≤ latestKey b := by
  unfold latestFirst latestKey
  rw [Prod.Lex.toLex_le_toLex]
  cases a.latestReleaseAt <;> cases b.latestReleaseAt <;> simp

theorem isAfterCursor_iff {r x : CatalogSeries}
    (hr : ∀ t ∈ r.latestReleaseAt, (clock t).instant = t) :
    isAfterCursor (r.latestReleaseAt.map clock) r.id x = true ↔ latestKey r < latestKey x := by
  unfold isAfterCursor latestKey
  rw [Prod.Lex.toLex_lt_toLex]
  cases hrt : r.latestReleaseAt with
  | none => cases x.latestReleaseAt <;> simp
  | some t =>
    have ht : (clock t).instant = t := hr t hrt
    cases x.latestReleaseAt with
    | none => simp
    | some u =>
      simp [ht, @eq_comm _ u]

end Collection

section
variable {ι : Type} [LinearOrder ι]

/-- The place of a job or a group: the running ones first, then by priority and by time. -/
def jobPlace (running : Nat) (priority : Int) (availableAt : Time) (id : ι) :
    Natᵒᵈ ×ₗ Int ×ₗ Int ×ₗ ι :=
  toLex (OrderDual.toDual running, toLex (priority, toLex (availableAt, id)))

variable {ra rb : Nat} {pa pb : Int} {ta tb : Time} {ia ib : ι}

theorem jobPlace_le : jobPlace ra pa ta ia ≤ jobPlace rb pb tb ib ↔
    rb < ra ∨ (ra = rb ∧ (pa < pb ∨ (pa = pb ∧ (ta < tb ∨ (ta = tb ∧ ia ≤ ib))))) := by
  unfold jobPlace
  simp only [Prod.Lex.toLex_le_toLex, OrderDual.toDual_lt_toDual, OrderDual.toDual_inj]

theorem jobPlace_lt : jobPlace ra pa ta ia < jobPlace rb pb tb ib ↔
    rb < ra ∨ (ra = rb ∧ (pa < pb ∨ (pa = pb ∧ (ta < tb ∨ (ta = tb ∧ ia < ib))))) := by
  unfold jobPlace
  simp only [Prod.Lex.toLex_lt_toLex, OrderDual.toDual_lt_toDual, OrderDual.toDual_inj]

/-- The condition of the cursor of a row is that the place of the other row is a later one. -/
theorem JobCursor.isBefore_iff {idAfter : Bool} {rowId : Int} (ht : (clock ta).instant = ta)
    (hid : idAfter = true ↔ ia < ib) :
    JobCursor.isBefore ⟨ra, pa, clock ta, rowId⟩ rb pb tb idAfter = true ↔
      jobPlace ra pa ta ia < jobPlace rb pb tb ib := by
  rw [jobPlace_lt]
  simp only [JobCursor.isBefore, ht, Bool.or_eq_true, Bool.and_eq_true, decide_eq_true_eq,
    Nat.cast_lt, Nat.cast_inj, hid]
  constructor
  · rintro (((hr | ⟨hr, hp⟩) | ⟨⟨hr, hp⟩, ht⟩) | ⟨⟨⟨hr, hp⟩, ht⟩, hi⟩)
    · exact .inl hr
    · exact .inr ⟨hr.symm, .inl hp⟩
    · exact .inr ⟨hr.symm, .inr ⟨hp.symm, .inl ht⟩⟩
    · exact .inr ⟨hr.symm, .inr ⟨hp.symm, .inr ⟨ht.symm, hi⟩⟩⟩
  · rintro (hr | ⟨hr, hp | ⟨hp, ht | ⟨ht, hi⟩⟩⟩)
    · exact .inl (.inl (.inl hr))
    · exact .inl (.inl (.inr ⟨hr.symm, hp⟩))
    · exact .inl (.inr ⟨⟨hr.symm, hp.symm⟩, ht⟩)
    · exact .inr ⟨⟨⟨hr.symm, hp.symm⟩, ht.symm⟩, hi⟩

end

namespace JobGroup

def place (g : JobGroup) : Natᵒᵈ ×ₗ Int ×ₗ Int ×ₗ Natᵒᵈ :=
  jobPlace g.running g.priority g.availableAt (OrderDual.toDual g.lastId)

theorem isBefore_iff (a b : JobGroup) : isBefore a b ↔ a.place ≤ b.place := by
  rw [place, place, jobPlace_le, OrderDual.toDual_le_toDual, isBefore]

theorem isAfterCursor_iff {g x : JobGroup} (hg : (clock g.availableAt).instant = g.availableAt) :
    isAfterCursor ⟨g.running, g.priority, clock g.availableAt, g.lastId⟩ x = true ↔
      g.place < x.place :=
  JobCursor.isBefore_iff hg (by rw [decide_eq_true_eq, OrderDual.toDual_lt_toDual, Nat.cast_lt])

end JobGroup

namespace WorkJob

def place (j : WorkJob) : Natᵒᵈ ×ₗ Int ×ₗ Int ×ₗ Nat :=
  jobPlace j.isRunning j.priority j.availableAt j.id

theorem isBefore_iff (a b : WorkJob) : isBefore a b ↔ a.place ≤ b.place := by
  rw [place, place, jobPlace_le, isBefore]

theorem isAfterCursor_iff {j x : WorkJob} (hj : (clock j.availableAt).instant = j.availableAt) :
    isAfterCursor ⟨j.isRunning, j.priority, clock j.availableAt, j.id⟩ x = true ↔
      j.place < x.place :=
  JobCursor.isBefore_iff hj (by rw [decide_eq_true_eq, Nat.cast_lt])

end WorkJob

/-! ## All pages -/

theorem encodeCursor_ne_empty (timestamp : Option DateTime) (rowId : Nat) :
    encodeCursor timestamp rowId ≠ "" := by
  intro h
  have := congrArg String.toList h
  simp [encodeCursor] at this

theorem encodeJobCursor_ne_empty (running priority : Int) (availableAt : DateTime) (rowId : Nat) :
    encodeJobCursor running priority availableAt rowId ≠ "" := by
  intro h
  have := congrArg String.toList h
  simp [encodeJobCursor] at this

/-- Rows whose keys end with their ids. -/
theorem nodup_of_id {α κ : Type*} {key : α → κ} {id : α → Nat} {rows : List α} (idOf : κ → Nat)
    (hid : ∀ x, idOf (key x) = id x) (h : (rows.map id).Nodup) : (rows.map key).Nodup := by
  refine List.Nodup.of_map idOf ?_
  rw [List.map_map]
  have hcomp : idOf ∘ key = id := funext hid
  rwa [hcomp]

namespace Queue

variable {s : Queue} {state : List String} {g g' : JobGroup}

/-- A group has jobs, and its last id is that of one of them. -/
theorem mem_allGroups (h : g ∈ s.allGroups state) : g = jobGroup g.key (s.groupJobs state g.key) ∧
    (∃ j ∈ s.groupJobs state g.key, j.id = g.lastId) ∧
    ∃ j ∈ s.groupJobs state g.key, j.availableAt = g.availableAt := by
  obtain ⟨key, hkey, rfl⟩ := List.mem_map.mp h
  obtain ⟨j, hj, rfl⟩ := List.mem_map.mp (List.mem_dedup.mp hkey)
  have hmem : j ∈ s.groupJobs state j.groupName := List.mem_filter.mpr ⟨hj, by simp⟩
  refine ⟨rfl, ?_, ?_⟩
  · cases hm : ((s.groupJobs state j.groupName).map (·.id)).max? with
    | none =>
      rw [List.max?_eq_none_iff, List.map_eq_nil_iff] at hm
      exact absurd hm (List.ne_nil_of_mem hmem)
    | some id =>
      obtain ⟨i, hi, hid⟩ := List.mem_map.mp (List.max?_mem hm)
      refine ⟨i, hi, ?_⟩
      show i.id = (((s.groupJobs state j.groupName).map (·.id)).max?).getD 0
      rw [hm]
      exact hid
  · cases hm : ((s.groupJobs state j.groupName).map (·.availableAt)).min? with
    | none =>
      rw [List.min?_eq_none_iff, List.map_eq_nil_iff] at hm
      exact absurd hm (List.ne_nil_of_mem hmem)
    | some time =>
      obtain ⟨i, hi, hid⟩ := List.mem_map.mp (List.min?_mem hm)
      refine ⟨i, hi, ?_⟩
      show i.availableAt = (((s.groupJobs state j.groupName).map (·.availableAt)).min?).getD 0
      rw [hm]
      exact hid

theorem group_clock {clock : Time → DateTime}
    (hjobs : ∀ j ∈ s.jobs, (clock j.availableAt).instant = j.availableAt)
    (h : g ∈ s.allGroups state) : (clock g.availableAt).instant = g.availableAt := by
  obtain ⟨j, hj, he⟩ := (mem_allGroups h).2.2
  rw [← he]
  exact hjobs j (List.mem_filter.mp (List.mem_filter.mp hj).1).1

/-- No two groups have the same last id. -/
theorem allGroups_nodup (hk : Table.Keyed WorkJob.id s.jobs) :
    ((s.allGroups state).map (·.lastId)).Nodup := by
  have hkeys : ((s.allGroups state).map (·.key)).Nodup := by
    rw [allGroups, List.map_map]
    show (List.map id _).Nodup
    rw [List.map_id]
    exact List.nodup_dedup _
  refine List.Nodup.map_on (fun g hg g' hg' he => ?_) (List.Nodup.of_map _ hkeys)
  obtain ⟨j, hj, hid⟩ := (mem_allGroups hg).2.1
  obtain ⟨j', hj', hid'⟩ := (mem_allGroups hg').2.1
  obtain ⟨hj, hkey⟩ := List.mem_filter.mp hj
  obtain ⟨hj', hkey'⟩ := List.mem_filter.mp hj'
  obtain rfl := hk.eq (List.mem_filter.mp hj).1 (List.mem_filter.mp hj').1
    (hid.trans (he.trans hid'.symm))
  refine List.inj_on_of_nodup_map hkeys hg hg' ?_
  exact (of_decide_eq_true hkey).symm.trans (of_decide_eq_true hkey')

/-- Every group has a representative, so none is left out. -/
theorem groupItem_some (h : g ∈ s.allGroups state) :
    ∃ item, s.groupItem state g = some item ∧ item.toJobGroup = g := by
  obtain ⟨-, ⟨j, hj, -⟩, -⟩ := mem_allGroups h
  have hmem : j ∈ (s.groupJobs state g.key).insertionSort WorkJob.isBefore :=
    (List.mem_insertionSort _).mpr hj
  obtain ⟨x, l, hl⟩ := List.exists_cons_of_ne_nil (List.ne_nil_of_mem hmem)
  exact ⟨_, by rw [groupItem, hl]; rfl, rfl⟩

/-- The items of the groups, one for each. -/
theorem groupItems_eq {groups : List JobGroup} (h : groups ⊆ s.allGroups state) :
    (groups.filterMap (s.groupItem state)).map (·.toJobGroup) = groups := by
  induction groups with
  | nil => rfl
  | cons g groups ih =>
    obtain ⟨item, hi, hg⟩ := groupItem_some (h List.mem_cons_self)
    rw [List.filterMap_cons_some hi, List.map_cons, hg,
      ih fun x hx => h (List.mem_cons_of_mem _ hx)]

end Queue

/-- The cursors of the rows are read back, and the condition on what is after a cursor is that of
`ORDER BY`. -/
structure CursorsExact (ilike : String → String → Bool) (clock : Time → DateTime) (s : Collection)
    (queue : Queue) : Prop where
  discovery : ∀ r ∈ s.series,
    decodeCursor (encodeCursor (r.latestReleaseAt.map clock) r.id) =
      some (r.latestReleaseAt.map clock, (r.id : Int)) ∧
    ∀ x, Collection.isAfterCursor (r.latestReleaseAt.map clock) r.id x = true ↔
      Strictly Collection.latestFirst r x
  groups : ∀ state, ∀ g ∈ queue.allGroups state,
    decodeJobCursor (encodeJobCursor g.running g.priority (clock g.availableAt) g.lastId) =
      some ⟨g.running, g.priority, clock g.availableAt, g.lastId⟩ ∧
    ∀ x, JobGroup.isAfterCursor ⟨g.running, g.priority, clock g.availableAt, g.lastId⟩ x = true ↔
      Strictly JobGroup.isBefore g x
  children : ∀ j ∈ queue.jobs,
    decodeJobCursor (encodeJobCursor j.isRunning j.priority (clock j.availableAt) j.id) =
      some ⟨j.isRunning, j.priority, clock j.availableAt, j.id⟩ ∧
    ∀ x, WorkJob.isAfterCursor ⟨j.isRunning, j.priority, clock j.availableAt, j.id⟩ x = true ↔
      Strictly WorkJob.isBefore j x

section
variable {s : Collection} {queue : Queue}

theorem cursors_exact (ilike : String → String → Bool)
    (hseries : ∀ r ∈ s.series, ∀ t ∈ r.latestReleaseAt, (clock t).instant = t)
    (hjobs : ∀ j ∈ queue.jobs, (clock j.availableAt).instant = j.availableAt) :
    CursorsExact ilike clock s queue where
  discovery r hr := ⟨decodeCursor_encodeCursor _ _, fun x => by
    rw [Collection.isAfterCursor_iff (hseries r hr), strictly_iff Collection.latestFirst_iff]⟩
  groups state g hg := ⟨decodeJobCursor_encodeJobCursor _ _ _ _, fun x => by
    rw [JobGroup.isAfterCursor_iff (Queue.group_clock hjobs hg),
      strictly_iff JobGroup.isBefore_iff]⟩
  children j hj := ⟨decodeJobCursor_encodeJobCursor _ _ _ _, fun x => by
    rw [WorkJob.isAfterCursor_iff (hjobs j hj), strictly_iff WorkJob.isBefore_iff]⟩

/-- Following the cursors returns each matching row once, in the order of the endpoint. -/
theorem pagination_lossless (ilike : String → String → Bool) (clock : Time → DateTime)
    (s : Collection) (queue : Queue) {limit : Nat} (hl : 1 ≤ limit)
    (hs : Table.Keyed CatalogSeries.id s.series) (hq : Table.Keyed WorkJob.id queue.jobs)
    (hseries : ∀ r ∈ s.series, ∀ t ∈ r.latestReleaseAt, (clock t).instant = t)
    (hjobs : ∀ j ∈ queue.jobs, (clock j.availableAt).instant = j.availableAt) :
    (∀ q source, Lossless (s.discovery ilike clock q source limit)
      (s.series.filter (s.isDiscovered ilike q source)) Collection.latestFirst) ∧
    (∀ state, Lossless (queue.jobGroups clock state limit)
        ((queue.allGroups state).filterMap (queue.groupItem state))
        (fun a b => JobGroup.isBefore a.toJobGroup b.toJobGroup) ∧
      ((queue.allGroups state).filterMap (queue.groupItem state)).map (·.toJobGroup) =
        queue.allGroups state) ∧
    (∀ groupKey state, Lossless (queue.jobGroupChildren clock groupKey state limit)
      (queue.allChildren groupKey state) WorkJob.isBefore) ∧
    CursorsExact ilike clock s queue := by
  refine ⟨fun q source => ?_, fun state => ⟨?_, Queue.groupItems_eq (List.Subset.refl _)⟩,
    fun groupKey state => ?_, cursors_exact ilike hseries hjobs⟩
  · have hpages : Pages (s.discovery ilike clock q source limit) Collection.latestKey _ limit _
        some := Pages.of_request (fun r => (r.latestReleaseAt.map clock, (r.id : Int)))
      Collection.latestFirst_iff
      (fun r => ⟨encodeCursor_ne_empty _ _, decodeCursor_encodeCursor _ _⟩)
      fun r hr x => Collection.isAfterCursor_iff (hseries r (List.mem_filter.mp hr).1)
    have hnd : ((s.series.filter (s.isDiscovered ilike q source)).map
        Collection.latestKey).Nodup :=
      nodup_of_id (fun k => OrderDual.ofDual (ofLex k).2) (fun x => rfl)
        (hs.sublist (List.filter_sublist.map _))
    have := hpages.lossless Collection.latestFirst hnd hl (by rw [List.filterMap_some])
      fun x y hxy a ha b hb => by
        cases ha
        cases hb
        exact (strictly_iff Collection.latestFirst_iff x y).mpr hxy
    rwa [List.filterMap_some] at this
  · have hpages : Pages (queue.jobGroups clock state limit) JobGroup.place _ limit _
        (queue.groupItem state) :=
      Pages.of_request (fun g => ⟨g.running, g.priority, clock g.availableAt, g.lastId⟩)
        JobGroup.isBefore_iff
        (fun g => ⟨encodeJobCursor_ne_empty _ _ _ _, decodeJobCursor_encodeJobCursor _ _ _ _⟩)
        fun g hg x => JobGroup.isAfterCursor_iff (Queue.group_clock hjobs hg)
    have hnd : ((queue.allGroups state).map JobGroup.place).Nodup :=
      nodup_of_id (fun k => OrderDual.ofDual (ofLex (ofLex (ofLex k).2).2).2) (fun x => rfl)
        (Queue.allGroups_nodup hq)
    have hitems := Queue.groupItems_eq (List.Subset.refl (queue.allGroups state))
    have hlen := congrArg List.length hitems
    rw [List.length_map] at hlen
    refine hpages.lossless _ hnd hl hlen.ge fun x y hxy a ha b hb => ?_
    have hitem : ∀ {g : JobGroup} {item}, queue.groupItem state g = some item →
        item.toJobGroup = g := by
      intro g item h
      obtain ⟨representative, -, rfl⟩ := Option.map_eq_some_iff.mp h
      rfl
    have hstrict := (strictly_iff JobGroup.isBefore_iff x y).mpr hxy
    rw [← hitem ha, ← hitem hb] at hstrict
    exact hstrict
  · have hpages : Pages (queue.jobGroupChildren clock groupKey state limit) WorkJob.place _ limit _
        some :=
      Pages.of_request (fun j => ⟨j.isRunning, j.priority, clock j.availableAt, j.id⟩)
        WorkJob.isBefore_iff
        (fun j => ⟨encodeJobCursor_ne_empty _ _ _ _, decodeJobCursor_encodeJobCursor _ _ _ _⟩)
        fun j hj x => WorkJob.isAfterCursor_iff (hjobs j (List.mem_filter.mp hj).1)
    have hnd : ((queue.allChildren groupKey state).map WorkJob.place).Nodup :=
      nodup_of_id (fun k => (ofLex (ofLex (ofLex k).2).2).2) (fun x => rfl)
        (hq.sublist (List.filter_sublist.map _))
    have := hpages.lossless WorkJob.isBefore hnd hl (by rw [List.filterMap_some])
      fun x y hxy a ha b hb => by
        cases ha
        cases hb
        exact (strictly_iff WorkJob.isBefore_iff x y).mpr hxy
    rwa [List.filterMap_some] at this

theorem epochFields_valid :
    ({ year := 1970, month := 1, day := 1, offset := some 0 } : DateTimeFields).Valid := by
  decide

/-- The driver's time of the moment 0. -/
def epoch : DateTime := ⟨_, epochFields_valid⟩

/-- Three series, one without a release, and three jobs, two of a group. -/
def pagedCollection : Collection :=
  { series :=
      [{ id := 1, storageKey := "a", latestReleaseAt := some 0 }, { id := 2, storageKey := "b" },
       { id := 3, storageKey := "c", latestReleaseAt := some 0 }] }

def pagedJob (id : Nat) (groupKey : String) : WorkJob :=
  { id, kind := .maintenance, dedupeKey := toString id, payload := .maintenance { action := "" }
    source := "", seriesKey := "", pool := "maintenance", cycleId := none, workflowKey := ""
    groupKey, logicalUnits := 1, priority := 50, maxAttempts := 1, availableAt := 0, createdAt := 0
    updatedAt := 0 }

def pagedQueue : Queue :=
  { jobs := [pagedJob 1 "", pagedJob 2 "maintenance", pagedJob 3 "maintenance"] }

theorem pagedCollection_lossless :
    ((follow (pagedCollection.discovery (fun _ _ => true) (fun _ => epoch) "" [] 2) 4 "").map
      (·.map (·.id)) = some [3, 1, 2]) ∧
    Lossless (pagedCollection.discovery (fun _ _ => true) (fun _ => epoch) "" [] 2)
      (pagedCollection.series.filter (pagedCollection.isDiscovered (fun _ _ => true) "" []))
      Collection.latestFirst :=
  ⟨by decide +kernel,
    (pagination_lossless (fun _ _ => true) (fun _ => epoch) pagedCollection pagedQueue (by decide)
      (by decide) (by decide) (by decide +kernel) (by decide +kernel)).1 "" []⟩

end

end

end MangaManager
