import MangaManager.Lib.Disk
import MangaManager.Lib.Run
import MangaManager.Lib.Table

/-!
# Writing archives

`ContentAddressedStorage` of `manga_manager/infrastructure/storage.py` and the archives that
`LibraryRepairHandler._repair_one` rewrites, file operation by file operation. Several tasks work on
one disk; one may stop after any operation, and names may be unlinked at any time.

`files_whole`: a file among the blobs has the checksum of its name and a projection holds a complete
archive, also while an archive is being written or copied, and a file under either kind of name is
never changed again. A repair writes under a name that is the same each time, so this needs that it
does not open a file that is still there: `interrupted_repair_damages` is what happens otherwise.
-/

namespace MangaManager

open Lib

inductive LibraryRoot where
  | library
  | kavita
  deriving DecidableEq

/-- The names of the storage: `blobs/../<checksum>.cbz`, a path in one of the libraries, an archive
that is imported, `staging/metadata-<artifact>.cbz.tmp`, `staging/<uuid>.cbz.tmp`, and
`.<name>.<uuid>.tmp` beside a blob or a projection. -/
inductive FilePath where
  | blob (checksum : String)
  | projection (root : LibraryRoot) (path : String)
  | imported (path : String)
  | metadata (artifactId : Nat)
  | staging (uuid : Nat)
  | temporary (uuid : Nat)
  deriving DecidableEq

/-- A name under which an archive is complete. -/
def FilePath.isWhole : FilePath → Bool
  | blob _ | projection .. | imported _ => true
  | _ => false

/-- A link or a copy that is then put in its place. `store_existing` verifies its checksum. -/
structure Install where
  source : FilePath
  target : FilePath
  uuid : Nat
  checksum : Option String
  deriving DecidableEq

def Install.temporary (i : Install) : FilePath := .temporary i.uuid

/-- What is called: `store_pages`, `store_existing` of an archive that is imported, `_repair_one`, and
`materialize` or `materialize_kavita`. -/
inductive FileJob where
  | storePages (uuid : Nat)
  | storeExisting (path : String)
  | repairOne (artifactId : Nat) (projection : String)
  | materialize (root : LibraryRoot) (path : String)
  deriving DecidableEq

namespace FileJob

/-- The archive that the job writes, and unlinks in the end. -/
def staging : FileJob → Option FilePath
  | storePages uuid => some (.staging uuid)
  | repairOne artifactId _ => some (.metadata artifactId)
  | _ => none

/-- What is stored. -/
def source : FileJob → Option FilePath
  | storeExisting path => some (.imported path)
  | job => job.staging

/-- Where the blob is projected to. -/
def projection : FileJob → Option FilePath
  | repairOne _ path => some (.projection .library path)
  | materialize root path => some (.projection root path)
  | _ => none

end FileJob

inductive FilePhase where
  | opening
  | writing (fd : Nat)
  | checking
  | looking (checksum : String)
  | replacing (checksum : String)
  | projecting (checksum : String)
  | linking (i : Install)
  | copying (i : Install) (src fd offset : Nat)
  | verifying (i : Install)
  | installing (i : Install)
  | dropping (i : Install) (ok : Bool)
  | cleaning
  deriving DecidableEq

/-- What happens at an operation. -/
inductive FileInput (β : Type) where
  | go
  | write (bytes : List β)
  | chunk (n : Nat)
  | refused
  | fails

structure FileTask where
  id : Nat
  job : FileJob
  phase : FilePhase

/-- The disk, and the tasks at work on it. `archives` is what was written to its end, or came whole
from outside. -/
structure FileWork (β : Type) where
  disk : Disk FilePath β := {}
  tasks : List FileTask := []
  uuids : Nat := 0
  archives : List (List β) := []

inductive FileMove (β : Type) where
  | storePages (id : Nat)
  | storeExisting (id : Nat) (path : String)
  | repairOne (id : Nat) (artifactId : Nat) (projection : String)
  | materialize (id : Nat) (checksum : String) (root : LibraryRoot) (path : String)
  | advance (id : Nat) (input : FileInput β)
  | stop (id : Nat)
  | unlink (path : FilePath)
  | arrive (path : String) (bytes : List β)

variable {β : Type}

/-- An exception: the `finally` blocks. -/
def FilePhase.failed : FilePhase → Option FilePhase
  | linking i | copying i .. | verifying i | installing i => some (dropping i false)
  | cleaning => none
  | _ => some cleaning

/-- After `store_existing` and `_store_fresh_archive`. -/
def FileJob.stored (checksum : String) : FileJob → FilePhase
  | repairOne .. => .projecting checksum
  | _ => .cleaning

/-- After `_materialize` or the storing of a copy. -/
def FileJob.installed (job : FileJob) (i : Install) : FilePhase :=
  match i.target with
  | .blob checksum => job.stored checksum
  | _ => .cleaning

/-- The copy is there. -/
def Install.copied (i : Install) : FilePhase :=
  if i.checksum.isSome then .verifying i else .installing i

namespace FileWork

variable (sha : List β → String) (w : FileWork β) (job : FileJob)

/-- `shutil.copy2`. -/
def copy (i : Install) : FileWork β × Option FilePhase :=
  match w.disk.inode i.source with
  | none => (w, some (.dropping i false))
  | some src =>
    let new := w.disk.create i.temporary
    ({ w with disk := new.1 }, some (.copying i src new.2 0))

/-- The next operation of a task, with the phase it leaves. -/
def operate (phase : FilePhase) (input : FileInput β) : FileWork β × Option FilePhase :=
  match phase with
  | .opening => match job.staging with
    | none => (w, phase.failed)
    | some p =>
      let new := w.disk.create p
      ({ w with disk := new.1 }, some (.writing new.2))
  | .writing fd => match input with
    | .write bytes => ({ w with disk := w.disk.append fd bytes }, some phase)
    | _ => ({ w with archives := w.disk.data fd :: w.archives }, some .checking)
  | .checking => match job.source.bind w.disk.file? with
    | none => (w, phase.failed)
    | some bytes => (w, some (.looking (sha bytes)))
  | .looking checksum => match w.disk.file? (.blob checksum), job, job.source with
    | some bytes, _, _ =>
      if sha bytes = checksum then (w, some (job.stored checksum)) else (w, phase.failed)
    | none, .storePages _, _ => (w, some (.replacing checksum))
    | none, _, none => (w, phase.failed)
    | none, _, some source =>
      ({ w with uuids := w.uuids + 1 },
        some (.linking ⟨source, .blob checksum, w.uuids, some checksum⟩))
  | .replacing checksum => match job.source.bind fun p => w.disk.replace p (.blob checksum) with
    | none => (w, phase.failed)
    | some disk => ({ w with disk := disk }, some (job.stored checksum))
  | .projecting checksum => match w.disk.file? (.blob checksum), job.projection with
    | some _, some target =>
      ({ w with uuids := w.uuids + 1 }, some (.linking ⟨.blob checksum, target, w.uuids, none⟩))
    | _, _ => (w, phase.failed)
  | .linking i => match input, w.disk.link i.source i.temporary with
    | .refused, _ | _, none => w.copy i
    | _, some disk => ({ w with disk := disk }, some i.copied)
  | .copying i src fd offset =>
    let rest := (w.disk.data src).drop offset
    match input, rest with
    | .chunk n, _ =>
      ({ w with disk := w.disk.append fd (rest.take n) },
        some (.copying i src fd (offset + (rest.take n).length)))
    | _, [] => (w, some i.copied)
    | _, _ => (w, some phase)
  | .verifying i => match w.disk.file? i.temporary with
    | none => (w, phase.failed)
    | some bytes =>
      if i.checksum = some (sha bytes) then (w, some (.installing i)) else (w, phase.failed)
  | .installing i => match w.disk.replace i.temporary i.target with
    | none => (w, phase.failed)
    | some disk => ({ w with disk := disk }, some (.dropping i true))
  | .dropping i ok =>
    ({ w with disk := w.disk.unlink i.temporary },
      some (if ok then job.installed i else .cleaning))
  | .cleaning => match job.staging with
    | none => (w, none)
    | some p => ({ w with disk := w.disk.unlink p }, none)

def perform (phase : FilePhase) (input : FileInput β) : FileWork β × Option FilePhase :=
  match input with
  | .fails => (w, phase.failed)
  | _ => w.operate sha job phase input

def task? (id : Nat) : Option FileTask := Table.get FileTask.id w.tasks id

/-- The task goes on, or has ended. -/
def resume (id : Nat) (job : FileJob) (phase : Option FilePhase) : List FileTask :=
  w.tasks.filter (·.id != id) ++ (phase.map (FileTask.mk id job)).toList

def call (id : Nat) (job : FileJob) (phase : FilePhase) : Option (FileWork β) :=
  if (w.task? id).isSome then none else some { w with tasks := w.resume id job (some phase) }

/-- A `uuid4` is a number that was not drawn before. -/
def step : FileMove β → Option (FileWork β)
  | .storePages id => { w with uuids := w.uuids + 1 }.call id (.storePages w.uuids) .opening
  | .storeExisting id path => w.call id (.storeExisting path) .checking
  | .repairOne id artifactId path => w.call id (.repairOne artifactId path) .opening
  | .materialize id checksum root path => w.call id (.materialize root path) (.projecting checksum)
  | .advance id input => (w.task? id).map fun x =>
    let done := w.perform sha x.job x.phase input
    { done.1 with tasks := w.resume id x.job done.2 }
  | .stop id => some { w with tasks := w.tasks.filter (·.id != id) }
  | .unlink path => some { w with disk := w.disk.unlink path }
  | .arrive path bytes =>
    let new := (w.disk.unlink (.imported path)).create (.imported path)
    some { w with disk := new.1.append new.2 bytes, archives := bytes :: w.archives }

/-- A repair opens no archive that an earlier one left, or that another one still works on. -/
def opensNew : FileMove β → Bool
  | .advance _ .fails => true
  | .advance id _ => (w.task? id).all fun x => match x.job, x.phase with
    | .repairOne artifactId _, .opening => (w.disk.inode (.metadata artifactId)).isNone &&
        w.tasks.all fun y => y.id == id || y.phase == .opening || y.phase == .cleaning ||
          y.job.staging != x.job.staging
    | _, _ => true
  | _ => true

/-- What holds of the files that readers see. -/
structure Whole : Prop where
  blobs : ∀ checksum bytes, w.disk.file? (.blob checksum) = some bytes →
    sha bytes = checksum ∧ bytes ∈ w.archives
  projections : ∀ root path bytes, w.disk.file? (.projection root path) = some bytes →
    bytes ∈ w.archives

/-- A disk with blobs and projections, and nothing under way. -/
structure Idle : Prop extends w.Whole sha where
  tasks : w.tasks = []
  bound : ∀ p i, w.disk.inode p = some i → i < w.disk.next
  imported : ∀ path bytes, w.disk.file? (.imported path) = some bytes → bytes ∈ w.archives
  drawn : ∀ uuid, w.uuids ≤ uuid → w.disk.inode (.staging uuid) = none ∧
    w.disk.inode (.temporary uuid) = none

end FileWork

def FileStep (sha : List β → String) (w : FileWork β) (m : FileMove β) (w' : FileWork β) : Prop :=
  w.step sha m = some w'

/-! ## What a task holds -/

namespace FileTask

variable (x : FileTask)

/-- The names that no one else makes. -/
def owns : List FilePath :=
  match x.job, x.phase with
  | .repairOne .., .opening | _, .cleaning => []
  | job, .linking i | job, .copying i .. | job, .verifying i | job, .installing i
  | job, .dropping i _ => i.temporary :: job.staging.toList
  | job, _ => job.staging.toList

/-- The inode that it writes. -/
def handle : Option Nat :=
  match x.phase with
  | .writing fd | .copying _ _ fd _ => some fd
  | _ => none

/-- The inode that it reads. -/
def reads : Option Nat :=
  match x.phase with
  | .copying _ src .. => some src
  | _ => none

end FileTask

/-- A blob's copy is verified. -/
structure Install.Fits (i : Install) : Prop where
  whole : i.target.isWhole = true
  checked : ∀ checksum, i.target = .blob checksum → i.checksum = some checksum

namespace FileWork

variable (sha : List β → String) (w : FileWork β)

/-- What a task knows of its own files. -/
def Knows (job : FileJob) : FilePhase → Prop
  | .opening => ∀ uuid, job = .storePages uuid → w.disk.inode (.staging uuid) = none
  | .writing fd => ∀ p ∈ job.staging, ∀ i, w.disk.inode p = some i → i = fd
  | .checking => ∀ p ∈ job.staging, ∀ i, w.disk.inode p = some i → w.disk.data i ∈ w.archives
  | .looking checksum => ∀ p ∈ job.staging, ∀ i, w.disk.inode p = some i →
    w.disk.data i ∈ w.archives ∧ sha (w.disk.data i) = checksum
  | .replacing checksum => ∀ p ∈ job.source, p ∈ job.staging ∧ ∀ i, w.disk.inode p = some i →
    w.disk.data i ∈ w.archives ∧ sha (w.disk.data i) = checksum
  | .linking i => i.Fits ∧ w.disk.inode i.temporary = none ∧
    (i.source.isWhole = true ∨ i.source ∈ job.staging ∧
      ∀ j, w.disk.inode i.source = some j → w.disk.data j ∈ w.archives)
  | .copying i src fd offset => i.Fits ∧ (∀ j, w.disk.inode i.temporary = some j → j = fd) ∧
    src < w.disk.next ∧ w.disk.data src ∈ w.archives ∧
    w.disk.data fd = (w.disk.data src).take offset
  | .verifying i => i.Fits ∧
    ∀ j, w.disk.inode i.temporary = some j → w.disk.data j ∈ w.archives
  | .installing i => i.Fits ∧ ∀ j, w.disk.inode i.temporary = some j →
    w.disk.data j ∈ w.archives ∧ ∀ checksum, i.target = .blob checksum →
      sha (w.disk.data j) = checksum
  | .projecting _ | .dropping .. | .cleaning => True

/-- A file under a name that readers look for. -/
def Sound (p : FilePath) (i : Nat) : Prop :=
  w.disk.data i ∈ w.archives ∧ ∀ checksum, p = .blob checksum → sha (w.disk.data i) = checksum

structure Ok : Prop where
  keyed : Table.Keyed FileTask.id w.tasks
  bound : ∀ p i, w.disk.inode p = some i → i < w.disk.next
  drawn : ∀ uuid, w.uuids ≤ uuid → w.disk.inode (.staging uuid) = none ∧
    w.disk.inode (.temporary uuid) = none
  tokens : ∀ x ∈ w.tasks, ∀ p ∈ x.owns, p.isWhole = false ∧
    ∀ uuid, p = .staging uuid ∨ p = .temporary uuid → uuid < w.uuids
  apart : ∀ x ∈ w.tasks, ∀ y ∈ w.tasks, ∀ p ∈ x.owns, p ∈ y.owns → x.id = y.id
  handles : ∀ x ∈ w.tasks, ∀ i, x.handle = some i → i < w.disk.next ∧
    (∀ p, w.disk.inode p = some i → p ∈ x.owns) ∧
    ∀ y ∈ w.tasks, (y.handle = some i → y.id = x.id) ∧ y.reads ≠ some i
  whole : ∀ p i, p.isWhole = true → w.disk.inode p = some i → w.Sound sha p i
  knows : ∀ x ∈ w.tasks, w.Knows sha x.job x.phase

/-- What an operation may change, and the phase after it. -/
structure Performs (x : FileTask) (w' : FileWork β) (q : Option FilePhase) : Prop where
  keeps : Disk.Keeps (fun i => x.handle = some i) w.disk w'.disk
  uuids : w.uuids ≤ w'.uuids
  archives : ∀ b ∈ w.archives, b ∈ w'.archives
  names : ∀ p i, w'.disk.inode p = some i → w.disk.inode p = some i ∨
    (i = w.disk.next ∧ i < w'.disk.next ∧ ∃ phase ∈ q, p ∈ (FileTask.mk x.id x.job phase).owns) ∨
    ((∃ phase ∈ q, p ∈ (FileTask.mk x.id x.job phase).owns) ∨ p.isWhole = true) ∧
      ∃ s, w.disk.inode s = some i ∧ (s ∈ x.owns ∨ s.isWhole = true)
  whole : ∀ p i, p.isWhole = true → w'.disk.inode p = some i → w.disk.inode p = some i ∨
    w'.Sound sha p i
  owns : ∀ phase ∈ q, ∀ p ∈ (FileTask.mk x.id x.job phase).owns, p ∈ x.owns ∨
    (p = .temporary w.uuids ∧ w.uuids < w'.uuids) ∨
    (x.phase = .opening ∧ p ∈ x.job.staging ∧ ∀ y ∈ w.tasks, p ∈ y.owns → y.id = x.id)
  handle : ∀ phase ∈ q, ∀ i, (FileTask.mk x.id x.job phase).handle = some i →
    i = w.disk.next ∧ i < w'.disk.next ∨ x.handle = some i ∧ w'.disk.inode = w.disk.inode ∧
      (FileTask.mk x.id x.job phase).owns = x.owns
  reads : ∀ phase ∈ q, ∀ i, (FileTask.mk x.id x.job phase).reads = some i →
    x.reads = some i ∨ x.handle = none ∧
      ∃ s, w.disk.inode s = some i ∧ (s ∈ x.owns ∨ s.isWhole = true)
  knows : ∀ phase ∈ q, w'.Knows sha x.job phase

end FileWork

section
variable {sha : List β → String} {w w' : FileWork β} {x y : FileTask} {job : FileJob}
  {phase : FilePhase} {q : Option FilePhase} {input : FileInput β} {id i : Nat} {p : FilePath}
  {H : Nat → Prop}

theorem FileTask.staging_owned (hp : p ∈ job.staging) (h : phase ≠ .opening)
    (h' : phase ≠ .cleaning) : p ∈ (FileTask.mk id job phase).owns := by
  have hp : p ∈ job.staging.toList := by simpa using hp
  unfold owns
  cases phase with
  | opening => exact absurd rfl h
  | cleaning => exact absurd rfl h'
  | writing | checking | looking | replacing | projecting => cases job <;> exact hp
  | linking | copying | verifying | installing | dropping =>
    cases job <;> exact List.mem_cons_of_mem _ hp

/-- Names that are owned are of the job, or of the copy that is put in place. -/
theorem FileTask.owned (h : p ∈ (FileTask.mk id job phase).owns) :
    p ∈ job.staging ∨ ∃ i : Install, p = i.temporary ∧
      (phase = .linking i ∨ (∃ a b c, phase = .copying i a b c) ∨ phase = .verifying i ∨
        phase = .installing i ∨ ∃ ok, phase = .dropping i ok) := by
  unfold owns at h
  cases phase with
  | opening => cases job <;> simp_all
  | cleaning => cases job <;> cases h
  | writing | checking | looking | replacing | projecting =>
    exact .inl (by cases job <;> simpa using h)
  | linking i | copying i | verifying i | installing i | dropping i =>
    have h : p ∈ i.temporary :: job.staging.toList := by cases job <;> exact h
    rcases List.mem_cons.mp h with rfl | h
    · exact .inr ⟨i, rfl, by simp⟩
    · exact .inl (by simpa using h)

/-- What a task knows stays true when no one else makes its names or writes to its files. -/
theorem FileWork.Knows.frame (h : w.Knows sha job phase) (id : Nat)
    (hk : Disk.Keeps H w.disk w'.disk)
    (hb : ∀ p i, w.disk.inode p = some i → i < w.disk.next)
    (ha : ∀ b ∈ w.archives, b ∈ w'.archives)
    (hn : ∀ p ∈ (FileTask.mk id job phase).owns, ∀ i, w'.disk.inode p = some i →
      w.disk.inode p = some i ∧ ¬ H i)
    (hh : ∀ i, (FileTask.mk id job phase).handle = some i → i < w.disk.next ∧ ¬ H i)
    (hr : ∀ i, (FileTask.mk id job phase).reads = some i → ¬ H i) : w'.Knows sha job phase := by
  have hstaging : phase ≠ .opening → phase ≠ .cleaning → ∀ p ∈ job.staging, ∀ i,
      w'.disk.inode p = some i → w.disk.inode p = some i ∧ w'.disk.data i = w.disk.data i := by
    intro hne hne' p hp i hi
    obtain ⟨hold, hH⟩ := hn p (FileTask.staging_owned hp hne hne') i hi
    exact ⟨hold, hk.data i (hb p i hold) hH⟩
  have htemp : ∀ i : Install, i.temporary ∈ (FileTask.mk id job phase).owns →
      ∀ j, w'.disk.inode i.temporary = some j →
      w.disk.inode i.temporary = some j ∧ w'.disk.data j = w.disk.data j := by
    intro i hi j hj
    obtain ⟨hold, hH⟩ := hn _ hi j hj
    exact ⟨hold, hk.data j (hb _ j hold) hH⟩
  cases phase with
  | opening =>
    intro uuid he
    cases hi : w'.disk.inode (.staging uuid) with
    | none => rfl
    | some i =>
      subst he
      have hold := (hn (.staging uuid) (by simp [FileTask.owns, FileJob.staging]) i hi).1
      rw [h uuid rfl] at hold
      cases hold
  | writing fd => exact fun p hp i hi => h p hp i (hstaging (by simp) (by simp) p hp i hi).1
  | checking =>
    intro p hp i hi
    obtain ⟨hold, hd⟩ := hstaging (by simp) (by simp) p hp i hi
    rw [hd]
    exact ha _ (h p hp i hold)
  | looking checksum =>
    intro p hp i hi
    obtain ⟨hold, hd⟩ := hstaging (by simp) (by simp) p hp i hi
    rw [hd]
    exact (h p hp i hold).imp_left (ha _)
  | replacing checksum =>
    intro p hp
    refine ⟨(h p hp).1, fun i hi => ?_⟩
    obtain ⟨hold, hd⟩ := hstaging (by simp) (by simp) p (h p hp).1 i hi
    rw [hd]
    exact ((h p hp).2 i hold).imp_left (ha _)
  | projecting | dropping | cleaning => trivial
  | linking i =>
    obtain ⟨hfits, hnone, hsource⟩ := h
    have htmp := htemp i (by cases job <;> simp [FileTask.owns])
    refine ⟨hfits, ?_, hsource.imp_right fun ⟨hs, hd⟩ => ⟨hs, fun j hj => ?_⟩⟩
    · cases hi : w'.disk.inode i.temporary with
      | none => rfl
      | some j =>
        have hold := (htmp j hi).1
        rw [hnone] at hold
        cases hold
    · obtain ⟨hold, he⟩ := hstaging (by simp) (by simp) _ hs j hj
      rw [he]
      exact ha _ (hd j hold)
  | copying i src fd offset =>
    obtain ⟨hfits, hfd, hsrc, hdata, htake⟩ := h
    have htmp := htemp i (by cases job <;> simp [FileTask.owns])
    obtain ⟨hlt, hH⟩ := hh fd rfl
    refine ⟨hfits, fun j hj => hfd j (htmp j hj).1, Nat.lt_of_lt_of_le hsrc hk.next, ?_, ?_⟩
    · rw [hk.data src hsrc (hr src rfl)]
      exact ha _ hdata
    · rw [hk.data src hsrc (hr src rfl), hk.data fd hlt hH]
      exact htake
  | verifying i =>
    have htmp := htemp i (by cases job <;> simp [FileTask.owns])
    refine ⟨h.1, fun j hj => ?_⟩
    rw [(htmp j hj).2]
    exact ha _ (h.2 j (htmp j hj).1)
  | installing i =>
    have htmp := htemp i (by cases job <;> simp [FileTask.owns])
    refine ⟨h.1, fun j hj => ?_⟩
    rw [(htmp j hj).2]
    exact (h.2 j (htmp j hj).1).imp_left (ha _)

theorem FileWork.Knows.reads_lt (h : w.Knows sha x.job x.phase) (hr : x.reads = some i) :
    i < w.disk.next := by
  obtain ⟨id, job, phase⟩ := x
  cases phase with
  | copying j src fd offset =>
    cases hr
    exact h.2.2.1
  | _ => cases hr

theorem FileWork.mem_resume : y ∈ w.resume id job q ↔
    (y ∈ w.tasks ∧ y.id ≠ id) ∨ ∃ phase ∈ q, y = ⟨id, job, phase⟩ := by
  unfold resume
  simp only [List.mem_append, List.mem_filter, bne_iff_ne, Option.mem_toList, Option.mem_def,
    Option.map_eq_some_iff]
  exact or_congr_right ⟨fun ⟨p, hp, h⟩ => ⟨p, hp, h.symm⟩, fun ⟨p, hp, h⟩ => ⟨p, hp, h.symm⟩⟩

theorem FileWork.keyed_resume (h : Table.Keyed FileTask.id w.tasks) :
    Table.Keyed FileTask.id (w.resume id job q) := by
  unfold resume
  cases q with
  | none =>
    rw [Option.map_none, Option.toList_none, List.append_nil]
    exact h.filter
  | some phase =>
    refine Table.keyed_append.mpr ⟨h.filter, fun x hx => ?_⟩
    simpa using (List.mem_filter.mp hx).2

/-- The names of a task after an operation: another task has none of them. -/
theorem FileWork.Performs.owns_apart (h : w.Ok sha) (hx : x ∈ w.tasks) (hp : w.Performs sha x w' q)
    (hy : y ∈ w.tasks) (hne : y.id ≠ x.id) (hq : phase ∈ q)
    (hown : p ∈ (FileTask.mk x.id x.job phase).owns) : p ∉ y.owns := by
  intro hmem
  rcases hp.owns phase hq p hown with hold | ⟨rfl, -⟩ | ⟨-, -, hfree⟩
  · exact hne (h.apart y hy x hx p hmem hold)
  · exact absurd ((h.tokens y hy _ hmem).2 _ (.inr rfl)) (Nat.lt_irrefl _)
  · exact hne (hfree y hy hmem)

/-- An operation keeps everything in order. -/
theorem FileWork.Ok.advance (h : w.Ok sha) (hx : x ∈ w.tasks) (hp : w.Performs sha x w' q) :
    { w' with tasks := w.resume x.id x.job q }.Ok sha := by
  have hnext := hp.keeps.next
  -- a download has reserved the name that it opens
  have hstaging : x.phase = .opening → ∀ uuid, .staging uuid ∈ x.job.staging →
      .staging uuid ∈ x.owns := by
    intro ho uuid hs
    unfold FileTask.owns
    rw [ho]
    cases hj : x.job <;> rw [hj] at hs <;> simp_all [FileJob.staging]
  have htoken : ∀ phase ∈ q, ∀ p ∈ (FileTask.mk x.id x.job phase).owns, p.isWhole = false ∧
      ∀ uuid, p = .staging uuid ∨ p = .temporary uuid → uuid < w'.uuids := by
    intro phase hq p hown
    rcases hp.owns phase hq p hown with hold | ⟨rfl, hlt⟩ | ⟨ho, hs, -⟩
    · exact (h.tokens x hx p hold).imp_right fun ht uuid hu =>
        Nat.lt_of_lt_of_le (ht uuid hu) hp.uuids
    · refine ⟨rfl, fun uuid hu => ?_⟩
      rcases hu with hu | hu <;> cases hu
      exact hlt
    · have hshape : p.isWhole = false ∧ ∀ uuid, p ≠ .temporary uuid := by
        cases hj : x.job <;> rw [hj] at hs <;> simp [FileJob.staging] at hs <;> subst hs <;>
          exact ⟨rfl, fun _ h => (by cases h)⟩
      refine ⟨hshape.1, fun uuid hu => ?_⟩
      rcases hu with rfl | hu
      · exact Nat.lt_of_lt_of_le ((h.tokens x hx _ (hstaging ho uuid hs)).2 uuid (.inl rfl)) hp.uuids
      · exact absurd hu (hshape.2 uuid)
  -- the names of what another task writes
  have hnames : ∀ y ∈ w.tasks, y.id ≠ x.id → ∀ i, y.handle = some i → ∀ p,
      w'.disk.inode p = some i → w.disk.inode p = some i := by
    intro y hy hne i hi p hpi
    obtain ⟨hlt, hown, -⟩ := h.handles y hy i hi
    rcases hp.names p i hpi with hold | ⟨rfl, -⟩ | ⟨-, s, hs, hsx | hsx⟩
    · exact hold
    · exact absurd hlt (Nat.lt_irrefl _)
    · exact absurd (h.apart y hy x hx s (hown s hs) hsx) hne
    · rw [(h.tokens y hy s (hown s hs)).1] at hsx
      cases hsx
  refine ⟨keyed_resume h.keyed, fun p i hpi => ?_, fun uuid hu => ?_, fun y hy p hown => ?_,
    fun y hy z hz p hy' hz' => ?_, fun y hy i hi => ?_, fun p i hw hpi => ?_, fun y hy => ?_⟩
  · rcases hp.names p i hpi with hold | ⟨rfl, hlt, -⟩ | ⟨-, s, hs, -⟩
    · exact Nat.lt_of_lt_of_le (h.bound p i hold) hnext
    · exact hlt
    · exact Nat.lt_of_lt_of_le (h.bound s i hs) hnext
  · have hnone : ∀ p : FilePath, p = .staging uuid ∨ p = .temporary uuid →
        w'.disk.inode p = none := by
      intro p hshape
      cases hpi : w'.disk.inode p with
      | none => rfl
      | some i =>
        have hown : (∃ phase ∈ q, p ∈ (FileTask.mk x.id x.job phase).owns) := by
          rcases hp.names p i hpi with hold | ⟨-, -, hown⟩ | ⟨hown | hw, -⟩
          · have hdrawn := h.drawn uuid (Nat.le_trans hp.uuids hu)
            rcases hshape with rfl | rfl
            · rw [hdrawn.1] at hold
              cases hold
            · rw [hdrawn.2] at hold
              cases hold
          · exact hown
          · exact hown
          · rcases hshape with rfl | rfl <;> cases hw
        obtain ⟨phase, hq, hown⟩ := hown
        exact absurd ((htoken phase hq p hown).2 uuid hshape) (Nat.not_lt.mpr hu)
    exact ⟨hnone _ (.inl rfl), hnone _ (.inr rfl)⟩
  · rcases mem_resume.mp hy with ⟨hy, -⟩ | ⟨phase, hq, rfl⟩
    · exact (h.tokens y hy p hown).imp_right fun ht uuid hu =>
        Nat.lt_of_lt_of_le (ht uuid hu) hp.uuids
    · exact htoken phase hq p hown
  · rcases mem_resume.mp hy with ⟨hy, hne⟩ | ⟨phase, hq, rfl⟩
    · rcases mem_resume.mp hz with ⟨hz, -⟩ | ⟨phase, hq, rfl⟩
      · exact h.apart y hy z hz p hy' hz'
      · exact absurd hy' (hp.owns_apart h hx hy hne hq hz')
    · rcases mem_resume.mp hz with ⟨hz, hne⟩ | ⟨phase', hq', rfl⟩
      · exact absurd hz' (hp.owns_apart h hx hz hne hq hy')
      · rfl
  · rcases mem_resume.mp hy with ⟨hy, hne⟩ | ⟨phase, hq, rfl⟩
    · obtain ⟨hlt, hown, hothers⟩ := h.handles y hy i hi
      refine ⟨Nat.lt_of_lt_of_le hlt hnext, fun p hpi => hown p (hnames y hy hne i hi p hpi),
        fun z hz => ?_⟩
      rcases mem_resume.mp hz with ⟨hz, -⟩ | ⟨phase, hq, rfl⟩
      · exact hothers z hz
      · refine ⟨fun hzi => ?_, fun hzi => ?_⟩
        · rcases hp.handle phase hq i hzi with ⟨rfl, -⟩ | ⟨hxi, -⟩
          · exact absurd hlt (Nat.lt_irrefl _)
          · exact (hothers x hx).1 hxi
        · rcases hp.reads phase hq i hzi with hold | ⟨-, s, hs, hsx | hsx⟩
          · exact (hothers x hx).2 hold
          · exact hne (h.apart y hy x hx s (hown s hs) hsx)
          · rw [(h.tokens y hy s (hown s hs)).1] at hsx
            cases hsx
    · rcases hp.handle phase hq i hi with ⟨rfl, hlt⟩ | ⟨hxi, hsame, howns⟩
      · refine ⟨hlt, fun p hpi => ?_, fun z hz => ?_⟩
        · rcases hp.names p _ hpi with hold | ⟨-, -, phase', hq', hown⟩ | ⟨-, s, hs, -⟩
          · exact absurd (h.bound p _ hold) (Nat.lt_irrefl _)
          · rwa [Option.mem_unique hq hq']
          · exact absurd (h.bound s _ hs) (Nat.lt_irrefl _)
        · rcases mem_resume.mp hz with ⟨hz, -⟩ | ⟨phase', hq', rfl⟩
          · exact ⟨fun hzi => absurd (h.handles z hz _ hzi).1 (Nat.lt_irrefl _),
              fun hzi => absurd ((h.knows z hz).reads_lt hzi) (Nat.lt_irrefl _)⟩
          · refine ⟨fun _ => rfl, fun hzi => ?_⟩
            rcases hp.reads phase' hq' _ hzi with hold | ⟨-, s, hs, -⟩
            · exact absurd ((h.knows x hx).reads_lt hold) (Nat.lt_irrefl _)
            · exact absurd (h.bound s _ hs) (Nat.lt_irrefl _)
      · obtain ⟨hlt, hown, hothers⟩ := h.handles x hx i hxi
        refine ⟨Nat.lt_of_lt_of_le hlt hnext, fun p hpi => ?_, fun z hz => ?_⟩
        · rw [howns]
          exact hown p (by rw [← hsame]; exact hpi)
        · rcases mem_resume.mp hz with ⟨hz, -⟩ | ⟨phase', hq', rfl⟩
          · exact hothers z hz
          · refine ⟨fun _ => rfl, fun hzi => ?_⟩
            rcases hp.reads phase' hq' _ hzi with hold | ⟨hnone, -⟩
            · exact (hothers x hx).2 hold
            · rw [hxi] at hnone
              cases hnone
  · rcases hp.whole p i hw hpi with hold | hnew
    · have hH : ¬ x.handle = some i := by
        intro hxi
        have := (h.tokens x hx p ((h.handles x hx i hxi).2.1 p hold)).1
        rw [hw] at this
        cases this
      have hsound := h.whole p i hw hold
      unfold Sound at hsound ⊢
      rw [hp.keeps.data i (h.bound p i hold) hH]
      exact hsound.imp_left (hp.archives _)
    · exact hnew
  · rcases mem_resume.mp hy with ⟨hy, hne⟩ | ⟨phase, hq, rfl⟩
    · refine (h.knows y hy).frame y.id hp.keeps h.bound hp.archives (fun p hown i hpi => ?_)
        (fun i hi => ?_) fun i hi hxi => ?_
      · have hold : w.disk.inode p = some i := by
          rcases hp.names p i hpi with hold | ⟨-, -, phase, hq, hown'⟩ |
            ⟨⟨phase, hq, hown'⟩ | hw, -⟩
          · exact hold
          · exact absurd hown (hp.owns_apart h hx hy hne hq hown')
          · exact absurd hown (hp.owns_apart h hx hy hne hq hown')
          · rw [(h.tokens y hy p hown).1] at hw
            cases hw
        exact ⟨hold, fun hxi =>
          hne (h.apart y hy x hx p hown ((h.handles x hx i hxi).2.1 p hold))⟩
      · obtain ⟨hlt, -, hothers⟩ := h.handles y hy i hi
        exact ⟨hlt, fun hxi => hne ((hothers x hx).1 hxi).symm⟩
      · exact ((h.handles x hx i hxi).2.2 y hy).2 hi
    · exact hp.knows phase hq

/-! ## Every operation -/

theorem FileJob.staging_source (h : p ∈ job.staging) : job.source = some p := by
  cases job <;> first | exact h | cases h

theorem FileJob.source_cases (h : p ∈ job.source) : p.isWhole = true ∨ p ∈ job.staging := by
  cases job <;> first | exact .inr h | (cases h; exact .inl rfl)

theorem FileJob.staging_part (h : p ∈ job.staging) : p.isWhole = false := by
  cases job <;> cases h <;> rfl

namespace FileWork

/-- An operation that makes no name and writes nothing. -/
theorem Performs.quiet (hn : w'.disk.next = w.disk.next) (hd : w'.disk.data = w.disk.data)
    (hi : ∀ p i, w'.disk.inode p = some i → w.disk.inode p = some i)
    (hu : w.uuids ≤ w'.uuids) (ha : ∀ b ∈ w.archives, b ∈ w'.archives)
    (ho : ∀ phase ∈ q, ∀ p ∈ (FileTask.mk x.id x.job phase).owns,
      p ∈ x.owns ∨ p = .temporary w.uuids ∧ w.uuids < w'.uuids)
    (hh : ∀ phase ∈ q, (FileTask.mk x.id x.job phase).handle = none ∨
      phase = x.phase ∧ w'.disk.inode = w.disk.inode)
    (hk : ∀ phase ∈ q, w'.Knows sha x.job phase) : w.Performs sha x w' q where
  keeps := ⟨Nat.le_of_eq hn.symm, fun i _ _ => congrFun hd i⟩
  uuids := hu
  archives := ha
  names := fun p i h => .inl (hi p i h)
  whole := fun p i _ h => .inl (hi p i h)
  owns := fun phase hq p hp => (ho phase hq p hp).imp_right .inl
  handle := by
    intro phase hq i hphase
    rcases hh phase hq with hnone | ⟨rfl, hsame⟩
    · rw [hnone] at hphase
      cases hphase
    · exact .inr ⟨hphase, hsame, rfl⟩
  reads := by
    intro phase hq i hphase
    rcases hh phase hq with hnone | ⟨rfl, -⟩
    · cases phase with
      | copying => cases hnone
      | _ => cases hphase
    · exact .inl hphase
  knows := hk

theorem performs_failed : w.Performs sha x w x.phase.failed := by
  obtain ⟨id, job, phase⟩ := x
  refine Performs.quiet rfl rfl (fun _ _ h => h) (Nat.le_refl _) (fun _ h => h)
    (fun q hq p hp => ?_)
    (fun q hq => ?_) fun q hq => ?_
  · cases phase <;> cases hq <;> cases job <;> first | exact .inl hp | cases hp
  · cases phase <;> cases hq <;> exact .inl rfl
  · cases phase <;> cases hq <;> trivial

/-- The copy is complete. -/
theorem knows_copied {i : Install} (hfits : i.Fits)
    (h : ∀ j, w.disk.inode i.temporary = some j → w.disk.data j ∈ w.archives) :
    w.Knows sha job i.copied := by
  unfold Install.copied
  split
  · exact ⟨hfits, h⟩
  · rename_i hnone
    refine ⟨hfits, fun j hj => ⟨h j hj, fun checksum ht => ?_⟩⟩
    rw [hfits.checked checksum ht] at hnone
    exact absurd rfl hnone

theorem Ok.source (h : w.Ok sha) {i : Install} (hs : i.source.isWhole = true ∨
    i.source ∈ job.staging ∧ ∀ j, w.disk.inode i.source = some j → w.disk.data j ∈ w.archives)
    {j : Nat} (hj : w.disk.inode i.source = some j) : w.disk.data j ∈ w.archives := by
  rcases hs with hw | ⟨-, hs⟩
  · exact (h.whole _ j hw hj).1
  · exact hs j hj

/-- `copy2` writes a file of its own. -/
theorem performs_copy {i : Install} (h : w.Ok sha) (hk : w.Knows sha job (.linking i)) :
    w.Performs sha ⟨id, job, .linking i⟩ (w.copy i).1 (w.copy i).2 := by
  obtain ⟨hfits, hnone, hsource⟩ := hk
  have hown : ∀ a b c, i.temporary ∈ (FileTask.mk id job (.copying i a b c)).owns := by
    cases job <;> simp [FileTask.owns]
  unfold copy
  cases hs : w.disk.inode i.source with
  | none =>
    refine Performs.quiet rfl rfl (fun _ _ h => h) (Nat.le_refl _) (fun _ h => h)
      (fun q hq p hp => ?_) (fun q hq => ?_) fun q hq => ?_
    all_goals cases hq
    · cases job <;> exact .inl hp
    · exact .inl rfl
    · trivial
  | some src =>
    obtain ⟨hfd, hnext, hempty, hkeeps, hnames⟩ :=
      Disk.create_new (H := fun _ => False) (d := w.disk) hnone
    have hlt := h.bound _ src hs
    dsimp only
    refine ⟨⟨hkeeps.next, fun j hj _ => hkeeps.data j hj fun h => h⟩, Nat.le_refl _, fun _ h => h,
      fun p j hpj => ?_, fun p j hw hpj => ?_, fun q hq p hp => ?_, fun q hq j hj => ?_,
      fun q hq j hj => ?_, fun q hq => ?_⟩
    · refine (hnames p j hpj).imp_right fun ⟨hp, hj⟩ => .inl ?_
      subst hp hj
      exact ⟨rfl, by rw [hnext]; exact Nat.lt_succ_self _, _, rfl, hown _ _ _⟩
    · refine (hnames p j hpj).imp_right fun h => ?_
      rw [h.1] at hw
      cases hw
    · cases hq
      cases job <;> exact .inl hp
    · cases hq
      cases hj
      refine .inl ⟨hfd, ?_⟩
      rw [hfd, hnext]
      exact Nat.lt_succ_self _
    · cases hq
      cases hj
      refine .inr ⟨rfl, i.source, hs, ?_⟩
      refine hsource.symm.imp (fun hs => ?_) fun h => h
      exact FileTask.staging_owned hs.1 (by simp) (by simp)
    · cases hq
      refine ⟨hfits, fun j hj => ?_, ?_, ?_, ?_⟩
      · rcases hnames _ j hj with hold | ⟨-, hj⟩
        · rw [hnone] at hold
          cases hold
        · rw [hj, hfd]
      · exact Nat.lt_of_lt_of_le hlt hkeeps.next
      · rw [hkeeps.data src hlt fun h => h]
        exact h.source hsource hs
      · rw [hfd]
        exact hempty

/-- `ZipFile(staging, "w")` of a name that is free. -/
theorem performs_open (hs : p ∈ job.staging) (hnone : w.disk.inode p = none)
    (hfree : ∀ y ∈ w.tasks, p ∈ y.owns → y.id = id) :
    w.Performs sha ⟨id, job, .opening⟩ { w with disk := (w.disk.create p).1 }
      (some (.writing (w.disk.create p).2)) := by
  obtain ⟨hfd, hnext, -, hkeeps, hnames⟩ :=
    Disk.create_new (H := fun _ => False) (d := w.disk) hnone
  have hlt : w.disk.next < (w.disk.create p).1.next := by
    rw [hnext]
    exact Nat.lt_succ_self _
  refine ⟨⟨hkeeps.next, fun j hj _ => hkeeps.data j hj fun h => h⟩, Nat.le_refl _, fun _ h => h,
    fun p' j hpj => ?_, fun p' j hw hpj => ?_, fun q hq p' hp => ?_, fun q hq j hj => ?_,
    fun q hq j hj => ?_, fun q hq => ?_⟩
  · refine (hnames p' j hpj).imp_right fun ⟨hp, hj⟩ => .inl ?_
    subst hp hj
    exact ⟨rfl, hlt, _, rfl, FileTask.staging_owned hs (by simp) (by simp)⟩
  · refine (hnames p' j hpj).imp_right fun h => ?_
    rw [h.1, FileJob.staging_part hs] at hw
    cases hw
  · cases hq
    rcases FileTask.owned hp with hp | ⟨i, -, h⟩
    · cases Option.mem_unique hp hs
      exact .inr (.inr ⟨rfl, hs, hfree⟩)
    · simp at h
  · cases hq
    cases hj
    exact .inl ⟨hfd, by rw [hfd]; exact hlt⟩
  · cases hq
    cases hj
  · cases hq
    intro p' hp j hj
    cases Option.mem_unique hp hs
    rcases hnames _ j hj with hold | ⟨-, hj⟩
    · rw [hnone] at hold
      cases hold
    · rw [hj, hfd]

/-- More is written to the file that the task holds. -/
theorem performs_append {fd : Nat} {bytes : List β}
    (hheld : (FileTask.mk id job phase).handle = some fd) {phase' : FilePhase}
    (hheld' : (FileTask.mk id job phase').handle = some fd)
    (ho : (FileTask.mk id job phase').owns = (FileTask.mk id job phase).owns)
    (hr : (FileTask.mk id job phase').reads = (FileTask.mk id job phase).reads)
    (hk : { w with disk := w.disk.append fd bytes }.Knows sha job phase') :
    w.Performs sha ⟨id, job, phase⟩ { w with disk := w.disk.append fd bytes } (some phase') where
  keeps := by
    refine ⟨Nat.le_refl _, fun i hi hne => (Disk.append_keeps fd bytes).data i hi fun he => hne ?_⟩
    rw [hheld, he]
  uuids := Nat.le_refl _
  archives := fun _ h => h
  names := fun _ _ h => .inl h
  whole := fun _ _ _ h => .inl h
  owns := by
    intro q hq p hp
    cases hq
    exact .inl (ho ▸ hp)
  handle := by
    intro q hq i hi
    cases hq
    exact .inr ⟨by rw [hheld, ← hheld', hi], rfl, ho⟩
  reads := by
    intro q hq i hi
    cases hq
    exact .inl (hr ▸ hi)
  knows := by
    intro q hq
    cases hq
    exact hk

theorem performs_chunk {i : Install} {src fd offset n : Nat} (h : w.Ok sha)
    (hx : ⟨id, job, .copying i src fd offset⟩ ∈ w.tasks) :
    w.Performs sha ⟨id, job, .copying i src fd offset⟩
      { w with disk := w.disk.append fd (((w.disk.data src).drop offset).take n) }
      (some (.copying i src fd (offset + (((w.disk.data src).drop offset).take n).length))) := by
  obtain ⟨hfits, hfd, hsrc, hdata, htake⟩ := h.knows _ hx
  have hne : src ≠ fd := by
    intro he
    exact ((h.handles _ hx fd rfl).2.2 _ hx).2 (congrArg some he)
  have hsame : (w.disk.append fd (((w.disk.data src).drop offset).take n)).data src =
      w.disk.data src := Function.update_of_ne hne _ _
  refine performs_append rfl rfl (by cases job <;> rfl) rfl ⟨hfits, hfd, hsrc, ?_, ?_⟩
  · rw [hsame]
    exact hdata
  · rw [hsame]
    refine (Function.update_self _ _ _).trans ?_
    rw [htake, List.length_take, List.take_add]
    congr 1
    rw [List.take_eq_take_iff]
    omega

/-- `os.link` to a name of its own. -/
theorem performs_link {i : Install} {d : Disk FilePath β} (h : w.Ok sha)
    (hk : w.Knows sha job (.linking i)) (hl : w.disk.link i.source i.temporary = some d) :
    w.Performs sha ⟨id, job, .linking i⟩ { w with disk := d } (some i.copied) := by
  obtain ⟨hfits, hnone, hsource⟩ := hk
  obtain ⟨src, hs, hdata, hnext, hnames⟩ := Disk.link_some hl
  have hcopied : i.copied = .verifying i ∨ i.copied = .installing i := by
    unfold Install.copied
    split
    · exact .inl rfl
    · exact .inr rfl
  have howns : ∀ p, p ∈ (FileTask.mk id job i.copied).owns ↔
      p ∈ (FileTask.mk id job (.linking i)).owns := by
    intro p
    rcases hcopied with he | he <;> rw [he] <;> cases job <;> exact Iff.rfl
  have hheld : (FileTask.mk id job i.copied).handle = none ∧
      (FileTask.mk id job i.copied).reads = none := by
    rcases hcopied with he | he <;> rw [he] <;> exact ⟨rfl, rfl⟩
  refine ⟨⟨Nat.le_of_eq hnext.symm, fun j _ _ => congrFun hdata j⟩, Nat.le_refl _, fun _ h => h,
    fun p j hpj => ?_, fun p j hw hpj => ?_, fun q hq p hp => ?_, fun q hq j hj => ?_,
    fun q hq j hj => ?_, fun q hq => ?_⟩
  · refine (hnames p j hpj).imp_right fun ⟨hp, hj⟩ => .inr ?_
    subst hp hj
    refine ⟨.inl ⟨_, rfl, (howns _).mpr (by cases job <;> simp [FileTask.owns])⟩, _, hs, ?_⟩
    exact hsource.symm.imp_left fun hs => FileTask.staging_owned hs.1 (by simp) (by simp)
  · refine (hnames p j hpj).imp_right fun h => ?_
    rw [h.1] at hw
    cases hw
  · cases hq
    exact .inl ((howns p).mp hp)
  · cases hq
    rw [hheld.1] at hj
    cases hj
  · cases hq
    rw [hheld.2] at hj
    cases hj
  · cases hq
    refine knows_copied hfits fun j hj => ?_
    rcases hnames _ j hj with hold | ⟨-, rfl⟩
    · rw [hnone] at hold
      cases hold
    · rw [hdata]
      exact h.source hsource hs

/-- `os.replace` of a complete file. -/
theorem performs_replace {s t : FilePath} {d : Disk FilePath β} {phase' : FilePhase}
    (hs : s ∈ (FileTask.mk id job phase).owns) (ht : t.isWhole = true)
    (hr : w.disk.replace s t = some d) (hsound : ∀ i, w.disk.inode s = some i → w.Sound sha t i)
    (ho : ∀ p ∈ (FileTask.mk id job phase').owns, p ∈ (FileTask.mk id job phase).owns)
    (hh : (FileTask.mk id job phase').handle = none)
    (hk : ∀ d : Disk FilePath β, { w with disk := d }.Knows sha job phase') :
    w.Performs sha ⟨id, job, phase⟩ { w with disk := d } (some phase') := by
  obtain ⟨i, hi, hdata, hnext, hnames⟩ := Disk.replace_some hr
  refine ⟨⟨Nat.le_of_eq hnext.symm, fun j _ _ => congrFun hdata j⟩, Nat.le_refl _, fun _ h => h,
    fun p j hpj => ?_, fun p j hw hpj => ?_, fun q hq p hp => ?_, fun q hq j hj => ?_,
    fun q hq j hj => ?_, fun q hq => ?_⟩
  · refine (hnames p j hpj).imp_right fun ⟨hp, hj⟩ => .inr ?_
    subst hp hj
    exact ⟨.inr ht, s, hi, .inl hs⟩
  · refine (hnames p j hpj).imp_right fun ⟨hp, hj⟩ => ?_
    subst hp hj
    have hsound := hsound j hi
    unfold Sound at hsound ⊢
    rw [hdata]
    exact hsound
  · cases hq
    exact .inl (ho p hp)
  · cases hq
    rw [hh] at hj
    cases hj
  · cases hq
    cases phase' with
    | copying => cases hh
    | _ => cases hj
  · cases hq
    exact hk d

theorem owns_stored {checksum : String} (hne : phase ≠ .opening ∧ phase ≠ .cleaning)
    (hp : p ∈ (FileTask.mk id job (job.stored checksum)).owns) :
    p ∈ (FileTask.mk id job phase).owns := by
  cases job with
  | repairOne =>
    refine FileTask.staging_owned ?_ hne.1 hne.2
    simpa [FileJob.stored, FileTask.owns] using hp
  | _ => cases hp

theorem handle_stored {checksum : String} :
    (FileTask.mk id job (job.stored checksum)).handle = none := by
  cases job <;> rfl

theorem knows_stored {checksum : String} : w.Knows sha job (job.stored checksum) := by
  cases job <;> trivial

theorem installed_cases (job : FileJob) (i : Install) :
    job.installed i = .cleaning ∨ ∃ checksum, job.installed i = job.stored checksum := by
  unfold FileJob.installed
  split
  · exact .inr ⟨_, rfl⟩
  · exact .inl rfl

/-- A phase that follows without a change of the disk. -/
theorem performs_next {phase' : FilePhase} (hu : w.uuids ≤ w'.uuids) (hd : w'.disk = w.disk)
    (ha : ∀ b ∈ w.archives, b ∈ w'.archives)
    (ho : ∀ p ∈ (FileTask.mk id job phase').owns,
      p ∈ (FileTask.mk id job phase).owns ∨ p = .temporary w.uuids ∧ w.uuids < w'.uuids)
    (hh : (FileTask.mk id job phase').handle = none) (hk : w'.Knows sha job phase') :
    w.Performs sha ⟨id, job, phase⟩ w' (some phase') := by
  refine Performs.quiet (by rw [hd]) (by rw [hd]) (fun p i h => by rwa [hd] at h) hu ha
    (fun q hq => ?_) (fun q hq => ?_) fun q hq => ?_
  all_goals cases hq
  · exact ho
  · exact .inl hh
  · exact hk

/-- A copy that is about to be made, under a name that was not used before. -/
theorem performs_draw {i : Install} (h : w.Ok sha) (hi : i.uuid = w.uuids) (hfits : i.Fits)
    (hne : phase ≠ .opening ∧ phase ≠ .cleaning)
    (hs : i.source.isWhole = true ∨ i.source ∈ job.staging ∧
      ∀ j, w.disk.inode i.source = some j → w.disk.data j ∈ w.archives) :
    w.Performs sha ⟨id, job, phase⟩ { w with uuids := w.uuids + 1 } (some (.linking i)) := by
  have htemp : i.temporary = .temporary w.uuids := congrArg FilePath.temporary hi
  refine performs_next (Nat.le_succ _) rfl (fun _ h => h) (fun p hp => ?_) rfl ⟨hfits, ?_, hs⟩
  · have hp : p ∈ i.temporary :: job.staging.toList := by cases job <;> exact hp
    rcases List.mem_cons.mp hp with rfl | hp
    · exact .inr ⟨htemp, Nat.lt_succ_self _⟩
    · exact .inl (FileTask.staging_owned (by simpa using hp) hne.1 hne.2)
  · rw [htemp]
    exact (h.drawn w.uuids (Nat.le_refl _)).2

theorem Ok.operate (h : w.Ok sha) (hx : ⟨id, job, phase⟩ ∈ w.tasks)
    (hnew : phase = .opening → ∀ p ∈ job.staging, w.disk.inode p = none ∧
      ∀ y ∈ w.tasks, p ∈ y.owns → y.id = id) (input : FileInput β) :
    w.Performs sha ⟨id, job, phase⟩ (w.operate sha job phase input).1
      (w.operate sha job phase input).2 := by
  have hknows := h.knows _ hx
  have hfailed : w.Performs sha ⟨id, job, phase⟩ w phase.failed := performs_failed
  unfold FileWork.operate
  cases phase with
  | opening =>
    dsimp only
    split
    · exact hfailed
    · rename_i p hp
      obtain ⟨hnone, hfree⟩ := hnew rfl p hp
      exact performs_open hp hnone hfree
  | writing fd =>
    dsimp only
    split
    · exact performs_append rfl rfl rfl rfl hknows
    · refine performs_next (Nat.le_refl _) rfl (fun _ h => List.mem_cons_of_mem _ h)
        (fun p hp => .inl (by cases job <;> exact hp)) rfl fun p hp i hi => ?_
      rw [hknows p hp i hi]
      exact List.mem_cons_self
  | checking =>
    dsimp only
    split
    · exact hfailed
    · rename_i bytes hbytes
      refine performs_next (Nat.le_refl _) rfl (fun _ h => h)
        (fun p hp => .inl (by cases job <;> exact hp)) rfl fun p hp i hi => ⟨hknows p hp i hi, ?_⟩
      rw [FileJob.staging_source hp, Option.bind_some] at hbytes
      obtain ⟨j, hj, rfl⟩ := Disk.file?_some.mp hbytes
      rw [hi] at hj
      cases hj
      rfl
  | looking checksum =>
    dsimp only
    split
    · split
      · exact performs_next (Nat.le_refl _) rfl (fun _ h => h)
          (fun p hp => .inl (owns_stored (by simp) hp)) handle_stored knows_stored
      · exact hfailed
    · exact performs_next (Nat.le_refl _) rfl (fun _ h => h) (fun p hp => .inl hp) rfl
        fun p hp => ⟨hp, hknows p hp⟩
    · exact hfailed
    · rename_i source hsource
      refine performs_draw h rfl ⟨rfl, fun c hc => ?_⟩ (by simp) ?_
      · cases hc
        rfl
      · exact (FileJob.source_cases hsource).imp_right fun hs => ⟨hs, fun j hj => (hknows _ hs j hj).1⟩
  | replacing checksum =>
    dsimp only
    split
    · exact hfailed
    · rename_i d hd
      obtain ⟨p, hp, hd⟩ := Option.bind_eq_some_iff.mp hd
      obtain ⟨hs, hsound⟩ := hknows p hp
      refine performs_replace (FileTask.staging_owned hs (by simp) (by simp)) rfl hd
        (fun i hi => (hsound i hi).imp_right fun he c hc => ?_)
        (fun p hp => owns_stored (by simp) hp) handle_stored fun _ => knows_stored
      cases hc
      exact he
  | projecting checksum =>
    dsimp only
    split
    · rename_i target _ htarget
      have hw : target.isWhole = true ∧ ∀ c, target ≠ .blob c := by
        cases job <;> cases htarget <;> exact ⟨rfl, fun _ h => (by cases h)⟩
      exact performs_draw h rfl ⟨hw.1, fun c hc => absurd hc (hw.2 c)⟩ (by simp) (.inl rfl)
    · exact hfailed
  | linking i =>
    dsimp only
    split
    · exact performs_copy h hknows
    · exact performs_copy h hknows
    · rename_i d _ hd
      exact performs_link h hknows hd
  | copying i src fd offset =>
    dsimp only
    split
    · exact performs_chunk h hx
    · rename_i hrest
      obtain ⟨hfits, hfd, hsrc, hdata, htake⟩ := hknows
      have hall : w.disk.data fd = w.disk.data src := by
        rw [htake, List.take_of_length_le (List.drop_eq_nil_iff.mp hrest)]
      have hcopied : w.Knows sha job i.copied := knows_copied hfits fun j hj => by
        rw [hfd j hj, hall]
        exact hdata
      refine performs_next (Nat.le_refl _) rfl (fun _ h => h) (fun p hp => .inl ?_) ?_ hcopied
      · unfold Install.copied at hp
        split at hp <;> cases job <;> exact hp
      · unfold Install.copied
        split <;> rfl
    · refine Performs.quiet rfl rfl (fun _ _ h => h) (Nat.le_refl _) (fun _ h => h)
        (fun q hq => ?_) (fun q hq => ?_) fun q hq => ?_
      all_goals cases hq
      · exact fun p hp => .inl hp
      · exact .inr ⟨rfl, rfl⟩
      · exact hknows
  | verifying i =>
    dsimp only
    split
    · exact hfailed
    · rename_i bytes hbytes
      split
      · rename_i hcheck
        refine performs_next (Nat.le_refl _) rfl (fun _ h => h)
          (fun p hp => .inl (by cases job <;> exact hp)) rfl
          ⟨hknows.1, fun j hj => ⟨hknows.2 j hj, fun c hc => ?_⟩⟩
        obtain ⟨k, hk, rfl⟩ := Disk.file?_some.mp hbytes
        rw [hj] at hk
        cases hk
        rw [hknows.1.checked c hc] at hcheck
        exact (Option.some.inj hcheck).symm
      · exact hfailed
  | installing i =>
    dsimp only
    split
    · exact hfailed
    · rename_i d hd
      exact performs_replace (by cases job <;> simp [FileTask.owns]) hknows.1.whole hd hknows.2
        (fun p hp => by cases job <;> exact hp) rfl fun _ => trivial
  | dropping i ok =>
    dsimp only
    have hphase : (if ok = true then job.installed i else .cleaning) = .cleaning ∨
        ∃ checksum, (if ok = true then job.installed i else .cleaning) = job.stored checksum := by
      split
      · exact installed_cases job i
      · exact .inl rfl
    generalize (if ok = true then job.installed i else .cleaning) = after at hphase ⊢
    refine Performs.quiet rfl rfl (fun _ _ h => Disk.unlink_inode h) (Nat.le_refl _) (fun _ h => h)
      (fun q hq p hp => ?_) (fun q hq => ?_) fun q hq => ?_
    all_goals
      cases hq
      rcases hphase with rfl | ⟨checksum, rfl⟩
    · cases job <;> cases hp
    · exact .inl (owns_stored (by simp) hp)
    · exact .inl rfl
    · exact .inl handle_stored
    · trivial
    · exact knows_stored
  | cleaning =>
    dsimp only
    split
    · exact Performs.quiet rfl rfl (fun _ _ h => h) (Nat.le_refl _) (fun _ h => h)
        (fun _ hq => (by cases hq)) (fun _ hq => (by cases hq)) fun _ hq => (by cases hq)
    · exact Performs.quiet rfl rfl (fun _ _ h => Disk.unlink_inode h) (Nat.le_refl _) (fun _ h => h)
        (fun _ hq => (by cases hq)) (fun _ hq => (by cases hq)) fun _ hq => (by cases hq)

/-! ## Every move -/

/-- A task is called; its names are new. -/
theorem Ok.call {n : Nat} (h : w.Ok sha) (hn : w.uuids ≤ n)
    (howns : ∀ p ∈ (FileTask.mk id job phase).owns, ∃ uuid, p = .staging uuid ∧ w.uuids ≤ uuid ∧
      uuid < n)
    (hh : (FileTask.mk id job phase).handle = none ∧ (FileTask.mk id job phase).reads = none)
    (hk : w.Knows sha job phase) :
    { w with uuids := n, tasks := w.resume id job (some phase) }.Ok sha := by
  have hfree : ∀ y ∈ w.tasks, ∀ p ∈ (FileTask.mk id job phase).owns, p ∉ y.owns := by
    intro y hy p hp hmem
    obtain ⟨uuid, rfl, hle, -⟩ := howns p hp
    exact absurd ((h.tokens y hy _ hmem).2 uuid (.inl rfl)) (Nat.not_lt.mpr hle)
  have hmem : ∀ {y : FileTask}, y ∈ w.resume id job (some phase) →
      y ∈ w.tasks ∨ y = ⟨id, job, phase⟩ := by
    intro y hy
    rcases mem_resume.mp hy with ⟨hy, -⟩ | ⟨_, hq, rfl⟩
    · exact .inl hy
    · cases hq
      exact .inr rfl
  refine ⟨keyed_resume h.keyed, h.bound, fun uuid hu => h.drawn uuid (Nat.le_trans hn hu),
    fun y hy p hown => ?_, fun y hy z hz p hy' hz' => ?_, fun y hy i hi => ?_, h.whole,
    fun y hy => ?_⟩
  · rcases hmem hy with hy | rfl
    · exact (h.tokens y hy p hown).imp_right fun ht uuid hu => Nat.lt_of_lt_of_le (ht uuid hu) hn
    · obtain ⟨uuid, rfl, -, hlt⟩ := howns p hown
      refine ⟨rfl, fun _ he => ?_⟩
      rcases he with he | he <;> cases he
      exact hlt
  · rcases hmem hy with hy | rfl
    · rcases hmem hz with hz | rfl
      · exact h.apart y hy z hz p hy' hz'
      · exact absurd hy' (hfree y hy p hz')
    · rcases hmem hz with hz | rfl
      · exact absurd hz' (hfree z hz p hy')
      · rfl
  · rcases hmem hy with hy | rfl
    · obtain ⟨hlt, hown, hothers⟩ := h.handles y hy i hi
      refine ⟨hlt, hown, fun z hz => ?_⟩
      rcases hmem hz with hz | rfl
      · exact hothers z hz
      · exact ⟨fun hzi => (by rw [hh.1] at hzi; cases hzi),
          fun hzi => (by rw [hh.2] at hzi; cases hzi)⟩
    · rw [hh.1] at hi
      cases hi
  · rcases hmem hy with hy | rfl
    · exact h.knows y hy
    · exact hk

/-- What goes on outside of the tasks: names go, and archives come under names of their own. -/
theorem Ok.outside {d : Disk FilePath β} {archives : List (List β)} (h : w.Ok sha)
    (hk : Disk.Keeps (fun _ => False) w.disk d) (ha : ∀ b ∈ w.archives, b ∈ archives)
    (hn : ∀ p i, d.inode p = some i → w.disk.inode p = some i ∨
      (∃ path, p = .imported path) ∧ i = w.disk.next ∧ i < d.next ∧ d.data i ∈ archives) :
    { w with disk := d, archives := archives }.Ok sha := by
  have hold : ∀ p i, d.inode p = some i → p.isWhole = false → w.disk.inode p = some i := by
    intro p i hp hw
    refine (hn p i hp).resolve_right fun h => ?_
    obtain ⟨path, rfl⟩ := h.1
    cases hw
  refine ⟨h.keyed, fun p i hp => ?_, fun uuid hu => ?_, h.tokens, h.apart, fun y hy i hi => ?_,
    fun p i hw hp => ?_, fun y hy => ?_⟩
  · rcases hn p i hp with hp | ⟨-, -, hlt, -⟩
    · exact Nat.lt_of_lt_of_le (h.bound p i hp) hk.next
    · exact hlt
  · obtain ⟨hs, ht⟩ := h.drawn uuid hu
    have hnone : ∀ p : FilePath, p.isWhole = false → w.disk.inode p = none → d.inode p = none := by
      intro p hw hp
      cases hpi : d.inode p with
      | none => rfl
      | some i =>
        have hpi := hold p i hpi hw
        rw [hp] at hpi
        cases hpi
    exact ⟨hnone _ rfl hs, hnone _ rfl ht⟩
  · obtain ⟨hlt, hown, hothers⟩ := h.handles y hy i hi
    refine ⟨Nat.lt_of_lt_of_le hlt hk.next, fun p hp => ?_, hothers⟩
    rcases hn p i hp with hp | ⟨-, rfl, -⟩
    · exact hown p hp
    · exact absurd hlt (Nat.lt_irrefl _)
  · rcases hn p i hp with hp | ⟨⟨path, rfl⟩, -, -, hdata⟩
    · have hsound := h.whole p i hw hp
      unfold Sound at hsound ⊢
      rw [hk.data i (h.bound p i hp) fun h => h]
      exact hsound.imp_left (ha _)
    · exact ⟨hdata, fun _ he => (by cases he)⟩
  · exact (h.knows y hy).frame y.id hk h.bound ha
      (fun p hown i hp => ⟨hold p i hp (h.tokens y hy p hown).1, fun h => h⟩)
      (fun i hi => ⟨(h.handles y hy i hi).1, fun h => h⟩) fun _ _ h => h

theorem Ok.drop (h : w.Ok sha) {tasks : List FileTask} (ht : tasks.Sublist w.tasks) :
    { w with tasks := tasks }.Ok sha where
  keyed := List.Nodup.sublist (ht.map _) h.keyed
  bound := h.bound
  drawn := h.drawn
  tokens := fun x hx => h.tokens x (ht.subset hx)
  apart := fun x hx y hy => h.apart x (ht.subset hx) y (ht.subset hy)
  handles := by
    intro x hx i hi
    obtain ⟨hlt, hown, hothers⟩ := h.handles x (ht.subset hx) i hi
    exact ⟨hlt, hown, fun y hy => hothers y (ht.subset hy)⟩
  whole := h.whole
  knows := fun x hx => h.knows x (ht.subset hx)

theorem Ok.perform (h : w.Ok sha) (input : FileInput β) (hx : ⟨id, job, phase⟩ ∈ w.tasks)
    (hnew : input ≠ .fails → phase = .opening → ∀ p ∈ job.staging, w.disk.inode p = none ∧
      ∀ y ∈ w.tasks, p ∈ y.owns → y.id = id) :
    w.Performs sha ⟨id, job, phase⟩ (w.perform sha job phase input).1
      (w.perform sha job phase input).2 := by
  cases input with
  | fails => exact performs_failed
  | _ => exact h.operate hx (hnew fun h => by cases h) _

/-- A repair opens a name that is free, and no one else's. -/
theorem opensNew_spec (h : w.Ok sha) (hx : w.task? id = some ⟨id, job, .opening⟩)
    (hnew : w.opensNew (.advance id input) = true) (hne : input ≠ .fails) :
    ∀ p ∈ job.staging, w.disk.inode p = none ∧ ∀ y ∈ w.tasks, p ∈ y.owns → y.id = id := by
  have hmem := Table.get_mem hx
  intro p hp
  cases job with
  | storePages uuid =>
    cases hp
    refine ⟨h.knows _ hmem uuid rfl, fun y hy hown => ?_⟩
    exact h.apart y hy _ hmem _ hown (by simp [FileTask.owns, FileJob.staging])
  | repairOne artifactId path =>
    cases hp
    have hcond : ((w.disk.inode (.metadata artifactId)).isNone &&
        w.tasks.all fun y => y.id == id || y.phase == .opening || y.phase == .cleaning ||
          y.job.staging != some (.metadata artifactId)) = true := by
      cases input with
      | fails => exact absurd rfl hne
      | _ =>
        dsimp only [opensNew] at hnew
        rw [hx] at hnew
        exact hnew
    rw [Bool.and_eq_true, Option.isNone_iff_eq_none] at hcond
    refine ⟨hcond.1, fun y hy hown => ?_⟩
    have hy' := List.all_eq_true.mp hcond.2 y hy
    simp only [Bool.or_eq_true, beq_iff_eq, bne_iff_ne] at hy'
    obtain ⟨yid, yjob, yphase⟩ := y
    rcases FileTask.owned hown with hs | ⟨i, hi, -⟩
    · rcases hy' with ((he | rfl) | rfl) | hne'
      · exact he
      · cases yjob <;> cases hs
        cases hown
      · cases yjob <;> cases hown
      · exact absurd hs hne'
    · cases hi
  | _ => cases hp

/-- An inode that no one writes. -/
def Sealed (w : FileWork β) (i : Nat) : Prop :=
  i < w.disk.next ∧ ∀ x ∈ w.tasks, x.handle ≠ some i

/-- What holds between a state and a later one. -/
def Seals (w w' : FileWork β) : Prop :=
  ∀ i, w.Sealed i → w'.Sealed i ∧ w'.disk.data i = w.disk.data i

theorem Ok.sealed (h : w.Ok sha) (hw : p.isWhole = true) (hp : w.disk.inode p = some i) :
    w.Sealed i := by
  refine ⟨h.bound p i hp, fun x hx hi => ?_⟩
  have hpart := (h.tokens x hx p ((h.handles x hx i hi).2.1 p hp)).1
  rw [hw] at hpart
  cases hpart

theorem Performs.seals (hx : x ∈ w.tasks) (hp : w.Performs sha x w' q) :
    w.Seals { w' with tasks := w.resume x.id x.job q } := by
  intro i hi
  refine ⟨⟨Nat.lt_of_lt_of_le hi.1 hp.keeps.next, fun y hy hyi => ?_⟩,
    hp.keeps.data i hi.1 (hi.2 x hx)⟩
  rcases mem_resume.mp hy with ⟨hy, -⟩ | ⟨phase, hq, rfl⟩
  · exact hi.2 y hy hyi
  · rcases hp.handle phase hq i hyi with ⟨rfl, -⟩ | ⟨hxi, -⟩
    · exact absurd hi.1 (Nat.lt_irrefl _)
    · exact hi.2 x hx hxi

/-- More is on the disk, or fewer tasks are at work. -/
theorem seals_of {d : Disk FilePath β} {n : Nat} {archives : List (List β)} {tasks : List FileTask}
    (hk : Disk.Keeps (fun _ => False) w.disk d)
    (ht : ∀ x ∈ tasks, x ∈ w.tasks ∨ x.handle = none) :
    w.Seals { disk := d, tasks := tasks, uuids := n, archives := archives } := by
  intro i hi
  refine ⟨⟨Nat.lt_of_lt_of_le hi.1 hk.next, fun y hy hyi => ?_⟩, hk.data i hi.1 fun h => h⟩
  rcases ht y hy with hy | hnone
  · exact hi.2 y hy hyi
  · rw [hnone] at hyi
    cases hyi

theorem call_step {w₀ : FileWork β} {n : Nat} (h : w.Ok sha)
    (hw₀ : w₀ = { w with uuids := n }) (hstep : w₀.call id job phase = some w')
    (hn : w.uuids ≤ n)
    (howns : ∀ p ∈ (FileTask.mk id job phase).owns, ∃ uuid, p = .staging uuid ∧ w.uuids ≤ uuid ∧
      uuid < n)
    (hh : (FileTask.mk id job phase).handle = none ∧ (FileTask.mk id job phase).reads = none)
    (hk : w.Knows sha job phase) : w'.Ok sha ∧ w.Seals w' := by
  subst hw₀
  unfold FileWork.call at hstep
  split at hstep
  · cases hstep
  · cases hstep
    refine ⟨h.call hn howns hh hk, seals_of .refl fun x hx => ?_⟩
    rcases mem_resume.mp hx with ⟨hx, -⟩ | ⟨_, hq, rfl⟩
    · exact .inl hx
    · cases hq
      exact .inr hh.1

end FileWork

theorem FileStep.ok {m : FileMove β} (hstep : FileStep sha w m w') (h : w.Ok sha)
    (hnew : w.opensNew m = true) : w'.Ok sha ∧ w.Seals w' := by
  unfold FileStep FileWork.step at hstep
  cases m with
  | storePages id =>
    refine FileWork.call_step h rfl hstep (Nat.le_succ _) (fun p hp => ?_) ⟨rfl, rfl⟩
      fun uuid he => ?_
    · obtain rfl : p = .staging w.uuids := by simpa [FileTask.owns, FileJob.staging] using hp
      exact ⟨_, rfl, Nat.le_refl _, Nat.lt_succ_self _⟩
    · cases he
      exact (h.drawn _ (Nat.le_refl _)).1
  | storeExisting id path =>
    exact FileWork.call_step h rfl hstep (Nat.le_refl _) (fun _ hp => by cases hp) ⟨rfl, rfl⟩
      fun _ hp => by cases hp
  | repairOne id artifactId path =>
    exact FileWork.call_step h rfl hstep (Nat.le_refl _) (fun _ hp => by cases hp) ⟨rfl, rfl⟩
      fun _ he => by cases he
  | materialize id checksum root path =>
    exact FileWork.call_step h rfl hstep (Nat.le_refl _) (fun _ hp => by cases hp) ⟨rfl, rfl⟩
      trivial
  | advance id input =>
    dsimp only at hstep
    cases hx : w.task? id with
    | none =>
      rw [hx] at hstep
      cases hstep
    | some x =>
      obtain ⟨id', job, phase⟩ := x
      obtain rfl : id' = id := Table.get_key hx
      have hmem := Table.get_mem hx
      rw [hx] at hstep
      cases hstep
      have hperforms := h.perform input hmem fun hne ho p hp => by
        subst ho
        exact FileWork.opensNew_spec h hx hnew hne p hp
      exact ⟨h.advance hmem hperforms, hperforms.seals hmem⟩
  | stop id =>
    cases hstep
    exact ⟨h.drop List.filter_sublist,
      FileWork.seals_of .refl fun x hx => .inl (List.mem_of_mem_filter hx)⟩
  | unlink path =>
    cases hstep
    have hkeeps : Disk.Keeps (fun _ => False) w.disk (w.disk.unlink path) :=
      ⟨Nat.le_refl _, fun _ _ _ => rfl⟩
    exact ⟨h.outside hkeeps (fun _ h => h) fun p i hp => .inl (Disk.unlink_inode hp),
      FileWork.seals_of hkeeps fun x hx => .inl hx⟩
  | arrive path bytes =>
    cases hstep
    have hnone : (w.disk.unlink (.imported path)).inode (.imported path) = none :=
      Function.update_self _ _ _
    obtain ⟨hfd, hnext, hempty, hkeeps, hnames⟩ := Disk.create_new (H := fun _ => False) hnone
    generalize hnew' : (w.disk.unlink (.imported path)).create (.imported path) = new at *
    obtain ⟨d, fd⟩ := new
    dsimp only at hfd hnext hempty hkeeps hnames ⊢
    subst hfd
    have hdata : (d.append w.disk.next bytes).data w.disk.next = bytes := by
      refine (Function.update_self _ _ _).trans ?_
      rw [show d.data w.disk.next = [] from hempty, List.nil_append]
    have hkeeps' : Disk.Keeps (fun _ => False) w.disk (d.append w.disk.next bytes) := by
      refine ⟨hkeeps.next, fun i hi hH => ?_⟩
      rw [(Disk.append_keeps w.disk.next bytes).data i (Nat.lt_of_lt_of_le hi hkeeps.next)
        (Nat.ne_of_lt hi)]
      exact hkeeps.data i hi hH
    refine ⟨h.outside hkeeps' (fun _ h => List.mem_cons_of_mem _ h) fun p i hp => ?_,
      FileWork.seals_of hkeeps' fun x hx => .inl hx⟩
    refine (hnames p i hp).imp (fun h => Disk.unlink_inode h) fun ⟨he, hi⟩ => ?_
    subst he hi
    refine ⟨⟨path, rfl⟩, rfl, ?_, ?_⟩
    · exact Nat.lt_of_lt_of_eq (Nat.lt_succ_self _) hnext.symm
    · exact List.mem_cons.mpr (.inl hdata)

theorem FileWork.Idle.ok (h : w.Idle sha) : w.Ok sha := by
  have hnone : ∀ x, x ∉ w.tasks := by
    rw [h.tasks]
    exact fun _ hx => (by cases hx)
  refine ⟨?_, h.bound, h.drawn, fun x hx => absurd hx (hnone x), fun x hx => absurd hx (hnone x),
    fun x hx => absurd hx (hnone x), fun p i hw hp => ?_, fun x hx => absurd hx (hnone x)⟩
  · rw [h.tasks]
    exact List.nodup_nil
  · have hfile : w.disk.file? p = some (w.disk.data i) := Disk.file?_some.mpr ⟨i, hp, rfl⟩
    cases p with
    | blob checksum =>
      obtain ⟨hsha, harchive⟩ := h.blobs checksum _ hfile
      refine ⟨harchive, fun c hc => ?_⟩
      cases hc
      exact hsha
    | projection root path => exact ⟨h.projections root path _ hfile, fun _ hc => (by cases hc)⟩
    | imported path => exact ⟨h.imported path _ hfile, fun _ hc => (by cases hc)⟩
    | _ => cases hw

theorem FileWork.Ok.files (h : w.Ok sha) : w.Whole sha := by
  constructor
  · intro checksum bytes hfile
    obtain ⟨i, hi, rfl⟩ := Disk.file?_some.mp hfile
    obtain ⟨harchive, hsha⟩ := h.whole _ i rfl hi
    exact ⟨hsha checksum rfl, harchive⟩
  · intro root path bytes hfile
    obtain ⟨i, hi, rfl⟩ := Disk.file?_some.mp hfile
    exact (h.whole _ i rfl hi).1

/-- In a run in which repairs open new files only, blobs and projections are whole in every state,
and the file of such a name never changes. -/
theorem files_whole {start : FileWork β} {tr : List (FileWork β × FileMove β)}
    (h : Run (FileStep sha) start tr w) (h₀ : start.Idle sha)
    (hc : Run.Meets (fun x m => x.opensNew m = true) tr) :
    (∀ x, Run.Visits tr w x → x.Whole sha) ∧
      ∀ x y, Run.Later tr w x y → ∀ p i, p.isWhole = true → x.disk.inode p = some i →
        y.disk.data i = x.disk.data i := by
  have hok := h.invariant_visits hc h₀.ok fun _ _ _ hm ho hs => (hs.ok ho hm).1
  have hlater := h.later (R := FileWork.Seals) hc h₀.ok (fun _ _ _ hm ho hs => hs.ok ho hm)
    fun x y z hxy hyz i hi => by
      obtain ⟨hy, hdata⟩ := hxy i hi
      obtain ⟨hz, hdata'⟩ := hyz i hy
      exact ⟨hz, hdata'.trans hdata⟩
  refine ⟨fun x hx => (hok x hx).files, fun x y hxy p i hw hp => ?_⟩
  have hx : Run.Visits tr w x := by
    obtain ⟨tr₁, a, tr₂, rfl, -⟩ := hxy
    exact .inr ⟨a, by simp⟩
  exact (hlater x y hxy i ((hok x hx).sealed hw hp)).2

end

/-! ## A repair that was interrupted -/

namespace FileWork

variable (sha : List β → String)

/-- The moves, one after the other. -/
def play (w : FileWork β) (moves : List (FileMove β)) : FileWork β :=
  moves.foldl (fun w m => (w.step sha m).getD w) w

/-- The states passed, with the moves. -/
def trace (w : FileWork β) (moves : List (FileMove β)) : List (FileWork β × FileMove β) :=
  Run.history (fun w m => (w.step sha m).getD w) w moves

/-- All moves can be made, and are in `C`. -/
def plays (C : FileWork β → FileMove β → Bool) : FileWork β → List (FileMove β) → Bool
  | _, [] => true
  | w, m :: moves => C w m && match w.step sha m with
    | none => false
    | some w' => w'.plays C moves

end FileWork

theorem FileWork.play_run (sha : List β → String) (w : FileWork β)
    (C : FileWork β → FileMove β → Bool) (moves : List (FileMove β))
    (h : w.plays sha C moves = true) :
    Run (FileStep sha) w (w.trace sha moves) (w.play sha moves) ∧
      Run.Meets (fun x m => C x m = true) (w.trace sha moves) := by
  have hall : ∀ x ∈ w.trace sha moves, C x.1 x.2 = true ∧
      x.1.step sha x.2 = some ((x.1.step sha x.2).getD x.1) := by
    induction moves generalizing w with
    | nil => exact fun _ hx => (by cases hx)
    | cons m moves ih =>
      simp only [plays, Bool.and_eq_true] at h
      obtain ⟨hC, hrest⟩ := h
      split at hrest
      · cases hrest
      · rename_i w₁ hs
        intro x hx
        rcases List.mem_cons.mp hx with rfl | hx
        · exact ⟨hC, by rw [hs, Option.getD_some]⟩
        · beta_reduce at hx
          rw [hs, Option.getD_some] at hx
          exact ih w₁ hrest x hx
  exact ⟨Run.of_foldl _ moves fun x hx => (hall x hx).2, fun x hx => (hall x hx).1⟩

/-- A checksum of small archives. -/
def spelled (bytes : List Nat) : String := String.ofList (bytes.map Char.ofNat)

def emptyDisk : FileWork Nat := {}

theorem emptyDisk_idle : emptyDisk.Idle spelled where
  blobs := fun _ _ h => (by cases h)
  projections := fun _ _ _ h => (by cases h)
  tasks := rfl
  bound := fun _ _ h => (by cases h)
  imported := fun _ _ h => (by cases h)
  drawn := fun _ _ => ⟨rfl, rfl⟩

def goes (id n : Nat) : List (FileMove Nat) := List.replicate n (.advance id .go)

/-- A repair writes an archive, stores it and projects it. -/
def repairMoves : List (FileMove Nat) :=
  [.repairOne 1 7 "1.cbz", .advance 1 .go, .advance 1 (.write [98])] ++ goes 1 12

/-- The repair stops when its archive is stored, and the next one of the artifact begins. -/
def interruptedMoves : List (FileMove Nat) :=
  [.repairOne 1 7 "1.cbz", .advance 1 .go, .advance 1 (.write [98])] ++ goes 1 6 ++
    [.stop 1, .repairOne 2 7 "1.cbz", .advance 2 .go]

/-- Without the condition: the archive that was stored is emptied through its other name. -/
theorem interrupted_repair_damages : ∃ tr w, Run (FileStep spelled) emptyDisk tr w ∧
    ¬ w.Whole spelled := by
  refine ⟨_, _,
    (emptyDisk.play_run spelled (fun _ _ => true) interruptedMoves (by decide +kernel)).1,
    fun h => ?_⟩
  have hfile : (emptyDisk.play spelled interruptedMoves).disk.file? (.blob "b") = some [] := by
    decide +kernel
  exact absurd (h.blobs "b" [] hfile).1 (by decide +kernel)

theorem repairMoves_whole : ∃ tr w, Run (FileStep spelled) emptyDisk tr w ∧
    w.disk.file? (.blob "b") = some [98] ∧
    w.disk.file? (.projection .library "1.cbz") = some [98] ∧
    (∀ x, Run.Visits tr w x → x.Whole spelled) ∧
      ∀ x y, Run.Later tr w x y → ∀ p i, p.isWhole = true → x.disk.inode p = some i →
        y.disk.data i = x.disk.data i := by
  obtain ⟨hrun, hmeets⟩ :=
    emptyDisk.play_run spelled FileWork.opensNew repairMoves (by decide +kernel)
  exact ⟨_, _, hrun, by decide +kernel, by decide +kernel, files_whole hrun emptyDisk_idle hmeets⟩

end MangaManager
