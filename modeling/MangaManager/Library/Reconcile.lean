import MangaManager.Catalog.Tables
import MangaManager.Lib.Sweep
import MangaManager.Library.Files

/-!
# Reconciling the storage

`StorageReconciler.run` of `manga_manager/application/storage_reconcile.py`: every projection that
the tables expect is compared with its blob and made anew where it is damaged or gone, and stale
staging files are removed.

`reconcile_repairs` is what a run leaves, and that later ones have nothing left to repair. The loop
is a sweep (`Reconciling.foldl_check`), and a repair of it is what the operations of a task of
`_materialize` come to when nothing else is at work (`materialize_alone`).
-/

namespace MangaManager

open Lib

variable {β : Type}

abbrev StorageDisk (β : Type) := Disk FilePath β

/-- A row of `_snapshot`. -/
structure ExpectedProjection where
  blobPath : String
  checksum : String
  projectionPath : String
  deriving DecidableEq

/-- The file of a path `blobs/../<name>.cbz`. -/
def blobFile (path : String) : FilePath :=
  .blob (String.ofList ((path.toList.reverse.takeWhile (· != '/')).drop 4).reverse)

example : blobFile "blobs/ab/abcd.cbz" = .blob "abcd" := by decide

def ExpectedProjection.blob (row : ExpectedProjection) : FilePath := blobFile row.blobPath

def ExpectedProjection.projection (row : ExpectedProjection) : FilePath :=
  .projection .library row.projectionPath

/-- `_snapshot`. -/
def Catalog.expectedProjections (c : Catalog) : List ExpectedProjection :=
  c.blobs.flatMap fun b =>
    (c.artifacts.filter fun a => a.state == .active && a.blobChecksum == b.checksum).flatMap fun a =>
      (c.projections.filter (·.artifactId == a.id)).map fun p =>
        ⟨b.relativePath, b.checksum, p.relativePath⟩

structure ReconciliationReport where
  checked : Nat := 0
  repaired : Nat := 0
  missingBlobs : Nat := 0
  orphanBlobs : Nat := 0
  staleStagingRemoved : Nat := 0
  deriving DecidableEq

namespace StorageDisk

variable (sha : List β → String) (refused : Nat → Bool) (d : StorageDisk β)

/-- `path.is_file() and file_checksum(path) == checksum`. -/
def intact (p : FilePath) (checksum : String) : Bool :=
  (d.file? p).any fun bytes => sha bytes == checksum

/-- `_materialize`, from its first operation to its last. -/
def materialize (uuid : Nat) (source target : FilePath) (refused : Bool) : StorageDisk β :=
  let linked := match if refused then none else d.link source (.temporary uuid) with
    | some linked => linked
    | none =>
      let new := d.create (.temporary uuid)
      new.1.append new.2 ((d.file? source).getD [])
  ((linked.replace (.temporary uuid) target).getD linked).unlink (.temporary uuid)

end StorageDisk

/-- The variables of the loop. -/
structure Reconciling (β : Type) where
  disk : StorageDisk β
  uuids : Nat
  repaired : Nat := 0
  missingBlobs : Nat := 0

/-- A turn of the loop; `refused` are the links that the file system does not make. -/
def Reconciling.check (sha : List β → String) (refused : Nat → Bool) (r : Reconciling β)
    (row : ExpectedProjection) : Reconciling β :=
  if ¬ r.disk.intact sha row.blob row.checksum then { r with missingBlobs := r.missingBlobs + 1 }
  else if ¬ r.disk.intact sha row.projection row.checksum then
    { r with
      disk := r.disk.materialize r.uuids row.blob row.projection (refused r.uuids)
      uuids := r.uuids + 1
      repaired := r.repaired + 1 }
  else r

def FilePath.isStaging : FilePath → Bool
  | metadata _ | staging _ => true
  | _ => false

/-- `_remove_stale_staging`. -/
def removeStaleStaging (d : StorageDisk β) (listed : List (FilePath × Int)) (cutoff : Int) :
    StorageDisk β × Nat :=
  let stale := listed.filter fun x => x.1.isStaging && (d.inode x.1).isSome && x.2 < cutoff
  (stale.foldl (fun d x => d.unlink x.1) d, stale.length)

/-- `run`; `listed` is what the directories list, with the times of the files. -/
def StorageDisk.reconcile (sha : List β → String) (refused : Nat → Bool) (d : StorageDisk β)
    (uuids : Nat) (c : Catalog) (listed : List (FilePath × Int)) (cutoff : Int) :
    StorageDisk β × Nat × ReconciliationReport :=
  let r := c.expectedProjections.foldl (Reconciling.check sha refused) ⟨d, uuids, 0, 0⟩
  let orphans := (listed.map (·.1)).dedup.filter fun p => match p with
    | .blob _ => c.blobs.all (blobFile ·.relativePath != p)
    | _ => false
  let (d, removed) := removeStaleStaging r.disk listed cutoff
  (d, r.uuids,
    { checked := c.expectedProjections.length
      repaired := r.repaired
      missingBlobs := r.missingBlobs
      orphanBlobs := orphans.length
      staleStagingRemoved := removed })

/-- The unique keys of the tables. -/
structure Catalog.Keys (c : Catalog) : Prop where
  blobs : (c.blobs.map (·.checksum)).Nodup
  artifacts : Table.Keyed ChapterArtifact.id c.artifacts
  projections : (c.projections.map (·.relativePath)).Nodup

/-- The names lead to inodes, and the names still to be drawn are free. -/
structure StorageDisk.Ready (d : StorageDisk β) (uuids : Nat) : Prop where
  bound : ∀ p i, d.inode p = some i → i < d.next
  drawn : ∀ uuid, uuids ≤ uuid → d.inode (.temporary uuid) = none

section
variable {sha : List β → String} {refused : Nat → Bool} {d : StorageDisk β} {uuids uuid : Nat}
  {source target p : FilePath} {bytes : List β} {row : ExpectedProjection}

/-- After `_materialize` the target has what the source has; all other files stay. -/
theorem StorageDisk.materialize_spec (h : d.Ready uuids) (hu : uuids ≤ uuid)
    (hs : d.file? source = some bytes) (hw : target.isWhole = true) (refused : Bool) :
    (d.materialize uuid source target refused).Ready (uuid + 1) ∧
      (d.materialize uuid source target refused).file? target = some bytes ∧
      ∀ p, p ≠ target → (d.materialize uuid source target refused).file? p = d.file? p := by
  obtain ⟨s, hs', rfl⟩ := Disk.file?_some.mp hs
  have hnone := h.drawn uuid hu
  have ht : ∀ u, target ≠ .temporary u := by
    rintro u rfl
    cases hw
  have hsource : source ≠ .temporary uuid := by
    rintro rfl
    rw [hnone] at hs'
    cases hs'
  -- the link or the copy
  have hlinked : ∃ linked : StorageDisk β, ∃ i,
      (match if refused = true then none else d.link source (.temporary uuid) with
        | some linked => linked
        | none => (d.create (.temporary uuid)).1.append (d.create (.temporary uuid)).2
            ((d.file? source).getD [])) = linked ∧
      linked.inode = Function.update d.inode (.temporary uuid) (some i) ∧ i < linked.next ∧
      linked.data i = d.data s ∧ (∀ j < d.next, linked.data j = d.data j) ∧
      d.next ≤ linked.next := by
    cases refused with
    | false =>
      refine ⟨_, s, rfl, ?_⟩
      have hlink : d.link source (.temporary uuid) =
          some { d with inode := Function.update d.inode (.temporary uuid) (some s) } := by
        unfold Disk.link
        rw [hs', hnone]
      rw [if_neg Bool.false_ne_true, hlink]
      exact ⟨rfl, h.bound _ _ hs', rfl, fun _ _ => rfl, Nat.le_refl _⟩
    | true =>
      refine ⟨_, d.next, rfl, ?_⟩
      rw [if_pos rfl, hs]
      unfold Disk.create
      rw [hnone]
      refine ⟨rfl, Nat.lt_succ_self _, ?_, fun j hj => ?_, Nat.le_succ _⟩
      · simp [Disk.append]
      · simp [Disk.append, Nat.ne_of_lt hj]
  obtain ⟨linked, i, he, hinode, hi, hdata, hkeeps, hnext⟩ := hlinked
  unfold materialize
  dsimp only
  rw [he]
  -- the names afterwards
  have hafter : ∃ after : StorageDisk β,
      ((linked.replace (.temporary uuid) target).getD linked).unlink (.temporary uuid) = after ∧
      after.data = linked.data ∧ after.next = linked.next ∧ after.inode target = some i ∧
      after.inode (.temporary uuid) = none ∧
      ∀ p, p ≠ target → p ≠ .temporary uuid → after.inode p = d.inode p := by
    refine ⟨_, rfl, ?_⟩
    have htemp : linked.inode (.temporary uuid) = some i := by
      rw [hinode, Function.update_self]
    unfold Disk.replace
    rw [htemp]
    dsimp only
    by_cases hsame : linked.inode target = some i
    · rw [if_pos hsame]
      refine ⟨rfl, rfl, ?_, Function.update_self _ _ _, fun p _ hpt => ?_⟩
      · exact (Function.update_of_ne (ht uuid) _ _).trans hsame
      · refine (Function.update_of_ne hpt _ _).trans ?_
        rw [Option.getD_some, hinode, Function.update_of_ne hpt]
    · rw [if_neg hsame]
      refine ⟨rfl, rfl, ?_, Function.update_self _ _ _, fun p hp hpt => ?_⟩
      · simp [Disk.unlink, Function.update_of_ne (ht uuid)]
      · simp [Disk.unlink, Function.update_of_ne hpt, Function.update_of_ne hp, hinode]
  obtain ⟨after, he', hdata', hnext', htarget, htemp, hothers⟩ := hafter
  rw [he']
  refine ⟨⟨fun p j hp => ?_, fun u hu' => ?_⟩, ?_, fun p hp => ?_⟩
  · rw [hnext']
    by_cases hpt : p = target
    · subst hpt
      rw [htarget] at hp
      cases hp
      exact hi
    · by_cases hptemp : p = .temporary uuid
      · subst hptemp
        rw [htemp] at hp
        cases hp
      · rw [hothers p hpt hptemp] at hp
        exact Nat.lt_of_lt_of_le (h.bound p j hp) hnext
  · have hne : FilePath.temporary u ≠ .temporary uuid := by
      intro he
      cases he
      exact absurd hu' (Nat.not_succ_le_self _)
    rw [hothers _ (ht u).symm hne]
    exact h.drawn u (Nat.le_trans hu (Nat.le_of_succ_le hu'))
  · unfold Disk.file?
    rw [htarget, hdata', Option.map_some, hdata]
  · by_cases hptemp : p = .temporary uuid
    · subst hptemp
      unfold Disk.file?
      rw [htemp, hnone]
      rfl
    · unfold Disk.file?
      rw [hothers p hp hptemp, hdata']
      cases hj : d.inode p with
      | none => rfl
      | some j => rw [Option.map_some, Option.map_some, hkeeps j (h.bound p j hj)]

/-- The tables expect every projection once. -/
theorem Catalog.Keys.expected {c : Catalog} (h : c.Keys) :
    (c.expectedProjections.map (·.projectionPath)).Nodup := by
  obtain ⟨hb, ha, hp⟩ := h
  unfold Catalog.expectedProjections
  simp only [List.map_flatMap, List.map_map, Function.comp_def]
  -- a path leads to its projection, artifact and blob
  have hpath : ∀ {a a' : ChapterArtifact} {path : String},
      path ∈ (c.projections.filter (·.artifactId == a.id)).map (·.relativePath) →
      path ∈ (c.projections.filter (·.artifactId == a'.id)).map (·.relativePath) →
      a ∈ c.artifacts → a' ∈ c.artifacts → a = a' := by
    intro a a' path h h' ha₁ ha₂
    obtain ⟨q, hq, rfl⟩ := List.mem_map.mp h
    obtain ⟨q', hq', he⟩ := List.mem_map.mp h'
    obtain ⟨hq, hqa⟩ := List.mem_filter.mp hq
    obtain ⟨hq', hqa'⟩ := List.mem_filter.mp hq'
    obtain rfl := List.inj_on_of_nodup_map hp hq' hq he
    exact ha.eq ha₁ ha₂ ((beq_iff_eq.mp hqa).symm.trans (beq_iff_eq.mp hqa'))
  have hartifact : ∀ {b : ArtifactBlob} {path : String},
      path ∈ (c.artifacts.filter fun a => a.state == .active && a.blobChecksum == b.checksum).flatMap
        (fun a => (c.projections.filter (·.artifactId == a.id)).map (·.relativePath)) →
      ∃ a ∈ c.artifacts, a.blobChecksum = b.checksum ∧
        path ∈ (c.projections.filter (·.artifactId == a.id)).map (·.relativePath) := by
    intro b path h
    obtain ⟨a, ha', h⟩ := List.mem_flatMap.mp h
    obtain ⟨ha', hab⟩ := List.mem_filter.mp ha'
    exact ⟨a, ha', by simpa using (Bool.and_eq_true_iff.mp hab).2, h⟩
  refine List.nodup_flatMap.mpr ⟨fun b _ => List.nodup_flatMap.mpr ⟨fun a _ => ?_, ?_⟩, ?_⟩
  · exact List.Nodup.sublist (List.filter_sublist.map _) hp
  · refine (List.Nodup.of_map _ (ha.filter (p := _))).imp_of_mem fun h h' hne path hm hm' => ?_
    exact hne (hpath hm hm' (List.mem_of_mem_filter h) (List.mem_of_mem_filter h'))
  · refine (List.Nodup.of_map _ hb).imp_of_mem fun {b b'} h h' hne path hm hm' => ?_
    obtain ⟨a, ha₁, hab, hm⟩ := hartifact hm
    obtain ⟨a', ha₂, hab', hm'⟩ := hartifact hm'
    obtain rfl := hpath hm hm' ha₁ ha₂
    exact hne (List.inj_on_of_nodup_map hb h h' (hab.symm.trans hab'))

/-- A projection that has to be made anew. -/
def StorageDisk.damaged (sha : List β → String) (d : StorageDisk β) (row : ExpectedProjection) :
    Bool :=
  d.intact sha row.blob row.checksum && !d.intact sha row.projection row.checksum

def StorageDisk.restore (refused : Nat → Bool) (s : StorageDisk β × Nat)
    (row : ExpectedProjection) : StorageDisk β × Nat :=
  (s.1.materialize s.2 row.blob row.projection (refused s.2), s.2 + 1)

/-- What the loop has done since `d`: only damaged projections are different. -/
structure StorageDisk.Restored (sha : List β → String) (rows : List ExpectedProjection)
    (d : StorageDisk β) (s : StorageDisk β × Nat) : Prop where
  ready : s.1.Ready s.2
  damaged : ∀ row ∈ rows, s.1.damaged sha row = true → d.damaged sha row = true
  others : ∀ p, (∀ row ∈ rows, d.damaged sha row = true → p ≠ row.projection) →
    s.1.file? p = d.file? p

theorem StorageDisk.intact_iff {checksum : String} : d.intact sha p checksum = true ↔
    ∃ bytes, d.file? p = some bytes ∧ sha bytes = checksum := by
  unfold intact
  cases d.file? p with
  | none => simp
  | some bytes => simp

/-- What `restore` does to the files. -/
theorem StorageDisk.restore_files (refused : Nat → Bool) {s : StorageDisk β × Nat}
    (h : s.1.Ready s.2) (hd : s.1.damaged sha row = true) :
    (restore refused s row).1.Ready (restore refused s row).2 ∧
      (restore refused s row).1.intact sha row.projection row.checksum = true ∧
      ∀ p, p ≠ row.projection → (restore refused s row).1.file? p = s.1.file? p := by
  obtain ⟨bytes, hfile, hsum⟩ := intact_iff.mp (Bool.and_eq_true_iff.mp hd).1
  obtain ⟨hready, hnew, hothers⟩ := materialize_spec h (Nat.le_refl _) hfile
    (show row.projection.isWhole = true from rfl) (refused s.2)
  exact ⟨hready, intact_iff.mpr ⟨bytes, hnew, hsum⟩, hothers⟩

/-- The damage of another row stays as it is. -/
theorem StorageDisk.restore_damaged (refused : Nat → Bool) {s : StorageDisk β × Nat}
    {other : ExpectedProjection} (h : s.1.Ready s.2) (hd : s.1.damaged sha row = true)
    (hne : other.projectionPath ≠ row.projectionPath) :
    (restore refused s row).1.damaged sha other = s.1.damaged sha other := by
  obtain ⟨-, -, hfiles⟩ := restore_files refused h hd
  unfold damaged intact
  rw [hfiles other.blob fun he => (by cases he), hfiles other.projection fun he =>
    hne (FilePath.projection.inj he).2]

theorem StorageDisk.restored (h : d.Ready uuids) (rows : List ExpectedProjection) :
    d.Restored sha rows (d, uuids) := ⟨h, fun _ _ h => h, fun _ _ => rfl⟩

theorem StorageDisk.repairs (refused : Nat → Bool) {rows : List ExpectedProjection}
    (hrows : (rows.map (·.projectionPath)).Nodup) :
    Repairs (fun s => s.1.damaged sha) (restore refused) (d.Restored sha rows) rows where
  keeps := by
    intro s hs row hrow hd
    obtain ⟨hready, hnew, hfiles⟩ := restore_files refused hs.ready hd
    refine ⟨hready, fun other hother hdother => ?_, fun p hp => ?_⟩
    · by_cases hne : other.projectionPath = row.projectionPath
      · rw [List.inj_on_of_nodup_map hrows hother hrow hne]
        exact hs.damaged row hrow hd
      · rw [restore_damaged refused hs.ready hd hne] at hdother
        exact hs.damaged other hother hdother
    · rw [hfiles p (hp row hrow (hs.damaged row hrow hd))]
      exact hs.others p hp
  repairs := by
    intro s hs row _ hd
    unfold damaged
    rw [(restore_files refused hs.ready hd).2.1, Bool.not_true, Bool.and_false]
  leaves := by
    intro s hs row hrow hd other hother hne
    exact restore_damaged refused hs.ready hd fun he =>
      hne (List.inj_on_of_nodup_map hrows hother hrow he)

/-- The loop is a sweep, which also counts the blobs that are missing. -/
theorem Reconciling.foldl_check (sha : List β → String) (refused : Nat → Bool)
    (rows : List ExpectedProjection) (r : Reconciling β)
    (h : r.disk.Ready r.uuids) :
    rows.foldl (check sha refused) r =
      { disk := (sweep (fun s => s.1.damaged sha) (StorageDisk.restore refused) none r.repaired
          (r.disk, r.uuids) rows).1.1
        uuids := (sweep (fun s => s.1.damaged sha) (StorageDisk.restore refused) none r.repaired
          (r.disk, r.uuids) rows).1.2
        repaired := (sweep (fun s => s.1.damaged sha) (StorageDisk.restore refused) none r.repaired
          (r.disk, r.uuids) rows).2
        missingBlobs := r.missingBlobs +
          (rows.filter fun row => !r.disk.intact sha row.blob row.checksum).length } := by
  induction rows generalizing r with
  | nil => rfl
  | cons row rows ih =>
    rw [List.foldl_cons]
    by_cases hblob : r.disk.intact sha row.blob row.checksum = true
    · by_cases hproj : r.disk.intact sha row.projection row.checksum = true
      · have hstay : r.check sha refused row = r := by
          unfold check
          rw [if_neg (not_not_intro hblob), if_neg (not_not_intro hproj)]
        have hright : r.disk.damaged sha row = false := by
          simp [StorageDisk.damaged, hblob, hproj]
        rw [hstay, ih r h, sweep]
        dsimp only
        rw [hright, if_neg Bool.false_ne_true,
          List.filter_cons_of_neg (by simp [hblob])]
      · have hwrong : r.disk.damaged sha row = true := by
          simp [StorageDisk.damaged, hblob, hproj]
        obtain ⟨hready, -, hfiles⟩ :=
          StorageDisk.restore_files refused (s := (r.disk, r.uuids)) h hwrong
        have hcheck : r.check sha refused row =
            { disk := (StorageDisk.restore refused (r.disk, r.uuids) row).1
              uuids := (StorageDisk.restore refused (r.disk, r.uuids) row).2
              repaired := r.repaired + 1
              missingBlobs := r.missingBlobs } := by
          unfold check
          rw [if_neg (not_not_intro hblob), if_pos hproj]
          rfl
        have hmissing : (fun row' : ExpectedProjection =>
            !(StorageDisk.restore refused (r.disk, r.uuids) row).1.intact sha row'.blob row'.checksum) =
            fun row' => !r.disk.intact sha row'.blob row'.checksum := by
          funext row'
          unfold StorageDisk.intact
          rw [hfiles row'.blob fun he => (by cases he)]
        rw [hcheck, ih _ hready, sweep]
        dsimp only
        rw [if_pos hwrong, if_neg (by simp),
          List.filter_cons_of_neg (by simp [hblob]), hmissing]
    · have hcheck : r.check sha refused row =
          { r with missingBlobs := r.missingBlobs + 1 } := by
        unfold check
        rw [if_pos hblob]
      have hright : r.disk.damaged sha row = false := by
        simp [StorageDisk.damaged, hblob]
      rw [hcheck, ih { r with missingBlobs := r.missingBlobs + 1 } h, sweep]
      dsimp only
      rw [hright, if_neg Bool.false_ne_true, List.filter_cons_of_pos (by simp [hblob])]
      simp only [List.length_cons, Reconciling.mk.injEq, true_and]
      omega

theorem removeStaleStaging_files (listed : List (FilePath × Int)) (cutoff : Int)
    (h : d.Ready uuids) : (removeStaleStaging d listed cutoff).1.Ready uuids ∧
      ∀ p, p.isStaging = false → (removeStaleStaging d listed cutoff).1.file? p = d.file? p := by
  unfold removeStaleStaging
  dsimp only
  have hstale : ∀ x ∈ listed.filter fun x => x.1.isStaging && (d.inode x.1).isSome && x.2 < cutoff,
      x.1.isStaging = true := by
    intro x hx
    simpa using (Bool.and_eq_true_iff.mp (Bool.and_eq_true_iff.mp (List.mem_filter.mp hx).2).1).1
  generalize (listed.filter fun x => x.1.isStaging && (d.inode x.1).isSome && x.2 < cutoff) = stale
    at hstale
  induction stale generalizing d with
  | nil => exact ⟨h, fun _ _ => rfl⟩
  | cons x stale ih =>
    have hnames : ∀ {p i}, (d.unlink x.1).inode p = some i → d.inode p = some i :=
      Disk.unlink_inode
    have hready : StorageDisk.Ready (d.unlink x.1) uuids := by
      refine ⟨fun p i hp => h.bound p i (hnames hp), fun uuid hu => ?_⟩
      cases hi : (d.unlink x.1).inode (.temporary uuid) with
      | none => rfl
      | some i =>
        have hi := hnames hi
        rw [h.drawn uuid hu] at hi
        cases hi
    obtain ⟨hready', hfiles⟩ := ih hready fun y hy => hstale y (List.mem_cons_of_mem x hy)
    refine ⟨hready', fun p hp => ?_⟩
    rw [List.foldl_cons, hfiles p hp]
    have hne : p ≠ x.1 := by
      rintro rfl
      rw [hstale x List.mem_cons_self] at hp
      cases hp
    exact congrArg (Option.map d.data) (Function.update_of_ne hne _ _)

/-- What a run leaves, and what it reports. -/
structure StorageDisk.Reconciled (sha : List β → String) (rows : List ExpectedProjection)
    (d d' : StorageDisk β) (report : ReconciliationReport) : Prop where
  projections : ∀ row ∈ rows, d.intact sha row.blob row.checksum = true →
    d'.intact sha row.projection row.checksum = true
  others : ∀ p, p.isStaging = false →
    (∀ row ∈ rows, d.damaged sha row = true → p ≠ row.projection) → d'.file? p = d.file? p
  repaired : report.repaired = (rows.filter (d.damaged sha)).length
  missing : report.missingBlobs =
    (rows.filter fun row => !d.intact sha row.blob row.checksum).length

theorem StorageDisk.reconcile_spec {c : Catalog} {listed : List (FilePath × Int)} {cutoff : Int}
    {d' : StorageDisk β} {uuids' : Nat} {report : ReconciliationReport} (h : d.Ready uuids)
    (hkeys : c.Keys)
    (hr : d.reconcile sha refused uuids c listed cutoff = (d', uuids', report)) :
    d.Reconciled sha c.expectedProjections d' report ∧ d'.Ready uuids' := by
  have hloop := Reconciling.foldl_check sha refused c.expectedProjections ⟨d, uuids, 0, 0⟩ h
  have hrows := hkeys.expected
  have hrepairs : Repairs _ _ (d.Restored sha _) _ := repairs refused hrows
  have hsweep := hrepairs.sweep_none (n := 0)
    (List.Nodup.of_map _ hrows) (restored h _)
  dsimp only at hloop hsweep
  generalize sweep (fun s => s.1.damaged sha) (restore refused) none 0 (d, uuids)
    c.expectedProjections = s at hloop hsweep
  obtain ⟨⟨after, uuids''⟩, repaired⟩ := s
  obtain ⟨hrestored, hright, hcount⟩ := hsweep
  obtain ⟨hready, hstale⟩ := removeStaleStaging_files listed cutoff hrestored.ready
  unfold reconcile at hr
  rw [hloop] at hr
  cases hr
  dsimp only at hready hstale hright hcount
  have hothers : ∀ p, p.isStaging = false →
      (∀ row ∈ c.expectedProjections, d.damaged sha row = true → p ≠ row.projection) →
      (removeStaleStaging after listed cutoff).1.file? p = d.file? p := by
    intro p hp hne
    rw [hstale p hp]
    exact hrestored.others p hne
  refine ⟨⟨fun row hrow hblob => ?_, hothers, ?_, by simp⟩, hready⟩
  · have hafter : after.intact sha row.blob row.checksum = true := by
      unfold intact
      rw [hrestored.others row.blob fun row' _ _ he => (by cases he)]
      exact hblob
    have hdamaged := hright row hrow
    unfold damaged at hdamaged
    rw [hafter, Bool.true_and, Bool.not_eq_false'] at hdamaged
    exact (congrArg (Option.any _) (hstale row.projection rfl)).trans hdamaged
  · rw [hcount, Nat.zero_add]

/-- What a run meets. -/
structure ReconcileTurn where
  refused : Nat → Bool
  listed : List (FilePath × Int)
  cutoff : Int

/-- The disks that runs leave, and their reports. -/
def StorageDisk.reconciliations (sha : List β → String) (c : Catalog) (s : StorageDisk β × Nat) :
    List ReconcileTurn → List (StorageDisk β × ReconciliationReport)
  | [] => []
  | turn :: turns =>
    let (d, uuids, report) := s.1.reconcile sha turn.refused s.2 c turn.listed turn.cutoff
    (d, report) :: reconciliations sha c (d, uuids) turns

theorem StorageDisk.reconciliations_cons {c : Catalog} {turn : ReconcileTurn}
    {turns : List ReconcileTurn} {d' : StorageDisk β} {uuids' : Nat} {report : ReconciliationReport}
    (hr : d.reconcile sha turn.refused uuids c turn.listed turn.cutoff = (d', uuids', report)) :
    reconciliations sha c (d, uuids) (turn :: turns) =
      (d', report) :: reconciliations sha c (d', uuids') turns := by
  simp only [reconciliations, hr]

/-- Files that are the same, outside of the staging directory. -/
def StorageDisk.Same (d d' : StorageDisk β) : Prop :=
  ∀ p, p.isStaging = false → d'.file? p = d.file? p

/-- Runs that find nothing damaged leave everything as it is. -/
theorem StorageDisk.reconciliations_right {c : Catalog} (turns : List ReconcileTurn)
    (h : d.Ready uuids) (hkeys : c.Keys)
    (hright : ∀ row ∈ c.expectedProjections, d.damaged sha row = false) :
    ∀ x ∈ reconciliations sha c (d, uuids) turns, x.2.repaired = 0 ∧
      x.2.missingBlobs = (c.expectedProjections.filter fun row =>
        !d.intact sha row.blob row.checksum).length ∧ d.Same x.1 := by
  induction turns generalizing d uuids with
  | nil => exact fun _ hx => (by cases hx)
  | cons turn turns ih =>
    rcases hr : d.reconcile sha turn.refused uuids c turn.listed turn.cutoff with
      ⟨d', uuids', report⟩
    rw [reconciliations_cons hr]
    obtain ⟨hd, hready⟩ := reconcile_spec h hkeys hr
    have hsame : d.Same d' := fun p hp => hd.others p hp fun row hrow hdamaged => by
      rw [hright row hrow] at hdamaged
      cases hdamaged
    have hintact : ∀ {p checksum}, p.isStaging = false →
        d'.intact sha p checksum = d.intact sha p checksum := by
      intro p checksum hp
      unfold intact
      rw [hsame p hp]
    have hcount : (c.expectedProjections.filter fun row =>
        !d'.intact sha row.blob row.checksum) = c.expectedProjections.filter fun row =>
          !d.intact sha row.blob row.checksum :=
      List.filter_congr fun row _ => congrArg (!·) (hintact rfl)
    intro x hx
    rcases List.mem_cons.mp hx with rfl | hx
    · refine ⟨?_, hd.missing, hsame⟩
      rw [hd.repaired, List.filter_eq_nil_iff.mpr fun row hrow => by simp [hright row hrow]]
      rfl
    · obtain ⟨hrepaired, hmissing, hx⟩ := ih hready (fun row hrow => by
        unfold damaged
        rw [hintact rfl, hintact rfl]
        exact hright row hrow) x hx
      refine ⟨hrepaired, ?_, fun p hp => (hx p hp).trans (hsame p hp)⟩
      rw [hmissing, hcount]

/-- A run makes every projection anew that is damaged and whose blob is not; the next ones have
nothing left to do. -/
theorem reconcile_repairs {c : Catalog} {first : ReconcileTurn} {later : List ReconcileTurn}
    {d' : StorageDisk β} {report : ReconciliationReport}
    {reports : List (StorageDisk β × ReconciliationReport)} (h : d.Ready uuids) (hkeys : c.Keys)
    (hruns : StorageDisk.reconciliations sha c (d, uuids) (first :: later) =
      (d', report) :: reports) :
    d.Reconciled sha c.expectedProjections d' report ∧
      ∀ x ∈ reports, x.2.repaired = 0 ∧ x.2.missingBlobs = report.missingBlobs ∧ d'.Same x.1 := by
  rcases hr : d.reconcile sha first.refused uuids c first.listed first.cutoff with
    ⟨d₁, uuids₁, report₁⟩
  rw [StorageDisk.reconciliations_cons hr] at hruns
  obtain ⟨hfirst, rfl⟩ := List.cons.inj hruns
  obtain ⟨rfl, rfl⟩ := Prod.mk.inj hfirst
  obtain ⟨hd, hready⟩ := StorageDisk.reconcile_spec h hkeys hr
  refine ⟨hd, fun x hx => ?_⟩
  have hblob : ∀ row ∈ c.expectedProjections, d₁.intact sha row.blob row.checksum =
      d.intact sha row.blob row.checksum := by
    intro row _
    unfold StorageDisk.intact
    rw [hd.others row.blob rfl fun row' _ _ he => (by cases he)]
  have hright : ∀ row ∈ c.expectedProjections, d₁.damaged sha row = false := by
    intro row hrow
    unfold StorageDisk.damaged
    rw [hblob row hrow]
    cases hi : d.intact sha row.blob row.checksum with
    | false => rfl
    | true => rw [hd.projections row hrow hi, Bool.not_true, Bool.and_false]
  obtain ⟨hrepaired, hmissing, hsame⟩ :=
    StorageDisk.reconciliations_right later hready hkeys hright x hx
  refine ⟨hrepaired, ?_, hsame⟩
  rw [hmissing, hd.missing]
  exact congrArg _ (List.filter_congr fun row hrow => congrArg (!·) (hblob row hrow))

end

/-- Two chapters, and a blob whose file is gone. -/
def reconcileTables : Catalog where
  blobs := [⟨"b", "blobs/b/b.cbz", 1⟩, ⟨"c", "blobs/c/c.cbz", 1⟩]
  artifacts := [⟨1, 1, none, "b", .active, "", "", 0, 1, none⟩,
    ⟨2, 2, none, "c", .active, "", "", 0, 1, none⟩]
  projections := [⟨1, 1, "1.cbz", 0⟩, ⟨2, 2, "2.cbz", 0⟩]

/-- The blob `b`, and a projection that was cut off. -/
def reconcileDisk : StorageDisk Nat where
  inode := fun p => if p = .blob "b" then some 0
    else if p = .projection .library "1.cbz" then some 1
    else none
  data := fun i => if i = 0 then [98] else []
  next := 2

def reconcileTurn : ReconcileTurn := ⟨fun _ => true, [], 0⟩

theorem reconcileDisk_repairs : ∃ d' report reports,
    StorageDisk.reconciliations spelled reconcileTables (reconcileDisk, 0)
      [reconcileTurn, reconcileTurn] = (d', report) :: reports ∧
    report = ⟨2, 1, 1, 0, 0⟩ ∧ d'.file? (.projection .library "1.cbz") = some [98] ∧
    reconcileDisk.Reconciled spelled reconcileTables.expectedProjections d' report ∧
      ∀ x ∈ reports, x.2.repaired = 0 ∧ x.2.missingBlobs = report.missingBlobs ∧ d'.Same x.1 := by
  refine ⟨_, _, _, rfl, by decide +kernel, by decide +kernel,
    reconcile_repairs ⟨fun p i hp => ?_, fun uuid _ => rfl⟩ ⟨by decide, by decide, by decide⟩ rfl⟩
  unfold reconcileDisk at hp ⊢
  dsimp only at hp ⊢
  split at hp
  · cases hp
    decide
  · split at hp
    · cases hp
      decide
    · cases hp

/-! ## The operations of a task -/

/-- A task at work beside others. -/
def FileWork.beside (w : FileWork β) (tasks : List FileTask) (id : Nat) (job : FileJob)
    (disk : Disk FilePath β) (phase : Option FilePhase) : FileWork β :=
  { w with disk := disk, tasks := tasks ++ (phase.map (FileTask.mk id job)).toList }

section
variable {sha : List β → String} {w w' : FileWork β} {disk disk' : Disk FilePath β}
  {tasks : List FileTask} {id src : Nat} {i : Install} {job : FileJob} {phase : FilePhase}
  {next : Option FilePhase} {input : FileInput β} {checksum : String}
  {root : LibraryRoot} {path : String} {bytes : List β}

theorem FileWork.beside_advance (moves : List (FileMove β)) (hid : ∀ x ∈ tasks, x.id ≠ id)
    (h : (w.beside tasks id job disk (some phase)).perform sha job phase input =
      (w'.beside tasks id job disk' (some phase), next)) :
    (w.beside tasks id job disk (some phase)).play sha (.advance id input :: moves) =
      (w'.beside tasks id job disk' next).play sha moves := by
  have hothers : tasks.filter (·.id != id) = tasks := by
    refine List.filter_eq_self.mpr fun x hx => ?_
    simpa using hid x hx
  have htask : (w.beside tasks id job disk (some phase)).task? id = some ⟨id, job, phase⟩ := by
    have hnone : tasks.find? (fun x => x.id == id) = none :=
      List.find?_eq_none.mpr fun x hx => by simpa using hid x hx
    simp [task?, beside, Table.get, hnone]
  unfold play
  rw [List.foldl_cons]
  congr 1
  unfold step
  dsimp only
  rw [htask, Option.map_some, h]
  simp [beside, resume, List.filter_append, hothers]

theorem FileWork.beside_link (moves : List (FileMove β)) (hid : ∀ x ∈ tasks, x.id ≠ id)
    (hl : disk.link i.source i.temporary = some disk') (hc : i.checksum = none) :
    (w.beside tasks id job disk (some (.linking i))).play sha (.advance id .go :: moves) =
      (w.beside tasks id job disk' (some (.installing i))).play sha moves := by
  refine beside_advance _ hid ?_
  simp [perform, operate, beside, Install.copied, hl, hc]

theorem FileWork.beside_copy (moves : List (FileMove β)) (hid : ∀ x ∈ tasks, x.id ≠ id)
    (hs : disk.inode i.source = some src) (hnew : disk.inode i.temporary = none)
    (hnext : src < disk.next) (hc : i.checksum = none) :
    (w.beside tasks id job disk (some (.linking i))).play sha
      (.advance id .refused :: .advance id (.chunk (disk.data src).length) :: .advance id .go ::
        moves) =
    (w.beside tasks id job ((disk.create i.temporary).1.append disk.next (disk.data src))
      (some (.installing i))).play sha moves := by
  have hcreate : disk.create i.temporary =
      ({ inode := Function.update disk.inode i.temporary (some disk.next)
         data := Function.update disk.data disk.next []
         next := disk.next + 1 }, disk.next) := by
    unfold Disk.create
    rw [hnew]
  have hdata : (disk.create i.temporary).1.data src = disk.data src := by
    rw [hcreate]
    exact Function.update_of_ne (Nat.ne_of_lt hnext) _ _
  have hlinking : (w.beside tasks id job disk (some (.linking i))).perform sha job (.linking i)
      .refused = (w.beside tasks id job (disk.create i.temporary).1 (some (.linking i)),
        some (.copying i src disk.next 0)) := by
    simp [perform, operate, copy, beside, hs, hcreate]
  have hchunk : (w.beside tasks id job (disk.create i.temporary).1
      (some (.copying i src disk.next 0))).perform sha job (.copying i src disk.next 0)
        (.chunk (disk.data src).length) =
      (w.beside tasks id job ((disk.create i.temporary).1.append disk.next (disk.data src))
        (some (.copying i src disk.next 0)), some (.copying i src disk.next (disk.data src).length)) := by
    simp [perform, operate, beside, hdata]
  have hcopied : (w.beside tasks id job
      ((disk.create i.temporary).1.append disk.next (disk.data src))
        (some (.copying i src disk.next (disk.data src).length))).perform sha job
        (.copying i src disk.next (disk.data src).length) .go =
      (w.beside tasks id job ((disk.create i.temporary).1.append disk.next (disk.data src))
        (some (.copying i src disk.next (disk.data src).length)), some (.installing i)) := by
    have hrest : (((disk.create i.temporary).1.append disk.next (disk.data src)).data src).drop
        (disk.data src).length = [] := by
      have happend : ((disk.create i.temporary).1.append disk.next (disk.data src)).data src =
          disk.data src := (Function.update_of_ne (Nat.ne_of_lt hnext) _ _).trans hdata
      rw [happend, List.drop_length]
    simp [perform, operate, beside, hrest, Install.copied, hc]
  rw [beside_advance _ hid hlinking, beside_advance _ hid hchunk, beside_advance _ hid hcopied]

/-- The last operations of a projection. -/
theorem FileWork.beside_install (hid : ∀ x ∈ tasks, x.id ≠ id)
    (ht : disk.inode i.temporary = some src) (hp : i.target = .projection root path) :
    (w.beside tasks id (.materialize root path) disk (some (.installing i))).play sha
      [.advance id .go, .advance id .go, .advance id .go] =
    w.beside tasks id (.materialize root path)
      (((disk.replace i.temporary i.target).getD disk).unlink i.temporary) none := by
  obtain ⟨disk', hd⟩ : ∃ disk', disk.replace i.temporary i.target = some disk' := by
    unfold Disk.replace
    rw [ht]
    dsimp only
    split
    · exact ⟨_, rfl⟩
    · exact ⟨_, rfl⟩
  have hinstall : (w.beside tasks id (.materialize root path) disk
      (some (.installing i))).perform sha (.materialize root path) (.installing i) .go =
      (w.beside tasks id (.materialize root path) disk' (some (.installing i)),
        some (.dropping i true)) := by
    simp [perform, operate, beside, hd]
  have hdrop : (w.beside tasks id (.materialize root path) disk'
      (some (.dropping i true))).perform sha (.materialize root path) (.dropping i true) .go =
      (w.beside tasks id (.materialize root path) (disk'.unlink i.temporary)
        (some (.dropping i true)), some .cleaning) := by
    simp [perform, operate, beside, FileJob.installed, hp]
  rw [hd, Option.getD_some, beside_advance _ hid hinstall, beside_advance _ hid hdrop,
    beside_advance _ hid rfl]
  rfl

/-- The moves of a projection when nothing else is at work. -/
def projectAlone (id : Nat) (checksum : String) (root : LibraryRoot) (path : String)
    (refused : Bool) (size : Nat) : List (FileMove β) :=
  .materialize id checksum root path :: .advance id .go ::
    ((if refused then [.advance id .refused, .advance id (.chunk size), .advance id .go]
      else [.advance id .go]) ++ [.advance id .go, .advance id .go, .advance id .go])

/-- `materialize` is what the operations of the task come to. -/
theorem FileWork.materialize_alone (sha : List β → String) (refused : Bool)
    (hid : ∀ x ∈ w.tasks, x.id ≠ id) (h : StorageDisk.Ready w.disk w.uuids)
    (hb : w.disk.file? (.blob checksum) = some bytes) :
    w.play sha (projectAlone id checksum root path refused bytes.length) =
      { w with
        disk := StorageDisk.materialize w.disk w.uuids (.blob checksum) (.projection root path) refused
        uuids := w.uuids + 1 } := by
  obtain ⟨src, hsrc, rfl⟩ := Disk.file?_some.mp hb
  have hnew := h.drawn w.uuids (Nat.le_refl _)
  have hothers : w.tasks.filter (·.id != id) = w.tasks := by
    refine List.filter_eq_self.mpr fun x hx => ?_
    simpa using hid x hx
  have hnone : w.task? id = none :=
    List.find?_eq_none.mpr fun x hx => by simpa using hid x hx
  have hcall : w.step sha (.materialize id checksum root path) =
      some (w.beside w.tasks id (.materialize root path) w.disk (some (.projecting checksum))) := by
    simp [step, call, hnone, beside, resume, hothers]
  have hproject : (w.beside w.tasks id (.materialize root path) w.disk
      (some (.projecting checksum))).perform sha (.materialize root path) (.projecting checksum) .go =
      ({ w with uuids := w.uuids + 1 }.beside w.tasks id (.materialize root path) w.disk
        (some (.projecting checksum)),
        some (.linking ⟨.blob checksum, .projection root path, w.uuids, none⟩)) := by
    simp [perform, operate, beside, hb, FileJob.projection]
  unfold projectAlone
  rw [play, List.foldl_cons, hcall, Option.getD_some, ← play, beside_advance _ hid hproject]
  unfold StorageDisk.materialize
  cases refused with
  | false =>
    have hlink : w.disk.link (.blob checksum) (.temporary w.uuids) = some
        { w.disk with inode := Function.update w.disk.inode (.temporary w.uuids) (some src) } := by
      unfold Disk.link
      rw [hsrc, hnew]
    rw [if_neg Bool.false_ne_true, if_neg Bool.false_ne_true, hlink, List.singleton_append,
      beside_link _ hid hlink rfl, beside_install hid (Function.update_self _ _ _) rfl]
    simp [beside, Install.temporary]
  | true =>
    rw [if_pos rfl, if_pos rfl, hb, List.cons_append, List.cons_append, List.singleton_append,
      beside_copy _ hid hsrc hnew (h.bound _ _ hsrc) rfl]
    have hcreate : w.disk.create (.temporary w.uuids) =
        ({ inode := Function.update w.disk.inode (.temporary w.uuids) (some w.disk.next)
           data := Function.update w.disk.data w.disk.next []
           next := w.disk.next + 1 }, w.disk.next) := by
      unfold Disk.create
      rw [hnew]
    dsimp only [Install.temporary]
    rw [hcreate, beside_install hid (Function.update_self _ _ _) rfl]
    simp [beside, Install.temporary]

end

end MangaManager
