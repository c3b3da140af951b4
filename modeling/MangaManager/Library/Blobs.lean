import MangaManager.Library.Metadata
import MangaManager.Lib.Text

/-!
# The blobs and their files

An archive is stored under its checksum: `store_existing` and `_store_fresh_archive` reuse a
file that is already there, and a transaction then writes the rows. A repair that replaced an
archive calls `_remove_unreferenced_blob`, which counts the artifacts of the old one, deletes
its row, commits, and unlinks the file.

`Storage` is the tables with the files, `BlobWork` the sessions at work on it. A transaction
reads what is committed at each of its statements; what it writes waits for the rows and keys
of the others and takes effect when it commits, unless a constraint refuses it. A session may
end at any statement. `blobs_kept`: the blob of every artifact has its row and its file in a
run that unlinks no file that an artifact, or a session that has stored its archive, relies on.
-/

namespace MangaManager

open Lib

/-- A file of the blobs, and the checksum of what it holds. -/
structure ArchiveFile where
  path : String
  checksum : String
  deriving DecidableEq

/-- The place of a blob. -/
def blobPath (checksum : String) : String :=
  "blobs/" ++ truncate 2 checksum ++ "/" ++ checksum ++ ".cbz"

/-- A blob in its place. -/
def StoredBlob.placed (b : StoredBlob) : StoredBlob :=
  { b with relativePath := blobPath b.checksum }

/-- A column that changed is written, another one stays what it is by then. -/
def writeColumn {α : Type} [DecidableEq α] (read new current : α) : α :=
  if new = read then current else new

/-- What a transaction has read. -/
structure Reads where
  known : Bool := false
  artifact : Option ChapterArtifact := none
  projection : Option LibraryProjection := none
  deriving DecidableEq

/-! ## The writes of a transaction -/

namespace Catalog

variable (c : Catalog)

def insertBlob (b : StoredBlob) : Catalog :=
  { c with blobs := c.blobs ++ [⟨b.checksum, b.relativePath, b.byteCount⟩] }

def updateArtifact (id : Nat) (write : ChapterArtifact → ChapterArtifact) : Catalog :=
  { c with artifacts := c.artifacts.map fun row => if row.id = id then write row else row }

def updateProjection (chapterId : Nat) (write : LibraryProjection → LibraryProjection) : Catalog :=
  { c with
    projections := c.projections.map fun p => if p.chapterId = chapterId then write p else p }

/-- The blob, unless the transaction has seen its row. -/
def storeBlob (known : Bool) (b : StoredBlob) : Catalog := if known then c else c.insertBlob b

/-- `_upsert_projection`. -/
def writeProjection (read : Option LibraryProjection) (chapterId artifactId : Nat) (path : String)
    (now : Time) : Catalog :=
  match read with
  | none => { c with projections := c.projections ++ [⟨chapterId, artifactId, path, now⟩] }
  | some _ => c.updateProjection chapterId fun p =>
      { p with artifactId := artifactId, relativePath := path, updatedAt := now }

/-- The active artifact that was stored again, in the columns that change. -/
def refreshRow (a : ActivateArgs) (read row : ChapterArtifact) : ChapterArtifact :=
  let new := refreshed a read
  { row with
    chapterReleaseId := writeColumn read.chapterReleaseId new.chapterReleaseId row.chapterReleaseId
    source := writeColumn read.source new.source row.source
    qualityRank := writeColumn read.qualityRank new.qualityRank row.qualityRank }

/-- A new active artifact, and its projection. -/
def writeNew (a : ActivateArgs) (read : Option LibraryProjection) (now : Time) : Catalog :=
  (c.addArtifact a .active).writeProjection read a.chapterId c.nextArtifact a.projectionRelativePath
    now

/-- The writes of `activate`. -/
def writeActivation (a : ActivateArgs) (r : Reads) (now : Time) : Catalog :=
  let c := c.storeBlob r.known a.blob
  match r.artifact with
  | none => c.writeNew a r.projection now
  | some active =>
    if active.blobChecksum = a.blob.checksum then
      (c.updateArtifact active.id (refreshRow a active)).writeProjection r.projection a.chapterId
        active.id a.projectionRelativePath now
    else if a.replace = false then c.addArtifact a .quarantined
    else (c.updateArtifact active.id (deactivated now)).writeNew a r.projection now

/-- The projection of a chapter after the repair of an artifact. -/
def writeRepaired (read : Option LibraryProjection) (row : RepairChapter) (target : String)
    (now : Time) : Catalog :=
  match read with
  | none =>
    { c with projections := c.projections ++ [⟨row.chapterId, row.artifactId, target, now⟩] }
  | some _ => c.updateProjection row.chapterId fun p =>
      { p with artifactId := row.artifactId, relativePath := target }

/-- The archive of a repair, in the columns of its artifact. -/
def rewriteRow (row : RepairChapter) (blob : StoredBlob) (x : ChapterArtifact) : ChapterArtifact :=
  { x with
    blobChecksum := writeColumn row.blobChecksum blob.checksum x.blobChecksum
    provenance := "metadata_repair" }

def deleteBlob (checksum : String) : Catalog :=
  { c with blobs := c.blobs.filter (·.checksum != checksum) }

end Catalog

namespace ArtifactStore

variable (s : ArtifactStore)

/-- The writes of the transaction of `_repair_one`, which read the artifact with the archive of
`row`. -/
def writeRepair (row : RepairChapter) (r : RewrittenArchive) (reads : Reads) (now : Time) :
    ArtifactStore :=
  { catalog := ((s.catalog.storeBlob reads.known r.blob).updateArtifact row.artifactId
      (Catalog.rewriteRow row r.blob)).writeRepaired reads.projection row r.targetProjection now
    rewrites := if r.blob.checksum = row.blobChecksum then s.rewrites
      else s.rewrites ++ [⟨row.chapterId, row.blobChecksum, r.blob.checksum, r.oldXml, r.newXml,
        r.reason⟩] }

/-- The constraints that only concurrent transactions violate. -/
def keyConstraints : List (String × Bool) :=
  let c := s.catalog
  [("artifact_blob_pkey", decide (c.blobs.map (·.checksum)).Nodup),
    ("chapter_artifact_blob_checksum_fkey",
      c.artifacts.all fun a => c.blobs.any (·.checksum == a.blobChecksum)),
    ("uq_chapter_artifact_active",
      decide ((c.artifacts.filter (·.state == .active)).map (·.chapterId)).Nodup),
    ("library_projection_pkey", decide (c.projections.map (·.chapterId)).Nodup)]

/-- No constraint refuses the tables. -/
def accepted : Bool := (s.constraints ++ s.keyConstraints).all (·.2)

end ArtifactStore

/-! ## Sessions -/

/-- The tables, and the files of the blobs. -/
structure Storage where
  tables : ArtifactStore := {}
  files : List ArchiveFile := []
  deriving DecidableEq

namespace Storage

variable (s : Storage)

def file? (path : String) : Option ArchiveFile := s.files.find? (·.path == path)

/-- `os.replace` of an archive. -/
def place (checksum : String) : Storage :=
  { s with
    files := s.files.filter (·.path != blobPath checksum) ++ [⟨blobPath checksum, checksum⟩] }

def unlink (path : String) : Storage := { s with files := s.files.filter (·.path != path) }

end Storage

/-- What the transaction after a store writes. -/
inductive Deposit where
  | activation (a : ActivateArgs)
  | repair (row : RepairChapter) (r : RewrittenArchive)

inductive Statement where
  | blob
  | artifact
  | projection
  deriving DecidableEq

/-- Where a session is. -/
inductive Phase where
  | storing (d : Deposit)
  | reusing (d : Deposit)
  | placing (d : Deposit)
  | transaction (d : Deposit) (todo : List Statement) (r : Reads)
  | counting (checksum relativePath : String)
  | deleting (checksum relativePath : String)
  | committing (checksum relativePath : String) (hit : Bool)
  | unlinking (checksum relativePath : String)

namespace Deposit

variable (d : Deposit)

def blob : Deposit → StoredBlob
  | activation a => a.blob
  | repair _ r => r.blob

def chapterId : Deposit → Nat
  | activation a => a.chapterId
  | repair row _ => row.chapterId

/-- The deposit with what the store returns. -/
def stored : Deposit → Deposit
  | activation a => .activation { a with blob := a.blob.placed }
  | repair row r => .repair row { r with blob := r.blob.placed }

/-- The reads of the transaction, in their order. -/
def reads : Deposit → List Statement
  | activation _ => [.blob, .artifact, .projection]
  | repair .. => [.artifact, .projection, .blob]

def read (c : Catalog) (r : Reads) : Statement → Reads
  | .blob => { r with known := c.blobs.any (·.checksum == d.blob.checksum) }
  | .artifact => { r with
      artifact := match d with
        | activation a => c.activeArtifact a.chapterId
        | repair row _ => Table.get ChapterArtifact.id c.artifacts row.artifactId }
  | .projection => { r with
      projection := Table.get LibraryProjection.chapterId c.projections d.chapterId }

/-- The writes of the transaction; none, when a repair finds another archive. -/
def write (r : Reads) (now : Time) (t : ArtifactStore) : Option ArtifactStore :=
  match d with
  | activation a => some { t with catalog := t.catalog.writeActivation a r now }
  | repair row rewritten =>
    match r.artifact with
    | none => none
    | some artifact =>
      if artifact.blobChecksum ≠ row.blobChecksum then none
      else some (t.writeRepair row rewritten r now)

/-- What is left to do after the transaction. -/
def after : Deposit → Option Phase
  | activation _ => none
  | repair row _ => some (.counting row.blobChecksum row.blobPath)

end Deposit

namespace Phase

/-- The next statement of a session, and where it is then; it may have ended. -/
def step (s : Storage) (now : Time) : Phase → Storage × Option Phase
  | storing d =>
    (s, some (if (s.file? (blobPath d.blob.checksum)).isSome then .reusing d else .placing d))
  | reusing d =>
    if (s.file? (blobPath d.blob.checksum)).any (·.checksum == d.blob.checksum) then
      (s, some (.transaction d.stored d.reads {}))
    else (s, none)
  | placing d => (s.place d.blob.checksum, some (.transaction d.stored d.reads {}))
  | transaction d (q :: todo) r => (s, some (.transaction d todo (d.read s.tables.catalog r q)))
  | transaction d [] r =>
    match (d.write r now s.tables).filter (·.accepted) with
    | none => (s, none)
    | some t => ({ s with tables := t }, d.after)
  | counting checksum path =>
    (s, if s.tables.catalog.artifacts.any (·.blobChecksum == checksum) then none
      else some (.deleting checksum path))
  | deleting checksum path =>
    (s, some (.committing checksum path (s.tables.catalog.blobs.any (·.checksum == checksum))))
  | committing checksum path false => (s, some (.unlinking checksum path))
  | committing checksum path true =>
    let t := { s.tables with catalog := s.tables.catalog.deleteBlob checksum }
    if t.accepted then ({ s with tables := t }, some (.unlinking checksum path)) else (s, none)
  | unlinking _ path => (s.unlink path, none)

/-- The checksum of the archive that a session has stored for its transaction. -/
def holds : Phase → Option String
  | transaction d _ _ => some d.blob.checksum
  | _ => none

end Phase

structure BlobSession where
  id : Nat
  phase : Phase

/-- The storage, and the sessions at work on it. -/
structure BlobWork where
  storage : Storage := {}
  sessions : List BlobSession := []

inductive BlobMove where
  | call (id : Nat) (phase : Phase)
  | advance (id : Nat) (now : Time)
  | stop (id : Nat)

namespace BlobWork

variable (w : BlobWork)

def session? (id : Nat) : Option BlobSession := Table.get BlobSession.id w.sessions id

/-- The session goes on, or has ended. -/
def resume (id : Nat) (phase : Option Phase) : List BlobSession :=
  w.sessions.filter (·.id != id) ++ (phase.map (BlobSession.mk id)).toList

def step : BlobMove → Option BlobWork
  | .call id phase =>
    if (w.session? id).isSome then none else some { w with sessions := w.resume id (some phase) }
  | .advance id now => (w.session? id).map fun x =>
      let next := x.phase.step w.storage now
      { storage := next.1, sessions := w.resume id next.2 }
  | .stop id => some { w with sessions := w.resume id none }

/-- What is called: a store for an activation, the repair of a row that `_snapshot` read, the
removal of a blob. -/
def Called : BlobMove → Prop
  | .call _ (.storing (.activation _)) => True
  | .call _ (.storing (.repair row _)) =>
    ∃ c ∈ w.storage.tables.catalog.chapters,
      row ∈ w.storage.tables.catalog.repairChapters c.seriesId
  | .call _ (.counting checksum path) =>
    ∃ b ∈ w.storage.tables.catalog.blobs, b.checksum = checksum ∧ b.relativePath = path
  | .call .. => False
  | _ => True

instance : (m : BlobMove) → Decidable (w.Called m)
  | .call _ (.storing (.activation _)) => inferInstanceAs (Decidable True)
  | .call _ (.storing (.repair row _)) => inferInstanceAs (Decidable (∃ c ∈ _, row ∈ _))
  | .call _ (.counting _ _) => inferInstanceAs (Decidable (∃ b ∈ _, _ ∧ _))
  | .call _ (.reusing _) | .call _ (.placing _) | .call _ (.transaction ..)
  | .call _ (.deleting ..) | .call _ (.committing ..) | .call _ (.unlinking ..) =>
    inferInstanceAs (Decidable False)
  | .advance .. | .stop _ => inferInstanceAs (Decidable True)

/-- Every artifact has the row and the file of its blob. -/
def BlobsThere : Prop := ∀ a ∈ w.storage.tables.catalog.artifacts,
  ∃ b ∈ w.storage.tables.catalog.blobs, b.checksum = a.blobChecksum ∧
    ∃ f ∈ w.storage.files, f.path = b.relativePath

instance : Decidable w.BlobsThere :=
  inferInstanceAs (Decidable (∀ a ∈ _, ∃ b ∈ _, _ ∧ ∃ f ∈ w.storage.files, f.path = _))

/-- A file is unlinked that no artifact has, and no session that has stored its archive. -/
def unlinksUnused : BlobMove → Bool
  | .advance id _ => (w.session? id).all fun x => match x.phase with
    | .unlinking checksum _ =>
      w.storage.tables.catalog.artifacts.all (·.blobChecksum != checksum) &&
        w.sessions.all fun y => y.phase.holds != some checksum
    | _ => true
  | _ => true

end BlobWork

/-- The moves of sessions. -/
def BlobStep (w : BlobWork) (m : BlobMove) (w' : BlobWork) : Prop := w.Called m ∧ w.step m = some w'

/-- Nothing is under way, and every blob is in its place. -/
structure BlobWork.Idle (w : BlobWork) : Prop where
  sessions : w.sessions = []
  placed : ∀ b ∈ w.storage.tables.catalog.blobs, b.relativePath = blobPath b.checksum
  there : w.BlobsThere

/-! ## One session alone -/

section
variable {c : Catalog} {a : ActivateArgs} {s : ArtifactStore} {row : RepairChapter}
  {r : RewrittenArchive} {now : Time} {x : ChapterArtifact}

@[simp] theorem writeColumn_self {α : Type} [DecidableEq α] (read new : α) :
    writeColumn read new read = new := by
  unfold writeColumn
  split
  · rename_i h
    exact h.symm
  · rfl

/-- What a transaction reads when no other one commits meanwhile. -/
def Deposit.readAll (d : Deposit) (c : Catalog) : Reads := d.reads.foldl (d.read c) {}

namespace Catalog

theorem updateArtifact_put (hk : Table.Keyed ChapterArtifact.id c.artifacts)
    (hx : x ∈ c.artifacts) (write : ChapterArtifact → ChapterArtifact) (hid : (write x).id = x.id) :
    c.updateArtifact x.id write = c.putArtifact (write x) := by
  unfold updateArtifact putArtifact Table.put
  congr 1
  refine List.map_congr_left fun y hy => ?_
  rw [hid]
  split
  · rename_i he
    rw [hk.eq hy hx he]
  · rfl

theorem storeBlob_known (c : Catalog) (a : ActivateArgs) :
    c.storeBlob (c.blobs.any (·.checksum == a.blob.checksum)) a.blob = c.addBlob a := rfl

theorem writeProjection_read (c : Catalog) (chapterId artifactId : Nat) (path : String)
    (now : Time) :
    c.writeProjection (Table.get LibraryProjection.chapterId c.projections chapterId) chapterId
      artifactId path now = c.upsertProjection now chapterId artifactId path := by
  unfold writeProjection upsertProjection
  cases hg : Table.get LibraryProjection.chapterId c.projections chapterId with
  | none =>
    have hno : c.projections.any (·.chapterId == chapterId) = false := by
      simpa using Table.get_eq_none.mp hg
    simp only [hno, Bool.false_eq_true, if_false]
  | some p =>
    have hany : c.projections.any (·.chapterId == chapterId) = true :=
      List.any_eq_true.mpr ⟨p, Table.get_mem hg, beq_iff_eq.mpr (Table.get_key hg)⟩
    simp only [hany, if_true, updateProjection, Table.put]
    congr 1
    refine List.map_congr_left fun q _ => ?_
    split
    · rename_i hq
      rw [← hq]
    · rfl

theorem writeNew_read (c : Catalog) (a : ActivateArgs) (now : Time) :
    c.writeNew a (Table.get LibraryProjection.chapterId c.projections a.chapterId) now =
      (c.activateNew a now).1 := writeProjection_read (c.addArtifact a .active) _ _ _ _

/-- An activation alone. -/
theorem writeActivation_alone (h : c.StoreOk) (a : ActivateArgs) (now : Time) :
    c.writeActivation a ((Deposit.activation a).readAll c) now = (c.activate a now).1 := by
  obtain ⟨ha, hp, -⟩ := c.addBlob_same a
  have hact : (c.addBlob a).activeArtifact a.chapterId = c.activeArtifact a.chapterId := by
    unfold activeArtifact
    rw [ha]
  unfold writeActivation activate
  simp only [Deposit.readAll, Deposit.reads, Deposit.read, Deposit.blob, Deposit.chapterId,
    List.foldl_cons, List.foldl_nil, storeBlob_known, hact]
  rw [← hp]
  cases ho : c.activeArtifact a.chapterId with
  | none => exact writeNew_read _ a now
  | some active =>
    obtain ⟨hm, -, -⟩ := activeArtifact_some ho
    have hput := updateArtifact_put (ha ▸ h.artifacts.keyed) (ha ▸ hm)
    dsimp only
    split
    · rw [hput _ rfl]
      have hrow : refreshRow a active active = refreshed a active := by
        simp only [refreshRow, writeColumn_self, refreshed]
      rw [hrow]
      exact writeProjection_read ((c.addBlob a).putArtifact (refreshed a active)) _ _ _ _
    · split
      · rfl
      · rw [hput _ rfl]
        exact writeNew_read ((c.addBlob a).putArtifact (deactivated now active)) a now

theorem writeRepaired_read (hk : Table.Keyed LibraryProjection.chapterId c.projections)
    (row : RepairChapter) (target : String) (now : Time) :
    c.writeRepaired (Table.get LibraryProjection.chapterId c.projections row.chapterId) row target
      now = c.projectRepaired row target now := by
  unfold writeRepaired projectRepaired
  cases hg : Table.get LibraryProjection.chapterId c.projections row.chapterId with
  | none => rfl
  | some p =>
    simp only [updateProjection, Table.put]
    congr 1
    refine List.map_congr_left fun q hq => ?_
    rw [Table.get_key hg]
    split
    · rename_i he
      rw [hk.eq hq (Table.get_mem hg) (he.trans (Table.get_key hg).symm), Table.get_key hg]
    · rfl

end Catalog

/-- The transaction of a repair alone. -/
theorem ArtifactStore.writeRepair_alone (h : s.catalog.StoreOk)
    (hx : Table.get ChapterArtifact.id s.catalog.artifacts row.artifactId = some x)
    (hsum : x.blobChecksum = row.blobChecksum) (now : Time) :
    s.repairOne row r now =
      (s.writeRepair row r ((Deposit.repair row r).readAll s.catalog) now).commit := by
  obtain ⟨ha, hp, -⟩ := s.catalog.addBlob_same (r.stored row)
  have hid := Table.get_key hx
  have hput := Catalog.updateArtifact_put (x := x) (ha ▸ h.artifacts.keyed)
    (ha ▸ Table.get_mem hx) (Catalog.rewriteRow row r.blob) rfl
  have hrow : Catalog.rewriteRow row r.blob x = x.rewritten r := by
    simp only [Catalog.rewriteRow, ChapterArtifact.rewritten, ← hsum, writeColumn_self]
  have hwrite : ((s.catalog.storeBlob (s.catalog.blobs.any (·.checksum == r.blob.checksum))
      r.blob).updateArtifact row.artifactId (Catalog.rewriteRow row r.blob)).writeRepaired
        (Table.get LibraryProjection.chapterId s.catalog.projections row.chapterId) row
        r.targetProjection now =
      ((s.catalog.addBlob (r.stored row)).putArtifact (x.rewritten r)).projectRepaired row
        r.targetProjection now := by
    rw [← hid, ← hrow, ← hput, ← hp]
    exact Catalog.writeRepaired_read (c := (s.catalog.addBlob (r.stored row)).updateArtifact x.id
      (Catalog.rewriteRow row r.blob)) (hp ▸ h.projections) row _ now
  unfold repairOne writeRepair
  simp only [hx, hsum, ne_eq, not_true_eq_false, if_false, Deposit.readAll, Deposit.reads,
    Deposit.read, Deposit.blob, Deposit.chapterId, List.foldl_cons, List.foldl_nil, hwrite]

end

/-! ## What a statement changes -/

section
variable {b : StoredBlob} {c c' c'' : Catalog} {a : ActivateArgs} {r : Reads} {now : Time}
  {t t' : ArtifactStore} {d : Deposit} {s s' : Storage} {p q : Phase}

namespace Catalog

/-- The artifacts and the blobs are those of before, and those of one blob. -/
structure Stores (b : StoredBlob) (c c' : Catalog) : Prop where
  artifacts : ∀ x ∈ c'.artifacts, x.blobChecksum = b.checksum ∨
    ∃ y ∈ c.artifacts, y.blobChecksum = x.blobChecksum
  blobs : ∀ x ∈ c'.blobs, x ∈ c.blobs ∨ x.checksum = b.checksum ∧ x.relativePath = b.relativePath

theorem Stores.of_eq (ha : c'.artifacts = c.artifacts) (hb : c'.blobs = c.blobs) : Stores b c c' :=
  ⟨fun x hx => .inr ⟨x, ha ▸ hx, rfl⟩, fun _ hx => .inl (hb ▸ hx)⟩

theorem Stores.trans (h : Stores b c c') (h' : Stores b c' c'') : Stores b c c'' := by
  refine ⟨fun x hx => ?_, fun x hx => ?_⟩
  · rcases h'.artifacts x hx with he | ⟨y, hy, he⟩
    · exact .inl he
    · rw [← he]
      exact h.artifacts y hy
  · exact (h'.blobs x hx).elim (h.blobs x) .inr

theorem stores_storeBlob (c : Catalog) (known : Bool) (b : StoredBlob) :
    Stores b c (c.storeBlob known b) := by
  unfold storeBlob
  split
  · exact .of_eq rfl rfl
  · refine ⟨fun x hx => .inr ⟨x, hx, rfl⟩, fun x hx => ?_⟩
    rcases List.mem_append.mp hx with hx | hx
    · exact .inl hx
    · obtain rfl := List.mem_singleton.mp hx
      exact .inr ⟨rfl, rfl⟩

theorem stores_update (id : Nat) (write : ChapterArtifact → ChapterArtifact)
    (h : ∀ x, (write x).blobChecksum = b.checksum ∨ (write x).blobChecksum = x.blobChecksum) :
    Stores b c (c.updateArtifact id write) := by
  refine ⟨fun x hx => ?_, fun x hx => .inl hx⟩
  obtain ⟨y, hy, rfl⟩ := List.mem_map.mp hx
  split
  · exact (h y).imp_right fun he => ⟨y, hy, he.symm⟩
  · exact .inr ⟨y, hy, rfl⟩

theorem stores_add (c : Catalog) (a : ActivateArgs) (state : ArtifactState) :
    Stores a.blob c (c.addArtifact a state) := by
  refine ⟨fun x hx => ?_, fun x hx => .inl hx⟩
  rcases List.mem_append.mp hx with hx | hx
  · exact .inr ⟨x, hx, rfl⟩
  · obtain rfl := List.mem_singleton.mp hx
    exact .inl rfl

theorem stores_projection {read : Option LibraryProjection} {chapterId artifactId : Nat}
    {path : String} : Stores b c (c.writeProjection read chapterId artifactId path now) := by
  cases read <;> exact .of_eq rfl rfl

theorem stores_repaired {read : Option LibraryProjection} {row : RepairChapter} {target : String} :
    Stores b c (c.writeRepaired read row target now) := by
  cases read <;> exact .of_eq rfl rfl

theorem stores_activation : Stores a.blob c (c.writeActivation a r now) := by
  have hblob := stores_storeBlob c r.known a.blob
  unfold writeActivation writeNew
  dsimp only
  split
  · exact hblob.trans ((stores_add _ a .active).trans stores_projection)
  · split
    · exact hblob.trans ((stores_update _ (refreshRow a _) fun _ => .inr rfl).trans
        stores_projection)
    · split
      · exact hblob.trans (stores_add _ a .quarantined)
      · exact hblob.trans ((stores_update _ (deactivated now) fun _ => .inr rfl).trans
          ((stores_add _ a .active).trans stores_projection))

end Catalog

theorem ArtifactStore.stores_repair {row : RepairChapter} {w : RewrittenArchive} :
    Catalog.Stores w.blob t.catalog (t.writeRepair row w r now).catalog := by
  refine (Catalog.stores_storeBlob t.catalog r.known w.blob).trans ?_
  refine Catalog.Stores.trans (Catalog.stores_update _ _ fun x => ?_) Catalog.stores_repaired
  unfold Catalog.rewriteRow writeColumn
  dsimp only
  split
  · exact .inr rfl
  · exact .inl rfl

theorem Deposit.write_stores (h : d.write r now t = some t') :
    Catalog.Stores d.blob t.catalog t'.catalog := by
  cases d with
  | activation a =>
    obtain rfl := Option.some.inj h
    exact Catalog.stores_activation
  | repair row w =>
    unfold write at h
    dsimp only at h
    split at h
    · cases h
    · split at h
      · cases h
      · obtain rfl := Option.some.inj h
        exact ArtifactStore.stores_repair

theorem ArtifactStore.accepted_rows (h : t.accepted = true) : ∀ x ∈ t.catalog.artifacts,
    ∃ y ∈ t.catalog.blobs, y.checksum = x.blobChecksum := by
  unfold accepted keyConstraints at h
  simp only [List.all_append, List.all_cons, Bool.and_eq_true] at h
  intro x hx
  obtain ⟨y, hy, he⟩ := List.any_eq_true.mp (List.all_eq_true.mp h.2.2.1 x hx)
  exact ⟨y, hy, beq_iff_eq.mp he⟩

/-- The checksum and the path of a repair's old archive. -/
def Deposit.old : Deposit → List (String × String)
  | activation _ => []
  | repair row _ => [(row.blobChecksum, row.blobPath)]

/-- The checksums of a session that come with a path. -/
def Phase.paths : Phase → List (String × String)
  | storing d | reusing d | placing d => d.old
  | transaction d _ _ => (d.blob.checksum, d.blob.relativePath) :: d.old
  | counting checksum path | deleting checksum path | committing checksum path _
  | unlinking checksum path => [(checksum, path)]

/-- There is a file in the place of the blob. -/
def Storage.HasFile (s : Storage) (checksum : String) : Prop :=
  ∃ f ∈ s.files, f.path = blobPath checksum

/-- What one statement changes. -/
structure Phase.Moves (s : Storage) (p : Phase) (s' : Storage) (p' : Option Phase) : Prop where
  artifacts : ∀ x ∈ s'.tables.catalog.artifacts, p.holds = some x.blobChecksum ∨
    ∃ y ∈ s.tables.catalog.artifacts, y.blobChecksum = x.blobChecksum
  blobs : ∀ x ∈ s'.tables.catalog.blobs, x ∈ s.tables.catalog.blobs ∨
    (x.checksum, x.relativePath) ∈ p.paths
  rows : s'.tables = s.tables ∨ s'.tables.accepted = true
  files : ∀ f ∈ s.files, (∃ f' ∈ s'.files, f'.path = f.path) ∨
    ∃ checksum path, p = .unlinking checksum path ∧ f.path = path
  paths : ∀ q ∈ p', ∀ x ∈ q.paths, x ∈ p.paths ∨ x.2 = blobPath x.1
  holds : ∀ q ∈ p', ∀ checksum, q.holds = some checksum → p.holds = some checksum ∨
    s'.HasFile checksum

/-- A statement that writes nothing. -/
theorem Phase.Moves.still {p' : Option Phase}
    (hpaths : ∀ q ∈ p', ∀ x ∈ q.paths, x ∈ p.paths ∨ x.2 = blobPath x.1)
    (hholds : ∀ q ∈ p', ∀ checksum, q.holds = some checksum → p.holds = some checksum ∨
      s.HasFile checksum) : Moves s p s p' :=
  ⟨fun x hx => .inr ⟨x, hx, rfl⟩, fun _ hx => .inl hx, .inl rfl, fun f hf => .inl ⟨f, hf, rfl⟩,
    hpaths, hholds⟩

theorem Phase.Moves.ended : Moves s p s none :=
  .still (fun _ h => (by cases h)) fun _ h => (by cases h)

/-- A statement that writes nothing, after which the session has what it had. -/
theorem Phase.Moves.same (hpaths : q.paths ⊆ p.paths)
    (hholds : q.holds = none ∨ q.holds = p.holds) : Moves s p s (some q) := by
  refine .still (fun q' hq x hx => ?_) fun q' hq checksum hc => ?_ <;>
    obtain rfl := Option.some.inj hq
  · exact .inl (hpaths hx)
  · refine .inl ?_
    rcases hholds with he | he
    · rw [he] at hc
      cases hc
    · exact he ▸ hc

@[simp] theorem Deposit.stored_checksum : d.stored.blob.checksum = d.blob.checksum := by
  cases d <;> rfl

@[simp] theorem Deposit.stored_path : d.stored.blob.relativePath = blobPath d.blob.checksum := by
  cases d <;> rfl

@[simp] theorem Deposit.stored_old : d.stored.old = d.old := by
  cases d <;> rfl

/-- The archive is in its place. -/
theorem Phase.Moves.stored (hpaths : p.paths = d.old) (ht : s'.tables = s.tables)
    (hfile : s'.HasFile d.blob.checksum)
    (hfiles : ∀ f ∈ s.files, ∃ f' ∈ s'.files, f'.path = f.path) :
    Moves s p s' (some (.transaction d.stored d.reads {})) where
  artifacts x hx := .inr ⟨x, ht ▸ hx, rfl⟩
  blobs x hx := .inl (ht ▸ hx)
  rows := .inl ht
  files f hf := .inl (hfiles f hf)
  paths q hq x hx := by
    obtain rfl := Option.some.inj hq
    rcases List.mem_cons.mp hx with rfl | hx
    · exact .inr (by rw [Deposit.stored_path, Deposit.stored_checksum])
    · exact .inl (by rwa [hpaths, ← Deposit.stored_old])
  holds q hq checksum hc := by
    obtain rfl := Option.some.inj hq
    obtain rfl := Option.some.inj hc
    rw [Deposit.stored_checksum]
    exact .inr hfile

theorem Storage.place_files (s : Storage) (checksum : String) :
    (s.place checksum).HasFile checksum ∧
      ∀ f ∈ s.files, ∃ f' ∈ (s.place checksum).files, f'.path = f.path := by
  have hnew : (⟨blobPath checksum, checksum⟩ : ArchiveFile) ∈ (s.place checksum).files :=
    List.mem_append_right _ (List.mem_singleton_self _)
  refine ⟨⟨_, hnew, rfl⟩, fun f hf => ?_⟩
  by_cases he : f.path = blobPath checksum
  · exact ⟨_, hnew, he.symm⟩
  · exact ⟨f, List.mem_append_left _ (List.mem_filter.mpr ⟨hf, by simpa using he⟩), rfl⟩

theorem Phase.step_moves (s : Storage) (p : Phase) (now : Time) :
    Moves s p (p.step s now).1 (p.step s now).2 := by
  cases p with
  | storing d =>
    dsimp only [step]
    split
    · exact .same (fun _ h => h) (.inl rfl)
    · exact .same (fun _ h => h) (.inl rfl)
  | reusing d =>
    dsimp only [step]
    split
    · rename_i hfile
      obtain ⟨f, hf, -⟩ := (Option.any_eq_true _ _).mp hfile
      exact .stored rfl rfl ⟨f, List.mem_of_find?_eq_some hf, by simpa using List.find?_some hf⟩
        fun f hf => ⟨f, hf, rfl⟩
    · exact .ended
  | placing d =>
    obtain ⟨hfile, hfiles⟩ := s.place_files d.blob.checksum
    exact .stored rfl rfl hfile hfiles
  | transaction d todo r =>
    cases todo with
    | cons q todo => exact .same (fun _ h => h) (.inr rfl)
    | nil =>
      dsimp only [step]
      split
      · exact .ended
      · rename_i t ht
        obtain ⟨hw, hacc⟩ := Option.filter_eq_some_iff.mp ht
        have hstores := Deposit.write_stores hw
        refine ⟨fun x hx => ?_, fun x hx => ?_, .inr hacc, fun f hf => .inl ⟨f, hf, rfl⟩, ?_, ?_⟩
        · exact (hstores.artifacts x hx).imp (fun he => congrArg some he.symm) id
        · refine (hstores.blobs x hx).imp id ?_
          rintro ⟨hc, hp⟩
          rw [hc, hp]
          exact List.mem_cons_self
        · intro q hq x hx
          cases d with
          | activation a => cases hq
          | repair row w =>
            obtain rfl := Option.some.inj hq
            exact .inl (List.mem_cons_of_mem _ hx)
        · intro q hq checksum hc
          cases d with
          | activation a => cases hq
          | repair row w =>
            obtain rfl := Option.some.inj hq
            cases hc
  | counting checksum path =>
    dsimp only [step]
    split
    · exact .ended
    · exact .same (fun _ h => h) (.inl rfl)
  | deleting checksum path => exact .same (fun _ h => h) (.inl rfl)
  | committing checksum path hit =>
    cases hit with
    | false => exact .same (fun _ h => h) (.inl rfl)
    | true =>
      dsimp only [step]
      split
      · rename_i hacc
        refine ⟨fun x hx => .inr ⟨x, hx, rfl⟩, fun x hx => .inl (List.mem_filter.mp hx).1,
          .inr hacc, fun f hf => .inl ⟨f, hf, rfl⟩, fun q hq x hx => ?_,
          fun q hq checksum hc => ?_⟩ <;>
          obtain rfl := Option.some.inj hq
        · exact .inl hx
        · cases hc
      · exact .ended
  | unlinking checksum path =>
    refine ⟨fun x hx => .inr ⟨x, hx, rfl⟩, fun x hx => .inl hx, .inl rfl, fun f hf => ?_,
      fun q hq => (by cases hq), fun q hq => (by cases hq)⟩
    by_cases he : f.path = path
    · exact .inr ⟨checksum, path, rfl, he⟩
    · exact .inl ⟨f, List.mem_filter.mpr ⟨hf, by simpa using he⟩, rfl⟩

end

/-! ## Runs -/

/-- The rows of the blobs are there, in their places, and the sessions name them so. -/
structure BlobWork.Ok (w : BlobWork) : Prop where
  rows : ∀ x ∈ w.storage.tables.catalog.artifacts,
    ∃ b ∈ w.storage.tables.catalog.blobs, b.checksum = x.blobChecksum
  placed : ∀ b ∈ w.storage.tables.catalog.blobs, b.relativePath = blobPath b.checksum
  named : ∀ x ∈ w.sessions, ∀ y ∈ x.phase.paths, y.2 = blobPath y.1

/-- The artifacts have their files, and so have the sessions that stored one. -/
structure BlobWork.Kept (w : BlobWork) : Prop extends BlobWork.Ok w where
  files : ∀ x ∈ w.storage.tables.catalog.artifacts, w.storage.HasFile x.blobChecksum
  held : ∀ x ∈ w.sessions, ∀ checksum, x.phase.holds = some checksum → w.storage.HasFile checksum

section
variable {w w' : BlobWork} {m : BlobMove} {id : Nat} {x : BlobSession} {q : Option Phase}

theorem blobPath_inj {c c' : String} (h : blobPath c = blobPath c') : c = c' := by
  have hl := congrArg String.toList h
  simp only [blobPath, truncate, String.toList_append, String.toList_ofList, List.append_assoc,
    List.append_right_inj] at hl
  have hlen := congrArg List.length hl
  simp only [List.length_append, List.length_take] at hlen
  have he : (c.toList.take 2).length = (c'.toList.take 2).length := by
    simp only [List.length_take]
    omega
  have htail := List.append_inj_right hl he
  simp only [List.append_right_inj, List.append_left_inj] at htail
  exact String.toList_injective htail

theorem mem_resume : x ∈ w.resume id q ↔
    (x ∈ w.sessions ∧ x.id ≠ id) ∨ ∃ p, q = some p ∧ x = ⟨id, p⟩ := by
  unfold BlobWork.resume
  rw [List.mem_append, List.mem_filter, Option.mem_toList, Option.map_eq_some_iff]
  refine or_congr (and_congr_right fun _ => bne_iff_ne) ?_
  exact exists_congr fun p => and_congr_right fun _ => eq_comm

/-- A row that a repair reads is of a blob. -/
theorem Catalog.repairChapters_blob {c : Catalog} {seriesId : Nat} {row : RepairChapter}
    (h : row ∈ c.repairChapters seriesId) :
    ∃ b ∈ c.blobs, b.checksum = row.blobChecksum ∧ b.relativePath = row.blobPath := by
  simp only [repairChapters, List.mem_flatMap, List.mem_map, List.mem_filter] at h
  obtain ⟨chapter, -, x, -, b, ⟨hb, -⟩, rfl⟩ := h
  exact ⟨b, hb, rfl, rfl⟩

/-- The paths of a call are those of blobs. -/
theorem BlobWork.Ok.called (h : w.Ok) {p : Phase} (hc : w.Called (.call id p)) :
    (∀ y ∈ p.paths, y.2 = blobPath y.1) ∧ p.holds = none := by
  cases p with
  | storing d =>
    cases d with
    | activation a => exact ⟨fun y hy => (by cases hy), rfl⟩
    | repair row r =>
      obtain ⟨c, -, hrow⟩ := hc
      obtain ⟨b, hb, he, hp⟩ := Catalog.repairChapters_blob hrow
      refine ⟨fun y hy => ?_, rfl⟩
      obtain rfl := List.mem_singleton.mp hy
      rw [← he, ← hp]
      exact h.placed b hb
  | counting checksum path =>
    obtain ⟨b, hb, rfl, rfl⟩ := hc
    refine ⟨fun y hy => ?_, rfl⟩
    obtain rfl := List.mem_singleton.mp hy
    exact h.placed b hb
  | reusing | placing | transaction | deleting | committing | unlinking => exact hc.elim

/-- Sessions that come to an end, or start. -/
theorem BlobWork.Ok.resume (h : w.Ok) (hq : ∀ p ∈ q, ∀ y ∈ p.paths, y.2 = blobPath y.1) :
    ({ w with sessions := w.resume id q } : BlobWork).Ok := by
  refine ⟨h.rows, h.placed, fun x hx => ?_⟩
  rcases mem_resume.mp hx with ⟨hx, -⟩ | ⟨p, hp, rfl⟩
  · exact h.named x hx
  · exact hq p hp

theorem BlobWork.Kept.resume (h : w.Kept) (hq : ∀ p ∈ q, ∀ y ∈ p.paths, y.2 = blobPath y.1)
    (hn : ∀ p ∈ q, p.holds = none) : ({ w with sessions := w.resume id q } : BlobWork).Kept := by
  refine ⟨h.toOk.resume hq, h.files, fun x hx checksum hc => ?_⟩
  rcases mem_resume.mp hx with ⟨hx, -⟩ | ⟨p, hp, rfl⟩
  · exact h.held x hx checksum hc
  · rw [hn p hp] at hc
    cases hc

/-- A session goes on. -/
theorem BlobWork.Ok.advance (h : w.Ok) (hx : x ∈ w.sessions) (now : Time) :
    ({ storage := (x.phase.step w.storage now).1
       sessions := w.resume id (x.phase.step w.storage now).2 } : BlobWork).Ok := by
  have hm := x.phase.step_moves w.storage now
  refine ⟨fun a ha => ?_, fun b hb => ?_, fun y hy z hz => ?_⟩
  · rcases hm.rows with ht | hacc
    · simp only [ht] at ha ⊢
      exact h.rows a ha
    · exact ArtifactStore.accepted_rows hacc a ha
  · rcases hm.blobs b hb with hb | hb
    · exact h.placed b hb
    · exact h.named x hx _ hb
  · rcases mem_resume.mp hy with ⟨hy, -⟩ | ⟨p, hp, rfl⟩
    · exact h.named y hy z hz
    · exact (hm.paths p hp z hz).elim (h.named x hx z) fun he => he

/-- A file that is in use stays. -/
theorem BlobWork.Kept.hasFile (h : w.Kept) (hx : w.session? id = some x) (now : Time)
    (hc : w.unlinksUnused (.advance id now) = true) (checksum : String)
    (hf : w.storage.HasFile checksum)
    (hused : (∃ a ∈ w.storage.tables.catalog.artifacts, a.blobChecksum = checksum) ∨
      ∃ y ∈ w.sessions, y.phase.holds = some checksum) :
    (x.phase.step w.storage now).1.HasFile checksum := by
  obtain ⟨f, hf, hpath⟩ := hf
  rcases (x.phase.step_moves w.storage now).files f hf with ⟨f', hf', he⟩ | ⟨sum, path, hp, he⟩
  · exact ⟨f', hf', he.trans hpath⟩
  · -- the file that is unlinked is of another blob
    have hname := h.named x (Table.get_mem hx) (sum, path) (hp ▸ List.mem_singleton_self _)
    have hsum : checksum = sum := blobPath_inj (hpath.symm.trans (he.trans hname))
    simp only [unlinksUnused, hx, Option.all_some, hp, Bool.and_eq_true, List.all_eq_true,
      bne_iff_ne] at hc
    rcases hused with ⟨a, ha, hsame⟩ | ⟨y, hy, hsame⟩
    · exact absurd (hsame.trans hsum) (hc.1 a ha)
    · exact absurd (hsum ▸ hsame) (hc.2 y hy)

theorem BlobStep.ok (h : BlobStep w m w') (ho : w.Ok) : w'.Ok := by
  obtain ⟨hcall, hs⟩ := h
  cases m with
  | call id p =>
    simp only [BlobWork.step] at hs
    split at hs
    · cases hs
    · cases hs
      refine ho.resume fun q hq => ?_
      obtain rfl := Option.some.inj hq
      exact (ho.called hcall).1
  | advance id now =>
    obtain ⟨x, hx, rfl⟩ := Option.map_eq_some_iff.mp hs
    exact ho.advance (Table.get_mem hx) now
  | stop id =>
    cases hs
    exact ho.resume fun _ hq => (by cases hq)

theorem BlobStep.kept (h : BlobStep w m w') (hk : w.Kept) (hc : w.unlinksUnused m = true) :
    w'.Kept := by
  obtain ⟨hcall, hs⟩ := h
  cases m with
  | call id p =>
    simp only [BlobWork.step] at hs
    split at hs
    · cases hs
    · cases hs
      have hcalled := hk.toOk.called hcall
      refine hk.resume (fun q hq => ?_) fun q hq => ?_ <;> obtain rfl := Option.some.inj hq
      · exact hcalled.1
      · exact hcalled.2
  | stop id =>
    cases hs
    exact hk.resume (fun _ hq => (by cases hq)) fun _ hq => (by cases hq)
  | advance id now =>
    obtain ⟨x, hx, rfl⟩ := Option.map_eq_some_iff.mp hs
    have hm := x.phase.step_moves w.storage now
    have hmem := Table.get_mem hx
    have hstay := hk.hasFile hx now hc
    refine ⟨hk.toOk.advance hmem now, fun a ha => ?_, fun y hy checksum hy' => ?_⟩
    · rcases hm.artifacts a ha with hold | ⟨b, hb, he⟩
      · exact hstay _ (hk.held x hmem _ hold) (.inr ⟨x, hmem, hold⟩)
      · exact hstay _ (he ▸ hk.files b hb) (.inl ⟨b, hb, he⟩)
    · rcases mem_resume.mp hy with ⟨hy, -⟩ | ⟨p, hp, rfl⟩
      · exact hstay _ (hk.held y hy _ hy') (.inr ⟨y, hy, hy'⟩)
      · rcases hm.holds p hp checksum hy' with hold | hfile
        · exact hstay _ (hk.held x hmem _ hold) (.inr ⟨x, hmem, hold⟩)
        · exact hfile

theorem BlobWork.Idle.kept (h : w.Idle) : w.Kept := by
  refine ⟨⟨fun x hx => ?_, h.placed, ?_⟩, fun x hx => ?_, ?_⟩
  · obtain ⟨b, hb, he, -⟩ := h.there x hx
    exact ⟨b, hb, he⟩
  · rw [h.sessions]
    exact fun _ hx => (by cases hx)
  · obtain ⟨b, hb, he, f, hf, hp⟩ := h.there x hx
    exact ⟨f, hf, by rw [hp, h.placed b hb, he]⟩
  · rw [h.sessions]
    exact fun _ hx => (by cases hx)

theorem BlobWork.Kept.there (h : w.Kept) : w.BlobsThere := by
  intro x hx
  obtain ⟨b, hb, he⟩ := h.rows x hx
  obtain ⟨f, hf, hp⟩ := h.files x hx
  exact ⟨b, hb, he, f, hf, by rw [hp, h.placed b hb, he]⟩

variable {start : BlobWork} {tr : List (BlobWork × BlobMove)}

/-- The rows are kept by the constraints of the tables. -/
theorem rows_kept (h : Run BlobStep start tr w) (h₀ : start.Idle) : ∀ x, Run.Visits tr w x →
    ∀ a ∈ x.storage.tables.catalog.artifacts,
      ∃ b ∈ x.storage.tables.catalog.blobs, b.checksum = a.blobChecksum :=
  fun x hx => (h.invariant_visits (P := BlobWork.Ok) (C := fun _ _ => True) (fun _ _ => trivial)
    h₀.kept.toOk (fun _ _ _ _ ho hs => hs.ok ho) x hx).rows

end

/-! ## An archive that is imported again -/

namespace BlobWork

/-- The moves, one after the other. -/
def play (w : BlobWork) (moves : List BlobMove) : BlobWork :=
  moves.foldl (fun w m => (w.step m).getD w) w

/-- The states passed, with the moves. -/
def trace (w : BlobWork) (moves : List BlobMove) : List (BlobWork × BlobMove) :=
  Run.history (fun w m => (w.step m).getD w) w moves

/-- All moves can be made, and are in `C`. -/
def plays (C : BlobWork → BlobMove → Bool) : BlobWork → List BlobMove → Bool
  | _, [] => true
  | w, m :: moves => C w m && decide (w.Called m) && match w.step m with
    | none => false
    | some w' => w'.plays C moves

end BlobWork

theorem BlobWork.play_run (w : BlobWork) (C : BlobWork → BlobMove → Bool) (moves : List BlobMove)
    (h : w.plays C moves = true) : Run BlobStep w (w.trace moves) (w.play moves) ∧
      Run.Meets (fun x m => C x m = true) (w.trace moves) := by
  have hall : ∀ x ∈ w.trace moves, C x.1 x.2 = true ∧ x.1.Called x.2 ∧
      x.1.step x.2 = some ((x.1.step x.2).getD x.1) := by
    induction moves generalizing w with
    | nil => exact fun _ hx => (by cases hx)
    | cons m moves ih =>
      simp only [plays, Bool.and_eq_true, decide_eq_true_eq] at h
      obtain ⟨⟨hC, hcalled⟩, hrest⟩ := h
      split at hrest
      · cases hrest
      · rename_i w₁ hs
        intro x hx
        rcases List.mem_cons.mp hx with rfl | hx
        · exact ⟨hC, hcalled, by rw [hs, Option.getD_some]⟩
        · beta_reduce at hx
          rw [hs, Option.getD_some] at hx
          exact ih w₁ hrest x hx
  exact ⟨Run.of_foldl (fun w m => (BlobWork.step w m).getD w) moves fun x hx => (hall x hx).2,
    fun x hx => (hall x hx).1⟩

/-- Two chapters, and the archive of the first. -/
def twoChapters : BlobWork :=
  { storage := {
      tables := { catalog := {
        chapters := [{ id := 1, seriesId := 1, canonicalNumber := "1", createdAt := 0 },
          { id := 2, seriesId := 1, canonicalNumber := "2", createdAt := 0 }]
        blobs := [⟨"old", blobPath "old", 1⟩]
        artifacts := [{ id := 1, chapterId := 1, chapterReleaseId := none, blobChecksum := "old" }]
        projections := [⟨1, 1, "1.cbz", 0⟩]
        nextArtifact := 2 } }
      files := [⟨blobPath "old", "old"⟩] } }

/-- The repair of the first chapter. -/
def repairFirst : Deposit :=
  .repair ⟨1, 1, "old", blobPath "old", "1.cbz"⟩
    ⟨⟨"new", "", 1, 1⟩, "1.cbz", "old", "new", "metadata"⟩

/-- The second chapter is imported from the archive that the first one had. -/
def importSecond : Deposit :=
  .activation { chapterId := 2, chapterReleaseId := none, blob := ⟨"old", "", 1, 1⟩
                projectionRelativePath := "2.cbz", provenance := "legacy_import" }

def advances (id n : Nat) : List BlobMove := List.replicate n (.advance id 1)

/-- The repair is about to unlink the file; the import reuses it, and then the file is unlinked. -/
def importedAgain : List BlobMove :=
  .call 1 (.storing repairFirst) :: advances 1 9 ++
    .call 2 (.storing importSecond) :: advances 2 6 ++ advances 1 1

theorem twoChapters_idle : twoChapters.Idle := ⟨rfl, by decide +kernel, by decide +kernel⟩

end MangaManager
