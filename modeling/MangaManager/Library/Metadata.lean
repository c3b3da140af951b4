import MangaManager.Catalog.Artifacts

/-!
# Metadata repair

`LibraryRepairHandler._repair_one` writes the `ComicInfo.xml` of an archive again, stores
the archive as a new blob and puts the blob into the artifact. `_snapshot` reads the active
artifacts in a transaction of its own, so a download may replace an artifact while its
archive is rewritten; the last transaction compares the checksum only, which a replaced
artifact keeps.

`artifacts_follow`: over activations and repairs, projections follow the active artifacts
when a repair commits for artifacts that are active.
-/

namespace MangaManager

open Lib

/-- A row of `artifact_metadata_rewrite`. -/
structure ArtifactMetadataRewrite where
  chapterId : Nat
  oldBlobChecksum : String
  newBlobChecksum : String
  oldComicInfo : String
  newComicInfo : String
  reason : String
  deriving DecidableEq

/-- What a repair reads of an artifact, without the texts that go into `ComicInfo.xml`. -/
structure RepairChapter where
  chapterId : Nat
  artifactId : Nat
  blobChecksum : String
  blobPath : String
  projectionPath : String
  deriving DecidableEq

/-- A rewritten archive, as it was stored. -/
structure RewrittenArchive where
  blob : StoredBlob
  targetProjection : String
  oldXml : String
  newXml : String
  reason : String
  deriving DecidableEq

inductive StoreError where
  | stateChanged
  | integrity (constraint : String)
  deriving DecidableEq, Repr

def StoreError.message : StoreError → String
  | stateChanged => "artifact changed during repair"
  | integrity constraint => "violates constraint " ++ constraint

/-- The tables of the catalog with the rewrites of archives. -/
structure ArtifactStore where
  catalog : Catalog := {}
  rewrites : List ArtifactMetadataRewrite := []
  deriving DecidableEq

namespace Catalog

variable (c : Catalog)

/-- The rows of `_snapshot`, in the order of the tables. -/
def repairChapters (seriesId : Nat) : List RepairChapter :=
  (c.chapters.filter (·.seriesId == seriesId)).flatMap fun chapter =>
    (c.artifacts.filter fun a => a.chapterId == chapter.id && a.state == .active).flatMap fun a =>
      (c.blobs.filter (·.checksum == a.blobChecksum)).map fun b =>
        { chapterId := chapter.id, artifactId := a.id, blobChecksum := b.checksum
          blobPath := b.relativePath
          projectionPath := ((Table.get LibraryProjection.chapterId c.projections chapter.id).map
            (·.relativePath)).getD "" }

/-- The projection of a chapter after the repair of an artifact. -/
def projectRepaired (row : RepairChapter) (target : String) (now : Time) : Catalog :=
  { c with
    projections := match Table.get LibraryProjection.chapterId c.projections row.chapterId with
      | none => c.projections ++ [⟨row.chapterId, row.artifactId, target, now⟩]
      | some p => Table.put LibraryProjection.chapterId c.projections
          { p with artifactId := row.artifactId, relativePath := target } }

end Catalog

/-- The artifact with the archive that replaces its own. -/
def ChapterArtifact.rewritten (a : ChapterArtifact) (r : RewrittenArchive) : ChapterArtifact :=
  { a with blobChecksum := r.blob.checksum, provenance := "metadata_repair" }

/-- The blob of a rewritten archive with its chapter. -/
def RewrittenArchive.stored (r : RewrittenArchive) (row : RepairChapter) : ActivateArgs :=
  { chapterId := row.chapterId, chapterReleaseId := none, blob := r.blob
    projectionRelativePath := r.targetProjection, provenance := "metadata_repair" }

namespace ArtifactStore

variable (s : ArtifactStore)

/-- The constraints that these writes can violate, and whether the tables meet them. -/
def constraints : List (String × Bool) :=
  let c := s.catalog
  [("artifact_blob_relative_path_key", decide (c.blobs.map (·.relativePath)).Nodup),
    ("chapter_artifact_chapter_id_fkey",
      c.artifacts.all fun a => c.chapters.any (·.id == a.chapterId)),
    ("chapter_artifact_chapter_release_id_fkey",
      c.artifacts.all fun a => a.chapterReleaseId.all fun id => c.releases.any (·.id == id)),
    ("uq_library_projection_artifact", decide (c.projections.map (·.artifactId)).Nodup),
    ("uq_library_projection_path", decide (c.projections.map (·.relativePath)).Nodup),
    ("uq_metadata_rewrite_new_blob", decide (s.rewrites.map (·.newBlobChecksum)).Nodup)]

/-- A transaction is refused when its writes violate a constraint. -/
def commit : Except StoreError ArtifactStore :=
  match s.constraints.find? (!·.2) with
  | none => .ok s
  | some violated => .error (.integrity violated.1)

def activate (a : ActivateArgs) (now : Time) : Except StoreError (ArtifactStore × ActivationResult) :=
  let (catalog, result) := s.catalog.activate a now
  ({ s with catalog := catalog }.commit).map (·, result)

/-- The transaction of `_repair_one`. -/
def repairOne (row : RepairChapter) (r : RewrittenArchive) (now : Time) :
    Except StoreError ArtifactStore :=
  match Table.get ChapterArtifact.id s.catalog.artifacts row.artifactId with
  | none => .error .stateChanged
  | some artifact =>
    if artifact.blobChecksum ≠ row.blobChecksum then .ok s
    else
      { catalog := ((s.catalog.addBlob (r.stored row)).putArtifact (artifact.rewritten r)
          ).projectRepaired row r.targetProjection now
        rewrites := if r.blob.checksum = row.blobChecksum then s.rewrites
          else s.rewrites ++ [⟨row.chapterId, row.blobChecksum, r.blob.checksum, r.oldXml, r.newXml,
            r.reason⟩] : ArtifactStore }.commit

/-- The transaction of `_remove_unreferenced_blob`. -/
def removeUnreferencedBlob (checksum : String) : ArtifactStore :=
  if s.catalog.artifacts.any (·.blobChecksum == checksum) then s
  else { s with
    catalog := { s.catalog with blobs := s.catalog.blobs.filter (·.checksum != checksum) } }

end ArtifactStore

/-! ## Calls -/

/-- The store with the rows that repairs have read. -/
structure RepairWork where
  store : ArtifactStore := {}
  read : List RepairChapter := []
  deriving DecidableEq

inductive ArtifactCall where
  | activate (a : ActivateArgs)
  | snapshot (seriesId : Nat)
  | repairOne (row : RepairChapter) (r : RewrittenArchive)
  | removeUnreferencedBlob (checksum : String)

namespace ArtifactCall

/-- The store after a call that may raise. -/
def kept {α : Type} (s : ArtifactStore) (f : α → ArtifactStore) : Except StoreError α → ArtifactStore
  | .ok r => f r
  | .error _ => s

def apply (l : ArtifactCall) (w : RepairWork) (now : Time) : RepairWork :=
  match l with
  | activate a => { w with store := kept w.store Prod.fst (w.store.activate a now) }
  | snapshot seriesId => { w with read := w.read ++ w.store.catalog.repairChapters seriesId }
  | repairOne row r => { w with store := kept w.store id (w.store.repairOne row r now) }
  | removeUnreferencedBlob checksum => { w with store := w.store.removeUnreferencedBlob checksum }

/-- The artifact that a repair writes is active, or its archive is another one by now. -/
def RepairsActive (l : ArtifactCall) (w : RepairWork) : Prop :=
  match l with
  | repairOne row _ => ∀ a ∈ w.store.catalog.artifacts, a.id = row.artifactId →
      a.blobChecksum = row.blobChecksum → a.state = .active
  | _ => True

end ArtifactCall

/-- A repair is of a row that was read. -/
def ArtifactStep (w : RepairWork) (l : ArtifactCall × Time) (w' : RepairWork) : Prop :=
  (∀ row r, l.1 = .repairOne row r → row ∈ w.read) ∧ w' = l.1.apply w l.2

/-! ## Projections and blobs -/

namespace Catalog

/-- Artifacts and projections are keyed, and the blob of every artifact has its row. -/
structure StoreOk (c : Catalog) : Prop where
  artifacts : c.ArtifactsOk
  projections : Table.Keyed LibraryProjection.chapterId c.projections
  stored : ∀ a ∈ c.artifacts, ∃ b ∈ c.blobs, b.checksum = a.blobChecksum

/-- The projection of a chapter points to its active artifact. -/
def ProjectionsFollow (c : Catalog) : Prop :=
  ∀ a ∈ c.artifacts, a.state = .active →
    ∃ p, Table.get LibraryProjection.chapterId c.projections a.chapterId = some p ∧
      p.artifactId = a.id

/-- The artifacts are there, in their places and with their chapters. -/
def ArtifactsStay (c c' : Catalog) : Prop :=
  (c.artifacts.map fun a => (a.id, a.chapterId)) <+: c'.artifacts.map fun a => (a.id, a.chapterId)

section
variable {c c' : Catalog} {args : ActivateArgs} {now : Time}

theorem ArtifactsStay.refl : ArtifactsStay c c := List.prefix_refl _

theorem ArtifactsStay.of_eq (h : (c'.artifacts.map fun a => (a.id, a.chapterId)) =
    c.artifacts.map fun a => (a.id, a.chapterId)) : ArtifactsStay c c' := by
  simp only [ArtifactsStay, h, List.prefix_refl]

theorem ArtifactsStay.trans {c'' : Catalog} (h : ArtifactsStay c c') (h' : ArtifactsStay c' c'') :
    ArtifactsStay c c'' := List.IsPrefix.trans h h'

/-- An artifact of the earlier state in the later one. -/
theorem ArtifactsStay.exists (h : ArtifactsStay c c') {a : ChapterArtifact} (ha : a ∈ c.artifacts) :
    ∃ a' ∈ c'.artifacts, a'.id = a.id ∧ a'.chapterId = a.chapterId := by
  have hm := h.subset (List.mem_map_of_mem ha)
  obtain ⟨a', ha', he⟩ := List.mem_map.mp hm
  exact ⟨a', ha', congrArg Prod.fst he, congrArg Prod.snd he⟩

/-! ### The parts of a write -/

theorem addBlob_same (c : Catalog) (args : ActivateArgs) :
    (c.addBlob args).artifacts = c.artifacts ∧ (c.addBlob args).projections = c.projections ∧
      (c.addBlob args).nextArtifact = c.nextArtifact := by
  unfold addBlob
  split <;> exact ⟨rfl, rfl, rfl⟩

/-- The rows of the blobs stay, and the new blob has one. -/
theorem addBlob_blobs (c : Catalog) (args : ActivateArgs) :
    (∀ b ∈ c.blobs, b ∈ (c.addBlob args).blobs) ∧
      ∃ b ∈ (c.addBlob args).blobs, b.checksum = args.blob.checksum := by
  unfold addBlob
  split
  · rename_i hany
    obtain ⟨b, hb, he⟩ := List.any_eq_true.mp hany
    exact ⟨fun _ hb => hb, b, hb, beq_iff_eq.mp he⟩
  · exact ⟨fun b hb => List.mem_append_left _ hb, _,
      List.mem_append_right _ (List.mem_singleton_self _), rfl⟩

theorem StoreOk.addBlob (h : c.StoreOk) (args : ActivateArgs) : (c.addBlob args).StoreOk := by
  obtain ⟨ha, hp, hn⟩ := c.addBlob_same args
  refine ⟨⟨?_, ?_, ?_⟩, ?_, fun a ham => ?_⟩
  · rw [ha]
    exact h.artifacts.keyed
  · rw [ha, hn]
    exact h.artifacts.below
  · rw [ha]
    exact h.artifacts.oneActive
  · rw [hp]
    exact h.projections
  · rw [ha] at ham
    obtain ⟨b, hb, he⟩ := h.stored a ham
    exact ⟨b, (c.addBlob_blobs args).1 b hb, he⟩

/-- A row is written whose blob is stored. -/
theorem StoreOk.put (h : c.StoreOk) {x y : ChapterArtifact} (hx : x ∈ c.artifacts)
    (hid : y.id = x.id) (hchapter : y.chapterId = x.chapterId)
    (hs : y.state = .active → x.state = .active)
    (hb : ∃ b ∈ c.blobs, b.checksum = y.blobChecksum) : (c.putArtifact y).StoreOk := by
  refine ⟨h.artifacts.put hx hid hchapter hs, h.projections, fun a ha => ?_⟩
  rcases Table.mem_put.mp ha with ⟨rfl, -⟩ | ⟨ha, -⟩
  · exact hb
  · exact h.stored a ha

theorem ArtifactsStay.put (h : c.StoreOk) {x y : ChapterArtifact} (hx : x ∈ c.artifacts)
    (hid : y.id = x.id) (hchapter : y.chapterId = x.chapterId) :
    (c.putArtifact y).artifacts.map (fun a => (a.id, a.chapterId)) =
      c.artifacts.map fun a => (a.id, a.chapterId) :=
  Table.map_put h.artifacts.keyed hx hid.symm (by rw [hid, hchapter])

/-- A new artifact of the blob that was stored. -/
theorem StoreOk.add (h : c.StoreOk) {state : ArtifactState}
    (hfree : state = .active → c.activeArtifact args.chapterId = none)
    (hb : ∃ b ∈ c.blobs, b.checksum = args.blob.checksum) : (c.addArtifact args state).StoreOk := by
  refine ⟨h.artifacts.add hfree, h.projections, fun a ha => ?_⟩
  rcases List.mem_append.mp ha with ha | ha
  · exact h.stored a ha
  · obtain rfl := List.mem_singleton.mp ha
    exact hb

theorem ArtifactsStay.add (args : ActivateArgs) (state : ArtifactState) :
    ArtifactsStay c (c.addArtifact args state) := by
  unfold ArtifactsStay addArtifact
  rw [List.map_append]
  exact List.prefix_append _ _

/-- The projection of one chapter is written. -/
structure Projects (c c' : Catalog) (chapterId artifactId : Nat) : Prop where
  artifacts : c'.artifacts = c.artifacts
  nextArtifact : c'.nextArtifact = c.nextArtifact
  blobs : c'.blobs = c.blobs
  keyed : Table.Keyed LibraryProjection.chapterId c.projections →
    Table.Keyed LibraryProjection.chapterId c'.projections
  self : ∃ p, Table.get LibraryProjection.chapterId c'.projections chapterId = some p ∧
    p.artifactId = artifactId
  other : ∀ k, k ≠ chapterId → Table.get LibraryProjection.chapterId c'.projections k =
    Table.get LibraryProjection.chapterId c.projections k

theorem projects_append (p : LibraryProjection) (h : ∀ q ∈ c.projections, q.chapterId ≠ p.chapterId) :
    Projects c { c with projections := c.projections ++ [p] } p.chapterId p.artifactId where
  artifacts := rfl
  nextArtifact := rfl
  blobs := rfl
  keyed hk := Table.keyed_append.mpr ⟨hk, h⟩
  self := ⟨p, by rw [Table.get_append h, if_pos rfl], rfl⟩
  other k hk := Table.get_append_of_ne (Ne.symm hk)

theorem projects_put (p : LibraryProjection) (h : ∃ q ∈ c.projections, q.chapterId = p.chapterId) :
    Projects c { c with projections := Table.put LibraryProjection.chapterId c.projections p }
      p.chapterId p.artifactId where
  artifacts := rfl
  nextArtifact := rfl
  blobs := rfl
  keyed hk := Table.keyed_put.mpr hk
  self := by
    obtain ⟨q, hq, he⟩ := h
    exact ⟨p, Table.get_put_self hq he, rfl⟩
  other k hk := Table.get_put_of_ne hk

theorem upsertProjection_projects (c : Catalog) (now : Time) (chapterId artifactId : Nat)
    (path : String) :
    Projects c (c.upsertProjection now chapterId artifactId path) chapterId artifactId := by
  unfold upsertProjection
  dsimp only
  split
  · rename_i hany
    obtain ⟨q, hq, he⟩ := List.any_eq_true.mp hany
    exact projects_put ⟨chapterId, artifactId, path, now⟩ ⟨q, hq, beq_iff_eq.mp he⟩
  · rename_i hany
    exact projects_append ⟨chapterId, artifactId, path, now⟩ (by simpa using hany)

theorem projectRepaired_projects (c : Catalog) (row : RepairChapter) (target : String) (now : Time) :
    Projects c (c.projectRepaired row target now) row.chapterId row.artifactId := by
  unfold projectRepaired
  split
  · rename_i hnone
    exact projects_append ⟨row.chapterId, row.artifactId, target, now⟩ (Table.get_eq_none.mp hnone)
  · rename_i p hp
    have hk := Table.get_key hp
    have h := projects_put (c := c) { p with artifactId := row.artifactId, relativePath := target }
      ⟨p, Table.get_mem hp, rfl⟩
    rw [← hk]
    exact h

variable {chapterId artifactId : Nat}

theorem Projects.storeOk (h : Projects c c' chapterId artifactId) (hc : c.StoreOk) : c'.StoreOk := by
  refine ⟨⟨?_, ?_, ?_⟩, h.keyed hc.projections, ?_⟩
  · rw [h.artifacts]
    exact hc.artifacts.keyed
  · rw [h.artifacts, h.nextArtifact]
    exact hc.artifacts.below
  · rw [h.artifacts]
    exact hc.artifacts.oneActive
  · rw [h.artifacts, h.blobs]
    exact hc.stored

/-- The projections follow when the one that is written is of the active artifact of its chapter,
and the other chapters keep theirs. -/
theorem Projects.follow {c₀ : Catalog} (h : Projects c c' chapterId artifactId)
    (hf : c₀.ProjectionsFollow) (hp : c.projections = c₀.projections)
    (hself : ∀ a ∈ c.artifacts, a.state = .active → a.chapterId = chapterId → a.id = artifactId)
    (hother : ∀ a ∈ c.artifacts, a.state = .active → a.chapterId ≠ chapterId → a ∈ c₀.artifacts) :
    c'.ProjectionsFollow := by
  intro a ha hs
  rw [h.artifacts] at ha
  by_cases hk : a.chapterId = chapterId
  · obtain ⟨p, hget, hpa⟩ := h.self
    exact ⟨p, hk ▸ hget, hpa.trans (hself a ha hs hk).symm⟩
  · rw [h.other _ hk, hp]
    exact hf a (hother a ha hs hk) hs

/-! ### An activation -/

/-- What an activation does, by the result that it reports. -/
theorem StoreOk.activate (h : c.StoreOk) (args : ActivateArgs) (now : Time) :
    (c.activate args now).1.StoreOk ∧
      (c.ProjectionsFollow → (c.activate args now).1.ProjectionsFollow) ∧
      ArtifactsStay c (c.activate args now).1 ∧
      ((c.activate args now).2.status = .conflict →
        (c.activate args now).1.activeArtifact args.chapterId = c.activeArtifact args.chapterId ∧
        (c.activate args now).1.projections = c.projections) ∧
      ((c.activate args now).2.status = .duplicate →
        (c.activate args now).1.artifacts.map (·.id) = c.artifacts.map (·.id)) := by
  obtain ⟨ha, hp, hn⟩ := c.addBlob_same args
  have hb := (c.addBlob_blobs args).2
  have hok := h.addBlob args
  have hact : (c.addBlob args).activeArtifact args.chapterId = c.activeArtifact args.chapterId := by
    unfold activeArtifact
    rw [ha]
  have hstay : ∀ {d : Catalog}, ArtifactsStay (c.addBlob args) d → ArtifactsStay c d := by
    intro d hd
    unfold ArtifactsStay at hd ⊢
    rwa [ha] at hd
  unfold Catalog.activate
  dsimp only
  rw [hact]
  -- a new active artifact of a chapter without one
  have hnew : ∀ d : Catalog, d.StoreOk → d.activeArtifact args.chapterId = none →
      (∃ b ∈ d.blobs, b.checksum = args.blob.checksum) → d.projections = c.projections →
      ArtifactsStay c d →
      (∀ a ∈ d.artifacts, a.state = .active → a ∈ c.artifacts) →
      (d.activateNew args now).1.StoreOk ∧
        (c.ProjectionsFollow → (d.activateNew args now).1.ProjectionsFollow) ∧
        ArtifactsStay c (d.activateNew args now).1 := by
    intro d hd hfree hdb hdp hdstay hold
    have hadd : (d.addArtifact args .active).StoreOk := hd.add (fun _ => hfree) hdb
    have hproj := upsertProjection_projects (d.addArtifact args .active) now args.chapterId
      d.nextArtifact args.projectionRelativePath
    have hself : ∀ a ∈ (d.addArtifact args .active).artifacts, a.state = .active →
        a.chapterId = args.chapterId → a.id = d.nextArtifact := by
      intro a ham hs hk
      rcases List.mem_append.mp ham with ham | ham
      · exact absurd hs (activeArtifact_none.mp hfree a ham hk)
      · rw [List.mem_singleton.mp ham]
        rfl
    refine ⟨hproj.storeOk hadd, fun hf => hproj.follow hf hdp hself fun a ham hs hk => ?_, ?_⟩
    · rcases List.mem_append.mp ham with ham | ham
      · exact hold a ham hs
      · rw [List.mem_singleton.mp ham] at hk
        exact absurd rfl hk
    · have hadds := hdstay.trans (ArtifactsStay.add args .active)
      unfold ArtifactsStay at hadds ⊢
      rwa [← hproj.artifacts] at hadds
  cases ho : c.activeArtifact args.chapterId with
  | none =>
    dsimp only
    obtain ⟨h₁, h₂, h₃⟩ := hnew _ hok (hact.trans ho) hb hp (hstay .refl) fun a ham _ => ha ▸ ham
    exact ⟨h₁, h₂, h₃, fun he => (by cases he), fun he => (by cases he)⟩
  | some old =>
    obtain ⟨hmem, hchapter, hs⟩ := activeArtifact_some (hact.trans ho)
    dsimp only
    split
    · -- stored again
      rename_i hsame
      have hput := hok.put hmem (y := refreshed args old) rfl rfl (fun _ => hs) (hsame ▸ hb)
      have hproj := upsertProjection_projects ((c.addBlob args).putArtifact (refreshed args old)) now
        args.chapterId old.id args.projectionRelativePath
      have hids := ArtifactsStay.put hok hmem (y := refreshed args old) rfl rfl
      refine ⟨hproj.storeOk hput, fun hf => hproj.follow hf hp (fun a ham has hk => ?_)
        fun a ham has hk => ?_, ?_, fun he => (by cases he), fun _ => ?_⟩
      · rcases Table.mem_put.mp ham with ⟨rfl, -⟩ | ⟨ham, -⟩
        · rfl
        · rw [hok.artifacts.oneActive a ham old hmem has hs (hk.trans hchapter.symm)]
      · rcases Table.mem_put.mp ham with ⟨rfl, -⟩ | ⟨ham, -⟩
        · exact absurd hchapter hk
        · exact ha ▸ ham
      · exact hstay (.of_eq (by rw [hproj.artifacts, hids]))
      · show List.map (fun a : ChapterArtifact => a.id) (Table.put ChapterArtifact.id _ _) = _
        rw [Table.map_key_put, ha]
    split
    · -- kept beside the active one
      have hadd : ((c.addBlob args).addArtifact args .quarantined).StoreOk :=
        hok.add (fun he => (by cases he)) hb
      refine ⟨hadd, fun hf a ham has => ?_,
        hstay (ArtifactsStay.add args .quarantined), fun _ => ⟨?_, hp⟩, fun he => (by cases he)⟩
      · rcases List.mem_append.mp ham with ham | ham
        · obtain ⟨p, hget, hpa⟩ := hf a (ha ▸ ham) has
          exact ⟨p, by rwa [← hp] at hget, hpa⟩
        · rw [List.mem_singleton.mp ham] at has
          cases has
      · rw [← ho, ← hact]
        refine activeArtifact_congr hadd.artifacts fun a _ has => ?_
        simp only [addArtifact, List.mem_append, List.mem_singleton, or_iff_left_iff_imp]
        rintro rfl
        cases has
    · -- replaced
      obtain ⟨hoff, hfree⟩ := hok.artifacts.putAside (hact.trans ho) now
      have hput := hok.put hmem (y := deactivated now old) rfl rfl (fun he => (by cases he))
        (hok.stored old hmem)
      have hids := ArtifactsStay.put hok hmem (y := deactivated now old) rfl rfl
      have hrows : ∀ a ∈ ((c.addBlob args).putArtifact (deactivated now old)).artifacts,
          a.state = .active → a ∈ c.artifacts := by
        intro a ham has
        rcases Table.mem_put.mp ham with ⟨rfl, -⟩ | ⟨ham, -⟩
        · cases has
        · exact ha ▸ ham
      obtain ⟨h₁, h₂, h₃⟩ := hnew _ hput hfree hb hp
        (hstay (.of_eq hids)) hrows
      exact ⟨h₁, h₂, h₃, fun he => (by cases he), fun he => (by cases he)⟩

/-! ### A repair -/

/-- A repair of an artifact writes its row and the projection of its chapter. -/
theorem StoreOk.repairOne (h : c.StoreOk) {x : ChapterArtifact} {row : RepairChapter}
    {r : RewrittenArchive} (hx : x ∈ c.artifacts) (hid : x.id = row.artifactId)
    (hchapter : x.chapterId = row.chapterId) (now : Time) :
    let c' := ((c.addBlob (r.stored row)).putArtifact (x.rewritten r)).projectRepaired row
      r.targetProjection now
    c'.StoreOk ∧ ArtifactsStay c c' ∧
      (c.ProjectionsFollow → x.state = .active → c'.ProjectionsFollow) := by
  intro c'
  obtain ⟨ha, hp, -⟩ := c.addBlob_same (r.stored row)
  have hok := h.addBlob (r.stored row)
  have hx' : x ∈ (c.addBlob (r.stored row)).artifacts := ha.symm ▸ hx
  have hput := hok.put hx' (y := x.rewritten r) rfl rfl (fun hs => hs)
    (c.addBlob_blobs (r.stored row)).2
  have hids := ArtifactsStay.put hok hx' (y := x.rewritten r) rfl rfl
  have hproj := projectRepaired_projects ((c.addBlob (r.stored row)).putArtifact (x.rewritten r)) row
    r.targetProjection now
  refine ⟨hproj.storeOk hput, ?_, fun hf hs => hproj.follow hf hp (fun a ham has hk => ?_)
    fun a ham has hk => ?_⟩
  · exact .of_eq (by rw [hproj.artifacts, hids, ha])
  · rcases Table.mem_put.mp ham with ⟨rfl, -⟩ | ⟨ham, -⟩
    · exact hid
    · rw [h.artifacts.oneActive a (ha ▸ ham) x hx has hs (hk.trans hchapter.symm), hid]
  · rcases Table.mem_put.mp ham with ⟨rfl, -⟩ | ⟨ham, -⟩
    · exact absurd hchapter hk
    · exact ha ▸ ham

end

end Catalog

/-! ## Runs -/

section
variable {s s' : ArtifactStore} {w w' : RepairWork} {l : ArtifactCall × Time} {now : Time}

theorem ArtifactStore.commit_ok (h : s.commit = .ok s') : s' = s := by
  unfold commit at h
  split at h
  · exact (Except.ok.inj h).symm
  · cases h

theorem ArtifactStore.activate_ok {a : ActivateArgs} {r : ActivationResult}
    (h : s.activate a now = .ok (s', r)) : s' = { s with catalog := (s.catalog.activate a now).1 } ∧
      r = (s.catalog.activate a now).2 := by
  unfold activate at h
  dsimp only at h
  cases hc : ({ s with catalog := (s.catalog.activate a now).1 } : ArtifactStore).commit with
  | error e =>
    rw [hc] at h
    cases h
  | ok t =>
    rw [hc] at h
    obtain ⟨rfl, rfl⟩ := Prod.mk.inj (Except.ok.inj h)
    exact ⟨commit_ok hc, rfl⟩

/-- The store is well formed, and the artifacts that were read are there. -/
structure RepairWork.Ok (w : RepairWork) : Prop where
  store : w.store.catalog.StoreOk
  read : ∀ row ∈ w.read, ∃ a ∈ w.store.catalog.artifacts,
    a.id = row.artifactId ∧ a.chapterId = row.chapterId

theorem RepairWork.Ok.later (h : w.Ok) (hs : s.catalog.StoreOk)
    (hstay : Catalog.ArtifactsStay w.store.catalog s.catalog) : ({ w with store := s }).Ok := by
  refine ⟨hs, fun row hrow => ?_⟩
  obtain ⟨a, ha, hid, hk⟩ := h.read row hrow
  obtain ⟨a', ha', hid', hk'⟩ := hstay.exists ha
  exact ⟨a', ha', hid'.trans hid, hk'.trans hk⟩

/-- The rows that a repair reads are of artifacts. -/
theorem Catalog.mem_repairChapters {c : Catalog} {seriesId : Nat} {row : RepairChapter}
    (h : row ∈ c.repairChapters seriesId) : ∃ a ∈ c.artifacts, a.id = row.artifactId ∧
      a.chapterId = row.chapterId ∧ a.state = .active := by
  simp only [repairChapters, List.mem_flatMap, List.mem_map, List.mem_filter, Bool.and_eq_true,
    beq_iff_eq] at h
  obtain ⟨chapter, -, a, ⟨ha, hk, hs⟩, b, -, rfl⟩ := h
  exact ⟨a, ha, rfl, hk, hs⟩

/-- One call. -/
theorem ArtifactStep.spec (h : ArtifactStep w l w') (ho : w.Ok) :
    w'.Ok ∧ Catalog.ArtifactsStay w.store.catalog w'.store.catalog ∧
      (w.store.catalog.ProjectionsFollow → l.1.RepairsActive w →
        w'.store.catalog.ProjectionsFollow) := by
  obtain ⟨hread, rfl⟩ := h
  obtain ⟨call, now⟩ := l
  cases call with
  | activate a =>
    obtain ⟨hok, hf, hstay, -⟩ := ho.store.activate a now
    cases he : w.store.activate a now with
    | error e =>
      simp only [ArtifactCall.apply, he, ArtifactCall.kept]
      exact ⟨ho, .refl, fun hf _ => hf⟩
    | ok r =>
      obtain ⟨t, r⟩ := r
      obtain ⟨rfl, -⟩ := ArtifactStore.activate_ok he
      simp only [ArtifactCall.apply, he, ArtifactCall.kept]
      exact ⟨ho.later hok hstay, hstay, fun hf' _ => hf hf'⟩
  | snapshot seriesId =>
    refine ⟨⟨ho.store, fun row hrow => ?_⟩, .refl, fun hf _ => hf⟩
    rcases List.mem_append.mp hrow with hrow | hrow
    · exact ho.read row hrow
    · obtain ⟨a, ha, hid, hk, -⟩ := Catalog.mem_repairChapters hrow
      exact ⟨a, ha, hid, hk⟩
  | repairOne row r =>
    cases he : w.store.repairOne row r now with
    | error e =>
      simp only [ArtifactCall.apply, he, ArtifactCall.kept]
      exact ⟨ho, .refl, fun hf _ => hf⟩
    | ok t =>
      simp only [ArtifactCall.apply, he, ArtifactCall.kept, id_eq, ArtifactCall.RepairsActive]
      unfold ArtifactStore.repairOne at he
      split at he
      · cases he
      rename_i x hx
      split at he
      · cases he
        exact ⟨ho, .refl, fun hf _ => hf⟩
      · rename_i hsum
        obtain rfl := ArtifactStore.commit_ok he
        have hxm := Table.get_mem hx
        have hid := Table.get_key hx
        -- the artifact that is written is the one that was read
        obtain ⟨a, ha, hida, hk⟩ := ho.read row (hread row r rfl)
        obtain rfl := ho.store.artifacts.keyed.eq ha hxm (hida.trans hid.symm)
        obtain ⟨hok, hstay, hf⟩ := ho.store.repairOne (r := r) hxm hid hk now
        exact ⟨ho.later hok hstay, hstay, fun hfollow hact =>
          hf hfollow (hact a hxm hid (not_not.mp hsum))⟩
  | removeUnreferencedBlob checksum =>
    simp only [ArtifactCall.apply, ArtifactStore.removeUnreferencedBlob]
    split
    · exact ⟨ho, .refl, fun hf _ => hf⟩
    · rename_i hno
      refine ⟨⟨⟨⟨ho.store.artifacts.keyed, ho.store.artifacts.below, ho.store.artifacts.oneActive⟩,
        ho.store.projections, fun a ha => ?_⟩, ho.read⟩, .refl, fun hf _ => hf⟩
      obtain ⟨b, hb, he⟩ := ho.store.stored a ha
      refine ⟨b, List.mem_filter.mpr ⟨hb, ?_⟩, he⟩
      have hne : ∀ x ∈ w.store.catalog.artifacts, x.blobChecksum ≠ checksum := by simpa using hno
      simpa [he] using hne a ha

/-- Over every run of activations, reads, repairs and removals of blobs whose repairs commit for
active artifacts: a chapter has at most one active artifact, its projection points to it, and the
blob of every artifact has its row; a conflict changes nothing of the chapter, a duplicate creates
no artifact, and no artifact disappears. -/
theorem artifacts_follow {chapters : List CatalogChapter} {releases : List ReleaseRow}
    {tr : List (RepairWork × ArtifactCall × Time)}
    (h : Run ArtifactStep { store := { catalog := { chapters := chapters, releases := releases } } }
      tr w) (hc : Run.Meets (fun x l => l.1.RepairsActive x) tr) :
    (∀ x, Run.Visits tr w x → x.store.catalog.StoreOk ∧ x.store.catalog.ProjectionsFollow ∧
      ∀ a now s' r, x.store.activate a now = .ok (s', r) →
        (r.status = .conflict →
          s'.catalog.activeArtifact a.chapterId = x.store.catalog.activeArtifact a.chapterId ∧
          s'.catalog.projections = x.store.catalog.projections) ∧
        (r.status = .duplicate →
          s'.catalog.artifacts.map (·.id) = x.store.catalog.artifacts.map (·.id))) ∧
    ∀ x y, Run.Later tr w x y → Catalog.ArtifactsStay x.store.catalog y.store.catalog := by
  let start : RepairWork :=
    { store := { catalog := { chapters := chapters, releases := releases } } }
  have hstart : start.Ok :=
    ⟨⟨⟨List.nodup_nil, fun a ha => (by cases ha), fun a ha => (by cases ha)⟩, List.nodup_nil,
      fun a ha => (by cases ha)⟩, fun row hrow => (by cases hrow)⟩
  have hinv : ∀ x, Run.Visits tr w x → x.Ok ∧ x.store.catalog.ProjectionsFollow :=
    h.invariant_visits hc ⟨hstart, fun a ha => (by cases ha)⟩ fun x l x' hl hx hstep =>
      have hspec := hstep.spec hx.1
      ⟨hspec.1, hspec.2.2 hx.2 hl⟩
  refine ⟨fun x hx => ⟨(hinv x hx).1.store, (hinv x hx).2, fun a now s' r he => ?_⟩, ?_⟩
  · obtain ⟨rfl, rfl⟩ := ArtifactStore.activate_ok he
    obtain ⟨-, -, -, hconflict, hdup⟩ := (hinv x hx).1.store.activate a now
    exact ⟨hconflict, hdup⟩
  · exact h.later hc hstart (fun x l x' _ hx hstep =>
      have hspec := hstep.spec hx
      ⟨hspec.1, hspec.2.1⟩) fun x y z => Catalog.ArtifactsStay.trans

end

/-! ## A repair that is overtaken -/

def replayArtifacts (start : RepairWork) (calls : List (ArtifactCall × Time)) : RepairWork :=
  calls.foldl (fun w l => l.1.apply w l.2) start

/-- Calls whose repairs are of rows that were read make a run. -/
theorem replayArtifacts_run (start : RepairWork) (calls : List (ArtifactCall × Time))
    (h : ∀ x ∈ Run.history (fun w l => ArtifactCall.apply l.1 w l.2) start calls,
      ∀ row r, x.2.1 = .repairOne row r → row ∈ x.1.read) :
    Run ArtifactStep start (Run.history (fun w l => ArtifactCall.apply l.1 w l.2) start calls)
      (replayArtifacts start calls) :=
  Run.of_foldl _ calls fun x hx => ⟨h x hx, rfl⟩

/-- A series with one chapter that has two releases. -/
def twoReleases : RepairWork :=
  { store := { catalog := {
      chapters := [{ id := 1, seriesId := 1, canonicalNumber := "1", createdAt := 0 }]
      releases := [
        { id := 1, id_pos := Nat.one_pos, chapterId := 1, source := "asura", sourceSeriesId := 1
          sourceReleaseId := "a" },
        { id := 2, id_pos := Nat.two_pos, chapterId := 1, source := "mangadex", sourceSeriesId := 2
          sourceReleaseId := "b" }] } } }

/-- A download of a release, stored under the checksum. -/
def downloaded (releaseId : Nat) (source checksum : String) : ActivateArgs :=
  { chapterId := 1, chapterReleaseId := some releaseId, blob := ⟨checksum, checksum, 1, 1⟩
    projectionRelativePath := "1.cbz", provenance := "download", source := source, replace := true }

/-- What the repair reads of the first download. -/
def staleChapter : RepairChapter := ⟨1, 1, "x", "x", "1.cbz"⟩

def rewrittenArchive : RewrittenArchive := ⟨⟨"y", "y", 1, 1⟩, "1.cbz", "old", "new", "metadata"⟩

/-- The repair reads the first download; the second one replaces it before the repair commits. -/
def overtaken : List (ArtifactCall × Time) :=
  [(.activate (downloaded 1 "asura" "x"), 0), (.snapshot 1, 1),
    (.activate (downloaded 2 "mangadex" "z"), 2), (.repairOne staleChapter rewrittenArchive, 3)]

theorem overtaken_projection : ∃ tr w, Run ArtifactStep twoReleases tr w ∧
    tr.map Prod.snd = overtaken ∧
    (w.store.catalog.activeArtifact 1).map (·.id) = some 2 ∧
    w.store.catalog.projections.map (fun p => (p.chapterId, p.artifactId)) = [(1, 1)] ∧
    ¬ ∀ x, Run.Visits tr w x → x.store.catalog.ProjectionsFollow := by
  have hrun := replayArtifacts_run twoReleases overtaken (by
    simp only [overtaken, Run.history, List.mem_cons, List.not_mem_nil, or_false, forall_eq_or_imp,
      forall_eq]
    refine ⟨fun _ _ h => (by cases h), fun _ _ h => (by cases h), fun _ _ h => (by cases h), ?_⟩
    rintro row r h
    cases h
    decide +kernel)
  refine ⟨_, _, hrun, rfl, by decide +kernel, by decide +kernel, fun h => ?_⟩
  have hwrong : ∃ a ∈ (replayArtifacts twoReleases overtaken).store.catalog.artifacts,
      a.state = .active ∧ (Table.get LibraryProjection.chapterId
        (replayArtifacts twoReleases overtaken).store.catalog.projections a.chapterId).all
        (·.artifactId != a.id) = true := by decide +kernel
  obtain ⟨a, ha, hs, hne⟩ := hwrong
  obtain ⟨p, hp, he⟩ := h _ (.inl rfl) a ha hs
  rw [hp, Option.all_some, he] at hne
  simp at hne

/-- Without the second download the repair writes the active artifact. -/
theorem artifacts_follow_repair : ∃ tr w, Run ArtifactStep twoReleases tr w ∧
    w.store.rewrites ≠ [] ∧ w.store.catalog.ProjectionsFollow := by
  let calls : List (ArtifactCall × Time) :=
    [(.activate (downloaded 1 "asura" "x"), 0), (.snapshot 1, 1),
      (.repairOne staleChapter rewrittenArchive, 3), (.removeUnreferencedBlob "x", 3)]
  have hrun := replayArtifacts_run twoReleases calls (by
    simp only [calls, Run.history, List.mem_cons, List.not_mem_nil, or_false, forall_eq_or_imp,
      forall_eq]
    refine ⟨fun _ _ h => (by cases h), fun _ _ h => (by cases h), ?_, fun _ _ h => (by cases h)⟩
    rintro row r h
    cases h
    decide +kernel)
  refine ⟨_, _, hrun, by decide +kernel, ((artifacts_follow hrun ?_).1 _ (.inl rfl)).2.1⟩
  simp only [calls, Run.history, Run.Meets, List.mem_cons, List.not_mem_nil, or_false,
    forall_eq_or_imp, forall_eq, ArtifactCall.RepairsActive, true_and, and_true]
  decide +kernel

end MangaManager
