import MangaManager.Catalog.Plans
import MangaManager.Lib.Run

/-!
# The active artifact of a chapter

`ArtifactRepository.activate` and the end of `ChapterDownloadHandler`, which calls it
with `replace=True` for every download that completes: regular ones, those that were
rerouted to another provider, and the upgrades of `enqueue_preferred_upgrades`.

`ChapterRun` interleaves the workers with the queue, the coordinator and the
discovery of releases. `preference_kept_iff`: along a run the rank of the active
artifact of a chapter never falls exactly when no download completes with a lower
one. An upgrade is compared with the artifact when it is enqueued, not when it is
activated.
-/

namespace MangaManager

open Lib

/-- What the storage returns for a stored chapter. -/
structure StoredBlob where
  checksum : String
  relativePath : String
  byteCount : Nat
  imageCount : Nat
  deriving DecidableEq

inductive ActivationStatus where
  | duplicate
  | conflict
  | activated
  deriving DecidableEq, Repr

structure ActivationResult where
  status : ActivationStatus
  artifactId : Nat
  projectionRelativePath : String
  deriving DecidableEq

/-- The keyword arguments of `activate`. -/
structure ActivateArgs where
  chapterId : Nat
  chapterReleaseId : Option Nat
  blob : StoredBlob
  projectionRelativePath : String
  provenance : String
  source : String := ""
  qualityRank : Int := 0
  replace : Bool := false

namespace Catalog

variable (c : Catalog) (a : ActivateArgs) (now : Time)

def putArtifact (artifact : ChapterArtifact) : Catalog :=
  { c with artifacts := Table.put ChapterArtifact.id c.artifacts artifact }

/-- `_upsert_projection`. -/
def upsertProjection (chapterId artifactId : Nat) (relativePath : String) : Catalog :=
  let projection : LibraryProjection := ⟨chapterId, artifactId, relativePath, now⟩
  { c with
    projections := if c.projections.any (·.chapterId == chapterId) then
        Table.put LibraryProjection.chapterId c.projections projection
      else c.projections ++ [projection] }

/-- The row of a new artifact. -/
def newArtifact (state : ArtifactState) : ChapterArtifact :=
  { id := c.nextArtifact, chapterId := a.chapterId, chapterReleaseId := a.chapterReleaseId
    blobChecksum := a.blob.checksum, state := state, provenance := a.provenance
    source := a.source, qualityRank := a.qualityRank, imageCount := a.blob.imageCount }

def addArtifact (state : ArtifactState) : Catalog :=
  { c with artifacts := c.artifacts ++ [c.newArtifact a state], nextArtifact := c.nextArtifact + 1 }

/-- The row of the blob, inserted when it is missing. -/
def addBlob : Catalog :=
  if c.blobs.any (·.checksum == a.blob.checksum) then c
  else { c with blobs := c.blobs ++ [⟨a.blob.checksum, a.blob.relativePath, a.blob.byteCount⟩] }

/-- The active artifact that was stored again. -/
def refreshed (active : ChapterArtifact) : ChapterArtifact :=
  { active with
    chapterReleaseId := a.chapterReleaseId.or active.chapterReleaseId
    source := if a.source = "" then active.source else a.source
    qualityRank := max active.qualityRank a.qualityRank }

/-- The active artifact that another one replaces. -/
def deactivated (active : ChapterArtifact) : ChapterArtifact :=
  { active with state := .inactive, deactivatedAt := some now }

/-- A new active artifact, and its projection. -/
def activateNew : Catalog × ActivationResult :=
  let c' := (c.addArtifact a .active).upsertProjection now a.chapterId c.nextArtifact
    a.projectionRelativePath
  (c', ⟨.activated, c.nextArtifact, a.projectionRelativePath⟩)

/-- `activate`. -/
def activate : Catalog × ActivationResult :=
  let c := c.addBlob a
  match c.activeArtifact a.chapterId with
  | none => c.activateNew a now
  | some active =>
    if active.blobChecksum = a.blob.checksum then
      ((c.putArtifact (refreshed a active)).upsertProjection now a.chapterId active.id
        a.projectionRelativePath, ⟨.duplicate, active.id, a.projectionRelativePath⟩)
    else if a.replace = false then
      (c.addArtifact a .quarantined, ⟨.conflict, c.nextArtifact, a.projectionRelativePath⟩)
    else
      (c.putArtifact (deactivated now active)).activateNew a now

end Catalog

/-! ## The chapter handler -/

/-- What `load_snapshot` reads of a release. -/
structure ChapterSnapshot extends DownloadSnapshot where
  qualityRank : Int
  deriving DecidableEq

/-- A chapter handler at work on a lease. -/
structure RunningDownload where
  jobId : Nat
  dedupeKey : String
  snapshot : ChapterSnapshot
  deriving DecidableEq

namespace RunningDownload

variable (d : RunningDownload) (c : Catalog)

def isUpgrade : Bool := hasPrefix "upgrade:" d.dedupeKey

def isFallback : Bool := c.attempts.any fun t =>
  t.chapterReleaseId == d.snapshot.releaseId && t.jobId == d.jobId && t.outcome == .fallbackQueued

/-- The arguments with which the handler activates what it stored. -/
def activation (blob : StoredBlob) (projection : String) : ActivateArgs :=
  { chapterId := d.snapshot.chapterId, chapterReleaseId := some d.snapshot.releaseId, blob := blob
    projectionRelativePath := projection
    provenance := if d.isUpgrade then "upgrade" else if d.isFallback c then "fallback"
      else "download"
    source := d.snapshot.source, qualityRank := d.snapshot.qualityRank, replace := true }

/-- The last transaction of the handler, up to the repair it requests and the plan it
reconciles. -/
def complete (blob : StoredBlob) (projection : String) (now : Time) : Catalog :=
  let (c', result) := c.activate (d.activation c blob projection) now
  { c' with
    attempts := c'.attempts ++
      [{ chapterId := d.snapshot.chapterId, chapterReleaseId := d.snapshot.releaseId
         jobId := d.jobId, source := d.snapshot.source
         outcome := if d.isUpgrade then .upgraded else if d.isFallback c then .fallbackSucceeded
           else .succeeded
         details := .artifact result.artifactId }] }

end RunningDownload

/-- The catalog and the handlers at work. -/
structure ChapterWork where
  catalog : Catalog := {}
  running : List RunningDownload := []
  deriving DecidableEq

/-- The work of a handler that starts on a leased job. -/
def Catalog.startDownload (c : Catalog) (jobId : Nat) : Option RunningDownload :=
  match c.queue.job? jobId with
  | none => none
  | some job =>
    match job.payload with
    | .chapterDownload payload =>
      match c.downloads.release? payload.chapterReleaseId with
      | some release =>
        if job.status = .leased then
          some ⟨job.id, job.dedupeKey,
            ⟨⟨release.id, release.chapterId, release.source⟩, release.qualityRank⟩⟩
        else none
      | none => none
    | _ => none

/-- A call of the queue, of the coordinator or of a handler, or the discovery of chapters and
releases. The library repair and the plan a completed download concerns are further calls. -/
inductive ChapterCall where
  | call (op : Op)
  | discover (chapters : List CatalogChapter) (releases : List ReleaseRow)
  | reconcile (window seriesId : Nat)
  | upgrade (seriesIds : List Nat)
  | bypass (source : String) (retryAfter : Time)
  | reroute (jobId : Nat) (snapshot : DownloadSnapshot) (code message : String) (retryAt : Time)
  | start (jobId : Nat)
  | complete (d : RunningDownload) (blob : StoredBlob) (projection : String)

namespace ChapterCall

/-- The tables after a call that may raise. -/
def kept {ε α : Type} (c : Catalog) (f : α → Catalog) : Except ε α → Catalog
  | .ok r => f r
  | .error _ => c

def applyCatalog (l : ChapterCall) (c : Catalog) (now : Time) : Catalog :=
  match l with
  | call op => { c with queue := op.apply c.queue now }
  | discover chapters releases => { c with chapters := chapters, releases := releases }
  | reconcile window seriesId => kept c id (c.reconcile now window seriesId)
  | upgrade seriesIds => kept c Prod.fst (c.enqueuePreferredUpgrades now seriesIds)
  | bypass source retryAfter => kept c Prod.fst (c.bypassCoolingSource now source retryAfter)
  | reroute jobId snapshot code message retryAt =>
    kept c (fun r => c.withDownloads r.1)
      (c.downloads.handlerReroute jobId snapshot code message retryAt now)
  | start _ => c
  | complete d blob projection => d.complete c blob projection now

def apply (l : ChapterCall) (w : ChapterWork) (now : Time) : ChapterWork :=
  match l with
  | start jobId => { w with running := w.running ++ (w.catalog.startDownload jobId).toList }
  | complete d _ _ =>
    if d ∈ w.running then ⟨l.applyCatalog w.catalog now, w.running.erase d⟩ else w
  | _ => { w with catalog := l.applyCatalog w.catalog now }

/-- The download that completes is no worse than the active artifact of its chapter; stored again,
it is of a provider that is no worse. -/
def KeepsPreference (l : ChapterCall) (w : ChapterWork) : Prop :=
  match l with
  | complete d blob _ => d ∈ w.running → ∀ a ∈ w.catalog.activeArtifact d.snapshot.chapterId,
      if a.blobChecksum = blob.checksum then
        d.snapshot.source = "" ∨ sourcePriority a.source ≤ sourcePriority d.snapshot.source
      else a.rank ≤ sourceRank d.snapshot.source d.snapshot.qualityRank
  | _ => True

instance (l : ChapterCall) (w : ChapterWork) : Decidable (l.KeepsPreference w) :=
  match l with
  | complete d blob _ => inferInstanceAs (Decidable (d ∈ w.running →
      ∀ a ∈ w.catalog.activeArtifact d.snapshot.chapterId,
        if a.blobChecksum = blob.checksum then
          d.snapshot.source = "" ∨ sourcePriority a.source ≤ sourcePriority d.snapshot.source
        else a.rank ≤ sourceRank d.snapshot.source d.snapshot.qualityRank))
  | call _ | discover _ _ | reconcile _ _ | upgrade _ | bypass _ _ | reroute _ _ _ _ _ | start _ =>
    isTrue trivial

end ChapterCall

/-- A call at some time. -/
def ChapterStep (w : ChapterWork) (l : ChapterCall × Time) (w' : ChapterWork) : Prop :=
  w' = l.1.apply w l.2

/-- A run from the empty catalog. -/
abbrev ChapterRun := Run ChapterStep {}

/-- The active artifact of each chapter is replaced by one of its rank or a higher one. -/
def PreferenceKept (w w' : ChapterWork) : Prop :=
  ∀ chapterId a, w.catalog.activeArtifact chapterId = some a →
    ∃ a', w'.catalog.activeArtifact chapterId = some a' ∧ a.rank ≤ a'.rank

/-! ## Activation -/

namespace Catalog

/-- Artifacts have distinct ids of the sequence, and a chapter has at most one active one
(`uq_chapter_artifact_active`). -/
structure ArtifactsOk (c : Catalog) : Prop where
  keyed : Table.Keyed ChapterArtifact.id c.artifacts
  below : ∀ a ∈ c.artifacts, a.id < c.nextArtifact
  oneActive : ∀ a ∈ c.artifacts, ∀ b ∈ c.artifacts, a.state = .active → b.state = .active →
    a.chapterId = b.chapterId → a = b

section
variable {c c' : Catalog} {x : ChapterArtifact} {args : ActivateArgs} {now : Time}
  {chapterId : Nat}

theorem activeArtifact_some (h : c.activeArtifact chapterId = some x) :
    x ∈ c.artifacts ∧ x.chapterId = chapterId ∧ x.state = .active := by
  have hp := List.find?_some h
  simp only [Bool.and_eq_true, beq_iff_eq] at hp
  exact ⟨List.mem_of_find?_eq_some h, hp⟩

theorem activeArtifact_none :
    c.activeArtifact chapterId = none ↔
      ∀ a ∈ c.artifacts, a.chapterId = chapterId → a.state ≠ .active := by
  simp [activeArtifact, List.find?_eq_none]

theorem ArtifactsOk.activeArtifact_eq (h : c.ArtifactsOk) (hx : x ∈ c.artifacts)
    (ha : x.state = .active) : c.activeArtifact x.chapterId = some x := by
  cases he : c.activeArtifact x.chapterId with
  | none => exact absurd ha (activeArtifact_none.mp he x hx rfl)
  | some y =>
    obtain ⟨hy, hc, hs⟩ := activeArtifact_some he
    rw [h.oneActive y hy x hx hs ha hc]

/-- The active artifact of a chapter depends on its active rows only. -/
theorem activeArtifact_congr (h' : c'.ArtifactsOk)
    (hrows : ∀ a, a.chapterId = chapterId → a.state = .active →
      (a ∈ c'.artifacts ↔ a ∈ c.artifacts)) :
    c'.activeArtifact chapterId = c.activeArtifact chapterId := by
  cases he : c.activeArtifact chapterId with
  | none =>
    refine activeArtifact_none.mpr fun a ha hk hs => ?_
    exact activeArtifact_none.mp he a ((hrows a hk hs).mp ha) hk hs
  | some x =>
    obtain ⟨hx, rfl, hs⟩ := activeArtifact_some he
    exact h'.activeArtifact_eq ((hrows x rfl hs).mpr hx) hs

/-- Rewriting a row in place, when an active row stays the only one of its chapter. -/
theorem ArtifactsOk.put (h : c.ArtifactsOk) (hx : x ∈ c.artifacts) {y : ChapterArtifact}
    (hid : y.id = x.id) (hchapter : y.chapterId = x.chapterId)
    (hs : y.state = .active → x.state = .active) : (c.putArtifact y).ArtifactsOk := by
  refine ⟨Table.keyed_put.mpr h.keyed, fun a ha => ?_, fun a ha b hb hsa hsb hab => ?_⟩
  · rcases Table.mem_put.mp ha with ⟨rfl, -⟩ | ⟨ha, -⟩
    · exact hid ▸ h.below x hx
    · exact h.below a ha
  · rcases Table.mem_put.mp ha with ⟨ha', -⟩ | ⟨hma, hane⟩ <;>
      rcases Table.mem_put.mp hb with ⟨hb', -⟩ | ⟨hmb, hbne⟩
    · rw [ha', hb']
    · subst ha'
      have he := h.oneActive x hx b hmb (hs hsa) hsb (hchapter ▸ hab)
      exact absurd (he ▸ hid.symm) hbne
    · subst hb'
      have he := h.oneActive a hma x hx hsa (hs hsb) (hab.trans hchapter)
      exact absurd (he ▸ hid.symm) hane
    · exact h.oneActive a hma b hmb hsa hsb hab

/-- A new artifact, active only where its chapter has no active one. -/
theorem ArtifactsOk.add (h : c.ArtifactsOk) {state : ArtifactState}
    (hfree : state = .active → c.activeArtifact args.chapterId = none) :
    (c.addArtifact args state).ArtifactsOk := by
  have hnone : ∀ a ∈ c.artifacts, state = .active → a.state = .active →
      a.chapterId ≠ args.chapterId := by
    intro a ha hs hsa hk
    exact activeArtifact_none.mp (hfree hs) a ha hk hsa
  refine ⟨?_, fun a ha => ?_, fun a ha b hb hsa hsb hab => ?_⟩
  · unfold Table.Keyed addArtifact
    rw [List.map_append, List.nodup_append]
    refine ⟨h.keyed, by simp, ?_⟩
    rintro id hid id' hid' rfl
    obtain ⟨a, ha, rfl⟩ := List.mem_map.mp hid
    have hlt := h.below a ha
    simp only [newArtifact, List.map_cons, List.map_nil, List.mem_singleton] at hid'
    omega
  · rcases List.mem_append.mp ha with ha | ha
    · exact (h.below a ha).trans (Nat.lt_succ_self _)
    · rw [List.mem_singleton.mp ha]
      exact Nat.lt_succ_self _
  · rcases List.mem_append.mp ha with ha | ha <;> rcases List.mem_append.mp hb with hb | hb
    · exact h.oneActive a ha b hb hsa hsb hab
    · obtain rfl := List.mem_singleton.mp hb
      exact absurd hab (hnone a ha hsb hsa)
    · obtain rfl := List.mem_singleton.mp ha
      exact absurd hab.symm (hnone b hb hsa hsb)
    · rw [List.mem_singleton.mp ha, List.mem_singleton.mp hb]

/-- The artifact that is put aside is active no more. -/
theorem ArtifactsOk.putAside (h : c.ArtifactsOk) (hx : c.activeArtifact chapterId = some x)
    (now : Time) : (c.putArtifact (deactivated now x)).ArtifactsOk ∧
      (c.putArtifact (deactivated now x)).activeArtifact chapterId = none := by
  obtain ⟨hmem, rfl, hs⟩ := activeArtifact_some hx
  refine ⟨h.put hmem rfl rfl (fun he => by cases he), activeArtifact_none.mpr fun a ha hk hsa => ?_⟩
  rcases Table.mem_put.mp ha with ⟨rfl, -⟩ | ⟨ha, hne⟩
  · cases hsa
  · have he := h.oneActive a ha x hmem hsa hs hk
    exact hne (he ▸ rfl)

theorem SameLibrary.artifactsOk (h : SameLibrary c c') (hc : c.ArtifactsOk) : c'.ArtifactsOk := by
  refine ⟨?_, ?_, ?_⟩
  · rw [h.artifacts]
    exact hc.keyed
  · rw [h.artifacts, h.nextArtifact]
    exact hc.below
  · rw [h.artifacts]
    exact hc.oneActive

/-- What `activate` does to the artifacts when it replaces. -/
theorem activate_library (hr : args.replace = true) (now : Time) :
    SameLibrary
      (match c.activeArtifact args.chapterId with
      | none => c.addArtifact args .active
      | some old =>
        if old.blobChecksum = args.blob.checksum then c.putArtifact (refreshed args old)
        else (c.putArtifact (deactivated now old)).addArtifact args .active)
      (c.activate args now).1 := by
  have hblob : SameLibrary c (c.addBlob args) := by
    unfold addBlob
    split
    · exact .refl
    · exact ⟨rfl, rfl, rfl, rfl⟩
  unfold activate
  dsimp only
  rw [hblob.activeArtifact]
  have hadd : ∀ d d' : Catalog, SameLibrary d d' →
      SameLibrary (d.addArtifact args .active) (d'.activateNew args now).1 := by
    intro d d' hd
    refine ⟨hd.identities, hd.chapters, ?_, congrArg (· + 1) hd.nextArtifact⟩
    simp [activateNew, upsertProjection, addArtifact, newArtifact, hd.artifacts, hd.nextArtifact]
  have hput : ∀ y, SameLibrary (c.putArtifact y) ((c.addBlob args).putArtifact y) := by
    intro y
    exact ⟨hblob.identities, hblob.chapters, congrArg (Table.put ChapterArtifact.id · y) hblob.artifacts,
      hblob.nextArtifact⟩
  cases c.activeArtifact args.chapterId with
  | none => exact hadd _ _ hblob
  | some old =>
    dsimp only
    split
    · exact (hput _).trans ⟨rfl, rfl, rfl, rfl⟩
    · rw [if_neg (by simp [hr])]
      exact hadd _ _ (hput _)

/-- The new artifact is the active one of its chapter, the other chapters keep theirs. -/
theorem ArtifactsOk.activate_add (h : c.ArtifactsOk)
    (hfree : c.activeArtifact args.chapterId = none) :
    (c.addArtifact args .active).activeArtifact args.chapterId =
        some (c.newArtifact args .active) ∧
      ∀ k, k ≠ args.chapterId →
        (c.addArtifact args .active).activeArtifact k = c.activeArtifact k := by
  have hok : (c.addArtifact args .active).ArtifactsOk := h.add fun _ => hfree
  have hmem : c.newArtifact args .active ∈ (c.addArtifact args .active).artifacts :=
    List.mem_append_right _ (List.mem_singleton.mpr rfl)
  refine ⟨hok.activeArtifact_eq hmem rfl, fun k hk => ?_⟩
  refine activeArtifact_congr hok fun a ha _ => ?_
  simp only [addArtifact, List.mem_append, List.mem_singleton, or_iff_left_iff_imp]
  rintro rfl
  exact absurd ha.symm hk

/-- Rewriting a row changes the active artifact of its chapter only. -/
theorem ArtifactsOk.put_other (hx : x ∈ c.artifacts) {y : ChapterArtifact}
    (hok : (c.putArtifact y).ArtifactsOk) (h : c.ArtifactsOk) (hid : y.id = x.id)
    (hchapter : y.chapterId = x.chapterId) {k : Nat} (hk : k ≠ x.chapterId) :
    (c.putArtifact y).activeArtifact k = c.activeArtifact k := by
  refine activeArtifact_congr hok fun a ha _ => ?_
  constructor
  · intro hm
    rcases Table.mem_put.mp hm with ⟨rfl, -⟩ | ⟨hm, -⟩
    · exact absurd (ha.symm.trans hchapter) hk
    · exact hm
  · intro hm
    refine Table.mem_put_of_ne hm fun he => ?_
    have hax := h.keyed.eq hm hx (he.trans hid)
    exact hk (ha.symm.trans (congrArg ChapterArtifact.chapterId hax))

/-- An activation that replaces: the chapter has the stored artifact, the others keep theirs. -/
theorem ArtifactsOk.activate (h : c.ArtifactsOk) (args : ActivateArgs) (hr : args.replace = true)
    (now : Time) :
    (c.activate args now).1.ArtifactsOk ∧
      (∀ k, k ≠ args.chapterId →
        (c.activate args now).1.activeArtifact k = c.activeArtifact k) ∧
      ∃ a', (c.activate args now).1.activeArtifact args.chapterId = some a' ∧
        ∀ old, c.activeArtifact args.chapterId = some old →
          a'.rank = if old.blobChecksum = args.blob.checksum then (refreshed args old).rank
            else sourceRank args.source args.qualityRank := by
  have hlib := activate_library (c := c) hr now
  cases ho : c.activeArtifact args.chapterId with
  | none =>
    rw [ho] at hlib
    dsimp only at hlib
    obtain ⟨hself, hother⟩ := h.activate_add ho
    refine ⟨hlib.artifactsOk (h.add fun _ => ho), fun k hk => ?_, c.newArtifact args .active, ?_,
      fun old hold => ?_⟩
    · rw [hlib.activeArtifact, hother k hk]
    · rw [hlib.activeArtifact, hself]
    · cases hold
  | some old =>
    rw [ho] at hlib
    obtain ⟨hmem, hchapter, hs⟩ := activeArtifact_some ho
    dsimp only at hlib
    by_cases hsame : old.blobChecksum = args.blob.checksum
    · rw [if_pos hsame] at hlib
      have hok : (c.putArtifact (refreshed args old)).ArtifactsOk := h.put hmem rfl rfl fun _ => hs
      refine ⟨hlib.artifactsOk hok, fun k hk => ?_, refreshed args old, ?_, fun old' hold => ?_⟩
      · rw [hlib.activeArtifact, put_other hmem hok h rfl rfl (hchapter ▸ hk)]
      · rw [hlib.activeArtifact, ← hchapter]
        exact hok.activeArtifact_eq (Table.mem_put_self hmem rfl) hs
      · cases hold
        rw [if_pos hsame]
    · rw [if_neg hsame] at hlib
      obtain ⟨hok, hfree⟩ := h.putAside ho now
      obtain ⟨hself, hother⟩ := hok.activate_add hfree
      refine ⟨hlib.artifactsOk (hok.add fun _ => hfree), fun k hk => ?_,
        (c.putArtifact (deactivated now old)).newArtifact args .active, ?_, fun old' hold => ?_⟩
      · rw [hlib.activeArtifact, hother k hk, put_other hmem hok h rfl rfl (hchapter ▸ hk)]
      · rw [hlib.activeArtifact, hself]
      · cases hold
        rw [if_neg hsame]
        rfl

end

end Catalog

/-! ## Calls -/

/-- Stored again, an artifact keeps its rank when its provider is no worse. -/
theorem refreshed_rank_iff {old : ChapterArtifact} {args : ActivateArgs} :
    old.rank ≤ (Catalog.refreshed args old).rank ↔
      args.source = "" ∨ sourcePriority old.source ≤ sourcePriority args.source := by
  have hq : old.qualityRank ≤ max old.qualityRank args.qualityRank := by omega
  unfold ChapterArtifact.rank sourceRank Catalog.refreshed
  by_cases hs : args.source = ""
  · simp only [hs, if_true, true_or, iff_true]
    exact Prod.Lex.le_iff.mpr (.inr ⟨rfl, hq⟩)
  · simp only [hs, if_false, false_or]
    constructor
    · intro hle
      rcases Prod.Lex.le_iff.mp hle with hlt | ⟨heq, -⟩
      · exact hlt.le
      · exact heq.le
    · intro hle
      rcases hle.lt_or_eq with hlt | heq
      · exact Prod.Lex.le_iff.mpr (.inl hlt)
      · exact Prod.Lex.le_iff.mpr (.inr ⟨heq, hq⟩)

section
variable {w w' : ChapterWork} {l : ChapterCall} {now : Time}

theorem PreferenceKept.trans {w'' : ChapterWork} (h₁ : PreferenceKept w w')
    (h₂ : PreferenceKept w' w'') : PreferenceKept w w'' := by
  intro k a ha
  obtain ⟨a', ha', hle⟩ := h₁ k a ha
  obtain ⟨a'', ha'', hle'⟩ := h₂ k a' ha'
  exact ⟨a'', ha'', hle.trans hle'⟩

/-- Only a download that completes writes artifacts. -/
theorem ChapterCall.applyCatalog_artifacts (l : ChapterCall) (c : Catalog) (now : Time)
    (hl : ∀ d blob projection, l ≠ .complete d blob projection) :
    (l.applyCatalog c now).artifacts = c.artifacts ∧
      (l.applyCatalog c now).nextArtifact = c.nextArtifact := by
  have hkept : ∀ {ε α : Type} (r : Except ε α) (f : α → Catalog),
      (∀ x, r = .ok x → Catalog.SameLibrary c (f x)) →
        (kept c f r).artifacts = c.artifacts ∧ (kept c f r).nextArtifact = c.nextArtifact := by
    intro ε α r f h
    cases r with
    | error e => exact ⟨rfl, rfl⟩
    | ok x => exact ⟨(h x rfl).artifacts, (h x rfl).nextArtifact⟩
  cases l with
  | call => exact ⟨rfl, rfl⟩
  | discover => exact ⟨rfl, rfl⟩
  | reconcile => exact hkept _ _ fun _ => Catalog.reconcile_library
  | upgrade => exact hkept _ _ fun _ => Catalog.enqueuePreferredUpgrades_library
  | bypass => exact hkept _ _ fun _ => Catalog.bypassCoolingSource_library
  | reroute => exact hkept _ _ fun _ _ => ⟨rfl, rfl, rfl, rfl⟩
  | start => exact ⟨rfl, rfl⟩
  | complete d blob projection => exact absurd rfl (hl d blob projection)

/-- The catalog changes by `applyCatalog`, unless the download that completes was not at work. -/
theorem ChapterCall.apply_catalog (l : ChapterCall) (w : ChapterWork) (now : Time) :
    (l.apply w now).catalog = l.applyCatalog w.catalog now ∨
    ((l.apply w now).catalog = w.catalog ∧ ∃ d blob projection,
      l = .complete d blob projection ∧ d ∉ w.running) := by
  cases l with
  | complete d blob projection =>
    simp only [apply]
    split
    · exact .inl rfl
    · rename_i h
      exact .inr ⟨rfl, d, blob, projection, rfl, h⟩
  | _ => exact .inl rfl

theorem ChapterCall.apply_artifactsOk (h : w.catalog.ArtifactsOk) :
    (l.apply w now).catalog.ArtifactsOk := by
  rcases l.apply_catalog w now with he | ⟨he, -⟩
  · rw [he]
    by_cases hl : ∃ d blob projection, l = .complete d blob projection
    · obtain ⟨d, blob, projection, rfl⟩ := hl
      have hact := (h.activate (d.activation w.catalog blob projection) rfl now).1
      have hsame : Catalog.SameLibrary
          (w.catalog.activate (d.activation w.catalog blob projection) now).1
          (d.complete w.catalog blob projection now) := ⟨rfl, rfl, rfl, rfl⟩
      exact hsame.artifactsOk hact
    · obtain ⟨ha, hn⟩ := l.applyCatalog_artifacts w.catalog now
        fun d blob projection he => hl ⟨d, blob, projection, he⟩
      refine ⟨?_, ?_, ?_⟩
      · exact ha ▸ h.keyed
      · rw [ha, hn]
        exact h.below
      · rw [ha]
        exact h.oneActive
  · exact he ▸ h

/-- A call keeps the ranks exactly when it meets the condition. -/
theorem ChapterCall.preferenceKept_iff (h : w.catalog.ArtifactsOk) :
    PreferenceKept w (l.apply w now) ↔ l.KeepsPreference w := by
  by_cases hl : ∃ d blob projection, l = .complete d blob projection
  · obtain ⟨d, blob, projection, rfl⟩ := hl
    by_cases hd : d ∈ w.running
    · have hcat : ((ChapterCall.complete d blob projection).apply w now).catalog =
          d.complete w.catalog blob projection now := by
        simp only [apply, if_pos hd, applyCatalog]
      obtain ⟨-, hother, a', ha', hrank⟩ :=
        h.activate (d.activation w.catalog blob projection) rfl now
      -- the attempt the handler records is no artifact
      have hsame : ∀ k, ((ChapterCall.complete d blob projection).apply w now
          ).catalog.activeArtifact k =
          (w.catalog.activate (d.activation w.catalog blob projection) now).1.activeArtifact k := by
        intro k
        rw [hcat]
        rfl
      have hiff : ∀ a, w.catalog.activeArtifact d.snapshot.chapterId = some a →
          (a.rank ≤ a'.rank ↔ if a.blobChecksum = blob.checksum then
              d.snapshot.source = "" ∨ sourcePriority a.source ≤ sourcePriority d.snapshot.source
            else a.rank ≤ sourceRank d.snapshot.source d.snapshot.qualityRank) := by
        intro a ha
        rw [hrank a ha]
        by_cases hb : a.blobChecksum = blob.checksum
        · rw [if_pos hb, if_pos (show a.blobChecksum =
            (d.activation w.catalog blob projection).blob.checksum from hb)]
          exact refreshed_rank_iff
        · rw [if_neg hb, if_neg (show ¬ a.blobChecksum =
            (d.activation w.catalog blob projection).blob.checksum from hb)]
          rfl
      constructor
      · intro hk _ a ha
        obtain ⟨b, hb, hle⟩ := hk _ a ha
        rw [hsame] at hb
        obtain rfl := Option.some.inj (ha'.symm.trans hb)
        exact (hiff a ha).mp hle
      · intro hk k a ha
        by_cases hkc : k = d.snapshot.chapterId
        · subst hkc
          exact ⟨a', (hsame _).trans ha', (hiff a ha).mpr (hk hd a ha)⟩
        · exact ⟨a, (hsame k).trans ((hother k hkc).trans ha), le_rfl⟩
    · have hcat : (ChapterCall.complete d blob projection).apply w now = w := by
        simp only [apply, if_neg hd]
      rw [hcat]
      exact iff_of_true (fun k a ha => ⟨a, ha, le_rfl⟩) fun hd' => absurd hd' hd
  · have hno : ∀ d blob projection, l ≠ .complete d blob projection :=
      fun d blob projection he => hl ⟨d, blob, projection, he⟩
    obtain ⟨ha, -⟩ := l.applyCatalog_artifacts w.catalog now hno
    have hcat := (l.apply_catalog w now).resolve_right
      fun ⟨_, d, blob, projection, he, _⟩ => hno d blob projection he
    have hkept : PreferenceKept w (l.apply w now) := by
      intro k a hk
      refine ⟨a, ?_, le_rfl⟩
      rw [hcat, Catalog.activeArtifact, ha]
      exact hk
    refine iff_of_true hkept ?_
    cases l with
    | complete d blob projection => exact absurd rfl (hno d blob projection)
    | _ => trivial

end

/-! ## Runs -/

section
variable {tr : List (ChapterWork × (ChapterCall × Time))} {w : ChapterWork}

def ChapterWork.call (w : ChapterWork) (l : ChapterCall × Time) : ChapterWork := l.1.apply w l.2

/-- The calls made one after the other. -/
theorem ChapterRun.calls (calls : List (ChapterCall × Time)) :
    ChapterRun (Run.history ChapterWork.call {} calls) (calls.foldl ChapterWork.call {}) :=
  Run.of_foldl _ calls fun _ _ => rfl

/-- A release of the chapter `7`, with the number of its provider in the order of preference. -/
def releaseOf (id : Nat) (source : String) (h : 0 < id := by decide) : ReleaseRow :=
  { id := id, id_pos := h, chapterId := 7, source := source, sourceSeriesId := id
    sourceReleaseId := "1" }

def mangafireDownload : RunningDownload := ⟨1, "chapter:7", ⟨⟨1, 7, "mangafire"⟩, 0⟩⟩

def mangadexUpgrade : RunningDownload := ⟨2, "upgrade:7:2", ⟨⟨2, 7, "mangadex"⟩, 0⟩⟩

def asuraUpgrade : RunningDownload := ⟨3, "upgrade:7:3", ⟨⟨3, 7, "asura"⟩, 0⟩⟩

def claimCall (owner : String) : ChapterCall × Time :=
  (.call (.claim {} { owner := owner, leaseFor := 1000 }), 0)

def completeCall (d : RunningDownload) (checksum : String) : ChapterCall × Time :=
  (.complete d ⟨checksum, checksum, 1, 1⟩ "7.cbz", 0)

/-- A chapter is downloaded from `mangafire`; then `mangadex` has it, and then `asura`. -/
def upgradeCalls : List (ChapterCall × Time) :=
  let chapters : List CatalogChapter :=
    [{ id := 7, seriesId := 1, canonicalNumber := "1", createdAt := 0 }]
  let releases := [releaseOf 1 "mangafire", releaseOf 2 "mangadex", releaseOf 3 "asura"]
  let regular : EnqueueArgs :=
    { kind := .chapterDownload, dedupeKey := "chapter:7", source := "mangafire", seriesKey := "1"
      payload := .chapterDownload { chapterReleaseId := 1 } }
  [(.discover chapters (releases.take 1), 0), (.call (.enqueue regular), 0), claimCall "a",
    (.start 1, 0), completeCall mangafireDownload "a", (.call (.succeed 1 "a"), 0),
    (.discover chapters (releases.take 2), 0), (.upgrade [1], 0),
    (.discover chapters releases, 0), (.upgrade [1], 0), claimCall "b", claimCall "c",
    (.start 2, 0), (.start 3, 0)]

end

end MangaManager
