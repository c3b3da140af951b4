import Mathlib.Data.List.Perm.Basic
import MangaManager.Domain.Catalog
import MangaManager.Lib.Table

/-!
# Matching with Kavita

`match_series` of `manga_manager/application/kavita_sync.py` finds the series of the Kavita server
that a series of the catalog is, from the identifiers, the folder and the titles; the id of an
earlier match is a hint. `_existing_mapping` and `_await_scan` ask the server for the chapters of
the match.

`matchSeries_settles`: the answer has evidence, does not depend on the order of the server's rows,
and once it is stored it is found again.
-/

namespace MangaManager

open Lib

/-! ## What the server has -/

structure KavitaSeries where
  id : Nat
  name : String
  libraryId : Option Nat := none
  folderPath : String := ""
  malId : String := ""
  anilistId : String := ""
  deriving DecidableEq

structure KavitaChapter where
  id : Nat
  number : String
  volumeId : Option Nat := none
  pagesTotal : Int := 0
  deriving DecidableEq

/-- The root and the parts of a `PurePosixPath`: two slashes are a root of their own, and empty
parts and dots are left out. -/
def posixPath (value : String) : String × List String :=
  let slashes := (value.toList.takeWhile (· == '/')).length
  let root := if slashes = 0 then "" else if slashes = 2 then "//" else "/"
  (root, ((value.toList.splitOnP (· == '/')).map String.ofList).filter fun part =>
    part != "" && part != ".")

/-- The fields of `KavitaSnapshot` that the matching reads. -/
structure KavitaSnapshot where
  title : String
  existingKavitaId : Option Nat := none
  tracked : Bool := false
  aliases : List String := []
  externalIds : List (String × String) := []
  expectedChapters : List String := []
  deriving DecidableEq

/-! ## The evidence -/

section
variable (t : CatalogText) (s : KavitaSnapshot) (kavitaFolder : String) (c : KavitaSeries)

namespace KavitaSnapshot

def externalId (provider : String) : String := (s.externalIds.lookup provider).getD ""

def anilist : String := orText (s.externalId "anilist") (s.externalId "aniList")

def mal : String := orText (s.externalId "mal") (s.externalId "myanimelist")

/-- `same_folder`. -/
def sameFolder : Bool :=
  kavitaFolder != "" && c.folderPath != "" && posixPath c.folderPath == posixPath kavitaFolder

/-- `same_external_id`. -/
def sameExternalId : Bool :=
  (s.anilist != "" && c.anilistId == s.anilist) || (s.mal != "" && c.malId == s.mal)

/-- `same_title`. -/
def sameTitle : Bool :=
  (s.title :: s.aliases).any fun value => t.normalizeTitle c.name == t.normalizeTitle value

/-- `conflicts_with_snapshot`. -/
def conflicts : Bool :=
  (kavitaFolder != "" && c.folderPath != "" && posixPath c.folderPath != posixPath kavitaFolder) ||
    ((s.anilist != "" && c.anilistId != "" && c.anilistId != s.anilist) ||
      (s.mal != "" && c.malId != "" && c.malId != s.mal))

/-- One of the three. -/
def evidence : Bool := s.sameExternalId c || sameFolder kavitaFolder c || s.sameTitle t c

end KavitaSnapshot

end

/-! ## The only one -/

/-- The element of a list of one. -/
def sole {α : Type*} : List α → Option α
  | [a] => some a
  | _ => none

section
variable {α : Type*} {l l' : List α} {a : α} {p : α → Bool}

theorem sole_eq_some : sole l = some a ↔ l = [a] := by
  match l with
  | [] => simp [sole]
  | [b] => simp [sole]
  | b :: c :: l => simp [sole]

theorem sole_perm (h : l.Perm l') : sole l = sole l' := by
  cases hs : sole l with
  | some a =>
    rw [sole_eq_some] at hs
    subst hs
    obtain rfl := List.singleton_perm.mp h
    rfl
  | none =>
    cases hs' : sole l' with
    | none => rfl
    | some a =>
      rw [sole_eq_some] at hs'
      subst hs'
      rw [List.perm_singleton.mp h] at hs
      cases hs

theorem mem_of_sole_filter (h : sole (l.filter p) = some a) : a ∈ l ∧ p a = true := by
  rw [sole_eq_some] at h
  exact List.mem_filter.mp (h ▸ List.mem_singleton_self a)

theorem sole_filter_singleton (h : p a = true) : sole ([a].filter p) = some a := by
  rw [List.filter_cons_of_pos h]
  rfl

end

/-! ## The match -/

section
variable (t : CatalogText) (s : KavitaSnapshot) (kavitaFolder : String)

/-- The row of the stored id, unless it conflicts or has no evidence. -/
def KavitaSnapshot.byHint (candidates : List KavitaSeries) : Option KavitaSeries :=
  match s.existingKavitaId.filter (· ≠ 0) with
  | none => none
  | some id => candidates.find? fun c =>
    c.id == id && (!s.conflicts kavitaFolder c && s.evidence t kavitaFolder c)

/-- The row that is alone with an identifier, with the folder, or with a title. -/
def KavitaSnapshot.byEvidence (candidates : List KavitaSeries) : Option KavitaSeries :=
  match sole (candidates.filter s.sameExternalId) with
  | some c => some c
  | none =>
    match if kavitaFolder = "" then none
      else sole (candidates.filter (KavitaSnapshot.sameFolder kavitaFolder)) with
    | some c => some c
    | none => sole (candidates.filter (s.sameTitle t))

/-- `match_series`. -/
def matchSeries (candidates : List KavitaSeries) : Option KavitaSeries :=
  match s.byHint t kavitaFolder candidates with
  | some c => some c
  | none => s.byEvidence t kavitaFolder candidates

/-- The chapters of a tracked series that the server has to have are there. -/
def KavitaSnapshot.complete (chapters : List KavitaChapter) : Bool :=
  !s.tracked || s.expectedChapters.all fun number =>
    number ∈ chapters.map fun c => t.canonicalChapterNumber c.number

/-- `_existing_mapping`; `detail` is `series_detail`. -/
def existingMapping (candidates : List KavitaSeries) (detail : Nat → List KavitaChapter) :
    Option (KavitaSeries × List KavitaChapter) :=
  match s.existingKavitaId with
  | none => none
  | some id => match candidates.find? fun c => c.id == id with
    | none => none
    | some candidate =>
      if (matchSeries t s kavitaFolder [candidate]).isNone then none
      else if s.complete t (detail candidate.id) then some (candidate, detail candidate.id)
      else none

/-- The loop of `_await_scan`, with what the server answers each time. -/
def awaitScan : List (List KavitaSeries × (Nat → List KavitaChapter)) →
    Option (KavitaSeries × List KavitaChapter)
  | [] => none
  | (candidates, detail) :: polls => match matchSeries t s kavitaFolder candidates with
    | none => awaitScan polls
    | some c => if s.complete t (detail c.id) then some (c, detail c.id) else awaitScan polls

/-- The match of the handler: the stored one, or after a scan, for which it asks sixty times. -/
def kavitaMatch (candidates : List KavitaSeries) (detail : Nat → List KavitaChapter)
    (polls : List (List KavitaSeries × (Nat → List KavitaChapter))) :
    Option (KavitaSeries × List KavitaChapter) :=
  match existingMapping t s kavitaFolder candidates detail with
  | some m => some m
  | none => awaitScan t s kavitaFolder (polls.take 60)

end

section
variable {t : CatalogText} {s : KavitaSnapshot} {kavitaFolder : String}
  {cs cs' : List KavitaSeries} {c m : KavitaSeries} {chapters : List KavitaChapter}
  {detail : Nat → List KavitaChapter}

/-- The row of an id is the same in every order. -/
theorem find?_id_perm {p : KavitaSeries → Bool} (hids : (cs.map (·.id)).Nodup) (h : cs.Perm cs')
    {id : Nat} : (cs.find? fun c => c.id == id && p c) = cs'.find? fun c => c.id == id && p c := by
  have hids' : (cs'.map (·.id)).Nodup := (h.map _).nodup_iff.mp hids
  have hsame : ∀ l l' : List KavitaSeries, (l'.map (·.id)).Nodup → (∀ c, c ∈ l → c ∈ l') → ∀ c,
      (l.find? fun c => c.id == id && p c) = some c →
        (l'.find? fun c => c.id == id && p c) = some c := by
    intro l l' hl' hsub c hc
    have hpc := List.find?_some hc
    have hmem := hsub c (List.mem_of_find?_eq_some hc)
    cases hf : l'.find? fun c => c.id == id && p c with
    | none =>
      have hno := List.find?_eq_none.mp hf c hmem
      exact absurd hpc hno
    | some d =>
      have hpd := List.find?_some hf
      rw [Bool.and_eq_true, beq_iff_eq] at hpc hpd
      exact congrArg some (List.inj_on_of_nodup_map hl' (List.mem_of_find?_eq_some hf) hmem
        (hpd.1.trans hpc.1.symm))
  cases hc : cs.find? fun c => c.id == id && p c with
  | some c => exact (hsame cs cs' hids' (fun c => h.mem_iff.mp) c hc).symm
  | none =>
    cases hc' : cs'.find? fun c => c.id == id && p c with
    | none => rfl
    | some c =>
      rw [hsame cs' cs hids (fun c => h.mem_iff.mpr) c hc'] at hc
      cases hc

theorem KavitaSnapshot.byHint_perm (hids : (cs.map (·.id)).Nodup) (h : cs.Perm cs') :
    s.byHint t kavitaFolder cs = s.byHint t kavitaFolder cs' := by
  unfold byHint
  split
  · rfl
  · exact find?_id_perm hids h

theorem KavitaSnapshot.byEvidence_perm (h : cs.Perm cs') :
    s.byEvidence t kavitaFolder cs = s.byEvidence t kavitaFolder cs' := by
  unfold byEvidence
  rw [sole_perm (h.filter s.sameExternalId), sole_perm (h.filter (sameFolder kavitaFolder)),
    sole_perm (h.filter (s.sameTitle t))]

theorem matchSeries_perm (hids : (cs.map (·.id)).Nodup) (h : cs.Perm cs') :
    matchSeries t s kavitaFolder cs = matchSeries t s kavitaFolder cs' := by
  unfold matchSeries
  rw [KavitaSnapshot.byHint_perm hids h, KavitaSnapshot.byEvidence_perm h]

theorem KavitaSnapshot.byHint_some (h : s.byHint t kavitaFolder cs = some m) :
    m ∈ cs ∧ s.conflicts kavitaFolder m = false ∧ s.evidence t kavitaFolder m = true := by
  unfold byHint at h
  split at h
  · cases h
  · have hp := List.find?_some h
    simp only [Bool.and_eq_true, Bool.not_eq_true'] at hp
    exact ⟨List.mem_of_find?_eq_some h, hp.2⟩

theorem KavitaSnapshot.byEvidence_some (h : s.byEvidence t kavitaFolder cs = some m) :
    m ∈ cs ∧ s.evidence t kavitaFolder m = true := by
  unfold byEvidence at h
  split at h
  · rename_i c hc
    cases h
    obtain ⟨hm, he⟩ := mem_of_sole_filter hc
    exact ⟨hm, by simp [evidence, he]⟩
  split at h
  · rename_i c hc
    cases h
    split at hc
    · cases hc
    · obtain ⟨hm, he⟩ := mem_of_sole_filter hc
      exact ⟨hm, by simp [evidence, he]⟩
  · obtain ⟨hm, he⟩ := mem_of_sole_filter h
    exact ⟨hm, by simp [evidence, he]⟩

theorem matchSeries_some (h : matchSeries t s kavitaFolder cs = some m) :
    m ∈ cs ∧ s.evidence t kavitaFolder m = true := by
  unfold matchSeries at h
  split at h
  · rename_i c hc
    cases h
    obtain ⟨hm, -, he⟩ := KavitaSnapshot.byHint_some hc
    exact ⟨hm, he⟩
  · exact KavitaSnapshot.byEvidence_some h

/-- A row with evidence is found among itself. -/
theorem matchSeries_singleton (h : s.evidence t kavitaFolder m = true) :
    matchSeries t s kavitaFolder [m] = some m := by
  unfold matchSeries
  split
  · rename_i c hc
    obtain ⟨hm, -⟩ := KavitaSnapshot.byHint_some hc
    rw [List.mem_singleton.mp hm]
  · unfold KavitaSnapshot.byEvidence
    by_cases hext : s.sameExternalId m = true
    · rw [sole_filter_singleton hext]
    · rw [List.filter_cons_of_neg hext]
      by_cases hfolder : KavitaSnapshot.sameFolder kavitaFolder m = true
      · have hne : kavitaFolder ≠ "" := by
          intro he
          simp [KavitaSnapshot.sameFolder, he] at hfolder
        rw [if_neg hne, sole_filter_singleton hfolder]
        rfl
      · have htitle : s.sameTitle t m = true := by
          simpa [KavitaSnapshot.evidence, hext, hfolder] using h
        rw [List.filter_cons_of_neg hfolder, sole_filter_singleton htitle]
        by_cases he : kavitaFolder = ""
        · rw [if_pos he]
          rfl
        · rw [if_neg he]
          rfl

/-- The stored id of a match leads to the match. -/
theorem matchSeries_stored (hids : (cs.map (·.id)).Nodup)
    (h : matchSeries t s kavitaFolder cs = some m) :
    matchSeries t { s with existingKavitaId := some m.id } kavitaFolder cs = some m := by
  obtain ⟨hm, he⟩ := matchSeries_some h
  unfold matchSeries
  cases hhint :
      KavitaSnapshot.byHint t { s with existingKavitaId := some m.id } kavitaFolder cs with
  | some c =>
    -- the row of the id is the match
    unfold KavitaSnapshot.byHint at hhint
    split at hhint
    · cases hhint
    · rename_i id hid
      have hp := List.find?_some hhint
      have hc := List.mem_of_find?_eq_some hhint
      rw [Bool.and_eq_true, beq_iff_eq] at hp
      have hid' : m.id = id := by
        have := Option.filter_eq_some_iff.mp hid
        exact Option.some.inj this.1
      rw [List.inj_on_of_nodup_map hids hc hm (hp.1.trans hid'.symm)]
  | none =>
    -- neither does the hint of the earlier match find another row
    unfold matchSeries at h
    split at h
    · rename_i c hc
      cases h
      obtain ⟨-, hno, -⟩ := KavitaSnapshot.byHint_some hc
      unfold KavitaSnapshot.byHint at hc hhint
      split at hc
      · cases hc
      · rename_i id hid
        have hp := List.find?_some hc
        rw [Bool.and_eq_true, beq_iff_eq] at hp
        have hne : id ≠ 0 := by simpa using (Option.filter_eq_some_iff.mp hid).2
        have hsome : (some m.id).filter (fun x => decide (x ≠ 0)) = some m.id := by
          rw [Option.filter_some, if_pos]
          simpa [hp.1] using hne
        dsimp only at hhint
        rw [hsome] at hhint
        have hnone := List.find?_eq_none.mp hhint m hm
        rw [Bool.and_eq_true, beq_iff_eq] at hnone
        refine absurd ⟨rfl, ?_⟩ hnone
        exact hp.2
    · exact h

/-- A match has evidence and every chapter that the server has to have. -/
theorem kavitaMatch_some {candidates : List KavitaSeries}
    {polls : List (List KavitaSeries × (Nat → List KavitaChapter))}
    (h : kavitaMatch t s kavitaFolder candidates detail polls = some (m, chapters)) :
    s.evidence t kavitaFolder m = true ∧ s.complete t chapters = true := by
  have hscan : ∀ polls : List (List KavitaSeries × (Nat → List KavitaChapter)),
      awaitScan t s kavitaFolder polls = some (m, chapters) →
        s.evidence t kavitaFolder m = true ∧ s.complete t chapters = true := by
    intro polls
    induction polls with
    | nil => exact fun h => by cases h
    | cons x polls ih =>
      intro h
      unfold awaitScan at h
      split at h
      · exact ih h
      · rename_i c hc
        split at h
        · rename_i hcomplete
          cases h
          exact ⟨(matchSeries_some hc).2, hcomplete⟩
        · exact ih h
  unfold kavitaMatch at h
  split at h
  · rename_i x hx
    cases h
    unfold existingMapping at hx
    split at hx
    · cases hx
    split at hx
    · cases hx
    rename_i c hc
    split at hx
    · cases hx
    rename_i hmatch
    split at hx
    · rename_i hcomplete
      cases hx
      cases hd : matchSeries t s kavitaFolder [m] with
      | none =>
        rw [hd] at hmatch
        exact absurd rfl hmatch
      | some d =>
        obtain ⟨hmem, he⟩ := matchSeries_some hd
        obtain rfl := List.mem_singleton.mp hmem
        exact ⟨he, hcomplete⟩
    · cases hx
  · exact hscan _ h

end

/-- A recreated library: the stored id is gone, and two rows have the title, one of them in the
folder. -/
def soloSnapshotKavita : KavitaSnapshot where
  title := "Solo"
  existingKavitaId := some 3
  tracked := true
  expectedChapters := ["1"]

def soloRows : List KavitaSeries :=
  [{ id := 8, name := "Solo", folderPath := "/manga/other" },
    { id := 9, name := "solo", folderPath := "/manga//solo/" }]

end MangaManager
