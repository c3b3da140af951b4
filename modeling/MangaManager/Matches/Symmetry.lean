import MangaManager.Lib.Difflib
import MangaManager.Matches.Scoring

/-!
# Scores in both directions

A decision is about two series in no order, but it is scored with the series that was refreshed
on the left. `pair_scores_mirror` says which parts of a score are the same either way: those
that compare sets are, the others as far as `SequenceMatcher.ratio` and `compare_signatures`
are on what they are given. `compareSignatures` is `compare_signatures`; what OpenCV
computes for it is `VisionLib`.
-/

namespace MangaManager

open Lib

/-! ## Covers -/

/-- A match of `knnMatch`. -/
structure DMatch where
  queryIdx : Nat
  trainIdx : Nat
  distance : Nat
  deriving DecidableEq

/-- `BFMatcher(NORM_HAMMING).knnMatch(k=2)` on descriptors, and how many of the matches
`findHomography` keeps of those between two lists of points; none is a `cv2.error`. -/
structure VisionLib where
  knnMatch : List UInt8 → List UInt8 → Option (List (List DMatch))
  homographyInliers : List UInt8 → List UInt8 → List DMatch → Option Nat

/-- The keypoints are pairs of floats and the descriptors rows of 32 bytes, one for each point. -/
def CatalogCoverSignature.IsShaped (x : CatalogCoverSignature) : Prop :=
  x.keypoints.length % 8 = 0 ∧ x.descriptors.length % 32 = 0 ∧
    x.keypoints.length / 8 = x.descriptors.length / 32

instance (x : CatalogCoverSignature) : Decidable x.IsShaped :=
  inferInstanceAs (Decidable (_ ∧ _ ∧ _))

/-- `good`. -/
def VisionLib.goodMatches (cv : VisionLib) (left right : CatalogCoverSignature) :
    Option (List DMatch) :=
  if 2 ≤ left.descriptors.length / 32 ∧ 2 ≤ right.descriptors.length / 32 then
    (cv.knnMatch left.descriptors right.descriptors).map fun pairs => pairs.filterMap fun pair =>
      match pair with
      | [first, second] =>
        if (first.distance : Rat) < mkRat 78 100 * (second.distance : Rat) then some first
        else none
      | _ => none
  else some []

/-- The evidence of signatures that cannot be read. -/
def CoverEvidence.invalid (distance : Nat) : CoverEvidence :=
  { coverCompared := false, coverSignatureInvalid := some true
    coverHashDistance := some (distance : Int), coverMatch := false
    coverEvidenceState := .invalid }

/-- The end of `compare_signatures`. -/
def CoverEvidence.ofCounts (distance matchCount inliers : Nat) : CoverEvidence :=
  let ratio := mkRat inliers (max matchCount 1)
  let strongGeometry := 12 ≤ inliers ∧ mkRat 65 100 ≤ ratio ∧ distance ≤ 18
  let strongHashWithGeometry := 4 ≤ inliers ∧ mkRat 6 10 ≤ ratio ∧ distance ≤ 4
  let coverMatch := strongGeometry ∨ strongHashWithGeometry
  let likely := ¬ coverMatch ∧ ((8 ≤ inliers ∧ mkRat 5 10 ≤ ratio ∧ distance ≤ 22) ∨
    (4 ≤ inliers ∧ mkRat 5 10 ≤ ratio ∧ distance ≤ 10))
  let different := 28 ≤ distance ∧ inliers < 4
  { coverCompared := true
    coverHashDistance := some (distance : Int)
    coverRatioMatches := some matchCount
    coverInliers := some inliers
    coverInlierRatio := some (roundTo 6 ratio)
    coverMatch := decide coverMatch
    coverEvidenceState :=
      if coverMatch then .match else if likely then .likely else if different then .different
      else .inconclusive }

/-- `compare_signatures`. -/
def compareSignatures (cv : VisionLib) (left right : CatalogCoverSignature) : CoverEvidence :=
  let distance := signatureDistance (some left) (some right)
  if left.IsShaped ∧ right.IsShaped then
    match cv.goodMatches left right with
    | none => .invalid distance
    | some good =>
      let inliers :=
        if 4 ≤ good.length then
          (cv.homographyInliers left.keypoints right.keypoints good).getD 0
        else 0
      .ofCounts distance good.length inliers
  else .invalid distance

/-- The scorer with `SequenceMatcher` and `compare_signatures`. -/
def scorer (t : CatalogText) (casefold : String → String) (cv : VisionLib) : ScoreLib where
  toCatalogText := t
  casefold := casefold
  sequenceRatio left right := SequenceMatcher.ratio left.toList right.toList
  compareSignatures := compareSignatures cv

/-! ## The best cover -/

section
variable {e : CoverEvidence} {lib : ScoreLib}

/-- A match is one of compared covers, and in the state of one. -/
structure CoverEvidence.Consistent (e : CoverEvidence) : Prop where
  match_iff : e.coverMatch = true ↔ e.coverEvidenceState = .match
  compared : e.coverMatch = true → e.coverCompared = true

theorem compareSignatures_consistent (cv : VisionLib) (left right : CatalogCoverSignature) :
    (compareSignatures cv left right).Consistent := by
  have hinvalid : ∀ d, (CoverEvidence.invalid d).Consistent := fun d =>
    ⟨by simp [CoverEvidence.invalid], by simp [CoverEvidence.invalid]⟩
  have hcounts : ∀ d m i, (CoverEvidence.ofCounts d m i).Consistent := by
    intro d m i
    refine ⟨?_, fun _ => rfl⟩
    simp only [CoverEvidence.ofCounts, decide_eq_true_eq]
    constructor
    · intro h
      rw [if_pos h]
    · intro h
      by_contra hno
      rw [if_neg hno] at h
      split at h
      · cases h
      · split at h <;> cases h
  unfold compareSignatures
  dsimp only
  split
  · split
    · exact hinvalid _
    · exact hcounts _ _ _
  · exact hinvalid _

theorem coverSimilarity_nonneg (e : CoverEvidence) : 0 ≤ coverSimilarity e := by
  have hraw : 0 ≤ max 0 (max (1 - ((e.coverHashDistance.getD 64 : Int) : Rat) / 32)
      (e.coverInlierRatio.getD 0)) := le_max_left _ _
  unfold coverSimilarity
  split
  · dsimp only
    split
    · exact hraw.trans (le_max_left _ _)
    split
    · exact le_min (hraw.trans (le_max_left _ _)) (by decide +kernel)
    split
    · exact le_min hraw (by decide +kernel)
    · exact le_min hraw (by decide +kernel)
  · exact le_rfl

/-- The similarity tells a match. -/
theorem CoverEvidence.Consistent.match_iff_similarity (h : e.Consistent) :
    e.coverMatch = true ↔ mkRat 98 100 ≤ coverSimilarity e := by
  unfold coverSimilarity
  split
  · dsimp only
    split
    · rename_i hm
      exact iff_of_true (hm.elim h.match_iff.mpr id) (le_max_right _ _)
    · rename_i hm
      have hno : ¬ e.coverMatch = true := fun hc => hm (.inr hc)
      have hlt : ∀ x : Rat, x < mkRat 98 100 → ∀ y, ¬ mkRat 98 100 ≤ min y x := fun x hx y hle =>
        absurd (hle.trans (min_le_right _ _)) (not_le.mpr hx)
      refine iff_of_false hno ?_
      split
      · exact hlt _ (by decide +kernel) _
      split
      · exact hlt _ (by decide +kernel) _
      · exact hlt _ (by decide +kernel) _
  · rename_i hc
    exact iff_of_false (fun hm => hc (h.compared hm)) (by decide +kernel)

/-- One turn of the loops over the covers. -/
def coverStep (lib : ScoreLib) (best : Rat × CoverEvidence)
    (p : (Nat × CatalogCoverSignature) × (Nat × CatalogCoverSignature)) : Rat × CoverEvidence :=
  let evidence := lib.compareSignatures p.1.2 p.2.2
  let score := coverSimilarity evidence
  if best.1 < score ∨ best.2.coverCompared = false then
    (score, { evidence with
      coverLeftSourceSeriesId := some p.1.1, coverRightSourceSeriesId := some p.2.1 })
  else best

/-- The pairs in the order of the loops. -/
def coverPairs (left right : List (Nat × CatalogCoverSignature)) :
    List ((Nat × CatalogCoverSignature) × (Nat × CatalogCoverSignature)) :=
  left.flatMap fun l => right.map (l, ·)

theorem mem_coverPairs {left right : List (Nat × CatalogCoverSignature)}
    {p : (Nat × CatalogCoverSignature) × (Nat × CatalogCoverSignature)} :
    p ∈ coverPairs left right ↔ p.1 ∈ left ∧ p.2 ∈ right := by
  simp only [coverPairs, List.mem_flatMap, List.mem_map]
  constructor
  · rintro ⟨l, hl, r, hr, rfl⟩
    exact ⟨hl, hr⟩
  · rintro ⟨hl, hr⟩
    exact ⟨p.1, hl, p.2, hr, rfl⟩

theorem bestCover_eq (lib : ScoreLib) (left right : List (Nat × CatalogCoverSignature)) :
    lib.bestCover left right =
      (coverPairs left right).foldl (coverStep lib) (0, .unavailable) := by
  rw [coverPairs, List.foldl_flatMap]
  simp only [List.foldl_map]
  rfl

/-- The best similarity of the pairs seen, with a match exactly when it is that of one. -/
structure IsBestCover (lib : ScoreLib)
    (seen : List ((Nat × CatalogCoverSignature) × (Nat × CatalogCoverSignature)))
    (best : Rat × CoverEvidence) : Prop where
  nonneg : 0 ≤ best.1
  upper : ∀ p ∈ seen, coverSimilarity (lib.compareSignatures p.1.2 p.2.2) ≤ best.1
  attained : best.1 = 0 ∨
    ∃ p ∈ seen, coverSimilarity (lib.compareSignatures p.1.2 p.2.2) = best.1
  compared : best.2.coverCompared = false → best.1 = 0
  matches_iff : best.2.coverMatch = true ↔ mkRat 98 100 ≤ best.1

theorem IsBestCover.step (hlib : ∀ l r, (lib.compareSignatures l r).Consistent)
    {seen : List ((Nat × CatalogCoverSignature) × (Nat × CatalogCoverSignature))}
    {best : Rat × CoverEvidence} (h : IsBestCover lib seen best)
    (p : (Nat × CatalogCoverSignature) × (Nat × CatalogCoverSignature)) :
    IsBestCover lib (seen ++ [p]) (coverStep lib best p) := by
  have hmem : ∀ x, x ∈ seen ++ [p] ↔ x ∈ seen ∨ x = p := fun x => by simp
  unfold coverStep
  dsimp only
  split
  · rename_i hc
    have hle : best.1 ≤ coverSimilarity (lib.compareSignatures p.1.2 p.2.2) := by
      rcases hc with hc | hc
      · exact hc.le
      · rw [h.compared hc]
        exact coverSimilarity_nonneg _
    refine ⟨coverSimilarity_nonneg _, fun x hx => ?_, .inr ⟨p, by simp, rfl⟩, fun hno => ?_, ?_⟩
    · rcases (hmem x).mp hx with hx | rfl
      · exact (h.upper x hx).trans hle
      · exact le_rfl
    · have hno : (lib.compareSignatures p.1.2 p.2.2).coverCompared = false := hno
      simp [coverSimilarity, hno]
    · exact (hlib _ _).match_iff_similarity
  · rename_i hc
    have hge : coverSimilarity (lib.compareSignatures p.1.2 p.2.2) ≤ best.1 :=
      not_lt.mp fun hlt => hc (.inl hlt)
    refine ⟨h.nonneg, fun x hx => ?_, ?_, h.compared, h.matches_iff⟩
    · rcases (hmem x).mp hx with hx | rfl
      · exact h.upper x hx
      · exact hge
    · exact h.attained.imp_right fun ⟨x, hx, he⟩ => ⟨x, (hmem x).mpr (.inl hx), he⟩

theorem isBestCover (hlib : ∀ l r, (lib.compareSignatures l r).Consistent)
    (left right : List (Nat × CatalogCoverSignature)) :
    IsBestCover lib (coverPairs left right) (lib.bestCover left right) := by
  rw [bestCover_eq]
  induction coverPairs left right using List.reverseRecOn with
  | nil =>
    have hlow : ¬ mkRat 98 100 ≤ (0 : Rat) := by decide +kernel
    exact ⟨le_rfl, by simp, .inl rfl, fun _ => rfl,
      iff_of_false (by simp [CoverEvidence.unavailable]) hlow⟩
  | append_singleton seen p ih =>
    rw [List.foldl_append]
    exact ih.step hlib p

/-- Covers that compare the same in both directions have the same best similarity. -/
theorem bestCover_mirror (hlib : ∀ l r, (lib.compareSignatures l r).Consistent)
    {left right : List (Nat × CatalogCoverSignature)}
    (h : ∀ x ∈ left, ∀ y ∈ right,
      lib.compareSignatures x.2 y.2 = lib.compareSignatures y.2 x.2) :
    (lib.bestCover left right).1 = (lib.bestCover right left).1 ∧
      (lib.bestCover left right).2.coverMatch = (lib.bestCover right left).2.coverMatch := by
  have hle : ∀ {left right : List (Nat × CatalogCoverSignature)}, (∀ x ∈ left, ∀ y ∈ right,
      lib.compareSignatures x.2 y.2 = lib.compareSignatures y.2 x.2) →
      (lib.bestCover left right).1 ≤ (lib.bestCover right left).1 := by
    intro left right h
    have hb := isBestCover hlib left right
    have hb' := isBestCover hlib right left
    rcases hb.attained with h0 | ⟨p, hp, he⟩
    · rw [h0]
      exact hb'.nonneg
    · obtain ⟨h1, h2⟩ := mem_coverPairs.mp hp
      rw [← he, h p.1 h1 p.2 h2]
      exact hb'.upper (p.2, p.1) (mem_coverPairs.mpr ⟨h2, h1⟩)
  have heq := (hle h).antisymm (hle fun x hx y hy => (h y hy x hx).symm)
  refine ⟨heq, Bool.eq_iff_iff.mpr ?_⟩
  rw [(isBestCover hlib left right).matches_iff, (isBestCover hlib right left).matches_iff, heq]

end

/-! ## Titles and descriptions -/

section
variable {lib : ScoreLib} {a b : String}

theorem matchingTitleSimilarity_mirror
    (h : lib.sequenceRatio (lib.normalizeTitle a) (lib.normalizeTitle b) =
      lib.sequenceRatio (lib.normalizeTitle b) (lib.normalizeTitle a)) :
    lib.matchingTitleSimilarity a b = lib.matchingTitleSimilarity b a := by
  unfold ScoreLib.matchingTitleSimilarity
  dsimp only
  by_cases he : lib.normalizeTitle a = lib.normalizeTitle b
  · rw [he]
  · rw [h, if_neg he, if_neg (Ne.symm he), Finset.inter_comm, Finset.union_comm]
    exact if_congr or_comm rfl rfl

theorem le_titleScore {left right : List String} {x : Rat} (hx : x ∈ left.flatMap fun a =>
    right.map (lib.matchingTitleSimilarity a)) : x ≤ lib.titleScore left right := by
  unfold ScoreLib.titleScore
  cases hm : (left.flatMap fun a => right.map (lib.matchingTitleSimilarity a)).max? with
  | none =>
    rw [List.max?_eq_none_iff.mp hm] at hx
    cases hx
  | some v => exact (List.max?_eq_some_iff.mp hm).2 x hx

/-- The best of similarities that are the same in both directions. -/
theorem titleScore_mirror {left right : List String} (h : ∀ a ∈ left, ∀ b ∈ right,
    lib.matchingTitleSimilarity a b = lib.matchingTitleSimilarity b a) :
    lib.titleScore left right = lib.titleScore right left := by
  have hmem : ∀ {left right : List String}, (∀ a ∈ left, ∀ b ∈ right,
      lib.matchingTitleSimilarity a b = lib.matchingTitleSimilarity b a) →
      ∀ x ∈ left.flatMap (fun a => right.map (lib.matchingTitleSimilarity a)),
        x ∈ right.flatMap fun b => left.map (lib.matchingTitleSimilarity b) := by
    intro left right h x hx
    obtain ⟨a, ha, hx⟩ := List.mem_flatMap.mp hx
    obtain ⟨b, hb, rfl⟩ := List.mem_map.mp hx
    exact List.mem_flatMap.mpr ⟨b, hb, List.mem_map.mpr ⟨a, ha, (h a ha b hb).symm⟩⟩
  have h' : ∀ b ∈ right, ∀ a ∈ left,
      lib.matchingTitleSimilarity b a = lib.matchingTitleSimilarity a b :=
    fun b hb a ha => (h a ha b hb).symm
  have hmax : (left.flatMap fun a => right.map (lib.matchingTitleSimilarity a)).max? =
      (right.flatMap fun b => left.map (lib.matchingTitleSimilarity b)).max? := by
    refine Option.ext fun v => ?_
    rw [List.max?_eq_some_iff, List.max?_eq_some_iff]
    exact and_congr ⟨hmem h v, hmem h' v⟩
      ⟨fun hall x hx => hall x (hmem h' x hx), fun hall x hx => hall x (hmem h x hx)⟩
  rw [ScoreLib.titleScore, ScoreLib.titleScore, hmax]

/-- What `_text_similarity` compares. -/
def ScoreLib.comparedText (lib : ScoreLib) (value : String) : String :=
  " ".intercalate (splitWords (lib.casefold value))

theorem textSimilarity_mirror (h : lib.sequenceRatio (lib.comparedText a) (lib.comparedText b) =
    lib.sequenceRatio (lib.comparedText b) (lib.comparedText a)) :
    lib.textSimilarity a b = lib.textSimilarity b a := by
  unfold ScoreLib.textSimilarity
  exact if_congr or_comm rfl h

end

/-! ## Sets -/

theorem overlapOf_comm (left right : List String) :
    overlapOf left right = overlapOf right left := by
  unfold overlapOf
  rw [Finset.union_comm, Finset.inter_comm]

theorem latestChapterValues_mirror (left right : Option Rat) :
    (latestChapterValues left right).latestChapterSimilarity =
      (latestChapterValues right left).latestChapterSimilarity := by
  cases left with
  | none => cases right <;> rfl
  | some x =>
    cases right with
    | none => rfl
    | some y =>
      have hdelta : (if x ≤ y then y - x else x - y) = if y ≤ x then x - y else y - x := by
        rcases lt_trichotomy x y with h | rfl | h
        · rw [if_pos h.le, if_neg (not_le.mpr h)]
        · rfl
        · rw [if_neg (not_le.mpr h), if_pos h.le]
      simp only [latestChapterValues, hdelta]

theorem sharedValues_isEmpty (left right : List String) :
    (sharedValues left right).isEmpty = (sharedValues right left).isEmpty := by
  have hmem : ∀ {left right : List String} {x}, x ∈ sharedValues left right ↔
      x ∈ left ∧ x ∈ right := by
    intro left right x
    simp [sharedValues, distinctSorted]
  rw [Bool.eq_iff_iff, List.isEmpty_iff, List.isEmpty_iff, List.eq_nil_iff_forall_not_mem,
    List.eq_nil_iff_forall_not_mem]
  exact forall_congr' fun x => by rw [hmem, hmem, and_comm]

/-! ## The pair -/

namespace Gallery

variable (lib : ScoreLib) (s : Gallery) (l r : Nat)

/-- `ratio` is the same both ways on the titles the pair compares. -/
def TitlesMirror : Prop :=
  ∀ a ∈ (s.titlesOf lib [l, r]).values l, ∀ b ∈ (s.titlesOf lib [l, r]).values r,
    lib.sequenceRatio (lib.normalizeTitle a) (lib.normalizeTitle b) =
      lib.sequenceRatio (lib.normalizeTitle b) (lib.normalizeTitle a)

/-- And on the descriptions. -/
def DescriptionsMirror : Prop :=
  lib.sequenceRatio (lib.comparedText (descriptionOf (s.seriesRowsOf [l, r]) l))
      (lib.comparedText (descriptionOf (s.seriesRowsOf [l, r]) r)) =
    lib.sequenceRatio (lib.comparedText (descriptionOf (s.seriesRowsOf [l, r]) r))
      (lib.comparedText (descriptionOf (s.seriesRowsOf [l, r]) l))

/-- `compare_signatures` is the same both ways on the covers. -/
def CoversMirror : Prop :=
  ∀ x ∈ s.signedOf l, ∀ y ∈ s.signedOf r,
    lib.compareSignatures x.2 y.2 = lib.compareSignatures y.2 x.2

variable {lib s l r}

theorem mem_swap {k : Nat} : k ∈ [l, r] ↔ k ∈ [r, l] := by
  simp [or_comm]

theorem coverScore_eq (lib : ScoreLib) (s : Gallery) (l r : Nat) : s.coverScore lib l r =
    (min (lib.bestCover (s.signedOf l) (s.signedOf r)).1 1,
      (lib.bestCover (s.signedOf l) (s.signedOf r)).2) := by
  have hsigned : ∀ k ∈ [l, r], ((s.identities.filter fun i => decide (i.seriesId ∈ [l, r])).filter
      (·.seriesId == k)).filterMap (fun i => (s.signature? i.id).map (i.id, ·)) = s.signedOf k := by
    intro k hk
    rw [signedOf, ← Dict.filter_filter_key CatalogSourceSeries.seriesId s.identities hk]
    rfl
  unfold coverScore
  dsimp only
  rw [hsigned l (by simp), hsigned r (by simp)]

/-- The order of the two ids does not matter to what is loaded. -/
theorem loaded_swap (lib : ScoreLib) (s : Gallery) (l r : Nat) :
    s.externalIdsOf [l, r] = s.externalIdsOf [r, l] ∧
    s.titlesOf lib [l, r] = s.titlesOf lib [r, l] ∧
    s.seriesRowsOf [l, r] = s.seriesRowsOf [r, l] ∧ s.numbersOf [l, r] = s.numbersOf [r, l] ∧
    s.sortNumbersOf [l, r] = s.sortNumbersOf [r, l] := by
  simp only [externalIdsOf, titlesOf, seriesRowsOf, numbersOf, sortNumbersOf, mem_swap (l := l),
    and_self]

theorem title_mirror (h : s.TitlesMirror lib l r) :
    lib.titleScore ((s.titlesOf lib [l, r]).values l) ((s.titlesOf lib [l, r]).values r) =
      lib.titleScore ((s.titlesOf lib [r, l]).values r) ((s.titlesOf lib [r, l]).values l) := by
  obtain ⟨-, htitles, -⟩ := loaded_swap lib s l r
  rw [← htitles]
  exact titleScore_mirror fun a ha b hb => matchingTitleSimilarity_mirror (h a ha b hb)

theorem description_mirror (h : s.DescriptionsMirror lib l r) :
    lib.textSimilarity (descriptionOf (s.seriesRowsOf [l, r]) l)
        (descriptionOf (s.seriesRowsOf [l, r]) r) =
      lib.textSimilarity (descriptionOf (s.seriesRowsOf [r, l]) r)
        (descriptionOf (s.seriesRowsOf [r, l]) l) := by
  obtain ⟨-, -, hrows, -, -⟩ := loaded_swap lib s l r
  rw [← hrows]
  exact textSimilarity_mirror h

theorem cover_mirror (hlib : ∀ l r, (lib.compareSignatures l r).Consistent)
    (h : s.CoversMirror lib l r) : (s.coverScore lib l r).1 = (s.coverScore lib r l).1 ∧
      (s.coverScore lib l r).2.coverMatch = (s.coverScore lib r l).2.coverMatch := by
  rw [coverScore_eq, coverScore_eq]
  obtain ⟨h1, h2⟩ := bestCover_mirror hlib h
  exact ⟨by rw [h1], h2⟩

theorem overlap_mirror : overlapOf ((s.numbersOf [l, r]).values l) ((s.numbersOf [l, r]).values r) =
    overlapOf ((s.numbersOf [r, l]).values r) ((s.numbersOf [r, l]).values l) := by
  obtain ⟨-, -, -, hnumbers, -⟩ := loaded_swap hashOnly s l r
  rw [← hnumbers, overlapOf_comm]

theorem latest_mirror : (s.latestChapterEvidence l r).latestChapterSimilarity =
    (s.latestChapterEvidence r l).latestChapterSimilarity := by
  obtain ⟨-, -, -, -, hsorted⟩ := loaded_swap hashOnly s l r
  unfold latestChapterEvidence
  rw [← hsorted]
  exact latestChapterValues_mirror _ _

theorem shared_mirror : (sharedValues ((s.externalIdsOf [l, r]).values l)
      ((s.externalIdsOf [l, r]).values r)).isEmpty =
    (sharedValues ((s.externalIdsOf [r, l]).values r)
      ((s.externalIdsOf [r, l]).values l)).isEmpty := by
  obtain ⟨hexternal, -⟩ := loaded_swap hashOnly s l r
  rw [← hexternal, sharedValues_isEmpty]

end Gallery

theorem combinedScore_congr {title cover description overlap : Rat}
    {latest latest' : LatestEvidence} {e e' : CoverEvidence}
    (hl : latest.latestChapterSimilarity = latest'.latestChapterSimilarity)
    (he : e.coverMatch = e'.coverMatch) :
    combinedScore title cover description overlap latest e =
      combinedScore title cover description overlap latest' e' := by
  unfold combinedScore
  rw [hl, he]

/-- The same numbers. -/
structure PairScore.Mirrors (p q : PairScore) : Prop where
  score : p.score = q.score
  title : p.title = q.title
  description : p.description = q.description
  cover : p.cover = q.cover
  chapterOverlap : p.chapterOverlap = q.chapterOverlap
  latest : p.latest.latestChapterSimilarity = q.latest.latestChapterSimilarity

/-- The chapter scores of a pair are the same in both directions, and so is the score where an
external id is shared. The title, the description and the cover are as far as what they are
computed with is, and with all three the score. -/
theorem pair_scores_mirror (t : CatalogText) (casefold : String → String) (cv : VisionLib)
    (s : Gallery) (l r : Nat) :
    let lib := scorer t casefold cv
    let p := s.scoreSeriesPair lib l r
    let q := s.scoreSeriesPair lib r l
    (p.chapterOverlap = q.chapterOverlap ∧
      p.latest.latestChapterSimilarity = q.latest.latestChapterSimilarity) ∧
    (s.TitlesMirror lib l r → p.title = q.title) ∧
    (s.DescriptionsMirror lib l r → p.description = q.description) ∧
    (s.CoversMirror lib l r → p.cover = q.cover) ∧
    (p.sharedExternalId ≠ none → p.score = q.score) ∧
    (s.TitlesMirror lib l r ∧ s.DescriptionsMirror lib l r ∧ s.CoversMirror lib l r →
      p.Mirrors q) := by
  intro lib p q
  have hlib : ∀ l r, (lib.compareSignatures l r).Consistent := compareSignatures_consistent cv
  have hoverlap : p.chapterOverlap = q.chapterOverlap :=
    congrArg (roundTo 6) Gallery.overlap_mirror
  have hlatest : p.latest.latestChapterSimilarity = q.latest.latestChapterSimilarity :=
    Gallery.latest_mirror
  have htitle : s.TitlesMirror lib l r → p.title = q.title := fun h =>
    congrArg (roundTo 6) (Gallery.title_mirror h)
  have hdescription : s.DescriptionsMirror lib l r → p.description = q.description := fun h =>
    congrArg (roundTo 6) (Gallery.description_mirror h)
  have hcover : s.CoversMirror lib l r → p.cover = q.cover := fun h =>
    congrArg (roundTo 6) (Gallery.cover_mirror hlib h).1
  refine ⟨⟨hoverlap, hlatest⟩, htitle, hdescription, hcover, fun hshared => ?_, ?_⟩
  · -- the score of a shared id is fixed
    have hno : (sharedValues ((s.externalIdsOf [l, r]).values l)
        ((s.externalIdsOf [l, r]).values r)).isEmpty = false := by
      refine Bool.eq_false_iff.mpr fun he => hshared ?_
      exact if_pos he
    have hno' := Gallery.shared_mirror (s := s) (l := l) (r := r) ▸ hno
    show (if _ then _ else _) = if _ then _ else _
    rw [if_neg (by rw [hno]; decide), if_neg (by rw [hno']; decide)]
  · rintro ⟨ht, hd, hc⟩
    obtain ⟨hc1, hc2⟩ := Gallery.cover_mirror hlib hc
    refine ⟨?_, htitle ht, hdescription hd, hcover hc, hoverlap, hlatest⟩
    show (if _ then roundTo 6 (min (combinedScore _ _ _ _ _ _) _) else _) =
      if _ then roundTo 6 (min (combinedScore _ _ _ _ _ _) _) else _
    rw [Gallery.shared_mirror, Gallery.title_mirror ht, Gallery.description_mirror hd, hc1,
      Gallery.overlap_mirror, combinedScore_congr Gallery.latest_mirror hc2]

/-! ## Two descriptions -/

/-- No features are found. -/
def noVision : VisionLib where
  knnMatch _ _ := some []
  homographyInliers _ _ _ := none

/-- Two series whose descriptions are the same letters in another order. -/
def tidalGallery : Gallery :=
  { series := [{ id := 1, storageKey := "a", title := "Blue Box", description := "tide" },
      { id := 2, storageKey := "b", title := "Blue Box", description := "diet" }] }

/-- The blocks found from one side are not those found from the other. -/
theorem tidalGallery_directions : ¬ ∀ (t : CatalogText) (casefold : String → String)
    (cv : VisionLib) (s : Gallery) (l r : Nat),
      (s.scoreSeriesPair (scorer t casefold cv) l r).Mirrors
        (s.scoreSeriesPair (scorer t casefold cv) r l) := by
  intro hall
  have hm := (hall asciiCatalog asciiText.lower noVision tidalGallery 1 2).score
  revert hm
  decide +kernel

/-- Another spelling of a title, with covers that are alike. -/
def boxedGallery : Gallery :=
  { coveredGallery with
    series := [{ id := 1, storageKey := "a", title := "Blue Box" },
      { id := 2, storageKey := "b", title := "Blue Boxes" }] }

theorem boxedGallery_mirrors :
    (boxedGallery.scoreSeriesPair (scorer asciiCatalog asciiText.lower noVision) 1 2).Mirrors
      (boxedGallery.scoreSeriesPair (scorer asciiCatalog asciiText.lower noVision) 2 1) := by
  obtain ⟨-, -, -, -, -, hall⟩ :=
    pair_scores_mirror asciiCatalog asciiText.lower noVision boxedGallery 1 2
  refine hall ⟨?_, ?_, ?_⟩
  · unfold Gallery.TitlesMirror
    decide +kernel
  · unfold Gallery.DescriptionsMirror
    decide +kernel
  · unfold Gallery.CoversMirror
    decide +kernel

end MangaManager
