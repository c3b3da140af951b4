import MangaManager.Series.Duplicates

/-!
# The score of two series

`manga_manager/application/matching_score.py`. `scoreSeriesPair` loads what it compares for
two series, `scoreCandidateSet` loads it once for many. `candidate_scores`: an entry of the
set is the score of the pair, of a selected series for which it is greatest.

`ScoreLib` has the functions that are not modelled: `casefold`, the ratio of
`SequenceMatcher` and `compare_signatures`. Floats are exact rationals.
-/

namespace MangaManager

open Lib

inductive CoverState where
  | unavailable
  | invalid
  | inconclusive
  | likely
  | different
  | match
  deriving DecidableEq, Repr

/-- What `compare_signatures` returns, with the identities that were compared. -/
structure CoverEvidence where
  coverCompared : Bool
  coverMatch : Bool
  coverEvidenceState : CoverState
  coverSignatureInvalid : Option Bool := none
  coverHashDistance : Option Int := none
  coverRatioMatches : Option Nat := none
  coverInliers : Option Nat := none
  coverInlierRatio : Option Rat := none
  coverLeftSourceSeriesId : Option Nat := none
  coverRightSourceSeriesId : Option Nat := none
  deriving DecidableEq

/-- The evidence before any two covers were compared. -/
def CoverEvidence.unavailable : CoverEvidence :=
  { coverCompared := false, coverMatch := false, coverEvidenceState := .unavailable }

structure ScoreLib extends CatalogText where
  casefold : String → String
  /-- `SequenceMatcher(None, left, right).ratio()`. -/
  sequenceRatio : String → String → Rat
  compareSignatures : CatalogCoverSignature → CatalogCoverSignature → CoverEvidence

/-- `_latest_chapter_values`; the fields that are left out where nothing is compared are none. -/
structure LatestEvidence where
  latestChapterCompared : Bool
  latestChapterLeft : Option String := none
  latestChapterRight : Option String := none
  latestChapterDelta : Option String := none
  latestChapterSimilarity : Rat
  latestChapterMatch : Option Bool := none
  deriving DecidableEq

/-- The result of `score_series_pair`, of the scorer `cover-primary-v3`. -/
structure PairScore where
  score : Rat
  title : Rat
  titleMatch : Bool
  cover : Rat
  description : Rat
  chapterOverlap : Rat
  latest : LatestEvidence
  coverEvidence : CoverEvidence
  sharedExternalId : Option (List String)
  deriving DecidableEq

structure CandidateScore where
  evidence : PairScore
  matchedSelectedId : Nat
  deriving DecidableEq

/-! ## The parts of a score -/

/-- `round(x, digits)`. -/
def roundTo (digits : Nat) (x : Rat) : Rat :=
  let scale := Nat.pow 10 digits
  let scaled := x * (scale : Rat)
  let down := scaled.floor
  let rest := scaled - (down : Rat)
  let up := mkRat 1 2 < rest ∨ (rest = mkRat 1 2 ∧ down % 2 = 1)
  mkRat (if up then down + 1 else down) scale

/-- `_decimal_text` of a number of `Numeric(20, 6)` that is not negative. -/
def decimalText (x : Rat) : String :=
  CatalogText.formatNormalized (x * ((Nat.pow 10 6 : Nat) : Rat)).floor.natAbs 6

def titleWeight : Rat := mkRat 20 100

def coverWeight : Rat := mkRat 55 100

def descriptionWeight : Rat := mkRat 8 100

def chapterOverlapWeight : Rat := mkRat 5 100

def latestChapterWeight : Rat := mkRat 12 100

def latestChapterBuffer : Rat := 2

/-- `_latest_chapter_values`. -/
def latestChapterValues : Option Rat → Option Rat → LatestEvidence
  | some left, some right =>
    let delta := if left ≤ right then right - left else left - right
    let similarity :=
      if delta ≤ latestChapterBuffer then 1
      else if delta ≤ latestChapterBuffer + 4 then 1 - (delta - latestChapterBuffer) / 4
      else 0
    { latestChapterCompared := true
      latestChapterLeft := some (decimalText left)
      latestChapterRight := some (decimalText right)
      latestChapterDelta := some (decimalText delta)
      latestChapterSimilarity := roundTo 6 similarity
      latestChapterMatch := some (decide (delta ≤ latestChapterBuffer)) }
  | _, _ => { latestChapterCompared := false, latestChapterSimilarity := 0 }

/-- `_cover_similarity`. -/
def coverSimilarity (e : CoverEvidence) : Rat :=
  if e.coverCompared then
    let distance := e.coverHashDistance.getD 64
    let ratio := e.coverInlierRatio.getD 0
    let raw := max 0 (max (1 - (distance : Rat) / 32) ratio)
    if e.coverEvidenceState = .match ∨ e.coverMatch = true then max raw (mkRat 98 100)
    else if e.coverEvidenceState = .likely then min (max raw (mkRat 7 10)) (mkRat 89 100)
    else if e.coverEvidenceState = .different then min raw (mkRat 15 100)
    else min raw (mkRat 6 10)
  else 0

/-- `_combined_score`. -/
def combinedScore (title cover description chapterOverlap : Rat) (latest : LatestEvidence)
    (e : CoverEvidence) : Rat :=
  let latestScore := latest.latestChapterSimilarity
  let score := titleWeight * title + coverWeight * cover + descriptionWeight * description +
    chapterOverlapWeight * chapterOverlap + latestChapterWeight * latestScore
  if e.coverMatch then
    let score := max score (mkRat 86 100)
    if latestScore = 1 ∨ mkRat 75 100 ≤ max title description then max score (mkRat 90 100)
    else score
  else score

/-- The record of a pair. -/
def PairScore.ofParts (shared : List String) (title cover description chapterOverlap : Rat)
    (latest : LatestEvidence) (e : CoverEvidence) : PairScore :=
  let score := combinedScore title cover description chapterOverlap latest e
  { score := if shared.isEmpty then roundTo 6 (min score (mkRat 98 100)) else mkRat 99 100
    title := roundTo 6 title
    titleMatch := decide (mkRat 75 100 ≤ title)
    cover := roundTo 6 cover
    description := roundTo 6 description
    chapterOverlap := roundTo 6 chapterOverlap
    latest := latest
    coverEvidence := e
    sharedExternalId := if shared.isEmpty then none else some shared }

namespace ScoreLib

variable (lib : ScoreLib)

/-- `_matching_title_similarity`. -/
def matchingTitleSimilarity (left right : String) : Rat :=
  let normalizedLeft := lib.normalizeTitle left
  let normalizedRight := lib.normalizeTitle right
  if normalizedLeft = "" ∨ normalizedRight = "" then 0
  else if normalizedLeft = normalizedRight then 1
  else
    let leftTokens := (splitWords normalizedLeft).toFinset
    let rightTokens := (splitWords normalizedRight).toFinset
    let common := (leftTokens ∩ rightTokens).card
    let tokenScore := mkRat common (leftTokens ∪ rightTokens).card
    let score := mkRat 6 10 * tokenScore +
      mkRat 4 10 * lib.sequenceRatio normalizedLeft normalizedRight
    if common < 2 then min score (mkRat 45 100) else score

/-- `_text_similarity`. -/
def textSimilarity (left right : String) : Rat :=
  let leftValue := " ".intercalate (splitWords (lib.casefold left))
  let rightValue := " ".intercalate (splitWords (lib.casefold right))
  if leftValue = "" ∨ rightValue = "" then 0 else lib.sequenceRatio leftValue rightValue

/-- The best title of two series. -/
def titleScore (left right : List String) : Rat :=
  ((left.flatMap fun a => right.map (lib.matchingTitleSimilarity a)).max?).getD 0

/-- The loops over the covers of both sides: the first of the best pairs. -/
def bestCover (left right : List (Nat × CatalogCoverSignature)) : Rat × CoverEvidence :=
  left.foldl (fun best l => right.foldl (fun best r =>
      let evidence := lib.compareSignatures l.2 r.2
      let score := coverSimilarity evidence
      if best.1 < score ∨ best.2.coverCompared = false then
        (score, { evidence with
          coverLeftSourceSeriesId := some l.1, coverRightSourceSeriesId := some r.1 })
      else best) best)
    (0, .unavailable)

/-- A name that is the page of a provider, not the title of a series. -/
def isPlaceholder (displayValue : String) : Bool :=
  decide (lib.casefold (strip displayValue) ∈ ["asura scans home", "home", "manga list"])

end ScoreLib

/-- `len(left & right) / len(left | right)`. -/
def overlapOf (left right : List String) : Rat :=
  let union := (left.toFinset ∪ right.toFinset).card
  if union = 0 then 0 else mkRat (left.toFinset ∩ right.toFinset).card union

/-- `sorted(left & right)`. -/
def sharedValues (left right : List String) : List String :=
  distinctSorted (left.filter fun x => decide (x ∈ right))

/-- `order_by(series_id, sort_number.desc())`. -/
def LatestFirst (a b : Nat × Rat) : Prop := a.1 < b.1 ∨ (a.1 = b.1 ∧ b.2 ≤ a.2)

instance : DecidableRel LatestFirst := fun _ _ => inferInstanceAs (Decidable (_ ∨ _))

/-! ## Two series -/

namespace Gallery

variable (lib : ScoreLib) (s : Gallery) (ids : List Nat)

/-- `_titles`, and the same loops of the set. -/
def titlesOf : Dict Nat (List String) :=
  Dict.collect Prod.fst Prod.snd
    (((s.series.filter fun r => decide (r.id ∈ ids)).map fun r => (r.id, r.title)) ++
      ((s.aliases.filter fun a => decide (a.seriesId ∈ ids) &&
        !lib.isPlaceholder a.displayValue).map fun a => (a.seriesId, a.displayValue)))

/-- `_external_ids`, and the same loop of the set. -/
def externalIdsOf : Dict Nat (List String) :=
  Dict.collect (·.seriesId) (fun x => x.provider ++ ":" ++ x.value)
    (s.identifiers.filter fun x => decide (x.seriesId ∈ ids))

/-- The rows of the series. -/
def seriesRowsOf : Dict Nat CatalogSeries :=
  Dict.keepLast (·.id) id (s.series.filter fun r => decide (r.id ∈ ids))

/-- The numbers of the chapters. -/
def numbersOf : Dict Nat (List String) :=
  Dict.collect (·.seriesId) (·.canonicalNumber)
    (s.chapters.filter fun c => decide (c.seriesId ∈ ids))

/-- The chapters that can be sorted. -/
def sortNumbersOf : List (Nat × Rat) :=
  (s.chapters.filter fun c => decide (c.seriesId ∈ ids)).filterMap fun c =>
    c.sortNumber.map (c.seriesId, ·)

def descriptionOf (rows : Dict Nat CatalogSeries) (seriesId : Nat) : String :=
  ((rows.lookup seriesId).map (·.description)).getD ""

/-- `_latest_chapter_evidence`: of the sorted chapters the first of each series. -/
def latestChapterEvidence (left right : Nat) : LatestEvidence :=
  let rows := (s.sortNumbersOf [left, right]).insertionSort LatestFirst
  let values := Dict.keepFirst Prod.fst Prod.snd rows
  latestChapterValues (values.lookup left) (values.lookup right)

/-- `_cover_score`. -/
def coverScore (left right : Nat) : Rat × CoverEvidence :=
  let identities := s.identities.filter fun i => decide (i.seriesId ∈ [left, right])
  let signed := fun seriesId => (identities.filter (·.seriesId == seriesId)).filterMap fun i =>
    (s.signature? i.id).map (i.id, ·)
  let best := lib.bestCover (signed left) (signed right)
  (min best.1 1, best.2)

/-- `score_series_pair`. -/
def scoreSeriesPair (left right : Nat) : PairScore :=
  let external := s.externalIdsOf [left, right]
  let titles := s.titlesOf lib [left, right]
  let rows := s.seriesRowsOf [left, right]
  let numbers := s.numbersOf [left, right]
  let cover := s.coverScore lib left right
  .ofParts (sharedValues (external.values left) (external.values right))
    (lib.titleScore (titles.values left) (titles.values right)) cover.1
    (lib.textSimilarity (descriptionOf rows left) (descriptionOf rows right))
    (overlapOf (numbers.values left) (numbers.values right))
    (s.latestChapterEvidence left right) cover.2

/-! ## Many series -/

/-- The greatest sort number of each series. -/
def latestChaptersOf : Dict Nat Rat := Dict.keepMax Prod.fst Prod.snd (s.sortNumbersOf ids)

/-- The identities of each series that have a signature. -/
def signedIdentities (seriesId : Nat) : List (Nat × CatalogCoverSignature) :=
  let rows := s.identities.filter fun i => decide (i.seriesId ∈ ids)
  let identities := Dict.collect (·.seriesId) (·.id) rows
  let signatures := Dict.keepLast (·.sourceSeriesId) id
    (s.signatures.filter fun x => decide (x.sourceSeriesId ∈ rows.map (·.id)))
  (identities.values seriesId).filterMap fun i => (signatures.lookup i).map (i, ·)

/-- `score_pair` of the set. -/
def scorePair (left right : Nat) : PairScore :=
  let external := s.externalIdsOf ids
  let titles := s.titlesOf lib ids
  let rows := s.seriesRowsOf ids
  let numbers := s.numbersOf ids
  let latest := s.latestChaptersOf ids
  let cover := lib.bestCover (s.signedIdentities ids left) (s.signedIdentities ids right)
  .ofParts (sharedValues (external.values left) (external.values right))
    (lib.titleScore (titles.values left) (titles.values right)) cover.1
    (lib.textSimilarity (descriptionOf rows left) (descriptionOf rows right))
    (overlapOf (numbers.values left) (numbers.values right))
    (latestChapterValues (latest.lookup left) (latest.lookup right)) cover.2

/-- `score_candidate_set`. -/
def scoreCandidateSet (selectedIds candidateIds : List Nat) : Dict Nat CandidateScore :=
  let allIds := distinctSorted (selectedIds ++ candidateIds)
  if selectedIds.isEmpty || candidateIds.isEmpty then ∅
  else Dict.keepLast Prod.fst Prod.snd <| candidateIds.filterMap fun candidateId =>
    let scored := selectedIds.map fun selectedId =>
      (selectedId, s.scorePair lib allIds selectedId candidateId)
    (scored.argmax (·.2.score)).map fun best => (candidateId, ⟨best.2, best.1⟩)

/-! ## Both load the same -/

variable {lib : ScoreLib} {s : Gallery} {ids ids' : List Nat} {k l r : Nat}

theorem titlesOf_values (hk : k ∈ ids) : (s.titlesOf lib ids).values k =
    (s.series.filter (·.id = k)).map (·.title) ++
      (s.aliases.filter fun a => decide (a.seriesId = k) &&
        !lib.isPlaceholder a.displayValue).map (·.displayValue) := by
  rw [titlesOf, Dict.values_collect, List.filter_append, List.map_append, List.filter_map,
    List.filter_map, List.map_map, List.map_map]
  congr 2
  · exact Dict.filter_filter_key (·.id) s.series hk
  · rw [List.filter_filter]
    refine List.filter_congr fun a _ => ?_
    by_cases he : a.seriesId = k
    · simp [he, hk]
    · simp [he]

theorem descriptionOf_eq (hk : k ∈ ids) (hk' : k ∈ ids') :
    descriptionOf (s.seriesRowsOf ids) k = descriptionOf (s.seriesRowsOf ids') k := by
  have hrow : ∀ {ids : List Nat}, k ∈ ids →
      (s.seriesRowsOf ids).lookup k = ((s.series.filter (·.id = k)).map id).getLast? := by
    intro ids hk
    rw [seriesRowsOf, Dict.lookup_keepLast, Dict.filter_filter_key CatalogSeries.id s.series hk]
  rw [descriptionOf, descriptionOf, hrow hk, hrow hk']

theorem filter_sortNumbersOf (hk : k ∈ ids) : (s.sortNumbersOf ids).filter (·.1 = k) =
    (s.chapters.filter (·.seriesId = k)).filterMap fun c => c.sortNumber.map (c.seriesId, ·) := by
  rw [sortNumbersOf, ← Dict.filter_filter_key CatalogChapter.seriesId s.chapters hk]
  induction s.chapters.filter fun c => decide (c.seriesId ∈ ids) with
  | nil => rfl
  | cons c l ih =>
    rw [List.filterMap_cons, List.filter_cons]
    cases hn : c.sortNumber with
    | none =>
      by_cases he : c.seriesId = k
      · simp [he, hn, ih]
      · simp [he, ih]
    | some n =>
      by_cases he : c.seriesId = k
      · simp [he, hn, ih]
      · simp [he, ih]

/-- The first of the sorted chapters is the greatest. -/
theorem latest_eq (hk : k ∈ ids) (hk' : k ∈ ids') :
    (Dict.keepFirst Prod.fst Prod.snd ((s.sortNumbersOf ids).insertionSort LatestFirst)).lookup k =
      (s.latestChaptersOf ids').lookup k := by
  have htotal : Std.Total LatestFirst := ⟨fun a b => by
    rcases lt_trichotomy a.1 b.1 with h | h | h
    · exact .inl (.inl h)
    · exact (le_total b.2 a.2).imp (fun hle => .inr ⟨h, hle⟩) fun hle => .inr ⟨h.symm, hle⟩
    · exact .inr (.inl h)⟩
  have htrans : IsTrans (Nat × Rat) LatestFirst := ⟨fun a b c hab hbc => by
    rcases hab with hab | ⟨hab, hle⟩ <;> rcases hbc with hbc | ⟨hbc, hle'⟩
    · exact .inl (hab.trans hbc)
    · exact .inl (hbc ▸ hab)
    · exact .inl (hab ▸ hbc)
    · exact .inr ⟨hab.trans hbc, hle'.trans hle⟩⟩
  have hsorted := List.pairwise_insertionSort LatestFirst (s.sortNumbersOf ids)
  -- the chapters of one series are in descending order
  have hdesc : ((((s.sortNumbersOf ids).insertionSort LatestFirst).filter (·.1 = k)).map
      Prod.snd).Pairwise fun a b => max a b = a := by
    rw [List.pairwise_map]
    refine (hsorted.filter _).imp_of_mem fun {a b} ha hb h => ?_
    have hak : a.1 = k := by simpa using (List.mem_filter.mp ha).2
    have hbk : b.1 = k := by simpa using (List.mem_filter.mp hb).2
    rcases h with h | ⟨-, h⟩
    · omega
    · exact max_eq_left h
  have hperm : ((((s.sortNumbersOf ids).insertionSort LatestFirst).filter (·.1 = k)).map
      Prod.snd).Perm (((s.sortNumbersOf ids').filter (·.1 = k)).map Prod.snd) := by
    rw [filter_sortNumbersOf hk', ← filter_sortNumbersOf hk]
    exact ((List.perm_insertionSort _ _).filter _).map _
  rw [latestChaptersOf, Dict.lookup_keepFirst, Dict.lookup_keepMax, ← List.max?_eq_head? hdesc]
  refine Option.ext fun x => ?_
  rw [List.max?_eq_some_iff, List.max?_eq_some_iff, hperm.mem_iff]
  exact and_congr_right fun _ => forall_congr' fun b => by rw [hperm.mem_iff]

/-- The identities of a series with their signatures. -/
def signedOf (s : Gallery) (k : Nat) : List (Nat × CatalogCoverSignature) :=
  (s.identities.filter (·.seriesId = k)).filterMap fun i => (s.signature? i.id).map (i.id, ·)

theorem signedIdentities_eq (hkeyed : Table.Keyed CatalogCoverSignature.sourceSeriesId s.signatures)
    (hk : k ∈ ids) : s.signedIdentities ids k = s.signedOf k := by
  unfold signedIdentities
  dsimp only
  rw [Dict.values_collect_of_mem _ _ _ hk, List.filterMap_map, signedOf]
  refine List.filterMap_congr fun i hi => ?_
  have hmem : i.id ∈ (s.identities.filter fun i => decide (i.seriesId ∈ ids)).map (·.id) := by
    obtain ⟨hi, he⟩ := List.mem_filter.mp hi
    have he : i.seriesId = k := by simpa using he
    exact List.mem_map.mpr ⟨i, List.mem_filter.mpr ⟨hi, by simp [he, hk]⟩, rfl⟩
  show ((Dict.keepLast _ _ _).lookup i.id).map _ = _
  congr 1
  rw [Dict.lookup_keepLast, Dict.filter_filter_key CatalogCoverSignature.sourceSeriesId _ hmem,
    List.map_id]
  cases hg : s.signature? i.id with
  | none =>
    rw [List.filter_eq_nil_iff.mpr]
    · rfl
    · intro x hx
      simpa using Table.get_eq_none.mp hg x hx
  | some x =>
    have hx : x.sourceSeriesId = i.id := Table.get_key hg
    have hfm : x ∈ s.signatures.filter (·.sourceSeriesId = i.id) :=
      List.mem_filter.mpr ⟨Table.get_mem hg, by simpa using hx⟩
    rw [List.getLast?_eq_some_getLast (List.ne_nil_of_mem hfm), Option.some.injEq]
    obtain ⟨hm, hkey⟩ := List.mem_filter.mp (List.getLast_mem (List.ne_nil_of_mem hfm))
    exact hkeyed.eq hm (Table.get_mem hg) ((of_decide_eq_true hkey).trans hx.symm)

theorem coverSimilarity_le_one {e : CoverEvidence} (hd : ∀ d ∈ e.coverHashDistance, 0 ≤ d)
    (hr : ∀ q ∈ e.coverInlierRatio, q ≤ 1) : coverSimilarity e ≤ 1 := by
  have hdistance : 0 ≤ e.coverHashDistance.getD 64 := by
    cases h : e.coverHashDistance with
    | none => decide
    | some d => exact hd d h
  have hratio : e.coverInlierRatio.getD 0 ≤ 1 := by
    cases h : e.coverInlierRatio with
    | none => exact zero_le_one
    | some q => exact hr q h
  have hcover : 1 - ((e.coverHashDistance.getD 64 : Int) : Rat) / 32 ≤ 1 := by
    have h0 : (0 : Rat) ≤ ((e.coverHashDistance.getD 64 : Int) : Rat) := by exact_mod_cast hdistance
    exact sub_le_self 1 (by positivity)
  have hraw : max 0 (max (1 - ((e.coverHashDistance.getD 64 : Int) : Rat) / 32)
      (e.coverInlierRatio.getD 0)) ≤ 1 := max_le zero_le_one (max_le hcover hratio)
  unfold coverSimilarity
  split
  · dsimp only
    split
    · exact max_le hraw (by decide +kernel)
    split
    · exact (min_le_right _ _).trans (by decide +kernel)
    split
    · exact (min_le_left _ _).trans hraw
    · exact (min_le_left _ _).trans hraw
  · exact zero_le_one

/-- What is documented of `compare_signatures`. -/
structure Comparable (lib : ScoreLib) : Prop where
  distance : ∀ l r, ∀ d ∈ (lib.compareSignatures l r).coverHashDistance, 0 ≤ d
  ratio : ∀ l r, ∀ q ∈ (lib.compareSignatures l r).coverInlierRatio, 0 ≤ q ∧ q ≤ 1

theorem bestCover_le_one (hlib : Comparable lib) (left right : List (Nat × CatalogCoverSignature)) :
    (lib.bestCover left right).1 ≤ 1 := by
  have hfold : ∀ {β : Type} (f : Rat × CoverEvidence → β → Rat × CoverEvidence) (l : List β)
      (best : Rat × CoverEvidence), (∀ best x, best.1 ≤ 1 → (f best x).1 ≤ 1) → best.1 ≤ 1 →
      (l.foldl f best).1 ≤ 1 := by
    intro β f l best hf hbest
    induction l generalizing best with
    | nil => exact hbest
    | cons x l ih => exact ih _ (hf best x hbest)
  refine hfold _ left _ (fun best l hbest => hfold _ right _ (fun best r hbest => ?_) hbest)
    zero_le_one
  dsimp only
  split
  · exact coverSimilarity_le_one (hlib.distance l.2 r.2) fun q hq => (hlib.ratio l.2 r.2 q hq).2
  · exact hbest

/-- In a set the score of two of its series is that of the pair. -/
theorem scorePair_eq (hkeyed : Table.Keyed CatalogCoverSignature.sourceSeriesId s.signatures)
    (hlib : Comparable lib) (hl : l ∈ ids) (hr : r ∈ ids) :
    s.scorePair lib ids l r = s.scoreSeriesPair lib l r := by
  have hl' : l ∈ [l, r] := List.mem_cons_self
  have hr' : r ∈ [l, r] := List.mem_cons_of_mem _ List.mem_cons_self
  have hexternal : ∀ {k}, k ∈ ids → k ∈ [l, r] →
      (s.externalIdsOf ids).values k = (s.externalIdsOf [l, r]).values k := by
    intro k hk hk'
    rw [externalIdsOf, externalIdsOf, Dict.values_collect_of_mem _ _ _ hk,
      Dict.values_collect_of_mem _ _ _ hk']
  have hnumbers : ∀ {k}, k ∈ ids → k ∈ [l, r] →
      (s.numbersOf ids).values k = (s.numbersOf [l, r]).values k := by
    intro k hk hk'
    rw [numbersOf, numbersOf, Dict.values_collect_of_mem _ _ _ hk,
      Dict.values_collect_of_mem _ _ _ hk']
  have htitles : ∀ {k}, k ∈ ids → k ∈ [l, r] →
      (s.titlesOf lib ids).values k = (s.titlesOf lib [l, r]).values k := by
    intro k hk hk'
    rw [titlesOf_values hk, titlesOf_values hk']
  have hsigned : ∀ {k}, k ∈ [l, r] →
      ((s.identities.filter fun i => decide (i.seriesId ∈ [l, r])).filter
        (·.seriesId == k)).filterMap (fun i => (s.signature? i.id).map (i.id, ·)) =
          s.signedOf k := by
    intro k hk
    rw [signedOf, ← Dict.filter_filter_key CatalogSourceSeries.seriesId s.identities hk]
    rfl
  have hcover : s.coverScore lib l r = lib.bestCover (s.signedOf l) (s.signedOf r) := by
    unfold coverScore
    dsimp only
    rw [hsigned hl', hsigned hr', min_eq_left (bestCover_le_one hlib _ _)]
  unfold scorePair scoreSeriesPair latestChapterEvidence
  dsimp only
  rw [hexternal hl hl', hexternal hr hr', hnumbers hl hl', hnumbers hr hr', htitles hl hl',
    htitles hr hr', descriptionOf_eq hl hl', descriptionOf_eq hr hr', latest_eq hl' hl,
    latest_eq hr' hr, hcover, signedIdentities_eq hkeyed hl, signedIdentities_eq hkeyed hr]

/-- The first of the best of some values. -/
theorem exists_best {β : Type} (f : Nat → β) (key : β → Rat) {l : List Nat} (hne : l ≠ []) :
    ∃ m ∈ l, (l.map fun x => (x, f x)).argmax (fun x => key x.2) = some (m, f m) ∧
      ∀ x ∈ l, key (f x) ≤ key (f m) := by
  obtain ⟨best, hbest⟩ : ∃ best, best ∈ (l.map fun x => (x, f x)).argmax fun x => key x.2 := by
    refine Option.ne_none_iff_exists'.mp fun hnone => hne ?_
    rwa [List.argmax_eq_none, List.map_eq_nil_iff] at hnone
  obtain ⟨m, hm, rfl⟩ := List.mem_map.mp (List.argmax_mem hbest)
  refine ⟨m, hm, hbest, fun x hx => ?_⟩
  exact List.le_of_mem_argmax (f := fun x : Nat × β => key x.2)
    (List.mem_map.mpr ⟨x, hx, rfl⟩) hbest

/-- The entry of a candidate is the score of a pair with a selected series, and there is no
greater one. -/
theorem candidate_scores (hkeyed : Table.Keyed CatalogCoverSignature.sourceSeriesId s.signatures)
    (hlib : Comparable lib) {selectedIds candidateIds : List Nat} {candidateId : Nat}
    (hne : selectedIds ≠ []) (hc : candidateId ∈ candidateIds) :
    ∃ matched ∈ selectedIds,
      (s.scoreCandidateSet lib selectedIds candidateIds).lookup candidateId =
        some ⟨s.scoreSeriesPair lib matched candidateId, matched⟩ ∧
      ∀ selected ∈ selectedIds, (s.scoreSeriesPair lib selected candidateId).score ≤
        (s.scoreSeriesPair lib matched candidateId).score := by
  set allIds := distinctSorted (selectedIds ++ candidateIds) with hall
  have hmem : ∀ {k}, k ∈ selectedIds ∨ k ∈ candidateIds → k ∈ allIds := by
    intro k hk
    rw [hall, distinctSorted, List.mem_insertionSort, List.mem_dedup, List.mem_append]
    exact hk
  have hpair : (selectedIds.map fun selectedId =>
        (selectedId, s.scorePair lib allIds selectedId candidateId)) =
      selectedIds.map fun selectedId =>
        (selectedId, s.scoreSeriesPair lib selectedId candidateId) :=
    List.map_congr_left fun selected hs => by
      rw [scorePair_eq hkeyed hlib (hmem (.inl hs)) (hmem (.inr hc))]
  obtain ⟨matched, hm, hbest, hle⟩ := exists_best
    (fun selectedId => s.scoreSeriesPair lib selectedId candidateId) PairScore.score hne
  refine ⟨matched, hm, ?_, hle⟩
  unfold scoreCandidateSet
  dsimp only
  rw [← hall, if_neg]
  · refine Dict.lookup_keepLast_eq (fun row hr hkey => ?_)
      ⟨(candidateId, ⟨s.scoreSeriesPair lib matched candidateId, matched⟩), ?_, rfl⟩
    · obtain ⟨candidate, -, he⟩ := List.mem_filterMap.mp hr
      obtain ⟨best, hb, rfl⟩ := Option.map_eq_some_iff.mp he
      obtain rfl : candidate = candidateId := hkey
      rw [hpair, hbest] at hb
      obtain rfl := Option.some.inj hb
      rfl
    · refine List.mem_filterMap.mpr ⟨candidateId, hc, ?_⟩
      rw [hpair, hbest]
      rfl
  · rw [Bool.or_eq_true, List.isEmpty_iff, List.isEmpty_iff, not_or]
    exact ⟨hne, List.ne_nil_of_mem hc⟩

end Gallery

/-! ## Two covers -/

/-- Covers are alike when their hashes are; no other features are compared. -/
def hashOnly : ScoreLib where
  toCatalogText := asciiCatalog
  casefold := asciiText.lower
  sequenceRatio left right := if left = right then 1 else 0
  compareSignatures left right :=
    { coverCompared := true
      coverMatch := false
      coverEvidenceState :=
        if 28 ≤ signatureDistance (some left) (some right) then .different else .inconclusive
      coverHashDistance := some (signatureDistance (some left) (some right))
      coverRatioMatches := some 0
      coverInliers := some 0
      coverInlierRatio := some 0 }

/-- A series, one with the same cover under another name, and one with another cover. -/
def coveredGallery : Gallery :=
  { series := [{ id := 1, storageKey := "a", title := "Blue Box" },
      { id := 2, storageKey := "b", title := "Ao no Hako" },
      { id := 3, storageKey := "c", title := "Blue Period" }]
    aliases := [{ id := 1, seriesId := 2, normalizedValue := "blue box"
                  displayValue := "Blue Box" }]
    identities := [{ id := 1, seriesId := 1, source := "asura", sourceId := "1", url := ""
                     title := "Blue Box" },
      { id := 2, seriesId := 2, source := "mangadex", sourceId := "2", url := ""
        title := "Ao no Hako" }]
    signatures := [{ sourceSeriesId := 1, hashes := ["ff"] },
      { sourceSeriesId := 2, hashes := ["fe"] }] }

end MangaManager
