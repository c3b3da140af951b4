import Mathlib.Data.Int.Bitwise
import MangaManager.Lib.Cliques
import MangaManager.Lib.Dict
import MangaManager.Series.Ingest

/-!
# Listings of one provider that are the same

`manga_manager/application/provider_duplicates.py`: the identities of a provider are put
into groups whose members are equivalent to each other. Only candidate pairs are compared:
those that share a title, an id or a URL, and those that share two words of the title and
have covers that are alike.

`provider_duplicate_groups_eq`: the groups are those of the comparison of all pairs.
-/

namespace MangaManager

open Lib

/-- A row of `cover_signature_v2`; `hashes` is that of `feature_json`. -/
structure CatalogCoverSignature where
  sourceSeriesId : Nat
  hashes : List String := []
  keypoints : List UInt8 := []
  descriptors : List UInt8 := []
  deriving DecidableEq

/-- The tables with the signatures of the covers. -/
structure Gallery extends Shelf where
  signatures : List CatalogCoverSignature := []
  deriving DecidableEq

/-! ## Covers -/

def hexDigit (c : Char) : Option Nat :=
  if c.isDigit then some (c.toNat - '0'.toNat)
  else if 'a' ≤ c ∧ c ≤ 'f' then some (c.toNat - 'a'.toNat + 10)
  else if 'A' ≤ c ∧ c ≤ 'F' then some (c.toNat - 'A'.toNat + 10)
  else none

/-- Digits, with single underscores between them. -/
def parseHexDigits (n : Nat) : List Char → Option Nat
  | [] => none
  | [c] => (hexDigit c).map (16 * n + ·)
  | c :: '_' :: cs => (hexDigit c).bind fun d => parseHexDigits (16 * n + d) cs
  | c :: cs => (hexDigit c).bind fun d => parseHexDigits (16 * n + d) cs

/-- The `0x` in front of a number may be there, and an underscore after it. -/
def dropHexMark : List Char → List Char
  | '0' :: x :: '_' :: cs => if x = 'x' ∨ x = 'X' then cs else '0' :: x :: '_' :: cs
  | '0' :: x :: cs => if x = 'x' ∨ x = 'X' then cs else '0' :: x :: cs
  | cs => cs

/-- `int(value, 16)` of a text whose digits are ASCII. -/
def parseHex (value : String) : Option Int :=
  let (negative, cs) := splitSign (stripChars value.toList)
  (parseHexDigits 0 (dropHexMark cs)).map fun n => if negative then -(n : Int) else n

/-- `int.bit_count`. -/
def bitCount (n : Int) : Nat := (List.range (n.natAbs.log2 + 1)).countP n.natAbs.testBit

/-- `_hamming_distance`. -/
def hammingDistance (left right : String) : Nat :=
  match parseHex left, parseHex right with
  | some a, some b => bitCount (Int.xor a b)
  | _, _ => 64

/-- `_signature_distance`. -/
def signatureDistance (left right : Option CatalogCoverSignature) : Nat :=
  let leftHashes := (left.map (·.hashes)).getD []
  let rightHashes := (right.map (·.hashes)).getD []
  ((leftHashes.flatMap fun a => rightHashes.map (hammingDistance a)).min?).getD 64

example :
    signatureDistance (some ⟨1, ["ff00", "zz"], [], []⟩) (some ⟨2, ["fe01"], [], []⟩) = 2 := by
  decide +kernel

/-! ## Evidence -/

/-- `value.split()`. -/
def splitWords (value : String) : List String :=
  ((value.toList.splitOnP isSpace).filter (!·.isEmpty)).map String.ofList

def titleTokenStopWords : List String := ["a", "an", "and", "of", "the", "to"]

def minimumStrongChapters : Nat := 5

def maximumEquivalentCoverHashDistance : Nat := 8

def minimumSharedTitleTokens : Nat := 2

section
variable (t : CatalogText)

/-- `_title_tokens`. -/
def titleTokens (value : String) : List String :=
  ((splitWords (t.normalizeTitle value)).filter fun token =>
    1 < token.length && !decide (token ∈ titleTokenStopWords)).dedup

/-- The title by which a listing is compared. -/
def CatalogSourceSeries.comparedTitle (i : CatalogSourceSeries) : String :=
  orText (t.normalizeTitle i.title) i.normalizedTitle

/-- The result of `duplicate_identity_evidence`; the ratio is not rounded. -/
structure DuplicateEvidence where
  equivalent : Bool
  identityEquivalent : Bool
  titleAgrees : Bool
  sharedTitleTokens : List String
  titleTokensAgree : Bool
  chapterOverlap : Nat
  comparedChapters : Nat
  chapterOverlapRatio : Rat
  strongChapterOverlap : Bool
  coverHashDistance : Nat
  strongCoverSimilarity : Bool
  conflictingExternalIds : List String
  deriving DecidableEq

/-- The providers under which both have an id, and not the same. -/
def conflictingExternalIds (left right : Dict String String) : List String :=
  (left.keys.filter fun provider => decide (provider ∈ right.keys) &&
    left.lookup provider != right.lookup provider).insertionSort (· ≤ ·)

/-- `duplicate_identity_evidence`. -/
def duplicateIdentityEvidence (left right : CatalogSourceSeries)
    (leftChapters rightChapters : Finset String)
    (leftExternalIds rightExternalIds : Dict String String)
    (coverHashDistance : Nat) : DuplicateEvidence :=
  let overlap := (leftChapters ∩ rightChapters).card
  let minimum := min leftChapters.card rightChapters.card
  let ratio : Rat := if minimum = 0 then 0 else mkRat overlap minimum
  let conflicting := conflictingExternalIds leftExternalIds rightExternalIds
  let identity := t.providerIdentitiesEquivalent left.listing right.listing
  let titleAgrees := left.comparedTitle t != "" && left.comparedTitle t == right.comparedTitle t
  let shared := ((titleTokens t left.title).filter fun token =>
    decide (token ∈ titleTokens t right.title)).insertionSort (· ≤ ·)
  let tokensAgree := decide (minimumSharedTitleTokens ≤ shared.length)
  let strongChapters := decide (minimumStrongChapters ≤ minimum) && decide (mkRat 9 10 ≤ ratio)
  let strongCover := decide (coverHashDistance ≤ maximumEquivalentCoverHashDistance)
  { equivalent := identity || (titleAgrees && strongChapters && conflicting.isEmpty) ||
      (strongCover && tokensAgree && strongChapters && conflicting.isEmpty)
    identityEquivalent := identity
    titleAgrees := titleAgrees
    sharedTitleTokens := shared
    titleTokensAgree := tokensAgree
    chapterOverlap := overlap
    comparedChapters := minimum
    chapterOverlapRatio := ratio
    strongChapterOverlap := strongChapters
    coverHashDistance := coverHashDistance
    strongCoverSimilarity := strongCover
    conflictingExternalIds := conflicting }

end

/-! ## Candidates -/

/-- The pairs of a bucket, each in the order of the ids. -/
def sortedPairs (ids : List Nat) : List (Nat × Nat) :=
  (pairs ids).map fun p => (min p.1 p.2, max p.1 p.2)

/-- `sorted(set(ids))`. -/
def distinctSorted {α : Type*} [DecidableEq α] [LE α] [DecidableLE α] (l : List α) : List α :=
  l.dedup.insertionSort (· ≤ ·)

/-- `ProviderDuplicateGroup`; the evidence is that of its pairs. -/
structure ProviderDuplicateGroup where
  source : String
  normalizedTitle : String
  identityIds : List Nat
  seriesIds : List Nat
  evidence : List ((Nat × Nat) × DuplicateEvidence)
  deriving DecidableEq

namespace Gallery

variable (t : CatalogText) (s : Gallery) (rows : List CatalogSourceSeries)

/-- The external ids of an identity, by provider. -/
def externalIds (identityId : Nat) : Dict String String :=
  Dict.keepLast (·.provider) (·.value) (s.identifiers.filter (·.sourceSeriesId == identityId))

def signature? (identityId : Nat) : Option CatalogCoverSignature :=
  Table.get CatalogCoverSignature.sourceSeriesId s.signatures identityId

/-- `buckets.setdefault(key, []).append(row.id)` for each key of each row. -/
def buckets {κ : Type} [DecidableEq κ] (keys : CatalogSourceSeries → List κ) : Dict κ (List Nat) :=
  Dict.collect Prod.fst Prod.snd (rows.flatMap fun i => (keys i).map (·, i.id))

def titleKeys (i : CatalogSourceSeries) : List (String × String) :=
  if i.comparedTitle t ≠ "" then [(i.source, i.comparedTitle t)] else []

/-- The keys of the id and of the URL. -/
def identityKeys (i : CatalogSourceSeries) : List (String × String × String) :=
  let normalizedId := t.normalizedSourceId i.sourceId
  let normalizedUrl := t.canonicalSourceUrl i.url
  (if normalizedId ≠ "" then [(i.source, "source_id", normalizedId)] else []) ++
    (if normalizedUrl ≠ "" then [(i.source, "url", normalizedUrl)] else [])

def tokenPairKeys (i : CatalogSourceSeries) : List (String × String × String) :=
  (pairs ((titleTokens t i.title).insertionSort (· ≤ ·))).map fun p => (i.source, p.1, p.2)

/-- The covers of the pair are alike. -/
def alike (pair : Nat × Nat) : Bool :=
  decide (signatureDistance (s.signature? pair.1) (s.signature? pair.2) ≤
    maximumEquivalentCoverHashDistance)

def candidatePairs : List (Nat × Nat) :=
  (buckets rows (titleKeys t)).entries.flatMap (fun b => sortedPairs b.2) ++
    (buckets rows (identityKeys t)).entries.flatMap (fun b => sortedPairs b.2) ++
    (buckets rows (tokenPairKeys t)).entries.flatMap fun b =>
      (pairs (distinctSorted b.2)).filter s.alike

/-- The chapters of an identity, read for the candidates only. -/
def candidateChapters (candidates : List (Nat × Nat)) (identityId : Nat) : Finset String :=
  if candidates.any fun p => p.1 == identityId || p.2 == identityId then
    s.sortableNumbers identityId
  else ∅

/-- `pair_evidence`: what is equivalent; none, when a pair is of no identity. -/
def pairEvidence (candidates : List (Nat × Nat)) : Option (Dict (Nat × Nat) DuplicateEvidence) := do
  let compared ← candidates.mapM fun pair => do
    let left ← Table.get CatalogSourceSeries.id rows pair.1
    let right ← Table.get CatalogSourceSeries.id rows pair.2
    let evidence := duplicateIdentityEvidence t left right
      (s.candidateChapters candidates left.id) (s.candidateChapters candidates right.id)
      (s.externalIds left.id) (s.externalIds right.id)
      (signatureDistance (s.signature? left.id) (s.signature? right.id))
    pure (pair, left.source == right.source && evidence.equivalent, evidence)
  pure (Dict.keepLast Prod.fst (·.2.2) (compared.filter (·.2.1)))

/-- The evidence of the pairs of a group; none, when a pair has none. -/
def groupOf (source : String) (evidence : Dict (Nat × Nat) DuplicateEvidence)
    (group : List CatalogSourceSeries) : Option ProviderDuplicateGroup := do
  let first ← group.head?
  let rows ← (pairs ((group.map (·.id)).insertionSort (· ≤ ·))).mapM fun pair =>
    (evidence.lookup pair).map (pair, ·)
  pure
    { source := source
      normalizedTitle := first.comparedTitle t
      identityIds := group.map (·.id)
      seriesIds := distinctSorted (group.map (·.seriesId))
      evidence := rows }

/-- The identities that are looked at, by id. -/
def lookedAt (seriesIds : Option (List Nat)) (excludedSources : List String) :
    List CatalogSourceSeries :=
  (s.identities.filter fun i => (seriesIds.all fun ids => decide (i.seriesId ∈ ids)) &&
    !decide (i.source ∈ excludedSources)).insertionSort (·.id ≤ ·.id)

/-- `provider_duplicate_groups`; none, when a lookup raises. -/
def providerDuplicateGroups (seriesIds : Option (List Nat)) (excludedSources : List String) :
    Option (List ProviderDuplicateGroup) := do
  let identities := s.lookedAt seriesIds excludedSources
  let evidence ← s.pairEvidence t identities (s.candidatePairs t identities)
  let groups ← (distinctSorted (identities.map (·.source))).mapM fun source =>
    let groups := cliques (fun row member =>
        (evidence.lookup (min row.id member.id, max row.id member.id)).any (·.equivalent))
      (identities.filter (·.source == source))
    (groups.filter (2 ≤ ·.length)).mapM (groupOf t source evidence)
  pure groups.flatten

/-! ## The comparison of all pairs -/

/-- The evidence of two identities, whether they are candidates or not. -/
def comparison (left right : CatalogSourceSeries) : DuplicateEvidence :=
  duplicateIdentityEvidence t left right (s.sortableNumbers left.id) (s.sortableNumbers right.id)
    (s.externalIds left.id) (s.externalIds right.id)
    (signatureDistance (s.signature? left.id) (s.signature? right.id))

/-- Two identities of one provider are equivalent; they are compared in the order of their ids. -/
def sameListing (a b : CatalogSourceSeries) : Bool :=
  a.source == b.source &&
    (if a.id ≤ b.id then s.comparison t a b else s.comparison t b a).equivalent

/-- The first-fit cliques of the providers, singletons included. -/
def identityGroups : List (List CatalogSourceSeries) :=
  (distinctSorted (rows.map (·.source))).flatMap fun source =>
    cliques (s.sameListing t) (rows.filter (·.source == source))

def duplicateGroup (group : List CatalogSourceSeries) : ProviderDuplicateGroup :=
  { source := (group.head?.map (·.source)).getD ""
    normalizedTitle := (group.head?.map (·.comparedTitle t)).getD ""
    identityIds := group.map (·.id)
    seriesIds := distinctSorted (group.map (·.seriesId))
    evidence := (pairs group).map fun p => ((p.1.id, p.2.id), s.comparison t p.1 p.2) }

end Gallery

/-! ## Completeness of the candidates -/

section
variable {α : Type*} [LE α] [Std.IsLinearOrder α] {l : List α} {x y : α}

/-- In a sorted list the smaller of two elements comes first. -/
theorem mem_pairs_insertionSort [DecidableLE α] (hx : x ∈ l) (hy : y ∈ l) (hle : x ≤ y)
    (hne : x ≠ y) : (x, y) ∈ pairs (l.insertionSort (· ≤ ·)) := by
  have hmem : ∀ {z}, z ∈ l → z ∈ l.insertionSort (· ≤ ·) :=
    fun hz => (List.mem_insertionSort (· ≤ ·)).mpr hz
  rcases mem_pairs_of_ne (hmem hx) (hmem hy) hne with h | h
  · exact h
  · have hge : y ≤ x := rel_of_mem_pairs (List.pairwise_insertionSort (· ≤ ·) l) h
    exact absurd (Std.le_antisymm hle hge) hne

/-- Two elements of a list without repetitions. -/
theorem exists_le_of_two_le (hl : l.Nodup) (h : 2 ≤ l.length) :
    ∃ x ∈ l, ∃ y ∈ l, x ≤ y ∧ x ≠ y := by
  match l, hl, h with
  | x :: y :: l, hl, _ =>
    have hne : x ≠ y := fun he => (List.nodup_cons.mp hl).1 (he ▸ List.mem_cons_self)
    rcases Std.le_total (a := x) (b := y) with hle | hle
    · exact ⟨x, by simp, y, by simp, hle, hne⟩
    · exact ⟨y, by simp, x, by simp, hle, hne.symm⟩

end

namespace Gallery

variable {t : CatalogText} {s : Gallery} {rows : List CatalogSourceSeries}
  {a b i j : CatalogSourceSeries} {seriesIds : Option (List Nat)} {excludedSources : List String}

/-- Two rows with a common key are a pair of its bucket. -/
theorem exists_bucket {κ : Type} [DecidableEq κ] {keys : CatalogSourceSeries → List κ} {k : κ}
    (ha : a ∈ rows) (hb : b ∈ rows) (hlt : a.id < b.id) (hka : k ∈ keys a) (hkb : k ∈ keys b) :
    ∃ bucket ∈ (buckets rows keys).entries, a.id ∈ bucket.2 ∧ b.id ∈ bucket.2 ∧
      (a.id, b.id) ∈ sortedPairs bucket.2 := by
  have hrow : ∀ {i}, i ∈ rows → k ∈ keys i →
      (k, i.id) ∈ rows.flatMap fun i => (keys i).map (·, i.id) := by
    intro i hi hk
    exact List.mem_flatMap.mpr ⟨i, hi, List.mem_map.mpr ⟨k, hk, rfl⟩⟩
  have hm : ∀ {i}, i ∈ rows → k ∈ keys i →
      i.id ∈ ((rows.flatMap fun i => (keys i).map (·, i.id)).filter (·.1 = k)).map Prod.snd := by
    intro i hi hk
    exact List.mem_map.mpr ⟨(k, i.id), List.mem_filter.mpr ⟨hrow hi hk, by simp⟩, rfl⟩
  refine ⟨_, Dict.exists_list (hrow ha hka), hm ha hka, hm hb hkb, ?_⟩
  rw [sortedPairs, List.mem_map]
  rcases mem_pairs_of_ne (hm ha hka) (hm hb hkb) hlt.ne with h | h
  · exact ⟨_, h, by rw [min_eq_left hlt.le, max_eq_right hlt.le]⟩
  · exact ⟨_, h, by rw [min_eq_right hlt.le, max_eq_left hlt.le]⟩

theorem candidate_of_title (ha : a ∈ rows) (hb : b ∈ rows) (hlt : a.id < b.id)
    (hs : a.source = b.source) (hne : a.comparedTitle t ≠ "")
    (he : a.comparedTitle t = b.comparedTitle t) : (a.id, b.id) ∈ s.candidatePairs t rows := by
  have hka : (a.source, a.comparedTitle t) ∈ titleKeys t a := by simp [titleKeys, hne]
  have hkb : (a.source, a.comparedTitle t) ∈ titleKeys t b := by
    rw [he] at hne ⊢
    simp [titleKeys, hne, hs]
  obtain ⟨bucket, hm, -, -, hp⟩ := exists_bucket ha hb hlt hka hkb
  exact List.mem_append_left _ (List.mem_append_left _ (List.mem_flatMap.mpr ⟨bucket, hm, hp⟩))

/-- Equivalent identities have a key in common, of their id or of their URL. -/
theorem exists_identityKey (h : t.providerIdentitiesEquivalent a.listing b.listing = true) :
    ∃ k, k ∈ identityKeys t a ∧ k ∈ identityKeys t b := by
  unfold TextLib.providerIdentitiesEquivalent at h
  split at h
  · cases h
  rename_i hs
  have hs : a.source = b.source := not_not.mp hs
  dsimp only at h
  split at h
  · rename_i hid
    obtain ⟨hne, he⟩ : t.normalizedSourceId a.sourceId ≠ "" ∧
      t.normalizedSourceId a.sourceId = t.normalizedSourceId b.sourceId := hid
    refine ⟨(a.source, "source_id", t.normalizedSourceId a.sourceId), ?_, ?_⟩
    · simp [identityKeys, hne]
    · rw [he] at hne ⊢
      simp [identityKeys, hne, hs]
  · obtain ⟨hne, he⟩ : t.canonicalSourceUrl a.url ≠ "" ∧
      t.canonicalSourceUrl a.url = t.canonicalSourceUrl b.url := of_decide_eq_true h
    refine ⟨(a.source, "url", t.canonicalSourceUrl a.url), ?_, ?_⟩
    · simp [identityKeys, hne]
    · rw [he] at hne ⊢
      simp [identityKeys, hne, hs]

theorem candidate_of_identity (ha : a ∈ rows) (hb : b ∈ rows) (hlt : a.id < b.id)
    (h : t.providerIdentitiesEquivalent a.listing b.listing = true) :
    (a.id, b.id) ∈ s.candidatePairs t rows := by
  obtain ⟨k, hka, hkb⟩ := exists_identityKey h
  obtain ⟨bucket, hm, -, -, hp⟩ := exists_bucket ha hb hlt hka hkb
  exact List.mem_append_left _ (List.mem_append_right _ (List.mem_flatMap.mpr ⟨bucket, hm, hp⟩))

/-- Two words that are in both titles. -/
theorem candidate_of_tokens (ha : a ∈ rows) (hb : b ∈ rows) (hlt : a.id < b.id)
    (hs : a.source = b.source) {x y : String} (hle : x ≤ y) (hne : x ≠ y)
    (hax : x ∈ titleTokens t a.title) (hay : y ∈ titleTokens t a.title)
    (hbx : x ∈ titleTokens t b.title) (hby : y ∈ titleTokens t b.title)
    (hcover : s.alike (a.id, b.id) = true) : (a.id, b.id) ∈ s.candidatePairs t rows := by
  have hka : (a.source, x, y) ∈ tokenPairKeys t a :=
    List.mem_map.mpr ⟨(x, y), mem_pairs_insertionSort hax hay hle hne, rfl⟩
  have hkb : (a.source, x, y) ∈ tokenPairKeys t b :=
    List.mem_map.mpr ⟨(x, y), mem_pairs_insertionSort hbx hby hle hne, by rw [hs]⟩
  obtain ⟨bucket, hm, hma, hmb, -⟩ := exists_bucket ha hb hlt hka hkb
  refine List.mem_append_right _ (List.mem_flatMap.mpr ⟨bucket, hm, ?_⟩)
  refine List.mem_filter.mpr ⟨?_, hcover⟩
  exact mem_pairs_insertionSort (List.mem_dedup.mpr hma) (List.mem_dedup.mpr hmb) hlt.le hlt.ne

/-- Identities of one provider that are equivalent are candidates. -/
theorem candidate_of_equivalent (ha : a ∈ rows) (hb : b ∈ rows) (hlt : a.id < b.id)
    (hs : a.source = b.source) (h : (s.comparison t a b).equivalent = true) :
    (a.id, b.id) ∈ s.candidatePairs t rows := by
  simp only [comparison, duplicateIdentityEvidence, Bool.or_eq_true, Bool.and_eq_true, bne_iff_ne,
    beq_iff_eq, decide_eq_true_eq] at h
  rcases h with (hid | ⟨⟨⟨hne, he⟩, -⟩, -⟩) | ⟨⟨⟨hcover, htokens⟩, -⟩, -⟩
  · exact candidate_of_identity ha hb hlt hid
  · exact candidate_of_title ha hb hlt hs hne he
  · rw [List.length_insertionSort] at htokens
    have hnd : (titleTokens t a.title).Nodup := List.nodup_dedup _
    obtain ⟨x, hx, y, hy, hle, hne⟩ := exists_le_of_two_le (hnd.filter _) htokens
    simp only [List.mem_filter, decide_eq_true_eq] at hx hy
    exact candidate_of_tokens ha hb hlt hs hle hne hx.1 hy.1 hx.2 hy.2 (decide_eq_true hcover)

/-! ## What the dictionary of the pairs holds -/

/-- The candidates are identities that are looked at. -/
theorem mem_candidatePairs {p : Nat × Nat} (h : p ∈ s.candidatePairs t rows) :
    (∃ i ∈ rows, i.id = p.1) ∧ ∃ i ∈ rows, i.id = p.2 := by
  have hbucket : ∀ {κ : Type} [DecidableEq κ] {keys : CatalogSourceSeries → List κ}
      {bucket : (_ : κ) × List Nat} {x : Nat}, bucket ∈ (buckets rows keys).entries →
      x ∈ bucket.2 → ∃ i ∈ rows, i.id = x := by
    intro κ _ keys bucket x hb hx
    obtain ⟨r, hr, rfl⟩ := Dict.mem_of_entry hb hx
    obtain ⟨i, hi, hri⟩ := List.mem_flatMap.mp hr
    obtain ⟨k, -, rfl⟩ := List.mem_map.mp hri
    exact ⟨i, hi, rfl⟩
  have hsorted : ∀ {l : List Nat}, p ∈ sortedPairs l → p.1 ∈ l ∧ p.2 ∈ l := by
    intro l hp
    obtain ⟨q, hq, rfl⟩ := List.mem_map.mp hp
    obtain ⟨h1, h2⟩ := mem_of_mem_pairs hq
    rcases le_total q.1 q.2 with hle | hle
    · rw [min_eq_left hle, max_eq_right hle]
      exact ⟨h1, h2⟩
    · rw [min_eq_right hle, max_eq_left hle]
      exact ⟨h2, h1⟩
  rcases List.mem_append.mp h with h | h
  · rcases List.mem_append.mp h with h | h
    all_goals
      obtain ⟨bucket, hb, hp⟩ := List.mem_flatMap.mp h
      exact ⟨hbucket hb (hsorted hp).1, hbucket hb (hsorted hp).2⟩
  · obtain ⟨bucket, hb, hp⟩ := List.mem_flatMap.mp h
    obtain ⟨h1, h2⟩ := mem_of_mem_pairs (List.mem_filter.mp hp).1
    have hmem : ∀ {x}, x ∈ distinctSorted bucket.2 → x ∈ bucket.2 := fun hx =>
      List.mem_dedup.mp ((List.mem_insertionSort _).mp hx)
    exact ⟨hbucket hb (hmem h1), hbucket hb (hmem h2)⟩

theorem candidateChapters_eq {candidates : List (Nat × Nat)} {p : Nat × Nat} {id : Nat}
    (hp : p ∈ candidates) (h : p.1 = id ∨ p.2 = id) :
    s.candidateChapters candidates id = s.sortableNumbers id := by
  rw [candidateChapters, if_pos]
  exact List.any_eq_true.mpr ⟨p, hp, by simpa using h⟩

/-- The evidence is there for the pairs that are equivalent, and for no others. -/
theorem lookup_pairEvidence (hk : Table.Keyed CatalogSourceSeries.id rows) :
    ∃ d, s.pairEvidence t rows (s.candidatePairs t rows) = some d ∧
      ∀ a ∈ rows, ∀ b ∈ rows, a.id < b.id → d.lookup (a.id, b.id) =
        if a.source == b.source && (s.comparison t a b).equivalent then some (s.comparison t a b)
        else none := by
  set candidates := s.candidatePairs t rows with hc
  obtain ⟨compared, hmap, hfor, hback⟩ := mapM_exists (l := candidates)
    (P := fun p (r : (Nat × Nat) × Bool × DuplicateEvidence) => ∃ a ∈ rows, ∃ b ∈ rows,
      a.id = p.1 ∧ b.id = p.2 ∧
        r = (p, a.source == b.source && (s.comparison t a b).equivalent, s.comparison t a b))
    (g := fun pair => do
      let left ← Table.get CatalogSourceSeries.id rows pair.1
      let right ← Table.get CatalogSourceSeries.id rows pair.2
      let evidence := duplicateIdentityEvidence t left right
        (s.candidateChapters candidates left.id) (s.candidateChapters candidates right.id)
        (s.externalIds left.id) (s.externalIds right.id)
        (signatureDistance (s.signature? left.id) (s.signature? right.id))
      pure (pair, left.source == right.source && evidence.equivalent, evidence)) (by
    intro p hp
    obtain ⟨⟨a, ha, ha1⟩, b, hb, hb2⟩ := mem_candidatePairs hp
    refine ⟨_, ?_, a, ha, b, hb, ha1, hb2, rfl⟩
    rw [← ha1, ← hb2, hk.get_eq ha, hk.get_eq hb]
    simp only [Option.bind_eq_bind, Option.bind_some, comparison,
      candidateChapters_eq hp (.inl ha1.symm), candidateChapters_eq hp (.inr hb2.symm)]
    rfl)
  refine ⟨_, by rw [pairEvidence, hmap]; rfl, fun a ha b hb hlt => ?_⟩
  have hrow : ∀ r ∈ compared, r.1 = (a.id, b.id) →
      r.2 = (a.source == b.source && (s.comparison t a b).equivalent, s.comparison t a b) := by
    intro r hr hkey
    obtain ⟨p, -, a', ha', b', hb', ha1, hb2, rfl⟩ := hback r hr
    obtain ⟨h1, h2⟩ := Prod.mk.inj hkey
    obtain rfl : a' = a := hk.eq ha' ha (ha1.trans h1)
    obtain rfl : b' = b := hk.eq hb' hb (hb2.trans h2)
    rfl
  split
  · rename_i hequiv
    obtain ⟨hs, he⟩ := Bool.and_eq_true_iff.mp hequiv
    refine Dict.lookup_keepLast_eq (fun r hr hkey => ?_) ?_
    · rw [hrow r (List.mem_filter.mp hr).1 hkey]
    · obtain ⟨r, hr, a', ha', b', hb', ha1, hb2, rfl⟩ := hfor _
        (candidate_of_equivalent ha hb hlt (by simpa using hs) he)
      obtain rfl : a' = a := hk.eq ha' ha ha1
      obtain rfl : b' = b := hk.eq hb' hb hb2
      exact ⟨_, List.mem_filter.mpr ⟨hr, hequiv⟩, rfl⟩
  · rename_i hno
    refine Dict.lookup_keepLast_none fun r hr hkey => hno ?_
    obtain ⟨hr, hequiv⟩ := List.mem_filter.mp hr
    rwa [hrow r hr hkey] at hequiv

/-! ## The groups -/

theorem sameListing_of_lt (hlt : a.id < b.id) :
    s.sameListing t b a = (a.source == b.source && (s.comparison t a b).equivalent) := by
  rw [sameListing, if_neg (not_le.mpr hlt), Bool.beq_comm]

theorem sameListing_comm (hne : a.id ≠ b.id) : s.sameListing t a b = s.sameListing t b a := by
  rcases lt_or_gt_of_ne hne with h | h
  · rw [sameListing_of_lt h, sameListing, if_pos h.le]
  · rw [sameListing_of_lt h, sameListing, if_pos h.le]

/-- The scan over the dictionary makes the cliques of the comparison of all pairs. -/
theorem cliques_lookup {l : List CatalogSourceSeries} {d : Dict (Nat × Nat) DuplicateEvidence}
    (hsub : l ⊆ rows) (hl : l.Pairwise fun a b => a.id < b.id)
    (hd : ∀ a ∈ rows, ∀ b ∈ rows, a.id < b.id → d.lookup (a.id, b.id) =
      if a.source == b.source && (s.comparison t a b).equivalent then some (s.comparison t a b)
      else none) :
    cliques (fun row member =>
      (d.lookup (min row.id member.id, max row.id member.id)).any (·.equivalent)) l =
        cliques (s.sameListing t) l := by
  refine cliques_congr (hl.imp_of_mem fun {a b} ha hb hlt => ?_)
  rw [min_eq_right hlt.le, max_eq_left hlt.le, hd a (hsub ha) b (hsub hb) hlt,
    sameListing_of_lt hlt]
  split
  · rename_i h
    rw [h, Option.any_some]
    exact (Bool.and_eq_true_iff.mp h).2
  · rename_i h
    rw [Option.any_none]
    simpa using h

/-- The record of a clique. -/
theorem groupOf_eq {source : String} {d : Dict (Nat × Nat) DuplicateEvidence}
    {l group : List CatalogSourceSeries} (hsub : l ⊆ rows)
    (hl : l.Pairwise fun a b => a.id < b.id) (hsource : ∀ i ∈ l, i.source = source)
    (hd : ∀ a ∈ rows, ∀ b ∈ rows, a.id < b.id → d.lookup (a.id, b.id) =
      if a.source == b.source && (s.comparison t a b).equivalent then some (s.comparison t a b)
      else none)
    (hg : group ∈ cliques (s.sameListing t) l) :
    groupOf t source d group = some (s.duplicateGroup t group) := by
  have hgl := cliques_sublist hg
  have hsorted : group.Pairwise fun a b => a.id < b.id := hl.sublist hgl
  have hids : (group.map (·.id)).insertionSort (· ≤ ·) = group.map (·.id) :=
    List.Pairwise.insertionSort_eq (List.pairwise_map.mpr (hsorted.imp fun h => h.le))
  have hrows : (pairs (group.map (·.id))).mapM (fun pair => (d.lookup pair).map (pair, ·)) =
      some ((pairs group).map fun p => ((p.1.id, p.2.id), s.comparison t p.1 p.2)) := by
    rw [pairs_map, List.mapM_map]
    refine mapM_eq_some fun p hp => ?_
    obtain ⟨a, b⟩ := p
    obtain ⟨ha, hb⟩ := mem_of_mem_pairs hp
    have hlt : a.id < b.id :=
      rel_of_mem_pairs (r := fun a b : CatalogSourceSeries => a.id < b.id) hsorted hp
    have hsame : s.sameListing t b a = true :=
      rel_of_mem_pairs (r := fun a b => s.sameListing t b a = true) (cliques_related hg) hp
    rw [sameListing_of_lt hlt] at hsame
    show (d.lookup (a.id, b.id)).map _ = _
    rw [hd a (hsub (hgl.subset ha)) b (hsub (hgl.subset hb)) hlt, if_pos hsame]
    rfl
  obtain ⟨first, rest, rfl⟩ := List.exists_cons_of_ne_nil (cliques_ne_nil hg)
  have hfirst : first.source = source := hsource first (hgl.subset List.mem_cons_self)
  unfold groupOf
  rw [hids, hrows]
  simp [duplicateGroup, hfirst]

theorem lookedAt_sorted (hk : Table.Keyed CatalogSourceSeries.id s.identities) :
    (s.lookedAt seriesIds excludedSources).Pairwise fun a b => a.id < b.id := by
  have hnd : ((s.lookedAt seriesIds excludedSources).map (·.id)).Nodup := by
    refine ((List.perm_insertionSort _ _).map _).nodup_iff.mpr ?_
    exact List.Nodup.sublist (List.filter_sublist.map _) hk
  have hle : (s.lookedAt seriesIds excludedSources).Pairwise fun a b => a.id ≤ b.id :=
    List.pairwise_insertionSort (fun a b : CatalogSourceSeries => a.id ≤ b.id) _
  exact (hle.and (List.pairwise_map.mp hnd)).imp fun h => lt_of_le_of_ne h.1 h.2

theorem providerDuplicateGroups_eq (hk : Table.Keyed CatalogSourceSeries.id s.identities) :
    s.providerDuplicateGroups t seriesIds excludedSources =
      some (((s.identityGroups t (s.lookedAt seriesIds excludedSources)).filter
        (2 ≤ ·.length)).map (s.duplicateGroup t)) := by
  set rows := s.lookedAt seriesIds excludedSources with hrows
  have hsorted : rows.Pairwise fun a b => a.id < b.id := lookedAt_sorted hk
  have hkeyed : Table.Keyed CatalogSourceSeries.id rows :=
    List.pairwise_map.mpr (hsorted.imp fun h => h.ne)
  obtain ⟨d, hd, hlookup⟩ := lookup_pairEvidence (t := t) (s := s) hkeyed
  have hgroups : ∀ source, ((cliques (fun row member =>
      (d.lookup (min row.id member.id, max row.id member.id)).any (·.equivalent))
        (rows.filter (·.source == source))).filter (2 ≤ ·.length)).mapM (groupOf t source d) =
      some (((cliques (s.sameListing t) (rows.filter (·.source == source))).filter
        (2 ≤ ·.length)).map (s.duplicateGroup t)) := by
    intro source
    have hsub : rows.filter (·.source == source) ⊆ rows := List.filter_subset_self _
    have hl := hsorted.filter (·.source == source)
    rw [cliques_lookup hsub hl hlookup]
    refine mapM_eq_some fun group hg => ?_
    exact groupOf_eq hsub hl (fun i hi => by simpa using (List.mem_filter.mp hi).2) hlookup
      (List.mem_filter.mp hg).1
  unfold providerDuplicateGroups
  dsimp only
  rw [← hrows, hd]
  simp only [Option.bind_eq_bind, Option.bind_some, Option.pure_def]
  rw [mapM_eq_some fun source _ => hgroups source, Option.bind_some, identityGroups,
    List.filter_flatMap, List.map_flatMap, List.flatMap_def]

/-- A group of a provider. -/
theorem mem_identityGroups {group : List CatalogSourceSeries}
    (h : group ∈ s.identityGroups t rows) : group.Sublist rows ∧ group ≠ [] ∧
      group.Pairwise fun a b => s.sameListing t b a = true := by
  obtain ⟨source, -, hg⟩ := List.mem_flatMap.mp h
  exact ⟨(cliques_sublist hg).trans List.filter_sublist, cliques_ne_nil hg, cliques_related hg⟩

/-- What holds of two groups of one provider, and of two of different ones, holds of all groups. -/
theorem identityGroups_pairwise {r : List CatalogSourceSeries → List CatalogSourceSeries → Prop}
    (hsame : ∀ source, (cliques (s.sameListing t) (rows.filter (·.source == source))).Pairwise r)
    (hother : ∀ g h, g ≠ [] → h ≠ [] → (∀ a ∈ g, ∀ b ∈ h, a.source ≠ b.source) → r g h) :
    (s.identityGroups t rows).Pairwise r := by
  refine List.pairwise_flatMap.mpr ⟨fun source _ => hsame source, ?_⟩
  have hnd : (distinctSorted (rows.map (·.source))).Nodup :=
    (List.perm_insertionSort _ _).nodup_iff.mpr (List.nodup_dedup _)
  refine hnd.imp fun {x y} hne g hg h hh => ?_
  refine hother g h (cliques_ne_nil hg) (cliques_ne_nil hh) fun a ha b hb he => hne ?_
  have hsource : ∀ {z : String} {l : List CatalogSourceSeries} {i},
      l ∈ cliques (s.sameListing t) (rows.filter (·.source == z)) → i ∈ l → i.source = z :=
    fun hl hi => by simpa using (List.mem_filter.mp (mem_of_mem_cliques hl hi)).2
  rw [← hsource hg ha, he, hsource hh hb]

/-- The groups share no identity. -/
theorem identityGroups_disjoint (hnd : rows.Nodup) :
    (s.identityGroups t rows).Pairwise List.Disjoint := by
  refine identityGroups_pairwise (fun source => ?_) fun g h _ _ hne a ha hb => hne a ha a hb rfl
  have hflat : (cliques (s.sameListing t) (rows.filter (·.source == source))).flatten.Nodup :=
    cliques_perm.nodup_iff.mpr (hnd.filter _)
  exact (List.nodup_flatten.mp hflat).2

/-- No two groups are equivalent throughout. -/
theorem identityGroups_separate :
    (s.identityGroups t rows).Pairwise (Separate (s.sameListing t)) := by
  refine identityGroups_pairwise (fun source => cliques_separate) fun g h hg hh hne => ?_
  obtain ⟨a, ha⟩ := List.exists_mem_of_ne_nil g hg
  obtain ⟨b, hb⟩ := List.exists_mem_of_ne_nil h hh
  refine ⟨b, hb, a, ha, ?_⟩
  rw [sameListing, beq_false_of_ne (Ne.symm (hne a ha b hb)), Bool.false_and]

/-- The groups are the first-fit cliques of the comparison of all pairs: they share no identity,
their members are equivalent to each other, and no two of them, singletons included, are
equivalent throughout. -/
theorem provider_duplicate_groups_spec (hk : Table.Keyed CatalogSourceSeries.id s.identities) :
    let rows := s.lookedAt seriesIds excludedSources
    ∃ groups, s.providerDuplicateGroups t seriesIds excludedSources = some groups ∧
      groups = ((s.identityGroups t rows).filter (2 ≤ ·.length)).map (s.duplicateGroup t) ∧
      groups.Pairwise (fun g h => List.Disjoint g.identityIds h.identityIds) ∧
      (∀ group ∈ groups, ∀ a ∈ rows, ∀ b ∈ rows, a.id ∈ group.identityIds →
        b.id ∈ group.identityIds → a.id ≠ b.id → s.sameListing t a b = true) ∧
      (s.identityGroups t rows).Pairwise fun g h =>
        ∃ a ∈ h, ∃ b ∈ g, s.sameListing t a b = false := by
  intro rows
  have hsorted : rows.Pairwise fun a b => a.id < b.id := lookedAt_sorted hk
  have hids : ∀ {a b}, a ∈ rows → b ∈ rows → a.id = b.id → a = b := by
    intro a b ha hb he
    exact Table.Keyed.eq (List.pairwise_map.mpr (hsorted.imp fun h => h.ne)) ha hb he
  refine ⟨_, providerDuplicateGroups_eq hk, rfl, ?_, ?_, identityGroups_separate⟩
  · rw [List.pairwise_map]
    refine List.Pairwise.filter _ ?_
    refine (identityGroups_disjoint (hsorted.imp fun h he => h.ne (congrArg _ he))).imp_of_mem
      fun {g h} hg hh hdis => ?_
    intro id hidg hidh
    obtain ⟨a, ha, rfl⟩ := List.mem_map.mp hidg
    obtain ⟨b, hb, hab⟩ := List.mem_map.mp hidh
    obtain rfl := hids ((mem_identityGroups hh).1.subset hb) ((mem_identityGroups hg).1.subset ha)
      hab
    exact hdis ha hb
  · intro group hgroup a ha b hb hia hib hne
    obtain ⟨g, hg, rfl⟩ := List.mem_map.mp hgroup
    obtain ⟨hsub, -, hrel⟩ := mem_identityGroups (List.mem_filter.mp hg).1
    have hmem : ∀ {i}, i ∈ rows → i.id ∈ g.map (·.id) → i ∈ g := by
      intro i hi hid
      obtain ⟨j, hj, hji⟩ := List.mem_map.mp hid
      obtain rfl := hids (hsub.subset hj) hi hji
      exact hj
    rcases mem_pairs_of_ne (hmem ha hia) (hmem hb hib) fun he => hne (congrArg _ he) with h | h
    · rw [sameListing_comm hne]
      exact rel_of_mem_pairs (r := fun a b => s.sameListing t b a = true) hrel h
    · exact rel_of_mem_pairs (r := fun a b => s.sameListing t b a = true) hrel h

end Gallery

/-! ## The comparison of the ingest -/

theorem conflictingExternalIds_isEmpty {left right : Dict String String} :
    (conflictingExternalIds left right).isEmpty = true ↔ ∀ provider v w,
      left.lookup provider = some v → right.lookup provider = some w → v = w := by
  rw [List.isEmpty_iff, ← List.length_eq_zero_iff, conflictingExternalIds,
    List.length_insertionSort, List.length_eq_zero_iff, List.filter_eq_nil_iff]
  constructor
  · intro h provider v w hv hw
    by_contra hne
    refine h provider (AList.mem_keys.mpr (AList.lookup_isSome.mp (by rw [hv]; rfl))) ?_
    rw [hv, hw, Bool.and_eq_true, decide_eq_true_eq, bne_iff_ne]
    exact ⟨AList.mem_keys.mpr (AList.lookup_isSome.mp (by rw [hw]; rfl)),
      fun he => hne (Option.some.inj he)⟩
  · intro h provider hp hc
    obtain ⟨hr, hne⟩ := Bool.and_eq_true_iff.mp hc
    obtain ⟨v, hv⟩ := Option.isSome_iff_exists.mp (AList.lookup_isSome.mpr (AList.mem_keys.mp hp))
    have hr : provider ∈ right.keys := by simpa using hr
    obtain ⟨w, hw⟩ := Option.isSome_iff_exists.mp (AList.lookup_isSome.mpr (AList.mem_keys.mp hr))
    rw [hv, hw, h provider v w hv hw, bne_self_eq_false] at hne
    cases hne

theorem ratio_le_iff {overlap minimum : Nat} (h : 0 < minimum) :
    mkRat 9 10 ≤ (if minimum = 0 then 0 else mkRat overlap minimum) ↔
      9 * minimum ≤ 10 * overlap := by
  rw [if_neg h.ne', Rat.mkRat_eq_div, Rat.mkRat_eq_div, div_le_div_iff₀ (by norm_num)
    (by exact_mod_cast h)]
  constructor
  · intro hle
    have hle : (9 * minimum : Rat) ≤ overlap * 10 := by exact_mod_cast hle
    have hle : 9 * minimum ≤ overlap * 10 := by exact_mod_cast hle
    omega
  · intro hle
    have hle : 9 * minimum ≤ overlap * 10 := by omega
    exact_mod_cast hle

/-- The row that the ingest compares with the identities. -/
def incomingRow (t : CatalogText) (item : SeriesItem) : CatalogSourceSeries :=
  { id := 0, seriesId := 0, source := item.source, sourceId := item.sourceId, title := item.title
    url := item.url, normalizedTitle := t.normalizeTitle item.title }

/-- What the ingest asks of an item is the comparison without covers. -/
theorem duplicateEvidence_isSome {t : CatalogText} {s : Gallery} (left : CatalogSourceSeries)
    (item : SeriesItem) (leftChapters rightChapters : Finset String)
    (hids : ∀ x ∈ s.identifiers, ∀ y ∈ s.identifiers, x.sourceSeriesId = y.sourceSeriesId →
      x.provider = y.provider → x.value = y.value)
    (hitem : (item.externalIds.map Prod.fst).Nodup) :
    (s.duplicateEvidence t left item leftChapters rightChapters).isSome =
      (duplicateIdentityEvidence t left (incomingRow t item) leftChapters rightChapters
        (s.externalIds left.id) (Dict.keepLast Prod.fst Prod.snd item.externalIds)
        64).equivalent := by
  have hleft : ∀ provider value, (s.externalIds left.id).lookup provider = some value ↔
      ∃ x ∈ s.identifiers,
        x.sourceSeriesId = left.id ∧ x.provider = provider ∧ x.value = value := by
    intro provider value
    rw [Gallery.externalIds, Dict.lookup_keepLast_iff]
    · simp only [List.mem_filter, beq_iff_eq, and_assoc]
    · intro x hx y hy hxy
      simp only [List.mem_filter, beq_iff_eq] at hx hy
      exact hids x hx.1 y hy.1 (hx.2.trans hy.2.symm) hxy
  have hright : ∀ provider value,
      (Dict.keepLast Prod.fst Prod.snd item.externalIds).lookup provider = some value ↔
        (provider, value) ∈ item.externalIds := by
    intro provider value
    rw [Dict.lookup_keepLast_iff]
    · constructor
      · rintro ⟨⟨p, v⟩, hr, rfl, rfl⟩
        exact hr
      · exact fun h => ⟨_, h, rfl, rfl⟩
    · intro x hx y hy hxy
      rw [List.inj_on_of_nodup_map hitem hx hy hxy]
  have hconflict : (s.identifiers.any fun x => x.sourceSeriesId == left.id &&
      item.externalIds.any fun p => p.1 == x.provider && p.2 != x.value) =
        !(conflictingExternalIds (s.externalIds left.id)
          (Dict.keepLast Prod.fst Prod.snd item.externalIds)).isEmpty := by
    rw [Bool.eq_iff_iff, Bool.not_eq_true', ← Bool.not_eq_true, conflictingExternalIds_isEmpty,
      List.any_eq_true]
    constructor
    · rintro ⟨x, hx, hc⟩ hall
      simp only [Bool.and_eq_true, beq_iff_eq, List.any_eq_true, bne_iff_ne] at hc
      obtain ⟨hid, ⟨p, v⟩, hp, hpx, hv⟩ := hc
      exact hv (hall p x.value v ((hleft _ _).mpr ⟨x, hx, hid, hpx.symm, rfl⟩)
        ((hright _ _).mpr hp)).symm
    · intro hno
      push Not at hno
      obtain ⟨p, v, w, hv, hw, hne⟩ := hno
      obtain ⟨x, hx, hid, rfl, rfl⟩ := (hleft p v).mp hv
      refine ⟨x, hx, ?_⟩
      simp only [Bool.and_eq_true, beq_iff_eq, List.any_eq_true, bne_iff_ne]
      exact ⟨hid, _, (hright _ _).mp hw, rfl, hne.symm⟩
  have htitle : (incomingRow t item).comparedTitle t = t.normalizeTitle item.title := by
    show orText (t.normalizeTitle item.title) (t.normalizeTitle item.title) = _
    rw [orText, ite_self]
  unfold Shelf.duplicateEvidence duplicateIdentityEvidence
  dsimp only
  have hstrong : ∀ overlap minimum : Nat, (decide (minimumStrongChapters ≤ minimum) &&
      decide (mkRat 9 10 ≤ if minimum = 0 then 0 else mkRat overlap minimum)) =
        decide (5 ≤ minimum ∧ 9 * minimum ≤ 10 * overlap) := by
    intro overlap minimum
    rw [Bool.eq_iff_iff, Bool.and_eq_true, decide_eq_true_eq, decide_eq_true_eq, decide_eq_true_eq]
    refine and_congr_right fun h => ratio_le_iff (lt_of_lt_of_le (by decide) h)
  have hcover : decide (64 ≤ maximumEquivalentCoverHashDistance) = false := rfl
  generalize hc : s.identifiers.any _ = conflicting
  obtain rfl := hc.symm.trans hconflict
  rw [htitle, hstrong, hcover, Bool.false_and, Bool.false_and, Bool.false_and,
    Bool.or_false, Bool.eq_iff_iff, Option.isSome_ite]
  simp only [Bool.or_eq_true, Bool.and_eq_true, bne_iff_ne, beq_iff_eq, decide_eq_true_eq,
    Bool.not_eq_false', and_assoc]
  rfl

/-- The chapters of a gallery in which every identity has the same. -/
def numberedChapters (identities : List Nat) : List CatalogChapter × List ReleaseRow :=
  ((List.range 5).map fun n =>
      { id := n + 1, seriesId := 1, canonicalNumber := toString (n + 1)
        sortNumber := some (n + 1 : Nat), createdAt := 0 },
    identities.flatMap fun i => (List.range 5).map fun n =>
      { id := 10 * i + n + 1, id_pos := Nat.succ_pos _, chapterId := n + 1, source := "mangadex"
        sourceSeriesId := i, sourceReleaseId := toString n })

/-- Three listings of one provider: the first two have one id but for its revision, and the third
shares the title and the chapters of the second. -/
def relistedGallery : Gallery :=
  { identities :=
      [{ id := 1, seriesId := 1, source := "mangadex", sourceId := "blue-box-0000aaaa", url := ""
         title := "Ao no Hako" },
       { id := 2, seriesId := 2, source := "mangadex", sourceId := "Blue Box", url := ""
         title := "Blue Box" },
       { id := 3, seriesId := 3, source := "mangadex", sourceId := "77", url := ""
         title := "The Blue Box" }]
    chapters := (numberedChapters [2, 3]).1
    releases := (numberedChapters [2, 3]).2 }

/-- Two of them are a group, and the third is equivalent to one of the two only. -/
theorem relistedGallery_groups :
    (relistedGallery.providerDuplicateGroups asciiCatalog none []).map
      (·.map (·.identityIds)) = some [[1, 2]] := by
  have hk : Table.Keyed CatalogSourceSeries.id relistedGallery.identities := by decide
  obtain ⟨groups, h, rfl, -⟩ := Gallery.provider_duplicate_groups_spec (t := asciiCatalog)
    (s := relistedGallery) hk
  have hspec : (((relistedGallery.identityGroups asciiCatalog
      (relistedGallery.lookedAt none [])).filter (2 ≤ ·.length)).map
        (relistedGallery.duplicateGroup asciiCatalog)).map (·.identityIds) = [[1, 2]] := by
    decide +kernel
  rw [h, Option.map_some, hspec]

end MangaManager
