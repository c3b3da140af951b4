import MangaManager.Lib.Run
import MangaManager.Lib.Unicode
import MangaManager.Lib.Upsert
import MangaManager.Matches.Review
import MangaManager.Matches.Symmetry

/-!
# Covers that are nearly the same

A cover is hashed to sixty-four bits (`_dhash` of `manga_manager/application/cover_evidence.py`),
and stored with the four bands of its hash. `refresh_for_source_series` looks at covers that have a
band or the beginning of a title in common, and proposes those that are close enough.

`signatureBands_near`: two hashes that differ in at most three bits have a band in common, so the
shortlist has them. `covers_proposed`: whatever order covers come in, any two that are that close,
of two providers and two series, have a decision for a person to make.
-/

namespace MangaManager.Lib

/-- Two words of `n` bands that differ in fewer than `n` places agree on one of the bands. -/
theorem exists_band_eq {a b : Nat → Bool} {w n : Nat}
    (h : (List.range (n * w)).countP (fun i => a i != b i) < n) :
    ∃ k < n, ∀ i < w, a (k * w + i) = b (k * w + i) := by
  induction n with
  | zero => exact absurd h (Nat.not_lt_zero _)
  | succ n ih =>
    by_cases hlast : ∀ i < w, a (n * w + i) = b (n * w + i)
    · exact ⟨n, Nat.lt_succ_self n, hlast⟩
    · push Not at hlast
      obtain ⟨i, hi, hne⟩ := hlast
      have hone : 0 < (List.range w).countP fun i => a (n * w + i) != b (n * w + i) :=
        List.countP_pos_iff.mpr ⟨i, List.mem_range.mpr hi, by simpa using hne⟩
      rw [Nat.succ_mul, List.range_add, List.countP_append, List.countP_map] at h
      simp only [Function.comp_def] at h
      obtain ⟨k, hk, heq⟩ := ih (by omega)
      exact ⟨k, Nat.lt_succ_of_lt hk, heq⟩

end MangaManager.Lib

namespace MangaManager

open Lib

/-- The last `k` hexadecimal digits of a number. -/
def hexChars : Nat → Nat → List Char
  | 0, _ => []
  | k + 1, n => Nat.digitChar (n / 16 ^ k % 16) :: hexChars k n

/-- `_dhash` of nine by eight pixels: a bit for each pixel that is brighter than the next. -/
def dhashBits (values : List Nat) : Nat :=
  (List.range 8).foldl (fun bits y => (List.range 8).foldl (fun bits x =>
    2 * bits + if values.getD (y * 9 + x + 1) 0 < values.getD (y * 9 + x) 0 then 1 else 0) bits) 0

/-- `f"{bits:016x}"`. -/
def dhash (values : List Nat) : String := String.ofList (hexChars 16 (dhashBits values))

/-- `signature_bands`. -/
def signatureBands (hashes : List String) : List String :=
  let primary := ((hashes.head?.getD "").toList).take 16
  (List.range 4).map fun index => String.ofList ((primary.drop (index * 4)).take 4)

theorem hexChars_length (k n : Nat) : (hexChars k n).length = k := by
  induction k with
  | zero => rfl
  | succ k ih => rw [hexChars, List.length_cons, ih]

theorem drop_hexChars (j k n : Nat) : (hexChars (j + k) n).drop j = hexChars k n := by
  induction j with
  | zero => rw [Nat.zero_add, List.drop_zero]
  | succ j ih => rw [Nat.add_right_comm, hexChars, List.drop_succ_cons, ih]

theorem take_hexChars (j k n : Nat) : (hexChars (j + k) n).take j = hexChars j (n / 16 ^ k) := by
  induction j with
  | zero => rfl
  | succ j ih =>
    rw [Nat.add_right_comm, hexChars, List.take_succ_cons, ih, hexChars, Nat.div_div_eq_div_mul,
      ← Nat.pow_add, Nat.add_comm k j]

/-- The digits depend on their bits. -/
theorem hexChars_congr {k a b : Nat} (h : ∀ i < 4 * k, a.testBit i = b.testBit i) :
    hexChars k a = hexChars k b := by
  induction k with
  | zero => rfl
  | succ k ih =>
    have hdigit : a / 16 ^ k % 16 = b / 16 ^ k % 16 := by
      rw [show (16 : Nat) = 2 ^ 4 from rfl, ← Nat.pow_mul]
      refine Nat.eq_of_testBit_eq fun i => ?_
      simp only [Nat.testBit_mod_two_pow, Nat.testBit_div_two_pow]
      by_cases hi : i < 4
      · rw [h (i + 4 * k) (by omega)]
      · simp [hi]
    rw [hexChars, hexChars, hdigit, ih fun i hi => h i (by omega)]

theorem digitChar_spec : ∀ d < 16, hexDigit (Nat.digitChar d) = some d ∧
    Nat.digitChar d ∉ ['_', 'x', 'X', '-', '+'] ∧ isSpace (Nat.digitChar d) = false := by
  decide

/-- The digits are read again. -/
theorem parseHexDigits_hexChars (k m n : Nat) :
    parseHexDigits m (hexChars (k + 1) n) = some (16 ^ (k + 1) * m + n % 16 ^ (k + 1)) := by
  induction k generalizing m with
  | zero =>
    obtain ⟨hd, -⟩ := digitChar_spec (n / 16 ^ 0 % 16) (Nat.mod_lt _ (by decide))
    simp only [hexChars, parseHexDigits, hd]
    simp
  | succ k ih =>
    obtain ⟨hd, -⟩ := digitChar_spec (n / 16 ^ (k + 1) % 16) (Nat.mod_lt _ (by decide))
    obtain ⟨-, hnot, -⟩ := digitChar_spec (n / 16 ^ k % 16) (Nat.mod_lt _ (by decide))
    have hstep : parseHexDigits m (hexChars (k + 2) n) =
        (hexDigit (Nat.digitChar (n / 16 ^ (k + 1) % 16))).bind fun d =>
          parseHexDigits (16 * m + d) (hexChars (k + 1) n) := by
      rw [hexChars, hexChars, parseHexDigits]
      · intro he
        cases he
      · intro cs he
        rw [(List.cons.inj he).1] at hnot
        exact hnot (by simp)
    have hmod : n % 16 ^ (k + 2) =
        16 ^ (k + 1) * (n / 16 ^ (k + 1) % 16) + n % 16 ^ (k + 1) := by
      rw [Nat.pow_succ, Nat.mod_mul, Nat.add_comm]
    rw [hstep, hd, Option.bind_some, ih, hmod]
    congr 1
    ring

/-- `int(f"{bits:016x}", 16)`. -/
theorem parseHex_hexChars {n : Nat} (h : n < 16 ^ 16) :
    parseHex (String.ofList (hexChars 16 n)) = some (n : Int) := by
  have hchars : ∀ c ∈ hexChars 16 n, c ∉ ['_', 'x', 'X', '-', '+'] ∧ isSpace c = false := by
    have hall : ∀ k, ∀ c ∈ hexChars k n, c ∉ ['_', 'x', 'X', '-', '+'] ∧ isSpace c = false := by
      intro k
      induction k with
      | zero => exact fun _ hc => (by cases hc)
      | succ k ih =>
        rw [hexChars]
        exact List.forall_mem_cons.mpr
          ⟨(digitChar_spec _ (Nat.mod_lt _ (by decide))).2, ih⟩
    exact hall 16
  have hstrip : stripChars (hexChars 16 n) = hexChars 16 n :=
    stripChars_eq_self (fun c hc => (hchars c (List.mem_of_head? hc)).2)
      fun c hc => (hchars c (List.mem_of_getLast? hc)).2
  have hcs : ∃ c c' cs, hexChars 16 n = c :: c' :: cs := ⟨_, _, _, rfl⟩
  have hparse := parseHexDigits_hexChars 15 0 n
  unfold parseHex
  rw [String.toList_ofList, hstrip]
  obtain ⟨c, c', cs, he⟩ := hcs
  rw [he] at hchars hparse ⊢
  obtain ⟨⟨hc, -⟩, ⟨hc', -⟩, -⟩ :=
    (List.forall_mem_cons.mp hchars).imp_right List.forall_mem_cons.mp
  have hsign : splitSign (c :: c' :: cs) = (false, c :: c' :: cs) := by
    unfold splitSign
    split
    · rename_i heq
      rw [(List.cons.inj heq).1] at hc
      exact absurd (by simp) hc
    · rename_i heq
      rw [(List.cons.inj heq).1] at hc
      exact absurd (by simp) hc
    · rfl
  have hmark : dropHexMark (c :: c' :: cs) = c :: c' :: cs := by
    have hx : ¬ (c' = 'x' ∨ c' = 'X') := by
      rintro (rfl | rfl)
      · exact hc' (by simp)
      · exact hc' (by simp)
    unfold dropHexMark
    split
    · rename_i heq
      have hx' := (List.cons.inj (List.cons.inj heq).2).1
      rw [if_neg (hx' ▸ hx), heq]
    · rename_i heq
      have hx' := (List.cons.inj (List.cons.inj heq).2).1
      rw [if_neg (hx' ▸ hx), heq]
    · rfl
  rw [hsign]
  dsimp only
  rw [hmark, hparse, Nat.mul_zero, Nat.zero_add, Nat.mod_eq_of_lt h]
  rfl

theorem bitCount_eq {n : Nat} (h : n < 2 ^ 64) :
    bitCount (n : Int) = (List.range 64).countP n.testBit := by
  have hlog : n.log2 + 1 ≤ 64 := by
    by_cases h0 : n = 0
    · subst h0
      decide
    · exact (Nat.log2_lt h0).mpr h
  obtain ⟨m, hm⟩ := Nat.exists_eq_add_of_le hlog
  have hrest : ((List.range m).map (n.log2 + 1 + ·)).countP n.testBit = 0 := by
    rw [List.countP_eq_zero]
    intro i hi
    obtain ⟨j, -, rfl⟩ := List.mem_map.mp hi
    have hlt : n < 2 ^ (n.log2 + 1 + j) :=
      Nat.lt_of_lt_of_le Nat.lt_log2_self (Nat.pow_le_pow_right (by decide) (Nat.le_add_right _ _))
    simp [Nat.testBit_lt_two_pow hlt]
  have hsplit : (List.range 64).countP n.testBit = (List.range (n.log2 + 1)).countP n.testBit := by
    rw [hm, show List.range (n.log2 + 1 + m) = _ from List.range_add, List.countP_append, hrest,
      Nat.add_zero]
  rw [hsplit]
  rfl

/-- The loops add sixty-four bits. -/
theorem dhashBits_lt (values : List Nat) : dhashBits values < 2 ^ 64 := by
  have hrow : ∀ (bit : Nat → Nat), (∀ x, bit x ≤ 1) → ∀ (l : List Nat) (m bits : Nat),
      bits < 2 ^ m → l.foldl (fun bits x => 2 * bits + bit x) bits < 2 ^ (m + l.length) := by
    intro bit hbit l
    induction l with
    | nil => exact fun _ _ h => h
    | cons x l ih =>
      intro m bits h
      have hx := hbit x
      rw [List.foldl_cons, List.length_cons, show m + (l.length + 1) = m + 1 + l.length by omega]
      refine ih (m + 1) _ ?_
      rw [Nat.pow_succ]
      omega
  have hrows : ∀ (l : List Nat) (m bits : Nat), bits < 2 ^ m →
      l.foldl (fun bits y => (List.range 8).foldl (fun bits x => 2 * bits +
        if values.getD (y * 9 + x + 1) 0 < values.getD (y * 9 + x) 0 then 1 else 0) bits) bits <
          2 ^ (m + 8 * l.length) := by
    intro l
    induction l with
    | nil => exact fun _ _ h => h
    | cons y l ih =>
      intro m bits h
      rw [List.foldl_cons, List.length_cons,
        show m + 8 * (l.length + 1) = m + 8 + 8 * l.length by omega]
      refine ih (m + 8) _ (hrow _ (fun x => ?_) (List.range 8) m bits h)
      split
      · exact Nat.le_refl 1
      · exact Nat.zero_le 1
  exact hrows (List.range 8) 0 0 (by decide)

/-- The distance of two hashes counts the bits that differ. -/
theorem hammingDistance_hexChars {a b : Nat} (ha : a < 2 ^ 64) (hb : b < 2 ^ 64) :
    hammingDistance (String.ofList (hexChars 16 a)) (String.ofList (hexChars 16 b)) =
      (List.range 64).countP fun i => a.testBit i != b.testBit i := by
  unfold hammingDistance
  rw [parseHex_hexChars (by simpa using ha), parseHex_hexChars (by simpa using hb)]
  dsimp only
  rw [show Int.xor (a : Int) (b : Int) = ((a ^^^ b : Nat) : Int) from rfl,
    bitCount_eq (Nat.xor_lt_two_pow ha hb)]
  refine List.countP_congr fun i _ => ?_
  rw [Nat.testBit_xor]

/-- Hashes that differ in fewer than four bits share a band. -/
theorem signatureBands_near {a b : Nat} (ha : a < 2 ^ 64) (hb : b < 2 ^ 64) {l l' : List String}
    (h : hammingDistance (String.ofList (hexChars 16 a)) (String.ofList (hexChars 16 b)) < 4) :
    ∃ k < 4, (signatureBands (String.ofList (hexChars 16 a) :: l))[k]? =
      (signatureBands (String.ofList (hexChars 16 b) :: l'))[k]? := by
  rw [hammingDistance_hexChars ha hb] at h
  obtain ⟨k, hk, hbits⟩ := exists_band_eq (w := 16) (n := 4) h
  have hband : ∀ (n : Nat) (l : List String),
      (signatureBands (String.ofList (hexChars 16 n) :: l))[3 - k]? =
        some (String.ofList (hexChars 4 (n / 16 ^ (4 * k)))) := by
    intro n l
    have htext : (((hexChars 16 n).take 16).drop ((3 - k) * 4)).take 4 =
        hexChars 4 (n / 16 ^ (4 * k)) := by
      have hdrop := drop_hexChars ((3 - k) * 4) (4 + 4 * k) n
      rw [show (3 - k) * 4 + (4 + 4 * k) = 16 by omega] at hdrop
      rw [List.take_of_length_le (Nat.le_of_eq (hexChars_length 16 n)), hdrop, take_hexChars]
    unfold signatureBands
    rw [List.getElem?_map, List.getElem?_range (by omega), Option.map_some]
    simp only [List.head?_cons, Option.getD_some, String.toList_ofList, htext]
  refine ⟨3 - k, by omega, ?_⟩
  rw [hband, hband, hexChars_congr (a := a / 16 ^ (4 * k)) (b := b / 16 ^ (4 * k)) fun i hi => ?_]
  rw [show (16 : Nat) ^ (4 * k) = 2 ^ (k * 16) by
    rw [show (16 : Nat) = 2 ^ 4 from rfl, ← Nat.pow_mul]
    congr 1
    ring]
  rw [Nat.testBit_div_two_pow, Nat.testBit_div_two_pow, Nat.add_comm]
  exact hbits i hi

/-! ## The shortlist -/

/-- The bands that a row of `cover_signature_v2` is stored with. -/
structure CoverBands where
  sourceSeriesId : Nat
  bands : List String
  deriving DecidableEq

structure BandedGallery extends Gallery where
  bands : List CoverBands := []
  deriving DecidableEq

/-- `title_similarity`. -/
def ScoreLib.titleSimilarity (lib : ScoreLib) (left right : String) : Rat :=
  let normalizedLeft := lib.normalizeTitle left
  let normalizedRight := lib.normalizeTitle right
  let leftTokens := (splitWords normalizedLeft).toFinset
  let rightTokens := (splitWords normalizedRight).toFinset
  if leftTokens = ∅ ∨ rightTokens = ∅ then 0
  else max (mkRat (leftTokens ∩ rightTokens).card (leftTokens ∪ rightTokens).card)
    (lib.sequenceRatio normalizedLeft normalizedRight)

/-- What `_visual_candidate_shortlist` selects. -/
def visualCandidate (lib : ScoreLib) (cv : VisionLib) (sourceTitle candidateTitle : String)
    (signature other : CatalogCoverSignature) : Bool :=
  let titleScore := lib.titleSimilarity sourceTitle candidateTitle
  if titleScore < mkRat 65 100 ∧ 18 < signatureDistance (some signature) (some other) then false
  else
    let visual := compareSignatures cv signature other
    !(titleScore < mkRat 65 100 ∧ 14 < visual.coverHashDistance.getD 64)

/-- What was decoded of a cover. -/
structure CoverContent where
  crops : List (List Nat)
  keypoints : List UInt8
  descriptors : List UInt8
  deriving DecidableEq

namespace BandedGallery

variable (lib : ScoreLib) (cv : VisionLib) (like : String → String → Bool) (g : BandedGallery)

/-- What a refresh stores of a cover. -/
def storeSignature (sourceSeriesId : Nat) (content : CoverContent) : BandedGallery :=
  let signature : CatalogCoverSignature :=
    ⟨sourceSeriesId, content.crops.map dhash, content.keypoints, content.descriptors⟩
  let bands : CoverBands := ⟨sourceSeriesId, signatureBands signature.hashes⟩
  { g with
    signatures := Upsert.upsert (·.sourceSeriesId == sourceSeriesId) (fun _ => signature) signature
      g.signatures
    bands := Upsert.upsert (·.sourceSeriesId == sourceSeriesId) (fun _ => bands) bands g.bands }

/-- A row that the shortlist asks for, by its title (`like` is `LIKE`) or by a band. -/
def isShortlisted (source c : CatalogSourceSeries) (bands : List String) : Bool :=
  c.id != source.id && c.source != source.source && c.seriesId != source.seriesId &&
    (like (truncate 12 source.normalizedTitle ++ "%") c.normalizedTitle ||
      (Table.get CoverBands.sourceSeriesId g.bands c.id).any fun x =>
        (List.range 4).any fun k => x.bands[k]? == bands[k]?)

/-- `shortlist_ids`, without their limit. -/
def bandMatches (source : CatalogSourceSeries) (bands : List String) : List Nat :=
  ((g.identities.filter (g.isShortlisted like source · bands)).map (·.id)).insertionSort (· ≤ ·)

/-- What `refresh_for_source_series` proposes. -/
def similar (source c : CatalogSourceSeries) : Bool :=
  match g.signature? source.id, g.signature? c.id with
  | some signature, some other =>
    decide (c.id ∈ (g.bandMatches like source (signatureBands signature.hashes)).take 200) &&
      visualCandidate lib cv source.title c.title signature other
  | _, _ => false

/-- `_ensure_signature`, of a cover that was fetched, or that is there already. -/
def ensureSignature (sourceSeriesId : Nat) : Option CoverContent → BandedGallery
  | none => g
  | some content => g.storeSignature sourceSeriesId content

/-- `refresh_for_source_series`. -/
def refreshForSourceSeries (sourceSeriesId : Nat) (content : Option CoverContent) : BandedGallery :=
  match g.identity? sourceSeriesId with
  | none => g
  | some _ =>
    let stored := g.ensureSignature sourceSeriesId content
    { stored with
      toShelf := stored.toShelf.proposeByCover (stored.similar lib cv like) sourceSeriesId }

/-- A shortlist that the limit does not cut off. -/
def HasRoom (sourceSeriesId : Nat) : Prop :=
  ∀ i ∈ g.identities, i.id = sourceSeriesId → ∀ x, g.signature? i.id = some x →
    (g.bandMatches like i (signatureBands x.hashes)).length ≤ 200

/-- Two covers, of two providers and two series, that differ in at most three bits. -/
structure NearCovers (i j : CatalogSourceSeries) : Prop where
  source : i.source ≠ j.source
  series : i.seriesId ≠ j.seriesId
  hashes : ∃ x y a b, g.signature? i.id = some x ∧ g.signature? j.id = some y ∧
    x.hashes.head? = some a ∧ y.hashes.head? = some b ∧ hammingDistance a b < 4

/-- They are proposed. -/
def Proposed : Prop :=
  ∀ i ∈ g.identities, ∀ j ∈ g.identities, g.NearCovers i j → ∃ d ∈ g.decisions,
    d.leftSourceSeriesId = min i.id j.id ∧ d.rightSourceSeriesId = max i.id j.id

/-- The signatures are what `storeSignature` makes of covers. -/
structure Banded : Prop where
  identities : Table.Keyed CatalogSourceSeries.id g.identities
  hashes : ∀ id x, g.signature? id = some x → ∀ a ∈ x.hashes, ∃ bits < 2 ^ 64,
    a = String.ofList (hexChars 16 bits)
  bands : ∀ id x, g.signature? id = some x →
    Table.get CoverBands.sourceSeriesId g.bands id = some ⟨id, signatureBands x.hashes⟩

/-- What others write brings no two covers close to each other, and takes no decision away. -/
structure Elsewhere (g' : BandedGallery) : Prop where
  banded : g'.Banded
  near : ∀ i ∈ g'.identities, ∀ j ∈ g'.identities, g'.NearCovers i j →
    ∃ i₀ ∈ g.identities, ∃ j₀ ∈ g.identities, i₀.id = i.id ∧ j₀.id = j.id ∧ g.NearCovers i₀ j₀
  decisions : ∀ i ∈ g'.identities, ∀ j ∈ g'.identities, ∀ d ∈ g.decisions,
    d.leftSourceSeriesId = i.id → d.rightSourceSeriesId = j.id → ∃ d' ∈ g'.decisions,
      d'.leftSourceSeriesId = i.id ∧ d'.rightSourceSeriesId = j.id

end BandedGallery

inductive BandMove where
  | refresh (sourceSeriesId : Nat) (content : Option CoverContent)
  | others

inductive BandStep (lib : ScoreLib) (cv : VisionLib) (like : String → String → Bool)
    (g : BandedGallery) : BandMove → BandedGallery → Prop where
  | refresh (id : Nat) (content : Option CoverContent) :
      BandStep lib cv like g (.refresh id content) (g.refreshForSourceSeries lib cv like id content)
  | others {g' : BandedGallery} (h : g.Elsewhere g') : BandStep lib cv like g .others g'

def BandMove.HasRoom (like : String → String → Bool) (g : BandedGallery) : BandMove → Prop
  | refresh id content => (g.ensureSignature id content).HasRoom like id
  | others => True

section
variable {lib : ScoreLib} {cv : VisionLib} {like : String → String → Bool} {g g' : BandedGallery}
  {i j : CatalogSourceSeries} {content : CoverContent} {id : Nat}

theorem hammingDistance_comm (a b : String) : hammingDistance a b = hammingDistance b a := by
  unfold hammingDistance
  cases parseHex a with
  | none => cases parseHex b <;> rfl
  | some x =>
    cases parseHex b with
    | none => rfl
    | some y =>
      dsimp only
      have hxor : Int.xor x y = Int.xor y x := by
        cases x <;> cases y <;> simp [Int.xor, Nat.xor_comm]
      rw [hxor]

theorem coverHashDistance_eq (cv : VisionLib) (x y : CatalogCoverSignature) :
    (compareSignatures cv x y).coverHashDistance =
      some ((signatureDistance (some x) (some y) : Nat) : Int) := by
  unfold compareSignatures
  dsimp only
  split
  · split <;> rfl
  · rfl

namespace BandedGallery

theorem NearCovers.symm (h : g.NearCovers i j) : g.NearCovers j i := by
  obtain ⟨x, y, a, b, hx, hy, ha, hb, hd⟩ := h.hashes
  exact ⟨h.source.symm, h.series.symm, y, x, b, a, hy, hx, hb, ha, hammingDistance_comm a b ▸ hd⟩

theorem signatureDistance_le {x y : CatalogCoverSignature} {a b : String}
    (ha : x.hashes.head? = some a) (hb : y.hashes.head? = some b) :
    signatureDistance (some x) (some y) ≤ hammingDistance a b := by
  have hmem : hammingDistance a b ∈
      x.hashes.flatMap fun a => y.hashes.map (hammingDistance a) :=
    List.mem_flatMap.mpr ⟨a, List.mem_of_head? ha,
      List.mem_map.mpr ⟨b, List.mem_of_head? hb, rfl⟩⟩
  unfold signatureDistance
  dsimp only [Option.map_some, Option.getD_some]
  cases hmin : (x.hashes.flatMap fun a => y.hashes.map (hammingDistance a)).min? with
  | none =>
    rw [List.min?_eq_none_iff.mp hmin] at hmem
    cases hmem
  | some m => exact (List.min?_eq_some_iff.mp hmin).2 _ hmem

/-- A cover that is near is selected, whatever its title. -/
theorem NearCovers.similar (h : g.NearCovers i j) (hg : g.Banded) (hi : i ∈ g.identities)
    (hj : j ∈ g.identities) (hroom : g.HasRoom like i.id) : g.similar lib cv like i j = true := by
  obtain ⟨x, y, a, b, hx, hy, ha, hb, hd⟩ := h.hashes
  have hdistance := signatureDistance_le ha hb
  have hvisual : visualCandidate lib cv i.title j.title x y = true := by
    unfold visualCandidate
    dsimp only
    rw [if_neg (by omega), coverHashDistance_eq, Option.getD_some]
    have : ¬ (14 : Int) < (signatureDistance (some x) (some y) : Nat) := by omega
    simp [this]
  have hband : ∃ k < 4, (signatureBands x.hashes)[k]? = (signatureBands y.hashes)[k]? := by
    obtain ⟨m, hm, rfl⟩ := hg.hashes _ x hx a (List.mem_of_head? ha)
    obtain ⟨n, hn, rfl⟩ := hg.hashes _ y hy b (List.mem_of_head? hb)
    obtain ⟨l, hl⟩ := List.head?_eq_some_iff.mp ha
    obtain ⟨l', hl'⟩ := List.head?_eq_some_iff.mp hb
    rw [hl, hl']
    exact signatureBands_near hm hn hd
  obtain ⟨k, hk, hband⟩ := hband
  have hshort : g.isShortlisted like i j (signatureBands x.hashes) = true := by
    have hids : j.id ≠ i.id := fun he => h.source (congrArg _ (hg.identities.eq hi hj he.symm))
    unfold isShortlisted
    rw [hg.bands _ y hy]
    simp only [Bool.and_eq_true, Bool.or_eq_true, bne_iff_ne, ne_eq, Option.any_some,
      List.any_eq_true, List.mem_range, beq_iff_eq]
    exact ⟨⟨⟨hids, h.source.symm⟩, h.series.symm⟩, .inr ⟨k, hk, hband.symm⟩⟩
  unfold BandedGallery.similar
  rw [hx, hy]
  simp only [Bool.and_eq_true, decide_eq_true_eq, hvisual, and_true]
  rw [List.take_of_length_le (hroom i hi rfl x hx)]
  exact (List.mem_insertionSort _).mpr
    (List.mem_map.mpr ⟨j, List.mem_filter.mpr ⟨hj, hshort⟩, rfl⟩)

@[simp] theorem storeSignature_signature (id : Nat) (content : CoverContent) (k : Nat) :
    (g.storeSignature id content).signature? k =
      if k = id then some ⟨id, content.crops.map dhash, content.keypoints, content.descriptors⟩
      else g.signature? k :=
  Upsert.get_upsert CatalogCoverSignature.sourceSeriesId ⟨id, _, _, _⟩ k

theorem Banded.storeSignature (hg : g.Banded) (id : Nat) (content : CoverContent) :
    (g.storeSignature id content).Banded := by
  refine ⟨hg.identities, fun k x hx a ha => ?_, fun k x hx => ?_⟩
  · rw [storeSignature_signature] at hx
    split at hx
    · cases hx
      obtain ⟨values, -, rfl⟩ := List.mem_map.mp ha
      exact ⟨dhashBits values, dhashBits_lt values, rfl⟩
    · exact hg.hashes k x hx a ha
  · have hbands : Table.get CoverBands.sourceSeriesId (g.storeSignature id content).bands k =
        if k = id then some ⟨id, signatureBands (content.crops.map dhash)⟩
        else Table.get CoverBands.sourceSeriesId g.bands k :=
      Upsert.get_upsert CoverBands.sourceSeriesId ⟨id, _⟩ k
    rw [storeSignature_signature] at hx
    rw [hbands]
    split at hx
    · rename_i hk
      cases hx
      rw [if_pos hk, hk]
    · rename_i hk
      rw [if_neg hk]
      exact hg.bands k x hx

theorem Banded.ensureSignature (hg : g.Banded) (id : Nat) (content : Option CoverContent) :
    (g.ensureSignature id content).Banded := by
  cases content with
  | none => exact hg
  | some content => exact hg.storeSignature id content

/-- Covers that are near after one was stored were so before, or one of them is the new one. -/
theorem ensureSignature_near {content : Option CoverContent} (hi : i.id ≠ id) (hj : j.id ≠ id)
    (h : (g.ensureSignature id content).NearCovers i j) : g.NearCovers i j := by
  cases content with
  | none => exact h
  | some content =>
    obtain ⟨x, y, a, b, hx, hy, hrest⟩ := h.hashes
    change (g.storeSignature id content).signature? _ = _ at hx hy
    rw [storeSignature_signature, if_neg hi] at hx
    rw [storeSignature_signature, if_neg hj] at hy
    exact ⟨h.source, h.series, x, y, a, b, hx, hy, hrest⟩

end BandedGallery

/-- What is proposed for a cover: a decision with all that are similar, besides those of before. -/
theorem Shelf.proposeByCover_spec {s : Shelf}
    (similar : CatalogSourceSeries → CatalogSourceSeries → Bool) (hi : s.identity? i.id = some i) :
    (s.proposeByCover similar i.id).identities = s.identities ∧
      (∀ d ∈ s.decisions, d ∈ (s.proposeByCover similar i.id).decisions) ∧
      ∀ j ∈ s.identities, j.id ≠ i.id → j.source ≠ i.source → j.seriesId ≠ i.seriesId →
        similar i j = true → ∃ d ∈ (s.proposeByCover similar i.id).decisions,
          d.leftSourceSeriesId = min j.id i.id ∧ d.rightSourceSeriesId = max j.id i.id := by
  unfold proposeByCover
  rw [hi]
  refine ⟨rfl, fun d hd => List.mem_append_left _ hd, fun j hj hid hsource hseries hsim => ?_⟩
  by_cases hany : (s.decisions.any fun d =>
      d.leftSourceSeriesId == min j.id i.id && d.rightSourceSeriesId == max j.id i.id) = true
  · obtain ⟨d, hd, hpair⟩ := List.any_eq_true.mp hany
    simp only [Bool.and_eq_true, beq_iff_eq] at hpair
    exact ⟨d, List.mem_append_left _ hd, hpair⟩
  · have hmissing : j ∈ ((s.identities.filter fun c => c.id != i.id && c.source != i.source &&
        c.seriesId != i.seriesId && similar i c).insertionSort (·.id ≤ ·.id)).filter fun c =>
          !s.decisions.any fun d => d.leftSourceSeriesId == min c.id i.id &&
            d.rightSourceSeriesId == max c.id i.id := by
      refine List.mem_filter.mpr ⟨(List.mem_insertionSort _).mpr
        (List.mem_filter.mpr ⟨hj, ?_⟩), by simpa using hany⟩
      simp [hid, hsource, hseries, hsim]
    obtain ⟨n, hn, he⟩ := List.mem_iff_getElem.mp hmissing
    refine ⟨_, List.mem_append_right _ (List.mem_map.mpr ⟨(j, n), ?_, rfl⟩), rfl, rfl⟩
    rw [List.mk_mem_zipIdx_iff_getElem?, List.getElem?_eq_getElem hn, he]

/-- One step keeps that near covers are proposed. -/
theorem BandStep.proposed {move : BandMove} (h : BandStep lib cv like g move g') (hg : g.Banded)
    (hp : g.Proposed) (hroom : move.HasRoom like g) : g'.Banded ∧ g'.Proposed := by
  cases h with
  | refresh id content =>
    unfold BandedGallery.refreshForSourceSeries
    split
    · exact ⟨hg, hp⟩
    · rename_i i hi
      have hstored := hg.ensureSignature id content
      have hids : (g.ensureSignature id content).identities = g.identities := by
        cases content <;> rfl
      have hdecisions : (g.ensureSignature id content).decisions = g.decisions := by
        cases content <;> rfl
      obtain rfl : i.id = id := Table.get_key hi
      obtain ⟨hsame, hkept, hnew⟩ := Shelf.proposeByCover_spec
        (s := (g.ensureSignature i.id content).toShelf)
        ((g.ensureSignature i.id content).similar lib cv like)
        (show Table.get CatalogSourceSeries.id (g.ensureSignature i.id content).identities i.id =
          some i by rw [hids]; exact hi)
      have hmem : i ∈ (g.ensureSignature i.id content).identities := hids ▸ Table.get_mem hi
      -- the pairs of the cover that was refreshed
      have hpair : ∀ j ∈ (g.ensureSignature i.id content).identities,
          (g.ensureSignature i.id content).NearCovers i j → ∃ d ∈
            ((g.ensureSignature i.id content).toShelf.proposeByCover
              ((g.ensureSignature i.id content).similar lib cv like) i.id).decisions,
            d.leftSourceSeriesId = min j.id i.id ∧ d.rightSourceSeriesId = max j.id i.id := by
        intro j hj hnear
        refine hnew j hj (fun he => hnear.source ?_) hnear.source.symm hnear.series.symm
          (hnear.similar hstored hmem hj hroom)
        exact congrArg _ (hstored.identities.eq hmem hj he.symm)
      refine ⟨⟨?_, hstored.hashes, hstored.bands⟩, fun k hk l hl hnear => ?_⟩
      · dsimp only
        rw [hsame]
        exact hstored.identities
      · dsimp only at hk hl ⊢
        rw [hsame] at hk hl
        have hnear : (g.ensureSignature i.id content).NearCovers k l :=
          ⟨hnear.source, hnear.series, hnear.hashes⟩
        by_cases hki : k.id = i.id
        · obtain rfl := hstored.identities.eq hk hmem hki
          rw [min_comm, max_comm]
          exact hpair l hl hnear
        · by_cases hli : l.id = i.id
          · obtain rfl := hstored.identities.eq hl hmem hli
            exact hpair k hk hnear.symm
          · obtain ⟨d, hd, hpair⟩ := hp k (hids ▸ hk) l (hids ▸ hl)
              (BandedGallery.ensureSignature_near hki hli hnear)
            exact ⟨d, hkept d (hdecisions ▸ hd), hpair⟩
  | others h =>
    refine ⟨h.banded, fun i hi j hj hnear => ?_⟩
    obtain ⟨i₀, hi₀, j₀, hj₀, hie, hje, hnear₀⟩ := h.near i hi j hj hnear
    obtain ⟨d, hd, hleft, hright⟩ := hp i₀ hi₀ j₀ hj₀ hnear₀
    rw [hie, hje] at hleft hright
    rcases le_total i.id j.id with hle | hle
    · rw [min_eq_left hle] at hleft ⊢
      rw [max_eq_right hle] at hright ⊢
      exact h.decisions i hi j hj d hd hleft hright
    · rw [min_eq_right hle] at hleft ⊢
      rw [max_eq_left hle] at hright ⊢
      exact h.decisions j hj i hi d hd hleft hright

/-- In every state of a run near covers are proposed, when no shortlist is cut off. -/
theorem covers_proposed {start : BandedGallery} {tr : List (BandedGallery × BandMove)}
    (h : Run (BandStep lib cv like) start tr g) (hb : start.Banded) (hp : start.Proposed)
    (hroom : Run.Meets (fun g m => BandMove.HasRoom like g m) tr) :
    ∀ x, Run.Visits tr g x → x.Proposed := by
  have hrun := h.invariant_visits (P := fun g => g.Banded ∧ g.Proposed) hroom ⟨hb, hp⟩
    fun _ _ _ hroom h hstep => hstep.proposed h.1 h.2 hroom
  exact fun x hx => (hrun x hx).2

theorem BandedGallery.bandMatches_length (g : BandedGallery) (like : String → String → Bool)
    (source : CatalogSourceSeries) (bands : List String) :
    (g.bandMatches like source bands).length ≤ g.identities.length := by
  unfold bandMatches
  rw [List.length_insertionSort, List.length_map]
  exact List.length_filter_le _ _

end

/-- Two series without covers. -/
def twoUncovered : BandedGallery where
  identities :=
    [{ id := 1, seriesId := 1, source := "mangadex", sourceId := "a", title := "A", url := "" },
      { id := 2, seriesId := 2, source := "asura", sourceId := "b", title := "B", url := "" }]

/-- A cover whose first pixels are bright. -/
def brightCover (n : Nat) : CoverContent :=
  ⟨[List.replicate n 9 ++ List.replicate (72 - n) 0], [], []⟩

theorem twoUncovered_proposed : ∃ tr g, Run (BandStep hashOnly noVision fun _ _ => false)
      twoUncovered tr g ∧
    g.decisions.map (fun d => (d.leftSourceSeriesId, d.rightSourceSeriesId)) = [(1, 2)] ∧
    ∀ x, Run.Visits tr g x → x.Proposed := by
  have hfirst := (@Run.nil _ _ (BandStep hashOnly noVision fun _ _ => false) twoUncovered).snoc
    (.refresh 1 (some (brightCover 3)))
  have hrun := hfirst.snoc (.refresh 2 (some (brightCover 5)))
  refine ⟨_, _, hrun, by decide +kernel, covers_proposed hrun ⟨by decide, fun _ _ h => (by cases h),
    fun _ _ h => (by cases h)⟩ ?_ ?_⟩
  · rintro i - j - ⟨-, -, x, y, a, b, hx, -⟩
    cases hx
  · intro x hx
    simp only [List.nil_append, List.singleton_append, List.mem_cons, List.not_mem_nil,
      or_false] at hx
    rcases hx with rfl | rfl
    · exact fun i _ _ x _ => (BandedGallery.bandMatches_length _ _ _ _).trans (by decide)
    · exact fun i _ _ x _ => (BandedGallery.bandMatches_length _ _ _ _).trans (by decide +kernel)

end MangaManager
