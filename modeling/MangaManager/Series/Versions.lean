import Mathlib.Data.Prod.Lex
import Mathlib.Data.String.Basic
import MangaManager.Domain.Catalog
import MangaManager.Lib.Maximum

/-!
# The newest chapter of a listing

A provider's listing names its recent chapters. `listing_observation_version` takes the
highest of them by `chapter_sort_number`, `latest_listing_chapter` by `chapter_key`; the
first finds a number in any text that has one and cannot compare a text without, the
second reads a whole text as a decimal and puts the others below.

`versions_agree_iff` says on which lists both name the same chapter.
-/

namespace MangaManager

open Lib

/-- A row of `recent_chapters`; `number` is `str(row.get("number") or "")`. -/
inductive RecentChapter where
  | malformed
  | row (number : String)
  deriving DecidableEq

/-- What the versions read of `item.metadata`; `recent_chapters` may be no list. -/
structure ListingMetadata where
  latestChapter : String := ""
  recentChapters : Option (List RecentChapter) := none
  deriving DecidableEq

/-- The numbers that are not empty. -/
def recentNumbers (rows : List RecentChapter) : List String :=
  rows.filterMap fun
    | .malformed => none
    | .row number => if number = "" then none else some number

/-- `chapter_sort_number`; none is no number. -/
def sortDecimal (t : CatalogText) (value : String) : Option Dec :=
  parseDecimal (t.canonicalChapterNumber value)

/-- `chapter_sort_number(left) > chapter_sort_number(right)`; with `None` it is a `TypeError`. -/
def sortAbove (t : CatalogText) (left right : String) : Option Bool :=
  match sortDecimal t left, sortDecimal t right with
  | some x, some y => x.gt y
  | _, _ => none

/-- `listing_observation_version`; none, when it raises. -/
def listingObservationVersion (t : CatalogText) (m : ListingMetadata) : Option String :=
  let explicit := strip m.latestChapter
  if explicit ≠ "" then some explicit
  else match m.recentChapters with
    | none => some ""
    | some rows =>
      (maxBy (sortAbove t) ((recentNumbers rows).map strip)).map fun best => best.getD ""

structure ChapterKey where
  tag : Nat
  number : Dec
  text : String
  deriving DecidableEq

/-- `chapter_key`. -/
def chapterKey (value : String) : ChapterKey :=
  match parseDecimal value with
  | some d => ⟨1, d, value⟩
  | none => ⟨0, .finite 0, value⟩

/-- `left > right` of two tuples. A `NaN` equals nothing, and its comparison signals. -/
def ChapterKey.gt (left right : ChapterKey) : Option Bool :=
  if left.tag ≠ right.tag then some (decide (right.tag < left.tag))
  else if left.number = right.number ∧ left.number ≠ .nan then
    some (decide (right.text < left.text))
  else left.number.gt right.number

def keyAbove (left right : String) : Option Bool := (chapterKey left).gt (chapterKey right)

/-- `latest_listing_chapter`; none, when it raises. -/
def latestListingChapter (m : ListingMetadata) : Option String :=
  match m.recentChapters with
  | none => some ""
  | some rows => (maxBy keyAbove (recentNumbers rows)).map fun best => best.getD ""

/-- Both versions are there, and name a chapter of the same key. -/
def VersionsAgree (t : CatalogText) (m : ListingMetadata) : Prop :=
  ∃ version latest, listingObservationVersion t m = some version ∧
    latestListingChapter m = some latest ∧ chapterKey version = chapterKey latest

/-! ## Comparisons -/

section
variable {t : CatalogText} {a b : Dec} {x y : String} {k l : ChapterKey}

theorem Dec.gt_isSome : (a.gt b).isSome ↔ a.value.isSome ∧ b.value.isSome := by
  cases a <;> cases b <;> simp [Dec.gt, Dec.value]

/-- Numbers of one value are equal. -/
theorem Dec.value_inj {v : Dec.Value} (ha : a.value = some v) (hb : b.value = some v) : a = b := by
  have h := ha.trans hb.symm
  cases a with
  | nan => cases ha
  | finite p =>
    cases b with
    | nan => cases hb
    | finite q => simpa [Dec.value] using h
    | infinite neg => cases neg <;> simp [Dec.value] at h
  | infinite neg =>
    cases b with
    | nan => cases hb
    | finite q => cases neg <;> simp [Dec.value] at h
    | infinite neg' => cases neg <;> cases neg' <;> simp [Dec.value] at h ⊢

/-- The place of a text among the others. -/
def sortValue (t : CatalogText) (value : String) : Dec.Value :=
  ((sortDecimal t value).bind Dec.value).getD ⊥

theorem sortAbove_isSome : (sortAbove t y x).isSome ↔
    ((sortDecimal t y).bind Dec.value).isSome ∧ ((sortDecimal t x).bind Dec.value).isSome := by
  unfold sortAbove
  cases sortDecimal t y <;> cases sortDecimal t x <;> simp [Dec.gt_isSome]

theorem sortAbove_compares (t : CatalogText) : ComparesBy (sortAbove t) (sortValue t) where
  value {x y b} h := by
    have hs := sortAbove_isSome.mp (by rw [h]; rfl)
    obtain ⟨⟨v, hv⟩, ⟨w, hw⟩⟩ := And.imp Option.isSome_iff_exists.mp Option.isSome_iff_exists.mp hs
    obtain ⟨d, hd, hdv⟩ := Option.bind_eq_some_iff.mp hv
    obtain ⟨e, he, hew⟩ := Option.bind_eq_some_iff.mp hw
    simp only [sortAbove, hd, he, Dec.gt_eq hdv hew, Option.some.injEq] at h
    simp only [← h, sortValue, hv, hw, Option.getD_some]
  symm h := sortAbove_isSome.mpr (sortAbove_isSome.mp h).symm
  below hx hy _ _ := sortAbove_isSome.mpr ⟨(sortAbove_isSome.mp hx).1, (sortAbove_isSome.mp hy).1⟩
  through hx hy _ _ := sortAbove_isSome.mpr ⟨(sortAbove_isSome.mp hx).1, (sortAbove_isSome.mp hy).1⟩

/-- The place of a key; a number that is not one goes first. -/
def ChapterKey.place (k : ChapterKey) : Nat ×ₗ Dec.Value ×ₗ String :=
  toLex (k.tag, toLex (k.number.value.getD ⊥, k.text))

theorem ChapterKey.gt_isSome : (k.gt l).isSome ↔
    k.tag ≠ l.tag ∨ k.number.value.isSome ∧ l.number.value.isSome := by
  unfold gt
  by_cases htag : k.tag = l.tag
  · rw [if_neg (not_not.mpr htag)]
    split
    · rename_i hn
      have hs : k.number.value.isSome := by
        obtain ⟨-, hn⟩ := hn
        cases hk : k.number with
        | nan => exact absurd hk hn
        | finite | infinite => rfl
      exact ⟨fun _ => .inr ⟨hs, hn.1 ▸ hs⟩, fun _ => rfl⟩
    · rw [Dec.gt_isSome]
      exact ⟨.inr, fun h => h.resolve_left fun hne => hne htag⟩
  · rw [if_pos htag]
    exact ⟨fun _ => .inl htag, fun _ => rfl⟩

/-- A tuple is above another one by its first component that differs. -/
theorem ChapterKey.gt_value {r : Bool} (h : k.gt l = some r) : r = decide (l.place < k.place) := by
  have hs := gt_isSome.mp (by rw [h]; rfl)
  unfold gt at h
  by_cases htag : k.tag = l.tag
  · obtain ⟨⟨v, hv⟩, ⟨w, hw⟩⟩ := And.imp Option.isSome_iff_exists.mp Option.isSome_iff_exists.mp
      (hs.resolve_left fun hne => hne htag)
    rw [if_neg (not_not.mpr htag)] at h
    split at h
    · rename_i hn
      have hvw : v = w := Option.some.inj (hv.symm.trans ((congrArg _ hn.1).trans hw))
      rw [← Option.some.inj h, decide_eq_decide]
      simp [place, Prod.Lex.lt_iff, htag, hv, hw, hvw]
    · rename_i hn
      have hne : w ≠ v := by
        rintro rfl
        refine hn ⟨Dec.value_inj hv hw, ?_⟩
        rintro he
        rw [he] at hv
        cases hv
      rw [Dec.gt_eq hv hw] at h
      rw [← Option.some.inj h, decide_eq_decide]
      simp [place, Prod.Lex.lt_iff, htag, hv, hw, hne]
  · rw [if_pos htag] at h
    rw [← Option.some.inj h, decide_eq_decide]
    simp [place, Prod.Lex.lt_iff, Ne.symm htag]

theorem chapterKey_cases (x : String) : (chapterKey x).tag = 1 ∨
    (chapterKey x).tag = 0 ∧ (chapterKey x).number.value.isSome := by
  unfold chapterKey
  split
  · exact .inl rfl
  · exact .inr ⟨rfl, rfl⟩

theorem ChapterKey.tag_le (h : k.place ≤ l.place) : k.tag ≤ l.tag := by
  rcases (Prod.Lex.le_iff.mp h) with h | h
  · exact h.le
  · exact h.1.le

/-- Two keys that compare with a third one of no lower tag. -/
theorem keyAbove_isSome_of {m : String} (hx : (keyAbove x m).isSome) (hy : (keyAbove y m).isSome)
    (hm : (chapterKey x).tag ≤ (chapterKey m).tag) : (keyAbove x y).isSome := by
  refine ChapterKey.gt_isSome.mpr ?_
  by_cases htag : (chapterKey x).tag = (chapterKey y).tag
  · right
    rcases chapterKey_cases x with hone | ⟨hzero, hsx⟩
    · -- all three are numbers
      have hmone : (chapterKey m).tag = 1 := by
        rcases chapterKey_cases m with h | ⟨h, -⟩ <;> omega
      have hvx := (ChapterKey.gt_isSome.mp hx).resolve_left fun h => h (hone.trans hmone.symm)
      have hvy := (ChapterKey.gt_isSome.mp hy).resolve_left fun h =>
        h (htag.symm.trans (hone.trans hmone.symm))
      exact ⟨hvx.1, hvy.1⟩
    · rcases chapterKey_cases y with hone | ⟨-, hsy⟩
      · omega
      · exact ⟨hsx, hsy⟩
  · exact .inl htag

theorem keyAbove_compares : ComparesBy keyAbove fun x => (chapterKey x).place where
  value := ChapterKey.gt_value
  symm h := ChapterKey.gt_isSome.mpr <| (ChapterKey.gt_isSome.mp h).imp Ne.symm And.symm
  below hx hy hxm _ := keyAbove_isSome_of hx hy (ChapterKey.tag_le hxm)
  through hx hy hxm _ := keyAbove_isSome_of hx hy (ChapterKey.tag_le hxm)

@[simp] theorem chapterKey_text : (chapterKey x).text = x := by
  unfold chapterKey
  split <;> rfl

end

/-! ## Agreement -/

/-- There are no chapters, or a text of them, with no spaces around it, is the first greatest both
of the texts by the number in them, and of the raw texts by their keys. -/
def OneNewest (t : CatalogText) (numbers : List String) : Prop :=
  numbers = [] ∨ ∃ v, FirstMax (sortAbove t) (numbers.map strip) v ∧ FirstMax keyAbove numbers v

section
variable {t : CatalogText} {m : ListingMetadata} {rows : List RecentChapter} {v : String}

theorem listingObservationVersion_eq (hrows : m.recentChapters = some rows)
    (hexplicit : strip m.latestChapter = "") (hne : recentNumbers rows ≠ []) :
    listingObservationVersion t m = some v ↔
      FirstMax (sortAbove t) ((recentNumbers rows).map strip) v := by
  simp only [listingObservationVersion, hexplicit, hrows, ne_eq, not_true_eq_false, if_false]
  rw [← maxBy_iff (sortAbove_compares t)]
  constructor
  · intro h
    obtain ⟨best, hbest, rfl⟩ := Option.map_eq_some_iff.mp h
    cases best with
    | none => exact absurd (List.map_eq_nil_iff.mp (maxBy_eq_none_some.mp hbest)) hne
    | some v => exact hbest
  · intro h
    rw [h]
    rfl

theorem latestListingChapter_eq (hrows : m.recentChapters = some rows)
    (hne : recentNumbers rows ≠ []) :
    latestListingChapter m = some v ↔ FirstMax keyAbove (recentNumbers rows) v := by
  simp only [latestListingChapter, hrows]
  rw [← maxBy_iff keyAbove_compares]
  constructor
  · intro h
    obtain ⟨best, hbest, rfl⟩ := Option.map_eq_some_iff.mp h
    cases best with
    | none => exact absurd (maxBy_eq_none_some.mp hbest) hne
    | some v => exact hbest
  · intro h
    rw [h]
    rfl

/-- A text that is a number, as `chapter_sort_number` reads it, without spaces around it. -/
def IsPlain (t : CatalogText) (v : String) : Prop :=
  strip v = v ∧ sortDecimal t v = parseDecimal v ∧ ∃ q, parseDecimal v = some (.finite q)

/-- Texts that are different numbers have a newest one in both orders. -/
theorem oneNewest_of_plain {numbers : List String} (h : ∀ v ∈ numbers, IsPlain t v)
    (hdiff : numbers.Pairwise fun v w => parseDecimal v ≠ parseDecimal w) :
    OneNewest t numbers := by
  cases numbers with
  | nil => exact .inl rfl
  | cons x l =>
    right
    have hstrip : (x :: l).map strip = x :: l :=
      (List.map_congr_left fun v hv => (h v hv).1).trans (List.map_id _)
    have hall : ∀ a ∈ x :: l, ∀ b ∈ x :: l, (sortAbove t a b).isSome := by
      intro a ha b hb
      obtain ⟨-, hsa, q, hq⟩ := h a ha
      obtain ⟨-, hsb, r, hr⟩ := h b hb
      exact sortAbove_isSome.mpr (by simp [hsa, hsb, hq, hr, Dec.value])
    -- both orders compare two of the numbers alike
    have hsame : ∀ a ∈ x :: l, ∀ b ∈ x :: l, parseDecimal a ≠ parseDecimal b →
        keyAbove a b = sortAbove t a b := by
      intro a ha b hb hab
      obtain ⟨-, hsa, q, hq⟩ := h a ha
      obtain ⟨-, hsb, r, hr⟩ := h b hb
      have hqr : q ≠ r := by
        rintro rfl
        exact hab (hq.trans hr.symm)
      simp [keyAbove, chapterKey, ChapterKey.gt, sortAbove, hsa, hsb, hq, hr, hqr]
    obtain ⟨m, hm⟩ := (sortAbove_compares t).exists_firstMax hall
    refine ⟨m, by rwa [hstrip], ?_⟩
    obtain ⟨before, after, he, hbefore, hafter⟩ := hm
    rw [he] at hdiff hsame ⊢
    obtain ⟨-, hdiffm, hdiffb⟩ := List.pairwise_append.mp hdiff
    have hmem : m ∈ before ++ m :: after := List.mem_append_right _ List.mem_cons_self
    refine ⟨before, after, rfl, fun y hy => ?_, fun y hy => ?_⟩
    · rw [hsame m hmem y (List.mem_append_left _ hy) (hdiffb y hy m List.mem_cons_self).symm]
      exact hbefore y hy
    · rw [hsame y (List.mem_append_right _ (List.mem_cons_of_mem _ hy)) m hmem
        ((List.pairwise_cons.mp hdiffm).1 y hy).symm]
      exact hafter y hy

end

/-- A text without a number among the chapters. -/
def prologueListing : ListingMetadata :=
  { recentChapters := some [.row "Prologue", .row "5"] }

/-- A prefix hides the number from `Decimal`. -/
example : (listingObservationVersion asciiCatalog
    { recentChapters := some [.row "Chapter 12", .row "5"] }, latestListingChapter
    { recentChapters := some [.row "Chapter 12", .row "5"] }) = (some "Chapter 12", some "5") := by
  decide +kernel

end MangaManager
