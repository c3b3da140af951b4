import Mathlib.Algebra.Order.Ring.Unbundled.Rat
import MangaManager.Domain.Matching

/-!
# Titles and chapter numbers

`manga_manager/domain/catalog.py`: the form in which titles are compared, the number a
chapter is stored under and the one it is sorted by. Digits are ASCII. `nfkd` is
`unicodedata.normalize("NFKD", value)`, of which nothing is assumed.
-/

namespace MangaManager

open Lib

/-- `TextLib` with the compatibility decomposition. -/
structure CatalogText extends TextLib where
  nfkd : String → String

/-- The functions on ASCII text. -/
def asciiCatalog : CatalogText := { asciiText with nfkd := id }

/-! ## Titles -/

/-- `re.sub(r"\([^)]*\)|\[[^]]*]", " ", value)`; `closing` ends the bracket that is skipped. -/
def dropBrackets : Option Char → List Char → List Char
  | _, [] => []
  | some closing, c :: cs => dropBrackets (if c = closing then none else some closing) cs
  | none, c :: cs =>
    if c = '(' ∧ ')' ∈ cs then ' ' :: dropBrackets (some ')') cs
    else if c = '[' ∧ ']' ∈ cs then ' ' :: dropBrackets (some ']') cs
    else c :: dropBrackets none cs

/-- The words that no title is told apart by. -/
def titleStopWords : List String :=
  ["the", "a", "an", "manga", "manhwa", "manhua", "webtoon", "official"]

/-- `\w` of lower case ASCII text. -/
def isWordChar (c : Char) : Bool := isIdChar c || c == '_'

namespace CatalogText

variable (t : CatalogText)

/-- `normalize_title`: words between word boundaries go first, and then what is not `[a-z0-9]`. -/
def normalizeTitle (title : String) : String :=
  let ascii := ((t.nfkd title).toList.filter (·.toNat < 128)).map Char.toLower
  let words := ((dropBrackets none ascii).splitOnP fun c => !isWordChar c).filter fun w =>
    String.ofList w ∉ titleStopWords
  let tokens := words.flatMap fun w => w.splitOnP fun c => !isIdChar c
  " ".intercalate ((tokens.filter (!·.isEmpty)).map String.ofList)

/-! ## Chapter numbers -/

/-- Half-even division by a power of ten. -/
def roundHalfEven (n k : Nat) : Nat :=
  let unit := Nat.pow 10 k
  let q := n / unit
  let r := n % unit
  if 2 * r > unit ∨ (2 * r = unit ∧ q % 2 = 1) then q + 1 else q

/-- `format(Decimal(n / 10 ** places).normalize(), "f")`, with the 28 digits of the default
context. -/
def formatNormalized (n places : Nat) : String :=
  let extra := (Nat.toDigits 10 n).length - 28
  let m := roundHalfEven n extra
  if places ≤ extra then toString (m * Nat.pow 10 (extra - places))
  else
    let e := places - extra
    let whole := m / Nat.pow 10 e
    let frac := Nat.toDigits 10 (m % Nat.pow 10 e)
    let digits := (List.replicate (e - frac.length) '0' ++ frac).rdropWhile (· == '0')
    if digits.isEmpty then toString whole else toString whole ++ "." ++ String.ofList digits

/-- `canonical_chapter_number`. -/
def canonicalChapterNumber (value : String) : String :=
  match value.toList.dropWhile (!·.isDigit) with
  | [] =>
    let words := ((t.lower (strip value)).toList.splitOnP isSpace).filter (!·.isEmpty)
    " ".intercalate (words.map String.ofList)
  | cs =>
    let whole := cs.takeWhile Char.isDigit
    let frac := match cs.dropWhile Char.isDigit with
      | '.' :: rest => rest.takeWhile Char.isDigit
      | _ => []
    formatNormalized (digitsValue (whole ++ frac)) frac.length

/-- `chapter_sort_number`, as the column `Numeric(20, 6)` keeps it. A number that is not finite has
none. -/
def chapterSortNumber (value : String) : Option Rat :=
  match parseDecimal (t.canonicalChapterNumber value) with
  | some (.finite q) => some (mkRat (q * 1000000 + 1 / 2).floor 1000000)
  | _ => none

end CatalogText

example : asciiCatalog.normalizeTitle "The Hero's (Official) Tale_2 [Manhwa]" = "hero s tale 2" := by
  decide +kernel

example : asciiCatalog.canonicalChapterNumber "Chapter 010.50" = "10.5" := by decide +kernel

end MangaManager
