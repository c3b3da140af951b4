import Mathlib.Algebra.Order.Ring.Unbundled.Rat
import Mathlib.Data.List.DropRight
import Mathlib.Order.WithBot

/-!
# Text of the source language

`strip`, `hasPrefix` and `truncate` are `str.strip`, `str.startswith` and `s[:n]`, and
`parseInt` is `int` of a text (`none` is `ValueError`). `Dec` is a
`decimal.Decimal` value and `parseDecimal` its constructor (`none` is
`InvalidOperation`); `Dec.gt` is `>` on two of them, `none` again where the
comparison signals (one side is a NaN). `Dec.value` is the place of a number in
the order that `>` compares by.
-/

namespace MangaManager.Lib

/-- The characters `str.strip()` removes. -/
def isSpace (c : Char) : Bool :=
  let n := c.toNat
  (9 ≤ n && n ≤ 13) || (28 ≤ n && n ≤ 32) || n == 133 || n == 160 || n == 5760 ||
    (8192 ≤ n && n ≤ 8202) || n == 8232 || n == 8233 || n == 8239 || n == 8287 || n == 12288

def stripChars (cs : List Char) : List Char := (cs.dropWhile isSpace).rdropWhile isSpace

def strip (s : String) : String := String.ofList (stripChars s.toList)

/-- `s.startswith(p)`. -/
def hasPrefix (p s : String) : Bool := p.toList.isPrefixOf s.toList

/-- `s.removeprefix(p)`. -/
def removePrefix (p s : String) : String :=
  if hasPrefix p s then String.ofList (s.toList.drop p.length) else s

/-- `a or b` on strings. -/
def orText (a b : String) : String := if a = "" then b else a

/-- `s[:n]`. -/
def truncate (n : Nat) (s : String) : String := String.ofList (s.toList.take n)

theorem hasPrefix_append (p s : String) : hasPrefix p (p ++ s) = true := by
  simp [hasPrefix]

theorem removePrefix_append (p s : String) : removePrefix p (p ++ s) = s := by
  have hd : (p ++ s).toList.drop p.length = s.toList := by
    rw [String.toList_append, ← String.length_toList, List.drop_left]
  rw [removePrefix, if_pos (hasPrefix_append p s), hd, String.ofList_toList]

/-- Text that neither starts nor ends with a space is its own `strip`. -/
theorem strip_eq_self {s : String} (h : ∀ c ∈ s.toList, isSpace c = false) : strip s = s := by
  have hd : s.toList.dropWhile isSpace = s.toList := by
    cases hs : s.toList with
    | nil => rfl
    | cons c cs => rw [List.dropWhile_cons, h c (by simp [hs])]; rfl
  have hr : s.toList.rdropWhile isSpace = s.toList := by
    rw [List.rdropWhile_eq_self_iff]
    intro hne
    simp [h _ (List.getLast_mem hne)]
  simp [strip, stripChars, hd, hr]

theorem strip_ne_empty {s : String} {c : Char} (hc : c ∈ s.toList) (hs : isSpace c = false) :
    strip s ≠ "" := by
  intro h
  have hnil : stripChars s.toList = [] := by
    have := congrArg String.toList h
    simpa [strip] using this
  rw [stripChars, List.rdropWhile_eq_nil_iff] at hnil
  rw [← List.takeWhile_append_dropWhile (p := isSpace) (l := s.toList), List.mem_append] at hc
  rcases hc with hc | hc
  · rw [List.mem_takeWhile_imp hc] at hs
    cases hs
  · rw [hnil c hc] at hs
    cases hs

/-! ## Integers -/

/-- Digits, with single underscores between them. -/
def digitGroups : List Char → Bool
  | [] => false
  | [c] => c.isDigit
  | c :: '_' :: cs => c.isDigit && digitGroups cs
  | c :: cs => c.isDigit && digitGroups cs

def parseNat (cs : List Char) : Option Nat :=
  if digitGroups cs then some (Nat.ofDigitChars 10 (cs.filter (· != '_')) 0) else none

/-- `int(s)` of a text whose digits are ASCII. -/
def parseInt (s : String) : Option Int :=
  match (strip s).toList with
  | '+' :: cs => (parseNat cs).map Int.ofNat
  | '-' :: cs => (parseNat cs).map fun n => -(n : Int)
  | cs => (parseNat cs).map Int.ofNat

theorem digitGroups_of_isDigit {cs : List Char} (h : ∀ c ∈ cs, c.isDigit = true) (hne : cs ≠ []) :
    digitGroups cs = true := by
  induction cs with
  | nil => exact absurd rfl hne
  | cons c cs ih =>
    have hc := h c (by simp)
    cases cs with
    | nil => exact hc
    | cons d ds =>
      have hd : d ≠ '_' := fun he => absurd (he ▸ h d (by simp)) (by decide)
      have hds := ih (fun c hc => h c (List.mem_cons_of_mem _ hc)) (by simp)
      unfold digitGroups
      split
      · rename_i heq
        cases heq
      · rename_i heq
        cases heq
      · rename_i heq
        cases heq
        exact absurd rfl hd
      · rename_i heq
        cases heq
        rw [hc, hds, Bool.and_self]

/-- Digits are neither spaces nor signs nor underscores. -/
theorem isDigit_ne {c : Char} (h : c.isDigit = true) :
    isSpace c = false ∧ c ≠ '+' ∧ c ≠ '-' ∧ c ≠ '_' := by
  have hrange : 48 ≤ c.toNat ∧ c.toNat ≤ 57 := by
    simp only [Char.isDigit, Bool.and_eq_true, decide_eq_true_eq] at h
    exact h
  refine ⟨?_, ?_, ?_, ?_⟩
  · simp only [isSpace, Bool.or_eq_false_iff, Bool.and_eq_false_iff, decide_eq_false_iff_not,
      beq_eq_false_iff_ne, ne_eq]
    omega
  all_goals
    rintro rfl
    exact absurd hrange (by decide)

theorem isDigit_of_mem_toString {n : Nat} {c : Char} (h : c ∈ (toString n).toList) :
    c.isDigit = true := by
  rw [Nat.toString_eq_repr, Nat.toList_repr] at h
  exact Nat.isDigit_of_mem_toDigits (by decide) (by decide) h

theorem toString_toList (n : Nat) : (toString n).toList = Nat.toDigits 10 n := by
  rw [Nat.toString_eq_repr, Nat.toList_repr]

theorem parseNat_toString (n : Nat) : parseNat (toString n).toList = some n := by
  have hdigit : ∀ c ∈ Nat.toDigits 10 n, c.isDigit = true :=
    fun c hc => Nat.isDigit_of_mem_toDigits (by decide) (by decide) hc
  have hfilter : (Nat.toDigits 10 n).filter (· != '_') = Nat.toDigits 10 n :=
    List.filter_eq_self.mpr fun c hc => bne_iff_ne.mpr (isDigit_ne (hdigit c hc)).2.2.2
  rw [toString_toList, parseNat, if_pos (digitGroups_of_isDigit hdigit Nat.toDigits_ne_nil), hfilter]
  simp

theorem parseInt_toString (n : Nat) : parseInt (toString n) = some (n : Int) := by
  have hstrip : strip (toString n) = toString n :=
    strip_eq_self fun c hc => (isDigit_ne (isDigit_of_mem_toString hc)).1
  rw [parseInt, hstrip]
  split
  · rename_i cs heq
    exact absurd rfl (isDigit_ne (isDigit_of_mem_toString (c := '+') (by rw [heq]; simp))).2.1
  · rename_i cs heq
    exact absurd rfl (isDigit_ne (isDigit_of_mem_toString (c := '-') (by rw [heq]; simp))).2.2.1
  · rw [parseNat_toString]
    rfl

/-- The text of a negative number. -/
theorem toString_negSucc (n : Nat) :
    (toString (Int.negSucc n)).toList = '-' :: (toString (n + 1)).toList := by
  show ("-" ++ toString (n + 1)).toList = _
  rw [String.toList_append]
  rfl

theorem parseInt_toString_int (n : Int) : parseInt (toString n) = some n := by
  cases n with
  | ofNat n => exact parseInt_toString n
  | negSucc n =>
    have hstrip : strip (toString (Int.negSucc n)) = toString (Int.negSucc n) := by
      refine strip_eq_self fun c hc => ?_
      rw [toString_negSucc] at hc
      rcases List.mem_cons.mp hc with rfl | hc
      · decide
      · exact (isDigit_ne (isDigit_of_mem_toString hc)).1
    rw [parseInt, hstrip, toString_negSucc]
    show (parseNat (toString (n + 1)).toList).map (fun n => -(n : Int)) = _
    rw [parseNat_toString]
    rfl

/-! ## Decimals -/

inductive Dec where
  | finite (q : Rat)
  | infinite (negative : Bool)
  | nan
  deriving DecidableEq

/-- `a > b`; `none` where the comparison signals `InvalidOperation`. -/
def Dec.gt : Dec → Dec → Option Bool
  | nan, _ => none
  | _, nan => none
  | finite a, finite b => some (decide (b < a))
  | infinite neg, finite _ => some !neg
  | finite _, infinite neg => some neg
  | infinite a, infinite b => some (!a && b)

/-- The rationals with both infinities. -/
abbrev Dec.Value := WithBot (WithTop Rat)

def Dec.value : Dec → Option Dec.Value
  | finite q => some ((q : WithTop Rat) : WithBot (WithTop Rat))
  | infinite negative => some (if negative then ⊥ else ⊤)
  | nan => none

/-- `>` compares the values of two numbers. -/
theorem Dec.gt_eq {a b : Dec} {x y : Dec.Value} (ha : a.value = some x) (hb : b.value = some y) :
    a.gt b = some (decide (y < x)) := by
  have htop : ∀ q : Rat, ((q : WithTop Rat) : Dec.Value) < ⊤ := fun q =>
    WithBot.coe_lt_coe.mpr (WithTop.coe_lt_top q)
  cases a with
  | nan => cases ha
  | finite p =>
    cases ha
    cases b with
    | nan => cases hb
    | finite q => cases hb; simp [gt]
    | infinite neg => cases hb; cases neg <;> simp [gt]
  | infinite neg =>
    cases ha
    cases b with
    | nan => cases hb
    | finite q => cases hb; cases neg <;> simp [gt, htop]
    | infinite neg' => cases hb; cases neg <;> cases neg' <;> simp [gt]

def digitsValue (ds : List Char) : Nat := ds.foldl (fun n c => 10 * n + (c.toNat - 48)) 0

/-- `[+-]?` in front of a numeral: is it negative, and the rest. -/
def splitSign : List Char → Bool × List Char
  | '-' :: cs => (true, cs)
  | '+' :: cs => (false, cs)
  | cs => (false, cs)

/-- The exponent part: nothing, or `e`/`E` with a signed digit string. -/
def parseExponent : List Char → Option Int
  | [] => some 0
  | c :: cs =>
    if c == 'e' || c == 'E' then
      let (neg, ds) := splitSign cs
      if !ds.isEmpty && ds.all Char.isDigit then
        some (if neg then -(digitsValue ds : Int) else (digitsValue ds : Int))
      else none
    else none

/-- `±m · 10^e`. -/
def scaled (neg : Bool) (m : Nat) (e : Int) : Rat :=
  let n : Int := if neg then -(m : Int) else m
  match e with
  | .ofNat k => (n * (Nat.pow 10 k : Int) : Int)
  | .negSucc k => mkRat n (Nat.pow 10 (k + 1))

def parseNumeral (neg : Bool) (cs : List Char) : Option Dec :=
  let whole := cs.takeWhile Char.isDigit
  let rest := cs.dropWhile Char.isDigit
  let (frac, tail) := match rest with
    | '.' :: r => (r.takeWhile Char.isDigit, r.dropWhile Char.isDigit)
    | r => ([], r)
  if whole.isEmpty && frac.isEmpty then none
  else (parseExponent tail).map fun e =>
    .finite (scaled neg (digitsValue (whole ++ frac)) (e - frac.length))

/-- `Decimal(s)` on ASCII text. -/
def parseDecimal (s : String) : Option Dec :=
  let (neg, cs) := splitSign ((stripChars s.toList).filter (· != '_'))
  let word := cs.map Char.toLower
  if word = "inf".toList ∨ word = "infinity".toList then some (.infinite neg)
  else if (word.take 3 = "nan".toList ∧ (word.drop 3).all Char.isDigit) ∨
      (word.take 4 = "snan".toList ∧ (word.drop 4).all Char.isDigit) then some .nan
  else parseNumeral neg cs

example : parseDecimal " 12.50 " = some (.finite (mkRat 25 2)) := by decide +kernel

end MangaManager.Lib
