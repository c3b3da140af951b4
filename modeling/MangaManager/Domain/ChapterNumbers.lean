import MangaManager.Domain.Catalog
import MangaManager.Lib.Decimal
import MangaManager.Lib.Unicode

/-!
# Canonical chapter numbers

`canonical_chapter_number` and `chapter_sort_number` of `manga_manager/domain/catalog.py` on
every text, with the digits of Unicode and the exponents of the default decimal context.

`canonicalChapterNumber_spec`: on the numbers that the context holds, the canonical form is
one for each number, and the sort number is that number. Below the smallest of them, and of
28 digits, a number becomes zero (`tiny_chapters_collide`).
-/

namespace MangaManager

open Lib

/-- `match.group(1)` as digits. -/
structure NumericToken where
  whole : List Nat
  frac : List Nat
  deriving DecidableEq

def digitsNumber (ds : List Nat) : Nat := ds.foldl (fun n d => 10 * n + d) 0

namespace NumericToken

/-- `Decimal(match.group(1))`, which is exact. -/
def decimal (k : NumericToken) : Decimal :=
  { coefficient := digitsNumber (k.whole ++ k.frac), exponent := -(k.frac.length : Int) }

/-- At most 28 significant digits. -/
def Significant (k : NumericToken) : Prop :=
  ∃ (m : Nat) (e : Int), m < 10 ^ 28 ∧ k.decimal.value = m * (10 : Rat) ^ e

end NumericToken

theorem defaultEmin_le : (-999999 : Int) ≤ 999999 := by decide

/-- `decimal.DefaultContext`. -/
def defaultContext : DecimalContext :=
  { prec := 28, emin := -999999, emax := 999999, prec_pos := Nat.succ_pos 27,
    emin_le := defaultEmin_le }

section
variable (u : UnicodeData)

/-- `re.search(r"(\d+(?:\.\d+)?)", value)`. -/
def numericToken (value : String) : Option NumericToken :=
  match value.toList.dropWhile (!u.isDecimal ·) with
  | [] => none
  | cs => some
    { whole := (cs.takeWhile u.isDecimal).filterMap u.digit
      frac := match cs.dropWhile u.isDecimal with
        | '.' :: rest => (rest.takeWhile u.isDecimal).filterMap u.digit
        | _ => [] }

/-- `canonical_chapter_number`; none, when `normalize` raises `Overflow`. It raises nothing else,
and neither does `Decimal` of a token. -/
def canonicalChapterNumber (value : String) : Option String :=
  match numericToken u value with
  | none => some (String.ofList (joinWords (splitWords (u.lower (stripChars value.toList)))))
  | some token => (token.decimal.normalize defaultContext).map Decimal.format

/-- `chapter_sort_number`; the inner none is `None`. -/
def chapterSortNumber (value : String) : Option (Option Dec) :=
  (canonicalChapterNumber u value).map parseDecimal

end

/-! ## Numbers -/

section
variable {u : UnicodeData} {v w : String} {k l : NumericToken} {cs whole frac : List Char}
  {c d : Decimal}

theorem isDigit_lt {ch : Char} (h : ch.isDigit = true) : ch.toNat < 128 := by
  simp only [Char.isDigit, Bool.and_eq_true, decide_eq_true_eq] at h
  have hle : ch.toNat ≤ 57 := h.2
  omega

theorem digit_of_isDigit (hu : u.Lawful) {ch : Char} (h : ch.isDigit = true) :
    u.digit ch = some (ch.toNat - 48) := by
  rw [hu.digit_ascii ch (isDigit_lt h), if_pos h]

theorem isDecimal_of_isDigit (hu : u.Lawful) {ch : Char} (h : ch.isDigit = true) :
    u.isDecimal ch = true := by
  rw [UnicodeData.isDecimal, digit_of_isDigit hu h]
  rfl

theorem filterMap_digit (hu : u.Lawful) (h : ∀ ch ∈ cs, ch.isDigit = true) :
    cs.filterMap u.digit = cs.map fun ch => ch.toNat - 48 := by
  induction cs with
  | nil => rfl
  | cons ch cs ih =>
    rw [List.filterMap_cons_some (digit_of_isDigit hu (h ch List.mem_cons_self)), List.map_cons,
      ih fun x hx => h x (List.mem_cons_of_mem _ hx)]

theorem digitsNumber_map (cs : List Char) :
    digitsNumber (cs.map fun ch => ch.toNat - 48) = Nat.ofDigitChars 10 cs 0 := by
  rw [digitsNumber, List.foldl_map, Nat.ofDigitChars_eq_foldl]
  rfl

/-- A run up to a character that does not belong to it. -/
theorem span_append {p : Char → Bool} (h : ∀ ch ∈ cs, p ch = true) (rest : List Char)
    (hrest : ∀ ch ∈ rest.head?, p ch = false) :
    (cs ++ rest).takeWhile p = cs ∧ (cs ++ rest).dropWhile p = rest := by
  rw [List.takeWhile_append_of_pos h, List.dropWhile_append_of_pos h]
  cases rest with
  | nil => exact ⟨List.append_nil cs, rfl⟩
  | cons x xs =>
    have hx := hrest x rfl
    rw [List.takeWhile_cons_of_neg (by simp [hx]), List.dropWhile_cons_of_neg (by simp [hx])]
    exact ⟨List.append_nil cs, rfl⟩

/-- The point, and what is after it. -/
theorem span_point {p : Char → Bool} (h : ∀ ch ∈ cs, p ch = true) (hpoint : p '.' = false)
    (frac : List Char) :
    (cs ++ if frac = [] then [] else '.' :: frac).takeWhile p = cs ∧
      (cs ++ if frac = [] then [] else '.' :: frac).dropWhile p =
        if frac = [] then [] else '.' :: frac := by
  refine span_append h _ fun ch hch => ?_
  split at hch
  · cases hch
  · exact Option.some.inj hch ▸ hpoint

/-- The token of a numeral is all of it. -/
theorem numericToken_numeral (hu : u.Lawful)
    (hv : v.toList = whole ++ (if frac = [] then [] else '.' :: frac)) (hne : whole ≠ [])
    (hdigit : ∀ ch ∈ whole ++ frac, ch.isDigit = true) :
    ∃ k, numericToken u v = some k ∧
      k.decimal = ⟨Nat.ofDigitChars 10 (whole ++ frac) 0, -(frac.length : Int)⟩ := by
  have hwhole : ∀ ch ∈ whole, ch.isDigit = true := fun ch h => hdigit ch (List.mem_append_left _ h)
  have hfrac : ∀ ch ∈ frac, ch.isDigit = true := fun ch h => hdigit ch (List.mem_append_right _ h)
  have hpoint : u.isDecimal '.' = false := by
    rw [UnicodeData.isDecimal, hu.digit_ascii '.' (by decide)]
    rfl
  obtain ⟨ht, hd⟩ := span_point (fun ch h => isDecimal_of_isDigit hu (hwhole ch h)) hpoint frac
  refine ⟨{ whole := whole.map fun ch => ch.toNat - 48, frac := frac.map fun ch => ch.toNat - 48 },
    ?_, ?_⟩
  · have hstart : v.toList.dropWhile (!u.isDecimal ·) = v.toList := by
      obtain ⟨x, xs, rfl⟩ := List.exists_cons_of_ne_nil hne
      rw [hv, List.cons_append, List.dropWhile_cons_of_neg]
      simp [isDecimal_of_isDigit hu (hwhole x List.mem_cons_self)]
    have hcons : v.toList ≠ [] := by
      rw [hv]
      exact List.append_ne_nil_of_left_ne_nil hne _
    rw [numericToken, hstart]
    split
    · rename_i hnil
      exact absurd hnil hcons
    · rw [hv, ht, hd, filterMap_digit hu hwhole]
      refine congrArg some (congrArg _ ?_)
      by_cases hnil : frac = []
      · rw [if_pos hnil, hnil]
        rfl
      · obtain ⟨hft, -⟩ := span_append (fun ch h => isDecimal_of_isDigit hu (hfrac ch h)) []
          fun ch hch => by cases hch
        rw [List.append_nil] at hft
        rw [if_neg hnil]
        simp only [hft, filterMap_digit hu hfrac]
  · rw [NumericToken.decimal, ← List.map_append, digitsNumber_map, List.length_map]

theorem numericToken_format (hu : u.Lawful) (d : Decimal) :
    ∃ k, numericToken u d.format = some k ∧ k.decimal.value = d.value := by
  obtain ⟨whole, frac, hformat, hne, hdigit, hvalue⟩ := d.format_spec
  obtain ⟨k, hk, he⟩ := numericToken_numeral hu hformat hne hdigit
  exact ⟨k, hk, by rw [he, hvalue]⟩

/-- The canonical form of a number. -/
theorem canonicalChapterNumber_token (hk : numericToken u v = some k)
    (hfits : k.decimal.Fits defaultContext) : ∃ r : Decimal,
      canonicalChapterNumber u v = some r.format ∧ r.Reduced ∧ r.value = k.decimal.value := by
  obtain ⟨r, hr, hreduced, hvalue⟩ := Decimal.normalize_spec hfits
  exact ⟨r, by rw [canonicalChapterNumber, hk]; simp only [hr, Option.map_some], hreduced, hvalue⟩

theorem scaled_eq (m : Nat) (e : Int) : scaled false m e = (⟨m, e⟩ : Decimal).value := by
  cases e with
  | ofNat n =>
    show (((m : Int) * (10 ^ n : Nat) : Int) : Rat) = m * (10 : Rat) ^ (n : Int)
    rw [zpow_natCast]
    push_cast
    rfl
  | negSucc n =>
    show mkRat m (10 ^ (n + 1)) = m * (10 : Rat) ^ (Int.negSucc n)
    rw [zpow_negSucc, Rat.mkRat_eq_div]
    push_cast
    rfl

theorem digitsValue_eq (cs : List Char) : digitsValue cs = Nat.ofDigitChars 10 cs 0 := by
  rw [Nat.ofDigitChars_eq_foldl]
  rfl

/-- `Decimal` reads a numeral. -/
theorem parseDecimal_numeral
    (hv : v.toList = whole ++ (if frac = [] then [] else '.' :: frac)) (hne : whole ≠ [])
    (hdigit : ∀ ch ∈ whole ++ frac, ch.isDigit = true) :
    parseDecimal v = some (.finite
      (⟨Nat.ofDigitChars 10 (whole ++ frac) 0, -(frac.length : Int)⟩ : Decimal).value) := by
  have hchar : ∀ ch ∈ v.toList, ch.isDigit = true ∨ ch = '.' := by
    intro ch hch
    rw [hv] at hch
    rcases List.mem_append.mp hch with h | h
    · exact .inl (hdigit ch (List.mem_append_left _ h))
    · split at h
      · cases h
      · rcases List.mem_cons.mp h with rfl | h
        · exact .inr rfl
        · exact .inl (hdigit ch (List.mem_append_right _ h))
  obtain ⟨x, xs, rfl⟩ := List.exists_cons_of_ne_nil hne
  have hx : x.isDigit = true := hdigit x List.mem_cons_self
  have hstrip : stripChars v.toList = v.toList := by
    have hspace : ∀ ch ∈ v.toList, isSpace ch = false := fun ch hch => by
      rcases hchar ch hch with h | rfl
      · exact (isDigit_ne h).1
      · decide
    refine stripChars_eq_self (fun ch hch => hspace ch (List.mem_of_head? hch)) fun ch hch =>
      hspace ch (List.mem_of_getLast? hch)
  have hfilter : v.toList.filter (· != '_') = v.toList := List.filter_eq_self.mpr fun ch hch => by
    rcases hchar ch hch with h | rfl
    · exact bne_iff_ne.mpr (isDigit_ne h).2.2.2
    · decide
  have hsign : splitSign v.toList = (false, v.toList) := by
    rw [hv, List.cons_append]
    unfold splitSign
    split
    · rename_i heq
      cases heq
      exact absurd rfl (isDigit_ne hx).2.2.1
    · rename_i heq
      cases heq
      exact absurd rfl (isDigit_ne hx).2.1
    · rfl
  -- it is not one of the words
  have hlower : x.toLower = x := by
    rcases toLower_cases x with h | ⟨hlow, -, -⟩
    · exact h
    · have hrange := isDigit_iff.mp hx
      omega
  have hword : v.toList.map Char.toLower =
      x :: (xs ++ (if frac = [] then [] else '.' :: frac)).map Char.toLower := by
    rw [hv, List.cons_append, List.map_cons, hlower]
  have hi : x ≠ 'i' := fun h => absurd (h ▸ hx) (by decide)
  have hn : x ≠ 'n' := fun h => absurd (h ▸ hx) (by decide)
  have hs : x ≠ 's' := fun h => absurd (h ▸ hx) (by decide)
  have hinf : ¬ (v.toList.map Char.toLower = "inf".toList ∨
      v.toList.map Char.toLower = "infinity".toList) := by
    rw [hword]
    rintro (h | h)
    · exact hi (List.cons.inj h).1
    · exact hi (List.cons.inj h).1
  have hnan : ¬ (((v.toList.map Char.toLower).take 3 = "nan".toList ∧
      ((v.toList.map Char.toLower).drop 3).all Char.isDigit = true) ∨
      ((v.toList.map Char.toLower).take 4 = "snan".toList ∧
        ((v.toList.map Char.toLower).drop 4).all Char.isDigit = true)) := by
    rw [hword]
    rintro (⟨h, -⟩ | ⟨h, -⟩)
    · exact hn (List.cons.inj h).1
    · exact hs (List.cons.inj h).1
  rw [parseDecimal_eq, spelled, hstrip, hfilter, hsign, readDecimal, if_neg hinf, if_neg hnan]
  -- the numeral itself
  obtain ⟨ht, hd⟩ := span_point (p := Char.isDigit)
    (fun ch h => hdigit ch (List.mem_append_left _ h)) rfl frac
  have hvalue : ∀ m : Nat, scaled false m (0 - (frac.length : Int)) =
      (⟨m, -(frac.length : Int)⟩ : Decimal).value := fun m => by
    rw [scaled_eq, zero_sub]
  unfold parseNumeral
  rw [hv, ht, hd]
  by_cases hnil : frac = []
  · subst hnil
    have hdigits := digitsValue_eq (x :: xs ++ [])
    simp only [if_pos]
    rw [← hvalue, ← hdigits]
    rfl
  · obtain ⟨hft, hfd⟩ := span_append (p := Char.isDigit)
      (fun ch h => hdigit ch (List.mem_append_right _ h)) [] fun ch hch => by cases hch
    rw [List.append_nil] at hft hfd
    simp only [if_neg hnil, hft, hfd]
    rw [← hvalue, ← digitsValue_eq]
    rfl

theorem parseDecimal_format (d : Decimal) : parseDecimal d.format = some (.finite d.value) := by
  obtain ⟨whole, frac, hformat, hne, hdigit, hvalue⟩ := d.format_spec
  rw [parseDecimal_numeral hformat hne hdigit, hvalue]

/-! ## Text -/

/-- A space inside a text stays one between words. -/
theorem mem_joinWords_space (hu : u.Lawful) {core xs ys : List Char} {x : Char}
    (hsplit : core = xs ++ x :: ys) (hspace : isSpace x = true)
    (hfirst : ∀ ch ∈ core.head?, isSpace ch = false)
    (hlast : ∀ ch ∈ core.getLast?, isSpace ch = false) :
    ' ' ∈ joinWords (splitWords (u.lower core)) := by
  subst hsplit
  have hxs : ∃ y ∈ xs, isSpace y = false := by
    cases xs with
    | nil =>
      rw [hfirst x rfl] at hspace
      cases hspace
    | cons y xs => exact ⟨y, List.mem_cons_self, hfirst y rfl⟩
  have hys : ∃ y ∈ ys, isSpace y = false := by
    rcases List.eq_nil_or_concat ys with rfl | ⟨ys, y, rfl⟩
    · rw [hlast x (by simp)] at hspace
      cases hspace
    · have hend : xs ++ x :: ys.concat y = (xs ++ x :: ys) ++ [y] := by simp
      exact ⟨y, by simp, hlast y (by rw [hend, List.getLast?_concat]; rfl)⟩
  obtain ⟨xs', ys', he, ⟨a, ha, has⟩, b, hb, hbs⟩ := hu.lower_append xs ys hspace hxs hys
  rw [he, splitWords_append hspace]
  obtain ⟨w, hw, -⟩ := (splitWords_spec xs').2 a ha has
  obtain ⟨w', hw', -⟩ := (splitWords_spec ys').2 b hb hbs
  generalize splitWords xs' = ws at hw
  generalize splitWords ys' = ws' at hw'
  clear he
  cases ws with
  | nil => cases hw
  | cons v ws =>
    rw [List.cons_append, joinWords_cons v (List.append_ne_nil_of_right_ne_nil _
      (List.ne_nil_of_mem hw'))]
    exact List.mem_append_right _ List.mem_cons_self

theorem numericToken_eq_none : numericToken u v = none ↔ ∀ ch ∈ v.toList, u.digit ch = none := by
  rw [numericToken]
  split
  · rename_i hdrop
    refine iff_of_true rfl fun ch hch => ?_
    have hnot := List.dropWhile_eq_nil_iff.mp hdrop ch hch
    simpa [UnicodeData.isDecimal] using hnot
  · rename_i hdrop
    refine iff_of_false (Option.some_ne_none _) fun hall => hdrop ?_
    refine List.dropWhile_eq_nil_iff.mpr fun ch hch => ?_
    simp [UnicodeData.isDecimal, hall ch hch]

/-- The canonical form of a text without a digit has none, and is its own. -/
theorem canonicalChapterNumber_text (hu : u.Lawful) (hv : ∀ ch ∈ v.toList, u.digit ch = none) :
    ∃ c, canonicalChapterNumber u v = some c ∧ canonicalChapterNumber u c = some c ∧
      parseDecimal c = parseDecimal v := by
  have hascii : ∀ {ch : Char}, u.digit ch = none → ch.isDigit = false := fun h =>
    Bool.eq_false_iff.mpr fun hd => by
      rw [digit_of_isDigit hu hd] at h
      cases h
  obtain ⟨hfirst, hlast, hsub⟩ := stripChars_spec v.toList
  set core := stripChars v.toList with hcore
  set words := splitWords (u.lower core) with hwords
  have hcoreDigit : ∀ ch ∈ core, u.digit ch = none := fun ch h => hv ch (hsub ch h)
  obtain ⟨hspec, hcover⟩ := splitWords_spec (u.lower core)
  have hws : ∀ w ∈ words, w ≠ [] ∧ ∀ ch ∈ w, isSpace ch = false := fun w hw =>
    ⟨(hspec w hw).1, fun ch hch => ((hspec w hw).2 ch hch).2⟩
  -- the characters of the canonical form
  have hchar : ∀ ch ∈ joinWords words, u.digit ch = none ∧ u.lowerChar ch = [ch] ∧ ch ≠ 'Σ' := by
    intro ch hch
    rcases of_mem_joinWords hch with rfl | ⟨w, hw, hchw⟩
    · exact ⟨by rw [hu.digit_ascii ' ' (by decide)]; rfl, hu.lower_space ' ' (by decide), by decide⟩
    · obtain ⟨x, hx, piece, hp, hpiece⟩ :=
        UnicodeData.exists_of_mem_lowerFrom ((hspec w hw).2 ch hchw).1
      exact ⟨hu.piece_digit hp (hcoreDigit x hx) ch hpiece, hu.piece_fixed hp ch hpiece⟩
  have hstrip : stripChars (joinWords words) = joinWords words := stripChars_joinWords hws
  refine ⟨String.ofList (joinWords words), ?_, ?_, ?_⟩
  · rw [canonicalChapterNumber, numericToken_eq_none.mpr hv]
  · rw [canonicalChapterNumber,
      numericToken_eq_none.mpr (by simpa using fun ch hch => (hchar ch hch).1)]
    simp only [String.toList_ofList]
    rw [hstrip, UnicodeData.Lawful.lower_eq_self fun ch hch => (hchar ch hch).2,
      splitWords_joinWords hws]
  · rw [parseDecimal_eq, parseDecimal_eq, String.toList_ofList, hstrip, ← hcore]
    by_cases hplain : ∀ ch ∈ core, ch.toNat < 128 ∧ isSpace ch = false
    · -- one ASCII word
      have hlower := hu.lower_eq_map fun ch hch => (hplain ch hch).1
      have hword : ∀ ch ∈ core.map Char.toLower, isSpace ch = false := by
        intro ch hch
        obtain ⟨x, hx, rfl⟩ := List.mem_map.mp hch
        refine (hu.lower_word x (hplain x hx).2).2 _ ?_
        rw [hu.lower_ascii x (hplain x hx).1]
        exact List.mem_singleton_self _
      have hjoin : joinWords words = core.map Char.toLower := by
        rw [hwords, hlower]
        by_cases hnil : core = []
        · rw [hnil]
          rfl
        · rw [splitWords_word hword (by simpa using hnil), joinWords, List.intercalate_singleton]
      rw [hjoin, spelled_map fun ch hch => hascii (hcoreDigit ch hch)]
    · -- neither text is a word for a number
      obtain ⟨x, hx, hforeign⟩ : ∃ x ∈ core, 128 ≤ x.toNat ∨ isSpace x = true := by
        push Not at hplain
        obtain ⟨x, hx, himp⟩ := hplain
        refine ⟨x, hx, ?_⟩
        by_cases hlt : x.toNat < 128
        · exact .inr (by simpa using himp hlt)
        · exact .inl (by omega)
      have hdigits : ∀ ch ∈ joinWords words, ch.isDigit = false := fun ch hch =>
        hascii (hchar ch hch).1
      obtain ⟨y, hy, hyforeign⟩ : ∃ y ∈ joinWords words,
          128 ≤ y.toNat ∨ isSpace y = true ∨ y = 'k' := by
        by_cases hspace : isSpace x = true
        · obtain ⟨xs, ys, hsplit⟩ := List.append_of_mem hx
          exact ⟨' ', mem_joinWords_space hu hsplit hspace hfirst hlast, .inr (.inl (by decide))⟩
        · obtain ⟨piece, hp, hall⟩ := UnicodeData.exists_piece_of_mem (u := u) hx
          obtain ⟨d, hd, hdf⟩ := hu.piece_foreign hp (hforeign.resolve_right hspace)
          have hds := (hu.piece_word hp (by simpa using hspace)).2 d hd
          obtain ⟨w, hw, hdw⟩ := hcover d (hall d hd) hds
          exact ⟨d, mem_joinWords hw hdw, hdf.imp_right .inr⟩
      rw [spelled_eq_none hdigits hy hyforeign, spelled_eq_none
        (fun ch hch => hascii (hcoreDigit ch hch)) hx (hforeign.imp_right .inl)]

theorem fits_congr {c : DecimalContext} {d e : Decimal} (h : d.Fits c) (he : d.value = e.value) :
    e.Fits c := by
  obtain ⟨hs, hb⟩ := h
  rw [he] at hs hb
  exact ⟨hs, hb⟩

/-- A canonical form is its own. -/
theorem canonicalChapterNumber_idem (hu : u.Lawful) {form : String}
    (h : canonicalChapterNumber u v = some form) :
    canonicalChapterNumber u form = some form := by
  cases hk : numericToken u v with
  | none =>
    obtain ⟨form', hform, hagain, -⟩ := canonicalChapterNumber_text hu (numericToken_eq_none.mp hk)
    obtain rfl : form' = form := Option.some.inj (hform.symm.trans h)
    exact hagain
  | some k =>
    rw [canonicalChapterNumber, hk] at h
    obtain ⟨r, hr, rfl⟩ := Option.map_eq_some_iff.mp h
    obtain ⟨hreduced, hfits⟩ := Decimal.normalize_reduced hr
    obtain ⟨l, hl, hvalue⟩ := numericToken_format hu r
    obtain ⟨r', hr', hreduced', hvalue'⟩ :=
      canonicalChapterNumber_token hl (fits_congr hfits hvalue.symm)
    rwa [hreduced'.eq hreduced (hvalue'.trans hvalue)] at hr'

/-- Every canonical form is its own. On the numbers that the default context holds there is
one, it is the same exactly for the same number, and the sort number is that number. A text without
a digit has one too, and a sort number when it is a word for one. -/
theorem canonicalChapterNumber_spec (hu : u.Lawful) :
    (∀ v form, canonicalChapterNumber u v = some form →
      canonicalChapterNumber u form = some form) ∧
    (∀ v k, numericToken u v = some k → k.decimal.Fits defaultContext →
      (canonicalChapterNumber u v).isSome ∧
        chapterSortNumber u v = some (some (.finite k.decimal.value))) ∧
    (∀ v w k l, numericToken u v = some k → numericToken u w = some l →
      k.decimal.Fits defaultContext → l.decimal.Fits defaultContext →
      (canonicalChapterNumber u v = canonicalChapterNumber u w ↔
        k.decimal.value = l.decimal.value)) ∧
    ∀ v : String, (∀ ch ∈ v.toList, u.digit ch = none) →
      (canonicalChapterNumber u v).isSome ∧ chapterSortNumber u v = some (parseDecimal v) := by
  refine ⟨fun v form => canonicalChapterNumber_idem hu, fun v k hk hfits => ?_,
    fun v w k l hk hl hkf hlf => ?_, fun v hv => ?_⟩
  · obtain ⟨r, hr, -, hvalue⟩ := canonicalChapterNumber_token hk hfits
    rw [chapterSortNumber, hr, Option.map_some, parseDecimal_format, hvalue]
    exact ⟨rfl, rfl⟩
  · obtain ⟨r, hr, hreduced, hvalue⟩ := canonicalChapterNumber_token hk hkf
    obtain ⟨r', hr', hreduced', hvalue'⟩ := canonicalChapterNumber_token hl hlf
    rw [hr, hr', Option.some.injEq, ← hvalue, ← hvalue']
    constructor
    · intro hformat
      -- the text says which number it is
      have hfinite := (parseDecimal_format r).symm.trans (hformat ▸ parseDecimal_format r')
      exact Dec.finite.inj (Option.some.inj hfinite)
    · intro hsame
      rw [hreduced.eq hreduced' hsame]
  · obtain ⟨form, hform, -, hparse⟩ := canonicalChapterNumber_text hu hv
    rw [chapterSortNumber, hform, Option.map_some, hparse]
    exact ⟨rfl, rfl⟩

end

/-- The tables for ASCII text. -/
def asciiUnicode : UnicodeData where
  digit c := if c.isDigit then some (c.toNat - 48) else none
  lowerChar c := if c = 'Σ' then ['σ'] else [c.toLower]
  cased c := c.isAlpha
  caseIgnorable _ := false

theorem asciiUnicode_digit {c : Char} : asciiUnicode.digit c = none ↔ c.isDigit = false := by
  show (if c.isDigit then some (c.toNat - 48) else none) = none ↔ _
  split <;> simp_all

theorem asciiUnicode_lower {c : Char} (h : c ≠ 'Σ') : asciiUnicode.lowerChar c = [c.toLower] :=
  if_neg h

theorem asciiUnicode_lawful : asciiUnicode.Lawful where
  digit_ascii c _ := rfl
  sigma c hc := by
    rcases List.mem_pair.mp hc with rfl | rfl
    · exact ⟨by decide, by decide⟩
    · exact ⟨by decide, by decide⟩
  lower_ascii c hc := asciiUnicode_lower fun he => by
    rw [he] at hc
    exact absurd hc (by decide)
  lower_space c hc := by
    have hne : c ≠ 'Σ' := fun he => by
      rw [he] at hc
      exact absurd hc (by decide)
    rw [asciiUnicode_lower hne, toLower_of_isSpace hc]
  lower_word c hc := by
    by_cases hs : c = 'Σ'
    · subst hs
      exact ⟨List.cons_ne_nil _ _, fun d hd => List.mem_singleton.mp hd ▸ by decide⟩
    · rw [asciiUnicode_lower hs]
      exact ⟨List.cons_ne_nil _ _, fun d hd => List.mem_singleton.mp hd ▸ isSpace_toLower hc⟩
  lower_digit c hc d hd := by
    by_cases hs : c = 'Σ'
    · subst hs
      exact List.mem_singleton.mp hd ▸ by decide
    · rw [asciiUnicode_lower hs] at hd
      rw [List.mem_singleton.mp hd, asciiUnicode_digit, isDigit_toLower, ← asciiUnicode_digit]
      exact hc
  lower_fixed c d hd := by
    by_cases hs : c = 'Σ'
    · subst hs
      exact List.mem_singleton.mp hd ▸ ⟨by decide, by decide⟩
    · rw [asciiUnicode_lower hs] at hd
      have hne : c.toLower ≠ 'Σ' := fun he => hs ((toLower_eq_iff (by decide)).mp he)
      rw [List.mem_singleton.mp hd, asciiUnicode_lower hne, toLower_toLower]
      exact ⟨rfl, hne⟩
  lower_foreign c hc := by
    by_cases hs : c = 'Σ'
    · subst hs
      exact ⟨'σ', List.mem_singleton_self _, .inl (by decide)⟩
    · rw [asciiUnicode_lower hs]
      refine ⟨_, List.mem_singleton_self _, .inl ?_⟩
      rcases toLower_cases c with h | ⟨-, hhigh, -⟩
      · rwa [h]
      · omega

theorem canonicalChapterNumber_spec_half :
    (canonicalChapterNumber asciiUnicode "Chapter 010.50").isSome ∧
      chapterSortNumber asciiUnicode "Chapter 010.50" =
        some (some (.finite (⟨1050, -2⟩ : Decimal).value)) := by
  have hk : numericToken asciiUnicode "Chapter 010.50" =
      some { whole := [0, 1, 0], frac := [5, 0] } := by decide +kernel
  exact (canonicalChapterNumber_spec asciiUnicode_lawful).2.1 "Chapter 010.50" _ hk
    (Decimal.fits_of_length (by decide) (by decide) (by decide))

example : canonicalChapterNumber asciiUnicode "Chapter 010.50" = some "10.5" := by decide +kernel

example : (canonicalChapterNumber asciiUnicode " Side  Story ",
    chapterSortNumber asciiUnicode "NaN") = (some "side story", some (some .nan)) := by
  decide +kernel

/-! ## Below the context -/

section
variable {u : UnicodeData}

/-- A one, that many zeros after the point. -/
def tinyChapter (zeros : Nat) : String :=
  String.ofList ('0' :: '.' :: (List.replicate zeros '0' ++ ['1']))

theorem numericToken_tiny (hu : u.Lawful) (zeros : Nat) :
    ∃ k, numericToken u (tinyChapter zeros) = some k ∧
      k.decimal = ⟨1, -((zeros + 1 : Nat) : Int)⟩ := by
  have hne : List.replicate zeros '0' ++ ['1'] ≠ [] :=
    List.append_ne_nil_of_right_ne_nil _ (List.cons_ne_nil _ _)
  have hv : (tinyChapter zeros).toList = ['0'] ++
      if List.replicate zeros '0' ++ ['1'] = [] then []
      else '.' :: (List.replicate zeros '0' ++ ['1']) := by
    rw [if_neg hne, tinyChapter, String.toList_ofList]
    rfl
  have hdigit : ∀ ch ∈ ['0'] ++ (List.replicate zeros '0' ++ ['1']), ch.isDigit = true := by
    intro ch hch
    simp only [List.mem_append, List.mem_singleton, List.mem_replicate] at hch
    rcases hch with rfl | ⟨-, rfl⟩ | rfl
    · rfl
    · rfl
    · rfl
  obtain ⟨k, hk, he⟩ := numericToken_numeral hu hv (List.cons_ne_nil _ _) hdigit
  refine ⟨k, hk, he.trans ?_⟩
  have hcoefficient : Nat.ofDigitChars 10 (['0'] ++ (List.replicate zeros '0' ++ ['1'])) 0 = 1 := by
    rw [← List.append_assoc, Nat.ofDigitChars_append, List.singleton_append,
      ← List.replicate_succ, Nat.ofDigitChars_replicate_zero]
    rfl
  rw [hcoefficient, List.length_append, List.length_replicate, List.length_singleton]

/-- It rounds to zero. -/
theorem normalize_tiny :
    (⟨1, -((1000026 + 1 : Nat) : Int)⟩ : Decimal).normalize defaultContext = some ⟨0, 0⟩ := by
  decide +kernel

/-- Two numbers with one significant digit, or none, have one canonical form. -/
theorem tiny_chapters_collide : ¬ ∀ u : UnicodeData, u.Lawful → ∀ v w k l,
    numericToken u v = some k → numericToken u w = some l → k.Significant → l.Significant →
    (canonicalChapterNumber u v = canonicalChapterNumber u w ↔
      k.decimal.value = l.decimal.value) := by
  intro h
  obtain ⟨k, hk, hdec⟩ := numericToken_tiny asciiUnicode_lawful 1000026
  have hl : numericToken asciiUnicode "0" = some { whole := [0], frac := [] } := by decide +kernel
  have hsig : k.Significant := ⟨1, -((1000026 + 1 : Nat) : Int), by norm_num, by rw [hdec]; rfl⟩
  have hzero : (⟨0, 0⟩ : Decimal).value = 0 := Decimal.value_eq_zero.mpr rfl
  have hsame : canonicalChapterNumber asciiUnicode (tinyChapter 1000026) =
      canonicalChapterNumber asciiUnicode "0" := by
    have hcanonical : canonicalChapterNumber asciiUnicode "0" = some (⟨0, 0⟩ : Decimal).format := by
      decide +kernel
    rw [hcanonical, canonicalChapterNumber, hk]
    simp only [hdec, normalize_tiny, Option.map_some]
  have hvalue := (h _ asciiUnicode_lawful _ _ k _ hk hl hsig
    ⟨0, 0, by norm_num, by rfl⟩).mp hsame
  have hk0 : k.decimal.coefficient = 0 :=
    Decimal.value_eq_zero.mp (hvalue.trans hzero)
  rw [hdec] at hk0
  cases hk0

end

end MangaManager
