import Mathlib.Algebra.Field.Rat
import Mathlib.Algebra.Order.Field.Power
import Mathlib.Data.Rat.Cast.Order

/-!
# Decimal floating-point numbers

A finite `decimal.Decimal` that is not negative, in a context of `prec` digits whose adjusted
exponents go from `emin` to `emax`: `fix` rounds half-even to the context, `normalize` strips
the zeros at the end, and `format` writes a number without an exponent.

`normalize_spec`: a number that the context can hold normalizes to the reduced number of its
value, of which there is one (`Reduced.eq`). `format` writes digits that have the value
(`parts_spec`).
-/

namespace MangaManager.Lib

/-- `coefficient * 10 ^ exponent`. -/
structure Decimal where
  coefficient : Nat
  exponent : Int
  deriving DecidableEq, Repr

/-- Subnormal numbers go down to `10 ^ etiny`. -/
structure DecimalContext where
  prec : Nat
  emin : Int
  emax : Int
  prec_pos : 0 < prec
  emin_le : emin ≤ emax

namespace DecimalContext

variable (c : DecimalContext)

def etiny : Int := c.emin - c.prec + 1

def etop : Int := c.emax - c.prec + 1

theorem etiny_le_etop : c.etiny ≤ c.etop := by
  have h := c.emin_le
  unfold etiny etop
  omega

end DecimalContext

namespace Decimal

variable (c : DecimalContext) (d : Decimal)

def value : Rat := d.coefficient * (10 : Rat) ^ d.exponent

/-- The digits of the coefficient. -/
def digits : List Char := Nat.toDigits 10 d.coefficient

/-- Half-even division by a power of ten. -/
def divHalfEven (n k : Nat) : Nat :=
  let unit := Nat.pow 10 k
  let q := n / unit
  let r := n % unit
  if 2 * r > unit ∨ (2 * r = unit ∧ q % 2 = 1) then q + 1 else q

/-- `_fix`; none, when it raises `Overflow`. -/
def fix : Option Decimal :=
  if d.coefficient = 0 then some ⟨0, min (max d.exponent c.etiny) c.emax⟩
  else
    let expMin := d.digits.length + d.exponent - c.prec
    if c.etop < expMin then none
    else
      let expMin := max expMin c.etiny
      if d.exponent < expMin then
        let m := divHalfEven d.coefficient (expMin - d.exponent).toNat
        let rounded : Decimal :=
          if c.prec < (Nat.toDigits 10 m).length then ⟨m / 10, expMin + 1⟩ else ⟨m, expMin⟩
        if c.etop < rounded.exponent then none else some rounded
      else some d

/-- A zero at the end goes. -/
def dropZero (emax : Int) (d : Decimal) : Decimal :=
  if d.coefficient % 10 = 0 ∧ d.exponent < emax then ⟨d.coefficient / 10, d.exponent + 1⟩ else d

/-- `normalize`. -/
def normalize : Option Decimal :=
  (d.fix c).map fun d =>
    if d.coefficient = 0 then ⟨0, 0⟩ else (dropZero c.emax)^[d.digits.length] d

/-- The digits before the point and those after it. -/
def parts : List Char × List Char :=
  let dot := d.exponent + d.digits.length
  if dot < 0 then ([], List.replicate (-dot).toNat '0' ++ d.digits)
  else
    (d.digits.take dot.toNat ++ List.replicate (dot.toNat - d.digits.length) '0',
      d.digits.drop dot.toNat)

/-- `format(d, "f")`. -/
def format : String :=
  let d := if d.coefficient = 0 ∧ 0 < d.exponent then ⟨0, 0⟩ else d
  String.ofList ((if d.parts.1 = [] then ['0'] else d.parts.1) ++
    if d.parts.2 = [] then [] else '.' :: d.parts.2)

/-- No zero is at the end. -/
def Reduced : Prop := d.coefficient % 10 ≠ 0 ∨ d = ⟨0, 0⟩

/-- The context holds the value: it has `prec` digits from `etiny` up. -/
structure Fits : Prop where
  significant : ∃ (m : Nat) (e : Int), m < 10 ^ c.prec ∧ c.etiny ≤ e ∧
    d.value = m * (10 : Rat) ^ e
  bounded : d.value < (10 : Rat) ^ (c.emax + 1)

/-! ## Values -/

section
variable {c : DecimalContext} {a b d : Decimal} {m n k : Nat} {e : Int}

theorem ten_zpow_pos (e : Int) : 0 < (10 : Rat) ^ e := zpow_pos (by norm_num) e

/-- One number with two exponents. -/
theorem coefficient_eq (h : (m : Rat) * (10 : Rat) ^ (e + (k : Int)) = n * (10 : Rat) ^ e) :
    n = m * 10 ^ k := by
  rw [zpow_add₀ (by norm_num), mul_comm ((10 : Rat) ^ e), ← mul_assoc, zpow_natCast] at h
  have hmul := mul_right_cancel₀ (ten_zpow_pos e).ne' h
  exact_mod_cast hmul.symm

/-- Zeros at the end. -/
theorem value_scale (m k : Nat) (e : Int) :
    (⟨m * 10 ^ k, e - k⟩ : Decimal).value = (⟨m, e⟩ : Decimal).value := by
  have he : (10 : Rat) ^ e = (10 : Rat) ^ (e - k) * (10 : Rat) ^ k := by
    rw [← zpow_natCast, ← zpow_add₀ (by norm_num), Int.sub_add_cancel]
  simp only [value]
  rw [he]
  push_cast
  rw [mul_assoc, mul_comm ((10 : Rat) ^ k)]

theorem value_eq_zero : d.value = 0 ↔ d.coefficient = 0 := by
  rw [value, mul_eq_zero, Nat.cast_eq_zero]
  exact or_iff_left (ten_zpow_pos _).ne'

/-- A reduced number has the greatest exponent of its value. -/
theorem Reduced.le (ha : a.Reduced) (hne : a.coefficient ≠ 0)
    (h : a.value = m * (10 : Rat) ^ e) : e ≤ a.exponent := by
  by_contra hlt
  obtain ⟨k, hk⟩ : ∃ k : Nat, e = a.exponent + (k + 1 : Nat) :=
    ⟨(e - a.exponent - 1).toNat, by omega⟩
  have hmul : a.coefficient = m * 10 ^ (k + 1) := coefficient_eq (hk ▸ h.symm)
  rcases ha with ha | ha
  · exact ha (by rw [hmul, pow_succ, ← mul_assoc, Nat.mul_mod_left])
  · exact hne (by rw [ha])

/-- A value has one reduced number. -/
theorem Reduced.eq (ha : a.Reduced) (hb : b.Reduced) (h : a.value = b.value) : a = b := by
  by_cases hne : a.coefficient = 0
  · have hbne : b.coefficient = 0 := value_eq_zero.mp (h ▸ value_eq_zero.mpr hne)
    have hzero : ∀ {d : Decimal}, d.Reduced → d.coefficient = 0 → d = ⟨0, 0⟩ := fun hd hd' =>
      hd.resolve_left fun hmod => hmod (by rw [hd'])
    rw [hzero ha hne, hzero hb hbne]
  · have hbne : b.coefficient ≠ 0 := fun hb' => hne (value_eq_zero.mp (h ▸ value_eq_zero.mpr hb'))
    have hexp : a.exponent = b.exponent := le_antisymm (hb.le hbne h.symm) (ha.le hne h)
    obtain ⟨m, e⟩ := a
    obtain ⟨n, e'⟩ := b
    obtain rfl : e = e' := hexp
    have hmul := mul_right_cancel₀ (ten_zpow_pos e).ne' h
    obtain rfl : m = n := by exact_mod_cast hmul
    rfl

/-- A number is a reduced one with zeros at the end. -/
theorem exists_reduced (hne : d.coefficient ≠ 0) : ∃ (r : Decimal) (j : Nat), r.Reduced ∧
    r.coefficient ≠ 0 ∧ d = ⟨r.coefficient * 10 ^ j, r.exponent - j⟩ := by
  obtain ⟨n, e⟩ := d
  induction n using Nat.strongRecOn generalizing e with
  | ind n ih =>
    have hne : n ≠ 0 := hne
    by_cases hmod : n % 10 = 0
    · obtain ⟨r, j, hr, hrne, hform⟩ := ih (n / 10) (by omega) (e + 1) (by show n / 10 ≠ 0; omega)
      obtain ⟨hcoefficient, hexponent⟩ := Decimal.mk.injEq .. ▸ hform
      refine ⟨r, j + 1, hr, hrne, ?_⟩
      rw [Decimal.mk.injEq, pow_succ, ← mul_assoc, ← hcoefficient]
      exact ⟨by omega, by omega⟩
    · refine ⟨⟨n, e⟩, 0, .inl hmod, hne, ?_⟩
      rw [Decimal.mk.injEq]
      exact ⟨(mul_one n).symm, (sub_zero e).symm⟩

/-! ## Digits -/

theorem length_digits_le (hk : 0 < k) : d.digits.length ≤ k ↔ d.coefficient < 10 ^ k :=
  Nat.length_toDigits_le_iff (by norm_num) hk

theorem length_digits_pos : 0 < d.digits.length := Nat.length_toDigits_pos

/-- The digits say how large the number is. -/
theorem length_digits_add_le (hne : d.coefficient ≠ 0) :
    d.digits.length + d.exponent ≤ e ↔ d.value < (10 : Rat) ^ e := by
  by_cases hlt : e ≤ d.exponent
  · refine iff_of_false (fun h => ?_) fun h => ?_
    · have hpos := length_digits_pos (d := d)
      omega
    · have hone : (1 : Rat) ≤ d.coefficient := by exact_mod_cast Nat.one_le_iff_ne_zero.mpr hne
      have hle : (10 : Rat) ^ e ≤ (10 : Rat) ^ d.exponent := zpow_le_zpow_right₀ (by norm_num) hlt
      have hmul : (10 : Rat) ^ d.exponent ≤ d.value :=
        le_mul_of_one_le_left (ten_zpow_pos _).le hone
      exact absurd h (not_lt.mpr (hle.trans hmul))
  · obtain ⟨k, rfl⟩ : ∃ k : Nat, e = d.exponent + (k + 1 : Nat) :=
      ⟨(e - d.exponent - 1).toNat, by omega⟩
    have hlen := length_digits_le (d := d) (k := k + 1) (Nat.succ_pos k)
    rw [value, zpow_add₀ (by norm_num), mul_comm ((10 : Rat) ^ d.exponent), zpow_natCast,
      mul_lt_mul_iff_left₀ (ten_zpow_pos _)]
    have hcast : (d.coefficient : Rat) < (10 : Rat) ^ (k + 1) ↔ d.coefficient < 10 ^ (k + 1) := by
      exact_mod_cast Iff.rfl
    rw [hcast, ← hlen]
    omega

theorem fits_of_length (hdigits : d.digits.length ≤ c.prec) (htiny : c.etiny ≤ d.exponent)
    (hlen : d.digits.length + d.exponent ≤ c.emax + 1) : d.Fits c := by
  refine ⟨⟨d.coefficient, d.exponent, (length_digits_le c.prec_pos).mp hdigits, htiny, rfl⟩, ?_⟩
  by_cases hne : d.coefficient = 0
  · rw [value_eq_zero.mpr hne]
    exact ten_zpow_pos _
  · exact (length_digits_add_le hne).mp hlen

/-! ## Rounding to the context -/

theorem divHalfEven_mul (m k : Nat) : divHalfEven (m * 10 ^ k) k = m := by
  have hpos : 0 < Nat.pow 10 k := Nat.pow_pos (by norm_num)
  have hq : m * 10 ^ k / Nat.pow 10 k = m := Nat.mul_div_cancel m hpos
  have hr : m * 10 ^ k % Nat.pow 10 k = 0 := Nat.mul_mod_left m _
  unfold divHalfEven
  simp only [hq, hr]
  exact if_neg (by omega)

theorem divHalfEven_le (h : m < 10 ^ (n + k)) : divHalfEven m k ≤ 10 ^ n := by
  have hq : m / Nat.pow 10 k < 10 ^ n := Nat.div_lt_of_lt_mul <| by
    rwa [Nat.pow_eq, ← pow_add, Nat.add_comm k n]
  unfold divHalfEven
  simp only
  split <;> omega

/-- What `_fix` gives is a number of the context. -/
theorem fix_fits (h : d.fix c = some a) : a.Fits c := by
  have hprec := c.prec_pos
  have hetop := c.etiny_le_etop
  have htop : c.etop + c.prec = c.emax + 1 := by
    unfold DecimalContext.etop
    omega
  have hpos := length_digits_pos (d := d)
  unfold fix at h
  split at h
  · rw [← Option.some.inj h]
    refine ⟨⟨0, c.etiny, Nat.pow_pos (by norm_num), le_rfl, ?_⟩, ?_⟩
    · rw [value_eq_zero.mpr rfl, Nat.cast_zero, zero_mul]
    · rw [value_eq_zero.mpr rfl]
      exact ten_zpow_pos _
  · simp only at h
    split at h
    · cases h
    · set expMin := max (d.digits.length + d.exponent - c.prec) c.etiny with hmin
      split at h
      · -- the digits that are too many are rounded away
        have hlength := (length_digits_le (d := d) (k := c.prec + (expMin - d.exponent).toNat)
          (by omega)).mp (by omega)
        have hle := divHalfEven_le hlength
        set n := divHalfEven d.coefficient (expMin - d.exponent).toNat with hn
        by_cases hmany : c.prec < (Nat.toDigits 10 n).length
        · -- a carry gives one digit more
          rw [if_pos hmany] at h
          split at h
          · cases h
          · rename_i hexp
            have hexp : ¬ c.etop < expMin + 1 := hexp
            have hten : n / 10 < 10 ^ c.prec := by
              have hp : 0 < 10 ^ c.prec := Nat.pow_pos (by norm_num)
              omega
            have hdigits := (length_digits_le (d := ⟨n / 10, expMin + 1⟩) hprec).mpr hten
            rw [← Option.some.inj h]
            exact fits_of_length hdigits (by show _ ≤ expMin + 1; omega)
              (by show _ + (expMin + 1) ≤ _; omega)
        · rw [if_neg hmany] at h
          split at h
          · cases h
          · rename_i hexp
            have hexp : ¬ c.etop < expMin := hexp
            have hdigits : (⟨n, expMin⟩ : Decimal).digits.length ≤ c.prec := not_lt.mp hmany
            rw [← Option.some.inj h]
            exact fits_of_length hdigits (by show _ ≤ expMin; omega)
              (by show _ + expMin ≤ _; omega)
      · rw [← Option.some.inj h]
        exact fits_of_length (by omega) (by omega) (by omega)

/-- What the context holds is one of its numbers, but for zeros at the end. -/
theorem Fits.exists_reduced (h : d.Fits c) (hne : d.coefficient ≠ 0) :
    ∃ (r : Decimal) (j : Nat), r.Reduced ∧ r.coefficient ≠ 0 ∧
      d = ⟨r.coefficient * 10 ^ j, r.exponent - j⟩ ∧ r.coefficient < 10 ^ c.prec ∧
      c.etiny ≤ r.exponent ∧ d.digits.length + d.exponent ≤ c.emax + 1 := by
  obtain ⟨r, j, hr, hrne, hform⟩ := Decimal.exists_reduced hne
  have hvalue : r.value = d.value := by rw [hform, value_scale]
  obtain ⟨⟨m, e, hm, he, hme⟩, hbounded⟩ := h
  have hle : e ≤ r.exponent := hr.le hrne (hvalue.trans hme)
  obtain ⟨k, hk⟩ : ∃ k : Nat, r.exponent = e + k := ⟨(r.exponent - e).toNat, by omega⟩
  have hscaled : (r.coefficient : Rat) * (10 : Rat) ^ (e + (k : Int)) = m * (10 : Rat) ^ e := by
    rw [← hk]
    exact hvalue.trans hme
  have hmul : m = r.coefficient * 10 ^ k := coefficient_eq hscaled
  refine ⟨r, j, hr, hrne, hform, ?_, he.trans hle, (length_digits_add_le hne).mpr hbounded⟩
  exact (hmul ▸ Nat.le_mul_of_pos_right _ (Nat.pow_pos (by norm_num))).trans_lt hm

/-- `_fix` drops zeros at the end only. -/
theorem Fits.fix_eq (h : d.Fits c) (hne : d.coefficient ≠ 0) :
    ∃ a, d.fix c = some a ∧ a.coefficient ≠ 0 ∧ a.value = d.value := by
  obtain ⟨r, j, -, hrne, hform, hsmall, htiny, hlen⟩ := h.exists_reduced hne
  have hcoefficient : d.coefficient = r.coefficient * 10 ^ j := by rw [hform]
  have hexponent : d.exponent = r.exponent - j := by rw [hform]
  have hprec := c.prec_pos
  have hetop := c.etiny_le_etop
  have hpos := length_digits_pos (d := d)
  -- the zeros at the end are among the digits that are too many
  have hdigits : d.digits.length ≤ c.prec + j := by
    rw [length_digits_le (by omega), hcoefficient, pow_add]
    exact Nat.mul_lt_mul_of_pos_right hsmall (Nat.pow_pos (by norm_num))
  have hover : ¬ c.etop < d.digits.length + d.exponent - c.prec := by
    unfold DecimalContext.etop
    omega
  unfold fix
  rw [if_neg hne, if_neg hover]
  set expMin := max (d.digits.length + d.exponent - c.prec) c.etiny with hmin
  by_cases hlt : d.exponent < expMin
  · obtain ⟨k, hk⟩ : ∃ k : Nat, expMin = d.exponent + k := ⟨(expMin - d.exponent).toNat, by omega⟩
    have hkj : k ≤ j := by omega
    have hround : divHalfEven d.coefficient (expMin - d.exponent).toNat =
        r.coefficient * 10 ^ (j - k) := by
      have hkn : (expMin - d.exponent).toNat = k := by omega
      have hsplit : d.coefficient = r.coefficient * 10 ^ (j - k) * 10 ^ k := by
        rw [hcoefficient, mul_assoc, ← pow_add, Nat.sub_add_cancel hkj]
      rw [hkn, hsplit, divHalfEven_mul]
    -- what is left has no more digits than the context
    have hfew : ¬ c.prec < (Nat.toDigits 10 (r.coefficient * 10 ^ (j - k))).length := by
      rw [not_lt, Nat.length_toDigits_le_iff (by norm_num) hprec]
      have hd : d.coefficient < 10 ^ (c.prec + k) :=
        (length_digits_le (by omega)).mp (by omega)
      rw [hcoefficient, pow_add] at hd
      refine Nat.lt_of_mul_lt_mul_right (a := 10 ^ k) ?_
      rwa [mul_assoc, ← pow_add, Nat.sub_add_cancel hkj]
    have hfits : ¬ c.etop < expMin := by omega
    refine ⟨⟨r.coefficient * 10 ^ (j - k), expMin⟩, ?_, ?_, ?_⟩
    · simp only [if_pos hlt, hround, if_neg hfew, if_neg hfits]
    · exact Nat.mul_ne_zero hrne (Nat.pow_pos (by norm_num)).ne'
    · have hexp : expMin = r.exponent - (j - k : Nat) := by omega
      rw [hexp, value_scale, hform, value_scale]
  · exact ⟨d, if_neg hlt, hne, rfl⟩

theorem iterate_dropZero {emax : Int} {r : Decimal} (hr : r.Reduced) (hne : r.coefficient ≠ 0)
    (hmax : r.exponent ≤ emax) (i n : Nat) (hin : i ≤ n) :
    (dropZero emax)^[n] ⟨r.coefficient * 10 ^ i, r.exponent - i⟩ = r := by
  have hmod : r.coefficient % 10 ≠ 0 := hr.resolve_right fun h => hne (by rw [h])
  induction i generalizing n with
  | zero =>
    have hself : (⟨r.coefficient * 10 ^ 0, r.exponent - (0 : Nat)⟩ : Decimal) = r := by
      rw [pow_zero, mul_one, Int.natCast_zero, sub_zero]
    have hfixed : dropZero emax r = r := if_neg fun h => hmod h.1
    rw [hself, Function.iterate_fixed hfixed]
  | succ i ih =>
    obtain ⟨n, rfl⟩ : ∃ n', n = n' + 1 := ⟨n - 1, by omega⟩
    have hdrop : dropZero emax ⟨r.coefficient * 10 ^ (i + 1), r.exponent - (i + 1 : Nat)⟩ =
        ⟨r.coefficient * 10 ^ i, r.exponent - i⟩ := by
      have hten : r.coefficient * 10 ^ (i + 1) = r.coefficient * 10 ^ i * 10 := by
        rw [pow_succ, mul_assoc]
      unfold dropZero
      rw [if_pos ⟨by simp only [hten]; omega, by show _ - _ < _; omega⟩, Decimal.mk.injEq]
      exact ⟨by simp only [hten]; omega, by show _ - _ + _ = _; omega⟩
    rw [Function.iterate_succ_apply, hdrop]
    exact ih n (by omega)

/-- Without its zeros at the end, a number of the context is reduced. -/
theorem Fits.strip (h : d.Fits c) (hne : d.coefficient ≠ 0) :
    ((dropZero c.emax)^[d.digits.length] d).Reduced ∧
      ((dropZero c.emax)^[d.digits.length] d).value = d.value := by
  obtain ⟨r, j, hr, hrne, hform, -⟩ := h.exists_reduced hne
  have hvalue : r.value = d.value := by rw [hform, value_scale]
  have hmax : r.exponent ≤ c.emax := by
    have hbound := (length_digits_add_le hrne).mpr (hvalue ▸ h.bounded)
    have hpos := length_digits_pos (d := r)
    omega
  have hlen : j ≤ d.digits.length := by
    by_contra hlen
    have hlt := (length_digits_le (d := d) (k := j) (by omega)).mp (by omega)
    rw [hform] at hlt
    exact absurd hlt (not_lt.mpr (Nat.le_mul_of_pos_left _ (Nat.pos_of_ne_zero hrne)))
  have hstrip : (dropZero c.emax)^[d.digits.length] d = r := by
    generalize d.digits.length = n at hlen
    rw [hform]
    exact iterate_dropZero hr hrne hmax j n hlen
  rw [hstrip]
  exact ⟨hr, hvalue⟩

/-- `normalize` gives a reduced number of the context. -/
theorem normalize_reduced (h : d.normalize c = some a) : a.Reduced ∧ a.Fits c := by
  rw [normalize, Option.map_eq_some_iff] at h
  obtain ⟨b, hb, rfl⟩ := h
  have hfits := fix_fits hb
  split
  · rename_i hzero
    have hvalue : (⟨0, 0⟩ : Decimal).value = b.value := by
      rw [value_eq_zero.mpr rfl, value_eq_zero.mpr hzero]
    exact ⟨.inr rfl, hvalue ▸ hfits.significant, hvalue ▸ hfits.bounded⟩
  · rename_i hne
    obtain ⟨hr, hvalue⟩ := hfits.strip hne
    exact ⟨hr, hvalue ▸ hfits.significant, hvalue ▸ hfits.bounded⟩

/-- `normalize` gives the reduced number of a value that the context holds. -/
theorem normalize_spec (h : d.Fits c) :
    ∃ r, d.normalize c = some r ∧ r.Reduced ∧ r.value = d.value := by
  by_cases hne : d.coefficient = 0
  · refine ⟨⟨0, 0⟩, ?_, .inr rfl, ?_⟩
    · rw [normalize, fix, if_pos hne]
      rfl
    · rw [value_eq_zero.mpr hne, value_eq_zero.mpr rfl]
  · obtain ⟨b, hb, hbne, hvalue⟩ := h.fix_eq hne
    obtain ⟨hr, hstrip⟩ := (fix_fits hb).strip hbne
    refine ⟨(dropZero c.emax)^[b.digits.length] b, ?_, hr, hstrip.trans hvalue⟩
    rw [normalize, hb, Option.map_some, if_neg hbne]

/-! ## Formatting -/

theorem isDigit_parts {ch : Char} (h : ch ∈ d.parts.1 ++ d.parts.2) : ch.isDigit = true := by
  have hdigits : ∀ x ∈ d.digits, x.isDigit = true := fun x hx =>
    Nat.isDigit_of_mem_toDigits (by norm_num) (by norm_num) hx
  have hzeros : ∀ n, ∀ x ∈ List.replicate n '0', x.isDigit = true := fun n x hx => by
    rw [List.eq_of_mem_replicate hx]
    rfl
  unfold parts at h
  simp only at h
  split at h
  · rcases List.mem_append.mp h with h | h
    · cases h
    · exact (List.mem_append.mp h).elim (hzeros _ ch) (hdigits ch)
  · rcases List.mem_append.mp h with h | h
    · rcases List.mem_append.mp h with h | h
      · exact hdigits ch (List.mem_of_mem_take h)
      · exact hzeros _ ch h
    · exact hdigits ch (List.mem_of_mem_drop h)

/-- The digits of the two parts have the value of the number. -/
theorem parts_spec (d : Decimal) :
    (⟨Nat.ofDigitChars 10 (d.parts.1 ++ d.parts.2) 0, -(d.parts.2.length : Int)⟩ : Decimal).value =
      d.value := by
  have hall : Nat.ofDigitChars 10 d.digits 0 = d.coefficient := Nat.ofDigitChars_ten_toDigits
  have hpos := length_digits_pos (d := d)
  unfold parts
  simp only
  split
  · -- zeros after the point
    rename_i hdot
    have hlen : (List.replicate (-(d.exponent + d.digits.length)).toNat '0' ++ d.digits).length =
        (-d.exponent).toNat := by
      rw [List.length_append, List.length_replicate]
      omega
    rw [hlen, List.nil_append, Nat.ofDigitChars_append, Nat.ofDigitChars_replicate_zero,
      Nat.mul_zero, hall]
    have hexp : -((-d.exponent).toNat : Int) = d.exponent := by omega
    rw [hexp]
  · rename_i hdot
    by_cases hin : d.exponent ≤ 0
    · -- the point is among the digits
      have hrep : (d.exponent + d.digits.length).toNat - d.digits.length = 0 := by omega
      have hlen : (d.digits.drop (d.exponent + d.digits.length).toNat).length =
          (-d.exponent).toNat := by
        rw [List.length_drop]
        omega
      rw [hlen, hrep, List.replicate_zero, List.append_nil, List.take_append_drop, hall]
      have hexp : -((-d.exponent).toNat : Int) = d.exponent := by omega
      rw [hexp]
    · -- zeros before the point
      obtain ⟨k, hk⟩ : ∃ k : Nat, d.exponent = k := ⟨d.exponent.toNat, by omega⟩
      have hrep : (d.exponent + d.digits.length).toNat - d.digits.length = k := by omega
      have htake : d.digits.take (d.exponent + d.digits.length).toNat = d.digits :=
        List.take_of_length_le (by omega)
      have hdrop : d.digits.drop (d.exponent + d.digits.length).toNat = [] :=
        List.drop_of_length_le (by omega)
      rw [hrep, htake, hdrop, List.append_nil, Nat.ofDigitChars_append,
        Nat.ofDigitChars_replicate_zero, hall, mul_comm]
      have hscale := value_scale d.coefficient k d.exponent
      have hexp : -(([] : List Char).length : Int) = d.exponent - k := by
        rw [List.length_nil]
        omega
      rw [hexp, hscale]

/-- The text of a number: digits, and perhaps a point with digits after it. -/
theorem format_spec (d : Decimal) : ∃ whole frac : List Char,
    d.format.toList = whole ++ (if frac = [] then [] else '.' :: frac) ∧ whole ≠ [] ∧
      (∀ ch ∈ whole ++ frac, ch.isDigit = true) ∧
      (⟨Nat.ofDigitChars 10 (whole ++ frac) 0, -(frac.length : Int)⟩ : Decimal).value =
        d.value := by
  set e := if d.coefficient = 0 ∧ 0 < d.exponent then ⟨0, 0⟩ else d with he
  have hvalue : e.value = d.value := by
    rw [he]
    split
    · rename_i hzero
      rw [value_eq_zero.mpr hzero.1, value_eq_zero.mpr rfl]
    · rfl
  have hdigit : ∀ ch ∈ e.parts.1 ++ e.parts.2, ch.isDigit = true := fun ch => isDigit_parts
  refine ⟨if e.parts.1 = [] then ['0'] else e.parts.1, e.parts.2, ?_, ?_, ?_, ?_⟩
  · rw [format, ← he, String.toList_ofList]
  · split
    · exact List.cons_ne_nil _ _
    · rename_i hne
      exact hne
  · split
    · intro ch hch
      rcases List.mem_cons.mp hch with rfl | hch
      · rfl
      · exact hdigit ch (List.mem_append_right _ hch)
    · exact hdigit
  · rw [← hvalue, ← parts_spec e]
    split
    · rename_i hnil
      rw [hnil]
      rfl
    · rfl

end

end Decimal

end MangaManager.Lib
