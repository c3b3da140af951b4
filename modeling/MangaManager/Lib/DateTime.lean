import Mathlib.Algebra.BigOperators.Group.List.Basic
import Mathlib.Algebra.Ring.Nat
import MangaManager.Lib.Text

/-!
# Dates and times as text

A `DateTime` has the fields of a `datetime`, checked where it is built. `isoformat` writes
it and `fromIsoformat` reads the formats `YYYY-MM-DD` and
`YYYY-MM-DDTHH:MM[:SS[.ffffff]][+HH:MM[:SS]]` back (`fromIsoformat_isoformat`); the other formats
of ISO 8601 are not read.
-/

namespace MangaManager.Lib

def isLeap (year : Nat) : Bool := year % 4 == 0 && (year % 100 != 0 || year % 400 == 0)

def daysInMonth (year month : Nat) : Nat :=
  if month = 2 then (if isLeap year then 29 else 28)
  else if month = 4 ∨ month = 6 ∨ month = 9 ∨ month = 11 then 30
  else 31

structure DateTimeFields where
  year : Nat
  month : Nat
  day : Nat
  hour : Nat := 0
  minute : Nat := 0
  second : Nat := 0
  microsecond : Nat := 0
  /-- `utcoffset()`, in seconds. -/
  offset : Option Int := none
  deriving DecidableEq

namespace DateTimeFields

variable (d : DateTimeFields)

/-- What the constructor of `datetime` checks. -/
structure Valid : Prop where
  year : 1 ≤ d.year ∧ d.year ≤ 9999
  month : 1 ≤ d.month ∧ d.month ≤ 12
  day : 1 ≤ d.day ∧ d.day ≤ daysInMonth d.year d.month
  time : d.hour < 24 ∧ d.minute < 60 ∧ d.second < 60 ∧ d.microsecond < 1000000
  offset : d.offset.all (fun o => decide (o.natAbs < 86400)) = true

instance : Decidable d.Valid :=
  decidable_of_iff ((1 ≤ d.year ∧ d.year ≤ 9999) ∧ (1 ≤ d.month ∧ d.month ≤ 12) ∧
      (1 ≤ d.day ∧ d.day ≤ daysInMonth d.year d.month) ∧
      (d.hour < 24 ∧ d.minute < 60 ∧ d.second < 60 ∧ d.microsecond < 1000000) ∧
      d.offset.all (fun o => decide (o.natAbs < 86400)) = true)
    ⟨fun ⟨hy, hm, hd, ht, ho⟩ => ⟨hy, hm, hd, ht, ho⟩,
      fun h => ⟨h.year, h.month, h.day, h.time, h.offset⟩⟩

/-- The days before the date, from 1 January of the year 1. -/
def dayNumber : Nat :=
  let y := d.year - 1
  y * 365 + y / 4 - y / 100 + y / 400 +
    ((List.range (d.month - 1)).map fun m => daysInMonth d.year (m + 1)).sum + (d.day - 1)

/-- Microseconds since 1 January 1970 in UTC; without an offset the time is that of UTC. -/
def instant : Int :=
  ((((d.dayNumber : Int) - 719162) * 86400 + d.hour * 3600 + d.minute * 60 + d.second) -
    d.offset.getD 0) * 1000000 + d.microsecond

end DateTimeFields

structure DateTime extends DateTimeFields where
  valid : toDateTimeFields.Valid
  deriving DecidableEq

/-! ## Numbers of a fixed width -/

/-- The last `width` digits of a number. -/
def fixedDigits : Nat → Nat → List Char
  | 0, _ => []
  | width + 1, n => fixedDigits width (n / 10) ++ [Char.ofNat (48 + n % 10)]

/-- A number of that many digits, and what is behind it. -/
def takeNumber (width : Nat) (cs : List Char) : Option (Nat × List Char) :=
  if (cs.take width).length = width ∧ (cs.take width).all Char.isDigit then
    some (digitsValue (cs.take width), cs.drop width)
  else none

def takeChar (c : Char) : List Char → Option (List Char)
  | [] => none
  | d :: cs => if d = c then some cs else none

theorem fixedDigits_length (width n : Nat) : (fixedDigits width n).length = width := by
  induction width generalizing n with
  | zero => rfl
  | succ width ih => rw [fixedDigits, List.length_append, ih]; rfl

theorem digitChar_toNat : ∀ k < 10, (Char.ofNat (48 + k)).toNat = 48 + k ∧
    (Char.ofNat (48 + k)).isDigit = true := by
  decide

theorem fixedDigits_all (width n : Nat) : (fixedDigits width n).all Char.isDigit = true := by
  induction width generalizing n with
  | zero => rfl
  | succ width ih =>
    rw [fixedDigits, List.all_append, ih, Bool.true_and, List.all_cons, List.all_nil,
      (digitChar_toNat _ (Nat.mod_lt n (by omega))).2, Bool.true_and]

theorem digitsValue_fixedDigits {width n : Nat} (h : n < 10 ^ width) :
    digitsValue (fixedDigits width n) = n := by
  induction width generalizing n with
  | zero =>
    rw [Nat.pow_zero] at h
    rw [Nat.lt_one_iff.mp h]
    rfl
  | succ width ih =>
    have hdiv : n / 10 < 10 ^ width := by
      rw [Nat.pow_succ] at h
      omega
    have hlast := (digitChar_toNat _ (Nat.mod_lt n (by omega))).1
    rw [fixedDigits, digitsValue, List.foldl_append]
    show 10 * digitsValue (fixedDigits width (n / 10)) + ((Char.ofNat (48 + n % 10)).toNat - 48) = n
    rw [ih hdiv, hlast]
    omega

theorem takeNumber_fixedDigits {width n : Nat} (h : n < 10 ^ width) (cs : List Char) :
    takeNumber width (fixedDigits width n ++ cs) = some (n, cs) := by
  have htake : (fixedDigits width n ++ cs).take width = fixedDigits width n :=
    List.take_left' (fixedDigits_length width n)
  have hdrop : (fixedDigits width n ++ cs).drop width = cs :=
    List.drop_left' (fixedDigits_length width n)
  rw [takeNumber, htake, hdrop, if_pos ⟨fixedDigits_length width n, fixedDigits_all width n⟩,
    digitsValue_fixedDigits h]

/-! ## The format -/

namespace DateTimeFields

variable (d : DateTimeFields)

def fractionText : List Char :=
  if d.microsecond = 0 then [] else '.' :: fixedDigits 6 d.microsecond

def offsetText : List Char :=
  match d.offset with
  | none => []
  | some o =>
    let n := o.natAbs
    (if o < 0 then '-' else '+') :: fixedDigits 2 (n / 3600) ++
      ':' :: fixedDigits 2 (n / 60 % 60) ++
      (if n % 60 = 0 then [] else ':' :: fixedDigits 2 (n % 60))

def isoText : List Char :=
  fixedDigits 4 d.year ++ '-' :: (fixedDigits 2 d.month ++ '-' :: (fixedDigits 2 d.day ++
    'T' :: (fixedDigits 2 d.hour ++ ':' :: (fixedDigits 2 d.minute ++
      ':' :: (fixedDigits 2 d.second ++ (d.fractionText ++ d.offsetText))))))

end DateTimeFields

/-- `isoformat()`. -/
def DateTime.isoformat (d : DateTime) : String := String.ofList d.isoText

/-- `[.fff[fff]]`. -/
def takeFraction : List Char → Option (Nat × List Char)
  | '.' :: cs =>
    match takeNumber 6 cs with
    | some r => some r
    | none => (takeNumber 3 cs).map fun r => (1000 * r.1, r.2)
  | cs => some (0, cs)

/-- `[:SS[.fff[fff]]]`. -/
def takeSeconds : List Char → Option (Nat × Nat × List Char)
  | ':' :: cs => do
    let (second, cs) ← takeNumber 2 cs
    let (microsecond, cs) ← takeFraction cs
    pure (second, microsecond, cs)
  | cs => some (0, 0, cs)

/-- `[:SS]` at the end. -/
def lastSeconds : List Char → Option Nat
  | [] => some 0
  | ':' :: cs => do
    let (second, cs) ← takeNumber 2 cs
    if cs = [] then pure second else none
  | _ => none

/-- `[+HH:MM[:SS]]`. -/
def parseOffset : List Char → Option (Option Int)
  | [] => some none
  | sign :: cs =>
    if sign = 'Z' ∧ cs = [] then some (some 0)
    else if sign = '+' ∨ sign = '-' then do
      let (hours, cs) ← takeNumber 2 cs
      let cs ← takeChar ':' cs
      let (minutes, cs) ← takeNumber 2 cs
      let seconds ← lastSeconds cs
      let n : Nat := hours * 3600 + minutes * 60 + seconds
      if 60 ≤ minutes ∨ 60 ≤ seconds then none
      else pure (some (if sign = '-' then -(n : Int) else n))
    else none

/-- The fields of a text, before they are checked. -/
def isoFields (cs : List Char) : Option DateTimeFields := do
  let (year, cs) ← takeNumber 4 cs
  let cs ← takeChar '-' cs
  let (month, cs) ← takeNumber 2 cs
  let cs ← takeChar '-' cs
  let (day, cs) ← takeNumber 2 cs
  match cs with
  | [] => pure { year, month, day }
  | _ :: cs =>
    let (hour, cs) ← takeNumber 2 cs
    let cs ← takeChar ':' cs
    let (minute, cs) ← takeNumber 2 cs
    let (second, microsecond, cs) ← takeSeconds cs
    let offset ← parseOffset cs
    pure { year, month, day, hour, minute, second, microsecond, offset }

/-- `datetime.fromisoformat`; none is a `ValueError`. -/
def fromIsoformat (s : String) : Option DateTime := do
  let fields ← isoFields s.toList
  if h : fields.Valid then pure ⟨fields, h⟩ else none

/-! ## What is written is read back -/

section
variable {d : DateTimeFields}

theorem parseOffset_offsetText (h : d.Valid) : parseOffset d.offsetText = some d.offset := by
  unfold DateTimeFields.offsetText
  cases ho : d.offset with
  | none => rfl
  | some o =>
    have hlt : o.natAbs < 86400 := by
      have := h.offset
      rw [ho] at this
      simpa using this
    have hh : o.natAbs / 3600 < 10 ^ 2 := by omega
    have hm : o.natAbs / 60 % 60 < 10 ^ 2 := by omega
    have hs : o.natAbs % 60 < 10 ^ 2 := by omega
    have hlast : lastSeconds (if o.natAbs % 60 = 0 then [] else
        ':' :: fixedDigits 2 (o.natAbs % 60)) = some (o.natAbs % 60) := by
      split
      · rename_i hz
        rw [hz]
        rfl
      · have htake := takeNumber_fixedDigits hs []
        rw [List.append_nil] at htake
        rw [lastSeconds, htake]
        rfl
    have hsum : o.natAbs / 3600 * 3600 + o.natAbs / 60 % 60 * 60 + o.natAbs % 60 = o.natAbs := by
      omega
    have hfound : takeNumber 2 (fixedDigits 2 (o.natAbs / 3600) ++ ':' ::
        (fixedDigits 2 (o.natAbs / 60 % 60) ++ (if o.natAbs % 60 = 0 then [] else
          ':' :: fixedDigits 2 (o.natAbs % 60)))) = _ := takeNumber_fixedDigits hh _
    have hmin : takeNumber 2 (fixedDigits 2 (o.natAbs / 60 % 60) ++ (if o.natAbs % 60 = 0 then []
        else ':' :: fixedDigits 2 (o.natAbs % 60))) = _ := takeNumber_fixedDigits hm _
    have hsign : (if o < 0 then '-' else '+') ≠ 'Z' := by split <;> decide
    have hsign' : (if o < 0 then '-' else '+') = '+' ∨ (if o < 0 then '-' else '+') = '-' := by
      split <;> simp
    dsimp only
    rw [List.append_assoc, List.cons_append, List.cons_append, parseOffset,
      if_neg fun h => hsign h.1, if_pos hsign']
    simp only [hfound, Option.bind_eq_bind, Option.bind_some, takeChar, if_pos, hmin, hlast, hsum]
    rw [if_neg (by omega)]
    by_cases hneg : o < 0
    · simp only [hneg, if_true]
      congr 2
      omega
    · simp only [hneg, if_false]
      rw [if_neg (by decide)]
      congr 2
      omega

theorem takeFraction_fractionText (h : d.Valid) (cs : List Char)
    (hcs : ∀ c ∈ cs.head?, c ≠ '.') :
    takeFraction (d.fractionText ++ cs) = some (d.microsecond, cs) := by
  unfold DateTimeFields.fractionText
  split
  · rename_i hz
    rw [hz, List.nil_append]
    cases cs with
    | nil => rfl
    | cons c cs =>
      have hc : c ≠ '.' := hcs c rfl
      unfold takeFraction
      split
      · rename_i heq
        cases heq
        exact absurd rfl hc
      · rfl
  · have hlt : d.microsecond < 10 ^ 6 := h.time.2.2.2
    rw [List.cons_append, takeFraction, takeNumber_fixedDigits hlt]

theorem offsetText_head (d : DateTimeFields) : ∀ c ∈ d.offsetText.head?, c ≠ '.' := by
  unfold DateTimeFields.offsetText
  split
  · intro c hc
    cases hc
  · intro c hc
    obtain rfl := Option.some.inj hc
    split <;> decide

/-- The characters of the format. -/
theorem mem_isoText {c : Char} (hc : c ∈ d.isoText) :
    c.isDigit = true ∨ c ∈ ['-', 'T', ':', '.', '+'] := by
  have hdigits : ∀ {width n}, c ∈ fixedDigits width n → c.isDigit = true :=
    fun hc => List.all_eq_true.mp (fixedDigits_all _ _) c hc
  have hfraction : c ∈ d.fractionText → c.isDigit = true ∨ c = '.' := by
    unfold DateTimeFields.fractionText
    split
    · exact fun hc => absurd hc List.not_mem_nil
    · exact fun hc => (List.mem_cons.mp hc).symm.imp hdigits id
  have hoffset : c ∈ d.offsetText → c.isDigit = true ∨ c = '-' ∨ c = '+' ∨ c = ':' := by
    unfold DateTimeFields.offsetText
    split
    · exact fun hc => absurd hc List.not_mem_nil
    · intro hc
      simp only [List.cons_append, List.mem_cons, List.mem_append] at hc
      rcases hc with hc | (hc | hc | hc) | hc
      · split at hc
        · exact .inr (.inl hc)
        · exact .inr (.inr (.inl hc))
      · exact .inl (hdigits hc)
      · exact .inr (.inr (.inr hc))
      · exact .inl (hdigits hc)
      · split at hc
        · cases hc
        · rcases List.mem_cons.mp hc with hc | hc
          · exact .inr (.inr (.inr hc))
          · exact .inl (hdigits hc)
  have hmark : c = '-' ∨ c = 'T' ∨ c = ':' ∨ c = '.' ∨ c = '+' →
      c.isDigit = true ∨ c ∈ ['-', 'T', ':', '.', '+'] := fun h => .inr (by simpa using h)
  simp only [DateTimeFields.isoText, List.mem_append, List.mem_cons] at hc
  rcases hc with hc | hc | hc | hc | hc | hc | hc | hc | hc | hc | hc | hc | hc
  · exact .inl (hdigits hc)
  · exact hmark (.inl hc)
  · exact .inl (hdigits hc)
  · exact hmark (.inl hc)
  · exact .inl (hdigits hc)
  · exact hmark (.inr (.inl hc))
  · exact .inl (hdigits hc)
  · exact hmark (.inr (.inr (.inl hc)))
  · exact .inl (hdigits hc)
  · exact hmark (.inr (.inr (.inl hc)))
  · exact .inl (hdigits hc)
  · exact (hfraction hc).elim .inl fun hc => hmark (by tauto)
  · exact (hoffset hc).elim .inl fun hc => hmark (by tauto)

theorem isoFields_isoText (h : d.Valid) : isoFields d.isoText = some d := by
  have hfraction := takeFraction_fractionText h _ (offsetText_head d)
  have hoffset := parseOffset_offsetText h
  obtain ⟨⟨-, hy⟩, ⟨-, hm⟩, ⟨-, hd⟩, ⟨hh, hmin, hs, -⟩, -⟩ := h
  have hday : daysInMonth d.year d.month ≤ 31 := by
    unfold daysInMonth
    split
    · split <;> omega
    · split <;> omega
  have hy : d.year < 10 ^ 4 := by omega
  have hm : d.month < 10 ^ 2 := by omega
  have hd : d.day < 10 ^ 2 := by omega
  have hh : d.hour < 10 ^ 2 := by omega
  have hmin : d.minute < 10 ^ 2 := by omega
  have hs : d.second < 10 ^ 2 := by omega
  unfold isoFields DateTimeFields.isoText
  simp only [takeNumber_fixedDigits hy, takeNumber_fixedDigits hm, takeNumber_fixedDigits hd,
    takeNumber_fixedDigits hh, takeNumber_fixedDigits hmin, takeNumber_fixedDigits hs,
    takeChar, takeSeconds, if_pos, Option.bind_eq_bind, Option.bind_some,
    hfraction, hoffset, Option.pure_def]

end

/-- What is written is read back. -/
theorem fromIsoformat_isoformat (d : DateTime) : fromIsoformat d.isoformat = some d := by
  rw [fromIsoformat, DateTime.isoformat, String.toList_ofList, isoFields_isoText d.valid,
    Option.bind_eq_bind, Option.bind_some, dif_pos d.valid]
  rfl

end MangaManager.Lib
