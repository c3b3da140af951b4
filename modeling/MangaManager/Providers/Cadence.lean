import MangaManager.Providers.Cooldown

/-!
# The cadence of polls

`update_poll_cadence` shortens the interval between the polls of a provider after a poll
that found something and lengthens it after one that did not or that failed;
`effective_poll_interval` is what the scheduler waits. Factors are exact fractions.

`cadence_in_range`: from the base interval on, the interval stays between half of it and
four times it, and moves in the direction of the outcome.
-/

namespace MangaManager

open Lib

/-- `round(n / d)`: to the nearest integer, and to the even one of two. -/
def roundHalfEven (n d : Int) : Int :=
  if d < 2 * (n % d) ∨ (2 * (n % d) = d ∧ n / d % 2 = 1) then n / d + 1 else n / d

theorem le_roundHalfEven {n d m : Int} (hd : 0 < d) (h : m * d ≤ n) : m ≤ roundHalfEven n d := by
  have hq : m ≤ n / d := (Int.le_ediv_iff_mul_le hd).mpr h
  unfold roundHalfEven
  split <;> omega

theorem roundHalfEven_le {n d m : Int} (hd : 0 < d) (h : n ≤ m * d) : roundHalfEven n d ≤ m := by
  have hq : n / d ≤ m := Int.ediv_le_of_le_mul hd h
  unfold roundHalfEven
  split
  · -- a remainder is left, so the quotient is below the bound
    rename_i hr
    have hr : n % d ≠ 0 := by omega
    have hlt : n / d ≠ m := by
      rintro rfl
      have hdiv := Int.mul_ediv_add_emod n d
      rw [Int.mul_comm] at h
      have hnn := Int.emod_nonneg n hd.ne'
      omega
    omega
  · exact hq

example : (roundHalfEven 5 2, roundHalfEven 7 2, roundHalfEven 11 4) = (2, 4, 3) := by decide

/-- `update_poll_cadence`. -/
def updatePollCadence (successful changed : Bool) (c : PollCadence) : PollCadence :=
  let base := c.basePollSeconds
  let current := if c.adaptivePollSeconds = 0 then base else c.adaptivePollSeconds
  if base ≤ 0 then c
  else
    let streak := if successful && !changed then c.unchangedPollStreak + 1 else 0
    let next :=
      if successful = false then min (base * 4) (roundHalfEven (max current base * 3) 2)
      else if changed then max (base / 2) (roundHalfEven (current * 3) 4)
      -- `1.1 + min(streak, 5) * 0.02`, over fifty
      else min (base * 4) (roundHalfEven (current * (55 + min (streak : Int) 5)) 50)
    { c with
      adaptivePollSeconds := max 60 next, unchangedPollStreak := streak
      lastPollHadChanges := changed }

/-- `effective_poll_interval`; `int` truncates. -/
def effectivePollInterval (policy : Option ProviderPolicyRow) (fallback : Time) : Time :=
  let fallbackSeconds := max (Int.tdiv fallback second) 60
  match policy with
  | none => fallback
  | some policy =>
    let adaptive := policy.cadence.adaptivePollSeconds
    let seconds := if adaptive = 0 then fallbackSeconds else adaptive
    second * max 60 (min seconds (fallbackSeconds * 4))

/-- The outcome of a poll. -/
structure PollOutcome where
  successful : Bool
  changed : Bool
  deriving DecidableEq

def PollStep (c : PollCadence) (o : PollOutcome) (c' : PollCadence) : Prop :=
  c' = updatePollCadence o.successful o.changed c

/-- The interval is in the range of its base. -/
structure PollCadence.InRange (c : PollCadence) : Prop where
  base : 60 ≤ c.basePollSeconds
  lower : max 60 (c.basePollSeconds / 2) ≤ c.adaptivePollSeconds
  upper : c.adaptivePollSeconds ≤ 4 * c.basePollSeconds

/-- A poll that found something does not lengthen the interval, another one does not shorten it. -/
def PollCadence.MovesBy (c : PollCadence) (o : PollOutcome) (c' : PollCadence) : Prop :=
  if o.successful && o.changed then c'.adaptivePollSeconds ≤ c.adaptivePollSeconds
  else c.adaptivePollSeconds ≤ c'.adaptivePollSeconds

section
variable {c c' start : PollCadence} {o : PollOutcome}

theorem PollStep.spec (h : PollStep c o c') (hc : c.InRange) :
    c'.basePollSeconds = c.basePollSeconds ∧ c'.InRange ∧ c.MovesBy o c' := by
  obtain ⟨hbase, hlower, hupper⟩ := hc
  obtain ⟨successful, changed⟩ := o
  obtain rfl := h
  have hcurrent : c.adaptivePollSeconds ≠ 0 := by omega
  have hpos : ¬ c.basePollSeconds ≤ 0 := by omega
  have hbase' : (updatePollCadence successful changed c).basePollSeconds = c.basePollSeconds := by
    simp only [updatePollCadence, hpos, if_false]
  have hnext : max 60 (c.basePollSeconds / 2) ≤
        (updatePollCadence successful changed c).adaptivePollSeconds ∧
      (updatePollCadence successful changed c).adaptivePollSeconds ≤ 4 * c.basePollSeconds ∧
      c.MovesBy ⟨successful, changed⟩ (updatePollCadence successful changed c) := by
    simp only [updatePollCadence, hcurrent, hpos, if_false, PollCadence.MovesBy]
    cases successful with
    | false =>
      have hgrow := le_roundHalfEven (n := max c.adaptivePollSeconds c.basePollSeconds * 3)
        (m := max c.adaptivePollSeconds c.basePollSeconds) (d := 2) (by decide) (by omega)
      simp only [if_true, Bool.false_and, Bool.false_eq_true, if_false]
      omega
    | true =>
      cases changed with
      | true =>
        have hshrink := roundHalfEven_le (n := c.adaptivePollSeconds * 3)
          (m := c.adaptivePollSeconds) (d := 4) (by decide) (by omega)
        simp only [Bool.true_eq_false, if_false, if_true, Bool.and_self]
        omega
      | false =>
        have hgrow := le_roundHalfEven (d := 50) (m := c.adaptivePollSeconds)
          (n := c.adaptivePollSeconds * (55 + min ((c.unchangedPollStreak + 1 : Nat) : Int) 5))
          (by decide) (Int.mul_le_mul_of_nonneg_left (by omega) (by omega))
        simp only [Bool.true_eq_false, if_false, Bool.false_eq_true, Bool.and_false, Bool.not_false,
          Bool.and_true, if_true]
        omega
  exact ⟨hbase', ⟨hbase' ▸ hbase, hbase' ▸ hnext.1, hbase' ▸ hnext.2.1⟩, hnext.2.2⟩

/-- Whole seconds, a minute at least. -/
theorem wholeSeconds_le (f : Int) :
    1000000 * max (Int.tdiv f 1000000) 60 ≤ max f (60 * 1000000) := by
  rcases le_or_gt 0 f with hf | hf
  · rw [Int.tdiv_eq_ediv_of_nonneg hf]
    omega
  · have hneg : Int.tdiv f 1000000 ≤ 0 := by
      have hq := Int.tdiv_nonneg (Int.neg_nonneg.mpr hf.le) (show (0 : Int) ≤ 1000000 by decide)
      rw [Int.neg_tdiv] at hq
      omega
    omega

theorem clamped_range (n f : Int) (hf : 60 ≤ f) :
    60 * 1000000 ≤ 1000000 * max 60 (min n (f * 4)) ∧
      1000000 * max 60 (min n (f * 4)) ≤ 4 * (1000000 * f) := by
  omega

/-- What the scheduler waits. -/
theorem effectivePollInterval_range (policy : ProviderPolicyRow) (fallback : Time) :
    60 * second ≤ effectivePollInterval (some policy) fallback ∧
      effectivePollInterval (some policy) fallback ≤ 4 * max fallback (60 * second) := by
  have hwhole := wholeSeconds_le fallback
  obtain ⟨hlower, hupper⟩ := clamped_range
    (if policy.cadence.adaptivePollSeconds = 0 then max (Int.tdiv fallback second) 60
      else policy.cadence.adaptivePollSeconds) _ (le_max_right (Int.tdiv fallback second) 60)
  exact ⟨hlower, hupper.trans (Int.mul_le_mul_of_nonneg_left hwhole (by decide))⟩

/-- For every base interval of a minute at least, and all outcomes of polls from it on. -/
theorem cadence_in_range {tr : List (PollCadence × PollOutcome)} (h : Run PollStep start tr c)
    (hbase : 60 ≤ start.basePollSeconds)
    (hstart : start.adaptivePollSeconds = start.basePollSeconds) :
    (∀ x, Run.Visits tr c x →
      max 60 (start.basePollSeconds / 2) ≤ x.adaptivePollSeconds ∧
      x.adaptivePollSeconds ≤ 4 * start.basePollSeconds) ∧
    (∀ x ∈ tr, x.1.MovesBy x.2 (updatePollCadence x.2.successful x.2.changed x.1)) ∧
    ∀ (policy : ProviderPolicyRow) (fallback : Time), policy.cadence = c →
      60 * second ≤ effectivePollInterval (some policy) fallback ∧
      effectivePollInterval (some policy) fallback ≤ 4 * max fallback (60 * second) := by
  have hinv : ∀ x, Run.Visits tr c x → x.basePollSeconds = start.basePollSeconds ∧ x.InRange :=
    h.invariant_visits (C := fun _ _ => True) (fun _ _ => trivial)
      ⟨rfl, hbase, by omega, by omega⟩ fun x o x' _ hx hs =>
        have hspec := hs.spec hx.2
        ⟨hspec.1.trans hx.1, hspec.2.1⟩
  refine ⟨fun x hx => ?_, fun x hx => ?_, fun policy fallback _ =>
    effectivePollInterval_range policy fallback⟩
  · obtain ⟨hb, hr⟩ := hinv x hx
    exact ⟨hb ▸ hr.lower, hb ▸ hr.upper⟩
  · have hs : PollStep x.1 x.2 (updatePollCadence x.2.successful x.2.changed x.1) := rfl
    exact (hs.spec (hinv x.1 (.inr ⟨x.2, hx⟩)).2).2.2

/-- A poll that found something, one that did not, and one that failed. -/
theorem cadence_in_range_hour : ∃ tr c, Run PollStep
    { basePollSeconds := 3600, adaptivePollSeconds := 3600 } tr c ∧ tr.length = 3 ∧
    c.adaptivePollSeconds = 5400 ∧ c.adaptivePollSeconds ≤ 4 * 3600 := by
  have hrun : Run PollStep { basePollSeconds := 3600, adaptivePollSeconds := 3600 } _ _ :=
    Run.of_foldl (fun c o => updatePollCadence (PollOutcome.successful o) o.changed c)
      [⟨true, true⟩, ⟨true, false⟩, ⟨false, false⟩] fun _ _ => rfl
  exact ⟨_, _, hrun, by decide, by decide, ((cadence_in_range hrun (by decide) rfl).1 _
    Run.visits_last).2⟩

end

end MangaManager
