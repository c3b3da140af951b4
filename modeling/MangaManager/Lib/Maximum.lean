import Mathlib.Order.Lattice
import Mathlib.Data.List.Basic

/-!
# The first greatest of a list

`maxBy` is `max(values, key=...)` where `gt` compares two values by their keys and may
raise. When the comparisons go by a value, wherever they are possible (`ComparesBy`), the
result is the first greatest one (`maxBy_iff`): all that come before it are below it, and
none that comes after it is above it.
-/

namespace MangaManager.Lib

variable {α β : Type*}

/-- The greatest value, kept from the front; the outer `none` is a comparison that raised, the inner
one an empty list. -/
def maxBy (gt : α → α → Option Bool) : List α → Option (Option α)
  | [] => some none
  | x :: xs => (xs.foldlM (fun best y => (gt y best).map fun b => if b then y else best) x).map some

/-- `m` is above all before it, and none after it is above `m`. -/
def FirstMax (gt : α → α → Option Bool) (l : List α) (m : α) : Prop :=
  ∃ before after, l = before ++ m :: after ∧ (∀ y ∈ before, gt m y = some true) ∧
    ∀ y ∈ after, gt y m = some false

/-- The comparisons go by a value. Two that compare with a third are compared with each other, when
they are not above it, or on both sides of it. -/
structure ComparesBy [LinearOrder β] (gt : α → α → Option Bool) (val : α → β) : Prop where
  value : ∀ {x y b}, gt y x = some b → b = decide (val x < val y)
  symm : ∀ {x y}, (gt y x).isSome → (gt x y).isSome
  below : ∀ {x y m}, (gt x m).isSome → (gt y m).isSome → val x ≤ val m → val y ≤ val m →
    (gt x y).isSome
  through : ∀ {x y m}, (gt x m).isSome → (gt y m).isSome → val x ≤ val m → val m < val y →
    (gt x y).isSome

section
variable [LinearOrder β] {gt : α → α → Option Bool} {val : α → β} {l : List α} {m x y : α}

theorem ComparesBy.gt_true (h : ComparesBy gt val) :
    gt y x = some true ↔ (gt y x).isSome ∧ val x < val y := by
  constructor
  · intro he
    exact ⟨by rw [he]; rfl, of_decide_eq_true (h.value he).symm⟩
  · rintro ⟨hs, hlt⟩
    obtain ⟨b, he⟩ := Option.isSome_iff_exists.mp hs
    rw [he, h.value he, decide_eq_true hlt]

theorem ComparesBy.gt_false (h : ComparesBy gt val) :
    gt y x = some false ↔ (gt y x).isSome ∧ val y ≤ val x := by
  constructor
  · intro he
    exact ⟨by rw [he]; rfl, not_lt.mp (of_decide_eq_false (h.value he).symm)⟩
  · rintro ⟨hs, hle⟩
    obtain ⟨b, he⟩ := Option.isSome_iff_exists.mp hs
    rw [he, h.value he, decide_eq_false (not_lt.mpr hle)]

theorem FirstMax.mem (h : FirstMax gt l m) : m ∈ l := by
  obtain ⟨before, after, rfl, -⟩ := h
  exact List.mem_append_right _ List.mem_cons_self

@[simp] theorem firstMax_singleton : FirstMax gt [x] m ↔ m = x := by
  constructor
  · intro h
    exact List.mem_singleton.mp h.mem
  · rintro rfl
    exact ⟨[], [], rfl, fun _ hy => (by cases hy), fun _ hy => (by cases hy)⟩

/-- One that comes after a smaller one takes its place. -/
theorem ComparesBy.firstMax_replace (h : ComparesBy gt val) (hy : gt y x = some true) :
    FirstMax gt (x :: y :: l) m ↔ FirstMax gt (y :: l) m := by
  obtain ⟨hs, hlt⟩ := h.gt_true.mp hy
  constructor
  · rintro ⟨before, after, he, hbefore, hafter⟩
    cases before with
    | nil =>
      obtain ⟨rfl, rfl⟩ := List.cons.inj he
      rw [hafter y List.mem_cons_self] at hy
      cases hy
    | cons z before =>
      obtain ⟨rfl, he'⟩ := List.cons.inj he
      exact ⟨before, after, he', fun w hw => hbefore w (List.mem_cons_of_mem _ hw), hafter⟩
  · rintro ⟨before, after, he, hbefore, hafter⟩
    refine ⟨x :: before, after, by rw [he, List.cons_append], fun w hw => ?_, hafter⟩
    rcases List.mem_cons.mp hw with rfl | hw
    · cases before with
      | nil =>
        obtain ⟨rfl, -⟩ := List.cons.inj he
        exact hy
      | cons z before =>
        obtain ⟨rfl, -⟩ := List.cons.inj he
        obtain ⟨hs', hlt'⟩ := h.gt_true.mp (hbefore y List.mem_cons_self)
        exact h.gt_true.mpr ⟨h.symm (h.through (h.symm hs) hs' hlt.le hlt'), hlt.trans hlt'⟩
    · exact hbefore w hw

/-- One that is not above the one before it changes nothing. -/
theorem ComparesBy.firstMax_skip (h : ComparesBy gt val) (hy : gt y x = some false) :
    FirstMax gt (x :: y :: l) m ↔ FirstMax gt (x :: l) m := by
  obtain ⟨hs, hle⟩ := h.gt_false.mp hy
  constructor
  · rintro ⟨before, after, he, hbefore, hafter⟩
    cases before with
    | nil =>
      obtain ⟨rfl, rfl⟩ := List.cons.inj he
      exact ⟨[], l, rfl, hbefore, fun w hw => hafter w (List.mem_cons_of_mem _ hw)⟩
    | cons z before =>
      obtain ⟨rfl, he'⟩ := List.cons.inj he
      cases before with
      | nil =>
        obtain ⟨rfl, -⟩ := List.cons.inj he'
        rw [hbefore x List.mem_cons_self] at hy
        cases hy
      | cons z before =>
        obtain ⟨rfl, rfl⟩ := List.cons.inj he'
        refine ⟨x :: before, after, rfl, fun w hw => hbefore w ?_, hafter⟩
        rcases List.mem_cons.mp hw with rfl | hw
        · exact List.mem_cons_self
        · exact List.mem_cons_of_mem _ (List.mem_cons_of_mem _ hw)
  · rintro ⟨before, after, he, hbefore, hafter⟩
    cases before with
    | nil =>
      obtain ⟨rfl, rfl⟩ := List.cons.inj he
      refine ⟨[], y :: l, rfl, hbefore, fun w hw => ?_⟩
      rcases List.mem_cons.mp hw with rfl | hw
      · exact hy
      · exact hafter w hw
    | cons z before =>
      obtain ⟨rfl, rfl⟩ := List.cons.inj he
      refine ⟨x :: y :: before, after, rfl, fun w hw => ?_, hafter⟩
      obtain ⟨hs', hlt⟩ := h.gt_true.mp (hbefore x List.mem_cons_self)
      rcases List.mem_cons.mp hw with rfl | hw
      · exact hbefore w List.mem_cons_self
      rcases List.mem_cons.mp hw with rfl | hw
      · exact h.gt_true.mpr ⟨h.symm (h.through hs hs' hle hlt), hle.trans_lt hlt⟩
      · exact hbefore w (List.mem_cons_of_mem _ hw)

/-- The first greatest one compares with the others, so these compare with each other. -/
theorem ComparesBy.firstMax_compares (h : ComparesBy gt val) (hm : FirstMax gt (x :: y :: l) m) :
    (gt y x).isSome := by
  obtain ⟨before, after, he, hbefore, hafter⟩ := hm
  cases before with
  | nil =>
    obtain ⟨rfl, rfl⟩ := List.cons.inj he
    rw [hafter y List.mem_cons_self]
    rfl
  | cons z before =>
    obtain ⟨rfl, he'⟩ := List.cons.inj he
    obtain ⟨hx, hltx⟩ := h.gt_true.mp (hbefore x List.mem_cons_self)
    cases before with
    | nil =>
      obtain ⟨rfl, -⟩ := List.cons.inj he'
      exact hx
    | cons z before =>
      obtain ⟨rfl, -⟩ := List.cons.inj he'
      obtain ⟨hy, hlty⟩ := h.gt_true.mp (hbefore y (List.mem_cons_of_mem _ List.mem_cons_self))
      exact h.below (h.symm hy) (h.symm hx) hlty.le hltx.le

theorem ComparesBy.foldlM_iff (h : ComparesBy gt val) :
    l.foldlM (fun best y => (gt y best).map fun b => if b then y else best) x = some m ↔
      FirstMax gt (x :: l) m := by
  induction l generalizing x with
  | nil =>
    rw [firstMax_singleton]
    exact ⟨fun he => (Option.some.inj he).symm, fun he => congrArg some he.symm⟩
  | cons y l ih =>
    rw [List.foldlM_cons]
    cases hy : gt y x with
    | none =>
      refine ⟨fun he => (by cases he), fun hm => ?_⟩
      have hs := h.firstMax_compares hm
      rw [hy] at hs
      cases hs
    | some b =>
      cases b with
      | true => exact ih.trans (h.firstMax_replace hy).symm
      | false => exact ih.trans (h.firstMax_skip hy).symm

/-- What `max` returns is the first greatest value. -/
theorem maxBy_iff (h : ComparesBy gt val) : maxBy gt l = some (some m) ↔ FirstMax gt l m := by
  cases l with
  | nil =>
    refine ⟨fun he => (by cases he), ?_⟩
    intro hm
    cases hm.mem
  | cons x l =>
    rw [← h.foldlM_iff]
    unfold maxBy
    constructor
    · intro he
      obtain ⟨m', hm', he⟩ := Option.map_eq_some_iff.mp he
      rw [hm', he]
    · intro he
      exact congrArg (Option.map some) he

theorem maxBy_eq_none_some : maxBy gt l = some none ↔ l = [] := by
  cases l with
  | nil => exact ⟨fun _ => rfl, fun _ => rfl⟩
  | cons x l =>
    refine ⟨fun he => ?_, fun he => (by cases he)⟩
    obtain ⟨m, -, he⟩ := Option.map_eq_some_iff.mp he
    cases he

/-- Where all comparisons are possible there is a first greatest one. -/
theorem ComparesBy.exists_firstMax (h : ComparesBy gt val)
    (hall : ∀ a ∈ x :: l, ∀ b ∈ x :: l, (gt a b).isSome) : ∃ m, FirstMax gt (x :: l) m := by
  induction l generalizing x with
  | nil => exact ⟨x, firstMax_singleton.mpr rfl⟩
  | cons y l ih =>
    obtain ⟨b, hb⟩ := Option.isSome_iff_exists.mp
      (hall y (List.mem_cons_of_mem _ List.mem_cons_self) x List.mem_cons_self)
    cases b with
    | true =>
      obtain ⟨m, hm⟩ := ih fun a ha b hb => hall a (List.mem_cons_of_mem _ ha) b
        (List.mem_cons_of_mem _ hb)
      exact ⟨m, (h.firstMax_replace hb).mpr hm⟩
    | false =>
      have hsub : ∀ a ∈ x :: l, a ∈ x :: y :: l := by
        intro a ha
        rcases List.mem_cons.mp ha with rfl | ha
        · exact List.mem_cons_self
        · exact List.mem_cons_of_mem _ (List.mem_cons_of_mem _ ha)
      obtain ⟨m, hm⟩ := ih fun a ha b hb => hall a (hsub a ha) b (hsub b hb)
      exact ⟨m, (h.firstMax_skip hb).mpr hm⟩

end

end MangaManager.Lib
