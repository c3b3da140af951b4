import Mathlib.Data.List.MinMax
import Mathlib.Data.List.Nodup

/-!
# First fit with exclusions

`firstFit` looks at the elements of a list in the order of a key and takes the
first that fits. An element it refuses hides others from it (`hides`), and it
looks at most a given number of times. `firstOf` is the plain scan: the first
that fits, nothing hidden.

When hiding is transitive, what the scan looks at can be said without running
it: an element is looked at when no earlier one hides it (`Visible`), as long as
the looks last. `firstFit_eq_some_iff` is that characterization, and
`runsDry_iff` says when the scan ends because nothing is left to look at.
-/

namespace MangaManager.Lib.FirstFit

variable {α κ : Type*} [DecidableEq α] [LinearOrder κ]

section
variable (key : α → κ) (fits : α → Bool) (hides : α → α → Bool) (xs : List α)

/-- What is left to look at: neither refused nor hidden. -/
def left (refused : List α) : List α :=
  xs.filter fun x => decide (x ∉ refused) && refused.all fun y => !hides y x

def firstFit : Nat → List α → Option α
  | 0, _ => none
  | n + 1, refused =>
    match (left hides xs refused).argmin key with
    | none => none
    | some x => if fits x then some x else firstFit n (x :: refused)

/-- The scan refuses all it looks at, and nothing is left. -/
def runsDry : Nat → List α → Bool
  | 0, _ => false
  | n + 1, refused =>
    match (left hides xs refused).argmin key with
    | none => true
    | some x => !fits x && runsDry n (x :: refused)

/-- The plain scan. -/
def firstOf : Option α := (xs.filter fits).argmin key

/-- No earlier element hides `x`. -/
def Visible (x : α) : Prop := ∀ y ∈ xs, key y < key x → hides y x = false

instance (x : α) : Decidable (Visible key hides xs x) :=
  inferInstanceAs (Decidable (∀ y ∈ xs, _ → _))

/-- The elements the scan can come to. -/
def inView : List α := xs.filter fun x => decide (Visible key hides xs x)

/-- The elements looked at before `p`. -/
def looksBefore (p : α) : List α :=
  xs.filter fun x => decide (key x < key p) && decide (Visible key hides xs x)

end

variable {key : α → κ} {fits : α → Bool} {hides : α → α → Bool} {xs refused : List α} {x y p : α}
  {n : Nat}

theorem mem_left : x ∈ left hides xs refused ↔
    x ∈ xs ∧ x ∉ refused ∧ ∀ y ∈ refused, hides y x = false := by
  simp [left]

omit [DecidableEq α] in
theorem mem_looksBefore : x ∈ looksBefore key hides xs p ↔
    x ∈ xs ∧ key x < key p ∧ Visible key hides xs x := by
  simp [looksBefore]

/-- The scan looks at visible elements only. -/
theorem visible_of_argmin (ht : ∀ x y z, hides x y = true → hides y z = true → hides x z = true)
    (h : (left hides xs refused).argmin key = some x) : Visible key hides xs x := by
  intro y hy hlt
  obtain ⟨-, -, hx⟩ := mem_left.mp (List.argmin_mem h)
  -- an earlier element is no longer left: it was refused, or one that hides it was
  have hgone : y ∉ left hides xs refused := fun hm =>
    absurd hlt (not_lt.mpr (List.le_of_mem_argmin hm h))
  by_cases hr : y ∈ refused
  · exact hx y hr
  · have hhid : ∃ z ∈ refused, hides z y = true := by
      by_contra hno
      refine hgone (mem_left.mpr ⟨hy, hr, fun z hz => ?_⟩)
      cases hzy : hides z y with
      | false => rfl
      | true => exact absurd ⟨z, hz, hzy⟩ hno
    obtain ⟨z, hz, hzy⟩ := hhid
    cases hyx : hides y x with
    | false => rfl
    | true =>
      have hzx := hx z hz
      rw [ht z y x hzy hyx] at hzx
      cases hzx

/-- What the scan finds is an element that fits and that it can see. -/
theorem firstFit_some (ht : ∀ x y z, hides x y = true → hides y z = true → hides x z = true)
    (h : firstFit key fits hides xs n refused = some p) :
    p ∈ xs ∧ fits p = true ∧ Visible key hides xs p := by
  induction n generalizing refused with
  | zero => cases h
  | succ n ih =>
    unfold firstFit at h
    split at h
    · cases h
    · rename_i x hx
      split at h
      · rename_i hf
        cases h
        exact ⟨(mem_left.mp (List.argmin_mem hx)).1, hf, visible_of_argmin ht hx⟩
      · exact ih h

omit [DecidableEq α] in
theorem firstOf_some (h : firstOf key fits xs = some p) :
    p ∈ xs ∧ fits p = true ∧ ∀ x ∈ xs, fits x = true → key p ≤ key x := by
  obtain ⟨hp, hf⟩ := List.mem_filter.mp (List.argmin_mem h)
  exact ⟨hp, hf, fun x hx hfx => List.le_of_mem_argmin (List.mem_filter.mpr ⟨hx, hfx⟩) h⟩

/-- The scan comes to `p` first: everything it looks at before is refused. -/
structure Selected (key : α → κ) (fits : α → Bool) (hides : α → α → Bool) (xs : List α) (p : α) :
    Prop where
  mem : p ∈ xs
  fitting : fits p = true
  visible : Visible key hides xs p
  first : ∀ x ∈ xs, Visible key hides xs x → key x < key p → fits x = false

/-- The invariant of the scan: the elements refused so far come before every other visible one. -/
structure Swept (key : α → κ) (fits : α → Bool) (hides : α → α → Bool) (xs refused : List α) :
    Prop where
  mem : ∀ r ∈ refused, r ∈ xs
  unfit : ∀ r ∈ refused, fits r = false
  before : ∀ r ∈ refused, ∀ y ∈ xs, Visible key hides xs y → y ∉ refused → key r < key y

/-- A visible element that was not refused is left. -/
theorem Swept.mem_left (hs : Swept key fits hides xs refused) (hy : y ∈ xs)
    (hv : Visible key hides xs y) (hn : y ∉ refused) : y ∈ left hides xs refused :=
  FirstFit.mem_left.mpr ⟨hy, hn, fun r hm => hv r (hs.mem r hm) (hs.before r hm y hy hv hn)⟩

theorem Selected.mem_left (h : Selected key fits hides xs p)
    (hs : Swept key fits hides xs refused) : p ∈ left hides xs refused := by
  refine hs.mem_left h.mem h.visible fun hm => ?_
  have hr := hs.unfit p hm
  rw [h.fitting] at hr
  cases hr

theorem Swept.cons (hk : (xs.map key).Nodup) (hs : Swept key fits hides xs refused)
    (h : (left hides xs refused).argmin key = some x) (hf : fits x = false) :
    Swept key fits hides xs (x :: refused) where
  mem r hm := by
    rcases List.mem_cons.mp hm with rfl | hm
    · exact (FirstFit.mem_left.mp (List.argmin_mem h)).1
    · exact hs.mem r hm
  unfit r hm := by
    rcases List.mem_cons.mp hm with rfl | hm
    · exact hf
    · exact hs.unfit r hm
  before r hm y hy hv hn := by
    simp only [List.mem_cons, not_or] at hn
    rcases List.mem_cons.mp hm with rfl | hm
    · have hx := (FirstFit.mem_left.mp (List.argmin_mem h)).1
      have hle := List.le_of_mem_argmin (hs.mem_left hy hv hn.2) h
      exact lt_of_le_of_ne hle fun e => hn.1 (List.inj_on_of_nodup_map hk hx hy e).symm
    · exact hs.before r hm y hy hv hn.2

/-- One more look leaves one less to come. -/
theorem length_filter_cons {l : List α} (hl : l.Nodup) (hx : x ∈ l) (hn : x ∉ refused) :
    (l.filter fun y => decide (y ∉ refused)).length =
      (l.filter fun y => decide (y ∉ x :: refused)).length + 1 := by
  have hmem : x ∈ l.filter fun y => decide (y ∉ refused) := List.mem_filter.mpr ⟨hx, by simpa using hn⟩
  have hcons : (l.filter fun y => decide (y ∉ x :: refused)) =
      (l.filter fun y => decide (y ∉ refused)).erase x := by
    rw [(hl.filter _).erase_eq_filter, List.filter_filter]
    refine List.filter_congr fun y _ => ?_
    by_cases hy : y = x <;> simp [hy]
  rw [hcons, List.length_erase_of_mem hmem]
  have hpos := List.length_pos_of_mem hmem
  omega

/-- From a swept state the scan finds `p` exactly when `p` is selected and the looks last. -/
theorem Swept.firstFit_iff (hk : (xs.map key).Nodup)
    (ht : ∀ x y z, hides x y = true → hides y z = true → hides x z = true) :
    ∀ {refused : List α}, Swept key fits hides xs refused →
      (firstFit key fits hides xs n refused = some p ↔ Selected key fits hides xs p ∧
        ((looksBefore key hides xs p).filter fun y => decide (y ∉ refused)).length < n) := by
  induction n with
  | zero =>
    intro refused _
    simp [firstFit]
  | succ n ih =>
    intro refused hs
    unfold firstFit
    cases hx : (left hides xs refused).argmin key with
    | none =>
      refine iff_of_false (by simp) fun ⟨h, _⟩ => ?_
      have hm := h.mem_left hs
      rw [List.argmin_eq_none.mp hx] at hm
      cases hm
    | some x =>
      dsimp only
      obtain ⟨hxs, hxr, -⟩ := FirstFit.mem_left.mp (List.argmin_mem hx)
      have hvis := visible_of_argmin ht hx
      -- the visible elements before `x` were refused
      have hbefore : ∀ y ∈ xs, Visible key hides xs y → key y < key x → y ∈ refused := by
        intro y hy hv hlt
        by_contra hn
        exact absurd hlt (not_lt.mpr (List.le_of_mem_argmin (hs.mem_left hy hv hn) hx))
      by_cases hf : fits x = true
      · rw [if_pos hf, Option.some.injEq]
        constructor
        · rintro rfl
          refine ⟨⟨hxs, hf, hvis, fun y hy hv hlt => hs.unfit y (hbefore y hy hv hlt)⟩, ?_⟩
          have hnil : ((looksBefore key hides xs x).filter fun y => decide (y ∉ refused)) = [] := by
            refine List.filter_eq_nil_iff.mpr fun y hy => ?_
            obtain ⟨hy, hlt, hv⟩ := mem_looksBefore.mp hy
            simpa using hbefore y hy hv hlt
          rw [hnil]
          exact Nat.succ_pos n
        · rintro ⟨h, -⟩
          have hle := List.le_of_mem_argmin (h.mem_left hs) hx
          refine List.inj_on_of_nodup_map hk hxs h.mem (le_antisymm hle (not_lt.mp fun hlt => ?_))
          have hno := h.first x hxs hvis hlt
          rw [hf] at hno
          cases hno
      · have hf : fits x = false := by simpa using hf
        rw [if_neg (by simp [hf]), ih (hs.cons hk hx hf)]
        refine and_congr_right fun h => ?_
        have hle := List.le_of_mem_argmin (h.mem_left hs) hx
        have hne : key x ≠ key p := fun e => by
          rw [List.inj_on_of_nodup_map hk hxs h.mem e, h.fitting] at hf
          cases hf
        have hm : x ∈ looksBefore key hides xs p :=
          mem_looksBefore.mpr ⟨hxs, lt_of_le_of_ne hle hne, hvis⟩
        have hnodup : (looksBefore key hides xs p).Nodup := (List.Nodup.of_map key hk).filter _
        rw [length_filter_cons hnodup hm hxr]
        omega

/-- What the scan finds, without running it. -/
theorem firstFit_eq_some_iff (hk : (xs.map key).Nodup)
    (ht : ∀ x y z, hides x y = true → hides y z = true → hides x z = true) :
    firstFit key fits hides xs n [] = some p ↔
      Selected key fits hides xs p ∧ (looksBefore key hides xs p).length < n := by
  have hs : Swept key fits hides xs [] := ⟨by simp, by simp, by simp⟩
  simpa using hs.firstFit_iff (n := n) (p := p) hk ht

theorem firstFit_singleton (h : fits x = true) :
    firstFit key fits hides [x] (n + 1) [] = some x := by
  have hleft : left hides [x] [] = [x] := by simp [left]
  rw [firstFit, hleft, List.argmin_singleton]
  exact if_pos h

omit [DecidableEq α] in
theorem mem_inView : x ∈ inView key hides xs ↔ x ∈ xs ∧ Visible key hides xs x := by
  simp [inView]

theorem Swept.runsDry_iff (hk : (xs.map key).Nodup)
    (ht : ∀ x y z, hides x y = true → hides y z = true → hides x z = true) :
    ∀ {refused : List α}, Swept key fits hides xs refused →
      (runsDry key fits hides xs n refused = true ↔
        (∀ x ∈ inView key hides xs, fits x = false) ∧
          ((inView key hides xs).filter fun y => decide (y ∉ refused)).length < n) := by
  induction n with
  | zero =>
    intro refused _
    simp [runsDry]
  | succ n ih =>
    intro refused hs
    unfold runsDry
    cases hx : (left hides xs refused).argmin key with
    | none =>
      have hall : ∀ x ∈ inView key hides xs, x ∈ refused := by
        intro x hm
        obtain ⟨hxs, hv⟩ := mem_inView.mp hm
        by_contra hn
        have hl := hs.mem_left hxs hv hn
        rw [List.argmin_eq_none.mp hx] at hl
        cases hl
      refine iff_of_true rfl ⟨fun x hm => hs.unfit x (hall x hm), ?_⟩
      have hnil : ((inView key hides xs).filter fun y => decide (y ∉ refused)) = [] :=
        List.filter_eq_nil_iff.mpr fun y hy => by simpa using hall y hy
      rw [hnil]
      exact Nat.succ_pos n
    | some x =>
      obtain ⟨hxs, hxr, -⟩ := FirstFit.mem_left.mp (List.argmin_mem hx)
      have hm : x ∈ inView key hides xs := mem_inView.mpr ⟨hxs, visible_of_argmin ht hx⟩
      cases hf : fits x with
      | true =>
        refine iff_of_false (by simp [hf]) fun h => ?_
        have hno := h.1 x hm
        rw [hf] at hno
        cases hno
      | false =>
        have hnodup : (inView key hides xs).Nodup := (List.Nodup.of_map key hk).filter _
        rw [length_filter_cons hnodup hm hxr, Nat.add_lt_add_iff_right]
        simpa [hf] using ih (hs.cons hk hx hf)

/-- When the scan runs dry, without running it. -/
theorem runsDry_iff (hk : (xs.map key).Nodup)
    (ht : ∀ x y z, hides x y = true → hides y z = true → hides x z = true) :
    runsDry key fits hides xs n [] = true ↔
      (∀ x ∈ inView key hides xs, fits x = false) ∧ (inView key hides xs).length < n := by
  have hs : Swept key fits hides xs [] := ⟨by simp, by simp, by simp⟩
  simpa using hs.runsDry_iff (n := n) hk ht

/-- A scan that runs dry finds nothing. -/
theorem firstFit_none_of_runsDry (hk : (xs.map key).Nodup)
    (ht : ∀ x y z, hides x y = true → hides y z = true → hides x z = true)
    (h : runsDry key fits hides xs n [] = true) : firstFit key fits hides xs n [] = none := by
  cases hf : firstFit key fits hides xs n [] with
  | none => rfl
  | some x =>
    obtain ⟨hx, hfit, hv⟩ := firstFit_some ht hf
    have hno := ((runsDry_iff hk ht).mp h).1 x (mem_inView.mpr ⟨hx, hv⟩)
    rw [hfit] at hno
    cases hno

end MangaManager.Lib.FirstFit
