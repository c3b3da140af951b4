import Mathlib.Logic.Function.Basic
import Mathlib.Logic.Relation
import Mathlib.Order.MinMax

/-!
# Union-find on natural numbers

A `Forest` holds a parent for every number, none of which is larger than its child, so
`find` with path halving ends. It does not change the roots (`find_spec`), a root is the
least of its class (`root_le_of_same`), and `unions_same` says which classes there are:
two numbers have one root exactly when a chain of the united pairs links them, whatever
the order of the pairs.
-/

namespace MangaManager.Lib

structure Forest where
  parent : Nat → Nat
  parent_le : ∀ v, parent v ≤ v

namespace Forest

variable (f : Forest) {a b u v w x y : Nat}

/-- `{v: v for v in values}`. -/
def singles : Forest := ⟨id, fun _ => Nat.le_refl _⟩

def setParent (v w : Nat) (h : w ≤ v) : Forest where
  parent := Function.update f.parent v w
  parent_le u := by
    rcases eq_or_ne u v with rfl | hne
    · rwa [Function.update_self]
    · rw [Function.update_of_ne hne]
      exact f.parent_le u

theorem setParent_self {h : w ≤ v} : (f.setParent v w h).parent v = w := Function.update_self ..

theorem setParent_of_ne {h : w ≤ v} (hne : u ≠ v) : (f.setParent v w h).parent u = f.parent u :=
  Function.update_of_ne hne ..

/-- `parents[v] = parents[parents[v]]`. -/
def halve (v : Nat) : Forest :=
  f.setParent v (f.parent (f.parent v)) ((f.parent_le _).trans (f.parent_le v))

theorem parent_lt (h : f.parent v ≠ v) : f.parent v < v := Nat.lt_of_le_of_ne (f.parent_le v) h

theorem grandparent_lt (h : f.parent v ≠ v) : f.parent (f.parent v) < v :=
  Nat.lt_of_le_of_lt (f.parent_le _) (f.parent_lt h)

/-- `find`, with the forest that it leaves. -/
def find (f : Forest) (v : Nat) : Forest × Nat :=
  if f.parent v = v then (f, v) else (f.halve v).find (f.parent (f.parent v))
termination_by v
decreasing_by
  rename_i h
  exact f.grandparent_lt h

/-- `union`. -/
def union (left right : Nat) : Forest :=
  let found := f.find left
  let found' := found.1.find right
  if found.2 = found'.2 then found'.1
  else found'.1.setParent (max found.2 found'.2) (min found.2 found'.2) min_le_max

def unions (pairs : List (Nat × Nat)) : Forest := pairs.foldl (fun f p => f.union p.1 p.2) f

/-- `find` of one value after the other, each with its root. -/
def findAll (f : Forest) : List Nat → List (Nat × Nat)
  | [] => []
  | v :: vs => ((f.find v).2, v) :: (f.find v).1.findAll vs

/-! ## Roots -/

/-- The end of the chain of parents. -/
def root (f : Forest) (v : Nat) : Nat :=
  if f.parent v = v then v else f.root (f.parent v)
termination_by v
decreasing_by
  rename_i h
  exact f.parent_lt h

def Same (a b : Nat) : Prop := f.root a = f.root b

variable {f}

theorem root_of_eq (h : f.parent v = v) : f.root v = v := by
  rw [root, if_pos h]

theorem root_parent : f.root (f.parent v) = f.root v := by
  by_cases h : f.parent v = v
  · rw [h]
  · conv_rhs => rw [root, if_neg h]

theorem root_le (v : Nat) : f.root v ≤ v := by
  induction v using Nat.strongRecOn with
  | ind v ih =>
    by_cases h : f.parent v = v
    · exact Nat.le_of_eq (root_of_eq h)
    · rw [← root_parent]
      exact (ih _ (f.parent_lt h)).trans (f.parent_le v)

theorem parent_root (v : Nat) : f.parent (f.root v) = f.root v := by
  induction v using Nat.strongRecOn with
  | ind v ih =>
    by_cases h : f.parent v = v
    · rw [root_of_eq h, h]
    · rw [← root_parent]
      exact ih _ (f.parent_lt h)

theorem root_root (v : Nat) : f.root (f.root v) = f.root v := root_of_eq (parent_root v)

/-- A root is the least of its class. -/
theorem root_le_of_same (h : f.Same a b) : f.root a ≤ b := h ▸ root_le b

theorem root_halve (v w : Nat) : (f.halve v).root w = f.root w := by
  induction w using Nat.strongRecOn with
  | ind w ih =>
    rcases eq_or_ne w v with rfl | hne
    · have hp : (f.halve w).parent w = f.parent (f.parent w) := f.setParent_self
      by_cases h : f.parent w = w
      · rw [root_of_eq h, root_of_eq (by rw [hp, h, h])]
      · rw [← root_parent, hp, ih _ (f.grandparent_lt h), root_parent, root_parent]
    · have hp : (f.halve v).parent w = f.parent w := f.setParent_of_ne hne
      by_cases h : f.parent w = w
      · rw [root_of_eq h, root_of_eq (hp.trans h)]
      · rw [← root_parent, hp, ih _ (f.parent_lt h), root_parent]

/-- The loop ends at the root, and leaves the roots as they were. -/
theorem find_spec (f : Forest) (v : Nat) :
    (f.find v).2 = f.root v ∧ ∀ w, (f.find v).1.root w = f.root w := by
  induction v using Nat.strongRecOn generalizing f with
  | ind v ih =>
    rw [find]
    split
    · rename_i h
      exact ⟨(root_of_eq h).symm, fun w => rfl⟩
    · rename_i h
      obtain ⟨hv, hw⟩ := ih _ (f.grandparent_lt h) (f.halve v)
      refine ⟨?_, fun w => (hw w).trans (root_halve v w)⟩
      rw [hv, root_halve, root_parent, root_parent]

theorem findAll_eq (f : Forest) (l : List Nat) : f.findAll l = l.map fun v => (f.root v, v) := by
  induction l generalizing f with
  | nil => rfl
  | cons v l ih =>
    obtain ⟨hv, hw⟩ := find_spec f v
    rw [findAll, ih, hv, List.map_cons]
    simp only [hw]

/-- A root is linked below another one. -/
theorem root_setParent {hi lo : Nat} (hhi : f.parent hi = hi) (hlo : f.parent lo = lo)
    (hlt : lo < hi) : (f.setParent hi lo (Nat.le_of_lt hlt)).root w =
      if f.root w = hi then lo else f.root w := by
  have hl : (f.setParent hi lo (Nat.le_of_lt hlt)).root lo = lo :=
    root_of_eq ((f.setParent_of_ne (Nat.ne_of_lt hlt)).trans hlo)
  induction w using Nat.strongRecOn with
  | ind w ih =>
    rcases eq_or_ne w hi with rfl | hne
    · rw [← root_parent, f.setParent_self, hl, if_pos (root_of_eq hhi)]
    · by_cases h : f.parent w = w
      · rw [root_of_eq h, root_of_eq ((f.setParent_of_ne hne).trans h), if_neg hne]
      · rw [← root_parent, f.setParent_of_ne hne, ih _ (f.parent_lt h), root_parent]

/-! ## Classes -/

theorem union_root (f : Forest) (x y w : Nat) : (f.union x y).root w =
    if f.root x = f.root y then f.root w
    else if f.root w = max (f.root x) (f.root y) then min (f.root x) (f.root y) else f.root w := by
  obtain ⟨hx, hroots⟩ := find_spec f x
  obtain ⟨hy, hroots'⟩ := find_spec (f.find x).1 y
  have hall : ∀ w, ((f.find x).1.find y).1.root w = f.root w :=
    fun w => (hroots' w).trans (hroots w)
  rw [hroots] at hy
  unfold union
  simp only [hx, hy]
  split
  · exact hall w
  · rename_i hne
    have hroot : ∀ v, ((f.find x).1.find y).1.parent (f.root v) = f.root v := by
      intro v
      rw [← hall v]
      exact parent_root v
    have hlt : min (f.root x) (f.root y) < max (f.root x) (f.root y) := by omega
    have hmax : ((f.find x).1.find y).1.parent (max (f.root x) (f.root y)) =
        max (f.root x) (f.root y) := by
      rcases max_choice (f.root x) (f.root y) with h | h <;> rw [h]
      · exact hroot x
      · exact hroot y
    have hmin : ((f.find x).1.find y).1.parent (min (f.root x) (f.root y)) =
        min (f.root x) (f.root y) := by
      rcases min_choice (f.root x) (f.root y) with h | h <;> rw [h]
      · exact hroot x
      · exact hroot y
    rw [root_setParent hmax hmin hlt, hall]

/-- A union joins two classes. -/
theorem union_same : (f.union x y).Same a b ↔
    f.Same a b ∨ (f.Same a x ∧ f.Same b y) ∨ (f.Same a y ∧ f.Same b x) := by
  unfold Same
  rw [union_root, union_root]
  split
  · omega
  · split <;> split <;> omega

theorem union_self : (f.union x y).Same x y :=
  union_same.mpr (.inr (.inl ⟨rfl, rfl⟩))

open Relation

theorem unions_same_gen {pairs : List (Nat × Nat)} : (f.unions pairs).Same a b ↔
    EqvGen (fun u v => f.Same u v ∨ (u, v) ∈ pairs) a b := by
  induction pairs generalizing f with
  | nil =>
    refine ⟨fun h => .rel _ _ (.inl h), fun h => ?_⟩
    induction h with
    | rel u v h => exact h.resolve_right List.not_mem_nil
    | refl u => rfl
    | symm u v _ ih => exact ih.symm
    | trans u v w _ _ ih₁ ih₂ => exact ih₁.trans ih₂
  | cons p pairs ih =>
    refine (ih (f := f.union p.1 p.2)).trans ⟨fun h => ?_, fun h => ?_⟩ <;> clear ih
    · induction h with
      | refl u => exact .refl u
      | symm u v _ ih => exact .symm _ _ ih
      | trans u v w _ _ ih₁ ih₂ => exact .trans _ _ _ ih₁ ih₂
      | rel u v h =>
        have hp : EqvGen (fun u v => f.Same u v ∨ (u, v) ∈ p :: pairs) p.1 p.2 :=
          .rel _ _ (.inr List.mem_cons_self)
        rcases h with h | h
        · rcases union_same.mp h with h | ⟨hu, hv⟩ | ⟨hu, hv⟩
          · exact .rel _ _ (.inl h)
          · exact .trans _ _ _ (.rel _ _ (.inl hu)) (.trans _ _ _ hp (.rel _ _ (.inl hv.symm)))
          · exact .trans _ _ _ (.rel _ _ (.inl hu))
              (.trans _ _ _ hp.symm (.rel _ _ (.inl hv.symm)))
        · exact .rel _ _ (.inr (List.mem_cons_of_mem _ h))
    · refine EqvGen.mono (fun u v h => ?_) _ _ h
      rcases h with h | h
      · exact .inl (union_same.mpr (.inl h))
      · rcases List.mem_cons.mp h with h | h
        · exact .inl (h ▸ union_self)
        · exact .inr h

theorem root_singles (v : Nat) : singles.root v = v := root_of_eq rfl

/-- The classes are those that the pairs generate. -/
theorem unions_same {pairs : List (Nat × Nat)} : (singles.unions pairs).Same a b ↔
    EqvGen (fun u v => (u, v) ∈ pairs) a b := by
  refine unions_same_gen.trans ⟨fun h => ?_, EqvGen.mono (fun _ _ h => .inr h) _ _⟩
  induction h with
  | refl u => exact .refl u
  | symm u v _ ih => exact .symm _ _ ih
  | trans u v w _ _ ih₁ ih₂ => exact .trans _ _ _ ih₁ ih₂
  | rel u v h =>
    rcases h with h | h
    · rw [Same, root_singles, root_singles] at h
      exact h ▸ .refl u
    · exact .rel _ _ h

end Forest

end MangaManager.Lib
