import Mathlib.Data.List.Flatten
import Mathlib.Data.List.Induction
import Mathlib.Data.List.Pairwise
import Mathlib.Data.List.Perm.Basic

/-!
# First-fit cliques

`cliques rel xs` puts the elements of `xs`, one after the other, into the first group all of
whose members they are related to, and opens a group where there is none. The groups are a
partition of `xs` (`cliques_perm`) into sublists whose members are related
(`cliques_related`), and no two of them could be one group (`cliques_separate`). They depend
on the relation between an element and the earlier ones only (`cliques_congr`).

`pairs` are `itertools.combinations(xs, 2)`.
-/

namespace MangaManager.Lib

variable {α : Type*} {rel rel' : α → α → Bool} {xs l g : List α} {gs : List (List α)} {x y : α}

/-! ## Pairs -/

def pairs : List α → List (α × α)
  | [] => []
  | x :: xs => xs.map (x, ·) ++ pairs xs

theorem mem_pairs_iff : (x, y) ∈ pairs xs ↔ [x, y].Sublist xs := by
  induction xs with
  | nil => simp [pairs]
  | cons z zs ih =>
    rw [pairs, List.mem_append, ih, List.mem_map]
    constructor
    · rintro (⟨w, hw, he⟩ | h)
      · cases he
        exact (List.singleton_sublist.mpr hw).cons_cons x
      · exact h.cons z
    · intro h
      cases h with
      | cons _ h => exact .inr h
      | cons_cons _ h => exact .inl ⟨y, List.singleton_sublist.mp h, rfl⟩

theorem mem_of_mem_pairs (h : (x, y) ∈ pairs xs) : x ∈ xs ∧ y ∈ xs :=
  ⟨(mem_pairs_iff.mp h).subset (by simp), (mem_pairs_iff.mp h).subset (by simp)⟩

theorem pairs_map {β : Type*} (f : α → β) : pairs (xs.map f) = (pairs xs).map (Prod.map f f) := by
  induction xs with
  | nil => rfl
  | cons x xs ih =>
    rw [List.map_cons, pairs, pairs, List.map_append, ih, List.map_map, List.map_map]
    rfl

/-- Of two elements one comes first. -/
theorem mem_pairs_of_ne (hx : x ∈ xs) (hy : y ∈ xs) (hne : x ≠ y) :
    (x, y) ∈ pairs xs ∨ (y, x) ∈ pairs xs := by
  induction xs with
  | nil => cases hx
  | cons z zs ih =>
    rw [pairs, List.mem_append, List.mem_append, List.mem_map, List.mem_map]
    rcases List.mem_cons.mp hx with rfl | hxs
    · rcases List.mem_cons.mp hy with rfl | hys
      · exact absurd rfl hne
      · exact .inl (.inl ⟨y, hys, rfl⟩)
    · rcases List.mem_cons.mp hy with rfl | hys
      · exact .inr (.inl ⟨x, hxs, rfl⟩)
      · exact (ih hxs hys).imp .inr .inr

theorem rel_of_mem_pairs {r : α → α → Prop} (h : xs.Pairwise r) (hm : (x, y) ∈ pairs xs) :
    r x y := by
  have hp := h.sublist (mem_pairs_iff.mp hm)
  exact (List.pairwise_cons.mp hp).1 y (List.mem_singleton.mpr rfl)

/-! ## Groups -/

/-- The element joins the first group that it fits. -/
def place (rel : α → α → Bool) (x : α) : List (List α) → List (List α)
  | [] => [[x]]
  | g :: gs => if g.all (rel x) then (g ++ [x]) :: gs else g :: place rel x gs

def cliques (rel : α → α → Bool) (xs : List α) : List (List α) :=
  xs.foldl (fun gs x => place rel x gs) []

theorem cliques_concat : cliques rel (xs ++ [x]) = place rel x (cliques rel xs) := by
  rw [cliques, List.foldl_append]
  rfl

theorem place_perm : (place rel x gs).flatten.Perm (gs.flatten ++ [x]) := by
  induction gs with
  | nil => exact .refl _
  | cons g gs ih =>
    rw [place]
    split
    · rw [List.flatten_cons, List.flatten_cons, List.append_assoc, List.append_assoc]
      exact List.perm_append_comm.append_left g
    · rw [List.flatten_cons, List.flatten_cons, List.append_assoc]
      exact ih.append_left g

/-- Every element is in one group. -/
theorem cliques_perm : (cliques rel xs).flatten.Perm xs := by
  induction xs using List.reverseRecOn with
  | nil => exact .refl _
  | append_singleton xs x ih =>
    rw [cliques_concat]
    exact place_perm.trans (ih.append_right [x])

theorem mem_of_mem_cliques (hg : g ∈ cliques rel xs) (hx : x ∈ g) : x ∈ xs :=
  cliques_perm.mem_iff.mp (List.mem_flatten.mpr ⟨g, hg, hx⟩)

/-- A group is one that was there, one that the element joined, or its own. -/
theorem mem_place (hg : g ∈ place rel x gs) :
    g ∈ gs ∨ (∃ g' ∈ gs, g'.all (rel x) = true ∧ g = g' ++ [x]) ∨ g = [x] := by
  induction gs with
  | nil => exact .inr (.inr (List.mem_singleton.mp hg))
  | cons h gs ih =>
    rw [place] at hg
    split at hg
    · rename_i hall
      rcases List.mem_cons.mp hg with rfl | hg
      · exact .inr (.inl ⟨h, List.mem_cons_self, hall, rfl⟩)
      · exact .inl (List.mem_cons_of_mem _ hg)
    · rcases List.mem_cons.mp hg with rfl | hg
      · exact .inl List.mem_cons_self
      · rcases ih hg with hg | ⟨g', hg', hrest⟩ | hg
        · exact .inl (List.mem_cons_of_mem _ hg)
        · exact .inr (.inl ⟨g', List.mem_cons_of_mem _ hg', hrest⟩)
        · exact .inr (.inr hg)

/-- The members of a group are in the order of the elements. -/
theorem cliques_sublist (hg : g ∈ cliques rel xs) : g.Sublist xs := by
  induction xs using List.reverseRecOn generalizing g with
  | nil => cases hg
  | append_singleton xs x ih =>
    rw [cliques_concat] at hg
    rcases mem_place hg with hg | ⟨g', hg', -, rfl⟩ | rfl
    · exact (ih hg).trans (List.sublist_append_left _ _)
    · exact (ih hg').append (.refl _)
    · exact List.sublist_append_right _ _

/-- A member is related to those that came before it. -/
theorem cliques_related (hg : g ∈ cliques rel xs) : g.Pairwise fun y x => rel x y = true := by
  induction xs using List.reverseRecOn generalizing g with
  | nil => cases hg
  | append_singleton xs x ih =>
    rw [cliques_concat] at hg
    rcases mem_place hg with hg | ⟨g', hg', hall, rfl⟩ | rfl
    · exact ih hg
    · refine List.pairwise_append.mpr ⟨ih hg', List.pairwise_singleton _ _, fun y hy z hz => ?_⟩
      obtain rfl := List.mem_singleton.mp hz
      exact List.all_eq_true.mp hall y hy
    · exact List.pairwise_singleton _ _

theorem cliques_ne_nil (hg : g ∈ cliques rel xs) : g ≠ [] := by
  induction xs using List.reverseRecOn generalizing g with
  | nil => cases hg
  | append_singleton xs x ih =>
    rw [cliques_concat] at hg
    rcases mem_place hg with hg | ⟨g', -, -, rfl⟩ | rfl
    · exact ih hg
    · simp
    · simp

/-- A member of the later group is not related to one of the earlier group. -/
def Separate (rel : α → α → Bool) (g h : List α) : Prop := ∃ x ∈ h, ∃ y ∈ g, rel x y = false

theorem Separate.append_left (h : Separate rel g l) (x : α) : Separate rel (g ++ [x]) l := by
  obtain ⟨z, hz, y, hy, hno⟩ := h
  exact ⟨z, hz, y, List.mem_append_left _ hy, hno⟩

theorem Separate.append_right (h : Separate rel g l) (x : α) : Separate rel g (l ++ [x]) := by
  obtain ⟨z, hz, hrest⟩ := h
  exact ⟨z, List.mem_append_left _ hz, hrest⟩

theorem place_separate (h : gs.Pairwise (Separate rel)) :
    (place rel x gs).Pairwise (Separate rel) := by
  induction gs with
  | nil => exact List.pairwise_singleton _ _
  | cons g gs ih =>
    obtain ⟨hg, hgs⟩ := List.pairwise_cons.mp h
    rw [place]
    split
    · exact List.pairwise_cons.mpr ⟨fun l hl => (hg l hl).append_left x, hgs⟩
    · rename_i hall
      refine List.pairwise_cons.mpr ⟨fun l hl => ?_, ih hgs⟩
      rcases mem_place hl with hl | ⟨l', hl', -, rfl⟩ | rfl
      · exact hg l hl
      · exact (hg l' hl').append_right x
      · -- the element opened a group, for it did not fit this one
        obtain ⟨y, hy, hno⟩ : ∃ y ∈ g, ¬ rel x y = true := by
          simpa only [List.all_eq_true, not_forall, exists_prop] using hall
        exact ⟨x, List.mem_singleton.mpr rfl, y, hy, by simpa using hno⟩

/-- No two groups could be one. -/
theorem cliques_separate : (cliques rel xs).Pairwise (Separate rel) := by
  induction xs using List.reverseRecOn with
  | nil => exact .nil
  | append_singleton xs x ih =>
    rw [cliques_concat]
    exact place_separate ih

theorem place_congr (h : ∀ g ∈ gs, ∀ y ∈ g, rel x y = rel' x y) :
    place rel x gs = place rel' x gs := by
  induction gs with
  | nil => rfl
  | cons g gs ih =>
    have hall : g.all (rel x) = g.all (rel' x) := by
      rw [Bool.eq_iff_iff, List.all_eq_true, List.all_eq_true]
      exact forall₂_congr fun y hy => by rw [h g List.mem_cons_self y hy]
    rw [place, place, hall, ih fun g' hg' => h g' (List.mem_cons_of_mem _ hg')]

/-- Relations that agree on an element and an earlier one have the same groups. -/
theorem cliques_congr (h : xs.Pairwise fun y x => rel x y = rel' x y) :
    cliques rel xs = cliques rel' xs := by
  induction xs using List.reverseRecOn with
  | nil => rfl
  | append_singleton xs x ih =>
    obtain ⟨hxs, -, hx⟩ := List.pairwise_append.mp h
    rw [cliques_concat, cliques_concat, ih hxs]
    exact place_congr fun g hg y hy =>
      hx y (mem_of_mem_cliques hg hy) x (List.mem_singleton.mpr rfl)

end MangaManager.Lib
