import Mathlib.Data.List.Perm.Basic
import Mathlib.Logic.Relation

/-!
# Connected components by sweeping

Each element of a list has some keys, and two elements are adjacent when they share one.
`components` takes the first element that is left and sweeps the rest, again and again,
for elements that share a key with those it took, until a sweep takes none. The result is
a partition of the list (`components_perm`) into parts that are connected
(`components_sound`) and that share no key with each other (`components_disjoint`).
-/

namespace MangaManager.Lib

open Relation

variable {α κ : Type*}

/-- A component so far, with its keys, and the elements that are left. -/
structure Sweep (α κ : Type*) where
  component : List α
  keys : List κ
  remaining : List α

namespace Sweep

variable (keysOf : α → List κ)

/-- The component of an element, among those that are left. -/
def start (p : α) (ps : List α) : Sweep α κ := ⟨[p], keysOf p, ps⟩

variable {keysOf} {s : Sweep α κ} {p q : α} {l : List α}

/-- Two elements of the list that share a key. -/
def Adjacent (keysOf : α → List κ) (l : List α) (p q : α) : Prop :=
  p ∈ l ∧ q ∈ l ∧ ∃ k, k ∈ keysOf p ∧ k ∈ keysOf q

/-- The keys are those of the component, which hangs together. -/
structure Sound (keysOf : α → List κ) (s : Sweep α κ) : Prop where
  keys : ∀ k, k ∈ s.keys ↔ ∃ p ∈ s.component, k ∈ keysOf p
  linked : ∀ p ∈ s.component, ∀ q ∈ s.component,
    ReflTransGen (Adjacent keysOf s.component) p q

theorem Adjacent.symm (h : Adjacent keysOf l p q) : Adjacent keysOf l q p :=
  ⟨h.2.1, h.1, h.2.2.imp fun _ h => ⟨h.2, h.1⟩⟩

theorem Adjacent.mono {l' : List α} (hl : l ⊆ l') (h : Adjacent keysOf l p q) :
    Adjacent keysOf l' p q := ⟨hl h.1, hl h.2.1, h.2.2⟩

/-- What sweeps do: elements of the remaining list move to the component. -/
structure Swept (keysOf : α → List κ) (s s' : Sweep α κ) : Prop where
  sound : s'.Sound keysOf
  perm : (s'.component ++ s'.remaining).Perm (s.component ++ s.remaining)
  grows : s.component ⊆ s'.component

theorem Swept.trans {s' s'' : Sweep α κ} (h : Swept keysOf s s') (h' : Swept keysOf s' s'') :
    Swept keysOf s s'' :=
  ⟨h'.sound, h'.perm.trans h.perm, fun _ hp => h'.grows (h.grows hp)⟩

theorem Swept.refl (h : s.Sound keysOf) : Swept keysOf s s := ⟨h, .refl _, List.Subset.refl _⟩

variable (keysOf) in
theorem start_sound (p : α) (ps : List α) : (start keysOf p ps).Sound keysOf := by
  refine ⟨fun k => by simp [start], fun x hx y hy => ?_⟩
  obtain rfl := List.mem_singleton.mp hx
  obtain rfl := List.mem_singleton.mp hy
  exact .refl

section
variable [DecidableEq κ] [DecidableEq α]

/-- The element shares a key with the component. -/
def meets (keysOf : α → List κ) (s : Sweep α κ) (p : α) : Bool := (keysOf p).any (· ∈ s.keys)

/-- The step of a sweep; the first element equal to `p` is removed. -/
def take (keysOf : α → List κ) (s : Sweep α κ) (p : α) : Sweep α κ :=
  if s.meets keysOf p then ⟨s.component ++ [p], s.keys ++ keysOf p, s.remaining.erase p⟩ else s

/-- One sweep over the elements that were left when it began. -/
def sweep (keysOf : α → List κ) (s : Sweep α κ) : Sweep α κ := s.remaining.foldl (take keysOf) s

/-- Sweeps until one takes nothing. -/
def grow (keysOf : α → List κ) (s : Sweep α κ) : Sweep α κ :=
  if (s.sweep keysOf).remaining.length < s.remaining.length then (s.sweep keysOf).grow keysOf
  else s.sweep keysOf
termination_by s.remaining.length

end

variable [DecidableEq κ]

theorem meets_iff : s.meets keysOf p = true ↔ ∃ k ∈ keysOf p, k ∈ s.keys := by
  simp [meets]

variable [DecidableEq α]

theorem Sound.take (h : s.Sound keysOf) (p : α) : (s.take keysOf p).Sound keysOf := by
  unfold Sweep.take
  split
  · rename_i hm
    obtain ⟨k, hkp, hk⟩ := meets_iff.mp hm
    obtain ⟨r, hr, hkr⟩ := (h.keys k).mp hk
    have hmono : s.component ⊆ s.component ++ [p] := List.subset_append_left _ _
    have hp : p ∈ s.component ++ [p] := List.mem_append_right _ (List.mem_singleton_self p)
    have hold : ∀ x ∈ s.component, ∀ y ∈ s.component,
        ReflTransGen (Adjacent keysOf (s.component ++ [p])) x y :=
      fun x hx y hy => ReflTransGen.mono (fun _ _ h => h.mono hmono) _ _ (h.linked x hx y hy)
    -- the new element is next to one that was there
    have hnew : Adjacent keysOf (s.component ++ [p]) r p := ⟨hmono hr, hp, k, hkr, hkp⟩
    refine ⟨fun k => ?_, fun x hx y hy => ?_⟩
    · simp only [List.mem_append, h.keys, List.mem_singleton]
      constructor
      · rintro (⟨q, hq, hkq⟩ | hkp)
        · exact ⟨q, .inl hq, hkq⟩
        · exact ⟨p, .inr rfl, hkp⟩
      · rintro ⟨q, hq | rfl, hkq⟩
        · exact .inl ⟨q, hq, hkq⟩
        · exact .inr hkq
    · show ReflTransGen (Adjacent keysOf (s.component ++ [p])) x y
      rcases List.mem_append.mp hx with hx | hx <;> rcases List.mem_append.mp hy with hy | hy
      · exact hold x hx y hy
      · rw [List.mem_singleton.mp hy]
        exact (hold x hx r hr).tail hnew
      · rw [List.mem_singleton.mp hx]
        exact .head hnew.symm (hold r hr y hy)
      · rw [List.mem_singleton.mp hx, List.mem_singleton.mp hy]
  · exact h

/-- One element of those that are left. -/
theorem take_swept (h : s.Sound keysOf) (hp : p ∈ s.remaining) :
    Swept keysOf s (s.take keysOf p) := by
  refine ⟨h.take p, ?_, ?_⟩ <;> unfold Sweep.take <;> split
  · show (s.component ++ [p] ++ s.remaining.erase p).Perm _
    rw [List.append_assoc, List.singleton_append]
    exact (List.perm_cons_erase hp).symm.append_left _
  · exact .refl _
  · exact List.subset_append_left _ _
  · exact List.Subset.refl _

/-- The loop over what was left: when it takes nothing, nothing was to be taken. -/
theorem foldl_take (h : s.Sound keysOf) (kept : List α) {todo : List α}
    (hr : s.remaining.Perm (kept ++ todo)) :
    Swept keysOf s (todo.foldl (take keysOf) s) ∧
      ((todo.foldl (take keysOf) s).remaining.length = s.remaining.length →
        todo.foldl (take keysOf) s = s ∧ ∀ p ∈ todo, s.meets keysOf p = false) ∧
      (todo.foldl (take keysOf) s).remaining.length ≤ s.remaining.length := by
  induction todo generalizing s kept with
  | nil => exact ⟨.refl h, fun _ => ⟨rfl, by simp⟩, Nat.le_refl _⟩
  | cons p todo ih =>
    rw [List.foldl_cons]
    have hp : p ∈ s.remaining := hr.mem_iff.mpr (by simp)
    cases hm : s.meets keysOf p with
    | false =>
      have hs : s.take keysOf p = s := by
        rw [Sweep.take, hm, if_neg Bool.false_ne_true]
      have hr' : s.remaining.Perm (kept ++ [p] ++ todo) := by simpa using hr
      obtain ⟨hswept, hsame, hle⟩ := ih h _ hr'
      rw [hs]
      refine ⟨hswept, fun he => ?_, hle⟩
      obtain ⟨he, hno⟩ := hsame he
      exact ⟨he, fun q hq => (List.mem_cons.mp hq).elim (fun hq => hq ▸ hm) (hno q)⟩
    | true =>
      have hrem : (s.take keysOf p).remaining = s.remaining.erase p := by
        rw [Sweep.take, hm, if_pos rfl]
      have hlen := List.length_erase_of_mem hp
      have hpos := List.length_pos_of_mem hp
      have hr' : (s.take keysOf p).remaining.Perm (kept ++ todo) := by
        rw [hrem]
        refine (hr.erase p).trans ?_
        rw [← List.erase_cons_head p (kept ++ todo)]
        exact List.perm_middle.erase p
      obtain ⟨hswept, -, hle⟩ := ih (h.take p) _ hr'
      rw [hrem] at hle
      exact ⟨(take_swept h hp).trans hswept, by omega, by omega⟩

theorem sweep_swept (h : s.Sound keysOf) : Swept keysOf s (s.sweep keysOf) ∧
    ((s.sweep keysOf).remaining.length = s.remaining.length →
      s.sweep keysOf = s ∧ ∀ p ∈ s.remaining, s.meets keysOf p = false) ∧
    (s.sweep keysOf).remaining.length ≤ s.remaining.length :=
  foldl_take h [] (.refl _)

/-- The component is complete: what is left shares no key with it. -/
theorem grow_spec (h : s.Sound keysOf) : Swept keysOf s (s.grow keysOf) ∧
    ∀ p ∈ (s.grow keysOf).remaining, (s.grow keysOf).meets keysOf p = false := by
  induction hn : s.remaining.length using Nat.strongRecOn generalizing s with
  | ind n ih =>
    obtain ⟨hs, heq, hle⟩ := sweep_swept h
    rw [grow]
    split
    · rename_i hlt
      obtain ⟨hg, hno⟩ := ih _ (hn ▸ hlt) hs.sound rfl
      exact ⟨hs.trans hg, hno⟩
    · rename_i hlt
      obtain ⟨he, hno⟩ := heq (by omega)
      rw [he]
      exact ⟨.refl h, hno⟩

theorem grow_length_le (p : α) (ps : List α) :
    ((start keysOf p ps).grow keysOf).remaining.length ≤ ps.length := by
  obtain ⟨hswept, -⟩ := grow_spec (start_sound keysOf p ps)
  have hlen := hswept.perm.length_eq
  have hpos := List.length_pos_of_mem (hswept.grows (List.mem_singleton_self p))
  simp only [List.length_append] at hlen
  have hstart : (start keysOf p ps).component.length = 1 := rfl
  have hleft : (start keysOf p ps).remaining.length = ps.length := rfl
  omega

end Sweep

/-! ## All components -/

/-- A component with its keys. -/
structure Component (α κ : Type*) where
  members : List α
  keys : List κ

variable [DecidableEq κ] [DecidableEq α] (keysOf : α → List κ)

/-- The first element that is left begins the next component. -/
def components : List α → List (Component α κ)
  | [] => []
  | p :: ps =>
    let grown := (Sweep.start keysOf p ps).grow keysOf
    ⟨grown.component, grown.keys⟩ :: components grown.remaining
termination_by l => l.length
decreasing_by exact Nat.lt_succ_of_le (Sweep.grow_length_le p ps)

variable {keysOf} {l : List α} {c : Component α κ}

/-- Every element is in one component, as often as in the list. -/
theorem components_perm (l : List α) :
    ((components keysOf l).flatMap (·.members)).Perm l := by
  induction l using components.induct keysOf with
  | case1 => rw [components]; exact .refl _
  | case2 p ps grown ih =>
    obtain ⟨hswept, -⟩ := Sweep.grow_spec (Sweep.start_sound keysOf p ps)
    rw [components, List.flatMap_cons]
    exact (ih.append_left _).trans hswept.perm

/-- The keys of a component are those of its members, and its members are connected. -/
theorem components_sound (hc : c ∈ components keysOf l) :
    (∀ k, k ∈ c.keys ↔ ∃ p ∈ c.members, k ∈ keysOf p) ∧
      (∀ p ∈ c.members, ∀ q ∈ c.members,
        ReflTransGen (Sweep.Adjacent keysOf c.members) p q) ∧ c.members ≠ [] := by
  induction l using components.induct keysOf with
  | case1 => rw [components] at hc; cases hc
  | case2 p ps grown ih =>
    rw [components] at hc
    rcases List.mem_cons.mp hc with rfl | hc
    · obtain ⟨hswept, -⟩ := Sweep.grow_spec (Sweep.start_sound keysOf p ps)
      exact ⟨hswept.sound.keys, hswept.sound.linked,
        List.ne_nil_of_mem (hswept.grows (List.mem_singleton_self p))⟩
    · exact ih hc

/-- Different components share no key. -/
theorem components_disjoint (l : List α) :
    (components keysOf l).Pairwise fun c c' => List.Disjoint c.keys c'.keys := by
  induction l using components.induct keysOf with
  | case1 => rw [components]; exact .nil
  | case2 p ps grown ih =>
    obtain ⟨-, hno⟩ := Sweep.grow_spec (Sweep.start_sound keysOf p ps)
    rw [components]
    refine List.pairwise_cons.mpr ⟨fun c hc k hk hk' => ?_, ih⟩
    obtain ⟨q, hq, hkq⟩ := ((components_sound hc).1 k).mp hk'
    have hq : q ∈ grown.remaining :=
      (components_perm _).subset (List.mem_flatMap.mpr ⟨c, hc, hq⟩)
    have := hno q hq
    rw [Bool.eq_false_iff] at this
    exact this (Sweep.meets_iff.mpr ⟨k, hkq, hk⟩)

end MangaManager.Lib
