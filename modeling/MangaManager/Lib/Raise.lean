import Mathlib.Init

/-!
# Loops that may raise

Rules for `List.foldlM` in `Except`: what every round keeps holds at the end
(`foldlM_inv`), and a loop whose rounds succeed succeeds (`foldlM_ok`). `mapM_exists` and
`mapM_eq_some` are the same of a list of lookups.
-/

namespace MangaManager.Lib

variable {α β ε : Type*} {f : β → α → Except ε β} {l : List α} {b b' : β}

theorem map_eq_ok {γ : Type*} {g : β → γ} {x : Except ε β} {c : γ} :
    x.map g = .ok c ↔ ∃ b, x = .ok b ∧ g b = c := by
  cases x with
  | error e => exact ⟨fun h => (by cases h), fun ⟨b, h, _⟩ => (by cases h)⟩
  | ok b =>
    constructor
    · intro h
      exact ⟨b, rfl, Except.ok.inj h⟩
    · rintro ⟨b, h, rfl⟩
      cases h
      rfl

theorem foldlM_cons_eq_ok {a : α} : (a :: l).foldlM f b = .ok b' ↔
    ∃ b₁, f b a = .ok b₁ ∧ l.foldlM f b₁ = .ok b' := by
  rw [List.foldlM_cons]
  cases h : f b a with
  | error e => exact ⟨fun h => (by cases h), fun ⟨b, h, _⟩ => (by cases h)⟩
  | ok b₁ =>
    constructor
    · intro hl
      exact ⟨b₁, rfl, hl⟩
    · rintro ⟨b₂, he, hl⟩
      cases he
      exact hl

/-- What every round keeps holds at the end. -/
theorem foldlM_inv {P : β → Prop} (h : l.foldlM f b = .ok b') (hb : P b)
    (hs : ∀ b a b', a ∈ l → P b → f b a = .ok b' → P b') : P b' := by
  induction l generalizing b with
  | nil =>
    cases h
    exact hb
  | cons a l ih =>
    obtain ⟨b₁, hf, hl⟩ := foldlM_cons_eq_ok.mp h
    exact ih hl (hs b a b₁ (List.mem_cons_self) hb hf)
      fun b a b' ha => hs b a b' (List.mem_cons_of_mem _ ha)

/-- A loop whose rounds succeed where `P` holds, and keep it, succeeds. -/
theorem foldlM_ok {P : β → Prop} (hb : P b)
    (hs : ∀ b a, a ∈ l → P b → ∃ b', f b a = .ok b' ∧ P b') : ∃ b', l.foldlM f b = .ok b' := by
  induction l generalizing b with
  | nil => exact ⟨b, rfl⟩
  | cons a l ih =>
    obtain ⟨b₁, hf, hb₁⟩ := hs b a (List.mem_cons_self) hb
    obtain ⟨b', hl⟩ := ih hb₁ fun b a ha => hs b a (List.mem_cons_of_mem _ ha)
    exact ⟨b', foldlM_cons_eq_ok.mpr ⟨b₁, hf, hl⟩⟩

/-- Lookups that all succeed, with what they find. -/
theorem mapM_exists {γ : Type*} {g : α → Option γ} {P : α → γ → Prop}
    (h : ∀ x ∈ l, ∃ y, g x = some y ∧ P x y) :
    ∃ ys, l.mapM g = some ys ∧ (∀ x ∈ l, ∃ y ∈ ys, P x y) ∧ ∀ y ∈ ys, ∃ x ∈ l, P x y := by
  induction l with
  | nil => exact ⟨[], rfl, by simp, by simp⟩
  | cons x l ih =>
    obtain ⟨y, hy, hp⟩ := h x List.mem_cons_self
    obtain ⟨ys, hys, hfor, hback⟩ := ih fun z hz => h z (List.mem_cons_of_mem _ hz)
    refine ⟨y :: ys, by rw [List.mapM_cons, hy, hys]; rfl, fun z hz => ?_, fun z hz => ?_⟩
    · rcases List.mem_cons.mp hz with rfl | hz
      · exact ⟨y, List.mem_cons_self, hp⟩
      · obtain ⟨w, hw, hpw⟩ := hfor z hz
        exact ⟨w, List.mem_cons_of_mem _ hw, hpw⟩
    · rcases List.mem_cons.mp hz with rfl | hz
      · exact ⟨x, List.mem_cons_self, hp⟩
      · obtain ⟨w, hw, hpw⟩ := hback z hz
        exact ⟨w, List.mem_cons_of_mem _ hw, hpw⟩

theorem mapM_eq_some {γ : Type*} {g : α → Option γ} {v : α → γ} (h : ∀ x ∈ l, g x = some (v x)) :
    l.mapM g = some (l.map v) := by
  induction l with
  | nil => rfl
  | cons x l ih =>
    rw [List.mapM_cons, h x List.mem_cons_self, ih fun y hy => h y (List.mem_cons_of_mem _ hy)]
    rfl

end MangaManager.Lib
