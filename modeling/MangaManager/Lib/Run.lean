import Mathlib.Data.List.Induction

/-!
# Runs of a labelled transition system

`Run step s₀ tr s`: from `s₀` the labelled steps recorded in `tr` lead to `s`.
Each entry of `tr` is the state a step started in, with the step's label, so a
run carries its own history. `Run.Visits` says a state was passed through,
`Run.Later` that one was after another, and `Run.Since` that a step of one sort
happened and none of another sort after it.

The rules: `Run.invariant` (a property kept by every step that meets a side
condition; `Run.recorded`, when it speaks of the history), `Run.mem_step` (a
recorded step happened, after a shorter run), `Run.always_iff` (the property
holds all along a run exactly when every step meets the condition, provided a
step outside it breaks the property at once), and `Run.later_iff` (the same of a
transitive relation between the earlier and the later states).
-/

namespace MangaManager.Lib

variable {σ α : Type*} {step : σ → α → σ → Prop} {s₀ s s' : σ} {a : α}
  {tr tr' : List (σ × α)} {P I : σ → Prop} {C : σ → α → Prop}

inductive Run (step : σ → α → σ → Prop) (s₀ : σ) : List (σ × α) → σ → Prop where
  | nil : Run step s₀ [] s₀
  | snoc {tr : List (σ × α)} {s s' : σ} {a : α} : Run step s₀ tr s → step s a s' →
      Run step s₀ (tr ++ [(s, a)]) s'

/-- The states a run passes through, its last one included. -/
def Run.Visits (tr : List (σ × α)) (s x : σ) : Prop := x = s ∨ ∃ a, (x, a) ∈ tr

/-- A step started in `x`, and the run passed through `y` after it. -/
def Run.Later (tr : List (σ × α)) (s x y : σ) : Prop :=
  ∃ tr₁ a tr₂, tr = tr₁ ++ (x, a) :: tr₂ ∧ Visits tr₂ s y

/-- A step of `A` happened, and none of `B` since. -/
def Run.Since (A B : σ → α → Prop) (tr : List (σ × α)) : Prop :=
  ∃ tr₁ x tr₂, tr = tr₁ ++ x :: tr₂ ∧ A x.1 x.2 ∧ ∀ y ∈ tr₂, ¬ B y.1 y.2

/-- Every step of the history meets the side condition `C`. -/
def Run.Meets (C : σ → α → Prop) (tr : List (σ × α)) : Prop := ∀ x ∈ tr, C x.1 x.2

namespace Run

@[simp] theorem meets_nil : Meets C ([] : List (σ × α)) := by simp [Meets]

@[simp] theorem meets_snoc : Meets C (tr ++ [(s, a)]) ↔ Meets C tr ∧ C s a := by
  simp only [Meets, List.mem_append, List.mem_singleton]
  constructor
  · intro h
    exact ⟨fun x hx => h x (.inl hx), h (s, a) (.inr rfl)⟩
  · rintro ⟨h, ha⟩ x (hx | rfl)
    · exact h x hx
    · exact ha

theorem visits_last : Visits tr s s := .inl rfl

theorem visits_snoc {x : σ} : Visits (tr ++ [(s, a)]) s' x ↔ x = s' ∨ Visits tr s x := by
  simp only [Visits, List.mem_append, List.mem_singleton, Prod.mk.injEq]
  constructor
  · rintro (rfl | ⟨b, hb | ⟨rfl, rfl⟩⟩)
    · exact .inl rfl
    · exact .inr (.inr ⟨b, hb⟩)
    · exact .inr (.inl rfl)
  · rintro (rfl | rfl | ⟨b, hb⟩)
    · exact .inl rfl
    · exact .inr ⟨a, .inr ⟨rfl, rfl⟩⟩
    · exact .inr ⟨b, .inl hb⟩

theorem not_later_nil {x y : σ} : ¬ Later ([] : List (σ × α)) s x y := by
  rintro ⟨tr₁, b, tr₂, he, -⟩
  simp at he

theorem later_snoc {x y : σ} : Later (tr ++ [(s, a)]) s' x y ↔
    Later tr s x y ∨ (Visits tr s x ∧ y = s') := by
  constructor
  · rintro ⟨tr₁, b, tr₂, he, hy⟩
    rcases List.eq_nil_or_concat tr₂ with rfl | ⟨tr₂, z, rfl⟩
    · obtain ⟨-, hx⟩ := List.append_inj' he rfl
      obtain ⟨rfl, rfl⟩ := Prod.mk.injEq .. ▸ List.singleton_inj.mp hx
      exact .inr ⟨visits_last, hy.resolve_right fun ⟨_, h⟩ => (by cases h)⟩
    · rw [List.concat_eq_append, ← List.cons_append, ← List.append_assoc] at he
      obtain ⟨rfl, hz⟩ := List.append_inj' he rfl
      obtain rfl := List.singleton_inj.mp hz
      rw [List.concat_eq_append] at hy
      rcases visits_snoc.mp hy with rfl | hy
      · exact .inr ⟨.inr ⟨b, by simp⟩, rfl⟩
      · exact .inl ⟨tr₁, b, tr₂, rfl, hy⟩
  · rintro (⟨tr₁, b, tr₂, rfl, hy⟩ | ⟨rfl | ⟨b, hb⟩, rfl⟩)
    · exact ⟨tr₁, b, tr₂ ++ [(s, a)], by simp, visits_snoc.mpr (.inr hy)⟩
    · exact ⟨tr, a, [], rfl, visits_last⟩
    · obtain ⟨tr₁, tr₂, rfl⟩ := List.append_of_mem hb
      exact ⟨tr₁, b, tr₂ ++ [(s, a)], by simp, visits_snoc.mpr (.inl rfl)⟩

theorem not_since_nil {A B : σ → α → Prop} : ¬ Since A B ([] : List (σ × α)) := by
  rintro ⟨tr₁, x, tr₂, he, -⟩
  simp at he

theorem since_snoc {A B : σ → α → Prop} :
    Since A B (tr ++ [(s, a)]) ↔ A s a ∨ (Since A B tr ∧ ¬ B s a) := by
  constructor
  · rintro ⟨tr₁, x, tr₂, he, hx, hno⟩
    rcases List.eq_nil_or_concat tr₂ with rfl | ⟨tr₂, y, rfl⟩
    · obtain ⟨-, hy⟩ := List.append_inj' he rfl
      obtain rfl := List.singleton_inj.mp hy
      exact .inl hx
    · rw [List.concat_eq_append, ← List.cons_append, ← List.append_assoc] at he
      obtain ⟨rfl, hy⟩ := List.append_inj' he rfl
      obtain rfl := List.singleton_inj.mp hy
      exact .inr ⟨⟨tr₁, x, tr₂, rfl, hx, fun z hz => hno z (by simp [hz])⟩,
        hno (s, a) (by simp)⟩
  · rintro (h | ⟨⟨tr₁, x, tr₂, rfl, hx, hno⟩, hl⟩)
    · exact ⟨tr, (s, a), [], rfl, h, fun y hy => by cases hy⟩
    · refine ⟨tr₁, x, tr₂ ++ [(s, a)], by simp, hx, fun y hy => ?_⟩
      rcases List.mem_append.mp hy with hy | hy
      · exact hno y hy
      · obtain rfl := List.mem_singleton.mp hy
        exact hl

theorem single (h : step s₀ a s) : Run step s₀ [(s₀, a)] s := .snoc .nil h

/-- A property of the history and the state, kept by every step that meets `C`. -/
theorem recorded {R : List (σ × α) → σ → Prop} (h : Run step s₀ tr s) (hc : Meets C tr)
    (h₀ : R [] s₀)
    (hs : ∀ tr s a s', C s a → R tr s → step s a s' → R (tr ++ [(s, a)]) s') : R tr s := by
  induction h with
  | nil => exact h₀
  | snoc _ hstep ih =>
    rw [meets_snoc] at hc
    exact hs _ _ _ _ hc.2 (ih hc.1) hstep

/-- A property kept by every step that meets `C` holds at the end of a run that meets `C`. -/
theorem invariant (h : Run step s₀ tr s) (hc : Meets C tr) (h₀ : P s₀)
    (hs : ∀ s a s', C s a → P s → step s a s' → P s') : P s :=
  h.recorded (R := fun _ => P) hc h₀ fun _ => hs

/-- The same, of every state the run passes through. -/
theorem invariant_visits (h : Run step s₀ tr s) (hc : Meets C tr) (h₀ : P s₀)
    (hs : ∀ s a s', C s a → P s → step s a s' → P s') : ∀ x, Visits tr s x → P x := by
  induction h with
  | nil =>
    rintro x (rfl | ⟨_, hx⟩)
    · exact h₀
    · cases hx
  | snoc hrun hstep ih =>
    rw [meets_snoc] at hc
    intro x hx
    rcases visits_snoc.mp hx with rfl | hx
    · exact hs _ _ _ hc.2 (ih hc.1 _ visits_last) hstep
    · exact ih hc.1 x hx

/-- An invariant of all steps holds at the end of every run. -/
theorem always (h : Run step s₀ tr s) (h₀ : P s₀)
    (hs : ∀ s a s', P s → step s a s' → P s') : P s :=
  h.invariant (C := fun _ _ => True) (fun _ _ => trivial) h₀ fun s a s' _ => hs s a s'

/-- Every recorded step started at the end of a shorter run. -/
theorem mem_step (h : Run step s₀ tr s) (hm : (s', a) ∈ tr) :
    ∃ tr' s'', Run step s₀ tr' s' ∧ step s' a s'' ∧ tr' ++ [(s', a)] <+: tr := by
  induction h with
  | nil => cases hm
  | snoc hrun hstep ih =>
    rcases List.mem_append.mp hm with hm | hm
    · obtain ⟨tr', s'', h1, h2, h3⟩ := ih hm
      exact ⟨tr', s'', h1, h2, h3.trans (List.prefix_append _ _)⟩
    · obtain ⟨rfl, rfl⟩ := Prod.mk.injEq .. ▸ List.mem_singleton.mp hm
      exact ⟨_, _, hrun, hstep, List.prefix_rfl⟩

/-- A history that was recorded before the last steps is that of a shorter run. -/
theorem of_prefix (h : Run step s₀ tr s) (hp : tr' ++ [(s', a)] <+: tr) :
    ∃ s'', Run step s₀ tr' s' ∧ step s' a s'' := by
  induction h with
  | nil => simp at hp
  | snoc hrun hstep ih =>
    rcases List.prefix_concat_iff.mp hp with he | hp
    · obtain ⟨rfl, hlast⟩ := List.append_inj' he rfl
      obtain ⟨rfl, rfl⟩ := Prod.mk.injEq .. ▸ List.singleton_inj.mp hlast
      exact ⟨_, hrun, hstep⟩
    · exact ih hp

/-- Every state passed through is the end of a shorter run. -/
theorem of_visits (h : Run step s₀ tr s) {x : σ} (hx : Visits tr s x) :
    ∃ tr', Run step s₀ tr' x ∧ tr' <+: tr := by
  rcases hx with rfl | ⟨a, ha⟩
  · exact ⟨tr, h, List.prefix_rfl⟩
  · obtain ⟨tr', -, h1, -, h3⟩ := h.mem_step ha
    exact ⟨tr', h1, (List.prefix_append _ _).trans h3⟩

/-- `I` is an invariant of all steps. From `I` and `Q`, a step of `D` that meets `C` keeps `Q`, and
one after which `P` holds meets `C`. Then along a run of such steps `P` holds exactly when every
step meets `C`. -/
theorem always_iff_of {D : σ → α → Prop} {Q : σ → Prop} (h : Run step s₀ tr s) (hd : Meets D tr)
    (hI₀ : I s₀) (hQ₀ : Q s₀) (hI : ∀ s a s', I s → step s a s' → I s') (hQP : ∀ s, Q s → P s)
    (hQ : ∀ s a s', I s → D s a → Q s → C s a → step s a s' → Q s')
    (hP : ∀ s a s', I s → D s a → Q s → P s' → step s a s' → C s a) :
    (∀ x, Visits tr s x → P x) ↔ Meets C tr := by
  have hmeets : Meets C tr → ∀ x, Visits tr s x → P x := fun hc x hx => by
    have hinv := h.invariant_visits (C := fun s a => D s a ∧ C s a)
      (P := fun s => I s ∧ Q s) (fun y hy => ⟨hd y hy, hc y hy⟩) ⟨hI₀, hQ₀⟩
      fun s a s' hda hs hstep => ⟨hI s a s' hs.1 hstep, hQ s a s' hs.1 hda.1 hs.2 hda.2 hstep⟩
    exact hQP x (hinv x hx).2
  refine ⟨fun hp => ?_, hmeets⟩
  clear hmeets
  induction h with
  | nil => exact meets_nil
  | @snoc tr s s' a hrun hstep ih =>
    rw [meets_snoc] at hd ⊢
    have hc := ih hd.1 fun x hx => hp x (visits_snoc.mpr (.inr hx))
    have hQs : I s ∧ Q s := hrun.invariant (C := fun s a => D s a ∧ C s a)
      (P := fun s => I s ∧ Q s) (fun y hy => ⟨hd.1 y hy, hc y hy⟩) ⟨hI₀, hQ₀⟩
      fun s a s' hda hs hstep => ⟨hI s a s' hs.1 hstep, hQ s a s' hs.1 hda.1 hs.2 hda.2 hstep⟩
    exact ⟨hc, hP s a s' hQs.1 hd.2 hQs.2 (hp s' visits_last) hstep⟩

/-- When a step from `I` and `P` meets `C` exactly when it keeps `P`, then `P` holds all along a
run exactly when every step meets `C`. -/
theorem always_iff (h : Run step s₀ tr s) (hI₀ : I s₀) (hP₀ : P s₀)
    (hI : ∀ s a s', I s → step s a s' → I s')
    (hP : ∀ s a s', I s → P s → step s a s' → (P s' ↔ C s a)) :
    (∀ x, Visits tr s x → P x) ↔ Meets C tr :=
  h.always_iff_of (D := fun _ _ => True) (Q := P) (fun _ _ => trivial) hI₀ hP₀ hI (fun _ h => h)
    (fun s a s' hi _ hp hc hs => (hP s a s' hi hp hs).mpr hc)
    fun s a s' hi _ hp hp' hs => (hP s a s' hi hp hs).mp hp'

/-- When every step that meets `C` keeps `I` and is in the transitive relation `R`, so are all
earlier and later states of the run. -/
theorem later {R : σ → σ → Prop} (h : Run step s₀ tr s) (hc : Meets C tr) (hI₀ : I s₀)
    (hstep : ∀ s a s', C s a → I s → step s a s' → I s' ∧ R s s')
    (htrans : ∀ x y z, R x y → R y z → R x z) : ∀ x y, Later tr s x y → R x y := by
  induction h with
  | nil => exact fun x y h => absurd h not_later_nil
  | @snoc tr s s' a hrun hs ih =>
    rw [meets_snoc] at hc
    have hIs : I s := hrun.invariant hc.1 hI₀ fun s a s' hc hI hs => (hstep s a s' hc hI hs).1
    have hlast := (hstep s a s' hc.2 hIs hs).2
    intro x y hxy
    rcases later_snoc.mp hxy with hxy | ⟨rfl | ⟨b, hb⟩, rfl⟩
    · exact ih hc.1 x y hxy
    · exact hlast
    · obtain ⟨tr₁, tr₂, rfl⟩ := List.append_of_mem hb
      exact htrans x s _ (ih hc.1 x s ⟨tr₁, b, tr₂, rfl, visits_last⟩) hlast

/-- When a step from `I` is in the transitive relation `R` exactly when it meets `C`, then all
earlier and later states are in `R` exactly when every step meets `C`. -/
theorem later_iff {R : σ → σ → Prop} (h : Run step s₀ tr s) (hI₀ : I s₀)
    (hI : ∀ s a s', I s → step s a s' → I s') (htrans : ∀ x y z, R x y → R y z → R x z)
    (hR : ∀ s a s', I s → step s a s' → (R s s' ↔ C s a)) :
    (∀ x y, Later tr s x y → R x y) ↔ Meets C tr := by
  induction h with
  | nil => exact ⟨fun _ => meets_nil, fun _ x y h => absurd h not_later_nil⟩
  | @snoc tr s s' a hrun hstep ih =>
    have hIs : I s := hrun.always hI₀ hI
    rw [meets_snoc, ← ih, ← hR s a s' hIs hstep]
    constructor
    · intro hall
      exact ⟨fun x y hxy => hall x y (later_snoc.mpr (.inl hxy)),
        hall s s' (later_snoc.mpr (.inr ⟨visits_last, rfl⟩))⟩
    · rintro ⟨hall, hlast⟩ x y hxy
      rcases later_snoc.mp hxy with hxy | ⟨rfl | ⟨b, hb⟩, rfl⟩
      · exact hall x y hxy
      · exact hlast
      · obtain ⟨tr₁, tr₂, rfl⟩ := List.append_of_mem hb
        exact htrans x s _ (hall x s ⟨tr₁, b, tr₂, rfl, visits_last⟩) hlast

/-- The states and labels passed when `f` computes the steps. -/
def history (f : σ → α → σ) : σ → List α → List (σ × α)
  | _, [] => []
  | s, a :: l => (s, a) :: history f (f s a) l

theorem history_snoc (f : σ → α → σ) (l : List α) (a : α) :
    ∀ s, history f s (l ++ [a]) = history f s l ++ [(l.foldl f s, a)] := by
  induction l with
  | nil => intro s; rfl
  | cons b l ih => intro s; simp [history, ih]

/-- Computed steps that are steps make a run. -/
theorem of_foldl (f : σ → α → σ) (l : List α)
    (h : ∀ x ∈ history f s₀ l, step x.1 x.2 (f x.1 x.2)) :
    Run step s₀ (history f s₀ l) (l.foldl f s₀) := by
  induction l using List.reverseRecOn with
  | nil => exact .nil
  | append_singleton l a ih =>
    simp only [history_snoc, List.mem_append, List.mem_singleton] at h
    rw [history_snoc, List.foldl_append]
    exact .snoc (ih fun x hx => h x (.inl hx)) (h _ (.inr rfl))

end Run

end MangaManager.Lib
