import MangaManager.Lib.Run

/-!
# Fencing by holder

Steps of a transition system may grant a resource `k` to a holder `o`
(`grants s a = some (k, o)`); `H s k o` says who holds it. `lastGrant` reads
the latest grant of a resource off a history, and a holder is superseded once
another one was granted the resource after it. When every holding goes back to
the latest grant, a superseded holder holds nothing (`Superseded.not_holds`), so
a system that checks the holder's name on each step is fenced.
-/

namespace MangaManager.Lib

variable {σ α κ ω : Type*} [DecidableEq κ] {step : σ → α → σ → Prop}
  {grants : σ → α → Option (κ × ω)} {H : σ → κ → ω → Prop}
  {s₀ s s' : σ} {a : α} {tr : List (σ × α)} {k : κ} {o w : ω}

/-- The latest holder `k` was granted to in a history. -/
def lastGrant (grants : σ → α → Option (κ × ω)) (tr : List (σ × α)) (k : κ) : Option ω :=
  tr.foldl (fun last x => match grants x.1 x.2 with
    | some (k', o) => if k' = k then some o else last
    | none => last) none

/-- `w` was granted `k`, and another holder has been granted it since. -/
def Superseded (grants : σ → α → Option (κ × ω)) (tr : List (σ × α)) (w : ω) (k : κ) : Prop :=
  (∃ x ∈ tr, grants x.1 x.2 = some (k, w)) ∧ ∃ o, lastGrant grants tr k = some o ∧ o ≠ w

theorem lastGrant_snoc_self (h : grants s a = some (k, o)) :
    lastGrant grants (tr ++ [(s, a)]) k = some o := by
  simp [lastGrant, h]

theorem lastGrant_snoc_of_ne (h : ∀ o, grants s a ≠ some (k, o)) :
    lastGrant grants (tr ++ [(s, a)]) k = lastGrant grants tr k := by
  rw [lastGrant, List.foldl_append, List.foldl_cons, List.foldl_nil]
  split
  · rename_i k' o hg
    refine if_neg fun e => h o ?_
    rw [← e]
    exact hg
  · rfl

/-- Whoever holds a resource was the last to be granted it, when a step only lets the holder
it grants to, or one it does not grant past, hold the resource. -/
theorem Run.holds_lastGrant (h : Run step s₀ tr s) (h₀ : ∀ k o, ¬ H s₀ k o)
    (hstep : ∀ tr s a s', Run step s₀ tr s → step s a s' → ∀ k o, H s' k o →
      grants s a = some (k, o) ∨ (H s k o ∧ ∀ o', grants s a ≠ some (k, o')))
    (hh : H s k o) : lastGrant grants tr k = some o := by
  induction h generalizing k o with
  | nil => exact absurd hh (h₀ k o)
  | snoc hrun hs ih =>
    rcases hstep _ _ _ _ hrun hs k o hh with hg | ⟨hh, hg⟩
    · exact lastGrant_snoc_self hg
    · rw [lastGrant_snoc_of_ne hg]
      exact ih hh

theorem Superseded.not_holds (h : Superseded grants tr w k)
    (hlast : ∀ o, H s k o → lastGrant grants tr k = some o) : ¬ H s k w := by
  intro hh
  obtain ⟨-, o, ho, hne⟩ := h
  exact hne (Option.some.inj (ho.symm.trans (hlast w hh)))

end MangaManager.Lib
