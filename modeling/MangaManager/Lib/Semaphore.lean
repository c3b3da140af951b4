import Mathlib.Data.List.Nodup
import Mathlib.Order.Basic

/-!
# Expiring permits

Permits are rows with a pool and an expiry; `inUse` counts the unexpired ones of
a pool. The rules say what each way of changing the rows does to the count: time
passing, dropping rows, moving expiries without reviving an expired permit, and
adding rows with at most one per pool.
-/

namespace MangaManager.Lib.Semaphore

variable {α π τ : Type*}

/-- The unexpired permits of pool `p`. -/
def inUse [DecidableEq π] [LT τ] [DecidableLT τ] (pool : α → π) (expires : α → τ) (rows : List α)
    (now : τ) (p : π) : Nat :=
  rows.countP fun r => pool r == p && decide (now < expires r)

variable [DecidableEq π] [Preorder τ] [DecidableLT τ] {pool : α → π} {expires : α → τ}
  {rows new : List α} {now later : τ} {p : π}

theorem inUse_later (h : now ≤ later) :
    inUse pool expires rows later p ≤ inUse pool expires rows now p := by
  refine List.countP_mono_left fun r _ hr => ?_
  simp only [Bool.and_eq_true, decide_eq_true_eq] at hr ⊢
  exact ⟨hr.1, lt_of_le_of_lt h hr.2⟩

theorem inUse_filter_le (keep : α → Bool) :
    inUse pool expires (rows.filter keep) now p ≤ inUse pool expires rows now p :=
  List.Sublist.countP_le List.filter_sublist

/-- Dropping expired permits frees nothing. -/
theorem inUse_filter_eq (keep : α → Bool)
    (h : ∀ r ∈ rows, keep r = false → ¬ now < expires r) :
    inUse pool expires (rows.filter keep) now p = inUse pool expires rows now p := by
  rw [inUse, List.countP_filter]
  refine List.countP_congr fun r hr => ?_
  by_cases hk : keep r = true
  · simp [hk]
  · have hx := h r hr (by simpa using hk)
    simp [hk, hx]

theorem inUse_map_le {f : α → α} (hp : ∀ r ∈ rows, pool (f r) = pool r)
    (h : ∀ r ∈ rows, now < expires (f r) → now < expires r) :
    inUse pool expires (rows.map f) now p ≤ inUse pool expires rows now p := by
  rw [inUse, List.countP_map]
  refine List.countP_mono_left fun r hr hc => ?_
  simp only [Function.comp, Bool.and_eq_true, decide_eq_true_eq] at hc ⊢
  exact ⟨hp r hr ▸ hc.1, h r hr hc.2⟩

theorem inUse_append : inUse pool expires (rows ++ new) now p =
    inUse pool expires rows now p + inUse pool expires new now p := List.countP_append

theorem inUse_eq_zero (h : ∀ r ∈ new, pool r ≠ p) : inUse pool expires new now p = 0 := by
  rw [inUse, List.countP_eq_zero]
  intro r hr
  simp [h r hr]

theorem inUse_le_one (h : (new.map pool).Nodup) : inUse pool expires new now p ≤ 1 := by
  have hle : inUse pool expires new now p ≤ (new.map pool).count p := by
    rw [inUse, List.count, List.countP_map]
    refine List.countP_mono_left fun r _ hc => ?_
    simp only [Bool.and_eq_true] at hc
    exact hc.1
  exact Nat.le_trans hle (List.nodup_iff_count_le_one.mp h p)

end MangaManager.Lib.Semaphore
