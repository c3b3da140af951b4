import Mathlib.Data.List.Nodup
import Mathlib.Logic.Function.Iterate

/-!
# Sweeps

A sweep goes through items and repairs those that are wrong; after `limit` repairs it leaves the
others to the next sweep. `Repairs` is what a repair has to do: it sets its own item right and
leaves the others as they are.

`Repairs.sweep_none`: a sweep without a limit leaves nothing wrong. `Repairs.sweep_some`: with a
limit it repairs the first ones, and `Repairs.iterate` what several sweeps leave. A sweep that finds
nothing wrong changes nothing (`sweep_right`).
-/

namespace MangaManager.Lib

variable {σ α : Type*} (wrong : σ → α → Bool) (repair : σ → α → σ)

/-- The state after the loop, and the number of repairs; `changed` were made before. -/
def sweep (limit : Option Nat) (changed : Nat) (s : σ) : List α → σ × Nat
  | [] => (s, changed)
  | a :: l =>
    if wrong s a then
      if limit.any (· ≤ changed + 1) then (repair s a, changed + 1)
      else sweep limit (changed + 1) (repair s a) l
    else sweep limit changed s l

/-- A repair of an item keeps `I`, sets the item right and leaves the other items as they are. -/
structure Repairs (I : σ → Prop) (l : List α) : Prop where
  keeps : ∀ s, I s → ∀ a ∈ l, wrong s a = true → I (repair s a)
  repairs : ∀ s, I s → ∀ a ∈ l, wrong s a = true → wrong (repair s a) a = false
  leaves : ∀ s, I s → ∀ a ∈ l, wrong s a = true → ∀ b ∈ l, b ≠ a → wrong (repair s a) b = wrong s b

variable {wrong repair} {I : σ → Prop} {l : List α} {s : σ} {a : α} {limit : Option Nat}
  {n k : Nat}

/-- Where nothing is wrong, nothing is done. -/
theorem sweep_right (h : ∀ a ∈ l, wrong s a = false) : sweep wrong repair limit n s l = (s, n) := by
  induction l with
  | nil => rfl
  | cons a l ih =>
    unfold sweep
    rw [h a List.mem_cons_self, if_neg Bool.false_ne_true]
    exact ih fun b hb => h b (List.mem_cons_of_mem a hb)

namespace Repairs

theorem tail (h : Repairs wrong repair I (a :: l)) : Repairs wrong repair I l where
  keeps := fun s hs b hb => h.keeps s hs b (List.mem_cons_of_mem a hb)
  repairs := fun s hs b hb => h.repairs s hs b (List.mem_cons_of_mem a hb)
  leaves := fun s hs b hb hw c hc =>
    h.leaves s hs b (List.mem_cons_of_mem a hb) hw c (List.mem_cons_of_mem a hc)

/-- The repair of the first item leaves the same of the others wrong. -/
theorem filter_tail (h : Repairs wrong repair I (a :: l)) (hnd : (a :: l).Nodup) (hs : I s)
    (hw : wrong s a = true) : l.filter (wrong (repair s a)) = l.filter (wrong s) := by
  obtain ⟨hnot, -⟩ := List.nodup_cons.mp hnd
  refine List.filter_congr fun b hb => ?_
  exact h.leaves s hs a List.mem_cons_self hw b (List.mem_cons_of_mem a hb) fun he => hnot (he ▸ hb)

/-- An item that is not gone through is as it was. -/
theorem sweep_other (h : Repairs wrong repair I (a :: l)) (hnd : (a :: l).Nodup) (hs : I s)
    (limit : Option Nat) (n : Nat) :
    I (sweep wrong repair limit n s l).1 ∧
      wrong (sweep wrong repair limit n s l).1 a = wrong s a := by
  obtain ⟨hnot, hnd⟩ := List.nodup_cons.mp hnd
  have hgo : ∀ l' : List α, l' ⊆ l → ∀ n s, I s → I (sweep wrong repair limit n s l').1 ∧
      wrong (sweep wrong repair limit n s l').1 a = wrong s a := by
    intro l'
    induction l' with
    | nil => exact fun _ n s hs => ⟨hs, rfl⟩
    | cons b l' ih =>
      intro hsub n s hs
      have hb : b ∈ a :: l := List.mem_cons_of_mem a (hsub List.mem_cons_self)
      have hne : a ≠ b := fun he => hnot (he ▸ hsub List.mem_cons_self)
      have hsub' : l' ⊆ l := fun c hc => hsub (List.mem_cons_of_mem b hc)
      unfold sweep
      by_cases hw : wrong s b = true
      · have hkeeps := h.keeps s hs b hb hw
        have hleaves := h.leaves s hs b hb hw a List.mem_cons_self hne
        rw [if_pos hw]
        split
        · exact ⟨hkeeps, hleaves⟩
        · obtain ⟨hI, hsame⟩ := ih hsub' (n + 1) (repair s b) hkeeps
          exact ⟨hI, hsame.trans hleaves⟩
      · rw [if_neg hw]
        exact ih hsub' n s hs
  exact hgo l (fun _ h => h) n s hs

/-- A sweep without a limit leaves nothing wrong. -/
theorem sweep_none (h : Repairs wrong repair I l) (hnd : l.Nodup) (hs : I s) :
    I (sweep wrong repair none n s l).1 ∧
      (∀ a ∈ l, wrong (sweep wrong repair none n s l).1 a = false) ∧
      (sweep wrong repair none n s l).2 = n + (l.filter (wrong s)).length := by
  induction l generalizing s n with
  | nil => exact ⟨hs, fun _ ha => (by cases ha), rfl⟩
  | cons a l ih =>
    have hnd' := (List.nodup_cons.mp hnd).2
    by_cases hw : wrong s a = true
    · have hkeeps := h.keeps s hs a List.mem_cons_self hw
      obtain ⟨hI, hright, hcount⟩ := ih (n := n + 1) h.tail hnd' hkeeps
      have hself := (h.sweep_other hnd hkeeps none (n + 1)).2
      rw [h.repairs s hs a List.mem_cons_self hw] at hself
      rw [sweep, if_pos hw, if_neg (by simp)]
      refine ⟨hI, List.forall_mem_cons.mpr ⟨hself, hright⟩, ?_⟩
      rw [hcount, h.filter_tail hnd hs hw, List.filter_cons_of_pos hw, List.length_cons]
      omega
    · obtain ⟨hI, hright, hcount⟩ := ih (n := n) h.tail hnd' hs
      have hself := (h.sweep_other hnd hs none n).2
      rw [Bool.not_eq_true] at hw
      rw [sweep, hw, if_neg Bool.false_ne_true]
      refine ⟨hI, List.forall_mem_cons.mpr ⟨hself.trans hw, hright⟩, ?_⟩
      rw [hcount, List.filter_cons_of_neg (by simp [hw])]

/-- A sweep with a limit repairs the first ones. -/
theorem sweep_some (h : Repairs wrong repair I l) (hnd : l.Nodup) (hs : I s) (hn : n < k) :
    I (sweep wrong repair (some k) n s l).1 ∧
      l.filter (wrong (sweep wrong repair (some k) n s l).1) =
        (l.filter (wrong s)).drop (k - n) ∧
      (sweep wrong repair (some k) n s l).2 = n + min (k - n) (l.filter (wrong s)).length := by
  induction l generalizing s n with
  | nil => exact ⟨hs, (List.drop_nil).symm, by simp [sweep]⟩
  | cons a l ih =>
    have hnd' := (List.nodup_cons.mp hnd).2
    by_cases hw : wrong s a = true
    · have hkeeps := h.keeps s hs a List.mem_cons_self hw
      have hright := h.repairs s hs a List.mem_cons_self hw
      rw [sweep, if_pos hw, List.filter_cons_of_pos hw, List.length_cons]
      by_cases hlast : k ≤ n + 1
      · rw [if_pos (by simpa using hlast), List.filter_cons_of_neg (by simp [hright]),
          h.filter_tail hnd hs hw, show k - n = 1 by omega, List.drop_one, List.tail_cons]
        exact ⟨hkeeps, rfl, by simp⟩
      · rw [if_neg (by simpa using hlast)]
        obtain ⟨hI, hleft, hcount⟩ := ih h.tail hnd' hkeeps (Nat.not_le.mp hlast)
        have hself := (h.sweep_other hnd hkeeps (some k) (n + 1)).2
        rw [hright] at hself
        rw [List.filter_cons_of_neg (by simp [hself]), hleft, hcount, h.filter_tail hnd hs hw,
          show k - n = (k - (n + 1)) + 1 by omega, List.drop_succ_cons]
        exact ⟨hI, rfl, by omega⟩
    · obtain ⟨hI, hleft, hcount⟩ := ih h.tail hnd' hs hn
      have hself := (h.sweep_other hnd hs (some k) n).2
      rw [Bool.not_eq_true] at hw
      rw [sweep, hw, if_neg Bool.false_ne_true, List.filter_cons_of_neg (by simp [hself.trans hw]),
        List.filter_cons_of_neg (by simp [hw])]
      exact ⟨hI, hleft, hcount⟩

/-- What `m` sweeps leave. -/
theorem iterate (h : Repairs wrong repair I l) (hnd : l.Nodup) (hs : I s) (hk : 0 < k) (m : Nat) :
    I ((fun s => (sweep wrong repair (some k) 0 s l).1)^[m] s) ∧
      l.filter (wrong ((fun s => (sweep wrong repair (some k) 0 s l).1)^[m] s)) =
        (l.filter (wrong s)).drop (m * k) := by
  induction m with
  | zero => exact ⟨hs, by simp⟩
  | succ m ih =>
    rw [Function.iterate_succ_apply']
    obtain ⟨hI, hleft, -⟩ := h.sweep_some hnd ih.1 hk
    refine ⟨hI, ?_⟩
    rw [hleft, ih.2, List.drop_drop, Nat.succ_mul, Nat.sub_zero]

end Repairs

end MangaManager.Lib
