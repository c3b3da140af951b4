import Mathlib.Data.List.Induction
import Mathlib.Data.List.Sort

/-!
# Reading a keyed log from a cursor

`ahead key rows c` is what a reader at the cursor `c` has yet to read, in the order
of the keys; a page is the first `n` of them, and `next` the cursor after a page.
`readPages` reads page after page. What it returns is the beginning of what was
ahead (`readPages_eq`), so every row ahead is read, and once (`readPages_complete`).
-/

namespace MangaManager.Lib.Cursor

variable {α κ : Type*} (key : α → κ)

/-- The cursor after a page. -/
def next (c : κ) (page : List α) : κ := (page.getLast?.map key).getD c

theorem next_eq_or (c : κ) (page : List α) :
    (page = [] ∧ next key c page = c) ∨ ∃ x ∈ page, next key c page = key x := by
  unfold next
  cases h : page.getLast? with
  | none => exact .inl ⟨List.getLast?_eq_none_iff.mp h, rfl⟩
  | some x => exact .inr ⟨x, List.mem_of_getLast? h, rfl⟩

variable [LinearOrder κ]

/-- The rows after the cursor, by key. -/
def ahead (rows : List α) (c : κ) : List α :=
  (rows.filter fun x => c < key x).insertionSort fun x y => key x ≤ key y

/-- `k` pages of `n` rows, from the cursor `c`. -/
def readPages (rows : List α) (n : ℕ) : ℕ → κ → List α
  | 0, _ => []
  | k + 1, c =>
    let page := (ahead key rows c).take n
    page ++ readPages rows n k (next key c page)

variable {key} {rows page : List α} {c : κ} {x : α} {n k : ℕ}

@[simp] theorem mem_ahead : x ∈ ahead key rows c ↔ x ∈ rows ∧ c < key x := by
  simp [ahead, List.mem_insertionSort]

theorem ahead_sorted (hk : (rows.map key).Nodup) :
    (ahead key rows c).Pairwise fun x y => key x < key y := by
  have htotal : Std.Total fun x y : α => key x ≤ key y := ⟨fun x y => le_total (key x) (key y)⟩
  have htrans : IsTrans α fun x y => key x ≤ key y := ⟨fun _ _ _ => le_trans⟩
  have hle : (ahead key rows c).Pairwise fun x y => key x ≤ key y :=
    List.pairwise_insertionSort _ _
  have hperm : (ahead key rows c).Perm (rows.filter fun x => c < key x) :=
    List.perm_insertionSort _ _
  have hne : (ahead key rows c).Pairwise fun x y => key x ≠ key y := by
    rw [← List.pairwise_map, ← List.nodup_iff_pairwise_ne, (hperm.map key).nodup_iff]
    exact hk.sublist (List.filter_sublist.map _)
  exact (hle.and hne).imp fun h => lt_of_le_of_ne h.1 h.2

/-- Every row of a sorted page is before the next cursor. -/
theorem le_next (key : α → κ) (c : κ) (hp : page.Pairwise fun x y => key x < key y) (hx : x ∈ page) :
    key x ≤ next key c page := by
  induction page using List.reverseRecOn with
  | nil => cases hx
  | append_singleton page y _ =>
    rw [next, List.getLast?_concat]
    rcases List.mem_append.mp hx with hx | hx
    · exact ((List.pairwise_append.mp hp).2.2 x hx y (List.mem_singleton.mpr rfl)).le
    · exact (List.mem_singleton.mp hx ▸ le_rfl)

theorem cursor_le_next (h : ∀ x ∈ page, c < key x) : c ≤ next key c page := by
  rcases next_eq_or key c page with ⟨-, he⟩ | ⟨x, hx, he⟩
  · exact he.ge
  · exact he ▸ (h x hx).le

/-- After a page, the rest of what was ahead is ahead. -/
theorem ahead_next (hk : (rows.map key).Nodup) :
    ahead key rows (next key c ((ahead key rows c).take n)) = (ahead key rows c).drop n := by
  have hirrefl : Std.Irrefl fun x y : α => key x < key y := ⟨fun _ => lt_irrefl _⟩
  have hasymm : Std.Antisymm fun x y : α => key x < key y :=
    ⟨fun _ _ h h' => absurd h h'.not_gt⟩
  have hs := ahead_sorted (c := c) hk
  have hpage : ∀ x ∈ (ahead key rows c).take n, c < key x :=
    fun x hx => (mem_ahead.mp (List.mem_of_mem_take hx)).2
  have hsplit := List.take_append_drop n (ahead key rows c)
  have hcross := (List.pairwise_append.mp (hsplit.symm ▸ hs)).2.2
  refine List.Pairwise.eq_of_mem_iff (ahead_sorted hk) (hs.sublist (List.drop_sublist n _)) ?_
  intro x
  rw [mem_ahead]
  constructor
  · rintro ⟨hx, hlt⟩
    have hmem : x ∈ ahead key rows c := mem_ahead.mpr ⟨hx, (cursor_le_next hpage).trans_lt hlt⟩
    rw [← hsplit] at hmem
    refine (List.mem_append.mp hmem).resolve_left fun hx => ?_
    exact absurd hlt (le_next key _ (hs.sublist (List.take_sublist n _)) hx).not_gt
  · intro hx
    obtain ⟨hmem, hlt⟩ := mem_ahead.mp (List.mem_of_mem_drop hx)
    refine ⟨hmem, ?_⟩
    rcases next_eq_or key c ((ahead key rows c).take n) with ⟨-, he⟩ | ⟨y, hy, he⟩
    · rw [he]
      exact hlt
    · rw [he]
      exact hcross y hy x hx

/-- Page after page is read the beginning of what was ahead. -/
theorem readPages_eq (hk : (rows.map key).Nodup) :
    readPages key rows n k c = (ahead key rows c).take (k * n) := by
  induction k generalizing c with
  | zero => simp [readPages]
  | succ k ih =>
    rw [readPages, ih, ahead_next hk, Nat.succ_mul, Nat.add_comm, List.take_add]

/-- Enough pages hold every row ahead. -/
theorem readPages_complete (hk : (rows.map key).Nodup) (hn : 0 < n)
    (hl : (ahead key rows c).length ≤ k) : readPages key rows n k c = ahead key rows c := by
  rw [readPages_eq hk, List.take_of_length_le]
  exact hl.trans (Nat.le_mul_of_pos_right k hn)

end MangaManager.Lib.Cursor
