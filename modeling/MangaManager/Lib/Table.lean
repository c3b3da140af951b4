import Mathlib.Algebra.BigOperators.Group.List.Basic
import Mathlib.Data.List.Induction
import Mathlib.Data.List.Forall2
import Mathlib.Data.List.Nodup

/-!
# Tables of rows with a key

A table is a list of rows in insertion order; `key` reads a row's primary key.
`get` is the lookup by key and `put` writes a changed row back under its key.
The laws: what is in a table after `put`, that `put` keeps the keys, what
rewriting several rows one by one makes of it, and how a sum over the rows
changes when one row does.
-/

namespace MangaManager.Lib.Table

variable {α : Type*} (key : α → Nat)

/-- The row with key `k`. -/
def get (rows : List α) (k : Nat) : Option α := rows.find? fun x => key x == k

/-- Write `r` back: the row with its key becomes `r`. -/
def put (rows : List α) (r : α) : List α := rows.map fun x => if key x = key r then r else x

/-- Primary keys are distinct. -/
def Keyed (rows : List α) : Prop := (rows.map key).Nodup

instance (rows : List α) : Decidable (Keyed key rows) :=
  inferInstanceAs (Decidable (rows.map key).Nodup)

variable {key} {rows : List α} {r x y : α} {k : Nat}

theorem get_mem (h : get key rows k = some x) : x ∈ rows := List.mem_of_find?_eq_some h

theorem get_key (h : get key rows k = some x) : key x = k := by
  simpa using List.find?_some h

theorem Keyed.eq (hk : Keyed key rows) (hx : x ∈ rows) (hy : y ∈ rows) (h : key x = key y) :
    x = y := List.inj_on_of_nodup_map hk hx hy h

theorem Keyed.get_eq (hk : Keyed key rows) (hx : x ∈ rows) : get key rows (key x) = some x := by
  cases hg : get key rows (key x) with
  | none => simpa using List.find?_eq_none.mp hg x hx
  | some y => rw [hk.eq (get_mem hg) hx (get_key hg)]

theorem get_eq_none : get key rows k = none ↔ ∀ x ∈ rows, key x ≠ k := by
  simp [get]

/-- The lookup depends on the rows of the key only. -/
theorem Keyed.get_congr {rows' : List α} (hk' : Keyed key rows')
    (h : ∀ x, key x = k → (x ∈ rows ↔ x ∈ rows')) : get key rows' k = get key rows k := by
  cases hg : get key rows k with
  | none =>
    refine get_eq_none.mpr fun x hx he => ?_
    exact get_eq_none.mp hg x ((h x he).mpr hx) he
  | some x =>
    have hx := get_key hg
    rw [← hx, hk'.get_eq ((h x hx).mp (get_mem hg))]

/-- Rewritten rows have distinct keys when no two keys fall together. -/
theorem Keyed.map {f : α → α} (hk : Keyed key rows)
    (h : ∀ x ∈ rows, ∀ y ∈ rows, key (f x) = key (f y) → key x = key y) :
    Keyed key (rows.map f) := by
  unfold Keyed
  rw [List.map_map]
  refine List.Nodup.map_on (fun x hx y hy he => ?_) (List.Nodup.of_map key hk)
  exact hk.eq hx hy (h x hx y hy he)

theorem Keyed.filter {p : α → Bool} (hk : Keyed key rows) : Keyed key (rows.filter p) :=
  List.Nodup.sublist (List.Sublist.map _ List.filter_sublist) hk

theorem mem_put : x ∈ put key rows r ↔
    (x = r ∧ ∃ y ∈ rows, key y = key r) ∨ (x ∈ rows ∧ key x ≠ key r) := by
  simp only [put, List.mem_map]
  constructor
  · rintro ⟨y, hy, rfl⟩
    by_cases h : key y = key r
    · exact .inl ⟨by rw [if_pos h], y, hy, h⟩
    · rw [if_neg h]
      exact .inr ⟨hy, h⟩
  · rintro (⟨rfl, y, hy, h⟩ | ⟨hx, h⟩)
    · exact ⟨y, hy, if_pos h⟩
    · exact ⟨x, hx, if_neg h⟩

theorem mem_put_self (hy : y ∈ rows) (h : key y = key r) : r ∈ put key rows r :=
  mem_put.mpr (.inl ⟨rfl, y, hy, h⟩)

theorem put_self (hk : Keyed key rows) (hr : r ∈ rows) : put key rows r = rows := by
  refine (List.map_congr_left fun x hx => ?_).trans (List.map_id rows)
  split
  · rename_i h
    exact (hk.eq hx hr h).symm
  · rfl

theorem mem_put_of_ne (hx : x ∈ rows) (h : key x ≠ key r) : x ∈ put key rows r :=
  mem_put.mpr (.inr ⟨hx, h⟩)

/-- Of two writes of one row the later one stays. -/
theorem put_put {r' : α} (h : key r = key r') : put key (put key rows r) r' = put key rows r' := by
  rw [put, put, List.map_map]
  refine List.map_congr_left fun x _ => ?_
  by_cases hx : key x = key r
  · simp [hx, h]
  · simp [hx, h ▸ hx]

/-- A row with `P` is still there when the row written keeps `P`. -/
theorem exists_mem_put {P : α → Prop} (hk : Keyed key rows) (hy : y ∈ rows) (h : key y = key r)
    (hP : P y → P r) (hx : ∃ x ∈ rows, P x) : ∃ x ∈ put key rows r, P x := by
  obtain ⟨x, hx, hPx⟩ := hx
  by_cases he : key x = key r
  · obtain rfl : x = y := hk.eq hx hy (he.trans h.symm)
    exact ⟨r, mem_put_self hx he, hP hPx⟩
  · exact ⟨x, mem_put_of_ne hx he, hPx⟩

@[simp] theorem map_key_put : (put key rows r).map key = rows.map key := by
  rw [put, List.map_map]
  refine List.map_congr_left fun x _ => ?_
  by_cases h : key x = key r <;> simp [h]

/-- What the row that is written shares with the one it replaces stays in its place. -/
theorem map_put {β : Type*} {f : α → β} (hk : Keyed key rows) (hx : x ∈ rows) (h : key x = key r)
    (hf : f r = f x) : (put key rows r).map f = rows.map f := by
  rw [put, List.map_map]
  refine List.map_congr_left fun y hy => ?_
  by_cases he : key y = key r
  · obtain rfl := hk.eq hy hx (he.trans h.symm)
    simp [he, hf]
  · simp [he]

@[simp] theorem keyed_put : Keyed key (put key rows r) ↔ Keyed key rows := by
  simp [Keyed]

theorem get_put_self (hy : y ∈ rows) (h : key y = key r) :
    get key (put key rows r) (key r) = some r := by
  induction rows with
  | nil => cases hy
  | cons z zs ih =>
    by_cases hz : key z = key r
    · simp [get, put, hz]
    · have hne : y ≠ z := fun e => hz (e ▸ h)
      have ih' := ih ((List.mem_cons.mp hy).resolve_left hne)
      simpa [get, put, hz] using ih'

theorem get_put_of_ne (h : k ≠ key r) : get key (put key rows r) k = get key rows k := by
  induction rows with
  | nil => rfl
  | cons z zs ih =>
    by_cases hz : key z = key r
    · have hzk : key z ≠ k := fun e => h (e ▸ hz)
      simpa [get, put, hz, hzk, Ne.symm h] using ih
    · by_cases hzk : key z = k
      · simp [get, put, hzk, h]
      · simpa [get, put, hz, hzk] using ih

theorem isSome_get : (get key rows k).isSome = true ↔ ∃ x ∈ rows, key x = k := by
  simp [get, List.find?_isSome]

theorem get_append (h : ∀ x ∈ rows, key x ≠ key r) :
    get key (rows ++ [r]) k = if k = key r then some r else get key rows k := by
  unfold get
  rw [List.find?_append]
  by_cases hk : k = key r
  · subst hk
    have hn : rows.find? (fun x => key x == key r) = none := by
      simpa using h
    simp [hn]
  · have hr : ¬ key r = k := fun e => hk e.symm
    simp [hk, hr]

theorem get_map {g : α → α} (h : ∀ x, key (g x) = key x) :
    get key (rows.map g) k = (get key rows k).map g := by
  have hcomp : ((fun x => key x == k) ∘ g) = fun x => key x == k :=
    funext fun x => by rw [Function.comp_apply, h]
  unfold get
  rw [List.find?_map, hcomp]

theorem get_append_of_ne (h : key r ≠ k) : get key (rows ++ [r]) k = get key rows k := by
  unfold get
  rw [List.find?_append]
  simp [h]

theorem keyed_append : Keyed key (rows ++ [r]) ↔ Keyed key rows ∧ ∀ x ∈ rows, key x ≠ key r := by
  simp only [Keyed, List.map_append, List.map_cons, List.map_nil, List.nodup_append,
    List.nodup_singleton, true_and, List.mem_singleton, List.forall_mem_map, forall_eq]

/-- Writing a row back relates each row to what it became. -/
theorem forall₂_put {R : α → α → Prop} (hk : Keyed key rows) (hx : x ∈ rows) (h : key x = key r)
    (hr : R x r) (hrefl : ∀ y ∈ rows, R y y) : List.Forall₂ R rows (put key rows r) := by
  unfold put
  rw [List.forall₂_map_right_iff, List.forall₂_same]
  intro y hy
  split
  · rename_i he
    rwa [hk.eq hy hx (he.trans h.symm)]
  · exact hrefl y hy

section
variable {β γ : Type*} {l₁ : List α} {l₂ : List β} {l₃ : List γ} {R : α → β → Prop}
  {S : β → γ → Prop}

theorem forall₂_left (h : List.Forall₂ R l₁ l₂) (hx : x ∈ l₁) : ∃ y ∈ l₂, R x y := by
  induction h with
  | nil => cases hx
  | cons hr _ ih =>
    rcases List.mem_cons.mp hx with rfl | hx
    · exact ⟨_, List.mem_cons_self, hr⟩
    · obtain ⟨y, hy, hr⟩ := ih hx
      exact ⟨y, List.mem_cons_of_mem _ hy, hr⟩

theorem forall₂_right {y : β} (h : List.Forall₂ R l₁ l₂) (hy : y ∈ l₂) : ∃ x ∈ l₁, R x y := by
  induction h with
  | nil => cases hy
  | cons hr _ ih =>
    rcases List.mem_cons.mp hy with rfl | hy
    · exact ⟨_, List.mem_cons_self, hr⟩
    · obtain ⟨x, hx, hr⟩ := ih hy
      exact ⟨x, List.mem_cons_of_mem _ hx, hr⟩

theorem map_key_forall₂ {R : α → α → Prop} {rows' : List α} (h : List.Forall₂ R rows rows')
    (hR : ∀ x y, R x y → key y = key x) : rows'.map key = rows.map key := by
  induction h with
  | nil => rfl
  | cons hr _ ih => rw [List.map_cons, List.map_cons, hR _ _ hr, ih]

theorem forall₂_comp (h₁ : List.Forall₂ R l₁ l₂) (h₂ : List.Forall₂ S l₂ l₃) :
    List.Forall₂ (fun x z => ∃ y, R x y ∧ S y z) l₁ l₃ := by
  induction h₁ generalizing l₃ with
  | nil =>
    cases h₂
    exact .nil
  | cons hr _ ih =>
    cases h₂ with
    | cons hs h₂ => exact .cons ⟨_, hr, hs⟩ (ih h₂)

end

section
variable [DecidableEq α] {g : α → α} {l : List α}

/-- One more row rewritten. -/
theorem put_map (hk : Keyed key rows) (hg : ∀ x, key (g x) = key x) (hx : x ∈ rows) :
    put key (rows.map fun y => if y ∈ l then g y else y) (g x) =
      rows.map fun y => if y ∈ x :: l then g y else y := by
  rw [put, List.map_map]
  refine List.map_congr_left fun y hy => ?_
  have hkey : key (if y ∈ l then g y else y) = key y := by
    split
    · exact hg y
    · rfl
  by_cases he : y = x
  · subst he
    simp [hkey, hg]
  · have hne : key y ≠ key x := fun e => he (hk.eq hy hx e)
    simp [hkey, hg, hne, he]

/-- Rows rewritten one by one. -/
theorem foldl_put (hk : Keyed key rows) (hg : ∀ x, key (g x) = key x) (hl : ∀ x ∈ l, x ∈ rows) :
    l.foldl (fun t x => put key t (g x)) rows = rows.map fun y => if y ∈ l then g y else y := by
  induction l using List.reverseRecOn with
  | nil => simp
  | append_singleton l x ih =>
    rw [List.foldl_append, ih fun y hy => hl y (by simp [hy]), List.foldl_cons, List.foldl_nil,
      put_map hk hg (hl x (by simp))]
    refine List.map_congr_left fun y _ => ?_
    simp [or_comm]

end

/-- `SELECT DISTINCT` has no duplicates. -/
theorem nodup_eraseDups [DecidableEq α] (l : List α) : l.eraseDups.Nodup := by
  induction hn : l.length using Nat.strongRecOn generalizing l with
  | ind n ih =>
    cases l with
    | nil => exact List.nodup_nil
    | cons a l =>
      rw [List.eraseDups_cons]
      have hlt : (l.filter fun b => !b == a).length < n := by
        rw [← hn]
        exact Nat.lt_succ_of_le (List.length_filter_le _ _)
      refine List.nodup_cons.mpr ⟨fun hm => ?_, ih _ hlt _ rfl⟩
      have ha := (List.mem_filter.mp (List.mem_eraseDups.mp hm)).2
      simp at ha

/-- Replacing one row changes a sum by that row's share. -/
theorem sum_put {M : Type*} [AddCommMonoid M] (f : α → M) (hk : Keyed key rows) (hx : x ∈ rows)
    (h : key x = key r) : ((put key rows r).map f).sum + f x = (rows.map f).sum + f r := by
  induction rows with
  | nil => cases hx
  | cons z zs ih =>
    obtain ⟨hz, hzs⟩ := List.nodup_cons.mp hk
    rcases List.mem_cons.mp hx with rfl | hx
    · have hid : put key zs r = zs := by
        conv_rhs => rw [← List.map_id zs]
        refine List.map_congr_left fun y hy => if_neg fun e => hz ?_
        exact h ▸ e ▸ List.mem_map_of_mem hy
      rw [show put key (x :: zs) r = r :: put key zs r by simp [put, h], hid]
      simp only [List.map_cons, List.sum_cons]
      rw [add_right_comm, add_comm (f r) (f x), add_right_comm]
    · have hzr : key z ≠ key r := fun e => hz (by rw [e, ← h]; exact List.mem_map_of_mem hx)
      rw [show put key (z :: zs) r = z :: put key zs r by simp [put, hzr]]
      simp only [List.map_cons, List.sum_cons]
      have := ih hzs hx
      rw [add_assoc, this, add_assoc]

/-- Replacing one row changes a count by that row's share. -/
theorem countP_put (p : α → Bool) (hk : Keyed key rows) (hx : x ∈ rows) (h : key x = key r) :
    (put key rows r).countP p + (p x).toNat = rows.countP p + (p r).toNat := by
  have hsum : ∀ l : List α, l.countP p = (l.map fun y => (p y).toNat).sum := by
    intro l
    induction l with
    | nil => rfl
    | cons y l ih => cases hy : p y <;> simp [hy, ih, add_comm]
  rw [hsum, hsum]
  exact sum_put _ hk hx h

end MangaManager.Lib.Table
