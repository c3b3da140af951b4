import MangaManager.Lib.Table

/-!
# Find-or-create loops

A loop over entries with distinct keys, where the step of an entry settles what the
tables hold under its key and leaves what they hold under the other keys. After the loop
every entry is settled, so that a second loop whose steps do nothing to a settled entry
changes nothing.
-/

namespace MangaManager.Lib.Upsert

variable {α β κ : Type*} {key : β → κ} {step again : α → β → α} {I : α → Prop}
  {Settled : β → α → Prop} {a : α} {l : List β}

/-- A loop all of whose steps do nothing. -/
theorem foldl_eq_self (h : ∀ x ∈ l, step a x = a) : l.foldl step a = a := by
  induction l with
  | nil => rfl
  | cons x l ih =>
    rw [List.foldl_cons, h x List.mem_cons_self]
    exact ih fun y hy => h y (List.mem_cons_of_mem x hy)

/-- The loop keeps what every step keeps, and what is settled under other keys. -/
theorem foldl_keeps
    (hI : ∀ a, ∀ x ∈ l, I a → I (step a x))
    (hother : ∀ a, ∀ x ∈ l, ∀ y, I a → key x ≠ key y → Settled y a → Settled y (step a x)) {y : β}
    (hy : ∀ x ∈ l, key x ≠ key y) (ha : I a) (hset : Settled y a) :
    I (l.foldl step a) ∧ Settled y (l.foldl step a) :=
  List.foldlRecOn (motive := fun a => I a ∧ Settled y a) l step ⟨ha, hset⟩ fun a h x hx =>
    ⟨hI a x hx h.1, hother a x hx y h.1 (hy x hx) h.2⟩

/-- After the loop every entry is settled. -/
theorem foldl_settled (step : α → β → α) (I : α → Prop) (Settled : β → α → Prop)
    (hI : ∀ a, ∀ x ∈ l, I a → I (step a x))
    (hself : ∀ a, ∀ x ∈ l, I a → Settled x (step a x))
    (hother : ∀ a, ∀ x ∈ l, ∀ y, I a → key x ≠ key y → Settled y a → Settled y (step a x))
    (hl : (l.map key).Nodup) (ha : I a) :
    I (l.foldl step a) ∧ ∀ x ∈ l, Settled x (l.foldl step a) := by
  induction l generalizing a with
  | nil => exact ⟨ha, fun x hx => absurd hx List.not_mem_nil⟩
  | cons x l ih =>
    obtain ⟨hx, hl⟩ := List.nodup_cons.mp hl
    have hx₀ : x ∈ x :: l := List.mem_cons_self
    have hI' : ∀ a, ∀ z ∈ l, I a → I (step a z) := fun a z hz => hI a z (List.mem_cons_of_mem x hz)
    have hother' : ∀ a, ∀ z ∈ l, ∀ y, I a → key z ≠ key y → Settled y a → Settled y (step a z) :=
      fun a z hz => hother a z (List.mem_cons_of_mem x hz)
    obtain ⟨hlast, hrest⟩ := ih hI' (fun a z hz => hself a z (List.mem_cons_of_mem x hz)) hother' hl
      (hI a x hx₀ ha)
    refine ⟨hlast, fun y hy => ?_⟩
    rcases List.mem_cons.mp hy with rfl | hy
    · have hne : ∀ z ∈ l, key z ≠ key y := fun z hz he => hx (he ▸ List.mem_map_of_mem hz)
      exact (foldl_keeps hI' hother' hne (hI a y hx₀ ha) (hself a y hx₀ ha)).2
    · exact hrest y hy

/-! ## Rows with a unique key -/

variable {rows : List α} {r : α} {k : α → κ}

theorem nodup_append (h : (rows.map k).Nodup) (hr : ∀ x ∈ rows, k x ≠ k r) :
    ((rows ++ [r]).map k).Nodup := by
  rw [List.map_append, List.nodup_append]
  refine ⟨h, List.nodup_singleton _, ?_⟩
  intro v hv w hw he
  obtain ⟨x, hx, rfl⟩ := List.mem_map.mp hv
  obtain rfl := List.mem_singleton.mp hw
  exact hr x hx he

/-- Rewritten rows have the keys they had. -/
theorem nodup_map {f : α → α} (h : (rows.map k).Nodup) (hf : ∀ x ∈ rows, k (f x) = k x) :
    ((rows.map f).map k).Nodup := by
  have hsame : rows.map (k ∘ f) = rows.map k := List.map_congr_left hf
  rw [List.map_map, hsame]
  exact h

/-- A row that is written back under a value that no row has. -/
theorem nodup_put {id : α → Nat} (h : (rows.map k).Nodup) (hk : Table.Keyed id rows)
    (hr : ∀ x ∈ rows, k x ≠ k r) : ((Table.put id rows r).map k).Nodup := by
  unfold Table.put
  rw [List.map_map]
  refine List.Nodup.map_on (fun x hx y hy he => ?_) (List.Nodup.of_map k h)
  simp only [Function.comp_apply] at he
  split at he <;> split at he
  · rename_i hxr hyr
    exact hk.eq hx hy (hxr.trans hyr.symm)
  · exact absurd he.symm (hr y hy)
  · exact absurd he (hr x hx)
  · exact List.inj_on_of_nodup_map h hx hy he

/-- The row that is found after rows were rewritten. -/
theorem find?_map_of {p : α → Bool} {f : α → α} (h : ∀ x ∈ rows, p (f x) = p x) :
    (rows.map f).find? p = (rows.find? p).map f := by
  induction rows with
  | nil => rfl
  | cons x rows ih =>
    have hx := h x List.mem_cons_self
    have ih' := ih fun y hy => h y (List.mem_cons_of_mem x hy)
    cases hp : p x with
    | true => simp [hx, hp]
    | false => simp [hx, hp, ih']

/-! ## Changing the row or adding it -/

/-- Change the rows that are found, or add one. -/
def upsert (isRow : α → Bool) (change : α → α) (new : α) (rows : List α) : List α :=
  if rows.any isRow then rows.map fun x => if isRow x then change x else x else rows ++ [new]

/-- A row is there, and has nothing to change. -/
def Current (isRow : α → Bool) (change : α → α) (rows : List α) : Prop :=
  (∃ x ∈ rows, isRow x = true) ∧ ∀ x ∈ rows, isRow x = true → change x = x

variable {isRow isRow' : α → Bool} {change change' : α → α} {new : α}

theorem upsert_of_current (h : Current isRow change rows) (new : α) :
    upsert isRow change new rows = rows := by
  unfold upsert
  rw [if_pos (List.any_eq_true.mpr h.1)]
  refine (List.map_congr_left fun x hx => ?_).trans (List.map_id rows)
  split
  · rename_i hrow
    exact h.2 x hx hrow
  · rfl

theorem current_upsert (hrow : ∀ x, isRow (change x) = isRow x)
    (htwice : ∀ x, change (change x) = change x) (hnew : isRow new = true)
    (hfull : change new = new) : Current isRow change (upsert isRow change new rows) := by
  unfold upsert
  split
  · rename_i hany
    obtain ⟨x, hx, hxr⟩ := List.any_eq_true.mp hany
    refine ⟨⟨change x, List.mem_map.mpr ⟨x, hx, if_pos hxr⟩, (hrow x).trans hxr⟩, ?_⟩
    intro y hy hyr
    obtain ⟨z, -, rfl⟩ := List.mem_map.mp hy
    split
    · exact htwice z
    · rename_i hzr
      rw [if_neg hzr] at hyr
      exact absurd hyr hzr
  · rename_i hany
    refine ⟨⟨new, List.mem_append_right _ (List.mem_singleton_self new), hnew⟩, ?_⟩
    intro y hy hyr
    rcases List.mem_append.mp hy with hy | hy
    · exact absurd (List.any_eq_true.mpr ⟨y, hy, hyr⟩) hany
    · rw [List.mem_singleton.mp hy, hfull]

/-- The other rows are as they were. -/
theorem mem_upsert (hrow : ∀ x, isRow (change x) = isRow x) (hnew : isRow new = true) {x : α}
    (hx : isRow x = false) : x ∈ upsert isRow change new rows ↔ x ∈ rows := by
  unfold upsert
  split
  · rw [List.mem_map]
    constructor
    · rintro ⟨y, hy, he⟩
      split at he
      · rename_i hyr
        rw [← he, hrow, hyr] at hx
        cases hx
      · exact he ▸ hy
    · exact fun hmem => ⟨x, hmem, if_neg (by rw [hx]; exact Bool.false_ne_true)⟩
  · rw [List.mem_append, List.mem_singleton]
    refine or_iff_left fun he => ?_
    rw [he, hnew] at hx
    cases hx

/-- The rows that are not found are the same. -/
theorem filter_upsert {p : α → Bool} (hrow : ∀ x, isRow x = true → p x = false)
    (hchange : ∀ x, isRow x = true → p (change x) = false) (hnew : p new = false) :
    (upsert isRow change new rows).filter p = rows.filter p := by
  have hmap : (rows.map fun x => if isRow x then change x else x).filter p = rows.filter p := by
    induction rows with
    | nil => rfl
    | cons x rows ih =>
      by_cases hx : isRow x = true
      · simp [hx, hrow x hx, hchange x hx, ih]
      · cases hp : p x <;> simp [hx, hp, ih]
  unfold upsert
  split
  · exact hmap
  · simp [hnew]

/-- The row that is written is found under its key, and the others as before. -/
theorem get_upsert (key : α → Nat) (r : α) (j : Nat) :
    Table.get key (upsert (fun x => key x == key r) (fun _ => r) r rows) j =
      if j = key r then some r else Table.get key rows j := by
  unfold upsert
  split
  · rename_i hany
    obtain ⟨x, hx, hxr⟩ := List.any_eq_true.mp hany
    have hput : (rows.map fun x => if (key x == key r) = true then r else x) =
        Table.put key rows r := by
      simp [Table.put]
    rw [hput]
    split
    · rename_i hj
      rw [hj, Table.get_put_self hx (beq_iff_eq.mp hxr)]
    · rename_i hj
      exact Table.get_put_of_ne hj
  · rename_i hany
    refine Table.get_append fun x hx he => hany ?_
    exact List.any_eq_true.mpr ⟨x, hx, beq_iff_eq.mpr he⟩

/-- What is current under another key stays so. -/
theorem Current.upsert (h : Current isRow' change' rows) (hrow : ∀ x, isRow (change x) = isRow x)
    (hnew : isRow new = true) (hother : ∀ x, isRow' x = true → isRow x = false) :
    Current isRow' change' (upsert isRow change new rows) := by
  obtain ⟨⟨x, hx, hxr⟩, hall⟩ := h
  refine ⟨⟨x, (mem_upsert hrow hnew (hother x hxr)).mpr hx, hxr⟩, fun y hy hyr => ?_⟩
  exact hall y ((mem_upsert hrow hnew (hother y hyr)).mp hy) hyr

/-- A unique key that the changed rows keep and the new row has for itself. -/
theorem nodup_upsert (h : (rows.map k).Nodup) (hchange : ∀ x, k (change x) = k x)
    (hnew : ∀ x, k x = k new → isRow x = true) :
    ((Upsert.upsert isRow change new rows).map k).Nodup := by
  unfold Upsert.upsert
  split
  · refine nodup_map h fun x _ => ?_
    split
    · exact hchange x
    · rfl
  · rename_i hany
    refine nodup_append h fun x hx he => hany ?_
    exact List.any_eq_true.mpr ⟨x, hx, hnew x he⟩

end MangaManager.Lib.Upsert
