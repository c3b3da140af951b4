import Mathlib.Data.List.AList
import Mathlib.Data.List.MinMax

/-!
# Dictionaries filled row by row

`upsert` is one write of a loop that fills a dictionary: `d[k] = f(d[k])`, or `v` where the
key is new. `lookup_fill` says what a loop of them leaves under a key: the fold over the
rows of the key; `lookup_merge` the same of a loop over the items of a dictionary. `collect` is the `defaultdict(list)` of rows, and `keepFirst`, `keepLast` and
`keepMax` are the dictionaries that keep one value of each key.
-/

namespace MangaManager.Lib

variable {ρ κ α : Type*} [DecidableEq κ]

abbrev Dict (κ α : Type*) := AList fun _ : κ => α

namespace Dict

def upsert (d : Dict κ α) (k : κ) (f : α → α) (v : α) : Dict κ α :=
  d.insert k ((d.lookup k).elim v f)

/-- The loop over the rows. -/
def fill (key : ρ → κ) (f : ρ → α → α) (v : ρ → α) (rows : List ρ) : Dict κ α :=
  rows.foldl (fun d r => d.upsert (key r) (f r) (v r)) ∅

theorem lookup_upsert (d : Dict κ α) (k k' : κ) (f : α → α) (v : α) :
    (d.upsert k f v).lookup k' =
      if k = k' then some ((d.lookup k').elim v f) else d.lookup k' := by
  split
  · rename_i he
    subst he
    exact AList.lookup_insert d
  · rename_i hne
    exact AList.lookup_insert_ne (Ne.symm hne)

/-- What the loop leaves under a key depends on the rows of the key only. -/
theorem lookup_foldl (key : ρ → κ) (f : ρ → α → α) (v : ρ → α) (rows : List ρ) (k : κ)
    (d : Dict κ α) : (rows.foldl (fun d r => d.upsert (key r) (f r) (v r)) d).lookup k =
      (rows.filter (key · = k)).foldl (fun o r => some (o.elim (v r) (f r))) (d.lookup k) := by
  induction rows generalizing d with
  | nil => rfl
  | cons r rows ih =>
    rw [List.foldl_cons, ih, lookup_upsert, List.filter_cons]
    by_cases he : key r = k
    · rw [if_pos he, if_pos (by simpa using he), List.foldl_cons]
    · rw [if_neg he, if_neg (by simpa using he)]

theorem lookup_fill (key : ρ → κ) (f : ρ → α → α) (v : ρ → α) (rows : List ρ) (k : κ) :
    (fill key f v rows).lookup k =
      (rows.filter (key · = k)).foldl (fun o r => some (o.elim (v r) (f r))) none :=
  lookup_foldl key f v rows k ∅

/-- What each write keeps holds under a key of all its rows. -/
theorem fill_spec {key : ρ → κ} {f : ρ → α → α} {v : ρ → α} {P : List ρ → α → Prop}
    (hnew : ∀ r, P [r] (v r)) (hstep : ∀ l r a, P l a → P (l ++ [r]) (f r a)) (rows : List ρ)
    (k : κ) : (rows.filter (key · = k) = [] ∧ (fill key f v rows).lookup k = none) ∨
      ∃ a, (fill key f v rows).lookup k = some a ∧ P (rows.filter (key · = k)) a := by
  rw [lookup_fill]
  induction rows.filter (key · = k) using List.reverseRecOn with
  | nil => exact .inl ⟨rfl, rfl⟩
  | append_singleton l r ih =>
    rw [List.foldl_append, List.foldl_cons, List.foldl_nil]
    rcases ih with ⟨rfl, hl⟩ | ⟨a, hl, ha⟩
    · exact .inr ⟨_, by rw [hl]; rfl, hnew r⟩
    · exact .inr ⟨_, by rw [hl]; rfl, hstep l r a ha⟩

/-! ## One dictionary into another -/

/-- The loop over the items of a dictionary that writes them into another. -/
def merge {β : Type*} (d : Dict κ α) (e : Dict κ β) (f : β → α → α) (v : β → α) : Dict κ α :=
  e.entries.foldl (fun d x => d.upsert x.1 (f x.2) (v x.2)) d

/-- The items whose key does not satisfy `p`. -/
def discard (d : Dict κ α) (p : κ → Bool) : Dict κ α where
  entries := d.entries.filter fun x => !p x.1
  nodupKeys := d.nodupKeys.sublist List.filter_sublist

/-- A dictionary has at most one item under a key. -/
theorem filter_entries {β : Type*} (e : Dict κ β) (k : κ) :
    e.entries.filter (·.1 = k) = ((e.lookup k).map (Sigma.mk k)).toList := by
  have hgen : ∀ l : List (Sigma fun _ : κ => β), l.NodupKeys →
      l.filter (·.1 = k) = ((l.dlookup k).map (Sigma.mk k)).toList := by
    intro l hl
    induction l with
    | nil => rfl
    | cons x l ih =>
      obtain ⟨hx, hl⟩ := List.nodupKeys_cons.mp hl
      by_cases he : x.1 = k
      · subst he
        have hnone : l.dlookup x.1 = none := List.dlookup_eq_none.mpr hx
        rw [List.filter_cons_of_pos (by simp), ih hl, hnone, List.dlookup_cons_eq]
        rfl
      · rw [List.filter_cons_of_neg (by simpa using he), ih hl,
          List.dlookup_cons_ne _ _ (Ne.symm he)]
  exact hgen e.entries e.nodupKeys

theorem lookup_merge {β : Type*} (d : Dict κ α) (e : Dict κ β) (f : β → α → α) (v : β → α)
    (k : κ) : (d.merge e f v).lookup k =
      (e.lookup k).elim (d.lookup k) fun b => some ((d.lookup k).elim (v b) (f b)) := by
  have hfold := lookup_foldl (fun x : (_ : κ) × β => x.1) (fun x => f x.2) (fun x => v x.2)
    e.entries k d
  rw [filter_entries] at hfold
  rw [merge, hfold]
  cases e.lookup k <;> rfl

theorem lookup_discard (d : Dict κ α) (p : κ → Bool) (k : κ) :
    (d.discard p).lookup k = if p k = true then none else d.lookup k := by
  have hgen : ∀ l : List (Sigma fun _ : κ => α),
      (l.filter fun x => !p x.1).dlookup k = if p k = true then none else l.dlookup k := by
    intro l
    induction l with
    | nil => simp
    | cons x l ih =>
      by_cases hp : p x.1 = true
      · rw [List.filter_cons_of_neg (by simpa using hp), ih]
        split
        · rfl
        · rename_i hk
          rw [List.dlookup_cons_ne _ _ fun he => hk (by rw [he]; exact hp)]
      · rw [List.filter_cons_of_pos (by simpa using hp)]
        by_cases he : x.1 = k
        · subst he
          rw [if_neg hp, List.dlookup_cons_eq, List.dlookup_cons_eq]
        · rw [List.dlookup_cons_ne _ _ (Ne.symm he), List.dlookup_cons_ne _ _ (Ne.symm he), ih]
  exact hgen d.entries

/-! ## Lists -/

/-- `d = defaultdict(list)`, and `d[key].append(value)` for each row. -/
def collect (key : ρ → κ) (value : ρ → α) (rows : List ρ) : Dict κ (List α) :=
  fill key (fun r l => l ++ [value r]) (fun r => [value r]) rows

/-- The values of the rows of a key, in order. -/
def values (d : Dict κ (List α)) (k : κ) : List α := (d.lookup k).getD []

theorem lookup_collect (key : ρ → κ) (value : ρ → α) (rows : List ρ) (k : κ) :
    (collect key value rows).lookup k =
      if (rows.filter (key · = k)).isEmpty then none
      else some ((rows.filter (key · = k)).map value) := by
  rw [collect, lookup_fill]
  induction rows.filter (key · = k) using List.reverseRecOn with
  | nil => rfl
  | append_singleton l r ih =>
    rw [List.foldl_append, List.foldl_cons, List.foldl_nil, ih]
    cases l <;> simp

theorem values_collect (key : ρ → κ) (value : ρ → α) (rows : List ρ) (k : κ) :
    (collect key value rows).values k = (rows.filter (key · = k)).map value := by
  rw [values, lookup_collect]
  cases rows.filter (key · = k) <;> rfl

/-- A loop over the rows of some keys finds all rows of each of them. -/
theorem filter_filter_key (key : ρ → κ) (rows : List ρ) {ids : List κ} {k : κ} (hk : k ∈ ids) :
    (rows.filter fun r => decide (key r ∈ ids)).filter (key · = k) = rows.filter (key · = k) := by
  rw [List.filter_filter]
  refine List.filter_congr fun r _ => ?_
  by_cases he : key r = k
  · simp [he, hk]
  · simp [he]

theorem values_collect_of_mem (key : ρ → κ) (value : ρ → α) (rows : List ρ) {ids : List κ} {k : κ}
    (hk : k ∈ ids) : (collect key value (rows.filter fun r => decide (key r ∈ ids))).values k =
      (rows.filter (key · = k)).map value := by
  rw [values_collect, filter_filter_key key rows hk]

/-- Two rows of one key are in one list of the dictionary. -/
theorem exists_list {key : ρ → κ} {value : ρ → α} {rows : List ρ} {r : ρ} (hr : r ∈ rows) :
    ⟨key r, (rows.filter (key · = key r)).map value⟩ ∈ (collect key value rows).entries := by
  refine AList.mem_lookup_iff.mp ?_
  rw [lookup_collect, if_neg]
  · rfl
  · rw [List.isEmpty_iff]
    exact List.ne_nil_of_mem (List.mem_filter.mpr ⟨hr, by simp⟩)

/-- A list of the dictionary has values of rows only. -/
theorem mem_of_entry {key : ρ → κ} {value : ρ → α} {rows : List ρ} {e : (_ : κ) × List α} {v : α}
    (he : e ∈ (collect key value rows).entries) (hv : v ∈ e.2) : ∃ r ∈ rows, value r = v := by
  obtain ⟨k, l⟩ := e
  have hl := AList.mem_lookup_iff.mpr he
  rw [lookup_collect, Option.mem_def] at hl
  split at hl
  · cases hl
  · cases hl
    obtain ⟨r, hr, hrv⟩ := List.mem_map.mp hv
    exact ⟨r, (List.mem_filter.mp hr).1, hrv⟩

/-! ## One value of each key -/

/-- `d.setdefault(key, value)` for each row. -/
def keepFirst (key : ρ → κ) (value : ρ → α) (rows : List ρ) : Dict κ α :=
  fill key (fun _ v => v) value rows

theorem lookup_keepFirst (key : ρ → κ) (value : ρ → α) (rows : List ρ) (k : κ) :
    (keepFirst key value rows).lookup k = ((rows.filter (key · = k)).map value).head? := by
  rw [keepFirst, lookup_fill]
  induction rows.filter (key · = k) using List.reverseRecOn with
  | nil => rfl
  | append_singleton l r ih =>
    rw [List.foldl_append, List.foldl_cons, List.foldl_nil, ih]
    cases l <;> rfl

/-- `d[key] = value` for each row. -/
def keepLast (key : ρ → κ) (value : ρ → α) (rows : List ρ) : Dict κ α :=
  fill key (fun r _ => value r) value rows

theorem lookup_keepLast (key : ρ → κ) (value : ρ → α) (rows : List ρ) (k : κ) :
    (keepLast key value rows).lookup k = ((rows.filter (key · = k)).map value).getLast? := by
  rw [keepLast, lookup_fill]
  induction rows.filter (key · = k) using List.reverseRecOn with
  | nil => rfl
  | append_singleton l r ih =>
    rw [List.foldl_append, List.foldl_cons, List.foldl_nil, ih, List.map_append,
      List.map_singleton, List.getLast?_concat]
    cases (l.map value).getLast? <;> rfl

/-- Rows of one key that agree on the value. -/
theorem lookup_keepLast_eq {key : ρ → κ} {value : ρ → α} {rows : List ρ} {k : κ} {v : α}
    (hv : ∀ r ∈ rows, key r = k → value r = v) (hex : ∃ r ∈ rows, key r = k) :
    (keepLast key value rows).lookup k = some v := by
  rw [lookup_keepLast]
  obtain ⟨r, hr, hk⟩ := hex
  have hmem : value r ∈ (rows.filter (key · = k)).map value :=
    List.mem_map_of_mem (List.mem_filter.mpr ⟨hr, by simpa using hk⟩)
  rw [List.getLast?_eq_some_getLast (List.ne_nil_of_mem hmem), Option.some.injEq]
  obtain ⟨r', hr', he⟩ := List.mem_map.mp (List.getLast_mem (List.ne_nil_of_mem hmem))
  rw [← he]
  obtain ⟨hr', hk'⟩ := List.mem_filter.mp hr'
  exact hv r' hr' (by simpa using hk')

theorem lookup_keepLast_none {key : ρ → κ} {value : ρ → α} {rows : List ρ} {k : κ}
    (h : ∀ r ∈ rows, key r ≠ k) : (keepLast key value rows).lookup k = none := by
  rw [lookup_keepLast, List.filter_eq_nil_iff.mpr fun r hr => by simpa using h r hr]
  rfl

/-- Where the rows of a key agree, the dictionary holds their value. -/
theorem lookup_keepLast_iff {key : ρ → κ} {value : ρ → α} {rows : List ρ} {k : κ} {v : α}
    (h : ∀ r ∈ rows, ∀ r' ∈ rows, key r = key r' → value r = value r') :
    (keepLast key value rows).lookup k = some v ↔ ∃ r ∈ rows, key r = k ∧ value r = v := by
  constructor
  · intro hl
    by_contra hno
    by_cases hex : ∃ r ∈ rows, key r = k
    · obtain ⟨r, hr, hk⟩ := hex
      rw [lookup_keepLast_eq (v := value r) (fun r' hr' hk' => h r' hr' r hr (hk'.trans hk.symm))
        ⟨r, hr, hk⟩] at hl
      exact hno ⟨r, hr, hk, Option.some.inj hl⟩
    · rw [lookup_keepLast_none fun r hr hk => hex ⟨r, hr, hk⟩] at hl
      cases hl
  · rintro ⟨r, hr, hk, rfl⟩
    exact lookup_keepLast_eq (fun r' hr' hk' => h r' hr' r hr (hk'.trans hk.symm)) ⟨r, hr, hk⟩

/-- `d[key] = max(d.get(key, value), value)` for each row. -/
def keepMax [LinearOrder α] (key : ρ → κ) (value : ρ → α) (rows : List ρ) : Dict κ α :=
  fill key (fun r v => max v (value r)) value rows

theorem lookup_keepMax [LinearOrder α] (key : ρ → κ) (value : ρ → α) (rows : List ρ) (k : κ) :
    (keepMax key value rows).lookup k = ((rows.filter (key · = k)).map value).max? := by
  rw [keepMax, lookup_fill]
  induction rows.filter (key · = k) using List.reverseRecOn with
  | nil => rfl
  | append_singleton l r ih =>
    rw [List.foldl_append, List.foldl_cons, List.foldl_nil, ih]
    cases l with
    | nil => rfl
    | cons x l => simp [List.max?]

end Dict

end MangaManager.Lib
