import Mathlib.Data.List.Sort
import Mathlib.Data.List.Nodup
import Mathlib.Data.List.Perm.Subperm

/-!
# Serving the rows that waited longest

A round serves the first `k` of the rows that are due, in the order of a key, and gives them keys
behind those of all rows. `firstBy` is the choice, and a `Round` is what happens to the rows of a
table meanwhile: some are added, and the keys of the others only grow.

`Round.ahead_lt`: a row that is due and is not served gets `k` rows nearer to the front, and as
many farther as are added. `Rounds.bound`: so it is passed over in at most as many rounds as the
rows ahead of it and the rows that are added fill.
-/

namespace MangaManager.Lib.Rotation

variable {α κ ι : Type*} [LinearOrder κ] {key : α → κ} {id : α → ι} {k n : Nat}
  {l l' : List α} {x x' : α} {due : α → Bool} {added : List ι}

/-- The first `k` rows by their key. -/
def firstBy (key : α → κ) (k : Nat) (l : List α) : List α :=
  (l.insertionSort fun a b => key a ≤ key b).take k

/-- The rows before a key. -/
def ahead (key : α → κ) (l : List α) (v : κ) : List α := l.filter fun a => key a < v

theorem mem_firstBy (h : x ∈ firstBy key k l) : x ∈ l :=
  (List.mem_insertionSort _).mp (List.mem_of_mem_take h)

theorem nodup_firstBy (h : (l.map id).Nodup) : ((firstBy key k l).map id).Nodup := by
  have hperm := (List.perm_insertionSort (fun a b => key a ≤ key b) l).map id
  exact List.Nodup.sublist ((List.take_sublist k _).map id) (hperm.nodup_iff.mpr h)

/-- The rows that are served before one that is not: there are `k` of them. -/
theorem firstBy_full (hx : x ∈ l) (h : x ∉ firstBy key k l) :
    (firstBy key k l).length = k ∧ ∀ a ∈ firstBy key k l, key a ≤ key x := by
  have hsorted := List.pairwise_insertionSort (fun a b => key a ≤ key b) l
  have hmem : x ∈ l.insertionSort fun a b => key a ≤ key b := (List.mem_insertionSort _).mpr hx
  unfold firstBy at h ⊢
  generalize l.insertionSort (fun a b => key a ≤ key b) = sorted at hsorted hmem h ⊢
  rw [← List.take_append_drop k sorted] at hsorted hmem
  have hdrop : x ∈ sorted.drop k := (List.mem_append.mp hmem).resolve_left h
  refine ⟨?_, fun a ha => (List.pairwise_append.mp hsorted).2.2 a ha x hdrop⟩
  have hlen := List.length_pos_of_mem hdrop
  rw [List.length_drop] at hlen
  rw [List.length_take]
  omega

/-- Between two looks at the table rows are added and no key falls, and the rows that are served
have keys after all that there were. -/
structure Round (id : α → ι) (key : α → κ) (k : Nat) (due : α → Bool) (l : List α) (added : List ι)
    (l' : List α) : Prop where
  kept : ∀ a' ∈ l', id a' ∈ added ∨ ∃ a ∈ l, id a = id a' ∧ key a ≤ key a'
  served : ∀ a ∈ firstBy key k (l.filter due), ∀ a' ∈ l', id a' = id a → ∀ b ∈ l, key b < key a'

/-- A due row that is not served gets `k` rows nearer to the front. -/
theorem Round.ahead_lt (h : Round id key k due l added l') (hl : (l.map id).Nodup)
    (hl' : (l'.map id).Nodup) (hkey : ∀ a ∈ l, ∀ b ∈ l, key a = key b → id a = id b)
    (hx : x ∈ l) (hdue : due x = true) (hpassed : id x ∉ (firstBy key k (l.filter due)).map id) :
    (ahead key l' (key x)).length + k ≤ (ahead key l (key x)).length + added.length := by
  have hx' : x ∈ l.filter due := List.mem_filter.mpr ⟨hx, hdue⟩
  have hnot : x ∉ firstBy key k (l.filter due) := fun hm => hpassed (List.mem_map_of_mem hm)
  obtain ⟨hlen, hle⟩ := firstBy_full hx' hnot
  have hpicked : ∀ a ∈ firstBy key k (l.filter due), a ∈ ahead key l (key x) := by
    intro a ha
    have hm := (List.mem_filter.mp (mem_firstBy ha)).1
    refine List.mem_filter.mpr ⟨hm, decide_eq_true (lt_of_le_of_ne (hle a ha) fun he => ?_)⟩
    exact hpassed (hkey a hm x hx he ▸ List.mem_map_of_mem ha)
  have hnodup : ((ahead key l' (key x)).map id ++ (firstBy key k (l.filter due)).map id).Nodup := by
    refine List.nodup_append.mpr ⟨List.Nodup.sublist (List.filter_sublist.map id) hl',
      nodup_firstBy (List.Nodup.sublist (List.filter_sublist.map id) hl), fun i hi j hj he => ?_⟩
    obtain ⟨a', ha', rfl⟩ := List.mem_map.mp hi
    obtain ⟨a, ha, rfl⟩ := List.mem_map.mp hj
    obtain ⟨ha', hlt⟩ := List.mem_filter.mp ha'
    -- a row that was served is behind `x` now
    exact absurd (h.served a ha a' ha' he x hx) (lt_asymm (of_decide_eq_true hlt))
  have hsub : ((ahead key l' (key x)).map id ++ (firstBy key k (l.filter due)).map id).Subperm
      ((ahead key l (key x)).map id ++ added) := by
    refine List.subperm_of_subset hnodup fun i hi => ?_
    rcases List.mem_append.mp hi with hi | hi
    · obtain ⟨a', ha', rfl⟩ := List.mem_map.mp hi
      obtain ⟨ha', hlt⟩ := List.mem_filter.mp ha'
      rcases h.kept a' ha' with hnew | ⟨a, ha, hid, hle⟩
      · exact List.mem_append_right _ hnew
      · rw [← hid]
        exact List.mem_append_left _ (List.mem_map_of_mem (List.mem_filter.mpr
          ⟨ha, decide_eq_true (lt_of_le_of_lt hle (of_decide_eq_true hlt))⟩))
    · obtain ⟨a, ha, rfl⟩ := List.mem_map.mp hi
      exact List.mem_append_left _ (List.mem_map_of_mem (hpicked a ha))
  have hcard := hsub.length_le
  simpa [hlen] using hcard

/-- Rounds one after the other, in which the row `i` is due with the key `v` and passed over; `m`
rows are added. -/
inductive Rounds (id : α → ι) (key : α → κ) (k : Nat) (i : ι) (v : κ) :
    List α → Nat → Nat → List α → Prop where
  | nil {l : List α} : Rounds id key k i v l 0 0 l
  | snoc {l l₁ l₂ : List α} {n m : Nat} {due : α → Bool} {added : List ι} {x : α} :
      Rounds id key k i v l n m l₁ → Round id key k due l₁ added l₂ → (l₁.map id).Nodup →
      (l₂.map id).Nodup → (∀ a ∈ l₁, ∀ b ∈ l₁, key a = key b → id a = id b) → x ∈ l₁ →
      id x = i → key x = v → due x = true → i ∉ (firstBy key k (l₁.filter due)).map id →
      Rounds id key k i v l (n + 1) (m + added.length) l₂

/-- The rows ahead are used up. -/
theorem Rounds.bound {i : ι} {v : κ} {m : Nat} (h : Rounds id key k i v l n m l') :
    (ahead key l' v).length + n * k ≤ (ahead key l v).length + m := by
  induction h with
  | nil => simp
  | snoc _ hround hl hl' hkey hx hid hv hdue hpassed ih =>
    subst hid hv
    have hstep := hround.ahead_lt hl hl' hkey hx hdue hpassed
    rw [Nat.succ_mul]
    omega

end MangaManager.Lib.Rotation
