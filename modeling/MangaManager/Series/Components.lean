import MangaManager.Series.Clusters

/-!
# The loops of the clusters

`equivalent_series_clusters` once more, from its groups on and with its dictionary of parents:
a lookup can raise a `KeyError`, the loop of `find` can have more turns than there is `fuel`,
and every assignment to a parent is kept.

The dictionary represents a `Forest` (`Parents.Represents`), whose parents are not larger, so
that a turn of the loop goes down and the loop ends.
-/

namespace MangaManager

open Lib Relation

/-- Why the loops give no clusters. -/
inductive ClusterError where
  | keyError
  | unfinished
  deriving DecidableEq, Repr

/-- `parents`, and the assignments to its entries so far. -/
structure Parents where
  parents : Dict Nat Nat
  writes : List (Nat × Nat) := []

namespace Parents

variable (p : Parents)

/-- `{series_id: series_id for series_id in series_ids}`. -/
def singles (seriesIds : List Nat) : Parents := { parents := Dict.keepLast id id seriesIds }

/-- `parents[value]`. -/
def get (value : Nat) : Except ClusterError Nat :=
  match p.parents.lookup value with
  | some parent => .ok parent
  | none => .error .keyError

/-- `parents[value] = parent`. -/
def set (value parent : Nat) : Parents :=
  { parents := p.parents.insert value parent, writes := p.writes ++ [(value, parent)] }

/-- The dictionary after the first assignments of `p`. -/
def after (seriesIds : List Nat) (n : Nat) : Dict Nat Nat :=
  (p.writes.take n).foldl (fun d w => d.insert w.1 w.2) (singles seriesIds).parents

/-- `find`. -/
def find (fuel : Nat) (p : Parents) (value : Nat) : Except ClusterError (Parents × Nat) :=
  match fuel with
  | 0 => .error .unfinished
  | fuel + 1 => do
    let parent ← p.get value
    if parent = value then pure (p, value)
    else
      let grandparent ← p.get parent
      (p.set value grandparent).find fuel grandparent

/-- `union`. -/
def union (fuel : Nat) (p : Parents) (left right : Nat) : Except ClusterError Parents := do
  let found ← p.find fuel left
  let found' ← found.1.find fuel right
  if found.2 = found'.2 then pure found'.1
  else pure (found'.1.set (max found.2 found'.2) (min found.2 found'.2))

/-- The union of the pairs one after the other. -/
def unions (fuel : Nat) (p : Parents) : List (Nat × Nat) → Except ClusterError Parents
  | [] => pure p
  | pair :: pairs => do
    let p ← p.union fuel pair.1 pair.2
    p.unions fuel pairs

/-- `find(series_id)` of one series after the other, each with its root. -/
def findAll (fuel : Nat) (p : Parents) :
    List Nat → Except ClusterError (Parents × List (Nat × Nat))
  | [] => pure (p, [])
  | seriesId :: seriesIds => do
    let found ← p.find fuel seriesId
    let rest ← found.1.findAll fuel seriesIds
    pure (rest.1, (found.2, seriesId) :: rest.2)

end Parents

/-- `equivalent_series_clusters` of a set of series, from the series of its groups on. -/
def seriesClusters (fuel : Nat) (seriesIds : List Nat) (groups : List (List Nat)) :
    Except ClusterError (Parents × Dict Nat (List Nat)) := do
  let parents ← (Parents.singles seriesIds).unions fuel (groups.flatMap pairs)
  let found ← parents.findAll fuel seriesIds
  pure (found.1, clustersOf found.2)

namespace Parents

/-! ## The forest -/

section
variable {p : Parents} {seriesIds : List Nat} {f : Forest} {v w a b fuel : Nat}
  {pairs : List (Nat × Nat)}

/-- The dictionary holds the parents of the forest, and no assignment was to a larger one. -/
structure Represents (p : Parents) (seriesIds : List Nat) (f : Forest) : Prop where
  lookup : ∀ v ∈ seriesIds, p.parents.lookup v = some (f.parent v)
  closed : ∀ v ∈ seriesIds, f.parent v ∈ seriesIds
  le : ∀ w ∈ p.writes, w.2 ≤ w.1
  all : p.parents = p.after seriesIds p.writes.length

theorem lookup_singles (v : Nat) :
    (singles seriesIds).parents.lookup v = if v ∈ seriesIds then some v else none := by
  split
  · rename_i hv
    exact Dict.lookup_keepLast_eq (fun w _ he => he) ⟨v, hv, rfl⟩
  · rename_i hv
    exact Dict.lookup_keepLast_none fun w hw he => hv (he ▸ hw)

theorem represents_singles : (singles seriesIds).Represents seriesIds Forest.singles where
  lookup v hv := by
    rw [lookup_singles, if_pos hv]
    rfl
  closed _ hv := hv
  le w hw := by cases hw
  all := rfl

/-- An assignment. -/
theorem Represents.set (h : p.Represents seriesIds f) (hle : w ≤ v) (hw : w ∈ seriesIds) :
    (p.set v w).Represents seriesIds (f.setParent v w hle) where
  lookup u hu := by
    rcases eq_or_ne u v with rfl | hne
    · rw [Parents.set, AList.lookup_insert, f.setParent_self]
    · rw [Parents.set, AList.lookup_insert_ne hne, f.setParent_of_ne hne]
      exact h.lookup u hu
  closed u hu := by
    rcases eq_or_ne u v with rfl | hne
    · rw [f.setParent_self]
      exact hw
    · rw [f.setParent_of_ne hne]
      exact h.closed u hu
  le x hx := by
    rcases List.mem_append.mp hx with hx | hx
    · exact h.le x hx
    · obtain rfl := List.mem_singleton.mp hx
      exact hle
  all := by
    have hall := h.all
    rw [after, List.take_length] at hall ⊢
    rw [Parents.set, List.foldl_append, ← hall]
    rfl

/-- The loop of `find` ends, with the root, after less turns than the series' id has. -/
theorem Represents.find (h : p.Represents seriesIds f) (hv : v ∈ seriesIds) (hfuel : v < fuel) :
    ∃ p', p.find fuel v = .ok (p', (f.find v).2) ∧ p'.Represents seriesIds (f.find v).1 ∧
      (f.find v).2 ∈ seriesIds := by
  induction fuel generalizing p f v with
  | zero => omega
  | succ fuel ih =>
    have hget : ∀ u ∈ seriesIds, p.get u = .ok (f.parent u) := fun u hu => by
      rw [get, h.lookup u hu]
    rw [Parents.find, Forest.find, hget v hv]
    show ∃ p', (if f.parent v = v then _ else _) = _ ∧ _
    by_cases hroot : f.parent v = v
    · rw [if_pos hroot, if_pos hroot]
      exact ⟨p, rfl, h, hv⟩
    · rw [if_neg hroot, if_neg hroot, hget _ (h.closed v hv)]
      have hlt := f.grandparent_lt hroot
      have hgrand := h.closed _ (h.closed v hv)
      exact ih (h.set (Nat.le_of_lt hlt) hgrand) hgrand (by omega)

theorem Represents.union (h : p.Represents seriesIds f) (ha : a ∈ seriesIds) (hb : b ∈ seriesIds)
    (hfuel : ∀ v ∈ seriesIds, v < fuel) :
    ∃ p', p.union fuel a b = .ok p' ∧ p'.Represents seriesIds (f.union a b) := by
  obtain ⟨p₁, he₁, h₁, hr₁⟩ := h.find ha (hfuel a ha)
  obtain ⟨p₂, he₂, h₂, hr₂⟩ := h₁.find hb (hfuel b hb)
  rw [Parents.union, he₁]
  show ∃ p', (p₁.find fuel b >>= _) = _ ∧ _
  rw [he₂]
  unfold Forest.union
  by_cases hsame : (f.find a).2 = ((f.find a).1.find b).2
  · refine ⟨p₂, if_pos hsame, ?_⟩
    simp only [if_pos hsame]
    exact h₂
  · refine ⟨_, if_neg hsame, ?_⟩
    simp only [if_neg hsame]
    refine h₂.set min_le_max ?_
    rcases min_choice (f.find a).2 ((f.find a).1.find b).2 with hm | hm <;> rw [hm]
    · exact hr₁
    · exact hr₂

theorem Represents.unions (h : p.Represents seriesIds f)
    (hpairs : ∀ pair ∈ pairs, pair.1 ∈ seriesIds ∧ pair.2 ∈ seriesIds)
    (hfuel : ∀ v ∈ seriesIds, v < fuel) :
    ∃ p', p.unions fuel pairs = .ok p' ∧ p'.Represents seriesIds (f.unions pairs) := by
  induction pairs generalizing p f with
  | nil => exact ⟨p, rfl, h⟩
  | cons pair pairs ih =>
    obtain ⟨ha, hb⟩ := hpairs pair List.mem_cons_self
    obtain ⟨p₁, he₁, h₁⟩ := h.union ha hb hfuel
    rw [Parents.unions, he₁]
    exact ih h₁ fun q hq => hpairs q (List.mem_cons_of_mem _ hq)

theorem Represents.findAll {l : List Nat} (h : p.Represents seriesIds f)
    (hl : ∀ v ∈ l, v ∈ seriesIds) (hfuel : ∀ v ∈ seriesIds, v < fuel) :
    ∃ p' f', p.findAll fuel l = .ok (p', f.findAll l) ∧ p'.Represents seriesIds f' := by
  induction l generalizing p f with
  | nil => exact ⟨p, f, rfl, h⟩
  | cons v l ih =>
    have hv := hl v List.mem_cons_self
    obtain ⟨p₁, he₁, h₁, -⟩ := h.find hv (hfuel v hv)
    obtain ⟨p₂, f', he₂, h₂⟩ := ih h₁ fun u hu => hl u (List.mem_cons_of_mem _ hu)
    refine ⟨p₂, f', ?_, h₂⟩
    rw [Parents.findAll, he₁]
    show (p₁.findAll fuel l >>= _) = _
    rw [he₂]
    rfl

/-- No parent was larger at any time. -/
theorem Represents.after_le (h : p.Represents seriesIds f) (n : Nat)
    (hl : (p.after seriesIds n).lookup v = some w) : w ≤ v := by
  have hgen : ∀ (l : List (Nat × Nat)) (d : Dict Nat Nat), (∀ x ∈ l, x.2 ≤ x.1) →
      (∀ v w, d.lookup v = some w → w ≤ v) →
      ∀ v w, (l.foldl (fun d x => d.insert x.1 x.2) d).lookup v = some w → w ≤ v := by
    intro l
    induction l with
    | nil => exact fun d _ hd => hd
    | cons x l ih =>
      intro d hx hd
      refine ih _ (fun y hy => hx y (List.mem_cons_of_mem _ hy)) fun v w hvw => ?_
      rcases eq_or_ne v x.1 with rfl | hne
      · rw [AList.lookup_insert] at hvw
        exact Option.some.inj hvw ▸ hx x List.mem_cons_self
      · rw [AList.lookup_insert_ne hne] at hvw
        exact hd v w hvw
  refine hgen _ _ (fun x hx => h.le x (List.mem_of_mem_take hx)) (fun v w hvw => ?_) v w hl
  rw [lookup_singles] at hvw
  split at hvw
  · exact Option.some.inj hvw ▸ le_rfl
  · cases hvw

end

end Parents

section
variable {seriesIds : List Nat} {groups : List (List Nat)} {fuel : Nat}

/-- The loops give the clusters of the forest, with fuel for an id. -/
theorem seriesClusters_eq (hgroups : ∀ group ∈ groups, ∀ a ∈ group, a ∈ seriesIds)
    (hfuel : ∀ a ∈ seriesIds, a < fuel) :
    ∃ p f, seriesClusters fuel seriesIds groups = .ok (p, clustersOf
      ((Forest.singles.unions (groups.flatMap pairs)).findAll seriesIds)) ∧
      p.Represents seriesIds f := by
  have hpairs : ∀ pair ∈ groups.flatMap pairs, pair.1 ∈ seriesIds ∧ pair.2 ∈ seriesIds := by
    intro pair hpair
    obtain ⟨group, hgroup, hp⟩ := List.mem_flatMap.mp hpair
    obtain ⟨h₁, h₂⟩ := mem_of_mem_pairs hp
    exact ⟨hgroups group hgroup _ h₁, hgroups group hgroup _ h₂⟩
  obtain ⟨p₁, he₁, h₁⟩ := Parents.represents_singles.unions hpairs hfuel
  obtain ⟨p₂, f, he₂, h₂⟩ := h₁.findAll (fun v hv => hv) hfuel
  refine ⟨p₂, f, ?_, h₂⟩
  rw [seriesClusters, he₁]
  show (p₁.findAll fuel seriesIds >>= _) = _
  rw [he₂]
  rfl

/-- `equivalent_series_clusters` is these loops over the groups of the session. -/
theorem equivalentSeriesClusters_loops {t : CatalogText} {s : Gallery}
    (hk : Table.Keyed CatalogSourceSeries.id s.identities) (hfuel : ∀ a ∈ seriesIds, a < fuel) :
    ∃ groups p clusters, s.providerDuplicateGroups t (some seriesIds) [] = some groups ∧
      seriesClusters fuel seriesIds (groups.map (·.seriesIds)) = .ok (p, clusters) ∧
      s.equivalentSeriesClusters t seriesIds = some clusters := by
  obtain ⟨groups, hgroups, hasked⟩ := Gallery.providerDuplicateGroups_asked t seriesIds hk
  have hids : ∀ ids ∈ groups.map (·.seriesIds), ∀ a ∈ ids, a ∈ seriesIds := fun ids hids => by
    obtain ⟨group, hgroup, rfl⟩ := List.mem_map.mp hids
    exact hasked group hgroup
  obtain ⟨p, f, he, -⟩ := seriesClusters_eq hids hfuel
  exact ⟨groups, p, _, hgroups, he, Gallery.equivalentSeriesClusters_eq hgroups hasked⟩

/-- What a cluster is: the component of its series in order, the least id of it first. -/
structure IsComponent (groups : List (List Nat)) (a : Nat) (cluster : List Nat) : Prop where
  self : a ∈ cluster
  sorted : cluster.Pairwise (· < ·)
  mem : ∀ b, b ∈ cluster ↔ Linked groups a b
  first : ∃ m, cluster.head? = some m ∧ ∀ b, Linked groups a b → m ≤ b

/-- A chain of groups does not leave the series. -/
theorem Linked.asked {a b : Nat} (hgroups : ∀ group ∈ groups, ∀ a ∈ group, a ∈ seriesIds)
    (h : Linked groups a b) : a ∈ seriesIds ↔ b ∈ seriesIds := by
  induction h with
  | rel u v huv =>
    obtain ⟨group, hg, hu, hv⟩ := huv
    exact iff_of_true (hgroups group hg u hu) (hgroups group hg v hv)
  | refl u => rfl
  | symm u v _ ih => exact ih.symm
  | trans u v w _ _ ih₁ ih₂ => exact ih₁.trans ih₂

/-- The loops end, and map each series to its component; two series have one cluster exactly when
they are linked, and no parent was larger than its child after any of the assignments. -/
theorem seriesClusters_components (hnd : seriesIds.Nodup)
    (hgroups : ∀ group ∈ groups, ∀ a ∈ group, a ∈ seriesIds)
    (hfuel : ∀ a ∈ seriesIds, a < fuel) :
    ∃ p clusters, seriesClusters fuel seriesIds groups = .ok (p, clusters) ∧
      (∀ a ∈ seriesIds, ∃ cluster, clusters.lookup a = some cluster ∧
        IsComponent groups a cluster) ∧
      (∀ a ∈ seriesIds, ∀ b ∈ seriesIds,
        clusters.lookup a = clusters.lookup b ↔ Linked groups a b) ∧
      p.parents = p.after seriesIds p.writes.length ∧
      ∀ n v w, (p.after seriesIds n).lookup v = some w → w ≤ v := by
  obtain ⟨p, f, he, hp⟩ := seriesClusters_eq hgroups hfuel
  refine ⟨p, _, he, ?_⟩
  set g := Forest.singles.unions (groups.flatMap pairs) with hg
  have hlinked : ∀ a b, g.Same a b ↔ Linked groups a b := fun a b =>
    Forest.unions_same.trans eqvGen_pairs
  have hcluster : ∀ a ∈ seriesIds, ∃ cluster,
      (clustersOf (g.findAll seriesIds)).lookup a = some cluster ∧
        IsComponent groups a cluster := by
    intro a ha
    obtain ⟨cluster, hl, hsorted, hmem⟩ := (lookup_clustersOf g hnd a).1 ha
    have hall : ∀ b, b ∈ cluster ↔ Linked groups a b := fun b => by
      rw [hmem, hlinked, and_iff_right_iff_imp]
      exact fun h => (h.asked hgroups).mp ha
    have hself : a ∈ cluster := (hall a).mpr (EqvGen.refl a)
    refine ⟨cluster, hl, hself, hsorted, hall, ?_⟩
    cases cluster with
    | nil => cases hself
    | cons m rest =>
      refine ⟨m, rfl, fun b hb => ?_⟩
      rcases List.mem_cons.mp ((hall b).mpr hb) with rfl | hb
      · exact le_rfl
      · exact Nat.le_of_lt (List.rel_of_pairwise_cons hsorted hb)
  refine ⟨hcluster, fun a ha b hb => ⟨fun h => ?_, fun h => ?_⟩, hp.all, fun n v w => hp.after_le n⟩
  · obtain ⟨l, hl, hla⟩ := hcluster a ha
    obtain ⟨l', hl', hlb⟩ := hcluster b hb
    have he : l = l' := Option.some.inj (hl.symm.trans (h.trans hl'))
    exact (hla.mem b).mp (he ▸ hlb.self)
  · obtain ⟨l, hl, hla⟩ := hcluster a ha
    obtain ⟨l', hl', hlb⟩ := hcluster b hb
    rw [hl, hl', Option.some.injEq]
    refine eq_of_pairwise_lt hla.sorted hlb.sorted fun x => ?_
    rw [hla.mem, hlb.mem]
    exact ⟨fun hx => .trans _ _ _ (.symm _ _ h) hx, fun hx => .trans _ _ _ h hx⟩

/-- Two groups that share a series, and a series of its own. -/
theorem seriesClusters_components_five :
    ∃ p clusters, seriesClusters 10 [7, 9, 2, 5, 4] [[5, 7], [2, 7], [4]] = .ok (p, clusters) ∧
      (∀ a ∈ [7, 9, 2, 5, 4], ∀ b ∈ [7, 9, 2, 5, 4], clusters.lookup a = clusters.lookup b ↔
        Linked [[5, 7], [2, 7], [4]] a b) := by
  have hnd : [7, 9, 2, 5, 4].Nodup := by decide
  have hgroups : ∀ group ∈ [[5, 7], [2, 7], [4]], ∀ a ∈ group, a ∈ [7, 9, 2, 5, 4] := by decide
  have hfuel : ∀ a ∈ [7, 9, 2, 5, 4], a < 10 := by decide
  obtain ⟨p, clusters, he, -, hsame, -⟩ := seriesClusters_components hnd hgroups hfuel
  exact ⟨p, clusters, he, hsame⟩

example : (seriesClusters 10 [7, 9, 2, 5, 4] [[5, 7], [2, 7], [4]]).toOption.map
    (fun r => (r.2.lookup 7, r.2.lookup 9)) = some (some [2, 5, 7], some [9]) := by
  decide +kernel

end

end MangaManager
