import MangaManager.Lib.UnionFind
import MangaManager.Series.Duplicates

/-!
# Clusters of equivalent series

`equivalent_series_clusters` (`manga_manager/application/provider_duplicates.py`) joins the
series of each group of `provider_duplicate_groups` with a union-find.

`equivalent_series_clusters_spec`: the cluster of a series holds, in order, the series to
which a chain of groups leads.
-/

namespace MangaManager

open Lib Relation

/-- Increasing lists of the same numbers are equal. -/
theorem eq_of_pairwise_lt {l l' : List Nat} (h : l.Pairwise (· < ·)) (h' : l'.Pairwise (· < ·))
    (hmem : ∀ x, x ∈ l ↔ x ∈ l') : l = l' := by
  refine List.Perm.eq_of_pairwise (fun x y _ _ hxy hyx => absurd hxy (Nat.lt_asymm hyx)) h h' ?_
  exact (List.perm_ext_iff_of_nodup (h.imp Nat.ne_of_lt) (h'.imp Nat.ne_of_lt)).mpr hmem

/-- `by_series`; `rooted` are the roots of the series, in the order of the loop. -/
def clustersOf (rooted : List (Nat × Nat)) : Dict Nat (List Nat) :=
  let clusters := Dict.collect Prod.fst Prod.snd rooted
  Dict.keepLast Prod.fst Prod.snd (clusters.entries.flatMap fun e =>
    e.2.map (·, e.2.insertionSort (· ≤ ·)))

/-- The series of a root, in order, are the cluster of each of them. -/
theorem lookup_clustersOf (f : Forest) {seriesIds : List Nat} (hnd : seriesIds.Nodup) (a : Nat) :
    (a ∈ seriesIds → ∃ cluster, (clustersOf (f.findAll seriesIds)).lookup a = some cluster ∧
      cluster.Pairwise (· < ·) ∧ ∀ b, b ∈ cluster ↔ b ∈ seriesIds ∧ f.Same a b) ∧
    (a ∉ seriesIds → (clustersOf (f.findAll seriesIds)).lookup a = none) := by
  set members : Nat → List Nat := fun r => seriesIds.filter (f.root · = r) with hmembers
  have hmem : ∀ {b r}, b ∈ members r ↔ b ∈ seriesIds ∧ f.root b = r := by simp [hmembers]
  have hlookup : ∀ r, (Dict.collect Prod.fst Prod.snd (f.findAll seriesIds)).lookup r =
      if (members r).isEmpty then none else some (members r) := by
    intro r
    rw [Dict.lookup_collect, Forest.findAll_eq, List.filter_map, List.map_map]
    have hid : (Prod.snd ∘ fun v => (f.root v, v)) = id := rfl
    have hroot : ((fun x : Nat × Nat => decide (x.1 = r)) ∘ fun v => (f.root v, v)) =
      fun v => decide (f.root v = r) := rfl
    rw [hid, hroot, List.map_id, List.isEmpty_map]
  -- the entries that the second loop reads
  have hentry : ∀ {k l}, (⟨k, l⟩ : (_ : Nat) × List Nat) ∈
      (Dict.collect Prod.fst Prod.snd (f.findAll seriesIds)).entries → l = members k := by
    intro k l he
    have hl := AList.mem_lookup_iff.mpr he
    rw [hlookup, Option.mem_def] at hl
    split at hl
    · cases hl
    · exact (Option.some.inj hl).symm
  refine ⟨fun ha => ?_, fun ha => ?_⟩
  · refine ⟨(members (f.root a)).insertionSort (· ≤ ·), ?_, ?_, fun b => ?_⟩
    · refine Dict.lookup_keepLast_eq (fun r hr hra => ?_) ?_
      · obtain ⟨⟨k, l⟩, he, hr⟩ := List.mem_flatMap.mp hr
        obtain ⟨v, hv, rfl⟩ := List.mem_map.mp hr
        obtain rfl : v = a := hra
        obtain rfl := hentry he
        rw [(hmem.mp hv).2]
      · have hne : (members (f.root a)).isEmpty = false := by
          rw [List.isEmpty_eq_false_iff]
          exact List.ne_nil_of_mem (hmem.mpr ⟨ha, rfl⟩)
        have he : (⟨f.root a, members (f.root a)⟩ : (_ : Nat) × List Nat) ∈
            (Dict.collect Prod.fst Prod.snd (f.findAll seriesIds)).entries := by
          refine AList.mem_lookup_iff.mp ?_
          rw [hlookup, hne]
          rfl
        exact ⟨_, List.mem_flatMap.mpr ⟨_, he, List.mem_map_of_mem (hmem.mpr ⟨ha, rfl⟩)⟩, rfl⟩
    · have hle := List.pairwise_insertionSort (· ≤ ·) (members (f.root a))
      have hnd' : ((members (f.root a)).insertionSort (· ≤ ·)).Nodup :=
        (List.perm_insertionSort _ _).nodup_iff.mpr (hnd.filter _)
      exact (hle.and hnd').imp fun h => lt_of_le_of_ne h.1 h.2
    · rw [List.mem_insertionSort, hmem, Forest.Same, eq_comm (a := f.root b)]
  · refine Dict.lookup_keepLast_none fun r hr hra => ha ?_
    obtain ⟨⟨k, l⟩, he, hr⟩ := List.mem_flatMap.mp hr
    obtain ⟨v, hv, rfl⟩ := List.mem_map.mp hr
    obtain rfl : v = a := hra
    obtain rfl := hentry he
    exact (hmem.mp hv).1

/-- A chain of groups leads from one series to the other. -/
def Linked (groups : List (List Nat)) : Nat → Nat → Prop :=
  EqvGen fun a b => ∃ group ∈ groups, a ∈ group ∧ b ∈ group

/-- The pairs of the groups have the same chains. -/
theorem eqvGen_pairs {groups : List (List Nat)} {a b : Nat} :
    EqvGen (fun u v => (u, v) ∈ groups.flatMap pairs) a b ↔ Linked groups a b := by
  refine ⟨fun hab => EqvGen.mono (fun u v huv => ?_) _ _ hab, fun hab => ?_⟩
  · obtain ⟨group, hg, huv⟩ := List.mem_flatMap.mp huv
    exact ⟨group, hg, mem_of_mem_pairs huv⟩
  · induction hab with
    | refl u => exact .refl u
    | symm u v _ ih => exact .symm _ _ ih
    | trans u v w _ _ ih₁ ih₂ => exact .trans _ _ _ ih₁ ih₂
    | rel u v huv =>
      obtain ⟨group, hg, hu, hv⟩ := huv
      rcases eq_or_ne u v with rfl | hne
      · exact .refl u
      · rcases mem_pairs_of_ne hu hv hne with hp | hp
        · exact .rel _ _ (List.mem_flatMap.mpr ⟨group, hg, hp⟩)
        · exact .symm _ _ (.rel _ _ (List.mem_flatMap.mpr ⟨group, hg, hp⟩))

namespace Gallery

variable (t : CatalogText) (s : Gallery) (seriesIds : List Nat)

/-- `equivalent_series_clusters`; none, when a lookup raises. -/
def equivalentSeriesClusters : Option (Dict Nat (List Nat)) := do
  let groups ← s.providerDuplicateGroups t (some seriesIds) []
  let united := groups.flatMap fun group => pairs group.seriesIds
  -- `parents[value]` of a series that is not asked for
  if united.any fun p => p.1 ∉ seriesIds || p.2 ∉ seriesIds then none
  else
    let clusters := Dict.collect Prod.fst Prod.snd ((Forest.singles.unions united).findAll seriesIds)
    pure (Dict.keepLast Prod.fst Prod.snd (clusters.entries.flatMap fun e =>
      e.2.map (·, e.2.insertionSort (· ≤ ·))))

/-- A group of one provider has identities of both series. -/
def Duplicated (a b : Nat) : Prop :=
  ∃ groups, s.providerDuplicateGroups t (some seriesIds) [] = some groups ∧
    ∃ group ∈ groups, a ∈ group.seriesIds ∧ b ∈ group.seriesIds

/-- A chain of groups leads from one series to the other. -/
def SameCluster : Nat → Nat → Prop := EqvGen (s.Duplicated t seriesIds)

variable {t s seriesIds} {a b c : Nat}

theorem SameCluster.refl (a : Nat) : s.SameCluster t seriesIds a a := EqvGen.refl a

theorem SameCluster.symm (h : s.SameCluster t seriesIds a b) : s.SameCluster t seriesIds b a :=
  EqvGen.symm _ _ h

theorem SameCluster.trans (h : s.SameCluster t seriesIds a b)
    (h' : s.SameCluster t seriesIds b c) : s.SameCluster t seriesIds a c := EqvGen.trans _ _ _ h h'

/-- The groups are made of series that are asked for. -/
theorem duplicateGroup_asked {excludedSources : List String} {group : List CatalogSourceSeries}
    (h : group ∈ s.identityGroups t (s.lookedAt (some seriesIds) excludedSources))
    (ha : a ∈ (s.duplicateGroup t group).seriesIds) : a ∈ seriesIds := by
  have ha : a ∈ group.map (·.seriesId) := List.mem_dedup.mp ((List.mem_insertionSort _).mp ha)
  obtain ⟨i, hi, rfl⟩ := List.mem_map.mp ha
  have hi : i ∈ s.lookedAt (some seriesIds) excludedSources := (mem_identityGroups h).1.subset hi
  have hp := (List.mem_filter.mp ((List.mem_insertionSort _).mp hi)).2
  simpa using (Bool.and_eq_true_iff.mp hp).1

/-- There are groups, and none of another series. -/
theorem providerDuplicateGroups_asked (t : CatalogText) (seriesIds : List Nat)
    (hk : Table.Keyed CatalogSourceSeries.id s.identities) :
    ∃ groups, s.providerDuplicateGroups t (some seriesIds) [] = some groups ∧
      ∀ group ∈ groups, ∀ a ∈ group.seriesIds, a ∈ seriesIds := by
  refine ⟨_, providerDuplicateGroups_eq hk, fun group hgroup a ha => ?_⟩
  obtain ⟨g, hg, rfl⟩ := List.mem_map.mp hgroup
  exact duplicateGroup_asked (List.mem_filter.mp hg).1 ha

/-- The function, once there are groups. -/
theorem equivalentSeriesClusters_eq {groups : List ProviderDuplicateGroup}
    (h : s.providerDuplicateGroups t (some seriesIds) [] = some groups)
    (hasked : ∀ group ∈ groups, ∀ a ∈ group.seriesIds, a ∈ seriesIds) :
    s.equivalentSeriesClusters t seriesIds = some (clustersOf ((Forest.singles.unions
      ((groups.map (·.seriesIds)).flatMap pairs)).findAll seriesIds)) := by
  have hall : ((groups.flatMap fun group => pairs group.seriesIds).any fun p =>
      p.1 ∉ seriesIds || p.2 ∉ seriesIds) = false := by
    refine List.any_eq_false.mpr fun p hp => ?_
    obtain ⟨group, hgroup, hp⟩ := List.mem_flatMap.mp hp
    obtain ⟨h₁, h₂⟩ := mem_of_mem_pairs hp
    simp [hasked group hgroup _ h₁, hasked group hgroup _ h₂]
  rw [equivalentSeriesClusters, h, Option.bind_eq_bind, Option.bind_some,
    if_neg (by rw [hall]; exact Bool.false_ne_true), List.flatMap_map]
  rfl

/-- The chains of `SameCluster` are those of the groups that are found. -/
theorem linked_iff {groups : List ProviderDuplicateGroup}
    (h : s.providerDuplicateGroups t (some seriesIds) [] = some groups) :
    Linked (groups.map (·.seriesIds)) a b ↔ s.SameCluster t seriesIds a b := by
  refine ⟨EqvGen.mono (fun u v huv => ?_) _ _, EqvGen.mono (fun u v huv => ?_) _ _⟩
  · obtain ⟨ids, hids, hu, hv⟩ := huv
    obtain ⟨group, hg, rfl⟩ := List.mem_map.mp hids
    exact ⟨groups, h, group, hg, hu, hv⟩
  · obtain ⟨groups', h', group, hg, hu, hv⟩ := huv
    obtain rfl := Option.some.inj (h'.symm.trans h)
    exact ⟨_, List.mem_map_of_mem hg, hu, hv⟩

/-- The cluster of a series: those of the asked series that are linked to it, in order. -/
def IsCluster (t : CatalogText) (s : Gallery) (seriesIds : List Nat) (a : Nat)
    (cluster : List Nat) : Prop :=
  cluster.Pairwise (· < ·) ∧ ∀ b, b ∈ cluster ↔ b ∈ seriesIds ∧ s.SameCluster t seriesIds a b

theorem equivalent_series_clusters_spec (hk : Table.Keyed CatalogSourceSeries.id s.identities)
    (hnd : seriesIds.Nodup) : ∃ clusters, s.equivalentSeriesClusters t seriesIds = some clusters ∧
      (∀ a ∈ seriesIds, ∃ cluster, clusters.lookup a = some cluster ∧
        s.IsCluster t seriesIds a cluster) ∧
      ∀ a ∉ seriesIds, clusters.lookup a = none := by
  obtain ⟨groups, hgroups, hasked⟩ := providerDuplicateGroups_asked t seriesIds hk
  set f := Forest.singles.unions ((groups.map (·.seriesIds)).flatMap pairs) with hf
  have hroot : ∀ a b, f.Same a b ↔ s.SameCluster t seriesIds a b := fun a b => by
    rw [← linked_iff hgroups, ← eqvGen_pairs]
    exact Forest.unions_same
  refine ⟨clustersOf (f.findAll seriesIds), equivalentSeriesClusters_eq hgroups hasked,
    fun a ha => ?_, fun a ha => (lookup_clustersOf f hnd a).2 ha⟩
  obtain ⟨cluster, hl, hsorted, hmem⟩ := (lookup_clustersOf f hnd a).1 ha
  refine ⟨cluster, hl, hsorted, fun b => ?_⟩
  rw [hmem, hroot]

/-- Two clusters are the same when their series are linked, and share nothing otherwise. -/
theorem IsCluster.eq {l l' : List Nat} (h : s.IsCluster t seriesIds a l)
    (h' : s.IsCluster t seriesIds b l') (hab : s.SameCluster t seriesIds a b) : l = l' := by
  refine eq_of_pairwise_lt h.1 h'.1 fun x => ?_
  rw [h.2, h'.2]
  exact and_congr_right fun _ => ⟨hab.symm.trans, hab.trans⟩

end Gallery

end MangaManager
