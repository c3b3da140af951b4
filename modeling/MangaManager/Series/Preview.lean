import MangaManager.Series.Listings

/-!
# The merge preview

`provider_merge_conflicts`, the check the page runs before it offers a merge, looks at the
identities of one provider pair by pair. `merge_canonical_series` looks at the same pairs
first, and once more at each round, when the kept identities have absorbed others. The two
agree exactly when series whose listings are compatible two by two can be joined one after
the other (`preview_agrees_iff`).
-/

namespace MangaManager

open Lib

namespace Listing

variable (t : TextLib)

/-- The first series can be joined with the others one after the other. -/
def AllFoldUp : List (Finset Listing) → Prop
  | [] => True
  | g :: rest => FoldsUp t g rest

instance : (l : List (Finset Listing)) → Decidable (AllFoldUp t l)
  | [] => inferInstanceAs (Decidable True)
  | g :: rest => inferInstanceAs (Decidable (FoldsUp t g rest))

instance : Std.Symm (Compatible t) where
  symm _ _ h l hl r hr he := clashes_comm t r l ▸ h r hr l hl he.symm

end Listing

namespace Collection

variable (t : TextLib) (s : Collection)

/-- No two of a provider's identities must not end up in one series. -/
def resolvable : List CatalogSourceSeries → Bool
  | [] => true
  | left :: rest => rest.all (fun right => !s.conflicting t left right) && resolvable rest

/-- `provider_merge_conflicts`. -/
def providerMergeConflicts (ids : List Nat) : List String :=
  let identities := s.identities.filter (·.seriesId ∈ ids)
  let grouped (source : String) := identities.filter (·.source == source)
  let conflicts := (identities.map (·.source)).eraseDups.filter fun source =>
    2 ≤ (grouped source).length && !s.resolvable t (grouped source)
  conflicts.insertionSort (· ≤ ·)

/-- The merge does not raise a 409. -/
def Accepted (ids : List Nat) (now : Time) : Prop :=
  ∀ e, s.mergeCanonicalSeries t ids now = .error e → e.status ≠ some 409

/-- The listings of the series, in the order they are merged. -/
def listingGroups (ids : List Nat) : List (Finset Listing) := (s.mergeOrder ids).map s.listings

/-- The series exist, with an identity each and one of a provider, and none of them has a leased
job. -/
structure Mergeable (s : Collection) (ids : List Nat) : Prop where
  listings : s.ListingsOk
  series : Table.Keyed CatalogSeries.id s.series
  exist : ∀ u ∈ ids, ∃ row ∈ s.series, row.id = u
  one : ∀ u ∈ ids, s.OnePerSource u
  free : s.anyLeased ids = false

section
variable {t : TextLib} {s : Collection} {ids : List Nat} {now : Time}

/-! ## The preview -/

theorem resolvable_iff {l : List CatalogSourceSeries} :
    s.resolvable t l = true ↔ l.Pairwise fun i j => s.conflicting t i j = false := by
  induction l with
  | nil => simp [resolvable]
  | cons i l ih => simp [resolvable, ih]

theorem resolvable_short {l : List CatalogSourceSeries} (h : l.length < 2) :
    s.resolvable t l = true := by
  match l, h with
  | [], _ => rfl
  | [_], _ => rfl

instance : Std.Symm fun i j => s.conflicting t i j = false where
  symm _ _ h := conflicting_comm.trans h

/-- The series of the list are compatible two by two. -/
def Agreeable (t : TextLib) (s : Collection) (ids : List Nat) : Prop :=
  ∀ u ∈ ids, ∀ v ∈ ids, u ≠ v → Listing.Compatible t (s.listings u) (s.listings v)

theorem providerMergeConflicts_nil (hk : Table.Keyed CatalogSourceSeries.id s.identities)
    (hone : ∀ u ∈ ids, s.OnePerSource u) :
    s.providerMergeConflicts t ids = [] ↔ Agreeable t s ids := by
  have hgroup : ∀ src i, i ∈ (s.identities.filter (·.seriesId ∈ ids)).filter (·.source == src) ↔
      (i ∈ s.identities ∧ i.seriesId ∈ ids) ∧ i.source = src := by
    intro src i
    rw [List.mem_filter, List.mem_filter, beq_iff_eq, decide_eq_true_eq]
  have hnd : ∀ src, ((s.identities.filter (·.seriesId ∈ ids)).filter (·.source == src)).Nodup :=
    fun src => ((List.Nodup.of_map _ hk).filter _).filter _
  have hnil : s.providerMergeConflicts t ids = [] ↔ ∀ src, s.resolvable t
      ((s.identities.filter (·.seriesId ∈ ids)).filter (·.source == src)) = true := by
    unfold providerMergeConflicts
    dsimp only
    rw [List.eq_nil_iff_forall_not_mem]
    simp only [List.mem_insertionSort, List.mem_filter, List.mem_eraseDups, not_and]
    refine forall_congr' fun src => ?_
    constructor
    · intro h
      by_cases hlen : 2 ≤ ((s.identities.filter (·.seriesId ∈ ids)).filter (·.source == src)).length
      · obtain ⟨i, hi⟩ := List.exists_mem_of_length_pos (Nat.lt_of_lt_of_le Nat.two_pos hlen)
        rw [List.mem_filter, beq_iff_eq] at hi
        have hno := h (List.mem_map.mpr ⟨i, hi⟩)
        rw [decide_eq_true hlen, Bool.true_and, Bool.not_eq_true, Bool.not_eq_false'] at hno
        exact hno
      · exact resolvable_short (Nat.lt_of_not_le hlen)
    · intro h _
      rw [h]
      simp
  rw [hnil]
  constructor
  · intro h u hu v hv hne l hl r hr he
    obtain ⟨i, hi, rfl, rfl⟩ := mem_listings.mp hl
    obtain ⟨j, hj, rfl, rfl⟩ := mem_listings.mp hr
    rw [← conflicting_eq]
    refine (resolvable_iff.mp (h i.source)).forall ((hgroup _ i).mpr ⟨⟨hi, hu⟩, rfl⟩)
      ((hgroup _ j).mpr ⟨⟨hj, hv⟩, he.symm⟩) fun hij => hne ?_
    rw [hij]
  · intro h src
    refine resolvable_iff.mpr (List.Nodup.pairwise_of_forall_ne (hnd src) fun i hi j hj hij => ?_)
    obtain ⟨⟨him, hiu⟩, hsrc⟩ := (hgroup src i).mp hi
    obtain ⟨⟨hjm, hju⟩, he⟩ := (hgroup src j).mp hj
    have he : i.source = j.source := hsrc.trans he.symm
    rw [conflicting_eq]
    refine h _ hiu _ hju (fun hu => hij ?_) _ (mem_listings.mpr ⟨i, him, rfl, rfl⟩) _
      (mem_listings.mpr ⟨j, hjm, rfl, rfl⟩) he
    exact (hone _ hiu).unique i him j hjm rfl hu.symm he

/-! ## The merge -/

theorem firstConflict_none (hone : ∀ u ∈ ids, s.OnePerSource u) (hex : ∀ u ∈ ids, ∃ row ∈ s.series, row.id = u) :
    s.firstConflict t (s.selectedSeries ids) = none ↔ Agreeable t s ids := by
  unfold firstConflict
  rw [List.head?_eq_none_iff, List.eq_nil_iff_forall_not_mem]
  constructor
  · intro h u hu v hv hne
    -- the pass looks at the two in the order of their ids
    have hlt : ∀ u ∈ ids, ∀ v ∈ ids, u < v →
        Listing.Compatible t (s.listings u) (s.listings v) := by
      intro u hu v hv huv
      rw [compatible_iff (hone u hu) (hone v hv)]
      rintro ⟨p, hp, hc⟩
      obtain ⟨row, hr, rfl⟩ := hex u hu
      obtain ⟨other, ho, rfl⟩ := hex v hv
      refine h p.1.source (List.mem_flatMap.mpr ⟨row, mem_selectedSeries.mpr ⟨hr, hu⟩,
        List.mem_flatMap.mpr ⟨other, List.mem_filter.mpr ⟨mem_selectedSeries.mpr ⟨ho, hv⟩, ?_⟩,
        List.mem_filterMap.mpr ⟨p, hp, if_pos hc⟩⟩⟩)
      exact decide_eq_true huv
    rcases Nat.lt_or_gt_of_ne hne with huv | huv
    · exact hlt u hu v hv huv
    · exact symm (hlt v hv u hu huv)
  · intro h src hm
    obtain ⟨row, hr, hm⟩ := List.mem_flatMap.mp hm
    obtain ⟨other, ho, hm⟩ := List.mem_flatMap.mp hm
    obtain ⟨ho, hlt⟩ := List.mem_filter.mp ho
    obtain ⟨p, hp, hm⟩ := List.mem_filterMap.mp hm
    obtain ⟨-, hu⟩ := mem_selectedSeries.mp hr
    obtain ⟨-, hv⟩ := mem_selectedSeries.mp ho
    have hc := h _ hu _ hv (Nat.ne_of_lt (of_decide_eq_true hlt))
    rw [compatible_iff (hone _ hu) (hone _ hv)] at hc
    refine hc ⟨p, hp, ?_⟩
    by_contra hno
    have hm : (if s.conflicting t p.1 p.2 then some p.1.source else none) = some src := hm
    rw [if_neg hno] at hm
    cases hm

theorem selectedSeries_perm (hk : Table.Keyed CatalogSeries.id s.series)
    (hex : ∀ u ∈ ids, ∃ row ∈ s.series, row.id = u) :
    ((s.selectedSeries ids).map (·.id)).Perm ids.eraseDups := by
  have hnd : ((s.selectedSeries ids).map (·.id)).Nodup :=
    ((List.perm_insertionSort _ _).map _).nodup_iff.mpr hk.filter
  refine (List.perm_ext_iff_of_nodup hnd (Table.nodup_eraseDups ids)).mpr fun u => ?_
  rw [List.mem_map, List.mem_eraseDups]
  constructor
  · rintro ⟨row, hr, rfl⟩
    exact (mem_selectedSeries.mp hr).2
  · intro hu
    obtain ⟨row, hr, rfl⟩ := hex u hu
    exact ⟨row, mem_selectedSeries.mpr ⟨hr, hu⟩, rfl⟩

/-- The series of the merge order are those of the list, each of them once. -/
theorem mergeOrder_perm (hk : Table.Keyed CatalogSeries.id s.series)
    (hex : ∀ u ∈ ids, ∃ row ∈ s.series, row.id = u) : (s.mergeOrder ids).Perm ids.eraseDups := by
  refine List.Perm.trans ?_ (selectedSeries_perm hk hex)
  have hkey : Table.Keyed CatalogSeries.id (s.selectedSeries ids) :=
    ((List.perm_insertionSort _ _).map _).nodup_iff.mpr hk.filter
  unfold mergeOrder
  split
  · rename_i hnone
    rw [List.argmax_eq_none.mp hnone]
    rfl
  · rename_i target ht
    have hnd : (target.id :: ((s.selectedSeries ids).filter (·.id != target.id)).map (·.id)).Nodup := by
      refine List.nodup_cons.mpr ⟨fun hm => ?_, hkey.filter⟩
      obtain ⟨x, hx, he⟩ := List.mem_map.mp hm
      simpa [he] using (List.mem_filter.mp hx).2
    refine (List.perm_ext_iff_of_nodup hnd hkey).mpr fun u => ?_
    rw [List.mem_cons, List.mem_map, List.mem_map]
    constructor
    · rintro (rfl | ⟨row, hr, rfl⟩)
      · exact ⟨target, List.argmax_mem ht, rfl⟩
      · exact ⟨row, (List.mem_filter.mp hr).1, rfl⟩
    · rintro ⟨row, hr, rfl⟩
      by_cases he : row.id = target.id
      · exact .inl he
      · exact .inr ⟨row, List.mem_filter.mpr ⟨hr, by simpa using he⟩, rfl⟩

theorem agreeable_iff (hk : Table.Keyed CatalogSeries.id s.series)
    (hex : ∀ u ∈ ids, ∃ row ∈ s.series, row.id = u) :
    Agreeable t s ids ↔ (s.listingGroups ids).Pairwise (Listing.Compatible t) := by
  have hperm := mergeOrder_perm hk hex
  have hmem : ∀ u, u ∈ s.mergeOrder ids ↔ u ∈ ids := fun u => by
    rw [hperm.mem_iff, List.mem_eraseDups]
  have hnd : (s.mergeOrder ids).Nodup := hperm.nodup_iff.mpr (Table.nodup_eraseDups ids)
  unfold listingGroups
  rw [List.pairwise_map]
  constructor
  · intro h
    exact hnd.pairwise_of_forall_ne fun u hu v hv hne =>
      h u ((hmem u).mp hu) v ((hmem v).mp hv) hne
  · intro h u hu v hv hne
    have : Std.Symm fun u v => Listing.Compatible t (s.listings u) (s.listings v) :=
      ⟨fun _ _ h => symm h⟩
    exact h.forall ((hmem u).mpr hu) ((hmem v).mpr hv) hne

/-- What the merge checks, on the listings. -/
theorem accepted_iff (h : s.Mergeable ids) :
    s.Accepted t ids now ↔ (s.listingGroups ids).Pairwise (Listing.Compatible t) ∧
      Listing.AllFoldUp t (s.listingGroups ids) := by
  obtain ⟨hok, hk, hex, hone, hleased⟩ := h
  have hperm := mergeOrder_perm hk hex
  have hrows : (s.selectedSeries ids).length = ids.eraseDups.length := by
    rw [← (selectedSeries_perm hk hex).length_eq, List.length_map]
  have hconflict := firstConflict_none (t := t) hone hex
  rw [agreeable_iff hk hex] at hconflict
  unfold Accepted mergeCanonicalSeries
  dsimp only
  rw [if_neg (show ¬ (s.selectedSeries ids).length ≠ ids.eraseDups.length from not_not.mpr hrows),
    hleased]
  split
  · -- one series at most
    rename_i hfew
    have hshort : (s.listingGroups ids).length < 2 := by
      rwa [listingGroups, List.length_map, hperm.length_eq]
    refine iff_of_true (fun e he => ?_) ?_
    · cases he
      decide
    · match s.listingGroups ids, hshort with
      | [], _ => exact ⟨.nil, trivial⟩
      | [_], _ => exact ⟨List.pairwise_singleton _ _, trivial⟩
  · rename_i hmany
    rw [if_neg Bool.false_ne_true]
    split
    · rename_i src hc
      refine iff_of_false (fun h => h _ rfl rfl) fun h => ?_
      rw [hconflict.mpr h.1] at hc
      cases hc
    · rename_i hc
      rw [and_iff_right (hconflict.mp hc)]
      split
      · rename_i hnone
        rw [List.argmax_eq_none.mp hnone, List.length_nil] at hrows
        omega
      · rename_i row hrow
        have hgroups : s.listingGroups ids = s.listings row.id ::
            (((s.selectedSeries ids).filter (·.id != row.id)).map (·.id)).map s.listings := by
          unfold listingGroups mergeOrder
          rw [hrow]
          rfl
        have horder : s.mergeOrder ids =
            row.id :: ((s.selectedSeries ids).filter (·.id != row.id)).map (·.id) := by
          unfold mergeOrder
          rw [hrow]
        have hmem : ∀ u ∈ row.id :: ((s.selectedSeries ids).filter (·.id != row.id)).map (·.id),
            s.OnePerSource u := by
          intro u hu
          rw [← horder, hperm.mem_iff, List.mem_eraseDups] at hu
          exact hone u hu
        have hnd : (row.id :: ((s.selectedSeries ids).filter (·.id != row.id)).map (·.id)).Nodup := by
          rw [← horder]
          exact hperm.nodup_iff.mpr (Table.nodup_eraseDups ids)
        -- the new status is written before the rounds, and no table they read
        have hstart : (s.withStatus row (s.selectedSeries ids)).ListingsOk :=
          ⟨hok.identities, ⟨hok.chapters.keyed, hok.chapters.numbers⟩, hok.releases⟩
        have hone' : ∀ u, s.OnePerSource u →
            (s.withStatus row (s.selectedSeries ids)).OnePerSource u :=
          fun u h => ⟨h.unique, h.nonempty⟩
        have hfold := foldlM_mergeInto_listings (t := t) hstart hnd
          (hone' _ (hmem _ List.mem_cons_self))
          fun u hu => hone' u (hmem u (List.mem_cons_of_mem _ hu))
        rw [hgroups]
        split at hfold
        · rename_i hf
          obtain ⟨s', he⟩ := hfold
          rw [he]
          refine iff_of_true (fun e he => ?_) hf
          dsimp only at he
          split at he
          · cases he
            exact fun h => (by cases h)
          · cases he
        · rename_i hf
          obtain ⟨src, he⟩ := hfold
          rw [he]
          exact iff_of_false (fun h => h _ rfl rfl) hf

/-- The preview and the merge agree, if and only if series that are compatible two by two can be
joined one after the other. -/
theorem preview_agrees_iff (t : TextLib) (s : Collection) (ids : List Nat) (now : Time)
    (h : s.Mergeable ids) :
    (s.Accepted t ids now ↔ s.providerMergeConflicts t ids = []) ↔
      ((s.listingGroups ids).Pairwise (Listing.Compatible t) →
        Listing.AllFoldUp t (s.listingGroups ids)) := by
  rw [accepted_iff h, providerMergeConflicts_nil h.listings.identities h.one,
    agreeable_iff h.series h.exist, and_iff_left_iff_imp]

end

/-- Titles of one provider, with the numbers of their chapters; the first one has a cover. -/
def titlesOf (titles : List (Nat × List Nat)) : Collection :=
  let rows := titles.flatMap fun (u, numbers) => numbers.map fun n => (u, n)
  { identities := titles.map fun (u, _) =>
      { id := u, seriesId := u, source := "mangadex", sourceId := toString u, title := "", url := "" }
    chapters := rows.map fun (u, n) =>
      { id := 100 * u + n, seriesId := u, canonicalNumber := toString n, createdAt := 0 }
    releases := rows.map fun (u, n) =>
      { id := 100 * u + n + 1, id_pos := Nat.succ_pos _, chapterId := 100 * u + n
        source := "mangadex", sourceSeriesId := u, sourceReleaseId := toString (100 * u + n) }
    series := titles.map fun (u, _) =>
      { id := u, storageKey := toString u, coverUrl := if u = 1 then "cover" else "" } }

def threeTitles : Collection := titlesOf [(1, [1, 2, 3, 4]), (2, [1, 2, 5, 6]), (3, [1, 2, 7, 8, 9])]

/-- The tables of the titles are in order. -/
theorem titlesOf_mergeable {titles : List (Nat × List Nat)} {ids : List Nat}
    (hl : (titlesOf titles).ListingsOk)
    (hs : Table.Keyed CatalogSeries.id (titlesOf titles).series)
    (hone : ∀ u ∈ ids, (∃ row ∈ (titlesOf titles).series, row.id = u) ∧
      (∀ i ∈ (titlesOf titles).identities, ∀ j ∈ (titlesOf titles).identities, i.seriesId = u →
        j.seriesId = u → i.source = j.source → i = j) ∧
      ∃ i ∈ (titlesOf titles).identities, i.seriesId = u) : (titlesOf titles).Mergeable ids :=
  ⟨hl, hs, fun u hu => (hone u hu).1, fun u hu => ⟨(hone u hu).2.1, (hone u hu).2.2⟩, rfl⟩

/-- The first title takes two numbers of the second that the third lacks: then they share two of
five. -/
theorem threeTitles_disagree : threeTitles.Mergeable [1, 2, 3] ∧
    ¬ (threeTitles.Accepted asciiText [1, 2, 3] 0 ↔
      threeTitles.providerMergeConflicts asciiText [1, 2, 3] = []) := by
  refine ⟨titlesOf_mergeable ⟨?_, ⟨?_, ?_⟩, ?_⟩ ?_ ?_, fun h => ?_⟩
  · decide +kernel
  · decide +kernel
  · decide +kernel
  · unfold ReleasesOk
    decide +kernel
  · decide +kernel
  · decide +kernel
  · have he : threeTitles.mergeCanonicalSeries asciiText [1, 2, 3] 0 =
        .error (.weakOverlap "mangadex") := by decide +kernel
    exact h.mpr (by decide +kernel) _ he rfl

def twoOverlapping : Collection := titlesOf [(1, [1, 2, 3]), (2, [1, 2, 5])]

theorem preview_agrees_two : twoOverlapping.Accepted asciiText [1, 2] 0 ↔
    twoOverlapping.providerMergeConflicts asciiText [1, 2] = [] := by
  refine (preview_agrees_iff asciiText twoOverlapping [1, 2] 0
    (titlesOf_mergeable ⟨?_, ⟨?_, ?_⟩, ?_⟩ ?_ ?_)).mpr fun _ => ?_
  · decide +kernel
  · decide +kernel
  · decide +kernel
  · unfold ReleasesOk
    decide +kernel
  · decide +kernel
  · decide +kernel
  · decide +kernel

end Collection

end MangaManager
