import MangaManager.Matches.Review
import MangaManager.Series.Idempotent
import MangaManager.Series.Preview
import MangaManager.Series.Rewritten

/-!
# Rejected matches

A rejected match says that two identities are different titles. `merge_canonical_series` does not
look at it: `merge_separated_iff` says which merges keep the identities of all rejected matches
apart. `Apart` is that with what the tables need for it.
-/

namespace MangaManager

open Lib

/-- The identities that a decision is about. -/
structure CatalogMatchDecision.Between (d : CatalogMatchDecision) (rows : List CatalogSourceSeries)
    (i j : CatalogSourceSeries) : Prop where
  left : i ∈ rows
  right : j ∈ rows
  leftId : i.id = d.leftSourceSeriesId
  rightId : j.id = d.rightSourceSeriesId

theorem CatalogMatchDecision.forall_between {d : CatalogMatchDecision}
    {rows : List CatalogSourceSeries} {Q : CatalogSourceSeries → CatalogSourceSeries → Prop} :
    (∀ i ∈ rows, ∀ j ∈ rows, i.id = d.leftSourceSeriesId → j.id = d.rightSourceSeriesId → Q i j) ↔
      ∀ i j, d.Between rows i j → Q i j :=
  ⟨fun h i j hb => h i hb.left j hb.right hb.leftId hb.rightId,
    fun h i hi j hj hl hr => h i j ⟨hi, hj, hl, hr⟩⟩

namespace Collection

variable {s s' : Collection} {t : TextLib} {ids : List Nat} {target source : Nat} {now : Time}

/-- No rejected match joins two identities of a series. -/
def Separated (s : Collection) : Prop :=
  ∀ d ∈ s.decisions, d.decision = .decided .rejected → ∀ i j, d.Between s.identities i j →
    i.seriesId ≠ j.seriesId

/-- A rejected match of two of the series is about a listing that the merge retires. -/
def JoinsNone (s : Collection) (ids : List Nat) : Prop :=
  ∀ d ∈ s.decisions, d.decision = .decided .rejected → ∀ i j, d.Between s.identities i j →
    i.seriesId ∈ ids → j.seriesId ∈ ids →
      i.id ∈ (s.retiredListings ids).map (·.id) ∨ j.id ∈ (s.retiredListings ids).map (·.id)

instance (s : Collection) (ids : List Nat) : Decidable (s.JoinsNone ids) :=
  decidable_of_iff (∀ d ∈ s.decisions, d.decision = .decided .rejected → ∀ i ∈ s.identities,
      ∀ j ∈ s.identities, i.id = d.leftSourceSeriesId → j.id = d.rightSourceSeriesId →
        i.seriesId ∈ ids → j.seriesId ∈ ids →
          i.id ∈ (s.retiredListings ids).map (·.id) ∨ j.id ∈ (s.retiredListings ids).map (·.id))
    (forall_congr' fun _ => forall_congr' fun _ => forall_congr' fun _ =>
      CatalogMatchDecision.forall_between)

/-! ## The rows of the series -/

theorem mergeInto_series (hk : Table.Keyed CatalogSourceSeries.id s.identities)
    (hne : target ≠ source) (h : mergeInto t target s source = .ok s') :
    ∃ s₁ : Collection, s₁.series = s.series ∧ s'.series = s₁.mergeSeriesRows target source := by
  obtain ⟨lr, s₁, -, -, hfold, -, rfl⟩ := mergeInto_ok hk hne h
  have h₁ : s₁.series = s.series := foldlM_inv (P := fun s' : Collection => s'.series = s.series)
    hfold rfl fun s₁ p s₂ _ hs₁ hpair => by
      unfold consolidatePair at hpair
      dsimp only at hpair
      split at hpair
      · cases hpair
      cases hpair
      exact consolidate_consolidated.series.trans hs₁
  exact ⟨_, (foldl_mergeChapter_tables _).series.trans h₁, rfl⟩

theorem foldlM_mergeInto_series {sources : List Nat}
    (hk : Table.Keyed CatalogSourceSeries.id s.identities)
    (hseries : Table.Keyed CatalogSeries.id s.series) (ht : target ∉ sources)
    (h : sources.foldlM (mergeInto t target) s = .ok s') :
    Table.Keyed CatalogSeries.id s'.series ∧ ∀ u ∈ s'.series, ∃ v ∈ s.series, v.id = u.id := by
  induction sources generalizing s with
  | nil =>
    cases h
    exact ⟨hseries, fun u hu => ⟨u, hu, rfl⟩⟩
  | cons source sources ih =>
    obtain ⟨s₁, h₁, hrest⟩ := foldlM_cons_eq_ok.mp h
    rw [List.mem_cons, not_or] at ht
    obtain ⟨s₀, hs₀, hrows⟩ := mergeInto_series hk ht.1 h₁
    have hone : [source].foldlM (mergeInto t target) s = .ok s₁ :=
      foldlM_cons_eq_ok.mpr ⟨s₁, h₁, rfl⟩
    have hk₁ := (foldlM_mergeInto_reunited hk (by simpa using ht.1) hone).identities.keyed
    obtain ⟨hkeyed, hfrom⟩ := ih hk₁ (hrows ▸ mergeSeriesRows_keyed (hs₀ ▸ hseries)) ht.2 hrest
    refine ⟨hkeyed, fun u hu => ?_⟩
    obtain ⟨v, hv, he⟩ := hfrom u hu
    obtain ⟨w, hw, he'⟩ := mem_mergeSeriesRows (hrows ▸ hv)
    exact ⟨w, hs₀ ▸ hw, he'.trans he⟩

theorem mergeCanonicalSeries_series (hk : Table.Keyed CatalogSourceSeries.id s.identities)
    (hseries : Table.Keyed CatalogSeries.id s.series)
    (h : s.mergeCanonicalSeries t ids now = .ok (s', target)) :
    Table.Keyed CatalogSeries.id s'.series ∧ ∀ u ∈ s'.series, ∃ v ∈ s.series, v.id = u.id := by
  obtain ⟨row, s₁, queue, created, hrow, rfl, hfold, -, rfl⟩ := mergeCanonicalSeries_ok h
  have hno : row.id ∉ ((s.selectedSeries ids).filter (·.id != row.id)).map (·.id) := by
    intro hm
    obtain ⟨x, hx, he⟩ := List.mem_map.mp hm
    simpa [he] using (List.mem_filter.mp hx).2
  have hmem := (mem_selectedSeries.mp (List.argmax_mem hrow)).1
  obtain ⟨hkeyed, hfrom⟩ := foldlM_mergeInto_series
    (s := s.withStatus row (s.selectedSeries ids)) hk (Table.keyed_put.mpr hseries) hno hfold
  refine ⟨hkeyed, fun u hu => ?_⟩
  obtain ⟨v, hv, he⟩ := hfrom u hu
  rcases Table.mem_put.mp hv with ⟨rfl, -⟩ | ⟨hv, -⟩
  · exact ⟨row, hmem, he⟩
  · exact ⟨v, hv, he⟩

/-- All the series are found. -/
theorem mergeCanonicalSeries_found (hk : Table.Keyed CatalogSeries.id s.series)
    (h : s.mergeCanonicalSeries t ids now = .ok (s', target)) :
    ∀ u ∈ ids, ∃ row ∈ s.series, row.id = u := by
  have hlen : (s.selectedSeries ids).length = ids.eraseDups.length := by
    unfold mergeCanonicalSeries at h
    dsimp only at h
    split at h
    · cases h
    split at h
    · cases h
    · rename_i hlen
      exact not_not.mp hlen
  have hnd : ((s.selectedSeries ids).map (·.id)).Nodup :=
    ((List.perm_insertionSort _ _).map _).nodup_iff.mpr hk.filter
  have hsub : (s.selectedSeries ids).map (·.id) ⊆ ids.eraseDups := by
    intro u hu
    obtain ⟨row, hr, rfl⟩ := List.mem_map.mp hu
    exact List.mem_eraseDups.mpr (mem_selectedSeries.mp hr).2
  have hperm := (List.subperm_of_subset hnd hsub).perm_of_length_le
    (by rw [List.length_map, hlen])
  intro u hu
  obtain ⟨row, hr, he⟩ := List.mem_map.mp (hperm.mem_iff.mpr (List.mem_eraseDups.mpr hu))
  exact ⟨row, (mem_selectedSeries.mp hr).1, he⟩

/-- The merged series are the ones that were asked for. -/
theorem mem_mergeOrder (hk : Table.Keyed CatalogSeries.id s.series)
    (h : s.mergeCanonicalSeries t ids now = .ok (s', target)) {u : Nat} :
    u ∈ s.mergeOrder ids ↔ u ∈ ids := by
  rw [(mergeOrder_perm hk (mergeCanonicalSeries_found hk h)).mem_iff, List.mem_eraseDups]

theorem JoinsNone.of_decisions (h : s.JoinsNone ids) (hids : s'.identities = s.identities)
    (horder : s'.mergeOrder ids = s.mergeOrder ids)
    (hdecisions : ∀ d ∈ s'.decisions, d.decision = .decided .rejected → d ∈ s.decisions) :
    s'.JoinsNone ids := by
  have hgone : s'.retiredListings ids = s.retiredListings ids := by
    unfold retiredListings
    rw [horder]
    split
    · rfl
    · exact retired_congr hids
  intro d hd hrejected i j hb hi hj
  rw [hgone]
  rw [hids] at hb
  exact h d (hdecisions d hd hrejected) hrejected i j hb hi hj

/-! ## A merge -/

/-- The identities of the merged series are in the one that is left. -/
theorem mergeCanonicalSeries_moves (hk : Table.Keyed CatalogSourceSeries.id s.identities)
    (hseries : Table.Keyed CatalogSeries.id s.series)
    (h : s.mergeCanonicalSeries t ids now = .ok (s', target)) {i j : CatalogSourceSeries}
    (hi : i ∈ s.identities) (hj : j ∈ s'.identities) (hid : j.id = i.id) :
    j.seriesId = if i.seriesId ∈ ids then target else i.seriesId := by
  obtain ⟨sources, horder, -, hreunited⟩ := mergeCanonicalSeries_reunited hk h
  obtain ⟨-, i₀, hi₀, hm⟩ := hreunited.identities.origin j hj
  obtain rfl := hk.eq hi₀ hi (hm.id.symm.trans hid)
  have hmem := @mem_mergeOrder _ _ _ _ _ _ hseries h i₀.seriesId
  rw [horder, List.mem_cons] at hmem
  rw [hm.seriesId]
  by_cases hs : i₀.seriesId ∈ sources
  · rw [if_pos hs, if_pos (hmem.mp (.inr hs))]
  · rw [if_neg hs]
    split
    · rename_i hin
      exact (hmem.mpr hin).resolve_right hs
    · rfl

theorem target_mem (hk : Table.Keyed CatalogSourceSeries.id s.identities)
    (hseries : Table.Keyed CatalogSeries.id s.series)
    (h : s.mergeCanonicalSeries t ids now = .ok (s', target)) : target ∈ ids := by
  obtain ⟨sources, horder, -, -⟩ := mergeCanonicalSeries_reunited hk h
  exact (mem_mergeOrder hseries h).mp (horder ▸ List.mem_cons_self)

/-- A merge keeps the identities of rejected matches apart exactly when it joins none, but for
listings that it retires. -/
theorem merge_separated_iff (hk : Table.Keyed CatalogSourceSeries.id s.identities)
    (hseries : Table.Keyed CatalogSeries.id s.series) (hs : s.Separated)
    (h : s.mergeCanonicalSeries t ids now = .ok (s', target)) :
    s'.Separated ↔ s.JoinsNone ids := by
  have hmoves := @mergeCanonicalSeries_moves _ _ _ _ _ _ hk hseries h
  have htarget := target_mem hk hseries h
  obtain ⟨sources, -, -, hreunited⟩ := mergeCanonicalSeries_reunited hk h
  constructor
  · intro hs' d hd hrejected i j hb hi hj
    by_contra hno
    rw [not_or] at hno
    -- both listings are still there, and so is the decision
    obtain ⟨i', hi', hmi⟩ := hreunited.identities.kept i hb.left hno.1
    obtain ⟨j', hj', hmj⟩ := hreunited.identities.kept j hb.right hno.2
    have hd' : d ∈ s'.decisions :=
      (hreunited.decisions d).mpr ⟨hd, hb.leftId ▸ hno.1, hb.rightId ▸ hno.2⟩
    refine hs' d hd' hrejected i' j'
      ⟨hi', hj', hmi.id.trans hb.leftId, hmj.id.trans hb.rightId⟩ ?_
    rw [hmoves hb.left hi' hmi.id, hmoves hb.right hj' hmj.id, if_pos hi, if_pos hj]
  · intro hjoins d hd' hrejected i' j' hb' he
    obtain ⟨hd, hl, hr⟩ := (hreunited.decisions d).mp hd'
    obtain ⟨-, i, hi, hmi⟩ := hreunited.identities.origin i' hb'.left
    obtain ⟨-, j, hj, hmj⟩ := hreunited.identities.origin j' hb'.right
    have hb : d.Between s.identities i j :=
      ⟨hi, hj, hmi.id.symm.trans hb'.leftId, hmj.id.symm.trans hb'.rightId⟩
    have hne := hs d hd hrejected i j hb
    rw [hmoves hi hb'.left hmi.id, hmoves hj hb'.right hmj.id] at he
    have hboth : i.seriesId ∈ ids ∧ j.seriesId ∈ ids := by
      split at he <;> split at he
      · exact ⟨by assumption, by assumption⟩
      · rename_i hin hout
        exact absurd (he ▸ htarget) hout
      · rename_i hout hin
        exact absurd (he.symm ▸ htarget) hout
      · exact absurd he hne
    rcases hjoins d hd hrejected i j hb hboth.1 hboth.2 with hm | hm
    · rw [hb.leftId] at hm
      exact hl hm
    · rw [hb.rightId] at hm
      exact hr hm

end Collection

namespace Shelf

variable {s s' : Shelf} {t : CatalogText} {now : Time} {call : IngestCall}

/-- The id of an identity, and its series. -/
def identityPlace (i : CatalogSourceSeries) : Nat × Nat := (i.id, i.seriesId)

/-- The identities of rejected matches are apart, and new rows are no rows of decisions. -/
structure Apart (s : Shelf) : Prop where
  separated : s.toCollection.Separated
  identities : Table.Keyed CatalogSourceSeries.id s.identities
  series : Table.Keyed CatalogSeries.id s.series
  newIdentity : ∀ i ∈ s.identities, i.id < s.nextIdentity
  newSeries : ∀ u ∈ s.series, u.id < s.nextSeries
  known : ∀ d ∈ s.decisions, d.leftSourceSeriesId < s.nextIdentity ∧
    d.rightSourceSeriesId < s.nextIdentity

/-- A row with the place of another one. -/
theorem mem_of_place {rows rows' : List CatalogSourceSeries}
    (h : rows'.map identityPlace = rows.map identityPlace) {j : CatalogSourceSeries}
    (hj : j ∈ rows') : ∃ i ∈ rows, i.id = j.id ∧ i.seriesId = j.seriesId := by
  have hm : identityPlace j ∈ rows.map identityPlace := h ▸ List.mem_map_of_mem hj
  obtain ⟨i, hi, he⟩ := List.mem_map.mp hm
  obtain ⟨hid, hseries⟩ := Prod.mk.inj he
  exact ⟨i, hi, hid, hseries⟩

/-- The identities stay where they are, and a decision that is new rejects nothing. -/
theorem Apart.of_places (hs : s.Apart)
    (hids : s'.identities.map identityPlace = s.identities.map identityPlace)
    (hnext : s'.nextIdentity = s.nextIdentity)
    (hseries : s'.series.map (·.id) = s.series.map (·.id))
    (hnextSeries : s'.nextSeries = s.nextSeries)
    (hdecisions : ∀ d ∈ s'.decisions, (d.decision = .decided .rejected → d ∈ s.decisions) ∧
      d.leftSourceSeriesId < s.nextIdentity ∧ d.rightSourceSeriesId < s.nextIdentity) :
    s'.Apart := by
  have hkeyed : s'.identities.map (·.id) = s.identities.map (·.id) := by
    have hfst := congrArg (List.map Prod.fst) hids
    rwa [List.map_map, List.map_map] at hfst
  refine ⟨fun d hd hrejected i' j' hb => ?_, (congrArg List.Nodup hkeyed).mpr hs.identities,
    (congrArg List.Nodup hseries).mpr hs.series, fun i' hi' => ?_, fun u hu => ?_, fun d hd => ?_⟩
  · obtain ⟨i, hi, hid, hiu⟩ := mem_of_place hids hb.left
    obtain ⟨j, hj, hjd, hju⟩ := mem_of_place hids hb.right
    rw [← hiu, ← hju]
    exact hs.separated d ((hdecisions d hd).1 hrejected) hrejected i j
      ⟨hi, hj, hid.trans hb.leftId, hjd.trans hb.rightId⟩
  · obtain ⟨i, hi, hid, -⟩ := mem_of_place hids hi'
    rw [hnext, ← hid]
    exact hs.newIdentity i hi
  · have hm : u.id ∈ s.series.map (·.id) := hseries ▸ List.mem_map_of_mem hu
    obtain ⟨v, hv, he⟩ := List.mem_map.mp hm
    rw [hnextSeries, ← he]
    exact hs.newSeries v hv
  · rw [hnext]
    exact (hdecisions d hd).2

/-- A new series, and a new identity. -/
theorem Apart.withSeries (hs : s.Apart) {row : CatalogSeries} (hrow : row.id = s.nextSeries) :
    ({ s with series := s.series ++ [row], nextSeries := s.nextSeries + 1 } : Shelf).Apart :=
  ⟨hs.separated, hs.identities,
    Table.keyed_append.mpr ⟨hs.series, fun u hu => hrow ▸ (hs.newSeries u hu).ne⟩,
    hs.newIdentity, fresh_append hs.newSeries hrow, hs.known⟩

theorem Apart.withIdentity (hs : s.Apart) {row : CatalogSourceSeries}
    (hrow : row.id = s.nextIdentity) :
    ({ s with
      identities := s.identities ++ [row], nextIdentity := s.nextIdentity + 1 } : Shelf).Apart := by
  refine ⟨fun d hd hrejected i j hb => ?_,
    Table.keyed_append.mpr ⟨hs.identities, fun i hi => hrow ▸ (hs.newIdentity i hi).ne⟩, hs.series,
    fresh_append hs.newIdentity hrow, hs.newSeries, fun d hd => ?_⟩
  · obtain ⟨hleft, hright⟩ := hs.known d hd
    have hold : ∀ x ∈ s.identities ++ [row], x.id < s.nextIdentity → x ∈ s.identities := by
      intro x hx hlt
      rcases List.mem_append.mp hx with hx | hx
      · exact hx
      · obtain rfl := List.mem_singleton.mp hx
        omega
    exact hs.separated d hd hrejected i j ⟨hold i hb.left (hb.leftId ▸ hleft),
      hold j hb.right (hb.rightId ▸ hright), hb.leftId, hb.rightId⟩
  · obtain ⟨hleft, hright⟩ := hs.known d hd
    exact ⟨Nat.lt_succ_of_lt hleft, Nat.lt_succ_of_lt hright⟩

/-- Pending decisions on identities that are there. -/
theorem Apart.withPending (hs : s.Apart) {rows : List CatalogSourceSeries} {i : CatalogSourceSeries}
    (hi : i ∈ s.identities) (hrows : ∀ c ∈ rows, c ∈ s.identities) (next : Nat) :
    ({ s with
      decisions := s.decisions ++ rows.zipIdx.map fun (c, n) =>
        { id := s.nextDecision + n, leftSourceSeriesId := min c.id i.id
          rightSourceSeriesId := max c.id i.id }
      nextDecision := next } : Shelf).Apart := by
  refine hs.of_places rfl rfl rfl rfl fun d hd => ?_
  rcases List.mem_append.mp hd with hd | hd
  · exact ⟨fun _ => hd, hs.known d hd⟩
  · obtain ⟨⟨c, n⟩, hcn, rfl⟩ := List.mem_map.mp hd
    have hc := hs.newIdentity c (hrows c (List.fst_mem_of_mem_zipIdx hcn))
    have hi' := hs.newIdentity i hi
    refine ⟨fun h => (by cases h), ?_⟩
    dsimp only
    omega

theorem Apart.proposeByCover (hs : s.Apart)
    (similar : CatalogSourceSeries → CatalogSourceSeries → Bool) (sourceSeriesId : Nat) :
    (s.proposeByCover similar sourceSeriesId).Apart := by
  unfold Shelf.proposeByCover
  split
  · exact hs
  · rename_i source hsource
    refine hs.withPending (Table.get_mem hsource) (fun c hc => ?_) _
    have hmem := (List.mem_filter.mp hc).1
    rw [List.mem_insertionSort] at hmem
    exact (List.mem_filter.mp hmem).1

theorem Apart.merge {ids : List Nat} {c : Collection} {target : Nat} {t : TextLib} (hs : s.Apart)
    (hjoins : s.JoinsNone ids) (h : s.mergeCanonicalSeries t ids now = .ok (c, target)) :
    ({ s with toCollection := c } : Shelf).Apart := by
  obtain ⟨hkeyed, hfrom⟩ := Collection.mergeCanonicalSeries_series hs.identities hs.series h
  obtain ⟨sources, -, -, hreunited⟩ := Collection.mergeCanonicalSeries_reunited hs.identities h
  refine ⟨(Collection.merge_separated_iff hs.identities hs.series hs.separated h).mpr hjoins,
    hreunited.identities.keyed, hkeyed, fun j hj => ?_, fun u hu => ?_, fun d hd => ?_⟩
  · obtain ⟨-, i, hi, hm⟩ := hreunited.identities.origin j hj
    rw [hm.id]
    exact hs.newIdentity i hi
  · obtain ⟨v, hv, he⟩ := hfrom u hu
    rw [← he]
    exact hs.newSeries v hv
  · exact hs.known d ((hreunited.decisions d).mp hd).1

/-! ## Ingest and reviews -/

theorem Apart.addIdentity (hs : s.Apart) (item : SeriesItem) (key : String) :
    (s.addIdentity t item key).1.Apart := by
  have h₁ : (s.addSeries t item key).1.Apart := by
    unfold Shelf.addSeries
    split
    · exact hs
    · exact hs.withSeries rfl
  unfold Shelf.addIdentity
  rcases hadd : s.addSeries t item key with ⟨s₁, seriesId⟩
  rw [hadd] at h₁
  dsimp only at h₁ ⊢
  refine Apart.withPending ?_ (List.mem_append_right _ (List.mem_singleton_self _))
    (fun c hc => ?_) _
  · exact h₁.withIdentity rfl
  · have hmem := (List.mem_filter.mp hc).1
    rw [List.mem_insertionSort] at hmem
    exact (List.mem_filter.mp hmem).1

theorem Apart.target (hs : s.Apart) : (s.target t call).1.Apart := by
  unfold Shelf.target
  split
  · exact hs
  · exact hs
  · exact hs.of_places rfl rfl rfl rfl fun d hd => ⟨fun _ => hd, hs.known d hd⟩
  · exact hs.addIdentity call.item call.storageKey

theorem Apart.ingest {id : Nat} (hs : s.Apart) (h : s.ingest t call = .ok (s', id)) : s'.Apart := by
  obtain ⟨-, -, -, rfl⟩ := ingest_inv h
  have hf := target_located s t call
  have h₁ : (s.target t call).1.Apart := hs.target
  generalize (s.target t call).2.2 = listing at hf ⊢
  generalize (s.target t call).2.1 = i at hf ⊢
  generalize (s.target t call).1 = s₁ at hf h₁ ⊢
  obtain ⟨hid, hseries, -⟩ := observed_same t i call.item listing.isSome
  have hplaces : (Table.put CatalogSourceSeries.id s₁.identities
      (observed t i call.item listing.isSome)).map identityPlace =
        s₁.identities.map identityPlace :=
    Table.map_put h₁.identities hf.mem hid.symm (Prod.ext hid hseries)
  have hids : ∀ (rows : List CatalogSeries) (g : CatalogSeries → CatalogSeries),
      (∀ u, (g u).id = u.id) → (rows.map g).map (·.id) = rows.map (·.id) := by
    intro rows g hg
    rw [List.map_map]
    exact List.map_congr_left fun u _ => hg u
  unfold Shelf.sync
  dsimp only
  obtain ⟨g, hg, hlatest⟩ := ((((s₁.describe t call i listing).syncAliases t
    i.seriesId i.id call.item.aliases).syncExternalIds i.seriesId i.id
      call.item.externalIds).upsertChapters t i.seriesId i.id call.chapters
        call.now).toCollection.recomputeLatest_spec i.seriesId
  rw [hlatest _ rfl rfl]
  refine h₁.of_places hplaces rfl ((hids _ g fun u => (hg u).1).trans (hids _ _ fun u => ?_)) rfl
    fun d hd => ⟨fun _ => hd, h₁.known d hd⟩
  split <;> rfl

/-- No decision that is made joins two identities of a series already. -/
def RejectsNone (s : Shelf) (decisionIds : List Nat) : Prop :=
  ∀ d ∈ s.decisions, d.id ∈ decisionIds → ∀ i j, d.Between s.identities i j →
    i.seriesId ≠ j.seriesId

instance (s : Shelf) (decisionIds : List Nat) : Decidable (s.RejectsNone decisionIds) :=
  decidable_of_iff (∀ d ∈ s.decisions, d.id ∈ decisionIds → ∀ i ∈ s.identities,
      ∀ j ∈ s.identities, i.id = d.leftSourceSeriesId → j.id = d.rightSourceSeriesId →
        i.seriesId ≠ j.seriesId)
    (forall_congr' fun _ => forall_congr' fun _ => forall_congr' fun _ =>
      CatalogMatchDecision.forall_between)

/-- What a review needs: a rejection is about different series, and a merge joins no rejected
match. -/
def ReviewKeeps (s : Shelf) (action : MatchAction) (decisionIds seriesIds : List Nat) : Prop :=
  match action with
  | .rejected => s.RejectsNone decisionIds
  | .accepted => s.JoinsNone seriesIds

theorem Apart.review {action : MatchAction} {decisionIds seriesIds : List Nat} {c : Collection}
    {t : TextLib} (hs : s.Apart) (hkeeps : s.ReviewKeeps action decisionIds seriesIds)
    (h : s.toCollection.review t action decisionIds seriesIds now = .ok c) :
    ({ s with toCollection := c } : Shelf).Apart := by
  unfold Collection.review at h
  dsimp only at h
  split at h
  · cases h
  have hchosen : ∀ id ∈ (s.decisions.filter fun d =>
      d.id ∈ decisionIds && d.decision == .pending).map (·.id), id ∈ decisionIds := by
    intro id hid
    obtain ⟨d, hd, rfl⟩ := List.mem_map.mp hid
    have hmem := (List.mem_filter.mp hd).2
    rw [Bool.and_eq_true, decide_eq_true_eq] at hmem
    exact hmem.1
  generalize (s.decisions.filter fun d =>
    d.id ∈ decisionIds && d.decision == .pending).map (·.id) = pending at h hchosen
  have hends : ∀ d ∈ s.decisions.map (fun d =>
      if d.id ∈ pending then { d with decision := .decided action } else d),
      d.leftSourceSeriesId < s.nextIdentity ∧ d.rightSourceSeriesId < s.nextIdentity := by
    intro d hd
    obtain ⟨d₀, hd₀, rfl⟩ := List.mem_map.mp hd
    split
    · exact hs.known d₀ hd₀
    · exact hs.known d₀ hd₀
  cases action with
  | rejected =>
    cases h
    refine ⟨fun d hd hrejected i j hb => ?_, hs.identities, hs.series, hs.newIdentity, hs.newSeries,
      hends⟩
    obtain ⟨d₀, hd₀, rfl⟩ := List.mem_map.mp hd
    split at hrejected
    · rename_i hmem
      rw [if_pos hmem] at hb
      exact hkeeps d₀ hd₀ (hchosen _ hmem) i j ⟨hb.left, hb.right, hb.leftId, hb.rightId⟩
    · rename_i hmem
      rw [if_neg hmem] at hb
      exact hs.separated d₀ hd₀ hrejected i j hb
  | accepted =>
    dsimp only at h
    split at h
    · cases h
    · rename_i c' target hmerge
      cases h
      have hold : ∀ d ∈ s.decisions.map (fun d =>
          if d.id ∈ pending then { d with decision := .decided .accepted } else d),
          d.decision = .decided .rejected → d ∈ s.decisions := by
        intro d hd hrejected
        obtain ⟨d₀, hd₀, rfl⟩ := List.mem_map.mp hd
        split at hrejected
        · cases hrejected
        · rename_i hmem
          rwa [if_neg hmem]
      have hdecided : ({ s with
          decisions := s.decisions.map fun d =>
            if d.id ∈ pending then { d with decision := .decided .accepted } else d } : Shelf
          ).Apart := hs.of_places rfl rfl rfl rfl fun d hd => ⟨hold d hd, hends d hd⟩
      exact hdecided.merge (Collection.JoinsNone.of_decisions hkeeps rfl rfl hold) hmerge

end Shelf

end MangaManager
