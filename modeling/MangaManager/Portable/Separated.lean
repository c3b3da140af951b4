import MangaManager.Lib.Run
import MangaManager.Matches.Separations
import MangaManager.Portable.Exportable
import MangaManager.Portable.Import
import MangaManager.Portable.Kept
import MangaManager.Portable.Writers

/-!
# Rejected matches and the portable state

The import merges local series as `merge_canonical_series` does, and refuses to reject a match of
identities that are in one series. So the identities of rejected matches stay apart in every run in
which no merge and no review brings them together (`separations_respected`), and the snapshot of
such a state has no conflict.
-/

namespace MangaManager

open Lib

/-! ## The rows of an import -/

/-- The identities, the series and the decisions are as they were. -/
structure Installation.SameRows (s s' : Installation) : Prop where
  identities : s'.identities = s.identities
  nextIdentity : s'.nextIdentity = s.nextIdentity
  series : s'.series = s.series
  nextSeries : s'.nextSeries = s.nextSeries
  decisions : s'.decisions = s.decisions

namespace Installation

variable {t : PortableText} {seen s s' s₁ : Installation} {seriesId id : Nat} {now : Time}

theorem SameRows.refl : SameRows s s := ⟨rfl, rfl, rfl, rfl, rfl⟩

theorem SameRows.trans (h : SameRows s s₁) (h' : SameRows s₁ s') : SameRows s s' :=
  ⟨h'.identities.trans h.identities, h'.nextIdentity.trans h.nextIdentity,
    h'.series.trans h.series, h'.nextSeries.trans h.nextSeries, h'.decisions.trans h.decisions⟩

theorem SameRows.foldl {α : Type} {f : Installation → α → Installation}
    (hf : ∀ s a, SameRows s (f s a)) (l : List α) (s : Installation) : SameRows s (l.foldl f s) :=
  List.foldlRecOn (motive := fun s' => SameRows s s') l f .refl fun _ h a _ => h.trans (hf _ a)

theorem upsertAlias_rows (sourceSeriesId : Option Nat) (s : Installation) (value : String) :
    SameRows s (upsertAlias t seriesId sourceSeriesId s value) := by
  unfold upsertAlias
  dsimp only
  split <;> exact ⟨rfl, rfl, rfl, rfl, rfl⟩

theorem upsertExternalId_rows (s : Installation) (entry : String × String) :
    SameRows s (upsertExternalId seen seriesId id s entry) := by
  unfold upsertExternalId
  dsimp only
  split
  · split <;> exact ⟨rfl, rfl, rfl, rfl, rfl⟩
  · split <;> exact ⟨rfl, rfl, rfl, rfl, rfl⟩

theorem upsertAlternate_rows (p : PortableSource) (s : Installation) (a : PortableAlternate) :
    SameRows s (upsertAlternate seen p id s a) := by
  unfold upsertAlternate
  split <;> exact ⟨rfl, rfl, rfl, rfl, rfl⟩

theorem upsertSourceRows_rows (s : Installation) (p : PortableSource) :
    SameRows s (upsertSourceRows t seen s seriesId id p) := by
  unfold upsertSourceRows
  dsimp only
  refine SameRows.trans ?_ (.foldl (upsertAlternate_rows p) _ _)
  refine SameRows.trans ?_ (.foldl upsertExternalId_rows _ _)
  exact .foldl (upsertAlias_rows (some id)) _ _

theorem upsertReading_rows (s : Installation) (r : PortableReadingState) :
    SameRows s (upsertReading t seen seriesId now s r) := by
  unfold upsertReading chapterFor
  dsimp only
  split <;> split <;> exact ⟨rfl, rfl, rfl, rfl, rfl⟩

theorem restoreProvider_rows (s : Installation) (p : PortableProviderPreference) :
    SameRows s (restoreProvider seen s p) := by
  unfold restoreProvider
  split <;> exact ⟨rfl, rfl, rfl, rfl, rfl⟩

theorem SameRows.apart (h : SameRows s s') (hs : s.toShelf.Apart) : s'.toShelf.Apart :=
  hs.of_places (by rw [h.identities]) h.nextIdentity (by rw [h.series]) h.nextSeries fun d hd =>
    have hd' : d ∈ s.decisions := h.decisions ▸ hd
    ⟨fun _ => hd', hs.known d hd'⟩

end Installation

namespace Collection

variable {s : Collection} {target : Nat}

/-- A listing that is retired had a row. -/
theorem retired_mem {sources : List Nat} (hk : Table.Keyed CatalogSourceSeries.id s.identities) :
    ∀ g ∈ retired target sources s, ∃ i ∈ s.identities, i.id = g.id := by
  induction sources generalizing s with
  | nil => simp [retired]
  | cons source sources ih =>
    intro g hg
    rcases List.mem_append.mp hg with hg | hg
    · unfold duplicates at hg
      split at hg
      · cases hg
      · rename_i lr hlr
        obtain ⟨p, hp, rfl⟩ := List.mem_map.mp hg
        obtain ⟨⟨h₁, -⟩, ⟨h₂, -⟩, -⟩ := sharedPairs_mem hp
        rcases keeperOf_cases lr.2 p.1 p.2 with h | h <;> rw [h]
        · exact ⟨_, h₁, rfl⟩
        · exact ⟨_, h₂, rfl⟩
    · cases hc : s.chosen target source with
      | none =>
        have hsame : s.unite target source = s := by rw [unite, hc]
        rw [hsame] at hg
        exact ih hk g hg
      | some lr =>
        have hu := unite_united hk hc
        obtain ⟨j, hj, hjd⟩ := ih hu.keyed g hg
        obtain ⟨-, i, hi, hm⟩ := hu.origin j hj
        exact ⟨i, hi, hm.id.symm.trans hjd⟩

theorem retiredListings_mem {ids : List Nat}
    (hk : Table.Keyed CatalogSourceSeries.id s.identities) :
    ∀ g ∈ s.retiredListings ids, ∃ i ∈ s.identities, i.id = g.id := by
  unfold retiredListings
  split
  · simp
  · exact retired_mem hk

end Collection

namespace Importing

variable {t : PortableText} {x y : Importing} {now : Time} {seriesId id : Nat}
  {i : CatalogSourceSeries} {resolved : List (PortableSource × Option CatalogSourceSeries)}

/-- The tables are as they should be, and no id of an object that was deleted is in use. -/
structure Apart (x : Importing) : Prop where
  tables : x.tables.toShelf.Apart
  gone : ∀ g ∈ x.gone, g.id < x.tables.nextIdentity ∧ ∀ i ∈ x.tables.identities, i.id ≠ g.id

theorem object_cases (h : x.object? id = some i) :
    i.id = id ∧ (i ∈ x.tables.identities ∨ i ∈ x.gone) := by
  unfold object? at h
  rcases Option.or_eq_some_iff.mp h with h | ⟨-, h⟩
  · exact ⟨Table.get_key h, .inl (Table.get_mem h)⟩
  · exact ⟨by simpa using List.find?_some h, .inr (List.mem_of_find?_eq_some h)⟩

theorem resolveIdentity_object {p : PortableSource}
    (h : x.resolveIdentity t p = .ok (some i)) : ∃ id, x.object? id = some i := by
  unfold resolveIdentity at h
  split at h
  · rename_i j hj
    cases h
    obtain ⟨id, -, hid⟩ := Option.bind_eq_some_iff.mp hj
    exact ⟨id, hid⟩
  · dsimp only at h
    split at h
    · cases h
    · rename_i j hfound
      cases h
      have hmem := (List.mem_filter.mp (hfound ▸ List.mem_singleton_self i)).1
      obtain ⟨e, -, he⟩ := List.mem_filterMap.mp hmem
      exact ⟨e.2, he⟩
    · cases h

/-- What a source was found as is an object of the session. -/
theorem resolveAll_objects {sources : List PortableSource}
    (h : x.resolveAll t sources = .ok resolved) :
    ∀ r ∈ resolved, ∀ i ∈ r.2, i ∈ x.tables.identities ∨ i ∈ x.gone := by
  induction sources generalizing resolved with
  | nil =>
    cases h
    simp
  | cons p sources ih =>
    unfold resolveAll at h
    split at h
    · cases h
    · rename_i found hfound
      split at h
      · cases h
      · rename_i rest hrest
        cases h
        intro r hr i hi
        rcases List.mem_cons.mp hr with rfl | hr
        · obtain ⟨id, hid⟩ := resolveIdentity_object (hfound.trans (congrArg _ hi))
          exact (object_cases hid).2
        · exact ih hrest r hr i hi

/-- The sources that were found are in the series. -/
def Placed (x : Importing) (seriesId : Nat)
    (resolved : List (PortableSource × Option CatalogSourceSeries)) : Prop :=
  ∀ r ∈ resolved, ∀ i ∈ r.2, ∀ j ∈ x.tables.identities, j.id = i.id → j.seriesId = seriesId

theorem mem_existingSeries {r : PortableSource × Option CatalogSourceSeries} (hr : r ∈ resolved)
    (hi : i ∈ r.2) : i.seriesId ∈ existingSeries resolved := by
  refine List.mem_dedup.mpr (List.mem_filterMap.mpr ⟨r, hr, ?_⟩)
  rw [Option.mem_def.mp hi]
  rfl

/-! ## The series -/

theorem Apart.canonicalSeries {keys : Nat → String} {p : PortableSeries} {row : CatalogSeries}
    (hx : x.Apart) (hobjects : ∀ r ∈ resolved, ∀ i ∈ r.2, i ∈ x.tables.identities ∨ i ∈ x.gone)
    (hjoins : x.tables.JoinsNone (existingSeries resolved))
    (h : x.canonicalSeries t now keys p (existingSeries resolved) = .ok (y, row)) :
    y.Apart ∧ y.Placed row.id resolved ∧ row ∈ y.tables.series := by
  have hmem := fun {r i} hr hi => @mem_existingSeries i resolved r hr hi
  generalize existingSeries resolved = ids at hjoins h hmem
  unfold Importing.canonicalSeries at h
  split at h
  · cases h
    refine ⟨⟨hx.tables.withSeries rfl, hx.gone⟩, fun r hr i hi => ?_, ?_⟩
    · cases hmem hr hi
    · exact List.mem_append_right _ (List.mem_singleton_self _)
  rename_i id ids
  split at h
  · cases h
  rename_i x₁ id₁ hmerge
  split at h
  · cases h
  rename_i u hu
  cases h
  have hid : row.id = id₁ := Table.get_key hu
  refine (fun hres : y.Apart ∧ y.Placed id₁ resolved => ⟨hres.1, hid ▸ hres.2, Table.get_mem hu⟩) ?_
  unfold mergeExisting at hmerge
  split at hmerge
  · -- they are in one series already
    rename_i id' hids
    cases hmerge
    refine ⟨hx, fun r hr i hi j hj he => ?_⟩
    rcases hobjects r hr i hi with hlive | hgone
    · obtain rfl := hx.tables.identities.eq hj hlive he
      have hm := hmem hr hi
      rw [hids] at hm
      exact List.mem_singleton.mp hm
    · exact absurd he ((hx.gone i hgone).2 j hj)
  · split at hmerge
    · cases hmerge
    · cases hmerge
    · rename_i c target hc
      cases hmerge
      obtain ⟨sources, -, -, hreunited⟩ :=
        Collection.mergeCanonicalSeries_reunited hx.tables.identities hc
      refine ⟨⟨hx.tables.merge hjoins hc, fun g hg => ?_⟩, fun r hr i hi j hj he => ?_⟩
      · rcases List.mem_append.mp hg with hg | hg
        · refine ⟨(hx.gone g hg).1, fun j hj => ?_⟩
          obtain ⟨-, i, hi, hm⟩ := hreunited.identities.origin j hj
          rw [hm.id]
          exact (hx.gone g hg).2 i hi
        · obtain ⟨i, hi, he⟩ := Collection.retiredListings_mem hx.tables.identities g hg
          refine ⟨he ▸ hx.tables.newIdentity i hi, fun j hj he' => ?_⟩
          exact (hreunited.identities.origin j hj).1 (he' ▸ List.mem_map_of_mem hg)
      · rcases hobjects r hr i hi with hlive | hgone
        · rw [Collection.mergeCanonicalSeries_moves hx.tables.identities hx.tables.series hc hlive
            hj he,
            if_pos (hmem hr hi)]
        · obtain ⟨-, i₀, hi₀, hm⟩ := hreunited.identities.origin j hj
          exact absurd (hm.id.symm.trans he) ((hx.gone i hgone).2 i₀ hi₀)

/-! ## The rows of its sources -/

theorem Apart.of_rows {s : Installation} (hx : x.Apart)
    (h : Installation.SameRows x.tables s) : ({ x with tables := s } : Importing).Apart := by
  refine ⟨h.apart hx.tables, fun g hg => ?_⟩
  dsimp only at hg ⊢
  rw [h.identities, h.nextIdentity]
  exact hx.gone g hg

theorem Apart.createSource {p : PortableSource} (hx : x.Apart) :
    (x.createSource t seriesId p).1.Apart := by
  refine ⟨hx.tables.withIdentity rfl, fun g hg => ?_⟩
  obtain ⟨hlt, hne⟩ := hx.gone g hg
  refine ⟨Nat.lt_succ_of_lt hlt, fun j hj => ?_⟩
  rcases List.mem_append.mp hj with hj | hj
  · exact hne j hj
  · obtain rfl := List.mem_singleton.mp hj
    exact hlt.ne'

/-- An object is written that is in the series, or deleted. -/
theorem Apart.writeSource {p : PortableSource} (hx : x.Apart) (hi : x.object? id = some i)
    (hplaced : ∀ j ∈ x.tables.identities, j.id = id → j.seriesId = seriesId) :
    (x.writeSource (i.restored t seriesId p)).Apart ∧
      (x.writeSource (i.restored t seriesId p)).tables.identities.map Shelf.identityPlace =
        x.tables.identities.map Shelf.identityPlace := by
  obtain ⟨hid, -⟩ := object_cases hi
  unfold Importing.writeSource
  split
  · rename_i hlive
    obtain ⟨j, hj⟩ := Option.isSome_iff_exists.mp hlive
    have hjd : j.id = (i.restored t seriesId p).id := Table.get_key hj
    have hplaces : (Table.put CatalogSourceSeries.id x.tables.identities
        (i.restored t seriesId p)).map Shelf.identityPlace =
          x.tables.identities.map Shelf.identityPlace :=
      Table.map_put hx.tables.identities (Table.get_mem hj) hjd
        (Prod.ext hjd.symm (hplaced j (Table.get_mem hj) (hjd.trans hid)).symm)
    refine ⟨⟨hx.tables.of_places hplaces rfl rfl rfl fun d hd =>
      ⟨fun _ => hd, hx.tables.known d hd⟩, fun g hg => ⟨(hx.gone g hg).1, fun k hk => ?_⟩⟩, hplaces⟩
    obtain ⟨k', hk', he, -⟩ := Shelf.mem_of_place hplaces hk
    rw [← he]
    exact (hx.gone g hg).2 k' hk'
  · refine ⟨⟨hx.tables, fun g hg => ?_⟩, rfl⟩
    rcases Table.mem_put.mp hg with ⟨rfl, g', hg', he⟩ | ⟨hg, -⟩
    · rw [← he]
      exact hx.gone g' hg'
    · exact hx.gone g hg

theorem Apart.upsertSourceDetails {seen : Installation} {p : PortableSource} (hx : x.Apart)
    (hplaced : ∀ j ∈ x.tables.identities, j.id = id → j.seriesId = seriesId) :
    (x.upsertSourceDetails t seen seriesId id p).Apart ∧
      (x.upsertSourceDetails t seen seriesId id p).tables.identities.map Shelf.identityPlace =
        x.tables.identities.map Shelf.identityPlace := by
  have hrow : (x.rewriteSource t seriesId id p).Apart ∧
      (x.rewriteSource t seriesId id p).tables.identities.map Shelf.identityPlace =
        x.tables.identities.map Shelf.identityPlace := by
    unfold Importing.rewriteSource
    split
    · rename_i i hi
      exact hx.writeSource hi hplaced
    · exact ⟨hx, rfl⟩
  unfold Importing.upsertSourceDetails
  dsimp only
  generalize x.rewriteSource t seriesId id p = x₁ at hrow ⊢
  have hrows : Installation.SameRows x₁.tables
      (Installation.upsertSourceRows t seen x₁.tables seriesId id p) :=
    Installation.upsertSourceRows_rows _ _
  obtain ⟨hs, hgone⟩ := hrow.1.of_rows hrows
  exact ⟨⟨hs, hgone⟩, (congrArg _ hrows.identities).trans hrow.2⟩

theorem Apart.restoreSource (seen : Installation) {r : PortableSource × Option CatalogSourceSeries}
    (hx : x.Apart)
    (hplaced : ∀ i ∈ r.2, ∀ j ∈ x.tables.identities, j.id = i.id → j.seriesId = seriesId) :
    (restoreSource t seen seriesId x r).Apart ∧
      ∀ j ∈ (restoreSource t seen seriesId x r).tables.identities, j.seriesId = seriesId ∨
        ∃ k ∈ x.tables.identities, k.id = j.id ∧ k.seriesId = j.seriesId := by
  unfold Importing.restoreSource
  split
  · rename_i i hi
    obtain ⟨h₁, hplaces⟩ := hx.upsertSourceDetails (hplaced i hi)
    exact ⟨h₁, fun j hj => .inr (Shelf.mem_of_place hplaces hj)⟩
  · -- the new row is the only one with its id
    have hnew : ∀ j ∈ (x.createSource t seriesId r.1).1.tables.identities,
        j.seriesId = seriesId ∨ j ∈ x.tables.identities := by
      intro j hj
      rcases List.mem_append.mp hj with hj | hj
      · exact .inr hj
      · obtain rfl := List.mem_singleton.mp hj
        exact .inl rfl
    have hplaced : ∀ j ∈ (x.createSource t seriesId r.1).1.tables.identities,
        j.id = x.tables.nextIdentity → j.seriesId = seriesId := by
      intro j hj he
      exact (hnew j hj).resolve_right fun hold => (hx.tables.newIdentity j hold).ne he
    obtain ⟨h₁, hplaces⟩ := hx.createSource.upsertSourceDetails hplaced
    refine ⟨h₁, fun j hj => ?_⟩
    obtain ⟨k, hk, hid, hku⟩ := Shelf.mem_of_place hplaces hj
    rw [← hku]
    rcases hnew k hk with he | hold
    · exact .inl he
    · exact .inr ⟨k, hold, hid, rfl⟩

theorem Apart.flush (hx : x.Apart) (h : x.flush = .ok y) : y.Apart ∧ y.tables = x.tables := by
  unfold Importing.flush at h
  split at h
  · cases h
    exact ⟨hx, rfl⟩
  · cases h

/-- The sources of a series are written one by one: what was found stays in the series. -/
theorem Apart.restoreSources {seen : Installation} (hx : x.Apart)
    (hplaced : x.Placed seriesId resolved) :
    (resolved.foldl (Importing.restoreSource t seen seriesId) x).Apart := by
  induction resolved generalizing x with
  | nil => exact hx
  | cons r resolved ih =>
    obtain ⟨h₁, hplaces⟩ := Apart.restoreSource (t := t) seen hx fun i hi =>
      hplaced r List.mem_cons_self i hi
    refine ih h₁ fun r' hr' i hi j hj he => ?_
    rcases hplaces j hj with h | ⟨k, hk, hid, hu⟩
    · exact h
    · rw [← hu]
      exact hplaced r' (List.mem_cons_of_mem _ hr') i hi k hk (hid.trans he)

theorem Apart.describeSeries {u row : CatalogSeries} {p : PortableSeries} (hx : x.Apart)
    (hrow : row ∈ x.tables.series) (hu : row.id = u.id) (hplaced : x.Placed u.id resolved) :
    (x.describeSeries t now u p resolved).Apart := by
  unfold Importing.describeSeries
  dsimp only
  have hseries : (Table.put CatalogSeries.id x.tables.series u).map (·.id) =
      x.tables.series.map (·.id) := Table.map_put hx.tables.series hrow hu hu.symm
  have h₁ : ({ x with tables := { x.tables with
      series := Table.put CatalogSeries.id x.tables.series u } } : Importing).Apart :=
    ⟨hx.tables.of_places rfl rfl hseries rfl fun d hd => ⟨fun _ => hd, hx.tables.known d hd⟩,
      hx.gone⟩
  have halias : ({ x.tables with series := Table.put CatalogSeries.id x.tables.series u } :
      Installation).SameRows (p.aliases.foldl (Installation.upsertAlias t u.id none) _) :=
    .foldl (Installation.upsertAlias_rows none) _ _
  have h₂ := h₁.of_rows halias
  dsimp only at h₂
  refine Apart.of_rows (Apart.restoreSources h₂ fun r hr i hi j hj he => ?_)
    (.foldl Installation.upsertReading_rows _ _)
  refine hplaced r hr i hi j ?_ he
  have := halias.identities
  dsimp only at this hj
  rwa [this] at hj

theorem Apart.enqueueRefresh {u : CatalogSeries} {key : String} {p : PortableSource} (hx : x.Apart)
    (h : Importing.enqueueRefresh now u key x p = .ok y) : y.Apart := by
  unfold Importing.enqueueRefresh at h
  split at h
  · cases h
  · cases h
    exact ⟨hx.tables.of_places rfl rfl rfl rfl fun d hd => ⟨fun _ => hd, hx.tables.known d hd⟩,
      hx.gone⟩

theorem Apart.trackRestored {u : CatalogSeries} (hx : x.Apart)
    (h : x.trackRestored now u = .ok y) : y.Apart := by
  unfold Importing.trackRestored at h
  split at h
  · split at h
    · cases h
    · rename_i c htrack
      cases h
      have hids := (Catalog.track_library htrack).identities
      refine ⟨hx.tables.of_places (congrArg _ hids) rfl rfl rfl fun d hd =>
        ⟨fun _ => hd, hx.tables.known d hd⟩, fun g hg => ⟨(hx.gone g hg).1, fun i hi => ?_⟩⟩
      exact (hx.gone g hg).2 i (hids ▸ hi)
  · cases h
    exact hx

/-- No rejected match is between two identities of the series that a turn of the loop merges. -/
def JoinsNone (t : PortableText) (x : Importing) (p : PortableSeries) : Prop :=
  match x.resolveAll t p.sources with
  | .ok resolved => x.tables.JoinsNone (existingSeries resolved)
  | .error _ => True

theorem Apart.restoreSeries {keys : Nat → String} {key : String} {p : PortableSeries}
    (hx : x.Apart) (hjoins : x.JoinsNone t p)
    (h : Importing.restoreSeries t now keys key x p = .ok y) : y.Apart := by
  unfold Importing.restoreSeries at h
  split at h
  · cases h
  rename_i resolved hresolved
  unfold JoinsNone at hjoins
  rw [hresolved] at hjoins
  split at h
  · cases h
  rename_i x₁ row hcanonical
  obtain ⟨h₁, hplaced, hrow⟩ := hx.canonicalSeries (resolveAll_objects hresolved) hjoins hcanonical
  have h₂ : (x₁.describeSeries t now (row.restored t p) p resolved).Apart :=
    h₁.describeSeries hrow rfl hplaced
  dsimp only at h
  split at h
  · cases h
  rename_i x₂ hflush
  split at h
  · cases h
  rename_i x₃ hrefresh
  split at h
  · cases h
  rename_i x₄ htrack
  have h₃ : x₃.Apart := foldlM_inv (P := Apart) hrefresh (h₂.flush hflush).1
    fun _ _ _ _ hx hy => hx.enqueueRefresh hy
  exact ((h₃.trackRestored htrack).flush h).1

instance (t : PortableText) (x : Importing) (p : PortableSeries) : Decidable (x.JoinsNone t p) :=
  match h : x.resolveAll t p.sources with
  | .ok resolved => decidable_of_iff (x.tables.JoinsNone (existingSeries resolved))
      (by unfold JoinsNone; rw [h])
  | .error _ => isTrue (by unfold JoinsNone; rw [h]; trivial)

/-- Every turn of the loop joins none. -/
def JoinNone (t : PortableText) (now : Time) (keys : Nat → String) (key : String) :
    List PortableSeries → Importing → Prop
  | [], _ => True
  | p :: series, x => x.JoinsNone t p ∧
    match Importing.restoreSeries t now keys key x p with
    | .ok y => JoinNone t now keys key series y
    | .error _ => True

instance JoinNone.decide (t : PortableText) (now : Time) (keys : Nat → String) (key : String) :
    ∀ (series : List PortableSeries) (x : Importing), Decidable (JoinNone t now keys key series x)
  | [], _ => isTrue trivial
  | p :: series, x =>
    have : Decidable (match Importing.restoreSeries t now keys key x p with
        | .ok y => JoinNone t now keys key series y
        | .error _ => True) :=
      match Importing.restoreSeries t now keys key x p with
      | .ok y => JoinNone.decide t now keys key series y
      | .error _ => isTrue trivial
    inferInstanceAs (Decidable (_ ∧ _))

theorem Apart.restoreAll {keys : Nat → String} {key : String} {series : List PortableSeries}
    (hx : x.Apart) (hjoins : JoinNone t now keys key series x)
    (h : series.foldlM (Importing.restoreSeries t now keys key) x = .ok y) : y.Apart := by
  induction series generalizing x with
  | nil =>
    cases h
    exact hx
  | cons p series ih =>
    obtain ⟨x₁, hp, h⟩ := foldlM_cons_eq_ok.mp h
    obtain ⟨hjoin, hrest⟩ := hjoins
    rw [hp] at hrest
    exact ih (hx.restoreSeries hjoin hp) hrest h

/-- A separation is refused when its identities are in one series. -/
theorem Apart.restoreSeparation {seen : Installation} {d : PortableSeparation} (hx : x.Apart)
    (h : Importing.restoreSeparation seen x d = .ok y) : y.Apart := by
  unfold Importing.restoreSeparation at h
  split at h
  swap
  · cases h
  rename_i left right hleft hright
  obtain ⟨_, -, hl⟩ := Option.bind_eq_some_iff.mp hleft
  obtain ⟨_, -, hr⟩ := Option.bind_eq_some_iff.mp hright
  have hlive : ∀ {id : Nat} {i : CatalogSourceSeries}, x.object? id = some i →
      i.id < x.tables.nextIdentity ∧ ∀ j ∈ x.tables.identities, j.id = i.id → j = i := by
    intro id i hi
    rcases (object_cases hi).2 with hm | hm
    · exact ⟨hx.tables.newIdentity i hm, fun j hj he => hx.tables.identities.eq hj hm he⟩
    · exact ⟨(hx.gone i hm).1, fun j hj he => absurd he ((hx.gone i hm).2 j hj)⟩
  obtain ⟨hll, hlj⟩ := hlive hl
  obtain ⟨hrl, hrj⟩ := hlive hr
  dsimp only at h
  split at h
  · cases h
  rename_i hne
  cases h
  -- a decision on the pair is between identities of two series
  have hpair : ∀ c : CatalogMatchDecision, c.leftSourceSeriesId = min left.id right.id →
      c.rightSourceSeriesId = max left.id right.id →
      (∀ i j, c.Between x.tables.identities i j → i.seriesId ≠ j.seriesId) ∧
        c.leftSourceSeriesId < x.tables.nextIdentity ∧
        c.rightSourceSeriesId < x.tables.nextIdentity := by
    intro c hcl hcr
    refine ⟨fun i j hb => ?_, by omega, by omega⟩
    have hi := hb.leftId.trans hcl
    have hj := hb.rightId.trans hcr
    rcases Nat.le_total left.id right.id with hle | hle
    · rw [Nat.min_eq_left hle] at hi
      rw [Nat.max_eq_right hle] at hj
      rw [hlj i hb.left hi, hrj j hb.right hj]
      exact hne
    · rw [Nat.min_eq_right hle] at hi
      rw [Nat.max_eq_left hle] at hj
      rw [hrj i hb.left hi, hlj j hb.right hj]
      exact Ne.symm hne
  split
  · refine ⟨⟨fun c hc hrejected i j hb => ?_, hx.tables.identities, hx.tables.series,
      hx.tables.newIdentity, hx.tables.newSeries, fun c hc => ?_⟩, hx.gone⟩
    · obtain ⟨c₀, hc₀, rfl⟩ := List.mem_map.mp hc
      split at hrejected
      · rename_i hp
        rw [if_pos hp] at hb
        rw [Bool.and_eq_true, beq_iff_eq, beq_iff_eq] at hp
        exact (hpair c₀ hp.1 hp.2).1 i j ⟨hb.left, hb.right, hb.leftId, hb.rightId⟩
      · rename_i hp
        rw [if_neg hp] at hb
        exact hx.tables.separated c₀ hc₀ hrejected i j hb
    · obtain ⟨c₀, hc₀, rfl⟩ := List.mem_map.mp hc
      split
      · exact hx.tables.known c₀ hc₀
      · exact hx.tables.known c₀ hc₀
  · refine ⟨⟨fun c hc hrejected i j hb => ?_, hx.tables.identities, hx.tables.series,
      hx.tables.newIdentity, hx.tables.newSeries, fun c hc => ?_⟩, hx.gone⟩
    · rcases List.mem_append.mp hc with hc | hc
      · exact hx.tables.separated c hc hrejected i j hb
      · obtain rfl := List.mem_singleton.mp hc
        exact (hpair _ rfl rfl).1 i j hb
    · rcases List.mem_append.mp hc with hc | hc
      · exact hx.tables.known c hc
      · obtain rfl := List.mem_singleton.mp hc
        exact (hpair _ rfl rfl).2

end Importing

namespace Installation

variable {t : PortableText} {s s' : Installation} {keys : Nat → String}
  {digest : PortableState → String} {p : PortableState} {now : Time}

/-- The import joins no identities of a rejected match. -/
def ImportJoinsNone (t : PortableText) (keys : Nat → String) (digest : PortableState → String)
    (s : Installation) (p : PortableState) (now : Time) : Prop :=
  Importing.JoinNone t now keys (Importing.workflowKey digest p) p.series s.importing

theorem applyPortableImport_apart {report : PortableImportReport} (hs : s.toShelf.Apart)
    (hjoins : ImportJoinsNone t keys digest s p now)
    (h : s.applyPortableImport t keys digest p now = .ok (s', report)) : s'.toShelf.Apart := by
  unfold applyPortableImport at h
  split at h
  · cases h
  split at h
  · cases h
  split at h
  · cases h
  rename_i x₁ hseries
  have h₀ : s.importing.Apart := ⟨hs, fun g hg => by cases hg⟩
  have h₁ := h₀.restoreAll hjoins hseries
  split at h
  · cases h
  rename_i x₂ hseparations
  have h₂ : x₂.Apart := foldlM_inv (P := Importing.Apart) hseparations h₁
    fun _ _ _ _ hx hy => hx.restoreSeparation hy
  dsimp only at h
  split at h
  · cases h
  rename_i x₃ hflush
  cases h
  exact ((h₂.of_rows (.foldl Installation.restoreProvider_rows _ _)).flush hflush).1.tables

/-! ## The snapshot -/

/-- An identity of the snapshot is in the series that its key belongs to. -/
theorem exported_owner {i : CatalogSourceSeries} {k : Nat}
    (hkeys : (s.exportedSources.map (·.identityKey)).Nodup) (hi : i ∈ s.exportedSources)
    (h : s.exported.owner i.identityKey = some k) :
    ∃ u, s.exportedRows[k]? = some u ∧ i.seriesId = u.id := by
  unfold PortableState.owner at h
  obtain ⟨hlt, hany, -⟩ := List.findIdx?_eq_some_iff_getElem.mp h
  have hlt' : k < s.exportedRows.length := by simpa [exported] using hlt
  refine ⟨s.exportedRows[k], List.getElem?_eq_getElem hlt', ?_⟩
  have hseries : s.exported.series[k] = s.exportSeries s.exportedRows[k] := by
    simp [exported]
  rw [hseries, List.any_eq_true] at hany
  obtain ⟨q, hq, he⟩ := hany
  obtain ⟨j, hj, rfl⟩ := List.mem_map.mp hq
  -- the keys of the snapshot are distinct, so this is the identity itself
  have hjm : j ∈ s.exportedSources :=
    List.mem_flatMap.mpr ⟨_, List.getElem_mem hlt', hj⟩
  have hkey : j.identityKey = i.identityKey := eq_of_beq he
  obtain rfl := List.inj_on_of_nodup_map hkeys hjm hi hkey
  exact (mem_sourceRows.mp hj).2

/-- A separation of the snapshot is between two of its series. -/
theorem exported_separations (hs : s.toShelf.Apart) (hvalid : s.exported.validate t = true) :
    s.exported.separationConflicts = [] := by
  have hkeys : (s.exportedSources.map (·.identityKey)).Nodup :=
    exported_keys ▸ (PortableState.validate_iff.mp hvalid).2.2.2
  unfold PortableState.separationConflicts
  rw [List.map_eq_nil_iff, List.filter_eq_nil_iff]
  intro p hp howner
  obtain ⟨d, hd, hpd⟩ := List.mem_filterMap.mp hp
  rw [List.mem_insertionSort, List.mem_filter, Bool.and_eq_true, decide_eq_true_eq,
    decide_eq_true_eq] at hd
  obtain ⟨hrejected, hleft, hright⟩ := hd
  obtain ⟨hd, hrejected⟩ := List.mem_filter.mp hrejected
  split at hpd
  swap
  · cases hpd
  rename_i left right hl hr
  cases hpd
  have hrow : ∀ {id : Nat} {i : CatalogSourceSeries}, id ∈ s.exportedIdentities →
      s.identity? id = some i → i ∈ s.exportedSources ∧ i ∈ s.identities ∧ i.id = id := by
    intro id i hid hi
    obtain ⟨j, hj, rfl⟩ := mem_exportedIdentities.mp hid
    obtain ⟨u, -, hju⟩ := List.mem_flatMap.mp hj
    obtain rfl := hs.identities.eq (mem_sourceRows.mp hju).1 (Table.get_mem hi)
      (Table.get_key hi).symm
    exact ⟨hj, Table.get_mem hi, rfl⟩
  obtain ⟨hle, hlm, hlid⟩ := hrow hleft hl
  obtain ⟨hre, hrm, hrid⟩ := hrow hright hr
  have howner : s.exported.owner left.identityKey = s.exported.owner right.identityKey :=
    eq_of_beq howner
  cases hk : s.exported.owner left.identityKey with
  | none =>
    -- the key is one of the snapshot
    have hm : left.identityKey ∈ s.exported.keys :=
      exported_keys ▸ List.mem_map_of_mem hle
    obtain ⟨q, hq, hm⟩ := List.mem_flatMap.mp hm
    obtain ⟨src, hsrc, he⟩ := List.mem_map.mp hm
    have := List.findIdx?_eq_none_iff.mp hk q hq
    simp only [List.any_eq_false, beq_iff_eq] at this
    exact this src hsrc he
  | some k =>
    obtain ⟨u, hu, hlu⟩ := exported_owner hkeys hle hk
    obtain ⟨v, hv, hrv⟩ := exported_owner hkeys hre (howner ▸ hk)
    rw [hu] at hv
    cases hv
    exact hs.separated d hd (by simpa using hrejected) left right ⟨hlm, hrm, hlid, hrid⟩
      (hlu.trans hrv.symm)

/-- Nothing of a snapshot is found in an empty catalog. -/
theorem resolveAll_empty (sources : List PortableSource) :
    Importing.resolveAll t ({} : Installation).importing sources =
      .ok (sources.map fun p => (p, none)) := by
  have hnone : ∀ p, Importing.resolveIdentity t ({} : Installation).importing p = .ok none :=
    fun p => rfl
  induction sources with
  | nil => rfl
  | cons p sources ih =>
    unfold Importing.resolveAll
    rw [hnone, ih]
    rfl

theorem planPortableImport_empty (t : PortableText) (p : PortableState) :
    ∃ report, ({} : Installation).planPortableImport t p = .ok report ∧
      report.conflicts = p.separationConflicts := by
  have hfold : ∀ (series : List PortableSeries) (acc : Planning), acc.report.conflicts = [] →
      ∃ acc', series.foldlM (Planning.planSeries t ({} : Installation).importing) acc = .ok acc' ∧
        acc'.report.conflicts = [] := by
    intro series
    induction series with
    | nil => exact fun acc hacc => ⟨acc, rfl, hacc⟩
    | cons q series ih =>
      intro acc hacc
      have hids : Importing.existingSeries (q.sources.map fun p => (p, none)) = [] := by
        unfold Importing.existingSeries
        rw [List.filterMap_map]
        simp
      obtain ⟨acc', hacc', hnone⟩ := ih { acc with
        report := { acc.report with
          createSources := acc.report.createSources +
            (q.sources.map fun p => (p, (none : Option CatalogSourceSeries))).countP (·.2.isNone)
          createSeries := acc.report.createSeries + 1 } } hacc
      refine ⟨acc', foldlM_cons_eq_ok.mpr ⟨_, ?_, hacc'⟩, hnone⟩
      unfold Planning.planSeries
      rw [resolveAll_empty]
      dsimp only
      rw [hids]
      rfl
  obtain ⟨acc, hacc, hnone⟩ := hfold p.series { report := p.report } rfl
  refine ⟨_, by rw [planPortableImport, hacc]; rfl, ?_⟩
  dsimp only
  rw [hnone, List.nil_append]

end Installation

/-! ## Runs -/

/-- A call that writes identities, series or decisions; `other` is one that writes other tables. -/
inductive SeparationCall where
  | ingest (call : IngestCall)
  | propose (similar : CatalogSourceSeries → CatalogSourceSeries → Bool) (sourceSeriesId : Nat)
  | review (action : MatchAction) (decisionIds seriesIds : List Nat) (now : Time)
  | merge (ids : List Nat) (now : Time)
  | restore (keys : Nat → String) (digest : PortableState → String) (p : PortableState) (now : Time)
  | other (s : Installation)

namespace SeparationCall

variable (t : PortableText) (s : Installation)

/-- What a call raises rolls it back. -/
def apply : SeparationCall → Installation
  | .ingest call => match s.toShelf.ingest t.toCatalogText call with
    | .ok (shelf, _) => { s with toShelf := shelf }
    | .error _ => s
  | .propose similar sourceSeriesId =>
    { s with toShelf := s.toShelf.proposeByCover similar sourceSeriesId }
  | .review action decisionIds seriesIds now =>
    match s.toCollection.review t.toTextLib action decisionIds seriesIds now with
    | .ok c => { s with toCollection := c }
    | .error _ => s
  | .merge ids now => match s.toCollection.mergeCanonicalSeries t.toTextLib ids now with
    | .ok (c, _) => { s with toCollection := c }
    | .error _ => s
  | .restore keys digest p now => match s.applyPortableImport t keys digest p now with
    | .ok (s, _) => s
    | .error _ => s
  | .other s => s

/-- The identities stay in their series, and no decision is made. -/
def Allowed : SeparationCall → Prop
  | .other s' => s'.identities.map Shelf.identityPlace = s.identities.map Shelf.identityPlace ∧
    s'.nextIdentity = s.nextIdentity ∧ s'.series.map (·.id) = s.series.map (·.id) ∧
    s'.nextSeries = s.nextSeries ∧ s'.decisions = s.decisions
  | _ => True

/-- The call brings no identities of a rejected match into one series. -/
def Respects : SeparationCall → Prop
  | .review action decisionIds seriesIds _ => s.ReviewKeeps action decisionIds seriesIds
  | .merge ids _ => s.JoinsNone ids
  | .restore keys digest p now => s.ImportJoinsNone t keys digest p now
  | _ => True

end SeparationCall

def SeparationStep (t : PortableText) (s : Installation) (call : SeparationCall)
    (s' : Installation) : Prop :=
  call.Allowed s ∧ s' = call.apply t s

theorem SeparationStep.apart {t : PortableText} {s s' : Installation} {call : SeparationCall}
    (hs : s.toShelf.Apart) (hc : call.Respects t s) (h : SeparationStep t s call s') :
    s'.toShelf.Apart := by
  obtain ⟨hallowed, rfl⟩ := h
  cases call with
  | ingest call =>
    unfold SeparationCall.apply
    dsimp only
    split
    · rename_i shelf id hok
      exact hs.ingest hok
    · exact hs
  | propose similar sourceSeriesId => exact hs.proposeByCover similar sourceSeriesId
  | review action decisionIds seriesIds now =>
    unfold SeparationCall.apply
    dsimp only
    split
    · rename_i c hok
      exact hs.review hc hok
    · exact hs
  | merge ids now =>
    unfold SeparationCall.apply
    dsimp only
    split
    · rename_i c target hok
      exact hs.merge hc hok
    · exact hs
  | restore keys digest p now =>
    unfold SeparationCall.apply
    dsimp only
    split
    · rename_i s₁ report hok
      exact Installation.applyPortableImport_apart hs hc hok
    · exact hs
  | other s' =>
    obtain ⟨hids, hnext, hseries, hnextSeries, hdecisions⟩ := hallowed
    exact hs.of_places hids hnext hseries hnextSeries fun d hd =>
      have hd' : d ∈ s.decisions := hdecisions ▸ hd
      ⟨fun _ => hd', hs.known d hd'⟩

/-- In a run in which no call brings the identities of a rejected match together they are apart all
along, and a snapshot that is exported on the way has no conflict with an empty catalog. -/
theorem separations_respected {t : PortableText} {tr : List (Installation × SeparationCall)}
    {s : Installation} (hrun : Run (SeparationStep t) {} tr s)
    (hc : Run.Meets (fun s call => call.Respects t s) tr) :
    ∀ x, Run.Visits tr s x → x.toCollection.Separated ∧
      ∀ snapshot, x.exportPortableState t = .ok snapshot →
        ∃ report, ({} : Installation).planPortableImport t snapshot.toPortableState = .ok report ∧
          report.conflicts = [] := by
  intro x hx
  have h₀ : ({} : Installation).toShelf.Apart :=
    ⟨fun _ hd => (by cases hd), List.nodup_nil, List.nodup_nil, fun _ hi => (by cases hi),
      fun _ hu => (by cases hu), fun _ hd => (by cases hd)⟩
  have hapart : x.toShelf.Apart := hrun.invariant_visits hc h₀
    (fun _ _ _ hc hs hstep => hstep.apart hs hc) x hx
  refine ⟨hapart.separated, fun snapshot h => ?_⟩
  unfold Installation.exportPortableState at h
  split at h
  · rename_i hvalid
    cases h
    obtain ⟨report, hreport, hconflicts⟩ :=
      Installation.planPortableImport_empty t x.exported
    exact ⟨report, hreport, hconflicts.trans (Installation.exported_separations hapart hvalid)⟩
  · cases h

/-- The listings of the title are of two works, and stay apart when a snapshot is restored that has
one of them and says so. -/
def soloSnapshot : PortableState where
  series :=
    [{ title := "Solo", status := .interested
       sources :=
        [{ source := "mangadex", sourceId := "m-1", title := "Solo"
           url := "https://mangadex.org/title/m-1" }] }]
  separations := [⟨⟨"mangadex", "m-1"⟩, ⟨"mangafire", "f-1"⟩⟩]

def soloSeparations : List SeparationCall :=
  [.ingest soloMangadex, .ingest soloMangafire, .review .rejected [1] [1, 2] 5,
    .restore (fun _ => "c") (fun _ => "digest") soloSnapshot 7]

/-- The rejected match is between identities of two series. -/
theorem solo_separations_respected : ∃ tr s, Run (SeparationStep asciiPortable) {} tr s ∧
    s.decisions.map (·.decision) = [.decided .rejected] ∧
    s.identities.map (·.seriesId) = [1, 2] ∧ s.toCollection.Separated := by
  have hrun : Run (SeparationStep asciiPortable) {}
      (Run.history (fun s call => call.apply asciiPortable s) {} soloSeparations)
      (soloSeparations.foldl (fun s call => call.apply asciiPortable s) {}) := by
    refine Run.of_foldl _ _ fun x hx => ⟨?_, rfl⟩
    simp only [soloSeparations, Run.history, List.mem_cons, List.not_mem_nil, or_false] at hx
    rcases hx with rfl | rfl | rfl | rfl <;> trivial
  refine ⟨_, _, hrun, by decide +kernel, by decide +kernel,
    (separations_respected hrun (fun x hx => ?_) _ Run.visits_last).1⟩
  simp only [soloSeparations, Run.history, List.mem_cons, List.not_mem_nil, or_false] at hx
  rcases hx with rfl | rfl | rfl | rfl
  · trivial
  · trivial
  · change Shelf.RejectsNone _ [1]
    decide +kernel
  · change Importing.JoinNone _ _ _ _ soloSnapshot.series _
    decide +kernel

end MangaManager
