import MangaManager.Portable.Export
import MangaManager.Series.Idempotent
import MangaManager.Series.Rewritten

/-!
# What the export needs of the tables

The models of the snapshot check texts and, across the rows, that a provider occurs once in a
series, that no two identities have one key, and that a separation joins two. No constraint of the
tables says so. `Exportable` is what does, and `Exportable.valid` that the export then returns.
-/

namespace MangaManager

open Lib JobPayload

/-- A title of a series. -/
def IsPortableTitle (title : String) : Prop := lengthIn 1 500 title = true

instance (title : String) : Decidable (IsPortableTitle title) :=
  inferInstanceAs (Decidable (_ = true))

section
variable (t : PortableText)

/-- What the models ask of an identity; its series has a title when it has none. -/
structure CatalogSourceSeries.Portable (i : CatalogSourceSeries) : Prop where
  ref : (⟨i.source, i.sourceId⟩ : PortableIdentityRef).validate = true
  title : i.title.length ≤ 500
  url : lengthIn 1 4096 i.url = true
  http : isHttpUrl t i.url = true
  revision : lengthIn 0 20 i.revisionOverride = true
  normalized : i.normalizedSourceId = portableIdentity i.source i.sourceId

def CatalogAlternateSourceListing.portable (a : CatalogAlternateSourceListing) :
    PortableAlternate := ⟨a.sourceId, a.title, a.url⟩

/-- The rows from which a snapshot is built. -/
structure Shelf.Exportable (s : Shelf) : Prop where
  homes : s.toCollection.Homes IsPortableTitle
  newIdentity : ∀ i ∈ s.identities, i.id < s.nextIdentity
  newSeries : ∀ u ∈ s.series, u.id < s.nextSeries
  identifiersOk : Shelf.IdentifiersOk (s.identifiers, s.nextIdentifier)
  identity : ∀ i ∈ s.identities, i.Portable t
  keys : ∀ i ∈ s.identities, ∀ j ∈ s.identities, i.identityKey = j.identityKey → i = j
  identifier : ∀ x ∈ s.identifiers, lengthIn 1 50 x.provider = true ∧ lengthIn 1 200 x.value = true
  displayed : ∀ a ∈ s.aliases, lengthIn 1 500 a.displayValue = true
  alternate : ∀ a ∈ s.alternates, a.portable.validate t = true
  chapter : ∀ c ∈ s.chapters, lengthIn 1 100 c.canonicalNumber = true
  decision : ∀ d ∈ s.decisions, d.leftSourceSeriesId ≠ d.rightSourceSeriesId

end

namespace Installation

variable {t : PortableText} {s : Installation} {u : CatalogSeries} {i : CatalogSourceSeries}

theorem mem_sourceRows {id : Nat} : i ∈ s.sourceRows id ↔ i ∈ s.identities ∧ i.seriesId = id := by
  simp [sourceRows, List.mem_insertionSort]

theorem sourceRows_nodup (hk : Table.Keyed CatalogSourceSeries.id s.identities) (id : Nat) :
    (s.sourceRows id).Nodup :=
  (List.perm_insertionSort _ _).nodup_iff.mpr ((List.Nodup.of_map _ hk).filter _)

theorem mem_exportedRows (h : u ∈ s.exportedRows) :
    u ∈ s.series ∧ ∃ i ∈ s.sourceRows u.id, True := by
  obtain ⟨hu, hne⟩ := List.mem_filter.mp h
  rw [List.mem_insertionSort, List.mem_filter] at hu
  refine ⟨hu.1, ?_⟩
  cases hrows : s.sourceRows u.id with
  | nil => simp [hrows] at hne
  | cons i l => exact ⟨i, List.mem_cons_self, trivial⟩

theorem exportedRows_nodup (hk : Table.Keyed CatalogSeries.id s.series) : s.exportedRows.Nodup :=
  ((List.perm_insertionSort _ _).nodup_iff.mpr ((List.Nodup.of_map _ hk).filter _)).filter _

/-- The identities of the snapshot, series by series. -/
def exportedSources (s : Installation) : List CatalogSourceSeries :=
  s.exportedRows.flatMap fun u => s.sourceRows u.id

theorem exportedSources_nodup (hk : Table.Keyed CatalogSourceSeries.id s.identities)
    (hseries : Table.Keyed CatalogSeries.id s.series) : s.exportedSources.Nodup := by
  refine List.nodup_flatMap.mpr ⟨fun u _ => sourceRows_nodup hk u.id, ?_⟩
  refine List.Pairwise.imp_of_mem ?_ (exportedRows_nodup hseries)
  intro u v hu hv hne
  refine List.disjoint_left.mpr ?_
  intro i hi hi'
  refine hne (hseries.eq (mem_exportedRows hu).1 (mem_exportedRows hv).1 ?_)
  rw [← (mem_sourceRows.mp hi).2, (mem_sourceRows.mp hi').2]

theorem exported_keys : s.exported.keys = s.exportedSources.map (·.identityKey) := by
  simp only [PortableState.keys, exported, exportedSources, List.flatMap_map, List.map_flatMap]
  refine List.flatMap_congr fun u _ => ?_
  rw [exportSeries, List.map_map]
  exact List.map_congr_left fun i _ => rfl

theorem mem_exportedIdentities {id : Nat} :
    id ∈ s.exportedIdentities ↔ ∃ i ∈ s.exportedSources, i.id = id := by
  simp only [exportedIdentities, exportedSources, List.mem_flatMap, List.mem_map]
  constructor
  · rintro ⟨u, hu, i, hi, rfl⟩
    exact ⟨i, ⟨u, hu, hi⟩, rfl⟩
  · rintro ⟨i, ⟨u, hu, hi⟩, rfl⟩
    exact ⟨u, hu, i, hi, rfl⟩

section
variable (hs : s.toShelf.Exportable t)
include hs

theorem Exportable.exportSource (hu : IsPortableTitle u.title) (hi : i ∈ s.identities) :
    (s.exportSource u i).validate t = true := by
  have hp := hs.identity i hi
  have htitle : lengthIn 1 500 (orText i.title u.title) = true := by
    unfold orText
    split
    · exact hu
    · rename_i hne
      have hpos : 0 < i.title.length := by
        rw [Nat.pos_iff_ne_zero, ne_eq, String.length_eq_zero_iff]
        exact hne
      have hle := hp.title
      simp only [lengthIn, Bool.and_eq_true, decide_eq_true_eq]
      omega
  have haliases : ((s.exportSource u i).aliases.all (lengthIn 1 500)) = true := by
    rw [List.all_eq_true]
    intro v hv
    obtain ⟨a, ha, rfl⟩ := List.mem_map.mp hv
    rw [List.mem_insertionSort, List.mem_filter] at ha
    exact hs.displayed a ha.1
  have hids : ((s.exportSource u i).externalIds.all fun e =>
      lengthIn 1 50 e.1 && lengthIn 1 200 e.2) = true := by
    rw [List.all_eq_true]
    intro e he
    obtain ⟨x, hx, rfl⟩ := List.mem_map.mp he
    rw [List.mem_insertionSort, List.mem_filter] at hx
    rw [Bool.and_eq_true]
    exact hs.identifier x hx.1
  have hkeys : ((s.exportSource u i).externalIds.map (·.1)).Nodup := by
    show (List.map _ (List.map _ _)).Nodup
    rw [List.map_map]
    refine List.Nodup.map_on (fun x hx y hy he => ?_)
      ((List.perm_insertionSort _ _).nodup_iff.mpr
        ((List.Nodup.of_map _ hs.identifiersOk.keyed).filter _))
    rw [List.mem_insertionSort, List.mem_filter, beq_iff_eq] at hx hy
    exact List.inj_on_of_nodup_map hs.identifiersOk.identityProvider hx.1 hy.1
      (Prod.ext (hx.2.trans hy.2.symm) he)
  have halternates : ((s.exportSource u i).alternates.all (·.validate t)) = true := by
    rw [List.all_eq_true]
    intro a ha
    obtain ⟨b, hb, rfl⟩ := List.mem_map.mp ha
    rw [List.mem_insertionSort, List.mem_filter] at hb
    exact hs.alternate b hb.1
  simp only [PortableSource.validate, Bool.and_eq_true, decide_eq_true_eq]
  exact ⟨⟨⟨⟨⟨⟨⟨⟨hp.ref, htitle⟩, hp.url⟩, hp.revision⟩, hp.http⟩, haliases⟩, hids⟩, hkeys⟩,
    halternates⟩

theorem Exportable.exportSeries (hu : u ∈ s.exportedRows) :
    (s.exportSeries u).validate t = true := by
  obtain ⟨hseries, i, hi, -⟩ := mem_exportedRows hu
  have htitle : IsPortableTitle u.title := by
    obtain ⟨row, hrow, hid, hP⟩ := hs.homes.identity i (mem_sourceRows.mp hi).1
    obtain rfl := hs.homes.series.eq hrow hseries (hid.trans (mem_sourceRows.mp hi).2)
    exact hP
  have hne : (!(s.exportSeries u).sources.isEmpty) = true := by
    rw [Bool.not_eq_true', List.isEmpty_eq_false_iff]
    exact List.ne_nil_of_mem (List.mem_map_of_mem hi)
  have hsources : ((s.exportSeries u).sources.all (·.validate t)) = true := by
    rw [List.all_eq_true]
    intro p hp
    obtain ⟨j, hj, rfl⟩ := List.mem_map.mp hp
    exact Exportable.exportSource hs htitle (mem_sourceRows.mp hj).1
  have hreading : ((s.exportSeries u).reading.all (·.validate)) = true := by
    rw [List.all_eq_true]
    intro r hr
    obtain ⟨⟨c, row⟩, hc, rfl⟩ := List.mem_map.mp hr
    rw [List.mem_filter, List.mem_insertionSort, List.mem_filterMap] at hc
    obtain ⟨row', -, hrow⟩ := hc.1
    obtain ⟨d, hd, he⟩ := Option.map_eq_some_iff.mp hrow
    obtain ⟨rfl, -⟩ := Prod.mk.inj he
    exact hs.chapter d (Table.get_mem (Option.filter_eq_some_iff.mp hd).1)
  have hproviders : ((s.exportSeries u).sources.map (·.source)).Nodup := by
    show (List.map _ (List.map _ _)).Nodup
    rw [List.map_map]
    refine List.Nodup.map_on (fun x hx y hy he => ?_) (sourceRows_nodup hs.homes.keyed u.id)
    rw [mem_sourceRows] at hx hy
    exact hs.homes.one x hx.1 y hy.1 (hx.2.trans hy.2.symm) he
  rw [PortableSeries.validate, Bool.and_eq_true, Bool.and_eq_true, Bool.and_eq_true,
    Bool.and_eq_true, decide_eq_true_eq]
  exact ⟨⟨⟨⟨htitle, hne⟩, hsources⟩, hreading⟩, hproviders⟩

/-- The snapshot passes all checks of the models. -/
theorem Exportable.valid (hp : ∀ p ∈ s.sourceStates, isSourceField p.source = true) :
    s.exported.validate t = true := by
  have hsource : ∀ id i, id ∈ s.exportedIdentities → s.identity? id = some i →
      i ∈ s.identities ∧ i.id = id ∧ i.identityKey ∈ s.exported.keys := by
    intro id i hid hi
    obtain ⟨j, hj, rfl⟩ := mem_exportedIdentities.mp hid
    obtain ⟨u, -, hju⟩ := List.mem_flatMap.mp hj
    obtain rfl := hs.homes.keyed.eq (Table.get_mem hi) (mem_sourceRows.mp hju).1 (Table.get_key hi)
    rw [exported_keys]
    exact ⟨(mem_sourceRows.mp hju).1, rfl, List.mem_map_of_mem hj⟩
  refine PortableState.validate_iff.mpr ⟨fun p hm => ?_, fun d hd => ?_, fun p hm => ?_, ?_⟩
  · obtain ⟨u, hu, rfl⟩ := List.mem_map.mp hm
    exact Exportable.exportSeries hs hu
  · obtain ⟨row, hrow, he⟩ := List.mem_filterMap.mp hd
    rw [List.mem_insertionSort, List.mem_filter, Bool.and_eq_true, decide_eq_true_eq,
      decide_eq_true_eq] at hrow
    obtain ⟨hrow, hl, hr⟩ := hrow
    split at he
    · rename_i left right hleft hright
      cases he
      obtain ⟨hlm, hlid, hlk⟩ := hsource _ left hl hleft
      obtain ⟨hrm, hrid, hrk⟩ := hsource _ right hr hright
      have hne : left.identityKey ≠ right.identityKey := fun hkey => by
        have hsame := hs.keys left hlm right hrm hkey
        exact hs.decision row (List.mem_filter.mp hrow).1 (hlid.symm.trans (hsame ▸ hrid))
      refine ⟨?_, hlk, hrk⟩
      simp only [PortableSeparation.validate, Bool.and_eq_true, bne_iff_ne]
      exact ⟨⟨(hs.identity left hlm).ref, (hs.identity right hrm).ref⟩, hne⟩
    · cases he
  · obtain ⟨p, hpm, rfl⟩ := List.mem_map.mp hm
    rw [List.mem_insertionSort] at hpm
    exact hp p hpm
  · rw [exported_keys]
    refine List.Nodup.map_on (fun i hi j hj he => ?_)
      (exportedSources_nodup hs.homes.keyed hs.homes.series)
    obtain ⟨u, -, hiu⟩ := List.mem_flatMap.mp hi
    obtain ⟨v, -, hjv⟩ := List.mem_flatMap.mp hj
    exact hs.keys i (mem_sourceRows.mp hiu).1 j (mem_sourceRows.mp hjv).1 he

end

end Installation

end MangaManager
