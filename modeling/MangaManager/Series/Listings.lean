import Mathlib.Data.Finset.Prod
import MangaManager.Series.Rounds

/-!
# Merging provider listings

What a merge checks, without the tables: a series is the set of its providers'
listings, each with the numbers of its releases, and a round joins two such sets
(`joined`) after it compared the listings of each provider of both (`compatible`).
`mergeInto_listings`: a round of `merge_canonical_series` is a round on the listings.
-/

namespace MangaManager

open Lib

/-- A provider's listing of a title, each release with its id and the number of its chapter. -/
structure Listing where
  id : Nat
  name : ProviderIdentity
  releases : Finset (String × String)
  deriving DecidableEq

namespace Listing

variable (t : TextLib)

def source (l : Listing) : String := l.name.source

def numbers (l : Listing) : Finset String := l.releases.image Prod.snd

/-- The keeper with the releases it lacks. -/
def absorb (keeper duplicate : Listing) : Listing :=
  { keeper with
    releases := keeper.releases ∪
      duplicate.releases.filter fun r => ∀ k ∈ keeper.releases, k.1 ≠ r.1 }

/-- The listings must not end up in one series. -/
def clashes (l r : Listing) : Bool :=
  !t.providerIdentitiesEquivalent l.name r.name &&
    lacksOverlap ((l.numbers ∩ r.numbers).card, min l.numbers.card r.numbers.card)

/-- The provider of the listing has one in the series too. -/
def Shared (g : Finset Listing) (l : Listing) : Prop := ∃ k ∈ g, k.source = l.source

instance (g : Finset Listing) (l : Listing) : Decidable (Shared g l) :=
  inferInstanceAs (Decidable (∃ k ∈ g, k.source = l.source))

/-- The oldest listing of `g` whose provider `h` has too: of it, the one of `h` is kept. -/
def Leads (g h : Finset Listing) (l : Listing) : Prop := ∀ k ∈ g, Shared h k → l.id ≤ k.id

instance (g h : Finset Listing) (l : Listing) : Decidable (Leads g h l) :=
  inferInstanceAs (Decidable (∀ k ∈ g, Shared h k → l.id ≤ k.id))

/-- The listings of both series, one of each provider. -/
def joined (g h : Finset Listing) : Finset Listing :=
  g.filter (¬ Shared h ·) ∪ h.filter (¬ Shared g ·) ∪
    ((g ×ˢ h).filter fun p => p.1.source = p.2.source).image fun p =>
      if Leads g h p.1 then p.2.absorb p.1 else p.1.absorb p.2

/-- No provider's listings clash. -/
def Compatible (g h : Finset Listing) : Prop :=
  ∀ l ∈ g, ∀ r ∈ h, l.source = r.source → l.clashes t r = false

instance (g h : Finset Listing) : Decidable (Compatible t g h) :=
  inferInstanceAs (Decidable (∀ l ∈ g, ∀ r ∈ h, l.source = r.source → l.clashes t r = false))

/-- The series can be joined to the first one after the other. -/
def FoldsUp : Finset Listing → List (Finset Listing) → Prop
  | _, [] => True
  | g, h :: rest => Compatible t g h ∧ FoldsUp (joined g h) rest

theorem foldsUp_cons {g h : Finset Listing} {rest : List (Finset Listing)} :
    FoldsUp t g (h :: rest) ↔ Compatible t g h ∧ FoldsUp t (joined g h) rest := Iff.rfl

instance decidableFoldsUp : (g : Finset Listing) → (l : List (Finset Listing)) →
    Decidable (FoldsUp t g l)
  | _, [] => inferInstanceAs (Decidable True)
  | g, h :: rest => @instDecidableAnd _ _ _ (decidableFoldsUp (joined g h) rest)

theorem mem_joined {g h : Finset Listing} {x : Listing} : x ∈ joined g h ↔
    (x ∈ g ∧ ¬ Shared h x) ∨ (x ∈ h ∧ ¬ Shared g x) ∨
      ∃ l ∈ g, ∃ r ∈ h, l.source = r.source ∧
        (if Leads g h l then r.absorb l else l.absorb r) = x := by
  unfold joined
  simp only [Finset.mem_union, Finset.mem_filter, Finset.mem_image, Finset.mem_product, Prod.exists,
    or_assoc]
  refine or_congr_right (or_congr_right ⟨?_, ?_⟩)
  · rintro ⟨l, r, ⟨⟨hl, hr⟩, he⟩, hx⟩
    exact ⟨l, hl, r, hr, he, hx⟩
  · rintro ⟨l, hl, r, hr, he, hx⟩
    exact ⟨l, r, ⟨⟨hl, hr⟩, he⟩, hx⟩

theorem joined_nonempty {g h : Finset Listing} (hg : g.Nonempty) : (joined g h).Nonempty := by
  obtain ⟨l, hl⟩ := hg
  by_cases hs : Shared h l
  · obtain ⟨r, hr, he⟩ := hs
    exact ⟨_, mem_joined.mpr (.inr (.inr ⟨l, hl, r, hr, he.symm, rfl⟩))⟩
  · exact ⟨l, mem_joined.mpr (.inl ⟨hl, hs⟩)⟩

theorem clashes_comm (l r : Listing) : l.clashes t r = r.clashes t l := by
  unfold clashes
  rw [TextLib.equivalent_comm, Finset.inter_comm, min_comm]

end Listing

namespace Collection

/-- The releases of an identity, by their id with the provider and the number of the chapter. -/
def releasesOf (s : Collection) (identityId : Nat) : Finset (String × String) :=
  ((s.releases.filter (·.sourceSeriesId == identityId)).filterMap fun r =>
    (s.numberOf r.chapterId).map fun n => (r.sourceReleaseId, n)).toFinset

def listingOf (s : Collection) (i : CatalogSourceSeries) : Listing :=
  ⟨i.id, i.listing, s.releasesOf i.id⟩

/-- The listings of a series. -/
def listings (s : Collection) (seriesId : Nat) : Finset Listing :=
  ((s.identities.filter (·.seriesId == seriesId)).map s.listingOf).toFinset

/-- The chapter of a release exists (`chapter_release_v2.chapter_id`). -/
def ReleasesOk (s : Collection) : Prop := ∀ r ∈ s.releases, (s.numberOf r.chapterId).isSome = true

/-- A series has one identity of a provider at most, and one at least. -/
structure OnePerSource (s : Collection) (seriesId : Nat) : Prop where
  unique : ∀ i ∈ s.identities, ∀ j ∈ s.identities, i.seriesId = seriesId → j.seriesId = seriesId →
    i.source = j.source → i = j
  nonempty : ∃ i ∈ s.identities, i.seriesId = seriesId

/-- Keys of the tables that the listings are read from. -/
structure ListingsOk (s : Collection) : Prop where
  identities : Table.Keyed CatalogSourceSeries.id s.identities
  chapters : s.ChaptersOk
  releases : s.ReleasesOk

section
variable {t : TextLib} {s s₁ s' : Collection} {i j : CatalogSourceSeries} {u target source id : Nat}
  {l r : Listing} {keeper duplicate : CatalogSourceSeries}

theorem mem_releasesOf {x : String × String} : x ∈ s.releasesOf id ↔
    ∃ r ∈ s.releases, r.sourceSeriesId = id ∧ r.sourceReleaseId = x.1 ∧
      s.numberOf r.chapterId = some x.2 := by
  simp only [releasesOf, List.mem_toFinset, List.mem_filterMap, List.mem_filter, beq_iff_eq,
    Option.map_eq_some_iff]
  constructor
  · rintro ⟨r, ⟨hr, hid⟩, n, hn, rfl⟩
    exact ⟨r, hr, hid, rfl, hn⟩
  · rintro ⟨r, hr, hid, hrel, hn⟩
    exact ⟨r, ⟨hr, hid⟩, x.2, hn, by rw [hrel]⟩

theorem mem_listings : l ∈ s.listings u ↔ ∃ i ∈ s.identities, i.seriesId = u ∧ s.listingOf i = l := by
  simp [listings, and_assoc]

/-- The numbers of `_chapter_overlap` are those of the listing. -/
theorem numbers_listingOf : (s.listingOf i).numbers = s.numbers i.id := by
  ext n
  simp only [Listing.numbers, listingOf, Finset.mem_image, mem_releasesOf, numbers,
    List.mem_toFinset, List.mem_filterMap, List.mem_filter, beq_iff_eq]
  constructor
  · rintro ⟨⟨rid, m⟩, ⟨r, hr, hid, -, hn⟩, rfl⟩
    exact ⟨r, ⟨hr, hid⟩, hn⟩
  · rintro ⟨r, ⟨hr, hid⟩, hn⟩
    exact ⟨(r.sourceReleaseId, n), ⟨r, hr, hid, rfl, hn⟩, rfl⟩

theorem conflicting_eq : s.conflicting t i j = (s.listingOf i).clashes t (s.listingOf j) := by
  unfold conflicting Listing.clashes chapterOverlap
  rw [numbers_listingOf, numbers_listingOf]
  rfl

/-! ## One provider of both series -/

/-- The same identity, its texts aside. -/
structure SameIdentity (i i' : CatalogSourceSeries) : Prop where
  id : i'.id = i.id
  seriesId : i'.seriesId = i.seriesId
  listing : i'.listing = i.listing

theorem SameIdentity.refl : SameIdentity i i := ⟨rfl, rfl, rfl⟩

theorem SameIdentity.trans {k : CatalogSourceSeries} (h : SameIdentity i j) (h' : SameIdentity j k) :
    SameIdentity i k :=
  ⟨h'.id.trans h.id, h'.seriesId.trans h.seriesId, h'.listing.trans h.listing⟩

/-- The releases of the duplicate that the keeper takes. -/
def newReleases (s : Collection) (keeper duplicate : Nat) : Finset (String × String) :=
  (s.releasesOf duplicate).filter fun r => ∀ k ∈ s.releasesOf keeper, k.1 ≠ r.1

/-- The identities of `gone` are deleted, the others are the same. -/
structure Retired (gone : List Nat) (s s' : Collection) : Prop where
  ok : s'.ListingsOk
  chapters : s'.chapters = s.chapters
  kept : ∀ i ∈ s.identities, i.id ∉ gone → ∃ i' ∈ s'.identities, SameIdentity i i'
  origin : ∀ i' ∈ s'.identities, i'.id ∉ gone ∧ ∃ i ∈ s.identities, SameIdentity i i'

theorem numberOf_congr (h : s'.chapters = s.chapters) (id : Nat) : s'.numberOf id = s.numberOf id := by
  rw [numberOf, chapter?, h, numberOf, chapter?]

theorem releasesOf_congr (h : s'.releases = s.releases)
    (hn : ∀ id, s'.numberOf id = s.numberOf id) : s'.releasesOf id = s.releasesOf id := by
  ext x
  simp only [mem_releasesOf, h, hn]

/-- The keeper has a release of this id. -/
theorem exists_release_iff (h : s.ReleasesOk) {rid : String} :
    (∃ k ∈ s.releases, k.sourceSeriesId = id ∧ k.sourceReleaseId = rid) ↔
      ∃ x ∈ s.releasesOf id, x.1 = rid := by
  constructor
  · rintro ⟨k, hk, hid, hrid⟩
    obtain ⟨n, hn⟩ := Option.isSome_iff_exists.mp (h k hk)
    exact ⟨(rid, n), mem_releasesOf.mpr ⟨k, hk, hid, hrid, hn⟩, rfl⟩
  · rintro ⟨x, hx, rfl⟩
    obtain ⟨k, hk, hid, hrid, -⟩ := mem_releasesOf.mp hx
    exact ⟨k, hk, hid, hrid⟩

theorem existingRelease_isNone (h : s.ReleasesOk) {r : ReleaseRow} :
    (s.existingRelease keeper duplicate r).isNone = true ↔
      (r.sourceSeriesId = duplicate.id → ∀ k ∈ s.releasesOf keeper.id, k.1 ≠ r.sourceReleaseId) := by
  unfold existingRelease
  by_cases hd : r.sourceSeriesId = duplicate.id
  · rw [if_pos hd, Option.isNone_iff_eq_none, List.find?_eq_none]
    simp only [Bool.and_eq_true, beq_iff_eq]
    constructor
    · intro hno _ k hk he
      obtain ⟨k', hk', hid, hrid⟩ := (exists_release_iff h).mpr ⟨k, hk, he⟩
      exact hno k' hk' ⟨hid, hrid⟩
    · rintro hno k hk ⟨hid, hrid⟩
      obtain ⟨x, hx, he⟩ := (exists_release_iff h).mp ⟨k, hk, hid, hrid⟩
      exact hno hd x hx he
  · rw [if_neg hd]
    simp [hd]

theorem consolidate_releases (overlap : Nat × Nat) (h : s.ReleasesOk) (hne : keeper.id ≠ duplicate.id) :
    (s.consolidate keeper duplicate overlap).ReleasesOk ∧
      (s.consolidate keeper duplicate overlap).releasesOf keeper.id =
        s.releasesOf keeper.id ∪ s.newReleases keeper.id duplicate.id ∧
      ∀ id, id ≠ keeper.id → id ≠ duplicate.id →
        (s.consolidate keeper duplicate overlap).releasesOf id = s.releasesOf id := by
  have hch := (@consolidate_consolidated s keeper duplicate overlap).chapters
  obtain ⟨alternates, next, he⟩ := @moveAlternates_eq s keeper duplicate overlap
  have hrel : (s.consolidate keeper duplicate overlap).releases =
      (s.releases.filter fun r => (s.existingRelease keeper duplicate r).isNone).map fun r =>
        if r.sourceSeriesId = duplicate.id then { r with sourceSeriesId := keeper.id } else r := by
    unfold consolidate
    rw [he]
    rfl
  generalize s.consolidate keeper duplicate overlap = s' at *
  have hnum : ∀ id, s'.numberOf id = s.numberOf id := numberOf_congr hch
  have hmem : ∀ id x, x ∈ s'.releasesOf id ↔ ∃ r ∈ s.releases,
      (r.sourceSeriesId = duplicate.id → ∀ k ∈ s.releasesOf keeper.id, k.1 ≠ r.sourceReleaseId) ∧
      (if r.sourceSeriesId = duplicate.id then keeper.id else r.sourceSeriesId) = id ∧
      r.sourceReleaseId = x.1 ∧ s.numberOf r.chapterId = some x.2 := by
    intro id x
    rw [mem_releasesOf, hrel]
    constructor
    · rintro ⟨r', hr', hid, hrid, hn⟩
      obtain ⟨r, hr, rfl⟩ := List.mem_map.mp hr'
      obtain ⟨hr, hnone⟩ := List.mem_filter.mp hr
      refine ⟨r, hr, (existingRelease_isNone h).mp hnone, ?_⟩
      rw [hnum] at hn
      split at hid <;> split at hrid <;> split at hn <;> simp_all
    · rintro ⟨r, hr, hnone, hid, hrid, hn⟩
      refine ⟨_, List.mem_map.mpr ⟨r, List.mem_filter.mpr
        ⟨hr, (existingRelease_isNone h).mpr hnone⟩, rfl⟩, ?_⟩
      rw [hnum]
      split at hid <;> simp_all
  refine ⟨fun r' hr' => ?_, ?_, fun id hk hd => ?_⟩
  · rw [hrel] at hr'
    obtain ⟨r, hr, rfl⟩ := List.mem_map.mp hr'
    rw [hnum]
    split <;> exact h r (List.mem_filter.mp hr).1
  · ext x
    rw [hmem, Finset.mem_union, newReleases, Finset.mem_filter]
    constructor
    · rintro ⟨r, hr, hnone, hid, hrid, hn⟩
      by_cases hd : r.sourceSeriesId = duplicate.id
      · refine .inr ⟨mem_releasesOf.mpr ⟨r, hr, hd, hrid, hn⟩, ?_⟩
        rw [← hrid]
        exact hnone hd
      · rw [if_neg hd] at hid
        exact .inl (mem_releasesOf.mpr ⟨r, hr, hid, hrid, hn⟩)
    · rintro (hx | ⟨hx, hno⟩)
      · obtain ⟨r, hr, hid, hrid, hn⟩ := mem_releasesOf.mp hx
        have hd : r.sourceSeriesId ≠ duplicate.id := hid ▸ hne
        exact ⟨r, hr, fun h => absurd h hd, by rw [if_neg hd, hid], hrid, hn⟩
      · obtain ⟨r, hr, hid, hrid, hn⟩ := mem_releasesOf.mp hx
        exact ⟨r, hr, fun _ => hrid ▸ hno, if_pos hid, hrid, hn⟩
  · ext x
    rw [hmem, mem_releasesOf]
    constructor
    · rintro ⟨r, hr, -, hid, hrid, hn⟩
      by_cases hrd : r.sourceSeriesId = duplicate.id
      · rw [if_pos hrd] at hid
        exact absurd hid.symm hk
      · rw [if_neg hrd] at hid
        exact ⟨r, hr, hid, hrid, hn⟩
    · rintro ⟨r, hr, hid, hrid, hn⟩
      have hrd : r.sourceSeriesId ≠ duplicate.id := hid ▸ hd
      exact ⟨r, hr, fun h => absurd h hrd, by rw [if_neg hrd, hid], hrid, hn⟩

/-- The identity is still there, its texts aside. -/
def Present (s : Collection) (i : CatalogSourceSeries) : Prop :=
  ∃ x ∈ s.identities, SameIdentity i x

theorem consolidate_retired {overlap : Nat × Nat} (h : s.ListingsOk) (hk : s.Present keeper)
    (hne : keeper.id ≠ duplicate.id) :
    Retired [duplicate.id] s (s.consolidate keeper duplicate overlap) := by
  have hcs := @consolidate_consolidated s keeper duplicate overlap
  obtain ⟨alternates, next, he⟩ := @moveAlternates_eq s keeper duplicate overlap
  have hids : (s.consolidate keeper duplicate overlap).identities =
      (Table.put CatalogSourceSeries.id s.identities (enriched keeper duplicate)).filter
        (·.id != duplicate.id) := by
    unfold consolidate
    rw [he]
    rfl
  have hrel := (consolidate_releases overlap h.releases hne).1
  generalize s.consolidate keeper duplicate overlap = s' at *
  obtain ⟨x, hx, hsame⟩ := hk
  have hrow : SameIdentity x (enriched keeper duplicate) :=
    ⟨hsame.id.symm, hsame.seriesId.symm, hsame.listing.symm⟩
  refine ⟨⟨hcs.identities h.identities, ?_, hrel⟩, hcs.chapters, fun i hi hno => ?_,
    fun i' hi' => ?_⟩
  · exact ⟨hcs.chapters ▸ h.chapters.keyed, hcs.chapters ▸ h.chapters.numbers⟩
  · have hid : i.id ≠ duplicate.id := by simpa using hno
    rw [hids]
    by_cases hix : i.id = x.id
    · obtain rfl := h.identities.eq hi hx hix
      refine ⟨_, List.mem_filter.mpr ⟨Table.mem_put_self hx hrow.id.symm, ?_⟩, hrow⟩
      simpa [enriched] using hne
    · refine ⟨i, List.mem_filter.mpr ⟨Table.mem_put_of_ne hi ?_, by simpa using hid⟩, .refl⟩
      exact fun he => hix (he.trans hrow.id)
  · rw [hids] at hi'
    obtain ⟨hi', hno⟩ := List.mem_filter.mp hi'
    refine ⟨by simpa using hno, ?_⟩
    rcases Table.mem_put.mp hi' with ⟨rfl, -⟩ | ⟨hi', -⟩
    · exact ⟨x, hx, hrow⟩
    · exact ⟨i', hi', .refl⟩

/-- The pairs name different identities. -/
def Apart (p q : CatalogSourceSeries × CatalogSourceSeries) : Prop :=
  (p.1.id ≠ q.1.id ∧ p.1.id ≠ q.2.id) ∧ p.2.id ≠ q.1.id ∧ p.2.id ≠ q.2.id

instance : Std.Symm Apart where
  symm _ _ h := ⟨⟨h.1.1.symm, h.2.1.symm⟩, h.1.2.symm, h.2.2.symm⟩

/-- What the rounds over the providers of both series leave. -/
structure Folded (right : CatalogSourceSeries)
    (pairs : List (CatalogSourceSeries × CatalogSourceSeries)) (s s' : Collection) : Prop where
  retired : Retired (pairs.map fun p => (keeperOf right p.1 p.2).2.id) s s'
  merged : ∀ p ∈ pairs, s'.releasesOf (keeperOf right p.1 p.2).1.id =
    s.releasesOf (keeperOf right p.1 p.2).1.id ∪
      s.newReleases (keeperOf right p.1 p.2).1.id (keeperOf right p.1 p.2).2.id
  others : ∀ id, (∀ p ∈ pairs, id ≠ p.1.id ∧ id ≠ p.2.id) → s'.releasesOf id = s.releasesOf id

theorem keeperOf_cases (right i j : CatalogSourceSeries) :
    keeperOf right i j = (j, i) ∨ keeperOf right i j = (i, j) := by
  unfold keeperOf
  split
  · exact .inl rfl
  · exact .inr rfl

theorem conflicting_comm : s.conflicting t i j = s.conflicting t j i := by
  rw [conflicting_eq, conflicting_eq, Listing.clashes_comm]

theorem conflicting_keeperOf {right : CatalogSourceSeries} :
    s.conflicting t (keeperOf right i j).1 (keeperOf right i j).2 = s.conflicting t i j := by
  rcases keeperOf_cases right i j with h | h <;> rw [h]
  exact conflicting_comm

theorem conflicting_congr (hi : s'.releasesOf i.id = s.releasesOf i.id)
    (hj : s'.releasesOf j.id = s.releasesOf j.id) :
    s'.conflicting t i j = s.conflicting t i j := by
  rw [conflicting_eq, conflicting_eq, listingOf, listingOf, hi, hj, listingOf, listingOf]

/-- One pair of identities. -/
theorem consolidatePair_folded (t : TextLib) (right : CatalogSourceSeries)
    {p : CatalogSourceSeries × CatalogSourceSeries} (h : s.ListingsOk)
    (hp : s.Present p.1 ∧ s.Present p.2 ∧ p.1.id ≠ p.2.id) :
    if s.conflicting t p.1 p.2 then ∃ src, consolidatePair t right s p = .error (.weakOverlap src)
    else ∃ s', consolidatePair t right s p = .ok s' ∧ Folded right [p] s s' := by
  have hne : (keeperOf right p.1 p.2).1.id ≠ (keeperOf right p.1 p.2).2.id := by
    rcases keeperOf_cases right p.1 p.2 with he | he <;> rw [he]
    · exact hp.2.2.symm
    · exact hp.2.2
  have hk : s.Present (keeperOf right p.1 p.2).1 := by
    rcases keeperOf_cases right p.1 p.2 with he | he <;> rw [he]
    · exact hp.2.1
    · exact hp.1
  have hother : ∀ id, id ≠ p.1.id ∧ id ≠ p.2.id →
      id ≠ (keeperOf right p.1 p.2).1.id ∧ id ≠ (keeperOf right p.1 p.2).2.id := by
    intro id hid
    rcases keeperOf_cases right p.1 p.2 with he | he <;> rw [he]
    · exact ⟨hid.2, hid.1⟩
    · exact hid
  unfold consolidatePair
  dsimp only
  rw [conflicting_keeperOf]
  split
  · exact ⟨_, rfl⟩
  · obtain ⟨-, hmerged, hrest⟩ := consolidate_releases
      (s.chapterOverlap (keeperOf right p.1 p.2).1.id (keeperOf right p.1 p.2).2.id)
      h.releases hne
    refine ⟨_, rfl, consolidate_retired h hk hne, fun q hq => ?_, fun id hid => ?_⟩
    · rw [List.mem_singleton.mp hq]
      exact hmerged
    · obtain ⟨h₁, h₂⟩ := hother id (hid p (List.mem_singleton_self _))
      exact hrest id h₁ h₂

theorem keeperOf_ids (right : CatalogSourceSeries) (p : CatalogSourceSeries × CatalogSourceSeries) :
    ((keeperOf right p.1 p.2).1.id = p.1.id ∨ (keeperOf right p.1 p.2).1.id = p.2.id) ∧
      ((keeperOf right p.1 p.2).2.id = p.1.id ∨ (keeperOf right p.1 p.2).2.id = p.2.id) := by
  rcases keeperOf_cases right p.1 p.2 with h | h <;> rw [h]
  · exact ⟨.inr rfl, .inl rfl⟩
  · exact ⟨.inl rfl, .inr rfl⟩

theorem Folded.nil {right : CatalogSourceSeries} (h : s.ListingsOk) : Folded right [] s s :=
  ⟨⟨h, rfl, fun i hi _ => ⟨i, hi, .refl⟩, fun i hi => ⟨List.not_mem_nil, i, hi, .refl⟩⟩,
    fun _ hp => (by cases hp), fun _ _ => rfl⟩

/-- The pairs still to come are as the loop first saw them. -/
theorem Folded.cons {right : CatalogSourceSeries} {p : CatalogSourceSeries × CatalogSourceSeries}
    {pairs : List (CatalogSourceSeries × CatalogSourceSeries)} (h : Folded right [p] s s₁)
    (h' : Folded right pairs s₁ s') (hd : ∀ q ∈ pairs, Apart p q) :
    Folded right (p :: pairs) s s' := by
  have hapart : ∀ q ∈ pairs, ∀ id, id = q.1.id ∨ id = q.2.id → id ≠ p.1.id ∧ id ≠ p.2.id := by
    rintro q hq id (rfl | rfl)
    · exact ⟨(hd q hq).1.1.symm, (hd q hq).2.1.symm⟩
    · exact ⟨(hd q hq).1.2.symm, (hd q hq).2.2.symm⟩
  have hsame : ∀ q ∈ pairs, ∀ id, id = q.1.id ∨ id = q.2.id → s₁.releasesOf id = s.releasesOf id :=
    fun q hq id hid => h.others id fun x hx => List.mem_singleton.mp hx ▸ hapart q hq id hid
  refine ⟨⟨h'.retired.ok, h'.retired.chapters.trans h.retired.chapters, fun i hi hno => ?_,
    fun i' hi' => ?_⟩, fun q hq => ?_, fun id hid => ?_⟩
  · rw [List.map_cons, List.mem_cons, not_or] at hno
    obtain ⟨hp, hrest⟩ := hno
    obtain ⟨i₁, hi₁, he₁⟩ := h.retired.kept i hi (by simpa using hp)
    obtain ⟨i', hi', he'⟩ := h'.retired.kept i₁ hi₁ (he₁.id ▸ hrest)
    exact ⟨i', hi', he₁.trans he'⟩
  · obtain ⟨hno, i₁, hi₁, he'⟩ := h'.retired.origin i' hi'
    obtain ⟨hp, i, hi, he₁⟩ := h.retired.origin i₁ hi₁
    refine ⟨?_, i, hi, he₁.trans he'⟩
    rw [List.map_cons, List.mem_cons, not_or]
    exact ⟨by simpa [he'.id] using hp, hno⟩
  · obtain ⟨hk, hdup⟩ := keeperOf_ids right q
    rcases List.mem_cons.mp hq with rfl | hq
    · rw [← h.merged q (List.mem_singleton_self q)]
      refine h'.others _ fun x hx => ?_
      obtain ⟨⟨h₁, h₂⟩, h₃, h₄⟩ := hd x hx
      rcases hk with hk | hk <;> rw [hk]
      · exact ⟨h₁, h₂⟩
      · exact ⟨h₃, h₄⟩
    · rw [h'.merged q hq, newReleases, newReleases, hsame q hq _ hk, hsame q hq _ hdup]
  · rw [h'.others id fun q hq => hid q (List.mem_cons_of_mem _ hq)]
    exact h.others id fun q hq => hid q (List.mem_singleton.mp hq ▸ List.mem_cons_self)

/-- All pairs. -/
theorem foldlM_consolidatePair (t : TextLib) (right : CatalogSourceSeries)
    {pairs : List (CatalogSourceSeries × CatalogSourceSeries)} (h : s.ListingsOk)
    (hp : ∀ p ∈ pairs, s.Present p.1 ∧ s.Present p.2 ∧ p.1.id ≠ p.2.id)
    (hd : pairs.Pairwise Apart) :
    if ∃ p ∈ pairs, s.conflicting t p.1 p.2 = true then
      ∃ src, pairs.foldlM (consolidatePair t right) s = .error (.weakOverlap src)
    else ∃ s', pairs.foldlM (consolidatePair t right) s = .ok s' ∧ Folded right pairs s s' := by
  induction pairs generalizing s with
  | nil =>
    rw [if_neg (by simp)]
    exact ⟨s, rfl, .nil h⟩
  | cons p pairs ih =>
    obtain ⟨hapart, hd⟩ := List.pairwise_cons.mp hd
    have hone := consolidatePair_folded t right h (hp p List.mem_cons_self)
    by_cases hc : s.conflicting t p.1 p.2 = true
    · rw [if_pos hc] at hone
      obtain ⟨src, he⟩ := hone
      rw [if_pos ⟨p, List.mem_cons_self, hc⟩]
      exact ⟨src, by rw [List.foldlM_cons, he]; rfl⟩
    · rw [if_neg hc] at hone
      obtain ⟨s₁, he, hf⟩ := hone
      have hsame : ∀ q ∈ pairs, s₁.releasesOf q.1.id = s.releasesOf q.1.id ∧
          s₁.releasesOf q.2.id = s.releasesOf q.2.id := by
        intro q hq
        obtain ⟨⟨h₁, h₂⟩, h₃, h₄⟩ := hapart q hq
        refine ⟨hf.others _ fun x hx => ?_, hf.others _ fun x hx => ?_⟩ <;>
          rw [List.mem_singleton.mp hx]
        · exact ⟨h₁.symm, h₃.symm⟩
        · exact ⟨h₂.symm, h₄.symm⟩
      have hkept : ∀ i : CatalogSourceSeries, s.Present i → i.id ≠ p.1.id ∧ i.id ≠ p.2.id →
          s₁.Present i := by
        rintro i ⟨x, hx, hix⟩ hid
        have hno : x.id ∉ [p].map fun p => (keeperOf right p.1 p.2).2.id := by
          rw [List.map_singleton, List.mem_singleton, hix.id]
          rcases (keeperOf_ids right p).2 with hk | hk <;> rw [hk]
          · exact hid.1
          · exact hid.2
        obtain ⟨x', hx', hxx⟩ := hf.retired.kept x hx hno
        exact ⟨x', hx', hix.trans hxx⟩
      have hp' : ∀ q ∈ pairs, s₁.Present q.1 ∧ s₁.Present q.2 ∧ q.1.id ≠ q.2.id := by
        intro q hq
        obtain ⟨⟨h₁, h₂⟩, h₃, h₄⟩ := hapart q hq
        obtain ⟨hl, hr, hne⟩ := hp q (List.mem_cons_of_mem _ hq)
        exact ⟨hkept _ hl ⟨h₁.symm, h₃.symm⟩, hkept _ hr ⟨h₂.symm, h₄.symm⟩, hne⟩
      have hiff : (∃ q ∈ p :: pairs, s.conflicting t q.1 q.2 = true) ↔
          ∃ q ∈ pairs, s₁.conflicting t q.1 q.2 = true := by
        rw [List.exists_mem_cons_iff, or_iff_right hc]
        refine exists_congr fun q => and_congr_right fun hq => ?_
        rw [conflicting_congr (hsame q hq).1 (hsame q hq).2]
      have hrest := ih hf.retired.ok hp' hd
      rw [if_congr hiff rfl rfl, List.foldlM_cons, he]
      split at hrest
      · rename_i hex
        rw [if_pos hex]
        exact hrest
      · rename_i hex
        rw [if_neg hex]
        obtain ⟨s', he', hf'⟩ := hrest
        exact ⟨s', he', hf.cons hf' hapart⟩

/-! ## The providers of both series -/

theorem mem_sourcesOf {src : String} :
    src ∈ s.sourcesOf u ↔ ∃ i ∈ s.identities, i.seriesId = u ∧ i.source = src := by
  simp only [sourcesOf, List.mem_eraseDups, List.mem_map, mem_identitiesOf, and_assoc]

theorem identityWith_some {src : String} (h : s.OnePerSource u) :
    s.identityWith u src = some i ↔ i ∈ s.identities ∧ i.seriesId = u ∧ i.source = src := by
  have hmem : ∀ x, x ∈ (s.identitiesOf u).filter (·.source == src) ↔
      x ∈ s.identities ∧ x.seriesId = u ∧ x.source = src := by
    intro x
    rw [List.mem_filter, mem_identitiesOf, beq_iff_eq, and_assoc]
  unfold identityWith
  constructor
  · intro hi
    exact (hmem i).mp (List.mem_of_getLast? hi)
  · intro hi
    cases hl : ((s.identitiesOf u).filter (·.source == src)).getLast? with
    | none =>
      rw [List.getLast?_eq_none_iff] at hl
      exact absurd ((hmem i).mpr hi) (hl ▸ List.not_mem_nil)
    | some x =>
      obtain ⟨hx, hxu, hxs⟩ := (hmem x).mp (List.mem_of_getLast? hl)
      rw [h.unique x hx i hi.1 hxu hi.2.1 (hxs.trans hi.2.2.symm)]

theorem mem_sharedPairs (ht : s.OnePerSource target) (hs : s.OnePerSource source)
    {p : CatalogSourceSeries × CatalogSourceSeries} :
    p ∈ s.sharedPairs target source ↔ (p.1 ∈ s.identities ∧ p.1.seriesId = target) ∧
      (p.2 ∈ s.identities ∧ p.2.seriesId = source) ∧ p.1.source = p.2.source := by
  simp only [sharedPairs, List.mem_filterMap, sharedSources, List.mem_filter, decide_eq_true_eq]
  constructor
  · rintro ⟨src, -, hp⟩
    split at hp
    · rename_i l r hl hr
      cases hp
      obtain ⟨hl, hlu, hls⟩ := (identityWith_some ht).mp hl
      obtain ⟨hr, hru, hrs⟩ := (identityWith_some hs).mp hr
      exact ⟨⟨hl, hlu⟩, ⟨hr, hru⟩, hls.trans hrs.symm⟩
    · cases hp
  · rintro ⟨⟨hl, hlu⟩, ⟨hr, hru⟩, he⟩
    refine ⟨p.1.source, ⟨mem_sourcesOf.mpr ⟨_, hl, hlu, rfl⟩, mem_sourcesOf.mpr ⟨_, hr, hru, he.symm⟩⟩,
      ?_⟩
    rw [(identityWith_some ht).mpr ⟨hl, hlu, rfl⟩, (identityWith_some hs).mpr ⟨hr, hru, he.symm⟩]

theorem identityWith_mem {src : String} (h : s.identityWith u src = some i) :
    i ∈ s.identities ∧ i.seriesId = u ∧ i.source = src := by
  obtain ⟨hm, hsrc⟩ := List.mem_filter.mp (List.mem_of_getLast? h)
  obtain ⟨hm, hu⟩ := mem_identitiesOf.mp hm
  exact ⟨hm, hu, by simpa using hsrc⟩

theorem sharedPairs_apart (hk : Table.Keyed CatalogSourceSeries.id s.identities) :
    (s.sharedPairs target source).Pairwise Apart := by
  have hpair : ∀ src l r, s.identityWith target src = some l → s.identityWith source src = some r →
      (l ∈ s.identities ∧ l.source = src) ∧ r ∈ s.identities ∧ r.source = src := by
    intro src l r hl hr
    obtain ⟨hl, -, hls⟩ := identityWith_mem hl
    obtain ⟨hr, -, hrs⟩ := identityWith_mem hr
    exact ⟨⟨hl, hls⟩, hr, hrs⟩
  -- identities of different providers are different rows
  have hid : ∀ i j : CatalogSourceSeries, ∀ a b : String, a ≠ b → i ∈ s.identities ∧ i.source = a →
      j ∈ s.identities ∧ j.source = b → i.id ≠ j.id := by
    rintro i j a b hne ⟨hi, rfl⟩ ⟨hj, rfl⟩ he
    exact hne (congrArg CatalogSourceSeries.source (hk.eq hi hj he))
  have hnd : (s.sharedSources target source).Nodup := (Table.nodup_eraseDups _).filter _
  refine List.Pairwise.filterMap _ (fun a b hne p hp q hq => ?_) hnd
  split at hp
  · rename_i l r hl hr
    cases hp
    obtain ⟨hp₁, hp₂⟩ := hpair a l r hl hr
    split at hq
    · rename_i l' r' hl' hr'
      cases hq
      obtain ⟨hq₁, hq₂⟩ := hpair b l' r' hl' hr'
      exact ⟨⟨hid _ _ a b hne hp₁ hq₁, hid _ _ a b hne hp₁ hq₂⟩, hid _ _ a b hne hp₂ hq₁,
        hid _ _ a b hne hp₂ hq₂⟩
    · cases hq
  · cases hp

/-! ## The chapters -/

/-- Chapters change their series and releases their chapter, and keep the number. -/
structure SameListings (s s' : Collection) : Prop where
  identities : s'.identities = s.identities
  chapters : s'.ChaptersOk
  releases : s'.ReleasesOk
  same : ∀ id, s'.releasesOf id = s.releasesOf id

/-- Releases keep their number. -/
theorem releasesOf_map {f : ReleaseRow → ReleaseRow} (hr : s.ReleasesOk)
    (h : s'.releases = s.releases.map f)
    (hf : ∀ r ∈ s.releases, (f r).sourceSeriesId = r.sourceSeriesId ∧
      (f r).sourceReleaseId = r.sourceReleaseId ∧
      s'.numberOf (f r).chapterId = s.numberOf r.chapterId) :
    s'.ReleasesOk ∧ ∀ id, s'.releasesOf id = s.releasesOf id := by
  refine ⟨fun r' hr' => ?_, fun id => ?_⟩
  · rw [h] at hr'
    obtain ⟨r, hm, rfl⟩ := List.mem_map.mp hr'
    rw [(hf r hm).2.2]
    exact hr r hm
  · ext x
    rw [mem_releasesOf, mem_releasesOf, h]
    constructor
    · rintro ⟨r', hr', hid, hrid, hn⟩
      obtain ⟨r, hm, rfl⟩ := List.mem_map.mp hr'
      obtain ⟨h₁, h₂, h₃⟩ := hf r hm
      exact ⟨r, hm, h₁ ▸ hid, h₂ ▸ hrid, h₃ ▸ hn⟩
    · rintro ⟨r, hm, hid, hrid, hn⟩
      obtain ⟨h₁, h₂, h₃⟩ := hf r hm
      exact ⟨f r, List.mem_map_of_mem hm, h₁.trans hid, h₂.trans hrid, h₃.trans hn⟩

theorem mergeChapter_listings {chapter : CatalogChapter} (hne : target ≠ source)
    (hok : s.ChaptersOk) (hr : s.ReleasesOk) (hc : chapter ∈ s.chapters)
    (hser : chapter.seriesId = source) :
    SameListings s (mergeChapter target s chapter) := by
  suffices h : (mergeChapter target s chapter).ReleasesOk ∧
      ∀ id, (mergeChapter target s chapter).releasesOf id = s.releasesOf id from
    ⟨mergeChapter_tables.identities, (@mergeChapter_chapters s target source chapter hne hok).ok,
      h.1, h.2⟩
  unfold mergeChapter
  split
  · refine @releasesOf_map s _ id hr (List.map_id _).symm fun r _ => ⟨rfl, rfl, ?_⟩
    -- the row of the chapter is rewritten, not its number
    let moved : CatalogChapter := { chapter with seriesId := target }
    show (Table.get CatalogChapter.id (Table.put CatalogChapter.id s.chapters moved) r.chapterId).map
      (·.canonicalNumber) = (s.chapter? r.chapterId).map (·.canonicalNumber)
    unfold chapter?
    by_cases he : r.chapterId = chapter.id
    · have hput := @Table.get_put_self _ CatalogChapter.id s.chapters moved chapter hc rfl
      rw [he, hok.keyed.get_eq hc, show chapter.id = moved.id from rfl, hput]
      rfl
    · rw [Table.get_put_of_ne (show r.chapterId ≠ moved.id from he)]
  · rename_i c hfind
    have hp := List.find?_some hfind
    simp only [Bool.and_eq_true, beq_iff_eq] at hp
    have hcm := List.mem_of_find?_eq_some hfind
    have hcc : c.id ≠ chapter.id := by
      intro he
      obtain rfl := hok.keyed.eq hcm hc he
      exact hne (hp.1.symm.trans hser)
    have hnum : ∀ id, id ≠ chapter.id →
        (s.absorbChapter target chapter c).numberOf id = s.numberOf id := by
      intro id hid
      unfold numberOf chapter?
      have hget : Table.get CatalogChapter.id (s.absorbChapter target chapter c).chapters id =
          Table.get CatalogChapter.id s.chapters id := by
        refine Table.Keyed.get_congr hok.keyed.filter fun x hx => ?_
        show x ∈ s.chapters ↔ x ∈ s.chapters.filter (·.id != chapter.id)
        rw [List.mem_filter, bne_iff_ne, hx]
        exact ⟨fun h => ⟨h, hid⟩, fun h => h.1⟩
      rw [hget]
    refine @releasesOf_map s (s.absorbChapter target chapter c) _ hr rfl fun r _ => ⟨rfl, rfl, ?_⟩
    dsimp only
    split
    · rename_i he
      rw [hnum _ hcc, he, numberOf, chapter?, hok.keyed.get_eq hcm, numberOf, chapter?,
        hok.keyed.get_eq hc, Option.map_some, Option.map_some, hp.2]
    · rename_i he
      exact hnum _ he

/-- All chapters of the source series. -/
theorem foldl_mergeChapter_listings (hne : target ≠ source) {l : List CatalogChapter}
    (hok : s.ChaptersOk) (hr : s.ReleasesOk) (hl : ∀ c ∈ l, c ∈ s.chapters ∧ c.seriesId = source)
    (hnd : (l.map (·.id)).Nodup) : SameListings s (l.foldl (mergeChapter target) s) := by
  induction l generalizing s with
  | nil => exact ⟨rfl, hok, hr, fun _ => rfl⟩
  | cons d l ih =>
    obtain ⟨hd, hnd⟩ := List.nodup_cons.mp hnd
    obtain ⟨hdm, hds⟩ := hl d List.mem_cons_self
    have hone := mergeChapter_listings hne hok hr hdm hds
    have hchapters := @mergeChapter_chapters s target source d hne hok
    have hl' : ∀ c ∈ l, c ∈ (mergeChapter target s d).chapters ∧ c.seriesId = source := by
      intro c hc
      obtain ⟨hcm, hcs⟩ := hl c (List.mem_cons_of_mem _ hc)
      refine ⟨hchapters.others c hcm fun he => hd ?_, hcs⟩
      exact List.mem_map.mpr ⟨c, hc, he⟩
    obtain ⟨h₁, h₂, h₃, h₄⟩ := ih hone.chapters hone.releases hl' hnd
    exact ⟨h₁.trans hone.identities, h₂, h₃, fun id => (h₄ id).trans (hone.same id)⟩

/-! ## One round -/

theorem OnePerSource.exists_identity (h : s.OnePerSource u) :
    ∃ i is, s.identitiesOf u = i :: is := by
  obtain ⟨i, hi, hu⟩ := h.nonempty
  exact List.exists_cons_of_ne_nil (List.ne_nil_of_mem (mem_identitiesOf.mpr ⟨hi, hu⟩))

theorem shared_listingOf : Listing.Shared (s.listings u) (s.listingOf i) ↔
    ∃ j ∈ s.identities, j.seriesId = u ∧ j.source = i.source := by
  unfold Listing.Shared
  constructor
  · rintro ⟨l, hl, he⟩
    obtain ⟨j, hj, hu, rfl⟩ := mem_listings.mp hl
    exact ⟨j, hj, hu, he⟩
  · rintro ⟨j, hj, hu, he⟩
    exact ⟨_, mem_listings.mpr ⟨j, hj, hu, rfl⟩, he⟩

/-- The identities a round starts from. -/
structure Chosen (target source : Nat) (s : Collection) (left right : CatalogSourceSeries) :
    Prop where
  ofTarget : left ∈ s.identities ∧ left.seriesId = target
  ofSource : right ∈ s.identities ∧ right.seriesId = source
  leads : ∀ p ∈ s.sharedPairs target source, right.source = p.1.source ↔
    Listing.Leads (s.listings target) (s.listings source) (s.listingOf p.1)

theorem mergeInto_chosen (hk : Table.Keyed CatalogSourceSeries.id s.identities)
    (ht : s.OnePerSource target) (hs : s.OnePerSource source) :
    ∃ left right, Chosen target source s left right ∧
      s.mergeInto t target source = s.mergeMatchGroups t left.id right.id := by
  have hmem : ∀ x, x ∈ (s.identitiesOf target).filter (fun i =>
      (s.identitiesOf source).any (·.source == i.source)) ↔
      (x ∈ s.identities ∧ x.seriesId = target) ∧
        Listing.Shared (s.listings source) (s.listingOf x) := by
    intro x
    rw [List.mem_filter, mem_identitiesOf, List.any_eq_true, shared_listingOf]
    simp only [mem_identitiesOf, beq_iff_eq, and_assoc]
  have hsorted : (s.identitiesOf target).Pairwise (·.id ≤ ·.id) :=
    List.pairwise_insertionSort _ _
  have hright : ∀ src : String, ∀ x ∈ (s.identitiesOf source).filter (·.source == src),
      (x ∈ s.identities ∧ x.seriesId = source) ∧ x.source = src := by
    intro src x hx
    rw [List.mem_filter, mem_identitiesOf, beq_iff_eq] at hx
    exact hx
  unfold mergeInto
  dsimp only
  cases hshared : (s.identitiesOf target).filter fun i =>
      (s.identitiesOf source).any (·.source == i.source) with
  | nil =>
    obtain ⟨left, ls, hl⟩ := ht.exists_identity
    obtain ⟨r, rs, hr⟩ := hs.exists_identity
    have hleft : left ∈ s.identities ∧ left.seriesId = target :=
      mem_identitiesOf.mp (hl ▸ List.mem_cons_self)
    have hno : ∀ p, p ∉ s.sharedPairs target source := by
      intro p hp
      obtain ⟨hp₁, ⟨hp₂, hp₂u⟩, he⟩ := (mem_sharedPairs ht hs).mp hp
      have := (hmem p.1).mpr ⟨hp₁, shared_listingOf.mpr ⟨p.2, hp₂, hp₂u, he.symm⟩⟩
      rw [hshared] at this
      cases this
    rw [hl, List.nil_append, List.head?_cons]
    dsimp only
    cases hf : (s.identitiesOf source).filter (·.source == left.source) with
    | nil =>
      rw [hr, List.nil_append, List.head?_cons]
      exact ⟨left, r, ⟨hleft, mem_identitiesOf.mp (hr ▸ List.mem_cons_self),
        fun p hp => absurd hp (hno p)⟩, rfl⟩
    | cons x xs =>
      rw [List.cons_append, List.head?_cons]
      exact ⟨left, x, ⟨hleft, (hright _ x (hf ▸ List.mem_cons_self)).1,
        fun p hp => absurd hp (hno p)⟩, rfl⟩
  | cons left ls =>
    rw [List.cons_append, List.head?_cons]
    dsimp only
    obtain ⟨hleft, hsh⟩ := (hmem left).mp (hshared ▸ List.mem_cons_self)
    obtain ⟨j, hj, hju, hjs⟩ := shared_listingOf.mp hsh
    -- the first shared identity has the least id of those
    have hfirst : ∀ x, x ∈ s.identities ∧ x.seriesId = target →
        Listing.Shared (s.listings source) (s.listingOf x) → left.id ≤ x.id := by
      intro x hx hxs
      have hxm := (hmem x).mpr ⟨hx, hxs⟩
      have hp := List.Pairwise.filter (fun i => (s.identitiesOf source).any (·.source == i.source))
        hsorted
      rw [hshared] at hxm hp
      rcases List.mem_cons.mp hxm with rfl | hxm
      · exact Nat.le_refl _
      · exact (List.pairwise_cons.mp hp).1 x hxm
    have hlead : ∀ p ∈ s.sharedPairs target source, left.source = p.1.source ↔
        Listing.Leads (s.listings target) (s.listings source) (s.listingOf p.1) := by
      intro p hp
      obtain ⟨⟨hp₁, hp₁u⟩, ⟨hp₂, hp₂u⟩, he⟩ := (mem_sharedPairs ht hs).mp hp
      constructor
      · intro hsrc k hk hks
        obtain rfl := ht.unique left hleft.1 p.1 hp₁ hleft.2 hp₁u hsrc
        obtain ⟨x, hx, hxu, rfl⟩ := mem_listings.mp hk
        exact hfirst x ⟨hx, hxu⟩ hks
      · intro hlead
        have h₁ := hlead _ (mem_listings.mpr ⟨left, hleft.1, hleft.2, rfl⟩) hsh
        have h₂ := hfirst p.1 ⟨hp₁, hp₁u⟩ (shared_listingOf.mpr ⟨p.2, hp₂, hp₂u, he.symm⟩)
        rw [hk.eq hleft.1 hp₁ (Nat.le_antisymm h₂ h₁)]
    cases hf : (s.identitiesOf source).filter (·.source == left.source) with
    | nil =>
      have : j ∈ (s.identitiesOf source).filter (·.source == left.source) := by
        rw [List.mem_filter, mem_identitiesOf, beq_iff_eq]
        exact ⟨⟨hj, hju⟩, hjs⟩
      rw [hf] at this
      cases this
    | cons x xs =>
      rw [List.cons_append, List.head?_cons]
      obtain ⟨hx, hxs⟩ := hright _ x (hf ▸ List.mem_cons_self)
      exact ⟨left, x, ⟨hleft, hx, fun p hp => by rw [hxs, hlead p hp]⟩, rfl⟩

section
variable {right : CatalogSourceSeries} {pairs : List (CatalogSourceSeries × CatalogSourceSeries)}
  {p : CatalogSourceSeries × CatalogSourceSeries}

/-- An identity of no pair stays as it is. -/
theorem Folded.lonely (h : Folded right pairs s s₁) (hi : i ∈ s.identities)
    (hno : ∀ p ∈ pairs, i.id ≠ p.1.id ∧ i.id ≠ p.2.id) :
    ∃ i' ∈ s₁.identities, SameIdentity i i' ∧ s₁.listingOf i' = s.listingOf i := by
  obtain ⟨i', hi', he⟩ := h.retired.kept i hi fun hgone => by
    obtain ⟨p, hp, hid⟩ := List.mem_map.mp hgone
    rcases (keeperOf_ids right p).2 with hk | hk
    · exact (hno p hp).1 (hid.symm.trans hk)
    · exact (hno p hp).2 (hid.symm.trans hk)
  refine ⟨i', hi', he, ?_⟩
  rw [listingOf, listingOf, he.id, he.listing, h.others i.id hno]

/-- Of a pair, the keeper stays and absorbs the other. -/
theorem Folded.keeps (h : Folded right pairs s s₁) (hd : pairs.Pairwise Apart) (hp : p ∈ pairs)
    (hm : p.1 ∈ s.identities ∧ p.2 ∈ s.identities ∧ p.1.id ≠ p.2.id) :
    ∃ i' ∈ s₁.identities, SameIdentity (keeperOf right p.1 p.2).1 i' ∧ s₁.listingOf i' =
      (s.listingOf (keeperOf right p.1 p.2).1).absorb (s.listingOf (keeperOf right p.1 p.2).2) := by
  have hkm : (keeperOf right p.1 p.2).1 ∈ s.identities ∧
      (keeperOf right p.1 p.2).1.id ≠ (keeperOf right p.1 p.2).2.id := by
    rcases keeperOf_cases right p.1 p.2 with he | he <;> rw [he]
    · exact ⟨hm.2.1, hm.2.2.symm⟩
    · exact ⟨hm.1, hm.2.2⟩
  obtain ⟨i', hi', he⟩ := h.retired.kept _ hkm.1 fun hgone => by
    obtain ⟨q, hq, hid⟩ := List.mem_map.mp hgone
    by_cases hqp : p = q
    · exact hkm.2 (hqp ▸ hid.symm)
    · obtain ⟨⟨h₁, h₂⟩, h₃, h₄⟩ := hd.forall hp hq hqp
      rcases (keeperOf_ids right p).1 with hk | hk <;> rcases (keeperOf_ids right q).2 with hk' | hk'
      · exact h₁ (hk.symm.trans (hid.symm.trans hk'))
      · exact h₂ (hk.symm.trans (hid.symm.trans hk'))
      · exact h₃ (hk.symm.trans (hid.symm.trans hk'))
      · exact h₄ (hk.symm.trans (hid.symm.trans hk'))
  refine ⟨i', hi', he, ?_⟩
  rw [listingOf, he.id, he.listing, h.merged p hp]
  rfl

/-- The listings that are left are those of both series, joined. -/
theorem Folded.joined {left : CatalogSourceSeries} (h : Folded right (s.sharedPairs target source) s s₁)
    (hs : s.ListingsOk) (hne : target ≠ source) (hot : s.OnePerSource target)
    (hos : s.OnePerSource source) (hc : Chosen target source s left right) {x : Listing} :
    x ∈ Listing.joined (s.listings target) (s.listings source) ↔
      ∃ i' ∈ s₁.identities, (i'.seriesId = target ∨ i'.seriesId = source) ∧ s₁.listingOf i' = x := by
  have hd : (s.sharedPairs target source).Pairwise Apart := sharedPairs_apart hs.identities
  have hpair := @mem_sharedPairs s target source hot hos
  have hids : ∀ p ∈ s.sharedPairs target source,
      p.1 ∈ s.identities ∧ p.2 ∈ s.identities ∧ p.1.id ≠ p.2.id := by
    intro p hp
    obtain ⟨⟨h₁, hu₁⟩, ⟨h₂, hu₂⟩, -⟩ := hpair.mp hp
    refine ⟨h₁, h₂, fun he => hne ?_⟩
    rw [← hu₁, hs.identities.eq h₁ h₂ he, hu₂]
  -- an identity whose provider the other series lacks is in no pair
  have halone : ∀ i ∈ s.identities,
      (i.seriesId = target ∧ ¬ Listing.Shared (s.listings source) (s.listingOf i) ∨
        i.seriesId = source ∧ ¬ Listing.Shared (s.listings target) (s.listingOf i)) →
      ∀ p ∈ s.sharedPairs target source, i.id ≠ p.1.id ∧ i.id ≠ p.2.id := by
    intro i hi hu p hp
    obtain ⟨⟨h₁, hu₁⟩, ⟨h₂, hu₂⟩, he⟩ := hpair.mp hp
    refine ⟨fun hid => ?_, fun hid => ?_⟩
    · obtain rfl := hs.identities.eq hi h₁ hid
      rcases hu with ⟨-, hno⟩ | ⟨hu, -⟩
      · exact hno (shared_listingOf.mpr ⟨p.2, h₂, hu₂, he.symm⟩)
      · exact hne (hu₁.symm.trans hu)
    · obtain rfl := hs.identities.eq hi h₂ hid
      rcases hu with ⟨hu, -⟩ | ⟨-, hno⟩
      · exact hne (hu.symm.trans hu₂)
      · exact hno (shared_listingOf.mpr ⟨p.1, h₁, hu₁, he⟩)
  have hkeeper : ∀ p ∈ s.sharedPairs target source, keeperOf right p.1 p.2 =
      if Listing.Leads (s.listings target) (s.listings source) (s.listingOf p.1) then (p.2, p.1)
      else (p.1, p.2) := by
    intro p hp
    unfold keeperOf
    exact if_congr (hc.leads p hp) rfl rfl
  rw [Listing.mem_joined]
  constructor
  · rintro (⟨hx, hno⟩ | ⟨hx, hno⟩ | ⟨l, hl, r, hr, he, rfl⟩)
    · obtain ⟨i, hi, hu, rfl⟩ := mem_listings.mp hx
      obtain ⟨i', hi', hsame, hl⟩ := h.lonely hi (halone i hi (.inl ⟨hu, hno⟩))
      exact ⟨i', hi', .inl (hsame.seriesId.trans hu), hl⟩
    · obtain ⟨i, hi, hu, rfl⟩ := mem_listings.mp hx
      obtain ⟨i', hi', hsame, hl⟩ := h.lonely hi (halone i hi (.inr ⟨hu, hno⟩))
      exact ⟨i', hi', .inr (hsame.seriesId.trans hu), hl⟩
    · obtain ⟨i, hi, hiu, rfl⟩ := mem_listings.mp hl
      obtain ⟨j, hj, hju, rfl⟩ := mem_listings.mp hr
      have hp : (i, j) ∈ s.sharedPairs target source := hpair.mpr ⟨⟨hi, hiu⟩, ⟨hj, hju⟩, he⟩
      obtain ⟨i', hi', hsame, hl⟩ := h.keeps hd hp (hids _ hp)
      rw [hkeeper _ hp] at hsame hl
      refine ⟨i', hi', ?_, ?_⟩
      · split at hsame
        · exact .inr (hsame.seriesId.trans hju)
        · exact .inl (hsame.seriesId.trans hiu)
      · rw [hl]
        split <;> rfl
  · rintro ⟨i', hi', hu', rfl⟩
    obtain ⟨hgone, i, hi, hsame⟩ := h.retired.origin i' hi'
    have hu : i.seriesId = target ∨ i.seriesId = source := by
      rwa [hsame.seriesId] at hu'
    -- the row is the only one left of its id
    have honly : ∀ x ∈ s₁.identities, SameIdentity i x → x = i' := fun x hx hix =>
      h.retired.ok.identities.eq hx hi' (hix.id.trans hsame.id.symm)
    by_cases hin : ∃ p ∈ s.sharedPairs target source, i = p.1 ∨ i = p.2
    · obtain ⟨p, hp, hip⟩ := hin
      obtain ⟨⟨h₁, hu₁⟩, ⟨h₂, hu₂⟩, he⟩ := hpair.mp hp
      obtain ⟨x, hx, hkx, hlx⟩ := h.keeps hd hp (hids p hp)
      have hki : (keeperOf right p.1 p.2).1 = i := by
        have hdup : i ≠ (keeperOf right p.1 p.2).2 := by
          intro hid
          exact hgone (List.mem_map.mpr ⟨p, hp, by rw [← hid, hsame.id]⟩)
        rcases keeperOf_cases right p.1 p.2 with hk | hk <;> rw [hk] at hdup ⊢
        · exact (hip.resolve_left hdup).symm
        · exact (hip.resolve_right hdup).symm
      obtain rfl := honly x hx (hki ▸ hkx)
      refine .inr (.inr ⟨_, mem_listings.mpr ⟨p.1, h₁, hu₁, rfl⟩, _,
        mem_listings.mpr ⟨p.2, h₂, hu₂, rfl⟩, he, ?_⟩)
      rw [hlx, hkeeper p hp]
      split <;> rfl
    · have hnot : ∀ j ∈ s.identities, j.source = i.source →
          (i.seriesId = target → j.seriesId ≠ source) ∧
            (i.seriesId = source → j.seriesId ≠ target) := by
        intro j hj hjs
        refine ⟨fun hiu hju => hin ⟨(i, j), ?_, .inl rfl⟩, fun hiu hju => hin ⟨(j, i), ?_, .inr rfl⟩⟩
        · exact hpair.mpr ⟨⟨hi, hiu⟩, ⟨hj, hju⟩, hjs.symm⟩
        · exact hpair.mpr ⟨⟨hj, hju⟩, ⟨hi, hiu⟩, hjs⟩
      rcases hu with hu | hu
      · have hno : ¬ Listing.Shared (s.listings source) (s.listingOf i) := by
          intro hsh
          obtain ⟨j, hj, hju, hjs⟩ := shared_listingOf.mp hsh
          exact (hnot j hj hjs).1 hu hju
        obtain ⟨x, hx, hix, hlx⟩ := h.lonely hi (halone i hi (.inl ⟨hu, hno⟩))
        obtain rfl := honly x hx hix
        rw [hlx]
        exact .inl ⟨mem_listings.mpr ⟨i, hi, hu, rfl⟩, hno⟩
      · have hno : ¬ Listing.Shared (s.listings target) (s.listingOf i) := by
          intro hsh
          obtain ⟨j, hj, hju, hjs⟩ := shared_listingOf.mp hsh
          exact (hnot j hj hjs).2 hu hju
        obtain ⟨x, hx, hix, hlx⟩ := h.lonely hi (halone i hi (.inr ⟨hu, hno⟩))
        obtain rfl := honly x hx hix
        rw [hlx]
        exact .inr (.inl ⟨mem_listings.mpr ⟨i, hi, hu, rfl⟩, hno⟩)

end

theorem compatible_iff (ht : s.OnePerSource target) (hs : s.OnePerSource source) :
    Listing.Compatible t (s.listings target) (s.listings source) ↔
      ¬ ∃ p ∈ s.sharedPairs target source, s.conflicting t p.1 p.2 = true := by
  constructor
  · rintro h ⟨p, hp, hc⟩
    obtain ⟨⟨h₁, hu₁⟩, ⟨h₂, hu₂⟩, he⟩ := (mem_sharedPairs ht hs).mp hp
    have hno := h _ (mem_listings.mpr ⟨_, h₁, hu₁, rfl⟩) _ (mem_listings.mpr ⟨_, h₂, hu₂, rfl⟩) he
    rw [conflicting_eq, hno] at hc
    cases hc
  · intro h l hl r hr he
    obtain ⟨i, hi, hiu, rfl⟩ := mem_listings.mp hl
    obtain ⟨j, hj, hju, rfl⟩ := mem_listings.mp hr
    rw [← conflicting_eq]
    by_contra hc
    exact h ⟨(i, j), (mem_sharedPairs ht hs).mpr ⟨⟨hi, hiu⟩, ⟨hj, hju⟩, he⟩, by simpa using hc⟩

/-- No provider is left in both series. -/
theorem Folded.sharedSources {right : CatalogSourceSeries}
    (h : Folded right (s.sharedPairs target source) s s₁) (ht : s.OnePerSource target)
    (hs : s.OnePerSource source) : s₁.sharedSources target source = [] := by
  rw [List.eq_nil_iff_forall_not_mem]
  intro src hm
  obtain ⟨hm, hm'⟩ := List.mem_filter.mp hm
  obtain ⟨i', hi', hiu, rfl⟩ := mem_sourcesOf.mp hm
  obtain ⟨j', hj', hju, hjs⟩ := mem_sourcesOf.mp (by simpa using hm')
  obtain ⟨hig, i, hi, hei⟩ := h.retired.origin i' hi'
  obtain ⟨hjg, j, hj, hej⟩ := h.retired.origin j' hj'
  have hsrc : i.source = j.source := by
    have hi := congrArg ProviderIdentity.source hei.listing
    have hj := congrArg ProviderIdentity.source hej.listing
    exact hi.symm.trans (hjs.symm.trans hj)
  have hp : (i, j) ∈ s.sharedPairs target source := (mem_sharedPairs ht hs).mpr
    ⟨⟨hi, hei.seriesId.symm.trans hiu⟩, ⟨hj, hej.seriesId.symm.trans hju⟩, hsrc⟩
  have hgone := List.mem_map_of_mem (f := fun p => (keeperOf right p.1 p.2).2.id) hp
  rcases (keeperOf_ids right (i, j)).2 with hk | hk
  · exact hig (by rwa [hei.id, ← hk])
  · exact hjg (by rwa [hej.id, ← hk])

/-- The listings a round leaves. -/
structure JoinedTo (target source : Nat) (s s' : Collection) : Prop where
  ok : s'.ListingsOk
  one : s'.OnePerSource target
  joined : s'.listings target = Listing.joined (s.listings target) (s.listings source)
  others : ∀ u, u ≠ target → u ≠ source →
    s'.listings u = s.listings u ∧ (s.OnePerSource u → s'.OnePerSource u)

/-- The identities of the source series go over. -/
theorem mem_moveSeries {i' : CatalogSourceSeries} :
    i' ∈ (s.moveSeries target source).identities ↔ ∃ i ∈ s.identities,
      { i with seriesId := if i.seriesId = source then target else i.seriesId } = i' :=
  List.mem_map

theorem Folded.unique {right : CatalogSourceSeries}
    {pairs : List (CatalogSourceSeries × CatalogSourceSeries)} (h : Folded right pairs s s₁)
    (hu : s.OnePerSource u) {a b : CatalogSourceSeries} (ha : a ∈ s₁.identities)
    (hb : b ∈ s₁.identities) (hau : a.seriesId = u) (hbu : b.seriesId = u)
    (he : a.source = b.source) : a = b := by
  obtain ⟨-, i, hi, hia⟩ := h.retired.origin a ha
  obtain ⟨-, j, hj, hjb⟩ := h.retired.origin b hb
  have hsrc : i.source = j.source := by
    have hi := congrArg ProviderIdentity.source hia.listing
    have hj := congrArg ProviderIdentity.source hjb.listing
    exact hi.symm.trans (he.trans hj)
  obtain rfl := hu.unique i hi j hj (hia.seriesId.symm.trans hau) (hjb.seriesId.symm.trans hbu) hsrc
  exact h.retired.ok.identities.eq ha hb (hia.id.trans hjb.id.symm)

/-- The identities of the other series stay as they are. -/
theorem Folded.elsewhere {right : CatalogSourceSeries}
    (h : Folded right (s.sharedPairs target source) s s₁) (hok : s.ListingsOk)
    (ht : s.OnePerSource target) (hs : s.OnePerSource source) (hi : i ∈ s.identities)
    (hit : i.seriesId ≠ target) (his : i.seriesId ≠ source) :
    ∃ i' ∈ s₁.identities, SameIdentity i i' ∧ s₁.listingOf i' = s.listingOf i := by
  refine h.lonely hi fun p hp => ?_
  obtain ⟨⟨h₁, hu₁⟩, ⟨h₂, hu₂⟩, -⟩ := (mem_sharedPairs ht hs).mp hp
  refine ⟨fun he => hit ?_, fun he => his ?_⟩
  · rw [hok.identities.eq hi h₁ he, hu₁]
  · rw [hok.identities.eq hi h₂ he, hu₂]

theorem Folded.moved {left right : CatalogSourceSeries} {s₂ : Collection}
    (h : Folded right (s.sharedPairs target source) s s₁) (hok : s.ListingsOk)
    (hne : target ≠ source) (ht : s.OnePerSource target) (hs : s.OnePerSource source)
    (hc : Chosen target source s left right) (h₂ : SameListings s₁ s₂) :
    JoinedTo target source s (s₂.moveSeries target source) := by
  have hids := @mem_moveSeries s₂ target source
  have hrel : ∀ id, (s₂.moveSeries target source).releasesOf id = s₁.releasesOf id := h₂.same
  have hlist : ∀ i n, (s₂.moveSeries target source).listingOf { i with seriesId := n } =
      s₁.listingOf i := by
    intro i n
    rw [listingOf, hrel]
    rfl
  have htarget : ∀ i' ∈ (s₂.moveSeries target source).identities, i'.seriesId = target →
      ∃ i ∈ s₁.identities, (i.seriesId = target ∨ i.seriesId = source) ∧
        { i with seriesId := target } = i' := by
    intro i' hi' hu
    obtain ⟨i, hi, rfl⟩ := hids.mp hi'
    refine ⟨i, h₂.identities ▸ hi, ?_,
      congrArg (fun n => { i with seriesId := n }) hu.symm⟩
    by_cases he : i.seriesId = source
    · exact .inr he
    · exact .inl (by simpa [he] using hu)
  have hother : ∀ u, u ≠ target → u ≠ source → ∀ i',
      (i' ∈ (s₂.moveSeries target source).identities ∧ i'.seriesId = u ↔
        i' ∈ s₁.identities ∧ i'.seriesId = u) := by
    intro u hut hus i'
    rw [hids, h₂.identities]
    constructor
    · rintro ⟨⟨i, hi, rfl⟩, hu⟩
      have he : i.seriesId ≠ source := by
        intro he
        rw [if_pos he] at hu
        exact hut hu.symm
      rw [if_neg he] at hu ⊢
      exact ⟨hi, hu⟩
    · rintro ⟨hi, hu⟩
      have he : i'.seriesId ≠ source := hu ▸ hus
      exact ⟨⟨i', hi, by rw [if_neg he]⟩, hu⟩
  have hjoined : (s₂.moveSeries target source).listings target =
      Listing.joined (s.listings target) (s.listings source) := by
    ext x
    rw [mem_listings, h.joined hok hne ht hs hc]
    constructor
    · rintro ⟨i', hi', hu, rfl⟩
      obtain ⟨i, hi, hiu, rfl⟩ := htarget i' hi' hu
      exact ⟨i, hi, hiu, (hlist i target).symm⟩
    · rintro ⟨i, hi, hiu, rfl⟩
      refine ⟨_, hids.mpr ⟨i, h₂.identities ▸ hi, rfl⟩, ?_, hlist i _⟩
      dsimp only
      split
      · rfl
      · rename_i he
        exact hiu.resolve_right he
  refine ⟨⟨?_, ⟨h₂.chapters.keyed, h₂.chapters.numbers⟩, h₂.releases⟩, ⟨?_, ?_⟩, hjoined,
    fun u hut hus => ⟨?_, fun hu => ⟨?_, ?_⟩⟩⟩
  · have hk : Table.Keyed CatalogSourceSeries.id s₂.identities :=
      h₂.identities ▸ h.retired.ok.identities
    exact hk.map fun x _ y _ he => he
  · -- the two sides have no provider in common any more
    have hno := h.sharedSources ht hs
    have hcross : ∀ a ∈ s₁.identities, ∀ b ∈ s₁.identities, a.seriesId = target →
        b.seriesId = source → a.source ≠ b.source := by
      intro a ha b hb hau hbu he
      have : a.source ∈ s₁.sharedSources target source := by
        refine List.mem_filter.mpr ⟨mem_sourcesOf.mpr ⟨a, ha, hau, rfl⟩, ?_⟩
        simpa using mem_sourcesOf.mpr ⟨b, hb, hbu, he.symm⟩
      rw [hno] at this
      cases this
    intro i' hi' j' hj' hiu hju he
    obtain ⟨a, ha, hau, rfl⟩ := htarget i' hi' hiu
    obtain ⟨b, hb, hbu, rfl⟩ := htarget j' hj' hju
    have hab : a = b := by
      rcases hau with hau | hau <;> rcases hbu with hbu | hbu
      · exact h.unique ht ha hb hau hbu he
      · exact absurd he (hcross a ha b hb hau hbu)
      · exact absurd he.symm (hcross b hb a ha hbu hau)
      · exact h.unique hs ha hb hau hbu he
    rw [hab]
  · obtain ⟨i, hi, hiu⟩ := ht.nonempty
    obtain ⟨x, hx⟩ := Listing.joined_nonempty (h := s.listings source)
      ⟨_, mem_listings.mpr ⟨i, hi, hiu, rfl⟩⟩
    rw [← hjoined] at hx
    obtain ⟨i', hi', hu, -⟩ := mem_listings.mp hx
    exact ⟨i', hi', hu⟩
  · ext x
    rw [mem_listings, mem_listings]
    constructor
    · rintro ⟨i', hi', hu, rfl⟩
      obtain ⟨hi', hu⟩ := (hother u hut hus i').mp ⟨hi', hu⟩
      obtain ⟨-, i, hi, hsame⟩ := h.retired.origin i' hi'
      have hiu : i.seriesId = u := hsame.seriesId.symm.trans hu
      obtain ⟨x, hx, hix, hlx⟩ := h.elsewhere hok ht hs hi (hiu ▸ hut) (hiu ▸ hus)
      obtain rfl := h.retired.ok.identities.eq hx hi' (hix.id.trans hsame.id.symm)
      exact ⟨i, hi, hiu, hlx.symm.trans (hlist x _).symm⟩
    · rintro ⟨i, hi, hiu, rfl⟩
      obtain ⟨x, hx, hix, hlx⟩ := h.elsewhere hok ht hs hi (hiu ▸ hut) (hiu ▸ hus)
      obtain ⟨hx', hxu⟩ := (hother u hut hus x).mpr ⟨hx, hix.seriesId.trans hiu⟩
      exact ⟨x, hx', hxu, (hlist x _).trans hlx⟩
  · intro a ha b hb hau hbu he
    exact h.unique hu ((hother u hut hus a).mp ⟨ha, hau⟩).1 ((hother u hut hus b).mp ⟨hb, hbu⟩).1
      hau hbu he
  · obtain ⟨i, hi, hiu⟩ := hu.nonempty
    obtain ⟨x, hx, hix, -⟩ := h.elsewhere hok ht hs hi (hiu ▸ hut) (hiu ▸ hus)
    exact ⟨x, (hother u hut hus x).mpr ⟨hx, hix.seriesId.trans hiu⟩⟩

/-- A round of the merge is a round on the listings. -/
theorem mergeInto_listings (hok : s.ListingsOk) (hne : target ≠ source) (ht : s.OnePerSource target)
    (hs : s.OnePerSource source) :
    if Listing.Compatible t (s.listings target) (s.listings source) then
      ∃ s', s.mergeInto t target source = .ok s' ∧ JoinedTo target source s s'
    else ∃ src, s.mergeInto t target source = .error (.weakOverlap src) := by
  obtain ⟨left, right, hc, he⟩ := @mergeInto_chosen t s target source hok.identities ht hs
  obtain ⟨⟨hl, hlu⟩, hr, hru⟩ := And.intro hc.ofTarget hc.ofSource
  have hpairs : ∀ p ∈ s.sharedPairs target source,
      s.Present p.1 ∧ s.Present p.2 ∧ p.1.id ≠ p.2.id := by
    intro p hp
    obtain ⟨⟨h₁, hu₁⟩, ⟨h₂, hu₂⟩, -⟩ := (mem_sharedPairs ht hs).mp hp
    refine ⟨⟨_, h₁, .refl⟩, ⟨_, h₂, .refl⟩, fun he => hne ?_⟩
    rw [← hu₁, hok.identities.eq h₁ h₂ he, hu₂]
  have hfold := foldlM_consolidatePair t right hok hpairs
    (sharedPairs_apart hok.identities)
  rw [he, if_congr (compatible_iff ht hs) rfl rfl, ite_not]
  unfold mergeMatchGroups identity?
  rw [hok.identities.get_eq hl, hok.identities.get_eq hr]
  dsimp only
  have hseries : left.seriesId ≠ right.seriesId := by
    rw [hlu, hru]
    exact hne
  rw [if_neg hseries, consolidateOverlapping, hlu, hru]
  split at hfold
  · rename_i hex
    rw [if_pos hex]
    obtain ⟨src, he⟩ := hfold
    rw [he]
    exact ⟨src, rfl⟩
  · rename_i hex
    rw [if_neg hex]
    obtain ⟨s₁, he, hf⟩ := hfold
    rw [he]
    dsimp only
    rw [if_neg (show ¬ s₁.sharedSources target source ≠ [] from
      not_not.mpr (hf.sharedSources ht hs))]
    refine ⟨_, rfl, hf.moved hok hne ht hs hc ?_⟩
    refine foldl_mergeChapter_listings hne hf.retired.ok.chapters hf.retired.ok.releases
      (fun c hc => ?_) ?_
    · rw [List.mem_insertionSort] at hc
      simpa using hc
    · refine ((List.perm_insertionSort _ _).map _).nodup_iff.mpr ?_
      exact hf.retired.ok.chapters.keyed.filter

/-- All rounds. -/
theorem foldlM_mergeInto_listings {l : List Nat} (hok : s.ListingsOk) (hnd : (target :: l).Nodup)
    (ht : s.OnePerSource target) (hl : ∀ u ∈ l, s.OnePerSource u) :
    if Listing.FoldsUp t (s.listings target) (l.map s.listings) then
      ∃ s', l.foldlM (mergeInto t target) s = .ok s'
    else ∃ src, l.foldlM (mergeInto t target) s = .error (.weakOverlap src) := by
  induction l generalizing s with
  | nil => exact ⟨s, rfl⟩
  | cons u l ih =>
    obtain ⟨hu, hnd⟩ := List.nodup_cons.mp hnd
    obtain ⟨hul, hnd⟩ := List.nodup_cons.mp hnd
    have hne : target ≠ u := fun he => hu (he ▸ List.mem_cons_self)
    have hone := mergeInto_listings (t := t) hok hne ht (hl u List.mem_cons_self)
    rw [List.map_cons, List.foldlM_cons]
    by_cases hc : Listing.Compatible t (s.listings target) (s.listings u)
    · rw [if_pos hc] at hone
      obtain ⟨s₁, he, hj⟩ := hone
      -- the series still to come are as they were
      have hsame : ∀ v ∈ l, v ≠ target ∧ v ≠ u := by
        intro v hv
        exact ⟨fun he => hu (List.mem_cons_of_mem _ (he ▸ hv)), fun he => hul (he ▸ hv)⟩
      have hlist : l.map s₁.listings = l.map s.listings :=
        List.map_congr_left fun v hv => (hj.others v (hsame v hv).1 (hsame v hv).2).1
      have hrest := ih hj.ok (List.nodup_cons.mpr ⟨fun hm => hu (List.mem_cons_of_mem _ hm), hnd⟩)
        hj.one fun v hv =>
          (hj.others v (hsame v hv).1 (hsame v hv).2).2 (hl v (List.mem_cons_of_mem _ hv))
      rw [hj.joined, hlist] at hrest
      rw [he, if_congr ((Listing.foldsUp_cons t).trans (and_iff_right hc)) rfl rfl]
      exact hrest
    · rw [if_neg hc] at hone
      obtain ⟨src, he⟩ := hone
      rw [if_neg fun hf => hc hf.1, he]
      exact ⟨src, rfl⟩

end

end Collection

end MangaManager
