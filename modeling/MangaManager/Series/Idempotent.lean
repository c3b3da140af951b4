import MangaManager.Series.Upserts

/-!
# An ingest that runs again

A call that ran leaves tables where the same item is found again: as the identity, or as
its alternate listing when the first run found or made one. What the second run writes is
there already, but for the aliases with the text of boilerplate, which every run deletes
and adds again under new row ids.
-/

namespace MangaManager

open Lib

namespace Shelf

variable {t : CatalogText} {s s' : Shelf} {call : IngestCall} {id : Nat}
  {i : CatalogSourceSeries} {listing : Option CatalogAlternateSourceListing} {item : SeriesItem}

/-! ## The identity of the item -/

/-- The identities that `ingest` looks for. -/
def isIdentity (item : SeriesItem) (i : CatalogSourceSeries) : Bool :=
  i.source == item.source &&
    (i.normalizedSourceId == normalizedIdentity item || i.sourceId == item.sourceId)

/-- And the alternate listings. -/
def isListing (item : SeriesItem) (a : CatalogAlternateSourceListing) : Bool :=
  a.source == item.source && a.sourceId == item.sourceId

/-- The item is found: as the identity, or as an alternate listing of it. -/
def Found (item : SeriesItem) (s : Shelf) (i : CatalogSourceSeries) :
    Option CatalogAlternateSourceListing → Prop
  | none => s.identities.find? (isIdentity item) = some i
  | some a => s.identities.find? (isIdentity item) = none ∧ i ∈ s.identities ∧
      s.alternates.find? (isListing item) = some a ∧ a.primarySourceSeriesId = i.id

theorem Found.mem (h : Found item s i listing) : i ∈ s.identities := by
  cases listing with
  | none => exact List.mem_of_find?_eq_some h
  | some a => exact h.2.1

/-- A new identity is the first one that has the ids of the item. -/
theorem addIdentity_found (key : String)
    (hnone : s.identities.find? (isIdentity item) = none) :
    Found item (s.addIdentity t item key).1 (s.addIdentity t item key).2 none := by
  have hsame := (addSeries_same (t := t) (s := s) item key).1
  unfold addIdentity
  rcases hadd : s.addSeries t item key with ⟨s₁, seriesId⟩
  rw [hadd] at hsame
  dsimp only at hsame
  show List.find? _ (s₁.identities ++ [_]) = _
  rw [hsame, List.find?_append, hnone, Option.none_or]
  refine List.find?_cons_of_pos ?_
  simp [isIdentity]

theorem addSeries_constrained (hs : s.Constrained) (item : SeriesItem) (key : String) :
    (s.addSeries t item key).1.Constrained := by
  unfold addSeries
  split
  · exact hs
  · exact ⟨hs.identities, hs.newIdentity, hs.alternates, hs.newAlternate, hs.identifiers,
      hs.newIdentifier, hs.aliasValue, hs.providerValue, hs.identityProvider, hs.seriesNumber,
      hs.identityRelease⟩

/-- A row with the next id. -/
theorem fresh_append {α : Type} {key : α → Nat} {rows : List α} {next : Nat} {r : α}
    (h : ∀ x ∈ rows, key x < next) (hr : key r = next) : ∀ x ∈ rows ++ [r], key x < next + 1 := by
  intro x hx
  rcases List.mem_append.mp hx with hx | hx
  · have := h x hx
    omega
  · obtain rfl := List.mem_singleton.mp hx
    omega

theorem addIdentity_constrained (hs : s.Constrained) (key : String) :
    (s.addIdentity t item key).1.Constrained := by
  have h := addSeries_constrained (t := t) hs item key
  unfold addIdentity
  rcases hadd : s.addSeries t item key with ⟨s₁, seriesId⟩
  rw [hadd] at h
  exact ⟨Table.keyed_append.mpr ⟨h.identities, fun j hj => (h.newIdentity j hj).ne⟩,
    fresh_append h.newIdentity rfl, h.alternates, h.newAlternate, h.identifiers, h.newIdentifier,
    h.aliasValue, h.providerValue, h.identityProvider, h.seriesNumber, h.identityRelease⟩

theorem addListing_constrained (hs : s.Constrained) (i : CatalogSourceSeries) (e : ListingEvidence) :
    (s.addListing item i e).1.Constrained :=
  ⟨hs.identities, hs.newIdentity,
    Table.keyed_append.mpr ⟨hs.alternates, fun a ha => (hs.newAlternate a ha).ne⟩,
    fresh_append hs.newAlternate rfl, hs.identifiers, hs.newIdentifier, hs.aliasValue,
    hs.providerValue, hs.identityProvider, hs.seriesNumber, hs.identityRelease⟩

theorem target_mem (t : CatalogText) (s : Shelf) (call : IngestCall) :
    (s.target t call).2.1 ∈ (s.target t call).1.identities := by
  rcases (target_cases t s call).2.2 with ⟨he, -, hi⟩ | ⟨he, -, -⟩
  · rwa [he]
  · rw [he]
    exact List.mem_append_right _ (List.mem_singleton_self _)

theorem locate_identity {chapters : List ChapterItem}
    (h : s.identities.find? (isIdentity item) = some i) :
    s.locate t item chapters = .identity i := by
  unfold locate
  split
  · rename_i j hj
    cases hj.symm.trans h
    rfl
  · rename_i hnone
    cases hnone.symm.trans h

theorem locate_listing {chapters : List ChapterItem} {a : CatalogAlternateSourceListing}
    (hnone : s.identities.find? (isIdentity item) = none)
    (ha : s.alternates.find? (isListing item) = some a)
    (hi : s.identity? a.primarySourceSeriesId = some i) :
    s.locate t item chapters = .listing i a := by
  unfold locate
  split
  · rename_i j hj
    cases hj.symm.trans hnone
  · split
    · rename_i a' ha'
      cases ha'.symm.trans ha
      rw [hi]
    · rename_i hno
      cases hno.symm.trans ha

/-- An equivalent identity is looked for when no row has the ids of the item. -/
theorem locate_equivalent {chapters : List ChapterItem} {e : ListingEvidence}
    (h : s.locate t item chapters = .equivalent i e) :
    s.identities.find? (isIdentity item) = none ∧ s.alternates.find? (isListing item) = none := by
  unfold locate at h
  split at h
  · cases h
  · rename_i hnone
    split at h
    · split at h <;> cases h
    · rename_i hno
      exact ⟨hnone, hno⟩

/-- Whatever way the identity was found or made, the item is found in the tables then. -/
theorem target_located (s : Shelf) (t : CatalogText) (call : IngestCall) :
    Found call.item (s.target t call).1 (s.target t call).2.1 (s.target t call).2.2 := by
  have hmem := target_mem t s call
  unfold target at hmem ⊢
  split
  · rename_i i hi
    unfold locate at hi
    split at hi
    · rename_i j hj
      cases hi
      exact hj
    · split at hi
      · split at hi <;> cases hi
      · split at hi <;> cases hi
  · rename_i i a hi
    unfold locate at hi
    split at hi
    · cases hi
    · rename_i hnone
      split at hi
      · rename_i a' ha
        split at hi
        · rename_i j hj
          cases hi
          exact ⟨hnone, Table.get_mem hj, ha, (Table.get_key hj).symm⟩
        · cases hi
      · split at hi <;> cases hi
  · rename_i i e hi
    rw [hi] at hmem
    obtain ⟨hnone, hno⟩ := locate_equivalent hi
    refine ⟨hnone, hmem, ?_, rfl⟩
    refine (List.find?_append ..).trans ?_
    rw [hno, Option.none_or]
    refine List.find?_cons_of_pos ?_
    simp [isListing]
  · rename_i hi
    refine addIdentity_found _ ?_
    unfold locate at hi
    split at hi
    · cases hi
    · rename_i hnone
      exact hnone

theorem target_found (hs : s.Constrained) (t : CatalogText) (call : IngestCall) :
    (s.target t call).1.Constrained ∧
      Found call.item (s.target t call).1 (s.target t call).2.1 (s.target t call).2.2 := by
  refine ⟨?_, target_located s t call⟩
  unfold target
  split
  · exact hs
  · exact hs
  · exact addListing_constrained hs _ _
  · exact addIdentity_constrained hs _

/-! ## What is described -/

/-- The alternate listing with the names of the item. -/
def named (item : SeriesItem) (a : CatalogAlternateSourceListing) : CatalogAlternateSourceListing :=
  { a with title := item.title, url := item.url }

theorem observed_same (t : CatalogText) (i : CatalogSourceSeries) (item : SeriesItem)
    (alternate : Bool) : (observed t i item alternate).id = i.id ∧
    (observed t i item alternate).seriesId = i.seriesId ∧
    (observed t i item alternate).source = i.source := by
  unfold observed
  split <;> exact ⟨rfl, rfl, rfl⟩

theorem observed_twice (alternate : Bool) :
    observed t (observed t i item alternate) item alternate = observed t i item alternate := by
  cases alternate <;> simp only [observed, Bool.false_eq_true, if_false, if_true, ite_self] <;>
    grind

/-- The item is found again after the rows were described. -/
theorem Found.again (h : Found call.item s i listing) (hs : s.Constrained) {s' : Shelf}
    (hi : s'.identities = (s.describe t call i listing).identities)
    (ha : s'.alternates = (s.describe t call i listing).alternates) {call' : IngestCall}
    (hitem : call'.item = call.item) :
    s'.target t call' =
      (s', observed t i call.item listing.isSome, listing.map (named call.item)) := by
  obtain ⟨hoid, -, hosource⟩ := observed_same t i call.item listing.isSome
  have hmem := h.mem
  -- the identities are asked for the ids of the item
  have hfind (hsame : isIdentity call.item (observed t i call.item listing.isSome) =
      isIdentity call.item i) : s'.identities.find? (isIdentity call.item) =
        (s.identities.find? (isIdentity call.item)).map fun x =>
          if x.id = (observed t i call.item listing.isSome).id then
            observed t i call.item listing.isSome else x := by
    rw [hi]
    refine Upsert.find?_map_of fun x hx => ?_
    split
    · rename_i he
      rw [hs.identities.eq hx hmem (he.trans hoid)]
      exact hsame
    · rfl
  unfold target
  cases listing with
  | none =>
    have hsome : isIdentity call.item i = true := List.find?_some h
    have hobserved : isIdentity call.item (observed t i call.item false) = true := by
      have hsource : i.source = call.item.source := by
        simp only [isIdentity, Bool.and_eq_true, beq_iff_eq] at hsome
        exact hsome.1
      simp [isIdentity, observed, hsource]
    have hloc := hfind (hobserved.trans hsome.symm)
    rw [h, Option.map_some, if_pos hoid.symm] at hloc
    rw [hitem, locate_identity hloc]
    rfl
  | some a =>
    obtain ⟨hnone, -, hfa, hprimary⟩ := h
    have hloc := hfind rfl
    rw [hnone, Option.map_none] at hloc
    have hlisting : s'.alternates.find? (isListing call.item) = some (named call.item a) := by
      rw [ha]
      refine (Upsert.find?_map_of fun x hx => ?_).trans ?_
      · split
        · rename_i he
          rw [hs.alternates.eq hx (List.mem_of_find?_eq_some hfa) he]
          rfl
        · rfl
      · rw [hfa, Option.map_some, if_pos rfl]
        rfl
    have hidentity : s'.identity? (named call.item a).primarySourceSeriesId =
        some (observed t i call.item true) := by
      show Table.get CatalogSourceSeries.id s'.identities a.primarySourceSeriesId = _
      rw [hi, hprimary, ← hoid]
      exact Table.get_put_self hmem hoid.symm
    rw [hitem, locate_listing hloc hlisting hidentity]
    rfl

/-- The rows that a call describes are described already. -/
theorem describe_again (h : Found call.item s i listing) (hs : s.Constrained) {s' : Shelf}
    (hi : s'.identities = (s.describe t call i listing).identities)
    (ha : s'.alternates = (s.describe t call i listing).alternates)
    (hseries : ∀ u ∈ s'.series, u.id = i.seriesId →
      orText u.description call.item.description = u.description ∧
        orText u.coverUrl call.item.coverUrl = u.coverUrl) {call' : IngestCall}
    (hitem : call'.item = call.item) :
    s'.describe t call' (observed t i call.item listing.isSome) (listing.map (named call.item)) =
      s' := by
  obtain ⟨hoid, hoser, -⟩ := observed_same t i call.item listing.isSome
  have hidentities : Table.put CatalogSourceSeries.id s'.identities
      (observed t (observed t i call.item listing.isSome) call.item listing.isSome) =
        s'.identities := by
    rw [observed_twice, hi]
    exact Table.put_self (Table.keyed_put.mpr hs.identities) (Table.mem_put_self h.mem hoid.symm)
  have hser : s'.series.map (fun u =>
      if u.id = (observed t i call.item listing.isSome).seriesId then
        { u with
          description := orText u.description call.item.description
          coverUrl := orText u.coverUrl call.item.coverUrl }
      else u) = s'.series := by
    refine (List.map_congr_left fun u hu => ?_).trans (List.map_id _)
    split
    · rename_i he
      obtain ⟨hdescription, hcover⟩ := hseries u hu (he.trans hoser)
      rw [hdescription, hcover]
      rfl
    · rfl
  unfold describe
  rw [hitem, Option.isSome_map, hidentities, hser]
  cases listing with
  | none => rfl
  | some a =>
    have halternates : Table.put CatalogAlternateSourceListing.id s'.alternates
        (named call.item (named call.item a)) = s'.alternates := by
      rw [ha]
      exact Table.put_self (Table.keyed_put.mpr hs.alternates)
        (Table.mem_put_self (List.mem_of_find?_eq_some h.2.2.1) rfl)
    exact congrArg (fun rows => ({ s' with alternates := rows } : Shelf)) halternates

/-- The series gets what it has no description and no cover of. -/
theorem describe_series (t : CatalogText) (s : Shelf) (call : IngestCall) (i : CatalogSourceSeries)
    (listing : Option CatalogAlternateSourceListing) : ∃ f : CatalogSeries → CatalogSeries,
      (∀ u, (f u).id = u.id ∧ (u.id = i.seriesId →
        orText (f u).description call.item.description = (f u).description ∧
          orText (f u).coverUrl call.item.coverUrl = (f u).coverUrl)) ∧
      (s.describe t call i listing).series = s.series.map f := by
  refine ⟨_, fun u => ⟨?_, fun hu => ?_⟩, rfl⟩
  · split <;> rfl
  · rw [if_pos hu]
    exact ⟨orText_twice _ _, orText_twice _ _⟩

/-- No other identity has the ids of the item then. -/
theorem taken_again (htaken : s.taken t call i listing = false)
    {s' : Shelf} (hi : s'.identities = (s.describe t call i listing).identities)
    {call' : IngestCall} (hitem : call'.item = call.item) :
    s'.taken t call' (observed t i call.item listing.isSome) (listing.map (named call.item)) =
      false := by
  obtain ⟨hoid, -, -⟩ := observed_same t i call.item listing.isSome
  unfold taken at htaken ⊢
  rw [hitem, Option.isSome_map, observed_twice]
  refine List.any_eq_false.mpr fun j hj => ?_
  rw [hi] at hj
  rcases Table.mem_put.mp hj with ⟨rfl, -⟩ | ⟨hj, -⟩
  · simp
  · rw [hoid]
    exact List.any_eq_false.mp htaken j hj

theorem describe_constrained (hs : s.Constrained) (h : Found call.item s i listing) :
    (s.describe t call i listing).Constrained := by
  obtain ⟨hoid, -, -⟩ := observed_same t i call.item listing.isSome
  refine ⟨Table.keyed_put.mpr hs.identities, fun j hj => ?_, ?_, ?_, hs.identifiers,
    hs.newIdentifier, hs.aliasValue, hs.providerValue, hs.identityProvider, hs.seriesNumber,
    hs.identityRelease⟩
  · rcases Table.mem_put.mp hj with ⟨rfl, -⟩ | ⟨hj, -⟩
    · rw [hoid]
      exact hs.newIdentity i h.mem
    · exact hs.newIdentity j hj
  · cases listing with
    | none => exact hs.alternates
    | some a => exact Table.keyed_put.mpr hs.alternates
  · cases listing with
    | none => exact hs.newAlternate
    | some a =>
      intro x hx
      rcases Table.mem_put.mp hx with ⟨rfl, -⟩ | ⟨hx, -⟩
      · exact hs.newAlternate a (List.mem_of_find?_eq_some h.2.2.1)
      · exact hs.newAlternate x hx

end Shelf

/-! ## The latest release -/

namespace Collection

variable {c c' : Collection} {seriesId : Nat}

/-- `_recompute_latest` writes the series only, and leaves their ids and descriptions. What it
writes depends on the chapters and the releases. -/
theorem recomputeLatest_spec (c : Collection) (seriesId : Nat) :
    ∃ g : CatalogSeries → CatalogSeries,
      (∀ u, (g u).id = u.id ∧ (g u).description = u.description ∧ (g u).coverUrl = u.coverUrl ∧
        g (g u) = g u) ∧
      ∀ c' : Collection, c'.releases = c.releases → c'.chapters = c.chapters →
        c'.recomputeLatest seriesId = { c' with series := c'.series.map g } := by
  have hsame : ∀ c' : Collection, c'.releases = c.releases → c'.chapters = c.chapters →
      c'.latestRelease seriesId = c.latestRelease seriesId := by
    intro c' hr hc
    simp only [latestRelease, seriesReleases, chapter?, hr, hc]
  unfold recomputeLatest
  cases hlatest : c.latestRelease seriesId with
  | none =>
    refine ⟨id, fun u => ⟨rfl, rfl, rfl, rfl⟩, fun c' hr hc => ?_⟩
    rw [hsame c' hr hc, hlatest, List.map_id]
  | some row =>
    refine ⟨fun u => if u.id = seriesId then
      { u with
        latestReleaseNumber := row.1.displayNumber, latestReleaseSource := row.2.source
        latestReleaseAt := some (row.2.publishedAt.getD row.2.firstSeenAt)
        integrityState := .healthy } else u, fun u => ?_, fun c' hr hc => ?_⟩
    · by_cases hu : u.id = seriesId
      · simp only [if_pos hu, and_self]
      · simp only [if_neg hu, and_self]
    · rw [hsame c' hr hc, hlatest]

end Collection

namespace Shelf

variable {t : CatalogText} {s s' : Shelf} {call : IngestCall} {id : Nat}
  {i : CatalogSourceSeries}

/-! ## Two runs -/

/-- The external ids after the aliases. -/
def identified (t : CatalogText) (s : Shelf) (call : IngestCall) (i : CatalogSourceSeries) : Shelf :=
  (s.syncAliases t i.seriesId i.id call.item.aliases).syncExternalIds i.seriesId i.id
    call.item.externalIds

/-- And then the chapters with their releases. -/
def upserted (t : CatalogText) (s : Shelf) (call : IngestCall) (i : CatalogSourceSeries) : Shelf :=
  (s.identified t call i).upsertChapters t i.seriesId i.id call.chapters call.now

/-- The tables after each step of a call; `_recompute_latest` comes then. -/
def stages (t : CatalogText) (s : Shelf) (call : IngestCall) : List Shelf :=
  let i := (s.target t call).2.1
  let described := (s.target t call).1.describe t call i (s.target t call).2.2
  [(s.target t call).1, described, described.syncAliases t i.seriesId i.id call.item.aliases,
    described.identified t call i, described.upserted t call i]

theorem ingest_inv (h : s.ingest t call = .ok (s', id)) :
    id = (s.target t call).2.1.id ∧
      (∃ u ∈ (s.target t call).1.series, u.id = (s.target t call).2.1.seriesId) ∧
      (s.target t call).1.taken t call (s.target t call).2.1 (s.target t call).2.2 = false ∧
      s' = ((s.target t call).1.describe t call (s.target t call).2.1
        (s.target t call).2.2).sync t call (s.target t call).2.1 := by
  unfold ingest at h
  rcases ht : s.target t call with ⟨s₁, i, listing⟩
  rw [ht] at h
  dsimp only at h ⊢
  split at h
  · cases h
  · rename_i hseries
    split at h
    · cases h
    · rename_i htaken
      cases h
      refine ⟨rfl, Table.isSome_get.mp ?_, Bool.eq_false_iff.mpr htaken, rfl⟩
      exact Option.isSome_iff_ne_none.mpr fun hnone => hseries (Option.isNone_iff_eq_none.mpr hnone)

/-- `_recompute_latest` writes the series only. -/
theorem sync_eq (t : CatalogText) (s : Shelf) (call : IngestCall) (i : CatalogSourceSeries) :
    ∃ g : CatalogSeries → CatalogSeries,
      (∀ u, (g u).id = u.id ∧ (g u).description = u.description ∧ (g u).coverUrl = u.coverUrl ∧
        g (g u) = g u) ∧
      s.sync t call i = { s.upserted t call i with series := s.series.map g } ∧
      ∀ c : Collection, c.releases = (s.upserted t call i).releases →
        c.chapters = (s.upserted t call i).chapters →
          c.recomputeLatest i.seriesId = { c with series := c.series.map g } := by
  obtain ⟨g, hg, hlatest⟩ := (s.upserted t call i).recomputeLatest_spec i.seriesId
  refine ⟨g, hg, ?_, hlatest⟩
  show ({ s.upserted t call i with
    toCollection := (s.upserted t call i).recomputeLatest i.seriesId } : Shelf) = _
  rw [hlatest _ rfl rfl]
  rfl

section
variable (hs : s.Constrained) (hkeys : (call.item.externalIds.map Prod.fst).Nodup)
include hs hkeys

/-- The rows that hang on the identity keep the constraints, and when they are found again nothing
but the aliases is written. -/
theorem upserted_spec : (s.identified t call i).Constrained ∧ (s.upserted t call i).Constrained ∧
    (∀ x ∈ s.identifiers, x.sourceSeriesId ≠ i.id → x ∈ (s.upserted t call i).identifiers) ∧
    ∀ (s' : Shelf) (later : Time),
      s'.identifiers = (s.upserted t call i).identifiers →
      s'.nextIdentifier = (s.upserted t call i).nextIdentifier →
      s'.chapters = (s.upserted t call i).chapters →
      s'.nextChapter = (s.upserted t call i).nextChapter →
      s'.releases = (s.upserted t call i).releases →
      s'.lastRelease = (s.upserted t call i).lastRelease →
      (s'.syncExternalIds i.seriesId i.id call.item.externalIds).upsertChapters t i.seriesId i.id
        call.chapters later = s' := by
  have haliases : (s.syncAliases t i.seriesId i.id call.item.aliases).Constrained :=
    syncAliases_constrained hs
  obtain ⟨hids, hkept, hidsAgain⟩ := syncExternalIds_spec haliases hkeys i.seriesId i.id
  obtain ⟨hchapters, hchaptersAgain⟩ := upsertChapters_spec hids t i.seriesId i.id call.chapters
    call.now
  refine ⟨hids, hchapters, hkept, fun s' later hi hni hc hnc hr hnr => ?_⟩
  rw [hidsAgain s' hi hni]
  exact hchaptersAgain s' later hc hnc hr hnr

theorem sync_constrained : (s.sync t call i).Constrained := by
  obtain ⟨-, hu, -, -⟩ := upserted_spec (t := t) (i := i) hs hkeys
  obtain ⟨g, -, hsync, -⟩ := sync_eq t s call i
  rw [hsync]
  exact ⟨hu.identities, hu.newIdentity, hu.alternates, hu.newAlternate, hu.identifiers,
    hu.newIdentifier, hu.aliasValue, hu.providerValue, hu.identityProvider, hu.seriesNumber,
    hu.identityRelease⟩

/-- The second time it is a run of `_sync_aliases`. -/
theorem sync_again {j : CatalogSourceSeries} (hid : j.id = i.id) (hseries : j.seriesId = i.seriesId)
    {call' : IngestCall} (hitem : call'.item = call.item)
    (hchapters : call'.chapters = call.chapters) :
    (s.sync t call i).sync t call' j =
      (s.sync t call i).syncAliases t i.seriesId i.id call.item.aliases := by
  obtain ⟨-, -, -, hagain⟩ := upserted_spec (t := t) (i := i) hs hkeys
  obtain ⟨g, hg, hsync, hlatest⟩ := sync_eq t s call i
  generalize s.sync t call i = after at hsync
  have hmap : after.series.map g = after.series := by
    rw [hsync]
    show (s.series.map g).map g = s.series.map g
    rw [List.map_map]
    exact List.map_congr_left fun u _ => (hg u).2.2.2
  have hrows : ((after.syncAliases t i.seriesId i.id call.item.aliases).syncExternalIds i.seriesId
      i.id call.item.externalIds).upsertChapters t i.seriesId i.id call.chapters call'.now =
        after.syncAliases t i.seriesId i.id call.item.aliases := by
    refine hagain _ call'.now ?_ ?_ ?_ ?_ ?_ ?_ <;> (rw [hsync]; rfl)
  unfold sync
  rw [hid, hseries, hitem, hchapters, hrows]
  dsimp only
  rw [hlatest (after.syncAliases t i.seriesId i.id call.item.aliases).toCollection
    (by rw [hsync]; rfl) (by rw [hsync]; rfl)]
  show ({ after.syncAliases t i.seriesId i.id call.item.aliases with
    series := after.series.map g } : Shelf) = _
  rw [hmap]
  rfl

end

theorem addSeries_identifiers (item : SeriesItem) (key : String) :
    (s.addSeries t item key).1.identifiers = s.identifiers := by
  unfold addSeries
  split <;> rfl

theorem target_identifiers (t : CatalogText) (s : Shelf) (call : IngestCall) :
    (s.target t call).1.identifiers = s.identifiers := by
  unfold target
  split
  · rfl
  · rfl
  · rfl
  · exact addSeries_identifiers call.item call.storageKey

/-- After a run with an identity that was found, the item is found again, and a second run comes to
one of `_sync_aliases`. -/
theorem ingest_found (hs : s.Constrained) (hfound : Found call.item s i listing)
    (hkeys : (call.item.externalIds.map Prod.fst).Nodup)
    (hseries : ∃ u ∈ s.series, u.id = i.seriesId) (htaken : s.taken t call i listing = false)
    {call' : IngestCall} (hitem : call'.item = call.item)
    (hchapters : call'.chapters = call.chapters) :
    ((s.describe t call i listing).sync t call i).ingest t call' =
      .ok (((s.describe t call i listing).sync t call i).syncAliases t i.seriesId i.id
        call.item.aliases, i.id) := by
  obtain ⟨hoid, hoser, -⟩ := observed_same t i call.item listing.isSome
  have hagain := sync_again (t := t) (i := i) (describe_constrained (t := t) hs hfound) hkeys hoid
    hoser hitem hchapters
  obtain ⟨g, hg, hsync, -⟩ := sync_eq t (s.describe t call i listing) call i
  generalize (s.describe t call i listing).sync t call i = s' at hsync hagain ⊢
  have hi : s'.identities = (s.describe t call i listing).identities := by
    rw [hsync]
    rfl
  have ha : s'.alternates = (s.describe t call i listing).alternates := by
    rw [hsync]
    rfl
  obtain ⟨f, hf, hdescribe⟩ := describe_series t s call i listing
  have hrows : s'.series = (s.series.map f).map g := by
    rw [hsync, ← hdescribe]
  have hthere : (s'.series? i.seriesId).isNone = false := by
    obtain ⟨u, hu, huid⟩ := hseries
    rw [Option.isNone_eq_false_iff]
    refine Table.isSome_get.mpr ⟨g (f u), ?_, ?_⟩
    · rw [hrows]
      exact List.mem_map_of_mem (List.mem_map_of_mem hu)
    · rw [(hg (f u)).1, (hf u).1, huid]
  have hdescribed : ∀ u ∈ s'.series, u.id = i.seriesId →
      orText u.description call.item.description = u.description ∧
        orText u.coverUrl call.item.coverUrl = u.coverUrl := by
    intro u hu hid
    rw [hrows, List.map_map] at hu
    obtain ⟨v, -, rfl⟩ := List.mem_map.mp hu
    obtain ⟨hgid, hdescription, hcover, -⟩ := hg (f v)
    rw [Function.comp_apply, hgid, (hf v).1] at hid
    rw [Function.comp_apply, hdescription, hcover]
    exact (hf v).2 hid
  unfold ingest
  rw [hfound.again hs hi ha hitem]
  dsimp only
  rw [hoser, hoid, hthere, taken_again htaken hi hitem,
    describe_again hfound hs hi ha hdescribed hitem, hagain]
  rfl

theorem empty_constrained : ({} : Shelf).Constrained :=
  ⟨List.nodup_nil, fun _ h => (by cases h), List.nodup_nil, fun _ h => (by cases h), List.nodup_nil,
    fun _ h => (by cases h), List.nodup_nil, List.nodup_nil, List.nodup_nil, List.nodup_nil,
    List.nodup_nil⟩

end Shelf

/-- A listing with an alias that is boilerplate, chapters of one number, and one without a number. -/
def repeatedReport : IngestCall :=
  { item := (aliasReport "asura" ["Home", "Uno"]).item
    chapters :=
      [{ source := "asura", number := "1.0" }, { source := "asura", number := "Extra" },
        { source := "asura", number := "Chapter 01", title := "Begin" }] }

/-- The tables with the same title of another provider, which has the external id. -/
def sharedShelf : Shelf := (({} : Fed).call asciiCatalog (aliasReport "mangadex" ["Dos"])).shelf

end MangaManager
