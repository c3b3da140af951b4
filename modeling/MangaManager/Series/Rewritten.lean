import MangaManager.Series.United

/-!
# The texts over a merge

A merge moves rows between identities and series, and writes no text that was not there:
`Rewritten` says where the rows of each table come from. `Housed`, that a series has one identity of
a provider and is there for whatever names it, is kept by the check of each round.
-/

namespace MangaManager

open Lib

/-- The columns of an identity that no merge writes. -/
structure SameTexts (i j : CatalogSourceSeries) : Prop where
  id : j.id = i.id
  listing : j.listing = i.listing
  title : j.title = i.title
  normalizedSourceId : j.normalizedSourceId = i.normalizedSourceId
  revisionOverride : j.revisionOverride = i.revisionOverride

theorem SameTexts.refl {i : CatalogSourceSeries} : SameTexts i i := ⟨rfl, rfl, rfl, rfl, rfl⟩

theorem SameTexts.trans {i j k : CatalogSourceSeries} (h : SameTexts i j) (h' : SameTexts j k) :
    SameTexts i k :=
  ⟨h'.id.trans h.id, h'.listing.trans h.listing, h'.title.trans h.title,
    h'.normalizedSourceId.trans h.normalizedSourceId,
    h'.revisionOverride.trans h.revisionOverride⟩

namespace Collection

/-- An alternate listing that was there, or one for an identity that was. -/
def ListedFrom (s : Collection) (a : CatalogAlternateSourceListing) : Prop :=
  (∃ b ∈ s.alternates, a.sourceId = b.sourceId ∧ a.title = b.title ∧ a.url = b.url) ∨
    ∃ i ∈ s.identities, a.sourceId = i.sourceId ∧ a.title = i.title ∧ a.url = i.url

/-- The columns of an external id that no merge writes. -/
def identifierTexts (x : CatalogExternalIdentifier) : Nat × String × String :=
  (x.id, x.provider, x.value)

/-- Where the texts come from. -/
structure Rewritten (s s' : Collection) : Prop where
  series : ∀ u ∈ s'.series, ∃ v ∈ s.series, v.id = u.id
  identities : ∀ j ∈ s'.identities, ∃ i ∈ s.identities, SameTexts i j
  aliases : ∀ a ∈ s'.aliases, ∃ b ∈ s.aliases, b.displayValue = a.displayValue
  identifiers : (s'.identifiers.map identifierTexts).Sublist (s.identifiers.map identifierTexts)
  alternates : ∀ a ∈ s'.alternates, ListedFrom s a
  chapters : ∀ c ∈ s'.chapters, ∃ d ∈ s.chapters, d.canonicalNumber = c.canonicalNumber

variable {s s₀ s₁ s' : Collection} {t : TextLib} {target source : Nat}
  {keeper duplicate : CatalogSourceSeries}

theorem Rewritten.refl : Rewritten s s :=
  ⟨fun u hu => ⟨u, hu, rfl⟩, fun j hj => ⟨j, hj, .refl⟩, fun a ha => ⟨a, ha, rfl⟩,
    List.Sublist.refl _,
    fun a ha => .inl ⟨a, ha, rfl, rfl, rfl⟩, fun c hc => ⟨c, hc, rfl⟩⟩

theorem Rewritten.trans (h : Rewritten s s₁) (h' : Rewritten s₁ s') : Rewritten s s' := by
  refine ⟨fun u hu => ?_, fun j hj => ?_, fun a ha => ?_, h'.identifiers.trans h.identifiers,
    fun a ha => ?_, fun c hc => ?_⟩
  · obtain ⟨v, hv, he⟩ := h'.series u hu
    obtain ⟨w, hw, he'⟩ := h.series v hv
    exact ⟨w, hw, he'.trans he⟩
  · obtain ⟨i, hi, hsame⟩ := h'.identities j hj
    obtain ⟨i₀, hi₀, hsame₀⟩ := h.identities i hi
    exact ⟨i₀, hi₀, hsame₀.trans hsame⟩
  · obtain ⟨b, hb, he⟩ := h'.aliases a ha
    obtain ⟨b₀, hb₀, he₀⟩ := h.aliases b hb
    exact ⟨b₀, hb₀, he₀.trans he⟩
  · rcases h'.alternates a ha with ⟨b, hb, hid, htitle, hurl⟩ | ⟨i, hi, hid, htitle, hurl⟩
    · rw [ListedFrom, hid, htitle, hurl]
      exact h.alternates b hb
    · obtain ⟨i₀, hi₀, hsame⟩ := h.identities i hi
      have hlisting := hsame.listing
      simp only [CatalogSourceSeries.listing, ProviderIdentity.mk.injEq] at hlisting
      exact .inr ⟨i₀, hi₀, hid.trans hlisting.2.1, htitle.trans hsame.title,
        hurl.trans hlisting.2.2⟩
  · obtain ⟨d, hd, he⟩ := h'.chapters c hc
    obtain ⟨d₀, hd₀, he₀⟩ := h.chapters d hd
    exact ⟨d₀, hd₀, he₀.trans he⟩

/-! ## One round -/

theorem moveAlternates_listed (keeper : CatalogSourceSeries) (overlap : Nat × Nat)
    (hs : ∀ a ∈ s.alternates, ListedFrom s₀ a) (hd : duplicate ∈ s₀.identities) :
    ∀ a ∈ (s.moveAlternates keeper duplicate overlap).alternates, ListedFrom s₀ a := by
  have hmoved : ∀ a ∈ (s.alternates.filter fun a => a.primarySourceSeriesId != duplicate.id ||
      !s.alternates.any fun b => b.id != a.id && b.source == a.source && b.sourceId == a.sourceId
        ).map (fun a => if a.primarySourceSeriesId = duplicate.id then
          { a with primarySourceSeriesId := keeper.id } else a), ListedFrom s₀ a := by
    intro a ha
    obtain ⟨b, hb, rfl⟩ := List.mem_map.mp ha
    have hfrom := hs b (List.mem_filter.mp hb).1
    split
    · exact hfrom
    · exact hfrom
  intro a ha
  unfold moveAlternates at ha
  dsimp only at ha
  split at ha
  · obtain ⟨b, hb, rfl⟩ := List.mem_map.mp ha
    split
    · rename_i hlisted
      rw [Bool.and_eq_true, beq_iff_eq, beq_iff_eq] at hlisted
      exact .inr ⟨duplicate, hd, hlisted.2, rfl, rfl⟩
    · exact hmoved b hb
  · rcases List.mem_append.mp ha with ha | ha
    · exact hmoved a ha
    · obtain rfl := List.mem_singleton.mp ha
      exact .inr ⟨duplicate, hd, rfl, rfl, rfl⟩

theorem consolidate_rewritten {overlap : Nat × Nat} (h : Rewritten s₀ s)
    (hk : keeper ∈ s₀.identities) (hd : duplicate ∈ s₀.identities) :
    Rewritten s₀ (s.consolidate keeper duplicate overlap) := by
  have halternates := moveAlternates_listed keeper overlap h.alternates hd
  obtain ⟨alternates, next, he⟩ := @moveAlternates_eq s keeper duplicate overlap
  unfold consolidate
  rw [he] at halternates ⊢
  refine ⟨h.series, fun j hj => ?_, fun a ha => ?_, ?_, halternates, h.chapters⟩
  · rcases Table.mem_put.mp (List.mem_filter.mp hj).1 with ⟨rfl, -⟩ | ⟨hj, -⟩
    · exact ⟨keeper, hk, rfl, rfl, rfl, rfl, rfl⟩
    · exact h.identities j hj
  · obtain ⟨b, hb, rfl⟩ := List.mem_map.mp ha
    have hfrom := h.aliases b (List.mem_filter.mp hb).1
    split
    · exact hfrom
    · exact hfrom
  · refine List.Sublist.trans ?_ h.identifiers
    have hsame : ∀ l : List CatalogExternalIdentifier, (l.map fun e =>
        if e.sourceSeriesId = duplicate.id then { e with sourceSeriesId := keeper.id } else e).map
          identifierTexts = l.map identifierTexts := by
      intro l
      rw [List.map_map]
      refine List.map_congr_left fun e _ => ?_
      rw [Function.comp_apply]
      split
      · rfl
      · rfl
    show List.Sublist (List.map _ (List.map _ _)) _
    rw [hsame]
    exact List.filter_sublist.map _

theorem foldlM_consolidatePair_rewritten {right : CatalogSourceSeries}
    {pairs : List (CatalogSourceSeries × CatalogSourceSeries)}
    (hp : ∀ p ∈ pairs, p.1 ∈ s.identities ∧ p.2 ∈ s.identities)
    (h : pairs.foldlM (consolidatePair t right) s = .ok s') : Rewritten s s' := by
  refine foldlM_inv (P := Rewritten s) h .refl ?_
  intro s₁ p s₂ hmem hs₁ hpair
  obtain ⟨h₁, h₂⟩ := hp p hmem
  unfold consolidatePair at hpair
  dsimp only at hpair
  split at hpair
  · cases hpair
  cases hpair
  rcases keeperOf_cases right p.1 p.2 with hk | hk <;> rw [hk]
  · exact consolidate_rewritten hs₁ h₂ h₁
  · exact consolidate_rewritten hs₁ h₁ h₂

theorem mergeChapter_rewritten {chapter : CatalogChapter} (h : Rewritten s₀ s)
    (hc : ∃ d ∈ s₀.chapters, d.canonicalNumber = chapter.canonicalNumber) :
    Rewritten s₀ (mergeChapter target s chapter) := by
  unfold mergeChapter
  split
  · refine ⟨h.series, h.identities, h.aliases, h.identifiers, h.alternates, fun c hm => ?_⟩
    rcases Table.mem_put.mp hm with ⟨rfl, -⟩ | ⟨hm, -⟩
    · exact hc
    · exact h.chapters c hm
  · exact ⟨h.series, h.identities, h.aliases, h.identifiers, h.alternates,
      fun c hm => h.chapters c (List.mem_filter.mp hm).1⟩

theorem moveSeries_rewritten (h : Rewritten s₀ s) : Rewritten s₀ (s.moveSeries target source) := by
  refine ⟨fun u hu => ?_, fun j hj => ?_, fun a ha => ?_, ?_, h.alternates, h.chapters⟩
  · obtain ⟨v, hv, he⟩ := mem_mergeSeriesRows hu
    obtain ⟨w, hw, he'⟩ := h.series v hv
    exact ⟨w, hw, he'.trans he⟩
  · obtain ⟨i, hi, rfl⟩ := List.mem_map.mp hj
    obtain ⟨i₀, hi₀, hsame⟩ := h.identities i hi
    exact ⟨i₀, hi₀, hsame.id, hsame.listing, hsame.title, hsame.normalizedSourceId,
      hsame.revisionOverride⟩
  · obtain ⟨b, hb, rfl⟩ := List.mem_map.mp ha
    exact h.aliases b (List.mem_filter.mp hb).1
  · refine List.Sublist.trans ?_ h.identifiers
    show List.Sublist (List.map _ (List.map _ _)) _
    rw [List.map_map]
    exact List.Sublist.refl _

theorem mergeInto_rewritten (hk : Table.Keyed CatalogSourceSeries.id s.identities)
    (hne : target ≠ source) (h : mergeInto t target s source = .ok s') : Rewritten s s' := by
  obtain ⟨lr, s₁, -, -, hfold, -, rfl⟩ := mergeInto_ok hk hne h
  have h₁ : Rewritten s s₁ := foldlM_consolidatePair_rewritten (fun p hp => by
    obtain ⟨⟨h₁, -⟩, ⟨h₂, -⟩, -⟩ := sharedPairs_mem hp
    exact ⟨h₁, h₂⟩) hfold
  refine moveSeries_rewritten (List.foldlRecOn (motive := fun s' : Collection => Rewritten s s') _ _
    h₁ fun s' hs' c hc => mergeChapter_rewritten hs' ?_)
  rw [List.mem_insertionSort, List.mem_filter] at hc
  exact h₁.chapters c hc.1

/-! ## The series that the rows name -/

/-- The row of a series, with a title as it should be. -/
def Titled (P : String → Prop) (s : Collection) (u : Nat) : Prop :=
  ∃ row ∈ s.series, row.id = u ∧ P row.title

/-- The columns of `uq_external_identifier_v2_source_provider`. -/
def identifierPlace (x : CatalogExternalIdentifier) : Nat × String := (x.sourceSeriesId, x.provider)

/-- The series of the identities and of the external ids are there, and a provider has one identity
in each. -/
structure Homes (P : String → Prop) (s : Collection) : Prop where
  keyed : Table.Keyed CatalogSourceSeries.id s.identities
  series : Table.Keyed CatalogSeries.id s.series
  one : ∀ i ∈ s.identities, ∀ j ∈ s.identities, i.seriesId = j.seriesId → i.source = j.source →
    i = j
  identity : ∀ i ∈ s.identities, s.Titled P i.seriesId
  identifier : ∀ x ∈ s.identifiers, s.Titled P x.seriesId
  place : (s.identifiers.map identifierPlace).Nodup

variable {P : String → Prop}

theorem titled_map {g : CatalogSeries → CatalogSeries}
    (hg : ∀ u, (g u).id = u.id ∧ (g u).title = u.title) (hseries : s'.series = s.series.map g)
    {u : Nat} (h : s.Titled P u) : s'.Titled P u := by
  obtain ⟨row, hrow, hid, hP⟩ := h
  rw [Titled, hseries]
  exact ⟨g row, List.mem_map_of_mem hrow, (hg row).1.trans hid, (hg row).2.symm ▸ hP⟩

/-- Other tables, and other columns of the series, may change. -/
theorem Homes.of_tables (h : s.Homes P) (hids : s'.identities = s.identities)
    (hxs : s'.identifiers = s.identifiers) {g : CatalogSeries → CatalogSeries}
    (hg : ∀ u, (g u).id = u.id ∧ (g u).title = u.title) (hseries : s'.series = s.series.map g) :
    s'.Homes P := by
  refine ⟨hids ▸ h.keyed, ?_, hids ▸ h.one, fun i hi => ?_, fun x hx => ?_, hxs ▸ h.place⟩
  · rw [hseries]
    exact h.series.map fun x _ y _ he => (hg x).1.symm.trans (he.trans (hg y).1)
  · rw [hids] at hi
    exact titled_map hg hseries (h.identity i hi)
  · rw [hxs] at hx
    exact titled_map hg hseries (h.identifier x hx)

theorem consolidate_identifiers {overlap : Nat × Nat} :
    (∀ x ∈ (s.consolidate keeper duplicate overlap).identifiers,
      ∃ y ∈ s.identifiers, y.seriesId = x.seriesId) ∧
    ((s.identifiers.map identifierPlace).Nodup →
      ((s.consolidate keeper duplicate overlap).identifiers.map identifierPlace).Nodup) := by
  obtain ⟨alternates, next, he⟩ := @moveAlternates_eq s keeper duplicate overlap
  unfold consolidate
  rw [he]
  refine ⟨fun x hx => ?_, fun hnd => ?_⟩
  · obtain ⟨y, hy, rfl⟩ := List.mem_map.mp hx
    refine ⟨y, (List.mem_filter.mp hy).1, ?_⟩
    split
    · rfl
    · rfl
  · have hinj := List.inj_on_of_nodup_map hnd
    -- a row of the duplicate stays when the keeper has none of its provider
    have hfree : ∀ x ∈ s.identifiers, ∀ y ∈ s.identifiers, x.sourceSeriesId = duplicate.id →
        (x.sourceSeriesId != duplicate.id || !s.identifiers.any fun k =>
          k.sourceSeriesId == keeper.id && k.provider == x.provider) = true →
        y.sourceSeriesId = keeper.id → y.provider ≠ x.provider := by
      intro x hx y hy hxd hkept hyk hprovider
      have hany : (s.identifiers.any fun k =>
          k.sourceSeriesId == keeper.id && k.provider == x.provider) = true :=
        List.any_eq_true.mpr ⟨y, hy, by simp [hyk, hprovider]⟩
      rw [hany] at hkept
      simp [hxd] at hkept
    show (List.map _ (List.map _ _)).Nodup
    rw [List.map_map]
    refine List.Nodup.map_on (fun x hx y hy hxy => ?_) ((List.Nodup.of_map _ hnd).filter _)
    obtain ⟨hx, hxkept⟩ := List.mem_filter.mp hx
    obtain ⟨hy, hykept⟩ := List.mem_filter.mp hy
    simp only [Function.comp_apply] at hxy
    split at hxy <;> split at hxy
    · rename_i hxd hyd
      exact hinj hx hy (Prod.ext (hxd.trans hyd.symm) (Prod.mk.inj hxy).2)
    · rename_i hxd _
      obtain ⟨hid, hprovider⟩ := Prod.mk.inj hxy
      exact absurd hprovider.symm (hfree x hx y hy hxd hxkept hid.symm)
    · rename_i _ hyd
      obtain ⟨hid, hprovider⟩ := Prod.mk.inj hxy
      exact absurd hprovider (hfree y hy x hx hyd hykept hid)
    · exact hinj hx hy hxy

theorem foldlM_consolidatePair_homes {lr : CatalogSourceSeries × CatalogSourceSeries}
    (hs : s.Homes P)
    (h : (s.sharedPairs target source).foldlM (consolidatePair t lr.2) s = .ok s') :
    s'.Homes P ∧ s'.series = s.series := by
  have hthin := @foldl_withoutDuplicate s.identities lr.2 (s.sharedPairs target source) hs.keyed
    fun p hp x hx he => by
      obtain ⟨h₁, h₂, -⟩ := sharedPairs_mem hp
      rcases keeperOf_cases lr.2 p.1 p.2 with hk | hk <;> rw [hk] at he ⊢
      · obtain rfl := hs.keyed.eq hx h₂.1 he
        exact .refl
      · obtain rfl := hs.keyed.eq hx h₁.1 he
        exact .refl
  rw [← (foldlM_consolidatePair_identities h).1] at hthin
  obtain ⟨hseries, hids, hplace⟩ := foldlM_inv (P := fun s' : Collection => s'.series = s.series ∧
      (∀ x ∈ s'.identifiers, ∃ y ∈ s.identifiers, y.seriesId = x.seriesId) ∧
      (s'.identifiers.map identifierPlace).Nodup) h
    ⟨rfl, fun x hx => ⟨x, hx, rfl⟩, hs.place⟩ fun s₁ p s₂ _ hs₁ hpair => by
      unfold consolidatePair at hpair
      dsimp only at hpair
      split at hpair
      · cases hpair
      cases hpair
      obtain ⟨hfrom, hnd⟩ := @consolidate_identifiers s₁ (keeperOf lr.2 p.1 p.2).1
        (keeperOf lr.2 p.1 p.2).2
        (s₁.chapterOverlap (keeperOf lr.2 p.1 p.2).1.id (keeperOf lr.2 p.1 p.2).2.id)
      refine ⟨consolidate_consolidated.series.trans hs₁.1, fun x hx => ?_, hnd hs₁.2.2⟩
      obtain ⟨y, hy, he⟩ := hfrom x hx
      obtain ⟨z, hz, he'⟩ := hs₁.2.1 y hy
      exact ⟨z, hz, he'.trans he⟩
  have htitled : ∀ u, s.Titled P u → s'.Titled P u := fun u hu => by rwa [Titled, hseries]
  refine ⟨⟨hthin.keyed, hseries ▸ hs.series, fun i hi j hj hu hsrc => ?_, fun i hi => ?_,
    fun x hx => ?_, hplace⟩,
    hseries⟩
  · obtain ⟨-, i₀, hi₀, hsi⟩ := hthin.origin i hi
    obtain ⟨-, j₀, hj₀, hsj⟩ := hthin.origin j hj
    have hsource : ∀ {x y : CatalogSourceSeries}, SameIdentity x y → y.source = x.source :=
      fun h => congrArg ProviderIdentity.source h.listing
    refine hthin.keyed.eq hi hj ?_
    rw [hsi.id, hsj.id, hs.one i₀ hi₀ j₀ hj₀ (hsi.seriesId.symm.trans (hu.trans hsj.seriesId))
      ((hsource hsi).symm.trans (hsrc.trans (hsource hsj)))]
  · obtain ⟨-, i₀, hi₀, hsi⟩ := hthin.origin i hi
    rw [hsi.seriesId]
    exact htitled _ (hs.identity i₀ hi₀)
  · obtain ⟨y, hy, he⟩ := hids x hx
    rw [← he]
    exact htitled _ (hs.identifier y hy)

/-- The rows of other series stay, and the target keeps its title. -/
theorem titled_mergeSeriesRows {u : Nat} (hk : Table.Keyed CatalogSeries.id s.series)
    (hu : u ≠ source) (h : s.Titled P u) :
    ∃ row ∈ s.mergeSeriesRows target source, row.id = u ∧ P row.title := by
  obtain ⟨row, hrow, rfl, hP⟩ := h
  have hwrite : ∀ row₀ new : CatalogSeries, s.series? target = some row₀ → new.id = row₀.id →
      new.title = row₀.title →
      ∃ row' ∈ Table.put CatalogSeries.id s.series new, row'.id = row.id ∧ P row'.title := by
    intro row₀ new hrow₀ hid htitle
    by_cases he : row.id = new.id
    · obtain rfl := hk.eq hrow (Table.get_mem hrow₀) (he.trans hid)
      exact ⟨new, Table.mem_put_self hrow he, he.symm, htitle ▸ hP⟩
    · exact ⟨row, Table.mem_put_of_ne hrow he, rfl, hP⟩
  have hkeep : ∀ {rows : List CatalogSeries}, (∃ row' ∈ rows, row'.id = row.id ∧ P row'.title) →
      ∃ row' ∈ rows.filter (·.id != source), row'.id = row.id ∧ P row'.title := by
    rintro rows ⟨row', hm, hid, hP'⟩
    exact ⟨row', List.mem_filter.mpr ⟨hm, by simpa [hid] using hu⟩, hid, hP'⟩
  unfold mergeSeriesRows
  refine hkeep ?_
  split
  · rename_i hrow₀ _
    exact hwrite _ _ hrow₀ rfl rfl
  · rename_i hrow₀ _
    exact hwrite _ _ hrow₀ rfl rfl
  · exact ⟨row, hrow, rfl, hP⟩

theorem moveSeries_homes (hs : s.Homes P) (hne : target ≠ source) (ht : s.Titled P target)
    (hshared : s.sharedSources target source = []) : (s.moveSeries target source).Homes P := by
  have htitled : ∀ u, s.Titled P u →
      (s.moveSeries target source).Titled P (if u = source then target else u) := by
    intro u hu
    split
    · exact titled_mergeSeriesRows hs.series hne ht
    · rename_i hsource
      exact titled_mergeSeriesRows hs.series hsource hu
  -- a provider of both would be shared
  have happart : ∀ i ∈ s.identities, ∀ j ∈ s.identities, i.seriesId = target →
      j.seriesId = source → i.source ≠ j.source := by
    intro i hi j hj hiu hju he
    have hm : i.source ∈ s.sharedSources target source := by
      rw [sharedSources, List.mem_filter, decide_eq_true_eq]
      exact ⟨mem_sourcesOf.mpr ⟨i, hi, hiu, rfl⟩, mem_sourcesOf.mpr ⟨j, hj, hju, he.symm⟩⟩
    rw [hshared] at hm
    cases hm
  refine ⟨hs.keyed.map fun x _ y _ he => he, mergeSeriesRows_keyed hs.series,
    fun i hi j hj hu hsrc => ?_, fun i hi => ?_, fun x hx => ?_, ?_⟩
  · obtain ⟨i₀, hi₀, rfl⟩ := List.mem_map.mp hi
    obtain ⟨j₀, hj₀, rfl⟩ := List.mem_map.mp hj
    dsimp only at hu hsrc
    have hsame : i₀ = j₀ := by
      split at hu <;> split at hu
      · rename_i h₁ h₂
        exact hs.one i₀ hi₀ j₀ hj₀ (h₁.trans h₂.symm) hsrc
      · rename_i h₁ _
        exact absurd hsrc.symm (happart j₀ hj₀ i₀ hi₀ hu.symm h₁)
      · rename_i _ h₂
        exact absurd hsrc (happart i₀ hi₀ j₀ hj₀ hu h₂)
      · exact hs.one i₀ hi₀ j₀ hj₀ hu hsrc
    rw [hsame]
  · obtain ⟨i₀, hi₀, rfl⟩ := List.mem_map.mp hi
    exact htitled _ (hs.identity i₀ hi₀)
  · obtain ⟨y, hy, rfl⟩ := List.mem_map.mp hx
    exact htitled _ (hs.identifier y hy)
  · show (List.map _ (List.map _ _)).Nodup
    rw [List.map_map]
    exact hs.place

theorem mergeInto_homes (hs : s.Homes P) (hne : target ≠ source)
    (h : mergeInto t target s source = .ok s') : s'.Homes P := by
  obtain ⟨lr, s₁, hc, -, hfold, hshared, rfl⟩ := mergeInto_ok hs.keyed hne h
  obtain ⟨h₁, hseries⟩ := foldlM_consolidatePair_homes hs hfold
  obtain ⟨⟨hleft, hlu⟩, -⟩ := chosen_some hc
  generalize (s₁.chapters.filter (·.seriesId == source)).insertionSort (·.id ≤ ·.id) = l
  have htables := @foldl_mergeChapter_tables s₁ target l
  have hids : (l.foldl (mergeChapter target) s₁).identifiers = s₁.identifiers := by
    refine List.foldlRecOn (motive := fun s' : Collection => s'.identifiers = s₁.identifiers) _ _
      rfl
      fun s' h c _ => ?_
    unfold mergeChapter
    split <;> exact h
  have htitled : ∀ u, s₁.Titled P u → (l.foldl (mergeChapter target) s₁).Titled P u :=
    fun u hu => by rwa [Titled, htables.series]
  refine moveSeries_homes ⟨?_, ?_, ?_, ?_, ?_, ?_⟩ hne (htitled target ?_) ?_
  · rw [htables.identities]
    exact h₁.keyed
  · rw [htables.series]
    exact h₁.series
  · rw [htables.identities]
    exact h₁.one
  · rw [htables.identities]
    exact fun i hi => htitled _ (h₁.identity i hi)
  · rw [hids]
    exact fun x hx => htitled _ (h₁.identifier x hx)
  · rw [hids]
    exact h₁.place
  · rw [Titled, hseries, ← hlu]
    exact hs.identity _ hleft
  · rw [sharedSources, sourcesOf, sourcesOf, identitiesOf_congr htables.identities,
      identitiesOf_congr htables.identities]
    exact hshared

/-! ## All rounds -/

theorem foldlM_mergeInto_homes {sources : List Nat} (hs : s.Homes P) (ht : target ∉ sources)
    (h : sources.foldlM (mergeInto t target) s = .ok s') : s'.Homes P ∧ Rewritten s s' := by
  induction sources generalizing s with
  | nil =>
    cases h
    exact ⟨hs, .refl⟩
  | cons source sources ih =>
    obtain ⟨s₁, h₁, hrest⟩ := foldlM_cons_eq_ok.mp h
    rw [List.mem_cons, not_or] at ht
    obtain ⟨hs', hrew⟩ := ih (mergeInto_homes hs ht.1 h₁) ht.2 hrest
    exact ⟨hs', (mergeInto_rewritten hs.keyed ht.1 h₁).trans hrew⟩

theorem withStatus_homes {row : CatalogSeries} {rows : List CatalogSeries} (hs : s.Homes P)
    (hrow : row ∈ s.series) : (s.withStatus row rows).Homes P := by
  have htitled : ∀ u, s.Titled P u → (s.withStatus row rows).Titled P u :=
    fun u hu => Table.exists_mem_put hs.series hrow rfl id hu
  exact ⟨hs.keyed, Table.keyed_put.mpr hs.series, hs.one, fun i hi => htitled _ (hs.identity i hi),
    fun x hx => htitled _ (hs.identifier x hx), hs.place⟩

/-- `merge_canonical_series` writes no text that was not there. -/
theorem mergeCanonicalSeries_rewritten {ids : List Nat} {now : Time} (hs : s.Homes P)
    (h : s.mergeCanonicalSeries t ids now = .ok (s', target)) : s'.Homes P ∧ Rewritten s s' := by
  obtain ⟨row, s₁, queue, created, hrow, rfl, hfold, -, rfl⟩ := mergeCanonicalSeries_ok h
  have hno : row.id ∉ ((s.selectedSeries ids).filter (·.id != row.id)).map (·.id) := by
    intro hm
    obtain ⟨x, hx, he⟩ := List.mem_map.mp hm
    simpa [he] using (List.mem_filter.mp hx).2
  have hrowMem := (mem_selectedSeries.mp (List.argmax_mem hrow)).1
  obtain ⟨hs', hrew⟩ := foldlM_mergeInto_homes (withStatus_homes hs hrowMem) hno hfold
  have hstatus : Rewritten s (s.withStatus row (s.selectedSeries ids)) := by
    obtain ⟨-, h₁, h₂, h₃, h₄, h₅⟩ := @Rewritten.refl s
    refine ⟨fun u hu => ?_, h₁, h₂, h₃, h₄, h₅⟩
    rcases Table.mem_put.mp hu with ⟨rfl, -⟩ | ⟨hu, -⟩
    · exact ⟨row, hrowMem, rfl⟩
    · exact ⟨u, hu, rfl⟩
  replace hrew := hstatus.trans hrew
  exact ⟨⟨hs'.keyed, hs'.series, hs'.one, hs'.identity, hs'.identifier, hs'.place⟩,
    ⟨hrew.series, hrew.identities, hrew.aliases, hrew.identifiers, hrew.alternates, hrew.chapters⟩⟩

end Collection

end MangaManager
