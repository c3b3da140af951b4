import MangaManager.Portable.Exportable

/-!
# What ingest and a merge keep exportable

`merge_canonical_series` keeps `Exportable`. `ingest` does when what the provider says passes the
checks itself, and the id that it stores is split no further: `IngestCall.Portable`.
-/

namespace MangaManager

open Lib JobPayload

/-- The id that the row of the item gets. -/
def Shelf.storedId (item : SeriesItem) : String :=
  if item.source = "asura" then normalizedIdentity item else item.sourceId

/-- What a snapshot could hold. -/
structure IngestCall.Portable (t : PortableText) (call : IngestCall) : Prop where
  source : call.item.source ∈ providerNames
  sourceId : lengthIn 1 500 call.item.sourceId = true
  storedId : lengthIn 1 500 (Shelf.storedId call.item) = true
  normal : portableIdentity call.item.source (Shelf.storedId call.item) =
    Shelf.normalizedIdentity call.item
  title : IsPortableTitle call.item.title
  url : lengthIn 1 4096 call.item.url = true
  http : isHttpUrl t call.item.url = true
  revision : lengthIn 0 20 call.item.revisionOverride = true
  aliases : ∀ value ∈ call.item.aliases, t.normalizeTitle value ≠ "" → lengthIn 1 500 value = true
  externalIds : ∀ e ∈ call.item.externalIds, e.1 ≠ "" → e.2 ≠ "" →
    lengthIn 1 50 e.1 = true ∧ lengthIn 1 200 e.2 = true
  chapters : ∀ c ∈ call.chapters, (t.canonicalChapterNumber c.number).length ≤ 100

theorem CatalogSourceSeries.Portable.texts {t : PortableText} {i j : CatalogSourceSeries}
    (h : i.Portable t) (hsame : SameTexts i j) : j.Portable t := by
  have hlisting := hsame.listing
  simp only [CatalogSourceSeries.listing, ProviderIdentity.mk.injEq] at hlisting
  obtain ⟨hsource, hid, hurl⟩ := hlisting
  obtain ⟨h₁, h₂, h₃, h₄, h₅, h₆⟩ := h
  exact ⟨by rwa [hsource, hid], by rwa [hsame.title], by rwa [hurl], by rwa [hurl],
    by rwa [hsame.revisionOverride], by rwa [hsame.normalizedSourceId, hsource, hid]⟩

namespace Shelf

variable {t : PortableText} {s s' : Shelf} {call : IngestCall} {i : CatalogSourceSeries}
  {listing : Option CatalogAlternateSourceListing}

/-! ## Other tables -/

def seriesTitle (u : CatalogSeries) : Nat × String := (u.id, u.title)

theorem seriesTitle_eq {u v : CatalogSeries} : seriesTitle u = seriesTitle v ↔
    u.id = v.id ∧ u.title = v.title := Prod.mk_inj

/-- A call that writes what no check of a snapshot looks at. -/
structure Elsewhere (s s' : Shelf) : Prop where
  identities : s'.identities = s.identities
  nextIdentity : s'.nextIdentity = s.nextIdentity
  titles : s'.series.map seriesTitle = s.series.map seriesTitle
  nextSeries : s'.nextSeries = s.nextSeries
  identifiers : s'.identifiers = s.identifiers
  nextIdentifier : s'.nextIdentifier = s.nextIdentifier
  aliases : s'.aliases = s.aliases
  alternates : s'.alternates = s.alternates
  chapters : s'.chapters = s.chapters
  decisions : s'.decisions.map (fun d => (d.leftSourceSeriesId, d.rightSourceSeriesId)) =
    s.decisions.map fun d => (d.leftSourceSeriesId, d.rightSourceSeriesId)

theorem Elsewhere.refl : Elsewhere s s := ⟨rfl, rfl, rfl, rfl, rfl, rfl, rfl, rfl, rfl, rfl⟩

theorem Elsewhere.trans {s₁ : Shelf} (h : Elsewhere s s₁) (h' : Elsewhere s₁ s') : Elsewhere s s' :=
  ⟨h'.identities.trans h.identities, h'.nextIdentity.trans h.nextIdentity,
    h'.titles.trans h.titles, h'.nextSeries.trans h.nextSeries,
    h'.identifiers.trans h.identifiers, h'.nextIdentifier.trans h.nextIdentifier,
    h'.aliases.trans h.aliases, h'.alternates.trans h.alternates, h'.chapters.trans h.chapters,
    h'.decisions.trans h.decisions⟩

theorem Elsewhere.keyed (h : Elsewhere s s') (hk : Table.Keyed CatalogSeries.id s.series) :
    Table.Keyed CatalogSeries.id s'.series := by
  have hids := congrArg (List.map Prod.fst) h.titles
  rw [List.map_map, List.map_map] at hids
  exact (congrArg List.Nodup hids).mpr hk

theorem map_seriesTitle {rows : List CatalogSeries} {g : CatalogSeries → CatalogSeries}
    (hg : ∀ u, seriesTitle (g u) = seriesTitle u) :
    (rows.map g).map seriesTitle = rows.map seriesTitle := by
  rw [List.map_map]
  exact List.map_congr_left fun u _ => hg u

theorem Exportable.elsewhere (hs : s.Exportable t) (h : Elsewhere s s') : s'.Exportable t := by
  have hseries : ∀ u' ∈ s'.series, ∃ u ∈ s.series, seriesTitle u = seriesTitle u' := by
    intro u' hu'
    have hm : seriesTitle u' ∈ s.series.map seriesTitle := h.titles ▸ List.mem_map_of_mem hu'
    exact List.mem_map.mp hm
  have htitled : ∀ u, s.Titled IsPortableTitle u → s'.Titled IsPortableTitle u := by
    rintro u ⟨row, hrow, hid, hP⟩
    have hm : seriesTitle row ∈ s'.series.map seriesTitle := h.titles ▸ List.mem_map_of_mem hrow
    obtain ⟨row', hrow', he⟩ := List.mem_map.mp hm
    obtain ⟨hid', htitle⟩ := seriesTitle_eq.mp he
    exact ⟨row', hrow', hid'.trans hid, htitle ▸ hP⟩
  refine ⟨⟨h.identities ▸ hs.homes.keyed, h.keyed hs.homes.series, h.identities ▸ hs.homes.one,
    fun i hi => ?_, fun x hx => ?_, h.identifiers ▸ hs.homes.place⟩, fun i hi => ?_, fun u hu => ?_,
    ?_, ?_, ?_, ?_, ?_, ?_, ?_, fun d hd => ?_⟩
  · exact htitled _ (hs.homes.identity i (h.identities ▸ hi))
  · exact htitled _ (hs.homes.identifier x (h.identifiers ▸ hx))
  · rw [h.nextIdentity]
    exact hs.newIdentity i (h.identities ▸ hi)
  · obtain ⟨v, hv, he⟩ := hseries u hu
    rw [h.nextSeries, ← (seriesTitle_eq.mp he).1]
    exact hs.newSeries v hv
  · rw [h.identifiers, h.nextIdentifier]
    exact hs.identifiersOk
  · exact h.identities ▸ hs.identity
  · exact h.identities ▸ hs.keys
  · exact h.identifiers ▸ hs.identifier
  · exact h.aliases ▸ hs.displayed
  · exact h.alternates ▸ hs.alternate
  · exact h.chapters ▸ hs.chapter
  · have hm : (d.leftSourceSeriesId, d.rightSourceSeriesId) ∈
        s.decisions.map fun d => (d.leftSourceSeriesId, d.rightSourceSeriesId) :=
      h.decisions ▸ List.mem_map_of_mem hd
    obtain ⟨d₀, hd₀, he⟩ := List.mem_map.mp hm
    obtain ⟨hleft, hright⟩ := Prod.mk.inj he
    rw [← hleft, ← hright]
    exact hs.decision d₀ hd₀

/-- A new series, which no identity is in yet. -/
theorem Exportable.withSeries (hs : s.Exportable t) {row : CatalogSeries}
    (hrow : row.id = s.nextSeries) :
    ({ s with
      series := s.series ++ [row], nextSeries := s.nextSeries + 1 } : Shelf).Exportable t := by
  have hkept : ∀ u, s.Titled IsPortableTitle u →
      ∃ row' ∈ s.series ++ [row], row'.id = u ∧ IsPortableTitle row'.title := by
    rintro u ⟨row', hrow', hid, hP⟩
    exact ⟨row', List.mem_append_left _ hrow', hid, hP⟩
  refine ⟨⟨hs.homes.keyed, ?_, hs.homes.one, fun i hi => hkept _ (hs.homes.identity i hi),
    fun x hx => hkept _ (hs.homes.identifier x hx), hs.homes.place⟩, hs.newIdentity,
    fresh_append hs.newSeries hrow, hs.identifiersOk, hs.identity, hs.keys, hs.identifier,
    hs.displayed, hs.alternate, hs.chapter, hs.decision⟩
  exact Table.keyed_append.mpr ⟨hs.homes.series, fun u hu => hrow ▸ (hs.newSeries u hu).ne⟩

/-- Decisions that join two identities each. -/
theorem Exportable.withDecisions (hs : s.Exportable t) {decisions : List CatalogMatchDecision}
    (next : Nat) (hd : ∀ d ∈ decisions, d.leftSourceSeriesId ≠ d.rightSourceSeriesId) :
    ({ s with decisions := decisions, nextDecision := next } : Shelf).Exportable t :=
  ⟨hs.homes.of_tables rfl rfl (fun _ => ⟨rfl, rfl⟩) (List.map_id _).symm, hs.newIdentity,
    hs.newSeries, hs.identifiersOk, hs.identity, hs.keys, hs.identifier, hs.displayed, hs.alternate,
    hs.chapter, hd⟩

/-! ## A merge -/

theorem Exportable.merge {ids : List Nat} {now : Time} {c : Collection} {target : Nat}
    (hs : s.Exportable t)
    (h : s.mergeCanonicalSeries t.toTextLib ids now = .ok (c, target)) :
    ({ s with toCollection := c } : Shelf).Exportable t := by
  obtain ⟨hhomes, hrew⟩ := Collection.mergeCanonicalSeries_rewritten hs.homes h
  obtain ⟨sources, -, -, hreunited⟩ :=
    Collection.mergeCanonicalSeries_reunited hs.homes.keyed h
  have hkey : ∀ {i j : CatalogSourceSeries}, SameTexts i j → j.identityKey = i.identityKey := by
    intro i j hsame
    have hlisting := hsame.listing
    simp only [CatalogSourceSeries.listing, ProviderIdentity.mk.injEq] at hlisting
    rw [CatalogSourceSeries.identityKey, hlisting.1, hlisting.2.1]
    rfl
  have hidentifier : ∀ x ∈ c.identifiers, ∃ y ∈ s.identifiers,
      Collection.identifierTexts y = Collection.identifierTexts x := fun x hx =>
    List.mem_map.mp (hrew.identifiers.subset (List.mem_map_of_mem hx))
  refine ⟨hhomes, fun j hj => ?_, fun u hu => ?_, ⟨?_, fun x hx => ?_, ?_, hhomes.place⟩,
    fun j hj => ?_, fun i hi j hj he => ?_, fun x hx => ?_, fun a ha => ?_, fun a ha => ?_,
    fun x hx => ?_, fun d hd => ?_⟩
  · obtain ⟨i, hi, hsame⟩ := hrew.identities j hj
    rw [hsame.id]
    exact hs.newIdentity i hi
  · obtain ⟨v, hv, he⟩ := hrew.series u hu
    rw [← he]
    exact hs.newSeries v hv
  · have hsub := hrew.identifiers.map Prod.fst
    rw [List.map_map, List.map_map] at hsub
    exact List.Nodup.sublist hsub hs.identifiersOk.keyed
  · obtain ⟨y, hy, he⟩ := hidentifier x hx
    have hid : y.id = x.id := congrArg Prod.fst he
    rw [← hid]
    exact hs.identifiersOk.fresh y hy
  · have hsub := hrew.identifiers.map Prod.snd
    rw [List.map_map, List.map_map] at hsub
    exact List.Nodup.sublist hsub hs.identifiersOk.providerValue
  · obtain ⟨i, hi, hsame⟩ := hrew.identities j hj
    exact (hs.identity i hi).texts hsame
  · obtain ⟨i₀, hi₀, hsi⟩ := hrew.identities i hi
    obtain ⟨j₀, hj₀, hsj⟩ := hrew.identities j hj
    rw [hkey hsi, hkey hsj] at he
    refine hhomes.keyed.eq hi hj ?_
    rw [hsi.id, hsj.id, hs.keys i₀ hi₀ j₀ hj₀ he]
  · obtain ⟨y, hy, he⟩ := hidentifier x hx
    obtain ⟨-, hprovider, hvalue⟩ : y.id = x.id ∧ y.provider = x.provider ∧ y.value = x.value := by
      simpa [Collection.identifierTexts] using he
    rw [← hprovider, ← hvalue]
    exact hs.identifier y hy
  · obtain ⟨b, hb, he⟩ := hrew.aliases a ha
    rw [← he]
    exact hs.displayed b hb
  · rcases hrew.alternates a ha with ⟨b, hb, hid, htitle, hurl⟩ | ⟨i, hi, hid, htitle, hurl⟩
    · rw [CatalogAlternateSourceListing.portable, hid, htitle, hurl]
      exact hs.alternate b hb
    · obtain ⟨href, hle, hlen, hhttp, -, -⟩ := hs.identity i hi
      rw [CatalogAlternateSourceListing.portable, hid, htitle, hurl]
      simp only [PortableIdentityRef.validate, Bool.and_eq_true] at href
      simp only [lengthIn, Bool.and_eq_true, decide_eq_true_eq] at hlen
      simp only [PortableAlternate.validate, Bool.and_eq_true, Bool.or_eq_true]
      refine ⟨⟨⟨href.1.2, ?_⟩, ?_⟩, .inr hhttp⟩
      · simp [lengthIn, hle]
      · simp [lengthIn, hlen.2]
  · obtain ⟨d, hd, he⟩ := hrew.chapters x hx
    rw [← he]
    exact hs.chapter d hd
  · exact hs.decision d ((hreunited.decisions d).mp hd).1

/-! ## The identity of an item -/

/-- The row of the item has the key that the item has. -/
theorem isIdentity_key (hn : i.normalizedSourceId = portableIdentity i.source i.sourceId)
    (h : isIdentity call.item i = true) :
    i.identityKey = (call.item.source, normalizedIdentity call.item) := by
  simp only [isIdentity, Bool.and_eq_true, Bool.or_eq_true, beq_iff_eq] at h
  obtain ⟨hsource, hid⟩ := h
  rw [CatalogSourceSeries.identityKey, ← hn]
  rcases hid with hid | hid
  · rw [hsource, hid]
  · rw [hn, hsource, hid]
    rfl

theorem IngestCall.Portable.ref (hc : call.Portable t) {id : String}
    (hid : lengthIn 1 500 id = true) :
    (⟨call.item.source, id⟩ : PortableIdentityRef).validate = true := by
  have hfield : ∀ source ∈ providerNames, isSourceField source = true := by decide
  simp only [PortableIdentityRef.validate, Bool.and_eq_true, decide_eq_true_eq]
  exact ⟨⟨hfield _ hc.source, hid⟩, hc.source⟩

theorem IngestCall.Portable.listed (hc : call.Portable t) {id : String}
    (hid : lengthIn 1 500 id = true) :
    (⟨id, call.item.title, call.item.url⟩ : PortableAlternate).validate t = true := by
  have htitle := hc.title
  have hurl := hc.url
  simp only [IsPortableTitle, lengthIn, Bool.and_eq_true, decide_eq_true_eq] at htitle hurl
  simp only [PortableAlternate.validate, Bool.and_eq_true, Bool.or_eq_true]
  refine ⟨⟨⟨hid, ?_⟩, ?_⟩, .inr hc.http⟩
  · simp [lengthIn, htitle.2]
  · simp [lengthIn, hurl.2]

theorem Exportable.addSeries (hs : s.Exportable t) (hc : call.Portable t) (key : String) :
    (s.addSeries t.toCatalogText call.item key).1.Exportable t ∧
      (s.addSeries t.toCatalogText call.item key).1.Titled IsPortableTitle
        (s.addSeries t.toCatalogText call.item key).2 ∧
      ∀ i ∈ s.identities, i.seriesId = (s.addSeries t.toCatalogText call.item key).2 →
        i.source ≠ call.item.source := by
  unfold Shelf.addSeries
  split
  · rename_i u hu
    obtain ⟨⟨provider, value⟩, -, hfound⟩ := List.exists_of_findSome?_eq_some hu
    obtain ⟨x, hx, hseries⟩ := Option.bind_eq_some_iff.mp hfound
    split at hseries
    · cases hseries
    · rename_i hnone
      cases hseries
      refine ⟨hs, hs.homes.identifier x (List.mem_of_find?_eq_some hx), fun i hi hiu hsource => ?_⟩
      exact hnone (List.any_eq_true.mpr ⟨i, hi, by simp [hiu, hsource]⟩)
  · refine ⟨hs.withSeries rfl,
      ⟨_, List.mem_append_right _ (List.mem_singleton_self _), rfl, hc.title⟩, fun i hi hiu => ?_⟩
    obtain ⟨row, hrow, hid, -⟩ := hs.homes.identity i hi
    exact absurd (hid.trans hiu) (hs.newSeries row hrow).ne

/-- A new identity that no row has the key of. -/
theorem Exportable.addIdentity (hs : s.Exportable t) (hc : call.Portable t) (key : String)
    (hnone : s.identities.find? (isIdentity call.item) = none) :
    (s.addIdentity t.toCatalogText call.item key).1.Exportable t := by
  obtain ⟨h₁, htitled, hfree⟩ := hs.addSeries hc key
  obtain ⟨hids, hnext, -, -⟩ := addSeries_same (t := t.toCatalogText) (s := s) call.item key
  unfold Shelf.addIdentity
  rcases hadd : s.addSeries t.toCatalogText call.item key with ⟨s₁, seriesId⟩
  rw [hadd] at h₁ htitled hfree hids hnext
  dsimp only at h₁ htitled hfree hids hnext ⊢
  rw [← hids] at hfree hnone
  have hnormal : portableIdentity call.item.source call.item.sourceId =
      normalizedIdentity call.item := rfl
  have hnew : ∀ i ∈ s₁.identities,
      i.identityKey ≠ (call.item.source, normalizedIdentity call.item) := by
    intro i hi he
    have hno := List.find?_eq_none.mp hnone i hi
    have hkey := Prod.mk.inj he
    rw [← (h₁.identity i hi).normalized] at hkey
    simp [isIdentity, hkey.1, hkey.2] at hno
  refine ⟨⟨?_, h₁.homes.series, ?_, ?_, h₁.homes.identifier, h₁.homes.place⟩, ?_, h₁.newSeries,
    h₁.identifiersOk, ?_, ?_, h₁.identifier, h₁.displayed, h₁.alternate, h₁.chapter, ?_⟩
  · exact Table.keyed_append.mpr ⟨h₁.homes.keyed, fun i hi => (h₁.newIdentity i hi).ne⟩
  · intro i hi j hj hu hsource
    rcases List.mem_append.mp hi with hi | hi <;> rcases List.mem_append.mp hj with hj | hj
    · exact h₁.homes.one i hi j hj hu hsource
    · obtain rfl := List.mem_singleton.mp hj
      exact absurd hsource (hfree i hi hu)
    · obtain rfl := List.mem_singleton.mp hi
      exact absurd hsource.symm (hfree j hj hu.symm)
    · rw [List.mem_singleton.mp hi, List.mem_singleton.mp hj]
  · intro i hi
    rcases List.mem_append.mp hi with hi | hi
    · exact h₁.homes.identity i hi
    · obtain rfl := List.mem_singleton.mp hi
      exact htitled
  · exact fresh_append h₁.newIdentity rfl
  · intro i hi
    rcases List.mem_append.mp hi with hi | hi
    · exact h₁.identity i hi
    · obtain rfl := List.mem_singleton.mp hi
      have hle := hc.title
      simp only [IsPortableTitle, lengthIn, Bool.and_eq_true, decide_eq_true_eq] at hle
      refine ⟨IngestCall.Portable.ref hc hc.sourceId, hle.2, hc.url, hc.http, ?_, hnormal.symm⟩
      dsimp only
      split
      · exact hc.revision
      · rfl
  · intro i hi j hj he
    rcases List.mem_append.mp hi with hi | hi <;> rcases List.mem_append.mp hj with hj | hj
    · exact h₁.keys i hi j hj he
    · obtain rfl := List.mem_singleton.mp hj
      exact absurd he (hnew i hi)
    · obtain rfl := List.mem_singleton.mp hi
      exact absurd he.symm (hnew j hj)
    · rw [List.mem_singleton.mp hi, List.mem_singleton.mp hj]
  · intro d hd
    rcases List.mem_append.mp hd with hd | hd
    · exact h₁.decision d hd
    · obtain ⟨⟨c, n⟩, hcn, rfl⟩ := List.mem_map.mp hd
      have hmem := (List.mem_filter.mp (List.fst_mem_of_mem_zipIdx hcn)).1
      rw [List.mem_insertionSort, List.mem_filter] at hmem
      simp only [Bool.and_eq_true, bne_iff_ne] at hmem
      have hne := hmem.2.1.1
      dsimp only at hne ⊢
      omega

/-- Found or made, the identity is one that can be exported. -/
theorem Exportable.target (hs : s.Exportable t) (hc : call.Portable t) :
    (s.target t.toCatalogText call).1.Exportable t := by
  unfold Shelf.target
  split
  · exact hs
  · exact hs
  · rename_i i e hi
    show (s.addListing call.item i e).1.Exportable t
    refine ⟨hs.homes.of_tables rfl rfl (fun _ => ⟨rfl, rfl⟩) (List.map_id _).symm, hs.newIdentity,
      hs.newSeries, hs.identifiersOk, hs.identity, hs.keys, hs.identifier, hs.displayed,
      fun a ha => ?_, hs.chapter, hs.decision⟩
    rcases List.mem_append.mp ha with ha | ha
    · exact hs.alternate a ha
    · obtain rfl := List.mem_singleton.mp ha
      exact IngestCall.Portable.listed hc hc.sourceId
  · rename_i hi
    show (s.addIdentity t.toCatalogText call.item call.storageKey).1.Exportable t
    refine hs.addIdentity hc _ ?_
    unfold locate at hi
    split at hi
    · cases hi
    · rename_i hnone
      exact hnone

/-! ## What the item says -/

theorem observed_portable (hs : s.Exportable t) (hc : call.Portable t)
    (hf : Found call.item s i listing) :
    (observed t.toCatalogText i call.item listing.isSome).Portable t ∧
      (observed t.toCatalogText i call.item listing.isSome).identityKey = i.identityKey := by
  have hi := hs.identity i hf.mem
  have hrevision : lengthIn 0 20 (if call.item.source = "asura" then call.item.revisionOverride
      else i.revisionOverride) = true := by
    split
    · exact hc.revision
    · exact hi.revision
  cases listing with
  | some a => exact ⟨⟨hi.ref, hi.title, hi.url, hi.http, hrevision, hi.normalized⟩, rfl⟩
  | none =>
    have his := List.find?_some hf
    have hkey := isIdentity_key hi.normalized his
    have hsource : i.source = call.item.source := congrArg Prod.fst hkey
    have hle := hc.title
    simp only [IsPortableTitle, lengthIn, Bool.and_eq_true, decide_eq_true_eq] at hle
    have hnormal :
        portableIdentity i.source (storedId call.item) = normalizedIdentity call.item := by
      rw [hsource]
      exact hc.normal
    refine ⟨⟨?_, hle.2, hc.url, hc.http, hrevision, hnormal.symm⟩, ?_⟩
    · rw [observed, if_neg (by decide)]
      dsimp only
      rw [hsource]
      exact IngestCall.Portable.ref hc hc.storedId
    · rw [hkey]
      exact Prod.ext hsource hnormal

theorem Exportable.describe (hs : s.Exportable t) (hc : call.Portable t)
    (hf : Found call.item s i listing) :
    (s.describe t.toCatalogText call i listing).Exportable t := by
  obtain ⟨hid, hseries, hsource⟩ := observed_same t.toCatalogText i call.item listing.isSome
  obtain ⟨hp, hkey⟩ := observed_portable hs hc hf
  have hids : (s.describe t.toCatalogText call i listing).identities =
      Table.put CatalogSourceSeries.id s.identities
        (observed t.toCatalogText i call.item listing.isSome) := rfl
  generalize observed t.toCatalogText i call.item listing.isSome = o
    at hid hseries hsource hp hkey hids
  -- each row stands where a row with its key stood
  have hrow : ∀ x ∈ Table.put CatalogSourceSeries.id s.identities o, ∃ y ∈ s.identities,
      x.id = y.id ∧ x.seriesId = y.seriesId ∧ x.source = y.source ∧
        x.identityKey = y.identityKey ∧ x.Portable t := by
    intro x hx
    rcases Table.mem_put.mp hx with ⟨rfl, -⟩ | ⟨hx, -⟩
    · exact ⟨i, hf.mem, hid, hseries, hsource, hkey, hp⟩
    · exact ⟨x, hx, rfl, rfl, rfl, rfl, hs.identity x hx⟩
  have hkeyed : Table.Keyed CatalogSourceSeries.id
      (Table.put CatalogSourceSeries.id s.identities o) := Table.keyed_put.mpr hs.homes.keyed
  have hg : ∀ u : CatalogSeries, (if u.id = i.seriesId then
      { u with
        description := orText u.description call.item.description
        coverUrl := orText u.coverUrl call.item.coverUrl } else u).id = u.id ∧
      (if u.id = i.seriesId then
      { u with
        description := orText u.description call.item.description
        coverUrl := orText u.coverUrl call.item.coverUrl } else u).title = u.title := by
    intro u
    split <;> exact ⟨rfl, rfl⟩
  have hhomes : Collection.Homes IsPortableTitle
      (s.describe t.toCatalogText call i listing).toCollection := by
    refine ⟨?_, ?_, fun x hx y hy hu hsrc => ?_, fun x hx => ?_, fun x hx => ?_, hs.homes.place⟩
    · rw [hids]
      exact hkeyed
    · exact hs.homes.series.map fun x _ y _ he => (hg x).1.symm.trans (he.trans (hg y).1)
    · rw [hids] at hx hy
      obtain ⟨x₀, hx₀, hxid, hxu, hxs, -⟩ := hrow x hx
      obtain ⟨y₀, hy₀, hyid, hyu, hys, -⟩ := hrow y hy
      refine hkeyed.eq hx hy ?_
      rw [hxid, hyid, hs.homes.one x₀ hx₀ y₀ hy₀ (hxu.symm.trans (hu.trans hyu))
        (hxs.symm.trans (hsrc.trans hys))]
    · rw [hids] at hx
      obtain ⟨x₀, hx₀, -, hxu, -⟩ := hrow x hx
      rw [hxu]
      exact Collection.titled_map hg rfl (hs.homes.identity x₀ hx₀)
    · exact Collection.titled_map hg rfl (hs.homes.identifier x hx)
  refine ⟨hhomes, fun x hx => ?_, fun u hu => ?_, hs.identifiersOk, fun x hx => ?_,
    fun x hx y hy he => ?_, hs.identifier, hs.displayed, fun a ha => ?_, hs.chapter, hs.decision⟩
  · rw [hids] at hx
    obtain ⟨x₀, hx₀, hxid, -⟩ := hrow x hx
    rw [hxid]
    exact hs.newIdentity x₀ hx₀
  · obtain ⟨v, hv, rfl⟩ := List.mem_map.mp hu
    rw [(hg v).1]
    exact hs.newSeries v hv
  · rw [hids] at hx
    obtain ⟨-, -, -, -, -, -, hx⟩ := hrow x hx
    exact hx
  · rw [hids] at hx hy
    obtain ⟨x₀, hx₀, hxid, -, -, hxk, -⟩ := hrow x hx
    obtain ⟨y₀, hy₀, hyid, -, -, hyk, -⟩ := hrow y hy
    refine hkeyed.eq hx hy ?_
    rw [hxid, hyid, hs.keys x₀ hx₀ y₀ hy₀ (hxk.symm.trans (he.trans hyk))]
  · cases listing with
    | none => exact hs.alternate a ha
    | some b =>
      rcases Table.mem_put.mp ha with ⟨rfl, -⟩ | ⟨ha, -⟩
      · have hb := hs.alternate b (List.mem_of_find?_eq_some hf.2.2.1)
        simp only [PortableAlternate.validate, Bool.and_eq_true] at hb
        exact IngestCall.Portable.listed hc hb.1.1.1
      · exact hs.alternate a ha

/-! ## The rows that hang on the identity -/

theorem Exportable.syncAliases (hs : s.Exportable t) (seriesId identityId : Nat)
    {values : List String}
    (hv : ∀ value ∈ values, t.normalizeTitle value ≠ "" → lengthIn 1 500 value = true) :
    (s.syncAliases t.toCatalogText seriesId identityId values).Exportable t := by
  have hfirst : ∀ (values seen : List String), ∀ e ∈ firstValues t.toCatalogText seen values,
      e.2 ∈ values ∧ t.normalizeTitle e.2 ≠ "" := by
    intro values
    induction values with
    | nil => simp [firstValues]
    | cons value values ih =>
      intro seen e he
      unfold firstValues at he
      dsimp only at he
      split at he
      · obtain ⟨hm, hne⟩ := ih seen e he
        exact ⟨List.mem_cons_of_mem _ hm, hne⟩
      · rename_i hnew
        rcases List.mem_cons.mp he with rfl | he
        · exact ⟨List.mem_cons_self, fun h => hnew (.inl h)⟩
        · obtain ⟨hm, hne⟩ := ih _ e he
          exact ⟨List.mem_cons_of_mem _ hm, hne⟩
  refine ⟨hs.homes.of_tables rfl rfl (fun _ => ⟨rfl, rfl⟩) (List.map_id _).symm, hs.newIdentity,
    hs.newSeries, hs.identifiersOk, hs.identity, hs.keys, hs.identifier, fun a ha => ?_,
    hs.alternate,
    hs.chapter, hs.decision⟩
  rcases List.mem_append.mp ha with ha | ha
  · exact hs.displayed a (List.mem_filter.mp ha).1
  · obtain ⟨⟨e, n⟩, hen, rfl⟩ := List.mem_map.mp ha
    have hmem := (List.mem_filter.mp (List.fst_mem_of_mem_zipIdx hen)).1
    obtain ⟨hm, hne⟩ := hfirst _ _ e hmem
    exact hv e.2 hm hne

theorem Exportable.syncExternalIds (hs : s.Exportable t) {seriesId : Nat} (identityId : Nat)
    (hu : s.Titled IsPortableTitle seriesId) {externalIds : List (String × String)}
    (he : ∀ e ∈ externalIds, e.1 ≠ "" → e.2 ≠ "" →
      lengthIn 1 50 e.1 = true ∧ lengthIn 1 200 e.2 = true) :
    (s.syncExternalIds seriesId identityId externalIds).Exportable t := by
  have hall := List.foldlRecOn (motive := fun acc : List CatalogExternalIdentifier × Nat =>
      IdentifiersOk acc ∧ ∀ x ∈ acc.1, (lengthIn 1 50 x.provider = true ∧
        lengthIn 1 200 x.value = true) ∧ s.Titled IsPortableTitle x.seriesId) externalIds
    (syncExternalId seriesId identityId) (b := (s.identifiers, s.nextIdentifier))
    ⟨hs.identifiersOk, fun x hx => ⟨hs.identifier x hx, hs.homes.identifier x hx⟩⟩
    fun acc hacc entry hentry => ⟨syncExternalId_ok hacc.1, ?_⟩
  · obtain ⟨hok, hrows⟩ := hall
    refine ⟨⟨hs.homes.keyed, hs.homes.series, hs.homes.one, hs.homes.identity,
      fun x hx => (hrows x hx).2, hok.identityProvider⟩, hs.newIdentity, hs.newSeries, hok,
      hs.identity,
      hs.keys, fun x hx => (hrows x hx).1, hs.displayed, hs.alternate, hs.chapter, hs.decision⟩
  · rcases syncExternalId_cases hacc.1 seriesId identityId entry with
      ⟨-, heq⟩ | ⟨hnew, own, hown, -, hprovider, heq⟩ | ⟨hnew, -, heq⟩ <;> rw [heq]
    · exact hacc.2
    · intro x hx
      have hlen := he entry hentry (fun h => hnew (.inl (.inl h))) fun h => hnew (.inl (.inr h))
      rcases Table.mem_put.mp hx with ⟨rfl, -⟩ | ⟨hx, -⟩
      · exact ⟨⟨(hacc.2 own hown).1.1, hlen.2⟩, (hacc.2 own hown).2⟩
      · exact hacc.2 x hx
    · intro x hx
      have hlen := he entry hentry (fun h => hnew (.inl (.inl h))) fun h => hnew (.inl (.inr h))
      rcases List.mem_append.mp hx with hx | hx
      · exact hacc.2 x hx
      · obtain rfl := List.mem_singleton.mp hx
        exact ⟨hlen, hu⟩

/-- The numbers of the items, but for those without one. -/
theorem mem_byNumber {t : CatalogText} {items : List ChapterItem} :
    ∀ row ∈ byNumber t items, row.1 ≠ "" ∧
      ∃ c ∈ items, t.canonicalChapterNumber c.number = row.1 := by
  refine List.foldlRecOn (motive := fun rows : List (String × ChapterItem) => ∀ row ∈ rows,
    row.1 ≠ "" ∧ ∃ c ∈ items, t.canonicalChapterNumber c.number = row.1) items _ (by simp) ?_
  intro rows hrows item hitem row hrow
  dsimp only at hrow
  split at hrow
  · exact hrows row hrow
  · rename_i hne
    split at hrow
    · obtain ⟨r, hr, rfl⟩ := List.mem_map.mp hrow
      split
      · exact ⟨hne, item, hitem, rfl⟩
      · exact hrows r hr
    · rcases List.mem_append.mp hrow with hrow | hrow
      · exact hrows row hrow
      · obtain rfl := List.mem_singleton.mp hrow
        exact ⟨hne, item, hitem, rfl⟩

theorem Exportable.upsertChapters (hs : s.Exportable t) (seriesId identityId : Nat) (now : Time)
    {items : List ChapterItem}
    (hlen : ∀ c ∈ items, (t.canonicalChapterNumber c.number).length ≤ 100) :
    (s.upsertChapters t.toCatalogText seriesId identityId items now).Exportable t := by
  refine ⟨hs.homes.of_tables rfl rfl (fun _ => ⟨rfl, rfl⟩) (List.map_id _).symm, hs.newIdentity,
    hs.newSeries, hs.identifiersOk, hs.identity, hs.keys, hs.identifier, hs.displayed, hs.alternate,
    ?_, hs.decision⟩
  refine List.foldlRecOn (motive := fun acc : List CatalogChapter × Nat =>
    ∀ c ∈ acc.1, lengthIn 1 100 c.canonicalNumber = true) (byNumber t.toCatalogText items)
    (upsertChapter t.toCatalogText seriesId now) hs.chapter fun acc hacc row hrow c hc => ?_
  obtain ⟨hne, item, hitem, hnumber⟩ := mem_byNumber row hrow
  unfold upsertChapter at hc
  dsimp only at hc
  split at hc
  · obtain ⟨d, hd, rfl⟩ := List.mem_map.mp hc
    split
    · exact hacc d hd
    · exact hacc d hd
  · rcases List.mem_append.mp hc with hc | hc
    · exact hacc c hc
    · obtain rfl := List.mem_singleton.mp hc
      have hle := hlen item hitem
      have hpos : 0 < row.1.length := by
        rw [Nat.pos_iff_ne_zero, ne_eq, String.length_eq_zero_iff]
        exact hne
      rw [hnumber] at hle
      simp only [lengthIn, Bool.and_eq_true, decide_eq_true_eq]
      omega

theorem recomputeLatest_titles (c : Collection) (seriesId : Nat) :
    ∃ g : CatalogSeries → CatalogSeries, (∀ u, seriesTitle (g u) = seriesTitle u) ∧
      c.recomputeLatest seriesId = { c with series := c.series.map g } := by
  unfold Collection.recomputeLatest
  split
  · exact ⟨id, fun u => rfl, by rw [List.map_id]⟩
  · refine ⟨_, fun u => ?_, rfl⟩
    split <;> rfl

theorem Exportable.ingest {id : Nat} (hs : s.Exportable t) (hc : call.Portable t)
    (h : s.ingest t.toCatalogText call = .ok (s', id)) : s'.Exportable t := by
  obtain ⟨-, -, -, rfl⟩ := ingest_inv h
  have hf := target_located s t.toCatalogText call
  have h₁ := (hs.target hc).describe hc hf
  have hu : ((s.target t.toCatalogText call).1.describe t.toCatalogText call
      (s.target t.toCatalogText call).2.1 (s.target t.toCatalogText call).2.2).Titled
        IsPortableTitle (s.target t.toCatalogText call).2.1.seriesId := by
    obtain ⟨hid, hseries, -⟩ := observed_same t.toCatalogText (s.target t.toCatalogText call).2.1
      call.item (s.target t.toCatalogText call).2.2.isSome
    rw [← hseries]
    exact h₁.homes.identity _ (Table.mem_put_self hf.mem hid.symm)
  generalize (s.target t.toCatalogText call).1.describe t.toCatalogText call
    (s.target t.toCatalogText call).2.1 (s.target t.toCatalogText call).2.2 = s₁ at h₁ hu ⊢
  generalize (s.target t.toCatalogText call).2.1 = i at hu ⊢
  have h₂ := h₁.syncAliases i.seriesId i.id hc.aliases
  have h₃ := (h₂.syncExternalIds i.id hu hc.externalIds).upsertChapters i.seriesId i.id call.now
    hc.chapters
  unfold Shelf.sync
  dsimp only
  obtain ⟨g, hg, he⟩ := recomputeLatest_titles (((s₁.syncAliases t.toCatalogText i.seriesId i.id
    call.item.aliases).syncExternalIds i.seriesId i.id call.item.externalIds).upsertChapters
      t.toCatalogText i.seriesId i.id call.chapters call.now).toCollection i.seriesId
  rw [he]
  exact h₃.elsewhere ⟨rfl, rfl, map_seriesTitle hg, rfl, rfl, rfl, rfl, rfl, rfl, rfl⟩

end Shelf

end MangaManager
