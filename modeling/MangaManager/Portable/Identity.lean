import MangaManager.Portable.State

/-!
# The identity of an Asura listing

The adapter, the consensus of `source_pull`, ingest and the portable state each split the id
they are given, which an earlier layer has split already. `asura_normal_iff` says for which
slugs that is harmless.
-/

namespace MangaManager

open Lib

/-- A URL of the Asura host with the path of a slug. -/
def IsAsuraUrl (url : String) (slug : List Char) : Prop :=
  hasAuthority url.toList = true ∧ (urlparse url.toList).netloc = "asurascans.com".toList ∧
    stripSlashes (urlparse url.toList).path = comicsPath slug

/-- The path of a slug, or a URL of it. -/
def NamesAsuraSeries (value : String) (slug : List Char) : Prop :=
  value = String.ofList (comicsPath slug) ∨ IsAsuraUrl value slug

/-- The rooted path `path'` is `path`, up to the case of a revision at its end. -/
def SameButRevisionCase (path path' : List Char) : Prop :=
  ∃ stem revision revision', path = stem ++ revision ∧ path' = '/' :: (stem ++ revision') ∧
    revision.map Char.toLower = revision'.map Char.toLower ∧
      (revision = [] ∨ IsRevision revision)

/-- What a value splits into splits no further, and gives back its path. -/
structure AsuraNormal (value : String) (slug : List Char) : Prop where
  split : splitAsuraSourceId (splitAsuraSourceId value).1 = ((splitAsuraSourceId value).1, "")
  url : SameButRevisionCase (comicsPath slug) (urlparse (asuraSeriesUrl
    (splitAsuraSourceId value).1 (splitAsuraSourceId value).2).toList).path
  revised : ∀ q, IsRevision q → splitAsuraSourceId
    (asuraSeriesUrl (splitAsuraSourceId value).1 (String.ofList q)) =
      ((splitAsuraSourceId value).1, String.ofList (q.map Char.toLower))
  /-- What the adapter reads off a URL of the path. -/
  adapter : ∀ url, IsAsuraUrl url slug → observedAsuraId url = splitAsuraSourceId value
  consensus : ∀ (cursor : AsuraCursor) (items : List AsuraItem),
    (∀ item ∈ items, item.sourceId = (splitAsuraSourceId value).1) →
      ∀ item ∈ (applyAsuraRevisionConsensus cursor items).2,
        item.sourceId = (splitAsuraSourceId value).1
  ingest : ∀ item : SeriesItem, item.source = "asura" →
    item.sourceId = (splitAsuraSourceId value).1 →
      Shelf.normalizedIdentity item = (splitAsuraSourceId value).1
  portable : portableIdentity "asura" (splitAsuraSourceId value).1 = (splitAsuraSourceId value).1

section
variable {slug : List Char} {value : String}

theorem IsAsuraSlug.split_names (h : IsAsuraSlug slug) (hv : NamesAsuraSeries value slug) :
    splitAsuraSourceId value =
      (String.ofList (splitAsuraPath (comicsPath slug)).1,
        String.ofList (splitAsuraPath (comicsPath slug)).2) := by
  rcases hv with rfl | ⟨ha, -, hp⟩
  · exact h.split_bare
  · simp only [splitAsuraSourceId, ha, if_true, hp]

theorem IsAsuraSlug.observed_names (h : IsAsuraSlug slug) (hv : NamesAsuraSeries value slug)
    {url : String} (hu : IsAsuraUrl url slug) : observedAsuraId url = splitAsuraSourceId value := by
  rw [h.split_names hv, observedAsuraId, hu.2.2, h.split_bare]

/-- An id that splits no further is what every layer computes from it. -/
theorem AsuraNormal.of_split (hsplit : splitAsuraSourceId (splitAsuraSourceId value).1 =
      ((splitAsuraSourceId value).1, ""))
    (hurl : SameButRevisionCase (comicsPath slug) (urlparse (asuraSeriesUrl
      (splitAsuraSourceId value).1 (splitAsuraSourceId value).2).toList).path)
    (hrevised : ∀ q, IsRevision q → splitAsuraSourceId
      (asuraSeriesUrl (splitAsuraSourceId value).1 (String.ofList q)) =
        ((splitAsuraSourceId value).1, String.ofList (q.map Char.toLower)))
    (hadapter : ∀ url, IsAsuraUrl url slug → observedAsuraId url = splitAsuraSourceId value) :
    AsuraNormal value slug where
  split := hsplit
  url := hurl
  revised := hrevised
  adapter := hadapter
  consensus cursor items hitems item hitem := by
    obtain ⟨i, hi, rfl⟩ := List.mem_map.mp hitem
    show (splitAsuraSourceId i.sourceId).1 = _
    rw [hitems i hi, hsplit]
  ingest item hsource hid := by
    rw [Shelf.normalizedIdentity, if_pos hsource, hid, hsplit]
  portable := by
    rw [portableIdentity, if_pos rfl, hsplit]

theorem SameButRevisionCase.length {path path' : List Char} (h : SameButRevisionCase path path') :
    path'.length = path.length + 1 := by
  obtain ⟨stem, revision, revision', rfl, rfl, hlower, -⟩ := h
  have hlen := congrArg List.length hlower
  rw [List.length_map, List.length_map] at hlen
  rw [List.length_cons, List.length_append, List.length_append, hlen]

theorem toLower_toLower_hex : ∀ c ∈ hexDigits, c.toLower.toLower = c.toLower :=
  Url.forall_mem_of_all (by decide)

/-- The URL built from what a path splits into has that path, but for dot segments. -/
theorem IsAsuraSlug.url_iff {body observed : List Char} (h : IsAsuraSlug slug)
    (hbody : IsAsuraSlug body) (hm : matchAsuraRevision (comicsPath body) = none)
    (hcase : (matchAsuraRevision (comicsPath slug) = none ∧ body = slug ∧ observed = []) ∨
      ∃ revision, IsRevision revision ∧ slug = body ++ '-' :: revision ∧
        observed = revision.map Char.toLower) :
    SameButRevisionCase (comicsPath slug) (urlparse (asuraSeriesUrl
        (String.ofList (comicsPath body)) (String.ofList observed)).toList).path ↔
      slug ≠ ".".toList ∧ slug ≠ "..".toList := by
  rw [hbody.asuraSeriesUrl_stable hm, String.toList_ofList]
  rcases hcase with ⟨-, rfl, rfl⟩ | ⟨revision, hrev, rfl, rfl⟩
  · rw [if_pos rfl]
    constructor
    · intro hsame
      have hlen := hsame.length
      refine ⟨?_, ?_⟩ <;> rintro rfl <;> exact absurd hlen (by decide)
    · rintro ⟨hd, hdd⟩
      refine ⟨comicsPath body, [], [], by simp, ?_, rfl, .inl rfl⟩
      rw [hbody.urlparse_urljoin hd hdd, List.append_nil]
  · have hlower := hrev.lower
    have hne : revision.map Char.toLower ≠ [] := by
      intro he
      have hlen := hlower.1
      rw [he] at hlen
      cases hlen
    obtain ⟨hd, hdd⟩ := hlower.not_dots body
    refine iff_of_true ?_ (hrev.not_dots body)
    rw [if_neg hne, (hbody.append_revision hlower).urlparse_urljoin hd hdd]
    refine ⟨comicsPath body ++ ['-'], revision, revision.map Char.toLower, by simp [comicsPath],
      by simp [comicsPath], ?_, .inr hrev⟩
    rw [List.map_map]
    exact List.map_congr_left fun c hc => (toLower_toLower_hex c (hrev.2 c hc)).symm

/-- The stable part of a slug that was revised twice has a revision of its own. -/
theorem IsAsuraSlug.twiceRevised_iff {body observed : List Char} (h : IsAsuraSlug slug)
    (hcase : (matchAsuraRevision (comicsPath slug) = none ∧ body = slug ∧ observed = []) ∨
      ∃ revision, IsRevision revision ∧ slug = body ++ '-' :: revision ∧
        observed = revision.map Char.toLower) :
    TwiceRevised slug ↔
      ∃ x revision, x ≠ [] ∧ IsRevision revision ∧ body = x ++ '-' :: revision := by
  rcases hcase with ⟨hnone, rfl, -⟩ | ⟨rev, hr, rfl, -⟩
  · have hnot : ¬ ∃ x revision, x ≠ [] ∧ IsRevision revision ∧ body = x ++ '-' :: revision := by
      intro hex
      have hsome := h.matchAsuraRevision_isSome.mpr hex
      rw [hnone] at hsome
      cases hsome
    refine iff_of_false ?_ hnot
    rintro ⟨x, revision, revision', -, -, hr', he⟩
    exact hnot ⟨_, revision', by simp, hr', he⟩
  · constructor
    · rintro ⟨x, revision, revision', hx, hrev, hr', he⟩
      have hlen : ('-' :: rev).length = ('-' :: revision').length := by
        rw [List.length_cons, List.length_cons, hr.1, hr'.1]
      exact ⟨x, revision, hx, hrev, (List.append_inj' he hlen).1⟩
    · rintro ⟨x, revision, hx, hrev, rfl⟩
      exact ⟨x, revision, rev, hx, hrev, hr, rfl⟩

/-- A value names the same series in all layers, and its URL can be built again, exactly when its
slug is no dot segment and has one revision at most. -/
theorem asura_normal_iff (h : IsAsuraSlug slug) (hv : NamesAsuraSeries value slug) :
    AsuraNormal value slug ↔
      slug ≠ ".".toList ∧ slug ≠ "..".toList ∧ ¬ TwiceRevised slug := by
  obtain ⟨body, observed, hbody, hpath, hcase⟩ := h.splitAsuraPath_spec
  have hsplit : splitAsuraSourceId value =
      (String.ofList (comicsPath body), String.ofList observed) := by
    rw [h.split_names hv, hpath]
  have hadapter : ∀ url, IsAsuraUrl url slug → observedAsuraId url = splitAsuraSourceId value :=
    fun url hu => h.observed_names hv hu
  rw [h.twiceRevised_iff hcase, ← hbody.matchAsuraRevision_isSome, ← and_assoc]
  cases hm : matchAsuraRevision (comicsPath body) with
  | some m =>
    -- splitting the stable part again takes off the revision that is left
    have hsome : (matchAsuraRevision (comicsPath body)).isSome = true := by rw [hm]; rfl
    obtain ⟨x, revision, hx, hrev, rfl⟩ := hbody.matchAsuraRevision_isSome.mp hsome
    have hxs : IsAsuraSlug x := ⟨hx, List.all_eq_true.mpr fun c hc =>
      List.all_eq_true.mp hbody.2 c (List.mem_append_left _ hc)⟩
    refine iff_of_false (fun hn => ?_) (fun hn => hn.2 rfl)
    have hs := hn.split
    rw [hsplit, hbody.split_bare, hxs.splitAsuraPath_revised hrev] at hs
    have hempty : revision.map Char.toLower = [] := by simpa using (Prod.mk.inj hs).2
    have hlen := hrev.lower.1
    rw [hempty] at hlen
    cases hlen
  | none =>
    have hurl := h.url_iff hbody hm hcase
    rw [← hurl]
    constructor
    · intro hn
      have hu := hn.url
      rw [hsplit] at hu
      exact ⟨hu, by simp⟩
    · rintro ⟨hu, -⟩
      refine .of_split ?_ ?_ ?_ hadapter
      · rw [hsplit]
        exact hbody.split_stable hm
      · rw [hsplit]
        exact hu
      · rw [hsplit]
        exact fun q hq => hbody.split_asuraSeriesUrl hm hq

/-- A series whose own name ends like a revision becomes another series. -/
theorem asura_normal_twice : ¬ ∀ (slug : List Char) (value : String), IsAsuraSlug slug →
    NamesAsuraSeries value slug → AsuraNormal value slug := by
  intro hall
  have hn := hall "solo-deadbeef-a80d257e".toList "comics/solo-deadbeef-a80d257e" (by decide)
    (.inl (by decide))
  have hs := hn.split
  revert hs
  decide +kernel

/-- The URL of a series with a revision. -/
theorem asura_normal_solo : IsAsuraSlug "solo-A80D257E".toList ∧
    AsuraNormal "https://asurascans.com/comics/solo-A80D257E" "solo-A80D257E".toList := by
  refine ⟨by decide, (asura_normal_iff (by decide) (.inr ?_)).mpr ⟨by decide, by decide, ?_⟩⟩
  · exact ⟨by decide +kernel, by decide +kernel, by decide +kernel⟩
  · rintro ⟨x, revision, revision', -, hrev, hrev', he⟩
    have hlen := congrArg List.length he
    simp [hrev.1, hrev'.1] at hlen

end

end MangaManager
