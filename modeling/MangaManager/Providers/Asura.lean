import Mathlib.Data.List.Infix
import Mathlib.Data.List.MinMax
import MangaManager.Domain.Matching
import MangaManager.Lib.Url

/-!
# Identities of Asura listings

Asura ends the path of a series with a revision of eight hexadecimal digits that it
changes from time to time. `splitAsuraSourceId` and `asuraSeriesUrl` take it off and put one
on; `applyAsuraRevisionConsensus` is `_apply_asura_revision_consensus`, which chooses
the revision that the URLs of a listing are built with.
-/

namespace MangaManager

open Lib

/-- `[0-9a-fA-F]`. -/
def hexDigits : List Char := "0123456789abcdefABCDEF".toList

/-- Eight hexadecimal digits. -/
def IsRevision (cs : List Char) : Prop := cs.length = 8 ∧ ∀ c ∈ cs, c ∈ hexDigits

instance (cs : List Char) : Decidable (IsRevision cs) :=
  @instDecidableAnd _ _ _ (List.decidableBAll (· ∈ hexDigits) cs)

/-- `comics/`. -/
def comicsRoot : List Char := ['c', 'o', 'm', 'i', 'c', 's', '/']

/-- The two groups of `ASURA_REVISION_RE.fullmatch`. -/
def matchAsuraRevision (cs : List Char) : Option (List Char × List Char) :=
  let stable := cs.take (cs.length - 9)
  match cs.drop (cs.length - 9) with
  | '-' :: revision =>
    if IsRevision revision ∧ comicsRoot <+: stable ∧ stable.drop 7 ≠ [] ∧
        '\n' ∉ stable.drop 7 then some (stable, revision)
    else none
  | _ => none

/-- `value.strip("/")`. -/
def stripSlashes (cs : List Char) : List Char := rstripChar '/' (cs.dropWhile (· == '/'))

/-- `"://" in value`. -/
def hasAuthority (cs : List Char) : Bool := cs.tails.any fun t => "://".toList.isPrefixOf t

/-- The identity and the revision of a path without slashes around it. -/
def splitAsuraPath (normalized : List Char) : List Char × List Char :=
  match matchAsuraRevision normalized with
  | none => (normalized, [])
  | some (stable, revision) => (stable, revision.map Char.toLower)

/-- `split_asura_source_id`. -/
def splitAsuraSourceId (value : String) : String × String :=
  let cs := value.toList
  let normalized := stripSlashes (if hasAuthority cs then (urlparse cs).path else cs)
  let (stable, revision) := splitAsuraPath normalized
  (String.ofList stable, String.ofList revision)

/-- `AsuraAdapter.base_url`. -/
def asuraBaseUrl : String := "https://asurascans.com"

/-- `asura_series_url`. -/
def asuraSeriesUrl (sourceId : String) (revision : String := "") : String :=
  let (stable, embedded) := splitAsuraSourceId sourceId
  let selected := orText revision embedded
  let path := if selected = "" then stable else stable ++ "-" ++ selected
  String.ofList (urljoin asuraBaseUrl.toList ("/" ++ path).toList)

/-- What the adapter reads off the URL of a card: `observed_id`, split. -/
def observedAsuraId (url : String) : String × String :=
  splitAsuraSourceId (String.ofList (stripSlashes (urlparse url.toList).path))

/-! ## The consensus -/

/-- A listing item, with the entries `asura_revision` and `asura_revision_override` of its
metadata. -/
structure AsuraItem where
  sourceId : String
  url : String
  revision : String := ""
  revisionOverride : String := ""
  deriving DecidableEq

/-- The two entries of `cursor_json` of the provider's state. -/
structure AsuraCursor where
  globalRevision : String := ""
  revisionConsensusCount : Nat := 0
  deriving DecidableEq

/-- The revisions in the order they appear, with the number of series that have them. -/
def revisionCounts (items : List AsuraItem) : List (String × Nat) :=
  ((items.map AsuraItem.revision).filter (· ≠ "")).eraseDups.map fun revision =>
    (revision,
      (((items.filter (·.revision = revision)).map AsuraItem.sourceId).eraseDups).length)

/-- A revision of three series becomes the global one. -/
def AsuraCursor.observe (cursor : AsuraCursor) (items : List AsuraItem) : AsuraCursor :=
  match (revisionCounts items).argmax Prod.snd with
  | none => cursor
  | some (consensus, count) =>
    if 3 ≤ count then { globalRevision := consensus, revisionConsensusCount := count } else cursor

/-- One turn of the second loop. -/
def AsuraItem.resolve (selected : String) (item : AsuraItem) : AsuraItem :=
  let (stable, embedded) := splitAsuraSourceId item.sourceId
  let observed := orText embedded item.revision
  let overrides := selected ≠ "" ∧ observed ≠ "" ∧ observed ≠ selected
  { sourceId := stable
    url := asuraSeriesUrl stable (if overrides then observed else orText selected observed)
    revision := observed
    revisionOverride := if overrides then observed else item.revisionOverride }

/-- `_apply_asura_revision_consensus`. -/
def applyAsuraRevisionConsensus (cursor : AsuraCursor) (items : List AsuraItem) :
    AsuraCursor × List AsuraItem :=
  let cursor := cursor.observe items
  (cursor, items.map (AsuraItem.resolve cursor.globalRevision))

/-! ## Series paths -/

/-- A character of a slug. -/
def isSlugChar (c : Char) : Bool :=
  c != '/' && c != '?' && c != '#' && c != ';' && c != '%' && !isSpace c

/-- A non-empty slug. -/
def IsAsuraSlug (slug : List Char) : Prop := slug ≠ [] ∧ slug.all isSlugChar = true

instance (slug : List Char) : Decidable (IsAsuraSlug slug) :=
  inferInstanceAs (Decidable (_ ∧ _))

/-- `comics/` and the slug. -/
def comicsPath (slug : List Char) : List Char := comicsRoot ++ slug

section
variable {slug body revision cs : List Char}

theorem isSlugChar_ne {c : Char} (h : isSlugChar c = true) : c ≠ '/' ∧ c ≠ '\n' ∧
    Url.isPlain c = true := by
  simp only [isSlugChar, Bool.and_eq_true, bne_iff_ne, Bool.not_eq_true'] at h
  obtain ⟨⟨⟨⟨⟨h1, h2⟩, h3⟩, h4⟩, -⟩, h6⟩ := h
  have hspace : ∀ d, isSpace d = true → c ≠ d := by
    rintro d hd rfl
    rw [h6] at hd
    cases hd
  refine ⟨h1, hspace _ (by decide), ?_⟩
  have hsafe : Url.isUnsafe c = false := by
    simp [Url.isUnsafe, hspace '\t' (by decide), hspace '\r' (by decide), hspace '\n' (by decide)]
  simp [Url.isPlain, hsafe, h2, h3, h4]

theorem isSlugChar_hex : ∀ c ∈ hexDigits, isSlugChar c = true :=
  Url.forall_mem_of_all (by decide)

theorem toLower_hex : ∀ c ∈ hexDigits, c.toLower ∈ hexDigits :=
  Url.forall_mem_of_all (by decide)

theorem IsAsuraSlug.char (h : IsAsuraSlug slug) {c : Char} (hc : c ∈ slug) :
    c ≠ '/' ∧ c ≠ '\n' ∧ Url.isPlain c = true :=
  isSlugChar_ne (List.all_eq_true.mp h.2 c hc)

theorem IsAsuraSlug.append_revision (h : IsAsuraSlug slug) (hr : IsRevision revision) :
    IsAsuraSlug (slug ++ '-' :: revision) := by
  refine ⟨by simp, List.all_eq_true.mpr fun c hc => ?_⟩
  rcases List.mem_append.mp hc with hc | hc
  · exact List.all_eq_true.mp h.2 c hc
  · rcases List.mem_cons.mp hc with rfl | hc
    · decide
    · exact isSlugChar_hex c (hr.2 c hc)

theorem IsRevision.lower (h : IsRevision revision) : IsRevision (revision.map Char.toLower) := by
  refine ⟨by rw [List.length_map, h.1], fun c hc => ?_⟩
  obtain ⟨d, hd, rfl⟩ := List.mem_map.mp hc
  exact toLower_hex d (h.2 d hd)

theorem drop_comicsPath (slug : List Char) : (comicsPath slug).drop 7 = slug := rfl

/-- The revision is taken off a path that has one after a slug. -/
theorem matchAsuraRevision_eq_some {stable : List Char} :
    matchAsuraRevision cs = some (stable, revision) ↔ cs = stable ++ '-' :: revision ∧
      IsRevision revision ∧ ∃ body, stable = comicsPath body ∧ body ≠ [] ∧ '\n' ∉ body := by
  constructor
  · intro h
    simp only [matchAsuraRevision] at h
    split at h
    · rename_i rev hdrop
      split at h
      · rename_i hc
        obtain ⟨hrev, ⟨body, hbody⟩, hne, hnl⟩ := hc
        cases h
        rw [← hbody] at hne hnl
        exact ⟨by rw [← hdrop, List.take_append_drop], hrev, body, hbody.symm, hne, hnl⟩
      · cases h
    · cases h
  · rintro ⟨rfl, hrev, body, rfl, hne, hnl⟩
    have hlen : (comicsPath body ++ '-' :: revision).length - 9 = (comicsPath body).length := by
      simp [hrev.1]
    simp only [matchAsuraRevision, hlen, List.drop_left, List.take_left]
    rw [drop_comicsPath, if_pos ⟨hrev, ⟨body, rfl⟩, hne, hnl⟩]

/-! ## Normalising -/

theorem IsAsuraSlug.count_slash (h : IsAsuraSlug slug) : (comicsPath slug).count '/' = 1 := by
  have hzero : slug.count '/' = 0 := List.count_eq_zero.mpr fun hm => (h.char hm).1 rfl
  rw [comicsPath, List.count_append, hzero]
  decide

theorem IsAsuraSlug.hasAuthority_eq (h : IsAsuraSlug slug) :
    hasAuthority (comicsPath slug) = false := by
  refine Bool.eq_false_iff.mpr fun hany => ?_
  obtain ⟨tail, htail, hinit⟩ := List.any_eq_true.mp hany
  have hsub : ("://".toList).Sublist (comicsPath slug) :=
    (List.isPrefixOf_iff_prefix.mp hinit).sublist.trans
      ((List.mem_tails _ _).mp htail).sublist
  have hle := hsub.count_le '/'
  rw [h.count_slash] at hle
  exact absurd hle (by decide)

theorem IsAsuraSlug.stripSlashes_eq (h : IsAsuraSlug slug) :
    stripSlashes (comicsPath slug) = comicsPath slug := by
  have hlast : comicsPath slug = (comicsPath slug).rdropWhile (· == '/') := by
    refine (List.rdropWhile_eq_self_iff.mpr fun hne => ?_).symm
    have hmem : (comicsPath slug).getLast hne ∈ slug := by
      simp only [comicsPath, List.getLast_append_of_ne_nil _ h.1, List.getLast_mem]
    simpa using (h.char hmem).1
  rw [stripSlashes, show (comicsPath slug).dropWhile (· == '/') = comicsPath slug from rfl,
    rstripChar, ← hlast]

theorem IsAsuraSlug.stripSlashes_rooted (h : IsAsuraSlug slug) :
    stripSlashes ('/' :: comicsPath slug) = comicsPath slug :=
  (show stripSlashes ('/' :: comicsPath slug) = stripSlashes (comicsPath slug) from rfl).trans
    h.stripSlashes_eq

theorem IsAsuraSlug.comicsPath_plain (h : IsAsuraSlug slug) :
    ∀ c ∈ comicsPath slug, Url.isPlain c = true := by
  intro c hc
  rcases List.mem_append.mp hc with hc | hc
  · have hroot : ∀ c ∈ comicsRoot, Url.isPlain c = true :=
      Url.forall_mem_of_all (by decide)
    exact hroot c hc
  · exact (h.char hc).2.2

/-! ## The URL of a series -/

theorem IsAsuraSlug.splitOn_rooted (h : IsAsuraSlug slug) :
    ('/' :: comicsPath slug).splitOn '/' = [[], ['c', 'o', 'm', 'i', 'c', 's'], slug] := by
  have hjoin : '/' :: comicsPath slug =
      ['/'].intercalate [[], ['c', 'o', 'm', 'i', 'c', 's'], slug] := by
    simp [comicsPath, comicsRoot, List.intercalate]
  rw [hjoin, List.splitOn_intercalate]
  · intro l hl
    simp only [List.mem_cons, List.not_mem_nil, or_false] at hl
    rcases hl with rfl | rfl | rfl
    · simp
    · decide
    · exact fun hm => (h.char hm).1 rfl
  · simp

/-- The URL that is built for a path. -/
theorem IsAsuraSlug.urljoin_eq (h : IsAsuraSlug slug) (hd : slug ≠ ".".toList)
    (hdd : slug ≠ "..".toList) : urljoin asuraBaseUrl.toList ('/' :: comicsPath slug) =
      "https://".toList ++ ("asurascans.com".toList ++ '/' :: comicsPath slug) := by
  have hbase : urlparse asuraBaseUrl.toList =
      { scheme := "https".toList, netloc := "asurascans.com".toList } := by decide
  have hplain : resolvePath [] ('/' :: comicsPath slug) = '/' :: comicsPath slug := by
    refine resolvePath_plain rfl fun seg hseg => ?_
    rw [h.splitOn_rooted] at hseg
    simp only [List.mem_cons, List.not_mem_nil, or_false] at hseg
    rcases hseg with rfl | rfl | rfl
    · decide
    · decide
    · exact ⟨hdd, hd⟩
  rw [urljoin_rooted (by rw [hbase]) (by rw [hbase]) h.comicsPath_plain
    (by simp [comicsPath, comicsRoot]), hbase, hplain, urlunparse_https (by decide) rfl]

theorem IsAsuraSlug.urlparse_urljoin (h : IsAsuraSlug slug) (hd : slug ≠ ".".toList)
    (hdd : slug ≠ "..".toList) :
    (urlparse (urljoin asuraBaseUrl.toList ('/' :: comicsPath slug))).path =
      '/' :: comicsPath slug := by
  rw [h.urljoin_eq hd hdd, urlparse_https (Url.forall_mem_of_all (by decide)) h.comicsPath_plain]

theorem IsAsuraSlug.hasAuthority_urljoin (h : IsAsuraSlug slug) (hd : slug ≠ ".".toList)
    (hdd : slug ≠ "..".toList) :
    hasAuthority (urljoin asuraBaseUrl.toList ('/' :: comicsPath slug)) = true := by
  rw [h.urljoin_eq hd hdd]
  refine List.any_eq_true.mpr
    ⟨"://".toList ++ ("asurascans.com".toList ++ '/' :: comicsPath slug), ?_, ?_⟩
  · rw [List.mem_tails]
    exact ⟨"https".toList, by simp⟩
  · exact List.isPrefixOf_iff_prefix.mpr (List.prefix_append _ _)

/-! ## Splitting once -/

/-- What a path splits into: a slug without its revision. -/
theorem IsAsuraSlug.splitAsuraPath_spec (h : IsAsuraSlug slug) :
    ∃ body observed, IsAsuraSlug body ∧
      splitAsuraPath (comicsPath slug) = (comicsPath body, observed) ∧
      ((matchAsuraRevision (comicsPath slug) = none ∧ body = slug ∧ observed = []) ∨
        ∃ revision, IsRevision revision ∧ slug = body ++ '-' :: revision ∧
          observed = revision.map Char.toLower) := by
  unfold splitAsuraPath
  cases hm : matchAsuraRevision (comicsPath slug) with
  | none => exact ⟨slug, [], h, rfl, .inl ⟨rfl, rfl, rfl⟩⟩
  | some m =>
    obtain ⟨stable, revision⟩ := m
    obtain ⟨hcs, hrev, body, rfl, hne, -⟩ := matchAsuraRevision_eq_some.mp hm
    have hslug : slug = body ++ '-' :: revision := by
      have hdrop := congrArg (List.drop 7) hcs
      simpa [comicsPath, comicsRoot] using hdrop
    refine ⟨body, _, ⟨hne, List.all_eq_true.mpr fun c hc => ?_⟩, rfl,
      .inr ⟨revision, hrev, hslug, rfl⟩⟩
    exact List.all_eq_true.mp h.2 c (hslug ▸ List.mem_append_left _ hc)

/-- A slug that still has a revision when one was taken off. -/
def TwiceRevised (slug : List Char) : Prop :=
  ∃ x revision revision', x ≠ [] ∧ IsRevision revision ∧ IsRevision revision' ∧
    slug = (x ++ '-' :: revision) ++ '-' :: revision'

/-- A path has a revision when its slug ends with one after something else. -/
theorem IsAsuraSlug.matchAsuraRevision_isSome (h : IsAsuraSlug slug) :
    (matchAsuraRevision (comicsPath slug)).isSome = true ↔
      ∃ x revision, x ≠ [] ∧ IsRevision revision ∧ slug = x ++ '-' :: revision := by
  constructor
  · intro hsome
    obtain ⟨⟨stable, revision⟩, hm⟩ := Option.isSome_iff_exists.mp hsome
    obtain ⟨hcs, hrev, x, rfl, hne, -⟩ := matchAsuraRevision_eq_some.mp hm
    have hdrop := congrArg (List.drop 7) hcs
    exact ⟨x, revision, hne, hrev, by simpa [comicsPath, comicsRoot] using hdrop⟩
  · rintro ⟨x, revision, hne, hrev, rfl⟩
    refine Option.isSome_iff_exists.mpr ⟨(comicsPath x, revision),
      matchAsuraRevision_eq_some.mpr ⟨by simp [comicsPath], hrev, x, rfl, hne, fun hm => ?_⟩⟩
    exact (h.char (List.mem_append_left _ hm)).2.1 rfl

theorem IsAsuraSlug.split_bare (h : IsAsuraSlug slug) :
    splitAsuraSourceId (String.ofList (comicsPath slug)) =
      (String.ofList (splitAsuraPath (comicsPath slug)).1,
        String.ofList (splitAsuraPath (comicsPath slug)).2) := by
  simp only [splitAsuraSourceId, String.toList_ofList, h.hasAuthority_eq, h.stripSlashes_eq,
    Bool.false_eq_true, if_false]

/-- A path without a revision is its own identity. -/
theorem IsAsuraSlug.split_stable (h : IsAsuraSlug slug)
    (hm : matchAsuraRevision (comicsPath slug) = none) :
    splitAsuraSourceId (String.ofList (comicsPath slug)) =
      (String.ofList (comicsPath slug), "") := by
  rw [h.split_bare, splitAsuraPath, hm]

theorem IsAsuraSlug.asuraSeriesUrl_stable (h : IsAsuraSlug slug)
    (hm : matchAsuraRevision (comicsPath slug) = none) (revision : List Char) :
    asuraSeriesUrl (String.ofList (comicsPath slug)) (String.ofList revision) =
      String.ofList (urljoin asuraBaseUrl.toList ('/' ::
        comicsPath (if revision = [] then slug else slug ++ '-' :: revision))) := by
  unfold asuraSeriesUrl
  rw [h.split_stable hm]
  by_cases hr : revision = []
  · subst hr
    simp [orText]
  · simp [orText, hr, comicsPath]

/-! ## Splitting what was built -/

theorem IsAsuraSlug.split_urljoin (h : IsAsuraSlug slug) (hd : slug ≠ ".".toList)
    (hdd : slug ≠ "..".toList) :
    splitAsuraSourceId (String.ofList (urljoin asuraBaseUrl.toList ('/' :: comicsPath slug))) =
      (String.ofList (splitAsuraPath (comicsPath slug)).1,
        String.ofList (splitAsuraPath (comicsPath slug)).2) := by
  simp only [splitAsuraSourceId, String.toList_ofList, h.hasAuthority_urljoin hd hdd, if_true,
    h.urlparse_urljoin hd hdd, h.stripSlashes_rooted]

theorem IsRevision.not_dots (hr : IsRevision revision) (body : List Char) :
    body ++ '-' :: revision ≠ ".".toList ∧ body ++ '-' :: revision ≠ "..".toList := by
  have hlen : 9 ≤ (body ++ '-' :: revision).length := by
    rw [List.length_append, List.length_cons, hr.1]
    omega
  refine ⟨fun he => ?_, fun he => ?_⟩ <;> rw [he] at hlen <;> exact absurd hlen (by decide)

theorem IsAsuraSlug.splitAsuraPath_revised (h : IsAsuraSlug slug) (hr : IsRevision revision) :
    splitAsuraPath (comicsPath (slug ++ '-' :: revision)) =
      (comicsPath slug, revision.map Char.toLower) := by
  have hm : matchAsuraRevision (comicsPath (slug ++ '-' :: revision)) =
      some (comicsPath slug, revision) :=
    matchAsuraRevision_eq_some.mpr ⟨by simp [comicsPath], hr, slug, rfl, h.1,
      fun hc => (h.char hc).2.1 rfl⟩
  rw [splitAsuraPath, hm]

/-- The URL of a stable path with a revision splits into the two. -/
theorem IsAsuraSlug.split_asuraSeriesUrl (h : IsAsuraSlug slug)
    (hm : matchAsuraRevision (comicsPath slug) = none) (hr : IsRevision revision) :
    splitAsuraSourceId (asuraSeriesUrl (String.ofList (comicsPath slug))
        (String.ofList revision)) =
      (String.ofList (comicsPath slug), String.ofList (revision.map Char.toLower)) := by
  have hne : revision ≠ [] := by
    rintro rfl
    exact absurd hr.1 (by decide)
  obtain ⟨hd, hdd⟩ := hr.not_dots slug
  rw [h.asuraSeriesUrl_stable hm, if_neg hne, (h.append_revision hr).split_urljoin hd hdd,
    h.splitAsuraPath_revised hr]

end

end MangaManager
