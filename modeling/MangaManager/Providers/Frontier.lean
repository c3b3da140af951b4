import Mathlib.Data.List.Dedup
import Mathlib.Data.List.Sort
import MangaManager.Lib.Dict
import MangaManager.Series.Versions

/-!
# The frontier of a listing

`list_recent_frontier` of `app/adapters/asura.py` and `app/adapters/mangadex.py` and
`list_recent_frontier_api` of `app/adapters/mangafire.py` read the pages of a listing until
enough sentinels are hit, the listing ends or the limit of pages is met. A sentinel is hit by
an item of its series whose newest chapter is not newer than the sentinel's. MangaDex counts the
series that were hit, Asura and MangaFire the hits of one page after the other.

`frontier_reached_iff`: the report of MangaDex is always right, those of Asura and MangaFire
when they do not owe the number of hits to sentinels that were hit on an earlier page.
-/

namespace MangaManager

open Lib

structure FrontierSentinel where
  sourceId : String
  latestChapter : String
  deriving DecidableEq

/-- What the loops read of an item; `recent_chapters` may be no list. -/
structure ListedSeries where
  sourceId : String
  recentChapters : Option (List RecentChapter)
  deriving DecidableEq

/-- What the loops read of the settings. -/
structure FrontierSettings where
  sourceFrontierRequiredHits : Nat := 3
  asuraRecentPages : Nat := 20
  mangadexRecentPages : Nat := 20
  mangadexRecentLimit : Nat := 100
  mangafireRecentPages : Nat := 20

structure ListingDiagnostics where
  pagesFetched : Nat
  frontierReached : Bool
  listingExhausted : Bool
  safetyLimitReached : Bool
  trackedFallbackRequired : Option Bool := none
  deriving DecidableEq

/-- `listing_diagnostics`. -/
def listingDiagnostics (pagesFetched maxPages : Nat) (frontierReached exhausted : Bool) :
    ListingDiagnostics where
  pagesFetched := pagesFetched
  frontierReached := frontierReached
  listingExhausted := exhausted
  safetyLimitReached := maxPages ≤ pagesFetched && !frontierReached && !exhausted

/-! ## Hits -/

section
variable (t : CatalogText)

/-- `normalize_chapter_number`. -/
def normalizeChapterNumber (value : String) : String :=
  if value.toList.any Char.isDigit then t.canonicalChapterNumber value else t.lower (strip value)

/-- `float` of a normalized number: digits, or the word for an infinity or a `NaN`. -/
def floatOf (value : String) : Option Dec :=
  let (negative, cs) := splitSign value.toList
  if cs = "inf".toList ∨ cs = "infinity".toList then some (.infinite negative)
  else if cs = "nan".toList then some .nan
  else if cs.any Char.isDigit then parseNumeral negative cs else none

/-- `chapter_number_key`, and `chapter_key` of MangaDex. -/
def chapterNumberKey (value : String) : ChapterKey :=
  match floatOf (normalizeChapterNumber t value) with
  | some number => ⟨1, number, ""⟩
  | none => ⟨0, .finite 0, value⟩

/-- `left <= right` of two tuples; a comparison with a `NaN` is false. -/
def ChapterKey.le (left right : ChapterKey) : Bool :=
  if left.tag ≠ right.tag then decide (left.tag < right.tag)
  else if left.number = right.number ∧ left.number ≠ .nan then decide (left.text ≤ right.text)
  else (right.number.gt left.number).getD false

/-- `left > right` of two tuples. -/
def ChapterKey.above (left right : ChapterKey) : Bool :=
  if left.tag ≠ right.tag then decide (right.tag < left.tag)
  else if left.number = right.number ∧ left.number ≠ .nan then decide (right.text < left.text)
  else (left.number.gt right.number).getD false

/-- `latest_recent_chapter`: `max` keeps the first of the greatest. -/
def latestRecentChapter (item : ListedSeries) : Option String :=
  match recentNumbers (item.recentChapters.getD []) with
  | [] => none
  | number :: numbers => some (numbers.foldl (fun best x =>
      if (chapterNumberKey t x).above (chapterNumberKey t best) then x else best) number)

/-- `sentinel_map`: the last sentinel of a series is kept. -/
def sentinelMap (sentinels : List FrontierSentinel) : Dict String String :=
  Dict.keepLast (·.sourceId) (·.latestChapter) sentinels

/-- `chapter_number_key(latest) <= chapter_number_key(known)`. -/
def chapterNotNewer (latest known : String) : Bool :=
  (chapterNumberKey t latest).le (chapterNumberKey t known)

variable (sentinels : Dict String String)

/-- The item's newest chapter is not newer than that of its sentinel. -/
def isHit (item : ListedSeries) : Bool :=
  match sentinels.lookup item.sourceId, latestRecentChapter t item with
  | some known, some latest => chapterNotNewer t latest known
  | _, _ => false

/-- `frontier_hits`. -/
def frontierHits (items : List ListedSeries) : Nat := items.countP (isHit t sentinels)

end

/-- `dedupe_series`: the first item of a series is kept. -/
def dedupeSeries (items : List ListedSeries) : List ListedSeries :=
  items.foldl (fun result item =>
    if item.sourceId ∈ result.map (·.sourceId) then result else result ++ [item]) []

/-- `required_hits`. -/
def requiredHits (settings : FrontierSettings) (sentinels : Dict String String) : Nat :=
  min settings.sourceFrontierRequiredHits sentinels.keys.length

/-! ## The loop over the pages -/

/-- What the body of a loop does with a page: go on, leave with `frontier_reached` and `exhausted`,
or find that there is no such page. -/
inductive PageStep (σ : Type) where
  | next (s : σ)
  | stop (s : σ) (frontierReached exhausted : Bool)
  | absent

/-- Where a loop has ended. -/
structure PageRun (σ : Type) where
  state : σ
  pagesFetched : Nat
  frontierReached : Bool := false
  exhausted : Bool := false

/-- The loop over `n` pages after those that were fetched; none, when a page raises. -/
def pageLoop {σ : Type} (step : Nat → σ → Option (PageStep σ)) :
    Nat → Nat → σ → Option (PageRun σ)
  | fetched, 0, s => some { state := s, pagesFetched := fetched }
  | fetched, n + 1, s => do
    match ← step (fetched + 1) s with
    | .next s => pageLoop step (fetched + 1) n s
    | .stop s frontierReached exhausted => pure ⟨s, fetched + 1, frontierReached, exhausted⟩
    | .absent => pure { state := s, pagesFetched := fetched, exhausted := true }

/-- The items and the hits of the pages so far. -/
structure Counted where
  items : List ListedSeries := []
  hits : Nat := 0

/-- `if required_hits and hits >= required_hits`. -/
def enough (required hits : Nat) : Bool := required != 0 && decide (required ≤ hits)

/-- A page whose hits are added to those of the pages before. -/
def countingStep (t : CatalogText) (sentinels : Dict String String) (required : Nat)
    (parsed : List ListedSeries) (isLast : Bool) (s : Counted) : PageStep Counted :=
  if parsed = [] then .stop s false true
  else
    let s' : Counted := ⟨s.items ++ parsed, s.hits + frontierHits t sentinels parsed⟩
    if enough required s'.hits then .stop s' true false
    else if isLast then .stop s' false true
    else .next s'

/-! ## Asura -/

/-- A chapter of the embedded feed, as it was decoded. -/
structure EmbeddedRow where
  sourceId : String
  title : String
  number : String
  deriving DecidableEq

/-- A page of Asura's listing: the feed that is embedded in it, the items of its links and whether
it leads to another page. -/
structure AsuraPage where
  embedded : List EmbeddedRow := []
  links : List ListedSeries := []
  hasNext : Bool := false

inductive AsuraResponse where
  | page (page : AsuraPage)
  | notFound
  | failed

/-- `parse_embedded_latest_updates`: the rows of a series are one item. -/
def embeddedUpdates (rows : List EmbeddedRow) : List ListedSeries :=
  let rows := rows.filter fun r => r.sourceId != "" && r.title != "" && r.number != ""
  dedupeSeries (rows.map fun r =>
    ⟨r.sourceId, some ((rows.filter (·.sourceId = r.sourceId)).map (.row ·.number))⟩)

namespace Asura

variable (t : CatalogText) (settings : FrontierSettings) (sentinels : Dict String String)
  (responses : Nat → AsuraResponse)

/-- `parse_recent_series`. -/
def parsed (page : AsuraPage) : List ListedSeries := dedupeSeries page.links

def step (number : Nat) (s : Counted) : Option (PageStep Counted) :=
  match responses number with
  | .failed => none
  | .notFound => if 1 < number then some .absent else none
  | .page page =>
    let embedded := embeddedUpdates page.embedded
    if number = 1 ∧ embedded ≠ [] then
      let hits := frontierHits t sentinels embedded
      some (.stop ⟨embedded, hits⟩ (enough (requiredHits settings sentinels) hits) true)
    else
      some (countingStep t sentinels (requiredHits settings sentinels) (parsed page)
        (!page.hasNext) s)

/-- `AsuraAdapter.list_recent_frontier`: the items and `listing_diagnostics`. -/
def listRecentFrontier (sentinels : List FrontierSentinel) :
    Option (List ListedSeries × ListingDiagnostics) := do
  let known := sentinelMap sentinels
  let run ← pageLoop (step t settings known responses) 0 settings.asuraRecentPages {}
  let diagnostics := listingDiagnostics run.pagesFetched settings.asuraRecentPages
    run.frontierReached run.exhausted
  pure (dedupeSeries run.state.items,
    { diagnostics with
      trackedFallbackRequired := some
        (known.keys.length != 0 && !run.frontierReached && run.exhausted) })

end Asura

/-! ## MangaFire -/

/-- A page of the titles; `hasNext` is that of its meta data. -/
structure MangaFirePage where
  entries : List (Option ListedSeries)
  hasNext : Option Bool := none

namespace MangaFire

variable (t : CatalogText) (settings : FrontierSettings) (sentinels : Dict String String)
  (responses : Nat → Option MangaFirePage)

/-- `parse_recent_series`; an entry that does not parse is left out. -/
def parsed (page : MangaFirePage) : List ListedSeries := dedupeSeries (page.entries.filterMap id)

def step (number : Nat) (s : Counted) : Option (PageStep Counted) :=
  (responses number).map fun page =>
    countingStep t sentinels (requiredHits settings sentinels) (parsed page)
      (page.hasNext == some false) s

/-- `MangaFireAdapter.list_recent_frontier_api`. -/
def listRecentFrontierApi (sentinels : List FrontierSentinel) :
    Option (List ListedSeries × ListingDiagnostics) := do
  let run ← pageLoop (step t settings (sentinelMap sentinels) responses) 0
    settings.mangafireRecentPages {}
  pure (dedupeSeries run.state.items, listingDiagnostics run.pagesFetched
    settings.mangafireRecentPages run.frontierReached run.exhausted)

end MangaFire

/-! ## MangaDex -/

/-- A chapter of the feed, of a series that it names. -/
structure ListedChapter where
  sourceId : String
  number : String
  deriving DecidableEq

/-- A page of the feed; none is a row that `series_from_chapter` leaves out. -/
structure MangaDexPage where
  rows : List (Option ListedChapter)
  total : Int := 0

namespace MangaDex

variable (t : CatalogText) (settings : FrontierSettings) (sentinels : Dict String String)
  (responses : Nat → Option MangaDexPage)

/-- The item of a row has its chapter only. -/
def itemOf (c : ListedChapter) : ListedSeries := ⟨c.sourceId, some [.row c.number]⟩

/-- `merge_recent_series`: the newest six chapters, each number once. -/
def mergeRecentSeries (item current : ListedSeries) : ListedSeries :=
  let numbers := recentNumbers (current.recentChapters.getD []) ++
    recentNumbers (item.recentChapters.getD [])
  let recent := numbers.reverse.dedup.reverse.insertionSort fun x y =>
    !(chapterNumberKey t y).above (chapterNumberKey t x)
  { current with recentChapters := some ((recent.take 6).map .row) }

/-- The series with their items, and those that were hit. -/
structure Grouped where
  grouped : Dict String ListedSeries := ∅
  hits : List String := []

/-- `known and latest and chapter_key(latest) <= chapter_key(known)`. -/
def isRowHit (c : ListedChapter) : Bool :=
  match sentinels.lookup c.sourceId with
  | none => false
  | some known => known != "" && c.number != "" && chapterNotNewer t c.number known

def addRow (s : Grouped) (c : ListedChapter) : Grouped :=
  let item := itemOf c
  { grouped := s.grouped.upsert c.sourceId (mergeRecentSeries t item) item
    hits := if isRowHit t sentinels c && decide (c.sourceId ∉ s.hits) then 
        s.hits ++ [c.sourceId]
      else s.hits }

def step (number : Nat) (s : Grouped) : Option (PageStep Grouped) :=
  (responses number).map fun page =>
    if page.rows = [] then .stop s false true
    else
      let s' := (page.rows.filterMap id).foldl (addRow t sentinels) s
      let limit := settings.mangadexRecentLimit
      if enough (requiredHits settings sentinels) s'.hits.length then .stop s' true false
      else if page.rows.length < limit ∨
          (page.total ≠ 0 ∧ page.total ≤ ((number * limit : Nat) : Int)) then
        .stop s' false true
      else .next s'

/-- `MangaDexAdapter.list_recent_frontier`. -/
def listRecentFrontier (sentinels : List FrontierSentinel) :
    Option (Dict String ListedSeries × ListingDiagnostics) := do
  let run ← pageLoop (step t settings (sentinelMap sentinels) responses) 0
    settings.mangadexRecentPages {}
  pure (run.state.grouped, listingDiagnostics run.pagesFetched settings.mangadexRecentPages
    run.frontierReached run.exhausted)

end MangaDex

/-! ## What the pages hold -/

section
variable (t : CatalogText) (sentinels : Dict String String) (items : Nat → List ListedSeries)

def hitIds (page : Nat) : List String := ((items page).filter (isHit t sentinels)).map (·.sourceId)

/-- The series that were hit on the first `n` pages. -/
def hitSeries (n : Nat) : List String :=
  ((List.range n).flatMap fun m => hitIds t sentinels items (m + 1)).dedup

variable {t sentinels items}

theorem mem_hitSeries {n : Nat} {x : String} : x ∈ hitSeries t sentinels items (n + 1) ↔
    x ∈ hitSeries t sentinels items n ∨ x ∈ hitIds t sentinels items (n + 1) := by
  simp [hitSeries, List.range_succ]

end

/-- The items of pages on which no series is twice. -/
structure Seen (t : CatalogText) (sentinels : Dict String String) where
  items : Nat → List ListedSeries
  nodup : ∀ page, ((items page).map (·.sourceId)).Nodup

namespace Seen

variable {t : CatalogText} {sentinels : Dict String String} (v : Seen t sentinels)

abbrev ids (page : Nat) : List String := hitIds t sentinels v.items page

abbrev series (n : Nat) : List String := hitSeries t sentinels v.items n

/-- The hits of the first `n` pages, one page after the other. -/
def totalHits (v : Seen t sentinels) : Nat → Nat
  | 0 => 0
  | n + 1 => totalHits v n + frontierHits t sentinels (v.items (n + 1))

/-- The hits of sentinels that were hit on an earlier page. -/
def repeatedHits (v : Seen t sentinels) : Nat → Nat
  | 0 => 0
  | n + 1 => repeatedHits v n + ((v.ids (n + 1)).filter (· ∈ v.series n)).length

variable {v} {n : Nat}

theorem hitIds_length (page : Nat) :
    (v.ids page).length = frontierHits t sentinels (v.items page) := by
  show (hitIds t sentinels v.items page).length = _
  rw [hitIds, List.length_map, frontierHits, List.countP_eq_length_filter]

theorem hitIds_nodup (page : Nat) : (v.ids page).Nodup :=
  (v.nodup page).sublist (List.filter_sublist.map _)

/-- A page adds the series that were not hit before. -/
theorem hitSeries_length : (v.series (n + 1)).length =
    (v.series n).length + ((v.ids (n + 1)).filter (· ∉ v.series n)).length := by
  have hperm : (v.series (n + 1)).Perm
      (v.series n ++ (v.ids (n + 1)).filter (· ∉ v.series n)) := by
    refine (List.perm_ext_iff_of_nodup (List.nodup_dedup _) ?_).mpr fun x => ?_
    · refine List.nodup_append.mpr ⟨List.nodup_dedup _, (hitIds_nodup _).filter _, ?_⟩
      rintro x hx y hy rfl
      exact of_decide_eq_true (List.mem_filter.mp hy).2 hx
    · refine mem_hitSeries.trans ?_
      rw [List.mem_append, List.mem_filter, decide_eq_true_eq]
      tauto
  rw [hperm.length_eq, List.length_append]

/-- Every hit is the first of its sentinel or a repeated one. -/
theorem totalHits_eq (n : Nat) : v.totalHits n = (v.series n).length + v.repeatedHits n := by
  induction n with
  | zero => rfl
  | succ n ih =>
    have hsplit := List.length_eq_length_filter_add (l := v.ids (n + 1))
      (fun x => decide (x ∈ v.series n))
    have hnot : (v.ids (n + 1)).filter (fun x => !decide (x ∈ v.series n)) =
        (v.ids (n + 1)).filter (· ∉ v.series n) :=
      List.filter_congr fun x _ => by simp
    rw [hnot, hitIds_length] at hsplit
    rw [totalHits, repeatedHits, ih, hitSeries_length]
    omega

end Seen

/-- What a report says: enough sentinels were hit on the pages that were read, or the listing ended
or the limit of pages was met. -/
structure FrontierReport (t : CatalogText) (sentinels : Dict String String)
    (items : Nat → List ListedSeries) (required maxPages : Nat) (d : ListingDiagnostics) :
    Prop where
  reached : d.frontierReached = true →
    required ≤ (hitSeries t sentinels items d.pagesFetched).length
  stopped : d.frontierReached = false → d.listingExhausted = true ∨ d.pagesFetched = maxPages

/-! ## Loops -/

section
variable {σ : Type} {step : Nat → σ → Option (PageStep σ)} {P : Nat → σ → Prop}
  {fetched n : Nat} {s : σ} {r : PageRun σ}

/-- How a loop ends: what holds before each page holds at the end, or before the last page. -/
theorem pageLoop_spec
    (hnext : ∀ page s s', P page s → step (page + 1) s = some (.next s') → P (page + 1) s')
    (hs : P fetched s) (h : pageLoop step fetched n s = some r) :
    (P r.pagesFetched r.state ∧ r.frontierReached = false ∧
      (r.exhausted = true ∨ r.pagesFetched = fetched + n)) ∨
    ∃ page s, r.pagesFetched = page + 1 ∧ page < fetched + n ∧ P page s ∧
      step (page + 1) s = some (.stop r.state r.frontierReached r.exhausted) := by
  induction n generalizing fetched s with
  | zero =>
    cases h
    exact .inl ⟨hs, rfl, .inr rfl⟩
  | succ n ih =>
    rw [pageLoop] at h
    obtain ⟨result, hr, h⟩ := Option.bind_eq_some_iff.mp h
    cases result with
    | next s' =>
      have := ih (hnext _ _ _ hs hr) h
      rwa [show fetched + 1 + n = fetched + (n + 1) by omega] at this
    | stop s' f e =>
      cases h
      exact .inr ⟨fetched, s, rfl, by omega, hs, hr⟩
    | absent =>
      cases h
      exact .inl ⟨hs, rfl, .inl rfl⟩

/-- A loop that goes on from each page stops where its body does. -/
theorem pageLoop_of_stop {f : Bool} {k : Nat} (hk : k < n) (hs : P fetched s)
    (hnext : ∀ page s, fetched ≤ page → page < fetched + k → P page s →
      ∃ s', step (page + 1) s = some (.next s') ∧ P (page + 1) s')
    (hstop : ∀ s, P (fetched + k) s → ∃ s' e, step (fetched + k + 1) s = some (.stop s' f e)) :
    ∃ r, pageLoop step fetched n s = some r ∧ r.pagesFetched = fetched + k + 1 ∧
      r.frontierReached = f := by
  induction k generalizing fetched s n with
  | zero =>
    obtain ⟨n, rfl⟩ : ∃ m, n = m + 1 := ⟨n - 1, by omega⟩
    obtain ⟨s', e, hs'⟩ := hstop s hs
    exact ⟨⟨s', fetched + 1, f, e⟩, by rw [pageLoop, hs']; rfl, rfl, rfl⟩
  | succ k ih =>
    obtain ⟨n, rfl⟩ : ∃ m, n = m + 1 := ⟨n - 1, by omega⟩
    obtain ⟨s', hs', hp⟩ := hnext fetched s (Nat.le_refl _) (by omega) hs
    rw [show fetched + (k + 1) = fetched + 1 + k by omega] at hstop hnext
    have hlt : k < n := by omega
    obtain ⟨r, hr, hfetched, hf⟩ := ih hlt hp (fun page s hle => hnext page s (by omega)) hstop
    refine ⟨r, ?_, by omega, hf⟩
    rw [pageLoop, hs']
    exact hr

end

/-! ## Counting page by page -/

theorem enough_iff {required hits : Nat} :
    enough required hits = true ↔ required ≠ 0 ∧ required ≤ hits := by
  simp [enough]

theorem enough_zero (required : Nat) : enough required 0 = false := by
  rw [Bool.eq_false_iff, Ne, enough_iff]
  omega

section
variable {t : CatalogText} {sentinels : Dict String String}

/-- The body of a loop adds the hits of the page to those of `s`. -/
structure CountsAt (t : CatalogText) (sentinels : Dict String String) (required : Nat)
    (items : List ListedSeries) (goesOn : Prop) (s : Counted)
    (result : Option (PageStep Counted)) : Prop where
  next : ∀ s', result = some (.next s') → goesOn ∧
    s'.hits = s.hits + frontierHits t sentinels items ∧ enough required s'.hits = false
  stop : ∀ s' f e, result = some (.stop s' f e) → enough required s.hits = false →
    f = enough required (s.hits + frontierHits t sentinels items) ∧ (f = false → e = true)
  goes : goesOn → enough required (s.hits + frontierHits t sentinels items) = false →
    ∃ s', result = some (.next s')
  reaches : enough required s.hits = false →
    enough required (s.hits + frontierHits t sentinels items) = true →
    ∃ s' e, result = some (.stop s' true e)

/-- On the page on which the count first is enough, it is still without the hits of sentinels that
were hit on an earlier page. -/
def SparesRepeats (v : Seen t sentinels) (goesOn : Nat → Prop) (required maxPages : Nat) : Prop :=
  ∀ n < maxPages, (∀ m < n, goesOn (m + 1) ∧ v.totalHits (m + 1) < required) →
    required ≤ v.totalHits (n + 1) → required + v.repeatedHits (n + 1) ≤ v.totalHits (n + 1)

variable {v : Seen t sentinels} {required maxPages : Nat} {goesOn : Nat → Prop}

theorem report_iff (step : Nat → Counted → Option (PageStep Counted)) (hc : ∀ page s, s.hits = v.totalHits page →
      CountsAt t sentinels required (v.items (page + 1)) (goesOn (page + 1)) s
        (step (page + 1) s)) :
    (∀ r, pageLoop step 0 maxPages {} = some r →
      FrontierReport t sentinels v.items required maxPages
        (listingDiagnostics r.pagesFetched maxPages r.frontierReached r.exhausted)) ↔
    SparesRepeats v goesOn required maxPages := by
  -- what holds after each page from which the loop goes on
  let P (page : Nat) (s : Counted) : Prop := s.hits = v.totalHits page ∧
    enough required s.hits = false ∧
    ∀ m < page, goesOn (m + 1) ∧ enough required (v.totalHits (m + 1)) = false
  have hinit : P 0 {} := ⟨rfl, enough_zero required, fun m hm => absurd hm (Nat.not_lt_zero m)⟩
  have hnext : ∀ page s s', P page s → step (page + 1) s = some (.next s') → P (page + 1) s' := by
    rintro page s s' ⟨hhits, -, hbefore⟩ hstep
    obtain ⟨hgoes, hadd, hno⟩ := (hc page s hhits).next _ hstep
    have htotal : s'.hits = v.totalHits (page + 1) := by
      rw [hadd, hhits, Seen.totalHits]
    refine ⟨htotal, hno, fun m hm => ?_⟩
    rcases Nat.lt_succ_iff_lt_or_eq.mp hm with hm | rfl
    · exact hbefore m hm
    · exact ⟨hgoes, htotal ▸ hno⟩
  constructor
  · intro hreport n hn hbefore hle
    rcases Nat.eq_zero_or_pos required with rfl | hpos
    · have := v.totalHits_eq (n + 1)
      omega
    have hlt : ∀ {k}, enough required k = false ↔ k < required := by
      intro k
      rw [Bool.eq_false_iff, Ne, enough_iff]
      omega
    obtain ⟨r, hr, hfetched, hf⟩ := pageLoop_of_stop (P := P) (f := true) hn hinit
      (fun page s _ hpage hp => by
        have hpage : page < n := by omega
        obtain ⟨hgoes, htotal⟩ := hbefore page hpage
        obtain ⟨s', hs'⟩ := (hc page s hp.1).goes hgoes (by
          rw [hp.1, hlt]
          exact htotal)
        exact ⟨s', hs', hnext _ _ _ hp hs'⟩)
      (fun s hp => by
        rw [Nat.zero_add] at hp ⊢
        refine (hc n s hp.1).reaches hp.2.1 (enough_iff.mpr ⟨by omega, ?_⟩)
        rw [hp.1]
        exact hle)
    have hfetched : r.pagesFetched = n + 1 := by omega
    have hreached : required ≤ (v.series (n + 1)).length := hfetched ▸ (hreport r hr).reached hf
    have htotal := v.totalHits_eq (n + 1)
    omega
  · intro hspares r hr
    rcases pageLoop_spec (P := P) hnext hinit hr with
      ⟨-, hf, hend⟩ | ⟨page, s, hfetched, hlt, hp, hs⟩
    · refine ⟨fun h => ?_, fun _ => ?_⟩
      · rw [show r.frontierReached = true from h] at hf
        cases hf
      · exact hend.imp id fun h => h.trans (Nat.zero_add _)
    · obtain ⟨hf, he⟩ := (hc page s hp.1).stop _ _ _ hs hp.2.1
      refine ⟨fun h => ?_, fun h => .inl (he h)⟩
      have h : r.frontierReached = true := h
      rw [h, hp.1] at hf
      obtain ⟨hne, hle⟩ := enough_iff.mp hf.symm
      have hspare := hspares page (by omega) (fun m hm => by
        obtain ⟨hgoes, hno⟩ := hp.2.2 m hm
        refine ⟨hgoes, ?_⟩
        rw [Bool.eq_false_iff, Ne, enough_iff] at hno
        omega) hle
      have htotal := v.totalHits_eq (page + 1)
      show required ≤ (v.series r.pagesFetched).length
      rw [hfetched]
      omega

/-! ## The three loops -/

theorem dedupeSeries_nodup (items : List ListedSeries) :
    ((dedupeSeries items).map (·.sourceId)).Nodup := by
  suffices h : ∀ result : List ListedSeries, (result.map (·.sourceId)).Nodup →
      ((items.foldl (fun result item => if item.sourceId ∈ result.map (·.sourceId) then result
        else result ++ [item]) result).map (·.sourceId)).Nodup from h [] List.nodup_nil
  induction items with
  | nil => exact fun result h => h
  | cons item items ih =>
    intro result h
    rw [List.foldl_cons]
    refine ih _ ?_
    split
    · exact h
    · rename_i hno
      rw [List.map_append, List.map_singleton]
      exact List.nodup_append.mpr ⟨h, List.nodup_singleton _, fun x hx y hy he =>
        hno (List.mem_singleton.mp hy ▸ he ▸ hx)⟩

/-- What a page does to the count, by what was parsed. -/
theorem countingStep_cases (t : CatalogText) (sentinels : Dict String String) (required : Nat)
    (parsed : List ListedSeries) (isLast : Bool) (s : Counted) :
    (parsed = [] ∧ countingStep t sentinels required parsed isLast s = .stop s false true) ∨
    ∃ s', s'.hits = s.hits + frontierHits t sentinels parsed ∧ parsed ≠ [] ∧
      ((enough required s'.hits = true ∧
          countingStep t sentinels required parsed isLast s = .stop s' true false) ∨
        (enough required s'.hits = false ∧ isLast = true ∧
          countingStep t sentinels required parsed isLast s = .stop s' false true) ∨
        (enough required s'.hits = false ∧ isLast = false ∧
          countingStep t sentinels required parsed isLast s = .next s')) := by
  unfold countingStep
  split
  · rename_i h
    exact .inl ⟨h, rfl⟩
  · rename_i h
    refine .inr ⟨⟨s.items ++ parsed, s.hits + frontierHits t sentinels parsed⟩, rfl, h, ?_⟩
    dsimp only
    split
    · rename_i he
      exact .inl ⟨he, rfl⟩
    · rename_i he
      have he := Bool.eq_false_iff.mpr he
      cases isLast with
      | true => exact .inr (.inl ⟨he, rfl, rfl⟩)
      | false => exact .inr (.inr ⟨he, rfl, rfl⟩)

theorem countsAt_counting (items : List ListedSeries) (isLast : Bool) (s : Counted) :
    CountsAt t sentinels required items (items ≠ [] ∧ isLast = false) s
      (some (countingStep t sentinels required items isLast s)) := by
  rcases countingStep_cases t sentinels required items isLast s with
    ⟨hnil, hc⟩ | ⟨s₁, hhits, hne, ⟨he, hc⟩ | ⟨he, hl, hc⟩ | ⟨he, hl, hc⟩⟩ <;> rw [hc]
  · rw [hnil]
    refine ⟨fun s' h => (by cases h), fun s' f e h hno => ?_, fun h _ => absurd rfl h.1,
      fun hno hyes => absurd (hno.symm.trans hyes) Bool.false_ne_true⟩
    cases h
    exact ⟨hno.symm, fun _ => rfl⟩
  · rw [hhits] at he
    refine ⟨fun s' h => (by cases h), fun s' f e h hno => ?_,
      fun _ hno => absurd (hno.symm.trans he) Bool.false_ne_true, fun _ _ => ⟨s₁, false, rfl⟩⟩
    cases h
    exact ⟨he.symm, fun h => (by cases h)⟩
  · rw [hhits] at he
    refine ⟨fun s' h => (by cases h), fun s' f e h hno => ?_,
      fun h => absurd (hl.symm.trans h.2) Bool.noConfusion,
      fun _ hyes => absurd (he.symm.trans hyes) Bool.false_ne_true⟩
    cases h
    exact ⟨he.symm, fun _ => rfl⟩
  · refine ⟨fun s' h => ?_, fun s' f e h => (by cases h), fun _ _ => ⟨s₁, rfl⟩, fun _ hyes => ?_⟩
    · cases h
      exact ⟨⟨hne, hl⟩, hhits, he⟩
    · rw [hhits] at he
      exact absurd (he.symm.trans hyes) Bool.false_ne_true

/-- A page that is not there, or raises. -/
theorem countsAt_none {result : Option (PageStep Counted)} (s : Counted)
    (h : result = none ∨ result = some .absent) :
    CountsAt t sentinels required [] False s result := by
  refine ⟨fun s' hr => ?_, fun s' f e hr => ?_, fun h => h.elim,
    fun hno hyes => absurd (hno.symm.trans hyes) Bool.false_ne_true⟩
  all_goals rcases h with h | h <;> rw [h] at hr <;> cases hr

/-- A page that ends the loop whatever it counts, after no hits. -/
theorem countsAt_ends (items : List ListedSeries) {s s' : Counted} (hs : s.hits = 0) :
    CountsAt t sentinels required items False s
      (some (.stop s' (enough required (frontierHits t sentinels items)) true)) := by
  refine ⟨fun s' h => (by cases h), fun s' f e h _ => ?_, fun h => h.elim, fun _ hyes => ?_⟩
  · cases h
    exact ⟨by rw [hs, Nat.zero_add], fun _ => rfl⟩
  · rw [hs, Nat.zero_add] at hyes
    exact ⟨s', true, by rw [hyes]⟩

end

namespace Asura

variable (t : CatalogText) (sentinels : Dict String String) (responses : Nat → AsuraResponse)

/-- The items of a page: those of the embedded feed of the first page, where it has one. -/
def itemsOn (number : Nat) : List ListedSeries :=
  match responses number with
  | .page page =>
    if number = 1 ∧ embeddedUpdates page.embedded ≠ [] then embeddedUpdates page.embedded
    else parsed page
  | _ => []

/-- The page leads to another one. -/
def goesOn (number : Nat) : Prop :=
  match responses number with
  | .page page => ¬ (number = 1 ∧ embeddedUpdates page.embedded ≠ []) ∧
      parsed page ≠ [] ∧ page.hasNext = true
  | _ => False

def seen : Seen t sentinels where
  items := itemsOn responses
  nodup page := by
    unfold itemsOn
    split
    · split <;> exact dedupeSeries_nodup _
    · exact List.nodup_nil

variable {t sentinels responses} {settings : FrontierSettings}

theorem step_counts (page : Nat) (s : Counted)
    (hs : s.hits = (seen t sentinels responses).totalHits page) :
    CountsAt t sentinels (requiredHits settings sentinels) (itemsOn responses (page + 1))
      (goesOn responses (page + 1)) s (step t settings sentinels responses (page + 1) s) := by
  unfold step itemsOn goesOn
  cases responses (page + 1) with
  | failed => exact countsAt_none s (.inl rfl)
  | notFound =>
    dsimp only
    split
    · exact countsAt_none s (.inr rfl)
    · exact countsAt_none s (.inl rfl)
  | page p =>
    dsimp only
    by_cases h : page + 1 = 1 ∧ embeddedUpdates p.embedded ≠ []
    · rw [if_pos h, if_pos h]
      have hzero : s.hits = 0 := by
        obtain rfl : page = 0 := by omega
        exact hs
      have hgoes : (¬ (page + 1 = 1 ∧ embeddedUpdates p.embedded ≠ []) ∧ parsed p ≠ [] ∧
          p.hasNext = true) = False := eq_false fun hg => hg.1 h
      rw [hgoes]
      exact countsAt_ends _ hzero
    · rw [if_neg h, if_neg h]
      have hgoes : (¬ (page + 1 = 1 ∧ embeddedUpdates p.embedded ≠ []) ∧ parsed p ≠ [] ∧
          p.hasNext = true) = (parsed p ≠ [] ∧ (!p.hasNext) = false) := by
        rw [eq_true h, true_and, Bool.not_eq_false']
      rw [hgoes]
      exact countsAt_counting _ _ s

end Asura

namespace MangaFire

variable (t : CatalogText) (sentinels : Dict String String)
  (responses : Nat → Option MangaFirePage)

def itemsOn (number : Nat) : List ListedSeries := ((responses number).map parsed).getD []

/-- The page leads to another one. -/
def goesOn (number : Nat) : Prop :=
  ∃ page, responses number = some page ∧ parsed page ≠ [] ∧ page.hasNext ≠ some false

def seen : Seen t sentinels where
  items := itemsOn responses
  nodup page := by
    unfold itemsOn
    cases responses page with
    | none => exact List.nodup_nil
    | some p => exact dedupeSeries_nodup _

variable {t sentinels responses} {settings : FrontierSettings}

theorem step_counts (page : Nat) (s : Counted) :
    CountsAt t sentinels (requiredHits settings sentinels) (itemsOn responses (page + 1))
      (goesOn responses (page + 1)) s (step t settings sentinels responses (page + 1) s) := by
  unfold step itemsOn goesOn
  cases responses (page + 1) with
  | none =>
    have hgoes : (∃ page : MangaFirePage, none = some page ∧ parsed page ≠ [] ∧
        page.hasNext ≠ some false) = False := by simp
    rw [hgoes]
    exact countsAt_none s (.inl rfl)
  | some p =>
    have hgoes : (∃ page, some p = some page ∧ parsed page ≠ [] ∧ page.hasNext ≠ some false) =
        (parsed p ≠ [] ∧ (p.hasNext == some false) = false) := by simp
    rw [hgoes]
    exact countsAt_counting _ _ s

end MangaFire

namespace MangaDex

variable (t : CatalogText) (sentinels : Dict String String)
  (responses : Nat → Option MangaDexPage)

def itemsOn (number : Nat) : List ListedSeries :=
  (((responses number).map fun page => page.rows.filterMap id).getD []).map itemOf

variable {t sentinels responses} {settings : FrontierSettings}

/-- A row that is a hit is one as an item. -/
theorem isHit_of_row {c : ListedChapter} (h : isRowHit t sentinels c = true) :
    isHit t sentinels (itemOf c) = true := by
  unfold isRowHit at h
  have hitem : sentinels.lookup (itemOf c).sourceId = sentinels.lookup c.sourceId := rfl
  cases hk : sentinels.lookup c.sourceId with
  | none =>
    rw [hk] at h
    cases h
  | some known =>
    rw [hk] at h
    obtain ⟨hne, hle⟩ := Bool.and_eq_true_iff.mp h
    have hnumber : c.number ≠ "" := by simpa using (Bool.and_eq_true_iff.mp hne).2
    have hlatest : latestRecentChapter t (itemOf c) = some c.number := by
      simp [latestRecentChapter, itemOf, recentNumbers, hnumber]
    rw [isHit, hlatest, hitem, hk]
    exact hle

/-- The rows add series that they hit, each once. -/
theorem foldl_addRow (t : CatalogText) (sentinels : Dict String String)
    (rows : List ListedChapter) (s : Grouped) (hs : s.hits.Nodup) :
    (rows.foldl (addRow t sentinels) s).hits.Nodup ∧
      ∀ x ∈ (rows.foldl (addRow t sentinels) s).hits, x ∈ s.hits ∨
        x ∈ ((rows.map itemOf).filter (isHit t sentinels)).map (·.sourceId) := by
  induction rows generalizing s with
  | nil => exact ⟨hs, fun x hx => .inl hx⟩
  | cons c rows ih =>
    rw [List.foldl_cons]
    have hadd : (addRow t sentinels s c).hits.Nodup ∧ ∀ x ∈ (addRow t sentinels s c).hits,
        x ∈ s.hits ∨ (x = c.sourceId ∧ isHit t sentinels (itemOf c) = true) := by
      unfold addRow
      dsimp only
      split
      · rename_i h
        obtain ⟨hhit, hno⟩ := Bool.and_eq_true_iff.mp h
        have hno := of_decide_eq_true hno
        refine ⟨List.nodup_append.mpr ⟨hs, List.nodup_singleton _, fun x hx y hy he =>
          hno (List.mem_singleton.mp hy ▸ he ▸ hx)⟩, fun x hx => ?_⟩
        exact (List.mem_append.mp hx).imp id fun hx =>
          ⟨List.mem_singleton.mp hx, isHit_of_row hhit⟩
      · exact ⟨hs, fun x hx => .inl hx⟩
    obtain ⟨hnd, hmem⟩ := ih _ hadd.1
    refine ⟨hnd, fun x hx => ?_⟩
    rcases hmem x hx with hx | hx
    · rcases hadd.2 x hx with hx | ⟨rfl, hhit⟩
      · exact .inl hx
      · exact .inr (List.mem_map_of_mem (List.mem_filter.mpr ⟨List.mem_cons_self, hhit⟩))
    · obtain ⟨item, hi, rfl⟩ := List.mem_map.mp hx
      obtain ⟨hi, hhit⟩ := List.mem_filter.mp hi
      exact .inr (List.mem_map_of_mem (List.mem_filter.mpr ⟨List.mem_cons_of_mem _ hi, hhit⟩))

/-- The loop counts the series that it hit, so its report is right. -/
theorem report {maxPages : Nat} {r : PageRun Grouped}
    (h : pageLoop (step t settings sentinels responses) 0 maxPages {} = some r) :
    FrontierReport t sentinels (itemsOn responses) (requiredHits settings sentinels) maxPages
      (listingDiagnostics r.pagesFetched maxPages r.frontierReached r.exhausted) := by
  let P (page : Nat) (s : Grouped) : Prop := s.hits.Nodup ∧
    ∀ x ∈ s.hits, x ∈ hitSeries t sentinels (itemsOn responses) page
  have hrows : ∀ page s p, P page s → responses (page + 1) = some p →
      P (page + 1) ((p.rows.filterMap id).foldl (addRow t sentinels) s) := by
    rintro page s p ⟨hnd, hmem⟩ hp
    obtain ⟨hnd', hmem'⟩ := foldl_addRow t sentinels
      (p.rows.filterMap id) s hnd
    refine ⟨hnd', fun x hx => mem_hitSeries.mpr ((hmem' x hx).imp (hmem x) fun hx => ?_)⟩
    rwa [hitIds, itemsOn, hp]
  have hnext : ∀ page s s', P page s →
      step t settings sentinels responses (page + 1) s = some (.next s') → P (page + 1) s' := by
    intro page s s' hp hs
    obtain ⟨p, hpage, hs⟩ := Option.map_eq_some_iff.mp hs
    dsimp only at hs
    split at hs
    · cases hs
    split at hs
    · cases hs
    split at hs
    · cases hs
    cases hs
    exact hrows page s p hp hpage
  have hinit : P 0 {} := ⟨List.nodup_nil, fun x hx => absurd hx List.not_mem_nil⟩
  rcases pageLoop_spec hnext hinit h with ⟨-, hf, hend⟩ | ⟨page, s, hfetched, hlt, hp, hs⟩
  · refine ⟨fun h => ?_, fun _ => hend.imp id fun h => h.trans (Nat.zero_add _)⟩
    rw [show r.frontierReached = true from h] at hf
    cases hf
  · obtain ⟨p, hpage, hs⟩ := Option.map_eq_some_iff.mp hs
    dsimp only at hs
    refine ⟨fun h => ?_, fun h => .inl ?_⟩
    · have h : r.frontierReached = true := h
      split at hs
      · injection hs with _ hf _
        exact absurd (hf.trans h) Bool.false_ne_true
      split at hs
      · rename_i he
        obtain ⟨hnd, hmem⟩ := hrows page s p hp hpage
        show _ ≤ (hitSeries t sentinels (itemsOn responses) r.pagesFetched).length
        rw [hfetched]
        exact (enough_iff.mp he).2.trans (hnd.length_le_of_subset hmem)
      split at hs
      · injection hs with _ hf _
        exact absurd (hf.trans h) Bool.false_ne_true
      · cases hs
    · have h : r.frontierReached = false := h
      show r.exhausted = true
      split at hs
      · injection hs with _ _ he
        exact he.symm
      split at hs
      · injection hs with _ hf _
        exact absurd (h.symm.trans hf.symm) Bool.false_ne_true
      split at hs
      · injection hs with _ _ he
        exact he.symm
      · cases hs

end MangaDex

/-! ## The reports -/

/-- On every sequence of pages, the report of MangaDex is right; those of Asura and MangaFire are
exactly when the count does not need the hits of sentinels that were hit on an earlier page. -/
theorem frontier_reached_iff (t : CatalogText) (settings : FrontierSettings)
    (sentinels : List FrontierSentinel) (asura : Nat → AsuraResponse)
    (mangafire : Nat → Option MangaFirePage) (mangadex : Nat → Option MangaDexPage) :
    let known := sentinelMap sentinels
    let required := requiredHits settings known
    ((∀ items d, Asura.listRecentFrontier t settings asura sentinels = some (items, d) →
        FrontierReport t known (Asura.itemsOn asura) required settings.asuraRecentPages d) ↔
      SparesRepeats (Asura.seen t known asura) (Asura.goesOn asura) required
        settings.asuraRecentPages) ∧
    ((∀ items d, MangaFire.listRecentFrontierApi t settings mangafire sentinels =
        some (items, d) →
        FrontierReport t known (MangaFire.itemsOn mangafire) required
          settings.mangafireRecentPages d) ↔
      SparesRepeats (MangaFire.seen t known mangafire) (MangaFire.goesOn mangafire) required
        settings.mangafireRecentPages) ∧
    ∀ items d, MangaDex.listRecentFrontier t settings mangadex sentinels = some (items, d) →
      FrontierReport t known (MangaDex.itemsOn mangadex) required settings.mangadexRecentPages
        d := by
  intro known required
  refine ⟨?_, ?_, fun items d h => ?_⟩
  · rw [← report_iff (Asura.step t settings known asura) Asura.step_counts]
    constructor
    · intro h r hr
      have hd := h _ _ (by rw [Asura.listRecentFrontier, hr]; rfl)
      exact ⟨hd.reached, hd.stopped⟩
    · intro h items d hd
      obtain ⟨r, hr, hd⟩ := Option.bind_eq_some_iff.mp hd
      cases hd
      exact ⟨(h r hr).reached, (h r hr).stopped⟩
  · rw [← report_iff (MangaFire.step t settings known mangafire)
      fun page s _ => MangaFire.step_counts page s]
    constructor
    · intro h r hr
      exact h _ _ (by rw [MangaFire.listRecentFrontierApi, hr]; rfl)
    · intro h items d hd
      obtain ⟨r, hr, hd⟩ := Option.bind_eq_some_iff.mp hd
      cases hd
      exact h r hr
  · obtain ⟨r, hr, h⟩ := Option.bind_eq_some_iff.mp h
    cases h
    exact MangaDex.report hr

/-- Two pages of MangaFire that both list the first of two series, with no new chapter. -/
def relistedPages : Nat → Option MangaFirePage := fun _ =>
  some ⟨[some ⟨"first", some [.row "10"]⟩], none⟩

/-- Two hits are asked for, and the one series is hit twice. -/
theorem relistedPages_reached :
    ¬ ∀ items d, MangaFire.listRecentFrontierApi asciiCatalog {} relistedPages
        [⟨"first", "10"⟩, ⟨"second", "7"⟩] = some (items, d) →
      FrontierReport asciiCatalog (sentinelMap [⟨"first", "10"⟩, ⟨"second", "7"⟩])
        (MangaFire.itemsOn relistedPages)
        (requiredHits {} (sentinelMap [⟨"first", "10"⟩, ⟨"second", "7"⟩]))
        20 d := by
  intro h
  have hd := (h [⟨"first", some [.row "10"]⟩] ⟨2, true, false, false, none⟩
    (by decide +kernel)).reached rfl
  revert hd
  decide +kernel

end MangaManager
