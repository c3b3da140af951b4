import MangaManager.Lib.Feed
import MangaManager.Lib.Run
import MangaManager.Providers.Frontier
import MangaManager.Queue.Retention
import MangaManager.Series.Tables

/-!
# Pulls

`SourcePullHandler` of `manga_manager/application/source_pull.py` reads the listing of a provider as
far as the frontier that its last pull saved, and requests a refresh of each series whose listing is
new, has a newer chapter or was not looked at for seven days (`_changed_catalog_items`); where the
listing was cut off, also of the tracked series that it does not show (`_tracked_safety_recovery`).

The listing is a feed (`Lib.Feed`): the provider touches its series at any time, also between the
pages of a pull. `pull_misses_nothing`: a pull sees every series that was touched since the one
before, as long as fewer of the sentinels than it needs were touched without a newer chapter.
-/

namespace MangaManager

open Lib

/-- What pulls read of the settings. -/
structure PullSettings extends FrontierSettings where
  kingofshojoRecentPages : Nat := 20
  frontierLimit : Nat := 20

/-- A page of an ordered listing; an entry that does not parse is none. -/
structure FeedPage where
  entries : List (Option ListedSeries)
  hasNext : Bool

namespace KingOfShojo

variable (t : CatalogText) (settings : PullSettings) (sentinels : Dict String String)
  (responses : Nat → Option FeedPage)

/-- `parse_recent_series`. -/
def parsed (page : FeedPage) : List ListedSeries :=
  dedupeSeries ((page.entries.take 120).filterMap id)

def step (number : Nat) (s : Counted) : Option (PageStep Counted) :=
  (responses number).map fun page =>
    countingStep t sentinels (requiredHits settings.toFrontierSettings sentinels) (parsed page)
      (!page.hasNext) s

/-- `KingOfShojoAdapter.list_recent_frontier`. -/
def listRecentFrontier (sentinels : List FrontierSentinel) :
    Option (List ListedSeries × ListingDiagnostics) := do
  let run ← pageLoop (step t settings (sentinelMap sentinels) responses) 0
    settings.kingofshojoRecentPages {}
  pure (dedupeSeries run.state.items, listingDiagnostics run.pagesFetched
    settings.kingofshojoRecentPages run.frontierReached run.exhausted)

end KingOfShojo

namespace MangaFire

variable (t : CatalogText) (settings : PullSettings) (api : Nat → Option FeedPage)
  (html : Nat → Option (List ListedSeries)) (sentinels : List FrontierSentinel)

/-- `list_recent_frontier_html`; `html` are the items of its pages. -/
def listRecentFrontierHtml : Option (List ListedSeries × ListingDiagnostics) := do
  let known := sentinelMap sentinels
  let required := requiredHits settings.toFrontierSettings known
  let run ← pageLoop (fun number s => (html number).map fun parsed =>
    countingStep t known required parsed false s) 0 settings.mangafireRecentPages {}
  pure (dedupeSeries run.state.items, listingDiagnostics run.pagesFetched
    settings.mangafireRecentPages run.frontierReached run.exhausted)

/-- `list_recent_frontier_api`, from the pages that the API answers. -/
def fromApi : Option (List ListedSeries × ListingDiagnostics) :=
  listRecentFrontierApi t settings.toFrontierSettings
    (fun number => (api number).map fun page => ⟨page.entries, some page.hasNext⟩) sentinels

/-- `MangaFireAdapter.list_recent_frontier`: where the API raises or has no items, the pages of the
site are read. -/
def listRecentFrontier : Option (List ListedSeries × ListingDiagnostics) :=
  match fromApi t settings api sentinels with
  | some (items, d) =>
    if items ≠ [] then some (items, d) else listRecentFrontierHtml t settings html sentinels
  | none => listRecentFrontierHtml t settings html sentinels

end MangaFire

/-- The providers whose listing has each series once, the one updated last first. -/
inductive OrderedSource where
  | mangafire
  | kingofshojo
  deriving DecidableEq

namespace OrderedSource

/-- `adapter.source`. -/
def name : OrderedSource → String
  | mangafire => "mangafire"
  | kingofshojo => "kingofshojo"

def recentPages (settings : PullSettings) : OrderedSource → Nat
  | mangafire => settings.mangafireRecentPages
  | kingofshojo => settings.kingofshojoRecentPages

section
variable (t : CatalogText) (settings : PullSettings) (responses : Nat → Option FeedPage)
  (html : Nat → Option (List ListedSeries)) (sentinels : List FrontierSentinel)

/-- `adapter.list_recent_frontier`. -/
def listRecentFrontier : OrderedSource → Option (List ListedSeries × ListingDiagnostics)
  | mangafire => MangaFire.listRecentFrontier t settings responses html sentinels
  | kingofshojo => KingOfShojo.listRecentFrontier t settings responses sentinels

/-- The items come from the ordered listing. -/
def isOrdered : OrderedSource → Bool
  | mangafire => (MangaFire.fromApi t settings responses sentinels).any (·.1 != [])
  | kingofshojo => true

end

end OrderedSource

/-! ## The handler -/

/-- A row of `source_series_v2` with what a pull reads of it and of its series. -/
structure SourceIdentity extends CatalogSourceSeries where
  detailFetchedAt : Option Time := none
  listing : ListingMetadata := {}
  status : SeriesStatus := .untracked
  deriving DecidableEq

structure PullCatalog where
  identities : List SourceIdentity := []
  alternates : List CatalogAlternateSourceListing := []

/-- What `refresh_payload` takes of an item besides what it copies. -/
structure RefreshRequest where
  sourceId : String
  observationVersion : String
  deriving DecidableEq

section
variable (t : CatalogText) (source : String) (c : PullCatalog) (now : Time)
  (explicit : String → String)

/-- `item.metadata`; `explicit` is its `latest_chapter`. -/
def ListedSeries.metadata (item : ListedSeries) : ListingMetadata :=
  ⟨explicit item.sourceId, item.recentChapters⟩

/-- `build_listing_frontier`, after the rows that are in the result. -/
def buildListingFrontier (limit : Nat) :
    List ListedSeries → List FrontierSentinel → Option (List FrontierSentinel)
  | [], result => some result
  | item :: rows, result => do
    let latest ← latestListingChapter (item.metadata explicit)
    let result := if latest = "" then result else result ++ [⟨item.sourceId, latest⟩]
    if limit ≤ result.length then some result else buildListingFrontier limit rows result

/-- `_load_frontier`. -/
def loadFrontier (rows : List FrontierSentinel) : List FrontierSentinel :=
  rows.filter (·.sourceId != "")

/-- `identities.get(item.source_id)`: the identity, or that of the listing it is an alternate of. -/
def identityOf (sourceId : String) : Option SourceIdentity :=
  match (c.identities.filter fun row =>
      row.source = source ∧ row.sourceId = sourceId).getLast? with
  | some row => some row
  | none => ((c.alternates.filter fun a =>
        a.source = source ∧ a.sourceId = sourceId).filterMap fun a =>
      c.identities.find? (·.id = a.primarySourceSeriesId)).getLast?

/-- `fetched_at is None or fetched_at < stale_before`. -/
def SourceIdentity.isStale (row : SourceIdentity) : Bool :=
  match row.detailFetchedAt with
  | none => true
  | some fetchedAt => decide (fetchedAt < now - days 7)

/-- The item is one of the changed. -/
def isChanged (item : ListedSeries) : Option Bool := do
  let current ← listingObservationVersion t (item.metadata explicit)
  match identityOf source c item.sourceId with
  | none => some true
  | some existing =>
    let newer ← if current = "" then some false else keyAbove current existing.observationVersion
    some (newer || existing.isStale now)

/-- `_changed_catalog_items`. -/
def changedCatalogItems : List ListedSeries → Option (List ListedSeries)
  | [] => some []
  | item :: items => do
    let changed ← isChanged t source c now explicit item
    let rest ← changedCatalogItems items
    some (if changed then item :: rest else rest)

/-- `_tracked_safety_recovery`. -/
def trackedSafetyRecovery (listed : List ListedSeries) (recoveryRequired : Bool) :
    List SourceIdentity :=
  let observed := if listed = [] then [""] else listed.map (·.sourceId)
  if recoveryRequired then
    c.identities.filter fun row =>
      row.source = source ∧ row.status.isTracked ∧ row.sourceId ∉ observed
  else []

/-- `refresh_payload`; none, when it raises. -/
def refreshPayload (sourceId : String) (m : ListingMetadata) : Option RefreshRequest :=
  if m.latestChapter ≠ "" then some ⟨sourceId, m.latestChapter⟩
  else (latestListingChapter m).map fun latest => ⟨sourceId, latest⟩

end

/-- What a pull that succeeds leaves behind. -/
structure PullOutcome where
  listed : List ListedSeries
  diagnostics : ListingDiagnostics
  frontier : List FrontierSentinel
  refreshes : List RefreshRequest
  deriving DecidableEq

/-- `SourcePullHandler.__call__`: none, when a page or a comparison raises. -/
def sourcePull (t : CatalogText) (settings : PullSettings) (source : OrderedSource)
    (c : PullCatalog) (now : Time) (explicit : String → String)
    (responses : Nat → Option FeedPage) (html : Nat → Option (List ListedSeries))
    (frontier : List FrontierSentinel) : Option PullOutcome := do
  let (listed, diagnostics) ← source.listRecentFrontier t settings responses html
    (loadFrontier frontier)
  let observed ← buildListingFrontier explicit settings.frontierLimit listed []
  let changed ← changedCatalogItems t source.name c now explicit listed
  let recovery := trackedSafetyRecovery source.name c listed
    (diagnostics.safetyLimitReached || diagnostics.trackedFallbackRequired.getD false)
  let recovered := recovery.filter fun row => row.sourceId ∉ changed.map (·.sourceId)
  let fromListing ← changed.mapM fun item =>
    refreshPayload item.sourceId (item.metadata explicit)
  let fromCatalog ← recovered.mapM fun row => refreshPayload row.sourceId row.listing
  pure ⟨listed, diagnostics, observed, fromListing ++ fromCatalog⟩

/-! ## The loop over the pages -/

section
variable {t : CatalogText} {known : Dict String String} {required : Nat}
  {step : Nat → Counted → Option (PageStep Counted)} {pages : Nat → List ListedSeries}
  {isLast : Nat → Bool} {maxPages : Nat} {r : PageRun Counted}

/-- How a loop that counts the hits of its pages ends. -/
structure CountedPages (t : CatalogText) (known : Dict String String) (required maxPages : Nat)
    (pages : Nat → List ListedSeries) (isLast : Nat → Bool) (r : PageRun Counted) : Prop where
  items : r.state.items = (List.range r.pagesFetched).flatMap pages
  reached : r.frontierReached = true → required ≠ 0 ∧
    required ≤ frontierHits t known r.state.items
  ended : r.frontierReached = false → r.exhausted = true →
    ∃ m, m < maxPages ∧ r.pagesFetched = m + 1 ∧ (pages m = [] ∨ isLast m = true)
  stopped : r.frontierReached = false → r.exhausted = false → r.pagesFetched = maxPages

/-- The state of a loop that has read the first `n` pages. -/
def countedTo (t : CatalogText) (known : Dict String String) (pages : Nat → List ListedSeries)
    (n : Nat) : Counted :=
  ⟨(List.range n).flatMap pages, frontierHits t known ((List.range n).flatMap pages)⟩

theorem countedTo_succ (n : Nat) : countedTo t known pages (n + 1) =
    ⟨(countedTo t known pages n).items ++ pages n,
      (countedTo t known pages n).hits + frontierHits t known (pages n)⟩ := by
  simp [countedTo, List.range_succ, frontierHits]

theorem countedPages (hstep : ∀ n s result, step (n + 1) s = some result →
      result = countingStep t known required (pages n) (isLast n) s) {fetched n : Nat}
    (h : pageLoop step fetched n (countedTo t known pages fetched) = some r) :
    CountedPages t known required (fetched + n) pages isLast r := by
  induction n generalizing fetched with
  | zero =>
    cases h
    exact ⟨rfl, fun h => (by cases h), fun _ h => (by cases h), fun _ _ => rfl⟩
  | succ n ih =>
    rw [pageLoop] at h
    obtain ⟨result, hr, h⟩ := Option.bind_eq_some_iff.mp h
    have hc := hstep _ _ _ hr
    unfold countingStep at hc
    rw [← countedTo_succ] at hc
    dsimp only at hc
    split_ifs at hc with hnil henough hlast
    · rw [hc] at h
      cases h
      refine ⟨?_, fun h => (by cases h), fun _ _ => ⟨fetched, by omega, rfl, .inl hnil⟩,
        fun _ h => (by cases h)⟩
      simp [countedTo, List.range_succ, hnil]
    · rw [hc] at h
      cases h
      exact ⟨rfl, fun _ => enough_iff.mp henough, fun h => (by cases h), fun h => (by cases h)⟩
    · rw [hc] at h
      cases h
      exact ⟨rfl, fun h => (by cases h), fun _ _ => ⟨fetched, by omega, rfl, .inr hlast⟩,
        fun _ h => (by cases h)⟩
    · rw [hc] at h
      have := ih h
      rwa [show fetched + 1 + n = fetched + (n + 1) by omega] at this

end

/-! ## Items of a listing -/

section
variable {items result : List ListedSeries} {item : ListedSeries}

/-- `dedupe_series`, after the items that are kept. -/
def dedupeOnto (result items : List ListedSeries) : List ListedSeries :=
  items.foldl (fun result item =>
    if item.sourceId ∈ result.map (·.sourceId) then result else result ++ [item]) result

@[simp] theorem dedupeOnto_end : dedupeOnto result [] = result := rfl

theorem dedupeOnto_cons : dedupeOnto result (item :: items) =
    dedupeOnto (if item.sourceId ∈ result.map (·.sourceId) then result else result ++ [item])
      items := rfl

theorem mem_of_mem_dedupeOnto (h : item ∈ dedupeOnto result items) :
    item ∈ result ∨ item ∈ items := by
  induction items generalizing result with
  | nil => exact .inl h
  | cons x items ih =>
    rw [dedupeOnto_cons] at h
    rcases ih h with h | h
    · split at h
      · exact .inl h
      · simpa [or_assoc] using Or.inl (b := item ∈ items) (List.mem_append.mp h)
    · exact .inr (List.mem_cons_of_mem _ h)

theorem mem_of_mem_dedupeSeries (h : item ∈ dedupeSeries items) : item ∈ items :=
  (mem_of_mem_dedupeOnto h).resolve_left List.not_mem_nil

theorem mem_dedupeOnto (hsole : ∀ i ∈ items, i.sourceId = item.sourceId → i = item)
    (hkept : ∀ i ∈ result, i.sourceId = item.sourceId → i = item)
    (h : item ∈ result ∨ item ∈ items) : item ∈ dedupeOnto result items := by
  induction items generalizing result with
  | nil => exact h.resolve_right List.not_mem_nil
  | cons x items ih =>
    rw [dedupeOnto_cons]
    refine ih (fun i hi => hsole i (List.mem_cons_of_mem _ hi)) (fun i hi he => ?_) ?_
    · split at hi
      · exact hkept i hi he
      · rcases List.mem_append.mp hi with hi | hi
        · exact hkept i hi he
        · exact hsole i (List.mem_singleton.mp hi ▸ List.mem_cons_self) he
    · rcases h with h | h
      · left
        split
        · exact h
        · exact List.mem_append_left _ h
      · rcases List.mem_cons.mp h with rfl | h
        · left
          split
          · -- an item of the series is there, and it is this one
            rename_i hin
            obtain ⟨i, hi, he⟩ := List.mem_map.mp hin
            exact hkept i hi he ▸ hi
          · exact List.mem_append_right _ List.mem_cons_self
        · exact .inr h

/-- The only item of its series is kept. -/
theorem mem_dedupeSeries (h : item ∈ items)
    (hsole : ∀ i ∈ items, i.sourceId = item.sourceId → i = item) : item ∈ dedupeSeries items :=
  mem_dedupeOnto hsole (fun _ hi => absurd hi List.not_mem_nil) (.inr h)

theorem dedupeOnto_of_nodup (h : ((result ++ items).map (·.sourceId)).Nodup) :
    dedupeOnto result items = result ++ items := by
  induction items generalizing result with
  | nil => simp
  | cons x items ih =>
    have hno : x.sourceId ∉ result.map (·.sourceId) := by
      rw [List.map_append, List.nodup_append] at h
      exact fun hx => h.2.2 _ hx _ (by simp) rfl
    rw [dedupeOnto_cons, if_neg hno, ih]
    · simp
    · simpa using h

/-- The items of different series are all kept. -/
theorem dedupeSeries_of_nodup (h : (items.map (·.sourceId)).Nodup) :
    dedupeSeries items = items :=
  dedupeOnto_of_nodup h

end

/-! ## The listing of a provider -/

/-- A provider whose entries are `τ`, with what is parsed of them and the size of its pages. -/
structure OrderedFeed (τ : Type) where
  source : OrderedSource
  key : τ → String
  parse : τ → Option ListedSeries
  pageSize : Nat
  parse_key : ∀ {e item}, parse e = some item → item.sourceId = key e
  parse_ne : ∀ {e item}, parse e = some item → item.sourceId ≠ ""
  pageSize_pos : 0 < pageSize
  cards : source = .kingofshojo → pageSize ≤ 120

/-- A pull: the entries that are touched before each of its pages, the pages that raise, the items
of the pages of the site, the `latest_chapter` of each item, and what it finds in the catalog. -/
structure PullArgs (τ : Type) where
  between : List (List τ)
  fails : Nat → Bool
  html : Nat → Option (List ListedSeries) := fun _ => none
  explicit : String → String
  catalog : PullCatalog
  now : Time

/-- The feed, the series that were touched since the last pull began that succeeded and read the
feed, and the frontier that was saved last. -/
structure Pulled (τ : Type) where
  feed : List τ
  touched : List String
  frontier : List FrontierSentinel := []
  deriving DecidableEq

inductive PullMove (τ : Type) where
  | update (x : τ)
  | withdraw (sourceId : String)
  | pull (p : PullArgs τ)

namespace OrderedFeed

variable {τ : Type} (f : OrderedFeed τ)

/-- The pages that a pull reads. -/
def walk (s : Pulled τ) (p : PullArgs τ) : Walk τ := ⟨s.feed, p.between, f.pageSize⟩

/-- What the provider answers. -/
def serve (s : Pulled τ) (p : PullArgs τ) : Nat → Option FeedPage
  | 0 => none
  | n + 1 =>
    let w := f.walk s p
    if p.fails (n + 1) then none
    else some ⟨(w.page f.key n).map f.parse,
      decide ((n + 1) * f.pageSize < (w.feedAt f.key (n + 1)).length)⟩

section
variable (t : CatalogText) (settings : PullSettings)

def pull (s : Pulled τ) (p : PullArgs τ) : Option PullOutcome :=
  sourcePull t settings f.source p.catalog p.now p.explicit (f.serve s p) p.html s.frontier

/-- The pull reads the feed, and not the pages of the site. -/
def readsFeed (s : Pulled τ) (p : PullArgs τ) : Bool :=
  f.source.isOrdered t settings (f.serve s p) (loadFrontier s.frontier)

/-- A pull that raises changes nothing; one that read the feed is behind on what was touched
meanwhile only. -/
def apply (s : Pulled τ) : PullMove τ → Pulled τ
  | .update x => { s with feed := touch f.key s.feed x, touched := f.key x :: s.touched }
  | .withdraw sourceId => { s with feed := s.feed.filter (f.key · ≠ sourceId) }
  | .pull p =>
    let w := f.walk s p
    let n := p.between.length
    let during := (w.touches n).map f.key
    match f.pull t settings s p with
    | none => { s with feed := w.feedAt f.key n, touched := during ++ s.touched }
    | some o => ⟨w.feedAt f.key n,
        if f.readsFeed t settings s p then during else during ++ s.touched, o.frontier⟩

end

/-! ## What a pull reads -/

/-- The entry is of a sentinel, and has no newer chapter. -/
def isHitEntry (t : CatalogText) (s : Pulled τ) (e : τ) : Bool :=
  ((f.parse e).map (isHit t (sentinelMap (loadFrontier s.frontier)))).getD false

/-- The hits of the first `n` pages that were touched since the pull before. -/
def stirred (t : CatalogText) (s : Pulled τ) (p : PullArgs τ) (n : Nat) : Nat :=
  (f.walk s p).churn f.key (f.isHitEntry t s) s.touched n

/-- What a pull has to rely on: a page that is not empty has an entry that parses, and fewer of the
sentinels it counts than it asks for were touched without a newer chapter. -/
structure Steady (t : CatalogText) (settings : PullSettings) (s : Pulled τ) (p : PullArgs τ)
    (o : PullOutcome) : Prop where
  parses : ∀ n < f.source.recentPages settings, (f.walk s p).page f.key n ≠ [] →
    ((f.walk s p).page f.key n).filterMap f.parse ≠ []
  stable : o.diagnostics.frontierReached = true → f.stirred t s p o.diagnostics.pagesFetched <
    requiredHits settings.toFrontierSettings (sentinelMap (loadFrontier s.frontier))

section
variable {f} {t : CatalogText} {settings : PullSettings} {s : Pulled τ} {p : PullArgs τ}
  {e : τ} {item : ListedSeries}

/-- The series that were touched are the first ones, all along. -/
theorem marked_apply (m : PullMove τ) (h : Marked f.key s.touched s.feed) :
    Marked f.key (f.apply t settings s m).touched (f.apply t settings s m).feed := by
  cases m with
  | update x => exact h.touch x
  | withdraw k => exact h.sublist List.filter_sublist
  | pull p =>
    unfold apply
    dsimp only
    split
    · exact (f.walk s p).marked h p.between.length
    split
    · have hnone : Marked f.key [] (f.walk s p).feed :=
        ⟨h.nodup, h.first.imp fun _ hb => (by cases hb)⟩
      exact ((f.walk s p).marked hnone p.between.length).congr fun k => by simp
    · exact (f.walk s p).marked h p.between.length

theorem marked_run (moves : List (PullMove τ)) (h : Marked f.key s.touched s.feed) :
    Marked f.key (moves.foldl (f.apply t settings) s).touched
      (moves.foldl (f.apply t settings) s).feed := by
  induction moves generalizing s with
  | nil => exact h
  | cons m moves ih => exact ih (marked_apply m h)

theorem parsed_sublist (l : List τ) :
    ((l.filterMap f.parse).map (·.sourceId)).Sublist (l.map f.key) := by
  induction l with
  | nil => simp
  | cons e l ih =>
    cases he : f.parse e with
    | none => simpa [he] using ih.cons (f.key e)
    | some item => simpa [he, f.parse_key he] using ih

variable (f) in
/-- The items of page `n + 1`. -/
def itemsOn (s : Pulled τ) (p : PullArgs τ) (n : Nat) : List ListedSeries :=
  ((f.walk s p).page f.key n).filterMap f.parse

theorem parsed_page (h : Marked f.key s.touched s.feed) (n : Nat) :
    dedupeSeries ((((f.walk s p).page f.key n).map f.parse).filterMap id) = f.itemsOn s p n := by
  rw [List.filterMap_map]
  exact dedupeSeries_of_nodup (((f.walk s p).page_nodup h).sublist (parsed_sublist _))

variable (f) in
/-- Page `n + 1` is the last one of the feed. -/
def endsOn (s : Pulled τ) (p : PullArgs τ) (n : Nat) : Bool :=
  !decide ((n + 1) * f.pageSize < ((f.walk s p).feedAt f.key (n + 1)).length)

/-- Both loops count the hits of the pages of the feed. -/
theorem listRecentFrontier_pages (h : Marked f.key s.touched s.feed)
    {listed : List ListedSeries} {d : ListingDiagnostics}
    (hfeed : f.readsFeed t settings s p = true)
    (hl : f.source.listRecentFrontier t settings (f.serve s p) p.html (loadFrontier s.frontier) =
      some (listed, d)) :
    ∃ r, CountedPages t (sentinelMap (loadFrontier s.frontier))
        (requiredHits settings.toFrontierSettings (sentinelMap (loadFrontier s.frontier)))
        (f.source.recentPages settings) (f.itemsOn s p) (f.endsOn s p) r ∧
      listed = dedupeSeries r.state.items ∧
      d = listingDiagnostics r.pagesFetched (f.source.recentPages settings) r.frontierReached
        r.exhausted := by
  unfold readsFeed at hfeed
  cases hsource : f.source with
  | mangafire =>
    rw [hsource] at hl hfeed
    obtain ⟨⟨items, d'⟩, hapi, hne⟩ := (Option.any_eq_true _ _).mp hfeed
    simp only [OrderedSource.listRecentFrontier, MangaFire.listRecentFrontier, hapi] at hl
    rw [if_pos (by simpa using hne)] at hl
    cases hl
    obtain ⟨r, hr, hl⟩ := Option.bind_eq_some_iff.mp hapi
    cases hl
    refine ⟨r, ?_, rfl, rfl⟩
    rw [← Nat.zero_add (OrderedSource.recentPages settings .mangafire)]
    refine countedPages (fun n st result hres => ?_) hr
    obtain ⟨page, hpage, rfl⟩ := Option.map_eq_some_iff.mp hres
    obtain ⟨q, hq, rfl⟩ := Option.map_eq_some_iff.mp hpage
    simp only [serve] at hq
    split at hq
    · cases hq
    · cases hq
      have hlast : ∀ b : Bool, (some b == some false) = !b := by decide
      simp only [MangaFire.parsed, parsed_page h, endsOn, hlast]
  | kingofshojo =>
    rw [hsource] at hl
    obtain ⟨r, hr, hl⟩ := Option.bind_eq_some_iff.mp hl
    cases hl
    refine ⟨r, ?_, rfl, rfl⟩
    rw [← Nat.zero_add (OrderedSource.recentPages settings .kingofshojo)]
    refine countedPages (fun n st result hres => ?_) hr
    obtain ⟨page, hpage, rfl⟩ := Option.map_eq_some_iff.mp hres
    simp only [serve] at hpage
    split at hpage
    · cases hpage
    · cases hpage
      have hsize : (((f.walk s p).page f.key n).map f.parse).length ≤ 120 := by
        have := f.cards hsource
        simp only [Walk.page, List.length_map, List.length_take, walk]
        omega
      simp only [KingOfShojo.parsed, List.take_of_length_le hsize, parsed_page h, endsOn]

theorem items_eq (n : Nat) : (List.range n).flatMap (f.itemsOn s p) =
    ((f.walk s p).read f.key n).filterMap f.parse := by
  induction n with
  | zero => rfl
  | succ n ih => simp [List.range_succ, itemsOn, ih]

/-- The entry of an item that was read. -/
theorem eq_of_item {n : Nat} {i : ListedSeries} (h : Marked f.key s.touched s.feed)
    (hi : i ∈ ((f.walk s p).read f.key n).filterMap f.parse)
    (he : e ∈ (f.walk s p).feedAt f.key n) (hk : f.key e ∉ ((f.walk s p).touches n).map f.key)
    (hparse : f.parse e = some item) (hid : i.sourceId = item.sourceId) :
    e ∈ (f.walk s p).read f.key n ∧ i = item := by
  obtain ⟨e', he', hi⟩ := List.mem_filterMap.mp hi
  have hkey : f.key e' = f.key e := by rw [← f.parse_key hi, hid, f.parse_key hparse]
  obtain rfl := (f.walk s p).eq_of_read h he' he hk hkey
  exact ⟨he', Option.some.inj (hi.symm.trans hparse)⟩

theorem frontierHits_eq (n : Nat) :
    frontierHits t (sentinelMap (loadFrontier s.frontier))
      (((f.walk s p).read f.key n).filterMap f.parse) =
    (f.walk s p).hits f.key (f.isHitEntry t s) n := by
  rw [frontierHits, List.countP_filterMap, Walk.hits]
  rfl

end

end OrderedFeed

/-! ## What a pull requests -/

section
variable {t : CatalogText} {source : String} {c : PullCatalog} {now : Time}
  {explicit : String → String} {items changed : List ListedSeries} {item : ListedSeries}

/-- The catalog has the listing as it is, and looked at it in the last seven days. -/
def UpToDate (t : CatalogText) (source : String) (c : PullCatalog) (now : Time)
    (explicit : String → String) (item : ListedSeries) : Prop :=
  ∃ row current, identityOf source c item.sourceId = some row ∧
    listingObservationVersion t (item.metadata explicit) = some current ∧
    (current = "" ∨ keyAbove current row.observationVersion = some false) ∧
    row.isStale now = false

theorem upToDate_of_unchanged (h : isChanged t source c now explicit item = some false) :
    UpToDate t source c now explicit item := by
  obtain ⟨current, hcurrent, h⟩ := Option.bind_eq_some_iff.mp h
  cases hrow : identityOf source c item.sourceId with
  | none =>
    rw [hrow] at h
    cases h
  | some row =>
    rw [hrow] at h
    dsimp only at h
    split at h
    · rename_i hempty
      have hstale : row.isStale now = false := by simpa using h
      exact ⟨row, current, hrow, hcurrent, .inl hempty, hstale⟩
    · obtain ⟨newer, hnewer, h⟩ := Option.bind_eq_some_iff.mp h
      have h := Option.some.inj h
      rw [Bool.or_eq_false_iff] at h
      obtain ⟨rfl, hstale⟩ := h
      exact ⟨row, current, hrow, hcurrent, .inr hnewer, hstale⟩

/-- A listed item is one of the changed, or the catalog is up to date with it. -/
theorem changed_or_upToDate (h : changedCatalogItems t source c now explicit items = some changed)
    (hi : item ∈ items) : item ∈ changed ∨ UpToDate t source c now explicit item := by
  induction items generalizing changed with
  | nil => cases hi
  | cons x items ih =>
    obtain ⟨b, hb, h⟩ := Option.bind_eq_some_iff.mp h
    obtain ⟨rest, hrest, h⟩ := Option.bind_eq_some_iff.mp h
    have h := Option.some.inj h
    rcases List.mem_cons.mp hi with rfl | hi
    · cases b with
      | true => exact .inl (h ▸ List.mem_cons_self)
      | false => exact .inr (upToDate_of_unchanged hb)
    · refine (ih hrest hi).imp (fun hm => ?_) id
      rw [← h]
      split
      · exact List.mem_cons_of_mem _ hm
      · exact hm

theorem refreshPayload_id {sourceId : String} {m : ListingMetadata} {r : RefreshRequest}
    (h : refreshPayload sourceId m = some r) : r.sourceId = sourceId := by
  unfold refreshPayload at h
  split at h
  · cases h
    rfl
  · obtain ⟨latest, -, rfl⟩ := Option.map_eq_some_iff.mp h
    rfl

/-- Every item of a list that was turned into requests has one. -/
theorem mem_requests {α : Type} (id : α → String) {metadata : α → ListingMetadata} {l : List α}
    {requests : List RefreshRequest} {a : α}
    (h : l.mapM (fun a => refreshPayload (id a) (metadata a)) = some requests) (ha : a ∈ l) :
    id a ∈ requests.map (·.sourceId) := by
  induction l generalizing requests with
  | nil => cases ha
  | cons x l ih =>
    rw [List.mapM_cons] at h
    obtain ⟨r, hr, h⟩ := Option.bind_eq_some_iff.mp h
    obtain ⟨rest, hrest, h⟩ := Option.bind_eq_some_iff.mp h
    cases h
    rw [List.map_cons]
    rcases List.mem_cons.mp ha with rfl | ha
    · exact refreshPayload_id hr ▸ List.mem_cons_self
    · exact List.mem_cons_of_mem _ (ih hrest ha)

end

/-- How a pull that succeeds came to its outcome. -/
structure PullParts (t : CatalogText) (settings : PullSettings) (source : OrderedSource)
    (c : PullCatalog) (now : Time) (explicit : String → String)
    (responses : Nat → Option FeedPage) (html : Nat → Option (List ListedSeries))
    (frontier : List FrontierSentinel) (o : PullOutcome) : Prop where
  listed : source.listRecentFrontier t settings responses html (loadFrontier frontier) =
    some (o.listed, o.diagnostics)
  requested : ∀ item ∈ o.listed, item.sourceId ∈ o.refreshes.map (·.sourceId) ∨
    UpToDate t source.name c now explicit item
  recovered : o.diagnostics.safetyLimitReached = true → ∀ row ∈ c.identities,
    row.source = source.name → row.status.isTracked = true → row.sourceId ≠ "" →
    row.sourceId ∉ o.listed.map (·.sourceId) → row.sourceId ∈ o.refreshes.map (·.sourceId)

theorem sourcePull_parts {t : CatalogText} {settings : PullSettings} {source : OrderedSource}
    {c : PullCatalog} {now : Time} {explicit : String → String}
    {responses : Nat → Option FeedPage} {html : Nat → Option (List ListedSeries)}
    {frontier : List FrontierSentinel} {o : PullOutcome}
    (h : sourcePull t settings source c now explicit responses html frontier = some o) :
    PullParts t settings source c now explicit responses html frontier o := by
  obtain ⟨⟨listed, d⟩, hlisted, h⟩ := Option.bind_eq_some_iff.mp h
  obtain ⟨observed, -, h⟩ := Option.bind_eq_some_iff.mp h
  obtain ⟨changed, hchanged, h⟩ := Option.bind_eq_some_iff.mp h
  obtain ⟨fromListing, hlisting, h⟩ := Option.bind_eq_some_iff.mp h
  obtain ⟨fromCatalog, hcatalog, h⟩ := Option.bind_eq_some_iff.mp h
  cases h
  have hrequest : ∀ item ∈ changed,
      item.sourceId ∈ (fromListing ++ fromCatalog).map (·.sourceId) := by
    intro item hi
    rw [List.map_append]
    exact List.mem_append_left _ (mem_requests (·.sourceId) hlisting hi)
  refine ⟨hlisted, fun item hi => (changed_or_upToDate hchanged hi).imp (hrequest item) id, ?_⟩
  intro hlimit row hrow hsource htracked hne hno
  by_cases hin : row.sourceId ∈ changed.map (·.sourceId)
  · obtain ⟨item, hi, he⟩ := List.mem_map.mp hin
    exact he ▸ hrequest item hi
  · rw [List.map_append]
    refine List.mem_append_right _ (mem_requests (fun row : SourceIdentity => row.sourceId)
      hcatalog (List.mem_filter.mpr ⟨?_, decide_eq_true hin⟩))
    have hlimit : d.safetyLimitReached = true := hlimit
    simp only [trackedSafetyRecovery, hlimit, Bool.true_or, if_true, List.mem_filter,
      decide_eq_true_eq]
    refine ⟨hrow, hsource, htracked, ?_⟩
    split
    · simpa using hne
    · exact hno

/-! ## Nothing is missed -/

namespace OrderedFeed

variable {τ : Type} {f : OrderedFeed τ} {t : CatalogText} {settings : PullSettings}
  {s : Pulled τ} {p : PullArgs τ} {o : PullOutcome} {e : τ} {item : ListedSeries}

/-- What a pull owes to a series: to request a refresh, unless the catalog is up to date. It owes
this to all of them, where its pages were too few to the tracked ones. -/
def Caught (f : OrderedFeed τ) (t : CatalogText) (p : PullArgs τ) (o : PullOutcome)
    (item : ListedSeries) : Prop :=
  o.diagnostics.safetyLimitReached = false ∨ (∃ row ∈ p.catalog.identities,
      row.source = f.source.name ∧ row.status.isTracked = true ∧ row.sourceId = item.sourceId) →
    item.sourceId ∈ o.refreshes.map (·.sourceId) ∨
      UpToDate t f.source.name p.catalog p.now p.explicit item

/-- A pull whose pages were enough has read the series that were touched before it. -/
theorem read_of_touched (h : Marked f.key s.touched s.feed) (hs : f.Steady t settings s p o)
    {r : PageRun Counted} (hr : CountedPages t (sentinelMap (loadFrontier s.frontier))
      (requiredHits settings.toFrontierSettings (sentinelMap (loadFrontier s.frontier)))
      (f.source.recentPages settings) (f.itemsOn s p) (f.endsOn s p) r)
    (hd : o.diagnostics = listingDiagnostics r.pagesFetched (f.source.recentPages settings)
      r.frontierReached r.exhausted)
    (hlimit : o.diagnostics.safetyLimitReached = false)
    (he : e ∈ (f.walk s p).feedAt f.key r.pagesFetched) (hnew : f.key e ∈ s.touched)
    (hk : f.key e ∉ ((f.walk s p).touches r.pagesFetched).map f.key) :
    e ∈ (f.walk s p).read f.key r.pagesFetched := by
  cases hf : r.frontierReached with
  | true =>
    have hstable := hs.stable (by rw [hd]; exact hf)
    have hhits := (hr.reached hf).2
    rw [hr.items, items_eq, frontierHits_eq] at hhits
    rw [hd] at hstable
    exact (f.walk s p).reads_marked_of_hits h (Nat.lt_of_lt_of_le hstable hhits) he hnew hk
  | false =>
    cases hx : r.exhausted with
    | true =>
      obtain ⟨m, hm, hfetched, hend⟩ := hr.ended hf hx
      rw [hfetched] at he hk ⊢
      refine (f.walk s p).covers_all h ?_ he hk
      rcases hend with hnil | hlast
      · refine (f.walk s p).length_le_of_page f.pageSize_pos ?_
        by_contra hne
        exact hs.parses m hm hne hnil
      · simp only [endsOn, Bool.not_eq_true', decide_eq_false_iff_not] at hlast
        exact not_lt.mp hlast
    | false =>
      have hmax := hr.stopped hf hx
      rw [hd] at hlimit
      simp [listingDiagnostics, hf, hx, hmax] at hlimit

end OrderedFeed

/-- In every run of updates and withdrawals of the provider and of pulls, a pull that succeeds sees
each series that was touched since the last one that did began, besides those that are touched while
it reads: it requests a refresh, or the catalog is up to date. The updates may come between the
pages of a pull; what is touched there is left to the next pull. -/
theorem pull_misses_nothing {τ : Type} (f : OrderedFeed τ) (t : CatalogText)
    (settings : PullSettings) (start : Pulled τ) (hstart : Marked f.key start.touched start.feed)
    (moves : List (PullMove τ)) (s : Pulled τ) (hs : s = moves.foldl (f.apply t settings) start)
    (p : PullArgs τ) (o : PullOutcome) (h : f.pull t settings s p = some o)
    (hfeed : f.readsFeed t settings s p = true) (hsteady : f.Steady t settings s p o) :
    let n := o.diagnostics.pagesFetched
    ∀ e item, e ∈ (f.walk s p).feedAt f.key n → f.key e ∈ s.touched →
      f.key e ∉ ((f.walk s p).touches n).map f.key → f.parse e = some item →
      f.Caught t p o item := by
  intro n e item he hnew hk hparse hcase
  have hmarked : Marked f.key s.touched s.feed := hs ▸ OrderedFeed.marked_run moves hstart
  have hparts := sourcePull_parts h
  obtain ⟨r, hr, hlisted, hd⟩ := OrderedFeed.listRecentFrontier_pages hmarked hfeed hparts.listed
  have hn : n = r.pagesFetched := congrArg ListingDiagnostics.pagesFetched hd
  rw [hn] at he hk
  have hitems : r.state.items = ((f.walk s p).read f.key r.pagesFetched).filterMap f.parse :=
    hr.items.trans (OrderedFeed.items_eq _)
  -- the series is listed with its item, if at all
  have hread : e ∈ (f.walk s p).read f.key r.pagesFetched → item ∈ o.listed := by
    intro hin
    rw [hlisted, hitems]
    refine mem_dedupeSeries (List.mem_filterMap.mpr ⟨e, hin, hparse⟩) fun i hi hid => ?_
    exact (OrderedFeed.eq_of_item hmarked hi he hk hparse hid).2
  cases hlimit : o.diagnostics.safetyLimitReached with
  | false =>
    have hin := OrderedFeed.read_of_touched hmarked hsteady hr hd hlimit he hnew hk
    exact hparts.requested item (hread hin)
  | true =>
    obtain ⟨row, hrow, hsource, htracked, hid⟩ := hcase.resolve_left fun hno => by
      rw [hlimit] at hno
      cases hno
    by_cases hin : item.sourceId ∈ o.listed.map (·.sourceId)
    · obtain ⟨i, hi, hii⟩ := List.mem_map.mp hin
      have hi' := hi
      rw [hlisted] at hi'
      have hi' := mem_of_mem_dedupeSeries hi'
      rw [hitems] at hi'
      obtain ⟨-, rfl⟩ := OrderedFeed.eq_of_item hmarked hi' he hk hparse hii
      exact hparts.requested i hi
    · refine .inl (hid ▸ hparts.recovered hlimit row hrow hsource htracked ?_ ?_)
      · exact hid ▸ f.parse_ne hparse
      · exact hid ▸ hin

/-- A provider with two entries on a page. -/
def twoEach : OrderedFeed ListedSeries where
  source := .mangafire
  key := (·.sourceId)
  parse item := if item.sourceId = "" then none else some item
  pageSize := 2
  parse_key h := by
    split at h
    · cases h
    · cases h
      rfl
  parse_ne h := by
    split at h
    · cases h
    · cases h
      assumption
  pageSize_pos := Nat.zero_lt_two
  cards h := by decide

/-- Four series, none of which was seen. -/
def fourListed : Pulled ListedSeries where
  feed := [⟨"a", some [.row "1"]⟩, ⟨"b", some [.row "2"]⟩, ⟨"c", some [.row "3"]⟩,
    ⟨"d", some [.row "4"]⟩]
  touched := ["a", "b", "c", "d"]

/-- A pull of a catalog that has `d` with its fourth chapter. -/
def movedOn (between : List (List ListedSeries)) : PullArgs ListedSeries where
  between := between
  fails _ := false
  explicit _ := ""
  catalog := { identities := [{
    id := 1, seriesId := 1, source := "mangafire", sourceId := "d", title := "D", url := "u",
    observationVersion := "4", detailFetchedAt := some 0 }] }
  now := 0

/-- The outcome of the pull after the new chapter of `d`. -/
def movedOutcome : PullOutcome where
  listed := [⟨"d", some [.row "9"]⟩, ⟨"a", some [.row "1"]⟩, ⟨"b", some [.row "2"]⟩]
  diagnostics := ⟨2, true, false, false, none⟩
  frontier := [⟨"d", "9"⟩, ⟨"a", "1"⟩, ⟨"b", "2"⟩]
  refreshes := [⟨"d", "9"⟩, ⟨"a", "1"⟩, ⟨"b", "2"⟩]

/-- The first pull reads all series. Then `d` has a new chapter, and `c` while the next one reads,
which stops at three hits and has seen `d`. -/
theorem movedOn_caught : twoEach.Caught asciiCatalog
    (movedOn [[], [⟨"c", some [.row "5"]⟩]]) movedOutcome ⟨"d", some [.row "9"]⟩ :=
  pull_misses_nothing twoEach asciiCatalog {} fourListed
    ⟨by decide +kernel, by decide +kernel⟩
    [.pull (movedOn []), .update ⟨"d", some [.row "9"]⟩]
    ⟨[⟨"d", some [.row "9"]⟩, ⟨"a", some [.row "1"]⟩, ⟨"b", some [.row "2"]⟩,
        ⟨"c", some [.row "3"]⟩], ["d"],
      [⟨"a", "1"⟩, ⟨"b", "2"⟩, ⟨"c", "3"⟩, ⟨"d", "4"⟩]⟩
    (by decide +kernel) _ _ (by decide +kernel) (by decide +kernel)
    ⟨by decide +kernel, by decide +kernel⟩ ⟨"d", some [.row "9"]⟩ _ (by decide +kernel)
    (by decide +kernel)
    (by decide +kernel) (by decide +kernel)

end MangaManager
