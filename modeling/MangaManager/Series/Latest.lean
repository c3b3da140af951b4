import MangaManager.Series.Ingest
import MangaManager.Series.United

/-!
# The latest release over a merge

`_recompute_latest` writes the first release of a series, by the number of its chapter, into three
columns of the series. A merge keeps the columns of the series with the later time, whatever
the numbers are. `mergeInto_latest`: after a round the columns of the target are those of the
row that was later, and `_recompute_latest` would write those of the first release of
`joinedReleases`, the releases of both series that the round keeps.
-/

namespace MangaManager

open Lib

/-- The columns of the latest release. -/
structure LatestColumns where
  number : String
  source : String
  at_ : Option Time
  deriving DecidableEq

def CatalogSeries.latest (u : CatalogSeries) : LatestColumns :=
  ⟨u.latestReleaseNumber, u.latestReleaseSource, u.latestReleaseAt⟩

/-- What `_recompute_latest` writes for a release. -/
def latestOf (row : CatalogChapter × ReleaseRow) : LatestColumns :=
  ⟨row.1.displayNumber, row.2.source, some (row.2.publishedAt.getD row.2.firstSeenAt)⟩

/-- The row whose columns a merge keeps. -/
def laterRow (target source : CatalogSeries) : CatalogSeries :=
  match target.latestReleaseAt, source.latestReleaseAt with
  | none, _ => source
  | some x, some y => if x < y then source else target
  | some _, none => target

/-! ## The order of the releases -/

/-- The release that is selected among those of a series. -/
def pickLatest (rows : List (CatalogChapter × ReleaseRow)) : Option (CatalogChapter × ReleaseRow) :=
  let numeric := rows.filterMap fun row => row.1.sortNumber.map fun n => (n, row)
  match numeric.argmax fun m => toLex (m.1, m.2.2.id) with
  | some m => some m.2
  | none => rows.argmax fun row =>
      toLex ((row.2.publishedAt.map fun at_ => ((at_ : Rat) : WithBot Rat)).getD ⊥, row.2.id)

/-- The place of a release: the number of its chapter, the time when there is none, and its id. -/
def latestKey (row : CatalogChapter × ReleaseRow) : WithBot Rat ×ₗ WithBot Rat ×ₗ Nat :=
  toLex ((row.1.sortNumber.map fun n => ((n : Rat) : WithBot Rat)).getD ⊥,
    toLex (if row.1.sortNumber.isSome then ⊥
      else (row.2.publishedAt.map fun at_ => ((at_ : Rat) : WithBot Rat)).getD ⊥, row.2.id))

section
variable {rows rows' : List (CatalogChapter × ReleaseRow)} {p a b : CatalogChapter × ReleaseRow}

theorem latestKey_number {n : Rat} (h : a.1.sortNumber = some n) :
    latestKey a = toLex ((n : WithBot Rat), toLex (⊥, a.2.id)) := by
  simp [latestKey, h]

theorem latestKey_text (h : a.1.sortNumber = none) : latestKey a = toLex (⊥,
    toLex ((a.2.publishedAt.map fun at_ => ((at_ : Rat) : WithBot Rat)).getD ⊥, a.2.id)) := by
  simp [latestKey, h]

theorem pickLatest_spec (h : pickLatest rows = some p) :
    p ∈ rows ∧ ∀ q ∈ rows, latestKey q ≤ latestKey p := by
  unfold pickLatest at h
  dsimp only at h
  split at h
  · rename_i m hm
    obtain rfl := Option.some.inj h
    obtain ⟨r, hr, hrm⟩ := List.mem_filterMap.mp (List.argmax_mem hm)
    obtain ⟨n, hn, rfl⟩ := Option.map_eq_some_iff.mp hrm
    refine ⟨hr, fun q hq => ?_⟩
    rw [latestKey_number hn]
    cases hs : q.1.sortNumber with
    | none =>
      rw [latestKey_text hs]
      exact (Prod.Lex.toLex_lt_toLex.mpr (.inl (WithBot.bot_lt_coe n))).le
    | some k =>
      rw [latestKey_number hs]
      have hle := List.le_of_mem_argmax (f := fun m : Rat × CatalogChapter × ReleaseRow =>
        toLex (m.1, m.2.2.id)) (a := (k, q))
        (List.mem_filterMap.mpr ⟨q, hq, by rw [hs, Option.map_some]⟩) hm
      rcases Prod.Lex.toLex_le_toLex.mp hle with hlt | ⟨heq, hid⟩
      · exact (Prod.Lex.toLex_lt_toLex.mpr (.inl (WithBot.coe_lt_coe.mpr hlt))).le
      · have heq : (k : WithBot Rat) = n := congrArg (fun n : Rat => (n : WithBot Rat)) heq
        refine Prod.Lex.toLex_le_toLex.mpr (.inr ⟨heq, ?_⟩)
        exact Prod.Lex.toLex_le_toLex.mpr (.inr ⟨rfl, hid⟩)
  · rename_i hnone
    have hempty := List.argmax_eq_none.mp hnone
    have htext : ∀ q ∈ rows, q.1.sortNumber = none := fun q hq => by
      simpa using List.filterMap_eq_nil_iff.mp hempty q hq
    have hp := List.argmax_mem h
    refine ⟨hp, fun q hq => ?_⟩
    rw [latestKey_text (htext q hq), latestKey_text (htext p hp)]
    have hle := List.le_of_mem_argmax hq h
    exact Prod.Lex.toLex_le_toLex.mpr (.inr ⟨rfl, hle⟩)

theorem pickLatest_eq_none : pickLatest rows = none ↔ rows = [] := by
  constructor
  · intro h
    unfold pickLatest at h
    dsimp only at h
    split at h
    · cases h
    · exact List.argmax_eq_none.mp h
  · rintro rfl
    rfl

theorem latestKey_id (h : latestKey a = latestKey b) : a.2.id = b.2.id :=
  congrArg (fun k : WithBot Rat ×ₗ WithBot Rat ×ₗ Nat => (ofLex (ofLex k).2).2) h

/-- All that the selection reads, and what is written. -/
structure SameRelease (a b : CatalogChapter × ReleaseRow) : Prop where
  sortNumber : b.1.sortNumber = a.1.sortNumber
  displayNumber : b.1.displayNumber = a.1.displayNumber
  id : b.2.id = a.2.id
  source : b.2.source = a.2.source
  publishedAt : b.2.publishedAt = a.2.publishedAt
  firstSeenAt : b.2.firstSeenAt = a.2.firstSeenAt

theorem SameRelease.key (h : SameRelease a b) : latestKey b = latestKey a := by
  rw [latestKey, latestKey, h.sortNumber, h.publishedAt, h.id]

theorem SameRelease.latest (h : SameRelease a b) : latestOf b = latestOf a := by
  rw [latestOf, latestOf, h.displayNumber, h.source, h.publishedAt, h.firstSeenAt]

/-- The same releases in other rows, and in another order. -/
structure SameReleases (rows rows' : List (CatalogChapter × ReleaseRow)) : Prop where
  kept : ∀ a ∈ rows, ∃ b ∈ rows', SameRelease a b
  origin : ∀ b ∈ rows', ∃ a ∈ rows, SameRelease a b

theorem pickLatest_congr (h : SameReleases rows rows')
    (hid : ∀ b ∈ rows', ∀ b' ∈ rows', b.2.id = b'.2.id → b = b') :
    (pickLatest rows').map latestOf = (pickLatest rows).map latestOf := by
  cases hp : pickLatest rows with
  | none =>
    have hnil : rows' = [] := List.eq_nil_iff_forall_not_mem.mpr fun b hb => by
      obtain ⟨a, ha, -⟩ := h.origin b hb
      rw [pickLatest_eq_none.mp hp] at ha
      cases ha
    rw [pickLatest_eq_none.mpr hnil]
  | some p =>
    obtain ⟨hpm, hmax⟩ := pickLatest_spec hp
    obtain ⟨p', hp', hsame⟩ := h.kept p hpm
    cases hq : pickLatest rows' with
    | none =>
      rw [pickLatest_eq_none.mp hq] at hp'
      cases hp'
    | some q' =>
      obtain ⟨hqm, hmax'⟩ := pickLatest_spec hq
      obtain ⟨q, hqr, hsame'⟩ := h.origin q' hqm
      -- each is the first of its rows, so they have one place
      have hle : latestKey q' ≤ latestKey p' := by
        rw [hsame'.key, hsame.key]
        exact hmax q hqr
      obtain rfl := hid _ hqm _ hp' (latestKey_id (hle.antisymm (hmax' p' hp')))
      rw [Option.map_some, Option.map_some, hsame.latest]

end

namespace Collection

variable (s : Collection)

/-- The columns of a series with a release are those that `_recompute_latest` would write. -/
def LatestOk : Prop := ∀ u ∈ s.series, ∀ p, s.latestRelease u.id = some p → u.latest = latestOf p

/-- A release that the merge of `source` into `target` gives up for one of the kept listing. -/
def replaced (target source : Nat) (r : ReleaseRow) : Bool :=
  (s.chosen target source).any fun lr => (s.sharedPairs target source).any fun p =>
    (s.existingRelease (keeperOf lr.2 p.1 p.2).1 (keeperOf lr.2 p.1 p.2).2 r).isSome

/-- The chapter of the target with the number of `c`; `c` itself, when it has none. -/
def homeOf (target : Nat) (c : CatalogChapter) : CatalogChapter :=
  (s.chapters.find? fun d =>
    d.seriesId == target && d.canonicalNumber == c.canonicalNumber).getD c

/-- The releases that both series have once `source` is merged into `target`. -/
def joinedReleases (target source : Nat) : List (CatalogChapter × ReleaseRow) :=
  ((s.seriesReleases target ++ s.seriesReleases source).filter fun row =>
    !s.replaced target source row.2).map fun row => (s.homeOf target row.1, row.2)

/-- The later row has the columns of the first release of both series. -/
def Agrees (target source : Nat) : Prop :=
  ∀ a ∈ s.series? target, ∀ b ∈ s.series? source,
    ∀ p ∈ pickLatest (s.joinedReleases target source), (laterRow a b).latest = latestOf p

instance (target source : Nat) : Decidable (s.Agrees target source) := by
  unfold Agrees
  infer_instance

/-- Every round of a merge finds the rows to agree. -/
def RoundsAgree (t : TextLib) (target : Nat) : List Nat → Collection → Prop
  | [], _ => True
  | source :: sources, s => s.Agrees target source ∧
    match mergeInto t target s source with
    | .ok s' => RoundsAgree t target sources s'
    | .error _ => True

instance (t : TextLib) (target : Nat) : ∀ (sources : List Nat) (s : Collection),
    Decidable (RoundsAgree t target sources s)
  | [], _ => inferInstanceAs (Decidable True)
  | source :: sources, s => by
    unfold RoundsAgree
    cases mergeInto t target s source with
    | ok s' =>
      have := instDecidableRoundsAgree t target sources s'
      exact inferInstance
    | error e => exact inferInstance

/-- A merge of the series `ids` does. -/
def MergeAgrees (t : TextLib) (ids : List Nat) : Prop :=
  ∀ row ∈ (s.selectedSeries ids).argmax s.rank,
    RoundsAgree t row.id (((s.selectedSeries ids).filter (·.id != row.id)).map (·.id))
      (s.withStatus row (s.selectedSeries ids))

instance (t : TextLib) (ids : List Nat) : Decidable (s.MergeAgrees t ids) := by
  unfold MergeAgrees
  infer_instance

/-- Primary keys, and the chapters of the releases of an identity are of its series. -/
structure Housed (s : Collection) : Prop where
  series : Table.Keyed CatalogSeries.id s.series
  identities : Table.Keyed CatalogSourceSeries.id s.identities
  chapters : s.ChaptersOk
  releases : Table.Keyed (fun r : ReleaseRow => r.id) s.releases
  home : ∀ r ∈ s.releases, ∃ i ∈ s.identities, i.id = r.sourceSeriesId ∧
    ∃ n, s.IsAt i.seriesId n r.chapterId

section
variable {s s₁ s' : Collection} {t : TextLib} {target source u : Nat} {r r' : ReleaseRow}
  {row : CatalogChapter × ReleaseRow}

theorem mem_seriesReleases (hk : Table.Keyed CatalogChapter.id s.chapters) :
    row ∈ s.seriesReleases u ↔ row.2 ∈ s.releases ∧ row.1 ∈ s.chapters ∧
      row.1.id = row.2.chapterId ∧ row.1.seriesId = u := by
  rw [seriesReleases, List.mem_filterMap]
  constructor
  · rintro ⟨r, hr, h⟩
    obtain ⟨c, hc, rfl⟩ := Option.map_eq_some_iff.mp h
    obtain ⟨hc, hu⟩ := Option.filter_eq_some_iff.mp hc
    exact ⟨hr, Table.get_mem hc, Table.get_key hc, by simpa using hu⟩
  · rintro ⟨hr, hc, hid, hu⟩
    have hget : s.chapter? row.2.chapterId = some row.1 := hid ▸ hk.get_eq hc
    refine ⟨row.2, hr, ?_⟩
    rw [hget, Option.filter_some, if_pos (by simpa using hu), Option.map_some]

theorem Housed.pick_congr (h : s'.Housed) {rows : List (CatalogChapter × ReleaseRow)}
    (hsame : SameReleases rows (s'.seriesReleases u)) :
    (s'.latestRelease u).map latestOf = (pickLatest rows).map latestOf := by
  refine pickLatest_congr hsame fun a ha b hb hid => ?_
  obtain ⟨har, hac, hae, -⟩ := (mem_seriesReleases h.chapters.keyed).mp ha
  obtain ⟨hbr, hbc, hbe, -⟩ := (mem_seriesReleases h.chapters.keyed).mp hb
  have hr : a.2 = b.2 := h.releases.eq har hbr hid
  exact Prod.ext (h.chapters.keyed.eq hac hbc (by rw [hae, hbe, hr])) hr

theorem latestOk_iff : s.LatestOk ↔
    ∀ u ∈ s.series, ∀ v ∈ (s.latestRelease u.id).map latestOf, u.latest = v := by
  refine forall₂_congr fun u _ => ⟨fun h v hv => ?_, fun h p hp => ?_⟩
  · obtain ⟨p, hp, rfl⟩ := Option.map_eq_some_iff.mp hv
    exact h p hp
  · exact h _ (Option.mem_map_of_mem latestOf hp)

instance (s : Collection) : Decidable s.LatestOk := decidable_of_iff _ latestOk_iff.symm

/-! ## The listings that are retired -/

/-- The kept listing of the two has the release too. -/
def Doubled (s : Collection) (q : CatalogSourceSeries × CatalogSourceSeries) (r : ReleaseRow) :
    Prop :=
  r.sourceSeriesId = q.2.id ∧
    ∃ k ∈ s.releases, k.sourceSeriesId = q.1.id ∧ k.sourceReleaseId = r.sourceReleaseId

theorem existingRelease_isSome {q : CatalogSourceSeries × CatalogSourceSeries} :
    (s.existingRelease q.1 q.2 r).isSome = true ↔ s.Doubled q r := by
  unfold existingRelease Doubled
  split
  · rename_i he
    simp [he, List.find?_isSome]
  · rename_i hne
    simp [hne]

/-- The row of a release, which goes with its listing when that is retired. -/
structure Carried (roles : List (CatalogSourceSeries × CatalogSourceSeries)) (r r' : ReleaseRow) :
    Prop where
  same : r' = { r with sourceSeriesId := r'.sourceSeriesId }
  listing : r'.sourceSeriesId = r.sourceSeriesId ∨
    ∃ q ∈ roles, r.sourceSeriesId = q.2.id ∧ r'.sourceSeriesId = q.1.id
  kept : ∀ q ∈ roles, r'.sourceSeriesId ≠ q.2.id

/-- What the rounds over the providers of both series make of the releases. -/
structure Carries (roles : List (CatalogSourceSeries × CatalogSourceSeries))
    (s s' : Collection) : Prop where
  keyed : Table.Keyed (fun r : ReleaseRow => r.id) s.releases →
    Table.Keyed (fun r : ReleaseRow => r.id) s'.releases
  kept : ∀ r ∈ s.releases, (∀ q ∈ roles, ¬ s.Doubled q r) →
    ∃ r' ∈ s'.releases, Carried roles r r'
  origin : ∀ r' ∈ s'.releases, ∃ r ∈ s.releases, (∀ q ∈ roles, ¬ s.Doubled q r) ∧
    Carried roles r r'

theorem consolidate_rows (q : CatalogSourceSeries × CatalogSourceSeries) (overlap : Nat × Nat) :
    (s.consolidate q.1 q.2 overlap).releases =
      (s.releases.filter fun r => (s.existingRelease q.1 q.2 r).isNone).map fun r =>
        if r.sourceSeriesId = q.2.id then { r with sourceSeriesId := q.1.id } else r := by
  obtain ⟨alternates, next, he⟩ := @moveAlternates_eq s q.1 q.2 overlap
  unfold consolidate
  rw [he]
  rfl

theorem consolidate_carries {q : CatalogSourceSeries × CatalogSourceSeries}
    (hne : q.1.id ≠ q.2.id) (overlap : Nat × Nat) :
    Carries [q] s (s.consolidate q.1 q.2 overlap) := by
  have hmem : ∀ r, r ∈ (s.releases.filter fun r => (s.existingRelease q.1 q.2 r).isNone) ↔
      r ∈ s.releases ∧ ∀ p ∈ [q], ¬ s.Doubled p r := by
    intro r
    rw [List.mem_filter, List.forall_mem_singleton, ← existingRelease_isSome,
      Option.not_isSome_iff_eq_none, Option.isNone_iff_eq_none]
  have hrow : ∀ r : ReleaseRow, Carried [q] r
      (if r.sourceSeriesId = q.2.id then { r with sourceSeriesId := q.1.id } else r) := by
    intro r
    split
    · rename_i he
      exact ⟨rfl, .inr ⟨q, List.mem_singleton_self q, he, rfl⟩, fun p hp =>
        List.mem_singleton.mp hp ▸ hne⟩
    · rename_i he
      exact ⟨rfl, .inl rfl, fun p hp => List.mem_singleton.mp hp ▸ he⟩
  have hrows := consolidate_rows (s := s) q overlap
  refine ⟨fun hk => ?_, fun r hr hno => ?_, fun r' hr' => ?_⟩
  · rw [hrows]
    refine hk.filter.map fun x _ y _ he => ?_
    rwa [(hrow x).same, (hrow y).same] at he
  · rw [hrows]
    exact ⟨_, List.mem_map_of_mem ((hmem r).mpr ⟨hr, hno⟩), hrow r⟩
  · rw [hrows] at hr'
    obtain ⟨r, hr, rfl⟩ := List.mem_map.mp hr'
    obtain ⟨hr, hno⟩ := (hmem r).mp hr
    exact ⟨r, hr, hno, hrow r⟩

/-- The pairs still to come are of other listings. -/
theorem Carries.cons {q : CatalogSourceSeries × CatalogSourceSeries}
    {roles : List (CatalogSourceSeries × CatalogSourceSeries)} (h : Carries [q] s s₁)
    (h' : Carries roles s₁ s') (hd : ∀ p ∈ roles, Apart q p) : Carries (q :: roles) s s' := by
  have hlisting : ∀ {r r₁ : ReleaseRow} {id : Nat}, Carried [q] r r₁ → id ≠ q.1.id → id ≠ q.2.id →
      (r₁.sourceSeriesId = id ↔ r.sourceSeriesId = id) := by
    intro r r₁ id hc hk hdup
    rcases hc.listing with he | ⟨p, hp, he, he₁⟩
    · rw [he]
    · rw [List.mem_singleton.mp hp] at he he₁
      rw [he, he₁]
      exact iff_of_false (Ne.symm hk) (Ne.symm hdup)
  -- the first pair is not of the listings of another one
  have hdoubled : ∀ p ∈ roles, ∀ r r₁ : ReleaseRow, Carried [q] r r₁ →
      (s₁.Doubled p r₁ ↔ s.Doubled p r) := by
    intro p hp r r₁ hc
    obtain ⟨⟨h₁, h₂⟩, h₃, h₄⟩ := hd p hp
    have hrid : r₁.sourceReleaseId = r.sourceReleaseId := by rw [hc.same]
    unfold Doubled
    rw [hlisting hc (Ne.symm h₂) (Ne.symm h₄), hrid]
    refine and_congr_right fun _ => ⟨?_, ?_⟩
    · rintro ⟨k₁, hk₁, hkid, hkr⟩
      obtain ⟨k, hk, -, hkc⟩ := h.origin k₁ hk₁
      refine ⟨k, hk, (hlisting hkc (Ne.symm h₁) (Ne.symm h₃)).mp hkid, ?_⟩
      rwa [hkc.same] at hkr
    · rintro ⟨k, hk, hkid, hkr⟩
      obtain ⟨k₁, hk₁, hkc⟩ := h.kept k hk fun p' hp' hd' => by
        rw [List.mem_singleton.mp hp'] at hd'
        exact h₃ (hd'.1.symm.trans hkid)
      refine ⟨k₁, hk₁, (hlisting hkc (Ne.symm h₁) (Ne.symm h₃)).mpr hkid, ?_⟩
      rwa [hkc.same]
  have hcarried : ∀ {r r₁ r' : ReleaseRow}, Carried [q] r r₁ → Carried roles r₁ r' →
      Carried (q :: roles) r r' := by
    intro r r₁ r' hc hc'
    refine ⟨?_, ?_, fun p hp => ?_⟩
    · rw [hc'.same, hc.same]
    · rcases hc'.listing with he | ⟨p, hp, he, he'⟩
      · rw [he]
        rcases hc.listing with he₁ | ⟨p, hp, he₁, he₂⟩
        · exact .inl he₁
        · exact .inr ⟨p, List.mem_cons.mpr (.inl (List.mem_singleton.mp hp)), he₁, he₂⟩
      · obtain ⟨⟨-, h₂⟩, -, h₄⟩ := hd p hp
        exact .inr ⟨p, List.mem_cons_of_mem _ hp,
          (hlisting hc (Ne.symm h₂) (Ne.symm h₄)).mp he, he'⟩
    · rcases List.mem_cons.mp hp with rfl | hp
      · rcases hc'.listing with he | ⟨p', hp', -, he'⟩
        · rw [he]
          exact hc.kept p List.mem_cons_self
        · rw [he']
          exact (hd p' hp').2.1.symm
      · exact hc'.kept p hp
  refine ⟨fun hk => h'.keyed (h.keyed hk), fun r hr hno => ?_, fun r' hr' => ?_⟩
  · obtain ⟨r₁, hr₁, hc⟩ := h.kept r hr fun p hp =>
      hno p (List.mem_cons.mpr (.inl (List.mem_singleton.mp hp)))
    obtain ⟨r', hr', hc'⟩ := h'.kept r₁ hr₁ fun p hp hd' =>
      hno p (List.mem_cons_of_mem _ hp) ((hdoubled p hp r r₁ hc).mp hd')
    exact ⟨r', hr', hcarried hc hc'⟩
  · obtain ⟨r₁, hr₁, hno, hc'⟩ := h'.origin r' hr'
    obtain ⟨r, hr, hno₁, hc⟩ := h.origin r₁ hr₁
    refine ⟨r, hr, fun p hp hd' => ?_, hcarried hc hc'⟩
    rcases List.mem_cons.mp hp with rfl | hp
    · exact hno₁ p List.mem_cons_self hd'
    · exact hno p hp ((hdoubled p hp r r₁ hc).mpr hd')

theorem Apart.keeperOf {right : CatalogSourceSeries}
    {p p' : CatalogSourceSeries × CatalogSourceSeries} (h : Apart p p') :
    Apart (Collection.keeperOf right p.1 p.2) (Collection.keeperOf right p'.1 p'.2) := by
  obtain ⟨⟨h₁, h₂⟩, h₃, h₄⟩ := h
  rcases keeperOf_cases right p.1 p.2 with he | he <;>
    rcases keeperOf_cases right p'.1 p'.2 with he' | he' <;> rw [he, he']
  · exact ⟨⟨h₄, h₃⟩, h₂, h₁⟩
  · exact ⟨⟨h₃, h₄⟩, h₁, h₂⟩
  · exact ⟨⟨h₂, h₁⟩, h₄, h₃⟩
  · exact ⟨⟨h₁, h₂⟩, h₃, h₄⟩

theorem foldlM_consolidatePair_carries {right : CatalogSourceSeries}
    {pairs : List (CatalogSourceSeries × CatalogSourceSeries)}
    (h : pairs.foldlM (consolidatePair t right) s = .ok s')
    (hne : ∀ p ∈ pairs, p.1.id ≠ p.2.id) (hd : pairs.Pairwise Apart) :
    Carries (pairs.map fun p => keeperOf right p.1 p.2) s s' := by
  induction pairs generalizing s with
  | nil =>
    cases h
    exact ⟨id, fun r hr _ => ⟨r, hr, rfl, .inl rfl, fun _ hq => (by cases hq)⟩,
      fun r hr => ⟨r, hr, fun _ hq => (by cases hq), rfl, .inl rfl, fun _ hq => (by cases hq)⟩⟩
  | cons p pairs ih =>
    obtain ⟨s₁, hp, hrest⟩ := foldlM_cons_eq_ok.mp h
    obtain ⟨hhead, htail⟩ := List.pairwise_cons.mp hd
    have hrole : (keeperOf right p.1 p.2).1.id ≠ (keeperOf right p.1 p.2).2.id := by
      rcases keeperOf_cases right p.1 p.2 with he | he <;> rw [he]
      · exact (hne p List.mem_cons_self).symm
      · exact hne p List.mem_cons_self
    unfold consolidatePair at hp
    dsimp only at hp
    split at hp
    · cases hp
    cases hp
    have hrest' := ih hrest (fun p hp => hne p (List.mem_cons_of_mem _ hp)) htail
    refine (consolidate_carries hrole _).cons hrest' fun q hq => ?_
    obtain ⟨p', hp', rfl⟩ := List.mem_map.mp hq
    exact (hhead p' hp').keeperOf

/-! ## The chapters -/

/-- What the rounds over chapters of `source` make of the chapters, and of what points at them. -/
structure Shifted (target source : Nat) (s s' : Collection) : Prop where
  stays : ∀ c ∈ s.chapters, c.seriesId ≠ source → c ∈ s'.chapters
  origin : ∀ c' ∈ s'.chapters, c' ∈ s.chapters ∨ ∃ c ∈ s.chapters, c.seriesId = source ∧
    (∀ d ∈ s.chapters, d.seriesId = target → d.canonicalNumber ≠ c.canonicalNumber) ∧
    c' = { c with seriesId := target }
  releases : ∃ f : Nat → Nat,
    s'.releases = (s.releases.map fun r => { r with chapterId := f r.chapterId }) ∧
    ∀ u n id, s.IsAt u n id → s'.IsAt u n (f id) ∨ (u = source ∧ s'.IsAt target n (f id))

theorem Shifted.refl : Shifted target source s s :=
  ⟨fun _ hc _ => hc, fun _ hc => .inl hc, id, (List.map_id _).symm, fun _ _ _ h => .inl h⟩

theorem Shifted.trans (hne : target ≠ source) (h : Shifted target source s s₁)
    (h' : Shifted target source s₁ s') : Shifted target source s s' := by
  obtain ⟨f, hf, hat⟩ := h.releases
  obtain ⟨g, hg, hat'⟩ := h'.releases
  refine ⟨fun c hc hu => h'.stays c (h.stays c hc hu) hu, fun c' hc' => ?_, g ∘ f, ?_,
    fun u n id hid => ?_⟩
  · rcases h'.origin c' hc' with hc | ⟨c, hc, hu, hno, rfl⟩
    · exact h.origin c' hc
    · -- a chapter of the source is one of before
      rcases h.origin c hc with hc₀ | ⟨d, -, -, -, rfl⟩
      · exact .inr ⟨c, hc₀, hu, fun d hd hdt => hno d (h.stays d hd (hdt ▸ hne)) hdt, rfl⟩
      · exact absurd hu hne
  · rw [hg, hf, List.map_map]
    rfl
  · rcases hat u n id hid with hid | ⟨rfl, hid⟩
    · exact hat' u n (f id) hid
    · rcases hat' target n (f id) hid with hid | ⟨he, -⟩
      · exact .inr ⟨rfl, hid⟩
      · exact absurd he hne

variable {chapter : CatalogChapter} {n : String} {id : Nat}

theorem mergeChapter_shifted (hne : target ≠ source) (hok : s.ChaptersOk)
    (hc : chapter ∈ s.chapters) (hu : chapter.seriesId = source) :
    Shifted target source s (mergeChapter target s chapter) := by
  unfold mergeChapter
  split
  · rename_i hno
    have hno : ∀ d ∈ s.chapters, d.seriesId = target →
        d.canonicalNumber ≠ chapter.canonicalNumber := fun d hd hdt hdn => by
      have := List.find?_eq_none.mp hno d hd
      simp [hdt, hdn] at this
    refine ⟨fun c hcm hcu => ?_, fun c' hc' => ?_, id, (List.map_id _).symm, ?_⟩
    · refine Table.mem_put_of_ne hcm fun he => hcu ?_
      rw [hok.keyed.eq hcm hc he, hu]
    · rcases Table.mem_put.mp hc' with ⟨rfl, -⟩ | ⟨hc', -⟩
      · exact .inr ⟨chapter, hc, hu, hno, rfl⟩
      · exact .inl hc'
    · rintro u n _ ⟨c, hcm, rfl, rfl, rfl⟩
      by_cases he : c.id = chapter.id
      · obtain rfl := hok.keyed.eq hcm hc he
        exact .inr ⟨hu, _, Table.mem_put_self hcm rfl, rfl, rfl, rfl⟩
      · exact .inl ⟨c, Table.mem_put_of_ne hcm he, rfl, rfl, rfl⟩
  · rename_i home hhome
    have hm := List.mem_of_find?_eq_some hhome
    obtain ⟨hmt, hmn⟩ : home.seriesId = target ∧
        home.canonicalNumber = chapter.canonicalNumber := by
      simpa using List.find?_some hhome
    have hmem : ∀ c ∈ s.chapters, c.id ≠ chapter.id →
        c ∈ s.chapters.filter (·.id != chapter.id) := fun c hcm he =>
      List.mem_filter.mpr ⟨hcm, bne_iff_ne.mpr he⟩
    have hhomeId : home.id ≠ chapter.id := fun he => hne <| by
      rw [← hmt, hok.keyed.eq hm hc he, hu]
    refine ⟨fun c hcm hcu => hmem c hcm fun he => hcu ?_, fun c' hc' => ?_,
      fun id => if id = chapter.id then home.id else id, rfl, ?_⟩
    · rw [hok.keyed.eq hcm hc he, hu]
    · exact .inl (List.mem_filter.mp hc').1
    · rintro u n _ ⟨c, hcm, rfl, rfl, rfl⟩
      by_cases he : c.id = chapter.id
      · obtain rfl := hok.keyed.eq hcm hc he
        exact .inr ⟨hu, home, hmem home hm hhomeId, (if_pos rfl).symm, hmt, hmn⟩
      · exact .inl ⟨c, hmem c hcm he, (if_neg he).symm, rfl, rfl⟩

/-! ## One round -/

/-- The row of a release after a round. -/
structure Relayed (target source : Nat) (s s' : Collection) (r r' : ReleaseRow) : Prop where
  id : r'.id = r.id
  provider : r'.source = r.source
  publishedAt : r'.publishedAt = r.publishedAt
  firstSeenAt : r'.firstSeenAt = r.firstSeenAt
  at_ : ∀ u n, s.IsAt u n r.chapterId →
    s'.IsAt (if u = source then target else u) n r'.chapterId

/-- What a round makes of the releases and of the chapters. -/
structure LatestRound (target source : Nat) (s s' : Collection) : Prop where
  housed : s'.Housed
  identities : ∀ j ∈ s'.identities, ∃ i ∈ s.identities, i.id = j.id
  series : s'.series = s.mergeSeriesRows target source
  kept : ∀ r ∈ s.releases, s.replaced target source r = false →
    ∃ r' ∈ s'.releases, Relayed target source s s' r r'
  origin : ∀ r' ∈ s'.releases, ∃ r ∈ s.releases, s.replaced target source r = false ∧
    Relayed target source s s' r r'
  chapters : ∀ c' ∈ s'.chapters, c' ∈ s.chapters ∨ ∃ c ∈ s.chapters, c.seriesId = source ∧
    (∀ d ∈ s.chapters, d.seriesId = target → d.canonicalNumber ≠ c.canonicalNumber) ∧
    c' = { c with seriesId := target }

theorem replaced_iff {lr : CatalogSourceSeries × CatalogSourceSeries}
    (hc : s.chosen target source = some lr) : s.replaced target source r = true ↔
      ∃ q ∈ (s.sharedPairs target source).map fun p => keeperOf lr.2 p.1 p.2, s.Doubled q r := by
  rw [replaced, hc, Option.any_some, List.any_eq_true]
  constructor
  · rintro ⟨p, hp, hd⟩
    exact ⟨_, List.mem_map_of_mem hp, existingRelease_isSome.mp hd⟩
  · rintro ⟨q, hq, hd⟩
    obtain ⟨p, hp, rfl⟩ := List.mem_map.mp hq
    exact ⟨p, hp, existingRelease_isSome.mpr hd⟩

theorem mergeInto_latestRound (hs : s.Housed) (hne : target ≠ source)
    (h : mergeInto t target s source = .ok s') : LatestRound target source s s' := by
  have hjoins := mergeInto_joins hs.identities hne h
  obtain ⟨lr, s₁, hc, hover, hfold, -, rfl⟩ := mergeInto_ok hs.identities hne h
  have hcons := consolidateOverlapping_consolidated hover
  have hpairs : ∀ p ∈ s.sharedPairs target source, p.1.id ≠ p.2.id := fun p hp he => by
    obtain ⟨⟨h₁, hu₁⟩, ⟨h₂, hu₂⟩, -⟩ := sharedPairs_mem hp
    exact hne (by rw [← hu₁, ← hu₂, hs.identities.eq h₁ h₂ he])
  have hcarries := foldlM_consolidatePair_carries hfold hpairs (sharedPairs_apart hs.identities)
  have hreplaced := fun r => @replaced_iff s target source r lr hc
  generalize hroles : ((s.sharedPairs target source).map fun p => keeperOf lr.2 p.1 p.2) = roles
    at hcarries hreplaced
  -- the chapters of the source go over
  generalize hlist : (s₁.chapters.filter (·.seriesId == source)).insertionSort (·.id ≤ ·.id) = l
    at hjoins
  have hmem : ∀ c, c ∈ l ↔ c ∈ s₁.chapters ∧ c.seriesId = source := by
    intro c
    rw [← hlist, List.mem_insertionSort]
    simp
  have hok₁ : s₁.ChaptersOk :=
    ⟨hcons.chapters ▸ hs.chapters.keyed, hcons.chapters ▸ hs.chapters.numbers⟩
  have hnd : (l.map (·.id)).Nodup := by
    rw [← hlist]
    exact ((List.perm_insertionSort _ _).map _).nodup_iff.mpr hok₁.keyed.filter
  obtain ⟨hshift, hok₂, hrest⟩ := foldl_mergeChapter_keeps
    (P := fun s' => Shifted target source s₁ s') hne hok₁ (fun c hc => (hmem c).mp hc) hnd .refl
    fun s' c hs' hok hcm hu => hs'.trans hne (mergeChapter_shifted hne hok hcm hu)
  have htables := @foldl_mergeChapter_tables s₁ target l
  generalize l.foldl (mergeChapter target) s₁ = s₂ at hjoins hshift hok₂ hrest htables ⊢
  have hgone : ∀ n id, ¬ s₂.IsAt source n id := by
    rintro n id ⟨c, hcm, -, hu, -⟩
    obtain ⟨hc₁, hno⟩ := hrest c hcm hu
    exact hno c ((hmem c).mpr ⟨hc₁, hu⟩) rfl
  obtain ⟨f, hf, hat⟩ := hshift.releases
  have hat₁ : ∀ u n id, s₁.IsAt u n id ↔ s.IsAt u n id := fun u n id => by
    rw [IsAt, IsAt, hcons.chapters]
  have hat₂ : ∀ u n id, s.IsAt u n id → s₂.IsAt (if u = source then target else u) n (f id) := by
    intro u n id hid
    split
    · rename_i hu
      subst hu
      rcases hat u n id ((hat₁ u n id).mpr hid) with hid | ⟨-, hid⟩
      · exact absurd hid (hgone n _)
      · exact hid
    · rename_i hu
      rcases hat u n id ((hat₁ u n id).mpr hid) with hid | ⟨he, -⟩
      · exact hid
      · exact absurd he hu
  have hrelayed : ∀ r r₁ : ReleaseRow, Carried roles r r₁ → Relayed target source s
      (s₂.moveSeries target source) r { r₁ with chapterId := f r₁.chapterId } := by
    intro r r₁ hr
    rw [hr.same]
    exact ⟨rfl, rfl, rfl, rfl, fun u n hid => hat₂ u n _ hid⟩
  have hnot : ∀ r, s.replaced target source r = false ↔ ∀ q ∈ roles, ¬ s.Doubled q r := by
    intro r
    rw [Bool.eq_false_iff, ne_eq, hreplaced]
    simp
  have horigin : ∀ r' ∈ s₂.releases, ∃ r ∈ s.releases, (∀ q ∈ roles, ¬ s.Doubled q r) ∧
      ∃ r₁, Carried roles r r₁ ∧ r' = { r₁ with chapterId := f r₁.chapterId } := by
    intro r' hr'
    rw [hf] at hr'
    obtain ⟨r₁, hr₁, rfl⟩ := List.mem_map.mp hr'
    obtain ⟨r, hr, hno, hcar⟩ := hcarries.origin r₁ hr₁
    exact ⟨r, hr, hno, r₁, hcar, rfl⟩
  have hunited := unite_united hs.identities hc
  have hdup : (s.duplicates target source).map (·.id) = roles.map (·.2.id) := by
    rw [duplicates, hc, ← hroles]
    simp only [List.map_map, Function.comp_def]
  rw [hdup, ← hjoins.identities] at hunited
  refine ⟨⟨?_, hunited.keyed, ⟨hok₂.keyed, hok₂.numbers⟩, ?_, ?_⟩, fun j hj => ?_, ?_,
    fun r hr hno => ?_, fun r' hr' => ?_, ?_⟩
  · refine mergeSeriesRows_keyed ?_
    rw [htables.series, hcons.series]
    exact hs.series
  · show Table.Keyed _ s₂.releases
    rw [hf]
    exact (hcarries.keyed hs.releases).map fun _ _ _ _ he => he
  · intro r' hr'
    obtain ⟨r, hr, -, r₁, hcar, rfl⟩ := horigin r' hr'
    obtain ⟨i, hi, hid, n, hin⟩ := hs.home r hr
    have hplace := (hrelayed r r₁ hcar).at_ _ n hin
    -- the listing is the one of before, or the one that was kept for it
    have hstays : ∀ j ∈ s.identities, j.id = r₁.sourceSeriesId →
        ∃ j' ∈ (s₂.moveSeries target source).identities, j'.id = r₁.sourceSeriesId ∧
          j'.seriesId = if j.seriesId = source then target else j.seriesId := by
      intro j hj hjid
      obtain ⟨j', hj', hmoved⟩ := hunited.kept j hj fun hm => by
        obtain ⟨q, hq, he⟩ := List.mem_map.mp hm
        exact hcar.kept q hq (hjid.symm.trans he.symm)
      refine ⟨j', hj', hmoved.id.trans hjid, ?_⟩
      rw [hmoved.seriesId]
      simp only [List.mem_singleton]
    rcases hcar.listing with he | ⟨q, hq, he, he'⟩
    · obtain ⟨j', hj', hjid, hju⟩ := hstays i hi (hid.trans he.symm)
      exact ⟨j', hj', hjid, n, hju ▸ hplace⟩
    · obtain ⟨p, hp, rfl⟩ := List.mem_map.mp (hroles ▸ hq)
      obtain ⟨⟨h₁, hu₁⟩, ⟨h₂, hu₂⟩, -⟩ := sharedPairs_mem hp
      have hboth : ∀ j : CatalogSourceSeries, j = p.1 ∨ j = p.2 →
          (j ∈ s.identities ∧ (if j.seriesId = source then target else j.seriesId) = target) := by
        rintro j (rfl | rfl)
        · exact ⟨h₁, by rw [hu₁, if_neg hne]⟩
        · exact ⟨h₂, by rw [hu₂, if_pos rfl]⟩
      have hrole : (keeperOf lr.2 p.1 p.2).1 = p.1 ∨ (keeperOf lr.2 p.1 p.2).1 = p.2 := by
        rcases keeperOf_cases lr.2 p.1 p.2 with h | h <;> rw [h] <;> simp
      have hrole' : (keeperOf lr.2 p.1 p.2).2 = p.1 ∨ (keeperOf lr.2 p.1 p.2).2 = p.2 := by
        rcases keeperOf_cases lr.2 p.1 p.2 with h | h <;> rw [h] <;> simp
      obtain ⟨hkm, hku⟩ := hboth _ hrole
      obtain ⟨hdm, hdu⟩ := hboth _ hrole'
      have hi' : i = (keeperOf lr.2 p.1 p.2).2 := hs.identities.eq hi hdm (hid.trans he)
      obtain ⟨j', hj', hjid, hju⟩ := hstays _ hkm he'.symm
      refine ⟨j', hj', hjid, n, ?_⟩
      rw [hju, hku]
      rwa [hi', hdu] at hplace
  · obtain ⟨-, i, hi, hmoved⟩ := hunited.origin j hj
    exact ⟨i, hi, hmoved.id.symm⟩
  · show s₂.mergeSeriesRows target source = _
    simp only [mergeSeriesRows, series?, htables.series, hcons.series]
  · obtain ⟨r₁, hr₁, hcar⟩ := hcarries.kept r hr ((hnot r).mp hno)
    refine ⟨{ r₁ with chapterId := f r₁.chapterId }, ?_, hrelayed r r₁ hcar⟩
    show _ ∈ s₂.releases
    rw [hf]
    exact List.mem_map_of_mem hr₁
  · obtain ⟨r, hr, hno, r₁, hcar, rfl⟩ := horigin r' hr'
    exact ⟨r, hr, (hnot r).mpr hno, hrelayed r r₁ hcar⟩
  · have := hshift.origin
    rwa [hcons.chapters] at this

/-- The home of a chapter is the row that is there after the round. -/
theorem LatestRound.homeOf_eq (hs : s.Housed) (h : LatestRound target source s s')
    {c c' : CatalogChapter} (hc : c ∈ s.chapters) (hu : c.seriesId = target ∨ c.seriesId = source)
    (hc' : c' ∈ s'.chapters) (hu' : c'.seriesId = target)
    (hn : c'.canonicalNumber = c.canonicalNumber) :
    c' = { s.homeOf target c with seriesId := target } := by
  unfold homeOf
  rcases h.chapters c' hc' with hm | ⟨d, hd, hdu, hno, rfl⟩
  · have hsome : s.chapters.find? (fun d =>
        d.seriesId == target && d.canonicalNumber == c.canonicalNumber) = some c' := by
      cases hf : s.chapters.find? fun d =>
          d.seriesId == target && d.canonicalNumber == c.canonicalNumber with
      | none =>
        have := List.find?_eq_none.mp hf c' hm
        simp [hu', hn] at this
      | some d =>
        obtain ⟨hdu, hdn⟩ : d.seriesId = target ∧ d.canonicalNumber = c.canonicalNumber := by
          simpa using List.find?_some hf
        rw [hs.chapters.numbers d (List.mem_of_find?_eq_some hf) c' hm (hdu.trans hu'.symm)
          (hdn.trans hn.symm)]
    rw [hsome, Option.getD_some, ← hu']
  · have hnone : s.chapters.find? (fun d =>
        d.seriesId == target && d.canonicalNumber == c.canonicalNumber) = none := by
      refine List.find?_eq_none.mpr fun x hx => ?_
      rw [Bool.and_eq_true, beq_iff_eq, beq_iff_eq]
      rintro ⟨hxu, hxn⟩
      exact hno x hx hxu (hxn.trans hn.symm)
    have hcu : c.seriesId = source := hu.resolve_left fun hu => hno c hc hu hn.symm
    obtain rfl : c = d := hs.chapters.numbers c hc d hd (hcu.trans hdu.symm) hn.symm
    rw [hnone, Option.getD_none]

/-- After a round `_recompute_latest` selects from the releases of both series. -/
theorem LatestRound.target_pick (hs : s.Housed) (hne : target ≠ source)
    (h : LatestRound target source s s') : (s'.latestRelease target).map latestOf =
      (pickLatest (s.joinedReleases target source)).map latestOf := by
  have hsame : ∀ {c c' : CatalogChapter} {r r' : ReleaseRow},
      Relayed target source s s' r r' → c' = { s.homeOf target c with seriesId := target } →
      SameRelease (s.homeOf target c, r) (c', r') := by
    rintro c _ r r' hr rfl
    exact ⟨rfl, rfl, hr.id, hr.provider, hr.publishedAt, hr.firstSeenAt⟩
  refine h.housed.pick_congr ⟨fun a ha => ?_, fun b hb => ?_⟩
  · obtain ⟨⟨c, r⟩, hrow, rfl⟩ := List.mem_map.mp ha
    obtain ⟨hrow, hno⟩ := List.mem_filter.mp hrow
    have hno : s.replaced target source r = false := by simpa using hno
    obtain ⟨u, hu, hr, hc, hcid, hcu⟩ : ∃ u, (u = target ∨ u = source) ∧ r ∈ s.releases ∧
        c ∈ s.chapters ∧ c.id = r.chapterId ∧ c.seriesId = u := by
      rcases List.mem_append.mp hrow with hm | hm
      · exact ⟨target, .inl rfl, (mem_seriesReleases hs.chapters.keyed).mp hm⟩
      · exact ⟨source, .inr rfl, (mem_seriesReleases hs.chapters.keyed).mp hm⟩
    obtain ⟨r', hr', hrel⟩ := h.kept r hr hno
    have hat := hrel.at_ u c.canonicalNumber ⟨c, hc, hcid, hcu, rfl⟩
    have hmove : (if u = source then target else u) = target := by
      rcases hu with rfl | rfl
      · exact if_neg hne
      · exact if_pos rfl
    rw [hmove] at hat
    obtain ⟨c', hc', hid', hu', hn'⟩ := hat
    refine ⟨(c', r'), (mem_seriesReleases h.housed.chapters.keyed).mpr ⟨hr', hc', hid', hu'⟩, ?_⟩
    exact hsame hrel (h.homeOf_eq hs hc (hcu ▸ hu) hc' hu' hn')
  · obtain ⟨hr', hc', hid', hu'⟩ := (mem_seriesReleases h.housed.chapters.keyed).mp hb
    obtain ⟨c', r'⟩ := b
    dsimp only at hr' hc' hid' hu'
    obtain ⟨r, hr, hno, hrel⟩ := h.origin r' hr'
    obtain ⟨i, -, -, n, c, hc, hcid, hcu, hcn⟩ := hs.home r hr
    obtain ⟨hmove, hn⟩ := h.housed.chapters.isAt_eq (hrel.at_ _ _ ⟨c, hc, hcid, hcu, hcn⟩)
      ⟨c', hc', hid', hu', rfl⟩
    have hu : c.seriesId = target ∨ c.seriesId = source := by
      rw [hcu]
      split at hmove
      · rename_i he
        exact .inr he
      · exact .inl hmove
    refine ⟨(s.homeOf target c, r), List.mem_map.mpr ⟨(c, r), List.mem_filter.mpr ⟨?_, ?_⟩, rfl⟩,
      hsame hrel (h.homeOf_eq hs hc hu hc' hu' (hn.symm.trans hcn.symm))⟩
    · rw [List.mem_append, mem_seriesReleases hs.chapters.keyed,
        mem_seriesReleases hs.chapters.keyed]
      exact hu.imp (fun hu => ⟨hr, hc, hcid, hu⟩) fun hu => ⟨hr, hc, hcid, hu⟩
    · simpa using hno

/-- A listing that is retired is of one of the two series. -/
theorem Housed.not_replaced (hs : s.Housed) (hr : r ∈ s.releases) {c : CatalogChapter}
    (hc : c ∈ s.chapters) (hid : c.id = r.chapterId) (ht : c.seriesId ≠ target)
    (hsrc : c.seriesId ≠ source) : s.replaced target source r = false := by
  obtain ⟨i, hi, hir, n, hat⟩ := hs.home r hr
  obtain ⟨hcu, -⟩ := hs.chapters.isAt_eq ⟨c, hc, hid, rfl, rfl⟩ hat
  refine Bool.eq_false_iff.mpr fun hrep => ?_
  obtain ⟨lr, hlr⟩ : ∃ lr, s.chosen target source = some lr := by
    cases hlr : s.chosen target source with
    | none =>
      rw [replaced, hlr] at hrep
      cases hrep
    | some lr => exact ⟨lr, rfl⟩
  obtain ⟨q, hq, hdup, -⟩ := (replaced_iff hlr).mp hrep
  obtain ⟨p, hp, rfl⟩ := List.mem_map.mp hq
  obtain ⟨⟨h₁, hu₁⟩, ⟨h₂, hu₂⟩, -⟩ := sharedPairs_mem hp
  rcases keeperOf_cases lr.2 p.1 p.2 with he | he <;> rw [he] at hdup
  · rw [hs.identities.eq hi h₁ (hir.trans hdup), hu₁] at hcu
    exact ht hcu
  · rw [hs.identities.eq hi h₂ (hir.trans hdup), hu₂] at hcu
    exact hsrc hcu

/-- And of the other series as before. -/
theorem LatestRound.others_pick (hs : s.Housed) (h : LatestRound target source s s')
    (ht : u ≠ target) (hsrc : u ≠ source) :
    (s'.latestRelease u).map latestOf = (s.latestRelease u).map latestOf := by
  have hsame : SameReleases (s.seriesReleases u) (s'.seriesReleases u) → _ := h.housed.pick_congr
  refine hsame ⟨fun a ha => ?_, fun b hb => ?_⟩
  · obtain ⟨hr, hc, hid, hcu⟩ := (mem_seriesReleases hs.chapters.keyed).mp ha
    obtain ⟨r', hr', hrel⟩ := h.kept a.2 hr
      (hs.not_replaced hr hc hid (hcu ▸ ht) (hcu ▸ hsrc))
    have hat := hrel.at_ u a.1.canonicalNumber ⟨a.1, hc, hid, hcu, rfl⟩
    rw [if_neg hsrc] at hat
    obtain ⟨c', hc', hid', hu', hn'⟩ := hat
    refine ⟨(c', r'), (mem_seriesReleases h.housed.chapters.keyed).mpr ⟨hr', hc', hid', hu'⟩, ?_⟩
    rcases h.chapters c' hc' with hm | ⟨d, -, -, -, rfl⟩
    · rw [hs.chapters.numbers c' hm a.1 hc (hu'.trans hcu.symm) hn']
      exact ⟨rfl, rfl, hrel.id, hrel.provider, hrel.publishedAt, hrel.firstSeenAt⟩
    · exact absurd hu'.symm ht
  · obtain ⟨hr', hc', hid', hu'⟩ := (mem_seriesReleases h.housed.chapters.keyed).mp hb
    obtain ⟨c', r'⟩ := b
    dsimp only at hr' hc' hid' hu'
    obtain ⟨r, hr, -, hrel⟩ := h.origin r' hr'
    obtain ⟨i, -, -, n, c, hc, hcid, hcu, hcn⟩ := hs.home r hr
    obtain ⟨hmove, hn⟩ := h.housed.chapters.isAt_eq (hrel.at_ _ _ ⟨c, hc, hcid, hcu, hcn⟩)
      ⟨c', hc', hid', hu', rfl⟩
    have hu : c.seriesId = u := by
      rw [hcu]
      split at hmove
      · exact absurd hmove.symm ht
      · exact hmove
    refine ⟨(c, r), (mem_seriesReleases hs.chapters.keyed).mpr ⟨hr, hc, hcid, hu⟩, ?_⟩
    rcases h.chapters c' hc' with hm | ⟨d, -, -, -, rfl⟩
    · rw [hs.chapters.numbers c' hm c hc (hu'.trans hu.symm) (hn.symm.trans hcn.symm)]
      exact ⟨rfl, rfl, hrel.id, hrel.provider, hrel.publishedAt, hrel.firstSeenAt⟩
    · exact absurd hu'.symm ht

theorem latest_adopt (a b : CatalogSeries) : (adopt a b).latest = (laterRow a b).latest := by
  unfold laterRow
  cases ha : a.latestReleaseAt with
  | none => simp [adopt, CatalogSeries.latest, ha]
  | some x => cases hb : b.latestReleaseAt with
    | none => simp [adopt, CatalogSeries.latest, ha, hb]
    | some y => by_cases hlt : x < y <;> simp [adopt, CatalogSeries.latest, ha, hb, hlt]

/-- A round keeps the columns right exactly when the later row agrees with the releases of both. -/
theorem mergeInto_latestOk_iff (hs : s.Housed) (hl : s.LatestOk) (hne : target ≠ source)
    (ht : ∃ a ∈ s.series, a.id = target) (hsrc : ∃ b ∈ s.series, b.id = source)
    (h : mergeInto t target s source = .ok s') : s'.LatestOk ↔ s.Agrees target source := by
  have hround := mergeInto_latestRound hs hne h
  obtain ⟨a, ha, rfl⟩ := ht
  obtain ⟨b, hb, rfl⟩ := hsrc
  have haget : s.series? a.id = some a := hs.series.get_eq ha
  have hbget : s.series? b.id = some b := hs.series.get_eq hb
  have hseries : s'.series =
      (Table.put CatalogSeries.id s.series (adopt a b)).filter (·.id != b.id) := by
    rw [hround.series]
    simp only [mergeSeriesRows, haget, hbget]
  have hadopt : (adopt a b).id = a.id := rfl
  rw [latestOk_iff] at hl ⊢
  constructor
  · intro h' a' ha' b' hb' p hp
    obtain rfl : a = a' := Option.some.inj (haget.symm.trans ha')
    obtain rfl : b = b' := Option.some.inj (hbget.symm.trans hb')
    have hm : adopt a b ∈ s'.series := by
      rw [hseries]
      exact List.mem_filter.mpr ⟨Table.mem_put_self ha hadopt.symm, bne_iff_ne.mpr hne⟩
    rw [← latest_adopt]
    refine h' _ hm _ ?_
    rw [hadopt, hround.target_pick hs hne]
    exact Option.mem_map_of_mem latestOf hp
  · intro hagree u hu v hv
    rw [hseries] at hu
    obtain ⟨hu, hub⟩ := List.mem_filter.mp hu
    rcases Table.mem_put.mp hu with ⟨rfl, -⟩ | ⟨hu, hua⟩
    · rw [hadopt, hround.target_pick hs hne] at hv
      obtain ⟨p, hp, rfl⟩ := Option.mem_map.mp hv
      rw [latest_adopt]
      exact hagree a haget b hbget p hp
    · rw [hround.others_pick hs hua (bne_iff_ne.mp hub)] at hv
      exact hl u hu v hv

/-! ## All rounds -/

/-- No rows are added. -/
structure NoNewRows (s s' : Collection) : Prop where
  series : ∀ u' ∈ s'.series, ∃ u ∈ s.series, u.id = u'.id
  identities : ∀ i' ∈ s'.identities, ∃ i ∈ s.identities, i.id = i'.id
  chapters : ∀ c' ∈ s'.chapters, ∃ c ∈ s.chapters, c.id = c'.id
  releases : ∀ r' ∈ s'.releases, ∃ r ∈ s.releases, r.id = r'.id

theorem NoNewRows.refl : NoNewRows s s :=
  ⟨fun u h => ⟨u, h, rfl⟩, fun i h => ⟨i, h, rfl⟩, fun c h => ⟨c, h, rfl⟩, fun r h => ⟨r, h, rfl⟩⟩

theorem NoNewRows.trans (h : NoNewRows s s₁) (h' : NoNewRows s₁ s') : NoNewRows s s' := by
  refine ⟨fun u' hu' => ?_, fun i' hi' => ?_, fun c' hc' => ?_, fun r' hr' => ?_⟩
  · obtain ⟨u₁, hu₁, he⟩ := h'.series u' hu'
    obtain ⟨u, hu, he'⟩ := h.series u₁ hu₁
    exact ⟨u, hu, he'.trans he⟩
  · obtain ⟨i₁, hi₁, he⟩ := h'.identities i' hi'
    obtain ⟨i, hi, he'⟩ := h.identities i₁ hi₁
    exact ⟨i, hi, he'.trans he⟩
  · obtain ⟨c₁, hc₁, he⟩ := h'.chapters c' hc'
    obtain ⟨c, hc, he'⟩ := h.chapters c₁ hc₁
    exact ⟨c, hc, he'.trans he⟩
  · obtain ⟨r₁, hr₁, he⟩ := h'.releases r' hr'
    obtain ⟨r, hr, he'⟩ := h.releases r₁ hr₁
    exact ⟨r, hr, he'.trans he⟩

theorem LatestRound.noNewRows (h : LatestRound target source s s') : NoNewRows s s' := by
  refine ⟨fun u hu => mem_mergeSeriesRows (h.series ▸ hu), h.identities, fun c hc => ?_,
    fun r hr => ?_⟩
  · rcases h.chapters c hc with hc | ⟨d, hd, -, -, rfl⟩
    · exact ⟨c, hc, rfl⟩
    · exact ⟨d, hd, rfl⟩
  · obtain ⟨r₀, hr₀, -, hrel⟩ := h.origin r hr
    exact ⟨r₀, hr₀, hrel.id.symm⟩

/-- The other series keep their rows. -/
theorem LatestRound.keepsRow (h : LatestRound target source s s') (hu : ∃ a ∈ s.series, a.id = u)
    (hne : u ≠ source) : ∃ a ∈ s'.series, a.id = u := by
  obtain ⟨a, ha, rfl⟩ := hu
  rw [h.series]
  have hput : ∀ b : CatalogSeries, ∃ x ∈ Table.put CatalogSeries.id s.series b, x.id = a.id := by
    intro b
    by_cases he : a.id = b.id
    · exact ⟨b, Table.mem_put_self ha he, he.symm⟩
    · exact ⟨a, Table.mem_put_of_ne ha he, rfl⟩
  have hkeep : ∀ rows : List CatalogSeries, (∃ x ∈ rows, x.id = a.id) →
      ∃ x ∈ rows.filter (·.id != source), x.id = a.id := fun rows ⟨x, hx, he⟩ =>
    ⟨x, List.mem_filter.mpr ⟨hx, bne_iff_ne.mpr (he ▸ hne)⟩, he⟩
  refine hkeep _ ?_
  split
  · exact hput _
  · exact hput _
  · exact ⟨a, ha, rfl⟩

/-- The rounds of a merge keep the columns right when the rows agree in each of them. -/
theorem foldlM_mergeInto_latestOk {sources : List Nat} (hs : s.Housed) (hl : s.LatestOk)
    (hnd : (target :: sources).Nodup) (hrows : ∀ u ∈ target :: sources, ∃ a ∈ s.series, a.id = u)
    (hagree : RoundsAgree t target sources s)
    (h : sources.foldlM (mergeInto t target) s = .ok s') :
    s'.Housed ∧ s'.LatestOk ∧ NoNewRows s s' := by
  induction sources generalizing s with
  | nil =>
    cases h
    exact ⟨hs, hl, .refl⟩
  | cons source sources ih =>
    obtain ⟨s₁, h₁, hrest⟩ := foldlM_cons_eq_ok.mp h
    rw [RoundsAgree, h₁] at hagree
    obtain ⟨ht, hnd⟩ := List.nodup_cons.mp hnd
    obtain ⟨hsrc, hnd⟩ := List.nodup_cons.mp hnd
    rw [List.mem_cons, not_or] at ht
    have hround := mergeInto_latestRound hs ht.1 h₁
    have hl₁ : s₁.LatestOk := (mergeInto_latestOk_iff hs hl ht.1 (hrows target List.mem_cons_self)
      (hrows source (List.mem_cons_of_mem _ List.mem_cons_self)) h₁).mpr hagree.1
    have hrows₁ : ∀ u ∈ target :: sources, ∃ a ∈ s₁.series, a.id = u := by
      intro u hu
      rcases List.mem_cons.mp hu with rfl | hu
      · exact hround.keepsRow (hrows u List.mem_cons_self) ht.1
      · refine hround.keepsRow (hrows u ?_) fun he => hsrc (he ▸ hu)
        exact List.mem_cons_of_mem _ (List.mem_cons_of_mem _ hu)
    obtain ⟨hs', hl', hno⟩ := ih hround.housed hl₁ (List.nodup_cons.mpr ⟨ht.2, hnd⟩) hrows₁
      hagree.2 hrest
    exact ⟨hs', hl', hround.noNewRows.trans hno⟩

theorem mergeCanonicalSeries_latestOk {ids : List Nat} {now : Time} (hs : s.Housed)
    (hl : s.LatestOk) (hagree : s.MergeAgrees t ids)
    (h : s.mergeCanonicalSeries t ids now = .ok (s', target)) :
    s'.Housed ∧ s'.LatestOk ∧ NoNewRows s s' := by
  obtain ⟨row, s₁, queue, created, hrow, rfl, hfold, -, rfl⟩ := mergeCanonicalSeries_ok h
  have hnd : (s.mergeOrder ids).Nodup := mergeOrder_nodup hs.series
  rw [mergeOrder_eq hrow] at hnd
  have hsel := List.argmax_mem hrow
  generalize hrows : s.selectedSeries ids = rows at *
  have hmem : ∀ x ∈ rows, x ∈ s.series := fun x hx => (mem_selectedSeries.mp (hrows ▸ hx)).1
  -- the status is no column that a round reads
  have hput : ∀ u ∈ (s.withStatus row rows).series, ∃ v ∈ s.series, v.id = u.id ∧
      u.latest = v.latest := by
    intro u hu
    rcases Table.mem_put.mp hu with ⟨rfl, -⟩ | ⟨hu, -⟩
    · exact ⟨row, hmem row hsel, rfl, rfl⟩
    · exact ⟨u, hu, rfl, rfl⟩
  have hs₀ : (s.withStatus row rows).Housed :=
    ⟨Table.keyed_put.mpr hs.series, hs.identities, ⟨hs.chapters.keyed, hs.chapters.numbers⟩,
      hs.releases, hs.home⟩
  have hl₀ : (s.withStatus row rows).LatestOk := by
    intro u hu p hp
    obtain ⟨v, hv, hid, hlatest⟩ := hput u hu
    rw [hlatest]
    exact hl v hv p (hid ▸ hp)
  have hrows₀ : ∀ u ∈ row.id :: (rows.filter (·.id != row.id)).map (·.id),
      ∃ a ∈ (s.withStatus row rows).series, a.id = u := by
    have hone : ∀ x ∈ rows, ∃ a ∈ (s.withStatus row rows).series, a.id = x.id := by
      intro x hx
      have hk : x.id ∈ (s.withStatus row rows).series.map (·.id) := by
        show x.id ∈ (Table.put CatalogSeries.id s.series _).map CatalogSeries.id
        rw [Table.map_key_put]
        exact List.mem_map_of_mem (hmem x hx)
      exact List.mem_map.mp hk
    intro u hu
    rcases List.mem_cons.mp hu with rfl | hu
    · exact hone row hsel
    · obtain ⟨x, hx, rfl⟩ := List.mem_map.mp hu
      exact hone x (List.mem_filter.mp hx).1
  have hagree₀ := hagree row (by rw [hrows]; exact hrow)
  rw [hrows] at hagree₀
  obtain ⟨hs', hl', hno⟩ := foldlM_mergeInto_latestOk hs₀ hl₀ hnd hrows₀ hagree₀ hfold
  refine ⟨⟨hs'.series, hs'.identities, ⟨hs'.chapters.keyed, hs'.chapters.numbers⟩, hs'.releases,
    hs'.home⟩, hl', fun u hu => ?_, hno.identities, hno.chapters, hno.releases⟩
  obtain ⟨v, hv, he⟩ := hno.series u hu
  obtain ⟨w, hw, he', -⟩ := hput v hv
  exact ⟨w, hw, he'.trans he⟩

end

end Collection

end MangaManager
