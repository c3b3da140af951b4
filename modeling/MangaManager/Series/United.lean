import MangaManager.Series.Listings

/-!
# The identities of a merge

Which listings a merge retires is decided by the identities of the series alone, and so
is where the others end: `unite` is `merge_match_groups` on that table, and `retired` the
duplicates of all rounds. `mergeCanonicalSeries_united` says that the merge does just
this to the identities, and that the decisions of retired listings go with them.
-/

namespace MangaManager

open Lib

namespace Collection

variable (s : Collection)

/-- The two identities that stand for the series in a round. -/
def chosen (target source : Nat) : Option (CatalogSourceSeries × CatalogSourceSeries) :=
  let targets := s.identitiesOf target
  let sources := s.identitiesOf source
  let shared := targets.filter fun i => sources.any (·.source == i.source)
  (shared ++ targets).head?.bind fun left =>
    (sources.filter (·.source == left.source) ++ sources).head?.map fun right => (left, right)

/-- The listings that are retired when `source` is merged into `target`. -/
def duplicates (target source : Nat) : List CatalogSourceSeries :=
  match s.chosen target source with
  | none => []
  | some lr => (s.sharedPairs target source).map fun p => (keeperOf lr.2 p.1 p.2).2

/-- The identities without the duplicate of a pair. -/
def withoutDuplicate (right : CatalogSourceSeries) (rows : List CatalogSourceSeries)
    (p : CatalogSourceSeries × CatalogSourceSeries) : List CatalogSourceSeries :=
  (Table.put CatalogSourceSeries.id rows
    (enriched (keeperOf right p.1 p.2).1 (keeperOf right p.1 p.2).2)).filter
      (·.id != (keeperOf right p.1 p.2).2.id)

def moveIdentity (target source : Nat) (i : CatalogSourceSeries) : CatalogSourceSeries :=
  { i with seriesId := if i.seriesId = source then target else i.seriesId }

/-- The identities once `source` is merged into `target`. -/
def unite (target : Nat) (s : Collection) (source : Nat) : Collection :=
  match s.chosen target source with
  | none => s
  | some lr =>
    { s with
      identities := ((s.sharedPairs target source).foldl (withoutDuplicate lr.2) s.identities).map
        (moveIdentity target source) }

/-- The listings that the rounds retire. -/
def retired (target : Nat) : List Nat → Collection → List CatalogSourceSeries
  | [], _ => []
  | source :: sources, s =>
    s.duplicates target source ++ retired target sources (s.unite target source)

/-- The listings that `merge_canonical_series` retires. -/
def retiredListings (ids : List Nat) : List CatalogSourceSeries :=
  match s.mergeOrder ids with
  | [] => []
  | target :: sources => retired target sources s

section
variable {s s₁ s' : Collection} {t : TextLib} {target source : Nat}

theorem identitiesOf_congr (h : s₁.identities = s.identities) (u : Nat) :
    s₁.identitiesOf u = s.identitiesOf u := by
  unfold identitiesOf
  rw [h]

theorem sharedPairs_congr (h : s₁.identities = s.identities) :
    s₁.sharedPairs target source = s.sharedPairs target source := by
  simp only [sharedPairs, sharedSources, sourcesOf, identityWith, identitiesOf_congr h]
  rfl

theorem chosen_congr (h : s₁.identities = s.identities) :
    s₁.chosen target source = s.chosen target source := by
  simp only [chosen, identitiesOf_congr h]

theorem duplicates_congr (h : s₁.identities = s.identities) :
    s₁.duplicates target source = s.duplicates target source := by
  simp only [duplicates, chosen_congr h, sharedPairs_congr h]

theorem unite_congr (h : s₁.identities = s.identities) :
    (s₁.unite target source).identities = (s.unite target source).identities := by
  unfold unite
  rw [chosen_congr h, sharedPairs_congr h]
  cases s.chosen target source with
  | none => exact h
  | some lr => exact congrArg (fun rows => List.map _ (List.foldl _ rows _)) h

theorem retired_congr {sources : List Nat} (h : s₁.identities = s.identities) :
    retired target sources s₁ = retired target sources s := by
  induction sources generalizing s₁ s with
  | nil => rfl
  | cons source sources ih => rw [retired, retired, duplicates_congr h, ih (unite_congr h)]

/-! ## One round -/

/-- What a round does to the identities and the decisions. -/
structure Joins (target source : Nat) (s s' : Collection) : Prop where
  identities : s'.identities = (s.unite target source).identities
  decisions : s'.decisions = s.decisions.filter fun d =>
    decide (d.leftSourceSeriesId ∉ (s.duplicates target source).map (·.id)) &&
      decide (d.rightSourceSeriesId ∉ (s.duplicates target source).map (·.id))

theorem consolidate_identities {keeper duplicate : CatalogSourceSeries} {overlap : Nat × Nat} :
    (s.consolidate keeper duplicate overlap).identities =
      (Table.put CatalogSourceSeries.id s.identities (enriched keeper duplicate)).filter
        (·.id != duplicate.id) ∧
      (s.consolidate keeper duplicate overlap).decisions = s.decisions.filter fun d =>
        d.leftSourceSeriesId != duplicate.id && d.rightSourceSeriesId != duplicate.id := by
  obtain ⟨alternates, next, he⟩ := @moveAlternates_eq s keeper duplicate overlap
  unfold consolidate
  rw [he]
  exact ⟨rfl, rfl⟩

theorem foldlM_consolidatePair_identities {right : CatalogSourceSeries}
    {pairs : List (CatalogSourceSeries × CatalogSourceSeries)}
    (h : pairs.foldlM (consolidatePair t right) s = .ok s') :
    s'.identities = pairs.foldl (withoutDuplicate right) s.identities ∧
      s'.decisions = s.decisions.filter fun d =>
        decide (d.leftSourceSeriesId ∉ pairs.map fun p => (keeperOf right p.1 p.2).2.id) &&
          decide (d.rightSourceSeriesId ∉ pairs.map fun p => (keeperOf right p.1 p.2).2.id) := by
  induction pairs generalizing s with
  | nil =>
    cases h
    simp
  | cons p pairs ih =>
    obtain ⟨s₁, hp, hrest⟩ := foldlM_cons_eq_ok.mp h
    unfold consolidatePair at hp
    dsimp only at hp
    split at hp
    · cases hp
    cases hp
    obtain ⟨hids, hdecs⟩ := ih hrest
    obtain ⟨hids₁, hdecs₁⟩ := @consolidate_identities s (keeperOf right p.1 p.2).1
      (keeperOf right p.1 p.2).2
      (s.chapterOverlap (keeperOf right p.1 p.2).1.id (keeperOf right p.1 p.2).2.id)
    refine ⟨?_, ?_⟩
    · rw [hids, hids₁]
      rfl
    · rw [hdecs, hdecs₁, List.filter_filter]
      congr 1
      funext d
      simp only [List.map_cons, List.mem_cons, not_or, Bool.decide_and, bne, beq_eq_decide,
        decide_not]
      cases decide (d.leftSourceSeriesId = (keeperOf right p.1 p.2).2.id) <;>
        cases decide (d.rightSourceSeriesId = (keeperOf right p.1 p.2).2.id) <;> simp

theorem mergeChapter_decisions (targetSeriesId : Nat) (chapters : List CatalogChapter) :
    (chapters.foldl (mergeChapter targetSeriesId) s).decisions = s.decisions := by
  refine List.foldlRecOn (motive := fun s' : Collection => s'.decisions = s.decisions) _ _ rfl
    fun s' h c _ => ?_
  unfold mergeChapter
  split <;> exact h

theorem chosen_some {lr : CatalogSourceSeries × CatalogSourceSeries}
    (h : s.chosen target source = some lr) :
    (lr.1 ∈ s.identities ∧ lr.1.seriesId = target) ∧
      lr.2 ∈ s.identities ∧ lr.2.seriesId = source := by
  unfold chosen at h
  dsimp only at h
  obtain ⟨left, hl, h⟩ := Option.bind_eq_some_iff.mp h
  obtain ⟨right, hr, rfl⟩ := Option.map_eq_some_iff.mp h
  refine ⟨mem_identitiesOf.mp ?_, mem_identitiesOf.mp ?_⟩
  · rcases List.mem_append.mp (List.mem_of_head? hl) with hm | hm
    · exact (List.mem_filter.mp hm).1
    · exact hm
  · rcases List.mem_append.mp (List.mem_of_head? hr) with hm | hm
    · exact (List.mem_filter.mp hm).1
    · exact hm

theorem mergeInto_some (h : mergeInto t target s source = .ok s') :
    ∃ lr, s.chosen target source = some lr ∧ s.mergeMatchGroups t lr.1.id lr.2.id = .ok s' := by
  unfold mergeInto at h
  unfold chosen
  dsimp only at h ⊢
  split at h
  · cases h
  rename_i left hl
  split at h
  · cases h
  rename_i right hr
  refine ⟨(left, right), ?_, h⟩
  rw [hl, Option.bind_some, hr, Option.map_some]

/-- A round that does not raise: the providers of both series, the chapters, and the rows. -/
theorem mergeInto_ok (hk : Table.Keyed CatalogSourceSeries.id s.identities)
    (hne : target ≠ source) (h : mergeInto t target s source = .ok s') :
    ∃ lr s₁, s.chosen target source = some lr ∧
      s.consolidateOverlapping t lr.1 lr.2 = .ok s₁ ∧
      (s.sharedPairs target source).foldlM (consolidatePair t lr.2) s = .ok s₁ ∧
      s₁.sharedSources target source = [] ∧
      s' = (((s₁.chapters.filter (·.seriesId == source)).insertionSort (·.id ≤ ·.id)).foldl
        (mergeChapter target) s₁).moveSeries target source := by
  obtain ⟨⟨left, right⟩, hc, hm⟩ := mergeInto_some h
  obtain ⟨⟨hleft, hlu⟩, hright, hru⟩ := chosen_some hc
  dsimp only at hm hleft hlu hright hru
  unfold mergeMatchGroups at hm
  rw [show s.identity? left.id = some left from hk.get_eq hleft,
    show s.identity? right.id = some right from hk.get_eq hright] at hm
  dsimp only at hm
  rw [hlu, hru, if_neg hne] at hm
  split at hm
  · cases hm
  rename_i s₁ hcons
  split at hm
  · cases hm
  rename_i hshared
  cases hm
  refine ⟨(left, right), s₁, hc, hcons, ?_, not_not.mp hshared, rfl⟩
  unfold consolidateOverlapping at hcons
  rwa [hlu, hru] at hcons

theorem mergeInto_joins (hk : Table.Keyed CatalogSourceSeries.id s.identities)
    (hne : target ≠ source) (h : mergeInto t target s source = .ok s') :
    Joins target source s s' := by
  obtain ⟨⟨left, right⟩, s₁, hc, -, hcons, -, rfl⟩ := mergeInto_ok hk hne h
  obtain ⟨hids, hdecs⟩ := foldlM_consolidatePair_identities hcons
  generalize (s₁.chapters.filter (·.seriesId == source)).insertionSort (·.id ≤ ·.id) = l
  refine ⟨?_, ?_⟩
  · show ((l.foldl (mergeChapter target) s₁).identities.map fun i => { i with
      seriesId := if i.seriesId = source then target else i.seriesId }) = _
    rw [(foldl_mergeChapter_tables l).identities, hids, unite, hc]
    rfl
  · show (l.foldl (mergeChapter target) s₁).decisions = _
    rw [mergeChapter_decisions, hdecs, duplicates, hc]
    simp only [List.map_map, Function.comp_def]

theorem sharedPairs_mem {p : CatalogSourceSeries × CatalogSourceSeries}
    (h : p ∈ s.sharedPairs target source) :
    (p.1 ∈ s.identities ∧ p.1.seriesId = target) ∧
      (p.2 ∈ s.identities ∧ p.2.seriesId = source) ∧ p.1.source = p.2.source := by
  obtain ⟨src, -, h⟩ := List.mem_filterMap.mp h
  split at h
  · rename_i l r hl hr
    cases h
    obtain ⟨hlm, hlu, hls⟩ := identityWith_mem hl
    obtain ⟨hrm, hru, hrs⟩ := identityWith_mem hr
    exact ⟨⟨hlm, hlu⟩, ⟨hrm, hru⟩, hls.trans hrs.symm⟩
  · cases h

/-- What is left of the identities when duplicates of pairs are taken out. -/
structure Thinned (gone : List Nat) (rows rows' : List CatalogSourceSeries) : Prop where
  keyed : Table.Keyed CatalogSourceSeries.id rows'
  kept : ∀ i ∈ rows, i.id ∉ gone → ∃ j ∈ rows', SameIdentity i j
  origin : ∀ j ∈ rows', j.id ∉ gone ∧ ∃ i ∈ rows, SameIdentity i j

theorem withoutDuplicate_thinned {rows : List CatalogSourceSeries} {right : CatalogSourceSeries}
    {p : CatalogSourceSeries × CatalogSourceSeries}
    (hk : Table.Keyed CatalogSourceSeries.id rows)
    (hp : ∀ x ∈ rows, x.id = (keeperOf right p.1 p.2).1.id →
      SameIdentity (keeperOf right p.1 p.2).1 x) :
    Thinned [(keeperOf right p.1 p.2).2.id] rows (withoutDuplicate right rows p) := by
  unfold withoutDuplicate
  generalize keeperOf right p.1 p.2 = k at hp ⊢
  have hrow : ∀ x ∈ rows, x.id = k.1.id → SameIdentity x (enriched k.1 k.2) := by
    intro x hx he
    obtain ⟨h₁, h₂, h₃⟩ := hp x hx he
    exact ⟨h₁.symm, h₂.symm, h₃.symm⟩
  refine ⟨(Table.keyed_put.mpr hk).filter, fun i hi hno => ?_, fun j hj => ?_⟩
  · have hid : i.id ≠ k.2.id := by simpa using hno
    by_cases he : i.id = k.1.id
    · have hsame := hrow i hi he
      refine ⟨_, List.mem_filter.mpr ⟨Table.mem_put_self hi hsame.id.symm, ?_⟩, hsame⟩
      simpa [hsame.id] using hid
    · exact ⟨i, List.mem_filter.mpr ⟨Table.mem_put_of_ne hi he, by simpa using hid⟩, .refl⟩
  · obtain ⟨hj, hno⟩ := List.mem_filter.mp hj
    refine ⟨by simpa using hno, ?_⟩
    rcases Table.mem_put.mp hj with ⟨rfl, x, hx, he⟩ | ⟨hj, -⟩
    · exact ⟨x, hx, hrow x hx he⟩
    · exact ⟨j, hj, .refl⟩

/-- The pairs are as the loop first saw them. -/
theorem foldl_withoutDuplicate {rows : List CatalogSourceSeries} {right : CatalogSourceSeries}
    {pairs : List (CatalogSourceSeries × CatalogSourceSeries)}
    (hk : Table.Keyed CatalogSourceSeries.id rows)
    (hp : ∀ p ∈ pairs, ∀ x ∈ rows, x.id = (keeperOf right p.1 p.2).1.id →
      SameIdentity (keeperOf right p.1 p.2).1 x) :
    Thinned (pairs.map fun p => (keeperOf right p.1 p.2).2.id) rows
      (pairs.foldl (withoutDuplicate right) rows) := by
  induction pairs generalizing rows with
  | nil => exact ⟨hk, fun i hi _ => ⟨i, hi, .refl⟩, fun j hj => ⟨List.not_mem_nil, j, hj, .refl⟩⟩
  | cons p pairs ih =>
    have h₁ := withoutDuplicate_thinned hk (hp p List.mem_cons_self)
    have h₂ := ih h₁.keyed fun q hq x hx he => by
      obtain ⟨-, i, hi, hsame⟩ := h₁.origin x hx
      exact (hp q (List.mem_cons_of_mem _ hq) i hi (hsame.id.symm.trans he)).trans hsame
    refine ⟨h₂.keyed, fun i hi hno => ?_, fun j hj => ?_⟩
    · rw [List.map_cons, List.mem_cons, not_or] at hno
      obtain ⟨x, hx, hsame⟩ := h₁.kept i hi (by simpa using hno.1)
      obtain ⟨j, hj, hsame'⟩ := h₂.kept x hx (hsame.id ▸ hno.2)
      exact ⟨j, hj, hsame.trans hsame'⟩
    · obtain ⟨hno, x, hx, hsame⟩ := h₂.origin j hj
      obtain ⟨hno₁, i, hi, hsame₁⟩ := h₁.origin x hx
      refine ⟨?_, i, hi, hsame₁.trans hsame⟩
      rw [List.map_cons, List.mem_cons, not_or]
      exact ⟨by simpa [hsame.id] using hno₁, hno⟩

/-- The same listing, in the series it was in or in the one that took it. -/
structure Moved (target : Nat) (sources : List Nat) (i j : CatalogSourceSeries) : Prop where
  id : j.id = i.id
  listing : j.listing = i.listing
  seriesId : j.seriesId = if i.seriesId ∈ sources then target else i.seriesId

/-- Where the listings are after the rounds; those of `gone` are retired. -/
structure United (target : Nat) (sources : List Nat) (gone : List Nat)
    (rows rows' : List CatalogSourceSeries) : Prop where
  keyed : Table.Keyed CatalogSourceSeries.id rows'
  kept : ∀ i ∈ rows, i.id ∉ gone → ∃ j ∈ rows', Moved target sources i j
  origin : ∀ j ∈ rows', j.id ∉ gone ∧ ∃ i ∈ rows, Moved target sources i j

theorem unite_united {lr : CatalogSourceSeries × CatalogSourceSeries}
    (hk : Table.Keyed CatalogSourceSeries.id s.identities)
    (hc : s.chosen target source = some lr) :
    United target [source] ((s.duplicates target source).map (·.id)) s.identities
      (s.unite target source).identities := by
  have hmem : ∀ p ∈ s.sharedPairs target source, (keeperOf lr.2 p.1 p.2).1 ∈ s.identities := by
    intro p hp
    obtain ⟨h₁, h₂, -⟩ := sharedPairs_mem hp
    rcases keeperOf_cases lr.2 p.1 p.2 with h | h <;> rw [h]
    · exact h₂.1
    · exact h₁.1
  have hthin := @foldl_withoutDuplicate s.identities lr.2 (s.sharedPairs target source) hk
    fun p hp x hx he => by
      obtain rfl := hk.eq hx (hmem p hp) he
      exact .refl
  have hgone : (s.duplicates target source).map (·.id) =
      (s.sharedPairs target source).map fun p => (keeperOf lr.2 p.1 p.2).2.id := by
    rw [duplicates, hc]
    simp only [List.map_map, Function.comp_def]
  rw [hgone, unite, hc]
  dsimp only
  refine ⟨hthin.keyed.map fun x _ y _ he => he, fun i hi hno => ?_, fun j hj => ?_⟩
  · obtain ⟨x, hx, hsame⟩ := hthin.kept i hi hno
    refine ⟨_, List.mem_map_of_mem hx, hsame.id, hsame.listing, ?_⟩
    simp only [moveIdentity, hsame.seriesId, List.mem_singleton]
  · obtain ⟨x, hx, rfl⟩ := List.mem_map.mp hj
    obtain ⟨hno, i, hi, hsame⟩ := hthin.origin x hx
    refine ⟨hno, i, hi, hsame.id, hsame.listing, ?_⟩
    simp only [moveIdentity, hsame.seriesId, List.mem_singleton]

/-! ## All rounds -/

theorem United.refl (hk : Table.Keyed CatalogSourceSeries.id s.identities) :
    United target [] [] s.identities s.identities :=
  ⟨hk, fun i hi _ => ⟨i, hi, rfl, rfl, by simp⟩, fun j hj => ⟨by simp, j, hj, rfl, rfl, by simp⟩⟩

theorem Moved.trans {sources : List Nat} {i j k : CatalogSourceSeries} (ht : target ∉ sources)
    (h : Moved target [source] i j) (h' : Moved target sources j k) :
    Moved target (source :: sources) i k := by
  refine ⟨h'.id.trans h.id, h'.listing.trans h.listing, ?_⟩
  rw [h'.seriesId, h.seriesId]
  by_cases hi : i.seriesId = source
  · rw [if_pos (List.mem_singleton.mpr hi), if_neg ht, if_pos (hi ▸ List.mem_cons_self)]
  · rw [if_neg (mt List.mem_singleton.mp hi)]
    simp only [List.mem_cons, hi, false_or]

theorem United.trans {rows rows₁ rows' : List CatalogSourceSeries} {sources gone gone₁ : List Nat}
    (ht : target ∉ sources) (h : United target [source] gone rows rows₁)
    (h' : United target sources gone₁ rows₁ rows') :
    United target (source :: sources) (gone ++ gone₁) rows rows' := by
  refine ⟨h'.keyed, fun i hi hno => ?_, fun j hj => ?_⟩
  · rw [List.mem_append, not_or] at hno
    obtain ⟨x, hx, hm⟩ := h.kept i hi hno.1
    obtain ⟨j, hj, hm'⟩ := h'.kept x hx (hm.id ▸ hno.2)
    exact ⟨j, hj, hm.trans ht hm'⟩
  · obtain ⟨hno, x, hx, hm⟩ := h'.origin j hj
    obtain ⟨hno₁, i, hi, hm₁⟩ := h.origin x hx
    refine ⟨?_, i, hi, hm₁.trans ht hm⟩
    rw [List.mem_append, not_or]
    exact ⟨hm.id ▸ hno₁, hno⟩

/-- What a merge does to the identities and the decisions, `gone` being the listings it retires. -/
structure Reunited (target : Nat) (sources gone : List Nat) (s s' : Collection) : Prop where
  identities : United target sources gone s.identities s'.identities
  decisions : ∀ d, d ∈ s'.decisions ↔
    d ∈ s.decisions ∧ d.leftSourceSeriesId ∉ gone ∧ d.rightSourceSeriesId ∉ gone

theorem foldlM_mergeInto_reunited {sources : List Nat}
    (hk : Table.Keyed CatalogSourceSeries.id s.identities) (ht : target ∉ sources)
    (h : sources.foldlM (mergeInto t target) s = .ok s') :
    Reunited target sources ((retired target sources s).map (·.id)) s s' := by
  induction sources generalizing s with
  | nil =>
    cases h
    exact ⟨.refl hk, fun d => by simp [retired]⟩
  | cons source sources ih =>
    obtain ⟨s₁, h₁, hrest⟩ := foldlM_cons_eq_ok.mp h
    rw [List.mem_cons, not_or] at ht
    obtain ⟨lr, hc, -⟩ := mergeInto_some h₁
    have hj := mergeInto_joins hk ht.1 h₁
    have hu := unite_united hk hc
    have hk₁ : Table.Keyed CatalogSourceSeries.id s₁.identities := hj.identities ▸ hu.keyed
    obtain ⟨hids, hdecs⟩ := ih hk₁ ht.2 hrest
    rw [retired_congr hj.identities] at hids hdecs
    rw [hj.identities] at hids
    rw [retired, List.map_append]
    refine ⟨hu.trans ht.2 hids, fun d => ?_⟩
    rw [hdecs, hj.decisions, List.mem_filter, Bool.and_eq_true, decide_eq_true_eq,
      decide_eq_true_eq]
    simp only [List.mem_append, not_or]
    exact ⟨fun ⟨⟨hd, hl, hr⟩, hl', hr'⟩ => ⟨hd, ⟨hl, hl'⟩, hr, hr'⟩,
      fun ⟨hd, ⟨hl, hl'⟩, hr, hr'⟩ => ⟨⟨hd, hl, hr⟩, hl', hr'⟩⟩

theorem mergeCanonicalSeries_reunited {ids : List Nat} {now : Time}
    (hk : Table.Keyed CatalogSourceSeries.id s.identities)
    (h : s.mergeCanonicalSeries t ids now = .ok (s', target)) :
    ∃ sources, s.mergeOrder ids = target :: sources ∧ target ∉ sources ∧
      Reunited target sources ((s.retiredListings ids).map (·.id)) s s' := by
  obtain ⟨row, s₁, queue, created, hrow, rfl, hfold, -, rfl⟩ := mergeCanonicalSeries_ok h
  have horder := mergeOrder_eq hrow
  have hno : row.id ∉ ((s.selectedSeries ids).filter (·.id != row.id)).map (·.id) := by
    intro hm
    obtain ⟨x, hx, he⟩ := List.mem_map.mp hm
    simpa [he] using (List.mem_filter.mp hx).2
  refine ⟨_, horder, hno, ?_⟩
  rw [retiredListings, horder]
  -- the status of the target is no column of the identities
  have hr := foldlM_mergeInto_reunited (s := s.withStatus row (s.selectedSeries ids)) hk hno hfold
  have hstatus : retired row.id _ (s.withStatus row (s.selectedSeries ids)) =
      retired row.id (((s.selectedSeries ids).filter (·.id != row.id)).map (·.id)) s :=
    retired_congr rfl
  rw [hstatus] at hr
  exact ⟨hr.identities, hr.decisions⟩

end

end Collection

end MangaManager
