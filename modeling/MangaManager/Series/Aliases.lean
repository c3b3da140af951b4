import MangaManager.Lib.Run
import MangaManager.Series.Ingest

/-!
# The aliases of a series

An alias row belongs to the identity that reported its value first, and a value that
this identity no longer reports is deleted, whether or not another identity of the
series still reports it. `Fed` remembers what each identity reported last:
`aliases_union_iff` says when the aliases of every series are the union of that.
-/

namespace MangaManager

open Lib

/-- The tables, and the aliases in the last ingest of each identity. -/
structure Fed where
  shelf : Shelf := {}
  reported : Nat → List String := fun _ => []

/-- A call that raises is rolled back. -/
def Fed.call (t : CatalogText) (x : Fed) (call : IngestCall) : Fed :=
  match x.shelf.ingest t call with
  | .ok (shelf, id) => ⟨shelf, Function.update x.reported id call.item.aliases⟩
  | .error _ => x

def Feeds (t : CatalogText) (x : Fed) (call : IngestCall) (y : Fed) : Prop := y = x.call t call

namespace Shelf

variable {t : CatalogText} {s s' : Shelf} {call : IngestCall} {id seriesId identityId : Nat}
  {values : List String} {i : CatalogSourceSeries} {v : String}

/-! ## One call -/

theorem addSeries_same (item : SeriesItem) (key : String) :
    (s.addSeries t item key).1.identities = s.identities ∧
      (s.addSeries t item key).1.nextIdentity = s.nextIdentity ∧
      (s.addSeries t item key).1.aliases = s.aliases ∧
      (s.addSeries t item key).1.nextAlias = s.nextAlias := by
  unfold addSeries
  split <;> exact ⟨rfl, rfl, rfl, rfl⟩

/-- The identity is one of those there are, or the new one. -/
theorem target_cases (t : CatalogText) (s : Shelf) (call : IngestCall) :
    (s.target t call).1.aliases = s.aliases ∧
    (s.target t call).1.nextAlias = s.nextAlias ∧
    (((s.target t call).1.identities = s.identities ∧
      (s.target t call).1.nextIdentity = s.nextIdentity ∧
        (s.target t call).2.1 ∈ s.identities) ∨
      ((s.target t call).1.identities = s.identities ++ [(s.target t call).2.1] ∧
        (s.target t call).1.nextIdentity = s.nextIdentity + 1 ∧
        (s.target t call).2.1.id = s.nextIdentity)) := by
  unfold target
  split
  · rename_i i hi
    refine ⟨rfl, rfl, .inl ⟨rfl, rfl, ?_⟩⟩
    unfold locate at hi
    split at hi
    · rename_i j hj
      cases hi
      exact List.mem_of_find?_eq_some hj
    · split at hi
      · split at hi <;> cases hi
      · split at hi <;> cases hi
  · rename_i i a hi
    refine ⟨rfl, rfl, .inl ⟨rfl, rfl, ?_⟩⟩
    unfold locate at hi
    split at hi
    · cases hi
    · split at hi
      · split at hi
        · rename_i j hj
          cases hi
          exact Table.get_mem hj
        · cases hi
      · split at hi <;> cases hi
  · rename_i i e hi
    refine ⟨rfl, rfl, .inl ⟨rfl, rfl, ?_⟩⟩
    unfold locate at hi
    split at hi
    · cases hi
    · split at hi
      · split at hi <;> cases hi
      · split at hi
        · rename_i j e' hj
          cases hi
          unfold equivalentIdentity at hj
          dsimp only at hj
          split at hj
          · cases hj
          · obtain ⟨c, hc, he⟩ := List.mem_filterMap.mp (List.argmax_mem hj)
            obtain ⟨e'', -, he⟩ := Option.map_eq_some_iff.mp he
            cases he
            exact (List.mem_filter.mp ((List.perm_insertionSort _ _).mem_iff.mp hc)).1
        · cases hi
  · obtain ⟨h₁, h₂, h₃, h₄⟩ := addSeries_same (t := t) (s := s) call.item call.storageKey
    refine ⟨h₃, h₄, .inr ⟨?_, ?_, h₂⟩⟩
    · exact congrArg (· ++ [_]) h₁
    · exact congrArg (· + 1) h₂

/-- What a call does to the identities and the aliases. -/
theorem ingest_aliases (h : s.ingest t call = .ok (s', id)) :
    id = (s.target t call).2.1.id ∧
      s'.aliases = (s.syncAliases t (s.target t call).2.1.seriesId id call.item.aliases).aliases ∧
      s'.nextAlias = (s.syncAliases t (s.target t call).2.1.seriesId id call.item.aliases).nextAlias ∧
      s'.nextIdentity = (s.target t call).1.nextIdentity ∧
      s'.identities = Table.put CatalogSourceSeries.id (s.target t call).1.identities
        (observed t (s.target t call).2.1 call.item (s.target t call).2.2.isSome) := by
  have hsame := target_cases t s call
  unfold ingest at h
  rcases ht : s.target t call with ⟨s₁, i, listing⟩
  rw [ht] at h hsame
  dsimp only at h hsame
  split at h
  · cases h
  split at h
  · cases h
  cases h
  have hrecompute : ∀ (c : Collection) (u : Nat), (c.recomputeLatest u).aliases = c.aliases ∧
      (c.recomputeLatest u).identities = c.identities := by
    intro c u
    unfold Collection.recomputeLatest
    split <;> exact ⟨rfl, rfl⟩
  refine ⟨rfl, ?_, ?_, rfl, (hrecompute _ _).2⟩
  · refine (hrecompute _ _).1.trans ?_
    show ((s₁.describe t call i listing).syncAliases t i.seriesId i.id call.item.aliases).aliases = _
    simp only [syncAliases, keptAliases, describe, hsame.1, hsame.2.1]
  · show ((s₁.describe t call i listing).syncAliases t i.seriesId i.id
      call.item.aliases).nextAlias = _
    simp only [syncAliases, keptAliases, describe, hsame.1, hsame.2.1]

/-- The normalized values with their first spelling, without those seen before. -/
theorem firstValues_map (seen values : List String) :
    ((firstValues t seen values).map Prod.fst).Nodup ∧
      ∀ v, v ∈ (firstValues t seen values).map Prod.fst ↔
        v ∈ normalizedAliases t values ∧ v ∉ seen := by
  induction values generalizing seen with
  | nil => exact ⟨List.nodup_nil, by simp [firstValues, normalizedAliases]⟩
  | cons value values ih =>
    have hcons : ∀ v, v ∈ normalizedAliases t (value :: values) ↔
        (v = t.normalizeTitle value ∧ v ≠ "") ∨ v ∈ normalizedAliases t values := by
      intro v
      simp only [normalizedAliases, List.map_cons, List.mem_filter, List.mem_cons,
        decide_eq_true_eq, or_and_right]
    simp only [firstValues, hcons]
    generalize t.normalizeTitle value = n
    split
    · rename_i hseen
      obtain ⟨hnd, hmem⟩ := ih seen
      refine ⟨hnd, fun v => (hmem v).trans ⟨fun h => ⟨.inr h.1, h.2⟩, ?_⟩⟩
      rintro ⟨⟨rfl, hne⟩ | hv, hs⟩
      · exact absurd hseen (not_or.mpr ⟨hne, hs⟩)
      · exact ⟨hv, hs⟩
    · rename_i hseen
      obtain ⟨hne, hs⟩ := not_or.mp hseen
      obtain ⟨hnd, hmem⟩ := ih (n :: seen)
      refine ⟨?_, fun v => ?_⟩
      · rw [List.map_cons, List.nodup_cons]
        exact ⟨fun hv => ((hmem _).mp hv).2 List.mem_cons_self, hnd⟩
      · rw [List.map_cons, List.mem_cons, hmem, List.mem_cons]
        constructor
        · rintro (rfl | ⟨hv, hs'⟩)
          · exact ⟨.inl ⟨rfl, hne⟩, hs⟩
          · exact ⟨.inr hv, fun h => hs' (.inr h)⟩
        · rintro ⟨⟨rfl, -⟩ | hv, hs'⟩
          · exact .inl rfl
          · by_cases he : v = n
            · exact .inl he
            · exact .inr ⟨hv, fun h => h.elim he hs'⟩

/-- The values that get a row. -/
def missingAliases (t : CatalogText) (s : Shelf) (seriesId identityId : Nat)
    (values : List String) : List (String × String) :=
  (firstValues t [] values).filter fun (normalized, _) =>
    !(s.keptAliases t identityId values).any fun a =>
      a.seriesId == seriesId && a.normalizedValue == normalized

theorem mem_syncAliases {a : CatalogSeriesAlias} :
    a ∈ (s.syncAliases t seriesId identityId values).aliases ↔
      a ∈ s.keptAliases t identityId values ∨
        ∃ e n, (e, n) ∈ (s.missingAliases t seriesId identityId values).zipIdx ∧
          { id := s.nextAlias + n, seriesId := seriesId, sourceSeriesId := some identityId
            normalizedValue := e.1, displayValue := e.2 } = a := by
  refine List.mem_append.trans (or_congr_right ?_)
  rw [List.mem_map, Prod.exists]
  rfl

theorem mem_missingAliases : (∃ e ∈ s.missingAliases t seriesId identityId values, e.1 = v) ↔
    v ∈ normalizedAliases t values ∧ ∀ a ∈ s.keptAliases t identityId values,
      a.seriesId = seriesId → a.normalizedValue ≠ v := by
  have hmem := (firstValues_map (t := t) [] values).2 v
  simp only [List.mem_map, List.not_mem_nil, not_false_eq_true, and_true] at hmem
  simp only [missingAliases, List.mem_filter, Bool.not_eq_true', List.any_eq_false,
    Bool.and_eq_true, beq_iff_eq, not_and]
  rw [← hmem]
  constructor
  · rintro ⟨e, ⟨he, hno⟩, rfl⟩
    exact ⟨⟨e, he, rfl⟩, hno⟩
  · rintro ⟨⟨e, he, rfl⟩, hno⟩
    exact ⟨e, ⟨he, hno⟩, rfl⟩

theorem mem_keptAliases {a : CatalogSeriesAlias} :
    a ∈ s.keptAliases t identityId values ↔ a ∈ s.aliases ∧
      (a.sourceSeriesId = some identityId → a.normalizedValue ∈ normalizedAliases t values ∧
        t.lower a.displayValue ∉ boilerplate) := by
  simp only [keptAliases, List.mem_filter, Bool.or_eq_true, bne_iff_ne, Bool.and_eq_true,
    decide_eq_true_eq, ne_eq, or_iff_not_imp_left, not_not]

/-- The rows that are added. -/
def addedAliases (seriesId identityId next : Nat) (missing : List (String × String)) :
    List CatalogSeriesAlias :=
  missing.zipIdx.map fun e => ⟨next + e.2, seriesId, some identityId, e.1.1, e.1.2⟩

theorem syncAliases_eq (t : CatalogText) (s : Shelf) (seriesId identityId : Nat)
    (values : List String) : (s.syncAliases t seriesId identityId values).aliases =
      s.keptAliases t identityId values ++ addedAliases seriesId identityId s.nextAlias
        (s.missingAliases t seriesId identityId values) := rfl

/-- What the added rows hold besides their ids. -/
theorem map_addedAliases {α : Type} (f : CatalogSeriesAlias → α) (g : String × String → α)
    (hf : ∀ (n : Nat) (e : String × String), f ⟨n, seriesId, some identityId, e.1, e.2⟩ = g e)
    (next : Nat) (missing : List (String × String)) :
    (addedAliases seriesId identityId next missing).map f = missing.map g := by
  unfold addedAliases
  rw [List.map_map]
  calc missing.zipIdx.map _ = missing.zipIdx.map (g ∘ Prod.fst) :=
        List.map_congr_left fun e _ => hf (next + e.2) e.1
    _ = (missing.zipIdx.map Prod.fst).map g := (List.map_map ..).symm
    _ = missing.map g := by rw [List.zipIdx_map_fst]

/-- A series has a value once. -/
theorem syncAliases_unique
    (h : (s.aliases.map fun a => (a.seriesId, a.normalizedValue)).Nodup) :
    ((s.syncAliases t seriesId identityId values).aliases.map fun a =>
      (a.seriesId, a.normalizedValue)).Nodup := by
  have hfirst := (firstValues_map (t := t) [] values).1
  rw [syncAliases_eq, List.map_append, map_addedAliases _ (fun e => (seriesId, e.1)) (fun _ _ => rfl),
    List.nodup_append]
  refine ⟨h.sublist (List.filter_sublist.map _), ?_, ?_⟩
  · refine List.Nodup.map_on (fun e he e' he' heq => ?_)
      (List.Nodup.filter _ (List.Nodup.of_map _ hfirst))
    exact List.inj_on_of_nodup_map hfirst (List.mem_filter.mp he).1 (List.mem_filter.mp he').1
      (Prod.mk.inj heq).2
  · intro p hp q hq heq
    obtain ⟨a, ha, rfl⟩ := List.mem_map.mp hp
    obtain ⟨e, he, rfl⟩ := List.mem_map.mp hq
    obtain ⟨hu, hv⟩ := Prod.mk.inj heq
    exact (mem_missingAliases.mp ⟨e, he, rfl⟩).2 a ha hu hv

/-- The values of a series after `_sync_aliases`, when the rows of the identity are all there. -/
theorem syncAliases_values {u : Nat} (hown : ∀ a ∈ s.aliases,
    a.sourceSeriesId = some identityId → a.seriesId = seriesId) :
    (∃ a ∈ (s.syncAliases t seriesId identityId values).aliases,
      a.seriesId = u ∧ a.normalizedValue = v) ↔
    (u = seriesId ∧ v ∈ normalizedAliases t values) ∨ ∃ a ∈ s.aliases,
      a.seriesId = u ∧ a.normalizedValue = v ∧ a.sourceSeriesId ≠ some identityId := by
  constructor
  · rintro ⟨a, ha, rfl, rfl⟩
    rcases mem_syncAliases.mp ha with ha | ⟨e, n, he, rfl⟩
    · obtain ⟨ha, hkept⟩ := mem_keptAliases.mp ha
      by_cases ho : a.sourceSeriesId = some identityId
      · exact .inl ⟨hown a ha ho, (hkept ho).1⟩
      · exact .inr ⟨a, ha, rfl, rfl, ho⟩
    · exact .inl ⟨rfl, (mem_missingAliases.mp ⟨e, List.fst_mem_of_mem_zipIdx he, rfl⟩).1⟩
  · rintro (⟨rfl, hv⟩ | ⟨a, ha, rfl, rfl, ho⟩)
    · by_cases hkept : ∃ a ∈ s.keptAliases t identityId values, a.seriesId = u ∧
        a.normalizedValue = v
      · obtain ⟨a, ha, hav⟩ := hkept
        exact ⟨a, mem_syncAliases.mpr (.inl ha), hav⟩
      · obtain ⟨e, he, rfl⟩ := mem_missingAliases.mpr
          ⟨hv, fun a ha hu hn => hkept ⟨a, ha, hu, hn⟩⟩
        rw [← List.zipIdx_map_fst 0 (s.missingAliases t u identityId values)] at he
        obtain ⟨⟨e, n⟩, hn, rfl⟩ := List.mem_map.mp he
        exact ⟨_, mem_syncAliases.mpr (.inr ⟨e, n, hn, rfl⟩), rfl, rfl⟩
    · exact ⟨a, mem_syncAliases.mpr (.inl (mem_keptAliases.mpr
        ⟨ha, fun h => absurd h ho⟩)), rfl, rfl⟩

/-- An identity of the series. -/
def HasIdentity (s : Shelf) (id seriesId : Nat) : Prop :=
  ∃ i ∈ s.identities, i.id = id ∧ i.seriesId = seriesId

/-- Identities stay, and the one of the call is among them. -/
theorem ingest_hasIdentity (h : s.ingest t call = .ok (s', id))
    (hk : Table.Keyed CatalogSourceSeries.id s.identities)
    (hf : ∀ i ∈ s.identities, i.id < s.nextIdentity) :
    (∀ j u, s'.HasIdentity j u ↔
      s.HasIdentity j u ∨ (j = id ∧ u = (s.target t call).2.1.seriesId)) ∧
    (∀ u, s.HasIdentity id u → u = (s.target t call).2.1.seriesId) ∧
    Table.Keyed CatalogSourceSeries.id s'.identities ∧
    ∀ i ∈ s'.identities, i.id < s'.nextIdentity := by
  obtain ⟨rfl, -, -, hnext, hids⟩ := ingest_aliases h
  obtain ⟨-, -, hcases⟩ := target_cases t s call
  generalize (s.target t call).2.1 = i at hids hcases ⊢
  generalize (s.target t call).1 = s₁ at hids hcases hnext
  obtain ⟨o, ho, hoid, hoser⟩ : ∃ o, s'.identities = Table.put CatalogSourceSeries.id s₁.identities o ∧
      o.id = i.id ∧ o.seriesId = i.seriesId := by
    refine ⟨_, hids, ?_, ?_⟩ <;> (unfold observed; split <;> rfl)
  have hmem : i ∈ s₁.identities := by
    rcases hcases with ⟨he, -, hi⟩ | ⟨he, -, -⟩
    · rwa [he]
    · rw [he]
      exact List.mem_append_right _ (List.mem_singleton_self i)
  have hk₁ : Table.Keyed CatalogSourceSeries.id s₁.identities := by
    rcases hcases with ⟨he, -, -⟩ | ⟨he, -, hi⟩
    · rwa [he]
    · rw [he, Table.keyed_append]
      exact ⟨hk, fun x hx hid => absurd (hf x hx) (by omega)⟩
  -- the row that is put is the one of the target
  have hput : ∀ j u, s'.HasIdentity j u ↔ ∃ k ∈ s₁.identities, k.id = j ∧ k.seriesId = u := by
    intro j u
    unfold HasIdentity
    rw [ho]
    constructor
    · rintro ⟨k, hkm, rfl, rfl⟩
      rcases Table.mem_put.mp hkm with ⟨rfl, -⟩ | ⟨hkm, -⟩
      · exact ⟨i, hmem, hoid.symm, hoser.symm⟩
      · exact ⟨k, hkm, rfl, rfl⟩
    · rintro ⟨k, hkm, rfl, rfl⟩
      by_cases he : k.id = o.id
      · obtain rfl := hk₁.eq hkm hmem (he.trans hoid)
        exact ⟨o, Table.mem_put_self hmem hoid.symm, hoid, hoser⟩
      · exact ⟨k, Table.mem_put_of_ne hkm he, rfl, rfl⟩
  refine ⟨fun j u => (hput j u).trans ?_, ?_, ?_, ?_⟩
  · rcases hcases with ⟨he, -, hi⟩ | ⟨he, -, -⟩
    · rw [he]
      exact ⟨.inl, fun h => h.elim (fun h => h) fun ⟨hj, hu⟩ => ⟨i, hi, hj.symm, hu.symm⟩⟩
    · rw [he]
      simp only [List.mem_append, List.mem_singleton, or_and_right, exists_or, exists_eq_left]
      exact or_congr_right ⟨fun ⟨hj, hu⟩ => ⟨hj.symm, hu.symm⟩, fun ⟨hj, hu⟩ => ⟨hj.symm, hu.symm⟩⟩
  · rintro u ⟨k, hkm, hid, rfl⟩
    rcases hcases with ⟨-, -, hi⟩ | ⟨-, -, hi⟩
    · rw [hk.eq hkm hi hid]
    · exact absurd (hf k hkm) (by omega)
  · rw [ho, Table.keyed_put]
    exact hk₁
  · rw [ho, hnext]
    intro k hkm
    have hlt : ∀ k ∈ s₁.identities, k.id < s₁.nextIdentity := by
      intro k hkm
      rcases hcases with ⟨he, hn, -⟩ | ⟨he, hn, hi⟩
      · rw [hn]
        exact hf k (he ▸ hkm)
      · rw [he] at hkm
        rcases List.mem_append.mp hkm with hkm | hkm
        · have := hf k hkm
          omega
        · obtain rfl := List.mem_singleton.mp hkm
          omega
    rcases Table.mem_put.mp hkm with ⟨rfl, -⟩ | ⟨hkm, -⟩
    · have := hlt i hmem
      omega
    · exact hlt k hkm

end Shelf

/-! ## What the providers say -/

section
variable (t : CatalogText)

/-- The values of the aliases of a series. -/
def Shelf.aliasValues (s : Shelf) (seriesId : Nat) : Set String :=
  {v | ∃ a ∈ s.aliases, a.seriesId = seriesId ∧ a.normalizedValue = v}

namespace Fed

variable (x : Fed)

/-- What the last ingests of the identities of a series reported, without boilerplate. -/
def reportedValues (seriesId : Nat) : Set String :=
  {v | v ∉ Shelf.boilerplate ∧ ∃ id, x.shelf.HasIdentity id seriesId ∧
    v ∈ Shelf.normalizedAliases t (x.reported id)}

/-- The aliases of every series are the union of what its identities report. -/
def AliasesUnion : Prop := ∀ seriesId, x.shelf.aliasValues seriesId = x.reportedValues t seriesId

/-- Alias rows belong to an identity of their series that reports the value. -/
structure Owned : Prop where
  identities : Table.Keyed CatalogSourceSeries.id x.shelf.identities
  fresh : ∀ i ∈ x.shelf.identities, i.id < x.shelf.nextIdentity
  unique : (x.shelf.aliases.map fun a => (a.seriesId, a.normalizedValue)).Nodup
  owner : ∀ a ∈ x.shelf.aliases, ∃ id, a.sourceSeriesId = some id ∧
    x.shelf.HasIdentity id a.seriesId ∧ a.normalizedValue ∈ Shelf.normalizedAliases t (x.reported id)

/-- A call that returns reports no boilerplate, and what its identity owns and no longer reports, no
other identity of the series does. -/
def ReportsApart (call : IngestCall) : Prop := (x.shelf.ingest t call).isOk = true →
  let i := (x.shelf.target t call).2.1
  let values := Shelf.normalizedAliases t call.item.aliases
  (∀ v ∈ values, v ∉ Shelf.boilerplate) ∧
  ∀ a ∈ x.shelf.aliases, a.sourceSeriesId = some i.id → a.normalizedValue ∉ values →
    ∀ j ∈ x.shelf.identities, j.seriesId = i.seriesId → j.id ≠ i.id →
      a.normalizedValue ∉ Shelf.normalizedAliases t (x.reported j.id)

instance (x : Fed) (call : IngestCall) : Decidable (x.ReportsApart t call) := by
  unfold ReportsApart
  infer_instance

end Fed

variable {t} {x y : Fed} {call : IngestCall}

open MangaManager.Shelf

theorem Fed.Owned.step (h : x.Owned t) (call : IngestCall) : (x.call t call).Owned t := by
  unfold Fed.call
  split
  · rename_i s' id hs
    obtain ⟨hhas, hsingle, hk, hf⟩ := ingest_hasIdentity hs h.identities h.fresh
    obtain ⟨-, hal, -, -, -⟩ := ingest_aliases hs
    generalize (x.shelf.target t call).2.1.seriesId = u at hhas hsingle hal
    refine ⟨hk, hf, ?_, fun a ha => ?_⟩
    · show (s'.aliases.map _).Nodup
      rw [hal]
      exact syncAliases_unique h.unique
    · show ∃ id', a.sourceSeriesId = some id' ∧ s'.HasIdentity id' a.seriesId ∧
        a.normalizedValue ∈ normalizedAliases t (Function.update x.reported id call.item.aliases id')
      rw [hal] at ha
      rcases mem_syncAliases.mp ha with ha | ⟨e, n, he, rfl⟩
      · obtain ⟨ha, hkept⟩ := mem_keptAliases.mp ha
        obtain ⟨j, ho, hj, hv⟩ := h.owner a ha
        refine ⟨j, ho, (hhas j _).mpr (.inl hj), ?_⟩
        by_cases hji : j = id
        · subst hji
          rw [Function.update_self]
          exact (hkept ho).1
        · rw [Function.update_of_ne hji]
          exact hv
      · refine ⟨id, rfl, (hhas id u).mpr (.inr ⟨rfl, rfl⟩), ?_⟩
        rw [Function.update_self]
        exact (mem_missingAliases.mp ⟨e, List.fst_mem_of_mem_zipIdx he, rfl⟩).1
  · exact h

/-- A call keeps the union exactly when it reports apart from the others. -/
theorem aliasesUnion_call_iff (h : x.Owned t) (hu : x.AliasesUnion t) :
    (x.call t call).AliasesUnion t ↔ x.ReportsApart t call := by
  unfold Fed.call Fed.ReportsApart
  split
  · rename_i s' id hs
    obtain ⟨hhas, hsingle, -, -⟩ := ingest_hasIdentity hs h.identities h.fresh
    obtain ⟨hid, hal, -, -, -⟩ := ingest_aliases hs
    dsimp only
    rw [← hid, hs]
    simp only [Except.isOk, Except.toBool, forall_const]
    generalize (x.shelf.target t call).2.1.seriesId = u at hhas hsingle hal ⊢
    have hown : ∀ a ∈ x.shelf.aliases, a.sourceSeriesId = some id → a.seriesId = u := by
      intro a ha ho
      obtain ⟨j, ho', hj, -⟩ := h.owner a ha
      obtain rfl := Option.some.inj (ho'.symm.trans ho)
      exact hsingle _ hj
    -- both sides of the series of the call, before and after it
    have hvals : ∀ w v, v ∈ s'.aliasValues w ↔ (w = u ∧ v ∈ normalizedAliases t call.item.aliases) ∨
        ∃ a ∈ x.shelf.aliases, a.seriesId = w ∧ a.normalizedValue = v ∧ a.sourceSeriesId ≠ some id := by
      intro w v
      show (∃ a ∈ s'.aliases, _) ↔ _
      rw [hal]
      exact syncAliases_values hown
    have hrep : ∀ w v, v ∈ Fed.reportedValues t
        ⟨s', Function.update x.reported id call.item.aliases⟩ w ↔ v ∉ boilerplate ∧
          ((w = u ∧ v ∈ normalizedAliases t call.item.aliases) ∨
            ∃ j, j ≠ id ∧ x.shelf.HasIdentity j w ∧ v ∈ normalizedAliases t (x.reported j)) := by
      intro w v
      show (v ∉ boilerplate ∧ ∃ j, s'.HasIdentity j w ∧
        v ∈ normalizedAliases t (Function.update x.reported id call.item.aliases j)) ↔ _
      refine and_congr_right fun _ => ?_
      constructor
      · rintro ⟨j, hj, hv⟩
        by_cases hji : j = id
        · subst hji
          rw [Function.update_self] at hv
          refine .inl ⟨?_, hv⟩
          exact ((hhas j w).mp hj).elim (hsingle w) And.right
        · rw [Function.update_of_ne hji] at hv
          exact .inr ⟨j, hji, ((hhas j w).mp hj).resolve_right fun hj => hji hj.1, hv⟩
      · rintro (⟨rfl, hv⟩ | ⟨j, hji, hj, hv⟩)
        · exact ⟨id, (hhas id w).mpr (.inr ⟨rfl, rfl⟩), by rwa [Function.update_self]⟩
        · exact ⟨j, (hhas j w).mpr (.inl hj), by rwa [Function.update_of_ne hji]⟩
    have hbefore : ∀ w v, (∃ a ∈ x.shelf.aliases, a.seriesId = w ∧ a.normalizedValue = v) ↔
        v ∉ boilerplate ∧ ∃ j, x.shelf.HasIdentity j w ∧ v ∈ normalizedAliases t (x.reported j) :=
      fun w v => Set.ext_iff.mp (hu w) v
    constructor
    · intro hafter
      have hiff : ∀ w v, _ ↔ _ := fun w v =>
        ((hvals w v).symm.trans (Set.ext_iff.mp (hafter w) v)).trans (hrep w v)
      refine ⟨fun v hv => ((hiff u v).mp (.inl ⟨rfl, hv⟩)).1, fun a ha ho hno j hj hju hji hv => ?_⟩
      have hau := hown a ha ho
      have hb := ((hbefore u _).mp ⟨a, ha, hau, rfl⟩).1
      rcases (hiff u _).mpr ⟨hb, .inr ⟨j.id, hji, ⟨j, hj, rfl, hju⟩, hv⟩⟩ with ⟨-, hv⟩ | ⟨b, hb, hbu, hbv, hbo⟩
      · exact hno hv
      · have hab := List.inj_on_of_nodup_map h.unique ha hb
          (Prod.ext (hau.trans hbu.symm) hbv.symm)
        exact hbo (hab ▸ ho)
    · rintro ⟨hboiler, hdropped⟩ w
      ext v
      rw [hvals, hrep]
      constructor
      · rintro (⟨rfl, hv⟩ | ⟨a, ha, rfl, rfl, ho⟩)
        · exact ⟨hboiler v hv, .inl ⟨rfl, hv⟩⟩
        · obtain ⟨j, ho', hj, hv⟩ := h.owner a ha
          refine ⟨((hbefore _ _).mp ⟨a, ha, rfl, rfl⟩).1, .inr ⟨j, ?_, hj, hv⟩⟩
          rintro rfl
          exact ho ho'
      · rintro ⟨hb, ⟨rfl, hv⟩ | ⟨j, hji, hj, hv⟩⟩
        · exact .inl ⟨rfl, hv⟩
        · obtain ⟨a, ha, rfl, rfl⟩ := (hbefore w v).mpr ⟨hb, j, hj, hv⟩
          by_cases ho : a.sourceSeriesId = some id
          · have hau := hown a ha ho
            by_cases hv' : a.normalizedValue ∈ normalizedAliases t call.item.aliases
            · exact .inl ⟨hau, hv'⟩
            · obtain ⟨k, hk, rfl, hku⟩ := hj
              exact absurd hv (hdropped a ha ho hv' k hk (hku.trans hau) hji)
          · exact .inr ⟨a, ha, rfl, rfl, ho⟩
  · rename_i e he
    rw [he]
    exact ⟨fun _ hok => (by cases hok), fun _ => hu⟩

end

/-- A provider's listing of one title, which all providers give the same external id. -/
def aliasReport (source : String) (aliases : List String) : IngestCall :=
  { item := { source := source, sourceId := source, title := "One", url := "https://one.example"
              aliases := aliases, externalIds := [("mal", "1")] } }

/-- Both providers report an alias, and then the first one drops it. -/
def droppedAlias : List IngestCall :=
  [aliasReport "asura" ["Uno"], aliasReport "mangadex" ["Uno"], aliasReport "asura" []]

end MangaManager
