import Mathlib.Data.Prod.Lex
import MangaManager.Downloads.Reroute
import MangaManager.Lib.Run
import MangaManager.Lib.Sweep
import MangaManager.Lib.Upsert
import MangaManager.Series.Tables

/-!
# The cover of a series

`manga_manager/application/cover_evidence.py`: `reconcile_canonical_cover_choices` gives a series
the greatest of the covers that its provider identities have, and leaves off after a number of
changes. It runs for one series after each cover that was fetched, and for all of them from time to
time.

`best_iff`: the choice is the one of most pixels, whatever order the rows come in. `covers_settle`
bounds the series that show another cover after any run, when everything else that is written is
counted by the series it touches.
-/

namespace MangaManager

open Lib

/-- What `cover_quality_key` returns. -/
def CoverKey := Int ×ₗ Int ×ₗ Int ×ₗ Nat ×ₗ Int

-- spelled out, as for `ReleaseRank`
instance : LinearOrder CoverKey :=
  @Prod.Lex.instLinearOrder Int _ Int.instLinearOrder
    (@Prod.Lex.instLinearOrder Int _ Int.instLinearOrder
      (@Prod.Lex.instLinearOrder Int _ Int.instLinearOrder
        (@Prod.Lex.instLinearOrder Nat Int Nat.instLinearOrder Int.instLinearOrder)))

structure CoverChoice where
  seriesId : Nat
  sourceSeriesId : Nat
  source : String
  sourceUrl : String
  checksum : String
  relativePath : String
  width : Int
  height : Int
  deriving DecidableEq

def CoverChoice.pixels (choice : CoverChoice) : Int := max choice.width 0 * max choice.height 0

/-- `cover_quality_key`. -/
def CoverChoice.qualityKey (choice : CoverChoice) : CoverKey :=
  let width := max choice.width 0
  let height := max choice.height 0
  toLex (width * height, toLex (min width height, toLex (max width height,
    toLex (sourcePriority choice.source, -(choice.sourceSeriesId : Int)))))

/-- A row of `cover_asset_v2`. -/
structure CatalogCoverAsset where
  sourceSeriesId : Nat
  contentChecksum : String
  relativePath : String
  sourceUrl : String := ""
  width : Int := 0
  height : Int := 0
  deriving DecidableEq

/-- The columns of a row of `series_v2` for its cover. -/
structure CoveredSeries where
  id : Nat
  coverUrl : String := ""
  coverChecksum : String := ""
  coverRelativePath : String := ""
  updatedAt : Time := 0
  deriving DecidableEq

namespace CoveredSeries

variable (u : CoveredSeries) (choice : CoverChoice)

/-- There is nothing to change. -/
def shows : Bool :=
  u.coverChecksum == choice.checksum && u.coverRelativePath == choice.relativePath &&
    (choice.sourceUrl == "" || u.coverUrl == choice.sourceUrl)

def adopt (now : Time) : CoveredSeries :=
  { u with
    coverChecksum := choice.checksum
    coverRelativePath := choice.relativePath
    coverUrl := if choice.sourceUrl = "" then u.coverUrl else choice.sourceUrl
    updatedAt := now }

end CoveredSeries

structure CoverTables where
  series : List CoveredSeries := []
  identities : List CatalogSourceSeries := []
  assets : List CatalogCoverAsset := []
  deriving DecidableEq

namespace CoverTables

variable (t : CoverTables)

def choiceOf (identity : CatalogSourceSeries) (asset : CatalogCoverAsset) : CoverChoice where
  seriesId := identity.seriesId
  sourceSeriesId := identity.id
  source := identity.source
  sourceUrl := orText asset.sourceUrl identity.coverUrl
  checksum := asset.contentChecksum
  relativePath := asset.relativePath
  width := asset.width
  height := asset.height

/-- The rows that `ranked_cover_choices` reads for a series. -/
def coverChoices (seriesId : Nat) : List CoverChoice :=
  (t.identities.filter (·.seriesId == seriesId)).flatMap fun identity =>
    (t.assets.filter (·.sourceSeriesId == identity.id)).map (choiceOf identity)

/-- `ranked_cover_choices`. -/
def rankedCoverChoices (seriesId : Nat) : List CoverChoice :=
  (t.coverChoices seriesId).insertionSort fun a b => b.qualityKey ≤ a.qualityKey

/-- `best_cover_choices`. -/
def bestCoverChoice (seriesId : Nat) : Option CoverChoice := (t.rankedCoverChoices seriesId).head?

/-- `sorted(choices)`. -/
def coveredIds (seriesIds : List Nat) : List Nat :=
  (seriesIds.dedup.filter fun id => (t.bestCoverChoice id).isSome).insertionSort (· ≤ ·)

/-- A row that the loop changes. -/
def isStale (choices : Nat → Option CoverChoice) (rows : List CoveredSeries) (id : Nat) : Bool :=
  match Table.get CoveredSeries.id rows id, choices id with
  | some u, some choice => !u.shows choice
  | _, _ => false

def adoptRow (now : Time) (choices : Nat → Option CoverChoice) (rows : List CoveredSeries)
    (id : Nat) : List CoveredSeries :=
  match Table.get CoveredSeries.id rows id, choices id with
  | some u, some choice => Table.put CoveredSeries.id rows (u.adopt choice now)
  | _, _ => rows

/-- `reconcile_canonical_cover_choices`, with the number of changes. -/
def reconcileCoverChoices (seriesIds : Option (List Nat)) (limit : Option Nat) (now : Time) :
    CoverTables × Nat :=
  let candidates := seriesIds.getD (t.identities.map (·.seriesId))
  let swept := sweep (isStale t.bestCoverChoice) (adoptRow now t.bestCoverChoice) limit 0 t.series
    (t.coveredIds candidates)
  ({ t with series := swept.1 }, swept.2)

/-- The asset of an identity is written. -/
def storeAsset (asset : CatalogCoverAsset) : CoverTables :=
  { t with
    assets := Upsert.upsert (·.sourceSeriesId == asset.sourceSeriesId) (fun _ => asset) asset
      t.assets }

/-- The end of `_ensure_signature`: a cover that was fetched, or that is there already. -/
def ensureCover (sourceSeriesId : Nat) (fetched : Option CatalogCoverAsset) (now : Time) :
    CoverTables :=
  match Table.get CatalogSourceSeries.id t.identities sourceSeriesId with
  | none => t
  | some identity =>
    let stored := match fetched with
      | none => t
      | some asset => t.storeAsset { asset with sourceSeriesId := sourceSeriesId }
    (stored.reconcileCoverChoices (some [identity.seriesId]) none now).1

/-- The series that show another cover than the best. -/
def stale : List Nat :=
  (t.coveredIds (t.identities.map (·.seriesId))).filter (isStale t.bestCoverChoice t.series)

/-- The primary keys. -/
structure Keyed : Prop where
  series : Table.Keyed CoveredSeries.id t.series
  identities : Table.Keyed CatalogSourceSeries.id t.identities
  assets : Table.Keyed CatalogCoverAsset.sourceSeriesId t.assets

end CoverTables

/-- What is done: a cover of a provider, a sweep, and what others write to the rows of some series
(`ids`). -/
inductive CoverMove where
  | ensure (sourceSeriesId : Nat) (fetched : Option CatalogCoverAsset) (now : Time)
  | sweep (now : Time)
  | others (ids : List Nat)

/-- A step, where a sweep leaves off after `limit` changes. -/
inductive CoverStep (limit : Nat) (t : CoverTables) : CoverMove → CoverTables → Prop where
  | ensure (id : Nat) (fetched : Option CatalogCoverAsset) (now : Time) :
      CoverStep limit t (.ensure id fetched now) (t.ensureCover id fetched now)
  | sweep (now : Time) :
      CoverStep limit t (.sweep now) (t.reconcileCoverChoices none (some limit) now).1
  | others {ids : List Nat} {t' : CoverTables} (keyed : t'.Keyed)
      (choices : ∀ id ∉ ids, (t'.coverChoices id).Perm (t.coverChoices id))
      (rows : ∀ id ∉ ids, Table.get CoveredSeries.id t'.series id =
        Table.get CoveredSeries.id t.series id) :
      CoverStep limit t (.others ids) t'

/-- How many series may show another cover. -/
def owed (limit : Nat) : Nat → CoverMove → Nat
  | n, .ensure .. => n
  | n, .sweep _ => n - limit
  | n, .others ids => n + ids.length

section
variable {t t' : CoverTables} {id : Nat} {choice : CoverChoice} {u : CoveredSeries} {now : Time}
  {rows : List CoveredSeries} {choices : Nat → Option CoverChoice} {l : List Nat} {limit : Nat}

/-! ## The choice -/

/-- No two identities have covers of one rank. -/
theorem CoverTables.Keyed.choice_eq (h : t.Keyed) {a b : CoverChoice}
    (ha : a ∈ t.coverChoices id) (hb : b ∈ t.coverChoices id)
    (hkey : a.qualityKey = b.qualityKey) : a = b := by
  unfold coverChoices at ha hb
  obtain ⟨i, hi, ha⟩ := List.mem_flatMap.mp ha
  obtain ⟨x, hx, rfl⟩ := List.mem_map.mp ha
  obtain ⟨j, hj, hb⟩ := List.mem_flatMap.mp hb
  obtain ⟨y, hy, rfl⟩ := List.mem_map.mp hb
  have hid : (-(i.id : Int)) = -(j.id : Int) := congrArg (fun k : CoverKey => k.2.2.2.2) hkey
  obtain rfl : i = j :=
    h.identities.eq (List.mem_of_mem_filter hi) (List.mem_of_mem_filter hj) (by omega)
  obtain ⟨hx, hxi⟩ := List.mem_filter.mp hx
  obtain ⟨hy, hyi⟩ := List.mem_filter.mp hy
  obtain rfl : x = y :=
    h.assets.eq hx hy ((beq_iff_eq.mp hxi).trans (beq_iff_eq.mp hyi).symm)
  rfl

/-- The choice is the greatest of the covers. -/
theorem CoverTables.Keyed.best_iff (h : t.Keyed) : t.bestCoverChoice id = some choice ↔
    choice ∈ t.coverChoices id ∧ ∀ c ∈ t.coverChoices id, c.qualityKey ≤ choice.qualityKey := by
  have hgreatest : ∀ {c}, t.bestCoverChoice id = some c →
      c ∈ t.coverChoices id ∧ ∀ d ∈ t.coverChoices id, d.qualityKey ≤ c.qualityKey := by
    intro c hc
    have hsorted := (t.coverChoices id).pairwise_insertionSort
      fun a b => b.qualityKey ≤ a.qualityKey
    have hmem : ∀ d, d ∈ t.rankedCoverChoices id ↔ d ∈ t.coverChoices id :=
      fun d => List.mem_insertionSort _
    unfold bestCoverChoice at hc
    obtain ⟨l, hl⟩ := List.head?_eq_some_iff.mp hc
    refine ⟨(hmem c).mp (hl ▸ List.mem_cons_self), fun d hd => ?_⟩
    have hd := (hmem d).mpr hd
    change List.Pairwise _ (t.rankedCoverChoices id) at hsorted
    rw [hl] at hd hsorted
    rcases List.mem_cons.mp hd with rfl | hd
    · exact le_refl _
    · exact (List.pairwise_cons.mp hsorted).1 d hd
  refine ⟨hgreatest, fun ⟨hmem, hle⟩ => ?_⟩
  cases hb : t.bestCoverChoice id with
  | none =>
    have hempty := List.head?_eq_none_iff.mp hb
    have hin := (List.mem_insertionSort (r := fun a b : CoverChoice =>
      b.qualityKey ≤ a.qualityKey)).mpr hmem
    rw [show (t.coverChoices id).insertionSort _ = [] from hempty] at hin
    cases hin
  | some c =>
    obtain ⟨hc, hcle⟩ := hgreatest hb
    rw [h.choice_eq hc hmem (le_antisymm (hle c hc) (hcle choice hmem))]

/-- The order in which the rows are read does not count. -/
theorem CoverTables.Keyed.best_congr (h : t.Keyed) (h' : t'.Keyed)
    (hp : (t'.coverChoices id).Perm (t.coverChoices id)) :
    t'.bestCoverChoice id = t.bestCoverChoice id := by
  refine Option.ext fun c => ?_
  rw [h'.best_iff, h.best_iff]
  simp only [hp.mem_iff]

/-! ## The sweep -/

namespace CoverTables

theorem isStale_iff : isStale choices rows id = true ↔
    ∃ u choice, Table.get CoveredSeries.id rows id = some u ∧ choices id = some choice ∧
      u.shows choice = false := by
  unfold isStale
  split
  · rename_i u choice hu hc
    simp [hu, hc]
  · rename_i hnone
    constructor
    · intro h
      cases h
    · rintro ⟨u, choice, hu, hc, -⟩
      exact absurd hc (hnone u choice hu)

theorem isStale_congr {rows' : List CoveredSeries} {choices' : Nat → Option CoverChoice}
    (hrow : Table.get CoveredSeries.id rows' id = Table.get CoveredSeries.id rows id)
    (hchoice : choices' id = choices id) : isStale choices' rows' id = isStale choices rows id := by
  unfold isStale
  rw [hrow, hchoice]

theorem adopt_shows : (u.adopt choice now).shows choice = true := by
  by_cases h : choice.sourceUrl = "" <;> simp [CoveredSeries.shows, CoveredSeries.adopt, h]

theorem adopt_id (hu : Table.get CoveredSeries.id rows id = some u) :
    (u.adopt choice now).id = id := (rfl : _ = u.id).trans (Table.get_key hu)

theorem adoptRow_eq (hu : Table.get CoveredSeries.id rows id = some u)
    (hc : choices id = some choice) :
    adoptRow now choices rows id = Table.put CoveredSeries.id rows (u.adopt choice now) := by
  simp [adoptRow, hu, hc]

/-- What the loop leaves of `rows`: the rows outside of `l`. -/
structure Swept (rows : List CoveredSeries) (l : List Nat) (rows' : List CoveredSeries) :
    Prop where
  keyed : Table.Keyed CoveredSeries.id rows'
  others : ∀ id ∉ l, Table.get CoveredSeries.id rows' id = Table.get CoveredSeries.id rows id

theorem sweepRepairs (rows : List CoveredSeries) (choices : Nat → Option CoverChoice) (now : Time)
    (l : List Nat) : Repairs (isStale choices) (adoptRow now choices) (Swept rows l) l where
  keeps := by
    intro rows' h id hid hstale
    obtain ⟨u, choice, hu, hc, -⟩ := isStale_iff.mp hstale
    rw [adoptRow_eq hu hc]
    refine ⟨Table.keyed_put.mpr h.keyed, fun other hother => ?_⟩
    have hne : other ≠ (u.adopt choice now).id := fun he =>
      hother ((he.trans (adopt_id hu)) ▸ hid)
    rw [Table.get_put_of_ne hne]
    exact h.others other hother
  repairs := by
    intro rows' h id _ hstale
    obtain ⟨u, choice, hu, hc, -⟩ := isStale_iff.mp hstale
    have hget : Table.get CoveredSeries.id (adoptRow now choices rows' id) id =
        some (u.adopt choice now) := by
      rw [adoptRow_eq hu hc, ← Table.get_key hu]
      exact Table.get_put_self (r := u.adopt choice now) (Table.get_mem hu) rfl
    unfold isStale
    rw [hget, hc]
    simp [adopt_shows]
  leaves := by
    intro rows' h id _ hstale other _ hne
    obtain ⟨u, choice, hu, hc, -⟩ := isStale_iff.mp hstale
    have hne' : other ≠ (u.adopt choice now).id := fun he => hne (he.trans (adopt_id hu))
    exact isStale_congr (by rw [adoptRow_eq hu hc, Table.get_put_of_ne hne']) rfl

theorem coveredIds_nodup (t : CoverTables) (l : List Nat) : (t.coveredIds l).Nodup :=
  (List.perm_insertionSort _ _).nodup_iff.mpr ((List.nodup_dedup _).filter _)

theorem mem_coveredIds : id ∈ t.coveredIds l ↔ id ∈ l ∧ (t.bestCoverChoice id).isSome = true := by
  simp [coveredIds, List.mem_insertionSort]

/-- A series with a cover has an identity. -/
theorem mem_identities (h : (t.bestCoverChoice id).isSome = true) :
    id ∈ t.identities.map (·.seriesId) := by
  obtain ⟨choice, hc⟩ := Option.isSome_iff_exists.mp h
  have hmem := (List.mem_insertionSort _).mp (List.mem_of_head? hc)
  obtain ⟨i, hi, -⟩ := List.mem_flatMap.mp hmem
  obtain ⟨hi, his⟩ := List.mem_filter.mp hi
  exact List.mem_map.mpr ⟨i, hi, beq_iff_eq.mp his⟩

theorem mem_stale : id ∈ t.stale ↔ isStale t.bestCoverChoice t.series id = true := by
  unfold stale
  rw [List.mem_filter, mem_coveredIds]
  constructor
  · exact fun h => h.2
  · intro h
    obtain ⟨-, choice, -, hc, -⟩ := isStale_iff.mp h
    have hbest : (t.bestCoverChoice id).isSome = true := by rw [hc]; rfl
    exact ⟨⟨mem_identities hbest, hbest⟩, h⟩

theorem stale_nodup (t : CoverTables) : t.stale.Nodup := (t.coveredIds_nodup _).filter _

/-- A sweep does the first of the stale series. -/
theorem sweep_stale (h : t.Keyed) (hlimit : 0 < limit) (now : Time) :
    (t.reconcileCoverChoices none (some limit) now).1.Keyed ∧
      (t.reconcileCoverChoices none (some limit) now).1.stale = t.stale.drop limit := by
  have hrepairs := sweepRepairs t.series t.bestCoverChoice now
    (t.coveredIds (t.identities.map (·.seriesId)))
  obtain ⟨hswept, hleft, -⟩ :=
    hrepairs.sweep_some (t.coveredIds_nodup _) ⟨h.series, fun _ _ => rfl⟩ hlimit
  exact ⟨⟨hswept.keyed, h.identities, h.assets⟩, hleft⟩

/-- A sweep of all the series of a list leaves none of them stale, and the others as they are. -/
theorem reconcile_stale (h : t.Keyed) (l : List Nat) (now : Time) :
    (t.reconcileCoverChoices (some l) none now).1.Keyed ∧
      ∀ id ∈ (t.reconcileCoverChoices (some l) none now).1.stale, id ∉ l ∧ id ∈ t.stale := by
  have hrepairs := sweepRepairs t.series t.bestCoverChoice now (t.coveredIds l)
  obtain ⟨hswept, hright, -⟩ :=
    hrepairs.sweep_none (n := 0) (t.coveredIds_nodup _) ⟨h.series, fun _ _ => rfl⟩
  refine ⟨⟨hswept.keyed, h.identities, h.assets⟩, fun id hid => ?_⟩
  have hstale : isStale t.bestCoverChoice (sweep (isStale t.bestCoverChoice)
      (adoptRow now t.bestCoverChoice) none 0 t.series (t.coveredIds l)).1 id = true :=
    mem_stale.mp hid
  obtain ⟨-, choice, -, hc, -⟩ := isStale_iff.mp hstale
  have hnot : id ∉ t.coveredIds l := by
    intro hin
    rw [hright id hin] at hstale
    cases hstale
  have hl : id ∉ l := fun hin => hnot (mem_coveredIds.mpr ⟨hin, by rw [hc]; rfl⟩)
  exact ⟨hl, mem_stale.mpr ((isStale_congr (hswept.others id hnot).symm rfl).trans hstale)⟩

/-- A cover that is stored leaves the choices of the other series. -/
theorem storeAsset_choices (h : t.Keyed) {identity : CatalogSourceSeries}
    (asset : CatalogCoverAsset) (hi : identity ∈ t.identities)
    (hid : identity.id = asset.sourceSeriesId) : (t.storeAsset asset).Keyed ∧
      ∀ id ≠ identity.seriesId, (t.storeAsset asset).bestCoverChoice id = t.bestCoverChoice id := by
  have hkeyed : (t.storeAsset asset).Keyed := by
    refine ⟨h.series, h.identities, ?_⟩
    unfold storeAsset Upsert.upsert
    dsimp only
    split
    · refine h.assets.map fun x _ y _ he => ?_
      split at he <;> split at he <;> simp_all
    · rename_i hany
      refine Table.keyed_append.mpr ⟨h.assets, fun x hx he => hany ?_⟩
      exact List.any_eq_true.mpr ⟨x, hx, beq_iff_eq.mpr he⟩
  refine ⟨hkeyed, fun id hne => h.best_congr hkeyed (List.Perm.of_eq ?_)⟩
  unfold coverChoices
  refine List.flatMap_congr fun other hother => ?_
  obtain ⟨hother, hs⟩ := List.mem_filter.mp hother
  have hnot : other.id ≠ asset.sourceSeriesId := by
    intro he
    obtain rfl := h.identities.eq hother hi (he.trans hid.symm)
    exact hne (beq_iff_eq.mp hs).symm
  refine congrArg _ (Upsert.filter_upsert (fun x hx => ?_) (fun _ _ => ?_) ?_)
  · rw [beq_iff_eq] at hx
    simp [hx, hnot.symm]
  · simp [hnot.symm]
  · simp [hnot.symm]

/-- A cover that is fetched changes the choices of its own series only. -/
theorem ensure_stale (h : t.Keyed) (sourceSeriesId : Nat) (fetched : Option CatalogCoverAsset)
    (now : Time) : (t.ensureCover sourceSeriesId fetched now).Keyed ∧
      (t.ensureCover sourceSeriesId fetched now).stale ⊆ t.stale := by
  unfold ensureCover
  split
  · exact ⟨h, fun _ h => h⟩
  · rename_i identity hidentity
    cases fetched with
    | none =>
      obtain ⟨hkeyed, hstale⟩ := reconcile_stale h [identity.seriesId] now
      exact ⟨hkeyed, fun id hid => (hstale id hid).2⟩
    | some asset =>
      obtain ⟨hkeyed, hchoices⟩ := storeAsset_choices h
        { asset with sourceSeriesId := sourceSeriesId } (Table.get_mem hidentity)
        (Table.get_key hidentity)
      obtain ⟨hkeyed', hstale⟩ := reconcile_stale hkeyed [identity.seriesId] now
      refine ⟨hkeyed', fun id hid => ?_⟩
      obtain ⟨hne, hid⟩ := hstale id hid
      rw [List.mem_singleton] at hne
      rw [mem_stale] at hid ⊢
      rw [← hid]
      exact isStale_congr rfl (hchoices id hne).symm

end CoverTables

/-! ## Runs -/

theorem owed_mono {n m : Nat} (h : n ≤ m) (move : CoverMove) :
    owed limit n move ≤ owed limit m move := by
  cases move with
  | ensure => exact h
  | sweep => exact Nat.sub_le_sub_right h limit
  | others => exact Nat.add_le_add_right h _

theorem CoverStep.stale {move : CoverMove} (h : CoverStep limit t move t') (hk : t.Keyed)
    (hlimit : 0 < limit) : t'.Keyed ∧ t'.stale.length ≤ owed limit t.stale.length move := by
  cases h with
  | ensure =>
    obtain ⟨hkeyed, hsub⟩ := CoverTables.ensure_stale hk _ _ _
    exact ⟨hkeyed, ((CoverTables.stale_nodup _).subperm hsub).length_le⟩
  | sweep =>
    obtain ⟨hkeyed, hstale⟩ := CoverTables.sweep_stale hk hlimit _
    refine ⟨hkeyed, ?_⟩
    rw [hstale, List.length_drop]
    exact Nat.le_refl _
  | others keyed choices rows =>
    rename_i ids
    refine ⟨keyed, ?_⟩
    have hsub : t'.stale ⊆ t.stale ++ ids := by
      intro id hid
      by_cases hids : id ∈ ids
      · exact List.mem_append_right _ hids
      · refine List.mem_append_left _ (CoverTables.mem_stale.mpr ?_)
        rw [← CoverTables.mem_stale.mp hid]
        exact CoverTables.isStale_congr (rows id hids).symm
          (hk.best_congr keyed (choices id hids)).symm
    rw [owed, ← List.length_append]
    exact ((CoverTables.stale_nodup _).subperm hsub).length_le

/-- A series that is not stale shows the greatest of its covers. -/
theorem CoverTables.Keyed.shown (h : t.Keyed) (hu : u ∈ t.series) (hnot : u.id ∉ t.stale)
    (hc : choice ∈ t.coverChoices u.id) : ∃ best ∈ t.coverChoices u.id, u.shows best = true ∧
      ∀ c ∈ t.coverChoices u.id, c.pixels ≤ best.pixels := by
  cases hb : t.bestCoverChoice u.id with
  | none =>
    have hin := (List.mem_insertionSort (r := fun a b : CoverChoice =>
      b.qualityKey ≤ a.qualityKey)).mpr hc
    rw [show (t.coverChoices u.id).insertionSort _ = [] from List.head?_eq_none_iff.mp hb] at hin
    cases hin
  | some best =>
    obtain ⟨hbest, hle⟩ := h.best_iff.mp hb
    refine ⟨best, hbest, ?_, fun c hc => ?_⟩
    · by_contra hshows
      refine hnot (mem_stale.mpr (isStale_iff.mpr ⟨u, best, h.series.get_eq hu, hb, ?_⟩))
      simpa using hshows
    · rcases (Prod.Lex.le_iff (x := c.qualityKey) (y := best.qualityKey)).mp (hle c hc) with
        hlt | ⟨heq, -⟩
      · exact le_of_lt hlt
      · exact le_of_eq heq

/-- Over any run no more series show another cover than are owed, and all others show one of most
pixels. -/
theorem covers_settle {start : CoverTables} {tr : List (CoverTables × CoverMove)}
    (h : Run (CoverStep limit) start tr t) (hk : start.Keyed) (hlimit : 0 < limit) :
    t.stale.length ≤ (tr.map (·.2)).foldl (owed limit) start.stale.length ∧
      (∀ u ∈ t.series, u.id ∉ t.stale → ∀ c ∈ t.coverChoices u.id, ∃ best ∈ t.coverChoices u.id,
        u.shows best = true ∧ ∀ c ∈ t.coverChoices u.id, c.pixels ≤ best.pixels) ∧
      ∀ limit' now, t.stale = [] → t.reconcileCoverChoices none limit' now = (t, 0) := by
  have hrun : t.Keyed ∧
      t.stale.length ≤ (tr.map (·.2)).foldl (owed limit) start.stale.length := by
    induction h with
    | nil => exact ⟨hk, Nat.le_refl _⟩
    | snoc _ hstep ih =>
      obtain ⟨hkeyed, hle⟩ := ih
      obtain ⟨hkeyed', hle'⟩ := hstep.stale hkeyed hlimit
      refine ⟨hkeyed', hle'.trans ?_⟩
      rw [List.map_append, List.map_singleton, List.foldl_append, List.foldl_cons, List.foldl_nil]
      exact owed_mono hle _
  refine ⟨hrun.2, fun u hu hnot c hc => hrun.1.shown hu hnot hc, fun limit' now hnone => ?_⟩
  have hright : sweep (CoverTables.isStale t.bestCoverChoice)
      (CoverTables.adoptRow now t.bestCoverChoice) limit' 0 t.series
      (t.coveredIds (t.identities.map (·.seriesId))) = (t.series, 0) :=
    sweep_right fun id hid => by simpa using List.filter_eq_nil_iff.mp hnone id hid
  unfold CoverTables.reconcileCoverChoices
  dsimp only
  rw [Option.getD_none, hright]

end

/-- Two series that show no cover yet. -/
def twoCovered : CoverTables where
  series := [{ id := 1 }, { id := 2 }]
  identities :=
    [{ id := 11, seriesId := 1, source := "mangadex", sourceId := "a", title := "", url := "" },
      { id := 12, seriesId := 1, source := "asura", sourceId := "a", title := "", url := "" },
      { id := 21, seriesId := 2, source := "asura", sourceId := "b", title := "", url := "" }]
  assets := [⟨12, "small", "small.jpg", "", 10, 20⟩, ⟨21, "other", "other.jpg", "", 10, 20⟩]

theorem twoCovered_settle : ∃ tr t, Run (CoverStep 1) twoCovered tr t ∧
    t.series.map (·.coverChecksum) = ["large", "other"] ∧
    t.stale.length ≤ (tr.map (·.2)).foldl (owed 1) twoCovered.stale.length ∧
      (∀ u ∈ t.series, u.id ∉ t.stale → ∀ c ∈ t.coverChoices u.id, ∃ best ∈ t.coverChoices u.id,
        u.shows best = true ∧ ∀ c ∈ t.coverChoices u.id, c.pixels ≤ best.pixels) ∧
      ∀ limit' now, t.stale = [] → t.reconcileCoverChoices none limit' now = (t, 0) := by
  -- a sweep of one change, a greater cover, and a sweep again
  have hswept := (@Run.nil _ _ (CoverStep 1) twoCovered).snoc (.sweep 1)
  have hfetched := hswept.snoc
    (.ensure 11 (some ⟨0, "large", "large.jpg", "url", 100, 200⟩) 2)
  have hrun := hfetched.snoc (.sweep 3)
  exact ⟨_, _, hrun, by decide +kernel, covers_settle hrun ⟨by decide, by decide, by decide⟩
    (by decide)⟩

end MangaManager
