import MangaManager.Lib.Upsert
import MangaManager.Series.Aliases

/-!
# The rows an ingest finds or creates

`_sync_aliases`, `_sync_external_ids` and `_upsert_chapters` look a row up under the
columns of a unique constraint and change it or add it. `Constrained` is what the database
holds the tables to: the primary keys that a call writes by, and those constraints.
Each of the three keeps it, and the last two do nothing when they run again.
-/

namespace MangaManager

open Lib

/-- The primary keys of the rows that are written back, and the unique constraints of the rows that
are found or created. -/
structure Shelf.Constrained (s : Shelf) : Prop where
  identities : Table.Keyed CatalogSourceSeries.id s.identities
  newIdentity : ∀ i ∈ s.identities, i.id < s.nextIdentity
  alternates : Table.Keyed CatalogAlternateSourceListing.id s.alternates
  newAlternate : ∀ a ∈ s.alternates, a.id < s.nextAlternate
  identifiers : Table.Keyed CatalogExternalIdentifier.id s.identifiers
  newIdentifier : ∀ x ∈ s.identifiers, x.id < s.nextIdentifier
  aliasValue : (s.aliases.map fun a => (a.seriesId, a.normalizedValue)).Nodup
  providerValue : (s.identifiers.map fun x => (x.provider, x.value)).Nodup
  identityProvider : (s.identifiers.map fun x => (x.sourceSeriesId, x.provider)).Nodup
  seriesNumber : (s.chapters.map fun c => (c.seriesId, c.canonicalNumber)).Nodup
  identityRelease : (s.releases.map fun r => (r.sourceSeriesId, r.sourceReleaseId)).Nodup

namespace Shelf

variable {t : CatalogText} {s s' : Shelf} {seriesId identityId : Nat} {values : List String}

theorem orText_self (a : String) : orText a a = a := ite_self a

theorem orText_twice (a b : String) : orText (orText a b) b = orText a b := by
  unfold orText
  by_cases ha : a = ""
  · rw [if_pos ha]
    exact ite_self b
  · rw [if_neg ha, if_neg ha]

/-! ## The aliases -/

/-- A row that `_sync_aliases` deletes although the identity reports its value. -/
def renewed (t : CatalogText) (identityId : Nat) (a : CatalogSeriesAlias) : Bool :=
  a.sourceSeriesId == some identityId && decide (t.lower a.displayValue ∈ boilerplate)

/-- An alias without its row id. -/
def aliasContents (a : CatalogSeriesAlias) : Nat × Option Nat × String × String :=
  (a.seriesId, a.sourceSeriesId, a.normalizedValue, a.displayValue)

theorem syncAliases_constrained (hs : s.Constrained) :
    (s.syncAliases t seriesId identityId values).Constrained :=
  ⟨hs.identities, hs.newIdentity, hs.alternates, hs.newAlternate, hs.identifiers, hs.newIdentifier,
    syncAliases_unique hs.aliasValue, hs.providerValue, hs.identityProvider, hs.seriesNumber,
    hs.identityRelease⟩

theorem keptAliases_renewed {a : CatalogSeriesAlias}
    (ha : a ∈ s.keptAliases t identityId values) : renewed t identityId a = false := by
  unfold renewed
  by_cases ho : a.sourceSeriesId = some identityId
  · simp [((mem_keptAliases.mp ha).2 ho).2]
  · simp [beq_eq_false_iff_ne.mpr ho]

section
variable (hs' : s'.aliases = (s.syncAliases t seriesId identityId values).aliases)
include hs'

/-- The delete statements of a second run take the rows that it adds again. -/
theorem keptAliases_again : s'.keptAliases t identityId values =
    s'.aliases.filter fun a => !renewed t identityId a := by
  refine List.filter_congr fun a ha => ?_
  rw [hs'] at ha
  have hreported : a.sourceSeriesId = some identityId →
      a.normalizedValue ∈ normalizedAliases t values := by
    rcases mem_syncAliases.mp ha with ha | ⟨e, n, he, rfl⟩
    · exact fun ho => ((mem_keptAliases.mp ha).2 ho).1
    · exact fun _ => (mem_missingAliases.mp ⟨e, List.fst_mem_of_mem_zipIdx he, rfl⟩).1
  unfold renewed
  by_cases ho : a.sourceSeriesId = some identityId
  · simp [ho, hreported ho]
  · simp [bne, beq_eq_false_iff_ne.mpr ho]

/-- And it adds those with the text of boilerplate. -/
theorem missingAliases_again : s'.missingAliases t seriesId identityId values =
    (s.missingAliases t seriesId identityId values).filter fun e =>
      decide (t.lower e.2 ∈ boilerplate) := by
  have hfirst := (firstValues_map (t := t) [] values).1
  unfold missingAliases
  rw [List.filter_filter]
  refine List.filter_congr fun e he => ?_
  rw [Bool.eq_iff_iff, Bool.and_eq_true, decide_eq_true_eq, keptAliases_again hs']
  simp only [Bool.not_eq_true', List.any_eq_false, Bool.and_eq_true, beq_iff_eq, not_and,
    List.mem_filter, and_imp]
  have hkept : ∀ a ∈ s.keptAliases t identityId values,
      a ∈ s'.aliases ∧ renewed t identityId a = false := fun a ha =>
    ⟨hs' ▸ mem_syncAliases.mpr (.inl ha), keptAliases_renewed ha⟩
  constructor
  · intro hno
    have hnew : ∀ a ∈ s.keptAliases t identityId values, a.seriesId = seriesId →
        a.normalizedValue ≠ e.1 := fun a ha =>
      hno a (hkept a ha).1 (hkept a ha).2
    refine ⟨by_contra fun hplain => ?_, hnew⟩
    -- the row that was added for the value is still there
    have hmiss : e ∈ s.missingAliases t seriesId identityId values := by
      refine List.mem_filter.mpr ⟨he, ?_⟩
      simpa using hnew
    rw [← List.zipIdx_map_fst 0 (s.missingAliases t seriesId identityId values)] at hmiss
    obtain ⟨⟨e, n⟩, hn, rfl⟩ := List.mem_map.mp hmiss
    refine hno _ (hs' ▸ mem_syncAliases.mpr (.inr ⟨e, n, hn, rfl⟩)) ?_ rfl rfl
    simpa [renewed] using hplain
  · rintro ⟨hboiler, hnew⟩ a ha hrenewed hu hv
    rw [hs'] at ha
    rcases mem_syncAliases.mp ha with ha | ⟨e', n, he', rfl⟩
    · exact hnew a ha hu hv
    · have hmem := (List.mem_filter.mp (List.fst_mem_of_mem_zipIdx he')).1
      obtain rfl := List.inj_on_of_nodup_map hfirst hmem he hv
      simp [renewed, hboiler] at hrenewed

/-- A second run of `_sync_aliases`: boilerplate gets new rows, and nothing else happens. -/
theorem syncAliases_again :
    ((s'.syncAliases t seriesId identityId values).aliases.filter fun a =>
      !renewed t identityId a) = s'.aliases.filter (fun a => !renewed t identityId a) ∧
    ((s'.syncAliases t seriesId identityId values).aliases.map aliasContents).Perm
      (s'.aliases.map aliasContents) := by
  have hcontents : ∀ (next : Nat) (missing : List (String × String)),
      (addedAliases seriesId identityId next missing).map aliasContents =
        missing.map fun e => (seriesId, some identityId, e.1, e.2) := fun next missing =>
    map_addedAliases _ _ (fun _ _ => rfl) next missing
  have hboiler : ∀ (next : Nat) (missing : List (String × String)),
      ((addedAliases seriesId identityId next missing).filter (renewed t identityId)).map
        aliasContents = ((missing.filter fun e => decide (t.lower e.2 ∈ boilerplate)).map
          fun e => (seriesId, some identityId, e.1, e.2)) := by
    intro next missing
    let isBoiler : Nat × Option Nat × String × String → Bool := fun c =>
      c.2.1 == some identityId && decide (t.lower c.2.2.2 ∈ boilerplate)
    calc ((addedAliases seriesId identityId next missing).filter (renewed t identityId)).map
          aliasContents
        = ((addedAliases seriesId identityId next missing).map aliasContents).filter isBoiler :=
          (List.filter_map (p := isBoiler) (f := aliasContents)).symm
      _ = (missing.map fun e => (seriesId, some identityId, e.1, e.2)).filter isBoiler := by
          rw [hcontents]
      _ = _ := by
          rw [List.filter_map]
          refine congrArg _ (List.filter_congr fun e _ => ?_)
          simp [isBoiler]
  rw [syncAliases_eq, keptAliases_again hs', missingAliases_again hs']
  refine ⟨?_, ?_⟩
  · have hadded : (addedAliases seriesId identityId s'.nextAlias
        ((s.missingAliases t seriesId identityId values).filter fun e =>
          decide (t.lower e.2 ∈ boilerplate))).filter (fun a => !renewed t identityId a) = [] := by
      refine List.filter_eq_nil_iff.mpr fun a ha => ?_
      obtain ⟨⟨e, n⟩, hn, rfl⟩ := List.mem_map.mp ha
      have hb := (List.mem_filter.mp (List.fst_mem_of_mem_zipIdx hn)).2
      simp only [decide_eq_true_eq] at hb
      simp [renewed, hb]
    rw [List.filter_append, hadded, List.append_nil, List.filter_filter]
    simp only [Bool.and_self]
  · have hold : s'.aliases.filter (renewed t identityId) = (addedAliases seriesId identityId
        s.nextAlias (s.missingAliases t seriesId identityId values)).filter
          (renewed t identityId) := by
      rw [hs', syncAliases_eq, List.filter_append, List.filter_eq_nil_iff.mpr, List.nil_append]
      intro a ha
      rw [keptAliases_renewed ha]
      exact Bool.false_ne_true
    calc ((s'.aliases.filter fun a => !renewed t identityId a) ++ addedAliases seriesId identityId
            s'.nextAlias ((s.missingAliases t seriesId identityId values).filter fun e =>
              decide (t.lower e.2 ∈ boilerplate))).map aliasContents
        = ((s'.aliases.filter fun a => !renewed t identityId a) ++
            s'.aliases.filter (renewed t identityId)).map aliasContents := by
          rw [List.map_append, List.map_append, hcontents, hold, hboiler]
      List.Perm _ (s'.aliases.map aliasContents) := by
          refine List.Perm.map _ (List.perm_append_comm.trans ?_)
          exact List.filter_append_perm (renewed t identityId) s'.aliases

end

/-! ## The external ids -/

/-- The identifiers with their next id, as the loop of `_sync_external_ids` finds them. -/
structure IdentifiersOk (acc : List CatalogExternalIdentifier × Nat) : Prop where
  keyed : Table.Keyed CatalogExternalIdentifier.id acc.1
  fresh : ∀ x ∈ acc.1, x.id < acc.2
  providerValue : (acc.1.map fun x => (x.provider, x.value)).Nodup
  identityProvider : (acc.1.map fun x => (x.sourceSeriesId, x.provider)).Nodup

section
variable {acc : List CatalogExternalIdentifier × Nat} {entry : String × String}

/-- A provider that needs nothing: the value has a row, of whichever identity. -/
def SettledIdentifier (entry : String × String) (acc : List CatalogExternalIdentifier × Nat) :
    Prop :=
  (entry.1 = "" ∨ entry.2 = "") ∨ ∃ x ∈ acc.1, x.provider = entry.1 ∧ x.value = entry.2

/-- What one provider of `_sync_external_ids` does. -/
theorem syncExternalId_cases (h : IdentifiersOk acc) (seriesId identityId : Nat)
    (entry : String × String) :
    (SettledIdentifier entry acc ∧ syncExternalId seriesId identityId acc entry = acc) ∨
    (¬ SettledIdentifier entry acc ∧ ∃ own ∈ acc.1, own.sourceSeriesId = identityId ∧
      own.provider = entry.1 ∧ syncExternalId seriesId identityId acc entry =
        (Table.put CatalogExternalIdentifier.id acc.1 { own with value := entry.2 }, acc.2)) ∨
    (¬ SettledIdentifier entry acc ∧
      (∀ x ∈ acc.1, x.sourceSeriesId = identityId → x.provider ≠ entry.1) ∧
      syncExternalId seriesId identityId acc entry =
        (acc.1 ++ [{ id := acc.2, seriesId := seriesId, sourceSeriesId := identityId
                     provider := entry.1, value := entry.2 }], acc.2 + 1)) := by
  have hwrite : ∀ own ∈ acc.1,
      (acc.1.map fun x => if x.id = own.id then { x with value := entry.2 } else x) =
        Table.put CatalogExternalIdentifier.id acc.1 { own with value := entry.2 } := by
    intro own hown
    refine List.map_congr_left fun x hx => ?_
    split
    · rename_i he
      rw [h.keyed.eq hx hown he]
    · rfl
  unfold syncExternalId
  dsimp only
  split
  · rename_i hempty
    exact .inl ⟨.inl hempty, rfl⟩
  rename_i hfull
  cases hex : acc.1.find? fun x => x.provider == entry.1 && x.value == entry.2 with
  | none =>
    have hnew : ¬ SettledIdentifier entry acc := by
      rintro (hempty | ⟨x, hx, hprovider, hvalue⟩)
      · exact hfull hempty
      · have hno := List.find?_eq_none.mp hex x hx
        simp [hprovider, hvalue] at hno
    cases hown : acc.1.find? fun x => x.sourceSeriesId == identityId && x.provider == entry.1 with
    | none =>
      refine .inr (.inr ⟨hnew, fun x hx hid hprovider => ?_, rfl⟩)
      have hno := List.find?_eq_none.mp hown x hx
      simp [hid, hprovider] at hno
    | some own =>
      have hsome := List.find?_some hown
      simp only [Bool.and_eq_true, beq_iff_eq] at hsome
      have hmem := List.mem_of_find?_eq_some hown
      refine .inr (.inl ⟨hnew, own, hmem, hsome.1, hsome.2, ?_⟩)
      dsimp only
      rw [hwrite own hmem]
      rfl
  | some other =>
    have hsome := List.find?_some hex
    simp only [Bool.and_eq_true, beq_iff_eq] at hsome
    have hmem := List.mem_of_find?_eq_some hex
    refine .inl ⟨.inr ⟨other, hmem, hsome⟩, ?_⟩
    cases hown : acc.1.find? fun x => x.sourceSeriesId == identityId && x.provider == entry.1 with
    | none => rfl
    | some own =>
      dsimp only
      rw [hwrite own (List.mem_of_find?_eq_some hown)]
      by_cases he : other.id = own.id
      · -- the identity has the value already
        obtain rfl := h.keyed.eq hmem (List.mem_of_find?_eq_some hown) he
        have hsame : ({ other with value := entry.2 } : CatalogExternalIdentifier) = other := by
          rw [← hsome.2]
        rw [hsame, Table.put_self h.keyed hmem]
        exact ite_self acc
      · rw [Option.all_some, if_neg (by simpa using he)]

theorem syncExternalId_settled (h : IdentifiersOk acc) (hset : SettledIdentifier entry acc) :
    syncExternalId seriesId identityId acc entry = acc := by
  rcases syncExternalId_cases h seriesId identityId entry with
    ⟨-, he⟩ | ⟨hnew, -⟩ | ⟨hnew, -⟩
  · exact he
  · exact absurd hset hnew
  · exact absurd hset hnew

/-- The value has a row then. -/
theorem syncExternalId_settles (h : IdentifiersOk acc) :
    SettledIdentifier entry (syncExternalId seriesId identityId acc entry) := by
  rcases syncExternalId_cases h seriesId identityId entry with
    ⟨hset, he⟩ | ⟨-, own, hown, -, hprovider, he⟩ | ⟨-, -, he⟩
  · rwa [he]
  · rw [he]
    exact .inr ⟨_, Table.mem_put_self hown rfl, hprovider, rfl⟩
  · rw [he]
    exact .inr ⟨_, List.mem_append_right _ (List.mem_singleton_self _), rfl, rfl⟩

/-- The rows of other identities, and those of other providers, stay. -/
theorem mem_syncExternalId (h : IdentifiersOk acc) {x : CatalogExternalIdentifier} (hx : x ∈ acc.1)
    (hother : x.sourceSeriesId ≠ identityId ∨ x.provider ≠ entry.1) :
    x ∈ (syncExternalId seriesId identityId acc entry).1 := by
  rcases syncExternalId_cases h seriesId identityId entry with
    ⟨-, he⟩ | ⟨-, own, hown, hid, hprovider, he⟩ | ⟨-, -, he⟩
  · rwa [he]
  · rw [he]
    refine Table.mem_put_of_ne hx fun hkey => ?_
    obtain rfl := h.keyed.eq hx hown hkey
    exact hother.elim (fun hne => hne hid) fun hne => hne hprovider
  · rw [he]
    exact List.mem_append_left _ hx

theorem syncExternalId_ok (h : IdentifiersOk acc) :
    IdentifiersOk (syncExternalId seriesId identityId acc entry) := by
  rcases syncExternalId_cases h seriesId identityId entry with
    ⟨-, he⟩ | ⟨hnew, own, hown, -, hprovider, he⟩ | ⟨hnew, hnone, he⟩
  · rwa [he]
  · have hfree : ∀ x ∈ acc.1, ¬ (x.provider = entry.1 ∧ x.value = entry.2) :=
      fun x hx hxv => hnew (.inr ⟨x, hx, hxv⟩)
    rw [he]
    refine ⟨Table.keyed_put.mpr h.keyed, fun x hx => ?_, ?_, ?_⟩
    · rcases Table.mem_put.mp hx with ⟨rfl, -⟩ | ⟨hx, -⟩
      · exact h.fresh own hown
      · exact h.fresh x hx
    · exact Upsert.nodup_put h.providerValue h.keyed fun x hx hxv =>
        hfree x hx ⟨(Prod.mk.inj hxv).1.trans hprovider, (Prod.mk.inj hxv).2⟩
    · refine Upsert.nodup_map h.identityProvider fun x hx => ?_
      split
      · rename_i hid
        rw [h.keyed.eq hx hown hid]
      · rfl
  · rw [he]
    refine ⟨Table.keyed_append.mpr ⟨h.keyed, fun x hx => (h.fresh x hx).ne⟩, fun x hx => ?_,
      Upsert.nodup_append h.providerValue fun x hx hxv => hnew (.inr ⟨x, hx, Prod.mk.inj hxv⟩),
      Upsert.nodup_append h.identityProvider fun x hx hxv =>
        hnone x hx (Prod.mk.inj hxv).1 (Prod.mk.inj hxv).2⟩
    rcases List.mem_append.mp hx with hx | hx
    · exact Nat.lt_succ_of_lt (h.fresh x hx)
    · obtain rfl := List.mem_singleton.mp hx
      exact Nat.lt_succ_self _

/-- `_sync_external_ids`: the rows it leaves are settled, and those of other identities stay. -/
theorem syncExternalIds_spec (hs : s.Constrained) {externalIds : List (String × String)}
    (hkeys : (externalIds.map Prod.fst).Nodup) (seriesId identityId : Nat) :
    (s.syncExternalIds seriesId identityId externalIds).Constrained ∧
    (∀ x ∈ s.identifiers, x.sourceSeriesId ≠ identityId →
      x ∈ (s.syncExternalIds seriesId identityId externalIds).identifiers) ∧
    ∀ s' : Shelf, s'.identifiers = (s.syncExternalIds seriesId identityId externalIds).identifiers →
      s'.nextIdentifier = (s.syncExternalIds seriesId identityId externalIds).nextIdentifier →
      s'.syncExternalIds seriesId identityId externalIds = s' := by
  have hstart : IdentifiersOk (s.identifiers, s.nextIdentifier) :=
    ⟨hs.identifiers, hs.newIdentifier, hs.providerValue, hs.identityProvider⟩
  have hother : ∀ acc (x y : String × String), IdentifiersOk acc → x.1 ≠ y.1 →
      SettledIdentifier y acc → SettledIdentifier y (syncExternalId seriesId identityId acc x) := by
    intro acc x y hacc hne hset
    refine hset.imp_right fun ⟨row, hrow, hprovider, hvalue⟩ => ?_
    exact ⟨row, mem_syncExternalId hacc hrow (.inr fun he => hne (he.symm.trans hprovider)),
      hprovider, hvalue⟩
  have hall : IdentifiersOk (externalIds.foldl (syncExternalId seriesId identityId)
      (s.identifiers, s.nextIdentifier)) ∧ ∀ entry ∈ externalIds, SettledIdentifier entry
        (externalIds.foldl (syncExternalId seriesId identityId) (s.identifiers, s.nextIdentifier)) :=
    Upsert.foldl_settled (syncExternalId seriesId identityId) IdentifiersOk SettledIdentifier
      (fun _ _ _ => syncExternalId_ok) (fun _ _ _ => syncExternalId_settles)
      (fun acc x _ => hother acc x) hkeys hstart
  refine ⟨?_, fun x hx hid => ?_, fun s' hrows hnext => ?_⟩
  · obtain ⟨hk, hf, hpv, hip⟩ := hall.1
    exact ⟨hs.identities, hs.newIdentity, hs.alternates, hs.newAlternate, hk, hf, hs.aliasValue,
      hpv, hip, hs.seriesNumber, hs.identityRelease⟩
  · refine (List.foldlRecOn (motive := fun acc => IdentifiersOk acc ∧ x ∈ acc.1) externalIds
      (syncExternalId seriesId identityId) ⟨hstart, hx⟩ fun acc hacc entry _ => ?_).2
    exact ⟨syncExternalId_ok hacc.1, mem_syncExternalId hacc.1 hacc.2 (.inl hid)⟩
  · have hnoop : externalIds.foldl (syncExternalId seriesId identityId)
        (s'.identifiers, s'.nextIdentifier) = (s'.identifiers, s'.nextIdentifier) := by
      rw [hrows, hnext]
      exact Upsert.foldl_eq_self fun entry he =>
        syncExternalId_settled hall.1 (hall.2 entry he)
    unfold syncExternalIds
    rw [hnoop]

end

/-! ## The chapters and their releases -/

section
variable {chapters : List CatalogChapter × Nat} {row : String × ChapterItem} {now : Time}

theorem byNumber_nodup (t : CatalogText) (items : List ChapterItem) :
    ((byNumber t items).map Prod.fst).Nodup := by
  unfold byNumber
  refine List.foldlRecOn (motive := fun rows : List (String × ChapterItem) =>
    (rows.map Prod.fst).Nodup) items _ List.nodup_nil fun rows h item _ => ?_
  dsimp only
  split
  · exact h
  · split
    · refine Upsert.nodup_map h fun row _ => ?_
      split
      · rename_i he
        exact he.symm
      · rfl
    · rename_i hnone
      refine Upsert.nodup_append h fun row hrow he => hnone ?_
      exact List.any_eq_true.mpr ⟨row, hrow, by simpa using he⟩

/-- The row of a number in the chapters of a series. -/
def isChapter (seriesId : Nat) (row : String × ChapterItem) (c : CatalogChapter) : Bool :=
  c.seriesId == seriesId && c.canonicalNumber == row.1

/-- A chapter gets the title of the item when it has none. -/
def titled (row : String × ChapterItem) (c : CatalogChapter) : CatalogChapter :=
  { c with title := orText c.title row.2.title }

/-- The row of a number in the releases of an identity. -/
def isRelease (identityId : Nat) (row : String × ChapterItem) (r : ReleaseRow) : Bool :=
  r.sourceSeriesId == identityId && r.sourceReleaseId == row.1

def observedRelease (row : String × ChapterItem) (r : ReleaseRow) : ReleaseRow :=
  r.observe row.2.title row.2.url row.2.publishedAt row.2.qualityRank

theorem isChapter_iff {c : CatalogChapter} : isChapter seriesId row c = true ↔
    (c.seriesId, c.canonicalNumber) = (seriesId, row.1) := by
  rw [isChapter, Bool.and_eq_true, beq_iff_eq, beq_iff_eq, Prod.mk.injEq]

theorem isRelease_iff {r : ReleaseRow} : isRelease identityId row r = true ↔
    (r.sourceSeriesId, r.sourceReleaseId) = (identityId, row.1) := by
  rw [isRelease, Bool.and_eq_true, beq_iff_eq, beq_iff_eq, Prod.mk.injEq]

theorem titled_twice (c : CatalogChapter) : titled row (titled row c) = titled row c := by
  unfold titled
  rw [orText_twice]

/-- The chapter that is added for an item. -/
def newChapter (t : CatalogText) (seriesId : Nat) (now : Time) (id : Nat)
    (row : String × ChapterItem) : CatalogChapter :=
  { id := id, seriesId := seriesId, canonicalNumber := row.1
    sortNumber := t.chapterSortNumber row.2.number, createdAt := now
    displayNumber := row.2.number, title := row.2.title }

/-- The release that is added for an item. -/
def newRelease (identityId : Nat) (now : Time) (last chapterId : Nat)
    (row : String × ChapterItem) : ReleaseRow :=
  observedRelease row
    { id := last + 1, id_pos := Nat.succ_pos last, chapterId := chapterId, source := row.2.source
      sourceSeriesId := identityId, sourceReleaseId := row.1, firstSeenAt := now }

/-- A pair of a table and its last id, changed or with one more row. -/
theorem upsert_pair {α : Type} {isRow : α → Bool} {change : α → α} {new : α} (acc : List α × Nat) :
    let next := if acc.1.any isRow then
        (acc.1.map fun x => if isRow x then change x else x, acc.2)
      else (acc.1 ++ [new], acc.2 + 1)
    next.1 = Upsert.upsert isRow change new acc.1 ∧
      (Upsert.Current isRow change acc.1 → next = acc) := by
  refine ⟨apply_ite Prod.fst _ _ _, fun hset => ?_⟩
  have hsame := Upsert.upsert_of_current hset new
  unfold Upsert.upsert at hsame
  have hany := List.any_eq_true.mpr hset.1
  rw [if_pos hany] at hsame
  simp only [if_pos hany, hsame]

/-- `_upsert_chapters` changes the chapter of an item or adds it. -/
theorem upsertChapter_spec (t : CatalogText) (seriesId : Nat) (now : Time)
    (acc : List CatalogChapter × Nat) (row : String × ChapterItem) :
    (upsertChapter t seriesId now acc row).1 = Upsert.upsert (isChapter seriesId row) (titled row)
        (newChapter t seriesId now acc.2 row) acc.1 ∧
    (Upsert.Current (isChapter seriesId row) (titled row) acc.1 →
      upsertChapter t seriesId now acc row = acc) :=
  upsert_pair acc

/-- And then its release, which needs the chapter. -/
theorem upsertRelease_spec {chapters : List CatalogChapter} {chapter : CatalogChapter}
    (hc : chapters.find? (isChapter seriesId row) = some chapter) (identityId : Nat) (now : Time)
    (acc : List ReleaseRow × Nat) :
    (upsertRelease chapters seriesId identityId now acc row).1 =
      Upsert.upsert (isRelease identityId row) (observedRelease row)
        (newRelease identityId now acc.2 chapter.id row) acc.1 ∧
    (Upsert.Current (isRelease identityId row) (observedRelease row) acc.1 →
      upsertRelease chapters seriesId identityId now acc row = acc) := by
  have hfound : (chapters.find? fun c => c.seriesId == seriesId && c.canonicalNumber == row.1) =
      some chapter := hc
  unfold upsertRelease
  dsimp only
  rw [hfound]
  exact upsert_pair acc

/-- The chapters after the first loop of `_upsert_chapters`. -/
theorem chapters_settled (t : CatalogText) (now : Time) {rows : List (String × ChapterItem)}
    (hrows : (rows.map Prod.fst).Nodup) (acc : List CatalogChapter × Nat)
    (h : (acc.1.map fun c => (c.seriesId, c.canonicalNumber)).Nodup) :
    ((rows.foldl (upsertChapter t seriesId now) acc).1.map fun c =>
      (c.seriesId, c.canonicalNumber)).Nodup ∧
    ∀ row ∈ rows, Upsert.Current (isChapter seriesId row) (titled row)
      (rows.foldl (upsertChapter t seriesId now) acc).1 := by
  refine Upsert.foldl_settled (upsertChapter t seriesId now)
    (fun acc => (acc.1.map fun c => (c.seriesId, c.canonicalNumber)).Nodup)
    (fun row acc => Upsert.Current (isChapter seriesId row) (titled row) acc.1)
    (fun acc row _ h => ?_) (fun acc row _ _ => ?_) (fun acc row _ other _ hne hset => ?_) hrows h
  · rw [(upsertChapter_spec t seriesId now acc row).1]
    exact Upsert.nodup_upsert h (fun _ => rfl) fun c hc => isChapter_iff.mpr hc
  · have htitled : titled row (newChapter t seriesId now acc.2 row) =
        newChapter t seriesId now acc.2 row := by
      simp only [titled, newChapter, orText_self]
    rw [(upsertChapter_spec t seriesId now acc row).1]
    exact Upsert.current_upsert (fun _ => rfl) titled_twice (isChapter_iff.mpr rfl) htitled
  · rw [(upsertChapter_spec t seriesId now acc row).1]
    refine hset.upsert (fun _ => rfl) (isChapter_iff.mpr rfl) fun c hc => ?_
    refine Bool.eq_false_iff.mpr fun hrow => hne ?_
    exact (Prod.mk.inj ((isChapter_iff.mp hrow).symm.trans (isChapter_iff.mp hc))).2

/-- The releases after the second one, when the chapters are there. -/
theorem releases_settled {chapters : List CatalogChapter} (now : Time)
    {rows : List (String × ChapterItem)} (hrows : (rows.map Prod.fst).Nodup)
    (hchapters : ∀ row ∈ rows, ∃ c, chapters.find? (isChapter seriesId row) = some c)
    (acc : List ReleaseRow × Nat)
    (h : (acc.1.map fun r => (r.sourceSeriesId, r.sourceReleaseId)).Nodup) :
    ((rows.foldl (upsertRelease chapters seriesId identityId now) acc).1.map fun r =>
      (r.sourceSeriesId, r.sourceReleaseId)).Nodup ∧
    ∀ row ∈ rows, Upsert.Current (isRelease identityId row) (observedRelease row)
      (rows.foldl (upsertRelease chapters seriesId identityId now) acc).1 := by
  refine Upsert.foldl_settled (upsertRelease chapters seriesId identityId now)
    (fun acc => (acc.1.map fun r => (r.sourceSeriesId, r.sourceReleaseId)).Nodup)
    (fun row acc => Upsert.Current (isRelease identityId row) (observedRelease row) acc.1)
    (fun acc row hrow h => ?_) (fun acc row hrow _ => ?_) (fun acc row hrow other _ hne hset => ?_)
    hrows h
  · obtain ⟨c, hc⟩ := hchapters row hrow
    rw [(upsertRelease_spec hc identityId now acc).1]
    exact Upsert.nodup_upsert h (fun _ => rfl) fun r hr => isRelease_iff.mpr hr
  · obtain ⟨c, hc⟩ := hchapters row hrow
    rw [(upsertRelease_spec hc identityId now acc).1]
    exact Upsert.current_upsert (fun _ => rfl) (fun _ => rfl) (isRelease_iff.mpr rfl) rfl
  · obtain ⟨c, hc⟩ := hchapters row hrow
    rw [(upsertRelease_spec hc identityId now acc).1]
    refine hset.upsert (fun _ => rfl) (isRelease_iff.mpr rfl) fun r hr => ?_
    refine Bool.eq_false_iff.mpr fun hrow => hne ?_
    exact (Prod.mk.inj ((isRelease_iff.mp hrow).symm.trans (isRelease_iff.mp hr))).2

/-- `_upsert_chapters`: what it leaves is current, so that it does nothing when it runs again. -/
theorem upsertChapters_spec (hs : s.Constrained) (t : CatalogText) (seriesId identityId : Nat)
    (items : List ChapterItem) (now : Time) :
    (s.upsertChapters t seriesId identityId items now).Constrained ∧
    ∀ (s' : Shelf) (later : Time),
      s'.chapters = (s.upsertChapters t seriesId identityId items now).chapters →
      s'.nextChapter = (s.upsertChapters t seriesId identityId items now).nextChapter →
      s'.releases = (s.upsertChapters t seriesId identityId items now).releases →
      s'.lastRelease = (s.upsertChapters t seriesId identityId items now).lastRelease →
      s'.upsertChapters t seriesId identityId items later = s' := by
  have hrows := byNumber_nodup t items
  obtain ⟨huc, hsc⟩ := chapters_settled t now hrows
    (s.chapters, s.nextChapter) hs.seriesNumber
  have hfound : ∀ row ∈ byNumber t items, ∃ c, ((byNumber t items).foldl
      (upsertChapter t seriesId now) (s.chapters, s.nextChapter)).1.find?
        (isChapter seriesId row) = some c := fun row hrow =>
    Option.isSome_iff_exists.mp (List.find?_isSome.mpr (hsc row hrow).1)
  obtain ⟨hur, hsr⟩ := releases_settled now hrows hfound
    (s.releases, s.lastRelease) hs.identityRelease
  refine ⟨⟨hs.identities, hs.newIdentity, hs.alternates, hs.newAlternate, hs.identifiers,
    hs.newIdentifier, hs.aliasValue, hs.providerValue, hs.identityProvider, huc, hur⟩, ?_⟩
  intro s' later hc hnc hr hnr
  have hchapters : (byNumber t items).foldl (upsertChapter t seriesId later)
      (s'.chapters, s'.nextChapter) = (s'.chapters, s'.nextChapter) := by
    refine Upsert.foldl_eq_self fun row hrow => (upsertChapter_spec t seriesId later _ row).2 ?_
    rw [hc]
    exact hsc row hrow
  have hreleases : (byNumber t items).foldl
      (upsertRelease s'.chapters seriesId identityId later) (s'.releases, s'.lastRelease) =
        (s'.releases, s'.lastRelease) := by
    refine Upsert.foldl_eq_self fun row hrow => ?_
    obtain ⟨c, hfind⟩ := hfound row hrow
    rw [hc]
    refine (upsertRelease_spec hfind identityId later _).2 ?_
    rw [hr]
    exact hsr row hrow
  unfold upsertChapters
  simp only [hchapters, hreleases]

end

end Shelf

end MangaManager
