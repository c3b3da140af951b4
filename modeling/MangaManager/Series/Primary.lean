import MangaManager.Series.Aliases

/-!
# The names of a primary listing

An item about an alternate listing is taken in by the identity of the primary one, whose
names are to stay. `Booked` remembers what the last ingest of the primary listing itself
wrote: `names_booked_iff` says when every identity has just these names. The revision
of an Asura series is written outside the branch that keeps the others.
-/

namespace MangaManager

open Lib

/-- The columns that name a listing of a provider. -/
structure ListingNames where
  sourceId : String := ""
  normalizedSourceId : String := ""
  title : String := ""
  url : String := ""
  revisionOverride : String := ""
  deriving DecidableEq

def CatalogSourceSeries.names (i : CatalogSourceSeries) : ListingNames :=
  ⟨i.sourceId, i.normalizedSourceId, i.title, i.url, i.revisionOverride⟩

/-- What an ingest of the primary listing writes; only Asura has revisions. -/
def SeriesItem.names (t : CatalogText) (item : SeriesItem) (old : ListingNames) : ListingNames where
  sourceId := if item.source = "asura" then Shelf.normalizedIdentity item else item.sourceId
  normalizedSourceId := Shelf.normalizedIdentity item
  title := item.title
  url := item.url
  revisionOverride := if item.source = "asura" then item.revisionOverride else old.revisionOverride

/-- The tables, and the names that the last ingest of each primary listing wrote. -/
structure Booked where
  shelf : Shelf
  names : Nat → ListingNames

namespace Booked

variable (t : CatalogText) (x : Booked) (call : IngestCall)

/-- The names that the rows have at the start. -/
def start (s : Shelf) : Booked := ⟨s, fun id => ((s.identity? id).map (·.names)).getD {}⟩

/-- The call is about an alternate listing. -/
def isAlternate : Bool := (x.shelf.target t call).2.2.isSome

/-- A call that raises is rolled back. -/
def ingest : Booked :=
  match x.shelf.ingest t call with
  | .error _ => x
  | .ok (shelf, id) =>
    ⟨shelf, if x.isAlternate t call then x.names
      else Function.update x.names id (call.item.names t (x.names id))⟩

def Books (x : Booked) (call : IngestCall) (y : Booked) : Prop := y = x.ingest t call

/-- The names of every identity are those of its primary listing. -/
def NamesBooked : Prop := ∀ i ∈ x.shelf.identities, i.names = x.names i.id

/-- A call about an alternate listing of an Asura series has the revision of the primary one. -/
def KeepsRevision : Prop :=
  (x.shelf.ingest t call).isOk = true → x.isAlternate t call = true → call.item.source = "asura" →
    call.item.revisionOverride = (x.shelf.target t call).2.1.revisionOverride

instance : Decidable (x.KeepsRevision t call) := by
  unfold KeepsRevision
  infer_instance

/-- Primary keys; a row that is not there has no names. -/
structure KeysOk : Prop where
  identities : Table.Keyed CatalogSourceSeries.id x.shelf.identities
  fresh : ∀ i ∈ x.shelf.identities, i.id < x.shelf.nextIdentity
  blank : ∀ id, x.shelf.nextIdentity ≤ id → (x.names id).revisionOverride = ""

end Booked

section
variable {t : CatalogText} {s s' : Shelf} {call : IngestCall} {x y : Booked} {id : Nat}

open Shelf

/-- The identity of a call is there, or the call is about its primary listing. -/
theorem Shelf.target_primary (t : CatalogText) (s : Shelf) (call : IngestCall) :
    ((s.target t call).1.identities = s.identities ∧
      (s.target t call).1.nextIdentity = s.nextIdentity ∧ (s.target t call).2.1 ∈ s.identities) ∨
    ((s.target t call).1.identities = s.identities ++ [(s.target t call).2.1] ∧
      (s.target t call).1.nextIdentity = s.nextIdentity + 1 ∧
      (s.target t call).2.1.id = s.nextIdentity ∧ (s.target t call).2.2 = none ∧
      (s.target t call).2.1.revisionOverride =
        if call.item.source = "asura" then call.item.revisionOverride else "") := by
  obtain ⟨-, -, h | ⟨hids, hnext, hid⟩⟩ := target_cases t s call
  · exact .inl h
  · refine .inr ⟨hids, hnext, hid, ?_⟩
    -- in the other cases no identity is added
    have hno : s.identities ≠ s.identities ++ [(s.target t call).2.1] :=
      fun he => List.cons_ne_nil _ _ (List.self_eq_append_right.mp he)
    unfold target at hids hno ⊢
    cases hl : s.locate t call.item call.chapters with
    | identity i => exact absurd (by rw [hl] at hids; exact hids) (by rw [hl] at hno; exact hno)
    | listing i a => exact absurd (by rw [hl] at hids; exact hids) (by rw [hl] at hno; exact hno)
    | equivalent i e => exact absurd (by rw [hl] at hids; exact hids) (by rw [hl] at hno; exact hno)
    | unknown => exact ⟨rfl, rfl⟩

theorem observed_names (t : CatalogText) (i : CatalogSourceSeries) (item : SeriesItem)
    (alternate : Bool) : (observed t i item alternate).names =
      if alternate then { i.names with
        revisionOverride := if item.source = "asura" then item.revisionOverride
          else i.revisionOverride }
      else item.names t i.names := by
  unfold observed
  cases alternate <;> rfl

/-- A call that returns writes the names of one identity. -/
theorem ingest_names (h : s.ingest t call = .ok (s', id)) (hk : Table.Keyed CatalogSourceSeries.id
      s.identities) (hf : ∀ i ∈ s.identities, i.id < s.nextIdentity) :
    id = (s.target t call).2.1.id ∧
    ∀ j, j ∈ s'.identities ↔ j = observed t (s.target t call).2.1 call.item
        (s.target t call).2.2.isSome ∨ (j ∈ s.identities ∧ j.id ≠ id) := by
  obtain ⟨rfl, -, -, -, hids⟩ := ingest_aliases h
  refine ⟨rfl, fun j => ?_⟩
  have hobs : (observed t (s.target t call).2.1 call.item (s.target t call).2.2.isSome).id =
      (s.target t call).2.1.id := by
    unfold observed
    split <;> rfl
  rw [hids, Table.mem_put, hobs]
  rcases target_primary t s call with ⟨he, -, hi⟩ | ⟨he, -, hid, -⟩
  · rw [he]
    exact or_congr_left ⟨fun h => h.1, fun h => ⟨h, _, hi, rfl⟩⟩
  · rw [he]
    refine ⟨?_, ?_⟩
    · rintro (⟨h, -⟩ | ⟨hj, hne⟩)
      · exact .inl h
      · rcases List.mem_append.mp hj with hj | hj
        · exact .inr ⟨hj, hne⟩
        · exact absurd (congrArg (·.id) (List.mem_singleton.mp hj)) hne
    · rintro (h | ⟨hj, hne⟩)
      · exact .inl ⟨h, _, List.mem_append_right _ (List.mem_singleton_self _), rfl⟩
      · exact .inr ⟨List.mem_append_left _ hj, hne⟩

theorem Booked.KeysOk.step (h : x.KeysOk) (call : IngestCall) : (x.ingest t call).KeysOk := by
  unfold Booked.ingest
  split
  · exact h
  · rename_i s' id hs
    obtain ⟨-, -, hk, hf⟩ := ingest_hasIdentity hs h.identities h.fresh
    obtain ⟨hid, -, -, hnext, -⟩ := ingest_aliases hs
    -- the identity of the call has an id that was given
    have hlt : id < s'.nextIdentity ∧ x.shelf.nextIdentity ≤ s'.nextIdentity := by
      rw [hnext, hid]
      rcases target_primary t x.shelf call with ⟨-, he, hi⟩ | ⟨-, he, hi, -⟩
      · rw [he]
        exact ⟨h.fresh _ hi, Nat.le_refl _⟩
      · rw [he, hi]
        omega
    refine ⟨hk, hf, fun j hj => ?_⟩
    have hblank := h.blank j (hlt.2.trans hj)
    show ((if x.isAlternate t call = true then x.names
      else Function.update x.names id (call.item.names t (x.names id))) j).revisionOverride = ""
    split
    · exact hblank
    · rw [Function.update_of_ne (Nat.ne_of_gt (Nat.lt_of_lt_of_le hlt.1 hj))]
      exact hblank

/-- A call keeps the names booked exactly when it keeps the revision. -/
theorem Booked.namesBooked_ingest_iff (h : x.KeysOk) (hb : x.NamesBooked) :
    (x.ingest t call).NamesBooked ↔ x.KeepsRevision t call := by
  unfold Booked.ingest Booked.KeepsRevision
  split
  · rename_i e he
    rw [he]
    exact ⟨fun _ hok => (by cases hok), fun _ => hb⟩
  rename_i s' id hs
  obtain ⟨hid, hrows⟩ := ingest_names hs h.identities h.fresh
  have hobs : (observed t (x.shelf.target t call).2.1 call.item (x.isAlternate t call)).id = id := by
    rw [hid]
    unfold observed
    split <;> rfl
  have hnames := observed_names t (x.shelf.target t call).2.1 call.item (x.isAlternate t call)
  have hprimary := target_primary t x.shelf call
  rw [hs]
  change (∀ j ∈ s'.identities, _) ↔ _
  simp only [show ∀ j, j ∈ s'.identities ↔ _ from hrows]
  unfold Booked.isAlternate at hobs hnames ⊢
  generalize x.shelf.target t call = target at *
  cases halt : target.2.2.isSome with
  | true =>
    rw [halt] at hobs hnames
    have hi : target.2.1 ∈ x.shelf.identities := by
      rcases hprimary with ⟨-, -, hi⟩ | ⟨-, -, -, hnone, -⟩
      · exact hi
      · rw [hnone] at halt
        cases halt
    have hold : target.2.1.names = x.names id := hid ▸ hb _ hi
    refine ⟨fun hall _ _ hasura => ?_, fun hkeep j hj => ?_⟩
    · have hrow : (observed t target.2.1 call.item true).names =
        x.names (observed t target.2.1 call.item true).id := hall _ (.inl rfl)
      rw [hnames, hobs, ← hold, if_pos rfl, if_pos hasura] at hrow
      exact congrArg ListingNames.revisionOverride hrow
    · show j.names = x.names j.id
      rcases hj with rfl | ⟨hj, -⟩
      · rw [hnames, hobs, ← hold, if_pos rfl]
        by_cases hasura : call.item.source = "asura"
        · rw [if_pos hasura, hkeep rfl rfl hasura]
          rfl
        · rw [if_neg hasura]
          rfl
      · exact hb j hj
  | false =>
    rw [halt] at hobs hnames
    refine ⟨fun _ _ hno => (by cases hno), fun _ j hj => ?_⟩
    show _ = Function.update x.names id (call.item.names t (x.names id)) j.id
    rcases hj with rfl | ⟨hj, hne⟩
    · rw [hnames, hobs, Function.update_self, if_neg Bool.false_ne_true]
      unfold SeriesItem.names
      by_cases hasura : call.item.source = "asura"
      · rw [if_pos hasura, if_pos hasura, if_pos hasura]
      · rw [if_neg hasura, if_neg hasura, if_neg hasura]
        -- the column is as it was, or as it is in a new row
        rcases hprimary with ⟨-, -, hi⟩ | ⟨-, -, hnew, -, hrev⟩
        · rw [hid, ← hb _ hi]
        · rw [h.blank id (by omega), show target.2.1.names.revisionOverride = _ from hrev,
            if_neg hasura]
    · rw [Function.update_of_ne hne]
      exact hb j hj

theorem Booked.start_ok (hk : Table.Keyed CatalogSourceSeries.id s.identities)
    (hf : ∀ i ∈ s.identities, i.id < s.nextIdentity) :
    (Booked.start s).KeysOk ∧ (Booked.start s).NamesBooked := by
  refine ⟨⟨hk, hf, fun id hid => ?_⟩, fun i hi => ?_⟩
  · have hnone : s.identity? id = none :=
      Table.get_eq_none.mpr fun i hi => Nat.ne_of_lt (Nat.lt_of_lt_of_le (hf i hi) hid)
    show (((s.identity? id).map _).getD _ : ListingNames).revisionOverride = ""
    rw [hnone]
    rfl
  · show _ = ((s.identity? i.id).map _).getD _
    rw [show s.identity? i.id = some i from hk.get_eq hi]
    rfl

/-- Along a run of ingest calls every identity has the names of its primary listing exactly when no
call about an alternate listing brings another revision. -/
theorem names_booked_iff {tr : List (Booked × IngestCall)}
    (hk : Table.Keyed CatalogSourceSeries.id s.identities)
    (hf : ∀ i ∈ s.identities, i.id < s.nextIdentity)
    (h : Run (Booked.Books t) (.start s) tr x) :
    (∀ y, Run.Visits tr x y → y.NamesBooked) ↔ Run.Meets (Booked.KeepsRevision t) tr := by
  obtain ⟨hok, hbooked⟩ := Booked.start_ok hk hf
  refine h.always_iff hok hbooked (fun x call y hx hy => ?_) fun x call y hx hb hy => ?_
  · exact hy ▸ hx.step call
  · exact hy ▸ Booked.namesBooked_ingest_iff hx hb

end

/-- A listing of one title with five chapters. -/
def oneListing (slug revision : String) : IngestCall where
  item := { source := "asura", sourceId := "comics/" ++ slug, title := "One", url := slug
            revisionOverride := revision }
  chapters := ["1", "2", "3", "4", "5"].map fun n => { source := "asura", number := n }

/-- The same chapters under another slug make an alternate listing, with a revision of its own. -/
def listedTwice (revision : String) : List IngestCall :=
  [oneListing "one" "11111111", oneListing "one-again" revision]

/-- The revision of the primary listing is gone. -/
theorem listedTwice_renamed : ¬ ∀ (tr : List (Booked × IngestCall)) (x : Booked),
    Run (Booked.Books asciiCatalog) (.start {}) tr x → x.NamesBooked := by
  intro hall
  have h := hall _ _ (Run.of_foldl (Booked.ingest asciiCatalog) (listedTwice "22222222")
    fun _ _ => rfl)
  have : ¬ ((listedTwice "22222222").foldl (Booked.ingest asciiCatalog) (.start {})).NamesBooked := by
    unfold Booked.NamesBooked
    decide +kernel
  exact this h

/-- An alternate listing with the revision of the primary one. -/
theorem listedTwice_booked : ∃ tr x, Run (Booked.Books asciiCatalog) (.start {}) tr x ∧
    x.shelf.alternates.map (·.sourceId) = ["comics/one-again"] ∧
    ∀ y, Run.Visits tr x y → y.NamesBooked := by
  have hrun : Run (Booked.Books asciiCatalog) (.start {}) _ _ :=
    Run.of_foldl (Booked.ingest asciiCatalog) (listedTwice "11111111") fun _ _ => rfl
  have hkeyed : Table.Keyed CatalogSourceSeries.id ({} : Shelf).identities := List.nodup_nil
  have hfresh : ∀ i ∈ ({} : Shelf).identities, i.id < ({} : Shelf).nextIdentity :=
    fun _ hi => (by cases hi)
  refine ⟨_, _, hrun, by decide +kernel, (names_booked_iff hkeyed hfresh hrun).mpr ?_⟩
  show ∀ x ∈ _, _
  decide +kernel

end MangaManager
