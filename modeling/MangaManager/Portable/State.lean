import MangaManager.Series.Ingest

/-!
# The portable state

The models of `manga_manager/application/portable_state.py`: what a snapshot of the
catalog holds, and the checks that pydantic makes when one is built or loaded. A
`Snapshot` has passed them. `format`, `version` and `exported_at` are left out.
-/

namespace MangaManager

open Lib

/-- `CatalogText` with `urlsplit(value).scheme`. -/
structure PortableText extends CatalogText where
  scheme : String → String

/-- The functions on ASCII text. -/
def asciiPortable : PortableText :=
  { asciiCatalog with
    scheme := fun value =>
      if ':' ∈ value.toList then
        asciiText.lower (String.ofList (value.toList.takeWhile (· != ':')))
      else "" }

/-- `normalized_identity`. -/
def portableIdentity (source sourceId : String) : String :=
  if source = "asura" then (splitAsuraSourceId sourceId).1 else strip sourceId

/-- The provider of an identity, and its normalized id there. -/
abbrev IdentityKey := String × String

/-- `identity_key`. -/
def CatalogSourceSeries.identityKey (i : CatalogSourceSeries) : IdentityKey :=
  (i.source, portableIdentity i.source i.sourceId)

structure PortableIdentityRef where
  source : String
  sourceId : String
  deriving DecidableEq

structure PortableAlternate where
  sourceId : String
  title : String := ""
  url : String := ""
  deriving DecidableEq

structure PortableSource extends PortableIdentityRef where
  title : String
  url : String
  description : String := ""
  revisionOverride : String := ""
  aliases : List String := []
  externalIds : List (String × String) := []
  alternates : List PortableAlternate := []
  deriving DecidableEq

structure PortableReadingState where
  chapter : String
  status : ReadingStatus
  readAt : Option Time := none
  deriving DecidableEq

structure PortableSeries where
  title : String
  status : SeriesStatus
  downloadedOnExport : Bool := false
  description : String := ""
  aliases : List String := []
  sources : List PortableSource
  reading : List PortableReadingState := []
  deriving DecidableEq

structure PortableSeparation where
  left : PortableIdentityRef
  right : PortableIdentityRef
  deriving DecidableEq

structure PortableProviderPreference where
  source : String
  enabled : Bool
  deriving DecidableEq

structure PortableState where
  series : List PortableSeries
  separations : List PortableSeparation := []
  providers : List PortableProviderPreference := []
  deriving DecidableEq

/-- An exception of the export or the import; `validation` is a `ValidationError` of a model, `conflict`
a `PortableStateConflict`, and `integrity` a constraint of the database. -/
inductive PortableError where
  | validation
  | conflict (detail : String)
  | integrity
  | queue (e : QueueError)
  deriving DecidableEq

/-! ## The checks of the models -/

section
variable (t : PortableText)

/-- `key`. -/
def PortableIdentityRef.key (r : PortableIdentityRef) : IdentityKey :=
  (r.source, portableIdentity r.source r.sourceId)

/-- `urlsplit(url).scheme in {"http", "https"}`. -/
def isHttpUrl (url : String) : Bool := t.scheme url == "http" || t.scheme url == "https"

open JobPayload

/-- The field of a provider in two of the models. -/
def isSourceField (source : String) : Bool := lengthIn 1 50 source && isSlug source

/-- The fields, and `provider_is_supported`. -/
def PortableIdentityRef.validate (r : PortableIdentityRef) : Bool :=
  isSourceField r.source && lengthIn 1 500 r.sourceId && decide (r.source ∈ providerNames)

/-- The fields, and `public_url_is_valid`. -/
def PortableAlternate.validate (a : PortableAlternate) : Bool :=
  lengthIn 1 500 a.sourceId && lengthIn 0 500 a.title && lengthIn 0 4096 a.url &&
    (a.url == "" || isHttpUrl t a.url)

/-- The fields, and `details_are_bounded`; a dictionary has a key once. -/
def PortableSource.validate (p : PortableSource) : Bool :=
  p.toPortableIdentityRef.validate && lengthIn 1 500 p.title && lengthIn 1 4096 p.url &&
    lengthIn 0 20 p.revisionOverride && isHttpUrl t p.url && p.aliases.all (lengthIn 1 500) &&
    (p.externalIds.all fun e => lengthIn 1 50 e.1 && lengthIn 1 200 e.2) &&
    decide (p.externalIds.map (·.1)).Nodup && p.alternates.all (·.validate t)

def PortableReadingState.validate (r : PortableReadingState) : Bool := lengthIn 1 100 r.chapter

/-- The fields, and `providers_are_unique`. -/
def PortableSeries.validate (p : PortableSeries) : Bool :=
  lengthIn 1 500 p.title && !p.sources.isEmpty && p.sources.all (·.validate t) &&
    p.reading.all (·.validate) && decide (p.sources.map (·.source)).Nodup

/-- The fields, and `identities_are_distinct`. -/
def PortableSeparation.validate (p : PortableSeparation) : Bool :=
  p.left.validate && p.right.validate && p.left.key != p.right.key

def PortableProviderPreference.validate (p : PortableProviderPreference) : Bool :=
  isSourceField p.source

namespace PortableState

/-- The keys of the identities, series by series. -/
def keys (p : PortableState) : List IdentityKey :=
  p.series.flatMap fun series => series.sources.map (·.key)

/-- The fields, and `identities_are_globally_unique`. -/
def validate (p : PortableState) : Bool :=
  p.series.all (·.validate t) && p.separations.all (·.validate) &&
    p.providers.all (·.validate) && decide (p.keys).Nodup &&
    p.separations.all fun d => decide (d.left.key ∈ p.keys) && decide (d.right.key ∈ p.keys)

/-- `portable_owners[key]`. -/
def owner (p : PortableState) (key : IdentityKey) : Option Nat :=
  p.series.findIdx? fun series => series.sources.any (·.key == key)

end PortableState

/-- A portable state that was built or loaded. -/
structure Snapshot extends PortableState where
  valid : toPortableState.validate t = true

end

namespace PortableState

variable {t : PortableText} {p : PortableState}

theorem validate_iff : p.validate t = true ↔
    (∀ series ∈ p.series, series.validate t = true) ∧
    (∀ d ∈ p.separations, d.validate = true ∧ d.left.key ∈ p.keys ∧ d.right.key ∈ p.keys) ∧
    (∀ preference ∈ p.providers, preference.validate = true) ∧ (p.keys).Nodup := by
  simp only [validate, Bool.and_eq_true, List.all_eq_true, decide_eq_true_eq]
  refine ⟨fun ⟨⟨⟨⟨h₁, h₂⟩, h₃⟩, h₄⟩, h₅⟩ => ⟨h₁, fun d hd => ⟨h₂ d hd, h₅ d hd⟩, h₃, h₄⟩, ?_⟩
  rintro ⟨h₁, h₂, h₃, h₄⟩
  exact ⟨⟨⟨⟨h₁, fun d hd => (h₂ d hd).1⟩, h₃⟩, h₄⟩, fun d hd => (h₂ d hd).2⟩

end PortableState

end MangaManager
