import MangaManager.Lib.Text

/-!
# Provider identities that are the same

`manga_manager/domain/matching.py`: two listings of one provider are equivalent when
their ids are the same but for case, punctuation and a revision suffix, or their
URLs are. `TextLib` stands for the functions of the standard library that read
escapes, letter case and URLs; nothing is assumed of them.
-/

namespace MangaManager

open Lib

/-- `urlsplit(value)`, as far as it is read. -/
structure UrlParts where
  hostname : Option String
  path : String
  deriving DecidableEq

/-- `unquote`, `str.lower` and `urlsplit`. -/
structure TextLib where
  unquote : String → String
  lower : String → String
  urlsplit : String → UrlParts

/-- The functions on ASCII text without escapes, user names and ports. -/
def asciiText : TextLib where
  unquote := id
  lower value := String.ofList (value.toList.map Char.toLower)
  urlsplit value :=
    let rest := ((value.toList.dropWhile (· != ':')).drop 3).takeWhile fun c => c != '?' && c != '#'
    { hostname := some (String.ofList (rest.takeWhile (· != '/')))
      path := String.ofList (rest.dropWhile (· != '/')) }

/-- `[a-z0-9]`. -/
def isIdChar (c : Char) : Bool := ('a' ≤ c && c ≤ 'z') || ('0' ≤ c && c ≤ '9')

/-- `[0-9a-f]`. -/
def isHexChar (c : Char) : Bool := ('0' ≤ c && c ≤ '9') || ('a' ≤ c && c ≤ 'f')

/-- `re.sub(r"[^a-z0-9]+", "-", value)`; the flag says that the run before was replaced. -/
def dashRuns : Bool → List Char → List Char
  | _, [] => []
  | replaced, c :: cs =>
    if isIdChar c then c :: dashRuns false cs
    else if replaced then dashRuns true cs
    else '-' :: dashRuns true cs

/-- `re.sub(r"-[0-9a-f]{8}$", "", value)`, without a line break at the end. -/
def dropRevision (cs : List Char) : List Char :=
  let n := cs.length - 9
  if cs.length < 9 then cs
  else match cs.drop n with
    | '-' :: hex => if hex.all isHexChar then cs.take n else cs
    | _ => cs

/-- `value.rstrip(c)`. -/
def rstripChar (c : Char) (cs : List Char) : List Char := cs.rdropWhile (· == c)

namespace TextLib

variable (t : TextLib)

def normalizedSourceId (value : String) : String :=
  let dashed := dashRuns false (t.lower (t.unquote value)).toList
  String.ofList (dropRevision (rstripChar '-' (dashed.dropWhile (· == '-'))))

def canonicalSourceUrl (value : String) : String :=
  let parsed := t.urlsplit value
  let host := removePrefix "www." (t.lower (parsed.hostname.getD ""))
  host ++ t.lower (String.ofList (rstripChar '/' (t.unquote parsed.path).toList))

end TextLib

/-- The fields of an identity that `provider_identities_equivalent` reads. -/
structure ProviderIdentity where
  source : String
  sourceId : String
  url : String
  deriving DecidableEq

namespace TextLib

variable (t : TextLib)

/-- `provider_identities_equivalent`. -/
def providerIdentitiesEquivalent (left right : ProviderIdentity) : Bool :=
  if left.source ≠ right.source then false
  else
    let leftId := t.normalizedSourceId left.sourceId
    if leftId ≠ "" ∧ leftId = t.normalizedSourceId right.sourceId then true
    else
      let leftUrl := t.canonicalSourceUrl left.url
      leftUrl ≠ "" ∧ leftUrl = t.canonicalSourceUrl right.url

theorem equivalent_comm (left right : ProviderIdentity) :
    t.providerIdentitiesEquivalent left right = t.providerIdentitiesEquivalent right left := by
  have hid : ∀ x y : String, (x ≠ "" ∧ x = y) = (y ≠ "" ∧ y = x) := by
    intro x y
    refine propext ⟨?_, ?_⟩ <;> rintro ⟨h, rfl⟩ <;> exact ⟨h, rfl⟩
  unfold providerIdentitiesEquivalent
  dsimp only
  simp only [hid (t.normalizedSourceId left.sourceId), hid (t.canonicalSourceUrl left.url)]
  by_cases h : left.source = right.source
  · rw [if_neg (not_not.mpr h), if_neg (not_not.mpr h.symm)]
  · rw [if_pos h, if_pos (Ne.symm h)]

end TextLib

end MangaManager
