import MangaManager.Matches.Operations
import MangaManager.Series.Ingest

/-!
# Reviewing matches

What `_execute` of `manga_manager/application/match_operations.py` does to the catalog in its second
transaction, and the decisions that `refresh_for_source_series` of
`manga_manager/application/cover_evidence.py` proposes. The status of the operation is in
`Operations`; training labels and scores are not modelled.
-/

namespace MangaManager

open Lib

/-- The second transaction of `_execute`: the decisions are made, and what they join is merged. -/
def Collection.review (t : TextLib) (s : Collection) (action : MatchAction)
    (decisionIds seriesIds : List Nat) (now : Time) : Except MatchError Collection :=
  let pending := (s.decisions.filter fun d =>
    d.id ∈ decisionIds && d.decision == .pending).map (·.id)
  let decided := { s with
    decisions := s.decisions.map fun d =>
      if d.id ∈ pending then { d with decision := .decided action } else d }
  if pending.length ≠ decisionIds.length then
    .error (.http 409 "one or more match decisions were already reviewed")
  else match action with
    | .rejected => .ok decided
    | .accepted => match decided.mergeCanonicalSeries t seriesIds now with
      | .error e => .error (.ofMerge e)
      | .ok (s, _) => .ok s

/-- The new decisions of `refresh_for_source_series`. `similar` stands for the shortlist by titles
and covers. -/
def Shelf.proposeByCover (s : Shelf) (similar : CatalogSourceSeries → CatalogSourceSeries → Bool)
    (sourceSeriesId : Nat) : Shelf :=
  match s.identity? sourceSeriesId with
  | none => s
  | some source =>
    let candidates := (s.identities.filter fun c =>
      c.id != source.id && c.source != source.source && c.seriesId != source.seriesId &&
        similar source c).insertionSort (·.id ≤ ·.id)
    let missing := candidates.filter fun c => !s.decisions.any fun d =>
      d.leftSourceSeriesId == min c.id source.id && d.rightSourceSeriesId == max c.id source.id
    { s with
      decisions := s.decisions ++ missing.zipIdx.map fun (c, n) =>
        { id := s.nextDecision + n, leftSourceSeriesId := min c.id source.id
          rightSourceSeriesId := max c.id source.id }
      nextDecision := s.nextDecision + missing.length }

end MangaManager
