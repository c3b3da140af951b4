import MangaManager.Catalog.Planned
import MangaManager.Library.Repair
import MangaManager.Series.Tables

/-!
# Changing the state of a series

`change_series` and `read_all` in `manga_manager/web/api.py`, with what they do to the chapters: a
series that is caught up has read chapters, a tracked one has a download plan, and each change
requests a repair of the library.
-/

namespace MangaManager

open Lib

inductive SeriesChangeError where
  /-- A 404. -/
  | notFound
  | queue (e : QueueError)
  deriving DecidableEq

namespace Collection

variable (s : Collection) (now : Time)

/-- The reading state of a chapter that was read; the time of an earlier reading stays. -/
def markRead (rows : List CatalogChapterReadingState) (chapterId : Nat) :
    List CatalogChapterReadingState :=
  if rows.any (·.chapterId == chapterId) then
    rows.map fun r =>
      if r.chapterId = chapterId then { r with status := .read, readAt := some (r.readAt.getD now) }
      else r
  else rows ++ [{ chapterId := chapterId, status := .read, readAt := some now }]

/-- The request for Kavita. -/
def kavitaRequest (seriesId : Nat) : EnqueueArgs where
  kind := .kavitaSync
  dedupeKey := "series:" ++ toString seriesId
  payload := .kavitaSync { seriesId := seriesId, readingStatus := .read }
  priority := 20
  seriesKey := toString seriesId
  coalesce := true

/-- A waiting job is moved to the front. -/
def hurry (queue : Queue) (jobId : Nat) : Queue :=
  match queue.selectWaiting jobId with
  | none => queue
  | some j => queue.putJob { j with priority := min j.priority 20, availableAt := now }

/-- `mark_series_read_and_queue_kavita`. -/
def markSeriesRead (u : CatalogSeries) : Except QueueError Collection :=
  let chapters := (s.chapters.filter (·.seriesId == u.id)).map (·.id)
  let status := if u.status = .paused ∨ u.status = .untracked then u.status else .caughtUp
  (s.queue.enqueue (kavitaRequest u.id) now).map fun (queue, jobId, _) =>
    { s with
      queue := hurry now queue jobId
      readingStates := chapters.foldl (markRead now) s.readingStates
      series := Table.put CatalogSeries.id s.series { u with status := status } }

/-- `change_series`. -/
def changeSeries (seriesId : Nat) (status : SeriesStatus) : Except SeriesChangeError Collection :=
  match s.series? seriesId with
  | none => .error .notFound
  | some u =>
    let u := { u with status := status }
    let changed := { s with series := Table.put CatalogSeries.id s.series u }
    match if status = .caughtUp then changed.markSeriesRead now u else .ok changed with
    | .error e => .error (.queue e)
    | .ok s =>
      match if status.isTracked then s.toCatalog.track now Catalog.rollingWindow seriesId
          else .ok (s.toCatalog.untrack now seriesId) with
      | .error e => .error (.queue e)
      | .ok c => match c.queue.enqueueLibraryRepair seriesId "tracking" 75 [] now with
        | .error e => .error (.queue e)
        | .ok (queue, _) => .ok { s with toCatalog := { c with queue := queue } }

/-- `read_all`. -/
def readAll (seriesId : Nat) : Except SeriesChangeError Collection :=
  match s.series? seriesId with
  | none => .error .notFound
  | some u => match s.markSeriesRead now u with
    | .error e => .error (.queue e)
    | .ok s => .ok s

end Collection

end MangaManager
