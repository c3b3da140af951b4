import Mathlib.Data.List.MinMax
import Mathlib.Logic.Function.Basic
import MangaManager.Lib.Table

/-!
# Pages in order

`iter_ordered_bytes` of `app/adapters/http.py`: generators that share the semaphore of the
worker and the limiter of their source fetch pages ahead, and yield them in order. A task
that has fetched a page keeps its permit for the consumer, who gives it back after the
page.

A step is what runs between two awaits. Which one comes next, and what a request answers,
is open, and so is the limit of a source, which the scheduler sets while pages load. What
the event loop serves in order of arrival here is `asyncio.Semaphore` of the worker only.
The lock of a `DynamicLimiter` is never held across an await, so that entering and leaving
one suspends nothing besides the wait for its turn.
-/

namespace MangaManager

open Lib

/-- Where a task of `fetch` is; `page` is a `ReservedPage`. -/
inductive FetchPhase (β : Type) where
  /-- Before `async with semaphore`. -/
  | created
  /-- In the window, before `async with source_semaphore`. -/
  | windowed
  /-- In the deque of `worker_semaphore`, at this place. -/
  | waiting (place : Nat)
  /-- The permit is passed to it. -/
  | granted
  /-- In `get_bytes`. -/
  | fetching
  | page (content : β) (released : Bool)
  | failed
  deriving DecidableEq

/-- A task of `fetch`. `cancelled` is a cancellation that it has not seen yet; `acquired` and
`released` count what it, or its page, does with the permits of the worker. -/
structure PageTask (β : Type) where
  id : Nat
  iterator : Nat
  index : Nat
  source : Nat
  url : String
  phase : FetchPhase β := .created
  cancelled : Bool := false
  acquired : Nat := 0
  released : Nat := 0
  deriving DecidableEq

/-- Where a generator is: not started, at `await task`, at `yield`, at `await asyncio.gather`, or at
its end. `lost` says that the gathering was cancelled, `exhausted` that the loop came to its end. -/
inductive IteratorPhase where
  | idle
  | awaiting (index : Nat)
  | yielded (index : Nat)
  | gathering (lost : Bool)
  | finished (exhausted : Bool)
  deriving DecidableEq, Repr

/-- A generator; `tasks` are the indices from `popped` up to `nextIndex`, and `out` is what it
yielded. -/
structure PageIterator (β : Type) where
  id : Nat
  urls : List String
  concurrency : Nat
  source : Nat
  phase : IteratorPhase := .idle
  nextIndex : Nat := 0
  popped : Nat := 0
  out : List β := []
  deriving DecidableEq

/-- The generators of an event loop. `value` is `worker_semaphore._value` and `nextPlace` the end of
its deque; `active` counts the tasks in the limiter of a source, and `slots` is the value of a
generator's own semaphore. -/
structure PageLoop (β : Type) where
  value : Nat
  nextPlace : Nat := 0
  nextTask : Nat := 0
  active : Nat → Nat := fun _ => 0
  slots : Nat → Nat := fun _ => 0
  tasks : List (PageTask β) := []
  iterators : List (PageIterator β) := []

/-- What happens next. -/
inductive FetchStep where
  /-- `anext` of a generator that was not started. -/
  | start (iterator : Nat)
  /-- A task runs up to the limiter of its source. -/
  | slot (task : Nat)
  /-- It enters it, and asks for a permit. -/
  | enter (task limit : Nat)
  | wake (task : Nat)
  | respond (task : Nat)
  | fail (task : Nat)
  /-- A cancellation is raised in a task. -/
  | stop (task : Nat)
  /-- The consumer gets the page, or the exception, that it awaits. -/
  | resume (iterator : Nat)
  /-- Without concurrency it awaits the request itself. -/
  | answer (iterator : Nat)
  | refuse (iterator : Nat)
  /-- `anext` after a page. -/
  | next (iterator : Nat)
  /-- `aclose`, or an exception at the `yield`. -/
  | close (iterator : Nat)
  /-- What was gathered is there. -/
  | gather (iterator : Nat)
  /-- A cancellation of the consumer while the generator awaits. -/
  | cancel (iterator : Nat)
  deriving DecidableEq, Repr

variable {β : Type}

namespace PageTask

variable (t : PageTask β)

/-- Not through the limiter of its source yet. -/
def isBefore : Bool := match t.phase with
  | .created | .windowed => true
  | _ => false

/-- In the deque, without a permit. -/
def isWaiting : Bool := match t.phase with
  | .waiting _ => true
  | _ => false

/-- Its future in the deque is not done. -/
def isPending : Bool := t.isWaiting && !t.cancelled

def isGranted : Bool := match t.phase with
  | .granted => true
  | _ => false

def isPage : Bool := match t.phase with
  | .page _ _ => true
  | _ => false

/-- `Task.done`. -/
def isDone : Bool := match t.phase with
  | .page _ _ | .failed => true
  | _ => false

/-- A permit of the worker is with the task or its page. -/
def holds : Bool := match t.phase with
  | .granted | .fetching => true
  | .page _ released => !released
  | _ => false

def place : Nat := match t.phase with
  | .waiting place => place
  | _ => 0

end PageTask

namespace PageLoop

variable (s : PageLoop β)

def putTask (t : PageTask β) : PageLoop β := { s with tasks := Table.put PageTask.id s.tasks t }

def putIterator (x : PageIterator β) : PageLoop β :=
  { s with iterators := Table.put PageIterator.id s.iterators x }

/-! ## The semaphore of the worker -/

/-- `_wake_up_next`. -/
def wakeUpNext : PageLoop β :=
  match (s.tasks.filter PageTask.isPending).argmin PageTask.place with
  | none => s
  | some t =>
    { s.putTask { t with phase := .granted, acquired := t.acquired + 1 } with value := s.value - 1 }

/-- `release`. -/
def release : PageLoop β := ({ s with value := s.value + 1 } : PageLoop β).wakeUpNext

/-- The loop at the end of `acquire`. -/
def wakeUpWhile : PageLoop β := (fun s => if 0 < s.value then s.wakeUpNext else s)^[s.value] s

/-- `locked`. -/
def locked : Bool := s.value == 0 || s.tasks.any fun t => t.isPending || t.isGranted

/-- `acquire`, up to its await. -/
def acquire (t : PageTask β) : PageLoop β :=
  if s.locked then
    { s.putTask { t with phase := .waiting s.nextPlace } with nextPlace := s.nextPlace + 1 }
  else
    { s.putTask { t with phase := .fetching, acquired := t.acquired + 1 } with value := s.value - 1 }

/-! ## A task -/

/-- Out of the window. -/
def leaveWindow (t : PageTask β) : PageLoop β :=
  { s with slots := Function.update s.slots t.iterator (s.slots t.iterator + 1) }

/-- Out of the limiter and the window. -/
def leave (t : PageTask β) : PageLoop β :=
  ({ s with active := Function.update s.active t.source (s.active t.source - 1) } : PageLoop β
    ).leaveWindow t

/-- The cancellation is raised where the task is. -/
def stopTask (t : PageTask β) : PageLoop β :=
  match t.phase with
  | .created => s.putTask { t with phase := .failed }
  | .windowed => (s.putTask { t with phase := .failed }).leaveWindow t
  | .waiting _ => (s.putTask { t with phase := .failed }).wakeUpWhile.leave t
  | .granted =>
    ({ s.putTask { t with phase := .failed, released := t.released + 1 } with
      value := s.value + 1 } : PageLoop β).wakeUpWhile.leave t
  | .fetching =>
    (s.putTask { t with phase := .failed, released := t.released + 1 }).release.leave t
  | .page _ _ | .failed => s

/-- `ReservedPage.release`. -/
def releasePage (t : PageTask β) : PageLoop β :=
  match t.phase with
  | .page content false =>
    (s.putTask { t with phase := .page content true, released := t.released + 1 }).release
  | _ => s

/-! ## A generator -/

/-- The task of an index. -/
def pageOf (x : PageIterator β) (index : Nat) : Option (PageTask β) :=
  s.tasks.find? fun t => t.iterator == x.id && t.index == index

/-- A turn of the loop of `fill_window`; the caller writes the generator back. -/
def fillOne (x : PageIterator β) : PageLoop β × PageIterator β :=
  match x.urls[x.nextIndex]? with
  | some url =>
    if x.nextIndex - x.popped < max 1 x.concurrency then
      ({ s with
          tasks := s.tasks ++
            [{ id := s.nextTask, iterator := x.id, index := x.nextIndex, source := x.source, url }]
          nextTask := s.nextTask + 1 },
        { x with nextIndex := x.nextIndex + 1 })
    else (s, x)
  | none => (s, x)

/-- `fill_window`. -/
def fillWindow (x : PageIterator β) : PageLoop β × PageIterator β :=
  (fun p => p.1.fillOne p.2)^[x.urls.length - x.nextIndex] (s, x)

/-- `task.cancel()` of the tasks that are left. -/
def cancelTasks (x : PageIterator β) : PageLoop β :=
  { s with
    tasks := s.tasks.map fun t =>
      if t.iterator = x.id ∧ x.popped ≤ t.index ∧ t.isDone = false then
        { t with cancelled := true }
      else t }

/-- The outer `finally`, up to its await. Nothing is awaited when no task is left. -/
def unwind (x : PageIterator β) (exhausted : Bool) : PageLoop β :=
  if x.nextIndex ≤ x.popped then s.putIterator { x with phase := .finished exhausted }
  else (s.cancelTasks x).putIterator { x with phase := .gathering false }

/-- The inner `finally`. -/
def givePageBack (x : PageIterator β) (index : Nat) : PageLoop β :=
  match s.pageOf x index with
  | some t => s.releasePage t
  | none => s

/-- The pages among what was gathered. -/
def releaseGathered (x : PageIterator β) : PageLoop β :=
  ((s.tasks.filter fun t => t.iterator == x.id && decide (x.popped ≤ t.index)).map PageTask.id
    ).foldl (fun s id => match Table.get PageTask.id s.tasks id with
      | some t => s.releasePage t
      | none => s) s

/-! ## The steps -/

variable (body : String → β)

/-- The step of a task. -/
def taskStep (t : PageTask β) : FetchStep → PageLoop β
  | .slot _ => match t.phase with
    | .created =>
      if t.cancelled = false ∧ 0 < s.slots t.iterator then
        { s.putTask { t with phase := .windowed } with
          slots := Function.update s.slots t.iterator (s.slots t.iterator - 1) }
      else s
    | _ => s
  | .enter _ limit => match t.phase with
    | .windowed =>
      if t.cancelled = false ∧ s.active t.source < max 1 limit then
        ({ s with active := Function.update s.active t.source (s.active t.source + 1) } :
          PageLoop β).acquire t
      else s
    | _ => s
  | .wake _ => match t.phase with
    | .granted =>
      if t.cancelled then s else (s.putTask { t with phase := .fetching }).wakeUpWhile
    | _ => s
  | .respond _ => match t.phase with
    | .fetching =>
      if t.cancelled then s else (s.putTask { t with phase := .page (body t.url) false }).leave t
    | _ => s
  | .fail _ => match t.phase with
    | .fetching =>
      if t.cancelled then s
      else (s.putTask { t with phase := .failed, released := t.released + 1 }).release.leave t
    | _ => s
  | .stop _ => if t.cancelled then s.stopTask t else s
  | _ => s

/-- The first `anext`. -/
def startIterator (x : PageIterator β) : PageLoop β :=
  if x.urls = [] then s.putIterator { x with phase := .finished true }
  else if x.concurrency ≤ 1 then s.putIterator { x with phase := .awaiting 0, popped := 1 }
  else
    let (s, x) := ({ s with slots := Function.update s.slots x.id (max 1 x.concurrency) } :
      PageLoop β).fillWindow x
    s.putIterator { x with phase := .awaiting 0, popped := 1 }

/-- The next turn of the loop. -/
def nextPage (x : PageIterator β) (index : Nat) : PageLoop β :=
  if index < x.urls.length then
    s.putIterator { x with phase := .awaiting index, popped := index + 1 }
  else s.unwind x true

/-- The step of a generator. -/
def iteratorStep (x : PageIterator β) : FetchStep → PageLoop β
  | .start _ => match x.phase with
    | .idle => s.startIterator x
    | _ => s
  | .resume _ => match x.phase with
    | .awaiting index => match s.pageOf x index with
      | some t => match t.phase with
        | .page content _ =>
          let (s, x) := s.fillWindow x
          s.putIterator { x with phase := .yielded index, out := x.out ++ [content] }
        | .failed => s.unwind x false
        | _ => s
      | none => s
    | _ => s
  | .answer _ => match x.phase with
    | .awaiting index =>
      if x.concurrency ≤ 1 then
        match x.urls[index]? with
        | some url => s.putIterator { x with phase := .yielded index, out := x.out ++ [body url] }
        | none => s
      else s
    | _ => s
  | .refuse _ => match x.phase with
    | .awaiting _ => if x.concurrency ≤ 1 then s.unwind x false else s
    | _ => s
  | .next _ => match x.phase with
    | .yielded index => (s.givePageBack x index).nextPage x (index + 1)
    | _ => s
  | .close _ => match x.phase with
    | .idle => s.putIterator { x with phase := .finished false }
    | .yielded index => (s.givePageBack x index).unwind x false
    | _ => s
  | .gather _ => match x.phase with
    | .gathering lost =>
      if s.tasks.all fun t => t.iterator != x.id || decide (t.index < x.popped) || t.isDone then
        (if lost then s else s.releaseGathered x).putIterator { x with phase := .finished false }
      else s
    | _ => s
  | .cancel _ => match x.phase with
    | .awaiting index => match s.pageOf x index with
      | some t => if t.isDone then s.unwind x false else s.putTask { t with cancelled := true }
      | none => s.unwind x false
    | .gathering _ => s.putIterator { x with phase := .gathering true }
    | _ => s
  | _ => s

/-- A step; one that cannot happen changes nothing. -/
def step (l : FetchStep) : PageLoop β :=
  match l with
  | .slot id | .enter id _ | .wake id | .respond id | .fail id | .stop id =>
    match Table.get PageTask.id s.tasks id with
    | some t => s.taskStep body t l
    | none => s
  | .start id | .resume id | .answer id | .refuse id | .next id | .close id | .gather id
  | .cancel id =>
    match Table.get PageIterator.id s.iterators id with
    | some x => s.iteratorStep body x l
    | none => s

end PageLoop

/-- The steps of a run; `body` are the bytes of a url. -/
def FetchSteps (body : String → β) (s : PageLoop β) (l : FetchStep) (s' : PageLoop β) : Prop :=
  s' = s.step body l

/-- A call of `iter_ordered_bytes`; its client has the limiter of `source`. -/
structure PageCall where
  urls : List String
  concurrency : Nat
  source : Nat

/-- `worker_page_capacity`; the arguments are settings. -/
def workerPageCapacity (workerInflightByteBudget maxPageBytes : Nat) : Nat :=
  max 1 (workerInflightByteBudget / max 1 maxPageBytes)

theorem one_le_workerPageCapacity (workerInflightByteBudget maxPageBytes : Nat) :
    1 ≤ workerPageCapacity workerInflightByteBudget maxPageBytes :=
  Nat.le_max_left _ _

/-- The generators of `calls` before their start. -/
def PageLoop.initial (capacity : Nat) (calls : List PageCall) : PageLoop β :=
  { value := capacity
    iterators := calls.mapIdx fun id call =>
      { id, urls := call.urls, concurrency := call.concurrency, source := call.source } }

end MangaManager
