import MangaManager.Downloads.OrderedBytes
import MangaManager.Lib.Run

/-!
# Runs of the page generators

Three invariants of `PageLoop`. `Books` holds in every run: what is yielded are the bytes of
the urls in order, and the permits that are free and those with tasks and pages add up.
`Safe` says where the tasks of a generator that still run or hold a permit are: among those
it has not popped, or at its page. A cancellation breaks it when it is raised at an await
whose page is there (`KeepsPages`). `InOrder` says that the tasks of a generator come to the
permits of the worker by index, as long as they pass the limiter so (`PassesInOrder`).
-/

namespace MangaManager

open Lib

variable {β : Type}

namespace PageTask

/-- What the task did with permits fits where it is, and its page is what its url has. -/
structure Kept (body : String → β) (t : PageTask β) : Prop where
  once : t.acquired ≤ 1
  balance : t.released + t.holds.toNat = t.acquired
  fresh : t.isBefore = true ∨ t.isWaiting = true → t.acquired = 0
  content : ∀ c r, t.phase = .page c r → c = body t.url

/-- Through the limiter, and not at an end without a page. -/
def hasEntered (t : PageTask β) : Bool := match t.phase with
  | .waiting _ | .granted | .fetching | .page _ _ => true
  | _ => false

/-- The permit is or was with it. -/
def hasPermit (t : PageTask β) : Bool := match t.phase with
  | .granted | .fetching | .page _ _ => true
  | _ => false

/-- What a task may become, as far as its iterator is concerned. -/
structure Moves (body : String → β) (t t' : PageTask β) : Prop where
  id : t'.id = t.id
  iterator : t'.iterator = t.iterator
  index : t'.index = t.index
  url : t'.url = t.url
  kept : t.Kept body → t'.Kept body
  undone : t'.isDone = false → t.isDone = false ∧ (t.cancelled = true → t'.cancelled = true)
  page : t.isPage = true → t'.isPage = true
  /-- Only a task that is not cancelled ends with a page. -/
  held : t'.isDone = true → t'.holds = true →
    (t.isDone = true ∧ t.holds = true) ∨ (t.isDone = false ∧ t.cancelled = false)

/-- And as far as the order of the permits is. -/
structure Quiet (t t' : PageTask β) : Prop where
  entered : t'.hasEntered = true → t.hasEntered = true
  permit : t'.hasPermit = true → t.hasPermit = true
  waiting : t'.isWaiting = true → t.isWaiting = true ∧ t'.place = t.place
  before : t'.isBefore = true → t.isBefore = true
  cancelled : t.cancelled = true → t'.cancelled = true

section
variable {body : String → β} {t : PageTask β}

theorem moves_windowed (hp : t.phase = .created) : t.Moves body { t with phase := .windowed } ∧
    t.Quiet { t with phase := .windowed } := by
  refine ⟨⟨rfl, rfl, rfl, rfl, fun h => ⟨h.once, ?_, ?_, ?_⟩, ?_, ?_, ?_⟩, ⟨?_, ?_, ?_, ?_, ?_⟩⟩
  all_goals grind [holds, isBefore, isWaiting, isDone, isPage, hasEntered, hasPermit, place, Kept]

theorem moves_waiting (hp : t.phase = .windowed) (place : Nat) :
    t.Moves body { t with phase := .waiting place } := by
  refine ⟨rfl, rfl, rfl, rfl, fun h => ⟨h.once, ?_, ?_, ?_⟩, ?_, ?_, ?_⟩
  all_goals grind [holds, isBefore, isWaiting, isDone, isPage, Kept]

/-- A permit for a task that asks for one. -/
theorem moves_acquired {phase : FetchPhase β} (hp : t.isBefore = true ∨ t.isWaiting = true)
    (hphase : phase = .granted ∨ phase = .fetching) :
    t.Moves body { t with phase := phase, acquired := t.acquired + 1 } := by
  refine ⟨rfl, rfl, rfl, rfl, fun h => ?_, ?_, ?_, ?_⟩
  · have hnone := h.fresh hp
    have hbalance := h.balance
    refine ⟨?_, ?_, ?_, ?_⟩ <;> grind [holds, isBefore, isWaiting]
  all_goals grind [isBefore, isWaiting, isDone, isPage]

theorem moves_fetching (hp : t.phase = .granted) : t.Moves body { t with phase := .fetching } ∧
    t.Quiet { t with phase := .fetching } := by
  refine ⟨⟨rfl, rfl, rfl, rfl, fun h => ⟨h.once, ?_, ?_, ?_⟩, ?_, ?_, ?_⟩, ⟨?_, ?_, ?_, ?_, ?_⟩⟩
  all_goals grind [holds, isBefore, isWaiting, isDone, isPage, hasEntered, hasPermit, place, Kept]

theorem moves_page (hp : t.phase = .fetching) (hc : t.cancelled = false) :
    t.Moves body { t with phase := .page (body t.url) false } ∧
      t.Quiet { t with phase := .page (body t.url) false } := by
  refine ⟨⟨rfl, rfl, rfl, rfl, fun h => ⟨h.once, ?_, ?_, ?_⟩, ?_, ?_, ?_⟩, ⟨?_, ?_, ?_, ?_, ?_⟩⟩
  all_goals grind [holds, isBefore, isWaiting, isDone, isPage, hasEntered, hasPermit, place, Kept]

/-- A task that ends without a page. -/
theorem moves_failed (hp : t.isDone = false) (hh : t.holds = false) :
    t.Moves body { t with phase := .failed } ∧ t.Quiet { t with phase := .failed } := by
  refine ⟨⟨rfl, rfl, rfl, rfl, fun h => ⟨h.once, ?_, ?_, ?_⟩, ?_, ?_, ?_⟩, ⟨?_, ?_, ?_, ?_, ?_⟩⟩
  all_goals grind [holds, isBefore, isWaiting, isDone, isPage, hasEntered, hasPermit, place, Kept]

/-- And gives its permit back. -/
theorem moves_returned (hp : t.isDone = false) (hh : t.holds = true) :
    t.Moves body { t with phase := .failed, released := t.released + 1 } ∧
      t.Quiet { t with phase := .failed, released := t.released + 1 } := by
  refine ⟨⟨rfl, rfl, rfl, rfl, fun h => ⟨h.once, ?_, ?_, ?_⟩, ?_, ?_, ?_⟩, ⟨?_, ?_, ?_, ?_, ?_⟩⟩
  all_goals grind [holds, isBefore, isWaiting, isDone, isPage, hasEntered, hasPermit, place, Kept]

theorem moves_released {content : β} (hp : t.phase = .page content false) :
    t.Moves body { t with phase := .page content true, released := t.released + 1 } ∧
      t.Quiet { t with phase := .page content true, released := t.released + 1 } := by
  refine ⟨⟨rfl, rfl, rfl, rfl, fun h => ⟨h.once, ?_, ?_, ?_⟩, ?_, ?_, ?_⟩, ⟨?_, ?_, ?_, ?_, ?_⟩⟩
  all_goals grind [holds, isBefore, isWaiting, isDone, isPage, hasEntered, hasPermit, place, Kept]

theorem moves_cancelled : t.Moves body { t with cancelled := true } ∧
    t.Quiet { t with cancelled := true } := by
  refine ⟨⟨rfl, rfl, rfl, rfl, fun h => ⟨h.once, ?_, ?_, ?_⟩, ?_, ?_, ?_⟩, ⟨?_, ?_, ?_, ?_, ?_⟩⟩
  all_goals grind [holds, isBefore, isWaiting, isDone, isPage, hasEntered, hasPermit, place, Kept]

end

end PageTask

/-! ## The invariants -/

/-- What a generator yielded, and what its indices are. -/
structure PageIterator.Kept (body : String → β) (x : PageIterator β) : Prop where
  out : x.out = (x.urls.take x.out.length).map body
  bound : x.nextIndex ≤ x.urls.length
  /-- Without concurrency there are no tasks. -/
  alone : x.concurrency ≤ 1 → x.nextIndex = 0
  phase : match x.phase with
    | .idle => x.out = [] ∧ x.nextIndex = 0
    | .awaiting k => x.out.length = k ∧ k < x.urls.length ∧ x.popped = k + 1
    | .yielded k => x.out.length = k + 1 ∧ k < x.urls.length ∧ x.popped = k + 1
    | .gathering _ => True
    | .finished exhausted => exhausted = true → x.out.length = x.urls.length

/-- The books of the permits and the pages. -/
structure PageLoop.Books (body : String → β) (capacity : Nat) (calls : List (Nat × List String))
    (s : PageLoop β) : Prop where
  tasks : Table.Keyed PageTask.id s.tasks
  newTask : ∀ t ∈ s.tasks, t.id < s.nextTask
  iterators : Table.Keyed PageIterator.id s.iterators
  calls : (s.iterators.map fun x => (x.id, x.urls)) = calls
  one : ∀ a ∈ s.tasks, ∀ b ∈ s.tasks, a.iterator = b.iterator → a.index = b.index → a = b
  task : ∀ t ∈ s.tasks, t.Kept body
  owner : ∀ t ∈ s.tasks, ∃ x ∈ s.iterators, x.id = t.iterator ∧ t.index < x.nextIndex ∧
    x.urls[t.index]? = some t.url
  iterator : ∀ x ∈ s.iterators, x.Kept body
  permits : s.value + s.tasks.countP PageTask.holds = capacity

/-- Where a task of a generator is that still runs, or holds a permit. -/
def PageIterator.Safe (x : PageIterator β) (t : PageTask β) : Prop :=
  match x.phase with
  | .idle => True
  | .awaiting k => t.isDone = false ∨ t.holds = true → k ≤ t.index
  | .yielded k => (t.isDone = false ∨ t.holds = true → k ≤ t.index) ∧
      (t.index = k → t.isPage = true)
  | .gathering lost => (t.isDone = false → t.cancelled = true ∧ x.popped ≤ t.index) ∧
      (t.isDone = true → t.holds = true → x.popped ≤ t.index ∧ lost = false)
  | .finished _ => t.isDone = true ∧ t.holds = false

/-- `a` comes to the permits before `b`, unless it is cancelled. -/
structure PageTask.Ahead (a b : PageTask β) : Prop where
  limiter : b.hasEntered = true → a.isBefore = true → a.cancelled = true
  permit : b.hasPermit = true → a.isPending = false
  place : a.isPending = true → b.isPending = true → a.place < b.place

/-- The tasks of a generator come to the permits by index. -/
structure PageLoop.InOrder (s : PageLoop β) : Prop where
  ahead : ∀ a ∈ s.tasks, ∀ b ∈ s.tasks, a.iterator = b.iterator → a.index < b.index → a.Ahead b
  place : ∀ t ∈ s.tasks, t.isWaiting = true → t.place < s.nextPlace

/-- The invariants; those that need a condition on the steps, when it is met. -/
structure PageLoop.Inv (body : String → β) (capacity : Nat) (calls : List (Nat × List String))
    (kept passed : Prop) (s : PageLoop β) : Prop where
  books : s.Books body capacity calls
  safe : kept → ∀ x ∈ s.iterators, ∀ t ∈ s.tasks, t.iterator = x.id → x.Safe t
  order : passed → s.InOrder

section
variable {body : String → β} {capacity : Nat} {calls : List (Nat × List String)}
  {kept passed : Prop} {s s' : PageLoop β} {t t' u : PageTask β} {x x' : PageIterator β}

theorem PageTask.Moves.safe (h : t.Moves body t') (hs : x.Safe t) : x.Safe t' := by
  have hundone := h.undone
  have hheld := h.held
  have hpage := h.page
  have hindex := h.index
  unfold PageIterator.Safe at hs ⊢
  cases hx : x.phase <;> simp only [hx] at hs ⊢ <;> grind

theorem PageTask.Quiet.pending (h : t.Quiet t') (hp : t'.isPending = true) :
    t.isPending = true ∧ t'.place = t.place := by
  simp only [PageTask.isPending, Bool.and_eq_true, Bool.not_eq_true'] at hp ⊢
  obtain ⟨hw, he⟩ := h.waiting hp.1
  refine ⟨⟨hw, Bool.eq_false_iff.mpr fun hc => ?_⟩, he⟩
  rw [h.cancelled hc] at hp
  cases hp.2

theorem PageTask.Quiet.ahead (h : t.Quiet t') (hs : u.Ahead t) : u.Ahead t' where
  limiter he := hs.limiter (h.entered he)
  permit hp := hs.permit (h.permit hp)
  place hu hp := by
    obtain ⟨hp, he⟩ := h.pending hp
    rw [he]
    exact hs.place hu hp

theorem PageTask.Quiet.ahead_of (h : t.Quiet t') (hs : t.Ahead u) : t'.Ahead u where
  limiter he hb := h.cancelled (hs.limiter he (h.before hb))
  permit hp := by
    have hno := hs.permit hp
    rw [Bool.eq_false_iff] at hno ⊢
    exact fun hpending => hno (h.pending hpending).1
  place ht hu := by
    obtain ⟨ht, he⟩ := h.pending ht
    rw [he]
    exact hs.place ht hu

namespace PageLoop

/-- The invariants are about the tables, the value of the semaphore and the ends of the deque and
of the tasks. -/
theorem Inv.congr (h : s.Inv body capacity calls kept passed) (ht : s'.tasks = s.tasks)
    (hi : s'.iterators = s.iterators) (hv : s'.value = s.value) (hn : s'.nextTask = s.nextTask)
    (hp : s'.nextPlace = s.nextPlace) : s'.Inv body capacity calls kept passed := by
  obtain ⟨h1, h2, h3, h4, h5, h6, h7, h8, h9⟩ := h.books
  refine ⟨⟨?_, ?_, ?_, ?_, ?_, ?_, ?_, ?_, ?_⟩, fun hk => ?_, fun hp' => ⟨?_, ?_⟩⟩
  all_goals simp only [ht, hi, hv, hn, hp]
  all_goals
    first | assumption | exact h.safe hk | exact (h.order hp').ahead | exact (h.order hp').place

/-- A task that moves, with the permits that it takes or gives back. -/
theorem Inv.put (h : s.Inv body capacity calls kept passed) (hmem : t ∈ s.tasks)
    (hm : t.Moves body t') (ht : s'.tasks = Table.put PageTask.id s.tasks t')
    (hi : s'.iterators = s.iterators) (hn : s'.nextTask = s.nextTask) (hplace : s.nextPlace ≤ s'.nextPlace)
    (hv : s'.value + t'.holds.toNat = s.value + t.holds.toNat)
    (hwait : passed → t'.isWaiting = true → t'.place < s'.nextPlace)
    (horder : passed → ∀ u ∈ s.tasks, u.iterator = t.iterator →
      (u.index < t.index → u.Ahead t') ∧ (t.index < u.index → t'.Ahead u)) :
    s'.Inv body capacity calls kept passed := by
  have hsafe : ∀ x : PageIterator β, x.Safe t → x.Safe t' := fun _ => hm.safe
  obtain ⟨hid, hiter, hindex, hurl, hkept, -, -, -⟩ := hm
  have hb := h.books
  -- what is in the table now
  have hrows : ∀ u, u ∈ s'.tasks ↔ u = t' ∨ (u ∈ s.tasks ∧ u.id ≠ t.id) := by
    intro u
    rw [ht, Table.mem_put, hid]
    refine or_congr_left (and_iff_left ⟨t, hmem, rfl⟩)
  refine ⟨⟨?_, fun u hu => ?_, hi ▸ hb.iterators, hi ▸ hb.calls,
    fun a ha b hb' hiab hab => ?_, fun u hu => ?_, fun u hu => ?_, hi ▸ hb.iterator, ?_⟩,
    fun hk x hx u hu hux => ?_, fun hp => ⟨fun a ha b hb' hiab hab => ?_, fun u hu huw => ?_⟩⟩
  · rw [ht]
    exact Table.keyed_put.mpr hb.tasks
  · rw [hn]
    rcases (hrows u).mp hu with rfl | ⟨hu, -⟩
    · exact hid ▸ hb.newTask t hmem
    · exact hb.newTask u hu
  · rcases (hrows a).mp ha with rfl | ⟨ha, hane⟩ <;> rcases (hrows b).mp hb' with rfl | ⟨hb', hbne⟩
    · rfl
    · have he := hb.one t hmem b hb' (hiter ▸ hiab) (hindex ▸ hab)
      exact absurd (congrArg PageTask.id he).symm hbne
    · have he := hb.one a ha t hmem (hiter ▸ hiab) (hindex ▸ hab)
      exact absurd (congrArg PageTask.id he) hane
    · exact hb.one a ha b hb' hiab hab
  · rcases (hrows u).mp hu with rfl | ⟨hu, -⟩
    · exact hkept (hb.task t hmem)
    · exact hb.task u hu
  · rw [hi]
    rcases (hrows u).mp hu with rfl | ⟨hu, -⟩
    · rw [hiter, hindex, hurl]
      exact hb.owner t hmem
    · exact hb.owner u hu
  · have hcount := Table.countP_put PageTask.holds hb.tasks hmem hid.symm
    have hpermits := hb.permits
    rw [ht]
    omega
  · rw [hi] at hx
    rcases (hrows u).mp hu with rfl | ⟨hu, -⟩
    · exact hsafe x (h.safe hk x hx t hmem (hiter ▸ hux))
    · exact h.safe hk x hx u hu hux
  · have ho := (h.order hp).ahead
    rcases (hrows a).mp ha with rfl | ⟨ha, hane⟩ <;> rcases (hrows b).mp hb' with rfl | ⟨hb', hbne⟩
    · exact absurd hab (lt_irrefl _)
    · exact (horder hp b hb' (hiter ▸ hiab.symm)).2 (hindex ▸ hab)
    · exact (horder hp a ha (hiter ▸ hiab)).1 (hindex ▸ hab)
    · exact ho a ha b hb' hiab hab
  · rcases (hrows u).mp hu with rfl | ⟨hu, -⟩
    · exact hwait hp huw
    · exact Nat.lt_of_lt_of_le ((h.order hp).place u hu huw) hplace

/-- A task that moves without coming closer to a permit. -/
theorem Inv.put_quiet (h : s.Inv body capacity calls kept passed) (hmem : t ∈ s.tasks)
    (hm : t.Moves body t' ∧ t.Quiet t') (ht : s'.tasks = Table.put PageTask.id s.tasks t')
    (hi : s'.iterators = s.iterators) (hn : s'.nextTask = s.nextTask)
    (hplace : s'.nextPlace = s.nextPlace)
    (hv : s'.value + t'.holds.toNat = s.value + t.holds.toNat) :
    s'.Inv body capacity calls kept passed := by
  refine h.put hmem hm.1 ht hi hn hplace.ge hv (fun hp hw => ?_) fun hp u hu hut =>
    ⟨fun hlt => ?_, fun hlt => ?_⟩
  · obtain ⟨hw, he⟩ := hm.2.waiting hw
    rw [he, hplace]
    exact (h.order hp).place t hmem hw
  · exact hm.2.ahead ((h.order hp).ahead u hu t hmem hut hlt)
  · exact hm.2.ahead_of ((h.order hp).ahead t hmem u hu hut.symm hlt)

/-! ## The semaphore -/

/-- The first of the pending tasks gets the permit. -/
theorem Inv.wakeUpNext (h : s.Inv body capacity calls kept passed) (hv : 0 < s.value) :
    s.wakeUpNext.Inv body capacity calls kept passed := by
  unfold PageLoop.wakeUpNext
  split
  · exact h
  · rename_i t hmin
    obtain ⟨hmem, hpending⟩ := List.mem_filter.mp (List.argmin_mem hmin)
    have hw : t.isWaiting = true := by
      simp only [PageTask.isPending, Bool.and_eq_true] at hpending
      exact hpending.1
    have hno : t.holds = false := by grind [PageTask.isWaiting, PageTask.holds]
    refine h.put hmem (PageTask.moves_acquired (.inr hw) (.inl rfl)) rfl rfl rfl le_rfl ?_
      (fun _ hw' => by simp [PageTask.isWaiting] at hw') fun hp u hu hut =>
        ⟨fun hlt => ?_, fun _ => ?_⟩
    · show s.value - 1 + 1 = s.value + t.holds.toNat
      rw [hno, Bool.toNat_false]
      omega
    · have ho := (h.order hp).ahead u hu t hmem hut hlt
      have hentered : t.hasEntered = true := by grind [PageTask.isWaiting, PageTask.hasEntered]
      refine ⟨fun _ => ho.limiter hentered, fun _ => Bool.eq_false_iff.mpr fun hu' => ?_, ?_⟩
      · have hle : t.place ≤ u.place := List.le_of_mem_argmin (List.mem_filter.mpr ⟨hu, hu'⟩) hmin
        have hplace := ho.place hu' hpending
        omega
      · simp [PageTask.isPending, PageTask.isWaiting]
    · refine ⟨?_, ?_, ?_⟩ <;> simp [PageTask.isPending, PageTask.isWaiting, PageTask.isBefore]

theorem Inv.wakeUpWhile (h : s.Inv body capacity calls kept passed) :
    s.wakeUpWhile.Inv body capacity calls kept passed := by
  unfold PageLoop.wakeUpWhile
  generalize s.value = n
  induction n with
  | zero => exact h
  | succ n ih =>
    rw [Function.iterate_succ_apply']
    split
    · rename_i hv
      exact ih.wakeUpNext hv
    · exact ih

/-- A task that gives its permit back. -/
theorem Inv.put_release (h : s.Inv body capacity calls kept passed) (hmem : t ∈ s.tasks)
    (hm : t.Moves body t' ∧ t.Quiet t') (ht : t.holds = true) (ht' : t'.holds = false) :
    ((s.putTask t').release).Inv body capacity calls kept passed := by
  have hput : ({ s.putTask t' with value := s.value + 1 } : PageLoop β).Inv body capacity calls kept
      passed := by
    refine h.put_quiet hmem hm rfl rfl rfl rfl ?_
    rw [ht, ht']
    rfl
  exact hput.wakeUpNext (Nat.succ_pos s.value)

/-- A task asks for a permit, after those of its generator that come before it. -/
theorem Inv.acquire (h : s.Inv body capacity calls kept passed) (hmem : t ∈ s.tasks)
    (hp : t.phase = .windowed) (hc : t.cancelled = false)
    (hfirst : passed → ∀ u ∈ s.tasks, u.iterator = t.iterator → u.index < t.index →
      u.isBefore = true → u.cancelled = true) :
    (s.acquire t).Inv body capacity calls kept passed := by
  have hb : t.isBefore = true := by simp [PageTask.isBefore, hp]
  have hno : t.holds = false := by simp [PageTask.holds, hp]
  unfold PageLoop.acquire
  split
  · refine h.put hmem (PageTask.moves_waiting hp s.nextPlace) rfl rfl rfl (Nat.le_succ _) ?_
      (fun _ _ => Nat.lt_succ_self _) fun hpassed u hu hut =>
        ⟨fun hlt => ⟨fun _ hub => ?_, ?_, ?_⟩, fun hlt => ?_⟩
    · rw [hno]
      rfl
    · exact hfirst hpassed u hu hut hlt hub
    · simp [PageTask.hasPermit]
    · intro hu' _
      simp only [PageTask.isPending, Bool.and_eq_true] at hu'
      exact (h.order hpassed).place u hu hu'.1
    · -- no later task of the generator is through the limiter
      have hnot : u.hasEntered = false := Bool.eq_false_iff.mpr fun he => by
        have hcancel := ((h.order hpassed).ahead t hmem u hu hut.symm hlt).limiter he hb
        rw [hc] at hcancel
        cases hcancel
      refine ⟨?_, ?_, ?_⟩
      · simp [PageTask.isBefore]
      · grind [PageTask.hasEntered, PageTask.hasPermit]
      · grind [PageTask.hasEntered, PageTask.isPending, PageTask.isWaiting]
  · rename_i hfree
    simp only [PageLoop.locked, Bool.or_eq_true, beq_iff_eq, not_or, List.any_eq_true, not_exists,
      not_and] at hfree
    refine h.put hmem (PageTask.moves_acquired (.inl hb) (.inr rfl)) rfl rfl rfl le_rfl ?_
      (fun _ hw => by simp [PageTask.isWaiting] at hw) fun hpassed u hu hut =>
        ⟨fun hlt => ⟨fun _ hub => ?_, fun _ => ?_, ?_⟩, fun _ => ⟨?_, ?_, ?_⟩⟩
    · show s.value - 1 + 1 = s.value + t.holds.toNat
      rw [hno, Bool.toNat_false]
      omega
    · exact hfirst hpassed u hu hut hlt hub
    · exact Bool.eq_false_iff.mpr (hfree.2 u hu).1
    all_goals simp [PageTask.isPending, PageTask.isWaiting, PageTask.isBefore]

theorem Inv.leaveWindow (h : s.Inv body capacity calls kept passed) (t : PageTask β) :
    (s.leaveWindow t).Inv body capacity calls kept passed :=
  h.congr rfl rfl rfl rfl rfl

theorem Inv.leave (h : s.Inv body capacity calls kept passed) (t : PageTask β) :
    (s.leave t).Inv body capacity calls kept passed :=
  h.congr rfl rfl rfl rfl rfl

/-- A task that ends without a page and without a permit. -/
theorem Inv.put_failed (h : s.Inv body capacity calls kept passed) (hmem : t ∈ s.tasks)
    (hd : t.isDone = false) (hh : t.holds = false) :
    (s.putTask { t with phase := .failed }).Inv body capacity calls kept passed := by
  refine h.put_quiet hmem (PageTask.moves_failed hd hh) rfl rfl rfl rfl ?_
  rw [hh]
  rfl

theorem Inv.stopTask (h : s.Inv body capacity calls kept passed) (hmem : t ∈ s.tasks) :
    (s.stopTask t).Inv body capacity calls kept passed := by
  unfold PageLoop.stopTask
  split
  · rename_i hp
    exact h.put_failed hmem (by simp [PageTask.isDone, hp]) (by simp [PageTask.holds, hp])
  · rename_i hp
    exact (h.put_failed hmem (by simp [PageTask.isDone, hp])
      (by simp [PageTask.holds, hp])).leaveWindow t
  · rename_i hp
    exact (h.put_failed hmem (by simp [PageTask.isDone, hp])
      (by simp [PageTask.holds, hp])).wakeUpWhile.leave t
  · rename_i hp
    have hd : t.isDone = false := by simp [PageTask.isDone, hp]
    have hh : t.holds = true := by simp [PageTask.holds, hp]
    have hput : ({ s.putTask { t with phase := .failed, released := t.released + 1 } with
        value := s.value + 1 } : PageLoop β).Inv body capacity calls kept passed := by
      refine h.put_quiet hmem (PageTask.moves_returned hd hh) rfl rfl rfl rfl ?_
      rw [hh]
      rfl
    exact hput.wakeUpWhile.leave t
  · rename_i hp
    have hd : t.isDone = false := by simp [PageTask.isDone, hp]
    have hh : t.holds = true := by simp [PageTask.holds, hp]
    exact (h.put_release hmem (PageTask.moves_returned hd hh) hh rfl).leave t
  · exact h
  · exact h

theorem Inv.releasePage (h : s.Inv body capacity calls kept passed) (hmem : t ∈ s.tasks) :
    (s.releasePage t).Inv body capacity calls kept passed := by
  unfold PageLoop.releasePage
  split
  · rename_i content hphase
    refine h.put_release hmem (PageTask.moves_released hphase) ?_ rfl
    simp [PageTask.holds, hphase]
  · exact h

/-! ## The generators -/

/-- The generator of a task. -/
theorem Books.owner_eq (h : s.Books body capacity calls) (ht : t ∈ s.tasks) (hx : x ∈ s.iterators)
    (hid : t.iterator = x.id) : t.index < x.nextIndex ∧ x.urls[t.index]? = some t.url := by
  obtain ⟨y, hy, hyid, hlt, hurl⟩ := h.owner t ht
  obtain rfl := h.iterators.eq hy hx (hyid.trans hid)
  exact ⟨hlt, hurl⟩

/-- A generator that goes on. -/
theorem Inv.putIterator (h : s.Inv body capacity calls kept passed) (hx : x ∈ s.iterators)
    (hid : x'.id = x.id) (hurls : x'.urls = x.urls) (hnext : x.nextIndex ≤ x'.nextIndex)
    (hk : x'.Kept body) (hsafe : kept → ∀ t ∈ s.tasks, t.iterator = x.id → x'.Safe t) :
    (s.putIterator x').Inv body capacity calls kept passed := by
  have hb := h.books
  have hrow : ∀ {y}, y ∈ (s.putIterator x').iterators →
      y = x' ∨ (y ∈ s.iterators ∧ y.id ≠ x.id) := by
    intro y hy
    rcases Table.mem_put.mp hy with ⟨rfl, -⟩ | ⟨hy, hne⟩
    · exact .inl rfl
    · exact .inr ⟨hy, hid ▸ hne⟩
  refine ⟨⟨hb.tasks, hb.newTask, Table.keyed_put.mpr hb.iterators,
    (Table.map_put hb.iterators hx hid.symm (by rw [hid, hurls])).trans hb.calls, hb.one, hb.task,
    fun t ht => ?_, fun y hy => ?_, hb.permits⟩, fun hkept y hy t ht hty => ?_,
    fun hp => ⟨(h.order hp).ahead, (h.order hp).place⟩⟩
  · obtain ⟨y, hy, hyid, hlt, hurl⟩ := hb.owner t ht
    by_cases he : y.id = x.id
    · obtain rfl := hb.iterators.eq hy hx he
      exact ⟨x', Table.mem_put_self hy hid.symm, hid.trans hyid, hlt.trans_le hnext, hurls ▸ hurl⟩
    · exact ⟨y, Table.mem_put_of_ne hy (hid ▸ he), hyid, hlt, hurl⟩
  · rcases hrow hy with rfl | ⟨hy, -⟩
    · exact hk
    · exact hb.iterator y hy
  · rcases hrow hy with rfl | ⟨hy, -⟩
    · exact hsafe hkept t ht (hty.trans hid)
    · exact h.safe hkept y hy t ht hty

/-- A new task, after the others of a generator that awaits a page or has yielded one. -/
theorem Inv.spawn (h : s.Inv body capacity calls kept passed) (hx : x ∈ s.iterators)
    (hc : ¬ x.concurrency ≤ 1) {url : String}
    (hurl : x.urls[x.nextIndex]? = some url) {k : Nat}
    (hphase : (x.phase = .awaiting k ∧ k ≤ x.nextIndex) ∨ (x.phase = .yielded k ∧ k < x.nextIndex))
    (ht : s'.tasks = s.tasks ++
      [{ id := s.nextTask, iterator := x.id, index := x.nextIndex, source := x.source, url }])
    (hi : s'.iterators = Table.put PageIterator.id s.iterators
      { x with nextIndex := x.nextIndex + 1 })
    (hv : s'.value = s.value) (hn : s'.nextTask = s.nextTask + 1)
    (hp : s'.nextPlace = s.nextPlace) : s'.Inv body capacity calls kept passed := by
  have hb := h.books
  obtain ⟨hlen, -⟩ := List.getElem?_eq_some_iff.mp hurl
  have hrows : ∀ {u}, u ∈ s'.tasks → u ∈ s.tasks ∨ u =
      { id := s.nextTask, iterator := x.id, index := x.nextIndex, source := x.source, url } := by
    intro u hu
    rw [ht] at hu
    exact (List.mem_append.mp hu).imp_right List.mem_singleton.mp
  -- the indices of the tasks of the generator are below the new one
  have hbelow : ∀ u ∈ s.tasks, u.iterator = x.id → u.index < x.nextIndex := fun u hu hux =>
    (hb.owner_eq hu hx hux).1
  have hrow : ∀ {y}, y ∈ s'.iterators → y = { x with nextIndex := x.nextIndex + 1 } ∨
      (y ∈ s.iterators ∧ y.id ≠ x.id) := by
    intro y hy
    rw [hi] at hy
    rcases Table.mem_put.mp hy with ⟨rfl, -⟩ | hy
    · exact .inl rfl
    · exact .inr hy
  refine ⟨⟨?_, fun u hu => ?_, ?_, ?_, fun a ha b hb' hiab hab => ?_, fun u hu => ?_,
    fun u hu => ?_, fun y hy => ?_, ?_⟩, fun hk y hy u hu hux => ?_,
    fun hpassed => ⟨fun a ha b hb' hiab hab => ?_, fun u hu huw => ?_⟩⟩
  · rw [ht]
    exact Table.keyed_append.mpr ⟨hb.tasks, fun u hu => (hb.newTask u hu).ne⟩
  · rw [hn]
    rcases hrows hu with hu | rfl
    · exact Nat.lt_succ_of_lt (hb.newTask u hu)
    · exact Nat.lt_succ_self _
  · rw [hi]
    exact Table.keyed_put.mpr hb.iterators
  · rw [hi]
    refine (Table.map_put hb.iterators hx ?_ ?_).trans hb.calls <;> rfl
  · rcases hrows ha with ha | rfl <;> rcases hrows hb' with hb' | rfl
    · exact hb.one a ha b hb' hiab hab
    · exact absurd hab (hbelow a ha hiab).ne
    · exact absurd hab.symm (hbelow b hb' hiab.symm).ne
    · rfl
  · rcases hrows hu with hu | rfl
    · exact hb.task u hu
    · refine ⟨Nat.zero_le _, rfl, fun _ => rfl, fun c r hc => ?_⟩
      cases hc
  · rw [hi]
    rcases hrows hu with hu | rfl
    · obtain ⟨y, hy, hyid, hlt, hyurl⟩ := hb.owner u hu
      by_cases he : y.id = x.id
      · obtain rfl := hb.iterators.eq hy hx he
        exact ⟨_, Table.mem_put_self hy rfl, hyid, Nat.lt_succ_of_lt hlt, hyurl⟩
      · exact ⟨y, Table.mem_put_of_ne hy he, hyid, hlt, hyurl⟩
    · exact ⟨_, Table.mem_put_self hx rfl, rfl, Nat.lt_succ_self _, hurl⟩
  · rcases hrow hy with rfl | ⟨hy, -⟩
    · obtain ⟨hout, -, -, hph⟩ := hb.iterator x hx
      refine ⟨hout, hlen, fun hle => absurd hle hc, ?_⟩
      rcases hphase with ⟨he, -⟩ | ⟨he, -⟩ <;> simp only [he] at hph ⊢ <;> exact hph
    · exact hb.iterator y hy
  · rw [ht, hv, List.countP_append]
    exact hb.permits
  · rcases hrow hy with rfl | ⟨hy, hne⟩
    · rcases hrows hu with hu | rfl
      · exact h.safe hk x hx u hu hux
      · rcases hphase with ⟨he, hle⟩ | ⟨he, hlt⟩
        · simp only [PageIterator.Safe, he]
          exact fun _ => hle
        · simp only [PageIterator.Safe, he]
          exact ⟨fun _ => hlt.le, fun heq => absurd heq hlt.ne'⟩
    · rcases hrows hu with hu | rfl
      · exact h.safe hk y hy u hu hux
      · exact absurd hux.symm hne
  · rcases hrows ha with ha | rfl <;> rcases hrows hb' with hb' | rfl
    · exact (h.order hpassed).ahead a ha b hb' hiab hab
    · refine ⟨?_, ?_, ?_⟩
      all_goals
        simp [PageTask.hasEntered, PageTask.hasPermit, PageTask.isPending, PageTask.isWaiting]
    · exact absurd hab (hbelow b hb' hiab.symm).le.not_gt
    · exact absurd hab (lt_irrefl _)
  · rw [hp]
    rcases hrows hu with hu | rfl
    · exact (h.order hpassed).place u hu huw
    · cases huw

end PageLoop

end

end MangaManager
