import MangaManager.Downloads.PageRuns

/-!
# The permits of the page generators

What the steps of a generator keep of `PageLoop.Inv`, and what the runs are good for then: a
generator yields the pages of its urls in order, gives each permit back once until its end,
and never awaits a page behind its own later ones.
-/

namespace MangaManager

open Lib

variable {β : Type}

/-- The page is lost when a cancellation is raised in the generator: it is the one that is awaited,
or one of those that are gathered. -/
def PageIterator.drops (x : PageIterator β) (t : PageTask β) : Bool :=
  t.iterator == x.id && t.isDone && t.holds && match x.phase with
    | .awaiting index => t.index == index
    | .gathering _ => decide (x.popped ≤ t.index)
    | _ => false

/-- No cancellation is raised at an await whose page is there. -/
def PageLoop.keepsPages (s : PageLoop β) : FetchStep → Bool
  | .cancel id => match Table.get PageIterator.id s.iterators id with
    | some x => s.tasks.all fun t => !x.drops t
    | none => true
  | _ => true

/-- No task passes the limiter of its source before an earlier one of its generator. -/
def PageLoop.passesInOrder (s : PageLoop β) : FetchStep → Bool
  | .enter id limit => match Table.get PageTask.id s.tasks id with
    | some t => !decide (s.active t.source < max 1 limit) || s.tasks.all fun u =>
        u.iterator != t.iterator || decide (t.index ≤ u.index) || !u.isBefore || u.cancelled
    | none => true
  | _ => true

namespace PageLoop

section
variable {body : String → β} {capacity : Nat} {calls : List (Nat × List String)}
  {kept passed : Prop} {s s' s'' : PageLoop β}
  {t t' u : PageTask β} {x : PageIterator β} {k : Nat} {ids ids' : List Nat}

/-! ## Filling the window -/

/-- A turn of `fill_window`, when the caller writes the generator at `phase` back. -/
theorem Inv.fillOne {phase : IteratorPhase} {popped : Nat} {out : List β}
    (hx : ∃ y ∈ s.iterators, y.id = x.id) (hc : ¬ x.concurrency ≤ 1)
    (hphase : (phase = .awaiting k ∧ k ≤ x.nextIndex) ∨ (phase = .yielded k ∧ k < x.nextIndex))
    (h : (s.putIterator { x with phase := phase, popped := popped, out := out }).Inv body capacity
      calls kept passed) :
    ((s.fillOne x).1.putIterator
      { (s.fillOne x).2 with phase := phase, popped := popped, out := out }).Inv body capacity calls
        kept passed := by
  unfold PageLoop.fillOne
  split
  · rename_i url hurl
    split
    · obtain ⟨y, hy, hid⟩ := hx
      have hmem : { x with phase := phase, popped := popped, out := out } ∈
          (s.putIterator { x with phase := phase, popped := popped, out := out }).iterators :=
        Table.mem_put_self hy hid
      refine h.spawn hmem hc hurl hphase rfl ?_ rfl rfl rfl
      symm
      exact Table.put_put rfl
    · exact h
  · exact h

/-- What `fill_window` keeps of the generator. -/
theorem fillOne_kept : (s.fillOne x).1.iterators = s.iterators ∧ (s.fillOne x).2.id = x.id ∧
    (s.fillOne x).2.concurrency = x.concurrency ∧ x.nextIndex ≤ (s.fillOne x).2.nextIndex ∧
    (s.fillOne x).2.popped = x.popped ∧ (s.fillOne x).2.out = x.out := by
  unfold PageLoop.fillOne
  split
  · split
    · exact ⟨rfl, rfl, rfl, Nat.le_succ _, rfl, rfl⟩
    · exact ⟨rfl, rfl, rfl, le_rfl, rfl, rfl⟩
  · exact ⟨rfl, rfl, rfl, le_rfl, rfl, rfl⟩

theorem Inv.fillWindow {phase : IteratorPhase} {popped : Nat} {out : List β}
    (hx : ∃ y ∈ s.iterators, y.id = x.id) (hc : ¬ x.concurrency ≤ 1)
    (hphase : (phase = .awaiting k ∧ k ≤ x.nextIndex) ∨ (phase = .yielded k ∧ k < x.nextIndex))
    (h : (s.putIterator { x with phase := phase, popped := popped, out := out }).Inv body capacity
      calls kept passed) :
    ((s.fillWindow x).1.putIterator
      { (s.fillWindow x).2 with phase := phase, popped := popped, out := out }).Inv body capacity
        calls kept passed := by
  unfold PageLoop.fillWindow
  generalize x.urls.length - x.nextIndex = n
  induction n generalizing s x with
  | zero => exact h
  | succ n ih =>
    obtain ⟨hi, hid, hconc, hnext, -, -⟩ := fillOne_kept (s := s) (x := x)
    rw [Function.iterate_succ_apply]
    refine ih (s := (s.fillOne x).1) (x := (s.fillOne x).2) ?_ ?_ ?_ (h.fillOne hx hc hphase)
    · rw [hi, hid]
      exact hx
    · rw [hconc]
      exact hc
    · exact hphase.imp (fun hp => ⟨hp.1, hp.2.trans hnext⟩) fun hp => ⟨hp.1, hp.2.trans_le hnext⟩

theorem fillWindow_kept :
    (s.fillWindow x).2.popped = x.popped ∧ (s.fillWindow x).2.out = x.out := by
  unfold PageLoop.fillWindow
  generalize x.urls.length - x.nextIndex = n
  induction n generalizing s x with
  | zero => exact ⟨rfl, rfl⟩
  | succ n ih =>
    obtain ⟨-, -, -, -, hp, ho⟩ := fillOne_kept (s := s) (x := x)
    rw [Function.iterate_succ_apply]
    obtain ⟨hp', ho'⟩ := ih (s := (s.fillOne x).1) (x := (s.fillOne x).2)
    exact ⟨hp'.trans hp, ho'.trans ho⟩

/-! ## Cancelling -/

/-- Tasks that move on together, without a permit taken or given back. -/
theorem Inv.map_tasks (h : s.Inv body capacity calls kept passed) {g : PageTask β → PageTask β}
    (hm : ∀ t : PageTask β, t.Moves body (g t) ∧ t.Quiet (g t)) (hh : ∀ t, (g t).holds = t.holds) :
    ({ s with tasks := s.tasks.map g } : PageLoop β).Inv body capacity calls kept passed := by
  have hb := h.books
  have hrow : ∀ {u}, u ∈ s.tasks.map g → ∃ t ∈ s.tasks, g t = u := List.mem_map.mp
  refine ⟨⟨hb.tasks.map fun a _ b _ he => (hm a).1.id ▸ (hm b).1.id ▸ he, fun u hu => ?_,
    hb.iterators, hb.calls, fun a ha b hb' hiab hab => ?_, fun u hu => ?_, fun u hu => ?_,
    hb.iterator, ?_⟩, fun hk y hy u hu huy => ?_, fun hp => ⟨fun a ha b hb' hiab hab => ?_, fun u hu huw => ?_⟩⟩
  · obtain ⟨t, ht, rfl⟩ := hrow hu
    exact (hm t).1.id ▸ hb.newTask t ht
  · obtain ⟨a, hta, rfl⟩ := hrow ha
    obtain ⟨b, htb, rfl⟩ := hrow hb'
    rw [(hm a).1.iterator, (hm b).1.iterator] at hiab
    rw [(hm a).1.index, (hm b).1.index] at hab
    exact congrArg g (hb.one a hta b htb hiab hab)
  · obtain ⟨t, ht, rfl⟩ := hrow hu
    exact (hm t).1.kept (hb.task t ht)
  · obtain ⟨t, ht, rfl⟩ := hrow hu
    rw [(hm t).1.iterator, (hm t).1.index, (hm t).1.url]
    exact hb.owner t ht
  · rw [List.countP_map, show PageTask.holds ∘ g = PageTask.holds from funext hh]
    exact hb.permits
  · obtain ⟨t, ht, rfl⟩ := hrow hu
    exact (hm t).1.safe (h.safe hk y hy t ht ((hm t).1.iterator ▸ huy))
  · obtain ⟨a, hta, rfl⟩ := hrow ha
    obtain ⟨b, htb, rfl⟩ := hrow hb'
    rw [(hm a).1.iterator, (hm b).1.iterator] at hiab
    rw [(hm a).1.index, (hm b).1.index] at hab
    exact (hm b).2.ahead ((hm a).2.ahead_of ((h.order hp).ahead a hta b htb hiab hab))
  · obtain ⟨t, ht, rfl⟩ := hrow hu
    obtain ⟨hw, he⟩ := (hm t).2.waiting huw
    exact he ▸ (h.order hp).place t ht hw

theorem Inv.cancelTasks (h : s.Inv body capacity calls kept passed) :
    (s.cancelTasks x).Inv body capacity calls kept passed := by
  refine h.map_tasks (fun t => ?_) fun t => ?_
  · split
    · exact PageTask.moves_cancelled
    · exact ⟨⟨rfl, rfl, rfl, rfl, id, fun hd => ⟨hd, id⟩, id, fun hd hh => .inl ⟨hd, hh⟩⟩,
        ⟨id, id, fun hw => ⟨hw, rfl⟩, id, id⟩⟩
  · split <;> rfl

/-- A task that is left by `cancelTasks`. -/
theorem mem_cancelTasks (hu : u ∈ (s.cancelTasks x).tasks) : ∃ t ∈ s.tasks,
    u.iterator = t.iterator ∧ u.index = t.index ∧ u.isDone = t.isDone ∧ u.holds = t.holds ∧
    (t.iterator = x.id → x.popped ≤ t.index → t.isDone = false → u.cancelled = true) := by
  obtain ⟨t, ht, rfl⟩ := List.mem_map.mp hu
  refine ⟨t, ht, ?_⟩
  split
  · exact ⟨rfl, rfl, rfl, rfl, fun _ _ _ => rfl⟩
  · rename_i hno
    exact ⟨rfl, rfl, rfl, rfl, fun hi hp hd => absurd ⟨hi, hp, hd⟩ hno⟩

/-- A generator comes to its end once nothing is with the page that it is at. -/
theorem Inv.unwind (h : s.Inv body capacity calls kept passed) (hx : x ∈ s.iterators)
    (hphase : x.phase = .awaiting k ∨ x.phase = .yielded k) {exhausted : Bool}
    (hk : kept → ∀ t ∈ s.tasks, t.iterator = x.id → t.index = k → t.isDone = true ∧ t.holds = false)
    (hend : exhausted = true → x.out.length = x.urls.length) :
    (s.unwind x exhausted).Inv body capacity calls kept passed := by
  have hkept := h.books.iterator x hx
  have hpopped : x.popped = k + 1 := by
    have hph := hkept.phase
    rcases hphase with hp | hp <;> simp only [hp] at hph <;> exact hph.2.2
  -- what still runs or holds a permit is not popped
  have hbusy : kept → ∀ t ∈ s.tasks, t.iterator = x.id → (t.isDone = false ∨ t.holds = true) →
      x.popped ≤ t.index := by
    intro hkp t ht htx hb
    have hle : k ≤ t.index := by
      have hsafe := h.safe hkp x hx t ht htx
      rcases hphase with hp | hp <;> simp only [PageIterator.Safe, hp] at hsafe
      · exact hsafe hb
      · exact hsafe.1 hb
    have hne : t.index ≠ k := fun he => by
      obtain ⟨hd, hh⟩ := hk hkp t ht htx he
      rcases hb with hb | hb
      · rw [hd] at hb
        cases hb
      · rw [hh] at hb
        cases hb
    omega
  unfold PageLoop.unwind
  split
  · rename_i hle
    refine h.putIterator hx rfl rfl le_rfl ⟨hkept.out, hkept.bound, hkept.alone, hend⟩
      fun hkp t ht htx => ?_
    have hlt := (h.books.owner_eq ht hx htx).1
    have hfree : ¬ (t.isDone = false ∨ t.holds = true) := fun hb => by
      have hge := hbusy hkp t ht htx hb
      omega
    simp only [not_or, Bool.not_eq_false, Bool.not_eq_true] at hfree
    exact hfree
  · have hcancelled : (s.cancelTasks x).Inv body capacity calls kept passed := h.cancelTasks
    refine hcancelled.putIterator hx rfl rfl le_rfl
      ⟨hkept.out, hkept.bound, hkept.alone, trivial⟩ fun hkp u hu hux => ?_
    obtain ⟨t, ht, hiter, hindex, hdone, hholds, hcancel⟩ := mem_cancelTasks hu
    have hge := hbusy hkp t ht (hiter ▸ hux)
    refine ⟨fun hd => ?_, fun _ hh => ⟨?_, rfl⟩⟩
    · have hle := hge (.inl (hdone ▸ hd))
      exact ⟨hcancel (hiter ▸ hux) hle (hdone ▸ hd), hindex ▸ hle⟩
    · exact hindex ▸ hge (.inr (hholds ▸ hh))

/-! ## Giving pages back -/

/-- The tasks stay; one that is done stays so, and then holds nothing once it holds nothing or is
one of `ids`. -/
def Frees (ids : List Nat) (s s' : PageLoop β) : Prop :=
  ∀ u' ∈ s'.tasks, ∃ u ∈ s.tasks, u'.id = u.id ∧ u'.iterator = u.iterator ∧ u'.index = u.index ∧
    (u.isDone = true → u'.isDone = true ∧ (u.holds = false ∨ u.id ∈ ids → u'.holds = false))

theorem Frees.trans (h : Frees ids s s') (h' : Frees ids' s' s'') : Frees (ids ++ ids') s s'' := by
  intro u'' hu''
  obtain ⟨u', hu', hid', hiter', hindex', hdone'⟩ := h' u'' hu''
  obtain ⟨u, hu, hid, hiter, hindex, hdone⟩ := h u' hu'
  refine ⟨u, hu, hid'.trans hid, hiter'.trans hiter, hindex'.trans hindex, fun hd => ?_⟩
  obtain ⟨hd', hfree⟩ := hdone hd
  obtain ⟨hd'', hfree'⟩ := hdone' hd'
  refine ⟨hd'', fun hor => hfree' ?_⟩
  rcases hor with hh | hm
  · exact .inl (hfree (.inl hh))
  · rcases List.mem_append.mp hm with hm | hm
    · exact .inl (hfree (.inr hm))
    · exact .inr (hid ▸ hm)

/-- Nothing changes, and what is done of `ids` holds nothing. -/
theorem frees_self (h : ∀ u ∈ s.tasks, u.id ∈ ids → u.isDone = true → u.holds = false) :
    Frees ids s s := fun u hu =>
  ⟨u, hu, rfl, rfl, rfl, fun hd => ⟨hd, fun hor => hor.elim id fun hm => h u hu hm hd⟩⟩

theorem frees_wakeUpNext : Frees [] s s.wakeUpNext := by
  unfold PageLoop.wakeUpNext
  split
  · exact frees_self fun _ _ hm => by cases hm
  · rename_i t hmin
    obtain ⟨hmem, hpending⟩ := List.mem_filter.mp (List.argmin_mem hmin)
    intro u' hu'
    rcases Table.mem_put.mp hu' with ⟨rfl, -⟩ | ⟨hu', -⟩
    · refine ⟨t, hmem, rfl, rfl, rfl, fun hd => ?_⟩
      grind [PageTask.isPending, PageTask.isWaiting, PageTask.isDone]
    · refine ⟨u', hu', rfl, rfl, rfl, fun hd => ⟨hd, fun hor => hor.elim id fun hm => ?_⟩⟩
      cases hm

theorem frees_releasePage (hb : s.Books body capacity calls) (ht : t ∈ s.tasks) :
    Frees [t.id] s (s.releasePage t) := by
  have heq : ∀ u ∈ s.tasks, u.id ∈ [t.id] → u = t := fun u hu hm =>
    hb.tasks.eq hu ht (List.mem_singleton.mp hm)
  unfold PageLoop.releasePage
  split
  · rename_i content hphase
    show Frees ([t.id] ++ []) s (PageLoop.wakeUpNext _)
    refine Frees.trans (fun u' hu' => ?_) frees_wakeUpNext
    rcases Table.mem_put.mp hu' with ⟨rfl, -⟩ | ⟨hu', hne⟩
    · exact ⟨t, ht, rfl, rfl, rfl, fun _ => ⟨rfl, fun _ => rfl⟩⟩
    · refine ⟨u', hu', rfl, rfl, rfl, fun hd => ⟨hd, fun hor => hor.elim id fun hm => ?_⟩⟩
      exact absurd (congrArg PageTask.id (heq u' hu' hm)) hne
  · rename_i hno
    refine frees_self fun u hu hm hd => ?_
    obtain rfl := heq u hu hm
    cases hp : u.phase with
    | page content released =>
      cases released with
      | false => exact absurd hp (hno content)
      | true => simp [PageTask.holds, hp]
    | failed => simp [PageTask.holds, hp]
    | _ => simp [PageTask.isDone, hp] at hd

@[simp] theorem wakeUpNext_iterators : s.wakeUpNext.iterators = s.iterators := by
  unfold PageLoop.wakeUpNext
  split <;> rfl

@[simp] theorem releasePage_iterators : (s.releasePage t).iterators = s.iterators := by
  unfold PageLoop.releasePage
  split
  · exact wakeUpNext_iterators
  · rfl

theorem pageOf_eq_some (h : s.pageOf x k = some t) :
    t ∈ s.tasks ∧ t.iterator = x.id ∧ t.index = k := by
  have hp := List.find?_some h
  simp only [Bool.and_eq_true, beq_iff_eq] at hp
  exact ⟨List.mem_of_find?_eq_some h, hp.1, hp.2⟩

theorem pageOf_eq_none (h : s.pageOf x k = none) (ht : t ∈ s.tasks) (hi : t.iterator = x.id) :
    t.index ≠ k := by
  have hp := List.find?_eq_none.mp h t ht
  simp only [Bool.and_eq_true, beq_iff_eq, not_and] at hp
  exact hp hi

/-- The page of a turn, after its `finally`. -/
theorem Inv.givePageBack (h : s.Inv body capacity calls kept passed) (hx : x ∈ s.iterators)
    (hphase : x.phase = .yielded k) : (s.givePageBack x k).Inv body capacity calls kept passed ∧
      (s.givePageBack x k).iterators = s.iterators ∧
      (kept → ∀ t ∈ (s.givePageBack x k).tasks, t.iterator = x.id → t.index = k →
        t.isDone = true ∧ t.holds = false) := by
  unfold PageLoop.givePageBack
  split
  · rename_i t ht
    obtain ⟨hmem, htx, htk⟩ := pageOf_eq_some ht
    refine ⟨h.releasePage hmem, releasePage_iterators, fun hk u' hu' hux huk => ?_⟩
    obtain ⟨u, hu, -, hiter, hindex, hdone⟩ := frees_releasePage h.books hmem u' hu'
    obtain rfl := h.books.one u hu t hmem (by omega) (by omega)
    have hsafe := h.safe hk x hx u hu htx
    simp only [PageIterator.Safe, hphase] at hsafe
    have hpage := hsafe.2 htk
    obtain ⟨hd, hfree⟩ := hdone (by grind [PageTask.isPage, PageTask.isDone])
    exact ⟨hd, hfree (.inr (List.mem_singleton_self _))⟩
  · rename_i hnone
    exact ⟨h, rfl, fun _ t ht htx htk => absurd htk (pageOf_eq_none hnone ht htx)⟩

/-- The pages of `ids` are given back. -/
theorem Inv.foldl_releasePage (h : s.Inv body capacity calls kept passed) (ids : List Nat) :
    let s' := ids.foldl (fun s id => match Table.get PageTask.id s.tasks id with
      | some t => s.releasePage t
      | none => s) s
    s'.Inv body capacity calls kept passed ∧ s'.iterators = s.iterators ∧ Frees ids s s' := by
  induction ids generalizing s with
  | nil => exact ⟨h, rfl, frees_self fun _ _ hm => by cases hm⟩
  | cons id ids ih =>
    rw [List.foldl_cons]
    split
    · rename_i t ht
      have hmem := Table.get_mem ht
      obtain ⟨hinv, hi, hfrees⟩ := ih (h.releasePage hmem)
      have hid : t.id = id := Table.get_key ht
      exact ⟨hinv, hi.trans releasePage_iterators,
        hid ▸ (frees_releasePage h.books hmem).trans hfrees⟩
    · rename_i hnone
      obtain ⟨hinv, hi, hfrees⟩ := ih h
      have hself : Frees [id] s s := frees_self fun u hu hm =>
        absurd (List.mem_singleton.mp hm) (Table.get_eq_none.mp hnone u hu)
      exact ⟨hinv, hi, hself.trans hfrees⟩

/-! ## The steps of a generator -/

/-- What is gathered holds nothing any more. -/
theorem Inv.gathered (h : s.Inv body capacity calls kept passed) (hx : x ∈ s.iterators)
    {lost : Bool} (hphase : x.phase = .gathering lost)
    (hall : ∀ t ∈ s.tasks, t.iterator = x.id → x.popped ≤ t.index → t.isDone = true) :
    ((if lost then s else s.releaseGathered x).putIterator
      { x with phase := .finished false }).Inv body capacity calls kept passed := by
  have hkept := h.books.iterator x hx
  have hend : ({ x with phase := .finished false } : PageIterator β).Kept body :=
    ⟨hkept.out, hkept.bound, hkept.alone, fun hf => by cases hf⟩
  have hdone : kept → ∀ t ∈ s.tasks, t.iterator = x.id → t.isDone = true := by
    intro hk t ht htx
    have hsafe := h.safe hk x hx t ht htx
    simp only [PageIterator.Safe, hphase] at hsafe
    refine Bool.of_not_eq_false fun hd => ?_
    rw [hall t ht htx (hsafe.1 hd).2] at hd
    cases hd
  split
  · rename_i hlost
    refine h.putIterator hx rfl rfl le_rfl hend fun hk t ht htx =>
      ⟨hdone hk t ht htx, ?_⟩
    have hsafe := h.safe hk x hx t ht htx
    simp only [PageIterator.Safe, hphase] at hsafe
    refine Bool.eq_false_iff.mpr fun hh => ?_
    rw [hlost] at hsafe
    cases (hsafe.2 (hdone hk t ht htx) hh).2
  · obtain ⟨hinv, hi, hfrees⟩ := h.foldl_releasePage
      ((s.tasks.filter fun t => t.iterator == x.id && decide (x.popped ≤ t.index)).map PageTask.id)
    have hx' : x ∈ (s.releaseGathered x).iterators := hi ▸ hx
    refine hinv.putIterator hx' rfl rfl le_rfl hend fun hk u' hu' hux => ?_
    obtain ⟨u, hu, hid, hiter, hindex, hstays⟩ := hfrees u' hu'
    have hux' : u.iterator = x.id := hiter.symm.trans hux
    obtain ⟨hd, hfree⟩ := hstays (hdone hk u hu hux')
    refine ⟨hd, hfree ?_⟩
    by_cases hle : x.popped ≤ u.index
    · right
      refine List.mem_map.mpr ⟨u, List.mem_filter.mpr ⟨hu, ?_⟩, rfl⟩
      simp [hux', hle]
    · left
      have hsafe := h.safe hk x hx u hu hux'
      simp only [PageIterator.Safe, hphase] at hsafe
      exact Bool.eq_false_iff.mpr fun hh => hle (hsafe.2 (hdone hk u hu hux') hh).1

theorem Inv.startIterator (h : s.Inv body capacity calls kept passed) (hx : x ∈ s.iterators)
    (hphase : x.phase = .idle) : (s.startIterator x).Inv body capacity calls kept passed := by
  have hkept := h.books.iterator x hx
  have hph := hkept.phase
  simp only [hphase] at hph
  obtain ⟨hout, hnext⟩ := hph
  have hnone : ∀ t ∈ s.tasks, t.iterator ≠ x.id := fun t ht htx => by
    have hlt := (h.books.owner_eq ht hx htx).1
    omega
  unfold PageLoop.startIterator
  split
  · rename_i hurls
    exact h.putIterator hx rfl rfl le_rfl
      ⟨hkept.out, hkept.bound, hkept.alone, fun _ => by simp [hout, hurls]⟩
      fun _ t ht htx => absurd htx (hnone t ht)
  · rename_i hurls
    have hput : (s.putIterator { x with phase := .awaiting 0, popped := 1 }).Inv body capacity calls
        kept passed := by
      refine h.putIterator hx rfl rfl le_rfl ⟨hkept.out, hkept.bound, hkept.alone, ?_, ?_, rfl⟩
        fun _ t ht htx => absurd htx (hnone t ht)
      · exact congrArg List.length hout
      · exact List.length_pos_iff.mpr hurls
    split
    · exact hput
    · rename_i hc
      have hslots : (({ s with slots := Function.update s.slots x.id (max 1 x.concurrency) } :
          PageLoop β).putIterator { x with phase := .awaiting 0, popped := 1, out := x.out }).Inv
            body capacity calls kept passed :=
        hput.congr rfl rfl rfl rfl rfl
      have hrow : ∃ y ∈ ({ s with slots := Function.update s.slots x.id (max 1 x.concurrency) } :
          PageLoop β).iterators, y.id = x.id := ⟨x, hx, rfl⟩
      have hfill := hslots.fillWindow hrow hc (.inl ⟨rfl, Nat.zero_le _⟩)
      rw [← fillWindow_kept.2] at hfill
      exact hfill

/-- The page at `k` goes to the consumer. -/
theorem Inv.yield (h : s.Inv body capacity calls kept passed) (hx : x ∈ s.iterators)
    (hphase : x.phase = .awaiting k) {content : β}
    (hcontent : ∃ url, x.urls[k]? = some url ∧ content = body url)
    (hpage : ∀ t ∈ s.tasks, t.iterator = x.id → t.index = k → t.isPage = true) :
    (s.putIterator { x with phase := .yielded k, out := x.out ++ [content] }).Inv body capacity
      calls kept passed := by
  have hkept := h.books.iterator x hx
  have hph := hkept.phase
  simp only [hphase] at hph
  obtain ⟨hlen, hlt, hpopped⟩ := hph
  obtain ⟨url, hurl, rfl⟩ := hcontent
  refine h.putIterator hx rfl rfl le_rfl ⟨?_, hkept.bound, hkept.alone, ?_, hlt, hpopped⟩
    fun hk t ht htx => ⟨?_, hpage t ht htx⟩
  · show x.out ++ [body url] = (x.urls.take (x.out ++ [body url]).length).map body
    rw [List.length_append, List.length_singleton, List.take_add_one, List.map_append, ← hkept.out,
      hlen, hurl]
    rfl
  · show (x.out ++ [body url]).length = k + 1
    rw [List.length_append, hlen]
    rfl
  · have hsafe := h.safe hk x hx t ht htx
    simp only [PageIterator.Safe, hphase] at hsafe
    exact hsafe

/-- The turn after the page at `k`. -/
theorem Inv.nextPage (h : s.Inv body capacity calls kept passed) (hx : x ∈ s.iterators)
    (hphase : x.phase = .yielded k)
    (hk : kept → ∀ t ∈ s.tasks, t.iterator = x.id → t.index = k →
      t.isDone = true ∧ t.holds = false) :
    (s.nextPage x (k + 1)).Inv body capacity calls kept passed := by
  have hkept := h.books.iterator x hx
  have hph := hkept.phase
  simp only [hphase] at hph
  obtain ⟨hlen, hlt, hpopped⟩ := hph
  unfold PageLoop.nextPage
  split
  · rename_i hlt'
    refine h.putIterator hx rfl rfl le_rfl
      ⟨hkept.out, hkept.bound, hkept.alone, hlen, hlt', rfl⟩ fun hkp t ht htx hbusy => ?_
    have hsafe := h.safe hkp x hx t ht htx
    simp only [PageIterator.Safe, hphase] at hsafe
    have hle := hsafe.1 hbusy
    have hne : t.index ≠ k := fun he => by
      obtain ⟨hd, hh⟩ := hk hkp t ht htx he
      rw [hd, hh] at hbusy
      rcases hbusy with hb | hb <;> cases hb
    omega
  · exact h.unwind hx (.inr hphase) hk fun _ => by omega

/-! ## The steps -/

theorem Inv.taskStep (h : s.Inv body capacity calls kept passed) (ht : t ∈ s.tasks) (l : FetchStep)
    (hl : passed → ∀ id limit, l = .enter id limit → s.active t.source < max 1 limit →
      ∀ u ∈ s.tasks, u.iterator = t.iterator → u.index < t.index → u.isBefore = true →
        u.cancelled = true) : (s.taskStep body t l).Inv body capacity calls kept passed := by
  cases l with
  | slot id =>
    simp only [PageLoop.taskStep]
    split
    · rename_i hphase
      split
      · refine h.put_quiet ht (PageTask.moves_windowed hphase) rfl rfl rfl rfl ?_
        simp only [PageTask.holds, hphase]
        rfl
      · exact h
    · exact h
  | enter id limit =>
    simp only [PageLoop.taskStep]
    split
    · rename_i hphase
      split
      · rename_i hfree
        refine Inv.acquire (h.congr rfl rfl rfl rfl rfl) ht hphase hfree.1 ?_
        exact fun hp => hl hp id limit rfl hfree.2
      · exact h
    · exact h
  | wake id =>
    simp only [PageLoop.taskStep]
    split
    · rename_i hphase
      split
      · exact h
      · have hput : (s.putTask { t with phase := .fetching }).Inv body capacity calls kept
            passed := by
          refine h.put_quiet ht (PageTask.moves_fetching hphase) rfl rfl rfl rfl ?_
          simp only [PageTask.holds, hphase]
          rfl
        exact hput.wakeUpWhile
    · exact h
  | respond id =>
    simp only [PageLoop.taskStep]
    split
    · rename_i hphase
      split
      · exact h
      · rename_i hc
        have hput : (s.putTask { t with phase := .page (body t.url) false }).Inv body capacity calls
            kept passed := by
          refine h.put_quiet ht (PageTask.moves_page hphase (by simpa using hc)) rfl rfl rfl rfl ?_
          simp only [PageTask.holds, hphase]
          rfl
        exact hput.leave t
    · exact h
  | fail id =>
    simp only [PageLoop.taskStep]
    split
    · rename_i hphase
      split
      · exact h
      · have hd : t.isDone = false := by simp [PageTask.isDone, hphase]
        have hh : t.holds = true := by simp [PageTask.holds, hphase]
        exact (h.put_release ht (PageTask.moves_returned hd hh) hh rfl).leave t
    · exact h
  | stop id =>
    simp only [PageLoop.taskStep]
    split
    · exact h.stopTask ht
    · exact h
  | _ => exact h

/-- Nothing is with a page that is not there. -/
theorem Inv.no_page (hnone : s.pageOf x k = none) : kept → ∀ t ∈ s.tasks, t.iterator = x.id →
    t.index = k → t.isDone = true ∧ t.holds = false :=
  fun _ _ ht htx htk => absurd htk (pageOf_eq_none hnone ht htx)

theorem Inv.iteratorStep (h : s.Inv body capacity calls kept passed) (hx : x ∈ s.iterators)
    (l : FetchStep) (hl : kept → ∀ id, l = .cancel id → ∀ t ∈ s.tasks, x.drops t = false) :
    (s.iteratorStep body x l).Inv body capacity calls kept passed := by
  have hkept := h.books.iterator x hx
  cases l with
  | start id =>
    simp only [PageLoop.iteratorStep]
    split
    · rename_i hphase
      exact h.startIterator hx hphase
    · exact h
  | resume id =>
    simp only [PageLoop.iteratorStep]
    split
    · rename_i k hphase
      split
      · rename_i t ht
        obtain ⟨hmem, htx, htk⟩ := pageOf_eq_some ht
        have hone : ∀ u ∈ s.tasks, u.iterator = x.id → u.index = k → u = t := fun u hu hux huk =>
          h.books.one u hu t hmem (by omega) (by omega)
        obtain ⟨hlt, hurl⟩ := h.books.owner_eq hmem hx htx
        split
        · rename_i content released htp
          have hcontent := (h.books.task t hmem).content content released htp
          have hyield := h.yield hx hphase ⟨t.url, htk ▸ hurl, hcontent⟩ fun u hu hux huk => by
            rw [hone u hu hux huk]
            simp [PageTask.isPage, htp]
          have hc : ¬ x.concurrency ≤ 1 := fun hc => by
            have hnext := hkept.alone hc
            omega
          have hfill := hyield.fillWindow ⟨x, hx, rfl⟩ hc (.inr ⟨rfl, htk ▸ hlt⟩)
          rw [← fillWindow_kept.1, ← fillWindow_kept.2] at hfill
          exact hfill
        · rename_i htp
          refine h.unwind hx (.inl hphase) (fun _ u hu hux huk => ?_) fun hf => by cases hf
          rw [hone u hu hux huk]
          simp [PageTask.isDone, PageTask.holds, htp]
        · exact h
      · exact h
    · exact h
  | answer id =>
    simp only [PageLoop.iteratorStep]
    split
    · rename_i k hphase
      split
      · rename_i hc
        split
        · rename_i url hurl
          refine h.yield hx hphase ⟨url, hurl, rfl⟩ fun t ht htx _ => ?_
          have hlt := (h.books.owner_eq ht hx htx).1
          have hnext := hkept.alone hc
          omega
        · exact h
      · exact h
    · exact h
  | refuse id =>
    simp only [PageLoop.iteratorStep]
    split
    · rename_i k hphase
      split
      · rename_i hc
        refine h.unwind hx (.inl hphase) (fun _ t ht htx _ => ?_) fun hf => by cases hf
        have hlt := (h.books.owner_eq ht hx htx).1
        have hnext := hkept.alone hc
        omega
      · exact h
    · exact h
  | next id =>
    simp only [PageLoop.iteratorStep]
    split
    · rename_i k hphase
      obtain ⟨hinv, hi, hback⟩ := h.givePageBack hx hphase
      exact hinv.nextPage (hi ▸ hx) hphase hback
    · exact h
  | close id =>
    simp only [PageLoop.iteratorStep]
    split
    · rename_i hphase
      have hph := hkept.phase
      simp only [hphase] at hph
      refine h.putIterator hx rfl rfl le_rfl
        ⟨hkept.out, hkept.bound, hkept.alone, fun hf => by cases hf⟩ fun _ t ht htx => ?_
      have hlt := (h.books.owner_eq ht hx htx).1
      omega
    · rename_i k hphase
      obtain ⟨hinv, hi, hback⟩ := h.givePageBack hx hphase
      exact hinv.unwind (hi ▸ hx) (.inr hphase) hback fun hf => by cases hf
    · exact h
  | gather id =>
    simp only [PageLoop.iteratorStep]
    split
    · rename_i lost hphase
      split
      · rename_i hall
        refine h.gathered hx hphase fun t ht htx hle => ?_
        have hor := List.all_eq_true.mp hall t ht
        simp only [htx, bne_self_eq_false, Bool.false_or, Bool.or_eq_true, decide_eq_true_eq] at hor
        exact hor.resolve_left (by omega)
      · exact h
    · exact h
  | cancel id =>
    simp only [PageLoop.iteratorStep]
    split
    · rename_i k hphase
      split
      · rename_i t ht
        obtain ⟨hmem, htx, htk⟩ := pageOf_eq_some ht
        split
        · rename_i hd
          refine h.unwind hx (.inl hphase) (fun hk u hu hux huk => ?_) fun hf => by cases hf
          obtain rfl := h.books.one u hu t hmem (by omega) (by omega)
          have hno := hl hk id rfl u hu
          simp only [PageIterator.drops, hphase, htx, htk, hd, beq_self_eq_true, Bool.and_true,
            Bool.true_and] at hno
          exact ⟨hd, hno⟩
        · exact h.put_quiet hmem PageTask.moves_cancelled rfl rfl rfl rfl rfl
      · rename_i hnone
        exact h.unwind hx (.inl hphase) (Inv.no_page hnone) fun hf => by cases hf
    · rename_i lost hphase
      refine h.putIterator hx rfl rfl le_rfl
        ⟨hkept.out, hkept.bound, hkept.alone, trivial⟩ fun hk t ht htx => ?_
      have hsafe := h.safe hk x hx t ht htx
      simp only [PageIterator.Safe, hphase] at hsafe
      refine ⟨hsafe.1, fun hd hh => ?_⟩
      have hno := hl hk id rfl t ht
      simp [PageIterator.drops, hphase, htx, hd, hh, (hsafe.2 hd hh).1] at hno
    · exact h
  | _ => exact h

theorem Inv.step (h : s.Inv body capacity calls kept passed) (l : FetchStep)
    (hk : kept → s.keepsPages l = true) (hp : passed → s.passesInOrder l = true) :
    (s.step body l).Inv body capacity calls kept passed := by
  cases l with
  | enter id limit =>
    simp only [PageLoop.step]
    split
    · rename_i t ht
      have hmem := Table.get_mem ht
      refine h.taskStep hmem _ fun hpassed id' limit' he hfree u hu hut hlt hb => ?_
      cases he
      have hall := hp hpassed
      simp only [PageLoop.passesInOrder, ht, hfree, decide_true, Bool.not_true, Bool.false_or,
        List.all_eq_true] at hall
      have hor := hall u hu
      simp only [hut, hb, bne_self_eq_false, Bool.false_or, Bool.not_true, Bool.or_false,
        Bool.or_eq_true, decide_eq_true_eq] at hor
      exact hor.resolve_left (by omega)
    · exact h
  | slot id | wake id | respond id | fail id | stop id =>
    simp only [PageLoop.step]
    split
    · rename_i t ht
      exact h.taskStep (Table.get_mem ht) _ fun _ _ _ he => by cases he
    · exact h
  | cancel id =>
    simp only [PageLoop.step]
    split
    · rename_i x hx
      refine h.iteratorStep (Table.get_mem hx) _ fun hkept id' he t ht => ?_
      cases he
      have hall := hk hkept
      simp only [PageLoop.keepsPages, hx, List.all_eq_true, Bool.not_eq_true'] at hall
      exact hall t ht
    · exact h
  | start id | resume id | answer id | refuse id | next id | close id | gather id =>
    simp only [PageLoop.step]
    split
    · rename_i x hx
      exact h.iteratorStep (Table.get_mem hx) _ fun _ _ he => by cases he
    · exact h

theorem inv_initial (capacity : Nat) (calls : List PageCall) (body : String → β)
    (kept passed : Prop) :
    (PageLoop.initial capacity calls : PageLoop β).Inv body capacity
      (calls.mapIdx fun id call => (id, call.urls)) kept passed := by
  have hrow : ∀ x ∈ (PageLoop.initial capacity calls : PageLoop β).iterators,
      x.phase = .idle ∧ x.out = [] ∧ x.nextIndex = 0 := by
    intro x hx
    obtain ⟨i, hi, rfl⟩ := List.mem_mapIdx.mp hx
    exact ⟨rfl, rfl, rfl⟩
  refine ⟨⟨List.nodup_nil, fun t ht => ?_, ?_, ?_, fun t ht => ?_, fun t ht => ?_, fun t ht => ?_,
    fun x hx => ?_, rfl⟩, fun _ x _ t ht => ?_, fun _ => ⟨fun t ht => ?_, fun t ht => ?_⟩⟩
  · cases ht
  · have hids : (PageLoop.initial capacity calls : PageLoop β).iterators.map PageIterator.id =
        List.range calls.length :=
      List.ext_getElem (by simp [PageLoop.initial]) (by simp [PageLoop.initial])
    rw [Table.Keyed, hids]
    exact List.nodup_range
  · exact List.ext_getElem (by simp [PageLoop.initial]) (by simp [PageLoop.initial])
  · cases ht
  · cases ht
  · cases ht
  · obtain ⟨hp, ho, hn⟩ := hrow x hx
    refine ⟨by simp [ho], by omega, fun _ => hn, ?_⟩
    simp only [hp]
    exact ⟨ho, hn⟩
  · cases ht
  · cases ht
  · cases ht

end

end PageLoop

/-! ## The runs -/

/-- It asks for a permit that it does not have. -/
def PageTask.needsPermit (t : PageTask β) : Bool := (t.isBefore || t.isWaiting) && !t.cancelled

/-- The task's permit went back as often as it was taken, which is once at most. -/
structure PageTask.Settled (t : PageTask β) : Prop where
  done : t.isDone = true
  once : t.acquired ≤ 1
  back : t.released = t.acquired

/-- The generator yielded the first of its pages; all of them when its loop came to the end. -/
structure PageIterator.Ordered (body : String → β) (urls : List String) (x : PageIterator β) :
    Prop where
  first : x.out <+: urls.map body
  all : x.phase = .finished true → x.out = urls.map body

/-- The consumer awaits a page before the task, and that page needs a permit. -/
def PageLoop.Behind (s : PageLoop β) (t : PageTask β) : Prop :=
  ∃ x ∈ s.iterators, ∃ u ∈ s.tasks, x.phase = .awaiting u.index ∧ u.iterator = x.id ∧
    u.needsPermit = true ∧ t.iterator = x.id ∧ u.index < t.index

instance (s : PageLoop β) (t : PageTask β) : Decidable (s.Behind t) :=
  inferInstanceAs (Decidable (∃ x ∈ s.iterators, ∃ u ∈ s.tasks, _))

/-- All permits are with finished pages behind one that needs a permit. -/
structure PageLoop.Wedged (s : PageLoop β) : Prop where
  none : s.value = 0
  behind : ∀ t ∈ s.tasks, t.holds = true → t.isPage = true ∧ s.Behind t

section
variable {body : String → β} {capacity : Nat} {calls : List (Nat × List String)}
  {kept passed : Prop} {s : PageLoop β} {t : PageTask β} {x : PageIterator β}

theorem PageIterator.Kept.ordered (h : x.Kept body) : x.Ordered body x.urls := by
  refine ⟨?_, fun hp => ?_⟩
  · rw [h.out, List.map_take]
    exact List.take_prefix _ _
  · have hlen := h.phase
    simp only [hp] at hlen
    rw [h.out, hlen trivial, List.take_length]

namespace PageLoop

theorem Inv.settled (h : s.Inv body capacity calls kept passed) (hk : kept) (hx : x ∈ s.iterators)
    {exhausted : Bool} (hphase : x.phase = .finished exhausted) (ht : t ∈ s.tasks)
    (htx : t.iterator = x.id) : t.Settled := by
  have hsafe := h.safe hk x hx t ht htx
  simp only [PageIterator.Safe, hphase] at hsafe
  have hkept := h.books.task t ht
  have hbalance := hkept.balance
  rw [hsafe.2] at hbalance
  exact ⟨hsafe.1, hkept.once, hbalance⟩

/-- Some task has a permit, and no earlier one of its generator asks for it. -/
theorem Inv.not_wedged (h : s.Inv body capacity calls kept passed) (hp : passed)
    (hc : 1 ≤ capacity) : ¬ s.Wedged := by
  intro hw
  have hpermits := h.books.permits
  rw [hw.none, Nat.zero_add] at hpermits
  obtain ⟨t, ht, hholds⟩ := List.countP_pos_iff.mp (by omega : 0 < s.tasks.countP PageTask.holds)
  obtain ⟨hpage, x, hx, u, hu, -, hux, hneeds, htx, hlt⟩ := hw.behind t ht hholds
  have hahead := (h.order hp).ahead u hu t ht (hux.trans htx.symm) hlt
  have hentered := hahead.limiter (by grind [PageTask.isPage, PageTask.hasEntered])
  have hpermit := hahead.permit (by grind [PageTask.isPage, PageTask.hasPermit])
  simp only [PageTask.needsPermit, Bool.and_eq_true, Bool.or_eq_true, Bool.not_eq_true'] at hneeds
  obtain ⟨hb | hb, hc⟩ := hneeds
  · rw [hentered hb] at hc
    cases hc
  · simp [PageTask.isPending, hb, hc] at hpermit

/-- Every generator yields its pages in order; it gives each permit back once until its end, when no
cancellation is raised at an await whose page is there; and its consumer does not await a page
behind the later ones, when they come to the limiter in order. -/
theorem iterOrderedBytes_run {body : String → β} {capacity : Nat} {calls : List PageCall}
    {tr : List (PageLoop β × FetchStep)} {s : PageLoop β} (hc : 1 ≤ capacity)
    (h : Run (FetchSteps body) (PageLoop.initial capacity calls) tr s) :
    (∀ s', Run.Visits tr s s' → ∀ x ∈ s'.iterators, ∃ call, calls[x.id]? = some call ∧
      x.Ordered body call.urls) ∧
    (Run.Meets (fun s l => s.keepsPages l = true) tr → ∀ s', Run.Visits tr s s' →
      ∀ x ∈ s'.iterators, ∀ exhausted, x.phase = .finished exhausted →
        ∀ t ∈ s'.tasks, t.iterator = x.id → t.Settled) ∧
    (Run.Meets (fun s l => s.passesInOrder l = true) tr → ∀ s', Run.Visits tr s s' →
      ¬ s'.Wedged) := by
  have hinv : ∀ s', Run.Visits tr s s' → s'.Inv body capacity
      (calls.mapIdx fun id call => (id, call.urls))
      (Run.Meets (fun s l => s.keepsPages l = true) tr)
      (Run.Meets (fun s l => s.passesInOrder l = true) tr) := by
    refine h.invariant_visits (C := fun s l =>
      (Run.Meets (fun s l => s.keepsPages l = true) tr → s.keepsPages l = true) ∧
      (Run.Meets (fun s l => s.passesInOrder l = true) tr → s.passesInOrder l = true))
      (fun p hp => ⟨fun hk => hk p hp, fun hk => hk p hp⟩) (inv_initial capacity calls body _ _) ?_
    rintro s l s' ⟨hk, hp⟩ hs rfl
    exact hs.step l hk hp
  refine ⟨fun s' hs x hx => ?_, fun hk s' hs x hx e he t ht htx => ?_, fun hp s' hs => ?_⟩
  · have hb := (hinv s' hs).books
    have hmem : (x.id, x.urls) ∈ calls.mapIdx fun id call => (id, call.urls) := by
      rw [← hb.calls]
      exact List.mem_map.mpr ⟨x, hx, rfl⟩
    obtain ⟨i, hi, he⟩ := List.mem_mapIdx.mp hmem
    obtain ⟨hid, hurls⟩ := Prod.mk.injEq .. ▸ he
    refine ⟨calls[i], ?_, hurls ▸ (hb.iterator x hx).ordered⟩
    rw [← hid]
    exact List.getElem?_eq_getElem hi
  · exact (hinv s' hs).settled hk hx he ht htx
  · exact (hinv s' hs).not_wedged hp hc

end PageLoop

end

/-! ## Two generators of one run each -/

/-- Four pages, three at a time. -/
def fourPages : PageCall := { urls := ["1", "2", "3", "4"], concurrency := 3, source := 0 }

def PageLoop.after (capacity : Nat) (steps : List FetchStep) : PageLoop String :=
  steps.foldl (fun s l => s.step id l) (PageLoop.initial capacity [fourPages])

theorem PageLoop.run_after (capacity : Nat) (steps : List FetchStep) :
    Run (FetchSteps id) (PageLoop.initial capacity [fourPages])
      (Run.history (fun s l => s.step id l) (PageLoop.initial capacity [fourPages]) steps)
      (PageLoop.after capacity steps) :=
  Run.of_foldl _ steps fun _ _ => rfl

/-- Closed after its first page, while the second is there. -/
def closedSteps : List FetchStep :=
  [.start 0, .slot 0, .enter 0 1, .respond 0, .resume 0, .slot 1, .enter 1 3, .respond 1,
    .close 0, .stop 1, .stop 2, .stop 3, .gather 0]

theorem iterOrderedBytes_run_closed :
    (∀ t ∈ (PageLoop.after (workerPageCapacity 50 25) closedSteps).tasks, t.Settled) ∧
      ¬ (PageLoop.after (workerPageCapacity 50 25) closedSteps).Wedged := by
  have hrun := PageLoop.iterOrderedBytes_run (one_le_workerPageCapacity 50 25)
    (PageLoop.run_after (workerPageCapacity 50 25) closedSteps)
  obtain ⟨-, hsettled, hwedged⟩ := hrun
  have hkept := hsettled (fun p hp => List.all_eq_true.mp (by decide +kernel :
    ((Run.history (fun s l => s.step id l) (PageLoop.initial (workerPageCapacity 50 25) [fourPages])
      closedSteps).all fun p => p.1.keepsPages p.2) = true) p hp)
  have hpassed := hwedged (fun p hp => List.all_eq_true.mp (by decide +kernel :
    ((Run.history (fun s l => s.step id l) (PageLoop.initial (workerPageCapacity 50 25) [fourPages])
      closedSteps).all fun p => p.1.passesInOrder p.2) = true) p hp)
  refine ⟨fun t ht => ?_, hpassed _ Run.visits_last⟩
  have hends : ∃ x ∈ (PageLoop.after (workerPageCapacity 50 25) closedSteps).iterators,
      x.phase = .finished false ∧
        ∀ t ∈ (PageLoop.after (workerPageCapacity 50 25) closedSteps).tasks, t.iterator = x.id := by
    decide +kernel
  obtain ⟨x, hx, hphase, hall⟩ := hends
  exact hkept _ Run.visits_last x hx false hphase t ht (hall t ht)

/-- The consumer is cancelled at its first `await task` when the page is there. -/
def cancelledSteps : List FetchStep :=
  [.start 0, .slot 0, .enter 0 1, .respond 0, .cancel 0, .stop 1, .stop 2, .gather 0]

/-- The limit of the source goes from one to three, and the fourth page passes the third. -/
def overtakenSteps : List FetchStep :=
  [.start 0, .slot 0, .slot 1, .slot 2, .enter 0 1, .respond 0, .enter 1 1, .resume 0, .slot 3,
    .enter 3 3, .next 0, .wake 1, .respond 1, .enter 2 3, .resume 0, .next 0, .wake 3, .respond 3]

/-- A permit that is lost with the generator that took it, and a consumer that awaits a page behind
a later one. -/
theorem iterOrderedBytes_lost_or_wedged :
    (∃ tr s, Run (FetchSteps id) (PageLoop.initial 1 [fourPages]) tr s ∧ ∃ x ∈ s.iterators,
      x.phase = .finished false ∧ ∃ t ∈ s.tasks, t.iterator = x.id ∧ ¬ t.Settled) ∧
    ∃ tr s, Run (FetchSteps id) (PageLoop.initial 1 [fourPages]) tr s ∧ s.Wedged := by
  refine ⟨⟨_, _, PageLoop.run_after 1 cancelledSteps, ?_⟩,
    ⟨_, _, PageLoop.run_after 1 overtakenSteps, ?_⟩⟩
  · have hlost : ∃ x ∈ (PageLoop.after 1 cancelledSteps).iterators, x.phase = .finished false ∧
        ∃ t ∈ (PageLoop.after 1 cancelledSteps).tasks, t.iterator = x.id ∧ t.acquired = 1 ∧
          t.released = 0 := by
      decide +kernel
    obtain ⟨x, hx, hphase, t, ht, htx, hacquired, hreleased⟩ := hlost
    refine ⟨x, hx, hphase, t, ht, htx, fun hs => ?_⟩
    have hback := hs.back
    omega
  · exact ⟨by decide +kernel, by decide +kernel⟩

end MangaManager
