import MangaManager.Queue.RefreshWork

/-!
# What a pass of the refresh queue keeps

`pass_keeps_iff`: a pass leaves the newest observation of every series with one of its jobs, and a
second pass changes nothing, exactly when the newest observation of each series is in a slot
that survives (`NewestStays`) and the rows come to rest (`Rests`). A pending payload of a job that
is cancelled, or that gets its own payload as the pending one, is not kept, and an older request
that is acquisition-critical displaces a newer one that is not.
-/

namespace MangaManager

open Lib

/-! ## The payload that is left of some requests -/

/-- The requests `ps` for a job with `p`, one after another. -/
def winner (p : JobPayload) (ps : List JobPayload) : JobPayload :=
  ps.foldl (fun cur q => if shouldCoalesce .sourceRefresh cur q then q else cur) p

/-- The payloads of one observation, equally urgent. -/
structure SameObservation (p q : JobPayload) : Prop where
  observed : p.observed = q.observed
  critical : p.acquisitionCritical = q.acquisitionCritical

/-- `m` is in the list, and no urgent request that comes later displaces it. -/
def Stands (m : Dec.Value) (ps : List JobPayload) : Prop :=
  ∃ pre q post, ps = pre ++ q :: post ∧ q.observed = some m ∧
    (q.acquisitionCritical = true ∨ ∀ r ∈ post, r.acquisitionCritical = false)

section
variable {p q r : JobPayload} {ps qs : List JobPayload} {m : Dec.Value}

theorem SameObservation.refl (p : JobPayload) : SameObservation p p := ⟨rfl, rfl⟩

theorem sameObservation_normalized (p : JobPayload) : SameObservation p.normalized p :=
  ⟨p.normalized_fields.2.2.1, p.normalized_fields.2.2.2.1⟩

theorem winner_cons : winner p (r :: ps) =
    winner (if shouldCoalesce .sourceRefresh p r then r else p) ps := rfl

theorem winner_append : winner p (ps ++ qs) = winner (winner p ps) qs := List.foldl_append

theorem winner_mem (p : JobPayload) (ps : List JobPayload) :
    winner p ps = p ∨ winner p ps ∈ ps := by
  induction ps generalizing p with
  | nil => exact .inl rfl
  | cons r ps ih =>
    rw [winner_cons]
    split
    · refine .inr ?_
      rcases ih r with h | h
      · rw [h]
        exact List.mem_cons_self
      · exact List.mem_cons_of_mem _ h
    · exact (ih p).imp_right (List.mem_cons_of_mem _)

theorem winner_observed (hp : p.observed.isSome = true)
    (hps : ∀ r ∈ ps, r.observed.isSome = true) : (winner p ps).observed.isSome = true := by
  induction ps generalizing p with
  | nil => exact hp
  | cons r ps ih =>
    rw [winner_cons]
    refine ih ?_ fun x hx => hps x (List.mem_cons_of_mem _ hx)
    split
    · exact hps r List.mem_cons_self
    · exact hp

theorem winner_congr (h : SameObservation p q) (hp : p.observed.isSome = true)
    (hps : ∀ r ∈ ps, r.observed.isSome = true) :
    SameObservation (winner p ps) (winner q ps) := by
  induction ps generalizing p q with
  | nil => exact h
  | cons r ps ih =>
    obtain ⟨v, hv⟩ := Option.isSome_iff_exists.mp hp
    obtain ⟨w, hw⟩ := Option.isSome_iff_exists.mp (hps r List.mem_cons_self)
    have hsc : shouldCoalesce .sourceRefresh p r = shouldCoalesce .sourceRefresh q r := by
      rw [shouldCoalesce_observed hv hw, shouldCoalesce_observed (h.observed ▸ hv) hw, h.critical]
    rw [winner_cons, winner_cons, ← hsc]
    split
    · exact ih (.refl r) (hps r List.mem_cons_self) fun x hx => hps x (List.mem_cons_of_mem _ hx)
    · exact ih h hp fun x hx => hps x (List.mem_cons_of_mem _ hx)

/-- An urgent payload of the newest observation is not displaced. -/
theorem winner_critical (hp : p.observed = some m) (hc : p.acquisitionCritical = true)
    (hle : ∀ r ∈ ps, ∃ v, r.observed = some v ∧ v ≤ m) : winner p ps = p := by
  induction ps with
  | nil => rfl
  | cons r ps ih =>
    obtain ⟨v, hv, hvm⟩ := hle r List.mem_cons_self
    rw [winner_cons, shouldCoalesce_observed hp hv, if_neg (by simp [hc, not_lt.mpr hvm])]
    exact ih fun x hx => hle x (List.mem_cons_of_mem _ hx)

theorem stands_cons : Stands m (p :: ps) ↔
    (p.observed = some m ∧ (p.acquisitionCritical = true ∨
      ∀ r ∈ ps, r.acquisitionCritical = false)) ∨ Stands m ps := by
  constructor
  · rintro ⟨pre, q, post, heq, hq, hc⟩
    cases pre with
    | nil =>
      obtain ⟨rfl, rfl⟩ := List.cons.inj heq
      exact .inl ⟨hq, hc⟩
    | cons a pre =>
      obtain ⟨rfl, rfl⟩ := List.cons.inj heq
      exact .inr ⟨pre, q, post, rfl, hq, hc⟩
  · rintro (⟨hq, hc⟩ | ⟨pre, q, post, rfl, hq, hc⟩)
    · exact ⟨[], p, ps, rfl, hq, hc⟩
    · exact ⟨p :: pre, q, post, rfl, hq, hc⟩

/-- What is left is the newest, where the newest stands. -/
theorem winner_newest_iff (hp : ∃ v, p.observed = some v ∧ v ≤ m)
    (hle : ∀ r ∈ ps, ∃ v, r.observed = some v ∧ v ≤ m) :
    (winner p ps).observed = some m ↔ Stands m (p :: ps) := by
  induction ps generalizing p with
  | nil =>
    rw [stands_cons]
    constructor
    · exact fun h => .inl ⟨h, .inr fun r hr => (by cases hr)⟩
    · rintro (h | ⟨pre, q, post, heq, -⟩)
      · exact h.1
      · cases pre <;> cases heq
  | cons r ps ih =>
    obtain ⟨v, hv, hvm⟩ := hp
    obtain ⟨w, hw, hwm⟩ := hle r List.mem_cons_self
    have hps : ∀ x ∈ ps, ∃ v, x.observed = some v ∧ v ≤ m :=
      fun x hx => hle x (List.mem_cons_of_mem _ hx)
    rw [winner_cons, shouldCoalesce_observed hv hw, stands_cons]
    by_cases hc : (r.acquisitionCritical && !p.acquisitionCritical || decide (v < w)) = true
    · rw [if_pos hc, ih ⟨w, hw, hwm⟩ hps]
      refine ⟨.inr, ?_⟩
      rintro (⟨hpm, hpc⟩ | h)
      · -- the newest is displaced by an urgent request only
        have hvm' : v = m := Option.some.inj (hv.symm.trans hpm)
        have hcr : r.acquisitionCritical = true ∧ p.acquisitionCritical = false := by
          have hlt : ¬ v < w := by
            rw [hvm']
            exact not_lt.mpr hwm
          simpa [hlt] using hc
        rcases hpc with hpc | hpc
        · rw [hcr.2] at hpc
          cases hpc
        · rw [hpc r List.mem_cons_self] at hcr
          cases hcr.1
      · exact h
    · rw [if_neg hc, ih ⟨v, hv, hvm⟩ hps, stands_cons, stands_cons]
      simp only [Bool.or_eq_true, Bool.and_eq_true, Bool.not_eq_true', decide_eq_true_eq, not_or,
        not_and, Bool.not_eq_false, not_lt] at hc
      constructor
      · rintro (⟨hpm, hpc⟩ | h)
        · by_cases hrc : r.acquisitionCritical = true
          · exact .inl ⟨hpm, .inl (hc.1 hrc)⟩
          · refine .inl ⟨hpm, hpc.imp_right fun hall x hx => ?_⟩
            rcases List.mem_cons.mp hx with rfl | hx
            · simpa using hrc
            · exact hall x hx
        · exact .inr (.inr h)
      · rintro (⟨hpm, hpc⟩ | ⟨hrm, hrc⟩ | h)
        · exact .inl ⟨hpm, hpc.imp_right fun hall x hx => hall x (List.mem_cons_of_mem _ hx)⟩
        · -- the job has the newest observation too
          have hwm' : w = m := Option.some.inj (hw.symm.trans hrm)
          have hvm' : v = m := le_antisymm hvm (hwm' ▸ hc.2)
          refine .inl ⟨hvm' ▸ hv, hrc.imp_left hc.1⟩
        · exact .inr h

end

/-! ## The job with the canonical key, after all rows -/

/-- The rows of `l` that are rebuilt as requests for the canonical key of `i`. -/
def requestsOf (i : String × String) (l : List WorkJob) : List WorkJob :=
  l.filter fun j => decide (j.payload.listing = i) && j.offKey && j.rebuilt

/-- The payloads that they ask for. -/
def asked (i : String × String) (l : List WorkJob) : List JobPayload :=
  (requestsOf i l).map (·.payload.normalized)

namespace RefreshSlot

variable {x : RefreshSlot} {p : JobPayload} {ps : List JobPayload}

theorem take_spec : (x.take p).leased = x.leased ∧ (x.take p).placed = x.placed ∧
    (x.take p).base = (if shouldCoalesce .sourceRefresh x.base p then p else x.base) ∧
    (x.leased = true → (x.take p).payload = x.payload ∧
      (x.pending.isSome = true → (x.take p).pending.isSome = true)) ∧
    (x.leased = false → (x.take p).pending = x.pending) := by
  unfold take
  by_cases hc : shouldCoalesce .sourceRefresh x.base p = true
  · rw [if_pos hc, if_pos hc]
    by_cases hl : x.leased = true
    · rw [if_pos hl]
      refine ⟨rfl, rfl, ?_, fun _ => ⟨rfl, fun _ => rfl⟩, fun h => ?_⟩
      · simp [base, hl]
      · rw [hl] at h
        cases h
    · rw [if_neg hl]
      refine ⟨rfl, rfl, ?_, fun h => absurd h hl, fun _ => rfl⟩
      simp [base, hl]
  · rw [if_neg hc, if_neg hc]
    exact ⟨rfl, rfl, rfl, fun _ => ⟨rfl, fun h => h⟩, fun _ => rfl⟩

/-- The requests `ps` leave the job with the winner. -/
theorem takeAll_spec (x : RefreshSlot) (ps : List JobPayload) :
    (ps.foldl take x).leased = x.leased ∧ (ps.foldl take x).placed = x.placed ∧
    (ps.foldl take x).base = winner x.base ps ∧
    (x.leased = true → (ps.foldl take x).payload = x.payload ∧
      (x.pending.isSome = true → (ps.foldl take x).pending.isSome = true)) ∧
    (x.leased = false → (ps.foldl take x).pending = x.pending) := by
  induction ps generalizing x with
  | nil => exact ⟨rfl, rfl, rfl, fun _ => ⟨rfl, fun h => h⟩, fun _ => rfl⟩
  | cons p ps ih =>
    obtain ⟨hl, hpl, hb, hleased, hwaiting⟩ := x.take_spec (p := p)
    obtain ⟨hl', hpl', hb', hleased', hwaiting'⟩ := ih (x.take p)
    rw [List.foldl_cons]
    refine ⟨hl'.trans hl, hpl'.trans hpl, by rw [hb', hb, winner_cons], fun h => ?_, fun h => ?_⟩
    · obtain ⟨h₁, h₂⟩ := hleased h
      obtain ⟨h₁', h₂'⟩ := hleased' (hl.trans h)
      exact ⟨h₁'.trans h₁, fun hs => h₂' (h₂ hs)⟩
    · exact (hwaiting' (hl.trans h)).trans (hwaiting h)

theorem takeAll_waiting (hl : x.leased = false) : ps.foldl take x =
    { x with payload := winner x.payload ps } := by
  obtain ⟨hl', hp', hb, -, hw⟩ := x.takeAll_spec ps
  have hpay : (ps.foldl take x).payload = winner x.payload ps := by
    simpa [base, hl, hl'.trans hl] using hb
  generalize ps.foldl take x = y at hl' hp' hw hpay
  cases y
  simp only [RefreshSlot.mk.injEq]
  exact ⟨hl', hpay, hw hl, hp'⟩

end RefreshSlot

section
variable {i : String × String} {l l₁ l₂ : List WorkJob} {x : RefreshSlot} {e j : WorkJob}
  {rest : List WorkJob}

theorem asked_cons_of_not (h : j.payload.listing = i → j.offKey = true → j.rebuilt = false) :
    requestsOf i (j :: l) = requestsOf i l := by
  rw [requestsOf, List.filter_cons, if_neg]
  · rfl
  · simp only [Bool.and_eq_true, decide_eq_true_eq, not_and, Bool.not_eq_true]
    exact fun h' => h h'.1 h'.2

theorem requestsOf_cons (hi : j.payload.listing = i) (ho : j.offKey = true)
    (hr : j.rebuilt = true) : requestsOf i (j :: l) = j :: requestsOf i l := by
  rw [requestsOf, List.filter_cons, if_pos (by simp [hi, ho, hr])]
  rfl

/-- A row that is no request leaves another job alone. -/
theorem slotStep_other {o : Option RefreshSlot} (ho : j.payload.listing = i → j.offKey = true)
    (h : j.payload.listing = i → j.offKey = true → j.rebuilt = false) : slotStep i o j = o := by
  unfold slotStep
  by_cases hi : j.payload.listing = i
  · rw [if_neg (not_not.mpr hi), if_neg (by simp [ho hi]), if_neg (by simp [h hi (ho hi)])]
  · rw [if_pos hi]

theorem slotStep_request {o : Option RefreshSlot} (hi : j.payload.listing = i)
    (ho : j.offKey = true) (hr : j.rebuilt = true) : slotStep i o j =
      some ((o.map (·.take j.payload.normalized)).getD (.inserted j j.payload.normalized)) := by
  unfold slotStep
  rw [if_neg (not_not.mpr hi), if_neg (by simp [ho]), if_pos hr]
  cases o <;> rfl

theorem foldl_slotStep_some (h : ∀ j ∈ l, j.payload.listing = i → j.offKey = true) :
    l.foldl (slotStep i) (some x) = some ((asked i l).foldl RefreshSlot.take x) := by
  induction l generalizing x with
  | nil => rfl
  | cons j l ih =>
    have hl : ∀ k ∈ l, k.payload.listing = i → k.offKey = true :=
      fun k hk => h k (List.mem_cons_of_mem _ hk)
    rw [List.foldl_cons]
    by_cases hreq : j.payload.listing = i ∧ j.rebuilt = true
    · rw [slotStep_request hreq.1 (h j List.mem_cons_self hreq.1) hreq.2, Option.map_some,
        Option.getD_some, ih hl, asked, asked,
        requestsOf_cons hreq.1 (h j List.mem_cons_self hreq.1) hreq.2]
      rfl
    · have hno : j.payload.listing = i → j.offKey = true → j.rebuilt = false :=
        fun hi _ => by simpa [hi] using hreq
      rw [slotStep_other (h j List.mem_cons_self) hno, ih hl, asked, asked, asked_cons_of_not hno]

theorem foldl_slotStep_none (h : ∀ j ∈ l, j.payload.listing = i → j.offKey = true) :
    (requestsOf i l = [] → l.foldl (slotStep i) none = none) ∧
    ∀ j rest, requestsOf i l = j :: rest → l.foldl (slotStep i) none =
      some ((rest.map (·.payload.normalized)).foldl RefreshSlot.take
        (.inserted j j.payload.normalized)) := by
  induction l with
  | nil => exact ⟨fun _ => rfl, fun j rest h => (by cases h)⟩
  | cons k l ih =>
    have hl : ∀ k ∈ l, k.payload.listing = i → k.offKey = true :=
      fun k hk => h k (List.mem_cons_of_mem _ hk)
    rw [List.foldl_cons]
    by_cases hreq : k.payload.listing = i ∧ k.rebuilt = true
    · have ho := h k List.mem_cons_self hreq.1
      rw [requestsOf_cons hreq.1 ho hreq.2, slotStep_request hreq.1 ho hreq.2, Option.map_none,
        Option.getD_none, foldl_slotStep_some hl]
      refine ⟨fun h => (by cases h), fun j rest heq => ?_⟩
      obtain ⟨rfl, rfl⟩ := List.cons.inj heq
      rfl
    · have hno : k.payload.listing = i → k.offKey = true → k.rebuilt = false :=
        fun hi _ => by simpa [hi] using hreq
      rw [slotStep_other (h k List.mem_cons_self) hno, asked_cons_of_not hno]
      exact ih hl

variable {s : Queue}

/-- The rows before and after that of the canonical key. -/
theorem Queue.RefreshBacklog.split (hb : s.RefreshBacklog) (he : s.Refreshing e)
    (hk : e.dedupeKey = refreshKey i) (hi : e.payload.listing = i) :
    ∃ l₁ l₂, s.activeRefreshes = l₁ ++ e :: l₂ ∧
      l₁ = s.activeRefreshes.takeWhile (· != e) ∧
      asked i l₂ = asked i (s.activeRefreshes.dropWhile (· != e)) ∧
      (∀ j ∈ l₁, j.payload.listing = i → j.offKey = true) ∧
      ∀ j ∈ l₂, j.payload.listing = i → j.offKey = true := by
  have hm : e ∈ s.activeRefreshes := Queue.mem_activeRefreshes.mpr he
  obtain ⟨l₁, l₂, hall⟩ := List.append_of_mem hm
  obtain ⟨-, h₁, h₂⟩ := hb.tables.ids hall
  have hnot : e ∉ l₁ := fun hin => (h₁ e hin).2 rfl
  have hoff : ∀ j, s.Refreshing j ∧ j.id ≠ e.id → j.payload.listing = i → j.offKey = true := by
    intro j hj hji
    rw [WorkJob.offKey, bne_iff_ne, hji]
    exact fun hjk => hj.2 (congrArg WorkJob.id (hb.tables.key_eq hj.1 he (hjk.trans hk.symm)))
  have hpass : ∀ a ∈ l₁, (a != e) = true := fun a ha => bne_iff_ne.mpr fun h => hnot (h ▸ ha)
  refine ⟨l₁, l₂, hall, ?_, ?_, fun j hj => hoff j (h₁ j hj), fun j hj => hoff j (h₂ j hj)⟩
  · rw [hall, List.takeWhile_append_of_pos hpass, List.takeWhile_cons, if_neg (by simp),
      List.append_nil]
  · rw [hall, List.dropWhile_append_of_pos hpass, List.dropWhile_cons, if_neg (by simp), asked,
      asked, asked_cons_of_not]
    intro _ ho
    rw [WorkJob.offKey, hi, hk] at ho
    simp at ho

/-- The canonical job `e` after the pass. -/
theorem Queue.RefreshBacklog.slotAfter_some (hb : s.RefreshBacklog) (he : s.Refreshing e)
    (hk : e.dedupeKey = refreshKey i) (hi : e.payload.listing = i) :
    s.slotAfter i s.activeRefreshes =
      some ((asked i (s.activeRefreshes.dropWhile (· != e))).foldl RefreshSlot.take
        (((asked i (s.activeRefreshes.takeWhile (· != e))).foldl RefreshSlot.take e.slot).repair e)) := by
  obtain ⟨l₁, l₂, hall, h₁, h₂, hoff₁, hoff₂⟩ := hb.split he hk hi
  have ho : e.offKey = false := by simp [WorkJob.offKey, hi, hk]
  have hstart : s.slotAfter i s.activeRefreshes =
      s.activeRefreshes.foldl (slotStep i) (some e.slot) := by
    rw [Queue.slotAfter, hb.tables.activeJob_eq he hk]
    rfl
  rw [hstart, ← h₁, ← h₂, hall, List.foldl_append, foldl_slotStep_some hoff₁, List.foldl_cons]
  have hstep : ∀ x : RefreshSlot, slotStep i (some x) e = some (x.repair e) := by
    intro x
    unfold slotStep
    rw [if_neg (not_not.mpr hi), if_pos ho]
    rfl
  rw [hstep, foldl_slotStep_some hoff₂]

/-- The key of a series without a canonical job, after the pass. -/
theorem Queue.slotAfter_none
    (hno : ∀ e, s.Refreshing e → e.dedupeKey ≠ refreshKey i) :
    (requestsOf i s.activeRefreshes = [] → s.slotAfter i s.activeRefreshes = none) ∧
    ∀ j rest, requestsOf i s.activeRefreshes = j :: rest → s.slotAfter i s.activeRefreshes =
      some ((rest.map (·.payload.normalized)).foldl RefreshSlot.take
        (.inserted j j.payload.normalized)) := by
  have hnone : s.activeJob .sourceRefresh (refreshKey i) = none :=
    Queue.activeJob_none.mpr fun x hx ha hk => hno x ⟨hx, WorkJob.activeRefresh_iff.mpr ⟨hk, ha⟩⟩
  have hoff : ∀ j ∈ s.activeRefreshes, j.payload.listing = i → j.offKey = true := by
    intro j hj hi
    rw [WorkJob.offKey, bne_iff_ne, hi]
    exact hno j (Queue.mem_activeRefreshes.mp hj)
  rw [Queue.slotAfter, hnone]
  exact foldl_slotStep_none hoff

end

/-! ## A queue at rest -/

/-- Three: the payload is current. -/
def JobPayload.Current (p : JobPayload) : Prop := p.version.read = 3

/-- A further pass leaves the row alone. -/
def WorkJob.Settled (j : WorkJob) : Prop := j.rebuilt = false ∧ j.repaired = j

/-- The same, of the job that a key has. -/
def RefreshSlot.Settled (x : RefreshSlot) : Prop :=
  if compatibleRefreshVersions.contains x.payload.version.read then
    x.placed = true ∧ x.payload.Current
  else x.leased = true ∧ x.pending = some x.payload.normalized

section
variable {s s' : Queue} {j e : WorkJob} {p : JobPayload} {i : String × String} {now : Time}

theorem JobPayload.Refreshable.current (h : p.Refreshable) : p.normalized.Current := by
  rw [JobPayload.Current, h.version]
  rfl

theorem JobPayload.Current.compatible (h : p.Current) :
    compatibleRefreshVersions.contains p.version.read = true := by
  rw [show p.version.read = 3 from h]
  decide

theorem current_iff (h : compatibleRefreshVersions.contains p.version.read = true) :
    p.Current ↔ ¬ p.version.read < 3 := by
  have hv : p.version.read = 1 ∨ p.version.read = 2 ∨ p.version.read = 3 := by
    simpa [compatibleRefreshVersions] using h
  rw [JobPayload.Current]
  omega

/-- What is done with a row of a readable version. -/
theorem WorkJob.action_compatible (h : j.payload.Refreshable) (hc : j.compatible = true) :
    (j.refreshAction.1 = .preserve ∧ j.slot.placed = true ∧ j.payload.Current) ∨
      ((j.refreshAction.1 = .regroup ∨ j.refreshAction.1 = .upgrade) ∧
        ¬ (j.slot.placed = true ∧ j.payload.Current)) := by
  have hcur := current_iff hc
  rw [WorkJob.refreshAction_eq h, if_neg (by simp [hc])]
  by_cases hk : j.workflowKey = "" ∨ j.groupKey = ""
  · rw [if_pos hk]
    refine .inr ⟨.inl rfl, fun hp => ?_⟩
    rcases hk with hk | hk <;> simp [WorkJob.slot, hk] at hp
  · rw [if_neg hk]
    have hplaced : j.slot.placed = true := by simpa [WorkJob.slot] using hk
    by_cases hv : j.payload.version.read < 3
    · rw [if_pos hv]
      exact .inr ⟨.inr rfl, fun hp => hcur.mp hp.2 hv⟩
    · rw [if_neg hv]
      exact .inl ⟨rfl, hplaced, hcur.mpr hv⟩

/-- What is done with a row of another version. -/
theorem WorkJob.action_incompatible (h : j.payload.Refreshable) (hc : j.compatible = false) :
    (j.status = .leased ∧ j.rebuilt = false ∧ j.refreshAction.1 = .deferRebuild) ∨
      (j.status ≠ .leased ∧ j.rebuilt = true ∧ j.refreshAction.1 = .rebuild) := by
  rw [WorkJob.refreshAction_eq h, if_pos hc, WorkJob.rebuilt, hc]
  by_cases hl : j.status = .leased
  · exact .inl ⟨hl, by simp [hl], if_pos hl⟩
  · exact .inr ⟨hl, by simp [hl], if_neg hl⟩

theorem WorkJob.rebuilt_of_compatible (hc : j.compatible = true) : j.rebuilt = false := by
  rw [WorkJob.rebuilt, hc]
  rfl

theorem WorkJob.settled_iff (h : j.payload.Refreshable) : j.Settled ↔ j.slot.Settled := by
  unfold WorkJob.Settled RefreshSlot.Settled
  by_cases hc : j.compatible = true
  · rw [if_pos (show compatibleRefreshVersions.contains j.slot.payload.version.read = true from hc)]
    rcases WorkJob.action_compatible h hc with ⟨ha, hp⟩ | ⟨ha, hn⟩
    · have hrep : j.repaired = j := by simp only [WorkJob.repaired, ha]
      exact iff_of_true ⟨WorkJob.rebuilt_of_compatible hc, hrep⟩ hp
    · have hrep : j.repaired = j.upgraded j.payload.normalized := by
        rcases ha with ha | ha <;> simp only [WorkJob.repaired, ha]
      refine iff_of_false (fun hs => hn ?_) hn
      rw [hrep] at hs
      have hpay : j.payload.normalized = j.payload := congrArg WorkJob.payload hs.2
      have hw : j.durableWorkflow = j.workflowKey := congrArg WorkJob.workflowKey hs.2
      have hg : j.durableWorkflow = j.groupKey := congrArg WorkJob.groupKey hs.2
      refine ⟨?_, hpay ▸ h.current⟩
      simp [WorkJob.slot, ← hw, ← hg, durableWorkflow_ne]
  · have hf : j.compatible = false := by simpa using hc
    rw [if_neg (show ¬ compatibleRefreshVersions.contains j.slot.payload.version.read = true from hc)]
    rcases WorkJob.action_incompatible h hf with ⟨hl, hr, ha⟩ | ⟨hl, hr, ha⟩
    · have hrep : j.repaired = j.deferred j.payload.normalized := by
        simp only [WorkJob.repaired, ha]
      rw [hrep]
      constructor
      · exact fun hs => ⟨beq_iff_eq.mpr hl, (congrArg WorkJob.pendingPayload hs.2).symm⟩
      · rintro ⟨-, hp⟩
        refine ⟨hr, ?_⟩
        rw [WorkJob.deferred, ← show j.pendingPayload = some j.payload.normalized from hp]
    · refine iff_of_false (fun hs => ?_) fun hs => hl (beq_iff_eq.mp hs.1)
      rw [hr] at hs
      cases hs.1

/-- The repaired row of another key is at rest. -/
theorem WorkJob.settled_repaired (h : j.payload.Refreshable) (hr : j.rebuilt = false) :
    j.repaired.Settled := by
  by_cases hc : j.compatible = true
  · rcases WorkJob.action_compatible h hc with ⟨ha, -⟩ | ⟨ha, -⟩
    · have hrep : j.repaired = j := by simp only [WorkJob.repaired, ha]
      rw [hrep]
      exact ⟨hr, hrep⟩
    · have hrep : j.repaired = j.upgraded j.payload.normalized := by
        rcases ha with ha | ha <;> simp only [WorkJob.repaired, ha]
      have hpay : j.repaired.payload = j.payload.normalized := by rw [hrep]; rfl
      rw [WorkJob.settled_iff (by rw [hpay]; exact h.normalized), RefreshSlot.Settled, if_pos]
      · refine ⟨?_, ?_⟩
        · rw [hrep]
          simp [WorkJob.slot, WorkJob.upgraded, durableWorkflow_ne]
        · show j.repaired.payload.Current
          rw [hpay]
          exact h.current
      · show compatibleRefreshVersions.contains j.repaired.payload.version.read = true
        rw [hpay]
        exact h.current.compatible
  · rcases WorkJob.action_incompatible h (by simpa using hc) with ⟨hl, -, ha⟩ | ⟨-, hr', -⟩
    · have hrep : j.repaired = j.deferred j.payload.normalized := by
        simp only [WorkJob.repaired, ha]
      rw [hrep, WorkJob.settled_iff (show (j.deferred _).payload.Refreshable from h),
        RefreshSlot.Settled, if_neg]
      · exact ⟨beq_iff_eq.mpr hl, rfl⟩
      · exact hc
    · rw [hr] at hr'
      cases hr'

end

section
variable {s s' : Queue} {j : WorkJob} {i : String × String} {l done : List WorkJob} {now : Time}

/-- The payloads that a job holds are refreshable. -/
def RefreshSlot.Good (x : RefreshSlot) : Prop :=
  x.payload.Refreshable ∧ ∀ q, x.pending = some q → q.Refreshable

theorem slotStep_good {o : Option RefreshSlot} (hj : j.payload.Refreshable)
    (ho : ∀ x, o = some x → x.Good) : ∀ x, slotStep i o j = some x → x.Good := by
  intro x hx
  unfold slotStep at hx
  split at hx
  · exact ho x hx
  split at hx
  · obtain ⟨y, hy, rfl⟩ := Option.map_eq_some_iff.mp hx
    obtain ⟨hp, hq⟩ := ho y hy
    unfold RefreshSlot.repair
    split
    · exact ⟨hp, hq⟩
    · exact ⟨hp, hq⟩
    · exact ⟨hp, fun q h => Option.some.inj h ▸ hp.normalized⟩
    · exact ⟨hp.normalized, fun q h => (by cases h)⟩
    · exact ⟨hp.normalized, hq⟩
    · exact ⟨hp.normalized, hq⟩
  split at hx
  · obtain rfl := Option.some.inj hx
    cases o with
    | none => exact ⟨hj.normalized, fun q h => (by cases h)⟩
    | some y =>
      obtain ⟨hp, hq⟩ := ho y rfl
      show (y.take j.payload.normalized).Good
      unfold RefreshSlot.take
      split
      · split
        · exact ⟨hp, fun q h => Option.some.inj h ▸ hj.normalized⟩
        · exact ⟨hj.normalized, hq⟩
      · exact ⟨hp, hq⟩
  · exact ho x hx

theorem Queue.RefreshBacklog.slotAfter_good (hb : s.RefreshBacklog)
    (hdone : ∀ j ∈ done, s.Refreshing j) : ∀ x, s.slotAfter i done = some x → x.Good := by
  induction done using List.reverseRecOn with
  | nil =>
    intro x hx
    obtain ⟨e, he, rfl⟩ := Option.map_eq_some_iff.mp hx
    obtain ⟨hm, hk, -, ha⟩ := Queue.activeJob_some he
    have hre : s.Refreshing e := ⟨hm, WorkJob.activeRefresh_iff.mpr ⟨hk, ha⟩⟩
    exact ⟨hb.payload e hre, hb.pending e hre⟩
  | append_singleton done j ih =>
    rw [Queue.slotAfter_snoc]
    exact slotStep_good (hb.payload j (hdone j (by simp)))
      (ih fun k hk => hdone k (by simp [hk]))

theorem WorkJob.repaired_payload (j : WorkJob) :
    (j.repaired.payload = j.payload ∨ j.repaired.payload = j.payload.normalized) ∧
    (j.repaired.pendingPayload = j.pendingPayload ∨
      j.repaired.pendingPayload = some j.payload.normalized) := by
  unfold repaired
  split
  · exact ⟨.inl rfl, .inr rfl⟩
  · exact ⟨.inr rfl, .inl rfl⟩
  · exact ⟨.inr rfl, .inl rfl⟩
  · exact ⟨.inl rfl, .inl rfl⟩

/-- The rows after a pass: those of the other keys, repaired, and those of the canonical keys. -/
theorem Progress.cases (hp : Progress s s.activeRefreshes [] s')
    {x : WorkJob} (hx : s'.Refreshing x) :
    (∃ k, s.Refreshing k ∧ k.offKey = true ∧ k.rebuilt = false ∧ x = k.repaired) ∨
    ∃ i, s.Lists i ∧ x.dedupeKey = refreshKey i ∧ x.payload.listing = i ∧ x.source = i.1 ∧
      x.payload.Refreshable ∧ s.slotAfter i s.activeRefreshes = some x.slot := by
  rcases hp.rows x hx with ⟨h, -⟩ | ⟨k, hk, ho, hr, rfl⟩ | ⟨i, hi, hk⟩
  · cases h
  · exact .inl ⟨k, Queue.mem_activeRefreshes.mp hk, ho, hr, rfl⟩
  · obtain ⟨hs, hh⟩ := hp.slot i hi x hx hk
    exact .inr ⟨i, hi, hk, hh.listing, hh.source, hh.payload, hs⟩

theorem WorkJob.repaired_listing (j : WorkJob) : j.repaired.payload.listing = j.payload.listing := by
  rcases j.repaired_payload.1 with h | h
  · rw [h]
  · rw [h, j.payload.normalized_fields.2.1]

/-- A pass leaves a backlog of the same series. -/
theorem Progress.backlog (hb : s.RefreshBacklog) (hp : Progress s s.activeRefreshes [] s') :
    s'.RefreshBacklog := by
  have hlists : ∀ x, s'.Refreshing x → s.Lists x.payload.listing := by
    intro x hx
    rcases hp.cases hx with ⟨k, hk, -, -, rfl⟩ | ⟨i, hi, -, hl, -⟩
    · exact ⟨k, hk, k.repaired_listing.symm⟩
    · exact hl ▸ hi
  refine ⟨hp.tables, fun x hx => ?_, fun x hx q hq => ?_, fun x hx => ?_, fun x y hx hy h => ?_⟩
  · rcases hp.cases hx with ⟨k, hk, -, -, rfl⟩ | ⟨i, -, -, -, -, hpay, -⟩
    · rcases k.repaired_payload.1 with h | h
      · rw [h]
        exact hb.payload k hk
      · rw [h]
        exact (hb.payload k hk).normalized
    · exact hpay
  · rcases hp.cases hx with ⟨k, hk, -, -, rfl⟩ | ⟨i, -, -, -, -, -, hs⟩
    · rcases k.repaired_payload.2 with h | h
      · exact hb.pending k hk q (h ▸ hq)
      · rw [h] at hq
        exact Option.some.inj hq ▸ (hb.payload k hk).normalized
    · exact (hb.slotAfter_good (fun j hj => Queue.mem_activeRefreshes.mp hj) _ hs).2 q hq
  · rcases hp.cases hx with ⟨k, hk, -, -, rfl⟩ | ⟨i, -, -, hl, hsrc, -⟩
    · rw [k.repaired_same.2.2.2.2.2, k.repaired_listing]
      exact hb.source k hk
    · rw [hsrc, hl]
  · rcases h with h | h
    · exact hb.key_injective (hlists x hx) (hlists y hy) h
    · rcases hp.cases hx with ⟨k, hk, ho, -, rfl⟩ | ⟨i, hi, hkey, hl, -⟩
      · rw [k.repaired_same.2.2.1] at h
        exact absurd h (hb.offKey_ne hk ho (hlists y hy))
      · rw [hl]
        exact hb.key_injective hi (hlists y hy) (hkey.symm.trans h)

/-- A row at rest is not written. -/
theorem applyRecord_settled (hb : s.RefreshBacklog) (hj : s.Refreshing j) (hs : j.Settled)
    (now : Time) : s.applyRecord j.refreshRecord now = .ok s := by
  have href := hb.payload j hj
  have hsel := hb.tables.selectActive_eq hj
  have hself : s.putJob j.repaired = s := by
    rw [hs.2, Queue.putJob, Table.put_self hb.tables.jobs hj.1]
  cases ha : j.refreshAction.1 with
  | blocked => simp [Queue.applyRecord, WorkJob.refreshRecord, ha]
  | preserve => simp [Queue.applyRecord, WorkJob.refreshRecord, ha]
  | rebuild =>
    have hr := (WorkJob.rebuilt_iff href).mpr ha
    rw [hs.1] at hr
    cases hr
  | deferRebuild =>
    rw [show j.repaired = j.deferred j.payload.normalized by simp only [WorkJob.repaired, ha]]
      at hself
    simp [Queue.applyRecord, WorkJob.refreshRecord, ha, hsel, href.normalize, hself]
  | regroup | upgrade =>
    rw [show j.repaired = j.upgraded j.payload.normalized by simp only [WorkJob.repaired, ha]]
      at hself
    simp [Queue.applyRecord, WorkJob.refreshRecord, ha, hsel, href.normalize, hself]

/-- A pass changes nothing exactly where every row is at rest. -/
theorem Queue.RefreshBacklog.pass_self_iff (hb : s.RefreshBacklog) :
    (∀ now, s.refreshPass now = .ok s) ↔ ∀ x, s.Refreshing x → x.Settled := by
  constructor
  · intro h x hx
    obtain ⟨s', hs', hp⟩ := hb.pass 0
    obtain rfl : s' = s := Except.ok.inj (hs'.symm.trans (h 0))
    have hself : ∀ k, s'.Refreshing k → k.offKey = true → k.Settled := by
      intro k hk ho
      rcases hp.cases hk with ⟨k', hk', ho', hr', he⟩ | ⟨i, hi, hki, -⟩
      · have hid : k'.id = k.id := by rw [he, k'.repaired_same.1]
        obtain rfl := hb.tables.jobs.eq hk'.1 hk.1 hid
        exact ⟨hr', he.symm⟩
      · exact absurd hki (hb.offKey_ne hk ho hi)
    by_cases ho : x.offKey = true
    · exact hself x hx ho
    -- nobody asks for the canonical key, so the repair of its job changes nothing
    have hkey : x.dedupeKey = refreshKey x.payload.listing := by simpa [WorkJob.offKey] using ho
    have hnone : ∀ l : List WorkJob, (∀ k ∈ l, s'.Refreshing k) →
        asked x.payload.listing l = [] := by
      intro l hl
      rw [asked, requestsOf, List.map_eq_nil_iff, List.filter_eq_nil_iff]
      intro k hk
      simp only [Bool.and_eq_true, decide_eq_true_eq, not_and, Bool.not_eq_true]
      exact fun h => (hself k (hl k hk) h.2).1
    have hafter := hb.slotAfter_some hx hkey rfl
    rw [hnone _ fun k hk => Queue.mem_activeRefreshes.mp (List.dropWhile_subset _ hk),
      hnone _ fun k hk => Queue.mem_activeRefreshes.mp (List.takeWhile_subset _ hk)] at hafter
    have hslot := (hp.slot _ ⟨x, hx, rfl⟩ x hx hkey).1
    have hrep : x.slot.repair x = x.slot := Option.some.inj (hafter.symm.trans hslot)
    have href := hb.payload x hx
    rw [WorkJob.settled_iff href, RefreshSlot.Settled]
    by_cases hc : x.compatible = true
    · rw [if_pos (show compatibleRefreshVersions.contains x.slot.payload.version.read = true from hc)]
      rcases WorkJob.action_compatible href hc with ⟨-, hp⟩ | ⟨ha, -⟩
      · exact hp
      · have hup : x.slot.repair x = { x.slot with payload := x.payload.normalized, placed := true } := by
          unfold RefreshSlot.repair
          rcases ha with ha | ha <;> rw [ha] <;> rfl
        rw [hup] at hrep
        refine ⟨(congrArg RefreshSlot.placed hrep).symm, ?_⟩
        rw [← hrep]
        exact href.current
    · rw [if_neg (show ¬ compatibleRefreshVersions.contains x.slot.payload.version.read = true from hc)]
      rcases WorkJob.action_incompatible href (by simpa using hc) with ⟨hl, -, ha⟩ | ⟨-, -, ha⟩
      · have hdef : x.slot.repair x = { x.slot with pending := some x.payload.normalized } := by
          unfold RefreshSlot.repair
          rw [ha]
          rfl
        rw [hdef] at hrep
        exact ⟨beq_iff_eq.mpr hl, (congrArg RefreshSlot.pending hrep).symm⟩
      · have hins : x.slot.repair x = .inserted x x.payload.normalized := by
          unfold RefreshSlot.repair
          rw [ha]
          rfl
        rw [hins] at hrep
        have hpay : x.payload.normalized = x.payload := congrArg RefreshSlot.payload hrep
        refine absurd ?_ hc
        rw [WorkJob.compatible, ← hpay]
        exact href.current.compatible
  · intro h now
    have hall : ∀ l : List WorkJob, (∀ x ∈ l, s.Refreshing x) →
        Queue.applyRecords now (l.map (·.refreshRecord)) s = .ok s := by
      intro l
      induction l with
      | nil => exact fun _ => rfl
      | cons x l ih =>
        intro hl
        have hx := hl x List.mem_cons_self
        rw [List.map_cons, Queue.applyRecords, applyRecord_settled hb hx (h x hx)]
        exact ih fun y hy => hl y (List.mem_cons_of_mem _ hy)
    exact hall _ fun x hx => Queue.mem_activeRefreshes.mp hx

end

/-! ## What a pass keeps -/

/-- The payloads that the job holds. -/
def WorkJob.carried (j : WorkJob) : List JobPayload := j.payload :: j.pendingPayload.toList

/-- The workflow of the job that a rebuild of `j` with `p` inserts is not blank. -/
def WorkJob.Named (j : WorkJob) (p : JobPayload) : Prop :=
  strip j.durableWorkflow ≠ "" ∨ p.workflowKey ≠ ""

namespace Queue

/-- What was observed of a series, in all its active refresh jobs. -/
def observations (s : Queue) (i : String × String) : List JobPayload :=
  (s.activeRefreshes.filter fun j => decide (j.payload.listing = i)).flatMap (·.carried)

/-- `m` is the newest of them. -/
structure IsNewest (s : Queue) (i : String × String) (m : Dec.Value) : Prop where
  mem : ∃ q ∈ s.observations i, q.observed = some m
  le : ∀ q ∈ s.observations i, ∃ v, q.observed = some v ∧ v ≤ m

/-- A job of the series carries its newest observation. -/
def CarriesNewest (s : Queue) (i : String × String) (m : Dec.Value) : Prop :=
  ∃ x, s.Refreshing x ∧ x.payload.listing = i ∧ ∃ q ∈ x.carried, q.observed = some m

/-- A pass keeps the newest observation of every series, and a second one changes nothing. -/
def PassKeeps (s : Queue) (now : Time) : Prop :=
  ∃ s', s.refreshPass now = .ok s' ∧
    (∀ i, s.Lists i → ∃ m, s.IsNewest i m ∧ s'.CarriesNewest i m) ∧
    ∀ now', s'.refreshPass now' = .ok s'

/-- The newest observation is where the pass leaves it: in the payload of a job that is not
cancelled, in the pending payload of a job of a readable version, or it is what is left under the
canonical key. -/
inductive NewestStays (s : Queue) (i : String × String) (m : Dec.Value) : Prop where
  | payload {j : WorkJob} : s.Refreshing j → j.payload.listing = i → j.rebuilt = false →
      j.offKey = true ∨ j.status = .leased → j.payload.observed = some m → NewestStays s i m
  | pending {j : WorkJob} {q : JobPayload} : s.Refreshing j → j.payload.listing = i →
      j.compatible = true → j.offKey = true ∨ j.status ≠ .leased → j.pendingPayload = some q →
      q.observed = some m → NewestStays s i m
  | asked : (∀ e, s.Refreshing e → e.dedupeKey = refreshKey i → e.compatible = true ∨
      e.status ≠ .leased) →
      Stands m (((s.activeJob .sourceRefresh (refreshKey i)).map (·.coalesceBase)).toList ++
        asked i s.activeRefreshes) → NewestStays s i m

/-- The job under the canonical key comes to rest: the requests that follow the repair of a running
job of another version leave it its own payload, and a job that is inserted gets a workflow. -/
structure Rests (s : Queue) (i : String × String) : Prop where
  running : ∀ e, s.Refreshing e → e.dedupeKey = refreshKey i → e.compatible = false →
    e.status = .leased →
    winner e.payload.normalized (asked i (s.activeRefreshes.dropWhile (· != e))) =
      e.payload.normalized
  rebuilt : ∀ e, s.Refreshing e → e.dedupeKey = refreshKey i → e.rebuilt = true →
    e.Named (winner e.payload (asked i (s.activeRefreshes.takeWhile (· != e))))
  inserted : (∀ e, s.Refreshing e → e.dedupeKey ≠ refreshKey i) →
    ∀ j rest, requestsOf i s.activeRefreshes = j :: rest → j.Named j.payload

end Queue

section
variable {s s' : Queue} {e j k : WorkJob} {i : String × String} {m : Dec.Value}
  {x : RefreshSlot} {ps : List JobPayload}

theorem Queue.mem_observations {q : JobPayload} : q ∈ s.observations i ↔
    ∃ j, s.Refreshing j ∧ j.payload.listing = i ∧ q ∈ j.carried := by
  simp only [Queue.observations, List.mem_flatMap, List.mem_filter, Queue.mem_activeRefreshes,
    decide_eq_true_eq, and_assoc]

theorem Queue.RefreshBacklog.exists_newest (hb : s.RefreshBacklog) (hi : s.Lists i) :
    ∃ m, s.IsNewest i m := by
  have hobs : ∀ q ∈ s.observations i, q.observed.isSome = true := by
    intro q hq
    obtain ⟨j, hj, -, hq⟩ := Queue.mem_observations.mp hq
    rcases List.mem_cons.mp hq with rfl | hq
    · exact (hb.payload j hj).observed
    · exact (hb.pending j hj q (Option.mem_toList.mp hq)).observed
  have hne : s.observations i ≠ [] := by
    obtain ⟨j, hj, hl⟩ := hi
    exact List.ne_nil_of_mem (Queue.mem_observations.mpr ⟨j, hj, hl, List.mem_cons_self⟩)
  have hmax : ∀ l : List JobPayload, l ≠ [] → (∀ q ∈ l, q.observed.isSome = true) →
      ∃ m, (∃ q ∈ l, q.observed = some m) ∧ ∀ q ∈ l, ∃ v, q.observed = some v ∧ v ≤ m := by
    intro l
    induction l with
    | nil => exact fun h => absurd rfl h
    | cons a l ih =>
      intro _ hl
      obtain ⟨v, hv⟩ := Option.isSome_iff_exists.mp (hl a List.mem_cons_self)
      by_cases hnil : l = []
      · subst hnil
        exact ⟨v, ⟨a, List.mem_cons_self, hv⟩, fun q hq => ⟨v, by rwa [List.mem_singleton.mp hq], le_rfl⟩⟩
      · obtain ⟨m, ⟨q, hq, hqm⟩, hle⟩ := ih hnil fun q hq => hl q (List.mem_cons_of_mem _ hq)
        refine ⟨max v m, ?_, fun r hr => ?_⟩
        · rcases le_total v m with h | h
          · exact ⟨q, List.mem_cons_of_mem _ hq, by rw [max_eq_right h, hqm]⟩
          · exact ⟨a, List.mem_cons_self, by rw [max_eq_left h, hv]⟩
        · rcases List.mem_cons.mp hr with rfl | hr
          · exact ⟨v, hv, le_max_left v m⟩
          · obtain ⟨w, hw, hwm⟩ := hle r hr
            exact ⟨w, hw, hwm.trans (le_max_right v m)⟩
  obtain ⟨m, hmem, hle⟩ := hmax _ hne hobs
  exact ⟨m, hmem, hle⟩

theorem Queue.IsNewest.unique {m' : Dec.Value} (h : s.IsNewest i m) (h' : s.IsNewest i m') :
    m = m' := by
  obtain ⟨q, hq, hqm⟩ := h.mem
  obtain ⟨r, hr, hrm⟩ := h'.mem
  obtain ⟨v, hv, hvm⟩ := h'.le q hq
  obtain ⟨w, hw, hwm⟩ := h.le r hr
  refine le_antisymm ?_ ?_
  · rwa [← Option.some.inj (hv.symm.trans hqm)]
  · rwa [← Option.some.inj (hw.symm.trans hrm)]

theorem mem_asked {q : JobPayload} {l : List WorkJob} (h : q ∈ asked i l) :
    ∃ j ∈ l, j.payload.listing = i ∧ q = j.payload.normalized := by
  obtain ⟨j, hj, rfl⟩ := List.mem_map.mp h
  obtain ⟨hm, hc⟩ := List.mem_filter.mp hj
  simp only [Bool.and_eq_true, decide_eq_true_eq] at hc
  exact ⟨j, hm, hc.1.1, rfl⟩

/-- The payloads that are asked for are current. -/
theorem Queue.RefreshBacklog.asked_current (hb : s.RefreshBacklog) {l : List WorkJob}
    (hl : ∀ j ∈ l, s.Refreshing j) : ∀ q ∈ asked i l, q.Refreshable ∧ q.Current := by
  intro q hq
  obtain ⟨j, hj, -, rfl⟩ := mem_asked hq
  exact ⟨(hb.payload j (hl j hj)).normalized, (hb.payload j (hl j hj)).current⟩

/-- They are no newer than the newest observation. -/
theorem Queue.IsNewest.asked_le (h : s.IsNewest i m) {l : List WorkJob}
    (hl : ∀ j ∈ l, s.Refreshing j) : ∀ q ∈ asked i l, ∃ v, q.observed = some v ∧ v ≤ m := by
  intro q hq
  obtain ⟨j, hj, hi, rfl⟩ := mem_asked hq
  rw [(sameObservation_normalized j.payload).observed]
  exact h.le _ (Queue.mem_observations.mpr ⟨j, hl j hj, hi, List.mem_cons_self⟩)

theorem RefreshSlot.takeAll_payload (x : RefreshSlot) (ps : List JobPayload) :
    (ps.foldl RefreshSlot.take x).payload = x.payload ∨
    (ps.foldl RefreshSlot.take x).payload ∈ ps := by
  induction ps generalizing x with
  | nil => exact .inl rfl
  | cons p ps ih =>
    rw [List.foldl_cons]
    rcases ih (x.take p) with h | h
    · have hp : (x.take p).payload = x.payload ∨ (x.take p).payload = p := by
        unfold RefreshSlot.take
        split
        · split
          · exact .inl rfl
          · exact .inr rfl
        · exact .inl rfl
      rcases hp with hp | hp
      · exact .inl (h.trans hp)
      · exact .inr (by rw [h, hp]; exact List.mem_cons_self)
    · exact .inr (List.mem_cons_of_mem _ h)

theorem RefreshSlot.settled_of_current (h : x.payload.Current) : x.Settled ↔ x.placed = true := by
  rw [RefreshSlot.Settled, if_pos h.compatible]
  exact and_iff_left h

end

end MangaManager
