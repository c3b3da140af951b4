import MangaManager.Queue.RefreshNewest

/-!
# One pass over the refresh queue

The job under each canonical key after a pass, by what its row was before: one of a readable
version (`readable`), a running one of another version (`running`), one that waits and is inserted
again, and none. From these `pass_keeps_iff`.
-/

namespace MangaManager

open Lib

section
variable {s s' : Queue} {e j k : WorkJob} {i : String × String} {m : Dec.Value}
  {x : RefreshSlot}

/-- The two parts of the rows. -/
theorem asked_split (s : Queue) (i : String × String) (e : WorkJob) :
    asked i (s.activeRefreshes.takeWhile (· != e)) ++ asked i (s.activeRefreshes.dropWhile (· != e)) =
      asked i s.activeRefreshes := by
  rw [asked, asked, asked, ← List.map_append, requestsOf, requestsOf, ← List.filter_append,
    List.takeWhile_append_dropWhile]
  rfl

theorem Queue.refreshing_takeWhile (s : Queue) (e : WorkJob) :
    ∀ j ∈ s.activeRefreshes.takeWhile (· != e), s.Refreshing j :=
  fun _ hj => Queue.mem_activeRefreshes.mp (List.takeWhile_subset _ hj)

theorem Queue.refreshing_dropWhile (s : Queue) (e : WorkJob) :
    ∀ j ∈ s.activeRefreshes.dropWhile (· != e), s.Refreshing j :=
  fun _ hj => Queue.mem_activeRefreshes.mp (List.dropWhile_subset _ hj)

theorem refreshing_all : ∀ j ∈ s.activeRefreshes, s.Refreshing j :=
  fun _ hj => Queue.mem_activeRefreshes.mp hj

end

/-- The job of a key carries `m`. -/
def RefreshSlot.Carries (x : RefreshSlot) (m : Dec.Value) : Prop :=
  x.payload.observed = some m ∨ ∃ q, x.pending = some q ∧ q.observed = some m

section
variable {s s' : Queue} {e j k : WorkJob} {i : String × String} {m : Dec.Value}
  {x : RefreshSlot}

theorem carries_slot : (∃ q ∈ j.carried, q.observed = some m) ↔ j.slot.Carries m := by
  simp only [WorkJob.carried, List.mem_cons, Option.mem_toList, exists_eq_or_imp]
  rfl

/-- A leased job carries what its payload and what its base have. -/
theorem RefreshSlot.carries_leased (hl : x.leased = true) :
    x.Carries m ↔ x.payload.observed = some m ∨ x.base.observed = some m := by
  unfold Carries
  rw [base, if_pos hl]
  cases x.pending with
  | none => simp
  | some q => simp

/-- The job of the canonical key whose row has a readable version. -/
theorem Queue.RefreshBacklog.readable (hb : s.RefreshBacklog) (he : s.Refreshing e)
    (hk : e.dedupeKey = refreshKey i) (hi : e.payload.listing = i) (hc : e.compatible = true) :
    ∃ x, s.slotAfter i s.activeRefreshes = some x ∧ x.leased = e.slot.leased ∧ x.placed = true ∧
      x.payload.Current ∧
      (e.slot.leased = true → SameObservation x.payload e.payload ∧
        SameObservation x.base (winner e.coalesceBase (asked i s.activeRefreshes))) ∧
      (e.slot.leased = false → x.pending = e.pendingPayload ∧
        SameObservation x.payload (winner e.coalesceBase (asked i s.activeRefreshes))) := by
  have href := hb.payload e he
  have hbase : e.coalesceBase = e.slot.base := by
    by_cases hl : e.status = .leased <;>
      simp [WorkJob.coalesceBase, WorkJob.slot, RefreshSlot.base, hl]
  have h₁ := hb.asked_current (i := i) (s.refreshing_takeWhile e)
  have h₂ := hb.asked_current (i := i) (s.refreshing_dropWhile e)
  have hobs : e.slot.base.observed.isSome = true := by
    unfold RefreshSlot.base
    split
    · cases hp : e.slot.pending with
      | none => exact href.observed
      | some q => exact (hb.pending e he q hp).observed
    · exact href.observed
  refine ⟨_, hb.slotAfter_some he hk hi, ?_⟩
  rw [hbase, ← asked_split s i e, winner_append]
  generalize asked i (s.activeRefreshes.takeWhile (· != e)) = a₁ at h₁ ⊢
  generalize asked i (s.activeRefreshes.dropWhile (· != e)) = a₂ at h₂ ⊢
  have hobs₁ := winner_observed hobs fun r hr => (h₁ r hr).1.observed
  -- the repair of the row keeps the observations and makes the payload current
  obtain ⟨x₁, hx₁⟩ : ∃ x₁, a₁.foldl RefreshSlot.take e.slot = x₁ := ⟨_, rfl⟩
  obtain ⟨hl₁, hp₁, hb₁, hle₁, hwa₁⟩ := e.slot.takeAll_spec a₁
  have hpay₁ := RefreshSlot.takeAll_payload e.slot a₁
  rw [hx₁] at hl₁ hp₁ hb₁ hle₁ hwa₁ hpay₁ ⊢
  have hgood : x₁.payload.Refreshable ∧ (e.payload.Current → x₁.payload.Current) := by
    rcases hpay₁ with h | h
    · rw [h]
      exact ⟨href, fun h => h⟩
    · exact ⟨(h₁ _ h).1, fun _ => (h₁ _ h).2⟩
  obtain ⟨x₂, hx₂⟩ : ∃ x₂, x₁.repair e = x₂ := ⟨_, rfl⟩
  have hrep : x₂.leased = x₁.leased ∧ x₂.placed = true ∧ x₂.payload.Current ∧
      SameObservation x₂.payload x₁.payload ∧ x₂.pending = x₁.pending := by
    rw [← hx₂]
    unfold RefreshSlot.repair
    rcases WorkJob.action_compatible href hc with ⟨ha, hpl, hcur⟩ | ⟨ha, -⟩
    · rw [ha]
      exact ⟨rfl, hp₁.trans hpl, hgood.2 hcur, .refl _, rfl⟩
    · rcases ha with ha | ha <;> rw [ha] <;>
        exact ⟨rfl, rfl, hgood.1.current, sameObservation_normalized _, rfl⟩
  rw [hx₂]
  obtain ⟨hl₂, hpl₂, hcur₂, hsame₂, hpend₂⟩ := hrep
  have hbase₂ : SameObservation x₂.base x₁.base := by
    unfold RefreshSlot.base
    rw [hl₂, hpend₂]
    split
    · cases x₁.pending with
      | none => exact hsame₂
      | some q => exact .refl q
    · exact hsame₂
  have hbobs₂ : x₂.base.observed.isSome = true := by
    rw [hbase₂.observed, hb₁]
    exact hobs₁
  obtain ⟨hl₃, hp₃, hb₃, hle₃, hwa₃⟩ := x₂.takeAll_spec a₂
  have hpay₃ := RefreshSlot.takeAll_payload x₂ a₂
  have hwin : SameObservation (a₂.foldl RefreshSlot.take x₂).base
      (winner (winner e.slot.base a₁) a₂) := by
    rw [hb₃]
    exact winner_congr ⟨hbase₂.observed.trans (by rw [hb₁]), hbase₂.critical.trans (by rw [hb₁])⟩
      hbobs₂ fun r hr => (h₂ r hr).1.observed
  refine ⟨hl₃.trans (hl₂.trans hl₁), hp₃.trans hpl₂, ?_, fun hl => ⟨?_, hwin⟩, fun hl => ⟨?_, ?_⟩⟩
  · rcases hpay₃ with h | h
    · rw [h]
      exact hcur₂
    · exact (h₂ _ h).2
  · rw [(hle₃ (hl₂.trans (hl₁.trans hl))).1]
    have heq := (hle₁ hl).1
    exact ⟨hsame₂.observed.trans (by rw [heq]; rfl), hsame₂.critical.trans (by rw [heq]; rfl)⟩
  · rw [hwa₃ (hl₂.trans (hl₁.trans hl)), hpend₂, hwa₁ hl]
    rfl
  · rwa [RefreshSlot.base, if_neg (by rw [hl₃, hl₂, hl₁, hl]; simp)] at hwin

/-- The running job of the canonical key whose row has another version. -/
theorem Queue.RefreshBacklog.running (hb : s.RefreshBacklog) (he : s.Refreshing e)
    (hk : e.dedupeKey = refreshKey i) (hi : e.payload.listing = i) (hc : e.compatible = false)
    (hl : e.status = .leased) :
    ∃ x, s.slotAfter i s.activeRefreshes = some x ∧ x.leased = true ∧ x.payload = e.payload ∧
      x.pending = some (winner e.payload.normalized
        (asked i (s.activeRefreshes.dropWhile (· != e)))) := by
  have href := hb.payload e he
  have ha : e.refreshAction.1 = .deferRebuild := by
    rcases WorkJob.action_incompatible href hc with ⟨-, -, ha⟩ | ⟨hl', -⟩
    · exact ha
    · exact absurd hl hl'
  have hsl : e.slot.leased = true := beq_iff_eq.mpr hl
  refine ⟨_, hb.slotAfter_some he hk hi, ?_⟩
  generalize asked i (s.activeRefreshes.takeWhile (· != e)) = a₁
  generalize asked i (s.activeRefreshes.dropWhile (· != e)) = a₂
  obtain ⟨hl₁, -, -, hle₁, -⟩ := e.slot.takeAll_spec a₁
  generalize a₁.foldl RefreshSlot.take e.slot = x₁ at hl₁ hle₁ ⊢
  have hpay₁ : x₁.payload = e.payload := (hle₁ hsl).1
  have hrep : x₁.repair e = { x₁ with pending := some e.payload.normalized } := by
    unfold RefreshSlot.repair
    rw [ha, hpay₁]
  rw [hrep]
  obtain ⟨hl₂, -, hb₂, hle₂, -⟩ :=
    RefreshSlot.takeAll_spec { x₁ with pending := some e.payload.normalized } a₂
  have hx₁ : x₁.leased = true := hl₁.trans hsl
  obtain ⟨hpay₂, hsome⟩ := hle₂ hx₁
  have hl₃ := hl₂.trans hx₁
  refine ⟨hl₃, hpay₂.trans hpay₁, ?_⟩
  obtain ⟨q, hq⟩ := Option.isSome_iff_exists.mp (hsome rfl)
  rw [RefreshSlot.base, if_pos hl₃, hq, Option.getD_some] at hb₂
  rw [hq, hb₂, RefreshSlot.base, if_pos hx₁]
  rfl

/-- The waiting job of the canonical key whose row has another version is inserted again. -/
theorem Queue.RefreshBacklog.reinserted (hb : s.RefreshBacklog) (he : s.Refreshing e)
    (hk : e.dedupeKey = refreshKey i) (hi : e.payload.listing = i) (hr : e.rebuilt = true) :
    ∃ x, s.slotAfter i s.activeRefreshes = some x ∧ x.leased = false ∧ x.pending = none ∧
      x.payload.Current ∧
      (x.placed = true ↔ e.Named (winner e.payload (asked i (s.activeRefreshes.takeWhile (· != e))))) ∧
      SameObservation x.payload (winner e.payload (asked i s.activeRefreshes)) := by
  have href := hb.payload e he
  have ha := (WorkJob.rebuilt_iff href).mp hr
  have hsl : e.slot.leased = false := by
    rw [WorkJob.rebuilt, Bool.and_eq_true, bne_iff_ne] at hr
    exact beq_eq_false_iff_ne.mpr hr.2
  have h₁ := hb.asked_current (i := i) (s.refreshing_takeWhile e)
  have h₂ := hb.asked_current (i := i) (s.refreshing_dropWhile e)
  refine ⟨_, hb.slotAfter_some he hk hi, ?_⟩
  rw [← asked_split s i e, winner_append]
  generalize asked i (s.activeRefreshes.takeWhile (· != e)) = a₁ at h₁ ⊢
  generalize asked i (s.activeRefreshes.dropWhile (· != e)) = a₂ at h₂ ⊢
  rw [RefreshSlot.takeAll_waiting hsl]
  obtain ⟨w, hw⟩ : ∃ w, winner e.payload a₁ = w := ⟨_, rfl⟩
  have hrep : RefreshSlot.repair { e.slot with payload := winner e.slot.payload a₁ } e =
      .inserted e w.normalized := by
    unfold RefreshSlot.repair
    rw [ha, ← hw]
    rfl
  rw [hrep, hw, RefreshSlot.takeAll_waiting rfl]
  have hwobs : w.observed.isSome = true := by
    rw [← hw]
    exact winner_observed href.observed fun r hr => (h₁ r hr).1.observed
  have hwcur : w.normalized.Current := by
    rcases winner_mem e.payload a₁ with h | h
    · rw [← hw, h]
      exact href.current
    · rw [← hw]
      exact (h₁ _ h).1.current
  refine ⟨rfl, rfl, ?_, ?_, ?_⟩
  · show (winner w.normalized a₂).Current
    rcases winner_mem w.normalized a₂ with h | h
    · rw [h]
      exact hwcur
    · exact (h₂ _ h).2
  · show (strip e.durableWorkflow != "" || w.normalized.workflowKey != "") = true ↔ e.Named w
    rw [w.normalized_fields.2.2.2.2.1, Bool.or_eq_true, bne_iff_ne, bne_iff_ne]
    rfl
  · show SameObservation (winner w.normalized a₂) (winner w a₂)
    refine winner_congr (sameObservation_normalized w) ?_ fun r hr => (h₂ r hr).1.observed
    rw [(sameObservation_normalized w).observed]
    exact hwobs

/-- A key without a job gets the first request. -/
theorem Queue.RefreshBacklog.requested (hb : s.RefreshBacklog)
    (hno : ∀ e, s.Refreshing e → e.dedupeKey ≠ refreshKey i) {rest : List WorkJob}
    (hreq : requestsOf i s.activeRefreshes = j :: rest) :
    ∃ x, s.slotAfter i s.activeRefreshes = some x ∧ x.leased = false ∧ x.pending = none ∧
      x.payload.Current ∧ (x.placed = true ↔ j.Named j.payload) ∧
      x.payload = winner j.payload.normalized (rest.map (·.payload.normalized)) := by
  have hmem : ∀ k ∈ j :: rest, s.Refreshing k := by
    rw [← hreq]
    exact fun k hk => refreshing_all k (List.mem_filter.mp hk).1
  refine ⟨_, (Queue.slotAfter_none hno).2 j rest hreq, ?_⟩
  rw [RefreshSlot.takeAll_waiting rfl]
  refine ⟨rfl, rfl, ?_, ?_, rfl⟩
  · show (winner j.payload.normalized (rest.map (·.payload.normalized))).Current
    rcases winner_mem j.payload.normalized (rest.map (·.payload.normalized)) with h | h
    · rw [h]
      exact (hb.payload j (hmem j List.mem_cons_self)).current
    · obtain ⟨k, hk, he⟩ := List.mem_map.mp h
      rw [← he]
      exact (hb.payload k (hmem k (List.mem_cons_of_mem _ hk))).current
  · show (strip j.durableWorkflow != "" || j.payload.normalized.workflowKey != "") = true ↔ _
    rw [j.payload.normalized_fields.2.2.2.2.1, Bool.or_eq_true, bne_iff_ne, bne_iff_ne]
    rfl

theorem Queue.RefreshBacklog.listing_of_key (hb : s.RefreshBacklog) (hi : s.Lists i)
    (he : s.Refreshing e) (hk : e.dedupeKey = refreshKey i) : e.payload.listing = i := by
  obtain ⟨y, hy, rfl⟩ := hi
  exact hb.apart e y he hy (.inr hk)

/-- The job of a canonical key is at rest after a pass. -/
theorem Queue.RefreshBacklog.rests_iff (hb : s.RefreshBacklog) (hi : s.Lists i) :
    (∀ x, s.slotAfter i s.activeRefreshes = some x → x.Settled) ↔ s.Rests i := by
  by_cases hex : ∃ e, s.Refreshing e ∧ e.dedupeKey = refreshKey i
  · obtain ⟨e, he, hk⟩ := hex
    have hl := hb.listing_of_key hi he hk
    have hone : ∀ e', s.Refreshing e' → e'.dedupeKey = refreshKey i → e' = e :=
      fun e' he' hk' => hb.tables.key_eq he' he (hk'.trans hk.symm)
    have hins : (∀ e, s.Refreshing e → e.dedupeKey ≠ refreshKey i) → False := fun h => h e he hk
    by_cases hc : e.compatible = true
    · -- a readable row
      obtain ⟨x, hx, -, hpl, hcur, -⟩ := hb.readable he hk hl hc
      have hnr := WorkJob.rebuilt_of_compatible hc
      refine iff_of_true (fun y hy => ?_) ⟨fun e' he' hk' hc' => ?_, fun e' he' hk' hr' => ?_,
        fun h => (hins h).elim⟩
      · obtain rfl : x = y := Option.some.inj (hx.symm.trans hy)
        exact (RefreshSlot.settled_of_current hcur).mpr hpl
      · rw [hone e' he' hk', hc] at hc'
        cases hc'
      · rw [hone e' he' hk', hnr] at hr'
        cases hr'
    · have hf : e.compatible = false := by simpa using hc
      rcases WorkJob.action_incompatible (hb.payload e he) hf with ⟨hst, hnr, -⟩ | ⟨hst, hr, -⟩
      · -- a running job of another version
        obtain ⟨x, hx, hxl, hxp, hxq⟩ := hb.running he hk hl hf hst
        have hset : x.Settled ↔ winner e.payload.normalized
            (asked i (s.activeRefreshes.dropWhile (· != e))) = e.payload.normalized := by
          rw [RefreshSlot.Settled, hxp, hxq, Option.some.injEq,
            if_neg (show ¬ compatibleRefreshVersions.contains e.payload.version.read = true from hc)]
          exact and_iff_right hxl
        constructor
        · intro h
          refine ⟨fun e' he' hk' _ _ => ?_, fun e' he' hk' hr' => ?_, fun h => (hins h).elim⟩
          · rw [hone e' he' hk']
            exact hset.mp (h x hx)
          · rw [hone e' he' hk', hnr] at hr'
            cases hr'
        · intro h y hy
          obtain rfl : x = y := Option.some.inj (hx.symm.trans hy)
          exact hset.mpr (h.running e he hk hf hst)
      · -- a waiting job of another version
        obtain ⟨x, hx, -, -, hcur, hpl, -⟩ := hb.reinserted he hk hl hr
        have hset := (RefreshSlot.settled_of_current hcur).trans hpl
        constructor
        · intro h
          refine ⟨fun e' he' hk' _ hl' => ?_, fun e' he' hk' _ => ?_, fun h => (hins h).elim⟩
          · rw [hone e' he' hk'] at hl'
            exact absurd hl' hst
          · rw [hone e' he' hk']
            exact hset.mp (h x hx)
        · intro h y hy
          obtain rfl : x = y := Option.some.inj (hx.symm.trans hy)
          exact hset.mpr (h.rebuilt e he hk hr)
  · -- a key without a job
    have hno : ∀ e, s.Refreshing e → e.dedupeKey ≠ refreshKey i := fun e he hk => hex ⟨e, he, hk⟩
    constructor
    · intro h
      refine ⟨fun e he hk => absurd hk (hno e he), fun e he hk => absurd hk (hno e he),
        fun _ j rest hreq => ?_⟩
      obtain ⟨x, hx, -, -, hcur, hpl, -⟩ := hb.requested hno hreq
      exact ((RefreshSlot.settled_of_current hcur).trans hpl).mp (h x hx)
    · intro h y hy
      cases hreq : requestsOf i s.activeRefreshes with
      | nil =>
        rw [(Queue.slotAfter_none hno).1 hreq] at hy
        cases hy
      | cons j rest =>
        obtain ⟨x, hx, -, -, hcur, hpl, -⟩ := hb.requested hno hreq
        obtain rfl : x = y := Option.some.inj (hx.symm.trans hy)
        exact ((RefreshSlot.settled_of_current hcur).trans hpl).mpr (h.inserted hno j rest hreq)

/-- Every row is at rest after a pass. -/
theorem Progress.settled_iff (hb : s.RefreshBacklog) (hp : Progress s s.activeRefreshes [] s') :
    (∀ x, s'.Refreshing x → x.Settled) ↔ ∀ i, s.Lists i → s.Rests i := by
  constructor
  · intro h i hi
    refine (hb.rests_iff hi).mp fun x hx => ?_
    obtain ⟨e, he, hk⟩ := hp.filled i hi (by simp [hx])
    obtain ⟨hs, hh⟩ := hp.slot i hi e he hk
    obtain rfl : x = e.slot := Option.some.inj (hx.symm.trans hs)
    exact (WorkJob.settled_iff hh.payload).mp (h e he)
  · intro h x hx
    rcases hp.cases hx with ⟨k, hk, -, hr, rfl⟩ | ⟨i, hi, -, -, -, hpay, hs⟩
    · exact WorkJob.settled_repaired (hb.payload k hk) hr
    · exact (WorkJob.settled_iff hpay).mpr ((hb.rests_iff hi).mpr (h i hi) _ hs)

/-- What the repaired row of another key carries. -/
theorem WorkJob.carries_repaired (h : k.payload.Refreshable) (hr : k.rebuilt = false) :
    (∃ q ∈ k.repaired.carried, q.observed = some m) ↔ k.payload.observed = some m ∨
      (k.compatible = true ∧ ∃ q, k.pendingPayload = some q ∧ q.observed = some m) := by
  have hn := (sameObservation_normalized k.payload).observed
  rw [carries_slot]
  by_cases hc : k.compatible = true
  · have hrep : k.repaired.payload.observed = k.payload.observed ∧
        k.repaired.pendingPayload = k.pendingPayload := by
      rcases WorkJob.action_compatible h hc with ⟨ha, -⟩ | ⟨ha | ha, -⟩
      · simp only [WorkJob.repaired, ha, and_self]
      · simp only [WorkJob.repaired, ha]
        exact ⟨hn, rfl⟩
      · simp only [WorkJob.repaired, ha]
        exact ⟨hn, rfl⟩
    show k.repaired.payload.observed = some m ∨
      (∃ q, k.repaired.pendingPayload = some q ∧ q.observed = some m) ↔ _
    rw [hrep.1, hrep.2]
    simp only [hc, true_and]
  · rcases WorkJob.action_incompatible h (by simpa using hc) with ⟨-, -, ha⟩ | ⟨-, hr', -⟩
    · have hrep : k.repaired = k.deferred k.payload.normalized := by
        simp only [WorkJob.repaired, ha]
      rw [hrep]
      constructor
      · rintro (hp | ⟨q, hq, hqm⟩)
        · exact .inl hp
        · obtain rfl := Option.some.inj hq
          exact .inl (hn.symm.trans hqm)
      · rintro (hp | ⟨hc', -⟩)
        · exact .inl hp
        · exact absurd hc' hc
    · rw [hr] at hr'
      cases hr'

/-- What the job of a canonical key carries, once it is at rest. -/
theorem Queue.RefreshBacklog.carries_iff (hb : s.RefreshBacklog) (hi : s.Lists i)
    (hm : s.IsNewest i m) (hrest : s.Rests i) :
    (∃ x, s.slotAfter i s.activeRefreshes = some x ∧ x.Carries m) ↔
      (∃ e, s.Refreshing e ∧ e.dedupeKey = refreshKey i ∧ e.rebuilt = false ∧
        e.status = .leased ∧ e.payload.observed = some m) ∨
      (∃ e q, s.Refreshing e ∧ e.dedupeKey = refreshKey i ∧ e.compatible = true ∧
        e.status ≠ .leased ∧ e.pendingPayload = some q ∧ q.observed = some m) ∨
      ((∀ e, s.Refreshing e → e.dedupeKey = refreshKey i → e.compatible = true ∨
        e.status ≠ .leased) ∧
        Stands m (((s.activeJob .sourceRefresh (refreshKey i)).map (·.coalesceBase)).toList ++
          asked i s.activeRefreshes)) := by
  by_cases hex : ∃ e, s.Refreshing e ∧ e.dedupeKey = refreshKey i
  · obtain ⟨e, he, hk⟩ := hex
    have hl := hb.listing_of_key hi he hk
    have hone : ∀ e', s.Refreshing e' → e'.dedupeKey = refreshKey i → e' = e :=
      fun e' he' hk' => hb.tables.key_eq he' he (hk'.trans hk.symm)
    have hbase : ∃ v, e.coalesceBase.observed = some v ∧ v ≤ m := by
      refine hm.le _ (Queue.mem_observations.mpr ⟨e, he, hl, ?_⟩)
      unfold WorkJob.coalesceBase WorkJob.carried
      split
      · cases e.pendingPayload <;> simp
      · exact List.mem_cons_self
    have hstands := winner_newest_iff hbase (hm.asked_le refreshing_all)
    rw [hb.tables.activeJob_eq he hk]
    show _ ↔ _ ∨ _ ∨ _ ∧ Stands m (e.coalesceBase :: asked i s.activeRefreshes)
    rw [← hstands]
    -- the three ways, of the only job
    have hrhs : ∀ {P Q : WorkJob → Prop},
        ((∃ e, s.Refreshing e ∧ e.dedupeKey = refreshKey i ∧ P e) ↔ P e) ∧
          ((∀ e, s.Refreshing e → e.dedupeKey = refreshKey i → Q e) ↔ Q e) := by
      intro P Q
      refine ⟨⟨?_, fun h => ⟨e, he, hk, h⟩⟩, fun h => h e he hk, fun h e' he' hk' => ?_⟩
      · rintro ⟨e', he', hk', h⟩
        exact hone e' he' hk' ▸ h
      · exact (hone e' he' hk').symm ▸ h
    rw [(hrhs (P := fun e => e.rebuilt = false ∧ e.status = .leased ∧ e.payload.observed = some m)
        (Q := fun e => e.compatible = true ∨ e.status ≠ .leased)).1,
      (hrhs (P := fun _ => True) (Q := fun e => e.compatible = true ∨ e.status ≠ .leased)).2]
    have hpend : (∃ e q, s.Refreshing e ∧ e.dedupeKey = refreshKey i ∧ e.compatible = true ∧
        e.status ≠ .leased ∧ e.pendingPayload = some q ∧ q.observed = some m) ↔
        e.compatible = true ∧ e.status ≠ .leased ∧
          ∃ q, e.pendingPayload = some q ∧ q.observed = some m := by
      constructor
      · rintro ⟨e', q, he', hk', hc, hs, hq, hqm⟩
        obtain rfl := hone e' he' hk'
        exact ⟨hc, hs, q, hq, hqm⟩
      · rintro ⟨hc, hs, q, hq, hqm⟩
        exact ⟨e, q, he, hk, hc, hs, hq, hqm⟩
    rw [hpend]
    by_cases hc : e.compatible = true
    · obtain ⟨x, hx, hxl, -, -, hleased, hwaiting⟩ := hb.readable he hk hl hc
      have hex : (∃ y, s.slotAfter i s.activeRefreshes = some y ∧ y.Carries m) ↔ x.Carries m := by
        simp only [hx, Option.some.injEq, exists_eq_left']
      rw [hex]
      by_cases hst : e.status = .leased
      · have hsl : e.slot.leased = true := beq_iff_eq.mpr hst
        obtain ⟨hpay, hbs⟩ := hleased hsl
        rw [RefreshSlot.carries_leased (hxl.trans hsl), hpay.observed, hbs.observed]
        simp [hst, hc, WorkJob.rebuilt_of_compatible hc]
      · have hsl : e.slot.leased = false := beq_eq_false_iff_ne.mpr hst
        obtain ⟨hpend, hpay⟩ := hwaiting hsl
        rw [RefreshSlot.Carries, hpend, hpay.observed]
        simp only [hst, hc, false_and, and_false, false_or, true_and, ne_eq, not_false_eq_true,
          or_true]
        exact or_comm
    · have hf : e.compatible = false := by simpa using hc
      rcases WorkJob.action_incompatible (hb.payload e he) hf with ⟨hst, hnr, -⟩ | ⟨hst, hr, -⟩
      · obtain ⟨x, hx, -, hxp, hxq⟩ := hb.running he hk hl hf hst
        rw [hrest.running e he hk hf hst] at hxq
        have hex : (∃ y, s.slotAfter i s.activeRefreshes = some y ∧ y.Carries m) ↔ x.Carries m := by
          simp only [hx, Option.some.injEq, exists_eq_left']
        rw [hex, RefreshSlot.Carries, hxp, hxq]
        simp [hf, hst, hnr, (sameObservation_normalized e.payload).observed]
      · obtain ⟨x, hx, -, hxq, -, -, hpay⟩ := hb.reinserted he hk hl hr
        have hex : (∃ y, s.slotAfter i s.activeRefreshes = some y ∧ y.Carries m) ↔ x.Carries m := by
          simp only [hx, Option.some.injEq, exists_eq_left']
        have hbe : e.coalesceBase = e.payload := by simp [WorkJob.coalesceBase, hst]
        rw [hex, RefreshSlot.Carries, hxq, hpay.observed, hbe]
        simp [hf, hst]
  · have hno : ∀ e, s.Refreshing e → e.dedupeKey ≠ refreshKey i := fun e he hk => hex ⟨e, he, hk⟩
    have hnone : s.activeJob .sourceRefresh (refreshKey i) = none :=
      Queue.activeJob_none.mpr fun x hx ha hk => hno x ⟨hx, WorkJob.activeRefresh_iff.mpr ⟨hk, ha⟩⟩
    have hle := hm.asked_le (l := s.activeRefreshes) refreshing_all
    have hrhs : ((∃ x, s.slotAfter i s.activeRefreshes = some x ∧ x.Carries m) ↔
        Stands m (asked i s.activeRefreshes)) := by
      rw [asked] at hle ⊢
      cases hreq : requestsOf i s.activeRefreshes with
      | nil =>
        rw [(Queue.slotAfter_none hno).1 hreq]
        refine iff_of_false ?_ ?_
        · rintro ⟨x, hx, -⟩
          cases hx
        · rintro ⟨pre, q, post, h, -⟩
          cases pre <;> cases h
      | cons j rest =>
        obtain ⟨x, hx, -, hxq, -, -, hxp⟩ := hb.requested hno hreq
        rw [hreq] at hle
        have hstands := winner_newest_iff (hle _ List.mem_cons_self)
          fun r hr => hle r (List.mem_cons_of_mem _ hr)
        rw [List.map_cons, ← hstands, ← hxp]
        refine ⟨?_, fun h => ⟨x, hx, .inl h⟩⟩
        rintro ⟨y, hy, hc⟩
        obtain rfl : x = y := Option.some.inj (hx.symm.trans hy)
        rcases hc with hc | ⟨q, hq, -⟩
        · exact hc
        · rw [hxq] at hq
          cases hq
    rw [hrhs, hnone]
    constructor
    · exact fun h => .inr (.inr ⟨fun e he hk => absurd hk (hno e he), h⟩)
    · rintro (⟨e, he, hk, -⟩ | ⟨e, q, he, hk, -⟩ | ⟨-, h⟩)
      · exact absurd hk (hno e he)
      · exact absurd hk (hno e he)
      · exact h

/-- The newest observation is carried after a pass where it stays. -/
theorem Progress.carries_iff (hb : s.RefreshBacklog) (hp : Progress s s.activeRefreshes [] s')
    (hi : s.Lists i) (hm : s.IsNewest i m) (hrest : s.Rests i) :
    s'.CarriesNewest i m ↔ s.NewestStays i m := by
  have hslot := hb.carries_iff hi hm hrest
  have hoff : ∀ {e}, s.Refreshing e → e.payload.listing = i →
      (e.offKey = true ∨ e.dedupeKey = refreshKey i) := by
    intro e _ hl
    by_cases ho : e.offKey = true
    · exact .inl ho
    · exact .inr (by simpa [WorkJob.offKey, hl] using ho)
  have hkept : ∀ {k}, s.Refreshing k → k.payload.listing = i → k.offKey = true →
      k.rebuilt = false → (∃ q ∈ k.repaired.carried, q.observed = some m) →
      s'.CarriesNewest i m := fun hk hl ho hr hq =>
    ⟨_, hp.kept _ (Queue.mem_activeRefreshes.mpr hk) ho hr,
      (WorkJob.repaired_listing _).trans hl, hq⟩
  have hcanonical : (∃ x, s.slotAfter i s.activeRefreshes = some x ∧ x.Carries m) →
      s'.CarriesNewest i m := by
    rintro ⟨x, hx, hc⟩
    obtain ⟨e, he, hk⟩ := hp.filled i hi (by simp [hx])
    obtain ⟨hs, hh⟩ := hp.slot i hi e he hk
    obtain rfl : x = e.slot := Option.some.inj (hx.symm.trans hs)
    exact ⟨e, he, hh.listing, carries_slot.mpr hc⟩
  constructor
  · rintro ⟨x, hx, hl, hq⟩
    rcases hp.cases hx with ⟨k, hk, ho, hr, rfl⟩ | ⟨i', -, -, hl', -, -, hs⟩
    · rw [k.repaired_listing] at hl
      rcases (WorkJob.carries_repaired (hb.payload k hk) hr).mp hq with h | ⟨hc, q, hq, hqm⟩
      · exact .payload hk hl hr (.inl ho) h
      · exact .pending hk hl hc (.inl ho) hq hqm
    · obtain rfl : i = i' := hl.symm.trans hl'
      rcases hslot.mp ⟨_, hs, carries_slot.mp hq⟩ with ⟨e, he, hk, hr, hst, hem⟩ |
        ⟨e, q, he, hk, hc, hst, hq, hqm⟩ | ⟨hnot, hst⟩
      · exact .payload he (hb.listing_of_key hi he hk) hr (.inr hst) hem
      · exact .pending he (hb.listing_of_key hi he hk) hc (.inr hst) hq hqm
      · exact .asked hnot hst
  · intro h
    cases h with
    | @payload j hj hl hr hor hjm =>
      rcases hoff hj hl with ho | hk
      · exact hkept hj hl ho hr ((WorkJob.carries_repaired (hb.payload j hj) hr).mpr (.inl hjm))
      · refine hcanonical (hslot.mpr (.inl ⟨j, hj, hk, hr, ?_, hjm⟩))
        refine hor.resolve_left fun ho => ?_
        rw [WorkJob.offKey, hl, bne_iff_ne] at ho
        exact ho hk
    | @pending j q hj hl hc hor hq hqm =>
      rcases hoff hj hl with ho | hk
      · exact hkept hj hl ho (WorkJob.rebuilt_of_compatible hc)
          ((WorkJob.carries_repaired (hb.payload j hj) (WorkJob.rebuilt_of_compatible hc)).mpr
            (.inr ⟨hc, q, hq, hqm⟩))
      · refine hcanonical (hslot.mpr (.inr (.inl ⟨j, q, hj, hk, hc, ?_, hq, hqm⟩)))
        refine hor.resolve_left fun ho => ?_
        rw [WorkJob.offKey, hl, bne_iff_ne] at ho
        exact ho hk
    | asked hnot hst => exact hcanonical (hslot.mpr (.inr (.inr ⟨hnot, hst⟩)))

/-- A pass keeps the newest observation of every series, and a second pass changes nothing, exactly
where the newest stays in one of the slots that the repair leaves and the canonical jobs come to
rest. -/
theorem pass_keeps_iff (hb : s.RefreshBacklog) (now : Time) :
    s.PassKeeps now ↔
      ∀ i, s.Lists i → s.Rests i ∧ ∀ m, s.IsNewest i m → s.NewestStays i m := by
  obtain ⟨s', hs', hp⟩ := hb.pass now
  have hself := (hp.backlog hb).pass_self_iff.trans (hp.settled_iff hb)
  constructor
  · rintro ⟨q, hq, hkeep, hstill⟩
    obtain rfl : s' = q := Except.ok.inj (hs'.symm.trans hq)
    intro i hi
    have hrest := hself.mp hstill i hi
    refine ⟨hrest, fun m hm => ?_⟩
    obtain ⟨m', hm', hc⟩ := hkeep i hi
    obtain rfl := hm.unique hm'
    exact (hp.carries_iff hb hi hm hrest).mp hc
  · intro h
    refine ⟨s', hs', fun i hi => ?_, hself.mpr fun i hi => (h i hi).1⟩
    obtain ⟨m, hm⟩ := hb.exists_newest hi
    exact ⟨m, hm, (hp.carries_iff hb hi hm (h i hi).1).mpr ((h i hi).2 m hm)⟩

end

/-! ## Two queues -/

/-- A job of another version that waits for its retry, and an observation that was made while it
ran. -/
def overtakenRefresh : Queue where
  jobs := [{
    id := 1, kind := .sourceRefresh, dedupeKey := "refresh:asura:painter"
    payload := .sourceRefresh { version := .number 99, source := "asura", sourceId := "painter"
                                title := "Painter", url := "u", observationVersion := "1" }
    pendingPayload := some (.sourceRefresh
      { version := .number 99, source := "asura", sourceId := "painter", title := "Painter"
        url := "u", observationVersion := "2" })
    source := "asura", seriesKey := "", pool := "refresh:asura", cycleId := none
    workflowKey := "w", groupKey := "w", logicalUnits := 1, status := .retryWait, priority := 100
    attempts := 1, maxAttempts := 3, availableAt := 0, createdAt := 0, updatedAt := 0 }]
  nextJob := 2

/-- Its observation is given to a running job of the same series. -/
def legacyRefresh : Queue where
  jobs := [{
    id := 1, kind := .sourceRefresh, dedupeKey := "refresh:asura:painter"
    payload := .sourceRefresh { version := .number 2, source := "asura", sourceId := "painter"
                                title := "Painter", url := "u", observationVersion := "1" }
    source := "asura", seriesKey := "", pool := "refresh:asura", cycleId := none
    workflowKey := "", groupKey := "w", logicalUnits := 1, status := .leased, priority := 100
    attempts := 1, maxAttempts := 3, availableAt := 0, leaseOwner := "w"
    leaseExpiresAt := some 10, createdAt := 0, updatedAt := 0 }, {
    id := 2, kind := .sourceRefresh, dedupeKey := "refresh:painter"
    payload := .sourceRefresh { version := .text "next", source := "asura", sourceId := "painter"
                                title := "Painter", url := "u", observationVersion := "2" }
    source := "asura", seriesKey := "", pool := "refresh:asura", cycleId := none
    workflowKey := "w", groupKey := "w", logicalUnits := 1, priority := 100, maxAttempts := 3
    availableAt := 0, createdAt := 0, updatedAt := 0 }]
  nextJob := 3

section
variable {s : Queue}

/-- The promises, of the rows there are. -/
theorem refreshBacklog_of (hk : Table.Keyed WorkJob.id s.jobs)
    (hj : ∀ j ∈ s.jobs, j.id < s.nextJob ∧ 1 ≤ j.maxAttempts ∧ j.source = j.payload.listing.1 ∧
      ∀ q ∈ j.carried, q.kind = .sourceRefresh ∧ q.normalized.validate = true ∧
        q.observed.isSome = true)
    (hp : ∀ j ∈ s.jobs, ∀ k ∈ s.jobs, (j.dedupeKey = k.dedupeKey → j = k) ∧
      (refreshKey j.payload.listing = refreshKey k.payload.listing ∨
        j.dedupeKey = refreshKey k.payload.listing → j.payload.listing = k.payload.listing)) :
    s.RefreshBacklog := by
  have hq : ∀ x, s.Refreshing x → ∀ q ∈ x.carried, q.Refreshable := by
    intro x hx q hq
    obtain ⟨h₁, h₂, h₃⟩ := (hj x hx.1).2.2.2 q hq
    exact ⟨h₁, h₂, h₃⟩
  exact
    { tables :=
        { jobs := hk
          jobsBelow := fun j hm => (hj j hm).1
          oneActive := fun j hjm k hkm _ _ _ hd => (hp j hjm k hkm).1 hd
          ceiling := fun j hm => (hj j hm).2.1 }
      payload := fun x hx => hq x hx _ List.mem_cons_self
      pending := fun x hx q h => hq x hx q (List.mem_cons_of_mem _ (Option.mem_toList.mpr h))
      source := fun x hx => (hj x hx.1).2.2.1
      apart := fun x y hx hy => (hp x hx.1 y hy.1).2 }

end

theorem overtakenRefresh_lost : overtakenRefresh.RefreshBacklog ∧ ¬ overtakenRefresh.PassKeeps 0 := by
  refine ⟨refreshBacklog_of (by decide +kernel) (by decide +kernel) (by decide +kernel), ?_⟩
  rintro ⟨s', hs', hkeep, -⟩
  have hone : (overtakenRefresh.refreshPass 0).toOption.all (fun s => s.jobs.all fun j =>
      !j.activeRefresh || j.carried.all (·.observed = (Dec.finite 1).value)) = true := by
    decide +kernel
  have hlists : ∃ x ∈ overtakenRefresh.jobs, x.activeRefresh = true ∧
      x.payload.listing = ("asura", "painter") := by decide +kernel
  have htwo : ∃ q ∈ overtakenRefresh.observations ("asura", "painter"),
      q.observed = (Dec.finite 2).value := by decide +kernel
  obtain ⟨x, hx, ha, hl⟩ := hlists
  obtain ⟨m, hm, y, hy, -, q, hq, hqm⟩ := hkeep _ ⟨x, ⟨hx, ha⟩, hl⟩
  have hqone : q.observed = (Dec.finite 1).value := by
    rw [hs'] at hone
    have hall := List.all_eq_true.mp hone y hy.1
    rw [hy.2, Bool.not_true, Bool.false_or] at hall
    exact of_decide_eq_true (List.all_eq_true.mp hall q hq)
  obtain ⟨r, hr, hr₂⟩ := htwo
  obtain ⟨v, hv, hvm⟩ := hm.le r hr
  obtain rfl := Option.some.inj (hqone.symm.trans hqm)
  obtain rfl := Option.some.inj (hr₂.symm.trans hv)
  exact absurd hvm (by decide +kernel)

/-- A newer observation under another key becomes the pending payload of the running job. -/
theorem pass_keeps_legacy : legacyRefresh.PassKeeps 0 ∧
    ∃ m, (Dec.finite 2).value = some m ∧ legacyRefresh.IsNewest ("asura", "painter") m := by
  have hb : legacyRefresh.RefreshBacklog :=
    refreshBacklog_of (by decide +kernel) (by decide +kernel) (by decide +kernel)
  have hall : ∀ x, legacyRefresh.Refreshing x → x.payload.listing = ("asura", "painter") := by
    have h : ∀ x ∈ legacyRefresh.jobs, x.payload.listing = ("asura", "painter") := by decide +kernel
    exact fun x hx => h x hx.1
  have hcompatible : ∀ e, legacyRefresh.Refreshing e →
      e.dedupeKey = refreshKey ("asura", "painter") → e.compatible = true := by
    have h : ∀ e ∈ legacyRefresh.jobs, e.dedupeKey = refreshKey ("asura", "painter") →
        e.compatible = true := by decide +kernel
    exact fun e he => h e he.1
  have hkey : ∃ e ∈ legacyRefresh.jobs, e.activeRefresh = true ∧
      e.dedupeKey = refreshKey ("asura", "painter") := by decide +kernel
  have hobs : ∀ q ∈ legacyRefresh.observations ("asura", "painter"),
      q.observed = (Dec.finite 1).value ∨ q.observed = (Dec.finite 2).value := by decide +kernel
  have htwo : ∃ q ∈ legacyRefresh.observations ("asura", "painter"),
      q.observed = (Dec.finite 2).value := by decide +kernel
  obtain ⟨m₂, hm₂⟩ : ∃ m, (Dec.finite 2).value = some m := ⟨_, rfl⟩
  have hnewest : legacyRefresh.IsNewest ("asura", "painter") m₂ := by
    rw [hm₂] at htwo
    refine ⟨htwo, fun q hq => ?_⟩
    rcases hobs q hq with h | h
    · refine ⟨_, h, ?_⟩
      obtain rfl := Option.some.inj hm₂
      decide +kernel
    · exact ⟨_, h.trans hm₂, le_rfl⟩
  refine ⟨(pass_keeps_iff hb 0).mpr fun i hi => ?_, m₂, hm₂, hnewest⟩
  obtain ⟨x, hx, hl⟩ := hi
  obtain rfl : i = ("asura", "painter") := hl.symm.trans (hall x hx)
  refine ⟨⟨fun e he hk hc => ?_, fun e he hk hr => ?_, fun h => ?_⟩, fun m hm => ?_⟩
  · rw [hcompatible e he hk] at hc
    cases hc
  · rw [WorkJob.rebuilt_of_compatible (hcompatible e he hk)] at hr
    cases hr
  · obtain ⟨e, he, ha, hk⟩ := hkey
    exact absurd hk (h e ⟨he, ha⟩)
  · obtain rfl := hm.unique hnewest
    refine .asked (fun e he hk => .inl (hcompatible e he hk)) ?_
    have hlast : ∃ q ∈ (((legacyRefresh.activeJob .sourceRefresh
        (refreshKey ("asura", "painter"))).map (·.coalesceBase)).toList ++
          asked ("asura", "painter") legacyRefresh.activeRefreshes).getLast?,
        q.observed = (Dec.finite 2).value := by decide +kernel
    obtain ⟨q, hq, hq₂⟩ := hlast
    obtain ⟨pre, heq⟩ := List.getLast?_eq_some_iff.mp hq
    exact ⟨pre, q, [], heq, hq₂.trans hm₂, .inr fun r hr => (by cases hr)⟩

end MangaManager
