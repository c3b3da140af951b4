import MangaManager.Queue.Invariant

/-!
# Units of a workload cycle

A cycle counts the units it was given; they are the units of its jobs that ended
and of those that are still active. Every transition moves units accordingly, but
one: a request merged into a waiting Kavita sync sets the units of the job from
the merged ids alone, and units that the pending payload had brought are lost to
the job while the cycle keeps them. `cycles_balance_iff`: along a run the balance
holds exactly when no such merge lowers the units of its job.
-/

namespace MangaManager

open Lib

/-- Units of the jobs that ended. -/
def WorkloadCycle.settledUnits (c : WorkloadCycle) : Nat :=
  c.successfulUnits + c.failedUnits + c.cancelledUnits

/-- The units a job contributes to the load of cycle `i`. -/
def WorkJob.share (j : WorkJob) (i : Nat) : Nat :=
  if j.cycleId = some i ∧ j.status.isActive = true then max j.logicalUnits 1 else 0

namespace Queue

/-- The units of the active jobs of cycle `i`. -/
def load (s : Queue) (i : Nat) : Nat := (s.jobs.map fun j => j.share i).sum

/-- Every cycle accounts for its units. -/
def Balanced (s : Queue) : Prop :=
  ∀ c ∈ s.cycles, c.totalUnits = c.settledUnits + s.load c.id

instance (s : Queue) : Decidable s.Balanced :=
  inferInstanceAs (Decidable (∀ c ∈ s.cycles, _ = _))

end Queue

/-- A request merged into a waiting Kavita sync leaves the job at least the units it had. -/
def Op.KeepsUnits (op : Op) (s : Queue) : Prop :=
  match op with
  | enqueue a => Queue.checkEnqueue a = .ok () → a.coalesce = true → a.kind = .kavitaSync →
      ∀ e r n, s.activeJob a.kind (strip a.dedupeKey) = some e → e.status ≠ .leased →
        replacementFor a.kind e a.payload = some (r, n) →
        shouldCoalesce a.kind e.coalesceBase r = true →
        e.logicalUnits ≤ max r.seriesIds.length 1
  | _ => True

section
variable {now : Time} {op : Op} {s s' : Queue} {j j' : WorkJob} {c : WorkloadCycle} {n i : Nat}
  {a : EnqueueArgs}

/-! ## One job -/

theorem WorkJob.share_active (ha : j.status.isActive = true) (hi : j.cycleId = some i) :
    j.share i = max j.logicalUnits 1 := if_pos ⟨hi, ha⟩

theorem WorkJob.share_other (hi : j.cycleId ≠ some i) : j.share i = 0 := if_neg fun h => hi h.1

theorem WorkJob.share_ended (ha : j.status.isActive = false) : j.share i = 0 :=
  if_neg fun h => by rw [ha] at h; cases h.2

/-- A merged request adds its units to the job, or takes units from a waiting Kavita sync. -/
theorem coalesceInto_units (h : coalesceInto a now j = some (j', n)) :
    j'.logicalUnits = j.logicalUnits + n ∨ (a.kind = .kavitaSync ∧ j.status ≠ .leased ∧ n = 0 ∧
      j'.logicalUnits < j.logicalUnits) := by
  obtain ⟨r, added, -, -, h⟩ := coalesceInto_some h
  unfold storeReplacement at h
  split at h
  · cases h
    exact .inl rfl
  · rename_i hs
    cases h
    by_cases hk : a.kind = .kavitaSync
    · simp only [if_pos hk, promote]
      by_cases hle : j.logicalUnits ≤ max r.seriesIds.length 1
      · left
        omega
      · right
        exact ⟨hk, hs, by omega, by omega⟩
    · left
      simp [if_neg hk, promote]

/-- An accepted request to a waiting Kavita sync sets its units. -/
theorem coalesceInto_kavita (now : Time) {r : JobPayload} {added : Nat} (hk : a.kind = .kavitaSync)
    (hs : j.status ≠ .leased) (hr : replacementFor a.kind j a.payload = some (r, added))
    (hc : shouldCoalesce a.kind j.coalesceBase r = true) :
    ∃ j', coalesceInto a now j = some (j', max r.seriesIds.length 1 - j.logicalUnits) ∧
      SameJob j j' ∧ j'.status = j.status ∧ j'.logicalUnits = max r.seriesIds.length 1 := by
  have hi : coalesceInto a now j = some (storeReplacement a now r added (promote a now j)) := by
    rw [coalesceInto, hr]
    exact if_pos hc
  rw [storeReplacement, if_neg (show (promote a now j).status ≠ .leased from hs), if_pos hk] at hi
  exact ⟨_, hi, ⟨rfl, rfl, rfl, rfl, rfl, rfl⟩, rfl, rfl⟩

theorem Edit.units (h : Edit now op j j' n) :
    j'.logicalUnits = j.logicalUnits + n ∨ (n = 0 ∧ j'.logicalUnits < j.logicalUnits) := by
  cases h with
  | coalesce _ _ _ _ _ h =>
    rcases coalesceInto_units h with h | ⟨-, -, h⟩
    · exact .inl h
    · exact .inr h
  | _ => exact .inl rfl

/-! ## The load after a change -/

theorem Queue.load_put (hw : s.WellFormed) (hj : j ∈ s.jobs) (hid : j.id = j'.id)
    (hjobs : s'.jobs = Table.put WorkJob.id s.jobs j') :
    s'.load i + j.share i = s.load i + j'.share i := by
  unfold Queue.load
  rw [hjobs]
  exact Table.sum_put (fun k => k.share i) hw.jobs hj hid

/-- One row changed, and each cycle moved by the difference it makes to the cycle. -/
theorem Queue.Balanced.put (hb : s.Balanced) (hw : s.WellFormed) (hj : j ∈ s.jobs)
    (hid : j.id = j'.id) (hjobs : s'.jobs = Table.put WorkJob.id s.jobs j')
    (hc : ∀ c' ∈ s'.cycles, ∃ c ∈ s.cycles, c'.id = c.id ∧
      c'.totalUnits + c.settledUnits + j.share c.id =
        c.totalUnits + c'.settledUnits + j'.share c.id) : s'.Balanced := by
  intro c' hc'
  obtain ⟨c, hm, he, hmove⟩ := hc c' hc'
  have hold := hb c hm
  have hload := Queue.load_put (i := c.id) hw hj hid hjobs
  rw [he]
  omega

/-- The cycle row of a job. -/
theorem Queue.WellFormed.cycle (hw : s.WellFormed) (hj : j ∈ s.jobs) :
    ∃ c ∈ s.cycles, j.cycleId = some c.id ∧
      j.cycleId.bind (Table.get WorkloadCycle.id s.cycles) = some c := by
  obtain ⟨i, hi, he⟩ := hw.jobCycles j hj
  obtain ⟨c, hc, rfl⟩ := List.mem_map.mp hi
  refine ⟨c, hc, he, ?_⟩
  rw [he]
  exact hw.cycles.get_eq hc

/-- An edit that adds its units to the job adds them to the cycle. -/
theorem Queue.Balanced.edit (hb : s.Balanced) (hw : s.WellFormed) (hj : j ∈ s.jobs)
    (hs : SameJob j j') (ha : j.status.isActive = true) (ha' : j'.status.isActive = true)
    (hu : j'.logicalUnits = j.logicalUnits + n) (e : List JobEvent) :
    Queue.Balanced { (s.putJob j').addUnits j'.cycleId n now with events := e } := by
  obtain ⟨c₀, hc₀, hcyc, hget⟩ := hw.cycle hj
  have hpos := (hw.rows j hj).units
  have hcyc' : j'.cycleId = some c₀.id := hs.cycleId.trans hcyc
  refine hb.put hw hj hs.id.symm rfl fun c' hc' => ?_
  change c' ∈ Queue.growCycles s.cycles j'.cycleId n now at hc'
  unfold Queue.growCycles at hc'
  -- a cycle that keeps its counters
  have hkeep : ∀ c ∈ s.cycles, n = 0 ∨ c.id ≠ c₀.id → ∃ d ∈ s.cycles, c.id = d.id ∧
      c.totalUnits + d.settledUnits + j.share d.id =
        d.totalUnits + c.settledUnits + j'.share d.id := by
    intro c hc hor
    refine ⟨c, hc, rfl, ?_⟩
    have hshare : j.share c.id = j'.share c.id := by
      rcases hor with rfl | hne
      · rw [WorkJob.share, WorkJob.share, hs.cycleId, ha, ha', hu, Nat.add_zero]
      · have hne' : (some c₀.id : Option Nat) ≠ some c.id := fun e => hne (Option.some.inj e).symm
        rw [WorkJob.share_other (hcyc ▸ hne'), WorkJob.share_other (hcyc' ▸ hne')]
    omega
  split at hc'
  · rename_i hn
    exact hkeep c' hc' (.inl hn)
  · rw [hs.cycleId, hget] at hc'
    rcases Table.mem_put.mp hc' with ⟨rfl, -⟩ | ⟨hc', hne⟩
    · refine ⟨c₀, hc₀, rfl, ?_⟩
      rw [WorkJob.share_active ha hcyc, WorkJob.share_active ha' hcyc']
      simp only [WorkloadCycle.settledUnits]
      omega
    · exact hkeep c' hc' (.inr hne)

/-- The end of a job moves its units to the counter of its state. -/
theorem Queue.Balanced.terminate (hb : s.Balanced) (hw : s.WellFormed) (hj : j ∈ s.jobs)
    (hs : SameJob j j') (ha : j.status.isActive = true) {st : JobState} (he : Ended j j' st)
    (rows : List WorkJob) (e : List JobEvent) :
    Queue.Balanced { ((s.putJob j').releasePermits j.id).recordTerminalUnits rows j' st now with
      events := e } := by
  obtain ⟨c₀, hc₀, hcyc, hget⟩ := hw.cycle hj
  refine hb.put hw hj hs.id.symm rfl fun c' hc' => ?_
  change c' ∈ Queue.settleCycles s.cycles rows j' st now at hc'
  unfold Queue.settleCycles at hc'
  rw [hs.cycleId, hget] at hc'
  have hended : ∀ i, j'.share i = 0 := fun i =>
    WorkJob.share_ended (he.status.symm ▸ he.inactive)
  rcases Table.mem_put.mp hc' with ⟨rfl, -⟩ | ⟨hc', hne⟩
  · refine ⟨c₀, hc₀, rfl, ?_⟩
    rw [WorkJob.share_active ha hcyc, hended]
    have hin := he.inactive
    simp only [Queue.settleUnits, WorkloadCycle.settledUnits, he.units]
    cases st with
    | queued => cases hin
    | leased => cases hin
    | retryWait => cases hin
    | succeeded => simp; omega
    | failed => simp; omega
    | cancelled => simp; omega
  · refine ⟨c', hc', rfl, ?_⟩
    have hne' : j.cycleId ≠ some c'.id := fun h => hne (Option.some.inj (h.symm.trans hcyc))
    rw [hended, WorkJob.share_other hne']

/-! ## The load of a new job -/

/-- No job belongs to a cycle that is yet to come. -/
theorem Queue.load_fresh (hw : s.WellFormed) (hi : s.nextCycle ≤ i) : s.load i = 0 := by
  unfold Queue.load
  refine List.sum_eq_zero fun x hx => ?_
  obtain ⟨j, hj, rfl⟩ := List.mem_map.mp hx
  obtain ⟨k, hk, hc⟩ := hw.jobCycles j hj
  refine WorkJob.share_other fun h => ?_
  have hlt := hw.cyclesBelow k hk
  have hki : k = i := Option.some.inj (hc.symm.trans h)
  omega

/-- `_active_cycle` moves no units. -/
theorem Queue.Balanced.activeCycle (hb : s.Balanced) (now : Time) (hw : s.WellFormed) :
    ∀ c ∈ (s.activeCycle now).1.cycles, c.totalUnits = c.settledUnits + s.load c.id := by
  have hfresh : ∀ t : Time, ({ id := s.nextCycle, startedAt := t, updatedAt := t } :
      WorkloadCycle).totalUnits = ({ id := s.nextCycle, startedAt := t, updatedAt := t } :
      WorkloadCycle).settledUnits + s.load s.nextCycle := fun t => by
    rw [Queue.load_fresh hw le_rfl]
    rfl
  unfold Queue.activeCycle
  split
  · intro c hc
    rcases List.mem_append.mp hc with hc | hc
    · exact hb c hc
    · rw [List.mem_singleton.mp hc]
      exact hfresh now
  · rename_i c₀ hc₀
    dsimp only
    split
    · intro c hc
      rcases List.mem_append.mp hc with hc | hc
      · rcases Table.mem_put.mp hc with ⟨rfl, -⟩ | ⟨hc, -⟩
        · exact hb c₀ (List.mem_of_mem_filter (List.mem_of_getLast? hc₀))
        · exact hb c hc
      · rw [List.mem_singleton.mp hc]
        exact hfresh now
    · exact hb

theorem Queue.Balanced.insert (hb : s.Balanced) (hw : s.WellFormed) :
    (s.enqueueNew a now).Balanced := by
  have hold := hb.activeCycle now hw
  have hkeyed : Table.Keyed WorkloadCycle.id (s.activeCycle now).1.cycles :=
    (Queue.CyclesGrow.keyed Queue.activeCycle_ids hw).1
  have hpos : (s.insertedJob a now).logicalUnits ≠ 0 := by
    show max a.logicalUnits 1 ≠ 0
    omega
  have hload : ∀ i, (s.enqueueNew a now).load i = s.load i + (s.insertedJob a now).share i := by
    intro i
    rw [Queue.load, Queue.enqueueNew_jobs]
    simp [Queue.load]
  have hcyc : (s.insertedJob a now).cycleId = some (s.activeCycle now).2.id := rfl
  have hcycles : (s.enqueueNew a now).cycles = Queue.growCycles (s.activeCycle now).1.cycles
      (s.insertedJob a now).cycleId (s.insertedJob a now).logicalUnits now := by
    rw [← Queue.newJob_activeCycle]
    rfl
  intro c hc
  rw [hcycles, Queue.growCycles, if_neg hpos, hcyc, Option.bind_some,
    hkeyed.get_eq Queue.activeCycle_mem] at hc
  rw [hload]
  rcases Table.mem_put.mp hc with ⟨rfl, -⟩ | ⟨hc, hne⟩
  · have hb₀ := hold _ Queue.activeCycle_mem
    rw [WorkJob.share_active (by rfl) hcyc]
    simp only [WorkloadCycle.settledUnits] at hb₀ ⊢
    omega
  · rw [WorkJob.share_other fun h => hne (Option.some.inj (hcyc.symm.trans h)).symm]
    exact hold c hc

/-! ## Calls -/

/-- A change of a row that keeps its units. -/
theorem Queue.Balanced.same (hb : s.Balanced) (hw : s.WellFormed) (hj : j ∈ s.jobs)
    (hs : SameJob j j') (ha : j.status.isActive = j'.status.isActive)
    (hu : j'.logicalUnits = j.logicalUnits) (hjobs : s'.jobs = Table.put WorkJob.id s.jobs j')
    (hcycles : s'.cycles = s.cycles) : s'.Balanced := by
  refine hb.put hw hj hs.id.symm hjobs fun c hc => ⟨c, hcycles ▸ hc, rfl, ?_⟩
  rw [WorkJob.share, WorkJob.share, hs.cycleId, ha, hu]

/-- A transition keeps the balance if its edit does not lower the units of the job. -/
theorem Transition.balanced (h : Transition now op s s') (hw : s.WellFormed) (hb : s.Balanced)
    (hk : ∀ j j' n, j ∈ s.jobs → Edit now op j j' n → j.logicalUnits ≤ j'.logicalUnits) :
    s'.Balanced := by
  cases h with
  | insert _ _ => exact hb.insert hw
  | @edit _ _ j j' n e hj he =>
    have ha := (RowStep.edit he).active
    have hle := hk _ _ _ hj he
    refine hb.edit hw hj (RowStep.edit he).sameJob ha (he.edited.active ▸ ha) ?_ e
    rcases he.units with hu | ⟨-, hlt⟩
    · exact hu
    · omega
  | unlease hj hu =>
    refine hb.same hw hj (RowStep.unlease hu).sameJob ?_ hu.active.2 rfl rfl
    rw [hu.active.1, (RowStep.unlease hu).active]
  | terminate hj ht =>
    exact hb.terminate hw hj (RowStep.terminate ht).sameJob ht.active ht.ended _ _
  | renew hj hl ho hp =>
    exact hb.same hw hj (RowStep.renew rfl hl ho hp).sameJob rfl rfl rfl rfl
  | @grant env a _ j e hj hr ha _ _ _ ho hl =>
    have hstep : RowStep now (.claim env a) j (j.lease (strip a.owner) a.leaseFor now) :=
      .grant rfl hr ha ho hl
    exact hb.same hw hj hstep.sameJob hstep.active rfl rfl rfl
  | dropPermits _ _ => exact hb
  | cleanup => exact hb

/-- The condition of the call is that of its edit. -/
theorem Op.KeepsUnits.edit (h : op.KeepsUnits s) (hw : s.WellFormed) (hj : j ∈ s.jobs)
    (he : Edit now op j j' n) : j.logicalUnits ≤ j'.logicalUnits := by
  cases he with
  | @coalesce a _ _ _ hk hd ha hco hc hi =>
    rcases coalesceInto_units hi with hu | ⟨hkind, hs, hn, hlt⟩
    · rw [hu]
      exact Nat.le_add_right _ _
    · obtain ⟨r, added, hr, hsh, hst⟩ := coalesceInto_some hi
      have hle := h hc hco hkind j r added (hk ▸ hd ▸ Queue.activeJob_eq hw hj ha) hs hr hsh
      unfold storeReplacement at hst
      split at hst
      · rename_i hl
        exact absurd hl hs
      · cases hst
        simpa [hkind] using hle
  | _ => exact le_rfl

/-- A balanced queue stays balanced exactly when the call keeps the units. -/
theorem Op.balanced_iff (hw : s.WellFormed) (hb : s.Balanced) :
    (op.apply s now).Balanced ↔ op.KeepsUnits s := by
  constructor
  · intro h
    cases op with
    | enqueue a =>
      intro hc hco hk e r m he hs hr hsh
      by_contra hlt
      obtain ⟨hm, hek, -, ha⟩ := Queue.activeJob_some he
      -- the row that takes the request, with fewer units than before
      obtain ⟨e', hi, hsame, hst, hu⟩ :=
        coalesceInto_kavita now (j := e.repool a.routedPool now) hk hs hr hsh
      have hzero : max r.seriesIds.length 1 - (e.repool a.routedPool now).logicalUnits = 0 := by
        show max r.seriesIds.length 1 - e.logicalUnits = 0
        omega
      have happ : (Op.enqueue a).apply s now = s.putJob e' := by
        simp only [Op.apply, Queue.enqueue, hc, he, committed, Queue.enqueueExisting, hco, if_true,
          hi, hzero, Queue.addUnits, Queue.growCycles]
      obtain ⟨c, hcm, hcyc, -⟩ := hw.cycle hm
      have hcyc' : e'.cycleId = some c.id := hsame.cycleId.trans hcyc
      have ha' : e'.status.isActive = true := hst ▸ ha
      have hold := hb c hcm
      have hnew := h c (by rw [happ]; exact hcm)
      have hload : (s.putJob e').load c.id + e.share c.id = s.load c.id + e'.share c.id :=
        Queue.load_put hw hm hsame.id.symm rfl
      rw [happ] at hnew
      rw [WorkJob.share_active ha hcyc, WorkJob.share_active ha' hcyc', hu] at hload
      omega
    | _ => trivial
  · intro hk
    refine Op.apply_inv_of (C := op.KeepsUnits) hw hb hk
      (fun hsweep q => by cases op <;> trivial) ?_
    intro q q' hkq hwq hbq ht
    exact ht.balanced hwq hbq fun j j' n hj he => hkq.edit hwq hj he

end

/-! ## Runs -/

section
variable {t₀ : Time} {tr : List (Clocked × (Op × Time))} {c : Clocked}

/-- All along a run the cycles account for their units, exactly when every request merged into a
waiting Kavita sync keeps the units of the job. -/
theorem cycles_balance_iff (h : QueueRun t₀ tr c) :
    (∀ x, Run.Visits tr c x → x.queue.Balanced) ↔ Run.Meets (fun x l => l.1.KeepsUnits x.queue) tr := by
  refine h.always_iff (I := fun x => x.queue.WellFormed) (P := fun x => x.queue.Balanced)
    Queue.wellFormed_empty (fun c hc => by cases hc) ?_ ?_
  · rintro x l x' hw ⟨-, rfl⟩
    exact Op.apply_wellFormed _ _ hw
  · rintro x l x' hw hb ⟨-, rfl⟩
    exact Op.balanced_iff hw hb

/-- A Kavita sync that is asked for two more series while it runs, retried, and asked for a
fourth one while it waits. -/
def kavitaCalls : List (Op × Time) :=
  let sync (ids : List Nat) : Op := .enqueue
    { kind := .kavitaSync, dedupeKey := "k", payload := .kavitaSync { seriesIds := ids }
      coalesce := true }
  [(sync [1], 0), (.claim {} { owner := "w", leaseFor := 10 }, 1), (sync [2, 3], 2),
    (.retry 1 "w" 4 "error" "", 3), (sync [4], 5)]

/-- Its cycle counts three units, and the job is left with two. -/
theorem kavitaCalls_unbalanced : ∃ tr c, QueueRun 0 tr c ∧ tr.map Prod.snd = kavitaCalls ∧
    ¬ c.queue.Balanced :=
  ⟨_, _, QueueRun.replay 0 kavitaCalls (by decide +kernel), rfl, by decide +kernel⟩

/-- Up to its retry that run keeps the units, and is balanced. -/
theorem cycles_balance_iff_retried : ∃ tr c, QueueRun 0 tr c ∧
    tr.map Prod.snd = kavitaCalls.take 4 ∧ ∀ x, Run.Visits tr c x → x.queue.Balanced := by
  have hrun := QueueRun.replay 0 (kavitaCalls.take 4) (by decide +kernel)
  refine ⟨_, _, hrun, rfl, (cycles_balance_iff hrun).mpr ?_⟩
  have hleased : ∀ e, (replay 0 (kavitaCalls.take 2)).queue.activeJob .kavitaSync
      (strip "k") = some e → e.status = .leased := by
    have hall : ((replay 0 (kavitaCalls.take 2)).queue.activeJob .kavitaSync (strip "k")).all
        (fun e => e.status = .leased) = true := by decide +kernel
    exact fun e he => of_decide_eq_true ((Option.all_eq_true _ _).mp hall e he)
  simp only [kavitaCalls, List.take, Run.history, Run.Meets, List.mem_cons, List.not_mem_nil,
    or_false, forall_eq_or_imp, forall_eq, Op.KeepsUnits, and_true]
  refine ⟨fun _ _ _ e r n he => (by cases he), trivial, fun _ _ _ e r n he hs => ?_⟩
  exact absurd (hleased e he) hs

end

end MangaManager
