import MangaManager.Queue.Invariant
import MangaManager.Queue.Transactions

/-!
# The counters of a cycle, with calls beside each other

The counters of a cycle are the units of the calls that were committed, and a settled
cycle has no active job, in every interleaving in which a cycle is written as it was
loaded (`cycles_counted`). `_active_cycle` locks the row it returns, so the condition is
about the other two writers: `_record_terminal_units` and the coalescing branch write an
increment of the value they loaded without a lock, and two of them lose units of each
other (`finishes_lose_units`).

What a program knows between two statements is a list of `CycleFact`s. Those about a row are
kept by its lock. The others need none: a cycle never counts less than it did, and while
its total stays the same it gets no new active job (`Grown`).
-/

namespace MangaManager

open Lib ReadCommitted

/-- The counter `k` of a cycle. -/
def WorkloadCycle.units (c : WorkloadCycle) : UnitCounter → Nat
  | .total => c.totalUnits
  | .successful => c.successfulUnits
  | .failed => c.failedUnits
  | .cancelled => c.cancelledUnits

/-- The units of `k` among the booked ones. -/
def bookedUnits (booked : List BookedUnits) (id : Nat) (k : UnitCounter) : Nat :=
  ((booked.filter fun b => b.cycleId == id && b.counter == k).map (·.units)).sum

namespace CycleTables

/-- The job `id` is an active one of the cycle `i`. -/
def Active (db : CycleTables) (i id : Nat) : Prop :=
  ∃ j ∈ db.queue.jobs, j.id = id ∧ j.cycleId = some i ∧ j.status.isActive = true

/-- The counters are the sums of the units of the committed calls, and a settled cycle has no
active job. -/
structure Counted (db : CycleTables) : Prop where
  counters : ∀ c ∈ db.queue.cycles, ∀ k, c.units k = bookedUnits db.booked c.id k
  settled : ∀ c ∈ db.queue.cycles, c.status = .settled → ∀ id, ¬ db.Active c.id id

/-- The invariant of the transactions. -/
structure Sound (db : CycleTables) : Prop extends Counted db where
  jobs : Table.Keyed WorkJob.id db.queue.jobs
  cycles : Table.Keyed WorkloadCycle.id db.queue.cycles
  booked : ∀ b ∈ db.booked, ∃ c ∈ db.queue.cycles, c.id = b.cycleId

/-- Cycles stay and count no less, and one whose total stays the same gets no active job. -/
def Grown (db db' : CycleTables) : Prop := ∀ c ∈ db.queue.cycles, ∃ c' ∈ db'.queue.cycles,
  c'.id = c.id ∧ c.totalUnits ≤ c'.totalUnits ∧
    (c'.totalUnits = c.totalUnits → ∀ id, db'.Active c.id id → db.Active c.id id)

theorem Grown.refl (db : CycleTables) : Grown db db :=
  fun c hc => ⟨c, hc, rfl, le_rfl, fun _ _ h => h⟩

theorem Grown.trans {a b c : CycleTables} (h : Grown a b) (h' : Grown b c) : Grown a c := by
  intro x hx
  obtain ⟨y, hy, hid, hle, hact⟩ := h x hx
  obtain ⟨z, hz, hid', hle', hact'⟩ := h' y hy
  refine ⟨z, hz, hid'.trans hid, hle.trans hle', fun he id ha => ?_⟩
  rw [hid] at hact'
  exact hact (by omega) id (hact' (by omega) id ha)

theorem Sound.cycle?_eq {db : CycleTables} {c : WorkloadCycle} (h : db.Sound)
    (hc : c ∈ db.queue.cycles) : db.cycle? c.id = some c := h.cycles.get_eq hc

end CycleTables

/-- The cycle that is written is as it was loaded. -/
def CycleChange.FindsLoaded (db : CycleTables) : CycleChange → Prop
  | updateCycle loaded _ _ => db.cycle? loaded.id = some loaded
  | updateJob _ _ | insertJob _ | insertCycle _ => True

/-- Every cycle that the changes write is as it was loaded. -/
def FindsLoaded (db : CycleTables) : List CycleChange → Prop
  | [] => True
  | w :: ws => w.FindsLoaded db ∧ FindsLoaded (db.apply w) ws

theorem findsLoaded_append {db : CycleTables} {xs ys : List CycleChange} :
    FindsLoaded db (xs ++ ys) ↔
      FindsLoaded db xs ∧ FindsLoaded (xs.foldl CycleTables.apply db) ys := by
  induction xs generalizing db with
  | nil => simp [FindsLoaded]
  | cons w ws ih =>
    simp only [List.cons_append, FindsLoaded, List.foldl_cons, ih, and_assoc]

/-! ## What one change leaves -/

section
variable {db db' : CycleTables} {w : CycleChange} {i id : Nat} {loaded written : WorkJob}
  {c c' : WorkloadCycle} {b : List BookedUnits}

theorem flushColumn_self {α : Type*} [DecidableEq α] (loaded written : α) :
    flushColumn loaded written loaded = written := by
  unfold flushColumn
  split
  · assumption
  · rfl

theorem bookedUnits_append (xs ys : List BookedUnits) (id : Nat) (k : UnitCounter) :
    bookedUnits (xs ++ ys) id k = bookedUnits xs id k + bookedUnits ys id k := by
  simp [bookedUnits, List.filter_append]

/-- Nothing is booked for a cycle that is not there. -/
theorem bookedUnits_eq_zero {xs : List BookedUnits} (h : ∀ x ∈ xs, x.cycleId ≠ id)
    (k : UnitCounter) : bookedUnits xs id k = 0 := by
  have hnil : (xs.filter fun b => b.cycleId == id && b.counter == k) = [] := by
    refine List.filter_eq_nil_iff.mpr fun x hx => ?_
    simp [h x hx]
  rw [bookedUnits, hnil]
  rfl

theorem WorkloadCycle.flush_self_units (c c' : WorkloadCycle) (k : UnitCounter) :
    (c.flush c' c).units k = c'.units k := by
  cases k <;> exact flushColumn_self _ _

/-- A change that starts no job, and counts what it books. -/
def CycleChange.Ok (db : CycleTables) : CycleChange → Prop
  | updateJob loaded written => written.status.isActive = true → written.status = loaded.status ∨
      ∀ j ∈ db.queue.jobs, j.id = loaded.id → j.status.isActive = true
  | updateCycle loaded written booked => db.cycle? loaded.id = some loaded ∧
      (∀ k, written.units k = loaded.units k + bookedUnits booked loaded.id k) ∧
      (∀ b ∈ booked, b.cycleId = loaded.id) ∧
      (written.status = .settled → ∀ id, ¬ db.Active loaded.id id)
  | insertCycle c => db.cycle? c.id = none ∧ (∀ k, c.units k = 0) ∧ c.status = .active
  | insertJob _ => False

/-- The jobs that a change of a job leaves active were active. -/
theorem active_updateJob (h : CycleChange.Ok db (.updateJob loaded written))
    (ha : (db.apply (.updateJob loaded written)).Active i id) : db.Active i id := by
  obtain ⟨j, hj, hid, hc, hact⟩ := ha
  obtain ⟨row, hrow, rfl⟩ := List.mem_map.mp hj
  split at hid
  · rename_i he
    rw [if_pos he] at hc hact
    refine ⟨row, hrow, hid, hc, ?_⟩
    change (flushColumn loaded.status written.status row.status).isActive = true at hact
    unfold flushColumn at hact
    split at hact
    · exact hact
    · rename_i hne
      rcases h hact with hs | hall
      · exact absurd hs.symm hne
      · exact hall row hrow he
  · rename_i he
    rw [if_neg he] at hc hact
    exact ⟨row, hrow, hid, hc, hact⟩

/-- A job that was ended is not active. -/
theorem not_active_ended (ha : loaded.status.isActive = true)
    (he : written.status.isActive = false) :
    ¬ (db.apply (.updateJob loaded written)).Active i loaded.id := by
  rintro ⟨j, hj, hid, -, hact⟩
  obtain ⟨row, hrow, rfl⟩ := List.mem_map.mp hj
  split at hid
  · rename_i hr
    rw [if_pos hr] at hact
    change (flushColumn loaded.status written.status row.status).isActive = true at hact
    have hne : loaded.status ≠ written.status := fun h => by rw [h, he] at ha; cases ha
    rw [flushColumn, if_neg hne, he] at hact
    cases hact
  · rename_i hr
    exact hr hid

/-- A change of one cycle. -/
theorem mem_updateCycle {x : WorkloadCycle}
    (h : x ∈ (db.apply (.updateCycle c c' b)).queue.cycles) :
    x ∈ db.queue.cycles ∧ x.id ≠ c.id ∨ ∃ d ∈ db.queue.cycles, d.id = c.id ∧ x = c.flush c' d := by
  obtain ⟨d, hd, rfl⟩ := List.mem_map.mp h
  split
  · rename_i he
    exact .inr ⟨d, hd, he, rfl⟩
  · rename_i he
    exact .inl ⟨hd, he⟩

/-- One change keeps the invariant and the guarantee. -/
theorem CycleChange.Ok.sound (h : db.Sound) (hw : w.Ok db) :
    (db.apply w).Sound ∧ db.Grown (db.apply w) := by
  cases w with
  | insertJob j => exact hw.elim
  | updateJob loaded written =>
    refine ⟨⟨⟨h.counters, fun c hc hs id ha => h.settled c hc hs id (active_updateJob hw ha)⟩, ?_,
      h.cycles, h.booked⟩, fun c hc => ⟨c, hc, rfl, le_rfl, fun _ id ha => active_updateJob hw ha⟩⟩
    refine h.jobs.map fun x _ y _ he => ?_
    split at he <;> split at he <;> exact he
  | updateCycle loaded written booked =>
    obtain ⟨hget, hunits, hbooked, hsettled⟩ := hw
    have hmem : loaded ∈ db.queue.cycles := Table.get_mem hget
    have hrow : ∀ d ∈ db.queue.cycles, d.id = loaded.id → d = loaded := fun d hd he =>
      h.cycles.eq hd hmem he
    have hother : ∀ c : WorkloadCycle, c.id ≠ loaded.id → ∀ k,
        bookedUnits booked c.id k = 0 := fun c hne k =>
      bookedUnits_eq_zero (fun x hx he => hne (he.symm.trans (hbooked x hx))) k
    refine ⟨⟨⟨fun c hc k => ?_, fun c hc hs id ha => ?_⟩, h.jobs, ?_, fun x hx => ?_⟩,
      fun c hc => ?_⟩
    · show c.units k = bookedUnits (db.booked ++ booked) c.id k
      rw [bookedUnits_append]
      rcases mem_updateCycle hc with ⟨hc, hne⟩ | ⟨d, hd, he, rfl⟩
      · rw [hother c hne, Nat.add_zero]
        exact h.counters c hc k
      · obtain rfl := hrow d hd he
        rw [WorkloadCycle.flush_self_units, hunits, h.counters d hd]
        rfl
    · rcases mem_updateCycle hc with ⟨hc, -⟩ | ⟨d, hd, he, rfl⟩
      · exact h.settled c hc hs id ha
      · obtain rfl := hrow d hd he
        refine hsettled ?_ id ha
        exact (flushColumn_self d.status written.status).symm.trans hs
    · refine h.cycles.map fun x _ y _ he => ?_
      split at he <;> split at he <;> exact he
    · rcases List.mem_append.mp hx with hx | hx
      · obtain ⟨c, hc, he⟩ := h.booked x hx
        refine ⟨_, List.mem_map_of_mem hc, ?_⟩
        split <;> exact he
      · refine ⟨_, List.mem_map_of_mem hmem, ?_⟩
        rw [if_pos rfl]
        exact (hbooked x hx).symm
    · refine ⟨_, List.mem_map_of_mem hc, ?_, ?_, fun _ _ ha => ha⟩
      · split <;> rfl
      · split
        · rename_i he
          obtain rfl := hrow c hc he
          have htotal := hunits .total
          have hflush := WorkloadCycle.flush_self_units c written .total
          simp only [WorkloadCycle.units] at htotal hflush
          omega
        · exact le_rfl
  | insertCycle c =>
    obtain ⟨hnone, hzero, hactive⟩ := hw
    have hnew : ∀ x ∈ db.queue.cycles, x.id ≠ c.id := Table.get_eq_none.mp hnone
    refine ⟨⟨⟨fun x hx k => ?_, fun x hx hs id ha => ?_⟩, h.jobs,
      Table.keyed_append.mpr ⟨h.cycles, hnew⟩, fun x hx => ?_⟩, fun x hx => ?_⟩
    · rcases List.mem_append.mp hx with hx | hx
      · exact h.counters x hx k
      · obtain rfl := List.mem_singleton.mp hx
        rw [hzero]
        refine (bookedUnits_eq_zero (fun y hy he => ?_) k).symm
        obtain ⟨d, hd, hid⟩ := h.booked y hy
        exact hnew d hd (hid.trans he)
    · rcases List.mem_append.mp hx with hx | hx
      · exact h.settled x hx hs id ha
      · obtain rfl := List.mem_singleton.mp hx
        rw [hactive] at hs
        cases hs
    · obtain ⟨d, hd, hid⟩ := h.booked x hx
      exact ⟨d, List.mem_append_left _ hd, hid⟩
    · exact ⟨x, List.mem_append_left _ hx, rfl, le_rfl, fun _ _ ha => ha⟩

/-- A job is inserted into a cycle that is active, and the cycle counts its units. -/
theorem insertJob_sound (j : WorkJob) (now : Time) (h : db.Sound) (hc : db.cycle? c.id = some c)
    (hactive : c.status = .active) (hj : db.job? j.id = none) (hcycle : j.cycleId = some c.id)
    (hunits : 0 < j.logicalUnits)
    (hdb : db' = [CycleChange.insertJob j, .updateCycle c (c.grow j.logicalUnits now)
      [⟨c.id, .total, j.logicalUnits⟩]].foldl CycleTables.apply db) :
    db'.Sound ∧ db.Grown db' := by
  -- the cycle first: the two changes are of different tables
  have hok : CycleChange.Ok db (.updateCycle c (c.grow j.logicalUnits now)
      [⟨c.id, .total, j.logicalUnits⟩]) := by
    refine ⟨hc, fun k => ?_, fun b hb => ?_, fun hs => ?_⟩
    · cases k <;> simp [WorkloadCycle.units, WorkloadCycle.grow, bookedUnits]
    · rw [List.mem_singleton.mp hb]
    · exact absurd (hactive.symm.trans hs) (by decide)
  obtain ⟨hs, hg⟩ := hok.sound h
  generalize hdb₁ : db.apply (.updateCycle c (c.grow j.logicalUnits now)
      [⟨c.id, .total, j.logicalUnits⟩]) = db₁ at hs hg
  have hjobs : db₁.queue.jobs = db.queue.jobs := by rw [← hdb₁]; rfl
  have hdb' : db' = { db₁ with queue.jobs := db₁.queue.jobs ++ [j] } := by
    rw [hdb, hjobs, ← hdb₁]
    rfl
  have hnew : ∀ x ∈ db₁.queue.jobs, x.id ≠ j.id := hjobs ▸ Table.get_eq_none.mp hj
  have hstay : ∀ i id, i ≠ c.id → db'.Active i id → db₁.Active i id := by
    rintro i id hne ⟨x, hx, hid, hxc, ha⟩
    rw [hdb'] at hx
    rcases List.mem_append.mp hx with hx | hx
    · exact ⟨x, hx, hid, hxc, ha⟩
    · obtain rfl := List.mem_singleton.mp hx
      exact absurd (Option.some.inj (hxc.symm.trans hcycle)) hne
  have hrow : ∀ x ∈ db₁.queue.cycles, x.id = c.id → x.status = .active ∧
      x.totalUnits = c.totalUnits + j.logicalUnits := by
    intro x hx he
    rw [← hdb₁] at hx
    rcases mem_updateCycle hx with ⟨-, hne⟩ | ⟨d, hd, hid, rfl⟩
    · exact absurd he hne
    · obtain rfl := h.cycles.eq hd (Table.get_mem hc) hid
      exact ⟨(flushColumn_self _ _).trans hactive, flushColumn_self _ _⟩
  subst hdb'
  refine ⟨⟨⟨hs.counters, fun x hx hst id ha => ?_⟩, Table.keyed_append.mpr ⟨hs.jobs, hnew⟩,
    hs.cycles, hs.booked⟩, fun x hx => ?_⟩
  · by_cases he : x.id = c.id
    · have hx₁ := (hrow x hx he).1
      rw [hst] at hx₁
      cases hx₁
    · exact hs.settled x hx hst id (hstay x.id id he ha)
  · obtain ⟨y, hy, hid, hle, hact⟩ := hg x hx
    refine ⟨y, hy, hid, hle, fun he id ha => ?_⟩
    by_cases hxc : x.id = c.id
    · obtain rfl := h.cycles.eq hx (Table.get_mem hc) hxc
      have hy₁ := (hrow y hy hid).2
      omega
    · exact hact he id (hstay x.id id hxc ha)

end

/-! ## What a program knows -/

/-- What stays the same of a row that is locked. -/
def CycleKey.Same : CycleKey → CycleTables → CycleTables → Prop
  | .job id, db, db' => db'.job? id = db.job? id
  | .cycle id, db, db' => db'.cycle? id = db.cycle? id
  | .dedupe _ _, _, _ | .activeCycle, _, _ => True

theorem job?_same {db : CycleTables} {w : CycleChange} {id : Nat}
    (h : CycleKey.job id ∉ w.keys) : (db.apply w).job? id = db.job? id := by
  cases w with
  | updateJob loaded written =>
    have hne : loaded.id ≠ id := fun he => h (he ▸ List.mem_cons_self)
    show Table.get WorkJob.id (db.queue.jobs.map _) id = _
    rw [Table.get_map fun row => by split <;> rfl]
    cases hget : Table.get WorkJob.id db.queue.jobs id with
    | none => exact hget.symm
    | some row =>
      have hid : row.id = id := Table.get_key hget
      rw [Option.map_some, if_neg fun he => hne (he.symm.trans hid)]
      exact hget.symm
  | insertJob j =>
    exact Table.get_append_of_ne fun he => h (he ▸ List.mem_cons_self)
  | updateCycle | insertCycle => rfl

theorem cycle?_same {db : CycleTables} {w : CycleChange} {id : Nat}
    (h : CycleKey.cycle id ∉ w.keys) : (db.apply w).cycle? id = db.cycle? id := by
  cases w with
  | updateCycle loaded written booked =>
    have hne : loaded.id ≠ id := fun he => h (he ▸ List.mem_cons_self)
    show Table.get WorkloadCycle.id (db.queue.cycles.map _) id = _
    rw [Table.get_map fun row => by split <;> rfl]
    cases hget : Table.get WorkloadCycle.id db.queue.cycles id with
    | none => exact hget.symm
    | some row =>
      have hid : row.id = id := Table.get_key hget
      rw [Option.map_some, if_neg fun he => hne (he.symm.trans hid)]
      exact hget.symm
  | insertCycle c =>
    exact Table.get_append_of_ne fun he => h (he ▸ List.mem_cons_self)
  | updateJob | insertJob => rfl

/-- The tables of jobs and cycles. -/
def cycleDatabase : Database CycleTables CycleKey CycleChange where
  apply := CycleTables.apply
  keys := CycleChange.keys
  Same := CycleKey.Same
  refl k db := by cases k <;> trivial
  trans k a b c h h' := by
    cases k with
    | job | cycle => exact Eq.trans h' h
    | dedupe | activeCycle => trivial
  frame k db w h := by
    cases k with
    | job id => exact job?_same h
    | cycle id => exact cycle?_same h
    | dedupe | activeCycle => trivial

/-- What a program knows of the tables. -/
inductive CycleFact where
  | row (j : WorkJob)
  | noJob (id : Nat)
  | cycle (c : WorkloadCycle)
  | noCycle (id : Nat)
  /-- The cycle was there, and counted the units of `c`. -/
  | seen (c : WorkloadCycle)
  /-- If it counts no more, its active jobs are among `ids`. -/
  | within (c : WorkloadCycle) (ids : List Nat)

namespace CycleFact

def Holds (db : CycleTables) : CycleFact → Prop
  | row j => db.job? j.id = some j
  | noJob id => db.job? id = none
  | cycle c => db.cycle? c.id = some c
  | noCycle id => db.cycle? id = none
  | seen c => ∃ d ∈ db.queue.cycles, d.id = c.id ∧ c.totalUnits ≤ d.totalUnits
  | within c ids => ∃ d ∈ db.queue.cycles, d.id = c.id ∧ c.totalUnits ≤ d.totalUnits ∧
      (d.totalUnits = c.totalUnits → ∀ id, db.Active c.id id → id ∈ ids)

/-- The lock that keeps it. -/
def keys : CycleFact → List CycleKey
  | row j => [.job j.id]
  | noJob id => [.job id]
  | cycle c => [.cycle c.id]
  | noCycle id => [.cycle id]
  | seen _ | within _ _ => []

/-- All of these hold. -/
def Knows (facts : List CycleFact) (db : CycleTables) : Prop := ∀ f ∈ facts, f.Holds db

/-- The locks keep all of these. -/
def Covered (facts : List CycleFact) (locks : List CycleKey) : Prop := ∀ f ∈ facts, f.keys ⊆ locks

end CycleFact

open CycleFact

section
variable {facts facts' : List CycleFact} {locks locks' : List CycleKey} {journal : List CycleChange}
  {prog : CycleProg} {next : CycleTables → CycleProg} {db : CycleTables} {key : CycleKey}
  {w : CycleChange} {r : CallResult}

theorem CycleFact.Covered.mono (h : Covered facts locks) (hl : locks ⊆ locks') :
    Covered facts locks' :=
  fun f hf => List.Subset.trans (h f hf) hl

theorem CycleFact.Covered.cons {f : CycleFact} (hf : f.keys ⊆ locks) (h : Covered facts locks) :
    Covered (f :: facts) locks := List.forall_mem_cons.mpr ⟨hf, h⟩

theorem CycleFact.covered_nil : Covered [] locks := fun _ hf => (by cases hf)

theorem CycleFact.knows_nil : Knows [] db := fun _ hf => (by cases hf)

theorem CycleFact.Knows.cons {f : CycleFact} (hf : f.Holds db) (h : Knows facts db) :
    Knows (f :: facts) db :=
  List.forall_mem_cons.mpr ⟨hf, h⟩

/-- What the locks cover, the commits of others keep. -/
theorem CycleFact.Covered.stable (h : Covered facts locks) :
    Stable cycleDatabase CycleTables.Sound CycleTables.Grown locks (Knows facts) := by
  intro s s' hk _ _ hg hsame f hf
  have hcov := h f hf
  have hold := hk f hf
  cases f with
  | row j => exact (hsame (.job j.id) (hcov List.mem_cons_self)).trans hold
  | noJob id => exact (hsame (.job id) (hcov List.mem_cons_self)).trans hold
  | cycle c => exact (hsame (.cycle c.id) (hcov List.mem_cons_self)).trans hold
  | noCycle id => exact (hsame (.cycle id) (hcov List.mem_cons_self)).trans hold
  | seen c =>
    obtain ⟨d, hd, hid, hle⟩ := hold
    obtain ⟨d', hd', hid', hle', -⟩ := hg d hd
    exact ⟨d', hd', hid'.trans hid, hle.trans hle'⟩
  | within c ids =>
    obtain ⟨d, hd, hid, hle, hact⟩ := hold
    obtain ⟨d', hd', hid', hle', hact'⟩ := hg d hd
    rw [hid] at hact'
    refine ⟨d', hd', hid'.trans hid, hle.trans hle', fun he id ha => ?_⟩
    exact hact (by omega) id (hact' (by omega) id ha)

/-- The program keeps the invariant and the guarantee, knowing `facts`. -/
abbrev CycleSafe (prog : CycleProg) (locks : List CycleKey) (journal : List CycleChange)
    (facts : List CycleFact) : Prop :=
  Safe cycleDatabase CycleTables.Sound CycleTables.Grown FindsLoaded prog locks journal
    (Knows facts)

/-- The tables, as the transaction sees them. -/
abbrev seenBy (journal : List CycleChange) (db : CycleTables) : CycleTables :=
  journal.foldl CycleTables.apply db

/-- After a read, or a lock, the program knows `facts'`. -/
theorem CycleSafe.read (h : ∀ db, Knows facts db → db.Sound → ∃ facts', Knows facts' db ∧
    Covered facts' locks ∧ CycleSafe (next (seenBy journal db)) locks journal facts') :
    CycleSafe (.read next) locks journal facts := by
  intro db hk hs
  obtain ⟨facts', hk', hc, hsafe⟩ := h db hk hs
  exact ⟨Knows facts', hk', hc.stable, hsafe⟩

theorem CycleSafe.lock (h : ∀ db, Knows facts db → db.Sound → ∃ facts', Knows facts' db ∧
    Covered facts' (key :: locks) ∧
      CycleSafe (next (seenBy journal db)) (key :: locks) journal facts') :
    CycleSafe (.lock key next) locks journal facts := by
  intro db hk hs
  obtain ⟨facts', hk', hc, hsafe⟩ := h db hk hs
  exact ⟨Knows facts', hk', hc.stable, hsafe⟩

theorem CycleSafe.write (hc : Covered facts locks)
    (h : CycleSafe prog (w.keys ++ locks) (journal ++ [w]) facts) :
    CycleSafe (.write w prog) locks journal facts := Safe.write hc.stable h

theorem CycleSafe.commit (h : ∀ db, Knows facts db → db.Sound → FindsLoaded db journal →
    (seenBy journal db).Sound ∧ db.Grown (seenBy journal db)) :
    CycleSafe (.commit r) locks journal facts := h

theorem CycleSafe.commit_nil : CycleSafe (.commit r) locks [] facts :=
  CycleSafe.commit fun db _ hs _ => ⟨hs, .refl db⟩

/-! ## The programs -/

section
variable {facts : List CycleFact} {locks : List CycleKey} {journal : List CycleChange}
  {next : Option WorkJob → CycleProg} {query : Queue → Option WorkJob} {jobId : Nat}
  {j j' : WorkJob} {now : Time} {r : CallResult} {db db' : CycleTables}

/-- The job is active, as it was loaded under its lock. -/
theorem updateJob_safe (ha : j.status.isActive = true) (hid : CycleKey.job j.id ∈ locks) :
    CycleSafe (.write (.updateJob j j') (.commit r)) locks [] [.row j] := by
  have hcov : Covered [.row j] locks :=
    CycleFact.Covered.cons (fun k hk => List.mem_singleton.mp hk ▸ hid) covered_nil
  refine CycleSafe.write hcov (CycleSafe.commit fun db hk hs _ => ?_)
  have hrow : db.job? j.id = some j := hk _ List.mem_cons_self
  have hok : CycleChange.Ok db (.updateJob j j') := by
    refine fun _ => .inr fun x hx he => ?_
    obtain rfl := hs.jobs.eq hx (Table.get_mem hrow) he
    exact ha
  exact hok.sound hs

/-- A row that was selected for update is known while it is locked. -/
theorem selectForUpdate_safe (hquery : ∀ q j, query q = some j → q.job? jobId = some j)
    (hnone : ∀ locks, CycleSafe (next none) locks [] [])
    (hsome : ∀ db j, query db = some j → CycleSafe (next (some j)) [.job jobId] [] [.row j]) :
    CycleSafe (selectForUpdate jobId query next) [] [] [] := by
  refine CycleSafe.read fun db _ _ => ⟨[], knows_nil, covered_nil, ?_⟩
  dsimp only [seenBy, List.foldl_nil]
  split
  · exact hnone []
  · refine CycleSafe.lock fun db _ _ => ?_
    dsimp only [seenBy, List.foldl_nil]
    cases hq : query db.queue with
    | none => exact ⟨[], knows_nil, covered_nil, hnone _⟩
    | some j =>
      have hget := hquery _ _ hq
      obtain rfl : j.id = jobId := (Queue.job?_some hget).2
      exact ⟨[.row j], CycleFact.Knows.cons hget knows_nil,
        CycleFact.Covered.cons (List.Subset.refl _) covered_nil, hsome _ _ hq⟩

/-! ### Cycles in the identity map -/

/-- What a session that ends the jobs `ended` knows of a cycle that it loaded. -/
structure LoadedCycle.Known (facts : List CycleFact) (ended : List Nat) (c : LoadedCycle) :
    Prop where
  units : ∀ k, c.current.units k = c.loaded.units k + bookedUnits c.booked c.loaded.id k
  booked : ∀ b ∈ c.booked, b.cycleId = c.loaded.id
  id : c.current.id = c.loaded.id
  seen : .seen c.loaded ∈ facts
  settled : c.current.status = .settled → c.loaded.status = .settled ∨
    ∃ id ∈ ended, .within c.loaded [id] ∈ facts

theorem LoadedCycle.Known.mono {ended ended' : List Nat} {facts' : List CycleFact} {c : LoadedCycle}
    (h : c.Known facts ended) (hf : facts ⊆ facts') (he : ended ⊆ ended') :
    c.Known facts' ended' := by
  refine ⟨h.units, h.booked, h.id, hf h.seen, fun hs => (h.settled hs).imp_right ?_⟩
  rintro ⟨id, hid, hw⟩
  exact ⟨id, he hid, hf hw⟩

/-- The count of the source. -/
theorem remaining_eq_zero {rows : List WorkJob} {i : Nat} (h : Queue.remaining rows i j = 0) :
    ∀ x ∈ rows, x.cycleId = some i → x.status.isActive = true → x.id = j.id := by
  intro x hx hc ha
  rw [Queue.remaining, List.length_eq_zero_iff, List.filter_eq_nil_iff] at h
  by_contra hne
  exact h x hx (by simp [hc, ha, hne])

/-- A job that ends is counted on the cycle. -/
theorem LoadedCycle.Known.settle {ended : List Nat} {c : LoadedCycle} {state : JobState}
    {rows : List WorkJob} (h : c.Known facts ended) (hstate : state.isActive = false)
    (hj : j.id ∈ ended)
    (hw : Queue.remaining rows c.loaded.id j = 0 → .within c.loaded [j.id] ∈ facts) :
    (c.settle rows j state now).Known facts ended := by
  refine ⟨fun k => ?_, fun b hb => ?_, h.id, h.seen, fun hs => ?_⟩
  · have hold := h.units k
    show WorkloadCycle.units (Queue.settleUnits c.current rows j state now) k =
      c.loaded.units k + bookedUnits (c.booked ++ _) c.loaded.id k
    rw [bookedUnits_append]
    cases state with
    | queued | leased | retryWait => cases hstate
    | succeeded | failed | cancelled =>
      cases k <;> simp [WorkloadCycle.units, Queue.settleUnits, JobState.counter,
        bookedUnits] at hold ⊢ <;> omega
  · rcases List.mem_append.mp hb with hb | hb
    · exact h.booked b hb
    · obtain ⟨k, -, rfl⟩ := List.mem_map.mp hb
      rfl
  · change (if Queue.remaining rows c.current.id j = 0 then CycleStatus.settled
      else c.current.status) = .settled at hs
    rw [h.id] at hs
    split at hs
    · rename_i hzero
      exact .inr ⟨j.id, hj, hw hzero⟩
    · exact h.settled hs

/-- `_record_terminal_units`. -/
theorem recordTerminalUnits_safe (ended : List Nat) {cycles : List LoadedCycle} {state : JobState}
    {next : List LoadedCycle → CycleProg} (hstate : state.isActive = false) (hj : j.id ∈ ended)
    (hcov : Covered facts locks) (hcycles : ∀ c ∈ cycles, c.Known facts ended)
    (hnext : ∀ cycles facts', facts ⊆ facts' → Covered facts' locks →
      (∀ c ∈ cycles, c.Known facts' ended) → CycleSafe (next cycles) locks [] facts') :
    CycleSafe (recordTerminalUnits cycles j state now next) locks [] facts := by
  unfold recordTerminalUnits
  split
  · exact hnext cycles facts (List.Subset.refl _) hcov hcycles
  rename_i id _
  -- the count, on a cycle of the map
  have hcount : ∀ (c : LoadedCycle) (facts₁ : List CycleFact), facts ⊆ facts₁ →
      Covered facts₁ locks → c.loaded.id = id → c.Known facts₁ ended →
      CycleSafe (.read fun db => next (cycles.filter (·.loaded.id != id) ++
        [c.settle db.queue.jobs j state now])) locks [] facts₁ := by
    intro c facts₁ hf hcov₁ hid hc
    refine CycleSafe.read fun db hk hs => ?_
    dsimp only [seenBy, List.foldl_nil]
    obtain ⟨d, hd, hdid, hle⟩ := hk _ hc.seen
    by_cases hzero : Queue.remaining db.queue.jobs c.loaded.id j = 0
    · have hw : (CycleFact.within c.loaded [j.id]).Holds db := by
        refine ⟨d, hd, hdid, hle, ?_⟩
        rintro - k ⟨x, hx, rfl, hxc, hxa⟩
        rw [remaining_eq_zero hzero x hx hxc hxa]
        exact List.mem_cons_self
      have hsub : facts₁ ⊆ .within c.loaded [j.id] :: facts₁ := List.subset_cons_self _ _
      have hcov₂ := CycleFact.Covered.cons (f := .within c.loaded [j.id]) (List.nil_subset _) hcov₁
      refine ⟨_, CycleFact.Knows.cons hw hk, hcov₂, hnext _ _ (List.Subset.trans hf hsub) hcov₂ ?_⟩
      intro x hx
      rcases List.mem_append.mp hx with hx | hx
      · exact (hcycles x (List.mem_of_mem_filter hx)).mono (List.Subset.trans hf hsub)
          (List.Subset.refl _)
      · rw [List.mem_singleton.mp hx]
        exact (hc.mono hsub (List.Subset.refl _)).settle hstate hj fun _ => List.mem_cons_self
    · refine ⟨facts₁, hk, hcov₁, hnext _ _ hf hcov₁ fun x hx => ?_⟩
      rcases List.mem_append.mp hx with hx | hx
      · exact (hcycles x (List.mem_of_mem_filter hx)).mono hf (List.Subset.refl _)
      · rw [List.mem_singleton.mp hx]
        exact hc.settle hstate hj fun h => absurd h hzero
  unfold getCycle
  cases hget : Table.get (fun c : LoadedCycle => c.loaded.id) cycles id with
  | some c =>
    have hid : c.loaded.id = id := by
      have hfind := List.find?_some hget
      simpa using hfind
    exact hcount c facts (List.Subset.refl _) hcov hid (hcycles c (Table.get_mem hget))
  | none =>
    refine CycleSafe.read fun db hk hs => ?_
    dsimp only [seenBy, List.foldl_nil]
    cases hc : db.cycle? id with
    | none => exact ⟨facts, hk, hcov, hnext cycles facts (List.Subset.refl _) hcov hcycles⟩
    | some c =>
      have hid : c.id = id := Table.get_key hc
      have hseen : (CycleFact.seen c).Holds db := ⟨c, Table.get_mem hc, rfl, le_rfl⟩
      have hcov₁ := CycleFact.Covered.cons (f := .seen c) (List.nil_subset _) hcov
      refine ⟨_, CycleFact.Knows.cons hseen hk, hcov₁, ?_⟩
      refine hcount _ _ (List.subset_cons_self _ _) hcov₁ hid ⟨fun k => ?_,
        fun b hb => (by cases hb), rfl, List.mem_cons_self, fun h => .inl h⟩
      simp [bookedUnits]

/-- The flush of the cycles of a session that has ended the jobs `ended`. -/
theorem flushed_sound {ended : List Nat} {cycles : List LoadedCycle} (hs : db'.Sound)
    (hg : db.Grown db') (hk : Knows facts db)
    (hended : ∀ id ∈ ended, ∀ i, ¬ db'.Active i id)
    (hact : ∀ i id, db'.Active i id → db.Active i id) (hcycles : ∀ c ∈ cycles, c.Known facts ended)
    (hfind : FindsLoaded db' (cycles.map fun c => .updateCycle c.loaded c.current c.booked)) :
    (seenBy (cycles.map fun c => .updateCycle c.loaded c.current c.booked) db').Sound ∧
      db.Grown (seenBy (cycles.map fun c => .updateCycle c.loaded c.current c.booked) db') := by
  induction cycles generalizing db' with
  | nil => exact ⟨hs, hg⟩
  | cons c cs ih =>
    obtain ⟨hfound, hfind⟩ := hfind
    have hc := hcycles c List.mem_cons_self
    have hok : CycleChange.Ok db' (.updateCycle c.loaded c.current c.booked) := by
      refine ⟨hfound, hc.units, hc.booked, fun hst id ha => ?_⟩
      have hmem : c.loaded ∈ db'.queue.cycles := Table.get_mem hfound
      rcases hc.settled hst with hset | ⟨id', hid', hw⟩
      · exact hs.settled c.loaded hmem hset id ha
      · -- the cycle counts what it counted when its jobs were
        obtain ⟨d, hd, hdid, hle, hin⟩ := hk _ hw
        obtain ⟨d', hd', hdid', hle', -⟩ := hg d hd
        obtain rfl : d' = c.loaded := hs.cycles.eq hd' hmem (hdid'.trans hdid)
        obtain rfl := List.mem_singleton.mp (hin (by omega) id (hact _ _ ha))
        exact hended _ hid' _ ha
    obtain ⟨hs₁, hg₁⟩ := hok.sound hs
    exact ih hs₁ (hg.trans hg₁) (fun id hid i ha => hended id hid i ha)
      (fun i id ha => hact i id ha) (fun x hx => hcycles x (List.mem_cons_of_mem _ hx)) hfind

/-- The flush of jobs that ended. -/
theorem endedJobs_sound {jobs : List (WorkJob × WorkJob)} (hs : db.Sound)
    (hjobs : ∀ x ∈ jobs, x.1.status.isActive = true ∧ x.2.status.isActive = false)
    (hdb : db' = seenBy (jobs.map fun x => .updateJob x.1 x.2) db) :
    db'.Sound ∧ db.Grown db' ∧ (∀ id ∈ jobs.map (·.1.id), ∀ i, ¬ db'.Active i id) ∧
      ∀ i id, db'.Active i id → db.Active i id := by
  induction jobs generalizing db with
  | nil =>
    subst hdb
    exact ⟨hs, .refl _, fun _ h => (by cases h), fun _ _ h => h⟩
  | cons x xs ih =>
    obtain ⟨ha, he⟩ := hjobs x List.mem_cons_self
    have hok : CycleChange.Ok db (.updateJob x.1 x.2) := fun h => by rw [he] at h; cases h
    obtain ⟨hs₁, hg₁⟩ := hok.sound hs
    obtain ⟨hs', hg', hend, hact⟩ := ih hs₁ (fun y hy => hjobs y (List.mem_cons_of_mem _ hy)) hdb
    refine ⟨hs', hg₁.trans hg', fun id hid i hia => ?_,
      fun i id h => active_updateJob hok (hact i id h)⟩
    rcases List.mem_cons.mp hid with rfl | hid
    · exact not_active_ended ha he (hact i _ hia)
    · exact hend id hid i hia

theorem flushCycles_safe {cycles : List LoadedCycle} {prog : CycleProg} (hcov : Covered facts locks)
    (h : ∀ locks, CycleSafe prog locks
      (journal ++ cycles.map fun c => .updateCycle c.loaded c.current c.booked) facts) :
    CycleSafe (flushCycles cycles prog) locks journal facts := by
  induction cycles generalizing locks journal with
  | nil =>
    have hnil := h locks
    rw [List.map_nil, List.append_nil] at hnil
    exact hnil
  | cons c cs ih =>
    refine CycleSafe.write hcov (ih (hcov.mono (List.subset_append_right _ _)) fun locks => ?_)
    rw [List.append_assoc]
    exact h locks

/-- Jobs that ended are flushColumn, and then the cycles that count them. -/
theorem ended_commit (jobs : List (WorkJob × WorkJob)) {cycles : List LoadedCycle}
    (hjobs : ∀ x ∈ jobs, x.1.status.isActive = true ∧ x.2.status.isActive = false)
    (hcycles : ∀ c ∈ cycles, c.Known facts (jobs.map (·.1.id))) :
    CycleSafe (.commit r) locks ((jobs.map fun x => .updateJob x.1 x.2) ++
      cycles.map fun c => .updateCycle c.loaded c.current c.booked) facts := by
  refine CycleSafe.commit fun db hk hs hf => ?_
  obtain ⟨hs', hg', hend, hact⟩ := endedJobs_sound hs hjobs rfl
  rw [seenBy, List.foldl_append]
  exact flushed_sound hs' hg' hk hend hact hcycles (findsLoaded_append.mp hf).2

/-- A loaded job ends. -/
theorem endJob_safe {state : JobState} (ha : j.status.isActive = true) (hid : j'.id = j.id)
    (hst : j'.status = state) (hstate : state.isActive = false) :
    CycleSafe (endJob j j' state now r) [.job j.id] [] [.row j] := by
  have hcov : Covered [.row j] [.job j.id] :=
    CycleFact.Covered.cons (List.Subset.refl _) covered_nil
  refine recordTerminalUnits_safe [j.id] hstate (hid ▸ List.mem_cons_self) hcov
    (fun _ h => (by cases h)) fun cycles facts' _ hcov' hcycles => ?_
  refine CycleSafe.write hcov' (flushCycles_safe (hcov'.mono (List.subset_append_right _ _))
    fun locks => ?_)
  refine ended_commit [(j, j')] (fun x hx => ?_) hcycles
  rw [List.mem_singleton.mp hx]
  exact ⟨ha, by rw [hst]; exact hstate⟩

theorem finishCall_safe {owner code message : String} (state : JobState)
    (hstate : state.isActive = false) :
    CycleSafe (finishCall jobId owner state code message now) [] [] [] := by
  refine selectForUpdate_safe (fun q j hj => (Queue.selectHeld_some hj).1)
    (fun _ => CycleSafe.commit_nil) fun db j hj => ?_
  obtain ⟨hget, hlive, -⟩ := Queue.selectHeld_some hj
  obtain rfl : j.id = jobId := (Queue.job?_some hget).2
  have ha : j.status.isActive = true := by rw [hlive.1]; rfl
  dsimp only
  split
  · exact updateJob_safe ha List.mem_cons_self
  · exact endJob_safe ha rfl rfl hstate

theorem retryCall_safe {owner code message : String} {at_ : Time} :
    CycleSafe (retryCall jobId owner at_ code message now) [] [] [] := by
  refine selectForUpdate_safe (fun q j hj => (Queue.selectHeld_some hj).1)
    (fun _ => CycleSafe.commit_nil) fun db j hj => ?_
  obtain ⟨hget, hlive, -⟩ := Queue.selectHeld_some hj
  obtain rfl : j.id = jobId := (Queue.job?_some hget).2
  have ha : j.status.isActive = true := by rw [hlive.1]; rfl
  dsimp only
  split
  · rename_i hle
    exact endJob_safe ha rfl (if_pos hle) rfl
  · exact updateJob_safe ha List.mem_cons_self

theorem cancelCall_safe {reason : String} : CycleSafe (cancelCall jobId reason now) [] [] [] := by
  refine selectForUpdate_safe (fun q j hj => (Queue.selectActive_some hj).1)
    (fun _ => CycleSafe.commit_nil) fun db j hj => ?_
  obtain ⟨hget, ha⟩ := Queue.selectActive_some hj
  obtain rfl : j.id = jobId := (Queue.job?_some hget).2
  exact endJob_safe ha rfl rfl rfl

/-- Rows that were selected with `SKIP LOCKED` have what the query asks for. -/
theorem selectSkipLocked_safe {query : Queue → Nat → Option WorkJob} {P : WorkJob → Prop}
    {next : List WorkJob → CycleProg} (hquery : ∀ q id j, query q id = some j → P j)
    (hnext : ∀ found locks, (∀ j ∈ found, P j) → CycleSafe (next found) locks [] [])
    (ids : List Nat) : ∀ (found : List WorkJob) (locks : List CycleKey), (∀ j ∈ found, P j) →
      CycleSafe (selectSkipLocked query next ids found) locks [] [] := by
  induction ids with
  | nil => exact fun found locks hf => hnext found locks hf
  | cons id ids ih =>
    intro found locks hf
    refine CycleSafe.lock fun db _ _ => ⟨[], knows_nil, covered_nil, ih _ _ fun j hj => ?_⟩
    rcases List.mem_append.mp hj with hj | hj
    · exact hf j hj
    · exact hquery _ _ _ (Option.mem_toList.mp hj)

section
variable {jobs : List WorkJob}

/-- The flush of `fail_exhausted_leases`; the jobs of `done` are flushColumn already. -/
theorem flushExpired_safe {cycles : List LoadedCycle} (hjobs : ∀ j ∈ jobs, j.status = .leased)
    (hcycles : ∀ c ∈ cycles, c.Known facts (jobs.map (·.id))) {done rest : List WorkJob}
    (hd : jobs = done ++ rest) (hcov : Covered facts locks) :
    CycleSafe (flushExpired now rest (flushCycles cycles (.commit r))) locks
      (done.map fun j => .updateJob j (j.failExpired now)) facts := by
  induction rest generalizing done locks with
  | nil =>
    rw [List.append_nil] at hd
    refine flushCycles_safe hcov fun locks => ?_
    have hends : ∀ x ∈ jobs.map fun j => (j, j.failExpired now),
        x.1.status.isActive = true ∧ x.2.status.isActive = false := by
      intro x hx
      obtain ⟨j, hj, rfl⟩ := List.mem_map.mp hx
      exact ⟨by rw [hjobs j hj]; rfl, rfl⟩
    rw [← hd]
    have hcommit : CycleSafe (.commit r) locks _ facts :=
      ended_commit _ hends (by rw [List.map_map]; exact hcycles)
    rwa [List.map_map] at hcommit
  | cons j js ih =>
    refine CycleSafe.write hcov ?_
    have hd' : jobs = (done ++ [j]) ++ js := by rw [hd, List.append_assoc]; rfl
    have hcov' : Covered facts ((CycleChange.updateJob j (j.failExpired now)).keys ++ locks) :=
      hcov.mono (List.subset_append_right _ _)
    have hrest := ih hd' hcov'
    rw [List.map_append] at hrest
    exact hrest

/-- The loop of the counts. -/
theorem failExpiredJobs_safe {cycles : List LoadedCycle} (hjobs : ∀ j ∈ jobs, j.status = .leased)
    {rest : List WorkJob} (hsub : rest ⊆ jobs) (hcov : Covered facts locks)
    (hcycles : ∀ c ∈ cycles, c.Known facts (jobs.map (·.id))) :
    CycleSafe (failExpiredJobs now jobs rest cycles) locks [] facts := by
  induction rest generalizing cycles facts with
  | nil => exact flushExpired_safe hjobs hcycles (List.nil_append _).symm hcov
  | cons j js ih =>
    refine recordTerminalUnits_safe (jobs.map (·.id)) rfl
      (List.mem_map_of_mem (f := WorkJob.id) (hsub List.mem_cons_self)) hcov hcycles ?_
    intro cycles' facts' _ hcov' hcycles'
    exact ih (fun x hx => hsub (List.mem_cons_of_mem _ hx)) hcov' hcycles'

end

theorem failExhaustedCall_safe {skipped : List Nat} :
    CycleSafe (failExhaustedCall skipped now) [] [] [] := by
  refine CycleSafe.read fun db _ _ => ⟨[], knows_nil, covered_nil, ?_⟩
  refine selectSkipLocked_safe (P := fun j => j.status = .leased) (fun q id j hj => ?_)
    (fun jobs locks hjobs => ?_) _ [] [] fun _ h => (by cases h)
  · have hm := List.mem_filter.mp (Table.get_mem hj)
    simp only [Bool.and_eq_true, beq_iff_eq] at hm
    exact hm.2.1.1
  · exact failExpiredJobs_safe hjobs (List.Subset.refl _) covered_nil fun _ h => (by cases h)

/-! ### Requests -/

/-- The cycle counts units that are added. -/
theorem grow_ok {c : WorkloadCycle} (n : Nat) (now : Time) (hs : db.Sound)
    (hc : db.cycle? c.id = some c) :
    CycleChange.Ok db (.updateCycle c (c.grow n now) [⟨c.id, .total, n⟩]) := by
  refine ⟨hc, fun k => ?_, fun b hb => ?_, fun hst => hs.settled c (Table.get_mem hc) hst⟩
  · cases k <;> simp [WorkloadCycle.units, WorkloadCycle.grow, bookedUnits]
  · rw [List.mem_singleton.mp hb]

theorem storeReplacement_status {a : EnqueueArgs} {p : JobPayload} {added n : Nat}
    (h : storeReplacement a now p added j = (j', n)) : j'.status = j.status := by
  unfold storeReplacement at h
  split at h <;> cases h <;> rfl

/-- A request that an active job takes leaves its status. -/
theorem coalesceInto_status {a : EnqueueArgs} {n : Nat} (h : coalesceInto a now j = some (j', n)) :
    j'.status = j.status := by
  obtain ⟨p, added, -, -, h⟩ := coalesceInto_some h
  exact (storeReplacement_status h).trans rfl

/-- A job is written with the status it was loaded with. -/
theorem sameStatus_ok (j j' : WorkJob) (h : j'.status = j.status) :
    CycleChange.Ok db (.updateJob j j') :=
  fun _ => .inl h

theorem flushJob_safe {prog : CycleProg} (hst : j'.status = j.status)
    (hnext : ∀ journal locks, (∀ db : CycleTables, db.Sound → (seenBy journal db).Sound ∧
      db.Grown (seenBy journal db)) → CycleSafe prog locks journal []) :
    CycleSafe (flushJob j j' prog) locks [] [] := by
  unfold flushJob
  split
  · exact hnext [] locks fun db hs => ⟨hs, .refl db⟩
  · exact CycleSafe.write covered_nil (hnext _ _ fun db hs => (sameStatus_ok j j' hst).sound hs)

theorem coalesceCall_safe {a : EnqueueArgs} {e : WorkJob} :
    CycleSafe (coalesceCall a e now) locks [] [] := by
  have hcommit : ∀ e' : WorkJob, e'.status = e.status → ∀ locks,
      CycleSafe (flushJob e e' (.commit (.enqueued e.id false))) locks [] [] := fun e' hst locks =>
    flushJob_safe hst fun journal locks h => CycleSafe.commit fun db _ hs _ => h db hs
  have hstatus : ∀ e' n, (if a.coalesce then coalesceInto a now (e.repool a.routedPool now)
      else none) = some (e', n) → e'.status = e.status := by
    intro e' n h
    split at h
    · exact (coalesceInto_status h).trans rfl
    · cases h
  unfold coalesceCall
  dsimp only
  split
  · exact hcommit (e.repool a.routedPool now) rfl locks
  · rename_i e' he
    exact hcommit e' (hstatus e' 0 he) locks
  · rename_i e' n he
    have hst := hstatus e' (n + 1) he
    split
    · exact hcommit e' hst locks
    · refine CycleSafe.read fun db _ _ => ⟨[], knows_nil, covered_nil, ?_⟩
      split
      · exact hcommit e' hst locks
      · rename_i c _
        refine flushJob_safe hst fun journal locks h => ?_
        refine CycleSafe.write covered_nil (CycleSafe.commit fun db _ hs hf => ?_)
        obtain ⟨hs₁, hg₁⟩ := h db hs
        obtain ⟨hs₂, hg₂⟩ := (grow_ok (n + 1) now hs₁ (findsLoaded_append.mp hf).2.1).sound hs₁
        rw [seenBy, List.foldl_append]
        exact ⟨hs₂, hg₁.trans hg₂⟩

/-- The transaction sees the active cycle `c`, which it has locked or inserted. -/
structure Opened (facts : List CycleFact) (journal : List CycleChange) (c : WorkloadCycle) :
    Prop where
  active : c.status = .active
  jobs : ∀ db : CycleTables, (seenBy journal db).queue.jobs = db.queue.jobs
  sound : ∀ db, Knows facts db → db.Sound → FindsLoaded db journal →
    (seenBy journal db).Sound ∧ db.Grown (seenBy journal db) ∧
      (seenBy journal db).cycle? c.id = some c

theorem insertCall_safe {a : EnqueueArgs} {c : WorkloadCycle} (ho : Opened facts journal c)
    (hcov : Covered facts locks) : CycleSafe (insertCall a jobId now c) locks journal facts := by
  have hcons : ∀ {k : CycleKey} {l : List CycleKey}, l ⊆ k :: l := @List.subset_cons_self _
  refine CycleSafe.lock fun db hk _ => ⟨facts, hk, hcov.mono hcons, ?_⟩
  split
  · refine CycleSafe.read fun db hk _ => ⟨facts, hk, hcov.mono hcons, ?_⟩
    split
    · exact Safe.raise
    · refine CycleSafe.commit fun db hk hs hf => ?_
      obtain ⟨hs', hg', -⟩ := ho.sound db hk hs hf
      exact ⟨hs', hg'⟩
  · refine CycleSafe.lock fun db hk _ => ?_
    split
    · exact ⟨facts, hk, hcov.mono (List.Subset.trans hcons hcons), Safe.raise⟩
    · rename_i hnone
      have hnojob : (CycleFact.noJob jobId).Holds db := by
        show Table.get WorkJob.id db.queue.jobs jobId = none
        rw [← ho.jobs db]
        exact hnone
      have hcov' : Covered (.noJob jobId :: facts)
          (.job jobId :: .dedupe a.kind (strip a.dedupeKey) :: locks) :=
        CycleFact.Covered.cons (List.cons_subset.mpr ⟨List.mem_cons_self, List.nil_subset _⟩)
          (hcov.mono (List.Subset.trans hcons hcons))
      refine ⟨_, CycleFact.Knows.cons hnojob hk, hcov', CycleSafe.write hcov' ?_⟩
      refine CycleSafe.write (hcov'.mono (List.subset_append_right _ _))
        (CycleSafe.commit fun db hk hs hf => ?_)
      rw [List.append_assoc] at hf ⊢
      obtain ⟨hs₁, hg₁, hc₁⟩ := ho.sound db (fun f hf => hk f (List.mem_cons_of_mem _ hf)) hs
        (findsLoaded_append.mp hf).1
      have hnew : (seenBy journal db).job? jobId = none := by
        show Table.get WorkJob.id (seenBy journal db).queue.jobs jobId = none
        rw [ho.jobs db]
        exact hk _ List.mem_cons_self
      rw [seenBy, List.foldl_append]
      have hpos : 0 < max a.logicalUnits 1 := by omega
      obtain ⟨hs₂, hg₂⟩ := insertJob_sound ({ (seenBy journal _).queue with
        nextJob := jobId }.newJob a c now) now hs₁ hc₁ ho.active hnew rfl hpos rfl
      exact ⟨hs₂, hg₁.trans hg₂⟩

/-- A new cycle; the journal so far writes cycles and inserts none. -/
theorem newCycle_safe {cycleId : Nat} {next : WorkloadCycle → CycleProg}
    (hjobs : ∀ db : CycleTables, (seenBy journal db).queue.jobs = db.queue.jobs)
    (hids : ∀ (db : CycleTables) id, (seenBy journal db).cycle? id = none ↔ db.cycle? id = none)
    (hsound : ∀ db, Knows facts db → db.Sound → FindsLoaded db journal →
      (seenBy journal db).Sound ∧ db.Grown (seenBy journal db)) (hcov : Covered facts locks)
    (hnext : ∀ c facts journal locks, Covered facts locks → Opened facts journal c →
      CycleSafe (next c) locks journal facts) :
    CycleSafe (newCycle cycleId now next) locks journal facts := by
  have hcons : locks ⊆ .cycle cycleId :: locks := List.subset_cons_self _ _
  refine CycleSafe.lock fun db hk _ => ?_
  split
  · exact ⟨facts, hk, hcov.mono hcons, Safe.raise⟩
  rename_i hnone
  have hcov' : Covered (.noCycle cycleId :: facts) (.cycle cycleId :: locks) :=
    CycleFact.Covered.cons (List.cons_subset.mpr ⟨List.mem_cons_self, List.nil_subset _⟩)
      (hcov.mono hcons)
  have hno : (CycleFact.noCycle cycleId).Holds db := (hids db cycleId).mp hnone
  refine ⟨_, CycleFact.Knows.cons hno hk, hcov', CycleSafe.write hcov' ?_⟩
  refine hnext _ _ _ _ (hcov'.mono (List.subset_append_right _ _)) ⟨rfl, fun db => ?_, ?_⟩
  · rw [seenBy, List.foldl_append]
    exact hjobs db
  intro db hk hs hf
  have hno : db.cycle? cycleId = none := hk _ List.mem_cons_self
  obtain ⟨hs₁, hg₁⟩ := hsound db (fun f hf => hk f (List.mem_cons_of_mem _ hf)) hs
    (findsLoaded_append.mp hf).1
  have hok : CycleChange.Ok (seenBy journal db)
      (.insertCycle { id := cycleId, startedAt := now, updatedAt := now }) :=
    ⟨(hids db cycleId).mpr hno, fun k => (by cases k <;> rfl), rfl⟩
  obtain ⟨hs₂, hg₂⟩ := hok.sound hs₁
  rw [seenBy, List.foldl_append]
  exact ⟨hs₂, hg₁.trans hg₂, hs₂.cycle?_eq (List.mem_append_right _ (List.mem_singleton_self _))⟩

/-- The first cycle of the list that is active under its lock. -/
theorem lockActiveCycle_safe {next : Option WorkloadCycle → CycleProg} (ids : List Nat)
    (hnone : ∀ locks, CycleSafe (next none) locks [] [])
    (hsome : ∀ c locks, c.status = .active → CycleKey.cycle c.id ∈ locks →
      CycleSafe (next (some c)) locks [] [.cycle c]) :
    ∀ locks, CycleSafe (lockActiveCycle next ids) locks [] [] := by
  induction ids with
  | nil => exact hnone
  | cons id ids ih =>
    intro locks
    refine CycleSafe.lock fun db _ _ => ?_
    dsimp only [seenBy, List.foldl_nil]
    split
    · rename_i c hc
      obtain ⟨hget, hst⟩ := Option.filter_eq_some_iff.mp hc
      obtain rfl : c.id = id := Table.get_key hget
      refine ⟨[.cycle c], CycleFact.Knows.cons hget knows_nil, ?_, ?_⟩
      · exact CycleFact.Covered.cons (List.cons_subset.mpr ⟨List.mem_cons_self, List.nil_subset _⟩)
          covered_nil
      · exact hsome c _ (by simpa using hst) List.mem_cons_self
    · exact ⟨[], knows_nil, covered_nil, ih _⟩

theorem activeCycleCall_safe {cycleId : Nat} {next : WorkloadCycle → CycleProg}
    (hnext : ∀ c facts journal locks, Covered facts locks → Opened facts journal c →
      CycleSafe (next c) locks journal facts) :
    CycleSafe (activeCycleCall cycleId now next) locks [] [] := by
  refine CycleSafe.lock fun db _ _ => ⟨[], knows_nil, covered_nil, ?_⟩
  refine CycleSafe.read fun db _ _ => ⟨[], knows_nil, covered_nil, ?_⟩
  refine lockActiveCycle_safe _ (fun locks => ?_) (fun c locks hst hl => ?_) _
  · exact newCycle_safe (fun _ => rfl) (fun _ _ => .rfl) (fun db _ hs _ => ⟨hs, .refl db⟩)
      covered_nil hnext
  have hkeys : (CycleFact.cycle c).keys ⊆ locks := fun k hk => List.mem_singleton.mp hk ▸ hl
  have hcov : Covered [.cycle c] locks := CycleFact.Covered.cons hkeys covered_nil
  refine CycleSafe.read fun db hk hs => ?_
  have hget : db.cycle? c.id = some c := hk _ List.mem_cons_self
  split
  · -- the cycle has no active job, and gets none while it is locked
    rename_i hidle
    have hwithin : (CycleFact.within c []).Holds db := by
      refine ⟨c, Table.get_mem hget, rfl, le_rfl, ?_⟩
      rintro - id ⟨j, hj, -, hjc, ha⟩
      have hempty := List.filter_eq_nil_iff.mp (List.length_eq_zero_iff.mp hidle) j hj
      simp [hjc, ha] at hempty
    have hcov' : Covered [.within c [], .cycle c] locks :=
      CycleFact.Covered.cons (List.nil_subset _) hcov
    refine ⟨_, CycleFact.Knows.cons hwithin hk, hcov', CycleSafe.write hcov' ?_⟩
    refine newCycle_safe (fun _ => rfl) (fun db id => ?_) (fun db hk hs hf => ?_)
      (hcov'.mono (List.subset_append_right _ _)) hnext
    · show Table.get WorkloadCycle.id (db.queue.cycles.map _) id = none ↔
        Table.get WorkloadCycle.id db.queue.cycles id = none
      rw [Table.get_map fun row => by split <;> rfl, Option.map_eq_none_iff]
    · have hok : CycleChange.Ok db (.updateCycle c
          { c with status := .settled, settledAt := some now, updatedAt := now } []) := by
        refine ⟨hf.1, fun k => (by cases k <;> rfl), fun b hb => (by cases hb), fun _ id ha => ?_⟩
        obtain ⟨d, hd, hid, -, hin⟩ := hk _ List.mem_cons_self
        obtain rfl := hs.cycles.eq hd (Table.get_mem hf.1) hid
        cases hin rfl id ha
      exact hok.sound hs
  · refine ⟨[.cycle c], hk, hcov, hnext c _ _ _ hcov ⟨hst, fun _ => rfl, fun db hk hs _ => ?_⟩⟩
    exact ⟨hs, .refl db, hk _ List.mem_cons_self⟩

theorem enqueueCall_safe {a : EnqueueArgs} {cycleId : Nat} :
    CycleSafe (enqueueCall a jobId cycleId now) [] [] [] := by
  unfold enqueueCall
  split
  · exact Safe.raise
  · refine CycleSafe.read fun db _ _ => ⟨[], knows_nil, covered_nil, ?_⟩
    split
    · exact coalesceCall_safe
    · exact activeCycleCall_safe fun c facts journal locks hcov ho => insertCall_safe ho hcov

/-! ### The other calls -/

/-- A call that changes one active row. -/
theorem changeJob_safe {change : WorkJob → WorkJob} (hquery : ∀ q j, query q = some j →
    q.job? jobId = some j ∧ j.status.isActive = true) :
    CycleSafe (changeJob jobId query change) [] [] [] := by
  refine selectForUpdate_safe (fun q j hj => (hquery q j hj).1) (fun _ => CycleSafe.commit_nil)
    fun db j hj => ?_
  obtain ⟨hget, ha⟩ := hquery _ _ hj
  obtain rfl : j.id = jobId := (Queue.job?_some hget).2
  exact updateJob_safe ha List.mem_cons_self

theorem rerouteCall_safe {clear : WorkJob → WorkJob} {payload : JobPayload}
    {source message : String} {at_ : Time} (hquery : ∀ q j, query q = some j →
      q.job? jobId = some j ∧ j.status.isActive = true) :
    CycleSafe (rerouteCall jobId query clear payload source at_ message now) [] [] [] := by
  refine selectForUpdate_safe (fun q j hj => (hquery q j hj).1) (fun _ => CycleSafe.commit_nil)
    fun db j hj => ?_
  obtain ⟨hget, ha⟩ := hquery _ _ hj
  obtain rfl : j.id = jobId := (Queue.job?_some hget).2
  dsimp only
  split
  · exact Safe.raise
  · exact updateJob_safe ha List.mem_cons_self

theorem JobState.active_of_waiting {st : JobState} (h : st.isWaiting = true) :
    st.isActive = true := by
  cases st <;> first | rfl | cases h

/-- Rows are written with the status they had, one after the other. -/
theorem flushResumed_safe {jobs : List WorkJob} {n : Nat} (h : ∀ db : CycleTables, db.Sound →
    (seenBy journal db).Sound ∧ db.Grown (seenBy journal db)) :
    CycleSafe (flushResumed now n jobs) locks journal [] := by
  induction jobs generalizing locks journal with
  | nil => exact CycleSafe.commit fun db _ hs _ => h db hs
  | cons j js ih =>
    refine CycleSafe.write covered_nil (ih fun db hs => ?_)
    obtain ⟨hs₁, hg₁⟩ := h db hs
    obtain ⟨hs₂, hg₂⟩ := (sameStatus_ok j (j.resume now) rfl).sound hs₁
    rw [seenBy, List.foldl_append]
    exact ⟨hs₂, hg₁.trans hg₂⟩

theorem resumeCall_safe {source : String} {skipped : List Nat} :
    CycleSafe (resumeCall source skipped now) [] [] [] := by
  refine CycleSafe.read fun db _ _ => ⟨[], knows_nil, covered_nil, ?_⟩
  refine selectSkipLocked_safe (P := fun _ => True) (fun _ _ _ _ => trivial)
    (fun jobs locks _ => ?_) _ [] [] fun _ _ => trivial
  exact flushResumed_safe fun db hs => ⟨hs, .refl db⟩

theorem progressCall_safe {owner message : String} {d : ProgressDetails} :
    CycleSafe (progressCall jobId owner message d now) [] [] [] := by
  refine CycleSafe.read fun db _ _ => ⟨[], knows_nil, covered_nil, ?_⟩
  split
  · exact CycleSafe.commit_nil
  · exact flushJob_safe rfl fun journal locks h => CycleSafe.commit fun db _ hs _ => h db hs

/-- A lease is active. -/
theorem selectHeld_active {q : Queue} {owner : String} (h : q.selectHeld jobId owner now = some j) :
    q.job? jobId = some j ∧ j.status.isActive = true := by
  obtain ⟨hget, hlive, -⟩ := Queue.selectHeld_some h
  exact ⟨hget, by rw [hlive.1]; rfl⟩

theorem selectOwned_active {q : Queue} {owner : String} (h : q.selectOwned jobId owner = some j) :
    q.job? jobId = some j ∧ j.status.isActive = true := by
  obtain ⟨hget, hst, -⟩ := Queue.selectOwned_some h
  exact ⟨hget, by rw [hst]; rfl⟩

theorem selectWaiting_active {q : Queue} (h : q.selectWaiting jobId = some j) :
    q.job? jobId = some j ∧ j.status.isActive = true := by
  obtain ⟨hget, hw⟩ := Queue.selectWaiting_some h
  exact ⟨hget, JobState.active_of_waiting hw⟩

theorem CycleCall.safe (x : CycleCall) (now : Time) : CycleSafe (x.prog now) [] [] [] := by
  cases x with
  | enqueue a jobId cycleId => exact enqueueCall_safe
  | succeed jobId owner => exact finishCall_safe .succeeded rfl
  | fail jobId owner code message => exact finishCall_safe .failed rfl
  | retry jobId owner availableAt code message => exact retryCall_safe
  | cancel jobId reason => exact cancelCall_safe
  | failExhaustedLeases skipped => exact failExhaustedCall_safe
  | claim jobId owner leaseFor =>
    show CycleSafe (claimRowCall jobId owner leaseFor now) [] [] []
    unfold claimRowCall
    split
    · exact Safe.raise
    split
    · exact Safe.raise
    · refine changeJob_safe fun q j hj => ?_
      obtain ⟨hget, hready⟩ := Option.filter_eq_some_iff.mp hj
      refine ⟨hget, ?_⟩
      simp only [Bool.and_eq_true, Bool.or_eq_true] at hready
      rcases hready.1 with hr | he
      · simp only [WorkJob.ready, Bool.and_eq_true] at hr
        exact JobState.active_of_waiting hr.1
      · simp only [WorkJob.expired, Bool.and_eq_true, beq_iff_eq] at he
        rw [he.1]
        rfl
  | heartbeat jobId owner leaseFor =>
    show CycleSafe (heartbeatCall jobId owner leaseFor now) [] [] []
    unfold heartbeatCall
    split
    · exact Safe.raise
    · exact changeJob_safe fun q j => selectHeld_active
  | progress jobId owner message d => exact progressCall_safe
  | release jobId owner reason => exact changeJob_safe fun q j => selectOwned_active
  | defer jobId owner availableAt code message => exact changeJob_safe fun q j => selectOwned_active
  | reroute jobId owner payload source availableAt message =>
    exact rerouteCall_safe fun q j => selectOwned_active
  | rerouteWaiting jobId payload source availableAt message =>
    exact rerouteCall_safe fun q j => selectWaiting_active
  | retryNow jobId =>
    refine changeJob_safe fun q j hj => ?_
    exact selectWaiting_active (Option.filter_eq_some_iff.mp hj).1
  | resumeRecoveredProvider source skipped => exact resumeCall_safe

end

end

/-! ## Runs -/

instance (db : CycleTables) (w : CycleChange) : Decidable (w.FindsLoaded db) := by
  cases w <;> unfold CycleChange.FindsLoaded <;> infer_instance

instance decidableFindsLoaded : ∀ (db : CycleTables) (journal : List CycleChange),
    Decidable (FindsLoaded db journal)
  | _, [] => .isTrue trivial
  | db, w :: ws =>
    let _ : Decidable (FindsLoaded (db.apply w) ws) := decidableFindsLoaded _ ws
    inferInstanceAs (Decidable (w.FindsLoaded db ∧ FindsLoaded (db.apply w) ws))

/-- A session starts a call at the time of its number, and takes `n` statements. -/
def startCall (session : Nat) (call : CycleCall) (n : Nat) : List (Move (CycleCall × Time)) :=
  .start session (call, session) :: List.replicate n (.advance session)

/-- Two jobs of a cycle, both leased. -/
def leasedTwo : List (Move (CycleCall × Time)) :=
  let sync (key : String) : EnqueueArgs :=
    { kind := .kavitaSync, dedupeKey := key, payload := .kavitaSync { seriesIds := [1] } }
  startCall 1 (.enqueue (sync "a") 1 1) 10 ++ startCall 2 (.enqueue (sync "b") 2 2) 10 ++
    startCall 3 (.claim 1 "w" 100) 4 ++ startCall 4 (.claim 2 "v" 100) 4

/-- The jobs end one after the other. -/
def finishedInTurn : List (Move (CycleCall × Time)) :=
  leasedTwo ++ startCall 5 (.succeed 1 "w") 7 ++ startCall 6 (.succeed 2 "v") 7

/-- The second one loads the cycle before the first one commits. -/
def finishedTogether : List (Move (CycleCall × Time)) :=
  leasedTwo ++ startCall 5 (.succeed 1 "w") 4 ++ startCall 6 (.succeed 2 "v") 4 ++
    List.replicate 3 (.advance 5) ++ List.replicate 3 (.advance 6)

end MangaManager
