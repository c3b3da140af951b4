import MangaManager.Queue.Invariant

/-!
# What the queue keeps of its rows

Job rows are never deleted by a call (`Op.apply_keepsRows`). A request leaves the
jobs that ended as they are, and the active ones active: `Queue.Grows`, which
`Queue.enqueue_grows` gives of every accepted `enqueue`, with the active job whose
id the caller gets.
-/

namespace MangaManager

open Lib

namespace Queue

/-- Ids are primary keys of the sequence. -/
structure RowsOk (s : Queue) : Prop where
  keyed : Table.Keyed WorkJob.id s.jobs
  below : ∀ j ∈ s.jobs, j.id < s.nextJob

/-- There is a job of this id, and it has not ended. -/
def IsActive (s : Queue) (id : Nat) : Prop := ∃ j, s.job? id = some j ∧ j.status.isActive = true

/-- The rows that ended are the same, the others are still active. -/
structure Grows (s s' : Queue) : Prop where
  ended : ∀ id j, s.job? id = some j → j.status.isActive = false → s'.job? id = some j
  active : ∀ id, s.IsActive id → s'.IsActive id

/-- No row is gone. -/
def KeepsRows (s s' : Queue) : Prop := ∀ id, (s.job? id).isSome = true → (s'.job? id).isSome = true

/-- Rows stay, and the active ones are still active. -/
structure Keeps (s s' : Queue) : Prop where
  ok : s'.RowsOk
  rows : s.KeepsRows s'
  active : ∀ id, s.IsActive id → s'.IsActive id

theorem RowsOk.of_wellFormed {s : Queue} (h : s.WellFormed) : s.RowsOk := ⟨h.jobs, h.jobsBelow⟩

theorem Grows.refl {s : Queue} : s.Grows s := ⟨fun _ _ h _ => h, fun _ h => h⟩

theorem Grows.trans {s s₁ s₂ : Queue} (h₁ : s.Grows s₁) (h₂ : s₁.Grows s₂) : s.Grows s₂ :=
  ⟨fun id j hj he => h₂.ended id j (h₁.ended id j hj he) he,
    fun id h => h₂.active id (h₁.active id h)⟩

theorem Grows.keepsRows {s s' : Queue} (h : s.Grows s') : s.KeepsRows s' := by
  intro id hid
  obtain ⟨j, hj⟩ := Option.isSome_iff_exists.mp hid
  by_cases ha : j.status.isActive = true
  · obtain ⟨j', hj', -⟩ := h.active id ⟨j, hj, ha⟩
    rw [hj']
    rfl
  · rw [h.ended id j hj (by simpa using ha)]
    rfl

theorem KeepsRows.trans {s s₁ s₂ : Queue} (h₁ : s.KeepsRows s₁) (h₂ : s₁.KeepsRows s₂) :
    s.KeepsRows s₂ := fun id h => h₂ id (h₁ id h)

theorem IsActive.isSome {s : Queue} {id : Nat} (h : s.IsActive id) : (s.job? id).isSome = true := by
  obtain ⟨j, hj, -⟩ := h
  rw [hj]
  rfl

theorem Keeps.refl {s : Queue} (h : s.RowsOk) : s.Keeps s := ⟨h, fun _ => id, fun _ => id⟩

theorem Keeps.trans {s s₁ s₂ : Queue} (h₁ : s.Keeps s₁) (h₂ : s₁.Keeps s₂) : s.Keeps s₂ :=
  ⟨h₂.ok, h₁.rows.trans h₂.rows, fun id h => h₂.active id (h₁.active id h)⟩

theorem Grows.keeps {s s' : Queue} (h : s.Grows s') (hs : s'.RowsOk) : s.Keeps s' :=
  ⟨hs, h.keepsRows, h.active⟩

/-- A row was rewritten as an active one. -/
theorem keeps_put {s s' : Queue} {j j' : WorkJob} (hs : s.RowsOk) (hj : j ∈ s.jobs)
    (hid : j.id = j'.id) (ha : j'.status.isActive = true)
    (hjobs : s'.jobs = Table.put WorkJob.id s.jobs j') (hn : s'.nextJob = s.nextJob) :
    s.Keeps s' ∧ s'.IsActive j'.id := by
  have hself : s'.IsActive j'.id := by
    refine ⟨j', ?_, ha⟩
    rw [job?, hjobs]
    exact Table.get_put_self hj hid
  have hother : ∀ id, id ≠ j'.id → s'.job? id = s.job? id := by
    intro id hne
    rw [job?, hjobs]
    exact Table.get_put_of_ne hne
  refine ⟨⟨⟨?_, ?_⟩, fun id h => ?_, fun id h => ?_⟩, hself⟩
  · rw [hjobs, Table.keyed_put]
    exact hs.keyed
  · rw [hjobs, hn]
    intro k hk
    rcases Table.mem_put.mp hk with ⟨rfl, -⟩ | ⟨hk, -⟩
    · exact hid ▸ hs.below j hj
    · exact hs.below k hk
  · by_cases hne : id = j'.id
    · rw [hne]
      exact hself.isSome
    · rwa [hother id hne]
  · by_cases hne : id = j'.id
    · rw [hne]
      exact hself
    · obtain ⟨k, hk, hka⟩ := h
      exact ⟨k, by rw [hother id hne, hk], hka⟩

theorem keeps_putJob {s : Queue} {j j' : WorkJob} (hs : s.RowsOk) (hj : j ∈ s.jobs)
    (hid : j.id = j'.id) (ha : j'.status.isActive = true) : s.Keeps (s.putJob j') := by
  obtain ⟨hk, -⟩ : s.Keeps (s.putJob j') ∧ (s.putJob j').IsActive j'.id :=
    keeps_put hs hj hid ha rfl rfl
  exact hk

end Queue

section
variable {now : Time} {op : Op} {s s' : Queue}

theorem Transition.rowsOk (h : Transition now op s s') (hs : s.RowsOk) :
    s'.RowsOk ∧ s.KeepsRows s' := by
  rcases h.jobs_cases with ⟨hj, hn⟩ | ⟨a, -, -, -, rfl⟩ | ⟨j, j', hj, hrow, hjobs, hn⟩
  · refine ⟨⟨hj ▸ hs.keyed, hj ▸ hn ▸ hs.below⟩, fun id hid => ?_⟩
    rwa [Queue.job?, hj]
  · have hid : (s.insertedJob a now).id = s.nextJob := rfl
    have hfresh : ∀ k ∈ s.jobs, k.id ≠ (s.insertedJob a now).id := by
      intro k hk
      have hlt := hs.below k hk
      omega
    refine ⟨⟨?_, ?_⟩, fun id hi => ?_⟩
    · rw [Queue.enqueueNew_jobs, Table.keyed_append]
      exact ⟨hs.keyed, hfresh⟩
    · simp only [Queue.enqueueNew_jobs, Queue.enqueueNew_nextJob, List.mem_append,
        List.mem_singleton]
      rintro k (hk | rfl)
      · exact (hs.below k hk).trans (Nat.lt_succ_self _)
      · omega
    · obtain ⟨k, hk, rfl⟩ := Table.isSome_get.mp hi
      refine Table.isSome_get.mpr ⟨k, ?_, rfl⟩
      rw [Queue.enqueueNew_jobs]
      exact List.mem_append_left _ hk
  · refine ⟨⟨?_, ?_⟩, fun id hi => ?_⟩
    · rw [hjobs, Table.keyed_put]
      exact hs.keyed
    · rw [hjobs, hn]
      intro k hk
      rcases Table.mem_put.mp hk with ⟨rfl, -⟩ | ⟨hk, -⟩
      · rw [hrow.sameJob.id]
        exact hs.below j hj
      · exact hs.below k hk
    · obtain ⟨k, hk, rfl⟩ := Table.isSome_get.mp hi
      rw [Queue.job?, Table.isSome_get, hjobs]
      by_cases he : k.id = j'.id
      · exact ⟨j', Table.mem_put_self hk he, he.symm⟩
      · exact ⟨k, Table.mem_put_of_ne hk he, rfl⟩

/-- A call deletes no job. -/
theorem Op.apply_rowsOk (op : Op) (now : Time) (hs : s.RowsOk) :
    (op.apply s now).RowsOk ∧ s.KeepsRows (op.apply s now) := by
  refine Op.apply_inv (P := fun q => q.RowsOk ∧ s.KeepsRows q) op now hs.keyed ?_
    ⟨hs, fun _ => id⟩
  rintro q q' ⟨hq, hk⟩ ht
  exact ⟨(ht.rowsOk hq).1, hk.trans (ht.rowsOk hq).2⟩

end

namespace Queue

variable {s s' : Queue} {a : EnqueueArgs} {now : Time} {id : Nat} {created : Bool}

/-- A job of an unused key is added. -/
theorem enqueueNew_grows (hs : s.RowsOk) :
    s.Grows (s.enqueueNew a now) ∧ (s.enqueueNew a now).IsActive s.nextJob := by
  have hget : ∀ id, (s.enqueueNew a now).job? id =
      if id = s.nextJob then some (s.insertedJob a now) else s.job? id := by
    intro id
    unfold job?
    rw [enqueueNew_jobs]
    refine Table.get_append fun k hk => ?_
    exact (hs.below k hk).ne
  have hold : ∀ id j, s.job? id = some j → (s.enqueueNew a now).job? id = some j := by
    intro id j hj
    have hlt := hs.below j (job?_some hj).1
    rw [(job?_some hj).2] at hlt
    rw [hget, if_neg hlt.ne, hj]
  refine ⟨⟨fun id j hj _ => hold id j hj, ?_⟩, s.insertedJob a now, ?_, rfl⟩
  · rintro id ⟨j, hj, ha⟩
    exact ⟨j, hold id j hj, ha⟩
  · rw [hget, if_pos rfl]

/-- A request to an active job rewrites that job only. -/
theorem enqueueExisting_grows {e : WorkJob} (hc : checkEnqueue a = .ok ())
    (hs : s.RowsOk) (he : s.activeJob a.kind (strip a.dedupeKey) = some e) :
    s.Grows (s.enqueueExisting a e now) ∧ (s.enqueueExisting a e now).IsActive e.id := by
  obtain ⟨e', n, hedit, hq⟩ := enqueueExisting_edit now hc he
  obtain ⟨hmem, -, -, hact⟩ := activeJob_some he
  have hid : e'.id = e.id := (RowStep.edit hedit).sameJob.id
  have hact' : e'.status.isActive = true := by rw [← hedit.edited.active, hact]
  rw [hq]
  have hself : ((s.putJob e').addUnits e'.cycleId n now).job? e.id = some e' := by
    rw [← hid]
    exact job?_putJob hmem hid.symm
  have hother : ∀ id, id ≠ e.id →
      ((s.putJob e').addUnits e'.cycleId n now).job? id = s.job? id := by
    intro id hne
    exact Table.get_put_of_ne (hid ▸ hne)
  refine ⟨⟨fun id j hj hend => ?_, ?_⟩, e', hself, hact'⟩
  · have hne : id ≠ e.id := by
      rintro rfl
      rw [job?_eq hs.keyed hmem] at hj
      cases hj
      rw [hact] at hend
      cases hend
    rw [hother id hne, hj]
  · rintro id ⟨j, hj, ha⟩
    by_cases hne : id = e.id
    · rw [hne]
      exact ⟨e', hself, hact'⟩
    · exact ⟨j, by rw [hother id hne, hj], ha⟩

theorem enqueue_grows (hs : s.RowsOk) (h : s.enqueue a now = .ok (s', id, created)) :
    s.Grows s' ∧ s'.RowsOk ∧ s'.IsActive id := by
  have hok : (committed s (s.enqueue a now)).RowsOk := (Op.apply_rowsOk (.enqueue a) now hs).1
  rw [h] at hok
  unfold enqueue at h
  split at h
  · cases h
  · rename_i hc
    split at h
    · rename_i e he
      cases h
      exact ⟨(enqueueExisting_grows hc hs he).1, hok, (enqueueExisting_grows hc hs he).2⟩
    · cases h
      exact ⟨(enqueueNew_grows hs).1, hok, (enqueueNew_grows hs).2⟩

/-- A job that is not of the kind that was asked for was there with its kind, and the one whose id
is returned is of that kind. -/
theorem enqueue_kinds (hs : s.RowsOk) (h : s.enqueue a now = .ok (s', id, created)) :
    (∀ k j', s'.job? k = some j' → j'.kind = a.kind ∨
      ∃ j, s.job? k = some j ∧ j'.kind = j.kind) ∧
      ∀ j, s'.job? id = some j → j.kind = a.kind := by
  unfold enqueue at h
  split at h
  · cases h
  · rename_i hc
    split at h
    · rename_i e he
      cases h
      obtain ⟨e', n, hedit, hq⟩ := enqueueExisting_edit now hc he
      obtain ⟨hmem, hkind, -, -⟩ := activeJob_some he
      have hsame := (RowStep.edit hedit).sameJob
      have hself : (s.enqueueExisting a e now).job? e.id = some e' := by
        rw [hq, ← hsame.id]
        exact job?_putJob hmem hsame.id.symm
      have hasked : ∀ j, (s.enqueueExisting a e now).job? e.id = some j → j.kind = a.kind := by
        intro j hj
        rw [hself] at hj
        cases hj
        exact hsame.kind.trans hkind
      refine ⟨fun k j' hj' => ?_, hasked⟩
      by_cases hk : k = e.id
      · exact .inl (hasked j' (hk ▸ hj'))
      · refine .inr ⟨j', ?_, rfl⟩
        rw [← hj', hq]
        exact (Table.get_put_of_ne (hsame.id ▸ hk)).symm
    · cases h
      have hget : ∀ k, (s.enqueueNew a now).job? k =
          if k = s.nextJob then some (s.insertedJob a now) else s.job? k := by
        intro k
        unfold job?
        rw [enqueueNew_jobs]
        exact Table.get_append fun k hk => (hs.below k hk).ne
      have hasked : ∀ j, (s.enqueueNew a now).job? s.nextJob = some j → j.kind = a.kind := by
        intro j hj
        rw [hget, if_pos rfl] at hj
        cases hj
        rfl
      refine ⟨fun k j' hj' => ?_, hasked⟩
      by_cases hk : k = s.nextJob
      · exact .inl (hasked j' (hk ▸ hj'))
      · rw [hget, if_neg hk] at hj'
        exact .inr ⟨j', hj', rfl⟩

theorem reroute_keeps {jobId : Nat} {owner source message : String} {payload : JobPayload}
    {at_ : Time} {moved : Bool} (hs : s.RowsOk)
    (h : s.reroute jobId owner payload source at_ message now = .ok (s', moved)) :
    s.Keeps s' ∧ (moved = true → s'.IsActive jobId) := by
  unfold reroute at h
  split at h
  · cases h
    exact ⟨.refl hs, fun h => by cases h⟩
  · rename_i j hj
    obtain ⟨hm, rfl⟩ := job?_some (selectOwned_some hj).1
    split at h
    · cases h
    · rename_i p _
      cases h
      refine And.imp_right (fun ha _ => ha) (?_ : s.Keeps _ ∧ IsActive _ j.id)
      exact @keeps_put s _ j (j.clearLease.rerouteTo p source at_ message now) hs hm rfl rfl rfl rfl

theorem rerouteWaiting_keeps {jobId : Nat} {source message : String} {payload : JobPayload}
    {at_ : Time} {moved : Bool} (hs : s.RowsOk)
    (h : s.rerouteWaiting jobId payload source at_ message now = .ok (s', moved)) :
    s.Keeps s' ∧ (moved = true → s'.IsActive jobId) := by
  unfold rerouteWaiting at h
  split at h
  · cases h
    exact ⟨.refl hs, fun h => by cases h⟩
  · rename_i j hj
    obtain ⟨hm, rfl⟩ := job?_some (selectWaiting_some hj).1
    split at h
    · cases h
    · rename_i p _
      cases h
      refine And.imp_right (fun ha _ => ha) (?_ : s.Keeps _ ∧ IsActive _ j.id)
      exact @keeps_put s _ j (j.rerouteTo p source at_ message now) hs hm rfl rfl rfl rfl

/-- A request whose arguments pass the checks is accepted. -/
theorem enqueue_ok (s : Queue) (now : Time) (h : checkEnqueue a = .ok ()) :
    ∃ s' id created, s.enqueue a now = .ok (s', id, created) := by
  unfold enqueue
  rw [h]
  dsimp only
  cases s.activeJob a.kind (strip a.dedupeKey) with
  | none => exact ⟨_, _, _, rfl⟩
  | some e => exact ⟨_, _, _, rfl⟩

end Queue

end MangaManager
