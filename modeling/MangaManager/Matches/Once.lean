import MangaManager.Matches.Operations

/-!
# Match operations end once

What the transactions of match operations keep, over all interleavings: the rows of
`match_operation_series` are those of the queued and running operations, no two of
these share a series, and what is over stays over (`match_operations_end_once`). The
second transaction of the handler does not look at the status of its operation, and the
two that record a failure write it without a lock, so the condition is that an operation
is not over when one of them commits.
-/

namespace MangaManager

open Lib ReadCommitted

/-- The row without its job, which is set to null when the job is deleted. -/
def MatchOperation.core (op : MatchOperation) : MatchOperation := { op with jobId := none }

/-- What stays the same of a row that is locked: the row of an operation; and a series is not
deleted, and not reserved. -/
def MatchKey.Same : MatchKey → Matches → Matches → Prop
  | .operation id, db, db' =>
    (db'.operation? id).map MatchOperation.core = (db.operation? id).map MatchOperation.core
  | .decision _, _, _ => True
  | .series u, db, db' => (u ∈ db.series → u ∈ db'.series) ∧
    ∀ r ∈ db'.reservations, r.seriesId = u → r ∈ db.reservations

theorem operation?_update {db : Matches} {id id' : Nat} {f : MatchOperation → MatchOperation}
    (hf : ∀ op, (f op).id = op.id) (h : id ≠ id') :
    (db.update id f).operation? id' = db.operation? id' := by
  have hget : (db.update id f).operation? id' =
      (db.operation? id').map fun op => if op.id = id then f op else op := by
    refine Table.get_map fun op => ?_
    split
    · exact hf op
    · rfl
  rw [hget]
  cases hop : db.operation? id' with
  | none => rfl
  | some op =>
    have hid : op.id = id' := Table.get_key hop
    rw [Option.map_some, if_neg (fun he => h (he.symm.trans hid))]

theorem operation_same {db : Matches} {w : MatchChange} {id : Nat}
    (h : MatchKey.operation id ∉ w.keys) : (MatchKey.operation id).Same db (db.apply w) := by
  have hne : ∀ id', w.keys = [.operation id'] → id' ≠ id := by
    rintro id' hk rfl
    exact h (hk ▸ List.mem_singleton_self _)
  cases w with
  | begin id' now => exact congrArg _ (operation?_update (fun _ => rfl) (hne id' rfl))
  | succeed id' now => exact congrArg _ (operation?_update (fun _ => rfl) (hne id' rfl))
  | fail id' loaded code message now =>
    exact congrArg _ (operation?_update (fun _ => rfl) (hne id' rfl))
  | enqueueJob id' r now =>
    unfold Matches.apply
    dsimp only
    split
    · exact congrArg _ (operation?_update (fun _ => rfl) (hne id' rfl))
    · rfl
  | insert op => exact congrArg _ (Table.get_append_of_ne (hne op.id rfl))
  | prune jobIds =>
    show (Table.get MatchOperation.id (db.operations.map _) id).map _ = _
    rw [Table.get_map, Option.map_map]
    · refine congrArg (fun f => Option.map f _) (funext fun op => ?_)
      dsimp only [Function.comp]
      split <;> rfl
    · intro op
      split <;> rfl
  | decide | merge | release | reserve | call => rfl

theorem series_same {db : Matches} {w : MatchChange} {u : Nat} (h : MatchKey.series u ∉ w.keys) :
    (MatchKey.series u).Same db (db.apply w) := by
  cases w with
  | merge id removed dropped =>
    have hu : u ∉ removed := fun hm =>
      h (List.mem_append_left _ (List.mem_map.mpr ⟨u, hm, rfl⟩))
    refine ⟨fun hm => List.mem_filter.mpr ⟨hm, by simpa using hu⟩, fun r hr _ => ?_⟩
    exact (List.mem_filter.mp hr).1
  | reserve id v =>
    refine ⟨fun hm => hm, fun r hr hru => ?_⟩
    rcases List.mem_append.mp hr with hr | hr
    · exact hr
    · obtain rfl := List.mem_singleton.mp hr
      exact absurd (List.mem_singleton.mpr (congrArg MatchKey.series hru.symm)) h
  | release id => exact ⟨fun hm => hm, fun r hr _ => (List.mem_filter.mp hr).1⟩
  | enqueueJob id r now =>
    unfold Matches.apply
    dsimp only
    split <;> exact ⟨fun hm => hm, fun r hr _ => hr⟩
  | begin | decide | succeed | fail | insert | call | prune =>
    exact ⟨fun hm => hm, fun r hr _ => hr⟩

/-- The tables of the operations. -/
def matchDatabase : Database Matches MatchKey MatchChange where
  apply := Matches.apply
  keys := MatchChange.keys
  Same := MatchKey.Same
  refl k db := by
    cases k with
    | operation id => rfl
    | decision id => trivial
    | series u => exact ⟨fun h => h, fun r h _ => h⟩
  trans k a b c h h' := by
    cases k with
    | operation id => exact Eq.trans h' h
    | decision id => trivial
    | series u => exact ⟨fun hu => h'.1 (h.1 hu), fun r hr hu => h.2 r (h'.2 r hr hu) hu⟩
  frame k db w h := by
    cases k with
    | operation id => exact operation_same h
    | decision id => trivial
    | series u => exact series_same h

namespace Matches

/-- The rows of the reservations are those of the operations that are not over, no two of these
share a series, and what was committed for an operation, its status says. -/
structure EndsOk (db : Matches) : Prop where
  keyed : Table.Keyed MatchOperation.id db.operations
  exact : ∀ r, r ∈ db.reservations ↔ ∃ op ∈ db.operations, op.status.isActive = true ∧
    op.id = r.operationId ∧ r.seriesId ∈ op.seriesIds
  unique : ∀ a ∈ db.reservations, ∀ b ∈ db.reservations, a.seriesId = b.seriesId → a = b
  applied : ∀ id ∈ db.applied, ∃ op ∈ db.operations, op.id = id ∧ op.status = .succeeded

/-- Operations stay, and what is over stays as it is. -/
def Settled (db db' : Matches) : Prop := ∀ op ∈ db.operations, ∃ op' ∈ db'.operations,
  op'.id = op.id ∧ op'.seriesIds = op.seriesIds ∧
    (op.status.isActive = false → op'.status = op.status)

theorem Settled.refl (db : Matches) : Settled db db :=
  fun op h => ⟨op, h, rfl, rfl, fun _ => rfl⟩

theorem Settled.trans {a b c : Matches} (h : Settled a b) (h' : Settled b c) : Settled a c := by
  intro op hop
  obtain ⟨op₁, h₁, hid, hseries, hst⟩ := h op hop
  obtain ⟨op₂, h₂, hid', hseries', hst'⟩ := h' op₁ h₁
  refine ⟨op₂, h₂, hid'.trans hid, hseries'.trans hseries, fun ho => ?_⟩
  have he := hst ho
  exact (hst' (he ▸ ho)).trans he

end Matches

/-- The operation a change ends is not over, or is over in the same way. -/
def MatchChange.FindsOpen (db : Matches) : MatchChange → Prop
  | .succeed id _ => ∀ op ∈ db.operations, op.id = id →
    op.status.isActive = true ∨ (op.status = .succeeded ∧ op.action = .rejected)
  | .fail id _ _ _ _ => ∀ op ∈ db.operations, op.id = id →
    op.status.isActive = true ∨ op.status = .failed
  | _ => True

/-- No operation that is over is ended by the commit of `journal`. -/
def FindsOpen (db : Matches) (journal : List MatchChange) : Prop := ∀ w ∈ journal, w.FindsOpen db

/-! ## What the transactions commit -/

section
variable {db db' : Matches} {id : Nat} {op : MatchOperation} {now : Time}

/-- The operations of `E` are over in `db'`, and their rows are gone. -/
theorem Matches.EndsOk.of_map (h : db.EndsOk) {f : MatchOperation → MatchOperation} (E : Nat → Prop)
    (hops : db'.operations = db.operations.map f)
    (hf : ∀ op, (f op).id = op.id ∧ (f op).seriesIds = op.seriesIds)
    (hact : ∀ op ∈ db.operations,
      ((f op).status.isActive = true ↔ op.status.isActive = true ∧ ¬ E op.id))
    (hset : ∀ op ∈ db.operations, op.status.isActive = false → (f op).status = op.status)
    (hres : ∀ r, r ∈ db'.reservations ↔ r ∈ db.reservations ∧ ¬ E r.operationId)
    (happ : ∀ id ∈ db'.applied,
      id ∈ db.applied ∨ ∃ op ∈ db.operations, op.id = id ∧ (f op).status = .succeeded) :
    db'.EndsOk ∧ db.Settled db' := by
  refine ⟨⟨?_, fun r => ?_, fun a ha b hb => ?_, fun id hid => ?_⟩, fun op hop => ?_⟩
  · rw [hops]
    refine h.keyed.map fun x _ y _ he => ?_
    rwa [(hf x).1, (hf y).1] at he
  · rw [hres, h.exact, hops]
    constructor
    · rintro ⟨⟨op, hop, ha, hid, hs⟩, hE⟩
      refine ⟨f op, List.mem_map_of_mem hop, (hact op hop).mpr ⟨ha, hid ▸ hE⟩, ?_, ?_⟩
      · exact (hf op).1.trans hid
      · rw [(hf op).2]
        exact hs
    · rintro ⟨op', hop', ha, hid, hs⟩
      obtain ⟨op, hop, rfl⟩ := List.mem_map.mp hop'
      rw [(hf op).1] at hid
      rw [(hf op).2] at hs
      obtain ⟨ha, hE⟩ := (hact op hop).mp ha
      exact ⟨⟨op, hop, ha, hid, hs⟩, hid ▸ hE⟩
  · exact h.unique a ((hres a).mp ha).1 b ((hres b).mp hb).1
  · rw [hops]
    rcases happ id hid with hid | ⟨op, hop, hid, hs⟩
    · obtain ⟨op, hop, hid, hs⟩ := h.applied id hid
      refine ⟨f op, List.mem_map_of_mem hop, (hf op).1.trans hid, ?_⟩
      rw [hset op hop (hs ▸ rfl), hs]
    · exact ⟨f op, List.mem_map_of_mem hop, (hf op).1.trans hid, hs⟩
  · rw [hops]
    exact ⟨f op, List.mem_map_of_mem hop, (hf op).1, (hf op).2, hset op hop⟩

/-- One operation is written, or none. -/
theorem Matches.EndsOk.of_update (h : db.EndsOk) (f : MatchOperation → MatchOperation)
    (E : Nat → Prop) (hops : db'.operations = (db.update id f).operations)
    (hf : ∀ op, (f op).id = op.id ∧ (f op).seriesIds = op.seriesIds)
    (hE : ∀ id', E id' → id' = id)
    (hact : ∀ op ∈ db.operations, op.id = id →
      ((f op).status.isActive = true ↔ op.status.isActive = true ∧ ¬ E id))
    (hset : ∀ op ∈ db.operations, op.id = id → op.status.isActive = false →
      (f op).status = op.status)
    (hres : ∀ r, r ∈ db'.reservations ↔ r ∈ db.reservations ∧ ¬ E r.operationId)
    (happ : ∀ id' ∈ db'.applied, id' ∈ db.applied ∨
      (id' = id ∧ ∃ op ∈ db.operations, op.id = id ∧ (f op).status = .succeeded)) :
    db'.EndsOk ∧ db.Settled db' := by
  refine h.of_map E hops (fun op => ?_) (fun op hop => ?_) (fun op hop ho => ?_) hres fun id' hid => ?_
  · split
    · exact hf op
    · exact ⟨rfl, rfl⟩
  · by_cases he : op.id = id
    · rw [if_pos he, he]
      exact hact op hop he
    · rw [if_neg he]
      exact ⟨fun ha => ⟨ha, fun hE' => he (hE _ hE')⟩, fun ha => ha.1⟩
  · split
    · rename_i he
      exact hset op hop he ho
    · rfl
  · rcases happ id' hid with hid | ⟨rfl, op, hop, he, hs⟩
    · exact .inl hid
    · exact .inr ⟨op, hop, he, by rw [if_pos he]; exact hs⟩

/-- The first transaction. -/
theorem begin_ok (h : db.EndsOk) (hop : ∀ op ∈ db.operations, op.id = id → op.status.isActive = true) :
    (db.apply (.begin id now)).EndsOk ∧ db.Settled (db.apply (.begin id now)) := by
  refine h.of_update (fun op => { op with status := .running, updatedAt := now }) (fun _ => False)
    rfl (fun _ => ⟨rfl, rfl⟩) (fun _ hE => hE.elim) (fun op hm he => ?_) (fun op hm he ho => ?_)
    (fun r => ?_) fun id' hid => .inl hid
  · exact ⟨fun _ => ⟨hop op hm he, not_false⟩, fun _ => rfl⟩
  · rw [hop op hm he] at ho
    cases ho
  · simp [Matches.apply, Matches.update]

/-- The end of the second transaction, after what it did to the rows of the operation's series. -/
theorem succeed_ok {removed : List Nat} (h : db.EndsOk)
    (hop : ∀ op ∈ db.operations, op.id = id → op.status.isActive = true ∨ op.status = .succeeded)
    (hex : ∃ op ∈ db.operations, op.id = id ∧ (removed = [] ∨ op.status.isActive = true) ∧
      removed ⊆ op.seriesIds)
    (hops : db'.operations = db.operations)
    (hres : db'.reservations = db.reservations.filter (·.seriesId ∉ removed))
    (happ : ∀ x ∈ db'.applied, x = id ∨ x ∈ db.applied) :
    ((db'.apply (.release id)).apply (.succeed id now)).EndsOk ∧
      db.Settled ((db'.apply (.release id)).apply (.succeed id now)) := by
  obtain ⟨op, hm, hid, hact, hrem⟩ := hex
  -- the rows of the series that are deleted are those of the operation itself
  have hown : ∀ r ∈ db.reservations, r.seriesId ∈ removed → r.operationId = id := by
    intro r hr hs
    have ha : op.status.isActive = true := hact.resolve_left fun he => by
      rw [he] at hs
      cases hs
    have hrow : (⟨id, r.seriesId⟩ : MatchOperationSeries) ∈ db.reservations :=
      (h.exact _).mpr ⟨op, hm, ha, hid, hrem hs⟩
    rw [h.unique r hr _ hrow rfl]
  refine h.of_update (fun op =>
      { op with
        status := .succeeded, errorCode := "", errorMessage := "", updatedAt := now
        completedAt := some now }) (· = id) (congrArg (List.map _) hops)
    (fun _ => ⟨rfl, rfl⟩) (fun _ he => he) (fun x _ _ => ?_) (fun x hx he ho => ?_) (fun r => ?_)
    fun id' hid' => ?_
  · exact ⟨fun ha => (by cases ha), fun ha => absurd rfl ha.2⟩
  · rcases hop x hx he with ha | hs
    · rw [ha] at ho
      cases ho
    · exact hs.symm
  · show r ∈ db'.reservations.filter (·.operationId != id) ↔ _
    rw [hres, List.mem_filter, List.mem_filter, bne_iff_ne]
    constructor
    · rintro ⟨⟨hr, -⟩, hne⟩
      exact ⟨hr, hne⟩
    · rintro ⟨hr, hne⟩
      exact ⟨⟨hr, by simpa using fun hs => hne (hown r hr hs)⟩, hne⟩
  · rcases happ id' hid' with rfl | hid'
    · exact .inr ⟨rfl, op, hm, hid, rfl⟩
    · exact .inl hid'

/-- The rows of the operations are deleted. -/
theorem foldl_release (ids : List Nat) (db : Matches) :
    (ids.map MatchChange.release).foldl Matches.apply db =
      { db with reservations := db.reservations.filter (·.operationId ∉ ids) } := by
  induction ids generalizing db with
  | nil => simp
  | cons id ids ih =>
    rw [List.map_cons, List.foldl_cons, ih]
    simp only [Matches.apply, List.filter_filter]
    refine congrArg (fun rows => { db with reservations := rows }) (List.filter_congr fun r _ => ?_)
    rw [Bool.eq_iff_iff]
    simp [and_comm]

/-- The failure of the operations is recorded, unless it was loaded as one. -/
theorem foldl_fail (now : Time) (code message : String) (ops : List MatchOperation) (db : Matches) :
    ∃ f : MatchOperation → MatchOperation,
      (ops.map fun op => MatchChange.fail op.id op.status code message now).foldl Matches.apply db =
        { db with operations := db.operations.map f } ∧
      ∀ op, (f op).id = op.id ∧ (f op).seriesIds = op.seriesIds ∧ (f op).status =
        if ∃ x ∈ ops, x.id = op.id ∧ x.status ≠ .failed then .failed else op.status := by
  induction ops generalizing db with
  | nil => exact ⟨id, by simp, fun op => ⟨rfl, rfl, by simp⟩⟩
  | cons x ops ih =>
    obtain ⟨f, he, hf⟩ := ih (db.apply (.fail x.id x.status code message now))
    refine ⟨f ∘ fun op => if op.id = x.id then op.failWith x.status code message now else op, ?_,
      fun op => ?_⟩
    · rw [List.map_cons, List.foldl_cons, he]
      simp [Matches.apply, Matches.update]
    · show (f (if op.id = x.id then op.failWith x.status code message now else op)).id = _ ∧ _
      by_cases hid : op.id = x.id
      · obtain ⟨h₁, h₂, h₃⟩ := hf (op.failWith x.status code message now)
        rw [Function.comp_apply, if_pos hid, h₁, h₂, h₃]
        refine ⟨rfl, rfl, ?_⟩
        by_cases hx : x.status = .failed <;> simp [MatchOperation.failWith, hx, hid]
      · obtain ⟨h₁, h₂, h₃⟩ := hf op
        rw [Function.comp_apply, if_neg hid, h₁, h₂, h₃]
        simp [Ne.symm hid]

/-- The reconciler, and the transaction of the exception branch. -/
theorem fail_ok (now : Time) (ops : List MatchOperation) (code message : String) (h : db.EndsOk)
    (hfinds : ∀ x ∈ ops, ∀ op ∈ db.operations, op.id = x.id →
      op.status.isActive = true ∨ op.status = .failed)
    (hloaded : ∀ x ∈ ops, x.status = .failed → ∀ op ∈ db.operations, op.id = x.id →
      op.status = .failed)
    (hdb : db' = ((ops.map fun op => MatchChange.release op.id) ++
      ops.map fun op => MatchChange.fail op.id op.status code message now).foldl
        Matches.apply db) : db'.EndsOk ∧ db.Settled db' := by
  have hrel := foldl_release (ops.map (·.id)) db
  rw [List.map_map] at hrel
  obtain ⟨f, hfail, hf⟩ := foldl_fail now code message ops
    { db with reservations := db.reservations.filter (·.operationId ∉ ops.map (·.id)) }
  have hdb' : db' = { db with
      operations := db.operations.map f
      reservations := db.reservations.filter (·.operationId ∉ ops.map (·.id)) } := by
    rw [hdb, List.foldl_append]
    exact (congrArg (List.foldl _ · _) hrel).trans hfail
  rw [hdb']
  refine h.of_map (· ∈ ops.map (·.id)) rfl (fun op => ⟨(hf op).1, (hf op).2.1⟩) (fun op hop => ?_)
    (fun op hop ho => ?_) (fun r => ?_) fun id hid => .inl hid
  · rw [(hf op).2.2]
    by_cases hE : op.id ∈ ops.map (·.id)
    · obtain ⟨x, hx, hid⟩ := List.mem_map.mp hE
      refine iff_of_false (fun ha => ?_) fun ha => ha.2 hE
      split at ha
      · cases ha
      · rename_i hno
        have hxf : x.status = .failed := by
          by_contra hxs
          exact hno ⟨x, hx, hid, hxs⟩
        rw [hloaded x hx hxf op hop hid.symm] at ha
        cases ha
    · rw [if_neg, and_iff_left hE]
      rintro ⟨x, hx, hid, -⟩
      exact hE (List.mem_map.mpr ⟨x, hx, hid⟩)
  · rw [(hf op).2.2]
    split
    · rename_i hex
      obtain ⟨x, hx, hid, -⟩ := hex
      rcases hfinds x hx op hop hid.symm with ha | hs
      · rw [ha] at ho
        cases ho
      · exact hs.symm
    · rfl
  · rw [List.mem_filter, decide_eq_true_eq]

/-- Changes of the jobs. -/
theorem jobs_ok (h : db.EndsOk) {f : MatchOperation → MatchOperation}
    (hf : ∀ op, (f op).id = op.id ∧ (f op).seriesIds = op.seriesIds ∧ (f op).status = op.status)
    (hops : db'.operations = db.operations.map f) (hres : db'.reservations = db.reservations)
    (happ : db'.applied = db.applied) : db'.EndsOk ∧ db.Settled db' := by
  refine h.of_map (fun _ => False) hops (fun op => ⟨(hf op).1, (hf op).2.1⟩) (fun op _ => ?_)
    (fun op _ _ => (hf op).2.2) (fun r => ?_) fun id hid => .inl (happ ▸ hid)
  · rw [(hf op).2.2, not_false_eq_true, and_true]
  · rw [hres, not_false_eq_true, and_true]

/-- A new operation, with the rows of its series. -/
theorem insert_ok {ids : List Nat} (h : db.EndsOk) (hid : ∀ op ∈ db.operations, op.id ≠ id)
    (hfree : ∀ u ∈ ids, ∀ r ∈ db.reservations, r.seriesId ≠ u)
    (hnew : op.id = id ∧ op.status = .queued ∧ op.seriesIds = ids)
    (hops : db'.operations = db.operations ++ [op])
    (hres : db'.reservations = db.reservations ++ ids.map fun u => ⟨id, u⟩)
    (happ : db'.applied = db.applied) : db'.EndsOk ∧ db.Settled db' := by
  obtain ⟨rfl, hs, rfl⟩ := hnew
  refine ⟨⟨?_, fun r => ?_, fun a ha b hb he => ?_, fun id hid => ?_⟩, fun x hx => ?_⟩
  · rw [hops, Table.keyed_append]
    exact ⟨h.keyed, hid⟩
  · rw [hres, hops, List.mem_append, h.exact, List.mem_map]
    simp only [List.mem_append, List.mem_singleton]
    constructor
    · rintro (⟨x, hx, ha, hr⟩ | ⟨u, hu, rfl⟩)
      · exact ⟨x, .inl hx, ha, hr⟩
      · exact ⟨op, .inr rfl, by rw [hs]; rfl, rfl, hu⟩
    · rintro ⟨x, hx | rfl, ha, hid, hr⟩
      · exact .inl ⟨x, hx, ha, hid, hr⟩
      · exact .inr ⟨r.seriesId, hr, by rw [hid]⟩
  · rw [hres] at ha hb
    rcases List.mem_append.mp ha with ha | ha <;> rcases List.mem_append.mp hb with hb | hb
    · exact h.unique a ha b hb he
    · obtain ⟨u, hu, rfl⟩ := List.mem_map.mp hb
      exact absurd he (hfree u hu a ha)
    · obtain ⟨u, hu, rfl⟩ := List.mem_map.mp ha
      exact absurd he.symm (hfree u hu b hb)
    · obtain ⟨u, hu, rfl⟩ := List.mem_map.mp ha
      obtain ⟨v, hv, rfl⟩ := List.mem_map.mp hb
      rw [show u = v from he]
  · rw [happ] at hid
    obtain ⟨x, hx, hxid, hxs⟩ := h.applied id hid
    exact ⟨x, hops ▸ List.mem_append_left _ hx, hxid, hxs⟩
  · exact ⟨x, hops ▸ List.mem_append_left _ hx, rfl, rfl, fun _ => rfl⟩

end

/-! ## The programs -/

/-- The program keeps the operations in order, whatever commits meanwhile. -/
abbrev MatchSafe : MatchProg → List MatchKey → List MatchChange → (Matches → Prop) → Prop :=
  Safe matchDatabase Matches.EndsOk Matches.Settled FindsOpen

abbrev MatchStable : List MatchKey → (Matches → Prop) → Prop :=
  Stable matchDatabase Matches.EndsOk Matches.Settled

/-- The row of the operation is `row`, its job aside. -/
def RowIs (id : Nat) (row : Option MatchOperation) (db : Matches) : Prop :=
  (db.operation? id).map MatchOperation.core = row

section
variable {id : Nat} {now : Time} {locks : List MatchKey} {journal : List MatchChange}
  {A : Matches → Prop} {op op' : MatchOperation} {db : Matches}

theorem rowIs_stable {row : Option MatchOperation} (h : MatchKey.operation id ∈ locks) :
    MatchStable locks (RowIs id row) :=
  fun _ _ hA _ _ _ hk => Eq.trans (hk _ h) hA

theorem core_fields (h : op'.core = op.core) : op'.status = op.status ∧ op'.action = op.action ∧
    op'.seriesIds = op.seriesIds := by
  have h₁ := congrArg MatchOperation.status h
  have h₂ := congrArg MatchOperation.action h
  have h₃ := congrArg MatchOperation.seriesIds h
  exact ⟨h₁, h₂, h₃⟩

theorem RowIs.core_eq (h : RowIs id (some op.core) db) (hk : db.EndsOk) (hm : op' ∈ db.operations)
    (hid : op'.id = id) : op'.core = op.core := by
  have hget : db.operation? id = some op' := hid ▸ hk.keyed.get_eq hm
  rw [RowIs, hget, Option.map_some] at h
  exact Option.some.inj h

/-- The locked rows are known to the end. -/
theorem RowIs.exists (h : RowIs id (some op.core) db) :
    ∃ x ∈ db.operations, x.id = id ∧ x.core = op.core := by
  obtain ⟨x, hx, he⟩ := Option.map_eq_some_iff.mp h
  exact ⟨x, Table.get_mem hx, Table.get_key hx, he⟩

theorem lockAll_safe {keys : List MatchKey} {next : Matches → MatchProg} (hA : MatchStable locks A)
    (h : ∀ locks', locks ⊆ locks' → ∀ db, MatchSafe (next db) locks' journal A) :
    MatchSafe (lockAll keys next) locks journal A := by
  induction keys generalizing locks with
  | nil => exact Safe.read hA fun s _ _ => h locks (List.Subset.refl _) _
  | cons k keys ih =>
    have hA' : MatchStable (k :: locks) A := hA.mono (List.subset_cons_self _ _)
    refine Safe.lock (fun _ => A) (fun _ hs _ => hs) (fun _ _ => hA') fun _ _ _ => ih hA' ?_
    exact fun locks' hl => h locks' fun x hx => hl (List.mem_cons_of_mem _ hx)

theorem beginOperation_safe : MatchSafe (beginOperation id now) [] [] fun _ => True := by
  refine Safe.lock (fun s => RowIs id ((s.operation? id).map MatchOperation.core))
    (fun _ _ _ => rfl) (fun _ _ => rowIs_stable List.mem_cons_self) fun s _ _ => ?_
  dsimp only [List.foldl_nil]
  cases s.operation? id with
  | none => exact Safe.raise
  | some op =>
    have hwrite (ha : op.status.isActive = true) : MatchSafe (.write (.begin id now)
        (.commit .started)) [.operation id] [] (RowIs id (some op.core)) := by
      refine Safe.write (rowIs_stable List.mem_cons_self) (Safe.commit fun db hdb hok _ => ?_)
      refine begin_ok hok fun op' hm hid => ?_
      rw [(core_fields (hdb.core_eq hok hm hid)).1, ha]
    dsimp only
    split
    · exact Safe.commit fun db _ hok _ => ⟨hok, .refl db⟩
    · exact Safe.raise
    · rename_i hq
      exact hwrite (hq ▸ rfl)
    · rename_i hr
      exact hwrite (hr ▸ rfl)

/-- The end of the second transaction. -/
theorem endOperation_safe (removed : List Nat) (hl : MatchKey.operation id ∈ locks)
    (hrem : removed ⊆ op.seriesIds) (hact : removed = [] ∨ op.action = .accepted)
    (hops : ∀ db : Matches, (journal.foldl Matches.apply db).operations = db.operations)
    (hres : ∀ db : Matches, (journal.foldl Matches.apply db).reservations =
      db.reservations.filter (·.seriesId ∉ removed))
    (happ : ∀ (db : Matches), ∀ x ∈ (journal.foldl Matches.apply db).applied,
      x = id ∨ x ∈ db.applied) :
    MatchSafe (endOperation id now) locks journal (RowIs id (some op.core)) := by
  refine Safe.write (rowIs_stable hl) (Safe.write (rowIs_stable hl) (Safe.commit ?_))
  intro db hdb hok hc
  have hfinds := hc (.succeed id now) (by simp)
  rw [List.append_assoc, List.foldl_append]
  obtain ⟨x, hx, hid, he⟩ := hdb.exists
  obtain ⟨-, hxa, hxs⟩ := core_fields he
  refine succeed_ok hok (fun op' hm hid => (hfinds op' hm hid).imp_right And.left)
    ⟨x, hx, hid, ?_, ?_⟩ (hops db) (hres db) (happ db)
  · refine hact.imp_right fun ha => (hfinds x hx hid).resolve_right fun hr => ?_
    rw [hxa, ha] at hr
    cases hr.2
  · rw [hxs]
    exact hrem

theorem applyOperation_safe {merge : Except SeriesMergeError MergeEffect} :
    MatchSafe (applyOperation id merge now) [] [] fun _ => True := by
  refine Safe.lock (fun s => RowIs id ((s.operation? id).map MatchOperation.core))
    (fun _ _ _ => rfl) (fun _ _ => rowIs_stable List.mem_cons_self) fun s _ _ => ?_
  dsimp only [List.foldl_nil]
  cases s.operation? id with
  | none => exact Safe.raise
  | some op =>
    refine lockAll_safe (rowIs_stable List.mem_cons_self) fun locks hlocks db => ?_
    have hl : MatchKey.operation id ∈ locks := hlocks List.mem_cons_self
    split
    · exact Safe.raise
    refine Safe.write (rowIs_stable hl) ?_
    split
    · exact endOperation_safe [] (List.mem_append_right _ hl) (List.nil_subset _)
        (.inl rfl) (fun _ => rfl) (fun _ => by simp [Matches.apply])
        fun _ x hx => List.mem_cons.mp hx
    · rename_i ha
      split
      · exact Safe.raise
      refine lockAll_safe (rowIs_stable (List.mem_append_right _ hl)) fun locks' hlocks' db' => ?_
      have hl' : MatchKey.operation id ∈ locks' := hlocks' (List.mem_append_right _ hl)
      split
      · exact Safe.raise
      split
      · exact Safe.raise
      · refine Safe.write (rowIs_stable hl') ?_
        refine endOperation_safe _ (List.mem_append_right _ hl') (List.filter_sublist.subset) (.inr ha)
          (fun _ => rfl) (fun _ => rfl) fun _ x hx => ?_
        rcases List.mem_cons.mp hx with rfl | hx
        · exact .inl rfl
        · exact List.mem_cons.mp hx

/-- An operation that was over when it was read is over in the same way. -/
theorem settled_stable : MatchStable locks db.Settled := fun _ _ h _ _ hg _ => h.trans hg

theorem failOperation_safe {e : MatchError} :
    MatchSafe (failOperation id e now) [] [] fun _ => True := by
  intro s _ _
  refine ⟨s.Settled, .refl s, settled_stable, ?_⟩
  dsimp only [List.foldl_nil]
  cases hop : s.operation? id with
  | none => exact Safe.commit fun db _ hok _ => ⟨hok, .refl db⟩
  | some op =>
    have hid : op.id = id := Table.get_key hop
    refine Safe.write settled_stable (Safe.write settled_stable (Safe.commit fun db hdb hok hc => ?_))
    refine fail_ok now [op] e.code e.message hok ?_ ?_ (by rw [← hid]; rfl)
    · intro x hx op' hm hid'
      obtain rfl := List.mem_singleton.mp hx
      exact hc (.fail id x.status e.code e.message now) (by simp) op' hm (hid'.trans hid)
    · intro x hx hf op' hm hid'
      obtain rfl := List.mem_singleton.mp hx
      obtain ⟨y, hy, hyid, -, hys⟩ := hdb x (Table.get_mem hop)
      obtain rfl := hok.keyed.eq hy hm (hyid.trans hid'.symm)
      rw [hys (hf ▸ rfl), hf]

/-- The rows of all operations that are failed were released before. -/
theorem failStranded_safe (now : Time) (ended rest : List MatchOperation) (locks : List MatchKey)
    (hact : ∀ x ∈ ended ++ rest, x.status.isActive = true) :
    MatchSafe (failStranded now rest) locks
      (((ended ++ rest).map fun op => MatchChange.release op.id) ++ ended.map fun op =>
        MatchChange.fail op.id op.status "match_worker_interrupted" strandedMessage now)
      fun _ => True := by
  induction rest generalizing ended locks with
  | nil =>
    rw [List.append_nil] at hact ⊢
    refine Safe.commit fun db _ hok hc => ?_
    refine fail_ok _ _ _ _ hok (fun x hx op' hm hid => ?_) (fun x hx hf => ?_) rfl
    · exact hc (.fail x.id x.status "match_worker_interrupted" strandedMessage now)
        (List.mem_append_right _ (List.mem_map.mpr ⟨x, hx, rfl⟩)) op' hm hid
    · have := hact x hx
      rw [hf] at this
      cases this
  | cons x rest ih =>
    rw [List.append_cons] at hact ⊢
    have hrest := ih (ended ++ [x]) ([.operation x.id] ++ locks) hact
    rw [@List.map_append _ _ _ ended, ← List.append_assoc] at hrest
    exact Safe.write stable_true hrest

theorem reconcileLoop_safe (ended ops : List MatchOperation) (locks : List MatchKey)
    (hact : ∀ x ∈ ended ++ ops, x.status.isActive = true) :
    MatchSafe (reconcileLoop now ended ops) locks
      (ended.map fun op => MatchChange.release op.id) fun _ => True := by
  induction ops generalizing ended locks with
  | nil =>
    rw [List.append_nil] at hact
    have hfail := failStranded_safe now [] ended locks hact
    rw [List.nil_append, List.map_nil, List.append_nil] at hfail
    exact hfail
  | cons op ops ih =>
    refine Safe.read stable_true fun s _ _ => ?_
    split
    · refine ih ended locks fun x hx => hact x ?_
      rcases List.mem_append.mp hx with hx | hx
      · exact List.mem_append_left _ hx
      · exact List.mem_append_right _ (List.mem_cons_of_mem _ hx)
    · rw [List.append_cons] at hact
      have hrest := ih (ended ++ [op]) ([] ++ locks) hact
      rw [List.map_append] at hrest
      exact Safe.write stable_true hrest

theorem reconcileStranded_safe : MatchSafe (reconcileStranded now) [] [] fun _ => True := by
  refine Safe.read stable_true fun s _ _ => ?_
  refine reconcileLoop_safe [] _ [] fun x hx => ?_
  exact (List.mem_filter.mp hx).2

theorem foldl_reserve (ids : List Nat) (db : Matches) :
    (ids.map (MatchChange.reserve id)).foldl Matches.apply db =
      { db with reservations := db.reservations ++ ids.map fun u => ⟨id, u⟩ } := by
  induction ids generalizing db with
  | nil => simp
  | cons u ids ih =>
    rw [List.map_cons, List.foldl_cons, ih]
    simp [Matches.apply]

/-- No row has the id, and the series of `ids` are not reserved. -/
def RoomFor (id : Nat) (ids : List Nat) (db : Matches) : Prop :=
  RowIs id none db ∧ ∀ u ∈ ids, ∀ r ∈ db.reservations, r.seriesId ≠ u

theorem roomFor_stable {ids : List Nat} (hl : MatchKey.operation id ∈ locks)
    (hu : ∀ u ∈ ids, MatchKey.series u ∈ locks) : MatchStable locks (RoomFor id ids) := by
  intro s s' hA _ _ _ hk
  refine ⟨Eq.trans (hk _ hl) hA.1, fun u hm r hr he => ?_⟩
  exact hA.2 u hm r ((hk _ (hu u hm)).2 r hr he) he

/-- The checks of the table hold of each row, and so of all of them when the last one is in. -/
theorem reserveAll_safe {next : MatchProg} (ids done : List Nat)
    (locks : List MatchKey) (hl : MatchKey.operation id ∈ locks)
    (hu : ∀ u ∈ done, MatchKey.series u ∈ locks)
    (hnext : ∀ locks', MatchKey.operation id ∈ locks' →
      (∀ u ∈ done ++ ids, MatchKey.series u ∈ locks') → MatchSafe next locks'
        (.insert op :: (done ++ ids).map (.reserve id)) (RoomFor id (done ++ ids))) :
    MatchSafe (reserveAll id ids next) locks (.insert op :: done.map (.reserve id))
      (RoomFor id done) := by
  induction ids generalizing done locks with
  | nil =>
    rw [List.append_nil] at hnext
    exact hnext locks hl hu
  | cons u ids ih =>
    intro s hs _
    have hview : (MatchChange.insert op :: done.map (.reserve id)).foldl Matches.apply s =
        { s with
          operations := s.operations ++ [op]
          reservations := s.reservations ++ done.map fun u => ⟨id, u⟩ } :=
      foldl_reserve done (s.apply (.insert op))
    show ∃ A', A' s ∧ MatchStable (.series u :: locks) A' ∧ MatchSafe _ _ _ A'
    rw [show List.foldl matchDatabase.apply s _ = _ from hview]
    dsimp only
    split
    · exact ⟨fun _ => True, trivial, stable_true, Safe.raise⟩
    · rename_i hno
      rw [not_or, not_not, Bool.not_eq_true, List.any_eq_false] at hno
      have hl' : MatchKey.operation id ∈ MatchKey.series u :: locks := List.mem_cons_of_mem _ hl
      have hu' : ∀ v ∈ done ++ [u], MatchKey.series v ∈ MatchKey.series u :: locks := by
        intro v hv
        rcases List.mem_append.mp hv with hv | hv
        · exact List.mem_cons_of_mem _ (hu v hv)
        · exact List.mem_singleton.mp hv ▸ List.mem_cons_self
      have hroom : RoomFor id (done ++ [u]) s := by
        refine ⟨hs.1, fun v hv r hr => ?_⟩
        rcases List.mem_append.mp hv with hv | hv
        · exact hs.2 v hv r hr
        · rw [List.mem_singleton.mp hv]
          simpa using hno.1 r (List.mem_append_left _ hr)
      refine ⟨RoomFor id (done ++ [u]), hroom, roomFor_stable hl' hu', ?_⟩
      refine Safe.write (roomFor_stable hl' hu') ?_
      rw [List.append_cons] at hnext
      have hrest := ih (done ++ [u]) ([.series u] ++ .series u :: locks)
        (List.mem_append_right _ hl') (fun v hv => List.mem_append_right _ (hu' v hv)) hnext
      rw [List.map_append] at hrest
      exact hrest

/-- The job of an operation is enqueued: no other column is read. -/
theorem apply_enqueueJob (db : Matches) (id : Nat) (r : MatchRequest) (now : Time) :
    ∃ f : MatchOperation → MatchOperation,
      (db.apply (.enqueueJob id r now)).operations = db.operations.map f ∧
      (∀ op, (f op).id = op.id ∧ (f op).seriesIds = op.seriesIds ∧ (f op).status = op.status) ∧
      (db.apply (.enqueueJob id r now)).reservations = db.reservations ∧
      (db.apply (.enqueueJob id r now)).applied = db.applied := by
  unfold Matches.apply
  dsimp only
  split
  · refine ⟨_, rfl, fun op => ?_, rfl, rfl⟩
    split <;> exact ⟨rfl, rfl, rfl⟩
  · exact ⟨fun op => op, (List.map_id _).symm, fun op => ⟨rfl, rfl, rfl⟩, rfl, rfl⟩

/-- What the transaction commits. -/
theorem enqueued_ok {db' : Matches} {r : MatchRequest} {ids : List Nat} (hok : db.EndsOk)
    (hroom : RoomFor id ids db) (hnew : op.id = id ∧ op.status = .queued ∧ op.seriesIds = ids)
    (hdb : db' = ((MatchChange.insert op :: ids.map (.reserve id)) ++
      [MatchChange.enqueueJob id r now]).foldl Matches.apply db) :
    db'.EndsOk ∧ db.Settled db' := by
  have hid : ∀ x ∈ db.operations, x.id ≠ id := by
    have hnone : db.operation? id = none := Option.map_eq_none_iff.mp hroom.1
    exact Table.get_eq_none.mp hnone
  have hview : (MatchChange.insert op :: ids.map (.reserve id)).foldl Matches.apply db =
      { db with
        operations := db.operations ++ [op]
        reservations := db.reservations ++ ids.map fun u => ⟨id, u⟩ } :=
    foldl_reserve ids (db.apply (.insert op))
  rw [List.foldl_append, hview, List.foldl_cons, List.foldl_nil] at hdb
  have hinsert : _ ∧ _ := @insert_ok db { db with
        operations := db.operations ++ [op]
        reservations := db.reservations ++ ids.map fun u => ⟨id, u⟩ } id op ids hok hid
      hroom.2 hnew rfl rfl rfl
  generalize ({ db with
        operations := db.operations ++ [op]
        reservations := db.reservations ++ ids.map fun u => ⟨id, u⟩ } : Matches) = db₁ at hdb hinsert
  obtain ⟨f, hops, hf, hres, happ⟩ := apply_enqueueJob db₁ id r now
  rw [← hdb] at hops hres happ
  obtain ⟨hok', hset⟩ := jobs_ok hinsert.1 hf hops hres happ
  exact ⟨hok', hinsert.2.trans hset⟩

theorem enqueueOperation_safe {r : MatchRequest} :
    MatchSafe (enqueueOperation r id now) [] [] fun _ => True := by
  refine Safe.read stable_true fun s _ _ => ?_
  dsimp only [List.foldl_nil]
  split
  · exact Safe.commit fun db _ hok _ => ⟨hok, .refl db⟩
  refine Safe.read stable_true fun s _ _ => ?_
  split
  · exact Safe.raise
  refine Safe.lock (fun s => RowIs id ((s.operation? id).map MatchOperation.core))
    (fun _ _ _ => rfl) (fun _ _ => rowIs_stable List.mem_cons_self) fun s _ _ => ?_
  dsimp only [List.foldl_nil]
  split
  · exact Safe.raise
  · rename_i hnone
    rw [hnone]
    refine Safe.write (rowIs_stable List.mem_cons_self) ?_
    refine Safe.of_imp (reserveAll_safe _ [] _ (by simp [matchDatabase, MatchChange.keys])
      (fun _ hu => (by cases hu)) fun locks hl hu => ?_) fun db hdb => ⟨hdb, fun _ hu => (by cases hu)⟩
    refine Safe.read (roomFor_stable hl hu) fun s _ _ => ?_
    split
    · exact Safe.raise
    · refine Safe.write (roomFor_stable hl hu) (Safe.commit fun db hdb hok _ => ?_)
      exact enqueued_ok hok hdb ⟨rfl, rfl, rfl⟩ rfl

theorem thread_safe (c : MatchCall) :
    SafeThread matchDatabase Matches.EndsOk Matches.Settled FindsOpen c.thread := by
  cases c with
  | execute x =>
    refine ⟨beginOperation_safe, fun r => ?_⟩
    beta_reduce
    split
    · refine ⟨applyOperation_safe, fun r => ?_⟩
      beta_reduce
      split
      · exact ⟨failOperation_safe, fun _ => trivial⟩
      · exact ⟨failOperation_safe, fun _ => trivial⟩
      · trivial
    · trivial
  | reconcile now => exact ⟨reconcileStranded_safe, fun _ => trivial⟩
  | enqueue r id now => exact ⟨enqueueOperation_safe, fun _ => trivial⟩
  | call op now =>
    refine ⟨Safe.write stable_true (Safe.commit fun db _ hok _ => ?_), fun _ => trivial⟩
    exact jobs_ok hok (f := fun op => op) (fun _ => ⟨rfl, rfl, rfl⟩) (List.map_id _).symm rfl rfl
  | prune jobIds =>
    refine ⟨Safe.write stable_true (Safe.commit fun db _ hok _ => ?_), fun _ => trivial⟩
    refine jobs_ok hok (fun op => ?_) rfl rfl rfl
    split <;> exact ⟨rfl, rfl, rfl⟩

/-- The reservations are those of the operations that are queued or running, and no two of these
share a series. -/
structure Matches.Exclusive (db : Matches) : Prop where
  keyed : Table.Keyed MatchOperation.id db.operations
  exact : ∀ operationId seriesId, (⟨operationId, seriesId⟩ : MatchOperationSeries) ∈ db.reservations ↔
    ∃ op ∈ db.operations, op.status.isActive = true ∧ op.id = operationId ∧ seriesId ∈ op.seriesIds
  disjoint : ∀ a ∈ db.operations, ∀ b ∈ db.operations, a.status.isActive = true →
    b.status.isActive = true → ∀ u ∈ a.seriesIds, u ∈ b.seriesIds → a = b

theorem Matches.EndsOk.exclusive (h : db.EndsOk) : db.Exclusive := by
  refine ⟨h.keyed, fun operationId seriesId => h.exact _, fun a ha b hb haa hba u hua hub => ?_⟩
  have hrow : ∀ x ∈ db.operations, x.status.isActive = true → u ∈ x.seriesIds →
      (⟨x.id, u⟩ : MatchOperationSeries) ∈ db.reservations := fun x hx hxa hxu =>
    (h.exact _).mpr ⟨x, hx, hxa, rfl, hxu⟩
  have hab := h.unique _ (hrow a ha haa hua) _ (hrow b hb hba hub) rfl
  exact h.keyed.eq ha hb (congrArg MatchOperationSeries.operationId hab)

end

/-! ## Two executions of one operation -/

instance (db : Matches) (w : MatchChange) : Decidable (w.FindsOpen db) := by
  cases w <;> unfold MatchChange.FindsOpen <;> infer_instance

instance (db : Matches) (journal : List MatchChange) : Decidable (FindsOpen db journal) :=
  inferInstanceAs (Decidable (∀ w ∈ journal, w.FindsOpen db))

/-- Two series, and a pending decision about them. -/
def twoSeries : Matches := { series := [1, 2], decisions := [{ id := 5 }] }

/-- The operation that merges the second series into the first, and an execution of it. -/
def mergeRequest : MatchRequest :=
  { action := .accepted, representativeId := 5, decisionIds := [5], proposalIds := [],
    seriesIds := [1, 2] }

def mergeExecution (t : Time) : Execution :=
  { operationId := 7, merge := .ok { target := 1 }, rolledBack := .other "OperationalError" "",
    begunAt := t, appliedAt := t + 1, failedAt := t + 2 }

/-- A session starts `call` and takes `n` statements. -/
def runCall (session : Nat) (call : MatchCall) (n : Nat) : List (Move MatchCall) :=
  .start session call :: List.replicate n (.advance session)

/-- The operation is enqueued, and one execution of it succeeds. -/
def mergedOnce : List (Move MatchCall) :=
  runCall 1 (.enqueue mergeRequest 7 10) 11 ++ runCall 2 (.execute (mergeExecution 20)) 14

/-- The lease of the job expires, and a second execution passes its first transaction before the
first one commits the merge. -/
def mergedTwice : List (Move MatchCall) :=
  runCall 1 (.enqueue mergeRequest 7 10) 11 ++ runCall 2 (.execute (mergeExecution 20)) 3 ++
    runCall 3 (.execute (mergeExecution 500)) 3 ++ List.replicate 11 (.advance 2) ++
    List.replicate 8 (.advance 3)

end MangaManager
