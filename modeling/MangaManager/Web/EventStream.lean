import MangaManager.Lib.Cursor
import MangaManager.Lib.Run
import MangaManager.Queue.Rows

/-!
# The stream of job events

`GET /events`: a client reads the rows of `job_event` in pages of a hundred from a
cursor, the id of the last row it was sent. A row takes its id when it is inserted
and is seen when its transaction commits. `EventStream` holds both sides, and
`StreamEvent` is one move of a transaction, of the connection or of a poll.

`stream_delivers_iff`: along a run the client is sent every event that commits after
it connected, exactly once and in the order of the ids, exactly when no event commits
behind the cursor of the stream and no client reconnects ahead of one.
-/

namespace MangaManager

open Lib

/-- A row of `job_event` with the columns the stream reads. -/
structure JobEventRow extends JobEvent where
  id : Nat
  message : String
  createdAt : Time
  deriving DecidableEq

/-- The data of one event, without the match operation the page may add to it. -/
structure EventPayload where
  eventId : Nat
  jobId : Nat
  kind : String
  state : JobState
  type : EventType
  message : String
  timestamp : Time
  deriving DecidableEq

/-- What `stream` yields. -/
inductive Frame where
  | job (payload : EventPayload)
  | counts (byStatus : List (JobState × Nat))
  | heartbeat
  deriving DecidableEq

def Frame.payload? : Frame → Option EventPayload
  | job payload => some payload
  | _ => none

/-- A browser that reads the stream. `found` are the events that were there when it first
connected. -/
structure EventClient where
  after : Nat
  lastEventId : Option String
  cursor : Option Nat
  delivered : List EventPayload := []
  found : List Nat
  deriving DecidableEq

/-- The rows of the events, by transaction while it is open, the jobs, and the client. -/
structure EventStream where
  nextEvent : Nat := 1
  pending : List (Nat × JobEventRow) := []
  events : List JobEventRow := []
  jobs : List WorkJob := []
  client : Option EventClient := none
  deriving DecidableEq

/-- `event_resume_cursor`. -/
def eventResumeCursor (after : Nat) (lastEventId : Option String) (maximumEventId : Option Nat) :
    Nat :=
  let header := lastEventId.getD ""
  let cursor := match if header = "" then some 0 else parseInt header with
    | some n => max after n.toNat
    | none => after
  match maximumEventId with
  | some maximum => min cursor maximum
  | none => cursor

namespace EventStream

variable (s : EventStream)

def payload (e : JobEventRow) : EventPayload :=
  { eventId := e.id, jobId := e.jobId
    kind := ((s.jobs.find? (·.id == e.jobId)).map (·.kind.value)).getD ""
    state := e.status, type := e.eventType, message := e.message, timestamp := e.createdAt }

def countsByStatus : List (JobState × Nat) :=
  (s.jobs.map (·.status)).eraseDups.map fun st => (st, s.jobs.countP (·.status == st))

/-- The rows of `load_event_batch`. -/
def eventBatch (cursor : Nat) : List JobEventRow :=
  (Cursor.ahead JobEventRow.id s.events cursor).take 100

/-- `load_event_batch`. -/
def loadEventBatch (cursor : Nat) : List EventPayload × List (JobState × Nat) :=
  let rows := s.eventBatch cursor
  (rows.map s.payload, if rows.isEmpty then [] else s.countsByStatus)

/-- What one round of `stream` yields. -/
def frames (cursor : Nat) : List Frame :=
  let (payloads, counts) := s.loadEventBatch cursor
  payloads.map .job ++ [if payloads.isEmpty then .heartbeat else .counts counts]

def maximumEventId : Nat := (s.events.map (·.id)).max?.getD 0

end EventStream

namespace EventClient

variable (c : EventClient)

/-- The browser dispatches the events and keeps the id of the last one for its next request. -/
def receive (payloads : List EventPayload) : EventClient :=
  { c with
    delivered := c.delivered ++ payloads
    lastEventId := match payloads.getLast? with
      | some p => some (toString p.eventId)
      | none => c.lastEventId }

/-- A reload of the page asks for what follows the last event it was sent. -/
def reload : EventClient :=
  { c with
    after := match c.delivered.getLast? with
      | some p => max c.after p.eventId
      | none => c.after
    lastEventId := none }

/-- The request of the client, which a reload of the page writes anew. -/
def request (reload : Bool) : EventClient := if reload then c.reload else c

/-- The cursor the client asks for. -/
def asked : Nat := eventResumeCursor c.after c.lastEventId none

/-- A round of the stream of which the client receives that many frames; the connection breaks
when some are lost. -/
def poll (s : EventStream) (received : Nat) : EventClient :=
  match c.cursor with
  | none => c
  | some cursor =>
    let frames := s.frames cursor
    { c.receive ((frames.take received).filterMap Frame.payload?) with
      cursor := if received < frames.length then none
        else some (Cursor.next JobEventRow.id cursor (s.eventBatch cursor)) }

/-- A request to `/events`. -/
def connect (s : EventStream) : EventClient :=
  { c with cursor := some (eventResumeCursor c.after c.lastEventId (some s.maximumEventId)) }

end EventClient

inductive StreamEvent where
  | insert (tx : Nat) (event : JobEvent) (message : String) (createdAt : Time)
  | commit (tx : Nat) (jobs : List WorkJob)
  | rollback (tx : Nat)
  | connect (after : Nat) (lastEventId : Option String)
  | poll (received : Nat)
  | disconnect
  | reconnect (reload : Bool)

/-- The effect of a move; one that does not apply changes nothing. -/
def StreamEvent.apply (move : StreamEvent) (s : EventStream) : EventStream :=
  match move with
  | insert tx event message createdAt =>
    { s with
      nextEvent := s.nextEvent + 1
      pending := s.pending ++
        [(tx, { event with
          id := s.nextEvent, message := truncate 4000 message, createdAt := createdAt })] }
  | commit tx jobs =>
    { s with
      events := s.events ++ (s.pending.filter (·.1 == tx)).map Prod.snd
      pending := s.pending.filter (·.1 != tx), jobs := jobs }
  | rollback tx => { s with pending := s.pending.filter (·.1 != tx) }
  | connect after lastEventId =>
    match s.client with
    | some _ => s
    | none =>
      let c : EventClient :=
        { after := after, lastEventId := lastEventId, cursor := none
          found := s.events.map JobEventRow.id }
      { s with client := some (c.connect s) }
  | poll received => { s with client := s.client.map fun c => c.poll s received }
  | disconnect => { s with client := s.client.map fun c => { c with cursor := none } }
  | reconnect reload =>
    { s with
      client := s.client.map fun c =>
        if c.cursor = none then (c.request reload).connect s else c }

/-- One move of the stream. -/
def StreamStep (s : EventStream) (move : StreamEvent) (s' : EventStream) : Prop :=
  s' = move.apply s

/-- A run from the start of the database. -/
abbrev StreamRun := Run StreamStep {}

/-- The stream after `n` rounds the client receives in full. -/
def EventStream.polled (s : EventStream) (n : Nat) : EventStream :=
  (StreamEvent.apply (.poll 101))^[n] s

/-- The event was sent to the client. -/
def EventClient.Has (c : EventClient) (e : JobEventRow) : Prop :=
  ∃ p ∈ c.delivered, p.eventId = e.id

/-- The ids the client was sent increase, and as long as it reads the stream, it is sent every
event that committed since it first connected. -/
def EventStream.Delivers (s : EventStream) : Prop :=
  ∀ c, s.client = some c → c.delivered.Pairwise (fun p q => p.eventId < q.eventId) ∧
    (c.cursor ≠ none → ∀ e ∈ s.events, e.id ∉ c.found →
      ∃ n, ∃ c', (s.polled n).client = some c' ∧ c'.Has e)

/-- No event commits at or behind the cursor of the stream, and no client asks for a cursor at or
ahead of an event it was not sent. -/
def StreamEvent.InOrder (move : StreamEvent) (s : EventStream) : Prop :=
  match move with
  | commit tx _ => ∀ c, s.client = some c → ∀ cursor, c.cursor = some cursor →
      ∀ row ∈ s.pending, row.1 = tx → cursor < row.2.id
  | reconnect reload => ∀ c, s.client = some c → c.cursor = none →
      ∀ e ∈ s.events, e.id ∉ c.found → ¬ c.Has e → (c.request reload).asked < e.id
  | _ => True

/-! ## Resuming -/

theorem eventResumeCursor_some (after : Nat) (lastEventId : Option String) (m : Nat) :
    eventResumeCursor after lastEventId (some m) =
      min (eventResumeCursor after lastEventId none) m := rfl

theorem le_eventResumeCursor (after : Nat) (lastEventId : Option String) :
    after ≤ eventResumeCursor after lastEventId none := by
  unfold eventResumeCursor
  dsimp only
  split
  · exact le_max_left _ _
  · exact le_rfl

/-- The last event id is a lower bound of the cursor. -/
theorem le_eventResumeCursor_header (after id : Nat) :
    id ≤ eventResumeCursor after (some (toString id)) none := by
  have hne : toString id ≠ "" := by
    intro h
    have hl := congrArg String.toList h
    rw [Nat.toString_eq_repr, Nat.toList_repr] at hl
    exact Nat.toDigits_ne_nil hl
  simp only [eventResumeCursor, Option.getD_some, if_neg hne, parseInt_toString]
  exact le_max_right _ _

/-! ## The client -/

theorem EventClient.has_iff {c : EventClient} {e : JobEventRow} :
    c.Has e ↔ e.id ∈ c.delivered.map EventPayload.eventId := by
  simp [EventClient.Has]

/-- What holds of a client in every run: it was sent committed events in order, and neither the
stream nor its next request goes back behind one. -/
structure EventClient.Ok (c : EventClient) (events : List JobEventRow) : Prop where
  sorted : c.delivered.Pairwise fun p q => p.eventId < q.eventId
  known : ∀ p ∈ c.delivered, ∃ e ∈ events, e.id = p.eventId
  asked : ∀ p ∈ c.delivered, p.eventId ≤ c.asked
  cursor : ∀ cursor, c.cursor = some cursor → ∀ p ∈ c.delivered, p.eventId ≤ cursor
  found : ∀ id ∈ c.found, ∃ e ∈ events, e.id = id

section
variable {s : EventStream} {c : EventClient} {events events' : List JobEventRow} {cursor : Nat}
  {received : Nat}

theorem EventClient.Ok.mono (h : c.Ok events) (hsub : events ⊆ events') : c.Ok events' := by
  refine ⟨h.sorted, fun p hp => ?_, h.asked, h.cursor, fun id hid => ?_⟩
  · obtain ⟨e, he, hid⟩ := h.known p hp
    exact ⟨e, hsub he, hid⟩
  · obtain ⟨e, he, hid⟩ := h.found id hid
    exact ⟨e, hsub he, hid⟩

/-- The last event is the greatest one. -/
theorem EventClient.Ok.le_last (h : c.Ok events) {p last : EventPayload} (hp : p ∈ c.delivered)
    (hlast : c.delivered.getLast? = some last) : p.eventId ≤ last.eventId := by
  have hle := Cursor.le_next EventPayload.eventId 0 h.sorted hp
  rwa [Cursor.next, hlast] at hle

theorem EventClient.Ok.request (h : c.Ok events) (reload : Bool) :
    ∀ p ∈ c.delivered, p.eventId ≤ (c.request reload).asked := by
  intro p hp
  cases reload with
  | false => exact h.asked p hp
  | true =>
    cases hl : c.delivered.getLast? with
    | none =>
      rw [List.getLast?_eq_none_iff.mp hl] at hp
      cases hp
    | some last =>
      have hafter := le_eventResumeCursor (c.request true).after (c.request true).lastEventId
      have hlast : last.eventId ≤ (c.request true).after := by
        simp only [EventClient.request, EventClient.reload, hl, if_true]
        exact le_max_right _ _
      exact ((h.le_last hp hl).trans hlast).trans hafter

theorem EventStream.le_maximumEventId {e : JobEventRow} (he : e ∈ s.events) :
    e.id ≤ s.maximumEventId := by
  have hmem : e.id ∈ s.events.map (·.id) := List.mem_map_of_mem he
  unfold EventStream.maximumEventId
  cases hm : (s.events.map (·.id)).max? with
  | none =>
    rw [List.max?_eq_none_iff.mp hm] at hmem
    cases hmem
  | some m => exact (List.max?_eq_some_iff.mp hm).2 _ hmem

/-- The clamp to the greatest id keeps the cursor on the same side of every event. -/
theorem EventClient.connect_lt_iff {e : JobEventRow} (he : e ∈ s.events) :
    min c.asked s.maximumEventId < e.id ↔ c.asked < e.id := by
  have hle := EventStream.le_maximumEventId he
  omega

theorem EventClient.Ok.connect (h : c.Ok s.events) (reload : Bool) :
    ((c.request reload).connect s).Ok s.events := by
  have hd : (c.request reload).delivered = c.delivered := by cases reload <;> rfl
  have hf : (c.request reload).found = c.found := by cases reload <;> rfl
  refine ⟨?_, ?_, ?_, ?_, ?_⟩
  · simpa only [EventClient.connect, hd] using h.sorted
  · simpa only [EventClient.connect, hd] using h.known
  · simp only [EventClient.connect, hd]
    exact h.request reload
  · simp only [EventClient.connect, hd, Option.some.injEq]
    rintro cursor rfl p hp
    obtain ⟨e, he, hid⟩ := h.known p hp
    have hle := EventStream.le_maximumEventId he
    have hask := h.request reload p hp
    rw [eventResumeCursor_some]
    exact le_min hask (hid ▸ hle)
  · simpa only [EventClient.connect, hf] using h.found

/-! ## A round of the stream -/

theorem EventStream.frames_take (s : EventStream) (cursor received : Nat) :
    ((s.frames cursor).take received).filterMap Frame.payload? =
      ((s.eventBatch cursor).take received).map s.payload := by
  have hjob : ∀ l : List EventPayload, (l.map Frame.job).filterMap Frame.payload? = l := by
    intro l
    induction l with
    | nil => rfl
    | cons p l ih => simp [Frame.payload?, ih]
  have hlast : ∀ (f : Frame) (n : Nat), f.payload? = none →
      ([f].take n).filterMap Frame.payload? = [] := by
    intro f n hf
    cases n <;> simp [hf]
  unfold EventStream.frames EventStream.loadEventBatch
  dsimp only
  rw [List.take_append, List.filterMap_append, ← List.map_take, hjob, hlast, List.append_nil,
    List.map_take]
  split <;> rfl

theorem EventStream.frames_length (s : EventStream) (cursor : Nat) :
    (s.frames cursor).length = (s.eventBatch cursor).length + 1 := by
  simp [EventStream.frames, EventStream.loadEventBatch]

theorem EventStream.mem_eventBatch {e : JobEventRow} (h : e ∈ s.eventBatch cursor) :
    e ∈ s.events ∧ cursor < e.id := Cursor.mem_ahead.mp (List.mem_of_mem_take h)

theorem EventStream.eventBatch_sorted (s : EventStream) (cursor : Nat) (hk : (s.events.map JobEventRow.id).Nodup) :
    (s.eventBatch cursor).Pairwise fun e f => e.id < f.id :=
  (Cursor.ahead_sorted hk).sublist (List.take_sublist _ _)

/-- What a client receives in a round. -/
theorem EventClient.poll_eq (s : EventStream) (received : Nat) (hc : c.cursor = some cursor) : c.poll s received =
    { c.receive (((s.eventBatch cursor).take received).map s.payload) with
      cursor := if received < (s.eventBatch cursor).length + 1 then none
        else some (Cursor.next JobEventRow.id cursor (s.eventBatch cursor)) } := by
  simp only [EventClient.poll, hc, s.frames_take, s.frames_length]

theorem EventClient.Ok.poll (h : c.Ok s.events) (hk : (s.events.map JobEventRow.id).Nodup) :
    (c.poll s received).Ok s.events := by
  cases hc : c.cursor with
  | none => simpa only [EventClient.poll, hc] using h
  | some cursor =>
    rw [EventClient.poll_eq s received hc]
    have hbatch := s.eventBatch_sorted cursor hk
    have hgot := hbatch.sublist (List.take_sublist received _)
    have hsorted : (c.delivered ++ ((s.eventBatch cursor).take received).map s.payload).Pairwise
        fun p q => p.eventId < q.eventId := by
      refine List.pairwise_append.mpr ⟨h.sorted, List.pairwise_map.mpr hgot, ?_⟩
      intro p hp q hq
      obtain ⟨e, he, rfl⟩ := List.mem_map.mp hq
      have hlt := (EventStream.mem_eventBatch (List.mem_of_mem_take he)).2
      exact (h.cursor cursor hc p hp).trans_lt hlt
    have hknown : ∀ p ∈ c.delivered ++ ((s.eventBatch cursor).take received).map s.payload,
        ∃ e ∈ s.events, e.id = p.eventId := by
      intro p hp
      rcases List.mem_append.mp hp with hp | hp
      · exact h.known p hp
      · obtain ⟨e, he, rfl⟩ := List.mem_map.mp hp
        exact ⟨e, (EventStream.mem_eventBatch (List.mem_of_mem_take he)).1, rfl⟩
    refine ⟨hsorted, hknown, ?_, ?_, h.found⟩
    · intro p hp
      cases hl : (((s.eventBatch cursor).take received).map s.payload).getLast? with
      | none =>
        rw [List.getLast?_eq_none_iff.mp hl] at hp
        simp only [EventClient.asked, EventClient.receive, hl]
        exact h.asked p (by simpa [EventClient.receive, List.getLast?_eq_none_iff.mp hl] using hp)
      | some last =>
        simp only [EventClient.asked, EventClient.receive, hl]
        refine le_trans ?_ (le_eventResumeCursor_header _ _)
        have hle := Cursor.le_next EventPayload.eventId 0 hsorted hp
        rwa [Cursor.next, List.getLast?_append, hl] at hle
    · intro k hk p hp
      dsimp only at hk
      split at hk
      · cases hk
      · rename_i hlen
        obtain rfl := Option.some.inj hk
        rcases List.mem_append.mp hp with hp | hp
        · refine (h.cursor cursor hc p hp).trans (Cursor.cursor_le_next fun e he => ?_)
          exact (EventStream.mem_eventBatch he).2
        · obtain ⟨e, he, rfl⟩ := List.mem_map.mp hp
          exact Cursor.le_next _ _ hbatch (List.mem_of_mem_take he)

end

/-! ## The tables -/

namespace EventStream

/-- The rows inserted so far, in open transactions too, have distinct ids of the sequence. -/
structure WellFormed (s : EventStream) : Prop where
  keyed : ((s.events ++ s.pending.map Prod.snd).map JobEventRow.id).Nodup
  below : ∀ e ∈ s.events ++ s.pending.map Prod.snd, e.id < s.nextEvent
  client : ∀ c, s.client = some c → c.Ok s.events

variable {s : EventStream} {move : StreamEvent} {tx : Nat}

theorem WellFormed.events (h : s.WellFormed) : (s.events.map JobEventRow.id).Nodup :=
  h.keyed.sublist ((List.sublist_append_left _ _).map _)

/-- A commit moves the rows of the transaction. -/
theorem commit_perm (s : EventStream) (tx : Nat) :
    ((s.events ++ (s.pending.filter (·.1 == tx)).map Prod.snd) ++
      (s.pending.filter (·.1 != tx)).map Prod.snd).Perm (s.events ++ s.pending.map Prod.snd) := by
  rw [List.append_assoc, ← List.map_append]
  exact ((List.filter_append_perm (·.1 == tx) s.pending).map Prod.snd).append_left s.events

/-- A row that commits is none of the events. -/
theorem WellFormed.fresh (h : s.WellFormed) {row : Nat × JobEventRow} (hrow : row ∈ s.pending)
    {e : JobEventRow} (he : e ∈ s.events) : e.id ≠ row.2.id := by
  have hn := h.keyed
  rw [List.map_append] at hn
  have hdis := List.disjoint_of_nodup_append hn
  intro heq
  exact hdis (List.mem_map_of_mem he)
    (heq ▸ List.mem_map_of_mem (List.mem_map_of_mem hrow))

theorem WellFormed.apply (h : s.WellFormed) (move : StreamEvent) : (move.apply s).WellFormed := by
  cases move with
  | insert tx event message createdAt =>
    have hlist : ∀ e : JobEventRow, s.events ++ (s.pending ++ [(tx, e)]).map Prod.snd =
        (s.events ++ s.pending.map Prod.snd) ++ [e] := by
      intro e
      simp
    refine ⟨?_, ?_, h.client⟩
    · simp only [StreamEvent.apply, hlist]
      rw [List.map_append, List.nodup_append]
      refine ⟨h.keyed, by simp, ?_⟩
      rintro id hid id' hid' rfl
      obtain ⟨e, he, rfl⟩ := List.mem_map.mp hid
      have hlt := h.below e he
      simp only [List.map_cons, List.map_nil, List.mem_singleton] at hid'
      omega
    · simp only [StreamEvent.apply, hlist]
      intro e he
      rcases List.mem_append.mp he with he | he
      · exact (h.below e he).trans (Nat.lt_succ_self _)
      · rw [List.mem_singleton.mp he]
        exact Nat.lt_succ_self _
  | commit tx jobs =>
    refine ⟨?_, ?_, ?_⟩
    · exact (((commit_perm s tx).map JobEventRow.id).nodup_iff).mpr h.keyed
    · exact fun e he => h.below e ((commit_perm s tx).mem_iff.mp he)
    · exact fun c hc => (h.client c hc).mono (List.subset_append_left _ _)
  | rollback tx =>
    have hsub : (s.events ++ (s.pending.filter (·.1 != tx)).map Prod.snd).Sublist
        (s.events ++ s.pending.map Prod.snd) :=
      (List.filter_sublist.map Prod.snd).append_left s.events
    exact ⟨h.keyed.sublist (hsub.map _), fun e he => h.below e (hsub.mem he), h.client⟩
  | connect after lastEventId =>
    cases hc : s.client with
    | some c => simpa only [StreamEvent.apply, hc] using h
    | none =>
      refine ⟨by simpa only [StreamEvent.apply, hc] using h.keyed,
        by simpa only [StreamEvent.apply, hc] using h.below, ?_⟩
      simp only [StreamEvent.apply, hc, Option.some.injEq]
      rintro c rfl
      refine ⟨.nil, fun p hp => (by cases hp), fun p hp => (by cases hp),
        fun _ _ p hp => (by cases hp), fun id hid => ?_⟩
      obtain ⟨e, he, rfl⟩ := List.mem_map.mp hid
      exact ⟨e, he, rfl⟩
  | poll received =>
    refine ⟨h.keyed, h.below, ?_⟩
    simp only [StreamEvent.apply, Option.map_eq_some_iff]
    rintro c ⟨c, hc, rfl⟩
    exact (h.client c hc).poll h.events
  | disconnect =>
    refine ⟨h.keyed, h.below, ?_⟩
    simp only [StreamEvent.apply, Option.map_eq_some_iff]
    rintro c ⟨c, hc, rfl⟩
    have hok := h.client c hc
    exact ⟨hok.sorted, hok.known, hok.asked, fun _ hk => (by cases hk), hok.found⟩
  | reconnect reload =>
    refine ⟨h.keyed, h.below, ?_⟩
    simp only [StreamEvent.apply, Option.map_eq_some_iff]
    rintro c ⟨c, hc, rfl⟩
    split
    · exact (h.client c hc).connect reload
    · exact h.client c hc

/-! ## What is behind the cursor -/

/-- Every event that committed since the client first connected was sent to it or lies ahead of
the cursor of its stream. -/
def NoneSkipped (s : EventStream) : Prop :=
  ∀ c, s.client = some c → ∀ cursor, c.cursor = some cursor →
    ∀ e ∈ s.events, e.id ∉ c.found → c.Has e ∨ cursor < e.id

/-- The ids a client was sent after `n` more rounds. -/
theorem polled_client (hk : (s.events.map JobEventRow.id).Nodup) (n : Nat) {c : EventClient}
    {cursor : Nat} (hc : s.client = some c) (hcur : c.cursor = some cursor) :
    ∃ c', (s.polled n).client = some c' ∧ c'.delivered.map EventPayload.eventId =
      c.delivered.map EventPayload.eventId ++
        (Cursor.readPages JobEventRow.id s.events 100 n cursor).map JobEventRow.id := by
  induction n generalizing s c cursor with
  | zero => exact ⟨c, hc, by simp [Cursor.readPages]⟩
  | succ n ih =>
    have hlen : ¬ 101 < (s.eventBatch cursor).length + 1 := by
      have hle : (s.eventBatch cursor).length ≤ 100 := List.length_take_le _ _
      omega
    have htake : (s.eventBatch cursor).take 101 = s.eventBatch cursor :=
      List.take_of_length_le (by omega)
    have hpoll : ((StreamEvent.poll 101).apply s).client = some (c.poll s 101) := by
      simp only [StreamEvent.apply, hc, Option.map_some]
    have hpolled : s.polled (n + 1) = ((StreamEvent.poll 101).apply s).polled n :=
      Function.iterate_succ_apply _ _ _
    have heq := EventClient.poll_eq s 101 hcur
    rw [if_neg hlen, htake] at heq
    obtain ⟨c', hc', hids⟩ := ih (s := (StreamEvent.poll 101).apply s) hk hpoll (by rw [heq])
    refine ⟨c', hpolled ▸ hc', ?_⟩
    rw [hids, heq]
    simp only [EventClient.receive, List.map_append, List.map_map, Cursor.readPages,
      List.append_assoc]
    rfl

/-- The client is sent everything exactly when nothing is behind its cursor. -/
theorem delivers_iff (h : s.WellFormed) : s.Delivers ↔ s.NoneSkipped := by
  constructor
  · intro hd c hc cursor hcur e he hf
    obtain ⟨n, c', hc', hhas⟩ := (hd c hc).2 (by rw [hcur]; simp) e he hf
    obtain ⟨c₁, hc₁, hids⟩ := polled_client h.events n hc hcur
    obtain rfl := Option.some.inj (hc'.symm.trans hc₁)
    rw [EventClient.has_iff, hids, List.mem_append] at hhas
    refine hhas.imp EventClient.has_iff.mpr fun hread => ?_
    obtain ⟨r, hr, hid⟩ := List.mem_map.mp hread
    rw [Cursor.readPages_eq h.events] at hr
    exact hid ▸ (Cursor.mem_ahead.mp (List.mem_of_mem_take hr)).2
  · intro hn c hc
    refine ⟨(h.client c hc).sorted, fun hcur e he hf => ?_⟩
    obtain ⟨cursor, hcur⟩ := Option.ne_none_iff_exists'.mp hcur
    let n := (Cursor.ahead JobEventRow.id s.events cursor).length
    obtain ⟨c', hc', hids⟩ := polled_client h.events n hc hcur
    refine ⟨n, c', hc', ?_⟩
    rw [EventClient.has_iff, hids, List.mem_append,
      Cursor.readPages_complete h.events (by decide) le_rfl]
    refine (hn c hc cursor hcur e he hf).imp EventClient.has_iff.mp fun hlt => ?_
    exact List.mem_map_of_mem (Cursor.mem_ahead.mpr ⟨he, hlt⟩)

/-- A move leaves nothing behind the cursor exactly when it is in order. -/
theorem noneSkipped_apply_iff (h : s.WellFormed) (hn : s.NoneSkipped) :
    (move.apply s).NoneSkipped ↔ move.InOrder s := by
  cases move with
  | insert tx event message createdAt => exact iff_of_true hn trivial
  | rollback tx => exact iff_of_true hn trivial
  | commit tx jobs =>
    constructor
    · intro hn' c hc cursor hcur row hrow htx
      have hmem : row.2 ∈ ((StreamEvent.commit tx jobs).apply s).events := by
        refine List.mem_append_right _ (List.mem_map_of_mem (List.mem_filter.mpr ⟨hrow, ?_⟩))
        rw [htx, beq_self_eq_true]
      have hfound : row.2.id ∉ c.found := fun hid => by
        obtain ⟨e, he, hid⟩ := (h.client c hc).found _ hid
        exact h.fresh hrow he hid
      refine (hn' c hc cursor hcur row.2 hmem hfound).resolve_left ?_
      rintro ⟨p, hp, hid⟩
      obtain ⟨e, he, hide⟩ := (h.client c hc).known p hp
      exact h.fresh hrow he (hide.trans hid)
    · intro hord c hc cursor hcur e he hf
      rcases List.mem_append.mp he with he | he
      · exact hn c hc cursor hcur e he hf
      · obtain ⟨row, hrow, rfl⟩ := List.mem_map.mp he
        obtain ⟨hrow, htx⟩ := List.mem_filter.mp hrow
        exact .inr (hord c hc cursor hcur row hrow (beq_iff_eq.mp htx))
  | connect after lastEventId =>
    refine iff_of_true ?_ trivial
    cases hc : s.client with
    | some c => simpa only [StreamEvent.apply, hc] using hn
    | none =>
      simp only [StreamEvent.apply, hc, NoneSkipped, Option.some.injEq]
      rintro c rfl cursor - e he hf
      exact absurd (List.mem_map_of_mem he) hf
  | poll received =>
    refine iff_of_true ?_ trivial
    simp only [StreamEvent.apply, NoneSkipped, Option.map_eq_some_iff]
    rintro c ⟨c, hc, rfl⟩ next hnext e he hf
    cases hcur : c.cursor with
    | none =>
      simp only [EventClient.poll, hcur] at hnext
      cases hnext
    | some cursor =>
      rw [EventClient.poll_eq _ _ hcur] at hnext hf ⊢
      dsimp only at hnext
      split at hnext
      · cases hnext
      · rename_i hlen
        obtain rfl := Option.some.inj hnext
        rw [List.take_of_length_le (by omega), EventClient.has_iff]
        simp only [EventClient.receive, List.map_append, List.mem_append, List.map_map]
        rcases hn c hc cursor hcur e he hf with hhas | hlt
        · exact .inl (.inl (EventClient.has_iff.mp hhas))
        · -- the event is in the batch or after it
          have hahead := Cursor.mem_ahead.mpr ⟨he, hlt⟩
          rw [← List.take_append_drop 100 (Cursor.ahead JobEventRow.id s.events cursor),
            ← Cursor.ahead_next h.events] at hahead
          rcases List.mem_append.mp hahead with hbatch | hrest
          · exact .inl (.inr (List.mem_map_of_mem hbatch))
          · exact .inr (Cursor.mem_ahead.mp hrest).2
  | disconnect =>
    refine iff_of_true ?_ trivial
    simp only [StreamEvent.apply, NoneSkipped, Option.map_eq_some_iff]
    rintro c ⟨c, hc, rfl⟩ cursor hcur
    cases hcur
  | reconnect reload =>
    have hask : ∀ c : EventClient, ((c.request reload).connect s).cursor =
        some (min (c.request reload).asked s.maximumEventId) := fun _ => rfl
    have hsame : ∀ c : EventClient, ((c.request reload).connect s).found = c.found ∧
        ∀ e, ((c.request reload).connect s).Has e ↔ c.Has e := by
      intro c
      cases reload <;> exact ⟨rfl, fun _ => Iff.rfl⟩
    simp only [StreamEvent.apply, NoneSkipped, StreamEvent.InOrder, Option.map_eq_some_iff]
    constructor
    · intro hn' c hc hcur e he hf hhas
      have hne := hn' _ ⟨c, hc, rfl⟩
      rw [if_pos hcur] at hne
      have hskip := hne _ (hask c) e he ((hsame c).1 ▸ hf)
      rw [(hsame c).2] at hskip
      exact (EventClient.connect_lt_iff he).mp (hskip.resolve_left hhas)
    · rintro hord c ⟨c, hc, rfl⟩ cursor hcursor e he hf
      by_cases hcur : c.cursor = none
      · rw [if_pos hcur] at hcursor hf ⊢
        rw [hask] at hcursor
        obtain rfl := Option.some.inj hcursor
        rw [(hsame c).1] at hf
        rw [(hsame c).2]
        by_cases hhas : c.Has e
        · exact .inl hhas
        · exact .inr ((EventClient.connect_lt_iff he).mpr (hord c hc hcur e he hf hhas))
      · rw [if_neg hcur] at hcursor hf ⊢
        exact hn c hc cursor hcursor e he hf

end EventStream

/-! ## Runs -/

section
variable {tr : List (EventStream × StreamEvent)} {s : EventStream}

theorem EventStream.wellFormed_empty : ({} : EventStream).WellFormed :=
  ⟨.nil, fun e he => (by cases he), fun c hc => (by cases hc)⟩

/-- Along a run the client is sent every event that commits after it first connected, exactly once
and in the order of the ids, exactly when every move is in order. -/
theorem stream_delivers_iff (h : StreamRun tr s) :
    (∀ x, Run.Visits tr s x → x.Delivers) ↔ Run.Meets (fun x move => move.InOrder x) tr := by
  have hempty : ({} : EventStream).Delivers :=
    (EventStream.delivers_iff EventStream.wellFormed_empty).mpr fun c hc => by cases hc
  refine h.always_iff (I := EventStream.WellFormed) EventStream.wellFormed_empty hempty ?_ ?_
  · rintro x move x' hw rfl
    exact hw.apply move
  · rintro x move x' hw hd rfl
    rw [EventStream.delivers_iff (hw.apply move)]
    exact EventStream.noneSkipped_apply_iff hw ((EventStream.delivers_iff hw).mp hd)

def StreamEvent.moves : List StreamEvent → EventStream := List.foldl (fun s move => move.apply s) {}

theorem StreamRun.moves (moves : List StreamEvent) :
    StreamRun (Run.history (fun s (move : StreamEvent) => move.apply s) {} moves)
      (StreamEvent.moves moves) :=
  Run.of_foldl _ moves fun _ _ => rfl

/-- An event of the job `1`. -/
def enqueuedEvent (tx : Nat) : StreamEvent :=
  .insert tx { jobId := 1, eventType := .enqueued, status := .queued, owner := "" } "" 0

/-- The first event commits after the client was sent the second. -/
def overtakenMoves : List StreamEvent :=
  [enqueuedEvent 1, enqueuedEvent 2, .connect 0 none, .commit 2 [], .poll 101, .commit 1 []]

theorem overtakenMoves_skips : ∃ tr s, StreamRun tr s ∧ tr.map Prod.snd = overtakenMoves ∧
    ¬ s.Delivers := by
  have hrun := StreamRun.moves overtakenMoves
  refine ⟨_, _, hrun, rfl, fun hd => ?_⟩
  have hw : (StreamEvent.moves overtakenMoves).WellFormed :=
    hrun.always EventStream.wellFormed_empty fun x move x' hw hs => hs ▸ hw.apply move
  let c : EventClient :=
    { after := 0, lastEventId := some (toString 2), cursor := some 2, found := []
      delivered := [{ eventId := 2, jobId := 1, kind := "", state := .queued, type := .enqueued
                      message := "", timestamp := 0 }] }
  have hc : (StreamEvent.moves overtakenMoves).client = some c := by decide +kernel
  have hfirst : ∃ e ∈ (StreamEvent.moves overtakenMoves).events, e.id = 1 := by decide +kernel
  obtain ⟨e, he, hid⟩ := hfirst
  rcases (EventStream.delivers_iff hw).mp hd c hc 2 rfl e he (by simp [c]) with ⟨p, hp, hpe⟩ | hlt
  · obtain rfl := List.mem_singleton.mp hp
    rw [hid] at hpe
    cases hpe
  · omega

/-- Committed in the order of their ids, both events are sent. -/
theorem stream_delivers_in_order : ∃ tr s, StreamRun tr s ∧ s.events.length = 2 ∧
    ∀ x, Run.Visits tr s x → x.Delivers := by
  let moves : List StreamEvent := [enqueuedEvent 1, enqueuedEvent 2, .connect 0 none, .commit 1 [],
    .poll 101, .commit 2 []]
  refine ⟨_, _, StreamRun.moves moves, by decide +kernel,
    (stream_delivers_iff (StreamRun.moves moves)).mpr ?_⟩
  simp only [moves, Run.history, Run.Meets, List.mem_cons, List.not_mem_nil, or_false,
    forall_eq_or_imp, forall_eq, enqueuedEvent, StreamEvent.InOrder, true_and]
  decide +kernel

end

end MangaManager
