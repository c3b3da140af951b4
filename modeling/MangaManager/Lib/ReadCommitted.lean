import MangaManager.Lib.Run
import MangaManager.Lib.Table

/-!
# Transactions under READ COMMITTED

A transaction is a program of statements over a database `σ`. A read sees the
committed rows with the transaction's own changes; a lock (`SELECT ... FOR UPDATE`,
a unique key, an advisory lock) waits until no other transaction has the key and then
reads; a change waits for the rows it writes, keeps them locked, and is journaled. A
commit applies the journal. Sessions run one transaction after the other, and their
statements interleave.

The rule: `Safe` checks one program against what other commits may do meanwhile.
Between two statements a program knows an assertion that is `Stable`, kept by any
commit that leaves the locked rows alone. When every program is safe, every reachable
state of a run whose commits meet a condition `C` satisfies the invariant, and every
commit is in the guarantee (`secured_run`).
-/

namespace MangaManager.Lib.ReadCommitted

/-- The statements of a transaction. -/
inductive Prog (σ κ ω ρ : Type*) where
  | commit (result : ρ)
  | raise (result : ρ)
  | read (next : σ → Prog σ κ ω ρ)
  | lock (key : κ) (next : σ → Prog σ κ ω ρ)
  | write (change : ω) (next : Prog σ κ ω ρ)

/-- What a session runs. The next transaction depends on how the one before ended; `none` says that
the database rolled it back. -/
inductive Thread (σ κ ω ρ : Type*) where
  | stop
  | transact (prog : Prog σ κ ω ρ) (next : Option ρ → Thread σ κ ω ρ)

/-- What a change makes of the database, and the keys of the rows it writes: a row of another key
stays the same. -/
structure Database (σ κ ω : Type*) where
  apply : σ → ω → σ
  keys : ω → List κ
  Same : κ → σ → σ → Prop
  refl : ∀ k s, Same k s s
  trans : ∀ k s s₁ s', Same k s s₁ → Same k s₁ s' → Same k s s'
  frame : ∀ k s w, k ∉ keys w → Same k s (apply s w)

/-- A transaction under way. -/
structure Session (σ κ ω ρ : Type*) where
  id : Nat
  prog : Prog σ κ ω ρ
  journal : List ω := []
  locks : List κ := []
  next : Option ρ → Thread σ κ ω ρ

structure State (σ κ ω ρ : Type*) where
  db : σ
  sessions : List (Session σ κ ω ρ) := []

/-- `τ` names the threads. -/
inductive Move (τ : Type*) where
  | start (id : Nat) (thread : τ)
  | advance (id : Nat)
  | abort (id : Nat)
  | close (id : Nat)

variable {σ κ ω ρ τ : Type*} (D : Database σ κ ω) (threads : τ → Thread σ κ ω ρ)

/-- The database as the transaction sees it. -/
def Session.view (x : Session σ κ ω ρ) (db : σ) : σ := x.journal.foldl D.apply db

namespace State

variable (s : State σ κ ω ρ)

/-- The session goes on with `xs`. -/
def replace (id : Nat) (xs : List (Session σ κ ω ρ)) : State σ κ ω ρ :=
  { s with sessions := s.sessions.filter (·.id != id) ++ xs }

/-- The session starts its next transaction. -/
def resume (id : Nat) : Thread σ κ ω ρ → State σ κ ω ρ
  | .stop => s.replace id []
  | .transact prog next => s.replace id [{ id := id, prog := prog, next := next }]

variable [DecidableEq κ]

/-- No other transaction has the key. -/
def free (id : Nat) (key : κ) : Bool :=
  s.sessions.all fun x => x.id == id || !decide (key ∈ x.locks)

/-- The next statement of a session; none, when it waits. -/
def advance (x : Session σ κ ω ρ) : Option (State σ κ ω ρ) :=
  match x.prog with
  | .commit r => some { s.resume x.id (x.next (some r)) with db := x.view D s.db }
  | .raise r => some (s.resume x.id (x.next (some r)))
  | .read next => some (s.replace x.id [{ x with prog := next (x.view D s.db) }])
  | .lock key next =>
    if s.free x.id key then
      some (s.replace x.id [{ x with prog := next (x.view D s.db), locks := key :: x.locks }])
    else none
  | .write w next =>
    if (D.keys w).all (s.free x.id) then
      some (s.replace x.id
        [{ x with prog := next, journal := x.journal ++ [w], locks := D.keys w ++ x.locks }])
    else none

def session? (id : Nat) : Option (Session σ κ ω ρ) := Table.get Session.id s.sessions id

def step : Move τ → Option (State σ κ ω ρ)
  | .start id thread =>
    if (s.session? id).isSome then none else some (s.resume id (threads thread))
  | .advance id => (s.session? id).bind (s.advance D)
  | .abort id => (s.session? id).map fun x => s.resume id (x.next none)
  | .close id => some (s.replace id [])

/-- The moves, one after the other, as far as they can be made. -/
def play (s : State σ κ ω ρ) (moves : List (Move τ)) : State σ κ ω ρ :=
  moves.foldl (fun s m => (s.step D threads m).getD s) s

end State

/-- All moves can be made. -/
def State.plays [DecidableEq κ] (s : State σ κ ω ρ) : List (Move τ) → Bool
  | [] => true
  | m :: moves => match s.step D threads m with
    | none => false
    | some s' => s'.plays moves

/-- The steps of the sessions. -/
def Steps [DecidableEq κ] (s : State σ κ ω ρ) (m : Move τ) (s' : State σ κ ω ρ) : Prop :=
  s.step D threads m = some s'

/-- A commit finds the database, and what it changes there, in `C`. -/
def Commits (C : σ → List ω → Prop) (s : State σ κ ω ρ) (m : Move τ) : Prop :=
  ∀ id x r, m = .advance id → s.session? id = some x → x.prog = .commit r → C s.db x.journal

/-! ## The rule -/

section
variable (Inv : σ → Prop) (G : σ → σ → Prop) (C : σ → List ω → Prop)

/-- Kept by the commits of others while the rows of `locks` are locked. -/
def Stable (locks : List κ) (A : σ → Prop) : Prop :=
  ∀ s s', A s → Inv s → Inv s' → G s s' → (∀ k ∈ locks, D.Same k s s') → A s'

/-- The program keeps the invariant and the guarantee, when it knows `A` of the database. -/
def Safe : Prog σ κ ω ρ → List κ → List ω → (σ → Prop) → Prop
  | .commit _, _, journal, A => ∀ s, A s → Inv s → C s journal →
    Inv (journal.foldl D.apply s) ∧ G s (journal.foldl D.apply s)
  | .raise _, _, _, _ => True
  | .read next, locks, journal, A => ∀ s, A s → Inv s →
    ∃ A', A' s ∧ Stable D Inv G locks A' ∧ Safe (next (journal.foldl D.apply s)) locks journal A'
  | .lock key next, locks, journal, A => ∀ s, A s → Inv s →
    ∃ A', A' s ∧ Stable D Inv G (key :: locks) A' ∧
      Safe (next (journal.foldl D.apply s)) (key :: locks) journal A'
  | .write w next, locks, journal, A => ∀ s, A s → Inv s →
    ∃ A', A' s ∧ Stable D Inv G (D.keys w ++ locks) A' ∧
      Safe next (D.keys w ++ locks) (journal ++ [w]) A'

/-- Every transaction of the session is safe. -/
def SafeThread : Thread σ κ ω ρ → Prop
  | .stop => True
  | .transact prog next => Safe D Inv G C prog [] [] (fun _ => True) ∧ ∀ r, SafeThread (next r)

/-- The session knows what its program needs. -/
structure Session.Assured (x : Session σ κ ω ρ) (db : σ) : Prop where
  safe : ∃ A, A db ∧ Stable D Inv G x.locks A ∧ Safe D Inv G C x.prog x.locks x.journal A
  next : ∀ r, SafeThread D Inv G C (x.next r)
  covered : ∀ w ∈ x.journal, ∀ k ∈ D.keys w, k ∈ x.locks

/-- The invariant of the run. -/
structure Secured (s : State σ κ ω ρ) : Prop where
  inv : Inv s.db
  keyed : Table.Keyed Session.id s.sessions
  apart : ∀ x ∈ s.sessions, ∀ y ∈ s.sessions, x.id ≠ y.id → ∀ k ∈ x.locks, k ∉ y.locks
  assured : ∀ x ∈ s.sessions, x.Assured D Inv G C s.db

section
variable {D Inv G C} {locks locks' : List κ} {journal : List ω} {A : σ → Prop} {key : κ} {w : ω}
  {next : σ → Prog σ κ ω ρ} {prog : Prog σ κ ω ρ}

theorem Stable.mono (h : Stable D Inv G locks A) (hl : locks ⊆ locks') : Stable D Inv G locks' A :=
  fun s s' hA hi hi' hg hk => h s s' hA hi hi' hg fun k hm => hk k (hl hm)

theorem stable_true : Stable D Inv G locks fun _ => True := fun _ _ _ _ _ _ _ => trivial

theorem Safe.commit {r : ρ} (h : ∀ s, A s → Inv s → C s journal →
    Inv (journal.foldl D.apply s) ∧ G s (journal.foldl D.apply s)) :
    Safe D Inv G C (.commit r : Prog σ κ ω ρ) locks journal A := h

theorem Safe.raise {r : ρ} : Safe D Inv G C (.raise r : Prog σ κ ω ρ) locks journal A := trivial

theorem Safe.of_imp {A' : σ → Prop} (hs : Safe D Inv G C prog locks journal A')
    (h : ∀ s, A s → A' s) : Safe D Inv G C prog locks journal A := by
  cases prog with
  | raise r => trivial
  | commit | read | lock | write => exact fun s hA => hs s (h s hA)

/-- A read after which no more is known. -/
theorem Safe.read (hA : Stable D Inv G locks A)
    (h : ∀ s, A s → Inv s → Safe D Inv G C (next (journal.foldl D.apply s)) locks journal A) :
    Safe D Inv G C (.read next) locks journal A :=
  fun s hs hi => ⟨A, hs, hA, h s hs hi⟩

/-- What is seen of the locked row is known from then on. -/
theorem Safe.lock (A' : σ → σ → Prop) (hA : ∀ s, A s → Inv s → A' s s)
    (hstable : ∀ s, A s → Stable D Inv G (key :: locks) (A' s))
    (h : ∀ s, A s → Inv s →
      Safe D Inv G C (next (journal.foldl D.apply s)) (key :: locks) journal (A' s)) :
    Safe D Inv G C (.lock key next) locks journal A :=
  fun s hs hi => ⟨A' s, hA s hs hi, hstable s hs, h s hs hi⟩

theorem Safe.write (hA : Stable D Inv G locks A)
    (h : Safe D Inv G C prog (D.keys w ++ locks) (journal ++ [w]) A) :
    Safe D Inv G C (.write w prog) locks journal A :=
  fun _ hs _ => ⟨A, hs, hA.mono (List.subset_append_right _ _), h⟩

end

variable {D Inv G C} {s s' : State σ κ ω ρ} {x y : Session σ κ ω ρ} {id : Nat} {db : σ}
  {xs : List (Session σ κ ω ρ)}

theorem frame_journal {journal : List ω} {k : κ} (h : ∀ w ∈ journal, k ∉ D.keys w) (db : σ) :
    D.Same k db (journal.foldl D.apply db) := by
  induction journal generalizing db with
  | nil => exact D.refl k db
  | cons w l ih =>
    refine D.trans k db _ _ (D.frame k db w (h w List.mem_cons_self)) ?_
    exact ih (fun w hw => h w (List.mem_cons_of_mem _ hw)) _

theorem mem_replace : y ∈ (s.replace id xs).sessions ↔ (y ∈ s.sessions ∧ y.id ≠ id) ∨ y ∈ xs := by
  simp [State.replace]

/-- A session goes on, and the others know what they need of the database it leaves. -/
theorem Secured.replace (h : Secured D Inv G C s) (hinv : Inv db)
    (hothers : ∀ y ∈ s.sessions, y.id ≠ id → y.Assured D Inv G C db) (hlen : xs.length ≤ 1)
    (hid : ∀ x ∈ xs, x.id = id) (hxs : ∀ x ∈ xs, x.Assured D Inv G C db)
    (hapart : ∀ x ∈ xs, ∀ y ∈ s.sessions, y.id ≠ id → ∀ k ∈ x.locks, k ∉ y.locks) :
    Secured D Inv G C { s.replace id xs with db := db } := by
  refine ⟨hinv, ?_, ?_, ?_⟩
  · show (((s.sessions.filter (·.id != id)) ++ xs).map Session.id).Nodup
    rw [List.map_append, List.nodup_append]
    refine ⟨h.keyed.filter, ?_, ?_⟩
    · match xs, hlen with
      | [], _ => exact List.nodup_nil
      | [_], _ => exact List.nodup_singleton _
    · intro a ha b hb
      obtain ⟨y, hy, rfl⟩ := List.mem_map.mp ha
      obtain ⟨x, hx, rfl⟩ := List.mem_map.mp hb
      rw [hid x hx]
      simpa using (List.mem_filter.mp hy).2
  · intro x hx y hy hne k hk hk'
    rcases mem_replace.mp hx with ⟨hx, hxid⟩ | hx <;> rcases mem_replace.mp hy with ⟨hy, hyid⟩ | hy
    · exact h.apart x hx y hy hne k hk hk'
    · exact hapart y hy x hx hxid k hk' hk
    · exact hapart x hx y hy hyid k hk hk'
    · exact hne ((hid x hx).trans (hid y hy).symm)
  · intro y hy
    rcases mem_replace.mp hy with ⟨hy, hyid⟩ | hy
    · exact hothers y hy hyid
    · exact hxs y hy

theorem Secured.resume {th : Thread σ κ ω ρ} (h : Secured D Inv G C s) (id : Nat) (hinv : Inv db)
    (hothers : ∀ y ∈ s.sessions, y.id ≠ id → y.Assured D Inv G C db)
    (hth : SafeThread D Inv G C th) : Secured D Inv G C { s.resume id th with db := db } := by
  cases th with
  | stop =>
    exact h.replace hinv hothers (Nat.zero_le _) (fun _ hx => (by cases hx))
      (fun _ hx => (by cases hx)) fun _ hx => (by cases hx)
  | transact prog next =>
    refine h.replace hinv hothers (Nat.le_refl _) (fun x hx => ?_) (fun x hx => ?_)
      fun x hx y _ _ k hk => ?_ <;> obtain rfl := List.mem_singleton.mp hx
    · rfl
    · exact ⟨⟨fun _ => True, trivial, fun _ _ _ _ _ _ _ => trivial, hth.1⟩, hth.2,
        fun _ hw => (by cases hw)⟩
    · cases hk

@[simp] theorem resume_db (s : State σ κ ω ρ) (id : Nat) (th : Thread σ κ ω ρ) :
    (s.resume id th).db = s.db := by
  cases th <;> rfl

/-- A session starts its next transaction, or ends, without a commit. -/
theorem Secured.resume_same {th : Thread σ κ ω ρ} (h : Secured D Inv G C s) (id : Nat)
    (hth : SafeThread D Inv G C th) : Secured D Inv G C (s.resume id th) := by
  have hr := h.resume id h.inv (fun y hy _ => h.assured y hy) hth
  rwa [← resume_db s id th] at hr

/-- A commit of `x` leaves the other sessions what they know. -/
theorem Secured.others (h : Secured D Inv G C s) (hx : x ∈ s.sessions) (hinv : Inv (x.view D s.db))
    (hg : G s.db (x.view D s.db)) (hy : y ∈ s.sessions) (hne : y.id ≠ x.id) :
    y.Assured D Inv G C (x.view D s.db) := by
  obtain ⟨⟨A, hA, hstable, hsafe⟩, hnext, hcov⟩ := h.assured y hy
  refine ⟨⟨A, hstable s.db _ hA h.inv hinv hg fun k hk => ?_, hstable, hsafe⟩, hnext, hcov⟩
  refine frame_journal (fun w hw hkw => ?_) s.db
  exact h.apart x hx y hy (Ne.symm hne) k ((h.assured x hx).covered w hw k hkw) hk

variable [DecidableEq κ]

theorem free_iff {key : κ} :
    s.free id key = true ↔ ∀ y ∈ s.sessions, y.id ≠ id → key ∉ y.locks := by
  simp only [State.free, List.all_eq_true, Bool.or_eq_true, beq_iff_eq, Bool.not_eq_true',
    decide_eq_false_iff_not]
  refine forall₂_congr fun y _ => ?_
  rw [or_iff_not_imp_left]

theorem Secured.advance (h : Secured D Inv G C s) (hx : x ∈ s.sessions)
    (hc : ∀ r, x.prog = .commit r → C s.db x.journal) (ha : s.advance D x = some s') :
    Secured D Inv G C s' ∧ (s'.db = s.db ∨ G s.db s'.db) := by
  obtain ⟨⟨A, hA, hstable, hsafe⟩, hnext, hcov⟩ := h.assured x hx
  have hsame : ∀ y ∈ s.sessions, y.id ≠ x.id → y.Assured D Inv G C s.db :=
    fun y hy _ => h.assured y hy
  have hfree : ∀ y ∈ s.sessions, y.id ≠ x.id → ∀ k ∈ x.locks, k ∉ y.locks :=
    fun y hy hne => h.apart x hx y hy (Ne.symm hne)
  -- the session goes on, and nothing is committed
  have hgo : ∀ x' : Session σ κ ω ρ, x'.id = x.id → x'.Assured D Inv G C s.db →
      (∀ y ∈ s.sessions, y.id ≠ x.id → ∀ k ∈ x'.locks, k ∉ y.locks) →
      Secured D Inv G C (s.replace x.id [x']) := by
    intro x' hid hass hlocks
    refine h.replace h.inv hsame (Nat.le_refl _) ?_ ?_ ?_ <;> intro z hz <;>
      obtain rfl := List.mem_singleton.mp hz
    · exact hid
    · exact hass
    · exact hlocks
  unfold State.advance at ha
  split at ha
  · rename_i r hp
    cases ha
    rw [hp] at hsafe
    obtain ⟨hinv, hg⟩ := hsafe s.db hA h.inv (hc r hp)
    exact ⟨h.resume _ hinv (fun y hy hne => h.others hx hinv hg hy hne) (hnext _), .inr hg⟩
  · rename_i r hp
    cases ha
    exact ⟨h.resume_same _ (hnext _), .inl (resume_db _ _ _)⟩
  · rename_i next hp
    cases ha
    rw [hp] at hsafe
    obtain ⟨A', hA', hstable', hsafe'⟩ := hsafe s.db hA h.inv
    exact ⟨hgo _ rfl ⟨⟨A', hA', hstable', hsafe'⟩, hnext, hcov⟩ hfree, .inl rfl⟩
  · rename_i key next hp
    split at ha
    · rename_i hkey
      cases ha
      rw [hp] at hsafe
      obtain ⟨A', hA', hstable', hsafe'⟩ := hsafe s.db hA h.inv
      refine ⟨hgo _ rfl ⟨⟨A', hA', hstable', hsafe'⟩, hnext, fun w hw k hk =>
        List.mem_cons_of_mem _ (hcov w hw k hk)⟩ fun y hy hne k hk => ?_, .inl rfl⟩
      rcases List.mem_cons.mp hk with rfl | hk
      · exact free_iff.mp hkey y hy hne
      · exact hfree y hy hne k hk
    · cases ha
  · rename_i w next hp
    split at ha
    · rename_i hkeys
      cases ha
      rw [hp] at hsafe
      obtain ⟨A', hA', hstable', hsafe'⟩ := hsafe s.db hA h.inv
      refine ⟨hgo _ rfl ⟨⟨A', hA', hstable', hsafe'⟩, hnext, fun w' hw k hk => ?_⟩
        fun y hy hne k hk => ?_, .inl rfl⟩
      · rcases List.mem_append.mp hw with hw | hw
        · exact List.mem_append_right _ (hcov w' hw k hk)
        · exact List.mem_append_left _ (List.mem_singleton.mp hw ▸ hk)
      · rcases List.mem_append.mp hk with hk | hk
        · exact free_iff.mp (List.all_eq_true.mp hkeys k hk) y hy hne
        · exact hfree y hy hne k hk
    · cases ha

/-- One step of the sessions. -/
theorem Secured.step {threads : τ → Thread σ κ ω ρ} {m : Move τ} (h : Secured D Inv G C s)
    (hth : ∀ t, SafeThread D Inv G C (threads t)) (hc : Commits C s m)
    (hs : Steps D threads s m s') : Secured D Inv G C s' ∧ (s'.db = s.db ∨ G s.db s'.db) := by
  cases m with
  | start id t =>
    have hs : (if (s.session? id).isSome then none else some (s.resume id (threads t))) = some s' :=
      hs
    split at hs
    · cases hs
    · cases hs
      exact ⟨h.resume_same _ (hth t), .inl (resume_db _ _ _)⟩
  | advance id =>
    obtain ⟨x, hx, ha⟩ := Option.bind_eq_some_iff.mp hs
    exact h.advance (Table.get_mem hx) (fun r hr => hc id x r rfl hx hr) ha
  | abort id =>
    obtain ⟨x, hx, rfl⟩ := Option.map_eq_some_iff.mp hs
    exact ⟨h.resume_same _ ((h.assured x (Table.get_mem hx)).next none), .inl (resume_db _ _ _)⟩
  | close id =>
    cases hs
    exact ⟨h.resume_same id (show SafeThread D Inv G C .stop from trivial), .inl rfl⟩

/-- A run of safe programs whose commits meet `C`: the invariant holds all along, and later states
are in the guarantee. -/
theorem secured_run {threads : τ → Thread σ κ ω ρ} {tr : List (State σ κ ω ρ × Move τ)} {db₀ : σ}
    (h : Run (Steps D threads) { db := db₀ } tr s) (h₀ : Inv db₀)
    (hth : ∀ t, SafeThread D Inv G C (threads t)) (hm : Run.Meets (Commits C) tr)
    (hrefl : ∀ db, G db db) (htrans : ∀ a b c, G a b → G b c → G a c) :
    (∀ x, Run.Visits tr s x → Inv x.db) ∧ ∀ x y, Run.Later tr s x y → G x.db y.db := by
  have hstart : Secured D Inv G C ({ db := db₀ } : State σ κ ω ρ) :=
    ⟨h₀, List.nodup_nil, fun _ hx => (by cases hx), fun _ hx => (by cases hx)⟩
  refine ⟨fun x hx => ?_, ?_⟩
  · exact (h.invariant_visits hm hstart (fun s m s' hc hs hstep => (hs.step hth hc hstep).1) x hx).inv
  · refine h.later hm hstart (fun s m s' hc hs hstep => ?_) fun a b c => htrans a.db b.db c.db
    obtain ⟨hs', hg⟩ := hs.step hth hc hstep
    exact ⟨hs', hg.elim (fun he => he ▸ hrefl _) id⟩

/-- The states passed when the moves are made, with the moves. -/
def State.trace (D : Database σ κ ω) (threads : τ → Thread σ κ ω ρ) (s : State σ κ ω ρ)
    (moves : List (Move τ)) : List (State σ κ ω ρ × Move τ) :=
  Run.history (fun s m => (s.step D threads m).getD s) s moves

/-- Moves that can be made are a run. -/
theorem run_play {threads : τ → Thread σ κ ω ρ} (moves : List (Move τ))
    (h : s.plays D threads moves = true) :
    Run (Steps D threads) s (s.trace D threads moves) (s.play D threads moves) := by
  refine Run.of_foldl (fun (s : State σ κ ω ρ) m => (s.step D threads m).getD s) moves ?_
  induction moves generalizing s with
  | nil => exact fun _ hx => (by cases hx)
  | cons m moves ih =>
    unfold State.plays at h
    split at h
    · cases h
    · rename_i s₁ hs
      intro x hx
      rcases List.mem_cons.mp hx with rfl | hx
      · show s.step D threads m = some ((s.step D threads m).getD s)
        rw [hs, Option.getD_some]
      · beta_reduce at hx
        rw [hs, Option.getD_some] at hx
        exact ih h x hx

end

section
variable {C : σ → List ω → Prop} [∀ db journal, Decidable (C db journal)]

/-- What `Commits` says, of the next statement of the session that goes on. -/
def State.finds (s : State σ κ ω ρ) : Move τ → Bool
  | .advance id => (s.session? id).all fun x => match x.prog with
    | .commit _ => decide (C s.db x.journal)
    | _ => true
  | _ => true

theorem finds_iff {s : State σ κ ω ρ} {m : Move τ} : s.finds (C := C) m = true ↔ Commits C s m := by
  cases m with
  | start | abort | close => exact ⟨fun _ id x r h => (by cases h), fun _ => rfl⟩
  | advance id =>
    show (s.session? id).all _ = true ↔ _
    constructor
    · rintro h id' x r he hx hp
      cases he
      rw [hx, Option.all_some, hp] at h
      exact of_decide_eq_true h
    · intro h
      rw [Option.all_eq_true]
      intro x hx
      split
      · exact decide_eq_true (h id x _ rfl hx ‹_›)
      · rfl

instance decidableCommits (s : State σ κ ω ρ) (m : Move τ) : Decidable (Commits C s m) :=
  decidable_of_iff _ finds_iff

end

end MangaManager.Lib.ReadCommitted
