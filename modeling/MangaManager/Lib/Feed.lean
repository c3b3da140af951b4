import Mathlib.Data.List.Nodup
import Mathlib.Data.List.TakeDrop

/-!
# Reading a feed by pages

A feed lists its entries from the one that was touched last. A `Walk` reads it page by page, from
the front, while it is touched between the pages; a touch moves the entries behind it back by one
place at most, so a walk passes over no entry that is not touched meanwhile (`Walk.covers`).

`Marked`: the entries touched since some moment are the first ones. `Walk.reads_marked`: once a
walk reads an entry that was not touched since, it has read all that were.
-/

namespace MangaManager.Lib

variable {τ κ : Type*} (key : τ → κ)

/-- The keys are different, and those in `touched` come first. -/
structure Marked (touched : List κ) (feed : List τ) : Prop where
  nodup : (feed.map key).Nodup
  first : feed.Pairwise fun x y => key y ∈ touched → key x ∈ touched

section
variable {key} {touched : List κ} {feed : List τ} {e f : τ} {m : Nat}

theorem Marked.sublist {feed' : List τ} (h : Marked key touched feed) (hs : feed'.Sublist feed) :
    Marked key touched feed' :=
  ⟨h.nodup.sublist (hs.map key), h.first.sublist hs⟩

/-- An entry of the first `m` that is not marked has all marked ones before it. -/
theorem Marked.mem_take (h : Marked key touched feed) (he : e ∈ feed.take m)
    (hold : key e ∉ touched) (hf : f ∈ feed) (hnew : key f ∈ touched) : f ∈ feed.take m := by
  have hfirst := h.first
  rw [← List.take_append_drop m feed] at hf hfirst
  refine (List.mem_append.mp hf).resolve_right fun hdrop => hold ?_
  exact (List.pairwise_append.mp hfirst).2.2 e he f hdrop hnew

theorem Marked.eq_of_key (h : Marked key touched feed) (he : e ∈ feed) (hf : f ∈ feed)
    (hk : key e = key f) : e = f :=
  List.inj_on_of_nodup_map h.nodup he hf hk

/-- What is marked, as a set. -/
theorem Marked.congr {touched' : List κ} (h : Marked key touched feed)
    (he : ∀ k, k ∈ touched' ↔ k ∈ touched) : Marked key touched' feed :=
  ⟨h.nodup, h.first.imp fun hab hb => (he _).mpr (hab ((he _).mp hb))⟩

end

/-! ## Touches -/

variable [DecidableEq κ]

/-- The entry comes to the front, if it was there or not. -/
def touch (feed : List τ) (x : τ) : List τ := x :: feed.filter fun e => key e ≠ key x

section
variable {key} {touched : List κ} {feed : List τ} {x e : τ} {m : Nat}

theorem mem_touch : e ∈ touch key feed x ↔ e = x ∨ e ∈ feed ∧ key e ≠ key x := by
  simp [touch]

/-- A touched entry belongs to the first ones. -/
theorem Marked.touch (h : Marked key touched feed) (x : τ) :
    Marked key (key x :: touched) (touch key feed x) := by
  have hrest := h.sublist (List.filter_sublist (l := feed) (p := fun e => key e ≠ key x))
  constructor
  · simp only [Lib.touch, List.map_cons, List.nodup_cons]
    exact ⟨by simp, hrest.nodup⟩
  · refine List.pairwise_cons.mpr ⟨fun e _ _ => List.mem_cons_self, ?_⟩
    refine hrest.first.imp_of_mem fun {a b} _ hb hab hm => ?_
    have hne : key b ≠ key x := by simpa using (List.mem_filter.mp hb).2
    exact List.mem_cons_of_mem _ (hab ((List.mem_cons.mp hm).resolve_left hne))

/-- Without one key the entries come nearer to the front by one place. -/
theorem mem_take_of_filter {k : κ} (h : (feed.map key).Nodup)
    (he : e ∈ (feed.filter fun e => key e ≠ k).take m) : e ∈ feed.take (m + 1) := by
  induction feed generalizing m with
  | nil => simp at he
  | cons y feed ih =>
    rw [List.map_cons, List.nodup_cons] at h
    rw [List.take_succ_cons]
    by_cases hy : key y = k
    · -- no other entry has the key
      have hrest : feed.filter (fun e => key e ≠ k) = feed := by
        refine List.filter_eq_self.mpr fun a ha => decide_eq_true fun hk => h.1 ?_
        exact List.mem_map.mpr ⟨a, ha, hk.trans hy.symm⟩
      rw [List.filter_cons_of_neg (by simpa using hy), hrest] at he
      exact List.mem_cons_of_mem _ he
    · rw [List.filter_cons_of_pos (by simpa using hy)] at he
      cases m with
      | zero => simp at he
      | succ m =>
        rw [List.take_succ_cons] at he
        rcases List.mem_cons.mp he with rfl | he
        · exact List.mem_cons_self
        · exact List.mem_cons_of_mem _ (ih h.2 he)

/-- A touch moves the other entries back by one place at most. -/
theorem mem_take_of_touch (h : (feed.map key).Nodup) (he : e ∈ (touch key feed x).take m)
    (hne : key e ≠ key x) : e ∈ feed.take m := by
  cases m with
  | zero => simp at he
  | succ m =>
    rw [touch, List.take_succ_cons] at he
    exact mem_take_of_filter h ((List.mem_cons.mp he).resolve_left fun hx => hne (hx ▸ rfl))

theorem mem_foldl_touch (xs : List τ) (hk : key e ∉ xs.map key) :
    e ∈ xs.foldl (touch key) feed ↔ e ∈ feed := by
  induction xs generalizing feed with
  | nil => rfl
  | cons x xs ih =>
    simp only [List.map_cons, List.mem_cons, not_or] at hk
    rw [List.foldl_cons, ih hk.2, mem_touch]
    exact ⟨fun h => (h.resolve_left fun hx => hk.1 (hx ▸ rfl)).1, fun h => .inr ⟨h, hk.1⟩⟩

theorem mem_take_of_foldl (xs : List τ) (h : Marked key touched feed)
    (he : e ∈ (xs.foldl (touch key) feed).take m) (hk : key e ∉ xs.map key) :
    e ∈ feed.take m := by
  induction xs generalizing feed touched with
  | nil => exact he
  | cons x xs ih =>
    simp only [List.map_cons, List.mem_cons, not_or] at hk
    exact mem_take_of_touch h.nodup (ih (h.touch x) he hk.2) hk.1

theorem Marked.foldl (xs : List τ) (h : Marked key touched feed) :
    Marked key ((xs.map key).reverse ++ touched) (xs.foldl (Lib.touch key) feed) := by
  induction xs generalizing feed touched with
  | nil => exact h
  | cons x xs ih => simpa using ih (h.touch x)

end

/-! ## Walks -/

/-- The feed at the start, the entries touched before each page and the size of a page. -/
structure Walk (τ : Type*) where
  feed : List τ
  between : List (List τ)
  limit : Nat

namespace Walk

variable (w : Walk τ)

/-- The entries touched before page `n` is read. -/
def touches (n : Nat) : List τ := (w.between.take n).flatten

def feedAt (n : Nat) : List τ := (w.touches n).foldl (touch key) w.feed

/-- Page `n + 1`. -/
def page (n : Nat) : List τ := ((w.feedAt key (n + 1)).drop (n * w.limit)).take w.limit

/-- The first `n` pages. -/
def read (n : Nat) : List τ := (List.range n).flatMap (w.page key)

variable {w key} {touched : List κ} {e f : τ} {m n : Nat}

@[simp] theorem touches_zero : w.touches 0 = [] := rfl

@[simp] theorem feedAt_zero : w.feedAt key 0 = w.feed := rfl

@[simp] theorem read_zero : w.read key 0 = [] := rfl

@[simp] theorem read_succ : w.read key (n + 1) = w.read key n ++ w.page key n := by
  simp [read, List.range_succ]

theorem touches_add (n k : Nat) :
    w.touches (n + k) = w.touches n ++ ((w.between.drop n).take k).flatten := by
  simp [touches, List.take_add]

theorem feedAt_add (n k : Nat) :
    w.feedAt key (n + k) = ((w.between.drop n).take k).flatten.foldl (touch key)
      (w.feedAt key n) := by
  rw [feedAt, feedAt, touches_add, List.foldl_append]

theorem mem_read : e ∈ w.read key n ↔ ∃ m < n, e ∈ w.page key m := by
  simp [read]

theorem read_mono (h : m ≤ n) (he : e ∈ w.read key m) : e ∈ w.read key n := by
  obtain ⟨k, hk, he⟩ := mem_read.mp he
  exact mem_read.mpr ⟨k, by omega, he⟩

theorem touches_mono (h : m ≤ n) : w.touches m ⊆ w.touches n := by
  obtain ⟨k, rfl⟩ := Nat.exists_eq_add_of_le h
  rw [touches_add]
  exact List.subset_append_left _ _

/-- An entry that is not touched is in the feed all along. -/
theorem mem_feedAt (h : m ≤ n) (hk : key e ∉ (w.touches n).map key) :
    e ∈ w.feedAt key n ↔ e ∈ w.feedAt key m := by
  obtain ⟨k, rfl⟩ := Nat.exists_eq_add_of_le h
  rw [touches_add, List.map_append, List.mem_append, not_or] at hk
  rw [feedAt_add]
  exact mem_foldl_touch _ hk.2

/-- What was touched before and during a walk is marked. -/
theorem marked (h : Marked key touched w.feed) (n : Nat) :
    Marked key ((w.touches n).map key ++ touched) (w.feedAt key n) :=
  (h.foldl (w.touches n)).congr fun k => by simp

theorem mem_take_of_page (he : e ∈ w.page key n) :
    e ∈ (w.feedAt key (n + 1)).take ((n + 1) * w.limit) := by
  rw [Nat.succ_mul, List.take_add]
  exact List.mem_append_right _ he

theorem mem_of_page (he : e ∈ w.page key n) : e ∈ w.feedAt key (n + 1) :=
  List.mem_of_mem_take (mem_take_of_page he)

/-- After `n` pages an entry of the first `n` pages of the feed was read, or touched meanwhile. -/
theorem covers (h : Marked key touched w.feed) (n : Nat)
    (he : e ∈ (w.feedAt key n).take (n * w.limit)) (hk : key e ∉ (w.touches n).map key) :
    e ∈ w.read key n := by
  induction n with
  | zero => simp at he
  | succ n ih =>
    rw [read_succ, List.mem_append]
    rw [Nat.succ_mul, List.take_add, List.mem_append] at he
    refine he.imp (fun he => ?_) id
    rw [touches_add, List.map_append, List.mem_append, not_or] at hk
    rw [feedAt_add] at he
    exact ih (mem_take_of_foldl _ (w.marked h n) he hk.2) hk.1

/-- The whole feed lies on the first `n` pages. -/
theorem covers_all (h : Marked key touched w.feed)
    (hlen : (w.feedAt key n).length ≤ n * w.limit) (he : e ∈ w.feedAt key n)
    (hk : key e ∉ (w.touches n).map key) : e ∈ w.read key n :=
  w.covers h n (by rwa [List.take_of_length_le hlen]) hk

/-- An entry read from behind the marked ones: all of them were read, or touched meanwhile. -/
theorem reads_marked (h : Marked key touched w.feed) (hm : m < n) (he : e ∈ w.page key m)
    (hold : key e ∉ (w.touches (m + 1)).map key ++ touched) (hf : f ∈ w.feedAt key n)
    (hnew : key f ∈ touched) (hk : key f ∉ (w.touches n).map key) : f ∈ w.read key n := by
  have hle : m + 1 ≤ n := hm
  have hf' : f ∈ w.feedAt key (m + 1) := (mem_feedAt hle hk).mp hf
  have htake := (w.marked h (m + 1)).mem_take (mem_take_of_page he) hold hf'
    (List.mem_append_right _ hnew)
  exact read_mono hle (w.covers h (m + 1) htake fun ht =>
    hk (List.map_subset key (touches_mono hle) ht))

/-- An entry that is not touched is the only one of its key that is read. -/
theorem eq_of_read (h : Marked key touched w.feed) (he : e ∈ w.read key n)
    (hf : f ∈ w.feedAt key n) (hk : key f ∉ (w.touches n).map key) (hkey : key e = key f) :
    e = f := by
  obtain ⟨m, hm, he⟩ := mem_read.mp he
  exact (w.marked h (m + 1)).eq_of_key (mem_of_page he) ((mem_feedAt hm hk).mp hf) hkey

/-- The entries of a page have different keys. -/
theorem page_nodup (h : Marked key touched w.feed) : ((w.page key n).map key).Nodup :=
  (w.marked h (n + 1)).nodup.sublist
    (((List.take_sublist _ _).trans (List.drop_sublist _ _)).map key)

/-- A page that ends the feed. -/
theorem length_le_of_page (hpos : 0 < w.limit) (h : w.page key n = []) :
    (w.feedAt key (n + 1)).length ≤ (n + 1) * w.limit := by
  have hlen := congrArg List.length h
  rw [page, List.length_take, List.length_drop, List.length_nil] at hlen
  rw [Nat.succ_mul]
  omega

/-! ## Hits -/

section
variable (w) (key) (hit : τ → Bool) (touched : List κ)

/-- The entries of the first `n` pages that are hit. -/
def hits (n : Nat) : Nat := (w.read key n).countP hit

/-- Those that were touched by the time they were read. -/
def churn : Nat → Nat
  | 0 => 0
  | n + 1 => churn n + (w.page key n).countP fun e =>
      hit e && decide (key e ∈ (w.touches (n + 1)).map key ++ touched)

variable {w key hit touched}

@[simp] theorem hits_succ : w.hits key hit (n + 1) =
    w.hits key hit n + (w.page key n).countP hit := by
  simp [hits]

/-- More hits than churn: an entry was hit that was not touched. -/
theorem exists_hit (h : w.churn key hit touched n < w.hits key hit n) :
    ∃ m < n, ∃ e ∈ w.page key m, hit e = true ∧
      key e ∉ (w.touches (m + 1)).map key ++ touched := by
  induction n with
  | zero => simp [hits] at h
  | succ n ih =>
    rw [hits_succ, churn] at h
    by_cases hlast : ∃ e ∈ w.page key n, hit e = true ∧
        key e ∉ (w.touches (n + 1)).map key ++ touched
    · exact ⟨n, by omega, hlast⟩
    · have heq : (w.page key n).countP hit = (w.page key n).countP fun e =>
          hit e && decide (key e ∈ (w.touches (n + 1)).map key ++ touched) := by
        refine List.countP_congr fun e he => ?_
        rw [Bool.and_eq_true, decide_eq_true_eq]
        refine ⟨fun hh => ⟨hh, ?_⟩, fun hh => hh.1⟩
        by_contra hno
        exact hlast ⟨e, he, hh, hno⟩
      obtain ⟨m, hm, hex⟩ := ih (by omega)
      exact ⟨m, by omega, hex⟩

/-- Hits enough for more than the churn: the marked entries were read. -/
theorem reads_marked_of_hits (h : Marked key touched w.feed)
    (hlt : w.churn key hit touched n < w.hits key hit n) (hf : f ∈ w.feedAt key n)
    (hnew : key f ∈ touched) (hk : key f ∉ (w.touches n).map key) : f ∈ w.read key n := by
  obtain ⟨m, hm, e, he, -, hold⟩ := exists_hit hlt
  exact w.reads_marked h hm he hold hf hnew hk

end

end Walk

end MangaManager.Lib
