import Mathlib.Order.WithBot
import MangaManager.Lib.Cursor

/-!
# Following cursors

An endpoint returns a page and the text of the cursor after it, or no cursor when the page
is not full. `follow` asks for page after page from the empty cursor. When every page is the
first `limit` of what is ahead of its cursor in the order of the keys, what it collects is
each row once, in that order (`follow_complete`).
-/

namespace MangaManager.Lib.Cursor

/-- What an endpoint returns. -/
structure Page (β : Type*) where
  items : List β
  nextCursor : Option String

/-- The items of the pages until `next_cursor` is null; none, when a request fails or there are
more pages than asked for. -/
def follow {β : Type*} (endpoint : String → Option (Page β)) : Nat → String → Option (List β)
  | 0, _ => none
  | k + 1, cursor => do
    let page ← endpoint cursor
    match page.nextCursor with
    | none => pure page.items
    | some next => (page.items ++ ·) <$> follow endpoint k next

/-- A request: the rows after the cursor, sorted and cut off at the limit. It fails where the cursor
does not decode. -/
def request {α β γ : Type*} (rows : List α) (limit : Nat) (decode : String → Option γ)
    (isAfter : γ → α → Bool) (le : α → α → Prop) [DecidableRel le] (encode : α → String)
    (render : α → Option β) (cursor : String) : Option (Page β) :=
  let found := if cursor = "" then some rows
    else (decode cursor).map fun c => rows.filter (isAfter c)
  found.map fun found =>
    let page := (found.insertionSort le).take limit
    { items := page.filterMap render
      nextCursor := if page.length = limit then page.getLast?.map encode else none }

section
variable {α β κ : Type*} [LinearOrder κ]

/-- The rows after a cursor in the order of the keys; nothing is before `⊥`. -/
def after (key : α → κ) (rows : List α) (c : WithBot κ) : List α :=
  ahead (fun x => (key x : WithBot κ)) rows c

/-- The page after a cursor. -/
def pageAfter (key : α → κ) (rows : List α) (limit : Nat) (encode : α → String)
    (render : α → Option β) (c : WithBot κ) : Page β :=
  let page := (after key rows c).take limit
  { items := page.filterMap render
    nextCursor := if page.length = limit then page.getLast?.map encode else none }

/-- The endpoint returns the page after its cursor, which is empty or that of a row. -/
structure Pages (endpoint : String → Option (Page β)) (key : α → κ) (rows : List α) (limit : Nat)
    (encode : α → String) (render : α → Option β) : Prop where
  first : endpoint "" = some (pageAfter key rows limit encode render ⊥)
  next : ∀ x ∈ rows, endpoint (encode x) = some (pageAfter key rows limit encode render (key x))

variable {key : α → κ} {rows : List α} {limit : Nat} {encode : α → String} {render : α → Option β}
  {endpoint : String → Option (Page β)}

theorem mem_after {c : WithBot κ} {x : α} : x ∈ after key rows c ↔ x ∈ rows ∧ c < key x := mem_ahead

/-- The rows without a cursor are all, in order. -/
theorem after_bot_perm : (after key rows ⊥).Perm rows := by
  have hall : rows.filter (fun x => (⊥ : WithBot κ) < (key x : WithBot κ)) = rows :=
    List.filter_eq_self.mpr fun x _ => by simp
  unfold after ahead
  rw [hall]
  exact List.perm_insertionSort _ _

theorem after_sorted (hk : (rows.map key).Nodup) (c : WithBot κ) :
    (after key rows c).Pairwise fun x y => key x < key y := by
  have hk' : (rows.map fun x => (key x : WithBot κ)).Nodup := by
    rw [show (fun x => (key x : WithBot κ)) = WithBot.some ∘ key from rfl, ← List.map_map]
    exact hk.map WithBot.coe_injective
  exact (ahead_sorted hk').imp fun h => WithBot.coe_lt_coe.mp h

/-- From any cursor, the pages hold what is after it. -/
theorem follow_after (h : Pages endpoint key rows limit encode render)
    (hk : (rows.map key).Nodup) (hl : 1 ≤ limit) {k : Nat} {cursor : String} {c : WithBot κ}
    (hc : endpoint cursor = some (pageAfter key rows limit encode render c))
    (hlen : (after key rows c).length < k) :
    follow endpoint k cursor = some ((after key rows c).filterMap render) := by
  have hk' : (rows.map fun x => (key x : WithBot κ)).Nodup := by
    rw [show (fun x => (key x : WithBot κ)) = WithBot.some ∘ key from rfl, ← List.map_map]
    exact hk.map WithBot.coe_injective
  induction k generalizing cursor c with
  | zero => exact absurd hlen (Nat.not_lt_zero _)
  | succ k ih =>
    rw [follow, hc, Option.bind_eq_bind, Option.bind_some]
    set page := (after key rows c).take limit with hpage
    have hpagelen : page.length = min limit (after key rows c).length := List.length_take
    by_cases hfull : page.length = limit
    · have hne : page ≠ [] := List.ne_nil_of_length_pos (by omega)
      have hx := List.getLast?_eq_some_getLast hne
      set x := page.getLast hne
      have hnext : (pageAfter key rows limit encode render c).nextCursor = some (encode x) := by
        unfold pageAfter
        dsimp only
        rw [← hpage, if_pos hfull, hx]
        rfl
      have hmem : x ∈ rows := (mem_after.mp (List.mem_of_mem_take (List.mem_of_getLast? hx))).1
      have hrest : after key rows (key x) = (after key rows c).drop limit := by
        have hkey : Cursor.next (fun x => (key x : WithBot κ)) c page = key x := by
          rw [Cursor.next, hx]
          rfl
        rw [← hkey]
        exact ahead_next hk'
      have hdrop : (after key rows (key x)).length < k := by
        rw [hrest, List.length_drop]
        omega
      rw [hnext]
      dsimp only
      rw [ih (h.next x hmem) hdrop, hrest]
      show some (page.filterMap render ++ _) = _
      rw [← List.filterMap_append, hpage, List.take_append_drop]
    · have hnext : (pageAfter key rows limit encode render c).nextCursor = none := by
        unfold pageAfter
        dsimp only
        rw [← hpage, if_neg hfull]
      have hall : page = after key rows c := by
        refine List.take_of_length_le ?_
        omega
      rw [hnext]
      show some (page.filterMap render) = _
      rw [hall]

/-- Every row is in one page, once, and in the order of the keys. -/
theorem follow_complete (h : Pages endpoint key rows limit encode render)
    (hk : (rows.map key).Nodup) (hl : 1 ≤ limit) {k : Nat} (hlen : rows.length < k) :
    follow endpoint k "" = some ((after key rows ⊥).filterMap render) :=
  follow_after h hk hl h.first (by rwa [after_bot_perm.length_eq])

/-- One element is before the other and not the other way round. -/
def Strictly (le : α → α → Prop) (x y : α) : Prop := le x y ∧ ¬ le y x

/-- Following the cursors returns each of the rows once, in the order. -/
def Lossless (endpoint : String → Option (Page β)) (rows : List β) (le : β → β → Prop) : Prop :=
  ∃ all, (∀ k, rows.length < k → follow endpoint k "" = some all) ∧ all.Perm rows ∧
    all.Pairwise (Strictly le)

theorem strictly_iff {le : α → α → Prop} (hle : ∀ x y, le x y ↔ key x ≤ key y) (x y : α) :
    Strictly le x y ↔ key x < key y := by
  rw [Strictly, hle, hle, lt_iff_le_not_ge]

section
variable {le : α → α → Prop} [DecidableRel le] {pred : α → Bool} {c : WithBot κ}

/-- The rows of a request, sorted by `ORDER BY`. -/
theorem insertionSort_eq_after (hle : ∀ x y, le x y ↔ key x ≤ key y)
    (hpred : ∀ x ∈ rows, pred x = true ↔ c < key x) :
    (rows.filter pred).insertionSort le = after key rows c := by
  have hrel : le = fun x y => (key x : WithBot κ) ≤ key y := by
    funext x y
    rw [WithBot.coe_le_coe, eq_iff_iff, hle]
  have hfilter : rows.filter pred = rows.filter fun x => c < (key x : WithBot κ) :=
    List.filter_congr fun x hx => by
      rw [Bool.eq_iff_iff, hpred x hx, decide_eq_true_eq]
  unfold after ahead
  rw [hfilter]
  subst hrel
  congr

theorem insertionSort_eq_bot (hle : ∀ x y, le x y ↔ key x ≤ key y) :
    rows.insertionSort le = after key rows ⊥ := by
  have hall : rows.filter (fun _ => true) = rows := List.filter_eq_self.mpr fun _ _ => rfl
  have hsorted : (rows.filter fun _ => true).insertionSort le = after key rows ⊥ :=
    insertionSort_eq_after hle fun x _ => by simp
  rw [← hsorted, hall]

/-- Requests whose condition on the cursor says what `ORDER BY` says. -/
theorem Pages.of_request {γ : Type*} {decode : String → Option γ} {isAfter : γ → α → Bool}
    (cursorOf : α → γ) (hle : ∀ x y, le x y ↔ key x ≤ key y)
    (hdecode : ∀ x, encode x ≠ "" ∧ decode (encode x) = some (cursorOf x))
    (hafter : ∀ x ∈ rows, ∀ y, isAfter (cursorOf x) y = true ↔ key x < key y) :
    Pages (request rows limit decode isAfter le encode render) key rows limit encode render := by
  refine ⟨?_, fun x hx => ?_⟩
  · rw [request, if_pos rfl, Option.map_some, insertionSort_eq_bot hle]
    rfl
  · obtain ⟨hne, hd⟩ := hdecode x
    rw [request, if_neg hne, hd, Option.map_some, Option.map_some,
      insertionSort_eq_after (c := (key x : WithBot κ)) hle fun y _ => by
        rw [hafter x hx y, WithBot.coe_lt_coe]]
    rfl

theorem Pages.lossless (before : β → β → Prop) (h : Pages endpoint key rows limit encode render)
    (hk : (rows.map key).Nodup) (hl : 1 ≤ limit)
    (hlen : rows.length ≤ (rows.filterMap render).length)
    (hbefore : ∀ x y, key x < key y → ∀ a ∈ render x, ∀ b ∈ render y, Strictly before a b) :
    Lossless endpoint (rows.filterMap render) before := by
  refine ⟨_, fun k hk' => follow_complete h hk hl (hlen.trans_lt hk'),
    after_bot_perm.filterMap render, ?_⟩
  exact (after_sorted hk ⊥).filterMap _ fun x y hxy a ha b hb => hbefore x y hxy a ha b hb

end

end

end MangaManager.Lib.Cursor
