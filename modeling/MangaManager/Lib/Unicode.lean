import MangaManager.Lib.Text

/-!
# Letter case and words

`UnicodeData` are the tables of Unicode that `str.lower` and `\d` read, and `lower` is
`str.lower`: character by character, but for a capital sigma at the end of a word.
`Lawful` is what the tables say (`lower_foreign`: only the Kelvin sign has an ASCII letter as
its lower case). `splitWords` and `joinWords` are `str.split()` and `" ".join`.
-/

namespace MangaManager.Lib

/-- The decimal digit of a character, its lower case, and what a sigma is read with. -/
structure UnicodeData where
  digit : Char → Option Nat
  lowerChar : Char → List Char
  cased : Char → Bool
  caseIgnorable : Char → Bool

namespace UnicodeData

variable (u : UnicodeData)

/-- `handle_capital_sigma`; `before` are the characters in front of it, the last one first. -/
def isFinal (before after : List Char) : Bool :=
  (before.dropWhile u.caseIgnorable).head?.any u.cased &&
    !(after.dropWhile u.caseIgnorable).head?.any u.cased

def lowerFrom (before : List Char) : List Char → List Char
  | [] => []
  | c :: cs =>
    (if c = 'Σ' then [if u.isFinal before cs then 'ς' else 'σ'] else u.lowerChar c) ++
      lowerFrom (c :: before) cs

/-- `str.lower`. -/
def lower (cs : List Char) : List Char := u.lowerFrom [] cs

/-- `\d`. -/
def isDecimal (c : Char) : Bool := (u.digit c).isSome

/-- What the tables say. -/
structure Lawful : Prop where
  digit_ascii : ∀ c, c.toNat < 128 → u.digit c = if c.isDigit then some (c.toNat - 48) else none
  sigma : ∀ c ∈ ['σ', 'ς'], u.digit c = none ∧ u.lowerChar c = [c]
  lower_ascii : ∀ c, c.toNat < 128 → u.lowerChar c = [c.toLower]
  lower_space : ∀ c, isSpace c = true → u.lowerChar c = [c]
  lower_word : ∀ c, isSpace c = false →
    u.lowerChar c ≠ [] ∧ ∀ d ∈ u.lowerChar c, isSpace d = false
  lower_digit : ∀ c, u.digit c = none → ∀ d ∈ u.lowerChar c, u.digit d = none
  lower_fixed : ∀ c, ∀ d ∈ u.lowerChar c, u.lowerChar d = [d] ∧ d ≠ 'Σ'
  lower_foreign : ∀ c, 128 ≤ c.toNat → ∃ d ∈ u.lowerChar c, 128 ≤ d.toNat ∨ d = 'k'

/-- What `lower` makes of a character. -/
def IsPiece (c : Char) (piece : List Char) : Prop :=
  piece = u.lowerChar c ∨ (c = 'Σ' ∧ (piece = ['σ'] ∨ piece = ['ς']))

variable {u} {c d : Char} {cs piece before : List Char}

theorem lowerFrom_cons (before : List Char) (c : Char) (cs : List Char) : ∃ piece,
    u.IsPiece c piece ∧ u.lowerFrom before (c :: cs) = piece ++ u.lowerFrom (c :: before) cs := by
  refine ⟨_, ?_, rfl⟩
  split
  · rename_i hc
    refine .inr ⟨hc, ?_⟩
    split
    · exact .inr rfl
    · exact .inl rfl
  · exact .inl rfl

/-- A character of the lower case is one of a character's. -/
theorem exists_of_mem_lowerFrom (h : d ∈ u.lowerFrom before cs) :
    ∃ c ∈ cs, ∃ piece, u.IsPiece c piece ∧ d ∈ piece := by
  induction cs generalizing before with
  | nil => cases h
  | cons c cs ih =>
    obtain ⟨piece, hp, he⟩ := lowerFrom_cons (u := u) before c cs
    rw [he] at h
    rcases List.mem_append.mp h with h | h
    · exact ⟨c, List.mem_cons_self, piece, hp, h⟩
    · obtain ⟨x, hx, hrest⟩ := ih h
      exact ⟨x, List.mem_cons_of_mem _ hx, hrest⟩

/-- The lower case of the first part has that of all its characters. -/
theorem lowerFrom_append (before xs ys : List Char) : ∃ front,
    u.lowerFrom before (xs ++ ys) = front ++ u.lowerFrom (xs.reverse ++ before) ys ∧
      ∀ x ∈ xs, ∃ piece, u.IsPiece x piece ∧ ∀ d ∈ piece, d ∈ front := by
  induction xs generalizing before with
  | nil => exact ⟨[], rfl, fun x hx => by cases hx⟩
  | cons c xs ih =>
    obtain ⟨front, he, hfront⟩ := ih (c :: before)
    obtain ⟨piece, hpiece, hcons⟩ := lowerFrom_cons (u := u) before c (xs ++ ys)
    refine ⟨piece ++ front, ?_, fun x hx => ?_⟩
    · rw [List.cons_append, hcons, he, List.reverse_cons, List.append_assoc, List.append_assoc]
      rfl
    · rcases List.mem_cons.mp hx with rfl | hx
      · exact ⟨piece, hpiece, fun d hd => List.mem_append_left _ hd⟩
      · obtain ⟨piece', hp, hall⟩ := hfront x hx
        exact ⟨piece', hp, fun d hd => List.mem_append_right _ (hall d hd)⟩

theorem exists_piece_of_mem (h : c ∈ cs) :
    ∃ piece, u.IsPiece c piece ∧ ∀ d ∈ piece, d ∈ u.lowerFrom before cs := by
  obtain ⟨front, he, hfront⟩ := lowerFrom_append (u := u) before cs []
  obtain ⟨piece, hp, hall⟩ := hfront c h
  refine ⟨piece, hp, fun d hd => ?_⟩
  rw [← List.append_nil cs, he]
  exact List.mem_append_left _ (hall d hd)

namespace Lawful

variable (h : u.Lawful)

/-- A sigma is no space, no digit and no ASCII letter, and its own lower case. -/
theorem isPiece_iff_sigma {P : Char → Prop} (hp : u.IsPiece c piece)
    (hchar : ∀ d ∈ u.lowerChar c, P d) (hsigma : c = 'Σ' → P 'σ' ∧ P 'ς') : ∀ d ∈ piece, P d := by
  rcases hp with rfl | ⟨hc, rfl | rfl⟩
  · exact hchar
  · intro d hd
    obtain rfl := List.mem_singleton.mp hd
    exact (hsigma hc).1
  · intro d hd
    obtain rfl := List.mem_singleton.mp hd
    exact (hsigma hc).2

include h

theorem piece_digit (hp : u.IsPiece c piece) (hc : u.digit c = none) :
    ∀ d ∈ piece, u.digit d = none :=
  isPiece_iff_sigma hp (h.lower_digit c hc) fun _ =>
    ⟨(h.sigma 'σ' (by decide)).1, (h.sigma 'ς' (by decide)).1⟩

theorem piece_fixed (hp : u.IsPiece c piece) : ∀ d ∈ piece, u.lowerChar d = [d] ∧ d ≠ 'Σ' :=
  isPiece_iff_sigma hp (h.lower_fixed c) fun _ =>
    ⟨⟨(h.sigma 'σ' (by decide)).2, by decide⟩, (h.sigma 'ς' (by decide)).2, by decide⟩

theorem piece_word (hp : u.IsPiece c piece) (hc : isSpace c = false) :
    piece ≠ [] ∧ ∀ d ∈ piece, isSpace d = false := by
  refine ⟨?_, isPiece_iff_sigma hp (h.lower_word c hc).2 fun _ => ⟨by decide, by decide⟩⟩
  rcases hp with rfl | ⟨-, rfl | rfl⟩
  · exact (h.lower_word c hc).1
  · exact List.cons_ne_nil _ _
  · exact List.cons_ne_nil _ _

theorem piece_ascii (hp : u.IsPiece c piece) (hc : c.toNat < 128) : piece = [c.toLower] := by
  rcases hp with rfl | ⟨rfl, -⟩
  · exact h.lower_ascii c hc
  · exact absurd hc (by decide)

theorem piece_space (hp : u.IsPiece c piece) (hc : isSpace c = true) : piece = [c] := by
  rcases hp with rfl | ⟨rfl, -⟩
  · exact h.lower_space c hc
  · exact absurd hc (by decide)

theorem piece_foreign (hp : u.IsPiece c piece) (hc : 128 ≤ c.toNat) :
    ∃ d ∈ piece, 128 ≤ d.toNat ∨ d = 'k' := by
  rcases hp with rfl | ⟨-, rfl | rfl⟩
  · exact h.lower_foreign c hc
  · exact ⟨'σ', by decide, by decide⟩
  · exact ⟨'ς', by decide, by decide⟩

omit h in
/-- Lower case changes nothing where every character is its own lower case. -/
theorem lower_eq_self (hcs : ∀ d ∈ cs, u.lowerChar d = [d] ∧ d ≠ 'Σ') : u.lower cs = cs := by
  have hgen : ∀ before, u.lowerFrom before cs = cs := by
    induction cs with
    | nil => exact fun _ => rfl
    | cons c cs ih =>
      intro before
      obtain ⟨hc, hne⟩ := hcs c List.mem_cons_self
      rw [lowerFrom, if_neg hne, hc, ih fun d hd => hcs d (List.mem_cons_of_mem _ hd)]
      rfl
  exact hgen []

/-- Lower case of ASCII text. -/
theorem lower_eq_map (hcs : ∀ c ∈ cs, c.toNat < 128) : u.lower cs = cs.map Char.toLower := by
  have hgen : ∀ before, u.lowerFrom before cs = cs.map Char.toLower := by
    induction cs with
    | nil => exact fun _ => rfl
    | cons c cs ih =>
      intro before
      obtain ⟨piece, hp, he⟩ := lowerFrom_cons (u := u) before c cs
      rw [he, h.piece_ascii hp (hcs c List.mem_cons_self),
        ih fun d hd => hcs d (List.mem_cons_of_mem _ hd)]
      rfl
  exact hgen []

/-- Words around a space stay words around it. -/
theorem lower_append (xs ys : List Char) (hc : isSpace c = true)
    (hxs : ∃ x ∈ xs, isSpace x = false) (hys : ∃ y ∈ ys, isSpace y = false) : ∃ xs' ys',
    u.lower (xs ++ c :: ys) = xs' ++ c :: ys' ∧ (∃ x ∈ xs', isSpace x = false) ∧
      ∃ y ∈ ys', isSpace y = false := by
  have hword : ∀ {x piece}, u.IsPiece x piece → isSpace x = false →
      ∃ d ∈ piece, isSpace d = false := fun hp hx => by
    obtain ⟨hne, hall⟩ := h.piece_word hp hx
    obtain ⟨d, hd⟩ := List.exists_mem_of_ne_nil _ hne
    exact ⟨d, hd, hall d hd⟩
  obtain ⟨front, he, hfront⟩ := lowerFrom_append (u := u) [] xs (c :: ys)
  obtain ⟨piece, hp, hcons⟩ := lowerFrom_cons (u := u) (xs.reverse ++ []) c ys
  refine ⟨front, u.lowerFrom (c :: (xs.reverse ++ [])) ys, ?_, ?_, ?_⟩
  · rw [lower, he, hcons, h.piece_space hp hc]
    rfl
  · obtain ⟨x, hx, hxs⟩ := hxs
    obtain ⟨piece, hp, hall⟩ := hfront x hx
    obtain ⟨d, hd, hds⟩ := hword hp hxs
    exact ⟨d, hall d hd, hds⟩
  · obtain ⟨y, hy, hys⟩ := hys
    obtain ⟨piece, hp, hall⟩ := exists_piece_of_mem (u := u) hy
    obtain ⟨d, hd, hds⟩ := hword hp hys
    exact ⟨d, hall d hd, hds⟩

end Lawful

end UnicodeData

/-! ## Words -/

/-- `text.split()`. -/
def splitWords (cs : List Char) : List (List Char) := (cs.splitOnP isSpace).filter (!·.isEmpty)

/-- `" ".join(words)`. -/
def joinWords (words : List (List Char)) : List Char := [' '].intercalate words

section
variable {c : Char} {cs xs ys w : List Char} {ws : List (List Char)}

theorem splitWords_append (hc : isSpace c = true) :
    splitWords (xs ++ c :: ys) = splitWords xs ++ splitWords ys := by
  rw [splitWords, List.splitOnP_append_cons xs ys hc, List.filter_append]
  rfl

theorem splitWords_word (hw : ∀ c ∈ w, isSpace c = false) (hne : w ≠ []) : splitWords w = [w] := by
  rw [splitWords, List.splitOnP_eq_singleton hw, List.filter_cons_of_pos (by simpa using hne),
    List.filter_nil]

/-- The words of a text have no spaces, and what is no space is in one of them. -/
theorem splitWords_spec (cs : List Char) :
    (∀ w ∈ splitWords cs, w ≠ [] ∧ ∀ c ∈ w, c ∈ cs ∧ isSpace c = false) ∧
      ∀ c ∈ cs, isSpace c = false → ∃ w ∈ splitWords cs, c ∈ w := by
  induction hn : cs.length using Nat.strongRecOn generalizing cs with
  | ind n ih =>
  by_cases hall : ∀ c ∈ cs, isSpace c = false
  · by_cases hne : cs = []
    · subst hne
      exact ⟨fun w hw => (by cases hw), fun c hc => (by cases hc)⟩
    · rw [splitWords_word hall hne]
      refine ⟨fun w hw => ?_, fun c hc _ => ⟨cs, List.mem_singleton_self _, hc⟩⟩
      obtain rfl := List.mem_singleton.mp hw
      exact ⟨hne, fun c hc => ⟨hc, hall c hc⟩⟩
  · push Not at hall
    obtain ⟨c, hc, hspace⟩ := hall
    have hspace : isSpace c = true := by simpa using hspace
    obtain ⟨xs, ys, rfl⟩ := List.append_of_mem hc
    rw [List.length_append, List.length_cons] at hn
    obtain ⟨hxs, hxs'⟩ := ih xs.length (by omega) xs rfl
    obtain ⟨hys, hys'⟩ := ih ys.length (by omega) ys rfl
    rw [splitWords_append hspace]
    refine ⟨fun w hw => ?_, fun d hd hds => ?_⟩
    · rcases List.mem_append.mp hw with hw | hw
      · refine ⟨(hxs w hw).1, fun d hd => ⟨?_, ((hxs w hw).2 d hd).2⟩⟩
        exact List.mem_append_left _ ((hxs w hw).2 d hd).1
      · refine ⟨(hys w hw).1, fun d hd => ⟨?_, ((hys w hw).2 d hd).2⟩⟩
        exact List.mem_append_right _ (List.mem_cons_of_mem _ ((hys w hw).2 d hd).1)
    · rcases List.mem_append.mp hd with hd | hd
      · obtain ⟨w, hw, hdw⟩ := hxs' d hd hds
        exact ⟨w, List.mem_append_left _ hw, hdw⟩
      · rcases List.mem_cons.mp hd with rfl | hd
        · rw [hspace] at hds
          cases hds
        · obtain ⟨w, hw, hdw⟩ := hys' d hd hds
          exact ⟨w, List.mem_append_right _ hw, hdw⟩

theorem joinWords_cons (w : List Char) (hne : ws ≠ []) :
    joinWords (w :: ws) = w ++ ' ' :: joinWords ws := by
  rw [joinWords, List.intercalate_cons_of_ne_nil hne]
  simp [joinWords]

theorem mem_joinWords (hw : w ∈ ws) (hc : c ∈ w) : c ∈ joinWords ws := by
  induction ws with
  | nil => cases hw
  | cons v ws ih =>
    by_cases hne : ws = []
    · subst hne
      obtain rfl := List.mem_singleton.mp hw
      simpa [joinWords] using hc
    · rw [joinWords_cons v hne, List.mem_append, List.mem_cons]
      rcases List.mem_cons.mp hw with rfl | hw
      · exact .inl hc
      · exact .inr (.inr (ih hw))

theorem of_mem_joinWords (h : c ∈ joinWords ws) : c = ' ' ∨ ∃ w ∈ ws, c ∈ w := by
  induction ws with
  | nil => cases h
  | cons v ws ih =>
    by_cases hne : ws = []
    · subst hne
      exact .inr ⟨v, List.mem_singleton_self _, by simpa [joinWords] using h⟩
    · rw [joinWords_cons v hne, List.mem_append, List.mem_cons] at h
      rcases h with h | h | h
      · exact .inr ⟨v, List.mem_cons_self, h⟩
      · exact .inl h
      · exact (ih h).imp_right fun ⟨w, hw, hcw⟩ => ⟨w, List.mem_cons_of_mem _ hw, hcw⟩

/-- Joined words are split again. -/
theorem splitWords_joinWords (h : ∀ w ∈ ws, w ≠ [] ∧ ∀ c ∈ w, isSpace c = false) :
    splitWords (joinWords ws) = ws := by
  induction ws with
  | nil => rfl
  | cons w ws ih =>
    obtain ⟨hne, hw⟩ := h w List.mem_cons_self
    have hws := ih fun v hv => h v (List.mem_cons_of_mem _ hv)
    by_cases hnil : ws = []
    · subst hnil
      rw [joinWords, List.intercalate_singleton]
      exact splitWords_word hw hne
    · rw [joinWords_cons w hnil, splitWords_append (by decide), splitWords_word hw hne, hws]
      rfl

/-- Text that neither starts nor ends with a space. -/
theorem stripChars_eq_self (hfirst : ∀ c ∈ cs.head?, isSpace c = false)
    (hlast : ∀ c ∈ cs.getLast?, isSpace c = false) : stripChars cs = cs := by
  have hd : cs.dropWhile isSpace = cs := by
    cases cs with
    | nil => rfl
    | cons c cs => rw [List.dropWhile_cons_of_neg (by simp [hfirst c rfl])]
  rw [stripChars, hd, List.rdropWhile_eq_self_iff]
  intro hne
  simp [hlast _ (List.getLast?_eq_some_getLast hne)]

/-- What `strip` leaves neither starts nor ends with a space. -/
theorem stripChars_spec (cs : List Char) :
    (∀ c ∈ (stripChars cs).head?, isSpace c = false) ∧
      (∀ c ∈ (stripChars cs).getLast?, isSpace c = false) ∧ ∀ c ∈ stripChars cs, c ∈ cs := by
  have hinit : stripChars cs <+: cs.dropWhile isSpace := List.rdropWhile_prefix isSpace _
  refine ⟨fun c hc => ?_, fun c hc => ?_, fun c hc => ?_⟩
  · cases hs : stripChars cs with
    | nil =>
      rw [hs] at hc
      cases hc
    | cons x xs =>
      rw [hs] at hc hinit
      obtain rfl : x = c := Option.some.inj hc
      obtain ⟨ys, hys⟩ := hinit
      have hne : cs.dropWhile isSpace ≠ [] := by simp [← hys]
      have hhead := List.head_dropWhile_not isSpace hne
      simpa [← hys] using hhead
  · have hne : stripChars cs ≠ [] := List.ne_nil_of_mem (List.mem_of_getLast? hc)
    rw [List.getLast?_eq_some_getLast hne] at hc
    have hlast := List.rdropWhile_last_not isSpace (cs.dropWhile isSpace) hne
    exact Option.some.inj hc ▸ Bool.eq_false_iff.mpr hlast
  · exact (List.dropWhile_suffix isSpace).subset (hinit.subset hc)

theorem stripChars_joinWords (h : ∀ w ∈ ws, w ≠ [] ∧ ∀ c ∈ w, isSpace c = false) :
    stripChars (joinWords ws) = joinWords ws := by
  refine stripChars_eq_self ?_ ?_
  · cases ws with
    | nil => exact fun c hc => by cases hc
    | cons w ws =>
      obtain ⟨hne, hw⟩ := h w List.mem_cons_self
      obtain ⟨x, xs, rfl⟩ := List.exists_cons_of_ne_nil hne
      have hhead : (joinWords ((x :: xs) :: ws)).head? = some x := by
        by_cases hnil : ws = []
        · subst hnil
          rfl
        · rw [joinWords_cons _ hnil]
          rfl
      intro c hc
      rw [hhead] at hc
      exact Option.some.inj hc ▸ hw x List.mem_cons_self
  · induction ws with
    | nil => exact fun c hc => by cases hc
    | cons w ws ih =>
      intro c hc
      by_cases hnil : ws = []
      · subst hnil
        rw [joinWords, List.intercalate_singleton] at hc
        exact (h w List.mem_cons_self).2 c (List.mem_of_getLast? hc)
      · rw [joinWords_cons w hnil, List.getLast?_append, List.getLast?_cons] at hc
        have hws := fun v hv => h v (List.mem_cons_of_mem _ hv)
        -- the words that follow are not empty
        have hne : joinWords ws ≠ [] := by
          obtain ⟨v, hv⟩ := List.exists_mem_of_ne_nil _ hnil
          obtain ⟨x, hx⟩ := List.exists_mem_of_ne_nil _ (hws v hv).1
          exact List.ne_nil_of_mem (mem_joinWords hv hx)
        rw [List.getLast?_eq_some_getLast hne] at hc
        refine ih hws c ?_
        rw [List.getLast?_eq_some_getLast hne]
        simpa using hc

end

/-! ## ASCII letters in a decimal -/

theorem toLower_cases (c : Char) : c.toLower = c ∨
    (65 ≤ c.toNat ∧ c.toNat ≤ 90 ∧ c.toLower.toNat = c.toNat + 32) := by
  by_cases h : c.val ≥ 'A'.val ∧ c.val ≤ 'Z'.val
  · right
    have hlow : 65 ≤ c.toNat := h.1
    have hhigh : c.toNat ≤ 90 := h.2
    refine ⟨hlow, hhigh, ?_⟩
    have hval : c.toLower.val = c.val + 32 := by
      unfold Char.toLower
      rw [dif_pos h]
      rfl
    show c.toLower.val.toNat = _
    rw [hval, UInt32.toNat_add]
    show (c.toNat + 32) % 4294967296 = c.toNat + 32
    omega
  · left
    unfold Char.toLower
    rw [dif_neg h]

/-- A character that is no letter comes from itself. -/
theorem toLower_eq_iff {c d : Char}
    (hd : d.toNat < 65 ∨ (90 < d.toNat ∧ d.toNat < 97) ∨ 122 < d.toNat) :
    c.toLower = d ↔ c = d := by
  rcases toLower_cases c with h | ⟨hlow, hhigh, h⟩
  · rw [h]
  · constructor
    · rintro rfl
      omega
    · rintro rfl
      omega

theorem toLower_of_isSpace {c : Char} (h : isSpace c = true) : c.toLower = c := by
  rcases toLower_cases c with h' | ⟨hlow, hhigh, -⟩
  · exact h'
  · simp only [isSpace, Bool.or_eq_true, Bool.and_eq_true, decide_eq_true_eq, beq_iff_eq] at h
    omega

theorem isSpace_toLower {c : Char} (h : isSpace c = false) : isSpace c.toLower = false := by
  rcases toLower_cases c with h' | ⟨hlow, hhigh, h'⟩
  · rw [h', h]
  · simp only [isSpace, Bool.or_eq_false_iff, Bool.and_eq_false_iff, decide_eq_false_iff_not,
      beq_eq_false_iff_ne, ne_eq]
    omega

theorem toLower_toLower (c : Char) : c.toLower.toLower = c.toLower := by
  rcases toLower_cases c with h | ⟨hlow, hhigh, h⟩
  · rw [h, h]
  · rcases toLower_cases c.toLower with h' | ⟨hlow', hhigh', -⟩
    · exact h'
    · omega

theorem isDigit_iff {c : Char} : c.isDigit = true ↔ 48 ≤ c.toNat ∧ c.toNat ≤ 57 := by
  simp only [Char.isDigit, Bool.and_eq_true, decide_eq_true_eq]
  exact Iff.rfl

theorem isDigit_toLower (c : Char) : c.toLower.isDigit = c.isDigit := by
  rw [Bool.eq_iff_iff, isDigit_iff, isDigit_iff]
  rcases toLower_cases c with h | ⟨hlow, hhigh, h⟩
  · rw [h]
  · omega

/-- `Decimal` after its spaces, underscores and sign. -/
def readDecimal (p : Bool × List Char) : Option Dec :=
  let word := p.2.map Char.toLower
  if word = "inf".toList ∨ word = "infinity".toList then some (.infinite p.1)
  else if (word.take 3 = "nan".toList ∧ (word.drop 3).all Char.isDigit) ∨
      (word.take 4 = "snan".toList ∧ (word.drop 4).all Char.isDigit) then some .nan
  else parseNumeral p.1 p.2

def spelled (cs : List Char) : Option Dec := readDecimal (splitSign (cs.filter (· != '_')))

theorem parseDecimal_eq (s : String) : parseDecimal s = spelled (stripChars s.toList) := rfl

section
variable {cs : List Char} {c : Char} {neg : Bool}

/-- A numeral has a digit. -/
theorem parseNumeral_eq_none (h : ∀ c ∈ cs, c.isDigit = false) : parseNumeral neg cs = none := by
  have htake : ∀ {l : List Char}, (∀ c ∈ l, c.isDigit = false) → l.takeWhile Char.isDigit = [] := by
    intro l hl
    cases l with
    | nil => rfl
    | cons x xs => exact List.takeWhile_cons_of_neg (by simp [hl x List.mem_cons_self])
  have hdrop : cs.dropWhile Char.isDigit = cs := by
    cases cs with
    | nil => rfl
    | cons x xs => exact List.dropWhile_cons_of_neg (by simp [h x List.mem_cons_self])
  unfold parseNumeral
  rw [htake h, hdrop]
  cases cs with
  | nil => rfl
  | cons x xs =>
    by_cases hx : x = '.'
    · subst hx
      simp [htake fun c hc => h c (List.mem_cons_of_mem _ hc)]
    · simp [hx]

theorem splitSign_mem (h : c ∈ cs) (hsign : c ≠ '+' ∧ c ≠ '-') : c ∈ (splitSign cs).2 := by
  cases cs with
  | nil => cases h
  | cons x xs =>
    unfold splitSign
    split
    · rename_i heq
      cases heq
      exact (List.mem_cons.mp h).resolve_left hsign.2
    · rename_i heq
      cases heq
      exact (List.mem_cons.mp h).resolve_left hsign.1
    · exact h

theorem splitSign_subset : ∀ c ∈ (splitSign cs).2, c ∈ cs := by
  unfold splitSign
  split
  · exact fun c hc => List.mem_cons_of_mem _ hc
  · exact fun c hc => List.mem_cons_of_mem _ hc
  · exact fun c hc => hc

theorem splitSign_map (cs : List Char) : splitSign (cs.map Char.toLower) =
    ((splitSign cs).1, (splitSign cs).2.map Char.toLower) := by
  cases cs with
  | nil => rfl
  | cons x xs =>
    by_cases hminus : x = '-'
    · subst hminus
      rfl
    · by_cases hplus : x = '+'
      · subst hplus
        rfl
      · have hminus' : x.toLower ≠ '-' := fun h => hminus ((toLower_eq_iff (by decide)).mp h)
        have hplus' : x.toLower ≠ '+' := fun h => hplus ((toLower_eq_iff (by decide)).mp h)
        rw [List.map_cons]
        simp [splitSign, hminus, hplus, hminus', hplus']

/-- Case does not matter. -/
theorem spelled_map (h : ∀ c ∈ cs, c.isDigit = false) :
    spelled (cs.map Char.toLower) = spelled cs := by
  have hfilter : (cs.map Char.toLower).filter (· != '_') =
      (cs.filter (· != '_')).map Char.toLower := by
    rw [List.filter_map]
    refine congrArg _ (List.filter_congr fun c _ => ?_)
    rw [Function.comp, Bool.eq_iff_iff, bne_iff_ne, bne_iff_ne, Ne, Ne,
      toLower_eq_iff (by decide)]
  have hrest : ∀ c ∈ (splitSign (cs.filter (· != '_'))).2, c.isDigit = false := fun c hc =>
    h c (List.mem_filter.mp (splitSign_subset c hc)).1
  rw [spelled, hfilter, splitSign_map, spelled, readDecimal, readDecimal, List.map_map]
  have hword : Char.toLower ∘ Char.toLower = Char.toLower := funext toLower_toLower
  simp only [hword]
  rw [parseNumeral_eq_none hrest, parseNumeral_eq_none]
  intro c hc
  obtain ⟨d, hd, rfl⟩ := List.mem_map.mp hc
  rw [isDigit_toLower]
  exact hrest d hd

/-- The characters of the words for a number that are no digits, and what can stand among them. -/
def isSpelling (c : Char) : Bool := "inftyas+-_".toList.contains c

theorem isSpelling_eq_false (h : 128 ≤ c.toNat ∨ isSpace c = true ∨ c = 'k') :
    isSpelling c = false := by
  refine Bool.eq_false_iff.mpr fun hs => ?_
  have hmem : c ∈ "inftyas+-_".toList := List.contains_iff_mem.mp hs
  rcases h with h | h | rfl
  · have hall : ("inftyas+-_".toList.all fun d => decide (d.toNat < 128)) = true := by decide
    have hlt := of_decide_eq_true (List.all_eq_true.mp hall c hmem)
    omega
  · have hall : ("inftyas+-_".toList.all fun d => !isSpace d) = true := by decide
    have hspace := List.all_eq_true.mp hall c hmem
    rw [h] at hspace
    cases hspace
  · exact absurd hs (by decide)

/-- A text with another character is no word for a number. -/
theorem spelled_eq_none (h : ∀ c ∈ cs, c.isDigit = false) (hc : c ∈ cs)
    (hforeign : 128 ≤ c.toNat ∨ isSpace c = true ∨ c = 'k') : spelled cs = none := by
  have hself : c.toLower = c := by
    rcases hforeign with hf | hf | rfl
    · rcases toLower_cases c with h' | ⟨-, hhigh, -⟩
      · exact h'
      · omega
    · exact toLower_of_isSpace hf
    · rfl
  have hno : isSpelling c = false := isSpelling_eq_false hforeign
  have hne : ∀ d, isSpelling d = true → c ≠ d := fun d hd he => by
    rw [he, hd] at hno
    cases hno
  have hkept : c ∈ cs.filter (· != '_') :=
    List.mem_filter.mpr ⟨hc, bne_iff_ne.mpr (hne '_' (by decide))⟩
  have hmem : c ∈ (splitSign (cs.filter (· != '_'))).2 :=
    splitSign_mem hkept ⟨hne '+' (by decide), hne '-' (by decide)⟩
  have hrest : ∀ c ∈ (splitSign (cs.filter (· != '_'))).2, c.isDigit = false := fun c hc =>
    h c (List.mem_filter.mp (splitSign_subset c hc)).1
  rw [spelled, readDecimal]
  generalize splitSign (cs.filter (· != '_')) = p at hmem hrest
  have hword : c ∈ p.2.map Char.toLower := List.mem_map.mpr ⟨c, hmem, hself⟩
  have hnot : ∀ letters : List Char, letters.all isSpelling = true → c ∉ letters :=
    fun letters hall hin => hne c (List.all_eq_true.mp hall c hin) rfl
  -- neither a word, nor a NaN with digits after it
  have htail : ∀ (n : Nat) (letters : List Char), letters.all isSpelling = true →
      ¬ ((p.2.map Char.toLower).take n = letters ∧
        ((p.2.map Char.toLower).drop n).all Char.isDigit = true) := by
    rintro n letters hall ⟨htake, hdigits⟩
    rw [← List.take_append_drop n (p.2.map Char.toLower), htake] at hword
    rcases List.mem_append.mp hword with hw | hw
    · exact hnot letters hall hw
    · have hdigit := List.all_eq_true.mp hdigits c hw
      rw [hrest c hmem] at hdigit
      cases hdigit
  rw [if_neg (not_or.mpr ⟨fun he => hnot _ (by decide) (he ▸ hword),
      fun he => hnot _ (by decide) (he ▸ hword)⟩),
    if_neg (not_or.mpr ⟨htail 3 _ (by decide), htail 4 _ (by decide)⟩)]
  exact parseNumeral_eq_none hrest

end

end MangaManager.Lib
