import Mathlib.Algebra.Order.Ring.Unbundled.Rat

/-!
# `difflib.SequenceMatcher`

`SequenceMatcher.ratio a b` is `SequenceMatcher(None, a, b).ratio()`: twice the elements in the
matching blocks over all elements. The blocks are found greedily, the longest one first and
then those on its left and right; a frequent element of a long `b` starts none.
-/

namespace MangaManager.Lib.SequenceMatcher

variable {α : Type} [DecidableEq α] (a b : List α)

/-- A `Match`. -/
structure Block where
  i : Nat
  j : Nat
  size : Nat := 0
  deriving DecidableEq

/-- `b2j.get(x, nothing)`; popular elements are taken out by `__chain_b`. -/
def positions (x : α) : List Nat :=
  let indices := (List.range b.length).filter fun j => b[j]? = some x
  if 200 ≤ b.length ∧ b.length / 100 + 1 < indices.length then [] else indices

/-- `j2len.get(j - 1, 0)`. -/
def lengthBefore (j2len : List (Nat × Nat)) : Nat → Nat
  | 0 => 0
  | j + 1 => (j2len.lookup j).getD 0

/-- The inner loop of `find_longest_match`, for one element of `a`. -/
def scanRow (i : Nat) (js : List Nat) (best : Block) (j2len : List (Nat × Nat)) :
    Block × List (Nat × Nat) :=
  js.foldl (fun (best, newj2len) j =>
      let k := lengthBefore j2len j + 1
      (if best.size < k then ⟨i + 1 - k, j + 1 - k, k⟩ else best, (j, k) :: newj2len))
    (best, [])

/-- The outer loop. -/
def scanRows (alo ahi blo bhi : Nat) : Block :=
  ((List.range' alo (ahi - alo)).foldl (fun (best, j2len) i =>
      let js := (a[i]?.toList.flatMap (positions b)).filter fun j => blo ≤ j ∧ j < bhi
      scanRow i js best j2len)
    (⟨alo, blo, 0⟩, [])).1

/-- The block grows to the left while the elements agree. -/
def extendLeft (alo blo : Nat) : Nat → Block → Block
  | 0, m => m
  | fuel + 1, m =>
    if alo < m.i ∧ blo < m.j ∧ a[m.i - 1]? = b[m.j - 1]? then
      extendLeft alo blo fuel ⟨m.i - 1, m.j - 1, m.size + 1⟩
    else m

/-- And to the right. -/
def extendRight (ahi bhi : Nat) : Nat → Block → Block
  | 0, m => m
  | fuel + 1, m =>
    if m.i + m.size < ahi ∧ m.j + m.size < bhi ∧ a[m.i + m.size]? = b[m.j + m.size]? then
      extendRight ahi bhi fuel ⟨m.i, m.j, m.size + 1⟩
    else m

/-- `find_longest_match`, without junk. -/
def findLongestMatch (alo ahi blo bhi : Nat) : Block :=
  let best := scanRows a b alo ahi blo bhi
  extendRight a b ahi bhi ahi (extendLeft a b alo blo best.i best)

/-- The sizes of `get_matching_blocks`, summed. A block is not empty, so the ranges on its sides
have fewer elements of `a`, and as many turns as there are elements are enough. -/
def matchedWithin : Nat → Nat → Nat → Nat → Nat → Nat
  | 0, _, _, _, _ => 0
  | fuel + 1, alo, ahi, blo, bhi =>
    let m := findLongestMatch a b alo ahi blo bhi
    if m.size = 0 then 0
    else
      m.size +
        (if alo < m.i ∧ blo < m.j then matchedWithin fuel alo m.i blo m.j else 0) +
        if m.i + m.size < ahi ∧ m.j + m.size < bhi then
          matchedWithin fuel (m.i + m.size) ahi (m.j + m.size) bhi
        else 0

def matched : Nat := matchedWithin a b a.length 0 a.length 0 b.length

/-- `ratio`. -/
def ratio : Rat :=
  if a.length + b.length = 0 then 1 else mkRat (2 * matched a b) (a.length + b.length)

/-- The greedy choice depends on which side is scanned first. -/
example : ratio "tide".toList "diet".toList = mkRat 1 4 ∧
    ratio "diet".toList "tide".toList = mkRat 1 2 := by decide +kernel

end MangaManager.Lib.SequenceMatcher
