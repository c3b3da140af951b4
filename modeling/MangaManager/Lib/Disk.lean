import Mathlib.Data.List.Basic
import Mathlib.Logic.Function.Basic

/-!
# Names and files

A disk as a program sees it: names lead to inodes, `link` gives an inode a second name, `replace`
puts one name in the place of another in one step, and a writer goes on writing to the inode that
it opened, whatever becomes of its names. `create` is `open(name, "wb")`: a file that is there is
emptied, under all its names.

`Keeps`: the inodes outside of a set are left as they are, which is what holds of every operation
but writing and emptying. `Keeps.trans` and `Keeps.file?` carry it along.
-/

namespace MangaManager.Lib

structure Disk (P β : Type*) where
  inode : P → Option Nat := fun _ => none
  data : Nat → List β := fun _ => []
  next : Nat := 0

namespace Disk

variable {P β : Type*}

/-- What the file of a name holds. -/
def file? (d : Disk P β) (p : P) : Option (List β) := (d.inode p).map d.data

def append (d : Disk P β) (i : Nat) (bytes : List β) : Disk P β :=
  { d with data := Function.update d.data i (d.data i ++ bytes) }

/-- The inodes that were there, and are not in `H`, are as they were. -/
structure Keeps (H : Nat → Prop) (d d' : Disk P β) : Prop where
  next : d.next ≤ d'.next
  data : ∀ i < d.next, ¬ H i → d'.data i = d.data i

section
variable {d d' d'' : Disk P β} {p : P} {H : Nat → Prop}

theorem file?_some {b : List β} : d.file? p = some b ↔ ∃ i, d.inode p = some i ∧ d.data i = b := by
  unfold file?
  rw [Option.map_eq_some_iff]

theorem Keeps.refl : Keeps H d d := ⟨Nat.le_refl _, fun _ _ _ => rfl⟩

theorem Keeps.trans (h : Keeps H d d') (h' : Keeps H d' d'') : Keeps H d d'' :=
  ⟨Nat.le_trans h.next h'.next, fun i hi hH => by
    rw [h'.data i (Nat.lt_of_lt_of_le hi h.next) hH, h.data i hi hH]⟩

theorem append_keeps (i : Nat) (bytes : List β) : Keeps (· = i) d (d.append i bytes) :=
  ⟨Nat.le_refl _, fun _ _ h => Function.update_of_ne h _ _⟩

end

variable [DecidableEq P] (d : Disk P β)

/-- `open(p, "wb")`: the inode that is written. -/
def create (p : P) : Disk P β × Nat :=
  match d.inode p with
  | some i => ({ d with data := Function.update d.data i [] }, i)
  | none =>
    ({ inode := Function.update d.inode p (some d.next)
       data := Function.update d.data d.next []
       next := d.next + 1 }, d.next)

/-- `os.link`. -/
def link (p q : P) : Option (Disk P β) :=
  match d.inode p, d.inode q with
  | some i, none => some { d with inode := Function.update d.inode q (some i) }
  | _, _ => none

/-- `os.replace`: two names of one inode are left as they are. -/
def replace (p q : P) : Option (Disk P β) :=
  match d.inode p with
  | none => none
  | some i => if d.inode q = some i then some d
    else some { d with
      inode := Function.update (Function.update d.inode q (some i)) p none }

/-- `unlink(missing_ok=True)`. -/
def unlink (p : P) : Disk P β := { d with inode := Function.update d.inode p none }

variable {d} {d' : Disk P β} {p q x : P} {i j : Nat} {H : Nat → Prop}

theorem update_some {f : P → Option Nat} {v : Option Nat} (h : Function.update f q v x = some i) :
    f x = some i ∨ x = q ∧ v = some i := by
  by_cases hx : x = q
  · subst hx
    rw [Function.update_self] at h
    exact .inr ⟨rfl, h⟩
  · rw [Function.update_of_ne hx] at h
    exact .inl h

theorem create_new (h : d.inode p = none) : (d.create p).2 = d.next ∧
    (d.create p).1.next = d.next + 1 ∧ (d.create p).1.data d.next = [] ∧
    Keeps H d (d.create p).1 ∧
    ∀ x j, (d.create p).1.inode x = some j → d.inode x = some j ∨ x = p ∧ j = d.next := by
  unfold create
  rw [h]
  refine ⟨rfl, rfl, Function.update_self _ _ _, ⟨Nat.le_succ _, fun i hi _ =>
    Function.update_of_ne (Nat.ne_of_lt hi) _ _⟩, fun x j hx => ?_⟩
  exact (update_some hx).imp_right fun h => ⟨h.1, (Option.some.inj h.2).symm⟩

/-- After `link` a name is as it was, or is the new one. -/
theorem link_some (h : d.link p q = some d') : ∃ i, d.inode p = some i ∧ d'.data = d.data ∧
    d'.next = d.next ∧ ∀ x j, d'.inode x = some j → d.inode x = some j ∨ x = q ∧ j = i := by
  unfold link at h
  split at h
  · rename_i i hp _
    cases h
    refine ⟨i, hp, rfl, rfl, fun x j hx => ?_⟩
    exact (update_some hx).imp_right fun h => ⟨h.1, (Option.some.inj h.2).symm⟩
  · cases h

/-- After `replace` a name is gone, is as it was, or is the one that was put in place. -/
theorem replace_some (h : d.replace p q = some d') : ∃ i, d.inode p = some i ∧ d'.data = d.data ∧
    d'.next = d.next ∧ ∀ x j, d'.inode x = some j → d.inode x = some j ∨ x = q ∧ j = i := by
  unfold replace at h
  cases hp : d.inode p with
  | none =>
    rw [hp] at h
    cases h
  | some i =>
    rw [hp] at h
    dsimp only at h
    refine ⟨i, rfl, ?_⟩
    split at h
    · cases h
      exact ⟨rfl, rfl, fun x j hx => .inl hx⟩
    · cases h
      refine ⟨rfl, rfl, fun x j hx => ?_⟩
      rcases update_some hx with hx | ⟨-, hx⟩
      · exact (update_some hx).imp_right fun h => ⟨h.1, (Option.some.inj h.2).symm⟩
      · cases hx

theorem unlink_inode (h : (d.unlink p).inode x = some i) : d.inode x = some i :=
  (update_some h).resolve_right fun h => (by cases h.2)

end Disk

end MangaManager.Lib
