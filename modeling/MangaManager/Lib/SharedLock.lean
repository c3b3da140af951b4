import Mathlib.Data.Set.Insert

/-!
# Shared and exclusive locks

A set of locks held at one moment, each on a key, by a holder, shared or
exclusive. `Consistent`: an exclusive lock on a key is alone on it. Releasing
locks keeps a set consistent, and so does granting one that is compatible with
all others.
-/

namespace MangaManager.Lib

structure Lock (κ ω : Type*) where
  key : κ
  holder : ω
  exclusive : Prop

namespace Lock

variable {κ ω : Type*} {H H' : Set (Lock κ ω)} {l l' : Lock κ ω}

/-- Two locks that may be held together. -/
def Compatible (l l' : Lock κ ω) : Prop :=
  l.key = l'.key → l.holder ≠ l'.holder → ¬ l.exclusive ∧ ¬ l'.exclusive

theorem Compatible.symm (h : Compatible l l') : Compatible l' l :=
  fun hk hh => (h hk.symm hh.symm).symm

def Consistent (H : Set (Lock κ ω)) : Prop := ∀ l ∈ H, ∀ l' ∈ H, Compatible l l'

theorem consistent_empty : Consistent (∅ : Set (Lock κ ω)) := fun _ h => h.elim

theorem Consistent.mono (h : Consistent H) (hs : H' ⊆ H) : Consistent H' :=
  fun l hl l' hl' => h l (hs hl) l' (hs hl')

theorem Consistent.insert (h : Consistent H) (hl : ∀ l' ∈ H, Compatible l l') :
    Consistent (insert l H) := by
  rintro a (rfl | ha) b (rfl | hb)
  · exact fun _ hh => absurd rfl hh
  · exact hl b hb
  · exact (hl a ha).symm
  · exact h a ha b hb

end Lock

end MangaManager.Lib
