import MangaManager.Lib.SharedLock
import MangaManager.Queue.Invariant

/-!
# Series locks

An unexpired lease of a mutating job with a series key is a lock on the series:
exclusive for a library repair, shared for a chapter download. `Queue.locks` are
the locks of a moment. No transition adds a lock but a grant, and a grant checks
the unexpired leases of the series first (`_acquire_permits`), so the locks stay
consistent.
-/

namespace MangaManager

open Lib

namespace Queue

/-- The lock a job's lease is. -/
def seriesLock (j : WorkJob) : Lock String Nat := ⟨j.seriesKey, j.id, j.kind = .libraryRepair⟩

/-- The locks held at `now`. -/
def locks (now : Time) (s : Queue) : Set (Lock String Nat) :=
  {l | ∃ j ∈ s.jobs, j.Live now ∧ j.kind.isMutating = true ∧ j.seriesKey ≠ "" ∧ l = seriesLock j}

end Queue

section
variable {now later : Time} {op : Op} {s s' : Queue} {j j' : WorkJob}

theorem Queue.locks_later (h : now ≤ later) : s.locks later ⊆ s.locks now := by
  rintro l ⟨j, hj, hl, hk⟩
  exact ⟨j, hj, hl.earlier h, hk⟩

theorem SameJob.seriesLock (h : SameJob j j') : Queue.seriesLock j' = Queue.seriesLock j := by
  simp only [Queue.seriesLock, h.id, h.kind, h.seriesKey]

/-- Writing a row adds no lock if it is live only when the old one was. -/
theorem Queue.locks_put (hj : j ∈ s.jobs) (hs : SameJob j j') (hl : j'.Live now → j.Live now)
    (hjobs : s'.jobs = Table.put WorkJob.id s.jobs j') : s'.locks now ⊆ s.locks now := by
  rintro l ⟨k, hk, hlive, hm, hne, rfl⟩
  rw [hjobs] at hk
  rcases Table.mem_put.mp hk with ⟨rfl, -⟩ | ⟨hk, -⟩
  · exact ⟨j, hj, hl hlive, hs.kind ▸ hm, hs.seriesKey ▸ hne, hs.seriesLock⟩
  · exact ⟨k, hk, hlive, hm, hne, rfl⟩

/-- The check of `_acquire_permits`: the lock of the job is compatible with all held ones. -/
theorem Queue.permitsFree_compatible {env : ClaimEnv} {a : ClaimArgs}
    (h : Queue.permitsFree env a s now j = true) (hm : j.kind.isMutating = true)
    (hne : j.seriesKey ≠ "") : ∀ l ∈ s.locks now, Lock.Compatible (seriesLock j) l := by
  rintro l ⟨r, hr, hlive, hmr, -, rfl⟩ hkey -
  have hno := (Queue.permitsFree_iff.mp h).1 hm hne r hr
  have hafter : r.leaseAfter now = true := WorkJob.leaseAfter_iff.mpr hlive.2
  have hkind : (if j.kind = .chapterDownload then r.kind == .libraryRepair
      else r.kind.isMutating) = false := by
    simpa [Queue.holdsSeries, hlive.1, hafter, show r.seriesKey = j.seriesKey from hkey.symm]
      using hno
  constructor
  · intro hx
    rw [if_neg (by rw [show j.kind = .libraryRepair from hx]; decide), hmr] at hkind
    cases hkind
  · intro hx
    split at hkind
    · rw [show r.kind = .libraryRepair from hx] at hkind
      cases hkind
    · rw [hmr] at hkind
      cases hkind

/-- A transition keeps the locks consistent. -/
theorem Transition.consistent (h : Transition now op s s') (hc : Lock.Consistent (s.locks now)) :
    Lock.Consistent (s'.locks now) := by
  cases h with
  | insert _ _ =>
    refine hc.mono ?_
    rintro l ⟨k, hk, hlive, hrest⟩
    rw [Queue.enqueueNew_jobs, List.mem_append, List.mem_singleton] at hk
    rcases hk with hk | rfl
    · exact ⟨k, hk, hlive, hrest⟩
    · cases hlive.1
  | edit hj he =>
    refine hc.mono (Queue.locks_put hj (RowStep.edit he).sameJob (fun hl => ?_) rfl)
    obtain ⟨e, hexp, hlt⟩ := hl.2
    exact ⟨he.edited.leased.mp hl.1, e, he.edited.expiry.symm.trans hexp, hlt⟩
  | unlease hj hu =>
    exact hc.mono (Queue.locks_put hj (RowStep.unlease hu).sameJob
      (fun hl => absurd hl.1 hu.not_leased) rfl)
  | terminate hj ht =>
    exact hc.mono (Queue.locks_put hj (RowStep.terminate ht).sameJob
      (fun hl => absurd hl.1 ht.ended.not_leased) rfl)
  | renew hj hl ho hp =>
    exact hc.mono (Queue.locks_put hj (RowStep.renew rfl hl ho hp).sameJob (fun _ => hl) rfl)
  | @grant env a _ j _ hj hr ha _ hfree _ ho hl =>
    have hs : SameJob j (j.lease (strip a.owner) a.leaseFor now) := ⟨rfl, rfl, rfl, rfl, rfl, rfl⟩
    by_cases hm : j.kind.isMutating = true ∧ j.seriesKey ≠ ""
    · refine (hc.insert (Queue.permitsFree_compatible hfree hm.1 hm.2)).mono ?_
      rintro l ⟨k, hk, hlive, hrest⟩
      rcases Table.mem_put.mp hk with ⟨rfl, -⟩ | ⟨hk, -⟩
      · exact .inl (hrest.2.2.trans hs.seriesLock)
      · exact .inr ⟨k, hk, hlive, hrest⟩
    · refine hc.mono ?_
      rintro l ⟨k, hk, hlive, hmk, hne, rfl⟩
      rcases Table.mem_put.mp hk with ⟨rfl, -⟩ | ⟨hk, -⟩
      · exact absurd ⟨hmk, hne⟩ hm
      · exact ⟨k, hk, hlive, hmk, hne, rfl⟩
  | dropPermits _ _ => exact hc
  | cleanup => exact hc

end

end MangaManager
