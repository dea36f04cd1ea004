import Mathlib.Logic.Function.Basic

/-!
# Locks and the threads that hold them

A table says which thread holds a lock.  `Owned` ties it to the program counters of the threads: a thread holds the
lock that its program counter says, and no other.  It is kept by a step that leaves the lock of its thread
(`Owned.stay`), by one that takes a free lock (`Owned.acquire`) and by one that gives the lock back (`Owned.release`).
-/

namespace Mutex

variable {κ τ π : Type} [DecidableEq κ] [DecidableEq τ]

abbrev Table (κ τ : Type) := κ → Option τ

def acquire (k : κ) (t : τ) (holder : Table κ τ) : Table κ τ := Function.update holder k (some t)

def release (k : κ) (holder : Table κ τ) : Table κ τ := Function.update holder k none

/-- The threads hold the locks that their program counters say. -/
def Owned (lock : π → Option κ) (holder : Table κ τ) (pcs : τ → π) : Prop :=
  ∀ t k, lock (pcs t) = some k ↔ holder k = some t

variable {lock : π → Option κ} {holder : Table κ τ} {pcs : τ → π} {t u : τ} {k : κ} {pc : π}

omit [DecidableEq κ] [DecidableEq τ] in
/-- Where no thread holds a lock, none is held. -/
theorem owned_free (h : ∀ t, lock (pcs t) = none) : Owned lock (fun _ : κ => none) pcs := by
  intro t k
  rw [h t]
  constructor
  · intro hk
    cases hk
  · intro hk
    cases hk

omit [DecidableEq κ] [DecidableEq τ] in
/-- Two threads do not hold one lock. -/
theorem Owned.exclusive (h : Owned lock holder pcs) (ht : lock (pcs t) = some k) (hu : lock (pcs u) = some k) :
    t = u := by
  have hht := (h t k).1 ht
  rw [(h u k).1 hu] at hht
  exact (Option.some.inj hht).symm

omit [DecidableEq κ] in
theorem Owned.stay (h : Owned lock holder pcs) (hsame : lock pc = lock (pcs t)) :
    Owned lock holder (Function.update pcs t pc) := by
  intro u k
  by_cases hu : u = t
  · subst hu
    rw [Function.update_self, hsame]
    exact h u k
  · rw [Function.update_of_ne hu]
    exact h u k

theorem Owned.acquire (h : Owned lock holder pcs) (hold : lock (pcs t) = none) (hfree : holder k = none)
    (hnew : lock pc = some k) : Owned lock (Mutex.acquire k t holder) (Function.update pcs t pc) := by
  intro u k'
  unfold Mutex.acquire
  by_cases hk : k' = k
  · subst hk
    rw [Function.update_self]
    by_cases hu : u = t
    · subst hu
      rw [Function.update_self, hnew]
      simp
    · rw [Function.update_of_ne hu, h u k', hfree]
      simp [Ne.symm hu]
  · rw [Function.update_of_ne hk, ← h u k']
    by_cases hu : u = t
    · subst hu
      rw [Function.update_self, hnew, hold]
      simp [Ne.symm hk]
    · rw [Function.update_of_ne hu]

theorem Owned.release (h : Owned lock holder pcs) (hold : lock (pcs t) = some k) (hnew : lock pc = none) :
    Owned lock (Mutex.release k holder) (Function.update pcs t pc) := by
  intro u k'
  unfold Mutex.release
  by_cases hk : k' = k
  · subst hk
    rw [Function.update_self]
    by_cases hu : u = t
    · subst hu
      rw [Function.update_self, hnew]
      simp
    · rw [Function.update_of_ne hu]
      constructor
      · intro hlock
        exact absurd (h.exclusive hlock hold) hu
      · intro hnone
        cases hnone
  · rw [Function.update_of_ne hk, ← h u k']
    by_cases hu : u = t
    · subst hu
      rw [Function.update_self, hnew, hold]
      simp [Ne.symm hk]
    · rw [Function.update_of_ne hu]

end Mutex
