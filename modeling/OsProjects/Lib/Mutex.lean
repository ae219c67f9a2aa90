import Mathlib.Logic.Function.Basic

/-!
# Mutexes

A table of mutexes, each free or held by a thread. `Held lock holds` relates the table
to a description of the sections the threads are in; a section has one thread at most,
and locking and unlocking keep the two in step.
-/

namespace OsProjects.Lib

variable {T M : Type}

section Operations

variable [DecidableEq M]

/-- `pthread_mutex_lock`: the table afterwards, or `none` while it blocks. -/
def mutexLock (lock : M → Option T) (m : M) (t : T) : Option (M → Option T) :=
  match lock m with
  | none => some (Function.update lock m (some t))
  | some _ => none

/-- `pthread_mutex_unlock`. -/
def mutexUnlock (lock : M → Option T) (m : M) : M → Option T := Function.update lock m none

theorem mutexLock_eq_some {lock lock' : M → Option T} {m : M} {t : T} :
    mutexLock lock m t = some lock' ↔ lock m = none ∧ lock' = Function.update lock m (some t) := by
  unfold mutexLock
  cases lock m with
  | none => simp [eq_comm]
  | some g => simp

end Operations

/-- The table shows who is in which section. -/
def Held (lock : M → Option T) (holds : T → M → Prop) : Prop := ∀ m t, lock m = some t ↔ holds t m

namespace Held

variable {lock : M → Option T} {holds holds' : T → M → Prop} {m : M} {t g : T}

/-- A section has one thread at most. -/
theorem excl (h : Held lock holds) (hg : holds g m) (ht : holds t m) : g = t :=
  Option.some.inj (((h m g).mpr hg).symm.trans ((h m t).mpr ht))

theorem free_iff (h : Held lock holds) : lock m = none ↔ ∀ t, ¬ holds t m := by
  constructor
  · intro hnone t ht
    rw [(h m t).mpr ht] at hnone
    cases hnone
  · intro hno
    cases hm : lock m with
    | none => rfl
    | some t => exact absurd ((h m t).mp hm) (hno t)

theorem congr (h : Held lock holds) (heq : ∀ t m, holds' t m ↔ holds t m) : Held lock holds' :=
  fun m t => (h m t).trans (heq t m).symm

variable [DecidableEq M]

/-- `t` enters a free section. -/
theorem acquire (h : Held lock holds) (hfree : lock m = none)
    (hothers : ∀ g, g ≠ t → ∀ m', holds' g m' ↔ holds g m')
    (hself : ∀ m', holds' t m' ↔ holds t m' ∨ m' = m) :
    Held (Function.update lock m (some t)) holds' := by
  intro m' g
  by_cases hm : m' = m
  · subst hm
    rw [Function.update_self]
    by_cases hg : g = t
    · subst hg
      simp [hself]
    · simp only [hothers g hg, Option.some.injEq, Ne.symm hg, false_iff]
      exact h.free_iff.mp hfree g
  · rw [Function.update_of_ne hm, h m' g]
    by_cases hg : g = t
    · subst hg
      simp [hself, hm]
    · rw [hothers g hg]

/-- `t` leaves a section. -/
theorem release (h : Held lock holds) (hm : holds t m)
    (hothers : ∀ g, g ≠ t → ∀ m', holds' g m' ↔ holds g m')
    (hself : ∀ m', holds' t m' ↔ holds t m' ∧ m' ≠ m) : Held (mutexUnlock lock m) holds' := by
  intro m' g
  unfold mutexUnlock
  by_cases hm' : m' = m
  · subst hm'
    rw [Function.update_self]
    by_cases hg : g = t
    · subst hg
      simp [hself]
    · simp only [hothers g hg, reduceCtorEq, false_iff]
      exact fun hin => hg (h.excl hin hm)
  · rw [Function.update_of_ne hm', h m' g]
    by_cases hg : g = t
    · subst hg
      simp [hself, hm']
    · rw [hothers g hg]

end Held

end OsProjects.Lib
