import Mathlib.Logic.Basic

/-!
# Semaphores

`semWait` is `sem_wait` on a semaphore of the given value, which blocks (`none`)
at 0; `sem_post` adds one. A semaphore that starts at 1 and that every thread waits
on before and posts after a section is a lock: `Lock v holds` relates its value to
the threads inside. At most one thread is inside, and taking and giving back keep
it so.
-/

namespace OsProjects.Lib

/-- `sem_wait`: the value afterwards, or `none` while it blocks. -/
def semWait : Nat → Option Nat
  | 0 => none
  | v + 1 => some v

theorem semWait_eq_some {v v' : Nat} : semWait v = some v' ↔ 0 < v ∧ v' = v - 1 := by
  cases v with
  | zero => simp [semWait]
  | succ v => simp [semWait, eq_comm]

variable {H : Type}

/-- A semaphore of value `v` guards the sections of the threads in `holds`. -/
structure Lock (v : Nat) (holds : H → Prop) : Prop where
  le_one : v ≤ 1
  free : 0 < v → ∀ h, ¬ holds h
  excl : ∀ g h, holds g → holds h → g = h

namespace Lock

variable {v : Nat} {holds holds' : H → Prop} {h : H}

theorem congr (hl : Lock v holds) (heq : ∀ g, holds' g ↔ holds g) : Lock v holds' := by
  refine ⟨hl.le_one, ?_, ?_⟩
  · exact fun hv g hg => hl.free hv g ((heq g).mp hg)
  · exact fun g g' hg hg' => hl.excl g g' ((heq g).mp hg) ((heq g').mp hg')

/-- `sem_wait`, by a thread outside. -/
theorem acquire (hl : Lock v holds) (hv : 0 < v) (heq : ∀ g, holds' g ↔ holds g ∨ g = h) :
    Lock (v - 1) holds' := by
  have hin : ∀ g, holds' g → g = h := by
    intro g hg
    rcases (heq g).mp hg with hg | hg
    · exact absurd hg (hl.free hv g)
    · exact hg
  have hle := hl.le_one
  refine ⟨by omega, fun hv' => by omega, ?_⟩
  intro g g' hg hg'
  rw [hin g hg, hin g' hg']

/-- `sem_post`, by the thread inside. -/
theorem release (hl : Lock v holds) (hh : holds h) (heq : ∀ g, holds' g ↔ holds g ∧ g ≠ h) :
    Lock (v + 1) holds' := by
  have hout : ∀ g, ¬ holds' g := by
    intro g hg
    obtain ⟨hg, hne⟩ := (heq g).mp hg
    exact hne (hl.excl g h hg hh)
  have hv : v = 0 := by
    rcases Nat.eq_zero_or_pos v with hv | hv
    · exact hv
    · exact absurd hh (hl.free hv h)
  exact ⟨by omega, fun _ => hout, fun g _ hg => absurd hg (hout g)⟩

end Lock

end OsProjects.Lib
