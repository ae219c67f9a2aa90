import Mathlib.Logic.Basic

/-!
# Exclusive ownership of resources

An ownership relation `R o r` ("`o` holds `r`") between arbitrary owners and
resources. `Exclusive` says that no resource has two owners; it survives the
ways the relation changes: an owner gives its resource up (`Released`), takes one that
nobody holds (`Claimed`), or gets it from another one (`Exclusive.handed`).
-/

namespace OsProjects.Lib

universe u v

variable {O : Type u} {F : Type v} {R R' : O → F → Prop}

/-- No resource has two owners. -/
def Exclusive (R : O → F → Prop) : Prop :=
  ∀ o o' f, R o f → R o' f → o = o'

/-- Nobody holds `f`. -/
def Unowned (R : O → F → Prop) (f : F) : Prop := ∀ o, ¬ R o f

/-- `R'` is `R` after `o` gave up what it held. -/
def Released (R R' : O → F → Prop) (o : O) : Prop :=
  ∀ o' f, R' o' f ↔ R o' f ∧ o' ≠ o

/-- `R'` is `R` after `o` took `f`. -/
def Claimed (R R' : O → F → Prop) (o : O) (f : F) : Prop :=
  ∀ o' f', R' o' f' ↔ R o' f' ∨ (o' = o ∧ f' = f)

theorem Exclusive.mono (h : Exclusive R) (hle : ∀ o f, R' o f → R o f) : Exclusive R' :=
  fun o1 o2 f h1 h2 => h o1 o2 f (hle o1 f h1) (hle o2 f h2)

theorem Exclusive.released {o : O} (h : Exclusive R) (hr : Released R R' o) :
    Exclusive R' :=
  h.mono fun o' f h' => ((hr o' f).mp h').1

/-- All that is new is that `o` has `f`, and everybody else who had it gave it up. -/
theorem Exclusive.handed {o : O} {f : F} (h : Exclusive R)
    (hle : ∀ o' f', R' o' f' → (R o' f' ∧ f' ≠ f) ∨ (o' = o ∧ f' = f)) : Exclusive R' := by
  intro o1 o2 g h1 h2
  rcases hle o1 g h1 with ⟨h1, hne⟩ | ⟨rfl, rfl⟩
  · rcases hle o2 g h2 with ⟨h2, -⟩ | ⟨-, rfl⟩
    · exact h o1 o2 g h1 h2
    · exact absurd rfl hne
  · rcases hle o2 g h2 with ⟨-, hne⟩ | ⟨rfl, -⟩
    · exact absurd rfl hne
    · rfl

theorem Exclusive.claimed {o : O} {f : F} (h : Exclusive R) (hfree : Unowned R f)
    (hc : Claimed R R' o f) : Exclusive R' := by
  refine h.handed (o := o) (f := f) fun o' f' h' => ?_
  rcases (hc o' f').mp h' with h' | h'
  · exact .inl ⟨h', fun heq => hfree o' (heq ▸ h')⟩
  · exact .inr h'

/-- What an owner held is free once it gave it up. -/
theorem Exclusive.unowned_of_released {o : O} {f : F} (h : Exclusive R)
    (hr : Released R R' o) (ho : R o f) : Unowned R' f := by
  intro o' h'
  obtain ⟨h1, hne⟩ := (hr o' f).mp h'
  exact hne (h o' o f h1 ho)

end OsProjects.Lib
