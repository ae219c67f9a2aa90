import Mathlib.Data.List.Nodup
import Mathlib.Data.Fintype.Card
import Mathlib.Logic.Function.Basic

/-!
# Lists threaded through a `next` field

A singly linked list as C programs keep it: a head pointer and a `next` field in
every node. `Linked next r l` says that following `next` from `r` visits exactly
the nodes `l` and ends. The two loops such programs run over a list, to its last
node and to count it, come with the number of hops they may take; on a list that
ends both are answered, because it has no node twice (`Linked.nodup`).
-/

namespace OsProjects.Lib

variable {H : Type} {next next' : H → Option H} {r : Option H} {l : List H} {x y : H}

/-- Following `next` from `r` visits the nodes `l` and ends. -/
def Linked (next : H → Option H) : Option H → List H → Prop
  | r, [] => r = none
  | r, x :: l => r = some x ∧ Linked next (next x) l

/-- `while (cur->next != NULL) cur = cur->next;`, or `none` when `fuel` nodes were
not enough. -/
def lastFrom (next : H → Option H) : Nat → H → Option H
  | 0, _ => none
  | fuel + 1, cur =>
    match next cur with
    | none => some cur
    | some x => lastFrom next fuel x

/-- `while (cur->next != NULL) { cur = cur->next; count++; }`. -/
def countFrom (next : H → Option H) : Nat → H → Nat → Option Nat
  | 0, _, _ => none
  | fuel + 1, cur, count =>
    match next cur with
    | none => some count
    | some x => countFrom next fuel x (count + 1)

namespace Linked

theorem nil_iff : Linked next none l ↔ l = [] := by
  cases l with
  | nil => simp [Linked]
  | cons x l => simp [Linked]

/-- A list that starts at `x` is `x` and what follows it. -/
theorem of_head (h : Linked next (some x) l) : ∃ l', l = x :: l' ∧ Linked next (next x) l' := by
  cases l with
  | nil => cases h
  | cons y l' =>
    obtain ⟨hy, hl'⟩ := h
    cases hy
    exact ⟨l', rfl, hl'⟩

theorem mem_head (h : Linked next (some x) l) : x ∈ l := by
  obtain ⟨l', rfl, -⟩ := h.of_head
  exact List.mem_cons_self

/-- The nodes are determined by the pointers. -/
theorem unique {l' : List H} (h : Linked next r l) (h' : Linked next r l') : l = l' := by
  induction l generalizing r l' with
  | nil =>
    cases h
    exact (nil_iff.mp h').symm
  | cons x l ih =>
    obtain ⟨rfl, hl⟩ := h
    obtain ⟨l'', rfl, hl''⟩ := h'.of_head
    rw [ih hl hl'']

/-- Every node starts the rest of the list. -/
theorem suffix (h : Linked next r l) (hx : x ∈ l) :
    ∃ l₁ l₂, l = l₁ ++ x :: l₂ ∧ Linked next (some x) (x :: l₂) := by
  induction l generalizing r with
  | nil => cases hx
  | cons y l ih =>
    obtain ⟨rfl, hl⟩ := h
    rcases List.mem_cons.mp hx with rfl | hx
    · exact ⟨[], l, rfl, rfl, hl⟩
    · obtain ⟨l₁, l₂, rfl, hsuf⟩ := ih hl hx
      exact ⟨y :: l₁, l₂, rfl, hsuf⟩

/-- A list that ends has no node twice: two visits would be followed by the same
nodes. -/
theorem nodup (h : Linked next r l) : l.Nodup := by
  induction l generalizing r with
  | nil => exact List.nodup_nil
  | cons x l ih =>
    obtain ⟨rfl, hl⟩ := h
    refine List.nodup_cons.mpr ⟨fun hx => ?_, ih hl⟩
    obtain ⟨l₁, l₂, rfl, hsuf⟩ := hl.suffix hx
    have hwhole : Linked next (some x) (x :: (l₁ ++ x :: l₂)) := ⟨rfl, hl⟩
    have := congrArg List.length (hwhole.unique hsuf)
    simp only [List.length_cons, List.length_append] at this
    omega

/-- Only the `next` fields of the nodes matter. -/
theorem congr (h : Linked next r l) (heq : ∀ x ∈ l, next' x = next x) : Linked next' r l := by
  induction l generalizing r with
  | nil => exact h
  | cons x l ih =>
    obtain ⟨rfl, hl⟩ := h
    refine ⟨rfl, ?_⟩
    rw [heq x List.mem_cons_self]
    exact ih hl (fun y hy => heq y (List.mem_cons_of_mem x hy))

section Update

variable [DecidableEq H]

/-- The head is taken off. -/
theorem pop (h : Linked next (some x) (x :: l)) :
    Linked (Function.update next x none) (next x) l := by
  have hx : x ∉ l := (List.nodup_cons.mp h.nodup).1
  refine h.2.congr ?_
  intro y hy
  have hyx : y ≠ x := by
    rintro rfl
    exact hx hy
  exact Function.update_of_ne hyx _ _

/-- A node without successor is put behind the last one. -/
theorem snoc {l : List H} (h : Linked next r (l ++ [x])) (hy : y ∉ l ++ [x])
    (hend : next y = none) : Linked (Function.update next x (some y)) r (l ++ [x] ++ [y]) := by
  induction l generalizing r with
  | nil =>
    obtain ⟨rfl, -⟩ := h
    have hyx : y ≠ x := by simpa using hy
    refine ⟨rfl, ?_, ?_⟩
    · rw [Function.update_self]
    · rw [Function.update_of_ne hyx]
      exact hend
  | cons z l ih =>
    have hzx : z ≠ x := by
      rintro rfl
      simpa using h.nodup
    obtain ⟨rfl, hl⟩ := h
    refine ⟨rfl, ?_⟩
    rw [Function.update_of_ne hzx]
    exact ih hl (fun hmem => hy (List.mem_cons_of_mem z hmem))

end Update

/-! ## The loops -/

theorem lastFrom_eq {fuel : Nat} {l : List H} (h : Linked next (some y) (l ++ [x]))
    (hfuel : l.length < fuel) : lastFrom next fuel y = some x := by
  induction l generalizing y fuel with
  | nil =>
    obtain ⟨hx, hend⟩ := h
    cases hx
    obtain ⟨n, rfl⟩ : ∃ n, fuel = n + 1 := ⟨fuel - 1, by simp at hfuel; omega⟩
    have hend : next x = none := hend
    simp only [lastFrom, hend]
  | cons z l ih =>
    obtain ⟨hz, hl⟩ := h
    obtain rfl : y = z := Option.some.inj hz
    obtain ⟨n, rfl⟩ : ∃ n, fuel = n + 1 := ⟨fuel - 1, by simp at hfuel; omega⟩
    have hne : l ++ [x] ≠ [] := by simp
    cases hnext : next y with
    | none =>
      rw [hnext] at hl
      exact absurd (nil_iff.mp hl) hne
    | some w =>
      rw [hnext] at hl
      simp only [lastFrom, hnext]
      exact ih hl (by simp only [List.length_cons] at hfuel; omega)

theorem countFrom_eq {fuel : Nat} (h : Linked next (some x) (x :: l)) (hfuel : l.length < fuel)
    (count : Nat) : countFrom next fuel x count = some (count + l.length) := by
  induction l generalizing x fuel count with
  | nil =>
    obtain ⟨n, rfl⟩ : ∃ n, fuel = n + 1 := ⟨fuel - 1, by simp at hfuel; omega⟩
    have hend : next x = none := h.2
    simp only [countFrom, hend, List.length_nil, Nat.add_zero]
  | cons y l ih =>
    obtain ⟨n, rfl⟩ : ∃ n, fuel = n + 1 := ⟨fuel - 1, by simp at hfuel; omega⟩
    have hnext : next x = some y := h.2.1
    have hl : Linked next (some y) (y :: l) := hnext ▸ h.2
    simp only [countFrom, hnext]
    rw [ih hl (by simp only [List.length_cons] at hfuel; omega)]
    simp only [List.length_cons]
    congr 1
    omega

/-- As many hops as there are nodes are enough. -/
theorem length_le [Fintype H] (h : Linked next r l) : l.length ≤ Fintype.card H :=
  h.nodup.length_le_card

end Linked

end OsProjects.Lib
