import Mathlib.Data.List.Basic
import Mathlib.Data.List.Range
import Mathlib.Data.Finset.Card

/-!
# Fixed-length arrays with C-style indexing

`Cells α n` is an array of exactly `n` cells (the length is a field, so a
wrongly sized array cannot be built), read and written at an arbitrary
natural index:

* a read past the end yields the default value and a write past the end is
  dropped — developments using this library prove that neither happens;
* `blit` is the byte-copy loop `for j < k: dst[base + j] = src[j]`, with its
  one-line read-back law `get_blit`;
* `find` is the linear search `for i < n: if (p dst[i]) ...`, characterised
  by `find_some`/`find_eq_none_iff`;
* `used` counts the cells satisfying a test, with its update law `used_set`.
-/

namespace OsProjects.Lib

universe u

/-- An array of exactly `n` cells. -/
structure Cells (α : Type u) (n : Nat) where
  list : List α
  length_list : list.length = n
  deriving DecidableEq

namespace Cells

variable {α : Type u} {n k : Nat}

/-- The array whose cell `i` is `f i`. -/
def ofFn (f : Nat → α) : Cells α n := ⟨(List.range n).map f, by simp⟩

/-- Overwrite cell `i` (dropped past the end). -/
def set (c : Cells α n) (i : Nat) (v : α) : Cells α n :=
  ⟨c.list.set i v, by rw [List.length_set, c.length_list]⟩

/-- Rewrite every cell with `f`. -/
def map (c : Cells α n) (f : α → α) : Cells α n :=
  ⟨c.list.map f, by rw [List.length_map, c.length_list]⟩

variable [Inhabited α]

/-- Read cell `i` (the default value past the end). -/
def get (c : Cells α n) (i : Nat) : α := c.list.getD i default

/-- Copy `d` over the cells from `base` on, in index order. -/
def blit (c : Cells α n) (base : Nat) (d : Cells α k) : Cells α n :=
  (List.range k).foldl (fun c j => c.set (base + j) (d.get j)) c

/-- The first index whose cell satisfies `p`. -/
def find (c : Cells α n) (p : α → Bool) : Option Nat := c.list.findIdx? p

/-- How many cells satisfy `p`. -/
def used (c : Cells α n) (p : α → Bool) : Nat :=
  ((Finset.range n).filter (fun i => p (c.get i) = true)).card

/-! ## Reads after writes -/

@[simp] theorem get_ofFn (f : Nat → α) {i : Nat} (hi : i < n) :
    (ofFn f : Cells α n).get i = f i := by
  simp [ofFn, get, List.getD_eq_getElem?_getD, hi]

theorem get_set_eq (c : Cells α n) {i : Nat} (v : α) (hi : i < n) :
    (c.set i v).get i = v := by
  have hlen : i < c.list.length := by rw [c.length_list]; exact hi
  simp [set, get, List.getD_eq_getElem?_getD, hlen]

@[simp] theorem get_set_ne (c : Cells α n) {i j : Nat} (v : α) (h : j ≠ i) :
    (c.set i v).get j = c.get j := by
  simp [set, get, List.getD_eq_getElem?_getD, List.getElem?_set_ne (Ne.symm h)]

theorem get_of_le (c : Cells α n) {i : Nat} (hi : n ≤ i) : c.get i = default := by
  have hlen : c.list.length ≤ i := by rw [c.length_list]; exact hi
  simp [get, List.getD_eq_getElem?_getD, hlen]

theorem get_map (c : Cells α n) (f : α → α) {i : Nat} (hi : i < n) :
    (c.map f).get i = f (c.get i) := by
  have hlen : i < c.list.length := by rw [c.length_list]; exact hi
  simp [map, get, List.getD_eq_getElem?_getD, hlen]

/-- Two arrays with equal cells are equal. -/
theorem ext_get {c d : Cells α n} (h : ∀ i, i < n → c.get i = d.get i) : c = d := by
  obtain ⟨l, hl⟩ := c
  obtain ⟨l', hl'⟩ := d
  congr 1
  refine List.ext_getElem (by rw [hl, hl']) ?_
  intro i h1 h2
  have := h i (by omega)
  simpa [get, List.getD_eq_getElem?_getD, h1, h2] using this

/-- Writing back what is there changes nothing. -/
theorem set_get (c : Cells α n) (i : Nat) : c.set i (c.get i) = c := by
  refine ext_get ?_
  intro j hj
  by_cases hji : j = i
  · subst hji
    rw [get_set_eq _ _ hj]
  · rw [get_set_ne _ _ hji]

theorem set_set (c : Cells α n) {i : Nat} (v w : α) (hi : i < n) :
    (c.set i v).set i w = c.set i w := by
  refine ext_get ?_
  intro j hj
  by_cases hji : j = i
  · subst hji
    rw [get_set_eq _ _ hj, get_set_eq _ _ hj]
  · rw [get_set_ne _ _ hji, get_set_ne _ _ hji, get_set_ne _ _ hji]

/-- Reading back a copied block: inside the block the source, outside the
old contents. -/
theorem get_blit (c : Cells α n) (base : Nat) (d : Cells α k) (hfit : base + k ≤ n)
    (a : Nat) :
    (c.blit base d).get a =
      if base ≤ a ∧ a < base + k then d.get (a - base) else c.get a := by
  -- the loop invariant after `m` copies: the first `m` cells of the block are done
  have key : ∀ m, base + m ≤ n →
      ((List.range m).foldl (fun c j => c.set (base + j) (d.get j)) c).get a =
        if base ≤ a ∧ a < base + m then d.get (a - base) else c.get a := by
    intro m
    induction m with
    | zero =>
      intro _
      rw [if_neg (by omega)]
      rfl
    | succ m ih =>
      intro hm
      rw [List.range_succ, List.foldl_append, List.foldl_cons, List.foldl_nil]
      by_cases ha : a = base + m
      · subst ha
        rw [get_set_eq _ _ (by omega), if_pos (by omega), Nat.add_sub_cancel_left]
      · rw [get_set_ne _ _ ha, ih (by omega)]
        by_cases hin : base ≤ a ∧ a < base + m
        · rw [if_pos hin, if_pos (by omega)]
        · rw [if_neg hin, if_neg (by omega)]
  exact key k hfit

/-- Inside the block. -/
theorem get_blit_in (c : Cells α n) {base : Nat} (d : Cells α k) (hfit : base + k ≤ n)
    {j : Nat} (hj : j < k) : (c.blit base d).get (base + j) = d.get j := by
  rw [get_blit c base d hfit, if_pos (by omega), Nat.add_sub_cancel_left]

/-- Outside the block. -/
theorem get_blit_out (c : Cells α n) {base : Nat} (d : Cells α k) (hfit : base + k ≤ n)
    {a : Nat} (ha : a < base ∨ base + k ≤ a) : (c.blit base d).get a = c.get a := by
  rw [get_blit c base d hfit, if_neg (by omega)]

-- users reason through `get_blit`; unfolding the copy loop is never useful
attribute [irreducible] blit

/-! ## Linear search -/

theorem get_eq_getElem (c : Cells α n) {i : Nat} (hi : i < c.list.length) :
    c.get i = c.list[i] := by
  simp [get, List.getD_eq_getElem?_getD, hi]

theorem find_eq_none_iff (c : Cells α n) (p : α → Bool) :
    c.find p = none ↔ ∀ i, i < n → p (c.get i) = false := by
  rw [find, List.findIdx?_eq_none_iff]
  constructor
  · intro h i hi
    have hlen : i < c.list.length := by rw [c.length_list]; exact hi
    rw [c.get_eq_getElem hlen]
    exact h _ (List.getElem_mem hlen)
  · intro h x hx
    obtain ⟨i, hi, rfl⟩ := List.getElem_of_mem hx
    rw [← c.get_eq_getElem hi]
    exact h i (by rw [← c.length_list]; exact hi)

theorem find_eq_some_iff {c : Cells α n} {p : α → Bool} {i : Nat} :
    c.find p = some i ↔ i < n ∧ p (c.get i) = true ∧ ∀ j, j < i → p (c.get j) = false := by
  have hlen := c.length_list
  rw [find, List.findIdx?_eq_some_iff_getElem]
  constructor
  · rintro ⟨hi, hp, hfirst⟩
    refine ⟨by omega, by rwa [c.get_eq_getElem hi], ?_⟩
    intro j hj
    rw [c.get_eq_getElem (by omega)]
    exact Bool.eq_false_iff.mpr (hfirst j hj)
  · rintro ⟨hi, hp, hfirst⟩
    refine ⟨by omega, by rwa [← c.get_eq_getElem (by omega)], ?_⟩
    intro j hj
    rw [← c.get_eq_getElem (by omega)]
    exact Bool.eq_false_iff.mp (hfirst j hj)

theorem find_some {c : Cells α n} {p : α → Bool} {i : Nat} (h : c.find p = some i) :
    i < n ∧ p (c.get i) = true := by
  obtain ⟨hi, hp, -⟩ := find_eq_some_iff.mp h
  exact ⟨hi, hp⟩

/-- A match makes the search succeed, with some match. -/
theorem find_of_match {c : Cells α n} {p : α → Bool} {i : Nat} (hi : i < n)
    (hp : p (c.get i) = true) : ∃ j, c.find p = some j := by
  cases h : c.find p with
  | some j => exact ⟨j, rfl⟩
  | none =>
    rw [find_eq_none_iff] at h
    rw [h i hi] at hp
    cases hp

/-! ## Counting -/

theorem used_congr {c d : Cells α n} {p : α → Bool}
    (h : ∀ i, i < n → p (c.get i) = p (d.get i)) : c.used p = d.used p := by
  unfold used
  congr 1
  refine Finset.filter_congr ?_
  intro i hi
  rw [h i (Finset.mem_range.mp hi)]

/-- Overwriting a cell in range moves the count by the old and the new
test value. -/
theorem used_set (c : Cells α n) {i : Nat} (v : α) (hi : i < n) (p : α → Bool) :
    (c.set i v).used p + (if p (c.get i) then 1 else 0) =
      c.used p + (if p v then 1 else 0) := by
  have hsplit : ∀ d : Cells α n, d.used p =
      (((Finset.range n).erase i).filter (fun j => p (d.get j) = true)).card +
        (if p (d.get i) then 1 else 0) := by
    intro d
    unfold used
    rw [← Finset.insert_erase (Finset.mem_range.mpr hi), Finset.filter_insert]
    by_cases hp : p (d.get i) = true
    · rw [if_pos hp, if_pos hp, Finset.card_insert_of_notMem (by simp)]
      simp
    · rw [if_neg hp, if_neg hp]
      simp
  have hrest : (((Finset.range n).erase i).filter
        (fun j => p ((c.set i v).get j) = true)).card =
      (((Finset.range n).erase i).filter (fun j => p (c.get j) = true)).card := by
    congr 1
    refine Finset.filter_congr ?_
    intro j hj
    rw [get_set_ne c v (Finset.ne_of_mem_erase hj)]
  rw [hsplit (c.set i v), hsplit c, hrest, get_set_eq c v hi]
  omega

/-- A count below the length leaves a cell that fails the test. -/
theorem exists_unused {c : Cells α n} {p : α → Bool} (h : c.used p < n) :
    ∃ i, i < n ∧ p (c.get i) = false := by
  by_contra hno
  push Not at hno
  have hall : (Finset.range n).filter (fun i => p (c.get i) = true) = Finset.range n := by
    refine Finset.filter_true_of_mem ?_
    intro i hi
    have := hno i (Finset.mem_range.mp hi)
    simpa using this
  unfold used at h
  rw [hall, Finset.card_range] at h
  omega

end Cells

end OsProjects.Lib
