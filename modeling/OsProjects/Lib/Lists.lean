import Mathlib.Data.List.Basic

/-!
# Lists of jobs and of announcements

Elements of a list are numbered by their position. Erasing one moves those behind it up by
one, and leaves the others where they are (`idxOf_erase`).

`Cycles w l`: the list `l` says the word `w` over and over, and may stop anywhere. What it
says next is determined by its length (`cycles_snoc`).
-/

namespace OsProjects.Lib

variable {α : Type}

/-! ## Numbering by position -/

theorem idxOf_erase [DecidableEq α] {p q : α} (hne : q ≠ p) (l : List α) :
    (l.erase p).idxOf q = if l.idxOf p < l.idxOf q then l.idxOf q - 1 else l.idxOf q := by
  induction l with
  | nil => simp
  | cons a l ih =>
    by_cases hp : a = p
    · subst hp
      rw [List.erase_cons_head, List.idxOf_cons_self, List.idxOf_cons_ne l (Ne.symm hne),
        if_pos (Nat.succ_pos _), Nat.succ_sub_one]
    · rw [List.erase_cons_tail (by simpa using hp), List.idxOf_cons_ne l hp]
      by_cases hq : a = q
      · subst hq
        simp
      · rw [List.idxOf_cons_ne _ hq, List.idxOf_cons_ne l hq, ih]
        split <;> split <;> omega

/-! ## Prefixes of repetitions -/

section Cycles

variable {w l : List α} {e : α}

/-- A prefix of repetitions of `w`. -/
def Cycles (w l : List α) : Prop := ∃ n, l <+: (List.replicate n w).flatten

theorem getElem?_replicate_flatten (w : List α) (n i : Nat) (hi : i < n * w.length) :
    (List.replicate n w).flatten[i]? = w[i % w.length]? := by
  induction n generalizing i with
  | zero => omega
  | succ n ih =>
    rw [List.replicate_succ, List.flatten_cons]
    by_cases hw : i < w.length
    · rw [List.getElem?_append_left hw, Nat.mod_eq_of_lt hw]
    · rw [List.getElem?_append_right (by omega), ih _ (by rw [Nat.succ_mul] at hi; omega),
        ← Nat.mod_eq_sub_mod (by omega)]

theorem cycles_iff (hw : w ≠ []) :
    Cycles w l ↔ ∀ i, i < l.length → l[i]? = w[i % w.length]? := by
  have hlen : ∀ n, (List.replicate n w).flatten.length = n * w.length := by simp
  constructor
  · rintro ⟨n, hpre⟩ i hi
    have hle := hpre.length_le
    rw [hlen] at hle
    rw [← getElem?_replicate_flatten w n i (by omega), List.getElem?_eq_getElem hi]
    exact (List.prefix_iff_getElem?.mp hpre i hi).symm
  · intro h
    refine ⟨l.length, List.prefix_iff_getElem?.mpr fun i hi => ?_⟩
    have hpos : 0 < w.length := List.length_pos_iff.mpr hw
    have hlong : i < l.length * w.length := Nat.lt_of_lt_of_le hi (Nat.le_mul_of_pos_right _ hpos)
    rw [getElem?_replicate_flatten w _ i hlong, ← h i hi, List.getElem?_eq_getElem hi]

theorem cycles_nil (w : List α) : Cycles w [] := ⟨0, [], rfl⟩

theorem Cycles.shorten {l' : List α} (h : Cycles w l) (hpre : l' <+: l) : Cycles w l' := by
  obtain ⟨n, hn⟩ := h
  exact ⟨n, hpre.trans hn⟩

/-- One more element. -/
theorem cycles_snoc (hw : w ≠ []) :
    Cycles w (l ++ [e]) ↔ Cycles w l ∧ w[l.length % w.length]? = some e := by
  rw [cycles_iff hw, cycles_iff hw]
  constructor
  · intro h
    refine ⟨fun i hi => ?_, ?_⟩
    · rw [← h i (by rw [List.length_append]; omega), List.getElem?_append_left hi]
    · rw [← h l.length (by simp), List.getElem?_concat_length]
  · rintro ⟨hl, he⟩ i hi
    rw [List.length_append, List.length_singleton] at hi
    rcases Nat.lt_succ_iff_lt_or_eq.mp hi with hlt | rfl
    · rw [List.getElem?_append_left hlt, hl i hlt]
    · rw [List.getElem?_concat_length, he]

end Cycles

end OsProjects.Lib
