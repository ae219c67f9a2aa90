import OsProjects.Mc2.Table

/-!
# `Project1/v2`: the elapsed time

`cleanCommand` subtracts seconds and microseconds apart, and the division of a negative
difference of microseconds rounds up.
-/

namespace OsProjects.Mc2

/-- The microseconds from `start` to `stop`. -/
def elapsed (start stop : Timeval) : Int :=
  (stop.tvSec - start.tvSec) * 1000000 + (stop.tvUsec - start.tvUsec)

/-- The lines say `<1 millisecond`. -/
def SaysLess (lines : List Line) : Prop :=
  ∃ line ∈ lines, "<1 millisecond".toList <:+: line.text.toList

section

variable {start stop : Timeval}

/-- The computed value, against the exact one. -/
theorem milliseconds_eq : milliseconds start stop = elapsed start stop / 1000 +
    if 0 ≤ stop.tvUsec - start.tvUsec ∨ 1000 ∣ stop.tvUsec - start.tvUsec then 0 else 1 := by
  have hfloor : elapsed start stop / 1000 =
      (stop.tvSec - start.tvSec) * 1000 + (stop.tvUsec - start.tvUsec) / 1000 := by
    rw [elapsed]
    omega
  rw [hfloor, milliseconds, Int.tdiv_eq_ediv, Int.add_assoc]
  rfl

/-! ## The text -/

/-- A number is written with digits and a sign. -/
theorem not_mem_repr (n : Int) : '<' ∉ n.repr.toList := by
  have hnat : ∀ k : Nat, '<' ∉ k.repr.toList := by
    intro k hmem
    rw [Nat.repr_eq_ofList_toDigits, String.toList_ofList] at hmem
    exact absurd (Nat.isDigit_of_mem_toDigits (by decide) (by decide) hmem) (by decide)
  rw [Int.repr_eq_if]
  split
  · exact hnat _
  · rw [String.toList_append, List.mem_append]
    rintro (hsign | hdigit)
    · exact absurd hsign (by decide)
    · exact hnat _ hdigit

theorem text_statistics (ms : Int) (stats : Rusage) : (Line.statistics ms stats).text =
    "\n--- Statistics ---\n" ++
      (if ms < 1 then "Elapsed time: <1 millisecond\n"
        else "Elapsed time: " ++ toString ms ++ " milliseconds\n") ++
      ("Page faults: " ++ toString stats.majflt ++ "\n") ++
      ("Page faults (reclaimed): " ++ toString stats.minflt ++ "\n") := by
  rfl

theorem saysLess_iff (ms : Int) (stats : Rusage) :
    SaysLess [.statistics ms stats] ↔ ms < 1 := by
  simp only [SaysLess, List.mem_singleton, exists_eq_left, text_statistics, String.toList_append]
  by_cases hms : ms < 1
  · refine iff_of_true ?_ hms
    rw [if_pos hms]
    have hline : "<1 millisecond".toList <:+: "Elapsed time: <1 millisecond\n".toList := by decide
    exact (hline.trans (List.suffix_append _ _).isInfix).trans
      ((List.prefix_append _ _).trans (List.prefix_append _ _)).isInfix
  · refine iff_of_false ?_ hms
    rw [if_neg hms]
    intro hinfix
    -- the only `'<'` is in the other line
    have hmem := hinfix.subset (show '<' ∈ "<1 millisecond".toList by decide)
    simp [not_mem_repr] at hmem

end

theorem elapsed_exact_iff (tracker : Cprocess) (now : Timeval) (stats : Rusage) :
    (milliseconds tracker.start now = elapsed tracker.start now / 1000 ∧
      (SaysLess (cleanCommand tracker now stats).1 ↔ elapsed tracker.start now < 1000)) ↔
      tracker.start.tvUsec ≤ now.tvUsec ∨ 1000 ∣ now.tvUsec - tracker.start.tvUsec := by
  have hms := @milliseconds_eq tracker.start now
  constructor
  · rintro ⟨hexact, -⟩
    by_contra hnot
    rw [if_neg (by omega)] at hms
    omega
  · intro hround
    rw [if_pos (by omega), Int.add_zero] at hms
    refine ⟨hms, ?_⟩
    rw [cleanCommand, saysLess_iff, hms]
    omega

/-- 501 microseconds over the end of a second come to a millisecond. -/
theorem half_a_millisecond_rounded_up :
    elapsed ⟨0, 999999⟩ ⟨1, 500⟩ = 501 ∧ milliseconds ⟨0, 999999⟩ ⟨1, 500⟩ = 1 ∧
      ¬ SaysLess (cleanCommand ⟨⟨0, 999999⟩, default, 2, 1⟩ ⟨1, 500⟩ default).1 := by
  refine ⟨by decide, by decide, ?_⟩
  rw [cleanCommand, saysLess_iff]
  decide

end OsProjects.Mc2
