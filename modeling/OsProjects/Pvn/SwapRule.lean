import OsProjects.Pvn.Queue

/-!
# When the department changes hands

The documentation says that a change of hands starts when somebody of the other team
waits and the other queue is at least `SWAP_BUFFER` longer, or the own queue is empty, or
the head of the other queue has waited `SWAP_TIMEOUT` seconds (`Documented`). The code
compares the lengths with `<`, so it differs when the other queue is longer by just
`SWAP_BUFFER` and nothing else calls for a change (`AtBuffer`).
-/

namespace OsProjects.Pvn

open OsProjects.Lib

variable {H : Type}

/-- The documented rule, for the queues of the two teams and the time each human has
waited. -/
def Documented (own other : List H) (wait : H → Int) : Prop :=
  ∃ head rest, other = head :: rest ∧
    (own.length + swapBuffer ≤ other.length ∨ own = [] ∨ swapTimeout ≤ wait head)

/-- The other queue is longer by `SWAP_BUFFER`, and that is the only reason to change. -/
def AtBuffer (own other : List H) (wait : H → Int) : Prop :=
  ∃ head rest, other = head :: rest ∧ other.length = own.length + swapBuffer ∧ own ≠ [] ∧
    wait head < swapTimeout

/-- The rule as the code has it. -/
def Coded (own other : List H) (wait : H → Int) : Prop :=
  ∃ head rest, other = head :: rest ∧
    (own.length + swapBuffer < other.length ∨ own = [] ∨ swapTimeout ≤ wait head)

theorem coded_iff_documented {own other : List H} {wait : H → Int} :
    (Coded own other wait ↔ Documented own other wait) ↔ ¬ AtBuffer own other wait := by
  unfold Coded Documented AtBuffer
  cases other with
  | nil => simp
  | cons head rest =>
    simp only [List.cons.injEq, ↓existsAndEq, and_true, true_and]
    by_cases hown : own = []
    · simp [hown]
    · simp only [hown, false_or, ne_eq, not_false_eq_true, true_and]
      omega

section Rule

variable [Fintype H] {c : Setup H} {hum : H} {s : State H} {q : Team → List H}

/-- The test in both functions is the coded rule. -/
theorem swapDue_eq (hq : ∀ t, Linked s.next (s.queue t) (q t))
    (halign : s.dept.alignment = .team (c.team hum)) (now : Int) :
    ∃ due, swapDue c hum now s = some due ∧
      (due = true ↔ Coded (q (c.team hum)) (q (c.team hum).other)
        (currentWaitTime s · now)) := by
  have hown := hq (c.team hum)
  have hother := hq (c.team hum).other
  unfold swapDue Coded
  rw [halign]
  cases hhead : s.queue (c.team hum).other with
  | none =>
    rw [hhead, Linked.nil_iff] at hother
    exact ⟨false, rfl, by simp [hother]⟩
  | some head =>
    have hlen := queueCount_of_linked hother
    rw [hhead] at hother
    obtain ⟨rest, hrest, -⟩ := hother.of_head
    have hempty : (s.queue (c.team hum)).isNone = true ↔ q (c.team hum) = [] := by
      rw [Option.isNone_iff_eq_none]
      constructor
      · intro hnone
        rwa [hnone, Linked.nil_iff] at hown
      · intro hnil
        rwa [hnil] at hown
    simp only [queueCount_of_linked hown, hlen, Option.bind_eq_bind, Option.bind_some,
      Option.some.injEq, exists_eq_left', Bool.or_eq_true, decide_eq_true_eq, hempty, or_assoc]
    simp [hrest]

/-- A change of hands that is due is started. -/
theorem startSwap_eq (hq : ∀ t, Linked s.next (s.queue t) (q t))
    (halign : s.dept.alignment = .team (c.team hum)) (now : Int) :
    ∃ s', startSwap c hum now s = some s' ∧
      (s'.dept.alignment = .toTeam (c.team hum).other ∧
          Coded (q (c.team hum)) (q (c.team hum).other) (currentWaitTime s · now) ∨
        s'.dept.alignment = .team (c.team hum) ∧
          ¬ Coded (q (c.team hum)) (q (c.team hum).other) (currentWaitTime s · now)) := by
  obtain ⟨due, hdue, hcoded⟩ := swapDue_eq hq halign now
  unfold startSwap
  rw [hdue, ← hcoded]
  simp only [Option.bind_eq_bind, Option.bind_some, halign]
  cases due with
  | true => exact ⟨_, rfl, .inl ⟨rfl, rfl⟩⟩
  | false => exact ⟨_, rfl, .inr ⟨halign, Bool.false_ne_true⟩⟩

omit [Fintype H] in
/-- The end of a change of hands does not bring the old team back. -/
theorem endSwap_alignment {t : Team} :
    (s.dept.alignment = .toTeam t.other → (endSwap s).dept.alignment ≠ .team t) ∧
      (s.dept.alignment = .team t → (endSwap s).dept.alignment = .team t) := by
  obtain ⟨a, heq, hend⟩ := endSwap_spec s
  have ha : (endSwap s).dept.alignment = a := congrArg (·.dept.alignment) heq
  rw [ha]
  constructor
  · intro hswap
    rw [hswap] at hend
    rcases hend with ⟨rfl, -⟩ | ⟨t', hteam, -, rfl⟩
    · exact nofun
    · cases hteam
      cases t <;> decide
  · intro hteam
    rw [hteam] at hend
    rcases hend with ⟨rfl, -⟩ | ⟨t', hteam', -⟩
    · rfl
    · cases hteam'

end Rule

/-- `enter_department` and `leave_department` come back, the former unless there is a
fight. With the department in the hands of the human's team, a change of hands has then
been started as documented, exactly if the other queue is not longer by `SWAP_BUFFER`
without any other reason. -/
theorem swap_as_documented_iff [DecidableEq H] [Fintype H] (c : Setup H) (hum : H) (l : Label H)
    (s : State H) (q : Team → List H) (hq : ∀ t, Linked s.next (s.queue t) (q t))
    (halign : s.dept.alignment = .team (c.team hum)) :
    (∃ s', enterDepartment c hum l s = some s' ∧ (s'.aborted = false →
      ((s'.dept.alignment ≠ .team (c.team hum) ↔
          Documented (q (c.team hum)) (q (c.team hum).other) (currentWaitTime s · l.headNow)) ↔
        ¬ AtBuffer (q (c.team hum)) (q (c.team hum).other) (currentWaitTime s · l.headNow)))) ∧
    (∃ s', leaveDepartment c hum l s = some s' ∧
      ((s'.dept.alignment ≠ .team (c.team hum) ↔
          Documented (q (c.team hum)) (q (c.team hum).other) (currentWaitTime s · l.headNow)) ↔
        ¬ AtBuffer (q (c.team hum)) (q (c.team hum).other)
          (currentWaitTime s · l.headNow))) := by
  constructor
  · unfold enterDepartment
    by_cases hf : fight c hum (sit hum l s) = true
    · exact ⟨_, if_pos hf, nofun⟩
    · -- sitting down changes no queue and no alignment
      have halign' : (sit hum l s).dept.alignment = .team (c.team hum) :=
        (seat_alignment ..).trans halign
      obtain ⟨s', heq, hs'⟩ := startSwap_eq (s := sit hum l s) hq halign' l.headNow
      refine ⟨s', (if_neg hf).trans heq, fun _ => ?_⟩
      rw [← coded_iff_documented]
      refine iff_congr ?_ Iff.rfl
      rcases hs' with ⟨ha, hcoded⟩ | ⟨ha, hcoded⟩
      · exact iff_of_true (by rw [ha]; exact nofun) hcoded
      · exact iff_of_false (not_not.mpr ha) hcoded
  · obtain ⟨s', heq, hs'⟩ := startSwap_eq (s := { s with dept := s.dept.stand hum }) hq halign
      l.headNow
    refine ⟨endSwap s', by rw [leaveDepartment, heq]; rfl, ?_⟩
    rw [← coded_iff_documented]
    refine iff_congr ?_ Iff.rfl
    rcases hs' with ⟨ha, hcoded⟩ | ⟨ha, hcoded⟩
    · exact iff_of_true (endSwap_alignment.1 ha) hcoded
    · exact iff_of_false (not_not.mpr (endSwap_alignment.2 ha)) hcoded

theorem mod_twenty_lt (n : Nat) : n % 20 < 20 := Nat.mod_lt n (by decide)

/-- A human of `tenEach`. -/
def human (n : Nat) : Fin 20 := ⟨n % 20, mod_twenty_lt n⟩

/-- Pirate 1 waits, and ninjas 10 to 15. -/
def sixWait : State (Fin 20) :=
  { init tenEach with
    queue := fun
      | .pirate => some (human 1)
      | .ninja => some (human 10)
    next := fun h => if 10 ≤ h.val ∧ h.val < 15 then some (human (h.val + 1)) else none }

/-- Six against one: pirate 0 starts a change of hands, coming or going. -/
theorem swap_as_documented_iff_six :
    (∃ s', enterDepartment tenEach 0 (.of 0 false) sixWait = some s' ∧ s'.aborted = false ∧
      s'.dept.alignment ≠ .team .pirate) ∧
    ∃ s', leaveDepartment tenEach 0 (.of 0 false) sixWait = some s' ∧
      s'.dept.alignment ≠ .team .pirate := by
  have hq : ∀ t, Linked sixWait.next (sixWait.queue t)
      (match t with
      | .pirate => [1]
      | .ninja => [10, 11, 12, 13, 14, 15]) := by
    intro t
    cases t
    · exact ⟨rfl, rfl⟩
    · exact ⟨rfl, rfl, rfl, rfl, rfl, rfl, rfl⟩
  have hbuffer : ¬ AtBuffer [(1 : Fin 20)] [10, 11, 12, 13, 14, 15]
      (currentWaitTime sixWait · 0) := by
    rintro ⟨head, rest, -, hlen, -⟩
    cases hlen
  have hdoc : Documented [(1 : Fin 20)] [10, 11, 12, 13, 14, 15] (currentWaitTime sixWait · 0) :=
    ⟨10, [11, 12, 13, 14, 15], rfl, .inl (by decide)⟩
  obtain ⟨⟨s', heq, henter⟩, ⟨s'', heq', hleave⟩⟩ := swap_as_documented_iff tenEach 0
    (.of 0 false) sixWait _ hq rfl
  have hpeace : s'.aborted = false := by
    have heval : (enterDepartment tenEach 0 (.of 0 false) sixWait).map (·.aborted) = some false :=
      by decide +kernel
    rw [heq] at heval
    exact Option.some.inj heval
  exact ⟨⟨s', heq, hpeace, ((henter hpeace).mpr hbuffer).mpr hdoc⟩,
    ⟨s'', heq', (hleave.mpr hbuffer).mpr hdoc⟩⟩

/-- Pirates 0 and 1 are in the two chairs, pirate 2 waits and then five ninjas; pirate 0
is about to leave. -/
def fiveNinjas : List (Label (Fin 20)) :=
  [(0, 13), (1, 13), (2, 4), (10, 4), (11, 3), (12, 3), (13, 3), (14, 3), (0, 1)].flatMap
    fun (who, count) => List.replicate count (.of (human who) false)

/-- Five ninjas against one pirate, four more, and no change of hands. -/
theorem four_longer_is_not_enough :
    ∃ tr s s', steps tenEach fiveNinjas = some (tr, s) ∧ s.pc 0 = .leaving ∧
      s.dept.alignment = .team .pirate ∧ queueCount s .pirate = some 1 ∧
      queueCount s .ninja = some (1 + swapBuffer) ∧
      leaveDepartment tenEach 0 (.of 0 false) s = some s' ∧
      s'.dept.alignment = .team .pirate := by
  have heval : (steps tenEach fiveNinjas).bind (fun x =>
      (leaveDepartment tenEach 0 (.of 0 false) x.2).map fun s' => decide (
        x.2.pc 0 = .leaving ∧ x.2.dept.alignment = .team .pirate ∧
        queueCount x.2 .pirate = some 1 ∧ queueCount x.2 .ninja = some (1 + swapBuffer) ∧
        s'.dept.alignment = .team .pirate)) = some true := by decide +kernel
  obtain ⟨⟨tr, s⟩, hrun, h⟩ := Option.bind_eq_some_iff.mp heval
  obtain ⟨s', hleave, h⟩ := Option.map_eq_some_iff.mp h
  obtain ⟨hpc, halign, hown, hother, hsame⟩ := of_decide_eq_true h
  exact ⟨tr, s, s', hrun, hpc, halign, hown, hother, hleave, hsame⟩

end OsProjects.Pvn
