import OsProjects.Pvn.Queue

/-!
# No fight in the department

Chairs and alignment stay in order whatever the swap tests find: `Reachable` lets the
queues and the times of arrival be anything between two steps, and `Orderly` does not
speak about them. On top of it, nobody sits in two chairs (`OneChair`), because only
`enter_department` seats somebody, and only somebody who is not seated.
-/

namespace OsProjects.Pvn

open OsProjects.Lib

variable {H : Type}

/-- `h` is put into exactly one chair, one that exists and was empty. -/
def Seats (h : H) (d d' : Department H) : Prop :=
  ∃ i, d.empty i = true ∧ (∀ j, d.seated j ≠ some h) ∧
    ∀ j, d'.seated j = if j = i then some h else d.seated j

/-- Nobody is in two chairs. -/
def OneChair (d : Department H) : Prop :=
  ∀ i j g, d.seated i = some g → d.seated j = some g → i = j

theorem OneChair.seats {h : H} {d d' : Department H} (hone : OneChair d) (hseats : Seats h d d') :
    OneChair d' := by
  obtain ⟨k, -, hout, hseat⟩ := hseats
  have hother : ∀ j g, d'.seated j = some g → (j = k ∧ g = h) ∨ (g ≠ h ∧ d.seated j = some g) := by
    intro j g hj
    rw [hseat] at hj
    split at hj
    · exact .inl ⟨‹_›, (Option.some.inj hj).symm⟩
    · refine .inr ⟨?_, hj⟩
      rintro rfl
      exact hout j hj
  intro i j g hi hj
  rcases hother i g hi with ⟨rfl, rfl⟩ | ⟨hne, hi⟩
  · rcases hother j g hj with ⟨rfl, -⟩ | ⟨hne, -⟩
    · rfl
    · exact absurd rfl hne
  · rcases hother j g hj with ⟨-, rfl⟩ | ⟨-, hj⟩
    · exact absurd rfl hne
    · exact hone i j g hi hj

theorem OneChair.mono {d d' : Department H} (hone : OneChair d)
    (hsub : ∀ i g, d'.seated i = some g → d.seated i = some g) : OneChair d' :=
  fun i j g hi hj => hone i j g (hsub i g hi) (hsub j g hj)

section Steps

variable [DecidableEq H] [Fintype H] {c : Setup H} {l : Label H} {s s' : State H} {place : Pc}

omit [Fintype H] in
/-- The chair loop of `enter_department`. -/
theorem Orderly.sit_seats (h : Orderly c s) (hplace : s.pc l.who = .entering) :
    Seats l.who s.dept (sit l.who l s).dept := by
  obtain ⟨-, hfree⟩ := h.admitted l.who (by rw [hplace]; rfl)
  obtain ⟨i, chair, -, hempty, heq⟩ :=
    seat_eq (d := s.dept) l.who l.visitTime l.chairNow hfree
  refine ⟨i, hempty, ?_, ?_⟩
  · -- whoever is in a chair is at another place of `human_main`
    intro j hj
    have hin := h.seated j l.who hj
    rw [hplace] at hin
    cases hin
  · intro j
    show (s.dept.seat l.who l.visitTime l.chairNow).seated j = _
    rw [heq]
    by_cases hj : j = i
    · subst hj
      rw [if_pos rfl]
      simp only [Department.seated, Function.update_self]
      rfl
    · rw [if_neg hj]
      simp only [Department.seated, Function.update_of_ne hj]

/-- Only `enter_department` seats somebody. -/
theorem Orderly.step_seats (h : Orderly c s) (hs : Pvn.step c l s = some (place, s')) :
    place = .entering ∧ s.pc l.who = .entering ∧ Seats l.who s.dept s'.dept ∨
      place ≠ .entering ∧ ∀ i g, s'.dept.seated i = some g → s.dept.seated i = some g := by
  obtain ⟨hplace, hact, hf, -⟩ := h.moves hs
  cases hed : place.editsDept with
  | false =>
    refine .inr ⟨fun heq => ?_, fun i g hg => ?_⟩
    · rw [heq] at hed
      cases hed
    · rw [← seated_congr (hf.dept hed).2 i]
      exact hg
  | true =>
    cases place with
    | entering =>
      obtain ⟨a, rfl, -⟩ := h.entering_spec hplace hact
      exact .inl ⟨rfl, hplace, h.sit_seats hplace⟩
    | leaving =>
      obtain ⟨s₁, h₁, rfl⟩ := Option.map_eq_some_iff.mp hact
      obtain ⟨_, a, rfl, -, -⟩ := leaveDepartment_spec h₁
      refine .inr ⟨nofun, fun i g hg => ?_⟩
      replace hg : (s.dept.stand l.who).seated i = some g := hg
      rw [seated_stand] at hg
      split at hg
      · cases hg
      · exact hg
    | _ => cases hed

/-- A change of hands ends with all chairs empty. -/
theorem Orderly.becomes_team (h : Orderly c s) (hs : Pvn.step c l s = some (place, s')) {t : Team}
    (ht : s'.dept.alignment = .team t) (hne : s.dept.alignment ≠ .team t) :
    allEmpty s'.dept = true := by
  obtain ⟨hplace, hact, hf, -⟩ := h.moves hs
  cases hed : place.editsDept with
  | false => exact absurd ((hf.dept hed).1.symm.trans ht) hne
  | true =>
    cases place with
    | entering =>
      obtain ⟨a, rfl, hswap⟩ := h.entering_spec hplace hact
      replace ht : a = .team t := ht
      rcases hswap with rfl | ⟨u, -, rfl, -⟩
      · exact absurd ht hne
      · cases ht
    | leaving =>
      obtain ⟨s₁, h₁, rfl⟩ := Option.map_eq_some_iff.mp hact
      obtain ⟨a₁, a, rfl, hstart, hend⟩ := leaveDepartment_spec h₁
      replace ht : a = .team t := ht
      rcases hend with ⟨rfl, -⟩ | ⟨u, -, hall, -⟩
      · rcases hstart with rfl | ⟨u, -, rfl, -⟩
        · exact absurd ht hne
        · cases ht
      · exact hall
    | _ => cases hed

end Steps

section Reach

variable [DecidableEq H] [Fintype H]

/-- The states the threads can reach in any order of their steps, when the queues and
the times of arrival are anything each time a step looks at them. -/
inductive Reachable (c : Setup H) : State H → Prop
  | init : Reachable c (Pvn.init c)
  | step {l : Label H} {place : Pc} {s s' : State H} : Reachable c s →
      Pvn.step c l s = some (place, s') → Reachable c s'
  | queues {s : State H} (queue : Team → Option H) (next : H → Option H) (t : H → Int) :
      Reachable c s → Reachable c { s with queue := queue, next := next, t := t }

variable {c : Setup H} {s : State H}

/-- In particular every run of the program as it is. -/
theorem Reachable.of_steps {ls : List (Label H)} {tr : History H}
    (hrun : steps c ls = some (tr, s)) : Reachable c s :=
  run_rule (P := fun _ s => Reachable c s) .init (fun _ _ _ _ _ h hs => h.step hs) ls tr s hrun

/-- The state after a run, evaluated. -/
theorem Reachable.of_eval (c : Setup H) (ls : List (Label H)) (P : State H → Prop)
    [DecidablePred P] (h : (steps c ls).map (fun x => decide (P x.2)) = some true) :
    ∃ s, Reachable c s ∧ P s := by
  obtain ⟨⟨tr, s⟩, hrun, hP⟩ := Option.map_eq_some_iff.mp h
  exact ⟨s, .of_steps hrun, of_decide_eq_true hP⟩

theorem Reachable.orderly (h : Reachable c s) : Orderly c s := by
  induction h with
  | init => exact init_orderly c
  | step _ hs ih => exact ih.step hs
  | queues queue next t _ ih =>
    exact ⟨ih.running, ih.willReturn, ih.lock, ih.admitted, ih.seated, ih.chair, ih.ours,
      ih.changing, ih.exist⟩

theorem Reachable.oneChair (h : Reachable c s) : OneChair s.dept := by
  induction h with
  | init =>
    intro i j g hi
    cases (init_orderly c).seated i g hi
  | step hr hs ih =>
    rcases hr.orderly.step_seats hs with ⟨-, -, hseats⟩ | ⟨-, hsub⟩
    · exact ih.seats hseats
    · exact ih.mono hsub
  | queues _ _ _ _ ih => exact ih

/-- No fight: what holds of a state, of the human about to enter and of the next step. -/
structure Peaceful (c : Setup H) (s : State H) : Prop where
  /-- the `abort()` in `enter_department` was not reached -/
  running : s.aborted = false
  /-- all seated humans are of one team `a`, whose department it is, or was until now -/
  aligned : ∃ a, ∀ i g, s.dept.seated i = some g → c.team g = a ∧
    (s.dept.alignment = .team a ∨ s.dept.alignment = .toTeam a.other)
  oneChair : OneChair s.dept
  /-- `enter_department` finds its own alignment and seats its human once -/
  enters : ∀ l, s.pc l.who = .entering →
    s.dept.alignment = .team (c.team l.who) ∧ Seats l.who s.dept (sit l.who l s).dept
  /-- that chair is still theirs when it returns -/
  entered : ∀ l s', Pvn.step c l s = some (.entering, s') → Seats l.who s.dept s'.dept
  /-- the alignment becomes a team's with every chair empty -/
  becomes : ∀ l place s', Pvn.step c l s = some (place, s') → ∀ t, s'.dept.alignment = .team t →
    s.dept.alignment ≠ .team t → allEmpty s'.dept = true
  /-- nobody is given a seat during a change of hands -/
  closed : ∀ l place s', Pvn.step c l s = some (place, s') → ∀ t, s.dept.alignment = .toTeam t →
    ∀ i g, s'.dept.seated i = some g → s.dept.seated i = some g

theorem Team.other_other (t : Team) : t.other.other = t := by
  cases t <;> rfl

omit [DecidableEq H] [Fintype H] in
theorem Orderly.aligned (h : Orderly c s) :
    ∃ a, ∀ i g, s.dept.seated i = some g → c.team g = a ∧
      (s.dept.alignment = .team a ∨ s.dept.alignment = .toTeam a.other) := by
  have hours : ∀ i g, s.dept.seated i = some g →
      s.dept.alignment = .team (c.team g) ∨ s.dept.alignment = .toTeam (c.team g).other :=
    fun i g hg => h.ours g (h.seated i g hg)
  cases halign : s.dept.alignment with
  | team t =>
    refine ⟨t, fun i g hg => ⟨?_, .inl rfl⟩⟩
    exact h.team_of_inChair (h.seated i g hg) halign
  | toTeam t =>
    refine ⟨t.other, fun i g hg => ?_⟩
    rcases hours i g hg with hin | hin <;> rw [halign] at hin
    · cases hin
    · injection hin with hin
      rw [hin, Team.other_other]
      exact ⟨rfl, .inr rfl⟩

theorem no_fight (h : Reachable c s) : Peaceful c s where
  running := h.orderly.running
  aligned := h.orderly.aligned
  oneChair := h.oneChair
  enters l hplace :=
    ⟨(h.orderly.admitted l.who (by rw [hplace]; rfl)).1, h.orderly.sit_seats hplace⟩
  entered l s' hs := by
    rcases h.orderly.step_seats hs with ⟨-, -, hseats⟩ | ⟨hne, -⟩
    · exact hseats
    · exact absurd rfl hne
  becomes l place s' hs t := h.orderly.becomes_team hs
  closed l place s' hs t ht := by
    rcases h.orderly.step_seats hs with ⟨-, hplace, -⟩ | ⟨-, hsub⟩
    · -- who enters found the department of their own team
      obtain ⟨halign, -⟩ := h.orderly.admitted l.who (by rw [hplace]; rfl)
      rw [ht] at halign
      cases halign
    · exact hsub

end Reach

/-- Pirate 1 is seated and pirate 0 about to be. -/
theorem no_fight_second_pirate :
    ∃ s, Reachable tenEach s ∧ s.dept.seated 0 = some 1 ∧ s.pc 0 = .entering ∧
      Peaceful tenEach s := by
  obtain ⟨s, hreach, hseated, hpc⟩ := Reachable.of_eval tenEach
    (secondInLine ++ List.replicate 2 (.of 0 true))
    (fun s => s.dept.seated 0 = some 1 ∧ s.pc 0 = .entering) (by decide +kernel)
  exact ⟨s, hreach, hseated, hpc, no_fight hreach⟩

end OsProjects.Pvn
