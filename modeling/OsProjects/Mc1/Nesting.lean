import OsProjects.Mc1.Defined

/-!
# `Project1/v1`: shells within shells

After a command that cannot be executed two shells are at the menu, one of which waits for
the other. For the outer one this is a command like any other: it goes on where it was, with
its own menu and directory, and reports how long the inner one took. What was added or changed
in the inner one is gone (`nested_shells_are_programs`). Whoever wants to leave has to leave
each of them (`one_exit_for_each_failure`).
-/

namespace OsProjects.Mc1

open OsProjects.Lib OsProjects.Mc2

/-! ## What one shell says -/

/-- The events of the shell with `depth` shells around it. -/
def pick (depth : Nat) (events : List (Nat × Event)) : List Event :=
  (events.filter fun x => x.1 == depth).map Prod.snd

/-- All events of a round. -/
def Answer.events : Answer → List (Nat × Event)
  | .error _ => []
  | .ok events => events

/-- The events of one shell in a session. -/
def said (depth : Nat) (h : History) : List Event :=
  (h.map fun e => pick depth e.2.events).flatten

/-- There is no shell but the outermost one. -/
def Alone (h : History) : Prop := ∀ e ∈ h, ∀ events, e.2 = .ok events → ∀ x ∈ events, x.1 = 0

section Events

variable {depth n : Nat} {h : History}

theorem pick_append (xs ys : List (Nat × Event)) :
    pick depth (xs ++ ys) = pick depth xs ++ pick depth ys := by
  simp [pick]

theorem pick_same (events : List Event) : pick n (events.map fun e => (n, e)) = events := by
  simp [pick, List.filter_map, Function.comp_def]

theorem pick_other (events : List Event) (hne : n ≠ depth) :
    pick depth (events.map fun e => (n, e)) = [] := by
  simp [pick, List.filter_map, Function.comp_def, hne]

theorem said_snoc (h : History) (e : Turn × Answer) :
    said depth (h ++ [e]) = said depth h ++ pick depth e.2.events := by
  simp [said]

variable {D : Type} {turn : Turn} {sh : Shell D} {outer : List (Shell D)} {events : List Event}

/-- A shell without others around it. -/
theorem pick_tells_nil : pick 0 (tells sh [] events) = .menu sh.cmds :: events :=
  pick_same (n := 0) _

/-- The outermost shell says nothing in the rounds of the others, -/
theorem pick_tells (hne : outer ≠ []) : pick 0 (tells sh outer events) = [] :=
  pick_other _ (by simpa using hne)

/-- unless it is the one that goes on. -/
theorem pick_resumes (hne : outer ≠ []) : pick 0 (resumes turn (sh :: outer)) = [] :=
  pick_other _ (by simpa using hne)

theorem pick_resumes_nil :
    pick 0 (resumes turn [sh]) = sh.reports turn.stop turn.stats :=
  pick_same (n := 0) _

theorem alone_tells : ∀ x ∈ tells sh [] events, x.1 = 0 := by
  simp [tells]

theorem alone_snoc {answer : Answer} (halone : Alone h)
    (hanswer : ∀ events, answer = .ok events → ∀ x ∈ events, x.1 = 0) :
    Alone (h ++ [(turn, answer)]) := by
  intro e he
  rcases List.mem_append.mp he with he | he
  · exact halone e he
  · rw [List.mem_singleton.mp he]
    exact hanswer

end Events

/-! ## A shell as a program -/

section Programs

variable {D : Type} {dirs : Directories D} {turn : Turn} {sh sh' : Shell D}
  {events : List Event}

/-- Only a command that could not be executed makes a second shell. -/
theorem forks_of_act (h : act dirs turn sh = .ok (events, .forks sh')) :
    ∃ opt args, turn.Readable ∧ 0 ≤ option turn sh ∧ sh.cmds[(option turn sh).toNat]? = some opt ∧
      assemble opt turn.line turn.pathLine = .ok args ∧ turn.outcome = .execFailed ∧
      events = shows opt ++ [.executes args] ∧ sh' = { sh with start := turn.start } := by
  rcases act_cases h with ⟨-, -, hnext⟩ | ⟨-, _, _, -, -, hnext⟩ | ⟨-, -, _, hnext⟩ |
    ⟨-, -, hnext⟩ | ⟨-, -, hnext⟩ | ⟨ho, opt, args, hopt, hargs, hevents, hnext⟩
  case inr.inr.inr.inr.inr =>
    refine ⟨opt, args, (act_ok h).1, ho, hopt, hargs, ?_⟩
    unfold executeCommand at hevents hnext
    cases houtcome : turn.outcome with
    | forkFailed | ran =>
      rw [houtcome] at hnext
      cases hnext
    | execFailed =>
      rw [houtcome] at hevents hnext
      cases hnext
      exact ⟨rfl, hevents, rfl⟩
  all_goals cases hnext

/-- The round of such a command is the beginning of the round of one that runs until `stop`. -/
theorem forks_as_program (h : act dirs turn sh = .ok (events, .forks sh')) (stop : Timeval)
    (stats : Rusage) : ∃ turn',
      act dirs turn' sh = .ok (events ++ sh'.reports stop stats, .stays sh') := by
  obtain ⟨opt, args, hread, ho, hopt, hargs, -, rfl, rfl⟩ := forks_of_act h
  refine ⟨{ turn with outcome := .ran, stop := stop, stats := stats }, ?_⟩
  rw [List.append_assoc]
  exact act_command hread ho hopt hargs

/-- The session `h` with all its shells, and one of the outermost shell alone: they are at the
same place, or that shell waits since the round of `turn` for a command that could not be
executed. -/
def Matches (dirs : Directories D) (h h' : History) (s t : List (Shell D)) : Prop :=
  Faultless h' ∧ Alone h' ∧
    (s = t ∧ s.length ≤ 1 ∧ said 0 h = said 0 h' ∨
      ∃ inner base turn events sh, inner ≠ [] ∧ s = inner ++ [sh] ∧ t = [base] ∧
        act dirs turn base = .ok (events, .forks sh) ∧
        said 0 h = said 0 h' ++ .menu base.cmds :: events)

variable {h h' : History} {s s' t : List (Shell D)} {answer : Answer}

/-- A round of the outermost shell, when it is the only one. -/
theorem Matches.step_alone (hok : Faultless h') (halone : Alone h') (hlength : s.length ≤ 1)
    (hsaid : said 0 h = said 0 h') (hstep : step dirs turn s = some (answer, s'))
    (hanswer : ∃ events, answer = .ok events) :
    ∃ ds h₁ t', run (step dirs) ds s = some (h₁, t') ∧
      Matches dirs (h ++ [(turn, answer)]) (h' ++ h₁) s' t' := by
  obtain ⟨sh, outer, rfl, hcases⟩ := step_cases hstep
  have houter : outer = [] := List.eq_nil_of_length_eq_zero (by simpa using hlength)
  subst houter
  rcases hcases with ⟨fault, -, rfl, -⟩ | ⟨events, sh', hact, rfl, rfl⟩ |
    ⟨events, sh', hact, rfl, rfl⟩ | ⟨events, hact, rfl, rfl⟩
  · obtain ⟨events, hevents⟩ := hanswer
    cases hevents
  · refine ⟨[turn], _, _, run_cons hstep rfl, faultless_snoc_iff.mpr ⟨hok, hanswer⟩,
      alone_snoc halone ?_, .inl ⟨rfl, by simp, by rw [said_snoc, said_snoc, hsaid]⟩⟩
    rintro _ ⟨⟩
    exact alone_tells
  · -- the shell waits from now on
    refine ⟨[], [], [sh], rfl, ?_⟩
    rw [List.append_nil]
    refine ⟨hok, halone, .inr ⟨[sh'], sh, turn, events, sh', by simp, rfl, rfl, hact, ?_⟩⟩
    rw [said_snoc, hsaid, Answer.events, pick_append, pick_tells_nil]
    simp [pick]
  · refine ⟨[turn], _, _, run_cons hstep rfl, faultless_snoc_iff.mpr ⟨hok, hanswer⟩,
      alone_snoc halone ?_, .inl ⟨rfl, by simp, by rw [said_snoc, said_snoc, hsaid]⟩⟩
    rintro _ ⟨⟩
    rw [resumes, List.append_nil]
    exact alone_tells

/-- A round of another shell, while the outermost one waits. -/
theorem Matches.step_waiting {inner : List (Shell D)} {base : Shell D} {since : Turn}
    (hok : Faultless h') (halone : Alone h') (hne : inner ≠ [])
    (hact : act dirs since base = .ok (events, .forks sh))
    (hsaid : said 0 h = said 0 h' ++ .menu base.cmds :: events)
    (hstep : step dirs turn (inner ++ [sh]) = some (answer, s'))
    (hanswer : ∃ events, answer = .ok events) :
    ∃ ds h₁ t', run (step dirs) ds [base] = some (h₁, t') ∧
      Matches dirs (h ++ [(turn, answer)]) (h' ++ h₁) s' t' := by
  obtain ⟨x, inner, rfl⟩ := List.exists_cons_of_ne_nil hne
  have hwaits : inner ++ [sh] ≠ [] := by simp
  -- while another shell is left, the session of the outermost one does not go on
  have hstays : ∀ inner' : List (Shell D), inner' ≠ [] → s' = inner' ++ [sh] →
      pick 0 answer.events = [] →
      ∃ ds h₁ t', run (step dirs) ds [base] = some (h₁, t') ∧
        Matches dirs (h ++ [(turn, answer)]) (h' ++ h₁) s' t' := by
    intro inner' hne' hs' hsilent
    refine ⟨[], [], [base], rfl, ?_⟩
    rw [List.append_nil]
    refine ⟨hok, halone, .inr ⟨inner', base, since, events, sh, hne', hs', rfl, hact, ?_⟩⟩
    rw [said_snoc, hsilent, List.append_nil, hsaid]
  rw [List.cons_append] at hstep
  obtain ⟨y, outer, heq, hcases⟩ := step_cases hstep
  obtain ⟨rfl, rfl⟩ := List.cons.inj heq
  rcases hcases with ⟨fault, -, rfl, -⟩ | ⟨_, x', -, rfl, rfl⟩ | ⟨_, x', -, rfl, rfl⟩ |
    ⟨_, -, rfl, rfl⟩
  · obtain ⟨_, hevents⟩ := hanswer
    cases hevents
  · exact hstays (x' :: inner) (by simp) rfl (pick_tells hwaits)
  · refine hstays (x' :: x' :: inner) (by simp) rfl ?_
    rw [Answer.events, pick_append, pick_tells hwaits]
    simp [pick]
  · cases inner with
    | cons y inner =>
      refine hstays (y :: inner) (by simp) rfl ?_
      rw [Answer.events, pick_append, pick_tells hwaits]
      exact pick_resumes (by simp)
    | nil =>
      -- the last one has left: the outermost one goes on
      obtain ⟨turn', hact'⟩ := forks_as_program hact turn.stop turn.stats
      have hstep' : step dirs turn' [base] =
          some (.ok (tells base [] (events ++ sh.reports turn.stop turn.stats)), [sh]) := by
        rw [step, hact']
      refine ⟨[turn'], _, _, run_cons hstep' rfl, faultless_snoc_iff.mpr ⟨hok, _, rfl⟩,
        alone_snoc halone ?_, .inl ⟨rfl, by simp, ?_⟩⟩
      · rintro _ ⟨⟩
        exact alone_tells
      · rw [said_snoc, said_snoc, hsaid, Answer.events, Answer.events, pick_append,
          pick_tells hwaits, List.nil_append, List.nil_append, pick_resumes_nil, pick_tells_nil,
          List.append_assoc, List.cons_append]

/-- The relation of the two sessions, up to the first fault. -/
def Follows (dirs : Directories D) (h h' : History) (s t : List (Shell D)) : Prop :=
  Faultless h → Matches dirs h h' s t

theorem Follows.step (hf : Follows dirs h h' s t)
    (hstep : Mc1.step dirs turn s = some (answer, s')) :
    ∃ ds h₁ t', run (Mc1.step dirs) ds t = some (h₁, t') ∧
      Follows dirs (h ++ [(turn, answer)]) (h' ++ h₁) s' t' := by
  by_cases hok : Faultless (h ++ [(turn, answer)])
  case neg => exact ⟨[], [], t, rfl, fun hc => absurd hc hok⟩
  obtain ⟨hbefore, hanswer⟩ := faultless_snoc_iff.mp hok
  obtain ⟨hok', halone, ⟨rfl, hlength, hsaid⟩ |
    ⟨inner, base, since, events, sh, hne, rfl, rfl, hact, hsaid⟩⟩ := hf hbefore
  · obtain ⟨ds, h₁, t', hrun', hmatches⟩ :=
      Matches.step_alone hok' halone hlength hsaid hstep hanswer
    exact ⟨ds, h₁, t', hrun', fun _ => hmatches⟩
  · obtain ⟨ds, h₁, t', hrun', hmatches⟩ :=
      Matches.step_waiting hok' halone hne hact hsaid hstep hanswer
    exact ⟨ds, h₁, t', hrun', fun _ => hmatches⟩

/-- However many shells there were within it: when the outermost shell is at its prompt again,
or has ended, there is a session of this shell alone, in which every command is executed, with
the same events of this shell and the same end. -/
theorem nested_shells_are_programs (turns : List Turn)
    (hrun : run (step dirs) turns [sh] = some (h, s)) (hok : Faultless h)
    (hback : s.length ≤ 1) :
    ∃ turns' h', run (step dirs) turns' [sh] = some (h', s) ∧ Faultless h' ∧ Alone h' ∧
      said 0 h = said 0 h' := by
  have hinit : Follows dirs [] [] [sh] [sh] :=
    fun _ => ⟨by simp [Faultless], by simp [Alone], .inl ⟨rfl, by simp, rfl⟩⟩
  obtain ⟨turns', h', t, hrun', hfollows⟩ := run_refines hinit
    (fun h h' s t turn answer s' hf hstep => hf.step hstep) turns h s hrun
  obtain ⟨hok', halone, ⟨rfl, -, hsaid⟩ | ⟨inner, _, _, _, _, hne, rfl, -⟩⟩ := hfollows hok
  · exact ⟨turns', h', hrun', hok', halone, hsaid⟩
  · have hinner := List.length_pos_iff.mpr hne
    rw [List.length_append, List.length_singleton] at hback
    omega

end Programs

/-- `whoami` is not found. In the shell within the shell a command is added and the directory
changed; the outer one, when it is back, is in the old directory. -/
def notFound : List Turn :=
  [{ chooses "0\n" "" with outcome := .execFailed }, chooses "a\n" "date\n",
    chooses "c\n" "/tmp\n", chooses "e\n" "", chooses "p\n" ""]

theorem nested_shells_are_programs_whoami : ∃ h s turns' h',
    session flatDirectories (literal "/") notFound = some (h, s) ∧ s = [startShell (literal "/")] ∧
      session flatDirectories (literal "/") turns' = some (h', s) ∧ Alone h' ∧
      said 0 h = said 0 h' := by
  have heval : (session flatDirectories (literal "/") notFound).map (fun x => decide
      (x.1.all (fun e => e.2.toOption.isSome) = true ∧ x.2 = [startShell (literal "/")])) =
        some true := by decide +kernel
  obtain ⟨⟨h, s⟩, hrun, heq⟩ := Option.map_eq_some_iff.mp heval
  obtain ⟨hok, hend⟩ := of_decide_eq_true heq
  have hs : s = [startShell (literal "/")] := hend
  obtain ⟨turns', h', hrun', -, halone, hsaid⟩ :=
    nested_shells_are_programs notFound hrun (.of_eval hok) (by rw [hs]; decide)
  exact ⟨h, s, turns', h', hrun, hs, hrun', halone, hsaid⟩

/-! ## Leaving -/

def Event.isExiting : Event → Bool
  | .exiting => true
  | _ => false

def Event.isExecutes : Event → Bool
  | .executes _ => true
  | _ => false

/-- A shell left in the round. -/
def leaves (e : Turn × Answer) : Bool := e.2.events.any fun x => x.2.isExiting

/-- A program was to be executed in the round, and could not be. -/
def fails (e : Turn × Answer) : Bool :=
  decide (e.1.outcome = .execFailed) && e.2.events.any fun x => x.2.isExecutes

section Leaving

variable {D : Type} {dirs : Directories D} {turn : Turn} {sh sh' : Shell D}
  {outer : List (Shell D)} {events : List Event}

theorem leaves_ok (xs : List (Nat × Event)) :
    leaves (turn, .ok xs) = xs.any fun x => x.2.isExiting := rfl

theorem fails_ok (xs : List (Nat × Event)) : fails (turn, .ok xs) =
    (decide (turn.outcome = .execFailed) && xs.any fun x => x.2.isExecutes) := rfl

theorem any_tells (p : Event → Bool) (hmenu : p (.menu sh.cmds) = false) :
    ((tells sh outer events).any fun x => p x.2) = events.any p := by
  simp [tells, hmenu, List.any_map, Function.comp_def]

theorem any_resumes (p : Event → Bool) (hstats : ∀ ms stats, p (.statistics ms stats) = false)
    (hblank : p .blank = false) : ((resumes turn outer).any fun x => p x.2) = false := by
  cases outer with
  | nil => rfl
  | cons sh outer => simp [resumes, Shell.reports, hstats, hblank]

theorem any_shows (opt : Opt) :
    (shows opt).any Event.isExiting = false ∧ (shows opt).any Event.isExecutes = false := by
  unfold shows
  cases opt.args <;> cases opt.argPath <;> exact ⟨rfl, rfl⟩

/-- The marks of a round in which the shell goes on. -/
theorem marks_of_stays (h : act dirs turn sh = .ok (events, .stays sh')) :
    events.any Event.isExiting = false ∧
      (turn.outcome = .execFailed → events.any Event.isExecutes = false) := by
  rcases act_cases h with ⟨-, rfl, -⟩ | ⟨-, id, _, -, rfl, -⟩ | ⟨-, rfl, -⟩ |
    ⟨-, rfl, hnext⟩ | ⟨-, rfl, -⟩ | ⟨-, opt, args, -, -, rfl, hnext⟩
  · exact ⟨rfl, fun _ => rfl⟩
  · by_cases hid : id < 0
    · rw [if_pos hid]
      exact ⟨rfl, fun _ => rfl⟩
    · rw [if_neg hid]
      exact ⟨rfl, fun _ => rfl⟩
  · exact ⟨rfl, fun _ => rfl⟩
  · cases hnext
  · exact ⟨rfl, fun _ => rfl⟩
  · obtain ⟨hexiting, -⟩ := any_shows opt
    rw [List.any_append, hexiting, Bool.false_or]
    unfold executeCommand at hnext ⊢
    cases houtcome : turn.outcome with
    | forkFailed | ran => exact ⟨rfl, fun hc => by cases hc⟩
    | execFailed =>
      rw [houtcome] at hnext
      cases hnext

theorem marks_of_exits (h : act dirs turn sh = .ok (events, .exits)) : events = [.exiting] := by
  rcases act_cases h with ⟨-, -, hnext⟩ | ⟨-, _, _, -, -, hnext⟩ | ⟨-, -, _, hnext⟩ |
    ⟨-, hevents, -⟩ | ⟨-, -, hnext⟩ | ⟨-, opt, args, -, -, -, hnext⟩
  case inr.inr.inr.inl => exact hevents
  case inr.inr.inr.inr.inr =>
    rcases executeCommand_cases turn args sh with hexec | hexec <;> rw [hexec] at hnext <;>
      cases hnext
  all_goals cases hnext

/-- One more shell for each program that could not be executed, one less for each that left. -/
theorem step_length {s s' : List (Shell D)} {answer : Answer}
    (hstep : step dirs turn s = some (answer, s')) (hanswer : ∃ events, answer = .ok events) :
    s'.length + (leaves (turn, answer)).toNat = s.length + (fails (turn, answer)).toNat := by
  obtain ⟨sh, outer, rfl, hcases⟩ := step_cases hstep
  rcases hcases with ⟨fault, -, rfl, -⟩ | ⟨events, sh', hact, rfl, rfl⟩ |
    ⟨events, sh', hact, rfl, rfl⟩ | ⟨events, hact, rfl, rfl⟩
  · obtain ⟨_, hevents⟩ := hanswer
    cases hevents
  · obtain ⟨hexiting, hexecutes⟩ := marks_of_stays hact
    have hleaves : leaves (turn, .ok (tells sh outer events)) = false := by
      rw [leaves_ok, any_tells Event.isExiting rfl, hexiting]
    have hfails : fails (turn, .ok (tells sh outer events)) = false := by
      rw [fails_ok, any_tells Event.isExecutes rfl]
      by_cases houtcome : turn.outcome = .execFailed
      · rw [hexecutes houtcome, Bool.and_false]
      · rw [decide_eq_false houtcome, Bool.false_and]
    rw [hleaves, hfails]
    rfl
  · obtain ⟨opt, args, -, -, -, -, houtcome, rfl, -⟩ := forks_of_act hact
    obtain ⟨hexiting, hexecutes⟩ := any_shows opt
    have hleaves : leaves (turn, .ok (tells sh outer (shows opt ++ [.executes args]) ++
        [(outer.length + 1, .blank)])) = false := by
      rw [leaves_ok, List.any_append, any_tells Event.isExiting rfl, List.any_append, hexiting]
      rfl
    have hfails : fails (turn, .ok (tells sh outer (shows opt ++ [.executes args]) ++
        [(outer.length + 1, .blank)])) = true := by
      rw [fails_ok, List.any_append, any_tells Event.isExecutes rfl, List.any_append, hexecutes,
        houtcome]
      rfl
    rw [hleaves, hfails]
    rfl
  · obtain rfl := marks_of_exits hact
    have hleaves : leaves (turn, .ok (tells sh s' [.exiting] ++ resumes turn s')) = true := by
      rw [leaves_ok, List.any_append, any_tells Event.isExiting rfl]
      rfl
    have hfails : fails (turn, .ok (tells sh s' [.exiting] ++ resumes turn s')) = false := by
      rw [fails_ok, List.any_append, any_tells Event.isExecutes rfl,
        any_resumes Event.isExecutes (fun _ _ => rfl) rfl]
      exact Bool.and_false _
    rw [hleaves, hfails]
    rfl

/-- For each program that could not be executed there is one more `e` to be typed. -/
theorem one_exit_for_each_failure {h : History} {s : List (Shell D)} (turns : List Turn)
    (hrun : run (step dirs) turns [sh] = some (h, s)) (hok : Faultless h) :
    s.length + h.countP leaves = 1 + h.countP fails := by
  refine run_rule (P := fun h (s : List (Shell D)) => Faultless h →
    s.length + h.countP leaves = 1 + h.countP fails) (fun _ => rfl) ?_ turns h s hrun hok
  intro h s turn answer s' ih hstep hok
  obtain ⟨hbefore, hanswer⟩ := faultless_snoc_iff.mp hok
  have hlength := step_length hstep hanswer
  have ih := ih hbefore
  simp only [List.countP_append, List.countP_singleton]
  cases hl : leaves (turn, answer) <;> cases hf : fails (turn, answer) <;>
    rw [hl, hf] at hlength <;> simp only [Bool.toNat_true, Bool.toNat_false] at hlength <;>
    simp only [Bool.false_eq_true, if_false, if_true] <;> omega

end Leaving

/-- Twice `e` after one command that was not found. -/
theorem one_exit_for_each_failure_whoami : ∃ h s,
    session flatDirectories (literal "/") (notFound ++ [chooses "e\n" ""]) = some (h, s) ∧
      s = [] ∧ h.countP fails = 1 ∧ h.countP leaves = 2 := by
  have heval : (session flatDirectories (literal "/") (notFound ++ [chooses "e\n" ""])).map
      (fun x => decide (x.1.all (fun e => e.2.toOption.isSome) = true ∧ x.2 = [] ∧
        x.1.countP fails = 1)) = some true := by decide +kernel
  obtain ⟨⟨h, s⟩, hrun, heq⟩ := Option.map_eq_some_iff.mp heval
  obtain ⟨hok, hend, hcommands⟩ := of_decide_eq_true heq
  have hs : s = [] := hend
  have hfails : h.countP fails = 1 := hcommands
  have hcount := one_exit_for_each_failure (notFound ++ [chooses "e\n" ""]) hrun (.of_eval hok)
  refine ⟨h, s, hrun, hs, hfails, ?_⟩
  rw [hs, hfails, List.length_nil] at hcount
  omega

end OsProjects.Mc1
