import OsProjects.Mc1.Options
import OsProjects.Mc2.Arguments
import OsProjects.Mc2.Table

/-!
# `Project1/v1`: the shell

`main` and `executeCommand` of `mc1.c`. A round of the loop reads a choice and what the
choice asks for. The parent waits in `executeCommand` until its child has ended; but a child
in which `execvp` has failed goes on after the call, like its parent, and is a second shell at
the menu, with copies of all variables. So what there is at any time is a stack of shells: the
innermost one reads, each of the others waits for the one above it, and goes on when that one
has ended.

Input and output are a terminal: a line is read as a whole and a printed line is out, so that
a `fork` copies no buffered text. `args` is freed in every branch and not part of the state.
Of the texts that are printed, `Event` has what is put into them.
-/

namespace OsProjects.Mc1

open OsProjects.Lib OsProjects.Mc2

/-- `MAX_DIR_LENGTH` -/
abbrev maxDirLength : Nat := 128

/-- Where a round leaves the C language. -/
inductive Fault
  | memory (fault : Mc2.Fault)
  /-- A variable used that nothing was written to. -/
  | indeterminate
  /-- `atoi` of a number that is not an `int`. -/
  | range
  deriving DecidableEq

/-- What becomes of a command. -/
inductive Outcome
  | forkFailed
  /-- The program ran and has ended. -/
  | ran
  | execFailed
  deriving DecidableEq

/-- What a round reads, and what the system calls in it say. -/
structure Turn where
  choiceStr : List (BitVec 8)
  feof : Bool
  /-- The command, the directory or the arguments. -/
  line : List (BitVec 8)
  /-- The path argument. -/
  pathLine : List (BitVec 8)
  /-- The `malloc` of `appendOption`. -/
  allocated : Bool
  outcome : Outcome
  start : Timeval
  /-- When `wait3` has returned, in this shell or in the one that waits for it. -/
  stop : Timeval
  stats : Rusage

/-- The file system: `chdir` and `getcwd`. -/
structure Directories (D : Type) where
  chdir : CString → D → Option D
  getcwd : D → CString

structure Shell (D : Type) where
  cmds : List Opt
  cwd : D
  /-- `start` of the last call of `executeCommand`. -/
  start : Timeval
  deriving DecidableEq

/-- What a shell prints, and the programs it starts. -/
inductive Event
  | menu (cmds : List Opt)
  | invalidChoice
  | commandPrompt
  | added (id : Int)
  | notAdded
  | pathPrompt
  | argumentsPrompt
  | cwd (path : CString)
  | head (text : CString)
  | executes (args : List (Option CString))
  | forkFailed
  | statistics (milliseconds : Int) (stats : Rusage)
  | blank
  | exiting
  deriving DecidableEq

/-- What a shell is after a round. -/
inductive Next (D : Type)
  | stays (sh : Shell D)
  /-- The parent, which waits, and the child, which is at the menu. -/
  | forks (sh : Shell D)
  | exits

section Rounds

variable {D : Type}

/-- The parent's branch of `executeCommand` after `wait3`, and the line that `main` prints
after the call. -/
def Shell.reports (sh : Shell D) (stop : Timeval) (stats : Rusage) : List Event :=
  [.statistics (milliseconds sh.start stop) stats, .blank]

def executeCommand (turn : Turn) (args : List (Option CString)) (sh : Shell D) :
    List Event × Next D :=
  let sh := { sh with start := turn.start }
  match turn.outcome with
  | .forkFailed => ([.forkFailed, .blank], .stays sh)
  | .ran => (.executes args :: sh.reports turn.stop turn.stats, .stays sh)
  | .execFailed => ([.executes args], .forks sh)

/-- `args` as `executeCommand` gets it. -/
def assemble (opt : Opt) (argsLine pathLine : List (BitVec 8)) :
    Except Fault (List (Option CString)) :=
  match Mc2.assemble opt argsLine pathLine with
  | .error fault => .error (.memory fault)
  | .ok args => .ok args

/-- What is printed before the command is started. -/
def shows (opt : Opt) : List Event :=
  [.blank, .head opt.head] ++ (if opt.args then [.argumentsPrompt] else []) ++
    (if opt.argPath then [.pathPrompt] else [])

/-- Where `selectOption` leaves the C language: nothing was read, and the input is not at its
end; or the number is not an `int`. -/
def choiceFault (turn : Turn) : Option Fault :=
  if turn.feof then none
  else if turn.choiceStr = [] then some .indeterminate
  else if isdigit (turn.choiceStr.headD 0) = true ∧ ¬ FitsInt (strtol (cString turn.choiceStr))
  then some .range
  else none

/-- The choice of a round. -/
def option (turn : Turn) (sh : Shell D) : Int :=
  selectOption sh.cmds.length turn.feof turn.choiceStr

variable (dirs : Directories D)

/-- What comes of the choice. -/
def perform (turn : Turn) (sh : Shell D) : Except Fault (List Event × Next D) :=
  if option turn sh = -1 then .ok ([.invalidChoice], .stays sh)
  else if option turn sh = optA then
    match addOption turn.allocated sh.cmds turn.line with
    | .error fault => .error (.memory fault)
    | .ok (id, cmds) =>
      .ok ([.commandPrompt, if id < 0 then .notAdded else .added id, .blank],
        .stays { sh with cmds := cmds })
  else if option turn sh = optC then
    match fgets maxInLength turn.line with
    | .error fault => .error (.memory fault)
    | .ok path =>
      -- what `chdir` returns is not looked at
      .ok ([.pathPrompt, .blank],
        .stays { sh with cwd := (dirs.chdir (cleanNewline path) sh.cwd).getD sh.cwd })
  else if option turn sh = optE then .ok ([.exiting], .exits)
  else if option turn sh = optP then
    -- `getcwd` writes nothing if the path is too long
    if (dirs.getcwd sh.cwd).length + 1 ≤ maxDirLength then
      .ok ([.cwd (dirs.getcwd sh.cwd), .blank], .stays sh)
    else .error .indeterminate
  else
    match sh.cmds[(option turn sh).toNat]? with
    | none => .error .indeterminate -- the number after the last one
    | some opt =>
      match assemble opt turn.line turn.pathLine with
      | .error fault => .error fault
      | .ok args =>
        .ok (shows opt ++ (executeCommand turn args sh).1, (executeCommand turn args sh).2)

/-- A round of the loop of `main`, after the menu. -/
def act (turn : Turn) (sh : Shell D) : Except Fault (List Event × Next D) :=
  match choiceFault turn with
  | some fault => .error fault
  | none => perform dirs turn sh

/-- The events of a round, each with the number of shells around the one it is of. -/
abbrev Answer := Except Fault (List (Nat × Event))

/-- The shell that waits goes on when the one above it has ended. -/
def resumes (turn : Turn) : List (Shell D) → List (Nat × Event)
  | [] => []
  | sh :: outer => (sh.reports turn.stop turn.stats).map fun e => (outer.length, e)

/-- The events of the innermost shell itself. -/
def tells (sh : Shell D) (outer : List (Shell D)) (events : List Event) : List (Nat × Event) :=
  (.menu sh.cmds :: events).map fun e => (outer.length, e)

/-- A round of the innermost shell. -/
def step (turn : Turn) : List (Shell D) → Option (Answer × List (Shell D))
  | [] => none
  | sh :: outer =>
    match act dirs turn sh with
    | .error fault => some (.error fault, []) -- what comes after a fault is not defined
    | .ok (events, .stays sh') => some (.ok (tells sh outer events), sh' :: outer)
    | .ok (events, .forks sh') =>
      some (.ok (tells sh outer events ++ [(outer.length + 1, .blank)]), sh' :: sh' :: outer)
    | .ok (events, .exits) => some (.ok (tells sh outer events ++ resumes turn outer), outer)

abbrev History := List (Turn × Answer)

/-- The first shell, when its loop starts. -/
def startShell (cwd : D) : Shell D where
  cmds := defaultOptions
  cwd := cwd
  start := default

/-- The rounds `turns`, one after the other. -/
def session (cwd : D) (turns : List Turn) : Option (History × List (Shell D)) :=
  run (step dirs) turns [startShell cwd]

/-! ## What a round can do -/

variable {dirs} {turn : Turn} {sh : Shell D} {s s' : List (Shell D)} {answer : Answer}

theorem step_cases (h : step dirs turn s = some (answer, s')) : ∃ sh outer, s = sh :: outer ∧
    ((∃ fault, act dirs turn sh = .error fault ∧ answer = .error fault ∧ s' = []) ∨
      (∃ events sh', act dirs turn sh = .ok (events, .stays sh') ∧
        answer = .ok (tells sh outer events) ∧ s' = sh' :: outer) ∨
      (∃ events sh', act dirs turn sh = .ok (events, .forks sh') ∧
        answer = .ok (tells sh outer events ++ [(outer.length + 1, .blank)]) ∧
        s' = sh' :: sh' :: outer) ∨
      ∃ events, act dirs turn sh = .ok (events, .exits) ∧
        answer = .ok (tells sh outer events ++ resumes turn outer) ∧ s' = outer) := by
  cases s with
  | nil => cases h
  | cons sh outer =>
    refine ⟨sh, outer, rfl, ?_⟩
    rw [step] at h
    split at h
    · next fault hact =>
      cases h
      exact .inl ⟨fault, hact, rfl, rfl⟩
    · next events sh' hact =>
      cases h
      exact .inr (.inl ⟨events, sh', hact, rfl, rfl⟩)
    · next events sh' hact =>
      cases h
      exact .inr (.inr (.inl ⟨events, sh', hact, rfl, rfl⟩))
    · next events hact =>
      cases h
      exact .inr (.inr (.inr ⟨events, hact, rfl, rfl⟩))

/-- The choices there are. -/
theorem option_cases (turn : Turn) (sh : Shell D) :
    option turn sh = -1 ∨ option turn sh = optA ∨ option turn sh = optC ∨
      option turn sh = optE ∨ option turn sh = optP ∨
      0 ≤ option turn sh ∧ option turn sh ≤ sh.cmds.length := by
  simp only [option, selectOption, optA, optC, optE, optP]
  repeat' split
  all_goals omega

/-- What the choice must be. -/
def Turn.Readable (turn : Turn) : Prop := turn.feof = false → turn.choiceStr ≠ [] ∧
  (isdigit (turn.choiceStr.headD 0) = true → FitsInt (strtol (cString turn.choiceStr)))

theorem choiceFault_eq_none_iff : choiceFault turn = none ↔ turn.Readable := by
  unfold choiceFault Turn.Readable
  cases turn.feof with
  | true => simp
  | false =>
    by_cases hread : turn.choiceStr = []
    · simp [hread]
    · simp [hread]

theorem act_of_readable (hread : turn.Readable) : act dirs turn sh = perform dirs turn sh := by
  rw [act, choiceFault_eq_none_iff.mpr hread]

theorem act_ok {x : List Event × Next D} (h : act dirs turn sh = .ok x) :
    turn.Readable ∧ perform dirs turn sh = .ok x := by
  unfold act at h
  split at h
  · cases h
  · next hnone => exact ⟨choiceFault_eq_none_iff.mp hnone, h⟩

/-! What comes of each of the choices. -/

theorem perform_invalid (ho : option turn sh = -1) :
    perform dirs turn sh = .ok ([.invalidChoice], .stays sh) := by
  rw [perform, if_pos ho]

theorem perform_add (ho : option turn sh = optA) :
    perform dirs turn sh = match addOption turn.allocated sh.cmds turn.line with
      | .error fault => .error (.memory fault)
      | .ok (id, cmds) =>
        .ok ([.commandPrompt, if id < 0 then .notAdded else .added id, .blank],
          .stays { sh with cmds := cmds }) := by
  rw [perform, if_neg (by rw [ho]; decide), if_pos ho]

theorem perform_chdir (ho : option turn sh = optC) :
    perform dirs turn sh = match fgets maxInLength turn.line with
      | .error fault => .error (.memory fault)
      | .ok path =>
        .ok ([.pathPrompt, .blank],
          .stays { sh with cwd := (dirs.chdir (cleanNewline path) sh.cwd).getD sh.cwd }) := by
  rw [perform, if_neg (by rw [ho]; decide), if_neg (by rw [ho]; decide), if_pos ho]

theorem perform_exit (ho : option turn sh = optE) :
    perform dirs turn sh = .ok ([.exiting], .exits) := by
  rw [perform, if_neg (by rw [ho]; decide), if_neg (by rw [ho]; decide),
    if_neg (by rw [ho]; decide), if_pos ho]

theorem perform_pwd (ho : option turn sh = optP) :
    perform dirs turn sh = if (dirs.getcwd sh.cwd).length + 1 ≤ maxDirLength then
        .ok ([.cwd (dirs.getcwd sh.cwd), .blank], .stays sh)
      else .error .indeterminate := by
  rw [perform, if_neg (by rw [ho]; decide), if_neg (by rw [ho]; decide),
    if_neg (by rw [ho]; decide), if_neg (by rw [ho]; decide), if_pos ho]

theorem perform_number (ho : 0 ≤ option turn sh) :
    perform dirs turn sh = match sh.cmds[(option turn sh).toNat]? with
      | none => .error .indeterminate
      | some opt =>
        match assemble opt turn.line turn.pathLine with
        | .error fault => .error fault
        | .ok args =>
          .ok (shows opt ++ (executeCommand turn args sh).1, (executeCommand turn args sh).2) := by
  have hne : ∀ n : Int, n < 0 → option turn sh ≠ n := by
    intro n hn
    omega
  rw [perform, if_neg (hne (-1) (by decide)), if_neg (hne optA (by decide)),
    if_neg (hne optC (by decide)), if_neg (hne optE (by decide)), if_neg (hne optP (by decide))]

theorem act_command {opt : Opt} {args : List (Option CString)} (hread : turn.Readable)
    (ho : 0 ≤ option turn sh) (hopt : sh.cmds[(option turn sh).toNat]? = some opt)
    (hargs : assemble opt turn.line turn.pathLine = .ok args) :
    act dirs turn sh =
      .ok (shows opt ++ (executeCommand turn args sh).1, (executeCommand turn args sh).2) := by
  rw [act_of_readable hread, perform_number ho, hopt]
  simp only [hargs]

/-- Everything that a round without a fault can be. -/
theorem act_cases {events : List Event} {next : Next D}
    (h : act dirs turn sh = .ok (events, next)) :
    (option turn sh = -1 ∧ events = [.invalidChoice] ∧ next = .stays sh) ∨
    (option turn sh = optA ∧ ∃ id cmds,
      addOption turn.allocated sh.cmds turn.line = .ok (id, cmds) ∧
      events = [.commandPrompt, if id < 0 then .notAdded else .added id, .blank] ∧
      next = .stays { sh with cmds := cmds }) ∨
    (option turn sh = optC ∧ events = [.pathPrompt, .blank] ∧
      ∃ cwd, next = .stays { sh with cwd := cwd }) ∨
    (option turn sh = optE ∧ events = [.exiting] ∧ next = .exits) ∨
    (option turn sh = optP ∧ events = [.cwd (dirs.getcwd sh.cwd), .blank] ∧ next = .stays sh) ∨
    (0 ≤ option turn sh ∧ ∃ opt args, sh.cmds[(option turn sh).toNat]? = some opt ∧
      assemble opt turn.line turn.pathLine = .ok args ∧
      events = shows opt ++ (executeCommand turn args sh).1 ∧
      next = (executeCommand turn args sh).2) := by
  replace h := (act_ok h).2
  rcases option_cases turn sh with ho | ho | ho | ho | ho | ⟨ho, -⟩
  · refine .inl ⟨ho, ?_⟩
    rw [perform_invalid ho] at h
    cases h
    exact ⟨rfl, rfl⟩
  · refine .inr (.inl ⟨ho, ?_⟩)
    rw [perform_add ho] at h
    split at h
    · cases h
    · next id cmds hadd =>
      cases h
      exact ⟨id, cmds, hadd, rfl, rfl⟩
  · refine .inr (.inr (.inl ⟨ho, ?_⟩))
    rw [perform_chdir ho] at h
    split at h
    · cases h
    · cases h
      exact ⟨rfl, _, rfl⟩
  · refine .inr (.inr (.inr (.inl ⟨ho, ?_⟩)))
    rw [perform_exit ho] at h
    cases h
    exact ⟨rfl, rfl⟩
  · refine .inr (.inr (.inr (.inr (.inl ⟨ho, ?_⟩))))
    rw [perform_pwd ho] at h
    split at h
    · cases h
      exact ⟨rfl, rfl⟩
    · cases h
  · refine .inr (.inr (.inr (.inr (.inr ⟨ho, ?_⟩))))
    rw [perform_number ho] at h
    split at h
    · cases h
    · next opt hopt =>
      split at h
      · cases h
      · next args hargs =>
        cases h
        exact ⟨opt, args, hopt, hargs, rfl, rfl⟩

end Rounds

end OsProjects.Mc1
