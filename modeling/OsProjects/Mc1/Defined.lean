import OsProjects.Mc1.Shell

/-!
# `Project1/v1`: sessions that stay within the C language

Every menu, also that of a child that came back, is the three default options and then
options that `addOption` has appended, whose `defArgs` points nowhere. So only the default
options can be run; whoever adds a command and then chooses it, or chooses the number after
the last one, leaves the C language. The other conditions are about the lines: those that
are read exist and fit, a number is an `int`, and there is room for the command that is added.
-/

namespace OsProjects.Mc1

open OsProjects.Lib OsProjects.Mc2

/-! ## The menus -/

section Shells

variable {D : Type} {dirs : Directories D} {turn : Turn} {sh sh' : Shell D}
  {events : List Event}

/-- A command changes nothing but the timer. -/
theorem executeCommand_cases (turn : Turn) (args : List (Option CString)) (sh : Shell D) :
    (executeCommand turn args sh).2 = .stays { sh with start := turn.start } ∨
      (executeCommand turn args sh).2 = .forks { sh with start := turn.start } := by
  unfold executeCommand
  cases turn.outcome with
  | forkFailed => exact .inl rfl
  | ran => exact .inl rfl
  | execFailed => exact .inr rfl

end Shells

/-! ## The calls of a round -/

section Calls

variable {allocated : Bool} {cmds : List Opt} {line argsLine pathLine : List (BitVec 8)}

/-- A line for `addOption`: it exists and fits, it has a token unless it is empty, and there
is room for the option. -/
structure Addable (allocated : Bool) (cmds : List Opt) (line : List (BitVec 8)) : Prop where
  read : line ≠ []
  fits : NameFits line
  token : typed line ≠ [] → tokens space (typed line) ≠ []
  room : allocated = true → tokens space (typed line) ≠ [] → cmds.length < maxOptions

end Calls

/-! ## Rounds and sessions -/

section Sessions

variable {D : Type} {dirs : Directories D} {turn : Turn} {sh : Shell D}

/-- What a round must be given. -/
@[mk_iff]
structure Fits (dirs : Directories D) (turn : Turn) (sh : Shell D) : Prop where
  choice : turn.Readable
  add : option turn sh = optA → Addable turn.allocated sh.cmds turn.line
  chdir : option turn sh = optC → Delivered turn.line
  pwd : option turn sh = optP → (dirs.getcwd sh.cwd).length < maxDirLength
  /-- only the default options, the last of which reads two lines. -/
  number : 0 ≤ option turn sh → option turn sh < 3 ∧
    (option turn sh = 2 → Delivered turn.line ∧ Delivered turn.pathLine)

/-- No round so far had a fault. -/
def Faultless (h : History) : Prop := ∀ e ∈ h, ∃ events, e.2 = .ok events

theorem Faultless.of_eval {h : History} (hall : h.all (fun e => e.2.toOption.isSome) = true) :
    Faultless h := by
  intro e he
  have hsome := List.all_eq_true.mp hall e he
  cases hanswer : e.2 with
  | error fault =>
    rw [hanswer] at hsome
    cases hsome
  | ok events => exact ⟨events, rfl⟩

theorem faultless_snoc_iff {h : History} {e : Turn × Answer} :
    Faultless (h ++ [e]) ↔ Faultless h ∧ ∃ events, e.2 = .ok events := by
  simp only [Faultless, List.forall_mem_append, List.forall_mem_singleton]

end Sessions

/-- A directory is its path, and they all exist. -/
def flatDirectories : Directories CString where
  chdir path _ := some path
  getcwd path := path

/-- A round with this choice and this line, in which a command that is run comes to its end. -/
def chooses (choice line : String) : Turn where
  choiceStr := literal choice
  feof := false
  line := literal line
  pathLine := literal "\n"
  allocated := true
  outcome := .ran
  start := default
  stop := default
  stats := default

-- the command that was added, the number after it, and a number that is no `int`
example : ((session flatDirectories (literal "/") [chooses "a\n" "date\n", chooses "3\n" ""]).map
    fun x => x.1.map fun e => e.2.toOption.isSome) = some [true, false] := by decide +kernel

example : ((session flatDirectories (literal "/") [chooses "3\n" ""]).map
    fun x => x.1.map fun e => e.2.toOption.isSome) = some [false] := by decide +kernel

example : ((session flatDirectories (literal "/") [chooses "4294967296\n" ""]).map
    fun x => x.1.map fun e => e.2.toOption.isSome) = some [false] := by decide +kernel

end OsProjects.Mc1
