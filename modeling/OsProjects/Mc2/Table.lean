import OsProjects.Lib.Cells

/-!
# `Project1/v2`: the table of background processes

`processes` and `jobCounter`, and the functions of `cprocess.c` on them. A tracker is an
index of the array. An entry is in use while its `pid` is not 0; `cleanCommand` resets
only the `pid`, so that an entry no longer in use keeps its job number, and
`decrementJobs` goes on counting it down.
-/

namespace OsProjects.Mc2

open OsProjects.Lib

/-- `MAX_BGPROCESSES` -/
abbrev maxBgProcesses : Nat := 100

structure Timeval where
  tvSec : Int
  tvUsec : Int
  deriving DecidableEq, Inhabited

/-- What is printed of `struct rusage`. -/
structure Rusage where
  majflt : Int
  minflt : Int
  deriving DecidableEq, Inhabited

/-- `struct cprocess` -/
structure Cprocess where
  start : Timeval
  stop : Timeval
  pid : Int
  jobnum : Int
  deriving DecidableEq, Inhabited

abbrev Processes := Cells Cprocess maxBgProcesses

/-! ## What is printed -/

inductive Line
  | jobComplete (jobnum : Int)
  | processId (pid : Int)
  | statistics (milliseconds : Int) (stats : Rusage)
  | running (jobnum pid : Int)
  | forkFailed
  deriving DecidableEq

/-- The text of a line. -/
def Line.text : Line → String
  | .jobComplete jobnum => s!"\n-- Job Complete [{jobnum}] --\n"
  | .processId pid => s!"Process ID: {pid}\n"
  | .statistics milliseconds stats =>
    let majflt := stats.majflt
    let minflt := stats.minflt
    "\n--- Statistics ---\n" ++
      (if milliseconds < 1 then "Elapsed time: <1 millisecond\n"
        else s!"Elapsed time: {milliseconds} milliseconds\n") ++
      s!"Page faults: {majflt}\n" ++ s!"Page faults (reclaimed): {minflt}\n"
  | .running jobnum pid => s!"[{jobnum}] Process ID: {pid}\n"
  | .forkFailed => "Fork failed; aborting...\n"

/-! ## `cprocess.c` -/

/-- `processes` and `jobCounter`. -/
structure Table where
  processes : Processes
  jobCounter : Int
  deriving DecidableEq

/-- Start-up: the global array is zero, and `main` sets the counter. -/
def init : Table where
  processes := Cells.ofFn fun _ => default
  jobCounter := 1

def decrementJobs (t : Table) (n : Int) : Table where
  processes := t.processes.map fun e =>
    if n < e.jobnum then { e with jobnum := e.jobnum - 1 } else e
  jobCounter := t.jobCounter - 1

def findProcess (array : Processes) (pid : Int) : Option Nat := array.find fun e => e.pid == pid

def findJobnum (array : Processes) (n : Int) : Option Nat := array.find fun e => e.jobnum == n

/-- `executeCommand`, in the parent: the timer, and the result of `fork`. -/
def executeCommand (tracker : Cprocess) (now : Timeval) (fork : Int) : Cprocess :=
  { tracker with start := now, pid := fork }

/-- The elapsed time that `cleanCommand` computes. -/
def milliseconds (start stop : Timeval) : Int :=
  (stop.tvSec - start.tvSec) * 1000 + (stop.tvUsec - start.tvUsec).tdiv 1000

def cleanCommand (tracker : Cprocess) (now : Timeval) (stats : Rusage) : List Line × Cprocess :=
  ([.statistics (milliseconds tracker.start now) stats], { tracker with stop := now, pid := 0 })

/-! ## Starting and completing a background process -/

/-- The non-blocking branch of `main`, with a `fork` that returns `pid`. -/
def startJob (t : Table) (now : Timeval) (pid : Int) : Option Table := do
  let proc ← findProcess t.processes 0
  let processes := t.processes.set proc
    { t.processes.get proc with jobnum := t.jobCounter }
  some
    { processes := processes.set proc (executeCommand (processes.get proc) now pid)
      jobCounter := t.jobCounter + 1 }

/-- What `waitThread` and `main` do when `wait3` has returned `pid`. -/
def completeJob (t : Table) (now : Timeval) (stats : Rusage) (pid : Int) :
    Option (List Line × Table) := do
  let tracker ← findProcess t.processes pid
  let job := t.processes.get tracker
  let t := decrementJobs t job.jobnum
  let (lines, cleaned) := cleanCommand (t.processes.get tracker) now stats
  some (.jobComplete job.jobnum :: .processId job.pid :: lines,
    { t with processes := t.processes.set tracker cleaned })

/-- The loop of the `r` option: the tracker found for each number. -/
def running (t : Table) : List (Option Nat) :=
  (List.range (t.jobCounter - 1).toNat).map fun (k : Nat) => findJobnum t.processes (k + 1)

/-- What that loop prints; it does not come back from a `NULL` tracker. -/
def runningLines (t : Table) : Option (List Line) :=
  (running t).mapM fun job => job.map fun i =>
    .running (t.processes.get i).jobnum (t.processes.get i).pid

/-! ## Specifications -/

/-- An entry in use. -/
def Cprocess.inUse (e : Cprocess) : Bool := e.pid != 0

variable {t t' : Table} {pid n : Int} {i : Nat}

theorem findProcess_eq_some : findProcess t.processes pid = some i ↔
    i < maxBgProcesses ∧ (t.processes.get i).pid = pid ∧
      ∀ j, j < i → (t.processes.get j).pid ≠ pid := by
  simp [findProcess, Cells.find_eq_some_iff]

theorem findProcess_eq_none : findProcess t.processes pid = none ↔
    ∀ i, i < maxBgProcesses → (t.processes.get i).pid ≠ pid := by
  simp [findProcess, Cells.find_eq_none_iff]

theorem findJobnum_eq_some : findJobnum t.processes n = some i ↔
    i < maxBgProcesses ∧ (t.processes.get i).jobnum = n ∧
      ∀ j, j < i → (t.processes.get j).jobnum ≠ n := by
  simp [findJobnum, Cells.find_eq_some_iff]

/-- With less than all entries in use, a start finds one. -/
theorem findProcess_free (hroom : t.processes.used Cprocess.inUse < maxBgProcesses) :
    ∃ i, findProcess t.processes 0 = some i := by
  obtain ⟨i, hlt, hfree⟩ := Cells.exists_unused hroom
  refine Cells.find_of_match hlt ?_
  simpa [Cprocess.inUse] using hfree

/-- The first entry not in use gets the pid and the next number. -/
theorem startJob_spec (now : Timeval) (pid : Int) (hi : findProcess t.processes 0 = some i) :
    ∃ e, e.pid = pid ∧ e.jobnum = t.jobCounter ∧ startJob t now pid =
      some { processes := t.processes.set i e, jobCounter := t.jobCounter + 1 } := by
  obtain ⟨hlt, -, -⟩ := findProcess_eq_some.mp hi
  refine ⟨executeCommand { t.processes.get i with jobnum := t.jobCounter } now pid, rfl, rfl, ?_⟩
  simp only [startJob, hi, Option.bind_eq_bind, Option.bind_some, Cells.get_set_eq _ _ hlt,
    Cells.set_set _ _ _ hlt]

/-- The number of an entry after `decrementJobs(.., n)`. -/
def renumber (n jobnum : Int) : Int := if n < jobnum then jobnum - 1 else jobnum

theorem get_decrementJobs (hi : i < maxBgProcesses) :
    ((decrementJobs t n).processes.get i).pid = (t.processes.get i).pid ∧
      ((decrementJobs t n).processes.get i).jobnum = renumber n (t.processes.get i).jobnum := by
  rw [decrementJobs, Cells.get_map _ _ hi, renumber]
  split <;> exact ⟨rfl, rfl⟩

/-- The entry of `pid` is freed and keeps its number; higher numbers move down. -/
theorem completeJob_spec (now : Timeval) (stats : Rusage)
    (hi : findProcess t.processes pid = some i) :
    ∃ lines t', completeJob t now stats pid = some (lines, t') ∧
      t'.jobCounter = t.jobCounter - 1 ∧ (t'.processes.get i).pid = 0 ∧
      (∀ j, j < maxBgProcesses → (t'.processes.get j).jobnum =
        renumber (t.processes.get i).jobnum (t.processes.get j).jobnum) ∧
      (∀ j, j < maxBgProcesses → j ≠ i → (t'.processes.get j).pid = (t.processes.get j).pid) := by
  obtain ⟨hlt, -, -⟩ := findProcess_eq_some.mp hi
  have hget := fun {j} => get_decrementJobs (t := t) (n := (t.processes.get i).jobnum) (i := j)
  refine ⟨_, _, by simp only [completeJob, hi, Option.bind_eq_bind, Option.bind_some]; rfl,
    rfl, ?_, ?_, ?_⟩
  · rw [Cells.get_set_eq _ _ hlt]
    rfl
  · intro j hj
    by_cases hji : j = i
    · subst hji
      rw [Cells.get_set_eq _ _ hlt]
      exact (hget hlt).2
    · rw [Cells.get_set_ne _ _ hji]
      exact (hget hj).2
  · intro j hj hji
    rw [Cells.get_set_ne _ _ hji]
    exact (hget hj).1

end OsProjects.Mc2
