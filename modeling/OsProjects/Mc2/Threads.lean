import OsProjects.Lib.Machine
import OsProjects.Lib.Mutex
import OsProjects.Mc2.Table

/-!
# `Project1/v2`: `main` and `waitThread`

Two threads reap the children of the process. `waitThread` takes `canWait` around each
`wait3` with `WNOHANG`; `main` holds it from after the `fork` of a blocking command until
that command is done, and takes whatever `wait3` returns in between. A step of a thread is
one call, or one assignment to shared data; `MainPc` and `WaiterPc` name the places in
between. What comes from outside, the user's choice and the answers of the kernel, comes
with the step, in `Label`. A child is known by its pid until `wait3` has returned it, and
all that is seen of it is that it exits, at any time.

The options that touch nothing of this (`a`, `c`, `p`, invalid ones) are left out, and so
is the memory of the arguments. A thread that dereferences `NULL` has no step.
-/

namespace OsProjects.Mc2

open OsProjects.Lib

/-! ## The children -/

/-- A child that has not been reaped, and whether `main` forked it for a blocking
command. -/
structure Child where
  pid : Int
  foreground : Bool
  exited : Bool
  deriving DecidableEq

/-- `fork` returning `pid` to the parent: the children afterwards, `none` if it cannot. -/
def fork (foreground : Bool) (children : List Child) (pid : Int) : Option (List Child) :=
  if pid = -1 then some children
  else if 0 < pid ∧ ∀ c ∈ children, c.pid ≠ pid then
    some ({ pid := pid, foreground := foreground, exited := false } :: children)
  else none

/-- `wait3` returning `pid`: the children afterwards, `none` if it cannot. It returns a
child that has exited; -1 if there are no children; and 0, with `WNOHANG`, if there are
some but none has exited. -/
def wait3 (nohang : Bool) (children : List Child) (pid : Int) : Option (List Child) :=
  if ∃ c ∈ children, c.pid = pid ∧ c.exited then
    some (children.filter fun c => c.pid != pid)
  else if pid = -1 ∧ children = [] then some children
  else if pid = 0 ∧ nohang ∧ children ≠ [] ∧ ∀ c ∈ children, !c.exited then some children
  else none

/-- The child `pid` exits. -/
def exit (children : List Child) (pid : Int) : Option (List Child) :=
  if ∃ c ∈ children, c.pid = pid ∧ !c.exited then
    some (children.map fun c => if c.pid = pid then { c with exited := true } else c)
  else none

/-! ## Dealing with a background process that is done -/

/-- What a call of `wait3` gave. -/
structure Finished where
  pid : Int
  stats : Rusage
  deriving DecidableEq

/-- The next call: `findProcess`, `decrementJobs` or `cleanCommand`. -/
inductive Resolve
  | find
  | decrement (tracker : Nat)
  | clean (tracker : Nat)
  deriving DecidableEq

/-- One of these calls, in either thread, and what comes next. -/
def resolve (fin : Finished) (now : Timeval) (t : Table) :
    Resolve → Option (List Line × Option Resolve × Table)
  | .find => (findProcess t.processes fin.pid).map fun tracker => ([], some (.decrement tracker), t)
  | .decrement tracker =>
    let job := t.processes.get tracker
    some ([.jobComplete job.jobnum, .processId job.pid], some (.clean tracker),
      decrementJobs t job.jobnum)
  | .clean tracker =>
    let (lines, cleaned) := cleanCommand (t.processes.get tracker) now fin.stats
    some (lines, none, { t with processes := t.processes.set tracker cleaned })

/-- Without a step of the other thread in between, the calls are one completion. -/
theorem completeJob_eq_resolve {t : Table} {now : Timeval} {fin : Finished} {i : Nat}
    (hi : findProcess t.processes fin.pid = some i) :
    ∃ header t₁ lines t₂, resolve fin now t .find = some ([], some (.decrement i), t) ∧
      resolve fin now t (.decrement i) = some (header, some (.clean i), t₁) ∧
      resolve fin now t₁ (.clean i) = some (lines, none, t₂) ∧
      completeJob t now fin.stats fin.pid = some (header ++ lines, t₂) := by
  refine ⟨_, _, _, _, ?_, rfl, rfl, ?_⟩
  · rw [resolve, hi]
    rfl
  · rw [completeJob, hi]
    rfl

/-! ## The threads -/

inductive Thread
  | main
  | waiter
  deriving DecidableEq

inductive Mutex
  | canWait
  deriving DecidableEq

/-- The tracker given to `executeCommand`. -/
inductive Tracker
  | fgProcess
  | slot (proc : Nat)
  deriving DecidableEq

/-- The places of `main`: the menu; the `r` option; the start of a command, blocking ones
going on to `lock`; the loop that waits for a blocking one; the end. -/
inductive MainPc
  | menu
  | listLock
  | list
  | listUnlock
  | findSlot
  | number (proc : Nat)
  | fork (tracker : Tracker)
  | assign (tracker : Tracker) (pid : Int)
  | lock
  | wait
  | handle (fin : Finished)
  | resolve (fin : Finished) (place : Resolve)
  | unlock
  | exiting
  | exited
  deriving DecidableEq

/-- The places of `waitThread`. -/
inductive WaiterPc
  | lock
  | wait
  | unlock (fin : Finished)
  | resolve (fin : Finished) (place : Resolve)
  deriving DecidableEq

/-- What the user chooses: the `r` option, the `e` option, or a command. -/
inductive Choice
  | running
  | exit
  | command (blocking : Bool)
  deriving Inhabited

/-- What a step gets from outside: the choice, what `fork` or `wait3` returns, the time
and the statistics. A step uses what it needs of it. -/
structure Input where
  choice : Choice
  pid : Int
  now : Timeval
  stats : Rusage
  deriving Inhabited

inductive Label
  | main (x : Input)
  | waiter (x : Input)
  | exit (pid : Int)

structure State where
  table : Table
  fgProcess : Cprocess
  lock : Mutex → Option Thread
  children : List Child
  main : MainPc
  waiter : WaiterPc

/-- Both threads run; `fgProcess` is not initialised. -/
def startUp (fgProcess : Cprocess) : State where
  table := init
  fgProcess := fgProcess
  lock := fun _ => none
  children := []
  main := .menu
  waiter := .lock

/-- A write through a tracker. -/
def State.write (s : State) (f : Cprocess → Cprocess) : Tracker → State
  | .fgProcess => { s with fgProcess := f s.fgProcess }
  | .slot proc => { s with table := { s.table with
      processes := s.table.processes.set proc (f (s.table.processes.get proc)) } }

/-- The test of the loop in `main`. Its `fin` is the outer one, which stays 0: the loop
assigns to a variable of its own. -/
def loop (fgProcess : Cprocess) : MainPc := if 0 ≠ fgProcess.pid then .wait else .unlock

theorem loop_eq (fgProcess : Cprocess) : loop fgProcess = .wait ∨ loop fgProcess = .unlock := by
  unfold loop
  split
  · exact .inl rfl
  · exact .inr rfl

def actMain (x : Input) (s : State) : MainPc → Option (List Line × State)
  | .menu => match x.choice with
    | .running => some ([], { s with main := .listLock })
    | .exit => some ([], { s with main := .exiting })
    | .command true => some ([], { s with main := .fork .fgProcess })
    | .command false => some ([], { s with main := .findSlot })
  | .listLock => (mutexLock s.lock .canWait .main).map fun lock =>
    ([], { s with lock := lock, main := .list })
  | .list => (runningLines s.table).map fun lines => (lines, { s with main := .listUnlock })
  | .listUnlock => some ([], { s with lock := mutexUnlock s.lock .canWait, main := .menu })
  | .findSlot => (findProcess s.table.processes 0).map fun proc =>
    ([], { s with main := .number proc })
  | .number proc =>
    let numbered := { s.table.processes.get proc with jobnum := s.table.jobCounter }
    some ([], { s with
      table :=
        { processes := s.table.processes.set proc numbered
          jobCounter := s.table.jobCounter + 1 }
      main := .fork (.slot proc) })
  -- `executeCommand`: the timer and the `fork`, then the assignment of its result
  | .fork tracker => (fork (tracker == .fgProcess) s.children x.pid).map fun children =>
    ([], { s.write (fun e => { e with start := x.now }) tracker with
      children := children, main := .assign tracker x.pid })
  | .assign tracker pid =>
    some (if pid = -1 then [.forkFailed] else [],
      { s.write (fun e => { e with pid := pid }) tracker with
        main := match tracker with
          | .fgProcess => .lock
          | .slot _ => .menu })
  | .lock => (mutexLock s.lock .canWait .main).map fun lock =>
    ([], { s with lock := lock, main := loop s.fgProcess })
  | .wait => (wait3 false s.children x.pid).map fun children =>
    ([], { s with children := children, main := .handle ⟨x.pid, x.stats⟩ })
  | .handle fin =>
    if fin.pid = s.fgProcess.pid then
      let (lines, cleaned) := cleanCommand s.fgProcess x.now fin.stats
      some (lines, { s with fgProcess := cleaned, main := loop cleaned })
    else some ([], { s with main := .resolve fin .find })
  | .resolve fin place => (resolve fin x.now s.table place).map fun (lines, next, table) =>
    (lines, { s with
      table := table
      main := match next with
        | some place => .resolve fin place
        | none => loop s.fgProcess })
  | .unlock => some ([], { s with lock := mutexUnlock s.lock .canWait, main := .menu })
  -- the loop at the end goes round until it has seen every entry with pid 0
  | .exiting => some ([], { s with
      main := if s.table.processes.used Cprocess.inUse = 0 then .exited else .exiting })
  | .exited => none

def waitThread (x : Input) (s : State) : WaiterPc → Option (List Line × State)
  | .lock => (mutexLock s.lock .canWait .waiter).map fun lock =>
    ([], { s with lock := lock, waiter := .wait })
  | .wait => (wait3 true s.children x.pid).map fun children =>
    ([], { s with children := children, waiter := .unlock ⟨x.pid, x.stats⟩ })
  | .unlock fin => some ([], { s with
      lock := mutexUnlock s.lock .canWait
      waiter := if 0 < fin.pid then .resolve fin .find else .lock })
  | .resolve fin place => (resolve fin x.now s.table place).map fun (lines, next, table) =>
    (lines, { s with
      table := table
      waiter := match next with
        | some place => .resolve fin place
        | none => .lock })

/-- A step, and what it prints. `waitThread` ends with `main`. -/
def step : Label → State → Option (List Line × State)
  | .main x, s => actMain x s s.main
  | .waiter x, s => if s.main = .exited then none else waitThread x s s.waiter
  | .exit pid, s => (exit s.children pid).map fun children => ([], { s with children := children })

end OsProjects.Mc2
