import OsProjects.Mc2.Books
import OsProjects.Mc2.Foreground

/-!
# A command that cannot be started

`executeCommand` has a branch for each value `fork` can return, and `main` goes on the same
way after all of them. So a child in which `execvp` has failed goes on towards the menu like
its parent. For a blocking command it has to lock `canWait` on the way. If `waitThread` had
the mutex at the `fork`, the child has a copy that is locked, and no `waitThread` to unlock it:
it hangs there, and its parent in `wait3`. Else it is a second process in the menu.

A failed `fork` leaves -1 where a pid belongs: in `fgProcess`, where it ends the loop when no
child is left, or in the table, where nothing takes it out again and the loop at the end of
`main` waits for it (`exiting_forever`).
-/

namespace OsProjects.Mc2

open OsProjects.Lib

/-- What becomes of a command. -/
inductive Outcome
  | forkFailed
  | started (pid : Int)
  /-- `held`: `waitThread` had `canWait` when the child was made -/
  | execFailed (pid : Int) (held : Bool)
  deriving DecidableEq

def Outcome.Fails : Outcome → Prop
  | .forkFailed => True
  | .started _ => False
  | .execFailed .. => True

/-- A process in the menu: its table, and the arguments it has not freed. -/
structure Process where
  table : Table
  allocated : List String
  deriving DecidableEq

/-- The arguments after `executeCommand`: only the parent's branch frees them. -/
def freeArgs (fork : Int) (args : List String) : List String :=
  if fork = -1 then args else if fork = 0 then args else []

/-- The end of the branch of `main` that runs a command, with the arguments that were
allocated, up to the menu; `locked` is a copy of `canWait` that nobody unlocks. -/
def finishCommand (blocking : Bool) (args : List String) (now : Timeval) (ws : List Waited)
    (t : Table) (fgProcess : Cprocess) (locked : Bool) (fork : Int) : Option Process :=
  if blocking then
    -- `pthread_mutex_lock(&canWait)`
    if locked then none
    else (waitLoop ws t (executeCommand fgProcess now fork)).map fun e =>
      ⟨e.table, freeArgs fork args⟩
  else (startJob t now fork).map fun t => ⟨t, freeArgs fork args⟩

/-- The processes after a command, as they come back to the menu; `none` is one that does not,
or that there is not. -/
structure Aftermath where
  original : Option Process
  child : Option Process
  deriving DecidableEq

/-- In the original process `waitThread` unlocks what it has locked. -/
def afterCommand (blocking : Bool) (args : List String) (now : Timeval) (ws : List Waited)
    (t : Table) (fgProcess : Cprocess) (outcome : Outcome) : Aftermath :=
  let finish := finishCommand blocking args now ws t fgProcess
  match outcome with
  | .forkFailed => ⟨finish false (-1), none⟩
  | .started pid => ⟨finish false pid, none⟩
  | .execFailed pid held => ⟨finish false pid, finish held 0⟩

/-- Only the original process comes back, all its arguments are freed, and its table is or
becomes, by completions of children, the one from before. -/
def LeftAsBefore (t : Table) (after : Aftermath) : Prop :=
  ∃ p, after = ⟨some p, none⟩ ∧ p.allocated = [] ∧ ∃ ws lines t', (∀ w ∈ ws, 0 < w.pid) ∧
    completeJobs ws p.table = some (lines, t') ∧ t'.jobCounter = t.jobCounter ∧
    ∀ i, i < maxBgProcesses → (t'.processes.get i).pid = (t.processes.get i).pid

/-- What `wait3` returns to a process that waits until it has no child left. -/
def Exhausts (t : Table) (ws : List Waited) : Prop :=
  ∃ pre w, ws = pre ++ [w] ∧ w.pid = -1 ∧ (pre.map fun w => w.pid).Nodup ∧
    ∀ p, p ∈ pre.map (fun w => w.pid) ↔ Tracked t p

/-- What `fork` and `wait3` can return to the original process: a child that hangs does not
end. -/
def Outcome.Possible (blocking : Bool) (t : Table) (ws : List Waited) : Outcome → Prop
  | .forkFailed => Exhausts t ws
  | .started pid => 0 < pid
  | .execFailed pid held => 0 < pid ∧ (blocking = true → held = true → ∀ w ∈ ws, w.pid ≠ pid)

section Failures

variable {t t' : Table} {ws : List Waited} {lines : List Line} {fgProcess : Cprocess}
  {now : Timeval} {args : List String} {blocking : Bool} {outcome : Outcome}

/-- Completions free entries of children, and change no other pid. -/
theorem completeJobs_frees (hpos : ∀ w ∈ ws, 0 < w.pid)
    (hjobs : completeJobs ws t = some (lines, t')) {i : Nat} (hi : i < maxBgProcesses) :
    (t'.processes.get i).pid = (t.processes.get i).pid ∨
      (t'.processes.get i).pid = 0 ∧ 0 < (t.processes.get i).pid := by
  induction ws generalizing t lines with
  | nil =>
    cases hjobs
    exact .inl rfl
  | cons w ws ih =>
    obtain ⟨first, t₁, rest, hjob, hrest, rfl⟩ := completeJobs_cons hjobs
    obtain ⟨k, hk, -⟩ := Option.bind_eq_some_iff.mp hjob
    obtain ⟨hlt, hpk, -⟩ := findProcess_eq_some.mp hk
    obtain ⟨_, _, heq, -, hfreed, -, hother⟩ := completeJob_spec w.now w.stats hk
    cases hjob.symm.trans heq
    have ih := ih (fun w' hw' => hpos w' (by simp [hw'])) hrest
    by_cases hik : i = k
    · -- freed here, and not in use any more afterwards
      subst hik
      have hw : 0 < w.pid := hpos w (by simp)
      omega
    · rw [hother i hi hik] at ih
      exact ih

/-- With a blocking command the failed `fork` is taken for a child, until `wait3` fails. -/
theorem finishCommand_forkFailed (args : List String) (now : Timeval) (fgProcess : Cprocess)
    (hone : OneEach t) {pre : List Waited} {w : Waited}
    (hdistinct : (pre.map fun w => w.pid).Nodup) (htracked : ∀ w ∈ pre, Tracked t w.pid)
    (hw : w.pid = -1) :
    ∃ t', finishCommand true args now (pre ++ [w]) t fgProcess false (-1) = some ⟨t', args⟩ ∧
      t'.jobCounter = t.jobCounter - pre.length ∧
      ∀ i, i < maxBgProcesses → (t'.processes.get i).pid =
        if (t.processes.get i).pid ∈ pre.map fun w => w.pid then 0
        else (t.processes.get i).pid := by
  obtain ⟨lines, t', hjobs, hcounter, hpids⟩ := completeJobs_pids hone hdistinct htracked
  have hne : (executeCommand fgProcess now (-1)).pid ≠ 0 := by simp [executeCommand]
  have hpre : ∀ w ∈ pre, w.pid ≠ (executeCommand fgProcess now (-1)).pid := by
    intro w' hw'
    have := (htracked w' hw').1
    simp only [executeCommand]
    omega
  refine ⟨t', ?_, hcounter, hpids⟩
  rw [finishCommand, if_pos rfl, if_neg Bool.false_ne_true, waitLoop_append hne hpre hjobs,
    waitLoop_foreground hne hw]
  rfl

/-- With a background command it leaves an entry that no completion frees. -/
theorem background_forkFailed :
    ¬ LeftAsBefore t (afterCommand false args now ws t fgProcess .forkFailed) := by
  rintro ⟨p, hafter, -, ws, lines, t₂, hpos, hjobs, -, hpids⟩
  obtain ⟨t', hstart, rfl⟩ := Option.map_eq_some_iff.mp (congrArg Aftermath.original hafter)
  obtain ⟨i, hi, -⟩ := Option.bind_eq_some_iff.mp hstart
  obtain ⟨hlt, hzero, -⟩ := findProcess_eq_some.mp hi
  obtain ⟨e, hpid, -, heq⟩ := startJob_spec now (-1) hi
  cases hstart.symm.trans heq
  have hentry : ((t.processes.set i e).get i).pid = -1 := by rw [Cells.get_set_eq _ _ hlt, hpid]
  have hsame := hpids i hlt
  rcases completeJobs_frees hpos hjobs hlt with h | h <;> simp only [hentry] at h <;> omega

/-- Without an answer for the command's process the loop does not end. -/
theorem waitLoop_never (hne : fgProcess.pid ≠ 0) (hws : ∀ w ∈ ws, w.pid ≠ fgProcess.pid) :
    waitLoop ws t fgProcess = none := by
  induction ws generalizing t with
  | nil => rw [waitLoop, if_pos hne.symm]
  | cons w ws ih =>
    rw [waitLoop, if_pos hne.symm]
    simp only [if_neg (hws w List.mem_cons_self)]
    cases completeJob t w.now w.stats w.pid with
    | none => rfl
    | some x =>
      show (waitLoop ws x.2 fgProcess).map _ = none
      rw [ih fun w' hw' => hws w' (List.mem_cons_of_mem _ hw'), Option.map_none]

/-- A child that hangs at the mutex keeps its parent in the loop, -/
theorem execFailed_hangs {pid : Int} (hpid : 0 < pid) (hws : ∀ w ∈ ws, w.pid ≠ pid) :
    afterCommand true args now ws t fgProcess (.execFailed pid true) = ⟨none, none⟩ := by
  have hne : (executeCommand fgProcess now pid).pid ≠ 0 := by
    simp only [executeCommand]
    omega
  have hloop : waitLoop ws t (executeCommand fgProcess now pid) = none := waitLoop_never hne hws
  simp [afterCommand, finishCommand, hloop]

/-- and one that does not hang comes to the menu. -/
theorem execFailed_child {pid : Int} :
    (afterCommand true args now ws t fgProcess (.execFailed pid false)).child =
      some ⟨t, args⟩ := by
  have hdone : waitLoop ws t (executeCommand fgProcess now 0) =
      some ⟨[], t, executeCommand fgProcess now 0, 0⟩ := waitLoop_done rfl
  simp [afterCommand, finishCommand, hdone, freeArgs]

/-- With a background command there is nothing to lock: both come back, or there is no entry
for the command in any of them. -/
theorem background_execFailed {pid : Int} {held : Bool} {p : Process} :
    afterCommand false args now ws t fgProcess (.execFailed pid held) ≠ ⟨some p, none⟩ := by
  intro h
  obtain ⟨t', hstart, -⟩ := Option.map_eq_some_iff.mp (congrArg Aftermath.original h)
  obtain ⟨i, hi, -⟩ := Option.bind_eq_some_iff.mp hstart
  obtain ⟨e, -, -, hchild⟩ := startJob_spec now 0 hi
  have hnone : (startJob t now 0).map (fun t => (⟨t, freeArgs 0 args⟩ : Process)) = none :=
    congrArg Aftermath.child h
  rw [hchild] at hnone
  cases hnone

theorem execFailed_not_left {pid : Int} {held : Bool}
    (hpossible : (Outcome.execFailed pid held).Possible blocking t ws) :
    ¬ LeftAsBefore t (afterCommand blocking args now ws t fgProcess (.execFailed pid held)) := by
  rintro ⟨p, h, -⟩
  cases blocking with
  | false => exact background_execFailed h
  | true =>
    cases held with
    | true =>
      rw [execFailed_hangs hpossible.1 (hpossible.2 rfl rfl)] at h
      cases h
    | false =>
      have hnone := congrArg Aftermath.child h
      rw [execFailed_child] at hnone
      cases hnone

/-- With a blocking command it leaves the arguments, and no background process. -/
theorem blocking_forkFailed (hone : OneEach t) (hws : Exhausts t ws) :
    LeftAsBefore t (afterCommand true args now ws t fgProcess .forkFailed) ↔
      args = [] ∧ ∀ p, ¬ Tracked t p := by
  obtain ⟨pre, w, rfl, hw, hdistinct, hpre⟩ := hws
  obtain ⟨t', heq, hcounter, hpids⟩ := finishCommand_forkFailed args now fgProcess hone hdistinct
    (fun w' hw' => (hpre _).mp (List.mem_map_of_mem hw')) hw
  have hafter : afterCommand true args now (pre ++ [w]) t fgProcess .forkFailed =
      ⟨some ⟨t', args⟩, none⟩ := by
    simp only [afterCommand, heq]
  rw [hafter]
  constructor
  · rintro ⟨p, hp, hargs, ws, lines, t₂, hpos, hjobs, -, hsame⟩
    cases hp
    refine ⟨hargs, fun p hp => ?_⟩
    obtain ⟨hpos', i, hi, rfl⟩ := id hp
    have hzero : (t'.processes.get i).pid = 0 := by rw [hpids i hi, if_pos ((hpre _).mpr hp)]
    rcases completeJobs_frees (t := t') hpos hjobs hi with h | h
    · rw [hsame i hi] at h
      omega
    · omega
  · rintro ⟨rfl, hnone⟩
    have hnil : pre = [] := by
      rw [List.eq_nil_iff_forall_not_mem]
      exact fun w' hw' => hnone w'.pid ((hpre _).mp (List.mem_map_of_mem hw'))
    subst hnil
    refine ⟨⟨t', []⟩, rfl, rfl, [], [], t', by simp, rfl, by simpa using hcounter, ?_⟩
    intro i hi
    simpa using hpids i hi

/-- A command that fails leaves everything as it was only if it is a blocking one without
allocated arguments, `fork` is what failed, and no background process is running: then
`wait3` fails at once, which ends the loop. -/
theorem failed_command_leaves_as_before_iff (hone : OneEach t) (hfails : outcome.Fails)
    (hpossible : outcome.Possible blocking t ws) :
    LeftAsBefore t (afterCommand blocking args now ws t fgProcess outcome) ↔
      outcome = .forkFailed ∧ blocking = true ∧ args = [] ∧ ∀ p, ¬ Tracked t p := by
  cases outcome with
  | started pid => exact hfails.elim
  | execFailed pid held =>
    simp only [reduceCtorEq, false_and, iff_false]
    exact execFailed_not_left hpossible
  | forkFailed =>
    cases blocking with
    | false =>
      simp only [Bool.false_eq_true, false_and, and_false, iff_false]
      exact background_forkFailed
    | true =>
      simp only [true_and]
      exact blocking_forkFailed hone hpossible

end Failures

theorem exhausts_init : Exhausts init [reaped (-1)] := by
  refine ⟨[], reaped (-1), rfl, rfl, List.nodup_nil, fun p => ?_⟩
  simp only [List.map_nil, List.not_mem_nil, false_iff]
  rintro ⟨hpos, i, hi, hp⟩
  exact absurd ((init_tracks.shown p).mpr ⟨hpos.ne', i, hi, hp⟩) List.not_mem_nil

theorem failed_command_leaves_as_before_iff_no_arguments :
    LeftAsBefore init (afterCommand true [] default [reaped (-1)] init default .forkFailed) := by
  have hpossible : Outcome.forkFailed.Possible true init [reaped (-1)] := exhausts_init
  refine (failed_command_leaves_as_before_iff init_tracks.oneEach (by trivial) hpossible).mpr
    ⟨rfl, rfl, rfl, fun p hp => ?_⟩
  exact absurd ((init_tracks.shown p).mpr ⟨hp.1.ne', hp.2⟩) List.not_mem_nil

/-- A blocking command that does not exist: if `waitThread` had `canWait` at the `fork`, no
process comes back to the menu, whatever `wait3` says of other children; if not, both do, the
child without having freed its argument. And a `fork` that fails in the background leaves an
entry with pid -1 and a job number. -/
theorem failed_commands_leave_traces :
    (∀ ws, (∀ w ∈ ws, w.pid ≠ 101) →
      afterCommand true ["-l"] default ws init default (.execFailed 101 true) = ⟨none, none⟩ ∧
      ¬ LeftAsBefore init
        (afterCommand true ["-l"] default ws init default (.execFailed 101 true))) ∧
    (afterCommand true ["-l"] default [reaped 101] init default (.execFailed 101 false) =
        ⟨some ⟨init, []⟩, some ⟨init, ["-l"]⟩⟩ ∧
      ¬ LeftAsBefore init
        (afterCommand true ["-l"] default [reaped 101] init default (.execFailed 101 false))) ∧
    (∃ p, afterCommand false ["-l"] default [] init default .forkFailed = ⟨some p, none⟩ ∧
        p.allocated = ["-l"] ∧ p.table.jobCounter = 2 ∧ (p.table.processes.get 0).pid = -1) ∧
      ¬ LeftAsBefore init (afterCommand false ["-l"] default [] init default .forkFailed) := by
  refine ⟨fun ws hws => ⟨execFailed_hangs (by decide) hws, ?_⟩, ⟨by decide +kernel, ?_⟩,
    ⟨_, rfl, rfl, rfl, by decide +kernel⟩, background_forkFailed⟩
  · exact execFailed_not_left ⟨by decide, fun _ _ => hws⟩
  · exact execFailed_not_left ⟨by decide, fun _ h => absurd h Bool.false_ne_true⟩

/-! ## The end of `main` -/

section Exiting

variable {s s' : State} {i : Nat}

/-- `waitThread` has not found entry `i`, and looks only for children. -/
def WaiterPc.leaves (i : Nat) : WaiterPc → Prop
  | .resolve fin .find => 0 < fin.pid
  | .resolve _ (.decrement tracker) => tracker < maxBgProcesses ∧ tracker ≠ i
  | .resolve _ (.clean tracker) => tracker < maxBgProcesses ∧ tracker ≠ i
  | _ => True

/-- `main` is at its last loop, and entry `i` was left by a `fork` that failed. -/
structure Stuck (i : Nat) (s : State) : Prop where
  main : s.main = .exiting
  bound : i < maxBgProcesses
  entry : pids s.table i = -1
  waiter : s.waiter.leaves i

theorem Stuck.resolve_step (h : Stuck i s) {fin : Finished} {now : Timeval} {place : Resolve}
    {lines : List Line} {next : Option Resolve} {table : Table}
    (hwaiter : s.waiter = .resolve fin place)
    (hs : resolve fin now s.table place = some (lines, next, table)) :
    pids table i = -1 ∧ ∀ place, next = some place → (WaiterPc.resolve fin place).leaves i := by
  have hleaves := h.waiter
  rw [hwaiter] at hleaves
  rcases resolve_spec hs with ⟨k, rfl, rfl, hk, hpid, rfl⟩ | ⟨k, rfl, rfl, hpids⟩ |
    ⟨k, rfl, rfl, hpids⟩
  · refine ⟨h.entry, ?_⟩
    rintro _ ⟨⟩
    refine ⟨hk, ?_⟩
    rintro rfl
    have hpos : 0 < fin.pid := hleaves
    rw [← hpid, h.entry] at hpos
    omega
  · refine ⟨by rw [hpids, h.entry], ?_⟩
    rintro _ ⟨⟩
    exact hleaves
  · refine ⟨?_, by rintro _ ⟨⟩⟩
    rw [hpids hleaves.1, Function.update_of_ne hleaves.2.symm, h.entry]

theorem Stuck.step {l : Label} {lines : List Line} (h : Stuck i s)
    (hs : Mc2.step l s = some (lines, s')) : Stuck i s' := by
  cases l with
  | main x =>
    have hused : s.table.processes.used Cprocess.inUse ≠ 0 := by
      refine Finset.card_ne_zero.mpr ⟨i, Finset.mem_filter.mpr ⟨Finset.mem_range.mpr h.bound, ?_⟩⟩
      have hpid : (s.table.processes.get i).pid = -1 := h.entry
      simp [Cprocess.inUse, hpid]
    rw [Mc2.step, h.main, actMain, if_neg hused] at hs
    cases hs
    exact ⟨rfl, h.bound, h.entry, h.waiter⟩
  | waiter x =>
    rw [Mc2.step, if_neg (by simp [h.main])] at hs
    cases hwaiter : s.waiter with
    | lock =>
      rw [hwaiter] at hs
      obtain ⟨lock, -, heq⟩ := Option.map_eq_some_iff.mp hs
      cases heq
      exact ⟨h.main, h.bound, h.entry, trivial⟩
    | wait =>
      rw [hwaiter] at hs
      obtain ⟨children, -, heq⟩ := Option.map_eq_some_iff.mp hs
      cases heq
      exact ⟨h.main, h.bound, h.entry, trivial⟩
    | unlock fin =>
      rw [hwaiter] at hs
      cases hs
      refine ⟨h.main, h.bound, h.entry, ?_⟩
      simp only
      split
      · assumption
      · trivial
    | resolve fin place =>
      rw [hwaiter] at hs
      obtain ⟨⟨lines, next, table⟩, hresolve, heq⟩ := Option.map_eq_some_iff.mp hs
      cases heq
      obtain ⟨hentry, hleaves⟩ := h.resolve_step hwaiter hresolve
      refine ⟨h.main, h.bound, hentry, ?_⟩
      cases next with
      | none => trivial
      | some place => exact hleaves place rfl
  | exit pid =>
    obtain ⟨children, -, heq⟩ := Option.map_eq_some_iff.mp hs
    cases heq
    exact ⟨h.main, h.bound, h.entry, h.waiter⟩

/-- However the threads and the children go on, `main` does not end. -/
theorem exiting_forever (h : Stuck i s) (ls : List Label) {tr}
    (hrun : run Mc2.step ls s = some (tr, s')) : s'.main = .exiting :=
  (run_rule (P := fun _ s => Stuck i s) h (fun _ _ _ _ _ h hs => h.step hs) ls tr s' hrun).main

/-- The steps of `main` for a background command are `startJob`. -/
theorem main_runs_startJob {now : Timeval} {pid : Int} {t : Table} {children : List Child}
    (hmain : s.main = .findSlot) (hfork : fork false s.children pid = some children)
    (hstart : startJob s.table now pid = some t) :
    MainRuns s (if pid = -1 then [.forkFailed] else [])
      { s with table := t, children := children, main := .menu } := by
  obtain ⟨proc, hproc, heq⟩ := Option.bind_eq_some_iff.mp hstart
  obtain ⟨hlt, -, -⟩ := findProcess_eq_some.mp hproc
  cases heq
  let x : Input := ⟨default, pid, now, default⟩
  refine .silent x .findSlot hmain (by rw [actMain, hproc]; rfl) ?_
  refine .silent x (.number proc) rfl rfl ?_
  have hslot : (Tracker.slot proc == .fgProcess) = false := rfl
  refine .silent x (.fork (.slot proc)) rfl (by rw [actMain, hslot, hfork]; rfl) ?_
  refine .last x (.assign (.slot proc) pid) rfl ?_
  -- the timer and the pid are written one after the other
  simp only [actMain, State.write, executeCommand, Cells.get_set_eq _ _ hlt,
    Cells.set_set _ _ _ hlt, x]

/-- After a background command whose `fork` failed, the `e` option hangs. -/
theorem exit_hangs_after_failed_fork (hmain : s.main = .findSlot) (hwaiter : s.waiter = .lock)
    (hroom : findProcess s.table.processes 0 ≠ none) :
    ∃ i s', MainRuns s [.forkFailed] s' ∧ Stuck i s' := by
  obtain ⟨i, hi⟩ := Option.ne_none_iff_exists'.mp hroom
  obtain ⟨hlt, -, -⟩ := findProcess_eq_some.mp hi
  obtain ⟨e, hpid, -, hstart⟩ := startJob_spec default (-1) hi
  have hfork : fork false s.children (-1) = some s.children := by rw [fork, if_pos rfl]
  refine ⟨i, _, (main_runs_startJob hmain hfork hstart).trans
    (.last ⟨.exit, default, default, default⟩ .menu rfl rfl), rfl, hlt, ?_, ?_⟩
  · rw [pids_set hlt, Function.update_self, hpid]
  · rw [hwaiter]
    trivial

end Exiting

end OsProjects.Mc2
