import OsProjects.Mc2.Jobs
import OsProjects.Mc2.Threads

/-!
# Waiting for a blocking command

The loop of `main` that waits for a blocking command, as a function of what its calls of
`wait3` return one after the other. Its condition reads the outer `fin`, which stays 0,
so what ends it is `cleanCommand`, which sets `fgProcess.pid` to 0 (`waitLoop_foreground`).
Background processes that end before are completed on the way. The steps that `main` takes
in `Threads` are those of this loop (`main_runs_waitLoop`).
-/

namespace OsProjects.Mc2

open OsProjects.Lib

/-- What a call of `wait3` gave, and when `cleanCommand` is called for it. -/
structure Waited extends Finished where
  now : Timeval

/-- What the loop has printed and changed, and how many times it has called `wait3`. -/
structure LoopEnd where
  lines : List Line
  table : Table
  fgProcess : Cprocess
  calls : Nat

/-- `while (fin != fgProcess.pid)`; `none` if it needs more than the given answers of
`wait3`, or dereferences `NULL`. -/
def waitLoop (ws : List Waited) (t : Table) (fgProcess : Cprocess) : Option LoopEnd :=
  if 0 ≠ fgProcess.pid then
    match ws with
    | [] => none
    | fin :: ws =>
      if fin.pid = fgProcess.pid then
        let (lines, fgProcess) := cleanCommand fgProcess fin.now fin.stats
        (waitLoop ws t fgProcess).map fun e =>
          { e with lines := lines ++ e.lines, calls := e.calls + 1 }
      else do
        let (lines, t) ← completeJob t fin.now fin.stats fin.pid
        (waitLoop ws t fgProcess).map fun e =>
          { e with lines := lines ++ e.lines, calls := e.calls + 1 }
  else some ⟨[], t, fgProcess, 0⟩

/-- One completion after the other. -/
def completeJobs : List Waited → Table → Option (List Line × Table)
  | [], t => some ([], t)
  | fin :: ws, t => do
    let (lines, t) ← completeJob t fin.now fin.stats fin.pid
    (completeJobs ws t).map fun (lines', t) => (lines ++ lines', t)

theorem completeJobs_cons {fin : Waited} {ws : List Waited} {t t' : Table} {lines : List Line}
    (h : completeJobs (fin :: ws) t = some (lines, t')) :
    ∃ first t₁ rest, completeJob t fin.now fin.stats fin.pid = some (first, t₁) ∧
      completeJobs ws t₁ = some (rest, t') ∧ lines = first ++ rest := by
  obtain ⟨⟨first, t₁⟩, hjob, h⟩ := Option.bind_eq_some_iff.mp h
  obtain ⟨⟨rest, t₂⟩, hrest, heq⟩ := Option.map_eq_some_iff.mp h
  cases heq
  exact ⟨first, t₁, rest, hjob, hrest, rfl⟩

section Loop

variable {t t' : Table} {fgProcess : Cprocess} {fin : Waited} {ws : List Waited}
  {lines : List Line}

theorem waitLoop_done (hpid : fgProcess.pid = 0) :
    waitLoop ws t fgProcess = some ⟨[], t, fgProcess, 0⟩ := by
  unfold waitLoop
  rw [hpid, if_neg (by simp)]

/-- The next test of the condition reads the pid that `cleanCommand` has reset. -/
theorem waitLoop_foreground (hne : fgProcess.pid ≠ 0) (hfin : fin.pid = fgProcess.pid) :
    waitLoop (fin :: ws) t fgProcess =
      some ⟨(cleanCommand fgProcess fin.now fin.stats).1, t,
        (cleanCommand fgProcess fin.now fin.stats).2, 1⟩ := by
  rw [waitLoop, if_pos hne.symm]
  simp only [if_pos hfin]
  rw [waitLoop_done rfl, Option.map_some, List.append_nil]

theorem waitLoop_background (hne : fgProcess.pid ≠ 0) (hfin : fin.pid ≠ fgProcess.pid)
    (hjob : completeJob t fin.now fin.stats fin.pid = some (lines, t')) :
    waitLoop (fin :: ws) t fgProcess = (waitLoop ws t' fgProcess).map fun e =>
      { e with lines := lines ++ e.lines, calls := e.calls + 1 } := by
  rw [waitLoop, if_pos hne.symm]
  simp only [if_neg hfin, hjob]
  rfl

/-- Until `wait3` returns the command's process, the loop is a sequence of completions. -/
theorem waitLoop_append {pre : List Waited} (hne : fgProcess.pid ≠ 0)
    (hpre : ∀ fin ∈ pre, fin.pid ≠ fgProcess.pid)
    (hjobs : completeJobs pre t = some (lines, t')) :
    waitLoop (pre ++ ws) t fgProcess = (waitLoop ws t' fgProcess).map fun e =>
      { e with lines := lines ++ e.lines, calls := e.calls + pre.length } := by
  induction pre generalizing t lines with
  | nil =>
    cases hjobs
    exact Option.map_id'.symm
  | cons fin pre ih =>
    obtain ⟨first, t₁, rest, hjob, hrest, rfl⟩ := completeJobs_cons hjobs
    rw [List.cons_append, waitLoop_background hne (hpre fin (by simp)) hjob,
      ih (fun w hw => hpre w (by simp [hw])) hrest, Option.map_map]
    congr 1
    funext e
    simp [Function.comp, Nat.add_assoc]

end Loop

/-! ## Completions in a row -/

section Completions

variable {t t' : Table} {ws : List Waited} {lines : List Line}

/-- At most one entry for each process. -/
def OneEach (t : Table) : Prop :=
  ∀ i j, i < maxBgProcesses → j < maxBgProcesses → 0 < (t.processes.get i).pid →
    (t.processes.get i).pid = (t.processes.get j).pid → i = j

/-- A process that has an entry. -/
def Tracked (t : Table) (pid : Int) : Prop :=
  0 < pid ∧ ∃ i, i < maxBgProcesses ∧ (t.processes.get i).pid = pid

/-- The entry of the process is freed, and no other. -/
theorem completeJob_pids (now : Timeval) (stats : Rusage) (hone : OneEach t) {pid : Int}
    (hpid : Tracked t pid) :
    ∃ lines t', completeJob t now stats pid = some (lines, t') ∧
      t'.jobCounter = t.jobCounter - 1 ∧
      ∀ i, i < maxBgProcesses → (t'.processes.get i).pid =
        if (t.processes.get i).pid = pid then 0 else (t.processes.get i).pid := by
  obtain ⟨hpos, k, hk, hpk⟩ := hpid
  obtain ⟨i, hi⟩ := Option.ne_none_iff_exists'.mp fun hnone =>
    findProcess_eq_none.mp hnone k hk hpk
  obtain ⟨hlt, hpi, -⟩ := findProcess_eq_some.mp hi
  obtain ⟨lines, t', heq, hcounter, hfreed, -, hother⟩ := completeJob_spec now stats hi
  refine ⟨lines, t', heq, hcounter, fun j hj => ?_⟩
  split
  · next hpj =>
    rw [hone j i hj hlt (hpj ▸ hpos) (hpj.trans hpi.symm)]
    exact hfreed
  · next hpj => exact hother j hj fun hji => hpj (hji ▸ hpi)

/-- Each process has its entry freed, and the counter counts them. -/
theorem completeJobs_pids (hone : OneEach t) (hdistinct : (ws.map fun w => w.pid).Nodup)
    (htracked : ∀ w ∈ ws, Tracked t w.pid) :
    ∃ lines t', completeJobs ws t = some (lines, t') ∧
      t'.jobCounter = t.jobCounter - ws.length ∧
      ∀ i, i < maxBgProcesses → (t'.processes.get i).pid =
        if (t.processes.get i).pid ∈ ws.map fun w => w.pid then 0 else (t.processes.get i).pid := by
  induction ws generalizing t with
  | nil => exact ⟨[], t, rfl, by simp, by simp⟩
  | cons w ws ih =>
    obtain ⟨hnew, hdistinct⟩ := List.nodup_cons.mp hdistinct
    obtain ⟨first, t₁, heq, hcounter, hpids⟩ :=
      completeJob_pids w.now w.stats hone (htracked w (by simp))
    have hkept : ∀ i, i < maxBgProcesses → 0 < (t₁.processes.get i).pid →
        (t₁.processes.get i).pid = (t.processes.get i).pid := by
      intro i hi
      rw [hpids i hi]
      split <;> omega
    have hone₁ : OneEach t₁ := by
      intro i j hi hj hpos heq
      have hpos' : 0 < (t₁.processes.get j).pid := heq ▸ hpos
      rw [hkept i hi hpos, hkept j hj hpos'] at heq
      rw [hkept i hi hpos] at hpos
      exact hone i j hi hj hpos heq
    have htracked₁ : ∀ w' ∈ ws, Tracked t₁ w'.pid := by
      intro w' hw'
      obtain ⟨hpos, i, hi, hpi⟩ := htracked w' (by simp [hw'])
      have hne : w'.pid ≠ w.pid := fun h => hnew (List.mem_map.mpr ⟨w', hw', h⟩)
      refine ⟨hpos, i, hi, ?_⟩
      rw [hpids i hi, hpi, if_neg hne]
    obtain ⟨rest, t₂, hrest, hcounter₂, hpids₂⟩ := ih hone₁ hdistinct htracked₁
    refine ⟨first ++ rest, t₂, by rw [completeJobs, heq]; simp [hrest], ?_, ?_⟩
    · rw [hcounter₂, hcounter, List.length_cons]
      omega
    · intro i hi
      rw [hpids₂ i hi, hpids i hi, List.map_cons]
      by_cases hw : (t.processes.get i).pid = w.pid
      · simp [hw]
      · simp [hw]

/-- The jobs are taken out of the list one by one, and the others move down. -/
theorem Tracks.completeJobs {live : List Int} (h : Tracks t live)
    (hpos : ∀ w ∈ ws, w.pid ≠ 0) (hjobs : Mc2.completeJobs ws t = some (lines, t')) :
    Tracks t' (live.diff (ws.map fun w => w.pid)) := by
  induction ws generalizing t live lines with
  | nil =>
    cases hjobs
    exact h
  | cons w ws ih =>
    obtain ⟨first, t₁, rest, hjob, hrest, rfl⟩ := completeJobs_cons hjobs
    have hfound : findProcess t.processes w.pid ≠ none := by
      intro hnone
      rw [completeJob, hnone] at hjob
      cases hjob
    obtain ⟨_, _, heq, h₁⟩ := h.complete_step w.now w.stats (hpos w (by simp)) hfound
    cases hjob.symm.trans heq
    rw [List.map_cons, List.diff_cons]
    exact ih h₁ (fun w' hw' => hpos w' (by simp [hw'])) hrest

end Completions

/-! ## The loop as a whole -/

section Whole

variable {t : Table} {fgProcess : Cprocess} {ws : List Waited}

/-- The loop ends with the call of `wait3` that returns the command's process. The calls
before it, all for background processes, free their entries and take their numbers out of
the list of jobs; no other entry is freed. -/
theorem foreground_loop_ends (hone : OneEach t) (hdistinct : (ws.map fun w => w.pid).Nodup)
    (hpos : 0 < fgProcess.pid) (hfg : ∃ w ∈ ws, w.pid = fgProcess.pid)
    (hlive : ∀ w ∈ ws, w.pid = fgProcess.pid ∨ Tracked t w.pid) :
    ∃ pre w post e lines, ws = pre ++ w :: post ∧ w.pid = fgProcess.pid ∧
      (∀ w ∈ pre, Tracked t w.pid ∧ w.pid ≠ fgProcess.pid) ∧
      waitLoop ws t fgProcess = some e ∧ e.calls = pre.length + 1 ∧ e.fgProcess.pid = 0 ∧
      completeJobs pre t = some (lines, e.table) ∧
      (∀ i, i < maxBgProcesses → (t.processes.get i).pid ∈ pre.map (fun w => w.pid) →
        (e.table.processes.get i).pid = 0) ∧
      (∀ i, i < maxBgProcesses → (t.processes.get i).pid ∉ pre.map (fun w => w.pid) →
        (e.table.processes.get i).pid = (t.processes.get i).pid) ∧
      e.table.jobCounter = t.jobCounter - pre.length ∧
      ∀ live, Tracks t live → Tracks e.table (live.diff (pre.map fun w => w.pid)) := by
  obtain ⟨w, hfind⟩ : ∃ w, ws.find? (fun w => w.pid = fgProcess.pid) = some w := by
    rw [← Option.isSome_iff_exists, List.find?_isSome]
    simpa using hfg
  obtain ⟨hw, pre, post, rfl, hpre⟩ := List.find?_eq_some_iff_append.mp hfind
  simp only [decide_eq_true_eq, Bool.not_eq_true', decide_eq_false_iff_not] at hw hpre
  have htracked : ∀ w' ∈ pre, Tracked t w'.pid := fun w' hw' =>
    (hlive w' (List.mem_append_left _ hw')).resolve_left (hpre w' hw')
  have hdistinct' : (pre.map fun w => w.pid).Nodup := by
    rw [List.map_append] at hdistinct
    exact hdistinct.of_append_left
  obtain ⟨lines, t', hjobs, hcounter, hpids⟩ := completeJobs_pids hone hdistinct' htracked
  have hloop : waitLoop (pre ++ w :: post) t fgProcess = _ := waitLoop_append hpos.ne' hpre hjobs
  rw [waitLoop_foreground hpos.ne' hw, Option.map_some] at hloop
  refine ⟨pre, w, post, _, lines, rfl, hw, fun w' hw' => ⟨htracked w' hw', hpre w' hw'⟩, hloop,
    Nat.add_comm _ _, rfl, hjobs, ?_, ?_, hcounter, ?_⟩
  · intro i hi hin
    rw [hpids i hi, if_pos hin]
  · intro i hi hin
    rw [hpids i hi, if_neg hin]
  · intro live h
    exact h.completeJobs (fun w' hw' => (htracked w' hw').1.ne') hjobs

end Whole

theorem Tracks.oneEach {t : Table} {live : List Int} (h : Tracks t live) : OneEach t :=
  fun i j hi hj hpos => h.unique i j hi hj hpos.ne'

/-- What `wait3` gives for a process, with no statistics. -/
def reaped (pid : Int) : Waited := { pid := pid, stats := default, now := default }

theorem foreground_loop_ends_second : ∃ tr t e,
    run exec [.start default 101, .start default 102] init = some (tr, t) ∧
      waitLoop [reaped 102, reaped 200, reaped 101] t { (default : Cprocess) with pid := 200 } =
        some e ∧ e.calls = 2 ∧ Tracks e.table [101] := by
  obtain ⟨tr, t, hrun, h⟩ := @Guarded.tracks [.start default 101, .start default 102]
    (Guarded.of_eval (by decide +kernel))
  have htracked : ∀ p ∈ [101, 102], Tracked t p := by
    intro p hp
    refine ⟨?_, ((h.shown p).mp hp).2⟩
    revert p
    decide
  obtain ⟨pre, w, post, e, lines, hws, hw, hpre, hloop, hcalls, -, -, -, -, -, h'⟩ :=
    @foreground_loop_ends t { (default : Cprocess) with pid := 200 }
      [reaped 102, reaped 200, reaped 101] h.oneEach (by decide) (by decide)
      ⟨reaped 200, by simp, rfl⟩ (by
        intro w hw
        simp only [List.mem_cons, List.not_mem_nil, or_false] at hw
        rcases hw with rfl | rfl | rfl
        · exact .inr (htracked 102 (by decide))
        · exact .inl rfl
        · exact .inr (htracked 101 (by decide)))
  refine ⟨tr, t, e, hrun, hloop, ?_⟩
  -- 200 is the second of the answers
  rcases pre with _ | ⟨first, _ | ⟨second, pre⟩⟩
  · cases hws
    exact absurd hw (by decide)
  · cases hws
    exact ⟨hcalls, h' _ h⟩
  · simp only [List.cons_append, List.cons.injEq] at hws
    exact absurd (congrArg (fun w => w.pid) hws.2.1.symm) (hpre second (by simp)).2

/-! ## The steps of `main` -/

section Steps

variable {s s₁ s' : State} {lines lines' : List Line} {ws : List Waited} {e : LoopEnd}

/-- `main` alone gets from one state to the other, and prints the lines. -/
def MainRuns (s : State) (lines : List Line) (s' : State) : Prop :=
  ∃ (xs : List Input) (tr : List (Label × List Line)),
    run step (xs.map Label.main) s = some (tr, s') ∧ tr.flatMap Prod.snd = lines

theorem MainRuns.refl (s : State) : MainRuns s [] s := ⟨[], [], rfl, rfl⟩

theorem MainRuns.step (x : Input) (place : MainPc) (hmain : s.main = place)
    (hs : actMain x s place = some (lines, s₁))
    (h : MainRuns s₁ lines' s') : MainRuns s (lines ++ lines') s' := by
  obtain ⟨xs, tr, hrun, rfl⟩ := h
  refine ⟨x :: xs, (.main x, lines) :: tr, ?_, rfl⟩
  have hc : Mc2.step (.main x) s = some (lines, s₁) := by
    rw [Mc2.step, hmain, hs]
  simp only [List.map_cons, run, hc, Option.bind_eq_bind, Option.bind_some, hrun]

theorem MainRuns.silent (x : Input) (place : MainPc) (hmain : s.main = place)
    (hs : actMain x s place = some ([], s₁)) (h : MainRuns s₁ lines s') : MainRuns s lines s' :=
  .step x place hmain hs h

theorem MainRuns.last (x : Input) (place : MainPc) (hmain : s.main = place)
    (hs : actMain x s place = some (lines, s')) : MainRuns s lines s' := by
  rw [← List.append_nil lines]
  exact .step x place hmain hs (.refl s')

theorem MainRuns.trans (h : MainRuns s lines s₁) (h' : MainRuns s₁ lines' s') :
    MainRuns s (lines ++ lines') s' := by
  obtain ⟨xs, tr, hrun, rfl⟩ := h
  obtain ⟨xs', tr', hrun', rfl⟩ := h'
  refine ⟨xs ++ xs', tr ++ tr', ?_, List.flatMap_append⟩
  rw [List.map_append, run_append, hrun]
  simp only [Option.bind_some, hrun', Option.map_some]

variable {w : Waited} {children : List Child}

/-- A round of the loop in which `wait3` returns the command's process. -/
theorem round_foreground (hwait : s.main = .wait) (hw : w.pid = s.fgProcess.pid)
    (hreap : wait3 false s.children w.pid = some children) :
    MainRuns s (cleanCommand s.fgProcess w.now w.stats).1 { s with
      fgProcess := (cleanCommand s.fgProcess w.now w.stats).2
      children := children
      main := .unlock } := by
  let x : Input := ⟨default, w.pid, w.now, w.stats⟩
  refine .silent x .wait hwait (by rw [actMain, hreap]; rfl) ?_
  exact .last x (.handle w.toFinished) rfl (by rw [actMain, if_pos hw]; rfl)

/-- A round in which it returns another one. -/
theorem round_background {t : Table} (hwait : s.main = .wait) (hw : w.pid ≠ s.fgProcess.pid)
    (hreap : wait3 false s.children w.pid = some children)
    (hjob : completeJob s.table w.now w.stats w.pid = some (lines, t)) :
    MainRuns s lines { s with table := t, children := children, main := loop s.fgProcess } := by
  obtain ⟨i, hi⟩ : ∃ i, findProcess s.table.processes w.pid = some i := by
    obtain ⟨i, hi, -⟩ := Option.bind_eq_some_iff.mp hjob
    exact ⟨i, hi⟩
  obtain ⟨header, t₁, rest, t₂, hfind, hdecrement, hclean, heq⟩ :=
    @completeJob_eq_resolve s.table w.now w.toFinished i hi
  cases hjob.symm.trans heq
  let x : Input := ⟨default, w.pid, w.now, w.stats⟩
  refine .silent x .wait hwait (by rw [actMain, hreap]; rfl) ?_
  refine .silent x (.handle w.toFinished) rfl (by rw [actMain, if_neg hw]) ?_
  refine .silent x (.resolve w.toFinished .find) rfl (by rw [actMain, hfind]; rfl) ?_
  refine .step x (.resolve w.toFinished (.decrement i)) rfl (by rw [actMain, hdecrement]; rfl) ?_
  exact .last x (.resolve w.toFinished (.clean i)) rfl (by rw [actMain, hclean]; rfl)

/-- The children when `wait3` has returned one after the other. -/
def reap : List Waited → List Child → Option (List Child)
  | [], children => some children
  | w :: ws, children => (wait3 false children w.pid).bind (reap ws)

/-- From the test of the loop on, `main` runs it as `waitLoop` says. -/
theorem main_runs_waitLoop (hmain : s.main = loop s.fgProcess)
    (hloop : waitLoop ws s.table s.fgProcess = some e)
    (hreap : reap (ws.take e.calls) s.children = some children) :
    MainRuns s e.lines { s with
      table := e.table, fgProcess := e.fgProcess, children := children, main := .unlock } := by
  by_cases hpid : s.fgProcess.pid = 0
  · rw [waitLoop_done hpid] at hloop
    cases hloop
    cases hreap
    rw [loop, if_neg (by simp [hpid])] at hmain
    rw [← hmain]
    exact .refl s
  induction ws generalizing s e with
  | nil =>
    rw [waitLoop, if_pos (Ne.symm hpid)] at hloop
    cases hloop
  | cons w ws ih =>
    have hwait : s.main = .wait := by rw [hmain, loop, if_pos (Ne.symm hpid)]
    by_cases hw : w.pid = s.fgProcess.pid
    · rw [waitLoop_foreground hpid hw] at hloop
      cases hloop
      obtain ⟨children₁, hwait3, hreap⟩ := Option.bind_eq_some_iff.mp hreap
      cases hreap
      exact round_foreground hwait hw hwait3
    · obtain ⟨lines, t, hjob⟩ : ∃ lines t,
          completeJob s.table w.now w.stats w.pid = some (lines, t) := by
        rw [waitLoop, if_pos (Ne.symm hpid)] at hloop
        simp only [if_neg hw] at hloop
        obtain ⟨⟨lines, t⟩, hjob, -⟩ := Option.bind_eq_some_iff.mp hloop
        exact ⟨lines, t, hjob⟩
      rw [waitLoop_background hpid hw hjob] at hloop
      obtain ⟨e₁, hloop₁, heq⟩ := Option.map_eq_some_iff.mp hloop
      cases heq
      obtain ⟨children₁, hwait3, hreap⟩ := Option.bind_eq_some_iff.mp hreap
      exact (round_background hwait hw hwait3 hjob).trans (ih rfl hloop₁ hreap hpid)

end Steps

end OsProjects.Mc2
