import OsProjects.Mc2.Books

/-!
# Who reaps whom

`canWait` keeps `waitThread` from `wait3` only while `main` has it, and `findProcess` finds
a child only once its pid is in the table. So everything hangs on the children not exiting
too early (`Timely`). In a run in which they do not, `waitThread` gets background
processes only, and finds the entry of each.
-/

namespace OsProjects.Mc2

open OsProjects.Lib

/-! ## The mutex -/

def MainPc.locked : MainPc → Bool
  | .list | .listUnlock | .wait | .handle _ | .resolve .. | .unlock => true
  | _ => false

def WaiterPc.locked : WaiterPc → Bool
  | .wait | .unlock _ => true
  | _ => false

def locked (main : MainPc) (waiter : WaiterPc) : Thread → Bool
  | .main => main.locked
  | .waiter => waiter.locked

def Thread.other : Thread → Thread
  | .main => .waiter
  | .waiter => .main

theorem Thread.eq_other {g t : Thread} (h : g ≠ t) : g = t.other := by
  cases g <;> cases t <;> first | rfl | exact absurd rfl h

section Mutex

variable {lock lock' : Mutex → Option Thread} {inside inside' : Thread → Bool} {t : Thread}

theorem held_lock (h : Held lock fun t _ => inside t)
    (hlock : mutexLock lock .canWait t = some lock') (hself : inside' t)
    (hother : inside' t.other = inside t.other) : Held lock' fun t _ => inside' t := by
  obtain ⟨hfree, rfl⟩ := mutexLock_eq_some.mp hlock
  refine h.acquire hfree (fun g hg _ => by rw [Thread.eq_other hg, hother]) fun m => ?_
  cases m
  simp [hself]

theorem held_unlock (h : Held lock fun t _ => inside t) (ht : inside t) (hself : ¬ inside' t)
    (hother : inside' t.other = inside t.other) :
    Held (mutexUnlock lock .canWait) fun t _ => inside' t := by
  refine h.release (t := t) ht (fun g hg _ => by rw [Thread.eq_other hg, hother]) fun m => ?_
  cases m
  simp [hself]

theorem locked_loop (fgProcess : Cprocess) : (loop fgProcess).locked := by
  rcases loop_eq fgProcess with heq | heq <;> rw [heq] <;> rfl

/-- `main` goes on with its loop. -/
theorem held_loop {main : MainPc} {waiter : WaiterPc} (fgProcess : Cprocess)
    (h : Held lock fun t _ => locked main waiter t) (hmain : main.locked) :
    Held lock fun t _ => locked (loop fgProcess) waiter t := by
  refine h.congr fun t _ => ?_
  cases t with
  | main => exact iff_of_true (locked_loop fgProcess) hmain
  | waiter => rfl

end Mutex

/-- A blocking command that `main` waits for without the mutex is one it has only just
forked. -/
theorem MainPc.forked_of_awaits {main : MainPc} {fg p : Int} (hfree : main.locked = false)
    (h : main.awaits fg = some p) : main.forked fg = some p := by
  cases main with
  | assign tracker pid =>
    cases tracker with
    | fgProcess => exact h
    | slot proc => cases h
  | lock => exact h
  | wait | handle | resolve => cases hfree
  | _ => cases h

theorem MainPc.forked_of_assigns {main : MainPc} {fg p : Int} (h : main.assigns = some p) :
    main.forked fg = some p := by
  cases main with
  | assign tracker pid =>
    cases tracker with
    | fgProcess => cases h
    | slot proc => exact h
  | _ => cases h

/-! ## The invariant -/

structure Sound (s : State) : Prop where
  held : Held s.lock fun t _ => locked s.main s.waiter t
  family : Family s.main s.fgProcess.pid s.children
  books : Books (pids s.table) s.main s.fgProcess.pid s.waiter s.children

/-- `main` is at the `fork` of a background process. -/
def MainPc.forks : MainPc → Bool
  | .fork (.slot _) => true
  | _ => false

/-- No child exits before its pid is recorded or, for a blocking command, before `main` has
`canWait`; and the `fork` of a background process does not return a pid that an entry
still has. -/
def Timely : Label → State → Prop
  | .main x, s => s.main.forks → 0 < x.pid → findProcess s.table.processes x.pid = none
  | .waiter _, _ => True
  | .exit pid, s => ¬ Pending s.main s.fgProcess.pid pid

instance (l : Label) (s : State) : Decidable (Timely l s) :=
  match l with
  | .main x => inferInstanceAs (Decidable (s.main.forks → 0 < x.pid →
      findProcess s.table.processes x.pid = none))
  | .waiter _ => isTrue trivial
  | .exit pid => inferInstanceAs (Decidable (¬ Pending s.main s.fgProcess.pid pid))

theorem startUp_sound (fgProcess : Cprocess) : Sound (startUp fgProcess) := by
  refine ⟨?_, Family.nil, Books.init⟩
  rintro m (_ | _) <;> simp [startUp, locked, MainPc.locked, WaiterPc.locked]

section Steps

variable {s s' : State} {x : Input} {lines : List Line} {pid : Int}

/-- What `wait3` can return to `waitThread`. -/
theorem Sound.exited (h : Sound s) (hwaiter : s.waiter = .wait) {c : Child} (hc : c ∈ s.children)
    (hexited : c.exited) : c.foreground = false ∧ s.main.assigns ≠ some c.pid := by
  have hfree : s.main.locked = false := by
    by_contra hmain
    have heq : Thread.main = .waiter :=
      h.held.excl (m := .canWait) (show locked s.main s.waiter .main by simpa [locked] using hmain)
        (show locked s.main s.waiter .waiter by simp [locked, hwaiter, WaiterPc.locked])
    cases heq
  have hpending := h.family.timely c hc hexited
  constructor
  · by_contra hfg
    exact hpending (MainPc.forked_of_awaits hfree (h.family.awaited c hc (by simpa using hfg)))
  · exact fun hassigns => hpending (MainPc.forked_of_assigns hassigns)

theorem Sound.waiter_step (h : Sound s) (hs : waitThread x s s.waiter = some (lines, s')) :
    Sound s' := by
  obtain ⟨table, fgProcess, lock, children, main, waiter⟩ := s
  cases waiter with
  | lock =>
    obtain ⟨lock', hlock, heq⟩ := Option.map_eq_some_iff.mp hs
    cases heq
    refine ⟨held_lock h.held hlock rfl rfl, h.family, ?_⟩
    exact h.books.move_waiter rfl (by rintro _ _ ⟨⟩) (by simp [WaiterPc.resolves])
  | wait =>
    obtain ⟨children', hwait, heq⟩ := Option.map_eq_some_iff.mp hs
    cases heq
    refine ⟨h.held, h.family.sublist (wait3_spec hwait).1, ?_⟩
    exact h.books.wait_waiter h.family.pos hwait fun c hc hexited => h.exited rfl hc hexited
  | unlock fin =>
    cases hs
    refine ⟨held_unlock (t := .waiter) h.held rfl ?_ rfl, h.family, ?_⟩
    · show ¬ (if 0 < fin.pid then WaiterPc.resolve fin .find else .lock).locked
      split <;> simp [WaiterPc.locked]
    · show Books _ _ _ (if 0 < fin.pid then WaiterPc.resolve fin .find else .lock) _
      split
      next hpos =>
        exact h.books.move_waiter rfl (by rintro _ _ ⟨⟩; exact hpos) (fun p hp => hp)
      next => exact h.books.move_waiter rfl (by rintro _ _ ⟨⟩) (by simp [WaiterPc.resolves])
  | resolve fin place =>
    obtain ⟨⟨lines', next, table'⟩, hresolve, heq⟩ := Option.map_eq_some_iff.mp hs
    cases heq
    rcases resolve_spec hresolve with ⟨i, rfl, rfl, hi, hpid, rfl⟩ | ⟨i, rfl, rfl, hpids⟩ |
      ⟨i, rfl, rfl, hpids⟩
    · exact ⟨h.held, h.family, h.books.find_waiter hi hpid⟩
    · refine ⟨h.held, h.family, ?_⟩
      show Books (pids table') _ _ _ _
      rw [hpids]
      exact h.books.decrement_waiter
    · refine ⟨h.held, h.family, ?_⟩
      show Books (pids table') _ _ _ _
      rw [hpids (h.books.tracked i fin.pid (.inr rfl)).1]
      exact h.books.clean_waiter h.family.pos

theorem Sound.main_step (h : Sound s) (htimely : Timely (.main x) s)
    (hs : actMain x s s.main = some (lines, s')) : Sound s' := by
  obtain ⟨table, fgProcess, lock, children, main, waiter⟩ := s
  cases main with
  | menu =>
    obtain ⟨choice, pid, now, stats⟩ := x
    rcases choice with _ | _ | (_ | _) <;> cases hs <;>
      exact ⟨h.held, h.family.idle rfl rfl rfl, h.books.move rfl rfl rfl rfl fun _ hp => hp⟩
  | listLock =>
    obtain ⟨lock', hlock, heq⟩ := Option.map_eq_some_iff.mp hs
    cases heq
    exact ⟨held_lock h.held hlock rfl rfl, h.family.idle rfl rfl rfl,
      h.books.move rfl rfl rfl rfl (by simp [MainPc.resolves])⟩
  | list =>
    obtain ⟨lines', -, heq⟩ := Option.map_eq_some_iff.mp hs
    cases heq
    exact ⟨h.held, h.family.idle rfl rfl rfl, h.books.move rfl rfl rfl rfl (fun _ hp => hp)⟩
  | listUnlock =>
    cases hs
    exact ⟨held_unlock (t := .main) h.held rfl (by simp [locked, MainPc.locked]) rfl,
      h.family.idle rfl rfl rfl, h.books.move rfl rfl rfl rfl (fun _ hp => hp)⟩
  | findSlot =>
    obtain ⟨proc, hproc, heq⟩ := Option.map_eq_some_iff.mp hs
    cases heq
    obtain ⟨hi, hzero, -⟩ := findProcess_eq_some.mp hproc
    exact ⟨h.held, h.family.idle rfl rfl rfl, h.books.reserve hi hzero⟩
  | number proc =>
    cases hs
    refine ⟨h.held, h.family.idle rfl rfl rfl, ?_⟩
    show Books (pids ⟨table.processes.set proc _, _⟩) _ _ _ _
    rw [pids_set_self (h.books.reserved proc rfl).1]
    · exact h.books.number
    · rfl
  | fork tracker =>
    obtain ⟨children', hfork, heq⟩ := Option.map_eq_some_iff.mp hs
    cases heq
    cases tracker with
    | fgProcess =>
      exact ⟨h.held, h.family.fork hfork, h.books.fork hfork fun hne => absurd rfl hne⟩
    | slot proc =>
      refine ⟨h.held, h.family.fork hfork, ?_⟩
      show Books (pids ⟨table.processes.set proc _, _⟩) _ _ _ _
      rw [pids_set_self (h.books.reserved proc rfl).1]
      · exact h.books.fork hfork fun _ hpos => findProcess_eq_none.mp (htimely rfl hpos)
      · rfl
  | assign tracker pid =>
    cases hs
    cases tracker with
    | fgProcess =>
      exact ⟨h.held, h.family.assign, h.books.move rfl rfl rfl rfl fun _ hp => hp⟩
    | slot proc =>
      refine ⟨h.held, h.family.idle rfl rfl rfl, ?_⟩
      show Books (pids ⟨table.processes.set proc _, _⟩) _ _ _ _
      rw [pids_set (h.books.reserved proc rfl).1]
      exact h.books.record h.family.pos
  | lock =>
    obtain ⟨lock', hlock, heq⟩ := Option.map_eq_some_iff.mp hs
    cases heq
    exact ⟨held_lock h.held hlock (locked_loop fgProcess) rfl, h.family.loop rfl,
      h.books.loop fgProcess rfl⟩
  | wait =>
    obtain ⟨children', hwait, heq⟩ := Option.map_eq_some_iff.mp hs
    cases heq
    refine ⟨h.held, h.family.wait hwait, h.books.wait_main h.family.pos hwait ?_⟩
    exact fun c hc hfg => (Option.some.inj (h.family.awaited c hc hfg)).symm
  | handle fin =>
    simp only [actMain] at hs
    split at hs
    next hfg =>
      cases hs
      let cleaned := (cleanCommand fgProcess x.now fin.stats).2
      exact ⟨held_loop cleaned h.held rfl, h.family.clean cleaned hfg rfl,
        h.books.loop cleaned rfl⟩
    next hne =>
      cases hs
      refine ⟨h.held, h.family.move rfl (fun _ _ hp => hp) (fun _ hp => hp), ?_⟩
      exact h.books.move rfl rfl rfl rfl fun p hp => by rw [MainPc.resolves, if_neg hne]; exact hp
  | resolve fin place =>
    obtain ⟨⟨lines', next, table'⟩, hresolve, heq⟩ := Option.map_eq_some_iff.mp hs
    cases heq
    rcases resolve_spec hresolve with ⟨i, rfl, rfl, hi, hpid, rfl⟩ | ⟨i, rfl, rfl, hpids⟩ |
      ⟨i, rfl, rfl, hpids⟩
    · exact ⟨h.held, h.family.move rfl (fun _ _ hp => hp) (fun _ hp => hp),
        h.books.find_main hi hpid⟩
    · refine ⟨h.held, h.family.move rfl (fun _ _ hp => hp) (fun _ hp => hp), ?_⟩
      show Books (pids table') _ _ _ _
      rw [hpids]
      exact h.books.decrement_main
    · refine ⟨held_loop fgProcess h.held rfl, h.family.loop rfl, ?_⟩
      show Books (pids table') (loop fgProcess) _ _ _
      rw [hpids (h.books.tracked i fin.pid (.inl rfl)).1]
      rcases loop_eq fgProcess with heq | heq <;> rw [heq] <;>
        exact h.books.clean_main h.family.pos rfl rfl rfl rfl
  | unlock =>
    cases hs
    exact ⟨held_unlock (t := .main) h.held rfl (by simp [locked, MainPc.locked]) rfl,
      h.family.idle rfl rfl rfl, h.books.move rfl rfl rfl rfl fun _ hp => hp⟩
  | exiting =>
    simp only [actMain] at hs
    split at hs <;> cases hs <;>
      exact ⟨h.held, h.family.idle rfl rfl rfl, h.books.move rfl rfl rfl rfl fun _ hp => hp⟩
  | exited => cases hs

theorem Sound.step {l : Label} (h : Sound s) (htimely : Timely l s)
    (hs : step l s = some (lines, s')) : Sound s' := by
  cases l with
  | main x => exact h.main_step htimely hs
  | waiter x =>
    simp only [Mc2.step] at hs
    split at hs
    · cases hs
    · exact h.waiter_step hs
  | exit pid =>
    obtain ⟨children', hexit, heq⟩ := Option.map_eq_some_iff.mp hs
    cases heq
    exact ⟨h.held, h.family.exit hexit htimely, h.books.exit hexit⟩

end Steps

/-- In a run in which no child exits too early and no recorded pid comes back, what
`wait3` returns to `waitThread` is no child of a blocking command, and stands in exactly
one entry of `processes`; and `findProcess` finds it. -/
theorem reaped_by_right_thread (fgProcess : Cprocess) (ls : List Label) {tr s}
    (htimely : Guarded step Timely ls (startUp fgProcess))
    (hrun : run step ls (startUp fgProcess) = some (tr, s)) :
    (∀ x lines s', s.waiter = .wait → step (.waiter x) s = some (lines, s') → 0 < x.pid →
      (∀ c ∈ s.children, c.pid = x.pid → c.foreground = false) ∧
        ∃! i, i < maxBgProcesses ∧ (s.table.processes.get i).pid = x.pid) ∧
    ∀ fin, s.waiter = .resolve fin .find → findProcess s.table.processes fin.pid ≠ none := by
  have h : Sound s := by
    refine guarded_rule (P := fun _ s => Sound s) (startUp_sound fgProcess) ?_ ls tr s hrun htimely
    exact fun _ s l lines s' h hl hs => h.step hl hs
  constructor
  · intro x lines s' hwaiter hs hpos
    obtain ⟨children', hwait⟩ : ∃ children', wait3 true s.children x.pid = some children' := by
      simp only [step] at hs
      split at hs
      · cases hs
      · rw [hwaiter] at hs
        obtain ⟨children', hwait, -⟩ := Option.map_eq_some_iff.mp hs
        exact ⟨children', hwait⟩
    obtain ⟨c, hc, hpid, hexited⟩ := ((wait3_spec hwait).2 hpos).1
    obtain ⟨hbg, hassigns⟩ := h.exited hwaiter hc hexited
    refine ⟨fun c' hc' hpid' => ?_, ?_⟩
    · rw [h.family.eq_of_pid hc' hc (hpid'.trans hpid.symm), hbg]
    · exact h.books.recorded .child x.pid ⟨⟨c, hc, hpid, hbg⟩, hpid ▸ hassigns⟩
  · intro fin hwaiter hnone
    have howns : Owns s.main s.fgProcess.pid s.waiter s.children .waiter fin.pid :=
      ⟨h.books.positive fin .find hwaiter, by rw [hwaiter]; rfl⟩
    obtain ⟨i, hi⟩ := (h.books.recorded .waiter fin.pid howns).findProcess
    rw [hi] at hnone
    cases hnone

/-- The user chooses. -/
def chooses (choice : Choice) : Label := .main { (default : Input) with choice := choice }

/-- `fork` or `wait3` returns `pid`. -/
def returns (pid : Int) : Input := { (default : Input) with pid := pid }

/-- A background process is forked and recorded; it exits; `waitThread` takes `canWait`. -/
def backgroundExits : List Label :=
  [chooses (.command false), .main default, .main default, .main (returns 7), .main default,
    .exit 7, .waiter default]

theorem reaped_by_right_thread_background :
    (∃ tr s, run step backgroundExits (startUp default) = some (tr, s) ∧
      (step (.waiter (returns 7)) s).isSome ∧
      ∃! i, i < maxBgProcesses ∧ (s.table.processes.get i).pid = 7) ∧
    ∃ tr s, run step (backgroundExits ++ [.waiter (returns 7), .waiter default])
        (startUp default) = some (tr, s) ∧
      s.waiter = .resolve ⟨7, default⟩ .find ∧ findProcess s.table.processes 7 ≠ none := by
  constructor
  · have heval : (run step backgroundExits (startUp default)).map (fun x =>
        decide (x.2.waiter = .wait ∧ (step (.waiter (returns 7)) x.2).isSome)) = some true := by
      decide +kernel
    obtain ⟨⟨tr, s⟩, hrun, heq⟩ := Option.map_eq_some_iff.mp heval
    obtain ⟨hwaiter, hsome⟩ := of_decide_eq_true heq
    obtain ⟨⟨lines, s'⟩, hs⟩ := Option.isSome_iff_exists.mp hsome
    have htimely : Guarded step Timely backgroundExits (startUp default) :=
      Guarded.of_eval (by decide +kernel)
    refine ⟨tr, s, hrun, hsome, ?_⟩
    exact ((reaped_by_right_thread default backgroundExits htimely hrun).1 (returns 7) lines s'
      hwaiter hs (by decide)).2
  · have heval : (run step (backgroundExits ++ [.waiter (returns 7), .waiter default])
        (startUp default)).map (fun x => decide (x.2.waiter = .resolve ⟨7, default⟩ .find)) =
          some true := by
      decide +kernel
    obtain ⟨⟨tr, s⟩, hrun, heq⟩ := Option.map_eq_some_iff.mp heval
    have hwaiter := of_decide_eq_true heq
    refine ⟨tr, s, hrun, hwaiter, ?_⟩
    refine (reaped_by_right_thread default _ ?_ hrun).2 ⟨7, default⟩ hwaiter
    exact Guarded.of_eval (by decide +kernel)

/-- A blocking command exits after its `fork`, before `main` takes `canWait`. -/
def foregroundExits : List Label :=
  [chooses (.command true), .main (returns 7), .main default, .exit 7, .waiter default]

/-- `waitThread` reaps the child of a blocking command that `main` is about to wait for,
and gets `NULL` from `findProcess`. -/
theorem waiter_snipes_foreground_child : ∃ tr s,
    run step foregroundExits (startUp default) = some (tr, s) ∧ s.main = .lock ∧
      s.waiter = .wait ∧ s.children = [{ pid := 7, foreground := true, exited := true }] ∧
      ∃ tr' s', run step [.waiter (returns 7), .waiter default] s = some (tr', s') ∧
        s'.children = [] ∧ s'.waiter = .resolve ⟨7, default⟩ .find ∧
        findProcess s'.table.processes 7 = none := by
  have heval : (run step foregroundExits (startUp default)).map (fun x => decide (
      x.2.main = .lock ∧ x.2.waiter = .wait ∧
      x.2.children = [{ pid := 7, foreground := true, exited := true }] ∧
      (run step [.waiter (returns 7), .waiter default] x.2).map (fun y => decide (
        y.2.children = [] ∧ y.2.waiter = .resolve ⟨7, default⟩ .find ∧
        findProcess y.2.table.processes 7 = none)) = some true)) = some true := by
    decide +kernel
  obtain ⟨⟨tr, s⟩, hrun, heq⟩ := Option.map_eq_some_iff.mp heval
  obtain ⟨hmain, hwaiter, hchildren, hnext⟩ := of_decide_eq_true heq
  obtain ⟨⟨tr', s'⟩, hrun', heq'⟩ := Option.map_eq_some_iff.mp hnext
  exact ⟨tr, s, hrun, hmain, hwaiter, hchildren, tr', s', hrun', of_decide_eq_true heq'⟩

end OsProjects.Mc2
