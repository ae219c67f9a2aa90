import OsProjects.Mc2.Reporting
import OsProjects.Mc2.Starting

/-!
# When the `e` option comes to an end

`main` leaves when every entry of `processes` has pid 0. `Kept` says that an entry with a
pid always belongs to somebody: a child that has not been reaped, or the thread that got it
from `wait3`. So `waitThread` can empty the table, one child after the other, except for
an entry of a `fork` that failed: `main` can come to its end exactly if there is none.
-/

namespace OsProjects.Mc2

open OsProjects.Lib

/-! ## No entry is left behind -/

structure Kept (s : State) : Prop where
  /-- the background process that is about to be recorded is a child -/
  assigned : ∀ p, s.main.assigns = some p →
    p = -1 ∨ ∃ c ∈ s.children, c.pid = p ∧ c.foreground = false
  owned : ∀ i, i < maxBgProcesses → 0 < pids s.table i →
    ∃ o, Owns s.main s.fgProcess.pid s.waiter s.children o (pids s.table i)
  bounded : ∀ i, i < maxBgProcesses → -1 ≤ pids s.table i

theorem startUp_kept (fgProcess : Cprocess) : Kept (startUp fgProcess) := by
  have hzero : ∀ i, i < maxBgProcesses → pids init i = 0 := by
    intro i hi
    rw [pids, init, Cells.get_ofFn _ hi]
    rfl
  refine ⟨fun p hp => (by cases hp), fun i hi hpos => ?_, fun i hi => ?_⟩
  · have := hzero i hi
    exact absurd hpos (by simp only [startUp]; omega)
  · have := hzero i hi
    simp only [startUp]
    omega

section Steps

variable {s s' : State} {x : Input} {lines : List Line} {l : Label}

/-- A step that writes no pid: whoever holds one keeps it, or hands it on. -/
theorem Kept.move (h : Kept s) (hpids : pids s'.table = pids s.table)
    (hassigned : ∀ p, s'.main.assigns = some p →
      p = -1 ∨ ∃ c ∈ s'.children, c.pid = p ∧ c.foreground = false)
    (howns : ∀ o p, 0 < p → (∃ i, i < maxBgProcesses ∧ pids s.table i = p) →
      Owns s.main s.fgProcess.pid s.waiter s.children o p →
      ∃ o', Owns s'.main s'.fgProcess.pid s'.waiter s'.children o' p) : Kept s' := by
  refine ⟨hassigned, fun i hi hpos => ?_, by rw [hpids]; exact h.bounded⟩
  rw [hpids] at hpos ⊢
  obtain ⟨o, ho⟩ := h.owned i hi hpos
  exact howns o _ hpos ⟨i, hi, rfl⟩ ho

/-- `cleanCommand` for the entry `i` of the pid `p`. -/
theorem Kept.clean {i : Nat} {p : Int} (h : Kept s)
    (hpid : i < maxBgProcesses ∧ pids s.table i = p)
    (hrecorded : 0 < p → Recorded (pids s.table) p)
    (hpids : pids s'.table = Function.update (pids s.table) i 0)
    (hassigned : ∀ p, s'.main.assigns = some p →
      p = -1 ∨ ∃ c ∈ s'.children, c.pid = p ∧ c.foreground = false)
    (howns : ∀ o q, q ≠ p → Owns s.main s.fgProcess.pid s.waiter s.children o q →
      ∃ o', Owns s'.main s'.fgProcess.pid s'.waiter s'.children o' q) : Kept s' := by
  refine ⟨hassigned, fun j hj hpos => ?_, fun j hj => ?_⟩
  · rw [hpids] at hpos ⊢
    by_cases hji : j = i
    · rw [hji, Function.update_self] at hpos
      cases hpos
    · rw [Function.update_of_ne hji] at hpos ⊢
      obtain ⟨o, ho⟩ := h.owned j hj hpos
      refine howns o _ (fun heq => hji ?_) ho
      exact (hrecorded (heq ▸ hpos)).unique ⟨hj, heq⟩ hpid
  · rw [hpids]
    by_cases hji : j = i
    · rw [hji, Function.update_self]
      decide
    · rw [Function.update_of_ne hji]
      exact h.bounded j hj

/-- A step of `main` that leaves the children and the pids as they are. -/
theorem Kept.main_moves (h : Kept s) (hpids : pids s'.table = pids s.table)
    (hchildren : s'.children = s.children) (hwaiter : s'.waiter = s.waiter)
    (hassigns : s'.main.assigns = none)
    (hresolves : s.main.resolves s.fgProcess.pid = none ∨
      s'.main.resolves s'.fgProcess.pid = s.main.resolves s.fgProcess.pid) : Kept s' := by
  refine h.move hpids (fun p hp => ?_) ?_
  · cases hassigns.symm.trans hp
  · rintro (_ | _ | _) p - - ho
    · refine ⟨.child, by rw [hchildren]; exact ho.1, ?_⟩
      rw [hassigns]
      exact (Option.some_ne_none _).symm
    · refine ⟨.main, ho.1, ?_⟩
      rcases hresolves with hnone | hsame
      · cases hnone.symm.trans ho.2
      · exact hsame.trans ho.2
    · exact ⟨.waiter, ho.1, by rw [hwaiter]; exact ho.2⟩

theorem waiter_kept (h : Sound s) (hk : Kept s)
    (hs : waitThread x s s.waiter = some (lines, s')) : Kept s' := by
  obtain ⟨table, fgProcess, lock, children, main, waiter⟩ := s
  cases waiter with
  | lock =>
    obtain ⟨lock', -, heq⟩ := Option.map_eq_some_iff.mp hs
    cases heq
    refine hk.move rfl hk.assigned ?_
    rintro (_ | _ | _) p - - ho
    · exact ⟨.child, ho⟩
    · exact ⟨.main, ho⟩
    · cases ho.2
  | wait =>
    obtain ⟨children', hwait, heq⟩ := Option.map_eq_some_iff.mp hs
    cases heq
    rcases wait3_cases hwait with ⟨c, hc, hcpid, hexited, rfl⟩ | ⟨rfl, -⟩
    · obtain ⟨hbg, hassigns⟩ := h.exited rfl hc hexited
      refine hk.move rfl (fun p hp => (hk.assigned p hp).imp_right ?_) ?_
      · rintro ⟨d, hd, hpid, hdbg⟩
        refine ⟨d, mem_reaped hd fun heq => hassigns ?_, hpid, hdbg⟩
        rw [hcpid, ← heq, hpid]
        exact hp
      · rintro (_ | _ | _) p hpos - ho
        · obtain ⟨⟨d, hd, hpid, hdbg⟩, hne⟩ := ho
          by_cases heq : p = x.pid
          · exact ⟨.waiter, hpos, congrArg some heq.symm⟩
          · exact ⟨.child, ⟨d, mem_reaped hd (by rwa [hpid]), hpid, hdbg⟩, hne⟩
        · exact ⟨.main, ho⟩
        · cases ho.2
    · refine hk.move rfl hk.assigned ?_
      rintro (_ | _ | _) p - - ho
      · exact ⟨.child, ho⟩
      · exact ⟨.main, ho⟩
      · cases ho.2
  | unlock fin =>
    cases hs
    refine hk.move rfl hk.assigned ?_
    rintro (_ | _ | _) p hpos - ho
    · exact ⟨.child, ho⟩
    · exact ⟨.main, ho⟩
    · obtain ⟨-, heq⟩ := ho
      cases heq
      exact ⟨.waiter, hpos, by rw [if_pos hpos]; rfl⟩
  | resolve fin place =>
    obtain ⟨⟨lines', next, table'⟩, hresolve, heq⟩ := Option.map_eq_some_iff.mp hs
    cases heq
    rcases resolve_spec hresolve with ⟨i, rfl, rfl, -, -, rfl⟩ | ⟨i, rfl, rfl, hpids⟩ |
      ⟨i, rfl, rfl, hpids⟩
    · exact hk.move rfl hk.assigned fun o p _ _ ho => ⟨o, by cases o <;> exact ho⟩
    · exact hk.move hpids hk.assigned fun o p _ _ ho => ⟨o, by cases o <;> exact ho⟩
    · have htracked := h.books.tracked i fin.pid (.inr rfl)
      have hpos := h.books.positive fin _ rfl
      refine hk.clean htracked (fun _ => h.books.recorded .waiter fin.pid ⟨hpos, rfl⟩)
        (hpids htracked.1) hk.assigned ?_
      rintro (_ | _ | _) q hne ho
      · exact ⟨.child, ho⟩
      · exact ⟨.main, ho⟩
      · exact absurd (Option.some.inj ho.2).symm hne

/-- `executeCommand` writes the pid `p` of a child, or -1, into the entry `proc`. -/
theorem Kept.record {proc : Nat} {p : Int} (h : Kept s)
    (hchild : p = -1 ∨ ∃ c ∈ s.children, c.pid = p ∧ c.foreground = false) (hp : -1 ≤ p)
    (hpids : pids s'.table = Function.update (pids s.table) proc p)
    (hchildren : s'.children = s.children) (hwaiter : s'.waiter = s.waiter)
    (hassigns : s'.main.assigns = none)
    (hresolves : s.main.resolves s.fgProcess.pid = none) : Kept s' := by
  have hnone : ∀ q, s'.main.assigns ≠ some q := fun q hq => by cases hassigns.symm.trans hq
  refine ⟨fun q hq => absurd hq (hnone q), fun i hi hpos => ?_, fun i hi => ?_⟩
  · rw [hpids] at hpos ⊢
    by_cases heq : i = proc
    · rw [heq, Function.update_self] at hpos ⊢
      rcases hchild with hfail | hchild
      · omega
      · exact ⟨.child, by rw [hchildren]; exact hchild, hnone p⟩
    · rw [Function.update_of_ne heq] at hpos ⊢
      obtain ⟨o, ho⟩ := h.owned i hi hpos
      cases o with
      | child => exact ⟨.child, by rw [hchildren]; exact ho.1, hnone _⟩
      | main => cases hresolves.symm.trans ho.2
      | waiter => exact ⟨.waiter, ho.1, by rw [hwaiter]; exact ho.2⟩
  · rw [hpids]
    by_cases heq : i = proc
    · rw [heq, Function.update_self]
      exact hp
    · rw [Function.update_of_ne heq]
      exact h.bounded i hi

/-- A new child has no entry yet, and the old ones are still there. -/
theorem fork_kept {tracker : Tracker} (h : Sound s) (hk : Kept s) (htimely : Timely (.main x) s)
    (hmain : s.main = .fork tracker) (hs : actMain x s s.main = some (lines, s')) : Kept s' := by
  obtain ⟨table, fgProcess, lock, children, main, waiter⟩ := s
  cases hmain
  obtain ⟨children', hfork, heq⟩ := Option.map_eq_some_iff.mp hs
  cases heq
  have hmem : ∀ c ∈ children, c ∈ children' := by
    intro c hc
    rcases fork_spec hfork with ⟨-, rfl⟩ | ⟨-, -, rfl⟩
    · exact hc
    · exact List.mem_cons_of_mem _ hc
  cases tracker with
  | fgProcess =>
    refine hk.move rfl (fun p hp => (by cases hp)) ?_
    rintro (_ | _ | _) p - - ho
    · obtain ⟨⟨c, hc, hown⟩, -⟩ := ho
      exact ⟨.child, ⟨c, hmem c hc, hown⟩, (Option.some_ne_none _).symm⟩
    · cases ho.2
    · exact ⟨.waiter, ho⟩
  | slot proc =>
    refine hk.move (pids_set_self (h.books.reserved proc rfl).1 rfl) (fun p hp => ?_) ?_
    · cases hp
      rcases fork_spec hfork with ⟨hfail, -⟩ | ⟨-, -, rfl⟩
      · exact .inl hfail
      · exact .inr ⟨_, List.mem_cons_self, rfl, rfl⟩
    · rintro (_ | _ | _) p hpos ⟨i, hi, hpid⟩ ho
      · obtain ⟨⟨c, hc, hown⟩, -⟩ := ho
        refine ⟨.child, ⟨c, hmem c hc, hown⟩, fun heq => ?_⟩
        cases heq
        exact findProcess_eq_none.mp (htimely rfl hpos) i hi hpid
      · cases ho.2
      · exact ⟨.waiter, ho⟩

theorem assign_kept {tracker : Tracker} {pid : Int} (h : Sound s) (hk : Kept s)
    (hmain : s.main = .assign tracker pid) (hs : actMain x s s.main = some (lines, s')) :
    Kept s' := by
  obtain ⟨table, fgProcess, lock, children, main, waiter⟩ := s
  cases hmain
  cases hs
  cases tracker with
  | fgProcess => exact hk.main_moves rfl rfl rfl rfl (.inl rfl)
  | slot proc =>
    obtain ⟨hproc, -⟩ := h.books.reserved proc rfl
    have hchild := hk.assigned pid rfl
    have hbound : -1 ≤ pid := by
      rcases hchild with hfail | ⟨c, hc, hpid, -⟩
      · omega
      · have := h.family.pos c hc
        omega
    exact hk.record hchild hbound (pids_set hproc) rfl rfl rfl rfl

/-- The child that `main` gets from `wait3` is its own from then on. -/
theorem wait_kept (h : Sound s) (ha : Awaiting s) (hk : Kept s) (hmain : s.main = .wait)
    (hs : actMain x s s.main = some (lines, s')) : Kept s' := by
  obtain ⟨table, fgProcess, lock, children, main, waiter⟩ := s
  cases hmain
  obtain ⟨children', hwait, heq⟩ := Option.map_eq_some_iff.mp hs
  cases heq
  refine hk.move rfl (fun p hp => (by cases hp)) ?_
  rcases ha.reaps h.family hwait with ⟨c, hc, hcpid, -, hfg, rfl⟩ | ⟨rfl, -⟩
  · rintro (_ | _ | _) p hpos - ho
    · obtain ⟨⟨d, hd, hpid, hbg⟩, -⟩ := ho
      by_cases heq : p = x.pid
      · -- the child that `main` got is the one that held the pid
        have hdc : d = c := h.family.eq_of_pid hd hc (by rw [hpid, hcpid, heq])
        have hne : ¬ x.pid = fgProcess.pid := by
          rw [← hdc, hbg] at hfg
          exact of_decide_eq_false hfg.symm
        exact ⟨.main, hpos, by rw [heq]; exact if_neg hne⟩
      · have hd' := mem_reaped hd (p := x.pid) (by rwa [hpid])
        exact ⟨.child, ⟨d, hd', hpid, hbg⟩, (Option.some_ne_none _).symm⟩
    · cases ho.2
    · exact ⟨.waiter, ho⟩
  · rintro (_ | _ | _) p - - ho
    · exact ⟨.child, ho.1, (Option.some_ne_none _).symm⟩
    · cases ho.2
    · exact ⟨.waiter, ho⟩

theorem loop_assigns (fgProcess : Cprocess) : (loop fgProcess).assigns = none := by
  rcases loop_eq fgProcess with heq | heq <;> rw [heq] <;> rfl

/-- `main` completes a background process that it got from `wait3`. -/
theorem main_resolve_kept {fin : Finished} {place : Resolve} (h : Sound s) (hk : Kept s)
    (hmain : s.main = .resolve fin place) (hs : actMain x s s.main = some (lines, s')) :
    Kept s' := by
  obtain ⟨table, fgProcess, lock, children, main, waiter⟩ := s
  cases hmain
  obtain ⟨⟨lines', next, table'⟩, hresolve, heq⟩ := Option.map_eq_some_iff.mp hs
  cases heq
  rcases resolve_spec hresolve with ⟨i, rfl, rfl, -, -, rfl⟩ | ⟨i, rfl, rfl, hpids⟩ |
    ⟨i, rfl, rfl, hpids⟩
  · exact hk.main_moves rfl rfl rfl rfl (.inr rfl)
  · exact hk.main_moves hpids rfl rfl rfl (.inr rfl)
  · have htracked := h.books.tracked i fin.pid (.inl rfl)
    have hassigns := loop_assigns fgProcess
    refine hk.clean htracked (fun hpos => h.books.recorded .main fin.pid ⟨hpos, rfl⟩)
      (hpids htracked.1) (fun p hp => (by cases hassigns.symm.trans hp)) ?_
    rintro (_ | _ | _) q hne ho
    · exact ⟨.child, ho.1, by rw [hassigns]; exact (Option.some_ne_none _).symm⟩
    · exact absurd (Option.some.inj ho.2).symm hne
    · exact ⟨.waiter, ho⟩

theorem main_kept (h : Sound s) (ha : Awaiting s) (hk : Kept s)
    (htimely : Timely (.main x) s) (hs : actMain x s s.main = some (lines, s')) : Kept s' := by
  obtain ⟨table, fgProcess, lock, children, main, waiter⟩ := s
  cases main with
  | fork tracker => exact fork_kept h hk htimely rfl hs
  | assign tracker pid => exact assign_kept h hk rfl hs
  | wait => exact wait_kept h ha hk rfl hs
  | resolve fin place => exact main_resolve_kept h hk rfl hs
  -- the other steps leave children and pids alone
  | menu =>
    obtain ⟨choice, pid, now, stats⟩ := x
    rcases choice with _ | _ | (_ | _) <;> cases hs <;>
      exact hk.main_moves rfl rfl rfl rfl (.inl rfl)
  | listLock =>
    obtain ⟨lock', -, heq⟩ := Option.map_eq_some_iff.mp hs
    cases heq
    exact hk.main_moves rfl rfl rfl rfl (.inl rfl)
  | list =>
    obtain ⟨lines', -, heq⟩ := Option.map_eq_some_iff.mp hs
    cases heq
    exact hk.main_moves rfl rfl rfl rfl (.inl rfl)
  | listUnlock | unlock =>
    cases hs
    exact hk.main_moves rfl rfl rfl rfl (.inl rfl)
  | findSlot =>
    obtain ⟨proc, -, heq⟩ := Option.map_eq_some_iff.mp hs
    cases heq
    exact hk.main_moves rfl rfl rfl rfl (.inl rfl)
  | number proc =>
    cases hs
    exact hk.main_moves (pids_set_self (h.books.reserved proc rfl).1 rfl) rfl rfl rfl (.inl rfl)
  | lock =>
    obtain ⟨lock', -, heq⟩ := Option.map_eq_some_iff.mp hs
    cases heq
    exact hk.main_moves rfl rfl rfl (loop_assigns _) (.inl rfl)
  | handle fin =>
    simp only [actMain] at hs
    split at hs
    · next hfg =>
      cases hs
      have hassigns := loop_assigns (cleanCommand fgProcess x.now fin.stats).2
      exact hk.main_moves rfl rfl rfl hassigns (.inl (if_pos hfg))
    · next hne =>
      cases hs
      exact hk.main_moves rfl rfl rfl rfl (.inr (if_neg hne).symm)
  | exiting =>
    simp only [actMain] at hs
    split at hs <;> cases hs <;> exact hk.main_moves rfl rfl rfl rfl (.inl rfl)
  | exited => cases hs

theorem exit_kept {pid : Int} {children' : List Child} (hk : Kept s)
    (hexit : exit s.children pid = some children') : Kept { s with children := children' } := by
  have hmem : ∀ p, (∃ c ∈ s.children, c.pid = p ∧ c.foreground = false) →
      ∃ c ∈ children', c.pid = p ∧ c.foreground = false := by
    rintro p ⟨c, hc, hpid, hbg⟩
    unfold exit at hexit
    split at hexit
    · cases hexit
      refine ⟨_, List.mem_map_of_mem hc, ?_⟩
      split <;> exact ⟨hpid, hbg⟩
    · cases hexit
  refine hk.move rfl (fun p hp => (hk.assigned p hp).imp_right (hmem p)) ?_
  rintro (_ | _ | _) p - - ho
  · exact ⟨.child, hmem p ho.1, ho.2⟩
  · exact ⟨.main, ho⟩
  · exact ⟨.waiter, ho⟩

/-- All that is kept along a timely run. -/
structure Kempt (s : State) : Prop where
  sound : Sound s
  awaiting : Awaiting s
  kept : Kept s

theorem Kempt.step (h : Kempt s) (htimely : Timely l s) (hs : Mc2.step l s = some (lines, s')) :
    Kempt s' := by
  refine ⟨h.sound.step htimely hs, (step_ledger h.sound h.awaiting hs).1, ?_⟩
  cases l with
  | main x => exact main_kept h.sound h.awaiting h.kept htimely hs
  | waiter x =>
    simp only [Mc2.step] at hs
    split at hs
    · cases hs
    · exact waiter_kept h.sound h.kept hs
  | exit pid =>
    obtain ⟨children', hexit, heq⟩ := Option.map_eq_some_iff.mp hs
    cases heq
    exact exit_kept h.kept hexit

end Steps

/-! ## The last loop -/

section Leaving

variable {s s' : State}

/-- The steps `waitThread` has before it, if there are no more children. -/
def WaiterPc.left : WaiterPc → Nat
  | .wait => 1
  | .lock => 2
  | .resolve _ (.clean _) => 3
  | .resolve _ (.decrement _) => 4
  | .resolve _ .find => 5
  | .unlock _ => 6

/-- Where `waitThread` goes after a call on the way to `cleanCommand`. -/
def WaiterPc.after (fin : Finished) : Option Resolve → WaiterPc
  | some place => .resolve fin place
  | none => .lock

/-- `main` is at its last loop, every child has exited, and no `fork` failed. -/
structure Closing (s : State) : Prop extends Kempt s where
  exiting : s.main = .exiting
  exited : ∀ c ∈ s.children, c.exited = true
  entries : ∀ i, i < maxBgProcesses → 0 ≤ pids s.table i

theorem Kempt.unlocked (h : Kempt s) (hmain : s.main = .exiting) (hwaiter : s.waiter = .lock) :
    s.lock .canWait = none := by
  refine h.sound.held.free_iff.mpr fun t => ?_
  cases t with
  | main => simp [locked, hmain, MainPc.locked]
  | waiter => simp [locked, hwaiter, WaiterPc.locked]

/-- Unless all is done, `waitThread` has a step that brings the end nearer. -/
theorem Closing.goes (h : Closing s)
    (hwork : s.children = [] → s.waiter ≠ .lock ∧ s.waiter ≠ .wait) :
    ∃ x lines s', step (.waiter x) s = some (lines, s') ∧ Closing s' ∧
      7 * s'.children.length + s'.waiter.left < 7 * s.children.length + s.waiter.left := by
  have hkempt : ∀ x lines s', step (.waiter x) s = some (lines, s') → Kempt s' :=
    fun x lines s' hs => h.toKempt.step (l := .waiter x) trivial hs
  have hstep : ∀ x, step (.waiter x) s = waitThread x s s.waiter := by
    intro x
    rw [step, if_neg (by rw [h.exiting]; decide)]
  cases hwaiter : s.waiter with
  | lock =>
    have hs : step (.waiter default) s = some ([], { s with
        lock := Function.update s.lock .canWait (some .waiter), waiter := .wait }) := by
      rw [hstep, hwaiter, waitThread, mutexLock_eq_some.mpr
        ⟨h.unlocked h.exiting hwaiter, rfl⟩]
      rfl
    refine ⟨_, _, _, hs, ⟨hkempt _ _ _ hs, h.exiting, h.exited, h.entries⟩, ?_⟩
    simp only [WaiterPc.left]
    omega
  | wait =>
    obtain ⟨c, cs, hchildren⟩ : ∃ c cs, s.children = c :: cs := by
      cases hc : s.children with
      | nil => exact absurd hwaiter (hwork hc).2
      | cons c cs => exact ⟨c, cs, rfl⟩
    have hc : c ∈ s.children := by
      rw [hchildren]
      exact List.mem_cons_self
    have hwait : wait3 true s.children c.pid = some (s.children.filter fun d => d.pid != c.pid) :=
      if_pos ⟨c, hc, rfl, h.exited c hc⟩
    have hs : step (.waiter (returns c.pid)) s = some ([], { s with
        children := s.children.filter fun d => d.pid != c.pid
        waiter := .unlock ⟨c.pid, default⟩ }) := by
      rw [hstep, hwaiter]
      show (wait3 true s.children c.pid).map _ = _
      rw [hwait]
      rfl
    refine ⟨_, _, _, hs, ⟨hkempt _ _ _ hs, h.exiting, fun d hd => ?_, h.entries⟩, ?_⟩
    · exact h.exited d (List.mem_of_mem_filter hd)
    · have hlt : (s.children.filter fun d => d.pid != c.pid).length < s.children.length :=
        List.length_filter_lt_length_iff_exists.mpr ⟨c, hc, by simp⟩
      simp only [WaiterPc.left]
      omega
  | unlock fin =>
    have hs : step (.waiter default) s = some ([], { s with
        lock := mutexUnlock s.lock .canWait
        waiter := if 0 < fin.pid then .resolve fin .find else .lock }) := by
      rw [hstep, hwaiter]
      rfl
    refine ⟨_, _, _, hs, ⟨hkempt _ _ _ hs, h.exiting, h.exited, h.entries⟩, ?_⟩
    simp only
    split <;> simp only [WaiterPc.left] <;> omega
  | resolve fin place =>
    have hpos := h.sound.books.positive fin place hwaiter
    have hresolve : ∀ now lines next table,
        resolve fin now s.table place = some (lines, next, table) →
        (∀ i, i < maxBgProcesses → 0 ≤ pids table i) →
        (WaiterPc.after fin next).left < (WaiterPc.resolve fin place).left →
        ∃ x lines s', step (.waiter x) s = some (lines, s') ∧ Closing s' ∧
          7 * s'.children.length + s'.waiter.left <
            7 * s.children.length + (WaiterPc.resolve fin place).left := by
      intro now lines next table hr hentries hleft
      have hs : step (.waiter { (default : Input) with now := now }) s = some (lines, { s with
          table := table
          waiter := .after fin next }) := by
        rw [hstep, hwaiter]
        show (resolve fin now s.table place).map _ = _
        rw [hr]
        cases next <;> rfl
      refine ⟨_, _, _, hs, ⟨hkempt _ _ _ hs, h.exiting, h.exited, hentries⟩, ?_⟩
      exact Nat.add_lt_add_left hleft _
    cases place with
    | find =>
      have hown : Owns s.main s.fgProcess.pid s.waiter s.children .waiter fin.pid :=
        ⟨hpos, by rw [hwaiter]; rfl⟩
      obtain ⟨i, hi⟩ := (h.sound.books.recorded .waiter fin.pid hown).findProcess
      refine hresolve default [] (some (.decrement i)) s.table ?_ h.entries (Nat.lt_succ_self 4)
      rw [resolve, hi]
      rfl
    | decrement i =>
      refine hresolve default _ (some (.clean i)) _ rfl ?_ (Nat.lt_succ_self 3)
      rw [pids_decrementJobs]
      exact h.entries
    | clean i =>
      have hi := (h.sound.books.tracked i fin.pid (.inr (by rw [hwaiter]; rfl))).1
      refine hresolve default _ none _ rfl (fun j hj => ?_) (Nat.lt_succ_self 2)
      rw [pids_set hi]
      by_cases hji : j = i
      · rw [hji, Function.update_self]
      · rw [Function.update_of_ne hji]
        exact h.entries j hj

/-- With no child left and `waitThread` back at its start, the table is empty. -/
theorem Closing.empty (h : Closing s) (hchildren : s.children = [])
    (hwaiter : s.waiter = .lock ∨ s.waiter = .wait) :
    s.table.processes.used Cprocess.inUse = 0 := by
  refine Finset.card_eq_zero.mpr (Finset.filter_eq_empty_iff.mpr fun i hi => ?_)
  have hlt := Finset.mem_range.mp hi
  have hzero : pids s.table i = 0 := by
    by_contra hne
    have hpos : 0 < pids s.table i := lt_of_le_of_ne (h.entries i hlt) (Ne.symm hne)
    obtain ⟨o, ho⟩ := h.kept.owned i hlt hpos
    cases o with
    | child =>
      obtain ⟨⟨c, hc, -⟩, -⟩ := ho
      rw [hchildren] at hc
      cases hc
    | main =>
      rw [h.exiting] at ho
      cases ho.2
    | waiter => rcases hwaiter with hw | hw <;> rw [hw] at ho <;> cases ho.2
  have hpid : (s.table.processes.get i).pid = 0 := hzero
  simp [Cprocess.inUse, hpid]

theorem Closing.ends (n : Nat) : ∀ s : State, Closing s →
    7 * s.children.length + s.waiter.left ≤ n →
      ∃ ls tr s', run step ls s = some (tr, s') ∧ s'.main = .exited := by
  induction n using Nat.strong_induction_on with
  | _ n ih =>
    intro s h hn
    by_cases hdone : s.children = [] ∧ (s.waiter = .lock ∨ s.waiter = .wait)
    · have hs : step (.main default) s = some ([], { s with main := .exited }) := by
        rw [step, h.exiting, actMain, if_pos (h.empty hdone.1 hdone.2)]
      exact ⟨[.main default], [(.main default, [])], _, run_cons hs rfl, rfl⟩
    · obtain ⟨x, lines, s₁, hs, h₁, hlt⟩ := h.goes fun hchildren =>
        not_or.mp fun hwaiter => hdone ⟨hchildren, hwaiter⟩
      obtain ⟨ls, tr, s', hrun, hmain⟩ := ih _ (lt_of_lt_of_le hlt hn) s₁ h₁ (Nat.le_refl _)
      exact ⟨_, _, s', run_cons hs hrun, hmain⟩

/-- One more child has exited. -/
theorem countP_running_lt {children : List Child} {c : Child} (hc : c ∈ children)
    (hrunning : c.exited = false) :
    (children.map fun d => if d.pid = c.pid then { d with exited := true } else d).countP
      (fun d => !d.exited) < children.countP fun d => !d.exited := by
  have hfilter : ∀ d : Child, (!(if d.pid = c.pid then { d with exited := true } else d).exited) =
      (decide (d.pid ≠ c.pid) && !d.exited) := by
    intro d
    split <;> simp [*]
  rw [List.countP_map, List.countP_eq_length_filter, List.countP_eq_length_filter]
  simp only [Function.comp_def, hfilter]
  rw [← List.filter_filter]
  refine List.length_filter_lt_length_iff_exists.mpr ⟨c, ?_, by simp⟩
  exact List.mem_filter.mpr ⟨hc, by simp [hrunning]⟩

/-- All children can exit. -/
theorem children_exit (n : Nat) : ∀ s : State, Kempt s → s.main = .exiting →
    s.children.countP (fun c => !c.exited) ≤ n →
      ∃ ls tr s', run step ls s = some (tr, s') ∧ Kempt s' ∧ s'.main = .exiting ∧
        s'.table = s.table ∧ ∀ c ∈ s'.children, c.exited = true := by
  induction n with
  | zero =>
    intro s h hmain hcount
    refine ⟨[], [], s, rfl, h, hmain, rfl, fun c hc => ?_⟩
    simpa using List.countP_eq_zero.mp (Nat.le_zero.mp hcount) c hc
  | succ n ih =>
    intro s h hmain hcount
    by_cases hall : ∀ c ∈ s.children, c.exited = true
    · exact ⟨[], [], s, rfl, h, hmain, rfl, hall⟩
    · push Not at hall
      obtain ⟨c, hc, hrunning⟩ := hall
      have hlabel : exit s.children c.pid = some (s.children.map fun d =>
          if d.pid = c.pid then { d with exited := true } else d) :=
        if_pos ⟨c, hc, rfl, by simpa using hrunning⟩
      have hs : step (.exit c.pid) s = some ([], { s with
          children := s.children.map fun d =>
            if d.pid = c.pid then { d with exited := true } else d }) := by
        rw [step, hlabel]
        rfl
      have htimely : Timely (.exit c.pid) s := by
        show ¬ Pending s.main s.fgProcess.pid c.pid
        rw [hmain]
        exact (Option.some_ne_none c.pid).symm
      have hlt := countP_running_lt hc (by simpa using hrunning)
      obtain ⟨ls, tr, s', hrun, hrest⟩ := ih _ (h.step htimely hs) hmain
        (Nat.le_of_lt_succ (lt_of_lt_of_le hlt hcount))
      exact ⟨_, _, s', run_cons hs hrun, hrest⟩

theorem stuck_of_failed (h : Kempt s) (hmain : s.main = .exiting) {i : Nat}
    (hi : i < maxBgProcesses) (hpid : pids s.table i = -1) : Stuck i s := by
  refine ⟨hmain, hi, hpid, ?_⟩
  -- an entry found for a child is another one
  have hother : ∀ fin place tracker, s.waiter = .resolve fin place →
      place.tracker = some tracker → tracker < maxBgProcesses ∧ tracker ≠ i := by
    intro fin place tracker hwaiter htracker
    have hpos := h.sound.books.positive fin place hwaiter
    obtain ⟨hlt, heq⟩ := h.sound.books.tracked tracker fin.pid
      (.inr (by rw [hwaiter, WaiterPc.tracker, htracker, Option.map_some]))
    refine ⟨hlt, ?_⟩
    rintro rfl
    omega
  cases hwaiter : s.waiter with
  | lock | wait | unlock => trivial
  | resolve fin place =>
    cases place with
    | find => exact h.sound.books.positive fin _ hwaiter
    | decrement tracker => exact hother fin _ tracker hwaiter rfl
    | clean tracker => exact hother fin _ tracker hwaiter rfl

end Leaving

theorem steps_kempt (fgProcess : Cprocess) (ls : List Label) {tr s}
    (htimely : Guarded step Timely ls (startUp fgProcess))
    (hrun : run step ls (startUp fgProcess) = some (tr, s)) : Kempt s := by
  refine guarded_rule (P := fun _ s => Kempt s) ?_ (fun _ s l lines s' h hl hs => h.step hl hs)
    ls tr s hrun htimely
  exact ⟨startUp_sound fgProcess, startUp_awaiting fgProcess, startUp_kept fgProcess⟩

/-- In a run in which no child exits too early and no recorded pid comes back, once the user
has chosen `e`, `main` can come to its end, with the children exiting and `waitThread` going
on, exactly if no entry was left by a `fork` that failed. -/
theorem leaving_ends_iff (fgProcess : Cprocess) (ls : List Label) {tr s}
    (htimely : Guarded step Timely ls (startUp fgProcess))
    (hrun : run step ls (startUp fgProcess) = some (tr, s)) (hmain : s.main = .exiting) :
    (∃ ls' tr' s', run step ls' s = some (tr', s') ∧ s'.main = .exited) ↔
      ∀ i, i < maxBgProcesses → (s.table.processes.get i).pid ≠ -1 := by
  have h := steps_kempt fgProcess ls htimely hrun
  constructor
  · rintro ⟨ls', tr', s', hrun', hexited⟩ i hi hpid
    have hstuck := stuck_of_failed h hmain hi hpid
    cases (exiting_forever hstuck ls' hrun').symm.trans hexited
  · intro hentries
    obtain ⟨ls₁, tr₁, s₁, hrun₁, h₁, hmain₁, htable, hall⟩ :=
      children_exit _ s h hmain (Nat.le_refl _)
    have hclosing : Closing s₁ := by
      refine ⟨h₁, hmain₁, hall, fun i hi => ?_⟩
      have hbound := h.kept.bounded i hi
      have hne : pids s.table i ≠ -1 := hentries i hi
      rw [htable]
      omega
    obtain ⟨ls₂, tr₂, s₂, hrun₂, hend⟩ := hclosing.ends _ s₁ (Nat.le_refl _)
    exact ⟨ls₁ ++ ls₂, tr₁ ++ tr₂, s₂, run_trans hrun₁ hrun₂, hend⟩

/-- A background process is running when the user leaves. -/
def leavesWhileRunning : List Label :=
  [chooses (.command false), .main default, .main default, .main (returns 7), .main default,
    chooses .exit]

theorem leaving_ends_iff_running : ∃ tr s,
    run step leavesWhileRunning (startUp default) = some (tr, s) ∧
      (∃ c ∈ s.children, c.exited = false) ∧
      ∃ ls' tr' s', run step ls' s = some (tr', s') ∧ s'.main = .exited := by
  have heval : (run step leavesWhileRunning (startUp default)).map (fun x => decide (
      x.2.main = .exiting ∧ (∃ c ∈ x.2.children, c.exited = false) ∧
      ∀ i < maxBgProcesses, (x.2.table.processes.get i).pid ≠ -1)) = some true := by
    decide +kernel
  obtain ⟨⟨tr, s⟩, hrun, heq⟩ := Option.map_eq_some_iff.mp heval
  obtain ⟨hmain, hrunning, hentries⟩ := of_decide_eq_true heq
  have htimely : Guarded step Timely leavesWhileRunning (startUp default) :=
    Guarded.of_eval (by decide +kernel)
  exact ⟨tr, s, hrun, hrunning, (leaving_ends_iff default _ htimely hrun hmain).mpr hentries⟩

end OsProjects.Mc2
