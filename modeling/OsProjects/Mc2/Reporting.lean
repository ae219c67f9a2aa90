import OsProjects.Mc2.Reaping

/-!
# Every background process is reported once

A background process is due from its `fork` until the line with its pid is printed: as a
child, and then in the hands of the thread that reaped it. Every step keeps the ledger
(`step_ledger`): what is started becomes due, and what is due stays due or is reported. So
no process is reported twice, or without having been started; and when `main` ends, nothing
is due: every process that was started has been reported, and no child is left behind.
-/

namespace OsProjects.Mc2

open OsProjects.Lib

/-! ## What is due -/

/-- The background process that `main` has reaped and not reported. -/
def MainPc.unreported (fg : Int) : MainPc → Option Int
  | .handle fin => if fin.pid = fg then none else some fin.pid
  | .resolve fin .find | .resolve fin (.decrement _) => some fin.pid
  | _ => none

def WaiterPc.unreported : WaiterPc → Option Int
  | .unlock fin => if 0 < fin.pid then some fin.pid else none
  | .resolve fin .find | .resolve fin (.decrement _) => some fin.pid
  | _ => none

/-- A child of a background command with this pid. -/
def Child.background (p : Int) (c : Child) : Bool := c.pid == p && !c.foreground

/-- How often the pid was started and not reported yet. -/
def due (s : State) (p : Int) : Nat :=
  s.children.countP (Child.background p) + (s.main.unreported s.fgProcess.pid).toList.count p +
    s.waiter.unreported.toList.count p

/-- The pids in the lines of completed jobs. -/
def reports (lines : List Line) : List Int := lines.filterMap fun
  | .processId pid => some pid
  | _ => none

/-- The background process that a step starts. -/
def starts (l : Label) (s : State) : List Int :=
  match l, s.main with
  | .main x, .fork (.slot _) => if 0 < x.pid then [x.pid] else []
  | _, _ => []

/-- The pids reported in a run. -/
def reported (tr : List (Label × List Line)) : List Int := tr.flatMap fun x => reports x.2

/-! ## The children -/

section Children

variable {children children' : List Child} {c : Child} {p : Int}

theorem wait3_cases {nohang : Bool} (h : wait3 nohang children p = some children') :
    (∃ c ∈ children, c.pid = p ∧ c.exited = true ∧
      children' = children.filter fun c => c.pid != p) ∨
    children' = children ∧ (p = -1 ∧ children = [] ∨ p = 0 ∧ nohang = true) := by
  unfold wait3 at h
  split at h
  · next hex =>
    obtain ⟨c, hc, hpid, hexited⟩ := hex
    cases h
    exact .inl ⟨c, hc, hpid, hexited, rfl⟩
  · split at h
    · next hnone =>
      cases h
      exact .inr ⟨rfl, .inl hnone⟩
    · split at h
      · next hzero =>
        cases h
        exact .inr ⟨rfl, .inr ⟨hzero.1, hzero.2.1⟩⟩
      · cases h

/-- A child is reaped. -/
theorem countP_reaped (hnodup : (children.map Child.pid).Nodup) (hc : c ∈ children) (p : Int) :
    children.countP (Child.background p) = (if c.background p then 1 else 0) +
      (children.filter fun d => d.pid != c.pid).countP (Child.background p) := by
  induction children with
  | nil => cases hc
  | cons d ds ih =>
    obtain ⟨hd, hnodup⟩ := List.nodup_cons.mp hnodup
    by_cases hdc : d.pid = c.pid
    · -- nobody else has its pid
      have hcd : c = d := by
        rcases List.mem_cons.mp hc with heq | hmem
        · exact heq
        · exact absurd (hdc ▸ List.mem_map_of_mem hmem) hd
      subst hcd
      have hkeep : ds.filter (fun d => d.pid != c.pid) = ds := by
        refine List.filter_eq_self.mpr fun e he => ?_
        rw [bne_iff_ne]
        exact fun heq => hd (heq ▸ List.mem_map_of_mem he)
      rw [List.filter_cons_of_neg (by simp), hkeep, List.countP_cons, Nat.add_comm]
    · have hmem : c ∈ ds := (List.mem_cons.mp hc).resolve_left fun heq => hdc (by rw [heq])
      rw [List.filter_cons_of_pos (by simpa using hdc), List.countP_cons, List.countP_cons,
        ih hnodup hmem]
      omega

theorem countP_exit (h : exit children p = some children') (q : Int) :
    children'.countP (Child.background q) = children.countP (Child.background q) := by
  unfold exit at h
  split at h
  · cases h
    rw [List.countP_map]
    refine congrArg (fun f => children.countP f) (funext fun c => ?_)
    simp only [Function.comp_apply]
    split <;> rfl
  · cases h

theorem countP_fork {foreground : Bool} (h : fork foreground children p = some children')
    (q : Int) : children'.countP (Child.background q) = children.countP (Child.background q) +
      (if 0 < p ∧ p = q ∧ foreground = false then 1 else 0) := by
  rcases fork_spec h with ⟨rfl, rfl⟩ | ⟨hpos, -, rfl⟩
  · simp
  · rw [List.countP_cons]
    simp [Child.background, hpos]

/-- The child of a blocking command stays when another one is reaped. -/
theorem mem_reaped {d : Child} (hd : d ∈ children) (hne : d.pid ≠ p) :
    d ∈ children.filter fun c => c.pid != p :=
  List.mem_filter.mpr ⟨hd, by simpa using hne⟩

end Children

/-! ## The ledger -/

/-- The blocking command that `main` will find among the children. -/
def MainPc.expects (fg : Int) : MainPc → Option Int
  | .assign .fgProcess pid => some pid
  | .lock | .wait | .resolve .. => some fg
  | .handle fin => if fin.pid = fg then none else some fg
  | _ => none

def MainPc.over : MainPc → Bool
  | .exited => true
  | _ => false

/-- What `Sound` leaves open about `main`. -/
structure Awaiting (s : State) : Prop where
  /-- a blocking command that was started is a child until `main` has got its pid -/
  child : ∀ p, s.main.expects s.fgProcess.pid = some p →
    p = -1 ∨ ∃ c ∈ s.children, c.pid = p ∧ c.foreground = true
  positive : ∀ p, s.main.unreported s.fgProcess.pid = some p → 0 < p
  closed : s.main = .exited → ∀ i, i < maxBgProcesses → pids s.table i = 0

section Steps

variable {s s' : State} {x : Input} {lines : List Line} {l : Label}

/-- A step that neither starts nor reports a process, and moves none. -/
theorem ledger_silent {p : Int} (hstarts : starts l s = []) (hreports : reports lines = [])
    (hchildren : s'.children = s.children)
    (hmain : s'.main.unreported s'.fgProcess.pid = s.main.unreported s.fgProcess.pid)
    (hwaiter : s'.waiter.unreported = s.waiter.unreported) :
    (starts l s).count p + due s p = (reports lines).count p + due s' p := by
  rw [hstarts, hreports, due, due, hchildren, hmain, hwaiter]

theorem resolve_reports {t t' : Table} {fin : Finished} {now : Timeval} {place : Resolve}
    {next : Option Resolve} (h : resolve fin now t place = some (lines, next, t'))
    (htracked : ∀ i, place.tracker = some i → pids t i = fin.pid) :
    (∃ i, place = .find ∧ next = some (.decrement i) ∧ reports lines = []) ∨
      (∃ i, place = .decrement i ∧ next = some (.clean i) ∧ reports lines = [fin.pid]) ∨
      ∃ i, place = .clean i ∧ next = none ∧ reports lines = [] := by
  cases place with
  | find =>
    obtain ⟨i, -, heq⟩ := Option.map_eq_some_iff.mp h
    cases heq
    exact .inl ⟨i, rfl, rfl, rfl⟩
  | decrement i =>
    cases h
    have hpid : (t.processes.get i).pid = fin.pid := htracked i rfl
    exact .inr (.inl ⟨i, rfl, rfl, by rw [← hpid]; rfl⟩)
  | clean i =>
    cases h
    exact .inr (.inr ⟨i, rfl, rfl, rfl⟩)

theorem waiter_ledger (h : Sound s) (hs : waitThread x s s.waiter = some (lines, s')) (p : Int) :
    due s p = (reports lines).count p + due s' p := by
  obtain ⟨table, fgProcess, lock, children, main, waiter⟩ := s
  cases waiter with
  | lock =>
    obtain ⟨lock', -, heq⟩ := Option.map_eq_some_iff.mp hs
    cases heq
    simp [due, WaiterPc.unreported, reports]
  | wait =>
    obtain ⟨children', hwait, heq⟩ := Option.map_eq_some_iff.mp hs
    cases heq
    rcases wait3_cases hwait with ⟨c, hc, hpid, hexited, rfl⟩ | ⟨rfl, hnone⟩
    · have hbg := (h.exited rfl hc hexited).1
      have hpos := h.family.pos c hc
      have hcount := countP_reaped h.family.nodup hc p
      simp only [due, WaiterPc.unreported, ← hpid, hpos, if_true, hcount, Child.background, hbg,
        reports, List.filterMap_nil, List.count_nil, Option.toList_some, Option.toList_none,
        List.count_singleton, Bool.not_false, Bool.and_true]
      omega
    · have hle : ¬ 0 < x.pid := by
        rcases hnone with ⟨hp, -⟩ | ⟨hp, -⟩ <;> omega
      simp [due, WaiterPc.unreported, hle, reports]
  | unlock fin =>
    cases hs
    by_cases hpos : 0 < fin.pid <;> simp [due, WaiterPc.unreported, hpos, reports]
  | resolve fin place =>
    obtain ⟨⟨lines', next, table'⟩, hresolve, heq⟩ := Option.map_eq_some_iff.mp hs
    cases heq
    have htracked : ∀ i, place.tracker = some i → pids table i = fin.pid := by
      intro i hi
      refine (h.books.tracked i fin.pid (.inr ?_)).2
      simp [WaiterPc.tracker, hi]
    rcases resolve_reports hresolve htracked with ⟨i, rfl, rfl, hrep⟩ | ⟨i, rfl, rfl, hrep⟩ |
      ⟨i, rfl, rfl, hrep⟩
    · simp [due, WaiterPc.unreported, hrep]
    · simp only [due, WaiterPc.unreported, hrep, Option.toList_some, Option.toList_none,
        List.count_nil]
      omega
    · simp [due, WaiterPc.unreported, hrep]

theorem waiter_awaiting (h : Sound s) (ha : Awaiting s) (hmain : s.main ≠ .exited)
    (hs : waitThread x s s.waiter = some (lines, s')) : Awaiting s' := by
  obtain ⟨table, fgProcess, lock, children, main, waiter⟩ := s
  have hopen : main = .exited → ∀ t : Table, ∀ i, i < maxBgProcesses → pids t i = 0 :=
    fun heq => absurd heq hmain
  cases waiter with
  | lock =>
    obtain ⟨lock', -, heq⟩ := Option.map_eq_some_iff.mp hs
    cases heq
    exact ⟨ha.child, ha.positive, ha.closed⟩
  | wait =>
    obtain ⟨children', hwait, heq⟩ := Option.map_eq_some_iff.mp hs
    cases heq
    refine ⟨fun p hp => ?_, ha.positive, ha.closed⟩
    rcases ha.child p hp with hfail | ⟨d, hd, hpid, hfg⟩
    · exact .inl hfail
    · rcases wait3_cases hwait with ⟨c, hc, hcpid, hexited, rfl⟩ | ⟨rfl, -⟩
      · refine .inr ⟨d, mem_reaped hd fun heq => ?_, hpid, hfg⟩
        have hbg := (h.exited rfl hc hexited).1
        rw [h.family.eq_of_pid hd hc (heq.trans hcpid.symm), hbg] at hfg
        cases hfg
      · exact .inr ⟨d, hd, hpid, hfg⟩
  | unlock fin =>
    cases hs
    exact ⟨ha.child, ha.positive, ha.closed⟩
  | resolve fin place =>
    obtain ⟨⟨lines', next, table'⟩, -, heq⟩ := Option.map_eq_some_iff.mp hs
    cases heq
    exact ⟨ha.child, ha.positive, fun heq => hopen heq table'⟩

/-- The `r` option reports nothing. -/
theorem runningLines_reports {t : Table} (h : runningLines t = some lines) :
    reports lines = [] := by
  unfold runningLines at h
  generalize running t = jobs at h
  induction jobs generalizing lines with
  | nil =>
    cases h
    rfl
  | cons job jobs ih =>
    rw [List.mapM_cons] at h
    obtain ⟨line, hline, h⟩ := Option.bind_eq_some_iff.mp h
    obtain ⟨rest, hrest, h⟩ := Option.bind_eq_some_iff.mp h
    obtain ⟨i, -, rfl⟩ := Option.map_eq_some_iff.mp hline
    cases h
    exact (ih hrest : reports rest = [])

theorem unreported_loop (fgProcess : Cprocess) (fg : Int) :
    (loop fgProcess).unreported fg = none := by
  rcases loop_eq fgProcess with heq | heq <;> rw [heq] <;> rfl

/-- What `wait3` returns to `main`: the blocking command, or a background process. -/
theorem Awaiting.reaps {table : Table} {fgProcess : Cprocess} {lock : Mutex → Option Thread}
    {children children' : List Child} {waiter : WaiterPc} {pid : Int}
    (ha : Awaiting ⟨table, fgProcess, lock, children, .wait, waiter⟩)
    (hfamily : Family .wait fgProcess.pid children)
    (hwait : wait3 false children pid = some children') :
    (∃ c ∈ children, c.pid = pid ∧ 0 < pid ∧ c.foreground = decide (pid = fgProcess.pid) ∧
      children' = children.filter fun c => c.pid != pid) ∨
      children' = children ∧ pid = fgProcess.pid := by
  have hchild := ha.child fgProcess.pid rfl
  rcases wait3_cases hwait with ⟨c, hc, rfl, hexited, rfl⟩ | ⟨rfl, ⟨rfl, rfl⟩ | ⟨-, hnohang⟩⟩
  · have hpos := hfamily.pos c hc
    refine .inl ⟨c, hc, rfl, hpos, ?_, rfl⟩
    by_cases hfg : c.pid = fgProcess.pid
    · rcases hchild with hfail | ⟨d, hd, hpid, hforeground⟩
      · omega
      · rw [← hfamily.eq_of_pid hd hc (hpid.trans hfg.symm), hforeground, hpid, decide_eq_true rfl]
    · rw [decide_eq_false hfg, ← Bool.not_eq_true]
      exact fun hcon => hfg (Option.some.inj (hfamily.awaited c hc hcon)).symm
  · refine .inr ⟨rfl, ?_⟩
    rcases hchild with hfail | ⟨d, hd, -⟩
    · exact hfail.symm
    · cases hd
  · cases hnohang

theorem main_ledger (h : Sound s) (ha : Awaiting s)
    (hs : actMain x s s.main = some (lines, s')) (p : Int) :
    (starts (.main x) s).count p + due s p = (reports lines).count p + due s' p := by
  obtain ⟨table, fgProcess, lock, children, main, waiter⟩ := s
  cases main with
  | menu =>
    obtain ⟨choice, pid, now, stats⟩ := x
    rcases choice with _ | _ | (_ | _) <;> cases hs <;> exact ledger_silent rfl rfl rfl rfl rfl
  | listLock =>
    obtain ⟨lock', -, heq⟩ := Option.map_eq_some_iff.mp hs
    cases heq
    exact ledger_silent rfl rfl rfl rfl rfl
  | list =>
    obtain ⟨lines', hlines, heq⟩ := Option.map_eq_some_iff.mp hs
    cases heq
    exact ledger_silent rfl (runningLines_reports hlines) rfl rfl rfl
  | listUnlock | number | unlock =>
    cases hs
    exact ledger_silent rfl rfl rfl rfl rfl
  | findSlot =>
    obtain ⟨proc, -, heq⟩ := Option.map_eq_some_iff.mp hs
    cases heq
    exact ledger_silent rfl rfl rfl rfl rfl
  | fork tracker =>
    obtain ⟨children', hfork, heq⟩ := Option.map_eq_some_iff.mp hs
    cases heq
    have hcount := countP_fork hfork p
    cases tracker with
    | fgProcess => simp [starts, due, MainPc.unreported, reports, hcount, State.write]
    | slot proc =>
      by_cases hpos : 0 < x.pid
      · simp [starts, due, MainPc.unreported, reports, hcount, hpos, State.write,
          List.count_singleton]
        omega
      · simp [starts, due, MainPc.unreported, reports, hcount, hpos, State.write]
  | assign tracker pid =>
    cases hs
    have hrep : reports (if pid = -1 then [.forkFailed] else []) = [] := by split <;> rfl
    cases tracker <;> exact ledger_silent rfl hrep rfl rfl rfl
  | lock =>
    obtain ⟨lock', -, heq⟩ := Option.map_eq_some_iff.mp hs
    cases heq
    exact ledger_silent rfl rfl rfl (unreported_loop ..) rfl
  | wait =>
    obtain ⟨children', hwait, heq⟩ := Option.map_eq_some_iff.mp hs
    cases heq
    rcases ha.reaps h.family hwait with ⟨c, hc, hpid, -, hfg, rfl⟩ | ⟨rfl, hfg⟩
    · have hcount := countP_reaped h.family.nodup hc p
      rw [hpid] at hcount
      by_cases heq : x.pid = fgProcess.pid
      · simp [starts, due, MainPc.unreported, reports, hcount, heq, Child.background, hfg]
      · simp [starts, due, MainPc.unreported, reports, hcount, heq, Child.background, hfg, hpid,
          List.count_singleton]
        omega
    · exact ledger_silent rfl rfl rfl (if_pos hfg) rfl
  | handle fin =>
    simp only [actMain] at hs
    split at hs
    · next hfg =>
      cases hs
      have hnone : (MainPc.handle fin).unreported fgProcess.pid = none := if_pos hfg
      refine ledger_silent rfl rfl rfl ?_ rfl
      exact (unreported_loop (cleanCommand fgProcess x.now fin.stats).2 _).trans hnone.symm
    · next hne =>
      cases hs
      exact ledger_silent rfl rfl rfl (if_neg hne).symm rfl
  | resolve fin place =>
    obtain ⟨⟨lines', next, table'⟩, hresolve, heq⟩ := Option.map_eq_some_iff.mp hs
    cases heq
    have htracked : ∀ i, place.tracker = some i → pids table i = fin.pid := by
      intro i hi
      refine (h.books.tracked i fin.pid (.inl ?_)).2
      simp [MainPc.tracker, hi]
    rcases resolve_reports hresolve htracked with ⟨i, rfl, rfl, hrep⟩ | ⟨i, rfl, rfl, hrep⟩ |
      ⟨i, rfl, rfl, hrep⟩
    · exact ledger_silent rfl hrep rfl rfl rfl
    · simp only [starts, due, MainPc.unreported, hrep, Option.toList_some, Option.toList_none,
        List.count_nil]
      omega
    · exact ledger_silent rfl hrep rfl (unreported_loop ..) rfl
  | exiting =>
    simp only [actMain] at hs
    split at hs <;> cases hs <;> exact ledger_silent rfl rfl rfl rfl rfl
  | exited => cases hs

/-- `main` goes on to a place where it expects and has in its hands what it did, or nothing. -/
theorem Awaiting.move (ha : Awaiting s) (hchildren : s'.children = s.children)
    (hexpects : s'.main.expects s'.fgProcess.pid = none ∨
      s'.main.expects s'.fgProcess.pid = s.main.expects s.fgProcess.pid)
    (hunreported : s'.main.unreported s'.fgProcess.pid = none ∨
      s'.main.unreported s'.fgProcess.pid = s.main.unreported s.fgProcess.pid)
    (hopen : s'.main.over = false) : Awaiting s' := by
  refine ⟨fun p hp => ?_, fun p hp => ?_, fun heq => ?_⟩
  · rcases hexpects with hnone | hsame
    · cases hnone.symm.trans hp
    · rw [hchildren]
      exact ha.child p (hsame.symm.trans hp)
  · rcases hunreported with hnone | hsame
    · cases hnone.symm.trans hp
    · exact ha.positive p (hsame.symm.trans hp)
  · rw [heq] at hopen
    cases hopen

theorem Awaiting.loop (ha : Awaiting s) (hmain : s'.main = loop s'.fgProcess)
    (hchildren : s'.children = s.children)
    (hexpects : s'.fgProcess.pid = 0 ∨
      s.main.expects s.fgProcess.pid = some s'.fgProcess.pid) : Awaiting s' := by
  refine ha.move hchildren ?_ (.inl (by rw [hmain, unreported_loop])) ?_
  · rw [hmain, Mc2.loop]
    split
    · next hne => exact .inr ((hexpects.resolve_left (Ne.symm hne)).symm)
    · exact .inl rfl
  · rw [hmain]
    rcases loop_eq s'.fgProcess with heq | heq <;> rw [heq] <;> rfl

theorem main_awaiting (h : Sound s) (ha : Awaiting s)
    (hs : actMain x s s.main = some (lines, s')) : Awaiting s' := by
  obtain ⟨table, fgProcess, lock, children, main, waiter⟩ := s
  cases main with
  | menu =>
    obtain ⟨choice, pid, now, stats⟩ := x
    rcases choice with _ | _ | (_ | _) <;> cases hs <;>
      exact ha.move rfl (.inl rfl) (.inl rfl) rfl
  | listLock =>
    obtain ⟨lock', -, heq⟩ := Option.map_eq_some_iff.mp hs
    cases heq
    exact ha.move rfl (.inl rfl) (.inl rfl) rfl
  | list =>
    obtain ⟨lines', -, heq⟩ := Option.map_eq_some_iff.mp hs
    cases heq
    exact ha.move rfl (.inl rfl) (.inl rfl) rfl
  | listUnlock | number | unlock =>
    cases hs
    exact ha.move rfl (.inl rfl) (.inl rfl) rfl
  | findSlot =>
    obtain ⟨proc, -, heq⟩ := Option.map_eq_some_iff.mp hs
    cases heq
    exact ha.move rfl (.inl rfl) (.inl rfl) rfl
  | fork tracker =>
    obtain ⟨children', hfork, heq⟩ := Option.map_eq_some_iff.mp hs
    cases heq
    refine ⟨fun p hp => ?_, fun p hp => (by cases hp), fun heq => (by cases heq)⟩
    cases tracker with
    | slot => cases hp
    | fgProcess =>
      cases hp
      rcases fork_spec hfork with ⟨hfail, -⟩ | ⟨-, -, rfl⟩
      · exact .inl hfail
      · exact .inr ⟨_, List.mem_cons_self, rfl, rfl⟩
  | assign tracker pid =>
    cases hs
    cases tracker with
    | slot => exact ha.move rfl (.inl rfl) (.inl rfl) rfl
    | fgProcess => exact ha.move rfl (.inr rfl) (.inl rfl) rfl
  | lock =>
    obtain ⟨lock', -, heq⟩ := Option.map_eq_some_iff.mp hs
    cases heq
    exact ha.loop rfl rfl (.inr rfl)
  | wait =>
    obtain ⟨children', hwait, heq⟩ := Option.map_eq_some_iff.mp hs
    cases heq
    have hreaps := ha.reaps h.family hwait
    refine ⟨fun p hp => ?_, fun p hp => ?_, fun heq => (by cases heq)⟩
    · by_cases hfg : x.pid = fgProcess.pid
      · cases (if_pos hfg).symm.trans hp
      · cases (if_neg hfg).symm.trans hp
        rcases hreaps with ⟨c, -, -, -, -, rfl⟩ | ⟨-, heq⟩
        · refine (ha.child _ rfl).imp_right ?_
          rintro ⟨d, hd, hpid, hforeground⟩
          exact ⟨d, mem_reaped hd (fun heq => hfg (heq.symm.trans hpid)), hpid, hforeground⟩
        · exact absurd heq hfg
    · by_cases hfg : x.pid = fgProcess.pid
      · cases (if_pos hfg).symm.trans hp
      · cases (if_neg hfg).symm.trans hp
        rcases hreaps with ⟨c, -, -, hpos, -⟩ | ⟨-, heq⟩
        · exact hpos
        · exact absurd heq hfg
  | handle fin =>
    simp only [actMain] at hs
    split at hs
    · cases hs
      exact ha.loop rfl rfl (.inl rfl)
    · next hne =>
      cases hs
      exact ha.move rfl (.inr (if_neg hne).symm) (.inr (if_neg hne).symm) rfl
  | resolve fin place =>
    obtain ⟨⟨lines', next, table'⟩, hresolve, heq⟩ := Option.map_eq_some_iff.mp hs
    cases heq
    rcases resolve_spec hresolve with ⟨i, rfl, rfl, -⟩ | ⟨i, rfl, rfl, -⟩ | ⟨i, rfl, rfl, -⟩
    · exact ha.move rfl (.inr rfl) (.inr rfl) rfl
    · exact ha.move rfl (.inr rfl) (.inl rfl) rfl
    · exact ha.loop rfl rfl (.inr rfl)
  | exiting =>
    simp only [actMain] at hs
    split at hs
    · next hused =>
      cases hs
      refine ⟨fun p hp => (by cases hp), fun p hp => (by cases hp), fun _ i hi => ?_⟩
      by_contra hne
      refine absurd hused (Finset.card_ne_zero.mpr ⟨i, Finset.mem_filter.mpr
        ⟨Finset.mem_range.mpr hi, ?_⟩⟩)
      simpa [Cprocess.inUse, pids] using hne
    · cases hs
      exact ha.move rfl (.inl rfl) (.inl rfl) rfl
  | exited => cases hs

theorem exit_awaiting {pid : Int} {children' : List Child} (ha : Awaiting s)
    (hexit : exit s.children pid = some children') :
    Awaiting { s with children := children' } := by
  refine ⟨fun p hp => (ha.child p hp).imp_right ?_, ha.positive, ha.closed⟩
  rintro ⟨c, hc, hpid, hfg⟩
  unfold exit at hexit
  split at hexit
  · cases hexit
    refine ⟨_, List.mem_map_of_mem hc, ?_⟩
    split <;> exact ⟨hpid, hfg⟩
  · cases hexit

/-- What is started becomes due, and what is due stays due or is reported. -/
theorem step_ledger (h : Sound s) (ha : Awaiting s) (hs : step l s = some (lines, s')) :
    Awaiting s' ∧
      ∀ p, (starts l s).count p + due s p = (reports lines).count p + due s' p := by
  cases l with
  | main x => exact ⟨main_awaiting h ha hs, main_ledger h ha hs⟩
  | waiter x =>
    simp only [step] at hs
    split at hs
    · cases hs
    · next hmain =>
      refine ⟨waiter_awaiting h ha hmain hs, fun p => ?_⟩
      rw [← waiter_ledger h hs p]
      simp [starts]
  | exit pid =>
    obtain ⟨children', hexit, heq⟩ := Option.map_eq_some_iff.mp hs
    cases heq
    refine ⟨exit_awaiting ha hexit, fun p => ?_⟩
    simp [starts, reports, due, countP_exit hexit]

/-- When `main` has ended, nobody has anything of a background process in their hands. -/
theorem Awaiting.nothing_due (ha : Awaiting s) (h : Sound s) (hmain : s.main = .exited) :
    s.children = [] ∧ ∀ p, due s p = 0 := by
  have hclosed := ha.closed hmain
  have hfree : ∀ o p, 0 < p → ¬ Owns s.main s.fgProcess.pid s.waiter s.children o p := by
    intro o p hpos ho
    obtain ⟨i, ⟨hi, hpid⟩, -⟩ := h.books.recorded o p ho
    have := hclosed i hi
    omega
  have hchildren : s.children = [] := by
    refine List.eq_nil_iff_forall_not_mem.mpr fun c hc => ?_
    cases hfg : c.foreground with
    | true =>
      have hawaits := h.family.awaited c hc hfg
      rw [hmain] at hawaits
      cases hawaits
    | false =>
      exact hfree .child c.pid (h.family.pos c hc) ⟨⟨c, hc, rfl, hfg⟩, by rw [hmain]; nofun⟩
  have hwaiter : s.waiter.unreported = none := by
    cases hw : s.waiter with
    | lock | wait => rfl
    | unlock fin =>
      by_cases hpos : 0 < fin.pid
      · exact absurd ⟨hpos, by rw [hw]; rfl⟩ (hfree .waiter fin.pid hpos)
      · exact if_neg hpos
    | resolve fin place =>
      have hpos := h.books.positive fin place hw
      exact absurd ⟨hpos, by rw [hw]; rfl⟩ (hfree .waiter fin.pid hpos)
  refine ⟨hchildren, fun p => ?_⟩
  rw [due, hchildren, hmain, hwaiter]
  rfl

end Steps

/-! ## Runs -/

theorem startUp_awaiting (fgProcess : Cprocess) : Awaiting (startUp fgProcess) :=
  ⟨nofun, nofun, nofun⟩

theorem steps_accounts (fgProcess : Cprocess) (ls : List Label) {tr s}
    (htimely : Guarded step Timely ls (startUp fgProcess))
    (hrun : run step ls (startUp fgProcess) = some (tr, s)) :
    Sound s ∧ Awaiting s ∧ ∀ p, (notes step starts ls (startUp fgProcess)).count p =
      (reported tr).count p + due s p := by
  refine guarded_notes_rule (P := fun tr started s => Sound s ∧ Awaiting s ∧
      ∀ p, started.count p = (reported tr).count p + due s p)
    ⟨startUp_sound fgProcess, startUp_awaiting fgProcess, fun _ => rfl⟩ ?_ ls tr s hrun htimely
  rintro tr started s l lines s' ⟨hsound, hawaiting, hledger⟩ hok hs
  obtain ⟨hawaiting', hstep⟩ := step_ledger hsound hawaiting hs
  refine ⟨hsound.step hok hs, hawaiting', fun p => ?_⟩
  have hreported : reported (tr ++ [(l, lines)]) = reported tr ++ reports lines := by
    simp [reported]
  have hp := hstep p
  rw [hreported, List.count_append, List.count_append, hledger p]
  omega

/-- In a run in which no child exits too early and no recorded pid comes back, a background
process has at any time been reported as often as it was started, but for what is due; and
when `main` has ended, every process started was reported, as often as it was started, and
no child is left. -/
theorem background_reported_once (fgProcess : Cprocess) (ls : List Label) {tr s}
    (htimely : Guarded step Timely ls (startUp fgProcess))
    (hrun : run step ls (startUp fgProcess) = some (tr, s)) :
    (∀ p, (notes step starts ls (startUp fgProcess)).count p = (reported tr).count p + due s p) ∧
    (s.main = .exited → s.children = [] ∧
      (reported tr).Perm (notes step starts ls (startUp fgProcess))) := by
  obtain ⟨hsound, hawaiting, hledger⟩ := steps_accounts fgProcess ls htimely hrun
  refine ⟨hledger, fun hmain => ?_⟩
  obtain ⟨hchildren, hdue⟩ := hawaiting.nothing_due hsound hmain
  refine ⟨hchildren, List.perm_iff_count.mpr fun p => ?_⟩
  rw [hledger p, hdue p, Nat.add_zero]

/-- A background process is started and reaped by `waitThread`, and the user leaves. -/
def startAndLeave : List Label :=
  backgroundExits ++ [.waiter (returns 7), .waiter default, .waiter default, .waiter default,
    .waiter default, chooses .exit, .main default]

theorem background_reported_once_seven : ∃ tr s,
    run step startAndLeave (startUp default) = some (tr, s) ∧ s.main = .exited ∧
      s.children = [] ∧ (reported tr).Perm [7] := by
  have heval : (run step startAndLeave (startUp default)).map (fun x =>
      decide (x.2.main = .exited)) = some true := by decide +kernel
  obtain ⟨⟨tr, s⟩, hrun, heq⟩ := Option.map_eq_some_iff.mp heval
  have hmain := of_decide_eq_true heq
  have htimely : Guarded step Timely startAndLeave (startUp default) :=
    Guarded.of_eval (by decide +kernel)
  have hstarted : notes step starts startAndLeave (startUp default) = [7] := by decide +kernel
  obtain ⟨-, hend⟩ := background_reported_once default startAndLeave htimely hrun
  rw [hstarted] at hend
  exact ⟨tr, s, hrun, hmain, hend hmain⟩

end OsProjects.Mc2
