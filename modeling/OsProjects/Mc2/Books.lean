import OsProjects.Lib.Ownership
import OsProjects.Mc2.Children

/-!
# Who holds a pid

The pid of a background process is held by one party at a time: by the child, from the
assignment to `tracker->pid` until `wait3` returns it, and then by the thread that got it,
until `cleanCommand`. `Books` says that a pid that is held stands in exactly one entry of
`processes`; so whoever reaps it finds that entry.
-/

namespace OsProjects.Mc2

open OsProjects.Lib

/-! ## The pids in the table -/

/-- The `pid` fields of `processes`. -/
def pids (t : Table) (i : Nat) : Int := (t.processes.get i).pid

/-- Exactly one entry has `p`. -/
def Recorded (pid : Nat → Int) (p : Int) : Prop := ∃! i, i < maxBgProcesses ∧ pid i = p

section Table

variable {t : Table} {pid : Nat → Int} {p v : Int} {i : Nat}

theorem pids_set {e : Cprocess} {counter : Int} (hi : i < maxBgProcesses) :
    pids ⟨t.processes.set i e, counter⟩ = Function.update (pids t) i e.pid := by
  funext j
  by_cases hji : j = i
  · subst hji
    rw [Function.update_self, pids, Cells.get_set_eq _ _ hi]
  · rw [Function.update_of_ne hji, pids, Cells.get_set_ne _ _ hji]
    rfl

/-- A write to another field. -/
theorem pids_set_self {e : Cprocess} {counter : Int} (hi : i < maxBgProcesses)
    (he : e.pid = pids t i) : pids ⟨t.processes.set i e, counter⟩ = pids t := by
  rw [pids_set hi, he, Function.update_eq_self]

theorem pids_decrementJobs {n : Int} : pids (decrementJobs t n) = pids t := by
  funext i
  by_cases hi : i < maxBgProcesses
  · exact (get_decrementJobs hi).1
  · have hle := Nat.le_of_not_lt hi
    rw [pids, pids, Cells.get_of_le _ hle, Cells.get_of_le _ hle]

theorem Recorded.update (h : Recorded pid p) (hold : pid i ≠ p) (hnew : v ≠ p) :
    Recorded (Function.update pid i v) p := by
  have hne : ∀ j, Function.update pid i v j = p ↔ pid j = p := by
    intro j
    by_cases hji : j = i
    · subst hji
      simp [hold, hnew]
    · rw [Function.update_of_ne hji]
  simpa only [Recorded, hne] using h

theorem recorded_update_self (hi : i < maxBgProcesses)
    (hfresh : ∀ j, j < maxBgProcesses → pid j ≠ p) : Recorded (Function.update pid i p) p := by
  refine ⟨i, ⟨hi, Function.update_self ..⟩, ?_⟩
  rintro j ⟨hj, hpid⟩
  by_contra hji
  rw [Function.update_of_ne hji] at hpid
  exact hfresh j hj hpid

theorem Recorded.findProcess (h : Recorded (pids t) p) :
    ∃ i, findProcess t.processes p = some i := by
  obtain ⟨i, ⟨hi, hpid⟩, -⟩ := h
  exact Cells.find_of_match hi (by simpa [pids] using hpid)

/-- What a call on the way to `cleanCommand` does to the pids, and what is next. -/
theorem resolve_spec {t' : Table} {fin : Finished} {now : Timeval} {place : Resolve}
    {next : Option Resolve} {lines : List Line}
    (h : resolve fin now t place = some (lines, next, t')) :
    (∃ i, place = .find ∧ next = some (.decrement i) ∧ i < maxBgProcesses ∧
      pids t i = fin.pid ∧ t' = t) ∨
    (∃ i, place = .decrement i ∧ next = some (.clean i) ∧ pids t' = pids t) ∨
    (∃ i, place = .clean i ∧ next = none ∧
      (i < maxBgProcesses → pids t' = Function.update (pids t) i 0)) := by
  cases place with
  | find =>
    obtain ⟨i, hi, heq⟩ := Option.map_eq_some_iff.mp h
    cases heq
    obtain ⟨hlt, hpid, -⟩ := findProcess_eq_some.mp hi
    exact .inl ⟨i, rfl, rfl, hlt, hpid, rfl⟩
  | decrement i =>
    cases h
    exact .inr (.inl ⟨i, rfl, rfl, pids_decrementJobs⟩)
  | clean i =>
    cases h
    exact .inr (.inr ⟨i, rfl, rfl, pids_set⟩)

end Table

/-! ## What the places say -/

/-- The entry that `main` has chosen for a background process. -/
def MainPc.slot : MainPc → Option Nat
  | .number proc | .fork (.slot proc) | .assign (.slot proc) _ => some proc
  | _ => none

/-- The pid that is about to be assigned to it. -/
def MainPc.assigns : MainPc → Option Int
  | .assign (.slot _) pid => some pid
  | _ => none

def Resolve.tracker : Resolve → Option Nat
  | .find => none
  | .decrement tracker | .clean tracker => some tracker

/-- The entry found for a process that is done, and the pid it was found for. -/
def MainPc.tracker : MainPc → Option (Nat × Int)
  | .resolve fin place => place.tracker.map fun tracker => (tracker, fin.pid)
  | _ => none

def WaiterPc.tracker : WaiterPc → Option (Nat × Int)
  | .resolve fin place => place.tracker.map fun tracker => (tracker, fin.pid)
  | _ => none

/-- The background process that `main` deals with. -/
def MainPc.resolves (fg : Int) : MainPc → Option Int
  | .handle fin => if fin.pid = fg then none else some fin.pid
  | .resolve fin _ => some fin.pid
  | _ => none

def WaiterPc.resolves : WaiterPc → Option Int
  | .unlock fin | .resolve fin _ => some fin.pid
  | _ => none

inductive Owner
  | child
  | main
  | waiter

/-- Who holds the pid of a background process. -/
def Owns (main : MainPc) (fg : Int) (waiter : WaiterPc) (children : List Child) :
    Owner → Int → Prop
  | .child, p => (∃ c ∈ children, c.pid = p ∧ c.foreground = false) ∧ main.assigns ≠ some p
  | .main, p => 0 < p ∧ main.resolves fg = some p
  | .waiter, p => 0 < p ∧ waiter.resolves = some p

section Owns

variable {main : MainPc} {fg p : Int} {waiter : WaiterPc} {children : List Child} {o : Owner}
  {i : Nat}

theorem Owns.pos (hpos : ∀ c ∈ children, 0 < c.pid) (ho : Owns main fg waiter children o p) :
    0 < p := by
  cases o with
  | child =>
    obtain ⟨⟨c, hc, rfl, -⟩, -⟩ := ho
    exact hpos c hc
  | main => exact ho.1
  | waiter => exact ho.1

theorem MainPc.owns_of_tracker (h : main.tracker = some (i, p)) (hpos : 0 < p) :
    Owns main fg waiter children .main p := by
  cases main with
  | resolve fin place =>
    obtain ⟨tracker, -, heq⟩ := Option.map_eq_some_iff.mp h
    cases heq
    exact ⟨hpos, rfl⟩
  | _ => cases h

theorem WaiterPc.owns_of_tracker (h : waiter.tracker = some (i, p)) (hpos : 0 < p) :
    Owns main fg waiter children .waiter p := by
  cases waiter with
  | resolve fin place =>
    obtain ⟨tracker, -, heq⟩ := Option.map_eq_some_iff.mp h
    cases heq
    exact ⟨hpos, rfl⟩
  | _ => cases h

end Owns

/-- The table and the places of the threads, with `fg` for `fgProcess.pid`. -/
structure Books (pid : Nat → Int) (main : MainPc) (fg : Int) (waiter : WaiterPc)
    (children : List Child) : Prop where
  reserved : ∀ i, main.slot = some i → i < maxBgProcesses ∧ pid i = 0
  fresh : ∀ p, main.assigns = some p → 0 < p → ∀ j, j < maxBgProcesses → pid j ≠ p
  tracked : ∀ i p, main.tracker = some (i, p) ∨ waiter.tracker = some (i, p) →
    i < maxBgProcesses ∧ pid i = p
  positive : ∀ fin place, waiter = .resolve fin place → 0 < fin.pid
  exclusive : Exclusive (Owns main fg waiter children)
  recorded : ∀ o p, Owns main fg waiter children o p → Recorded pid p

namespace Books

variable {pid : Nat → Int} {main main' : MainPc} {fg fg' p : Int} {waiter waiter' : WaiterPc}
  {children children' : List Child} {i : Nat} {fin : Finished} {stats : Rusage}

theorem init {fg : Int} : Books (pids init) .menu fg .lock [] := by
  refine ⟨?_, ?_, ?_, ?_, ?_, ?_⟩
  · rintro i ⟨⟩
  · rintro p ⟨⟩
  · rintro i p (h | h) <;> cases h
  · rintro fin place ⟨⟩
  · rintro (_ | _ | _) o' p ho
    · obtain ⟨⟨c, hc, -⟩, -⟩ := ho
      cases hc
    · cases ho.2
    · cases ho.2
  · rintro (_ | _ | _) p ho
    · obtain ⟨⟨c, hc, -⟩, -⟩ := ho
      cases hc
    · cases ho.2
    · cases ho.2

/-- `main` goes on, without a new tracker and without a write to a pid. -/
theorem move (h : Books pid main fg waiter children) (hslot : main'.slot = none)
    (hassigns : main'.assigns = none) (htracker : main'.tracker = none)
    (hassigned : main.assigns = none)
    (hresolves : ∀ p, main'.resolves fg' = some p → main.resolves fg = some p) :
    Books pid main' fg' waiter children := by
  have hle : ∀ o p, Owns main' fg' waiter children o p → Owns main fg waiter children o p := by
    rintro (_ | _ | _) p ho
    · exact ⟨ho.1, by simp [hassigned]⟩
    · exact ⟨ho.1, hresolves p ho.2⟩
    · exact ho
  refine ⟨by simp [hslot], by simp [hassigns], ?_, h.positive, h.exclusive.mono hle,
    fun o p ho => h.recorded o p (hle o p ho)⟩
  rintro i p (hmain | hwaiter)
  · simp [htracker] at hmain
  · exact h.tracked i p (.inr hwaiter)

/-- `main` enters its loop, or goes round in it. -/
theorem loop (h : Books pid main fg waiter children) (fgProcess : Cprocess)
    (hassigned : main.assigns = none) : Books pid (loop fgProcess) fg' waiter children := by
  rcases loop_eq fgProcess with heq | heq <;> rw [heq] <;>
    exact h.move rfl rfl rfl hassigned (by simp [MainPc.resolves])

/-- `waitThread` goes on likewise. -/
theorem move_waiter (h : Books pid main fg waiter children) (htracker : waiter'.tracker = none)
    (hpositive : ∀ fin place, waiter' = .resolve fin place → 0 < fin.pid)
    (hresolves : ∀ p, waiter'.resolves = some p → waiter.resolves = some p) :
    Books pid main fg waiter' children := by
  have hle : ∀ o p, Owns main fg waiter' children o p → Owns main fg waiter children o p := by
    rintro (_ | _ | _) p ho
    · exact ho
    · exact ho
    · exact ⟨ho.1, hresolves p ho.2⟩
  refine ⟨h.reserved, h.fresh, ?_, hpositive, h.exclusive.mono hle,
    fun o p ho => h.recorded o p (hle o p ho)⟩
  rintro i p (hmain | hwaiter)
  · exact h.tracked i p (.inl hmain)
  · simp [htracker] at hwaiter

theorem exit (h : Books pid main fg waiter children)
    (hexit : Mc2.exit children p = some children') : Books pid main fg waiter children' := by
  have hle : ∀ o p, Owns main fg waiter children' o p → Owns main fg waiter children o p := by
    rintro (_ | _ | _) p ho
    · obtain ⟨⟨c', hc', rfl, hbg⟩, hne⟩ := ho
      obtain ⟨c, hc, hpid, hsame, -⟩ := (exit_spec hexit).2 c' hc'
      exact ⟨⟨c, hc, hpid, hsame.trans hbg⟩, hne⟩
    · exact ho
    · exact ho
  exact ⟨h.reserved, h.fresh, h.tracked, h.positive, h.exclusive.mono hle,
    fun o p ho => h.recorded o p (hle o p ho)⟩

/-- `findProcess(processes, .., 0)`. -/
theorem reserve (h : Books pid .findSlot fg waiter children) (hi : i < maxBgProcesses)
    (hzero : pid i = 0) : Books pid (.number i) fg waiter children := by
  refine ⟨?_, ?_, h.tracked, h.positive, h.exclusive, h.recorded⟩
  · rintro j ⟨⟩
    exact ⟨hi, hzero⟩
  · rintro q ⟨⟩

/-- `proc->jobnum = jobCounter++`. -/
theorem number (h : Books pid (.number i) fg waiter children) :
    Books pid (.fork (.slot i)) fg waiter children :=
  ⟨h.reserved, h.fresh, h.tracked, h.positive, h.exclusive, h.recorded⟩

theorem tracker_pos (h : Books pid main fg waiter children) (ht : waiter.tracker = some (i, p)) :
    0 < p := by
  cases waiter with
  | resolve fin place =>
    obtain ⟨tracker, -, heq⟩ := Option.map_eq_some_iff.mp ht
    cases heq
    exact h.positive fin place rfl
  | _ => cases ht

/-- The `fork` of either kind; a background process does not hold its pid yet. -/
theorem fork {tracker : Tracker} (h : Books pid (.fork tracker) fg waiter children)
    (hfork : Mc2.fork (tracker == .fgProcess) children p = some children')
    (hfresh : tracker ≠ .fgProcess → 0 < p → ∀ j, j < maxBgProcesses → pid j ≠ p) :
    Books pid (.assign tracker p) fg waiter children' := by
  have hchild : ∀ c ∈ children', c ∈ children ∨
      c.pid = p ∧ c.foreground = (tracker == .fgProcess) := by
    intro c hc
    rcases fork_spec hfork with ⟨-, rfl⟩ | ⟨-, -, rfl⟩
    · exact .inl hc
    · rcases List.mem_cons.mp hc with rfl | hc
      · exact .inr ⟨rfl, rfl⟩
      · exact .inl hc
  have hle : ∀ o q, Owns (.assign tracker p) fg waiter children' o q →
      Owns (.fork tracker) fg waiter children o q := by
    rintro (_ | _ | _) q ho
    · obtain ⟨⟨c, hc, hpid, hbg⟩, hne⟩ := ho
      refine ⟨⟨c, (hchild c hc).resolve_right ?_, hpid, hbg⟩, by simp [MainPc.assigns]⟩
      rintro ⟨hp, hkind⟩
      cases tracker with
      | fgProcess => simp [hbg] at hkind
      | slot proc => exact hne (congrArg some (hp.symm.trans hpid))
    · cases ho.2
    · exact ho
  refine ⟨?_, ?_, ?_, h.positive, h.exclusive.mono hle, fun o q ho => h.recorded o q (hle o q ho)⟩
  · intro i hi
    cases tracker with
    | fgProcess => cases hi
    | slot proc => exact h.reserved i hi
  · intro q hq
    cases tracker with
    | fgProcess => cases hq
    | slot proc =>
      cases hq
      exact hfresh (by simp)
  · rintro i q (hmain | hwaiter)
    · cases hmain
    · exact h.tracked i q (.inr hwaiter)

/-- The assignment to `tracker->pid` of an entry: from here on the child holds its pid. -/
theorem record (h : Books pid (.assign (.slot i) p) fg waiter children)
    (hpos : ∀ c ∈ children, 0 < c.pid) :
    Books (Function.update pid i p) .menu fg waiter children := by
  obtain ⟨hi, hzero⟩ := h.reserved i rfl
  have hfresh := h.fresh p rfl
  have hle : ∀ o q, Owns .menu fg waiter children o q →
      Owns (.assign (.slot i) p) fg waiter children o q ∧ q ≠ p ∨ o = .child ∧ q = p := by
    rintro (_ | _ | _) q ho
    · by_cases hq : q = p
      · exact .inr ⟨rfl, hq⟩
      · exact .inl ⟨⟨ho.1, fun heq => hq (Option.some.inj heq).symm⟩, hq⟩
    · cases ho.2
    · refine .inl ⟨ho, ?_⟩
      rintro rfl
      obtain ⟨j, ⟨hj, hpid⟩, -⟩ := h.recorded .waiter q ho
      exact hfresh ho.1 j hj hpid
  refine ⟨?_, ?_, ?_, h.positive, h.exclusive.handed hle, ?_⟩
  · rintro j ⟨⟩
  · rintro q ⟨⟩
  · rintro j q (hmain | hwaiter)
    · cases hmain
    · obtain ⟨hj, hpid⟩ := h.tracked j q (.inr hwaiter)
      have hq := h.tracker_pos hwaiter
      have hji : j ≠ i := by
        rintro rfl
        omega
      exact ⟨hj, by rw [Function.update_of_ne hji, hpid]⟩
  · intro o q ho
    have hq := ho.pos hpos
    rcases hle o q ho with ⟨hold, hne⟩ | ⟨-, rfl⟩
    · exact (h.recorded o q hold).update (by omega) (Ne.symm hne)
    · exact recorded_update_self hi (hfresh hq)

/-- A child hands its pid `p` over to the thread that reaps it. -/
theorem reap {o : Owner} (h : Books pid main fg waiter children)
    (hslot : main'.slot = main.slot) (hassigns : main'.assigns = main.assigns)
    (htracker : main'.tracker = main.tracker) (htracker' : waiter'.tracker = waiter.tracker)
    (hpositive : ∀ fin place, waiter' = .resolve fin place → waiter = .resolve fin place)
    (hle : ∀ o' q, Owns main' fg waiter' children' o' q →
      Owns main fg waiter children o' q ∧ q ≠ p ∨
        o' = o ∧ q = p ∧ Owns main fg waiter children .child q) :
    Books pid main' fg waiter' children' := by
  refine ⟨hslot ▸ h.reserved, hassigns ▸ h.fresh, by rw [htracker, htracker']; exact h.tracked,
    fun fin place heq => h.positive fin place (hpositive fin place heq), ?_, ?_⟩
  · refine h.exclusive.handed (o := o) fun o' q ho => (hle o' q ho).imp_right ?_
    rintro ⟨ho', hq, -⟩
    exact ⟨ho', hq⟩
  · intro o' q ho
    rcases hle o' q ho with ⟨hold, -⟩ | ⟨-, -, hchild⟩
    · exact h.recorded o' q hold
    · exact h.recorded .child q hchild

/-- `wait3` in `waitThread`. -/
theorem wait_waiter {nohang : Bool} (h : Books pid main fg .wait children)
    (hpos : ∀ c ∈ children, 0 < c.pid) (hwait : wait3 nohang children p = some children')
    (hexited : ∀ c ∈ children, c.exited → c.foreground = false ∧ main.assigns ≠ some c.pid) :
    Books pid main fg (.unlock ⟨p, stats⟩) children' := by
  obtain ⟨hsub, hreaped⟩ := wait3_spec hwait
  have hheld : 0 < p → Owns main fg .wait children .child p := by
    intro hp
    obtain ⟨c, hc, rfl, hex⟩ := (hreaped hp).1
    exact ⟨⟨c, hc, rfl, (hexited c hc hex).1⟩, (hexited c hc hex).2⟩
  refine h.reap (o := .waiter) (p := p) rfl rfl rfl rfl (by rintro fin place ⟨⟩) ?_
  rintro (_ | _ | _) q ho
  · obtain ⟨⟨c, hc, rfl, hbg⟩, hne⟩ := ho
    refine .inl ⟨⟨⟨c, hsub.mem hc, rfl, hbg⟩, hne⟩, fun heq => ?_⟩
    exact (hreaped (heq ▸ hpos c (hsub.mem hc))).2 c hc heq
  · refine .inl ⟨ho, ?_⟩
    rintro rfl
    cases h.exclusive .main .child q ho (hheld ho.1)
  · obtain ⟨hq, heq⟩ := ho
    cases heq
    exact .inr ⟨rfl, rfl, hheld hq⟩

/-- `wait3` in `main`: a background process hands its pid over, the blocking command has
none to hand over. -/
theorem wait_main {nohang : Bool} (h : Books pid .wait fg waiter children)
    (hpos : ∀ c ∈ children, 0 < c.pid) (hwait : wait3 nohang children p = some children')
    (hfg : ∀ c ∈ children, c.foreground → c.pid = fg) :
    Books pid (.handle ⟨p, stats⟩) fg waiter children' := by
  obtain ⟨hsub, hreaped⟩ := wait3_spec hwait
  have hchild : ∀ q, Owns (.handle ⟨p, stats⟩) fg waiter children' .child q →
      Owns .wait fg waiter children .child q ∧ q ≠ p := by
    rintro q ⟨⟨c, hc, rfl, hbg⟩, -⟩
    refine ⟨⟨⟨c, hsub.mem hc, rfl, hbg⟩, by simp [MainPc.assigns]⟩, fun heq => ?_⟩
    exact (hreaped (heq ▸ hpos c (hsub.mem hc))).2 c hc heq
  by_cases hp : p = fg
  · refine h.reap (o := .main) (p := 0) rfl rfl rfl rfl (fun _ _ heq => heq) ?_
    rintro (_ | _ | _) q ho
    · exact .inl ⟨(hchild q ho).1, (ho.pos fun c hc => hpos c (hsub.mem hc)).ne'⟩
    · simp [Owns, MainPc.resolves, hp] at ho
    · exact .inl ⟨ho, ho.1.ne'⟩
  · have hheld : 0 < p → Owns .wait fg waiter children .child p := by
      intro hpos
      obtain ⟨c, hc, rfl, -⟩ := (hreaped hpos).1
      have hbg : ¬ c.foreground := fun hcon => hp (hfg c hc hcon)
      exact ⟨⟨c, hc, rfl, by simpa using hbg⟩, by simp [MainPc.assigns]⟩
    refine h.reap (o := .main) (p := p) rfl rfl rfl rfl (fun _ _ heq => heq) ?_
    rintro (_ | _ | _) q ho
    · exact .inl (hchild q ho)
    · obtain ⟨hq, heq⟩ := ho
      simp only [MainPc.resolves, if_neg hp, Option.some.injEq] at heq
      subst heq
      exact .inr ⟨rfl, rfl, hheld hq⟩
    · refine .inl ⟨ho, ?_⟩
      rintro rfl
      cases h.exclusive .waiter .child q ho (hheld ho.1)

/-- `findProcess` in `main`. -/
theorem find_main (h : Books pid (.resolve fin .find) fg waiter children)
    (hi : i < maxBgProcesses) (hpid : pid i = fin.pid) :
    Books pid (.resolve fin (.decrement i)) fg waiter children := by
  refine ⟨h.reserved, h.fresh, ?_, h.positive, h.exclusive, h.recorded⟩
  rintro j q (hmain | hwaiter)
  · cases hmain
    exact ⟨hi, hpid⟩
  · exact h.tracked j q (.inr hwaiter)

/-- `findProcess` in `waitThread`. -/
theorem find_waiter (h : Books pid main fg (.resolve fin .find) children)
    (hi : i < maxBgProcesses) (hpid : pid i = fin.pid) :
    Books pid main fg (.resolve fin (.decrement i)) children := by
  refine ⟨h.reserved, h.fresh, ?_, ?_, h.exclusive, h.recorded⟩
  · rintro j q (hmain | hwaiter)
    · exact h.tracked j q (.inl hmain)
    · cases hwaiter
      exact ⟨hi, hpid⟩
  · rintro fin place ⟨⟩
    exact h.positive fin _ rfl

/-- `decrementJobs` in `main`. -/
theorem decrement_main (h : Books pid (.resolve fin (.decrement i)) fg waiter children) :
    Books pid (.resolve fin (.clean i)) fg waiter children :=
  ⟨h.reserved, h.fresh, h.tracked, h.positive, h.exclusive, h.recorded⟩

/-- `decrementJobs` in `waitThread`. -/
theorem decrement_waiter (h : Books pid main fg (.resolve fin (.decrement i)) children) :
    Books pid main fg (.resolve fin (.clean i)) children := by
  refine ⟨h.reserved, h.fresh, h.tracked, ?_, h.exclusive, h.recorded⟩
  rintro fin place ⟨⟩
  exact h.positive fin _ rfl

/-- `cleanCommand` for the entry `i` of the pid `p`, which is not held any more. -/
theorem clean (h : Books pid main fg waiter children) (hpos : ∀ c ∈ children, 0 < c.pid)
    (hpid : pid i = p) (hslot : ∀ j, main'.slot = some j → main.slot = some j)
    (hassigns : main'.assigns = main.assigns)
    (htracked : ∀ j q, main'.tracker = some (j, q) ∨ waiter'.tracker = some (j, q) →
      (main.tracker = some (j, q) ∨ waiter.tracker = some (j, q)) ∧ q ≠ p)
    (hpositive : ∀ fin place, waiter' = .resolve fin place → waiter = .resolve fin place)
    (hle : ∀ o q, Owns main' fg waiter' children o q →
      Owns main fg waiter children o q ∧ q ≠ p) :
    Books (Function.update pid i 0) main' fg waiter' children := by
  refine ⟨fun j hj => ?_, fun q hq hqpos j hj => ?_, fun j q ht => ?_,
    fun fin place heq => h.positive fin place (hpositive fin place heq),
    h.exclusive.mono fun o q ho => (hle o q ho).1, fun o q ho => ?_⟩
  · obtain ⟨hlt, hzero⟩ := h.reserved j (hslot j hj)
    refine ⟨hlt, ?_⟩
    by_cases hji : j = i
    · rw [hji, Function.update_self]
    · rw [Function.update_of_ne hji, hzero]
  · by_cases hji : j = i
    · rw [hji, Function.update_self]
      omega
    · rw [Function.update_of_ne hji]
      exact h.fresh q (hassigns ▸ hq) hqpos j hj
  · obtain ⟨hold, hne⟩ := htracked j q ht
    obtain ⟨hj, hpidj⟩ := h.tracked j q hold
    have hji : j ≠ i := fun hji => hne (by rw [← hpidj, hji, hpid])
    exact ⟨hj, by rw [Function.update_of_ne hji, hpidj]⟩
  · obtain ⟨hold, hne⟩ := hle o q ho
    have hq := hold.pos hpos
    exact (h.recorded o q hold).update (hpid ▸ hne.symm) (by omega)

theorem clean_main (h : Books pid (.resolve fin (.clean i)) fg waiter children)
    (hpos : ∀ c ∈ children, 0 < c.pid) (hslot : main'.slot = none)
    (hassigns : main'.assigns = none) (htracker : main'.tracker = none)
    (hresolves : main'.resolves fg = none) :
    Books (Function.update pid i 0) main' fg waiter children := by
  have hexcl : ∀ o, 0 < fin.pid →
      Owns (.resolve fin (.clean i)) fg waiter children o fin.pid → o = .main :=
    fun o hq ho => h.exclusive o .main fin.pid ho ⟨hq, rfl⟩
  refine h.clean hpos (h.tracked i fin.pid (.inl rfl)).2 (by simp [hslot])
    (by rw [hassigns]; rfl) ?_ (fun _ _ heq => heq) ?_
  · rintro j q (hmain | hwaiter)
    · simp [htracker] at hmain
    · refine ⟨.inr hwaiter, ?_⟩
      rintro rfl
      have hq := h.tracker_pos hwaiter
      cases hexcl .waiter hq (WaiterPc.owns_of_tracker hwaiter hq)
  · rintro o q ho
    have hold : Owns (.resolve fin (.clean i)) fg waiter children o q := by
      cases o with
      | child => exact ⟨ho.1, by simp [MainPc.assigns]⟩
      | main => simp [Owns, hresolves] at ho
      | waiter => exact ho
    refine ⟨hold, ?_⟩
    rintro rfl
    cases hexcl o (hold.pos hpos) hold
    simp [Owns, hresolves] at ho

theorem clean_waiter (h : Books pid main fg (.resolve fin (.clean i)) children)
    (hpos : ∀ c ∈ children, 0 < c.pid) :
    Books (Function.update pid i 0) main fg .lock children := by
  have hfin := h.positive fin _ rfl
  have hexcl : ∀ o, Owns main fg (.resolve fin (.clean i)) children o fin.pid → o = .waiter :=
    fun o ho => h.exclusive o .waiter fin.pid ho ⟨hfin, rfl⟩
  refine h.clean hpos (h.tracked i fin.pid (.inr rfl)).2 (fun _ hj => hj) rfl ?_
    (by rintro fin place ⟨⟩) ?_
  · rintro j q (hmain | hwaiter)
    · refine ⟨.inl hmain, ?_⟩
      rintro rfl
      cases hexcl .main (MainPc.owns_of_tracker hmain hfin)
    · cases hwaiter
  · rintro o q ho
    have hold : Owns main fg (.resolve fin (.clean i)) children o q := by
      cases o with
      | waiter => cases ho.2
      | _ => exact ho
    refine ⟨hold, ?_⟩
    rintro rfl
    cases hexcl o hold
    cases ho.2

end Books

end OsProjects.Mc2
