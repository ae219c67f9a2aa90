import OsProjects.Mc2.Threads

/-!
# The children of the process

When a child may exit is up to the child. `Pending` names the two stretches of `main` in
which it is too early: the result of `fork` is not assigned yet, or the command is a
blocking one and `canWait` not taken yet. `Family` is what holds of the children if none
exits then: a child of a blocking command is waited for by `main`, and it is either still
running or `main` has the mutex.
-/

namespace OsProjects.Mc2

open OsProjects.Lib

variable {children children' : List Child} {main main' : MainPc} {fg fg' pid p : Int}

/-! ## The calls -/

theorem fork_spec {foreground : Bool} (h : fork foreground children pid = some children') :
    pid = -1 ∧ children' = children ∨
      0 < pid ∧ (∀ c ∈ children, c.pid ≠ pid) ∧
        children' = { pid := pid, foreground := foreground, exited := false } :: children := by
  unfold fork at h
  split_ifs at h with hfail hfresh
  · exact .inl ⟨hfail, (Option.some.inj h).symm⟩
  · exact .inr ⟨hfresh.1, hfresh.2, (Option.some.inj h).symm⟩

theorem wait3_spec {nohang : Bool} (h : wait3 nohang children pid = some children') :
    children'.Sublist children ∧ (0 < pid →
      (∃ c ∈ children, c.pid = pid ∧ c.exited) ∧ ∀ c ∈ children', c.pid ≠ pid) := by
  unfold wait3 at h
  split_ifs at h with hchild hnone hnohang
  · cases h
    refine ⟨List.filter_sublist, fun _ => ⟨hchild, fun c hc => ?_⟩⟩
    simpa using (List.mem_filter.mp hc).2
  · cases h
    exact ⟨List.Sublist.refl _, fun hpos => by omega⟩
  · cases h
    exact ⟨List.Sublist.refl _, fun hpos => by omega⟩

theorem exit_spec (h : exit children pid = some children') :
    children'.map Child.pid = children.map Child.pid ∧
      ∀ c' ∈ children', ∃ c ∈ children, c.pid = c'.pid ∧ c.foreground = c'.foreground ∧
        (c'.exited → c.exited ∨ c'.pid = pid) := by
  unfold exit at h
  split_ifs at h
  cases h
  constructor
  · rw [List.map_map]
    refine List.map_congr_left fun c _ => ?_
    show (if c.pid = pid then _ else _ : Child).pid = c.pid
    split <;> rfl
  · intro c' hc'
    obtain ⟨c, hc, rfl⟩ := List.mem_map.mp hc'
    refine ⟨c, hc, ?_⟩
    split
    next heq => exact ⟨rfl, rfl, fun _ => .inr heq⟩
    next => exact ⟨rfl, rfl, .inl⟩

/-! ## What `main` is waiting for -/

/-- What `main` has forked and not assigned yet, or, for a blocking command, not taken
`canWait` for. -/
def MainPc.forked (fg : Int) : MainPc → Option Int
  | .assign _ pid => some pid
  | .lock => some fg
  | _ => none

def Pending (main : MainPc) (fg pid : Int) : Prop := main.forked fg = some pid

instance : Decidable (Pending main fg pid) :=
  inferInstanceAs (Decidable (main.forked fg = some pid))

/-- The blocking command that `main` has started. -/
def MainPc.awaits (fg : Int) : MainPc → Option Int
  | .assign .fgProcess pid => some pid
  | .lock | .wait | .handle _ | .resolve .. => some fg
  | _ => none

/-- The pid that `main` got last from `wait3`. -/
def MainPc.finished : MainPc → Option Int
  | .handle fin | .resolve fin _ => some fin.pid
  | _ => none

/-- The children, with `fg` for `fgProcess.pid`. -/
structure Family (main : MainPc) (fg : Int) (children : List Child) : Prop where
  nodup : (children.map Child.pid).Nodup
  pos : ∀ c ∈ children, 0 < c.pid
  timely : ∀ c ∈ children, c.exited → ¬ Pending main fg c.pid
  awaited : ∀ c ∈ children, c.foreground → main.awaits fg = some c.pid
  handled : ∀ p, main.finished = some p → ∀ c ∈ children, c.pid ≠ p

namespace Family

theorem nil : Family .menu fg [] :=
  ⟨List.nodup_nil, by simp, by simp, by simp, by simp⟩

/-- There is one child of a pid. -/
theorem eq_of_pid (h : Family main fg children) {c c' : Child} (hc : c ∈ children)
    (hc' : c' ∈ children) (hpid : c.pid = c'.pid) : c = c' :=
  List.inj_on_of_nodup_map h.nodup hc hc' hpid

/-- `wait3` in either thread. -/
theorem sublist (h : Family main fg children) (hsub : children'.Sublist children) :
    Family main fg children' where
  nodup := h.nodup.sublist (hsub.map _)
  pos c hc := h.pos c (hsub.mem hc)
  timely c hc := h.timely c (hsub.mem hc)
  awaited c hc := h.awaited c (hsub.mem hc)
  handled p hp c hc := h.handled p hp c (hsub.mem hc)

/-- `main` goes on, without a change to the children. -/
theorem move (h : Family main fg children) (hforked : main'.forked fg' = none)
    (hawaits : ∀ p, 0 < p → main.awaits fg = some p → main'.awaits fg' = some p)
    (hfinished : ∀ p, main'.finished = some p → main.finished = some p) :
    Family main' fg' children where
  nodup := h.nodup
  pos := h.pos
  timely c _ _ := by simp [Pending, hforked]
  awaited c hc hfg := hawaits c.pid (h.pos c hc) (h.awaited c hc hfg)
  handled p hp := h.handled p (hfinished p hp)

/-- A move between places where no blocking command is under way. -/
theorem idle (h : Family main fg children) (hawaits : main.awaits fg = none)
    (hforked : main'.forked fg = none) (hfinished : main'.finished = none) :
    Family main' fg children :=
  h.move hforked (by simp [hawaits]) (by simp [hfinished])

/-- The loop of `main` is entered, or goes on. -/
theorem loop {fgProcess : Cprocess} (h : Family main fgProcess.pid children)
    (hawaits : main.awaits fgProcess.pid = some fgProcess.pid) :
    Family (loop fgProcess) fgProcess.pid children := by
  unfold Mc2.loop
  split
  · exact h.move rfl (fun p _ hp => hp ▸ hawaits.symm) (by simp [MainPc.finished])
  next hzero =>
    refine h.move rfl (fun p hpos hp => ?_) (by simp [MainPc.finished])
    have hp' : fgProcess.pid = p := Option.some.inj (hawaits.symm.trans hp)
    omega

theorem fork {tracker : Tracker} (h : Family (.fork tracker) fg children)
    (hfork : Mc2.fork (tracker == .fgProcess) children pid = some children') :
    Family (.assign tracker pid) fg children' := by
  -- before the `fork` there is no child of a blocking command
  have hnone : ∀ c ∈ children, ¬ c.foreground := fun c hc hfg => by cases h.awaited c hc hfg
  rcases fork_spec hfork with ⟨rfl, rfl⟩ | ⟨hpos, hfresh, rfl⟩
  · refine ⟨h.nodup, h.pos, fun c hc _ heq => ?_, fun c hc hfg => absurd hfg (hnone c hc),
      by simp [MainPc.finished]⟩
    have hpos := h.pos c hc
    rw [← Option.some.inj heq] at hpos
    omega
  · refine ⟨?_, ?_, ?_, ?_, by simp [MainPc.finished]⟩
    · rw [List.map_cons, List.nodup_cons]
      refine ⟨fun hmem => ?_, h.nodup⟩
      obtain ⟨c, hc, heq⟩ := List.mem_map.mp hmem
      exact hfresh c hc heq
    · exact List.forall_mem_cons.mpr ⟨hpos, h.pos⟩
    · refine List.forall_mem_cons.mpr ⟨by simp, fun c hc _ heq => hfresh c hc ?_⟩
      exact (Option.some.inj heq).symm
    · refine List.forall_mem_cons.mpr ⟨fun hfg => ?_, fun c hc hfg => absurd hfg (hnone c hc)⟩
      rw [eq_of_beq hfg]
      rfl

/-- The assignment to `fgProcess.pid`. -/
theorem assign (h : Family (.assign .fgProcess pid) fg children) : Family .lock pid children :=
  ⟨h.nodup, h.pos, h.timely, h.awaited, by simp [MainPc.finished]⟩

/-- `wait3` in `main`. -/
theorem wait {nohang : Bool} {stats : Rusage} (h : Family .wait fg children)
    (hwait : wait3 nohang children pid = some children') :
    Family (.handle ⟨pid, stats⟩) fg children' := by
  obtain ⟨hsub, hreaped⟩ := wait3_spec hwait
  have h' := h.sublist hsub
  refine ⟨h'.nodup, h'.pos, h'.timely, h'.awaited, ?_⟩
  rintro p ⟨⟩ c hc heq
  exact (hreaped (lt_of_lt_of_eq (h'.pos c hc) heq)).2 c hc heq

/-- The blocking command is done. -/
theorem clean {fin : Finished} (h : Family (.handle fin) fg children) (cleaned : Cprocess)
    (hfg : fin.pid = fg) (hzero : cleaned.pid = 0) :
    Family (Mc2.loop cleaned) cleaned.pid children := by
  rw [Mc2.loop, if_neg (by simp [hzero])]
  refine ⟨h.nodup, h.pos, h.timely, fun c hc hforeground => ?_, by simp [MainPc.finished]⟩
  have hpid : fg = c.pid := Option.some.inj (h.awaited c hc hforeground)
  exact absurd (hfg.trans hpid).symm (h.handled fin.pid rfl c hc)

theorem exit (h : Family main fg children) (hexit : Mc2.exit children pid = some children')
    (htimely : ¬ Pending main fg pid) : Family main fg children' := by
  obtain ⟨hpids, hmem⟩ := exit_spec hexit
  refine ⟨hpids ▸ h.nodup, ?_, ?_, ?_, ?_⟩
  · intro c' hc'
    obtain ⟨c, hc, hpid, -⟩ := hmem c' hc'
    exact hpid ▸ h.pos c hc
  · intro c' hc' hexited
    obtain ⟨c, hc, hpid, -, hwas⟩ := hmem c' hc'
    rcases hwas hexited with hwas | heq
    · exact hpid ▸ h.timely c hc hwas
    · exact heq ▸ htimely
  · intro c' hc' hfg
    obtain ⟨c, hc, hpid, hsame, -⟩ := hmem c' hc'
    exact hpid ▸ h.awaited c hc (hsame ▸ hfg)
  · intro p hp c' hc'
    obtain ⟨c, hc, hpid, -⟩ := hmem c' hc'
    exact hpid ▸ h.handled p hp c hc

end Family

end OsProjects.Mc2
