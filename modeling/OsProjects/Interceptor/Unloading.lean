import OsProjects.Interceptor.Table

/-!
# Unloading while a task is inside

Nothing counts the tasks that are in the module's functions. A task that waits in the
kernel's `read` for the module's returns into memory that was freed, if the module went
meanwhile. No task ever gets there, and none crashes there, exactly if the last operation of
`interceptor_end` is always taken with no task inside; and whenever one is inside, unloading
can crash it.
-/

namespace OsProjects.Interceptor

open OsProjects.Lib

variable {w : Width} {K T P : Type}

/-- The step is the last of `interceptor_end`, after which the module's memory is freed. -/
def leaving (l : Label w T) (s : State w K T) : Bool :=
  match l, s.phase, s.crashed with
  | .module _, .ending [_], none => true
  | _, _, _ => false

/-- The module goes only when no task is in one of its functions. -/
def Quiet (l : Label w T) (s : State w K T) : Prop :=
  leaving l s = true → ∀ t, (s.pc t).inside = none

section States

variable {s s' : State w K T} {t : T}

theorem State.runs_congr (hload : s'.load = s.load) (hpres : s'.phase.present = s.phase.present)
    (load : Nat) : s'.runs load = s.runs load := by
  rw [State.runs, State.runs, hload, hpres]

theorem stale_of_absent (hphase : s.phase = .absent) {load : Nat}
    (hin : (s.pc t).inside = some load) : Stale s t := by
  refine ⟨load, hin, ?_⟩
  rw [State.runs, hphase]
  exact Bool.and_false _

/-- A sound state in which no task is in freed memory. -/
structure Calm (s : State w K T) : Prop where
  sound : Sound s
  fresh : ∀ t, ¬ Stale s t

/-- Who is inside stays inside a module that is there. -/
theorem Calm.of_inside (h : Calm s) (hs : Sound s') (hload : s'.load = s.load)
    (hpres : s'.phase.present = s.phase.present)
    (hin : ∀ t load, (s'.pc t).inside = some load →
      (s.pc t).inside = some load ∨ s.runs load = true) : Calm s' := by
  refine ⟨hs, ?_⟩
  rintro t ⟨load, hload', hgone⟩
  rw [State.runs_congr hload hpres] at hgone
  rcases hin t load hload' with hold | hruns
  · exact h.fresh t ⟨load, hold, hgone⟩
  · cases hruns.symm.trans hgone

theorem Calm.module_step {scanned : Scanned w} {lines : List Line} (h : Calm s)
    (hup : s.crashed = none) (hq : Quiet (.module scanned) s)
    (hm : ModuleMoves scanned s lines s') : Calm s' := by
  obtain ⟨hpc, -, hload⟩ := hm.frame
  have hsound := h.sound.module_step hm
  have hin : ∀ t load, (s'.pc t).inside = some load →
      (s.pc t).inside = some load ∨ s.runs load = true := by
    rw [hpc]
    exact fun _ _ => .inl
  cases hm with
  | starts op rest hphase =>
    refine h.of_inside hsound hload ?_ hin
    rw [hphase]
    cases rest <;> rfl
  | ends op rest hphase =>
    exact h.of_inside hsound hload (by rw [hphase]; rfl) hin
  | waits => exact h
  | crashes => exact ⟨hsound, h.fresh⟩
  | fails lines found hphase =>
    -- the functions were never in the table, so nobody is in one of them
    refine ⟨hsound, ?_⟩
    rintro t ⟨load, hload', -⟩
    have hhook := h.sound.hooked
    unfold Hooked at hhook
    rw [hphase] at hhook
    cases hruns : s.runs load with
    | false => exact h.fresh t ⟨load, hload', hruns⟩
    | true =>
      have hnone := hhook.fresh (by decide) .sysRead
      cases hnone.symm.trans (h.sound.saved t load hload' hruns .sysRead)
  | frees op hphase =>
    refine ⟨hsound, ?_⟩
    rintro t ⟨load, hload', -⟩
    have hleave : leaving (.module scanned) s = true := by
      unfold leaving
      rw [hphase, hup]
    rw [hpc, hq hleave t] at hload'
    cases hload'

variable [DecidableEq T] {kern : Kernel K P} {uid : T → Nat} {request : Request} {a : Answer T}
  {l : Label w T}

/-- A task comes into the module only through the table, and so only while it is there. -/
theorem Moves.inside (hs : Sound s) (hm : Moves kern uid t request s a s') (u : T) (load : Nat)
    (hin : (s'.pc u).inside = some load) :
    (s.pc u).inside = some load ∨ s.runs load = true := by
  cases hm with
  | calls | returns | answers | leaves =>
    rcases State.goto_inside hin with hold | ⟨-, hnew⟩
    · exact .inl hold
    · cases hnew
  | hooked _ htab =>
    rcases State.goto_inside hin with hold | ⟨-, hnew⟩
    · exact .inl hold
    · cases hnew
      rcases hs.hooked.entry request.call with hsys | ⟨-, hpres, -⟩
      · cases htab.symm.trans hsys
      · exact .inr (by rw [State.runs, hpres, decide_eq_true rfl]; rfl)
  | runs r caller hpc =>
    rcases State.goto_inside hin with hold | ⟨rfl, hnew⟩
    · exact .inl hold
    · cases caller with
      | none => cases hnew
      | some load' => exact .inl (by rw [hpc]; exact hnew)
  | passes load' r lines hpc =>
    rcases State.goto_inside hin with hold | ⟨rfl, hnew⟩
    · exact .inl hold
    · exact .inl (by rw [hpc]; exact hnew)
  | dies => exact .inl hin

theorem Calm.step (h : Calm s) (hq : Quiet l s) (hstep : step kern uid l s = some (a, s')) :
    Calm s' := by
  have hsound := h.sound.step hstep
  obtain ⟨hup, ⟨-, hphase, -, rfl⟩ | ⟨-, hphase, -, rfl⟩ | ⟨scanned, rfl, lines, -, hm⟩ |
    ⟨t, r, -, ht⟩⟩ := step_cases hstep
  · refine ⟨hsound, ?_⟩
    rintro t ⟨load, hin, -⟩
    exact h.fresh t (stale_of_absent hphase hin)
  · exact h.of_inside hsound rfl (by rw [hphase]; rfl) fun _ _ => .inl
  · exact h.module_step hup hq (h.sound.moduleStep_moves hm)
  · have hmoves := h.sound.moves ht
    obtain ⟨-, -, hphase, hload⟩ := hmoves.frame
    exact h.of_inside hsound hload (by rw [hphase]) (hmoves.inside h.sound)

/-- `interceptor_end` goes on to its end. -/
theorem ending_goes (kern : Kernel K P) (uid : T → Nat) (hs : Sound s)
    (hup : s.crashed = none) {op : Op} {rest : List Op}
    (hphase : s.phase = .ending (op :: rest)) (scanned : Scanned w) :
    step kern uid (.module scanned) s = some (⟨(op.exec scanned s).1, none⟩,
      { (op.exec scanned s).2 with phase := if rest.isEmpty then .absent else .ending rest }) := by
  have hhook := hs.hooked
  unfold Hooked at hhook
  rw [hphase] at hhook
  simp only [step, hup, moduleStep_ending hphase hhook, Option.isSome_none, Bool.false_eq_true,
    if_false, Option.map_some]

theorem quiet_of_calm (h : Calm s)
    (hnext : ∀ a s', step kern uid l s = some (a, s') → ∀ t, ¬ Stale s' t) : Quiet l s := by
  intro hleave t
  unfold leaving at hleave
  split at hleave
  · next scanned op hphase hup =>
    have hgone := hnext _ _ (ending_goes kern uid h.sound hup hphase scanned) t
    cases hin : (s.pc t).inside with
    | none => rfl
    | some load =>
      have hpc := (op.exec_frame scanned s).1
      exact absurd (stale_of_absent rfl (by rw [← hin, ← hpc])) hgone
  · cases hleave

end States

section Runs

variable [DecidableEq T] (kern : Kernel K P) (uid : T → Nat) (cr0 : Word w) (k : K)

/-- No task ever is in the text of a module that is gone, and none crashes there, exactly if
at every unloading no task is in one of the module's functions when the last operation of
`interceptor_end` is taken. The other two kinds of crash are possible in both cases. -/
theorem never_stale_iff_quiet (ls : List (Label w T)) :
    Always (step kern uid) (fun s => ∀ t, s.crashed ≠ some (.freedCode t) ∧ ¬ Stale s t) ls
        (boot cr0 k) ↔
      Guarded (step kern uid) Quiet ls (boot cr0 k) := by
  have hboot : Calm (boot cr0 k : State w K T) := by
    refine ⟨boot_sound cr0 k, ?_⟩
    rintro t ⟨load, hin, -⟩
    cases hin
  have hall : Guarded (step kern uid) (fun _ _ => True) ls (boot cr0 k) :=
    fun _ _ _ _ _ _ => trivial
  -- who crashes in freed memory is there
  have hcalm : ∀ s : State w K T, Calm s ∧ (∀ why, s.crashed = some why → Crashed kern uid s why) →
      ∀ t, s.crashed ≠ some (.freedCode t) ∧ ¬ Stale s t := by
    rintro s ⟨h, hwhy⟩ t
    refine ⟨fun hfreed => ?_, h.fresh t⟩
    cases hwhy _ hfreed with
    | freed _ hst => exact h.fresh t hst
  refine always_iff_guarded (I := fun s => Calm s ∧ ∀ why, s.crashed = some why →
    Crashed kern uid s why) ⟨hboot, nofun⟩ ?_ hcalm ?_ ls hall
  · rintro s l a s' ⟨h, -⟩ - hq hc
    exact ⟨h.step hq hc, fun why => h.sound.crashed hc⟩
  · rintro s l ⟨h, -⟩ - hnext
    exact quiet_of_calm h fun a s' hc t => (hnext a s' hc t).2

/-- From anywhere in `interceptor_end` the module can go, wherever the tasks are. -/
theorem ending_finishes (rest : List Op) : ∀ s : State w K T, Sound s → s.crashed = none →
    s.phase = .ending rest → rest ≠ [] →
      ∃ h s', run (step kern uid) (List.replicate rest.length (.module .null)) s = some (h, s') ∧
        s'.phase = .absent ∧ s'.crashed = none ∧ s'.pc = s.pc := by
  induction rest with
  | nil => exact fun _ _ _ _ hne => absurd rfl hne
  | cons op rest ih =>
    intro s hs hup hphase _
    have hgo := ending_goes kern uid hs hup hphase .null
    have hpc := (op.exec_frame .null s).1
    have hhook := hs.hooked
    unfold Hooked at hhook
    rw [hphase] at hhook
    have hup' := (hhook.exec .null).2.trans hup
    cases rest with
    | nil =>
      exact ⟨_, _, run_cons hgo rfl, rfl, hup', hpc⟩
    | cons op' rest =>
      have hends : ModuleMoves .null s _ _ := .ends op _ hphase (by simp)
      obtain ⟨h, s', hrun, habsent, hup'', hpc'⟩ := ih _ (hs.module_step hends) hup' rfl (by simp)
      exact ⟨_, s', run_cons hgo hrun, habsent, hup'', hpc'.trans hpc⟩

/-- A task in freed memory crashes, with the first or the second step it takes. -/
theorem Stale.crashes {s : State w K T} {t : T} (hst : Stale s t) (hup : s.crashed = none)
    (r : Request) : ∃ n ≤ 2, ∃ h s',
      run (step kern uid) (List.replicate n (.task t r)) s = some (h, s') ∧
        s'.crashed = some (.freedCode t) := by
  obtain ⟨load, hin, hgone⟩ := hst
  have hrun : ∀ s : State w K T, s.crashed = none → step kern uid (.task t r) s =
      some (taskStep kern uid t r s) := by
    intro s hup
    rw [step, hup]
    rfl
  have hback : ∀ (s : State w K T) r' reply, s.crashed = none → s.pc t = .back load r' reply →
      s.runs load = false →
      step kern uid (.task t r) s = some (⟨[], none⟩, s.crash (.freedCode t)) := by
    intro s r' reply hup hpc hgone
    simp only [hrun s hup, taskStep, hpc, hgone, Bool.false_eq_true, if_false]
  cases hpc : s.pc t with
  | user | returning =>
    rw [hpc] at hin
    cases hin
  | new load' r' =>
    rw [hpc] at hin
    cases hin
    have hnew : step kern uid (.task t r) s = some (⟨[], none⟩, s.crash (.freedCode t)) := by
      simp only [hrun s hup, taskStep, hpc, hgone, Bool.false_eq_true, if_false]
    exact ⟨1, by omega, _, _, run_cons hnew rfl, rfl⟩
  | back load' r' reply =>
    rw [hpc] at hin
    cases hin
    exact ⟨1, by omega, _, _, run_cons (hback s r' reply hup hpc hgone) rfl, rfl⟩
  | sys r' caller =>
    rw [hpc] at hin
    cases caller with
    | none => cases hin
    | some load' =>
      cases hin
      have hfirst : step kern uid (.task t r) s = some (⟨[], none⟩,
          { s with kernel := (kern.sys r' s.kernel).2 }.goto t
            (.back load r' (kern.sys r' s.kernel).1)) := by
        simp only [hrun s hup, taskStep, hpc]
      have hsecond := hback ({ s with kernel := (kern.sys r' s.kernel).2 }.goto t
        (.back load r' (kern.sys r' s.kernel).1)) r' _ hup (Function.update_self ..) hgone
      exact ⟨2, by omega, _, _, run_cons hfirst (run_cons hsecond rfl), rfl⟩

variable {kern uid cr0 k}

/-- Whenever the module is loaded and a task is in one of its functions, or waits in the
kernel's function for it, `rmmod` and two steps of the task can crash the system. -/
theorem unloading_under_call {ls : List (Label w T)} {h : History w T} {s : State w K T} {t : T}
    (hrun : steps kern uid cr0 k ls = some (h, s)) (hlive : s.phase = .live)
    (hup : s.crashed = none) (hin : (s.pc t).inside.isSome = true) (r : Request) :
    ∃ n ≤ 2, ∃ h' s', steps kern uid cr0 k (ls ++ (.rmmod ::
        (List.replicate interceptorEnd.length (.module .null) ++ List.replicate n (.task t r)))) =
        some (h', s') ∧ s'.crashed = some (.freedCode t) := by
  obtain ⟨load, hload⟩ := Option.isSome_iff_exists.mp hin
  have hrmmod : step kern uid .rmmod s =
      some (⟨[], none⟩, { s with phase := .ending interceptorEnd }) := by
    simp only [step, hup, hlive, Option.isSome_none, Bool.false_eq_true, if_false]
  have hs := (steps_sound hrun).step hrmmod
  obtain ⟨h₁, s₁, hgone, habsent, hup₁, hpc₁⟩ :=
    ending_finishes kern uid interceptorEnd _ hs hup rfl (by decide)
  have hst : Stale s₁ t := stale_of_absent habsent (by rw [hpc₁]; exact hload)
  obtain ⟨n, hn, h₂, s₂, hcrash, hwhy⟩ := hst.crashes kern uid hup₁ r
  refine ⟨n, hn, _, s₂, run_trans hrun (run_cons hrmmod (run_trans hgone hcrash)), hwhy⟩

theorem unloading_under_open : ∃ n ≤ 2, ∃ h' s', steps idleKernel (fun _ => 1000) bootCr0 ()
      (loadAndOpen ++ (.rmmod :: (List.replicate interceptorEnd.length (.module .null) ++
        List.replicate n (.task () .syscall1)))) = some (h', s') ∧
      s'.crashed = some (.freedCode ()) := by
  have hinside : (steps idleKernel (fun _ => 1000) bootCr0 () loadAndOpen).map
      (fun x => (x.2.phase, x.2.crashed, (x.2.pc ()).inside.isSome)) =
        some (.live, none, true) := by decide
  obtain ⟨⟨h, s⟩, hrun, heq⟩ := Option.map_eq_some_iff.mp hinside
  injection heq with hphase heq
  injection heq with hup hin
  exact unloading_under_call hrun hphase hup hin .syscall1

end Runs

end OsProjects.Interceptor
