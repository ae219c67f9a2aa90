import OsProjects.Interceptor.Table

/-!
# What the programs see of the module

The functions of the module for `open`, `close` and `read` call the kernel's and return what
it returned. So a kernel with the module behaves, for every order of the steps and however
often the module comes and goes, as a kernel without it (`Plain`) that is given the calls
which the module does not answer itself. The abstraction (`State.plain`) forgets the table
and takes a task at the start of one of those three functions to have called the kernel's.
-/

namespace OsProjects.Interceptor

open OsProjects.Lib

variable {w : Width} {K T P : Type}

/-! ## The kernel without the module -/

inductive PlainPc
  | user
  | sys (r : Request)
  | returning (r : Request) (code : Int)

structure Plain (K T : Type) where
  pc : T → PlainPc
  kernel : K

/-- A task and the request it makes, if it makes one. -/
def plainStep [DecidableEq T] (kern : Kernel K P) (c : T × Request) (p : Plain K T) :
    Option (Option (T × Request × Int) × Plain K T) :=
  match p.pc c.1 with
  | .user => some (none, { p with pc := Function.update p.pc c.1 (.sys c.2) })
  | .sys r =>
    let (reply, k) := kern.sys r p.kernel
    some (none, { pc := Function.update p.pc c.1 (.returning r reply.value), kernel := k })
  | .returning r code => some (some (c.1, r, code), { p with pc := Function.update p.pc c.1 .user })

/-- Where the task would be without the module. -/
def Pc.plain : Pc → PlainPc
  | .user => .user
  | .sys r _ => .sys r
  | .returning r code => .returning r code
  | .new _ r => if r.call.replaced then .user else .sys r
  | .back _ r reply => .returning r reply.value

def State.plain (s : State w K T) : Plain K T where
  pc t := (s.pc t).plain
  kernel := s.kernel

/-- The results the tasks were given, in order. -/
def results (h : History w T) : List (T × Request × Int) := h.filterMap fun x => x.2.result

def plainResults (h : List ((T × Request) × Option (T × Request × Int))) :
    List (T × Request × Int) := h.filterMap fun x => x.2

/-- A result of a call that the module passes on. -/
def passed (x : T × Request × Int) : Bool := !x.2.1.call.replaced

section Steps

variable [DecidableEq T] {kern : Kernel K P} {uid : T → Nat} {s s' : State w K T} {t : T}
  {request : Request} {a : Answer T}

theorem State.goto_plain (s : State w K T) (k : K) (t : T) (pc : Pc) :
    ({ s with kernel := k }.goto t pc).plain =
      { pc := Function.update s.plain.pc t pc.plain, kernel := k } := by
  simp only [State.plain, State.goto, Plain.mk.injEq, and_true]
  funext u
  exact Function.apply_update (fun _ => Pc.plain) s.pc t pc u

theorem State.goto_plain_same {pc : Pc} (hpc : pc.plain = (s.pc t).plain) :
    (s.goto t pc).plain = s.plain := by
  have hgoto := s.goto_plain s.kernel t pc
  rw [hpc] at hgoto
  refine hgoto.trans ?_
  simp only [State.plain, Plain.mk.injEq, and_true]
  exact Function.update_eq_self t _

/-- A step of a task is a step of the plain kernel with the same result, or nothing there,
and then no call that is passed on ends. -/
theorem Moves.plain (h : Moves kern uid t request s a s') :
    (s'.plain = s.plain ∧ ∀ x, a.result = some x → passed x = false) ∨
      ∃ r, plainStep kern (t, r) s.plain = some (a.result, s'.plain) := by
  cases h with
  | calls hpc =>
    refine .inr ⟨request, ?_⟩
    rw [s.goto_plain s.kernel]
    simp only [plainStep, State.plain, hpc, Pc.plain]
  | hooked hpc =>
    cases hrep : request.call.replaced with
    | true => exact .inl ⟨State.goto_plain_same (by simp [Pc.plain, hpc, hrep]), nofun⟩
    | false =>
      refine .inr ⟨request, ?_⟩
      rw [s.goto_plain s.kernel]
      simp [plainStep, State.plain, hpc, Pc.plain, hrep]
  | runs r caller hpc =>
    refine .inr ⟨r, ?_⟩
    rw [s.goto_plain]
    cases caller <;> simp only [plainStep, State.plain, hpc, Pc.plain]
  | returns r code hpc =>
    refine .inr ⟨r, ?_⟩
    rw [s.goto_plain s.kernel]
    simp only [plainStep, State.plain, hpc, Pc.plain]
  | answers load r lines code hpc hrep =>
    refine .inl ⟨State.goto_plain_same (by simp [Pc.plain, hpc, hrep]), ?_⟩
    rintro x ⟨⟩
    simp [passed, hrep]
  | passes load r lines hpc hrep =>
    exact .inl ⟨State.goto_plain_same (by simp [Pc.plain, hpc, hrep]), nofun⟩
  | leaves load r reply lines hpc =>
    refine .inr ⟨r, ?_⟩
    rw [s.goto_plain s.kernel]
    simp only [plainStep, State.plain, hpc, Pc.plain]
  | dies => exact .inl ⟨rfl, nofun⟩

theorem step_plain {l : Label w T} (hs : Sound s) (h : step kern uid l s = some (a, s')) :
    (s'.plain = s.plain ∧ ∀ x, a.result = some x → passed x = false) ∨
      ∃ c, plainStep kern c s.plain = some (a.result, s'.plain) := by
  obtain ⟨-, ⟨-, -, rfl, rfl⟩ | ⟨-, -, rfl, rfl⟩ | ⟨scanned, -, lines, rfl, hm⟩ |
    ⟨t, r, -, ht⟩⟩ := step_cases h
  · exact .inl ⟨rfl, nofun⟩
  · exact .inl ⟨rfl, nofun⟩
  · obtain ⟨hpc, hkernel, -⟩ := (hs.moduleStep_moves hm).frame
    exact .inl ⟨by rw [State.plain, State.plain, hpc, hkernel], nofun⟩
  · rcases (hs.moves ht).plain with hsame | ⟨r', hstep⟩
    · exact .inl hsame
    · exact .inr ⟨(t, r'), hstep⟩

/-- A run of the plain kernel that has come to where the kernel with the module is: the
results are the same, but for some that the module gave itself. -/
structure Follows (h : History w T) (h' : List ((T × Request) × Option (T × Request × Int)))
    (s : State w K T) (p : Plain K T) : Prop where
  sound : Sound s
  state : p = s.plain
  sublist : (plainResults h').Sublist (results h)
  passed : (plainResults h').filter passed = (results h).filter passed

omit [DecidableEq T] in
theorem results_snoc (h : History w T) (l : Label w T) (a : Answer T) :
    results (h ++ [(l, a)]) = results h ++ a.result.toList := by
  rw [results, List.filterMap_append]
  cases hres : a.result <;> simp [results, hres]

theorem Follows.step {l : Label w T} {h : History w T}
    {h' : List ((T × Request) × Option (T × Request × Int))} {p : Plain K T}
    (hf : Follows h h' s p) (hstep : step kern uid l s = some (a, s')) :
    ∃ cs h₁ p', run (plainStep kern) cs p = some (h₁, p') ∧
      Follows (h ++ [(l, a)]) (h' ++ h₁) s' p' := by
  obtain ⟨hs, rfl, hsub, hpass⟩ := hf
  rcases step_plain hs hstep with ⟨hsame, hnone⟩ | ⟨c, hc⟩
  · refine ⟨[], [], s.plain, rfl, hs.step hstep, hsame.symm, ?_, ?_⟩
    · rw [List.append_nil, results_snoc]
      exact hsub.trans (List.sublist_append_left ..)
    · have hdrop : a.result.toList.filter Interceptor.passed = [] := by
        cases hres : a.result with
        | none => rfl
        | some x => simp [hnone x hres]
      rw [List.append_nil, results_snoc, List.filter_append, hdrop, List.append_nil, hpass]
  · have hlast : plainResults (h' ++ [(c, a.result)]) = plainResults h' ++ a.result.toList := by
      rw [plainResults, List.filterMap_append]
      cases hres : a.result <;> simp [plainResults]
    refine ⟨[c], [(c, a.result)], s'.plain, run_cons hc rfl, hs.step hstep, rfl, ?_, ?_⟩
    · rw [hlast, results_snoc]
      exact hsub.append (List.Sublist.refl _)
    · rw [hlast, results_snoc, List.filter_append, List.filter_append, hpass]

end Steps

end OsProjects.Interceptor
