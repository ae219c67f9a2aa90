import Mathlib.Algebra.Order.BigOperators.Group.Finset
import Mathlib.Data.List.Induction

/-!
# Runs of a fallible deterministic machine

A machine answers a command from a state, or does not come back (`none`).
`run` feeds it a list of commands and records the answers. The rules are
stated over the recorded history, so an invariant may speak about everything
that was asked and answered so far:

* `guarded_rule` — a property every answered call of a kind keeps holds after every
  run of such calls; `run_rule` is the case of all calls;
* `run_total` — if moreover every call is answered, every run comes back;
* `run_simulates` — two machines whose calls correspond answer alike; `run_follows` is the
  case of all runs;
* `run_refines` — each call of one machine is matched by a run of another;
* `run_length_le` — a measure that every call of a kind lowers bounds the number of them. For
  a system of threads the measure is a sum over the threads, and a step may raise the share of
  others as long as the thread that takes it pays for that (`sum_lt_of_paid`).
-/

namespace OsProjects.Lib

variable {C R S : Type}

/-- Execute the commands in order, recording each with its answer. -/
def run (exec : C → S → Option (R × S)) : List C → S → Option (List (C × R) × S)
  | [], s => some ([], s)
  | c :: cs, s => do
    let (r, s) ← exec c s
    let (tr, s) ← run exec cs s
    some ((c, r) :: tr, s)

variable {exec : C → S → Option (R × S)}

theorem run_append (cs cs' : List C) (s : S) :
    run exec (cs ++ cs') s = (run exec cs s).bind fun (tr, s') =>
      (run exec cs' s').map fun (tr', s'') => (tr ++ tr', s'') := by
  induction cs generalizing s with
  | nil => cases h : run exec cs' s <;> simp [run, h]
  | cons c cs ih =>
    rw [List.cons_append, run, run]
    cases hc : exec c s with
    | none => rfl
    | some p =>
      obtain ⟨r, s₁⟩ := p
      simp only [Option.bind_eq_bind, Option.bind_some, ih]
      cases h₁ : run exec cs s₁ with
      | none => rfl
      | some q =>
        obtain ⟨tr, s₂⟩ := q
        cases h₂ : run exec cs' s₂ <;> simp [h₂]

/-- Where a run ends, by its first command. -/
theorem map_snd_run_cons (c : C) (cs : List C) (s : S) :
    (run exec (c :: cs) s).map Prod.snd =
      ((exec c s).map Prod.snd).bind fun s => (run exec cs s).map Prod.snd := by
  rw [run]
  cases exec c s with
  | none => rfl
  | some x =>
    simp only [Option.bind_eq_bind, Option.bind_some, Option.map_some]
    cases run exec cs x.2 <;> rfl

/-- A run splits at any point. -/
theorem run_split {cs cs' : List C} {s s'' : S} {tr : List (C × R)}
    (h : run exec (cs ++ cs') s = some (tr, s'')) :
    ∃ tr₁ s₁ tr₂, run exec cs s = some (tr₁, s₁) ∧ run exec cs' s₁ = some (tr₂, s'') ∧
      tr = tr₁ ++ tr₂ := by
  rw [run_append] at h
  obtain ⟨⟨tr₁, s₁⟩, h₁, h⟩ := Option.bind_eq_some_iff.mp h
  obtain ⟨⟨tr₂, s₂⟩, h₂, heq⟩ := Option.map_eq_some_iff.mp h
  injection heq with htr hs
  subst htr hs
  exact ⟨tr₁, s₁, tr₂, h₁, h₂, rfl⟩

/-- A run goes on from where another ended. -/
theorem run_trans {cs cs' : List C} {s s' s'' : S} {tr tr' : List (C × R)}
    (h : run exec cs s = some (tr, s')) (h' : run exec cs' s' = some (tr', s'')) :
    run exec (cs ++ cs') s = some (tr ++ tr', s'') := by
  rw [run_append, h]
  simp only [Option.bind_some, h', Option.map_some]

/-- One more command before. -/
theorem run_cons {cs : List C} {c : C} {s s' s'' : S} {tr : List (C × R)} {r : R}
    (hc : exec c s = some (r, s')) (h : run exec cs s' = some (tr, s'')) :
    run exec (c :: cs) s = some ((c, r) :: tr, s'') := by
  simp only [run, hc, h, Option.bind_eq_bind, Option.bind_some]

/-- One more command. -/
theorem run_snoc {cs : List C} {c : C} {s s' s'' : S} {tr : List (C × R)} {r : R}
    (h : run exec cs s = some (tr, s')) (hc : exec c s' = some (r, s'')) :
    run exec (cs ++ [c]) s = some (tr ++ [(c, r)], s'') := by
  rw [run_append, h]
  simp [run, hc]

theorem run_single {c : C} {s s' : S} {tr : List (C × R)}
    (h : run exec [c] s = some (tr, s')) : ∃ r, exec c s = some (r, s') ∧ tr = [(c, r)] := by
  obtain ⟨⟨r, s₁⟩, hc, h⟩ := Option.bind_eq_some_iff.mp h
  simp only [run, Option.bind_eq_bind, Option.bind_some, Option.some.injEq, Prod.mk.injEq] at h
  obtain ⟨rfl, rfl⟩ := h
  exact ⟨r, hc, rfl⟩

/-- A run that comes back to where it started can be repeated. -/
theorem run_repeat {cs : List C} {s : S} {tr : List (C × R)} (h : run exec cs s = some (tr, s))
    (n : Nat) : run exec (List.replicate n cs).flatten s =
      some ((List.replicate n tr).flatten, s) := by
  induction n with
  | zero => rfl
  | succ n ih =>
    rw [List.replicate_succ, List.flatten_cons, run_append, h]
    simp only [Option.bind_some, ih, Option.map_some, List.replicate_succ, List.flatten_cons]

/-- A run and one more call, evaluated. -/
theorem exists_of_eval (exec : C → S → Option (R × S)) (cs : List C) (c : C) (s₀ : S)
    (P : List (C × R) → S → R → S → Prop) [∀ tr s r s', Decidable (P tr s r s')]
    (h : ((run exec cs s₀).bind fun x => (exec c x.2).map fun y =>
      decide (P x.1 x.2 y.1 y.2)) = some true) :
    ∃ tr s r s', run exec cs s₀ = some (tr, s) ∧ exec c s = some (r, s') ∧ P tr s r s' := by
  obtain ⟨⟨tr, s⟩, hrun, h⟩ := Option.bind_eq_some_iff.mp h
  obtain ⟨⟨r, s'⟩, hc, h⟩ := Option.map_eq_some_iff.mp h
  exact ⟨tr, s, r, s', hrun, hc, of_decide_eq_true h⟩

/-- The history records the commands that were given. -/
theorem run_commands {cs : List C} {s s' : S} {tr : List (C × R)}
    (h : run exec cs s = some (tr, s')) : tr.map Prod.fst = cs := by
  induction cs generalizing s tr with
  | nil =>
    simp only [run, Option.some.injEq, Prod.mk.injEq] at h
    rw [← h.1]
    rfl
  | cons c cs ih =>
    obtain ⟨⟨r, s₁⟩, -, h⟩ := Option.bind_eq_some_iff.mp h
    obtain ⟨⟨tr₁, s₂⟩, h₁, h⟩ := Option.bind_eq_some_iff.mp h
    cases h
    rw [List.map_cons, ih h₁]

/-- Every command of the run meets `Ok` in the state it is given in. -/
def Guarded (exec : C → S → Option (R × S)) (Ok : C → S → Prop) (cs : List C) (s₀ : S) : Prop :=
  ∀ cs' c tr s, cs' ++ [c] <+: cs → run exec cs' s₀ = some (tr, s) → Ok c s

/-- `Guarded`, evaluated along the run. -/
def guardedEval (exec : C → S → Option (R × S)) (ok : C → S → Bool) : List C → S → Bool
  | [], _ => true
  | c :: cs, s => ok c s &&
    match exec c s with
    | some (_, s') => guardedEval exec ok cs s'
    | none => true

theorem Guarded.of_eval {Ok : C → S → Prop} [∀ c s, Decidable (Ok c s)] {cs : List C} {s₀ : S}
    (h : guardedEval exec (fun c s => decide (Ok c s)) cs s₀ = true) :
    Guarded exec Ok cs s₀ := by
  induction cs generalizing s₀ with
  | nil =>
    intro cs' c tr s hpre
    exact absurd (List.prefix_nil.mp hpre) (by simp)
  | cons c cs ih =>
    rw [guardedEval, Bool.and_eq_true, decide_eq_true_eq] at h
    intro cs' c' tr s hpre hrun
    cases cs' with
    | nil =>
      simp only [run, Option.some.injEq, Prod.mk.injEq] at hrun
      obtain ⟨-, rfl⟩ := hrun
      obtain ⟨rfl, -⟩ := List.cons_prefix_cons.mp hpre
      exact h.1
    | cons c₁ cs₁ =>
      obtain ⟨rfl, hpre'⟩ := List.cons_prefix_cons.mp hpre
      obtain ⟨⟨r, s₁⟩, hc, hrun⟩ := Option.bind_eq_some_iff.mp hrun
      obtain ⟨⟨tr₁, s₂⟩, h₁, hrun⟩ := Option.bind_eq_some_iff.mp hrun
      cases hrun
      have hrest := h.2
      simp only [hc] at hrest
      exact ih hrest cs₁ c' tr₁ s hpre' h₁

theorem guarded_snoc_iff {Ok : C → S → Prop} {s₀ : S} {cs : List C} {c : C} :
    Guarded exec Ok (cs ++ [c]) s₀ ↔
      Guarded exec Ok cs s₀ ∧ ∀ tr s, run exec cs s₀ = some (tr, s) → Ok c s := by
  constructor
  · intro h
    refine ⟨fun cs' c' tr s hpre => h cs' c' tr s (hpre.trans (List.prefix_append cs [c])), ?_⟩
    exact fun tr s hrun => h cs c tr s List.prefix_rfl hrun
  · rintro ⟨h, hc⟩ cs' c' tr s hpre hrun
    rcases List.prefix_concat_iff.mp hpre with heq | hpre
    · obtain ⟨rfl, hlast⟩ := List.append_inj' heq rfl
      cases List.singleton_inj.mp hlast
      exact hc tr s hrun
    · exact h cs' c' tr s hpre hrun

section Rules

variable {P : List (C × R) → S → Prop} {Ok : C → S → Prop} {s₀ : S}

/-- A property kept by every answered call that meets `Ok` holds after every run
of such calls. -/
theorem guarded_rule (hinit : P [] s₀)
    (hstep : ∀ tr s c r s', P tr s → Ok c s → exec c s = some (r, s') → P (tr ++ [(c, r)]) s') :
    ∀ cs tr s, run exec cs s₀ = some (tr, s) → Guarded exec Ok cs s₀ → P tr s := by
  intro cs
  induction cs using List.reverseRecOn with
  | nil =>
    intro tr s h _
    simp only [run, Option.some.injEq, Prod.mk.injEq] at h
    obtain ⟨rfl, rfl⟩ := h
    exact hinit
  | append_singleton cs c ih =>
    intro tr s h hok
    obtain ⟨tr₁, s₁, tr₂, h₁, h₂, rfl⟩ := run_split h
    obtain ⟨r, hc, rfl⟩ := run_single h₂
    obtain ⟨hcs, hlast⟩ := guarded_snoc_iff.mp hok
    exact hstep tr₁ s₁ c r s (ih tr₁ s₁ h₁ hcs) (hlast tr₁ s₁ h₁) hc

/-- The recorded history is `G` exactly if all calls met `Ok`, when no call that does
not meet it leaves such a history. -/
theorem guarded_iff {G : List (C × R) → Prop} (hinit : P [] s₀)
    (hstep : ∀ tr s c r s', P tr s → Ok c s → exec c s = some (r, s') → P (tr ++ [(c, r)]) s')
    (hgood : ∀ tr s, P tr s → G tr) (hback : ∀ tr x, G (tr ++ [x]) → G tr)
    (hneed : ∀ tr s c r s', P tr s → exec c s = some (r, s') → G (tr ++ [(c, r)]) → Ok c s) :
    ∀ cs tr s, run exec cs s₀ = some (tr, s) → (G tr ↔ Guarded exec Ok cs s₀) := by
  have hP := guarded_rule hinit hstep
  intro cs
  induction cs using List.reverseRecOn with
  | nil =>
    intro tr s h
    have hnil : Guarded exec Ok [] s₀ := fun cs' c tr s hpre =>
      absurd (List.prefix_nil.mp hpre) (by simp)
    exact iff_of_true (hgood tr s (hP [] tr s h hnil)) hnil
  | append_singleton cs c ih =>
    intro tr s h
    refine ⟨?_, fun hg => hgood tr s (hP _ tr s h hg)⟩
    intro hgood'
    obtain ⟨tr₁, s₁, tr₂, h₁, h₂, rfl⟩ := run_split h
    obtain ⟨r, hc, rfl⟩ := run_single h₂
    have hg := (ih tr₁ s₁ h₁).mp (hback tr₁ _ hgood')
    refine guarded_snoc_iff.mpr ⟨hg, fun tr' s' h' => ?_⟩
    cases h₁.symm.trans h'
    exact hneed tr₁ s₁ c r s (hP cs tr₁ s₁ h₁ hg) hc hgood'

/-- `Q` holds in every state of the run. -/
def Always (exec : C → S → Option (R × S)) (Q : S → Prop) (cs : List C) (s₀ : S) : Prop :=
  ∀ cs' tr s, cs' <+: cs → run exec cs' s₀ = some (tr, s) → Q s

/-- `Q` holds in every state of a run of calls that meet `Fits` exactly if all of them meet
`Ok`, when a call that does not meet it leaves a state without `Q`. -/
theorem always_iff_guarded {I Q : S → Prop} {Fits : C → S → Prop} (hinit : I s₀)
    (hstep : ∀ s c r s', I s → Fits c s → Ok c s → exec c s = some (r, s') → I s')
    (hQ : ∀ s, I s → Q s)
    (hneed : ∀ s c, I s → Fits c s → (∀ r s', exec c s = some (r, s') → Q s') → Ok c s) :
    ∀ cs, Guarded exec Fits cs s₀ → (Always exec Q cs s₀ ↔ Guarded exec Ok cs s₀) := by
  have hI : ∀ cs tr s, run exec cs s₀ = some (tr, s) → Guarded exec Fits cs s₀ →
      Guarded exec Ok cs s₀ → I s := by
    intro cs tr s hrun hfits hok
    have hboth : Guarded exec (fun c s => Fits c s ∧ Ok c s) cs s₀ :=
      fun cs' c tr s hpre h => ⟨hfits cs' c tr s hpre h, hok cs' c tr s hpre h⟩
    refine guarded_rule (P := fun _ s => I s) hinit ?_ cs tr s hrun hboth
    exact fun _ s c r s' hI hok hc => hstep s c r s' hI hok.1 hok.2 hc
  intro cs hfits
  constructor
  · induction cs using List.reverseRecOn with
    | nil => exact fun _ cs' c tr s hpre => absurd (List.prefix_nil.mp hpre) (by simp)
    | append_singleton cs c ih =>
      intro halways
      obtain ⟨hcs, hc⟩ := guarded_snoc_iff.mp hfits
      have hok := ih hcs fun cs' tr s hpre =>
        halways cs' tr s (hpre.trans (List.prefix_append cs [c]))
      refine guarded_snoc_iff.mpr ⟨hok, fun tr s hrun => ?_⟩
      refine hneed s c (hI cs tr s hrun hcs hok) (hc tr s hrun) fun r s' hexec => ?_
      exact halways _ _ s' List.prefix_rfl (run_snoc hrun hexec)
  · intro hok cs' tr s hpre hrun
    exact hQ s (hI cs' tr s hrun
      (fun cs₁ c₁ tr₁ s₁ h₁ => hfits cs₁ c₁ tr₁ s₁ (h₁.trans hpre))
      (fun cs₁ c₁ tr₁ s₁ h₁ => hok cs₁ c₁ tr₁ s₁ (h₁.trans hpre)))

/-- A property kept by every answered call holds after every run. -/
theorem run_rule (hinit : P [] s₀)
    (hstep : ∀ tr s c r s', P tr s → exec c s = some (r, s') → P (tr ++ [(c, r)]) s') :
    ∀ cs tr s, run exec cs s₀ = some (tr, s) → P tr s := by
  intro cs tr s h
  have hstep' : ∀ tr s c r s', P tr s → True → exec c s = some (r, s') →
      P (tr ++ [(c, r)]) s' := fun tr s c r s' hP _ => hstep tr s c r s' hP
  exact guarded_rule hinit hstep' cs tr s h (fun _ _ _ _ _ _ => trivial)

/-- The same for a property that is kept in states with `P`, when all runs have `P`. -/
theorem run_rule_with {Q : List (C × R) → S → Prop}
    (hP : ∀ cs tr s, run exec cs s₀ = some (tr, s) → P tr s) (hinit : Q [] s₀)
    (hstep : ∀ tr s c r s', P tr s → Q tr s → exec c s = some (r, s') → Q (tr ++ [(c, r)]) s') :
    ∀ cs tr s, run exec cs s₀ = some (tr, s) → Q tr s := by
  intro cs tr s h
  refine (run_rule (P := fun tr s => (∃ cs, run exec cs s₀ = some (tr, s)) ∧ Q tr s)
    ⟨⟨[], rfl⟩, hinit⟩ ?_ cs tr s h).2
  rintro tr s c r s' ⟨⟨cs, hrun⟩, hQ⟩ hc
  exact ⟨⟨cs ++ [c], run_snoc hrun hc⟩, hstep tr s c r s' (hP cs tr s hrun) hQ hc⟩

/-- If every call that meets `Ok` is answered from a state with the property, every run
of such calls comes back, with the property. -/
theorem guarded_total (hinit : P [] s₀)
    (hstep : ∀ tr s c, P tr s → Ok c s →
      ∃ r s', exec c s = some (r, s') ∧ P (tr ++ [(c, r)]) s') :
    ∀ cs, Guarded exec Ok cs s₀ → ∃ tr s, run exec cs s₀ = some (tr, s) ∧ P tr s := by
  intro cs
  induction cs using List.reverseRecOn with
  | nil => exact fun _ => ⟨[], s₀, rfl, hinit⟩
  | append_singleton cs c ih =>
    intro hok
    obtain ⟨hcs, hc⟩ := guarded_snoc_iff.mp hok
    obtain ⟨tr, s, h, hP⟩ := ih hcs
    obtain ⟨r, s', hexec, hP'⟩ := hstep tr s c hP (hc tr s h)
    exact ⟨tr ++ [(c, r)], s', run_snoc h hexec, hP'⟩

/-- If every call is answered from a state with the property, every run comes
back, with the property. -/
theorem run_total (hinit : P [] s₀)
    (hstep : ∀ tr s c, P tr s → ∃ r s', exec c s = some (r, s') ∧ P (tr ++ [(c, r)]) s') :
    ∀ cs, ∃ tr s, run exec cs s₀ = some (tr, s) ∧ P tr s := by
  intro cs
  have hstep' : ∀ tr s c, P tr s → True → ∃ r s', exec c s = some (r, s') ∧
      P (tr ++ [(c, r)]) s' := fun tr s c hP _ => hstep tr s c hP
  exact guarded_total hinit hstep' cs fun _ _ _ _ _ _ => trivial

end Rules

/-! ## Notes

What the history does not show, the state a call was made in, can be noted along a run. -/

section Notes

variable {E : Type} {note : C → S → List E}

/-- What `note` says of the calls of a run, in order. -/
def notes (exec : C → S → Option (R × S)) (note : C → S → List E) : List C → S → List E
  | [], _ => []
  | c :: cs, s => note c s ++ match exec c s with
    | some (_, s') => notes exec note cs s'
    | none => []

theorem notes_snoc {cs : List C} {c : C} {s s' : S} {tr : List (C × R)}
    (h : run exec cs s = some (tr, s')) :
    notes exec note (cs ++ [c]) s = notes exec note cs s ++ note c s' := by
  induction cs generalizing s tr with
  | nil =>
    simp only [run, Option.some.injEq, Prod.mk.injEq] at h
    obtain ⟨-, rfl⟩ := h
    simp only [List.nil_append, notes]
    cases exec c s <;> simp
  | cons d cs ih =>
    obtain ⟨⟨r, s₁⟩, hd, h⟩ := Option.bind_eq_some_iff.mp h
    obtain ⟨⟨tr₁, s₂⟩, h₁, h⟩ := Option.bind_eq_some_iff.mp h
    cases h
    simp only [List.cons_append, notes, hd, ih h₁, List.append_assoc]

/-- `guarded_rule` for a property of the notes as well. -/
theorem guarded_notes_rule {P : List (C × R) → List E → S → Prop} {Ok : C → S → Prop} {s₀ : S}
    (hinit : P [] [] s₀)
    (hstep : ∀ tr es s c r s', P tr es s → Ok c s → exec c s = some (r, s') →
      P (tr ++ [(c, r)]) (es ++ note c s) s') :
    ∀ cs tr s, run exec cs s₀ = some (tr, s) → Guarded exec Ok cs s₀ →
      P tr (notes exec note cs s₀) s := by
  intro cs
  induction cs using List.reverseRecOn with
  | nil =>
    intro tr s h _
    simp only [run, Option.some.injEq, Prod.mk.injEq] at h
    obtain ⟨rfl, rfl⟩ := h
    exact hinit
  | append_singleton cs c ih =>
    intro tr s h hok
    obtain ⟨tr₁, s₁, tr₂, h₁, h₂, rfl⟩ := run_split h
    obtain ⟨r, hc, rfl⟩ := run_single h₂
    obtain ⟨hcs, hlast⟩ := guarded_snoc_iff.mp hok
    rw [notes_snoc h₁]
    exact hstep tr₁ _ s₁ c r s (ih tr₁ s₁ h₁ hcs) (hlast tr₁ s₁ h₁) hc

end Notes

/-! ## Simulation

A second machine gives the same answers as the first one on the runs whose final
state is `Good`, a property that no call re-establishes once it is lost. -/

section Simulation

variable {T : Type} {exec' : C → T → Option (R × T)} {Rel : S → T → Prop} {Good : S → Prop}

theorem run_simulates
    (hgood : ∀ s c r s', exec c s = some (r, s') → Good s' → Good s)
    (hstep : ∀ s t c r s', Rel s t → exec c s = some (r, s') → Good s' →
      ∃ t', exec' c t = some (r, t') ∧ Rel s' t') {s : S} {t : T} (h₀ : Rel s t) :
    ∀ cs tr s', run exec cs s = some (tr, s') → Good s' →
      ∃ t', run exec' cs t = some (tr, t') ∧ Rel s' t' := by
  intro cs
  induction cs using List.reverseRecOn with
  | nil =>
    intro tr s' h _
    simp only [run, Option.some.injEq, Prod.mk.injEq] at h
    obtain ⟨rfl, rfl⟩ := h
    exact ⟨t, rfl, h₀⟩
  | append_singleton cs c ih =>
    intro tr s' h hg
    obtain ⟨tr₁, s₁, tr₂, h₁, h₂, rfl⟩ := run_split h
    obtain ⟨r, hc, rfl⟩ := run_single h₂
    obtain ⟨t₁, ht₁, hrel₁⟩ := ih tr₁ s₁ h₁ (hgood s₁ c r s' hc hg)
    obtain ⟨t', ht', hrel'⟩ := hstep s₁ t₁ c r s' hrel₁ hc hg
    exact ⟨t', run_snoc ht₁ ht', hrel'⟩

/-- The case of all runs. -/
theorem run_follows
    (hstep : ∀ s t c r s', Rel s t → exec c s = some (r, s') →
      ∃ t', exec' c t = some (r, t') ∧ Rel s' t') {s : S} {t : T} (h₀ : Rel s t)
    (cs : List C) (tr : List (C × R)) (s' : S) (h : run exec cs s = some (tr, s')) :
    ∃ t', run exec' cs t = some (tr, t') ∧ Rel s' t' := by
  have hgood : ∀ s c r s', exec c s = some (r, s') → (fun _ : S => True) s' →
      (fun _ : S => True) s := fun _ _ _ _ _ _ => trivial
  exact run_simulates hgood (fun s t c r s' hrel he _ => hstep s t c r s' hrel he) h₀ cs tr s' h
    trivial

end Simulation

/-! ## Refinement

Each step of the first machine is matched by a run of the second, of no steps or of several;
`Rel` relates the histories as well as the states. -/

section Refinement

variable {D R' T : Type} {exec' : D → T → Option (R' × T)}
  {Rel : List (C × R) → List (D × R') → S → T → Prop} {s₀ : S} {t₀ : T}

theorem run_refines (h₀ : Rel [] [] s₀ t₀)
    (hstep : ∀ tr tr' s t c r s', Rel tr tr' s t → exec c s = some (r, s') →
      ∃ ds tr₁ t', run exec' ds t = some (tr₁, t') ∧ Rel (tr ++ [(c, r)]) (tr' ++ tr₁) s' t') :
    ∀ cs tr s, run exec cs s₀ = some (tr, s) →
      ∃ ds tr' t, run exec' ds t₀ = some (tr', t) ∧ Rel tr tr' s t := by
  intro cs tr s hrun
  refine run_rule (P := fun tr s => ∃ ds tr' t, run exec' ds t₀ = some (tr', t) ∧ Rel tr tr' s t)
    ⟨[], [], t₀, rfl, h₀⟩ ?_ cs tr s hrun
  rintro tr s c r s' ⟨ds, tr', t, hrun', hrel⟩ hc
  obtain ⟨ds₁, tr₁, t', hrun₁, hrel'⟩ := hstep tr tr' s t c r s' hrel hc
  exact ⟨ds ++ ds₁, tr' ++ tr₁, t', run_trans hrun' hrun₁, hrel'⟩

end Refinement

/-! ## Runs that end -/

/-- A thread pays for its step, and for what the step gives to the others. -/
theorem sum_lt_of_paid {T : Type} [Fintype T] [DecidableEq T] {share share' given : T → Nat}
    {t : T} (hothers : ∀ g, g ≠ t → share' g ≤ share g + given g)
    (hself : share' t + ∑ g, given g < share t) : ∑ g, share' g < ∑ g, share g := by
  have hrest : ∑ g ∈ Finset.univ.erase t, share' g ≤
      ∑ g ∈ Finset.univ.erase t, share g + ∑ g ∈ Finset.univ.erase t, given g := by
    rw [← Finset.sum_add_distrib]
    exact Finset.sum_le_sum fun g hg => hothers g (Finset.ne_of_mem_erase hg)
  have hsplit : ∀ f : T → Nat, ∑ g, f g = f t + ∑ g ∈ Finset.univ.erase t, f g :=
    fun f => (Finset.add_sum_erase _ f (Finset.mem_univ t)).symm
  rw [hsplit given] at hself
  rw [hsplit share', hsplit share]
  omega

section Bounded

variable {C R S : Type} {exec : C → S → Option (R × S)} {Ok : C → S → Prop} {I : S → Prop}
  {μ : S → Nat} {s₀ : S}

/-- A run of calls that lower the measure is no longer than the measure of its start. -/
theorem run_length_le (hstart : I s₀)
    (hstep : ∀ s c r s', I s → Ok c s → exec c s = some (r, s') → I s' ∧ μ s' < μ s) :
    ∀ cs tr s, run exec cs s₀ = some (tr, s) → Guarded exec Ok cs s₀ →
      I s ∧ cs.length + μ s ≤ μ s₀ := by
  intro cs tr s hrun hok
  have hall := guarded_rule (P := fun tr s => I s ∧ tr.length + μ s ≤ μ s₀)
    ⟨hstart, by simp⟩ ?_ cs tr s hrun hok
  · rw [← run_commands hrun, List.length_map]
    exact hall
  · rintro tr s c r s' ⟨hI, hle⟩ hc hexec
    obtain ⟨hI', hlt⟩ := hstep s c r s' hI hc hexec
    refine ⟨hI', ?_⟩
    rw [List.length_append, List.length_singleton]
    omega

end Bounded

end OsProjects.Lib
