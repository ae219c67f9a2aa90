import OsProjects.Paging.PartOne.Model

/-!
# What `Part1` prints stays printed

`find_free_frame` of `Part1` returns -1 exactly when one of the lines `isFailure`
is printed, and no call takes back a line: whether the frames sufficed for a run
can be read off its final state.
-/

namespace OsProjects.Paging

/-- The lines `Part1` prints when `find_free_frame` returned -1. -/
def Message.isFailure : Message → Bool
  | .unableTable _ => true
  | .unablePage => true
  | _ => false

end OsProjects.Paging

namespace OsProjects.Paging.PartOne

open OsProjects.Lib OsProjects.Paging

section Printed

variable {s s' : State} {p : Pid} {a : Address}

theorem out_print (s : State) (m : Message) : s.out <+: (s.print m).out := ⟨[m], rfl⟩

theorem out_clearTable (f : Nat) (s : State) : (clearTable f s).out = s.out := by
  have hloop : ∀ (l : List Nat) (s : State), (l.foldl (fun s j =>
      s.setPage (.cell (f * pageSize + j))
        { s.cell (f * pageSize + j) with valid := false }) s).out = s.out := by
    intro l
    induction l with
    | nil => exact fun _ => rfl
    | cons j l ih => exact fun s => ih _
  exact hloop _ s

theorem initTable_out (p : Pid) (s : State) : s.out <+: (initTable p s).out := by
  unfold initTable
  cases findFreeFrame s with
  | none => exact out_print s _
  | some f =>
    refine ⟨[.putTable p f], ?_⟩
    show s.out ++ _ = (clearTable f _).out ++ _
    rw [out_clearTable]
    rfl

theorem mapEntry_out {w b : Bool} (h : mapEntry p a w s = some (b, s')) : s.out <+: s'.out := by
  unfold mapEntry at h
  cases hpage : findPage p a.page s with
  | none =>
    rw [hpage] at h
    cases h
  | some page =>
    simp only [hpage, Option.bind_eq_bind, Option.bind_some] at h
    split at h
    · cases h
      cases page <;> exact out_print s _
    · split at h
      · cases h
        exact out_print s _
      · cases h
        cases page <;> exact out_print s _

theorem mapPage_out {w b : Bool} (h : mapPage p a w s = some (b, s')) : s.out <+: s'.out := by
  unfold mapPage at h
  split at h
  · exact mapEntry_out h
  · have hinit := initTable_out p s
    dsimp only at h
    split at h
    · cases h
      exact hinit.trans (out_print _ _)
    · exact hinit.trans (mapEntry_out h)

theorem lookup_out {r : Option Ref} (h : lookup p a s = some (r, s')) : s.out <+: s'.out := by
  unfold lookup at h
  split at h
  · cases h
    exact out_print s _
  · cases hpage : findPage p a.page s with
    | none =>
      rw [hpage] at h
      cases h
    | some page =>
      simp only [hpage, Option.bind_eq_bind, Option.bind_some] at h
      split at h
      · cases h
        exact out_print s _
      · cases h
        exact List.prefix_rfl

theorem store_out {v : Byte} {b : Bool} (h : store p a v s = some (b, s')) :
    s.out <+: s'.out := by
  unfold store at h
  cases hlook : lookup p a s with
  | none =>
    rw [hlook] at h
    cases h
  | some r =>
    have hout := lookup_out hlook
    simp only [hlook, Option.bind_eq_bind, Option.bind_some] at h
    split at h
    · cases h
      exact hout
    · split at h <;>
      · cases h
        exact hout.trans (out_print _ _)

theorem load_out {v : Option Byte} (h : load p a s = some (v, s')) : s.out <+: s'.out := by
  unfold load at h
  cases hlook : lookup p a s with
  | none =>
    rw [hlook] at h
    cases h
  | some r =>
    have hout := lookup_out hlook
    simp only [hlook, Option.bind_eq_bind, Option.bind_some] at h
    split at h
    · cases h
      exact hout
    · cases h
      exact hout.trans (out_print _ _)

/-- No call takes back what is printed. -/
theorem exec_out {c : Cmd} {r : Result} (h : exec c s = some (r, s')) : s.out <+: s'.out := by
  cases c with
  | map p a w =>
    obtain ⟨⟨b, s₁⟩, heq, hr⟩ := Option.map_eq_some_iff.mp h
    cases hr
    exact mapPage_out heq
  | store p a v =>
    obtain ⟨⟨b, s₁⟩, heq, hr⟩ := Option.map_eq_some_iff.mp h
    cases hr
    exact store_out heq
  | load p a =>
    obtain ⟨⟨v, s₁⟩, heq, hr⟩ := Option.map_eq_some_iff.mp h
    cases hr
    exact load_out heq

end Printed

/-- `find_free_frame` has not returned -1 so far. -/
def State.FramesSufficed (s : State) : Prop := ∀ m ∈ s.out, m.isFailure = false

theorem State.not_framesSufficed {s : State} {m : Message}
    (hm : m.isFailure = true) : ¬ (s.print m).FramesSufficed := by
  intro h
  have := h m (List.mem_append_right _ (List.mem_singleton.mpr rfl))
  rw [hm] at this
  cases this

theorem framesSufficed_of_exec {s s' : State} {c : Cmd} {r : Result}
    (h : exec c s = some (r, s')) (hs' : s'.FramesSufficed) : s.FramesSufficed :=
  fun m hm => hs' m ((exec_out h).subset hm)

end OsProjects.Paging.PartOne
