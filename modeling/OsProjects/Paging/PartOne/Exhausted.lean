import OsProjects.Paging.PartOne.Protection

/-!
# `Part1` when the frames run out

`map_page` allocates twice for a process without a table, first the table and then the
page. If the second allocation fails the first one stays, so a failed call may cost a
frame: `failed_map_changes_nothing_iff` says when it does not. What was printed has no
influence on later calls (`withOut`), so a call that leaves the memory as it was is as
good as one that was not made.
-/

namespace OsProjects.Paging.PartOne

open OsProjects.Lib OsProjects.Paging

/-! ## The printed text is never read -/

/-- The same memory, with another text printed. -/
def State.withOut (s : State) (out : List Message) : State := { s with out := out }

section WithOut

variable (s : State) (out : List Message)

@[simp] theorem withOut_tab (p : Pid) : (s.withOut out).tab p = s.tab p := rfl

@[simp] theorem withOut_page (r : Ref) : (s.withOut out).page r = s.page r := by
  cases r <;> rfl

@[simp] theorem withOut_findFreeFrame : findFreeFrame (s.withOut out) = findFreeFrame s := rfl

@[simp] theorem withOut_findPage (p : Pid) (n : Nat) :
    findPage p n (s.withOut out) = findPage p n s := rfl

@[simp] theorem withOut_phys (r : Ref) (a : Address) : (s.withOut out).phys r a = s.phys r a := by
  rw [State.phys, withOut_page]
  rfl

@[simp] theorem withOut_print (m : Message) :
    (s.withOut out).print m = (s.print m).withOut (out ++ [m]) := rfl

@[simp] theorem withOut_setPage (r : Ref) (e : Page) :
    (s.withOut out).setPage r e = (s.setPage r e).withOut out := by
  cases r <;> rfl

@[simp] theorem withOut_clearTable (f : Nat) :
    clearTable f (s.withOut out) = (clearTable f s).withOut out :=
  List.foldl_hom (fun s : State => s.withOut out) fun _ _ => rfl

theorem initTable_withOut (p : Pid) :
    ∃ out', initTable p (s.withOut out) = (initTable p s).withOut out' := by
  unfold initTable
  rw [withOut_findFreeFrame]
  cases findFreeFrame s with
  | none => exact ⟨_, withOut_print ..⟩
  | some f =>
    simp only [withOut_setPage, withOut_clearTable, withOut_print]
    exact ⟨_, rfl⟩

end WithOut

section Calls

variable {s s' : State} {p : Pid} {a : Address}

theorem mapEntry_withOut {w b : Bool} (h : mapEntry p a w s = some (b, s'))
    (out : List Message) :
    ∃ out', mapEntry p a w (s.withOut out) = some (b, s'.withOut out') := by
  unfold mapEntry at h ⊢
  rw [withOut_findPage]
  cases hpage : findPage p a.page s with
  | none =>
    rw [hpage] at h
    cases h
  | some page =>
    simp only [hpage, Option.bind_eq_bind, Option.bind_some, withOut_page, withOut_findFreeFrame,
      withOut_print, withOut_setPage] at h ⊢
    by_cases hv : (s.page page).valid = true
    · rw [if_pos hv] at h ⊢
      cases h
      exact ⟨_, rfl⟩
    · rw [if_neg hv] at h ⊢
      cases hff : findFreeFrame s with
      | none | some f =>
        rw [hff] at h
        cases h
        exact ⟨_, rfl⟩

theorem mapPage_withOut {w b : Bool} (h : mapPage p a w s = some (b, s')) (out : List Message) :
    ∃ out', mapPage p a w (s.withOut out) = some (b, s'.withOut out') := by
  unfold mapPage at h ⊢
  rw [withOut_tab]
  by_cases hp : (s.tab p).valid = true
  · rw [if_pos hp] at h ⊢
    exact mapEntry_withOut h out
  · obtain ⟨out₁, hinit⟩ := initTable_withOut s out p
    simp only [if_neg hp, hinit, withOut_tab, withOut_print] at h ⊢
    by_cases hp' : (!((initTable p s).tab p).valid) = true
    · rw [if_pos hp'] at h ⊢
      cases h
      exact ⟨_, rfl⟩
    · rw [if_neg hp'] at h ⊢
      exact mapEntry_withOut h out₁

theorem lookup_withOut {r : Option Ref} (h : lookup p a s = some (r, s')) (out : List Message) :
    ∃ out', lookup p a (s.withOut out) = some (r, s'.withOut out') := by
  unfold lookup at h ⊢
  simp only [withOut_tab, withOut_findPage, withOut_page, withOut_print] at h ⊢
  by_cases hp : (!(s.tab p).valid) = true
  · rw [if_pos hp] at h ⊢
    cases h
    exact ⟨_, rfl⟩
  · rw [if_neg hp] at h ⊢
    cases hpage : findPage p a.page s with
    | none =>
      rw [hpage] at h
      cases h
    | some page =>
      simp only [hpage, Option.bind_eq_bind, Option.bind_some] at h ⊢
      by_cases hv : (!(s.page page).valid) = true
      · rw [if_pos hv] at h ⊢
        cases h
        exact ⟨_, rfl⟩
      · rw [if_neg hv] at h ⊢
        cases h
        exact ⟨_, rfl⟩

/-- A call makes no use of what was printed. -/
theorem exec_withOut {c : Cmd} {r : Result} (h : exec c s = some (r, s')) (out : List Message) :
    ∃ out', exec c (s.withOut out) = some (r, s'.withOut out') := by
  cases c with
  | map p a w =>
    obtain ⟨⟨b, s₁⟩, h₁, heq⟩ := Option.map_eq_some_iff.mp h
    cases heq
    obtain ⟨out', h'⟩ := mapPage_withOut h₁ out
    exact ⟨out', by rw [exec, h']; rfl⟩
  | store p a v =>
    obtain ⟨⟨b, s₁⟩, h₁, heq⟩ := Option.map_eq_some_iff.mp h
    cases heq
    obtain ⟨⟨entry, s₂⟩, hlook, h₁⟩ := Option.bind_eq_some_iff.mp h₁
    obtain ⟨out₂, hlook'⟩ := lookup_withOut hlook out
    rw [exec, store, hlook']
    cases entry with
    | none =>
      cases h₁
      exact ⟨_, rfl⟩
    | some page =>
      simp only [Option.bind_eq_bind, Option.bind_some, withOut_page] at h₁ ⊢
      by_cases hw : (!(s₂.page page).write) = true
      · rw [if_pos hw] at h₁ ⊢
        cases h₁
        exact ⟨_, rfl⟩
      · rw [if_neg hw] at h₁ ⊢
        cases h₁
        rw [withOut_phys]
        exact ⟨_, rfl⟩
  | load p a =>
    obtain ⟨⟨v, s₁⟩, h₁, heq⟩ := Option.map_eq_some_iff.mp h
    cases heq
    obtain ⟨⟨entry, s₂⟩, hlook, h₁⟩ := Option.bind_eq_some_iff.mp h₁
    obtain ⟨out₂, hlook'⟩ := lookup_withOut hlook out
    rw [exec, load, hlook']
    cases entry with
    | none | some page =>
      cases h₁
      exact ⟨_, rfl⟩

/-- From a state with the same memory, later calls are answered alike. -/
theorem run_withOut {cs : List Cmd} {tr : History} {t : State} (h : run exec cs s = some (tr, t))
    (out : List Message) : ∃ t', run exec cs (s.withOut out) = some (tr, t') := by
  have hstep : ∀ s t c r s', (∃ out, t = State.withOut s out) → exec c s = some (r, s') →
      ∃ t', exec c t = some (r, t') ∧ ∃ out, t' = s'.withOut out := by
    rintro s _ c r s' ⟨out, rfl⟩ he
    obtain ⟨out', he'⟩ := exec_withOut he out
    exact ⟨_, he', out', rfl⟩
  obtain ⟨t', ht', -⟩ := run_follows hstep ⟨out, rfl⟩ cs tr t h
  exact ⟨t', ht'⟩

end Calls

/-! ## Failed calls -/

section Failing

variable {s s' : State} {p : Pid} {a : Address} {w : Bool}

/-- A process that has a table, or gets none: nothing but a line or two is printed. -/
theorem mapPage_fails_clean (hnew : s.content p a.page = none)
    (hcall : mapPage p a w s = some (false, s'))
    (hclean : (s.tab p).valid = true ∨ findFreeFrame s = none) : ∃ out, s' = s.withOut out := by
  unfold mapPage at hcall
  by_cases hp : (s.tab p).valid = true
  · have hout : ¬ (s.page (.cell ((s.tab p).frame * pageSize + a.page))).valid = true := by
      intro hv
      rw [State.content_eq_some hp hv] at hnew
      cases hnew
    unfold mapEntry findPage at hcall
    simp only [if_pos hp, Option.bind_eq_bind, Option.bind_some, if_neg hout] at hcall
    cases hff : findFreeFrame s with
    | none =>
      rw [hff] at hcall
      cases hcall
      exact ⟨_, rfl⟩
    | some f =>
      rw [hff] at hcall
      cases hcall
  · have hnone := hclean.resolve_left hp
    have hinit : initTable p s = s.print (.unableTable p) := by
      unfold initTable
      rw [hnone]
    have hp' : (!((initTable p s).tab p).valid) = true := by
      rw [hinit]
      show (!(s.tab p).valid) = true
      simpa using hp
    simp only [if_neg hp, if_pos hp'] at hcall
    cases hcall
    rw [hinit]
    exact ⟨_, rfl⟩

/-- With the table there, `map_page` writes to `mainMemory` only. -/
theorem mapEntry_procTable {b : Bool} (hcall : mapEntry p a w s = some (b, s')) :
    s'.procTable = s.procTable := by
  unfold mapEntry findPage at hcall
  by_cases hp : (s.tab p).valid = true
  · simp only [if_pos hp, Option.bind_eq_bind, Option.bind_some] at hcall
    split at hcall
    · cases hcall
      rfl
    · cases hff : findFreeFrame s with
      | none | some f =>
        rw [hff] at hcall
        cases hcall
        rfl
  · rw [if_neg hp] at hcall
    cases hcall

/-- A process without a table is given the free frame for one, whatever becomes of the
page. -/
theorem mapPage_keeps_table {b : Bool} (h : Inv s) (hcall : mapPage p a w s = some (b, s'))
    (hp : ¬ (s.tab p).valid = true) {f : Nat} (hff : findFreeFrame s = some f) :
    (s'.tab p).valid = true := by
  have hinit := initTable_free h p (findFreeFrame_eq s ▸ hff)
  have htab : ((initTable p s).tab p).valid = true := by
    rw [hinit]
    show ((s.setPage (.proc p) _).tab p).valid = true
    rw [State.tab, State.setPage, Cells.get_set_eq _ _ p.isLt]
  have hp' : ¬ (!((initTable p s).tab p).valid) = true := by
    rw [htab]
    decide
  unfold mapPage at hcall
  simp only [if_neg hp, if_neg hp'] at hcall
  rw [State.tab, mapEntry_procTable hcall]
  exact htab

end Failing

/-- A `map_page` that fails for lack of a frame leaves `procTable` and `mainMemory` as they
were, and with them the answers of all later calls, exactly if the process has a table or
no frame is free at all. -/
theorem failed_map_changes_nothing_iff (cs : List Cmd) (tr : History) (s : State)
    (hrun : calls cs = some (tr, s)) (p : Pid) (a : Address) (w : Bool) (r : Result) (s' : State)
    (hcall : exec (.map p a w) s = some (r, s')) (hnew : s.content p a.page = none)
    (hfail : r.ret = false) :
    (s'.procTable = s.procTable ∧ s'.mainMemory = s.mainMemory ∧
      ∀ cs' tr' t, run exec cs' s = some (tr', t) →
        ∃ t', run exec cs' s' = some (tr', t')) ↔
    ((s.tab p).valid = true ∨ findFreeFrame s = none) := by
  obtain ⟨⟨b, s₁⟩, hmap, heq⟩ := Option.map_eq_some_iff.mp hcall
  cases heq
  cases hfail
  constructor
  · rintro ⟨hsame, -⟩
    by_contra hno
    push Not at hno
    obtain ⟨f, hff⟩ := Option.ne_none_iff_exists'.mp hno.2
    obtain ⟨tr₁, s₂, hrun₁, htr⟩ := calls_tracks cs
    cases hrun.symm.trans hrun₁
    have htab := mapPage_keeps_table htr.inv hmap hno.1 hff
    rw [State.tab, hsame] at htab
    exact hno.1 htab
  · intro hclean
    obtain ⟨out, rfl⟩ := mapPage_fails_clean hnew hmap hclean
    exact ⟨rfl, rfl, fun cs' tr' t ht => run_withOut ht out⟩

/-- Process 0 fills the memory and asks for one more page. -/
theorem failed_map_changes_nothing_iff_full :
    ∃ tr s r s', calls [.map 0 0 true, .map 0 16 true, .map 0 32 true] = some (tr, s) ∧
      exec (.map 0 48 true) s = some (r, s') ∧ r.ret = false ∧
      s'.procTable = s.procTable ∧ s'.mainMemory = s.mainMemory := by
  obtain ⟨tr, s, r, s', hrun, hcall, hp, hnew, hfail⟩ := exists_of_eval exec
    [.map 0 0 true, .map 0 16 true, .map 0 32 true] (.map 0 48 true) State.init
    (fun _ s r _ => (s.tab 0).valid = true ∧ s.content 0 3 = none ∧ r.ret = false)
    (by decide +kernel)
  obtain ⟨htable, hmemory, -⟩ := (failed_map_changes_nothing_iff _ tr s hrun 0 48 true r s' hcall
    hnew hfail).mpr (.inl hp)
  exact ⟨tr, s, r, s', hrun, hcall, hfail, htable, hmemory⟩

/-- One frame is left, and process 1 has no table: its `map_page` fails but keeps the
frame, so that the next `map_page` of process 0 fails as well. -/
theorem failed_map_keeps_a_frame :
    ∃ tr s r s', calls [.map 0 0 true, .map 0 16 true] = some (tr, s) ∧
      exec (.map 1 0 true) s = some (r, s') ∧ s.content 1 0 = none ∧ r.ret = false ∧
      (s.tab 1).valid = false ∧ (s'.tab 1).valid = true ∧
      (exec (.map 0 32 true) s).map (fun x => x.1.ret) = some true ∧
      (exec (.map 0 32 true) s').map (fun x => x.1.ret) = some false :=
  exists_of_eval exec [.map 0 0 true, .map 0 16 true] (.map 1 0 true) State.init
    (fun _ s r s' => s.content 1 0 = none ∧ r.ret = false ∧ (s.tab 1).valid = false ∧
      (s'.tab 1).valid = true ∧ (exec (.map 0 32 true) s).map (fun x => x.1.ret) = some true ∧
      (exec (.map 0 32 true) s').map (fun x => x.1.ret) = some false) (by decide +kernel)

end OsProjects.Paging.PartOne
