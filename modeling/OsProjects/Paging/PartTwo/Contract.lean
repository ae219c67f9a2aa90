import OsProjects.Paging.PartTwo.Runs

/-!
# The contract of `find_free_frame`

`asks c s` lists the states in the middle of call `c`, made in state `s`, in which
`find_free_frame` is called: one definition for each function that calls it, along the
branches the function takes. The invariant holds in all of them, and with it the
allocator comes back with a frame nobody owns, next to the caller's own table, which has
not moved.
-/

namespace OsProjects.Paging.PartTwo

open OsProjects.Lib OsProjects.Paging

/-! ## Where frames are asked for -/

/-- In `check_backing_store`: when the slot is found, and in the `find_page` it calls. -/
def checkAsks (findPageAsks : State → List State) (pid : Pid) (pageNum : Int) (s : State) :
    List State :=
  match s.slotOf pid pageNum with
  | none => []
  | some i =>
    s :: match findFreeFrame pid s with
      | none => []
      | some (frame, s₁) =>
        if pageNum = -1 then [] else findPageAsks (s₁.fill frame (s₁.slot i).data)

/-- In `init_table`: in its `check_backing_store`, and when that finds no table. -/
def initTableAsks (pid : Pid) (s : State) : List State :=
  checkAsks (fun _ => []) pid (-1) s ++
    match checkTable pid s with
    | some (false, s₁) => [s₁]
    | _ => []

/-- In `find_page`. -/
def findPageAsks (pid : Pid) (s : State) : List State :=
  if (s.tab pid).valid then [] else initTableAsks pid s

/-- In `map_page`: in its `find_page`, in its `check_backing_store`, and when that finds
no page. -/
def mapPageAsks (pid : Pid) (address : Address) (s : State) : List State :=
  findPageAsks pid s ++
    match findPage pid address.page s with
    | none => []
    | some (page, s₁) =>
      if (s₁.page page).valid then []
      else checkAsks (findPageAsks pid) pid address.page s₁ ++
        match checkBackingStore pid address.page s₁ with
        | some (false, s₂) => [s₂]
        | _ => []

/-- In the lookup of `store` and `load`. -/
def lookupAsks (pid : Pid) (address : Address) (s : State) : List State :=
  (if (s.tab pid).valid then [] else checkAsks (findPageAsks pid) pid (-1) s) ++
    match tableReady pid s with
    | some (true, s₁) =>
      findPageAsks pid s₁ ++
        match findPage pid address.page s₁ with
        | none => []
        | some (page, s₂) =>
          if (s₂.page page).valid then [] else checkAsks (findPageAsks pid) pid address.page s₂
    | _ => []

/-- The states in which a call makes room. -/
def asks : Cmd → State → List State
  | .map p a _, s => mapPageAsks p a s
  | .store p a _, s => lookupAsks p a s
  | .load p a, s => lookupAsks p a s

/-! ## The invariant there -/

section Asks

variable {s s₁ : State} {pid : Pid}

/-- `check_backing_store` asks at most once, before it changes anything: making room
keeps the table that its `find_page` needs. -/
theorem checkAsks_eq (h : Inv s) {below : State → List State} {n : Int}
    (hbelow : n = -1 ∨ ((s.tab pid).valid = true ∧ below = findPageAsks pid))
    (hs₁ : s₁ ∈ checkAsks below pid n s) : s₁ = s := by
  unfold checkAsks at hs₁
  cases hi : s.slotOf pid n with
  | none =>
    rw [hi] at hs₁
    cases hs₁
  | some i =>
    obtain ⟨f, s₂, heq, hm, -, -⟩ := findFreeFrame_spec h pid
    simp only [hi, heq, List.mem_cons] at hs₁
    rcases hs₁ with hs₁ | hs₁
    · exact hs₁
    · exfalso
      rcases hbelow with hn | ⟨hp, rfl⟩
      · rw [if_pos hn] at hs₁
        cases hs₁
      · have htab : ((s₂.fill f (s₂.slot i).data).tab pid).valid = true := by
          show (s₂.tab pid).valid = true
          rw [(Moves.kept h hm).tab]
          exact hp
        rw [findPageAsks, if_pos htab] at hs₁
        split at hs₁ <;> cases hs₁

theorem findPageAsks_eq (h : Inv s) (hs₁ : s₁ ∈ findPageAsks pid s) : s₁ = s := by
  unfold findPageAsks at hs₁
  by_cases hp : (s.tab pid).valid = true
  · rw [if_pos hp] at hs₁
    cases hs₁
  · rw [if_neg hp, initTableAsks] at hs₁
    rcases List.mem_append.mp hs₁ with hs₁ | hs₁
    · exact checkAsks_eq h (.inl rfl) hs₁
    · obtain ⟨b, s₂, heq, -, -, -, hfalse⟩ := checkTable_spec h (by simpa using hp)
      rw [heq] at hs₁
      cases b with
      | true => cases hs₁
      | false => exact (List.mem_singleton.mp hs₁).trans (hfalse rfl).1

theorem mapPageAsks_inv (h : Inv s) {a : Address} (hs₁ : s₁ ∈ mapPageAsks pid a s) : Inv s₁ := by
  obtain ⟨s₂, hfind, hq, hp, -, -⟩ := findPage_spec h pid a.page
  unfold mapPageAsks at hs₁
  rw [hfind] at hs₁
  rcases List.mem_append.mp hs₁ with hs₁ | hs₁
  · rw [findPageAsks_eq h hs₁]
    exact h
  · -- the table is in memory from here on
    have heq : s₁ = s₂ := by
      simp only at hs₁
      split at hs₁
      · cases hs₁
      · rename_i hv
        have hout : (s₂.entry pid a.page).valid = false := Bool.eq_false_of_not_eq_true hv
        rcases List.mem_append.mp hs₁ with hs₁ | hs₁
        · exact checkAsks_eq hq.inv (.inr ⟨hp, rfl⟩) hs₁
        · obtain ⟨b, s₃, hcheck, -, -, -, -, hfalse⟩ :=
            checkBackingStore_spec hq.inv hp a.page_lt hout
          rw [hcheck] at hs₁
          cases b with
          | true => cases hs₁
          | false => exact (List.mem_singleton.mp hs₁).trans (hfalse rfl).1
    rw [heq]
    exact hq.inv

theorem lookupAsks_inv (h : Inv s) {a : Address} (hs₁ : s₁ ∈ lookupAsks pid a s) : Inv s₁ := by
  unfold lookupAsks at hs₁
  rcases List.mem_append.mp hs₁ with hs₁ | hs₁
  · split at hs₁
    · cases hs₁
    · rw [checkAsks_eq h (.inl rfl) hs₁]
      exact h
  · obtain ⟨b, s₂, hready, hq, -, htrue, -⟩ := tableReady_spec h pid
    rw [hready] at hs₁
    cases b with
    | false => cases hs₁
    | true =>
      have hp := htrue rfl
      obtain ⟨s₃, hfind, -, -, -, hsame⟩ := findPage_spec hq.inv pid a.page
      obtain rfl := hsame hp
      simp only [hfind] at hs₁
      have heq : s₁ = s₃ := by
        rcases List.mem_append.mp hs₁ with hs₁ | hs₁
        · exact findPageAsks_eq hq.inv hs₁
        · split at hs₁
          · cases hs₁
          · exact checkAsks_eq hq.inv (.inr ⟨hp, rfl⟩) hs₁
      rw [heq]
      exact hq.inv

theorem asks_inv (h : Inv s) {c : Cmd} (hs₁ : s₁ ∈ asks c s) : Inv s₁ := by
  cases c with
  | map p a w => exact mapPageAsks_inv h hs₁
  | store p a v => exact lookupAsks_inv h hs₁
  | load p a => exact lookupAsks_inv h hs₁

end Asks

/-! ## The contract -/

theorem eviction_contract (cs : List Cmd) (tr : History) (s : State)
    (hrun : calls cs = some (tr, s)) (c : Cmd) (s₁ : State) (hask : s₁ ∈ asks c s) :
    ∃ f s₂, findFreeFrame c.pid s₁ = some (f, s₂) ∧ f < pageFrames ∧
      frameAllocated s₂ f = none ∧ s₁.robin < pageFrames ∧ s₂.robin < pageFrames ∧
      ((s₁.tab c.pid).valid = true →
        s₂.tab c.pid = s₁.tab c.pid ∧ f ≠ (s₁.tab c.pid).frame ∧
        ∀ n page, n < pageSize → findPage c.pid n s₁ = some (page, s₁) →
          findPage c.pid n s₂ = some (page, s₂) ∧
          s₂.page page = { s₁.page page with valid := (s₂.page page).valid }) := by
  have h := asks_inv (inv_of_calls hrun) hask
  obtain ⟨f, s₂, heq, hm, hf, hfree⟩ := findFreeFrame_spec h c.pid
  have hk := Moves.kept h hm
  refine ⟨f, s₂, heq, hf, View.frameAllocated_none_iff.mpr hfree, h.robin_lt, hk.inv.robin_lt, ?_⟩
  intro hp
  have hp₂ : (s₂.tab c.pid).valid = true := by
    rw [hk.tab]
    exact hp
  refine ⟨hk.tab, ?_, ?_⟩
  · rw [← hk.tab]
    exact (Unowned.not_table hfree c.pid hp₂).symm
  · intro n page hn hfind
    obtain ⟨s₃, hfind₁, -, -, -, hsame⟩ := findPage_spec h c.pid n
    rw [hsame hp, hfind] at hfind₁
    cases hfind₁
    obtain ⟨s₄, hfind₂, -, -, -, hsame₂⟩ := findPage_spec hk.inv c.pid n
    rw [hsame₂ hp₂, hk.tab] at hfind₂
    refine ⟨hfind₂, ?_⟩
    have hentry := hk.entry hp n hn
    unfold State.entry at hentry
    rw [hk.tab] at hentry
    exact hentry

/-- The table of process 0 and three of its pages fill the memory when it maps a fourth:
`free_frame` finds `robin` at the table, skips it and evicts a page. -/
theorem eviction_contract_at_own_table :
    ∃ tr s s₁ f s₂, calls [.map 0 0 true, .map 0 16 true, .map 0 32 true] = some (tr, s) ∧
      s₁ ∈ asks (.map 0 48 true) s ∧ s₁.view.firstFree = none ∧
      (s₁.tab 0).valid = true ∧ (s₁.tab 0).frame.val = s₁.robin ∧
      findFreeFrame 0 s₁ = some (f, s₂) ∧ s₂.tab 0 = s₁.tab 0 ∧ f ≠ (s₁.tab 0).frame := by
  have heval : (calls [.map 0 0 true, .map 0 16 true, .map 0 32 true]).map (fun x =>
      (asks (.map 0 48 true) x.2).head?.map fun s₁ =>
        decide (s₁.view.firstFree = none ∧ (s₁.tab 0).valid = true ∧
          (s₁.tab 0).frame.val = s₁.robin)) = some (some true) := by decide +kernel
  obtain ⟨⟨tr, s⟩, hrun, hask⟩ := Option.map_eq_some_iff.mp heval
  obtain ⟨s₁, hhead, hfull⟩ := Option.map_eq_some_iff.mp hask
  obtain ⟨hfull, hp, hrobin⟩ := of_decide_eq_true hfull
  have hmem := List.mem_of_mem_head? hhead
  obtain ⟨f, s₂, heq, -, -, -, -, hown⟩ := eviction_contract _ tr s hrun (.map 0 48 true) s₁ hmem
  exact ⟨tr, s, s₁, f, s₂, hrun, hmem, hfull, hp, hrobin, heq, (hown hp).1, (hown hp).2.1⟩

end OsProjects.Paging.PartTwo
