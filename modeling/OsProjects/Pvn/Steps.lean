import OsProjects.Pvn.Model

/-!
# What a step changes

`Frame` says once, for every place a thread may be at, which parts of the state
its step leaves alone, and where the thread is afterwards (`Frame.succ`). The
invariants are derived from it and from the few steps that do change the part they
speak about.
-/

namespace OsProjects.Pvn

open OsProjects.Lib

/-! ## Classes of steps -/

namespace Pc

/-- Where a thread goes from here. -/
def succ : Pc → List Pc
  | .arriving => [.queueing]
  | .queueing => [.postSelf, .unlockArrival]
  | .postSelf => [.unlockArrival]
  | .unlockArrival => [.waitTurn]
  | .waitTurn => [.askDept]
  | .askDept => [.testing]
  | .testing => [.lockQueue, .turnedAway]
  | .turnedAway => [.waitAgain]
  | .waitAgain => [.askDept]
  | .lockQueue => [.dequeueing]
  | .dequeueing => [.postNext]
  | .postNext => [.entering]
  | .entering => [.unlockQueue]
  | .unlockQueue => [.unlockDept]
  | .unlockDept => [.costuming]
  | .costuming => [.leaving]
  | .leaving => [.lockOwner]
  | .lockOwner => [.wakeHead]
  | .wakeHead => [.unlockOwner]
  | .unlockOwner => [.unlockLeft]
  | .unlockLeft => [.tossing]
  | .tossing => [.arriving, .askCount]
  | .askCount => [.counting]
  | .counting => [.unlockCount]
  | .unlockCount => [.done]
  | .done => []

/-- The step changes a queue. -/
def editsQueue : Pc → Bool
  | .queueing | .dequeueing => true
  | _ => false

/-- The step changes somebody's own semaphore. -/
def editsTokens : Pc → Bool
  | .postSelf | .waitTurn | .waitAgain | .postNext | .wakeHead => true
  | _ => false

/-- The step changes the alignment or a chair. -/
def editsDept : Pc → Bool
  | .entering | .leaving => true
  | _ => false

/-- The step waits on or posts `dept.sem`. -/
def usesDeptSem : Pc → Bool
  | .askDept | .costuming | .turnedAway | .unlockDept | .unlockLeft => true
  | _ => false

end Pc

variable {H : Type}

/-- What the code at `place` leaves alone, apart from moving its thread. -/
structure Part (place : Pc) (s s' : State H) : Prop where
  pc : s'.pc = s.pc
  willReturn : s'.willReturn = s.willReturn
  queue : place.editsQueue = false → s'.queue = s.queue ∧ s'.next = s.next
  sem : place.editsTokens = false → s'.sem = s.sem
  dept : place.editsDept = false →
    s'.dept.alignment = s.dept.alignment ∧ s'.dept.chairs = s.dept.chairs
  deptSem : place.usesDeptSem = false → s'.dept.sem = s.dept.sem
  visitsLeft : place ≠ .counting → s'.visitsLeft = s.visitsLeft
  aborted : place ≠ .entering → s'.aborted = s.aborted

/-- What the step of `h` at `place` leaves alone. -/
structure Frame (h : H) (place : Pc) (s s' : State H) : Prop where
  succ : s'.aborted = true ∨ s'.pc h ∈ place.succ
  others : ∀ g, g ≠ h → s'.pc g = s.pc g
  willReturn : ∀ g, s'.willReturn g = 0
  queue : place.editsQueue = false → s'.queue = s.queue ∧ s'.next = s.next
  sem : place.editsTokens = false → s'.sem = s.sem
  dept : place.editsDept = false →
    s'.dept.alignment = s.dept.alignment ∧ s'.dept.chairs = s.dept.chairs
  deptSem : place.usesDeptSem = false → s'.dept.sem = s.dept.sem
  visitsLeft : place ≠ .counting → s'.visitsLeft = s.visitsLeft
  aborted : place ≠ .entering → s'.aborted = s.aborted

/-! ## The change of hands -/

section Swap

variable {c : Setup H} {h : H} {s s' : State H}

/-- The swap test leaves the alignment, or hands over to the other team, whose
queue is not empty. -/
def SwapStart (c : Setup H) (h : H) (s : State H) (a : Alignment) : Prop :=
  a = s.dept.alignment ∨ ∃ t, s.dept.alignment = .team t ∧ a = .toTeam t.other ∧
    s.queue (c.team h).other ≠ none

/-- A change of hands from `a` ends exactly when all chairs are empty. -/
def SwapEnd (d : Department H) (a a' : Alignment) : Prop :=
  a' = a ∧ (∀ t, a = .toTeam t → allEmpty d = false) ∨
    ∃ t, a = .toTeam t ∧ allEmpty d = true ∧ a' = .team t

theorem align_self (s : State H) : s.align s.dept.alignment = s := rfl

theorem seat_alignment (d : Department H) (h : H) (visitTime now : Int) :
    (d.seat h visitTime now).alignment = d.alignment := by
  unfold Department.seat
  cases (List.finRange 4).find? d.empty <;> rfl

theorem seat_sem (d : Department H) (h : H) (visitTime now : Int) :
    (d.seat h visitTime now).sem = d.sem := by
  unfold Department.seat
  cases (List.finRange 4).find? d.empty <;> rfl

theorem endSwap_spec (s : State H) :
    ∃ a, endSwap s = s.align a ∧ SwapEnd s.dept s.dept.alignment a := by
  cases ha : s.dept.alignment with
  | team t =>
    refine ⟨.team t, ?_, .inl ⟨rfl, nofun⟩⟩
    simp only [endSwap, ha]
    rw [← ha, align_self]
  | toTeam t =>
    cases he : allEmpty s.dept with
    | true => exact ⟨.team t, by simp only [endSwap, ha, he, if_true], .inr ⟨t, rfl, he, rfl⟩⟩
    | false =>
      refine ⟨.toTeam t, ?_, .inl ⟨rfl, fun _ _ => he⟩⟩
      simp only [endSwap, ha, he, Bool.false_eq_true, if_false]
      rw [← ha, align_self]

variable [Fintype H]

/-- `queue_count` comes back, with the length of a queue that ends. -/
theorem queueCount_of_linked {t : Team} {l : List H} (hl : Linked s.next (s.queue t) l) :
    queueCount s t = some l.length := by
  have hlen := hl.length_le
  unfold queueCount
  cases hhead : s.queue t with
  | none =>
    rw [hhead, Linked.nil_iff] at hl
    rw [hl]
    rfl
  | some g =>
    rw [hhead] at hl
    obtain ⟨rest, rfl, hrest⟩ := hl.of_head
    rw [List.length_cons] at hlen ⊢
    simp only [hl.countFrom_eq hlen 1, Nat.add_comm]

theorem startSwap_spec {now : Int} (hs : startSwap c h now s = some s') :
    ∃ a, s' = s.align a ∧ SwapStart c h s a := by
  obtain ⟨due, hdue, hs⟩ := Option.bind_eq_some_iff.mp hs
  cases ha : s.dept.alignment with
  | toTeam t =>
    simp only [ha, Option.some.injEq] at hs
    exact ⟨s.dept.alignment, hs.symm, .inl rfl⟩
  | team t =>
    simp only [ha, Option.some.injEq] at hs
    cases due with
    | false => exact ⟨s.dept.alignment, hs.symm, .inl rfl⟩
    | true =>
      refine ⟨.toTeam t.other, hs.symm, .inr ⟨t, ha, rfl, ?_⟩⟩
      intro hnone
      simp only [swapDue, ha, hnone, Option.some.injEq, Bool.false_eq_true] at hdue

variable [DecidableEq H] {l : Label H}

theorem enterDepartment_spec (hs : enterDepartment c h l s = some s') :
    (fight c h (sit h l s) = true ∧ s' = { sit h l s with aborted := true }) ∨
      (fight c h (sit h l s) = false ∧ ∃ a, s' = (sit h l s).align a ∧ SwapStart c h s a) := by
  unfold enterDepartment at hs
  cases hf : fight c h (sit h l s) with
  | true =>
    simp only [hf, if_true, Option.some.injEq] at hs
    exact .inl ⟨rfl, hs.symm⟩
  | false =>
    simp only [hf, Bool.false_eq_true, if_false] at hs
    obtain ⟨a, rfl, ha⟩ := startSwap_spec hs
    refine .inr ⟨rfl, a, rfl, ?_⟩
    have halign : (sit h l s).dept.alignment = s.dept.alignment := seat_alignment ..
    unfold SwapStart at ha ⊢
    rw [halign] at ha
    exact ha

theorem leaveDepartment_spec (hs : leaveDepartment c h l s = some s') :
    ∃ a₁ a, s' = { s with dept := s.dept.stand h }.align a ∧ SwapStart c h s a₁ ∧
      SwapEnd (s.dept.stand h) a₁ a := by
  obtain ⟨s₁, h₁, rfl⟩ := Option.map_eq_some_iff.mp hs
  obtain ⟨a₁, rfl, ha₁⟩ := startSwap_spec h₁
  obtain ⟨a, heq, ha⟩ := endSwap_spec (({ s with dept := s.dept.stand h } : State H).align a₁)
  exact ⟨a₁, a, heq, ha₁, ha⟩

end Swap

/-! ## Frames -/

section Frames

variable {h : H} {place : Pc} {s s' : State H}

/-- Operations on the locks of the queues and of the count. -/
theorem Part.locks (place : Pc) (s : State H) (q : Team → Nat) (v : Nat) :
    Part place s { s with queueSem := q, vCountSem := v } :=
  ⟨rfl, rfl, fun _ => ⟨rfl, rfl⟩, fun _ => rfl, fun _ => ⟨rfl, rfl⟩, fun _ => rfl, fun _ => rfl,
    fun _ => rfl⟩

/-- Operations on the lock of the department. -/
theorem Part.deptLock (s : State H) (d : Nat) (huse : place.usesDeptSem = true) :
    Part place s { s with dept := { s.dept with sem := d } } :=
  ⟨rfl, rfl, fun _ => ⟨rfl, rfl⟩, fun _ => rfl, fun _ => ⟨rfl, rfl⟩,
    fun hno => absurd huse (by rw [hno]; decide), fun _ => rfl, fun _ => rfl⟩

/-- Operations on the humans' own semaphores. -/
theorem Part.tokens (s : State H) (sem : H → Nat) (htok : place.editsTokens = true) :
    Part place s { s with sem := sem } :=
  ⟨rfl, rfl, fun _ => ⟨rfl, rfl⟩, fun hno => absurd htok (by rw [hno]; decide),
    fun _ => ⟨rfl, rfl⟩, fun _ => rfl, fun _ => rfl, fun _ => rfl⟩

theorem Part.refl (place : Pc) (s : State H) : Part place s s := Part.locks place s _ _

theorem waitDept_part (hw : s.waitDept = some s') (huse : place.usesDeptSem = true) :
    Part place s s' := by
  obtain ⟨v, -, rfl⟩ := Option.map_eq_some_iff.mp hw
  exact Part.deptLock s _ huse

theorem waitCount_part (hw : s.waitCount = some s') : Part place s s' := by
  obtain ⟨v, -, rfl⟩ := Option.map_eq_some_iff.mp hw
  exact Part.locks place s _ _

theorem waitQueue_part {t : Team} (hw : s.waitQueue t = some s') : Part place s s' := by
  obtain ⟨v, -, rfl⟩ := Option.map_eq_some_iff.mp hw
  exact Part.locks place s _ _

variable [DecidableEq H]

theorem waitSelf_part (hw : s.waitSelf h = some s') (htok : place.editsTokens = true) :
    Part place s s' := by
  obtain ⟨v, -, rfl⟩ := Option.map_eq_some_iff.mp hw
  exact Part.tokens s _ htok

theorem wake_part (t : Team) (s : State H) (htok : place.editsTokens = true) :
    Part place s (s.wake t) := by
  unfold State.wake
  cases s.queue t with
  | none => exact Part.refl place s
  | some g => exact Part.tokens s _ htok

theorem dequeueHuman_part (t : Team) (s : State H) : Part .dequeueing s (dequeueHuman t s) := by
  unfold dequeueHuman
  cases s.queue t with
  | none => exact Part.refl _ s
  | some g =>
    exact ⟨rfl, rfl, nofun, fun _ => rfl, fun _ => ⟨rfl, rfl⟩, fun _ => rfl, fun _ => rfl,
      fun _ => rfl⟩

@[simp] theorem goto_pc_self (s : State H) (h : H) (pc : Pc) : (s.goto h pc).pc h = pc :=
  Function.update_self ..

theorem goto_pc_ne (s : State H) {h g : H} (pc : Pc) (hg : g ≠ h) :
    (s.goto h pc).pc g = s.pc g := Function.update_of_ne hg ..

/-- A won coin starts the next round. -/
theorem loop_again (h : H) (s : State H) :
    State.loop h { s with willReturn := Function.update s.willReturn h (s.willReturn h + 1) } =
      s.goto h .arriving := by
  simp [State.loop, State.goto]

theorem loop_done (hr : s.willReturn h = 0) : s.loop h = s.goto h .done := if_pos hr

theorem Part.goto {pc : Pc} (hp : Part place s s') (hr : ∀ g, s.willReturn g = 0)
    (hpc : pc ∈ place.succ) : Frame h place s (s'.goto h pc) where
  succ := .inr (by rw [goto_pc_self]; exact hpc)
  others g hg := by rw [goto_pc_ne _ _ hg, hp.pc]
  willReturn g := by
    show s'.willReturn g = 0
    rw [hp.willReturn]
    exact hr g
  queue := hp.queue
  sem := hp.sem
  dept := hp.dept
  deptSem := hp.deptSem
  visitsLeft := hp.visitsLeft
  aborted := hp.aborted

omit [DecidableEq H] in
/-- A class of places that the step stays in, or stays out of, has the same members
afterwards. -/
theorem Frame.same (hf : Frame h place s s') (hplace : s.pc h = place) {f : Pc → Bool}
    (hsame : f (s'.pc h) = f place) (g : H) : f (s'.pc g) = f (s.pc g) := by
  by_cases hg : g = h
  · subst hg
    rw [hsame, hplace]
  · rw [hf.others g hg]

variable [Fintype H] {c : Setup H} {l : Label H}

theorem queueHuman_part {now : Int} (hq : queueHuman c h now s = some s') :
    Part .queueing s s' := by
  unfold queueHuman at hq
  dsimp only at hq
  cases hhead : s.queue (c.team h) with
  | none =>
    simp only [hhead, Option.some.injEq] at hq
    subst hq
    exact ⟨rfl, rfl, nofun, fun _ => rfl, fun _ => ⟨rfl, rfl⟩, fun _ => rfl, fun _ => rfl,
      fun _ => rfl⟩
  | some x =>
    simp only [hhead] at hq
    obtain ⟨cur, -, hq⟩ := Option.bind_eq_some_iff.mp hq
    cases hq
    exact ⟨rfl, rfl, nofun, fun _ => rfl, fun _ => ⟨rfl, rfl⟩, fun _ => rfl, fun _ => rfl,
      fun _ => rfl⟩

theorem enterDepartment_part (hs : enterDepartment c h l s = some s') :
    Part .entering s s' := by
  rcases enterDepartment_spec hs with ⟨-, rfl⟩ | ⟨-, a, rfl, -⟩ <;>
  exact ⟨rfl, rfl, fun _ => ⟨rfl, rfl⟩, fun _ => rfl, nofun, fun _ => seat_sem .., fun _ => rfl,
    fun hne => absurd rfl hne⟩

theorem leaveDepartment_part (hs : leaveDepartment c h l s = some s') :
    Part .leaving s s' := by
  obtain ⟨_, a, rfl, -⟩ := leaveDepartment_spec hs
  exact ⟨rfl, rfl, fun _ => ⟨rfl, rfl⟩, fun _ => rfl, nofun, fun _ => rfl, fun _ => rfl,
    fun _ => rfl⟩

/-- The step of a thread at `place`. -/
theorem act_frame (hr : ∀ g, s.willReturn g = 0) (hact : act c l s place = some s') :
    Frame l.who place s s' := by
  cases place with
  | arriving =>
    obtain ⟨s₁, h₁, rfl⟩ := Option.map_eq_some_iff.mp hact
    exact (waitQueue_part h₁).goto hr (by simp [Pc.succ])
  | queueing =>
    obtain ⟨s₁, h₁, rfl⟩ := Option.map_eq_some_iff.mp hact
    refine (queueHuman_part h₁).goto hr ?_
    split <;> simp [Pc.succ]
  | postSelf =>
    cases hact
    exact (Part.tokens s _ rfl).goto hr (by simp [Pc.succ])
  | unlockArrival =>
    cases hact
    exact (Part.locks _ s _ _).goto hr (by simp [Pc.succ])
  | waitTurn =>
    obtain ⟨s₁, h₁, rfl⟩ := Option.map_eq_some_iff.mp hact
    exact (waitSelf_part h₁ rfl).goto hr (by simp [Pc.succ])
  | askDept =>
    obtain ⟨s₁, h₁, rfl⟩ := Option.map_eq_some_iff.mp hact
    exact (waitDept_part h₁ rfl).goto hr (by simp [Pc.succ])
  | testing =>
    cases hact
    refine (Part.refl _ s).goto hr ?_
    split <;> simp [Pc.succ]
  | turnedAway =>
    cases hact
    exact (Part.deptLock s _ rfl).goto hr (by simp [Pc.succ])
  | waitAgain =>
    obtain ⟨s₁, h₁, rfl⟩ := Option.map_eq_some_iff.mp hact
    exact (waitSelf_part h₁ rfl).goto hr (by simp [Pc.succ])
  | lockQueue =>
    obtain ⟨s₁, h₁, rfl⟩ := Option.map_eq_some_iff.mp hact
    exact (waitQueue_part h₁).goto hr (by simp [Pc.succ])
  | dequeueing =>
    cases hact
    exact (dequeueHuman_part _ s).goto hr (by simp [Pc.succ])
  | postNext =>
    cases hact
    exact (wake_part _ s rfl).goto hr (by simp [Pc.succ])
  | entering =>
    obtain ⟨s₁, h₁, rfl⟩ := Option.map_eq_some_iff.mp hact
    have hp : Part .entering s s₁ := enterDepartment_part h₁
    by_cases hab : s₁.aborted = true
    · rw [if_pos hab]
      refine ⟨.inl hab, fun g _ => by rw [hp.pc], fun g => ?_, hp.queue, hp.sem, hp.dept,
        hp.deptSem, hp.visitsLeft, hp.aborted⟩
      rw [hp.willReturn]
      exact hr g
    · rw [if_neg hab]
      exact hp.goto hr (by simp [Pc.succ])
  | unlockQueue =>
    cases hact
    exact (Part.locks _ s _ _).goto hr (by simp [Pc.succ])
  | unlockDept =>
    cases hact
    exact (Part.deptLock s _ rfl).goto hr (by simp [Pc.succ])
  | costuming =>
    obtain ⟨s₁, h₁, rfl⟩ := Option.map_eq_some_iff.mp hact
    exact (waitDept_part h₁ rfl).goto hr (by simp [Pc.succ])
  | leaving =>
    obtain ⟨s₁, h₁, rfl⟩ := Option.map_eq_some_iff.mp hact
    exact (leaveDepartment_part h₁).goto hr (by simp [Pc.succ])
  | lockOwner =>
    obtain ⟨s₁, h₁, rfl⟩ := Option.map_eq_some_iff.mp hact
    exact (waitQueue_part h₁).goto hr (by simp [Pc.succ])
  | wakeHead =>
    cases hact
    exact (wake_part _ s rfl).goto hr (by simp [Pc.succ])
  | unlockOwner =>
    cases hact
    exact (Part.locks _ s _ _).goto hr (by simp [Pc.succ])
  | unlockLeft =>
    cases hact
    exact (Part.deptLock s _ rfl).goto hr (by simp [Pc.succ])
  | tossing =>
    cases hact
    cases l.returns with
    | true =>
      rw [if_pos rfl, loop_again]
      exact (Part.refl _ s).goto hr (by simp [Pc.succ])
    | false => exact (Part.refl _ s).goto hr (by simp [Pc.succ])
  | askCount =>
    obtain ⟨s₁, h₁, rfl⟩ := Option.map_eq_some_iff.mp hact
    exact (waitCount_part h₁).goto hr (by simp [Pc.succ])
  | counting =>
    cases hact
    exact Part.goto ⟨rfl, rfl, fun _ => ⟨rfl, rfl⟩, fun _ => rfl, fun _ => ⟨rfl, rfl⟩,
      fun _ => rfl, fun hne => absurd rfl hne, fun _ => rfl⟩ hr (by simp [Pc.succ])
  | unlockCount =>
    cases hact
    rw [loop_done (s := s.postCount) (hr l.who)]
    exact (Part.locks _ s _ _).goto hr (by simp [Pc.succ])
  | done => cases hact

/-- The token count of `g` after the step of `l.who` at `place`. -/
def tokens (c : Setup H) (l : Label H) (s : State H) (g : H) : Pc → Nat
  | .postSelf => if g = l.who then s.sem g + 1 else s.sem g
  | .waitTurn | .waitAgain => if g = l.who then s.sem g - 1 else s.sem g
  | .postNext => if s.queue (c.team l.who) = some g then s.sem g + 1 else s.sem g
  | .wakeHead => if s.queue s.dept.alignment.teamAlignment = some g then s.sem g + 1 else s.sem g
  | _ => s.sem g

omit [Fintype H] in
theorem wake_sem (t : Team) (s : State H) (g : H) :
    (s.wake t).sem g = if s.queue t = some g then s.sem g + 1 else s.sem g := by
  unfold State.wake
  cases s.queue t with
  | none => rfl
  | some x =>
    by_cases hg : g = x
    · subst hg
      rw [if_pos rfl]
      exact Function.update_self ..
    · rw [if_neg (fun heq => hg (Option.some.inj heq).symm)]
      exact Function.update_of_ne hg ..

omit [Fintype H] in
theorem waitSelf_sem (hw : s.waitSelf h = some s') :
    0 < s.sem h ∧ ∀ g, s'.sem g = if g = h then s.sem g - 1 else s.sem g := by
  obtain ⟨v, hv, rfl⟩ := Option.map_eq_some_iff.mp hw
  obtain ⟨hpos, rfl⟩ := semWait_eq_some.mp hv
  refine ⟨hpos, fun g => ?_⟩
  by_cases hg : g = h
  · subst hg
    rw [if_pos rfl]
    exact Function.update_self ..
  · rw [if_neg hg]
    exact Function.update_of_ne hg ..

theorem act_sem (hr : ∀ g, s.willReturn g = 0) (hact : act c l s place = some s') (g : H) :
    s'.sem g = tokens c l s g place := by
  cases htok : place.editsTokens with
  | false =>
    rw [(act_frame hr hact).sem htok]
    cases place <;> first | rfl | cases htok
  | true =>
    cases place with
    | postSelf =>
      cases hact
      by_cases hg : g = l.who
      · subst hg
        exact (Function.update_self ..).trans (if_pos rfl).symm
      · exact (Function.update_of_ne hg ..).trans (if_neg hg).symm
    | waitTurn | waitAgain =>
      obtain ⟨s₁, h₁, rfl⟩ := Option.map_eq_some_iff.mp hact
      exact (waitSelf_sem h₁).2 g
    | postNext | wakeHead =>
      cases hact
      exact wake_sem ..
    | _ => cases htok

omit [Fintype H] in
/-- A token is an old one, or was posted to oneself or to the head of a queue. -/
theorem tokens_pos {g : H} (hpos : 0 < tokens c l s g place) :
    0 < s.sem g ∨ place = .postSelf ∧ g = l.who ∨ ∃ t, s.queue t = some g := by
  unfold tokens at hpos
  split at hpos <;> try split at hpos
  · exact .inr (.inl ⟨rfl, ‹_›⟩)
  · exact .inl hpos
  · exact .inl (by omega)
  · exact .inl hpos
  · exact .inl (by omega)
  · exact .inl hpos
  · exact .inr (.inr ⟨_, ‹_›⟩)
  · exact .inl hpos
  · exact .inr (.inr ⟨_, ‹_›⟩)
  · exact .inl hpos
  · exact .inl hpos

omit [Fintype H] in
/-- Nobody takes somebody else's token. -/
theorem le_tokens {g : H} (hg : g ≠ l.who) : s.sem g ≤ tokens c l s g place := by
  unfold tokens
  split <;> try split
  all_goals first | omega | exact absurd ‹_› hg

/-- Who passes its own semaphore had a token. -/
theorem act_wait_pos (hact : act c l s place = some s')
    (hplace : place = .waitTurn ∨ place = .waitAgain) : 0 < s.sem l.who := by
  rcases hplace with rfl | rfl <;>
  · obtain ⟨s₁, h₁, -⟩ := Option.map_eq_some_iff.mp hact
    exact (waitSelf_sem h₁).1

/-- The test at the door. -/
theorem act_testing (hact : act c l s .testing = some s') :
    s'.pc l.who = .lockQueue ∧ s.dept.alignment = .team (c.team l.who) ∧
        chairFree s.dept = true ∨
      s'.pc l.who = .turnedAway ∧
        ¬ (s.dept.alignment = .team (c.team l.who) ∧ chairFree s.dept = true) := by
  cases hact
  rw [goto_pc_self]
  by_cases htest : s.dept.alignment = .team (c.team l.who) ∧ chairFree s.dept = true
  · exact .inl ⟨if_pos htest, htest⟩
  · exact .inr ⟨if_neg htest, htest⟩

theorem step_inv (hs : step c l s = some (place, s')) :
    s.aborted = false ∧ place = s.pc l.who ∧ act c l s place = some s' := by
  unfold step at hs
  cases hab : s.aborted with
  | true =>
    rw [hab, if_pos rfl] at hs
    cases hs
  | false =>
    rw [hab, if_neg (by decide)] at hs
    obtain ⟨s₁, h₁, heq⟩ := Option.map_eq_some_iff.mp hs
    cases heq
    exact ⟨rfl, rfl, h₁⟩

end Frames

end OsProjects.Pvn
