import OsProjects.Drivers.Model

/-!
# What a step changes

`Frame` says once, for every place a thread may be at, which parts of the state its step
leaves alone and where the thread is afterwards; `taken` and `given` name the mutex the
step locks or unlocks. The invariants are derived from these and from the few steps that
do change the part they speak about.
-/

namespace OsProjects.Drivers

open OsProjects.Lib

/-! ## Classes of steps -/

namespace Pc

/-- The next place in a loop over the quadrants. -/
abbrev afterQuadrant (body : Quadrant → Pc) (exit : Pc) (i : Quadrant) : Pc :=
  (i.next.map body).getD exit

/-- Where a thread goes from here. -/
def succ : Pc → List Pc
  | .choosing => [.lockJoin]
  | .lockJoin => [.joining]
  | .joining => [.unlockJoin]
  | .unlockJoin => [.lockFront]
  | .lockFront => [.testFront]
  | .testFront => [.unlockFront, .waitFront]
  | .waitFront => [.sleepFront]
  | .sleepFront => [.lockFront]
  | .unlockFront => [.lockCross]
  | .lockCross => [.testTurn]
  | .testTurn => [.signalSelf, .waitTurn, .acquire .nw]
  | .signalSelf => [.testTurn]
  | .waitTurn => [.sleepTurn]
  | .sleepTurn => [.lockCross]
  | .acquire i => [afterQuadrant .acquire .unlockCross i]
  | .unlockCross => [.crossing]
  | .crossing => [.departing]
  | .departing => [.release .nw]
  | .release i => [afterQuadrant .release .stopping i]
  | .stopping => [.lockScan .north]
  | .lockScan i => [.scan i]
  | .scan i => [.signalHead i, .unlockScan i]
  | .signalHead i => [.unlockScan i]
  | .unlockScan i => [(i.next.map lockScan).getD .unlockLeave]
  | .unlockLeave => [.lockDequeue]
  | .lockDequeue => [.dequeueing]
  | .dequeueing => [.signalNext, .unlockDequeue]
  | .signalNext => [.unlockDequeue]
  | .unlockDequeue => [.choosing]

/-- The step changes a queue. -/
def editsQueue : Pc → Bool
  | .joining | .dequeueing => true
  | _ => false

/-- The step changes what some car wants. -/
def editsTurn : Pc → Bool
  | .choosing | .testTurn | .stopping | .scan _ => true
  | _ => false

/-- The step changes a claim. -/
def editsQuadrant : Pc → Bool
  | .testTurn | .scan _ | .release _ => true
  | _ => false

/-- The step signals a car, or wakes up. -/
def editsSignal : Pc → Bool
  | .sleepFront | .sleepTurn | .signalSelf | .signalHead _ | .signalNext => true
  | _ => false

end Pc

variable {C : Type}

/-- The mutex that the step of `car` at a place locks. -/
def taken (c : Setup C) (s : State C) (car : C) : Pc → Option Mutex
  | .lockJoin | .lockFront | .lockDequeue => some (.queueLock (s.qid car))
  | .lockCross | .crossing => some .intersectionLock
  | .lockScan i => some (.queueLock i)
  | .acquire i => if s.quadrant i = c.cid car then some (.quadrantLock i) else none
  | _ => none

/-- The mutex that it unlocks. -/
def given (c : Setup C) (s : State C) (car : C) : Pc → Option Mutex
  | .unlockJoin | .waitFront | .unlockFront | .unlockDequeue => some (.queueLock (s.qid car))
  | .waitTurn | .unlockCross | .unlockLeave => some .intersectionLock
  | .unlockScan i => some (.queueLock i)
  | .release i => if s.quadrant i = c.cid car then some (.quadrantLock i) else none
  | _ => none

/-- What the code at `place` leaves alone. -/
structure Kept (place : Pc) (s s' : State C) : Prop where
  qid : place ≠ .choosing → s'.qid = s.qid
  queue : place.editsQueue = false → s'.queue = s.queue ∧ s'.next = s.next
  turn : place.editsTurn = false → s'.turn = s.turn
  quadrant : place.editsQuadrant = false → s'.quadrant = s.quadrant
  signalled : place.editsSignal = false → s'.signalled = s.signalled

/-- The step of `car` at `place`. -/
structure Frame (car : C) (place : Pc) (s s' : State C) : Prop extends Kept place s s' where
  succ : s'.pc car ∈ place.succ
  others : ∀ g, g ≠ car → s'.pc g = s.pc g

/-- What the step of `car` at `place` does to the mutexes. -/
def LockStep (c : Setup C) (car : C) (place : Pc) (s s' : State C) : Prop :=
  match taken c s car place, given c s car place with
  | some m, _ => s.lock m = none ∧ s'.lock = Function.update s.lock m (some car)
  | none, some m => s'.lock = mutexUnlock s.lock m
  | none, none => s'.lock = s.lock

/-! ## Frames -/

section Frames

variable {place pc : Pc} {s s₁ s' : State C} {car : C}

theorem Kept.locks (place : Pc) (s : State C) (lock : Mutex → Option C) :
    Kept place s { s with lock := lock } :=
  ⟨fun _ => rfl, fun _ => ⟨rfl, rfl⟩, fun _ => rfl, fun _ => rfl, fun _ => rfl⟩

theorem Kept.signals (s : State C) (signalled : C → Bool) (hsig : place.editsSignal = true) :
    Kept place s { s with signalled := signalled } :=
  ⟨fun _ => rfl, fun _ => ⟨rfl, rfl⟩, fun _ => rfl, fun _ => rfl,
    fun hno => absurd hsig (by rw [hno]; decide)⟩

theorem Kept.refl (place : Pc) (s : State C) : Kept place s s := Kept.locks place s _

variable [DecidableEq C]

@[simp] theorem goto_pc_self (s : State C) (car : C) (pc : Pc) : (s.goto car pc).pc car = pc :=
  Function.update_self ..

theorem goto_pc_ne (s : State C) {car g : C} (pc : Pc) (hg : g ≠ car) :
    (s.goto car pc).pc g = s.pc g := Function.update_of_ne hg ..

theorem Kept.goto (hk : Kept place s s₁) (hpc : s₁.pc = s.pc) (hsucc : pc ∈ place.succ) :
    Frame car place s (s₁.goto car pc) where
  qid := hk.qid
  queue := hk.queue
  turn := hk.turn
  quadrant := hk.quadrant
  signalled := hk.signalled
  succ := by
    rw [goto_pc_self]
    exact hsucc
  others g hg := by rw [goto_pc_ne _ _ hg, hpc]

theorem take_eq_some {m : Mutex} :
    s.take car m pc = some s' ↔ s.lock m = none ∧
      s' = { s with lock := Function.update s.lock m (some car) }.goto car pc := by
  unfold State.take
  rw [Option.map_eq_some_iff]
  constructor
  · rintro ⟨lock, hlock, rfl⟩
    obtain ⟨hfree, rfl⟩ := mutexLock_eq_some.mp hlock
    exact ⟨hfree, rfl⟩
  · rintro ⟨hfree, rfl⟩
    exact ⟨_, mutexLock_eq_some.mpr ⟨hfree, rfl⟩, rfl⟩

theorem signal_kept (place : Pc) (s : State C) (g : C) (hsig : place.editsSignal = true) :
    Kept place s (s.signal g) ∧ (s.signal g).pc = s.pc ∧ (s.signal g).lock = s.lock := by
  unfold State.signal
  split
  · exact ⟨Kept.signals s _ hsig, rfl, rfl⟩
  · exact ⟨Kept.refl place s, rfl, rfl⟩

theorem signalQueue_kept (place : Pc) (s : State C) (i : Direction)
    (hsig : place.editsSignal = true) :
    Kept place s (s.signalQueue i) ∧ (s.signalQueue i).pc = s.pc ∧
      (s.signalQueue i).lock = s.lock := by
  unfold State.signalQueue
  cases s.queue i with
  | none => exact ⟨Kept.refl place s, rfl, rfl⟩
  | some g => exact signal_kept place s g hsig

/-- `enter_intersection` changes claims and turns only. -/
theorem enterIntersection_kept (place : Pc) (c : Setup C) (car : C) (qid : Direction)
    (s : State C) (hturn : place.editsTurn = true) (hquad : place.editsQuadrant = true) :
    Kept place s (enterIntersection c car qid s).2 ∧
      (enterIntersection c car qid s).2.pc = s.pc ∧
      (enterIntersection c car qid s).2.lock = s.lock := by
  have hkept : ∀ quadrant turn, Kept place s { s with quadrant := quadrant, turn := turn } :=
    fun _ _ => ⟨fun _ => rfl, fun _ => ⟨rfl, rfl⟩, fun hno => absurd hturn (by rw [hno]; decide),
      fun hno => absurd hquad (by rw [hno]; decide), fun _ => rfl⟩
  unfold enterIntersection
  cases s.turn car with
  | noTurn => exact ⟨Kept.refl place s, rfl, rfl⟩
  | turning way => exact ⟨Kept.refl place s, rfl, rfl⟩
  | want way =>
    simp only
    split <;> exact ⟨hkept _ _, rfl, rfl⟩

variable [Fintype C] {c : Setup C} {l : Label C} {line : Option (Line C)}

theorem queueCar_kept {qid : Direction} (hq : queueCar car qid s = some s') :
    Kept .joining s s' ∧ s'.pc = s.pc ∧ s'.lock = s.lock := by
  have hkept : ∀ queue next, Kept .joining s { s with queue := queue, next := next } :=
    fun _ _ => ⟨fun _ => rfl, (by rintro ⟨⟩), fun _ => rfl, fun _ => rfl, fun _ => rfl⟩
  unfold queueCar at hq
  cases hhead : s.queue qid with
  | none =>
    simp only [hhead, Option.some.injEq] at hq
    subst hq
    exact ⟨hkept _ _, rfl, rfl⟩
  | some head =>
    simp only [hhead] at hq
    obtain ⟨cur, -, hq⟩ := Option.bind_eq_some_iff.mp hq
    cases hq
    exact ⟨hkept _ _, rfl, rfl⟩

omit [Fintype C] in
theorem dequeueCar_eq_some {qid : Direction} :
    dequeueCar qid s = some s' ↔ ∃ tmp, s.queue qid = some tmp ∧ s' =
      { s with
        queue := Function.update s.queue qid (s.next tmp)
        next := Function.update s.next tmp none } := by
  unfold dequeueCar
  cases s.queue qid with
  | none => simp
  | some tmp => simp [eq_comm]

omit [Fintype C] in
/-- A step that locks `m`. -/
theorem take_frame {m : Mutex} (hact : (s.take l.who m pc).map (none, ·) = some (line, s'))
    (hsucc : pc ∈ place.succ) (htaken : taken c s l.who place = some m) :
    Frame l.who place s s' ∧ LockStep c l.who place s s' := by
  obtain ⟨s₁, h₁, heq⟩ := Option.map_eq_some_iff.mp hact
  cases heq
  obtain ⟨hfree, rfl⟩ := take_eq_some.mp h₁
  refine ⟨(Kept.locks place s _).goto rfl hsucc, ?_⟩
  unfold LockStep
  rw [htaken]
  exact ⟨hfree, rfl⟩

omit [DecidableEq C] [Fintype C] in
/-- A step that touches no mutex. -/
theorem LockStep.none (htaken : taken c s car place = none) (hgiven : given c s car place = none)
    (hlock : s'.lock = s.lock) : LockStep c car place s s' := by
  unfold LockStep
  rw [htaken, hgiven]
  exact hlock

omit [Fintype C] in
/-- A step that wakes its thread up. -/
theorem wake_frame (hact : (s.wake l.who l.spurious pc).map (none, ·) = some (line, s'))
    (hsucc : pc ∈ place.succ) (hsig : place.editsSignal = true)
    (htaken : taken c s l.who place = none) (hgiven : given c s l.who place = none) :
    Frame l.who place s s' ∧ LockStep c l.who place s s' := by
  obtain ⟨s₁, h₁, heq⟩ := Option.map_eq_some_iff.mp hact
  cases heq
  unfold State.wake at h₁
  split at h₁
  · cases h₁
    exact ⟨(Kept.signals s _ hsig).goto rfl hsucc, .none htaken hgiven rfl⟩
  · cases h₁

theorem act_frame (hact : act c l s place = some (line, s')) :
    Frame l.who place s s' ∧ LockStep c l.who place s s' := by
  cases place with
  | choosing =>
    cases hact
    have hk : Kept .choosing s { s with
        qid := Function.update s.qid l.who l.qid
        turn := Function.update s.turn l.who (.want l.way) } :=
      ⟨fun hne => absurd rfl hne, fun _ => ⟨rfl, rfl⟩, (by rintro ⟨⟩), fun _ => rfl, fun _ => rfl⟩
    exact ⟨hk.goto rfl (by simp [Pc.succ]), rfl⟩
  | lockJoin | lockFront | lockDequeue | lockCross | crossing =>
    exact take_frame hact (by simp [Pc.succ]) rfl
  | lockScan i => exact take_frame hact (by simp [Pc.succ]) rfl
  | joining =>
    obtain ⟨s₁, h₁, heq⟩ := Option.map_eq_some_iff.mp hact
    cases heq
    obtain ⟨hk, hpc, hlock⟩ := queueCar_kept h₁
    exact ⟨hk.goto hpc (by simp [Pc.succ]), hlock⟩
  | unlockJoin | waitFront | unlockFront | unlockDequeue | waitTurn | unlockCross | unlockLeave =>
    cases hact
    exact ⟨(Kept.locks _ s _).goto rfl (by simp [Pc.succ]), rfl⟩
  | unlockScan i =>
    cases hact
    exact ⟨(Kept.locks _ s _).goto rfl (by simp [Pc.succ]), rfl⟩
  | testFront =>
    by_cases hfront : s.queue (s.qid l.who) = some l.who
    · simp only [act, if_pos hfront] at hact
      cases hact
      exact ⟨(Kept.refl _ s).goto rfl (by simp [Pc.succ]), rfl⟩
    · simp only [act, if_neg hfront] at hact
      cases hact
      exact ⟨(Kept.refl _ s).goto rfl (by simp [Pc.succ]), rfl⟩
  | sleepFront | sleepTurn => exact wake_frame hact (by simp [Pc.succ]) rfl rfl rfl
  | testTurn =>
    obtain ⟨hk, hpc, hlock⟩ :=
      enterIntersection_kept .testTurn c l.who (s.qid l.who) s rfl rfl
    have hsame : Frame l.who .testTurn s (s.goto l.who (.acquire .nw)) :=
      (Kept.refl .testTurn s).goto rfl (by simp [Pc.succ])
    unfold act at hact
    cases hturn : s.turn l.who with
    | noTurn =>
      simp only [hturn, Option.some.injEq, Prod.mk.injEq] at hact
      rw [← hact.2]
      exact ⟨hsame, rfl⟩
    | turning way =>
      simp only [hturn, Option.some.injEq, Prod.mk.injEq] at hact
      rw [← hact.2]
      exact ⟨hsame, rfl⟩
    | want way =>
      simp only [hturn] at hact
      cases henter : enterIntersection c l.who (s.qid l.who) s with
      | mk printed s₁ =>
        rw [henter] at hk hpc hlock hact
        cases printed with
        | none =>
          cases hact
          exact ⟨hk.goto hpc (by simp [Pc.succ]), hlock⟩
        | some x =>
          cases hact
          exact ⟨hk.goto hpc (by simp [Pc.succ]), hlock⟩
  | signalSelf =>
    cases hact
    obtain ⟨hk, hpc, hlock⟩ := signal_kept .signalSelf s l.who rfl
    exact ⟨hk.goto hpc (by simp [Pc.succ]), hlock⟩
  | acquire i =>
    unfold act at hact
    by_cases hown : s.quadrant i = c.cid l.who
    · simp only [if_pos hown] at hact
      exact take_frame hact (by simp [Pc.succ]) (if_pos hown)
    · simp only [if_neg hown] at hact
      cases hact
      exact ⟨(Kept.refl _ s).goto rfl (by simp [Pc.succ]), .none (if_neg hown) rfl rfl⟩
  | departing =>
    cases hact
    exact ⟨(Kept.refl _ s).goto rfl (by simp [Pc.succ]), rfl⟩
  | release i =>
    unfold act at hact
    by_cases hown : s.quadrant i = c.cid l.who
    · simp only [if_pos hown] at hact
      cases hact
      have hk : Kept (.release i) s { s.drop (.quadrantLock i) with
          quadrant := Function.update s.quadrant i (-1) } :=
        ⟨fun _ => rfl, fun _ => ⟨rfl, rfl⟩, fun _ => rfl, (by rintro ⟨⟩), fun _ => rfl⟩
      refine ⟨hk.goto rfl (by simp [Pc.succ]), ?_⟩
      simp only [LockStep, taken, given, if_pos hown]
      rfl
    · simp only [if_neg hown] at hact
      cases hact
      exact ⟨(Kept.refl _ s).goto rfl (by simp [Pc.succ]), .none rfl (if_neg hown) rfl⟩
  | stopping =>
    cases hact
    have hk : Kept .stopping s { s with turn := Function.update s.turn l.who .noTurn } :=
      ⟨fun _ => rfl, fun _ => ⟨rfl, rfl⟩, (by rintro ⟨⟩), fun _ => rfl, fun _ => rfl⟩
    exact ⟨hk.goto rfl (by simp [Pc.succ]), rfl⟩
  | scan i =>
    unfold act at hact
    cases hhead : s.queue i with
    | none =>
      simp only [hhead, Option.some.injEq, Prod.mk.injEq] at hact
      rw [← hact.2]
      exact ⟨(Kept.refl _ s).goto rfl (by simp [Pc.succ]), rfl⟩
    | some car =>
      obtain ⟨hk, hpc, hlock⟩ := enterIntersection_kept (.scan i) c car i s rfl rfl
      simp only [hhead] at hact
      cases henter : enterIntersection c car i s with
      | mk printed s₁ =>
        rw [henter] at hk hpc hlock hact
        cases printed with
        | none =>
          cases hact
          exact ⟨hk.goto hpc (by simp [Pc.succ]), hlock⟩
        | some x =>
          cases hact
          exact ⟨hk.goto hpc (by simp [Pc.succ]), hlock⟩
  | signalHead i =>
    cases hact
    obtain ⟨hk, hpc, hlock⟩ := signalQueue_kept (.signalHead i) s i rfl
    exact ⟨hk.goto hpc (by simp [Pc.succ]), hlock⟩
  | dequeueing =>
    obtain ⟨s₁, h₁, heq⟩ := Option.map_eq_some_iff.mp hact
    cases heq
    obtain ⟨tmp, -, rfl⟩ := dequeueCar_eq_some.mp h₁
    have hk : Kept .dequeueing s { s with
        queue := Function.update s.queue (s.qid l.who) (s.next tmp)
        next := Function.update s.next tmp none } :=
      ⟨fun _ => rfl, (by rintro ⟨⟩), fun _ => rfl, fun _ => rfl, fun _ => rfl⟩
    refine ⟨hk.goto rfl ?_, rfl⟩
    split <;> simp [Pc.succ]
  | signalNext =>
    cases hact
    obtain ⟨hk, hpc, hlock⟩ := signalQueue_kept .signalNext s (s.qid l.who) rfl
    exact ⟨hk.goto hpc (by simp [Pc.succ]), hlock⟩

theorem step_inv {a : Answer C} (hs : step c l s = some (a, s')) :
    a.place = s.pc l.who ∧ act c l s (s.pc l.who) = some (a.line, s') := by
  unfold step at hs
  obtain ⟨⟨line, s₁⟩, h₁, heq⟩ := Option.map_eq_some_iff.mp hs
  cases heq
  exact ⟨rfl, h₁⟩

end Frames

end OsProjects.Drivers
