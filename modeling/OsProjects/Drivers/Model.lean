import OsProjects.Lib.Linked
import OsProjects.Lib.Machine
import OsProjects.Lib.Mutex
import Mathlib.Data.Fintype.Basic

/-!
# `Project3/Drivers`: the intersection

Every car runs `car_main`. A step of a thread is one operation on a mutex or a condition
variable, or the code between two of them; `Pc` names the places in between. The fields
of `car_t` are functions of the car, the pointers `next` and `queue[..]` are optional
cars, and a mutex is free or held by a car. A thread at a mutex that is held has no step,
and neither has one that crawls along a queue without end or dereferences `NULL`.

`pthread_cond_wait` is three steps: it gives its mutex back and falls asleep, is woken,
and takes the mutex again. Only the car itself ever sleeps on its condition variable, so
a signal is a flag of the car, `signalled`, and is lost unless the car is asleep. The
random choices and the spurious wake-ups come with the step, in `Label`.

How long a car drives (`num_quadrants`, `usleep`) shows only in when its next step is
taken, and the debug lines are left out. `main` creates the cars while it holds
`intersectionLock`; a car that was not created yet is one that has not moved, and one
that waits for `main` is one that does not move, so here all cars exist from the start.
-/

namespace OsProjects.Drivers

open OsProjects.Lib

/-! ## The intersection -/

/-- The queues `N`, `S`, `E`, `W`. -/
inductive Direction
  | north
  | south
  | east
  | west
  deriving DecidableEq

/-- The quadrants `NW`, `NE`, `SW`, `SE`. -/
inductive Quadrant
  | nw
  | ne
  | sw
  | se
  deriving DecidableEq

inductive Way
  | left
  | straight
  | right
  deriving DecidableEq

/-- The values of `car->turn`: `NO_TURN`; `WLEFT`, `WSTRAIGHT`, `WRIGHT`; `TLEFT`,
`TSTRAIGHT`, `TRIGHT`. -/
inductive Turn
  | noTurn
  | want (way : Way)
  | turning (way : Way)
  deriving DecidableEq

/-- `i++` in a loop over the queues. -/
def Direction.next : Direction → Option Direction
  | .north => some .south
  | .south => some .east
  | .east => some .west
  | .west => none

/-- `i++` in a loop over the quadrants. -/
def Quadrant.next : Quadrant → Option Quadrant
  | .nw => some .ne
  | .ne => some .sw
  | .sw => some .se
  | .se => none

/-- The quadrants that `enter_intersection` attempts, in its order. -/
def route : Direction → Way → List Quadrant
  | .north, .left => [.nw, .sw, .se]
  | .south, .left => [.se, .ne, .nw]
  | .east, .left => [.ne, .nw, .sw]
  | .west, .left => [.sw, .se, .ne]
  | .north, .straight => [.nw, .sw]
  | .south, .straight => [.se, .ne]
  | .east, .straight => [.ne, .nw]
  | .west, .straight => [.sw, .se]
  | .north, .right => [.nw]
  | .south, .right => [.se]
  | .east, .right => [.ne]
  | .west, .right => [.sw]

/-- `attempt_quadrant`. -/
def attemptQuadrant (cid : Int) (quad : Quadrant) (quadrant : Quadrant → Int) :
    Bool × (Quadrant → Int) :=
  if quadrant quad = -1 then (true, Function.update quadrant quad cid) else (false, quadrant)

/-- `attempt_quadrant(car, ..) && attempt_quadrant(car, ..) && ..`. -/
def attemptQuadrants (cid : Int) : List Quadrant → (Quadrant → Int) → Bool × (Quadrant → Int)
  | [], quadrant => (true, quadrant)
  | quad :: quads, quadrant =>
    match attemptQuadrant cid quad quadrant with
    | (true, quadrant) => attemptQuadrants cid quads quadrant
    | (false, quadrant) => (false, quadrant)

/-- The loop that gives back what a failed attempt grabbed. -/
def rollBack (cid : Int) (quadrant : Quadrant → Int) : Quadrant → Int :=
  fun i => if quadrant i = cid then -1 else quadrant i

/-! ## What is printed -/

/-- The lines, with what is put into their texts. -/
inductive Line (C : Type)
  | approaching (car : C) (qid : Direction)
  | arrived (car : C) (qid : Direction)
  | entered (car : C) (qid : Direction) (turn : Turn)
  | left (car : C)

/-- The identifiers `create_car` was given. -/
structure Setup (C : Type) where
  cid : C → Int
  nonneg : ∀ car, 0 ≤ cid car
  distinct : Function.Injective cid

/-! ## The threads -/

/-- Where a thread is in `car_main`: the step it takes next. -/
inductive Pc
  | choosing                     -- qid = rand()%4; car->turn = rand()%3
  | lockJoin                     -- queue_car: pthread_mutex_lock(&queueLock[qid])
  | joining                      -- queue_car: to the end of the queue
  | unlockJoin                   -- queue_car: pthread_mutex_unlock(&queueLock[qid])
  | lockFront                    -- wait_for_queue: taking queueLock[qid], first or again
  | testFront                    -- wait_for_queue: queue[qid] != car
  | waitFront                    -- wait_for_queue: pthread_cond_wait gives queueLock[qid] back
  | sleepFront                   -- wait_for_queue: asleep
  | unlockFront                  -- wait_for_queue: pthread_mutex_unlock(&queueLock[qid])
  | lockCross                    -- taking intersectionLock, first or again
  | testTurn                     -- the loop: car->turn, and enter_intersection(car, qid)
  | signalSelf                   -- enter_intersection: pthread_cond_signal(&car->cond)
  | waitTurn                     -- pthread_cond_wait gives intersectionLock back
  | sleepTurn                    -- asleep
  | acquire (i : Quadrant)       -- aquire_locks: pthread_mutex_lock(&quadrantLock[i]), if claimed
  | unlockCross                  -- pthread_mutex_unlock(&intersectionLock)
  | crossing                     -- usleep(..); pthread_mutex_lock(&intersectionLock)
  | departing                    -- leave_intersection: the line printed
  | release (i : Quadrant)       -- pthread_mutex_unlock(&quadrantLock[i]) and -1, if claimed
  | stopping                     -- leave_intersection: car->turn = NO_TURN
  | lockScan (i : Direction)     -- leave_intersection: pthread_mutex_lock(&queueLock[i])
  | scan (i : Direction)         -- leave_intersection: enter_intersection(queue[i], i)
  | signalHead (i : Direction)   -- enter_intersection: pthread_cond_signal(&queue[i]->cond)
  | unlockScan (i : Direction)   -- leave_intersection: pthread_mutex_unlock(&queueLock[i])
  | unlockLeave                  -- pthread_mutex_unlock(&intersectionLock)
  | lockDequeue                  -- dequeue_car: pthread_mutex_lock(&queueLock[qid])
  | dequeueing                   -- dequeue_car: the head leaves the queue
  | signalNext                   -- dequeue_car: pthread_cond_signal(&queue[qid]->cond)
  | unlockDequeue                -- dequeue_car: pthread_mutex_unlock(&queueLock[qid]); usleep(..)
  deriving DecidableEq

/-- In `pthread_cond_wait`, not yet woken. -/
def Pc.asleep : Pc → Bool
  | .sleepFront | .sleepTurn => true
  | _ => false

inductive Mutex
  | intersectionLock
  | queueLock (i : Direction)
  | quadrantLock (i : Quadrant)
  deriving DecidableEq

/-- What comes from outside into a step of thread `who`. -/
structure Label (C : Type) where
  who : C
  /-- `rand()%4` -/
  qid : Direction
  /-- `rand()%3` -/
  way : Way
  /-- `pthread_cond_wait` returns without a signal -/
  spurious : Bool

/-- The globals of `intersection.c`, the fields of the cars and the local `qid`. -/
structure State (C : Type) where
  turn : C → Turn
  next : C → Option C
  signalled : C → Bool
  pc : C → Pc
  qid : C → Direction
  queue : Direction → Option C
  quadrant : Quadrant → Int
  lock : Mutex → Option C

/-- What a step shows: where it was taken and the line it printed. -/
structure Answer (C : Type) where
  place : Pc
  line : Option (Line C)

variable {C : Type}

namespace State

variable [DecidableEq C]

def goto (s : State C) (car : C) (pc : Pc) : State C :=
  { s with pc := Function.update s.pc car pc }

/-- `pthread_mutex_lock(&m)`, and on to `pc`. -/
def take (s : State C) (car : C) (m : Mutex) (pc : Pc) : Option (State C) :=
  (mutexLock s.lock m car).map fun lock => { s with lock := lock }.goto car pc

/-- `pthread_mutex_unlock(&m)`. -/
def drop (s : State C) (m : Mutex) : State C := { s with lock := mutexUnlock s.lock m }

/-- `pthread_cond_signal(&car->cond)`. -/
def signal (s : State C) (car : C) : State C :=
  if (s.pc car).asleep then { s with signalled := Function.update s.signalled car true } else s

/-- `pthread_cond_signal(&queue[i]->cond)`, of a queue that is not empty. -/
def signalQueue (s : State C) (i : Direction) : State C :=
  match s.queue i with
  | some car => s.signal car
  | none => s

/-- `pthread_cond_wait` is woken, and goes on to take its mutex again. -/
def wake (s : State C) (car : C) (spurious : Bool) (pc : Pc) : Option (State C) :=
  if s.signalled car || spurious then
    some ({ s with signalled := Function.update s.signalled car false }.goto car pc)
  else none

end State

/-- `enter_intersection`, up to its `pthread_cond_signal`; it returns 1 with the line
printed, and 0 without one. -/
def enterIntersection [DecidableEq C] (c : Setup C) (car : C) (qid : Direction) (s : State C) :
    Option (Line C) × State C :=
  match s.turn car with
  | .noTurn => (none, s)
  | .want way =>
    match attemptQuadrants (c.cid car) (route qid way) s.quadrant with
    | (true, quadrant) =>
      (some (.entered car qid (.turning way)),
        { s with quadrant := quadrant, turn := Function.update s.turn car (.turning way) })
    | (false, quadrant) => (none, { s with quadrant := rollBack (c.cid car) quadrant })
  | .turning way => (some (.entered car qid (.turning way)), s)

/-- `dequeue_car`, up to its `pthread_cond_signal`. -/
def dequeueCar [DecidableEq C] (qid : Direction) (s : State C) : Option (State C) :=
  match s.queue qid with
  | none => none
  | some tmp => some
    { s with
      queue := Function.update s.queue qid (s.next tmp)
      next := Function.update s.next tmp none }

section Threads

variable [DecidableEq C] [Fintype C] (c : Setup C)

/-- `main` and `create_car`. -/
def init : State C where
  turn _ := .noTurn
  next _ := none
  signalled _ := false
  pc _ := .choosing
  qid _ := .north
  queue _ := none
  quadrant _ := -1
  lock _ := none

/-- `queue_car`, between its mutex operations. -/
def queueCar (car : C) (qid : Direction) (s : State C) : Option (State C) :=
  match s.queue qid with
  | none => some { s with queue := Function.update s.queue qid (some car) }
  | some head => do
    let cur ← lastFrom s.next (Fintype.card C) head
    some { s with next := Function.update s.next cur (some car) }

/-- The step of thread `l.who` at a place. -/
def act (l : Label C) (s : State C) : Pc → Option (Option (Line C) × State C)
  | .choosing => some (none,
      { s with
        qid := Function.update s.qid l.who l.qid
        turn := Function.update s.turn l.who (.want l.way) }.goto l.who .lockJoin)
  | .lockJoin => (s.take l.who (.queueLock (s.qid l.who)) .joining).map (none, ·)
  | .joining => (queueCar l.who (s.qid l.who) s).map fun s =>
      (some (.approaching l.who (s.qid l.who)), s.goto l.who .unlockJoin)
  | .unlockJoin => some (none, (s.drop (.queueLock (s.qid l.who))).goto l.who .lockFront)
  | .lockFront => (s.take l.who (.queueLock (s.qid l.who)) .testFront).map (none, ·)
  | .testFront => some (
      if s.queue (s.qid l.who) = some l.who then
        (some (.arrived l.who (s.qid l.who)), s.goto l.who .unlockFront)
      else (none, s.goto l.who .waitFront))
  | .waitFront => some (none, (s.drop (.queueLock (s.qid l.who))).goto l.who .sleepFront)
  | .sleepFront => (s.wake l.who l.spurious .lockFront).map (none, ·)
  | .unlockFront => some (none, (s.drop (.queueLock (s.qid l.who))).goto l.who .lockCross)
  | .lockCross => (s.take l.who .intersectionLock .testTurn).map (none, ·)
  | .testTurn => some (
      match s.turn l.who with
      | .want _ =>
        match enterIntersection c l.who (s.qid l.who) s with
        | (some line, s) => (some line, s.goto l.who .signalSelf)
        | (none, s) => (none, s.goto l.who .waitTurn)
      | _ => (none, s.goto l.who (.acquire .nw)))
  | .signalSelf => some (none, (s.signal l.who).goto l.who .testTurn)
  | .waitTurn => some (none, (s.drop .intersectionLock).goto l.who .sleepTurn)
  | .sleepTurn => (s.wake l.who l.spurious .lockCross).map (none, ·)
  | .acquire i =>
      let pc := (i.next.map Pc.acquire).getD .unlockCross
      if s.quadrant i = c.cid l.who then (s.take l.who (.quadrantLock i) pc).map (none, ·)
      else some (none, s.goto l.who pc)
  | .unlockCross => some (none, (s.drop .intersectionLock).goto l.who .crossing)
  | .crossing => (s.take l.who .intersectionLock .departing).map (none, ·)
  | .departing => some (some (.left l.who), s.goto l.who (.release .nw))
  | .release i =>
      let pc := (i.next.map Pc.release).getD .stopping
      if s.quadrant i = c.cid l.who then
        some (none, { s.drop (.quadrantLock i) with
          quadrant := Function.update s.quadrant i (-1) }.goto l.who pc)
      else some (none, s.goto l.who pc)
  | .stopping => some (none,
      { s with turn := Function.update s.turn l.who .noTurn }.goto l.who (.lockScan .north))
  | .lockScan i => (s.take l.who (.queueLock i) (.scan i)).map (none, ·)
  | .scan i => some (
      match s.queue i with
      | none => (none, s.goto l.who (.unlockScan i))
      | some car =>
        match enterIntersection c car i s with
        | (some line, s) => (some line, s.goto l.who (.signalHead i))
        | (none, s) => (none, s.goto l.who (.unlockScan i)))
  -- `queueLock[i]` is held since the scan: the head still is the car that was tried
  | .signalHead i => some (none, (s.signalQueue i).goto l.who (.unlockScan i))
  | .unlockScan i => some (none,
      (s.drop (.queueLock i)).goto l.who ((i.next.map Pc.lockScan).getD .unlockLeave))
  | .unlockLeave => some (none, (s.drop .intersectionLock).goto l.who .lockDequeue)
  | .lockDequeue => (s.take l.who (.queueLock (s.qid l.who)) .dequeueing).map (none, ·)
  | .dequeueing => (dequeueCar (s.qid l.who) s).map fun s =>
      (none, s.goto l.who (if (s.queue (s.qid l.who)).isSome then .signalNext else .unlockDequeue))
  | .signalNext => some (none, (s.signalQueue (s.qid l.who)).goto l.who .unlockDequeue)
  | .unlockDequeue => some (none, (s.drop (.queueLock (s.qid l.who))).goto l.who .choosing)

/-- A step of some thread, with what it shows. -/
def step (l : Label C) (s : State C) : Option (Answer C × State C) :=
  (act c l s (s.pc l.who)).map fun (line, s') => (⟨s.pc l.who, line⟩, s')

/-- The steps of a run and what each showed. -/
abbrev History (C : Type) := List (Label C × Answer C)

/-- The steps `ls` taken one after the other from the start. -/
def steps (ls : List (Label C)) : Option (History C × State C) := run (step c) ls init

end Threads

end OsProjects.Drivers
