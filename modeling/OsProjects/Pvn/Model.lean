import OsProjects.Lib.Linked
import OsProjects.Lib.Machine
import OsProjects.Lib.Semaphore
import Mathlib.Data.Fintype.Basic
import Mathlib.Data.List.FinRange

/-!
# `Project3/PiratesVNinjas`: the costume department

Every human runs `human_main`. A step of a thread is one semaphore operation, or
the code between two of them; `Pc` names the places in between. The fields of
`human_t` are functions of the human, the pointers `next` and `queue[..]` are
optional humans, semaphores are counters, and a thread at a semaphore of value 0
has no step.

What the threads cannot know in advance comes with the step, in `Label`: the
clock readings, the length of a visit and the return coin. How long somebody
adventures or costumes shows only in when the next step is taken. A walk along a
queue that never ends is no step either, and after `abort()` there is none.

`id`, `avgCostume` and `avgAdventure` are left out: they matter for debug lines and
for the distribution of the durations only. `create_human` does not set `visit` and
`t`; here a human starts without visits, and `t` is written before it is read. The `int`
that `current_wait_time` returns does not hold waits of `2 ^ 31` seconds and more; these are
left out.
-/

namespace OsProjects.Pvn

open OsProjects.Lib

/-- `FREE_WAIT`. -/
abbrev freeWait : Int := 30

/-- `SWAP_BUFFER`. -/
abbrev swapBuffer : Nat := 4

/-- `SWAP_TIMEOUT`. -/
abbrev swapTimeout : Int := 20

/-- `PIRATE` and `NINJA`, the alignments of humans. -/
inductive Team
  | pirate
  | ninja
  deriving DecidableEq

/-- `other_alignment`. -/
def Team.other : Team → Team
  | .pirate => .ninja
  | .ninja => .pirate

/-- The values of `dept.alignment`: `team` for `PIRATE` and `NINJA`, `toTeam` for
`TO_PIRATE` and `TO_NINJA`. -/
inductive Alignment
  | team (t : Team)
  | toTeam (t : Team)
  deriving DecidableEq

/-- `team_alignment`. -/
def Alignment.teamAlignment : Alignment → Team
  | .team t => t
  | .toTeam t => t

/-- `visit_t`; `next` is the rest of a list. -/
structure Visit where
  goldOwed : Int
  waitTime : Int
  visitTime : Int
  deriving DecidableEq

/-- `create_visit`. -/
def createVisit (waitTime visitTime : Int) : Visit where
  waitTime := waitTime
  visitTime := visitTime
  goldOwed := if waitTime ≤ freeWait then visitTime else 0

/-- `chair_t`. -/
structure Chair (H : Type) where
  hum : Option H
  last : Int
  occupied : Int
  free : Int

/-- `department_t`; a chair that was not created is `NULL`. -/
structure Department (H : Type) where
  alignment : Alignment
  chairs : Fin 4 → Option (Chair H)
  sem : Nat

section Chairs

variable {H : Type}

/-- `create_chair`. -/
def createChair (now : Int) : Chair H where
  hum := none
  last := now
  occupied := 0
  free := 0

/-- `update_chair`. -/
def updateChair (chair : Chair H) (visitTime now : Int) : Chair H :=
  { chair with
    free := chair.free + (now - chair.last)
    occupied := chair.occupied + visitTime
    last := now + visitTime }

/-- `init_department`. -/
def initDepartment (alignment : Team) (chairs : Nat) (now : Fin 4 → Int) : Department H where
  alignment := .team alignment
  chairs i := if i.val < chairs then some (createChair (now i)) else none
  sem := 1

/-- `dept->chairs[i] != NULL && dept->chairs[i]->hum == NULL`. -/
def Department.empty (d : Department H) (i : Fin 4) : Bool :=
  match d.chairs i with
  | some chair => chair.hum.isNone
  | none => false

/-- `dept->chairs[i]->hum`, of a chair that exists. -/
def Department.seated (d : Department H) (i : Fin 4) : Option H := (d.chairs i).bind Chair.hum

/-- `chair_free`. -/
def chairFree (d : Department H) : Bool := (List.finRange 4).any d.empty

/-- `all_empty`. -/
def allEmpty (d : Department H) : Bool := (List.finRange 4).all fun i => (d.seated i).isNone

/-- The first empty chair is taken. -/
def Department.seat (d : Department H) (h : H) (visitTime now : Int) : Department H :=
  match (List.finRange 4).find? d.empty with
  | none => d
  | some i =>
    let taken := (d.chairs i).map fun chair =>
      updateChair { chair with hum := some h } visitTime now
    { d with chairs := Function.update d.chairs i taken }

/-- `h` gets out of the chair. -/
def Department.stand [DecidableEq H] (d : Department H) (h : H) : Department H :=
  { d with chairs := fun i => (d.chairs i).map fun chair =>
      if chair.hum = some h then { chair with hum := none } else chair }

end Chairs

/-- Where a thread is in `human_main`: the step it takes next. -/
inductive Pc
  | arriving       -- adventure(self); sem_wait(&queueSem[..])
  | queueing       -- queue_human(self), and the test for the front of the queue
  | postSelf       -- sem_post(&self->sem), at the front
  | unlockArrival  -- sem_post(&queueSem[..])
  | waitTurn       -- sem_wait(&self->sem), before the loop
  | askDept        -- sem_wait(&dept.sem)
  | testing        -- dept.alignment == self->alignment && chair_free(&dept)
  | turnedAway     -- sem_post(&dept.sem), in the else branch
  | waitAgain      -- sem_wait(&self->sem), in the else branch
  | lockQueue      -- sem_wait(&queueSem[..])
  | dequeueing     -- dequeue_human: the head leaves the queue
  | postNext       -- dequeue_human: sem_post(&queue[..]->sem), for the new head
  | entering       -- enter_department(self)
  | unlockQueue    -- sem_post(&queueSem[..])
  | unlockDept     -- sem_post(&dept.sem); break
  | costuming      -- costume(self); sem_wait(&dept.sem)
  | leaving        -- leave_department: out of the chair, change of hands
  | lockOwner      -- sem_wait(&queueSem[team_alignment(&dept)])
  | wakeHead       -- sem_post(&queue[team_alignment(&dept)]->sem)
  | unlockOwner    -- sem_post(&queueSem[team_alignment(&dept)])
  | unlockLeft     -- sem_post(&dept.sem)
  | tossing        -- drand48() <= 0.25
  | askCount       -- sem_wait(&vCountSem)
  | counting       -- visitsLeft--
  | unlockCount    -- sem_post(&vCountSem)
  | done           -- return NULL
  deriving DecidableEq

/-- What comes from outside into a step of thread `who`. -/
structure Label (H : Type) where
  who : H
  /-- `time(NULL)` in `queue_human` and for the visit in `enter_department` -/
  now : Int
  /-- `time(NULL)` in `update_chair` -/
  chairNow : Int
  /-- `time(NULL)` for the head of the other queue -/
  headNow : Int
  /-- `(int)norm_dist(..)` in `enter_department` -/
  visitTime : Int
  /-- `drand48() <= 0.25` -/
  returns : Bool

/-- The globals of `pvn.c` and the fields of the humans. -/
structure State (H : Type) where
  sem : H → Nat
  next : H → Option H
  t : H → Int
  visit : H → List Visit
  willReturn : H → Nat
  pc : H → Pc
  queue : Team → Option H
  queueSem : Team → Nat
  dept : Department H
  vCountSem : Nat
  visitsLeft : Int
  aborted : Bool

/-- The arguments of a run: who is in which team, the outcome of the coin for the
starting alignment, the number of chairs, and the clock when they were created. -/
structure Setup (H : Type) where
  team : H → Team
  start : Team
  chairs : Nat
  two_le : 2 ≤ chairs
  le_four : chairs ≤ 4
  created : Fin 4 → Int

variable {H : Type}

namespace State

variable [DecidableEq H]

def goto (s : State H) (h : H) (pc : Pc) : State H := { s with pc := Function.update s.pc h pc }

/-- `dept.alignment = a`. -/
def align (s : State H) (a : Alignment) : State H :=
  { s with dept := { s.dept with alignment := a } }

/-! `sem_wait` and `sem_post` -/

def waitSelf (h : H) (s : State H) : Option (State H) :=
  (semWait (s.sem h)).map fun v => { s with sem := Function.update s.sem h v }

def post (h : H) (s : State H) : State H :=
  { s with sem := Function.update s.sem h (s.sem h + 1) }

def waitQueue (t : Team) (s : State H) : Option (State H) :=
  (semWait (s.queueSem t)).map fun v => { s with queueSem := Function.update s.queueSem t v }

def postQueue (t : Team) (s : State H) : State H :=
  { s with queueSem := Function.update s.queueSem t (s.queueSem t + 1) }

def waitDept (s : State H) : Option (State H) :=
  (semWait s.dept.sem).map fun v => { s with dept := { s.dept with sem := v } }

def postDept (s : State H) : State H := { s with dept := { s.dept with sem := s.dept.sem + 1 } }

def waitCount (s : State H) : Option (State H) :=
  (semWait s.vCountSem).map fun v => { s with vCountSem := v }

def postCount (s : State H) : State H := { s with vCountSem := s.vCountSem + 1 }

/-- `if (queue[t] != NULL) sem_post(&queue[t]->sem);` -/
def wake (t : Team) (s : State H) : State H :=
  match s.queue t with
  | some g => s.post g
  | none => s

/-- `while (self->willReturn) { self->willReturn--; ...`. -/
def loop (h : H) (s : State H) : State H :=
  if s.willReturn h = 0 then s.goto h .done
  else { s with willReturn := Function.update s.willReturn h (s.willReturn h - 1) }.goto h .arriving

end State

/-- `current_wait_time`. -/
def currentWaitTime (s : State H) (h : H) (now : Int) : Int := now - s.t h

/-- The first half of `dequeue_human`; `State.wake` is the second. -/
def dequeueHuman [DecidableEq H] (alignment : Team) (s : State H) : State H :=
  match s.queue alignment with
  | some tmp =>
    { s with
      queue := Function.update s.queue alignment (s.next tmp)
      next := Function.update s.next tmp none }
  | none => s

section Walks

variable [DecidableEq H] [Fintype H] (c : Setup H)

/-- The state in which the threads start; the first round of each has begun. -/
def init : State H where
  sem _ := 0
  next _ := none
  t _ := 0
  visit _ := []
  willReturn _ := 0
  pc _ := .arriving
  queue _ := none
  queueSem _ := 1
  dept := initDepartment c.start c.chairs c.created
  vCountSem := 1
  visitsLeft := Fintype.card H
  aborted := false

/-- `queue_human`. -/
def queueHuman (hum : H) (now : Int) (s : State H) : Option (State H) :=
  let s := { s with t := Function.update s.t hum now }
  match s.queue (c.team hum) with
  | none => some { s with queue := Function.update s.queue (c.team hum) (some hum) }
  | some head => do
    let cur ← lastFrom s.next (Fintype.card H) head
    some { s with next := Function.update s.next cur (some hum) }

/-- `queue_count`. -/
def queueCount (s : State H) (alignment : Team) : Option Nat :=
  match s.queue alignment with
  | none => some 0
  | some head => countFrom s.next (Fintype.card H) head 1

/-- The condition under which `enter_department` and `leave_department` start a
change of hands. -/
def swapDue (hum : H) (headNow : Int) (s : State H) : Option Bool :=
  match s.dept.alignment, s.queue (c.team hum).other with
  | .team a, some head => do
    let own ← queueCount s (c.team hum)
    let other ← queueCount s (c.team hum).other
    some (decide (own + swapBuffer < other) || (s.queue a).isNone ||
      decide (swapTimeout ≤ currentWaitTime s head headNow))
  | _, _ => some false

/-- The test and the switch: `PIRATE` becomes `TO_NINJA`, `NINJA` `TO_PIRATE`. -/
def startSwap (hum : H) (headNow : Int) (s : State H) : Option (State H) := do
  let due ← swapDue c hum headNow s
  match s.dept.alignment with
  | .team a =>
    some (if due then s.align (.toTeam a.other) else s)
  | .toTeam _ => some s

/-- Somebody of the other team is in a chair. -/
def fight (hum : H) (s : State H) : Bool :=
  (List.finRange 4).any fun i =>
    match s.dept.seated i with
    | some g => c.team g == (c.team hum).other
    | none => false

/-- The visit is recorded and a chair is taken. -/
def sit (hum : H) (l : Label H) (s : State H) : State H :=
  let visit := createVisit (currentWaitTime s hum l.now) l.visitTime
  { s with
    visit := Function.update s.visit hum (visit :: s.visit hum)
    dept := s.dept.seat hum l.visitTime l.chairNow }

/-- `enter_department`. -/
def enterDepartment (hum : H) (l : Label H) (s : State H) : Option (State H) :=
  let s := sit hum l s
  if fight c hum s then some { s with aborted := true } else startSwap c hum l.headNow s

/-- The change of hands is over when the last one is out. -/
def endSwap (s : State H) : State H :=
  match s.dept.alignment with
  | .toTeam a => if allEmpty s.dept then s.align (.team a) else s
  | .team _ => s

/-- `leave_department`, up to its first semaphore operation. -/
def leaveDepartment (hum : H) (l : Label H) (s : State H) : Option (State H) :=
  (startSwap c hum l.headNow { s with dept := s.dept.stand hum }).map endSwap

/-- The step of thread `l.who` at `pc`. -/
def act (l : Label H) (s : State H) : Pc → Option (State H)
  | .arriving => (s.waitQueue (c.team l.who)).map (·.goto l.who .queueing)
  | .queueing => (queueHuman c l.who l.now s).map fun s =>
      s.goto l.who (if s.queue (c.team l.who) = some l.who then .postSelf else .unlockArrival)
  | .postSelf => some ((s.post l.who).goto l.who .unlockArrival)
  | .unlockArrival => some ((s.postQueue (c.team l.who)).goto l.who .waitTurn)
  | .waitTurn => (s.waitSelf l.who).map (·.goto l.who .askDept)
  | .askDept => s.waitDept.map (·.goto l.who .testing)
  | .testing => some (s.goto l.who
      (if s.dept.alignment = .team (c.team l.who) ∧ chairFree s.dept then .lockQueue
        else .turnedAway))
  | .turnedAway => some (s.postDept.goto l.who .waitAgain)
  | .waitAgain => (s.waitSelf l.who).map (·.goto l.who .askDept)
  | .lockQueue => (s.waitQueue (c.team l.who)).map (·.goto l.who .dequeueing)
  | .dequeueing => some ((dequeueHuman (c.team l.who) s).goto l.who .postNext)
  | .postNext => some ((s.wake (c.team l.who)).goto l.who .entering)
  | .entering => (enterDepartment c l.who l s).map fun s =>
      if s.aborted then s else s.goto l.who .unlockQueue
  | .unlockQueue => some ((s.postQueue (c.team l.who)).goto l.who .unlockDept)
  | .unlockDept => some (s.postDept.goto l.who .costuming)
  | .costuming => s.waitDept.map (·.goto l.who .leaving)
  | .leaving => (leaveDepartment c l.who l s).map (·.goto l.who .lockOwner)
  | .lockOwner => (s.waitQueue s.dept.alignment.teamAlignment).map (·.goto l.who .wakeHead)
  | .wakeHead => some ((s.wake s.dept.alignment.teamAlignment).goto l.who .unlockOwner)
  | .unlockOwner => some ((s.postQueue s.dept.alignment.teamAlignment).goto l.who .unlockLeft)
  | .unlockLeft => some (s.postDept.goto l.who .tossing)
  | .tossing => some (
      if l.returns then
        { s with willReturn := Function.update s.willReturn l.who (s.willReturn l.who + 1) }.loop
          l.who
      else s.goto l.who .askCount)
  | .askCount => s.waitCount.map (·.goto l.who .counting)
  | .counting => some ({ s with visitsLeft := s.visitsLeft - 1 }.goto l.who .unlockCount)
  | .unlockCount => some (s.postCount.loop l.who)
  | .done => none

/-- A step of some thread, with the place it was at. -/
def step (l : Label H) (s : State H) : Option (Pc × State H) :=
  if s.aborted then none else (act c l s (s.pc l.who)).map fun s' => (s.pc l.who, s')

/-- The steps of a run and where each was taken. -/
abbrev History (H : Type) := List (Label H × Pc)

/-- The steps `ls` taken one after the other from the start. -/
def steps (ls : List (Label H)) : Option (History H × State H) := run (step c) ls (init c)

end Walks

end OsProjects.Pvn
