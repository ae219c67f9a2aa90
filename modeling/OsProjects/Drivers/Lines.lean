import OsProjects.Drivers.Steps
import OsProjects.Lib.Queues

/-!
# The four queues

A car is in the queue of its trip from `queue_car` to `dequeue_car`, and a car that has
passed `wait_for_queue` is its head. So `dequeue_car` takes off the car that runs it, and
the crawl of `queue_car` ends.
-/

namespace OsProjects.Drivers

open OsProjects.Lib

namespace Pc

/-- Between the queue operations of `queue_car` and `dequeue_car`. -/
def queued : Pc → Bool
  | .choosing | .lockJoin | .joining | .signalNext | .unlockDequeue => false
  | _ => true

/-- Past the test in `wait_for_queue`, and still in the queue. -/
def atFront : Pc → Bool
  | .unlockFront | .lockCross | .testTurn | .signalSelf | .waitTurn | .sleepTurn | .acquire _
  | .unlockCross | .crossing | .departing | .release _ | .stopping | .lockScan _ | .scan _
  | .signalHead _ | .unlockScan _ | .unlockLeave | .lockDequeue | .dequeueing => true
  | _ => false

theorem queued_succ (pc : Pc) : ∀ pc' ∈ pc.succ, pc.editsQueue = false →
    pc'.queued = pc.queued := by
  cases pc with
  | acquire i | release i | lockScan i | scan i | signalHead i | unlockScan i =>
    cases i <;> decide
  | _ => decide

theorem atFront_succ (pc : Pc) : ∀ pc' ∈ pc.succ, pc'.atFront = true →
    pc.atFront = true ∧ pc ≠ .dequeueing ∨ pc = .testFront := by
  cases pc with
  | acquire i | release i | lockScan i | scan i | signalHead i | unlockScan i =>
    cases i <;> decide
  | _ => decide

theorem queued_of_atFront (pc : Pc) (h : pc.atFront = true) : pc.queued = true := by
  cases pc <;> first | rfl | cases h

end Pc

variable {C : Type}

/-- The queues are the lists `q` of the cars in them, and who has arrived is a head. -/
structure Lined (s : State C) (q : Direction → List C) : Prop where
  queues : Queues s.next s.queue q
  mem : ∀ i g, g ∈ q i ↔ (s.pc g).queued = true ∧ s.qid g = i
  front : ∀ g, (s.pc g).atFront = true → s.queue (s.qid g) = some g

/-- What a step of `car`, whose trip goes through queue `i`, does to the lists. -/
def Passes [DecidableEq C] (car : C) (i : Direction) (q q' : Direction → List C) : Pc → Prop
  | .joining => q' = Function.update q i (q i ++ [car])
  | .dequeueing => q = Function.update q' i (car :: q' i)
  | _ => q' = q

section Steps

variable {s s' : State C} {q : Direction → List C} {place : Pc} {car g : C} {i : Direction}

/-- A class of places that the step stays in, or stays out of, has the same members
afterwards. -/
theorem Frame.same (hf : Frame car place s s') (hplace : s.pc car = place) {f : Pc → Bool}
    (hsame : f (s'.pc car) = f place) (g : C) : f (s'.pc g) = f (s.pc g) := by
  by_cases hg : g = car
  · subst hg
    rw [hsame, hplace]
  · rw [hf.others g hg]

theorem Lined.head (hl : Lined s q) (hg : s.queue i = some g) :
    (s.pc g).queued = true ∧ s.qid g = i := (hl.mem i g).mp (hl.queues.mem_head hg)

theorem Lined.out (hl : Lined s q) (hg : (s.pc g).queued = false) : ∀ i, g ∉ q i := by
  intro i hi
  cases hg.symm.trans ((hl.mem i g).mp hi).1

/-- Two cars that have arrived at one side are the same. -/
theorem Lined.front_unique (hl : Lined s q) (hcar : (s.pc car).atFront = true)
    (hg : (s.pc g).atFront = true) (hqid : s.qid g = s.qid car) : g = car := by
  have hhead := hl.front g hg
  rw [hqid, hl.front car hcar] at hhead
  exact (Option.some.inj hhead).symm

variable [DecidableEq C] [Fintype C] {c : Setup C} {l : Label C} {line : Option (Line C)}

/-- The test in `wait_for_queue`. -/
theorem act_testFront (hact : act c l s .testFront = some (line, s')) :
    (s.queue (s.qid l.who) = some l.who ∧ line = some (.arrived l.who (s.qid l.who)) ∧
        s' = s.goto l.who .unlockFront) ∨
      (s.queue (s.qid l.who) ≠ some l.who ∧ line = none ∧ s' = s.goto l.who .waitFront) := by
  by_cases hfront : s.queue (s.qid l.who) = some l.who
  · simp only [act, if_pos hfront] at hact
    cases hact
    exact .inl ⟨hfront, rfl, rfl⟩
  · simp only [act, if_neg hfront] at hact
    cases hact
    exact .inr ⟨hfront, rfl, rfl⟩

theorem queueCar_eq (car : C) (qid : Direction) (s : State C) :
    queueCar car qid s = (enqueue s.next s.queue qid car).map fun x =>
      { s with next := x.1, queue := x.2 } := by
  unfold queueCar enqueue
  cases s.queue qid with
  | none => rfl
  | some head =>
    show (lastFrom s.next (Fintype.card C) head).bind _ = Option.map _ (Option.map _ _)
    cases lastFrom s.next (Fintype.card C) head <;> rfl

/-- A head stays, until `dequeue_car` takes it off. -/
theorem act_head (hact : act c l s place = some (line, s')) (hhead : s.queue i = some g)
    (hstays : place = .dequeueing → s.qid l.who ≠ i) : s'.queue i = some g := by
  obtain ⟨hf, -⟩ := act_frame hact
  cases hno : place.editsQueue with
  | false => rwa [(hf.queue hno).1]
  | true =>
    cases place with
    | joining =>
      obtain ⟨s₁, h₁, hs'⟩ := Option.map_eq_some_iff.mp hact
      cases hs'
      rw [queueCar_eq] at h₁
      obtain ⟨⟨next, queue⟩, henq, heq⟩ := Option.map_eq_some_iff.mp h₁
      cases heq
      exact enqueue_head henq hhead
    | dequeueing =>
      obtain ⟨s₁, h₁, hs'⟩ := Option.map_eq_some_iff.mp hact
      cases hs'
      obtain ⟨tmp, -, rfl⟩ := dequeueCar_eq_some.mp h₁
      exact (Function.update_of_ne (Ne.symm (hstays rfl)) ..).trans hhead
    | _ => cases hno

/-- Steps that change no queue. -/
theorem Lined.plain_step (hl : Lined s q) (hf : Frame l.who place s s')
    (hplace : s.pc l.who = place) (hact : act c l s place = some (line, s'))
    (hno : place.editsQueue = false) : Lined s' q := by
  obtain ⟨hqueue, hnext⟩ := hf.queue hno
  have hq : ∀ g, (s'.pc g).queued = (s.pc g).queued :=
    hf.same hplace (Pc.queued_succ place _ hf.succ hno)
  -- a new `qid` is drawn by a car in no queue
  have hqid : ∀ g, (s.pc g).queued = true → s'.qid g = s.qid g := by
    intro g hg
    by_cases hch : place = .choosing
    · have hgw : g ≠ l.who := by
        rintro rfl
        rw [hplace, hch] at hg
        cases hg
      subst hch
      cases hact
      exact Function.update_of_ne hgw ..
    · rw [hf.qid hch]
  refine ⟨by rw [hqueue, hnext]; exact hl.queues, ?_, ?_⟩
  · intro i g
    rw [hq, hl.mem]
    constructor
    · rintro ⟨hin, rfl⟩
      exact ⟨hin, hqid g hin⟩
    · rintro ⟨hin, rfl⟩
      exact ⟨hin, (hqid g hin).symm⟩
  · intro g hg
    have hqid' : s'.qid g = s.qid g := by
      refine hqid g ?_
      rw [← hq]
      exact Pc.queued_of_atFront _ hg
    rw [hqueue, hqid']
    by_cases hgw : g = l.who
    · subst hgw
      rcases Pc.atFront_succ place _ hf.succ hg with ⟨hat, -⟩ | rfl
      · exact hl.front _ (by rw [hplace]; exact hat)
      · rcases act_testFront hact with ⟨hhead, -, -⟩ | ⟨-, -, rfl⟩
        · exact hhead
        · rw [goto_pc_self] at hg
          cases hg
    · rw [hf.others g hgw] at hg
      exact hl.front g hg

theorem Lined.join_step (hl : Lined s q) (hf : Frame l.who .joining s s')
    (hplace : s.pc l.who = .joining) (hact : act c l s .joining = some (line, s')) :
    Lined s' (Function.update q (s.qid l.who) (q (s.qid l.who) ++ [l.who])) := by
  have hout : ∀ i, l.who ∉ q i := hl.out (by rw [hplace]; rfl)
  obtain ⟨next, queue, heq, hqueues⟩ := hl.queues.enqueue_spec hout (s.qid l.who)
  have hpc : s'.pc l.who = .unlockJoin := List.mem_singleton.mp hf.succ
  obtain ⟨s₁, h₁, hs'⟩ := Option.map_eq_some_iff.mp hact
  rw [queueCar_eq, heq] at h₁
  cases h₁
  cases hs'
  refine ⟨hqueues, ?_, ?_⟩
  · intro i g
    show g ∈ Function.update q (s.qid l.who) (q (s.qid l.who) ++ [l.who]) i ↔ _ ∧ s.qid g = i
    rw [mem_snoc]
    by_cases hg : g = l.who
    · subst hg
      rw [hpc]
      simp [Pc.queued, hout i, eq_comm]
    · rw [hf.others g hg, ← hl.mem]
      simp [hg]
  · intro g hg
    have hgw : g ≠ l.who := by
      rintro rfl
      rw [hpc] at hg
      cases hg
    rw [hf.others g hgw] at hg
    exact act_head hact (hl.front g hg) nofun

/-- `dequeue_car` finds its own car at the head. -/
theorem Lined.dequeue_step (hl : Lined s q) (hf : Frame l.who .dequeueing s s')
    (hplace : s.pc l.who = .dequeueing) (hact : act c l s .dequeueing = some (line, s')) :
    ∃ q', Lined s' q' ∧ Passes l.who (s.qid l.who) q q' .dequeueing := by
  have hfront : ∀ g, s.pc g = .dequeueing → s.queue (s.qid g) = some g := by
    intro g hg
    exact hl.front g (by rw [hg]; rfl)
  have hhead := hfront l.who hplace
  obtain ⟨rest, hrest, hqueues⟩ := hl.queues.dequeue hhead
  have hin : (s'.pc l.who).queued = false ∧ (s'.pc l.who).atFront = false := by
    rcases List.mem_pair.mp hf.succ with hpc | hpc <;> rw [hpc] <;> exact ⟨rfl, rfl⟩
  obtain ⟨s₁, h₁, hs'⟩ := Option.map_eq_some_iff.mp hact
  cases hs'
  obtain ⟨tmp, htmp, rfl⟩ := dequeueCar_eq_some.mp h₁
  rw [hhead] at htmp
  cases htmp
  refine ⟨_, ⟨hqueues, ?_, ?_⟩, ?_⟩
  · intro i g
    show g ∈ Function.update q (s.qid l.who) rest i ↔ _ ∧ s.qid g = i
    rw [hl.queues.mem_tail hrest]
    by_cases hg : g = l.who
    · subst hg
      rw [hin.1]
      simp
    · rw [hf.others g hg, ← hl.mem]
      simp [hg]
  · -- front: the heads of the other queues stay
    intro g hg
    have hgw : g ≠ l.who := by
      rintro rfl
      rw [hin.2] at hg
      cases hg
    rw [hf.others g hgw] at hg
    have hqid : s.qid g ≠ s.qid l.who := fun heq =>
      hgw (hl.front_unique (by rw [hplace]; rfl) hg heq)
    exact act_head hact (hl.front g hg) fun _ => Ne.symm hqid
  · rw [Passes, Function.update_self, Function.update_idem, ← hrest, Function.update_eq_self]

theorem Lined.step {a : Answer C} (hl : Lined s q) (hs : Drivers.step c l s = some (a, s')) :
    ∃ q', Lined s' q' ∧ Passes l.who (s.qid l.who) q q' (s.pc l.who) := by
  obtain ⟨-, hact⟩ := step_inv hs
  obtain ⟨hf, -⟩ := act_frame hact
  cases hed : (s.pc l.who).editsQueue with
  | false =>
    refine ⟨q, hl.plain_step hf rfl hact hed, ?_⟩
    cases hplace : s.pc l.who with
    | joining | dequeueing =>
      rw [hplace] at hed
      cases hed
    | _ => rfl
  | true =>
    cases hplace : s.pc l.who with
    | joining =>
      rw [hplace] at hact hf
      exact ⟨_, hl.join_step hf hplace hact, rfl⟩
    | dequeueing =>
      rw [hplace] at hact hf
      exact hl.dequeue_step hf hplace hact
    | _ =>
      rw [hplace] at hed
      cases hed

end Steps

theorem init_lined : Lined (init : State C) fun _ => [] where
  queues := .empty fun _ => rfl
  mem i g := by simp [init, Pc.queued]
  front _ := nofun

theorem steps_lined [DecidableEq C] [Fintype C] (c : Setup C) :
    ∀ ls tr s, steps c ls = some (tr, s) → ∃ q, Lined s q := by
  refine run_rule (P := fun _ s => ∃ q, Lined s q) ⟨_, init_lined⟩ ?_
  rintro tr s l a s' ⟨q, hl⟩ hs
  obtain ⟨q', hl', -⟩ := hl.step hs
  exact ⟨q', hl'⟩

end OsProjects.Drivers
