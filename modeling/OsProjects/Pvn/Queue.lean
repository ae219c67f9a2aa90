import OsProjects.Lib.Queues
import OsProjects.Pvn.Chairs

/-!
# The queues

A token of a human's own semaphore is meant to say "you are at the head of your
queue", but tokens are only counted: one that is left over from an earlier visit
lets its owner pass although somebody else is in front. `Disciplined` runs are those
in which nobody queues up behind somebody else with a token left. In them the queues
are proper lists of exactly the humans that wait, tokens mean what they are meant to,
and everybody takes only themselves off, in the order of arrival.
-/

namespace OsProjects.Pvn

open OsProjects.Lib

namespace Pc

/-- Between `queue_human` and the human's own `dequeue_human`. -/
def queued : Pc → Bool
  | .postSelf | .unlockArrival | .waitTurn | .askDept | .testing | .turnedAway | .waitAgain
  | .lockQueue | .dequeueing => true
  | _ => false

/-- Queued, and past the first `sem_wait(&self->sem)` or about to post it. -/
def called : Pc → Bool
  | .postSelf | .askDept | .testing | .turnedAway | .waitAgain | .lockQueue | .dequeueing => true
  | _ => false

/-- Off the queue, on the way to a chair. -/
def boarding : Pc → Bool
  | .postNext | .entering => true
  | _ => false

theorem holdsDept_of_boarding (pc : Pc) (h : pc.boarding = true) : pc.holdsDept = true := by
  cases pc <;> first | rfl | cases h

theorem boarding_succ (pc : Pc) : ∀ pc' ∈ pc.succ, pc ≠ .dequeueing → pc ≠ .entering →
    pc'.boarding = pc.boarding := by
  cases pc <;> decide

theorem queued_succ (pc : Pc) : ∀ pc' ∈ pc.succ, pc.editsQueue = false →
    pc'.queued = pc.queued := by
  cases pc <;> decide

theorem called_succ (pc : Pc) : ∀ pc' ∈ pc.succ, pc.editsQueue = false → pc'.called = true →
    pc.called = true ∨ pc = .waitTurn := by
  cases pc <;> decide

end Pc

variable {H : Type}

/-- `who`, if it is of team `t` and the step is one at `site`. -/
def moved (c : Setup H) (who : H) (place site : Pc) (t : Team) : List H :=
  if place = site ∧ c.team who = t then [who] else []

/-- The humans of team `t` that took the step at `site`, oldest first. -/
def passed (c : Setup H) (site : Pc) (tr : History H) (t : Team) : List H :=
  tr.flatMap fun e => moved c e.1.who e.2 site t

/-- Who ran `queue_human`, in order. -/
abbrev arrivals (c : Setup H) (tr : History H) (t : Team) : List H := passed c .queueing tr t

/-- Who ran `enter_department`, in order. -/
abbrev entries (c : Setup H) (tr : History H) (t : Team) : List H := passed c .entering tr t

theorem passed_snoc (c : Setup H) (site : Pc) (tr : History H) (e : Label H × Pc) (t : Team) :
    passed c site (tr ++ [e]) t = passed c site tr t ++ moved c e.1.who e.2 site t := by
  simp [passed]

/-- Nobody queues up behind somebody else with a token left. -/
def Disciplined (c : Setup H) (l : Label H) (s : State H) : Prop :=
  s.pc l.who = .queueing → s.sem l.who = 0 ∨ s.queue (c.team l.who) = none

/-- The queues are the lists `q` of the waiting humans, and only heads are called. -/
structure Lined (c : Setup H) (s : State H) (q : Team → List H) : Prop where
  linked : ∀ t, Linked s.next (s.queue t) (q t)
  mem : ∀ t h, h ∈ q t ↔ c.team h = t ∧ (s.pc h).queued = true
  fresh : ∀ h, (s.pc h).queued = false → s.next h = none
  turn : ∀ h, (s.pc h).queued = true → 0 < s.sem h ∨ (s.pc h).called = true →
    s.queue (c.team h) = some h

/-- A step at `place` puts `who` behind its list when it is one at `enter`, and takes
it off the head when it is one at `leave`. -/
def Shift (c : Setup H) (who : H) (place enter leave : Pc) (q q' : Team → List H) : Prop :=
  ∀ t, q t ++ moved c who place enter t = moved c who place leave t ++ q' t

section Steps

variable {c : Setup H} {s s' : State H} {q : Team → List H} {h : H} {t : Team}

theorem Lined.queues (hl : Lined c s q) : Queues s.next s.queue q where
  linked := hl.linked
  disjoint t t' h hin hin' := ((hl.mem t h).mp hin).1.symm.trans ((hl.mem t' h).mp hin').1
  fresh h hout := by
    refine hl.fresh h (Bool.eq_false_iff.mpr fun hin => ?_)
    exact hout (c.team h) ((hl.mem _ h).mpr ⟨rfl, hin⟩)

/-- What is to be shown of new queues. -/
theorem Lined.of_queues (hq : Queues s.next s.queue q)
    (hmem : ∀ t h, h ∈ q t ↔ c.team h = t ∧ (s.pc h).queued = true)
    (hturn : ∀ h, (s.pc h).queued = true → 0 < s.sem h ∨ (s.pc h).called = true →
      s.queue (c.team h) = some h) : Lined c s q where
  linked := hq.linked
  mem := hmem
  fresh h hout := hq.fresh h fun t hin => by cases hout.symm.trans ((hmem t h).mp hin).2
  turn := hturn

/-- The head of a queue is of its team. -/
theorem Lined.head (hl : Lined c s q) (hh : s.queue t = some h) :
    c.team h = t ∧ (s.pc h).queued = true := (hl.mem t h).mp (hl.queues.mem_head hh)

theorem Lined.out (hl : Lined c s q) (hout : (s.pc h).queued = false) : ∀ t, h ∉ q t := by
  intro t hin
  cases hout.symm.trans ((hl.mem t h).mp hin).2

variable [DecidableEq H] [Fintype H] {l : Label H} {place : Pc}

/-- Steps that change no queue. -/
theorem Lined.plain_step (hl : Lined c s q) (hr : ∀ g, s.willReturn g = 0)
    (hf : Frame l.who place s s') (hplace : s.pc l.who = place)
    (hact : act c l s place = some s') (hsucc : s'.pc l.who ∈ place.succ)
    (hno : place.editsQueue = false) : Lined c s' q := by
  obtain ⟨hqueue, hnext⟩ := hf.queue hno
  have hq : ∀ g, (s'.pc g).queued = (s.pc g).queued :=
    hf.same hplace (Pc.queued_succ place _ hsucc hno)
  refine ⟨?_, ?_, ?_, ?_⟩
  · intro t
    rw [hqueue, hnext]
    exact hl.linked t
  · intro t g
    rw [hq]
    exact hl.mem t g
  · intro g hg
    rw [hq] at hg
    rw [hnext]
    exact hl.fresh g hg
  · -- turn: a new token goes to the head of a queue, or to somebody about to post itself,
    -- and who passes the first wait had a token
    intro g hg hturn
    rw [hq] at hg
    rw [hqueue]
    rcases hturn with hsem | hcalled
    · rw [act_sem hr hact] at hsem
      rcases tokens_pos hsem with hold | ⟨rfl, rfl⟩ | ⟨t, ht⟩
      · exact hl.turn g hg (.inl hold)
      · exact hl.turn _ hg (.inr (by rw [hplace]; rfl))
      · rw [(hl.head ht).1]
        exact ht
    · by_cases hgw : g = l.who
      · subst hgw
        rcases Pc.called_succ place _ hsucc hno hcalled with hcalled | rfl
        · exact hl.turn _ hg (.inr (by rw [hplace]; exact hcalled))
        · exact hl.turn _ hg (.inl (act_wait_pos hact (.inl rfl)))
      · rw [hf.others g hgw] at hcalled
        exact hl.turn g hg (.inr hcalled)

/-- `dequeue_human` takes off the human that runs it. -/
theorem Lined.dequeueing_spec (hl : Lined c s q) (hplace : s.pc l.who = .dequeueing)
    (hact : act c l s .dequeueing = some s') :
    s.queue (c.team l.who) = some l.who ∧
      s'.queue = Function.update s.queue (c.team l.who) (s.next l.who) ∧
      s'.next = Function.update s.next l.who none := by
  have hhead : s.queue (c.team l.who) = some l.who :=
    hl.turn l.who (by rw [hplace]; rfl) (.inr (by rw [hplace]; rfl))
  cases hact
  unfold dequeueHuman
  rw [hhead]
  exact ⟨rfl, rfl, rfl⟩

theorem Lined.dequeue_step (hl : Lined c s q) (hf : Frame l.who .dequeueing s s')
    (hplace : s.pc l.who = .dequeueing) (hact : act c l s .dequeueing = some s')
    (hsucc : s'.pc l.who ∈ Pc.dequeueing.succ) :
    ∃ q', Lined c s' q' ∧ Shift c l.who .dequeueing .queueing .dequeueing q q' := by
  obtain ⟨hhead, hqueue, hnext⟩ := hl.dequeueing_spec hplace hact
  have hpc : s'.pc l.who = .postNext := List.mem_singleton.mp hsucc
  obtain ⟨rest, hrest, hqueues⟩ := hl.queues.dequeue hhead
  refine ⟨Function.update q (c.team l.who) rest,
    .of_queues (by rw [hqueue, hnext]; exact hqueues) ?_ ?_, ?_⟩
  · intro t g
    rw [hl.queues.mem_tail hrest]
    by_cases hg : g = l.who
    · subst hg
      rw [hpc]
      simp [Pc.queued]
    · rw [hf.others g hg, ← hl.mem]
      simp [hg]
  · -- turn: whoever else may pass is a head, and of the other team
    intro g hg hturn
    have hgw : g ≠ l.who := by
      rintro rfl
      rw [hpc] at hg
      cases hg
    rw [hf.others g hgw] at hg hturn
    rw [hf.sem rfl] at hturn
    have hold := hl.turn g hg hturn
    have ht : c.team g ≠ c.team l.who := by
      intro heq
      rw [heq, hhead] at hold
      exact hgw (Option.some.inj hold).symm
    rw [hqueue, Function.update_of_ne ht]
    exact hold
  · intro t
    by_cases ht : c.team l.who = t
    · subst ht
      rw [Function.update_self, hrest]
      simp [moved]
    · rw [Function.update_of_ne (Ne.symm ht)]
      simp [moved, ht]

theorem queueHuman_eq (c : Setup H) (h : H) (now : Int) (s : State H) :
    queueHuman c h now s = (enqueue s.next s.queue (c.team h) h).map fun x =>
      { s with t := Function.update s.t h now, next := x.1, queue := x.2 } := by
  unfold queueHuman enqueue
  dsimp only
  cases s.queue (c.team h) with
  | none => rfl
  | some head =>
    show (lastFrom s.next (Fintype.card H) head).bind _ = Option.map _ (Option.map _ _)
    cases lastFrom s.next (Fintype.card H) head <;> rfl

/-- `queue_human` puts a human that is not queued behind the list of its team. -/
theorem Lined.queueing_spec (hl : Lined c s q) (hplace : s.pc l.who = .queueing)
    (hact : act c l s .queueing = some s') :
    Queues s'.next s'.queue (Function.update q (c.team l.who) (q (c.team l.who) ++ [l.who])) ∧
      (s.queue (c.team l.who) = none ∧
          s'.queue = Function.update s.queue (c.team l.who) (some l.who) ∨
        s.queue (c.team l.who) ≠ none ∧ s'.queue = s.queue) ∧
      s'.pc l.who = if s'.queue (c.team l.who) = some l.who then .postSelf
        else .unlockArrival := by
  obtain ⟨s₁, h₁, rfl⟩ := Option.map_eq_some_iff.mp hact
  obtain ⟨next, queue, henq, hqueues⟩ :=
    hl.queues.enqueue_spec (hl.out (by rw [hplace]; rfl)) (c.team l.who)
  rw [queueHuman_eq, henq] at h₁
  cases h₁
  exact ⟨hqueues, enqueue_cases henq, goto_pc_self ..⟩

/-- `queue_human`, by somebody without a token left or at an empty queue. -/
theorem Lined.queue_step (hl : Lined c s q) (hf : Frame l.who .queueing s s')
    (hplace : s.pc l.who = .queueing) (hact : act c l s .queueing = some s')
    (hd : Disciplined c l s) :
    ∃ q', Lined c s' q' ∧ Shift c l.who .queueing .queueing .dequeueing q q' := by
  obtain ⟨hqueues, hcase, hpc⟩ := hl.queueing_spec hplace hact
  have hin : (s'.pc l.who).queued = true := by
    rw [hpc]
    split <;> rfl
  refine ⟨_, .of_queues hqueues ?_ ?_, ?_⟩
  · intro t g
    rw [mem_snoc]
    by_cases hg : g = l.who
    · subst hg
      rw [hin]
      simp [hl.out (show (s.pc l.who).queued = false by rw [hplace]; rfl) t, eq_comm]
    · rw [hf.others g hg, ← hl.mem]
      simp [hg]
  · -- turn: here the discipline is used; a left-over token would let `l.who` pass from behind
    intro g hg hturn
    rw [hf.sem rfl] at hturn
    by_cases hgw : g = l.who
    · subst hgw
      rcases hcase with ⟨-, hnew⟩ | ⟨hne, hsame⟩
      · rw [hnew, Function.update_self]
      · rcases hturn with hsem | hcalled
        · rcases hd hplace with hzero | hnone
          · omega
          · exact absurd hnone hne
        · by_contra hfront
          rw [hpc, if_neg hfront] at hcalled
          cases hcalled
    · rw [hf.others g hgw] at hg hturn
      have hold := hl.turn g hg hturn
      rcases hcase with ⟨hnone, hnew⟩ | ⟨-, hsame⟩
      · have ht : c.team g ≠ c.team l.who := by
          intro heq
          rw [heq, hnone] at hold
          cases hold
        rw [hnew, Function.update_of_ne ht, hold]
      · rw [hsame]
        exact hold
  · intro t
    by_cases ht : c.team l.who = t
    · subst ht
      rw [Function.update_self]
      simp [moved]
    · rw [Function.update_of_ne (Ne.symm ht)]
      simp [moved, ht]

theorem Lined.step (hl : Lined c s q) (ho : Orderly c s) (hd : Disciplined c l s)
    (hs : step c l s = some (place, s')) :
    ∃ q', Lined c s' q' ∧ Shift c l.who place .queueing .dequeueing q q' := by
  obtain ⟨hplace, hact, hf, hsucc⟩ := ho.moves hs
  cases hed : place.editsQueue with
  | false =>
    refine ⟨q, hl.plain_step ho.willReturn hf hplace hact hsucc hed, ?_⟩
    intro t
    have h1 : place ≠ .queueing := by rintro rfl; cases hed
    have h2 : place ≠ .dequeueing := by rintro rfl; cases hed
    simp [moved, h1, h2]
  | true =>
    cases place with
    | queueing => exact hl.queue_step hf hplace hact hd
    | dequeueing => exact hl.dequeue_step hf hplace hact hsucc
    | _ => cases hed

omit [DecidableEq H] [Fintype H] in
/-- Who holds `dept.sem` is the only one who may be on the way to a chair. -/
theorem Orderly.not_boarding (ho : Orderly c s) {w g : H} (hw : (s.pc w).holdsDept = true)
    (hg : g ≠ w) : (s.pc g).boarding = false := by
  by_contra hin
  have hin := Pc.holdsDept_of_boarding _ (Bool.eq_true_of_not_eq_false hin)
  rw [ho.alone hw hg] at hin
  cases hin

/-- The lists `b` of the humans on the way to a chair. -/
structure Boarding (c : Setup H) (s : State H) (b : Team → List H) : Prop where
  mem : ∀ t h, h ∈ b t ↔ c.team h = t ∧ (s.pc h).boarding = true
  nodup : ∀ t, (b t).Nodup

omit [Fintype H] in
/-- `dequeue_human` finds nobody on the way to a chair, and puts its human there. -/
theorem Boarding.dequeue_step {b : Team → List H} (hb : Boarding c s b) (ho : Orderly c s)
    (hf : Frame l.who .dequeueing s s') (hplace : s.pc l.who = .dequeueing)
    (hsucc : s'.pc l.who ∈ Pc.dequeueing.succ) :
    ∃ b', Boarding c s' b' ∧ Shift c l.who .dequeueing .dequeueing .entering b b' := by
  have hothers : ∀ g, g ≠ l.who → (s.pc g).boarding = false :=
    fun g => ho.not_boarding (by rw [hplace]; rfl)
  have hpc : s'.pc l.who = .postNext := List.mem_singleton.mp hsucc
  have hnil : ∀ t, b t = [] := by
    intro t
    refine List.eq_nil_iff_forall_not_mem.mpr (fun g hg => ?_)
    have hin := ((hb.mem t g).mp hg).2
    by_cases hgw : g = l.who
    · rw [hgw, hplace] at hin
      cases hin
    · rw [hothers g hgw] at hin
      cases hin
  refine ⟨moved c l.who .dequeueing .dequeueing, ⟨?_, ?_⟩, ?_⟩
  · intro t g
    by_cases hgw : g = l.who
    · subst hgw
      rw [hpc]
      by_cases ht : c.team l.who = t <;> simp [moved, ht, Pc.boarding]
    · rw [hf.others g hgw, hothers g hgw]
      by_cases ht : c.team l.who = t <;> simp [moved, ht, hgw]
  · intro t
    unfold moved
    split
    · exact List.nodup_singleton _
    · exact List.nodup_nil
  · intro t
    rw [hnil]
    simp [moved]

omit [Fintype H] in
/-- `enter_department` seats the only human on the way to a chair. -/
theorem Boarding.enter_step {b : Team → List H} (hb : Boarding c s b) (ho : Orderly c s)
    (hf : Frame l.who .entering s s') (hplace : s.pc l.who = .entering)
    (hsucc : s'.pc l.who ∈ Pc.entering.succ) :
    ∃ b', Boarding c s' b' ∧ Shift c l.who .entering .dequeueing .entering b b' := by
  have hothers : ∀ g, g ≠ l.who → (s.pc g).boarding = false :=
    fun g => ho.not_boarding (by rw [hplace]; rfl)
  have hpc : s'.pc l.who = .unlockQueue := List.mem_singleton.mp hsucc
  refine ⟨fun _ => [], ⟨?_, fun _ => List.nodup_nil⟩, ?_⟩
  · intro t g
    by_cases hgw : g = l.who
    · subst hgw
      rw [hpc]
      simp [Pc.boarding]
    · rw [hf.others g hgw, hothers g hgw]
      simp
  · intro t
    have hall : ∀ g ∈ b t, g = l.who := by
      intro g hg
      by_contra hgw
      have hin := ((hb.mem t g).mp hg).2
      rw [hothers g hgw] at hin
      cases hin
    by_cases ht : c.team l.who = t
    · -- a list without repetition that holds `l.who` and nobody else
      have hmem : l.who ∈ b t := (hb.mem t _).mpr ⟨ht, by rw [hplace]; rfl⟩
      have hlen : b t = List.replicate (b t).length l.who := List.eq_replicate_of_mem hall
      have hone : (b t).length ≤ 1 := by
        have := hb.nodup t
        rw [hlen] at this
        exact List.nodup_replicate.mp this
      have hpos := List.length_pos_of_mem hmem
      rw [hlen, show (b t).length = 1 by omega]
      simp [moved, ht]
    · have hnil : b t = [] := by
        refine List.eq_nil_iff_forall_not_mem.mpr (fun g hg => ht ?_)
        rw [← hall g hg]
        exact ((hb.mem t g).mp hg).1
      rw [hnil]
      simp [moved, ht]

theorem Boarding.step {b : Team → List H} (hb : Boarding c s b) (ho : Orderly c s)
    (hs : step c l s = some (place, s')) :
    ∃ b', Boarding c s' b' ∧ Shift c l.who place .dequeueing .entering b b' := by
  obtain ⟨hplace, -, hf, hsucc⟩ := ho.moves hs
  by_cases hdeq : place = .dequeueing
  · subst hdeq
    exact hb.dequeue_step ho hf hplace hsucc
  by_cases hent : place = .entering
  · subst hent
    exact hb.enter_step ho hf hplace hsucc
  refine ⟨b, ⟨?_, hb.nodup⟩, ?_⟩
  · intro t g
    rw [hf.same hplace (Pc.boarding_succ place _ hsucc hdeq hent)]
    exact hb.mem t g
  · intro t
    simp [moved, hdeq, hent]

end Steps

/-! ## Runs -/

/-- Everybody who arrived has entered, is on the way to a chair, or is queued, in the
order of arrival. -/
structure InOrder (c : Setup H) (tr : History H) (s : State H) (b q : Team → List H) : Prop where
  orderly : Orderly c s
  lined : Lined c s q
  boarding : Boarding c s b
  order : ∀ t, arrivals c tr t = entries c tr t ++ b t ++ q t

section Runs

variable [DecidableEq H] [Fintype H] {c : Setup H} {tr : History H} {s s' : State H}
  {b q : Team → List H} {l : Label H} {place : Pc}

theorem InOrder.step (h : InOrder c tr s b q) (hd : Disciplined c l s)
    (hs : step c l s = some (place, s')) : ∃ b' q', InOrder c (tr ++ [(l, place)]) s' b' q' := by
  obtain ⟨q', hlined, hq⟩ := h.lined.step h.orderly hd hs
  obtain ⟨b', hboard, hb⟩ := h.boarding.step h.orderly hs
  refine ⟨b', q', h.orderly.step hs, hlined, hboard, fun t => ?_⟩
  have harr : arrivals c (tr ++ [(l, place)]) t =
      arrivals c tr t ++ moved c l.who place .queueing t := passed_snoc ..
  have hent : entries c (tr ++ [(l, place)]) t =
      entries c tr t ++ moved c l.who place .entering t := passed_snoc ..
  -- `place` is at most one of the three sites, and each moves its human one list further
  calc arrivals c (tr ++ [(l, place)]) t
      = entries c tr t ++ b t ++ (q t ++ moved c l.who place .queueing t) := by
        rw [harr, h.order t, List.append_assoc]
    _ = entries c tr t ++ (b t ++ moved c l.who place .dequeueing t) ++ q' t := by
        rw [hq t]
        simp only [List.append_assoc]
    _ = entries c (tr ++ [(l, place)]) t ++ b' t ++ q' t := by
        rw [hb t, hent]
        simp only [List.append_assoc]

omit [DecidableEq H] in
theorem init_inOrder (c : Setup H) : InOrder c [] (init c) (fun _ => []) (fun _ => []) where
  orderly := init_orderly c
  lined := ⟨fun _ => rfl, fun _ _ => ⟨nofun, nofun⟩, fun _ _ => rfl, fun _ => nofun⟩
  boarding := ⟨fun _ _ => ⟨nofun, nofun⟩, fun _ => List.nodup_nil⟩
  order _ := rfl

theorem inOrder_of_steps (c : Setup H) (ls : List (Label H)) (tr : History H) (s : State H)
    (hrun : steps c ls = some (tr, s)) (hd : Guarded (step c) (Disciplined c) ls (init c)) :
    ∃ b q, InOrder c tr s b q := by
  have hstep : ∀ tr s l place s', (∃ b q, InOrder c tr s b q) → Disciplined c l s →
      Pvn.step c l s = some (place, s') → ∃ b q, InOrder c (tr ++ [(l, place)]) s' b q := by
    rintro tr s l place s' ⟨b, q, h⟩ hd hs
    exact h.step hd hs
  exact guarded_rule ⟨_, _, init_inOrder c⟩ hstep ls tr s hrun hd

/-- In every disciplined run: who runs `dequeue_human` is the head of their queue; the
queues hold exactly the humans between `queue_human` and their own `dequeue_human`,
the chairs exactly those between `enter_department` and `leave_department`; and
everybody who arrived has entered, is on the way to a chair, or is queued, in the
order of arrival. -/
theorem everybody_dequeues_themselves (c : Setup H) (ls : List (Label H)) (tr : History H)
    (s : State H) (hrun : steps c ls = some (tr, s))
    (hd : Guarded (step c) (Disciplined c) ls (init c)) :
    (∀ h, s.pc h = .dequeueing → s.queue (c.team h) = some h) ∧
    (∀ h, (∃ i, s.dept.seated i = some h) ↔ (s.pc h).inChair = true) ∧
    ∃ b q : Team → List H, (∀ t, Linked s.next (s.queue t) (q t)) ∧
      (∀ t h, h ∈ q t ↔ c.team h = t ∧ (s.pc h).queued = true) ∧
      (∀ t h, h ∈ b t ↔ c.team h = t ∧ (s.pc h).boarding = true) ∧
      ∀ t, arrivals c tr t = entries c tr t ++ b t ++ q t := by
  obtain ⟨b, q, h⟩ := inOrder_of_steps c ls tr s hrun hd
  refine ⟨?_, ?_, b, q, h.lined.linked, h.lined.mem, h.boarding.mem, h.order⟩
  · intro g hg
    exact h.lined.turn g (by rw [hg]; rfl) (.inr (by rw [hg]; rfl))
  · intro g
    constructor
    · rintro ⟨i, hi⟩
      exact h.orderly.seated i g hi
    · exact h.orderly.chair g

end Runs

/-! ## A left-over token -/

instance [DecidableEq H] (c : Setup H) (l : Label H) (s : State H) :
    Decidable (Disciplined c l s) :=
  inferInstanceAs (Decidable (_ → _ ∨ _))

/-- The fewest humans `main` accepts, ten of each team, two chairs, pirates first. -/
def tenEach : Setup (Fin 20) where
  team h := if h.val < 10 then .pirate else .ninja
  start := .pirate
  chairs := 2
  two_le := by decide
  le_four := by decide
  created _ := 0

/-- The same department for other humans. -/
def Setup.withHumans {G : Type} (c : Setup H) (team : G → Team) (created : Fin 4 → Int) :
    Setup G where
  team := team
  start := c.start
  chairs := c.chairs
  two_le := c.two_le
  le_four := c.le_four
  created := created

/-- A step of `h` in which everything takes no time and the coin is `returns`. -/
def Label.of {n : Nat} (h : Fin n) (returns : Bool) : Label (Fin n) where
  who := h
  now := 0
  chairNow := 0
  headNow := 0
  visitTime := 0
  returns := returns

/-- Pirate 1 is seated when pirate 0 queues up. -/
def secondInLine : List (Label (Fin 20)) :=
  List.replicate 13 (.of 1 true) ++ List.replicate 8 (.of 0 true)

theorem everybody_dequeues_themselves_second_in_line :
    ∃ tr s, steps tenEach secondInLine = some (tr, s) ∧
      Guarded (step tenEach) (Disciplined tenEach) secondInLine (init tenEach) ∧
      s.pc 0 = .dequeueing ∧ s.queue .pirate = some 0 := by
  have hd : Guarded (step tenEach) (Disciplined tenEach) secondInLine (init tenEach) :=
    Guarded.of_eval (by decide +kernel)
  have heval : (steps tenEach secondInLine).map (fun x => decide (x.2.pc 0 = .dequeueing)) =
      some true := by decide +kernel
  obtain ⟨⟨tr, s⟩, hrun, hpc⟩ := Option.map_eq_some_iff.mp heval
  have hpc := of_decide_eq_true hpc
  exact ⟨tr, s, hrun, hd, hpc, (everybody_dequeues_themselves _ _ tr s hrun hd).1 0 hpc⟩

/-- Pirate 0 gets two tokens, one from itself and one from pirate 1, who leaves before
pirate 0 has taken the first; it uses one and comes back behind pirate 1. -/
def leftOverToken : List (Label (Fin 20)) :=
  List.replicate 13 (.of 1 true) ++ List.replicate 4 (.of 0 true) ++
    List.replicate 7 (.of 1 true) ++ List.replicate 16 (.of 0 true) ++
    List.replicate 4 (.of 1 true) ++ List.replicate 7 (.of 0 true)

/-- Pirate 0 is about to run `dequeue_human` while pirate 1 is the head. -/
theorem left_over_token_dequeues_another :
    ∃ tr s, steps tenEach leftOverToken = some (tr, s) ∧ s.pc 0 = .dequeueing ∧
      s.queue (tenEach.team 0) = some 1 := by
  have heval : (steps tenEach leftOverToken).map (fun x =>
      decide (x.2.pc 0 = .dequeueing ∧ x.2.queue (tenEach.team 0) = some 1)) = some true := by
    decide +kernel
  obtain ⟨⟨tr, s⟩, hrun, h⟩ := Option.map_eq_some_iff.mp heval
  exact ⟨tr, s, hrun, of_decide_eq_true h⟩

end OsProjects.Pvn
