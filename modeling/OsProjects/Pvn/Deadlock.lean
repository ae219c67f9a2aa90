import OsProjects.Pvn.Queue

/-!
# No human is left waiting

A human that waits on its own semaphore is woken by the human in front of it, or by
somebody leaving. Two things can go wrong: a left-over token (see `Disciplined`), and
a team that retires while the department is still aligned with it: the other team's
next arrival finds the department closed and nobody left who would change hands.
`Careful` runs avoid both, and never get stuck.
-/

namespace OsProjects.Pvn

open OsProjects.Lib

namespace Pc

/-- The return coin was lost. -/
def retired : Pc → Bool
  | .askCount | .counting | .unlockCount | .done => true
  | _ => false

/-- Leaving, and about to wake the head of the owner's queue. -/
def waking : Pc → Bool
  | .lockOwner | .wakeHead => true
  | _ => false

/-- Queued, and before the first `sem_wait(&self->sem)`. -/
def early : Pc → Bool
  | .unlockArrival | .waitTurn => true
  | _ => false

/-- Refused at the door, and before the next `sem_wait(&self->sem)`. -/
def refused : Pc → Bool
  | .turnedAway | .waitAgain => true
  | _ => false

theorem retired_succ (pc : Pc) : ∀ pc' ∈ pc.succ, pc ≠ .tossing → pc'.retired = pc.retired := by
  cases pc <;> decide

theorem early_succ (pc : Pc) : ∀ pc' ∈ pc.succ, pc'.early = true →
    pc = .queueing ∨ pc = .postSelf ∨ pc = .unlockArrival := by
  cases pc <;> decide

theorem refused_succ (pc : Pc) : ∀ pc' ∈ pc.succ, pc'.refused = true →
    pc = .testing ∨ pc = .turnedAway := by
  cases pc <;> decide

theorem waking_succ (pc : Pc) : ∀ pc' ∈ pc.succ, pc.waking = true →
    pc'.waking = true ∨ pc = .wakeHead := by
  cases pc <;> decide

theorem not_retired_of_queued (pc : Pc) (h : pc.queued = true) : pc.retired = false := by
  cases pc <;> first | rfl | cases h

theorem queued_of_refused (pc : Pc) (h : pc.refused = true) :
    pc.queued = true ∧ pc.called = true := by
  cases pc <;> first | exact ⟨rfl, rfl⟩ | cases h

end Pc

variable {H : Type}

/-- Nobody loses the coin as the last of a team that still has the department, unless
the other team is through as well. -/
def HandsOver (c : Setup H) (l : Label H) (s : State H) : Prop :=
  s.pc l.who = .tossing → l.returns = false → s.dept.alignment = .team (c.team l.who) →
    (∀ g, c.team g = c.team l.who → g ≠ l.who → (s.pc g).retired = true) →
    ∀ g, c.team g ≠ c.team l.who → (s.pc g).retired = true

/-- Both conditions. -/
def Careful (c : Setup H) (l : Label H) (s : State H) : Prop :=
  Disciplined c l s ∧ HandsOver c l s

/-- Waiting on its own semaphore, without a token. -/
def Blocked (s : State H) (h : H) : Prop :=
  (s.pc h = .waitTurn ∨ s.pc h = .waitAgain) ∧ s.sem h = 0

/-- Visits are left, the chairs are empty, and everybody unfinished is blocked. -/
def Deadlocked (s : State H) : Prop :=
  0 < s.visitsLeft ∧ (∀ i, s.dept.seated i = none) ∧ ∀ h, s.pc h ≠ .done → Blocked s h

/-- The department would let in a human of team `t`. -/
def Open (s : State H) (t : Team) : Prop := s.dept.alignment = .team t ∧ chairFree s.dept = true

/-- Nobody waits in vain. -/
structure Awake [Fintype H] (c : Setup H) (s : State H) : Prop where
  next : ∀ h, s.queue (c.team h) = some h → (s.pc h).early = true →
    0 < s.sem h ∨ ∃ g, c.team g = c.team h ∧ s.pc g = .postNext
  refused : ∀ h, (s.pc h).refused = true → s.sem h = 0 →
    ¬ Open s (c.team h) ∨ ∃ g, (s.pc g).waking = true
  awaited : ∀ t, s.dept.alignment = .toTeam t → s.queue t ≠ none
  handedOver : ∀ t, (∀ g, c.team g = t → (s.pc g).retired = true) →
    (∃ g, (s.pc g).retired = false) → s.dept.alignment ≠ .team t
  count : s.visitsLeft = (Finset.univ.filter fun g => (s.pc g).counted = false).card

section Deadlock

variable [Fintype H] {c : Setup H} {s : State H} {q : Team → List H}

/-- An unfinished human of a team that is blocked keeps the department closed to it. -/
theorem Awake.closed (ha : Awake c s) (hl : Lined c s q) (hb : ∀ h, s.pc h ≠ .done → Blocked s h)
    {h : H} (hh : s.pc h ≠ .done) : ¬ Open s (c.team h) := by
  have hpc : ∀ g, s.pc g = .waitTurn ∨ s.pc g = .waitAgain ∨ s.pc g = .done := by
    intro g
    by_cases hg : s.pc g = .done
    · exact .inr (.inr hg)
    · rcases (hb g hg).1 with hg | hg
      · exact .inl hg
      · exact .inr (.inl hg)
  have hqueued : (s.pc h).queued = true := by
    rcases (hb h hh).1 with hw | hw <;> rw [hw] <;> rfl
  -- the head of the queue of `h`
  have hmem := (hl.mem (c.team h) h).mpr ⟨rfl, hqueued⟩
  cases hhead : s.queue (c.team h) with
  | none =>
    have hnil := hl.linked (c.team h)
    rw [hhead, Linked.nil_iff] at hnil
    rw [hnil] at hmem
    cases hmem
  | some x =>
    obtain ⟨hteam, hx⟩ := hl.head hhead
    have hxdone : s.pc x ≠ .done := by
      intro hx'
      rw [hx'] at hx
      cases hx
    obtain ⟨hxpc, hxsem⟩ := hb x hxdone
    rcases hxpc with hw | hw
    · -- before its first wait it has a token, or somebody is about to post one
      rcases ha.next x (by rw [hteam]; exact hhead) (by rw [hw]; rfl) with hpos | ⟨g, -, hg⟩
      · omega
      · rcases hpc g with h' | h' | h' <;> rw [hg] at h' <;> cases h'
    · -- after a refusal the department is closed, or somebody is about to wake it
      rcases ha.refused x (by rw [hw]; rfl) hxsem with hno | ⟨g, hg⟩
      · rw [← hteam]
        exact hno
      · rcases hpc g with h' | h' | h' <;> rw [h'] at hg <;> cases hg

omit [Fintype H] in
theorem Orderly.open_of_empty (ho : Orderly c s) (hempty : ∀ i, s.dept.seated i = none) :
    chairFree s.dept = true := by
  have hex := ho.exist 0
  have hpos : (0 : Fin 4).val < c.chairs := lt_of_lt_of_le (by decide) c.two_le
  rw [decide_eq_true hpos] at hex
  obtain ⟨chair, hchair⟩ := Option.isSome_iff_exists.mp hex
  refine chairFree_iff.mpr ⟨0, ?_⟩
  have hnone := hempty 0
  rw [Department.seated, hchair] at hnone
  rw [Department.empty, hchair]
  exact Option.isNone_iff_eq_none.mpr hnone

theorem Awake.not_deadlocked (ha : Awake c s) (ho : Orderly c s) (hl : Lined c s q) :
    ¬ Deadlocked s := by
  rintro ⟨hleft, hempty, hb⟩
  have hfree := ho.open_of_empty hempty
  -- somebody is unfinished
  obtain ⟨h, hh⟩ : ∃ h, (s.pc h).counted = false := by
    have hcard : 0 < (Finset.univ.filter fun g => (s.pc g).counted = false).card := by
      have := ha.count
      omega
    obtain ⟨h, hmem⟩ := Finset.card_pos.mp hcard
    exact ⟨h, (Finset.mem_filter.mp hmem).2⟩
  have hdone : s.pc h ≠ .done := by
    intro heq
    rw [heq] at hh
    cases hh
  have hret : ∀ g, s.pc g ≠ .done → (s.pc g).retired = false := by
    intro g hg
    rcases (hb g hg).1 with hw | hw <;> rw [hw] <;> rfl
  cases halign : s.dept.alignment with
  | toTeam t =>
    -- a change of hands goes on only while somebody is seated
    obtain ⟨i, g, hi⟩ := ho.changing t halign
    rw [hempty i] at hi
    cases hi
  | team t =>
    refine ha.handedOver t ?_ ⟨h, hret h hdone⟩ halign
    intro g hg
    by_cases hgd : s.pc g = .done
    · rw [hgd]
      rfl
    · -- the department is open to the team that has it
      exact absurd ⟨by rw [hg]; exact halign, hfree⟩ (ha.closed hl hb hgd)

end Deadlock

/-! ## Every step keeps everybody awake -/

section Steps

variable [DecidableEq H] [Fintype H] {c : Setup H} {l : Label H} {s s' : State H}
  {q : Team → List H} {place : Pc}

/-- A head before its first wait. -/
theorem Awake.next_step (ha : Awake c s) (ho : Orderly c s) (hl : Lined c s q)
    (hs : step c l s = some (place, s')) (h : H) (hhead : s'.queue (c.team h) = some h)
    (hearly : (s'.pc h).early = true) :
    0 < s'.sem h ∨ ∃ g, c.team g = c.team h ∧ s'.pc g = .postNext := by
  obtain ⟨hplace, hact, hf, hsucc⟩ := ho.moves hs
  by_cases hhw : h = l.who
  · subst hhw
    rcases Pc.early_succ place _ hsucc hearly with rfl | rfl | rfl
    · -- who finds itself at the front posts to itself first
      obtain ⟨-, -, hpc⟩ := hl.queueing_spec hplace hact
      rw [hpc, if_pos hhead] at hearly
      cases hearly
    · left
      rw [act_sem ho.willReturn hact]
      show 0 < if l.who = l.who then _ else _
      rw [if_pos rfl]
      omega
    · -- unlocking the queue changes nothing that matters here
      rw [(hf.queue rfl).1] at hhead
      rcases ha.next _ hhead (by rw [hplace]; rfl) with hpos | ⟨g, hteam, hg⟩
      · left
        rw [hf.sem rfl]
        exact hpos
      · refine .inr ⟨g, hteam, (hf.others g ?_).trans hg⟩
        rintro rfl
        rw [hplace] at hg
        cases hg
  · rw [hf.others h hhw] at hearly
    -- `h` was the head before, or became it because the head before it dequeued itself
    have hold : s.queue (c.team h) = some h ∨ place = .dequeueing ∧ c.team l.who = c.team h := by
      cases hed : place.editsQueue with
      | false =>
        rw [(hf.queue hed).1] at hhead
        exact .inl hhead
      | true =>
        cases place with
        | queueing =>
          obtain ⟨-, ⟨-, hnew⟩ | ⟨-, hsame⟩, -⟩ := hl.queueing_spec hplace hact
          · rw [hnew] at hhead
            by_cases ht : c.team h = c.team l.who
            · rw [ht, Function.update_self] at hhead
              exact absurd (Option.some.inj hhead).symm hhw
            · rw [Function.update_of_ne ht] at hhead
              exact .inl hhead
          · rw [hsame] at hhead
            exact .inl hhead
        | dequeueing =>
          by_cases ht : c.team l.who = c.team h
          · exact .inr ⟨rfl, ht⟩
          · rw [(hl.dequeueing_spec hplace hact).2.1, Function.update_of_ne (Ne.symm ht)] at hhead
            exact .inl hhead
        | _ => cases hed
    rcases hold with hold | ⟨rfl, hteam⟩
    · rcases ha.next h hold hearly with hpos | ⟨g, hteam, hg⟩
      · left
        rw [act_sem ho.willReturn hact]
        exact lt_of_lt_of_le hpos (le_tokens hhw)
      · by_cases hgw : g = l.who
        · -- the new head is posted to
          subst hgw
          obtain rfl : place = .postNext := hplace.symm.trans hg
          left
          rw [act_sem ho.willReturn hact]
          show 0 < if s.queue (c.team l.who) = some h then _ else _
          rw [if_pos (by rw [hteam]; exact hold)]
          omega
        · exact .inr ⟨g, hteam, (hf.others g hgw).trans hg⟩
    · exact .inr ⟨l.who, hteam, List.mem_singleton.mp hsucc⟩

omit [DecidableEq H] [Fintype H] in
theorem open_congr {t : Team} (ha : s'.dept.alignment = s.dept.alignment)
    (hc : s'.dept.chairs = s.dept.chairs) : Open s' t ↔ Open s t := by
  unfold Open
  rw [ha, chairFree_congr hc]

/-- Entering closes the department further. -/
theorem open_of_enter {t : Team} (ho : Orderly c s) (hplace : s.pc l.who = .entering)
    (hact : act c l s .entering = some s') (hopen : Open s' t) : Open s t := by
  obtain ⟨halign, hfree⟩ := ho.admitted l.who (by rw [hplace]; rfl)
  obtain ⟨a, rfl, hswap⟩ := ho.entering_spec hplace hact
  have hat : a = .team t := hopen.1
  rcases hswap with rfl | ⟨u, -, rfl, -⟩
  · exact ⟨hat, hfree⟩
  · cases hat

/-- A human refused at the door. -/
theorem Awake.refused_step (ha : Awake c s) (ho : Orderly c s) (hl : Lined c s q)
    (hs : step c l s = some (place, s')) (h : H) (href : (s'.pc h).refused = true)
    (hsem : s'.sem h = 0) : ¬ Open s' (c.team h) ∨ ∃ g, (s'.pc g).waking = true := by
  obtain ⟨hplace, hact, hf, hsucc⟩ := ho.moves hs
  by_cases hhw : h = l.who
  · subst hhw
    rcases Pc.refused_succ place _ hsucc href with rfl | rfl
    · -- the refusal itself: the test saw a closed department
      obtain ⟨halign, hchairs⟩ := hf.dept rfl
      rw [open_congr halign hchairs]
      rcases act_testing hact with ⟨hpc, -⟩ | ⟨-, hno⟩
      · rw [hpc] at href
        cases href
      · exact .inl hno
    · obtain ⟨halign, hchairs⟩ := hf.dept rfl
      rw [open_congr halign hchairs]
      rw [hf.sem rfl] at hsem
      rcases ha.refused _ (by rw [hplace]; rfl) hsem with hno | ⟨g, hg⟩
      · exact .inl hno
      · refine .inr ⟨g, ?_⟩
        rw [hf.others g ?_]
        · exact hg
        · rintro rfl
          rw [hplace] at hg
          cases hg
  · rw [hf.others h hhw] at href
    have hzero : s.sem h = 0 := by
      have hle : s.sem h ≤ tokens c l s h place := le_tokens hhw
      rw [← act_sem ho.willReturn hact] at hle
      omega
    rcases ha.refused h href hzero with hno | ⟨g, hg⟩
    · cases hed : place.editsDept with
      | false =>
        obtain ⟨halign, hchairs⟩ := hf.dept hed
        rw [open_congr halign hchairs]
        exact .inl hno
      | true =>
        cases place with
        | entering => exact .inl (fun hopen => hno (open_of_enter ho hplace hact hopen))
        | leaving =>
          -- leaving may open it, and goes on to wake the head
          refine .inr ⟨l.who, ?_⟩
          rw [List.mem_singleton.mp hsucc]
          rfl
        | _ => cases hed
    · by_cases hgw : g = l.who
      · subst hgw
        rw [hplace] at hg
        rcases Pc.waking_succ place _ hsucc hg with hg' | rfl
        · exact .inr ⟨l.who, hg'⟩
        · -- the head of the owner's queue is woken, so `h` is not of the owner's team
          left
          obtain ⟨halign, hchairs⟩ := hf.dept rfl
          rw [open_congr halign hchairs]
          rintro ⟨hopen, -⟩
          obtain ⟨hq, hcalled⟩ := Pc.queued_of_refused _ href
          have hhead := hl.turn h hq (.inr hcalled)
          rw [act_sem ho.willReturn hact] at hsem
          replace hsem : (if s.queue s.dept.alignment.teamAlignment = some h then s.sem h + 1
            else s.sem h) = 0 := hsem
          rw [if_pos (by rw [hopen]; exact hhead)] at hsem
          omega
      · exact .inr ⟨g, by rw [hf.others g hgw]; exact hg⟩

/-- Only a lost coin retires a human. -/
theorem retired_step (ho : Orderly c s) (hs : step c l s = some (place, s')) (g : H) :
    (s'.pc g).retired = (s.pc g).retired ∨
      g = l.who ∧ s.pc l.who = .tossing ∧ l.returns = false := by
  obtain ⟨hplace, hact, hf, hsucc⟩ := ho.moves hs
  by_cases hg : g = l.who
  · subst hg
    by_cases htoss : place = .tossing
    · subst htoss
      cases hret : l.returns with
      | false => exact .inr ⟨rfl, hplace, rfl⟩
      | true =>
        left
        cases hact
        rw [hplace, hret, if_pos rfl, loop_again, goto_pc_self]
        rfl
    · left
      rw [Pc.retired_succ place _ hsucc htoss, hplace]
  · exact .inl (by rw [hf.others g hg])

/-- What a step does to the alignment: nothing; start a change of hands to a team that
is queued; end one; or both at once. -/
theorem alignment_step (ho : Orderly c s) (hs : step c l s = some (place, s')) :
    s'.dept.alignment = s.dept.alignment ∨
      s'.queue = s.queue ∧ ∃ u, (s.dept.alignment = .team u ∧ s.queue u.other ≠ none ∧
          (s'.dept.alignment = .toTeam u.other ∨ s'.dept.alignment = .team u.other)) ∨
        (s.dept.alignment = .toTeam u ∧ s'.dept.alignment = .team u) := by
  obtain ⟨hplace, hact, hf, -⟩ := ho.moves hs
  cases hed : place.editsDept with
  | false => exact .inl (hf.dept hed).1
  | true =>
    cases place with
    | entering =>
      obtain ⟨halign, -⟩ := ho.admitted l.who (by rw [hplace]; rfl)
      obtain ⟨a, rfl, hswap⟩ := ho.entering_spec hplace hact
      rcases hswap with rfl | ⟨u, hu, rfl, hq⟩
      · exact .inl rfl
      · obtain rfl : c.team l.who = u := Alignment.team.inj (halign.symm.trans hu)
        exact .inr ⟨rfl, c.team l.who, .inl ⟨hu, hq, .inl rfl⟩⟩
    | leaving =>
      obtain ⟨s₁, h₁, rfl⟩ := Option.map_eq_some_iff.mp hact
      obtain ⟨a₁, a, rfl, hstart, hend⟩ := leaveDepartment_spec h₁
      show a = _ ∨ _
      rcases hstart with rfl | ⟨u, hu, rfl, hq⟩
      · rcases hend with ⟨rfl, -⟩ | ⟨u, hu, -, rfl⟩
        · exact .inl rfl
        · exact .inr ⟨rfl, u, .inr ⟨hu, rfl⟩⟩
      · obtain rfl : c.team l.who = u := ho.team_of_inChair (by rw [hplace]; rfl) hu
        rcases hend with ⟨rfl, -⟩ | ⟨v, hv, -, rfl⟩
        · exact .inr ⟨rfl, _, .inl ⟨hu, hq, .inl rfl⟩⟩
        · obtain rfl : (c.team l.who).other = v := Alignment.toTeam.inj hv
          exact .inr ⟨rfl, _, .inl ⟨hu, hq, .inr rfl⟩⟩
    | _ => cases hed

/-- A team that the department is changing to is queued. -/
theorem Awake.awaited_step (ha : Awake c s) (ho : Orderly c s) (hl : Lined c s q)
    (hs : step c l s = some (place, s')) (t : Team) (ht : s'.dept.alignment = .toTeam t) :
    s'.queue t ≠ none := by
  obtain ⟨hplace, hact, hf, -⟩ := ho.moves hs
  rcases alignment_step ho hs with hsame | ⟨hqueue, u, ⟨-, hq, hto | hto⟩ | ⟨-, hto⟩⟩
  · rw [hsame] at ht
    have hold := ha.awaited t ht
    cases hed : place.editsQueue with
    | false =>
      rw [(hf.queue hed).1]
      exact hold
    | true =>
      cases place with
      | queueing =>
        obtain ⟨-, ⟨hnone, hnew⟩ | ⟨-, hsame⟩, -⟩ := hl.queueing_spec hplace hact
        · have htw : t ≠ c.team l.who := by
            rintro rfl
            exact hold hnone
          rw [hnew, Function.update_of_ne htw]
          exact hold
        · rw [hsame]
          exact hold
      | dequeueing =>
        -- nobody is let in during a change of hands
        obtain ⟨halign, -⟩ := ho.admitted l.who (by rw [hplace]; rfl)
        rw [halign] at ht
        cases ht
      | _ => cases hed
  · rw [hto] at ht
    cases ht
    rw [hqueue]
    exact hq
  · rw [hto] at ht
    cases ht
  · rw [hto] at ht
    cases ht

/-- A team that is through has given the department away. -/
theorem Awake.handedOver_step (ha : Awake c s) (ho : Orderly c s) (hl : Lined c s q)
    (hh : HandsOver c l s) (hs : step c l s = some (place, s')) (t : Team)
    (hall : ∀ g, c.team g = t → (s'.pc g).retired = true)
    (hsome : ∃ g, (s'.pc g).retired = false) : s'.dept.alignment ≠ .team t := by
  obtain ⟨g, hg⟩ := hsome
  by_cases hold : ∀ g, c.team g = t → (s.pc g).retired = true
  · -- they were through before: nobody of `t` is queued, so it did not come back to them
    have hgold : (s.pc g).retired = false := by
      rcases retired_step ho hs g with heq | ⟨rfl, htoss, -⟩
      · rw [← heq]
        exact hg
      · rw [htoss]
        rfl
    have hno := ha.handedOver t hold ⟨g, hgold⟩
    have hempty : s.queue t = none := by
      cases hhead : s.queue t with
      | none => rfl
      | some x =>
        obtain ⟨hteam, hx⟩ := hl.head hhead
        have := hold x hteam
        rw [Pc.not_retired_of_queued _ hx] at this
        cases this
    intro ht
    rcases alignment_step ho hs with hsame | ⟨-, u, ⟨-, hq, hto | hto⟩ | ⟨hfrom, hto⟩⟩
    · exact hno (hsame ▸ ht)
    · rw [hto] at ht
      cases ht
    · rw [hto] at ht
      cases ht
      exact hq hempty
    · rw [hto] at ht
      cases ht
      exact ha.awaited _ hfrom hempty
  · -- the last of them lost the coin just now
    push Not at hold
    obtain ⟨x, hxt, hx⟩ := hold
    rcases retired_step ho hs x with heq | ⟨rfl, htoss, hret⟩
    · rw [hall x hxt] at heq
      exact absurd heq.symm hx
    · obtain ⟨hplace, -, hf, -⟩ := ho.moves hs
      obtain rfl : place = .tossing := hplace.symm.trans htoss
      rw [(hf.dept rfl).1]
      intro ht
      have hrest : ∀ y, c.team y = c.team l.who → y ≠ l.who → (s.pc y).retired = true := by
        intro y hy hyw
        rw [← hf.others y hyw]
        exact hall y (hy.trans hxt)
      have hthrough := hh htoss hret (by rw [hxt]; exact ht) hrest
      by_cases hgt : c.team g = t
      · rw [hall g hgt] at hg
        cases hg
      · have hgw : g ≠ l.who := by
          rintro rfl
          exact hgt hxt
        rw [hf.others g hgw, hthrough g (by rw [hxt]; exact hgt)] at hg
        cases hg

theorem Awake.step (ha : Awake c s) (ho : Orderly c s) (hl : Lined c s q)
    (hh : HandsOver c l s) (hs : step c l s = some (place, s')) : Awake c s' where
  next := ha.next_step ho hl hs
  refused := ha.refused_step ho hl hs
  awaited := ha.awaited_step ho hl hs
  handedOver := ha.handedOver_step ho hl hh hs
  count := ho.count_step hs ha.count

end Steps

/-! ## Runs -/

section Runs

variable [DecidableEq H] [Fintype H]

omit [DecidableEq H] in
theorem init_awake (c : Setup H) (hboth : ∀ t, ∃ h, c.team h = t) : Awake c (init c) where
  next _ := nofun
  refused _ := nofun
  awaited _ := nofun
  handedOver t hall := by
    obtain ⟨h, hh⟩ := hboth t
    have := hall h hh
    cases this
  count := by
    show (Fintype.card H : Int) = _
    simp [init, Pc.counted]

/-- No careful run of a program with humans of both teams comes into a state in which
visits are left, the chairs are empty, and every unfinished human is blocked on its own
semaphore. -/
theorem careful_runs_never_deadlock (c : Setup H) (hboth : ∀ t, ∃ h, c.team h = t)
    (ls : List (Label H)) (tr : History H) (s : State H) (hrun : steps c ls = some (tr, s))
    (hg : Guarded (step c) (Careful c) ls (init c)) : ¬ Deadlocked s := by
  have hstep : ∀ (tr : History H) s l place s',
      (Awake c s ∧ ∃ b q, InOrder c tr s b q) → Careful c l s →
      step c l s = some (place, s') →
      Awake c s' ∧ ∃ b q, InOrder c (tr ++ [(l, place)]) s' b q := by
    rintro tr s l place s' ⟨ha, b, q, h⟩ ⟨hd, hh⟩ hs
    exact ⟨ha.step h.orderly h.lined hh hs, h.step hd hs⟩
  obtain ⟨ha, b, q, h⟩ :=
    guarded_rule ⟨init_awake c hboth, _, _, init_inOrder c⟩ hstep ls tr s hrun hg
  exact ha.not_deadlocked h.orderly h.lined

end Runs

/-! ## A team that keeps the department -/

instance [DecidableEq H] [Fintype H] (c : Setup H) (l : Label H) (s : State H) :
    Decidable (HandsOver c l s) :=
  inferInstanceAs (Decidable (_ → _ → _ → _ → _))

instance [DecidableEq H] [Fintype H] (c : Setup H) (l : Label H) (s : State H) :
    Decidable (Careful c l s) :=
  inferInstanceAs (Decidable (_ ∧ _))

instance (s : State H) (h : H) : Decidable (Blocked s h) :=
  inferInstanceAs (Decidable (_ ∧ _))

instance [DecidableEq H] [Fintype H] (s : State H) : Decidable (Deadlocked s) :=
  inferInstanceAs (Decidable (_ ∧ _ ∧ _))

/-- One pirate and one ninja, two chairs, pirates first. -/
def twoHumans : Setup (Fin 2) :=
  tenEach.withHumans (fun h => if h.val = 0 then .pirate else .ninja) fun _ => 0

theorem twoHumans_both (t : Team) : ∃ h, twoHumans.team h = t := by
  cases t
  · exact ⟨0, rfl⟩
  · exact ⟨1, rfl⟩

/-- The ninja is refused while the pirate is seated; the pirate leaves for good. -/
def refusedThenWoken : List (Label (Fin 2)) :=
  List.replicate 13 (.of 0 false) ++ List.replicate 8 (.of 1 false) ++
    List.replicate 10 (.of 0 false)

theorem careful_runs_never_deadlock_refused_then_woken :
    ∃ tr s, steps twoHumans refusedThenWoken = some (tr, s) ∧
      Guarded (step twoHumans) (Careful twoHumans) refusedThenWoken (init twoHumans) ∧
      s.pc 0 = .done ∧ s.pc 1 = .waitAgain ∧ ¬ Deadlocked s := by
  have hg : Guarded (step twoHumans) (Careful twoHumans) refusedThenWoken (init twoHumans) :=
    Guarded.of_eval (by decide +kernel)
  have heval : (steps twoHumans refusedThenWoken).map
      (fun x => decide (x.2.pc 0 = .done ∧ x.2.pc 1 = .waitAgain)) = some true := by
    decide +kernel
  obtain ⟨⟨tr, s⟩, hrun, hpc⟩ := Option.map_eq_some_iff.mp heval
  obtain ⟨h0, h1⟩ := of_decide_eq_true hpc
  exact ⟨tr, s, hrun, hg, h0, h1, careful_runs_never_deadlock _ twoHumans_both _ tr s hrun hg⟩

/-- The pirates come one after the other, each for a single visit, and only then the
ninjas: the first is refused, the others queue up behind it. -/
def piratesFirst : List (Label (Fin 20)) :=
  (List.finRange 10).flatMap (fun i => List.replicate 23 (.of (i.castLE (by decide)) false)) ++
    List.replicate 8 (.of ⟨10, by decide⟩ false) ++
    (List.finRange 9).flatMap fun i => List.replicate 3 (.of (i.natAdd 11) false)

/-- The ninjas wait for a department that nobody will hand over. -/
theorem pirates_first_deadlock :
    ∃ tr s, steps tenEach piratesFirst = some (tr, s) ∧ Deadlocked s := by
  have heval : (steps tenEach piratesFirst).map (fun x => decide (Deadlocked x.2)) =
      some true := by decide +kernel
  obtain ⟨⟨tr, s⟩, hrun, h⟩ := Option.map_eq_some_iff.mp heval
  exact ⟨tr, s, hrun, of_decide_eq_true h⟩

end OsProjects.Pvn
