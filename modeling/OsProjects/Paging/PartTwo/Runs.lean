import OsProjects.Paging.PartTwo.Calls

/-!
# Runs of `Project4/Part2`

`exec_spec` is the one fact about a call that whole-run arguments use: the call
comes back, it is a `Step` for the page it addresses, and its answer is
explained by the logical memory before it. From it follow, for every run:

* frames are owned exclusively and swapped-out tables are empty;
* nothing is both in memory and in the backing store, or stored twice;
* a call changes the logical memory at the page it addresses only.
-/

namespace OsProjects.Paging.PartTwo

open OsProjects.Lib OsProjects.Paging

/-! ## One call -/

/-- What a call addressing page `n` of `p` does to everything else. -/
structure Step (p : Pid) (n : Nat) (s s' : State) : Prop where
  inv : Inv s'
  drops_le : s.drops ≤ s'.drops
  leaked_le : s.leakedSlots ≤ s'.leakedSlots
  room : s.pageZeros ≤ 48 → s'.drops = s.drops
  others : s'.drops = s.drops → ∀ q m, m < pageSize → ¬ (q = p ∧ m = n) →
    (m ≠ 0 ∨ s'.leakedSlots = s.leakedSlots) → s'.content q m = s.content q m
  table : s'.drops = s.drops → ∀ q, s.HasTable q → s'.HasTable q
  /-- a page comes into being only with its table, -/
  fresh : ∀ q m, m < pageSize → s'.content q m ≠ none → s.content q m ≠ none ∨ s'.HasTable q
  /-- and a slot that leaks costs some process its page 0. -/
  lost : s'.leakedSlots ≠ s.leakedSlots →
    ∃ q, s.content q 0 ≠ none ∧ s'.content q 0 = none

theorem Quiet.step {s s' : State} (hq : Quiet s s') (p : Pid) (n : Nat) : Step p n s s' where
  inv := hq.inv
  drops_le := hq.drops_le
  leaked_le := hq.leaked_le
  room := hq.room
  others hd q m hm _ hz := hq.content hd q m hm hz
  table := hq.table
  fresh q m hm hc := .inl (fun hn => hc (hq.absent q m hm hn))
  lost := hq.lost

/-- A quiet phase that leaves the addressed page alone, then one write to it. -/
theorem Quiet.put {s s₁ s' : State} {p : Pid} {n : Nat} {c : Content} (hq : Quiet s s₁)
    (hown : s₁.content p n = s.content p n) (hput : Put p n c s₁ s') : Step p n s s' where
  inv := hput.inv
  drops_le := hput.drops ▸ hq.drops_le
  leaked_le := hput.leaked ▸ hq.leaked_le
  room hr := hput.drops.trans (hq.room hr)
  others hd q m hm hne hz := by
    rw [hput.drops] at hd
    rw [hput.leaked] at hz
    rw [hput.others q m hm hne, hq.content hd q m hm hz]
  table hd q ht := (hput.table q).mpr (hq.table (hput.drops ▸ hd) q ht)
  fresh q m hm hc := by
    -- only the write can bring a page into being, and it needs a table
    by_cases hqm : q = p ∧ m = n
    · rw [hqm.1]
      exact .inr ((hput.table p).mpr hput.hasTable)
    · rw [hput.others q m hm hqm] at hc
      exact .inl (fun hn => hc (hq.absent q m hm hn))
  lost hl := by
    rw [hput.leaked] at hl
    obtain ⟨q, hq0, hq1⟩ := hq.lost hl
    refine ⟨q, hq0, ?_⟩
    -- the lost page is not the addressed one, which the quiet phase left alone
    have hne : ¬ (q = p ∧ 0 = n) := by
      rintro ⟨rfl, rfl⟩
      exact hq0 (hown.symm.trans hq1)
    rw [hput.others q 0 (by decide) hne, hq1]

/-- What a call answers, and what becomes of the page it addresses. -/
def Answer (s : State) : Cmd → Result → State → Prop
  | .map p a w, r, s' =>
    (∃ d, s'.content p a.page = some (d, w) ∧ ∀ c, s.content p a.page = some c → d = c.1) ∧
      (r.ret = true ↔ s.resident p a.page = none)
  | .store p a v, r, s' =>
    (r.ret = true → ∃ d, s.content p a.page = some (d, true) ∧
      s'.content p a.page = some (d.set a.offset v, true)) ∧
    (r.ret = false → s'.content p a.page = s.content p a.page ∧
      (s.HasTable p → ∀ d, s.content p a.page ≠ some (d, true)))
  | .load p a, r, s' =>
    s'.content p a.page = s.content p a.page ∧ r.ret = r.out.isSome ∧
      (∀ v, r.out = some v → ∃ c, s.content p a.page = some c ∧ c.1.get a.offset = v) ∧
      (r.out = none → s.content p a.page = none ∨ ¬ s.HasTable p)

/-- Every call comes back. -/
theorem exec_spec {s : State} (h : Inv s) (c : Cmd) :
    ∃ r s', exec c s = some (r, s') ∧ Step c.pid c.page s s' ∧ Answer s c r s' := by
  cases c with
  | map p a w =>
    obtain ⟨b, s₁, d, s', heq, hq, hown, hput, hdata, hret⟩ := mapPage_spec h p a w
    refine ⟨⟨b, none⟩, s', ?_, hq.put hown hput, ⟨d, hput.own, hdata⟩, hret⟩
    rw [exec, heq]
    rfl
  | store p a v =>
    obtain ⟨b, s₁, s', heq, hq, hown, htrue, hfalse⟩ := store_spec h p a v
    refine ⟨⟨b, none⟩, s', by rw [exec, heq]; rfl, ?_, ?_, fun hb => (hfalse hb).2⟩
    · cases b with
      | true =>
        obtain ⟨d, _, hput⟩ := htrue rfl
        exact hq.put hown hput
      | false => exact (hfalse rfl).1.step p a.page
    · intro hb
      obtain ⟨d, hd, hput⟩ := htrue hb
      exact ⟨d, hd, hput.own⟩
  | load p a =>
    obtain ⟨v, s', heq, hq, hown, hsome, hnone⟩ := load_spec h p a
    refine ⟨⟨v.isSome, v⟩, s', ?_, hq.step p a.page, hown, rfl, hsome, hnone⟩
    rw [exec, heq]
    rfl

theorem exec_step {s s' : State} {c : Cmd} {r : Result} (h : Inv s)
    (he : exec c s = some (r, s')) : Step c.pid c.page s s' ∧ Answer s c r s' := by
  obtain ⟨r₁, s₁, heq, hstep⟩ := exec_spec h c
  rw [he] at heq
  injection heq with heq
  injection heq with h1 h2
  subst h1 h2
  exact hstep

/-! ## Whole runs -/

theorem init_tab (p : Pid) : (State.init.tab p).valid = false := by
  rw [State.tab, State.init, Cells.get_ofFn _ p.isLt]
  rfl

theorem init_not_stored (o : Owner) (i : Nat) : ¬ State.init.Stored o i := by
  intro hi
  have hpid := hi.2.1
  rw [State.slot, State.init, Cells.get_ofFn _ hi.1] at hpid
  have : (-1 : Int) = o.pid.val := hpid
  omega

theorem init_content (p : Pid) (n : Nat) : State.init.content p n = none := by
  rw [State.content_of_absent (State.resident_of_tab (init_tab p) n),
    State.swapped_eq_none (init_not_stored _)]

theorem init_inv : Inv State.init := by
  refine ⟨.of_noTable init_tab, by decide, ?_, ?_, ?_, ?_, ?_, ?_, ?_⟩
  · exact fun p hp => by rw [init_tab] at hp; cases hp
  · exact fun p j hp => by rw [init_tab] at hp; cases hp
  · intro i hi hpid
    rw [State.slot, State.init, Cells.get_ofFn _ hi] at hpid
    have : (0 : Int) ≤ -1 := hpid
    omega
  · exact fun i p hi => absurd hi (init_not_stored _ i)
  · exact fun i p j hi => absurd hi (init_not_stored _ i)
  · exact fun o i _ hi => absurd hi (init_not_stored o i)
  · exact fun o i hi => absurd hi (init_not_stored o i)

/-- Every run comes back, in a state that satisfies the invariant. -/
theorem calls_inv (cs : List Cmd) : ∃ tr s, calls cs = some (tr, s) ∧ Inv s := by
  refine run_total (P := fun _ s => Inv s) init_inv ?_ cs
  intro _ s c h
  obtain ⟨r, s', heq, hstep, _⟩ := exec_spec h c
  exact ⟨r, s', heq, hstep.inv⟩

theorem inv_of_calls {cs : List Cmd} {tr : History} {s : State} (h : calls cs = some (tr, s)) :
    Inv s := by
  obtain ⟨tr', s', h', hinv⟩ := calls_inv cs
  rw [h] at h'
  injection h' with h'
  injection h' with _ hs
  exact hs ▸ hinv

/-! ## Frames and slots -/

/-- In every state a run reaches: a frame has one owner at most and owned frames
exist; only the entries 0 to 3 of a resident table are ever valid; the entries
of a resident table carry its process; and a table in the backing store has no
valid entry. -/
theorem frames_owned_exclusively (cs : List Cmd) :
    ∃ tr s, calls cs = some (tr, s) ∧
      (∀ o o' f, s.view.Holds o f → s.view.Holds o' f → o = o') ∧
      (∀ o f, s.view.Holds o f → f < pageFrames) ∧
      (∀ p j, (s.tab p).valid = true → j < pageSize → (s.entry p j).valid = true → j < 4) ∧
      (∀ p j, (s.tab p).valid = true → j < pageSize → (s.entry p j).procc = p) ∧
      (∀ i, i < storeFrames → 0 ≤ (s.slot i).pid → (s.slot i).page = -1 →
        ∀ j, j < pageSize → (Page.ofByte ((s.slot i).data.get j)).valid = false) := by
  obtain ⟨tr, s, hrun, h⟩ := calls_inv cs
  refine ⟨tr, s, hrun, h.wf.excl, h.wf.frame_lt, ?_, h.entry_procc, ?_⟩
  · intro p j hp hj hv
    exact h.wf.page_lt p j _ (State.holds_page.mpr ⟨hp, hj, hv, rfl⟩)
  · intro i hi hpid hpage j hj
    -- a slot labelled -1 has not leaked and holds no page
    obtain ⟨p, hst⟩ : ∃ p, s.Stored (.table p) i := by
      rcases h.slot_kind i hi hpid with hl | ⟨o, ho, _⟩
      · have := hl.2.2
        omega
      · cases o with
        | table p => exact ⟨p, ho⟩
        | page p k =>
          have hk : (s.slot i).page = k := ho.2.2
          omega
    exact (h.slot_table i p hst j hj).1

/-- In every state a run reaches: no object — the table of a process (key -1) or
one of its pages (keys 0 to 3) — lies in two slots, and an object in a slot is
not in memory. -/
theorem stored_once_and_not_resident (cs : List Cmd) :
    ∃ tr s, calls cs = some (tr, s) ∧ ∀ (p : Pid) (k : Int), -1 ≤ k → k ≤ 3 →
      (∀ i i', i < storeFrames → i' < storeFrames →
        (s.slot i).pid = p.val → (s.slot i).page = k →
        (s.slot i').pid = p.val → (s.slot i').page = k → i = i') ∧
      (∀ i, i < storeFrames → (s.slot i).pid = p.val → (s.slot i).page = k →
        (k = -1 → (s.tab p).valid = false) ∧
        (∀ n : Nat, k = n → ¬ ((s.tab p).valid = true ∧ (s.entry p n).valid = true))) := by
  obtain ⟨tr, s, hrun, h⟩ := calls_inv cs
  refine ⟨tr, s, hrun, ?_⟩
  intro p k hk hk3
  obtain ⟨o, rfl, rfl⟩ : ∃ o : Owner, o.pid = p ∧ o.num = k := by
    by_cases hneg : k = -1
    · exact ⟨.table p, rfl, hneg.symm⟩
    · refine ⟨.page p k.toNat, rfl, ?_⟩
      show (k.toNat : Int) = k
      omega
  refine ⟨?_, ?_⟩
  · intro i i' hi hi' hp hn hp' hn'
    exact h.slot_unique o i i' ⟨hi, hp, hn⟩ ⟨hi', hp', hn'⟩
  · intro i hi hp hn
    have habsent := h.slot_absent o i ⟨hi, hp, hn⟩
    refine ⟨?_, ?_⟩
    · intro htab
      have ho : o = .table o.pid := Owner.num_inj rfl htab
      by_contra hv
      rw [ho] at habsent
      exact habsent ⟨_, State.holds_table.mpr ⟨by simpa using hv, rfl⟩⟩
    · rintro n hnum ⟨hv, he⟩
      have ho : o = .page o.pid n := Owner.num_inj rfl hnum
      have hn16 : n < pageSize := by simp only [pageSize]; omega
      rw [ho] at habsent
      exact habsent ⟨_, State.holds_page.mpr ⟨hv, hn16, he, rfl⟩⟩

/-! ## The frame law of the logical memory -/

/-- What a call answered `r` may do to the logical content of page `m` of `q`. -/
def LogicStep (r : Result) (q : Pid) (m : Nat) (before after : Option Content) : Cmd → Prop
  | .map p a w =>
    if q = p ∧ m = a.page then
      ∃ d, after = some (d, w) ∧ ∀ c, before = some c → d = c.1
    else after = before
  | .store p a v =>
    if r.ret = true ∧ q = p ∧ m = a.page then
      ∃ d w, before = some (d, w) ∧ after = some (d.set a.offset v, w)
    else after = before
  | .load _ _ => after = before

theorem LogicStep.of_answer {s s' : State} {c : Cmd} {r : Result} {q : Pid} {m : Nat}
    (hans : Answer s c r s')
    (hother : ¬ (q = c.pid ∧ m = c.page) → s'.content q m = s.content q m) :
    LogicStep r q m (s.content q m) (s'.content q m) c := by
  cases c with
  | map p a w =>
    rw [LogicStep]
    by_cases hqm : q = p ∧ m = a.page
    · obtain ⟨rfl, rfl⟩ := hqm
      rw [if_pos ⟨rfl, rfl⟩]
      exact hans.1
    · rw [if_neg hqm]
      exact hother hqm
  | store p a v =>
    rw [LogicStep]
    by_cases hqm : q = p ∧ m = a.page
    · obtain ⟨rfl, rfl⟩ := hqm
      cases hb : r.ret with
      | true =>
        rw [if_pos ⟨rfl, rfl, rfl⟩]
        obtain ⟨d, h1, h2⟩ := hans.1 hb
        exact ⟨d, true, h1, h2⟩
      | false =>
        rw [if_neg (fun h => Bool.false_ne_true h.1)]
        exact (hans.2 hb).1
    · rw [if_neg (fun h => hqm h.2)]
      exact hother hqm
  | load p a =>
    by_cases hqm : q = p ∧ m = a.page
    · obtain ⟨rfl, rfl⟩ := hqm
      exact hans.1
    · exact hother hqm

/-- No call unmaps a page. -/
theorem LogicStep.mapped {c : Cmd} {r : Result} {q : Pid} {m : Nat} {before after : Option Content}
    (h : LogicStep r q m before after c) (hmapped : before ≠ none) : after ≠ none := by
  rintro rfl
  cases c with
  | map p a w =>
    rw [LogicStep] at h
    split at h
    · obtain ⟨d, hd, _⟩ := h
      cases hd
    · exact hmapped h.symm
  | store p a v =>
    rw [LogicStep] at h
    split at h
    · obtain ⟨d, w, _, hd⟩ := h
      cases hd
    · exact hmapped h.symm
  | load p a => exact hmapped (Eq.symm h)

/-- A call made in a state some run reaches, and during which no eviction finds
the backing store full, changes the logical content of the pages 1, 2, 3 of all
processes as `LogicStep` says, and unmaps none of them. -/
theorem call_frame_law (cs : List Cmd) (tr : History) (s : State) (hrun : calls cs = some (tr, s))
    (c : Cmd) (r : Result) (s' : State) (hcall : exec c s = some (r, s'))
    (hroom : s'.drops = s.drops) (q : Pid) (m : Nat) (hm : 1 ≤ m) (hm3 : m ≤ 3) :
    LogicStep r q m (s.content q m) (s'.content q m) c ∧
      (s.content q m ≠ none → s'.content q m ≠ none) := by
  obtain ⟨hstep, hans⟩ := exec_step (inv_of_calls hrun) hcall
  have hm16 : m < pageSize := by simp only [pageSize]; omega
  have hlogic := LogicStep.of_answer (q := q) (m := m) hans
    (fun hne => hstep.others hroom q m hm16 hne (.inl (by omega)))
  exact ⟨hlogic, hlogic.mapped⟩

/-- A store into a mapped page, the state in between being the one the run
reaches. -/
theorem call_frame_law_at_store :
    ∃ tr s r s', calls [.map 0 17 true] = some (tr, s) ∧
      exec (.store 0 17 5) s = some (r, s') ∧ s'.drops = s.drops ∧
      LogicStep r 0 1 (s.content 0 1) (s'.content 0 1) (.store 0 17 5) ∧
      (s.content 0 1 ≠ none → s'.content 0 1 ≠ none) := by
  obtain ⟨tr, s, r, s', hrun, hcall, hroom⟩ := exists_of_eval exec [.map 0 17 true]
    (.store 0 17 5) State.init (fun _ s _ s' => s'.drops = s.drops) (by decide +kernel)
  exact ⟨tr, s, r, s', hrun, hcall, hroom,
    call_frame_law _ tr s hrun _ r s' hcall hroom 0 1 (by decide) (by decide)⟩

end OsProjects.Paging.PartTwo
