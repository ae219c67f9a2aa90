import OsProjects.Paging.PartTwo.Runs

/-!
# Transparency of paging

`Tracks` relates the history of a run to the logical memory it has led to:
the write bit of a page is the flag of its last `map_page`, and its bytes are
the last ones stored. It is kept by every call for the pages 1, 2, 3 as long as
nothing was dropped, and for page 0 as long as no page 0 was evicted. From it:

* the answers of `store` and `load` are those the history calls for, in the
  states of a run exactly until a page 0 is evicted;
* what a process reads back of its own stores depends on its own commands only.
-/

namespace OsProjects.Paging.PartTwo

open OsProjects.Lib OsProjects.Paging

/-- The evictions so far have not cost a page `n`. -/
def State.Sound (s : State) (n : Nat) : Prop :=
  s.drops = 0 ∧ (n ≠ 0 ∨ s.leakedSlots = 0)

/-- The content `c` of page `n` of `p` is what the history says. -/
def PageTracks (tr : History) (p : Pid) (n : Nat) (c : Option Content) : Prop :=
  lastMap tr p n = c.map Prod.snd ∧
    ∀ a : Address, a.page = n → ∀ v, lastStore tr p a = some v →
      ∃ d, c = some d ∧ d.1.get a.offset = v

/-- The history explains the state. -/
structure Tracks (tr : History) (s : State) : Prop where
  inv : Inv s
  drops : s.leakedSlots = 0 → s.drops = 0
  linked : s.drops = 0 → ∀ q m, m < pageSize → s.content q m ≠ none → s.HasTable q
  page : ∀ p n, n < 4 → s.Sound n → PageTracks tr p n (s.content p n)

/-! ## One call -/

section Step

variable {tr : History} {s s' : State} {c : Cmd} {r : Result}

theorem Step.sound {p : Pid} {n m : Nat} (h : Step p n s s') (hs : s'.Sound m) : s.Sound m := by
  have hd := h.drops_le
  have hl := h.leaked_le
  obtain ⟨h1, h2⟩ := hs
  exact ⟨by omega, h2.imp_right (fun h => by omega)⟩

/-- The history says nothing new about a page the call does not address. -/
theorem PageTracks.other {q : Pid} {m : Nat} {d : Option Content} (h : PageTracks tr q m d)
    (hne : ¬ (q = c.pid ∧ m = c.page)) : PageTracks (tr ++ [(c, r)]) q m d := by
  refine ⟨(lastMap_other hne).trans h.1, ?_⟩
  intro b hb v hv
  rw [lastStore_other (fun hc => hne ⟨hc.1, hb.symm.trans hc.2⟩)] at hv
  exact h.2 b hb v hv

/-- The addressed page follows the history. -/
theorem PageTracks.own (h : PageTracks tr c.pid c.page (s.content c.pid c.page))
    (hans : Answer s c r s') :
    PageTracks (tr ++ [(c, r)]) c.pid c.page (s'.content c.pid c.page) := by
  obtain ⟨hflag, hbyte⟩ := h
  cases c with
  | map p a w =>
    obtain ⟨⟨d, hd, hdata⟩, -⟩ := hans
    refine ⟨?_, ?_⟩
    · rw [lastMap_map, if_pos ⟨rfl, rfl⟩]
      exact (congrArg (Option.map Prod.snd) hd).symm
    · intro b hb v hv
      rw [lastStore_map] at hv
      obtain ⟨e, he, hget⟩ := hbyte b hb v hv
      refine ⟨(d, w), hd, ?_⟩
      rw [show d = e.1 from hdata e he]
      exact hget
  | store p a x =>
    rw [PageTracks, lastMap_store]
    cases hret : r.ret with
    | true =>
      obtain ⟨d, hd, hd'⟩ := hans.1 hret
      refine ⟨?_, ?_⟩
      · rw [hflag]
        show Option.map _ (s.content p a.page) = Option.map _ (s'.content p a.page)
        rw [hd, hd']
        rfl
      · intro b hb v hv
        refine ⟨_, hd', ?_⟩
        rw [lastStore_store] at hv
        rw [Address.get_set _ _ hb]
        by_cases hab : a = b
        · rw [if_pos ⟨hret, rfl, hab⟩] at hv
          rw [if_pos hab]
          exact Option.some.inj hv
        · rw [if_neg (fun hc => hab hc.2.2)] at hv
          obtain ⟨e, he, hget⟩ := hbyte b hb v hv
          have hde := Option.some.inj (hd.symm.trans he)
          rw [if_neg hab, show d = e.1 from congrArg Prod.fst hde]
          exact hget
    | false =>
      have hsame : s'.content p a.page = s.content p a.page := (hans.2 hret).1
      refine ⟨by rw [hflag]; exact congrArg _ hsame.symm, ?_⟩
      intro b hb v hv
      rw [lastStore_store, if_neg (fun hc => by rw [hret] at hc; cases hc.1)] at hv
      rw [show s'.content (Cmd.store p a x).pid (Cmd.store p a x).page = _ from hsame]
      exact hbyte b hb v hv
  | load p a =>
    have hsame : s'.content p a.page = s.content p a.page := hans.1
    rw [show s'.content (Cmd.load p a).pid (Cmd.load p a).page = _ from hsame]
    refine ⟨by rw [lastMap_load]; exact hflag, ?_⟩
    intro b hb v hv
    rw [lastStore_load] at hv
    exact hbyte b hb v hv

theorem Tracks.step (h : Tracks tr s) (he : exec c s = some (r, s')) :
    Tracks (tr ++ [(c, r)]) s' := by
  obtain ⟨hstep, hans⟩ := exec_step h.inv he
  refine ⟨hstep.inv, ?_, ?_, ?_⟩
  · -- drops: without a leak there are at most the four resident page 0s, so slots are left
    intro hl
    have hl₀ : s.leakedSlots = 0 := Nat.le_zero.mp (hl ▸ hstep.leaked_le)
    have hzeros : s.pageZeros ≤ 48 := by
      have hcard := Finset.card_le_univ (Finset.univ.filter fun p : Pid => (s.resident p 0).isSome)
      rw [Fintype.card_fin] at hcard
      unfold State.pageZeros
      simp only [maxProcesses] at hcard
      omega
    rw [hstep.room hzeros, h.drops hl₀]
  · -- linked: a page comes with a table, and no table was dropped
    intro hd q m hm hc
    have hd₀ : s.drops = 0 := Nat.le_zero.mp (hd ▸ hstep.drops_le)
    rcases hstep.fresh q m hm hc with hc₀ | ht
    · exact hstep.table (hd.trans hd₀.symm) q (h.linked hd₀ q m hm hc₀)
    · exact ht
  · -- page: soundness only gets lost, so the history explained the page before the call
    intro q m hm hs
    have hs₀ := hstep.sound hs
    by_cases hqm : q = c.pid ∧ m = c.page
    · obtain ⟨rfl, rfl⟩ := hqm
      exact (h.page _ _ hm hs₀).own hans
    · have hm16 : m < pageSize := by simp only [pageSize]; omega
      have hsame : s'.content q m = s.content q m := by
        refine hstep.others (hs.1.trans hs₀.1.symm) q m hm16 hqm ?_
        rcases hs.2 with hz | hz
        · exact .inl hz
        · have hl := hstep.leaked_le
          exact .inr (by omega)
      rw [hsame]
      exact (h.page q m hm hs₀).other hqm

end Step

theorem init_tracks : Tracks [] State.init where
  inv := init_inv
  drops _ := rfl
  linked _ q m _ hc := absurd (init_content q m) hc
  page p n _ _ := by
    rw [init_content]
    exact ⟨rfl, fun _ _ _ hv => by cases hv⟩

theorem calls_tracks {cs : List Cmd} {tr : History} {s : State} (h : calls cs = some (tr, s)) :
    Tracks tr s :=
  run_rule (P := Tracks) init_tracks (fun _ _ _ _ _ h he => h.step he) cs tr s h

/-! ## The answers -/

/-- The answer the history calls for: once the page is mapped, a `store` succeeds
exactly when the last flag was 1 and a `load` succeeds, and a byte stored before
is read back. -/
def Transparent (tr : History) (r : Result) : Cmd → Prop
  | .map _ _ _ => True
  | .store p a _ => ∀ w, lastMap tr p a.page = some w → r.ret = w
  | .load p a => (lastMap tr p a.page ≠ none → r.ret = true) ∧
      ∀ v, lastStore tr p a = some v → r.out = some v

theorem Tracks.transparent {tr : History} {s s' : State} {c : Cmd} {r : Result}
    (h : Tracks tr s) (hs : s.Sound c.page) (he : exec c s = some (r, s')) :
    Transparent tr r c := by
  obtain ⟨-, hans⟩ := exec_step h.inv he
  cases c with
  | map p a w => trivial
  | store p a v =>
    have hn16 : a.page < pageSize := lt_trans a.page_lt (by decide)
    obtain ⟨hflag, -⟩ := h.page p a.page a.page_lt hs
    intro w hw
    rw [hflag, Option.map_eq_some_iff] at hw
    obtain ⟨⟨d, w'⟩, hd, rfl⟩ := hw
    cases hret : r.ret with
    | true =>
      obtain ⟨d', hd', -⟩ := hans.1 hret
      rw [hd] at hd'
      cases hd'
      rfl
    | false =>
      -- the table was found, so it was the flag that refused
      have htable := h.linked hs.1 p _ hn16 (by rw [hd]; exact Option.some_ne_none _)
      have hno := (hans.2 hret).2 htable d
      rw [hd] at hno
      cases w' with
      | true => exact absurd rfl hno
      | false => rfl
  | load p a =>
    have hn16 : a.page < pageSize := lt_trans a.page_lt (by decide)
    obtain ⟨hflag, hbyte⟩ := h.page p a.page a.page_lt hs
    obtain ⟨-, hret, hsome, hnone⟩ := hans
    -- a page the history knows is found
    have hfound : s.content p a.page ≠ none → ∃ v, r.out = some v := by
      intro hc
      cases ho : r.out with
      | some v => exact ⟨v, rfl⟩
      | none =>
        rcases hnone ho with hn | hn
        · exact absurd hn hc
        · exact absurd (h.linked hs.1 p _ hn16 hc) hn
    refine ⟨?_, ?_⟩
    · intro hm
      have hc : s.content p a.page ≠ none := by
        intro hc
        rw [hflag, hc] at hm
        exact hm rfl
      obtain ⟨v, hv⟩ := hfound hc
      rw [hret, hv]
      rfl
    · intro v hv
      obtain ⟨d, hd, hget⟩ := hbyte a rfl v hv
      obtain ⟨v', hv'⟩ := hfound (by rw [hd]; exact Option.some_ne_none _)
      obtain ⟨e, he, hget'⟩ := hsome v' hv'
      rw [hd] at he
      cases he
      rw [hv', ← hget', hget]

/-! ## The last flag survives -/

theorem lastMap_mono {tr : History} {p : Pid} {n : Nat} (h : lastMap tr p n ≠ none)
    (c : Cmd) (r : Result) : lastMap (tr ++ [(c, r)]) p n ≠ none := by
  cases c with
  | map q a w =>
    rw [lastMap_map]
    split
    · exact Option.some_ne_none _
    · exact h
  | store q a v => rw [lastMap_store]; exact h
  | load q a => rw [lastMap_load]; exact h

/-- Slots that leaked stay leaked. -/
theorem leaked_mono {s : State} (h : Inv s) {cs : List Cmd} {tr : History} {s' : State}
    (hrun : run exec cs s = some (tr, s')) : s.leakedSlots ≤ s'.leakedSlots := by
  refine (run_rule (P := fun _ t => Inv t ∧ s.leakedSlots ≤ t.leakedSlots) ⟨h, Nat.le_refl _⟩
    ?_ cs tr s' hrun).2
  intro _ t c r t' ⟨ht, hle⟩ he
  obtain ⟨hstep, -⟩ := exec_step ht he
  exact ⟨hstep.inv, hle.trans hstep.leaked_le⟩

/-- The first eviction of a page 0 is answered wrongly by a later `load`. -/
theorem exists_wrong_answer {cs : List Cmd} {tr : History} {s : State}
    (hrun : calls cs = some (tr, s)) (hleak : s.leakedSlots ≠ 0) :
    ∃ cs' tr' s' c r s'', cs' <+: cs ∧ calls cs' = some (tr', s') ∧
      exec c s' = some (r, s'') ∧ ¬ Transparent tr' r c := by
  induction cs using List.reverseRecOn generalizing tr s with
  | nil =>
    simp only [calls, run, Option.some.injEq, Prod.mk.injEq] at hrun
    rw [← hrun.2] at hleak
    exact absurd (by decide +kernel) hleak
  | append_singleton cs c ih =>
    obtain ⟨tr₁, s₁, tr₂, h₁, h₂, rfl⟩ := run_split hrun
    obtain ⟨r, hcall, rfl⟩ := run_single h₂
    by_cases hleak₁ : s₁.leakedSlots = 0
    · -- this call evicts the first page 0, of some process `q`; the next one asks for it
      have htr := calls_tracks h₁
      obtain ⟨hstep, -⟩ := exec_step htr.inv hcall
      obtain ⟨q, hq, hq'⟩ := hstep.lost (by rw [hleak₁]; exact hleak)
      obtain ⟨r', s', hload, -, hans⟩ := exec_spec hstep.inv (.load q 0)
      refine ⟨cs ++ [c], _, s, .load q 0, r', s', List.prefix_rfl, hrun, hload, ?_⟩
      intro htrans
      have hmapped : lastMap tr₁ q 0 ≠ none := by
        rw [(htr.page q 0 (by decide) ⟨htr.drops hleak₁, .inr hleak₁⟩).1]
        exact fun hn => hq (Option.map_eq_none_iff.mp hn)
      have hret := htrans.1 (lastMap_mono hmapped c r)
      rw [hans.2.1] at hret
      obtain ⟨v, hv⟩ := Option.isSome_iff_exists.mp hret
      obtain ⟨d, hd, -⟩ := hans.2.2.1 v hv
      exact absurd (hd.symm.trans hq') (Option.some_ne_none _)
    · -- it was evicted before
      obtain ⟨cs', tr', s', c', r', s'', hpre, hrest⟩ := ih h₁ hleak₁
      exact ⟨cs', tr', s', c', r', s'', hpre.trans (List.prefix_append cs [c]), hrest⟩

/-- Every run comes back, and every call that could be made at any point of it is
answered as the history calls for exactly when no slot was taken by a page 0, that
is, when no page 0 was evicted. -/
theorem transparent_iff_no_page_zero_evicted (cs : List Cmd) :
    ∃ tr s, calls cs = some (tr, s) ∧
      ((∀ cs' tr' s' c r s'', cs' <+: cs → calls cs' = some (tr', s') →
        exec c s' = some (r, s'') → Transparent tr' r c) ↔ s.leakedSlots = 0) := by
  obtain ⟨tr, s, hrun, -⟩ := calls_inv cs
  refine ⟨tr, s, hrun, ?_, ?_⟩
  · intro hall
    by_contra hleak
    obtain ⟨cs', tr', s', c, r, s'', hpre, hrun', hcall, hno⟩ := exists_wrong_answer hrun hleak
    exact hno (hall cs' tr' s' c r s'' hpre hrun' hcall)
  · rintro hleak cs' tr' s' c r s'' ⟨rest, rfl⟩ hrun' hcall
    have htr := calls_tracks hrun'
    -- leaks only grow along the rest of the run, so there is none after `cs'`
    obtain ⟨tr₁, s₁, tr₂, h₁, h₂, -⟩ := run_split hrun
    rw [show run exec cs' State.init = some (tr', s') from hrun'] at h₁
    cases h₁
    have hleak' : s'.leakedSlots = 0 := Nat.le_zero.mp (hleak ▸ leaked_mono htr.inv h₂)
    exact htr.transparent ⟨htr.drops hleak', .inr hleak'⟩ hcall

/-- As in the session recorded in `tout`: process 0 maps its page 0 and stores 25
at address 1; two calls of process 1 evict the page; the load then fails. -/
theorem load_of_evicted_page_zero_fails :
    ∃ tr s r s', calls [.map 0 1 true, .store 0 1 25, .map 1 23 true, .map 1 32 true] =
        some (tr, s) ∧
      exec (.load 0 1) s = some (r, s') ∧ lastMap tr 0 0 = some true ∧
      lastStore tr 0 1 = some 25 ∧ r.ret = false :=
  exists_of_eval _ _ _ _ (fun tr _ r _ => lastMap tr 0 0 = some true ∧
    lastStore tr 0 1 = some 25 ∧ r.ret = false) (by decide +kernel)

/-! ## What a process sees -/

/-- The memory of one process as its own commands describe it. -/
structure Private where
  flag : Nat → Option Bool
  byte : Address → Option Byte

namespace Private

def empty : Private := ⟨fun _ => none, fun _ => none⟩

/-- Mapping sets the flag of the page, and storing succeeds if it is 1. -/
def step (m : Private) : Cmd → Private
  | .map _ a w => { m with flag := Function.update m.flag a.page (some w) }
  | .store _ a v =>
    if m.flag a.page = some true then { m with byte := Function.update m.byte a (some v) } else m
  | .load _ _ => m

end Private

/-- The commands of `p`, in order. -/
def own (p : Pid) (cs : List Cmd) : List Cmd := cs.filter fun c => decide (c.pid = p)

/-- The memory of `p` after its commands in `cs`. -/
def privateOf (p : Pid) (cs : List Cmd) : Private := (own p cs).foldl Private.step Private.empty

theorem privateOf_snoc (p : Pid) (cs : List Cmd) (c : Cmd) : privateOf p (cs ++ [c]) =
    if c.pid = p then (privateOf p cs).step c else privateOf p cs := by
  unfold privateOf own
  rw [List.filter_append, List.foldl_append]
  by_cases hc : c.pid = p
  · rw [List.filter_cons_of_pos (by simpa using hc), if_pos hc]
    rfl
  · rw [List.filter_cons_of_neg (by simpa using hc), if_neg hc]
    rfl

section Own

variable {tr : History} {s s' : State} {p : Pid} {a : Address} {r : Result}

/-- A `store` succeeds exactly when the last flag of its page is 1. -/
theorem Tracks.store_ret {v : Byte} (h : Tracks tr s) (hs : s.Sound a.page)
    (he : exec (.store p a v) s = some (r, s')) :
    r.ret = true ↔ lastMap tr p a.page = some true := by
  constructor
  · intro hret
    obtain ⟨-, hans⟩ := exec_step h.inv he
    obtain ⟨d, hd, -⟩ := hans.1 hret
    rw [(h.page p a.page a.page_lt hs).1, hd]
    rfl
  · exact fun hw => h.transparent (c := .store p a v) hs he true hw

/-- A `load` succeeds exactly when its page has been mapped. -/
theorem Tracks.load_ret (h : Tracks tr s) (hs : s.Sound a.page)
    (he : exec (.load p a) s = some (r, s')) :
    r.ret = true ↔ lastMap tr p a.page ≠ none := by
  constructor
  · intro hret
    obtain ⟨-, -, hout, hsome, -⟩ := exec_step h.inv he
    rw [hout] at hret
    obtain ⟨v, hv⟩ := Option.isSome_iff_exists.mp hret
    obtain ⟨d, hd, -⟩ := hsome v hv
    rw [(h.page p a.page a.page_lt hs).1, hd]
    exact Option.some_ne_none _
  · exact (h.transparent (c := .load p a) hs he).1

end Own

/-- The history of a page of `p` is what the commands of `p` alone say. -/
def Agrees (tr : History) (s : State) : Prop :=
  ∀ p n, n < 4 → s.Sound n →
    lastMap tr p n = (privateOf p (tr.map Prod.fst)).flag n ∧
    ∀ a : Address, a.page = n → lastStore tr p a = (privateOf p (tr.map Prod.fst)).byte a

theorem Agrees.step {tr : History} {s s' : State} {c : Cmd} {r : Result} (ht : Tracks tr s)
    (h : Agrees tr s) (he : exec c s = some (r, s')) : Agrees (tr ++ [(c, r)]) s' := by
  obtain ⟨hstep, -⟩ := exec_step ht.inv he
  intro p n hn hs'
  have hs := hstep.sound hs'
  obtain ⟨hflag, hbyte⟩ := h p n hn hs
  rw [List.map_append, List.map_singleton, privateOf_snoc]
  by_cases hp : c.pid = p
  · rw [if_pos hp]
    cases c with
    | map q b w =>
      obtain rfl : q = p := hp
      refine ⟨?_, fun a ha => by rw [lastStore_map]; exact hbyte a ha⟩
      rw [lastMap_map]
      show _ = Function.update (privateOf q (tr.map Prod.fst)).flag b.page (some w) n
      by_cases hb : b.page = n
      · rw [if_pos ⟨rfl, hb⟩, hb, Function.update_self]
      · rw [if_neg (fun hc => hb hc.2), Function.update_of_ne (Ne.symm hb)]
        exact hflag
    | store q b v =>
      obtain rfl : q = p := hp
      refine ⟨?_, ?_⟩
      · rw [lastMap_store, Private.step, hflag]
        split <;> rfl
      · intro a ha
        rw [lastStore_store, Private.step]
        by_cases hba : b = a
        · -- the byte stored to: the flag decides, here and there
          subst hba
          subst ha
          have hret : r.ret = true ↔ (privateOf q (tr.map Prod.fst)).flag b.page = some true :=
            (ht.store_ret hs he).trans (Eq.congr_left hflag)
          by_cases hw : (privateOf q (tr.map Prod.fst)).flag b.page = some true
          · rw [if_pos ⟨hret.mpr hw, rfl, rfl⟩, if_pos hw]
            show _ = Function.update (privateOf q (tr.map Prod.fst)).byte b (some v) b
            rw [Function.update_self]
          · rw [if_neg (fun hc => hw (hret.mp hc.1)), if_neg hw]
            exact hbyte b rfl
        · rw [if_neg (fun hc => hba hc.2.2), hbyte a ha]
          split
          · show _ = Function.update (privateOf q (tr.map Prod.fst)).byte b (some v) a
            rw [Function.update_of_ne (Ne.symm hba)]
          · rfl
    | load q b =>
      rw [lastMap_load]
      exact ⟨hflag, fun a ha => by rw [lastStore_load]; exact hbyte a ha⟩
  · rw [if_neg hp, lastMap_other (fun hc => hp hc.1.symm)]
    refine ⟨hflag, ?_⟩
    intro a ha
    rw [lastStore_other (fun hc => hp hc.1.symm)]
    exact hbyte a ha

theorem calls_agrees {cs : List Cmd} {tr : History} {s : State} (h : calls cs = some (tr, s)) :
    Agrees tr s := by
  refine (run_rule (P := fun tr s => Tracks tr s ∧ Agrees tr s) ⟨init_tracks, ?_⟩ ?_ cs tr s h).2
  · exact fun p n _ _ => ⟨rfl, fun _ _ => rfl⟩
  · exact fun _ _ _ _ _ ⟨ht, ha⟩ he => ⟨ht.step he, Agrees.step ht ha he⟩

/-- Two runs with the same commands of `p`, in neither of which an eviction has
cost a page of the kind addressed: the same `load` of `p` succeeds in both or in
neither, and reads the same byte if `p` has stored to it before. -/
theorem loads_of_own_stores_agree (p : Pid) (cs₁ cs₂ : List Cmd) (hown : own p cs₁ = own p cs₂)
    (tr₁ tr₂ : History) (s₁ s₂ : State) (hrun₁ : calls cs₁ = some (tr₁, s₁))
    (hrun₂ : calls cs₂ = some (tr₂, s₂)) (a : Address) (hs₁ : s₁.Sound a.page)
    (hs₂ : s₂.Sound a.page) (r₁ r₂ : Result) (s₁' s₂' : State)
    (hload₁ : exec (.load p a) s₁ = some (r₁, s₁'))
    (hload₂ : exec (.load p a) s₂ = some (r₂, s₂')) :
    r₁.ret = r₂.ret ∧ (lastStore tr₁ p a ≠ none → r₁.out = r₂.out) := by
  obtain ⟨hflag₁, hbyte₁⟩ := calls_agrees hrun₁ p a.page a.page_lt hs₁
  obtain ⟨hflag₂, hbyte₂⟩ := calls_agrees hrun₂ p a.page a.page_lt hs₂
  -- both histories are explained by one and the same private memory
  have hsame : privateOf p cs₁ = privateOf p cs₂ := by
    unfold privateOf
    rw [hown]
  rw [run_commands hrun₁] at hflag₁ hbyte₁
  rw [run_commands hrun₂, ← hsame] at hflag₂ hbyte₂
  refine ⟨?_, ?_⟩
  · rw [Bool.eq_iff_iff, (calls_tracks hrun₁).load_ret hs₁ hload₁,
      (calls_tracks hrun₂).load_ret hs₂ hload₂, hflag₁, hflag₂]
  · intro hstored
    obtain ⟨v, hv⟩ := Option.ne_none_iff_exists'.mp hstored
    have hv₂ : lastStore tr₂ p a = some v := by
      rw [hbyte₂ a rfl, ← hbyte₁ a rfl, hv]
    rw [((calls_tracks hrun₁).transparent (c := .load p a) hs₁ hload₁).2 v hv,
      ((calls_tracks hrun₂).transparent (c := .load p a) hs₂ hload₂).2 v hv₂]

/-- Process 0 stores 5 into its page 1 and reads it back, without and with an
eviction caused by process 1 in between. -/
theorem loads_of_own_stores_agree_at_eviction :
    ∃ tr₁ s₁ r₁ s₁' tr₂ s₂ r₂ s₂',
      calls [.map 0 16 true, .store 0 16 5] = some (tr₁, s₁) ∧
      exec (.load 0 16) s₁ = some (r₁, s₁') ∧
      calls [.map 0 16 true, .store 0 16 5, .map 1 16 true, .map 1 32 true] = some (tr₂, s₂) ∧
      exec (.load 0 16) s₂ = some (r₂, s₂') ∧ lastStore tr₁ 0 16 ≠ none ∧
      r₁.ret = r₂.ret ∧ (lastStore tr₁ 0 16 ≠ none → r₁.out = r₂.out) := by
  obtain ⟨tr₁, s₁, r₁, s₁', hrun₁, hload₁, hs₁, hd₁, hst⟩ := exists_of_eval exec
    [.map 0 16 true, .store 0 16 5] (.load 0 16) State.init
    (fun tr s _ _ => s.drops = 0 ∧ s.leakedSlots = 0 ∧ lastStore tr 0 16 ≠ none)
    (by decide +kernel)
  obtain ⟨tr₂, s₂, r₂, s₂', hrun₂, hload₂, hs₂, hd₂⟩ := exists_of_eval exec
    [.map 0 16 true, .store 0 16 5, .map 1 16 true, .map 1 32 true] (.load 0 16) State.init
    (fun _ s _ _ => s.drops = 0 ∧ s.leakedSlots = 0) (by decide +kernel)
  exact ⟨tr₁, s₁, r₁, s₁', tr₂, s₂, r₂, s₂', hrun₁, hload₁, hrun₂, hload₂, hst,
    loads_of_own_stores_agree 0 [.map 0 16 true, .store 0 16 5]
      [.map 0 16 true, .store 0 16 5, .map 1 16 true, .map 1 32 true] rfl tr₁ tr₂ s₁ s₂ hrun₁
      hrun₂ 16 ⟨hs₁, .inr hd₁⟩ ⟨hs₂, .inr hd₂⟩ r₁ r₂ s₁' s₂' hload₁ hload₂⟩

/-- A fresh page still holds what its frame held before: what process 1 stored is
what process 0 reads from a page it never stored to. -/
theorem fresh_page_shows_foreign_bytes :
    own 0 [.map 1 16 true, .store 1 16 7, .map 1 32 true, .map 0 16 true, .map 0 32 true] =
      own 0 [.map 1 16 true, .store 1 16 8, .map 1 32 true, .map 0 16 true, .map 0 32 true] ∧
    (∃ tr s r s', calls [.map 1 16 true, .store 1 16 7, .map 1 32 true, .map 0 16 true,
        .map 0 32 true] = some (tr, s) ∧ exec (.load 0 32) s = some (r, s') ∧
      r.ret = true ∧ r.out = some 7) ∧
    (∃ tr s r s', calls [.map 1 16 true, .store 1 16 8, .map 1 32 true, .map 0 16 true,
        .map 0 32 true] = some (tr, s) ∧ exec (.load 0 32) s = some (r, s') ∧
      r.ret = true ∧ r.out = some 8) :=
  ⟨rfl, exists_of_eval exec _ _ _ (fun _ _ r _ => r.ret = true ∧ r.out = some 7)
      (by decide +kernel),
    exists_of_eval exec _ _ _ (fun _ _ r _ => r.ret = true ∧ r.out = some 8)
      (by decide +kernel)⟩

end OsProjects.Paging.PartTwo
