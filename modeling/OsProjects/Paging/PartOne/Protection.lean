import OsProjects.Paging.PartOne.Logic

/-!
# `Project4/Part1` implements protected memory

`Tracks` relates the history of a run to the memory it has led to: a page is
mapped when a `map_page` for it has returned 1, its write bit is the flag of its
last `map_page`, and its bytes are the last ones stored, or zero. The answers of
`store` and `load` follow.
-/

namespace OsProjects.Paging.PartOne

open OsProjects.Lib OsProjects.Paging

/-- The content of page `n` of `p` is what the history says. -/
def PageTracks (tr : History) (p : Pid) (n : Nat) : Option Content → Prop
  | none => everMapped tr p n = false ∧ ∀ a : Address, a.page = n → lastStore tr p a = none
  | some (d, w) => everMapped tr p n = true ∧ lastMap tr p n = some w ∧
      ∀ a : Address, a.page = n → d.get a.offset = (lastStore tr p a).getD 0

/-- The history explains the state. -/
structure Tracks (tr : History) (s : State) : Prop where
  inv : Inv s
  page : ∀ p n, n < 4 → PageTracks tr p n (s.content p n)

section Step

variable {tr : History} {s s' : State} {c : Cmd} {r : Result}

/-- Only what the history says about the page matters. -/
theorem PageTracks.congr {tr' : History} {q : Pid} {m : Nat} {d : Option Content}
    (h : PageTracks tr q m d) (hever : everMapped tr' q m = everMapped tr q m)
    (hlast : lastMap tr' q m = lastMap tr q m)
    (hstore : ∀ a : Address, a.page = m → lastStore tr' q a = lastStore tr q a) :
    PageTracks tr' q m d := by
  cases d with
  | none => exact ⟨hever.trans h.1, fun a ha => (hstore a ha).trans (h.2 a ha)⟩
  | some d =>
    refine ⟨hever.trans h.1, hlast.trans h.2.1, ?_⟩
    intro a ha
    rw [hstore a ha]
    exact h.2.2 a ha

theorem PageTracks.other {q : Pid} {m : Nat} {d : Option Content} (h : PageTracks tr q m d)
    (hne : ¬ (q = c.pid ∧ m = c.page)) : PageTracks (tr ++ [(c, r)]) q m d :=
  h.congr (everMapped_other hne) (lastMap_other hne)
    (fun _ ha => lastStore_other (fun hc => hne ⟨hc.1, ha.symm.trans hc.2⟩))

/-- The addressed page follows the history. -/
theorem PageTracks.own (h : PageTracks tr c.pid c.page (s.content c.pid c.page))
    (hans : Answer s c r s') :
    PageTracks (tr ++ [(c, r)]) c.pid c.page (s'.content c.pid c.page) := by
  cases c with
  | map p a w =>
    show PageTracks _ p a.page (s'.content p a.page)
    replace h : PageTracks tr p a.page (s.content p a.page) := h
    cases hret : r.ret with
    | true =>
      obtain ⟨hnone, hnew⟩ := hans.1 hret
      rw [hnone] at h
      rw [hnew]
      refine ⟨by simp [hret], by simp, ?_⟩
      intro b hb
      rw [lastStore_map, h.2 b hb, Cells.get_ofFn _ b.offset_lt]
      rfl
    | false =>
      -- a mapped page gets the new flag; an unmapped one found no frame and stays unmapped
      rw [hans.2 hret]
      cases hc : s.content p a.page with
      | none =>
        rw [hc] at h
        refine ⟨by simp [hret, h.1], ?_⟩
        intro b hb
        rw [lastStore_map]
        exact h.2 b hb
      | some d =>
        rw [hc] at h
        refine ⟨by simp [h.1], by simp, ?_⟩
        intro b hb
        rw [lastStore_map]
        exact h.2.2 b hb
  | store p a v =>
    show PageTracks _ p a.page (s'.content p a.page)
    replace h : PageTracks tr p a.page (s.content p a.page) := h
    cases hret : r.ret with
    | true =>
      obtain ⟨d, hd, hd'⟩ := hans.1 hret
      rw [hd] at h
      rw [hd']
      refine ⟨by rw [everMapped_store]; exact h.1, by rw [lastMap_store]; exact h.2.1, ?_⟩
      intro b hb
      rw [lastStore_store, Address.get_set _ _ hb]
      by_cases hab : a = b
      · rw [if_pos hab, if_pos ⟨hret, rfl, hab⟩]
        rfl
      · rw [if_neg hab, if_neg (fun hc => hab hc.2.2)]
        exact h.2.2 b hb
    | false =>
      rw [(hans.2 hret).1]
      refine h.congr (everMapped_store ..) (lastMap_store ..) ?_
      intro b _
      rw [lastStore_store, if_neg (fun hc => by rw [hret] at hc; cases hc.1)]
  | load p a =>
    show PageTracks _ p a.page (s'.content p a.page)
    rw [hans.1]
    exact PageTracks.congr h (everMapped_load ..) (lastMap_load ..) (fun _ _ => lastStore_load ..)

theorem exec_step (h : Inv s) (he : exec c s = some (r, s')) :
    Inv s' ∧ Others c.pid c.page s s' ∧ Answer s c r s' := by
  obtain ⟨r₁, s₁, heq, hrest⟩ := exec_spec h c
  rw [he] at heq
  injection heq with heq
  injection heq with h1 h2
  subst h1 h2
  exact hrest

theorem Tracks.step (h : Tracks tr s) (he : exec c s = some (r, s')) :
    Tracks (tr ++ [(c, r)]) s' := by
  obtain ⟨hinv, hothers, hans⟩ := exec_step h.inv he
  refine ⟨hinv, ?_⟩
  intro q m hm
  by_cases hqm : q = c.pid ∧ m = c.page
  · obtain ⟨rfl, rfl⟩ := hqm
    exact (h.page _ _ hm).own hans
  · have hm16 : m < pageSize := by simp only [pageSize]; omega
    rw [hothers q m hm16 hqm]
    exact (h.page q m hm).other hqm

end Step

/-! ## Whole runs -/

theorem init_tab (p : Pid) : (State.init.tab p).valid = false := by
  rw [State.tab, State.init, Cells.get_ofFn _ p.isLt]
  rfl

theorem init_inv : Inv State.init := by
  refine ⟨.of_noTable init_tab, ?_⟩
  intro f hf _ j hj
  exact Cells.get_ofFn _ (addr_lt hf hj)

theorem init_tracks : Tracks [] State.init where
  inv := init_inv
  page p n _ := by
    rw [State.content_of_tab (init_tab p)]
    exact ⟨rfl, fun _ _ => rfl⟩

/-- Every run comes back, in a state its history explains. -/
theorem calls_tracks (cs : List Cmd) : ∃ tr s, calls cs = some (tr, s) ∧ Tracks tr s := by
  refine run_total (P := Tracks) init_tracks ?_ cs
  intro tr s c h
  obtain ⟨r, s', heq, -⟩ := exec_spec h.inv c
  exact ⟨r, s', heq, h.step heq⟩

section Answers

variable {tr : History} {s s' : State} {p : Pid} {a : Address} {r : Result}

/-- A `load` succeeds exactly on a mapped page, with the last byte stored or 0. -/
theorem Tracks.load_answer (h : Tracks tr s) (he : exec (.load p a) s = some (r, s')) :
    (r.ret = true ↔ everMapped tr p a.page = true) ∧
      (r.ret = true → r.out = some ((lastStore tr p a).getD 0)) := by
  obtain ⟨-, -, -, hret, hout⟩ := exec_step h.inv he
  have hpage := h.page p a.page a.page_lt
  rw [hret, hout]
  cases hc : s.content p a.page with
  | none =>
    rw [hc] at hpage
    simp [hpage.1]
  | some d =>
    rw [hc] at hpage
    simp [hpage.1, hpage.2.2 a rfl]

/-- A `store` succeeds exactly on a mapped page whose last flag was 1. -/
theorem Tracks.store_answer {v : Byte} (h : Tracks tr s)
    (he : exec (.store p a v) s = some (r, s')) :
    r.ret = true ↔ everMapped tr p a.page = true ∧ lastMap tr p a.page = some true := by
  obtain ⟨-, -, hans⟩ := exec_step h.inv he
  have hpage := h.page p a.page a.page_lt
  constructor
  · intro hret
    obtain ⟨d, hd, -⟩ := hans.1 hret
    rw [hd] at hpage
    exact ⟨hpage.1, hpage.2.1⟩
  · rintro ⟨hever, hlast⟩
    by_contra hret
    rw [Bool.not_eq_true] at hret
    have hno := (hans.2 hret).2
    cases hc : s.content p a.page with
    | none =>
      rw [hc] at hpage
      rw [hpage.1] at hever
      cases hever
    | some d =>
      obtain ⟨d, w⟩ := d
      rw [hc] at hpage
      have hw := Option.some.inj (hlast.symm.trans hpage.2.1)
      exact hno d (by rw [hc, hw])

/-- What a `load` returns depends on the content of its page only. -/
theorem load_of_content (h : Inv s) (h' : Inv s')
    (hsame : s'.content p a.page = s.content p a.page) :
    (exec (.load p a) s').map Prod.fst = (exec (.load p a) s).map Prod.fst := by
  obtain ⟨⟨b, o⟩, _, heq, -, -, -, hret, hout⟩ := exec_spec h (.load p a)
  obtain ⟨⟨b', o'⟩, _, heq', -, -, -, hret', hout'⟩ := exec_spec h' (.load p a)
  rw [heq, heq']
  rw [hsame] at hout'
  have ho : o' = o := hout'.trans hout.symm
  subst ho
  exact congrArg some (Result.ext (hret'.trans hret.symm) rfl)

end Answers

/-- After every run: a `load` succeeds exactly on the mapped pages and yields the
last value stored, or 0; a `store` succeeds exactly on the mapped pages whose last
flag was 1; and no call changes what a `load` of another process returns. -/
theorem protected_memory (cs : List Cmd) :
    ∃ tr s, calls cs = some (tr, s) ∧
      (∀ p a, ∃ r s', exec (.load p a) s = some (r, s') ∧
        (r.ret = true ↔ everMapped tr p a.page = true) ∧
        (r.ret = true → r.out = some ((lastStore tr p a).getD 0))) ∧
      (∀ p a v, ∃ r s', exec (.store p a v) s = some (r, s') ∧
        (r.ret = true ↔ everMapped tr p a.page = true ∧ lastMap tr p a.page = some true)) ∧
      (∀ c r s', exec c s = some (r, s') → ∀ q a, q ≠ c.pid →
        (exec (.load q a) s').map Prod.fst = (exec (.load q a) s).map Prod.fst) := by
  obtain ⟨tr, s, hrun, h⟩ := calls_tracks cs
  refine ⟨tr, s, hrun, ?_, ?_, ?_⟩
  · intro p a
    obtain ⟨r, s', heq, -⟩ := exec_spec h.inv (.load p a)
    exact ⟨r, s', heq, h.load_answer heq⟩
  · intro p a v
    obtain ⟨r, s', heq, -⟩ := exec_spec h.inv (.store p a v)
    exact ⟨r, s', heq, h.store_answer heq⟩
  · intro c r s' he q a hq
    obtain ⟨hinv', hothers, -⟩ := exec_step h.inv he
    have hn16 : a.page < pageSize := lt_trans a.page_lt (by decide)
    exact load_of_content h.inv hinv' (hothers q _ hn16 (fun hc => hq hc.1))

end OsProjects.Paging.PartOne
