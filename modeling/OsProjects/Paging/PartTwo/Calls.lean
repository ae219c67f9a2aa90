import OsProjects.Paging.PartTwo.Reload

/-!
# The calls: `map_page`, `store`, `load`

A call is a quiet phase, in which whatever it needs is faulted in, followed by
at most one write to the logical memory, `Put`. The specification of each call
names the state in between and says which page is written with what, and what
the call returns in terms of the logical memory before it.
-/

namespace OsProjects.Paging.PartTwo

open OsProjects.Lib OsProjects.Paging

/-! ## One write to the logical memory -/

/-- Page `n` of `p` now is `c`; nothing else changed. -/
structure Put (p : Pid) (n : Nat) (c : Content) (s s' : State) : Prop where
  inv : Inv s'
  own : s'.content p n = some c
  others : ∀ q m, m < pageSize → ¬ (q = p ∧ m = n) → s'.content q m = s.content q m
  drops : s'.drops = s.drops
  leaked : s'.leakedSlots = s.leakedSlots
  table : ∀ q, s'.HasTable q ↔ s.HasTable q
  hasTable : s.HasTable p

namespace Put

variable {p : Pid} {n : Nat} {c : Content} {s s' : State}

/-- A page is written in memory, by a step that touches neither the hardware
table nor the backing store and prints nothing. -/
theorem of_resident (h' : Inv s') (hown : s'.resident p n = some c)
    (hothers : ∀ q m, m < pageSize → ¬ (q = p ∧ m = n) → s'.resident q m = s.resident q m)
    (hback : s'.backingStore = s.backingStore) (htab : s'.procTable = s.procTable)
    (hout : s'.out = s.out) (hp : (s.tab p).valid = true) : Put p n c s s' where
  inv := h'
  own := State.content_of_resident hown
  others q m hm hne := by
    unfold State.content State.swapped State.slotOf State.slot
    rw [hothers q m hm hne, hback]
  drops := by rw [State.drops, State.drops, hout]
  leaked := by rw [State.leakedSlots, State.leakedSlots, hback]
  table q := by
    unfold State.HasTable State.tab State.Stored State.slot
    rw [htab, hback]
  hasTable := .inl hp

theorem print (hput : Put p n c s s') {m : Message} (hm : m.isMove = false) :
    Put p n c s (s'.print m) where
  inv := hput.inv.print m
  own := hput.own
  others := hput.others
  drops := by
    rw [drops_print, Message.not_isDrop hm]
    exact hput.drops
  leaked := hput.leaked
  table := hput.table
  hasTable := hput.hasTable

/-- The page was `c` already. -/
theorem same (h : Inv s) (hc : s.content p n = some c) (hp : (s.tab p).valid = true) :
    Put p n c s s where
  inv := h
  own := hc
  others _ _ _ _ := rfl
  drops := rfl
  leaked := rfl
  table _ := Iff.rfl
  hasTable := .inl hp

theorem chmod (h : Inv s) (hp : (s.tab p).valid = true) (hn : n < pageSize)
    (hv : (s.entry p n).valid = true) (w : Bool) :
    Put p n (s.bytes (s.entry p n).frame, w) s
      (s.setEntry p n { s.entry p n with write := w }) :=
  of_resident (chmod_inv h hp hn w) (resident_chmod h hp hn hv w)
    (fun _ _ hm hne => resident_setEntry_ne h hp hn _ hm hne) rfl rfl rfl hp

theorem fresh {f : Nat} {e : Page} (h : Inv s) (hp : (s.tab p).valid = true) (hn : n < 4)
    (hout : (s.entry p n).valid = false) (hf : f < pageFrames) (hfree : Unowned s.view.Holds f)
    (hst : ∀ i, ¬ s.Stored (.page p n) i) (he : e.Maps p f) :
    Put p n (s.bytes f, e.write) s (s.setEntry p n e) := by
  have hn16 : n < pageSize := by simp only [pageSize]; omega
  exact of_resident (setEntry_inv h hp hn hout hf hfree hst he)
    (resident_setEntry h hp hn16 he (Unowned.not_table hfree p hp))
    (fun _ _ hm hne => resident_setEntry_ne h hp hn16 e hm hne) rfl rfl rfl hp

theorem poke {f k : Nat} (h : Inv s) (ho : s.view.Holds (.page p n) f) (hk : k < pageSize)
    (v : Byte) : Put p n ((s.bytes f).set k v, (s.entry p n).write) s (s.poke f k v) :=
  of_resident (poke_inv h ho hk v) (resident_poke h ho hk v)
    (fun _ _ hm hne => resident_poke_ne h ho hk v hm hne) rfl rfl rfl (State.holds_page.mp ho).1

end Put

/-! ## The lookup of `store` and `load` -/

section Lookup

variable {s : State}

theorem checkBackingStore_table (pid : Pid) (s : State) :
    checkBackingStore pid (-1) s = checkTable pid s := by
  unfold checkTable checkBackingStore checkBackingStoreWith
  simp only [if_true]

theorem tableReady_spec (h : Inv s) (p : Pid) :
    ∃ b s', tableReady p s = some (b, s') ∧ Quiet s s' ∧
      PagesKept p s s' ∧ (b = true → (s'.tab p).valid = true) ∧
      (b = false → ¬ s.HasTable p) := by
  unfold tableReady
  by_cases hp : (s.tab p).valid = true
  · rw [if_pos hp]
    exact ⟨true, s, rfl, Quiet.refl h, fun _ _ => ⟨rfl, rfl⟩, fun _ => hp, nofun⟩
  · rw [if_neg hp, checkBackingStore_table]
    obtain ⟨b, s', heq, hq, hown, htrue, hfalse⟩ := checkTable_spec h (by simpa using hp)
    refine ⟨b, s', heq, hq, hown, htrue, ?_⟩
    rintro hb (hv | ⟨i, hi⟩)
    · exact hp hv
    · exact (hfalse hb).2 i hi

theorem pageReady_spec (h : Inv s) {p : Pid} (hp : (s.tab p).valid = true) {n : Nat} (hn : n < 4) :
    ∃ b s', pageReady (.cell ((s.tab p).frame * pageSize + n)) p n s = some (b, s') ∧
      Quiet s s' ∧ s'.tab p = s.tab p ∧ s'.content p n = s.content p n ∧
      (b = true → (s'.entry p n).valid = true) ∧ (b = false → s.content p n = none) := by
  unfold pageReady
  rw [State.page_cell]
  by_cases hv : (s.entry p n).valid = true
  · rw [if_pos hv]
    exact ⟨true, s, rfl, Quiet.refl h, rfl, rfl, fun _ => hv, nofun⟩
  · rw [if_neg hv]
    obtain ⟨b, s', heq, hq, htab, hown, htrue, hfalse⟩ :=
      checkBackingStore_spec h hp hn (by simpa using hv)
    exact ⟨b, s', heq, hq, htab, hown, htrue, fun hb => (hfalse hb).2⟩

/-- Either the page is in memory afterwards and its entry is returned, or there
was no page, or — once a table has been dropped — no table. -/
theorem lookup_spec (h : Inv s) (p : Pid) (a : Address) :
    ∃ r s', lookup p a s = some (r, s') ∧ Quiet s s' ∧
      s'.content p a.page = s.content p a.page ∧
      (∀ page, r = some page → page = .cell ((s'.tab p).frame * pageSize + a.page) ∧
        (s'.tab p).valid = true ∧ (s'.entry p a.page).valid = true) ∧
      (r = none → s.content p a.page = none ∨ ¬ s.HasTable p) := by
  have hn16 : a.page < pageSize := lt_trans a.page_lt (by decide)
  obtain ⟨b, s₁, heq, hq, hown, htrue, hfalse⟩ := tableReady_spec h p
  unfold lookup
  rw [heq]
  cases b with
  | false =>
    exact ⟨none, s₁.print (.noPages p), rfl, hq.trans (Quiet.print hq.inv rfl),
      (hown _ hn16).2, nofun, fun _ => .inr (hfalse rfl)⟩
  | true =>
    have hp₁ := htrue rfl
    -- the table is in memory, so `find_page` only computes the pointer
    obtain ⟨s₂, hfind, -, -, -, hsame⟩ := findPage_spec hq.inv p a.page
    obtain rfl := hsame hp₁
    obtain ⟨b, s₃, hready, hq₃, htab₃, hown₃, htrue₃, hfalse₃⟩ :=
      pageReady_spec hq.inv hp₁ a.page_lt
    simp only [Option.bind_eq_bind, Option.bind_some, Bool.not_true, Bool.false_eq_true, if_false,
      hfind, hready]
    cases b with
    | false =>
      refine ⟨none, s₃.print (.noFrame a p), rfl, (hq.trans hq₃).trans (Quiet.print hq₃.inv rfl),
        hown₃.trans (hown _ hn16).2, nofun, fun _ => .inl ?_⟩
      exact (hown _ hn16).2.symm.trans (hfalse₃ rfl)
    | true =>
      refine ⟨_, s₃, rfl, hq.trans hq₃, hown₃.trans (hown _ hn16).2, ?_, nofun⟩
      intro page hpage
      cases hpage
      rw [htab₃]
      exact ⟨rfl, hp₁, htrue₃ rfl⟩

end Lookup

/-! ## `map_page` -/

section Map

variable {s : State}

/-- The write bit of a resident page is set to `w`. -/
theorem updateWrite_spec (h : Inv s) {p : Pid} (hp : (s.tab p).valid = true) {n : Nat}
    (hn : n < pageSize) (hv : (s.entry p n).valid = true) (w : Bool) :
    Put p n (s.bytes (s.entry p n).frame, w) s
      (if (s.entry p n).write ≠ w then
        (s.print (.updatingWrite n)).setEntry p n { s.entry p n with write := w }
      else s) := by
  by_cases hw : (s.entry p n).write = w
  · rw [if_neg (not_not.mpr hw)]
    refine Put.same h ?_ hp
    rw [State.content_of_resident (State.resident_eq_some hp hv), hw]
  · rw [if_pos hw]
    exact (Put.chmod h hp hn hv w).print (m := .updatingWrite n) rfl

/-- `map_page`: after faulting in the table, and the page if it is in the
backing store, the page is given the flag `w`; a page that did not exist is
given a frame as it is. The call returns 1 unless the page was in memory. -/
theorem mapPage_spec (h : Inv s) (p : Pid) (a : Address) (w : Bool) :
    ∃ b s₁ d s', mapPage p a w s = some (b, s') ∧ Quiet s s₁ ∧
      s₁.content p a.page = s.content p a.page ∧ Put p a.page (d, w) s₁ s' ∧
      (∀ c, s.content p a.page = some c → d = c.1) ∧
      (b = true ↔ s.resident p a.page = none) := by
  have hn16 : a.page < pageSize := lt_trans a.page_lt (by decide)
  obtain ⟨s₁, hfind, hq, hp, hown, hsame⟩ := findPage_spec h p a.page
  unfold mapPage
  rw [hfind]
  simp only [Option.bind_eq_bind, Option.bind_some, State.page_cell]
  by_cases hv : (s₁.entry p a.page).valid = true
  · -- in memory: only the flag is set, and the call returns 0
    have hres₁ := State.resident_eq_some hp hv
    have hput := (Put.chmod hq.inv hp hn16 hv w).print (m := .updatingWrite a.page) rfl
    refine ⟨false, s₁, _, _, if_pos hv, hq, (hown _ hn16).2, hput, ?_, ?_⟩
    · intro c hc
      rw [← (hown _ hn16).2, State.content_of_resident hres₁] at hc
      rw [← Option.some.inj hc]
    · rw [← (hown _ hn16).1, hres₁]
      simp
  · have hout : (s₁.entry p a.page).valid = false := by simpa using hv
    have hnone : s.resident p a.page = none := by
      rw [← (hown _ hn16).1]
      exact State.resident_of_entry hout
    rw [if_neg hv]
    obtain ⟨b, s₂, hcheck, hq₂, htab₂, hown₂, htrue₂, hfalse₂⟩ :=
      checkBackingStore_spec hq.inv hp a.page_lt hout
    have hp₂ : (s₂.tab p).valid = true := by rw [htab₂]; exact hp
    simp only [hcheck, Option.bind_some, ← htab₂]
    cases b with
    | true =>
      -- in the backing store: reloaded, then the flag is set if it differs
      have hv₂ := htrue₂ rfl
      have hput := updateWrite_spec hq₂.inv hp₂ hn16 hv₂ w
      refine ⟨true, s₂, _, _, rfl, hq.trans hq₂, hown₂.trans (hown _ hn16).2, hput, ?_, ?_⟩
      · intro c hc
        rw [← (hown _ hn16).2, ← hown₂,
          State.content_of_resident (State.resident_eq_some hp₂ hv₂)] at hc
        rw [← Option.some.inj hc]
      · simp [hnone]
    | false =>
      -- nowhere: it gets a frame, which may cost evictions
      obtain ⟨rfl, hcontent⟩ := hfalse₂ rfl
      obtain ⟨f, s₃, heq, hm, hf, hfree⟩ := findFreeFrame_spec hq.inv p
      have hk := Moves.kept hq.inv hm
      have hp₃ : (s₃.tab p).valid = true := by rw [hk.tab]; exact hp
      have hcontent₃ : s₃.content p a.page = none := by
        rw [hk.content_absent hq.inv hn16 (State.resident_of_entry hout), hcontent]
      obtain ⟨hout₃, hst₃⟩ := State.content_eq_none hp₃ hn16 hcontent₃
      have he : Page.Maps { s₃.entry p a.page with
          frame := Fin.ofNat 16 f, valid := true, write := w } p f :=
        ⟨rfl, ofNat_frame hf, hk.inv.entry_procc p _ hp₃ hn16⟩
      have hput := (Put.fresh hk.inv hp₃ a.page_lt hout₃ hf hfree hst₃ he).print
        (m := .mapped a a.page f) rfl
      refine ⟨true, s₃, _, _, ?_, (hq.trans (hk.quiet hq.inv)), ?_, hput, ?_, ?_⟩
      · -- the frame goes to the entry found before the evictions, and its flag is `w` already
        simp only [heq, Option.bind_some, ← hk.tab, State.page_cell, Bool.false_eq_true, if_false]
        have hwrite : ((s₃.setEntry p a.page { s₃.entry p a.page with
            frame := Fin.ofNat 16 f, valid := true, write := w }).entry p a.page).write = w := by
          rw [State.setEntry, State.entry_setCell _ _ (hk.inv.tab_lt hp₃) hn16]
        exact congrArg (fun t => some (true, t)) (if_neg (not_not.mpr hwrite))
      · rw [hcontent₃, ← (hown _ hn16).2, hcontent]
      · intro c hc
        rw [← (hown _ hn16).2, hcontent] at hc
        cases hc
      · simp [hnone]

end Map

/-! ## `store` and `load` -/

section StoreLoad

variable {s : State}

/-- `store`: it returns 1 and writes the byte exactly when the page exists and
is writable (and its table has not been dropped). -/
theorem store_spec (h : Inv s) (p : Pid) (a : Address) (v : Byte) :
    ∃ b s₁ s', store p a v s = some (b, s') ∧ Quiet s s₁ ∧
      s₁.content p a.page = s.content p a.page ∧
      (b = true → ∃ d, s.content p a.page = some (d, true) ∧
        Put p a.page (d.set a.offset v, true) s₁ s') ∧
      (b = false → Quiet s s' ∧ s'.content p a.page = s.content p a.page ∧
        (s.HasTable p → ∀ d, s.content p a.page ≠ some (d, true))) := by
  have hn16 : a.page < pageSize := lt_trans a.page_lt (by decide)
  obtain ⟨r, s₁, hlook, hq, hown, hsome, hnone⟩ := lookup_spec h p a
  unfold store
  rw [hlook]
  cases r with
  | none =>
    refine ⟨false, s₁, s₁, rfl, hq, hown, nofun, fun _ => ⟨hq, hown, ?_⟩⟩
    intro ht d hc
    rcases hnone rfl with hn | hn
    · rw [hn] at hc
      cases hc
    · exact hn ht
  | some page =>
    obtain ⟨rfl, hp, hv⟩ := hsome page rfl
    have hres := State.content_of_resident (State.resident_eq_some hp hv)
    simp only [Option.bind_eq_bind, Option.bind_some, State.page_cell]
    by_cases hw : (s₁.entry p a.page).write = true
    · have ho : s₁.view.Holds (.page p a.page) (s₁.entry p a.page).frame :=
        State.holds_page.mpr ⟨hp, hn16, hv, rfl⟩
      have hput := (Put.poke hq.inv ho a.offset_lt v).print
        (m := .stored v a (s₁.phys (.cell ((s₁.tab p).frame * pageSize + a.page)) a)) rfl
      rw [hw] at hput hres
      refine ⟨true, s₁, _, if_neg (by rw [hw]; decide), hq, hown, fun _ => ⟨_, ?_, hput⟩, nofun⟩
      rw [← hown, hres]
    · rw [Bool.not_eq_true] at hw
      rw [hw] at hres
      refine ⟨false, s₁, s₁.print (.forbidden a p), if_pos (by rw [hw]; rfl), hq, hown, nofun,
        fun _ => ⟨hq.trans (Quiet.print hq.inv rfl), hown, ?_⟩⟩
      intro _ d hc
      rw [← hown, hres] at hc
      cases hc

/-- `load`: it returns the byte exactly when the page exists (and its table has
not been dropped). -/
theorem load_spec (h : Inv s) (p : Pid) (a : Address) :
    ∃ r s', load p a s = some (r, s') ∧ Quiet s s' ∧
      s'.content p a.page = s.content p a.page ∧
      (∀ v, r = some v → ∃ c, s.content p a.page = some c ∧ c.1.get a.offset = v) ∧
      (r = none → s.content p a.page = none ∨ ¬ s.HasTable p) := by
  have hn16 : a.page < pageSize := lt_trans a.page_lt (by decide)
  obtain ⟨r, s₁, hlook, hq, hown, hsome, hnone⟩ := lookup_spec h p a
  unfold load
  rw [hlook]
  cases r with
  | none => exact ⟨none, s₁, rfl, hq, hown, nofun, fun _ => hnone rfl⟩
  | some page =>
    obtain ⟨rfl, hp, hv⟩ := hsome page rfl
    have hres := State.content_of_resident (State.resident_eq_some hp hv)
    refine ⟨_, _, rfl, hq.trans (Quiet.print hq.inv rfl), hown, ?_, nofun⟩
    intro v hv'
    refine ⟨_, hown.symm.trans hres, ?_⟩
    rw [State.get_bytes _ _ a.offset_lt]
    exact Option.some.inj hv'

end StoreLoad

end OsProjects.Paging.PartTwo
