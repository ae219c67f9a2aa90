import OsProjects.Paging.PartTwo.Runs

/-!
# Overflow of the backing store

`free_specific_frame` claims a slot for every eviction, `check_backing_store`
gives it back when the object is looked up again. An evicted page 0 is stored
under the key -2, which nobody looks up, so its slot stays claimed forever:
the 64 slots last while few copies of page 0 exist, and no longer.
-/

namespace OsProjects.Paging.PartTwo

open OsProjects.Lib OsProjects.Paging

/-- While at most 48 copies of page 0 exist before each call, no eviction finds
the backing store full. The slots in use never exceed the 16 tables and pages
1, 2, 3 plus one for every page 0 that was evicted; so they stay within the 20
tables and pages there are while at most four page 0s were. -/
theorem no_drop_while_few_page_zeros (cs : List Cmd) (tr : History) (s : State)
    (hrun : calls cs = some (tr, s))
    (hfew : ∀ cs' tr' s', cs' <+: cs → cs' ≠ cs → calls cs' = some (tr', s') →
      s'.pageZeros ≤ 48) :
    s.drops = 0 ∧ s.usedSlots ≤ s.leakedSlots + 16 ∧ (s.leakedSlots ≤ 4 → s.usedSlots ≤ 20) := by
  have hguard : Guarded exec (fun _ s => s.pageZeros ≤ 48) cs State.init := by
    intro cs' c tr' s' hpre hrun'
    refine hfew cs' tr' s' ((List.prefix_append cs' [c]).trans hpre) ?_ hrun'
    rintro rfl
    have hlen := hpre.length_le
    rw [List.length_append, List.length_singleton] at hlen
    omega
  have hstep : ∀ (tr : History) s c r s', Inv s ∧ s.drops = 0 → s.pageZeros ≤ 48 →
      exec c s = some (r, s') → Inv s' ∧ s'.drops = 0 := by
    rintro tr s c r s' ⟨hinv, hdrops⟩ hroom hcall
    obtain ⟨hst, -⟩ := exec_step hinv hcall
    exact ⟨hst.inv, (hst.room hroom).trans hdrops⟩
  obtain ⟨hinv, hdrops⟩ := guarded_rule ⟨init_inv, rfl⟩ hstep cs tr s hrun hguard
  have hused := usedSlots_le hinv
  refine ⟨hdrops, hused, fun hleaked => ?_⟩
  omega

/-- Four processes, each mapping its page 0: the last two calls evict. -/
theorem no_drop_while_few_page_zeros_at_four :
    ∃ tr s, calls [.map 0 0 true, .map 1 0 true, .map 2 0 true, .map 3 0 true] = some (tr, s) ∧
      (s.leakedSlots ≠ 0 ∧ s.leakedSlots ≤ 4) ∧
      s.drops = 0 ∧ s.usedSlots ≤ s.leakedSlots + 16 ∧ s.usedSlots ≤ 20 := by
  obtain ⟨tr, s, hrun, -⟩ :=
    calls_inv [.map 0 0 true, .map 1 0 true, .map 2 0 true, .map 3 0 true]
  have hleak : (calls [.map 0 0 true, .map 1 0 true, .map 2 0 true, .map 3 0 true]).map
      (fun x => decide (x.2.leakedSlots ≠ 0 ∧ x.2.leakedSlots ≤ 4)) = some true := by
    decide +kernel
  have hfew : ∀ k < 4, (calls (List.take k
      [.map 0 0 true, .map 1 0 true, .map 2 0 true, .map 3 0 true])).map
      (fun x => decide (x.2.pageZeros ≤ 48)) = some true := by decide +kernel
  rw [hrun, Option.map_some, Option.some.injEq, decide_eq_true_eq] at hleak
  suffices hfew' : ∀ cs' tr' s',
      cs' <+: [.map 0 0 true, .map 1 0 true, .map 2 0 true, .map 3 0 true] →
      cs' ≠ [.map 0 0 true, .map 1 0 true, .map 2 0 true, .map 3 0 true] →
      calls cs' = some (tr', s') → s'.pageZeros ≤ 48 by
    obtain ⟨hdrops, hused, hfour⟩ := no_drop_while_few_page_zeros _ tr s hrun hfew'
    exact ⟨tr, s, hrun, hleak, hdrops, hused, hfour hleak.2⟩
  intro cs' tr' s' hpre hne hrun'
  have hlen : cs'.length < 4 := by
    rcases Nat.lt_or_ge cs'.length 4 with hlt | hge
    · exact hlt
    · exact absurd (hpre.eq_of_length_le hge) hne
  have hk := hfew cs'.length hlen
  rw [← List.prefix_iff_eq_take.mp hpre, hrun', Option.map_some, Option.some.injEq,
    decide_eq_true_eq] at hk
  exact hk

/-- The four processes in turn map their page 0, `n` calls in all. -/
def mapInTurn (n : Nat) : List Cmd :=
  (List.range n).map fun i => .map (pidOfNat i) ⟨0, Nat.zero_lt_succ _⟩ true

/-- The 64th such call evicts a frame for which there is no slot left. -/
theorem sixty_four_maps_overflow :
    ∃ tr s, calls (mapInTurn 64) = some (tr, s) ∧ s.drops = 1 ∧ 20 < s.usedSlots := by
  have heval : (calls (mapInTurn 64)).map
      (fun x => decide (x.2.drops = 1 ∧ 20 < x.2.usedSlots)) = some true := by decide +kernel
  obtain ⟨⟨tr, s⟩, hrun, h⟩ := Option.map_eq_some_iff.mp heval
  exact ⟨tr, s, hrun, of_decide_eq_true h⟩

end OsProjects.Paging.PartTwo
