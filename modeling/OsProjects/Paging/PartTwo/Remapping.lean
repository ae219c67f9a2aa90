import OsProjects.Paging.PartTwo.Runs
import OsProjects.Paging.PartTwo.Unused

/-!
# What `map_page` returns

A page exists only if some `map_page` was called for it, whatever evictions have lost
(`calls_known`). So `map_page` is right to return 1 for a page it has never seen; but it
returns 0 for a page it has seen only as long as the page and its table are in memory.
-/

namespace OsProjects.Paging.PartTwo

open OsProjects.Lib OsProjects.Paging

section Step

variable {s s' : State} {c : Cmd} {r : Result} {q : Pid} {m : Nat}

/-- No page comes into being but the one a call addresses. -/
theorem exec_absent (h : Inv s) (he : exec c s = some (r, s')) (hm : m < pageSize)
    (hne : ¬ (q = c.pid ∧ m = c.page)) (hnone : s.content q m = none) :
    s'.content q m = none := by
  cases c with
  | map p a w =>
    obtain ⟨b, s₁, d, s₂, heq, hq, -, hput, -, -⟩ := mapPage_spec h p a w
    rw [exec, heq] at he
    cases he
    rw [hput.others q m hm hne]
    exact hq.absent q m hm hnone
  | store p a v =>
    obtain ⟨b, s₁, s₂, heq, hq, -, htrue, hfalse⟩ := store_spec h p a v
    rw [exec, heq] at he
    cases he
    cases b with
    | true =>
      obtain ⟨d, -, hput⟩ := htrue rfl
      rw [hput.others q m hm hne]
      exact hq.absent q m hm hnone
    | false => exact (hfalse rfl).1.absent q m hm hnone
  | load p a =>
    obtain ⟨v, s₂, heq, hq, -, -, -⟩ := load_spec h p a
    rw [exec, heq] at he
    cases he
    exact hq.absent q m hm hnone

/-- The history knows the pages that exist. -/
def Known (tr : History) (s : State) : Prop :=
  ∀ p n, n < pageSize → lastMap tr p n = none → s.content p n = none

theorem Known.step {tr : History} (hk : Known tr s) (h : Inv s)
    (he : exec c s = some (r, s')) : Known (tr ++ [(c, r)]) s' := by
  intro q m hm hnone
  by_cases hqm : q = c.pid ∧ m = c.page
  · obtain ⟨rfl, rfl⟩ := hqm
    obtain ⟨-, hans⟩ := exec_step h he
    cases c with
    | map p a w =>
      rw [lastMap_map, if_pos ⟨rfl, rfl⟩] at hnone
      cases hnone
    | store p a v =>
      rw [lastMap_store] at hnone
      have hout : s.content p a.page = none := hk p a.page hm hnone
      cases hret : r.ret with
      | true =>
        obtain ⟨d, hd, -⟩ := hans.1 hret
        rw [hout] at hd
        cases hd
      | false => exact (hans.2 hret).1.trans hout
    | load p a =>
      rw [lastMap_load] at hnone
      exact hans.1.trans (hk p a.page hm hnone)
  · rw [lastMap_other hqm] at hnone
    exact exec_absent h he hm hqm (hk q m hm hnone)

end Step

theorem calls_known {cs : List Cmd} {tr : History} {s : State} (h : calls cs = some (tr, s)) :
    Known tr s := by
  refine (run_rule (P := fun tr s => Inv s ∧ Known tr s)
    ⟨init_inv, fun p n _ _ => init_content p n⟩ ?_ cs tr s h).2
  rintro tr s c r s' ⟨hinv, hk⟩ he
  exact ⟨(exec_step hinv he).1.inv, hk.step hinv he⟩

/-- A call `map_page(p, a, w)` is answered as the history calls for, that is, by 0 and a
new permission if the page was mapped before and by 1 if it was not, exactly if a page
that was mapped before is in memory and its table too. -/
theorem mapped_again_iff_resident (cs : List Cmd) (tr : History) (s : State)
    (hrun : calls cs = some (tr, s)) (p : Pid) (a : Address) (w : Bool) (r : Result) (s' : State)
    (hcall : exec (.map p a w) s = some (r, s')) :
    ((lastMap tr p a.page ≠ none → r.ret = false ∧
        s' = (s.print (.updatingWrite a.page)).setEntry p a.page
          { s.entry p a.page with write := w }) ∧
      (lastMap tr p a.page = none → r.ret = true)) ↔
    (lastMap tr p a.page ≠ none → (s.tab p).valid = true ∧ (s.entry p a.page).valid = true) := by
  have hn16 : a.page < pageSize := lt_trans a.page_lt (by decide)
  have hinv := inv_of_calls hrun
  obtain ⟨-, -, hret⟩ := exec_step hinv hcall
  constructor
  · rintro ⟨hagain, -⟩ hmapped
    by_contra hout
    have hres : s.resident p a.page = none := if_neg (by simpa using hout)
    rw [(hagain hmapped).1] at hret
    exact absurd (hret.mpr hres) Bool.false_ne_true
  · intro hres
    refine ⟨?_, ?_⟩
    · intro hmapped
      obtain ⟨hp, hv⟩ := hres hmapped
      rw [exec, mapPage_resident hp a w hv] at hcall
      cases hcall
      exact ⟨rfl, rfl⟩
    · intro hnone
      refine hret.mpr ?_
      -- what is in memory has content
      cases hc : s.resident p a.page with
      | none => rfl
      | some d =>
        have hcontent := calls_known hrun p a.page hn16 hnone
        rw [State.content_of_resident hc] at hcontent
        cases hcontent

/-- A page of process 0 is mapped again while it is in memory. -/
theorem mapped_again_iff_resident_at_once :
    ∃ tr s r s', calls [.map 0 16 true] = some (tr, s) ∧
      exec (.map 0 16 false) s = some (r, s') ∧ lastMap tr 0 1 = some true ∧ r.ret = false := by
  obtain ⟨tr, s, r, s', hrun, hcall, hmapped, hp, hv⟩ := exists_of_eval exec [.map 0 16 true]
    (.map 0 16 false) State.init (fun tr s _ _ => lastMap tr 0 1 = some true ∧
      (s.tab 0).valid = true ∧ (s.entry 0 1).valid = true) (by decide +kernel)
  obtain ⟨hagain, -⟩ := (mapped_again_iff_resident _ tr s hrun 0 16 false r s' hcall).mpr
    fun _ => ⟨hp, hv⟩
  refine ⟨tr, s, r, s', hrun, hcall, hmapped, (hagain ?_).1⟩
  show lastMap tr 0 1 ≠ none
  rw [hmapped]
  exact Option.some_ne_none _

/-- Two pages of process 1 drive page 1 of process 0, and its table, out of memory; the
second `map_page` of the page then returns 1 like the first. -/
theorem mapped_again_from_backing_store :
    ∃ tr s r s', calls [.map 0 16 true, .map 1 16 true, .map 1 32 true] = some (tr, s) ∧
      exec (.map 0 16 false) s = some (r, s') ∧ lastMap tr 0 1 = some true ∧ r.ret = true :=
  exists_of_eval _ _ _ _ (fun tr _ r _ => lastMap tr 0 1 = some true ∧ r.ret = true)
    (by decide +kernel)

end OsProjects.Paging.PartTwo
