import OsProjects.Mc2.Jobs

/-!
# The list of running processes

The `r` option looks for each number from 1 on with `findJobnum`, which takes the first
entry that carries it, in use or not. A completed job leaves its number behind in its
entry, and the job behind it gets the same number; so the list is right, all along, only
as long as jobs complete in the reverse order of their starts. Then the entries in use
are the first ones, in the order of the starts (`Stacked`).
-/

namespace OsProjects.Mc2

open OsProjects.Lib

/-- The loop finds running processes only, and each of them once. -/
def Listed (t : Table) : Prop :=
  (∀ job ∈ running t, ∃ i, job = some i ∧ (t.processes.get i).pid ≠ 0) ∧
    ∀ i, i < maxBgProcesses → (t.processes.get i).pid ≠ 0 → (running t).count (some i) = 1

/-- Who completes has the highest number: it is the job started last. -/
def LastStarted : Command → Table → Prop
  | .start .., _ => True
  | .complete _ _ pid, t => ∀ i, findProcess t.processes pid = some i →
      (t.processes.get i).jobnum = t.jobCounter - 1

/-- The first `k` entries are in use, in the order of the starts. -/
structure Stacked (t : Table) (k : Nat) : Prop where
  le : k ≤ maxBgProcesses
  used : ∀ i, i < maxBgProcesses → ((t.processes.get i).pid ≠ 0 ↔ i < k)
  number : ∀ i, i < k → (t.processes.get i).jobnum = i + 1
  counter : t.jobCounter = k + 1

section Steps

variable {t t' : Table} {k : Nat}

theorem init_stacked : Stacked init 0 := by
  refine ⟨Nat.zero_le _, fun i hi => ?_, fun i hi => absurd hi (Nat.not_lt_zero i), rfl⟩
  rw [init, Cells.get_ofFn _ hi]
  exact iff_of_false (fun h => h rfl) (Nat.not_lt_zero i)

theorem Stacked.running_eq (h : Stacked t k) : running t = (List.range k).map some := by
  have hk : (t.jobCounter - 1).toNat = k := by
    rw [h.counter]
    omega
  rw [running, hk]
  refine List.map_congr_left fun n hn => findJobnum_eq_some.mpr ?_
  have hlt := List.mem_range.mp hn
  refine ⟨Nat.lt_of_lt_of_le hlt h.le, h.number n hlt, fun j hj => ?_⟩
  rw [h.number j (by omega)]
  omega

theorem Stacked.listed (h : Stacked t k) : Listed t := by
  rw [Listed, h.running_eq]
  constructor
  · intro job hjob
    obtain ⟨i, hi, rfl⟩ := List.mem_map.mp hjob
    have hlt := List.mem_range.mp hi
    exact ⟨i, rfl, (h.used i (Nat.lt_of_lt_of_le hlt h.le)).mpr hlt⟩
  · intro i hi hne
    have hnodup : ((List.range k).map some).Nodup :=
      List.nodup_range.map (Option.some_injective _)
    refine List.count_eq_one_of_mem hnodup (List.mem_map.mpr ⟨i, ?_, rfl⟩)
    exact List.mem_range.mpr ((h.used i hi).mp hne)

theorem Stacked.start_step {now : Timeval} {pid : Int} (h : Stacked t k) (hpos : 0 < pid)
    (hroom : t.processes.used Cprocess.inUse < maxBgProcesses)
    (hs : startJob t now pid = some t') : Stacked t' (k + 1) := by
  obtain ⟨i, hi⟩ := findProcess_free hroom
  obtain ⟨e, hpid, hnum, heq⟩ := startJob_spec now pid hi
  cases heq.symm.trans hs
  obtain ⟨hlt, hzero, hfirst⟩ := findProcess_eq_some.mp hi
  -- the first entry not in use is the one behind those in use
  obtain rfl : i = k := by
    have hge : ¬ i < k := fun hik => (h.used i hlt).mpr hik hzero
    by_contra hne
    have hki : k < i := by omega
    exact absurd ((h.used k (by omega)).mp (hfirst k hki)) (lt_irrefl k)
  refine ⟨hlt, fun j hj => ?_, fun j hj => ?_, ?_⟩
  · by_cases hji : j = i
    · subst hji
      rw [Cells.get_set_eq _ _ hlt, hpid]
      exact iff_of_true (by omega) (Nat.lt_succ_self j)
    · rw [Cells.get_set_ne _ _ hji, h.used j hj]
      omega
  · by_cases hji : j = i
    · subst hji
      rw [Cells.get_set_eq _ _ hlt, hnum, h.counter]
    · rw [Cells.get_set_ne _ _ hji]
      exact h.number j (by omega)
  · show t.jobCounter + 1 = _
    rw [h.counter]
    push_cast
    rfl

/-- A completion, wherever the job is among those running. -/
theorem Stacked.complete_spec {now : Timeval} {stats : Rusage} {pid : Int} {lines : List Line}
    {i : Nat} (h : Stacked t k) (hne : pid ≠ 0) (hi : findProcess t.processes pid = some i)
    (hs : completeJob t now stats pid = some (lines, t')) :
    i < k ∧ t'.jobCounter = k ∧ (t'.processes.get i).pid = 0 ∧
      (∀ j, j < k → (t'.processes.get j).jobnum = renumber (i + 1) (j + 1)) ∧
      (∀ j, j < maxBgProcesses → j ≠ i → ((t'.processes.get j).pid ≠ 0 ↔ j < k)) := by
  obtain ⟨hlt, hpi, -⟩ := findProcess_eq_some.mp hi
  obtain ⟨lines', t₁, heq, hcounter, hfreed, hnum, hother⟩ := completeJob_spec now stats hi
  cases heq.symm.trans hs
  have hik : i < k := (h.used i hlt).mp (by rw [hpi]; exact hne)
  refine ⟨hik, by rw [hcounter, h.counter]; omega, hfreed, fun j hj => ?_, fun j hj hji => ?_⟩
  · rw [hnum j (Nat.lt_of_lt_of_le hj h.le), h.number i hik, h.number j hj]
  · rw [hother j hj hji, h.used j hj]

theorem Stacked.complete_step {now : Timeval} {stats : Rusage} {pid : Int} {lines : List Line}
    (h : Stacked t k) (hne : pid ≠ 0) (hfound : findProcess t.processes pid ≠ none)
    (hlast : LastStarted (.complete now stats pid) t)
    (hs : completeJob t now stats pid = some (lines, t')) : Stacked t' (k - 1) := by
  obtain ⟨i, hi⟩ := Option.ne_none_iff_exists'.mp hfound
  obtain ⟨hik, hcounter, hfreed, hnum, hother⟩ := h.complete_spec hne hi hs
  have hle := h.le
  have hik' : i + 1 = k := by
    have := hlast i hi
    rw [h.number i hik, h.counter] at this
    omega
  refine ⟨by omega, fun j hj => ?_, fun j hj => ?_, by rw [hcounter]; omega⟩
  · by_cases hji : j = i
    · subst hji
      exact iff_of_false (fun h => h hfreed) (by omega)
    · rw [hother j hj hji]
      omega
  · rw [hnum j (by omega), renumber, if_neg (by omega)]

/-- A completion further down leaves the number of the completed job in its entry, in
front of the entry that now has it. -/
theorem Stacked.not_listed {now : Timeval} {stats : Rusage} {pid : Int} {lines : List Line}
    {i : Nat} (h : Stacked t k) (hne : pid ≠ 0) (hi : findProcess t.processes pid = some i)
    (hs : completeJob t now stats pid = some (lines, t')) (hlow : i + 1 < k) : ¬ Listed t' := by
  obtain ⟨hik, hcounter, hfreed, hnum, -⟩ := h.complete_spec hne hi hs
  have hle := h.le
  have hfind : findJobnum t'.processes (i + 1) = some i := by
    refine findJobnum_eq_some.mpr ⟨by omega, ?_, fun j hj => ?_⟩
    · rw [hnum i hik, renumber, if_neg (by omega)]
    · rw [hnum j (by omega), renumber, if_neg (by omega)]
      omega
  have hmem : some i ∈ running t' := by
    refine List.mem_map.mpr ⟨i, List.mem_range.mpr ?_, hfind⟩
    rw [hcounter]
    omega
  intro hlisted
  obtain ⟨j, hj, hpid⟩ := hlisted.1 (some i) hmem
  cases hj
  exact hpid hfreed

theorem Stacked.exec_step {c : Command} {lines : List Line} (h : Stacked t k) (hfits : Fits c t)
    (hlast : LastStarted c t) (hs : exec c t = some (lines, t')) : ∃ k', Stacked t' k' := by
  cases c with
  | start now pid =>
    obtain ⟨u, hu, heq⟩ := Option.map_eq_some_iff.mp hs
    cases heq
    exact ⟨_, h.start_step hfits.1 hfits.2.2 hu⟩
  | complete now stats pid => exact ⟨_, h.complete_step hfits.1 hfits.2 hlast hs⟩

theorem Stacked.lastStarted {c : Command} (h : Stacked t k) (hfits : Fits c t)
    (hnext : ∀ lines t', exec c t = some (lines, t') → Listed t') : LastStarted c t := by
  cases c with
  | start => trivial
  | complete now stats pid =>
    intro i hi
    obtain ⟨lines, t', hs, -⟩ := completeJob_spec now stats hi
    have hlow : ¬ i + 1 < k := fun hlow =>
      h.not_listed hfits.1 hi hs hlow (hnext lines t' hs)
    have hik := (h.complete_spec hfits.1 hi hs).1
    rw [h.number i hik, h.counter]
    omega

end Steps

/-- The `r` option lists each running process once and nothing else after every command
of a run, exactly if each process that completes is the last one started of those
running. -/
theorem listed_iff_last_started_completes (cs : List Command)
    (hfits : Guarded exec Fits cs init) :
    Always exec Listed cs init ↔ Guarded exec LastStarted cs init := by
  refine always_iff_guarded (I := fun t => ∃ k, Stacked t k) ⟨0, init_stacked⟩ ?_ ?_ ?_ cs hfits
  · rintro t c lines t' ⟨k, h⟩ hc hlast hs
    exact h.exec_step hc hlast hs
  · rintro t ⟨k, h⟩
    exact h.listed
  · rintro t c ⟨k, h⟩ hc hnext
    exact h.lastStarted hc hnext

instance (c : Command) (t : Table) : Decidable (LastStarted c t) :=
  match c with
  | .start .. => isTrue trivial
  | .complete _ _ pid =>
    decidable_of_iff (∀ i ∈ findProcess t.processes pid,
      (t.processes.get i).jobnum = t.jobCounter - 1) Iff.rfl

/-- Two processes are started, and the second one completes. -/
def secondCompletes : List Command :=
  [.start default 101, .start default 102, .complete default default 102]

theorem listed_iff_last_started_completes_second :
    Always exec Listed secondCompletes init ∧
      (run exec secondCompletes init).map (fun x => running x.2) = some [some 0] := by
  have hlast : Guarded exec LastStarted secondCompletes init :=
    Guarded.of_eval (by decide +kernel)
  refine ⟨(listed_iff_last_started_completes secondCompletes ?_).mpr hlast, by decide +kernel⟩
  exact Guarded.of_eval (by decide +kernel)

/-- The first of two processes completes. For number 1 the loop finds the entry of the
completed process, whose pid is 0, and not the one that still runs. -/
theorem completed_job_listed : Guarded exec Fits firstCompletes init ∧
    ∃ tr t, run exec firstCompletes init = some (tr, t) ∧ ¬ Listed t ∧
      (t.processes.get 1).pid = 102 ∧ running t = [some 0] ∧
      runningLines t = some [.running 1 0] := by
  refine ⟨Guarded.of_eval (by decide +kernel), ?_⟩
  have heval : (run exec firstCompletes init).map (fun x => decide ((x.2.processes.get 0).pid = 0 ∧
      (x.2.processes.get 1).pid = 102 ∧ running x.2 = [some 0] ∧
      runningLines x.2 = some [.running 1 0])) = some true := by decide +kernel
  obtain ⟨⟨tr, t⟩, hrun, heq⟩ := Option.map_eq_some_iff.mp heval
  obtain ⟨hzero, hsecond, hrunning, hlines⟩ := of_decide_eq_true heq
  refine ⟨tr, t, hrun, fun hlisted => ?_, hsecond, hrunning, hlines⟩
  obtain ⟨i, hi, hpid⟩ := hlisted.1 (some 0) (by rw [hrunning]; exact List.mem_singleton.mpr rfl)
  cases hi
  exact hpid hzero

end OsProjects.Mc2
