import OsProjects.Lib.Machine
import OsProjects.Lib.Lists
import OsProjects.Mc2.Table

/-!
# Job numbers

Background processes are started and completed in any order, one at a time. Seen from
outside, the jobs form a list in the order of their starts: a start appends, a completion
removes. `Tracks` says that the table is that list: an entry is in use for each job, and
its number is the job's position.
-/

namespace OsProjects.Mc2

open OsProjects.Lib

/-- A start with what `fork` returned, or a completion with what `wait3` returned. -/
inductive Command
  | start (now : Timeval) (pid : Int)
  | complete (now : Timeval) (stats : Rusage) (pid : Int)

def exec : Command → Table → Option (List Line × Table)
  | .start now pid, t => (startJob t now pid).map fun t => ([], t)
  | .complete now stats pid, t => completeJob t now stats pid

/-- A start has an entry left and gets a fresh positive pid; a completion is of a process
that is running. -/
def Fits : Command → Table → Prop
  | .start _ pid, t => 0 < pid ∧ findProcess t.processes pid = none ∧
      t.processes.used Cprocess.inUse < maxBgProcesses
  | .complete _ _ pid, t => pid ≠ 0 ∧ findProcess t.processes pid ≠ none

/-- The jobs after one more command, in the order of their starts. -/
def Command.after (live : List Int) : Command → List Int
  | .start _ pid => live ++ [pid]
  | .complete _ _ pid => live.erase pid

/-- The jobs after a sequence of commands, in the order of their starts. -/
def liveJobs (cs : List Command) : List Int := cs.foldl Command.after []

theorem liveJobs_snoc (cs : List Command) (c : Command) :
    liveJobs (cs ++ [c]) = c.after (liveJobs cs) := by
  unfold liveJobs
  rw [List.foldl_append]
  rfl

/-- The table shows the jobs `live`. -/
structure Tracks (t : Table) (live : List Int) : Prop where
  nodup : live.Nodup
  shown : ∀ p, p ∈ live ↔ p ≠ 0 ∧ ∃ i, i < maxBgProcesses ∧ (t.processes.get i).pid = p
  unique : ∀ i j, i < maxBgProcesses → j < maxBgProcesses → (t.processes.get i).pid ≠ 0 →
    (t.processes.get i).pid = (t.processes.get j).pid → i = j
  number : ∀ i, i < maxBgProcesses → (t.processes.get i).pid ≠ 0 →
    (t.processes.get i).jobnum = live.idxOf (t.processes.get i).pid + 1
  counter : t.jobCounter = live.length + 1

theorem init_tracks : Tracks init [] := by
  have hpid : ∀ i, i < maxBgProcesses → (init.processes.get i).pid = 0 := by
    intro i hi
    rw [init, Cells.get_ofFn _ hi]
    rfl
  refine ⟨List.nodup_nil, fun p => ?_, fun i j hi _ hne => absurd (hpid i hi) hne,
    fun i hi hne => absurd (hpid i hi) hne, rfl⟩
  simp only [List.not_mem_nil, false_iff, not_and, not_exists]
  intro hp i hi heq
  exact hp (heq ▸ hpid i hi)

section Steps

variable {t t' : Table} {live : List Int} {pid : Int} {i : Nat}

/-- As many entries are in use as there are jobs. -/
theorem Tracks.count (h : Tracks t live) : t.processes.used Cprocess.inUse = live.length := by
  rw [← List.toFinset_card_of_nodup h.nodup, Cells.used]
  refine Finset.card_bij (fun i _ => (t.processes.get i).pid) ?_ ?_ ?_
  · intro i hi
    obtain ⟨hlt, huse⟩ := Finset.mem_filter.mp hi
    have hne : (t.processes.get i).pid ≠ 0 := by simpa [Cprocess.inUse] using huse
    exact List.mem_toFinset.mpr ((h.shown _).mpr ⟨hne, i, Finset.mem_range.mp hlt, rfl⟩)
  · intro i hi j hj heq
    obtain ⟨hlt, huse⟩ := Finset.mem_filter.mp hi
    have hne : (t.processes.get i).pid ≠ 0 := by simpa [Cprocess.inUse] using huse
    exact h.unique i j (Finset.mem_range.mp hlt)
      (Finset.mem_range.mp (Finset.mem_filter.mp hj).1) hne heq
  · intro p hp
    obtain ⟨hne, i, hlt, rfl⟩ := (h.shown p).mp (List.mem_toFinset.mp hp)
    refine ⟨i, Finset.mem_filter.mpr ⟨Finset.mem_range.mpr hlt, ?_⟩, rfl⟩
    simpa [Cprocess.inUse] using hne

theorem Tracks.mem (h : Tracks t live) (hi : i < maxBgProcesses)
    (hne : (t.processes.get i).pid ≠ 0) : (t.processes.get i).pid ∈ live :=
  (h.shown _).mpr ⟨hne, i, hi, rfl⟩

theorem Tracks.start_step (h : Tracks t live) (now : Timeval) (hpos : 0 < pid)
    (hfresh : findProcess t.processes pid = none)
    (hroom : t.processes.used Cprocess.inUse < maxBgProcesses) :
    ∃ t', startJob t now pid = some t' ∧ Tracks t' (live ++ [pid]) := by
  obtain ⟨i, hi⟩ := findProcess_free hroom
  obtain ⟨e, hpid, hnum, heq⟩ := startJob_spec now pid hi
  obtain ⟨hlt, hzero, -⟩ := findProcess_eq_some.mp hi
  have hself : (t.processes.set i e).get i = e := Cells.get_set_eq _ _ hlt
  have hother : ∀ j, j ≠ i → (t.processes.set i e).get j = t.processes.get j :=
    fun j hj => Cells.get_set_ne _ _ hj
  have hnew : pid ∉ live := by
    intro hin
    obtain ⟨-, j, hj, hpj⟩ := (h.shown pid).mp hin
    exact findProcess_eq_none.mp hfresh j hj hpj
  -- no other entry has the pid
  have halone : ∀ j, j < maxBgProcesses → j ≠ i → ((t.processes.set i e).get j).pid ≠ pid := by
    intro j hj hji
    rw [hother j hji]
    exact findProcess_eq_none.mp hfresh j hj
  refine ⟨_, heq, ?_, ?_, ?_, ?_, ?_⟩
  · exact h.nodup.append (List.nodup_singleton pid) (List.disjoint_singleton.mpr hnew)
  · intro p
    rw [List.mem_append, List.mem_singleton, h.shown]
    constructor
    · rintro (⟨hp, j, hj, rfl⟩ | rfl)
      · have hji : j ≠ i := by
          rintro rfl
          exact hp hzero
        exact ⟨hp, j, hj, by rw [hother j hji]⟩
      · exact ⟨by omega, i, hlt, by rw [hself, hpid]⟩
    · rintro ⟨hp, j, hj, rfl⟩
      by_cases hji : j = i
      · subst hji
        exact .inr (by rw [hself, hpid])
      · rw [hother j hji] at hp ⊢
        exact .inl ⟨hp, j, hj, rfl⟩
  · intro j k hj hk hne hjk
    by_cases hji : j = i
    · subst hji
      by_contra hkj
      exact halone k hk (Ne.symm hkj) (by rw [← hjk, hself, hpid])
    · by_cases hki : k = i
      · subst hki
        exact absurd (by rw [hjk, hself, hpid]) (halone j hj hji)
      · rw [hother j hji] at hne hjk
        rw [hother k hki] at hjk
        exact h.unique j k hj hk hne hjk
  · intro j hj hne
    by_cases hji : j = i
    · subst hji
      rw [hself, hpid, hnum, h.counter, List.idxOf_append_of_notMem hnew, List.idxOf_cons_self]
      simp
    · rw [hother j hji] at hne ⊢
      rw [h.number j hj hne, List.idxOf_append_of_mem (h.mem hj hne)]
  · rw [List.length_append, List.length_singleton, h.counter]
    push_cast
    rfl

theorem Tracks.complete_step (h : Tracks t live) (now : Timeval) (stats : Rusage)
    (hpid : pid ≠ 0) (hfound : findProcess t.processes pid ≠ none) :
    ∃ lines t', completeJob t now stats pid = some (lines, t') ∧ Tracks t' (live.erase pid) := by
  obtain ⟨i, hi⟩ := Option.ne_none_iff_exists'.mp hfound
  obtain ⟨hlt, hpi, -⟩ := findProcess_eq_some.mp hi
  obtain ⟨lines, t', heq, hcounter, hfreed, hnum, hother⟩ := completeJob_spec now stats hi
  have hmem : pid ∈ live := hpi ▸ h.mem hlt (by rw [hpi]; exact hpid)
  -- what is in use afterwards was in use before, and is another job
  have hbefore : ∀ j, j < maxBgProcesses → (t'.processes.get j).pid ≠ 0 → j ≠ i ∧
      (t'.processes.get j).pid = (t.processes.get j).pid ∧ (t.processes.get j).pid ≠ pid := by
    intro j hj hne
    have hji : j ≠ i := by
      rintro rfl
      exact hne hfreed
    refine ⟨hji, hother j hj hji, ?_⟩
    intro hpj
    exact hji (h.unique j i hj hlt (by rw [hpj]; exact hpid) (hpj.trans hpi.symm))
  refine ⟨lines, t', heq, h.nodup.erase pid, ?_, ?_, ?_, ?_⟩
  · intro p
    rw [h.nodup.mem_erase_iff, h.shown]
    constructor
    · rintro ⟨hne, hp, j, hj, rfl⟩
      have hji : j ≠ i := by
        rintro rfl
        exact hne hpi
      exact ⟨hp, j, hj, hother j hj hji⟩
    · rintro ⟨hp, j, hj, rfl⟩
      obtain ⟨hji, hsame, hne⟩ := hbefore j hj hp
      rw [hsame] at hp ⊢
      exact ⟨hne, hp, j, hj, rfl⟩
  · intro j k hj hk hne hjk
    have hnek : (t'.processes.get k).pid ≠ 0 := hjk ▸ hne
    rw [(hbefore j hj hne).2.1] at hne
    rw [(hbefore j hj (by rw [hjk]; exact hnek)).2.1, (hbefore k hk hnek).2.1] at hjk
    exact h.unique j k hj hk hne hjk
  · -- the job behind it in the list, and only it, moves down
    intro j hj hne
    obtain ⟨hji, hsame, hnep⟩ := hbefore j hj hne
    rw [hsame] at hne ⊢
    rw [hnum j hj, h.number j hj hne, h.number i hlt (by rw [hpi]; exact hpid), hpi,
      idxOf_erase hnep, renumber]
    split <;> split <;> omega
  · rw [hcounter, h.counter, List.length_erase_of_mem hmem]
    have := List.length_pos_of_mem hmem
    omega

theorem Tracks.exec_step {c : Command} (h : Tracks t live) (hfits : Fits c t) :
    ∃ lines t', exec c t = some (lines, t') ∧ Tracks t' (c.after live) := by
  cases c with
  | start now pid =>
    obtain ⟨hpos, hfresh, hroom⟩ := hfits
    obtain ⟨t', heq, h'⟩ := h.start_step now hpos hfresh hroom
    exact ⟨[], t', by rw [exec, heq]; rfl, h'⟩
  | complete now stats pid => exact h.complete_step now stats hfits.1 hfits.2

/-- A run of fitting commands comes back, and the table shows the jobs. -/
theorem Guarded.tracks {cs : List Command} (hfits : Guarded exec Fits cs init) :
    ∃ tr t, run exec cs init = some (tr, t) ∧ Tracks t (liveJobs cs) := by
  obtain ⟨tr, t, hrun, h⟩ := guarded_total (P := fun tr t => Tracks t (liveJobs (tr.map Prod.fst)))
    init_tracks (by
      intro tr t c h hc
      obtain ⟨lines, t', heq, h'⟩ := h.exec_step hc
      refine ⟨lines, t', heq, ?_⟩
      rw [List.map_append, List.map_singleton, liveJobs_snoc]
      exact h') cs hfits
  rw [run_commands hrun] at h
  exact ⟨tr, t, hrun, h⟩

/-- The numbers of the entries in use are `1..jobCounter-1`, each once. -/
theorem Tracks.numbers (h : Tracks t live) (n : Int) :
    (∃ i, i < maxBgProcesses ∧ (t.processes.get i).pid ≠ 0 ∧ (t.processes.get i).jobnum = n) ↔
      1 ≤ n ∧ n ≤ t.jobCounter - 1 := by
  rw [h.counter]
  constructor
  · rintro ⟨i, hi, hne, rfl⟩
    have hlt := List.idxOf_lt_length_of_mem (h.mem hi hne)
    rw [h.number i hi hne]
    omega
  · rintro ⟨hlow, hhigh⟩
    have hlt : (n - 1).toNat < live.length := by omega
    obtain ⟨hne, i, hi, hpi⟩ := (h.shown _).mp (List.getElem_mem hlt)
    refine ⟨i, hi, by rw [hpi]; exact hne, ?_⟩
    rw [h.number i hi (by rw [hpi]; exact hne), hpi, h.nodup.idxOf_getElem]
    omega

theorem Tracks.number_inj (h : Tracks t live) {i j : Nat} (hi : i < maxBgProcesses)
    (hj : j < maxBgProcesses) (hne : (t.processes.get i).pid ≠ 0)
    (hne' : (t.processes.get j).pid ≠ 0)
    (heq : (t.processes.get i).jobnum = (t.processes.get j).jobnum) : i = j := by
  rw [h.number i hi hne, h.number j hj hne'] at heq
  have hpos : live.idxOf (t.processes.get i).pid = live.idxOf (t.processes.get j).pid := by omega
  exact h.unique i j hi hj hne ((List.idxOf_inj (h.mem hi hne)).mp hpos)

/-- After any starts and completions: the numbers of the entries in use are distinct and
are `1..jobCounter-1`, there are as many as jobs, and an earlier start has the smaller
number. -/
theorem jobs_numbered_in_order (cs : List Command) (hfits : Guarded exec Fits cs init) :
    ∃ tr t, run exec cs init = some (tr, t) ∧
      (∀ i j, i < maxBgProcesses → j < maxBgProcesses → (t.processes.get i).pid ≠ 0 →
        (t.processes.get j).pid ≠ 0 →
        (t.processes.get i).jobnum = (t.processes.get j).jobnum → i = j) ∧
      (∀ n, (∃ i, i < maxBgProcesses ∧ (t.processes.get i).pid ≠ 0 ∧
        (t.processes.get i).jobnum = n) ↔ 1 ≤ n ∧ n ≤ t.jobCounter - 1) ∧
      t.jobCounter - 1 = t.processes.used Cprocess.inUse ∧
      t.jobCounter - 1 = (liveJobs cs).length ∧
      (∀ p, p ∈ liveJobs cs ↔ p ≠ 0 ∧ ∃ i, i < maxBgProcesses ∧ (t.processes.get i).pid = p) ∧
      (∀ i j, i < maxBgProcesses → j < maxBgProcesses → (t.processes.get i).pid ≠ 0 →
        (t.processes.get j).pid ≠ 0 →
        (liveJobs cs).idxOf (t.processes.get i).pid < (liveJobs cs).idxOf (t.processes.get j).pid →
        (t.processes.get i).jobnum < (t.processes.get j).jobnum) := by
  obtain ⟨tr, t, hrun, h⟩ := Guarded.tracks hfits
  have hcounter : t.jobCounter - 1 = (liveJobs cs).length := by
    rw [h.counter]
    omega
  refine ⟨tr, t, hrun, fun i j hi hj hne hne' => h.number_inj hi hj hne hne', h.numbers, ?_,
    hcounter, h.shown, ?_⟩
  · rw [hcounter, h.count]
  · intro i j hi hj hne hne' hlt
    rw [h.number i hi hne, h.number j hj hne']
    omega

end Steps

instance (c : Command) (t : Table) : Decidable (Fits c t) :=
  match c with
  | .start _ pid => inferInstanceAs (Decidable (0 < pid ∧ findProcess t.processes pid = none ∧
      t.processes.used Cprocess.inUse < maxBgProcesses))
  | .complete _ _ pid =>
    inferInstanceAs (Decidable (pid ≠ 0 ∧ findProcess t.processes pid ≠ none))

/-- Two processes are started, and the first one completes. -/
def firstCompletes : List Command :=
  [.start default 101, .start default 102, .complete default default 101]

theorem jobs_numbered_in_order_first_completes : ∃ tr t,
    run exec firstCompletes init = some (tr, t) ∧ t.jobCounter = 2 ∧
      (∀ n, (∃ i, i < maxBgProcesses ∧ (t.processes.get i).pid ≠ 0 ∧
        (t.processes.get i).jobnum = n) ↔ 1 ≤ n ∧ n ≤ 1) ∧
      ∃ i, i < maxBgProcesses ∧ (t.processes.get i).pid = 102 := by
  have hfits : Guarded exec Fits firstCompletes init := Guarded.of_eval (by decide +kernel)
  obtain ⟨tr, t, hrun, -, hnumbers, -, hcounter, hshown, -⟩ :=
    jobs_numbered_in_order firstCompletes hfits
  have hone : (liveJobs firstCompletes).length = 1 := rfl
  have htwo : t.jobCounter = 2 := by
    rw [hone] at hcounter
    omega
  refine ⟨tr, t, hrun, htwo, ?_, ((hshown 102).mp (by decide)).2⟩
  intro n
  rw [hnumbers, htwo]
  omega

end OsProjects.Mc2
