import OsProjects.Interceptor.Loading

/-!
# The system call table while the module comes and goes

`Sound` says what the table and the saved functions are at every point of
`interceptor_start` and `interceptor_end`: an entry is the module's only while the module
is there, and whoever calls a saved function finds it saved. So no task ever calls `NULL`,
and no write to the table is refused. What is left to crash (`Crashed`) is a task in the text
of a module that is gone (`Stale`), a function of the module outside of the memory it may use
(`Oversteps`), and the search for the table. `Moves` and `ModuleMoves` say once what a step
can do.
-/

namespace OsProjects.Interceptor

open OsProjects.Lib

variable {w : Width} {K T P : Type}

/-- Protection is off between the two switches, and on after them. -/
def Protects (s : State w K T) (rest : List Op) : Prop :=
  .disable ∉ rest → s.cr0.getLsbD 16 = decide (.enable ∉ rest)

/-- The entries that are still to be written are `before`, the others `after`. -/
def Entries (write : Call → Op) (before after : Fn) (s : State w K T) (rest : List Op) : Prop :=
  ∀ c, s.table c = some (if write c ∈ rest then before else after)

/-- In `interceptor_start` before `rest`; the module is there when nothing is left. -/
structure Starting (s : State w K T) (rest : List Op) : Prop where
  suffix : rest <:+ interceptorStart
  table : Entries .patch .sys .new s rest
  ref : ∀ c, .save c ∉ rest → s.ref c = some .sys
  found : .find ∉ rest → s.sysCallTable = true
  /-- nothing is saved, so nobody can be in one of the functions -/
  fresh : .find ∈ rest → ∀ c, s.ref c = none
  protects : Protects s rest

/-- In `interceptor_end` before `rest`. -/
structure Ending (s : State w K T) (rest : List Op) : Prop where
  suffix : rest <:+ interceptorEnd
  table : Entries .restore .new .sys s rest
  ref : ∀ c, s.ref c = some .sys
  found : s.sysCallTable = true
  protects : Protects s rest

/-- What the module has done to the table. -/
def Hooked (s : State w K T) : Prop :=
  match s.phase with
  | .absent => ∀ c, s.table c = some .sys
  | .starting rest => Starting s rest
  | .live => Starting s []
  | .ending rest => Ending s rest

/-- A task whose next step in the module's text would be in memory that was freed. -/
def Stale (s : State w K T) (t : T) : Prop :=
  ∃ load, (s.pc t).inside = some load ∧ s.runs load = false

/-- A task whose next step, in a function of the module that is there, leaves the memory that
the function may use: the scan of `new_sys_read` the caller's buffer, `new_sys_open` with a name
that is not there any more, or `new_sys_cs3013_syscall2` through the parent of a process that
has none. -/
inductive Oversteps (kern : Kernel K P) (uid : T → Nat) (s : State w K T) (t : T) : Prop
  | scan (load filedescriptor : Nat) (before : List Byte) (count : Int) (reply : Reply) :
      s.pc t = .back load (.sysRead filedescriptor before count) reply → s.runs load = true →
      newSysRead (uid t) filedescriptor before count reply.refRead = none → Oversteps kern uid s t
  | name (load : Nat) (flags mode : Int) (reply : Reply) :
      s.pc t = .back load (.sysOpen none flags mode) reply → s.runs load = true →
      reply.value ≥ 0 → uid t ≥ 1000 → Oversteps kern uid s t
  | ancestry (load : Nat) (pid : Option Int) (response : Option Ancestry) (writable : Bool) :
      s.pc t = .new load (.syscall2 pid response writable) → s.runs load = true →
      newSysCs3013Syscall2 (kern.tasks s.kernel) pid response writable = none →
      Oversteps kern uid s t

/-- How a state with this crash has come about. -/
inductive Crashed (kern : Kernel K P) (uid : T → Nat) (s : State w K T) : Crash T → Prop
  | freed (t : T) : Stale s t → Crashed kern uid s (.freedCode t)
  | accessed (t : T) : Oversteps kern uid s t → Crashed kern uid s (.badAccess t)
  | searched : s.phase = .starting interceptorStart → Crashed kern uid s .badScan

structure Sound (s : State w K T) : Prop where
  hooked : Hooked s
  /-- who is inside the module's text, while it is there, finds everything saved -/
  saved : ∀ t load, (s.pc t).inside = some load → s.runs load = true → ∀ c, s.ref c = some .sys
  past : ∀ t load, (s.pc t).inside = some load → load ≤ s.load

theorem boot_sound (cr0 : Word w) (k : K) : Sound (boot cr0 k : State w K T) where
  hooked _ := rfl
  saved _ _ := nofun
  past _ _ := nofun

/-! ## The module's operations -/

section Module

variable {s s' : State w K T} {op : Op} {rest : List Op} {write : Call → Op} {before after : Fn}
  {scanned : Scanned w}

theorem Protects.plain (h : Protects s (op :: rest)) (hdis : op ≠ .disable) (hen : op ≠ .enable)
    (hsame : s'.cr0 = s.cr0) : Protects s' rest := by
  intro hd
  rw [hsame, h (by simp [Ne.symm hdis, hd])]
  simp [Ne.symm hen]

theorem Protects.off (hen : .enable ∈ rest) (hsame : s'.cr0 = disablePageProtection s.cr0) :
    Protects s' rest := by
  intro _
  rw [hsame, disable_bit]
  simp [hen]

theorem Protects.on (hen : .enable ∉ rest) (hsame : s'.cr0 = enablePageProtection s.cr0) :
    Protects s' rest := by
  intro _
  rw [hsame, enable_bit]
  simp [hen]

theorem Entries.plain (h : Entries write before after s (op :: rest)) (hne : ∀ c, write c ≠ op)
    (hsame : s'.table = s.table) : Entries write before after s' rest := by
  intro c
  rw [hsame, h c]
  simp [hne c]

/-- A write between the two switches is not refused, and no entry is written twice. -/
theorem Entries.written {c : Call} {f : Option Fn} (h : Entries write before after s (op :: rest))
    (hop : op = write c) (hinj : Function.Injective write) (hf : f = some after)
    (hprot : Protects s (op :: rest)) (hdis : .disable ∉ op :: rest) (hen : .enable ∈ op :: rest)
    (honce : write c ∉ rest) :
    s.writeTable c f = { s with table := Function.update s.table c f } ∧
      Entries write before after (s.writeTable c f) rest := by
  have hopen : s.cr0.getLsbD 16 = false := by
    rw [hprot hdis, decide_eq_false_iff_not, not_not]
    exact hen
  have heq : s.writeTable c f = { s with table := Function.update s.table c f } := by
    rw [State.writeTable, hopen, if_neg (by decide)]
  refine ⟨heq, ?_⟩
  intro c'
  rw [heq]
  show Function.update s.table c f c' = _
  by_cases hcc : c' = c
  · subst hcc
    rw [Function.update_self, if_neg honce, hf]
  · rw [Function.update_of_ne hcc, h c', hop]
    simp [hinj.eq_iff, hcc]

/-- An operation that neither saves nor writes an entry. -/
theorem Starting.plain (h : Starting s (op :: rest)) (hsave : ∀ c, .save c ≠ op)
    (hpatch : ∀ c, .patch c ≠ op) (htable : s'.table = s.table) (href : s'.ref = s.ref)
    (hfound : s'.sysCallTable = true) (hprot : Protects s' rest) : Starting s' rest where
  suffix := (List.suffix_cons op rest).trans h.suffix
  table := h.table.plain hpatch htable
  ref c hc := by
    rw [href]
    exact h.ref c (by simp [hsave c, hc])
  found _ := hfound
  fresh hf := absurd hf (find_first h.suffix)
  protects := hprot

theorem Starting.exec (h : Starting s (op :: rest)) (hback : op.stays scanned = false)
    (hgo : op.returns (op.exec scanned s).2 = false) :
    Starting (op.exec scanned s).2 rest ∧ (op.exec scanned s).2.crashed = s.crashed := by
  have hsuffix : rest <:+ interceptorStart := (List.suffix_cons op rest).trans h.suffix
  have horder := startOrder_of_suffix h.suffix
  have hfresh : ∀ s' : State w K T, .find ∈ rest → ∀ c, s'.ref c = none :=
    fun _ hf => absurd hf (find_first h.suffix)
  have hfound : op ≠ .find → s.sysCallTable = true :=
    fun hop => h.found (by simp [Ne.symm hop, find_first h.suffix])
  cases op with
  | find =>
    have hfound : (Op.find.exec scanned s).2.sysCallTable = true := by
      simpa only [Op.returns, Bool.not_eq_false'] using hgo
    cases scanned with
    | fault | running => cases hback
    | found | null =>
      exact ⟨h.plain (by simp) (by simp) rfl rfl hfound
        (h.protects.plain (by simp) (by simp) rfl), rfl⟩
  | save c =>
    have hpatch : .patch c ∈ rest := of_decide_eq_true horder
    refine ⟨⟨hsuffix, h.table.plain (by simp) rfl, ?_, fun _ => hfound (by simp), hfresh _,
      h.protects.plain (by simp) (by simp) rfl⟩, rfl⟩
    intro c' hc'
    show Function.update s.ref c (s.table c) c' = some .sys
    by_cases hcc : c' = c
    · subst hcc
      rw [Function.update_self, h.table c', if_pos (List.mem_cons_of_mem _ hpatch)]
    · rw [Function.update_of_ne hcc]
      exact h.ref c' (by simp [hcc, hc'])
  | disable =>
    exact ⟨h.plain (by simp) (by simp) rfl rfl (hfound (by simp))
      (.off (of_decide_eq_true horder).1 rfl), rfl⟩
  | patch c =>
    obtain ⟨hdis, hen, honce, hsaved⟩ := of_decide_eq_true horder
    obtain ⟨heq, htable⟩ := h.table.written (f := some .new) rfl (fun _ _ => Op.patch.inj) rfl
      h.protects (by simpa using hdis) (by simpa using hen) honce
    have hexec : ((Op.patch c).exec scanned s).2 = s.writeTable c (some .new) := rfl
    rw [hexec]
    refine ⟨⟨hsuffix, htable, ?_, ?_, hfresh _, ?_⟩, by rw [heq]⟩ <;> rw [heq]
    · exact fun c' hc' => h.ref c' (by simp [hc'])
    · exact fun _ => hfound (by simp)
    · exact h.protects.plain (by simp) (by simp) rfl
  | enable =>
    exact ⟨h.plain (by simp) (by simp) rfl rfl (hfound (by simp))
      (.on (of_decide_eq_true horder) rfl), rfl⟩
  | check | restore => cases horder
  | print line =>
    exact ⟨h.plain (by simp) (by simp) rfl rfl (hfound (by simp))
      (h.protects.plain (by simp) (by simp) rfl), rfl⟩

theorem Ending.exec (h : Ending s (op :: rest)) (scanned : Scanned w) :
    Ending (op.exec scanned s).2 rest ∧ (op.exec scanned s).2.crashed = s.crashed := by
  have hsuffix : rest <:+ interceptorEnd := (List.suffix_cons op rest).trans h.suffix
  have horder := endOrder_of_suffix h.suffix
  cases op with
  | find | save | patch => cases horder
  | check | print =>
    exact ⟨⟨hsuffix, h.table.plain (by simp) rfl, h.ref, h.found,
      h.protects.plain (by simp) (by simp) rfl⟩, rfl⟩
  | disable =>
    exact ⟨⟨hsuffix, h.table.plain (by simp) rfl, h.ref, h.found,
      .off (of_decide_eq_true horder) rfl⟩, rfl⟩
  | restore c =>
    obtain ⟨hdis, hen, honce⟩ := of_decide_eq_true horder
    obtain ⟨heq, htable⟩ := h.table.written (f := s.ref c) rfl (fun _ _ => Op.restore.inj) (h.ref c)
      h.protects (by simpa using hdis) (by simpa using hen) honce
    have hexec : ((Op.restore c).exec scanned s).2 = s.writeTable c (s.ref c) := rfl
    rw [hexec]
    refine ⟨⟨hsuffix, htable, ?_, ?_, ?_⟩, by rw [heq]⟩ <;> rw [heq]
    · exact h.ref
    · exact h.found
    · exact h.protects.plain (by simp) (by simp) rfl
  | enable =>
    exact ⟨⟨hsuffix, h.table.plain (by simp) rfl, h.ref, h.found,
      .on (of_decide_eq_true horder) rfl⟩, rfl⟩

/-- What every operation leaves alone. -/
theorem Op.exec_frame (op : Op) (scanned : Scanned w) (s : State w K T) :
    (op.exec scanned s).2.pc = s.pc ∧
    (op.exec scanned s).2.kernel = s.kernel ∧ (op.exec scanned s).2.load = s.load := by
  have hwrite : ∀ c f, (s.writeTable c f).pc = s.pc ∧ (s.writeTable c f).kernel = s.kernel ∧
      (s.writeTable c f).load = s.load := by
    intro c f
    unfold State.writeTable
    split <;> exact ⟨rfl, rfl, rfl⟩
  cases op with
  | find => cases scanned <;> exact ⟨rfl, rfl, rfl⟩
  | patch c | restore c => exact hwrite c _
  | _ => exact ⟨rfl, rfl, rfl⟩

/-- Saving once more would save the same. -/
theorem Starting.keeps_ref (h : Starting s (op :: rest)) (href : ∀ c, s.ref c = some .sys)
    (c : Call) : (op.exec scanned s).2.ref c = some .sys := by
  have horder := startOrder_of_suffix h.suffix
  cases op with
  | find => cases scanned <;> exact href c
  | save c' =>
    have hpatch : .patch c' ∈ rest := of_decide_eq_true horder
    show Function.update s.ref c' (s.table c') c = some .sys
    by_cases hcc : c = c'
    · subst hcc
      rw [Function.update_self, h.table c, if_pos (List.mem_cons_of_mem _ hpatch)]
    · rw [Function.update_of_ne hcc]
      exact href c
  | patch c' =>
    obtain ⟨hdis, hen, honce, -⟩ := of_decide_eq_true horder
    have hexec : ((Op.patch c').exec scanned s).2 = s.writeTable c' (some .new) := rfl
    rw [hexec, (h.table.written (f := some .new) rfl (fun _ _ => Op.patch.inj) rfl h.protects
      (by simpa using hdis) (by simpa using hen) honce).1]
    exact href c
  | check | restore => cases horder
  | _ => exact href c

/-- An entry is one of two functions; and where it is the module's, the module is there and
has saved everything. -/
theorem Hooked.entry (h : Hooked s) (c : Call) : s.table c = some .sys ∨
    s.table c = some .new ∧ s.phase.present = true ∧ ∀ c', s.ref c' = some .sys := by
  unfold Hooked at h
  cases hphase : s.phase with
  | absent =>
    rw [hphase] at h
    exact .inl (h c)
  | starting rest =>
    rw [hphase] at h
    by_cases hc : .patch c ∈ rest
    · exact .inl ((h.table c).trans (by rw [if_pos hc]))
    · exact .inr ⟨(h.table c).trans (by rw [if_neg hc]), rfl,
        fun c' => h.ref c' (saved_of_patched h.suffix hc c')⟩
  | live =>
    rw [hphase] at h
    exact .inr ⟨h.table c, rfl, fun c' => h.ref c' (by simp)⟩
  | ending rest =>
    rw [hphase] at h
    by_cases hc : .restore c ∈ rest
    · exact .inr ⟨(h.table c).trans (by rw [if_pos hc]), rfl, h.ref⟩
    · exact .inl ((h.table c).trans (by rw [if_neg hc]))

end Module

/-! ## Steps of a task -/

section Tasks

variable [DecidableEq T] {kern : Kernel K P} {uid : T → Nat} {t : T} {request : Request}
  {s s' : State w K T} {a : Answer T}

/-- What a task can do. -/
inductive Moves (kern : Kernel K P) (uid : T → Nat) (t : T) (request : Request)
    (s : State w K T) : Answer T → State w K T → Prop
  | calls : s.pc t = .user → s.table request.call = some .sys →
      Moves kern uid t request s ⟨[], none⟩ (s.goto t (.sys request none))
  | hooked : s.pc t = .user → s.table request.call = some .new →
      Moves kern uid t request s ⟨[], none⟩ (s.goto t (.new s.load request))
  | runs (r : Request) (caller : Option Nat) : s.pc t = .sys r caller →
      Moves kern uid t request s ⟨[], none⟩ ({ s with kernel := (kern.sys r s.kernel).2 }.goto t
        (match caller with
          | none => .returning r (kern.sys r s.kernel).1.value
          | some load => .back load r (kern.sys r s.kernel).1))
  | returns (r : Request) (code : Int) : s.pc t = .returning r code →
      Moves kern uid t request s ⟨[], some (t, r, code)⟩ (s.goto t .user)
  | answers (load : Nat) (r : Request) (lines : List Line) (code : Int) : s.pc t = .new load r →
      r.call.replaced = true →
      Moves kern uid t request s ⟨lines, some (t, r, code)⟩ (s.goto t .user)
  | passes (load : Nat) (r : Request) (lines : List Line) : s.pc t = .new load r →
      r.call.replaced = false →
      Moves kern uid t request s ⟨lines, none⟩ (s.goto t (.sys r (some load)))
  | leaves (load : Nat) (r : Request) (reply : Reply) (lines : List Line) :
      s.pc t = .back load r reply →
      Moves kern uid t request s ⟨lines, some (t, r, reply.value)⟩ (s.goto t .user)
  | dies (why : Crash T) : Crashed kern uid s why →
      Moves kern uid t request s ⟨[], none⟩ (s.crash why)

theorem newSysRead_code {uid filedescriptor : Nat} {before : List Byte} {count code : Int}
    {read : RefRead} {alerts : List Alert}
    (h : newSysRead uid filedescriptor before count read = some (alerts, code)) :
    code = read.code := by
  unfold newSysRead at h
  dsimp only at h
  split at h
  · obtain ⟨found, -, heq⟩ := Option.map_eq_some_iff.mp h
    exact (Prod.mk.inj heq).2.symm
  · exact (Prod.mk.inj (Option.some.inj h)).2.symm

theorem enterNew_moves {load : Nat} {r : Request} (hpc : s.pc t = .new load r)
    (hruns : s.runs load = true) (href : ∀ c, s.ref c = some .sys) :
    Moves kern uid t request s (enterNew kern uid t load r s).1
      (enterNew kern uid t load r s).2 := by
  cases r with
  | syscall1 => exact .answers load _ _ _ hpc rfl
  | syscall2 pid response writable =>
    unfold enterNew
    dsimp only
    split
    · next hnone => exact .dies _ (.accessed t (.ancestry load _ _ _ hpc hruns hnone))
    · exact .answers load _ _ _ hpc rfl
  | sysOpen | sysClose | sysRead =>
    simp only [enterNew, href, State.jump, Request.call]
    exact .passes load _ _ hpc rfl

theorem leaveNew_moves {load : Nat} {r : Request} {reply : Reply}
    (hpc : s.pc t = .back load r reply) (hruns : s.runs load = true) :
    Moves kern uid t request s (leaveNew uid t r reply s).1 (leaveNew uid t r reply s).2 := by
  cases r with
  | sysRead filedescriptor before count =>
    unfold leaveNew
    dsimp only
    split
    · next hnone => exact .dies _ (.accessed t (.scan load _ _ _ _ hpc hruns hnone))
    · next alerts code hread =>
      have hcode : code = reply.value := by
        rw [newSysRead_code hread]
        cases reply <;> rfl
      rw [hcode]
      exact .leaves load _ _ _ hpc
  | sysOpen filename flags mode =>
    unfold leaveNew
    dsimp only
    split
    · next hlogs =>
      cases filename with
      | none => exact .dies _ (.accessed t (.name load _ _ _ hpc hruns hlogs.1 hlogs.2))
      | some name => exact .leaves load _ _ _ hpc
    · exact .leaves load _ _ _ hpc
  | _ => exact .leaves load _ _ _ hpc

theorem Sound.taskStep_moves (hs : Sound s) :
    Moves kern uid t request s (taskStep kern uid t request s).1
      (taskStep kern uid t request s).2 := by
  -- in the text of a module that is gone
  have hdies : ∀ load, (s.pc t).inside = some load → ¬ s.runs load = true →
      Moves kern uid t request s ⟨[], none⟩ (s.crash (.freedCode t)) := fun load hin hruns =>
    .dies _ (.freed t ⟨load, hin, Bool.eq_false_iff.mpr hruns⟩)
  unfold taskStep
  cases hpc : s.pc t with
  | user =>
    rcases hs.hooked.entry request.call with htab | ⟨htab, -⟩
    · simp only [htab, State.jump]
      exact .calls hpc htab
    · simp only [htab, State.jump]
      exact .hooked hpc htab
  | sys r caller => exact .runs r caller hpc
  | returning r code => exact .returns r code hpc
  | new load r =>
    have hin : (s.pc t).inside = some load := by rw [hpc]; rfl
    dsimp only
    split
    · next hruns => exact enterNew_moves hpc hruns (hs.saved t load hin hruns)
    · next hruns => exact hdies load hin hruns
  | back load r reply =>
    dsimp only
    split
    · next hruns => exact leaveNew_moves hpc hruns
    · next hruns => exact hdies load (by rw [hpc]; rfl) hruns

end Tasks

/-! ## Every step keeps it sound -/

section Steps

variable {s s' : State w K T} {lines : List Line} {scanned : Scanned w}

/-- The module's step, when it may go: what it does, or that it is over. -/
inductive ModuleMoves (scanned : Scanned w) (s : State w K T) : List Line → State w K T → Prop
  | starts (op : Op) (rest : List Op) : s.phase = .starting (op :: rest) →
      op.stays scanned = false → op.returns (op.exec scanned s).2 = false →
      ModuleMoves scanned s (op.exec scanned s).1
        { (op.exec scanned s).2 with phase := if rest.isEmpty then .live else .starting rest }
  | fails (lines : List Line) (found : Bool) : s.phase = .starting interceptorStart →
      ModuleMoves scanned s lines { s with sysCallTable := found, phase := .absent }
  | waits : ModuleMoves scanned s [] s
  | crashes : s.phase = .starting interceptorStart →
      ModuleMoves scanned s [] (s.crash .badScan)
  | ends (op : Op) (rest : List Op) : s.phase = .ending (op :: rest) → rest ≠ [] →
      ModuleMoves scanned s (op.exec scanned s).1
        { (op.exec scanned s).2 with phase := .ending rest }
  | frees (op : Op) : s.phase = .ending [op] →
      ModuleMoves scanned s (op.exec scanned s).1 { (op.exec scanned s).2 with phase := .absent }

/-- `interceptor_end` never gets stuck and never returns early. -/
theorem Ending.goes {op : Op} {rest : List Op} (h : Ending s (op :: rest)) (scanned : Scanned w) :
    ¬ op.stays scanned = true ∧ ¬ op.returns (op.exec scanned s).2 = true := by
  have horder := endOrder_of_suffix h.suffix
  cases op with
  | find => cases horder
  | check =>
    have hgo : Op.check.returns s = false := by rw [Op.returns, h.found]; rfl
    exact ⟨Bool.false_ne_true, Bool.eq_false_iff.mp hgo⟩
  | _ => exact ⟨Bool.false_ne_true, Bool.false_ne_true⟩

theorem moduleStep_starting {op : Op} {rest : List Op} (hphase : s.phase = .starting (op :: rest)) :
    moduleStep scanned s = some ((op.exec scanned s).1,
      if op.stays scanned then (op.exec scanned s).2
      else if op.returns (op.exec scanned s).2 then { (op.exec scanned s).2 with phase := .absent }
      else { (op.exec scanned s).2 with
        phase := if rest.isEmpty then .live else .starting rest }) := by
  unfold moduleStep
  rw [hphase]

theorem moduleStep_ending {op : Op} {rest : List Op} (hphase : s.phase = .ending (op :: rest))
    (h : Ending s (op :: rest)) : moduleStep scanned s = some ((op.exec scanned s).1,
      { (op.exec scanned s).2 with
        phase := if rest.isEmpty then .absent else .ending rest }) := by
  obtain ⟨hback, hgo⟩ := h.goes scanned
  unfold moduleStep
  rw [hphase]
  dsimp only
  rw [if_neg hback, if_neg hgo]

theorem Sound.moduleStep_moves (hs : Sound s) (h : moduleStep scanned s = some (lines, s')) :
    ModuleMoves scanned s lines s' := by
  have hhook := hs.hooked
  unfold Hooked at hhook
  cases hphase : s.phase with
  | absent | live =>
    rw [moduleStep, hphase] at h
    cases h
  | starting code =>
    rw [hphase] at hhook
    cases code with
    | nil =>
      rw [moduleStep, hphase] at h
      cases h
    | cons op rest =>
      have horder := startOrder_of_suffix hhook.suffix
      rw [moduleStep_starting hphase] at h
      obtain ⟨rfl, rfl⟩ := Prod.mk.inj (Option.some.inj h)
      cases op with
      | find =>
        have hstart : s.phase = .starting interceptorStart := by
          rw [hphase, start_of_find hhook.suffix]
        cases scanned with
        | fault => exact .crashes hstart
        | running => exact .waits
        | found | null =>
          rw [if_neg (Bool.eq_false_iff.mp (by rfl))]
          split
          · exact .fails _ _ hstart
          · next hgo => exact .starts .find rest hphase rfl (Bool.eq_false_iff.mpr hgo)
      | check => cases horder
      | _ => exact .starts _ rest hphase rfl rfl
  | ending code =>
    rw [hphase] at hhook
    cases code with
    | nil =>
      rw [moduleStep, hphase] at h
      cases h
    | cons op rest =>
      rw [moduleStep_ending hphase hhook] at h
      obtain ⟨rfl, rfl⟩ := Prod.mk.inj (Option.some.inj h)
      cases rest with
      | nil => exact .frees op hphase
      | cons op' rest => exact .ends op (op' :: rest) hphase (by simp)

/-- What only tasks change. -/
theorem ModuleMoves.frame (h : ModuleMoves scanned s lines s') :
    s'.pc = s.pc ∧ s'.kernel = s.kernel ∧ s'.load = s.load := by
  cases h with
  | fails | waits | crashes => exact ⟨rfl, rfl, rfl⟩
  | starts op | ends op | frees op => exact op.exec_frame scanned s

theorem Hooked.congr (h : Hooked s) (hphase : s'.phase = s.phase) (htable : s'.table = s.table)
    (href : s'.ref = s.ref) (hfound : s'.sysCallTable = s.sysCallTable) (hcr : s'.cr0 = s.cr0) :
    Hooked s' := by
  unfold Hooked at h ⊢
  rw [hphase]
  have hprot : ∀ rest, Protects s rest → Protects s' rest := fun rest hp => by
    unfold Protects at hp ⊢
    rwa [hcr]
  have hentries : ∀ {write before after rest}, Entries write before after s rest →
      Entries write before after s' rest := fun he c => by rw [htable]; exact he c
  cases hp : s.phase with
  | absent =>
    rw [hp] at h
    exact fun c => by rw [htable]; exact h c
  | starting rest =>
    rw [hp] at h
    exact ⟨h.suffix, hentries h.table, by rw [href]; exact h.ref, by rw [hfound]; exact h.found,
      by rw [href]; exact h.fresh, hprot _ h.protects⟩
  | live =>
    rw [hp] at h
    exact ⟨h.suffix, hentries h.table, by rw [href]; exact h.ref, by rw [hfound]; exact h.found,
      by rw [href]; exact h.fresh, hprot _ h.protects⟩
  | ending rest =>
    rw [hp] at h
    exact ⟨h.suffix, hentries h.table, by rw [href]; exact h.ref, by rw [hfound]; exact h.found,
      hprot _ h.protects⟩

theorem Sound.crash (hs : Sound s) (why : Crash T) : Sound (s.crash why) :=
  ⟨hs.hooked.congr rfl rfl rfl rfl rfl, hs.saved, hs.past⟩

theorem Sound.module_step (hs : Sound s) (h : ModuleMoves scanned s lines s') : Sound s' := by
  obtain ⟨hpc, -, hload⟩ := h.frame
  have hhook := hs.hooked
  unfold Hooked at hhook
  -- a task inside this life of the module was inside before
  have hwas : ∀ load, s'.runs load = true → s.phase.present = true → s.runs load = true := by
    intro load hruns hpres
    unfold State.runs at hruns ⊢
    rw [hload, Bool.and_eq_true] at hruns
    rw [hpres, Bool.and_true]
    exact hruns.1
  have hpast : ∀ t load, (s'.pc t).inside = some load → load ≤ s'.load := by
    rw [hpc, hload]
    exact hs.past
  have hsound : Hooked s' → ((∀ c, s.ref c = some .sys) → ∀ c, s'.ref c = some .sys) →
      s.phase.present = true → Sound s' := by
    intro hhook' href hpres
    refine ⟨hhook', ?_, hpast⟩
    intro t load hin hruns
    rw [hpc] at hin
    exact href (hs.saved t load hin (hwas load hruns hpres))
  cases h with
  | starts op rest hphase hback hgo =>
    rw [hphase] at hhook
    have hstart := (hhook.exec hback hgo).1
    refine hsound ?_ hhook.keeps_ref (by rw [hphase]; rfl)
    unfold Hooked
    cases rest with
    | nil | cons =>
      exact ⟨hstart.suffix, hstart.table, hstart.ref, hstart.found, hstart.fresh, hstart.protects⟩
  | fails lines found hphase =>
    rw [hphase] at hhook
    refine hsound ?_ (fun href => href) (by rw [hphase]; rfl)
    intro c
    have hpatch : .patch c ∈ interceptorStart := by cases c <;> decide
    exact (hhook.table c).trans (by rw [if_pos hpatch])
  | waits => exact hs
  | crashes => exact hs.crash _
  | ends op rest hphase hne =>
    rw [hphase] at hhook
    have hend := (hhook.exec scanned).1
    refine hsound ?_ (fun _ => hend.ref) (by rw [hphase]; rfl)
    exact ⟨hend.suffix, hend.table, hend.ref, hend.found, hend.protects⟩
  | frees op hphase =>
    rw [hphase] at hhook
    have hend := (hhook.exec scanned).1
    refine hsound ?_ (fun _ => hend.ref) (by rw [hphase]; rfl)
    exact fun c => hend.table c

/-- Of the module's operations, only the search can crash. -/
theorem ModuleMoves.crashed (hs : Sound s) (h : ModuleMoves scanned s lines s') :
    s'.crashed = s.crashed ∨
      s'.crashed = some .badScan ∧ s'.phase = .starting interceptorStart := by
  have hhook := hs.hooked
  unfold Hooked at hhook
  cases h with
  | starts op rest hphase hback hgo =>
    rw [hphase] at hhook
    exact .inl (hhook.exec hback hgo).2
  | fails | waits => exact .inl rfl
  | crashes hphase => exact .inr ⟨rfl, hphase⟩
  | ends op rest hphase =>
    rw [hphase] at hhook
    exact .inl (hhook.exec scanned).2
  | frees op hphase =>
    rw [hphase] at hhook
    exact .inl (hhook.exec scanned).2

variable [DecidableEq T] {kern : Kernel K P} {uid : T → Nat} {t : T} {request : Request}
  {a : Answer T}

theorem State.goto_inside {k : K} {pc : Pc} {u : T} {load : Nat}
    (hin : (({ s with kernel := k }.goto t pc : State w K T).pc u).inside = some load) :
    (s.pc u).inside = some load ∨ u = t ∧ pc.inside = some load := by
  simp only [State.goto] at hin
  by_cases hu : u = t
  · subst hu
    rw [Function.update_self] at hin
    exact .inr ⟨rfl, hin⟩
  · rw [Function.update_of_ne hu] at hin
    exact .inl hin

/-- A task that goes on to `pc`, not into the module unless through the table. -/
theorem Sound.goto (hs : Sound s) {k : K} {pc : Pc}
    (hpc : pc.inside = none ∨ pc.inside = (s.pc t).inside ∨
      pc.inside = some s.load ∧ ∀ c, s.ref c = some .sys) :
    Sound ({ s with kernel := k }.goto t pc) := by
  have hcases : ∀ u load,
      (({ s with kernel := k }.goto t pc : State w K T).pc u).inside = some load →
      (s.pc u).inside = some load ∨ load = s.load ∧ ∀ c, s.ref c = some .sys := by
    intro u load hin
    rcases State.goto_inside hin with hold | ⟨rfl, hnow⟩
    · exact .inl hold
    · rcases hpc with hno | hsame | ⟨hnew, href⟩
      · cases hno.symm.trans hnow
      · exact .inl (hsame.symm.trans hnow)
      · exact .inr ⟨(Option.some.inj (hnew.symm.trans hnow)).symm, href⟩
  refine ⟨hs.hooked.congr rfl rfl rfl rfl rfl, ?_, ?_⟩
  · intro u load hin hruns
    rcases hcases u load hin with hold | ⟨-, href⟩
    · exact hs.saved u load hold hruns
    · exact href
  · intro u load hin
    rcases hcases u load hin with hold | ⟨rfl, -⟩
    · exact hs.past u load hold
    · exact Nat.le_refl _

theorem Sound.task_step (hs : Sound s) (h : Moves kern uid t request s a s') : Sound s' := by
  cases h with
  | calls => exact hs.goto (.inl rfl)
  | hooked _ htab =>
    rcases hs.hooked.entry request.call with hsys | ⟨-, -, href⟩
    · cases htab.symm.trans hsys
    · exact hs.goto (.inr (.inr ⟨rfl, href⟩))
  | runs r caller hpc =>
    cases caller with
    | none => exact hs.goto (.inl rfl)
    | some load => exact hs.goto (.inr (.inl (by rw [hpc]; rfl)))
  | returns | answers | leaves => exact hs.goto (.inl rfl)
  | passes load r lines hpc => exact hs.goto (.inr (.inl (by rw [hpc]; rfl)))
  | dies => exact hs.crash _

omit [DecidableEq T] in
/-- Nothing but `crashed` tells the two states apart. -/
theorem Crashed.crash {why why' : Crash T} (h : Crashed kern uid s why) :
    Crashed kern uid (s.crash why') why := by
  cases h with
  | freed t hst => exact .freed t hst
  | accessed t hover =>
    refine .accessed t ?_
    cases hover with
    | scan load _ _ _ _ hpc hruns hnone => exact .scan load _ _ _ _ hpc hruns hnone
    | name load _ _ _ hpc hruns hcode huser => exact .name load _ _ _ hpc hruns hcode huser
    | ancestry load _ _ _ hpc hruns hnone => exact .ancestry load _ _ _ hpc hruns hnone
  | searched hphase => exact .searched hphase

theorem Moves.crashed (h : Moves kern uid t request s a s') (hup : s.crashed = none)
    {why : Crash T} (hwhy : s'.crashed = some why) : Crashed kern uid s' why := by
  cases h with
  | dies why' hcrash =>
    cases hwhy
    exact hcrash.crash
  | _ => cases hup.symm.trans hwhy

/-- A step, by who takes it. -/
theorem step_cases {l : Label w T} (h : step kern uid l s = some (a, s')) : s.crashed = none ∧
    ((l = .insmod ∧ s.phase = .absent ∧ a = ⟨[], none⟩ ∧ s' =
        { s with
          load := s.load + 1
          phase := .starting interceptorStart
          sysCallTable := false
          ref := fun _ => none }) ∨
      (l = .rmmod ∧ s.phase = .live ∧ a = ⟨[], none⟩ ∧
        s' = { s with phase := .ending interceptorEnd }) ∨
      (∃ scanned, l = .module scanned ∧ ∃ lines, a = ⟨lines, none⟩ ∧
        moduleStep scanned s = some (lines, s')) ∨
      ∃ t r, l = .task t r ∧ taskStep kern uid t r s = (a, s')) := by
  unfold step at h
  split at h
  · cases h
  · next hup =>
    refine ⟨by simpa using hup, ?_⟩
    split at h
    · next hphase =>
      cases h
      exact .inl ⟨rfl, hphase, rfl, rfl⟩
    · cases h
    · next hphase =>
      cases h
      exact .inr (.inl ⟨rfl, hphase, rfl, rfl⟩)
    · cases h
    · next scanned =>
      obtain ⟨⟨lines, s₁⟩, h₁, heq⟩ := Option.map_eq_some_iff.mp h
      cases heq
      exact .inr (.inr (.inl ⟨scanned, rfl, lines, rfl, h₁⟩))
    · next t r => exact .inr (.inr (.inr ⟨t, r, rfl, Option.some.inj h⟩))

/-- What a task does, from a sound state. -/
theorem Sound.moves (hs : Sound s) (h : taskStep kern uid t request s = (a, s')) :
    Moves kern uid t request s a s' := by
  have hmoves : Moves kern uid t request s (taskStep kern uid t request s).1
      (taskStep kern uid t request s).2 := hs.taskStep_moves
  rwa [h] at hmoves

theorem Sound.step {l : Label w T} (hs : Sound s) (h : step kern uid l s = some (a, s')) :
    Sound s' := by
  have hhook := hs.hooked
  unfold Hooked at hhook
  obtain ⟨-, ⟨-, hphase, -, rfl⟩ | ⟨-, hphase, -, rfl⟩ | ⟨scanned, -, lines, -, hm⟩ |
    ⟨t, r, -, ht⟩⟩ := step_cases h
  · rw [hphase] at hhook
    refine ⟨⟨List.suffix_rfl, ?_, ?_, ?_, fun _ _ => rfl, ?_⟩, ?_, ?_⟩
    · intro c
      have hc : .patch c ∈ interceptorStart := by cases c <;> decide
      rw [if_pos hc]
      exact hhook c
    · intro c hc
      exact absurd (show .save c ∈ interceptorStart by cases c <;> decide) hc
    · exact fun hf => absurd (by decide) hf
    · exact fun hd => absurd (by decide) hd
    · -- nobody is inside the life that has just begun
      intro t load hin hruns
      have hle := hs.past t load hin
      unfold State.runs at hruns
      rw [Bool.and_eq_true, decide_eq_true_eq] at hruns
      have hnew : s.load + 1 = load := hruns.1
      omega
    · intro t load hin
      exact Nat.le_succ_of_le (hs.past t load hin)
  · rw [hphase] at hhook
    refine ⟨⟨List.suffix_rfl, ?_, fun c => hhook.ref c (by simp), hhook.found (by simp), ?_⟩, ?_,
      hs.past⟩
    · intro c
      have hc : .restore c ∈ interceptorEnd := by cases c <;> decide
      rw [if_pos hc]
      exact hhook.table c
    · exact fun hd => absurd (by decide) hd
    · intro t load hin _ c
      exact hhook.ref c (by simp)
  · exact hs.module_step (hs.moduleStep_moves hm)
  · exact hs.task_step (hs.moves ht)

/-- A crash is of one of three kinds. -/
theorem Sound.crashed {l : Label w T} (hs : Sound s)
    (h : Interceptor.step kern uid l s = some (a, s')) {why : Crash T}
    (hwhy : s'.crashed = some why) : Crashed kern uid s' why := by
  obtain ⟨hup, ⟨-, -, -, rfl⟩ | ⟨-, -, -, rfl⟩ | ⟨scanned, -, lines, -, hm⟩ | ⟨t, r, -, ht⟩⟩ :=
    step_cases h
  · cases hup.symm.trans hwhy
  · cases hup.symm.trans hwhy
  · rcases (hs.moduleStep_moves hm).crashed hs with hsame | ⟨hscan, hphase⟩
    · cases hup.symm.trans (hsame.symm.trans hwhy)
    · cases hscan.symm.trans hwhy
      exact .searched hphase
  · exact (hs.moves ht).crashed hup hwhy

/-! ## The register -/

/-- The module is not there, or has not come to its first switch. -/
def Phase.untouched : Phase → Bool
  | .absent => true
  | .starting rest => decide (.disable ∈ rest)
  | _ => false

/-- Only bit 16 is ever switched, and wherever the module has done nothing it is on. -/
structure Register (cr0 : Word w) (s : State w K T) : Prop where
  others : ∀ i, i ≠ 16 → s.cr0.getLsbD i = cr0.getLsbD i
  on : s.phase.untouched = true → s.cr0.getLsbD 16 = true

omit [DecidableEq T] in
theorem State.writeTable_cr0 (c : Call) (f : Option Fn) : (s.writeTable c f).cr0 = s.cr0 := by
  unfold State.writeTable
  split <;> rfl

omit [DecidableEq T] in
theorem Op.exec_others (op : Op) {i : Nat} (hi : i ≠ 16) :
    (op.exec scanned s).2.cr0.getLsbD i = s.cr0.getLsbD i := by
  cases op with
  | find => cases scanned <;> rfl
  | disable => exact (disable_bit s.cr0 i).trans (by simp [hi])
  | enable => exact (enable_bit s.cr0 i).trans (by simp [hi])
  | patch c => exact congrArg (BitVec.getLsbD · i) (s.writeTable_cr0 c (some .new))
  | restore c => exact congrArg (BitVec.getLsbD · i) (s.writeTable_cr0 c (s.ref c))
  | _ => rfl

omit [DecidableEq T] in
theorem Op.exec_on {op : Op} (hop : op ≠ .disable) (hon : s.cr0.getLsbD 16 = true) :
    (op.exec scanned s).2.cr0.getLsbD 16 = true := by
  cases op with
  | find => cases scanned <;> exact hon
  | disable => exact absurd rfl hop
  | enable => exact (enable_bit s.cr0 16).trans (by simp)
  | patch c => exact (congrArg (BitVec.getLsbD · 16) (s.writeTable_cr0 c (some .new))).trans hon
  | restore c => exact (congrArg (BitVec.getLsbD · 16) (s.writeTable_cr0 c (s.ref c))).trans hon
  | _ => exact hon

variable {cr0 : Word w}

omit [DecidableEq T] in
theorem Register.module_step (hr : Register cr0 s) (hs : Sound s)
    (h : ModuleMoves scanned s lines s') : Register cr0 s' := by
  have hhook := hs.hooked
  unfold Hooked at hhook
  cases h with
  | starts op rest hphase =>
    rw [hphase] at hhook
    refine ⟨fun i hi => (op.exec_others hi).trans (hr.others i hi), fun hun => ?_⟩
    -- a module that has not come to the switch has still got it before it
    have hdis : .disable ∈ rest := by
      cases rest with
      | nil => cases hun
      | cons => exact of_decide_eq_true hun
    refine Op.exec_on ?_ (hr.on ?_)
    · rintro rfl
      exact (of_decide_eq_true (startOrder_of_suffix hhook.suffix)).2 hdis
    · rw [hphase]
      exact decide_eq_true (List.mem_cons_of_mem _ hdis)
  | fails lines found hphase =>
    refine ⟨hr.others, fun _ => hr.on ?_⟩
    rw [hphase]
    rfl
  | waits | crashes => exact ⟨hr.others, hr.on⟩
  | ends op =>
    exact ⟨fun i hi => (op.exec_others hi).trans (hr.others i hi), nofun⟩
  | frees op hphase =>
    rw [hphase] at hhook
    refine ⟨fun i hi => (op.exec_others hi).trans (hr.others i hi), fun _ => ?_⟩
    exact (hhook.exec scanned).1.protects (by simp)

/-- What a task leaves alone. -/
theorem Moves.frame (h : Moves kern uid t request s a s') :
    s'.table = s.table ∧ s'.cr0 = s.cr0 ∧ s'.phase = s.phase ∧ s'.load = s.load := by
  cases h <;> exact ⟨rfl, rfl, rfl, rfl⟩

theorem Register.step {l : Label w T} (hr : Register cr0 s) (hs : Sound s)
    (h : step kern uid l s = some (a, s')) : Register cr0 s' := by
  obtain ⟨-, ⟨-, hphase, -, rfl⟩ | ⟨-, hphase, -, rfl⟩ | ⟨scanned, -, lines, -, hm⟩ |
    ⟨t, r, -, ht⟩⟩ := step_cases h
  · exact ⟨hr.others, fun _ => hr.on (by rw [hphase]; rfl)⟩
  · exact ⟨hr.others, nofun⟩
  · exact hr.module_step hs (hs.moduleStep_moves hm)
  · obtain ⟨-, hcr, hphase, -⟩ := (hs.moves ht).frame
    exact ⟨by rw [hcr]; exact hr.others, by rw [hcr, hphase]; exact hr.on⟩

omit [DecidableEq T] in
theorem Register.same (hr : Register cr0 s) (hprot : cr0.getLsbD 16 = true)
    (hon : s.cr0.getLsbD 16 = true) : s.cr0 = cr0 := by
  apply BitVec.eq_of_getLsbD_eq
  intro i _
  by_cases hi : i = 16
  · rw [hi, hon, hprot]
  · exact hr.others i hi

end Steps

/-! ## Every run -/

section Runs

variable [DecidableEq T] {kern : Kernel K P} {uid : T → Nat} {cr0 : Word w} {k : K}
  {ls : List (Label w T)} {h : History w T} {s : State w K T}

theorem steps_sound (hrun : steps kern uid cr0 k ls = some (h, s)) : Sound s :=
  run_rule (P := fun _ s => Sound s) (boot_sound cr0 k) (fun _ _ _ _ _ hs hc => hs.step hc)
    ls h s hrun

end Runs

/-- A kernel whose functions all return 0. -/
def idleKernel : Kernel Unit Unit where
  sys _ _ := (.code 0, ())
  tasks _ := ⟨fun _ => 1, fun _ => none, fun _ => [], fun _ => none⟩

/-- Paging, write protection and protected mode. -/
def bootCr0 : Word .bits32 := 0x80010001#32

/-- Load the module and call `open` under it, up to where the kernel's function is called. -/
def loadAndOpen : List (Label .bits32 Unit) :=
  .insmod :: List.replicate 14 (.module (.found 0xc15c9000#32)) ++
    List.replicate 2 (.task () (.sysOpen (some "notes") 0 0))

end OsProjects.Interceptor
