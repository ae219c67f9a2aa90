import OsProjects.Lib.Cells

/-!
# `Project2`: the ancestry of a process

`new_sys_cs3013_syscall2` in the kernel copies the children, the siblings and the ancestors
of a process into three arrays of the caller, and `procAncestry` prints them from there. It
has filled the arrays with -1 before, and takes -1 (children, siblings) or anything that is
not positive (ancestors) for the end. A write outside of an array, or a look at the parent of
a process that has none, does not come back (`none`).

What the kernel takes for the siblings are all children of the parent, the process itself
among them.
-/

namespace OsProjects.Interceptor

open OsProjects.Lib

/-- `ancestry_t` -/
structure Ancestry where
  ancestors : Cells Int 10
  siblings : Cells Int 100
  children : Cells Int 100

/-! ## The kernel's side -/

/-- The tasks: what is used of a `task_struct`, and `pid_task(find_vpid(..), PIDTYPE_PID)`. -/
structure Tasks (T : Type) where
  pid : T → Int
  parent : T → Option T
  children : T → List T
  pidTask : Int → Option T

/-- What is logged. -/
inductive Note
  | target (pid : Int)
  | child (pid : Int)
  | sibling (pid : Int)
  | ancestor (pid : Int)
  deriving DecidableEq

/-- `a[i] = v` -/
def write {n : Nat} (a : Cells Int n) (i : Nat) (v : Int) : Option (Cells Int n) :=
  if i < n then some (a.set i v) else none

section Kernel

variable {T : Type}

/-- The `list_for_each` over children or siblings, from index `i` on. -/
def indexList (tasks : Tasks T) (found : Int → Note) :
    List T → Nat → Cells Int 100 → Option (List Note × Cells Int 100)
  | [], _, a => some ([], a)
  | cur :: rest, i, a => do
    let a ← write a i (tasks.pid cur)
    if i + 1 ≥ 100 then some ([found (tasks.pid cur)], a)
    else
      let (log, a) ← indexList tasks found rest (i + 1) a
      some (found (tasks.pid cur) :: log, a)

/-- The loop over the parents, from index `i` on. -/
def indexAncestors (tasks : Tasks T) (task : T) (i : Nat) (a : Cells Int 10) :
    Option (List Note × Cells Int 10) :=
  match tasks.parent task with
  | none => some ([], a)
  | some task =>
    if i < 10 then do
      let a ← write a i (tasks.pid task)
      if tasks.pid task = 0 then some ([], a)
      else
        let (log, a) ← indexAncestors tasks task (i + 1) a
        some (.ancestor (tasks.pid task) :: log, a)
    else some ([], a)
termination_by 10 - i

/-- The call, with what the two `copy_from_user` give (`none` if they fail) and whether
`copy_to_user` succeeds: the log, the code, and the caller's structure. -/
def newSysCs3013Syscall2 (tasks : Tasks T) (pid : Option Int) (response : Option Ancestry)
    (writable : Bool) : Option (List Note × Int × Option Ancestry) :=
  match pid, response with
  | none, _ => some ([], -1, response)
  | some _, none => some ([], -1, response)
  | some target, some ancestry =>
    match tasks.pidTask target with
    | none => some ([], -1, response)
    | some task => do
      let (log, children) ← indexList tasks .child (tasks.children task) 0 ancestry.children
      let parent ← tasks.parent task
      let (log', siblings) ← indexList tasks .sibling (tasks.children parent) 0 ancestry.siblings
      let (log'', ancestors) ← indexAncestors tasks task 0 ancestry.ancestors
      some (.target target :: (log ++ log' ++ log''),
        if writable then (0, some ⟨ancestors, siblings, children⟩) else (-1, response))

end Kernel

/-! ## The user's side -/

def initAncestry : Ancestry where
  ancestors := Cells.ofFn fun _ => -1
  siblings := Cells.ofFn fun _ => -1
  children := Cells.ofFn fun _ => -1

/-- The loop of `print_siblings` and `print_children`, from `i` on. -/
def printUntil {n : Nat} (a : Cells Int n) (i : Nat) : List Int :=
  if i < n ∧ a.get i ≠ -1 then a.get i :: printUntil a (i + 1) else []
termination_by n - i

/-- The loop of `print_ancestors`, below `i`. -/
def printDown {n : Nat} (a : Cells Int n) : Nat → List Int
  | 0 => []
  | i + 1 => if a.get i > 0 then a.get i :: printDown a i else printDown a i

/-- The pids that are printed. -/
inductive Printed
  | siblings (pids : List Int)
  | children (pids : List Int)
  | ancestors (pids : List Int)
  deriving DecidableEq

def printSiblings (a : Ancestry) : Printed := .siblings (printUntil a.siblings 0)

def printChildren (a : Ancestry) : Printed := .children (printUntil a.children 0)

def printAncestors (a : Ancestry) : Printed := .ancestors (printDown a.ancestors 10)

/-! ## Arrays filled from the front -/

/-- The elements, and then `filler`. -/
def Filled {n : Nat} (a : Cells Int n) (xs : List Int) (filler : Int) : Prop :=
  ∀ i, i < n → a.get i = xs.getD i filler

section Filled

variable {n : Nat} {a : Cells Int n} {xs : List Int} {filler x : Int}

theorem filled_ofFn : Filled (Cells.ofFn fun _ => filler : Cells Int n) [] filler := by
  intro i hi
  rw [Cells.get_ofFn _ hi]
  rfl

theorem Filled.write (h : Filled a xs filler) (hroom : xs.length < n) :
    ∃ a', write a xs.length x = some a' ∧ Filled a' (xs ++ [x]) filler := by
  refine ⟨_, if_pos hroom, fun i hi => ?_⟩
  by_cases hix : i = xs.length
  · subst hix
    rw [Cells.get_set_eq _ _ hi]
    simp
  · rw [Cells.get_set_ne _ _ hix, h i hi]
    simp only [List.getD_eq_getElem?_getD]
    rcases Nat.lt_or_gt_of_ne hix with hlt | hgt
    · rw [List.getElem?_append_left hlt]
    · rw [List.getElem?_eq_none (by omega), List.getElem?_eq_none (by simp; omega)]

/-- What is printed up to the filler. -/
theorem Filled.printUntil (h : Filled a xs (-1)) (hlen : xs.length ≤ n) (hxs : -1 ∉ xs) (i : Nat) :
    Interceptor.printUntil a i = xs.drop i := by
  induction hk : n - i generalizing i with
  | zero =>
    rw [Interceptor.printUntil, if_neg (by omega), List.drop_eq_nil_iff.mpr (by omega)]
  | succ k ih =>
    have hi : i < n := by omega
    rw [Interceptor.printUntil, h i hi, ih (i + 1) (by omega)]
    by_cases hin : i < xs.length
    · have hget : xs.getD i (-1) = xs[i] := by simp [hin]
      have hne : xs[i] ≠ -1 := fun heq => hxs (heq ▸ List.getElem_mem hin)
      rw [hget, if_pos ⟨hi, hne⟩, ← List.drop_eq_getElem_cons hin]
    · have hget : xs.getD i (-1) = -1 := by simp [Nat.le_of_not_lt hin]
      rw [hget, if_neg (by simp), List.drop_eq_nil_iff.mpr (by omega)]

/-- What is printed of the positive elements. -/
theorem Filled.printDown (h : Filled a xs (-1)) {i : Nat} (hi : i ≤ n) :
    Interceptor.printDown a i = ((xs.take i).filter (0 < ·)).reverse := by
  induction i with
  | zero => rfl
  | succ i ih =>
    rw [Interceptor.printDown, h i (by omega), ih (by omega)]
    by_cases hin : i < xs.length
    · have hget : xs.getD i (-1) = xs[i] := by simp [hin]
      rw [hget, List.take_succ_eq_append_getElem hin, List.filter_append, List.reverse_append]
      split
      · next hpos => simp [hpos]
      · next hpos => simp [hpos]
    · have hget : xs.getD i (-1) = -1 := by simp [Nat.le_of_not_lt hin]
      rw [hget, if_neg (by omega), List.take_of_length_le (by omega),
        List.take_of_length_le (by omega)]

end Filled

/-! ## Trees of processes -/

/-- The ancestors of a task below `root`, nearest first. -/
inductive Tasks.Line {T : Type} (tasks : Tasks T) (root : T) : T → List T → Prop
  | last {t : T} : tasks.parent t = some root → Line tasks root t []
  | cons {t p : T} {ps : List T} : tasks.parent t = some p → p ≠ root → Line tasks root p ps →
      Line tasks root t (p :: ps)

/-- The tasks form a tree; its root has pid 0, and the others have positive ones. -/
structure ProcessTree (T : Type) extends Tasks T where
  root : T
  pid_root : pid root = 0
  pid_pos : ∀ t, t ≠ root → 0 < pid t
  pid_inj : ∀ t u, pid t = pid u → t = u
  pidTask_eq : ∀ t, t ≠ root → pidTask (pid t) = some t
  mem_children : ∀ t p, t ∈ children p ↔ t ≠ root ∧ parent t = some p
  line : ∀ t, t ≠ root → ∃ ps, toTasks.Line root t ps

section Loops

variable {T : Type} (tasks : Tasks T) {xs : List Int}

/-- The pids of the list go into the array as far as there is room. -/
theorem indexList_spec (found : Int → Note) (ts : List T) {a : Cells Int 100}
    (h : Filled a xs (-1)) (hlen : xs.length < 100) :
    ∃ log a', indexList tasks found ts xs.length a = some (log, a') ∧
      Filled a' ((xs ++ ts.map tasks.pid).take 100) (-1) := by
  induction ts generalizing xs a with
  | nil =>
    refine ⟨[], a, rfl, ?_⟩
    rw [List.map_nil, List.append_nil, List.take_of_length_le (by omega)]
    exact h
  | cons t ts ih =>
    obtain ⟨a₁, hwrite, h₁⟩ := h.write (x := tasks.pid t) hlen
    have hlen₁ : (xs ++ [tasks.pid t]).length = xs.length + 1 := List.length_append
    have hcons : xs ++ (t :: ts).map tasks.pid = xs ++ [tasks.pid t] ++ ts.map tasks.pid := by simp
    simp only [indexList, hwrite, Option.bind_eq_bind, Option.bind_some]
    by_cases hfull : xs.length + 1 ≥ 100
    · refine ⟨_, a₁, by rw [if_pos hfull], ?_⟩
      rw [hcons, List.take_append_of_le_length (by omega), List.take_of_length_le (by omega)]
      exact h₁
    · obtain ⟨log, a₂, heq, h₂⟩ := ih h₁ (by omega)
      rw [hlen₁] at heq
      refine ⟨_, a₂, by rw [if_neg hfull, heq]; rfl, ?_⟩
      rw [hcons]
      exact h₂

end Loops

section Ancestors

variable {T : Type} (P : ProcessTree T) {t : T} {ps : List T} {xs : List Int}

/-- The pids of the ancestors go into the array, and the 0 of the root after them, as far
as there is room. -/
theorem indexAncestors_spec (hline : P.Line P.root t ps) {a : Cells Int 10}
    (h : Filled a xs (-1)) (hlen : xs.length ≤ 10) :
    ∃ log a', indexAncestors P.toTasks t xs.length a = some (log, a') ∧
      Filled a' ((xs ++ ps.map P.pid ++ [0]).take 10) (-1) := by
  induction hline generalizing xs a with
  | last hparent =>
    rw [indexAncestors]
    simp only [hparent, P.pid_root, if_true]
    by_cases hroom : xs.length < 10
    · obtain ⟨a₁, hwrite, h₁⟩ := h.write (x := 0) hroom
      refine ⟨[], a₁, by simp only [if_pos hroom, hwrite]; rfl, ?_⟩
      rw [List.map_nil, List.append_nil, List.take_of_length_le (by simp; omega)]
      exact h₁
    · refine ⟨[], a, by rw [if_neg hroom], ?_⟩
      rw [List.map_nil, List.append_nil, List.take_append_of_le_length (by omega),
        List.take_of_length_le hlen]
      exact h
  | @cons t p ps hparent hne _ ih =>
    have hpid : P.pid p ≠ 0 := (P.pid_pos p hne).ne'
    have hcons : xs ++ (p :: ps).map P.pid ++ [0] = xs ++ [P.pid p] ++ ps.map P.pid ++ [0] := by
      simp
    rw [indexAncestors]
    simp only [hparent, if_neg hpid]
    by_cases hroom : xs.length < 10
    · obtain ⟨a₁, hwrite, h₁⟩ := h.write (x := P.pid p) hroom
      have hlen₁ : (xs ++ [P.pid p]).length = xs.length + 1 := List.length_append
      obtain ⟨log, a₂, heq, h₂⟩ := ih h₁ (by omega)
      rw [hlen₁] at heq
      refine ⟨_, a₂, by simp only [if_pos hroom, hwrite, heq, Option.bind_eq_bind,
        Option.bind_some]; rfl, ?_⟩
      rw [hcons]
      exact h₂
    · refine ⟨[], a, by rw [if_neg hroom], ?_⟩
      rw [List.append_assoc, List.take_append_of_le_length (by omega),
        List.take_of_length_le hlen]
      exact h

theorem Tasks.Line.ne_root (hline : P.Line P.root t ps) : ∀ p ∈ ps, p ≠ P.root := by
  induction hline with
  | last _ => simp
  | cons _ hne _ ih =>
    intro p hp
    rcases List.mem_cons.mp hp with rfl | hp
    · exact hne
    · exact ih p hp

/-- Children have positive pids, so none is taken for the end. -/
theorem ProcessTree.neg_one_not_mem (p : T) (k : Nat) :
    -1 ∉ ((P.children p).map P.pid).take k := by
  intro hin
  obtain ⟨c, hc, hpid⟩ := List.mem_map.mp (List.mem_of_mem_take hin)
  have hpos := P.pid_pos c ((P.mem_children c p).mp hc).1
  omega

/-- Of the array of ancestors, the positive pids are those of the nearest ten. -/
theorem ProcessTree.filter_line (hline : P.Line P.root t ps) (k : Nat) :
    ((ps.map P.pid ++ [0]).take k).filter (0 < ·) = (ps.take k).map P.pid := by
  rw [List.take_append, List.filter_append, ← List.map_take]
  have hps : ((ps.take k).map P.pid).filter (0 < ·) = (ps.take k).map P.pid := by
    rw [List.filter_eq_self]
    intro x hx
    obtain ⟨p, hp, rfl⟩ := List.mem_map.mp hx
    simpa using P.pid_pos p (hline.ne_root P p (List.mem_of_mem_take hp))
  have hroot : (([0] : List Int).take (k - (ps.map P.pid).length)).filter (0 < ·) = [] := by
    rw [List.filter_eq_nil_iff]
    intro x hx
    rw [List.mem_singleton.mp (List.mem_of_mem_take hx)]
    decide
  rw [hps, hroot, List.append_nil]

variable {parent : T}

/-- A call for a process that exists succeeds, and what is then printed. -/
theorem ProcessTree.call (ht : t ≠ P.root) (hparent : P.parent t = some parent)
    (hline : P.Line P.root t ps) :
    ∃ log a, newSysCs3013Syscall2 P.toTasks (some (P.pid t)) (some initAncestry) true =
        some (log, 0, some a) ∧
      printChildren a = .children (((P.children t).take 100).map P.pid) ∧
      printSiblings a = .siblings (((P.children parent).take 100).map P.pid) ∧
      printAncestors a = .ancestors ((ps.take 10).map P.pid).reverse := by
  have hnil : ([] : List Int).length = 0 := rfl
  obtain ⟨log₁, children, hchildren, h₁⟩ :=
    indexList_spec P.toTasks .child (P.children t) filled_ofFn (by decide)
  obtain ⟨log₂, siblings, hsiblings, h₂⟩ :=
    indexList_spec P.toTasks .sibling (P.children parent) filled_ofFn (by decide)
  obtain ⟨log₃, ancestors, hancestors, h₃⟩ :=
    indexAncestors_spec P hline filled_ofFn (by decide)
  rw [List.nil_append] at h₁ h₂ h₃
  refine ⟨.target (P.pid t) :: (log₁ ++ log₂ ++ log₃), ⟨ancestors, siblings, children⟩,
    ?_, ?_, ?_, ?_⟩
  · simp only [newSysCs3013Syscall2, P.pidTask_eq t ht, initAncestry]
    rw [hnil] at hchildren hsiblings hancestors
    simp only [hchildren, hparent, hsiblings, hancestors, Option.bind_eq_bind, Option.bind_some,
      if_true]
  · rw [printChildren, h₁.printUntil (by simp) (P.neg_one_not_mem t 100), List.map_take]
    rfl
  · rw [printSiblings, h₂.printUntil (by simp) (P.neg_one_not_mem parent 100),
      List.map_take]
    rfl
  · rw [printAncestors, h₃.printDown (Nat.le_refl 10), List.take_take, Nat.min_self,
      P.filter_line hline]

/-- What is to be printed after a successful call: the first children, the first children of
the parent other than the process itself, and the nearest ancestors, farthest first. -/
def PrintsFamily [DecidableEq T] (P : ProcessTree T) (t parent : T) (ps : List T) : Prop :=
  ∃ log a, newSysCs3013Syscall2 P.toTasks (some (P.pid t)) (some initAncestry) true =
      some (log, 0, some a) ∧
    printChildren a = .children (((P.children t).take 100).map P.pid) ∧
    printSiblings a =
      .siblings ((((P.children parent).filter (· ≠ t)).take 100).map P.pid) ∧
    printAncestors a = .ancestors ((ps.take 10).map P.pid).reverse

/-- The pid of a process among the first 100 children of its parent is printed, but is not
that of another child. -/
theorem ProcessTree.prints_itself [DecidableEq T] (ht : t ≠ P.root)
    (hparent : P.parent t = some parent) (hline : P.Line P.root t ps)
    (hin : t ∈ (P.children parent).take 100) : ¬ PrintsFamily P t parent ps := by
  obtain ⟨log, a, hcall, -, hsiblings, -⟩ := P.call ht hparent hline
  rintro ⟨log', a', hcall', -, hsiblings', -⟩
  cases hcall.symm.trans hcall'
  have heq := Printed.siblings.inj (hsiblings.symm.trans hsiblings')
  have hpid : P.pid t ∈ ((P.children parent).take 100).map P.pid := List.mem_map_of_mem hin
  rw [heq] at hpid
  obtain ⟨u, hu, hpid⟩ := List.mem_map.mp hpid
  have hne := (List.mem_filter.mp (List.mem_of_mem_take hu)).2
  exact of_decide_eq_true hne (P.pid_inj u t hpid)

/-- Children and ancestors are printed as they should be, and the siblings too exactly if
the process is not one of the first 100 children of its parent. -/
theorem family_printed_iff [DecidableEq T] (P : ProcessTree T) (t parent : T) (ps : List T)
    (ht : t ≠ P.root) (hparent : P.parent t = some parent) (hline : P.Line P.root t ps) :
    PrintsFamily P t parent ps ↔ t ∉ (P.children parent).take 100 := by
  obtain ⟨log, a, hcall, hchildren, hsiblings, hancestors⟩ := P.call ht hparent hline
  have hmem : t ∈ P.children parent := (P.mem_children t parent).mpr ⟨ht, hparent⟩
  constructor
  · intro hprints hin
    exact P.prints_itself ht hparent hline hin hprints
  · intro hout
    refine ⟨log, a, hcall, hchildren, ?_, hancestors⟩
    have hfirst : ((P.children parent).take 100).filter (· ≠ t) = (P.children parent).take 100 := by
      rw [List.filter_eq_self]
      intro u hu
      have hne : u ≠ t := fun heq => hout (heq ▸ hu)
      simpa using hne
    have hlong : ((P.children parent).take 100).length = 100 := by
      rw [List.length_take]
      by_contra hshort
      rw [List.take_of_length_le (by omega)] at hout
      exact hout hmem
    rw [hsiblings]
    congr 2
    rw [← List.take_append_drop 100 (P.children parent), List.filter_append, hfirst,
      List.take_append_of_le_length (by omega), List.take_append_of_le_length (by omega)]

end Ancestors

/-- The idle task, which is its own parent, `init`, and `n` children of `init`. -/
inductive Star (n : Nat)
  | idle
  | init
  | child (i : Fin n)
  deriving DecidableEq

namespace Star

variable {n : Nat}

def tasks (n : Nat) : Tasks (Star n) where
  pid
    | .idle => 0
    | .init => 1
    | .child i => i.val + 2
  parent
    | .idle => some .idle
    | .init => some .idle
    | .child _ => some .init
  children
    | .idle => [.init]
    | .init => (List.finRange n).map .child
    | .child _ => []
  pidTask p :=
    if p = 1 then some .init
    else if 2 ≤ p then (List.finRange n)[(p - 2).toNat]?.map .child
    else none

theorem pid_pos (t : Star n) (ht : t ≠ .idle) : 0 < (tasks n).pid t := by
  cases t with
  | idle => exact absurd rfl ht
  | init => exact Int.zero_lt_one
  | child i =>
    show (0 : Int) < i.val + 2
    omega

theorem pid_inj (t u : Star n) (h : (tasks n).pid t = (tasks n).pid u) : t = u := by
  cases t <;> cases u <;> simp only [tasks] at h <;> first | rfl | omega | skip
  next i j =>
    have hij : i = j := Fin.ext (by omega)
    rw [hij]

theorem pidTask_eq (t : Star n) (ht : t ≠ .idle) :
    (tasks n).pidTask ((tasks n).pid t) = some t := by
  cases t with
  | idle => exact absurd rfl ht
  | init => rfl
  | child i =>
    have hone : (i.val + 2 : Int) ≠ 1 := by omega
    have htwo : (2 : Int) ≤ i.val + 2 := by omega
    have hindex : (i.val + 2 - 2 : Int).toNat = i.val := by omega
    simp only [tasks, if_neg hone, if_pos htwo, hindex]
    simp

theorem mem_children (t p : Star n) :
    t ∈ (tasks n).children p ↔ t ≠ .idle ∧ (tasks n).parent t = some p := by
  cases t <;> cases p <;> simp [tasks]

theorem line (t : Star n) (ht : t ≠ .idle) : ∃ ps, (tasks n).Line .idle t ps := by
  cases t with
  | idle => exact absurd rfl ht
  | init => exact ⟨[], .last rfl⟩
  | child i => exact ⟨[.init], .cons rfl (by simp) (.last rfl)⟩

def tree (n : Nat) : ProcessTree (Star n) where
  toTasks := tasks n
  root := .idle
  pid_root := rfl
  pid_pos := pid_pos
  pid_inj := pid_inj
  pidTask_eq := pidTask_eq
  mem_children := mem_children
  line := line

end Star

/-- The 101st child of `init` is not one of its own siblings. -/
theorem family_printed_iff_late_child :
    PrintsFamily (Star.tree 101) (.child (Fin.last 100)) .init [.init] :=
  (family_printed_iff (Star.tree 101) (.child (Fin.last 100)) .init [.init] (by decide) rfl
    (.cons rfl (by decide) (.last rfl))).mpr (by decide +kernel)

/-- Process 2, with one sibling: it is itself printed among its siblings. -/
theorem own_pid_among_siblings :
    ∃ log a, newSysCs3013Syscall2 (Star.tasks 2) (some 2) (some initAncestry) true =
        some (log, 0, some a) ∧ printSiblings a = .siblings [2, 3] ∧
      ¬ PrintsFamily (Star.tree 2) (.child 0) .init [.init] := by
  have hline : (Star.tree 2).Line .idle (.child 0) [.init] :=
    .cons rfl (by simp) (.last rfl)
  have hroot : Star.child 0 ≠ (Star.tree 2).root := by decide
  obtain ⟨log, a, hcall, -, hsiblings, -⟩ :=
    (Star.tree 2).call (t := .child 0) hroot rfl hline
  refine ⟨log, a, hcall, hsiblings, ?_⟩
  exact (Star.tree 2).prints_itself hroot rfl hline (by decide)

end OsProjects.Interceptor
