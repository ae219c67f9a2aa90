import OsProjects.Lib.Linked

/-!
# Queues threaded through one `next` field

Several linked lists share the `next` field of their nodes: `queue i` is the head of list
`i`, and a node is in one list at most. `enqueue` crawls to the end of a list as C
programs do; on lists that end it always comes back. `Queues next queue q` says that the
pointers are the lists `q`, and the two rules say what joining and leaving do to `q`.
-/

namespace OsProjects.Lib

variable {H I : Type} {next : H → Option H} {queue : I → Option H} {q : I → List H} {x : H} {i : I}

/-- The pointers are the lists `q`. -/
structure Queues (next : H → Option H) (queue : I → Option H) (q : I → List H) : Prop where
  linked : ∀ i, Linked next (queue i) (q i)
  disjoint : ∀ i j x, x ∈ q i → x ∈ q j → i = j
  fresh : ∀ x, (∀ i, x ∉ q i) → next x = none

/-- A node is put behind the last one of list `i`. -/
def enqueue [DecidableEq H] [DecidableEq I] [Fintype H] (next : H → Option H)
    (queue : I → Option H) (i : I) (x : H) : Option ((H → Option H) × (I → Option H)) :=
  match queue i with
  | none => some (next, Function.update queue i (some x))
  | some head => (lastFrom next (Fintype.card H) head).map fun cur =>
      (Function.update next cur (some x), queue)

/-- What joining does to the heads. -/
theorem enqueue_cases [DecidableEq H] [DecidableEq I] [Fintype H] {next' : H → Option H}
    {queue' : I → Option H} (he : enqueue next queue i x = some (next', queue')) :
    (queue i = none ∧ queue' = Function.update queue i (some x)) ∨
      (queue i ≠ none ∧ queue' = queue) := by
  unfold enqueue at he
  cases hi : queue i with
  | none =>
    rw [hi] at he
    cases he
    exact .inl ⟨rfl, rfl⟩
  | some head =>
    rw [hi] at he
    obtain ⟨cur, -, heq⟩ := Option.map_eq_some_iff.mp he
    cases heq
    exact .inr ⟨Option.some_ne_none head, rfl⟩

theorem enqueue_head [DecidableEq H] [DecidableEq I] [Fintype H] {next' : H → Option H}
    {queue' : I → Option H} {y : H} {j : I} (he : enqueue next queue i x = some (next', queue'))
    (hy : queue j = some y) : queue' j = some y := by
  rcases enqueue_cases he with ⟨hnone, rfl⟩ | ⟨-, rfl⟩
  · have hj : j ≠ i := by
      rintro rfl
      rw [hnone] at hy
      cases hy
    rwa [Function.update_of_ne hj]
  · exact hy

/-- Who is in which list once `x` has joined list `i`. -/
theorem mem_snoc [DecidableEq I] {j : I} {y : H} :
    y ∈ Function.update q i (q i ++ [x]) j ↔ y ∈ q j ∨ y = x ∧ j = i := by
  by_cases hj : j = i
  · subst hj
    simp
  · simp [hj]

namespace Queues

theorem empty (h : ∀ x, next x = none) : Queues next (fun _ : I => none) fun _ => [] where
  linked _ := rfl
  disjoint _ _ _ hx := absurd hx List.not_mem_nil
  fresh x _ := h x

/-- The list of a queue with head `x`. -/
theorem cons (h : Queues next queue q) (hx : queue i = some x) :
    ∃ rest, q i = x :: rest ∧ Linked next (some x) (x :: rest) := by
  have hlink := h.linked i
  rw [hx] at hlink
  obtain ⟨rest, hrest, -⟩ := hlink.of_head
  rw [hrest] at hlink
  exact ⟨rest, hrest, hlink⟩

theorem mem_head (h : Queues next queue q) (hx : queue i = some x) : x ∈ q i := by
  obtain ⟨rest, hrest, -⟩ := h.cons hx
  rw [hrest]
  exact List.mem_cons_self

theorem eq_nil (h : Queues next queue q) (hi : queue i = none) : q i = [] :=
  Linked.nil_iff.mp (hi ▸ h.linked i)

variable [DecidableEq H] [DecidableEq I]

omit [DecidableEq H] in
/-- Who is in which list once the head `x` has left list `i`. -/
theorem mem_tail (h : Queues next queue q) {rest : List H} (hrest : q i = x :: rest) {j : I}
    {y : H} : y ∈ Function.update q i rest j ↔ y ∈ q j ∧ y ≠ x := by
  have hx : x ∈ q i := by
    rw [hrest]
    exact List.mem_cons_self
  by_cases hj : j = i
  · subst hj
    have hout : x ∉ rest := (List.nodup_cons.mp (hrest ▸ (h.linked j).nodup)).1
    rw [Function.update_self, hrest, List.mem_cons]
    constructor
    · intro hy
      exact ⟨.inr hy, fun heq => hout (heq ▸ hy)⟩
    · rintro ⟨hy, hne⟩
      exact hy.resolve_left hne
  · rw [Function.update_of_ne hj]
    refine ⟨fun hy => ⟨hy, ?_⟩, And.left⟩
    rintro rfl
    exact hj (h.disjoint j i y hy hx)

/-- The head of list `i` leaves it. -/
theorem dequeue (h : Queues next queue q) (hx : queue i = some x) :
    ∃ rest, q i = x :: rest ∧
      Queues (Function.update next x none) (Function.update queue i (next x))
        (Function.update q i rest) := by
  obtain ⟨rest, hrest, hlink⟩ := h.cons hx
  refine ⟨rest, hrest, ?_, ?_, ?_⟩
  · intro j
    by_cases hj : j = i
    · subst hj
      rw [Function.update_self, Function.update_self]
      exact hlink.pop
    · rw [Function.update_of_ne hj, Function.update_of_ne hj]
      refine (h.linked j).congr (fun y hy => Function.update_of_ne ?_ _ _)
      rintro rfl
      exact hj (h.disjoint j i y hy (h.mem_head hx))
  · intro j k y hj hk
    exact h.disjoint j k y ((h.mem_tail hrest).mp hj).1 ((h.mem_tail hrest).mp hk).1
  · intro y hy
    by_cases hyx : y = x
    · rw [hyx, Function.update_self]
    · rw [Function.update_of_ne hyx]
      exact h.fresh y fun j hj => hy j ((h.mem_tail hrest).mpr ⟨hj, hyx⟩)

/-- A node in no list joins list `i`. -/
theorem enqueue_spec [Fintype H] (h : Queues next queue q) (hx : ∀ j, x ∉ q j) (i : I) :
    ∃ next' queue', enqueue next queue i x = some (next', queue') ∧
      Queues next' queue' (Function.update q i (q i ++ [x])) := by
  have hdisj : ∀ j k y, y ∈ Function.update q i (q i ++ [x]) j →
      y ∈ Function.update q i (q i ++ [x]) k → j = k := by
    intro j k y hj hk
    rcases mem_snoc.mp hj with hold | ⟨rfl, rfl⟩
    · rcases mem_snoc.mp hk with hold' | ⟨rfl, -⟩
      · exact h.disjoint j k y hold hold'
      · exact absurd hold (hx j)
    · rcases mem_snoc.mp hk with hold' | ⟨-, rfl⟩
      · exact absurd hold' (hx k)
      · rfl
  have hold : ∀ y, (∀ j, y ∉ Function.update q i (q i ++ [x]) j) → ∀ j, y ∉ q j :=
    fun y hy j hj => hy j (mem_snoc.mpr (.inl hj))
  unfold enqueue
  cases hi : queue i with
  | none =>
    refine ⟨next, _, rfl, ?_, hdisj, fun y hy => h.fresh y (hold y hy)⟩
    intro j
    by_cases hj : j = i
    · subst hj
      rw [Function.update_self, Function.update_self, h.eq_nil hi]
      exact ⟨rfl, h.fresh x hx⟩
    · rw [Function.update_of_ne hj, Function.update_of_ne hj]
      exact h.linked j
  | some head =>
    obtain ⟨rest, hrest, hlink⟩ := h.cons hi
    -- the crawl ends at the last node `z`, and only list `i` goes through it
    obtain ⟨l, z, hlast⟩ : ∃ l z, head :: rest = l ++ [z] :=
      ⟨_, _, (List.dropLast_append_getLast (List.cons_ne_nil head rest)).symm⟩
    rw [hlast] at hrest hlink
    have hcrawl : lastFrom next (Fintype.card H) head = some z := by
      refine hlink.lastFrom_eq ?_
      have hlen := hlink.length_le
      rw [List.length_append] at hlen
      exact hlen
    have hz : z ∈ q i := by
      rw [hrest]
      exact List.mem_append_right _ (List.mem_singleton.mpr rfl)
    refine ⟨Function.update next z (some x), queue, ?_, ?_, hdisj, ?_⟩
    · simp only [hcrawl, Option.map_some]
    · intro j
      by_cases hj : j = i
      · subst hj
        rw [Function.update_self, hi, hrest]
        exact hlink.snoc (hrest ▸ hx j) (h.fresh x hx)
      · rw [Function.update_of_ne hj]
        refine (h.linked j).congr (fun y hy => Function.update_of_ne ?_ _ _)
        rintro rfl
        exact hj (h.disjoint j i y hy hz)
    · intro y hy
      have hyz : y ≠ z := by
        rintro rfl
        exact hold y hy i hz
      rw [Function.update_of_ne hyz]
      exact h.fresh y (hold y hy)

end Queues

end OsProjects.Lib
