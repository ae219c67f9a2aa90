import Mathlib.Data.Int.Init
import Mathlib.Data.List.TakeWhile

/-!
# C strings and numbers

Conversion of an integer to a 32-bit `int` is modulo `2 ^ 32`, between `-2 ^ 31` and
`2 ^ 31 - 1`. A sum that is converted after every step is the exact sum, converted once, so
it is the exact sum if and only if that fits.

A string is the list of its bytes up to the `NUL`. `strtok` with one delimiter, whose calls
come to the `tokens` of the string one by one, and `strtol` and `atoi` for base 10, as in a C
library with a 64-bit `long`, in the C locale.
-/

namespace OsProjects.Lib

/-! ## `int` -/

/-- The values of `int`. -/
def FitsInt (x : Int) : Prop := -2147483648 ≤ x ∧ x < 2147483648

instance (x : Int) : Decidable (FitsInt x) := inferInstanceAs (Decidable (_ ∧ _))

/-- `(int)x`. -/
def toInt (x : Int) : Int := x.bmod 4294967296

@[simp] theorem toInt_zero : toInt 0 = 0 := rfl

theorem toInt_add_toInt (x y : Int) : toInt (toInt x + toInt y) = toInt (x + y) := by
  unfold toInt
  rw [Int.bmod_add_bmod, Int.add_bmod_bmod]

theorem toInt_toInt_add (x y : Int) : toInt (toInt x + y) = toInt (x + y) := by
  unfold toInt
  rw [Int.bmod_add_bmod]

theorem toInt_eq_self_iff {x : Int} : toInt x = x ↔ FitsInt x := by
  unfold toInt FitsInt
  rw [Int.bmod_eq_iff (by decide), Int.sub_self]
  constructor
  · rintro ⟨hle, hlt, -⟩
    exact ⟨hle, hlt⟩
  · rintro ⟨hle, hlt⟩
    exact ⟨hle, hlt, Int.dvd_zero _⟩

/-! ## `strtok` -/

abbrev CString := List (BitVec 8)

/-- A string literal of ASCII characters. -/
def literal (s : String) : CString := s.toList.map fun c => BitVec.ofNat 8 c.toNat

/-- The string at the start of a buffer. -/
def cString (buf : List (BitVec 8)) : CString := buf.takeWhile (· != 0)

/-- `strtok`: the token, and what is left for the next call. -/
def strtok (delim : BitVec 8) (s : CString) : Option CString × CString :=
  let s := s.dropWhile (· == delim)
  if s.isEmpty then (none, [])
  else (some (s.takeWhile (· != delim)), (s.dropWhile (· != delim)).tail)

@[simp] theorem strtok_nil (delim : BitVec 8) : strtok delim [] = (none, []) := rfl

/-- A call that finds no token leaves nothing to the next one. -/
theorem strtok_rest_of_none {delim : BitVec 8} {s : CString} (h : (strtok delim s).1 = none) :
    (strtok delim s).2 = [] := by
  simp only [strtok] at h ⊢
  by_cases hs : (s.dropWhile (· == delim)).isEmpty
  · rw [if_pos hs]
  · rw [if_neg hs] at h
    cases h

/-! ## Tokens -/

/-- The maximal substrings without the delimiter. -/
def tokens (delim : BitVec 8) (s : CString) : List CString :=
  (s.splitOn delim).filter fun t => !t.isEmpty

section Tokens

variable {delim c : BitVec 8} {s t : CString}

@[simp] theorem tokens_nil : tokens delim [] = [] := rfl

theorem tokens_cons_delim : tokens delim (delim :: s) = tokens delim s := by
  rw [tokens, List.splitOn_cons_eq_if_modifyHead, if_pos (beq_self_eq_true delim)]
  rfl

theorem tokens_dropWhile : tokens delim (s.dropWhile (· == delim)) = tokens delim s := by
  induction s with
  | nil => rfl
  | cons c s ih =>
    rw [List.dropWhile_cons]
    split
    · next hc => rw [ih, eq_of_beq hc, tokens_cons_delim]
    · rfl

/-- A string that starts with a token. -/
theorem tokens_cons (hc : c ≠ delim) :
    tokens delim (c :: s) = (c :: s).takeWhile (· != delim) ::
      tokens delim ((c :: s).dropWhile (· != delim)).tail := by
  have hclean : delim ∉ (c :: s).takeWhile (· != delim) := by
    intro hx
    simpa using List.mem_takeWhile_imp hx
  have hfirst : ((c :: s).takeWhile (· != delim)).isEmpty = false := by simp [hc]
  have hsplit := List.takeWhile_append_dropWhile (p := (· != delim)) (l := c :: s)
  cases hrest : (c :: s).dropWhile (· != delim) with
  | nil =>
    rw [hrest, List.append_nil] at hsplit
    rw [tokens, hsplit, List.splitOn_eq_singleton (hsplit ▸ hclean)]
    rfl
  | cons d rest =>
    have hd : d = delim := by
      have hhead := List.head_dropWhile_not (· != delim) (l := c :: s) (by rw [hrest]; simp)
      simp only [hrest, List.head_cons] at hhead
      simpa using hhead
    rw [hrest, hd] at hsplit
    rw [tokens, ← hsplit, List.splitOn_append_cons_self_of_not_mem hclean, hsplit,
      List.filter_cons_of_pos (by simp [hfirst])]
    rfl

/-- `strtok` returns the first token, and leaves the others to the next calls. -/
theorem strtok_spec (delim : BitVec 8) (s : CString) :
    (strtok delim s).1 = (tokens delim s).head? ∧
      tokens delim (strtok delim s).2 = (tokens delim s).tail := by
  rw [← @tokens_dropWhile delim s, strtok]
  cases hrest : s.dropWhile (· == delim) with
  | nil => exact ⟨rfl, rfl⟩
  | cons c rest =>
    have hc : c ≠ delim := by
      have hhead := List.head_dropWhile_not (· == delim) (l := s) (by rw [hrest]; simp)
      simp only [hrest, List.head_cons] at hhead
      simpa using hhead
    rw [tokens_cons hc]
    exact ⟨rfl, rfl⟩

theorem strtok_of_nil (h : tokens delim s = []) : (strtok delim s).1 = none := by
  rw [(strtok_spec delim s).1, h]
  rfl

theorem strtok_of_cons {later : List CString} (h : tokens delim s = t :: later) :
    (strtok delim s).1 = some t ∧ tokens delim (strtok delim s).2 = later := by
  obtain ⟨hhead, htail⟩ := strtok_spec delim s
  rw [h] at hhead htail
  exact ⟨hhead, htail⟩

theorem strtok_snd_length (h : (strtok delim s).1 = some t) :
    (strtok delim s).2.length < s.length := by
  rw [strtok] at h ⊢
  have hle := (List.dropWhile_suffix (· == delim) (l := s)).length_le
  cases hrest : s.dropWhile (· == delim) with
  | nil =>
    rw [hrest] at h
    cases h
  | cons c rest =>
    have hle' := (List.dropWhile_suffix (· != delim) (l := c :: rest)).length_le
    rw [hrest] at hle
    simp only [List.isEmpty_cons, Bool.false_eq_true, if_false, List.length_tail]
    simp only [List.length_cons] at hle hle' ⊢
    omega

/-- A token is no longer than the string. -/
theorem length_of_mem_tokens (h : t ∈ tokens delim s) : t.length ≤ s.length := by
  replace h := (List.mem_filter.mp h).1
  induction s generalizing t with
  | nil =>
    rw [List.mem_singleton.mp h]
    exact Nat.le_refl _
  | cons c s ih =>
    rw [List.splitOn_cons_eq_if_modifyHead] at h
    cases hpieces : List.splitOn delim s with
    | nil => exact absurd hpieces (List.splitOn_ne_nil _ _)
    | cons first pieces =>
      have hfirst : first.length ≤ s.length := ih (by rw [hpieces]; exact List.mem_cons_self)
      have hothers : ∀ t ∈ first :: pieces, t.length ≤ s.length + 1 := by
        intro t ht
        exact Nat.le_succ_of_le (ih (by rw [hpieces]; exact ht))
      rw [hpieces] at h
      rw [List.length_cons]
      split at h
      · rcases List.mem_cons.mp h with rfl | h
        · exact Nat.zero_le _
        · exact hothers t h
      · rcases List.mem_cons.mp h with rfl | h
        · exact Nat.succ_le_succ hfirst
        · exact hothers t (List.mem_cons_of_mem _ h)

end Tokens

/-! ## `atoi` -/

def isspace (c : BitVec 8) : Bool := c == 32 || (9 ≤ c && c ≤ 13)

def isdigit (c : BitVec 8) : Bool := 48 ≤ c && c ≤ 57

/-- `strtol(s, NULL, 10)`, which keeps to the limits of `long`. -/
def strtol (s : CString) : Int :=
  let s := s.dropWhile isspace
  let (negative, s) := match s with
    | [] => (false, [])
    | c :: rest => if c == 45 then (true, rest) else if c == 43 then (false, rest) else (false, s)
  let value := (s.takeWhile isdigit).foldl (fun n c => 10 * n + (c.toNat - 48 : Int)) 0
  max (-9223372036854775808) (min (if negative then -value else value) 9223372036854775807)

def atoi (s : CString) : Int := toInt (strtol s)

example : atoi (literal " -12x") = -12 := by decide +kernel

example : atoi (literal "4294967297") = 1 := by decide +kernel

end OsProjects.Lib
