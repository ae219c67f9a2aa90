import Mathlib.Data.Nat.Digits.Lemmas
import OsProjects.Lib.CString

/-!
# Text that is read back

Numerals, the fields of a line and the lines of a stream, in the form in which `atoi`, `strtok`
and `fgets` read them: each is got back as it was written, whatever comes after it.
-/

namespace OsProjects.Lib

/-! ## Numerals -/

def digitChar (d : Nat) : BitVec 8 := BitVec.ofNat 8 (48 + d)

/-- The decimal digits of `n`, the last one first; zero has one. -/
def decimalDigits (n : Nat) : List Nat := if n = 0 then [0] else Nat.digits 10 n

/-- `n` in decimal. -/
def decimal (n : Nat) : CString := ((decimalDigits n).map digitChar).reverse

section Decimal

variable {n d : Nat} {c : BitVec 8}

theorem decimalDigits_lt (hd : d ∈ decimalDigits n) : d < 10 := by
  unfold decimalDigits at hd
  split at hd
  · rw [List.mem_singleton.mp hd]
    exact Nat.succ_pos 9
  · exact Nat.digits_lt_base (by decide) hd

theorem ofDigits_decimalDigits (n : Nat) : Nat.ofDigits 10 (decimalDigits n) = n := by
  unfold decimalDigits
  split
  · next hn => rw [hn, Nat.ofDigits_singleton]
  · exact Nat.ofDigits_digits 10 n

theorem decimal_ne_nil (n : Nat) : decimal n ≠ [] := by
  unfold decimal decimalDigits
  split
  · exact List.cons_ne_nil _ _
  · next hn => simpa [Nat.digits_eq_nil_iff_eq_zero] using hn

theorem decimal_length {k : Nat} (hk : 0 < k) (hn : n < 10 ^ k) : (decimal n).length ≤ k := by
  rw [decimal, List.length_reverse, List.length_map, decimalDigits]
  split
  · exact hk
  · exact (Nat.digits_length_le_iff (by decide) n).mpr hn

theorem toNat_digitChar (hd : d < 10) : (digitChar d).toNat = 48 + d := by
  rw [digitChar, BitVec.toNat_ofNat]
  omega

theorem isdigit_digitChar (hd : d < 10) : isdigit (digitChar d) = true :=
  (by decide : ∀ d : Fin 10, isdigit (digitChar d) = true) ⟨d, hd⟩

theorem isdigit_of_mem_decimal (hc : c ∈ decimal n) : isdigit c = true := by
  obtain ⟨d, hd, rfl⟩ := List.mem_map.mp (List.mem_reverse.mp hc)
  exact isdigit_digitChar (decimalDigits_lt hd)

theorem not_mem_decimal (hc : isdigit c = false) : c ∉ decimal n := by
  intro hmem
  rw [isdigit_of_mem_decimal hmem] at hc
  cases hc

/-- A digit is neither white space nor a sign. -/
theorem isdigit_spec (hc : isdigit c = true) : isspace c = false ∧ c ≠ 45 ∧ c ≠ 43 := by
  have hrange : 48 ≤ c.toNat ∧ c.toNat ≤ 57 := by simpa [isdigit, BitVec.le_def] using hc
  have hspace : ¬ (c = 32 ∨ 9 ≤ c.toNat ∧ c.toNat ≤ 13) := by
    rintro (rfl | h)
    · exact absurd hrange (by decide)
    · omega
  refine ⟨?_, ?_, ?_⟩
  · simpa [isspace, BitVec.le_def] using hspace
  · rintro rfl
    exact absurd hrange (by decide)
  · rintro rfl
    exact absurd hrange (by decide)

/-- The value that `strtol` adds up. -/
theorem foldl_decimal (n : Nat) :
    (decimal n).foldl (fun n c => 10 * n + (c.toNat - 48 : Int)) 0 = n := by
  rw [decimal, List.foldl_reverse]
  conv_rhs => rw [← ofDigits_decimalDigits n]
  have hlt : ∀ d ∈ decimalDigits n, d < 10 := fun d hd => decimalDigits_lt hd
  generalize decimalDigits n = ds at hlt ⊢
  induction ds with
  | nil => rfl
  | cons d ds ih =>
    rw [List.map_cons, List.foldr_cons, ih (fun d hd => hlt d (List.mem_cons_of_mem _ hd)),
      Nat.ofDigits_cons, toNat_digitChar (hlt d List.mem_cons_self)]
    push_cast
    ring

theorem strtol_decimal (hn : n < 9223372036854775808) {rest : CString}
    (hrest : rest.takeWhile isdigit = []) : strtol (decimal n ++ rest) = n := by
  have htake : (decimal n ++ rest).takeWhile isdigit = decimal n := by
    rw [List.takeWhile_append_of_pos (fun c hc => isdigit_of_mem_decimal hc), hrest,
      List.append_nil]
  obtain ⟨c, cs, hcs⟩ := List.exists_cons_of_ne_nil (decimal_ne_nil n)
  have hc : isdigit c = true := isdigit_of_mem_decimal (n := n) (by rw [hcs]; simp)
  obtain ⟨hspace, hminus, hplus⟩ := isdigit_spec hc
  have hvalue := foldl_decimal n
  rw [← htake] at hvalue
  rw [hcs, List.cons_append] at hvalue ⊢
  simp only [strtol, List.dropWhile_cons, hspace, Bool.false_eq_true, if_false, beq_iff_eq, hminus,
    hplus, hvalue]
  omega

theorem atoi_decimal (hn : n < 2147483648) {rest : CString}
    (hrest : rest.takeWhile isdigit = []) : atoi (decimal n ++ rest) = n := by
  rw [atoi, strtol_decimal (by omega) hrest]
  exact toInt_eq_self_iff.mpr ⟨by omega, by omega⟩

end Decimal

/-! ## Fields -/

section Fields

variable {delim : BitVec 8} {t : CString}

/-- A field, up to a delimiter or the end of the string. -/
theorem strtok_append (ht : t ≠ []) (hd : delim ∉ t) {rest : CString}
    (hrest : rest.takeWhile (· != delim) = []) :
    strtok delim (t ++ rest) = (some t, rest.tail) := by
  have hall : ∀ c ∈ t, (c != delim) = true := by
    intro c hc
    rw [bne_iff_ne]
    rintro rfl
    exact hd hc
  have hdrop : rest.dropWhile (· != delim) = rest := by
    have hsplit := List.takeWhile_append_dropWhile (p := (· != delim)) (l := rest)
    rwa [hrest, List.nil_append] at hsplit
  have hskip : (t ++ rest).dropWhile (· == delim) = t ++ rest := by
    obtain ⟨c, cs, rfl⟩ := List.exists_cons_of_ne_nil ht
    have hc : (c == delim) = false := by simpa using hall c List.mem_cons_self
    rw [List.cons_append, List.dropWhile_cons, hc]
    rfl
  have hsome : (t ++ rest).isEmpty = false := by simp [ht]
  rw [strtok, hskip, hsome, List.takeWhile_append_of_pos hall, List.dropWhile_append_of_pos hall,
    hrest, hdrop, List.append_nil]
  rfl

theorem strtok_field (ht : t ≠ []) (hd : delim ∉ t) (rest : CString) :
    strtok delim (t ++ delim :: rest) = (some t, rest) :=
  strtok_append ht hd (by simp)

theorem strtok_last (ht : t ≠ []) (hd : delim ∉ t) : strtok delim t = (some t, []) := by
  have h : strtok delim (t ++ []) = (some t, []) := strtok_append ht hd rfl
  rwa [List.append_nil] at h

end Fields

/-! ## Lines -/

/-- What one call `fgets(buf, size, stdin)` after the other delivers; `buf` holds what the current
call has read. -/
def readLines (size : Nat) : List (BitVec 8) → List (BitVec 8) → List (List (BitVec 8))
  | buf, [] => if buf.isEmpty then [] else [buf]
  | buf, c :: rest =>
    if c == 10 || buf.length + 2 == size then (buf ++ [c]) :: readLines size [] rest
    else readLines size (buf ++ [c]) rest

/-- A line that fits is read as it is. -/
theorem readLines_line {size : Nat} {buf line : List (BitVec 8)} (hline : 10 ∉ line)
    (hfits : buf.length + line.length + 2 ≤ size) (rest : List (BitVec 8)) :
    readLines size buf (line ++ 10 :: rest) = (buf ++ line ++ [10]) :: readLines size [] rest := by
  induction line generalizing buf with
  | nil => simp [readLines]
  | cons c line ih =>
    have hc : (c == 10) = false := by
      rw [beq_eq_false_iff_ne]
      rintro rfl
      exact hline List.mem_cons_self
    rw [List.length_cons] at hfits
    have hroom : (buf.length + 2 == size) = false := by
      rw [beq_eq_false_iff_ne]
      omega
    rw [List.cons_append, readLines, hc, hroom, Bool.or_false, if_neg Bool.false_ne_true,
      ih (fun hmem => hline (List.mem_cons_of_mem _ hmem)) (by simp; omega)]
    simp

end OsProjects.Lib
