import MonkeyLanguage.Proofs.Eval.Arithmetic

/-!
# Integers as machine words

An integer is held by a word of 64 bits, and operators do to integers what the machine does to words
(`operators_on_machine_words`).  Sums, differences, products and negations of words are those of the integers, wrapped
around.  A quotient needs no wrapping, but for one pair of operands: the opposite of the least integer is too large.

Division drops the fraction, so what it leaves of the dividend is smaller than the divisor and has the sign of the
dividend (`Truncates`).  That determines the quotient (`Truncates.unique`).
-/

namespace MonkeyLanguage

variable {m n q q' : Int}

/-! ## Words -/

def word (n : Int) : BitVec 64 :=
  BitVec.ofInt 64 n

theorem toInt_word (n : Int) : (word n).toInt = wrap n :=
  BitVec.toInt_ofInt n

theorem wrap_eq_self_iff : wrap n = n ↔ IsInteger64 n :=
  ⟨fun h => h ▸ isInteger64_wrap n, fun h => wrap_of_mem_range h.1 (Int.lt_add_one_of_le h.2)⟩

theorem toInt_word_of_isInteger64 (h : IsInteger64 n) : (word n).toInt = n := by
  rw [toInt_word, wrap_eq_self_iff.2 h]

theorem toInt_sum (m n : Int) : (word m + word n).toInt = wrap (m + n) := by
  rw [BitVec.toInt_add, toInt_word, toInt_word]
  exact wrap_add_wrap m n

theorem toInt_difference (m n : Int) : (word m - word n).toInt = wrap (m - n) := by
  rw [BitVec.toInt_sub, toInt_word, toInt_word]
  exact wrap_sub_wrap m n

theorem toInt_product (m n : Int) : (word m * word n).toInt = wrap (m * n) := by
  rw [BitVec.toInt_mul, toInt_word, toInt_word]
  exact wrap_mul_wrap m n

theorem toInt_negation (n : Int) : (-word n).toInt = wrap (-n) := by
  rw [BitVec.toInt_neg, toInt_word]
  exact wrap_neg_wrap n

/-- Wrapping around does not pass through division, so here the operands have to be in the range. -/
theorem toInt_quotient (hm : IsInteger64 m) (hn : IsInteger64 n) :
    ((word m).sdiv (word n)).toInt = wrap (m.tdiv n) := by
  rw [BitVec.toInt_sdiv, toInt_word_of_isInteger64 hm, toInt_word_of_isInteger64 hn]
  rfl

theorem word_inj (hm : IsInteger64 m) (hn : IsInteger64 n) : word m = word n ↔ m = n := by
  rw [← BitVec.toInt_inj, toInt_word_of_isInteger64 hm, toInt_word_of_isInteger64 hn]

theorem slt_word (hm : IsInteger64 m) (hn : IsInteger64 n) : (word m).slt (word n) = decide (m < n) := by
  rw [BitVec.slt_eq_decide, toInt_word_of_isInteger64 hm, toInt_word_of_isInteger64 hn]

theorem beq_word (hm : IsInteger64 m) (hn : IsInteger64 n) : (word m == word n) = (m == n) := by
  rw [Bool.eq_iff_iff, beq_iff_eq, beq_iff_eq, word_inj hm hn]

/-! ## Quotients -/

/-- The quotient without its fraction: what it leaves of the dividend is smaller than the divisor and has the sign of
the dividend. -/
def Truncates (m n q : Int) : Prop :=
  ∃ r, m = q * n + r ∧ r.natAbs < n.natAbs ∧ (r = 0 ∨ (r < 0 ↔ m < 0))

theorem truncates_tdiv (m : Int) (hn : n ≠ 0) : Truncates m n (m.tdiv n) := by
  refine ⟨m.tmod n, ?_, ?_, ?_⟩
  · rw [Int.mul_comm, Int.mul_tdiv_add_tmod]
  · rw [Int.natAbs_tmod]
    exact Nat.mod_lt _ (Int.natAbs_pos.2 hn)
  · have hsign := Int.sign_tmod m n
    split at hsign
    · exact .inl (Int.sign_eq_zero_iff_zero.1 hsign)
    · exact .inr (by rw [← Int.sign_eq_neg_one_iff_neg, hsign, Int.sign_eq_neg_one_iff_neg])

/-- Two remainders of one sign that are smaller than the divisor differ by less than the divisor. -/
theorem Truncates.unique (h : Truncates m n q) (h' : Truncates m n q') : q = q' := by
  obtain ⟨r, hm, hr, hsign⟩ := h
  obtain ⟨r', hm', hr', hsign'⟩ := h'
  have hdiff : (q - q') * n = r' - r := by
    rw [Int.sub_mul]
    omega
  have hsmall : (q - q').natAbs * n.natAbs < n.natAbs := by
    rw [← Int.natAbs_mul, hdiff]
    omega
  rcases Nat.eq_zero_or_pos (q - q').natAbs with hzero | hpos
  · exact Int.sub_eq_zero.1 (Int.natAbs_eq_zero.1 hzero)
  · exact absurd hsmall (Nat.not_lt.2 (Nat.le_mul_of_pos_left _ hpos))

theorem isInteger64_tdiv_iff (hm : IsInteger64 m) (hn : n ≠ 0) :
    IsInteger64 (m.tdiv n) ↔ ¬(m = -9223372036854775808 ∧ n = -1) := by
  obtain ⟨hmin, hmax⟩ := hm
  rw [maxInteger] at hmax
  rw [IsInteger64, maxInteger]
  constructor
  · rintro ⟨-, hle⟩ ⟨rfl, rfl⟩
    exact absurd hle (by decide)
  · intro hne
    have habs : (m.tdiv n).natAbs = m.natAbs / n.natAbs := Int.natAbs_tdiv m n
    by_cases hone : n.natAbs = 1
    · rcases Int.natAbs_eq_iff.1 hone with rfl | rfl
      · rw [Int.natCast_one, Int.tdiv_one]
        omega
      · rw [Int.natCast_one, Int.tdiv_neg, Int.tdiv_one]
        omega
    · have hhalf : m.natAbs / n.natAbs ≤ m.natAbs / 2 := Nat.div_le_div_left (by omega) (by decide)
      omega

/-! ## Operators -/

namespace Value

theorem applyBinary_eq_divisionByZero_iff {operator : String} {left right : Value} {dividend : Int} :
    applyBinary operator left right = .error (.divisionByZero dividend) ↔
      operator = "/" ∧ left = .integer dividend ∧ right = .integer 0 := by
  constructor
  · intro h
    unfold applyBinary at h
    split at h
    · next m n =>
      unfold applyIntegers at h
      split at h
      case h_4 =>
        split at h
        · next hn =>
          injection h with h
          injection h with h
          exact ⟨rfl, by rw [h], by rw [hn]⟩
        · cases h
      all_goals cases h
    · unfold applyStrings at h
      split at h <;> cases h
    · split at h
      · cases h
      · split at h
        · cases h
        · split at h <;> cases h
  · rintro ⟨rfl, rfl, rfl⟩
    rfl

theorem applyUnary_ne_divisionByZero (operator : String) (right : Value) (dividend : Int) :
    applyUnary operator right ≠ .error (.divisionByZero dividend) := by
  intro h
  unfold applyUnary at h
  split at h <;> cases h

theorem applyBinary_quotient (m : Int) (hn : n ≠ 0) :
    applyBinary "/" (.integer m) (.integer n) = .integer (wrap (m.tdiv n)) :=
  if_neg hn

end Value

open Value

/-- On integers of 64 bits, operators are the operations of the machine on the words that hold them.  A quotient is the
one that drops the fraction, but the quotient of the least integer by -1 is the least integer, and that is the only one
that is wrapped around.  A division by zero fails and names the dividend, and nothing else fails so. -/
theorem operators_on_machine_words (hm : IsInteger64 m) (hn : IsInteger64 n) :
    ((word m).toInt = m ∧ (word n).toInt = n) ∧
    (applyBinary "+" (.integer m) (.integer n) = .integer (word m + word n).toInt ∧
      applyBinary "-" (.integer m) (.integer n) = .integer (word m - word n).toInt ∧
      applyBinary "*" (.integer m) (.integer n) = .integer (word m * word n).toInt ∧
      applyUnary "-" (.integer n) = .integer (-word n).toInt) ∧
    (n ≠ 0 → applyBinary "/" (.integer m) (.integer n) = .integer ((word m).sdiv (word n)).toInt ∧
      ∃ q, Truncates m n q ∧ (∀ q', Truncates m n q' → q' = q) ∧
        applyBinary "/" (.integer m) (.integer n) =
          .integer (if m = -9223372036854775808 ∧ n = -1 then -9223372036854775808 else q) ∧
        (wrap q ≠ q ↔ m = -9223372036854775808 ∧ n = -1)) ∧
    ((∀ operator left right dividend, applyBinary operator left right = .error (.divisionByZero dividend) ↔
        operator = "/" ∧ left = .integer dividend ∧ right = .integer 0) ∧
      (∀ operator right dividend, applyUnary operator right ≠ .error (.divisionByZero dividend)) ∧
      (RuntimeError.divisionByZero m).message = "division by zero: " ++ toString m ++ " / 0") ∧
    (applyBinary "<" (.integer m) (.integer n) = .boolean ((word m).slt (word n)) ∧
      applyBinary ">" (.integer m) (.integer n) = .boolean ((word n).slt (word m)) ∧
      applyBinary "==" (.integer m) (.integer n) = .boolean (word m == word n) ∧
      applyBinary "!=" (.integer m) (.integer n) = .boolean (word m != word n)) := by
  refine ⟨⟨toInt_word_of_isInteger64 hm, toInt_word_of_isInteger64 hn⟩, ⟨?_, ?_, ?_, ?_⟩, fun hzero => ⟨?_, ?_⟩,
    ⟨fun _ _ _ _ => applyBinary_eq_divisionByZero_iff, applyUnary_ne_divisionByZero, ?_⟩, ?_, ?_, ?_, ?_⟩
  · rw [toInt_sum]
    rfl
  · rw [toInt_difference]
    rfl
  · rw [toInt_product]
    rfl
  · rw [toInt_negation]
    rfl
  · rw [toInt_quotient hm hn, applyBinary_quotient m hzero]
  · have hexact := isInteger64_tdiv_iff hm hzero
    refine ⟨m.tdiv n, truncates_tdiv m hzero, fun q' hq' => hq'.unique (truncates_tdiv m hzero), ?_, ?_⟩
    · rw [applyBinary_quotient m hzero]
      split
      · next hleast =>
        obtain ⟨rfl, rfl⟩ := hleast
        rfl
      · next hne => rw [wrap_eq_self_iff.2 (hexact.2 hne)]
    · rw [ne_eq, wrap_eq_self_iff, hexact, Decidable.not_not]
  · rfl
  · rw [slt_word hm hn]
    rfl
  · rw [slt_word hn hm]
    rfl
  · rw [beq_word hm hn]
    rfl
  · rw [bne, beq_word hm hn]
    rfl

/-- The one quotient that is wrapped around, and a product that is. -/
theorem operators_on_least_word :
    applyBinary "/" (.integer (-9223372036854775808)) (.integer (-1)) = .integer (-9223372036854775808) ∧
      applyBinary "*" (.integer (-9223372036854775808)) (.integer (-1)) =
        .integer (word (-9223372036854775808) * word (-1)).toInt := by
  obtain ⟨-, ⟨-, -, hproduct, -⟩, hquotient, -⟩ :=
    @operators_on_machine_words (-9223372036854775808) (-1) ⟨by decide, by decide⟩ ⟨by decide, by decide⟩
  obtain ⟨-, q, -, -, hq, -⟩ := hquotient (by decide)
  rw [if_pos ⟨rfl, rfl⟩] at hq
  exact ⟨hq, hproduct⟩

end MonkeyLanguage
