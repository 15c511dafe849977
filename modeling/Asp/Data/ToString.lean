import Asp.Data.Parse

/-! `asp::data::constexprToString` and the round trip through `constexprParse`. -/
namespace Asp.Data

/-- `val = -val` in a signed type; the minimum of a type smaller than `int` is its own negative. -/
def IntType.neg (T : IntType) (val : ℤ) : ℤ := (-val).bmod (2 ^ (8 * T.sizeof))

/-- The loop that appends the digits of `tmp`, the last one first. -/
def digitLoop (tmp : ℤ) (str : List Char) : List Char :=
  if 0 < tmp then digitLoop (tmp / 10) (str ++ [Char.ofNat ('0'.toNat + (tmp % 10).toNat)]) else str
termination_by tmp.toNat
decreasing_by omega

/-- What is returned for the minimum, where the type is in the list of special cases. -/
def minString : IntType → Option (List Char)
  | .int => some "-2147483648".toList
  | .long eightBytes =>
    some (if eightBytes then "-18446744073709551616".toList else "-2147483648".toList)
  | .llong => some "-18446744073709551616".toList
  | .short => some "-32768".toList
  | .uchar => some "-128".toList       -- uint8_t, which is not signed
  | _ => none

/-- The rest of the function, for `val` without its sign. -/
def signedDigits (val : ℤ) (doAddSign : Bool) : List Char :=
  if val = 0 then "0".toList
  else
    let str := digitLoop val []
    (if doAddSign then str ++ ['-'] else str).reverse

def constexprToString (T : IntType) (val : ℤ) : List Char :=
  if T.isSigned = true ∧ val < 0 then
    match if val = T.min then minString T else none with
    | some str => str
    | none => signedDigits (T.neg val) true
  else signedDigits val false

/-- The values of a type. -/
def IntType.Value (T : IntType) : Type := {v : ℤ // T.min ≤ v ∧ v ≤ T.max}

theorem digitChar_eq {d : ℕ} (h : d < 10) : Char.ofNat ('0'.toNat + d) = Nat.digitChar d := by
  revert d
  decide

/-- The loop computes the decimal digits in reverse. -/
theorem digitLoop_reverse (n : ℕ) (h : 0 < n) (str : List Char) :
    (digitLoop n str).reverse = Nat.toDigits 10 n ++ str.reverse := by
  induction n using Nat.strongRecOn generalizing str with
  | ind n ih =>
    have hdiv : ((n : ℤ) / 10) = ((n / 10 : ℕ) : ℤ) := rfl
    have hmod : ((n : ℤ) % 10).toNat = n % 10 := rfl
    rw [digitLoop, if_pos (Int.natCast_pos.mpr h), hdiv, hmod,
      digitChar_eq (Nat.mod_lt n (by omega))]
    by_cases hlt : n < 10
    · rw [Nat.div_eq_of_lt hlt, Nat.mod_eq_of_lt hlt, digitLoop, if_neg (by decide),
        Nat.toDigits_of_lt_base hlt, List.reverse_append]
      rfl
    · have hdigits : Nat.toDigits 10 n = Nat.toDigits 10 (n / 10) ++ [(n % 10).digitChar] :=
        Nat.toDigits_of_base_le (by omega) (Nat.not_lt.mp hlt)
      rw [ih (n / 10) (by omega) (by omega), hdigits, List.reverse_append, List.append_assoc]
      rfl

theorem signedDigits_plain (n : ℕ) : signedDigits n false = Nat.toDigits 10 n := by
  by_cases h : n = 0
  · subst h
    rw [Nat.toDigits_zero]
    rfl
  · rw [signedDigits, if_neg (Int.natCast_eq_zero.not.mpr h)]
    exact (digitLoop_reverse n (Nat.pos_of_ne_zero h) []).trans (List.append_nil _)

theorem signedDigits_signed {n : ℕ} (h : 0 < n) :
    signedDigits n true = '-' :: Nat.toDigits 10 n := by
  rw [signedDigits, if_neg (Int.natCast_eq_zero.not.mpr h.ne')]
  change (digitLoop n [] ++ ['-']).reverse = _
  rw [List.reverse_append, digitLoop_reverse n h, List.reverse_nil, List.append_nil]
  rfl

theorem toDigits_digits (n : ℕ) : ∀ c ∈ Nat.toDigits 10 n, c.isDigit = true :=
  fun _ hc => Nat.isDigit_of_mem_toDigits (by omega) (by omega) hc

section RoundTrip
variable {T : IntType} {n : ℕ}

/-- The digits of a number are read back. -/
theorem parse_digits (h : (n : ℤ) ≤ T.max) :
    (constexprParse T (Nat.toDigits 10 n)).returned = .ok (n : ℤ) := by
  have hs := signs_digits (toDigits_digits n)
  have hlit : isMinLiteral T.sizeof (Nat.toDigits 10 n) = false := by
    refine eq_false_of_ne_true fun hl => ?_
    have h1 := (minLiteral_text hl).1
    omega
  refine (constexprParse_ok_iff fun _ => hlit).mpr ⟨Nat.toDigits_ne_nil,.inl hs,?_,?_,?_⟩
  · rw [body_digits (toDigits_digits n)]
    exact toDigits_digits n
  · rwa [body_digits (toDigits_digits n), Nat.ofDigitChars_ten_toDigits]
  · rw [hs, body_digits (toDigits_digits n), Nat.ofDigitChars_ten_toDigits]
    rfl

/-- So are its digits after a sign, in a signed type. -/
theorem parse_signed_digits (hT : T.isSigned = true) (h : (n : ℤ) ≤ T.max) :
    (constexprParse T ('-' :: Nat.toDigits 10 n)).returned = .ok (-n : ℤ) := by
  have hs := signs_digits (toDigits_digits n)
  have hbody := body_digits (toDigits_digits n)
  have hlit : isMinLiteral T.sizeof ('-' :: Nat.toDigits 10 n) = false := by
    refine eq_false_of_ne_true fun hl => ?_
    have hgt := minLiteral_gt hT hl
    rw [body_sign, hbody, Nat.ofDigitChars_ten_toDigits] at hgt
    omega
  refine (constexprParse_ok_iff fun _ => hlit).mpr ⟨List.cons_ne_nil _ _,.inr hT,?_,?_,?_⟩
  · rw [body_sign, hbody]
    exact toDigits_digits n
  · rwa [body_sign, hbody, Nat.ofDigitChars_ten_toDigits]
  · rw [signs_sign, hs, body_sign, hbody, Nat.ofDigitChars_ten_toDigits]
    rfl

/-- Every negative value but the minimum has its negative in the type. -/
theorem neg_eq (hT : T.isSigned = true) (h : (n : ℤ) ≤ T.max) : T.neg (-n) = n := by
  rw [IntType.max, if_pos hT] at h
  rw [IntType.neg, neg_neg]
  have hpow : (2 : ℕ) ^ (8 * T.sizeof) = 2 * 2 ^ (8 * T.sizeof - 1) := by
    rw [← Nat.pow_succ']
    congr 1
    cases T with
    | long eightBytes | ulong eightBytes => cases eightBytes <;> rfl
    | _ => rfl
  rw [hpow]
  apply Int.bmod_eq_of_le <;> push_cast <;> omega

/-- What is printed for every value that is not a negative minimum. -/
theorem toString_of_nonneg (T : IntType) (n : ℕ) : constexprToString T n = Nat.toDigits 10 n := by
  have hneg : ¬(T.isSigned = true ∧ (n : ℤ) < 0) := fun h => by omega
  rw [constexprToString, if_neg hneg, signedDigits_plain]

theorem toString_of_neg (hT : T.isSigned = true) (h0 : 0 < n) (h : (n : ℤ) ≤ T.max) :
    constexprToString T (-n) = '-' :: Nat.toDigits 10 n := by
  have hlow := IntType.min_signed hT
  rw [constexprToString, if_pos ⟨hT,by omega⟩, if_neg (by omega)]
  change signedDigits (T.neg (-n)) true = _
  rw [neg_eq hT h, signedDigits_signed h0]

/-- The values of a type: its minimum where that is negative, the negatives of its positive values,
and its values from zero on. -/
theorem IntType.Value.cases (v : T.Value) : (T.isSigned = true ∧ v.val = T.min) ∨
    (T.isSigned = true ∧ ∃ n : ℕ, 0 < n ∧ (n : ℤ) ≤ T.max ∧ v.val = -n) ∨
    ∃ n : ℕ, (n : ℤ) ≤ T.max ∧ v.val = n := by
  obtain ⟨v,hmin,hmax⟩ := v
  dsimp only
  rcases Int.lt_or_le v 0 with hneg | hpos
  · have hT : T.isSigned = true := by
      by_contra hT
      rw [IntType.min_unsigned (Bool.not_eq_true _ ▸ hT)] at hmin
      omega
    have hlow := IntType.min_signed hT
    by_cases hv : v = T.min
    · exact .inl ⟨hT,hv⟩
    · exact .inr (.inl ⟨hT,v.natAbs,by omega,by omega,by omega⟩)
  · exact .inr (.inr ⟨v.natAbs,by omega,by omega⟩)

/-- A special case is the literal for the minimum. -/
theorem minString_literal {str : List Char} (hT : T.isSigned = true) (h : minString T = some str) :
    isMinLiteral T.sizeof str = true := by
  cases T with
  | uchar => cases hT
  | long eightBytes =>
    cases h
    cases eightBytes <;> rfl
  | int | llong | short =>
    cases h
    rfl
  | _ => cases h

/-- The minimum of `signed char` is printed as a sign without digits. -/
theorem toString_schar_min : constexprToString .schar (-128) = "-".toList := by
  have hloop : digitLoop (-128) [] = [] := by
    rw [digitLoop]
    rfl
  change (digitLoop (-128) [] ++ ['-']).reverse = "-".toList
  rw [hloop]
  rfl

/-- A minimum is printed as the literal, except for that of `signed char`. -/
theorem toString_min (hT : T.isSigned = true) :
    T = .schar ∨ T ≠ .schar ∧ isMinLiteral T.sizeof (constexprToString T T.min) = true := by
  have hmin : T.min < 0 := by
    have hmax := T.max_ge
    have hlow := IntType.min_signed hT
    omega
  cases hstr : minString T with
  | some str =>
    refine .inr ⟨?_,?_⟩
    · rintro rfl
      cases hstr
    · rw [constexprToString, if_pos ⟨hT,hmin⟩, if_pos rfl, hstr]
      exact minString_literal hT hstr
  | none =>
    left
    cases T with
    | schar => rfl
    | int | llong | short | long _ => cases hstr
    | _ => cases hT

theorem parse_toString_min (hT : T.isSigned = true) :
    (constexprParse T (constexprToString T T.min)).returned = .ok T.min ↔ T ≠ .schar := by
  rcases toString_min hT with rfl | ⟨hne,hlit⟩
  · refine iff_of_false ?_ (not_not.mpr rfl)
    change (constexprParse .schar (constexprToString .schar (-128))).returned ≠ .ok (-128)
    rw [toString_schar_min]
    exact nofun
  · exact iff_of_true (constexprParse_minLiteral hT hlit) hne

/-- Only the minimum of `signed char` is not read back: it is missing among the special cases. -/
theorem parse_toString_iff (T : IntType) (v : T.Value) :
    (constexprParse T (constexprToString T v.val)).returned = .ok v.val ↔
      ¬(T = .schar ∧ v.val = -128) := by
  rcases v.cases with ⟨hT,hv⟩ | ⟨hT,n,h0,hle,hv⟩ | ⟨n,hle,hv⟩ <;> rw [hv]
  · rw [parse_toString_min hT]
    refine not_congr (and_iff_left_of_imp ?_).symm
    rintro rfl
    rfl
  · rw [toString_of_neg hT h0 hle]
    refine iff_of_true (parse_signed_digits hT hle) ?_
    rintro ⟨rfl,h⟩
    have hmax : IntType.schar.max = 127 := rfl
    omega
  · rw [toString_of_nonneg]
    refine iff_of_true (parse_digits hle) ?_
    rintro ⟨-,h⟩
    omega

theorem schar_min_not_read_back :
    ¬∀ (T : IntType) (v : T.Value),
      (constexprParse T (constexprToString T v.val)).returned = .ok v.val := by
  intro h
  have h128 := h .schar ⟨-128,by decide⟩
  change (constexprParse .schar (constexprToString .schar (-128))).returned = .ok (-128) at h128
  rw [toString_schar_min] at h128
  cases h128

end RoundTrip

/-- The numeral that a value is written as. -/
structure Canonical (T : IntType) (str : List Char) (v : ℤ) : Prop where
  denotes : Numeral T str v
  leading : ∀ ds, str = '0' :: ds ∨ str = '-' :: '0' :: ds → str = "0".toList
  sign : str.head? = some '-' ↔ v < 0

section Numerals
variable {T : IntType} {n : ℕ}

/-- A number of more than one digit does not start with a zero. -/
lemma toDigits_leading {ds : List Char} (h : Nat.toDigits 10 n = '0' :: ds) : n = 0 := by
  induction n using Nat.strongRecOn generalizing ds with
  | ind n ih =>
    by_cases hlt : n < 10
    · rw [Nat.toDigits_of_lt_base hlt] at h
      have hzero : ∀ n < 10, Nat.digitChar n = '0' → n = 0 := by decide
      exact hzero n hlt (List.cons.inj h).1
    · rw [Nat.toDigits_of_base_le (by omega) (Nat.not_lt.mp hlt)] at h
      obtain ⟨c,cs,hcs⟩ := List.exists_cons_of_ne_nil (Nat.toDigits_ne_nil (b := 10) (n := n / 10))
      rw [hcs] at h
      obtain ⟨rfl,-⟩ := List.cons.inj h
      have hzero := ih (n / 10) (by omega) hcs
      omega

lemma toDigits_head (n : ℕ) : (Nat.toDigits 10 n).head? ≠ some '-' := by
  intro h
  have hmem := toDigits_digits n '-' (List.mem_of_head? h)
  cases hmem

/-- The digits of a number are its numeral. -/
lemma canonical_plain (T : IntType) (n : ℕ) : Canonical T (Nat.toDigits 10 n) n where
  denotes := by
    have h := Numeral.plain (T := T) (Nat.toDigits_ne_nil (b := 10) (n := n)) (toDigits_digits n)
    rwa [Nat.ofDigitChars_ten_toDigits] at h
  leading ds h := by
    rcases h with h | h
    · rw [toDigits_leading h]
      rfl
    · exact absurd (by rw [h]; rfl) (toDigits_head n)
  sign := iff_of_false (toDigits_head n) (by omega)

lemma canonical_signed (hT : T.isSigned = true) (h : 0 < n) :
    Canonical T ('-' :: Nat.toDigits 10 n) (-n : ℤ) where
  denotes := by
    have h := Numeral.signed hT (Nat.toDigits_ne_nil (b := 10) (n := n)) (toDigits_digits n)
    rwa [Nat.ofDigitChars_ten_toDigits] at h
  leading ds h' := by
    rcases h' with h' | h'
    · cases (List.cons.inj h').1
    · rw [toDigits_leading (List.cons.inj h').2] at h
      exact absurd h (Nat.lt_irrefl 0)
  sign := iff_of_true rfl (by omega)

/-- The literal is the numeral of the minimum below eight bytes. -/
lemma canonical_min (hT : T.isSigned = true) :
    Canonical T (constexprToString T T.min) T.min ↔ T ≠ .schar ∧ T.sizeof ≠ 8 := by
  have hmax := T.max_ge
  have hlow := IntType.min_signed hT
  rcases toString_min hT with rfl | ⟨hne,hlit⟩
  · refine iff_of_false (fun h => ?_) fun h => h.1 rfl
    have hnum : Numeral .schar (constexprToString .schar (-128)) (-128) := h.denotes
    rw [toString_schar_min] at hnum
    exact (numeral_iff.mp hnum).1 rfl
  · rw [and_iff_right hne]
    constructor
    · intro h h8
      obtain ⟨-,hbody,⟨h0,-⟩ | ⟨-,-,hv⟩⟩ := numeral_iff.mp h.denotes
      · rw [(minLiteral_text hlit).1] at h0
        cases h0
      · obtain ⟨hn,-⟩ | ⟨-,htxt⟩ | ⟨hn,-⟩ | ⟨hn,-⟩ := isMinLiteral_cases hlit
        · omega
        · have hdigits : Nat.ofDigitChars 10 (body "-18446744073709551616".toList) 0 = 2^64 := by
            decide
          rw [htxt, hdigits, IntType.min, if_pos hT, h8] at hv
          omega
        · omega
        · omega
    · intro h8
      have hhead : (constexprToString T T.min).head? = some '-' := by
        obtain ⟨-,h⟩ | ⟨-,h⟩ | ⟨-,h⟩ | ⟨-,h⟩ := isMinLiteral_cases hlit <;> rw [h] <;> rfl
      refine ⟨minLiteral_numeral hT hlit h8,fun ds h => ?_,iff_of_true hhead (by omega)⟩
      obtain ⟨-,hs⟩ | ⟨-,hs⟩ | ⟨-,hs⟩ | ⟨-,hs⟩ := isMinLiteral_cases hlit <;> rw [hs] at h <;>
        rcases h with h | h <;> cases h

end Numerals

/-- A value is written as its numeral, except for two kinds of minima: that of `signed char` is
missing among the special cases, and the one that stands there for eight bytes is wrong. -/
theorem canonical_iff (T : IntType) (v : T.Value) :
    Canonical T (constexprToString T v.val) v.val ↔
      ¬(T.isSigned = true ∧ v.val = T.min ∧ (T = .schar ∨ T.sizeof = 8)) := by
  rcases v.cases with ⟨hT,hv⟩ | ⟨hT,n,h0,hle,hv⟩ | ⟨n,hle,hv⟩ <;> rw [hv]
  · rw [canonical_min hT]
    tauto
  · rw [toString_of_neg hT h0 hle]
    refine iff_of_true (canonical_signed hT h0) ?_
    rintro ⟨-,h,-⟩
    have hlow := IntType.min_signed hT
    omega
  · rw [toString_of_nonneg]
    refine iff_of_true (canonical_plain T n) ?_
    rintro ⟨hT,h,-⟩
    have hlow := IntType.min_signed hT
    omega

theorem llong_min_not_canonical :
    constexprToString .llong (-9223372036854775808) = "-18446744073709551616".toList ∧
      ¬∀ (T : IntType) (v : T.Value), Canonical T (constexprToString T v.val) v.val := by
  refine ⟨by decide +kernel,fun h => ?_⟩
  have h128 := (h .schar ⟨-128,by decide⟩).denotes
  change Numeral .schar (constexprToString .schar (-128)) (-128) at h128
  rw [toString_schar_min] at h128
  exact (numeral_iff.mp h128).1 rfl

end Asp.Data
