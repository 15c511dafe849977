import Mathlib.Tactic.Linarith
import Mathlib.Tactic.Ring

/-! `asp::data::constexprParse` at run time, over exact integers. Characters are `char` values;
only digits and the sign are told apart. -/
namespace Asp.Data

/-- The integer types. The size of `long` depends on the platform. -/
inductive IntType
  | schar | uchar | short | ushort | int | uint
  | long (eightBytes : Bool)
  | ulong (eightBytes : Bool)
  | llong | ullong
  deriving DecidableEq

namespace IntType

def sizeof : IntType → ℕ
  | schar | uchar => 1
  | short | ushort => 2
  | int | uint => 4
  | long eightBytes | ulong eightBytes => if eightBytes then 8 else 4
  | llong | ullong => 8

/-- `std::is_signed_v` -/
def isSigned : IntType → Bool
  | schar | short | int | long _ | llong => true
  | uchar | ushort | uint | ulong _ | ullong => false

/-- `std::numeric_limits<T>::min()` -/
def min (T : IntType) : ℤ := if T.isSigned then -2 ^ (8 * T.sizeof - 1) else 0

/-- `std::numeric_limits<T>::max()` -/
def max (T : IntType) : ℤ :=
  if T.isSigned then 2 ^ (8 * T.sizeof - 1) - 1 else 2 ^ (8 * T.sizeof) - 1

theorem min_signed {T : IntType} (h : T.isSigned = true) : T.min = -T.max - 1 := by
  rw [min, max, if_pos h, if_pos h]
  omega

theorem min_unsigned {T : IntType} (h : T.isSigned = false) : T.min = 0 := by
  rw [min, if_neg (ne_true_of_eq_false h)]

theorem max_ge (T : IntType) : 127 ≤ T.max := by
  cases T with
  | long eightBytes | ulong eightBytes => cases eightBytes <;> decide
  | _ => decide

theorem min_le_zero (T : IntType) : T.min ≤ 0 := by
  have hmax := T.max_ge
  cases hT : T.isSigned with
  | true =>
    rw [min_signed hT]
    omega
  | false => rw [min_unsigned hT]

end IntType

/-- The literals that stand for the minimum value. -/
def isMinLiteral (size : ℕ) (txt : List Char) : Bool :=
  (size == 4 && txt == "-2147483648".toList) ||
  (size == 8 && txt == "-18446744073709551616".toList) ||
  (size == 2 && txt == "-32768".toList) ||
  (size == 1 && txt == "-128".toList)

/-- What a call does: the values that it gives to `result` one after the other, and the value
that it returns or the message of the failed assertion. -/
structure Parse where
  results : List ℤ
  returned : Except String ℤ

/-- `c - '0'` for a digit -/
def digit (c : Char) : ℕ := c.toNat - '0'.toNat

/-- The loop over the characters and what follows it. -/
def parseLoop (T : IntType) (txt : List Char) : List Char → ℤ → Bool → ℕ → Parse
  | [], result, neg, _ => ⟨[],.ok (if neg then -result else result)⟩
  | c :: cs, result, neg, idx =>
    if c = '-' then
      if T.isSigned = false then
        ⟨[],.error "expected unsigned type, but found negative sign"⟩
      else if isMinLiteral T.sizeof txt then ⟨[],.ok T.min⟩
      else if idx = 0 then parseLoop T txt cs result true idx
      else ⟨[],.error "unexpected negative sign in the middle of the number"⟩
    else if c < '0' ∨ c > '9' then ⟨[],.error "unexpected character in number"⟩
    else if result > (T.max - digit c) / 10 then ⟨[],.error "overflow in number"⟩
    else
      let rest := parseLoop T txt cs (result * 10 + digit c) neg (idx + 1)
      { rest with results := (result * 10 + digit c) :: rest.results }

def constexprParse (T : IntType) (txt : List Char) : Parse :=
  if txt = [] then ⟨[],.error "empty string passed to constexprParse"⟩
  else parseLoop T txt txt 0 false 0

/-- The integers written in decimal: digits, after one sign where `T` is signed. -/
inductive Numeral (T : IntType) : List Char → ℤ → Prop
  | plain {ds : List Char} (hne : ds ≠ []) (hd : ∀ c ∈ ds, c.isDigit = true) :
      Numeral T ds (Nat.ofDigitChars 10 ds 0)
  | signed {ds : List Char} (hT : T.isSigned = true) (hne : ds ≠ [])
      (hd : ∀ c ∈ ds, c.isDigit = true) : Numeral T ('-' :: ds) (-(Nat.ofDigitChars 10 ds 0))

/-- The text is parsed as it should be: it is accepted exactly as a numeral in range, and `result`
stays in range. -/
structure ParsesExactly (T : IntType) (txt : List Char) : Prop where
  returned : ∀ v, (constexprParse T txt).returned = .ok v ↔
    Numeral T txt v ∧ T.min ≤ v ∧ v ≤ T.max
  results : ∀ r ∈ (constexprParse T txt).results, T.min ≤ r ∧ r ≤ T.max

/-- The number of signs at the start. -/
def signs (txt : List Char) : ℕ := (txt.takeWhile (· = '-')).length

/-- What follows the signs at the start. -/
def body (txt : List Char) : List Char := txt.dropWhile (· = '-')

section Text

theorem signs_sign (cs : List Char) : signs ('-' :: cs) = signs cs + 1 := rfl

theorem body_sign (cs : List Char) : body ('-' :: cs) = body cs := rfl

theorem signs_other {c : Char} (hc : c ≠ '-') (cs : List Char) : signs (c :: cs) = 0 := by
  simp [signs, hc]

theorem body_other {c : Char} (hc : c ≠ '-') (cs : List Char) : body (c :: cs) = c :: cs := by
  simp [body, hc]

theorem isDigit_iff (c : Char) : c.isDigit = true ↔ ¬(c < '0' ∨ c > '9') := by
  have h0 : c < '0' ↔ ¬('0'.val ≤ c.val) := (UInt32.not_le).symm
  have h9 : c > '9' ↔ ¬(c.val ≤ '9'.val) := (UInt32.not_le).symm
  rw [h0, h9, ← not_and_or, not_not]
  simp [Char.isDigit]

theorem ne_sign {c : Char} (h : c.isDigit = true) : c ≠ '-' := by
  rintro rfl
  cases h

/-- Digits contain no sign. -/
theorem signs_digits {ds : List Char} (h : ∀ c ∈ ds, c.isDigit = true) : signs ds = 0 := by
  cases ds with
  | nil => rfl
  | cons c cs => exact signs_other (ne_sign (h c List.mem_cons_self)) cs

theorem body_digits {ds : List Char} (h : ∀ c ∈ ds, c.isDigit = true) : body ds = ds := by
  cases ds with
  | nil => rfl
  | cons c cs => exact body_other (ne_sign (h c List.mem_cons_self)) cs

theorem eq_body {txt : List Char} (h : signs txt = 0) : txt = body txt := by
  cases txt with
  | nil => rfl
  | cons c cs =>
    by_cases hc : c = '-'
    · subst hc
      cases h
    · exact (body_other hc cs).symm

theorem eq_sign_body {txt : List Char} (h : signs txt = 1) : txt = '-' :: body txt := by
  cases txt with
  | nil => cases h
  | cons c cs =>
    by_cases hc : c = '-'
    · subst hc
      rw [body_sign, ← eq_body (Nat.succ.inj h)]
    · rw [signs_other hc] at h
      cases h

/-- A numeral has at most one sign, and its body is its digits. -/
theorem numeral_iff {T : IntType} {txt : List Char} {v : ℤ} :
    Numeral T txt v ↔ body txt ≠ [] ∧ (∀ c ∈ body txt, c.isDigit = true) ∧
      (signs txt = 0 ∧ v = Nat.ofDigitChars 10 (body txt) 0 ∨
        T.isSigned = true ∧ signs txt = 1 ∧ v = -(Nat.ofDigitChars 10 (body txt) 0)) := by
  constructor
  · intro h
    cases h with
    | plain hne hd =>
      rw [body_digits hd, signs_digits hd]
      exact ⟨hne,hd,.inl ⟨rfl,rfl⟩⟩
    | signed hT hne hd =>
      rw [body_sign, signs_sign, body_digits hd, signs_digits hd]
      exact ⟨hne,hd,.inr ⟨hT,rfl,rfl⟩⟩
  · rintro ⟨hne,hd,⟨hs,rfl⟩ | ⟨hT,hs,rfl⟩⟩
    · have h := Numeral.plain (T := T) hne hd
      rwa [← eq_body hs] at h ⊢
    · have h := Numeral.signed hT hne hd
      rwa [← eq_sign_body hs] at h

/-- More digits make the number no smaller. -/
theorem le_ofDigitChars (ds : List Char) (r : ℕ) : r ≤ Nat.ofDigitChars 10 ds r := by
  rw [Nat.ofDigitChars_eq_ofDigitChars_zero]
  have h := Nat.mul_le_mul_right r (Nat.one_le_pow ds.length 10 (by omega))
  omega

end Text

section Loop
variable {T : IntType} {txt : List Char} {v : ℤ}

/-- The value with the sign that the loop has seen. -/
def withSign (neg : Bool) (n : ℕ) : ℤ := if neg then -n else n

/-- One turn of the loop for a character that is no sign. -/
theorem parseLoop_other {c : Char} (hc : c ≠ '-') (cs : List Char) (r : ℕ) (neg : Bool) (idx : ℕ) :
    (parseLoop T txt (c :: cs) r neg idx).returned = .ok v ↔
      c.isDigit = true ∧ ((10 * r + digit c : ℕ) : ℤ) ≤ T.max ∧
        (parseLoop T txt cs (10 * r + digit c : ℕ) neg (idx + 1)).returned = .ok v := by
  have hval : (r : ℤ) * 10 + digit c = (10 * r + digit c : ℕ) := by
    push_cast
    omega
  rw [parseLoop, if_neg hc, isDigit_iff]
  split_ifs with hd ho
  · exact ⟨nofun,fun h => absurd hd h.1⟩
  · refine ⟨nofun,fun h => ?_⟩
    have hle := h.2.1
    omega
  · rw [hval]
    have hle : ((10 * r + digit c : ℕ) : ℤ) ≤ T.max := by omega
    exact ⟨fun h => ⟨hd,hle,h⟩,fun h => h.2.2⟩

/-- Once there is no sign to come, or the first digit is past, the loop takes digits only. -/
theorem parseLoop_digits (hlit : T.isSigned = true → isMinLiteral T.sizeof txt = false)
    (neg : Bool) (cs : List Char) (r idx : ℕ) (hr : (r : ℤ) ≤ T.max)
    (hs : idx ≠ 0 ∨ signs cs = 0) :
    (parseLoop T txt cs r neg idx).returned = .ok v ↔
      (∀ c ∈ cs, c.isDigit = true) ∧ (Nat.ofDigitChars 10 cs r : ℤ) ≤ T.max ∧
        v = withSign neg (Nat.ofDigitChars 10 cs r) := by
  induction cs generalizing r idx with
  | nil =>
    rw [Nat.ofDigitChars_nil]
    constructor
    · intro h
      exact ⟨nofun,hr,(Except.ok.inj h).symm⟩
    · rintro ⟨-,-,rfl⟩
      rfl
  | cons c cs ih =>
    by_cases hc : c = '-'
    · -- the sign is refused, whatever the type
      subst hc
      have hidx : idx ≠ 0 := hs.resolve_right (by rw [signs_sign]; exact Nat.succ_ne_zero _)
      refine iff_of_false ?_ fun h => ne_sign (h.1 '-' List.mem_cons_self) rfl
      rw [parseLoop, if_pos rfl]
      split_ifs with hsigned hl
      · exact nofun
      · rw [hlit (eq_true_of_ne_false hsigned)] at hl
        cases hl
      · exact nofun
    · have hidx : idx + 1 ≠ 0 := Nat.succ_ne_zero idx
      rw [parseLoop_other hc, Nat.ofDigitChars_cons, List.forall_mem_cons, and_assoc]
      refine and_congr_right fun _ => ?_
      constructor
      · rintro ⟨hle,h⟩
        exact (ih (10 * r + digit c) (idx + 1) hle (.inl hidx)).mp h
      · intro h
        have hge := le_ofDigitChars cs (10 * r + digit c)
        have hle : ((10 * r + digit c : ℕ) : ℤ) ≤ T.max :=
          (Int.ofNat_le.mpr hge).trans h.2.1
        exact ⟨hle,(ih (10 * r + digit c) (idx + 1) hle (.inl hidx)).mpr h⟩

theorem parseLoop_unsigned (hlit : T.isSigned = true → isMinLiteral T.sizeof txt = false)
    (neg : Bool) {cs : List Char} (h0 : signs cs = 0) :
    (parseLoop T txt cs 0 neg 0).returned = .ok v ↔
      (signs cs = 0 ∨ T.isSigned = true) ∧ (∀ c ∈ body cs, c.isDigit = true) ∧
        (Nat.ofDigitChars 10 (body cs) 0 : ℤ) ≤ T.max ∧
        v = withSign (neg || signs cs != 0) (Nat.ofDigitChars 10 (body cs) 0) := by
  have hmax := T.max_ge
  have hr : ((0 : ℕ) : ℤ) ≤ T.max := by omega
  have hsign : (neg || (0 : ℕ) != 0) = neg := Bool.or_false neg
  rw [and_iff_right (Or.inl h0), ← eq_body h0, h0, hsign]
  exact parseLoop_digits hlit neg cs 0 0 hr (.inr h0)

/-- The loop from the start: the sign does not count in `idx`, so any number of them is taken. -/
theorem parseLoop_signs (hlit : T.isSigned = true → isMinLiteral T.sizeof txt = false)
    (neg : Bool) (cs : List Char) :
    (parseLoop T txt cs 0 neg 0).returned = .ok v ↔
      (signs cs = 0 ∨ T.isSigned = true) ∧ (∀ c ∈ body cs, c.isDigit = true) ∧
        (Nat.ofDigitChars 10 (body cs) 0 : ℤ) ≤ T.max ∧
        v = withSign (neg || signs cs != 0) (Nat.ofDigitChars 10 (body cs) 0) := by
  induction cs generalizing neg with
  | nil => exact parseLoop_unsigned hlit neg rfl
  | cons c cs ih =>
    by_cases hc : c = '-'
    · subst hc
      rw [signs_sign, body_sign, parseLoop, if_pos rfl]
      split_ifs with hs hl h0
      · refine iff_of_false nofun fun h => ?_
        obtain h0 | h0 := h.1
        · cases h0
        · cases hs.symm.trans h0
      · rw [hlit (eq_true_of_ne_false hs)] at hl
        cases hl
      · have hsign : (neg || signs cs + 1 != 0) = (true || signs cs != 0) := by
          cases neg <;> rfl
        rw [ih true, hsign]
        exact and_congr_left' (iff_of_true (.inr (eq_true_of_ne_false hs))
          (.inr (eq_true_of_ne_false hs)))
      · exact absurd rfl h0
    · exact parseLoop_unsigned hlit neg (signs_other hc cs)

/-- `result` stays between 0 and the maximum. -/
theorem parseLoop_results (cs : List Char) (r : ℤ) (neg : Bool) (idx : ℕ) (hr : 0 ≤ r) :
    ∀ x ∈ (parseLoop T txt cs r neg idx).results, 0 ≤ x ∧ x ≤ T.max := by
  induction cs generalizing r neg idx with
  | nil => exact nofun
  | cons c cs ih =>
    rw [parseLoop]
    split_ifs with hc hs hl h0 hd ho
    · exact nofun
    · exact nofun
    · exact ih r true idx hr
    · exact nofun
    · exact nofun
    · exact nofun
    · refine List.forall_mem_cons.mpr ⟨?_,ih _ neg (idx + 1) ?_⟩ <;> omega

/-- What is accepted, unless the text is the literal for the minimum. -/
theorem constexprParse_ok_iff (hlit : T.isSigned = true → isMinLiteral T.sizeof txt = false) :
    (constexprParse T txt).returned = .ok v ↔ txt ≠ [] ∧
      (signs txt = 0 ∨ T.isSigned = true) ∧ (∀ c ∈ body txt, c.isDigit = true) ∧
        (Nat.ofDigitChars 10 (body txt) 0 : ℤ) ≤ T.max ∧
        v = withSign (signs txt != 0) (Nat.ofDigitChars 10 (body txt) 0) := by
  unfold constexprParse
  split_ifs with h
  · exact ⟨nofun,fun h' => absurd h h'.1⟩
  · rw [and_iff_right h]
    exact parseLoop_signs hlit false txt

/-- The literal for the minimum is recognised at its sign. -/
theorem constexprParse_minLiteral (hT : T.isSigned = true)
    (hlit : isMinLiteral T.sizeof txt = true) : (constexprParse T txt).returned = .ok T.min := by
  have hsign : ∃ cs, txt = '-' :: cs := by
    simp only [isMinLiteral, Bool.or_eq_true, Bool.and_eq_true, beq_iff_eq] at hlit
    obtain ((⟨-,rfl⟩ | ⟨-,rfl⟩) | ⟨-,rfl⟩) | ⟨-,rfl⟩ := hlit <;> exact ⟨_,rfl⟩
  obtain ⟨cs,rfl⟩ := hsign
  rw [constexprParse, if_neg (List.cons_ne_nil '-' cs), parseLoop, if_pos rfl,
    if_neg (ne_false_of_eq_true hT), if_pos hlit]

end Loop

/-- The texts that are misread: those with a wrong number of signs or no digits that are accepted,
the minimum in any other spelling than its literal, and the literal itself for eight bytes, which
is that of another number. -/
inductive Misread (T : IntType) (txt : List Char) : Prop
  | signs (hT : T.isSigned = true) (hs : 2 ≤ signs txt ∨ signs txt = 1 ∧ body txt = [])
      (hd : ∀ c ∈ body txt, c.isDigit = true)
      (hle : (Nat.ofDigitChars 10 (body txt) 0 : ℤ) ≤ T.max)
  | minimum (hT : T.isSigned = true) (hs : signs txt = 1) (hd : ∀ c ∈ body txt, c.isDigit = true)
      (hv : (Nat.ofDigitChars 10 (body txt) 0 : ℤ) = T.max + 1)
      (hlit : isMinLiteral T.sizeof txt = false)
  | literal (hT : T.isSigned = true) (h8 : T.sizeof = 8)
      (h : txt = "-18446744073709551616".toList)

section Exact
variable {T : IntType} {txt : List Char}

theorem isMinLiteral_cases {size : ℕ} (h : isMinLiteral size txt = true) :
    size = 4 ∧ txt = "-2147483648".toList ∨ size = 8 ∧ txt = "-18446744073709551616".toList ∨
      size = 2 ∧ txt = "-32768".toList ∨ size = 1 ∧ txt = "-128".toList := by
  simpa only [isMinLiteral, Bool.or_eq_true, Bool.and_eq_true, beq_iff_eq, or_assoc] using h

theorem minLiteral_text {size : ℕ} (h : isMinLiteral size txt = true) :
    signs txt = 1 ∧ body txt ≠ [] ∧ ∀ c ∈ body txt, c.isDigit = true := by
  obtain ⟨-,rfl⟩ | ⟨-,rfl⟩ | ⟨-,rfl⟩ | ⟨-,rfl⟩ := isMinLiteral_cases h <;>
    exact ⟨rfl,List.cons_ne_nil _ _,List.all_eq_true.mp rfl⟩

/-- Below eight bytes the literal is the numeral of the minimum. -/
theorem minLiteral_numeral (hT : T.isSigned = true) (h : isMinLiteral T.sizeof txt = true)
    (h8 : T.sizeof ≠ 8) : Numeral T txt T.min := by
  obtain ⟨hs,hne,hd⟩ := minLiteral_text h
  refine numeral_iff.mpr ⟨hne,hd,.inr ⟨hT,hs,?_⟩⟩
  rw [IntType.min, if_pos hT]
  obtain ⟨hn,rfl⟩ | ⟨hn,rfl⟩ | ⟨hn,rfl⟩ | ⟨hn,rfl⟩ := isMinLiteral_cases h
  · rw [hn]
    decide
  · exact absurd hn h8
  · rw [hn]
    decide
  · rw [hn]
    decide

/-- The literal denotes a number beyond the maximum. -/
theorem minLiteral_gt (hT : T.isSigned = true) (h : isMinLiteral T.sizeof txt = true) :
    T.max < Nat.ofDigitChars 10 (body txt) 0 := by
  rw [IntType.max, if_pos hT]
  obtain ⟨hn,rfl⟩ | ⟨hn,rfl⟩ | ⟨hn,rfl⟩ | ⟨hn,rfl⟩ := isMinLiteral_cases h <;> rw [hn] <;> decide

theorem Numeral.unique {v v' : ℤ} (h : Numeral T txt v) (h' : Numeral T txt v') : v = v' := by
  obtain ⟨-,-,hv⟩ := numeral_iff.mp h
  obtain ⟨-,-,hv'⟩ := numeral_iff.mp h'
  omega

/-- The literal is read as the minimum, which is right for the smaller types. -/
theorem parsesExactly_minLiteral (hT : T.isSigned = true)
    (hlit : isMinLiteral T.sizeof txt = true) :
    (∀ v, (constexprParse T txt).returned = .ok v ↔ Numeral T txt v ∧ T.min ≤ v ∧ v ≤ T.max) ↔
      ¬Misread T txt := by
  have hmax := T.max_ge
  have hmin := IntType.min_signed hT
  obtain ⟨hs,hne,hd⟩ := minLiteral_text hlit
  rw [constexprParse_minLiteral hT hlit]
  by_cases h8 : T.sizeof = 8
  · have htxt : txt = "-18446744073709551616".toList := by
      obtain ⟨hn,-⟩ | ⟨-,h⟩ | ⟨hn,-⟩ | ⟨hn,-⟩ := isMinLiteral_cases hlit
      · omega
      · exact h
      · omega
      · omega
    refine iff_of_false (fun h => ?_) (not_not.mpr (.literal hT h8 htxt))
    obtain ⟨hnum,-⟩ := (h T.min).mp rfl
    obtain ⟨-,-,⟨h0,-⟩ | ⟨-,-,hv⟩⟩ := numeral_iff.mp hnum
    · rw [hs] at h0
      cases h0
    · rw [IntType.min, if_pos hT, h8, htxt] at hv
      revert hv
      decide
  · have hnum := minLiteral_numeral hT hlit h8
    refine iff_of_true (fun v => ⟨fun h => ?_,fun h => ?_⟩) fun hm => ?_
    · obtain rfl := Except.ok.inj h
      exact ⟨hnum,le_rfl,by omega⟩
    · rw [hnum.unique h.1]
    · cases hm with
      | signs _ hs' _ _ =>
        obtain h2 | ⟨-,hnil⟩ := hs'
        · omega
        · exact hne hnil
      | minimum _ _ _ _ hl => exact ne_true_of_eq_false hl hlit
      | literal _ h8' _ => exact h8 h8'

/-- Elsewhere the code and the grammar differ on the misread texts only. -/
theorem parsesExactly_other (hlit : T.isSigned = true → isMinLiteral T.sizeof txt = false) :
    (∀ v, (constexprParse T txt).returned = .ok v ↔ Numeral T txt v ∧ T.min ≤ v ∧ v ≤ T.max) ↔
      ¬Misread T txt := by
  have hmax := T.max_ge
  constructor
  · intro h hm
    cases hm with
    | signs hT hs hd hle =>
      have hne : txt ≠ [] := by
        rintro rfl
        obtain h2 | ⟨h1,-⟩ := hs
        · cases h2
        · cases h1
      obtain ⟨hnum,-⟩ := (h _).mp ((constexprParse_ok_iff hlit).mpr ⟨hne,.inr hT,hd,hle,rfl⟩)
      obtain ⟨hbody,-,hsign⟩ := numeral_iff.mp hnum
      obtain h2 | ⟨-,hnil⟩ := hs
      · omega
      · exact hbody hnil
    | minimum hT hs hd hv hl =>
      have hmin := IntType.min_signed hT
      have hne : body txt ≠ [] := by
        intro hnil
        rw [hnil, Nat.ofDigitChars_nil] at hv
        omega
      have hnum : Numeral T txt T.min := numeral_iff.mpr ⟨hne,hd,.inr ⟨hT,hs,by omega⟩⟩
      have hok := (h T.min).mpr ⟨hnum,le_rfl,by omega⟩
      have hle := ((constexprParse_ok_iff hlit).mp hok).2.2.2.1
      omega
    | literal hT h8 htxt =>
      have hl := hlit hT
      rw [h8, htxt] at hl
      revert hl
      decide
  · intro hm v
    rw [constexprParse_ok_iff hlit, numeral_iff]
    constructor
    · rintro ⟨hne,hT,hd,hle,rfl⟩
      by_cases h0 : signs txt = 0
      · rw [h0]
        have hmin := T.min_le_zero
        refine ⟨⟨?_,hd,.inl ⟨rfl,rfl⟩⟩,?_,hle⟩
        · rwa [← eq_body h0]
        · change T.min ≤ (Nat.ofDigitChars 10 (body txt) 0 : ℤ)
          omega
      · replace hT := hT.resolve_left h0
        have hmin := IntType.min_signed hT
        have h1 : signs txt = 1 := by
          by_contra hs
          exact hm (.signs hT (.inl (by omega)) hd hle)
        have hbody : body txt ≠ [] := fun hnil => hm (.signs hT (.inr ⟨h1,hnil⟩) hd hle)
        have hv : withSign (signs txt != 0) (Nat.ofDigitChars 10 (body txt) 0) =
            -(Nat.ofDigitChars 10 (body txt) 0) := by
          rw [h1]
          rfl
        rw [hv]
        exact ⟨⟨hbody,hd,.inr ⟨hT,h1,rfl⟩⟩,by omega,by omega⟩
    · rintro ⟨⟨hne,hd,⟨hs,rfl⟩ | ⟨hT,hs,rfl⟩⟩,hlo,hhi⟩
      · rw [hs]
        refine ⟨?_,.inl rfl,hd,hhi,rfl⟩
        rwa [eq_body hs]
      · have hmin := IntType.min_signed hT
        have hle : (Nat.ofDigitChars 10 (body txt) 0 : ℤ) ≤ T.max := by
          by_contra hgt
          exact hm (.minimum hT hs hd (by omega) (hlit hT))
        rw [hs]
        refine ⟨?_,.inr hT,hd,hle,rfl⟩
        rw [eq_sign_body hs]
        exact List.cons_ne_nil '-' (body txt)

/-- The parser is exact on every text that is not misread, and on no other. -/
theorem parsesExactly_iff (T : IntType) (txt : List Char) :
    ParsesExactly T txt ↔ ¬Misread T txt := by
  have hresults : ∀ r ∈ (constexprParse T txt).results, T.min ≤ r ∧ r ≤ T.max := by
    intro r hr
    unfold constexprParse at hr
    split_ifs at hr with h
    · cases hr
    · have hrange := parseLoop_results txt 0 false 0 le_rfl r hr
      exact ⟨T.min_le_zero.trans hrange.1,hrange.2⟩
  have hiff : ParsesExactly T txt ↔ ∀ v, (constexprParse T txt).returned = .ok v ↔
      Numeral T txt v ∧ T.min ≤ v ∧ v ≤ T.max :=
    ⟨fun h => h.returned,fun h => ⟨h,hresults⟩⟩
  rw [hiff]
  by_cases h : T.isSigned = true ∧ isMinLiteral T.sizeof txt = true
  · exact parsesExactly_minLiteral h.1 h.2
  · exact parsesExactly_other fun hT => eq_false_of_ne_true fun hl => h ⟨hT,hl⟩

end Exact

/-- A sign without digits, two signs, and two spellings of a minimum: one that means another
number is accepted, the right one is not. -/
theorem misread_texts :
    (constexprParse .int "-".toList).returned = .ok 0 ∧
    (constexprParse .int "--5".toList).returned = .ok (-5) ∧
    (constexprParse .llong "-18446744073709551616".toList).returned = .ok (-9223372036854775808) ∧
    (constexprParse .llong "-9223372036854775808".toList).returned =
      .error "overflow in number" ∧
    ¬∀ T txt, ParsesExactly T txt := by
  refine ⟨rfl,rfl,rfl,rfl,fun h => ?_⟩
  have hnum : Numeral .int "-".toList 0 := (((h .int "-".toList).returned 0).mp rfl).1
  cases hnum with
  | plain _ hd => exact absurd (hd '-' List.mem_cons_self) (by decide)
  | signed _ hne _ => exact hne rfl

end Asp.Data
