import Asp.Text.LocalFormat
import Asp.Time.Duration

/-! The text of a duration: the unit that is chosen for it, and the array that its number is
formatted into. The formatting itself is that of fmt. -/
namespace Asp
open Text TimeDetail

inductive DurationUnit
  | Nanos | Micros | Millis | Secs | Mins | Hours | Days
  deriving DecidableEq

namespace DurationUnit

/-- The length of a unit in nanoseconds. -/
def nanos : DurationUnit → ℕ
  | Nanos => 1
  | Micros => 10^3
  | Millis => 10^6
  | Secs => 10^9
  | Mins => 60*10^9
  | Hours => 3600*10^9
  | Days => 86400*10^9

end DurationUnit

def suffixForUnit : DurationUnit → (human : Bool) → String
  | .Nanos, human => if human then " nanoseconds" else "ns"
  | .Micros, human => if human then " microseconds" else "µs"
  | .Millis, human => if human then " milliseconds" else "ms"
  | .Secs, human => if human then " seconds" else "s"
  | .Mins, human => if human then " minutes" else "min"
  | .Hours, human => if human then " hours" else "h"
  | .Days, human => if human then " days" else "d"

/-- The texts that fmt makes: of an integer for `{}`, and of `f64(totalNanos) / f64(length)` with a
precision for `{:.{}f}`. -/
structure Fmt where
  integer : UInt64 → List Char
  fixed : (totalNanos length : UInt64) → (precision : ℕ) → List Char

namespace Fmt

def decimals (length : ℕ) : (precision rest : ℕ) → List Char
  | 0, _ => []
  | p+1, r => Nat.digitChar (r*10 / length) :: decimals length p (r*10 % length)

/-- The texts of quotients that need no rounding. -/
def unrounded : Fmt where
  integer n := Nat.toDigits 10 n.toNat
  fixed totalNanos length precision :=
    let whole := Nat.toDigits 10 (totalNanos.toNat / length.toNat)
    let rest := decimals length.toNat precision (totalNanos.toNat % length.toNat)
    if precision = 0 then whole else whole ++ '.' :: rest

end Fmt

namespace Duration

/-- The `totalNanos` of `formatDurationNum`. -/
def formattedNanos (dur : Duration) : UInt64 := secs_to_nanos dur.seconds + dur.subsecNanos

/-- The branches of `formatDurationNum`: the unit, and what the total is divided by. -/
def selectUnit (totalNanos : UInt64) : DurationUnit × Option UInt64 :=
  if totalNanos ≥ SECS_IN_DAY * NANOS_IN_SEC then (.Days,some (SECS_IN_DAY * NANOS_IN_SEC))
  else if totalNanos ≥ SECS_IN_HOUR * NANOS_IN_SEC then (.Hours,some (SECS_IN_HOUR * NANOS_IN_SEC))
  else if totalNanos ≥ SECS_IN_MIN * NANOS_IN_SEC then (.Mins,some (SECS_IN_MIN * NANOS_IN_SEC))
  else if totalNanos ≥ NANOS_IN_SEC then (.Secs,some NANOS_IN_SEC)
  else if totalNanos ≥ NANOS_IN_MILLISEC then (.Millis,some NANOS_IN_MILLISEC)
  else if totalNanos ≥ NANOS_IN_MICROSEC then (.Micros,some NANOS_IN_MICROSEC)
  else (.Nanos,none)

/-- The text that fmt makes of the number for a selected unit. -/
def selectedText (fmt : Fmt) (totalNanos : UInt64) (precision : ℕ) :
    DurationUnit × Option UInt64 → List Char
  | (_,none) => fmt.integer totalNanos
  | (_,some length) => fmt.fixed totalNanos length precision

def numText (fmt : Fmt) (dur : Duration) (precision : ℕ) : List Char :=
  selectedText fmt dur.formattedNanos precision (selectUnit dur.formattedNanos)

/-- The loop of `trimTrailingZeros`, as the length that is left. -/
def dropZeros {N : ℕ} (arr : Buffer N) : ℕ → Option ℕ
  | 0 => some 0
  | n+1 => (arr.read n).bind fun c => if c = '0' then dropZeros arr n else some (n+1)

/-- The point that is left at the end. -/
def dropPoint {N : ℕ} (arr : Buffer N) : ℕ → Option ℕ
  | 0 => some 0
  | n+1 => (arr.read n).map fun c => if c = '.' then n else n+1

def trimTrailingZeros {N : ℕ} (s : View N) : Option (View N) :=
  (s.arr.has '.' 0 s.size).bind fun dot =>
    if dot then
      (dropZeros s.arr s.size).bind fun size => (dropPoint s.arr size).map fun size => ⟨s.arr,size⟩
    else some s

/-- The rest of `formatDurationNum`. The number is `none` where bytes would be read that are
outside of the array or have not been written to. -/
def formatSelected (fmt : Fmt) (buf : Buffer 32) (totalNanos : UInt64) (precision : ℕ) :
    DurationUnit × Option UInt64 → Option (View 32) × DurationUnit
  | (unit,none) => (some (local_format buf (fmt.integer totalNanos)),unit)
  | (unit,some length) =>
    (trimTrailingZeros (local_format buf (fmt.fixed totalNanos length precision)),unit)

def formatDurationNum (fmt : Fmt) (buf : Buffer 32) (dur : Duration) (precision : ℕ) :
    Option (View 32) × DurationUnit :=
  formatSelected fmt buf dur.formattedNanos precision (selectUnit dur.formattedNanos)

def formatDur (human : Bool) (fmt : Fmt) (dur : Duration) (precision : UInt8) :
    Option (List Char) :=
  let r := formatDurationNum fmt (fun _ => none) dur precision.toNat
  r.1.bind fun num => num.chars.map fun s => s ++ (suffixForUnit r.2 human).toList

def toString (fmt : Fmt) (dur : Duration) (precision : UInt8) : Option (List Char) :=
  formatDur false fmt dur precision

def toHumanString (fmt : Fmt) (dur : Duration) (precision : UInt8) : Option (List Char) :=
  (formatDur true fmt dur precision).map fun out =>
    if "1 ".toList.isPrefixOf out && "s".toList.isSuffixOf out then out.dropLast else out

/-- The largest unit that is no longer than `total` nanoseconds, or nanoseconds. -/
structure LargestUnit (total : ℕ) (unit : DurationUnit) : Prop where
  fits : unit = .Nanos ∨ unit.nanos ≤ total
  largest : ∀ u : DurationUnit, u.nanos ≤ total → u.nanos ≤ unit.nanos

/-- What the text of a duration is computed from. -/
structure FormatsExactly (fmt : Fmt) (buf : Buffer 32) (precision : ℕ) (d : Duration) : Prop where
  total : d.formattedNanos.toNat = d.totalNanos
  unit : LargestUnit d.totalNanos (formatDurationNum fmt buf d precision).2
  grows : ∀ d' : Duration, d'.Normalized → d'.cmp d ≠ .gt →
    (formatDurationNum fmt buf d' precision).2.nanos ≤ (formatDurationNum fmt buf d precision).2.nanos

section Unit
variable {d : Duration} (fmt : Fmt) (buf : Buffer 32) (precision : ℕ)

lemma formatSelected_unit (totalNanos : UInt64) (selected : DurationUnit × Option UInt64) :
    (formatSelected fmt buf totalNanos precision selected).2 = selected.1 := by
  rcases selected with ⟨unit,_ | length⟩ <;> rfl

lemma formatDurationNum_unit (d : Duration) :
    (formatDurationNum fmt buf d precision).2 = (selectUnit d.formattedNanos).1 :=
  formatSelected_unit ..

/-- The total is formed modulo 2^64. -/
lemma formattedNanos_toNat (hd : d.Normalized) :
    d.formattedNanos.toNat = d.totalNanos % 2^64 := by
  rw [formattedNanos, secs_to_nanos, UInt64.toNat_add, UInt64.toNat_mul, seconds_eq hd,
    subsecNanos_toNat, NANOS_IN_SEC_toNat, totalNanos]
  omega

/-- The comparisons find the largest unit. -/
lemma selectUnit_largest (total : UInt64) : LargestUnit total.toNat (selectUnit total).1 := by
  have hday : (SECS_IN_DAY * NANOS_IN_SEC).toNat = 86400*10^9 := rfl
  have hhour : (SECS_IN_HOUR * NANOS_IN_SEC).toNat = 3600*10^9 := rfl
  have hmin : (SECS_IN_MIN * NANOS_IN_SEC).toNat = 60*10^9 := rfl
  have hmicro : NANOS_IN_MICROSEC.toNat = 10^3 := rfl
  unfold selectUnit
  simp only [ge_iff_le, UInt64.le_iff_toNat_le, hday, hhour, hmin, hmicro, NANOS_IN_SEC_toNat,
    NANOS_IN_MILLISEC_toNat]
  split_ifs <;> constructor
  all_goals
    first
    | exact .inl rfl
    | exact .inr (by assumption)
    | intro u
      cases u <;> simp only [DurationUnit.nanos] <;> omega

/-- A longer total has no smaller unit. -/
lemma LargestUnit.mono {m n : ℕ} {u v : DurationUnit} (hu : LargestUnit m u) (hv : LargestUnit n v)
    (h : m ≤ n) : u.nanos ≤ v.nanos := by
  rcases hu.fits with rfl | hfits
  · cases v <;> decide
  · exact hv.largest u (hfits.trans h)

/-- A duration is formatted from its length exactly where that fits a u64. -/
theorem formatsExactly_iff (hd : d.Normalized) :
    FormatsExactly fmt buf precision d ↔ d.totalNanos < 2^64 := by
  have htotal := formattedNanos_toNat hd
  constructor
  · intro h
    rw [← h.total]
    exact d.formattedNanos.toNat_lt
  · intro hlt
    have heq : ∀ d' : Duration, d'.Normalized → d'.totalNanos < 2^64 →
        LargestUnit d'.totalNanos (formatDurationNum fmt buf d' precision).2 := by
      intro d' hd' hlt'
      have hlargest := selectUnit_largest d'.formattedNanos
      rwa [formattedNanos_toNat hd', Nat.mod_eq_of_lt hlt', ← formatDurationNum_unit fmt buf precision]
        at hlargest
    refine ⟨htotal.trans (Nat.mod_eq_of_lt hlt),heq d hd hlt,fun d' hd' hle => ?_⟩
    rw [cmp_ne_gt_iff hd' hd] at hle
    exact (heq d' hd' (hle.trans_lt hlt)).mono (heq d hd hlt) hle

/-- A minute and a half. -/
theorem formatsExactly_iff_at :
    FormatsExactly .unrounded (fun _ => none) 3 (.fromSecs 90) ↔
      (Duration.fromSecs 90).totalNanos < 2^64 :=
  formatsExactly_iff .unrounded (fun _ => none) 3 (wholeSecs_normalized 90)

/-- A duration of more than five hundred years is formatted as 290.448384 milliseconds. -/
theorem formatted_as_millis :
    (Duration.fromSecs 18446744074).Normalized ∧
      (formatDurationNum .unrounded (fun _ => none) (.fromSecs 18446744074) 3).2 = .Millis ∧
      ¬FormatsExactly .unrounded (fun _ => none) 3 (.fromSecs 18446744074) := by
  refine ⟨wholeSecs_normalized _,by decide +kernel,fun h => ?_⟩
  exact absurd h.total (by decide +kernel)

end Unit

section Reading
variable {N : ℕ} {s : View N}

lemma dropZeros_le {arr : Buffer N} {n m : ℕ} (h : dropZeros arr n = some m) : m ≤ n := by
  induction n with
  | zero =>
    cases h
    exact Nat.le_refl 0
  | succ n ih =>
    obtain ⟨c,-,hc⟩ := Option.bind_eq_some_iff.mp h
    split_ifs at hc
    · exact (ih hc).trans (Nat.le_succ n)
    · cases hc
      exact Nat.le_refl _

lemma dropZeros_isSome {arr : Buffer N} {n : ℕ} (h : ∀ i < n, (arr.read i).isSome = true) :
    (dropZeros arr n).isSome = true := by
  induction n with
  | zero => rfl
  | succ n ih =>
    obtain ⟨c,hc⟩ := Option.isSome_iff_exists.mp (h n (Nat.lt_succ_self n))
    rw [dropZeros, hc, Option.bind_some]
    split_ifs
    · exact ih fun i hi => h i (Nat.lt_succ_of_lt hi)
    · rfl

/-- Trimming a view whose bytes are all there shortens it. -/
lemma trimTrailingZeros_of_isSome (h : s.chars.isSome = true) :
    ∃ t, trimTrailingZeros s = some t ∧ t.chars.isSome = true := by
  have hread : ∀ i < s.size, (s.arr.read i).isSome = true := fun i hi => read_isSome_of_readUpTo h hi
  obtain ⟨dot,hdot⟩ := Option.isSome_iff_exists.mp
    (has_isSome (c := '.') (i := 0) (n := s.size) fun j _ hj => hread j (by omega))
  rw [trimTrailingZeros, hdot, Option.bind_some]
  split_ifs
  · obtain ⟨m,hm⟩ := Option.isSome_iff_exists.mp (dropZeros_isSome hread)
    have hle := dropZeros_le hm
    rw [hm, Option.bind_some]
    have hshort : ∀ k ≤ m, (View.chars ⟨s.arr,k⟩).isSome = true := fun k hk =>
      readUpTo_isSome fun i hi => hread i (hi.trans_le (hk.trans hle))
    cases m with
    | zero => exact ⟨_,rfl,hshort 0 (Nat.le_refl 0)⟩
    | succ m =>
      obtain ⟨c,hc⟩ := Option.isSome_iff_exists.mp (hread m (by omega))
      refine ⟨⟨s.arr,if c = '.' then m else m+1⟩,by rw [dropPoint, hc]; rfl,hshort _ ?_⟩
      split_ifs <;> omega
  · exact ⟨s,rfl,h⟩

/-- Trimming a view that is longer than its array reads behind the array. -/
lemma trimTrailingZeros_of_gt (h : N < s.size) : trimTrailingZeros s = none := by
  rw [trimTrailingZeros]
  cases hdot : s.arr.has '.' 0 s.size with
  | none => rfl
  | some dot =>
    rw [Option.bind_some]
    split_ifs with htrue
    · obtain ⟨n,hn⟩ : ∃ n, s.size = n+1 := ⟨s.size-1,by omega⟩
      rw [hn, dropZeros, Buffer.read_of_le s.arr (by omega)]
      rfl
    · rw [Bool.not_eq_true] at htrue
      subst htrue
      have hread := read_isSome_of_has hdot (Nat.zero_le N) (by omega)
      rw [Buffer.read_of_le s.arr (Nat.le_refl N)] at hread
      cases hread

variable {fmt : Fmt} {d : Duration} {p : UInt8}

/-- The number of a selected unit can be read as long as it is no longer than the array. -/
lemma formatSelected_isSome (buf : Buffer 32) (totalNanos : UInt64) (precision : ℕ)
    (selected : DurationUnit × Option UInt64) :
    ((formatSelected fmt buf totalNanos precision selected).1.bind View.chars).isSome = true ↔
      (selectedText fmt totalNanos precision selected).length ≤ 32 := by
  rcases selected with ⟨unit,_ | length⟩
  · exact local_format_chars_isSome
  · constructor
    · intro h
      by_contra hgt
      rw [formatSelected, trimTrailingZeros_of_gt] at h
      · cases h
      · rw [local_format_size]
        exact not_le.mp hgt
    · intro h
      have hview : (local_format buf (fmt.fixed totalNanos length precision)).chars.isSome = true :=
        local_format_chars_isSome.mpr h
      obtain ⟨t,ht,hchars⟩ := trimTrailingZeros_of_isSome hview
      rwa [formatSelected, ht]

lemma formatDur_isSome (human : Bool) :
    (formatDur human fmt d p).isSome = true ↔ (numText fmt d p.toNat).length ≤ 32 := by
  rw [numText, ← formatSelected_isSome fun _ => none, formatDur, ← formatDurationNum]
  cases (formatDurationNum fmt (fun _ => none) d p.toNat).1 with
  | none => rfl
  | some num => rw [Option.bind_some, Option.bind_some, Option.isSome_map]

end Reading

/-- Formatting into an array stays inside exactly where the text is shorter than the array, and a
duration's text is read from such an array exactly where it is no longer. -/
theorem formatting_inside_iff {N : ℕ} (arr : Buffer N) (text : List Char) (fmt : Fmt) (d : Duration)
    (p : UInt8) :
    (StaysInside arr text ↔ text.length < N) ∧
      ((toString fmt d p).isSome = true ↔ (numText fmt d p.toNat).length ≤ 32) ∧
      ((toHumanString fmt d p).isSome = true ↔ (numText fmt d p.toNat).length ≤ 32) := by
  refine ⟨staysInside_iff arr text,formatDur_isSome false,?_⟩
  rw [toHumanString, Option.isSome_map]
  exact formatDur_isSome true

/-- From a microsecond on every precision from 31 on makes the text too long, for a formatter that
writes a digit, the point and as many decimals as it is told to. -/
theorem toString_of_precise {fmt : Fmt} {d : Duration} {p : UInt8}
    (hfmt : ∀ total length precision, 0 < precision →
      precision + 2 ≤ (fmt.fixed total length precision).length)
    (hd : NANOS_IN_MICROSEC ≤ d.formattedNanos) (hp : 31 ≤ p.toNat) : toString fmt d p = none := by
  rw [toString, ← Option.not_isSome_iff_eq_none, formatDur_isSome, not_le]
  obtain ⟨length,hlength⟩ : ∃ length, (selectUnit d.formattedNanos).2 = some length := by
    unfold selectUnit
    split_ifs <;> exact ⟨_,rfl⟩
  have hlong := hfmt d.formattedNanos length p.toNat (by omega)
  rw [numText, ← Prod.mk.eta (p := selectUnit d.formattedNanos), hlength]
  exact lt_of_lt_of_le (by omega) hlong

/-- One second, in the highest precision: the text is 257 characters long. With 30 decimals it is
32 characters long, and the terminator replaces the last one. -/
theorem precise_second_reads_outside :
    ¬StaysInside (fun _ : Fin 32 => none) (numText .unrounded (.fromSecs 1) 255) ∧
      toString .unrounded (.fromSecs 1) 255 = none ∧
      ¬StaysInside (fun _ : Fin 32 => none) (numText .unrounded (.fromSecs 1) 30) ∧
      (toString .unrounded (.fromSecs 1) 30).map (List.contains · nul) = some true := by
  refine ⟨fun h => ?_,by decide +kernel,fun h => ?_,by decide +kernel⟩ <;>
    exact absurd h.ended.1 (by decide +kernel)

end Duration
end Asp
