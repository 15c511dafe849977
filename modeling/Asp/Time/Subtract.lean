import Asp.Time.Instant

/-! Subtraction of a duration from an instant, and where it undoes the addition. -/
namespace Asp
namespace Instant
open TimeDetail

def checkedSub (t : Instant) (dur : Duration) : Option Instant :=
  (Nums.checkedSub t.m_secs dur.seconds).bind fun subbed =>
    let durNanos := dur.subsecNanos.toUInt32
    if t.m_nanos > durNanos.toUInt64 then
      some ⟨subbed,((t.m_nanos - durNanos.toUInt64).toUInt32).toUInt64⟩
    -- equal fields borrow as well, and leave a whole second in the nanoseconds
    else (Nums.checkedSub subbed 1).map fun temp =>
      ⟨temp,((t.m_nanos + NANOS_IN_SEC - durNanos.toUInt64).toUInt32).toUInt64⟩

section
variable {t u : Instant} {dur : Duration}

/-- Every total below 2^64 seconds is that of an instant. -/
lemma exists_totalNanos {n : ℕ} (h : n < 2^64*10^9) : ∃ t : Instant, t.Valid ∧ t.totalNanos = n := by
  refine ⟨⟨UInt64.ofNat (n / 10^9),UInt64.ofNat (n % 10^9)⟩,?_⟩
  simp only [Valid, totalNanos, UInt64.toNat_ofNat']
  omega

lemma totalNanos_lt (ht : t.Valid) : t.totalNanos < 2^64*10^9 := by
  have hs := t.m_secs.toNat_lt
  simp only [Valid] at ht
  simp only [totalNanos]
  omega

/-- Addition refuses only a sum past the last second. -/
lemma checkedAdd_ne_none (ht : t.m_nanos.toNat ≤ 10^9) (hd : dur.Normalized)
    (h : t.totalNanos + dur.totalNanos < 2^64*10^9) : t.checkedAdd dur ≠ none := by
  have hn := nanosSum_toNat ht hd.le
  simp only [Duration.Normalized] at hd
  simp only [totalNanos, Duration.totalNanos] at h
  unfold checkedAdd
  rw [Duration.seconds_eq hd]
  have hsum : (t.m_secs + dur.m_seconds).toNat = t.m_secs.toNat + dur.m_seconds.toNat := by
    rw [UInt64.toNat_add]
    omega
  have hs : Nums.checkedAdd t.m_secs dur.m_seconds = some (t.m_secs + dur.m_seconds) :=
    Nums.checkedAdd_eq_some.mpr hsum
  rw [hs, Option.bind_some]
  dsimp only
  split_ifs with hc <;>
    rw [ge_iff_le, UInt64.le_iff_toNat_le, UInt32.toNat_toUInt64, hn, NANOS_IN_SEC_toNat] at hc <;>
    rw [Ne, Option.map_eq_none_iff, Nums.checkedAdd_eq_none, hsum]
  · have h1 : (1 : UInt64).toNat = 1 := rfl
    omega
  · have h0 : (0 : UInt64).toNat = 0 := rfl
    omega

/-- Addition of a normalized duration is exact, and normalized. -/
theorem checkedAdd_eq_some (ht : t.m_nanos.toNat ≤ 10^9) (hd : dur.Normalized) :
    t.checkedAdd dur = some u ↔ u.Valid ∧ u.totalNanos = t.totalNanos + dur.totalNanos := by
  have hspec : ∀ v, t.checkedAdd dur = some v →
      v.Valid ∧ v.totalNanos = t.totalNanos + dur.totalNanos := by
    intro v hv
    have hfields := checkedAdd_fields ht hd.le hv
    rw [Duration.seconds_eq hd] at hfields
    simp only [Duration.Normalized] at hd
    simp only [Valid, totalNanos, Duration.totalNanos]
    omega
  constructor
  · exact hspec u
  · rintro ⟨hu,htotal⟩
    have hlt := totalNanos_lt hu
    obtain ⟨v,hv⟩ := Option.ne_none_iff_exists'.mp (checkedAdd_ne_none ht hd (by omega))
    obtain ⟨hvalid,hvtotal⟩ := hspec v hv
    rw [hv, ext_totalNanos hvalid hu (by omega)]

/-- The fields of a difference, also of operands that keep a whole second in their nanoseconds:
equal nanoseconds borrow as well. -/
theorem checkedSub_fields (ht : t.m_nanos.toNat ≤ 10^9) (hd : dur.m_nanos.toNat ≤ 10^9) :
    t.checkedSub dur = some u ↔
      (dur.m_nanos.toNat < t.m_nanos.toNat ∧
        t.m_secs.toNat = dur.seconds.toNat + u.m_secs.toNat ∧
        t.m_nanos.toNat = dur.m_nanos.toNat + u.m_nanos.toNat) ∨
      (t.m_nanos.toNat ≤ dur.m_nanos.toNat ∧
        t.m_secs.toNat = dur.seconds.toNat + u.m_secs.toNat + 1 ∧
        t.m_nanos.toNat + 10^9 = dur.m_nanos.toNat + u.m_nanos.toNat) := by
  have hdur : dur.subsecNanos.toUInt32.toUInt64.toNat = dur.m_nanos.toNat := by
    simp only [Duration.subsecNanos, UInt32.toNat_toUInt64, UInt64.toNat_toUInt32]
    omega
  have hu := u.m_secs.toNat_lt
  have hun := u.m_nanos.toNat_lt
  obtain ⟨us,un⟩ := u
  simp only [checkedSub, Option.bind_eq_some_iff, Nums.checkedSub_eq_some]
  by_cases hc : t.m_nanos > dur.subsecNanos.toUInt32.toUInt64
  · have hkept := UInt64.toNat_sub_of_le _ _ (UInt64.le_of_lt hc)
    simp only [if_pos hc, Option.some_inj, mk.injEq, ← UInt64.toNat_inj, UInt32.toNat_toUInt64,
      UInt64.toNat_toUInt32, hkept, hdur]
    rw [gt_iff_lt, UInt64.lt_iff_toNat_lt, hdur] at hc
    constructor
    · rintro ⟨subbed,hsub,hs,hn⟩
      omega
    · intro h
      exact ⟨us,by omega,rfl,by omega⟩
  · simp only [if_neg hc, Option.map_eq_some_iff, mk.injEq, ← UInt64.toNat_inj,
      UInt32.toNat_toUInt64, UInt64.toNat_toUInt32, Nums.checkedSub_eq_some, UInt64.reduceToNat]
    rw [gt_iff_lt, UInt64.lt_iff_toNat_lt, hdur] at hc
    have hadd : (t.m_nanos + NANOS_IN_SEC).toNat = t.m_nanos.toNat + 10^9 := by
      rw [UInt64.toNat_add, NANOS_IN_SEC_toNat]
      omega
    rw [UInt64.toNat_sub_of_le _ _ (by rw [UInt64.le_iff_toNat_le, hadd, hdur]; omega), hadd, hdur]
    constructor
    · rintro ⟨subbed,hsub,temp,htemp,hs,hn⟩
      omega
    · intro h
      have hsucc : (us + 1).toNat = us.toNat + 1 := by
        have hlt := t.m_secs.toNat_lt
        have h1 : (1 : UInt64).toNat = 1 := rfl
        rw [UInt64.toNat_add, h1]
        omega
      exact ⟨us + 1,by omega,us,by omega,rfl,by omega⟩

/-- Subtraction is exact too, but it writes the nanoseconds of the result as one to a whole
second, where zero to a second less one would be normalized. -/
theorem checkedSub_eq_some (ht : t.m_nanos.toNat ≤ 10^9) (hd : dur.Normalized) :
    t.checkedSub dur = some u ↔ t.totalNanos = dur.totalNanos + u.totalNanos ∧
      0 < u.m_nanos.toNat ∧ u.m_nanos.toNat ≤ 10^9 := by
  rw [checkedSub_fields ht hd.le, Duration.seconds_eq hd, totalNanos, totalNanos,
    Duration.totalNanos]
  simp only [Duration.Normalized] at hd
  omega

/-- Every positive total up to 2^64 seconds is that of an instant with such nanoseconds. -/
lemma exists_full {n : ℕ} (h : 0 < n) (hle : n ≤ 2^64*10^9) :
    ∃ t : Instant, t.totalNanos = n ∧ 0 < t.m_nanos.toNat ∧ t.m_nanos.toNat ≤ 10^9 := by
  refine ⟨⟨UInt64.ofNat ((n-1) / 10^9),UInt64.ofNat ((n-1) % 10^9 + 1)⟩,?_⟩
  simp only [totalNanos, UInt64.toNat_ofNat']
  omega

/-- It refuses also the subtraction that leaves nothing. -/
theorem checkedSub_eq_none (ht : t.m_nanos.toNat ≤ 10^9) (hd : dur.Normalized) :
    t.checkedSub dur = none ↔ t.totalNanos ≤ dur.totalNanos := by
  have hle : t.totalNanos ≤ 2^64*10^9 := by
    have hs := t.m_secs.toNat_lt
    rw [totalNanos]
    omega
  constructor
  · intro hnone
    by_contra hgt
    obtain ⟨u,hu,hpos,hle⟩ := exists_full (n := t.totalNanos - dur.totalNanos) (by omega) (by omega)
    have hsome := (checkedSub_eq_some (u := u) ht hd).mpr ⟨by omega,hpos,hle⟩
    rw [hnone] at hsome
    cases hsome
  · intro hle
    cases hsub : t.checkedSub dur with
    | none => rfl
    | some u =>
      obtain ⟨htotal,hpos,_⟩ := (checkedSub_eq_some ht hd).mp hsub
      simp only [totalNanos] at htotal hle
      omega

/-- Addition and subtraction of `dur` undo each other at `t`, and subtraction refuses exactly
what is longer than the time since the first instant. -/
structure SubInverse (t : Instant) (dur : Duration) : Prop where
  add_sub : ∀ j, t.checkedAdd dur = some j → j.checkedSub dur = some t
  sub_add : ∀ j, t.checkedSub dur = some j → j.Valid ∧ j.checkedAdd dur = some t
  refuses : t.checkedSub dur = none ↔ t.totalNanos < dur.totalNanos

/-- An instant is found again behind its sum if its nanoseconds are not zero. -/
lemma add_sub_iff (ht : t.Valid) (hd : dur.Normalized) :
    (∀ j, t.checkedAdd dur = some j → j.checkedSub dur = some t) ↔
      t.m_nanos.toNat ≠ 0 ∨ 2^64 ≤ t.m_secs.toNat + dur.m_seconds.toNat := by
  simp only [Valid] at ht
  simp only [Duration.Normalized] at hd
  constructor
  · intro h
    by_contra! hcon
    obtain ⟨hzero,hfits⟩ := hcon
    obtain ⟨j,hj,hjt⟩ := exists_totalNanos (n := t.totalNanos + dur.totalNanos) (by
      simp only [totalNanos, Duration.totalNanos]
      omega)
    have hback := h j ((checkedAdd_eq_some ht.le hd).mpr ⟨hj,hjt⟩)
    have hpos := ((checkedSub_eq_some hj.le hd).mp hback).2.1
    omega
  · intro h j hadd
    obtain ⟨hj,hjt⟩ := (checkedAdd_eq_some ht.le hd).mp hadd
    refine (checkedSub_eq_some hj.le hd).mpr ⟨by omega,?_,by omega⟩
    have hlt := totalNanos_lt hj
    simp only [totalNanos, Duration.totalNanos] at hjt hlt
    omega

/-- A difference adds up again if no second was borrowed for equal nanoseconds. -/
lemma sub_add_iff (ht : t.Valid) (hd : dur.Normalized) :
    (∀ j, t.checkedSub dur = some j → j.Valid ∧ j.checkedAdd dur = some t) ↔
      (t.m_nanos.toNat = dur.m_nanos.toNat → t.m_secs.toNat ≤ dur.m_seconds.toNat) := by
  have hs := t.m_secs.toNat_lt
  constructor
  · intro h heq
    by_contra hgt
    have hfull : Instant.totalNanos ⟨t.m_secs - dur.m_seconds - 1,NANOS_IN_SEC⟩ + dur.totalNanos =
        t.totalNanos := by
      have h1 : (1 : UInt64).toNat = 1 := rfl
      have hle : dur.m_seconds ≤ t.m_secs := by
        rw [UInt64.le_iff_toNat_le]
        omega
      have hle' : 1 ≤ t.m_secs - dur.m_seconds := by
        rw [UInt64.le_iff_toNat_le, UInt64.toNat_sub_of_le _ _ hle, h1]
        omega
      simp only [totalNanos, Duration.totalNanos, NANOS_IN_SEC_toNat,
        UInt64.toNat_sub_of_le _ _ hle', UInt64.toNat_sub_of_le _ _ hle, h1]
      omega
    have hsub := (checkedSub_eq_some (u := ⟨t.m_secs - dur.m_seconds - 1,NANOS_IN_SEC⟩) ht.le hd).mpr
      ⟨by omega,show 0 < NANOS_IN_SEC.toNat by decide,show NANOS_IN_SEC.toNat ≤ 10^9 by decide⟩
    have hvalid := (h _ hsub).1
    simp only [Valid, NANOS_IN_SEC_toNat] at hvalid
    omega
  · intro h j hsub
    obtain ⟨hjt,hpos,hle⟩ := (checkedSub_eq_some ht.le hd).mp hsub
    have hj : j.Valid := by
      simp only [Valid, Duration.Normalized] at ht hd ⊢
      simp only [totalNanos, Duration.totalNanos] at hjt
      omega
    exact ⟨hj,(checkedAdd_eq_some hj.le hd).mpr ⟨ht,by omega⟩⟩

/-- The round trips fail exactly at two alignments of the nanoseconds: those of the instant
are zero, or those of both operands are equal. -/
theorem subInverse_iff (ht : t.Valid) (hd : dur.Normalized) :
    t.SubInverse dur ↔
      (t.m_nanos.toNat ≠ 0 ∨ 2^64 ≤ t.m_secs.toNat + dur.m_seconds.toNat) ∧
      (t.m_nanos.toNat = dur.m_nanos.toNat → t.m_secs.toNat < dur.m_seconds.toNat) := by
  have hadd := add_sub_iff ht hd
  have hsub := sub_add_iff ht hd
  have htotal : t.totalNanos = dur.totalNanos ↔
      t.m_nanos.toNat = dur.m_nanos.toNat ∧ t.m_secs.toNat = dur.m_seconds.toNat := by
    simp only [Valid, Duration.Normalized] at ht hd
    simp only [totalNanos, Duration.totalNanos]
    omega
  constructor
  · intro h
    have hne := (checkedSub_eq_none ht.le hd).symm.trans h.refuses
    refine ⟨hadd.mp h.add_sub,?_⟩
    intro heq
    have hle := hsub.mp h.sub_add heq
    have hlt : ¬t.m_secs.toNat = dur.m_seconds.toNat := by
      intro hs
      have ht' := htotal.mpr ⟨heq,hs⟩
      omega
    omega
  · rintro ⟨hzero,halign⟩
    refine ⟨hadd.mpr hzero,hsub.mpr (fun heq => le_of_lt (halign heq)),?_⟩
    have hne : t.totalNanos ≠ dur.totalNanos := by
      intro heq
      obtain ⟨hn,hs⟩ := htotal.mp heq
      have hlt := halign hn
      omega
    rw [checkedSub_eq_none ht.le hd]
    omega

theorem subInverse_iff_at :
    SubInverse ⟨7,3⟩ ⟨2,5⟩ ↔
      ((3 : UInt64).toNat ≠ 0 ∨ 2^64 ≤ (7 : UInt64).toNat + (2 : UInt64).toNat) ∧
      ((3 : UInt64).toNat = (5 : UInt32).toNat → (7 : UInt64).toNat < (2 : UInt64).toNat) :=
  subInverse_iff (t := ⟨7,3⟩) (show 3 < 10^9 by decide)
    (show Duration.Normalized ⟨2,5⟩ by decide)

/-- A whole second earlier, the nanoseconds are those of a whole second. -/
theorem not_subInverse :
    Instant.Valid ⟨3,500⟩ ∧ Duration.Normalized ⟨1,500⟩ ∧ ¬SubInverse ⟨3,500⟩ ⟨1,500⟩ := by
  refine ⟨show 500 < 10^9 by decide,show 500 < 10^9 by decide,?_⟩
  intro h
  have hvalid := (h.sub_add ⟨1,1000000000⟩ rfl).1
  exact absurd hvalid (show ¬1000000000 < 10^9 by decide)

end
end Instant
end Asp
