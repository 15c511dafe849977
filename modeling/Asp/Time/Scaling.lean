import Asp.Time.Exact

/-! Products of durations with a number and quotients by one: long multiplication and division
with digits of one second. -/
namespace Asp.Duration
open Foundation TimeDetail

/-- The u64 `totalNanos` of `operator/`: the seconds that are left over, in nanoseconds, and
the nanoseconds. -/
def divNanos (d : Duration) (val : UInt32) : UInt64 :=
  d.m_seconds % val.toUInt64 * NANOS_IN_SEC + d.m_nanos.toUInt64

/-- What a product owes to the exact product. -/
structure ExactProduct (d : Duration) (k : UInt32) : Prop where
  refuses : d.checkedMul k = none ↔ infinite.totalNanos < k.toNat*d.totalNanos
  exact : ∀ c ∈ d.checkedMul k, c.Normalized ∧ c.totalNanos = k.toNat*d.totalNanos

/-- What a quotient owes to the exact quotient: no step of the division wraps, and neither does
the cast of its nanoseconds. -/
structure ExactQuotient (d : Duration) (k : UInt32) : Prop where
  exact : ∃ c, d.div k = .ok c ∧ c.Normalized ∧ c.totalNanos = d.totalNanos / k.toNat
  product_fits : (d.m_seconds % k.toUInt64 * NANOS_IN_SEC).toNat =
    d.m_seconds.toNat % k.toNat*10^9
  dividend_fits : (d.divNanos k).toNat = d.m_seconds.toNat % k.toNat*10^9 + d.m_nanos.toNat
  nanos_fit : (d.divNanos k / k.toUInt64).toNat < 10^9

section
variable {d c : Duration} {k : UInt32}

/-- The nanoseconds of a product need less than 62 bits. -/
lemma mulNanos_toNat (hd : d.Normalized) :
    (d.m_nanos.toUInt64 * k.toUInt64).toNat = d.m_nanos.toNat*k.toNat ∧
      d.m_nanos.toNat*k.toNat < 10^9*2^32 := by
  have hlt : d.m_nanos.toNat*k.toNat < 10^9*2^32 :=
    Nat.mul_lt_mul_of_lt_of_le hd k.toNat_lt.le (by decide)
  refine ⟨?_,hlt⟩
  rw [UInt64.toNat_mul, UInt32.toNat_toUInt64, UInt32.toNat_toUInt64,
    Nat.mod_eq_of_lt (hlt.trans (by decide))]

/-- The fields of a product. -/
theorem checkedMul_fields (hd : d.Normalized) :
    d.checkedMul k = some c ↔
      c.m_seconds.toNat = d.m_seconds.toNat*k.toNat + d.m_nanos.toNat*k.toNat / 10^9 ∧
        c.m_nanos.toNat = d.m_nanos.toNat*k.toNat % 10^9 := by
  obtain ⟨hnanos,hlt⟩ := mulNanos_toNat (k := k) hd
  have hmod := Nat.mod_lt (d.m_nanos.toNat*k.toNat) (show 0 < 10^9 by decide)
  have hextra : (nanos_to_secs (d.m_nanos.toUInt64 * k.toUInt64)).toNat =
      d.m_nanos.toNat*k.toNat / 10^9 := by
    rw [nanos_to_secs, UInt64.toNat_div, hnanos, NANOS_IN_SEC_toNat]
  have hsub : (d.m_nanos.toUInt64 * k.toUInt64 % NANOS_IN_SEC).toUInt32.toNat =
      d.m_nanos.toNat*k.toNat % 10^9 := by
    rw [UInt64.toNat_toUInt32, UInt64.toNat_mod, hnanos, NANOS_IN_SEC_toNat,
      Nat.mod_eq_of_lt (hmod.trans (by decide))]
  obtain ⟨s,n⟩ := c
  simp only [checkedMul, Option.bind_eq_some_iff, Option.map_eq_some_iff, Nums.checkedMul_eq_some,
    Nums.checkedAdd_eq_some, hextra, _unchecked, mk.injEq, ← UInt32.toNat_inj, hsub,
    UInt32.toNat_toUInt64]
  constructor
  · rintro ⟨mulSecs,hmul,secs,hsecs,rfl,hn⟩
    exact ⟨by rw [hsecs, hmul],hn.symm⟩
  · rintro ⟨hs,hn⟩
    have hfits := s.toNat_lt
    have hsecs : (UInt64.ofNat (d.m_seconds.toNat*k.toNat)).toNat =
        d.m_seconds.toNat*k.toNat := by
      rw [UInt64.toNat_ofNat', Nat.mod_eq_of_lt (by omega)]
    exact ⟨_,hsecs,s,by rw [hsecs, hs],rfl,hn.symm⟩

/-- A product is refused where its seconds overflow. -/
theorem checkedMul_eq_none (hd : d.Normalized) :
    d.checkedMul k = none ↔
      2^64 ≤ d.m_seconds.toNat*k.toNat + d.m_nanos.toNat*k.toNat / 10^9 := by
  rw [Option.eq_none_iff_forall_ne_some]
  constructor
  · intro h
    by_contra hlt
    have hmod := Nat.mod_lt (d.m_nanos.toNat*k.toNat) (show 0 < 10^9 by decide)
    refine h ⟨.ofNat (d.m_seconds.toNat*k.toNat + d.m_nanos.toNat*k.toNat / 10^9),
      .ofNat (d.m_nanos.toNat*k.toNat % 10^9)⟩ ((checkedMul_fields hd).mpr ⟨?_,?_⟩)
    · rw [UInt64.toNat_ofNat', Nat.mod_eq_of_lt (not_le.mp hlt)]
    · rw [UInt32.toNat_ofNat', Nat.mod_eq_of_lt (hmod.trans (by decide))]
  · intro hle c hc
    have hlt := c.m_seconds.toNat_lt
    have hsecs := ((checkedMul_fields hd).mp hc).1
    omega

lemma mul_totalNanos (d : Duration) (k : UInt32) :
    k.toNat*d.totalNanos =
      (d.m_seconds.toNat*k.toNat + d.m_nanos.toNat*k.toNat / 10^9)*10^9 +
        d.m_nanos.toNat*k.toNat % 10^9 := by
  rw [Nat.mul_comm, totalNanos, Radix.mul_digits]

theorem exactProduct (hd : d.Normalized) (k : UInt32) : ExactProduct d k := by
  have hmod := Nat.mod_lt (d.m_nanos.toNat*k.toNat) (show 0 < 10^9 by decide)
  have htotal := mul_totalNanos d k
  refine ⟨?_,?_⟩
  · rw [checkedMul_eq_none hd, infinite_totalNanos]
    omega
  · intro c hc
    obtain ⟨hs,hn⟩ := (checkedMul_fields hd).mp hc
    exact ⟨show c.m_nanos.toNat < 10^9 from hn ▸ hmod,by rw [htotal, totalNanos, hs, hn]⟩

lemma secr_toNat (d : Duration) (k : UInt32) :
    (d.m_seconds % k.toUInt64).toNat = d.m_seconds.toNat % k.toNat := by
  rw [UInt64.toNat_mod, UInt32.toNat_toUInt64]

/-- The dividend of the nanoseconds is below 2^32 seconds. -/
lemma dividend_lt (hd : d.Normalized) (hk : 0 < k.toNat) :
    d.m_seconds.toNat % k.toNat*10^9 + d.m_nanos.toNat < 2^64 := by
  calc d.m_seconds.toNat % k.toNat*10^9 + d.m_nanos.toNat < k.toNat*10^9 :=
        Radix.mod_digits_lt hk hd
    _ ≤ 2^32*10^9 := Nat.mul_le_mul_right _ k.toNat_lt.le
    _ ≤ 2^64 := by decide

lemma product_toNat (hd : d.Normalized) (hk : 0 < k.toNat) :
    (d.m_seconds % k.toUInt64 * NANOS_IN_SEC).toNat = d.m_seconds.toNat % k.toNat*10^9 := by
  rw [UInt64.toNat_mul, secr_toNat, NANOS_IN_SEC_toNat,
    Nat.mod_eq_of_lt ((Nat.le_add_right _ _).trans_lt (dividend_lt hd hk))]

lemma divNanos_toNat (hd : d.Normalized) (hk : 0 < k.toNat) :
    (d.divNanos k).toNat = d.m_seconds.toNat % k.toNat*10^9 + d.m_nanos.toNat := by
  rw [divNanos, UInt64.toNat_add, product_toNat hd hk, UInt32.toNat_toUInt64,
    Nat.mod_eq_of_lt (dividend_lt hd hk)]

/-- The quotient of the nanoseconds stays below one second, so nothing is carried. -/
lemma nanosq_lt (hd : d.Normalized) (hk : 0 < k.toNat) :
    (d.divNanos k / k.toUInt64).toNat < 10^9 := by
  rw [UInt64.toNat_div, divNanos_toNat hd hk, UInt32.toNat_toUInt64]
  exact Radix.div_digits_lt hk hd

theorem exactQuotient (hd : d.Normalized) (hk : 0 < k.toNat) : ExactQuotient d k := by
  have hlt := nanosq_lt hd hk
  refine ⟨?_,product_toNat hd hk,divNanos_toNat hd hk,hlt⟩
  have hzero : k ≠ 0 := fun h => absurd hk (by rw [h]; decide)
  have hsmall : ¬d.divNanos k / k.toUInt64 ≥ NANOS_IN_SEC := by
    rw [ge_iff_le, UInt64.le_iff_toNat_le, NANOS_IN_SEC_toNat, not_le]
    exact hlt
  have hdiv : d.div k =
      .ok (ctor (d.m_seconds / k.toUInt64) (d.divNanos k / k.toUInt64).toUInt32) := by
    rw [div, if_neg hzero]
    exact if_neg hsmall
  have hcast : (d.divNanos k / k.toUInt64).toUInt32.toNat =
      (d.m_seconds.toNat % k.toNat*10^9 + d.m_nanos.toNat) / k.toNat := by
    rw [UInt64.toNat_toUInt32, Nat.mod_eq_of_lt (hlt.trans (by decide)), UInt64.toNat_div,
      divNanos_toNat hd hk, UInt32.toNat_toUInt64]
  have hnorm : Normalized ⟨d.m_seconds / k.toUInt64,(d.divNanos k / k.toUInt64).toUInt32⟩ :=
    toUInt32_normalized hlt _
  refine ⟨_,hdiv,ctor_normalized _ _,?_⟩
  rw [ctor_eq_self hnorm, totalNanos_mk, hcast, UInt64.toNat_div, UInt32.toNat_toUInt64,
    totalNanos]
  exact (Radix.div_digits hk).symm

/-- Dividing a product gives back what was multiplied. -/
theorem div_mul (hd : d.Normalized) (hk : 0 < k.toNat) (h : d.mul k = .ok c) :
    ∃ q, c.div k = .ok q ∧ q.eq d = true := by
  obtain ⟨hc,htotal⟩ := (exactProduct hd k).exact c (mul_eq_ok.mp h)
  obtain ⟨q,hq,hnorm,hquot⟩ := (exactQuotient hc hk).exact
  rw [htotal, Nat.mul_div_cancel_left _ hk] at hquot
  exact ⟨q,hq,(eq_iff_totalNanos hnorm hd).mpr hquot⟩

/-- Products and quotients are exact, refuse nothing else than an overflow, and undo each other. -/
theorem scaling_exact (hd : d.Normalized) (k : UInt32) :
    ExactProduct d k ∧ (0 < k → ExactQuotient d k ∧
      ∀ c, d.mul k = .ok c → ∃ q, c.div k = .ok q ∧ q.eq d = true) := by
  refine ⟨exactProduct hd k,?_⟩
  intro hk
  rw [UInt32.lt_iff_toNat_lt] at hk
  exact ⟨exactQuotient hd hk,fun _ => div_mul hd hk⟩

/-- One and a half seconds by seven. -/
theorem scaling_exact_at :
    ExactProduct (fromMillis 1500) 7 ∧ ExactQuotient (fromMillis 1500) 7 ∧
      ∀ c, (fromMillis 1500).mul 7 = .ok c → ∃ q, c.div 7 = .ok q ∧ q.eq (fromMillis 1500) = true :=
  have h := scaling_exact (fromMillis_normalized 1500) 7
  ⟨h.1,h.2 (by decide)⟩

end
end Asp.Duration
