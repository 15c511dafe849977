import Asp.Time.Elapsed

/-! `asp::SystemTime` on Windows: the halves of a 64-bit count of 100 ns ticks since 1601, and
where it agrees with the POSIX implementation. -/
namespace Asp
open Foundation.IntType (i64 i64_arith_of_inRange i64_arith_of_not_inRange)

/-- A total that wraps at 2^64 nanoseconds. -/
def Duration.nanos (d : Duration) : UInt64 :=
  d.m_seconds * TimeDetail.NANOS_IN_SEC + d.m_nanos.toUInt64

namespace Windows

structure ULARGE_INTEGER where
  LowPart : UInt32
  HighPart : UInt32

namespace ULARGE_INTEGER

def QuadPart (u : ULARGE_INTEGER) : UInt64 :=
  u.HighPart.toUInt64 * 4294967296 + u.LowPart.toUInt64

/-- Writing the member `QuadPart`. -/
def ofQuadPart (q : UInt64) : ULARGE_INTEGER := ⟨q.toUInt32,(q / 4294967296).toUInt32⟩

lemma quadPart_ofQuadPart (q : UInt64) : (ofQuadPart q).QuadPart = q := by
  have hq := q.toNat_lt
  have h32 : (4294967296 : UInt64).toNat = 2^32 := rfl
  rw [← UInt64.toNat_inj, QuadPart, ofQuadPart]
  simp only [UInt64.toNat_add, UInt64.toNat_mul, UInt32.toNat_toUInt64, UInt64.toNat_toUInt32,
    UInt64.toNat_div, h32]
  omega

end ULARGE_INTEGER

structure SystemTime where
  _storage1 : Int64
  _storage2 : Int64
  deriving DecidableEq, Repr

namespace SystemTime

/-- The parts stored by the constructor, which widens two DWORDs. -/
def ofParts (u : ULARGE_INTEGER) : SystemTime :=
  ⟨u.HighPart.toUInt64.toInt64,u.LowPart.toUInt64.toInt64⟩

def uli (t : SystemTime) : ULARGE_INTEGER :=
  ⟨t._storage2.toUInt64.toUInt32,t._storage1.toUInt64.toUInt32⟩

/-- The ticks from 1601 to the Unix epoch. -/
def epochTicks : ℕ := 116444736000000000

/-- `none` is undefined, `some none` is `std::nullopt`. -/
def durationSince (t other : SystemTime) : Option (Option Duration) :=
  let diff := (t.uli.QuadPart - other.uli.QuadPart).toInt64
  if diff < 0 then some none
  -- the product is an i64, and its overflow undefined
  else (i64.arith (diff.toInt * 100)).map fun nanos => some (Duration.fromNanos (UInt64.ofInt nanos))

/-- `operator+` -/
def add (t : SystemTime) (dur : Duration) : SystemTime :=
  ofParts (.ofQuadPart (t.uli.QuadPart + dur.nanos / 100))

/-- `operator<=>` -/
def cmp (t other : SystemTime) : Ordering := compare t.uli.QuadPart other.uli.QuadPart

@[simp] lemma uli_ofParts (u : ULARGE_INTEGER) : (ofParts u).uli = u := by
  simp only [uli, ofParts, UInt64.toUInt64_toInt64, UInt32.toUInt32_toUInt64]

@[simp] lemma quadPart_add (t : SystemTime) (dur : Duration) :
    (t.add dur).uli.QuadPart = t.uli.QuadPart + dur.nanos / 100 := by
  rw [add, uli_ofParts, ULARGE_INTEGER.quadPart_ofQuadPart]

end SystemTime
end Windows

namespace Duration

lemma nanos_toNat (d : Duration) : d.nanos.toNat = d.totalNanos % 2^64 := by
  simp only [nanos, UInt64.toNat_add, UInt64.toNat_mul, UInt32.toNat_toUInt64,
    TimeDetail.NANOS_IN_SEC_toNat, totalNanos, Nat.mod_add_mod]

lemma fromNanos_ofInt_totalNanos {k : ℕ} (h : k < 2^64) :
    (fromNanos (UInt64.ofInt k)).totalNanos = k := by
  rw [fromNanos_totalNanos, UInt64.ofInt, UInt64.toNat_ofNat']
  omega

end Duration

/-- A time t ticks after the Unix epoch and a duration of whole ticks whose sum is a tick count
of 64 bits; its seconds then fit into an i64. -/
structure TickSum (t : ℕ) (d : Duration) : Prop where
  normalized : d.Normalized
  ticks : 100 ∣ d.m_nanos.toNat
  fits : Windows.SystemTime.epochTicks + t + d.totalNanos / 100 < 2^64

variable {t : ℕ} {d : Duration}

lemma TickSum.totalNanos_eq (h : TickSum t d) : d.totalNanos = d.totalNanos / 100 * 100 := by
  have hdvd := h.ticks
  simp only [Duration.totalNanos]
  omega

namespace Windows.SystemTime

/-- The time t ticks after the Unix epoch. -/
def ofTicks (t : ℕ) : SystemTime := ofParts (.ofQuadPart (UInt64.ofNat (epochTicks + t)))

def sinceAdd (t : ℕ) (d : Duration) : Option (Option Duration) :=
  ((ofTicks t).add d).durationSince (ofTicks t)

lemma quadPart_ofTicks (t : ℕ) : (ofTicks t).uli.QuadPart = UInt64.ofNat (epochTicks + t) := by
  rw [ofTicks, uli_ofParts, ULARGE_INTEGER.quadPart_ofQuadPart]

/-- What comes back of a duration is its total modulo 2^64 nanoseconds, if an i64 holds it. -/
lemma sinceAdd_eq (t : ℕ) (d : Duration) : sinceAdd t d =
    (i64.arith (d.totalNanos % 2^64 / 100 * 100 : ℕ)).map fun nanos =>
      some (Duration.fromNanos (UInt64.ofInt nanos)) := by
  have hnanos : (d.nanos / 100).toNat = d.totalNanos % 2^64 / 100 := by
    rw [UInt64.toNat_div, Duration.nanos_toNat]
    rfl
  have hdiff : ((ofTicks t).add d).uli.QuadPart - (ofTicks t).uli.QuadPart = d.nanos / 100 := by
    rw [quadPart_add, UInt64.add_comm, UInt64.add_sub_cancel]
  have htoInt : (d.nanos / 100).toInt64.toInt = (d.totalNanos % 2^64 / 100 : ℕ) := by
    rw [Asp.SystemTime.toInt_toInt64_of_lt (by omega), hnanos]
  have hnonneg : ¬(d.nanos / 100).toInt64 < 0 := by
    have h0 : (0 : Int64).toInt = 0 := rfl
    rw [Int64.lt_iff_toInt_lt, htoInt, h0]
    omega
  rw [sinceAdd, durationSince, hdiff, if_neg hnonneg, htoInt]
  push_cast
  rfl

/-- The duration itself comes back only below 2^63 nanoseconds. -/
lemma sinceAdd_iff (h : TickSum t d) : sinceAdd t d = some (some d) ↔ d.totalNanos < 2^63 := by
  have htotal := h.totalNanos_eq
  rw [sinceAdd_eq]
  generalize hk : d.totalNanos % 2^64 / 100 * 100 = k
  constructor
  · intro hback
    obtain ⟨n,hn,heq⟩ := Option.map_eq_some_iff.mp hback
    by_cases hlt : k < 2^63
    · rw [i64_arith_of_inRange (by omega)] at hn
      obtain rfl := Option.some.inj hn
      have hd := congrArg Duration.totalNanos (Option.some.inj heq)
      rw [Duration.fromNanos_ofInt_totalNanos (by omega)] at hd
      omega
    · rw [i64_arith_of_not_inRange (by omega)] at hn
      cases hn
  · intro hlt
    rw [Nat.mod_eq_of_lt (by omega), ← htotal] at hk
    rw [i64_arith_of_inRange (by omega), Option.map_some]
    congr 2
    apply Duration.ext_totalNanos (Duration.fromNanos_normalized _) h.normalized
    rw [Duration.fromNanos_ofInt_totalNanos (by omega)]
    omega

/-- Below 2^64 nanoseconds the sum is the exact tick. -/
lemma add_quadPart_toNat (h : TickSum t d) (hlt : d.totalNanos < 2^64) :
    ((ofTicks t).add d).uli.QuadPart.toNat = epochTicks + t + d.totalNanos / 100 := by
  have hfits := h.fits
  have h100 : (100 : UInt64).toNat = 100 := rfl
  rw [quadPart_add, quadPart_ofTicks, UInt64.toNat_add, UInt64.toNat_ofNat', UInt64.toNat_div,
    Duration.nanos_toNat, h100]
  omega

end Windows.SystemTime

namespace SystemTime

/-- The time t ticks after the Unix epoch, in seconds and nanoseconds. -/
def ofTicks (t : ℕ) : SystemTime := ⟨Int64.ofNat (t / 10^7),Int64.ofNat (t % 10^7 * 100)⟩

def sinceAdd (t : ℕ) (d : Duration) : Option (Option Duration) :=
  ((ofTicks t).add d).durationSince (ofTicks t)

lemma ofTicks_eq_ofNanos (t : ℕ) : ofTicks t = ofNanos (t*100) := by
  rw [ofTicks, ofNanos, show t*100 / 10^9 = t / 10^7 by omega,
    show t*100 % 10^9 = t % 10^7 * 100 by omega]

lemma ofTicks_valid (h : t < 2^64) : (ofTicks t).Valid := by
  rw [ofTicks_eq_ofNanos]
  exact ofNanos_valid (by omega)

lemma ofTicks_totalNanos (h : t < 2^64) : (ofTicks t).totalNanos = t*100 := by
  rw [ofTicks_eq_ofNanos, ofNanos_totalNanos (by omega)]
  push_cast
  rfl

lemma ofTicks_storage1_nonneg (h : t < 2^64) : 0 ≤ (ofTicks t)._storage1.toInt := by
  rw [ofTicks_eq_ofNanos, (ofNanos_fields (by omega)).1]
  exact Int.natCast_nonneg _

/-- The sum is exact. -/
lemma add_ofTicks (h : TickSum t d) :
    ((ofTicks t).add d).Valid ∧ ((ofTicks t).add d).totalNanos = t*100 + d.totalNanos := by
  have hfits := h.fits
  have ht : t < 2^64 := by omega
  obtain ⟨hvalid,k,htotal⟩ :=
    add_spec (ofTicks_valid ht) (le_of_lt h.normalized : d.m_nanos.toNat ≤ 10^9)
  rw [ofTicks_totalNanos ht, Duration.getterNanos_of_normalized h.normalized] at htotal
  refine ⟨hvalid,?_⟩
  have h1 := ((ofTicks t).add d)._storage1.toInt_lt
  have h2 := ((ofTicks t).add d)._storage1.le_toInt
  simp only [Valid] at hvalid
  rw [totalNanos] at htotal ⊢
  omega

lemma sinceAdd_eq_self (h : TickSum t d) : sinceAdd t d = some (some d) := by
  have hfits := h.fits
  have ht : t < 2^64 := by omega
  obtain ⟨hvalid,htotal⟩ := add_ofTicks h
  obtain ⟨d',hsince,hnorm,hd⟩ := durationSince_spec hvalid (ofTicks_valid ht)
    (ofTicks_storage1_nonneg ht) (by rw [htotal, ofTicks_totalNanos ht]; omega)
  rw [htotal, ofTicks_totalNanos ht] at hd
  rw [sinceAdd, hsince, Duration.ext_totalNanos hnorm h.normalized (by omega)]

end SystemTime

section
variable {d₁ d₂ : Duration}

lemma compare_congr {a b : ℕ} {x y : ℤ} (hlt : a < b ↔ x < y) (heq : a = b ↔ x = y) :
    compare a b = compare x y := by
  rcases lt_trichotomy x y with h | h | h
  · rw [compare_lt_iff_lt.mpr h, compare_lt_iff_lt.mpr (hlt.mpr h)]
  · rw [compare_eq_iff_eq.mpr h, compare_eq_iff_eq.mpr (heq.mpr h)]
  · rw [compare_gt_iff_gt.mpr h, compare_gt_iff_gt.mpr (by omega)]

/-- Sums that both implementations compute exactly compare the same. -/
lemma cmp_add_eq (h₁ : TickSum t d₁) (h₂ : TickSum t d₂) (hlt₁ : d₁.totalNanos < 2^64)
    (hlt₂ : d₂.totalNanos < 2^64) :
    ((Windows.SystemTime.ofTicks t).add d₁).cmp ((Windows.SystemTime.ofTicks t).add d₂) =
      ((SystemTime.ofTicks t).add d₁).cmp ((SystemTime.ofTicks t).add d₂) := by
  obtain ⟨hv₁,ht₁⟩ := SystemTime.add_ofTicks h₁
  obtain ⟨hv₂,ht₂⟩ := SystemTime.add_ofTicks h₂
  have hq₁ := Windows.SystemTime.add_quadPart_toNat h₁ hlt₁
  have hq₂ := Windows.SystemTime.add_quadPart_toNat h₂ hlt₂
  have hd₁ := h₁.totalNanos_eq
  have hd₂ := h₂.totalNanos_eq
  rw [SystemTime.cmp_eq_compare hv₁ hv₂, Windows.SystemTime.cmp, Nums.compare_eq_toNat]
  exact compare_congr (by omega) (by omega)

/-- The implementations give both durations back and order their sums alike exactly while
either duration is shorter than 2^63 nanoseconds. -/
theorem implementations_agree_iff (h₁ : TickSum t d₁) (h₂ : TickSum t d₂) :
    (Windows.SystemTime.sinceAdd t d₁ = some (some d₁) ∧
      Windows.SystemTime.sinceAdd t d₂ = some (some d₂) ∧
      SystemTime.sinceAdd t d₁ = some (some d₁) ∧ SystemTime.sinceAdd t d₂ = some (some d₂) ∧
      ((Windows.SystemTime.ofTicks t).add d₁).cmp ((Windows.SystemTime.ofTicks t).add d₂) =
        ((SystemTime.ofTicks t).add d₁).cmp ((SystemTime.ofTicks t).add d₂)) ↔
      d₁.totalNanos < 2^63 ∧ d₂.totalNanos < 2^63 := by
  rw [Windows.SystemTime.sinceAdd_iff h₁, Windows.SystemTime.sinceAdd_iff h₂]
  constructor
  · intro h
    exact ⟨h.1,h.2.1⟩
  · intro ⟨hlt₁,hlt₂⟩
    exact ⟨hlt₁,hlt₂,SystemTime.sinceAdd_eq_self h₁,SystemTime.sinceAdd_eq_self h₂,
      cmp_add_eq h₁ h₂ (by omega) (by omega)⟩

lemma tickSum_secs (secs : UInt64) (h : secs.toNat < 2^40) : TickSum 0 ⟨secs,0⟩ where
  normalized := Duration.wholeSecs_normalized secs
  ticks := ⟨0,rfl⟩
  fits := by
    have h0 : (0 : UInt32).toNat = 0 := rfl
    rw [Duration.totalNanos_mk, h0, Windows.SystemTime.epochTicks]
    omega

theorem implementations_agree_at :
    (Windows.SystemTime.sinceAdd 0 ⟨5,0⟩ = some (some ⟨5,0⟩) ∧
      Windows.SystemTime.sinceAdd 0 ⟨9,0⟩ = some (some ⟨9,0⟩) ∧
      SystemTime.sinceAdd 0 ⟨5,0⟩ = some (some ⟨5,0⟩) ∧
      SystemTime.sinceAdd 0 ⟨9,0⟩ = some (some ⟨9,0⟩) ∧
      ((Windows.SystemTime.ofTicks 0).add ⟨5,0⟩).cmp ((Windows.SystemTime.ofTicks 0).add ⟨9,0⟩) =
        ((SystemTime.ofTicks 0).add ⟨5,0⟩).cmp ((SystemTime.ofTicks 0).add ⟨9,0⟩)) ↔
      Duration.totalNanos ⟨5,0⟩ < 2^63 ∧ Duration.totalNanos ⟨9,0⟩ < 2^63 :=
  implementations_agree_iff (tickSum_secs 5 (by decide)) (tickSum_secs 9 (by decide))

/-- After 585 years Windows counts from zero again. -/
theorem implementations_differ :
    TickSum 0 ⟨18446744074,0⟩ ∧ TickSum 0 ⟨1,0⟩ ∧
      Windows.SystemTime.sinceAdd 0 ⟨18446744074,0⟩ = some (some ⟨0,290448300⟩) ∧
      SystemTime.sinceAdd 0 ⟨18446744074,0⟩ = some (some ⟨18446744074,0⟩) ∧
      ((Windows.SystemTime.ofTicks 0).add ⟨18446744074,0⟩).cmp
        ((Windows.SystemTime.ofTicks 0).add ⟨1,0⟩) = .lt ∧
      ((SystemTime.ofTicks 0).add ⟨18446744074,0⟩).cmp
        ((SystemTime.ofTicks 0).add ⟨1,0⟩) = .gt :=
  ⟨tickSum_secs _ (by decide),tickSum_secs _ (by decide),rfl,rfl,rfl,rfl⟩

end
end Asp
