import Asp.Foundation.Saturation
import Asp.Time.DurationRuns
import Asp.Time.RawNanos

/-! The saturating sums and differences of instants, and how they lie in the order. -/
namespace Asp.Instant
open Foundation TimeDetail

def saturatingSub (t : Instant) (dur : Duration) : Instant := (t.checkedSub dur).getD {}

/-- `operator-` -/
def sub (t : Instant) (dur : Duration) : Instant := t.saturatingSub dur

/-- An instant that some program can hold. The operators are the saturating operations. -/
inductive Built : Instant → Prop
  | default : Built {}
  | now {t : Instant} : t.Reading → Built t
  | farFuture : Built farFuture
  | fromRawNanos (nanos : Int64) : Built (fromRawNanos nanos)
  | checkedAdd {t u : Instant} {dur : Duration} :
      Built t → dur.Built → t.checkedAdd dur = some u → Built u
  | checkedSub {t u : Instant} {dur : Duration} :
      Built t → dur.Built → t.checkedSub dur = some u → Built u
  | saturatingAdd {t : Instant} {dur : Duration} :
      Built t → dur.Built → Built (t.saturatingAdd dur)
  | saturatingSub {t : Instant} {dur : Duration} :
      Built t → dur.Built → Built (t.saturatingSub dur)

section
variable {t u i : Instant} {dur d₁ d₂ : Duration}

lemma farFuture_valid : farFuture.Valid := show 0 < 10^9 by decide

lemma checkedAdd_nanos_le (ht : t.m_nanos.toNat ≤ 10^9) (hd : dur.m_nanos.toNat ≤ 10^9)
    (h : t.checkedAdd dur = some u) : u.m_nanos.toNat ≤ 10^9 := by
  have hfields := checkedAdd_fields ht hd h
  omega

lemma checkedSub_nanos_le (ht : t.m_nanos.toNat ≤ 10^9) (hd : dur.m_nanos.toNat ≤ 10^9)
    (h : t.checkedSub dur = some u) : u.m_nanos.toNat ≤ 10^9 := by
  have hfields := (checkedSub_fields ht hd).mp h
  omega

/-- A whole second may stay in the nanoseconds, but not more. -/
theorem Built.nanos_le (h : i.Built) : i.m_nanos.toNat ≤ 10^9 := by
  induction h with
  | default => exact Nat.zero_le _
  | now hread => exact hread.1.le
  | farFuture => exact farFuture_valid.le
  | fromRawNanos n => exact (fromRawNanos_valid n).le
  | checkedAdd _ hd h ih => exact checkedAdd_nanos_le ih hd.nanos_le h
  | checkedSub _ hd h ih => exact checkedSub_nanos_le ih hd.nanos_le h
  | @saturatingAdd t dur _ hd ih =>
    rw [Instant.saturatingAdd]
    cases h : t.checkedAdd dur with
    | none => exact farFuture_valid.le
    | some u => exact checkedAdd_nanos_le ih hd.nanos_le h
  | @saturatingSub t dur _ hd ih =>
    rw [Instant.saturatingSub]
    cases h : t.checkedSub dur with
    | none => exact Nat.zero_le _
    | some u => exact checkedSub_nanos_le ih hd.nanos_le h

/-- A sum saturates at 2^64 seconds, to the far future. -/
theorem add_spec (ht : t.m_nanos.toNat ≤ 10^9) (hd : dur.Normalized) :
    (t.add dur).Valid ∧ (t.add dur).totalNanos =
      saturate (2^64*10^9) farFuture.totalNanos (t.totalNanos + dur.totalNanos) := by
  rw [add, Instant.saturatingAdd]
  cases h : t.checkedAdd dur with
  | none =>
    have hlimit : 2^64*10^9 ≤ t.totalNanos + dur.totalNanos := by
      by_contra hlt
      exact checkedAdd_ne_none ht hd (not_le.mp hlt) h
    exact ⟨farFuture_valid,(saturate_of_le hlimit).symm⟩
  | some u =>
    obtain ⟨hu,htotal⟩ := (checkedAdd_eq_some ht hd).mp h
    have hlt := totalNanos_lt hu
    exact ⟨hu,htotal.trans (saturate_of_lt (htotal ▸ hlt)).symm⟩

/-- A difference is cut off at the first instant. Otherwise its nanoseconds are not zero. -/
theorem sub_spec (ht : t.m_nanos.toNat ≤ 10^9) (hd : dur.Normalized) :
    (t.sub dur).totalNanos = t.totalNanos - dur.totalNanos ∧ (t.sub dur).m_nanos.toNat ≤ 10^9 ∧
      (t.sub dur = {} ∨ 0 < (t.sub dur).m_nanos.toNat) := by
  rw [sub, Instant.saturatingSub]
  cases h : t.checkedSub dur with
  | none =>
    have hle := (checkedSub_eq_none ht hd).mp h
    have h0 : totalNanos {} = 0 := rfl
    exact ⟨by rw [Option.getD_none]; omega,Nat.zero_le _,.inl rfl⟩
  | some u =>
    obtain ⟨htotal,hpos,hle⟩ := (checkedSub_eq_some ht hd).mp h
    exact ⟨by rw [Option.getD_some]; omega,hle,.inr hpos⟩

/-- What is not later by its total is not later in the order, if it is a difference. -/
lemma sub_rank_le (ht : t.m_nanos.toNat ≤ 10^9) (hd : dur.Normalized)
    (hu : u.m_nanos.toNat ≤ 10^9) (hle : t.totalNanos - dur.totalNanos ≤ u.totalNanos) :
    (t.sub dur).rank ≤ u.rank := by
  obtain ⟨htotal,hn,hzero | hpos⟩ := sub_spec ht hd
  · rw [hzero]
    exact Nat.zero_le _
  · rw [rank_le_iff hn hu (.inl hpos), htotal]
    exact hle

/-- A longer duration gives no earlier sum, unless only the longer sum saturates and the other
lies past the far future. -/
theorem add_le_add_iff (hi : i.m_nanos.toNat ≤ 10^9) (h₁ : d₁.Normalized) (h₂ : d₂.Normalized)
    (hle : d₁.totalNanos ≤ d₂.totalNanos) :
    (i.add d₁).cmp (i.add d₂) ≠ .gt ↔
      i.totalNanos + d₂.totalNanos < 2^64*10^9 ∨ (i.add d₁).cmp farFuture ≠ .gt := by
  obtain ⟨hv₁,htotal₁⟩ := add_spec hi h₁
  obtain ⟨hv₂,htotal₂⟩ := add_spec hi h₂
  rw [cmp_ne_gt_iff, rank_le_iff hv₁.le hv₂.le (.inr hv₂), cmp_ne_gt_iff,
    rank_le_iff hv₁.le farFuture_valid.le (.inr farFuture_valid), htotal₁, htotal₂,
    saturate_le_saturate_iff (by omega)]

/-- A sum is no earlier than the instant, unless it saturates and the instant lies past the far
future. -/
theorem le_add_iff (hi : i.m_nanos.toNat ≤ 10^9) (hd : dur.Normalized) :
    i.cmp (i.add dur) ≠ .gt ↔
      i.totalNanos + dur.totalNanos < 2^64*10^9 ∨ i.cmp farFuture ≠ .gt := by
  obtain ⟨hv,htotal⟩ := add_spec hi hd
  rw [cmp_ne_gt_iff, rank_le_iff hi hv.le (.inr hv), cmp_ne_gt_iff,
    rank_le_iff hi farFuture_valid.le (.inr farFuture_valid), htotal,
    le_saturate_iff (Nat.le_add_right _ _)]

/-- A longer duration gives no later difference. -/
theorem sub_le_sub (hi : i.m_nanos.toNat ≤ 10^9) (h₁ : d₁.Normalized) (h₂ : d₂.Normalized)
    (hle : d₁.totalNanos ≤ d₂.totalNanos) : (i.sub d₂).cmp (i.sub d₁) ≠ .gt := by
  obtain ⟨htotal,hn,_⟩ := sub_spec hi h₁
  rw [cmp_ne_gt_iff]
  apply sub_rank_le hi h₂ hn
  omega

/-- A difference is no later than the instant. -/
theorem sub_le (hi : i.m_nanos.toNat ≤ 10^9) (hd : dur.Normalized) :
    (i.sub dur).cmp i ≠ .gt := by
  rw [cmp_ne_gt_iff]
  exact sub_rank_le hi hd hi (Nat.sub_le _ _)

/-- Differences are monotone throughout. Sums are monotone while they are exact, and where they
saturate exactly up to the far future. -/
theorem saturating_order (hi : i.Built) (h₁ : d₁.Normalized) (h₂ : d₂.Normalized)
    (hle : d₁.cmp d₂ ≠ .gt) :
    ((i.add d₁).cmp (i.add d₂) ≠ .gt ↔
      i.totalNanos + d₂.totalNanos < 2^64*10^9 ∨ (i.add d₁).cmp farFuture ≠ .gt) ∧
    (i.cmp (i.add d₁) ≠ .gt ↔
      i.totalNanos + d₁.totalNanos < 2^64*10^9 ∨ i.cmp farFuture ≠ .gt) ∧
    (i.sub d₂).cmp (i.sub d₁) ≠ .gt ∧ (i.sub d₁).cmp i ≠ .gt := by
  have htotals := (Duration.cmp_ne_gt_iff h₁ h₂).mp hle
  exact ⟨add_le_add_iff hi.nanos_le h₁ h₂ htotals,le_add_iff hi.nanos_le h₁,
    sub_le_sub hi.nanos_le h₁ h₂ htotals,sub_le hi.nanos_le h₁⟩

/-- From one second after the first instant, by a millisecond and by the longest duration. -/
theorem saturating_order_at :
    ((add ⟨1,0⟩ (.fromMillis 1)).cmp (add ⟨1,0⟩ .infinite) ≠ .gt ↔
      totalNanos ⟨1,0⟩ + Duration.infinite.totalNanos < 2^64*10^9 ∨
        (add ⟨1,0⟩ (.fromMillis 1)).cmp farFuture ≠ .gt) ∧
    (cmp ⟨1,0⟩ (add ⟨1,0⟩ (.fromMillis 1)) ≠ .gt ↔
      totalNanos ⟨1,0⟩ + (Duration.fromMillis 1).totalNanos < 2^64*10^9 ∨
        cmp ⟨1,0⟩ farFuture ≠ .gt) ∧
    (sub ⟨1,0⟩ .infinite).cmp (sub ⟨1,0⟩ (.fromMillis 1)) ≠ .gt ∧
    (sub ⟨1,0⟩ (.fromMillis 1)).cmp ⟨1,0⟩ ≠ .gt :=
  saturating_order (.fromRawNanos 1000000000) (Duration.fromMillis_normalized 1)
    (Duration.ctor_normalized _ _) (by decide)

/-- A timeout of 2^48 seconds ends later than an infinite one. -/
theorem saturation_earlier :
    Built ⟨1,0⟩ ∧ (Duration.fromSecs (2^48)).Normalized ∧ Duration.infinite.Normalized ∧
      (Duration.fromSecs (2^48)).cmp .infinite ≠ .gt ∧
      (add ⟨1,0⟩ (.fromSecs (2^48))).cmp (add ⟨1,0⟩ .infinite) = .gt :=
  ⟨.fromRawNanos 1000000000,Duration.wholeSecs_normalized _,Duration.ctor_normalized _ _,
    by decide +kernel,by decide +kernel⟩

end
end Asp.Instant
