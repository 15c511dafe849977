import Asp.Time.Difference

/-! Instants as raw nanosecond counts: an i64 whose bits are the count modulo 2^64. -/
namespace Asp.Instant
open TimeDetail

def rawNanos (t : Instant) : Int64 := (t.m_secs * NANOS_IN_SEC + t.m_nanos).toInt64

def fromRawNanos (nanos : Int64) : Instant :=
  ⟨nanos.toUInt64 / NANOS_IN_SEC,nanos.toUInt64 % NANOS_IN_SEC⟩

lemma rawNanos_toNat (t : Instant) : t.rawNanos.toUInt64.toNat = t.totalNanos % 2^64 := by
  rw [rawNanos, UInt64.toUInt64_toInt64, UInt64.toNat_add, UInt64.toNat_mul, NANOS_IN_SEC_toNat,
    totalNanos]
  omega

lemma fromRawNanos_valid (n : Int64) : (fromRawNanos n).Valid := Duration.mod_nanos_lt _

/-- The instant stands for the bits read as a u64. -/
lemma fromRawNanos_totalNanos (n : Int64) : (fromRawNanos n).totalNanos = n.toUInt64.toNat := by
  rw [totalNanos, fromRawNanos, UInt64.toNat_div, UInt64.toNat_mod, NANOS_IN_SEC_toNat]
  omega

lemma fromRawNanos_secs_lt (n : Int64) : (fromRawNanos n).m_secs.toNat < 2^63 := by
  have hlt := n.toUInt64.toNat_lt
  rw [fromRawNanos, UInt64.toNat_div, NANOS_IN_SEC_toNat]
  omega

theorem rawNanos_fromRawNanos (n : Int64) : (fromRawNanos n).rawNanos = n := by
  have hbits : (fromRawNanos n).rawNanos.toUInt64 = n.toUInt64 := by
    rw [← UInt64.toNat_inj, rawNanos_toNat, fromRawNanos_totalNanos,
      Nat.mod_eq_of_lt n.toUInt64.toNat_lt]
  exact congrArg UInt64.toInt64 hbits

theorem fromRawNanos_rawNanos {t : Instant} (ht : t.Valid) (hlt : t.totalNanos < 2^64) :
    fromRawNanos t.rawNanos = t := by
  apply ext_totalNanos (fromRawNanos_valid _) ht
  rw [fromRawNanos_totalNanos, rawNanos_toNat, Nat.mod_eq_of_lt hlt]

section
variable {m n : Int64}

/-- Counts from zero on are read as they are, and so is their difference. -/
lemma toNat_sub_of_le (hm : 0 ≤ m) (hle : m ≤ n) :
    (n - m).toUInt64.toNat + m.toUInt64.toNat = n.toUInt64.toNat := by
  have h0 : (0 : Int64).toInt = 0 := rfl
  rw [Int64.le_iff_toInt_le, h0] at hm
  rw [Int64.le_iff_toInt_le] at hle
  have hn := n.toInt_lt
  have hsub : (n - m).toInt = n.toInt - m.toInt := by
    rw [Int64.toInt_sub]
    apply Int.bmod_eq_of_le <;> omega
  have hdiff := SystemTime.toNat_of_nonneg (x := n - m) (by omega)
  have hcast := SystemTime.toNat_of_nonneg hm
  have hcast' := SystemTime.toNat_of_nonneg (hm.trans hle)
  omega

/-- The encoding keeps the order of counts from zero on. -/
theorem fromRawNanos_cmp (hm : 0 ≤ m) (hle : m ≤ n) :
    (fromRawNanos m).cmp (fromRawNanos n) ≠ .gt := by
  have hsum := toNat_sub_of_le hm hle
  rw [cmp_ne_gt_iff, rank_le_iff (fromRawNanos_valid m).le (fromRawNanos_valid n).le
    (.inr (fromRawNanos_valid n)), fromRawNanos_totalNanos, fromRawNanos_totalNanos]
  omega

/-- The time between two instants is the difference of their counts. -/
theorem fromRawNanos_durationSince (hm : 0 ≤ m) (hle : m ≤ n) :
    (fromRawNanos n).borrowOverflows (fromRawNanos m) = false ∧
      (fromRawNanos n).durationSince (fromRawNanos m) = .fromNanos (n - m).toUInt64 := by
  have hsum := toNat_sub_of_le hm hle
  have hs := fromRawNanos_secs_lt m
  have hs' := fromRawNanos_secs_lt n
  refine ⟨borrowOverflows_of_near (by omega) (by omega),?_⟩
  obtain ⟨hnorm,htotal⟩ := durationSince_of_near (fromRawNanos_valid n) (fromRawNanos_valid m)
    (by omega) (by omega)
  apply Duration.ext_totalNanos hnorm (Duration.fromNanos_normalized _)
  rw [htotal, fromRawNanos_totalNanos, fromRawNanos_totalNanos, Duration.fromNanos_totalNanos]
  omega

end

/-- Raw nanoseconds encode instants faithfully, and carry the order and the differences of
counts from zero on. -/
theorem rawNanos_faithful :
    (∀ n : Int64, (fromRawNanos n).rawNanos = n) ∧
      (∀ i : Instant, i.Valid → i.totalNanos < 2^64 → fromRawNanos i.rawNanos = i) ∧
      ∀ m n : Int64, 0 ≤ m → m ≤ n → (fromRawNanos m).cmp (fromRawNanos n) ≠ .gt ∧
        (fromRawNanos n).borrowOverflows (fromRawNanos m) = false ∧
        (fromRawNanos n).durationSince (fromRawNanos m) = .fromNanos (n - m).toUInt64 :=
  ⟨rawNanos_fromRawNanos,fun _ => fromRawNanos_rawNanos,
    fun _ _ hm hle => ⟨fromRawNanos_cmp hm hle,fromRawNanos_durationSince hm hle⟩⟩

/-- A negative count, an instant and the time between two counts. -/
theorem rawNanos_faithful_at :
    (fromRawNanos (-5)).rawNanos = -5 ∧ fromRawNanos (rawNanos ⟨3,7⟩) = ⟨3,7⟩ ∧
      (fromRawNanos 5).cmp (fromRawNanos 3000000000) ≠ .gt ∧
      (fromRawNanos 3000000000).borrowOverflows (fromRawNanos 5) = false ∧
      (fromRawNanos 3000000000).durationSince (fromRawNanos 5) = .fromNanos 2999999995 :=
  ⟨rawNanos_faithful.1 (-5),
    rawNanos_faithful.2.1 ⟨3,7⟩ (show 7 < 10^9 by decide) (show 3000000007 < 2^64 by decide),
    rawNanos_faithful.2.2 5 3000000000 (by decide) (by decide)⟩

end Asp.Instant
