import Asp.Time.Instant
import Asp.Time.SystemTime

/-! Durations act on points in time by addition: adding two durations one after the other
against adding their sum. -/
namespace Asp.Time
open Duration

variable {a b ab : Duration}

/-- No step of `t + a + b` and of `t + (a + b)` saturates. -/
def InRange (t : Instant) (a b ab : Duration) : Prop :=
  (t.checkedAdd a).isSome ∧ ((t.add a).checkedAdd b).isSome ∧ (t.checkedAdd ab).isSome

instance (t : Instant) (a b ab : Duration) : Decidable (InRange t a b ab) :=
  inferInstanceAs (Decidable (_ ∧ _ ∧ _))

/-- The getters of a sum return the sum of the totals, or one second more than that
(modulo the width of seconds()). -/
lemma getterNanos_sum (ha : a.Normalized) (hb : b.Normalized) (hab : a.add b = .ok ab) :
    (¬ CarriesExactly a b → ab.getterNanos = a.totalNanos + b.totalNanos) ∧
    (CarriesExactly a b →
      ∃ k ≤ 1, ab.getterNanos + k*(2^64*10^9) = a.totalNanos + b.totalNanos + 10^9) := by
  obtain ⟨htotal,hle,hnorm⟩ := checkedAdd_spec ha hb (add_eq_ok.mp hab)
  constructor
  · intro h
    rw [getterNanos_of_normalized (hnorm.mpr h), htotal]
  · intro h
    rw [← htotal]
    refine getterNanos_of_full (le_antisymm hle ?_)
    by_contra hlt
    exact (hnorm.mp (not_le.mp hlt)) h

lemma instant_add_assoc_iff (ha : a.Normalized) (hb : b.Normalized) (hab : a.add b = .ok ab)
    {t : Instant} (ht : t.Valid) (hr : InRange t a b ab) :
    (t.add a).add b = t.add ab ↔ ¬ CarriesExactly a b := by
  obtain ⟨h1,h2,h3⟩ := hr
  obtain ⟨ta,hta⟩ := Option.isSome_iff_exists.mp h1
  rw [Instant.add_of_checkedAdd hta] at h2 ⊢
  obtain ⟨tab,htab⟩ := Option.isSome_iff_exists.mp h2
  obtain ⟨u,hu⟩ := Option.isSome_iff_exists.mp h3
  rw [Instant.add_of_checkedAdd htab, Instant.add_of_checkedAdd hu]
  obtain ⟨hva,hsa⟩ := Instant.checkedAdd_spec ht ha.le hta
  obtain ⟨hvb,hsb⟩ := Instant.checkedAdd_spec hva hb.le htab
  obtain ⟨hvu,hsu⟩ := Instant.checkedAdd_spec ht (checkedAdd_spec ha hb (add_eq_ok.mp hab)).2.1 hu
  rw [getterNanos_of_normalized ha] at hsa
  rw [getterNanos_of_normalized hb] at hsb
  obtain ⟨hexact,hfull⟩ := getterNanos_sum ha hb hab
  constructor
  · rintro rfl hc
    obtain ⟨k,hk,he⟩ := hfull hc
    omega
  · intro hc
    exact Instant.ext_totalNanos hvb hvu (by rw [hsb, hsa, hsu, hexact hc, Nat.add_assoc])

lemma systemTime_add_assoc_iff (ha : a.Normalized) (hb : b.Normalized) (hab : a.add b = .ok ab)
    {t : SystemTime} (ht : t.Valid) :
    (t.add a).add b = t.add ab ↔ ¬ CarriesExactly a b := by
  obtain ⟨hva,k,hsa⟩ := SystemTime.add_spec ht ha.le
  obtain ⟨hvb,l,hsb⟩ := SystemTime.add_spec hva hb.le
  obtain ⟨hvu,m,hsu⟩ := SystemTime.add_spec ht (checkedAdd_spec ha hb (add_eq_ok.mp hab)).2.1
  rw [getterNanos_of_normalized ha] at hsa
  rw [getterNanos_of_normalized hb] at hsb
  obtain ⟨hexact,hfull⟩ := getterNanos_sum ha hb hab
  constructor
  · intro he hc
    obtain ⟨n,hn,hg⟩ := hfull hc
    rw [he] at hsb
    omega
  · intro hc
    refine SystemTime.ext_totalNanos (k := k+l-m) hvb hvu ?_
    have hx := hexact hc
    rw [hsb, hsa, hsu, hx]
    push_cast
    ring

/-- Where nothing saturates or throws, adding two durations to a point in time agrees with
adding their sum exactly when their nanoseconds do not add up to one second. The sum of two
that do is stored unnormalized, and its extra second is then counted by seconds() and by the
carry of the addition. -/
theorem add_assoc_iff (ha : a.Normalized) (hb : b.Normalized) (hab : a.add b = .ok ab) :
    (∀ t : Instant, t.Valid → InRange t a b ab →
      ((t.add a).add b = t.add ab ↔ ¬ CarriesExactly a b)) ∧
    (∀ t : SystemTime, t.Valid → ((t.add a).add b = t.add ab ↔ ¬ CarriesExactly a b)) :=
  ⟨fun _ ht hr => instant_add_assoc_iff ha hb hab ht hr,
    fun _ ht => systemTime_add_assoc_iff ha hb hab ht⟩

/-- Twice 700 ms after five seconds, on both clocks. -/
theorem add_assoc_iff_example :
    ((Instant.add ⟨5,0⟩ (fromMillis 700)).add (fromMillis 700) =
        Instant.add ⟨5,0⟩ (fromMillis 1400) ↔
      ¬ CarriesExactly (fromMillis 700) (fromMillis 700)) ∧
    ((SystemTime.add ⟨5,0⟩ (fromMillis 700)).add (fromMillis 700) =
        SystemTime.add ⟨5,0⟩ (fromMillis 1400) ↔
      ¬ CarriesExactly (fromMillis 700) (fromMillis 700)) := by
  obtain ⟨hi,hs⟩ := add_assoc_iff (a := fromMillis 700) (fromMillis_normalized _)
    (fromMillis_normalized _) (show (fromMillis 700).add (fromMillis 700) = .ok (fromMillis 1400) by
      decide)
  exact ⟨hi ⟨5,0⟩ (show 0 < 10^9 by norm_num) (by decide),hs ⟨5,0⟩ (by constructor <;> decide)⟩

/-- Twice half a second after the start of the clock is 1 s, and 2 s when the halves are
added first; on neither clock is addition an action. -/
theorem add_assoc_fails :
    (¬ ∀ (a b ab : Duration) (t : Instant), a.Normalized → b.Normalized → a.add b = .ok ab →
      t.Valid → InRange t a b ab → (t.add a).add b = t.add ab) ∧
    (¬ ∀ (a b ab : Duration) (t : SystemTime), a.Normalized → b.Normalized → a.add b = .ok ab →
      t.Valid → (t.add a).add b = t.add ab) := by
  have hn := fromMillis_normalized 500
  have hab : (fromMillis 500).add (fromMillis 500) = .ok ⟨0,1000000000⟩ := by decide
  constructor
  · intro h
    have hi := h _ _ _ ⟨0,0⟩ hn hn hab (show 0 < 10^9 by norm_num) (by decide)
    have hl : (Instant.add ⟨0,0⟩ (fromMillis 500)).add (fromMillis 500) = ⟨1,0⟩ := by decide
    have hr : Instant.add ⟨0,0⟩ ⟨0,1000000000⟩ = ⟨2,0⟩ := by decide
    rw [hl, hr] at hi
    exact absurd hi (by decide)
  · intro h
    have hi := h _ _ _ ⟨0,0⟩ hn hn hab (by constructor <;> decide)
    have hl : (SystemTime.add ⟨0,0⟩ (fromMillis 500)).add (fromMillis 500) = ⟨1,0⟩ := by decide
    have hr : SystemTime.add ⟨0,0⟩ ⟨0,1000000000⟩ = ⟨2,0⟩ := by decide
    rw [hl, hr] at hi
    exact absurd hi (by decide)

end Asp.Time
