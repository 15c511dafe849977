import Asp.Foundation.Machine
import Asp.Time.Duration

/-! Programs that build durations with the factories and combine them. The state is the pool of
all durations produced so far, newest first; an operation names its operands by position. -/
namespace Asp.Duration
open Foundation TimeDetail

inductive Op
  | ctor (seconds : UInt64) (nanos : UInt32)
  | fromSecs (secs : ℤ)
  | fromNanos (nanos : UInt64)
  | fromMicros (micros : UInt64)
  | fromMillis (ms : UInt64)
  | fromMinutes (mins : UInt64)
  | fromHours (hours : UInt64)
  | fromDays (days : UInt64)
  | fromWeeks (weeks : UInt64)
  | fromYears (years : UInt64)
  | zero
  | infinite
  | checkedAdd (i j : ℕ)
  | checkedSub (i j : ℕ)
  | checkedMul (i : ℕ) (k : UInt32)
  | absDiff (i j : ℕ)
  | add (i j : ℕ)
  | sub (i j : ℕ)
  | mul (i : ℕ) (k : UInt32)
  | div (i : ℕ) (k : UInt32)

/-- The duration an operation produces; the inner `none` is an empty optional or an exception. -/
def Op.result (pool : List Duration) : Op → Option (Option Duration)
  | .ctor s n => some (some (Duration.ctor s n))
  | .fromSecs n => some (some (Duration.fromSecs n))
  | .fromNanos n => some (some (Duration.fromNanos n))
  | .fromMicros n => some (some (Duration.fromMicros n))
  | .fromMillis n => some (some (Duration.fromMillis n))
  | .fromMinutes n => some (some (Duration.fromMinutes n))
  | .fromHours n => some (some (Duration.fromHours n))
  | .fromDays n => some (some (Duration.fromDays n))
  | .fromWeeks n => some (some (Duration.fromWeeks n))
  | .fromYears n => some (some (Duration.fromYears n))
  | .zero => some (some Duration.zero)
  | .infinite => some (some Duration.infinite)
  | .checkedAdd i j => pool[i]?.bind fun a => pool[j]?.map fun b => a.checkedAdd b
  | .checkedSub i j => pool[i]?.bind fun a => pool[j]?.map fun b => a.checkedSub b
  | .checkedMul i k => pool[i]?.map fun a => a.checkedMul k
  | .absDiff i j => pool[i]?.bind fun a => pool[j]?.map fun b => a.absDiff b
  | .add i j => pool[i]?.bind fun a => pool[j]?.map fun b => (a.add b).toOption
  | .sub i j => pool[i]?.bind fun a => pool[j]?.map fun b => some (a.sub b)
  | .mul i k => pool[i]?.map fun a => (a.mul k).toOption
  | .div i k => pool[i]?.map fun a => (a.div k).toOption

/-- Run one operation; a failing one leaves the pool as it is. -/
def pool : Machine (List Duration) Op where
  step ds op := (op.result ds).map fun r => r.toList ++ ds

/-- The guard under which a sum is normalized: its operands' nanoseconds do not add up to
exactly one second, unless the seconds overflow and nothing is produced. -/
def SumGuard (a b : Duration) : Prop :=
  CarriesExactly a b → 2^64 ≤ a.m_seconds.toNat + b.m_seconds.toNat

instance (a b : Duration) : Decidable (SumGuard a b) := inferInstanceAs (Decidable (_ → _))

/-- Every addition of a run satisfies `SumGuard`. -/
def AddGuard (ds : List Duration) : Op → Prop
  | .checkedAdd i j | .add i j => ∀ a ∈ ds[i]?, ∀ b ∈ ds[j]?, SumGuard a b
  | _ => True

/-- Exactly one of `<`, `==`, `>` holds, the one that holds of the totals. -/
def OrderAgrees (a b : Duration) : Prop :=
  (a.cmp b = .lt ∧ a.eq b = false ∧ a.totalNanos < b.totalNanos) ∨
  (a.cmp b = .eq ∧ a.eq b = true ∧ a.totalNanos = b.totalNanos) ∨
  (a.cmp b = .gt ∧ a.eq b = false ∧ a.totalNanos > b.totalNanos)

/-- The representation invariant of everything produced, and what the comparisons owe to it. -/
def Coherent (ds : List Duration) : Prop :=
  (∀ d ∈ ds, d.Normalized) ∧ ∀ a ∈ ds, ∀ b ∈ ds, OrderAgrees a b

lemma orderAgrees_of_normalized {a b : Duration} (ha : a.Normalized) (hb : b.Normalized) :
    OrderAgrees a b := by
  have he := eq_iff_totalNanos ha hb
  have hc := cmp_eq_compare ha hb
  rcases lt_trichotomy a.totalNanos b.totalNanos with h | h | h
  · refine .inl ⟨hc.trans (compare_lt_iff_lt.mpr h),?_,h⟩
    rw [Bool.eq_false_iff, Ne, he]
    exact h.ne
  · exact .inr (.inl ⟨hc.trans (compare_eq_iff_eq.mpr h),he.mpr h,h⟩)
  · refine .inr (.inr ⟨hc.trans (compare_gt_iff_gt.mpr h),?_,h⟩)
    rw [Bool.eq_false_iff, Ne, he]
    exact h.ne'

/-- The guard is exact: a sum of normalized durations is denormalized only without it. -/
theorem checkedAdd_normalized_iff {a b : Duration} (ha : a.Normalized) (hb : b.Normalized) :
    (∀ c ∈ a.checkedAdd b, c.Normalized) ↔ SumGuard a b := by
  constructor
  · intro h hc
    by_contra hlt
    have hcarry := hc
    simp only [CarriesExactly] at hcarry
    obtain ⟨c,hadd⟩ := Option.ne_none_iff_exists'.mp
      (mt (checkedAdd_eq_none ha.le hb.le).mp (by omega))
    exact ((checkedAdd_spec ha hb hadd).2.2.mp (h c hadd)) hc
  · intro h c hc
    refine (checkedAdd_spec ha hb hc).2.2.mpr fun he => ?_
    obtain ⟨secs,hs,_⟩ := Option.bind_eq_some_iff.mp hc
    rw [Nums.checkedAdd_eq_some] at hs
    have hl := secs.toNat_lt
    have hg := h he
    omega

lemma toOption_eq_some {r : Except String Duration} {d : Duration} :
    r.toOption = some d ↔ r = .ok d := by
  cases r <;> simp [Except.toOption]

/-- A property of all normalized durations that differences keep holds of what an operation
produces, if the sum that it may compute keeps it too. -/
lemma result_of_closed {P : Duration → Prop} {ds : List Duration} {op : Op} {d : Duration}
    (hnorm : ∀ d, d.Normalized → P d)
    (hsub : ∀ a b c, P a → P b → a.checkedSub b = some c → P c)
    (hadd : ∀ i j, op = .checkedAdd i j ∨ op = .add i j → ∀ a ∈ ds[i]?, ∀ b ∈ ds[j]?,
      ∀ c ∈ a.checkedAdd b, P c)
    (hds : ∀ d ∈ ds, P d) (h : op.result ds = some (some d)) : P d := by
  have hget : ∀ {i : ℕ} {a : Duration}, ds[i]? = some a → P a :=
    fun ha => hds _ (List.mem_of_getElem? ha)
  cases op with
  | ctor s n => cases h; exact hnorm _ (ctor_normalized s n)
  | fromSecs n => cases h; exact hnorm _ (wholeSecs_normalized _)
  | fromNanos n => cases h; exact hnorm _ (fromNanos_normalized n)
  | fromMicros n => cases h; exact hnorm _ (fromMicros_normalized n)
  | fromMillis n => cases h; exact hnorm _ (fromMillis_normalized n)
  | fromMinutes n => cases h; exact hnorm _ (wholeSecs_normalized _)
  | fromHours n => cases h; exact hnorm _ (wholeSecs_normalized _)
  | fromDays n => cases h; exact hnorm _ (wholeSecs_normalized _)
  | fromWeeks n => cases h; exact hnorm _ (wholeSecs_normalized _)
  | fromYears n => cases h; exact hnorm _ (wholeSecs_normalized _)
  | zero => cases h; exact hnorm _ (ctor_normalized _ _)
  | infinite => cases h; exact hnorm _ (ctor_normalized _ _)
  | checkedAdd i j =>
    obtain ⟨a,ha,h⟩ := Option.bind_eq_some_iff.mp h
    obtain ⟨b,hb,h⟩ := Option.map_eq_some_iff.mp h
    exact hadd i j (.inl rfl) a ha b hb d h
  | checkedSub i j =>
    obtain ⟨a,ha,h⟩ := Option.bind_eq_some_iff.mp h
    obtain ⟨b,hb,h⟩ := Option.map_eq_some_iff.mp h
    exact hsub a b d (hget ha) (hget hb) h
  | checkedMul i k =>
    obtain ⟨a,_,h⟩ := Option.map_eq_some_iff.mp h
    exact hnorm _ (checkedMul_normalized h)
  | absDiff i j =>
    obtain ⟨a,ha,h⟩ := Option.bind_eq_some_iff.mp h
    obtain ⟨b,hb,h⟩ := Option.map_eq_some_iff.mp h
    rcases Option.or_eq_some_iff.mp h with h | ⟨_,h⟩
    · exact hsub a b d (hget ha) (hget hb) h
    · exact hsub b a d (hget hb) (hget ha) h
  | add i j =>
    obtain ⟨a,ha,h⟩ := Option.bind_eq_some_iff.mp h
    obtain ⟨b,hb,h⟩ := Option.map_eq_some_iff.mp h
    exact hadd i j (.inr rfl) a ha b hb d (add_eq_ok.mp (toOption_eq_some.mp h))
  | sub i j =>
    obtain ⟨a,ha,h⟩ := Option.bind_eq_some_iff.mp h
    obtain ⟨b,hb,h⟩ := Option.map_eq_some_iff.mp h
    cases h
    unfold sub
    cases hc : a.checkedSub b with
    | none => exact hnorm _ (wholeSecs_normalized 0)
    | some c => exact hsub a b c (hget ha) (hget hb) hc
  | mul i k =>
    obtain ⟨a,_,h⟩ := Option.map_eq_some_iff.mp h
    exact hnorm _ (checkedMul_normalized (mul_eq_ok.mp (toOption_eq_some.mp h)))
  | div i k =>
    obtain ⟨a,_,h⟩ := Option.map_eq_some_iff.mp h
    exact hnorm _ (div_normalized (toOption_eq_some.mp h))

/-- One operation of a guarded run keeps every duration normalized. -/
lemma result_normalized {ds : List Duration} {op : Op} {d : Duration}
    (hds : ∀ d ∈ ds, d.Normalized) (hg : AddGuard ds op) (h : op.result ds = some (some d)) :
    d.Normalized := by
  refine result_of_closed (fun _ h => h) (fun _ _ _ ha hb h => (checkedSub_spec ha hb h).1) ?_ hds h
  intro i j hop a ha b hb
  rw [checkedAdd_normalized_iff (hds a (List.mem_of_getElem? ha)) (hds b (List.mem_of_getElem? hb))]
  obtain rfl | rfl := hop
  · exact hg a ha b hb
  · exact hg a ha b hb

/-- A property that every operation keeps holds of every pool. -/
lemma pool_invariant {P : Duration → Prop} {guard : List Duration → Op → Prop} {ds : List Duration}
    (hop : ∀ ds op d, (∀ d ∈ ds, P d) → guard ds op → op.result ds = some (some d) → P d)
    (h : pool.Reaches guard [] ds) : ∀ d ∈ ds, P d := by
  refine h.invariant (fun ds => ∀ d ∈ ds, P d) (by simp) ?_
  intro ds op ds' hds hg hs d hd
  obtain ⟨r,hr,rfl⟩ := Option.map_eq_some_iff.mp hs
  rcases List.mem_append.mp hd with hd | hd
  · exact hop ds op d hds hg (hr.trans (congrArg some (Option.mem_toList.mp hd)))
  · exact hds d hd

/-- A duration that some program can hold. -/
def Built (d : Duration) : Prop := ∃ ds, pool.Reaches (fun _ _ => True) [] ds ∧ d ∈ ds

/-- Without the guard a whole second may stay in the nanoseconds, but not more. -/
theorem Built.nanos_le {d : Duration} (h : d.Built) : d.m_nanos.toNat ≤ 10^9 := by
  obtain ⟨ds,hr,hd⟩ := h
  refine pool_invariant (P := fun d => d.m_nanos.toNat ≤ 10^9) ?_ hr d hd
  intro ds op d hds _ hop
  refine result_of_closed (P := fun d => d.m_nanos.toNat ≤ 10^9) (fun _ h => le_of_lt h)
    (fun a b c ha hb hc => ?_) (fun i j _ a ha b hb c hc => ?_) hds hop
  · have hfields := checkedSub_fields ha hb hc
    omega
  · have hfields := checkedAdd_fields (hds a (List.mem_of_getElem? ha))
      (hds b (List.mem_of_getElem? hb)) hc
    have hla := hds a (List.mem_of_getElem? ha)
    have hlb := hds b (List.mem_of_getElem? hb)
    omega

/-- What the constructor makes. -/
theorem ctor_built (seconds : UInt64) (nanos : UInt32) : (ctor seconds nanos).Built :=
  ⟨[ctor seconds nanos],.step (a := .ctor seconds nanos) .refl trivial rfl,List.mem_singleton_self _⟩

/-- In a run whose additions satisfy the guard, every duration is normalized and any two
compare as their totals do. -/
theorem guarded_run_coherent (ds : List Duration) (h : pool.Reaches AddGuard [] ds) :
    Coherent ds := by
  have hn : ∀ d ∈ ds, d.Normalized := pool_invariant (fun _ _ _ => result_normalized) h
  exact ⟨hn,fun a ha b hb => orderAgrees_of_normalized (hn a ha) (hn b hb)⟩

/-- Adding 0.7 s to itself satisfies the guard. -/
theorem guarded_run_coherent_example :
    pool.Reaches AddGuard [] [fromMillis 1400,fromMillis 700] ∧
      Coherent [fromMillis 1400,fromMillis 700] := by
  have h : pool.Reaches AddGuard [] [fromMillis 1400,fromMillis 700] := by
    refine .step (a := .add 0 0) (.step (a := .fromMillis 700) .refl trivial rfl) ?_ (by decide)
    simp [AddGuard]
    decide
  exact ⟨h,guarded_run_coherent _ h⟩

/-- Half a second added to itself: the sum has `m_nanos == 1'000'000'000`, compares greater than
one second and is not `==` to it. -/
theorem unguarded_run_incoherent :
    ¬ ∀ ds, pool.Reaches (fun _ _ => True) [] ds → Coherent ds := by
  intro h
  have hr : pool.run [] [.fromMillis 500,.checkedAdd 0 0] =
      some [⟨0,1000000000⟩,⟨0,500000000⟩] := by decide
  have hn := (h _ (Machine.reaches_of_run hr)).1 ⟨0,1000000000⟩ (by simp)
  exact absurd hn (by decide)

end Asp.Duration
