import Asp.Sync.PosixWait
import Asp.Time.Since

/-! The Windows implementation of `asp::Notify::wait(timeout, predicate)`, which measures the
time left before every condition wait and passes it on as a 32-bit count of milliseconds. -/
namespace Asp.TimedWait
open Foundation

namespace Windows

/-- The count that stands for no time limit. -/
def INFINITE : UInt32 := 0xFFFFFFFF

/-- Where the caller is; `begin` is missing in the loop for a zero timeout. -/
inductive Pc
  | entered
  | reading                            -- in the critical section, about to take `begin`
  | testing (begin : Option Instant)   -- about to evaluate predicate()
  | measuring (begin : Instant)        -- about to compute leftTime
  | sleeping (begin : Option Instant) (millis : UInt32)   -- about to enter the condition wait
  | waiting (begin : Option Instant) (millis : UInt32) (since : ℕ)   -- in it since that reading
  | returned (result : Bool)
  deriving DecidableEq

def Pc.mayReturn : Pc → Bool → Bool
  | .returned result, b => result == b
  | _, _ => false

/-- `timeout - begin.elapsed()` -/
def leftTime (timeout : Duration) (begin : Instant) (clock : ℕ) : Duration :=
  timeout.sub ((Instant.ofNanos clock).durationSince begin)

/-- The count of u64 becomes a DWORD. -/
def afterMeasuring (timeout : Duration) (begin : Instant) (clock : ℕ) : Pc :=
  if (leftTime timeout begin clock).isZero then .returned false
  else .sleeping (some begin) (leftTime timeout begin clock).millis.toUInt32

inductive Action
  | tick (now : ℕ)
  | enter
  | read
  | test (result : Bool)
  | measure
  | sleep
  | wake      -- notified, or woken spuriously
  | expire

/-- Where the loop goes after predicate() was false. -/
def afterFalse : Option Instant → Pc
  | none => .sleeping none INFINITE
  | some begin => .measuring begin

def step (timeout : Duration) (s : State Pc) : Action → Option (State Pc)
  | .tick now => s.tick now
  | .enter => guarded (s.pc = .entered)
      (s.setPc (if timeout.isZero then .testing none else .reading))
  | .read => guarded (s.pc = .reading) (s.setPc (.testing (some (Instant.ofNanos s.clock))))
  | .test result =>
    match s.pc with
    | .testing begin =>
      some { s with last := result, pc := if result then .returned true else afterFalse begin }
    | _ => none
  | .measure =>
    match s.pc with
    | .measuring begin => some (s.setPc (afterMeasuring timeout begin s.clock))
    | _ => none
  | .sleep =>
    match s.pc with
    | .sleeping begin millis => some (s.setPc (.waiting begin millis s.clock))
    | _ => none
  | .wake =>
    match s.pc with
    | .waiting begin _ _ => some (s.setPc (.testing begin))
    | _ => none
  | .expire =>
    match s.pc with
    | .waiting (some _) millis since =>
      guarded (millis ≠ INFINITE ∧ since + millis.toNat*10^6 ≤ s.clock) (s.setPc (.returned false))
    | _ => none

def machine (timeout : Duration) : Machine (State Pc) Action where
  step := step timeout

/-- The nanoseconds left are whole milliseconds that 32 bits can count, or come out as no time
limit. -/
def Counted (left : ℕ) : Prop := 10^6 ∣ left ∧ left / 10^6 < 2^32 ∨ left / 10^6 % 2^32 = 2^32 - 1

instance (left : ℕ) : Decidable (Counted left) := inferInstanceAs (Decidable (_ ∨ _))

/-- The time left is measured where it can be counted. -/
def Guard (timeout : Duration) (s : State Pc) : Action → Prop
  | .measure => ∀ begin, s.pc = .measuring begin →
      Counted (timeout.totalNanos - (s.clock - begin.totalNanos))
  | _ => True

section Measuring
variable {timeout : Duration} {begin : Instant} {clock : ℕ}

/-- What is left is exact, and zero once the timeout has elapsed. -/
theorem leftTime_totalNanos (hb : timeout.m_nanos.toNat ≤ 10^9) (hclock : clock < clockEnd)
    (hbegin : begin.Reading) :
    (leftTime timeout begin clock).totalNanos =
      timeout.totalNanos - (clock - begin.totalNanos) := by
  obtain ⟨hnorm,htotal⟩ := Instant.durationSince_spec (Instant.ofNanos_reading hclock) hbegin
  rw [leftTime, Duration.sub_totalNanos hb hnorm, htotal, Instant.ofNanos_totalNanos hclock]

lemma millis_toUInt32 (d : Duration) : d.millis.toUInt32.toNat = d.totalNanos / 10^6 % 2^32 := by
  rw [UInt64.toNat_toUInt32, Duration.millis_toNat]
  omega

/-- Time that can be counted is waited for in full, whenever the wait begins. -/
theorem deadline_of_counted {left : Duration} (h : Counted left.totalNanos) :
    left.millis.toUInt32 = INFINITE ∨ left.totalNanos = left.millis.toUInt32.toNat*10^6 := by
  have hinf : INFINITE.toNat = 2^32 - 1 := rfl
  rw [← UInt32.toNat_inj, millis_toUInt32, hinf]
  rcases h with h | h
  · right
    omega
  · exact .inl h

/-- The call returns once the timeout has elapsed, or waits for all that is left of it. -/
theorem afterMeasuring_of_counted (hb : timeout.m_nanos.toNat ≤ 10^9) (hclock : clock < clockEnd)
    (hbegin : begin.Reading) (hle : begin.totalNanos ≤ clock)
    (hcount : Counted (timeout.totalNanos - (clock - begin.totalNanos))) :
    (afterMeasuring timeout begin clock = .returned false ∧
      begin.totalNanos + timeout.totalNanos ≤ clock) ∨
    ∃ millis, afterMeasuring timeout begin clock = .sleeping (some begin) millis ∧
      (millis = INFINITE ∨
        begin.totalNanos + timeout.totalNanos = clock + millis.toNat*10^6) := by
  have hleft := leftTime_totalNanos hb hclock hbegin
  rw [← hleft] at hcount
  rw [afterMeasuring]
  by_cases hz : (leftTime timeout begin clock).isZero = true
  · rw [if_pos hz]
    rw [Duration.isZero_iff] at hz
    exact .inl ⟨rfl,by omega⟩
  · rw [if_neg hz]
    rw [Duration.isZero_iff] at hz
    refine .inr ⟨_,rfl,(deadline_of_counted hcount).imp_right fun hmillis => ?_⟩
    omega

/-- Other time is cut short. -/
theorem early_of_not_counted {left : Duration} (h : ¬Counted left.totalNanos) :
    left.millis.toUInt32 ≠ INFINITE ∧ left.millis.toUInt32.toNat*10^6 < left.totalNanos := by
  have hinf : INFINITE.toNat = 2^32 - 1 := rfl
  rw [Ne, ← UInt32.toNat_inj, millis_toUInt32, hinf]
  simp only [Counted] at h
  omega

end Measuring

/-- What each place of the caller promises. -/
def Sound (timeout : Duration) (s : State Pc) : Prop :=
  match s.pc with
  | .testing (some begin) | .measuring begin =>
    begin.Reading ∧ s.called ≤ begin.totalNanos ∧ begin.totalNanos ≤ s.clock
  | .sleeping (some begin) millis =>
    (begin.Reading ∧ s.called ≤ begin.totalNanos ∧ begin.totalNanos ≤ s.clock) ∧
      (millis = INFINITE ∨ s.called + timeout.totalNanos ≤ s.clock + millis.toNat*10^6)
  | .waiting (some begin) millis since =>
    (begin.Reading ∧ s.called ≤ begin.totalNanos ∧ begin.totalNanos ≤ s.clock) ∧
      (millis = INFINITE ∨ s.called + timeout.totalNanos ≤ since + millis.toNat*10^6)
  | .returned true => s.last = true
  | .returned false => s.called + timeout.totalNanos ≤ s.clock
  | _ => True

section Runs
variable {timeout : Duration} {s t : State Pc} {a : Action} {called : ℕ}

lemma sound_tick {now : ℕ} (h : Sound timeout s) (hle : s.clock ≤ now) :
    Sound timeout { s with clock := now } := by
  obtain ⟨called,clock,last,pc⟩ := s
  match pc with
  | .testing (some _) | .measuring _ => exact ⟨h.1,h.2.1,h.2.2.trans hle⟩
  | .sleeping (some _) _ =>
    refine ⟨⟨h.1.1,h.1.2.1,h.1.2.2.trans hle⟩,h.2.imp_right fun hd => hd.trans ?_⟩
    exact Nat.add_le_add_right hle _
  | .waiting (some _) _ _ => exact ⟨⟨h.1.1,h.1.2.1,h.1.2.2.trans hle⟩,h.2⟩
  | .returned false => exact le_trans (b := clock) h hle
  | .returned true => exact h
  | .entered | .reading | .testing none | .sleeping none _ | .waiting none _ _ => trivial

/-- One step that measures no time it cannot count. -/
theorem step_invariant (hb : timeout.m_nanos.toNat ≤ 10^9) (hi : Invariant (Sound timeout) s)
    (hg : Guard timeout s a) (hs : step timeout s a = some t) : Invariant (Sound timeout) t := by
  cases a with
  | tick now =>
    exact hi.tick hs (sound_tick hi.sound)
  | enter =>
    obtain ⟨-,rfl⟩ := guarded_eq_some.mp hs
    apply hi.setPc
    cases timeout.isZero <;> trivial
  | read =>
    obtain ⟨-,rfl⟩ := guarded_eq_some.mp hs
    have htotal := Instant.ofNanos_totalNanos hi.clock_lt
    exact hi.setPc ⟨Instant.ofNanos_reading hi.clock_lt,htotal.symm ▸ hi.called_le,htotal.le⟩
  | test result =>
    simp only [step] at hs
    split at hs
    case h_1 begin hpc =>
      obtain rfl := Option.some.inj hs
      refine ⟨hi.called_le,hi.clock_lt,?_⟩
      have hsound := hi.sound
      rw [Sound, hpc] at hsound
      cases result with
      | true => rfl
      | false => cases begin <;> exact hsound
    case h_2 => cases hs
  | measure =>
    simp only [step] at hs
    split at hs
    case h_1 begin hpc =>
      have hsound := hi.sound
      rw [Sound, hpc] at hsound
      obtain ⟨hread,hcalled,hle⟩ := hsound
      obtain ⟨hreturn,hend⟩ | ⟨millis,hsleep,hmillis⟩ :=
        afterMeasuring_of_counted hb hi.clock_lt hread hle (hg begin hpc)
      · rw [hreturn] at hs
        obtain rfl := Option.some.inj hs
        exact hi.setPc (show s.called + timeout.totalNanos ≤ s.clock by omega)
      · rw [hsleep] at hs
        obtain rfl := Option.some.inj hs
        refine hi.setPc ⟨⟨hread,hcalled,hle⟩,hmillis.imp_right fun heq => ?_⟩
        show s.called + timeout.totalNanos ≤ s.clock + millis.toNat*10^6
        omega
    case h_2 => cases hs
  | sleep =>
    simp only [step] at hs
    split at hs
    case h_1 begin millis hpc =>
      obtain rfl := Option.some.inj hs
      have hsound := hi.sound
      rw [Sound, hpc] at hsound
      apply hi.setPc
      cases begin <;> exact hsound
    case h_2 => cases hs
  | wake =>
    simp only [step] at hs
    split at hs
    case h_1 begin millis since hpc =>
      obtain rfl := Option.some.inj hs
      have hsound := hi.sound
      rw [Sound, hpc] at hsound
      apply hi.setPc
      cases begin with
      | none => trivial
      | some begin => exact hsound.1
    case h_2 => cases hs
  | expire =>
    simp only [step] at hs
    split at hs
    case h_1 begin millis since hpc =>
      obtain ⟨⟨hlimit,hexp⟩,rfl⟩ := guarded_eq_some.mp hs
      have hsound := hi.sound
      rw [Sound, hpc] at hsound
      exact hi.setPc ((hsound.2.resolve_left hlimit).trans hexp)
    case h_2 => cases hs

lemma truthful_of_sound (hsound : Sound timeout s) : s.Truthful timeout Pc.mayReturn := by
  obtain ⟨called,clock,last,pc⟩ := s
  cases pc with
  | returned result =>
    cases result with
    | true => exact ⟨fun _ => hsound,nofun⟩
    | false => exact ⟨nofun,fun _ => hsound⟩
  | _ => exact ⟨nofun,nofun⟩

/-- A run in which the time left can be counted whenever it is measured. -/
theorem guarded_run_truthful (hb : timeout.m_nanos.toNat ≤ 10^9) (hcalled : called < clockEnd)
    (h : (machine timeout).Reaches (Guard timeout) (State.init called .entered) s) :
    s.Truthful timeout Pc.mayReturn := by
  have hi : Invariant (Sound timeout) s :=
    h.invariant (Invariant (Sound timeout)) (.init hcalled trivial)
      (fun _ _ _ hi hg hs => step_invariant hb hi hg hs)
  exact truthful_of_sound hi.sound

/-- A condition wait with a limit may report its expiry as soon as that is due. -/
lemma reaches_expired {s₀ : State Pc} {begin : Instant} {millis : UInt32}
    (h : (machine timeout).Reaches (fun _ _ => True) s₀ (s.setPc (.sleeping (some begin) millis)))
    (hlimit : millis ≠ INFINITE) (hend : s.clock + millis.toNat*10^6 < clockEnd) :
    (machine timeout).Reaches (fun _ _ => True) s₀
      { s with clock := s.clock + millis.toNat*10^6, pc := .returned false } := by
  have hsleep : (machine timeout).Reaches (fun _ _ => True) s₀
      (s.setPc (.waiting (some begin) millis s.clock)) := .step (a := .sleep) h trivial rfl
  have htick : (machine timeout).Reaches (fun _ _ => True) s₀
      { s with clock := s.clock + millis.toNat*10^6,
               pc := .waiting (some begin) millis s.clock } :=
    .step (a := .tick (s.clock + millis.toNat*10^6)) hsleep trivial
      (guarded_eq_some.mpr ⟨⟨Nat.le_add_right _ _,hend⟩,rfl⟩)
  exact .step (a := .expire) htick trivial (guarded_eq_some.mpr ⟨⟨hlimit,le_refl _⟩,rfl⟩)

/-- The guard is exact: a call that goes through without delay with a timeout that cannot be
counted may return false too early. -/
theorem untruthful_of_not_counted (hb : timeout.m_nanos.toNat ≤ 10^9)
    (hz : timeout.isZero = false) (hcalled : called + 2^32*10^6 < clockEnd)
    (hcount : ¬Counted timeout.totalNanos) :
    ∃ s, (machine timeout).Reaches (fun _ _ => True) (State.init called .entered) s ∧
      ¬ s.Truthful timeout Pc.mayReturn := by
  have hclock : called < clockEnd := (Nat.le_add_right _ _).trans_lt hcalled
  have htotal := Instant.ofNanos_totalNanos hclock
  have hleft : (leftTime timeout (Instant.ofNanos called) called).totalNanos = timeout.totalNanos := by
    rw [leftTime_totalNanos hb hclock (Instant.ofNanos_reading hclock), htotal,
      Nat.sub_self, Nat.sub_zero]
  have hnotZero : ¬(leftTime timeout (Instant.ofNanos called) called).isZero = true := by
    rw [Duration.isZero_iff, hleft, ← Duration.isZero_iff, hz]
    exact Bool.false_ne_true
  obtain ⟨hlimit,hearly⟩ := early_of_not_counted (hleft.symm ▸ hcount)
  have hread : (machine timeout).Reaches (fun _ _ => True) (State.init called .entered)
      ⟨called,called,false,.testing (some (Instant.ofNanos called))⟩ := by
    refine .step (a := .read) (.step (a := .enter) .refl trivial rfl) trivial ?_
    simp [machine, step, guarded, State.init, State.setPc, hz]
  have hmeasure : (machine timeout).Reaches (fun _ _ => True) (State.init called .entered)
      ⟨called,called,false,afterMeasuring timeout (Instant.ofNanos called) called⟩ :=
    .step (a := .measure) (.step (a := .test false) hread trivial rfl) trivial rfl
  rw [afterMeasuring, if_neg hnotZero] at hmeasure
  rw [hleft] at hearly
  generalize (leftTime timeout (Instant.ofNanos called) called).millis.toUInt32 = millis
    at hmeasure hlimit hearly
  have hend : called + millis.toNat*10^6 < clockEnd :=
    calc called + millis.toNat*10^6
      _ ≤ called + 2^32*10^6 := Nat.add_le_add_left (Nat.mul_le_mul_right _ millis.toNat_lt.le) _
      _ < clockEnd := hcalled
  refine ⟨_,reaches_expired (s := State.init called .entered) hmeasure hlimit hend,fun htrue => ?_⟩
  have hle : called + timeout.totalNanos ≤ called + millis.toNat*10^6 := htrue.2 rfl
  omega

end Runs
end Windows

/-- On both platforms, whatever the timeout: a call reports truthfully as long as POSIX only
computes an expiry time that fits and Windows only measures time left that can be counted. -/
theorem guarded_waits_truthful (timeout : Duration) (hbuilt : timeout.Built) (called : ℕ)
    (hcalled : called < clockEnd) :
    (∀ s, (Posix.machine timeout).Reaches (Posix.Guard timeout) (State.init called .entered) s →
      s.Truthful timeout Posix.Pc.mayReturn) ∧
    (∀ s, (Windows.machine timeout).Reaches (Windows.Guard timeout) (State.init called .entered) s →
      s.Truthful timeout Windows.Pc.mayReturn) :=
  ⟨fun _ h => Posix.guarded_run_truthful hbuilt.nanos_le hcalled h,
    fun _ h => Windows.guarded_run_truthful hbuilt.nanos_le hcalled h⟩

/-- Two seconds, with no wake-up before the time is over. -/
theorem guarded_waits_truthful_example :
    ∃ s t, (Posix.machine (Duration.ctor 2 0)).Reaches (Posix.Guard (Duration.ctor 2 0))
        (State.init 5 .entered) s ∧ s.pc = .returned false ∧
      s.Truthful (Duration.ctor 2 0) Posix.Pc.mayReturn ∧
      (Windows.machine (Duration.ctor 2 0)).Reaches (Windows.Guard (Duration.ctor 2 0))
        (State.init 5 .entered) t ∧ t.pc = .returned false ∧
      t.Truthful (Duration.ctor 2 0) Windows.Pc.mayReturn := by
  have htruthful := guarded_waits_truthful (Duration.ctor 2 0) (Duration.ctor_built 2 0) 5
    (show 5 < 2^63*10^9 by decide)
  have hposix : (Posix.machine (Duration.ctor 2 0)).Reaches (Posix.Guard (Duration.ctor 2 0))
      (State.init 5 .entered) ⟨5,2000000005,false,.returned false⟩ := by
    have hread : (Posix.machine (Duration.ctor 2 0)).Reaches (Posix.Guard (Duration.ctor 2 0))
        (State.init 5 .entered) ⟨5,5,false,.testing (some ⟨2,5⟩)⟩ :=
      .step (a := .read) (.step (a := .lock) .refl trivial rfl)
        (show Posix.Fits (Duration.ctor 2 0) 5 by decide) rfl
    exact .step (a := .expire) (.step (a := .tick 2000000005)
      (.step (a := .test false) hread trivial rfl) trivial rfl) trivial rfl
  have hwindows : (Windows.machine (Duration.ctor 2 0)).Reaches (Windows.Guard (Duration.ctor 2 0))
      (State.init 5 .entered) ⟨5,2000000005,false,.returned false⟩ := by
    have hfalse : (Windows.machine (Duration.ctor 2 0)).Reaches (Windows.Guard (Duration.ctor 2 0))
        (State.init 5 .entered) ⟨5,5,false,.measuring ⟨0,5⟩⟩ :=
      .step (a := .test false) (.step (a := .read) (.step (a := .enter) .refl trivial rfl)
        trivial rfl) trivial rfl
    have hmeasure : (Windows.machine (Duration.ctor 2 0)).Reaches
        (Windows.Guard (Duration.ctor 2 0)) (State.init 5 .entered)
        ⟨5,5,false,.sleeping (some ⟨0,5⟩) 2000⟩ := by
      refine .step (a := .measure) hfalse ?_ rfl
      intro begin hbegin
      cases hbegin
      decide
    exact .step (a := .expire) (.step (a := .tick 2000000005)
      (.step (a := .sleep) hmeasure trivial rfl) trivial rfl) trivial rfl
  exact ⟨_,_,hposix,rfl,htruthful.1 _ hposix,hwindows,rfl,htruthful.2 _ hwindows⟩

/-- On POSIX the longest duration wraps to an expiry time just before the call, and on Windows
half a millisecond counts as none: both calls return false at once. -/
theorem waits_untruthful :
    (∃ s, (Posix.machine Duration.infinite).Reaches (fun _ _ => True)
      (State.init 1700000000000000000 .entered) s ∧ s.pc = .returned false ∧
        ¬ s.Truthful Duration.infinite Posix.Pc.mayReturn) ∧
    (∃ s, (Windows.machine (Duration.ctor 0 500000)).Reaches (fun _ _ => True)
      (State.init 1700000000000000000 .entered) s ∧ s.pc = .returned false ∧
        ¬ s.Truthful (Duration.ctor 0 500000) Windows.Pc.mayReturn) := by
  constructor
  · have hrun : (Posix.machine Duration.infinite).run (State.init 1700000000000000000 .entered)
        [.lock,.read,.test false,.expire] =
        some ⟨1700000000000000000,1700000000000000000,false,.returned false⟩ := rfl
    exact ⟨_,Machine.reaches_of_run hrun,rfl,fun h => absurd (h.2 rfl) (by decide)⟩
  · have hrun : (Windows.machine (Duration.ctor 0 500000)).run
        (State.init 1700000000000000000 .entered)
        [.enter,.read,.test false,.measure,.sleep,.expire] =
        some ⟨1700000000000000000,1700000000000000000,false,.returned false⟩ := rfl
    exact ⟨_,Machine.reaches_of_run hrun,rfl,fun h => absurd (h.2 rfl) (by decide)⟩

end Asp.TimedWait
