import Asp.Foundation.Machine
import Asp.Time.DurationRuns
import Asp.Time.Elapsed

/-! One call of `asp::Notify::wait(timeout, predicate)`, and its POSIX implementation. A run
interleaves the caller with a clock in nanoseconds, with wake-ups and with the expiry reported by
the system, which comes after the deadline that the caller has given. -/
namespace Asp.TimedWait
open Foundation

/-- `called` is the clock at the call, `last` what predicate() returned last. -/
structure State (Pc : Type) where
  called : ℕ
  clock : ℕ
  last : Bool
  pc : Pc

/-- Seconds are read from the clock into an i64. -/
def clockEnd : ℕ := 2^63*10^9

namespace State
variable {Pc : Type}

/-- The call has just been made. -/
def init (called : ℕ) (entered : Pc) : State Pc := ⟨called,called,false,entered⟩

/-- True is only returned after a predicate that returned true, false only once the timeout
has elapsed. -/
def Truthful (timeout : Duration) (mayReturn : Pc → Bool → Bool) (s : State Pc) : Prop :=
  (mayReturn s.pc true → s.last = true) ∧
    (mayReturn s.pc false → s.called + timeout.totalNanos ≤ s.clock)

/-- Time passes. -/
def tick (s : State Pc) (now : ℕ) : Option (State Pc) :=
  guarded (s.clock ≤ now ∧ now < clockEnd) { s with clock := now }

def setPc (s : State Pc) (pc : Pc) : State Pc := { s with pc := pc }

end State

/-- The clock moves on from the call, and every place of the caller keeps its promise. -/
structure Invariant {Pc : Type} (sound : State Pc → Prop) (s : State Pc) : Prop where
  called_le : s.called ≤ s.clock
  clock_lt : s.clock < clockEnd
  sound : sound s

namespace Invariant
variable {Pc : Type} {sound : State Pc → Prop} {s t : State Pc} {pc : Pc}

lemma init {called : ℕ} (h : called < clockEnd) (hsound : sound (State.init called pc)) :
    Invariant sound (State.init called pc) where
  called_le := le_refl _
  clock_lt := h
  sound := hsound

lemma setPc (hi : Invariant sound s) (hsound : sound (s.setPc pc)) :
    Invariant sound (s.setPc pc) where
  called_le := hi.called_le
  clock_lt := hi.clock_lt
  sound := hsound

lemma tick (hi : Invariant sound s) {now : ℕ} (ht : s.tick now = some t)
    (hsound : s.clock ≤ now → sound { s with clock := now }) : Invariant sound t := by
  obtain ⟨⟨hle,hlt⟩,rfl⟩ := guarded_eq_some.mp ht
  exact ⟨hi.called_le.trans hle,hlt,hsound hle⟩

end Invariant

namespace Posix

structure Timespec where
  tv_sec : Int64
  tv_nsec : Int64
  deriving DecidableEq

def Timespec.totalNanos (ts : Timespec) : ℤ := ts.tv_sec.toInt*10^9 + ts.tv_nsec.toInt

/-- Where the caller is. A condition wait without a timespec is one without a time limit. -/
inductive Pc
  | entered
  | reading                           -- holds the mutex, about to compute the expiry time
  | testing (ts : Option Timespec)    -- about to evaluate predicate()
  | waiting (ts : Option Timespec)    -- in the condition wait
  | returned (result : Bool)
  | threw
  | terminated
  | undefined
  deriving DecidableEq

/-- Undefined behaviour may return anything. -/
def Pc.mayReturn : Pc → Bool → Bool
  | .returned result, b => result == b
  | .undefined, _ => true
  | _, _ => false

/-- The timespec of the expiry time `SystemTime::now() + timeout`. -/
def afterReading (timeout : Duration) (clock : ℕ) : Pc :=
  let now := SystemTime.ofNanos clock
  if now.carryOverflows timeout then .undefined
  else
    match (now.add timeout).durationSince SystemTime.epoch with
    | none => .undefined
    -- timeSinceEpoch is noexcept, and value() throws on an expiry time before the epoch
    | some none => .terminated
    | some (some dur) => .testing (some ⟨dur.seconds.toInt64,dur.subsecNanos.toInt64⟩)

inductive Action
  | tick (now : ℕ)
  | lock
  | read
  | test (result : Bool)
  | wake      -- notified, or woken spuriously
  | expire    -- ETIMEDOUT
  | fail      -- any other error

def step (timeout : Duration) (s : State Pc) : Action → Option (State Pc)
  | .tick now => s.tick now
  | .lock => guarded (s.pc = .entered)
      (s.setPc (if timeout.isZero then .testing none else .reading))
  | .read => guarded (s.pc = .reading) (s.setPc (afterReading timeout s.clock))
  | .test result =>
    match s.pc with
    | .testing ts =>
      some { s with last := result, pc := if result then .returned true else .waiting ts }
    | _ => none
  | .wake =>
    match s.pc with
    | .waiting ts => some (s.setPc (.testing ts))
    | _ => none
  | .expire =>
    match s.pc with
    | .waiting (some ts) => guarded (ts.totalNanos ≤ s.clock) (s.setPc (.returned false))
    | _ => none
  | .fail =>
    match s.pc with
    | .waiting (some _) => some (s.setPc .threw)
    | _ => none

def machine (timeout : Duration) : Machine (State Pc) Action where
  step := step timeout

/-- The sum of the clock and of the timeout as its getters give it, which count a second in the
nanoseconds twice, is a system time; or its seconds are negative in an i64. -/
def Fits (timeout : Duration) (clock : ℕ) : Prop :=
  let secs := timeout.m_seconds.toNat + timeout.m_nanos.toNat / 10^9
  let total := clock + secs*10^9 + timeout.m_nanos.toNat
  total < 2^63*10^9 ∨ 2^63 ≤ clock / 10^9 + secs ∧ total < 2^64*10^9

instance (timeout : Duration) (clock : ℕ) : Decidable (Fits timeout clock) :=
  inferInstanceAs (Decidable (_ ∨ _))

/-- The expiry time is computed where it fits. -/
def Guard (timeout : Duration) (s : State Pc) : Action → Prop
  | .read => Fits timeout s.clock
  | _ => True

section Expiry
variable {timeout : Duration} {clock : ℕ}

/-- The carry overflows where the seconds of the clock and the timeout add up to the largest i64. -/
lemma carryOverflows_iff (hclock : clock < clockEnd) (hb : timeout.m_nanos.toNat ≤ 10^9) :
    (SystemTime.ofNanos clock).carryOverflows timeout = true ↔
      10^9 ≤ clock % 10^9 + timeout.m_nanos.toNat ∧
        clock / 10^9 + timeout.seconds.toNat = 2^63 - 1 := by
  obtain ⟨hs,hn⟩ := SystemTime.ofNanos_fields hclock
  rw [SystemTime.carryOverflows_iff (SystemTime.ofNanos_valid hclock) hb, hs, hn]
  omega

/-- An expiry time from the epoch on is the timespec. -/
lemma afterReading_eq (hclock : clock < clockEnd) (hb : timeout.m_nanos.toNat ≤ 10^9)
    (hno : ¬(SystemTime.ofNanos clock).carryOverflows timeout = true)
    (hpos : 0 ≤ ((SystemTime.ofNanos clock).add timeout).totalNanos) :
    ∃ ts, afterReading timeout clock = .testing (some ts) ∧
      ts.totalNanos = ((SystemTime.ofNanos clock).add timeout).totalNanos := by
  have hvalid := (SystemTime.add_spec (SystemTime.ofNanos_valid hclock) hb).1
  have hlt := ((SystemTime.ofNanos clock).add timeout)._storage1.toInt_lt
  obtain ⟨dur,hsince,hnorm,hdur⟩ := SystemTime.durationSince_spec hvalid SystemTime.epoch_valid
    (le_refl _) hpos
  refine ⟨_,by rw [afterReading, if_neg hno, hsince],?_⟩
  rw [SystemTime.epoch_totalNanos, SystemTime.totalNanos, Duration.totalNanos] at hdur
  simp only [SystemTime.Valid] at hvalid
  have hsec : dur.seconds.toInt64.toInt = dur.m_seconds.toNat := by
    rw [Duration.seconds_eq hnorm]
    apply SystemTime.toInt_toInt64_of_lt
    omega
  have hnano : dur.subsecNanos.toInt64.toInt = dur.m_nanos.toNat := by
    rw [SystemTime.toInt_toInt64_of_lt] <;> rw [Duration.subsecNanos_toNat]
    have hlt := dur.m_nanos.toNat_lt
    omega
  rw [Timespec.totalNanos, hsec, hnano, SystemTime.totalNanos]
  omega

/-- The expiry time is the sum modulo 2^64 seconds that an i64 of seconds can hold. -/
lemma expiry_totalNanos (hclock : clock < clockEnd) (hb : timeout.m_nanos.toNat ≤ 10^9) :
    ∃ k : ℤ, ((SystemTime.ofNanos clock).add timeout).totalNanos =
        clock + timeout.seconds.toNat*10^9 + timeout.m_nanos.toNat + k*(2^64*10^9) ∧
      -(2^63*10^9) ≤ ((SystemTime.ofNanos clock).add timeout).totalNanos ∧
      ((SystemTime.ofNanos clock).add timeout).totalNanos < 2^63*10^9 := by
  obtain ⟨hvalid,k,htotal⟩ := SystemTime.add_spec (SystemTime.ofNanos_valid hclock) hb
  rw [SystemTime.ofNanos_totalNanos hclock, Duration.getterNanos, Duration.subsecNanos_toNat] at htotal
  have hlt := ((SystemTime.ofNanos clock).add timeout)._storage1.toInt_lt
  have hle := ((SystemTime.ofNanos clock).add timeout)._storage1.le_toInt
  simp only [SystemTime.Valid] at hvalid
  refine ⟨k,by rw [htotal]; push_cast; ring,?_⟩
  rw [SystemTime.totalNanos]
  omega

/-- Where the expiry time fits it is no earlier than the clock plus the timeout, or there is
none. -/
theorem afterReading_of_fits (hclock : clock < clockEnd) (hb : timeout.m_nanos.toNat ≤ 10^9)
    (hfits : Fits timeout clock) :
    afterReading timeout clock = .terminated ∨ ∃ ts, afterReading timeout clock = .testing (some ts) ∧
      (clock + timeout.totalNanos : ℕ) ≤ ts.totalNanos := by
  have hseconds := Duration.seconds_toNat timeout
  obtain ⟨k,htotal,hlow,hhigh⟩ := expiry_totalNanos hclock hb
  simp only [Fits] at hfits
  have hno : ¬(SystemTime.ofNanos clock).carryOverflows timeout = true := by
    rw [carryOverflows_iff hclock hb]
    omega
  rcases hfits with hfits | hfits
  · obtain ⟨ts,htest,hts⟩ := afterReading_eq hclock hb hno (by omega)
    refine .inr ⟨ts,htest,?_⟩
    rw [hts, Duration.totalNanos]
    omega
  · have hvalid := (SystemTime.add_spec (SystemTime.ofNanos_valid hclock) hb).1
    have hneg : ((SystemTime.ofNanos clock).add timeout).totalNanos < 0 := by omega
    rw [SystemTime.totalNanos] at hneg
    rw [afterReading, if_neg hno,
      SystemTime.durationSince_epoch_of_neg hvalid (by have h0 := hvalid.1; omega)]
    exact .inl rfl

/-- Where it does not fit, the addition is undefined or the expiry time has passed. -/
theorem afterReading_of_not_fits (hclock : clock < clockEnd) (hn : timeout.Normalized)
    (hfits : ¬Fits timeout clock) :
    afterReading timeout clock = .undefined ∨ ∃ ts, afterReading timeout clock = .testing (some ts) ∧
      ts.totalNanos ≤ clock := by
  have hb : timeout.m_nanos.toNat ≤ 10^9 := le_of_lt hn
  have hseconds := Duration.seconds_toNat timeout
  have hlt := timeout.m_seconds.toNat_lt
  by_cases hover : (SystemTime.ofNanos clock).carryOverflows timeout = true
  · left
    rw [afterReading, if_pos hover]
  · right
    have hno := hover
    rw [carryOverflows_iff hclock hb] at hover
    obtain ⟨k,htotal,hlow,hhigh⟩ := expiry_totalNanos hclock hb
    have hclock' := hclock
    simp only [Fits] at hfits
    simp only [clockEnd] at hclock'
    simp only [Duration.Normalized] at hn
    -- the sum has wrapped once, to less than the clock it started from
    have hwrap : k = -1 := by omega
    subst hwrap
    obtain ⟨ts,htest,hts⟩ := afterReading_eq hclock hb hno (by omega)
    exact ⟨ts,htest,by omega⟩

end Expiry

/-- What each place of the caller promises. -/
def Sound (timeout : Duration) (s : State Pc) : Prop :=
  match s.pc with
  | .testing (some ts) | .waiting (some ts) => (s.called + timeout.totalNanos : ℕ) ≤ ts.totalNanos
  | .returned true => s.last = true
  | .returned false => s.called + timeout.totalNanos ≤ s.clock
  | .undefined => False
  | _ => True

section Runs
variable {timeout : Duration} {s t : State Pc} {a : Action} {called : ℕ}

lemma sound_tick {now : ℕ} (h : Sound timeout s) (hle : s.clock ≤ now) :
    Sound timeout { s with clock := now } := by
  obtain ⟨called,clock,last,pc⟩ := s
  match pc with
  | .returned false => exact le_trans (b := clock) h hle
  | .returned true | .testing (some _) | .waiting (some _) => exact h
  | .entered | .reading | .testing none | .waiting none | .threw | .terminated => trivial

/-- One step whose expiry time fits. -/
theorem step_invariant (hb : timeout.m_nanos.toNat ≤ 10^9) (hi : Invariant (Sound timeout) s)
    (hg : Guard timeout s a) (hs : step timeout s a = some t) : Invariant (Sound timeout) t := by
  cases a with
  | tick now =>
    exact hi.tick hs (sound_tick hi.sound)
  | lock =>
    obtain ⟨-,rfl⟩ := guarded_eq_some.mp hs
    apply hi.setPc
    cases timeout.isZero <;> trivial
  | read =>
    obtain ⟨-,rfl⟩ := guarded_eq_some.mp hs
    apply hi.setPc
    obtain hterm | ⟨ts,htest,hts⟩ := afterReading_of_fits hi.clock_lt hb hg
    · rw [hterm]
      trivial
    · rw [htest]
      have hle := hi.called_le
      show ((s.called + timeout.totalNanos : ℕ) : ℤ) ≤ ts.totalNanos
      omega
  | test result =>
    simp only [step] at hs
    split at hs
    case h_1 ts hpc =>
      obtain rfl := Option.some.inj hs
      refine ⟨hi.called_le,hi.clock_lt,?_⟩
      have hsound := hi.sound
      rw [Sound, hpc] at hsound
      cases result with
      | true => rfl
      | false => cases ts <;> exact hsound
    case h_2 => cases hs
  | wake =>
    simp only [step] at hs
    split at hs
    case h_1 ts hpc =>
      obtain rfl := Option.some.inj hs
      have hsound := hi.sound
      rw [Sound, hpc] at hsound
      apply hi.setPc
      cases ts <;> exact hsound
    case h_2 => cases hs
  | expire =>
    simp only [step] at hs
    split at hs
    case h_1 ts hpc =>
      obtain ⟨hexp,rfl⟩ := guarded_eq_some.mp hs
      have hsound := hi.sound
      rw [Sound, hpc] at hsound
      -- the system has waited until the deadline, which is late enough
      exact hi.setPc (show s.called + timeout.totalNanos ≤ s.clock by omega)
    case h_2 => cases hs
  | fail =>
    simp only [step] at hs
    split at hs
    case h_1 =>
      obtain rfl := Option.some.inj hs
      exact hi.setPc trivial
    case h_2 => cases hs

lemma truthful_of_sound (hsound : Sound timeout s) : s.Truthful timeout Pc.mayReturn := by
  obtain ⟨called,clock,last,pc⟩ := s
  cases pc with
  | returned result =>
    cases result with
    | true => exact ⟨fun _ => hsound,nofun⟩
    | false => exact ⟨nofun,fun _ => hsound⟩
  | undefined => exact absurd hsound id
  | _ => exact ⟨nofun,nofun⟩

/-- A run in which the expiry time fits. -/
theorem guarded_run_truthful (hb : timeout.m_nanos.toNat ≤ 10^9) (hcalled : called < clockEnd)
    (h : (machine timeout).Reaches (Guard timeout) (State.init called .entered) s) :
    s.Truthful timeout Pc.mayReturn := by
  have hi : Invariant (Sound timeout) s :=
    h.invariant (Invariant (Sound timeout)) (.init hcalled trivial)
      (fun _ _ _ hi hg hs => step_invariant hb hi hg hs)
  exact truthful_of_sound hi.sound

/-- The guard is exact: a call that goes through without delay where the expiry time does not
fit may return false at once. -/
theorem untruthful_of_not_fits (hn : timeout.Normalized) (hz : timeout.isZero = false)
    (hcalled : called < clockEnd) (hfits : ¬Fits timeout called) :
    ∃ s, (machine timeout).Reaches (fun _ _ => True) (State.init called .entered) s ∧
      ¬ s.Truthful timeout Pc.mayReturn := by
  have hpos := Duration.totalNanos_pos hz
  have hread : (machine timeout).Reaches (fun _ _ => True) (State.init called .entered)
      ⟨called,called,false,afterReading timeout called⟩ := by
    refine .step (a := .read) (.step (a := .lock) .refl trivial rfl) trivial ?_
    simp [machine, step, guarded, State.init, State.setPc, hz]
  obtain hundef | ⟨ts,htest,hts⟩ := afterReading_of_not_fits hcalled hn hfits
  · rw [hundef] at hread
    refine ⟨_,hread,fun htrue => ?_⟩
    have hle : called + timeout.totalNanos ≤ called := htrue.2 rfl
    omega
  · rw [htest] at hread
    have hexpire : step timeout ⟨called,called,false,.waiting (some ts)⟩ .expire =
        some ⟨called,called,false,.returned false⟩ := guarded_eq_some.mpr ⟨hts,rfl⟩
    refine ⟨_,.step (a := .expire) (.step (a := .test false) hread trivial rfl) trivial hexpire,
      fun htrue => ?_⟩
    have hle : called + timeout.totalNanos ≤ called := htrue.2 rfl
    omega

end Runs
end Posix
end Asp.TimedWait
