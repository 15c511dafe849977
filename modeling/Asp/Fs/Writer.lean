import Asp.Foundation.Machine
import Asp.Fs.Fs
import Mathlib.Algebra.Group.Nat.Defs

/-! `writeFileFrom` on POSIX, one system call after the other. Its counters are as wide as those of
the code, and each call may be answered in every way that POSIX allows. -/
namespace Asp.Fs.Writer
open Foundation

/-- The `data` and the `size` that are passed. -/
structure Input where
  data : List UInt8
  size : UInt64
  length_eq : data.length = size.toNat

/-- The system call that is being made, or what the function has returned. -/
inductive Phase
  | opening
  | writing (written : UInt64)
  | closing (written : UInt64) (failed : Bool)
  | returned (result : Except String Unit)

/-- `file` is what the file at the path holds, and `offset` where the next write goes. -/
structure State where
  phase : Phase
  file : Option (List UInt8)
  offset : ℕ

/-- What a call returns, and `errno` afterwards. -/
inductive Reply
  | opened (file : Int32) (errno : ℕ)
  | wrote (bwrite : Int64) (errno : ℕ)
  | closed (errno : ℕ)

variable (strerror : ℕ → String) (i : Input)

/-- The test of the loop. -/
def next (written : UInt64) : Phase :=
  if written < i.size then .writing written else .closing written false

/-- The operating system takes `bytes` into the file. -/
def State.transfer (s : State) (bytes : List UInt8) : State :=
  let old := s.file.getD []
  { s with
    file := some (old.take s.offset ++ bytes ++ old.drop (s.offset + bytes.length))
    offset := s.offset + bytes.length }

def step (s : State) : Reply → Option State
  | .opened file errno =>
    match s.phase with
    | .opening => guarded (file = -1 ∨ 0 ≤ file) <|
      if file < 0 then
        { s with phase := .returned (.error ("Unable to open file: " ++ strerror errno)) }
      else ⟨next i 0,some [],0⟩
    | _ => none
  | .wrote bwrite errno =>
    match s.phase with
    | .writing written =>
      guarded (bwrite = -1 ∨ 0 ≤ bwrite ∧ bwrite.toNatClampNeg ≤ (i.size - written).toNat) <|
      if bwrite < 0 then
        if errno = EINTR then { s with phase := next i written }
        else { s with phase := .closing written true }
      else
        { s.transfer ((i.data.drop written.toNat).take bwrite.toNatClampNeg) with
          phase := next i (written + bwrite.toUInt64) }
    | _ => none
  | .closed errno =>
    match s.phase with
    | .closing _ failed => some { s with
        phase := .returned (if failed then .error ("Unable to write file: " ++ strerror errno)
          else .ok ()) }
    | _ => none

def machine : Machine State Reply where
  step := step strerror i

/-- The file before the call may hold anything. -/
def start (old : Option (List UInt8)) : State := ⟨.opening,old,0⟩

/-- The answers that the function is to report. -/
def Reply.Fails : Reply → Prop
  | .opened file _ => file = -1
  | .wrote bwrite errno => bwrite = -1 ∧ errno ≠ EINTR
  | .closed _ => False

/-- The first `written` bytes are in the file, and the next one goes behind them. -/
structure Holds (file : Option (List UInt8)) (offset : ℕ) (written : UInt64) : Prop where
  le : written.toNat ≤ i.data.length
  file : file = some (i.data.take written.toNat)
  offset : offset = written.toNat

/-- What holds after the answers to the calls so far. -/
structure Faithful (replies : List Reply) (s : State) : Prop where
  writing : ∀ written, s.phase = .writing written → Holds i s.file s.offset written ∧
    written.toNat + (i.size - written).toNat ≤ i.data.length
  closing : ∀ written failed, s.phase = .closing written failed → Holds i s.file s.offset written
  ok : s.phase = .returned (.ok ()) → s.file = some i.data
  error : ∀ result, s.phase = .returned result →
    ((∃ e, result = .error e) ↔ ∃ r ∈ replies, r.Fails)

section Steps

/-- Everything that one step can be. -/
inductive Step : State → Reply → State → Prop
  | openFails {file : Option (List UInt8)} {offset : ℕ} (errno : ℕ) :
    Step ⟨.opening,file,offset⟩ (.opened (-1) errno)
      ⟨.returned (.error ("Unable to open file: " ++ strerror errno)),file,offset⟩
  | opens {old : Option (List UInt8)} {offset : ℕ} {file : Int32} (errno : ℕ) (h : 0 ≤ file) :
    Step ⟨.opening,old,offset⟩ (.opened file errno) ⟨next i 0,some [],0⟩
  | interrupted {file : Option (List UInt8)} {offset : ℕ} {written : UInt64} :
    Step ⟨.writing written,file,offset⟩ (.wrote (-1) EINTR) ⟨next i written,file,offset⟩
  | writeFails {file : Option (List UInt8)} {offset : ℕ} {written : UInt64} {errno : ℕ}
      (h : errno ≠ EINTR) :
    Step ⟨.writing written,file,offset⟩ (.wrote (-1) errno) ⟨.closing written true,file,offset⟩
  | writes {file : Option (List UInt8)} {offset : ℕ} {written : UInt64} {bwrite : Int64} (errno : ℕ)
      (h : 0 ≤ bwrite) (hle : bwrite.toNatClampNeg ≤ (i.size - written).toNat) :
    Step ⟨.writing written,file,offset⟩ (.wrote bwrite errno)
      { State.transfer ⟨.writing written,file,offset⟩
          ((i.data.drop written.toNat).take bwrite.toNatClampNeg) with
        phase := next i (written + bwrite.toUInt64) }
  | closes {file : Option (List UInt8)} {offset : ℕ} {written : UInt64} {failed : Bool} (errno : ℕ) :
    Step ⟨.closing written failed,file,offset⟩ (.closed errno)
      ⟨.returned (if failed then .error ("Unable to write file: " ++ strerror errno) else .ok ()),
        file,offset⟩

variable {strerror i}

lemma step_cases {s s' : State} {r : Reply} (h : step strerror i s r = some s') :
    Step strerror i s r s' := by
  obtain ⟨phase,file,offset⟩ := s
  cases r with
  | opened fd errno =>
    cases phase with
    | opening =>
      obtain ⟨hfd,rfl⟩ := guarded_eq_some.mp h
      rcases hfd with rfl | hfd
      · exact .openFails errno
      · rw [if_neg (Int32.not_lt.mpr hfd)]
        exact .opens errno hfd
    | writing | closing | returned => cases h
  | wrote bwrite errno =>
    cases phase with
    | writing written =>
      obtain ⟨hret,rfl⟩ := guarded_eq_some.mp h
      rcases hret with rfl | ⟨hpos,hle⟩
      · rw [if_pos (by decide)]
        split_ifs with herrno
        · exact herrno ▸ .interrupted
        · exact .writeFails herrno
      · rw [if_neg (Int64.not_lt.mpr hpos)]
        exact .writes errno hpos hle
    | opening | closing | returned => cases h
  | closed errno =>
    cases phase with
    | closing written failed =>
      cases h
      exact .closes errno
    | opening | writing | returned => cases h

/-- Each of these is a step. -/
lemma Step.step_eq {s s' : State} {r : Reply} (h : Step strerror i s r s') :
    step strerror i s r = some s' := by
  cases h with
  | openFails => exact guarded_eq_some.mpr ⟨.inl rfl,if_pos (by decide)⟩
  | opens errno hfd => exact guarded_eq_some.mpr ⟨.inr hfd,if_neg (Int32.not_lt.mpr hfd)⟩
  | interrupted =>
    refine guarded_eq_some.mpr ⟨.inl rfl,?_⟩
    rw [if_pos (by decide), if_pos rfl]
  | writeFails herrno =>
    refine guarded_eq_some.mpr ⟨.inl rfl,?_⟩
    rw [if_pos (by decide), if_neg herrno]
  | writes errno hpos hle =>
    exact guarded_eq_some.mpr ⟨.inr ⟨hpos,hle⟩,if_neg (Int64.not_lt.mpr hpos)⟩
  | closes => rfl

end Steps

section Counters
variable {written : UInt64} {bwrite : Int64} {file : Option (List UInt8)} {offset : ℕ} {i}

lemma toNat_rest (h : written.toNat ≤ i.data.length) :
    (i.size - written).toNat = i.data.length - written.toNat := by
  rw [i.length_eq] at h ⊢
  exact UInt64.toNat_sub_of_le _ _ (UInt64.le_iff_toNat_le.mpr h)

/-- The sum of the counters does not wrap around. -/
lemma toNat_add (hle : written.toNat ≤ i.data.length) (h : 0 ≤ bwrite)
    (hrest : bwrite.toNatClampNeg ≤ (i.size - written).toNat) :
    (written + bwrite.toUInt64).toNat = written.toNat + bwrite.toNatClampNeg := by
  have hsize := i.size.toNat_lt
  rw [toNat_rest hle] at hrest
  rw [i.length_eq] at hle hrest
  rw [UInt64.toNat_add, Int64.toNat_toUInt64_of_le h, Nat.mod_eq_of_lt (by omega)]

lemma append_next (data : List UInt8) (m n : ℕ) :
    (data.take m).take m ++ (data.drop m).take n ++
      (data.take m).drop (m + ((data.drop m).take n).length) = data.take (m + n) := by
  have hold : (data.take m).drop (m + ((data.drop m).take n).length) = [] :=
    List.drop_of_length_le (Nat.le_trans (List.length_take_le _ _) (Nat.le_add_right _ _))
  rw [List.take_take, Nat.min_self, hold, List.append_nil, List.take_add]

lemma Holds.transfer {p : Phase} (hs : Holds i file offset written) (h : 0 ≤ bwrite)
    (hrest : bwrite.toNatClampNeg ≤ (i.size - written).toNat) :
    let s := State.transfer ⟨p,file,offset⟩
      ((i.data.drop written.toNat).take bwrite.toNatClampNeg)
    Holds i s.file s.offset (written + bwrite.toUInt64) := by
  obtain ⟨hle,rfl,rfl⟩ := hs
  have hadd := toNat_add hle h hrest
  rw [toNat_rest hle] at hrest
  refine ⟨?_,?_,?_⟩ <;> rw [hadd]
  · omega
  · exact congrArg some (append_next i.data _ _)
  · change written.toNat + ((i.data.drop written.toNat).take bwrite.toNatClampNeg).length = _
    rw [List.length_take, List.length_drop, Nat.min_eq_left hrest]

end Counters

section Invariant
variable {strerror i} {s s' : State} {r : Reply} {replies : List Reply}

/-- What each phase can rely on. -/
def Inv (i : Input) (s : State) : Prop :=
  match s.phase with
  | .opening => True
  | .writing written => Holds i s.file s.offset written
  | .closing written failed =>
    Holds i s.file s.offset written ∧ (failed = false → s.file = some i.data)
  | .returned result => result = .ok () → s.file = some i.data

lemma inv_next {written : UInt64} {file : Option (List UInt8)} {offset : ℕ}
    (h : Holds i file offset written) : Inv i ⟨next i written,file,offset⟩ := by
  rw [next]
  split_ifs with hlt
  · exact h
  · refine ⟨h,fun _ => ?_⟩
    have hle : i.data.length ≤ written.toNat := by
      rw [i.length_eq]
      exact UInt64.le_iff_toNat_le.mp (UInt64.not_lt.mp hlt)
    rw [h.file, List.take_of_length_le hle]

lemma step_inv (h : step strerror i s r = some s') (hi : Inv i s) : Inv i s' := by
  cases step_cases h with
  | openFails => exact nofun
  | opens => exact inv_next ⟨Nat.zero_le _,rfl,rfl⟩
  | interrupted => exact inv_next hi
  | writeFails => exact ⟨hi,nofun⟩
  | writes errno hpos hle => exact inv_next (Holds.transfer hi hpos hle)
  | @closes _ _ _ failed =>
    cases failed with
    | false => exact fun _ => hi.2 rfl
    | true => exact nofun

lemma run_inv (h : (machine strerror i).run s replies = some s') (hi : Inv i s) : Inv i s' :=
  (Machine.reaches_of_run h).invariant (Inv i) hi fun _ _ _ hu _ hs => step_inv hs hu

/-- The function is going to report an error, or has. -/
def Phase.failing : Phase → Prop
  | .opening | .writing _ => False
  | .closing _ failed => failed = true
  | .returned result => ∃ e, result = .error e

lemma not_failing_next (written : UInt64) : ¬(next i written).failing := by
  rw [next]
  split_ifs
  · exact id
  · exact Bool.false_ne_true

lemma step_failing (h : step strerror i s r = some s') :
    s'.phase.failing ↔ s.phase.failing ∨ r.Fails := by
  cases step_cases h with
  | openFails => exact iff_of_true ⟨_,rfl⟩ (.inr rfl)
  | opens errno hfd =>
    refine iff_of_false (not_failing_next 0) ?_
    rintro (h | rfl)
    · exact h
    · exact absurd hfd (by decide)
  | interrupted => exact iff_of_false (not_failing_next _) (not_or.mpr ⟨id,fun h => h.2 rfl⟩)
  | writeFails herrno => exact iff_of_true rfl (.inr ⟨rfl,herrno⟩)
  | writes errno hpos hle =>
    refine iff_of_false (not_failing_next _) ?_
    rintro (h | ⟨rfl,-⟩)
    · exact h
    · exact absurd hpos (by decide)
  | @closes _ _ _ failed =>
    cases failed with
    | false => exact iff_of_false nofun (not_or.mpr ⟨Bool.false_ne_true,id⟩)
    | true => exact iff_of_true ⟨_,rfl⟩ (.inl rfl)

lemma run_failing (h : (machine strerror i).run s replies = some s') :
    s'.phase.failing ↔ s.phase.failing ∨ ∃ r ∈ replies, r.Fails := by
  induction replies generalizing s with
  | nil =>
    cases h
    simp
  | cons r replies ih =>
    obtain ⟨t,ht,hrest⟩ := Option.bind_eq_some_iff.mp h
    rw [ih hrest, step_failing ht]
    simp only [List.mem_cons, or_and_right, exists_or, exists_eq_left, or_assoc]

end Invariant

/-- After every sequence of answers the file holds what has been written, a call stays inside the
data, and the result tells whether all of it has been written. -/
theorem writeFileFrom_faithful {strerror : ℕ → String} {i : Input} {old : Option (List UInt8)}
    {replies : List Reply} {s : State}
    (h : (machine strerror i).run (start old) replies = some s) : Faithful i replies s := by
  have hinv : Inv i s := run_inv h trivial
  have hfail := run_failing h
  obtain ⟨phase,file,offset⟩ := s
  refine ⟨?_,?_,?_,?_⟩
  · rintro written rfl
    have hle := Holds.le hinv
    refine ⟨hinv,?_⟩
    rw [toNat_rest hle, Nat.add_sub_cancel' hle]
  · rintro written failed rfl
    exact hinv.1
  · rintro rfl
    exact hinv rfl
  · rintro result rfl
    exact hfail.trans (or_iff_right id)

/-- Three bytes, of which one, none and two are taken, after an interruption. -/
theorem writeFileFrom_faithful_at :
    Faithful ⟨[7,8,9],3,rfl⟩
      [.opened 3 0,.wrote (-1) EINTR,.wrote 1 0,.wrote 0 0,.wrote 2 0,.closed 0]
      ⟨.returned (.ok ()),some [7,8,9],3⟩ :=
  @writeFileFrom_faithful toString _ none _ _ rfl

section Answers
variable {Path : Type} [DecidableEq Path] {strerror : ℕ → String} {i : Input} {os os' : Os Path}
  {path : Path} {result : Except String Unit}

/-- The machine can end like this from a state. -/
def Ends (strerror : ℕ → String) (i : Input) (s : State) (result : Except String Unit)
    (file : Option (List UInt8)) : Prop :=
  ∃ replies s', (machine strerror i).run s replies = some s' ∧ s'.phase = .returned result ∧
    s'.file = file

lemma Ends.step {s s' : State} {r : Reply} {file : Option (List UInt8)}
    (h : Step strerror i s r s') (hend : Ends strerror i s' result file) :
    Ends strerror i s result file := by
  obtain ⟨replies,s'',hrun,hs⟩ := hend
  exact ⟨r :: replies,s'',Option.bind_eq_some_iff.mpr ⟨s',h.step_eq,hrun⟩,hs⟩

lemma Ends.returned {file : Option (List UInt8)} {offset : ℕ} :
    Ends strerror i ⟨.returned result,file,offset⟩ result file := ⟨[],_,rfl,rfl,rfl⟩

lemma next_writing {written : UInt64} (h : written.toNat < i.data.length) :
    next i written = .writing written := by
  rw [next, if_pos]
  rwa [UInt64.lt_iff_toNat_lt, ← i.length_eq]

lemma next_closing {written : UInt64} (h : ¬written.toNat < i.data.length) :
    next i written = .closing written false := by
  rw [next, if_neg]
  rwa [UInt64.lt_iff_toNat_lt, ← i.length_eq]

/-- A transfer of `n` bytes, as a reply. -/
lemma ends_wrote {n offset : ℕ} {file file' : Option (List UInt8)} {written : UInt64}
    (hs : Holds i file offset written) (hn : n ≤ i.data.length - written.toNat)
    (hmax : i.data.length < 2 ^ 63)
    (h : ∀ w : UInt64, w.toNat = written.toNat + n →
      Ends strerror i ⟨next i w,some (i.data.take w.toNat),w.toNat⟩ result file') :
    Ends strerror i ⟨.writing written,file,offset⟩ result file' := by
  have hn63 : n < 2 ^ 63 := by omega
  have hpos := Int64.zero_le_ofNat_of_lt hn63
  have hnat := Int64.toNatClampNeg_ofNat_of_lt hn63
  have hrest : (Int64.ofNat n).toNatClampNeg ≤ (i.size - written).toNat := by
    rw [hnat, toNat_rest hs.le]
    exact hn
  have hadd := toNat_add hs.le hpos hrest
  have hafter := Holds.transfer (p := .writing written) hs hpos hrest
  refine Ends.step (.writes 0 hpos hrest) ?_
  change Ends strerror i ⟨_,State.file (State.transfer _ _),State.offset (State.transfer _ _)⟩ _ _
  rw [hafter.file, hafter.offset]
  exact h _ (by rw [hadd, hnat])

/-- The loop of `writeFileFrom` over a stream of answers is a run. -/
lemma writeLoop_ends (hmax : i.data.length < 2 ^ 63) {n : ℕ} {written : UInt64}
    (hs : Holds i (os.files path) written.toNat written)
    (h : writeLoop strerror i.data n written.toNat ⟨path,written.toNat⟩ os = some (result,os')) :
    Ends strerror i ⟨next i written,os.files path,written.toNat⟩ result (os'.files path) := by
  induction n generalizing written os with
  | zero => cases h
  | succ n ih =>
    rw [writeLoop] at h
    split_ifs at h with hlt
    · rw [next_writing hlt]
      cases hw : os.writes 0 with
      | error errno =>
        rw [Os.write, hw] at h
        dsimp only at h
        split_ifs at h with herrno
        · subst herrno
          have hrest := @ih { os with writes := fun n => os.writes (n + 1) } written hs h
          rw [next_writing hlt] at hrest
          exact Ends.step (.interrupted) (next_writing hlt ▸ hrest)
        · cases h
          exact Ends.step (.writeFails herrno) (Ends.step (.closes errno) Ends.returned)
      | transfer most =>
        obtain ⟨os₁,hcall,hwrote,-⟩ := write_transfer os hs.le hs.file hw
        rw [hcall] at h
        dsimp only at h
        refine ends_wrote hs (Nat.min_le_right (most + 1) _) hmax fun w hw => ?_
        rw [← hw] at h hwrote
        rw [← hwrote.file]
        have hle := hs.le
        exact ih ⟨by omega,hwrote.file,rfl⟩ h
    · cases h
      rw [next_closing hlt]
      exact Ends.step (.closes 0) Ends.returned

/-- `writeFileFrom` over a stream of answers is a run. -/
theorem writeFileFrom_ends (hmax : i.data.length < 2 ^ 63) {n : ℕ}
    (h : writeFileFrom strerror n os path i.data = some (result,os')) :
    Ends strerror i (start (os.files path)) result (os'.files path) := by
  rw [writeFileFrom, Os.openWrite] at h
  cases hopen : os.opens 0 with
  | some errno =>
    rw [hopen] at h
    cases h
    exact Ends.step (.openFails errno) Ends.returned
  | none =>
    rw [hopen] at h
    have hfile : Function.update os.files path (some []) path = some [] := Function.update_self ..
    have hfd : (0 : Int32) ≤ 0 := by decide
    refine Ends.step (.opens 0 hfd) ?_
    have hrest := @writeLoop_ends _ _ _ _ _ _ _ _ hmax _ 0 ⟨Nat.zero_le _,hfile,rfl⟩ h
    rwa [← hfile]

/-- Whatever the answers are, the file holds the data after an Ok. -/
theorem write_ok {data : List UInt8} (hmax : data.length < 2 ^ 63) {n : ℕ}
    (h : write strerror n os path data = some (.ok (),os')) : os'.files path = some data := by
  have hlen : data.length = (UInt64.ofNat data.length).toNat := by
    rw [UInt64.toNat_ofNat', Nat.mod_eq_of_lt (by omega)]
  obtain ⟨replies,s,hrun,hphase,hfile⟩ :=
    writeFileFrom_ends (i := ⟨data,UInt64.ofNat data.length,hlen⟩) hmax h
  have hinv := run_inv hrun trivial
  rw [Inv, hphase] at hinv
  rw [← hfile]
  exact hinv rfl

end Answers

end Asp.Fs.Writer
