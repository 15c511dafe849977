import Asp.Foundation.Fuel
import Mathlib.Logic.Function.Basic
import Mathlib.Data.List.Basic
import Mathlib.Data.Nat.Find
import Mathlib.Tactic.SplitIfs

/-! `asp::fs::read` and `asp::fs::write` on POSIX, over the system calls they make. The answers
of the operating system to each kind of call are a stream of their own. -/
namespace Asp.Fs
open Foundation

def EINTR : ℕ := 4
def ENOENT : ℕ := 2

/-- The answer to a read or a write: an errno, or a transfer of at most `most + 1` bytes. -/
inductive Answer
  | error (errno : ℕ)
  | transfer (most : ℕ)
  deriving DecidableEq

/-- The files, and the answers to come. An open or fstat fails with an errno or succeeds. -/
structure Os (Path : Type) where
  files : Path → Option (List UInt8)
  opens : ℕ → Option ℕ
  fstats : ℕ → Option ℕ
  reads : ℕ → Answer
  writes : ℕ → Answer

/-- An open file and its offset. -/
structure Fd (Path : Type) where
  path : Path
  offset : ℕ

namespace Os
variable {Path : Type}

/-- `open(path, O_RDONLY)` -/
def openRead (os : Os Path) (path : Path) : Except ℕ (Fd Path) × Os Path :=
  let os' := { os with opens := fun n => os.opens (n + 1) }
  match os.opens 0, os.files path with
  | some errno, _ => (.error errno,os')
  | none, none => (.error ENOENT,os')
  | none, some _ => (.ok ⟨path,0⟩,os')

/-- `open(path, O_WRONLY | O_CREAT | O_TRUNC, 0644)` -/
def openWrite [DecidableEq Path] (os : Os Path) (path : Path) : Except ℕ (Fd Path) × Os Path :=
  let os' := { os with opens := fun n => os.opens (n + 1) }
  match os.opens 0 with
  | some errno => (.error errno,os')
  | none => (.ok ⟨path,0⟩,{ os' with files := Function.update os.files path (some []) })

def content (os : Os Path) (fd : Fd Path) : List UInt8 := (os.files fd.path).getD []

/-- `fstat`, of which only `st_size` is used. -/
def fstat (os : Os Path) (fd : Fd Path) : Except ℕ ℕ × Os Path :=
  let os' := { os with fstats := fun n => os.fstats (n + 1) }
  match os.fstats 0 with
  | some errno => (.error errno,os')
  | none => (.ok (os.content fd).length,os')

/-- `read`: the bytes that were transferred. -/
def read (os : Os Path) (fd : Fd Path) (count : ℕ) : Except ℕ (List UInt8) × Os Path :=
  let os' := { os with reads := fun n => os.reads (n + 1) }
  match os.reads 0 with
  | .error errno => (.error errno,os')
  | .transfer most => (.ok (((os.content fd).drop fd.offset).take (min (most + 1) count)),os')

/-- `write`: the number of bytes that were transferred. -/
def write [DecidableEq Path] (os : Os Path) (fd : Fd Path) (data : List UInt8) :
    Except ℕ (ℕ × Fd Path) × Os Path :=
  let os' := { os with writes := fun n => os.writes (n + 1) }
  match os.writes 0 with
  | .error errno => (.error errno,os')
  | .transfer most =>
    let bytes := data.take (most + 1)
    let old := os.content fd
    let new := old.take fd.offset ++ bytes ++ old.drop (fd.offset + bytes.length)
    (.ok (bytes.length,⟨fd.path,fd.offset + bytes.length⟩),
      { os' with files := Function.update os.files fd.path (some new) })

end Os

section Functions
variable {Path : Type} (strerror : ℕ → String)

/-- `readFileInto`, with what it leaves in `out`. -/
def readFileInto (os : Os Path) (path : Path) : Except String (List UInt8) × Os Path :=
  match os.openRead path with
  | (.error errno,os) => (.error ("Unable to open file: " ++ strerror errno),os)
  | (.ok file,os) =>
    match os.fstat file with
    | (.error errno,os) => (.error ("Unable to get file size: " ++ strerror errno),os)
    | (.ok st_size,os) =>
      -- one call, for all of the resized `out`
      match os.read file st_size with
      | (.error errno,os) => (.error ("Unable to read file: " ++ strerror errno),os)
      | (.ok bytes,os) =>
        if bytes.length < st_size then
          (.error ("Unable to read entire file: only read " ++ toString bytes.length ++ " of " ++
            toString st_size),os)
        else (.ok (bytes ++ List.replicate (st_size - bytes.length) 0),os)

def read (os : Os Path) (path : Path) : Except String (List UInt8) × Os Path :=
  readFileInto strerror os path
def readToString (os : Os Path) (path : Path) : Except String (List UInt8) × Os Path :=
  readFileInto strerror os path

variable [DecidableEq Path]

/-- The loop of `writeFileFrom`. -/
def writeLoop (data : List UInt8) :
    ℕ → (written : ℕ) → Fd Path → Os Path → Option (Except String Unit × Os Path)
  | 0, _, _, _ => none
  | n+1, written, file, os =>
    if written < data.length then
      match os.write file (data.drop written) with
      | (.error errno,os) =>
        if errno = EINTR then writeLoop data n written file os
        else some (.error ("Unable to write file: " ++ strerror errno),os)
      | (.ok (bwrite,file),os) => writeLoop data n (written + bwrite) file os
    else some (.ok (),os)

def writeFileFrom (n : ℕ) (os : Os Path) (path : Path) (data : List UInt8) :
    Option (Except String Unit × Os Path) :=
  match os.openWrite path with
  | (.error errno,os) => some (.error ("Unable to open file: " ++ strerror errno),os)
  | (.ok file,os) => writeLoop strerror data n 0 file os

def write (n : ℕ) (os : Os Path) (path : Path) (data : List UInt8) :
    Option (Except String Unit × Os Path) := writeFileFrom strerror n os path data

end Functions
/-- Writes that are at most interrupted, and not for ever. -/
structure Progresses (writes : ℕ → Answer) : Prop where
  eintr : ∀ n errno, writes n = .error errno → errno = EINTR
  transfers : ∀ n, ∃ m, n ≤ m ∧ ∃ most, writes m = .transfer most

/-- Nothing fails for good. -/
structure Os.Reliable {Path : Type} (os : Os Path) : Prop where
  opens : ∀ n, os.opens n = none
  fstats : ∀ n, os.fstats n = none
  reads : ∀ n errno, os.reads n = .error errno → errno = EINTR
  writes : Progresses os.writes

lemma Progresses.drop {writes : ℕ → Answer} (h : Progresses writes) (k : ℕ) :
    Progresses (fun n => writes (n + k)) where
  eintr n := h.eintr (n + k)
  transfers n := by
    obtain ⟨m,hm,most,hw⟩ := h.transfers (n + k)
    refine ⟨m - k,by omega,most,?_⟩
    rwa [Nat.sub_add_cancel (by omega)]

/-- The interruptions before the first transfer. -/
lemma Progresses.exists_first {writes : ℕ → Answer} (h : Progresses writes) :
    ∃ k most, (∀ n, n < k → writes n = .error EINTR) ∧ writes k = .transfer most := by
  classical
  have hex : ∃ k, ∃ most, writes k = .transfer most := by
    obtain ⟨m,-,hm⟩ := h.transfers 0
    exact ⟨m,hm⟩
  obtain ⟨most,hmost⟩ := Nat.find_spec hex
  refine ⟨Nat.find hex,most,?_,hmost⟩
  intro n hn
  cases hw : writes n with
  | error errno => rw [h.eintr n errno hw]
  | transfer most => exact absurd ⟨most,hw⟩ (Nat.find_min hex hn)

section Correctness
variable {Path : Type} {strerror : ℕ → String} {os os' : Os Path} {path : Path}
  {data : List UInt8}

/-- The file holds the data, and nothing else has changed but what writing has used up. -/
structure Os.Wrote (os os' : Os Path) (path : Path) (data : List UInt8) : Prop where
  file : os'.files path = some data
  others : ∀ p, p ≠ path → os'.files p = os.files p
  fstats : os'.fstats = os.fstats
  reads : os'.reads = os.reads
  opens : os'.opens = os.opens

lemma Os.Wrote.trans {os₁ os₂ : Os Path} {data₁ : List UInt8} (h₁ : os.Wrote os₁ path data₁)
    (h₂ : os₁.Wrote os₂ path data) : os.Wrote os₂ path data where
  file := h₂.file
  others p hp := (h₂.others p hp).trans (h₁.others p hp)
  fstats := h₂.fstats.trans h₁.fstats
  reads := h₂.reads.trans h₁.reads
  opens := h₂.opens.trans h₁.opens

/-- The one call of `read` decides. -/
theorem readFileInto_eq (strerror : ℕ → String) (hopen : os.opens 0 = none) (hfstat : os.fstats 0 = none)
    (hfile : os.files path = some data) : (readFileInto strerror os path).1 =
      match os.reads 0 with
      | .error errno => .error ("Unable to read file: " ++ strerror errno)
      | .transfer most =>
        if most + 1 < data.length then
          .error ("Unable to read entire file: only read " ++ toString (most + 1) ++ " of " ++
            toString data.length)
        else .ok data := by
  simp only [readFileInto, Os.openRead, hopen, hfile, Os.fstat, hfstat, Os.content, Option.getD_some,
    Os.read, List.drop_zero]
  cases os.reads 0 with
  | error errno => rfl
  | transfer most =>
    dsimp only
    by_cases hlt : most + 1 < data.length
    · have hlen : (data.take (min (most + 1) data.length)).length = most + 1 := by
        rw [List.length_take]
        omega
      rw [hlen, if_pos hlt, if_pos hlt]
    · have hall : data.take (min (most + 1) data.length) = data :=
        List.take_of_length_le (by omega)
      rw [hall, if_neg (Nat.lt_irrefl _), if_neg hlt, Nat.sub_self, List.replicate_zero,
        List.append_nil]

variable [DecidableEq Path]

/-- A write that goes through appends what it transferred of the rest. -/
lemma write_transfer (os : Os Path) {written most : ℕ} (hle : written ≤ data.length)
    (hfile : os.files path = some (data.take written)) (hw : os.writes 0 = .transfer most) :
    ∃ os', os.write ⟨path,written⟩ (data.drop written) =
        (.ok (min (most + 1) (data.length - written),
          ⟨path,written + min (most + 1) (data.length - written)⟩),os') ∧
      os.Wrote os' path (data.take (written + min (most + 1) (data.length - written))) ∧
      os'.writes = fun n => os.writes (n + 1) := by
  have hlen : ((data.drop written).take (most + 1)).length =
      min (most + 1) (data.length - written) := by
    rw [List.length_take, List.length_drop]
  have hnew : (data.take written).take written ++ (data.drop written).take (most + 1) ++
      (data.take written).drop (written + min (most + 1) (data.length - written)) =
      data.take (written + min (most + 1) (data.length - written)) := by
    have hold : (data.take written).drop (written + min (most + 1) (data.length - written)) = [] :=
      List.drop_of_length_le (by rw [List.length_take]; omega)
    rw [List.take_take, Nat.min_self, hold, List.append_nil, ← List.take_add, List.take_eq_take_iff]
    omega
  simp only [Os.write, hw, Os.content, hfile, Option.getD_some, hlen, hnew]
  refine ⟨_,rfl,⟨Function.update_self ..,?_,rfl,rfl,rfl⟩,rfl⟩
  intro p hp
  exact Function.update_of_ne hp ..

/-- The loop goes on after interruptions as if they had not been. -/
lemma writeLoop_interrupted {written : ℕ} {file : Fd Path} {res : Except String Unit × Os Path}
    (hlt : written < data.length) (k : ℕ) (h : ∀ n, n < k → os.writes n = .error EINTR)
    (hret : Returns (fun n => writeLoop strerror data n written file
      { os with writes := fun n => os.writes (n + k) }) res) :
    Returns (fun n => writeLoop strerror data n written file os) res := by
  induction k generalizing os with
  | zero => exact hret
  | succ k ih =>
    have hnext := @ih { os with writes := fun n => os.writes (n + 1) }
      (fun n hn => h (n + 1) (by omega)) (by simpa only [Nat.add_assoc, Nat.add_comm 1] using hret)
    refine Returns.succ hnext (fun n => ?_)
    rw [writeLoop, if_pos hlt, Os.write, h 0 (by omega)]
    rfl

/-- The loop writes the rest of the data, however little each call transfers and however often it
is interrupted. -/
theorem writeLoop_returns (strerror : ℕ → String) (os : Os Path) (written : ℕ)
    (hle : written ≤ data.length)
    (hfile : os.files path = some (data.take written)) (hwrites : Progresses os.writes) :
    ∃ os', Returns (fun n => writeLoop strerror data n written ⟨path,written⟩ os) (.ok (),os') ∧
      os.Wrote os' path data := by
  induction hrest : data.length - written using Nat.strongRecOn generalizing written os with
  | ind r ih =>
    by_cases hlt : written < data.length
    · obtain ⟨k,most,heintr,hmost⟩ := hwrites.exists_first
      have hfirst : (fun n => os.writes (n + k)) 0 = .transfer most := by simpa using hmost
      obtain ⟨os₁,hcall,hwrote,hnext⟩ :=
        write_transfer { os with writes := fun n => os.writes (n + k) } hle hfile hfirst
      obtain ⟨os₂,hret,hwrote'⟩ := ih _ (by omega) _ _ (by omega) hwrote.file
        (hnext ▸ (hwrites.drop k).drop 1) rfl
      refine ⟨os₂,writeLoop_interrupted hlt k heintr (Returns.succ hret (fun n => ?_)),?_⟩
      · rw [writeLoop, if_pos hlt, hcall]
      · exact Os.Wrote.trans ⟨hwrote.file,hwrote.others,hwrote.fstats,hwrote.reads,hwrote.opens⟩
          hwrote'
    · have hall : data.take written = data := List.take_of_length_le (by omega)
      refine ⟨os,Returns.succ (Returns.pure _) (fun n => ?_),⟨hall ▸ hfile,fun _ _ => rfl,rfl,rfl,rfl⟩⟩
      rw [writeLoop, if_neg hlt]

/-- `write` returns Ok, and the file holds the data. -/
theorem write_returns (strerror : ℕ → String) (h : os.Reliable) (path : Path) (data : List UInt8) :
    ∃ os', Returns (fun n => write strerror n os path data) (.ok (),os') ∧
      os'.files path = some data ∧ (∀ p, p ≠ path → os'.files p = os.files p) ∧
      os'.reads = os.reads ∧ os'.opens 0 = none ∧ os'.fstats 0 = none := by
  have hempty : Function.update os.files path (some []) path = some (data.take 0) :=
    Function.update_self ..
  obtain ⟨os',hret,hwrote⟩ := writeLoop_returns strerror
    { os with opens := fun n => os.opens (n + 1), files := Function.update os.files path (some []) }
    0 (Nat.zero_le _) hempty h.writes
  refine ⟨os',?_,hwrote.file,?_,hwrote.reads,?_,?_⟩
  · simp only [write, writeFileFrom, Os.openWrite, h.opens 0]
    exact hret
  · intro p hp
    rw [hwrote.others p hp]
    exact Function.update_of_ne hp ..
  · rw [hwrote.opens]
    exact h.opens 1
  · rw [hwrote.fstats]
    exact h.fstats 0

/-- What is written is read back, as bytes and as a string. -/
def RoundTrip (strerror : ℕ → String) (os : Os Path) (path : Path) (data : List UInt8) : Prop :=
  ∃ os', Returns (fun n => write strerror n os path data) (.ok (),os') ∧
    (read strerror os' path).1 = .ok data ∧ (readToString strerror os' path).1 = .ok data

/-- Writing copes with every short transfer and interruption; reading with none. -/
theorem roundTrip_iff (h : os.Reliable) (path : Path) (data : List UInt8) :
    RoundTrip strerror os path data ↔ ∃ most, os.reads 0 = .transfer most ∧ data.length ≤ most + 1 := by
  obtain ⟨os₁,hret,hfile,-,hreads,hopen,hfstat⟩ := write_returns strerror h path data
  have hread := readFileInto_eq strerror hopen hfstat hfile
  rw [hreads] at hread
  constructor
  · intro ⟨os',hret',hback,_⟩
    obtain rfl : os₁ = os' := (Prod.mk.inj (hret.unique hret')).2
    rw [read, hread] at hback
    cases hr : os.reads 0 with
    | error errno =>
      rw [hr] at hback
      cases hback
    | transfer most =>
      rw [hr] at hback
      dsimp only at hback
      split_ifs at hback with hlt
      exact ⟨most,rfl,Nat.le_of_not_lt hlt⟩
  · intro ⟨most,hr,hle⟩
    rw [hr] at hread
    dsimp only at hread
    rw [if_neg (by omega)] at hread
    exact ⟨os₁,hret,hread,hread⟩

end Correctness

section Samples

/-- Every other write is interrupted, and the others transfer one byte. -/
def trickling (reads : ℕ → Answer) : Os String where
  files _ := none
  opens _ := none
  fstats _ := none
  reads := reads
  writes n := if n % 2 = 0 then .error EINTR else .transfer 0

lemma trickling_reliable {reads : ℕ → Answer} (h : ∀ n errno, reads n = .error errno → errno = EINTR) :
    (trickling reads).Reliable where
  opens _ := rfl
  fstats _ := rfl
  reads := h
  writes := by
    refine ⟨?_,?_⟩
    · intro n errno herror
      simp only [trickling] at herror
      split_ifs at herror
      exact (Answer.error.inj herror).symm
    · intro n
      refine ⟨2*n + 1,by omega,0,?_⟩
      simp only [trickling]
      rw [if_neg (by omega)]

theorem roundTrip_iff_at :
    RoundTrip toString (trickling fun _ => .transfer 1) "a" [7,8] ↔
      ∃ most, Answer.transfer 1 = .transfer most ∧ [7,8].length ≤ most + 1 := by
  have hreliable : (trickling fun _ => .transfer 1).Reliable := trickling_reliable nofun
  exact roundTrip_iff hreliable "a" [7,8]

/-- A read of one byte out of two. -/
theorem short_read_fails :
    (trickling fun _ => .transfer 0).Reliable ∧
    (∃ os', Returns (fun n => write toString n (trickling fun _ => .transfer 0) "a" [7,8]) (.ok (),os') ∧
      (read toString os' "a").1 = .error "Unable to read entire file: only read 1 of 2") ∧
    ¬RoundTrip toString (trickling fun _ => .transfer 0) "a" [7,8] := by
  have hreliable : (trickling fun _ => .transfer 0).Reliable := trickling_reliable nofun
  obtain ⟨os',hret,hfile,-,hreads,hopen,hfstat⟩ :=
    write_returns toString hreliable "a" [7,8]
  have hread := readFileInto_eq toString hopen hfstat hfile
  rw [hreads] at hread
  refine ⟨hreliable,⟨os',hret,hread⟩,?_⟩
  intro ⟨os₁,hret₁,hback,_⟩
  obtain rfl : os' = os₁ := (Prod.mk.inj (hret.unique hret₁)).2
  cases hread.symm.trans hback

end Samples
end Asp.Fs
