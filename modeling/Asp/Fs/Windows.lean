import Asp.Fs.Writer
import Mathlib.Data.List.DropRight

/-! `asp::fs::read` and `asp::fs::write` on Windows, where each makes one transfer of a length that
has 32 bits. The system may answer every call in every way it documents. -/
namespace Asp.Fs.Windows

/-- The files, the open handles, and what GetLastError() returns. -/
structure Os (Path : Type) where
  files : Path → Option (List UInt8)
  handles : ℕ
  lastError : UInt32
  small : ∀ path data, files path = some data → data.length < 2^63

/-- A ReadFile or a WriteFile moves so many bytes if there are as many; it may fail all the same. -/
structure Transfer where
  most : UInt32
  fails : Option UInt32

/-- Not more than `count` bytes are moved. -/
def Transfer.moved (t : Transfer) (count : UInt32) : UInt32 := if t.most ≤ count then t.most else count

/-- The answers to the calls of one function: the error codes of those that fail, and the code that
CloseHandle leaves. -/
structure Replies where
  create : Option UInt32
  size : Option UInt32
  transfer : Transfer
  close : UInt32

def ERROR_FILE_NOT_FOUND : UInt32 := 2

section Functions
variable {Path : Type} (messages : UInt32 → List Char)

/-- The loop of `formatError`. -/
def trim (message : List Char) : List Char := message.rdropWhile fun c => c = '\n' ∨ c = '\r'

/-- FormatMessageA gives no characters for a code it does not know. -/
def formatError (error : UInt32) : String :=
  match messages error with
  | [] => "Win error " ++ toString error.toNat
  | message => String.ofList (trim message)

namespace Os

def fail (os : Os Path) (code : UInt32) : Os Path := { os with lastError := code }

def opened (os : Os Path) : Os Path := { os with handles := os.handles + 1 }

/-- CloseHandle -/
def close (os : Os Path) (r : Replies) : Os Path :=
  { os with handles := os.handles - 1, lastError := r.close }

/-- CreateFileW with OPEN_EXISTING; the content of the file that is open then. -/
def openExisting (os : Os Path) (r : Replies) (path : Path) : Option (List UInt8) × Os Path :=
  match r.create, os.files path with
  | some code, _ => (none,os.fail code)
  | none, none => (none,os.fail ERROR_FILE_NOT_FOUND)
  | none, some content => (some content,os.opened)

/-- The file holds the first `n` bytes of the data. -/
def put [DecidableEq Path] (os : Os Path) (path : Path) (data : List UInt8) (n : UInt32) :
    Os Path where
  files := Function.update os.files path (some (data.take n.toNat))
  handles := os.handles
  lastError := os.lastError
  small q content h := by
    by_cases hq : q = path
    · subst hq
      rw [Function.update_self] at h
      cases h
      have hn := n.toNat_lt
      rw [List.length_take]
      omega
    · rw [Function.update_of_ne hq] at h
      exact os.small q content h

end Os

/-- `readFileInto`, with what it leaves in `out`. -/
def readFileInto (r : Replies) (os : Os Path) (path : Path) : Except String (List UInt8) × Os Path :=
  match os.openExisting r path with
  | (none,os) => (.error ("Unable to open file: " ++ formatError messages os.lastError),os)
  | (some content,os) =>
    match r.size with
    | some code =>
      let os := (os.fail code).close r
      (.error ("Unable to get file size: " ++ formatError messages os.lastError),os)
    | none =>
      let size := UInt64.ofNat content.length
      match r.transfer.fails with
      | some code =>
        let os := (os.fail code).close r
        (.error ("Unable to read file: " ++ formatError messages os.lastError),os)
      | none =>
        -- the length is cast to a DWORD
        let read := r.transfer.moved size.toUInt32
        let os := os.close r
        if read.toUInt64 < size then
          (.error ("Unable to read entire file: only read " ++ toString read.toNat ++ " of " ++
            toString size.toNat),os)
        else
          (.ok (content.take read.toNat ++ List.replicate (size.toNat - read.toNat) 0),os)

variable [DecidableEq Path]

/-- CREATE_ALWAYS makes the file empty. -/
def writeFileFrom (r : Replies) (os : Os Path) (path : Path) (i : Writer.Input) :
    Except String Unit × Os Path :=
  match r.create with
  | some code =>
    let os := os.fail code
    (.error ("Unable to open file: " ++ formatError messages os.lastError),os)
  | none =>
    let os := os.opened.put path [] 0
    let written := r.transfer.moved i.size.toUInt32
    let os := os.put path i.data written
    match r.transfer.fails with
    | some code =>
      let os := (os.fail code).close r
      (.error ("Unable to write file: " ++ formatError messages os.lastError),os)
    | none =>
      let os := os.close r
      if written.toUInt64 < i.size then
        (.error ("Unable to write entire file: only wrote " ++ toString written.toNat ++ " of " ++
          toString i.size.toNat),os)
      else (.ok (),os)

end Functions

section Transfers
variable (t : Transfer) (size : UInt64)

/-- A transfer is complete only if the length has 32 bits. -/
lemma moved_complete :
    ¬(t.moved size.toUInt32).toUInt64 < size ↔ size.toNat ≤ t.most.toNat := by
  have hcount : size.toUInt32.toNat = size.toNat % 2^32 := UInt64.toNat_toUInt32 size
  have hmost := t.most.toNat_lt
  rw [UInt64.lt_iff_toNat_lt, UInt32.toNat_toUInt64, Transfer.moved]
  split_ifs with hle
  · omega
  · rw [UInt32.le_iff_toNat_le] at hle
    omega

lemma moved_le : (t.moved size.toUInt32).toNat ≤ size.toNat % 2^32 := by
  have hcount : size.toUInt32.toNat = size.toNat % 2^32 := UInt64.toNat_toUInt32 size
  rw [Transfer.moved]
  split_ifs with hle
  · rw [UInt32.le_iff_toNat_le] at hle
    omega
  · omega

end Transfers

section Results
variable {Path : Type} (messages : UInt32 → List Char) (r : Replies) (os : Os Path) (path : Path)

lemma small_size {data : List UInt8} (h : os.files path = some data) :
    (UInt64.ofNat data.length).toNat = data.length := by
  have hlt := os.small path data h
  rw [UInt64.toNat_ofNat_of_lt' (by simp only [UInt64.size]; omega)]

/-- A read that reports success gives all of the file, and one that can succeed does. -/
lemma readFileInto_ok_iff {data : List UInt8} :
    (readFileInto messages r os path).1 = .ok data ↔ r.create = none ∧ r.size = none ∧
      r.transfer.fails = none ∧ os.files path = some data ∧
      data.length ≤ r.transfer.most.toNat := by
  obtain ⟨create,size,transfer,close⟩ := r
  unfold readFileInto Os.openExisting
  cases create with
  | some code => simp
  | none =>
    cases hfile : os.files path with
    | none => simp
    | some content =>
      cases size with
      | some code => simp
      | none =>
        obtain ⟨most,fails⟩ := transfer
        cases fails with
        | some code => simp
        | none =>
          have hsize := small_size os path hfile
          have hcomplete := moved_complete ⟨most,none⟩ (.ofNat content.length)
          rw [hsize] at hcomplete
          dsimp only
          split_ifs with hread
          · have hlt : ¬content.length ≤ most.toNat := fun hle => hcomplete.mpr hle hread
            simp only [true_and, Option.some.injEq, false_iff]
            rintro ⟨rfl,hle⟩
            exact hlt hle
          · have hle := hcomplete.mp hread
            rw [UInt64.lt_iff_toNat_lt, UInt32.toNat_toUInt64, hsize, Nat.not_lt] at hread
            rw [hsize, List.take_of_length_le hread, Nat.sub_eq_zero_of_le hread]
            simp only [List.replicate_zero, List.append_nil, Except.ok.injEq, true_and,
              Option.some.injEq]
            exact ⟨fun h => ⟨h,h ▸ hle⟩,fun h => h.1⟩

lemma readFileInto_frame : (readFileInto messages r os path).2.handles = os.handles ∧
    (readFileInto messages r os path).2.files = os.files := by
  obtain ⟨create,size,transfer,close⟩ := r
  unfold readFileInto Os.openExisting
  cases create with
  | some code => exact ⟨rfl,rfl⟩
  | none =>
    cases os.files path with
    | none => exact ⟨rfl,rfl⟩
    | some content =>
      cases size with
      | some code => exact ⟨rfl,rfl⟩
      | none =>
        obtain ⟨most,fails⟩ := transfer
        cases fails with
        | some code => exact ⟨rfl,rfl⟩
        | none =>
          dsimp only
          split_ifs
          · exact ⟨rfl,rfl⟩
          · exact ⟨rfl,rfl⟩

variable [DecidableEq Path] (i : Writer.Input)

lemma writeFileFrom_ok_iff : (writeFileFrom messages r os path i).1 = .ok () ↔
    r.create = none ∧ r.transfer.fails = none ∧ i.size.toNat ≤ r.transfer.most.toNat := by
  obtain ⟨create,size,transfer,close⟩ := r
  unfold writeFileFrom
  cases create with
  | some code => simp
  | none =>
    obtain ⟨most,fails⟩ := transfer
    cases fails with
    | some code => simp
    | none =>
      have hcomplete := moved_complete ⟨most,none⟩ i.size
      dsimp only
      split_ifs with hread
      · simpa using fun hle => hcomplete.mpr hle hread
      · simpa using hcomplete.mp hread

/-- Whatever the system answers, an open file ends up with the bytes that were moved. -/
lemma writeFileFrom_opened (hc : r.create = none) : (writeFileFrom messages r os path i).2.files =
    Function.update os.files path
      (some (i.data.take (r.transfer.moved i.size.toUInt32).toNat)) := by
  obtain ⟨create,size,transfer,close⟩ := r
  cases hc
  obtain ⟨most,fails⟩ := transfer
  have hput : ∀ n, ((os.opened.put path [] 0).put path i.data n).files =
      Function.update os.files path (some (i.data.take n.toNat)) := fun _ =>
    Function.update_idem ..
  unfold writeFileFrom
  cases fails with
  | some code => exact hput _
  | none =>
    dsimp only
    by_cases hread : (Transfer.moved ⟨most,none⟩ i.size.toUInt32).toUInt64 < i.size
    · rw [if_pos hread]
      exact hput _
    · rw [if_neg hread]
      exact hput _

lemma writeFileFrom_unopened (hc : r.create ≠ none) :
    (writeFileFrom messages r os path i).2.files = os.files := by
  obtain ⟨code,hcode⟩ := Option.ne_none_iff_exists'.mp hc
  unfold writeFileFrom
  rw [hcode]
  rfl

lemma writeFileFrom_handles : (writeFileFrom messages r os path i).2.handles = os.handles := by
  obtain ⟨create,size,transfer,close⟩ := r
  unfold writeFileFrom
  cases create with
  | some code => rfl
  | none =>
    obtain ⟨most,fails⟩ := transfer
    cases fails with
    | some code => rfl
    | none =>
      dsimp only
      split_ifs
      · rfl
      · rfl

lemma writeFileFrom_stored (h : (writeFileFrom messages r os path i).1 = .ok ()) :
    (writeFileFrom messages r os path i).2.files path = some i.data := by
  obtain ⟨hcreate,-,hle⟩ := (writeFileFrom_ok_iff messages r os path i).mp h
  have hread := (moved_complete ..).mpr hle
  rw [UInt64.lt_iff_toNat_lt, UInt32.toNat_toUInt64, Nat.not_lt] at hread
  rw [writeFileFrom_opened messages r os path i hcreate, Function.update_self,
    List.take_of_length_le]
  rwa [i.length_eq]

/-- A write reports success just if all of the data has been moved, which takes less than 4 GiB;
otherwise an open file is left with what was moved. No handle stays open. -/
theorem writeFileFrom_reports :
    ((writeFileFrom messages r os path i).1 = .ok () ↔ r.create = none ∧
        r.transfer.fails = none ∧ i.data.length ≤ r.transfer.most.toNat) ∧
      ((writeFileFrom messages r os path i).1 = .ok () →
        i.data.length < 2^32 ∧ (writeFileFrom messages r os path i).2.files path = some i.data) ∧
      (r.create = none → ∃ n : ℕ, n ≤ i.data.length % 2^32 ∧
        (writeFileFrom messages r os path i).2.files path = some (i.data.take n)) ∧
      (writeFileFrom messages r os path i).2.handles = os.handles ∧
      ∀ q, q ≠ path ∨ r.create ≠ none →
        (writeFileFrom messages r os path i).2.files q = os.files q := by
  have hiff := writeFileFrom_ok_iff messages r os path i
  rw [← i.length_eq] at hiff
  refine ⟨hiff,fun h => ⟨?_,writeFileFrom_stored messages r os path i h⟩,fun hc => ?_,
    writeFileFrom_handles messages r os path i,fun q hq => ?_⟩
  · exact (hiff.mp h).2.2.trans_lt (UInt32.toNat_lt _)
  · refine ⟨(r.transfer.moved i.size.toUInt32).toNat,i.length_eq ▸ moved_le ..,?_⟩
    rw [writeFileFrom_opened messages r os path i hc, Function.update_self]
  · by_cases hc : r.create = none
    · rw [writeFileFrom_opened messages r os path i hc]
      exact Function.update_of_ne (hq.resolve_right (not_not_intro hc)) ..
    · rw [writeFileFrom_unopened messages r os path i hc]

end Results

/-- A call of one of the functions, with the answers it gets. -/
inductive Call (Path : Type)
  | write (r : Replies) (path : Path) (i : Writer.Input)
  | read (r : Replies) (path : Path)

/-- The file that is written. -/
def Call.target {Path : Type} : Call Path → Option Path
  | .write _ path _ => some path
  | .read .. => none

section Runs
variable {Path : Type} [DecidableEq Path] (messages : UInt32 → List Char) (os : Os Path)

def after : Call Path → Os Path
  | .write r path i => (writeFileFrom messages r os path i).2
  | .read r path => (readFileInto messages r os path).2

variable (path : Path) (c : Call Path) (cs : List (Call Path))

lemma after_frame : (after messages os c).handles = os.handles ∧
    (c.target ≠ some path → (after messages os c).files path = os.files path) := by
  cases c with
  | write r q i =>
    refine ⟨writeFileFrom_handles messages r os q i,fun hq => ?_⟩
    have hne : path ≠ q := fun he => hq (congrArg some he.symm)
    by_cases hc : r.create = none
    · rw [after, writeFileFrom_opened messages r os q i hc]
      exact Function.update_of_ne hne ..
    · rw [after, writeFileFrom_unopened messages r os q i hc]
  | read r q =>
    obtain ⟨hhandles,hfiles⟩ := readFileInto_frame messages r os q
    exact ⟨hhandles,fun _ => congrFun hfiles path⟩

lemma run_frame : (cs.foldl (after messages) os).handles = os.handles ∧
    ((∀ c ∈ cs, c.target ≠ some path) →
      (cs.foldl (after messages) os).files path = os.files path) := by
  induction cs generalizing os with
  | nil => exact ⟨rfl,fun _ => rfl⟩
  | cons c cs ih =>
    obtain ⟨hhandles,hfile⟩ := after_frame messages os path c
    obtain ⟨hrun,hruns⟩ := ih (after messages os c)
    refine ⟨hrun.trans hhandles,fun h => ?_⟩
    exact (hruns fun c' hc' => h c' (List.mem_cons_of_mem _ hc')).trans
      (hfile (h c List.mem_cons_self))

/-- What was written with success is read back as it was, or an error is reported, whatever else is
read and written in between; only an error of a call or a short transfer is in the way. -/
theorem read_write (messages : UInt32 → List Char) (os : Os Path) (path : Path) (i : Writer.Input)
    (r r' : Replies) (cs : List (Call Path)) (data : List UInt8)
    (h : (writeFileFrom messages r os path i).1 = .ok ())
    (hcs : ∀ c ∈ cs, c.target ≠ some path) :
    (readFileInto messages r' (cs.foldl (after messages)
        (writeFileFrom messages r os path i).2) path).1 = .ok data ↔
      data = i.data ∧ r'.create = none ∧ r'.size = none ∧ r'.transfer.fails = none ∧
        i.data.length ≤ r'.transfer.most.toNat := by
  have hstored := writeFileFrom_stored messages r os path i h
  rw [readFileInto_ok_iff, (run_frame ..).2 hcs, hstored]
  constructor
  · rintro ⟨hc,hs,hf,hdata,hle⟩
    cases hdata
    exact ⟨rfl,hc,hs,hf,hle⟩
  · rintro ⟨rfl,hc,hs,hf,hle⟩
    exact ⟨hc,hs,hf,rfl,hle⟩

/-- In between, a write to another file fails. -/
theorem read_write_between :
    (readFileInto (fun _ => []) ⟨none,none,⟨100,none⟩,0⟩
      ([Call.write ⟨none,none,⟨0,some 112⟩,0⟩ true ⟨[4],1,rfl⟩].foldl (after fun _ => [])
        (writeFileFrom (fun _ => []) ⟨none,none,⟨100,none⟩,0⟩ ⟨fun _ => none,0,0,nofun⟩ false
          ⟨[1,2,3],3,rfl⟩).2) false).1 = .ok [1,2,3] :=
  (read_write (fun _ => []) ⟨fun _ => none,0,0,nofun⟩ false ⟨[1,2,3],3,rfl⟩ ⟨none,none,⟨100,none⟩,0⟩
    ⟨none,none,⟨100,none⟩,0⟩ [.write ⟨none,none,⟨0,some 112⟩,0⟩ true ⟨[4],1,rfl⟩] [1,2,3]
    ((writeFileFrom_ok_iff ..).mpr ⟨rfl,rfl,by decide⟩) (by simp [Call.target])).mpr
    ⟨rfl,rfl,rfl,rfl,by decide⟩

end Runs
end Asp.Fs.Windows
