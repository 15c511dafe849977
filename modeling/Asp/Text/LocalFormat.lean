import Mathlib.Data.List.Basic
import Mathlib.Order.Nat

/-! `asp::local_format`: text that is formatted into an array of fixed size, and what a reader of
the result finds there. -/
namespace Asp.Text

/-- A `std::array<char, N>`. A byte that has not been written to has no value. -/
abbrev Buffer (N : ℕ) : Type := Fin N → Option Char

def nul : Char := Char.ofNat 0

namespace Buffer
variable {N : ℕ}

/-- The byte at a position, if that is in the array and has been written to. -/
def read (arr : Buffer N) (i : ℕ) : Option Char := if h : i < N then arr ⟨i,h⟩ else none

def write (arr : Buffer N) (pos : ℕ) (c : Char) : Buffer N := fun i =>
  if i.val = pos then some c else arr i

/-- `fmt::format_to_n`, which writes as much of the text as there is room for. -/
def formatToN (arr : Buffer N) (text : List Char) : Buffer N := fun i => text[i.val]?.or (arr i)

lemma read_of_le (arr : Buffer N) {i : ℕ} (h : N ≤ i) : arr.read i = none :=
  dif_neg (Nat.not_lt.mpr h)

lemma read_write_self (arr : Buffer N) (c : Char) {i : ℕ} (h : i < N) :
    (arr.write i c).read i = some c := by
  rw [read, dif_pos h, write, if_pos rfl]

lemma read_write_of_ne (arr : Buffer N) (c : Char) {i pos : ℕ} (h : i ≠ pos) :
    (arr.write pos c).read i = arr.read i := by
  simp only [read, write, if_neg h]

lemma read_formatToN (arr : Buffer N) {text : List Char} {i : ℕ} (h : i < N)
    (hi : i < text.length) : (arr.formatToN text).read i = text[i]? := by
  rw [read, dif_pos h, formatToN, List.getElem?_eq_getElem hi]
  rfl

end Buffer

/-- A `string_view` of what is at the start of an array. -/
structure View (N : ℕ) where
  arr : Buffer N
  size : ℕ

/-- Both overloads of `local_format`, on the text that fmt makes of the arguments. The length that
`format_to_n` reports is that of the whole text. -/
def local_format {N : ℕ} (arr : Buffer N) (text : List Char) : View N :=
  let size := text.length
  let arr := arr.formatToN text
  if size < N then ⟨arr.write size nul,size⟩ else ⟨arr.write (N - 1) nul,size⟩

/-- The first `n` bytes of an array, if all of them can be read. -/
def Buffer.readUpTo {N : ℕ} (arr : Buffer N) : ℕ → Option (List Char)
  | 0 => some []
  | n+1 => (arr.readUpTo n).bind fun s => (arr.read n).map fun c => s ++ [c]

/-- Whether one of the `n` bytes from `i` on is `c`, reading up to the first that is. -/
def Buffer.has {N : ℕ} (arr : Buffer N) (c : Char) : (i n : ℕ) → Option Bool
  | _, 0 => some false
  | i, n+1 => (arr.read i).bind fun a => if a = c then some true else arr.has c (i + 1) n

/-- The characters of a view. -/
def View.chars {N : ℕ} (v : View N) : Option (List Char) := v.arr.readUpTo v.size

/-- What a caller of `local_format` relies on. -/
structure StaysInside {N : ℕ} (arr : Buffer N) (text : List Char) : Prop where
  inside : (local_format arr text).size ≤ N
  kept : ∃ s, s <+: text ∧ (local_format arr text).chars = some s
  ended : (local_format arr text).size < N ∧
    (local_format arr text).arr.read (local_format arr text).size = some nul

section
variable {N : ℕ} {arr : Buffer N} {text : List Char}

lemma readUpTo_eq_take {n : ℕ} (h : ∀ i < n, arr.read i = text[i]?) (hn : n ≤ text.length) :
    arr.readUpTo n = some (text.take n) := by
  induction n with
  | zero => rfl
  | succ n ih =>
    have hlt : n < text.length := hn
    rw [Buffer.readUpTo, ih (fun i hi => h i (Nat.lt_succ_of_lt hi)) hlt.le, h n (Nat.lt_succ_self n),
      List.getElem?_eq_getElem hlt, ← List.take_append_getElem hlt]
    rfl

/-- Every byte below the bound is read. -/
lemma read_isSome_of_readUpTo {n : ℕ} (h : (arr.readUpTo n).isSome = true) {i : ℕ} (hi : i < n) :
    (arr.read i).isSome = true := by
  induction n with
  | zero => exact absurd hi (Nat.not_lt_zero i)
  | succ n ih =>
    obtain ⟨s,hs⟩ := Option.isSome_iff_exists.mp h
    obtain ⟨s',hs',hc⟩ := Option.bind_eq_some_iff.mp hs
    obtain ⟨c,hc,-⟩ := Option.map_eq_some_iff.mp hc
    rcases Nat.lt_succ_iff_lt_or_eq.mp hi with hlt | rfl
    · exact ih (by rw [hs']; rfl) hlt
    · rw [hc]
      rfl

lemma readUpTo_isSome {n : ℕ} (h : ∀ i < n, (arr.read i).isSome = true) :
    (arr.readUpTo n).isSome = true := by
  induction n with
  | zero => rfl
  | succ n ih =>
    obtain ⟨s,hs⟩ := Option.isSome_iff_exists.mp (ih fun i hi => h i (Nat.lt_succ_of_lt hi))
    obtain ⟨c,hc⟩ := Option.isSome_iff_exists.mp (h n (Nat.lt_succ_self n))
    rw [Buffer.readUpTo, hs, hc]
    rfl

/-- A search that finds nothing has read everything, and no search has to read more. -/
lemma has_isSome {c : Char} {i n : ℕ} (h : ∀ j, i ≤ j → j < i + n → (arr.read j).isSome = true) :
    (arr.has c i n).isSome = true := by
  induction n generalizing i with
  | zero => rfl
  | succ n ih =>
    obtain ⟨a,ha⟩ := Option.isSome_iff_exists.mp (h i (Nat.le_refl i) (by omega))
    rw [Buffer.has, ha, Option.bind_some]
    split_ifs
    · rfl
    · exact ih fun j hj hlt => h j (by omega) (by omega)

lemma read_isSome_of_has {c : Char} {i n : ℕ} (h : arr.has c i n = some false) {j : ℕ} (hi : i ≤ j)
    (hj : j < i + n) : (arr.read j).isSome = true := by
  induction n generalizing i with
  | zero => omega
  | succ n ih =>
    obtain ⟨a,ha,hrest⟩ := Option.bind_eq_some_iff.mp h
    split_ifs at hrest
    · cases hrest
    · rcases Nat.eq_or_lt_of_le hi with rfl | hlt
      · rw [ha]
        rfl
      · exact ih hrest hlt (by omega)

@[simp] lemma local_format_size (arr : Buffer N) (text : List Char) :
    (local_format arr text).size = text.length := by
  unfold local_format
  dsimp only
  split_ifs <;> rfl

/-- A text that fits is there, with the terminator behind it. -/
lemma local_format_of_lt (arr : Buffer N) (h : text.length < N) :
    (local_format arr text).chars = some text ∧
      (local_format arr text).arr.read text.length = some nul := by
  have heq : local_format arr text = ⟨(arr.formatToN text).write text.length nul,text.length⟩ :=
    if_pos h
  rw [heq]
  constructor
  · have hread : ∀ i < text.length,
        ((arr.formatToN text).write text.length nul).read i = text[i]? := by
      intro i hi
      rw [Buffer.read_write_of_ne _ _ hi.ne, Buffer.read_formatToN arr (hi.trans h) hi]
    exact (readUpTo_eq_take hread (Nat.le_refl _)).trans (congrArg some text.take_length)
  · exact Buffer.read_write_self _ _ h

/-- All bytes of the view are there as long as it lies in the array. -/
lemma local_format_chars_isSome :
    (local_format arr text).chars.isSome = true ↔ text.length ≤ N := by
  constructor
  · intro h
    by_contra hlt
    have hread := read_isSome_of_readUpTo h (i := N) (by rw [local_format_size]; omega)
    rw [Buffer.read_of_le _ (Nat.le_refl N)] at hread
    cases hread
  · intro h
    rcases Nat.lt_or_eq_of_le h with hlt | rfl
    · rw [(local_format_of_lt _ hlt).1]
      rfl
    · apply readUpTo_isSome
      intro i hi
      rw [local_format_size] at hi
      rw [local_format, if_neg (Nat.lt_irrefl _)]
      by_cases hlast : i = text.length - 1
      · subst hlast
        rw [Buffer.read_write_self _ _ hi]
        rfl
      · rw [Buffer.read_write_of_ne _ _ hlast, Buffer.read_formatToN arr hi hi,
          List.getElem?_eq_getElem hi]
        rfl

/-- The view stays inside the array, keeps the text and is ended by the terminator exactly where
the text is shorter than the array. -/
theorem staysInside_iff (arr : Buffer N) (text : List Char) :
    StaysInside arr text ↔ text.length < N := by
  constructor
  · intro h
    have hlt := h.ended.1
    rwa [local_format_size] at hlt
  · intro h
    obtain ⟨hchars,hnul⟩ := local_format_of_lt arr h
    refine ⟨?_,⟨text,List.prefix_refl text,hchars⟩,?_,?_⟩ <;> rw [local_format_size]
    · exact h.le
    · exact h
    · exact hnul

end
end Asp.Text
