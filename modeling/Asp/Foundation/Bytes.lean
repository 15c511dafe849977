import Mathlib.Data.Nat.Digits.Lemmas
import Mathlib.Logic.Function.Basic

/-! Memory as cells at addresses, and the numbers that bytes denote in either byte order. -/
namespace Asp.Foundation.Bytes

section Memory
variable {α : Type*} (mem : ℕ → α)

def load (a k : ℕ) : List α := (List.range k).map fun i => mem (a+i)

def store (a : ℕ) (l : List α) : ℕ → α :=
  fun p => if a ≤ p then l[p-a]?.getD (mem p) else mem p

/-- A block of k cells, copied from one address to another at once. -/
def moved (dest src k : ℕ) : ℕ → α :=
  fun p => if dest ≤ p ∧ p < dest + k then mem (src+(p-dest)) else mem p

@[simp] lemma length_load (a k : ℕ) : (load mem a k).length = k := by simp [load]

lemma load_store (a : ℕ) (l : List α) : load (store mem a l) a l.length = l := by
  apply List.ext_getElem
  · simp
  · intro i _ hi
    simp [load, store, hi]

lemma load_moved (dest src k : ℕ) : load (moved mem dest src k) dest k = load mem src k := by
  apply List.map_congr_left
  intro i hi
  have hlt := List.mem_range.mp hi
  rw [moved, if_pos (by omega), Nat.add_sub_cancel_left]

end Memory

/-- The number of some bytes, the least significant first. -/
def number (l : List UInt8) : ℕ := Nat.ofDigits 256 (l.map UInt8.toNat)

/-- The k least significant bytes of a number, the least significant first. -/
def digits : ℕ → ℕ → List UInt8
  | 0, _ => []
  | k+1, n => UInt8.ofNat n :: digits k (n/256)

@[simp] lemma length_digits (k n : ℕ) : (digits k n).length = k := by
  induction k generalizing n with
  | zero => rfl
  | succ k ih => simp [digits, ih]

@[simp] lemma number_nil : number [] = 0 := rfl

lemma number_cons (b : UInt8) (l : List UInt8) : number (b :: l) = b.toNat + 256*number l := by
  simp [number, Nat.ofDigits_cons]

lemma number_lt (l : List UInt8) : number l < 256^l.length := by
  have h := Nat.ofDigits_lt_base_pow_length (b := 256) (l := l.map UInt8.toNat) (by decide)
    fun d hd => by
      obtain ⟨b,-,rfl⟩ := List.mem_map.mp hd
      exact b.toNat_lt
  rwa [List.length_map] at h

/-- Bytes are the digits of their number. -/
theorem digits_number (l : List UInt8) : digits l.length (number l) = l := by
  induction l with
  | nil => rfl
  | cons b l ih =>
    have hb := b.toNat_lt
    have hdiv : (b.toNat + 256*number l) / 256 = number l := by omega
    have hlow : UInt8.ofNat (b.toNat + 256*number l) = b := by
      apply UInt8.toNat_inj.mp
      rw [UInt8.toNat_ofNat']
      omega
    rw [List.length_cons, number_cons, digits, hdiv, hlow, ih]

/-- In which order the bytes of a number are stored. -/
inductive Order
  | little | big

namespace Order

def other : Order → Order
  | little => big
  | big => little

def read : Order → List UInt8 → ℕ
  | little, l => number l
  | big, l => number l.reverse

def write : Order → ℕ → ℕ → List UInt8
  | little, k, n => digits k n
  | big, k, n => (digits k n).reverse

variable (o : Order)

lemma read_lt (l : List UInt8) : o.read l < 256^l.length := by
  cases o with
  | little => exact number_lt l
  | big => simpa [read] using number_lt l.reverse

@[simp] lemma length_write (k n : ℕ) : (o.write k n).length = k := by cases o <;> simp [write]

lemma read_reverse (l : List UInt8) : o.read l.reverse = o.other.read l := by
  cases o with
  | little => rfl
  | big => rw [read, List.reverse_reverse]; rfl

end Order

/-- A number of k bytes, with its bytes in the opposite order. -/
def swapped (k n : ℕ) : ℕ := number (digits k n).reverse

/-- Reading, swapping and writing back reverses the bytes, in either order. -/
theorem write_swapped (o : Order) (l : List UInt8) :
    o.write l.length (swapped l.length (o.read l)) = l.reverse := by
  cases o with
  | little =>
    have h := digits_number l.reverse
    rw [List.length_reverse] at h
    rw [Order.read, swapped, digits_number, Order.write, h]
  | big =>
    have h := digits_number l.reverse
    rw [List.length_reverse] at h
    rw [Order.read, swapped, h, List.reverse_reverse, Order.write, digits_number]

end Asp.Foundation.Bytes
