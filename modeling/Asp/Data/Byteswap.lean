import Mathlib.Tactic.SplitIfs
import Asp.Foundation.Bytes

/-! `asp::data::bit_cast` and `byteswap`. A value is its object representation. -/
namespace Asp.Data
open Foundation.Bytes

/-- `is_primitive` -/
inductive Primitive
  | bool | char | schar | uchar | short | ushort | int | uint | long | ulong | llong | ullong
  | float | double
  deriving DecidableEq

inductive Compiler
  | clang | gnu | msvc

structure Platform where
  order : Order
  eightByteLong : Bool
  compiler : Compiler

def Primitive.sizeof (p : Platform) : Primitive → ℕ
  | bool | char | schar | uchar => 1
  | short | ushort => 2
  | int | uint | float => 4
  | long | ulong => if p.eightByteLong then 8 else 4
  | llong | ullong | double => 8

section Copy
variable {α : Type*}

def _rmemcpy (mem : ℕ → α) (dest src : ℕ) : ℕ → ℕ → α
  | 0 => mem
  | size+1 => _rmemcpy (Function.update mem dest (mem src)) (dest+1) (src+1) size

/-- The loop ascends: the destination may overlap the source from below. -/
theorem rmemcpy_eq_moved (mem : ℕ → α) {dest src size : ℕ} (h : dest ≤ src ∨ src + size ≤ dest) :
    _rmemcpy mem dest src size = moved mem dest src size := by
  induction size generalizing mem dest src with
  | zero =>
    funext a
    rw [moved, if_neg (by omega)]
    rfl
  | succ size ih =>
    rw [_rmemcpy, ih _ (by omega)]
    funext a
    by_cases hfirst : a = dest
    · subst hfirst
      rw [moved, moved, if_neg (by omega), if_pos (by omega), Nat.sub_self, Nat.add_zero,
        Function.update_self]
    · by_cases hin : dest ≤ a ∧ a < dest + (size+1)
      · have hshift : src + 1 + (a - (dest+1)) = src + (a - dest) := by omega
        rw [moved, moved, if_pos (by omega), if_pos hin, hshift,
          Function.update_of_ne (by omega)]
      · rw [moved, moved, if_neg (by omega), if_neg hin, Function.update_of_ne hfirst]

lemma rmemcpy_add (mem : ℕ → α) (dest src k size : ℕ) :
    _rmemcpy mem dest src (k+size) = _rmemcpy (_rmemcpy mem dest src k) (dest+k) (src+k) size := by
  induction k generalizing mem dest src with
  | zero => rw [Nat.zero_add]; rfl
  | succ k ih =>
    rw [Nat.succ_add, _rmemcpy, ih, _rmemcpy, Nat.succ_add_eq_add_succ, Nat.succ_add_eq_add_succ]

lemma rmemcpy_of_lt (mem : ℕ → α) {dest a : ℕ} (src : ℕ) {size : ℕ} (h : a < dest) :
    _rmemcpy mem dest src size a = mem a := by
  induction size generalizing mem dest src with
  | zero => rfl
  | succ size ih => rw [_rmemcpy, ih _ _ (by omega), Function.update_of_ne (by omega)]

/-- It is a copy, whatever the memory holds, just if the destination does not begin inside the
source. -/
theorem rmemcpy_iff [Nontrivial α] (dest src size : ℕ) :
    (∀ mem : ℕ → α, _rmemcpy mem dest src size = moved mem dest src size) ↔
      dest ≤ src ∨ src + size ≤ dest := by
  refine ⟨fun h => ?_,fun h mem => rmemcpy_eq_moved mem h⟩
  by_contra hover
  obtain ⟨x,y,hxy⟩ := exists_pair_ne α
  let mem : ℕ → α := fun a => if a = src then x else y
  obtain ⟨rest,hrest⟩ : ∃ rest, size = dest - src + (rest+1) := ⟨size-(dest-src)-1,by omega⟩
  -- the first cell of the destination has been overwritten when the loop reads it
  have hcopy : _rmemcpy mem dest src size (dest + (dest-src)) = x := by
    rw [hrest, rmemcpy_add, rmemcpy_eq_moved mem (by omega), _rmemcpy, rmemcpy_of_lt _ _ (by omega),
      Function.update_self, moved, if_pos (by omega)]
    exact if_pos (by omega)
  have hmoved : moved mem dest src size (dest + (dest-src)) = y := by
    rw [moved, if_pos (by omega)]
    exact if_neg (by omega)
  exact hxy (hcopy.symm.trans ((congrFun (h mem) _).trans hmoved))

end Copy

/-- Where the parameter and the local variable of a `bit_cast` are, and what is in memory before. -/
structure Frame (size : ℕ) where
  mem : ℕ → UInt8
  dest : ℕ
  value : ℕ
  apart : dest + size ≤ value ∨ value + size ≤ dest

/-- `DO_MEMCPY`: clang has a builtin. -/
def Compiler.memcpy : Compiler → (ℕ → UInt8) → ℕ → ℕ → ℕ → ℕ → UInt8
  | .clang => moved
  | .gnu | .msvc => _rmemcpy

/-- `BSWAP16`: the macro of gcc and clang evaluates its argument twice, as an `int`. -/
def BSWAP16 (c : Compiler) (val again : ℕ) : ℕ :=
  match c with
  | .msvc => swapped 2 val
  | .clang | .gnu => (val >>> 8 ||| again <<< 8) % 2^16

def BSWAP32 (val : ℕ) : ℕ := swapped 4 val
def BSWAP64 (val : ℕ) : ℕ := swapped 8 val

section Byteswap
variable (p : Platform)

def bit_cast {size : ℕ} (f : Frame size) (value : List UInt8) : List UInt8 :=
  load (p.compiler.memcpy (store f.mem f.value value) f.dest f.value size) f.dest size

/-- `none`: control reaches the end of the function. -/
def byteswap (frames : ℕ → (size : ℕ) → Frame size) (T : Primitive) (val : List UInt8) :
    Option (List UInt8) :=
  let unsigned (i size : ℕ) : ℕ := p.order.read (bit_cast p (frames i size) val)
  let result (size n : ℕ) : List UInt8 := bit_cast p (frames 2 size) (p.order.write size n)
  if T = .float then some (result 4 (BSWAP32 (unsigned 0 4)))
  else if T = .double then some (result 8 (BSWAP64 (unsigned 0 8)))
  else if T.sizeof p = 2 then
    some (result 2 (BSWAP16 p.compiler (unsigned 0 2) (unsigned 1 2)))
  else if T.sizeof p = 4 then some (result 4 (BSWAP32 (unsigned 0 4)))
  else if T.sizeof p = 8 then some (result 8 (BSWAP64 (unsigned 0 8)))
  else if T = .char ∨ T = .schar ∨ T = .uchar ∨ T = .bool then some val
  else none

variable {p}

lemma memcpy_eq_moved (c : Compiler) (mem : ℕ → UInt8) {dest src size : ℕ}
    (h : dest ≤ src ∨ src + size ≤ dest) : c.memcpy mem dest src size = moved mem dest src size := by
  cases c with
  | clang => rfl
  | gnu | msvc => exact rmemcpy_eq_moved mem h

/-- `bit_cast` keeps the representation. -/
theorem bit_cast_eq (p : Platform) {value : List UInt8} {size : ℕ} (h : value.length = size)
    (f : Frame size) : bit_cast p f value = value := by
  subst h
  have happart := f.apart
  rw [bit_cast, memcpy_eq_moved _ _ (by omega), load_moved, load_store]

lemma shifts_eq_swapped {n : ℕ} (h : n < 256^2) : (n >>> 8 ||| n <<< 8) % 2^16 = swapped 2 n := by
  obtain ⟨q,r,hr,rfl⟩ : ∃ q r, r < 256 ∧ n = 256*q + r :=
    ⟨n/256,n%256,Nat.mod_lt n (by decide),(Nat.div_add_mod n 256).symm⟩
  have hq : (256*q + r)/256 = q := by omega
  have hor : (256*q + r) >>> 8 ||| (256*q + r) <<< 8 = 2^16*q + (q + 256*r) := by
    rw [Nat.or_comm, Nat.shiftRight_eq_div_pow, hq,
      ← Nat.shiftLeft_add_eq_or_of_lt (show q < 2^8 by omega), Nat.shiftLeft_eq]
    omega
  have hdigits : swapped 2 (256*q + r) = q + 256*r := by
    have hr' : (256*q + r) % 256 = r := by omega
    have hq' : q % 256 = q := by omega
    simp only [swapped, digits, hq, List.reverse_cons, List.reverse_nil, List.nil_append,
      List.cons_append, number_cons, number_nil, UInt8.toNat_ofNat', hr', hq', Nat.mul_zero,
      Nat.add_zero]
  rw [hor, hdigits, Nat.mul_add_mod]
  omega

lemma BSWAP16_eq (c : Compiler) {n : ℕ} (h : n < 256^2) : BSWAP16 c n n = swapped 2 n := by
  cases c with
  | msvc => rfl
  | clang | gnu => exact shifts_eq_swapped h

/-- Each branch casts, swaps and casts back. -/
lemma cast_swapped (p : Platform) {size : ℕ} (f : Frame size) {val : List UInt8} {n : ℕ}
    (h : val.length = size) (hn : n = swapped size (p.order.read val)) :
    bit_cast p f (p.order.write size n) = val.reverse := by
  subst h hn
  rw [write_swapped, bit_cast_eq p (List.length_reverse)]

/-- The sizes that `byteswap` asks about leave out the types of one byte. -/
lemma sizeof_cases (p : Platform) (T : Primitive) : T.sizeof p = 2 ∨ T.sizeof p = 4 ∨
    T.sizeof p = 8 ∨ T.sizeof p = 1 ∧ (T = .char ∨ T = .schar ∨ T = .uchar ∨ T = .bool) := by
  cases T with
  | long | ulong =>
    rw [Primitive.sizeof]
    split_ifs <;> simp
  | _ => simp [Primitive.sizeof]

/-- `byteswap` reverses the representation, at every type. -/
theorem byteswap_reverse (p : Platform) (frames : ℕ → (size : ℕ) → Frame size) (T : Primitive)
    {val : List UInt8} (h : val.length = T.sizeof p) :
    byteswap p frames T val = some val.reverse := by
  have hread (size : ℕ) (hsize : val.length = size) (i : ℕ) :
      p.order.read (bit_cast p (frames i size) val) = p.order.read val :=
    congrArg p.order.read (bit_cast_eq p hsize _)
  unfold byteswap
  split_ifs with hfloat hdouble h2 h4 h8 h1
  · subst hfloat
    refine congrArg some (cast_swapped p _ h ?_)
    exact congrArg (swapped 4) (hread 4 h 0)
  · subst hdouble
    refine congrArg some (cast_swapped p _ h ?_)
    exact congrArg (swapped 8) (hread 8 h 0)
  · rw [h2] at h
    refine congrArg some (cast_swapped p _ h ?_)
    refine (congrArg₂ (BSWAP16 p.compiler) (hread 2 h 0) (hread 2 h 1)).trans ?_
    exact BSWAP16_eq _ (h ▸ p.order.read_lt val)
  · rw [h4] at h
    refine congrArg some (cast_swapped p _ h ?_)
    exact congrArg (swapped 4) (hread 4 h 0)
  · rw [h8] at h
    refine congrArg some (cast_swapped p _ h ?_)
    exact congrArg (swapped 8) (hread 8 h 0)
  · obtain h2' | h4' | h8' | ⟨hone,-⟩ := sizeof_cases p T
    · exact absurd h2' h2
    · exact absurd h4' h4
    · exact absurd h8' h8
    · obtain ⟨b,rfl⟩ := List.length_eq_one_iff.mp (h.trans hone)
      rfl
  · obtain h2' | h4' | h8' | ⟨-,hchar⟩ := sizeof_cases p T
    · exact absurd h2' h2
    · exact absurd h4' h4
    · exact absurd h8' h8
    · exact absurd hchar h1

/-- What `byteswap` gives is, on a host of the other byte order, the same number; and it is its own
inverse. -/
theorem byteswap_exchanges (p : Platform) (frames frames' : ℕ → (size : ℕ) → Frame size)
    (T : Primitive) (val : List UInt8) (h : val.length = T.sizeof p) :
    ∃ out, byteswap p frames T val = some out ∧ out = val.reverse ∧
      p.order.read out = p.order.other.read val ∧ byteswap p frames' T out = some val := by
  refine ⟨val.reverse,byteswap_reverse p frames T h,rfl,p.order.read_reverse val,?_⟩
  rw [byteswap_reverse p frames' T (by rw [List.length_reverse, h]), List.reverse_reverse]

/-- 0x1234 becomes 0x3412. -/
theorem byteswap_exchanges_short :
    ∃ out, byteswap ⟨.big,true,.gnu⟩ (fun _ size => ⟨fun _ => 7,0,size,.inl (by omega)⟩) .ushort
        [0x12,0x34] = some out ∧ out = [0x12,0x34].reverse ∧
      Order.big.read out = Order.big.other.read [0x12,0x34] ∧
      byteswap ⟨.big,true,.gnu⟩ (fun _ size => ⟨fun _ => 7,0,size,.inl (by omega)⟩) .ushort out =
        some [0x12,0x34] :=
  byteswap_exchanges ⟨.big,true,.gnu⟩ _ _ .ushort [0x12,0x34] rfl

end Byteswap
end Asp.Data
