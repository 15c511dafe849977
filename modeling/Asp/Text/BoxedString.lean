import Asp.Text.LocalFormat

/-! `asp::BoxedString` and `asp::UniqueBoxedString`: how a text gets into the array that they own,
and what is found there afterwards. -/
namespace Asp.Text

/-- The array that a `char*` points at the start of, or none for a null pointer. -/
abbrev CharPtr : Type := Option (List Char)

/-- Both `std::make_unique<char[]>` and `asp::make_shared<char[]>` set the characters to zero. -/
def makeArray (n : ℕ) : CharPtr := some (List.replicate n nul)

namespace CharPtr

/-- An assignment to `p[i]`, which is undefined through a null pointer and outside the array. -/
def put : CharPtr → ℕ → Char → Option CharPtr
  | none, _, _ => none
  | some a, i, c => if i < a.length then some (some (a.set i c)) else none

/-- `std::copy` of characters to the places from `i` on. -/
def copy (p : CharPtr) (i : ℕ) : List Char → Option CharPtr
  | [] => some p
  | c :: cs => (p.put i c).bind fun p => p.copy (i+1) cs

lemma put_append (u v : List Char) (d c : Char) :
    put (some (u ++ d :: v)) u.length c = some (some (u ++ c :: v)) := by
  rw [put, if_pos (by simp), List.set_append_right _ _ (Nat.le_refl _), Nat.sub_self, List.set_cons_zero]

/-- The characters take the place of as many that were there. -/
lemma copy_append (u cs : List Char) {v w : List Char} (h : v.length = cs.length) :
    copy (some (u ++ v ++ w)) u.length cs = some (some (u ++ cs ++ w)) := by
  induction cs generalizing u v with
  | nil =>
    rw [List.length_eq_zero_iff.mp h]
    rfl
  | cons c cs ih =>
    obtain ⟨d,v,rfl⟩ := List.exists_cons_of_length_eq_add_one h
    rw [copy, List.append_assoc, List.cons_append, put_append, Option.bind_some]
    have hrest := ih (u ++ [c]) (Nat.succ.inj h)
    simpa using hrest

/-- A new array with room for a text and its terminator. -/
lemma copy_makeArray (text : List Char) :
    (makeArray (text.length+1)).copy 0 text = some (some (text ++ [nul])) := by
  rw [makeArray, List.replicate_succ']
  exact copy_append [] text (List.length_replicate ..)

lemma put_terminator (text : List Char) (d : Char) :
    put (some (text ++ [d])) text.length nul = some (some (text ++ [nul])) :=
  put_append text [] d nul

lemma put_makeArray (n : ℕ) : (makeArray (n+1)).put n nul = some (makeArray (n+1)) := by
  have hlen : (List.replicate n nul).length = n := List.length_replicate ..
  have hput := put_terminator (List.replicate n nul) nul
  rwa [hlen, ← List.replicate_succ'] at hput

end CharPtr

/-- A `string_view`. -/
structure StringView where
  data : CharPtr
  size : ℕ

/-- The characters of a view, if all of them can be read. -/
def StringView.chars (v : StringView) : Option (List Char) :=
  if v.size ≤ (v.data.getD []).length then some ((v.data.getD []).take v.size) else none

structure BoxedStringImplUnique where
  m_data : CharPtr
  m_size : ℕ

namespace BoxedStringImplUnique

/-- The constructor from a `string_view`. -/
def ofStr (str : List Char) : Option BoxedStringImplUnique :=
  if str.isEmpty then some ⟨none,0⟩ else do
    let m_size := str.length
    let m_data := makeArray (m_size+1)
    let m_data ← m_data.copy 0 str
    let m_data ← m_data.put m_size nul
    pure ⟨m_data,m_size⟩

/-- The constructor from a `size_t`. -/
def ofSize (size : ℕ) : Option BoxedStringImplUnique :=
  if size = 0 then some ⟨none,0⟩ else do
    let m_size := size
    let m_data := makeArray (m_size+1)
    let m_data ← m_data.put m_size nul
    pure ⟨m_data,m_size⟩

def view (s : BoxedStringImplUnique) : StringView := ⟨s.m_data,s.m_size⟩

end BoxedStringImplUnique

/-- The number of characters in the array is kept beside it. -/
structure BoxedStringImplShared where
  m_data : CharPtr

namespace BoxedStringImplShared

def ofStr (str : List Char) : Option BoxedStringImplShared :=
  if str.isEmpty then some ⟨none⟩ else do
    let size := str.length
    let m_data := makeArray (size+1)
    let m_data ← m_data.copy 0 str
    let m_data ← m_data.put size nul
    pure ⟨m_data⟩

def ofSize (size : ℕ) : Option BoxedStringImplShared :=
  if size = 0 then some ⟨none⟩ else do
    let m_data := makeArray (size+1)
    let m_data ← m_data.put size nul
    pure ⟨m_data⟩

def view (s : BoxedStringImplShared) : StringView :=
  match s.m_data with
  | some a => ⟨some a,a.length - 1⟩
  | none => ⟨none,0⟩

end BoxedStringImplShared

/-- What the template `BoxedStringImpl` uses of its base. `written` is the object after its array
has been written to. -/
class Base (S : Type) where
  ofStr : List Char → Option S
  ofSize : ℕ → Option S
  m_data : S → CharPtr
  written : S → CharPtr → S
  view : S → StringView

instance : Base BoxedStringImplUnique where
  ofStr := BoxedStringImplUnique.ofStr
  ofSize := BoxedStringImplUnique.ofSize
  m_data := BoxedStringImplUnique.m_data
  written s p := { s with m_data := p }
  view := BoxedStringImplUnique.view

instance : Base BoxedStringImplShared where
  ofStr := BoxedStringImplShared.ofStr
  ofSize := BoxedStringImplShared.ofSize
  m_data := BoxedStringImplShared.m_data
  written _ p := ⟨p⟩
  view := BoxedStringImplShared.view

abbrev UniqueBoxedString : Type := BoxedStringImplUnique
abbrev BoxedString : Type := BoxedStringImplShared

namespace BoxedStringImpl
variable {S : Type} [Base S]

/-- Both bases have it with the same body. -/
def c_str (s : S) : List Char := (Base.m_data s).getD [nul]

def size (s : S) : ℕ := (Base.view s).size

/-- The text is what fmt makes of the arguments. `format_to_n` writes as much of it as `size` allows
and reports the length of the whole. -/
def format (text : List Char) : Option S := do
  let size := text.length
  let result ← Base.ofSize size
  let ptr := Base.m_data result
  let ptr ← ptr.copy 0 (text.take size)
  let formattedSize := text.length
  let ptr ← if formattedSize < size then ptr.put formattedSize nul else ptr.put size nul
  pure (Base.written result ptr)

end BoxedStringImpl

open BoxedStringImpl

/-- The two ways to an object with a given text. -/
inductive Origin
  | string
  | format
  deriving DecidableEq

def Origin.make {S : Type} [Base S] : Origin → List Char → Option S
  | .string => Base.ofStr
  | .format => BoxedStringImpl.format

/-- Every accessor gives the text. -/
structure Exact {S : Type} [Base S] (text : List Char) (s : S) : Prop where
  view : (Base.view s).chars = some text
  size : size s = text.length
  c_str : c_str s = text ++ [nul]

/-- The object is made without an undefined write. -/
def Makes {S : Type} [Base S] (text : List Char) (made : Option S) : Prop :=
  ∃ s, made = some s ∧ Exact text s

/-- The text is in the object's array; an empty one needs none. -/
structure Owns {S : Type} [Base S] (text : List Char) (s : S) : Prop where
  m_data : Base.m_data s = if text.isEmpty then none else some (text ++ [nul])
  view : Base.view s = ⟨Base.m_data s,text.length⟩

/-- What the template can rely on. -/
class LawfulBase (S : Type) [Base S] : Prop where
  ofStr : ∀ text, ∃ s : S, Base.ofStr text = some s ∧ Owns text s
  ofSize_zero : ∃ s : S, Base.ofSize 0 = some s ∧ Base.m_data s = none
  ofSize : ∀ n, n ≠ 0 → ∃ s : S, Base.ofSize n = some s ∧ Base.m_data s = makeArray (n+1) ∧
    ∀ text, text.length = n → Owns text (Base.written s (some (text ++ [nul])))

lemma chars_terminated (text : List Char) :
    (StringView.mk (some (text ++ [nul])) text.length).chars = some text := by
  simp [StringView.chars]

section
variable {S : Type} [Base S] {text : List Char} {s : S}

lemma Owns.exact (h : Owns text s) : Exact text s := by
  obtain ⟨hdata,hview⟩ := h
  have hsize : size s = text.length := congrArg StringView.size hview
  rw [hdata] at hview
  cases text with
  | nil => exact ⟨congrArg StringView.chars hview,hsize,congrArg (Option.getD · [nul]) hdata⟩
  | cons c cs =>
    refine ⟨?_,hsize,congrArg (Option.getD · [nul]) hdata⟩
    rw [hview]
    exact chars_terminated (c :: cs)

/-- The text is in the array as soon as a base has allocated it. -/
lemma format_eq (hsize : Base.ofSize text.length = some s)
    (hdata : Base.m_data s = makeArray (text.length+1)) :
    (format text : Option S) = some (Base.written s (some (text ++ [nul]))) := by
  simp only [format, hsize, hdata, List.take_length, CharPtr.copy_makeArray, Nat.lt_irrefl, if_false,
    Option.bind_eq_bind, Option.bind_some, CharPtr.put_terminator]
  rfl

/-- Without an array the terminator is written through a null pointer. -/
lemma format_nil (hsize : Base.ofSize 0 = some s) (hdata : Base.m_data s = none) :
    (format [] : Option S) = none := by
  simp only [format, List.length_nil, hsize, hdata, List.take_nil, CharPtr.copy, Nat.lt_irrefl, if_false,
    Option.bind_eq_bind, Option.bind_some, CharPtr.put, Option.bind_none]

variable [LawfulBase S]

lemma makes_string (text : List Char) : Makes text (Origin.string.make text : Option S) := by
  obtain ⟨s,hs,hown⟩ := LawfulBase.ofStr (S := S) text
  exact ⟨s,hs,hown.exact⟩

lemma makes_format (h : text ≠ []) : Makes text (Origin.format.make text : Option S) := by
  obtain ⟨s,hs,hdata,hown⟩ := LawfulBase.ofSize (S := S) _ (mt List.length_eq_zero_iff.mp h)
  exact ⟨_,format_eq hs hdata,(hown text rfl).exact⟩

lemma not_makes_format_nil : ¬Makes [] (Origin.format.make [] : Option S) := by
  obtain ⟨s,hs,hdata⟩ := LawfulBase.ofSize_zero (S := S)
  rintro ⟨s',hs',_⟩
  change (format [] : Option S) = some s' at hs'
  rw [format_nil hs hdata] at hs'
  cases hs'

lemma makes_iff_of_lawful (o : Origin) (text : List Char) :
    Makes text (o.make text : Option S) ↔ (o = .format → text ≠ []) := by
  cases o with
  | string => exact iff_of_true (makes_string text) nofun
  | format =>
    refine ⟨?_,fun h => makes_format (h rfl)⟩
    rintro h - rfl
    exact not_makes_format_nil h

end

lemma owns_unique {text : List Char} (h : text ≠ []) :
    Owns text (⟨some (text ++ [nul]),text.length⟩ : UniqueBoxedString) :=
  ⟨(if_neg (by simpa using h)).symm,rfl⟩

instance : LawfulBase UniqueBoxedString where
  ofStr text := by
    cases text with
    | nil => exact ⟨⟨none,0⟩,rfl,rfl,rfl⟩
    | cons c cs =>
      refine ⟨_,?_,owns_unique (List.cons_ne_nil c cs)⟩
      change BoxedStringImplUnique.ofStr (c :: cs) = _
      simp only [BoxedStringImplUnique.ofStr, List.isEmpty_cons, Bool.false_eq_true, if_false,
        CharPtr.copy_makeArray, CharPtr.put_terminator, Option.bind_eq_bind, Option.bind_some]
      rfl
  ofSize_zero := ⟨⟨none,0⟩,rfl,rfl⟩
  ofSize n hn := by
    refine ⟨⟨makeArray (n+1),n⟩,?_,rfl,?_⟩
    · change BoxedStringImplUnique.ofSize n = _
      simp only [BoxedStringImplUnique.ofSize, if_neg hn, CharPtr.put_makeArray, Option.bind_eq_bind,
        Option.bind_some]
      rfl
    · rintro text rfl
      exact owns_unique (mt List.length_eq_zero_iff.mpr hn)

lemma owns_shared {text : List Char} (h : text ≠ []) :
    Owns text (⟨some (text ++ [nul])⟩ : BoxedString) := by
  refine ⟨(if_neg (by simpa using h)).symm,?_⟩
  change StringView.mk _ ((text ++ [nul]).length - 1) = _
  rw [List.length_append, List.length_singleton, Nat.add_sub_cancel]
  rfl

instance : LawfulBase BoxedString where
  ofStr text := by
    cases text with
    | nil => exact ⟨⟨none⟩,rfl,rfl,rfl⟩
    | cons c cs =>
      refine ⟨_,?_,owns_shared (List.cons_ne_nil c cs)⟩
      change BoxedStringImplShared.ofStr (c :: cs) = _
      simp only [BoxedStringImplShared.ofStr, List.isEmpty_cons, Bool.false_eq_true, if_false,
        CharPtr.copy_makeArray, CharPtr.put_terminator, Option.bind_eq_bind, Option.bind_some]
      rfl
  ofSize_zero := ⟨⟨none⟩,rfl,rfl⟩
  ofSize n hn := by
    refine ⟨⟨makeArray (n+1)⟩,?_,rfl,?_⟩
    · change BoxedStringImplShared.ofSize n = _
      simp only [BoxedStringImplShared.ofSize, if_neg hn, CharPtr.put_makeArray, Option.bind_eq_bind,
        Option.bind_some]
      rfl
    · rintro text rfl
      exact owns_shared (mt List.length_eq_zero_iff.mpr hn)

/-- A string is boxed exactly in both, and so is a formatted text unless it is empty. -/
theorem makes_iff (o : Origin) (text : List Char) :
    (Makes text (o.make text : Option BoxedString) ↔ (o = .format → text ≠ [])) ∧
      (Makes text (o.make text : Option UniqueBoxedString) ↔ (o = .format → text ≠ [])) :=
  ⟨makes_iff_of_lawful o text,makes_iff_of_lawful o text⟩

/-- The terminator of an empty formatted text goes through a null pointer. -/
theorem empty_format_writes_null : ¬Makes [] (Origin.format.make [] : Option BoxedString) ∧
    ¬Makes [] (Origin.format.make [] : Option UniqueBoxedString) :=
  ⟨not_makes_format_nil,not_makes_format_nil⟩

end Asp.Text
