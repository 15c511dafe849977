import Asp.Foundation.Fields
import Asp.Iter.Concrete

/-! `asp::iter::lines`: a text cut at `\n` and `\r\n`. -/
namespace Asp.Lines
open Foundation

/-- `string_view::find_first_of` from a position on. -/
def findFirstOf (s chars : List Char) (pos : ℕ) : Option ℕ :=
  ((s.drop pos).findIdx? (chars.contains ·)).map (· + pos)

/-- The loop of `_nextLine`: the line, and the input left behind. It is undefined where a character
beyond the end is looked at. -/
def nextLineLoop (inp : List Char) : ℕ → (startOffset : ℕ) → Option (List Char × List Char)
  | 0, _ => none
  | n+1, startOffset =>
    match findFirstOf inp ['\r','\n'] startOffset with
    | none => some (inp,[])
    | some pos => inp[pos]?.bind fun firstTermChar =>
      if firstTermChar = '\n' then some (inp.take pos,inp.drop (pos+1))
      else if pos = inp.length - 1 then some (inp,[])
      else inp[pos+1]?.bind fun secondTermChar =>
        if secondTermChar = '\n' then some (inp.take pos,inp.drop (pos+2))
        else nextLineLoop inp n (pos+1)

def _nextLine (n : ℕ) (inp : List Char) : Option (List Char × List Char) :=
  if inp.isEmpty then some ([],inp) else nextLineLoop inp n 0

/-- The class `Lines<string_view>` -/
def concrete : Concrete (List Char) where
  State := List Char
  next n m_input :=
    if m_input.isEmpty then some (none,m_input)
    else (_nextLine n m_input).map fun (out,inp) => (some out,inp)

def lines (sv : List Char) : Concrete.Object (List Char) := ⟨concrete,sv⟩

/-- A segment without one `\r` at its end. -/
def chomp (seg : List Char) : List Char := if seg.getLast? = some '\r' then seg.dropLast else seg

/-- The segments between the `\n`, where those that one ends are without a `\r` before it. -/
def documentedLines (s : List Char) : List (List Char) := endedFields chomp (· == '\n') s

/-- A text without the `\n` and the `\r` directly in front of them. -/
def withoutTerminators : List Char → List Char
  | [] => []
  | c :: s =>
    if c = '\n' ∨ c = '\r' ∧ s.head? = some '\n' then withoutTerminators s
    else c :: withoutTerminators s

/-- What one call takes off a text: all of it, or a segment with its terminator. -/
inductive LineCut : (s out inp : List Char) → Prop
  | all {s : List Char} (h : '\n' ∉ s) : LineCut s s []
  | ended {seg rest : List Char} (h : '\n' ∉ seg) : LineCut (seg ++ '\n' :: rest) (chomp seg) rest

lemma chomp_concat (seg : List Char) : chomp (seg ++ ['\r']) = seg := by
  rw [chomp, if_pos List.getLast?_concat, List.dropLast_concat]

section Scan
variable {s : List Char} {start pos : ℕ}

/-- No `\n` before the position. -/
def FreeTo (s : List Char) (pos : ℕ) : Prop := ∀ j < pos, s[j]? ≠ some '\n'

lemma findFirstOf_none {chars : List Char} (h : findFirstOf s chars start = none) :
    ∀ j c, start ≤ j → s[j]? = some c → c ∉ chars := by
  intro j c hj hc hmem
  rw [findFirstOf, Option.map_eq_none_iff, List.findIdx?_eq_none_iff] at h
  have hdrop : (s.drop start)[j - start]? = some c := by
    rw [List.getElem?_drop, Nat.add_sub_cancel' hj, hc]
  have hfree := h c (List.mem_of_getElem? hdrop)
  simp [hmem] at hfree

lemma findFirstOf_some {chars : List Char} {pos : ℕ} (h : findFirstOf s chars start = some pos) :
    start ≤ pos ∧ (∃ c, s[pos]? = some c ∧ c ∈ chars) ∧
      ∀ j c, start ≤ j → j < pos → s[j]? = some c → c ∉ chars := by
  obtain ⟨i,hi,rfl⟩ := Option.map_eq_some_iff.mp h
  obtain ⟨hlt,hat,hbefore⟩ := List.findIdx?_eq_some_iff_getElem.mp hi
  have hlen : start + i < s.length := by
    rw [List.length_drop] at hlt
    omega
  refine ⟨Nat.le_add_left start i,⟨s[start + i],?_,?_⟩,?_⟩
  · rw [Nat.add_comm, List.getElem?_eq_getElem hlen]
  · simpa using hat
  · intro j c hj hji hc hmem
    obtain ⟨k,rfl⟩ := Nat.exists_eq_add_of_le hj
    have hk := hbefore k (by omega)
    rw [List.getElem_drop] at hk
    obtain ⟨hlt',hc'⟩ := List.getElem?_eq_some_iff.mp hc
    simp [hc', hmem] at hk

lemma FreeTo.not_mem_take (h : FreeTo s pos) : '\n' ∉ s.take pos := by
  intro hmem
  obtain ⟨j,hj⟩ := List.getElem?_of_mem hmem
  rw [List.getElem?_take] at hj
  split_ifs at hj with hlt
  exact h j hlt hj

lemma FreeTo.cut_all (h : FreeTo s s.length) : LineCut s s [] :=
  LineCut.all (by simpa using h.not_mem_take)

lemma FreeTo.cut_at (h : FreeTo s pos) (hat : s[pos]? = some '\n') :
    LineCut s (chomp (s.take pos)) (s.drop (pos+1)) := by
  obtain ⟨hlt,hc⟩ := List.getElem?_eq_some_iff.mp hat
  have hcut : LineCut (s.take pos ++ '\n' :: s.drop (pos+1)) _ _ := LineCut.ended h.not_mem_take
  rwa [← hc, ← List.drop_eq_getElem_cons hlt, List.take_append_drop] at hcut

/-- The part that a scan from `start` on has passed. -/
lemma freeTo_of_findFirstOf (hfree : FreeTo s start)
    (hbefore : ∀ j c, start ≤ j → j < pos → s[j]? = some c → c ∉ ['\r','\n']) : FreeTo s pos := by
  intro j hj hc
  rcases Nat.lt_or_ge j start with hlt | hge
  · exact hfree j hlt hc
  · exact hbefore j _ hge hj hc (by simp)

lemma FreeTo.succ (h : FreeTo s pos) (hc : s[pos]? ≠ some '\n') : FreeTo s (pos+1) := by
  intro j hj
  rcases Nat.lt_succ_iff_lt_or_eq.mp hj with hlt | rfl
  · exact h j hlt
  · exact hc

/-- The line stays as it is where the scan has come to the `\n` itself. -/
lemma chomp_take (hpos : pos < s.length) (h : ∀ j, pos = j + 1 → s[j]? ≠ some '\r') :
    chomp (s.take pos) = s.take pos := by
  rw [chomp, if_neg]
  cases pos with
  | zero => simp
  | succ j =>
    have hj := h j rfl
    rw [List.getElem?_eq_getElem (by omega)] at hj
    rw [List.getLast?_take, if_neg (Nat.succ_ne_zero j), Nat.add_sub_cancel,
      List.getElem?_eq_getElem (by omega)]
    exact hj

lemma cut_at_crlf (h : FreeTo s pos) (hc : s[pos]? = some '\r') (hat : s[pos+1]? = some '\n') :
    LineCut s (s.take pos) (s.drop (pos+2)) := by
  have hcut := (h.succ (by simp [hc])).cut_at hat
  have hline : s.take (pos+1) = s.take pos ++ ['\r'] := by
    rw [List.take_add_one, hc]
    rfl
  rwa [hline, chomp_concat] at hcut

/-- The body of the loop, at the character it has found. -/
lemma nextLineLoop_at {c : Char} (hfind : findFirstOf s ['\r','\n'] start = some pos)
    (hc : s[pos]? = some c) (n : ℕ) : nextLineLoop s (n+1) start =
      if c = '\n' then some (s.take pos,s.drop (pos+1))
      else if pos = s.length - 1 then some (s,[])
      else s[pos+1]?.bind fun secondTermChar =>
        if secondTermChar = '\n' then some (s.take pos,s.drop (pos+2))
        else nextLineLoop s n (pos+1) := by
  rw [nextLineLoop, hfind]
  simp only [hc, Option.bind_some]

/-- What one turn of the loop does: it returns, or it goes on behind a `\r` that no `\n` follows. -/
def Turn (s : List Char) (start : ℕ) : Prop :=
  (∃ out inp, (∀ n, nextLineLoop s (n+1) start = some (out,inp)) ∧ LineCut s out inp) ∨
  ∃ next, start < next ∧ next < s.length ∧ FreeTo s next ∧ s[next]? ≠ some '\n' ∧
    ∀ n, nextLineLoop s (n+1) start = nextLineLoop s n next

lemma turn_none (hfree : FreeTo s start) (hfind : findFirstOf s ['\r','\n'] start = none) :
    Turn s start := by
  have hall : FreeTo s s.length := freeTo_of_findFirstOf hfree
    fun j c hj _ hc => findFirstOf_none hfind j c hj hc
  refine Or.inl ⟨s,[],fun n => ?_,hall.cut_all⟩
  rw [nextLineLoop, hfind]

lemma turn_cr (hfind : findFirstOf s ['\r','\n'] start = some pos) (hle : start ≤ pos)
    (hto : FreeTo s pos) (hc : s[pos]? = some '\r') : Turn s start := by
  have hlt := (List.getElem?_eq_some_iff.mp hc).1
  have hto' : FreeTo s (pos+1) := hto.succ (by simp [hc])
  have hunfold := nextLineLoop_at hfind hc
  by_cases hend : pos = s.length - 1
  · obtain hlen : pos + 1 = s.length := by omega
    refine Or.inl ⟨s,[],fun n => ?_,(hlen ▸ hto').cut_all⟩
    rw [hunfold, if_neg (by decide), if_pos hend]
  · obtain ⟨d,hd⟩ : ∃ d, s[pos+1]? = some d := ⟨_,List.getElem?_eq_getElem (by omega)⟩
    simp only [hd, Option.bind_some, if_neg hend] at hunfold
    by_cases hlf : d = '\n'
    · subst hlf
      refine Or.inl ⟨_,_,fun n => ?_,cut_at_crlf hto hc hd⟩
      rw [hunfold, if_neg (by decide), if_pos rfl]
    · refine Or.inr ⟨pos+1,by omega,by omega,hto',by simpa [hd] using hlf,fun n => ?_⟩
      rw [hunfold, if_neg (by decide), if_neg hlf]

lemma turn_lf (hfind : findFirstOf s ['\r','\n'] start = some pos)
    (hnext : start = 0 ∨ s[start]? ≠ some '\n') (hto : FreeTo s pos) (hc : s[pos]? = some '\n') :
    Turn s start := by
  have hlt := (List.getElem?_eq_some_iff.mp hc).1
  have hcut := hto.cut_at hc
  rw [chomp_take hlt] at hcut
  · refine Or.inl ⟨_,_,fun n => ?_,hcut⟩
    rw [nextLineLoop_at hfind hc, if_pos rfl]
  · rintro j rfl hj
    rcases Nat.lt_or_ge j start with hlt' | hge
    · -- the scan has started at the `\n`
      obtain ⟨hle,_⟩ := findFirstOf_some hfind
      obtain rfl : start = j + 1 := by omega
      exact hnext.elim (Nat.succ_ne_zero j) (fun h => h hc)
    · exact (findFirstOf_some hfind).2.2 j _ hge (Nat.lt_succ_self j) hj (by simp)

lemma turn (hfree : FreeTo s start) (hnext : start = 0 ∨ s[start]? ≠ some '\n') : Turn s start := by
  cases hfind : findFirstOf s ['\r','\n'] start with
  | none => exact turn_none hfree hfind
  | some pos =>
    obtain ⟨hle,⟨c,hc,hmem⟩,hbefore⟩ := findFirstOf_some hfind
    have hto := freeTo_of_findFirstOf hfree hbefore
    obtain rfl | rfl : c = '\r' ∨ c = '\n' := by simpa using hmem
    · exact turn_cr hfind hle hto hc
    · exact turn_lf hfind hnext hto hc

/-- The loop finds the end of the line. -/
lemma nextLineLoop_returns (hfree : FreeTo s start) (hnext : start = 0 ∨ s[start]? ≠ some '\n') :
    ∃ out inp, Returns (fun n => nextLineLoop s n start) (out,inp) ∧ LineCut s out inp := by
  induction hk : s.length - start using Nat.strongRecOn generalizing start with
  | ind k ih =>
    obtain ⟨out,inp,hloop,hcut⟩ | ⟨next,hlt,hlen,hfree',hne,hloop⟩ := turn hfree hnext
    · exact ⟨out,inp,Returns.succ (Returns.pure _) hloop,hcut⟩
    · obtain ⟨out,inp,hret,hcut⟩ := ih _ (by omega) hfree' (Or.inr hne) rfl
      exact ⟨out,inp,Returns.succ hret hloop,hcut⟩

end Scan

section Yields
variable {s out inp : List Char}

lemma LineCut.length_lt (h : LineCut s out inp) (hs : s ≠ []) : inp.length < s.length := by
  cases h with
  | all h => exact List.length_pos_of_ne_nil hs
  | ended h =>
    rw [List.length_append, List.length_cons]
    omega

lemma not_newline {seg : List Char} (h : '\n' ∉ seg) : ∀ x ∈ seg, (x == '\n') = false := by
  intro x hx
  rw [beq_eq_false_iff_ne]
  rintro rfl
  exact h hx

lemma LineCut.documentedLines_eq (h : LineCut s out inp) (hs : s ≠ []) :
    documentedLines s = out :: documentedLines inp := by
  cases h with
  | all h => rw [documentedLines, endedFields_all hs (not_newline h), documentedLines, endedFields_nil]
  | ended h => exact endedFields_cons (not_newline h) rfl

lemma next_lines (hs : s ≠ []) : ∃ out inp, concrete.Next s (some out) inp ∧ LineCut s out inp := by
  have hstart : FreeTo s 0 := nofun
  obtain ⟨out,inp,hret,hcut⟩ := nextLineLoop_returns hstart (Or.inl rfl)
  refine ⟨out,inp,?_,hcut⟩
  have hs' : s.isEmpty = false := by simpa using hs
  have hnext : ∀ n, concrete.next n s =
      (nextLineLoop s n 0).map fun (out,inp) => (some out,inp) := by
    intro n
    simp only [concrete, _nextLine, hs', Bool.false_eq_true, if_false]
  change Returns (fun n => concrete.next n s) _
  simp only [hnext]
  exact hret.map _

lemma yields_lines (s : List Char) : (lines s).Yields (documentedLines s) := by
  induction hlen : s.length using Nat.strongRecOn generalizing s with
  | ind k ih =>
    by_cases hs : s = []
    · subst hs
      rw [documentedLines, endedFields_nil]
      refine Concrete.yields_nil_of_inv (C := concrete) (· = []) ?_ rfl
      rintro _ rfl
      exact ⟨[],Returns.pure _,rfl⟩
    · obtain ⟨out,inp,hnext,hcut⟩ := next_lines hs
      rw [hcut.documentedLines_eq hs]
      exact ⟨inp,hnext,ih _ (hlen ▸ hcut.length_lt hs) inp rfl⟩

end Yields

section Terminators
variable {s : List Char}

lemma chomp_singleton {c : Char} (h : c ≠ '\r') : chomp [c] = [c] := by
  rw [chomp, List.getLast?_singleton, if_neg]
  simpa using h

lemma chomp_cons_cons (c d : Char) (seg : List Char) :
    chomp (c :: d :: seg) = c :: chomp (d :: seg) := by
  rw [chomp, chomp, List.getLast?_cons_cons, List.dropLast_cons_cons]
  split_ifs <;> rfl

lemma withoutTerminators_newline (s : List Char) :
    withoutTerminators ('\n' :: s) = withoutTerminators s := by
  rw [withoutTerminators, if_pos (Or.inl rfl)]

lemma withoutTerminators_keep {c : Char} (hc : c ≠ '\n') (h : c = '\r' → s.head? ≠ some '\n') :
    withoutTerminators (c :: s) = c :: withoutTerminators s := by
  rw [withoutTerminators, if_neg]
  rintro (hn | ⟨hr,hhead⟩)
  · exact hc hn
  · exact h hr hhead

lemma withoutTerminators_ended {seg : List Char} (h : '\n' ∉ seg) (rest : List Char) :
    withoutTerminators (seg ++ '\n' :: rest) = chomp seg ++ withoutTerminators rest := by
  induction seg with
  | nil => exact withoutTerminators_newline rest
  | cons c seg ih =>
    obtain ⟨hc,hseg⟩ := not_or.mp (mt List.mem_cons.mpr h)
    specialize ih hseg
    cases seg with
    | nil =>
      by_cases hr : c = '\r'
      · subst hr
        rw [List.cons_append, withoutTerminators, if_pos (Or.inr ⟨rfl,rfl⟩)]
        exact ih
      · rw [List.cons_append, withoutTerminators_keep (Ne.symm hc) (fun h => absurd h hr), ih,
          chomp_singleton hr]
        rfl
    | cons d seg =>
      have hd : d ≠ '\n' := (List.ne_of_not_mem_cons hseg).symm
      rw [List.cons_append, withoutTerminators_keep (Ne.symm hc) (fun _ => by simpa using hd), ih,
        chomp_cons_cons]
      rfl

lemma withoutTerminators_all (h : '\n' ∉ s) : withoutTerminators s = s := by
  induction s with
  | nil => rfl
  | cons c s ih =>
    obtain ⟨hc,hs⟩ := not_or.mp (mt List.mem_cons.mpr h)
    rw [withoutTerminators_keep (Ne.symm hc), ih hs]
    intro _ hhead
    exact hs (List.mem_of_head? hhead)

lemma LineCut.withoutTerminators_eq {out inp : List Char} (h : LineCut s out inp) :
    withoutTerminators s = out ++ withoutTerminators inp := by
  cases h with
  | all h => rw [withoutTerminators_all h, withoutTerminators, List.append_nil]
  | ended h => exact withoutTerminators_ended h _

lemma flatten_documentedLines (s : List Char) :
    (documentedLines s).flatten = withoutTerminators s := by
  induction hlen : s.length using Nat.strongRecOn generalizing s with
  | ind k ih =>
    by_cases hs : s = []
    · subst hs
      rw [documentedLines, endedFields_nil]
      rfl
    · obtain ⟨out,inp,_,hcut⟩ := next_lines hs
      rw [hcut.documentedLines_eq hs, List.flatten_cons, hcut.withoutTerminators_eq,
        ih _ (hlen ▸ hcut.length_lt hs) inp rfl]

/-- A terminator behind a last line makes no difference. -/
lemma documentedLines_terminated {c : Char} (hn : c ≠ '\n') (hr : c ≠ '\r')
    (s : List Char) : documentedLines (s ++ [c] ++ ['\n']) = documentedLines (s ++ [c]) ∧
      documentedLines (s ++ [c] ++ ['\r','\n']) = documentedLines (s ++ [c]) := by
  obtain ⟨init,t,hsplits⟩ := splitOnP_append (p := (· == '\n')) s
  have hsplit := hsplits [c] (not_newline (by simpa using Ne.symm hn))
  have hcr := hsplits [c,'\r'] (not_newline (by simpa using Ne.symm hn))
  have hplain : documentedLines (s ++ [c]) = init.map chomp ++ [t ++ [c]] := by
    rw [documentedLines, endedFields_of_splitOnP hsplit, omitFinal_concat]
    exact List.append_ne_nil_of_right_ne_nil _ (List.cons_ne_nil _ _)
  have hchomp : chomp (t ++ [c]) = t ++ [c] := by
    rw [chomp, List.getLast?_concat, if_neg]
    simpa using hr
  constructor
  · rw [hplain, documentedLines, endedFields_concat_sep (by rfl), hsplit, List.map_append,
      List.map_singleton, hchomp]
  · have hcrlf : s ++ [c] ++ ['\r','\n'] = s ++ [c,'\r'] ++ ['\n'] := by simp
    have hlast : t ++ [c,'\r'] = t ++ [c] ++ ['\r'] := by simp
    rw [hcrlf, hplain, documentedLines, endedFields_concat_sep (by rfl), hcr, List.map_append,
      List.map_singleton, hlast, chomp_concat]

end Terminators

/-- `lines` yields what its documentation says. Nothing but the terminators is left out, and one at
the end makes no difference. -/
theorem lines_documented (s : List Char) :
    (lines s).Yields (documentedLines s) ∧
      (documentedLines s).flatten = withoutTerminators s ∧
      ∀ c, s.getLast? = some c → c ≠ '\n' → c ≠ '\r' →
        (lines (s ++ ['\n'])).Yields (documentedLines s) ∧
        (lines (s ++ ['\r','\n'])).Yields (documentedLines s) := by
  refine ⟨yields_lines s,flatten_documentedLines s,?_⟩
  intro c hc hn hr
  obtain ⟨s',rfl⟩ := List.getLast?_eq_some_iff.mp hc
  obtain ⟨hlf,hcrlf⟩ := documentedLines_terminated hn hr s'
  rw [← hlf]
  exact ⟨yields_lines _,hlf ▸ hcrlf ▸ yields_lines _⟩

end Asp.Lines
