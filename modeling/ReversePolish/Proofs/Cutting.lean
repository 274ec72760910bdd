import Mathlib.Data.List.TakeWhile
import ReversePolish.Text.Blank
import ReversePolish.Text.Split

/-!
# Cutting what was joined

A text that was put together from parts is cut into these parts again, as long as no
part holds the character at which it is cut.
-/

namespace ReversePolish.Text

/-! ## Separators -/

theorem exists_split (sep : Char) (cs : List Char) :
    ∃ part parts, split sep cs = part :: parts := by
  cases cs with
  | nil => exact ⟨[], [], rfl⟩
  | cons c cs =>
      rw [split_cons]
      by_cases hSep : c = sep
      · exact ⟨[], split sep cs, if_pos hSep⟩
      · rw [if_neg hSep]
        cases split sep cs with
        | nil => exact ⟨[c], [], rfl⟩
        | cons part parts => exact ⟨c :: part, parts, rfl⟩

/-- A text without separators lengthens the first part of what follows it. -/
theorem split_append {sep : Char} {cs ds part : List Char} {parts : List (List Char)}
    (hCs : sep ∉ cs) (hDs : split sep ds = part :: parts) :
    split sep (cs ++ ds) = (cs ++ part) :: parts := by
  induction cs with
  | nil => exact hDs
  | cons c cs ih =>
      rw [List.mem_cons, not_or] at hCs
      rw [List.cons_append, split_cons, if_neg (Ne.symm hCs.1), ih hCs.2]
      rfl

/-- A part and the separator behind it are cut off. -/
theorem split_append_sep {sep : Char} {cs : List Char} (h : sep ∉ cs) (ds : List Char) :
    split sep (cs ++ sep :: ds) = cs :: split sep ds := by
  have hDs : split sep (sep :: ds) = [] :: split sep ds := by rw [split_cons, if_pos rfl]
  rw [split_append h hDs, List.append_nil]

/-- A separator keeps apart the parts in front of it and behind it. -/
theorem split_append_cons (sep : Char) (cs ds : List Char) :
    split sep (cs ++ sep :: ds) = split sep cs ++ split sep ds := by
  induction cs with
  | nil => rw [List.nil_append, split_cons, if_pos rfl, split_nil, List.singleton_append]
  | cons c cs ih =>
      rw [List.cons_append, split_cons, split_cons, ih]
      by_cases hSep : c = sep
      · rw [if_pos hSep, if_pos hSep, List.cons_append]
      · obtain ⟨part, parts, hParts⟩ := exists_split sep cs
        rw [if_neg hSep, if_neg hSep, hParts]
        rfl

/-- The first separator stands behind a part without separators. -/
theorem splitFirst?_append_sep {sep : Char} {cs : List Char} (h : sep ∉ cs)
    (ds : List Char) : splitFirst? sep (cs ++ sep :: ds) = some (cs, ds) := by
  have hPass : ∀ c ∈ cs, (c != sep) = true := by
    intro c hc
    rw [bne_iff_ne]
    exact fun hSep => h (hSep ▸ hc)
  rw [splitFirst?, List.dropWhile_append_of_pos hPass, List.takeWhile_append_of_pos hPass,
    List.dropWhile_cons_of_neg (by simp), List.takeWhile_cons_of_neg (by simp),
    List.append_nil]

/-! ## Beginnings and ends -/

theorem dropStart?_append (start rest : List Char) :
    dropStart? start (start ++ rest) = some rest :=
  dropStart?_eq_some_iff.2 rfl

theorem dropEnd?_eq_some_iff {tail cs front : List Char} :
    dropEnd? tail cs = some front ↔ cs = front ++ tail := by
  rw [dropEnd?, Option.map_eq_some_iff]
  constructor
  · rintro ⟨rest, hRest, rfl⟩
    rw [dropStart?_eq_some_iff] at hRest
    rw [← List.reverse_inj, hRest, List.reverse_append, List.reverse_reverse]
  · rintro rfl
    refine ⟨front.reverse, ?_, List.reverse_reverse front⟩
    rw [List.reverse_append]
    exact dropStart?_append _ _

theorem dropEnd?_append (front tail : List Char) :
    dropEnd? tail (front ++ tail) = some front :=
  dropEnd?_eq_some_iff.2 rfl

/-- A text that ends otherwise does not have the given end. -/
theorem dropEnd?_eq_none {c d : Char} (h : c ≠ d) (front : List Char) :
    dropEnd? [d] (front ++ [c]) = none := by
  rw [Option.eq_none_iff_forall_ne_some]
  intro rest hRest
  rw [dropEnd?_eq_some_iff] at hRest
  have hLast := congrArg List.getLast? hRest
  rw [List.getLast?_concat, List.getLast?_concat, Option.some.injEq] at hLast
  exact h hLast

/-- A word behind which a blank stands does not begin a text in which another word is
followed by something else. -/
theorem dropStart?_word_eq_none {p : Char → Bool} {word other : List Char} {stop sep : Char}
    (hWord : ∀ c ∈ word, p c = true) (hOther : ∀ c ∈ other, p c = true)
    (hStop : p stop = false) (hSep : p sep = false) (hNe : stop ≠ sep) (rest : List Char) :
    dropStart? (word ++ [stop]) (other ++ sep :: rest) = none := by
  rw [Option.eq_none_iff_forall_ne_some]
  intro behind hBehind
  rw [dropStart?_eq_some_iff, List.append_assoc, List.singleton_append] at hBehind
  have hDrop := congrArg (List.dropWhile p) hBehind
  rw [List.dropWhile_append_of_pos hWord, List.dropWhile_append_of_pos hOther,
    List.dropWhile_cons_of_neg (by simp [hSep]),
    List.dropWhile_cons_of_neg (by simp [hStop])] at hDrop
  injection hDrop with hHead
  exact hNe hHead.symm

/-! ## Blanks -/

theorem trimEnd_append_blank {c : Char} (h : isBlank c = true) (cs : List Char) :
    trimEnd (cs ++ [c]) = trimEnd cs := by
  rw [trimEnd, List.reverse_concat, List.dropWhile_cons_of_pos h, trimEnd]

/-- Trimming stops at a character that is not blank. -/
theorem trimEnd_append_cons {c : Char} (h : isBlank c = false) (cs ds : List Char) :
    trimEnd (cs ++ c :: ds) = cs ++ c :: trimEnd ds := by
  have hDrop : (ds.reverse ++ c :: cs.reverse).dropWhile isBlank =
      ds.reverse.dropWhile isBlank ++ c :: cs.reverse := by
    rw [List.dropWhile_append]
    split
    · next hEmpty =>
        rw [List.isEmpty_iff] at hEmpty
        rw [hEmpty, List.dropWhile_cons_of_neg (by simp [h]), List.nil_append]
    · rfl
  rw [trimEnd, List.reverse_append, List.reverse_cons, List.append_assoc,
    List.singleton_append, hDrop]
  simp [trimEnd]

/-- A text that starts with a character other than a blank. -/
def StartsSolid (cs : List Char) : Prop := ∃ c, cs.head? = some c ∧ isBlank c = false

/-- A text that ends with a character other than a blank. -/
def EndsSolid (cs : List Char) : Prop := ∃ c, cs.getLast? = some c ∧ isBlank c = false

theorem StartsSolid.append {cs : List Char} (h : StartsSolid cs) (ds : List Char) :
    StartsSolid (cs ++ ds) := by
  obtain ⟨c, hHead, hSolid⟩ := h
  refine ⟨c, ?_, hSolid⟩
  rw [List.head?_append, hHead]
  rfl

theorem EndsSolid.prepend {ds : List Char} (h : EndsSolid ds) (cs : List Char) :
    EndsSolid (cs ++ ds) := by
  obtain ⟨c, hLast, hSolid⟩ := h
  refine ⟨c, ?_, hSolid⟩
  rw [List.getLast?_append, hLast]
  rfl

theorem endsSolid_append_singleton {c : Char} (h : isBlank c = false) (cs : List Char) :
    EndsSolid (cs ++ [c]) :=
  ⟨c, List.getLast?_concat, h⟩

theorem StartsSolid.trimStart_eq {cs : List Char} (h : StartsSolid cs) :
    trimStart cs = cs := by
  obtain ⟨c, hHead, hSolid⟩ := h
  obtain ⟨rest, rfl⟩ := List.head?_eq_some_iff.1 hHead
  rw [trimStart, List.dropWhile_cons_of_neg (by simp [hSolid])]

theorem EndsSolid.trimEnd_eq {cs : List Char} (h : EndsSolid cs) : trimEnd cs = cs := by
  obtain ⟨c, hLast, hSolid⟩ := h
  obtain ⟨front, rfl⟩ := List.getLast?_eq_some_iff.1 hLast
  rw [trimEnd_append_cons hSolid]
  rfl

/-- Nothing is trimmed off a text that neither starts nor ends with a blank. -/
theorem trim_eq_self {cs : List Char} (hStart : StartsSolid cs) (hEnd : EndsSolid cs) :
    trim cs = cs := by
  rw [trim, hStart.trimStart_eq, hEnd.trimEnd_eq]

theorem trim_cons_blank {c : Char} (h : isBlank c = true) (cs : List Char) :
    trim (c :: cs) = trim cs := by
  rw [trim, trimStart, List.dropWhile_cons_of_pos h]
  rfl

theorem trim_append_blank {c : Char} (h : isBlank c = true) {cs : List Char}
    (hStart : StartsSolid cs) : trim (cs ++ [c]) = trimEnd cs := by
  rw [trim, (hStart.append [c]).trimStart_eq, trimEnd_append_blank h]

/-- Trimming keeps every character that is not blank. -/
theorem mem_trim {c : Char} (h : isBlank c = false) {cs : List Char} (hMem : c ∈ cs) :
    c ∈ trim cs := by
  have hDrop {ds : List Char} (hd : c ∈ ds) : c ∈ ds.dropWhile isBlank := by
    rw [← List.takeWhile_append_dropWhile (p := isBlank) (l := ds), List.mem_append] at hd
    rcases hd with hBlank | hKept
    · have hTrue := List.mem_takeWhile_imp hBlank
      rw [h] at hTrue
      cases hTrue
    · exact hKept
  rw [trim, trimEnd, List.mem_reverse]
  exact hDrop (List.mem_reverse.2 (hDrop hMem))

/-! ## Lines -/

/-- A line and the newline behind it are cut off. -/
theorem lines_append_newline {cs : List Char} (h : '\n' ∉ cs) (ds : List Char) :
    lines (cs ++ '\n' :: ds) = (dropEnd? ['\r'] cs).getD cs :: lines ds := by
  obtain ⟨part, parts, hParts⟩ := exists_split '\n' ds
  simp only [lines, split_append_sep h, hParts, List.dropLast_cons_cons, List.map_cons,
    List.getLast?_cons_cons]
  split <;> simp_all

theorem lines_nil : lines [] = [] := rfl

/-- A newline keeps apart the lines in front of it and behind it. -/
theorem lines_append_cons (cs ds : List Char) :
    lines (cs ++ '\n' :: ds) = lines (cs ++ ['\n']) ++ lines ds := by
  obtain ⟨part, parts, hParts⟩ := exists_split '\n' ds
  simp only [lines, split_append_cons, split_nil, hParts, List.dropLast_concat,
    List.dropLast_append_of_ne_nil (List.cons_ne_nil part parts), List.map_append,
    List.getLast?_append, List.getLast?_cons, List.getLast?_nil, Option.getD_none,
    Option.some_or]
  split <;> simp_all

end ReversePolish.Text
