import ReversePolish.Proofs.CallReading

/-!
# The preamble read back

A preamble is put together from three settings: the class and the instance of the runtime, which
the check of the settings holds to be identifiers, and the name of its module, which is pasted
between quotes.  The check refuses a name with a quote in it, since that would end the name.  But
it does not refuse a newline, which ends the line.

A name on one line gives the two instructions that the preamble stands for.  A name on several
lines takes the preamble apart: its first line is an import only if it happens to end with a
semicolon, its further lines are read as instructions of their own, and the machine gets its name
on a later line.

## Main results

* `Program.read_preamble` — the machine gets its name last, behind all lines of the module.
* `Program.readLines_moduleLines_of_newline` — the first line of a name with several lines.
* `preamble_reading` — what a preamble is read as.
-/

namespace ReversePolish

namespace Text

theorem length_split (sep : Char) (cs : List Char) :
    (split sep cs).length = cs.count sep + 1 := by
  induction cs with
  | nil => rfl
  | cons c cs ih =>
      rw [split_cons]
      by_cases hSep : c = sep
      · rw [if_pos hSep, List.length_cons, ih, hSep, List.count_cons_self]
      · obtain ⟨part, parts, hParts⟩ := exists_split sep cs
        rw [hParts] at ih
        rw [if_neg hSep, hParts, List.count_cons_of_ne hSep, ← ih]
        rfl

/-- A text that ends with a newline has a line for each of its newlines. -/
theorem length_lines_newline (cs : List Char) :
    (lines (cs ++ ['\n'])).length = cs.count '\n' + 1 := by
  have hLines : lines (cs ++ ['\n']) =
      (split '\n' cs).map fun line => (dropEnd? ['\r'] line).getD line := by
    simp only [lines, split_append_cons, split_nil, List.dropLast_concat, List.getLast?_concat]
  rw [hLines, List.length_map, length_split]

/-- A line is trimmed to the same text whether or not a carriage return was taken off it. -/
theorem trim_withoutReturn (line : List Char) :
    trim ((dropEnd? ['\r'] line).getD line) = trim line := by
  cases hEnd : dropEnd? ['\r'] line with
  | none => rfl
  | some front =>
      rw [dropEnd?_eq_some_iff] at hEnd
      rw [Option.getD_some, hEnd, trim, trim, trimStart, trimStart, List.dropWhile_append]
      split
      · next hBlank =>
          rw [List.isEmpty_iff] at hBlank
          rw [hBlank]
          rfl
      · rw [trimEnd_append_blank (by decide)]

end Text

/-- A line is read by what is left of it when it has been trimmed. -/
theorem Instruction.readLine_congr {line other : List Char} (h : Text.trim line = Text.trim other)
    (vm? : Option String) : readLine vm? line = readLine vm? other := by
  simp only [readLine, h]

/-! ## The lines of the module -/

/-- There is a line for each newline in the name of the module, and one more. -/
theorem Settings.length_moduleLines {s : Settings} (hCheck : s.check = .ok ()) :
    s.moduleLines.length = s.runtimeModule.toList.count '\n' + 1 := by
  have hClass : s.runtimeClass.toList.count '\n' = 0 :=
    List.count_eq_zero.2 (not_mem_identifier (identifiers_of_check hCheck).1 (by decide))
  have hStart : s.importStart.toList.count '\n' = 0 := by
    rw [importStart, String.toList_append, String.toList_append, List.count_append,
      List.count_append, hClass]
    decide
  have hLine : s.importLine.toList.count '\n' = s.runtimeModule.toList.count '\n' := by
    rw [importLine_toList, List.count_append, List.count_append, hStart, Nat.zero_add]
    rfl
  rw [moduleLines, Text.length_lines_newline, hLine]

namespace Program

/-- The machine gets its name last, behind all lines of the module. -/
theorem read_preamble {s : Settings} (hCheck : s.check = .ok ()) :
    read s.preamble = (readLines 1 none s.moduleLines).map
      (· ++ [⟨s.runtimeModule.toList.count '\n' + 2, .nameMachine s.runtimeInstance⟩]) := by
  have hLines : Text.lines s.preamble.toList = s.moduleLines ++ [s.letLine.toList] := by
    have hLines := Settings.lines_preamble hCheck []
    rwa [List.append_nil, Text.lines_nil] at hLines
  have hLet (line : Nat) (vm? : Option String) : readLines line vm? [s.letLine.toList] =
      .ok [⟨line, .nameMachine s.runtimeInstance⟩] := by
    rw [readLines_instruction (Settings.readLine_let hCheck vm?)]
    rfl
  rw [read, hLines, readLines_append, Settings.length_moduleLines hCheck]
  simp only [hLet, show 1 + (s.runtimeModule.toList.count '\n' + 1) =
    s.runtimeModule.toList.count '\n' + 2 by omega]
  cases readLines 1 none s.moduleLines <;> rfl

/-- If the name of the module has a newline, then what stands in front of it has to end with a
semicolon, and what stands behind it is read on its own. -/
theorem readLines_moduleLines_of_newline {s : Settings} (hCheck : s.check = .ok ())
    {first rest : List Char} (hModule : s.runtimeModule.toList = first ++ '\n' :: rest)
    (hFirst : '\n' ∉ first) :
    readLines 1 none s.moduleLines =
      if (Text.trimEnd first).getLast? = some ';' then
        (readLines 2 none (Text.lines (rest ++ ['\'', ';', '\n']))).map (⟨1, .takeModule⟩ :: ·)
      else .error ⟨1, .unsupported (s.importStart ++ String.ofList (Text.trimEnd first))⟩ := by
  have hClass : '\n' ∉ s.runtimeClass.toList :=
    not_mem_identifier (Settings.identifiers_of_check hCheck).1 (by decide)
  have hStart : '\n' ∉ s.importStart.toList ++ first := by
    simp [Settings.importStart, hClass, hFirst]
  have hText : s.importLine.toList ++ ['\n'] =
      s.importStart.toList ++ first ++ '\n' :: (rest ++ ['\'', ';', '\n']) := by
    rw [Settings.importLine_toList, hModule]
    simp
  have hRead : Instruction.readLine none ((Text.dropEnd? ['\r'] (s.importStart.toList ++
      first)).getD (s.importStart.toList ++ first)) = _ :=
    (Instruction.readLine_congr (Text.trim_withoutReturn _) none).trans
      (s.readLine_importStart none first)
  rw [Settings.moduleLines, hText, Text.lines_append_newline hStart]
  by_cases hEnd : (Text.trimEnd first).getLast? = some ';'
  · rw [if_pos hEnd] at hRead ⊢
    exact readLines_cons hRead (fun name hName => by cases hName) 1 _
  · rw [if_neg hEnd] at hRead ⊢
    rw [readLines, hRead]

/-- The lines of a module start with an import, if they can be read. -/
theorem exists_of_readLines_moduleLines {s : Settings} (hCheck : s.check = .ok ())
    {program : Program} (h : readLines 1 none s.moduleLines = .ok program) :
    ∃ further, program = ⟨1, .takeModule⟩ :: further := by
  by_cases hModule : '\n' ∈ s.runtimeModule.toList
  · obtain ⟨first, rest, hSplit, hFirst⟩ := List.eq_append_cons_of_mem hModule
    rw [readLines_moduleLines_of_newline hCheck hSplit hFirst] at h
    split at h
    · obtain ⟨further, _, rfl⟩ := exists_of_map_eq_ok h
      exact ⟨further, rfl⟩
    · cases h
  · rw [readLines_moduleLines hCheck hModule] at h
    cases h
    exact ⟨[], rfl⟩

end Program

/-! ## Preambles -/

/-- **What a preamble is read as.**  With settings that pass the check, a preamble is read as
exactly two instructions, which take the module on the first line and name the machine on the
second, if and only if the name of the module has no newline.  If it has newlines and the preamble
can be read nevertheless, then it starts with an import and names the machine last, as many lines
later as there are newlines.  It cannot be read at all if what stands in front of the first
newline does not end with a semicolon: then the first line is refused. -/
theorem preamble_reading {s : Settings} (hCheck : s.check = .ok ()) :
    (Program.read s.preamble = .ok [⟨1, .takeModule⟩, ⟨2, .nameMachine s.runtimeInstance⟩] ↔
      '\n' ∉ s.runtimeModule.toList) ∧
    (∀ program, Program.read s.preamble = .ok program →
      ∃ further, program = ⟨1, .takeModule⟩ :: (further ++
        [⟨s.runtimeModule.toList.count '\n' + 2, .nameMachine s.runtimeInstance⟩])) ∧
    ∀ first rest, s.runtimeModule.toList = first ++ '\n' :: rest → '\n' ∉ first →
      (Text.trimEnd first).getLast? ≠ some ';' →
      Program.read s.preamble =
        .error ⟨1, .unsupported (s.importStart ++ String.ofList (Text.trimEnd first))⟩ := by
  rw [Program.read_preamble hCheck]
  refine ⟨⟨?_, ?_⟩, ?_, ?_⟩
  · intro h
    obtain ⟨front, _, hProgram⟩ := exists_of_map_eq_ok h
    have hLast := congrArg List.getLast? hProgram
    rw [List.getLast?_concat] at hLast
    injection hLast with hLast
    have hCount : s.runtimeModule.toList.count '\n' + 2 = 2 :=
      congrArg PlacedInstruction.line hLast
    exact List.count_eq_zero.1 (by omega)
  · intro hModule
    rw [Program.readLines_moduleLines hCheck hModule, List.count_eq_zero.2 hModule]
    rfl
  · intro program h
    obtain ⟨front, hFront, rfl⟩ := exists_of_map_eq_ok h
    obtain ⟨further, rfl⟩ := Program.exists_of_readLines_moduleLines hCheck hFront
    exact ⟨further, rfl⟩
  · intro first rest hSplit hFirst hEnd
    rw [Program.readLines_moduleLines_of_newline hCheck hSplit hFirst, if_neg hEnd]
    rfl

/-- A name that ends its own line in the preamble, puts an instruction on the next and makes a
comment of what is left. -/
theorem preamble_reading_three_lines :
    let s : Settings := { runtimeModule := "./vm.js;\nlet other = new Rpn();\n//" }
    s.check = .ok () ∧
      Program.read s.preamble =
        .ok [⟨1, .takeModule⟩, ⟨2, .nameMachine "other"⟩, ⟨4, .nameMachine "rpn"⟩] ∧
      Program.read s.preamble ≠ .ok [⟨1, .takeModule⟩, ⟨2, .nameMachine "rpn"⟩] := by
  intro s
  have hCheck : s.check = .ok () := by decide +kernel
  have hNewline : '\n' ∈ s.runtimeModule.toList := by decide +kernel
  refine ⟨hCheck, by cbv, ?_⟩
  intro hRead
  exact (preamble_reading hCheck).1.1 hRead hNewline

/-- The check lets a newline pass, and the preamble is then no program. -/
theorem preamble_breaks_at_newline :
    let s : Settings := { runtimeModule := "a\nb" }
    s.check = .ok () ∧ Program.read s.preamble =
      .error ⟨1, .unsupported "import \x7b Rpn \x7d from 'a"⟩ := by
  exact ⟨by decide +kernel, by cbv⟩

end ReversePolish
