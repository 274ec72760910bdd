import ReversePolish.Proofs.Preservation

/-!
# The program of compiled code

Compiled code is always of a form that can be read, but for two things that a source may
hold and no line of code can: a number term that is no number, such as `7abc`, and a
target of an assignment with the sign of assignment in it.  Where a source has neither,
its code is read as a program with one instruction for each term that stands for a call,
in the order of the terms and each on a line of its own.

What the instruction of a call has to be is said by `Call.Means`, from the text of the
term and without the reader of lines.

## Main results

* `Call.read_eq_ok_iff` — a call is read as the instruction it means.
* `Written.read_script_iff` — which sources have calls that are all read.
* `compile_read_eq` — the lines of the code of a source, and that it is read call by call.
* `code_read_iff` — which sources have code that is a program, and which program it is.
-/

namespace ReversePolish

/-- A result that passes a test is a result. -/
theorem exists_ok_of_any {ε α : Type} {x : Except ε α} {p : α → Bool}
    (h : x.toOption.any p = true) : ∃ a, x = .ok a ∧ p a = true := by
  cases x with
  | error e => cases h
  | ok a => exact ⟨a, rfl, h⟩

/-! ## What calls mean -/

namespace Call

/-- The instruction that a call stands for.  Blanks at the end of a text do not count. -/
inductive Means : Call → Instruction → Prop where
  | number {text : String} {x : Float} (hKind : valueKind? text = some .number)
      (hValue : Decimal.readDecimal (Text.trimEnd text.toList) = .ok x) :
      Means (.push text) (.push (.number x))
  | reference {text : String} (hKind : valueKind? text = some .variable) :
      Means (.push text) (.push (.reference (Text.endTrimmed text)))
  | calculate (op : Operator) : Means (.calculate op) (.call (.calculate op))
  | bind {target : String} (hTarget : '=' ∉ target.toList) :
      Means (.bind target) (.bind (Text.endTrimmed target))
  | print : Means .print (.call .print)

/-- What is pushed is a value. -/
def PushesValue (call : Call) : Prop :=
  ∀ text, call = .push text → ∃ kind, valueKind? text = some kind

theorem read_push_number {vm text : String} (h : valueKind? text = some .number) :
    (Call.push text).read vm =
      match Decimal.readDecimal (Text.trimEnd text.toList) with
      | .ok x => .ok (.push (.number x))
      | .error _ => .error (.invalidLiteral (Text.endTrimmed text)) := by
  rw [read, Operand.read_number h, Text.endTrimmed, String.toList_ofList]
  cases Decimal.readDecimal (Text.trimEnd text.toList) <;> rfl

theorem read_push_variable {vm text : String} (h : valueKind? text = some .variable) :
    (Call.push text).read vm = .ok (.push (.reference (Text.endTrimmed text))) := by
  rw [read, Operand.read_variable h]
  rfl

/-- A call is read as the instruction it means, and as no other. -/
theorem read_eq_ok_iff {vm : String} {call : Call} {instruction : Instruction}
    (hValue : call.PushesValue) :
    call.read vm = .ok instruction ↔ call.Means instruction := by
  cases call with
  | push text =>
      obtain ⟨kind, hKind⟩ := hValue text rfl
      cases kind with
      | number =>
          rw [read_push_number hKind]
          constructor
          · intro h
            cases hRead : Decimal.readDecimal (Text.trimEnd text.toList) with
            | error fault => rw [hRead] at h; cases h
            | ok x =>
                rw [hRead] at h
                cases h
                exact .number hKind hRead
          · intro h
            cases h with
            | number _ hRead => rw [hRead]
            | reference hOther => rw [hKind] at hOther; cases hOther
      | «variable» =>
          rw [read_push_variable hKind, Except.ok.injEq]
          constructor
          · rintro rfl
            exact .reference hKind
          · intro h
            cases h with
            | number hOther _ => rw [hKind] at hOther; cases hOther
            | reference _ => rfl
  | calculate op =>
      constructor
      · rintro ⟨⟩
        exact .calculate op
      · rintro ⟨⟩
        rfl
  | bind target =>
      rw [read]
      constructor
      · intro h
        by_cases hTarget : '=' ∈ target.toList
        · rw [if_pos hTarget] at h
          cases h
        · rw [if_neg hTarget] at h
          cases h
          exact .bind hTarget
      · rintro ⟨⟩
        rw [if_neg (by assumption)]
        rfl
  | print =>
      constructor
      · rintro ⟨⟩
        exact .print
      · rintro ⟨⟩
        rfl

/-- Calls are read as a whole if they are read one by one. -/
theorem exists_readAs_iff {vm : String} {calls : List Call} :
    (∃ instructions, ReadAs vm calls instructions) ↔
      ∀ call ∈ calls, ∃ instruction, call.read vm = .ok instruction := by
  induction calls with
  | nil =>
      constructor
      · intro _ call hCall
        cases hCall
      · intro _
        exact ⟨[], List.Forall₂.nil⟩
  | cons call calls ih =>
      rw [List.forall_mem_cons, ← ih]
      constructor
      · rintro ⟨_, hAll⟩
        cases hAll with
        | cons hRead hRest => exact ⟨⟨_, hRead⟩, ⟨_, hRest⟩⟩
      · rintro ⟨⟨instruction, hRead⟩, ⟨instructions, hRest⟩⟩
        exact ⟨instruction :: instructions, List.Forall₂.cons hRead hRest⟩

end Call

/-! ## The calls of a source -/

namespace Sentence

theorem pushesValue (σ : Sentence) {entry : Term × Call} (h : entry ∈ σ.script) :
    entry.2.PushesValue := by
  intro text hPush
  have hText : text ∈ entry.2.texts := by simp [hPush, Call.texts]
  obtain ⟨v, _, rfl⟩ := σ.script_texts h hText
  exact ⟨v.kind, v.isValue⟩

/-- A number is never assigned to, so it is pushed. -/
theorem push_mem_script {σ : Sentence} {t : Term} (ht : t ∈ σ.terms)
    (hKind : valueKind? t.text = some .number) : (t, .push t.text) ∈ σ.script := by
  rw [mem_script]
  simp only [terms, List.mem_append, List.mem_map, List.mem_cons, List.mem_reverse,
    Option.mem_toList] at ht
  rcases ht with (⟨j, hj, rfl⟩ | rfl | hPrint) | ⟨j, hj, rfl⟩
  · refine Or.inl ⟨j, hj, rfl, ?_⟩
    cases hOp : j.sign.op? with
    | none =>
        have hValue := j.left.isValue
        rw [j.isTarget hOp, hKind] at hValue
        cases hValue
    | some op => rw [Joint.leftCall?, hOp, Option.map_some]
  · exact Or.inr (Or.inl ⟨rfl, rfl⟩)
  · rw [σ.isPrint t hPrint] at hKind
    exact absurd hKind (by decide)
  · rw [(j.sign.closes).1] at hKind
    cases hKind

theorem bind_mem_script {σ : Sentence} {j : Joint} (hj : j ∈ σ.joints)
    (hAssign : j.sign.op? = none) :
    (j.sign.term, .bind j.left.term.text) ∈ σ.script := by
  rw [mem_script]
  refine Or.inr (Or.inr (Or.inr ⟨j, hj, rfl, ?_⟩))
  rw [Joint.call, hAssign]

/-- A call of a sentence is read, if it pushes a number only where there is one and binds
only a name without the sign of assignment. -/
theorem exists_read {σ : Sentence} {vm : String} {entry : Term × Call}
    (h : entry ∈ σ.script)
    (hNumbers : ∀ t ∈ σ.terms, valueKind? t.text = some .number →
      ∃ x, Decimal.readDecimal (Text.trimEnd t.text.toList) = .ok x)
    (hTargets : ∀ j ∈ σ.joints, j.sign.op? = none → '=' ∉ j.left.term.text.toList) :
    ∃ instruction, entry.2.read vm = .ok instruction := by
  have hPush (v : ValueTerm) (hv : v.term ∈ σ.terms) :
      ∃ instruction, (Call.push v.term.text).read vm = .ok instruction := by
    have hKind := v.isValue
    cases hSort : v.kind with
    | number =>
        rw [hSort] at hKind
        obtain ⟨x, hx⟩ := hNumbers v.term hv hKind
        exact ⟨_, by rw [Call.read_push_number hKind, hx]⟩
    | «variable» =>
        rw [hSort] at hKind
        exact ⟨_, Call.read_push_variable hKind⟩
  obtain ⟨t, call⟩ := entry
  rcases mem_script.1 h with ⟨j, hj, rfl, hLeft⟩ | ⟨rfl, rfl⟩ | ⟨_, rfl⟩ | ⟨j, hj, rfl, rfl⟩
  · obtain ⟨op, _, rfl⟩ := Option.map_eq_some_iff.1 hLeft
    exact hPush j.left (left_mem_terms hj)
  · exact hPush σ.last (by simp [terms])
  · exact ⟨_, rfl⟩
  · unfold Joint.call
    cases hOp : j.sign.op? with
    | some op => exact ⟨_, rfl⟩
    | none => exact ⟨_, if_neg (hTargets j hj hOp)⟩

/-- Calls of sentences that are read are read as what they mean. -/
theorem script_means {σs : List Sentence} {vm : String} {instructions : List Instruction}
    (h : Call.ReadAs vm ((σs.flatMap script).map Prod.snd) instructions) :
    List.Forall₂ (fun entry instruction => entry.2.Means instruction)
      (σs.flatMap script) instructions := by
  have hPushes : ∀ entry ∈ σs.flatMap script, entry.2.PushesValue := by
    intro entry hEntry
    obtain ⟨σ, _, hCall⟩ := List.mem_flatMap.1 hEntry
    exact σ.pushesValue hCall
  have hRead := (List.forall₂_and_left _ _).2 ⟨hPushes, List.forall₂_map_left_iff.1 h⟩
  exact hRead.imp fun entry instruction hEntry =>
    (Call.read_eq_ok_iff hEntry.1).1 hEntry.2

end Sentence

/-- The calls of a source are read if its numbers are numbers and its targets are free of
the sign of assignment. -/
theorem Written.read_script_iff {σs : List Sentence} {ts : List Term} (h : Written σs ts)
    {vm : String} :
    (∃ instructions,
        Call.ReadAs vm ((σs.flatMap Sentence.script).map Prod.snd) instructions) ↔
      (∀ t ∈ ts, valueKind? t.text = some .number →
        ∃ x, Decimal.readDecimal (Text.trimEnd t.text.toList) = .ok x) ∧
      ∀ σ ∈ σs, ∀ j ∈ σ.joints, j.sign.op? = .none → '=' ∉ j.left.term.text.toList := by
  rw [Call.exists_readAs_iff, List.forall_mem_map]
  constructor
  · intro hRead
    have hMeans (σ : Sentence) (hσ : σ ∈ σs) {entry : Term × Call}
        (hEntry : entry ∈ σ.script) : ∃ instruction, entry.2.Means instruction := by
      obtain ⟨instruction, hi⟩ := hRead entry (List.mem_flatMap.2 ⟨σ, hσ, hEntry⟩)
      exact ⟨instruction, (Call.read_eq_ok_iff (σ.pushesValue hEntry)).1 hi⟩
    constructor
    · intro t ht hKind
      have hNot := ValueTerm.not_newline ⟨t, .number, hKind⟩
      obtain ⟨σ, hσ, htσ⟩ := h.mem_terms_iff.1 ⟨ht, hNot⟩
      obtain ⟨_, hPush⟩ := hMeans σ hσ (Sentence.push_mem_script htσ hKind)
      cases hPush with
      | number _ hValue => exact ⟨_, hValue⟩
      | reference hOther => rw [hKind] at hOther; cases hOther
    · intro σ hσ j hj hAssign
      obtain ⟨_, hBind⟩ := hMeans σ hσ (Sentence.bind_mem_script hj hAssign)
      cases hBind with
      | bind hTarget => exact hTarget
  · rintro ⟨hNumbers, hTargets⟩ entry hEntry
    obtain ⟨σ, hσ, hCall⟩ := List.mem_flatMap.1 hEntry
    exact Sentence.exists_read hCall
      (fun t ht => hNumbers t (h.mem_terms_iff.2 ⟨σ, hσ, ht⟩).1) (hTargets σ hσ)

/-- The lines of the code of a source, and what is read from them: call by call, in the
order of the table. -/
theorem compile_read_eq {s : Settings} {name text : String} {c : Compiled}
    (h : compile s name text = .ok c) (hModule : '\n' ∉ s.runtimeModule.toList)
    (hFile : '\n' ∉ (s.mapFileName name).toList) :
    ∃ σs, Written σs (termsOf text) ∧
      c.table = Call.table name 3 ((σs.flatMap Sentence.script).map Sentence.tagged) ∧
      Text.lines c.code.toList = s.importLine.toList :: s.letLine.toList ::
        ((σs.flatMap Sentence.script).map
            (fun entry => (entry.2.line s.runtimeInstance).toList) ++
          Text.lines (Emitter.mapComment (s.mapFileName name)).toList) ∧
      Program.read c.code =
        (Call.readFrom s.runtimeInstance 3
          ((σs.flatMap Sentence.script).map Prod.snd)).map fun program =>
            ⟨1, .takeModule⟩ :: ⟨2, .nameMachine s.runtimeInstance⟩ :: program := by
  obtain ⟨hCheck, _⟩ := compile_eq_ok h
  obtain ⟨σs, hWritten, _, hCode, hTable⟩ := compile_eq_script h
  rw [Settings.firstLine_eq_three hCheck hModule] at hTable
  have hCalls : (Forest.ofSentences σs).calls.map Prod.snd =
      (σs.flatMap Sentence.script).map Prod.snd := by
    rw [Forest.ofSentences_calls, List.map_map]
    rfl
  have hLines : ∀ call ∈ (Forest.ofSentences σs).calls.map Prod.snd,
      '\n' ∉ (call.line s.runtimeInstance).toList := by
    rw [List.forall_mem_map]
    exact hWritten.newline_not_mem_line (Settings.identifiers_of_check hCheck).2
  have hTexts := Forest.texts_startSolid σs
  rw [hCalls] at hLines hTexts
  refine ⟨σs, hWritten, hTable, ?_, ?_⟩
  · rw [hCode, Program.lines_code hCheck _ hLines, Settings.moduleLines_eq hCheck hModule,
      List.map_map]
    rfl
  · rw [hCode, Program.read_code_eq hCheck hModule hFile hLines hTexts]

/-- **Which code is a program.**  The code of a source is read as a program exactly when
each number term, without the blanks at its end, is a number, and no target of an
assignment holds the sign of assignment.  The program then takes the machine from its
module, names it, and has from the third line on one instruction on each line: those
that the calls of the terms mean, in order.  It ends there. -/
theorem code_read_iff {s : Settings} {name text : String} {c : Compiled}
    (h : compile s name text = .ok c) (hModule : '\n' ∉ s.runtimeModule.toList)
    (hFile : '\n' ∉ (s.mapFileName name).toList) :
    ∃ σs, Written σs (termsOf text) ∧
      ((∃ program, Program.read c.code = .ok program) ↔
        (∀ t ∈ termsOf text, valueKind? t.text = some .number →
          ∃ x, Decimal.readDecimal (Text.trimEnd t.text.toList) = .ok x) ∧
        ∀ σ ∈ σs, ∀ j ∈ σ.joints, j.sign.op? = none →
          '=' ∉ j.left.term.text.toList) ∧
      ∀ program, Program.read c.code = .ok program →
        ∃ instructions,
          List.Forall₂ (fun entry instruction => entry.2.Means instruction)
            (σs.flatMap Sentence.script) instructions ∧
          program = ⟨1, .takeModule⟩ :: ⟨2, .nameMachine s.runtimeInstance⟩ ::
            Program.placedFrom 3 instructions := by
  obtain ⟨σs, hWritten, _, _, hRead⟩ := compile_read_eq h hModule hFile
  have hOk (program : Program) : Program.read c.code = .ok program ↔
      ∃ instructions, Call.ReadAs s.runtimeInstance
          ((σs.flatMap Sentence.script).map Prod.snd) instructions ∧
        program = ⟨1, .takeModule⟩ :: ⟨2, .nameMachine s.runtimeInstance⟩ ::
          Program.placedFrom 3 instructions := by
    rw [hRead, Call.map_readFrom_eq_ok_iff]
  refine ⟨σs, hWritten, ?_, ?_⟩
  · rw [← hWritten.read_script_iff]
    constructor
    · rintro ⟨program, hProgram⟩
      obtain ⟨instructions, hAs, _⟩ := (hOk program).1 hProgram
      exact ⟨instructions, hAs⟩
    · rintro ⟨instructions, hAs⟩
      exact ⟨_, (hOk _).2 ⟨instructions, hAs, rfl⟩⟩
  · intro program hProgram
    obtain ⟨instructions, hAs, hShape⟩ := (hOk program).1 hProgram
    exact ⟨instructions, Sentence.script_means hAs, hShape⟩

/-- Brackets, a semicolon and the start of a comment in a name, blanks that are not broken
at behind a target and a number, and a machine that is called `let`. -/
theorem code_read_iff_brackets :
    ∃ c program, compile { runtimeInstance := "let" } "p.rpn"
        "x);//let y\u00a0 7\u00a0 = +" = .ok c ∧
      '\n' ∉ ({ runtimeInstance := "let" } : Settings).runtimeModule.toList ∧
      '\n' ∉ (({ runtimeInstance := "let" } : Settings).mapFileName "p.rpn").toList ∧
      Program.read c.code = .ok program ∧
      ∃ σs instructions, Written σs (termsOf "x);//let y\u00a0 7\u00a0 = +") ∧
        List.Forall₂ (fun entry instruction => entry.2.Means instruction)
          (σs.flatMap Sentence.script) instructions ∧
        program = ⟨1, .takeModule⟩ :: ⟨2, .nameMachine "let"⟩ ::
          Program.placedFrom 3 instructions := by
  have hAny : ((compile { runtimeInstance := "let" } "p.rpn"
      "x);//let y\u00a0 7\u00a0 = +").toOption.any fun c =>
        (Program.read c.code).toOption.any fun _ => true) = true := by decide +kernel
  obtain ⟨c, hCompiled, hRead⟩ := exists_ok_of_any hAny
  obtain ⟨program, hProgram, _⟩ := exists_ok_of_any hRead
  have hModule : '\n' ∉ ({ runtimeInstance := "let" } : Settings).runtimeModule.toList := by
    decide
  have hFile : '\n' ∉
      (({ runtimeInstance := "let" } : Settings).mapFileName "p.rpn").toList := by decide
  obtain ⟨σs, hWritten, _, hShape⟩ := code_read_iff hCompiled hModule hFile
  obtain ⟨instructions, hMeans, hPlaced⟩ := hShape program hProgram
  exact ⟨c, program, hCompiled, hModule, hFile, hProgram, σs, instructions, hWritten, hMeans,
    hPlaced⟩

end ReversePolish
