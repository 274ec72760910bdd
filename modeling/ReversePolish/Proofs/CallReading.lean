import Mathlib.Data.List.Forall2
import ReversePolish.Program.Reading
import ReversePolish.Proofs.Cutting
import ReversePolish.Proofs.Emission

/-!
# Emitted lines read back

Every line that is emitted for a call is read as the instruction it stands for,
whatever the text that the call takes over from the source: brackets, semicolons and
even the beginning of a comment in it do no harm.  There are three exceptions.  Blanks
at the end of a text are lost, a number term is not always a number, and a target that
holds the sign of assignment is cut at the wrong place.

The name of the machine may be any identifier, also one of the words that the reader
looks for, because it is always followed by a dot and these words by a blank.

## Main results

* `Call.readLine_line` — the line of a call is read as the call's instruction.
* `Program.read_code_parts` — code is read call by call, whatever stands around the calls.
* `Program.read_code_eq` — the program of code with a preamble of two lines.
* `Program.read_code` — code is read as a program when all its calls are.
-/

namespace ReversePolish

/-! ## Steps that can fail -/

/-- A step goes on with the result of the one before.  The proof is no `rfl`, so that a
rewrite with it never has the two sides compared by evaluation. -/
theorem ok_bind {ε α β : Type} (a : α) (f : α → Except ε β) : (Except.ok a >>= f) = f a :=
  pure_bind a f

theorem exists_of_bind_eq_ok {ε α β : Type} {x : Except ε α} {f : α → Except ε β} {b : β}
    (h : x.bind f = .ok b) : ∃ a, x = .ok a ∧ f a = .ok b := by
  cases x with
  | error e => cases h
  | ok a => exact ⟨a, rfl, h⟩

theorem exists_of_map_eq_ok {ε α β : Type} {x : Except ε α} {f : α → β} {b : β}
    (h : x.map f = .ok b) : ∃ a, x = .ok a ∧ f a = b := by
  cases x with
  | error e => cases h
  | ok a => exact ⟨a, rfl, Except.ok.inj h⟩

theorem eq_error_or_of_bind_eq_error {ε α β : Type} {x : Except ε α} {f : α → Except ε β}
    {e : ε} (h : x.bind f = .error e) : x = .error e ∨ ∃ a, x = .ok a ∧ f a = .error e := by
  cases x with
  | error e' => exact Or.inl (congrArg Except.error (Except.error.inj h))
  | ok a => exact Or.inr ⟨a, rfl, h⟩

theorem eq_error_of_map_eq_error {ε α β : Type} {x : Except ε α} {f : α → β} {e : ε}
    (h : x.map f = .error e) : x = .error e := by
  cases x with
  | error e' => exact congrArg Except.error (Except.error.inj h)
  | ok a => cases h

/-! ## Characters that are not blank -/

theorem not_isBlank_of_identifier {c : Char} (h : (isIdentifierStart c || c.isDigit) = true) :
    Text.isBlank c = false := by
  have hCode : c.toNat = 36 ∨ c.toNat = 95 ∨ (48 ≤ c.toNat ∧ c.toNat ≤ 57) ∨
      (65 ≤ c.toNat ∧ c.toNat ≤ 90) ∨ (97 ≤ c.toNat ∧ c.toNat ≤ 122) := by
    simp only [isIdentifierStart, Bool.or_eq_true, beq_iff_eq] at h
    rcases h with ((hAlpha | rfl) | rfl) | hDigit
    · rcases Bool.or_eq_true_iff.1 hAlpha with hUpper | hLower
      · exact Or.inr (Or.inr (Or.inr (Or.inl (of_decide_eq_true hUpper))))
      · obtain ⟨hLow, hHigh⟩ := Bool.and_eq_true_iff.1 hLower
        exact Or.inr (Or.inr (Or.inr (Or.inr ⟨of_decide_eq_true hLow, of_decide_eq_true hHigh⟩)))
    · exact Or.inr (Or.inl rfl)
    · exact Or.inl rfl
    · obtain ⟨hLow, hHigh⟩ := Bool.and_eq_true_iff.1 hDigit
      exact Or.inr (Or.inr (Or.inl ⟨of_decide_eq_true hLow, of_decide_eq_true hHigh⟩))
  simp only [Text.isBlank, Bool.or_eq_false_iff, Bool.and_eq_false_iff, beq_eq_false_iff_ne,
    decide_eq_false_iff_not]
  omega

theorem identifier_startsSolid {text : String} (h : isIdentifier text = true) :
    Text.StartsSolid text.toList := by
  obtain ⟨c, rest, hText, hStart, _⟩ := isIdentifier_iff.1 h
  exact ⟨c, by rw [hText, List.head?_cons], not_isBlank_of_identifier (by simp [hStart])⟩

/-- The first character of a value decides of which kind it is. -/
theorem value_head {text : String} {kind : ValueKind} (h : valueKind? text = some kind) :
    ∃ c rest, text.toList = c :: rest ∧
      (kind = .number ∧ c.isDigit = true ∨
        kind = .variable ∧ c.isDigit = false ∧ c.isAlpha = true) := by
  unfold valueKind? at h
  cases hText : text.toList with
  | nil => simp [isNumber, isVariable, hText] at h
  | cons c rest =>
      refine ⟨c, rest, rfl, ?_⟩
      have hNumber : isNumber text = c.isDigit := by simp [isNumber, hText]
      rw [hNumber] at h
      by_cases hDigit : c.isDigit = true
      · rw [if_pos hDigit, Option.some.injEq] at h
        exact Or.inl ⟨h.symm, hDigit⟩
      · rw [if_neg hDigit] at h
        by_cases hVariable : isVariable text = true
        · rw [if_pos hVariable, Option.some.injEq] at h
          simp only [isVariable, hText, List.head?_cons, Option.any_some,
            Bool.and_eq_true] at hVariable
          exact Or.inr ⟨h.symm, Bool.eq_false_iff.2 hDigit, hVariable.2⟩
        · rw [if_neg hVariable] at h
          cases h

theorem value_startsSolid {text : String} {kind : ValueKind}
    (h : valueKind? text = some kind) : Text.StartsSolid text.toList := by
  obtain ⟨c, rest, hText, hFirst⟩ := value_head h
  refine ⟨c, by rw [hText, List.head?_cons], not_isBlank_of_identifier ?_⟩
  rcases hFirst with ⟨_, hDigit⟩ | ⟨_, _, hAlpha⟩
  · simp [hDigit]
  · simp [isIdentifierStart, hAlpha]

/-! ## Single lines -/

namespace Instruction

/-- A line that is a body and a semicolon. -/
theorem readLine_body {body : List Char} (hStart : Text.StartsSolid body)
    (hEnd : Text.EndsSolid body) (hSlash : body.head? ≠ some '/') (vm? : Option String) :
    readLine vm? (body ++ [';']) =
      match readBody vm? body with
      | some read => read.map some
      | none => .error (.unsupported (String.ofList (body ++ [';']))) := by
  have hLine : Text.trim (body ++ [';']) = body ++ [';'] :=
    Text.trim_eq_self (hStart.append [';'])
      (Text.endsSolid_append_singleton (by decide) body)
  have hNotComment : Text.dropStart? "//".toList (body ++ [';']) = none := by
    obtain ⟨c, hHead, _⟩ := hStart
    obtain ⟨rest, rfl⟩ := List.head?_eq_some_iff.1 hHead
    rw [Option.eq_none_iff_forall_ne_some]
    intro behind hBehind
    rw [Text.dropStart?_eq_some_iff, show "//".toList = ['/', '/'] from rfl] at hBehind
    injection hBehind with hFirst
    exact hSlash (by rw [List.head?_cons, hFirst])
  have hSome : (body ++ [';']).isEmpty = false := by simp
  cases hRead : readBody vm? body <;>
    simp only [readLine, hLine, hSome, hNotComment, Option.isSome_none, Bool.or_false,
      Bool.false_eq_true, if_false, Text.dropEnd?_append, Option.bind_some, hEnd.trimEnd_eq,
      hRead]

/-- A comment has no instruction. -/
theorem readLine_comment (vm? : Option String) (rest : List Char) :
    readLine vm? ('/' :: '/' :: rest) = .ok none := by
  have hStart : Text.StartsSolid ('/' :: '/' :: rest) := ⟨'/', rfl, by decide⟩
  have hLine : Text.trim ('/' :: '/' :: rest) = '/' :: '/' :: Text.trimEnd rest := by
    rw [Text.trim, hStart.trimStart_eq]
    exact Text.trimEnd_append_cons (show Text.isBlank '/' = false by decide) ['/'] rest
  rw [readLine, hLine]
  rfl

/-- No word that the reader looks for begins the body of a call. -/
theorem readBody_call {vm : String} (hVm : isIdentifier vm = true) (rest : List Char) :
    readBody (some vm) (vm.toList ++ '.' :: rest) = readCall vm (vm.toList ++ '.' :: rest) := by
  have hWord (word : String) (h : isIdentifier word = true) :
      Text.dropStart? (word.toList ++ [' ']) (vm.toList ++ '.' :: rest) = none :=
    Text.dropStart?_word_eq_none (identifier_chars h) (identifier_chars hVm) (by decide)
      (by decide) (by decide) rest
  have hImport : Text.dropStart? "import ".toList (vm.toList ++ '.' :: rest) = none :=
    hWord "import" (by decide)
  have hLet : Text.dropStart? "let ".toList (vm.toList ++ '.' :: rest) = none :=
    hWord "let" (by decide)
  have hVar : Text.dropStart? "var ".toList (vm.toList ++ '.' :: rest) = none :=
    hWord "var" (by decide)
  simp only [readBody, hImport, hLet, hVar]

/-- A call is taken apart into its method and its argument. -/
theorem call?_eq_some (vm : String) {method : String} (hMethod : '(' ∉ method.toList)
    (argument : List Char) :
    call? vm (vm.toList ++ '.' :: (method.toList ++ '(' :: (argument ++ [')']))) =
      some (method, Text.trim argument) := by
  have hStart : vm.toList ++ '.' :: (method.toList ++ '(' :: (argument ++ [')'])) =
      (vm ++ ".").toList ++ (method.toList ++ '(' :: (argument ++ [')'])) := by
    simp
  unfold call?
  rw [hStart, Text.dropStart?_append]
  simp only [Option.bind_eq_bind, Option.bind_some, Text.splitFirst?_append_sep hMethod,
    Text.dropEnd?_append, String.ofList_toList]
  rfl

theorem readBody_method {vm method : String} (hVm : isIdentifier vm = true)
    (hMethod : '(' ∉ method.toList) (hNotPush : method ≠ "push") {m : Method}
    (hName : Method.ofName? method = some m) :
    readBody (some vm) (vm.toList ++ '.' :: (method.toList ++ ['(', ')'])) =
      some (.ok (.call m)) := by
  have hCall := call?_eq_some vm hMethod []
  rw [List.nil_append] at hCall
  rw [readBody_call hVm, readCall, hCall]
  simp only [if_neg hNotPush, hName]
  rfl

theorem readBody_push {vm text : String} (hVm : isIdentifier vm = true)
    (hText : Text.StartsSolid text.toList) :
    readBody (some vm)
        (vm.toList ++ '.' :: ("push".toList ++ '(' :: ((' ' :: (text.toList ++ [' '])) ++ [')']))) =
      some ((Operand.read (Text.trimEnd text.toList)).map .push) := by
  have hArgument : Text.trim (' ' :: (text.toList ++ [' '])) = Text.trimEnd text.toList := by
    rw [Text.trim_cons_blank (by decide), Text.trim_append_blank (by decide) hText]
  rw [readBody_call hVm, readCall, call?_eq_some vm (by decide), hArgument]
  rfl

theorem pop_endsSolid (vm : String) : Text.EndsSolid (vm ++ ".pop()").toList := by
  rw [String.toList_append]
  exact Text.EndsSolid.prepend ⟨')', rfl, by decide⟩ _

/-- A target with the sign of assignment in it is cut there, and the rest of the line is
then no pop. -/
theorem readVar?_eq {vm target : String} (hVm : isIdentifier vm = true)
    (hTarget : Text.StartsSolid target.toList) :
    readVar? vm (target.toList ++ ' ' :: '=' :: ' ' :: (vm ++ ".pop()").toList) =
      if '=' ∈ target.toList then none
      else some (.bind (String.ofList (Text.trimEnd target.toList))) := by
  unfold readVar?
  by_cases hSign : '=' ∈ target.toList
  · obtain ⟨front, behind, hSplit, hFront⟩ := List.eq_append_cons_of_mem hSign
    have hVm' : '=' ∉ (vm ++ ".pop()").toList := by
      have hName : '=' ∉ vm.toList := not_mem_identifier hVm (by decide)
      simp [hName]
    have hNoPop : Text.trim (behind ++ ' ' :: '=' :: ' ' :: (vm ++ ".pop()").toList) ≠
        (vm ++ ".pop()").toList := by
      intro hPop
      have hMem : '=' ∈ Text.trim (behind ++ ' ' :: '=' :: ' ' :: (vm ++ ".pop()").toList) :=
        Text.mem_trim (by decide) (by simp)
      rw [hPop] at hMem
      exact hVm' hMem
    rw [if_pos hSign, hSplit, List.append_assoc, List.cons_append,
      Text.splitFirst?_append_sep hFront]
    simp only [Option.bind_eq_bind, Option.bind_some, if_neg hNoPop]
  · have hSign' : '=' ∉ target.toList ++ [' '] := by simp [hSign]
    have hStart : Text.StartsSolid (vm ++ ".pop()").toList := by
      rw [String.toList_append]
      exact (identifier_startsSolid hVm).append _
    have hPop : Text.trim (' ' :: (vm ++ ".pop()").toList) = (vm ++ ".pop()").toList := by
      rw [Text.trim_cons_blank (by decide), Text.trim_eq_self hStart (pop_endsSolid vm)]
    rw [if_neg hSign, List.append_cons, Text.splitFirst?_append_sep hSign']
    simp only [Option.bind_eq_bind, Option.bind_some, if_pos hPop,
      Text.trim_append_blank (show Text.isBlank ' ' = true by decide) hTarget]

/-- A line that starts with the name of the machine and ends with a bracket. -/
theorem readLine_call {vm : String} (hVm : isIdentifier vm = true) {front : List Char}
    {read : Except RunCause Instruction}
    (hRead : readBody (some vm) (vm.toList ++ '.' :: (front ++ [')'])) = some read) :
    readLine (some vm) (vm.toList ++ '.' :: (front ++ [')', ';'])) = read.map some := by
  have hBody : vm.toList ++ '.' :: (front ++ [')', ';']) =
      (vm.toList ++ '.' :: (front ++ [')'])) ++ [';'] := by
    simp
  have hEnd : Text.EndsSolid (vm.toList ++ '.' :: (front ++ [')'])) := by
    rw [← List.cons_append, ← List.append_assoc]
    exact Text.endsSolid_append_singleton (by decide) _
  have hSlash : (vm.toList ++ '.' :: (front ++ [')'])).head? ≠ some '/' := by
    obtain ⟨c, rest, hName, hc, _⟩ := isIdentifier_iff.1 hVm
    rw [hName, List.cons_append, List.head?_cons, ne_eq, Option.some.injEq]
    rintro rfl
    exact absurd hc (by decide)
  rw [hBody, readLine_body ((identifier_startsSolid hVm).append _) hEnd hSlash, hRead]

end Instruction

/-! ## Calls -/

namespace Call

/-- The instruction that the line of a call is read as. -/
def read (vm : String) : Call → Except RunCause Instruction
  | .push text => (Operand.read (Text.trimEnd text.toList)).map .push
  | .calculate op => .ok (.call (.calculate op))
  | .bind target =>
    if '=' ∈ target.toList then .error (.unsupported ((Call.bind target).line vm))
    else .ok (.bind (String.ofList (Text.trimEnd target.toList)))
  | .print => .ok (.call .print)

/-- The line of a call is read as the call's instruction. -/
theorem readLine_line {vm : String} (hVm : isIdentifier vm = true) {call : Call}
    (hTexts : ∀ text ∈ call.texts, Text.StartsSolid text.toList) :
    Instruction.readLine (some vm) (call.line vm).toList = (call.read vm).map some := by
  cases call with
  | push text =>
      have hText := hTexts text (by simp [texts])
      have hLine : (line vm (.push text)).toList = vm.toList ++ '.' ::
          (("push".toList ++ '(' :: ' ' :: (text.toList ++ [' '])) ++ [')', ';']) := by
        simp [line]
      rw [hLine]
      refine Instruction.readLine_call hVm ?_
      rw [List.append_assoc, List.cons_append]
      exact Instruction.readBody_push hVm hText
  | calculate op =>
      have hLine : (line vm (.calculate op)).toList = vm.toList ++ '.' ::
          ((op.method.toList ++ ['(']) ++ [')', ';']) := by
        simp [line]
      rw [hLine]
      refine Instruction.readLine_call hVm ?_
      rw [List.append_assoc]
      have hMethod : '(' ∉ op.method.toList ∧ op.method ≠ "push" ∧
          Method.ofName? op.method = some (.calculate op) := by
        cases op <;> decide
      exact Instruction.readBody_method hVm hMethod.1 hMethod.2.1 hMethod.2.2
  | print =>
      have hLine : (line vm .print).toList = vm.toList ++ '.' ::
          (("print".toList ++ ['(']) ++ [')', ';']) := by
        simp [line]
      rw [hLine]
      refine Instruction.readLine_call hVm ?_
      rw [List.append_assoc]
      exact Instruction.readBody_method hVm (by decide) (by decide) (by decide)
  | bind target =>
      have hTarget := hTexts target (by simp [texts])
      have hLine : (line vm (.bind target)).toList = ("var ".toList ++
          (target.toList ++ ' ' :: '=' :: ' ' :: (vm ++ ".pop()").toList)) ++ [';'] := by
        simp [line]
      have hEnd : Text.EndsSolid ("var ".toList ++
          (target.toList ++ ' ' :: '=' :: ' ' :: (vm ++ ".pop()").toList)) :=
        ((Instruction.pop_endsSolid vm).prepend [' ', '=', ' ']).prepend target.toList
          |>.prepend "var ".toList
      have hRead : Instruction.readBody (some vm) ("var ".toList ++
          (target.toList ++ ' ' :: '=' :: ' ' :: (vm ++ ".pop()").toList)) =
            (Instruction.readVar? vm
              (target.toList ++ ' ' :: '=' :: ' ' :: (vm ++ ".pop()").toList)).map .ok := rfl
      rw [hLine, Instruction.readLine_body ⟨'v', rfl, by decide⟩ hEnd (by simp), hRead,
        Instruction.readVar?_eq hVm hTarget, ← hLine, String.ofList_toList, read]
      by_cases hSign : '=' ∈ target.toList
      · simp [hSign, Except.map]
      · simp [hSign, Except.map]

/-- The instructions that the lines of calls are read as. -/
def ReadAs (vm : String) : List Call → List Instruction → Prop :=
  List.Forall₂ fun call instruction => call.read vm = .ok instruction

theorem ReadAs.of_append {vm : String} {calls further : List Call}
    {instructions : List Instruction} (h : ReadAs vm (calls ++ further) instructions) :
    ∃ front back, instructions = front ++ back ∧ ReadAs vm calls front ∧
      ReadAs vm further back := by
  induction calls generalizing instructions with
  | nil => exact ⟨[], instructions, rfl, List.Forall₂.nil, h⟩
  | cons call calls ih =>
      cases h with
      | cons hCall hRest =>
          obtain ⟨front, back, rfl, hFront, hBack⟩ := ih hRest
          exact ⟨_ :: front, back, rfl, List.Forall₂.cons hCall hFront, hBack⟩

theorem ReadAs.of_singleton {vm : String} {call : Call} {instructions : List Instruction}
    (h : ReadAs vm [call] instructions) :
    ∃ instruction, instructions = [instruction] ∧ call.read vm = .ok instruction := by
  cases h with
  | cons hCall hRest =>
      cases hRest
      exact ⟨_, rfl, hCall⟩

/-! The instructions of a tree end with that of its root, behind those of the operands. -/

theorem ReadAs.of_value {vm text : String} {id : Nat} {tag : Tag} {kind : ValueKind}
    {instructions : List Instruction}
    (h : ReadAs vm ((Node.value id tag kind text).calls.map Prod.snd) instructions) :
    ∃ operand, instructions = [.push operand] ∧
      (Call.push text).read vm = .ok (.push operand) := by
  obtain ⟨instruction, rfl, hRead⟩ := of_singleton h
  obtain ⟨operand, _, rfl⟩ := exists_of_map_eq_ok hRead
  exact ⟨operand, rfl, hRead⟩

theorem ReadAs.of_binary {vm : String} {id : Nat} {tag : Tag} {op : Operator}
    {left right : Node} {instructions : List Instruction}
    (h : ReadAs vm ((Node.binary id tag op left right).calls.map Prod.snd) instructions) :
    ∃ front back, instructions = front ++ back ++ [.call (.calculate op)] ∧
      ReadAs vm (left.calls.map Prod.snd) front ∧
      ReadAs vm (right.calls.map Prod.snd) back := by
  rw [Node.calls, List.map_append, List.map_append] at h
  obtain ⟨operands, last, rfl, hOperands, hLast⟩ := h.of_append
  obtain ⟨front, back, rfl, hFront, hBack⟩ := hOperands.of_append
  obtain ⟨instruction, rfl, hInstruction⟩ := of_singleton hLast
  cases hInstruction
  exact ⟨front, back, rfl, hFront, hBack⟩

theorem ReadAs.of_assign {vm : String} {id : Nat} {tag : Tag} {target body : Node}
    {instructions : List Instruction}
    (h : ReadAs vm ((Node.assign id tag target body).calls.map Prod.snd) instructions) :
    ∃ front, instructions =
        front ++ [.bind (String.ofList (Text.trimEnd target.tag.name.toList))] ∧
      ReadAs vm (body.calls.map Prod.snd) front := by
  rw [Node.calls, List.map_append] at h
  obtain ⟨front, last, rfl, hFront, hLast⟩ := h.of_append
  obtain ⟨instruction, rfl, hInstruction⟩ := of_singleton hLast
  rw [read] at hInstruction
  by_cases hTarget : '=' ∈ target.tag.name.toList
  · rw [if_pos hTarget] at hInstruction
    cases hInstruction
  · rw [if_neg hTarget] at hInstruction
    cases hInstruction
    exact ⟨front, rfl, hFront⟩

theorem ReadAs.of_print {vm : String} {id : Nat} {tag : Tag} {operand : Node}
    {instructions : List Instruction}
    (h : ReadAs vm ((Node.print id tag operand).calls.map Prod.snd) instructions) :
    ∃ front, instructions = front ++ [.call .print] ∧
      ReadAs vm (operand.calls.map Prod.snd) front := by
  rw [Node.calls, List.map_append] at h
  obtain ⟨front, last, rfl, hFront, hLast⟩ := h.of_append
  obtain ⟨instruction, rfl, hInstruction⟩ := of_singleton hLast
  cases hInstruction
  exact ⟨front, rfl, hFront⟩

theorem line_toList (vm : String) (call : Call) :
    ∃ front, (call.line vm).toList = front ++ [';'] := by
  cases call with
  | push text => exact ⟨(vm ++ ".push( " ++ text ++ " )").toList, by simp [line]⟩
  | calculate op => exact ⟨(vm ++ "." ++ op.method ++ "()").toList, by simp [line]⟩
  | bind target => exact ⟨("var " ++ target ++ " = " ++ vm ++ ".pop()").toList, by simp [line]⟩
  | print => exact ⟨(vm ++ ".print()").toList, by simp [line]⟩

/-- No call gives the machine a name. -/
theorem read_ne_nameMachine {vm : String} {call : Call} {instruction : Instruction}
    (h : call.read vm = .ok instruction) (name : String) :
    instruction ≠ .nameMachine name := by
  rintro rfl
  cases call with
  | push text =>
      unfold read at h
      cases hOperand : Operand.read (Text.trimEnd text.toList) with
      | error cause => simp [hOperand, Except.map] at h
      | ok operand => simp [hOperand, Except.map] at h
  | calculate op => simp [read] at h
  | bind target =>
      simp only [read] at h
      split at h <;> cases h
  | print => simp [read] at h

end Call

/-! ## The lines of a preamble -/

theorem Text.occursIn_append (part cs ds : List Char) :
    occursIn part (cs ++ (part ++ ds)) = true := by
  induction cs with
  | nil =>
      cases hDs : part ++ ds with
      | nil =>
          rw [List.append_eq_nil_iff] at hDs
          simp [occursIn, hDs.1]
      | cons c rest => rw [List.nil_append, occursIn, ← hDs, dropStart?_append]; rfl
  | cons c cs ih => rw [List.cons_append, occursIn, ih, Bool.or_true]

theorem identifier_endsSolid {text : String} (h : isIdentifier text = true) :
    Text.EndsSolid text.toList := by
  obtain ⟨c, rest, hText, _⟩ := isIdentifier_iff.1 h
  have hNonempty : text.toList ≠ [] := by simp [hText]
  exact ⟨text.toList.getLast hNonempty, List.getLast?_eq_some_getLast hNonempty,
    not_isBlank_of_identifier (identifier_chars h _ (List.getLast_mem hNonempty))⟩

/-- The line that takes the machine from its module, up to the name of the module. -/
def Settings.importStart (s : Settings) : String :=
  "import \x7b " ++ s.runtimeClass ++ " \x7d from '"

theorem Settings.importLine_toList (s : Settings) :
    s.importLine.toList = s.importStart.toList ++ (s.runtimeModule.toList ++ ['\'', ';']) := by
  simp [importLine, importStart]

/-- The name of the module may be anything, also nothing, for an import to be read. -/
theorem Settings.readBody_import (s : Settings) (vm? : Option String) (rest : List Char) :
    Instruction.readBody vm? (s.importStart.toList ++ rest) = some (.ok .takeModule) := by
  have hStart : s.importStart.toList ++ rest = "import ".toList ++
      (("\x7b " ++ s.runtimeClass ++ " \x7d").toList ++ (" from ".toList ++ '\'' :: rest)) := by
    simp [importStart]
  unfold Instruction.readBody
  rw [hStart, Text.dropStart?_append]
  simp only [Instruction.readImport?, Text.occursIn_append, if_true, Option.map_some]

/-- A line that starts as an import does is one if it ends with a semicolon. -/
theorem Settings.readLine_importStart (s : Settings) (vm? : Option String) (rest : List Char) :
    Instruction.readLine vm? (s.importStart.toList ++ rest) =
      if (Text.trimEnd rest).getLast? = some ';' then .ok (some .takeModule)
      else .error (.unsupported (s.importStart ++ String.ofList (Text.trimEnd rest))) := by
  obtain ⟨front, hFront⟩ : ∃ front, ∀ cs,
      s.importStart.toList ++ cs = 'i' :: front ++ '\'' :: cs :=
    ⟨("mport \x7b " ++ s.runtimeClass ++ " \x7d from ").toList, by simp [importStart]⟩
  have hTrimEnd (cs : List Char) :
      Text.trimEnd (s.importStart.toList ++ cs) = s.importStart.toList ++ Text.trimEnd cs := by
    rw [hFront, hFront]
    exact Text.trimEnd_append_cons (by decide) ('i' :: front) cs
  have hTrim : Text.trim (s.importStart.toList ++ rest) =
      s.importStart.toList ++ Text.trimEnd rest := by
    have hSolid : Text.StartsSolid (s.importStart.toList ++ rest) := by
      rw [hFront]
      exact ⟨'i', rfl, by decide⟩
    rw [Text.trim, hSolid.trimStart_eq, hTrimEnd]
  have hStatement : ((s.importStart.toList ++ Text.trimEnd rest).isEmpty ||
      (Text.dropStart? "//".toList (s.importStart.toList ++ Text.trimEnd rest)).isSome) =
        false := by
    rw [hFront]
    rfl
  simp only [Instruction.readLine, hTrim, hStatement, Bool.false_eq_true, if_false]
  by_cases hEnd : (Text.trimEnd rest).getLast? = some ';'
  · obtain ⟨body, hBody⟩ := List.getLast?_eq_some_iff.1 hEnd
    rw [if_pos hEnd, hBody, ← List.append_assoc, Text.dropEnd?_append, Option.bind_some, hTrimEnd,
      readBody_import]
    rfl
  · have hNone : Text.dropEnd? [';'] (s.importStart.toList ++ Text.trimEnd rest) = none := by
      rw [Option.eq_none_iff_forall_ne_some]
      intro body hBody
      rw [Text.dropEnd?_eq_some_iff, hFront] at hBody
      have hLast := congrArg List.getLast? hBody
      rw [List.getLast?_concat, List.getLast?_append_cons] at hLast
      -- What stands behind the quote is empty, or ends as the line does.
      cases hRest : Text.trimEnd rest with
      | nil =>
          rw [hRest] at hLast
          cases hLast
      | cons c cs =>
          rw [hRest, List.getLast?_cons_cons, ← hRest] at hLast
          exact hEnd hLast
    rw [if_neg hEnd, hNone, Option.bind_none, String.ofList_append, String.ofList_toList]

theorem Settings.readLine_import (s : Settings) (vm? : Option String) :
    Instruction.readLine vm? s.importLine.toList = .ok (some .takeModule) := by
  have hEnd : Text.trimEnd (s.runtimeModule.toList ++ ['\'', ';']) =
      s.runtimeModule.toList ++ ['\'', ';'] :=
    Text.EndsSolid.trimEnd_eq (Text.EndsSolid.prepend ⟨';', rfl, by decide⟩ _)
  rw [importLine_toList, readLine_importStart, hEnd, if_pos (by simp)]

theorem Instruction.readLet?_eq {name : String} (hName : isIdentifier name = true)
    (object : String) :
    readLet? ((name.toList ++ [' ']) ++ '=' :: ' ' :: (("new " ++ object).toList ++ ['(', ')'])) =
      some (.nameMachine name) := by
  have hSign : '=' ∉ name.toList ++ [' '] := by
    have hNot : '=' ∉ name.toList := not_mem_identifier hName (by decide)
    simp [hNot]
  have hTrimmed : Text.trim (name.toList ++ [' ']) = name.toList := by
    rw [Text.trim_append_blank (by decide) (identifier_startsSolid hName),
      (identifier_endsSolid hName).trimEnd_eq]
  have hStart : Text.StartsSolid (("new " ++ object).toList ++ ['(', ')']) := by
    rw [String.toList_append]
    exact ⟨'n', rfl, by decide⟩
  have hEnd : Text.EndsSolid (("new " ++ object).toList ++ ['(', ')']) :=
    Text.EndsSolid.prepend ⟨')', rfl, by decide⟩ _
  have hNew : Text.dropStart? "new ".toList (("new " ++ object).toList ++ ['(', ')']) =
      some (object.toList ++ ['(', ')']) := by
    rw [String.toList_append, List.append_assoc, Text.dropStart?_append]
  have hBrackets : Text.dropEnd? "()".toList (("new " ++ object).toList ++ ['(', ')']) =
      some ("new " ++ object).toList :=
    Text.dropEnd?_append _ ['(', ')']
  unfold readLet?
  rw [Text.splitFirst?_append_sep hSign]
  simp only [Option.bind_eq_bind, Option.bind_some, Text.trim_cons_blank
    (show Text.isBlank ' ' = true by decide), Text.trim_eq_self hStart hEnd, hNew, hBrackets,
    hTrimmed, String.ofList_toList]
  rfl

theorem Settings.readLine_let {s : Settings} (hCheck : s.check = .ok ())
    (vm? : Option String) :
    Instruction.readLine vm? s.letLine.toList =
      .ok (some (.nameMachine s.runtimeInstance)) := by
  have hLet := Instruction.readLet?_eq (identifiers_of_check hCheck).2 s.runtimeClass
  have hLine : s.letLine.toList = ("let ".toList ++ ((s.runtimeInstance.toList ++ [' ']) ++
      '=' :: ' ' :: (("new " ++ s.runtimeClass).toList ++ ['(', ')']))) ++ [';'] := by
    simp [letLine]
  have hEnd : Text.EndsSolid ("let ".toList ++ ((s.runtimeInstance.toList ++ [' ']) ++
      '=' :: ' ' :: (("new " ++ s.runtimeClass).toList ++ ['(', ')']))) := by
    have hBrackets : Text.EndsSolid ('=' :: ' ' ::
        (("new " ++ s.runtimeClass).toList ++ ['(', ')'])) :=
      Text.EndsSolid.prepend ⟨')', rfl, by decide⟩ ('=' :: ' ' :: ("new " ++ _).toList)
    exact (hBrackets.prepend _).prepend _
  have hRead : Instruction.readBody vm? ("let ".toList ++
      ((s.runtimeInstance.toList ++ [' ']) ++ '=' :: ' ' ::
        (("new " ++ s.runtimeClass).toList ++ ['(', ')']))) =
          some (.ok (.nameMachine s.runtimeInstance)) :=
    congrArg (Option.map Except.ok) hLet
  rw [hLine, Instruction.readLine_body ⟨'l', rfl, by decide⟩ hEnd (by simp), hRead]
  rfl

/-! ## The lines of code -/

/-- A line that ends with a semicolon is cut off as it is. -/
theorem Text.lines_statement {cs front : List Char} (h : '\n' ∉ cs)
    (hEnd : cs = front ++ [';']) (ds : List Char) :
    lines (cs ++ '\n' :: ds) = cs :: lines ds := by
  rw [lines_append_newline h, hEnd, dropEnd?_eq_none (by decide) front]
  rfl

theorem Call.lines_code {vm : String} {calls : List Call}
    (h : ∀ call ∈ calls, '\n' ∉ (call.line vm).toList) (ds : List Char) :
    Text.lines ((code vm calls).toList ++ ds) =
      calls.map (fun call => (call.line vm).toList) ++ Text.lines ds := by
  induction calls with
  | nil => rfl
  | cons call calls ih =>
      obtain ⟨front, hFront⟩ := line_toList vm call
      have hCode : (code vm (call :: calls)).toList ++ ds =
          (call.line vm).toList ++ '\n' :: ((code vm calls).toList ++ ds) := by
        simp [code, String.join_cons]
      rw [hCode, Text.lines_statement (h call (by simp)) hFront,
        ih fun call' hCall => h call' (by simp [hCall])]
      rfl

/-- The comment that names the source map is a blank line and a comment. -/
theorem Emitter.lines_mapComment {file : String} (h : '\n' ∉ file.toList) :
    ∃ rest, Text.lines (mapComment file).toList = [[], '/' :: '/' :: rest] := by
  have hComment : (mapComment file).toList = [] ++ '\n' ::
      ('/' :: '/' :: ("# sourceMappingURL=" ++ file).toList ++ '\n' :: []) := by
    have hStart : "\n//# sourceMappingURL=" = "\n//" ++ "# sourceMappingURL=" := by decide
    show ("\n//# sourceMappingURL=" ++ file ++ "\n").toList = _
    rw [hStart, String.toList_append, String.append_assoc, String.toList_append]
    rfl
  have hLine : '\n' ∉ '/' :: '/' :: ("# sourceMappingURL=" ++ file).toList := by
    simp [h]
  rw [hComment]
  have hName : ("# sourceMappingURL=" ++ file).toList ≠ [] := by simp
  generalize ("# sourceMappingURL=" ++ file).toList = name at hLine hName ⊢
  rw [Text.lines_append_newline (by simp), Text.lines_append_newline hLine, Text.lines_nil]
  -- A carriage return at the end of the name belongs to the end of the line.
  cases hEnd : Text.dropEnd? ['\r'] ('/' :: '/' :: name) with
  | none => exact ⟨name, rfl⟩
  | some front =>
      rw [Text.dropEnd?_eq_some_iff] at hEnd
      match front, hEnd with
      | [], hEnd => simp at hEnd
      | [c], hEnd => simp [hName] at hEnd
      | c :: d :: rest, hEnd =>
          simp only [List.cons_append, List.cons.injEq] at hEnd
          obtain ⟨rfl, rfl, _⟩ := hEnd
          exact ⟨rest, rfl⟩

/-- The lines that take the machine from its module: one, unless the name of the module
has more. -/
def Settings.moduleLines (s : Settings) : List (List Char) :=
  Text.lines (s.importLine.toList ++ ['\n'])

theorem Settings.moduleLines_eq {s : Settings} (hCheck : s.check = .ok ())
    (hModule : '\n' ∉ s.runtimeModule.toList) : s.moduleLines = [s.importLine.toList] := by
  have hEnd : s.importLine.toList = ("import \x7b " ++ s.runtimeClass ++
      " \x7d from '" ++ s.runtimeModule ++ "'").toList ++ [';'] := by
    simp [importLine]
  exact Text.lines_statement (newline_not_mem_importLine hCheck hModule) hEnd []

theorem Settings.lines_preamble {s : Settings} (hCheck : s.check = .ok ())
    (ds : List Char) :
    Text.lines (s.preamble.toList ++ ds) =
      s.moduleLines ++ s.letLine.toList :: Text.lines ds := by
  have hEnd : s.letLine.toList = ("let " ++ s.runtimeInstance ++ " = new " ++
      s.runtimeClass ++ "()").toList ++ [';'] := by
    simp [letLine]
  rw [preamble_toList, List.append_assoc, List.cons_append, List.append_assoc,
    List.singleton_append, Text.lines_append_cons,
    Text.lines_statement (newline_not_mem_letLine hCheck) hEnd]
  rfl

/-! ## Programs -/

/-- The name that the machine has behind an instruction. -/
def Instruction.nameFor (vm? : Option String) : Instruction → Option String
  | .nameMachine name => some name
  | _ => vm?

namespace Program

/-- The name that the machine has behind a program. -/
def nameAfter (vm? : Option String) (program : Program) : Option String :=
  program.foldl (fun vm? placed => placed.instruction.nameFor vm?) vm?

/-- Instructions on consecutive lines. -/
def placedFrom (line : Nat) : List Instruction → Program
  | [] => []
  | instruction :: instructions => ⟨line, instruction⟩ :: placedFrom (line + 1) instructions

theorem map_instruction_placedFrom (line : Nat) (instructions : List Instruction) :
    (placedFrom line instructions).map PlacedInstruction.instruction = instructions := by
  induction instructions generalizing line with
  | nil => rfl
  | cons instruction instructions ih => rw [placedFrom, List.map_cons, ih]

theorem readLines_instruction {vm? : Option String} {text : List Char}
    {instruction : Instruction}
    (hRead : Instruction.readLine vm? text = .ok (some instruction)) (line : Nat)
    (texts : List (List Char)) :
    readLines line vm? (text :: texts) =
      (readLines (line + 1) (instruction.nameFor vm?) texts).map
        (⟨line, instruction⟩ :: ·) := by
  rw [readLines, hRead]
  cases instruction <;> rfl

theorem readLines_cons {vm? : Option String} {text : List Char} {instruction : Instruction}
    (hRead : Instruction.readLine vm? text = .ok (some instruction))
    (hName : ∀ name, instruction ≠ .nameMachine name) (line : Nat)
    (texts : List (List Char)) :
    readLines line vm? (text :: texts) =
      (readLines (line + 1) vm? texts).map (⟨line, instruction⟩ :: ·) := by
  rw [readLines_instruction hRead]
  cases instruction with
  | nameMachine name => exact absurd rfl (hName name)
  | _ => rfl

end Program

namespace Call

/-- The program of calls that are read one after the other, the first of them on the
given line. -/
def readFrom (vm : String) (line : Nat) : List Call → Except RunFault Program
  | [] => .ok []
  | call :: calls =>
    match call.read vm with
    | .error cause => .error ⟨line, cause⟩
    | .ok instruction => (readFrom vm (line + 1) calls).map (⟨line, instruction⟩ :: ·)

theorem readFrom_eq_ok_iff {vm : String} {line : Nat} {calls : List Call}
    {program : Program} :
    readFrom vm line calls = .ok program ↔
      ∃ instructions, ReadAs vm calls instructions ∧
        program = Program.placedFrom line instructions := by
  induction calls generalizing line program with
  | nil =>
      rw [readFrom, Except.ok.injEq]
      constructor
      · rintro rfl
        exact ⟨[], List.Forall₂.nil, rfl⟩
      · rintro ⟨instructions, hRead, rfl⟩
        cases hRead
        rfl
  | cons call calls ih =>
      rw [readFrom]
      constructor
      · intro h
        cases hRead : call.read vm with
        | error cause => rw [hRead] at h; cases h
        | ok instruction =>
            rw [hRead] at h
            cases hRest : readFrom vm (line + 1) calls with
            | error fault => rw [hRest] at h; cases h
            | ok rest =>
                rw [hRest] at h
                obtain ⟨instructions, hAll, rfl⟩ := ih.1 hRest
                exact ⟨instruction :: instructions, List.Forall₂.cons hRead hAll,
                  (Except.ok.inj h).symm⟩
      · rintro ⟨_, hAll, rfl⟩
        cases hAll with
        | cons hHead hRest =>
            rw [hHead, ih.2 ⟨_, hRest, rfl⟩]
            rfl

theorem map_readFrom_eq_ok_iff {vm : String} {line : Nat} {calls : List Call}
    {f : Program → Program} {program : Program} :
    (readFrom vm line calls).map f = .ok program ↔
      ∃ instructions, ReadAs vm calls instructions ∧
        program = f (Program.placedFrom line instructions) := by
  constructor
  · intro h
    obtain ⟨placed, hRead, rfl⟩ := exists_of_map_eq_ok h
    obtain ⟨instructions, hAll, rfl⟩ := readFrom_eq_ok_iff.1 hRead
    exact ⟨instructions, hAll, rfl⟩
  · rintro ⟨instructions, hAll, rfl⟩
    rw [readFrom_eq_ok_iff.2 ⟨instructions, hAll, rfl⟩]
    rfl

/-- The first call that is not read stops the reading, on its own line. -/
theorem readFrom_eq_error {vm : String} {line : Nat} {calls : List Call}
    {fault : RunFault} (h : readFrom vm line calls = .error fault) :
    ∃ i call, calls[i]? = some call ∧ fault.line = line + i ∧
      call.read vm = .error fault.cause := by
  induction calls generalizing line with
  | nil => cases h
  | cons call calls ih =>
      rw [readFrom] at h
      cases hRead : call.read vm with
      | error cause =>
          rw [hRead] at h
          cases h
          exact ⟨0, call, rfl, rfl, hRead⟩
      | ok instruction =>
          rw [hRead] at h
          cases hRest : readFrom vm (line + 1) calls with
          | ok rest => rw [hRest] at h; cases h
          | error fault' =>
              rw [hRest] at h
              cases h
              obtain ⟨i, call', hCall, hLine, hCause⟩ := ih hRest
              exact ⟨i + 1, call', hCall, by omega, hCause⟩

end Call

namespace Program

/-- Lines are read one part after the other.  The first part may name the machine. -/
theorem readLines_append (line : Nat) (vm? : Option String) (texts tail : List (List Char)) :
    readLines line vm? (texts ++ tail) =
      (readLines line vm? texts).bind fun front =>
        (readLines (line + texts.length) (nameAfter vm? front) tail).map (front ++ ·) := by
  induction texts generalizing line vm? with
  | nil =>
      show readLines line vm? tail = (readLines line vm? tail).map fun program => [] ++ program
      cases readLines line vm? tail <;> rfl
  | cons text texts ih =>
      rw [List.cons_append, List.length_cons,
        show line + (texts.length + 1) = line + 1 + texts.length by omega]
      cases hRead : Instruction.readLine vm? text with
      | error cause =>
          rw [readLines, readLines, hRead]
          rfl
      | ok instruction? =>
          cases instruction? with
          | none =>
              rw [readLines, readLines, hRead]
              exact ih (line + 1) vm?
          | some instruction =>
              rw [readLines_instruction hRead, readLines_instruction hRead, ih]
              cases readLines (line + 1) (instruction.nameFor vm?) texts with
              | error fault => rfl
              | ok front =>
                  have hName : nameAfter vm? (⟨line, instruction⟩ :: front) =
                      nameAfter (instruction.nameFor vm?) front := rfl
                  simp only [Except.bind, Except.map, hName]
                  cases readLines (line + 1 + texts.length)
                    (nameAfter (instruction.nameFor vm?) front) tail <;> rfl

/-- Lines of calls are read call by call, and then the lines behind them. -/
theorem readLines_calls {vm : String} (hVm : isIdentifier vm = true) {calls : List Call}
    (hTexts : ∀ call ∈ calls, ∀ text ∈ call.texts, Text.StartsSolid text.toList)
    (line : Nat) (tail : List (List Char)) :
    readLines line (some vm) (calls.map (fun call => (call.line vm).toList) ++ tail) =
      (Call.readFrom vm line calls).bind fun program =>
        (readLines (line + calls.length) (some vm) tail).map (program ++ ·) := by
  induction calls generalizing line with
  | nil =>
      show readLines line (some vm) tail =
        (readLines line (some vm) tail).map fun program => [] ++ program
      cases readLines line (some vm) tail <;> rfl
  | cons call calls ih =>
      have hCall := Call.readLine_line hVm (hTexts call (by simp))
      have hRest := fun call' hCall' => hTexts call' (List.mem_cons_of_mem call hCall')
      rw [List.map_cons, List.cons_append, Call.readFrom]
      cases hRead : call.read vm with
      | error cause =>
          rw [hRead] at hCall
          rw [readLines, hCall]
          rfl
      | ok instruction =>
          rw [hRead] at hCall
          rw [readLines_cons hCall (Call.read_ne_nameMachine hRead), ih hRest,
            List.length_cons, show line + 1 + calls.length = line + (calls.length + 1) by omega]
          cases Call.readFrom vm (line + 1) calls with
          | error fault => rfl
          | ok program =>
              cases readLines (line + (calls.length + 1)) (some vm) tail <;> rfl

/-- The lines of code: those of the preamble, one for each call, and those of the
comment. -/
theorem lines_code {s : Settings} (hCheck : s.check = .ok ()) (file : String)
    {calls : List Call}
    (hLines : ∀ call ∈ calls, '\n' ∉ (call.line s.runtimeInstance).toList) :
    Text.lines (s.preamble ++ Call.code s.runtimeInstance calls ++
        Emitter.mapComment file).toList =
      s.moduleLines ++ s.letLine.toList ::
        (calls.map (fun call => (call.line s.runtimeInstance).toList) ++
          Text.lines (Emitter.mapComment file).toList) := by
  rw [String.toList_append, String.toList_append, List.append_assoc,
    Settings.lines_preamble hCheck, Call.lines_code hLines]

/-- Code is read call by call, whatever the lines of the module and of the comment are
read as: the machine gets its name right in front of the first call. -/
theorem read_code_parts {s : Settings} (hCheck : s.check = .ok ()) (file : String)
    {calls : List Call}
    (hLines : ∀ call ∈ calls, '\n' ∉ (call.line s.runtimeInstance).toList)
    (hTexts : ∀ call ∈ calls, ∀ text ∈ call.texts, Text.StartsSolid text.toList) :
    read (s.preamble ++ Call.code s.runtimeInstance calls ++ Emitter.mapComment file) =
      (readLines 1 none s.moduleLines).bind fun front =>
        (Call.readFrom s.runtimeInstance (s.moduleLines.length + 2) calls).bind fun program =>
          (readLines (s.moduleLines.length + 2 + calls.length) (some s.runtimeInstance)
            (Text.lines (Emitter.mapComment file).toList)).map fun back =>
              front ++ ⟨s.moduleLines.length + 1, .nameMachine s.runtimeInstance⟩ ::
                (program ++ back) := by
  rw [read, lines_code hCheck file hLines, readLines_append]
  congr 1
  funext front
  rw [readLines, Settings.readLine_let hCheck]
  simp only [readLines_calls (Settings.identifiers_of_check hCheck).2 hTexts,
    show 1 + s.moduleLines.length = s.moduleLines.length + 1 by omega]
  cases Call.readFrom s.runtimeInstance (s.moduleLines.length + 2) calls with
  | error fault => rfl
  | ok program =>
      cases readLines (s.moduleLines.length + 2 + calls.length) (some s.runtimeInstance)
        (Text.lines (Emitter.mapComment file).toList) <;> rfl

/-- A comment on one line is skipped. -/
theorem readLines_mapComment {file : String} (h : '\n' ∉ file.toList) (line : Nat)
    (vm? : Option String) :
    readLines line vm? (Text.lines (Emitter.mapComment file).toList) = .ok [] := by
  obtain ⟨rest, hComment⟩ := Emitter.lines_mapComment h
  rw [hComment, readLines, show Instruction.readLine vm? [] = .ok none from rfl]
  simp only [readLines, Instruction.readLine_comment]

/-- The lines of a module that is named on one line are one instruction. -/
theorem readLines_moduleLines {s : Settings} (hCheck : s.check = .ok ())
    (hModule : '\n' ∉ s.runtimeModule.toList) :
    readLines 1 none s.moduleLines = .ok [⟨1, .takeModule⟩] := by
  rw [Settings.moduleLines_eq hCheck hModule,
    readLines_cons (s.readLine_import none) (fun name hName => by cases hName)]
  rfl

/-- Code is read call by call, behind the two instructions of the preamble and from the
third line on. -/
theorem read_code_eq {s : Settings} (hCheck : s.check = .ok ())
    (hModule : '\n' ∉ s.runtimeModule.toList) {file : String} (hFile : '\n' ∉ file.toList)
    {calls : List Call} (hLines : ∀ call ∈ calls, '\n' ∉ (call.line s.runtimeInstance).toList)
    (hTexts : ∀ call ∈ calls, ∀ text ∈ call.texts, Text.StartsSolid text.toList) :
    read (s.preamble ++ Call.code s.runtimeInstance calls ++ Emitter.mapComment file) =
      (Call.readFrom s.runtimeInstance 3 calls).map fun program =>
        ⟨1, .takeModule⟩ :: ⟨2, .nameMachine s.runtimeInstance⟩ :: program := by
  rw [read_code_parts hCheck file hLines hTexts, readLines_moduleLines hCheck hModule,
    Settings.moduleLines_eq hCheck hModule]
  simp only [readLines_mapComment hFile, Except.bind, Except.map, List.append_nil]
  cases Call.readFrom s.runtimeInstance 3 calls <;> rfl

/-- Code is read as a program when all its calls are read: behind the two instructions
of the preamble, each call stands on a line of its own from the third line on. -/
theorem read_code {s : Settings} (hCheck : s.check = .ok ())
    (hModule : '\n' ∉ s.runtimeModule.toList) {file : String} (hFile : '\n' ∉ file.toList)
    {calls : List Call} (hLines : ∀ call ∈ calls, '\n' ∉ (call.line s.runtimeInstance).toList)
    (hTexts : ∀ call ∈ calls, ∀ text ∈ call.texts, Text.StartsSolid text.toList)
    {program : Program} :
    read (s.preamble ++ Call.code s.runtimeInstance calls ++ Emitter.mapComment file) =
        .ok program ↔
      ∃ instructions, Call.ReadAs s.runtimeInstance calls instructions ∧
        program = ⟨1, .takeModule⟩ :: ⟨2, .nameMachine s.runtimeInstance⟩ ::
          placedFrom 3 instructions := by
  rw [read_code_eq hCheck hModule hFile hLines hTexts, Call.map_readFrom_eq_ok_iff]

end Program

end ReversePolish
