import ReversePolish.Proofs.CallReading
import ReversePolish.Proofs.Execution

/-!
# Compiled code means what its source means

The trees of a source have a meaning without code and machine: they are evaluated from
left to right, statement by statement, over the bindings of the variables
(`Forest.evaluate`).  Running the compiled code comes to the same end.

The stack is the only thing that the evaluator knows nothing of.  The invariant is that
the calls of a tree, run in any session, leave one value more on the stack and change
nothing below it, so that what earlier statements left there does not matter.  When the
evaluator fails, the run fails at the same place and for the same cause.

The executor reads literals and names without the blanks at their end.  The evaluator
takes the way in which a text is read as a parameter, because without that it would be
a different one (`evaluate_untrimmed_differs`).

## Main results

* `Node.follow_calls` — the calls of a tree leave the tree's value on the stack.
* `follow_roots` — the calls of statements lead to the evaluator's end.
* `execute_eq_evaluate` — running compiled code is evaluating its source.
-/

namespace ReversePolish

/-! ## The evaluator -/

/-- The value of a tree and the lines displayed on the way.  An assignment that is an
operand has the value of its body; sources with such assignments are left out below. -/
def Node.evaluate (view : String → String) (env : Bindings) :
    Node → Except RunCause (Float × List String)
  | .value _ _ .number text =>
    match Decimal.readDecimal (view text).toList with
    | .ok x => .ok (x, [])
    | .error _ => .error (.invalidLiteral (view text))
  | .value _ _ .variable text =>
    match env.find? (view text) with
    | some x => .ok (x, [])
    | none => .error (.unbound (view text))
  | .binary _ _ op left right => do
    let (x, shown) ← left.evaluate view env
    let (y, more) ← right.evaluate view env
    let z ← (op.apply x y).mapError .machine
    .ok (z, shown ++ more)
  | .assign _ _ _ body => body.evaluate view env
  | .print _ _ operand => do
    let (x, shown) ← operand.evaluate view env
    let whole ← (Machine.integral x).mapError .machine
    .ok (whole, shown ++ [Number.displayed.text whole])

/-- How far the evaluation of a source has come: the variables, the lines displayed and
the values of the statements that assign nothing. -/
structure Ledger where
  bindings : Bindings
  shown : List String
  values : List Float

/-- The text of a leaf. -/
def Node.word : Node → String
  | .value _ _ _ text => text
  | _ => ""

/-- Evaluates a statement. -/
def Node.settle (view : String → String) (ledger : Ledger) (root : Node) :
    Except RunCause Ledger := do
  let (x, shown) ← root.evaluate view ledger.bindings
  match root with
  | .assign _ _ target _ =>
    .ok ⟨ledger.bindings.insert (view target.word) x, ledger.shown ++ shown, ledger.values⟩
  | _ => .ok ⟨ledger.bindings, ledger.shown ++ shown, ledger.values ++ [x]⟩

/-- Evaluates all statements of a forest. -/
def Forest.evaluate (view : String → String) (f : Forest) (env : Bindings) :
    Except RunCause Ledger :=
  f.statements.toList.foldlM (Node.settle view) ⟨env, [], []⟩

/-- A text without the blanks at its end, as the executor reads it. -/
def Text.endTrimmed (text : String) : String :=
  String.ofList (trimEnd text.toList)

/-! ## Trees as they are parsed -/

def Node.isAssign : Node → Bool
  | .assign _ _ _ _ => true
  | _ => false

/-- Assignments are statements, and no operands. -/
def Node.AssignsAtRoot (root : Node) : Prop :=
  ∀ n ∈ root.subnodes, ∀ operand ∈ n.operands, operand.isAssign = false

instance (root : Node) : Decidable root.AssignsAtRoot :=
  inferInstanceAs (Decidable (∀ n ∈ root.subnodes, ∀ operand ∈ n.operands, _))

/-- A tree without assignments. -/
def Node.Plain : Node → Prop
  | .value _ _ _ _ => True
  | .binary _ _ _ left right => left.Plain ∧ right.Plain
  | .assign _ _ _ _ => False
  | .print _ _ operand => operand.Plain

/-- A tree whose leaves are of the kind that their texts say, and whose targets are
called as they are tagged. -/
def Node.Spelled : Node → Prop
  | .value _ _ kind text => valueKind? text = some kind
  | .binary _ _ _ left right => left.Spelled ∧ right.Spelled
  | .assign _ _ target body => target.tag.name = target.word ∧ body.Spelled
  | .print _ _ operand => operand.Spelled

theorem Node.AssignsAtRoot.plain {n : Node} (h : n.AssignsAtRoot)
    (hNot : n.isAssign = false) : n.Plain := by
  induction n with
  | value id tag kind text => trivial
  | binary id tag op left right ihLeft ihRight =>
      refine ⟨ihLeft ?_ ?_, ihRight ?_ ?_⟩
      · exact fun m hm => h m (by simp [subnodes, hm])
      · exact h (.binary id tag op left right) (by simp [subnodes]) left (by simp [operands])
      · exact fun m hm => h m (by simp [subnodes, hm])
      · exact h (.binary id tag op left right) (by simp [subnodes]) right (by simp [operands])
  | assign id tag target body => cases hNot
  | print id tag operand ih =>
      refine ih ?_ ?_
      · exact fun m hm => h m (by simp [subnodes, hm])
      · exact h (.print id tag operand) (by simp [subnodes]) operand (by simp [operands])

theorem Node.AssignsAtRoot.body_plain {id : Nat} {tag : Tag} {target body : Node}
    (h : (Node.assign id tag target body).AssignsAtRoot) : body.Plain := by
  refine plain ?_ ?_
  · exact fun m hm => h m (by simp [subnodes, hm])
  · exact h (.assign id tag target body) (by simp [subnodes]) body (by simp [operands])

theorem Sentence.node_spelled (σ : Sentence) (id : Nat) : (σ.node id).Spelled := by
  have hValue (v : ValueTerm) (id : Nat) : (v.node id).Spelled := v.isValue
  induction σ using Sentence.induction generalizing id with
  | alone last print? isPrint =>
      cases print? with
      | none => exact hValue last id
      | some t => exact hValue last id
  | joined j σ ih =>
      rw [node_within]
      unfold Joint.node
      cases j.sign.op? with
      | none => exact ⟨rfl, ih (id + 1)⟩
      | some op => exact ⟨hValue j.left id, ih (id + 1)⟩

theorem Sentence.roots_spelled (id : Nat) (σs : List Sentence) :
    ∀ root ∈ roots id σs, root.Spelled := by
  intro root hRoot
  obtain ⟨σ, _, first, rfl⟩ := exists_of_mem_roots hRoot
  exact σ.node_spelled first

/-! ## Values -/

/-- Trimming the end of a value leaves its first character. -/
theorem value_trimEnd {text : String} {kind : ValueKind} (h : valueKind? text = some kind) :
    ∃ c rest, Text.trimEnd text.toList = c :: rest ∧
      (kind = .number ∧ c.isDigit = true ∨
        kind = .variable ∧ c.isDigit = false ∧ c.isAlpha = true) := by
  obtain ⟨c, rest, hText, hFirst⟩ := value_head h
  obtain ⟨d, hHead, hSolid⟩ := value_startsSolid h
  rw [hText, List.head?_cons, Option.some.injEq] at hHead
  refine ⟨c, Text.trimEnd rest, ?_, hFirst⟩
  rw [hText]
  exact Text.trimEnd_append_cons (hHead ▸ hSolid) [] rest

theorem Operand.read_number {text : String} (h : valueKind? text = some .number) :
    Operand.read (Text.trimEnd text.toList) =
      match Decimal.readDecimal (Text.endTrimmed text).toList with
      | .ok value => .ok (.number value)
      | .error _ => .error (.invalidLiteral (Text.endTrimmed text)) := by
  obtain ⟨c, rest, hText, ⟨_, hDigit⟩ | ⟨hKind, _⟩⟩ := value_trimEnd h
  · rw [Text.endTrimmed, String.toList_ofList, hText]
    cases hValue : Decimal.readDecimal (c :: rest) <;>
      simp only [Operand.read, hDigit, if_true, hValue]
  · cases hKind

theorem Operand.read_variable {text : String} (h : valueKind? text = some .variable) :
    Operand.read (Text.trimEnd text.toList) = .ok (.reference (Text.endTrimmed text)) := by
  obtain ⟨c, rest, hText, ⟨hKind, _⟩ | ⟨_, hDigit, hAlpha⟩⟩ := value_trimEnd h
  · cases hKind
  · rw [Text.endTrimmed, hText]
    simp [Operand.read, hDigit, isIdentifierStart, hAlpha]

/-! ## Trees -/

/-- The calls of a tree push its value, or fail as its evaluation does. -/
def Computes (s : Session) (answer : Except RunCause (Float × List String))
    (o : Outcome) : Prop :=
  o.Satisfies (fun cause => answer = .error cause) fun shown left =>
    ∃ value, answer = .ok (value, shown) ∧ s.Restacked (value :: s.machine.stack) left

theorem Computes.value {vm text : String} {kind : ValueKind} (id : Nat) (tag : Tag)
    (hKind : valueKind? text = some kind) {instruction : Instruction}
    (hRead : (Call.push text).read vm = .ok instruction) (s : Session) :
    Computes s ((Node.value id tag kind text).evaluate Text.endTrimmed s.bindings)
      (s.advance instruction) := by
  cases hOperand : Operand.read (Text.trimEnd text.toList) with
  | error cause =>
      simp only [Call.read, hOperand, Except.map] at hRead
      cases hRead
  | ok operand =>
      simp only [Call.read, hOperand, Except.map, Except.ok.injEq] at hRead
      subst hRead
      rcases kind with _ | _
      · rw [Operand.read_number hKind] at hOperand
        cases hValue : Decimal.readDecimal (Text.endTrimmed text).toList with
        | error fault =>
            rw [hValue] at hOperand
            cases hOperand
        | ok value =>
            rw [hValue] at hOperand
            cases hOperand
            refine (s.advance_push_number value).imp (fun _ => False.elim) ?_
            rintro shown left ⟨rfl, hLeft⟩
            exact ⟨value, by simp only [Node.evaluate, hValue], hLeft⟩
      · rw [Operand.read_variable hKind] at hOperand
        cases hOperand
        refine (s.advance_push_reference _).imp ?_ ?_
        · rintro cause ⟨hNone, rfl⟩
          simp only [Node.evaluate, hNone]
        · rintro shown left ⟨value, hSome, rfl, hLeft⟩
          exact ⟨value, by simp only [Node.evaluate, hSome], hLeft⟩

theorem Node.follow_calls {vm : String} {n : Node} (hPlain : n.Plain) (hSpelled : n.Spelled)
    {instructions : List Instruction}
    (hRead : Call.ReadAs vm (n.calls.map Prod.snd) instructions) {s : Session}
    (hPeek : s.machine.printMode = .peek) :
    Computes s (n.evaluate Text.endTrimmed s.bindings) (s.follow instructions) := by
  induction n generalizing s instructions with
  | value id tag kind text =>
      obtain ⟨operand, rfl, hOperand⟩ := hRead.of_value
      rw [Session.follow_singleton]
      exact Computes.value id tag hSpelled hOperand s
  | binary id tag op left right ihLeft ihRight =>
      obtain ⟨front, back, rfl, hFront, hBack⟩ := hRead.of_binary
      rw [Session.follow_append, Session.follow_append, Outcome.andThen_assoc]
      -- First the left operand, then the right one on top of it, then the operation.
      refine Outcome.Satisfies.andThen
        ((ihLeft hPlain.1 hSpelled.1 hFront hPeek).imp ?_ fun _ _ h => h) ?_
      · intro cause hCause
        simp only [evaluate, hCause, bind, Except.bind]
      rintro shown s₁ ⟨x, hx, hs₁⟩
      have hPeek₁ : s₁.machine.printMode = .peek := by rw [hs₁.machine, hPeek]
      refine Outcome.Satisfies.andThen
        ((ihRight hPlain.2 hSpelled.2 hBack hPeek₁).imp ?_ fun _ _ h => h) ?_
      · intro cause hCause
        rw [hs₁.bindings] at hCause
        simp only [evaluate, hx, hCause, bind, Except.bind]
      rintro more s₂ ⟨y, hy, hs₂⟩
      rw [hs₁.bindings] at hy
      have hStack : s₂.machine.stack = y :: x :: s.machine.stack := by
        rw [hs₂.machine, hs₁.machine]
      rw [Session.follow_singleton]
      refine (Session.advance_calculate hStack op).imp ?_ ?_
      · rintro cause ⟨fault, hFault, rfl⟩
        simp only [evaluate, hx, hy, hFault, bind, Except.bind, Except.mapError]
      · rintro rest last ⟨z, hz, rfl, hLast⟩
        refine ⟨z, ?_, (hs₁.trans hs₂).trans hLast⟩
        simp only [evaluate, hx, hy, hz, bind, Except.bind, Except.mapError, List.append_nil]
  | assign id tag target body => exact hPlain.elim
  | print id tag operand ih =>
      obtain ⟨front, rfl, hFront⟩ := hRead.of_print
      rw [Session.follow_append]
      refine Outcome.Satisfies.andThen
        ((ih hPlain hSpelled hFront hPeek).imp ?_ fun _ _ h => h) ?_
      · intro cause hCause
        simp only [evaluate, hCause, bind, Except.bind]
      rintro shown s₁ ⟨x, hx, hs₁⟩
      have hPeek₁ : s₁.machine.printMode = .peek := by rw [hs₁.machine, hPeek]
      have hStack : s₁.machine.stack = x :: s.machine.stack := by rw [hs₁.machine]
      rw [Session.follow_singleton]
      refine (Session.advance_print hPeek₁ hStack).imp ?_ ?_
      · rintro cause ⟨fault, hFault, rfl⟩
        simp only [evaluate, hx, hFault, bind, Except.bind, Except.mapError]
      · rintro line left ⟨hWhole, rfl, hLeft⟩
        refine ⟨x, ?_, hs₁.trans hLeft⟩
        simp only [evaluate, hx, hWhole, bind, Except.bind, Except.mapError]

/-! ## Statements -/

/-- The calls of a statement lead from a ledger to the next one. -/
theorem Node.follow_root {vm : String} {root : Node} (hAssign : root.AssignsAtRoot)
    (hSpelled : root.Spelled) {instructions : List Instruction}
    (hRead : Call.ReadAs vm (root.calls.map Prod.snd) instructions) {s : Session}
    (hPeek : s.machine.printMode = .peek) {ledger : Ledger}
    (hBindings : s.bindings = ledger.bindings) (hValues : s.stack = ledger.values) :
    (s.follow instructions).Satisfies
      (fun cause => root.settle Text.endTrimmed ledger = .error cause)
      fun shown left => root.settle Text.endTrimmed ledger =
          .ok ⟨left.bindings, ledger.shown ++ shown, left.stack⟩ ∧
        left.machine.printMode = .peek := by
  by_cases hRoot : root.isAssign = true
  · cases root with
    | assign id tag target body =>
        obtain ⟨front, rfl, hFront⟩ := hRead.of_assign
        obtain ⟨hTarget, hBody⟩ := hSpelled
        rw [Session.follow_append]
        refine Outcome.Satisfies.andThen
          ((follow_calls hAssign.body_plain hBody hFront hPeek).imp ?_ fun _ _ h => h) ?_
        · intro cause hCause
          rw [hBindings] at hCause
          simp only [settle, evaluate, hCause, bind, Except.bind]
        rintro shown s₁ ⟨x, hx, hs₁⟩
        rw [hBindings] at hx
        have hStack : s₁.machine.stack = x :: s.machine.stack := by rw [hs₁.machine]
        rw [Session.follow_singleton, hTarget]
        refine (Session.advance_bind hStack _).imp (fun _ => False.elim) ?_
        rintro rest left ⟨rfl, hMachine, hLeft⟩
        constructor
        · simp only [settle, evaluate, hx, bind, Except.bind, List.append_nil, hLeft,
            hs₁.bindings, hBindings, Session.stack, hMachine]
          rw [← hValues]
          rfl
        · rw [hMachine, hs₁.machine, hPeek]
    | value id tag kind text => cases hRoot
    | binary id tag op left right => cases hRoot
    | print id tag operand => cases hRoot
  · have hPlain := hAssign.plain (Bool.eq_false_iff.2 hRoot)
    have hSettle : root.settle Text.endTrimmed ledger =
        (root.evaluate Text.endTrimmed ledger.bindings).map fun (x, shown) =>
          ⟨ledger.bindings, ledger.shown ++ shown, ledger.values ++ [x]⟩ := by
      unfold settle
      cases root with
      | assign id tag target body => exact absurd rfl hRoot
      | value id tag kind text => rfl
      | binary id tag op left right => rfl
      | print id tag operand => rfl
    rw [hSettle, ← hBindings]
    refine (follow_calls hPlain hSpelled hRead hPeek).imp ?_ ?_
    · intro cause hCause
      rw [hCause]
      rfl
    · rintro shown left ⟨x, hx, hLeft⟩
      constructor
      · rw [hx, hLeft.bindings, ← hValues, Session.stack, Session.stack, hLeft.machine]
        simp [Except.map]
      · rw [hLeft.machine, hPeek]

/-- The calls of statements lead to the evaluator's end. -/
theorem follow_roots {vm : String} {roots : List Node}
    (hAssign : ∀ root ∈ roots, root.AssignsAtRoot) (hSpelled : ∀ root ∈ roots, root.Spelled)
    {instructions : List Instruction}
    (hRead : Call.ReadAs vm ((roots.flatMap Node.calls).map Prod.snd) instructions)
    {s : Session} (hPeek : s.machine.printMode = .peek) {ledger : Ledger}
    (hBindings : s.bindings = ledger.bindings) (hValues : s.stack = ledger.values) :
    (s.follow instructions).Satisfies
      (fun cause => roots.foldlM (Node.settle Text.endTrimmed) ledger = .error cause)
      fun shown left => roots.foldlM (Node.settle Text.endTrimmed) ledger =
        .ok ⟨left.bindings, ledger.shown ++ shown, left.stack⟩ := by
  induction roots generalizing s ledger instructions with
  | nil =>
      cases hRead
      show _ = Except.ok (Ledger.mk s.bindings (ledger.shown ++ []) s.stack)
      rw [hBindings, hValues, List.append_nil]
      rfl
  | cons root roots ih =>
      rw [List.forall_mem_cons] at hAssign hSpelled
      rw [List.flatMap_cons, List.map_append] at hRead
      obtain ⟨front, back, rfl, hFront, hBack⟩ := Call.ReadAs.of_append hRead
      rw [Session.follow_append]
      refine Outcome.Satisfies.andThen
        ((Node.follow_root hAssign.1 hSpelled.1 hFront hPeek hBindings hValues).imp ?_
          fun _ _ h => h) ?_
      · intro cause hCause
        rw [List.foldlM_cons, hCause]
        rfl
      rintro shown left ⟨hSettle, hPeek'⟩
      rw [List.foldlM_cons, hSettle]
      refine (ih hAssign.2 hSpelled.2 hBack hPeek' rfl rfl).imp (fun _ h => h) ?_
      intro more last hLast
      rw [← List.append_assoc]
      exact hLast

/-! ## Compiled code -/

/-- The bindings of a list of variables, bound in order. -/
def Bindings.ofList (pairs : List (String × Float)) : Bindings :=
  pairs.foldl (fun env (name, value) => env.insert name value) .empty

theorem Session.bindAll_eq (s : Session) (pairs : List (String × Float)) :
    (s.bindAll pairs).machine = s.machine ∧
      (s.bindAll pairs).bindings =
        pairs.foldl (fun env (name, value) => env.insert name value) s.bindings := by
  unfold bindAll
  induction pairs generalizing s with
  | nil => exact ⟨rfl, rfl⟩
  | cons pair pairs ih => exact ih (s.bind pair.1 pair.2)

/-- What a run comes to: the variables, the lines displayed and the stack, or else the
cause of its fault. -/
def Run.ledger (r : Run) : Except RunCause Ledger :=
  match r.fault with
  | none => .ok ⟨r.session.bindings, r.lines, r.session.stack⟩
  | some fault => .error fault.cause

/-- The texts in the calls of a source start with a letter or a digit. -/
theorem Forest.texts_startSolid (σs : List Sentence) :
    ∀ call ∈ (Forest.ofSentences σs).calls.map Prod.snd, ∀ text ∈ call.texts,
      Text.StartsSolid text.toList := by
  intro call hCall text hText
  rw [Forest.ofSentences_calls, List.map_map, List.mem_map] at hCall
  obtain ⟨entry, hEntry, rfl⟩ := hCall
  obtain ⟨σ, _, hScript⟩ := List.mem_flatMap.1 hEntry
  obtain ⟨v, _, rfl⟩ := σ.script_texts hScript hText
  exact value_startsSolid v.isValue

/-- The instructions that the code of a source is read as. -/
theorem Forest.read_code {s : Settings} {source text : String} {depth : Nat}
    {forest : Forest} (hForest : Forest.ofSource text depth = .ok forest)
    (hCheck : s.check = .ok ()) (hModule : '\n' ∉ s.runtimeModule.toList)
    (hFile : '\n' ∉ (s.mapFileName source).toList) {program : Program}
    (hRead : Program.read (Compiled.ofForest s source text forest).code = .ok program) :
    ∃ instructions,
      Call.ReadAs s.runtimeInstance (forest.calls.map Prod.snd) instructions ∧
      program.map PlacedInstruction.instruction =
        .takeModule :: .nameMachine s.runtimeInstance :: instructions := by
  obtain ⟨_, σs, hWritten, _, rfl⟩ := ofSource_eq_ok_iff.1 hForest
  have hLines := hWritten.newline_not_mem_line (Settings.identifiers_of_check hCheck).2
  rw [(Compiled.ofForest_eq source text hLines).1, Program.read_code hCheck hModule hFile
    (List.forall_mem_map.2 hLines) (Forest.texts_startSolid σs)] at hRead
  obtain ⟨instructions, hCalls, rfl⟩ := hRead
  refine ⟨instructions, hCalls, ?_⟩
  rw [List.map_cons, List.map_cons, Program.map_instruction_placedFrom]

theorem execute_eq_ok {options : RunOptions} {pairs : List (String × Float)} {code : String}
    {run : Run} (h : execute options pairs code = .ok run) :
    ∃ program, Program.read code = .ok program ∧
      run = ((Session.ofOptions options).bindAll pairs).run program := by
  unfold execute at h
  cases hRead : Program.read code with
  | error fault =>
      rw [hRead] at h
      cases h
  | ok program =>
      rw [hRead] at h
      exact ⟨program, rfl, (Except.ok.inj h).symm⟩

/-- The instructions of a program lead from an empty stack to the evaluator's end. -/
theorem Forest.follow_program {vm : String} {forest : Forest}
    (hAssign : ∀ root ∈ forest.statements.toList, root.AssignsAtRoot)
    (hSpelled : ∀ root ∈ forest.statements.toList, root.Spelled)
    {instructions : List Instruction}
    (hRead : Call.ReadAs vm (forest.calls.map Prod.snd) instructions) {start : Session}
    (hPeek : start.machine.printMode = .peek) (hEmpty : start.machine.stack = []) :
    (start.follow (.takeModule :: .nameMachine vm :: instructions)).Satisfies
      (fun cause => forest.evaluate Text.endTrimmed start.bindings = .error cause)
      fun shown left => forest.evaluate Text.endTrimmed start.bindings =
        .ok ⟨left.bindings, shown, left.stack⟩ := by
  refine Outcome.Satisfies.andThen
    ((start.advance_idle (Or.inl rfl)).imp (fun _ => False.elim) fun _ _ h => h) ?_
  rintro _ s₁ ⟨rfl, hs₁⟩
  refine Outcome.Satisfies.andThen
    ((s₁.advance_idle (Or.inr ⟨vm, rfl⟩)).imp (fun _ => False.elim) fun _ _ h => h) ?_
  rintro _ s₂ ⟨rfl, hs₂⟩
  have hMachine : s₂.machine = start.machine := by rw [hs₂.machine, hs₁.machine]
  refine follow_roots hAssign hSpelled hRead ?_ ?_ ?_
  · rw [hMachine]
    exact hPeek
  · rw [hs₂.bindings, hs₁.bindings]
  · rw [Session.stack, hMachine, hEmpty]
    rfl

/-- A run that reaches no limit comes to what its outcome is known to satisfy. -/
theorem Run.ledger_eq {run : Run} {answer : Except RunCause Ledger}
    (h : run.outcome.Satisfies (fun cause => answer = .error cause)
      fun shown left => answer = .ok ⟨left.bindings, shown, left.stack⟩)
    (hLimit : ∀ fault ∈ run.fault, ¬fault.cause.IsLimit) : run.ledger = answer := by
  unfold Run.outcome at h
  unfold Run.ledger
  cases hFault : run.fault with
  | none =>
      rw [hFault] at h
      exact h.symm
  | some fault =>
      rw [hFault] at h
      rcases h with hReached | hCause
      · exact absurd hReached (hLimit fault hFault)
      · exact hCause.symm

/-- **Running compiled code is evaluating its source.**  For a source in which
assignments are statements, and code that is read as a program, a run that reaches no
limit ends as the evaluation of the source does: with the same variables, the same
lines displayed and the values of the statements on the stack, or with the same fault.
Literals and names are read without the blanks at their end. -/
theorem execute_eq_evaluate {s : Settings} {source text : String} {depth : Nat}
    {forest : Forest} {options : RunOptions} {pairs : List (String × Float)} {run : Run}
    (hForest : Forest.ofSource text depth = .ok forest)
    (hAssign : ∀ root ∈ forest.statements.toList, root.AssignsAtRoot)
    (hCheck : s.check = .ok ()) (hModule : '\n' ∉ s.runtimeModule.toList)
    (hFile : '\n' ∉ (s.mapFileName source).toList) (hPeek : options.printMode = .peek)
    (hRun : execute options pairs (Compiled.ofForest s source text forest).code = .ok run)
    (hLimit : ∀ fault ∈ run.fault, ¬fault.cause.IsLimit) :
    run.ledger = forest.evaluate Text.endTrimmed (Bindings.ofList pairs) := by
  obtain ⟨program, hProgram, rfl⟩ := execute_eq_ok hRun
  obtain ⟨instructions, hRead, hInstructions⟩ :=
    Forest.read_code hForest hCheck hModule hFile hProgram
  have hSpelled : ∀ root ∈ forest.statements.toList, root.Spelled := by
    obtain ⟨_, σs, _, _, rfl⟩ := ofSource_eq_ok_iff.1 hForest
    simpa [Forest.ofSentences] using Sentence.roots_spelled 0 σs
  obtain ⟨hMachine, hBindings⟩ := Session.bindAll_eq (Session.ofOptions options) pairs
  refine Run.ledger_eq ?_ hLimit
  rw [Session.run_outcome, hInstructions]
  have hFollow := Forest.follow_program hAssign hSpelled hRead
    (show ((Session.ofOptions options).bindAll pairs).machine.printMode = .peek by
      rw [hMachine]
      exact hPeek)
    (by rw [hMachine]; rfl)
  rw [hBindings] at hFollow
  exact hFollow

/-- An assignment, and a value that is calculated with what was assigned. -/
theorem execute_eq_evaluate_sample :
    ∃ forest run, Forest.ofSource "c a b 1 - / =\n7 c +" 256 = .ok forest ∧
      (∀ root ∈ forest.statements.toList, root.AssignsAtRoot) ∧
      execute {} [("a", 8.0), ("b", 3.0)]
        (Compiled.ofForest {} "p.rpn" "c a b 1 - / =\n7 c +" forest).code =
          .ok run ∧
      (∀ fault ∈ run.fault, ¬fault.cause.IsLimit) ∧
      run.ledger =
        forest.evaluate Text.endTrimmed (Bindings.ofList [("a", 8.0), ("b", 3.0)]) := by
  have hHolds : ((Forest.ofSource "c a b 1 - / =\n7 c +" 256).toOption.any fun forest =>
      decide (∀ root ∈ forest.statements.toList, root.AssignsAtRoot) &&
        (execute {} [("a", 8.0), ("b", 3.0)]
          (Compiled.ofForest {} "p.rpn" "c a b 1 - / =\n7 c +"
            forest).code).toOption.any fun run => run.fault.isNone) = true := by
    decide +kernel
  cases hForest : Forest.ofSource "c a b 1 - / =\n7 c +" 256 with
  | error fault => simp [hForest, Except.toOption] at hHolds
  | ok forest =>
      simp only [hForest, Except.toOption, Option.any_some, Bool.and_eq_true,
        decide_eq_true_eq] at hHolds
      obtain ⟨hAssign, hDone⟩ := hHolds
      cases hRun : execute {} [("a", 8.0), ("b", 3.0)]
          (Compiled.ofForest {} "p.rpn" "c a b 1 - / =\n7 c +" forest).code with
      | error fault => simp [hRun] at hDone
      | ok run =>
          have hNone : run.fault = none := by simpa [hRun] using hDone
          have hLimit : ∀ fault ∈ run.fault, ¬fault.cause.IsLimit := by simp [hNone]
          exact ⟨forest, run, rfl, hAssign, hRun, hLimit,
            execute_eq_evaluate hForest hAssign (by decide) (by decide) (by decide) rfl hRun
              hLimit⟩

/-- The blank that is not broken at belongs to the name of a variable, and the executor
does not see it: it finds the variable `x` where an evaluator that takes names as they
are written finds none. -/
theorem evaluate_untrimmed_differs :
    ∃ forest run, Forest.ofSource "x\u00a0" 256 = .ok forest ∧
      (∀ root ∈ forest.statements.toList, root.AssignsAtRoot) ∧
      ({} : Settings).check = .ok () ∧ '\n' ∉ ({} : Settings).runtimeModule.toList ∧
      '\n' ∉ (({} : Settings).mapFileName "p.rpn").toList ∧
      ({} : RunOptions).printMode = .peek ∧
      execute {} [("x", 1.0)] (Compiled.ofForest {} "p.rpn" "x\u00a0" forest).code =
        .ok run ∧
      run.fault = none ∧
      run.ledger ≠ forest.evaluate id (Bindings.ofList [("x", 1.0)]) := by
  have hHolds : ((Forest.ofSource "x\u00a0" 256).toOption.any fun forest =>
      decide (∀ root ∈ forest.statements.toList, root.AssignsAtRoot) &&
        ((execute {} [("x", 1.0)]
          (Compiled.ofForest {} "p.rpn" "x\u00a0" forest).code).toOption.any fun run =>
            run.fault.isNone) &&
        (forest.evaluate id (Bindings.ofList [("x", 1.0)])).toOption.isNone) = true := by
    decide +kernel
  cases hForest : Forest.ofSource "x\u00a0" 256 with
  | error fault => simp [hForest, Except.toOption] at hHolds
  | ok forest =>
      simp only [hForest, Except.toOption, Option.any_some, Bool.and_eq_true,
        decide_eq_true_eq] at hHolds
      obtain ⟨⟨hAssign, hDone⟩, hUnbound⟩ := hHolds
      cases hRun : execute {} [("x", 1.0)]
          (Compiled.ofForest {} "p.rpn" "x\u00a0" forest).code with
      | error fault => simp [hRun] at hDone
      | ok run =>
          have hNone : run.fault = none := by simpa [hRun] using hDone
          refine ⟨forest, run, rfl, hAssign, by decide, by decide, by decide, rfl, hRun, hNone,
            ?_⟩
          intro hSame
          rw [← hSame, Run.ledger, hNone] at hUnbound
          cases hUnbound

end ReversePolish
