import ReversePolish.Proofs.FaultOrigin

/-!
# The stack between statements

A statement should work on values of its own: it should neither run out of operands nor
touch what earlier statements have left on the stack.  Statements whose assignments stand
at the root of their tree do so.  Where an assignment is an operand, as in `1 b 2 = +`, it
takes a value off the stack and leaves none in its place, so that the operation finds one
operand too few.  It stops the run, or silently works on a value of an earlier statement.

The argument counts.  Each instruction takes a number of values and gives a number of
values (`Session.advance_eq_ok`).  So the calls of a tree change the height of the stack
by a number that the tree determines (`Node.rise`), which is one if the tree is without
assignments and less than one if it is not.  The last call of a tree takes as many values
as the tree has operands that leave one.

## Main results

* `Session.advance_eq_ok`, `Session.advance_ne_emptyStack` — what instructions take and give.
* `Node.AssignsAtRoot.spares`, `Node.assignsAtRoot_of_spares` — a statement that runs to
  its end spares what lies on the stack if and only if it assigns nowhere but at its root.
* `statements_kept_apart` — the same for the statements of a compiled source.
-/

namespace ReversePolish

/-! ## What instructions take and give -/

/-- How many values an instruction takes off the stack.  A print, which leaves the top
where it is, takes it and gives it back. -/
def Instruction.takes : Instruction → Nat
  | .takeModule | .nameMachine _ | .push _ => 0
  | .call (.calculate _) => 2
  | .call .print | .call .pop | .bind _ => 1

/-- How many values an instruction puts on the stack. -/
def Instruction.gives : Instruction → Nat
  | .push _ | .call (.calculate _) | .call .print => 1
  | .takeModule | .nameMachine _ | .call .pop | .bind _ => 0

theorem Operator.apply_ne_emptyStack (op : Operator) (left right : Float) :
    op.apply left right ≠ .error .emptyStack := by
  intro h
  cases op with
  | divide =>
      rw [apply] at h
      split at h <;> cases h
  | add => cases h
  | subtract => cases h
  | multiply => cases h

theorem Machine.integral_ne_emptyStack (value : Float) :
    integral value ≠ .error .emptyStack := by
  intro h
  rw [integral] at h
  split at h <;> cases h

theorem RunCause.IsLimit.ne_emptyStack {cause : RunCause} (h : cause.IsLimit) :
    cause ≠ .machine .emptyStack := by
  rintro rfl
  exact h

namespace Session

/-- An instruction that finds its operands replaces them by its results, or it fails for
another reason than an empty stack. -/
theorem advance_of_takes {s : Session} (hPeek : s.machine.printMode = .peek)
    {instruction : Instruction} (h : instruction.takes ≤ s.machine.stack.length) :
    (s.advance instruction).Satisfies (fun cause => cause ≠ .machine .emptyStack)
      fun _ left => ∃ given, given.length = instruction.gives ∧
        left.machine =
          { s.machine with stack := given ++ s.machine.stack.drop instruction.takes } := by
  -- The lemmas on single instructions name the operands, so they are matched off the stack.
  match instruction, h with
  | .takeModule, _ =>
      refine (advance_idle (Or.inl rfl) s).imp (fun _ => False.elim) ?_
      intro shown left hLeft
      exact ⟨[], rfl, hLeft.2.machine⟩
  | .nameMachine name, _ =>
      refine (advance_idle (Or.inr ⟨name, rfl⟩) s).imp (fun _ => False.elim) ?_
      intro shown left hLeft
      exact ⟨[], rfl, hLeft.2.machine⟩
  | .push (.number value), _ =>
      refine (s.advance_push_number value).imp (fun _ => False.elim) ?_
      intro shown left hLeft
      exact ⟨[value], rfl, hLeft.2.machine⟩
  | .push (.reference name), _ =>
      refine (s.advance_push_reference name).imp ?_ ?_
      · rintro cause ⟨_, rfl⟩ hEmpty
        cases hEmpty
      · rintro shown left ⟨value, _, _, hLeft⟩
        exact ⟨[value], rfl, hLeft.machine⟩
  | .call (.calculate op), h =>
      match hStack : s.machine.stack, h with
      | right :: left :: stack, _ =>
          refine (advance_calculate hStack op).imp ?_ ?_
          · rintro cause ⟨fault, hFault, rfl⟩ hEmpty
            cases hEmpty
            exact op.apply_ne_emptyStack left right hFault
          · rintro shown last ⟨result, _, _, hLast⟩
            exact ⟨[result], rfl, hLast.machine⟩
  | .call .print, h =>
      match hStack : s.machine.stack, h with
      | value :: stack, _ =>
          refine (advance_print hPeek hStack).imp ?_ ?_
          · rintro cause ⟨fault, hFault, rfl⟩ hEmpty
            cases hEmpty
            exact Machine.integral_ne_emptyStack value hFault
          · rintro shown left ⟨_, _, hLeft⟩
            exact ⟨[value], rfl, hLeft.machine⟩
  | .call .pop, h =>
      match hStack : s.machine.stack, h with
      | value :: stack, _ =>
          refine (advance_pop hStack).imp (fun _ => False.elim) ?_
          intro shown left hLeft
          exact ⟨[], rfl, hLeft.2.machine⟩
  | .bind name, h =>
      match hStack : s.machine.stack, h with
      | value :: stack, _ =>
          refine (advance_bind hStack name).imp (fun _ => False.elim) ?_
          intro shown left hLeft
          exact ⟨[], rfl, hLeft.2.1⟩

/-- An instruction that lacks operands fails. -/
theorem advance_of_short {s : Session} (hPeek : s.machine.printMode = .peek)
    {instruction : Instruction} (h : s.machine.stack.length < instruction.takes)
    (result : List String × Session) : s.advance instruction ≠ .ok result := by
  intro hOk
  rw [advance] at hOk
  cases hLimit : s.limitReached? with
  | some limit => rw [hLimit] at hOk; cases hOk
  | none =>
      rw [hLimit] at hOk
      have hEmpty (hOne : instruction.takes = 1) : s.machine.stack = [] := by
        rw [hOne] at h
        exact List.length_eq_zero_iff.1 (by omega)
      cases instruction with
      | takeModule => cases h
      | nameMachine name => cases h
      | push operand => cases h
      | bind name =>
          simp [perform, Machine.pop, hEmpty rfl, Step.outcome, Except.map] at hOk
      | call method =>
          cases method with
          | calculate op =>
              cases hStack : s.machine.stack with
              | nil =>
                  simp [perform, call, lift, Machine.calculate, Machine.andThen, Machine.pop,
                    hStack, Step.outcome, Except.map] at hOk
              | cons value stack =>
                  have hLast : stack = [] := by
                    rw [hStack, List.length_cons, Instruction.takes] at h
                    exact List.length_eq_zero_iff.1 (by omega)
                  simp [perform, call, lift, Machine.calculate, Machine.andThen, Machine.pop,
                    hStack, hLast, Step.outcome, Except.map] at hOk
          | print =>
              simp [perform, call, lift, Machine.print, hPeek, Machine.printTop, Machine.top,
                hEmpty rfl, Except.bind, Step.outcome, Except.map] at hOk
          | pop =>
              simp [perform, call, lift, Machine.pop, hEmpty rfl, Step.outcome,
                Except.map] at hOk

/-- What an instruction takes and gives when it is followed. -/
theorem advance_eq_ok {s : Session} (hPeek : s.machine.printMode = .peek)
    {instruction : Instruction} {shown : List String} {left : Session}
    (h : s.advance instruction = .ok (shown, left)) :
    instruction.takes ≤ s.machine.stack.length ∧
      ∃ given, given.length = instruction.gives ∧
        left.machine =
          { s.machine with stack := given ++ s.machine.stack.drop instruction.takes } := by
  by_cases hTakes : instruction.takes ≤ s.machine.stack.length
  · have hStep := advance_of_takes hPeek hTakes
    rw [h] at hStep
    exact ⟨hTakes, hStep⟩
  · exact absurd h (advance_of_short hPeek (by omega) _)

/-- An instruction that finds its operands does not fail for want of them. -/
theorem advance_ne_emptyStack {s : Session} (hPeek : s.machine.printMode = .peek)
    {instruction : Instruction} (hTakes : instruction.takes ≤ s.machine.stack.length) :
    s.advance instruction ≠ .error (.machine .emptyStack) := by
  intro h
  have hStep := advance_of_takes hPeek hTakes
  rw [h] at hStep
  rcases hStep with hLimit | hOther
  · exact hLimit.ne_emptyStack rfl
  · exact hOther rfl

theorem advance_height {s : Session} (hPeek : s.machine.printMode = .peek)
    {instruction : Instruction} {shown : List String} {left : Session}
    (h : s.advance instruction = .ok (shown, left)) :
    left.machine.stack.length + instruction.takes =
      s.machine.stack.length + instruction.gives := by
  obtain ⟨hTakes, given, hGiven, hMachine⟩ := advance_eq_ok hPeek h
  rw [hMachine, List.length_append, List.length_drop]
  omega

theorem follow_peek {s : Session} (hPeek : s.machine.printMode = .peek)
    {instructions : List Instruction} {shown : List String} {left : Session}
    (h : s.follow instructions = .ok (shown, left)) : left.machine.printMode = .peek := by
  induction instructions generalizing s shown with
  | nil =>
      cases h
      exact hPeek
  | cons instruction instructions ih =>
      rw [follow] at h
      obtain ⟨_, between, _, hAdvance, hRest⟩ := Outcome.andThen_eq_ok h
      obtain ⟨_, given, _, hMachine⟩ := advance_eq_ok hPeek hAdvance
      refine ih ?_ hRest
      rw [hMachine, hPeek]

/-- The height of the stack before and behind the last instruction. -/
theorem follow_concat_height {s : Session} (hPeek : s.machine.printMode = .peek)
    {instructions : List Instruction} {last : Instruction} {shown : List String}
    {left : Session} (h : s.follow (instructions ++ [last]) = .ok (shown, left)) :
    ∃ first between, s.follow instructions = .ok (first, between) ∧
      left.machine.stack.length + last.takes =
        between.machine.stack.length + last.gives := by
  rw [follow_append] at h
  obtain ⟨first, between, _, hFirst, hLast⟩ := Outcome.andThen_eq_ok h
  rw [follow_singleton] at hLast
  exact ⟨first, between, hFirst, advance_height (follow_peek hPeek hFirst) hLast⟩

/-! ## Sparing the stack -/

/-- Instructions spare what lies at the bottom of the stack: whenever one of them is
reached, it is still there, and the instruction finds its operands above it. -/
def Spares (below : List Float) (s : Session) : List Instruction → Prop
  | [] => ∃ own, s.machine.stack = own ++ below
  | instruction :: instructions =>
    (∃ own, s.machine.stack = own ++ below ∧ instruction.takes ≤ own.length) ∧
      ∀ shown left, s.advance instruction = .ok (shown, left) → left.Spares below instructions

theorem Spares.exists_own {below : List Float} {s : Session}
    {instructions : List Instruction} (h : s.Spares below instructions) :
    ∃ own, s.machine.stack = own ++ below := by
  cases instructions with
  | nil => exact h
  | cons instruction instructions =>
      obtain ⟨⟨own, hOwn, _⟩, _⟩ := h
      exact ⟨own, hOwn⟩

theorem spares_append {below : List Float} {s : Session}
    {instructions further : List Instruction} :
    s.Spares below (instructions ++ further) ↔
      s.Spares below instructions ∧
        ∀ shown left, s.follow instructions = .ok (shown, left) →
          left.Spares below further := by
  induction instructions generalizing s with
  | nil =>
      constructor
      · intro h
        refine ⟨h.exists_own, fun shown left hLeft => ?_⟩
        cases hLeft
        exact h
      · intro h
        exact h.2 [] s rfl
  | cons instruction instructions ih =>
      constructor
      · intro h
        refine ⟨⟨h.1, fun shown left hLeft => (ih.1 (h.2 shown left hLeft)).1⟩, ?_⟩
        intro shown last hLast
        rw [follow] at hLast
        obtain ⟨first, left, more, hLeft, hRest⟩ := Outcome.andThen_eq_ok hLast
        exact (ih.1 (h.2 first left hLeft)).2 more last hRest
      · intro h
        refine ⟨h.1.1, fun shown left hLeft => ih.2 ⟨h.1.2 shown left hLeft, ?_⟩⟩
        intro more last hRest
        refine h.2 (shown ++ more) last ?_
        simp only [follow, hLeft, Outcome.andThen, hRest]

/-- What is spared is still there at the end. -/
theorem Spares.exists_own_of_follow {below : List Float} {s : Session}
    {instructions : List Instruction} (h : s.Spares below instructions)
    {shown : List String} {left : Session}
    (hFollow : s.follow instructions = .ok (shown, left)) :
    ∃ own, left.machine.stack = own ++ below := by
  have hAll : s.Spares below (instructions ++ []) := by
    rw [List.append_nil]
    exact h
  exact (spares_append.1 hAll).2 shown left hFollow

theorem Spares.of_append {own below : List Float} {s : Session}
    {instructions : List Instruction} (h : s.Spares (own ++ below) instructions) :
    s.Spares below instructions := by
  induction instructions generalizing s with
  | nil =>
      obtain ⟨further, hStack⟩ := h
      exact ⟨further ++ own, by rw [hStack, List.append_assoc]⟩
  | cons instruction instructions ih =>
      obtain ⟨⟨further, hStack, hTakes⟩, hRest⟩ := h
      refine ⟨⟨further ++ own, by rw [hStack, List.append_assoc], ?_⟩,
        fun shown left hLeft => ih (hRest shown left hLeft)⟩
      rw [List.length_append]
      omega

/-- A row of instructions spares the stack if all but the last one do, and the last one
finds its operands. -/
theorem spares_concat {below : List Float} {s : Session}
    (hPeek : s.machine.printMode = .peek) {instructions : List Instruction}
    {last : Instruction} :
    s.Spares below (instructions ++ [last]) ↔
      s.Spares below instructions ∧
        ∀ shown left, s.follow instructions = .ok (shown, left) →
          below.length + last.takes ≤ left.machine.stack.length := by
  rw [spares_append]
  constructor
  · intro h
    refine ⟨h.1, fun shown left hLeft => ?_⟩
    obtain ⟨⟨own, hStack, hTakes⟩, _⟩ := h.2 shown left hLeft
    rw [hStack, List.length_append]
    omega
  · intro h
    refine ⟨h.1, fun shown left hLeft => ?_⟩
    have hHeight := h.2 shown left hLeft
    obtain ⟨own, hStack⟩ := h.1.exists_own_of_follow hLeft
    rw [hStack, List.length_append] at hHeight
    have hTakes : last.takes ≤ own.length := by omega
    refine ⟨⟨own, hStack, hTakes⟩, fun more final hFinal => ?_⟩
    obtain ⟨_, given, _, hMachine⟩ := advance_eq_ok (follow_peek hPeek hLeft) hFinal
    refine ⟨given ++ own.drop last.takes, ?_⟩
    rw [hMachine, hStack, List.drop_append_of_le_length hTakes, List.append_assoc]

/-- Instructions without operands spare everything. -/
theorem spares_of_takes_eq_zero {below : List Float} {s : Session}
    (hPeek : s.machine.printMode = .peek) (hOwn : ∃ own, s.machine.stack = own ++ below)
    {instructions : List Instruction} (h : ∀ i ∈ instructions, i.takes = 0) :
    s.Spares below instructions := by
  induction instructions generalizing s with
  | nil => exact hOwn
  | cons instruction instructions ih =>
      rw [List.forall_mem_cons] at h
      obtain ⟨own, hStack⟩ := hOwn
      refine ⟨⟨own, hStack, by omega⟩, fun shown left hLeft => ?_⟩
      obtain ⟨_, given, _, hMachine⟩ := advance_eq_ok hPeek hLeft
      refine ih ?_ ⟨given ++ own, ?_⟩ h.2
      · rw [hMachine, hPeek]
      · rw [hMachine, h.1, hStack, List.drop_zero, List.append_assoc]

/-- Instructions that spare a part of the stack do not run out of operands. -/
theorem Spares.follow_ne_emptyStack {below : List Float} {s : Session}
    (hPeek : s.machine.printMode = .peek) {instructions : List Instruction}
    (h : s.Spares below instructions) :
    s.follow instructions ≠ .error (.machine .emptyStack) := by
  induction instructions generalizing s with
  | nil =>
      intro hFollow
      cases hFollow
  | cons instruction instructions ih =>
      intro hFollow
      obtain ⟨⟨own, hStack, hTakes⟩, hRest⟩ := h
      have hHeight : instruction.takes ≤ s.machine.stack.length := by
        rw [hStack, List.length_append]
        omega
      rw [follow] at hFollow
      rcases Outcome.andThen_eq_error hFollow with hHere | ⟨shown, left, hLeft, hLater⟩
      · exact advance_ne_emptyStack hPeek hHeight hHere
      · obtain ⟨_, given, _, hMachine⟩ := advance_eq_ok hPeek hLeft
        refine ih ?_ (hRest shown left hLeft) hLater
        rw [hMachine, hPeek]

end Session

/-! ## Trees -/

/-- By how much the calls of a tree change the height of the stack. -/
def Node.rise : Node → Int
  | .value _ _ _ _ => 1
  | .binary _ _ _ left right => left.rise + right.rise - 1
  | .assign _ _ _ body => body.rise - 1
  | .print _ _ operand => operand.rise

theorem Node.rise_le_one (n : Node) : n.rise ≤ 1 := by
  induction n with
  | value id tag kind text => exact Int.le_refl 1
  | binary id tag op left right ihLeft ihRight => rw [rise]; omega
  | assign id tag target body _ ihBody => rw [rise]; omega
  | print id tag operand ih => exact ih

theorem Node.rise_eq_one_iff (n : Node) : n.rise = 1 ↔ n.Plain := by
  induction n with
  | value id tag kind text => exact ⟨fun _ => trivial, fun _ => rfl⟩
  | binary id tag op left right ihLeft ihRight =>
      have hLeft := left.rise_le_one
      have hRight := right.rise_le_one
      rw [Plain, ← ihLeft, ← ihRight, rise]
      omega
  | assign id tag target body _ _ =>
      have hBody := body.rise_le_one
      refine ⟨fun h => ?_, False.elim⟩
      rw [rise] at h
      omega
  | print id tag operand ih => exact ih

theorem Node.follow_height {vm : String} {n : Node} {instructions : List Instruction}
    (hRead : Call.ReadAs vm (n.calls.map Prod.snd) instructions) {s : Session}
    (hPeek : s.machine.printMode = .peek) {shown : List String} {left : Session}
    (h : s.follow instructions = .ok (shown, left)) :
    (left.machine.stack.length : Int) = s.machine.stack.length + n.rise := by
  induction n generalizing s instructions shown left with
  | value id tag kind text =>
      obtain ⟨operand, rfl, _⟩ := hRead.of_value
      rw [Session.follow_singleton] at h
      have hHeight := Session.advance_height hPeek h
      simp only [Instruction.takes, Instruction.gives] at hHeight
      rw [rise]
      omega
  | binary id tag op l r ihLeft ihRight =>
      obtain ⟨front, back, rfl, hFront, hBack⟩ := hRead.of_binary
      obtain ⟨_, s₂, h₂, hHeight⟩ := Session.follow_concat_height hPeek h
      rw [Session.follow_append] at h₂
      obtain ⟨_, s₁, _, h₁, h₂⟩ := Outcome.andThen_eq_ok h₂
      have hLeft := ihLeft hFront hPeek h₁
      have hRight := ihRight hBack (Session.follow_peek hPeek h₁) h₂
      simp only [Instruction.takes, Instruction.gives] at hHeight
      rw [rise]
      omega
  | assign id tag target body _ ihBody =>
      obtain ⟨front, rfl, hFront⟩ := hRead.of_assign
      obtain ⟨_, s₁, h₁, hHeight⟩ := Session.follow_concat_height hPeek h
      have hBody := ihBody hFront hPeek h₁
      simp only [Instruction.takes, Instruction.gives] at hHeight
      rw [rise]
      omega
  | print id tag operand ih =>
      obtain ⟨front, rfl, hFront⟩ := hRead.of_print
      obtain ⟨_, s₁, h₁, hHeight⟩ := Session.follow_concat_height hPeek h
      have hOperand := ih hFront hPeek h₁
      simp only [Instruction.takes, Instruction.gives] at hHeight
      rw [rise]
      omega

/-- The height of the stack behind two operands. -/
theorem Node.follow_operands_height {vm : String} {l r : Node} {front back : List Instruction}
    (hFront : Call.ReadAs vm (l.calls.map Prod.snd) front)
    (hBack : Call.ReadAs vm (r.calls.map Prod.snd) back) {s : Session}
    (hPeek : s.machine.printMode = .peek) {shown : List String} {left : Session}
    (h : s.follow (front ++ back) = .ok (shown, left)) :
    (left.machine.stack.length : Int) = s.machine.stack.length + (l.rise + r.rise) := by
  rw [Session.follow_append] at h
  obtain ⟨_, s₁, _, h₁, h₂⟩ := Outcome.andThen_eq_ok h
  have hLeft := follow_height hFront hPeek h₁
  have hRight := follow_height hBack (Session.follow_peek hPeek h₁) h₂
  omega

/-- A tree without assignments works on values of its own. -/
theorem Node.Plain.spares {vm : String} {n : Node} (hPlain : n.Plain)
    {instructions : List Instruction}
    (hRead : Call.ReadAs vm (n.calls.map Prod.snd) instructions) {s : Session}
    (hPeek : s.machine.printMode = .peek) : s.Spares s.machine.stack instructions := by
  induction n generalizing s instructions with
  | value id tag kind text =>
      obtain ⟨operand, rfl, _⟩ := hRead.of_value
      exact Session.spares_of_takes_eq_zero hPeek ⟨[], rfl⟩ (by simp [Instruction.takes])
  | binary id tag op l r ihLeft ihRight =>
      obtain ⟨front, back, rfl, hFront, hBack⟩ := hRead.of_binary
      rw [Session.spares_concat hPeek, Session.spares_append]
      refine ⟨⟨ihLeft hPlain.1 hFront hPeek, fun shown s₁ h₁ => ?_⟩, fun shown s₂ h₂ => ?_⟩
      · -- What the left operand left on top is more to spare.
        obtain ⟨own, hOwn⟩ := (ihLeft hPlain.1 hFront hPeek).exists_own_of_follow h₁
        have hRight := ihRight hPlain.2 hBack (Session.follow_peek hPeek h₁)
        rw [hOwn] at hRight
        exact hRight.of_append
      · have hHeight := follow_operands_height hFront hBack hPeek h₂
        rw [(rise_eq_one_iff l).2 hPlain.1, (rise_eq_one_iff r).2 hPlain.2] at hHeight
        simp only [Instruction.takes]
        omega
  | assign id tag target body => exact hPlain.elim
  | print id tag operand ih =>
      obtain ⟨front, rfl, hFront⟩ := hRead.of_print
      rw [Session.spares_concat hPeek]
      refine ⟨ih hPlain hFront hPeek, fun shown s₁ h₁ => ?_⟩
      have hHeight := follow_height hFront hPeek h₁
      rw [(rise_eq_one_iff operand).2 hPlain] at hHeight
      simp only [Instruction.takes]
      omega

/-- A statement that assigns nowhere but at its root spares what lies on the stack. -/
theorem Node.AssignsAtRoot.spares {vm : String} {root : Node} (hAssign : root.AssignsAtRoot)
    {instructions : List Instruction}
    (hRead : Call.ReadAs vm (root.calls.map Prod.snd) instructions) {s : Session}
    (hPeek : s.machine.printMode = .peek) : s.Spares s.machine.stack instructions := by
  by_cases hRoot : root.isAssign = true
  · cases root with
    | assign id tag target body =>
        obtain ⟨front, rfl, hFront⟩ := hRead.of_assign
        have hPlain := hAssign.body_plain
        rw [Session.spares_concat hPeek]
        refine ⟨hPlain.spares hFront hPeek, fun shown s₁ h₁ => ?_⟩
        have hHeight := follow_height hFront hPeek h₁
        rw [(rise_eq_one_iff body).2 hPlain] at hHeight
        simp only [Instruction.takes]
        omega
    | value id tag kind text => cases hRoot
    | binary id tag op left right => cases hRoot
    | print id tag operand => cases hRoot
  · exact (hAssign.plain (Bool.eq_false_iff.2 hRoot)).spares hRead hPeek

theorem Node.Plain.isAssign_eq_false {n : Node} (h : n.Plain) : n.isAssign = false := by
  cases n with
  | assign id tag target body => exact h.elim
  | value id tag kind text => rfl
  | binary id tag op left right => rfl
  | print id tag operand => rfl

/-- A tree without assignments assigns nowhere but at its root. -/
theorem Node.Plain.assignsAtRoot {n : Node} (h : n.Plain) : n.AssignsAtRoot := by
  induction n with
  | value id tag kind text => simp [AssignsAtRoot, subnodes, operands]
  | binary id tag op left right ihLeft ihRight =>
      intro m hm operand hOperand
      simp only [subnodes, List.mem_append, List.mem_singleton] at hm
      rcases hm with (hm | hm) | rfl
      · exact ihLeft h.1 m hm operand hOperand
      · exact ihRight h.2 m hm operand hOperand
      · simp only [operands, List.mem_cons, List.not_mem_nil, or_false] at hOperand
        rcases hOperand with rfl | rfl
        · exact h.1.isAssign_eq_false
        · exact h.2.isAssign_eq_false
  | assign id tag target body => exact h.elim
  | print id tag operand ih =>
      intro m hm operand' hOperand
      simp only [subnodes, List.mem_append, List.mem_singleton] at hm
      rcases hm with hm | rfl
      · exact ih h m hm operand' hOperand
      · simp only [operands, List.mem_singleton] at hOperand
        rw [hOperand]
        exact isAssign_eq_false (n := operand) h

/-- What a statement assigns to is a leaf. -/
def Node.AssignsToLeaf : Node → Prop
  | .assign _ _ target _ => target.operands = []
  | _ => True

theorem Sentence.node_assignsToLeaf (σ : Sentence) (id : Nat) :
    (σ.node id).AssignsToLeaf := by
  induction σ using Sentence.induction generalizing id with
  | alone last print? isPrint =>
      cases print? with
      | none => trivial
      | some t => trivial
  | joined j σ _ =>
      rw [node_within]
      unfold Joint.node
      cases j.sign.op? with
      | none => exact rfl
      | some op => trivial

theorem Sentence.roots_assignsToLeaf (id : Nat) (σs : List Sentence) :
    ∀ root ∈ roots id σs, root.AssignsToLeaf := by
  intro root hRoot
  obtain ⟨σ, _, first, rfl⟩ := exists_of_mem_roots hRoot
  exact σ.node_assignsToLeaf first

/-- An assignment of a tree without assignments assigns at its root. -/
theorem Node.assignsAtRoot_assign {id : Nat} {tag : Tag} {target body : Node}
    (hTarget : (Node.assign id tag target body).AssignsToLeaf) (hBody : body.Plain) :
    (Node.assign id tag target body).AssignsAtRoot := by
  have hLeaf : target.Plain := by
    cases target with
    | value id tag kind text => trivial
    | binary id tag op left right => cases hTarget
    | assign id tag target body => cases hTarget
    | print id tag operand => cases hTarget
  intro m hm operand hOperand
  simp only [subnodes, List.mem_append, List.mem_singleton] at hm
  rcases hm with (hm | hm) | rfl
  · exact hLeaf.assignsAtRoot m hm operand hOperand
  · exact hBody.assignsAtRoot m hm operand hOperand
  · simp only [operands, List.mem_cons, List.not_mem_nil, or_false] at hOperand
    rcases hOperand with rfl | rfl
    · exact hLeaf.isAssign_eq_false
    · exact hBody.isAssign_eq_false

/-- A statement that runs to its end and spares what lies on the stack assigns nowhere but
at its root: the last call would lack an operand otherwise. -/
theorem Node.assignsAtRoot_of_spares {vm : String} {root : Node}
    (hTarget : root.AssignsToLeaf) {instructions : List Instruction}
    (hRead : Call.ReadAs vm (root.calls.map Prod.snd) instructions) {s : Session}
    (hPeek : s.machine.printMode = .peek) {shown : List String} {left : Session}
    (hFollow : s.follow instructions = .ok (shown, left))
    (hSpares : s.Spares s.machine.stack instructions) : root.AssignsAtRoot := by
  -- In each case the operands have to lift the stack by what the last call takes, and no
  -- operand lifts it by more than one.
  cases root with
  | value id tag kind text => exact Plain.assignsAtRoot trivial
  | binary id tag op l r =>
      obtain ⟨front, back, rfl, hFront, hBack⟩ := hRead.of_binary
      obtain ⟨shown₂, s₂, h₂, _⟩ := Session.follow_concat_height hPeek hFollow
      have hTakes := ((Session.spares_concat hPeek).1 hSpares).2 shown₂ s₂ h₂
      simp only [Instruction.takes] at hTakes
      have hHeight := follow_operands_height hFront hBack hPeek h₂
      have hLeft := l.rise_le_one
      have hRight := r.rise_le_one
      have hBoth : l.Plain ∧ r.Plain :=
        ⟨(rise_eq_one_iff l).1 (by omega), (rise_eq_one_iff r).1 (by omega)⟩
      exact Plain.assignsAtRoot hBoth
  | assign id tag target body =>
      obtain ⟨front, rfl, hFront⟩ := hRead.of_assign
      obtain ⟨shown₁, s₁, h₁, _⟩ := Session.follow_concat_height hPeek hFollow
      have hTakes := ((Session.spares_concat hPeek).1 hSpares).2 shown₁ s₁ h₁
      simp only [Instruction.takes] at hTakes
      have hHeight := follow_height hFront hPeek h₁
      have hBody := body.rise_le_one
      exact assignsAtRoot_assign hTarget ((rise_eq_one_iff body).1 (by omega))
  | print id tag operand =>
      obtain ⟨front, rfl, hFront⟩ := hRead.of_print
      obtain ⟨shown₁, s₁, h₁, _⟩ := Session.follow_concat_height hPeek hFollow
      have hTakes := ((Session.spares_concat hPeek).1 hSpares).2 shown₁ s₁ h₁
      simp only [Instruction.takes] at hTakes
      have hHeight := follow_height hFront hPeek h₁
      have hOperand := operand.rise_le_one
      have hPlain : operand.Plain := (rise_eq_one_iff operand).1 (by omega)
      exact Plain.assignsAtRoot hPlain

/-! ## Statements -/

namespace Session

/-- Statements are kept apart: each that is reached spares what lies on the stack then. -/
def KeepsApart (s : Session) : List (List Instruction) → Prop
  | [] => True
  | statement :: statements =>
    s.Spares s.machine.stack statement ∧
      ∀ shown left, s.follow statement = .ok (shown, left) → left.KeepsApart statements

theorem KeepsApart.follow_ne_emptyStack {s : Session}
    (hPeek : s.machine.printMode = .peek) {statements : List (List Instruction)}
    (h : s.KeepsApart statements) :
    s.follow statements.flatten ≠ .error (.machine .emptyStack) := by
  induction statements generalizing s with
  | nil =>
      intro hFollow
      cases hFollow
  | cons statement statements ih =>
      intro hFollow
      rw [List.flatten_cons, follow_append] at hFollow
      rcases Outcome.andThen_eq_error hFollow with hHere | ⟨shown, left, hLeft, hLater⟩
      · exact h.1.follow_ne_emptyStack hPeek hHere
      · exact ih (follow_peek hPeek hLeft) (h.2 shown left hLeft) hLater

end Session

/-- The instructions of statements, one row for each. -/
def StatementsReadAs (vm : String) : List Node → List (List Instruction) → Prop :=
  List.Forall₂ fun root statement => Call.ReadAs vm (root.calls.map Prod.snd) statement

theorem StatementsReadAs.of_flatMap {vm : String} {roots : List Node}
    {instructions : List Instruction}
    (h : Call.ReadAs vm ((roots.flatMap Node.calls).map Prod.snd) instructions) :
    ∃ statements, StatementsReadAs vm roots statements ∧
      instructions = statements.flatten := by
  induction roots generalizing instructions with
  | nil =>
      cases h
      exact ⟨[], List.Forall₂.nil, rfl⟩
  | cons root roots ih =>
      rw [List.flatMap_cons, List.map_append] at h
      obtain ⟨front, back, rfl, hFront, hBack⟩ := h.of_append
      obtain ⟨statements, hStatements, rfl⟩ := ih hBack
      exact ⟨front :: statements, List.Forall₂.cons hFront hStatements, rfl⟩

theorem StatementsReadAs.keepsApart {vm : String} {roots : List Node}
    {statements : List (List Instruction)} (h : StatementsReadAs vm roots statements)
    (hAssign : ∀ root ∈ roots, root.AssignsAtRoot) {s : Session}
    (hPeek : s.machine.printMode = .peek) : s.KeepsApart statements := by
  induction h generalizing s with
  | nil => trivial
  | cons hRoot _ ih =>
      rw [List.forall_mem_cons] at hAssign
      exact ⟨hAssign.1.spares hRoot hPeek,
        fun shown left hLeft => ih hAssign.2 (Session.follow_peek hPeek hLeft)⟩

theorem StatementsReadAs.assignsAtRoot {vm : String} {roots : List Node}
    {statements : List (List Instruction)} (h : StatementsReadAs vm roots statements)
    (hTargets : ∀ root ∈ roots, root.AssignsToLeaf) {s : Session}
    (hPeek : s.machine.printMode = .peek) {shown : List String} {left : Session}
    (hFollow : s.follow statements.flatten = .ok (shown, left))
    (hApart : s.KeepsApart statements) : ∀ root ∈ roots, root.AssignsAtRoot := by
  induction h generalizing s shown with
  | nil => simp
  | cons hRoot _ ih =>
      rw [List.forall_mem_cons] at hTargets
      rw [List.flatten_cons, Session.follow_append] at hFollow
      obtain ⟨first, between, more, hHere, hLater⟩ := Outcome.andThen_eq_ok hFollow
      rw [List.forall_mem_cons]
      exact ⟨Node.assignsAtRoot_of_spares hTargets.1 hRoot hPeek hHere hApart.1,
        ih hTargets.2 (Session.follow_peek hPeek hHere) hLater (hApart.2 first between hHere)⟩

/-! ## Compiled code -/

/-- The program of a source: the lines of the module, the name of the machine, the statements
with an instruction on each line, and the lines of the comment. -/
theorem compile_program {s : Settings} {name text : String} {c : Compiled}
    (h : compile s name text = .ok c) {forest : Forest}
    (hForest : Forest.ofSource text s.maxDepth = .ok forest) {program : Program}
    (hRead : Program.read c.code = .ok program) :
    ∃ front statements back,
      program = front ++ ⟨s.moduleLines.length + 1, .nameMachine s.runtimeInstance⟩ ::
        (Program.placedFrom (s.moduleLines.length + 2) statements.flatten ++ back) ∧
      StatementsReadAs s.runtimeInstance forest.statements.toList statements ∧
      Program.readLines 1 none s.moduleLines = .ok front ∧
      Program.readLines (s.moduleLines.length + 2 + statements.flatten.length)
        (some s.runtimeInstance)
        (Text.lines (Emitter.mapComment (s.mapFileName name)).toList) = .ok back := by
  obtain ⟨hCheck, forest', hForest', rfl⟩ := compile_eq_ok h
  rw [hForest] at hForest'
  cases hForest'
  obtain ⟨_, σs, hWritten, _, rfl⟩ := ofSource_eq_ok_iff.1 hForest
  have hLines := hWritten.newline_not_mem_line (Settings.identifiers_of_check hCheck).2
  rw [(Compiled.ofForest_eq name text hLines).1, Program.read_code_parts hCheck _
    (List.forall_mem_map.2 hLines) (Forest.texts_startSolid σs)] at hRead
  obtain ⟨front, hModule, hRead⟩ := exists_of_bind_eq_ok hRead
  obtain ⟨body, hCalls, hRead⟩ := exists_of_bind_eq_ok hRead
  obtain ⟨back, hComment, rfl⟩ := exists_of_map_eq_ok hRead
  obtain ⟨instructions, hAs, rfl⟩ := Call.readFrom_eq_ok_iff.1 hCalls
  rw [List.Forall₂.length_eq hAs] at hComment
  obtain ⟨statements, hStatements, rfl⟩ := StatementsReadAs.of_flatMap hAs
  exact ⟨front, statements, back, rfl, hStatements, hModule, hComment⟩

/-- The program of a source is the instructions of its statements, one statement after
the other, between those of the preamble and of the comment.  These are the known ones
unless a name in the settings has more than one line. -/
theorem compile_statements {s : Settings} {name text : String} {c : Compiled}
    (h : compile s name text = .ok c) {forest : Forest}
    (hForest : Forest.ofSource text s.maxDepth = .ok forest) {program : Program}
    (hRead : Program.read c.code = .ok program) :
    ∃ front statements back,
      program.map PlacedInstruction.instruction = front ++ statements.flatten ++ back ∧
      StatementsReadAs s.runtimeInstance forest.statements.toList statements ∧
      ('\n' ∉ s.runtimeModule.toList →
        front = [.takeModule, .nameMachine s.runtimeInstance]) ∧
      ('\n' ∉ (s.mapFileName name).toList → back = []) := by
  obtain ⟨hCheck, _⟩ := compile_eq_ok h
  obtain ⟨front, statements, back, rfl, hStatements, hModule, hComment⟩ :=
    compile_program h hForest hRead
  refine ⟨front.map PlacedInstruction.instruction ++ [.nameMachine s.runtimeInstance],
    statements, back.map PlacedInstruction.instruction, ?_, hStatements, ?_, ?_⟩
  · rw [List.map_append, List.map_cons, List.map_append, Program.map_instruction_placedFrom,
      List.append_assoc, List.append_assoc, List.singleton_append]
  · intro hOneLine
    rw [Program.readLines_moduleLines hCheck hOneLine] at hModule
    cases hModule
    rfl
  · intro hOneLine
    rw [Program.readLines_mapComment hOneLine] at hComment
    cases hComment
    rfl

/-! ## Code that is no program -/

theorem Operand.read_ne_machine (text : List Char) (fault : MachineFault) :
    Operand.read text ≠ .error (.machine fault) := by
  intro h
  unfold Operand.read at h
  split at h
  · cases h
  · split at h
    · split at h <;> cases h
    · split at h <;> cases h

namespace Instruction

theorem readCall_ne_machine (vm : String) (body : List Char) (fault : MachineFault) :
    readCall vm body ≠ some (.error (.machine fault)) := by
  intro h
  unfold readCall at h
  split at h
  · cases h
  · next method argument _ =>
      split at h
      · have hPush := eq_error_of_map_eq_error (Option.some.inj h)
        exact Operand.read_ne_machine argument fault hPush
      · split at h
        · obtain ⟨_, _, hCall⟩ := Option.map_eq_some_iff.1 h
          cases hCall
        · cases h

theorem readBody_ne_machine (vm? : Option String) (body : List Char) (fault : MachineFault) :
    readBody vm? body ≠ some (.error (.machine fault)) := by
  have hMap (found : Option Instruction) :
      found.map Except.ok ≠ some (.error (.machine fault) : Except RunCause Instruction) := by
    cases found <;> simp
  unfold readBody
  split
  · exact hMap _
  · split
    · exact hMap _
    · split
      · simp
      · split
        · exact hMap _
        · exact readCall_ne_machine _ body fault

/-- Reading does not touch the machine. -/
theorem readLine_ne_machine (vm? : Option String) (line : List Char) (fault : MachineFault) :
    readLine vm? line ≠ .error (.machine fault) := by
  intro h
  unfold readLine at h
  dsimp only at h
  split at h
  · cases h
  · split at h
    · next read hRead =>
        rw [eq_error_of_map_eq_error h] at hRead
        obtain ⟨body, _, hBody⟩ := Option.bind_eq_some_iff.1 hRead
        exact readBody_ne_machine vm? _ fault hBody
    · cases h

end Instruction

/-- Code that is no program is not the machine's fault. -/
theorem Program.readLines_ne_machine {line : Nat} {vm? : Option String}
    {texts : List (List Char)} {unread : RunFault}
    (h : readLines line vm? texts = .error unread) (fault : MachineFault) :
    unread.cause ≠ .machine fault := by
  fun_induction readLines line vm? texts with
  | case1 => cases h
  | case2 line vm? text texts cause hCause =>
      cases h
      intro hMachine
      rw [show cause = .machine fault from hMachine] at hCause
      exact Instruction.readLine_ne_machine vm? text fault hCause
  | case3 line vm? text texts _ ih => exact ih h
  | case4 line vm? text texts instruction _ _ ih => exact ih (eq_error_of_map_eq_error h)

/-! ## Runs of compiled code -/

/-- The code of a source whose statements assign at their roots does not run out of
operands. -/
theorem execute_ne_emptyStack {s : Settings} {name text : String} {c : Compiled}
    (h : compile s name text = .ok c) (hModule : '\n' ∉ s.runtimeModule.toList)
    (hFile : '\n' ∉ (s.mapFileName name).toList) {forest : Forest}
    (hForest : Forest.ofSource text s.maxDepth = .ok forest)
    (hAssign : ∀ root ∈ forest.statements.toList, root.AssignsAtRoot)
    {options : RunOptions} (hPeek : options.printMode = .peek)
    {pairs : List (String × Float)} {fault : RunFault}
    (hFault : executionFault? (execute options pairs c.code) = some fault) :
    fault.cause ≠ .machine .emptyStack := by
  have hStart : ((Session.ofOptions options).bindAll pairs).machine.printMode = .peek := by
    rw [(Session.bindAll_eq (Session.ofOptions options) pairs).1]
    exact hPeek
  intro hEmpty
  rw [execute] at hFault
  cases hRead : Program.read c.code with
  | error unread =>
      rw [hRead] at hFault
      cases hFault
      exact Program.readLines_ne_machine hRead .emptyStack hEmpty
  | ok program =>
      rw [hRead] at hFault
      obtain ⟨front, statements, back, hProgram, hStatements, hFront, hBack⟩ :=
        compile_statements h hForest hRead
      have hApart : ((Session.ofOptions options).bindAll pairs).KeepsApart
          (front :: statements) := by
        refine ⟨Session.spares_of_takes_eq_zero hStart ⟨[], rfl⟩ ?_, fun shown left hLeft =>
          hStatements.keepsApart hAssign (Session.follow_peek hStart hLeft)⟩
        rw [hFront hModule]
        simp [Instruction.takes]
      have hFollow := Session.follow_of_fault hFault
      rw [hProgram, hBack hFile, List.append_nil, hEmpty] at hFollow
      exact hApart.follow_ne_emptyStack hStart hFollow

/-- **When statements are kept apart.**  A program is run where prints leave their value.
Statements that assign nowhere but at their roots do not run out of operands and touch
nothing that earlier statements left on the stack, whatever the settings put in front of
them and behind them.  Statements that run to their end touch nothing of the kind only if
they assign nowhere but at their roots.  When no name in the settings has more than one
line, nothing but the statements is run, and the whole run never finds an empty stack. -/
theorem statements_kept_apart {s : Settings} {name text : String} {c : Compiled}
    (h : compile s name text = .ok c) {forest : Forest}
    (hForest : Forest.ofSource text s.maxDepth = .ok forest) {options : RunOptions}
    (hPeek : options.printMode = .peek) (pairs : List (String × Float)) :
    ('\n' ∉ s.runtimeModule.toList → '\n' ∉ (s.mapFileName name).toList →
      (∀ root ∈ forest.statements.toList, root.AssignsAtRoot) →
      ∀ fault, executionFault? (execute options pairs c.code) = some fault →
        fault.cause ≠ .machine .emptyStack) ∧
    ∀ program, Program.read c.code = .ok program →
      ∃ front statements back,
        program.map PlacedInstruction.instruction = front ++ statements.flatten ++ back ∧
        StatementsReadAs s.runtimeInstance forest.statements.toList statements ∧
        ('\n' ∉ s.runtimeModule.toList →
          front = [.takeModule, .nameMachine s.runtimeInstance]) ∧
        ('\n' ∉ (s.mapFileName name).toList → back = []) ∧
        ∀ n shown reached,
          ((Session.ofOptions options).bindAll pairs).follow front = .ok (shown, reached) →
          ((∀ root ∈ forest.statements.toList.take n, root.AssignsAtRoot) →
            reached.KeepsApart (statements.take n) ∧
              reached.follow (statements.take n).flatten ≠ .error (.machine .emptyStack)) ∧
          ∀ more left, reached.follow (statements.take n).flatten = .ok (more, left) →
            (reached.KeepsApart (statements.take n) ↔
              ∀ root ∈ forest.statements.toList.take n, root.AssignsAtRoot) := by
  refine ⟨fun hModule hFile hAssign fault hFault =>
    execute_ne_emptyStack h hModule hFile hForest hAssign hPeek hFault, ?_⟩
  intro program hRead
  obtain ⟨front, statements, back, hProgram, hStatements, hFront, hBack⟩ :=
    compile_statements h hForest hRead
  refine ⟨front, statements, back, hProgram, hStatements, hFront, hBack, ?_⟩
  intro n shown reached hReached
  have hStart : ((Session.ofOptions options).bindAll pairs).machine.printMode = .peek := by
    rw [(Session.bindAll_eq (Session.ofOptions options) pairs).1]
    exact hPeek
  have hHere := Session.follow_peek hStart hReached
  have hTaken : StatementsReadAs s.runtimeInstance (forest.statements.toList.take n)
      (statements.take n) := List.forall₂_take n hStatements
  have hTargets : ∀ root ∈ forest.statements.toList.take n, root.AssignsToLeaf := by
    obtain ⟨_, σs, _, _, rfl⟩ := ofSource_eq_ok_iff.1 hForest
    intro root hRoot
    have hMem := List.mem_of_mem_take hRoot
    exact Sentence.roots_assignsToLeaf 0 σs root (by simpa [Forest.ofSentences] using hMem)
  constructor
  · intro hAssign
    have hApart := hTaken.keepsApart hAssign hHere
    exact ⟨hApart, hApart.follow_ne_emptyStack hHere⟩
  · intro more left hFollow
    exact ⟨hTaken.assignsAtRoot hTargets hHere hFollow,
      fun hAssign => hTaken.keepsApart hAssign hHere⟩

/-- An assignment, and a statement that finds the stack as it was. -/
theorem statements_kept_apart_sample :
    ∃ c forest program statements shown reached,
      compile {} "p.rpn" "c 8 =\n5 c +" = .ok c ∧
      Forest.ofSource "c 8 =\n5 c +" ({} : Settings).maxDepth = .ok forest ∧
      ({} : RunOptions).printMode = .peek ∧
      (∀ root ∈ forest.statements.toList, root.AssignsAtRoot) ∧
      Program.read c.code = .ok program ∧
      (∀ fault, executionFault? (execute {} [] c.code) = some fault →
        fault.cause ≠ .machine .emptyStack) ∧
      StatementsReadAs "rpn" forest.statements.toList statements ∧
      program.map PlacedInstruction.instruction =
        [.takeModule, .nameMachine "rpn"] ++ statements.flatten ∧
      (Session.ofOptions {}).follow [.takeModule, .nameMachine "rpn"] =
        .ok (shown, reached) ∧
      reached.KeepsApart (statements.take 2) := by
  have hAny : ((compile {} "p.rpn" "c 8 =\n5 c +").toOption.any fun c =>
      (Program.read c.code).toOption.any fun _ => true) = true := by decide +kernel
  obtain ⟨c, hCompiled, hSome⟩ := exists_ok_of_any hAny
  obtain ⟨program, hRead, _⟩ := exists_ok_of_any hSome
  have hRoots : ((Forest.ofSource "c 8 =\n5 c +" ({} : Settings).maxDepth).toOption.any
      fun forest => decide (∀ root ∈ forest.statements.toList, root.AssignsAtRoot)) =
        true := by decide +kernel
  obtain ⟨forest, hForest, hDecided⟩ := exists_ok_of_any hRoots
  have hAssign := of_decide_eq_true hDecided
  obtain ⟨hNever, hApart⟩ := statements_kept_apart hCompiled hForest
    (show ({} : RunOptions).printMode = .peek from rfl) []
  obtain ⟨front, statements, back, hProgram, hStatements, hFront, hBack, hFrom⟩ :=
    hApart program hRead
  have hModule : '\n' ∉ ({} : Settings).runtimeModule.toList := by decide
  have hFile : '\n' ∉ (({} : Settings).mapFileName "p.rpn").toList := by decide
  rw [hFront hModule, hBack hFile, List.append_nil] at hProgram
  rw [hFront hModule] at hFrom
  have hTaken : ∀ root ∈ forest.statements.toList.take 2, root.AssignsAtRoot :=
    fun root hRoot => hAssign root (List.mem_of_mem_take hRoot)
  exact ⟨c, forest, program, statements, _, _, hCompiled, hForest, rfl, hAssign, hRead,
    hNever hModule hFile hAssign, hStatements, hProgram, rfl, ((hFrom 2 _ _ rfl).1 hTaken).1⟩

/-- Whether a value was lacking on the stack. -/
def RunCause.isEmptyStack : RunCause → Bool
  | .machine .emptyStack => true
  | _ => false

theorem RunCause.isEmptyStack_iff {cause : RunCause} :
    cause.isEmptyStack = true ↔ cause = .machine .emptyStack := by
  constructor
  · intro h
    unfold isEmptyStack at h
    split at h
    · rfl
    · cases h
  · rintro rfl
    rfl

/-- An assignment that is an operand: it stops the run, or it leaves one value where the
two statements should leave one each. -/
theorem nested_assignment_touches_stack :
    (∃ c fault, compile {} "p.rpn" "1 b 2 = +" = .ok c ∧
      executionFault? (execute {} [] c.code) = some fault ∧
      fault.line = 6 ∧ fault.cause = .machine .emptyStack) ∧
    ∃ c run, compile {} "p.rpn" "5\n1 b 2 = +" = .ok c ∧
      execute {} [] c.code = .ok run ∧ run.fault.isNone = true ∧
      run.session.stack.length = 1 := by
  constructor
  · have hAny : ((compile {} "p.rpn" "1 b 2 = +").toOption.any fun c =>
        (executionFault? (execute {} [] c.code)).any fun fault =>
          decide (fault.line = 6) && fault.cause.isEmptyStack) = true := by decide +kernel
    obtain ⟨c, hCompiled, hFails⟩ := exists_ok_of_any hAny
    obtain ⟨fault, hFault, hHolds⟩ := (Option.any_eq_true _ _).1 hFails
    rw [Bool.and_eq_true, decide_eq_true_eq] at hHolds
    obtain ⟨hLine, hCause⟩ := hHolds
    exact ⟨c, fault, hCompiled, hFault, hLine, RunCause.isEmptyStack_iff.1 hCause⟩
  · have hAny : ((compile {} "p.rpn" "5\n1 b 2 = +").toOption.any fun c =>
        (execute {} [] c.code).toOption.any fun run =>
          run.fault.isNone && decide (run.session.stack.length = 1)) = true := by
      decide +kernel
    obtain ⟨c, hCompiled, hRuns⟩ := exists_ok_of_any hAny
    obtain ⟨run, hRun, hHolds⟩ := exists_ok_of_any hRuns
    rw [Bool.and_eq_true, decide_eq_true_eq] at hHolds
    exact ⟨c, run, hCompiled, hRun, hHolds.1, hHolds.2⟩

end ReversePolish
