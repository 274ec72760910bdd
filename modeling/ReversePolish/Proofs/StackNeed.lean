import ReversePolish.Proofs.StackBound
import ReversePolish.Proofs.StackDiscipline

/-!
# How much stack a program needs

A machine holds a bounded number of values.  How many a statement needs can be read off its
terms: all its values lie on the stack together before the first sign takes two of them off, and
below them lies one value for each earlier statement that assigns nothing.  The target of an
assignment is never pushed.

A row of instructions needs room for a number of values (`Session.Needs`) if it only runs to its
end where there is so much room, and only runs out of room where there is less.  The two
conditions are proved together, from the last value of a statement outwards: a push in front
needs one place more, and an instruction behind that is no push needs none.

Names in the settings that have several lines put instructions of their own around the statements.
So the room of a statement is counted from whatever lies on the stack in front of the first one.

## Main results

* `Session.Bounded.advance_eq_overflow` — only a push runs out of room.
* `Sentence.needs_of_plain`, `Sentence.needs` — the room that a statement needs.
* `Sentence.Rows.need` — the room that each of several statements needs, on any stack.
* `stack_requirement` — the same for a compiled source.
-/

namespace ReversePolish

/-! ## Instructions that run out of room -/

namespace Session

theorem exists_of_outcome_lift_eq_error {α : Type} {s : Session} {step : Machine.Step α}
    {events : α → List Event} {cause : RunCause}
    (h : Step.outcome (s.lift step events) = .error cause) :
    ∃ fault, step.1 = .error fault ∧ cause = .machine fault := by
  obtain ⟨result, machine⟩ := step
  cases result with
  | ok a => cases h
  | error fault => exact ⟨fault, rfl, (Except.error.inj h).symm⟩

/-- Prints leave their value, and the stack is not higher than it may be. -/
structure Bounded (s : Session) : Prop where
  peek : s.machine.printMode = .peek
  fits : s.machine.stack.length ≤ s.machine.capacity

/-- Nothing but a push runs out of room. -/
theorem Bounded.advance_eq_overflow {s : Session} (hBounded : s.Bounded)
    {instruction : Instruction} {capacity : Nat}
    (h : s.advance instruction = .error (.machine (.overflow capacity))) :
    ∃ operand, instruction = .push operand := by
  have hLift {α : Type} {step : Machine.Step α} {events : α → List Event}
      (hStep : step.1 ≠ .error (.overflow capacity)) {t : Session} :
      Step.outcome (t.lift step events) ≠ .error (.machine (.overflow capacity)) := by
    intro hFault
    obtain ⟨fault, hError, hCause⟩ := exists_of_outcome_lift_eq_error hFault
    cases hCause
    exact hStep hError
  rw [advance] at h
  cases hLimit : s.limitReached? with
  | some limit => rw [hLimit] at h; cases h
  | none =>
      rw [hLimit] at h
      cases instruction with
      | takeModule => cases h
      | nameMachine name => cases h
      | push operand => exact ⟨operand, rfl⟩
      | bind name =>
          simp only [perform, Machine.pop] at h
          split at h
          · cases h
          · next hPop => split at hPop <;> cases hPop; cases h
      | call method =>
          cases method with
          | calculate op =>
              have hContained := Machine.calculate_contained hBounded.fits op
              exact absurd h (hLift (hContained.ne_overflow capacity))
          | print =>
              have hContained := Machine.print_contained hBounded.fits
              exact absurd h (hLift (hContained.ne_overflow capacity))
          | pop =>
              have hContained := Machine.pop_contained hBounded.fits
              exact absurd h (hLift (hContained.ne_overflow capacity))

/-- A push finds the stack full, or puts its value on top. -/
theorem outcome_lift_push (s : Session) (value : Float) :
    Step.outcome (s.lift (s.machine.push value) fun _ => []) =
      if s.machine.capacity ≤ s.machine.stack.length then
        .error (.machine (.overflow s.machine.capacity))
      else
        .ok ([], { s with machine := { s.machine with stack := value :: s.machine.stack } }) := by
  unfold Machine.push
  split <;> rfl

/-- A push that succeeds had room for its value, and one that finds the stack full had none. -/
theorem advance_push_room {s : Session} {operand : Operand} :
    (∀ shown left, s.advance (.push operand) = .ok (shown, left) →
      s.machine.stack.length < s.machine.capacity) ∧
    ∀ capacity, s.advance (.push operand) = .error (.machine (.overflow capacity)) →
      s.machine.capacity ≤ s.machine.stack.length := by
  have hPush (t : Session) (hMachine : t.machine = s.machine) (value : Float) :
      (∀ shown left, Step.outcome (t.lift (t.machine.push value) fun _ => []) =
        .ok (shown, left) → s.machine.stack.length < s.machine.capacity) ∧
      ∀ capacity, Step.outcome (t.lift (t.machine.push value) fun _ => []) =
        .error (.machine (.overflow capacity)) →
          s.machine.capacity ≤ s.machine.stack.length := by
    rw [outcome_lift_push, hMachine]
    by_cases hFull : s.machine.capacity ≤ s.machine.stack.length
    · simp [hFull]
    · simp [hFull, Nat.lt_of_not_le hFull]
  rw [advance]
  cases s.limitReached? with
  | some limit => simp
  | none =>
      cases operand with
      | number value => exact hPush { s with steps := s.steps + 1 } rfl value
      | reference name =>
          simp only [perform]
          cases s.bindings.find? name with
          | none => simp [Step.outcome, Except.map]
          | some value => exact hPush { s with steps := s.steps + 1 } rfl value

/-- The bound stays the same, and the stack stays within it. -/
theorem Bounded.advance {s : Session} (hBounded : s.Bounded) {instruction : Instruction}
    {shown : List String} {left : Session} (h : s.advance instruction = .ok (shown, left)) :
    left.Bounded ∧ left.machine.capacity = s.machine.capacity := by
  obtain ⟨_, given, _, hMachine⟩ := advance_eq_ok hBounded.peek h
  have hCapacity : left.machine.capacity = s.machine.capacity := by rw [hMachine]
  have hHeight := advance_height hBounded.peek h
  have hFits := hBounded.fits
  refine ⟨⟨by rw [hMachine, hBounded.peek], ?_⟩, hCapacity⟩
  -- Only a push makes the stack higher.
  by_cases hPush : ∃ operand, instruction = .push operand
  · obtain ⟨operand, rfl⟩ := hPush
    have hRoom := advance_push_room.1 shown left h
    simp only [Instruction.takes, Instruction.gives] at hHeight
    omega
  · have hGives : instruction.gives ≤ instruction.takes := by
      cases instruction with
      | push operand => exact absurd ⟨operand, rfl⟩ hPush
      | call method => cases method <;> simp [Instruction.takes, Instruction.gives]
      | takeModule => exact Nat.le_refl 0
      | nameMachine name => exact Nat.le_refl 0
      | bind name => exact Nat.zero_le 1
    omega

theorem Bounded.follow {s : Session} (hBounded : s.Bounded) {instructions : List Instruction}
    {shown : List String} {left : Session} (h : s.follow instructions = .ok (shown, left)) :
    left.Bounded ∧ left.machine.capacity = s.machine.capacity := by
  induction instructions generalizing s shown with
  | nil =>
      cases h
      exact ⟨hBounded, rfl⟩
  | cons instruction instructions ih =>
      rw [Session.follow] at h
      obtain ⟨_, between, _, hAdvance, hRest⟩ := Outcome.andThen_eq_ok h
      obtain ⟨hBetween, hSame⟩ := hBounded.advance hAdvance
      obtain ⟨hLeft, hCapacity⟩ := ih hBetween hRest
      exact ⟨hLeft, hCapacity.trans hSame⟩

/-! ## Rows that need room -/

/-- Instructions need room for a number of values: they run to their end only where there is so
much room, and run out of room only where there is less. -/
structure Needs (s : Session) (instructions : List Instruction) (count : Nat) : Prop where
  enough : ∀ shown left, s.follow instructions = .ok (shown, left) →
    s.machine.stack.length + count ≤ s.machine.capacity
  short : ∀ capacity, s.follow instructions = .error (.machine (.overflow capacity)) →
    s.machine.capacity < s.machine.stack.length + count

/-- A push in front of a row needs one place more. -/
theorem Bounded.needs_push {s : Session} (hBounded : s.Bounded) {operand : Operand}
    {instructions : List Instruction} {count : Nat}
    (h : ∀ left : Session, left.Bounded → left.Needs instructions count) :
    s.Needs (.push operand :: instructions) (count + 1) := by
  have hBehind {shown : List String} {left : Session}
      (hLeft : s.advance (.push operand) = .ok (shown, left)) :
      left.machine.capacity = s.machine.capacity ∧
        left.machine.stack.length = s.machine.stack.length + 1 ∧
        left.Needs instructions count := by
    obtain ⟨hNext, hCapacity⟩ := hBounded.advance hLeft
    exact ⟨hCapacity, advance_height hBounded.peek hLeft, h left hNext⟩
  constructor
  · intro shown last hFollow
    rw [Session.follow] at hFollow
    obtain ⟨_, left, more, hLeft, hRest⟩ := Outcome.andThen_eq_ok hFollow
    obtain ⟨hCapacity, hHeight, hNeeds⟩ := hBehind hLeft
    have hEnough := hNeeds.enough more last hRest
    omega
  · intro capacity hFollow
    rw [Session.follow] at hFollow
    rcases Outcome.andThen_eq_error hFollow with hHere | ⟨_, left, hLeft, hRest⟩
    · have hFull := advance_push_room.2 capacity hHere
      omega
    · obtain ⟨hCapacity, hHeight, hNeeds⟩ := hBehind hLeft
      have hShort := hNeeds.short capacity hRest
      omega

/-- An instruction behind a row that is no push needs nothing more. -/
theorem Needs.concat {s : Session} {instructions : List Instruction} {count : Nat}
    (h : s.Needs instructions count) (hBounded : s.Bounded) {last : Instruction}
    (hLast : ∀ operand, last ≠ .push operand) : s.Needs (instructions ++ [last]) count := by
  constructor
  · intro shown final hFollow
    rw [follow_append] at hFollow
    obtain ⟨first, left, _, hLeft, _⟩ := Outcome.andThen_eq_ok hFollow
    exact h.enough first left hLeft
  · intro capacity hFollow
    rw [follow_append] at hFollow
    rcases Outcome.andThen_eq_error hFollow with hHere | ⟨first, left, hLeft, hRest⟩
    · exact h.short capacity hHere
    · rw [follow_singleton] at hRest
      obtain ⟨operand, hPush⟩ := (hBounded.follow hLeft).1.advance_eq_overflow hRest
      exact absurd hPush (hLast operand)

/-- Nothing needs no room. -/
theorem Bounded.needs_nil {s : Session} (hBounded : s.Bounded) : s.Needs [] 0 :=
  ⟨fun _ _ _ => hBounded.fits, fun _ hFollow => by cases hFollow⟩

end Session

/-! ## Statements -/

/-- A statement leaves one value, unless it is an assignment. -/
theorem Node.AssignsAtRoot.rise {root : Node} (h : root.AssignsAtRoot) :
    root.rise = if root.isAssign then 0 else 1 := by
  cases root with
  | value id tag kind text => rfl
  | binary id tag op left right => exact (Node.rise_eq_one_iff _).2 (h.plain rfl)
  | assign id tag target body =>
      rw [Node.rise, (Node.rise_eq_one_iff body).2 h.body_plain]
      rfl
  | print id tag operand => exact (Node.rise_eq_one_iff _).2 (h.plain rfl)

/-- Whether a term is a number or a variable. -/
def Term.isValue (t : Term) : Bool :=
  (valueKind? t.text).isSome

namespace Sentence

/-- Whether a statement is an assignment. -/
def assigns (σ : Sentence) : Bool :=
  σ.joints.head?.any (·.sign.op?.isNone)

/-- The number of values that a statement has on the stack at once: all but the target of an
assignment. -/
def demand (σ : Sentence) : Nat :=
  σ.terms.countP Term.isValue - if σ.assigns then 1 else 0

/-- The height that the stack reaches in one of several statements.  Each earlier statement that
is no assignment has left a value. -/
def need (σs : List Sentence) (i : Nat) : Nat :=
  (σs.take i).countP (fun σ => !σ.assigns) + (σs[i]?.map demand).getD 0

theorem countP_terms_within (j : Joint) (σ : Sentence) :
    (within j σ).terms.countP Term.isValue = σ.terms.countP Term.isValue + 1 := by
  have hLeft : j.left.term.isValue = true := by simp [Term.isValue, j.left.isValue]
  have hSign : j.sign.term.isValue = false := by simp [Term.isValue, j.sign.closes.1]
  rw [terms_within, List.countP_cons_of_pos hLeft, List.countP_append,
    List.countP_singleton, hSign]
  rfl

theorem countP_terms_alone (last : ValueTerm) (print? : Option Term)
    (isPrint : ∀ t ∈ print?, t.text = printWord) :
    (⟨[], last, print?, isPrint⟩ : Sentence).terms.countP Term.isValue = 1 := by
  have hLast : last.term.isValue = true := by simp [Term.isValue, last.isValue]
  cases print? with
  | none => simp [terms, hLast]
  | some t =>
      have hPrint : t.isValue = false := by
        rw [Term.isValue, isPrint t rfl]
        decide
      simp [terms, hLast, hPrint]

/-- All values of a statement that assigns nothing lie on the stack at once. -/
theorem needs_of_plain {σ : Sentence} {id : Nat} (hPlain : (σ.node id).Plain) {vm : String}
    {instructions : List Instruction}
    (hRead : Call.ReadAs vm ((σ.node id).calls.map Prod.snd) instructions) {s : Session}
    (hBounded : s.Bounded) : s.Needs instructions (σ.terms.countP Term.isValue) := by
  induction σ using Sentence.induction generalizing id instructions s with
  | alone last print? isPrint =>
      rw [countP_terms_alone]
      cases print? with
      | none =>
          obtain ⟨operand, rfl, _⟩ := hRead.of_value
          exact hBounded.needs_push fun left hLeft => hLeft.needs_nil
      | some t =>
          obtain ⟨front, rfl, hFront⟩ := hRead.of_print
          obtain ⟨operand, rfl, _⟩ := hFront.of_value
          have hPush : s.Needs [.push operand] 1 :=
            hBounded.needs_push fun left hLeft => hLeft.needs_nil
          exact hPush.concat hBounded (by simp)
  | joined j σ ih =>
      rw [node_within] at hPlain hRead
      unfold Joint.node at hPlain hRead
      rw [countP_terms_within]
      cases hOp : j.sign.op? with
      | none =>
          rw [hOp] at hPlain
          exact hPlain.elim
      | some op =>
          rw [hOp] at hPlain hRead
          obtain ⟨front, back, rfl, hFront, hBack⟩ := hRead.of_binary
          obtain ⟨operand, rfl, _⟩ := hFront.of_value
          -- The left operand is pushed below all that follows, and the sign comes last.
          have hPush : s.Needs (.push operand :: back) (σ.terms.countP Term.isValue + 1) :=
            hBounded.needs_push fun left hLeft => ih hPlain.2 hBack hLeft
          exact hPush.concat hBounded (by simp)

theorem isAssign_node (σ : Sentence) (id : Nat) : (σ.node id).isAssign = σ.assigns := by
  cases σ using Sentence.induction with
  | alone last print? isPrint => cases print? <;> rfl
  | joined j σ =>
      have hAssigns : (within j σ).assigns = j.sign.op?.isNone := rfl
      rw [node_within, hAssigns, Joint.node]
      cases j.sign.op? <;> rfl

/-- The room that a statement needs which assigns nowhere but at its root. -/
theorem needs {σ : Sentence} {id : Nat} (hAssign : (σ.node id).AssignsAtRoot) {vm : String}
    {instructions : List Instruction}
    (hRead : Call.ReadAs vm ((σ.node id).calls.map Prod.snd) instructions) {s : Session}
    (hBounded : s.Bounded) : s.Needs instructions σ.demand := by
  by_cases hRoot : σ.assigns = true
  · cases σ using Sentence.induction with
    | alone last print? isPrint => cases hRoot
    | joined j σ =>
        have hSign : j.sign.op? = none := Option.isNone_iff_eq_none.1 hRoot
        rw [node_within, Joint.node, hSign] at hAssign hRead
        obtain ⟨front, rfl, hFront⟩ := hRead.of_assign
        have hBody := needs_of_plain hAssign.body_plain hFront hBounded
        rw [demand, if_pos hRoot, countP_terms_within, Nat.add_sub_cancel]
        exact hBody.concat hBounded (by simp)
  · have hPlain : (σ.node id).Plain := by
      refine hAssign.plain ?_
      rw [isAssign_node, Bool.eq_false_iff.2 hRoot]
    rw [demand, if_neg hRoot, Nat.sub_zero]
    exact needs_of_plain hPlain hRead hBounded

end Sentence

/-! ## Statements one after the other -/

/-- Only what pushes is read as a push. -/
theorem Call.eq_push_of_read {vm : String} {call : Call} {operand : Operand}
    (h : call.read vm = .ok (.push operand)) : ∃ text, call = .push text := by
  cases call with
  | push text => exact ⟨text, rfl⟩
  | calculate op => cases h
  | bind target =>
      rw [read] at h
      split at h <;> cases h
  | print => cases h

/-- Where an item of rows that are joined stands, and what stands before it. -/
theorem exists_of_getElem?_flatten {α : Type} {rows : List (List α)} {j : Nat} {a : α}
    (h : rows.flatten[j]? = some a) :
    ∃ i k row, rows[i]? = some row ∧ row[k]? = some a ∧
      rows.flatten.take j = (rows.take i).flatten ++ row.take k ∧
      j = (rows.take i).flatten.length + k := by
  induction rows generalizing j with
  | nil => cases h
  | cons row rows ih =>
      rw [List.flatten_cons] at h ⊢
      by_cases hHere : j < row.length
      · rw [List.getElem?_append_left hHere] at h
        refine ⟨0, j, row, rfl, h, ?_, (Nat.zero_add j).symm⟩
        exact List.take_append_of_le_length (Nat.le_of_lt hHere)
      · rw [List.getElem?_append_right (by omega)] at h
        obtain ⟨i, k, found, hFound, hItem, hBefore, hIndex⟩ := ih h
        refine ⟨i + 1, k, found, hFound, hItem, ?_, ?_⟩
        · rw [List.take_append, hBefore, List.take_of_length_le (by omega), List.take_succ_cons,
            List.flatten_cons, List.append_assoc]
        · rw [List.take_succ_cons, List.flatten_cons, List.length_append]
          omega

/-- The instructions of statements that assign nowhere but at their roots, one row for each. -/
def Sentence.Rows (vm : String) : List Sentence → List (List Instruction) → Prop :=
  List.Forall₂ fun σ row => ∃ id, (σ.node id).AssignsAtRoot ∧
    Call.ReadAs vm ((σ.node id).calls.map Prod.snd) row

namespace Sentence.Rows

theorem of_statements {vm : String} {id : Nat} {σs : List Sentence}
    {statements : List (List Instruction)}
    (h : StatementsReadAs vm (Sentence.roots id σs) statements)
    (hAssign : ∀ root ∈ Sentence.roots id σs, root.AssignsAtRoot) :
    Rows vm σs statements := by
  induction σs generalizing id statements with
  | nil =>
      cases h
      exact List.Forall₂.nil
  | cons σ σs ih =>
      rw [Sentence.roots] at h hAssign
      rw [List.forall_mem_cons] at hAssign
      cases h with
      | cons hRow hRows =>
          exact List.Forall₂.cons ⟨id, hAssign.1, hRow⟩ (ih hRows hAssign.2)

variable {vm : String} {σs : List Sentence} {rows : List (List Instruction)}

theorem of_forest (h : StatementsReadAs vm (Forest.ofSentences σs).statements.toList rows)
    (hAssign : ∀ root ∈ (Forest.ofSentences σs).statements.toList, root.AssignsAtRoot) :
    Rows vm σs rows := by
  simp only [Forest.ofSentences, List.toList_toArray] at h hAssign
  exact of_statements h hAssign

theorem exists_of_getElem? (h : Rows vm σs rows) {i : Nat} {row : List Instruction}
    (hRow : rows[i]? = some row) :
    ∃ σ id, σs[i]? = some σ ∧ (σ.node id).AssignsAtRoot ∧
      Call.ReadAs vm ((σ.node id).calls.map Prod.snd) row := by
  obtain ⟨hLength, hAll⟩ := List.forall₂_iff_get.1 h
  obtain ⟨hBound, rfl⟩ := List.getElem?_eq_some_iff.1 hRow
  have hHere : i < σs.length := by omega
  obtain ⟨id, hAssign, hRead⟩ := hAll i hHere hBound
  exact ⟨σs[i], id, List.getElem?_eq_getElem hHere, hAssign, hRead⟩

/-- A push stands where a term of its statement is pushed. -/
theorem exists_push (h : Rows vm σs rows) {i k : Nat} {row : List Instruction}
    (hRow : rows[i]? = some row) {operand : Operand} (hPush : row[k]? = some (.push operand)) :
    ∃ σ t text, σs[i]? = some σ ∧ σ.script[k]? = some (t, .push text) := by
  obtain ⟨σ, id, hσ, _, hRead⟩ := h.exists_of_getElem? hRow
  obtain ⟨call, hCall, hCallRead⟩ := hRead.exists_of_getElem? hPush
  obtain ⟨text, rfl⟩ := Call.eq_push_of_read hCallRead
  rw [Sentence.node_calls, List.map_map, List.getElem?_map] at hCall
  obtain ⟨⟨t, call⟩, hEntry, hSame⟩ := Option.map_eq_some_iff.1 hCall
  cases hSame
  exact ⟨σ, t, text, hσ, hEntry⟩

/-- Statements have as many instructions as calls. -/
theorem length_flatten (h : Rows vm σs rows) :
    rows.flatten.length = (σs.flatMap Sentence.script).length := by
  induction h with
  | nil => rfl
  | @cons σ row σs rows hRow _ ih =>
      obtain ⟨id, _, hRead⟩ := hRow
      have hLength := List.Forall₂.length_eq hRead
      rw [List.length_map, Sentence.node_calls, List.length_map] at hLength
      rw [List.flatten_cons, List.flatMap_cons, List.length_append, List.length_append, ih,
        hLength]

/-- What a statement finds: one value for each earlier one that assigns nothing. -/
theorem reaches (h : Rows vm σs rows) {s : Session} (hBounded : s.Bounded) (i : Nat)
    {shown : List String} {reached : Session}
    (hReached : s.follow (rows.take i).flatten = .ok (shown, reached)) :
    reached.machine.stack.length =
      s.machine.stack.length + (σs.take i).countP fun σ => !σ.assigns := by
  induction h generalizing s i shown with
  | nil =>
      rw [List.take_nil] at hReached
      cases hReached
      rw [List.take_nil]
      rfl
  | @cons σ row σs rows hRow hRows ih =>
      cases i with
      | zero =>
          cases hReached
          rfl
      | succ i =>
          obtain ⟨id, hAssign, hRead⟩ := hRow
          rw [List.take_succ_cons, List.flatten_cons, Session.follow_append] at hReached
          obtain ⟨_, between, _, hHere, hLater⟩ := Outcome.andThen_eq_ok hReached
          have hHeight := Node.follow_height hRead hBounded.peek hHere
          rw [hAssign.rise, Sentence.isAssign_node] at hHeight
          have hRest := ih (hBounded.follow hHere).1 i hLater
          rw [List.take_succ_cons]
          by_cases hAssigns : σ.assigns = true
          · rw [if_pos hAssigns] at hHeight
            rw [List.countP_cons_of_neg (by simp [hAssigns])]
            omega
          · rw [if_neg hAssigns] at hHeight
            rw [List.countP_cons_of_pos (by simp [hAssigns])]
            omega

/-- The room that a statement needs behind the earlier ones, above what lay on the stack in front
of them all. -/
theorem need (h : Rows vm σs rows) {s : Session} (hBounded : s.Bounded) {i : Nat}
    {row : List Instruction} (hRow : rows[i]? = some row) {shown : List String}
    {reached : Session} (hReached : s.follow (rows.take i).flatten = .ok (shown, reached)) :
    (∀ more left, reached.follow row = .ok (more, left) →
      s.machine.stack.length + Sentence.need σs i ≤ s.machine.capacity) ∧
    ∀ capacity, reached.follow row = .error (.machine (.overflow capacity)) →
      s.machine.capacity < s.machine.stack.length + Sentence.need σs i := by
  obtain ⟨hThere, hCapacity⟩ := hBounded.follow hReached
  have hHeight := h.reaches hBounded i hReached
  obtain ⟨σ, id, hσ, hAssign, hRead⟩ := h.exists_of_getElem? hRow
  have hNeeds := Sentence.needs hAssign hRead hThere
  have hNeed : reached.machine.stack.length + σ.demand =
      s.machine.stack.length + Sentence.need σs i := by
    rw [Sentence.need, hσ, hHeight, Nat.add_assoc]
    rfl
  rw [← hNeed, ← hCapacity]
  exact ⟨hNeeds.enough, hNeeds.short⟩

/-- A run that succeeds has had room for each statement. -/
theorem need_le (h : Rows vm σs rows) {s : Session} (hBounded : s.Bounded)
    {shown : List String} {left : Session}
    (hFollow : s.follow rows.flatten = .ok (shown, left)) {i : Nat} (hi : i < σs.length) :
    s.machine.stack.length + Sentence.need σs i ≤ s.machine.capacity := by
  have hBound : i < rows.length := by rwa [← List.Forall₂.length_eq h]
  have hRow := List.getElem?_eq_getElem hBound
  have hSplit : rows.flatten =
      (rows.take i).flatten ++ (rows[i] ++ (rows.drop (i + 1)).flatten) := by
    rw [← List.flatten_cons, ← List.flatten_append, ← List.drop_eq_getElem_cons hBound,
      List.take_append_drop]
  rw [hSplit, Session.follow_append] at hFollow
  obtain ⟨_, reached, _, hReached, hRest⟩ := Outcome.andThen_eq_ok hFollow
  rw [Session.follow_append] at hRest
  obtain ⟨more, behind, _, hHere, _⟩ := Outcome.andThen_eq_ok hRest
  exact (h.need hBounded hRow hReached).1 more behind hHere

/-- A push that runs out of room stands in a statement that needs more. -/
theorem lt_need (h : Rows vm σs rows) {s : Session} (hBounded : s.Bounded) {j : Nat}
    {instruction : Instruction} (hInstruction : rows.flatten[j]? = some instruction)
    {shown : List String} {reached : Session}
    (hReached : s.follow (rows.flatten.take j) = .ok (shown, reached)) {capacity : Nat}
    (hFull : reached.advance instruction = .error (.machine (.overflow capacity))) :
    ∃ i k σ t operand, σs[i]? = some σ ∧ σ.script[k]? = some (t, .push operand) ∧
      j = ((σs.take i).flatMap Sentence.script).length + k ∧
      s.machine.capacity < s.machine.stack.length + Sentence.need σs i := by
  obtain ⟨operand, rfl⟩ := (hBounded.follow hReached).1.advance_eq_overflow hFull
  obtain ⟨i, k, row, hRow, hItem, hBefore, hIndex⟩ := exists_of_getElem?_flatten hInstruction
  rw [hBefore, Session.follow_append] at hReached
  obtain ⟨_, between, _, hBetween, hWithin⟩ := Outcome.andThen_eq_ok hReached
  -- The row stops where its instruction does.
  have hStops : between.follow row = .error (.machine (.overflow capacity)) := by
    obtain ⟨hBound, hGet⟩ := List.getElem?_eq_some_iff.1 hItem
    rw [← List.take_append_drop k row, List.drop_eq_getElem_cons hBound, hGet,
      Session.follow_append, hWithin, Outcome.andThen, Session.follow, hFull]
    rfl
  have hTaken : Rows vm (σs.take i) (rows.take i) := List.forall₂_take i h
  rw [hTaken.length_flatten] at hIndex
  obtain ⟨σ, t, text, hσ, hPush⟩ := h.exists_push hRow hItem
  exact ⟨i, k, σ, t, text, hσ, hPush, hIndex,
    (h.need hBounded hRow hBetween).2 capacity hStops⟩

end Sentence.Rows

/-! ## Compiled code -/

theorem Program.le_line_of_readLines {line : Nat} {vm? : Option String}
    {texts : List (List Char)} {program : Program} (h : readLines line vm? texts = .ok program) :
    ∀ placed ∈ program, line ≤ placed.line := by
  induction texts generalizing line vm? program with
  | nil =>
      cases h
      simp
  | cons text texts ih =>
      rw [readLines] at h
      split at h
      · cases h
      · intro placed hPlaced
        exact Nat.le_of_succ_le (ih h placed hPlaced)
      · obtain ⟨further, hFurther, rfl⟩ := exists_of_map_eq_ok h
        rw [List.forall_mem_cons]
        exact ⟨Nat.le_refl line,
          fun placed hPlaced => Nat.le_of_succ_le (ih hFurther placed hPlaced)⟩

/-- The program of a source when the name of the module has one line. -/
theorem compile_rows {s : Settings} {name text : String} {c : Compiled}
    (h : compile s name text = .ok c) (hModule : '\n' ∉ s.runtimeModule.toList)
    {σs : List Sentence}
    (hForest : Forest.ofSource text s.maxDepth = .ok (Forest.ofSentences σs))
    (hAssign : ∀ root ∈ (Forest.ofSentences σs).statements.toList, root.AssignsAtRoot)
    {program : Program} (hRead : Program.read c.code = .ok program) :
    ∃ rows back, Sentence.Rows s.runtimeInstance σs rows ∧
      program = ⟨1, .takeModule⟩ :: ⟨2, .nameMachine s.runtimeInstance⟩ ::
        (Program.placedFrom 3 rows.flatten ++ back) ∧
      (∀ placed ∈ back, 3 + rows.flatten.length ≤ placed.line) ∧
      ('\n' ∉ (s.mapFileName name).toList → back = []) := by
  obtain ⟨hCheck, _⟩ := compile_eq_ok h
  obtain ⟨front, rows, back, rfl, hRows, hFront, hBack⟩ := compile_program h hForest hRead
  rw [Program.readLines_moduleLines hCheck hModule] at hFront
  cases hFront
  rw [Settings.moduleLines_eq hCheck hModule] at hBack ⊢
  refine ⟨rows, back, Sentence.Rows.of_forest hRows hAssign, rfl,
    Program.le_line_of_readLines hBack, fun hFile => ?_⟩
  rw [Program.readLines_mapComment hFile] at hBack
  exact (Except.ok.inj hBack).symm

/-- A session that is started has an empty stack. -/
theorem Session.bounded_bindAll {options : RunOptions} (hPeek : options.printMode = .peek)
    (pairs : List (String × Float)) :
    ((Session.ofOptions options).bindAll pairs).Bounded ∧
      ((Session.ofOptions options).bindAll pairs).machine.stack = [] ∧
      ((Session.ofOptions options).bindAll pairs).machine.capacity = options.capacity := by
  have hMachine := (Session.bindAll_eq (Session.ofOptions options) pairs).1
  refine ⟨⟨?_, ?_⟩, ?_, ?_⟩
  · rw [hMachine]
    exact hPeek
  · rw [hMachine]
    exact Nat.zero_le _
  · rw [hMachine]
    rfl
  · rw [hMachine]
    rfl

/-- The instructions in front of the statements leave the stack empty. -/
theorem Session.exists_of_follow_preamble {options : RunOptions}
    (hPeek : options.printMode = .peek) {pairs : List (String × Float)} {vm : String}
    {instructions : List Instruction} {shown : List String} {left : Session}
    (h : ((Session.ofOptions options).bindAll pairs).follow
      (.takeModule :: .nameMachine vm :: instructions) = .ok (shown, left)) :
    ∃ (reached : Session) (more : List String), reached.Bounded ∧
      reached.machine.stack = [] ∧ reached.machine.capacity = options.capacity ∧
      reached.follow instructions = .ok (more, left) := by
  obtain ⟨hStart, hEmpty, hRoom⟩ := Session.bounded_bindAll hPeek pairs
  rw [Session.follow] at h
  obtain ⟨_, between, _, hFirst, h⟩ := Outcome.andThen_eq_ok h
  rw [Session.follow] at h
  obtain ⟨_, reached, more, hSecond, hRest⟩ := Outcome.andThen_eq_ok h
  obtain ⟨hBetween, hSame⟩ := hStart.advance hFirst
  obtain ⟨hReached, hSame'⟩ := hBetween.advance hSecond
  have hFirstHeight := Session.advance_height hStart.peek hFirst
  have hSecondHeight := Session.advance_height hBetween.peek hSecond
  simp only [Instruction.takes, Instruction.gives] at hFirstHeight hSecondHeight
  rw [hEmpty, List.length_nil] at hFirstHeight
  exact ⟨reached, more, hReached, List.length_eq_zero_iff.1 (by omega), by omega, hRest⟩

section Execution

variable {s : Settings} {name text : String} {c : Compiled} {σs : List Sentence}
  {options : RunOptions} {pairs : List (String × Float)}

/-- An execution that succeeds has had room for each statement.  What a preamble of several lines
leaves on the stack only adds to that. -/
theorem execute_need_le (h : compile s name text = .ok c)
    (hForest : Forest.ofSource text s.maxDepth = .ok (Forest.ofSentences σs))
    (hAssign : ∀ root ∈ (Forest.ofSentences σs).statements.toList, root.AssignsAtRoot)
    (hPeek : options.printMode = .peek)
    (hRuns : executionFault? (execute options pairs c.code) = none) {i : Nat}
    (hi : i < σs.length) : Sentence.need σs i ≤ options.capacity := by
  obtain ⟨hStart, _, hRoom⟩ := Session.bounded_bindAll hPeek pairs
  rw [execute] at hRuns
  cases hRead : Program.read c.code with
  | error unread => rw [hRead] at hRuns; cases hRuns
  | ok program =>
      rw [hRead] at hRuns
      obtain ⟨front, rows, back, hProgram, hStatements, _, _⟩ :=
        compile_statements h hForest hRead
      have hRows := Sentence.Rows.of_forest hStatements hAssign
      have hFollow := Session.run_outcome ((Session.ofOptions options).bindAll pairs) program
      rw [Run.outcome, show Run.fault _ = none from hRuns, hProgram, List.append_assoc,
        Session.follow_append] at hFollow
      obtain ⟨_, reached, _, hFront, hRest⟩ := Outcome.andThen_eq_ok hFollow.symm
      rw [Session.follow_append] at hRest
      obtain ⟨_, _, _, hHere, _⟩ := Outcome.andThen_eq_ok hRest
      obtain ⟨hReached, hCapacity⟩ := hStart.follow hFront
      have hNeed := hRows.need_le hReached hHere hi
      omega

/-- An execution that finds the stack full does so in a statement that needs more, or behind all
statements, on a further line of the comment. -/
theorem execute_lt_need (h : compile s name text = .ok c)
    (hModule : '\n' ∉ s.runtimeModule.toList)
    (hForest : Forest.ofSource text s.maxDepth = .ok (Forest.ofSentences σs))
    (hAssign : ∀ root ∈ (Forest.ofSentences σs).statements.toList, root.AssignsAtRoot)
    (hPeek : options.printMode = .peek) {fault : RunFault}
    (hFault : executionFault? (execute options pairs c.code) = some fault) {capacity : Nat}
    (hCause : fault.cause = .machine (.overflow capacity)) :
    (∃ i k σ t operand, σs[i]? = some σ ∧ σ.script[k]? = some (t, .push operand) ∧
      fault.line = 3 + ((σs.take i).flatMap Sentence.script).length + k ∧
      options.capacity < Sentence.need σs i) ∨
    '\n' ∈ (s.mapFileName name).toList ∧
      3 + (σs.flatMap Sentence.script).length ≤ fault.line := by
  have hStart := (Session.bounded_bindAll hPeek pairs).1
  rw [execute] at hFault
  cases hRead : Program.read c.code with
  | error unread =>
      rw [hRead] at hFault
      cases hFault
      exact absurd hCause (Program.readLines_ne_machine hRead _)
  | ok program =>
      rw [hRead] at hFault
      obtain ⟨rows, back, hRows, rfl, hBehind, hBack⟩ :=
        compile_rows h hModule hForest hAssign hRead
      obtain ⟨n, placed, shown, stopped, hPlaced, hLine, hFollow, hStops⟩ :=
        Session.run_fault hFault
      rw [hCause] at hStops
      obtain ⟨_, hOperand⟩ := (hStart.follow hFollow).1.advance_eq_overflow hStops
      rcases n with _ | _ | j
      · cases hPlaced
        cases hOperand
      · cases hPlaced
        cases hOperand
      · rw [List.getElem?_cons_succ, List.getElem?_cons_succ] at hPlaced
        by_cases hWithin : j < (Program.placedFrom 3 rows.flatten).length
        · left
          rw [List.getElem?_append_left hWithin, Program.getElem?_placedFrom] at hPlaced
          obtain ⟨instruction, hInstruction, rfl⟩ := Option.map_eq_some_iff.1 hPlaced
          rw [List.take_succ_cons, List.take_succ_cons,
            List.take_append_of_le_length (Nat.le_of_lt hWithin), List.map_cons, List.map_cons,
            Program.map_instruction_take_placedFrom] at hFollow
          obtain ⟨reached, _, hReached, hEmpty, hRoom, hRest⟩ :=
            Session.exists_of_follow_preamble hPeek hFollow
          obtain ⟨i, k, σ, t, operand, hσ, hPush, hIndex, hNeed⟩ :=
            hRows.lt_need hReached hInstruction hRest hStops
          rw [hEmpty, List.length_nil, Nat.zero_add] at hNeed
          refine ⟨i, k, σ, t, operand, hσ, hPush, ?_, by omega⟩
          have hHere : fault.line = 3 + j := hLine
          omega
        · right
          rw [List.getElem?_append_right (Nat.le_of_not_lt hWithin)] at hPlaced
          have hMem := List.mem_of_getElem? hPlaced
          rw [hLine, ← hRows.length_flatten]
          refine ⟨?_, hBehind placed hMem⟩
          by_contra hFile
          rw [hBack hFile] at hMem
          cases hMem

end Execution

/-- **How much stack a program needs.**  A program is run from an empty stack, prints leave
their value, and no statement assigns but at its root.  A statement needs room for its own
values, without the target if it is an assignment, and for one value of each earlier statement
that is no assignment.  If the run succeeds, there was so much room for each statement.  If a
push finds the stack full and the name of the module has one line, then the line of the fault is
that of a push of a statement for which there was less, or the name of the map has several lines
and put the push behind all statements.  A name of the module with several lines can put pushes in
front of the statements, and then each statement needs its room above the values that these
left. -/
theorem stack_requirement {s : Settings} {name text : String} {c : Compiled}
    (h : compile s name text = .ok c) {forest : Forest}
    (hForest : Forest.ofSource text s.maxDepth = .ok forest)
    (hAssign : ∀ root ∈ forest.statements.toList, root.AssignsAtRoot) {options : RunOptions}
    (hPeek : options.printMode = .peek) (pairs : List (String × Float)) :
    ∃ σs, Written σs (termsOf text) ∧ forest = Forest.ofSentences σs ∧
      (executionFault? (execute options pairs c.code) = none →
        ∀ i < σs.length, Sentence.need σs i ≤ options.capacity) ∧
      ('\n' ∉ s.runtimeModule.toList →
        ∀ fault capacity, executionFault? (execute options pairs c.code) = some fault →
          fault.cause = .machine (.overflow capacity) →
          (∃ i k σ t operand, σs[i]? = some σ ∧ σ.script[k]? = some (t, .push operand) ∧
            fault.line = 3 + ((σs.take i).flatMap Sentence.script).length + k ∧
            options.capacity < Sentence.need σs i) ∨
          '\n' ∈ (s.mapFileName name).toList ∧
            3 + (σs.flatMap Sentence.script).length ≤ fault.line) ∧
      ∀ program, Program.read c.code = .ok program →
        ∃ front rows back,
          program.map PlacedInstruction.instruction = front ++ rows.flatten ++ back ∧
          StatementsReadAs s.runtimeInstance forest.statements.toList rows ∧
          ∀ (start : Session) i row shown reached, start.Bounded → rows[i]? = some row →
            start.follow (rows.take i).flatten = .ok (shown, reached) →
            (∀ more left, reached.follow row = .ok (more, left) →
              start.machine.stack.length + Sentence.need σs i ≤ start.machine.capacity) ∧
            ∀ capacity, reached.follow row = .error (.machine (.overflow capacity)) →
              start.machine.capacity < start.machine.stack.length + Sentence.need σs i := by
  obtain ⟨_, σs, hWritten, _, rfl⟩ := ofSource_eq_ok_iff.1 hForest
  refine ⟨σs, hWritten, rfl, ?_, ?_, ?_⟩
  · intro hRuns i hi
    exact execute_need_le h hForest hAssign hPeek hRuns hi
  · intro hModule fault capacity hFault hCause
    exact execute_lt_need h hModule hForest hAssign hPeek hFault hCause
  · intro program hRead
    obtain ⟨front, rows, back, hProgram, hRows, _, _⟩ := compile_statements h hForest hRead
    refine ⟨front, rows, back, hProgram, hRows, ?_⟩
    intro start i row shown reached hBounded hRow hReached
    exact (Sentence.Rows.of_forest hRows hAssign).need hBounded hRow hReached

/-- The bound that a stack was found to have reached. -/
def RunCause.overflow? : RunCause → Option Nat
  | .machine (.overflow capacity) => some capacity
  | _ => none

theorem RunCause.eq_of_overflow? {cause : RunCause} {capacity : Nat}
    (h : cause.overflow? = some capacity) : cause = .machine (.overflow capacity) := by
  unfold overflow? at h
  split at h
  · rw [Option.some.inj h]
  · cases h

/-- An assignment, a statement that leaves a value, and one that needs two places more.  Three
places are enough, and with two the last push of the last statement finds the stack full. -/
theorem stack_requirement_sample :
    ∃ c forest, compile {} "p.rpn" "a 1 2 + =\n7\n3 a +" = .ok c ∧
      Forest.ofSource "a 1 2 + =\n7\n3 a +" ({} : Settings).maxDepth = .ok forest ∧
      (∀ root ∈ forest.statements.toList, root.AssignsAtRoot) ∧
      (executionFault? (execute { capacity := 3 } [] c.code) = none ∧
        ∃ σs, Written σs (termsOf "a 1 2 + =\n7\n3 a +") ∧ forest = Forest.ofSentences σs ∧
          ∀ i < σs.length, Sentence.need σs i ≤ 3) ∧
      ∃ fault, executionFault? (execute { capacity := 2 } [] c.code) = some fault ∧
        fault.cause = .machine (.overflow 2) ∧
        ∃ σs i k σ t operand, Written σs (termsOf "a 1 2 + =\n7\n3 a +") ∧
          forest = Forest.ofSentences σs ∧ σs[i]? = some σ ∧
          σ.script[k]? = some (t, .push operand) ∧
          9 = 3 + ((σs.take i).flatMap Sentence.script).length + k ∧
          2 < Sentence.need σs i := by
  have hAny : ((compile {} "p.rpn" "a 1 2 + =\n7\n3 a +").toOption.any fun c =>
      (executionFault? (execute { capacity := 3 } [] c.code)).isNone &&
        (executionFault? (execute { capacity := 2 } [] c.code)).any fun fault =>
          decide (fault.line = 9) && decide (fault.cause.overflow? = some 2)) = true := by
    decide +kernel
  obtain ⟨c, hCompiled, hHolds⟩ := exists_ok_of_any hAny
  obtain ⟨hNone, hSome⟩ := Bool.and_eq_true_iff.1 hHolds
  have hRuns := Option.isNone_iff_eq_none.1 hNone
  obtain ⟨fault, hFault, hFull⟩ := (Option.any_eq_true _ _).1 hSome
  rw [Bool.and_eq_true, decide_eq_true_eq, decide_eq_true_eq] at hFull
  obtain ⟨hLine, hOverflow⟩ := hFull
  have hRoots : ((Forest.ofSource "a 1 2 + =\n7\n3 a +" ({} : Settings).maxDepth).toOption.any
      fun forest => decide (∀ root ∈ forest.statements.toList, root.AssignsAtRoot)) =
        true := by decide +kernel
  obtain ⟨forest, hForest, hDecided⟩ := exists_ok_of_any hRoots
  have hAssign := of_decide_eq_true hDecided
  have hCause := RunCause.eq_of_overflow? hOverflow
  have hModule : '\n' ∉ ({} : Settings).runtimeModule.toList := by decide
  have hFile : '\n' ∉ (({} : Settings).mapFileName "p.rpn").toList := by decide
  obtain ⟨σs, hWritten, hTrees, hNeed, _⟩ := stack_requirement hCompiled hForest hAssign
    (show ({ capacity := 3 } : RunOptions).printMode = .peek from rfl) []
  obtain ⟨τs, hWritten', hTrees', _, hShort, _⟩ := stack_requirement hCompiled hForest hAssign
    (show ({ capacity := 2 } : RunOptions).printMode = .peek from rfl) []
  rcases hShort hModule fault 2 hFault hCause with
    ⟨i, k, σ, t, operand, hσ, hPush, hPlace, hLess⟩ | ⟨hNewline, _⟩
  · rw [hLine] at hPlace
    exact ⟨c, forest, hCompiled, hForest, hAssign, ⟨hRuns, σs, hWritten, hTrees, hNeed hRuns⟩,
      fault, hFault, hCause, τs, i, k, σ, t, operand, hWritten', hTrees', hσ, hPush, hPlace, hLess⟩
  · exact absurd hNewline hFile

/-- A name of the module with further lines, which put a push in front of a statement that needs
one place.  Where there is one place, the stack is found full on the line of the statement. -/
theorem module_name_fills_stack :
    let s : Settings := { runtimeModule := "./vm.js;\nlet rpn = new Rpn();\nrpn.push( 1 );\n//" }
    ∃ c forest σs fault, compile s "p.rpn" "7" = .ok c ∧
      Forest.ofSource "7" s.maxDepth = .ok forest ∧
      (∀ root ∈ forest.statements.toList, root.AssignsAtRoot) ∧
      Written σs (termsOf "7") ∧ forest = Forest.ofSentences σs ∧
      (∀ i < σs.length, Sentence.need σs i ≤ 1) ∧
      c.table.map (fun m => (m.generated.line, m.name)) = [(6, "7")] ∧
      executionFault? (execute { capacity := 1 } [] c.code) = some fault ∧ fault.line = 6 ∧
      fault.cause = .machine (.overflow 1) := by
  intro s
  have hAny : ((compile s "p.rpn" "7").toOption.any fun c =>
      decide (c.table.map (fun m => (m.generated.line, m.name)) = [(6, "7")]) &&
        (executionFault? (execute { capacity := 1 } [] c.code)).any fun fault =>
          decide (fault.line = 6) && decide (fault.cause.overflow? = some 1)) = true := by
    decide +kernel
  obtain ⟨c, hCompiled, hHolds⟩ := exists_ok_of_any hAny
  obtain ⟨hTable, hSome⟩ := Bool.and_eq_true_iff.1 hHolds
  obtain ⟨fault, hFault, hFull⟩ := (Option.any_eq_true _ _).1 hSome
  rw [Bool.and_eq_true, decide_eq_true_eq, decide_eq_true_eq] at hFull
  have hRoots : ((Forest.ofSource "7" s.maxDepth).toOption.any fun forest =>
      decide (∀ root ∈ forest.statements.toList, root.AssignsAtRoot)) = true := by decide +kernel
  obtain ⟨forest, hForest, hDecided⟩ := exists_ok_of_any hRoots
  have hAssign := of_decide_eq_true hDecided
  obtain ⟨_, σs, hWritten, _, rfl⟩ := ofSource_eq_ok_iff.1 hForest
  -- That the statement needs one place is read off the run with a name of one line.
  have hPlain : ((compile {} "p.rpn" "7").toOption.any fun c =>
      (executionFault? (execute { capacity := 1 } [] c.code)).isNone) = true := by decide +kernel
  obtain ⟨_, hOneLine, hNone⟩ := exists_ok_of_any hPlain
  have hNeed (i : Nat) (hi : i < σs.length) : Sentence.need σs i ≤ 1 :=
    execute_need_le hOneLine hForest hAssign
      (show ({ capacity := 1 } : RunOptions).printMode = .peek from rfl)
      (Option.isNone_iff_eq_none.1 hNone) hi
  exact ⟨c, _, σs, fault, hCompiled, hForest, hAssign, hWritten, rfl, hNeed,
    of_decide_eq_true hTable, hFault, hFull.1, RunCause.eq_of_overflow? hFull.2⟩

end ReversePolish
