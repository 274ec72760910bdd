import ReversePolish.Program.Session

/-!
# Runs as sequences of steps

A run lists events and ends with a fault or with a session.  For the meaning of a
program only three things count: what it displays, the session that is left, or else
the cause of the fault.  They make up the *outcome* of a row of instructions, and
outcomes compose: the outcome of two rows is that of the second, started where the
first one ends (`follow_append`).

What an instruction does is said as a pair of conditions, one on the cause of a fault
and one on what is displayed and left (`Outcome.Satisfies`).  Faults at which a limit
of the session is reached, the number of steps or the height of the stack, are allowed
everywhere, so no proof below has to count.

## Main results

* `Session.run_outcome` — a run has the outcome of its instructions.
* `Outcome.Satisfies.andThen` — conditions of consecutive rows compose.
* `Session.advance_push` and the like — what each instruction does.
-/

namespace ReversePolish

/-- What is displayed and the session that is left, or the cause of a fault. -/
abbrev Outcome := Except RunCause (List String × Session)

/-- A limit of the session is reached, whatever the program means. -/
def RunCause.IsLimit : RunCause → Prop
  | .stepLimit _ => True
  | .machine (.overflow _) => True
  | _ => False

namespace Outcome

/-- Goes on in the session that is left. -/
def andThen (o : Outcome) (next : Session → Outcome) : Outcome :=
  match o with
  | .error cause => .error cause
  | .ok (shown, left) =>
    match next left with
    | .error cause => .error cause
    | .ok (more, last) => .ok (shown ++ more, last)

/-- A condition on the cause of a fault other than a limit, and one on what is displayed
and left. -/
def Satisfies (o : Outcome) (stops : RunCause → Prop)
    (ends : List String → Session → Prop) : Prop :=
  match o with
  | .error cause => cause.IsLimit ∨ stops cause
  | .ok (shown, left) => ends shown left

theorem Satisfies.imp {o : Outcome} {stops stops' : RunCause → Prop}
    {ends ends' : List String → Session → Prop} (h : o.Satisfies stops ends)
    (hStops : ∀ cause, stops cause → stops' cause)
    (hEnds : ∀ shown left, ends shown left → ends' shown left) :
    o.Satisfies stops' ends' := by
  cases o with
  | error cause => exact Or.imp_right (hStops cause) h
  | ok result => exact hEnds result.1 result.2 h

/-- Conditions compose: a fault of either part is a fault of both together, and the
second part starts where the first one ends. -/
theorem Satisfies.andThen {o : Outcome} {next : Session → Outcome}
    {stops : RunCause → Prop} {between ends : List String → Session → Prop}
    (h : o.Satisfies stops between)
    (hNext : ∀ shown left, between shown left →
      (next left).Satisfies stops fun more last => ends (shown ++ more) last) :
    (o.andThen next).Satisfies stops ends := by
  cases o with
  | error cause => exact h
  | ok result =>
      obtain ⟨shown, left⟩ := result
      have hLeft := hNext shown left h
      cases hOutcome : next left with
      | error cause =>
          rw [hOutcome] at hLeft
          simp only [Outcome.andThen, hOutcome]
          exact hLeft
      | ok result =>
          rw [hOutcome] at hLeft
          simp only [Outcome.andThen, hOutcome]
          exact hLeft

theorem andThen_eq_ok {o : Outcome} {next : Session → Outcome} {shown : List String}
    {last : Session} (h : o.andThen next = .ok (shown, last)) :
    ∃ first left more, o = .ok (first, left) ∧ next left = .ok (more, last) := by
  cases o with
  | error cause => cases h
  | ok result =>
      obtain ⟨first, left⟩ := result
      simp only [andThen] at h
      cases hNext : next left with
      | error cause => rw [hNext] at h; cases h
      | ok result =>
          obtain ⟨more, last'⟩ := result
          rw [hNext] at h
          cases h
          exact ⟨first, left, more, rfl, hNext⟩

theorem andThen_eq_error {o : Outcome} {next : Session → Outcome} {cause : RunCause}
    (h : o.andThen next = .error cause) :
    o = .error cause ∨ ∃ first left, o = .ok (first, left) ∧ next left = .error cause := by
  cases o with
  | error cause' => exact Or.inl h
  | ok result =>
      obtain ⟨first, left⟩ := result
      simp only [andThen] at h
      cases hNext : next left with
      | error cause' =>
          rw [hNext] at h
          cases h
          exact Or.inr ⟨first, left, rfl, hNext⟩
      | ok result => rw [hNext] at h; cases h

theorem andThen_assoc (o : Outcome) (next further : Session → Outcome) :
    (o.andThen next).andThen further = o.andThen fun s => (next s).andThen further := by
  cases o with
  | error cause => rfl
  | ok result =>
      obtain ⟨shown, left⟩ := result
      simp only [andThen]
      cases next left with
      | error cause => rfl
      | ok result =>
          obtain ⟨more, last⟩ := result
          simp only
          cases further last with
          | error cause => rfl
          | ok result => simp only [List.append_assoc]

/-- Going on with nothing is going on at once. -/
theorem andThen_nothing (s : Session) (next : Session → Outcome) :
    andThen (.ok ([], s)) next = next s := by
  simp only [andThen]
  cases next s with
  | error cause => rfl
  | ok result => rfl

end Outcome

namespace Session

/-! ## Following instructions -/

/-- The outcome of a step. -/
def Step.outcome (step : Step) : Outcome :=
  step.1.map fun events => (events.filterMap Event.displayed?, step.2)

/-- The outcome of one instruction. -/
def advance (s : Session) (instruction : Instruction) : Outcome :=
  match s.limitReached? with
  | some limit => .error (.stepLimit limit)
  | none => Step.outcome ({ s with steps := s.steps + 1 }.perform instruction)

/-- The outcome of several instructions. -/
def follow (s : Session) : List Instruction → Outcome
  | [] => .ok ([], s)
  | instruction :: instructions =>
    (s.advance instruction).andThen fun left => left.follow instructions

theorem follow_singleton (s : Session) (instruction : Instruction) :
    s.follow [instruction] = s.advance instruction := by
  simp only [follow, Outcome.andThen]
  cases s.advance instruction with
  | error cause => rfl
  | ok result => simp only [List.append_nil]

theorem follow_append (s : Session) (instructions further : List Instruction) :
    s.follow (instructions ++ further) =
      (s.follow instructions).andThen fun left => left.follow further := by
  induction instructions generalizing s with
  | nil => rw [List.nil_append, follow, Outcome.andThen_nothing]
  | cons instruction instructions ih =>
      rw [List.cons_append, follow, follow, Outcome.andThen_assoc]
      congr 1
      funext left
      exact ih left

end Session

/-- The outcome of a run. -/
def Run.outcome (r : Run) : Outcome :=
  match r.fault with
  | none => .ok (r.lines, r.session)
  | some fault => .error fault.cause

/-- A run has the outcome of its instructions. -/
theorem Session.run_outcome (s : Session) (program : Program) :
    (s.run program).outcome = s.follow (program.map PlacedInstruction.instruction) := by
  induction program generalizing s with
  | nil => rfl
  | cons placed program ih =>
      rw [List.map_cons, follow, advance, run]
      cases s.limitReached? with
      | some limit => rfl
      | none =>
          cases ({ s with steps := s.steps + 1 } : Session).perform placed.instruction with
          | mk result left =>
              cases result with
              | error cause => rfl
              | ok events =>
                  simp only [Step.outcome, Except.map, Outcome.andThen]
                  rw [← ih left]
                  unfold Run.outcome
                  cases (left.run program).fault with
                  | some fault => rfl
                  | none =>
                      have hEntered : (Event.entered placed).displayed? = none := rfl
                      simp only [Run.lines, List.cons_append,
                        List.filterMap_cons_none hEntered, List.filterMap_append]

theorem Session.follow_of_fault {s : Session} {program : Program} {fault : RunFault}
    (h : (s.run program).fault = some fault) :
    s.follow (program.map PlacedInstruction.instruction) = .error fault.cause := by
  rw [← run_outcome, Run.outcome, h]

namespace Session

/-! ## Single instructions -/

/-- What is left of a session when its stack changes and nothing else does.  Steps are
not looked at. -/
structure Restacked (s : Session) (stack : List Float) (left : Session) : Prop where
  machine : left.machine = { s.machine with stack := stack }
  bindings : left.bindings = s.bindings

theorem Restacked.trans {s between left : Session} {stack stack' : List Float}
    (h : s.Restacked stack between) (h' : between.Restacked stack' left) :
    s.Restacked stack' left := by
  constructor
  · rw [h'.machine, h.machine]
  · rw [h'.bindings, h.bindings]

/-- An instruction satisfies what performing it satisfies, however many steps have been
made: a reached limit is allowed. -/
theorem advance_satisfies {s : Session} {instruction : Instruction}
    {stops : RunCause → Prop} {ends : List String → Session → Prop}
    (h : ∀ t : Session, t.machine = s.machine → t.bindings = s.bindings →
      (Step.outcome (t.perform instruction)).Satisfies stops ends) :
    (s.advance instruction).Satisfies stops ends := by
  unfold advance
  cases s.limitReached? with
  | some limit => exact Or.inl trivial
  | none => exact h _ rfl rfl

/-- The preamble changes nothing. -/
theorem advance_idle {instruction : Instruction}
    (h : instruction = .takeModule ∨ ∃ name, instruction = .nameMachine name)
    (s : Session) :
    (s.advance instruction).Satisfies (fun _ => False)
      fun shown left => shown = [] ∧ s.Restacked s.machine.stack left := by
  refine advance_satisfies fun t hMachine hBindings => ?_
  have hPerform : t.perform instruction = (.ok [], t) := by
    rcases h with rfl | ⟨name, rfl⟩ <;> rfl
  rw [hPerform]
  exact ⟨rfl, hMachine, hBindings⟩

theorem outcome_push {s t : Session} (hMachine : t.machine = s.machine)
    (hBindings : t.bindings = s.bindings) (value : Float) :
    (Step.outcome (t.lift (t.machine.push value) fun _ => [])).Satisfies (fun _ => False)
      fun shown left => shown = [] ∧ s.Restacked (value :: s.machine.stack) left := by
  rw [hMachine]
  unfold Machine.push
  split
  · exact Or.inl trivial
  · exact ⟨rfl, rfl, hBindings⟩

theorem advance_push_number (s : Session) (value : Float) :
    (s.advance (.push (.number value))).Satisfies (fun _ => False)
      fun shown left => shown = [] ∧ s.Restacked (value :: s.machine.stack) left :=
  advance_satisfies fun _ hMachine hBindings => outcome_push hMachine hBindings value

theorem advance_push_reference (s : Session) (name : String) :
    (s.advance (.push (.reference name))).Satisfies
      (fun cause => s.bindings.find? name = none ∧ cause = .unbound name)
      fun shown left => ∃ value, s.bindings.find? name = some value ∧ shown = [] ∧
        s.Restacked (value :: s.machine.stack) left := by
  refine advance_satisfies fun t hMachine hBindings => ?_
  rw [perform, hBindings]
  cases hFound : s.bindings.find? name with
  | none => exact Or.inr ⟨rfl, rfl⟩
  | some value =>
      refine (outcome_push hMachine hBindings value).imp (fun _ => False.elim) ?_
      rintro shown left ⟨hShown, hLeft⟩
      exact ⟨value, rfl, hShown, hLeft⟩

/-- An operation replaces its operands by its result, unless it has none. -/
theorem advance_calculate {s : Session} {left right : Float} {stack : List Float}
    (hStack : s.machine.stack = right :: left :: stack) (op : Operator) :
    (s.advance (.call (.calculate op))).Satisfies
      (fun cause => ∃ fault, op.apply left right = .error fault ∧ cause = .machine fault)
      fun shown last => ∃ result, op.apply left right = .ok result ∧ shown = [] ∧
        s.Restacked (result :: stack) last := by
  refine advance_satisfies fun t hMachine hBindings => ?_
  simp only [perform, call, hMachine, Machine.calculate, Machine.pop, hStack, Machine.andThen]
  cases op.apply left right with
  | error fault => exact Or.inr ⟨fault, rfl, rfl⟩
  | ok result =>
      simp only [Machine.push]
      by_cases hFull : s.machine.capacity ≤ stack.length
      · rw [if_pos hFull]
        exact Or.inl trivial
      · rw [if_neg hFull]
        exact ⟨result, rfl, rfl, rfl, hBindings⟩

/-- A print displays the top and leaves it there, unless it is no integer. -/
theorem advance_print {s : Session} {value : Float} {stack : List Float}
    (hPeek : s.machine.printMode = .peek) (hStack : s.machine.stack = value :: stack) :
    (s.advance (.call .print)).Satisfies
      (fun cause => ∃ fault, Machine.integral value = .error fault ∧ cause = .machine fault)
      fun shown left => Machine.integral value = .ok value ∧
        shown = [Number.displayed.text value] ∧ s.Restacked (value :: stack) left := by
  refine advance_satisfies fun t hMachine hBindings => ?_
  simp only [perform, call, hMachine, Machine.print, hPeek, Machine.printTop, Machine.top,
    hStack, Except.bind, Machine.integral]
  by_cases hWhole : (value.floor == value) = true
  · rw [if_pos hWhole]
    refine ⟨rfl, rfl, ?_, hBindings⟩
    rw [← hStack]
    rfl
  · rw [if_neg hWhole]
    exact Or.inr ⟨.notIntegral value, rfl, rfl⟩

/-- A binding takes the top off. -/
theorem advance_bind {s : Session} {value : Float} {stack : List Float}
    (hStack : s.machine.stack = value :: stack) (name : String) :
    (s.advance (.bind name)).Satisfies (fun _ => False)
      fun shown left => shown = [] ∧ left.machine = { s.machine with stack := stack } ∧
        left.bindings = s.bindings.insert name value := by
  refine advance_satisfies fun t hMachine hBindings => ?_
  simp only [perform, hMachine, Machine.pop, hStack]
  refine ⟨rfl, rfl, ?_⟩
  show t.bindings.insert name value = _
  rw [hBindings]

/-- A pop takes the top off. -/
theorem advance_pop {s : Session} {value : Float} {stack : List Float}
    (hStack : s.machine.stack = value :: stack) :
    (s.advance (.call .pop)).Satisfies (fun _ => False)
      fun shown left => shown = [] ∧ s.Restacked stack left := by
  refine advance_satisfies fun t hMachine hBindings => ?_
  simp only [perform, call, hMachine, Machine.pop, hStack]
  exact ⟨rfl, rfl, hBindings⟩

end Session

end ReversePolish
