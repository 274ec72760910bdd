import ReversePolish.Proofs.Printing

/-!
# The bound of a stack

A machine never holds more values than its capacity.  Only a push looks at the capacity.  A
calculation puts its result on the stack by a push as well, and this push could fail if the
stack were fuller than it may be.  So that no calculation overflows the stack is not a fact
about calculations.  It rests on the bound, and the bound on every earlier action.

An operation may fail after it has popped nothing, one value or two, and what it popped does
not come back.  Operations are put together by `Machine.andThen`, and what they can do to the
stack is put together in the same way (`Machine.pop_andThen_contained`).

## Main results

* `Machine.calculate_contained`, `Machine.print_contained` — what an operation can do to a
  stack that is within its bound.
* `Machine.Within.act`, `Machine.Within.actAll` — the bound is kept by one action, and by any
  sequence of them.
* `machine_stays_within_bound` — the bound, the only overflow, and what a failure costs.
-/

namespace ReversePolish

theorem Operator.apply_ne_overflow (op : Operator) (left right : Float) (capacity : Nat) :
    op.apply left right ≠ .error (.overflow capacity) := by
  unfold apply
  split
  · simp
  · simp
  · simp
  · split <;> simp

namespace Machine

/-! ## What an operation can do -/

/-- A step from `m` changes nothing but the stack, leaves it within its bound, and does not
overflow it.  If the step fails, it has popped at most the given number of values. -/
structure Contained {α : Type} (m : Machine) (popped : Nat) (step : Step α) : Prop where
  frame : step.2 = { m with stack := step.2.stack }
  fits : step.2.stack.length ≤ m.capacity
  ne_overflow : ∀ capacity, step.1 ≠ .error (.overflow capacity)
  suffix : ∀ fault, step.1 = .error fault → step.2.stack <:+ m.stack
  lost : ∀ fault, step.1 = .error fault → m.stack.length ≤ step.2.stack.length + popped

variable {m : Machine}

theorem error_contained {α : Type} (hFits : m.stack.length ≤ m.capacity) (popped : Nat)
    {fault : MachineFault} (hFault : ∀ capacity, fault ≠ .overflow capacity) :
    Contained m popped ((.error fault, m) : Step α) where
  frame := rfl
  fits := hFits
  ne_overflow := by
    intro capacity h
    exact hFault capacity (Except.error.inj h)
  suffix := fun _ _ => List.suffix_rfl
  lost := fun _ _ => Nat.le_add_right _ _

theorem ok_contained {α : Type} (popped : Nat) (a : α) {stack : List Float}
    (hFits : stack.length ≤ m.capacity) :
    Contained m popped (.ok a, { m with stack := stack }) where
  frame := rfl
  fits := hFits
  ne_overflow := by simp
  suffix := by simp
  lost := by simp

/-- A pop in front: if it succeeds, there is one value more that a later failure has cost. -/
theorem pop_andThen_contained {α : Type} {popped : Nat} {next : Float → Machine → Step α}
    (hFits : m.stack.length ≤ m.capacity)
    (h : ∀ value rest, m.stack = value :: rest →
      Contained { m with stack := rest } popped (next value { m with stack := rest })) :
    Contained m (popped + 1) (andThen m.pop next) := by
  cases hStack : m.stack with
  | nil =>
      have hPop : andThen m.pop next = (.error .emptyStack, m) := by
        simp only [pop, hStack, andThen]
      rw [hPop]
      exact error_contained hFits _ (by simp)
  | cons value rest =>
      have hPop : andThen m.pop next = next value { m with stack := rest } := by
        simp only [pop, hStack, andThen]
      have hNext := h value rest hStack
      rw [hPop]
      refine
        { frame := hNext.frame
          fits := hNext.fits
          ne_overflow := hNext.ne_overflow
          suffix := ?_
          lost := ?_ }
      · intro fault hFault
        rw [hStack]
        exact (hNext.suffix fault hFault).trans (List.suffix_cons value rest)
      · intro fault hFault
        have hLost : rest.length ≤ _ := hNext.lost fault hFault
        rw [hStack, List.length_cons]
        omega

theorem pop_contained (hFits : m.stack.length ≤ m.capacity) : Contained m 0 m.pop := by
  unfold pop
  cases hStack : m.stack with
  | nil => exact error_contained hFits 0 (by simp)
  | cons value rest =>
      rw [hStack, List.length_cons] at hFits
      exact ok_contained 0 value (by omega)

theorem top_contained (hFits : m.stack.length ≤ m.capacity) : Contained m 0 (m.top, m) := by
  unfold top
  cases m.stack with
  | nil => exact error_contained hFits 0 (by simp)
  | cons value rest => exact ok_contained 0 value hFits

/-- The result of a calculation is put where an operand was, so there is room for it. -/
theorem calculate_contained (hFits : m.stack.length ≤ m.capacity) (op : Operator) :
    Contained m 2 (m.calculate op) := by
  apply pop_andThen_contained hFits
  intro right values hStack
  rw [hStack, List.length_cons] at hFits
  apply pop_andThen_contained (show values.length ≤ m.capacity by omega)
  intro left rest hValues
  have hLength : values.length = rest.length + 1 := congrArg List.length hValues
  cases hResult : op.apply left right with
  | error fault =>
      apply error_contained (show rest.length ≤ m.capacity by omega)
      intro capacity hFault
      rw [hFault] at hResult
      exact op.apply_ne_overflow left right capacity hResult
  | ok result =>
      -- Two values were popped from a stack within its bound, so the push finds room.
      have hRoom : ¬ m.capacity ≤ rest.length := by omega
      simp only [push, hRoom, ↓reduceIte, andThen]
      exact ok_contained 0 _ (show rest.length + 1 ≤ m.capacity by omega)

theorem displayCopies_contained (hFits : m.stack.length ≤ m.capacity) (copies : Nat)
    (value : Float) : Contained m 0 (displayCopies copies value m) := by
  unfold displayCopies integral
  by_cases hIntegral : (value.floor == value) = true
  · rw [if_pos hIntegral]
    exact ok_contained 0 _ hFits
  · rw [if_neg hIntegral]
    exact error_contained hFits 0 (by simp)

theorem copies_ne_overflow (limit : Nat) (repetitions : Float) (capacity : Nat) :
    copies limit repetitions ≠ .error (.overflow capacity) := by
  unfold copies
  split
  · simp
  · split <;> simp

theorem displayNext_contained (hFits : m.stack.length ≤ m.capacity) (repetitions : Float) :
    Contained m 1 (displayNext repetitions m) := by
  unfold displayNext
  cases hCopies : copies m.repeatLimit repetitions with
  | error fault =>
      apply error_contained hFits
      intro capacity hFault
      rw [hFault] at hCopies
      exact copies_ne_overflow _ _ capacity hCopies
  | ok count =>
      apply pop_andThen_contained hFits
      intro value rest hStack
      rw [hStack, List.length_cons] at hFits
      exact displayCopies_contained (show rest.length ≤ m.capacity by omega) count value

/-- How many values a print that fails may have popped. -/
def printPops : PrintMode → Nat
  | .peek => 0
  | .repetition => 2

theorem print_contained (hFits : m.stack.length ≤ m.capacity) :
    Contained m (printPops m.printMode) m.print := by
  unfold print
  cases m.printMode with
  | peek =>
      show Contained m 0 m.printTop
      rw [printTop_eq]
      unfold top
      cases m.stack with
      | nil => exact error_contained hFits 0 (by simp)
      | cons value rest => exact displayCopies_contained hFits 1 value
  | repetition =>
      show Contained m 2 m.printRepeated
      rw [printRepeated_eq]
      apply pop_andThen_contained hFits
      intro repetitions rest hStack
      rw [hStack, List.length_cons] at hFits
      exact displayNext_contained (show rest.length ≤ m.capacity by omega) repetitions

/-! ## Actions -/

/-- What can be asked of a machine. -/
inductive Action where
  | push (value : Float)
  | pop
  | top
  | calculate (op : Operator)
  | print

/-- How many values an action that fails may have popped. -/
def Action.pops (mode : PrintMode) : Action → Nat
  | .push _ | .pop | .top => 0
  | .calculate _ => 2
  | .print => printPops mode

/-- Forgets what a step gives, and keeps whether it fails. -/
def forget {α : Type} (step : Step α) : Step Unit :=
  (step.1.map fun _ => (), step.2)

/-- Does what is asked for. -/
def act (m : Machine) : Action → Step Unit
  | .push value => m.push value
  | .pop => forget m.pop
  | .top => forget (m.top, m)
  | .calculate op => forget (m.calculate op)
  | .print => forget m.print

/-- The machine that is left when actions have been tried in order, each of them whether or
not those before it have failed. -/
def actAll (m : Machine) (actions : List Action) : Machine :=
  actions.foldl (fun m action => (m.act action).2) m

theorem forget_eq_error {α : Type} {step : Step α} {fault : MachineFault}
    (h : (forget step).1 = .error fault) : step.1 = .error fault := by
  obtain ⟨result, left⟩ := step
  cases result with
  | error other => exact congrArg Except.error (Except.error.inj h)
  | ok a => cases h

theorem Contained.forget {α : Type} {popped : Nat} {step : Step α}
    (h : Contained m popped step) : Contained m popped (forget step) where
  frame := h.frame
  fits := h.fits
  ne_overflow := fun capacity hFault => h.ne_overflow capacity (forget_eq_error hFault)
  suffix := fun fault hFault => h.suffix fault (forget_eq_error hFault)
  lost := fun fault hFault => h.lost fault (forget_eq_error hFault)

/-- All actions but pushes are contained. -/
theorem act_contained (hFits : m.stack.length ≤ m.capacity) {action : Action}
    (hPush : ∀ value, action ≠ .push value) :
    Contained m (action.pops m.printMode) (m.act action) := by
  cases action with
  | push value => exact absurd rfl (hPush value)
  | pop => exact (pop_contained hFits).forget
  | top => exact (top_contained hFits).forget
  | calculate op => exact (calculate_contained hFits op).forget
  | print => exact (print_contained hFits).forget

theorem push_of_full {value : Float} (hFull : m.capacity ≤ m.stack.length) :
    m.push value = (.error (.overflow m.capacity), m) := by
  rw [push, if_pos hFull]

theorem push_of_room {value : Float} (hRoom : m.stack.length < m.capacity) :
    m.push value = (.ok (), { m with stack := value :: m.stack }) := by
  rw [push, if_neg (by omega)]

/-! ## Runs -/

/-- The stack is within its bound, and the machine differs from `origin` in nothing else. -/
structure Within (origin m : Machine) : Prop where
  frame : m = { origin with stack := m.stack }
  fits : m.stack.length ≤ m.capacity

theorem Within.capacity {origin : Machine} (h : Within origin m) :
    m.capacity = origin.capacity := by
  rw [h.frame]

theorem Within.printMode {origin : Machine} (h : Within origin m) :
    m.printMode = origin.printMode := by
  rw [h.frame]

/-- One action keeps the bound, whether it fails or not. -/
theorem Within.act {origin : Machine} (h : Within origin m) (action : Action) :
    Within origin (m.act action).2 := by
  by_cases hPush : ∃ value, action = .push value
  · obtain ⟨value, rfl⟩ := hPush
    show Within origin (m.push value).2
    by_cases hFull : m.capacity ≤ m.stack.length
    · rw [push_of_full hFull]
      exact h
    · have hRoom : m.stack.length < m.capacity := by omega
      rw [push_of_room hRoom]
      refine ⟨?_, hRoom⟩
      rw [h.frame]
  · have hContained := act_contained h.fits fun value hAction => hPush ⟨value, hAction⟩
    have hFrame := hContained.frame
    refine ⟨?_, ?_⟩
    · rw [hFrame, h.frame]
    · rw [hFrame]
      exact hContained.fits

/-- Actions keep the bound, whether they fail or not. -/
theorem Within.actAll {origin : Machine} (h : Within origin m) (actions : List Action) :
    Within origin (m.actAll actions) := by
  induction actions generalizing m with
  | nil => exact h
  | cons action actions ih => exact ih (h.act action)

/-- A machine with nothing on its stack. -/
def fresh (capacity : Nat) (mode : PrintMode) (limit : Nat) : Machine :=
  { capacity := capacity, printMode := mode, repeatLimit := limit }

theorem fresh_within (capacity : Nat) (mode : PrintMode) (limit : Nat) :
    Within (fresh capacity mode limit) (fresh capacity mode limit) :=
  ⟨rfl, Nat.zero_le _⟩

/-- A push is the only action that overflows the stack, and it does where the stack is full. -/
theorem act_eq_overflow_iff (hFits : m.stack.length ≤ m.capacity) {action : Action}
    {capacity : Nat} :
    (m.act action).1 = .error (.overflow capacity) ↔
      (∃ value, action = .push value) ∧ m.stack.length = m.capacity ∧ capacity = m.capacity := by
  constructor
  · intro hFault
    by_cases hPush : ∃ value, action = .push value
    · refine ⟨hPush, ?_⟩
      obtain ⟨value, rfl⟩ := hPush
      have hPushed : (m.push value).1 = .error (.overflow capacity) := hFault
      by_cases hFull : m.capacity ≤ m.stack.length
      · rw [push_of_full hFull] at hPushed
        cases hPushed
        exact ⟨by omega, rfl⟩
      · rw [push_of_room (by omega)] at hPushed
        cases hPushed
    · have hContained := act_contained hFits fun value hAction => hPush ⟨value, hAction⟩
      exact absurd hFault (hContained.ne_overflow capacity)
  · rintro ⟨⟨value, rfl⟩, hFull, rfl⟩
    show (m.push value).1 = _
    rw [push_of_full (by omega)]

/-- An action that fails leaves a part of the stack, down from some place near the top. -/
theorem act_eq_error (hFits : m.stack.length ≤ m.capacity) {action : Action}
    {fault : MachineFault} (hFault : (m.act action).1 = .error fault) :
    (m.act action).2.stack <:+ m.stack ∧
      m.stack.length ≤ (m.act action).2.stack.length + action.pops m.printMode := by
  by_cases hPush : ∃ value, action = .push value
  · obtain ⟨value, rfl⟩ := hPush
    have hPushed : (m.push value).1 = .error fault := hFault
    by_cases hFull : m.capacity ≤ m.stack.length
    · have hSame : (m.act (.push value)).2 = m := by
        show (m.push value).2 = m
        rw [push_of_full hFull]
      rw [hSame]
      exact ⟨List.suffix_rfl, Nat.le_refl _⟩
    · rw [push_of_room (by omega)] at hPushed
      cases hPushed
  · have hContained := act_contained hFits fun value hAction => hPush ⟨value, hAction⟩
    exact ⟨hContained.suffix fault hFault, hContained.lost fault hFault⟩

end Machine

/-- **The bound of a stack.**  Whatever has been asked of a machine before, and whether it
could be done or not, the stack holds at most as many values as its capacity.  A push
overflows the stack where it is full, and no other action ever does.  An action that fails
leaves the lower part of the stack as it was.  Gone are at most the two values on top, and
none for a push, a pop, a look at the top and a print that leaves its value. -/
theorem machine_stays_within_bound (capacity : Nat) (mode : PrintMode) (limit : Nat)
    (actions : List Machine.Action) (action : Machine.Action) :
    let m := (Machine.fresh capacity mode limit).actAll actions
    m.stack.length ≤ capacity ∧
      (∀ c, (m.act action).1 = .error (.overflow c) ↔
        (∃ value, action = .push value) ∧ m.stack.length = capacity ∧ c = capacity) ∧
      ∀ fault, (m.act action).1 = .error fault →
        (m.act action).2.stack <:+ m.stack ∧
          m.stack.length ≤ (m.act action).2.stack.length + action.pops mode := by
  intro m
  have hWithin : Machine.Within (Machine.fresh capacity mode limit) m :=
    (Machine.fresh_within capacity mode limit).actAll actions
  have hCapacity : m.capacity = capacity := hWithin.capacity
  have hMode : m.printMode = mode := hWithin.printMode
  have hFits := hWithin.fits
  refine ⟨?_, ?_, ?_⟩
  · rw [← hCapacity]
    exact hFits
  · intro c
    rw [← hCapacity]
    exact Machine.act_eq_overflow_iff hFits
  · intro fault hFault
    rw [← hMode]
    exact Machine.act_eq_error hFits hFault

end ReversePolish
