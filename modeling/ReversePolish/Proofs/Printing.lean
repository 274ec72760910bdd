import Mathlib.Logic.Function.Iterate
import ReversePolish.Machine.Basic

/-!
# Printing, one act at a time

A print pops, checks and counts before it displays anything, and each of these can fail.
`Machine.print` gives all its lines at once or none, so one cannot ask it whether something
was displayed before a failure.  Here a print is taken apart into single acts, and the lines
go one by one to a sink of any kind (`Printing.step`).  The acts come to the end that
`Machine.print` gives.

The copies are counted by taking one from a floating-point number until nothing is left of
it.  By itself this need not end: taking one changes neither infinity nor a number that is
large enough.  What ends it is that the rounds are compared with a limit.

## Main results

* `Printing.reaches_of_countDown_eq_none`, `Printing.reaches_of_countDown_eq_some` — the
  count ends, after at most one round more than the limit.
* `Printing.ofMachine_endsWith` — the acts of a print come to the end that `Machine.print` gives.
* `Machine.print_eq_ok_of_peek`, `Machine.print_eq_ok_of_repetition` — what a print that
  succeeds displays, and what it leaves.
* `print_all_or_nothing` — a print fails and displays nothing, or displays copies of one line.
-/

namespace ReversePolish

/-! ## Numbers above zero -/

namespace Number

theorem unpack_zero : (0.0 : Float).toModel.unpack = .zero .positive := by
  rfl

theorem not_le_zero_iff {x : Float} :
    ¬ x ≤ 0.0 ↔ x.toModel.unpack.le (.zero .positive) = false := by
  rw [← unpack_zero, Bool.eq_false_iff, not_iff_not]
  show Float.le x 0.0 = true ↔ _
  rw [Float.le, decide_eq_true_eq]
  rfl

/-- What is a number and not at most zero is above zero. -/
theorem pos_of_not_le_zero {x : Float} (hNumber : x.isNaN = false) (hAbove : ¬ x ≤ 0.0) :
    x > 0.0 := by
  have hUnpacked : x.toModel.unpack.isNaN = false := hNumber
  have hNotLe := not_le_zero_iff.1 hAbove
  show Float.lt 0.0 x = true
  rw [Float.lt, decide_eq_true_eq]
  show Float.Model.UnpackedFloat.lt (0.0 : Float).toModel.unpack x.toModel.unpack = true
  rw [unpack_zero]
  cases hParts : x.toModel.unpack with
  | notANumber =>
      rw [hParts] at hUnpacked
      cases hUnpacked
  | zero sign =>
      rw [hParts] at hNotLe
      cases hNotLe
  | infinity sign =>
      rw [hParts] at hNotLe
      cases sign with
      | positive => rfl
      | negative => cases hNotLe
  | finite sign mantissa exponent hMantissa =>
      rw [hParts] at hNotLe
      cases sign with
      | positive => rfl
      | negative => cases hNotLe

end Number

/-! ## What a print that succeeds has done -/

theorem PrintMode.eq_peek_or_repetition (mode : PrintMode) :
    mode = .peek ∨ mode = .repetition := by
  cases mode with
  | peek => exact Or.inl rfl
  | repetition => exact Or.inr rfl

namespace Machine

theorem andThen_eq_ok {α β : Type} {step : Step α} {next : α → Machine → Step β} {b : β}
    {m' : Machine} (h : andThen step next = (.ok b, m')) :
    ∃ a m, step = (.ok a, m) ∧ next a m = (.ok b, m') := by
  obtain ⟨result, m⟩ := step
  cases result with
  | error fault => cases h
  | ok a => exact ⟨a, m, rfl, h⟩

theorem pop_eq_ok {m m' : Machine} {value : Float} (h : m.pop = (.ok value, m')) :
    ∃ rest, m.stack = value :: rest ∧ m' = { m with stack := rest } := by
  unfold pop at h
  split at h
  · cases h
  · next top rest hStack =>
      cases h
      exact ⟨rest, hStack, rfl⟩

theorem integral_eq_ok {value shown : Float} (h : integral value = .ok shown) :
    shown = value := by
  unfold integral at h
  split at h
  · cases h
    rfl
  · cases h

/-- A count is not below where it starts, and not above what there is room for. -/
theorem countDown_eq_some {copies count room : Nat} {left : Float}
    (h : countDown copies left room = some count) : copies ≤ count ∧ count ≤ copies + room := by
  induction room generalizing copies left with
  | zero =>
      rw [countDown] at h
      split at h
      · cases h
      · cases h
        omega
  | succ room ih =>
      rw [countDown] at h
      split at h
      · have hLater := ih h
        omega
      · cases h
        omega

/-- A number above zero counts for something. -/
theorem countDown_pos {count room : Nat} {left : Float} (hLeft : left > 0.0)
    (h : countDown 0 left room = some count) : 0 < count := by
  cases room with
  | zero =>
      rw [countDown, if_pos hLeft] at h
      cases h
  | succ room =>
      rw [countDown, if_pos hLeft] at h
      have hLater := (countDown_eq_some h).1
      omega

/-- A print makes at least one copy and not more than the limit. -/
theorem copies_eq_ok {limit count : Nat} {repetitions : Float}
    (h : copies limit repetitions = .ok count) :
    0 < count ∧ count ≤ limit := by
  unfold copies at h
  split at h
  · cases h
  · next hPositive =>
      have hBoth : repetitions.isNaN = false ∧ ¬ repetitions ≤ 0.0 := by
        simpa using hPositive
      have hAbove : repetitions > 0.0 := Number.pos_of_not_le_zero hBoth.1 hBoth.2
      split at h
      · next counted hCount =>
          cases h
          have hLimit := (countDown_eq_some hCount).2
          exact ⟨countDown_pos hAbove hCount, by omega⟩
      · cases h

/-- Displays copies of a value, if it is one that can be displayed. -/
def displayCopies (copies : Nat) (value : Float) (m : Machine) : Step (List String) :=
  match integral value with
  | .error fault => (.error fault, m)
  | .ok value => (.ok (List.replicate copies (Number.displayed.text value)), m)

/-- Counts the copies, then pops a value and displays it. -/
def displayNext (repetitions : Float) (m : Machine) : Step (List String) :=
  match copies m.repeatLimit repetitions with
  | .error fault => (.error fault, m)
  | .ok count => andThen m.pop (displayCopies count)

theorem printTop_eq (m : Machine) : m.printTop = andThen (m.top, m) (displayCopies 1) := by
  unfold printTop
  cases m.top with
  | error fault => rfl
  | ok value =>
      simp only [Except.bind, andThen, displayCopies]
      cases integral value with
      | error fault => rfl
      | ok shown => rfl

theorem printRepeated_eq (m : Machine) : m.printRepeated = andThen m.pop displayNext := rfl

theorem displayCopies_eq_ok {copies : Nat} {value : Float} {m m' : Machine}
    {lines : List String} (h : displayCopies copies value m = (.ok lines, m')) :
    lines = List.replicate copies (Number.displayed.text value) ∧ m' = m := by
  unfold displayCopies at h
  cases hIntegral : integral value with
  | error fault =>
      rw [hIntegral] at h
      cases h
  | ok shown =>
      rw [hIntegral, integral_eq_ok hIntegral] at h
      cases h
      exact ⟨rfl, rfl⟩

/-- A print that leaves its value displays the top, once. -/
theorem print_eq_ok_of_peek {m m' : Machine} {lines : List String}
    (hMode : m.printMode = .peek) (h : m.print = (.ok lines, m')) :
    ∃ value rest, m.stack = value :: rest ∧ lines = [Number.displayed.text value] ∧ m' = m := by
  simp only [print, hMode, printTop_eq] at h
  obtain ⟨value, behind, hTop, h⟩ := andThen_eq_ok h
  obtain ⟨hLines, hLeft⟩ := displayCopies_eq_ok h
  unfold top at hTop
  cases hStack : m.stack with
  | nil =>
      rw [hStack] at hTop
      cases hTop
  | cons first rest =>
      rw [hStack] at hTop
      cases hTop
      exact ⟨value, rest, rfl, hLines, hLeft⟩

/-- A print that pops its value displays the second value from the top, at least once. -/
theorem print_eq_ok_of_repetition {m m' : Machine} {lines : List String}
    (hMode : m.printMode = .repetition) (h : m.print = (.ok lines, m')) :
    ∃ repetitions value rest count, m.stack = repetitions :: value :: rest ∧ 0 < count ∧
      count ≤ m.repeatLimit ∧ lines = List.replicate count (Number.displayed.text value) ∧
      m' = { m with stack := rest } := by
  simp only [print, hMode, printRepeated_eq] at h
  obtain ⟨repetitions, behind, hFirst, h⟩ := andThen_eq_ok h
  obtain ⟨values, hStack, rfl⟩ := pop_eq_ok hFirst
  unfold displayNext at h
  cases hCopies : copies m.repeatLimit repetitions with
  | error fault =>
      simp only [hCopies] at h
      cases h
  | ok count =>
      simp only [hCopies] at h
      obtain ⟨value, last, hSecond, h⟩ := andThen_eq_ok h
      obtain ⟨rest, hValues, rfl⟩ := pop_eq_ok hSecond
      have hRest : values = value :: rest := hValues
      obtain ⟨hLines, hLeft⟩ := displayCopies_eq_ok h
      obtain ⟨hPos, hLimit⟩ := copies_eq_ok hCopies
      rw [hRest] at hStack
      exact ⟨repetitions, value, rest, count, hStack, hPos, hLimit, hLines, hLeft⟩

end Machine

/-! ## The acts of a print -/

/-- What a print is about to do. -/
inductive PrintStage where
  /-- Take what is needed from the stack. -/
  | start
  /-- Take one from what is left of the repetitions or, if nothing is left, go on to the
  value. -/
  | count (repetitions left : Float) (copies : Nat)
  /-- Display copies of a line. -/
  | display (line : String) (copies : Nat)
  | done
  | failed (fault : MachineFault)

/-- A print that is under way. -/
structure Printing (σ : Type*) where
  machine : Machine
  /-- What the lines are displayed on. -/
  sink : σ
  stage : PrintStage
  /-- The rounds of the count so far. -/
  rounds : Nat

namespace Printing

variable {σ : Type*}

def ofMachine (m : Machine) (sink : σ) : Printing σ := ⟨m, sink, .start, 0⟩

def fail (p : Printing σ) (fault : MachineFault) : Printing σ :=
  { p with stage := .failed fault }

/-- Goes on with what a step of the machine gives. -/
def after {α : Type} (p : Printing σ) (step : Machine.Step α)
    (next : Printing σ → α → Printing σ) : Printing σ :=
  match step with
  | (.ok a, m) => next { p with machine := m } a
  | (.error fault, m) => { p with machine := m }.fail fault

/-- Chooses a value to be displayed. -/
def choose (copies : Nat) (p : Printing σ) (value : Float) : Printing σ :=
  match Machine.integral value with
  | .ok shown => { p with stage := .display (Number.displayed.text shown) copies }
  | .error fault => p.fail fault

/-- Begins to count copies. -/
def count (p : Printing σ) (repetitions : Float) : Printing σ :=
  if repetitions.isNaN || repetitions ≤ 0.0 then p.fail (.notPositive repetitions)
  else { p with stage := .count repetitions repetitions 0 }

/-- One round of the count.  It fails if there are as many copies as there may be. -/
def round (p : Printing σ) (repetitions left : Float) (copies : Nat) : Printing σ :=
  let counted := { p with rounds := p.rounds + 1 }
  if copies = p.machine.repeatLimit then
    counted.fail (.tooManyRepetitions repetitions p.machine.repeatLimit)
  else { counted with stage := .count repetitions (left - 1.0) (copies + 1) }

/-- One act of a print. -/
def step (display : σ → String → σ) (p : Printing σ) : Printing σ :=
  match p.stage with
  | .start =>
    match p.machine.printMode with
    | .peek => p.after (p.machine.top, p.machine) (choose 1)
    | .repetition => p.after p.machine.pop count
  | .count repetitions left copies =>
    if left > 0.0 then p.round repetitions left copies
    else p.after p.machine.pop (choose copies)
  | .display _ 0 => { p with stage := .done }
  | .display line (copies + 1) =>
    { p with sink := display p.sink line, stage := .display line copies }
  | .done => p
  | .failed _ => p

theorem step_of_peek (display : σ → String → σ) {m : Machine} (hMode : m.printMode = .peek)
    (sink : σ) :
    (ofMachine m sink).step display = (ofMachine m sink).after (m.top, m) (choose 1) := by
  simp only [step, ofMachine, hMode]

theorem step_of_repetition (display : σ → String → σ) {m : Machine}
    (hMode : m.printMode = .repetition) (sink : σ) :
    (ofMachine m sink).step display = (ofMachine m sink).after m.pop count := by
  simp only [step, ofMachine, hMode]

theorem step_count (display : σ → String → σ) (m : Machine) (sink : σ)
    (repetitions left : Float) (copies rounds : Nat) :
    step display ⟨m, sink, .count repetitions left copies, rounds⟩ =
      if left > 0.0 then
        round ⟨m, sink, .count repetitions left copies, rounds⟩ repetitions left copies
      else
        after ⟨m, sink, .count repetitions left copies, rounds⟩ m.pop (choose copies) :=
  rfl

/-- Some number of acts leads from `p` to `q`. -/
def Reaches (display : σ → String → σ) (p q : Printing σ) : Prop :=
  ∃ steps, (step display)^[steps] p = q

variable {display : σ → String → σ} {p q r : Printing σ}

theorem Reaches.refl (p : Printing σ) : Reaches display p p := ⟨0, rfl⟩

/-- An act in front. -/
theorem Reaches.of_step (h : Reaches display (p.step display) q) : Reaches display p q := by
  obtain ⟨steps, hSteps⟩ := h
  refine ⟨steps + 1, ?_⟩
  rw [Function.iterate_succ_apply, hSteps]

theorem Reaches.trans (h : Reaches display p q) (h' : Reaches display q r) :
    Reaches display p r := by
  obtain ⟨steps, rfl⟩ := h
  obtain ⟨more, rfl⟩ := h'
  exact ⟨more + steps, Function.iterate_add_apply _ more steps p⟩

/-! ## Counting -/

/-- Where there is no room for the copies, the count fails in the round after the last that
the limit allows. -/
theorem reaches_of_countDown_eq_none (display : σ → String → σ) (m : Machine) (sink : σ)
    (repetitions : Float) {left : Float} {copies room : Nat}
    (hRoom : copies + room = m.repeatLimit) (h : Machine.countDown copies left room = none) :
    Reaches display ⟨m, sink, .count repetitions left copies, copies⟩
      ⟨m, sink, .failed (.tooManyRepetitions repetitions m.repeatLimit), m.repeatLimit + 1⟩ := by
  -- The room goes down with every round, whatever becomes of the number that is left.
  induction room generalizing copies left with
  | zero =>
      have hFull : copies = m.repeatLimit := by omega
      by_cases hLeft : left > 0.0
      · apply Reaches.of_step
        rw [step_count, if_pos hLeft, round, if_pos hFull, hFull]
        exact Reaches.refl _
      · rw [Machine.countDown, if_neg hLeft] at h
        cases h
  | succ room ih =>
      have hFree : copies ≠ m.repeatLimit := by omega
      by_cases hLeft : left > 0.0
      · rw [Machine.countDown, if_pos hLeft] at h
        apply Reaches.of_step
        rw [step_count, if_pos hLeft, round, if_neg hFree]
        exact ih (by omega) h
      · rw [Machine.countDown, if_neg hLeft] at h
        cases h

/-- Where there is room for the copies, the count takes one round for each of them, and then
nothing is left. -/
theorem reaches_of_countDown_eq_some (display : σ → String → σ) (m : Machine) (sink : σ)
    (repetitions : Float) {left : Float} {copies room count : Nat}
    (hRoom : copies + room = m.repeatLimit) (h : Machine.countDown copies left room = some count) :
    ∃ last, ¬ last > 0.0 ∧ Reaches display ⟨m, sink, .count repetitions left copies, copies⟩
      ⟨m, sink, .count repetitions last count, count⟩ := by
  induction room generalizing copies left with
  | zero =>
      by_cases hLeft : left > 0.0
      · rw [Machine.countDown, if_pos hLeft] at h
        cases h
      · rw [Machine.countDown, if_neg hLeft] at h
        cases h
        exact ⟨left, hLeft, Reaches.refl _⟩
  | succ room ih =>
      have hFree : copies ≠ m.repeatLimit := by omega
      by_cases hLeft : left > 0.0
      · rw [Machine.countDown, if_pos hLeft] at h
        obtain ⟨last, hLast, hReaches⟩ := ih (by omega) h
        refine ⟨last, hLast, ?_⟩
        apply Reaches.of_step
        rw [step_count, if_pos hLeft, round, if_neg hFree]
        exact hReaches
      · rw [Machine.countDown, if_neg hLeft] at h
        cases h
        exact ⟨left, hLeft, Reaches.refl _⟩

/-! ## The end of a print -/

/-- The end of a print that displays some lines, or fails, and leaves some machine. -/
def outcome (display : σ → String → σ) (result : Machine.Step (List String)) (sink : σ)
    (rounds : Nat) : Printing σ :=
  match result with
  | (.ok lines, m) => ⟨m, lines.foldl display sink, .done, rounds⟩
  | (.error fault, m) => ⟨m, sink, .failed fault, rounds⟩

/-- A print with nothing displayed so far comes to the end that a result stands for, and its
count takes at most one round more than the limit. -/
def EndsWith (display : σ → String → σ) (p : Printing σ) (limit : Nat) (sink : σ)
    (result : Machine.Step (List String)) : Prop :=
  ∃ rounds, rounds ≤ limit + 1 ∧ Reaches display p (outcome display result sink rounds)

theorem EndsWith.of_step {limit : Nat} {sink : σ} {result : Machine.Step (List String)}
    (h : EndsWith display (p.step display) limit sink result) :
    EndsWith display p limit sink result := by
  obtain ⟨rounds, hRounds, hReaches⟩ := h
  exact ⟨rounds, hRounds, hReaches.of_step⟩

theorem EndsWith.of_reaches {limit : Nat} {sink : σ} {result : Machine.Step (List String)}
    (hReaches : Reaches display p q) (h : EndsWith display q limit sink result) :
    EndsWith display p limit sink result := by
  obtain ⟨rounds, hRounds, hLater⟩ := h
  exact ⟨rounds, hRounds, hReaches.trans hLater⟩

theorem fail_endsWith {limit : Nat} (hRounds : p.rounds ≤ limit + 1) (fault : MachineFault) :
    EndsWith display (p.fail fault) limit p.sink (.error fault, p.machine) :=
  ⟨p.rounds, hRounds, Reaches.refl _⟩

/-- A step of the machine that fails ends the print.  If it does not, the print goes on. -/
theorem after_endsWith {α : Type} {limit : Nat} {step : Machine.Step α}
    {next : Printing σ → α → Printing σ} {further : α → Machine → Machine.Step (List String)}
    (hRounds : p.rounds ≤ limit + 1)
    (h : ∀ a m, step = (.ok a, m) →
      EndsWith display (next { p with machine := m } a) limit p.sink (further a m)) :
    EndsWith display (p.after step next) limit p.sink (Machine.andThen step further) := by
  obtain ⟨result, m⟩ := step
  cases result with
  | error fault => exact fail_endsWith (p := { p with machine := m }) hRounds fault
  | ok a => exact h a m rfl

/-- Once a print has begun to display, nothing keeps it from its end. -/
theorem reaches_done (display : σ → String → σ) (m : Machine) (sink : σ) (line : String)
    (copies rounds : Nat) :
    Reaches display ⟨m, sink, .display line copies, rounds⟩
      ⟨m, (List.replicate copies line).foldl display sink, .done, rounds⟩ := by
  induction copies generalizing sink with
  | zero => exact ⟨1, rfl⟩
  | succ copies ih => exact Reaches.of_step (ih (display sink line))

theorem choose_endsWith {limit : Nat} (hRounds : p.rounds ≤ limit + 1) (copies : Nat)
    (value : Float) :
    EndsWith display (p.choose copies value) limit p.sink
      (Machine.displayCopies copies value p.machine) := by
  unfold choose Machine.displayCopies
  cases Machine.integral value with
  | error fault => exact fail_endsWith hRounds fault
  | ok shown => exact ⟨p.rounds, hRounds, reaches_done display _ _ _ copies _⟩

/-- The count fails, or goes on to the value when it has taken a round for each copy. -/
theorem count_endsWith (display : σ → String → σ) (m : Machine) (sink : σ)
    (stage : PrintStage) (repetitions : Float) :
    EndsWith display (count ⟨m, sink, stage, 0⟩ repetitions) m.repeatLimit sink
      (Machine.displayNext repetitions m) := by
  unfold count Machine.displayNext Machine.copies
  by_cases hPositive : (repetitions.isNaN || repetitions ≤ 0.0) = true
  · rw [if_pos hPositive, if_pos hPositive]
    exact fail_endsWith (Nat.zero_le _) _
  · rw [if_neg hPositive, if_neg hPositive]
    cases hCount : Machine.countDown 0 repetitions m.repeatLimit with
    | none =>
        exact ⟨m.repeatLimit + 1, Nat.le_refl _,
          reaches_of_countDown_eq_none display m sink repetitions (Nat.zero_add _) hCount⟩
    | some copies =>
        have hLimit := (Machine.countDown_eq_some hCount).2
        obtain ⟨last, hLast, hReaches⟩ :=
          reaches_of_countDown_eq_some display m sink repetitions (Nat.zero_add _) hCount
        -- Nothing is left to count, so the next act pops the value.
        apply EndsWith.of_reaches hReaches
        apply EndsWith.of_step
        rw [step_count, if_neg hLast]
        apply after_endsWith (by show copies ≤ _; omega)
        intro value left _
        exact choose_endsWith (by show copies ≤ _; omega) copies value

/-- The acts of a print come to the end that `Machine.print` gives. -/
theorem ofMachine_endsWith (display : σ → String → σ) (m : Machine) (sink : σ) :
    EndsWith display (ofMachine m sink) m.repeatLimit sink m.print := by
  apply EndsWith.of_step
  unfold Machine.print
  cases hMode : m.printMode with
  | peek =>
      rw [step_of_peek display hMode, Machine.printTop_eq]
      apply after_endsWith (Nat.zero_le _)
      intro value left _
      exact choose_endsWith (Nat.zero_le _) 1 value
  | repetition =>
      rw [step_of_repetition display hMode, Machine.printRepeated_eq]
      apply after_endsWith (Nat.zero_le _)
      intro repetitions left hPop
      obtain ⟨rest, _, rfl⟩ := Machine.pop_eq_ok hPop
      exact count_endsWith display _ sink .start repetitions

end Printing

/-! ## Prints -/

/-- **A print displays copies of one line, or nothing.**  Taken act by act, with any sink, a
print comes to an end and stays there, and its count takes at most one round more than the
limit.  This is the end that `Machine.print` gives.  Either the print has failed and the sink
is as it was, or the sink has been given copies of one line, which shows a value of the
stack.  Where values are left on the stack, that is one copy of the top, and the machine is
unchanged.  Where they are popped, it is at least one copy of the second value and at most as
many as the limit, and the two values on top are gone. -/
theorem print_all_or_nothing {σ : Type*} (display : σ → String → σ) (m : Machine) (sink : σ) :
    ∃ (steps : Nat) (last : Printing σ),
      (∀ more, (Printing.step display)^[more + steps] (Printing.ofMachine m sink) = last) ∧
      last.rounds ≤ m.repeatLimit + 1 ∧ last.machine = m.print.2 ∧
      ((∃ fault, m.print.1 = .error fault ∧ last.stage = .failed fault ∧ last.sink = sink) ∨
        ∃ value count,
          m.print.1 = .ok (List.replicate count (Number.displayed.text value)) ∧
          last.stage = .done ∧
          last.sink =
            (List.replicate count (Number.displayed.text value)).foldl display sink ∧
          (m.printMode = .peek → count = 1 ∧ m.stack.head? = some value ∧ m.print.2 = m) ∧
          (m.printMode = .repetition → 0 < count ∧ count ≤ m.repeatLimit ∧
            ∃ repetitions rest, m.stack = repetitions :: value :: rest ∧
              m.print.2 = { m with stack := rest })) := by
  obtain ⟨rounds, hRounds, steps, hSteps⟩ := Printing.ofMachine_endsWith display m sink
  rcases hPrint : m.print with ⟨result, left⟩
  rw [hPrint] at hSteps
  refine ⟨steps, Printing.outcome display (result, left) sink rounds, ?_, ?_⟩
  · -- Nothing is done once a print has failed or is done.
    intro more
    rw [Function.iterate_add_apply, hSteps]
    apply Function.iterate_fixed
    cases result <;> rfl
  cases result with
  | error fault => exact ⟨hRounds, rfl, Or.inl ⟨fault, rfl, rfl, rfl⟩⟩
  | ok lines =>
      refine ⟨hRounds, rfl, Or.inr ?_⟩
      rcases m.printMode.eq_peek_or_repetition with hMode | hMode
      · obtain ⟨value, rest, hStack, rfl, hLeft⟩ := Machine.print_eq_ok_of_peek hMode hPrint
        have hTop : m.stack.head? = some value := by rw [hStack, List.head?_cons]
        have hOther : m.printMode ≠ .repetition := by simp [hMode]
        exact ⟨value, 1, rfl, rfl, rfl, fun _ => ⟨rfl, hTop, hLeft⟩, fun h => absurd h hOther⟩
      · obtain ⟨repetitions, value, rest, count, hStack, hPos, hLimit, rfl, hLeft⟩ :=
          Machine.print_eq_ok_of_repetition hMode hPrint
        have hOther : m.printMode ≠ .peek := by simp [hMode]
        exact ⟨value, count, rfl, rfl, rfl, fun h => absurd h hOther,
          fun _ => ⟨hPos, hLimit, repetitions, rest, hStack, hLeft⟩⟩

-- The line is the value as programs display it: without a point if it is an integer, and zero
-- without its sign.
example : Number.displayed.text 5.0 = "5" ∧ Number.displayed.text (-0.25) = "-0.25" ∧
    Number.displayed.text (-0.0) = "0" := by decide +kernel

end ReversePolish
