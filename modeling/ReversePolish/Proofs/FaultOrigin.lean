import ReversePolish.Command.Execution
import ReversePolish.Proofs.CodeReading
import ReversePolish.Proofs.TableRoundTrip

/-!
# Where faults come from

An execution of compiled code fails on a line, either because the line cannot be read
or because the instruction on it stops the run.  The source map leads back from the line
to the term of the source.  Three counts of lines have to agree for that: the emitter's,
which is that of the table, the reader's, which numbers the lines of the code, and that
of the source map, which the lookup goes by.

The first instruction that stops a run is found by induction on the program
(`Session.run_fault`).  It stands on the line of its call, and the table has one mapping
for each line of a call, which starts in the first column.  So a lookup is an access by
index (`Call.covering?_table`).

## Main results

* `Session.run_fault` — a fault of a run is that of the first instruction that stops.
* `executionFault?_cases` — a fault of an execution is that of a call, or the limit of steps
  is reached in the preamble.
* `fault_origin` — looking up the line of a fault gives the term of the failed call.
-/

namespace ReversePolish

/-! ## Faults of runs -/

/-- The fault with which an execution ends: the code is no program, or the program
stops. -/
def executionFault? : Except RunFault Run → Option RunFault
  | .error fault => some fault
  | .ok run => run.fault

namespace Session

/-- A fault of a run is the fault of an instruction that the run has come to, through all
the instructions before it. -/
theorem run_fault {s : Session} {program : Program} {fault : RunFault}
    (h : (s.run program).fault = some fault) :
    ∃ i placed shown reached, program[i]? = some placed ∧ fault.line = placed.line ∧
      s.follow ((program.take i).map PlacedInstruction.instruction) = .ok (shown, reached) ∧
      reached.advance placed.instruction = .error fault.cause := by
  induction program generalizing s with
  | nil => cases h
  | cons placed program ih =>
      rw [run] at h
      cases hLimit : s.limitReached? with
      | some limit =>
          rw [hLimit] at h
          cases h
          refine ⟨0, placed, [], s, rfl, rfl, rfl, ?_⟩
          rw [advance, hLimit]
      | none =>
          rw [hLimit] at h
          have hAdvance : s.advance placed.instruction = Step.outcome
              ({ s with steps := s.steps + 1 }.perform placed.instruction) := by
            rw [advance, hLimit]
          cases hStep : ({ s with steps := s.steps + 1 } : Session).perform
              placed.instruction with
          | mk result left =>
              rw [hStep] at h hAdvance
              cases result with
              | error cause =>
                  cases h
                  exact ⟨0, placed, [], s, rfl, rfl, rfl, hAdvance⟩
              | ok events =>
                  obtain ⟨i, found, shown, reached, hFound, hLine, hFollow, hStops⟩ := ih h
                  refine ⟨i + 1, found, events.filterMap Event.displayed? ++ shown, reached,
                    hFound, hLine, ?_, hStops⟩
                  rw [List.take_succ_cons, List.map_cons, follow, hAdvance]
                  simp only [Step.outcome, Except.map, Outcome.andThen, hFollow]

/-- In the preamble only the limit of steps stops a run. -/
theorem advance_idle_eq_error {instruction : Instruction}
    (hIdle : instruction = .takeModule ∨ ∃ name, instruction = .nameMachine name)
    {s : Session} {cause : RunCause} (h : s.advance instruction = .error cause) :
    ∃ limit, cause = .stepLimit limit := by
  rw [advance] at h
  cases hLimit : s.limitReached? with
  | some limit =>
      rw [hLimit] at h
      exact ⟨limit, (Except.error.inj h).symm⟩
  | none =>
      rw [hLimit] at h
      rcases hIdle with rfl | ⟨name, rfl⟩ <;> cases h

end Session

namespace Program

theorem getElem?_placedFrom (line : Nat) (instructions : List Instruction) (i : Nat) :
    (placedFrom line instructions)[i]? =
      instructions[i]?.map fun instruction => ⟨line + i, instruction⟩ := by
  induction instructions generalizing line i with
  | nil => rfl
  | cons instruction instructions ih =>
      cases i with
      | zero => rfl
      | succ i =>
          rw [placedFrom, List.getElem?_cons_succ, List.getElem?_cons_succ, ih,
            Nat.add_assoc, Nat.add_comm 1 i]

theorem map_instruction_take_placedFrom (line : Nat) (instructions : List Instruction)
    (i : Nat) :
    ((placedFrom line instructions).take i).map PlacedInstruction.instruction =
      instructions.take i := by
  rw [List.map_take, map_instruction_placedFrom]

end Program

namespace Call

theorem ReadAs.exists_of_getElem? {vm : String} {calls : List Call}
    {instructions : List Instruction} (h : ReadAs vm calls instructions) {i : Nat}
    {instruction : Instruction} (hi : instructions[i]? = some instruction) :
    ∃ call, calls[i]? = some call ∧ call.read vm = .ok instruction := by
  induction h generalizing i with
  | nil => cases hi
  | @cons call _ _ _ hRead _ ih =>
      cases i with
      | zero =>
          cases hi
          exact ⟨call, rfl, hRead⟩
      | succ i => exact ih hi

/-- How the statement of a call fails in an execution: it cannot be read, or the run comes
to it through the preamble and the statements before it, and stops there. -/
inductive Fails (vm : String) (start : Session) (before : List Call) (call : Call)
    (cause : RunCause) : Prop where
  | unread (hRead : call.read vm = .error cause)
  | stopped {instructions : List Instruction} {instruction : Instruction}
      {shown : List String} {reached : Session} (hBefore : ReadAs vm before instructions)
      (hRead : call.read vm = .ok instruction)
      (hReached : start.follow (.takeModule :: .nameMachine vm :: instructions) =
        .ok (shown, reached))
      (hStops : reached.advance instruction = .error cause)

end Call

/-- A fault of an execution is that of a call, and its line tells which, or the limit of
steps is reached in the preamble. -/
theorem executionFault?_cases {code vm : String} {calls : List Call} {options : RunOptions}
    {pairs : List (String × Float)} {fault : RunFault}
    (hRead : Program.read code = (Call.readFrom vm 3 calls).map fun program =>
      ⟨1, .takeModule⟩ :: ⟨2, .nameMachine vm⟩ :: program)
    (h : executionFault? (execute options pairs code) = some fault) :
    (fault.line ≤ 2 ∧ ∃ limit, fault.cause = .stepLimit limit) ∨
      ∃ i call, calls[i]? = some call ∧ fault.line = 3 + i ∧
        call.Fails vm ((Session.ofOptions options).bindAll pairs) (calls.take i)
          fault.cause := by
  rw [execute, hRead] at h
  cases hFrom : Call.readFrom vm 3 calls with
  | error fault' =>
      rw [hFrom] at h
      cases h
      obtain ⟨i, call, hCall, hLine, hCause⟩ := Call.readFrom_eq_error hFrom
      exact Or.inr ⟨i, call, hCall, hLine, .unread hCause⟩
  | ok program =>
      rw [hFrom] at h
      obtain ⟨instructions, hAs, rfl⟩ := Call.readFrom_eq_ok_iff.1 hFrom
      obtain ⟨i, placed, shown, reached, hPlaced, hLine, hFollow, hStops⟩ :=
        Session.run_fault h
      match i with
      | 0 =>
          cases hPlaced
          have hFirst : fault.line = 1 := hLine
          exact Or.inl ⟨by omega, Session.advance_idle_eq_error (Or.inl rfl) hStops⟩
      | 1 =>
          cases hPlaced
          have hSecond : fault.line = 2 := hLine
          exact Or.inl ⟨by omega, Session.advance_idle_eq_error (Or.inr ⟨vm, rfl⟩) hStops⟩
      | i + 2 =>
          rw [List.getElem?_cons_succ, List.getElem?_cons_succ,
            Program.getElem?_placedFrom] at hPlaced
          obtain ⟨instruction, hInstruction, rfl⟩ := Option.map_eq_some_iff.1 hPlaced
          obtain ⟨call, hCall, hCallRead⟩ := hAs.exists_of_getElem? hInstruction
          rw [List.take_succ_cons, List.take_succ_cons, List.map_cons, List.map_cons,
            Program.map_instruction_take_placedFrom] at hFollow
          exact Or.inr ⟨i, call, hCall, hLine,
            .stopped (List.forall₂_take i hAs) hCallRead hFollow hStops⟩

/-! ## Looking up -/

/-- The mapping that covers a place of the code is the one of its line. -/
theorem Call.covering?_table (source : String) (first : Nat) (calls : List (Tag × Call))
    (line column : Nat) :
    SourceMap.covering? (table source first calls) ⟨line, column⟩ =
      if line < first then none else (table source first calls)[line - first]? := by
  induction calls generalizing first with
  | nil => simp [table, SourceMap.covering?]
  | cons c calls ih =>
      have hBehind := ih (first + 1)
      have hLater : ∀ m ∈ table source (first + 1) calls, first < m.generated.line :=
        fun m hm => le_table_line m hm
      rw [table_cons]
      by_cases hHere : line = first
      · have hNone : (table source (first + 1) calls).filter (fun m =>
            m.generated.line = first && m.generated.column ≤ column) = [] := by
          rw [List.filter_eq_nil_iff]
          intro m hm hMatches
          have hLine := hLater m hm
          simp only [Bool.and_eq_true, decide_eq_true_eq] at hMatches
          omega
        rw [if_neg (by omega), hHere, Nat.sub_self, List.getElem?_cons_zero,
          SourceMap.covering?, List.filter_cons_of_pos (by simp), hNone]
        rfl
      · have hSkip : SourceMap.covering? (⟨⟨first, 0⟩, ⟨c.1.line, c.1.column⟩, source,
            c.1.name⟩ :: table source (first + 1) calls) ⟨line, column⟩ =
            SourceMap.covering? (table source (first + 1) calls) ⟨line, column⟩ := by
          rw [SourceMap.covering?, List.filter_cons_of_neg (by simp; omega)]
          rfl
        rw [hSkip, hBehind]
        by_cases hBefore : line < first
        · rw [if_pos hBefore, if_pos (by omega)]
        · rw [if_neg hBefore, if_neg (by omega),
            show line - first = line - (first + 1) + 1 by omega, List.getElem?_cons_succ]

/-- The source map of a compiled source is looked up in the table of its terms. -/
theorem compile_lookup {s : Settings} {name text : String} {c : Compiled}
    (h : compile s name text = .ok c) (hRange : ∀ m ∈ c.table, m.InRange)
    (place : LineColumn) :
    c.map.lookup place = .ok (SourceMap.covering? c.table place) := by
  obtain ⟨hEncodable, hSame⟩ := compile_table_encodable h hRange
  obtain ⟨_, forest, _, rfl⟩ := compile_eq_ok h
  obtain ⟨file, contents, hMap⟩ := Compiled.ofForest_map s name text forest
  rw [SourceMap.lookup, hMap, SourceMap.decode_ofMappings hEncodable, hSame]
  rfl

/-- **Faults are traced to terms.**  When an execution of compiled code fails, the line of
the fault is that of the statement of one term, it is this statement that failed, and the
source map leads from the end of the line to the mapping of the term.  The only faults
without a term are those at which the limit of steps is reached in the preamble.  The lines
of the preamble and of the comment lead nowhere.  Lines and columns have to be 32-bit
numbers, for a source map holds no others. -/
theorem fault_origin {s : Settings} {name text : String} {c : Compiled}
    (h : compile s name text = .ok c) (hModule : '\n' ∉ s.runtimeModule.toList)
    (hFile : '\n' ∉ (s.mapFileName name).toList) (hRange : ∀ m ∈ c.table, m.InRange) :
    ∃ σs, Written σs (termsOf text) ∧
      (∀ (options : RunOptions) (pairs : List (String × Float)) (fault : RunFault),
        executionFault? (execute options pairs c.code) = some fault →
        ¬(fault.line ≤ 2 ∧ ∃ limit, fault.cause = .stepLimit limit) →
        ∃ i t call m, fault.line = 3 + i ∧
          (σs.flatMap Sentence.script)[i]? = some (t, call) ∧
          call.Fails s.runtimeInstance ((Session.ofOptions options).bindAll pairs)
            (((σs.flatMap Sentence.script).take i).map Prod.snd) fault.cause ∧
          c.table[i]? = some m ∧
          m = ⟨⟨fault.line, 0⟩, ⟨t.start.line, t.start.column⟩, name, call.label t⟩ ∧
          c.map.lookup ⟨fault.line, lastColumn⟩ = .ok (some m)) ∧
      Text.lines c.code.toList = s.importLine.toList :: s.letLine.toList ::
        ((σs.flatMap Sentence.script).map
            (fun entry => (entry.2.line s.runtimeInstance).toList) ++
          Text.lines (Emitter.mapComment (s.mapFileName name)).toList) ∧
      ∀ line column, line ≤ 2 ∨ 2 + (σs.flatMap Sentence.script).length < line →
        c.map.lookup ⟨line, column⟩ = .ok none := by
  obtain ⟨σs, hWritten, hTable, hLines, hRead⟩ := compile_read_eq h hModule hFile
  have hLookup (line column : Nat) : c.map.lookup ⟨line, column⟩ =
      .ok (if line < 3 then none else c.table[line - 3]?) := by
    rw [compile_lookup h hRange, hTable, Call.covering?_table]
  refine ⟨σs, hWritten, ?_, hLines, ?_⟩
  · intro options pairs fault hFault hBeyond
    rcases executionFault?_cases hRead hFault with hLimit | ⟨i, call, hCall, hLine, hFails⟩
    · exact absurd hLimit hBeyond
    rw [List.getElem?_map] at hCall
    obtain ⟨⟨t, call⟩, hEntry, rfl⟩ := Option.map_eq_some_iff.1 hCall
    have hMapping : c.table[i]? = some
        ⟨⟨fault.line, 0⟩, ⟨t.start.line, t.start.column⟩, name, call.label t⟩ := by
      rw [hTable, Call.table, List.getElem?_mapIdx, List.getElem?_map, hEntry, hLine]
      rfl
    refine ⟨i, t, call, _, hLine, hEntry, ?_, hMapping, rfl, ?_⟩
    · rw [List.map_take]
      exact hFails
    · rw [hLookup, if_neg (by omega), show fault.line - 3 = i by omega, hMapping]
  · intro line column hOutside
    have hLength : c.table.length = (σs.flatMap Sentence.script).length := by
      rw [hTable, Call.table, List.length_mapIdx, List.length_map]
    rw [hLookup]
    by_cases hBefore : line < 3
    · rw [if_pos hBefore]
    · rw [if_neg hBefore, List.getElem?_eq_none (by omega)]

/-- A variable that is not bound, on the second line of the source. -/
theorem fault_origin_unbound :
    ∃ c fault, compile {} "p.rpn" "a b +\n2 x +" = .ok c ∧
      '\n' ∉ ({} : Settings).runtimeModule.toList ∧
      '\n' ∉ (({} : Settings).mapFileName "p.rpn").toList ∧ (∀ m ∈ c.table, m.InRange) ∧
      executionFault? (execute {} [("a", 1.0), ("b", 2.0)] c.code) = some fault ∧
      fault.line = 7 ∧
      c.map.lookup ⟨7, lastColumn⟩ = .ok (some ⟨⟨7, 0⟩, ⟨2, 2⟩, "p.rpn", "x"⟩) := by
  have hAny : ((compile {} "p.rpn" "a b +\n2 x +").toOption.any fun c =>
      (c.table.all fun m => decide m.InRange) &&
        decide (c.table[4]? = some ⟨⟨7, 0⟩, ⟨2, 2⟩, "p.rpn", "x"⟩) &&
        (executionFault? (execute {} [("a", 1.0), ("b", 2.0)] c.code)).any
          fun fault => decide (fault.line = 7)) = true := by decide +kernel
  obtain ⟨c, hCompiled, hHolds⟩ := exists_ok_of_any hAny
  rw [Bool.and_eq_true, Bool.and_eq_true, decide_eq_true_eq] at hHolds
  obtain ⟨⟨hAll, hFifth⟩, hFails⟩ := hHolds
  have hRange : ∀ m ∈ c.table, m.InRange := by simpa using hAll
  obtain ⟨fault, hFault, hLine⟩ := (Option.any_eq_true _ _).1 hFails
  rw [decide_eq_true_eq] at hLine
  have hModule : '\n' ∉ ({} : Settings).runtimeModule.toList := by decide
  have hFile : '\n' ∉ (({} : Settings).mapFileName "p.rpn").toList := by decide
  obtain ⟨_, _, hOrigin, _⟩ := fault_origin hCompiled hModule hFile hRange
  obtain ⟨i, _, _, m, hIndex, _, _, hMapping, _, hLookup⟩ :=
    hOrigin {} [("a", 1.0), ("b", 2.0)] fault hFault (by omega)
  rw [show i = 4 by omega, hFifth] at hMapping
  rw [hLine, ← hMapping] at hLookup
  exact ⟨c, fault, hCompiled, hModule, hFile, hRange, hFault, hLine, hLookup⟩

end ReversePolish
