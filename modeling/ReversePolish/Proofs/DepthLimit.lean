import ReversePolish.Proofs.EarliestFault

/-!
# Allowing deeper nesting

How deep operands may nest is a limit, and not a part of the language: with a higher limit a
source is read in the same way, or it is read further than before.  A source that was accepted
keeps its forest, and one that was refused for any other reason is refused for the same reason
at the same place.

The limit is looked at in one step only, namely where a value follows a value.  So two readings
of the same terms with different limits go together up to the first such step at which the
lower limit is reached (`Reading.step_eq_of_le`).  How a source is refused is a function of the
readings (`Reading.faultFrom?`), and the comparison of two limits is a comparison of two
values of this function.

A reading remembers the values that wait for a sign.  When the limit is reached there are as
many of them as it allows, and they are the values that stand right before the term at fault.

## Main results

* `Reading.faultFrom?_of_le` — faults with a higher limit.
* `Reading.values_of_run` — the values that wait for a sign stand one behind the other.
* `ofSource_eq_error_iff` — how a source is refused is read off its terms.
* `nesting_limit` — what a higher limit changes, and what it means to reach the limit.
-/

namespace ReversePolish

namespace Reading

variable {depth deeper : Nat} {reading next : Reading} {term : String}

/-! ## Steps with two limits -/

/-- The sign that closes an operand is not followed by a value, and it has nothing to do with the
limit. -/
theorem close_cases (pending : List String) (term : String) :
    close pending term = .ok .due ∨ (∃ rest, close pending term = .ok (.behindOperand rest)) ∨
      ∃ fault, close pending term = .error fault ∧ ∀ limit, fault ≠ .tooDeep limit := by
  cases pending with
  | nil =>
      rw [close]
      split <;> simp
  | cons left pending =>
      rw [close]
      split
      · split <;> simp
      · split <;> simp

/-- The limit is reached where a value follows a value and as many values as are allowed wait
for a sign. -/
theorem step_eq_tooDeep {limit : Nat} (h : reading.step depth term = .error (.tooDeep limit)) :
    limit = depth ∧ (valueKind? term).isSome = true ∧
      ∃ pending last, reading = .behindValue pending last ∧ depth ≤ pending.length := by
  have hClose (pending : List String) : close pending term ≠ .error (.tooDeep limit) := by
    rcases close_cases pending term with hDue | ⟨rest, hRest⟩ | ⟨fault, hFault, hDeep⟩
    · simp [hDue]
    · simp [hRest]
    · simpa [hFault] using hDeep limit
  cases reading with
  | due =>
      rw [step] at h
      split at h <;> cases h
  | behindOperand pending => exact absurd h (hClose pending)
  | behindValue pending last =>
      rw [step] at h
      split at h
      · next hValue =>
          split at h
          · cases h
          · next hFull =>
              cases h
              exact ⟨rfl, hValue, pending, last, rfl, Nat.le_of_not_lt hFull⟩
      · split at h
        · cases h
        · exact absurd h (hClose pending)

/-- Unless the lower limit is reached, a term is read in the same way with the higher one. -/
theorem step_eq_of_le (h : depth ≤ deeper) (reading : Reading) (term : String) :
    reading.step depth term = .error (.tooDeep depth) ∨
      reading.step deeper term = reading.step depth term := by
  cases reading with
  | due => exact Or.inr rfl
  | behindOperand pending => exact Or.inr rfl
  | behindValue pending last =>
      by_cases hValue : (valueKind? term).isSome = true
      · by_cases hRoom : pending.length < depth
        · have hMore : pending.length < deeper := Nat.lt_of_lt_of_le hRoom h
          right
          rw [step, step, if_pos hValue, if_pos hValue, if_pos hRoom, if_pos hMore]
        · left
          rw [step, if_pos hValue, if_neg hRoom]
      · right
        rw [step, step, if_neg hValue, if_neg hValue]

/-! ## The fault of terms -/

/-- The fault of a term, with the terms behind it.  A value that nests too deep is not read any
more, so its own start is reported. -/
def refusal (text : List Char) (t : Term) (back : List Term) : SourceFault → PlacedFault
  | .tooDeep limit => ⟨.tooDeep limit, t.start⟩
  | fault => ⟨fault, startOf text back⟩

/-- The fault with which reading ends that goes on with the given terms of a text. -/
def faultFrom? (depth : Nat) (text : List Char) : Reading → List Term → Option PlacedFault
  | reading, [] =>
    if reading.pending = [] then none
    else some ⟨.unexpectedEnd, Position.ofIndex text text.length⟩
  | reading, t :: terms =>
    match reading.step depth t.text with
    | .ok next => faultFrom? depth text next terms
    | .error fault => some (refusal text t terms fault)

/-- Terms that have been read do not count any more. -/
theorem faultFrom?_append (text : List Char) {front : List Term}
    (h : (front.map Term.text).foldlM (step depth) reading = .ok next) (back : List Term) :
    faultFrom? depth text reading (front ++ back) = faultFrom? depth text next back := by
  induction front generalizing reading with
  | nil =>
      cases h
      rfl
  | cons t front ih =>
      rw [List.map_cons, List.foldlM_cons] at h
      obtain ⟨between, hStep, hRest⟩ := exists_of_bind_eq_ok h
      rw [List.cons_append, faultFrom?, hStep]
      exact ih hRest

variable {text : List Char}

theorem refusal_eq {fault : SourceFault} (hDeep : ∀ limit, fault ≠ .tooDeep limit) (t : Term)
    (back : List Term) : refusal text t back fault = ⟨fault, startOf text back⟩ := by
  cases fault with
  | tooDeep limit => exact absurd rfl (hDeep limit)
  | unexpectedEnd => rfl
  | expectedValue term => rfl
  | illegalOperator term => rfl
  | illegalVariable name => rfl
  | expectedNewline term => rfl

/-- A higher limit changes the outcome only where the lower one is reached. -/
theorem faultFrom?_of_le (h : depth ≤ deeper) (reading : Reading) (terms : List Term) :
    (∃ f ∈ faultFrom? depth text reading terms, f.fault = .tooDeep depth) ∨
      faultFrom? deeper text reading terms = faultFrom? depth text reading terms := by
  induction terms generalizing reading with
  | nil => exact Or.inr rfl
  | cons t terms ih =>
      rcases step_eq_of_le h reading t.text with hDeep | hSame
      · left
        rw [faultFrom?, hDeep]
        exact ⟨_, rfl, rfl⟩
      · rw [faultFrom?, faultFrom?, hSame]
        cases reading.step depth t.text with
        | ok next => exact ih next
        | error fault => exact Or.inr rfl

/-! ## Values that wait for a sign -/

theorem run_concat_eq_ok {terms : List String} (h : run depth (terms ++ [term]) = .ok next) :
    ∃ reading, run depth terms = .ok reading ∧ reading.step depth term = .ok next := by
  rw [run, List.foldlM_append] at h
  obtain ⟨reading, hRun, hLast⟩ := exists_of_bind_eq_ok h
  rw [List.foldlM_cons] at hLast
  obtain ⟨last, hStep, hNone⟩ := exists_of_bind_eq_ok hLast
  cases hNone
  exact ⟨reading, hRun, hStep⟩

/-- A value is read at the start of a statement, or behind a value that then waits for a
sign. -/
theorem step_eq_behindValue {pending : List String} {last : String}
    (h : reading.step depth term = .ok (.behindValue pending last)) :
    last = term ∧ (valueKind? term).isSome = true ∧
      (pending = [] ∨ ∃ earlier left, reading = .behindValue earlier left ∧
        pending = left :: earlier ∧ earlier.length < depth) := by
  have hClose (pending' : List String) :
      close pending' term ≠ .ok (.behindValue pending last) := by
    rcases close_cases pending' term with hDue | ⟨rest, hRest⟩ | ⟨fault, hFault, _⟩
    · simp [hDue]
    · simp [hRest]
    · simp [hFault]
  cases reading with
  | due =>
      rw [step] at h
      split at h
      · next hValue =>
          cases h
          exact ⟨rfl, hValue, Or.inl rfl⟩
      · cases h
  | behindOperand pending' => exact absurd h (hClose pending')
  | behindValue earlier left =>
      rw [step] at h
      split at h
      · next hValue =>
          split at h
          · next hRoom =>
              cases h
              exact ⟨rfl, hValue, Or.inr ⟨earlier, left, rfl, rfl, hRoom⟩⟩
          · cases h
      · split at h
        · cases h
        · exact absurd h (hClose earlier)

/-- The values that wait for a sign and the one that was read last are the last terms that have
been read, and no more of them wait than are allowed. -/
theorem values_of_run {terms pending : List String} {last : String}
    (h : run depth terms = .ok (.behindValue pending last)) :
    pending.length ≤ depth ∧ ∃ before, terms = before ++ (last :: pending).reverse ∧
      ∀ value ∈ last :: pending, (valueKind? value).isSome = true := by
  induction terms using List.reverseRecOn generalizing pending last with
  | nil => cases h
  | append_singleton terms term ih =>
      obtain ⟨reading, hRun, hStep⟩ := run_concat_eq_ok h
      obtain ⟨rfl, hValue, hPending⟩ := step_eq_behindValue hStep
      rcases hPending with rfl | ⟨earlier, left, rfl, rfl, hRoom⟩
      · exact ⟨Nat.zero_le depth, terms, rfl, by simpa using hValue⟩
      · obtain ⟨-, before, rfl, hValues⟩ := ih hRun
        refine ⟨hRoom, before, ?_, List.forall_mem_cons.2 ⟨hValue, hValues⟩⟩
        rw [List.append_assoc, ← List.reverse_cons]

end Reading

/-! ## Sources with two limits -/

/-- Where reading stops, the fault is the one of the terms. -/
theorem Parser.Stopped.faultFrom? {source : String} {depth : Nat} {f : PlacedFault}
    {p : Parser} (h : Stopped source depth f p) :
    Reading.faultFrom? depth source.toList .due (termsOf source) = some f := by
  cases h with
  | @atEnd p reading hAt hPending =>
      have hTerms := Reading.faultFrom?_append source.toList hAt.run []
      rw [List.append_nil] at hTerms
      rw [hTerms, Reading.faultFrom?, if_neg hPending]
  | tooDeep hAt hRemaining hStep =>
      rw [hAt.behind.terms, hRemaining, Reading.faultFrom?_append _ hAt.run, Reading.faultFrom?,
        hStep]
      rfl
  | refused hRun hBehind hStep hEnd hDeep =>
      rw [hBehind.terms, List.append_assoc, List.singleton_append,
        Reading.faultFrom?_append _ hRun, Reading.faultFrom?, hStep]
      exact congrArg some (Reading.refusal_eq hDeep _ _)

theorem Parser.Finished.faultFrom? {source : String} {depth : Nat} {p : Parser}
    (h : Finished source depth p) :
    Reading.faultFrom? depth source.toList .due (termsOf source) = none := by
  obtain ⟨reading, hAt, hPending⟩ := h
  have hTerms := Reading.faultFrom?_append source.toList hAt.run []
  rw [List.append_nil] at hTerms
  rw [hTerms, Reading.faultFrom?, if_pos hPending]

/-- How reading a source ends is read off its terms. -/
theorem ofSource_eq_error_iff {source : String} (hBlank : ¬ IsBlank source) {depth : Nat}
    {f : PlacedFault} :
    Forest.ofSource source depth = .error f ↔
      Reading.faultFrom? depth source.toList .due (termsOf source) = some f := by
  have hMeets := Parser.run_meets hBlank depth
  rw [Forest.ofSource]
  generalize Parser.run source depth = result at hMeets
  cases hMeets with
  | ok hFinished => simp [hFinished.faultFrom?]
  | error hStopped => simp [hStopped.faultFrom?]

/-- A source that holds only separators is refused in the same way with every limit. -/
theorem ofSource_of_isBlank {source : String} (h : IsBlank source) :
    ∃ f, f.fault = .unexpectedEnd ∧ ∀ depth, Forest.ofSource source depth = .error f := by
  obtain ⟨hSome, hAll⟩ := h
  have hEnd : (Scanner.ofSource source).atEnd = false := by
    simpa [Scanner.atEnd, Scanner.ofSource, Cursor.ofText] using hSome
  obtain ⟨f, hTerm⟩ := Scanner.nextTerm_eq_error_iff.2
    (show ∀ c ∈ (Scanner.ofSource source).cursor.rest, _ from hAll)
  refine ⟨f, ?_, fun depth => ?_⟩
  · rw [Cursor.term_eq_error (Scanner.nextTerm_eq_error hTerm)]
  · have hRun : Parser.run source depth = (.error f, Parser.ofSource source depth) :=
      Parser.statements_of_error hEnd hTerm
    rw [Forest.ofSource, hRun]

/-- The terms of a source at which a limit is reached: as many values as it allows and one
more, and a further value behind them. -/
def Overfull (depth : Nat) (source : String) (place : Position) : Prop :=
  ∃ before values t back, termsOf source = before ++ values ++ t :: back ∧
    values.length = depth + 1 ∧ (∀ v ∈ values, (valueKind? v.text).isSome = true) ∧
    (valueKind? t.text).isSome = true ∧ place = t.start

/-- A source is refused for its nesting behind one value more than may wait for a sign. -/
theorem Parser.Stopped.overfull {source : String} {depth limit : Nat} {f : PlacedFault}
    {p : Parser} (h : Stopped source depth f p) (hFault : f.fault = .tooDeep limit) :
    limit = depth ∧ Overfull depth source f.position := by
  cases h with
  | atEnd => cases hFault
  | refused _ _ _ _ hDeep => exact absurd hFault (hDeep limit)
  | @tooDeep p front reading t back hAt hRemaining hStep =>
      cases hFault
      obtain ⟨-, hValue, pending, last, rfl, hFull⟩ := Reading.step_eq_tooDeep hStep
      obtain ⟨hRoom, before, hTexts, hValues⟩ := Reading.values_of_run hAt.run
      obtain ⟨earlier, values, rfl, -, hLast⟩ := List.map_eq_append_iff.1 hTexts
      refine ⟨rfl, earlier, values, t, back, ?_, ?_, ?_, hValue, rfl⟩
      · rw [hAt.behind.terms, hRemaining]
      · have hLength := congrArg List.length hLast
        rw [List.length_map, List.length_reverse, List.length_cons] at hLength
        omega
      · intro v hv
        have hMem : v.text ∈ (last :: pending).reverse := hLast ▸ List.mem_map_of_mem hv
        exact hValues v.text (List.mem_reverse.1 hMem)

/-- **The limit of nesting.**  With a higher limit an accepted source keeps its forest, and a
source that was not refused for its nesting is refused for the same reason at the same place.
A source that is refused for its nesting is refused with the limit that was reached, at a value,
and right before this value stand as many values as the limit allows and one more. -/
theorem nesting_limit (source : String) {depth deeper : Nat} (h : depth ≤ deeper) :
    (∀ forest, Forest.ofSource source depth = .ok forest →
      Forest.ofSource source deeper = .ok forest) ∧
    (∀ f, Forest.ofSource source depth = .error f → (∀ limit, f.fault ≠ .tooDeep limit) →
      Forest.ofSource source deeper = .error f) ∧
    ∀ f limit, Forest.ofSource source depth = .error f → f.fault = .tooDeep limit →
      limit = depth ∧ Overfull depth source f.position := by
  refine ⟨?_, ?_, ?_⟩
  · intro forest hForest
    obtain ⟨hBlank, σs, hWritten, hDepth, rfl⟩ := ofSource_eq_ok_iff.1 hForest
    exact ofSource_eq_ok_iff.2
      ⟨hBlank, σs, hWritten, fun σ hσ => Nat.le_trans (hDepth σ hσ) h, rfl⟩
  · intro f hFault hOther
    by_cases hBlank : IsBlank source
    · obtain ⟨g, -, hAll⟩ := ofSource_of_isBlank hBlank
      rw [hAll, ← hAll depth, hFault]
    · rw [ofSource_eq_error_iff hBlank] at hFault ⊢
      rcases Reading.faultFrom?_of_le h .due (termsOf source) with ⟨g, hg, hDeep⟩ | hSame
      · rw [hFault] at hg
        cases hg
        exact absurd hDeep (hOther depth)
      · rw [hSame, hFault]
  · intro f limit hFault hDeep
    by_cases hBlank : IsBlank source
    · obtain ⟨g, hEnd, hAll⟩ := ofSource_of_isBlank hBlank
      rw [hAll depth] at hFault
      cases hFault
      rw [hEnd] at hDeep
      cases hDeep
    · have hMeets := Parser.run_meets hBlank depth
      rw [Forest.ofSource] at hFault
      generalize Parser.run source depth = result at hFault hMeets
      cases hMeets with
      | ok => cases hFault
      | error hStopped =>
          cases hFault
          exact hStopped.overfull hDeep

/-- Four values on the second line: two limits at which they are too many, and one at which a
sign is found to be missing, as with every higher one. -/
theorem nesting_limit_sample :
    Forest.ofSource "1 2 +\na b c d" 1 = .error ⟨.tooDeep 1, ⟨10, 2, 4⟩⟩ ∧
      Overfull 1 "1 2 +\na b c d" ⟨10, 2, 4⟩ ∧
      Forest.ofSource "1 2 +\na b c d" 3 = .error ⟨.unexpectedEnd, ⟨13, 2, 7⟩⟩ ∧
      Forest.ofSource "1 2 +\na b c d" 1000 = .error ⟨.unexpectedEnd, ⟨13, 2, 7⟩⟩ := by
  have hLow : Forest.ofSource "1 2 +\na b c d" 1 = .error ⟨.tooDeep 1, ⟨10, 2, 4⟩⟩ := by
    decide +kernel
  have hHigh : Forest.ofSource "1 2 +\na b c d" 3 =
      .error ⟨.unexpectedEnd, ⟨13, 2, 7⟩⟩ := by
    decide +kernel
  exact ⟨hLow, ((nesting_limit _ (Nat.le_refl 1)).2.2 _ 1 hLow rfl).2, hHigh,
    (nesting_limit _ (by decide : 3 ≤ 1000)).2.1 _ hHigh (by simp)⟩

end ReversePolish
