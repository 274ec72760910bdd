import Mathlib.Algebra.Order.BigOperators.Group.List
import Mathlib.Algebra.Order.Group.Nat
import ReversePolish.Proofs.Parsing

/-!
# The language of sources

A source is accepted exactly when its terms are written sentences, each with no more
joints than operands may nest.  There is one exception on the way from characters to
terms: a source that is not empty but holds separators only has no terms, and yet a
statement is looked for in it, so it is refused.

The forest of an accepted source is known in full: `Forest.ofSentences` says which
numbers and tags its nodes have.
-/

namespace ReversePolish

/-- The terms of a source. -/
def termsOf (source : String) : List Term :=
  (Scanner.ofSource source).remaining

/-- A source that holds separators and nothing else. -/
def IsBlank (source : String) : Prop :=
  source ≠ "" ∧ ∀ c ∈ source.toList, Term.isSeparator c = true

/-- The forest that sentences are read as. -/
def Forest.ofSentences (σs : List Sentence) : Forest :=
  ⟨((Sentence.roots 0 σs).flatMap Node.subnodes).toArray, (Sentence.roots 0 σs).toArray⟩

theorem Forest.Extends.eq_ofSentences {forest : Forest} {σs : List Sentence}
    (h : Forest.empty.Extends forest (Sentence.roots 0 σs)) :
    forest = Forest.ofSentences σs := by
  obtain ⟨nodes, statements⟩ := forest
  obtain ⟨hNodes, hStatements⟩ := h
  rw [Forest.ofSentences, Forest.mk.injEq]
  exact ⟨Array.toList_inj.1 hNodes, Array.toList_inj.1 hStatements⟩

theorem ofSource_ready_iff (source : String) :
    (termsOf source = [] → (Scanner.ofSource source).atEnd = true) ↔ ¬ IsBlank source := by
  have hEmpty : (Scanner.ofSource source).atEnd = true ↔ source = "" := by
    simp [Scanner.atEnd, Scanner.ofSource, Cursor.ofText]
  unfold termsOf IsBlank
  rw [Scanner.remaining_eq_nil_iff, hEmpty]
  simp only [Scanner.ofSource, Cursor.ofText]
  constructor
  · rintro h ⟨hSome, hAll⟩
    exact hSome (h hAll)
  · intro h hAll
    by_cases hSome : source = ""
    · exact hSome
    · exact absurd ⟨hSome, hAll⟩ h

/-- Reading a source succeeds exactly on written sentences, and gives their forest. -/
theorem ofSource_eq_ok_iff {source : String} {depth : Nat} {forest : Forest} :
    Forest.ofSource source depth = .ok forest ↔
      ¬ IsBlank source ∧ ∃ σs, Written σs (termsOf source) ∧
        (∀ σ ∈ σs, σ.joints.length ≤ depth) ∧ forest = Forest.ofSentences σs := by
  rw [← ofSource_ready_iff, Forest.ofSource]
  constructor
  · intro h
    rcases hRun : Parser.run source depth with ⟨_ | _, q⟩
    · simp [hRun] at h
    · simp only [hRun, Except.ok.injEq] at h
      obtain ⟨hReady, σs, hWritten, hDepth, hExtends⟩ := Parser.statements_eq_ok hRun
      exact ⟨hReady, σs, hWritten, hDepth, h ▸ hExtends.eq_ofSentences⟩
  · rintro ⟨hReady, σs, hWritten, hDepth, rfl⟩
    obtain ⟨q, hRun, hExtends⟩ :=
      Parser.statements_made (p := Parser.ofSource source depth) hWritten hReady hDepth
    simp only [Parser.run, hRun, hExtends.eq_ofSentences]

/-- The trees of a source do not depend on the nesting that is allowed. -/
theorem Written.trees_unique {source : String} {σs τs : List Sentence}
    (hBlank : ¬ IsBlank source) (hσ : Written σs (termsOf source))
    (hτ : Written τs (termsOf source)) :
    σs.map Sentence.tree = τs.map Sentence.tree := by
  -- allowed enough nesting, the source has one forest, which both rows determine
  let depth := ((σs ++ τs).map fun σ => σ.joints.length).sum
  have hDepth : ∀ σ ∈ σs ++ τs, σ.joints.length ≤ depth := fun σ hMem =>
    List.le_sum_of_mem (List.mem_map_of_mem hMem)
  have hReadσ := ofSource_eq_ok_iff.2 ⟨hBlank, σs, hσ,
    fun σ hMem => hDepth σ (List.mem_append_left τs hMem), rfl⟩
  have hReadτ := ofSource_eq_ok_iff.2 ⟨hBlank, τs, hτ,
    fun τ hMem => hDepth τ (List.mem_append_right σs hMem), rfl⟩
  rw [hReadσ, Except.ok.injEq] at hReadτ
  have hRoots := congrArg (fun forest => forest.statements.toList.map Node.tree) hReadτ
  simpa [Forest.ofSentences, Sentence.roots_tree] using hRoots

/-- A source is accepted exactly when it is not blank and its terms are written
sentences that nest no deeper than allowed.  It then has one statement for each
sentence, and the statement's tree is that of the sentence, whose joints nest to the
right. -/
theorem accepted_iff_written (source : String) (depth : Nat) :
    ((∃ forest, Forest.ofSource source depth = .ok forest) ↔
      ¬ IsBlank source ∧ ∃ σs, Written σs (termsOf source) ∧
        ∀ σ ∈ σs, σ.joints.length ≤ depth) ∧
    ∀ forest σs, Forest.ofSource source depth = .ok forest →
      Written σs (termsOf source) →
        forest.statements.toList.map Node.tree = σs.map Sentence.tree := by
  constructor
  · constructor
    · rintro ⟨forest, h⟩
      obtain ⟨hBlank, σs, hWritten, hDepth, _⟩ := ofSource_eq_ok_iff.1 h
      exact ⟨hBlank, σs, hWritten, hDepth⟩
    · rintro ⟨hBlank, σs, hWritten, hDepth⟩
      exact ⟨_, ofSource_eq_ok_iff.2 ⟨hBlank, σs, hWritten, hDepth, rfl⟩⟩
  · intro forest σs h hWritten
    obtain ⟨hBlank, τs, hWritten', _, rfl⟩ := ofSource_eq_ok_iff.1 h
    rw [Written.trees_unique hBlank hWritten hWritten']
    simp [Forest.ofSentences, Sentence.roots_tree]

example : (Forest.ofSource "c a 1 print - =\n" 2).toOption.map
    (fun forest => forest.statements.toList.map Node.tree) =
      some [.assign (.value .variable "c")
        (.binary .subtract (.value .variable "a") (.print (.value .number "1")))] := by
  decide +kernel

end ReversePolish
