import ReversePolish.Proofs.Segmentation
import ReversePolish.Proofs.TableRoundTrip

/-!
# Layout makes no difference

Two sources with the same terms are read in the same way, however the terms are laid out.
They have the same trees with the same numbers, the same code, and the same tables, except
that tags and origins say where the terms of each source stand; or both are refused for the
same reason.

The two parsers run in lockstep.  They are *alike* as long as the texts of the terms that
remain are the same and the forests made so far differ in places only (`Parser.Alike`), and
every step leads from alike parsers to alike parsers with corresponding outcomes.  What is
emitted for a forest then depends on the forest without its places (`Forest.unplaced`).

A source that holds separators and nothing else is left out, since it is refused though it
has the same terms as the empty source.

## Main results

* `Parser.Alike.expressionWithin`, `Parser.Alike.statements` — the two parsers in lockstep.
* `Compiled.ofForest_sameButPlaces` — what is emitted for a forest, places apart.
* `layout_makes_no_difference` — two layouts of the same terms.
-/

namespace ReversePolish

/-! ## Without places -/

def Tag.unplaced (t : Tag) : Tag := ⟨0, 0, t.name⟩

/-- A tree in which no tag says where its term stands. -/
def Node.unplaced : Node → Node
  | .value id tag kind text => .value id tag.unplaced kind text
  | .binary id tag op left right => .binary id tag.unplaced op left.unplaced right.unplaced
  | .assign id tag target body => .assign id tag.unplaced target.unplaced body.unplaced
  | .print id tag operand => .print id tag.unplaced operand.unplaced

def Forest.unplaced (f : Forest) : Forest :=
  ⟨f.nodes.map Node.unplaced, f.statements.map Node.unplaced⟩

/-- A mapping that does not say where its term stands. -/
def Mapping.unplaced (m : Mapping) : Mapping :=
  { m with origin := ⟨0, 0⟩ }

/-- A fault that does not say where in the source it was found. -/
def Fault.unplaced : Fault → Fault
  | .source name _ _ fault => .source name 0 0 fault
  | fault => fault

/-- Both succeed with related results, or both fail with related faults. -/
inductive Correspond {ε α : Type} (fault : ε → ε → Prop) (result : α → α → Prop) :
    Except ε α → Except ε α → Prop where
  | ok {a b : α} (h : result a b) : Correspond fault result (.ok a) (.ok b)
  | error {e e' : ε} (h : fault e e') : Correspond fault result (.error e) (.error e')

/-- Whether a node can be assigned to. -/
def Node.isTarget : Node → Bool
  | .value _ tag .variable _ => isVariable tag.name
  | _ => false

theorem Node.isTarget_unplaced (n : Node) : n.unplaced.isTarget = n.isTarget := by
  cases n with
  | value id tag kind text => cases kind <;> rfl
  | _ => rfl

theorem Node.tag_unplaced (n : Node) : n.unplaced.tag = n.tag.unplaced := by
  cases n <;> rfl

theorem Node.name_eq_of_unplaced {n m : Node} (h : n.unplaced = m.unplaced) :
    n.tag.name = m.tag.name := by
  have hTag := congrArg tag h
  rw [tag_unplaced, tag_unplaced] at hTag
  exact (Tag.mk.inj hTag).2.2

/-! ## Parsers in lockstep -/

/-- A scanner that is at the end of its text when no term is left. -/
def Scanner.Ready (s : Scanner) : Prop := s.remaining = [] → s.atEnd = true

theorem Scanner.Settled.ready {s : Scanner} (h : s.Settled) : s.Ready := h.atEnd_iff.2

theorem Scanner.Ready.atEnd_eq {s : Scanner} (h : s.Ready) :
    s.atEnd = s.remaining.isEmpty := by
  cases hRemaining : s.remaining with
  | nil => exact h hRemaining
  | cons t ts => exact atEnd_eq_false hRemaining

namespace Parser

/-- Two parsers that have made the same nodes, places apart, and have the same to read. -/
structure Alike (p q : Parser) : Prop where
  texts : p.scanner.remaining.map Term.text = q.scanner.remaining.map Term.text
  forest : p.forest.unplaced = q.forest.unplaced
  maxDepth : p.maxDepth = q.maxDepth
  ready : p.scanner.Ready
  ready' : q.scanner.Ready

/-- Two outcomes of a step that differ in places only, with the parsers behind them. -/
structure Step.Alike {α : Type} (same : α → α → Prop) (r r' : Step α) : Prop where
  outcome : Correspond (fun f g : PlacedFault => f.fault = g.fault) same r.1 r'.1
  parser : Parser.Alike r.2 r'.2

/-- Nodes that differ in places only. -/
def SameNode (n m : Node) : Prop := n.unplaced = m.unplaced

/-- Goes on with what a step has made. -/
def Step.andThen {α β : Type} (r : Step α) (next : α → Parser → Step β) : Step β :=
  match r with
  | (.error f, p) => (.error f, p)
  | (.ok a, p) => next a p

theorem Step.Alike.andThen {α β : Type} {same : α → α → Prop} {same' : β → β → Prop}
    {r r' : Step α} {next next' : α → Parser → Step β} (h : Step.Alike same r r')
    (hNext : ∀ a b p q, r = (.ok a, p) → same a b → Parser.Alike p q →
      Step.Alike same' (next a p) (next' b q)) :
    Step.Alike same' (r.andThen next) (r'.andThen next') := by
  obtain ⟨result, p⟩ := r
  obtain ⟨result', q⟩ := r'
  obtain ⟨hOutcome, hParser⟩ := h
  cases hOutcome with
  | ok hSame => exact hNext _ _ p q rfl hSame hParser
  | error hFault => exact ⟨.error hFault, hParser⟩

theorem Alike.fail {α : Type} {same : α → α → Prop} {p q : Parser} (h : Alike p q)
    (fault : SourceFault) : Step.Alike same (p.fail fault) (q.fail fault) :=
  ⟨.error rfl, h⟩

theorem Alike.peeks {p q : Parser} (h : Alike p q) (test : String → Bool) :
    p.peeks test = q.peeks test := by
  have hHead : p.scanner.remaining.head?.map Term.text =
      q.scanner.remaining.head?.map Term.text := by
    rw [← List.head?_map, ← List.head?_map, h.texts]
  have hAny (t? : Option Term) : (t?.any fun t => test t.text) = (t?.map Term.text).any test := by
    cases t? <;> rfl
  rw [peeks_eq, peeks_eq, hAny, hAny, hHead]

/-- Where one parser reads a term, the other reads a term of the same text. -/
theorem Alike.withTerm {α : Type} {same : α → α → Prop} {p q : Parser} (h : Alike p q)
    {next next' : Parser → String → Step α}
    (hNext : ∀ (p q : Parser) (term : String), Alike p q →
      Step.Alike same (next p term) (next' q term)) :
    Step.Alike same (p.withTerm next) (q.withTerm next') := by
  have hTexts := h.texts
  cases hp : p.scanner.remaining with
  | nil =>
      have hq : q.scanner.remaining = [] := by
        rw [hp, List.map_nil] at hTexts
        exact List.map_eq_nil_iff.1 hTexts.symm
      obtain ⟨f, hf⟩ := Scanner.nextTerm_error hp
      obtain ⟨g, hg⟩ := Scanner.nextTerm_error hq
      rw [Parser.withTerm, hf, Parser.withTerm, hg]
      refine ⟨.error ?_, h⟩
      rw [Cursor.term_eq_error (Scanner.nextTerm_eq_error hf),
        Cursor.term_eq_error (Scanner.nextTerm_eq_error hg)]
  | cons t ts =>
      rw [hp, List.map_cons] at hTexts
      obtain ⟨u, us, hq, hText, hRest⟩ := List.map_eq_cons_iff.1 hTexts.symm
      obtain ⟨s, hs, hSettled, _, hWith⟩ := withTerm_cons hp
      obtain ⟨s', hs', hSettled', _, hWith'⟩ := withTerm_cons hq
      rw [hWith, hWith', hText]
      refine hNext _ _ _ ⟨?_, h.forest, h.maxDepth, hSettled.ready, hSettled'.ready⟩
      show s.remaining.map Term.text = s'.remaining.map Term.text
      rw [hs, hs', hRest]

/-- Nodes that are made alike keep the parsers alike. -/
theorem Alike.add {p q : Parser} (h : Alike p q) (name : String) {make make' : Nat → Tag → Node}
    (hMake : ∀ id tag tag', tag.unplaced = tag'.unplaced →
      SameNode (make id tag) (make' id tag')) :
    Step.Alike SameNode (p.add name make) (q.add name make') := by
  have hSize : p.forest.size = q.forest.size := by
    have hNodes := congrArg (fun f : Forest => f.nodes.size) h.forest
    simpa [Forest.unplaced, Forest.size] using hNodes
  have hNode : SameNode (make p.forest.size (Tag.at p.scanner.mark name))
      (make' q.forest.size (Tag.at q.scanner.mark name)) := by
    rw [hSize]
    exact hMake _ _ _ rfl
  refine ⟨.ok hNode, h.texts, ?_, h.maxDepth, h.ready, h.ready'⟩
  have hForest := h.forest
  simp only [Forest.unplaced, Forest.mk.injEq] at hForest
  simp only [Parser.add, Forest.add, Forest.unplaced, Array.map_push, hForest.1, hForest.2]
  rw [hNode]

theorem Alike.value {p q : Parser} (h : Alike p q) : Step.Alike SameNode p.value q.value := by
  apply h.withTerm
  intro p q term h
  cases valueKind? term with
  | none => exact h.fail _
  | some kind =>
      apply h.add
      intro id tag tag' hTag
      simp only [SameNode, Node.unplaced, hTag]

/-- An assignment depends on its target by the target's name only, once it is one. -/
theorem assignment_eq (p : Parser) (target body : Node) :
    p.assignment target body =
      if target.isTarget then
        p.add (target.tag.name ++ assignSign) fun id tag => .assign id tag target body
      else p.fail (.illegalVariable target.tag.name) := by
  unfold assignment
  split
  · rfl
  · next hNot =>
      have hFalse : target.isTarget = false := by
        unfold Node.isTarget
        split
        · exact absurd rfl (hNot _ _ _)
        · rfl
      rw [hFalse]
      rfl

theorem Alike.assignment {p q : Parser} (h : Alike p q) {target target' body body' : Node}
    (hTarget : SameNode target target') (hBody : SameNode body body') :
    Step.Alike SameNode (p.assignment target body) (q.assignment target' body') := by
  have hIs : target.isTarget = target'.isTarget := by
    rw [← Node.isTarget_unplaced, hTarget, Node.isTarget_unplaced]
  rw [assignment_eq, assignment_eq, hIs, Node.name_eq_of_unplaced hTarget]
  split
  · apply h.add
    intro id tag tag' hTag
    rw [SameNode, Node.unplaced, Node.unplaced, hTag, hTarget, hBody]
  · exact h.fail _

theorem Alike.operator {p q : Parser} (h : Alike p q) {left left' right right' : Node}
    (hLeft : SameNode left left') (hRight : SameNode right right') :
    Step.Alike SameNode (p.operator left right) (q.operator left' right') := by
  apply h.withTerm
  intro p q term h
  by_cases hAssign : term = assignSign
  · rw [if_pos hAssign, if_pos hAssign]
    exact h.assignment hLeft hRight
  · rw [if_neg hAssign, if_neg hAssign]
    cases Operator.ofSymbol? term with
    | none => exact h.fail _
    | some op =>
        apply h.add
        intro id tag tag' hTag
        rw [SameNode, Node.unplaced, Node.unplaced, hTag, hLeft, hRight]

theorem Alike.print {p q : Parser} (h : Alike p q) {operand operand' : Node}
    (hOperand : SameNode operand operand') :
    Step.Alike SameNode (p.print operand) (q.print operand') := by
  apply h.withTerm
  intro p q term h
  by_cases hPrint : term = printWord
  · rw [if_pos hPrint, if_pos hPrint]
    apply h.add
    intro id tag tag' hTag
    rw [SameNode, Node.unplaced, Node.unplaced, hTag, hOperand]
  · rw [if_neg hPrint, if_neg hPrint]
    exact h.fail _

/-- Reads an expression, given how the one nested in it is read. -/
def expressionWith (nested : Parser → Step Node) (p : Parser) : Step Node :=
  p.value.andThen fun left p =>
    if p.peeks fun term => (valueKind? term).isSome then
      (nested p).andThen fun right p => p.operator left right
    else if p.peeks (· == printWord) then p.print left
    else (.ok left, p)

theorem expressionWithin_zero :
    expressionWithin 0 = expressionWith fun p => p.fail (.tooDeep p.maxDepth) := by
  funext p
  rw [expressionWithin, expressionWith]
  rcases p.value with ⟨_ | left, q⟩ <;> rfl

theorem expressionWithin_succ (room : Nat) :
    expressionWithin (room + 1) = expressionWith (expressionWithin room) := by
  funext p
  rw [expressionWithin, expressionWith]
  rcases p.value with ⟨_ | left, q⟩
  · rfl
  · dsimp only [Step.andThen]
    rcases expressionWithin room q with ⟨_ | right, r⟩ <;> rfl

theorem Alike.expressionWith {p q : Parser} (h : Alike p q) {nested : Parser → Step Node}
    (hNested : ∀ p q : Parser, Alike p q → Step.Alike SameNode (nested p) (nested q)) :
    Step.Alike SameNode (p.expressionWith nested) (q.expressionWith nested) := by
  refine h.value.andThen fun left left' p q _ hLeft h => ?_
  rw [h.peeks, h.peeks]
  split
  · exact (hNested p q h).andThen fun right right' p q _ hRight h => h.operator hLeft hRight
  · split
    · exact h.print hLeft
    · exact ⟨.ok hLeft, h⟩

/-- Alike parsers read alike expressions. -/
theorem Alike.expressionWithin {p q : Parser} (h : Alike p q) (room : Nat) :
    Step.Alike SameNode (expressionWithin room p) (expressionWithin room q) := by
  induction room generalizing p q with
  | zero =>
      rw [expressionWithin_zero]
      apply h.expressionWith
      intro p q h
      rw [h.maxDepth]
      exact h.fail _
  | succ room ih =>
      rw [expressionWithin_succ]
      exact h.expressionWith fun p q h => ih h

theorem Alike.atEnd {p q : Parser} (h : Alike p q) : p.scanner.atEnd = q.scanner.atEnd := by
  rw [h.ready.atEnd_eq, h.ready'.atEnd_eq, ← List.isEmpty_map, h.texts, List.isEmpty_map]

theorem Alike.lineEnd {p q : Parser} (h : Alike p q) :
    Step.Alike (fun _ _ => True) p.lineEnd q.lineEnd := by
  rw [Parser.lineEnd, Parser.lineEnd, h.atEnd]
  split
  · exact ⟨.ok trivial, h⟩
  · apply h.withTerm
    intro p q term h
    by_cases hNewline : term = Term.newline
    · rw [if_pos hNewline, if_pos hNewline]
      exact ⟨.ok trivial, h⟩
    · rw [if_neg hNewline, if_neg hNewline]
      exact h.fail _

theorem Alike.addStatement {p q : Parser} (h : Alike p q) {root root' : Node}
    (hRoot : SameNode root root') : Alike (p.addStatement root) (q.addStatement root') := by
  refine ⟨h.texts, ?_, h.maxDepth, h.ready, h.ready'⟩
  have hForest := h.forest
  simp only [Forest.unplaced, Forest.mk.injEq] at hForest
  simp only [Parser.addStatement, Forest.addStatement, Forest.unplaced, Array.map_push,
    hForest.1, hForest.2]
  rw [hRoot]

theorem statements_eq (p : Parser) :
    p.statements =
      if p.scanner.atEnd then (.ok (), p)
      else p.expression.andThen fun root q =>
        (q.addStatement root).lineEnd.andThen fun _ r => r.statements := by
  rw [statements]
  split
  · rfl
  · split
    · next f q hRoot => rw [hRoot, Step.andThen]
    · next root q hRoot =>
        split
        · next f r hLine => rw [hRoot, Step.andThen, hLine, Step.andThen]
        · next r hLine =>
            show r.statements = _
            rw [hRoot, Step.andThen, hLine, Step.andThen]

/-- Alike parsers read alike statements, up to the end or up to the same fault. -/
theorem Alike.statements {p q : Parser} (h : Alike p q) :
    Step.Alike (fun _ _ => True) p.statements q.statements := by
  rw [statements_eq p, statements_eq q, h.atEnd]
  split
  · exact ⟨.ok trivial, h⟩
  · have hExpression : Step.Alike SameNode p.expression q.expression := by
      rw [expression, expression, h.maxDepth]
      exact h.expressionWithin q.maxDepth
    refine hExpression.andThen fun root root' p' q' hRoot hSame h => ?_
    refine (h.addStatement hSame).lineEnd.andThen fun _ _ r r' hLine _ h => ?_
    have hShorter := lineEnd_shorter hRoot hLine
    exact h.statements
termination_by p.unread

end Parser

/-- Two ready scanners of the same terms start alike parsers. -/
theorem Parser.ofSource_alike {source source' : String} (hBlank : ¬ IsBlank source)
    (hBlank' : ¬ IsBlank source')
    (hTerms : (termsOf source).map Term.text = (termsOf source').map Term.text)
    (maxDepth : Nat) : Alike (ofSource source maxDepth) (ofSource source' maxDepth) :=
  ⟨hTerms, rfl, rfl, (ofSource_ready_iff source).2 hBlank, (ofSource_ready_iff source').2 hBlank'⟩

theorem Forest.ofSource_correspond {source source' : String} {maxDepth : Nat}
    (h : Parser.Alike (Parser.ofSource source maxDepth) (Parser.ofSource source' maxDepth)) :
    Correspond (fun e e' : PlacedFault => e.fault = e'.fault)
      (fun f g : Forest => f.unplaced = g.unplaced)
      (ofSource source maxDepth) (ofSource source' maxDepth) := by
  obtain ⟨hOutcome, hParser⟩ := h.statements
  rw [ofSource, ofSource, Parser.run, Parser.run]
  generalize (Parser.ofSource source maxDepth).statements = r at hOutcome hParser ⊢
  generalize (Parser.ofSource source' maxDepth).statements = r' at hOutcome hParser ⊢
  obtain ⟨result, p⟩ := r
  obtain ⟨result', q⟩ := r'
  cases hOutcome with
  | ok _ => exact .ok hParser.forest
  | error hFault => exact .error hFault

/-! ## What is emitted, places apart -/

/-- A call with a tag that does not say where its term stands. -/
def Call.unplaced (c : Tag × Call) : Tag × Call := (c.1.unplaced, c.2)

theorem Node.calls_unplaced (n : Node) : n.unplaced.calls = n.calls.map Call.unplaced := by
  induction n with
  | value id tag kind text => rfl
  | binary id tag op left right ihLeft ihRight =>
      rw [unplaced, calls, calls, ihLeft, ihRight, List.map_append, List.map_append]
      rfl
  | assign id tag target body _ ihBody =>
      rw [unplaced, calls, calls, ihBody, List.map_append, tag_unplaced]
      rfl
  | print id tag operand ih =>
      rw [unplaced, calls, calls, ih, List.map_append]
      rfl

theorem Forest.calls_unplaced (f : Forest) : f.unplaced.calls = f.calls.map Call.unplaced := by
  rw [calls, calls, unplaced, Array.toList_map, List.flatMap_map, List.map_flatMap]
  simp only [Node.calls_unplaced]

def Piece.unplaced (piece : Piece) : Piece := ⟨piece.tag.map Tag.unplaced, piece.content⟩

theorem Forest.pieces_unplaced (s : Settings) (f : Forest) :
    (f.unplaced.fragment s).pieces none =
      ((f.fragment s).pieces none).map Piece.unplaced := by
  rw [pieces_fragment, pieces_fragment, calls_unplaced, List.map_cons, List.map_map,
    List.map_map]
  rfl

namespace Emitter

def unplaced (e : Emitter) : Emitter :=
  { e with mappings := e.mappings.map Mapping.unplaced }

theorem record_unplaced (e : Emitter) (tag : Tag) :
    (e.record tag).unplaced = e.unplaced.record tag.unplaced := by
  simp [record, unplaced, Mapping.unplaced, Tag.unplaced]

theorem writePiece_unplaced (e : Emitter) (piece : Piece) :
    (e.writePiece piece).unplaced = e.unplaced.writePiece piece.unplaced := by
  obtain ⟨tag, content⟩ := piece
  cases tag with
  | none => rfl
  | some tag =>
      show ((if content.isEmpty then e else e.record tag).write content).unplaced =
        (if content.isEmpty then e.unplaced else e.unplaced.record tag.unplaced).write content
      by_cases hEmpty : content.isEmpty = true
      · rw [if_pos hEmpty, if_pos hEmpty]
        rfl
      · rw [if_neg hEmpty, if_neg hEmpty, ← record_unplaced]
        rfl

theorem foldl_writePiece_unplaced (e : Emitter) (pieces : List Piece) :
    (pieces.foldl writePiece e).unplaced =
      (pieces.map Piece.unplaced).foldl writePiece e.unplaced := by
  induction pieces generalizing e with
  | nil => rfl
  | cons piece pieces ih =>
      rw [List.foldl_cons, ih, writePiece_unplaced, List.map_cons, List.foldl_cons]

end Emitter

/-- The texts that a source map lists do not depend on places. -/
theorem SourceMap.ofMappings_texts {table table' : List Mapping}
    (h : table.map Mapping.unplaced = table'.map Mapping.unplaced) (file : String) :
    (ofMappings file table).sources = (ofMappings file table').sources ∧
      (ofMappings file table).names = (ofMappings file table').names := by
  have hTexts (text : Mapping → String) (hText : ∀ m, text m.unplaced = text m) :
      distinct ((withoutRepeats table).map text) =
        distinct ((withoutRepeats table').map text) := by
    have hMap (table : List Mapping) :
        table.map text = (table.map Mapping.unplaced).map text := by
      rw [List.map_map]
      exact List.map_congr_left fun m _ => (hText m).symm
    rw [distinct_withoutRepeats, distinct_withoutRepeats, hMap table, hMap table', h]
  exact ⟨hTexts _ fun _ => rfl, hTexts _ fun _ => rfl⟩

/-- Two results of compiling that differ in the places of terms only: in the origins of the
table, in their encoding, and in the text of the source if the map holds it. -/
structure Compiled.SameButPlaces (c c' : Compiled) : Prop where
  code : c.code = c'.code
  table : c.table.map Mapping.unplaced = c'.table.map Mapping.unplaced
  version : c.map.version = c'.map.version
  file : c.map.file = c'.map.file
  sources : c.map.sources = c'.map.sources
  names : c.map.names = c'.map.names

/-- What is written for a forest, places apart, is what is written for the forest without
its places. -/
theorem Emitter.writeFragment_unplaced (source : String) (s : Settings) (f : Forest) :
    ((ofSource source).writeFragment (f.fragment s)).unplaced =
      (ofSource source).writeFragment (f.unplaced.fragment s) := by
  have hStart : (ofSource source).unplaced = ofSource source := by
    simp [unplaced, ofSource]
  rw [writeFragment, writeFragment, foldl_writePiece_unplaced, Forest.pieces_unplaced, hStart]

/-- What is emitted for forests that differ in places only. -/
theorem Compiled.ofForest_sameButPlaces {f g : Forest} (h : f.unplaced = g.unplaced)
    (s : Settings) (source text text' : String) :
    (ofForest s source text f).SameButPlaces (ofForest s source text' g) := by
  have hSame : ((Emitter.ofSource source).writeFragment (f.fragment s)).unplaced =
      ((Emitter.ofSource source).writeFragment (g.fragment s)).unplaced := by
    rw [Emitter.writeFragment_unplaced, Emitter.writeFragment_unplaced, h]
  obtain ⟨_, hCode, _, hMappings⟩ := Emitter.mk.inj hSame
  have hTable : (ofForest s source text f).table.map Mapping.unplaced =
      (ofForest s source text' g).table.map Mapping.unplaced := by
    have hLists := congrArg Array.toList hMappings
    rwa [Array.toList_map, Array.toList_map] at hLists
  obtain ⟨hSources, hNames⟩ := SourceMap.ofMappings_texts hTable
    (Path.fileName (ArtifactPaths.ofInput s source).code)
  have hWhole (text : String) (f : Forest) : (ofForest s source text f).code =
      ((Emitter.ofSource source).writeFragment (f.fragment s)).code ++
        Emitter.mapComment (s.mapFileName source) := rfl
  refine
    { code := by rw [hWhole, hWhole, hCode]
      table := hTable
      version := ?_
      file := ?_
      sources := ?_
      names := ?_ }
  all_goals
    unfold ofForest
    dsimp only
    split
  · rfl
  · rfl
  · rfl
  · rfl
  · exact hSources
  · exact hSources
  · exact hNames
  · exact hNames

/-! ## Two layouts -/

theorem Compiled.ofText_correspond {text text' : String} {s : Settings}
    (h : Correspond (fun f f' : PlacedFault => f.fault = f'.fault)
      (fun forest forest' : Forest => forest.unplaced = forest'.unplaced)
      (Forest.ofSource text s.maxDepth) (Forest.ofSource text' s.maxDepth))
    (label source : String) :
    Correspond (fun f f' : Fault => f.unplaced = f'.unplaced) SameButPlaces
      (ofText s label source text) (ofText s label source text') := by
  rw [ofText, ofText]
  generalize Forest.ofSource text s.maxDepth = read at h ⊢
  generalize Forest.ofSource text' s.maxDepth = read' at h ⊢
  cases h with
  | ok hSame => exact .ok (ofForest_sameButPlaces hSame s source text text')
  | error hFault => exact .error (congrArg (Fault.source label 0 0) hFault)

/-- **Layout makes no difference.**  Two sources with the same terms, neither of them blank,
are both read, as the same forest up to the places in its tags, or both refused with the same
fault.  The same holds when they are compiled under any name and with any settings, which may
be refused themselves: the code is the same, the tables are the same except for the places of
origin, and a fault differs in its place only. -/
theorem layout_makes_no_difference {source source' : String} (hBlank : ¬ IsBlank source)
    (hBlank' : ¬ IsBlank source')
    (hTerms : (termsOf source).map Term.text = (termsOf source').map Term.text)
    (maxDepth : Nat) (s : Settings) (label name : String) :
    Correspond (fun f f' : PlacedFault => f.fault = f'.fault)
        (fun forest forest' : Forest => forest.unplaced = forest'.unplaced)
        (Forest.ofSource source maxDepth) (Forest.ofSource source' maxDepth) ∧
      Correspond (fun f f' : Fault => f.unplaced = f'.unplaced) Compiled.SameButPlaces
        (Compiled.ofText s label name source) (Compiled.ofText s label name source') ∧
      Correspond (fun f f' : Fault => f.unplaced = f'.unplaced) Compiled.SameButPlaces
        (compile s name source) (compile s name source') := by
  have hForests (depth : Nat) := Forest.ofSource_correspond
    (Parser.ofSource_alike hBlank hBlank' hTerms depth)
  have hTexts (label : String) := Compiled.ofText_correspond (hForests s.maxDepth) label name
  refine ⟨hForests maxDepth, hTexts label, ?_⟩
  rw [compile, compile]
  split
  · exact hTexts name
  · exact .error rfl

/-- Two statements on two lines, laid out in two ways. -/
theorem layout_makes_no_difference_sample :
    (termsOf "c 8 =\nc print").map Term.text =
        (termsOf "\tc  8 = \r\n  c\tprint ").map Term.text ∧
      ∃ c c', compile {} "p.rpn" "c 8 =\nc print" = .ok c ∧
        compile {} "p.rpn" "\tc  8 = \r\n  c\tprint " = .ok c' ∧ c.SameButPlaces c' ∧
        c.table ≠ c'.table := by
  have hBlank : ¬ IsBlank "c 8 =\nc print" :=
    fun h => absurd (h.2 'c' (by decide)) (by decide)
  have hBlank' : ¬ IsBlank "\tc  8 = \r\n  c\tprint " :=
    fun h => absurd (h.2 'c' (by decide)) (by decide)
  have hTerms : (termsOf "c 8 =\nc print").map Term.text =
      (termsOf "\tc  8 = \r\n  c\tprint ").map Term.text := by decide +kernel
  have hOk : (compile {} "p.rpn" "c 8 =\nc print").isOk = true := by decide +kernel
  have hDiffer : (compile {} "p.rpn" "c 8 =\nc print").toOption.map Compiled.table ≠
      (compile {} "p.rpn" "\tc  8 = \r\n  c\tprint ").toOption.map Compiled.table := by
    decide +kernel
  have hBoth := (layout_makes_no_difference hBlank hBlank' hTerms 256 {} "p.rpn" "p.rpn").2.2
  refine ⟨hTerms, ?_⟩
  generalize compile {} "p.rpn" "c 8 =\nc print" = result at *
  generalize compile {} "p.rpn" "\tc  8 = \r\n  c\tprint " = result' at *
  cases hBoth with
  | ok hSame => exact ⟨_, _, rfl, rfl, hSame, fun hTable => hDiffer (congrArg some hTable)⟩
  | error hFault => cases hOk

end ReversePolish
