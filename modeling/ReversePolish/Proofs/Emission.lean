import ReversePolish.Compilation.Basic
import ReversePolish.Proofs.Language

/-!
# Emitted code as a flat row of calls

A tree is emitted by a fragment that nests as the tree does, and an emitter follows
lines and columns while it writes the fragment's pieces.  Neither matters for the
result.  The code of a tree is a row of calls, one line each (`Node.calls`), and the
table has one mapping for each line, at its first column.

For a sentence that row can be read off its terms without the tree: every term stands
for one call, in the order in which the terms are written, except for the target of
an assignment, which stands for none (`Sentence.roles`).

## Main results

* `Node.pieces_fragment` — the fragment of a tree is its row of calls.
* `Sentence.node_calls` — the calls of a sentence are those of its terms.
* `compile_emits_script` — compiling a source is the flat translation of its terms.
-/

namespace ReversePolish

/-! ## Calls -/

/-- A line of emitted code: something that is asked of the stack machine. -/
inductive Call where
  | push (text : String)
  | calculate (op : Operator)
  | bind (target : String)
  | print
  deriving DecidableEq, Repr

namespace Call

/-- The line of a call, without the newline that ends it. -/
def line (vm : String) : Call → String
  | .push text => vm ++ ".push( " ++ text ++ " );"
  | .calculate op => vm ++ "." ++ op.method ++ "();"
  | .bind target => "var " ++ target ++ " = " ++ vm ++ ".pop();"
  | .print => vm ++ ".print();"

/-- The name under which the table lists a call that is emitted for a term. -/
def label (t : Term) : Call → String
  | .bind target => target ++ assignSign
  | _ => t.text

/-- The texts that a call takes over from the source. -/
def texts : Call → List String
  | .push text => [text]
  | .bind target => [target]
  | _ => []

end Call

/-- The calls of a tree, operands first, each with the tag of its node.  The target of
an assignment is not called for. -/
def Node.calls : Node → List (Tag × Call)
  | .value _ tag _ text => [(tag, .push text)]
  | .binary _ tag op left right => left.calls ++ right.calls ++ [(tag, .calculate op)]
  | .assign _ tag target body => body.calls ++ [(tag, .bind target.tag.name)]
  | .print _ tag operand => operand.calls ++ [(tag, .print)]

/-- The piece of code of a call. -/
def Call.piece (vm : String) (c : Tag × Call) : Piece :=
  ⟨some c.1, c.2.line vm ++ "\n"⟩

/-- The fragment of a tree is its row of calls. -/
theorem Node.pieces_fragment (vm : String) (outer : Option Tag) (n : Node) :
    (n.fragment vm).pieces outer = n.calls.map (Call.piece vm) := by
  have hLine (body : String) (tail : String) : body ++ tail ++ "\n" = body ++ (tail ++ "\n") :=
    String.append_assoc
  induction n generalizing outer with
  | value id tag kind text =>
      simp [fragment, calls, Fragment.pieces, Fragment.piecesOfAll, Call.piece, Call.line,
        hLine, toString]
  | binary id tag op left right ihl ihr =>
      simp [fragment, calls, Fragment.pieces, Fragment.piecesOfAll, ihl, ihr, Call.piece,
        Call.line, hLine, toString]
  | assign id tag target body _ ih =>
      simp [fragment, calls, Fragment.pieces, Fragment.piecesOfAll, ih, Call.piece,
        Call.line, hLine, toString]
  | print id tag operand ih =>
      simp [fragment, calls, Fragment.pieces, Fragment.piecesOfAll, ih, Call.piece,
        Call.line, hLine, toString]

/-- The calls of all statements of a forest. -/
def Forest.calls (f : Forest) : List (Tag × Call) :=
  f.statements.toList.flatMap Node.calls

theorem Forest.pieces_fragment (s : Settings) (f : Forest) :
    (f.fragment s).pieces none =
      ⟨none, s.preamble⟩ :: f.calls.map (Call.piece s.runtimeInstance) := by
  have hAll : ∀ ns : List Node,
      Fragment.piecesOfAll none (ns.map (Node.fragment s.runtimeInstance)) =
        (ns.flatMap Node.calls).map (Call.piece s.runtimeInstance) := by
    intro ns
    induction ns with
    | nil => rfl
    | cons n ns ih =>
        rw [List.map_cons, Fragment.piecesOfAll, Node.pieces_fragment, ih,
          List.flatMap_cons, List.map_append]
  rw [fragment, Fragment.pieces, Fragment.piecesOfAll, Fragment.pieces, hAll]
  rfl

/-! ## Settings that make sense -/

/-- An identifier starts as one, and goes on with such characters and digits. -/
theorem isIdentifier_iff {text : String} :
    isIdentifier text = true ↔ ∃ c rest, text.toList = c :: rest ∧
      isIdentifierStart c = true ∧
        ∀ d ∈ rest, (isIdentifierStart d || d.isDigit) = true := by
  unfold isIdentifier
  cases text.toList with
  | nil => simp
  | cons c rest => simp

theorem identifier_chars {text : String} (h : isIdentifier text = true) :
    ∀ d ∈ text.toList, (isIdentifierStart d || d.isDigit) = true := by
  obtain ⟨c, rest, hText, hStart, hRest⟩ := isIdentifier_iff.1 h
  intro d hd
  rw [hText, List.mem_cons] at hd
  rcases hd with rfl | hd
  · simp [hStart]
  · exact hRest d hd

/-- A character that no identifier holds. -/
theorem not_mem_identifier {text : String} (h : isIdentifier text = true) {d : Char}
    (hd : (isIdentifierStart d || d.isDigit) = false) : d ∉ text.toList := by
  intro hMem
  rw [identifier_chars h d hMem] at hd
  cases hd

/-- Settings that pass the check name the runtime by identifiers. -/
theorem Settings.identifiers_of_check {s : Settings} (h : s.check = .ok ()) :
    isIdentifier s.runtimeClass = true ∧ isIdentifier s.runtimeInstance = true := by
  obtain ⟨-, -, -, hClass, hInstance, -⟩ := s.faults_eq_nil_iff.1 (s.check_eq_ok_iff.1 h)
  exact ⟨hClass, hInstance⟩

theorem Call.newline_not_mem_line {vm : String} {call : Call}
    (hVm : isIdentifier vm = true) (hTexts : ∀ text ∈ call.texts, '\n' ∉ text.toList) :
    '\n' ∉ (call.line vm).toList := by
  have hName : '\n' ∉ vm.toList := not_mem_identifier hVm (by decide)
  cases call with
  | push text =>
      have hText := hTexts text (by simp [texts])
      simp [line, hName, hText]
  | calculate op => cases op <;> simp [line, hName, Operator.method]
  | bind target =>
      have hText := hTexts target (by simp [texts])
      simp [line, hName, hText]
  | print => simp [line, hName]

/-! ## What an emitter writes and records -/

/-- The code of several calls. -/
def Call.code (vm : String) (calls : List Call) : String :=
  String.join (calls.map fun call => call.line vm ++ "\n")

/-- The table of calls, of which the first stands on the given line. -/
def Call.table (source : String) (line : Nat) (calls : List (Tag × Call)) : List Mapping :=
  calls.mapIdx fun i c => ⟨⟨line + i, 0⟩, ⟨c.1.line, c.1.column⟩, source, c.1.name⟩

theorem Call.table_cons (source : String) (line : Nat) (c : Tag × Call)
    (calls : List (Tag × Call)) :
    table source line (c :: calls) =
      ⟨⟨line, 0⟩, ⟨c.1.line, c.1.column⟩, source, c.1.name⟩ ::
        table source (line + 1) calls := by
  simp only [table, List.mapIdx_cons, Nat.add_zero, Nat.add_assoc, Nat.add_comm 1]

namespace Emitter

/-- Behind a newline stands the first column. -/
theorem foldl_advance_newline (cs : List Char) (p : LineColumn) :
    (cs ++ ['\n']).foldl advance p = ⟨(cs.foldl advance p).line + 1, 0⟩ := by
  simp [List.foldl_append, advance]

theorem foldl_advance_line {cs : List Char} (h : '\n' ∉ cs) (p : LineColumn) :
    (cs.foldl advance p).line = p.line := by
  induction cs generalizing p with
  | nil => rfl
  | cons c cs ih =>
      rw [List.mem_cons, not_or] at h
      rw [List.foldl_cons, ih h.2, advance, if_neg (Ne.symm h.1)]

theorem le_foldl_advance_line (cs : List Char) (p : LineColumn) :
    p.line ≤ (cs.foldl advance p).line := by
  induction cs generalizing p with
  | nil => exact Nat.le_refl _
  | cons c cs ih =>
      refine Nat.le_trans ?_ (ih (advance p c))
      unfold advance
      split
      · exact Nat.le_succ _
      · exact Nat.le_refl _

/-- Writing the line of a call: it starts at the first column and is recorded there. -/
theorem writePiece_call {vm : String} {c : Tag × Call} (e : Emitter)
    (hColumn : e.place.column = 0) (hLine : '\n' ∉ (c.2.line vm).toList) :
    e.writePiece (Call.piece vm c) =
      { source := e.source
        code := e.code ++ (c.2.line vm ++ "\n")
        place := ⟨e.place.line + 1, 0⟩
        mappings := e.mappings.push
          ⟨⟨e.place.line, 0⟩, ⟨c.1.line, c.1.column⟩, e.source, c.1.name⟩ } := by
  have hSome : (c.2.line vm ++ "\n").isEmpty = false := by
    rw [Bool.eq_false_iff, ne_eq, String.isEmpty_iff]
    intro h
    have hLength := congrArg (fun text => text.toList.length) h
    simp at hLength
  have hPlace : e.place = ⟨e.place.line, 0⟩ := by rw [← hColumn]
  have hNewline : "\n".toList = ['\n'] := rfl
  simp only [writePiece, Call.piece, hSome, Bool.false_eq_true, ↓reduceIte, write, record,
    String.toList_append, hNewline, foldl_advance_newline, foldl_advance_line hLine]
  rw [← hPlace]

/-- Writing calls from a first column on. -/
theorem foldl_writePiece_calls {vm : String} {calls : List (Tag × Call)} (e : Emitter)
    (hColumn : e.place.column = 0)
    (hLines : ∀ c ∈ calls, '\n' ∉ (c.2.line vm).toList) :
    (calls.map (Call.piece vm)).foldl writePiece e =
      { source := e.source
        code := e.code ++ Call.code vm (calls.map Prod.snd)
        place := ⟨e.place.line + calls.length, 0⟩
        mappings := e.mappings ++ (Call.table e.source e.place.line calls).toArray } := by
  induction calls generalizing e with
  | nil =>
      have hPlace : e.place = ⟨e.place.line, 0⟩ := by rw [← hColumn]
      simp [Call.code, Call.table, ← hPlace]
  | cons c calls ih =>
      rw [List.map_cons, List.foldl_cons, writePiece_call e hColumn (hLines c (by simp)),
        ih _ rfl fun c' hc' => hLines c' (by simp [hc'])]
      simp only [Call.code, Call.table_cons, List.map_cons, String.join_cons,
        String.append_assoc, List.length_cons, mk.injEq, LineColumn.mk.injEq, true_and,
        and_true]
      exact ⟨by omega, by simp⟩

end Emitter

/-! ## The code and the table of a forest -/

/-- The line on which the first call stands. -/
def Settings.firstLine (s : Settings) : Nat :=
  (s.preamble.toList.foldl Emitter.advance ⟨1, 0⟩).line

/-- The name of the source map that the code of a source ends with. -/
def Settings.mapFileName (s : Settings) (source : String) : String :=
  Path.fileName (ArtifactPaths.ofInput s source).map

/-- The line that takes the machine from its module. -/
def Settings.importLine (s : Settings) : String :=
  "import \x7b " ++ s.runtimeClass ++ " \x7d from '" ++ s.runtimeModule ++ "';"

/-- The line that makes a machine and names it. -/
def Settings.letLine (s : Settings) : String :=
  "let " ++ s.runtimeInstance ++ " = new " ++ s.runtimeClass ++ "();"

/-- A preamble is two lines. -/
theorem Settings.preamble_toList (s : Settings) :
    s.preamble.toList =
      s.importLine.toList ++ '\n' :: (s.letLine.toList ++ ['\n']) := by
  simp [preamble, importLine, letLine, toString]

theorem Settings.preamble_place (s : Settings) :
    s.preamble.toList.foldl Emitter.advance ⟨1, 0⟩ = ⟨s.firstLine, 0⟩ := by
  unfold firstLine
  rw [preamble_toList, ← List.cons_append, ← List.append_assoc,
    Emitter.foldl_advance_newline]

theorem Settings.firstLine_pos (s : Settings) : 1 ≤ s.firstLine :=
  Emitter.le_foldl_advance_line s.preamble.toList ⟨1, 0⟩

theorem Settings.newline_not_mem_letLine {s : Settings} (hCheck : s.check = .ok ()) :
    '\n' ∉ s.letLine.toList := by
  obtain ⟨hClass, hInstance⟩ := identifiers_of_check hCheck
  have hClass' : '\n' ∉ s.runtimeClass.toList := not_mem_identifier hClass (by decide)
  have hInstance' : '\n' ∉ s.runtimeInstance.toList :=
    not_mem_identifier hInstance (by decide)
  simp [letLine, hClass', hInstance']

theorem Settings.newline_not_mem_importLine {s : Settings} (hCheck : s.check = .ok ())
    (hModule : '\n' ∉ s.runtimeModule.toList) : '\n' ∉ s.importLine.toList := by
  have hClass : '\n' ∉ s.runtimeClass.toList :=
    not_mem_identifier (identifiers_of_check hCheck).1 (by decide)
  simp [importLine, hClass, hModule]

/-- The first call stands on the third line, unless the name of the module has more than
one line. -/
theorem Settings.firstLine_eq_three {s : Settings} (hCheck : s.check = .ok ())
    (hModule : '\n' ∉ s.runtimeModule.toList) : s.firstLine = 3 := by
  unfold firstLine
  rw [preamble_toList, List.append_cons, List.foldl_append, Emitter.foldl_advance_newline,
    Emitter.foldl_advance_newline,
    Emitter.foldl_advance_line (newline_not_mem_letLine hCheck),
    Emitter.foldl_advance_line (newline_not_mem_importLine hCheck hModule)]

/-- The code of a forest is the preamble, a line for each call, and the comment that
names the source map; its table lists the calls line by line. -/
theorem Compiled.ofForest_eq {s : Settings} {forest : Forest} (source text : String)
    (hLines : ∀ c ∈ forest.calls, '\n' ∉ (c.2.line s.runtimeInstance).toList) :
    (ofForest s source text forest).code =
        s.preamble ++ Call.code s.runtimeInstance (forest.calls.map Prod.snd) ++
          Emitter.mapComment (s.mapFileName source) ∧
      (ofForest s source text forest).table =
        Call.table source s.firstLine forest.calls := by
  have hStart : (Emitter.ofSource source).writePiece ⟨none, s.preamble⟩ =
      ⟨source, s.preamble, ⟨s.firstLine, 0⟩, #[]⟩ := by
    simp [Emitter.writePiece, Emitter.write, Emitter.ofSource, Settings.preamble_place]
  have hWritten : (Emitter.ofSource source).writeFragment (forest.fragment s) =
      ⟨source, s.preamble ++ Call.code s.runtimeInstance (forest.calls.map Prod.snd),
        ⟨s.firstLine + forest.calls.length, 0⟩,
        #[] ++ (Call.table source s.firstLine forest.calls).toArray⟩ := by
    rw [Emitter.writeFragment, Forest.pieces_fragment, List.foldl_cons, hStart,
      Emitter.foldl_writePiece_calls _ rfl hLines]
  simp [ofForest, Fragment.emit, hWritten, Emitter.finish, Emitter.write,
    Settings.mapFileName]

/-! ## The calls of a sentence -/

/-- What the left operand of a joint is called for: nothing, if it is assigned to. -/
def Joint.leftCall? (j : Joint) : Option Call :=
  j.sign.op?.map fun _ => .push j.left.term.text

/-- What the sign of a joint is called for. -/
def Joint.call (j : Joint) : Call :=
  match j.sign.op? with
  | some op => .calculate op
  | none => .bind j.left.term.text

namespace Sentence

/-- The terms of a sentence in order, each with the call it stands for.  Only the
targets of assignments stand for none. -/
def roles (σ : Sentence) : List (Term × Option Call) :=
  σ.joints.map (fun j => (j.left.term, j.leftCall?)) ++
    (σ.last.term, some (.push σ.last.term.text)) ::
      σ.print?.toList.map (fun t => (t, some .print)) ++
    (σ.joints.map fun j => (j.sign.term, some j.call)).reverse

/-- The terms of a sentence that stand for a call, with that call. -/
def script (σ : Sentence) : List (Term × Call) :=
  σ.roles.filterMap fun (t, call?) => call?.map (t, ·)

/-- A call with the tag of the term it is emitted for. -/
def tagged (entry : Term × Call) : Tag × Call :=
  (Tag.at entry.1.start (entry.2.label entry.1), entry.2)

theorem roles_terms (σ : Sentence) : σ.roles.map Prod.fst = σ.terms := by
  simp [roles, terms, Function.comp_def]

theorem script_within (j : Joint) (σ : Sentence) :
    (within j σ).script =
      j.leftCall?.toList.map (j.left.term, ·) ++ σ.script ++ [(j.sign.term, j.call)] := by
  have hRoles : (within j σ).roles =
      (j.left.term, j.leftCall?) :: (σ.roles ++ [(j.sign.term, some j.call)]) := by
    simp [roles, within]
  unfold script
  rw [hRoles]
  cases j.leftCall? <;> simp

/-- The calls of a sentence are those of its terms, and their tags say where these
terms start. -/
theorem node_calls (σ : Sentence) (id : Nat) :
    (σ.node id).calls = σ.script.map tagged := by
  induction σ using Sentence.induction generalizing id with
  | alone last print? isPrint => cases print? <;> rfl
  | joined j σ ih =>
      rw [node_within, script_within, List.map_append, List.map_append, ← ih (id + 1)]
      unfold Joint.node Joint.leftCall? Joint.call Joint.name
      cases j.sign.op? <;> rfl

theorem roots_calls (id : Nat) (σs : List Sentence) :
    (roots id σs).flatMap Node.calls = (σs.flatMap script).map tagged := by
  induction σs generalizing id with
  | nil => rfl
  | cons σ σs ih =>
      rw [roots, List.flatMap_cons, List.flatMap_cons, List.map_append, node_calls, ih]

end Sentence

/-! ## The terms of written sentences -/

theorem ValueTerm.not_newline (v : ValueTerm) : v.term.isNewline = false := by
  rw [Bool.eq_false_iff]
  intro hNewline
  have hNone := (Term.closes_of_isNewline hNewline).1
  rw [v.isValue] at hNone
  cases hNone

theorem SignTerm.not_newline (o : SignTerm) : o.term.isNewline = false := by
  unfold Term.isNewline
  rw [o.isSign]
  cases o.op? with
  | none => decide
  | some op => cases op <;> decide

theorem Sentence.not_newline (σ : Sentence) : ∀ t ∈ σ.terms, t.isNewline = false := by
  induction σ using Sentence.induction with
  | alone last print? isPrint =>
      intro t ht
      simp only [terms, List.map_nil, List.nil_append, List.reverse_nil, List.append_nil,
        List.mem_cons, Option.mem_toList] at ht
      rcases ht with rfl | ht
      · exact last.not_newline
      · have hWord := isPrint t ht
        unfold Term.isNewline
        rw [hWord]
        decide
  | joined j σ ih =>
      intro t ht
      rw [terms_within, List.mem_cons, List.mem_append, List.mem_singleton] at ht
      rcases ht with rfl | ht | rfl
      · exact j.left.not_newline
      · exact ih t ht
      · exact j.sign.not_newline

/-- The terms of written sentences are all terms but the newlines. -/
theorem Written.filter_eq {σs : List Sentence} {ts : List Term} (h : Written σs ts) :
    ts.filter (fun t => !t.isNewline) = σs.flatMap Sentence.terms := by
  have hKept (σ : Sentence) : σ.terms.filter (fun t => !t.isNewline) = σ.terms := by
    rw [List.filter_eq_self]
    intro t ht
    simp [σ.not_newline t ht]
  induction h with
  | none => rfl
  | last σ => simp [hKept]
  | line σ hStop hRest ih => simp [hKept, hStop, ih]

/-- The terms of the sentences of a row are those of the row that are no newlines. -/
theorem Written.mem_terms_iff {σs : List Sentence} {ts : List Term} (h : Written σs ts)
    {t : Term} : (t ∈ ts ∧ t.isNewline = false) ↔ ∃ σ ∈ σs, t ∈ σ.terms := by
  rw [← List.mem_flatMap, ← h.filter_eq, List.mem_filter, Bool.not_eq_true']

/-- A value of a written sentence is a word. -/
theorem Written.value_spelled {source : String} {σs : List Sentence}
    (h : Written σs (termsOf source)) {σ : Sentence} (hσ : σ ∈ σs) {v : ValueTerm}
    (hv : v.term ∈ σ.terms) : ∀ c ∈ v.term.text.toList, Term.isWordChar c = true := by
  obtain ⟨hMem, hNot⟩ := h.mem_terms_iff.2 ⟨σ, hσ, hv⟩
  rcases Scanner.remaining_spelled _ _ hMem with hNewline | hWord
  · simp [Term.isNewline, hNewline] at hNot
  · exact hWord.2

/-- Which terms of a sentence stand for calls, and for which. -/
theorem Sentence.mem_script {σ : Sentence} {t : Term} {call : Call} :
    (t, call) ∈ σ.script ↔
      (∃ j ∈ σ.joints, t = j.left.term ∧ j.leftCall? = some call) ∨
      (t = σ.last.term ∧ call = .push t.text) ∨ (t ∈ σ.print? ∧ call = .print) ∨
      ∃ j ∈ σ.joints, t = j.sign.term ∧ call = j.call := by
  have hRoles : (t, call) ∈ σ.script ↔ (t, some call) ∈ σ.roles := by
    unfold script
    rw [List.mem_filterMap]
    constructor
    · rintro ⟨⟨t', call?⟩, hRole, hCall⟩
      cases call? with
      | none => cases hCall
      | some call' =>
          cases hCall
          exact hRole
    · intro hRole
      exact ⟨(t, some call), hRole, rfl⟩
  rw [hRoles, roles]
  simp only [List.mem_append, List.mem_map, List.mem_cons, List.mem_reverse, Prod.mk.injEq,
    Option.mem_toList, Option.some.injEq]
  constructor
  · rintro ((⟨j, hj, rfl, hCall⟩ | ⟨rfl, rfl⟩ | ⟨p, hp, rfl, rfl⟩) | ⟨j, hj, rfl, rfl⟩)
    · exact Or.inl ⟨j, hj, rfl, hCall⟩
    · exact Or.inr (Or.inl ⟨rfl, rfl⟩)
    · exact Or.inr (Or.inr (Or.inl ⟨hp, rfl⟩))
    · exact Or.inr (Or.inr (Or.inr ⟨j, hj, rfl, rfl⟩))
  · rintro (⟨j, hj, rfl, hCall⟩ | ⟨rfl, rfl⟩ | ⟨hp, rfl⟩ | ⟨j, hj, rfl, rfl⟩)
    · exact Or.inl (Or.inl ⟨j, hj, rfl, hCall⟩)
    · exact Or.inl (Or.inr (Or.inl ⟨rfl, rfl⟩))
    · exact Or.inl (Or.inr (Or.inr ⟨t, hp, rfl, rfl⟩))
    · exact Or.inr ⟨j, hj, rfl, rfl⟩

theorem Sentence.left_mem_terms {σ : Sentence} {j : Joint} (h : j ∈ σ.joints) :
    j.left.term ∈ σ.terms := by
  simp only [terms, List.mem_append]
  exact Or.inl (Or.inl (List.mem_map_of_mem h))

/-- The texts in the calls of a sentence are those of its values. -/
theorem Sentence.script_texts (σ : Sentence) {t : Term} {call : Call} {text : String}
    (hCall : (t, call) ∈ σ.script) (hText : text ∈ call.texts) :
    ∃ v : ValueTerm, v.term ∈ σ.terms ∧ text = v.term.text := by
  rcases mem_script.1 hCall with ⟨j, hj, _, hLeft⟩ | ⟨rfl, rfl⟩ | ⟨_, rfl⟩ | ⟨j, hj, _, rfl⟩
  · refine ⟨j.left, left_mem_terms hj, ?_⟩
    obtain ⟨op, _, rfl⟩ := Option.map_eq_some_iff.1 hLeft
    simpa [Call.texts] using hText
  · exact ⟨σ.last, by simp [terms], by simpa [Call.texts] using hText⟩
  · cases hText
  · refine ⟨j.left, left_mem_terms hj, ?_⟩
    unfold Joint.call at hText
    cases hOp : j.sign.op? with
    | none => simpa [hOp, Call.texts] using hText
    | some op => simp [hOp, Call.texts] at hText

/-! ## Compiled sources -/

theorem compile_eq_ok {s : Settings} {name text : String} {c : Compiled}
    (h : compile s name text = .ok c) :
    s.check = .ok () ∧ ∃ forest, Forest.ofSource text s.maxDepth = .ok forest ∧
      c = Compiled.ofForest s name text forest := by
  unfold compile at h
  split at h
  · next hCheck =>
      unfold Compiled.ofText at h
      split at h
      · next forest hForest => exact ⟨hCheck, forest, hForest, by simpa using h.symm⟩
      · cases h
  · cases h

theorem Forest.ofSentences_calls (σs : List Sentence) :
    (Forest.ofSentences σs).calls = (σs.flatMap Sentence.script).map Sentence.tagged := by
  simp [Forest.calls, Forest.ofSentences, Sentence.roots_calls]

/-- The calls of a source are lines: nothing in them breaks a line. -/
theorem Written.newline_not_mem_line {source vm : String} {σs : List Sentence}
    (h : Written σs (termsOf source)) (hVm : isIdentifier vm = true) :
    ∀ c ∈ (Forest.ofSentences σs).calls, '\n' ∉ (c.2.line vm).toList := by
  intro c hc
  rw [Forest.ofSentences_calls, List.mem_map] at hc
  obtain ⟨⟨t, call⟩, hMem, rfl⟩ := hc
  obtain ⟨σ, hσ, hCall⟩ := List.mem_flatMap.1 hMem
  refine Call.newline_not_mem_line hVm ?_
  intro text hText hNewline
  obtain ⟨v, hv, rfl⟩ := σ.script_texts hCall hText
  have hWord := h.value_spelled hσ hv '\n' hNewline
  simp [Term.isWordChar] at hWord

/-- The code and the table of a source that is compiled with any settings. -/
theorem compile_eq_script {s : Settings} {name text : String} {c : Compiled}
    (h : compile s name text = .ok c) :
    ∃ σs, Written σs (termsOf text) ∧
      c = Compiled.ofForest s name text (Forest.ofSentences σs) ∧
      c.code = s.preamble ++
          Call.code s.runtimeInstance ((σs.flatMap Sentence.script).map Prod.snd) ++
          Emitter.mapComment (s.mapFileName name) ∧
      c.table = Call.table name s.firstLine
        ((σs.flatMap Sentence.script).map Sentence.tagged) := by
  obtain ⟨hCheck, forest, hForest, rfl⟩ := compile_eq_ok h
  obtain ⟨_, σs, hWritten, _, rfl⟩ := ofSource_eq_ok_iff.1 hForest
  have hInstance := (Settings.identifiers_of_check hCheck).2
  obtain ⟨hCode, hTable⟩ :=
    Compiled.ofForest_eq name text (hWritten.newline_not_mem_line hInstance)
  rw [Forest.ofSentences_calls] at hCode hTable
  refine ⟨σs, hWritten, rfl, ?_, hTable⟩
  rw [hCode, List.map_map]
  rfl

/-! ## The order of a table -/

theorem Call.le_table_line {source : String} {line : Nat} {calls : List (Tag × Call)} :
    ∀ m ∈ table source line calls, line ≤ m.generated.line := by
  intro m hm
  obtain ⟨i, _, rfl⟩ := List.mem_mapIdx.1 hm
  exact Nat.le_add_right line i

/-- The lines of a table increase. -/
theorem Call.table_generated_pairwise (source : String) (line : Nat)
    (calls : List (Tag × Call)) :
    (table source line calls).Pairwise fun m n => m.generated < n.generated := by
  induction calls generalizing line with
  | nil => exact List.Pairwise.nil
  | cons c calls ih =>
      rw [table_cons, List.pairwise_cons]
      refine ⟨?_, ih (line + 1)⟩
      intro m hm
      exact LineColumn.lt_iff.2 (Or.inl (le_table_line m hm))

theorem Call.table_origins (source : String) (line : Nat) (calls : List (Tag × Call)) :
    (table source line calls).map Mapping.origin =
      calls.map fun c => ⟨c.1.line, c.1.column⟩ := by
  induction calls generalizing line with
  | nil => rfl
  | cons c calls ih => rw [table_cons, List.map_cons, List.map_cons, ih]

/-- The terms that stand for calls are among the terms of the source, in order. -/
theorem Written.script_sublist {σs : List Sentence} {ts : List Term} (h : Written σs ts) :
    ((σs.flatMap Sentence.script).map Prod.fst).Sublist ts := by
  have hRoles : ∀ roles : List (Term × Option Call),
      ((roles.filterMap fun (t, call?) => call?.map (t, ·)).map Prod.fst).Sublist
        (roles.map Prod.fst) := by
    intro roles
    induction roles with
    | nil => exact List.Sublist.slnil
    | cons role roles ih =>
        obtain ⟨t, _ | call⟩ := role
        · exact ih.cons t
        · exact ih.cons_cons t
  have hSentences := hRoles (σs.flatMap Sentence.roles)
  have hTerms : (σs.flatMap Sentence.roles).map Prod.fst = σs.flatMap Sentence.terms := by
    rw [List.map_flatMap]
    simp only [Sentence.roles_terms]
  rw [List.filterMap_flatMap, hTerms, ← h.filter_eq] at hSentences
  exact hSentences.trans List.filter_sublist

/-- The places of the terms in a table increase. -/
theorem Written.table_origin_pairwise {source : String} {σs : List Sentence}
    (h : Written σs (termsOf source)) (name : String) (line : Nat) :
    (Call.table name line ((σs.flatMap Sentence.script).map Sentence.tagged)).Pairwise
      fun m n => m.origin < n.origin := by
  rw [← List.pairwise_map, Call.table_origins, List.map_map]
  have hStarts := (Scanner.remaining_pairwise (Scanner.ofSource source)).sublist
    h.script_sublist
  rw [List.pairwise_map] at hStarts ⊢
  exact hStarts

/-- **Compiling is a flat translation of terms.**  The terms of a source other than
newlines stand for calls, each for one, in order, only that the targets of assignments
stand for none.  The code is the preamble, the lines of these calls, and the comment
that names the source map.  The table has one mapping for each call: from the start of
its line, the third line and following, to the place where its term starts.  So both
sides of the table increase. -/
theorem compile_emits_script {s : Settings} {name text : String} {c : Compiled}
    (hModule : '\n' ∉ s.runtimeModule.toList) (h : compile s name text = .ok c) :
    ∃ σs, Written σs (termsOf text) ∧
      (σs.flatMap Sentence.roles).map Prod.fst =
        (termsOf text).filter (fun t => !t.isNewline) ∧
      (∀ t ∈ termsOf text, t.StandsIn text.toList) ∧
      c.code = s.preamble ++
        String.join ((σs.flatMap Sentence.script).map fun (_, call) =>
          call.line s.runtimeInstance ++ "\n") ++
        Emitter.mapComment (s.mapFileName name) ∧
      c.table = (σs.flatMap Sentence.script).mapIdx (fun i (t, call) =>
        ⟨⟨3 + i, 0⟩, ⟨t.start.line, t.start.column⟩, name, call.label t⟩) ∧
      c.table.Pairwise (fun m n => m.generated < n.generated) ∧
      c.table.Pairwise (fun m n => m.origin < n.origin) := by
  obtain ⟨hCheck, _⟩ := compile_eq_ok h
  obtain ⟨σs, hWritten, _, hCode, hTable⟩ := compile_eq_script h
  rw [Settings.firstLine_eq_three hCheck hModule] at hTable
  refine ⟨σs, hWritten, ?_, ?_, ?_, ?_, ?_, ?_⟩
  · rw [hWritten.filter_eq, List.map_flatMap]
    simp only [Sentence.roles_terms]
  · exact (Scanner.ofSource_placed text).standsIn
  · rw [hCode, Call.code, List.map_map]
    rfl
  · rw [hTable, Call.table, List.mapIdx_eq_iff]
    intro i
    rw [List.getElem?_mapIdx, List.getElem?_map, Option.map_map]
    rfl
  · rw [hTable]
    exact Call.table_generated_pairwise name 3 _
  · rw [hTable]
    exact hWritten.table_origin_pairwise name 3

/-- The script of an assignment and a print on two lines. -/
theorem compile_emits_script_two_lines :
    ∃ c, '\n' ∉ ({} : Settings).runtimeModule.toList ∧
      compile {} "p.rpn" "c a b 1 - / =\nc print" = .ok c ∧
      ∃ σs, Written σs (termsOf "c a b 1 - / =\nc print") ∧
        c.table = (σs.flatMap Sentence.script).mapIdx (fun i (t, call) =>
          ⟨⟨3 + i, 0⟩, ⟨t.start.line, t.start.column⟩, "p.rpn", call.label t⟩) := by
  have hModule : '\n' ∉ ({} : Settings).runtimeModule.toList := by decide
  have hOk : (compile {} "p.rpn" "c a b 1 - / =\nc print").isOk = true := by decide +kernel
  cases h : compile {} "p.rpn" "c a b 1 - / =\nc print" with
  | error e => simp [h, Except.isOk, Except.toBool] at hOk
  | ok c =>
      obtain ⟨σs, hWritten, _, _, _, hTable, _⟩ := compile_emits_script hModule h
      exact ⟨c, hModule, rfl, σs, hWritten, hTable⟩

end ReversePolish
