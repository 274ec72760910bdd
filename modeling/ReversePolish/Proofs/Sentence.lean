import ReversePolish.Forest.Basic
import ReversePolish.Term.Basic

/-!
# Sentences

The terms of a statement form a *sentence*: values `v₁ … vₙ`, then perhaps the word
that prints, then `n - 1` signs `oₙ₋₁ … o₁`.  The sign `oᵢ` joins `vᵢ` with all that
stands between the two, so a sentence is a row of joints `(vᵢ, oᵢ)`, outermost first,
around its last value.

The structures below carry their own well-formedness: a `ValueTerm` is a number or a
variable, a `SignTerm` is an operator or the sign of assignment, and the left operand
of an assignment is a variable.  A sentence determines its tree (`Sentence.tree`) and,
once its first node has a number, also the numbers and the tags of all its nodes
(`Sentence.node`).

`Written` says how the sentences of a source are laid out in its row of terms.
-/

namespace ReversePolish

/-- A term that is a number or a variable. -/
structure ValueTerm where
  term : Term
  kind : ValueKind
  isValue : valueKind? term.text = some kind

/-- A term that joins two operands. -/
structure SignTerm where
  term : Term
  /-- The operator; the sign of assignment has none. -/
  op? : Option Operator
  isSign : term.text = op?.elim assignSign Operator.symbol

/-- A left operand and the sign that joins it with what stands between them. -/
structure Joint where
  left : ValueTerm
  sign : SignTerm
  /-- Only a variable is assigned to. -/
  isTarget : sign.op? = none → left.kind = .variable

/-- The terms of one statement. -/
structure Sentence where
  /-- The left operands with their signs, outermost first. -/
  joints : List Joint
  last : ValueTerm
  /-- The word that prints the last value, if it stands there. -/
  print? : Option Term
  isPrint : ∀ t ∈ print?, t.text = printWord

namespace Sentence

/-- The terms of a sentence in the order in which they are written. -/
def terms (σ : Sentence) : List Term :=
  σ.joints.map (·.left.term) ++ σ.last.term :: σ.print?.toList ++
    (σ.joints.map (·.sign.term)).reverse

/-- The sentence inside a further joint. -/
def within (j : Joint) (σ : Sentence) : Sentence :=
  { σ with joints := j :: σ.joints }

theorem terms_within (j : Joint) (σ : Sentence) :
    (within j σ).terms = j.left.term :: (σ.terms ++ [j.sign.term]) := by
  simp [terms, within]

/-- An induction from the last value outwards. -/
theorem induction {motive : Sentence → Prop}
    (alone : ∀ last print? isPrint, motive ⟨[], last, print?, isPrint⟩)
    (joined : ∀ j σ, motive σ → motive (within j σ)) (σ : Sentence) : motive σ := by
  obtain ⟨joints, last, print?, isPrint⟩ := σ
  induction joints with
  | nil => exact alone last print? isPrint
  | cons j joints ih => exact joined j ⟨joints, last, print?, isPrint⟩ ih

theorem terms_ne_nil (σ : Sentence) : σ.terms ≠ [] := by
  simp [terms]

end Sentence

/-- The sentences of a row of terms: each ends at a newline, the last one perhaps at
the end of the row. -/
inductive Written : List Sentence → List Term → Prop where
  | none : Written [] []
  | last (σ : Sentence) : Written [σ] σ.terms
  | line (σ : Sentence) {stop : Term} (hStop : stop.isNewline = true)
      {σs : List Sentence} {ts : List Term} (hRest : Written σs ts) :
      Written (σ :: σs) (σ.terms ++ stop :: ts)

/-! ## Trees -/

/-- A statement as a tree, without the numbers and the tags of its nodes. -/
inductive Tree where
  | value (kind : ValueKind) (text : String)
  | binary (op : Operator) (left right : Tree)
  | assign (target body : Tree)
  | print (operand : Tree)
  deriving DecidableEq, Repr

/-- The tree of a node. -/
def Node.tree : Node → Tree
  | .value _ _ kind text => .value kind text
  | .binary _ _ op left right => .binary op left.tree right.tree
  | .assign _ _ target body => .assign target.tree body.tree
  | .print _ _ operand => .print operand.tree

def ValueTerm.tree (v : ValueTerm) : Tree := .value v.kind v.term.text

/-- The tree of a joint whose right operand is given. -/
def Joint.tree (j : Joint) (right : Tree) : Tree :=
  match j.sign.op? with
  | some op => .binary op j.left.tree right
  | none => .assign j.left.tree right

/-- The tree of a sentence: its joints nest to the right. -/
def Sentence.tree (σ : Sentence) : Tree :=
  σ.joints.foldr Joint.tree
    (match σ.print? with
    | some _ => .print σ.last.tree
    | none => σ.last.tree)

/-! ## Nodes -/

/-- The node with a given number that a value term is read as. -/
def ValueTerm.node (v : ValueTerm) (id : Nat) : Node :=
  .value id (Tag.at v.term.start v.term.text) v.kind v.term.text

/-- The name in the tag of a joint: its operator, or the variable assigned to and the
sign of assignment. -/
def Joint.name (j : Joint) : String :=
  match j.sign.op? with
  | some _ => j.sign.term.text
  | none => j.left.term.text ++ assignSign

/-- The node of a joint, with the numbers of its left operand and of its own. -/
def Joint.node (j : Joint) (leftId id : Nat) (right : Node) : Node :=
  let tag := Tag.at j.sign.term.start j.name
  match j.sign.op? with
  | some op => .binary id tag op (j.left.node leftId) right
  | none => .assign id tag (j.left.node leftId) right

namespace Sentence

/-- The node of the last value, with what prints it. -/
def coreNode (last : ValueTerm) (print? : Option Term) (id : Nat) : Node :=
  match print? with
  | some t => .print (id + 1) (Tag.at t.start t.text) (last.node id)
  | none => last.node id

/-- The node of a row of joints around a core.  Left operands take their numbers on the
way in, signs on the way out. -/
def nodeOf (core : Nat → Node) : List Joint → (id : Nat) → Node
  | [], id => core id
  | j :: joints, id =>
    let right := nodeOf core joints (id + 1)
    j.node id (right.id + 1) right

/-- The node of a sentence whose first node has the given number. -/
def node (σ : Sentence) (id : Nat) : Node :=
  nodeOf (coreNode σ.last σ.print?) σ.joints id

/-- The nodes of sentences, of which the first starts with the given number. -/
def roots (id : Nat) : List Sentence → List Node
  | [] => []
  | σ :: σs => σ.node id :: roots (id + σ.terms.length) σs

theorem exists_of_mem_roots {id : Nat} {σs : List Sentence} {root : Node}
    (h : root ∈ roots id σs) : ∃ σ ∈ σs, ∃ first, root = σ.node first := by
  induction σs generalizing id with
  | nil => cases h
  | cons σ σs ih =>
      rw [roots, List.mem_cons] at h
      rcases h with rfl | hRest
      · exact ⟨σ, List.mem_cons_self, id, rfl⟩
      · obtain ⟨τ, hτ, hRoot⟩ := ih hRest
        exact ⟨τ, List.mem_cons_of_mem σ hτ, hRoot⟩

theorem node_within (j : Joint) (σ : Sentence) (id : Nat) :
    (within j σ).node id = j.node id ((σ.node (id + 1)).id + 1) (σ.node (id + 1)) :=
  rfl

end Sentence

@[simp] theorem ValueTerm.node_tree (v : ValueTerm) (id : Nat) :
    (v.node id).tree = v.tree := rfl

theorem Joint.node_tree (j : Joint) (leftId id : Nat) (right : Node) :
    (j.node leftId id right).tree = j.tree right.tree := by
  unfold Joint.node Joint.tree
  cases j.sign.op? <;> rfl

theorem Joint.node_id (j : Joint) (leftId id : Nat) (right : Node) :
    (j.node leftId id right).id = id := by
  unfold Joint.node
  cases j.sign.op? <;> rfl

theorem Joint.node_subnodes (j : Joint) (leftId id : Nat) (right : Node) :
    (j.node leftId id right).subnodes =
      j.left.node leftId :: (right.subnodes ++ [j.node leftId id right]) := by
  unfold Joint.node
  cases j.sign.op? <;> simp [Node.subnodes, ValueTerm.node]

namespace Sentence

/-- Numbers and tags apart, the node of a sentence is its tree. -/
theorem node_tree (σ : Sentence) (id : Nat) : (σ.node id).tree = σ.tree := by
  induction σ using Sentence.induction generalizing id with
  | alone last print? isPrint => cases print? <;> rfl
  | joined j σ ih =>
      rw [node_within, Joint.node_tree, ih]
      rfl

/-- A sentence has a node for each of its terms. -/
theorem subnodes_length (σ : Sentence) (id : Nat) :
    (σ.node id).subnodes.length = σ.terms.length := by
  induction σ using Sentence.induction generalizing id with
  | alone last print? isPrint => cases print? <;> rfl
  | joined j σ ih =>
      rw [node_within, Joint.node_subnodes, terms_within]
      simp [ih]

/-- The node of a sentence is the last of its nodes. -/
theorem node_id_succ (σ : Sentence) (id : Nat) :
    (σ.node id).id + 1 = id + σ.terms.length := by
  induction σ using Sentence.induction generalizing id with
  | alone last print? isPrint => cases print? <;> rfl
  | joined j σ ih =>
      rw [node_within, Joint.node_id, ih (id + 1), terms_within]
      simp only [List.length_cons, List.length_append, List.length_nil]
      omega

theorem roots_tree (id : Nat) (σs : List Sentence) :
    (roots id σs).map Node.tree = σs.map tree := by
  induction σs generalizing id with
  | nil => rfl
  | cons σ σs ih => simp [roots, node_tree, ih]

end Sentence

end ReversePolish
