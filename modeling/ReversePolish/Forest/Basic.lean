import ReversePolish.Position
import ReversePolish.Term.Class

/-!
# Forests of nodes

Each statement of a source becomes a tree of nodes, and the trees of a source form
a forest. Nodes are numbered in the order in which they are made, and a node is made
after its operands, so an operand has a smaller number than the node that uses it.
A node also carries the tag of the source term that it was made from.
-/

namespace ReversePolish

/-- The source term that something was made from: where it starts and what it is called. -/
structure Tag where
  line : Nat
  column : Nat
  name : String
  deriving DecidableEq, Repr

/-- The tag of a term that starts at a position. -/
def Tag.at (p : Position) (name : String) : Tag :=
  ⟨p.line, p.column, name⟩

/-- A value, or an operation on values. -/
inductive Node where
  | value (id : Nat) (tag : Tag) (kind : ValueKind) (text : String)
  | binary (id : Nat) (tag : Tag) (op : Operator) (left right : Node)
  | assign (id : Nat) (tag : Tag) (target body : Node)
  | print (id : Nat) (tag : Tag) (operand : Node)
  deriving DecidableEq, Repr

namespace Node

/-- The rank of a node among the nodes of its forest. -/
def id : Node → Nat
  | .value id _ _ _ | .binary id _ _ _ _ | .assign id _ _ _ | .print id _ _ => id

def tag : Node → Tag
  | .value _ tag _ _ | .binary _ tag _ _ _ | .assign _ tag _ _ | .print _ tag _ => tag

/-- The operands of a node, from left to right. -/
def operands : Node → List Node
  | .value _ _ _ _ => []
  | .binary _ _ _ left right => [left, right]
  | .assign _ _ target body => [target, body]
  | .print _ _ operand => [operand]

/-- A node and all nodes below it, operands first. -/
def subnodes : Node → List Node
  | n@(.value _ _ _ _) => [n]
  | n@(.binary _ _ _ left right) => left.subnodes ++ right.subnodes ++ [n]
  | n@(.assign _ _ target body) => target.subnodes ++ body.subnodes ++ [n]
  | n@(.print _ _ operand) => operand.subnodes ++ [n]

/-- A node as a formula, with brackets around every operation. -/
def formula : Node → String
  | .value _ _ _ text => text
  | .binary _ _ op left right => s!"({left.formula} {op.symbol} {right.formula})"
  | .assign _ _ target body => s!"{target.formula} = {body.formula}"
  | .print _ _ operand => s!"print({operand.formula})"

end Node

/-- The nodes made so far, in the order of their numbers, and the trees that are
statements. -/
structure Forest where
  nodes : Array Node
  statements : Array Node
  deriving DecidableEq, Repr

namespace Forest

def empty : Forest := ⟨#[], #[]⟩

/-- The number of nodes. -/
def size (f : Forest) : Nat :=
  f.nodes.size

/-- Makes a node with the next number. -/
def add (f : Forest) (make : Nat → Node) : Node × Forest :=
  let node := make f.size
  (node, { f with nodes := f.nodes.push node })

/-- Makes a tree a statement. -/
def addStatement (f : Forest) (root : Node) : Forest :=
  { f with statements := f.statements.push root }

/-- The nodes of the forest that are at or below one of the given nodes, by number. -/
def reachable (f : Forest) (roots : List Node) : List Node :=
  let marks := (roots.flatMap Node.subnodes).foldl (fun marks n => marks.setIfInBounds n.id true)
    (Array.replicate f.size false)
  f.nodes.toList.filter fun n => marks.getD n.id false

end Forest

end ReversePolish
