import ReversePolish.Proofs.CodeReading
import ReversePolish.Proofs.Segmentation

/-!
# One node for each term

A parser makes one node for each term that it reads, except for newlines, and numbers
the nodes as it goes.  So the nodes of a forest stand beside the words of its source,
the first beside the first, and each carries the place and the name of its own word.

The nodes of a tree are its root and the operands of its nodes, each once.  This holds
of every tree (`Node.subnodes_perm`), and says of a forest that no node is shared and
none is left over.  That operands come before what uses them needs the numbers, and
these are known from the sentence (`Sentence.subnodes_ids`).

## Main results

* `Sentence.subnodes_madeOf` — the nodes of a sentence are made of its terms, in order.
* `Node.subnodes_perm` — the operands in a tree and its root are the nodes of the tree.
* `forest_madeOf_words` — the nodes of a source and its words.
-/

namespace ReversePolish

/-! ## Nodes and terms -/

/-- The node is made of the term: it belongs to the term's class, and its tag says where
the term starts and what it is called.  An assignment is called after its target, which is
a variable. -/
inductive Node.MadeOf : Node → Term → Prop where
  | value {id : Nat} {kind : ValueKind} {t : Term} (h : valueKind? t.text = some kind) :
      MadeOf (.value id (Tag.at t.start t.text) kind t.text) t
  | binary {id : Nat} {op : Operator} {left right : Node} {t : Term}
      (h : t.text = op.symbol) :
      MadeOf (.binary id (Tag.at t.start t.text) op left right) t
  | assign {id targetId : Nat} {targetTag : Tag} {target : String} {body : Node} {t : Term}
      (h : t.text = assignSign) :
      MadeOf (.assign id (Tag.at t.start (target ++ assignSign))
        (.value targetId targetTag .variable target) body) t
  | print {id : Nat} {operand : Node} {t : Term} (h : t.text = printWord) :
      MadeOf (.print id (Tag.at t.start t.text) operand) t

theorem ValueTerm.node_madeOf (v : ValueTerm) (id : Nat) : (v.node id).MadeOf v.term :=
  .value v.isValue

theorem Joint.node_madeOf (j : Joint) (leftId id : Nat) (right : Node) :
    (j.node leftId id right).MadeOf j.sign.term := by
  have hSign := j.sign.isSign
  unfold Joint.node Joint.name
  cases hOp : j.sign.op? with
  | some op =>
      rw [hOp] at hSign
      exact .binary hSign
  | none =>
      rw [hOp] at hSign
      simp only [ValueTerm.node, j.isTarget hOp]
      exact .assign hSign

theorem Joint.node_operands (j : Joint) (leftId id : Nat) (right : Node) :
    (j.node leftId id right).operands = [j.left.node leftId, right] := by
  unfold Joint.node
  cases j.sign.op? <;> rfl

namespace Sentence

/-- The nodes of a sentence are made of its terms, in order. -/
theorem subnodes_madeOf (σ : Sentence) (id : Nat) :
    List.Forall₂ Node.MadeOf (σ.node id).subnodes σ.terms := by
  induction σ using Sentence.induction generalizing id with
  | alone last print? isPrint =>
      cases print? with
      | none => exact .cons (last.node_madeOf id) .nil
      | some t =>
          exact .cons (last.node_madeOf id) (.cons (.print (isPrint t rfl)) .nil)
  | joined j σ ih =>
      rw [node_within, Joint.node_subnodes, terms_within]
      refine .cons (j.left.node_madeOf id) (List.rel_append (ih (id + 1)) ?_)
      exact .cons (j.node_madeOf _ _ _) .nil

/-! ## Numbers -/

/-- The nodes of a sentence are numbered in order. -/
theorem subnodes_ids (σ : Sentence) (id : Nat) :
    (σ.node id).subnodes.map Node.id = List.range' id σ.terms.length := by
  induction σ using Sentence.induction generalizing id with
  | alone last print? isPrint => cases print? <;> rfl
  | joined j σ ih =>
      have hRight := σ.node_id_succ (id + 1)
      rw [node_within, Joint.node_subnodes, terms_within, List.map_cons, List.map_append, ih,
        List.map_singleton, Joint.node_id, hRight, List.length_cons, List.length_append,
        List.length_singleton, List.range'_succ, List.range'_concat]
      simp [ValueTerm.node, Node.id]

/-- An operand in a sentence has a smaller number than the node that uses it. -/
theorem operand_lt (σ : Sentence) (id : Nat) :
    ∀ n ∈ (σ.node id).subnodes, ∀ o ∈ n.operands, o.id < n.id := by
  induction σ using Sentence.induction generalizing id with
  | alone last print? isPrint =>
      cases print? with
      | none => simp [node, nodeOf, coreNode, ValueTerm.node, Node.subnodes, Node.operands]
      | some t =>
          simp [node, nodeOf, coreNode, ValueTerm.node, Node.subnodes, Node.operands, Node.id]
  | joined j σ ih =>
      have hLength := List.length_pos_of_ne_nil σ.terms_ne_nil
      have hRight := σ.node_id_succ (id + 1)
      rw [node_within, Joint.node_subnodes]
      intro n hn o ho
      rw [List.mem_cons, List.mem_append, List.mem_singleton] at hn
      rcases hn with rfl | hn | rfl
      · cases ho
      · exact ih (id + 1) n hn o ho
      · rw [Joint.node_operands, List.mem_cons, List.mem_singleton] at ho
        rw [Joint.node_id]
        rcases ho with rfl | rfl
        · show id < _
          omega
        · exact Nat.lt_succ_self _

theorem roots_madeOf (σs : List Sentence) (id : Nat) :
    List.Forall₂ Node.MadeOf ((roots id σs).flatMap Node.subnodes) (σs.flatMap terms) := by
  induction σs generalizing id with
  | nil => exact .nil
  | cons σ σs ih => exact List.rel_append (σ.subnodes_madeOf id) (ih (id + σ.terms.length))

theorem roots_ids (σs : List Sentence) (id : Nat) :
    ((roots id σs).flatMap Node.subnodes).map Node.id =
      List.range' id (σs.flatMap terms).length := by
  induction σs generalizing id with
  | nil => rfl
  | cons σ σs ih =>
      rw [roots, List.flatMap_cons, List.map_append, subnodes_ids, ih, List.range'_append_1,
        List.flatMap_cons, List.length_append]

end Sentence

/-! ## References -/

/-- Two trees next to each other: what is said of the parts is said of both. -/
private theorem perm_regroup {a b c d e f : List Node} (h : (a ++ c).Perm e)
    (h' : (b ++ d).Perm f) : (a ++ b ++ (c ++ d)).Perm (e ++ f) := by
  refine List.Perm.trans ?_ (h.append h')
  simp only [List.append_assoc]
  refine List.Perm.append_left a ?_
  rw [← List.append_assoc, ← List.append_assoc]
  exact List.perm_append_comm.append_right d

/-- The operands in a tree and its root are the nodes of the tree, each once. -/
theorem Node.subnodes_perm (n : Node) : (n.subnodes.flatMap operands ++ [n]).Perm n.subnodes := by
  induction n with
  | value id tag kind text => exact List.Perm.refl _
  | binary id tag op left right ihLeft ihRight =>
      simp only [subnodes, List.flatMap_append, List.flatMap_singleton, operands]
      exact (perm_regroup ihLeft ihRight).append_right _
  | assign id tag target body ihTarget ihBody =>
      simp only [subnodes, List.flatMap_append, List.flatMap_singleton, operands]
      exact (perm_regroup ihTarget ihBody).append_right _
  | print id tag operand ih =>
      simp only [subnodes, List.flatMap_append, List.flatMap_singleton, operands]
      exact ih.append_right _

/-- The same for several trees. -/
theorem Node.flatMap_subnodes_perm (roots : List Node) :
    ((roots.flatMap subnodes).flatMap operands ++ roots).Perm (roots.flatMap subnodes) := by
  induction roots with
  | nil => exact List.Perm.refl _
  | cons root roots ih =>
      rw [List.flatMap_cons, List.flatMap_append, ← List.singleton_append]
      exact perm_regroup root.subnodes_perm ih

/-- A root is one of its own nodes, so roots stand among the nodes in the same order. -/
theorem Node.sublist_flatMap_subnodes (roots : List Node) :
    roots.Sublist (roots.flatMap subnodes) := by
  induction roots with
  | nil => exact List.Sublist.slnil
  | cons root roots ih =>
      have hRoot : root ∈ root.subnodes := by cases root <;> simp [subnodes]
      rw [List.flatMap_cons, ← List.singleton_append]
      exact (List.singleton_sublist.2 hRoot).append ih

/-- Where nodes are numbered in order, a place is a number. -/
theorem Node.id_of_getElem? {nodes : List Node}
    (h : nodes.map id = List.range nodes.length) {k : Nat} {n : Node}
    (hn : nodes[k]? = some n) : n.id = k := by
  have hLess := (List.getElem?_eq_some_iff.1 hn).1
  have hId := congrArg (fun ids : List Nat => ids[k]?) h
  simp only [List.getElem?_map, hn, Option.map_some, List.getElem?_range hLess,
    Option.some.injEq] at hId
  exact hId

theorem Node.getElem?_id {nodes : List Node} (h : nodes.map id = List.range nodes.length)
    {n : Node} (hn : n ∈ nodes) : nodes[n.id]? = some n := by
  obtain ⟨k, hk⟩ := List.mem_iff_getElem?.1 hn
  rw [id_of_getElem? h hk, hk]

/-! ## The forest of a source -/

/-- The numbers by which a forest refers to its nodes: as operands, and as statements. -/
def Forest.references (f : Forest) : List Nat :=
  (f.nodes.toList.flatMap Node.operands ++ f.statements.toList).map Node.id

/-- The forest has one node for each of the words, in order, and its trees share no node
and leave none out. -/
structure Forest.MadeOf (f : Forest) (words : List Term) : Prop where
  size : f.size = words.length
  id : ∀ (k : Nat) (n : Node), f.nodes[k]? = some n → n.id = k
  madeOf : ∀ (k : Nat) (n : Node) (t : Term),
    f.nodes[k]? = some n → words[k]? = some t → n.MadeOf t
  operand : ∀ n ∈ f.nodes, ∀ o ∈ n.operands, o.id < n.id ∧ f.nodes[o.id]? = some o
  statement : ∀ root ∈ f.statements, f.nodes[root.id]? = some root
  /-- Each number refers to a node, and each node is referred to once. -/
  references : f.references.Perm (List.range f.size)
  ordered : f.statements.toList.Pairwise fun root next => root.id < next.id

theorem Forest.ofSentences_madeOf (σs : List Sentence) :
    (ofSentences σs).MadeOf (σs.flatMap Sentence.terms) := by
  have hMade := Sentence.roots_madeOf σs 0
  have hIds := Sentence.roots_ids σs 0
  have hLess : ∀ n ∈ (Sentence.roots 0 σs).flatMap Node.subnodes,
      ∀ o ∈ n.operands, o.id < n.id := by
    intro n hn
    obtain ⟨root, hRoot, hn⟩ := List.mem_flatMap.1 hn
    obtain ⟨σ, _, first, rfl⟩ := Sentence.exists_of_mem_roots hRoot
    exact σ.operand_lt first n hn
  have hPerm := Node.flatMap_subnodes_perm (Sentence.roots 0 σs)
  have hSublist := Node.sublist_flatMap_subnodes (Sentence.roots 0 σs)
  rw [← List.range_eq_range', ← hMade.length_eq] at hIds
  unfold ofSentences
  generalize (Sentence.roots 0 σs).flatMap Node.subnodes = nodes at *
  refine
    { size := hMade.length_eq
      id := ?_
      madeOf := ?_
      operand := ?_
      statement := ?_
      references := ?_
      ordered := ?_ }
  · intro k n hn
    rw [List.getElem?_toArray] at hn
    exact Node.id_of_getElem? hIds hn
  · intro k n t hn ht
    rw [List.getElem?_toArray] at hn
    obtain ⟨hNode, rfl⟩ := List.getElem?_eq_some_iff.1 hn
    obtain ⟨hWord, rfl⟩ := List.getElem?_eq_some_iff.1 ht
    exact hMade.get hNode hWord
  · intro n hn o ho
    rw [List.mem_toArray] at hn
    refine ⟨hLess n hn o ho, ?_⟩
    rw [List.getElem?_toArray]
    refine Node.getElem?_id hIds (hPerm.subset (List.mem_append_left _ ?_))
    exact List.mem_flatMap_of_mem hn ho
  · intro root hRoot
    rw [List.mem_toArray] at hRoot
    rw [List.getElem?_toArray]
    exact Node.getElem?_id hIds (hSublist.subset hRoot)
  · have hNumbers := hPerm.map Node.id
    rw [hIds] at hNumbers
    exact hNumbers
  · have hSorted := List.pairwise_lt_range (n := nodes.length)
    rw [← hIds, List.pairwise_map] at hSorted
    exact hSorted.sublist hSublist

/-- Each term of a source occurs in it, with the coordinates that it carries. -/
theorem termsOf_occurs {source : String} (h : ¬ IsBlank source) :
    ∀ t ∈ termsOf source, t.Occurs source.toList := by
  intro t ht
  obtain ⟨read, hRead, rfl⟩ := List.mem_map.1 ht
  have hReady := (ofSource_ready_iff source).2 h
  exact ((Scanner.ofSource_stands source).segmentation hReady).2.occurs read hRead

/-- **One node for each word.**  The forest of a source has as many nodes as the source has
terms other than newlines.  The node with number `k` is made of the `k`-th of them: its tag
holds the line and the column of the term's first character and the term's text, or the
target and the sign for an assignment, and its kind is the class of the term.  Operands
have smaller numbers than the node that uses them, only variables are assigned to, and
each node is referred to exactly once, as an operand or as a statement; statements stand
in the order of their numbers. -/
theorem forest_madeOf_words {source : String} {depth : Nat} {forest : Forest}
    (h : Forest.ofSource source depth = .ok forest) :
    (∀ t ∈ termsOf source, t.Occurs source.toList) ∧
      forest.MadeOf ((termsOf source).filter fun t => !t.isNewline) := by
  obtain ⟨hBlank, σs, hWritten, _, rfl⟩ := ofSource_eq_ok_iff.1 h
  refine ⟨termsOf_occurs hBlank, ?_⟩
  rw [hWritten.filter_eq]
  exact Forest.ofSentences_madeOf σs

/-- A source with an assignment, a word that prints and a second statement. -/
theorem forest_madeOf_words_two_lines :
    ∃ forest, Forest.ofSource "c a 1 print - =\n\t7" 2 = .ok forest ∧ forest.size = 7 ∧
      (∀ t ∈ termsOf "c a 1 print - =\n\t7", t.Occurs "c a 1 print - =\n\t7".toList) ∧
      forest.MadeOf ((termsOf "c a 1 print - =\n\t7").filter fun t => !t.isNewline) := by
  have hAny : ((Forest.ofSource "c a 1 print - =\n\t7" 2).toOption.any fun forest =>
      forest.size == 7) = true := by decide +kernel
  obtain ⟨forest, hForest, hSize⟩ := exists_ok_of_any hAny
  exact ⟨forest, hForest, eq_of_beq hSize, forest_madeOf_words hForest⟩

end ReversePolish
