import ClassCompiler.Proofs.NodeTrees.Checks
import Mathlib.Data.List.TakeDrop
import Mathlib.Data.List.TakeWhile

/-!
# How many children a node has

Every form of node has a range of child counts. In a tree that is converted each node
that conversion looks at has at least the fewest children of its form, and a tree where
one is missing is refused with an error that names the kind of the node. The other bound is
not checked: a tree is converted like the tree without its surplus children, in which
every node is within its range.
-/

namespace ClassCompiler

open Effects

/-! ## Ranges -/

/-- How many children a form has. -/
structure ChildRange where
  fewest : Nat
  most : Option Nat
deriving DecidableEq, Repr

namespace ChildRange

def exactly (count : Nat) : ChildRange := ⟨count, some count⟩

def atLeast (count : Nat) : ChildRange := ⟨count, none⟩

/-- The children that are not surplus. -/
def keep {α : Type} (range : ChildRange) (children : List α) : List α :=
  match range.most with
  | some count => children.take count
  | none => children

end ChildRange

namespace Node

/-- Whether the first child denotes a type. -/
def startsWithType (children : List Node) : Bool :=
  children.head?.any fun first => first.kind.isType

/-- How many children a node has by its form. -/
def range (node : Node) : ChildRange :=
  match node.kind with
  | .type | .importStmt | .integerLiteral | .booleanLiteral | .stringLiteral | .varRefExpr
  | .thisExpr | .newClassExpr => .exactly 0
  | .arrayType | .vararg | .varDecl | .param | .exprStmt | .unaryExpr | .parenExpr
  | .lengthExpr => .exactly 1
  | .assignStmt | .whileStmt | .binaryExpr | .arrayAccessExpr => .exactly 2
  | .returnStmt => ⟨0, some 1⟩
  | .ifElseStmt => ⟨2, some 3⟩
  | .newArrayExpr => if startsWithType node.children then .exactly 2 else .exactly 1
  | .methodCallExpr => .atLeast (if node.flag "hasReceiver" true then 1 else 0)
  | .program | .classDecl | .methodDecl | .scopeStmt | .arrayInitExpr => .atLeast 0

mutual

/-- The tree without the surplus children of its nodes. -/
def trim : Node → Node
  | ⟨kind, children, attributes⟩ =>
      ⟨kind, (range ⟨kind, children, attributes⟩).keep (trims children), attributes⟩

/-- The trees without the surplus children of their nodes. -/
def trims : List Node → List Node
  | [] => []
  | node :: rest => node.trim :: trims rest

end

mutual

/-- The nodes of a tree. -/
def nodes : Node → List Node
  | ⟨kind, children, attributes⟩ => ⟨kind, children, attributes⟩ :: nodesIn children

/-- The nodes of several trees. -/
def nodesIn : List Node → List Node
  | [] => []
  | node :: rest => node.nodes ++ nodesIn rest

end

end Node

/-! ## Children that are needed are there -/

/-- The node has at least the fewest children of its form. -/
def Node.HasFewest (node : Node) : Prop := node.range.fewest ≤ node.children.length

/-- Where checks pass, the nodes that they look at have the fewest children of their
forms. -/
def Filled (checks : List Check) : Prop :=
  (∀ check ∈ checks, check.passes = true) → ∀ check ∈ checks, check.node.HasFewest

/-- The same of all nodes but one. -/
def FilledBelow (node : Node) (checks : List Check) : Prop :=
  (∀ check ∈ checks, check.passes = true) →
    ∀ check ∈ checks, check.node = node ∨ check.node.HasFewest

section

variable {node : Node} {checks first second : List Check} {parts : List (List Check)}

theorem Filled.below (filled : Filled checks) : FilledBelow node checks :=
  fun passes check isThere => .inr (filled passes check isThere)

theorem filled_of_below (node : Node) (below : FilledBelow node checks)
    (own : (∀ check ∈ checks, check.passes = true) → node.HasFewest) : Filled checks := by
  intro passes check isThere
  rcases below passes check isThere with same | hasFewest
  · rw [same]
    exact own passes
  · exact hasFewest

theorem hasFewest_of_fewest_eq_zero (isZero : node.range.fewest = 0) : node.HasFewest := by
  unfold Node.HasFewest
  rw [isZero]
  exact Nat.zero_le _

theorem filled_nil : Filled [] := fun _ _ isThere => absurd isThere List.not_mem_nil

theorem filledBelow_nil : FilledBelow node [] := filled_nil.below

theorem FilledBelow.cons {check : Check} (own : check.node = node)
    (below : FilledBelow node checks) : FilledBelow node (check :: checks) := by
  intro passes other isThere
  rcases List.mem_cons.mp isThere with rfl | isLater
  · exact .inl own
  · exact below (fun later isThere => passes later (List.mem_cons_of_mem _ isThere)) other isLater

theorem FilledBelow.append (below : FilledBelow node first) (others : FilledBelow node second) :
    FilledBelow node (first ++ second) := by
  intro passes check isThere
  rw [List.forall_mem_append] at passes
  rcases List.mem_append.mp isThere with isFirst | isSecond
  · exact below passes.1 check isFirst
  · exact others passes.2 check isSecond

theorem filled_flatten (each : ∀ part ∈ parts, Filled part) : Filled parts.flatten := by
  intro passes check isThere
  obtain ⟨part, isPart, isThere⟩ := List.mem_flatten.mp isThere
  refine each part isPart (fun other isOther => ?_) check isThere
  exact passes other (List.mem_flatten.mpr ⟨part, isPart, isOther⟩)

theorem Filled.append (filled : Filled first) (others : Filled second) :
    Filled (first ++ second) := by
  have each : ∀ part ∈ [first, second], Filled part := by simp [filled, others]
  simpa using filled_flatten each

theorem filled_flatMap {checksOf : Node → List Check} (each : ∀ node, Filled (checksOf node))
    (nodes : List Node) : Filled (nodes.flatMap checksOf) :=
  filled_flatten (List.forall_mem_map.mpr fun node _ => each node)

theorem filled_getD (each : ∀ part ∈ parts, Filled part) (index : Nat) :
    Filled (parts.getD index []) := by
  rw [List.getD_eq_getElem?_getD]
  cases found : parts[index]? with
  | none => exact filled_nil
  | some part => exact each part (List.mem_of_getElem? found)

theorem filledBelow_childChecks (node : Node) (each : ∀ part ∈ parts, Filled part) (index : Nat) :
    FilledBelow node (node.childChecks parts index) :=
  (filled_getD each index).below.cons rfl

theorem filled_of_failed {fault : NodeFault} : Filled (⟨node, fault, false⟩ :: checks) :=
  fun passes => absurd (passes _ List.mem_cons_self) Bool.false_ne_true

/-- A node with a child that is checked for has it. -/
theorem lt_length_of_passes {index : Nat} (isChecked : node.childCheck index ∈ checks)
    (passes : ∀ check ∈ checks, check.passes = true) : index < node.children.length :=
  of_decide_eq_true (passes _ isChecked)

end

theorem filled_type : (node : Node) → Filled node.typeChecks
  | ⟨kind, [], attributes⟩ => by
      apply filled_of_below ⟨kind, [], attributes⟩
      · rw [Node.typeChecks]
        apply FilledBelow.cons rfl
        split <;> exact filledBelow_nil.cons rfl
      · intro passes
        cases kind with
        | type => exact Nat.zero_le _
        | arrayType | vararg =>
            exact lt_length_of_passes (List.mem_cons_of_mem _ List.mem_cons_self) passes
        | _ => exact absurd (passes _ List.mem_cons_self) Bool.false_ne_true
  | ⟨kind, inner :: rest, attributes⟩ => by
      apply filled_of_below ⟨kind, inner :: rest, attributes⟩
      · rw [Node.typeChecks]
        apply FilledBelow.cons rfl
        split
        · exact filledBelow_nil.cons rfl
        · exact (filled_type inner).below.cons rfl
      · intro passes
        cases kind with
        | type => exact Nat.zero_le _
        | arrayType | vararg => exact Nat.succ_pos _
        | _ => exact absurd (passes _ List.mem_cons_self) Bool.false_ne_true

theorem filled_symbol {node : Node} (isSymbol : node.kind = .varDecl ∨ node.kind = .param) :
    Filled node.symbolChecks := by
  have eachType := List.forall_mem_map.mpr fun child (_ : child ∈ node.children) =>
    filled_type child
  apply filled_of_below node ((filledBelow_childChecks node eachType 0).cons rfl)
  intro passes
  have isThere := lt_length_of_passes (List.mem_cons_of_mem _ List.mem_cons_self) passes
  unfold Node.HasFewest Node.range
  rcases isSymbol with kindEq | kindEq <;> simp only [kindEq] <;> exact isThere

section

variable {kind : Kind} {children : List Node} {attributes : List (String × Json.Value)}
  {parts : List (List Check)}

theorem filledBelow_newArrayChecks {node : Node} (each : ∀ part ∈ parts, Filled part) :
    FilledBelow node (node.newArrayChecks parts) := by
  apply FilledBelow.cons rfl
  split
  · exact filledBelow_nil
  · split
    · exact (filled_type _).below.append (filledBelow_childChecks node each 1)
    · exact (filled_getD each 0).below

theorem filledBelow_formChecks (each : ∀ part ∈ parts, Filled part) :
    FilledBelow ⟨kind, children, attributes⟩
      (Node.formChecks ⟨kind, children, attributes⟩ parts) := by
  cases kind with
  | integerLiteral | booleanLiteral => exact (filledBelow_nil.cons rfl).cons rfl
  | stringLiteral | varRefExpr | newClassExpr => exact filledBelow_nil.cons rfl
  | binaryExpr =>
      exact (((filledBelow_childChecks _ each 0).append
        (filledBelow_childChecks _ each 1)).cons rfl).cons rfl
  | unaryExpr => exact ((filledBelow_childChecks _ each 0).cons rfl).cons rfl
  | parenExpr | lengthExpr => exact filledBelow_childChecks _ each 0
  | arrayAccessExpr =>
      exact (filledBelow_childChecks _ each 0).append (filledBelow_childChecks _ each 1)
  | newArrayExpr => exact filledBelow_newArrayChecks each
  | arrayInitExpr => exact (filled_flatten each).below
  | methodCallExpr => exact ((filled_flatten each).below.cons rfl).cons rfl
  | _ => exact filledBelow_nil

theorem hasFewest_of_newArrayChecks {node : Node} (kindEq : node.kind = .newArrayExpr)
    (passes : ∀ check ∈ node.newArrayChecks parts, check.passes = true) : node.HasFewest := by
  unfold Node.HasFewest Node.range
  simp only [kindEq]
  by_cases isType : Node.startsWithType node.children = true
  · rw [if_pos isType]
    apply lt_length_of_passes _ passes
    unfold Node.newArrayChecks
    cases childrenEq : node.children with
    | nil =>
        rw [childrenEq] at isType
        cases isType
    | cons first rest =>
        rw [childrenEq] at isType
        have isType : first.kind.isType = true := isType
        simp [isType, Node.childChecks]
  · rw [if_neg isType]
    exact lt_length_of_passes List.mem_cons_self passes

theorem hasFewest_of_formChecks (isExpr : kind.isExpr = true)
    (passes : ∀ check ∈ Node.formChecks ⟨kind, children, attributes⟩ parts, check.passes = true) :
    Node.HasFewest ⟨kind, children, attributes⟩ := by
  cases kind with
  | unaryExpr | parenExpr | lengthExpr | binaryExpr | arrayAccessExpr =>
      exact lt_length_of_passes (by simp [Node.formChecks, Node.childChecks]) passes
  | newArrayExpr => exact hasFewest_of_newArrayChecks rfl passes
  | methodCallExpr =>
      have hasReceiver := of_decide_eq_true (passes _ (List.mem_cons_of_mem _ List.mem_cons_self))
      change (if Node.flag ⟨.methodCallExpr, children, attributes⟩ "hasReceiver" true then 1 else 0) ≤
        children.length
      split
      · exact List.length_pos_iff.mpr (hasReceiver ‹_›)
      · exact Nat.zero_le _
  | integerLiteral | booleanLiteral | stringLiteral | varRefExpr | thisExpr | newClassExpr
  | arrayInitExpr => exact Nat.zero_le _
  | _ => cases isExpr

end

mutual

theorem filled_expr : (node : Node) → Filled node.exprChecks
  | ⟨kind, children, attributes⟩ => by
      rw [Node.exprChecks]
      apply filled_of_below ⟨kind, children, attributes⟩
      · exact (filledBelow_formChecks (filled_exprs children)).cons rfl
      · intro passes
        rw [List.forall_mem_cons] at passes
        exact hasFewest_of_formChecks passes.1 passes.2

theorem filled_exprs : (nodes : List Node) → ∀ part ∈ Node.exprChecksIn nodes, Filled part
  | [] => fun _ isPart => absurd isPart List.not_mem_nil
  | node :: rest => by
      rw [Node.exprChecksIn, List.forall_mem_cons]
      exact ⟨filled_expr node, filled_exprs rest⟩

end

section

variable {kind : Kind} {children : List Node} {attributes : List (String × Json.Value)}
  {exprs stmts : List (List Check)}

theorem filledBelow_stepChecks (eachExpr : ∀ part ∈ exprs, Filled part)
    (eachStmt : ∀ part ∈ stmts, Filled part) :
    FilledBelow ⟨kind, children, attributes⟩
      (Node.stepChecks ⟨kind, children, attributes⟩ exprs stmts) := by
  cases kind with
  | assignStmt =>
      exact (filledBelow_childChecks _ eachExpr 0).append (filledBelow_childChecks _ eachExpr 1)
  | exprStmt => exact filledBelow_childChecks _ eachExpr 0
  | returnStmt => exact (filled_getD eachExpr 0).below
  | ifElseStmt =>
      exact (filledBelow_childChecks _ eachExpr 0).append
        ((filledBelow_childChecks _ eachStmt 1).append (filled_getD eachStmt 2).below)
  | whileStmt =>
      exact (filledBelow_childChecks _ eachExpr 0).append (filledBelow_childChecks _ eachStmt 1)
  | scopeStmt => exact (filled_flatten eachStmt).below
  | _ => exact filledBelow_nil

theorem hasFewest_of_stepChecks (isStmt : kind.isStmt = true)
    (passes : ∀ check ∈ Node.stepChecks ⟨kind, children, attributes⟩ exprs stmts,
      check.passes = true) : Node.HasFewest ⟨kind, children, attributes⟩ := by
  cases kind with
  | exprStmt => exact lt_length_of_passes (by simp [Node.stepChecks, Node.childChecks]) passes
  | assignStmt | ifElseStmt | whileStmt =>
      exact lt_length_of_passes (by simp [Node.stepChecks, Node.childChecks]) passes
  | returnStmt | scopeStmt => exact Nat.zero_le _
  | _ => cases isStmt

end

mutual

theorem filled_stmt : (node : Node) → Filled node.stmtChecks
  | ⟨kind, children, attributes⟩ => by
      rw [Node.stmtChecks]
      apply filled_of_below ⟨kind, children, attributes⟩
      · exact (filledBelow_stepChecks (filled_exprs children) (filled_stmts children)).cons rfl
      · intro passes
        rw [List.forall_mem_cons] at passes
        exact hasFewest_of_stepChecks passes.1 passes.2

theorem filled_stmts : (nodes : List Node) → ∀ part ∈ Node.stmtChecksIn nodes, Filled part
  | [] => fun _ isPart => absurd isPart List.not_mem_nil
  | node :: rest => by
      rw [Node.stmtChecksIn, List.forall_mem_cons]
      exact ⟨filled_stmt node, filled_stmts rest⟩

end

theorem filled_symbols {kind : Kind} (isSymbol : kind = .varDecl ∨ kind = .param)
    (nodes : List Node) :
    Filled ((nodes.takeWhile fun node => node.kind = kind).flatMap Node.symbolChecks) := by
  apply filled_flatten
  rw [List.forall_mem_map]
  intro node isThere
  have kindEq : node.kind = kind := by simpa using List.mem_takeWhile_imp isThere
  exact filled_symbol (kindEq ▸ isSymbol)

theorem filled_method {node : Node} (isMethod : node.kind = .methodDecl) :
    Filled node.methodChecks := by
  apply filled_of_below node
  · unfold Node.methodChecks
    simp only [List.span_eq_takeWhile_dropWhile]
    apply FilledBelow.cons rfl
    apply (filled_flatMap filled_type _).below.append
    apply (filled_symbols (.inr rfl) _).below.append
    apply (filled_symbols (.inl rfl) _).below.append
    exact (filled_flatten (filled_stmts _)).below
  · exact fun _ => hasFewest_of_fewest_eq_zero (by simp [Node.range, ChildRange.atLeast, isMethod])

theorem filled_member (node : Node) : Filled node.memberChecks := by
  unfold Node.memberChecks
  split
  · exact filled_symbol (.inl ‹_›)
  · exact filled_method ‹_›
  · exact filled_of_failed

theorem filled_class {node : Node} (isClass : node.kind = .classDecl) :
    Filled node.classChecks := by
  apply filled_of_below node
  · exact (filled_flatMap filled_member _).below.cons rfl
  · exact fun _ => hasFewest_of_fewest_eq_zero (by simp [Node.range, ChildRange.atLeast, isClass])

theorem filled_declarations (found : Bool) (nodes : List Node) :
    Filled (Node.declarationChecks found nodes) := by
  induction nodes generalizing found with
  | nil => exact filled_nil
  | cons node rest ih =>
      obtain ⟨kind, children, attributes⟩ := node
      cases kind with
      | importStmt =>
          apply filled_of_below _ ((ih found).below.cons rfl)
          exact fun _ => hasFewest_of_fewest_eq_zero rfl
      | classDecl =>
          cases found with
          | false => exact (filled_class rfl).append (ih true)
          | true => exact filled_of_failed
      | _ => exact filled_of_failed

/-- In a tree that passes its checks each node that is looked at has the fewest children
of its form. -/
theorem filled_program (tree : Node) : Filled tree.checks := by
  apply filled_of_below tree
  · apply FilledBelow.cons rfl
    exact (filled_declarations false tree.children).below.append (filledBelow_nil.cons rfl)
  · intro passes
    have isProgram : tree.kind = .program := of_decide_eq_true (passes _ List.mem_cons_self)
    exact hasFewest_of_fewest_eq_zero (by simp [Node.range, ChildRange.atLeast, isProgram])

/-! ## Surplus children make no difference -/

section

variable {α : Type} {kind : Kind} {children kept : List Node}
  {attributes : List (String × Json.Value)} {results : List (Except CompileError α)}
  {parts : List (Except CompileError Expr)} {count index : Nat}

/-- A child is found, or found missing, as if the surplus were there. -/
theorem part_take (keptLength : kept.length = children.length)
    (lengthEq : results.length = children.length) (isLess : index < count) :
    Node.part ⟨kind, kept.take count, attributes⟩ (results.take count) index =
      Node.part ⟨kind, children, attributes⟩ results index := by
  unfold Node.part Node.missingChild
  rw [List.getElem?_take_of_lt isLess]
  cases found : results[index]? with
  | some result => rfl
  | none =>
      have isMissing : children.length ≤ index := lengthEq ▸ List.getElem?_eq_none_iff.mp found
      have sameLength : (kept.take count).length = children.length := by
        rw [List.length_take, keptLength]
        omega
      simp only [sameLength]

theorem binaryExpr_take (keptLength : kept.length = children.length)
    (lengthEq : parts.length = children.length) :
    binaryExpr ⟨kind, kept.take 2, attributes⟩ (parts.take 2) =
      binaryExpr ⟨kind, children, attributes⟩ parts := by
  unfold binaryExpr
  simp only [part_take keptLength lengthEq (Nat.zero_lt_two),
    part_take keptLength lengthEq (Nat.one_lt_two)]
  rfl

theorem unaryExpr_take (keptLength : kept.length = children.length)
    (lengthEq : parts.length = children.length) :
    unaryExpr ⟨kind, kept.take 1, attributes⟩ (parts.take 1) =
      unaryExpr ⟨kind, children, attributes⟩ parts := by
  unfold unaryExpr
  simp only [part_take keptLength lengthEq Nat.zero_lt_one]
  rfl

end

theorem kind_trim (node : Node) : node.trim.kind = node.kind := by
  obtain ⟨kind, children, attributes⟩ := node
  rfl

theorem attr_trim (node : Node) (key : String) : node.trim.attr key = node.attr key := by
  obtain ⟨kind, children, attributes⟩ := node
  rfl

theorem trims_eq_map (nodes : List Node) : Node.trims nodes = nodes.map Node.trim := by
  induction nodes with
  | nil => rfl
  | cons node rest ih => rw [Node.trims, List.map_cons, ih]

theorem ofNode_trim_type : (node : Node) → Ty.ofNode node.trim = Ty.ofNode node
  | ⟨kind, [], attributes⟩ => by
      cases kind with
      | _ => rfl
  | ⟨kind, inner :: rest, attributes⟩ => by
      have innerEq := ofNode_trim_type inner
      cases kind with
      | arrayType | vararg =>
          change Except.bind (Ty.ofNode inner.trim) _ = Except.bind (Ty.ofNode inner) _
          rw [innerEq]
      | _ => rfl

theorem ofNodes_eq_map_expr (nodes : List Node) : Expr.ofNodes nodes = nodes.map Expr.ofNode := by
  induction nodes with
  | nil => rfl
  | cons node rest ih => rw [Expr.ofNodes, List.map_cons, ih]

theorem ofNodes_take_expr (count : Nat) (nodes : List Node) :
    Expr.ofNodes (nodes.take count) = (Expr.ofNodes nodes).take count := by
  rw [ofNodes_eq_map_expr, ofNodes_eq_map_expr, List.map_take]

theorem length_trims (nodes : List Node) : (Node.trims nodes).length = nodes.length := by
  rw [trims_eq_map, List.length_map]

theorem newArrayExpr_trim (children : List Node) (attributes : List (String × Json.Value))
    (partsEq : Expr.ofNodes (Node.trims children) = Expr.ofNodes children) :
    Expr.ofNode (Node.trim ⟨.newArrayExpr, children, attributes⟩) =
      Expr.ofNode ⟨.newArrayExpr, children, attributes⟩ := by
  cases children with
  | nil => rfl
  | cons first rest =>
      have keptLength := length_trims (first :: rest)
      have lengthEq := length_ofNodes_expr (first :: rest)
      have keptType : first.trim.kind.isType = first.kind.isType := by rw [kind_trim]
      have range : Node.range ⟨.newArrayExpr, first :: rest, attributes⟩ =
          if first.kind.isType then .exactly 2 else .exactly 1 := rfl
      rw [Node.trim, range]
      by_cases isType : first.kind.isType = true
      · rw [if_pos isType]
        change Expr.ofNode ⟨.newArrayExpr, (Node.trims (first :: rest)).take 2, attributes⟩ = _
        simp only [Expr.ofNode, ofNodes_take_expr, partsEq, newArrayExpr,
          part_take keptLength lengthEq Nat.one_lt_two]
        simp only [Node.trims, List.take_succ_cons, keptType, if_pos isType, ofNode_trim_type]
      · rw [if_neg isType]
        change Expr.ofNode ⟨.newArrayExpr, (Node.trims (first :: rest)).take 1, attributes⟩ = _
        simp only [Expr.ofNode, ofNodes_take_expr, partsEq, newArrayExpr,
          part_take keptLength lengthEq Nat.zero_lt_one]
        simp only [Node.trims, List.take_succ_cons, keptType, if_neg isType]

mutual

theorem ofNode_trim_expr : (node : Node) → Expr.ofNode node.trim = Expr.ofNode node
  | ⟨kind, children, attributes⟩ => by
      have partsEq := ofNodes_trims_expr children
      have keptLength := length_trims children
      have lengthEq := length_ofNodes_expr children
      cases kind with
      | binaryExpr =>
          change Expr.ofNode ⟨.binaryExpr, (Node.trims children).take 2, attributes⟩ = _
          simp only [Expr.ofNode, ofNodes_take_expr, partsEq]
          exact binaryExpr_take keptLength lengthEq
      | unaryExpr =>
          change Expr.ofNode ⟨.unaryExpr, (Node.trims children).take 1, attributes⟩ = _
          simp only [Expr.ofNode, ofNodes_take_expr, partsEq]
          exact unaryExpr_take keptLength lengthEq
      | parenExpr =>
          change Expr.ofNode ⟨.parenExpr, (Node.trims children).take 1, attributes⟩ = _
          simp only [Expr.ofNode, ofNodes_take_expr, partsEq,
            part_take keptLength lengthEq Nat.zero_lt_one]
      | lengthExpr =>
          change Expr.ofNode ⟨.lengthExpr, (Node.trims children).take 1, attributes⟩ = _
          simp only [Expr.ofNode, ofNodes_take_expr, partsEq,
            part_take keptLength lengthEq Nat.zero_lt_one]
      | arrayAccessExpr =>
          change Expr.ofNode ⟨.arrayAccessExpr, (Node.trims children).take 2, attributes⟩ = _
          simp only [Expr.ofNode, ofNodes_take_expr, partsEq,
            part_take keptLength lengthEq Nat.zero_lt_two,
            part_take keptLength lengthEq Nat.one_lt_two]
      | newArrayExpr => exact newArrayExpr_trim children attributes partsEq
      | arrayInitExpr =>
          change Expr.ofNode ⟨.arrayInitExpr, Node.trims children, attributes⟩ = _
          simp only [Expr.ofNode, partsEq]
      | methodCallExpr =>
          change Expr.ofNode ⟨.methodCallExpr, Node.trims children, attributes⟩ = _
          simp only [Expr.ofNode, partsEq]
          rfl
      | _ => rfl

theorem ofNodes_trims_expr : (nodes : List Node) →
    Expr.ofNodes (Node.trims nodes) = Expr.ofNodes nodes
  | [] => rfl
  | node :: rest => by
      rw [Node.trims, Expr.ofNodes, Expr.ofNodes, ofNode_trim_expr node, ofNodes_trims_expr rest]

end

theorem ofNodes_eq_map_stmt (nodes : List Node) : Stmt.ofNodes nodes = nodes.map Stmt.ofNode := by
  induction nodes with
  | nil => rfl
  | cons node rest ih => rw [Stmt.ofNodes, List.map_cons, ih]

theorem ofNodes_take_stmt (count : Nat) (nodes : List Node) :
    Stmt.ofNodes (nodes.take count) = (Stmt.ofNodes nodes).take count := by
  rw [ofNodes_eq_map_stmt, ofNodes_eq_map_stmt, List.map_take]

mutual

theorem ofNode_trim_stmt : (node : Node) → Stmt.ofNode node.trim = Stmt.ofNode node
  | ⟨kind, children, attributes⟩ => by
      have exprsEq := ofNodes_trims_expr children
      have stmtsEq := ofNodes_trims_stmt children
      have keptLength := length_trims children
      have exprsLength := length_ofNodes_expr children
      have stmtsLength := length_ofNodes_stmt children
      cases kind with
      | assignStmt =>
          change Stmt.ofNode ⟨.assignStmt, (Node.trims children).take 2, attributes⟩ = _
          simp only [Stmt.ofNode, ofNodes_take_expr, exprsEq,
            part_take keptLength exprsLength Nat.zero_lt_two,
            part_take keptLength exprsLength Nat.one_lt_two]
      | exprStmt =>
          change Stmt.ofNode ⟨.exprStmt, (Node.trims children).take 1, attributes⟩ = _
          simp only [Stmt.ofNode, ofNodes_take_expr, exprsEq,
            part_take keptLength exprsLength Nat.zero_lt_one]
      | returnStmt =>
          change Stmt.ofNode ⟨.returnStmt, (Node.trims children).take 1, attributes⟩ = _
          simp only [Stmt.ofNode, ofNodes_take_expr, exprsEq]
          cases children with
          | nil => rfl
          | cons value rest => rfl
      | ifElseStmt =>
          change Stmt.ofNode ⟨.ifElseStmt, (Node.trims children).take 3, attributes⟩ = _
          simp only [Stmt.ofNode, ofNodes_take_expr, ofNodes_take_stmt, exprsEq, stmtsEq,
            part_take keptLength exprsLength (Nat.zero_lt_succ 2),
            part_take keptLength stmtsLength (Nat.one_lt_succ_succ 1),
            List.getElem?_take_of_lt (Nat.lt_succ_self 2)]
      | whileStmt =>
          change Stmt.ofNode ⟨.whileStmt, (Node.trims children).take 2, attributes⟩ = _
          simp only [Stmt.ofNode, ofNodes_take_expr, ofNodes_take_stmt, exprsEq, stmtsEq,
            part_take keptLength exprsLength Nat.zero_lt_two,
            part_take keptLength stmtsLength Nat.one_lt_two]
      | scopeStmt =>
          change Stmt.ofNode ⟨.scopeStmt, Node.trims children, attributes⟩ = _
          simp only [Stmt.ofNode, stmtsEq]
      | _ => rfl

theorem ofNodes_trims_stmt : (nodes : List Node) →
    Stmt.ofNodes (Node.trims nodes) = Stmt.ofNodes nodes
  | [] => rfl
  | node :: rest => by
      rw [Node.trims, Stmt.ofNodes, Stmt.ofNodes, ofNode_trim_stmt node, ofNodes_trims_stmt rest]

end

theorem ofNode_trim_symbol {node : Node} (isSymbol : node.kind = .varDecl ∨ node.kind = .param) :
    Symbol.ofNode node.trim = Symbol.ofNode node := by
  obtain ⟨kind, children, attributes⟩ := node
  have keptLength := length_trims children
  have typesLength : (children.map Ty.ofNode).length = children.length := List.length_map _
  have typesEq : (Node.trims children).map Ty.ofNode = children.map Ty.ofNode := by
    rw [trims_eq_map, List.map_map]
    exact List.map_congr_left fun child _ => ofNode_trim_type child
  have trimEq : Node.trim ⟨kind, children, attributes⟩ =
      ⟨kind, (Node.trims children).take 1, attributes⟩ := by
    rcases isSymbol with rfl | rfl <;> rfl
  rw [trimEq]
  simp only [Symbol.ofNode, List.map_take, typesEq,
    part_take keptLength typesLength Nat.zero_lt_one]
  rfl

theorem takeWhile_trims (kind : Kind) (nodes : List Node) :
    (nodes.map Node.trim).takeWhile (fun node => node.kind = kind) =
      (nodes.takeWhile fun node => node.kind = kind).map Node.trim := by
  simp only [List.takeWhile_map, Function.comp_def, kind_trim]

theorem dropWhile_trims (kind : Kind) (nodes : List Node) :
    (nodes.map Node.trim).dropWhile (fun node => node.kind = kind) =
      (nodes.dropWhile fun node => node.kind = kind).map Node.trim := by
  simp only [List.dropWhile_map, Function.comp_def, kind_trim]

theorem symbols_trims {kind : Kind} (isSymbol : kind = .varDecl ∨ kind = .param)
    (nodes : List Node) :
    (((nodes.map Node.trim).takeWhile fun node => node.kind = kind).map Symbol.ofNode) =
      (nodes.takeWhile fun node => node.kind = kind).map Symbol.ofNode := by
  rw [takeWhile_trims, List.map_map]
  apply List.map_congr_left
  intro node isThere
  have kindEq : node.kind = kind := by simpa using List.mem_takeWhile_imp isThere
  exact ofNode_trim_symbol (kindEq ▸ isSymbol)

theorem returnTyOf_trims (children : List Node) :
    returnTyOf (children.map Node.trim) =
      (returnTyOf children).map fun (ty, others) => (ty, others.map Node.trim) := by
  cases children with
  | nil => rfl
  | cons first rest =>
      simp only [returnTyOf, List.map_cons, kind_trim, ofNode_trim_type]
      split
      · cases Ty.ofNode first with
        | error _ => rfl
        | ok ty => rfl
      · rfl

theorem ofNode_trim_method {node : Node} (isMethod : node.kind = .methodDecl) :
    MethodDecl.ofNode node.trim = MethodDecl.ofNode node := by
  obtain ⟨kind, children, attributes⟩ := node
  cases isMethod
  change MethodDecl.ofNode ⟨.methodDecl, Node.trims children, attributes⟩ = _
  rw [trims_eq_map]
  have bodyEq (nodes : List Node) : Stmt.ofNodes (nodes.map Node.trim) = Stmt.ofNodes nodes := by
    rw [← trims_eq_map, ofNodes_trims_stmt]
  unfold MethodDecl.ofNode
  simp only [returnTyOf_trims]
  cases returnTyOf children with
  | error fault => rfl
  | ok split =>
      obtain ⟨returnTy, others⟩ := split
      simp only [Except.map, bind, Except.bind, List.span_eq_takeWhile_dropWhile,
        symbols_trims (.inr rfl), dropWhile_trims, symbols_trims (.inl rfl), bodyEq]
      rfl

theorem ofNode_trim_member (node : Node) : Member.ofNode node.trim = Member.ofNode node := by
  unfold Member.ofNode
  rw [kind_trim]
  split
  · rw [ofNode_trim_symbol (.inl ‹_›)]
  · rw [ofNode_trim_method ‹_›]
  · rfl

theorem ofNode_trim_class {node : Node} (isClass : node.kind = .classDecl) :
    ClassDecl.ofNode node.trim = ClassDecl.ofNode node := by
  obtain ⟨kind, children, attributes⟩ := node
  cases isClass
  have membersEq : (children.map Node.trim).map Member.ofNode = children.map Member.ofNode := by
    rw [List.map_map]
    exact List.map_congr_left fun child _ => ofNode_trim_member child
  change ClassDecl.ofNode ⟨.classDecl, Node.trims children, attributes⟩ = _
  rw [trims_eq_map]
  simp only [ClassDecl.ofNode, membersEq]
  rfl

theorem declarations_trims (imports : List String) (decl : Option ClassDecl) (nodes : List Node) :
    Program.declarations imports decl (Node.trims nodes) =
      Program.declarations imports decl nodes := by
  induction nodes generalizing imports decl with
  | nil => rfl
  | cons node rest ih =>
      rw [Node.trims]
      unfold Program.declarations
      rw [kind_trim]
      split
      · simp only [attr_trim, ih]
      · rw [ofNode_trim_class ‹_›]
        simp only [ih]
      · rfl

/-- A tree is converted like the tree without its surplus children. -/
theorem ofNode_trim_program (tree : Node) : Program.ofNode tree.trim = Program.ofNode tree := by
  obtain ⟨kind, children, attributes⟩ := tree
  cases kind with
  | program =>
      change Program.ofNode ⟨.program, Node.trims children, attributes⟩ = _
      simp only [Program.ofNode, declarations_trims]
  | _ => rfl

/-! ## Nothing is left over -/

/-- The node has no more children than its form. -/
def Node.HasNoSurplus (node : Node) : Prop := ∀ most ∈ node.range.most, node.children.length ≤ most

theorem nodesIn_eq_flatMap (nodes : List Node) : Node.nodesIn nodes = nodes.flatMap Node.nodes := by
  induction nodes with
  | nil => rfl
  | cons node rest ih => rw [Node.nodesIn, List.flatMap_cons, ih]

theorem keep_subset {α : Type} (range : ChildRange) (children : List α) :
    range.keep children ⊆ children := by
  unfold ChildRange.keep
  split
  · exact List.take_subset _ _
  · exact List.Subset.refl _

theorem startsWithType_trims (children : List Node) (count : Nat) :
    Node.startsWithType ((Node.trims children).take (count + 1)) =
      Node.startsWithType children := by
  cases children with
  | nil => rfl
  | cons first rest =>
      change first.trim.kind.isType = first.kind.isType
      rw [kind_trim]

theorem range_trim (node : Node) : node.trim.range = node.range := by
  obtain ⟨kind, children, attributes⟩ := node
  cases kind with
  | newArrayExpr =>
      have keptType (count : Nat) := startsWithType_trims children count
      rw [Node.trim]
      unfold Node.range
      by_cases isType : Node.startsWithType children = true
      · simp only [if_pos isType, ChildRange.keep, ChildRange.exactly, keptType]
      · simp only [if_neg isType, ChildRange.keep, ChildRange.exactly, keptType]
  | _ => rfl

theorem hasNoSurplus_trim (node : Node) : node.trim.HasNoSurplus := by
  intro most isMost
  rw [range_trim, Option.mem_def] at isMost
  obtain ⟨kind, children, attributes⟩ := node
  simp only [Node.trim, ChildRange.keep, isMost]
  exact List.length_take_le _ _

mutual

theorem hasNoSurplus_of_mem_nodes_trim : (tree : Node) → ∀ node ∈ tree.trim.nodes, node.HasNoSurplus
  | ⟨kind, children, attributes⟩ => by
      have below := hasNoSurplus_of_mem_nodesIn_trims children
      rw [nodesIn_eq_flatMap] at below
      rw [Node.trim, Node.nodes, List.forall_mem_cons, nodesIn_eq_flatMap]
      constructor
      · exact hasNoSurplus_trim ⟨kind, children, attributes⟩
      · intro node isThere
        obtain ⟨child, isKept, isThere⟩ := List.mem_flatMap.mp isThere
        exact below node (List.mem_flatMap.mpr ⟨child, keep_subset _ _ isKept, isThere⟩)

theorem hasNoSurplus_of_mem_nodesIn_trims : (nodes : List Node) →
    ∀ node ∈ Node.nodesIn (Node.trims nodes), node.HasNoSurplus
  | [] => fun _ isThere => absurd isThere List.not_mem_nil
  | node :: rest => by
      rw [Node.trims, Node.nodesIn, List.forall_mem_append]
      exact ⟨hasNoSurplus_of_mem_nodes_trim node, hasNoSurplus_of_mem_nodesIn_trims rest⟩

end

/-! ## Child counts of converted trees -/

/-- A tree is refused exactly with the error of the first check that fails, which names
the kind of the node. In a converted tree no node that is looked at lacks a child. A
surplus of children is not looked at: the tree without it has the same result, and all
its nodes keep to the counts of their forms. -/
theorem ofNode_counts_children (tree : Node) :
    (∀ error, Program.ofNode tree = .error error ↔
      ∃ check, firstFailed tree.checks = some check ∧
        error = .malformed check.node.kind check.fault) ∧
    (∀ program, Program.ofNode tree = .ok program → ∀ check ∈ tree.checks, check.node.HasFewest) ∧
    Program.ofNode tree.trim = Program.ofNode tree ∧
    ∀ node ∈ tree.trim.nodes, node.HasNoSurplus := by
  have decides := decides_program tree
  refine ⟨fun error => decides.eq_error_iff, ?_, ofNode_trim_program tree,
    hasNoSurplus_of_mem_nodes_trim tree⟩
  intro program converted
  rw [converted] at decides
  exact filled_program tree decides.passes

/-- A statement with two expressions, where its form has one. -/
def surplusStmt : Node :=
  ⟨.exprStmt, [⟨.varRefExpr, [], [("name", .string "a")]⟩,
    ⟨.varRefExpr, [], [("name", .string "b")]⟩], []⟩

/-- A class with a method that has only this statement. -/
def surplusTree : Node :=
  ⟨.program, [⟨.classDecl, [⟨.methodDecl, [surplusStmt], [("name", .string "run")]⟩],
    [("name", .string "Ledger")]⟩], []⟩

/-- The second expression is dropped. -/
theorem ofNode_counts_children_surplusTree :
    Program.ofNode surplusTree = .ok ⟨[], ⟨"Ledger", none, [],
      [⟨"run", Ty.void, [], [], [.expr (.var "a")], false, true⟩]⟩⟩ ∧
    (∀ check ∈ surplusTree.checks, check.node.HasFewest) ∧
    Program.ofNode surplusTree.trim = Program.ofNode surplusTree := by
  have converted : Program.ofNode surplusTree = .ok ⟨[], ⟨"Ledger", none, [],
    [⟨"run", Ty.void, [], [], [.expr (.var "a")], false, true⟩]⟩⟩ := rfl
  obtain ⟨_, hasFewest, sameResult, _⟩ := ofNode_counts_children surplusTree
  exact ⟨converted, hasFewest _ converted, sameResult⟩

/-- A statement of a converted tree can have more children than its form. -/
theorem not_hasNoSurplus_surplusStmt :
    (∃ program, Program.ofNode surplusTree = .ok program) ∧
    (∃ check ∈ surplusTree.checks, check.fault = .notStatement ∧ check.node = surplusStmt) ∧
    ¬ surplusStmt.HasNoSurplus := by
  refine ⟨⟨_, rfl⟩, ⟨⟨surplusStmt, .notStatement, true⟩, ?_, rfl, rfl⟩, ?_⟩
  · exact .tail _ (.tail _ (.tail _ (.head _)))
  · intro noSurplus
    exact absurd (noSurplus 1 rfl) (by decide)

end ClassCompiler
