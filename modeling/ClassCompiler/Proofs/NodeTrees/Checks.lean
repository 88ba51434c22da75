import ClassCompiler.Proofs.Effects
import ClassCompiler.Program.OfNode
import Mathlib.Data.List.Forall2

/-!
# What conversion checks

Conversion of a tree makes a list of checks in a fixed order: first the kind and the
attributes of a node, then whether a child is there, which is followed by all checks of
that child before the next child is looked for. It fails with the error of the first
check that fails, which names the kind of the node, and succeeds if all pass. In a tree
that is converted every node has the children that its form needs. Children beyond those
make no difference.
-/

namespace ClassCompiler

open Effects

/-! ## Checks -/

/-- A check of a node: the fault that it reports, and whether the node passes. -/
structure Check where
  node : Node
  fault : NodeFault
  passes : Bool

/-- The error of a failed check names the kind of the node. -/
def Check.error (check : Check) : CompileError := .malformed check.node.kind check.fault

/-- The first check that fails. -/
def firstFailed (checks : List Check) : Option Check := checks.find? fun check => !check.passes

namespace Node

/-- The text of an attribute, if it is there. -/
def textOf (node : Node) (key : String) : String := (node.get? key).getD ""

/-- An attribute must be there. -/
def attributeCheck (node : Node) (key : String) : Check :=
  ⟨node, .missingAttribute key, (node.get? key).isSome⟩

/-- A child must be there. -/
def childCheck (node : Node) (index : Nat) : Check :=
  ⟨node, .missingChild index node.children.length, index < node.children.length⟩

/-- A child must be there and pass its own checks. -/
def childChecks (node : Node) (parts : List (List Check)) (index : Nat) : List Check :=
  node.childCheck index :: parts.getD index []

/-- The checks of a node that denotes a type. -/
def typeChecks : Node → List Check
  | ⟨kind, [], attributes⟩ =>
      let node : Node := ⟨kind, [], attributes⟩
      ⟨node, .notType, kind.isType⟩ ::
        [if kind = .type then node.attributeCheck "name" else node.childCheck 0]
  | ⟨kind, inner :: rest, attributes⟩ =>
      let node : Node := ⟨kind, inner :: rest, attributes⟩
      ⟨node, .notType, kind.isType⟩ ::
        if kind = .type then [node.attributeCheck "name"]
        else node.childCheck 0 :: inner.typeChecks

/-- The checks of a declared name. -/
def symbolChecks (node : Node) : List Check :=
  node.attributeCheck "name" :: node.childChecks (node.children.map typeChecks) 0

end Node

/-- Whether a node of the kind denotes an expression. -/
def Kind.isExpr : Kind → Bool
  | .integerLiteral | .booleanLiteral | .stringLiteral | .varRefExpr | .thisExpr | .binaryExpr
  | .unaryExpr | .parenExpr | .arrayAccessExpr | .lengthExpr | .newArrayExpr | .arrayInitExpr
  | .newClassExpr | .methodCallExpr => true
  | _ => false

/-- Whether a node of the kind denotes a statement. -/
def Kind.isStmt : Kind → Bool
  | .assignStmt | .exprStmt | .returnStmt | .ifElseStmt | .whileStmt | .scopeStmt => true
  | _ => false

namespace Node

/-- The checks of a new array after the check of its kind: an element type may stand
before the size. -/
def newArrayChecks (node : Node) (parts : List (List Check)) : List Check :=
  node.childCheck 0 ::
    match node.children with
    | [] => []
    | first :: _ =>
        if first.kind.isType then first.typeChecks ++ node.childChecks parts 1
        else parts.getD 0 []

/-- The checks of an expression after the check of its kind, from those of its
children. -/
def formChecks (node : Node) (parts : List (List Check)) : List Check :=
  match node.kind with
  | .integerLiteral =>
      [node.attributeCheck "value", ⟨node, .invalidInteger (node.textOf "value"),
        (Decimal.int32OfText? (node.textOf "value")).isSome⟩]
  | .booleanLiteral =>
      [node.attributeCheck "value", ⟨node, .invalidBoolean (node.textOf "value"),
        node.textOf "value" = "true" ∨ node.textOf "value" = "false"⟩]
  | .stringLiteral => [node.attributeCheck "value"]
  | .varRefExpr | .newClassExpr => [node.attributeCheck "name"]
  | .binaryExpr =>
      [node.attributeCheck "op", ⟨node, .unknownOperator (node.textOf "op"),
        (BinaryOp.ofSymbol? (node.textOf "op")).isSome⟩] ++
        (node.childChecks parts 0 ++ node.childChecks parts 1)
  | .unaryExpr =>
      [node.attributeCheck "op", ⟨node, .unknownOperator (node.textOf "op"),
        node.textOf "op" = "!"⟩] ++ node.childChecks parts 0
  | .parenExpr | .lengthExpr => node.childChecks parts 0
  | .arrayAccessExpr => node.childChecks parts 0 ++ node.childChecks parts 1
  | .newArrayExpr => node.newArrayChecks parts
  | .arrayInitExpr => parts.flatten
  | .methodCallExpr =>
      [node.attributeCheck "name", ⟨node, .missingReceiver,
        node.flag "hasReceiver" true → node.children ≠ []⟩] ++ parts.flatten
  | _ => []

mutual

/-- The checks of an expression. -/
def exprChecks : Node → List Check
  | ⟨kind, children, attributes⟩ =>
      let node : Node := ⟨kind, children, attributes⟩
      ⟨node, .notExpression, kind.isExpr⟩ :: node.formChecks (exprChecksIn children)

/-- The checks of each of several expressions. -/
def exprChecksIn : List Node → List (List Check)
  | [] => []
  | node :: rest => node.exprChecks :: exprChecksIn rest

end

/-- The checks of a statement after the check of its kind, from those of its children as
expressions and as statements. -/
def stepChecks (node : Node) (exprs stmts : List (List Check)) : List Check :=
  match node.kind with
  | .assignStmt => node.childChecks exprs 0 ++ node.childChecks exprs 1
  | .exprStmt => node.childChecks exprs 0
  | .returnStmt => exprs.getD 0 []
  | .ifElseStmt => node.childChecks exprs 0 ++ (node.childChecks stmts 1 ++ stmts.getD 2 [])
  | .whileStmt => node.childChecks exprs 0 ++ node.childChecks stmts 1
  | .scopeStmt => stmts.flatten
  | _ => []

mutual

/-- The checks of a statement. -/
def stmtChecks : Node → List Check
  | ⟨kind, children, attributes⟩ =>
      let node : Node := ⟨kind, children, attributes⟩
      ⟨node, .notStatement, kind.isStmt⟩ ::
        node.stepChecks (exprChecksIn children) (stmtChecksIn children)

/-- The checks of each of several statements. -/
def stmtChecksIn : List Node → List (List Check)
  | [] => []
  | node :: rest => node.stmtChecks :: stmtChecksIn rest

end

/-- The return type of a method, if its children start with one, and the other children. -/
def splitReturn : List Node → List Node × List Node
  | [] => ([], [])
  | first :: rest => if first.kind.isType then ([first], rest) else ([], first :: rest)

/-- The checks of a method: its result type, its parameters, its locals and its body. -/
def methodChecks (node : Node) : List Check :=
  let (returnNodes, children) := splitReturn node.children
  let (paramNodes, children) := children.span fun child => child.kind = .param
  let (localNodes, bodyNodes) := children.span fun child => child.kind = .varDecl
  node.attributeCheck "name" :: (returnNodes.flatMap typeChecks ++
    (paramNodes.flatMap symbolChecks ++ (localNodes.flatMap symbolChecks ++
      (stmtChecksIn bodyNodes).flatten)))

/-- The checks of what stands in a class. -/
def memberChecks (node : Node) : List Check :=
  match node.kind with
  | .varDecl => node.symbolChecks
  | .methodDecl => node.methodChecks
  | _ => [⟨node, .unexpectedInClass, false⟩]

/-- The checks of a class. -/
def classChecks (node : Node) : List Check :=
  node.attributeCheck "name" :: node.children.flatMap memberChecks

/-- The checks of what stands at the top level of a program, before and after a class has
been found. -/
def declarationChecks (found : Bool) : List Node → List Check
  | [] => []
  | node :: rest =>
      match node.kind, found with
      | .importStmt, _ => node.attributeCheck "name" :: declarationChecks found rest
      | .classDecl, false => node.classChecks ++ declarationChecks true rest
      | _, _ => [⟨node, .unexpectedInProgram, false⟩]

/-- The checks of a program. -/
def checks (node : Node) : List Check :=
  ⟨node, .notProgram, node.kind = .program⟩ ::
    (declarationChecks false node.children ++
      [⟨node, .noClass, node.children.any fun child => child.kind = .classDecl⟩])

end Node

/-! ## Conversion fails with the first check that fails -/

/-- A result is the error of the first check that fails, and there is a value if none
does. -/
def Decides {α : Type} (checks : List Check) (result : Except CompileError α) : Prop :=
  match firstFailed checks with
  | some check => result = .error check.error
  | none => ∃ value, result = .ok value

section

variable {α β : Type} {checks earlier later : List Check} {result : Except CompileError α}

theorem decides_ok (value : α) : Decides [] (.ok value : Except CompileError α) := ⟨value, rfl⟩

theorem decides_failed (node : Node) (fault : NodeFault) (later : List Check) :
    Decides (⟨node, fault, false⟩ :: later)
      (.error (.malformed node.kind fault) : Except CompileError α) := rfl

theorem Decides.passed {node : Node} {fault : NodeFault} {passes : Bool}
    (isPassed : passes = true) (decides : Decides checks result) :
    Decides (⟨node, fault, passes⟩ :: checks) result := by
  subst isPassed
  exact decides

/-- Checks of a first part come before those of what follows it. -/
theorem Decides.bind {next : α → Except CompileError β} (first : Decides earlier result)
    (follows : ∀ value, result = .ok value → Decides later (next value)) :
    Decides (earlier ++ later) (result >>= next) := by
  unfold Decides firstFailed at first ⊢
  rw [List.find?_append]
  cases failed : earlier.find? (fun check => !check.passes) with
  | some check =>
      rw [failed] at first
      subst first
      rfl
  | none =>
      rw [failed] at first
      obtain ⟨value, rfl⟩ := first
      exact follows value rfl

theorem Decides.followed {next : α → Except CompileError β} (first : Decides checks result)
    (follows : ∀ value, result = .ok value → Decides [] (next value)) :
    Decides checks (result >>= next) := by
  rw [← List.append_nil checks]
  exact first.bind follows

theorem Decides.map {next : α → β} (first : Decides checks result) :
    Decides checks (result >>= fun value => pure (next value)) :=
  first.followed fun _ _ => decides_ok _

theorem Decides.eq_error_iff {error : CompileError} (decides : Decides checks result) :
    result = .error error ↔ ∃ check, firstFailed checks = some check ∧ error = check.error := by
  unfold Decides at decides
  cases failed : firstFailed checks with
  | none =>
      rw [failed] at decides
      obtain ⟨value, rfl⟩ := decides
      simp
  | some check =>
      rw [failed] at decides
      subst decides
      simp [eq_comm]

theorem Decides.passes {value : α} (decides : Decides checks (.ok value)) :
    ∀ check ∈ checks, check.passes = true := by
  unfold Decides at decides
  cases failed : firstFailed checks with
  | none => simpa [firstFailed] using failed
  | some check =>
      rw [failed] at decides
      cases decides

/-- The checks of several parts follow one another. -/
theorem decides_firstFault {parts : List (List Check)} {results : List (Except CompileError α)}
    (each : List.Forall₂ Decides parts results) : Decides parts.flatten (firstFault results) := by
  induction each with
  | nil => exact decides_ok []
  | cons first _ ih =>
      rw [List.flatten_cons, firstFault]
      exact first.bind fun _ _ => ih.map

theorem decides_attr (node : Node) (key : String) :
    Decides [node.attributeCheck key] (node.attr key) := by
  unfold Node.attributeCheck Node.attr
  cases node.get? key with
  | none => exact decides_failed node _ []
  | some text => exact (decides_ok text).passed rfl

theorem textOf_of_attr {node : Node} {key text : String} (found : node.attr key = .ok text) :
    node.textOf key = text := by
  unfold Node.attr at found
  unfold Node.textOf
  cases given : node.get? key with
  | none =>
      rw [given] at found
      cases found
  | some other =>
      rw [given] at found
      cases found
      rfl

theorem decides_of_getElem?_eq_some {parts : List (List Check)}
    {results : List (Except CompileError α)} (each : List.Forall₂ Decides parts results)
    {index : Nat} (found : results[index]? = some result) :
    Decides (parts.getD index []) result := by
  obtain ⟨inResults, rfl⟩ := List.getElem?_eq_some_iff.mp found
  have inParts : index < parts.length := each.length_eq ▸ inResults
  rw [List.getD_eq_getElem?_getD, List.getElem?_eq_getElem inParts, Option.getD_some]
  exact (List.forall₂_iff_get.mp each).2 index inParts inResults

theorem getD_of_getElem?_eq_none {parts : List (List Check)}
    {results : List (Except CompileError α)} (each : List.Forall₂ Decides parts results)
    {index : Nat} (missing : results[index]? = none) : parts.getD index [] = [] := by
  rw [List.getElem?_eq_none_iff, ← each.length_eq] at missing
  rw [List.getD_eq_getElem?_getD, List.getElem?_eq_none missing, Option.getD_none]

/-- A child is looked for, and then converted. -/
theorem decides_part (node : Node) {parts : List (List Check)}
    {results : List (Except CompileError α)} (each : List.Forall₂ Decides parts results)
    (lengthEq : results.length = node.children.length) (index : Nat) :
    Decides (node.childChecks parts index) (node.part results index) := by
  unfold Node.childChecks Node.childCheck Node.part
  cases found : results[index]? with
  | none =>
      have missing : decide (index < node.children.length) = false := by
        rw [← lengthEq]
        exact decide_eq_false (Nat.not_lt_of_le (List.getElem?_eq_none_iff.mp found))
      rw [missing]
      exact decides_failed node _ _
  | some result =>
      have isThere : decide (index < node.children.length) = true := by
        obtain ⟨isThere, _⟩ := List.getElem?_eq_some_iff.mp found
        rw [← lengthEq]
        exact decide_eq_true isThere
      exact (decides_of_getElem?_eq_some each found).passed isThere

end

theorem decides_type : (node : Node) → Decides node.typeChecks (Ty.ofNode node)
  | ⟨kind, [], attributes⟩ => by
      cases kind with
      | type => exact (decides_attr _ "name").map.passed rfl
      | arrayType | vararg => exact (decides_failed _ _ _).passed rfl
      | _ => exact decides_failed _ _ _
  | ⟨kind, inner :: rest, attributes⟩ => by
      cases kind with
      | type => exact (decides_attr _ "name").map.passed rfl
      | arrayType | vararg => exact ((decides_type inner).map.passed rfl).passed rfl
      | _ => exact decides_failed _ _ _

theorem forall₂_decides_map {α : Type} {checksOf : Node → List Check}
    {convert : Node → Except CompileError α} (each : ∀ node, Decides (checksOf node) (convert node))
    (nodes : List Node) : List.Forall₂ Decides (nodes.map checksOf) (nodes.map convert) := by
  rw [List.forall₂_map_left_iff, List.forall₂_map_right_iff]
  exact List.forall₂_same.mpr fun node _ => each node

theorem decides_symbol (node : Node) : Decides node.symbolChecks (Symbol.ofNode node) := by
  apply (decides_attr node "name").bind
  intro name _
  exact (decides_part node (forall₂_decides_map decides_type _) (List.length_map _) 0).map

/-! ### Expressions -/

theorem length_ofNodes_expr (nodes : List Node) : (Expr.ofNodes nodes).length = nodes.length := by
  induction nodes with
  | nil => rfl
  | cons node rest ih =>
      rw [Expr.ofNodes, List.length_cons, List.length_cons, ih]

section

variable (node : Node)

theorem decides_intLiteral :
    Decides [node.attributeCheck "value", ⟨node, .invalidInteger (node.textOf "value"),
      (Decimal.int32OfText? (node.textOf "value")).isSome⟩] (intLiteral node) := by
  apply (decides_attr node "value").bind
  intro text found
  rw [textOf_of_attr found]
  cases Decimal.int32OfText? text with
  | none => exact decides_failed node _ _
  | some value => exact (decides_ok _).passed rfl

theorem decides_boolLiteral :
    Decides [node.attributeCheck "value", ⟨node, .invalidBoolean (node.textOf "value"),
      node.textOf "value" = "true" ∨ node.textOf "value" = "false"⟩] (boolLiteral node) := by
  apply (decides_attr node "value").bind
  intro text found
  rw [textOf_of_attr found]
  by_cases isTrue : text = "true"
  · simp only [if_pos isTrue]
    exact (decides_ok _).passed (by simp [isTrue])
  · simp only [if_neg isTrue]
    by_cases isFalse : text = "false"
    · rw [if_pos isFalse]
      exact (decides_ok _).passed (by simp [isFalse])
    · rw [if_neg isFalse, decide_eq_false (by simp [isTrue, isFalse])]
      exact decides_failed node _ _

variable {node} {parts : List (List Check)} {results : List (Except CompileError Expr)}
  (each : List.Forall₂ Decides parts results) (lengthEq : results.length = node.children.length)

include each lengthEq

theorem decides_binaryExpr :
    Decides ([node.attributeCheck "op", ⟨node, .unknownOperator (node.textOf "op"),
        (BinaryOp.ofSymbol? (node.textOf "op")).isSome⟩] ++
        (node.childChecks parts 0 ++ node.childChecks parts 1)) (binaryExpr node results) := by
  apply (decides_attr node "op").bind
  intro symbol found
  rw [textOf_of_attr found]
  cases BinaryOp.ofSymbol? symbol with
  | none => exact decides_failed node _ _
  | some op =>
      apply Decides.passed rfl
      apply (decides_part node each lengthEq 0).bind
      intro left _
      exact (decides_part node each lengthEq 1).map

theorem decides_unaryExpr :
    Decides ([node.attributeCheck "op", ⟨node, .unknownOperator (node.textOf "op"),
        node.textOf "op" = "!"⟩] ++ node.childChecks parts 0) (unaryExpr node results) := by
  apply (decides_attr node "op").bind
  intro symbol found
  rw [textOf_of_attr found]
  by_cases isNot : symbol = "!"
  · simp only [if_pos isNot]
    exact (decides_part node each lengthEq 0).map.passed (decide_eq_true isNot)
  · simp only [if_neg isNot, decide_eq_false isNot]
    exact decides_failed node _ _

theorem decides_newArrayExpr : Decides (node.newArrayChecks parts) (newArrayExpr node results) := by
  have decidesFirst := decides_part node each lengthEq 0
  have decidesSecond := decides_part node each lengthEq 1
  unfold Node.newArrayChecks newArrayExpr
  cases childrenEq : node.children with
  | nil =>
      have missing : node.childCheck 0 = ⟨node, .missingChild 0 node.children.length, false⟩ := by
        simp [Node.childCheck, childrenEq]
      rw [missing]
      exact decides_failed node _ _
  | cons first rest =>
      have isThere : (node.childCheck 0).passes = true := by simp [Node.childCheck, childrenEq]
      by_cases isType : first.kind.isType = true
      · simp only [if_pos isType]
        apply Decides.passed isThere
        apply (decides_type first).bind
        intro ty _
        exact decidesSecond.map
      · simp only [if_neg isType]
        exact decidesFirst.map

theorem decides_callExpr :
    Decides ([node.attributeCheck "name", ⟨node, .missingReceiver,
        node.flag "hasReceiver" true → node.children ≠ []⟩] ++ parts.flatten)
      (callExpr node results) := by
  apply (decides_attr node "name").bind
  intro name _
  by_cases hasReceiver : node.flag "hasReceiver" true = true
  · simp only [if_pos hasReceiver]
    cases each with
    | nil =>
        have noChildren : node.children = [] := List.length_eq_zero_iff.mp lengthEq.symm
        have fails : decide (node.flag "hasReceiver" true = true → node.children ≠ []) = false := by
          simp [hasReceiver, noChildren]
        rw [fails]
        exact decides_failed node _ _
    | cons first others =>
        have passes : decide (node.flag "hasReceiver" true = true → node.children ≠ []) = true := by
          have someChildren : node.children ≠ [] := by
            intro noChildren
            rw [noChildren] at lengthEq
            cases lengthEq
          simp [someChildren]
        apply Decides.passed passes
        apply first.bind
        intro receiver _
        exact (decides_firstFault others).map
  · simp only [if_neg hasReceiver]
    exact (decides_firstFault each).map.passed (by simp [hasReceiver])

end

mutual

theorem decides_expr : (node : Node) → Decides node.exprChecks (Expr.ofNode node)
  | ⟨kind, children, attributes⟩ => by
      have each := decides_exprs children
      have lengthEq := length_ofNodes_expr children
      rw [Node.exprChecks]
      cases kind with
      | integerLiteral => exact (decides_intLiteral _).passed rfl
      | booleanLiteral => exact (decides_boolLiteral _).passed rfl
      | stringLiteral => exact (decides_attr _ "value").map.passed rfl
      | varRefExpr => exact (decides_attr _ "name").map.passed rfl
      | thisExpr => exact (decides_ok _).passed rfl
      | binaryExpr => exact (decides_binaryExpr each lengthEq).passed rfl
      | unaryExpr => exact (decides_unaryExpr each lengthEq).passed rfl
      | parenExpr => exact (decides_part _ each lengthEq 0).map.passed rfl
      | arrayAccessExpr =>
          apply Decides.passed rfl
          apply (decides_part _ each lengthEq 0).bind
          intro array _
          exact (decides_part _ each lengthEq 1).map
      | lengthExpr => exact (decides_part _ each lengthEq 0).map.passed rfl
      | newArrayExpr => exact (decides_newArrayExpr each lengthEq).passed rfl
      | arrayInitExpr => exact (decides_firstFault each).map.passed rfl
      | newClassExpr => exact (decides_attr _ "name").map.passed rfl
      | methodCallExpr => exact (decides_callExpr each lengthEq).passed rfl
      | _ => exact decides_failed _ _ _

theorem decides_exprs : (nodes : List Node) →
    List.Forall₂ Decides (Node.exprChecksIn nodes) (Expr.ofNodes nodes)
  | [] => .nil
  | node :: rest => .cons (decides_expr node) (decides_exprs rest)

end

/-! ### Statements -/

theorem length_ofNodes_stmt (nodes : List Node) : (Stmt.ofNodes nodes).length = nodes.length := by
  induction nodes with
  | nil => rfl
  | cons node rest ih =>
      rw [Stmt.ofNodes, List.length_cons, List.length_cons, ih]

mutual

theorem decides_stmt : (node : Node) → Decides node.stmtChecks (Stmt.ofNode node)
  | ⟨kind, children, attributes⟩ => by
      have exprs := decides_exprs children
      have exprsLength := length_ofNodes_expr children
      have stmts := decides_stmts children
      have stmtsLength := length_ofNodes_stmt children
      rw [Node.stmtChecks]
      cases kind with
      | assignStmt =>
          apply Decides.passed rfl
          apply (decides_part _ exprs exprsLength 0).bind
          intro target _
          exact (decides_part _ exprs exprsLength 1).map
      | exprStmt => exact (decides_part _ exprs exprsLength 0).map.passed rfl
      | returnStmt =>
          cases children with
          | nil => exact (decides_ok _).passed rfl
          | cons value _ => exact (decides_expr value).map.passed rfl
      | ifElseStmt =>
          apply Decides.passed rfl
          apply (decides_part _ exprs exprsLength 0).bind
          intro cond _
          apply (decides_part _ stmts stmtsLength 1).bind
          intro thenBranch _
          cases third : (Stmt.ofNodes children)[2]? with
          | none =>
              rw [getD_of_getElem?_eq_none stmts third]
              exact decides_ok _
          | some elseBranch => exact (decides_of_getElem?_eq_some stmts third).map
      | whileStmt =>
          apply Decides.passed rfl
          apply (decides_part _ exprs exprsLength 0).bind
          intro cond _
          exact (decides_part _ stmts stmtsLength 1).map
      | scopeStmt => exact (decides_firstFault stmts).map.passed rfl
      | _ => exact decides_failed _ _ _

theorem decides_stmts : (nodes : List Node) →
    List.Forall₂ Decides (Node.stmtChecksIn nodes) (Stmt.ofNodes nodes)
  | [] => .nil
  | node :: rest => .cons (decides_stmt node) (decides_stmts rest)

end

/-! ### Declarations -/

theorem decides_returnTy (children : List Node) :
    Decides ((Node.splitReturn children).1.flatMap Node.typeChecks) (returnTyOf children) := by
  unfold Node.splitReturn returnTyOf
  cases children with
  | nil => exact decides_ok _
  | cons first rest =>
      by_cases isType : first.kind.isType = true
      · simp only [if_pos isType, List.flatMap_singleton]
        exact (decides_type first).map
      · simp only [if_neg isType]
        exact decides_ok _

theorem snd_of_returnTyOf {children others : List Node} {ty : Ty}
    (found : returnTyOf children = .ok (ty, others)) : others = (Node.splitReturn children).2 := by
  unfold returnTyOf at found
  unfold Node.splitReturn
  cases children with
  | nil =>
      cases found
      rfl
  | cons first rest =>
      by_cases isType : first.kind.isType = true
      · simp only [if_pos isType] at found ⊢
        obtain ⟨_, _, same⟩ := except_bind_eq_ok_iff.mp found
        cases same
        rfl
      · simp only [if_neg isType] at found ⊢
        cases found
        rfl

theorem decides_symbols (nodes : List Node) :
    Decides (nodes.flatMap Node.symbolChecks) (firstFault (nodes.map Symbol.ofNode)) :=
  decides_firstFault (forall₂_decides_map decides_symbol nodes)

theorem decides_method (node : Node) : Decides node.methodChecks (MethodDecl.ofNode node) := by
  unfold Node.methodChecks MethodDecl.ofNode
  apply (decides_attr node "name").bind
  intro name _
  apply (decides_returnTy node.children).bind
  rintro ⟨returnTy, children⟩ found
  rw [snd_of_returnTyOf found]
  apply (decides_symbols _).bind
  intro params _
  apply (decides_symbols _).bind
  intro locals _
  exact (decides_firstFault (decides_stmts _)).map

theorem decides_member (node : Node) : Decides node.memberChecks (Member.ofNode node) := by
  obtain ⟨kind, children, attributes⟩ := node
  cases kind with
  | varDecl => exact (decides_symbol _).map
  | methodDecl => exact (decides_method _).map
  | _ => exact decides_failed _ _ _

theorem decides_class (node : Node) : Decides node.classChecks (ClassDecl.ofNode node) := by
  apply (decides_attr node "name").bind
  intro name _
  exact (decides_firstFault (forall₂_decides_map decides_member node.children)).map

theorem decides_declarations (imports : List String) (decl : Option ClassDecl)
    (nodes : List Node) :
    Decides (Node.declarationChecks decl.isSome nodes)
      (Program.declarations imports decl nodes) := by
  induction nodes generalizing imports decl with
  | nil => exact decides_ok _
  | cons node rest ih =>
      obtain ⟨kind, children, attributes⟩ := node
      cases kind with
      | importStmt =>
          apply (decides_attr _ "name").bind
          intro name _
          exact ih _ decl
      | classDecl =>
          cases decl with
          | none =>
              apply (decides_class _).bind
              intro found _
              exact ih imports (some found)
          | some _ => exact decides_failed _ _ _
      | _ => exact decides_failed _ _ _

/-- A class is found exactly if one stands at the top level. -/
theorem isSome_of_declarations {imports names : List String} {decl found : Option ClassDecl}
    {nodes : List Node} (converted : Program.declarations imports decl nodes = .ok (names, found)) :
    found.isSome = (decl.isSome || nodes.any fun node => node.kind = .classDecl) := by
  induction nodes generalizing imports decl with
  | nil =>
      cases converted
      simp
  | cons node rest ih =>
      obtain ⟨kind, children, attributes⟩ := node
      cases kind with
      | importStmt =>
          obtain ⟨name, _, following⟩ := except_bind_eq_ok_iff.mp converted
          simpa using ih following
      | classDecl =>
          cases decl with
          | none =>
              obtain ⟨first, _, following⟩ := except_bind_eq_ok_iff.mp converted
              simpa using ih following
          | some _ => cases converted
      | _ => cases converted

/-- Conversion of a tree fails with the error of the first check that fails, and succeeds
if all checks pass. -/
theorem decides_program (tree : Node) : Decides tree.checks (Program.ofNode tree) := by
  obtain ⟨kind, children, attributes⟩ := tree
  cases kind with
  | program =>
      apply Decides.passed rfl
      apply (decides_declarations [] none children).bind
      rintro ⟨imports, found⟩ converted
      have isSome := isSome_of_declarations converted
      rw [Option.isSome_none, Bool.false_or] at isSome
      rw [← isSome]
      cases found with
      | none => exact decides_failed _ _ _
      | some decl => exact (decides_ok _).passed rfl
  | _ => exact decides_failed _ _ _

end ClassCompiler
