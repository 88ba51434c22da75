/-!
# Node kinds

The tag of a syntax-tree node. Some kinds are also written under other names:
a front end may keep a kind of its own for each group of operators or for the
main method. All names of a kind stand for the same kind.
-/

namespace ClassCompiler

/-- The kinds of nodes a syntax tree is made of. -/
inductive Kind where
  | program
  | importStmt
  | classDecl
  | varDecl
  | methodDecl
  | param
  | type
  | arrayType
  | vararg
  | assignStmt
  | exprStmt
  | returnStmt
  | ifElseStmt
  | whileStmt
  | scopeStmt
  | integerLiteral
  | booleanLiteral
  | stringLiteral
  | varRefExpr
  | thisExpr
  | binaryExpr
  | unaryExpr
  | parenExpr
  | arrayAccessExpr
  | lengthExpr
  | newArrayExpr
  | arrayInitExpr
  | newClassExpr
  | methodCallExpr
deriving DecidableEq, Repr, Inhabited

namespace Kind

/-- Every kind once. -/
def all : List Kind :=
  [.program, .importStmt, .classDecl, .varDecl, .methodDecl, .param, .type, .arrayType,
    .vararg, .assignStmt, .exprStmt, .returnStmt, .ifElseStmt, .whileStmt, .scopeStmt,
    .integerLiteral, .booleanLiteral, .stringLiteral, .varRefExpr, .thisExpr, .binaryExpr,
    .unaryExpr, .parenExpr, .arrayAccessExpr, .lengthExpr, .newArrayExpr, .arrayInitExpr,
    .newClassExpr, .methodCallExpr]

/-- The name under which a kind is written and reported. -/
def name : Kind → String
  | .program => "Program"
  | .importStmt => "ImportStmt"
  | .classDecl => "ClassDecl"
  | .varDecl => "VarDecl"
  | .methodDecl => "MethodDecl"
  | .param => "Param"
  | .type => "Type"
  | .arrayType => "ArrayType"
  | .vararg => "Vararg"
  | .assignStmt => "AssignStmt"
  | .exprStmt => "ExprStmt"
  | .returnStmt => "ReturnStmt"
  | .ifElseStmt => "IfElseStmt"
  | .whileStmt => "WhileStmt"
  | .scopeStmt => "ScopeStmt"
  | .integerLiteral => "IntegerLiteral"
  | .booleanLiteral => "BooleanLiteral"
  | .stringLiteral => "StringLiteral"
  | .varRefExpr => "VarRefExpr"
  | .thisExpr => "ThisExpr"
  | .binaryExpr => "BinaryExpr"
  | .unaryExpr => "UnaryExpr"
  | .parenExpr => "ParenExpr"
  | .arrayAccessExpr => "ArrayAccessExpr"
  | .lengthExpr => "LengthExpr"
  | .newArrayExpr => "NewArrayExpr"
  | .arrayInitExpr => "ArrayInitExpr"
  | .newClassExpr => "NewClassExpr"
  | .methodCallExpr => "MethodCallExpr"

/-- The other names under which a kind is read. -/
def aliases : Kind → List String
  | .methodDecl => ["MainMethod"]
  | .type => ["TType"]
  | .integerLiteral => ["IntegerLiteralExpr"]
  | .booleanLiteral => ["BooleanLiteralExpr"]
  | .thisExpr => ["ThisLiteralExpr"]
  | .binaryExpr => ["AdditiveExpr", "MultiplicativeExpr", "RelationalExpr", "ShortCAndExpr"]
  | _ => []

/-- The kind a name stands for, under its own name or an alias. -/
def ofName? (text : String) : Option Kind :=
  all.find? fun kind => kind.name == text || kind.aliases.contains text

/-- Whether a node of the kind denotes a type. -/
def isType : Kind → Bool
  | .type | .arrayType | .vararg => true
  | _ => false

/-- Every kind is read back from the name it is written under. -/
@[simp] theorem ofName?_name (kind : Kind) : ofName? kind.name = some kind := by
  cases kind <;> decide

end Kind

end ClassCompiler
