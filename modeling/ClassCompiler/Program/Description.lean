import ClassCompiler.Program
import ClassCompiler.Text.Quoted

/-!
# Descriptions of expressions

An error that speaks of an expression shows it as a tree on one line: the name of
the form, then its parts.
-/

namespace ClassCompiler

/-- The description of a type with its parts. -/
def Ty.description (ty : Ty) : String :=
  "Type \x7b name: " ++ Text.quoted ty.name ++ ", is_array: " ++ toString ty.isArray ++
    ", is_vararg: " ++ toString ty.isVararg ++ " \x7d"

mutual

/-- The description of an expression. -/
def Expr.description : Expr → String
  | .int value => "IntLiteral(" ++ toString value.toInt ++ ")"
  | .bool value => "BoolLiteral(" ++ toString value ++ ")"
  | .string value => "StringLiteral(" ++ Text.quoted value ++ ")"
  | .self => "This"
  | .var name => "Var(" ++ Text.quoted name ++ ")"
  | .binary op left right =>
      "Binary \x7b op: " ++ op.name ++ ", left: " ++ left.description ++ ", right: " ++
        right.description ++ " \x7d"
  | .not operand => "Unary \x7b op: Not, operand: " ++ operand.description ++ " \x7d"
  | .paren inner => "Paren(" ++ inner.description ++ ")"
  | .index array position =>
      "ArrayAccess \x7b array: " ++ array.description ++ ", index: " ++ position.description ++
        " \x7d"
  | .length array => "Length(" ++ array.description ++ ")"
  | .newArray elem size =>
      "NewArray \x7b elem: " ++ elem.description ++ ", size: " ++ size.description ++ " \x7d"
  | .arrayInit elements =>
      "ArrayInit([" ++ String.intercalate ", " (Expr.descriptions elements) ++ "])"
  | .newObject className => "NewObject(" ++ Text.quoted className ++ ")"
  | .selfCall name args =>
      "MethodCall \x7b receiver: None, name: " ++ Text.quoted name ++ ", args: [" ++
        String.intercalate ", " (Expr.descriptions args) ++ "] \x7d"
  | .call receiver name args =>
      "MethodCall \x7b receiver: Some(" ++ receiver.description ++ "), name: " ++
        Text.quoted name ++ ", args: [" ++
        String.intercalate ", " (Expr.descriptions args) ++ "] \x7d"

/-- The descriptions of expressions. -/
def Expr.descriptions : List Expr → List String
  | [] => []
  | expr :: rest => expr.description :: Expr.descriptions rest

end

end ClassCompiler
