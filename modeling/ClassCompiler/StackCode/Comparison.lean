import ClassCompiler.Operator

/-!
# Labels of comparisons

A comparison becomes a small branch with two labels of its own. The labels of
each kind of comparison are numbered from zero.
-/

namespace ClassCompiler.StackCode

/-- The number the next comparison of each kind will carry. -/
structure ComparisonCounts where
  less : Nat := 0
  lessEqual : Nat := 0
  greater : Nat := 0
  greaterEqual : Nat := 0
  equal : Nat := 0
  notEqual : Nat := 0
deriving DecidableEq, Repr, Inhabited

namespace ComparisonCounts

/-- The number the next comparison of a kind will carry. -/
def next (counts : ComparisonCounts) : Comparison → Nat
  | .less => counts.less
  | .lessEqual => counts.lessEqual
  | .greater => counts.greater
  | .greaterEqual => counts.greaterEqual
  | .equal => counts.equal
  | .notEqual => counts.notEqual

/-- The counts after one more comparison of a kind. -/
def skip (counts : ComparisonCounts) : Comparison → ComparisonCounts
  | .less => { counts with less := counts.less + 1 }
  | .lessEqual => { counts with lessEqual := counts.lessEqual + 1 }
  | .greater => { counts with greater := counts.greater + 1 }
  | .greaterEqual => { counts with greaterEqual := counts.greaterEqual + 1 }
  | .equal => { counts with equal := counts.equal + 1 }
  | .notEqual => { counts with notEqual := counts.notEqual + 1 }

@[simp] theorem next_skip (counts : ComparisonCounts) (kind other : Comparison) :
    (counts.skip kind).next other = counts.next other + if other = kind then 1 else 0 := by
  cases kind <;> cases other <;> rfl

end ComparisonCounts

/-- The word that stands before the number of a comparison label. -/
def comparisonWord : Comparison → String
  | .less => "lessThan"
  | .lessEqual => "lessEqual"
  | .greater => "greaterThan"
  | .greaterEqual => "greaterEqual"
  | .equal => "equal"
  | .notEqual => "notEqual"

/-- The label a comparison jumps to when it holds. -/
def trueLabel (kind : Comparison) (number : Nat) : String :=
  comparisonWord kind ++ toString number

/-- The label behind a comparison. -/
def endLabel (kind : Comparison) (number : Nat) : String :=
  comparisonWord kind ++ "End" ++ toString number

end ClassCompiler.StackCode
