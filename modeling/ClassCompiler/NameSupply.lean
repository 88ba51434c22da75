/-!
# The supply of fresh names

Temporaries and jump labels are numbered from zero. Temporaries share one
counter, and each kind of label has its own, so two names from one supply differ
whenever their kind or their number does.
-/

namespace ClassCompiler

/-- The four places a structured statement can jump to. -/
inductive LabelKind where
  | ifThen
  | ifEnd
  | whileCond
  | whileEnd
deriving DecidableEq, Repr, Inhabited

/-- The word that stands before the number of a label. -/
def LabelKind.word : LabelKind → String
  | .ifThen => "ifThen"
  | .ifEnd => "ifEnd"
  | .whileCond => "whileCond"
  | .whileEnd => "whileEnd"

/-- The number the next name of each sort will carry. -/
structure NameSupply where
  temps : Nat := 0
  ifThen : Nat := 0
  ifEnd : Nat := 0
  whileCond : Nat := 0
  whileEnd : Nat := 0
deriving DecidableEq, Repr, Inhabited

/-- The name of the temporary with a number. -/
def tempName (number : Nat) : String := "tmp" ++ toString number

/-- The name of the label of a kind with a number. -/
def labelName (kind : LabelKind) (number : Nat) : String := kind.word ++ toString number

namespace NameSupply

/-- The next temporary name, whatever is declared. -/
def temp (supply : NameSupply) : String × NameSupply :=
  (tempName supply.temps, { supply with temps := supply.temps + 1 })

/-- The number the next label of a kind will carry. -/
def nextLabel (supply : NameSupply) : LabelKind → Nat
  | .ifThen => supply.ifThen
  | .ifEnd => supply.ifEnd
  | .whileCond => supply.whileCond
  | .whileEnd => supply.whileEnd

/-- The supply after one label of a kind has been taken. -/
def skipLabel (supply : NameSupply) : LabelKind → NameSupply
  | .ifThen => { supply with ifThen := supply.ifThen + 1 }
  | .ifEnd => { supply with ifEnd := supply.ifEnd + 1 }
  | .whileCond => { supply with whileCond := supply.whileCond + 1 }
  | .whileEnd => { supply with whileEnd := supply.whileEnd + 1 }

/-- The next label of a kind. -/
def label (supply : NameSupply) (kind : LabelKind) : String × NameSupply :=
  (labelName kind (supply.nextLabel kind), supply.skipLabel kind)

/-- The two labels of a conditional: its positive branch and its end. -/
def ifLabels (supply : NameSupply) : (String × String) × NameSupply :=
  let (thenLabel, supply) := supply.label .ifThen
  let (endLabel, supply) := supply.label .ifEnd
  ((thenLabel, endLabel), supply)

/-- The two labels of a loop: its condition and its end. -/
def whileLabels (supply : NameSupply) : (String × String) × NameSupply :=
  let (condLabel, supply) := supply.label .whileCond
  let (endLabel, supply) := supply.label .whileEnd
  ((condLabel, endLabel), supply)

/-- The least number from `start` on whose temporary name is not `taken`. Among
`taken.length + 1` consecutive numbers at least one is free, so when the first
`taken.length` are all taken the next one is not. -/
def freeNumber (taken : List String) (start : Nat) : Nat :=
  ((List.range' start taken.length).find? fun number => !taken.contains (tempName number)).getD
    (start + taken.length)

/-- The next temporary name that is not `taken`. Numbers whose names are taken
are passed over for good. -/
def freshTemp (supply : NameSupply) (taken : List String) : String × NameSupply :=
  let number := freeNumber taken supply.temps
  (tempName number, { supply with temps := number + 1 })

@[simp] theorem nextLabel_skipLabel (supply : NameSupply) (kind other : LabelKind) :
    (supply.skipLabel kind).nextLabel other =
      supply.nextLabel other + if other = kind then 1 else 0 := by
  cases kind <;> cases other <;> rfl

@[simp] theorem temps_skipLabel (supply : NameSupply) (kind : LabelKind) :
    (supply.skipLabel kind).temps = supply.temps := by
  cases kind <;> rfl

end NameSupply

end ClassCompiler
