import ClassCompiler.Proofs.Semantics.StackCode

/-!
# Control flow of stack code

A verifier looks at stack code without running it. It follows every path through the
lines, whatever the conditions of branches are, and keeps account of the operand
stack: of how many values are on it, or of which category each of them is. What an
instruction takes from the stack and puts there is read off the instruction, that of
a call off its descriptor.
-/

namespace ClassCompiler.StackCode

/-- The category of the elements that an array instruction moves. -/
def ElementKind.category : ElementKind → Category
  | .int | .boolean => .int
  | .ref => .ref

/-! ## Instructions -/

namespace Instr

/-- The label to which an instruction can jump. -/
def target? : Instr → Option String
  | .goto target | .branch _ target => some target
  | _ => none

/-- Whether control can go on to the next line. -/
def fallsThrough : Instr → Bool
  | .goto _ | .ret _ => false
  | _ => true

/-- An instruction after which the next line runs, unless it aborts. -/
def IsStraight : Instr → Prop
  | .goto _ | .branch _ _ | .ret _ => False
  | _ => True

theorem IsStraight.target?_eq_none {instr : Instr} (straight : instr.IsStraight) :
    instr.target? = none := by
  cases instr with
  | goto target | branch test target => exact straight.elim
  | _ => rfl

theorem IsStraight.fallsThrough_eq_true {instr : Instr} (straight : instr.IsStraight) :
    instr.fallsThrough = true := by
  cases instr with
  | goto target | ret category => exact straight.elim
  | _ => rfl

/-- What an instruction takes from the stack, the top first. Any value can be
dropped. -/
def operands : Instr → List (Option Category)
  | .store category _ => [some category]
  | .arith _ | .and | .xor => [some .int, some .int]
  | .branch _ _ | .newArray _ => [some .int]
  | .arrayLength | .getField _ _ _ => [some .ref]
  | .arrayLoad _ => [some .int, some .ref]
  | .arrayStore kind => [some kind.category, some .int, some .ref]
  | .putField _ _ descriptor => [some descriptor.category, some .ref]
  | .invoke mode _ _ descriptor =>
      (descriptor.params.map fun param => some param.category).reverse ++
        if mode = .static then [] else [some .ref]
  | .pop => [none]
  | .ret category => category.toList.map some
  | .pushInt _ | .pushString _ | .load _ _ | .increment _ _ | .goto _ | .new _ => []

/-- What an instruction puts on the stack. -/
def results : Instr → List Category
  | .pushInt _ | .arith _ | .and | .xor | .arrayLength => [.int]
  | .pushString _ | .new _ | .newArray _ => [.ref]
  | .load category _ => [category]
  | .arrayLoad kind => [kind.category]
  | .getField _ _ descriptor => [descriptor.category]
  | .invoke _ _ _ descriptor =>
      if descriptor.result = .void then [] else [descriptor.result.category]
  | .store _ _ | .increment _ _ | .goto _ | .branch _ _ | .arrayStore _ | .putField _ _ _ | .pop
  | .ret _ => []

/-- The depth of the stack after an instruction. -/
def depthAfter (instr : Instr) (depth : Int) : Int :=
  depth - instr.operands.length + instr.results.length

/-- The stack after an instruction, of which only marks for the categories are kept. -/
def stackAfter {α : Type} (mark : Category → α) (instr : Instr) (stack : List α) : List α :=
  instr.results.map mark ++ stack.drop instr.operands.length

end Instr

/-- Lines that are passed one after the other. -/
def Straight (lines : List (Line Instr)) : Prop :=
  ∀ line ∈ lines, ∃ instr, line = .instr instr ∧ instr.IsStraight

theorem straight_nil : Straight [] := nofun

theorem straight_singleton {instr : Instr} (straight : instr.IsStraight) :
    Straight [.instr instr] :=
  List.forall_mem_singleton.mpr ⟨instr, rfl, straight⟩

theorem Straight.append {first second : List (Line Instr)} (firstStraight : Straight first)
    (secondStraight : Straight second) : Straight (first ++ second) := by
  intro line member
  rcases List.mem_append.mp member with inFirst | inSecond
  · exact firstStraight line inFirst
  · exact secondStraight line inSecond

/-- Lines all of whose instructions satisfy a condition. -/
def AllInstrs (condition : Instr → Prop) (lines : List (Line Instr)) : Prop :=
  ∀ instr, .instr instr ∈ lines → condition instr

/-! ## Paths -/

/-- The places that paths from the first line reach, each with the account that was
kept along the path. -/
inductive Reaches {σ : Type} (lines : List (Line Instr)) (account : Instr → σ → σ) (start : σ) :
    Nat → σ → Prop where
  | entry : Reaches lines account start 0 start
  | label {place : Nat} {name : String} {state : σ}
      (reached : Reaches lines account start place state)
      (atPlace : lines[place]? = some (.label name)) :
      Reaches lines account start (place + 1) state
  | next {place : Nat} {instr : Instr} {state : σ}
      (reached : Reaches lines account start place state)
      (atPlace : lines[place]? = some (.instr instr)) (falls : instr.fallsThrough = true) :
      Reaches lines account start (place + 1) (account instr state)
  | jump {place other : Nat} {instr : Instr} {target : String} {state : σ}
      (reached : Reaches lines account start place state)
      (atPlace : lines[place]? = some (.instr instr)) (jumps : instr.target? = some target)
      (labelled : lines[other]? = some (.label target)) :
      Reaches lines account start other (account instr state)

/-! ## Checked lines -/

section

variable {α : Type} {mark : Category → α} {labelled : String → List α} {limit : Nat}
  {lines first second : List (Line Instr)} {entry middle exit : List α} {profile : List (List α)}

/-- The top of a stack has the marks of what is taken from it. -/
def Fits (mark : Category → α) : List (Option Category) → List α → Prop
  | [], _ => True
  | none :: rest, _ :: stack => Fits mark rest stack
  | some category :: rest, found :: stack => found = mark category ∧ Fits mark rest stack
  | _ :: _, [] => False

theorem Fits.length_le {taken : List (Option Category)} {stack : List α}
    (fits : Fits mark taken stack) : taken.length ≤ stack.length := by
  induction taken generalizing stack with
  | nil => exact Nat.zero_le _
  | cons head rest ih =>
      cases stack with
      | nil => cases head <;> exact fits.elim
      | cons found stack =>
          cases head with
          | none => exact Nat.succ_le_succ (ih fits)
          | some category => exact Nat.succ_le_succ (ih fits.2)

/-- Lines that can be passed with a stack for each of them: no stack is higher than the
limit, each instruction finds its operands, and what it leaves is the stack of the next
line and of the label to which it jumps. -/
inductive Checks (mark : Category → α) (labelled : String → List α) (limit : Nat) :
    List (Line Instr) → List α → List (List α) → List α → Prop where
  | nil {stack : List α} (bounded : stack.length ≤ limit) :
      Checks mark labelled limit [] stack [] stack
  | label {name : String} {lines : List (Line Instr)} {stack exit : List α}
      {profile : List (List α)} (bounded : stack.length ≤ limit) (agrees : labelled name = stack)
      (rest : Checks mark labelled limit lines stack profile exit) :
      Checks mark labelled limit (.label name :: lines) stack (stack :: profile) exit
  | instr {instr : Instr} {lines : List (Line Instr)} {stack next exit : List α}
      {profile : List (List α)} (bounded : stack.length ≤ limit)
      (fits : Fits mark instr.operands stack)
      (goesOn : instr.fallsThrough = true → next = instr.stackAfter mark stack)
      (jumps : ∀ target ∈ instr.target?, labelled target = instr.stackAfter mark stack)
      (rest : Checks mark labelled limit lines next profile exit) :
      Checks mark labelled limit (.instr instr :: lines) stack (stack :: profile) exit

namespace Checks

theorem length_eq (checks : Checks mark labelled limit lines entry profile exit) :
    profile.length = lines.length := by
  induction checks with
  | nil _ => rfl
  | label _ _ _ ih | instr _ _ _ _ _ ih =>
      simp [ih]

theorem bounded (checks : Checks mark labelled limit lines entry profile exit) {stack : List α}
    (member : stack ∈ profile ++ [exit]) : stack.length ≤ limit := by
  induction checks with
  | nil bounded =>
      rw [List.nil_append, List.mem_singleton] at member
      exact member ▸ bounded
  | label bounded _ _ ih | instr bounded _ _ _ _ ih =>
      rcases List.mem_cons.mp member with rfl | later
      · exact bounded
      · exact ih later

theorem append {others : List (List α)}
    (checksFirst : Checks mark labelled limit first entry profile middle)
    (checksSecond : Checks mark labelled limit second middle others exit) :
    Checks mark labelled limit (first ++ second) entry (profile ++ others) exit := by
  induction checksFirst with
  | nil _ => exact checksSecond
  | label bounded agrees _ ih =>
      exact .label bounded agrees (ih checksSecond)
  | instr bounded fits goesOn jumps _ ih =>
      exact .instr bounded fits goesOn jumps (ih checksSecond)

/-- The stack at the first line is the one at entry. -/
theorem getElem?_zero (checks : Checks mark labelled limit lines entry profile exit) :
    (profile ++ [exit])[0]? = some entry := by
  cases checks <;> rfl

/-- The stack at a label is the one that jumps to it leave, and it stays. -/
theorem getElem?_label (checks : Checks mark labelled limit lines entry profile exit) {place : Nat}
    {name : String} (atPlace : lines[place]? = some (.label name)) :
    (profile ++ [exit])[place]? = some (labelled name) ∧
      (profile ++ [exit])[place + 1]? = some (labelled name) := by
  induction checks generalizing place with
  | nil _ => cases atPlace
  | label _ agrees rest ih =>
      cases place with
      | zero =>
          rw [List.getElem?_cons_zero] at atPlace
          cases atPlace
          exact ⟨congrArg some agrees.symm, agrees ▸ rest.getElem?_zero⟩
      | succ place => exact ih atPlace
  | instr _ _ _ _ _ ih =>
      cases place with
      | zero => cases atPlace
      | succ place => exact ih atPlace

/-- An instruction finds its operands, and leaves the stack of the places to which
control goes from it. -/
theorem getElem?_instr (checks : Checks mark labelled limit lines entry profile exit) {place : Nat}
    {instr : Instr} (atPlace : lines[place]? = some (.instr instr)) :
    ∃ stack, (profile ++ [exit])[place]? = some stack ∧ Fits mark instr.operands stack ∧
      (instr.fallsThrough = true →
        (profile ++ [exit])[place + 1]? = some (instr.stackAfter mark stack)) ∧
      ∀ target ∈ instr.target?, labelled target = instr.stackAfter mark stack := by
  induction checks generalizing place with
  | nil _ => cases atPlace
  | label _ _ _ ih =>
      cases place with
      | zero => cases atPlace
      | succ place => exact ih atPlace
  | instr _ fits goesOn jumps rest ih =>
      cases place with
      | zero =>
          rw [List.getElem?_cons_zero] at atPlace
          cases atPlace
          exact ⟨_, rfl, fits, fun falls => goesOn falls ▸ rest.getElem?_zero, jumps⟩
      | succ place => exact ih atPlace

/-- An account of checked lines that follows their stacks shows, on every path, the
stack of the place that the path reaches. -/
theorem of_reaches {σ : Type} {account : Instr → σ → σ} {view : List α → σ}
    (checks : Checks mark labelled limit lines entry profile exit)
    (follows : ∀ instr stack, Fits mark instr.operands stack →
      account instr (view stack) = view (instr.stackAfter mark stack))
    {place : Nat} {state : σ} (reached : Reaches lines account (view entry) place state) :
    ∃ stack, (profile ++ [exit])[place]? = some stack ∧ state = view stack := by
  induction reached with
  | entry => exact ⟨entry, checks.getElem?_zero, rfl⟩
  | label _ atPlace ih =>
      obtain ⟨stack, stackEq, rfl⟩ := ih
      obtain ⟨here, behind⟩ := checks.getElem?_label atPlace
      rw [here] at stackEq
      cases stackEq
      exact ⟨_, behind, rfl⟩
  | next _ atPlace falls ih =>
      obtain ⟨stack, stackEq, rfl⟩ := ih
      obtain ⟨found, foundEq, fits, goesOn, _⟩ := checks.getElem?_instr atPlace
      rw [foundEq] at stackEq
      cases stackEq
      exact ⟨_, goesOn falls, follows _ _ fits⟩
  | jump _ atPlace jumps toLabel ih =>
      obtain ⟨stack, stackEq, rfl⟩ := ih
      obtain ⟨found, foundEq, fits, _, leaves⟩ := checks.getElem?_instr atPlace
      rw [foundEq] at stackEq
      cases stackEq
      rw [follows _ _ fits, ← leaves _ jumps]
      exact ⟨_, (checks.getElem?_label toLabel).1, rfl⟩

end Checks

end

end ClassCompiler.StackCode
