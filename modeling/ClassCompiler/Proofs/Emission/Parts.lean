import ClassCompiler.Proofs.Emission.Code
import ClassCompiler.Proofs.Semantics.Coverage

/-!
# Parts of emitted code

The code of an instruction is put together from few parts: it loads the operands, works on
the stack and stores the result, and some instructions name members, classes or labels of
their own. This module says once what a line of that code can be, so that a property of all
lines is shown part by part.
-/

namespace ClassCompiler.StackCode

open ThreeAddress (Call Value)

/-- Instructions that work on the stack alone: they name no slot, class, member or label, and
the next line runs after them. -/
def Instr.IsPlain : Instr → Prop
  | .pushInt _ | .pushString _ | .arith _ | .and | .xor | .arrayLength | .arrayLoad _
  | .arrayStore _ | .pop => True
  | _ => False

/-- The category of what a return leaves. -/
def returnedCategory (isMain : Bool) : Option Value → Option Category
  | some value => if isMain || value.ty.isVoid then none else some (valueCategory value.ty)
  | none => none

/-- What a line of the code of an instruction can be. -/
inductive Part (linkage : Linkage) (isMain : Bool) (names : List String)
    (counts : ComparisonCounts) : ThreeAddress.Instr → Line Instr → Prop where
  | plain {instr : ThreeAddress.Instr} {op : Instr} (isPlain : op.IsPlain) :
      Part linkage isMain names counts instr (.instr op)
  | load {instr : ThreeAddress.Instr} {value : Value} {category : Category} {slot : Nat}
      (source : value ∈ instr.sources)
      (loads : .instr (.load category slot) ∈ loadCode names value) :
      Part linkage isMain names counts instr (.instr (.load category slot))
  | store {instr : ThreeAddress.Instr} {dest : Value} {category : Category} {slot : Nat}
      (isDest : dest ∈ instr.dest?)
      (stores : .instr (.store category slot) ∈ storeCode names dest) :
      Part linkage isMain names counts instr (.instr (.store category slot))
  | increment {dest left right : Value} {op : BinaryOp} {name : String} {delta : Int8}
      (found : increment? dest op left right = some (name, delta)) :
      Part linkage isMain names counts (.binary dest op left right)
        (.instr (.increment (names.idxOf name) delta))
  | test {dest left right : Value} {kind : Comparison} :
      Part linkage isMain names counts (.binary dest (.compare kind) left right)
        (.instr (.branch kind (trueLabel kind (counts.next kind))))
  | skip {dest left right : Value} {kind : Comparison} :
      Part linkage isMain names counts (.binary dest (.compare kind) left right)
        (.instr (.goto (endLabel kind (counts.next kind))))
  | holds {dest left right : Value} {kind : Comparison} :
      Part linkage isMain names counts (.binary dest (.compare kind) left right)
        (.label (trueLabel kind (counts.next kind)))
  | behind {dest left right : Value} {kind : Comparison} :
      Part linkage isMain names counts (.binary dest (.compare kind) left right)
        (.label (endLabel kind (counts.next kind)))
  | getField {dest object : Value} {field : String} {ty : Ty} :
      Part linkage isMain names counts (.getField dest object field ty)
        (.instr (.getField (linkage.paths.classPath object.ty.name) field
          (linkage.paths.descriptorOf ty)))
  | putField {object value : Value} {field : String} :
      Part linkage isMain names counts (.putField object field value)
        (.instr (.putField (linkage.paths.classPath object.ty.name) field
          (linkage.paths.descriptorOf value.ty)))
  | new {dest : Option Value} {call : Call} :
      Part linkage isMain names counts (.call dest call)
        (.instr (.new (linkage.paths.classPath (createdClass call))))
  | newArray {dest : Option Value} {call : Call} :
      Part linkage isMain names counts (.call dest call)
        (.instr (.newArray (linkage.elementOf call.returnTy)))
  | invoke {dest : Option Value} {mode : ThreeAddress.InvokeMode} {target : Value}
      {method : String} {args : List Value} {returnTy : Ty} :
      Part linkage isMain names counts
        (.call dest ⟨.invoke mode, some target, some method, args, returnTy⟩)
        (.instr (.invoke mode (linkage.ownerOf mode target) method
          (linkage.paths.signatureOf (args.map Value.ty) returnTy)))
  | ret {value : Option Value} :
      Part linkage isMain names counts (.ret value)
        (.instr (.ret (returnedCategory isMain value)))
  | goto {target : String} :
      Part linkage isMain names counts (.goto target) (.instr (.goto target))
  | branch {cond : Value} {target : String} :
      Part linkage isMain names counts (.branch cond target) (.instr (.branch .notEqual target))
  | label {name : String} : Part linkage isMain names counts (.label name) (.label name)

section

variable {linkage : Linkage} {isMain : Bool} {names : List String} {counts : ComparisonCounts}
  {instr : ThreeAddress.Instr} {line : Line Instr}

/-- A value is pushed by plain instructions and loads of slots. -/
theorem isPlain_or_load_of_mem_loadCode {value : Value} (member : line ∈ loadCode names value) :
    ∃ op, line = .instr op ∧ (op.IsPlain ∨ ∃ category slot, op = .load category slot) := by
  induction value with
  | temp name ty | var name ty | self ty =>
      exact ⟨_, List.mem_singleton.mp member, .inr ⟨_, _, rfl⟩⟩
  | const constant =>
      cases constant <;> exact ⟨_, List.mem_singleton.mp member, .inl trivial⟩
  | classRef name => cases member
  | element array position ty inArray inPosition =>
      rcases List.mem_append.mp member with inOperands | isLast
      · exact (List.mem_append.mp inOperands).elim inArray inPosition
      · exact ⟨_, List.mem_singleton.mp isLast, .inl trivial⟩

/-- A value is stored by one instruction. -/
theorem exists_store_of_mem_storeCode {dest : Value} (member : line ∈ storeCode names dest) :
    ∃ category slot, line = .instr (.store category slot) := by
  cases dest with
  | temp name ty | var name ty => exact ⟨_, _, List.mem_singleton.mp member⟩
  | _ => cases member

namespace Part

theorem of_loadCode {value : Value} (source : value ∈ instr.sources)
    (member : line ∈ loadCode names value) : Part linkage isMain names counts instr line := by
  obtain ⟨op, rfl, isPlain | ⟨category, slot, rfl⟩⟩ := isPlain_or_load_of_mem_loadCode member
  · exact .plain isPlain
  · exact .load source member

theorem of_loadsCode {values : List Value} (sources : values ⊆ instr.sources)
    (member : line ∈ loadsCode names values) : Part linkage isMain names counts instr line := by
  obtain ⟨value, source, inLoad⟩ := List.mem_flatMap.mp member
  exact .of_loadCode (sources source) inLoad

theorem of_storeCode {dest : Value} (isDest : dest ∈ instr.dest?)
    (member : line ∈ storeCode names dest) : Part linkage isMain names counts instr line := by
  obtain ⟨category, slot, rfl⟩ := exists_store_of_mem_storeCode member
  exact .store isDest member

theorem of_operatorCode {dest left right : Value} {op : BinaryOp}
    (member : line ∈ operatorCode counts op) :
    Part linkage isMain names counts (.binary dest op left right) line := by
  cases op with
  | arith op | and =>
      rw [List.mem_singleton.mp member]
      exact .plain trivial
  | compare kind =>
      simp only [operatorCode, comparisonCode, List.mem_cons, List.not_mem_nil, or_false] at member
      rcases member with rfl | rfl | rfl | rfl | rfl | rfl | rfl
      · exact .plain trivial
      · exact .test
      · exact .plain trivial
      · exact .skip
      · exact .holds
      · exact .plain trivial
      · exact .behind

theorem of_resultCode {dest : Option Value} {call : Call}
    (member : line ∈ resultCode names dest call) :
    Part linkage isMain names counts (.call dest call) line := by
  cases dest with
  | some dest => exact .of_storeCode rfl member
  | none =>
      simp only [resultCode] at member
      split at member
      · rw [List.mem_singleton.mp member]
        exact .plain trivial
      · cases member

theorem of_callCode {dest : Option Value} {call : Call}
    (member : line ∈ callCode linkage names call) :
    Part linkage isMain names counts (.call dest call) line := by
  obtain ⟨invocation, target, method, args, returnTy⟩ := call
  cases invocation with
  | new =>
      rw [List.mem_singleton.mp member]
      exact .new
  | newArray =>
      cases args with
      | nil => cases member
      | cons size rest =>
          rcases List.mem_append.mp member with inLoad | isLast
          · exact .of_loadCode (List.mem_append_right _ List.mem_cons_self) inLoad
          · rw [List.mem_singleton.mp isLast]
            exact .newArray
  | arrayLength =>
      cases target with
      | none => cases member
      | some array =>
          rcases List.mem_append.mp member with inLoad | isLast
          · exact .of_loadCode List.mem_cons_self inLoad
          · rw [List.mem_singleton.mp isLast]
            exact .plain trivial
  | invoke mode =>
      cases target with
      | none => cases member
      | some target =>
          cases method with
          | none => cases member
          | some method =>
              rcases List.mem_append.mp member with inLoads | isLast
              · refine .of_loadsCode ?_ inLoads
                unfold operandsOf
                split
                · exact List.subset_cons_self _ _
                · exact List.Subset.refl _
              · rw [List.mem_singleton.mp isLast]
                exact .invoke

/-- Every line of the code of an instruction is one of its parts. -/
theorem of_instrCode (member : line ∈ instrCode linkage isMain names counts instr) :
    Part linkage isMain names counts instr line := by
  cases instr with
  | assign dest value =>
      cases dest with
      | element array position ty =>
          rcases List.mem_append.mp member with inLoads | isLast
          · exact .of_loadsCode (List.Subset.refl _) inLoads
          · rw [List.mem_singleton.mp isLast]
            exact .plain trivial
      | _ =>
          rcases List.mem_append.mp member with inLoad | inStore
          · exact .of_loadCode List.mem_cons_self inLoad
          · exact .of_storeCode rfl inStore
  | binary dest op left right =>
      cases found : increment? dest op left right with
      | some increment =>
          simp only [instrCode, found] at member
          rw [List.mem_singleton.mp member]
          exact .increment found
      | none =>
          simp only [instrCode, found, List.mem_append] at member
          rcases member with (inLoads | inOperator) | inStore
          · exact .of_loadsCode (List.Subset.refl _) inLoads
          · exact .of_operatorCode inOperator
          · exact .of_storeCode rfl inStore
  | not dest operand =>
      simp only [instrCode, List.mem_append, List.mem_cons, List.not_mem_nil, or_false] at member
      rcases member with (inLoad | rfl | rfl) | inStore
      · exact .of_loadCode List.mem_cons_self inLoad
      · exact .plain trivial
      · exact .plain trivial
      · exact .of_storeCode rfl inStore
  | getField dest object field ty =>
      simp only [instrCode, List.mem_append, List.mem_singleton] at member
      rcases member with (inLoad | rfl) | inStore
      · exact .of_loadCode List.mem_cons_self inLoad
      · exact .getField
      · exact .of_storeCode rfl inStore
  | putField object field value =>
      rcases List.mem_append.mp member with inLoads | isLast
      · exact .of_loadsCode (List.Subset.refl _) inLoads
      · rw [List.mem_singleton.mp isLast]
        exact .putField
  | call dest call =>
      rcases List.mem_append.mp member with inCall | inResult
      · exact .of_callCode inCall
      · exact .of_resultCode inResult
  | ret value =>
      cases value with
      | none =>
          rw [List.mem_singleton.mp member]
          exact .ret
      | some value =>
          cases isMain with
          | true =>
              rw [List.mem_singleton.mp member]
              exact .ret
          | false =>
              rcases List.mem_append.mp member with inLoad | isLast
              · exact .of_loadCode List.mem_cons_self inLoad
              · rw [List.mem_singleton.mp isLast]
                exact .ret
  | goto target =>
      rw [List.mem_singleton.mp member]
      exact .goto
  | branch cond target =>
      rcases List.mem_append.mp member with inLoad | isLast
      · exact .of_loadCode List.mem_cons_self inLoad
      · rw [List.mem_singleton.mp isLast]
        exact .branch
  | label name =>
      rw [List.mem_singleton.mp member]
      exact .label

end Part

/-- Every line of the code of a body is a part of one of its instructions. -/
theorem exists_part_of_mem_bodyCode {body : ThreeAddress.Code}
    (member : line ∈ bodyCode linkage isMain names counts body) :
    ∃ instr ∈ body, ∃ before, Part linkage isMain names before instr line := by
  induction body generalizing counts with
  | nil => cases member
  | cons instr rest ih =>
      rcases List.mem_append.mp member with here | later
      · exact ⟨instr, List.mem_cons_self, counts, .of_instrCode here⟩
      · obtain ⟨other, inRest, part⟩ := ih later
        exact ⟨other, List.mem_cons_of_mem _ inRest, part⟩

end

end ClassCompiler.StackCode
