import ClassCompiler.Proofs.Effects
import ClassCompiler.Proofs.NodeTrees.Encoding

/-!
# Array layers of a type tree

A type tree is a named type under any number of array and vararg layers. A type has
one dimension at most. Conversion accepts every type tree all the same: it keeps the
name that stands innermost and the outermost layer, and drops the layers between them.
So the layers of an accepted tree are counted rightly exactly up to the first.
-/

namespace ClassCompiler

open Effects (except_bind_eq_ok_iff)

/-- A tree that writes a type: the name that stands innermost, and the number of array
layers over it. A named type may itself be marked as an array, which is one layer. -/
inductive Node.WritesType : Node → String → Nat → Prop
  | named {node : Node} {name : String} (isType : node.kind = .type)
      (hasName : node.attr "name" = .ok name) :
      WritesType node name (if node.flag "isArray" false then 1 else 0)
  | layer {kind : Kind} {inner : Node} {rest : List Node}
      {attributes : List (String × Json.Value)} {name : String} {layers : Nat}
      (isLayer : kind = .arrayType ∨ kind = .vararg) (writes : WritesType inner name layers) :
      WritesType ⟨kind, inner :: rest, attributes⟩ name (layers + 1)

/-- The shape of a type by its outermost node and the number of its layers. -/
def Shape.ofLayers (outermost : Kind) (layers : Nat) : Shape :=
  if layers = 0 then .single else if outermost = .vararg then .vararg else .array

theorem Shape.ofLayers_eq_single_iff {outermost : Kind} {layers : Nat} :
    Shape.ofLayers outermost layers = .single ↔ layers = 0 := by
  unfold Shape.ofLayers
  split
  · simpa
  · split <;> simpa

/-- A type tree is converted, whatever the number of its layers. -/
theorem Node.WritesType.ofNode {node : Node} {name : String} {layers : Nat}
    (writes : node.WritesType name layers) :
    Ty.ofNode node = .ok ⟨name, Shape.ofLayers node.kind layers⟩ := by
  induction writes with
  | @named node name isType hasName =>
      obtain ⟨kind, children, attributes⟩ := node
      cases isType
      rw [Ty.ofNode, hasName]
      cases marked : Node.flag ⟨.type, children, attributes⟩ "isArray" false <;> rfl
  | layer isLayer _ ih =>
      rcases isLayer with rfl | rfl
      · rw [Ty.ofNode, ih]
        rfl
      · rw [Ty.ofNode, ih]
        rfl

/-- Only type trees are converted. -/
theorem Node.exists_writesType : (node : Node) → {ty : Ty} → Ty.ofNode node = .ok ty →
    ∃ layers, node.WritesType ty.name layers
  | ⟨kind, children, attributes⟩, ty, converts => by
      -- A layer has the name of what stands under it.
      have under : ∀ {inner : Node} {shape : Shape},
          (do let innerTy ← Ty.ofNode inner; return (⟨innerTy.name, shape⟩ : Ty)) = .ok ty →
          ∃ innerTy, Ty.ofNode inner = .ok innerTy ∧ innerTy.name = ty.name := by
        intro inner shape run
        obtain ⟨innerTy, innerRun, tyEq⟩ := except_bind_eq_ok_iff.mp run
        cases tyEq
        exact ⟨innerTy, innerRun, rfl⟩
      cases kind with
      | type =>
          obtain ⟨name, hasName, tyEq⟩ := except_bind_eq_ok_iff.mp converts
          have nameEq : ty.name = name := by
            cases tyEq
            split <;> rfl
          rw [nameEq]
          exact ⟨_, .named rfl hasName⟩
      | arrayType =>
          cases children with
          | nil => cases converts
          | cons inner rest =>
              obtain ⟨innerTy, innerRun, nameEq⟩ := under converts
              obtain ⟨layers, writes⟩ := Node.exists_writesType inner innerRun
              exact ⟨_, .layer (.inl rfl) (nameEq ▸ writes)⟩
      | vararg =>
          cases children with
          | nil => cases converts
          | cons inner rest =>
              obtain ⟨innerTy, innerRun, nameEq⟩ := under converts
              obtain ⟨layers, writes⟩ := Node.exists_writesType inner innerRun
              exact ⟨_, .layer (.inr rfl) (nameEq ▸ writes)⟩
      | _ => cases converts

/-- Conversion accepts exactly the type trees, with any number of layers. The type has
the name that stands innermost and the shape of the outermost node, and it is an array
if there is a layer at all: the number of layers is that of the type exactly if there
is no second one, and all further layers are dropped. -/
theorem ofNode_collapses_array_layers (node : Node) :
    (∀ ty, Ty.ofNode node = .ok ty → ∃ layers, node.WritesType ty.name layers) ∧
    ∀ name layers, node.WritesType name layers →
      ∃ ty, Ty.ofNode node = .ok ty ∧ ty.name = name ∧
        ty.shape = Shape.ofLayers node.kind layers ∧ (ty.isArray = true ↔ 1 ≤ layers) ∧
        (layers = (if ty.isArray then 1 else 0) ↔ layers ≤ 1) := by
  refine ⟨fun ty => node.exists_writesType, fun name layers writes => ?_⟩
  refine ⟨_, writes.ofNode, rfl, rfl, ?_⟩
  have isArray : Ty.isArray ⟨name, Shape.ofLayers node.kind layers⟩ = true ↔ 1 ≤ layers := by
    rw [Ty.isArray, bne_iff_ne, Ne, Shape.ofLayers_eq_single_iff]
    omega
  refine ⟨isArray, ?_⟩
  split
  · rename_i array
    have layered := isArray.mp array
    omega
  · rename_i single
    have bare := mt isArray.mpr single
    omega

/-- The tree of an array of arrays of integers. -/
def gridTree : Node :=
  .tagged .arrayType [] [.tagged .arrayType [] [.tagged .type [("name", "int")] []]]

/-- The tree of a parameter that collects arrays of arrays of strings, the innermost
layer as a mark on the name. -/
def tableTree : Node :=
  .tagged .vararg []
    [.tagged .arrayType [] [.tagged .type [("isArray", "true"), ("name", "String")] []]]

/-- Three layers over a name are one in the type. -/
theorem ofNode_collapses_tableTree :
    tableTree.WritesType "String" 3 ∧ ∃ ty, Ty.ofNode tableTree = .ok ty ∧ ty.name = "String" ∧
      ty.shape = Shape.ofLayers .vararg 3 ∧ (ty.isArray = true ↔ 1 ≤ 3) ∧
      (3 = (if ty.isArray then 1 else 0) ↔ 3 ≤ 1) := by
  have writes : tableTree.WritesType "String" 3 :=
    .layer (.inr rfl) (.layer (.inl rfl) (.named rfl rfl))
  exact ⟨writes, (ofNode_collapses_array_layers tableTree).2 "String" 3 writes⟩

/-- An array of arrays is accepted and has two layers, but its type is that of an array
with one. -/
theorem ofNode_drops_layer_gridTree :
    gridTree.WritesType "int" 2 ∧ Ty.ofNode gridTree = .ok (Ty.arrayOf "int") ∧
      2 ≠ (if (Ty.arrayOf "int").isArray then 1 else 0) :=
  ⟨.layer (.inl rfl) (.layer (.inl rfl) (.named rfl rfl)), rfl, by decide⟩

end ClassCompiler
