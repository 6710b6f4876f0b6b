import CuteEVM.Abi.Pack

set_option autoImplicit false

-- Which Go values an argument type has, and how many bytes a value of a static type takes by the rules of the encoding.

namespace CuteEVM

namespace AbiType

@[induction_eliminator, elab_as_elim]
theorem induction {P : AbiType → Prop} (int : ∀ size, P (.int size)) (uint : ∀ size, P (.uint size)) (bool : P .bool)
    (string : P .string) (slice : ∀ elem, P elem → P (.slice elem)) (array : ∀ elem size, P elem → P (.array elem size))
    (tuple : ∀ elems rawNames, (∀ elem ∈ elems, P elem) → P (.tuple elems rawNames)) (address : P .address)
    (fixedBytes : ∀ size, P (.fixedBytes size)) (bytes : P .bytes) (t : AbiType) : P t :=
  @AbiType.rec P (fun elems => ∀ elem ∈ elems, P elem) int uint bool string slice array tuple address fixedBytes bytes
    (fun _ member => absurd member List.not_mem_nil)
    (fun _ _ head tail => List.forall_mem_cons.2 ⟨head, tail⟩) t

-- The types that a signature can be built from. The components of a tuple have different names in Go.
inductive Supported : AbiType → Prop where
  | int {size : Nat} (least : 1 ≤ size) (most : size ≤ 256) : Supported (.int size)
  | uint {size : Nat} (least : 1 ≤ size) (most : size ≤ 256) : Supported (.uint size)
  | bool : Supported .bool
  | string : Supported .string
  | slice {elem : AbiType} (valid : Supported elem) : Supported (.slice elem)
  | array {elem : AbiType} {size : Nat} (some_elem : 1 ≤ size) (valid : Supported elem) : Supported (.array elem size)
  | tuple {elems : List AbiType} {rawNames : List String} (some_elem : elems ≠ []) (named : rawNames.length = elems.length)
      (distinct : (rawNames.map toCamelCase).Nodup) (nonempty : "" ∉ rawNames.map toCamelCase)
        (valid : ∀ elem ∈ elems, Supported elem) :
      Supported (.tuple elems rawNames)
  | address : Supported .address
  | fixedBytes {size : Nat} (least : 1 ≤ size) (most : size ≤ 32) : Supported (.fixedBytes size)
  | bytes : Supported .bytes

-- The values of a type, of exactly the Go type that belongs to it.
inductive HasType : AbiType → GoVal → Prop where
  | int {size : Nat} {n : Int} (low : -2 ^ (size - 1) ≤ n) (high : n < 2 ^ (size - 1)) :
      HasType (.int size) (.num (reflectIntKind false size) n)
  | uint {size : Nat} {n : Int} (low : 0 ≤ n) (high : n < 2 ^ size) : HasType (.uint size) (.num (reflectIntKind true size) n)
  | bool (b : Bool) : HasType .bool (.bool b)
  | string (b : Bytes) : HasType .string (.string b)
  | slice {elem : AbiType} {items : List GoVal} (all : ∀ v ∈ items, HasType elem v) :
      HasType (.slice elem) (.seq .slice elem.kind items)
  | array {elem : AbiType} {items : List GoVal} (all : ∀ v ∈ items, HasType elem v) :
      HasType (.array elem items.length) (.seq .array elem.kind items)
  | tuple {elems : List AbiType} {rawNames : List String} {values : List GoVal} (all : List.Forall₂ HasType elems values) :
      HasType (.tuple elems rawNames) (.struct (rawNames.map structField) values)
  | address {b : Bytes} (length : b.length = 20) : HasType .address (.bytes .array b)
  | fixedBytes {b : Bytes} : HasType (.fixedBytes b.length) (.bytes .array b)
  | bytes (b : Bytes) : HasType .bytes (.bytes .slice b)

inductive Within (inner : AbiType) : AbiType → Prop where
  | here : Within inner inner
  | slice {elem : AbiType} (within : Within inner elem) : Within inner (.slice elem)
  | array {elem : AbiType} {size : Nat} (within : Within inner elem) : Within inner (.array elem size)
  | tuple {elem : AbiType} {elems : List AbiType} {rawNames : List String} (member : elem ∈ elems) (within : Within inner elem) :
      Within inner (.tuple elems rawNames)

-- A value inside another, with its type.
inductive Contains (inner : AbiType) (value : GoVal) : AbiType → GoVal → Prop where
  | here : Contains inner value inner value
  | slice {elem : AbiType} {v : GoVal} {kind k : GoKind} {items : List GoVal} (member : v ∈ items)
    (within : Contains inner value elem v) :
      Contains inner value (.slice elem) (.seq kind k items)
  | array {elem : AbiType} {size : Nat} {v : GoVal} {kind k : GoKind} {items : List GoVal} (member : v ∈ items)
      (within : Contains inner value elem v) : Contains inner value (.array elem size) (.seq kind k items)
  | tuple {elem : AbiType} {v : GoVal} {elems : List AbiType} {rawNames : List String} {fields : List StructField}
    {values : List GoVal} (member : (elem, v) ∈ elems.zip values) (within : Contains inner value elem v) :
      Contains inner value (.tuple elems rawNames) (.struct fields values)

-- No slice of arrays inside the value is empty.
def HasFirst (t : AbiType) (v : GoVal) : Prop :=
  ∀ (elem : AbiType) (size : Nat) (kind k : GoKind) (items : List GoVal),
    Contains (.slice (.array elem size)) (.seq kind k items) t v → items ≠ []

-- Every array of static tuples has tuples of one word.
def OneWordTuples (t : AbiType) : Prop :=
  ∀ (elems : List AbiType) (rawNames : List String) (size : Nat), Within (.array (.tuple elems rawNames) size) t →
    anyDynamicType elems = false → getTypeSize (.tuple elems rawNames) = 32

mutual

@[simp] def staticSize : AbiType → Nat
  | .array elem size => size * elem.staticSize
  | .tuple elems _ => staticSizes elems
  | _ => 32

@[simp] def staticSizes : List AbiType → Nat
  | [] => 0
  | elem :: elems => elem.staticSize + staticSizes elems

end

mutual

def zero : AbiType → GoVal
  | .int size => .num (reflectIntKind false size) 0
  | .uint size => .num (reflectIntKind true size) 0
  | .bool => .bool false
  | .string => .string []
  | .slice elem => .seq .slice elem.kind []
  | .array elem size => .seq .array elem.kind (List.replicate size elem.zero)
  | .tuple elems rawNames => .struct (rawNames.map structField) (zeros elems)
  | .address => .bytes .array (List.replicate 20 0)
  | .fixedBytes size => .bytes .array (List.replicate size 0)
  | .bytes => .bytes .slice []

def zeros : List AbiType → List GoVal
  | [] => []
  | elem :: elems => elem.zero :: zeros elems

end

theorem zeros_typed {elems : List AbiType} (each : ∀ elem ∈ elems, HasType elem elem.zero) :
    List.Forall₂ HasType elems (zeros elems) := by
  induction elems with
  | nil => exact .nil
  | cons elem elems ih =>
    rw [List.forall_mem_cons] at each
    exact .cons each.1 (ih each.2)

theorem zero_typed (t : AbiType) : HasType t t.zero := by
  induction t with
  | int size =>
    have positive : (0 : Int) < 2 ^ (size - 1) := by positivity
    exact .int (by omega) positive
  | uint size =>
    have positive : (0 : Int) < 2 ^ size := by positivity
    exact .uint (Int.le_refl 0) positive
  | bool => exact .bool false
  | string => exact .string []
  | slice elem _ => exact .slice nofun
  | array elem size ih =>
    have all : ∀ v ∈ List.replicate size elem.zero, HasType elem v := by
      intro v member
      rw [List.eq_of_mem_replicate member]
      exact ih
    have typed := HasType.array all
    rw [List.length_replicate] at typed
    exact typed
  | tuple elems rawNames ih => exact .tuple (zeros_typed ih)
  | address => exact .address List.length_replicate
  | fixedBytes size =>
    have typed := @HasType.fixedBytes (List.replicate size 0)
    rw [List.length_replicate] at typed
    exact typed
  | bytes => exact .bytes []

end AbiType

end CuteEVM
