import CuteEVM.VM.Words

set_option autoImplicit false

namespace CuteEVM

/-! `accounts/abi/type.go` and `accounts/abi/reflect.go`: the argument types and the values that Go has for them. -/

inductive GoKind where
  | uint8 | uint16 | uint32 | uint64
  | int8 | int16 | int32 | int64
  | ptr | bool | string | slice | array | struct
  deriving DecidableEq, Repr

inductive AbiType where
  | int (size : Nat)
  | uint (size : Nat)
  | bool
  | string
  | slice (elem : AbiType)
  | array (elem : AbiType) (size : Nat)
  | tuple (tupleElems : List AbiType) (tupleRawNames : List String)
  | address
  | fixedBytes (size : Nat)
  | bytes
  deriving Repr

structure Argument where
  name : String
  type : AbiType
  indexed : Bool := false

inductive AbiErr where
  | argumentCount (got want : Nat)
  -- `typeErr`; the types in its text are left out.
  | cannotUse
  | tagEmpty (field : String)
  | tagMapped (field : String)
  | tagNotFound (tag : String)
  | purelyUnderscored
  | multipleVariables (argName : String)
  | multipleOutputs (field : String)
  | fieldNotFound (name : String)
  | lengthInsufficient (length require : Nat)
  | overBoundary (offset length : Nat)
  | offsetTooLarge (offset : Nat)
  | lengthTooLarge (length : Nat)
  | badBool
  -- A Go panic: an index or a slice out of range, or a value that is not of the kind that is asked for.
  | panic
  deriving DecidableEq, Repr

structure StructField where
  name : String
  abiTag : Option String := none
  deriving DecidableEq, Repr

-- A value behind `reflect.Value`, with pointers followed. A slice or an array knows the kind of its elements. Those of
-- bytes have a constructor of their own.
inductive GoVal where
  | num (kind : GoKind) (n : Int)
  | bool (b : Bool)
  | string (b : Bytes)
  | bytes (kind : GoKind) (b : Bytes)
  | seq (kind elem : GoKind) (items : List GoVal)
  | struct (fields : List StructField) (values : List GoVal)
  deriving Repr

namespace GoVal

def kind : GoVal → GoKind
  | .num kind _ => kind
  | .bool _ => .bool
  | .string _ => .string
  | .bytes kind _ => kind
  | .seq kind _ _ => kind
  | .struct _ _ => .struct

def items : GoVal → List GoVal
  | .bytes _ b => b.map fun byte => .num .uint8 byte.toNat
  | .seq _ _ items => items
  | _ => []

def elemKind : GoVal → Option GoKind
  | .bytes _ _ => some .uint8
  | .seq _ elem _ => some elem
  | _ => none

def structFields : GoVal → List StructField
  | .struct fields _ => fields
  | _ => []

def structValues : GoVal → List GoVal
  | .struct _ values => values
  | _ => []

def fieldByName (v : GoVal) (name : String) : Option GoVal :=
  ((v.structFields.zip v.structValues).find? fun field => field.1.name = name).map Prod.snd

end GoVal

def reflectIntKind (unsigned : Bool) (size : Nat) : GoKind :=
  match size with
  | 8 => if unsigned then .uint8 else .int8
  | 16 => if unsigned then .uint16 else .int16
  | 32 => if unsigned then .uint32 else .int32
  | 64 => if unsigned then .uint64 else .int64
  | _ => .ptr

def capitalize : List Char → List Char
  | [] => []
  | c :: rest => c.toUpper :: rest

def toCamelCase (input : String) : String :=
  String.ofList ((input.toList.splitOn '_').map capitalize).flatten

namespace AbiType

def kind : AbiType → GoKind
  | .int size => reflectIntKind false size
  | .uint size => reflectIntKind true size
  | .bool => .bool
  | .string => .string
  | .slice _ => .slice
  | .array _ _ => .array
  | .tuple _ _ => .struct
  | .address => .array
  | .fixedBytes _ => .array
  | .bytes => .slice

def isArray : AbiType → Bool
  | .array _ _ => true
  | _ => false

mutual

@[simp] def isDynamicType : AbiType → Bool
  | .tuple elems _ => anyDynamicType elems
  | .string => true
  | .bytes => true
  | .slice _ => true
  | .array elem _ => elem.isDynamicType
  | _ => false

@[simp] def anyDynamicType : List AbiType → Bool
  | [] => false
  | elem :: elems => elem.isDynamicType || anyDynamicType elems

end

mutual

@[simp] def getTypeSize : AbiType → Nat
  | .array elem size =>
    if elem.isDynamicType then 32
    -- Only a nested array is measured; any other element counts as one word.
    else if elem.isArray then size * elem.getTypeSize
    else size * 32
  | .tuple elems _ => if anyDynamicType elems then 32 else getTypeSizes elems
  | _ => 32

@[simp] def getTypeSizes : List AbiType → Nat
  | [] => 0
  | elem :: elems => elem.getTypeSize + getTypeSizes elems

end

-- The field that a component of a tuple has in its Go type. It has no tag for this package.
def structField (rawName : String) : StructField := ⟨toCamelCase rawName, none⟩

end AbiType

end CuteEVM
