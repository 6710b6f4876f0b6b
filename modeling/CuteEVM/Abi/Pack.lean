import CuteEVM.Abi.Types
import Mathlib.Logic.Function.Basic

set_option autoImplicit false

namespace CuteEVM

/-! `accounts/abi/error.go`, `accounts/abi/pack.go` and the packing half of `accounts/abi/type.go` and `argument.go`. -/

def elemKindCheck (elem : AbiType) (val : GoVal) : Except AbiErr Unit :=
  if val.elemKind = some elem.kind then .ok () else .error .cannotUse

-- The elements are checked through the first one. Of a slice of arrays it is taken without asking whether it is there.
def sliceElemCheck (elem : AbiType) (check : GoVal → Except AbiErr Unit) (val : GoVal) : Except AbiErr Unit :=
  match elem, val.items with
  | .slice _, first :: _ => check first
  | .array _ _, first :: _ => check first
  | .array _ _, [] => .error .panic
  | elem, _ => elemKindCheck elem val

def sliceTypeCheck : AbiType → GoVal → Except AbiErr Unit
  | .slice elem, val =>
    if val.kind ≠ .slice ∧ val.kind ≠ .array then .error .cannotUse
    else sliceElemCheck elem (sliceTypeCheck elem) val
  | .array elem size, val =>
    if val.kind ≠ .slice ∧ val.kind ≠ .array then .error .cannotUse
    else if val.items.length ≠ size then .error .cannotUse
    else sliceElemCheck elem (sliceTypeCheck elem) val
  | _, _ => .ok ()

def typeCheck (t : AbiType) (value : GoVal) : Except AbiErr Unit :=
  match t with
  | .slice _ => sliceTypeCheck t value
  | .array _ _ => sliceTypeCheck t value
  | .fixedBytes size =>
    if t.kind ≠ value.kind then .error .cannotUse
    else if size ≠ value.items.length then .error .cannotUse
    else .ok ()
  | t => if t.kind ≠ value.kind then .error .cannotUse else .ok ()

-- The two maps of `mapArgNamesToStructFields`. What is not in a map is the empty string.
structure FieldMap where
  abi2struct : String → String := fun _ => ""
  struct2abi : String → String := fun _ => ""

def FieldMap.pair (maps : FieldMap) (argName structFieldName : String) : FieldMap :=
  ⟨Function.update maps.abi2struct argName structFieldName, Function.update maps.struct2abi structFieldName argName⟩

def isPrivate (structFieldName : String) : Bool :=
  structFieldName.toList.take 1 ≠ (structFieldName.toList.take 1).map Char.toUpper

def mapTag (field : StructField) (tagName : String) : List String → FieldMap → Except AbiErr FieldMap
  | [], maps => .ok maps
  | arg :: args, maps =>
    if arg = tagName then
      if maps.abi2struct arg ≠ "" then .error (.tagMapped field.name)
      else mapTag field tagName args (maps.pair arg field.name)
    else mapTag field tagName args maps

def mapTags (argNames : List String) : List StructField → FieldMap → Except AbiErr FieldMap
  | [], maps => .ok maps
  | field :: fields, maps =>
    if isPrivate field.name then mapTags argNames fields maps
    else match field.abiTag with
      | none => mapTags argNames fields maps
      | some tagName =>
        if tagName = "" then .error (.tagEmpty field.name)
        else do
          let maps ← mapTag field tagName argNames maps
          if tagName ∈ argNames then mapTags argNames fields maps else .error (.tagNotFound tagName)

def mapNames (value : GoVal) : List String → FieldMap → Except AbiErr FieldMap
  | [], maps => .ok maps
  | argName :: argNames, maps =>
    let structFieldName := toCamelCase argName
    let isValid := (value.fieldByName structFieldName).isSome
    if structFieldName = "" then .error .purelyUnderscored
    else if maps.abi2struct argName ≠ "" then
      if maps.abi2struct argName ≠ structFieldName ∧ maps.struct2abi structFieldName = "" ∧ isValid then
        .error (.multipleVariables argName)
      else mapNames value argNames maps
    else if maps.struct2abi structFieldName ≠ "" then .error (.multipleOutputs structFieldName)
    else if isValid then mapNames value argNames (maps.pair argName structFieldName)
    -- Not paired, but noted as used.
    else mapNames value argNames { maps with struct2abi := Function.update maps.struct2abi structFieldName argName }

def mapArgNamesToStructFields (argNames : List String) (value : GoVal) : Except AbiErr (String → String) := do
  let maps ← mapTags argNames value.structFields {}
  let maps ← mapNames value argNames maps
  pure maps.abi2struct

-- `U256`: the two's complement of a number, as one word.
def packU256 (n : Int) : Bytes := bigEndian 32 (n % 2 ^ 256).toNat

def packLen (n : Nat) : Bytes := packU256 n

def packNum : GoVal → Except AbiErr Bytes
  | .num _ n => .ok (packU256 n)
  | _ => .error .panic

def packBytesSlice (bytes : Bytes) (l : Nat) : Bytes :=
  packLen l ++ rightPadded bytes ((l + 31) / 32 * 32)

def packElement (t : AbiType) (value : GoVal) : Except AbiErr Bytes :=
  match t, value with
  | .int _, value => packNum value
  | .uint _, value => packNum value
  | .string, .string b => .ok (packBytesSlice b b.length)
  | .address, .bytes _ b => .ok (leftPadded b 32)
  | .bool, .bool b => .ok (packU256 (if b then 1 else 0))
  | .bytes, .bytes _ b => .ok (packBytesSlice b b.length)
  | .fixedBytes _, .bytes _ b => .ok (rightPadded b 32)
  | _, _ => .error .panic

-- The output of a loop that packs components: the heads, the tails, and the offset of the next tail.
structure Packing where
  ret : Bytes
  tail : Bytes := []
  offset : Nat

def Packing.add (p : Packing) (dynamic : Bool) (val : Bytes) : Packing :=
  if dynamic then ⟨p.ret ++ packLen p.offset, p.tail ++ val, p.offset + val.length⟩
  else { p with ret := p.ret ++ val }

def packElems (pack : GoVal → Except AbiErr Bytes) (offsetReq : Bool) : List GoVal → Packing → Except AbiErr Packing
  | [], p => .ok p
  | v :: vs, p => do
    let val ← pack v
    packElems pack offsetReq vs (p.add offsetReq val)

def packSeq (ret : Bytes) (elem : AbiType) (pack : GoVal → Except AbiErr Bytes) (v : GoVal) : Except AbiErr Bytes := do
  let offset := if elem.isDynamicType then elem.getTypeSize * v.items.length else 0
  let p ← packElems pack elem.isDynamicType v.items { ret := ret, offset := offset }
  pure (p.ret ++ p.tail)

mutual

@[simp] def AbiType.pack : AbiType → GoVal → Except AbiErr Bytes
  | .slice elem, v => do
    typeCheck (.slice elem) v
    packSeq (packLen v.items.length) elem elem.pack v
  | .array elem size, v => do
    typeCheck (.array elem size) v
    packSeq [] elem elem.pack v
  | .tuple elems rawNames, v => do
    typeCheck (.tuple elems rawNames) v
    let fieldmap ← mapArgNamesToStructFields rawNames v
    let p ← packFields v fieldmap elems rawNames { ret := [], offset := AbiType.getTypeSizes elems }
    pure (p.ret ++ p.tail)
  | t, v => do
    typeCheck t v
    packElement t v

@[simp] def packFields (v : GoVal) (fieldmap : String → String) : List AbiType → List String → Packing → Except AbiErr Packing
  | [], _, p => .ok p
  | _ :: _, [], _ => .error .panic
  | elem :: elems, rawName :: rawNames, p =>
    match v.fieldByName (fieldmap rawName) with
    | none => .error (.fieldNotFound rawName)
    | some field => do
      let val ← elem.pack field
      packFields v fieldmap elems rawNames (p.add elem.isDynamicType val)

end

def packArgs : List Argument → List GoVal → Packing → Except AbiErr Packing
  | input :: inputs, a :: args, p => do
    let packed ← input.type.pack a
    packArgs inputs args (p.add input.type.isDynamicType packed)
  | _, _, p => .ok p

def packArguments (arguments : List Argument) (args : List GoVal) : Except AbiErr Bytes :=
  if args.length ≠ arguments.length then .error (.argumentCount args.length arguments.length)
  else do
    let p ← packArgs arguments args { ret := [], offset := AbiType.getTypeSizes (arguments.map Argument.type) }
    pure (p.ret ++ p.tail)

end CuteEVM
