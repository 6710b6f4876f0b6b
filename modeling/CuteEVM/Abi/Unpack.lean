import CuteEVM.Abi.Types

set_option autoImplicit false

namespace CuteEVM

/-! `accounts/abi/unpack.go` and the unpacking half of `argument.go`. -/

def readSigned (width : Nat) (b : Bytes) : Int :=
  let n := setBytes (b.drop (b.length - width))
  if n < 2 ^ (8 * width - 1) then n else n - 2 ^ (8 * width)

def readUnsigned (width : Nat) (b : Bytes) : Int := setBytes (b.drop (b.length - width))

def maxUint256 : Int := 2 ^ 256 - 1

def maxInt256 : Int := 2 ^ 255 - 1

def readInteger (unsigned : Bool) (kind : GoKind) (b : Bytes) : GoVal :=
  match kind with
  | .uint8 => .num .uint8 (readUnsigned 1 b)
  | .uint16 => .num .uint16 (readUnsigned 2 b)
  | .uint32 => .num .uint32 (readUnsigned 4 b)
  | .uint64 => .num .uint64 (readUnsigned 8 b)
  | .int8 => .num .int8 (readSigned 1 b)
  | .int16 => .num .int16 (readSigned 2 b)
  | .int32 => .num .int32 (readSigned 4 b)
  | .int64 => .num .int64 (readSigned 8 b)
  | _ =>
    let ret : Int := setBytes b
    if unsigned then .num .ptr ret
    else if ret > maxInt256 then .num .ptr (-(maxUint256 + -ret + 1))
    else .num .ptr ret

def readBool (word : Bytes) : Except AbiErr GoVal :=
  if (word.take 31).any (· ≠ 0) then .error .badBool
  else match word.getD 31 0 with
    | 0 => .ok (.bool false)
    | 1 => .ok (.bool true)
    | _ => .error .badBool

def readFixedBytes (size : Nat) (word : Bytes) : Except AbiErr GoVal :=
  if size > word.length then .error .panic else .ok (.bytes .array (word.take size))

def wordAt (index : Nat) (output : Bytes) : Except AbiErr Bytes :=
  if index + 32 > output.length then .error (.lengthInsufficient output.length (index + 32))
  else .ok ((output.drop index).take 32)

def lengthPrefixPointsTo (index : Nat) (output : Bytes) : Except AbiErr (Nat × Nat) :=
  let bigOffsetEnd := setBytes ((output.drop index).take 32) + 32
  if bigOffsetEnd > output.length then .error (.overBoundary bigOffsetEnd output.length)
  else if bigOffsetEnd ≥ 2 ^ 63 then .error (.offsetTooLarge bigOffsetEnd)
  else
    let lengthBig := setBytes ((output.drop (bigOffsetEnd - 32)).take 32)
    let totalSize := bigOffsetEnd + lengthBig
    if totalSize ≥ 2 ^ 63 then .error (.lengthTooLarge totalSize)
    else if totalSize > output.length then .error (.lengthInsufficient output.length totalSize)
    else .ok (bigOffsetEnd, lengthBig)

def tuplePointsTo (index : Nat) (output : Bytes) : Except AbiErr Nat :=
  let offset := setBytes ((output.drop index).take 32)
  if offset > output.length then .error (.overBoundary offset output.length)
  else if offset ≥ 2 ^ 63 then .error (.offsetTooLarge offset)
  else .ok offset

-- The offset of an array is the low end of its word, as an `int64`, and is not checked.
def arrayPointsTo (word output : Bytes) : Except AbiErr Nat :=
  let offset := setBytes (word.drop 24)
  if offset ≥ 2 ^ 63 ∨ offset > output.length then .error .panic else .ok offset

def unpackElems (toGoType : Nat → Bytes → Except AbiErr GoVal) (elemSize : Nat) (output : Bytes) :
    (i size : Nat) → Except AbiErr (List GoVal)
  | _, 0 => .ok []
  | i, size + 1 => do
    let inter ← toGoType i output
    let rest ← unpackElems toGoType elemSize output (i + elemSize) size
    pure (inter :: rest)

-- The sum is an `int` in the source, as `Checked.forEachUnpack` has it. The two agree for sizes within bounds.
def forEachUnpack (kind : GoKind) (elem : AbiType) (toGoType : Nat → Bytes → Except AbiErr GoVal) (output : Bytes)
    (start size : Nat) : Except AbiErr GoVal :=
  if start + 32 * size > output.length then .error (.overBoundary output.length (start + 32 * size))
  else do
    let items ← unpackElems toGoType elem.getTypeSize output start size
    pure (.seq kind elem.kind items)

def virtualArgs (elem : AbiType) : Nat :=
  match elem with
  | .array _ _ => if elem.isDynamicType then 0 else elem.getTypeSize / 32 - 1
  | .tuple _ _ => if elem.isDynamicType then 0 else elem.getTypeSize / 32 - 1
  | _ => 0

mutual

@[simp] def toGoType : AbiType → Nat → Bytes → Except AbiErr GoVal
  | .tuple elems rawNames, index, output => do
    let _ ← wordAt index output
    if AbiType.anyDynamicType elems then do
      let start ← tuplePointsTo index output
      let values ← forTupleUnpack elems 0 0 (output.drop start)
      pure (.struct (rawNames.map AbiType.structField) values)
    else do
      let values ← forTupleUnpack elems 0 0 (output.drop index)
      pure (.struct (rawNames.map AbiType.structField) values)
  | .slice elem, index, output => do
    let _ ← wordAt index output
    let (start, length) ← lengthPrefixPointsTo index output
    forEachUnpack .slice elem (toGoType elem) (output.drop start) 0 length
  | .array elem size, index, output => do
    let returnOutput ← wordAt index output
    if elem.isDynamicType then do
      let offset ← arrayPointsTo returnOutput output
      forEachUnpack .array elem (toGoType elem) (output.drop offset) 0 size
    else forEachUnpack .array elem (toGoType elem) (output.drop index) 0 size
  | .string, index, output => do
    let _ ← wordAt index output
    let (start, length) ← lengthPrefixPointsTo index output
    pure (.string ((output.drop start).take length))
  | .int size, index, output => do
    let returnOutput ← wordAt index output
    pure (readInteger false (reflectIntKind false size) returnOutput)
  | .uint size, index, output => do
    let returnOutput ← wordAt index output
    pure (readInteger true (reflectIntKind true size) returnOutput)
  | .bool, index, output => do
    let returnOutput ← wordAt index output
    readBool returnOutput
  | .address, index, output => do
    let returnOutput ← wordAt index output
    pure (.bytes .array (returnOutput.drop (returnOutput.length - 20)))
  | .bytes, index, output => do
    let _ ← wordAt index output
    let (start, length) ← lengthPrefixPointsTo index output
    pure (.bytes .slice ((output.drop start).take length))
  | .fixedBytes size, index, output => do
    let returnOutput ← wordAt index output
    readFixedBytes size returnOutput

@[simp] def forTupleUnpack : List AbiType → (index virtual : Nat) → Bytes → Except AbiErr (List GoVal)
  | [], _, _, _ => .ok []
  | elem :: elems, index, virtual, output => do
    let marshalledValue ← toGoType elem ((index + virtual) * 32) output
    let rest ← forTupleUnpack elems (index + 1) (virtual + virtualArgs elem) output
    pure (marshalledValue :: rest)

end

def nonIndexed (arguments : List Argument) : List Argument := arguments.filter fun arg => !arg.indexed

def unpackValues (arguments : List Argument) (data : Bytes) : Except AbiErr (List GoVal) :=
  forTupleUnpack ((nonIndexed arguments).map Argument.type) 0 0 data

end CuteEVM
