import CuteEVM.Abi.Unpack
import CuteEVM.Abi.Values
import CuteEVM.Rlp.Writing

set_option autoImplicit false

-- The functions of `accounts/abi/unpack.go` once more, with the slices that Go checks, the arithmetic of its integers and
-- its allocations.

namespace CuteEVM

namespace AbiType

def roundUp (n align : Nat) : Nat := (n + align - 1) / align * align

def intMemory : GoKind → Nat
  | .uint8 | .int8 => 1
  | .uint16 | .int16 => 2
  | .uint32 | .int32 => 4
  | _ => 8

mutual

-- The size and the alignment of the Go type.
def layout : AbiType → Nat × Nat
  | .int size => (intMemory (reflectIntKind false size), intMemory (reflectIntKind false size))
  | .uint size => (intMemory (reflectIntKind true size), intMemory (reflectIntKind true size))
  | .bool => (1, 1)
  | .string => (16, 8)
  | .slice _ | .bytes => (24, 8)
  | .address => (20, 1)
  | .fixedBytes size => (size, 1)
  | .array elem size => (size * elem.layout.1, elem.layout.2)
  | .tuple elems _ =>
    let (offset, align) := fieldsLayout elems (0, 1)
    (roundUp offset align, align)

def fieldsLayout : List AbiType → Nat × Nat → Nat × Nat
  | [], before => before
  | elem :: elems, (offset, align) =>
    fieldsLayout elems (roundUp offset elem.layout.2 + elem.layout.1, max align elem.layout.2)

end

def memory (t : AbiType) : Nat := t.layout.1

end AbiType

namespace Checked

def allocate (bytes : Nat) : Except AbiErr Unit := if bytes ≤ maxAlloc then .ok () else .error .panic

def slice (b : Bytes) (low high : Int) : Except AbiErr Bytes :=
  if 0 ≤ low ∧ low ≤ high ∧ high ≤ b.length then .ok ((b.drop low.toNat).take (high - low).toNat) else .error .panic

def last (b : Bytes) (n : Nat) : Except AbiErr Bytes := slice b (b.length - n) b.length

def readInteger (unsigned : Bool) (kind : GoKind) (b : Bytes) : Except AbiErr GoVal := do
  let low ← match kind with
    | .uint8 | .int8 => last b 1
    | .uint16 | .int16 => last b 2
    | .uint32 | .int32 => last b 4
    | .uint64 | .int64 => last b 8
    | _ => pure b
  pure (CuteEVM.readInteger unsigned kind low)

def readBool (word : Bytes) : Except AbiErr GoVal := do
  let front ← slice word 0 31
  if front.any (· ≠ 0) then .error .badBool
  else match (word[31]? : Option UInt8) with
    | none => .error .panic
    | some b =>
      match b with
      | 0 => .ok (.bool false)
      | 1 => .ok (.bool true)
      | _ => .error .badBool

def readFixedBytes (size : Nat) (word : Bytes) : Except AbiErr GoVal := do
  let array ← slice word 0 size
  pure (.bytes .array array)

-- The first check of `toGoType`.
def required (index : Int) (output : Bytes) : Except AbiErr Unit :=
  if int64 (index + 32) > output.length then .error (.lengthInsufficient output.length (int64 (index + 32)).toNat) else .ok ()

def lengthPrefixPointsTo (index : Int) (output : Bytes) : Except AbiErr (Nat × Nat) := do
  let word ← slice output index (int64 (index + 32))
  let bigOffsetEnd := setBytes word + 32
  if bigOffsetEnd > output.length then .error (.overBoundary bigOffsetEnd output.length)
  else if bigOffsetEnd ≥ 2 ^ 63 then .error (.offsetTooLarge bigOffsetEnd)
  else do
    let prefixed ← slice output (bigOffsetEnd - 32) bigOffsetEnd
    let lengthBig := setBytes prefixed
    let totalSize := bigOffsetEnd + lengthBig
    if totalSize ≥ 2 ^ 63 then .error (.lengthTooLarge totalSize)
    else if totalSize > output.length then .error (.lengthInsufficient output.length totalSize)
    else .ok (bigOffsetEnd, lengthBig)

def tuplePointsTo (index : Int) (output : Bytes) : Except AbiErr Nat := do
  let word ← slice output index (int64 (index + 32))
  let offset := setBytes word
  if offset > output.length then .error (.overBoundary offset output.length)
  else if offset ≥ 2 ^ 63 then .error (.offsetTooLarge offset)
  else .ok offset

def unpackElems (toGoType : Int → Bytes → Except AbiErr GoVal) (elemSize : Int) (output : Bytes) :
    (i : Int) → (size : Nat) → Except AbiErr (List GoVal)
  | _, 0 => .ok []
  | i, size + 1 => do
    let inter ← toGoType i output
    let rest ← unpackElems toGoType elemSize output (int64 (i + elemSize)) size
    pure (inter :: rest)

def forEachUnpack (kind : GoKind) (elem : AbiType) (toGoType : Int → Bytes → Except AbiErr GoVal) (output : Bytes) (start : Int)
    (size : Nat) : Except AbiErr GoVal :=
  if int64 (start + 32 * size) > output.length then .error (.overBoundary output.length (int64 (start + 32 * size)).toNat)
  else do
    allocate (size * elem.memory)
    let items ← unpackElems toGoType (int64 elem.getTypeSize) output start size
    pure (.seq kind elem.kind items)

def virtualArgs (elem : AbiType) : Int :=
  match elem with
  | .array _ _ => if elem.isDynamicType then 0 else (int64 elem.getTypeSize).tdiv 32 - 1
  | .tuple _ _ => if elem.isDynamicType then 0 else (int64 elem.getTypeSize).tdiv 32 - 1
  | _ => 0

mutual

def toGoType : AbiType → Int → Bytes → Except AbiErr GoVal
  | .tuple elems rawNames, index, output => do
    required index output
    let _ ← slice output index (int64 (index + 32))
    let inner ← if AbiType.anyDynamicType elems then do
        let start ← tuplePointsTo index output
        slice output start output.length
      else slice output index output.length
    allocate (AbiType.tuple elems rawNames).memory
    let values ← forTupleUnpack elems 0 0 inner
    pure (.struct (rawNames.map AbiType.structField) values)
  | .slice elem, index, output => do
    required index output
    let (start, length) ← lengthPrefixPointsTo index output
    let inner ← slice output start output.length
    forEachUnpack .slice elem (toGoType elem) inner 0 length
  | .array elem size, index, output => do
    required index output
    let returnOutput ← slice output index (int64 (index + 32))
    -- the offset is not checked
    let inner ← if elem.isDynamicType then do
        let low ← last returnOutput 8
        slice output (int64 (setBytes low)) output.length
      else slice output index output.length
    forEachUnpack .array elem (toGoType elem) inner 0 size
  | .string, index, output => do
    required index output
    let (start, length) ← lengthPrefixPointsTo index output
    let b ← slice output start (start + length)
    pure (.string b)
  | .int size, index, output => do
    required index output
    let returnOutput ← slice output index (int64 (index + 32))
    readInteger false (reflectIntKind false size) returnOutput
  | .uint size, index, output => do
    required index output
    let returnOutput ← slice output index (int64 (index + 32))
    readInteger true (reflectIntKind true size) returnOutput
  | .bool, index, output => do
    required index output
    let returnOutput ← slice output index (int64 (index + 32))
    readBool returnOutput
  | .address, index, output => do
    required index output
    let returnOutput ← slice output index (int64 (index + 32))
    pure (.bytes .array (returnOutput.drop (returnOutput.length - 20)))
  | .bytes, index, output => do
    required index output
    let (start, length) ← lengthPrefixPointsTo index output
    let b ← slice output start (start + length)
    pure (.bytes .slice b)
  | .fixedBytes size, index, output => do
    required index output
    let returnOutput ← slice output index (int64 (index + 32))
    readFixedBytes size returnOutput

def forTupleUnpack : List AbiType → (index : Nat) → (virtual : Int) → Bytes → Except AbiErr (List GoVal)
  | [], _, _, _ => .ok []
  | elem :: elems, index, virtual, output => do
    let marshalledValue ← toGoType elem (int64 ((index + virtual) * 32)) output
    let rest ← forTupleUnpack elems (index + 1) (int64 (virtual + virtualArgs elem)) output
    pure (marshalledValue :: rest)

end

def unpackValues (arguments : List Argument) (data : Bytes) : Except AbiErr (List GoVal) :=
  forTupleUnpack ((nonIndexed arguments).map Argument.type) 0 0 data

-- Arrays and tuples have elements, and what belongs to a type is small enough: its arrays, its share of an encoding, and its
-- values in memory, also as many of them as an input of this length has words.
structure Modest (room : Nat) (t : AbiType) : Prop where
  some : 32 ≤ t.getTypeSize
  head : t.getTypeSize ≤ maxAlloc
  memory : max 1 (room / 32) * t.memory ≤ maxAlloc
  count : ∀ elem size, t = .array elem size → size ≤ maxAlloc

def Bounded (room : Nat) (t : AbiType) : Prop := ∀ u, AbiType.Within u t → Modest room u

section Agreement

variable {b output : Bytes} {index low high : Nat}

theorem slice_eq {lo hi : Int} (start : lo = low) (stop : hi = high) (ordered : low ≤ high) (inside : high ≤ b.length) :
    slice b lo hi = .ok ((b.drop low).take (high - low)) := by
  subst start stop
  rw [slice, if_pos (by omega), Int.toNat_natCast, ← Int.natCast_sub ordered, Int.toNat_natCast]

theorem slice_rest (inside : low ≤ b.length) : slice b low b.length = .ok (b.drop low) := by
  rw [slice_eq rfl rfl inside (Nat.le_refl _), List.take_of_length_le (Nat.le_of_eq List.length_drop)]

theorem last_eq {n : Nat} (enough : n ≤ b.length) : last b n = .ok (b.drop (b.length - n)) := by
  rw [last, ← Int.natCast_sub enough, slice_rest (Nat.sub_le _ _)]

theorem int64_nat {n : Nat} (small : n < 2 ^ 63) : int64 n = n := int64_eq (by omega) (by omega)

theorem word_slice (small : index + 32 < 2 ^ 63) (there : index + 32 ≤ output.length) :
    slice output index (int64 (index + 32)) = .ok ((output.drop index).take 32) := by
  have stop : int64 ((index : Int) + 32) = (index + 32 : Nat) := int64_nat small
  rw [slice_eq rfl stop (Nat.le_add_right _ _) there, Nat.add_sub_cancel_left]

theorem required_eq {α : Type} (small : index + 32 < 2 ^ 63) {next : Except AbiErr α} {plain : Bytes → Except AbiErr α}
    (same : index + 32 ≤ output.length → next = plain ((output.drop index).take 32)) :
    (required index output >>= fun _ => next) = wordAt index output >>= plain := by
  have sum : int64 ((index : Int) + 32) = (index + 32 : Nat) := int64_nat small
  unfold required wordAt
  rw [sum]
  by_cases there : index + 32 ≤ output.length
  · rw [if_neg (by omega), if_neg (by omega)]
    exact same there
  · rw [if_pos (by omega), if_pos (by omega)]
    rfl

theorem lengthPrefixPointsTo_eq (small : index + 32 < 2 ^ 63) (there : index + 32 ≤ output.length) :
    lengthPrefixPointsTo index output = CuteEVM.lengthPrefixPointsTo index output := by
  unfold lengthPrefixPointsTo CuteEVM.lengthPrefixPointsTo
  rw [word_slice small there]
  show (if _ then _ else _) = _
  dsimp only
  generalize setBytes ((output.drop index).take 32) = offset
  split
  · rfl
  · split
    · rfl
    · have before : ((offset + 32 : Nat) : Int) - 32 = offset := by omega
      rw [slice_eq before rfl (Nat.le_add_right _ _) (by omega), Nat.add_sub_cancel, Nat.add_sub_cancel_left]
      rfl

theorem tuplePointsTo_eq (small : index + 32 < 2 ^ 63) (there : index + 32 ≤ output.length) :
    tuplePointsTo index output = CuteEVM.tuplePointsTo index output := by
  unfold tuplePointsTo CuteEVM.tuplePointsTo
  rw [word_slice small there]
  rfl

theorem lengthPrefixPointsTo_inside {start length : Nat}
    (points : CuteEVM.lengthPrefixPointsTo index output = .ok (start, length)) :
    start + length ≤ output.length := by
  unfold CuteEVM.lengthPrefixPointsTo at points
  dsimp only at points
  split at points
  · cases points
  · split at points
    · cases points
    · split at points
      · cases points
      · split at points
        · cases points
        · cases points
          omega

theorem tuplePointsTo_inside {start : Nat} (points : CuteEVM.tuplePointsTo index output = .ok start) : start ≤ output.length := by
  unfold CuteEVM.tuplePointsTo at points
  dsimp only at points
  split at points
  · cases points
  · split at points
    · cases points
    · cases points
      omega

theorem arrayAt_eq {α : Type} {word : Bytes} (length : word.length = 32) (next : Bytes → Except AbiErr α) :
    (last word 8 >>= fun low => slice output (int64 (setBytes low)) output.length >>= next) =
      arrayPointsTo word output >>= fun offset => next (output.drop offset) := by
  have bound : setBytes (word.drop 24) < 256 ^ 8 := by
    have read := BigEndian.read_lt (word.drop 24)
    rwa [List.length_drop, length, ← setBytes_eq] at read
  rw [last_eq (by omega), ok_bind, length, show 32 - 8 = 24 from rfl]
  unfold arrayPointsTo
  dsimp only
  generalize setBytes (word.drop 24) = offset at bound
  by_cases inside : offset < 2 ^ 63 ∧ offset ≤ output.length
  · rw [if_neg (by omega), int64_nat inside.1, slice_rest inside.2]
    rfl
  · have outside : int64 offset < 0 ∨ (output.length : Int) < int64 offset := by
      unfold int64
      rw [Int.bmod_def]
      omega
    rw [if_pos (by omega), slice, if_neg (by omega)]
    rfl

theorem readUnsigned_last {width : Nat} (enough : width ≤ b.length) :
    readUnsigned width (b.drop (b.length - width)) = readUnsigned width b := by
  unfold readUnsigned
  rw [List.length_drop, Nat.sub_sub_self enough, Nat.sub_self, List.drop_zero]

theorem readSigned_last {width : Nat} (enough : width ≤ b.length) :
    readSigned width (b.drop (b.length - width)) = readSigned width b := by
  unfold readSigned
  rw [List.length_drop, Nat.sub_sub_self enough, Nat.sub_self, List.drop_zero]

theorem readInteger_eq (length : b.length = 32) (unsigned : Bool) (kind : GoKind) :
    readInteger unsigned kind b = .ok (CuteEVM.readInteger unsigned kind b) := by
  have taken : ∀ {width : Nat}, width ≤ 32 → last b width = .ok (b.drop (b.length - width)) := fun low => last_eq (by omega)
  unfold readInteger
  cases kind with
  | uint8 | uint16 | uint32 | uint64 =>
    simp only [taken (show 1 ≤ 32 by decide), taken (show 2 ≤ 32 by decide), taken (show 4 ≤ 32 by decide),
      taken (show 8 ≤ 32 by decide)]
    show Except.ok (CuteEVM.readInteger _ _ _) = _
    simp only [CuteEVM.readInteger, readUnsigned_last (show 1 ≤ b.length by omega), readUnsigned_last (show 2 ≤ b.length by omega),
      readUnsigned_last (show 4 ≤ b.length by omega), readUnsigned_last (show 8 ≤ b.length by omega)]
  | int8 | int16 | int32 | int64 =>
    simp only [taken (show 1 ≤ 32 by decide), taken (show 2 ≤ 32 by decide), taken (show 4 ≤ 32 by decide),
      taken (show 8 ≤ 32 by decide)]
    show Except.ok (CuteEVM.readInteger _ _ _) = _
    simp only [CuteEVM.readInteger, readSigned_last (show 1 ≤ b.length by omega), readSigned_last (show 2 ≤ b.length by omega),
      readSigned_last (show 4 ≤ b.length by omega), readSigned_last (show 8 ≤ b.length by omega)]
  | _ => rfl

theorem readBool_eq (length : b.length = 32) : readBool b = CuteEVM.readBool b := by
  have there : b[31]? = some (b.getD 31 0) := by
    rw [List.getD_eq_getElem?_getD, List.getElem?_eq_getElem (by omega), Option.getD_some]
  unfold readBool
  rw [@slice_eq b 0 31 0 31 rfl rfl (Nat.zero_le _) (by omega)]
  show (if _ then _ else _) = _
  rw [List.drop_zero, there]
  rfl

theorem readFixedBytes_eq (size : Nat) : readFixedBytes size b = CuteEVM.readFixedBytes size b := by
  unfold readFixedBytes CuteEVM.readFixedBytes
  by_cases large : size > b.length
  · rw [if_pos large, slice, if_neg (by omega)]
    rfl
  · rw [if_neg large, @slice_eq b 0 size 0 size rfl rfl (Nat.zero_le _) (by omega)]
    rfl

theorem word_length (there : index + 32 ≤ output.length) : ((output.drop index).take 32).length = 32 := by
  rw [List.length_take, List.length_drop]
  omega

theorem read_eq {α : Type} (small : index + 32 < 2 ^ 63) {next plain : Bytes → Except AbiErr α}
    (same : ∀ word : Bytes, word.length = 32 → next word = plain word) :
    (required index output >>= fun _ => slice output index (int64 (index + 32)) >>= next) = wordAt index output >>= plain := by
  refine required_eq small fun there => ?_
  rw [word_slice small there]
  exact same _ (word_length there)

theorem prefixed_eq {α : Type} (small : index + 32 < 2 ^ 63) {next plain : Nat × Nat → Except AbiErr α}
    (same : ∀ start length, start + length ≤ output.length → next (start, length) = plain (start, length)) :
    (required index output >>= fun _ => lengthPrefixPointsTo index output >>= next) =
      wordAt index output >>= fun _ => CuteEVM.lengthPrefixPointsTo index output >>= plain := by
  refine required_eq small fun there => ?_
  rw [lengthPrefixPointsTo_eq small there]
  cases points : CuteEVM.lengthPrefixPointsTo index output with
  | error err => rfl
  | ok pair => exact same pair.1 pair.2 (lengthPrefixPointsTo_inside points)

theorem toGoType_there {t : AbiType} {v : GoVal} (unpacked : CuteEVM.toGoType t index output = .ok v) :
    index + 32 ≤ output.length := by
  by_contra short
  have missing : wordAt index output = .error (.lengthInsufficient output.length (index + 32)) := if_pos (by omega)
  cases t <;>
    · rw [CuteEVM.toGoType, missing] at unpacked
      cases unpacked

variable {room : Nat} {elem : AbiType}

theorem Modest.allocates (modest : Modest room elem) {n : Nat} (few : n ≤ max 1 (room / 32)) :
    allocate (n * elem.memory) = .ok () :=
  if_pos (Nat.le_trans (Nat.mul_le_mul_right _ few) modest.memory)

theorem virtualArgs_eq (modest : Modest room elem) : virtualArgs elem = CuteEVM.virtualArgs elem := by
  have some := modest.some
  have head := modest.head
  unfold maxAlloc at head
  have whole : (int64 elem.getTypeSize).tdiv 32 - 1 = ((elem.getTypeSize / 32 - 1 : Nat) : Int) := by
    rw [int64_nat (by omega), Int.tdiv_eq_ediv_of_nonneg (by omega)]
    omega
  cases elem with
  | array | tuple =>
    unfold virtualArgs CuteEVM.virtualArgs
    dsimp only
    rw [whole]
    split <;> rfl
  | _ => rfl

theorem virtualArgs_le (elem : AbiType) : 32 * CuteEVM.virtualArgs elem ≤ elem.getTypeSize := by
  unfold CuteEVM.virtualArgs
  split
  · split <;> omega
  · split <;> omega
  · omega

theorem unpackElems_eq (short : room ≤ maxAlloc) (fits : output.length ≤ room) (modest : Modest room elem)
    (each : ∀ i : Nat, i + 32 < 2 ^ 63 → toGoType elem i output = CuteEVM.toGoType elem i output) (n i : Nat)
    (small : i + 32 < 2 ^ 63) :
    unpackElems (toGoType elem) (int64 elem.getTypeSize) output i n =
      CuteEVM.unpackElems (CuteEVM.toGoType elem) elem.getTypeSize output i n := by
  have head := modest.head
  have limit : maxAlloc = 2 ^ 48 := rfl
  induction n generalizing i with
  | zero => rfl
  | succ n ih =>
    rw [unpackElems, CuteEVM.unpackElems, each i small]
    cases unpacked : CuteEVM.toGoType elem i output with
    | error err => rfl
    | ok v =>
      have there := toGoType_there unpacked
      have next : int64 (i + int64 elem.getTypeSize) = (i + elem.getTypeSize : Nat) := by
        rw [int64_nat (by omega), ← Nat.cast_add, int64_nat (by omega)]
      show (unpackElems _ _ output (int64 (i + int64 elem.getTypeSize)) n >>= _) = _
      rw [next, ih _ (by omega)]
      rfl

theorem forEachUnpack_eq (short : room ≤ maxAlloc) (fits : output.length ≤ room) (modest : Modest room elem)
    (each : ∀ i : Nat, i + 32 < 2 ^ 63 → toGoType elem i output = CuteEVM.toGoType elem i output) (kind : GoKind) {size : Nat}
    (count : size ≤ maxAlloc) (allocated : 32 * size ≤ output.length → allocate (size * elem.memory) = .ok ()) :
    forEachUnpack kind elem (toGoType elem) output 0 size =
      CuteEVM.forEachUnpack kind elem (CuteEVM.toGoType elem) output 0 size := by
  have limit : maxAlloc = 2 ^ 48 := rfl
  have stop : int64 (0 + 32 * (size : Int)) = (0 + 32 * size : Nat) := (int64_eq (by omega) (by omega)).trans (by push_cast; rfl)
  unfold forEachUnpack CuteEVM.forEachUnpack
  rw [stop]
  by_cases beyond : 0 + 32 * size > output.length
  · rw [if_pos (by omega), if_pos beyond]
    rfl
  · rw [if_neg (by omega), if_neg beyond, allocated (by omega)]
    show (unpackElems (toGoType elem) _ output ((0 : Nat) : Int) size >>= _) = _
    rw [unpackElems_eq short fits modest each size 0 (by omega)]

mutual

theorem toGoType_eq (short : room ≤ maxAlloc) : ∀ (t : AbiType), Bounded room t → ∀ (output : Bytes), output.length ≤ room →
    ∀ (index : Nat), index + 32 < 2 ^ 63 → toGoType t index output = CuteEVM.toGoType t index output
  | .tuple elems rawNames, bounded, output, fits, index, small => by
    rw [toGoType, CuteEVM.toGoType]
    refine required_eq small fun there => ?_
    have allocated := (bounded _ .here).allocates (Nat.le_max_left 1 _)
    have components : ∀ start, forTupleUnpack elems 0 0 (output.drop start) =
        CuteEVM.forTupleUnpack elems 0 0 (output.drop start) :=
      fun start => forTupleUnpack_eq short elems (fun e member u within => bounded u (.tuple member within)) _
        (by rw [List.length_drop]; omega) 0 0 (by decide)
    rw [Nat.one_mul] at allocated
    rw [word_slice small there, ok_bind]
    by_cases dynamic : AbiType.anyDynamicType elems = true
    · rw [if_pos dynamic, if_pos dynamic, tuplePointsTo_eq small there]
      cases points : CuteEVM.tuplePointsTo index output with
      | error err => rfl
      | ok start =>
        simp only [ok_bind, slice_rest (tuplePointsTo_inside points), allocated, components]
    · rw [if_neg dynamic, if_neg dynamic, slice_rest (by omega)]
      simp only [ok_bind, allocated, components]
  | .slice elem, bounded, output, fits, index, small => by
    rw [toGoType, CuteEVM.toGoType]
    refine prefixed_eq small fun start length inside => ?_
    have inner : Bounded room elem := fun u within => bounded u (.slice within)
    have rest : (output.drop start).length = output.length - start := List.length_drop
    dsimp only
    rw [slice_rest (by omega), ok_bind]
    exact forEachUnpack_eq short (by omega) (inner _ .here) (toGoType_eq short elem inner _ (by omega)) _ (by omega)
      fun room' => (inner _ .here).allocates (by omega)
  | .array elem size, bounded, output, fits, index, small => by
    rw [toGoType, CuteEVM.toGoType]
    refine required_eq small fun there => ?_
    have inner : Bounded room elem := fun u within => bounded u (.array within)
    have allocated := (bounded _ .here).allocates (Nat.le_max_left 1 _)
    rw [Nat.one_mul, AbiType.memory, AbiType.layout] at allocated
    have elements : ∀ start, forEachUnpack .array elem (toGoType elem) (output.drop start) 0 size =
        CuteEVM.forEachUnpack .array elem (CuteEVM.toGoType elem) (output.drop start) 0 size := fun start =>
      forEachUnpack_eq short (by rw [List.length_drop]; omega) (inner _ .here)
        (toGoType_eq short elem inner _ (by rw [List.length_drop]; omega)) _ ((bounded _ .here).count _ _ rfl) fun _ => allocated
    rw [word_slice small there, ok_bind]
    by_cases dynamic : elem.isDynamicType = true
    · rw [if_pos dynamic, if_pos dynamic, arrayAt_eq (word_length there)]
      exact congrArg _ (funext elements)
    · rw [if_neg dynamic, if_neg dynamic, slice_rest (by omega), ok_bind]
      exact elements index
  | .string, _, output, _, index, small => by
    rw [toGoType, CuteEVM.toGoType]
    refine prefixed_eq small fun start length inside => ?_
    dsimp only
    rw [slice_eq rfl (Nat.cast_add _ _).symm (Nat.le_add_right _ _) inside, Nat.add_sub_cancel_left]
    rfl
  | .int size, _, output, _, index, small => by
    rw [toGoType, CuteEVM.toGoType]
    exact read_eq small fun word length => readInteger_eq length false _
  | .uint size, _, output, _, index, small => by
    rw [toGoType, CuteEVM.toGoType]
    exact read_eq small fun word length => readInteger_eq length true _
  | .bool, _, output, _, index, small => by
    rw [toGoType, CuteEVM.toGoType]
    exact read_eq small fun word length => readBool_eq length
  | .address, _, output, _, index, small => by
    rw [toGoType, CuteEVM.toGoType]
    exact read_eq small fun word length => rfl
  | .bytes, _, output, _, index, small => by
    rw [toGoType, CuteEVM.toGoType]
    refine prefixed_eq small fun start length inside => ?_
    dsimp only
    rw [slice_eq rfl (Nat.cast_add _ _).symm (Nat.le_add_right _ _) inside, Nat.add_sub_cancel_left]
    rfl
  | .fixedBytes size, _, output, _, index, small => by
    rw [toGoType, CuteEVM.toGoType]
    exact read_eq small fun word length => readFixedBytes_eq size

theorem forTupleUnpack_eq (short : room ≤ maxAlloc) : ∀ (elems : List AbiType), (∀ e ∈ elems, Bounded room e) → ∀ (output : Bytes),
    output.length ≤ room → ∀ (index virtual : Nat), (index + virtual) * 32 + 32 < 2 ^ 63 →
      forTupleUnpack elems index virtual output = CuteEVM.forTupleUnpack elems index virtual output
  | [], _, _, _, _, _, _ => by rw [forTupleUnpack, CuteEVM.forTupleUnpack]
  | elem :: elems, bounded, output, fits, index, virtual, small => by
    obtain ⟨first, others⟩ := List.forall_mem_cons.mp bounded
    have limit : maxAlloc = 2 ^ 48 := rfl
    have head := (first _ .here).head
    have skips := virtualArgs_le elem
    have place : int64 (((index : Int) + virtual) * 32) = ((index + virtual) * 32 : Nat) :=
      (int64_eq (by omega) (by omega)).trans (by push_cast; rfl)
    rw [forTupleUnpack, CuteEVM.forTupleUnpack, place, toGoType_eq short elem first output fits _ small]
    cases unpacked : CuteEVM.toGoType elem ((index + virtual) * 32) output with
    | error err => rfl
    | ok v =>
      have there := toGoType_there unpacked
      have next : int64 (virtual + virtualArgs elem) = (virtual + CuteEVM.virtualArgs elem : Nat) := by
        rw [virtualArgs_eq (first _ .here), ← Nat.cast_add, int64_nat (by omega)]
      rw [ok_bind, ok_bind, next, forTupleUnpack_eq short elems others output fits _ _ (by omega)]

end

end Agreement

end Checked

end CuteEVM
