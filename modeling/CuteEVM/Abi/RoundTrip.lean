import CuteEVM.Abi.Sizes
import CuteEVM.Abi.Unpack
import Mathlib.Tactic.NormNum

set_option autoImplicit false

-- Where a packed component is held, by its head, `toGoType` gives its value back.

namespace CuteEVM

open HeadTail (Part Held Placed tails headSizes)
open AbiType

section Numbers

theorem low_bytes (n : Int) {width : Nat} (most : width ≤ 32) :
    ((setBytes ((packU256 n).drop ((packU256 n).length - width)) : Nat) : Int) = n % 2 ^ (8 * width) := by
  have dropped := BigEndian.write_drop (32 - width) width (n % 2 ^ 256).toNat
  rw [Nat.sub_add_cancel most] at dropped
  have power : (256 : Int) ^ width = 2 ^ (8 * width) := by rw [pow_mul]; norm_num
  have divides : (2 : Int) ^ (8 * width) ∣ 2 ^ 256 := pow_dvd_pow 2 (by omega)
  have nonneg : 0 ≤ n % 2 ^ 256 := Int.emod_nonneg n (by positivity)
  rw [packU256_length]
  unfold packU256
  rw [bigEndian_eq, setBytes_eq, dropped, BigEndian.read_write_mod, Int.natCast_emod, Int.natCast_pow, Int.toNat_of_nonneg nonneg]
  show n % 2 ^ 256 % (256 : Int) ^ width = _
  rw [power, Int.emod_emod_of_dvd n divides]

theorem readUnsigned_pack {n : Int} {width : Nat} (most : width ≤ 32) (low : 0 ≤ n) (high : n < 2 ^ (8 * width)) :
    readUnsigned width (packU256 n) = n := by
  unfold readUnsigned
  rw [low_bytes n most, Int.emod_eq_of_lt low high]

theorem readSigned_pack {n : Int} {width : Nat} (least : 1 ≤ width) (most : width ≤ 32) (low : -2 ^ (8 * width - 1) ≤ n)
    (high : n < 2 ^ (8 * width - 1)) : readSigned width (packU256 n) = n := by
  have double : (2 : Int) ^ (8 * width) = 2 * 2 ^ (8 * width - 1) := by
    rw [← pow_succ']
    congr 1
    omega
  unfold readSigned
  have bytes := low_bytes n most
  generalize setBytes ((packU256 n).drop ((packU256 n).length - width)) = m at bytes ⊢
  dsimp only
  by_cases sign : 0 ≤ n
  · rw [Int.emod_eq_of_lt sign (by omega)] at bytes
    rw [if_pos (by zify; omega), bytes]
  · -- A negative number is stored with the modulus added.
    have wrapped : n % 2 ^ (8 * width) = n + 2 ^ (8 * width) := by
      rw [← Int.add_emod_right, Int.emod_eq_of_lt (by omega) (by omega)]
    rw [if_neg (by zify; omega), bytes, wrapped]
    omega

theorem whole_word (n : Int) : ((setBytes (packU256 n) : Nat) : Int) = n % 2 ^ 256 := by
  have whole := low_bytes n (Nat.le_refl 32)
  rwa [packU256_length, Nat.sub_self, List.drop_zero] at whole

theorem readInteger_int {size : Nat} {n : Int} (least : 1 ≤ size) (most : size ≤ 256) (low : -2 ^ (size - 1) ≤ n)
    (high : n < 2 ^ (size - 1)) :
    readInteger false (reflectIntKind false size) (packU256 n) = .num (reflectIntKind false size) n := by
  unfold reflectIntKind
  split
  · exact congrArg (GoVal.num _) (readSigned_pack (by decide) (by decide) low high)
  · exact congrArg (GoVal.num _) (readSigned_pack (by decide) (by decide) low high)
  · exact congrArg (GoVal.num _) (readSigned_pack (by decide) (by decide) low high)
  · exact congrArg (GoVal.num _) (readSigned_pack (by decide) (by decide) low high)
  · have range : (2 : Int) ^ (size - 1) ≤ 2 ^ 255 := pow_le_pow_right₀ (by decide) (by omega)
    unfold readInteger
    dsimp only
    rw [whole_word, if_neg Bool.false_ne_true]
    unfold maxInt256 maxUint256
    split
    · congr 1
      omega
    · congr 1
      omega

theorem readInteger_uint {size : Nat} {n : Int} (most : size ≤ 256) (low : 0 ≤ n) (high : n < 2 ^ size) :
    readInteger true (reflectIntKind true size) (packU256 n) = .num (reflectIntKind true size) n := by
  unfold reflectIntKind
  split
  · exact congrArg (GoVal.num _) (readUnsigned_pack (by decide) low high)
  · exact congrArg (GoVal.num _) (readUnsigned_pack (by decide) low high)
  · exact congrArg (GoVal.num _) (readUnsigned_pack (by decide) low high)
  · exact congrArg (GoVal.num _) (readUnsigned_pack (by decide) low high)
  · have range : (2 : Int) ^ size ≤ 2 ^ 256 := pow_le_pow_right₀ (by decide) most
    unfold readInteger
    dsimp only
    rw [whole_word, if_pos rfl, Int.emod_eq_of_lt low (by omega)]

theorem readBool_pack (b : Bool) : readBool (packU256 (if b then 1 else 0)) = .ok (.bool b) := by
  have yes : readBool (packU256 1) = .ok (.bool true) := rfl
  have no : readBool (packU256 0) = .ok (.bool false) := rfl
  cases b
  · exact no
  · exact yes

theorem setBytes_packLen {n : Nat} (small : n < 2 ^ 256) : setBytes (packLen n) = n := by
  rw [packLen_eq small, setBytes_eq, BigEndian.read_write small]

end Numbers

section Places

variable {output word rest body after : Bytes} {index offset n : Nat}

theorem drop_length (there : output.drop index = word ++ rest) (some_byte : 0 < word.length) :
    index + word.length ≤ output.length := by
  have length := congrArg List.length there
  rw [List.length_drop, List.length_append] at length
  omega

theorem drop_drop_append (there : output.drop index = word ++ rest) : output.drop (index + word.length) = rest := by
  rw [← List.drop_drop, there, List.drop_left]

theorem wordAt_word (length : word.length = 32) (there : output.drop index = word ++ rest) : wordAt index output = .ok word := by
  have long := drop_length there (by omega)
  unfold wordAt
  rw [if_neg (by omega), there, ← length, List.take_left]

-- Longer contents also start with a word.
theorem wordAt_some (length : 32 ≤ body.length) (there : output.drop index = body ++ rest) :
    ∃ word, wordAt index output = .ok word := by
  rw [← List.take_append_drop 32 body, List.append_assoc] at there
  exact ⟨_, wordAt_word (List.length_take_of_le length) there⟩

theorem lengthPrefixPointsTo_held (small : output.length < 2 ^ 63) (head : output.drop index = packLen offset ++ rest)
    (there : output.drop offset = packLen n ++ body ++ after) (enough : n ≤ body.length) :
    lengthPrefixPointsTo index output = .ok (offset + 32, n) ∧ output.drop (offset + 32) = body ++ after := by
  rw [List.append_assoc] at there
  have some_word : 0 < (packLen n).length := by rw [packLen_length]; decide
  have long := drop_length there some_word
  have tail := drop_drop_append there
  rw [packLen_length] at long tail
  have total := congrArg List.length tail
  rw [List.length_drop, List.length_append] at total
  have pointer : setBytes ((output.drop index).take 32) = offset := by
    rw [head, List.take_left' (packLen_length offset), setBytes_packLen (by omega)]
  have count : setBytes ((output.drop offset).take 32) = n := by
    rw [there, List.take_left' (packLen_length n), setBytes_packLen (by omega)]
  refine ⟨?_, tail⟩
  unfold lengthPrefixPointsTo
  dsimp only
  rw [pointer, if_neg (by omega), if_neg (by omega), Nat.add_sub_cancel, count, if_neg (by omega), if_neg (by omega)]

theorem tuplePointsTo_held (small : output.length < 2 ^ 63) (head : output.drop index = packLen offset ++ rest)
    (within : offset ≤ output.length) : tuplePointsTo index output = .ok offset := by
  have pointer : setBytes ((output.drop index).take 32) = offset := by
    rw [head, List.take_left' (packLen_length offset), setBytes_packLen (by omega)]
  unfold tuplePointsTo
  dsimp only
  rw [pointer, if_neg (by omega), if_neg (by omega)]

theorem arrayPointsTo_held (small : output.length < 2 ^ 63) (within : offset ≤ output.length) :
    arrayPointsTo (packLen offset) output = .ok offset := by
  have pointer : setBytes ((packLen offset).drop 24) = offset := by
    rw [packLen_eq (by omega), setBytes_eq, BigEndian.write_drop 24 8, BigEndian.read_write (by omega)]
  unfold arrayPointsTo
  dsimp only
  rw [pointer, if_neg (by omega)]

end Places

section Components

def ReadsBack (t : AbiType) (v : GoVal) (enc : Bytes) : Prop :=
  ∀ (output : Bytes) (index : Nat), output.length < 2 ^ 63 → Held packLen output index ⟨t.isDynamicType, enc⟩ →
    toGoType t index output = .ok v

def Unpacks (t : AbiType) (v : GoVal) : Prop :=
  ∀ enc, t.pack v = .ok enc → ReadsBack t v enc ∧ Part.headSize packLen ⟨t.isDynamicType, enc⟩ = t.getTypeSize

variable {elem : AbiType} {elems ts : List AbiType} {items vs : List GoVal} {parts : List Part} {output : Bytes} {i offset : Nat}

theorem Packs.headSizes_getTypeSizes (packs : Packs ts vs parts) (each : ∀ pair ∈ ts.zip vs, Unpacks pair.1 pair.2) :
    headSizes packLen parts = getTypeSizes ts := by
  rw [getTypeSizes_sum]
  exact packs.headSizes_sum fun pair member val packed => (each pair member val packed).2

theorem unpackElems_placed (small : output.length < 2 ^ 63) (packs : Packs (List.replicate items.length elem) items parts)
    (each : ∀ v ∈ items, Unpacks elem v) (placed : Placed packLen output i offset parts) :
    unpackElems (toGoType elem) elem.getTypeSize output i items.length = .ok items := by
  induction items generalizing i offset parts with
  | nil => rfl
  | cons v vs ih =>
    rw [List.length_cons, List.replicate_succ] at packs
    rw [List.forall_mem_cons] at each
    cases packs with
    | cons packed rest =>
      obtain ⟨held, offset', placed'⟩ := placed.cons packLen_even
      obtain ⟨reads, headSize⟩ := each.1 _ packed
      rw [headSize] at placed'
      rw [List.length_cons, unpackElems, reads output i small held]
      show (unpackElems _ _ _ _ _ >>= _) = _
      rw [ih rest each.2 placed']
      rfl

theorem virtualArgs_words {t : AbiType} (valid : Supported t) (narrow : OneWordTuples t) :
    (1 + virtualArgs t) * 32 = t.getTypeSize := by
  obtain ⟨more, words⟩ := headSize_words valid
  have size := getTypeSize_headSize narrow
  have whole : t.isDynamicType = true → t.headSize = 32 := fun dynamic => if_pos dynamic
  unfold virtualArgs
  cases t with
  | array | tuple =>
    dsimp only
    split
    · next dynamic =>
      have word := whole dynamic
      omega
    · omega
  | _ => rfl

theorem forTupleUnpack_placed {index virtual : Nat} (small : output.length < 2 ^ 63) (packs : Packs ts vs parts)
    (valid : ∀ t ∈ ts, Supported t) (narrow : ∀ t ∈ ts, OneWordTuples t) (each : ∀ pair ∈ ts.zip vs, Unpacks pair.1 pair.2)
    (placed : Placed packLen output ((index + virtual) * 32) offset parts) :
    forTupleUnpack ts index virtual output = .ok vs := by
  induction packs generalizing index virtual offset with
  | nil => rw [forTupleUnpack]
  | @cons t v val ts vs parts packed _ ih =>
    rw [List.forall_mem_cons] at valid narrow
    rw [List.zip_cons_cons, List.forall_mem_cons] at each
    obtain ⟨held, offset', placed'⟩ := placed.cons packLen_even
    obtain ⟨reads, headSize⟩ := each.1 _ packed
    have next : (index + virtual) * 32 + t.getTypeSize = (index + 1 + (virtual + virtualArgs t)) * 32 := by
      rw [← virtualArgs_words valid.1 narrow.1]
      ring
    rw [headSize, next] at placed'
    rw [forTupleUnpack, reads output _ small held]
    show (forTupleUnpack _ _ _ _ >>= _) = _
    rw [ih valid.2 narrow.2 each.2 placed']
    rfl

theorem Packs.headSizes_elems (packs : Packs (List.replicate items.length elem) items parts) (each : ∀ v ∈ items, Unpacks elem v) :
    headSizes packLen parts = items.length * elem.getTypeSize := by
  rw [packs.headSizes_getTypeSizes (fun pair member => (of_mem_zip_replicate member).1 ▸ each _ (of_mem_zip_replicate member).2),
    getTypeSizes_sum, List.map_replicate, List.sum_replicate_nat]

theorem Packs.elems_length (packs : Packs (List.replicate items.length elem) items parts) (each : ∀ v ∈ items, Unpacks elem v)
    (valid : Supported elem) (narrow : OneWordTuples elem) (offset : Nat) :
    32 * items.length ≤ (HeadTail.heads packLen offset parts ++ tails parts).length := by
  obtain ⟨more, words⟩ := headSize_words valid
  have scaled : items.length * 32 ≤ items.length * (32 * (more + 1)) := Nat.mul_le_mul_left _ (by omega)
  rw [List.length_append, HeadTail.heads_length packLen_even, packs.headSizes_elems each, getTypeSize_headSize narrow, words]
  omega

theorem forEachUnpack_packed {kind : GoKind} {after : Bytes} (valid : Supported elem) (narrow : OneWordTuples elem)
    (packs : Packs (List.replicate items.length elem) items parts) (each : ∀ v ∈ items, Unpacks elem v)
    (layout : output = HeadTail.heads packLen (if elem.isDynamicType then elem.getTypeSize * items.length else 0) parts ++
      tails parts ++ after) (small : output.length < 2 ^ 63) :
    forEachUnpack kind elem (toGoType elem) output 0 items.length = .ok (.seq kind elem.kind items) := by
  have long : 32 * items.length ≤ output.length := by
    rw [layout, List.length_append]
    exact Nat.le_trans (packs.elems_length each valid narrow _) (Nat.le_add_right _ _)
  have offsets : HeadTail.heads packLen (if elem.isDynamicType then elem.getTypeSize * items.length else 0) parts =
      HeadTail.heads packLen (headSizes packLen parts) parts := by
    split
    · rw [packs.headSizes_elems each, Nat.mul_comm]
    · next static =>
      exact HeadTail.heads_static (packs.static fun t member => List.eq_of_mem_replicate member ▸ Bool.eq_false_iff.mpr static) _ _
  have placed : Placed packLen output 0 (headSizes packLen parts) parts := by
    rw [layout, offsets, List.append_assoc]
    exact HeadTail.placed_layout packLen_even parts after
  unfold forEachUnpack
  rw [if_neg (by omega), unpackElems_placed small packs each placed]
  rfl

theorem forTupleUnpack_packed {after : Bytes} (valid : ∀ t ∈ ts, Supported t) (narrow : ∀ t ∈ ts, OneWordTuples t)
    (packs : Packs ts vs parts) (each : ∀ pair ∈ ts.zip vs, Unpacks pair.1 pair.2)
    (layout : output = HeadTail.heads packLen (getTypeSizes ts) parts ++ tails parts ++ after) (small : output.length < 2 ^ 63) :
    forTupleUnpack ts 0 0 output = .ok vs := by
  have placed : Placed packLen output 0 (headSizes packLen parts) parts := by
    rw [layout, ← packs.headSizes_getTypeSizes each, List.append_assoc]
    exact HeadTail.placed_layout packLen_even parts after
  exact forTupleUnpack_placed small packs valid narrow each placed

end Components

section Values

variable {t : AbiType} {v : GoVal} {enc output : Bytes} {index : Nat}

theorem held_static {dynamic : Bool} (static : dynamic = false) (held : Held packLen output index ⟨dynamic, enc⟩) :
    ∃ rest, output.drop index = enc ++ rest := by
  unfold Held at held
  rwa [static, if_neg Bool.false_ne_true] at held

theorem held_dynamic {dynamic : Bool} (isDynamic : dynamic = true) (held : Held packLen output index ⟨dynamic, enc⟩) :
    ∃ offset rest rest', offset ≤ output.length ∧ output.drop index = packLen offset ++ rest ∧ output.drop offset = enc ++
      rest' := by
  unfold Held at held
  rwa [isDynamic, if_pos rfl] at held

theorem packBytesSlice_held {b rest after : Bytes} {offset : Nat} (small : output.length < 2 ^ 63)
    (head : output.drop index = packLen offset ++ rest) (there : output.drop offset = packBytesSlice b b.length ++ after) :
    lengthPrefixPointsTo index output = .ok (offset + 32, b.length) ∧ (output.drop (offset + 32)).take b.length = b := by
  have padded : b.length ≤ (rightPadded b ((b.length + 31) / 32 * 32)).length := by
    unfold rightPadded
    rw [List.length_append]
    omega
  obtain ⟨points, contents⟩ := lengthPrefixPointsTo_held small head there padded
  refine ⟨points, ?_⟩
  rw [contents, rightPadded, List.append_assoc, List.take_left]

theorem reads_int {size : Nat} {n : Int} (least : 1 ≤ size) (most : size ≤ 256) (low : -2 ^ (size - 1) ≤ n)
    (high : n < 2 ^ (size - 1)) :
    ReadsBack (.int size) (.num (reflectIntKind false size) n) (packU256 n) := by
  intro output index small held
  obtain ⟨rest, there⟩ := held_static rfl held
  rw [toGoType, wordAt_word (packU256_length _) there, ok_bind, readInteger_int least most low high]
  rfl

theorem reads_uint {size : Nat} {n : Int} (most : size ≤ 256) (low : 0 ≤ n) (high : n < 2 ^ size) :
    ReadsBack (.uint size) (.num (reflectIntKind true size) n) (packU256 n) := by
  intro output index small held
  obtain ⟨rest, there⟩ := held_static rfl held
  rw [toGoType, wordAt_word (packU256_length _) there, ok_bind, readInteger_uint most low high]
  rfl

theorem reads_bool (b : Bool) : ReadsBack .bool (.bool b) (packU256 (if b then 1 else 0)) := by
  intro output index small held
  obtain ⟨rest, there⟩ := held_static rfl held
  rw [toGoType, wordAt_word (packU256_length _) there, ok_bind, readBool_pack]

theorem reads_address {b : Bytes} (length : b.length = 20) : ReadsBack .address (.bytes .array b) (leftPadded b 32) := by
  intro output index small held
  obtain ⟨rest, there⟩ := held_static rfl held
  have word : (leftPadded b 32).length = 32 := pack_length .address rfl (.address length) pack_address
  have contents : (leftPadded b 32).drop (32 - 20) = b := by
    rw [leftPadded, length, List.drop_left' List.length_replicate]
  rw [toGoType, wordAt_word word there, ok_bind, word, contents]
  rfl

theorem reads_fixedBytes {b : Bytes} (least : 1 ≤ b.length) (most : b.length ≤ 32) :
    ReadsBack (.fixedBytes b.length) (.bytes .array b) (rightPadded b 32) := by
  intro output index small held
  obtain ⟨rest, there⟩ := held_static rfl held
  have word : (rightPadded b 32).length = 32 := pack_length (.fixedBytes least most) rfl .fixedBytes pack_fixedBytes
  rw [toGoType, wordAt_word word there, ok_bind, readFixedBytes, if_neg (by omega), rightPadded, List.take_left]

theorem reads_string (b : Bytes) : ReadsBack .string (.string b) (packBytesSlice b b.length) := by
  intro output index small held
  obtain ⟨offset, rest, after, -, head, there⟩ := held_dynamic rfl held
  obtain ⟨points, contents⟩ := packBytesSlice_held small head there
  rw [toGoType, wordAt_word (packLen_length _) head, ok_bind, points, ok_bind]
  dsimp only
  rw [contents]
  rfl

theorem reads_bytes (b : Bytes) : ReadsBack .bytes (.bytes .slice b) (packBytesSlice b b.length) := by
  intro output index small held
  obtain ⟨offset, rest, after, -, head, there⟩ := held_dynamic rfl held
  obtain ⟨points, contents⟩ := packBytesSlice_held small head there
  rw [toGoType, wordAt_word (packLen_length _) head, ok_bind, points, ok_bind]
  dsimp only
  rw [contents]
  rfl

theorem reads_slice {elem : AbiType} {items : List GoVal} (valid : Supported elem) (narrow : OneWordTuples elem)
    (each : ∀ v ∈ items, Unpacks elem v) (packed : (AbiType.slice elem).pack (.seq .slice elem.kind items) = .ok enc) :
    ReadsBack (.slice elem) (.seq .slice elem.kind items) enc := by
  intro output index small held
  obtain ⟨offset, rest, after, -, head, there⟩ := held_dynamic rfl held
  obtain ⟨-, parts, packs, layout⟩ := pack_slice.1 packed
  dsimp only [GoVal.items] at packs layout
  rw [layout] at there
  -- The elements are placed after the length, which is not larger than they are.
  have tail := drop_drop_append (there.trans (List.append_assoc _ _ _))
  rw [packLen_length] at tail
  have shorter : (output.drop (offset + 32)).length < 2 ^ 63 := by
    rw [List.length_drop]
    omega
  obtain ⟨points, -⟩ :=
    lengthPrefixPointsTo_held small head there (Nat.le_trans (Nat.le_mul_of_pos_left _ (by decide))
      (packs.elems_length each valid narrow _))
  rw [toGoType, wordAt_word (packLen_length _) head, ok_bind, points, ok_bind]
  exact forEachUnpack_packed valid narrow packs each tail shorter

theorem reads_array {elem : AbiType} {items : List GoVal} (some_elem : 1 ≤ items.length) (valid : Supported elem)
    (narrow : OneWordTuples elem)
    (each : ∀ v ∈ items, Unpacks elem v)
    (packed : (AbiType.array elem items.length).pack (.seq .array elem.kind items) = .ok enc) :
    ReadsBack (.array elem items.length) (.seq .array elem.kind items) enc := by
  intro output index small held
  obtain ⟨-, parts, packs, layout⟩ := pack_array.1 packed
  dsimp only [GoVal.items] at packs layout
  rw [isDynamicType] at held
  rw [toGoType]
  cases dynamic : elem.isDynamicType with
  | true =>
    obtain ⟨offset, rest, after, within, head, there⟩ := held_dynamic dynamic held
    have shorter : (output.drop offset).length < 2 ^ 63 := by
      rw [List.length_drop]
      omega
    rw [wordAt_word (packLen_length _) head, ok_bind, if_pos rfl, arrayPointsTo_held small within, ok_bind]
    rw [layout] at there
    exact forEachUnpack_packed valid narrow packs each there shorter
  | false =>
    obtain ⟨after, there⟩ := held_static dynamic held
    rw [layout] at there
    obtain ⟨word, first⟩ := wordAt_some (Nat.le_trans (by omega) (packs.elems_length each valid narrow _)) there
    have shorter : (output.drop index).length < 2 ^ 63 := by
      rw [List.length_drop]
      omega
    rw [first, ok_bind, if_neg Bool.false_ne_true]
    exact forEachUnpack_packed valid narrow packs each there shorter

theorem reads_tuple {elems : List AbiType} {rawNames : List String} {values : List GoVal}
    (valid : Supported (.tuple elems rawNames))
    (narrow : ∀ t ∈ elems, OneWordTuples t) (all : List.Forall₂ HasType elems values)
    (each : ∀ pair ∈ elems.zip values, Unpacks pair.1 pair.2)
    (packed : (AbiType.tuple elems rawNames).pack (.struct (rawNames.map structField) values) = .ok enc) :
    ReadsBack (.tuple elems rawNames) (.struct (rawNames.map structField) values) enc := by
  intro output index small held
  obtain ⟨parts, packs, layout⟩ := (pack_tuple valid all.length_eq.symm).1 packed
  have components : ∀ t ∈ elems, Supported t := by
    cases valid
    assumption
  rw [isDynamicType] at held
  rw [toGoType]
  cases dynamic : anyDynamicType elems with
  | true =>
    obtain ⟨offset, rest, after, within, head, there⟩ := held_dynamic dynamic held
    have shorter : (output.drop offset).length < 2 ^ 63 := by
      rw [List.length_drop]
      omega
    rw [layout] at there
    rw [wordAt_word (packLen_length _) head, ok_bind, if_pos rfl, tuplePointsTo_held small head within, ok_bind,
      forTupleUnpack_packed components narrow packs each there shorter]
    rfl
  | false =>
    obtain ⟨after, there⟩ := held_static dynamic held
    have long : 32 ≤ enc.length := by
      obtain ⟨more, words⟩ := staticSize_words valid
      rw [pack_length valid (by rw [isDynamicType]; exact dynamic) (.tuple all) packed]
      omega
    obtain ⟨word, first⟩ := wordAt_some long there
    have shorter : (output.drop index).length < 2 ^ 63 := by
      rw [List.length_drop]
      omega
    rw [layout] at there
    rw [first, ok_bind, if_neg Bool.false_ne_true, forTupleUnpack_packed components narrow packs each there shorter]
    rfl

theorem unpacks_typed (valid : Supported t) (narrow : OneWordTuples t) (typed : HasType t v) : Unpacks t v := by
  intro enc packed
  refine ⟨?_, (pack_headSize valid typed packed).trans (getTypeSize_headSize narrow).symm⟩
  induction t generalizing v enc with
  | int =>
    cases valid with
    | int least most =>
      cases typed with
      | int low high =>
        obtain rfl := Except.ok.inj (pack_int.symm.trans packed)
        exact reads_int least most low high
  | uint =>
    cases valid with
    | uint _ most =>
      cases typed with
      | uint low high =>
        obtain rfl := Except.ok.inj (pack_uint.symm.trans packed)
        exact reads_uint most low high
  | bool =>
    cases typed
    obtain rfl := Except.ok.inj (pack_bool.symm.trans packed)
    exact reads_bool _
  | string =>
    cases typed
    obtain rfl := Except.ok.inj (pack_string.symm.trans packed)
    exact reads_string _
  | bytes =>
    cases typed
    obtain rfl := Except.ok.inj (pack_bytes.symm.trans packed)
    exact reads_bytes _
  | address =>
    cases typed with
    | address length =>
      obtain rfl := Except.ok.inj (pack_address.symm.trans packed)
      exact reads_address length
  | fixedBytes =>
    cases typed
    obtain rfl := Except.ok.inj (pack_fixedBytes.symm.trans packed)
    cases valid with
    | fixedBytes least most => exact reads_fixedBytes least most
  | slice elem ih =>
    cases valid with
    | slice valid =>
      cases typed with
      | slice all =>
        have inner := narrow.within (.slice .here)
        have each : ∀ v ∈ _, Unpacks elem v := fun v member val packed =>
          ⟨ih valid inner (all v member) val packed,
            (pack_headSize valid (all v member) packed).trans (getTypeSize_headSize inner).symm⟩
        exact reads_slice valid inner each packed
  | array elem size ih =>
    cases valid with
    | array some_elem valid =>
      cases typed with
      | array all =>
        have inner := narrow.within (.array .here)
        have each : ∀ v ∈ _, Unpacks elem v := fun v member val packed =>
          ⟨ih valid inner (all v member) val packed,
            (pack_headSize valid (all v member) packed).trans (getTypeSize_headSize inner).symm⟩
        exact reads_array some_elem valid inner each packed
  | tuple elems rawNames ih =>
    cases typed with
    | @tuple _ _ values all =>
      have inner : ∀ t ∈ elems, OneWordTuples t := fun t member => narrow.within (.tuple member .here)
      have components : ∀ t ∈ elems, Supported t := by
        cases valid
        assumption
      have each : ∀ pair ∈ elems.zip values, Unpacks pair.1 pair.2 := by
        intro pair member val packed
        have inside := (List.of_mem_zip member).1
        have typed : HasType pair.1 pair.2 := List.forall₂_zip all member
        exact ⟨ih _ inside (components _ inside) (inner _ inside) typed val packed,
          (pack_headSize (components _ inside) typed packed).trans (getTypeSize_headSize (inner _ inside)).symm⟩
      exact reads_tuple valid inner all each packed

end Values

end CuteEVM
