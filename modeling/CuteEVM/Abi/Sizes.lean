import CuteEVM.Abi.Layout

set_option autoImplicit false

-- A value packs unless a slice of arrays in it is empty.

namespace CuteEVM

open HeadTail (Part Held Placed tails headSizes)
open AbiType

section Leaves

theorem pack_int {size : Nat} {n : Int} : (AbiType.int size).pack (.num (reflectIntKind false size) n) = .ok (packU256 n) := by
  simp [AbiType.pack, typeCheck, AbiType.kind, GoVal.kind, packElement, packNum, Except.bind, bind]

theorem pack_uint {size : Nat} {n : Int} : (AbiType.uint size).pack (.num (reflectIntKind true size) n) = .ok (packU256 n) := by
  simp [AbiType.pack, typeCheck, AbiType.kind, GoVal.kind, packElement, packNum, Except.bind, bind]

theorem pack_bool {b : Bool} : AbiType.bool.pack (.bool b) = .ok (packU256 (if b then 1 else 0)) := rfl

theorem pack_string {b : Bytes} : AbiType.string.pack (.string b) = .ok (packBytesSlice b b.length) := rfl

theorem pack_bytes {b : Bytes} : AbiType.bytes.pack (.bytes .slice b) = .ok (packBytesSlice b b.length) := rfl

theorem pack_address {b : Bytes} : AbiType.address.pack (.bytes .array b) = .ok (leftPadded b 32) := rfl

theorem pack_fixedBytes {b : Bytes} : (AbiType.fixedBytes b.length).pack (.bytes .array b) = .ok (rightPadded b 32) := by
  simp [AbiType.pack, typeCheck, AbiType.kind, GoVal.kind, GoVal.items, packElement, Except.bind, bind]

theorem pack_succeeds {t : AbiType} {v : GoVal} (valid : Supported t) (typed : HasType t v) (first : HasFirst t v) :
    ∃ enc, t.pack v = .ok enc := by
  induction t generalizing v with
  | int => cases typed; exact ⟨_, pack_int⟩
  | uint => cases typed; exact ⟨_, pack_uint⟩
  | bool => cases typed; exact ⟨_, pack_bool⟩
  | string => cases typed; exact ⟨_, pack_string⟩
  | address => cases typed; exact ⟨_, pack_address⟩
  | fixedBytes => cases typed; exact ⟨_, pack_fixedBytes⟩
  | bytes => cases typed; exact ⟨_, pack_bytes⟩
  | slice elem ih =>
    have checked := sliceTypeCheck_ok valid typed first
    cases valid with
    | slice valid =>
      cases typed with
      | @slice _ items all =>
        obtain ⟨parts, packs⟩ := packs_of_all fun v inside => ih valid (all v inside) (first.slice_item v inside)
        exact ⟨_, pack_slice.2 ⟨checked, parts, packs, rfl⟩⟩
  | array elem size ih =>
    have checked := sliceTypeCheck_ok valid typed first
    cases valid with
    | array _ valid =>
      cases typed with
      | @array _ items all =>
        obtain ⟨parts, packs⟩ := packs_of_all fun v inside => ih valid (all v inside) (first.array_item v inside)
        exact ⟨_, pack_array.2 ⟨checked, parts, packs, rfl⟩⟩
  | tuple elems rawNames ih =>
    cases typed with
    | @tuple _ _ values all =>
      have each : ∀ pair ∈ elems.zip values, ∃ val, pair.1.pack pair.2 = .ok val := by
        intro pair member
        cases valid with
        | tuple _ _ _ _ valid =>
          have inside := (List.of_mem_zip member).1
          exact ih _ inside (valid _ inside) (List.forall₂_zip all member) (first.tuple_field pair member)
      obtain ⟨parts, packs⟩ := packs_of_each all.length_eq.symm each
      exact ⟨_, (pack_tuple valid all.length_eq.symm).2 ⟨parts, packs, rfl⟩⟩

end Leaves

section Sizes

variable {t elem : AbiType} {elems ts : List AbiType} {v : GoVal} {vs : List GoVal} {parts : List Part} {enc : Bytes}

theorem anyDynamicType_false : anyDynamicType elems = false ↔ ∀ elem ∈ elems, elem.isDynamicType = false := by
  induction elems with
  | nil => exact ⟨fun _ => nofun, fun _ => rfl⟩
  | cons elem elems ih => rw [anyDynamicType, Bool.or_eq_false_iff, List.forall_mem_cons, ih]

theorem staticSizes_sum : staticSizes elems = (elems.map staticSize).sum := by
  induction elems with
  | nil => rfl
  | cons elem elems ih => rw [staticSizes, List.map_cons, List.sum_cons, ih]

theorem getTypeSizes_sum : getTypeSizes elems = (elems.map getTypeSize).sum := by
  induction elems with
  | nil => rfl
  | cons elem elems ih => rw [getTypeSizes, List.map_cons, List.sum_cons, ih]

def AbiType.headSize (t : AbiType) : Nat := if t.isDynamicType then 32 else t.staticSize

theorem Packs.headSizes_sum {size : AbiType → Nat} (packs : Packs ts vs parts)
    (each : ∀ pair ∈ ts.zip vs, ∀ val, pair.1.pack pair.2 = .ok val → Part.headSize packLen ⟨pair.1.isDynamicType, val⟩ =
      size pair.1) :
    headSizes packLen parts = (ts.map size).sum := by
  unfold headSizes
  induction packs with
  | nil => rfl
  | cons packed _ ih =>
    rw [List.zip_cons_cons, List.forall_mem_cons] at each
    rw [List.map_cons, List.sum_cons, List.map_cons, List.sum_cons, ih each.2, each.1 _ packed]

theorem Packs.static (packs : Packs ts vs parts) (static : ∀ t ∈ ts, t.isDynamicType = false) :
    ∀ part ∈ parts, part.dynamic = false := by
  induction packs with
  | nil => exact nofun
  | cons _ _ ih =>
    rw [List.forall_mem_cons] at static ⊢
    exact ⟨static.1, ih static.2⟩

theorem Packs.static_length (packs : Packs ts vs parts) (static : ∀ t ∈ ts, t.isDynamicType = false)
    (each : ∀ pair ∈ ts.zip vs, ∀ val, pair.1.pack pair.2 = .ok val → val.length = pair.1.staticSize) (offset : Nat) :
    (HeadTail.heads packLen offset parts ++ tails parts).length = (ts.map staticSize).sum := by
  rw [HeadTail.tails_static (packs.static static), List.append_nil, HeadTail.heads_length packLen_even]
  apply packs.headSizes_sum
  intro pair member val packed
  unfold Part.headSize
  rw [if_neg (by rw [static _ (List.of_mem_zip member).1]; exact Bool.false_ne_true)]
  exact each pair member val packed

theorem pack_length (valid : Supported t) (static : t.isDynamicType = false) (typed : HasType t v) (packed : t.pack v = .ok enc) :
    enc.length = t.staticSize := by
  induction t generalizing v enc with
  | int =>
    cases typed
    obtain rfl := Except.ok.inj (pack_int.symm.trans packed)
    exact packU256_length _
  | uint =>
    cases typed
    obtain rfl := Except.ok.inj (pack_uint.symm.trans packed)
    exact packU256_length _
  | bool =>
    cases typed
    obtain rfl := Except.ok.inj (pack_bool.symm.trans packed)
    exact packU256_length _
  | address =>
    cases typed with
    | address length =>
      obtain rfl := Except.ok.inj (pack_address.symm.trans packed)
      unfold leftPadded
      rw [List.length_append, List.length_replicate, length]
      rfl
  | fixedBytes =>
    cases valid with
    | fixedBytes _ most =>
      cases typed
      obtain rfl := Except.ok.inj (pack_fixedBytes.symm.trans packed)
      unfold rightPadded
      rw [List.length_append, List.length_replicate]
      show _ = 32
      omega
  | array elem size ih =>
    cases valid with
    | array _ valid =>
      cases typed with
      | @array _ items all =>
        rw [isDynamicType] at static
        obtain ⟨-, parts, packs, rfl⟩ := pack_array.1 packed
        have total := packs.static_length (fun t member => List.eq_of_mem_replicate member ▸ static)
          (fun pair member val packed => by
            obtain ⟨same, inside⟩ := of_mem_zip_replicate member
            rw [same] at packed ⊢
            exact ih valid static (all _ inside) packed)
        rw [total, staticSize, List.map_replicate, List.sum_replicate_nat]
        rfl
  | tuple elems rawNames ih =>
    cases typed with
    | tuple all =>
      obtain ⟨parts, packs, rfl⟩ := (pack_tuple valid all.length_eq.symm).1 packed
      cases valid with
      | tuple _ _ _ _ valid =>
        rw [isDynamicType, anyDynamicType_false] at static
        rw [staticSize, staticSizes_sum]
        apply packs.static_length static
        intro pair member val packed
        have inside := (List.of_mem_zip member).1
        exact ih _ inside (valid _ inside) (static _ inside) (List.forall₂_zip all member) packed
  | string | bytes | slice => cases static

theorem pack_headSize (valid : Supported t) (typed : HasType t v) (packed : t.pack v = .ok enc) :
    Part.headSize packLen ⟨t.isDynamicType, enc⟩ = t.headSize := by
  unfold Part.headSize AbiType.headSize
  split
  · exact packLen_length 0
  · next static => exact pack_length valid (Bool.eq_false_iff.mpr static) typed packed

theorem AbiType.Within.trans {inner middle outer : AbiType} (first : Within inner middle) (second : Within middle outer) :
    Within inner outer := by
  induction second with
  | here => exact first
  | slice _ ih => exact .slice ih
  | array _ ih => exact .array ih
  | tuple member _ ih => exact .tuple member ih

theorem AbiType.Within.valid {inner : AbiType} (within : Within inner t) (valid : Supported t) : Supported inner := by
  induction within with
  | here => exact valid
  | slice _ ih => cases valid with | slice valid => exact ih valid
  | array _ ih => cases valid with | array _ valid => exact ih valid
  | tuple member _ ih => cases valid with | tuple _ _ _ _ valid => exact ih (valid _ member)

theorem AbiType.OneWordTuples.within {inner : AbiType} (narrow : OneWordTuples t) (within : Within inner t) :
    OneWordTuples inner :=
  fun elems rawNames size inside static => narrow elems rawNames size (inside.trans within) static

theorem getTypeSize_word (notArray : t.isArray = false) (notTuple : ∀ elems rawNames, t ≠ .tuple elems rawNames) :
    t.getTypeSize = 32 ∧ t.headSize = 32 := by
  unfold AbiType.headSize
  cases t with
  | array => cases notArray
  | tuple elems rawNames => exact absurd rfl (notTuple elems rawNames)
  | _ => exact ⟨rfl, rfl⟩

theorem getTypeSize_array {size : Nat} (narrow : OneWordTuples (.array elem size)) (inner : elem.getTypeSize = elem.headSize) :
    (AbiType.array elem size).getTypeSize = (AbiType.array elem size).headSize := by
  unfold AbiType.headSize at inner ⊢
  rw [getTypeSize, isDynamicType, staticSize]
  split
  · rfl
  · next static =>
    rw [if_neg static] at inner
    split
    · rw [inner]
    · next notArray =>
      rw [← inner]
      by_cases isTuple : ∃ elems rawNames, elem = .tuple elems rawNames
      · obtain ⟨elems, rawNames, rfl⟩ := isTuple
        rw [isDynamicType] at static
        rw [narrow elems rawNames size .here (Bool.eq_false_iff.mpr static)]
      · have word := getTypeSize_word (Bool.eq_false_iff.mpr notArray) (fun elems rawNames same => isTuple ⟨elems, rawNames, same⟩)
        rw [word.1]

theorem getTypeSize_headSize (narrow : OneWordTuples t) : t.getTypeSize = t.headSize := by
  induction t with
  | array elem size ih => exact getTypeSize_array narrow (ih (narrow.within (.array .here)))
  | tuple elems rawNames ih =>
    unfold AbiType.headSize
    rw [getTypeSize, isDynamicType, staticSize]
    split
    · rfl
    · next static =>
      have each : ∀ elem ∈ elems, elem.isDynamicType = false := anyDynamicType_false.1 (Bool.eq_false_iff.mpr static)
      rw [getTypeSizes_sum, staticSizes_sum]
      congr 1
      apply List.map_congr_left
      intro elem member
      have inner := ih elem member (narrow.within (.tuple member .here))
      unfold AbiType.headSize at inner
      rw [inner, each elem member, if_neg Bool.false_ne_true]
  | _ => rfl

theorem staticSize_words (valid : Supported t) : ∃ more, t.staticSize = 32 * (more + 1) := by
  induction t with
  | array elem size ih =>
    cases valid with
    | array some_elem valid =>
      obtain ⟨more, words⟩ := ih valid
      obtain ⟨less, rfl⟩ : ∃ less, size = less + 1 := ⟨size - 1, by omega⟩
      rw [staticSize, words]
      exact ⟨(less + 1) * more + less, by ring⟩
  | tuple elems rawNames ih =>
    cases valid with
    | tuple some_elem _ _ _ valid =>
      rw [staticSize]
      -- One component makes the first word; the others only add to it.
      have whole : ∀ elems : List AbiType, (∀ elem ∈ elems, ∃ more, elem.staticSize = 32 * (more + 1)) →
          ∃ words, staticSizes elems = 32 * words ∧ elems.length ≤ words := by
        intro elems each
        induction elems with
        | nil => exact ⟨0, rfl, Nat.le_refl _⟩
        | cons elem elems ih =>
          rw [List.forall_mem_cons] at each
          obtain ⟨⟨more, size⟩, rest⟩ := each
          obtain ⟨words, sizes, long⟩ := ih rest
          exact ⟨more + 1 + words, by rw [staticSizes, size, sizes]; ring, by rw [List.length_cons]; omega⟩
      obtain ⟨words, sizes, long⟩ := whole elems (fun elem member => ih elem member (valid elem member))
      have some_word := List.length_pos_iff.mpr some_elem
      exact ⟨words - 1, by rw [sizes]; congr 1; omega⟩
  | _ => exact ⟨0, rfl⟩

theorem headSize_words (valid : Supported t) : ∃ more, t.headSize = 32 * (more + 1) := by
  unfold AbiType.headSize
  split
  · exact ⟨0, rfl⟩
  · exact staticSize_words valid

end Sizes

section Converse

variable {t : AbiType}

theorem contains_static {inner : AbiType} {value v : GoVal} (contains : Contains inner value t v)
    (static : t.isDynamicType = false) :
    inner.isDynamicType = false := by
  induction contains with
  | here => exact static
  | slice => cases static
  | array _ _ ih => exact ih static
  | tuple member _ ih =>
    rw [isDynamicType, anyDynamicType_false] at static
    exact ih (static _ (List.of_mem_zip member).1)

theorem pack_zero (valid : Supported t) (static : t.isDynamicType = false) : ∃ enc, t.pack t.zero = .ok enc := by
  apply pack_succeeds valid (zero_typed t)
  intro elem size kind k items contains
  cases contains_static contains static

-- The sizes of the static types inside a type are what their values take.
def AbiType.Measured (t : AbiType) : Prop :=
  ∀ inner, Within inner t → inner.isDynamicType = false → ∀ v enc, HasType inner v → inner.pack v = .ok enc →
    inner.getTypeSize = enc.length

theorem measured_of_oneWordTuples (valid : Supported t) (narrow : OneWordTuples t) : t.Measured := by
  intro inner within static v enc typed packed
  rw [pack_length (within.valid valid) static typed packed, getTypeSize_headSize (narrow.within within), AbiType.headSize, static,
    if_neg Bool.false_ne_true]

theorem AbiType.Measured.staticSize {inner : AbiType} (measured : t.Measured) (valid : Supported t) (within : Within inner t)
    (static : inner.isDynamicType = false) : inner.getTypeSize = inner.staticSize := by
  obtain ⟨enc, packed⟩ := pack_zero (within.valid valid) static
  rw [measured inner within static _ enc (zero_typed inner) packed,
    pack_length (within.valid valid) static (zero_typed inner) packed]

theorem oneWordTuples_of_measured (valid : Supported t) (measured : t.Measured) : OneWordTuples t := by
  intro elems rawNames size within static
  have some_elem : 1 ≤ size := by
    cases within.valid valid
    assumption
  have outer := measured.staticSize valid within (by rw [isDynamicType, isDynamicType]; exact static)
  have inner := measured.staticSize valid (.trans (.array .here) within) (by rw [isDynamicType]; exact static)
  -- The array counts a word for each tuple.
  rw [getTypeSize, isDynamicType, static, if_neg Bool.false_ne_true, if_neg (by exact Bool.false_ne_true),
    AbiType.staticSize] at outer
  rw [inner]
  exact (Nat.eq_of_mul_eq_mul_left some_elem outer).symm

end Converse

end CuteEVM
