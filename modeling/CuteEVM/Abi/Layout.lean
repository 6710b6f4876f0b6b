import CuteEVM.Abi.Values
import CuteEVM.Rlp.Writing
import CuteEVM.Shared.HeadTail

set_option autoImplicit false

-- The three loops that pack components, of an array, of a tuple and of the arguments, all write their components as
-- heads and tails.

namespace CuteEVM

open HeadTail (Part Held Placed tails headSizes)

section Words

theorem packU256_length (n : Int) : (packU256 n).length = 32 := by
  unfold packU256
  rw [bigEndian_eq, BigEndian.write_length]

@[simp] theorem packLen_length (n : Nat) : (packLen n).length = 32 := packU256_length n

theorem packLen_even (n : Nat) : (packLen n).length = (packLen 0).length := by
  rw [packLen_length, packLen_length]

theorem packLen_eq {n : Nat} (small : n < 2 ^ 256) : packLen n = BigEndian.write 32 n := by
  unfold packLen packU256
  rw [bigEndian_eq]
  congr 1
  omega

end Words

section Bind

variable {α β : Type}

theorem except_bind_ok {first : Except AbiErr α} {next : α → Except AbiErr β} {value : β} :
    (first >>= next) = .ok value ↔ ∃ a, first = .ok a ∧ next a = .ok value := by
  cases first with
  | error err => exact ⟨nofun, nofun⟩
  | ok a => exact ⟨fun ran => ⟨a, rfl, ran⟩, fun ⟨_, same, ran⟩ => Except.ok.inj same ▸ ran⟩

end Bind

section Components

inductive Packs : List AbiType → List GoVal → List Part → Prop where
  | nil : Packs [] [] []
  | cons {t : AbiType} {v : GoVal} {val : Bytes} {ts : List AbiType} {vs : List GoVal} {parts : List Part}
    (packed : t.pack v = .ok val) (rest : Packs ts vs parts) : Packs (t :: ts) (v :: vs) (⟨t.isDynamicType, val⟩ :: parts)

def Packing.run (p : Packing) (parts : List Part) : Packing := parts.foldl (fun p part => p.add part.dynamic part.bytes) p

theorem run_eq (p : Packing) (parts : List Part) :
    (p.run parts).ret = p.ret ++ HeadTail.heads packLen p.offset parts ∧ (p.run parts).tail = p.tail ++ tails parts := by
  induction parts generalizing p with
  | nil => exact ⟨(List.append_nil _).symm, (List.append_nil _).symm⟩
  | cons part parts ih =>
    have step := ih (p.add part.dynamic part.bytes)
    rw [HeadTail.heads, tails]
    unfold Packing.add at step
    split at step <;> rename_i dynamic
    · rw [if_pos dynamic, if_pos dynamic, ← List.append_assoc, ← List.append_assoc]
      simpa [Packing.run, Packing.add, dynamic] using step
    · rw [if_neg dynamic, if_neg dynamic, ← List.append_assoc]
      simpa [Packing.run, Packing.add, dynamic] using step

theorem run_bytes (ret : Bytes) (offset : Nat) (parts : List Part) :
    (Packing.run { ret := ret, offset := offset } parts).ret ++ (Packing.run { ret := ret, offset := offset } parts).tail =
      ret ++ (HeadTail.heads packLen offset parts ++ tails parts) := by
  obtain ⟨rets, tails⟩ := run_eq { ret := ret, offset := offset } parts
  rw [rets, tails, List.nil_append, List.append_assoc]

theorem packElems_ok {elem : AbiType} {items : List GoVal} {p p' : Packing} :
    packElems elem.pack elem.isDynamicType items p = .ok p' ↔
      ∃ parts, Packs (List.replicate items.length elem) items parts ∧ p' = p.run parts := by
  induction items generalizing p with
  | nil => exact ⟨fun ran => ⟨[], .nil, (Except.ok.inj ran).symm⟩, fun ⟨_, .nil, same⟩ => congrArg Except.ok same.symm⟩
  | cons v vs ih =>
    rw [packElems, except_bind_ok]
    constructor
    · rintro ⟨val, packed, ran⟩
      obtain ⟨parts, rest, rfl⟩ := ih.1 ran
      exact ⟨_, .cons packed rest, rfl⟩
    · rintro ⟨_, packs, rfl⟩
      rw [List.length_cons, List.replicate_succ] at packs
      cases packs with
      | cons packed rest => exact ⟨_, packed, ih.2 ⟨_, rest, rfl⟩⟩

theorem packArgs_ok {inputs : List Argument} {args : List GoVal} {p p' : Packing} (same : args.length = inputs.length) :
    packArgs inputs args p = .ok p' ↔ ∃ parts, Packs (inputs.map Argument.type) args parts ∧ p' = p.run parts := by
  induction inputs generalizing args p with
  | nil =>
    obtain rfl := List.length_eq_zero_iff.mp same
    exact ⟨fun ran => ⟨[], .nil, (Except.ok.inj ran).symm⟩, fun ⟨_, .nil, same⟩ => congrArg Except.ok same.symm⟩
  | cons input inputs ih =>
    match args, same with
    | a :: args, same =>
      rw [packArgs, except_bind_ok, List.map_cons]
      constructor
      · rintro ⟨val, packed, ran⟩
        obtain ⟨parts, rest, rfl⟩ := (ih (Nat.succ.inj same)).1 ran
        exact ⟨_, .cons packed rest, rfl⟩
      · rintro ⟨_, packs, rfl⟩
        cases packs with
        | cons packed rest => exact ⟨_, packed, (ih (Nat.succ.inj same)).2 ⟨_, rest, rfl⟩⟩

-- Each name leads to the value at its own position.
theorem packFields_ok {v : GoVal} {fieldmap : String → String} {elems : List AbiType} {rawNames : List String}
    {values : List GoVal} {p p' : Packing} (named : rawNames.length = elems.length) (valued : values.length = elems.length)
    (found : ∀ pair ∈ rawNames.zip values, v.fieldByName (fieldmap pair.1) = some pair.2) :
    packFields v fieldmap elems rawNames p = .ok p' ↔ ∃ parts, Packs elems values parts ∧ p' = p.run parts := by
  induction elems generalizing rawNames values p with
  | nil =>
    obtain rfl := List.length_eq_zero_iff.mp valued
    rw [packFields]
    exact ⟨fun ran => ⟨[], .nil, (Except.ok.inj ran).symm⟩, fun ⟨_, .nil, same⟩ => congrArg Except.ok same.symm⟩
  | cons elem elems ih =>
    match rawNames, values, named, valued, found with
    | name :: names, value :: values, named, valued, found =>
      rw [List.zip_cons_cons, List.forall_mem_cons] at found
      have rest := fun {p} => @ih names values p (Nat.succ.inj named) (Nat.succ.inj valued) found.2
      rw [packFields, found.1]
      dsimp only
      rw [except_bind_ok]
      constructor
      · rintro ⟨val, packed, ran⟩
        obtain ⟨parts, others, rfl⟩ := rest.1 ran
        exact ⟨_, .cons packed others, rfl⟩
      · rintro ⟨_, packs, rfl⟩
        cases packs with
        | cons packed others => exact ⟨_, packed, rest.2 ⟨_, others, rfl⟩⟩

end Components

section Names

theorem mapTags_untagged (argNames rawNames : List String) (maps : FieldMap) :
    mapTags argNames (rawNames.map AbiType.structField) maps = .ok maps := by
  induction rawNames with
  | nil => rfl
  | cons name names ih =>
    rw [List.map_cons, mapTags]
    split
    · exact ih
    · exact ih

theorem mapNames_distinct {value : GoVal} {rawNames : List String} {maps : FieldMap}
    (distinct : (rawNames.map toCamelCase).Nodup) (nonempty : "" ∉ rawNames.map toCamelCase)
    (valid : ∀ name ∈ rawNames, (value.fieldByName (toCamelCase name)).isSome = true)
    (unpaired : ∀ name ∈ rawNames, maps.abi2struct name = "" ∧ maps.struct2abi (toCamelCase name) = "") :
    ∃ maps', mapNames value rawNames maps = .ok maps' ∧ (∀ name ∈ rawNames, maps'.abi2struct name = toCamelCase name) ∧
      ∀ name, name ∉ rawNames → maps'.abi2struct name = maps.abi2struct name := by
  induction rawNames generalizing maps with
  | nil => exact ⟨maps, rfl, nofun, fun _ _ => rfl⟩
  | cons name names ih =>
    rw [List.map_cons, List.nodup_cons] at distinct
    rw [List.map_cons, List.mem_cons, not_or] at nonempty
    rw [List.forall_mem_cons] at valid unpaired
    have different : ∀ other ∈ names, toCamelCase other ≠ toCamelCase name :=
      fun other member same => distinct.1 (same ▸ List.mem_map_of_mem member)
    have fresh : ∀ other ∈ names, (maps.pair name (toCamelCase name)).abi2struct other = "" ∧
        (maps.pair name (toCamelCase name)).struct2abi (toCamelCase other) = "" := by
      intro other member
      have apart := different other member
      dsimp only [FieldMap.pair]
      rw [Function.update_of_ne (fun same => apart (congrArg toCamelCase same)), Function.update_of_ne apart]
      exact unpaired.2 other member
    obtain ⟨maps', ran, paired, others⟩ := ih distinct.2 nonempty.2 valid.2 fresh
    refine ⟨maps', ?_, ?_, ?_⟩
    · rw [mapNames, if_neg (Ne.symm nonempty.1), if_neg (not_not.mpr unpaired.1.1), if_neg (not_not.mpr unpaired.1.2),
        if_pos valid.1, ran]
    · rw [List.forall_mem_cons]
      refine ⟨?_, paired⟩
      have kept : name ∉ names := fun member => different name member rfl
      rw [others name kept]
      exact Function.update_self _ _ _
    · intro other outside
      rw [List.mem_cons, not_or] at outside
      rw [others other outside.2]
      exact Function.update_of_ne outside.1 _ _

theorem fieldByName_zip {rawNames : List String} {values : List GoVal} (distinct : (rawNames.map toCamelCase).Nodup) :
    ∀ pair ∈ rawNames.zip values,
      (GoVal.struct (rawNames.map AbiType.structField) values).fieldByName (toCamelCase pair.1) = some pair.2 := by
  unfold GoVal.fieldByName GoVal.structFields GoVal.structValues
  induction rawNames generalizing values with
  | nil => exact fun _ member => absurd member List.not_mem_nil
  | cons name names ih =>
    cases values with
    | nil => exact fun _ member => absurd member List.not_mem_nil
    | cons value values =>
      rw [List.map_cons, List.nodup_cons] at distinct
      rw [List.zip_cons_cons, List.forall_mem_cons]
      refine ⟨?_, fun pair member => ?_⟩
      · dsimp only
        rw [List.map_cons, List.zip_cons_cons, List.find?_cons_of_pos (by simp [AbiType.structField])]
        rfl
      · have skipped : toCamelCase name ≠ toCamelCase pair.1 :=
          fun same => distinct.1 (same ▸ List.mem_map_of_mem (List.of_mem_zip member).1)
        dsimp only
        rw [List.map_cons, List.zip_cons_cons, List.find?_cons_of_neg (by simp [AbiType.structField, skipped])]
        exact ih distinct.2 pair member

theorem mapArgNames_distinct {rawNames : List String} {values : List GoVal} (distinct : (rawNames.map toCamelCase).Nodup)
    (nonempty : "" ∉ rawNames.map toCamelCase) (valued : values.length = rawNames.length) :
    ∃ fieldmap, mapArgNamesToStructFields rawNames (.struct (rawNames.map AbiType.structField) values) = .ok fieldmap ∧
      ∀ name ∈ rawNames, fieldmap name = toCamelCase name := by
  have found := @fieldByName_zip rawNames values distinct
  have valid : ∀ name ∈ rawNames,
      ((GoVal.struct (rawNames.map AbiType.structField) values).fieldByName (toCamelCase name)).isSome = true := by
    intro name member
    obtain ⟨i, bound, rfl⟩ := List.getElem_of_mem member
    have pair : (rawNames[i], values[i]) ∈ rawNames.zip values := by
      rw [List.mem_iff_getElem]
      exact ⟨i, by rw [List.length_zip]; omega, List.getElem_zip⟩
    rw [found _ pair]
    rfl
  obtain ⟨maps', ran, paired, -⟩ := @mapNames_distinct _ rawNames {} distinct nonempty valid (fun _ _ => ⟨rfl, rfl⟩)
  refine ⟨maps'.abi2struct, ?_, paired⟩
  unfold mapArgNamesToStructFields
  rw [show (GoVal.struct (rawNames.map AbiType.structField) values).structFields = rawNames.map AbiType.structField from rfl,
    mapTags_untagged]
  show (mapNames _ rawNames {} >>= _) = _
  rw [ran]
  rfl

end Names

section Types

open AbiType

variable {elem : AbiType} {elems : List AbiType} {rawNames : List String} {items values : List GoVal} {enc : Bytes}

theorem packSeq_ok {ret : Bytes} {v : GoVal} : packSeq ret elem elem.pack v = .ok enc ↔
    ∃ parts, Packs (List.replicate v.items.length elem) v.items parts ∧
      enc = ret ++
      (HeadTail.heads packLen (if elem.isDynamicType then elem.getTypeSize * v.items.length else 0) parts ++ tails parts) := by
  unfold packSeq
  rw [except_bind_ok]
  constructor
  · rintro ⟨p, ran, same⟩
    obtain ⟨parts, packs, rfl⟩ := packElems_ok.1 ran
    exact ⟨parts, packs, (Except.ok.inj same).symm.trans (run_bytes _ _ _)⟩
  · rintro ⟨parts, packs, rfl⟩
    exact ⟨_, packElems_ok.2 ⟨parts, packs, rfl⟩, congrArg Except.ok (run_bytes _ _ _)⟩

theorem pack_slice {v : GoVal} : (AbiType.slice elem).pack v = .ok enc ↔ sliceTypeCheck (.slice elem) v = .ok () ∧
    ∃ parts, Packs (List.replicate v.items.length elem) v.items parts ∧ enc = packLen v.items.length ++
      (HeadTail.heads packLen (if elem.isDynamicType then elem.getTypeSize * v.items.length else 0) parts ++ tails parts) := by
  rw [AbiType.pack, except_bind_ok, ← packSeq_ok]
  exact ⟨fun ⟨_, checked, ran⟩ => ⟨checked, ran⟩, fun ⟨checked, ran⟩ => ⟨(), checked, ran⟩⟩

theorem pack_array {size : Nat} {v : GoVal} :
    (AbiType.array elem size).pack v = .ok enc ↔ sliceTypeCheck (.array elem size) v = .ok () ∧
    ∃ parts, Packs (List.replicate v.items.length elem) v.items parts ∧
      enc = HeadTail.heads packLen (if elem.isDynamicType then elem.getTypeSize * v.items.length else 0) parts ++ tails parts := by
  have seq := @packSeq_ok elem enc [] v
  simp only [List.nil_append] at seq
  rw [AbiType.pack, except_bind_ok, ← seq]
  exact ⟨fun ⟨_, checked, ran⟩ => ⟨checked, ran⟩, fun ⟨checked, ran⟩ => ⟨(), checked, ran⟩⟩

theorem pack_tuple (valid : Supported (.tuple elems rawNames)) (valued : values.length = elems.length) :
    (AbiType.tuple elems rawNames).pack (.struct (rawNames.map structField) values) = .ok enc ↔
      ∃ parts, Packs elems values parts ∧ enc = HeadTail.heads packLen (getTypeSizes elems) parts ++ tails parts := by
  cases valid with
  | tuple _ named distinct nonempty _ =>
    obtain ⟨fieldmap, mapped, maps⟩ := @mapArgNames_distinct rawNames values distinct nonempty (by omega)
    have found : ∀ pair ∈ rawNames.zip values,
        (GoVal.struct (rawNames.map structField) values).fieldByName (fieldmap pair.1) = some pair.2 := by
      intro pair member
      rw [maps _ (List.of_mem_zip member).1]
      exact fieldByName_zip distinct pair member
    rw [AbiType.pack]
    show (mapArgNamesToStructFields _ _ >>= _) = _ ↔ _
    rw [mapped]
    show (packFields _ _ _ _ _ >>= _) = _ ↔ _
    rw [except_bind_ok]
    have bytes := run_bytes [] (getTypeSizes elems)
    constructor
    · rintro ⟨p, ran, same⟩
      obtain ⟨parts, packs, rfl⟩ := (packFields_ok named valued found).1 ran
      exact ⟨parts, packs, (Except.ok.inj same).symm.trans (bytes parts)⟩
    · rintro ⟨parts, packs, rfl⟩
      exact ⟨_, (packFields_ok named valued found).2 ⟨parts, packs, rfl⟩, congrArg Except.ok (bytes parts)⟩

theorem Packs.each {ts : List AbiType} {vs : List GoVal} {parts : List Part} (packs : Packs ts vs parts) :
    ∀ pair ∈ ts.zip vs, ∃ val, pair.1.pack pair.2 = .ok val := by
  induction packs with
  | nil => exact nofun
  | cons packed _ ih =>
    rw [List.zip_cons_cons, List.forall_mem_cons]
    exact ⟨⟨_, packed⟩, ih⟩

theorem packs_of_each {ts : List AbiType} {vs : List GoVal} (same : vs.length = ts.length)
    (each : ∀ pair ∈ ts.zip vs, ∃ val, pair.1.pack pair.2 = .ok val) : ∃ parts, Packs ts vs parts := by
  induction ts generalizing vs with
  | nil =>
    obtain rfl := List.length_eq_zero_iff.mp same
    exact ⟨[], .nil⟩
  | cons t ts ih =>
    match vs, same, each with
    | v :: vs, same, each =>
      rw [List.zip_cons_cons, List.forall_mem_cons] at each
      obtain ⟨⟨val, packed⟩, rest⟩ := each
      obtain ⟨parts, packs⟩ := ih (Nat.succ.inj same) rest
      exact ⟨_, .cons packed packs⟩

theorem mem_zip_replicate {v : GoVal} (member : v ∈ items) : (elem, v) ∈ (List.replicate items.length elem).zip items := by
  induction items with
  | nil => exact absurd member List.not_mem_nil
  | cons first items ih =>
    rw [List.length_cons, List.replicate_succ, List.zip_cons_cons]
    rcases List.mem_cons.1 member with rfl | inside
    · exact List.mem_cons_self
    · exact List.mem_cons_of_mem _ (ih inside)

theorem of_mem_zip_replicate {pair : AbiType × GoVal} {n : Nat} (member : pair ∈ (List.replicate n elem).zip items) :
    pair.1 = elem ∧ pair.2 ∈ items :=
  ⟨List.eq_of_mem_replicate (List.of_mem_zip member).1, (List.of_mem_zip member).2⟩

theorem packs_of_all (all : ∀ v ∈ items, ∃ val, elem.pack v = .ok val) :
    ∃ parts, Packs (List.replicate items.length elem) items parts := by
  refine packs_of_each (by rw [List.length_replicate]) fun pair member => ?_
  obtain ⟨same, inside⟩ := of_mem_zip_replicate member
  rw [same]
  exact all _ inside

theorem pack_contains {inner t : AbiType} {value v : GoVal} (contains : Contains inner value t v) (valid : Supported t)
    (typed : HasType t v) (packed : ∃ enc, t.pack v = .ok enc) : ∃ enc, inner.pack value = .ok enc := by
  induction contains with
  | here => exact packed
  | slice member _ ih =>
    cases valid with
    | slice valid =>
      cases typed with
      | slice all =>
        obtain ⟨enc, packed⟩ := packed
        obtain ⟨-, parts, packs, -⟩ := pack_slice.1 packed
        exact ih valid (all _ member) (packs.each _ (mem_zip_replicate member))
  | array member _ ih =>
    cases valid with
    | array _ valid =>
      cases typed with
      | array all =>
        obtain ⟨enc, packed⟩ := packed
        obtain ⟨-, parts, packs, -⟩ := pack_array.1 packed
        exact ih valid (all _ member) (packs.each _ (mem_zip_replicate member))
  | tuple member _ ih =>
    cases typed with
    | tuple all =>
      obtain ⟨enc, packed⟩ := packed
      obtain ⟨parts, packs, -⟩ := (pack_tuple valid all.length_eq.symm).1 packed
      cases valid with
      | tuple _ _ _ _ valid =>
        exact ih (valid _ (List.of_mem_zip member).1) (List.forall₂_zip all member) (packs.each _ member)

theorem pack_hasFirst {t : AbiType} {v : GoVal} (valid : Supported t) (typed : HasType t v) (packed : t.pack v = .ok enc) :
    HasFirst t v := by
  rintro elem size kind k items contains rfl
  obtain ⟨enc, packed⟩ := pack_contains contains valid typed ⟨enc, packed⟩
  have checked := (pack_slice.1 packed).1
  unfold sliceTypeCheck at checked
  split at checked
  · cases checked
  · cases checked

theorem sliceElemCheck_ok {kind : GoKind} {check : GoVal → Except AbiErr Unit} (each : ∀ v ∈ items, check v = .ok ())
    (first : elem.isArray = true → items ≠ []) : sliceElemCheck elem check (.seq kind elem.kind items) = .ok () := by
  have kinds : elemKindCheck elem (.seq kind elem.kind items) = .ok () := if_pos rfl
  unfold sliceElemCheck
  split
  · next some shape => exact each _ (List.mem_of_mem_head? (congrArg List.head? shape))
  · next some shape => exact each _ (List.mem_of_mem_head? (congrArg List.head? shape))
  · next shape => exact absurd shape (first rfl)
  · exact kinds

theorem AbiType.HasFirst.slice_ne_nil {kind k : GoKind} (first : HasFirst (.slice elem) (.seq kind k items))
    (isArray : elem.isArray = true) :
    items ≠ [] := by
  cases elem with
  | array elem size => exact first elem size kind k items .here
  | _ => cases isArray

theorem AbiType.HasFirst.slice_item {kind k : GoKind} (first : HasFirst (.slice elem) (.seq kind k items)) :
    ∀ v ∈ items, HasFirst elem v :=
  fun _ member _ _ _ _ _ contains => first _ _ _ _ _ (.slice member contains)

theorem AbiType.HasFirst.array_item {size : Nat} {kind k : GoKind} (first : HasFirst (.array elem size) (.seq kind k items)) :
    ∀ v ∈ items, HasFirst elem v :=
  fun _ member _ _ _ _ _ contains => first _ _ _ _ _ (.array member contains)

theorem AbiType.HasFirst.tuple_field {fields : List StructField}
    (first : HasFirst (.tuple elems rawNames) (.struct fields values)) :
    ∀ pair ∈ elems.zip values, HasFirst pair.1 pair.2 :=
  fun _ member _ _ _ _ _ contains => first _ _ _ _ _ (.tuple member contains)

theorem sliceTypeCheck_ok {t : AbiType} {v : GoVal} (valid : Supported t) (typed : HasType t v) (first : HasFirst t v) :
    sliceTypeCheck t v = .ok () := by
  induction t generalizing v with
  | slice elem ih =>
    cases valid with
    | slice valid =>
      cases typed with
      | slice all =>
        rw [sliceTypeCheck, if_neg (fun wrong => wrong.1 rfl)]
        exact sliceElemCheck_ok (fun v member => ih valid (all v member) (first.slice_item v member)) first.slice_ne_nil
  | array elem size ih =>
    cases valid with
    | array some_elem valid =>
      cases typed with
      | array all =>
        rw [sliceTypeCheck, if_neg (fun wrong => wrong.2 rfl), if_neg (fun wrong => wrong rfl)]
        exact sliceElemCheck_ok (fun v member => ih valid (all v member) (first.array_item v member))
          (fun _ => List.ne_nil_of_length_pos some_elem)
  | _ => rfl

end Types

end CuteEVM
