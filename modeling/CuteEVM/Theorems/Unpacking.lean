import CuteEVM.Abi.Checked

set_option autoImplicit false

-- The offset of a fixed-size array of dynamic elements is used as it stands. Everything else that is sliced was checked
-- before.

namespace CuteEVM

-- What is being unpacked: a value, the components of a tuple from one of them on, or elements.
inductive Task where
  | value (t : AbiType) (index : Nat)
  | components (elems : List AbiType) (index virtual : Nat)
  | elements (elem : AbiType) (i size : Nat)

-- While a task is carried out on some output, an array at this index of an output is come to. What is before it was unpacked
-- without an error.
inductive Visits (elem : AbiType) (size index : Nat) (output : Bytes) : Task → Bytes → Prop where
  | here (there : index + 32 ≤ output.length) : Visits elem size index output (.value (.array elem size) index) output
  | dynamicTuple {elems : List AbiType} {rawNames : List String} {i start : Nat} {out : Bytes} (there : i + 32 ≤ out.length)
      (dynamic : AbiType.anyDynamicType elems = true) (points : tuplePointsTo i out = .ok start)
      (inner : Visits elem size index output (.components elems 0 0) (out.drop start)) :
      Visits elem size index output (.value (.tuple elems rawNames) i) out
  | staticTuple {elems : List AbiType} {rawNames : List String} {i : Nat} {out : Bytes} (there : i + 32 ≤ out.length)
      (static : AbiType.anyDynamicType elems = false)
        (inner : Visits elem size index output (.components elems 0 0) (out.drop i)) :
      Visits elem size index output (.value (.tuple elems rawNames) i) out
  | slice {e : AbiType} {i start length : Nat} {out : Bytes} (there : i + 32 ≤ out.length)
      (points : lengthPrefixPointsTo i out = .ok (start, length)) (room : 32 * length ≤ (out.drop start).length)
      (inner : Visits elem size index output (.elements e 0 length) (out.drop start)) :
      Visits elem size index output (.value (.slice e) i) out
  | dynamicArray {e : AbiType} {n i offset : Nat} {out : Bytes} (there : i + 32 ≤ out.length) (dynamic : e.isDynamicType = true)
      (points : arrayPointsTo ((out.drop i).take 32) out = .ok offset) (room : 32 * n ≤ (out.drop offset).length)
      (inner : Visits elem size index output (.elements e 0 n) (out.drop offset)) :
      Visits elem size index output (.value (.array e n) i) out
  | staticArray {e : AbiType} {n i : Nat} {out : Bytes} (there : i + 32 ≤ out.length) (static : e.isDynamicType = false)
      (room : 32 * n ≤ (out.drop i).length) (inner : Visits elem size index output (.elements e 0 n) (out.drop i)) :
      Visits elem size index output (.value (.array e n) i) out
  | component {e : AbiType} {elems : List AbiType} {i virtual : Nat} {out : Bytes}
      (inner : Visits elem size index output (.value e ((i + virtual) * 32)) out) :
      Visits elem size index output (.components (e :: elems) i virtual) out
  | nextComponent {e : AbiType} {elems : List AbiType} {i virtual : Nat} {out : Bytes} {v : GoVal}
      (unpacked : toGoType e ((i + virtual) * 32) out = .ok v)
      (inner : Visits elem size index output (.components elems (i + 1) (virtual + virtualArgs e)) out) :
      Visits elem size index output (.components (e :: elems) i virtual) out
  | element {e : AbiType} {i n : Nat} {out : Bytes} (inner : Visits elem size index output (.value e i) out) :
      Visits elem size index output (.elements e i (n + 1)) out
  | nextElement {e : AbiType} {i n : Nat} {out : Bytes} {v : GoVal} (unpacked : toGoType e i out = .ok v)
      (inner : Visits elem size index output (.elements e (i + e.getTypeSize) n) out) :
      Visits elem size index output (.elements e i (n + 1)) out

-- The offset at this index is negative, or past the end of the output.
def Strays (index : Nat) (output : Bytes) : Prop :=
  setBytes (((output.drop index).take 32).drop 24) ≥ 2 ^ 63 ∨ setBytes (((output.drop index).take 32).drop 24) > output.length

def Lost (task : Task) (out : Bytes) : Prop :=
  ∃ elem size index output, elem.isDynamicType = true ∧ Visits elem size index output task out ∧ Strays index output

def Panics : Task → Bytes → Prop
  | .value t index, out => toGoType t index out = .error .panic
  | .components elems index virtual, out => forTupleUnpack elems index virtual out = .error .panic
  | .elements elem i size, out => unpackElems (toGoType elem) elem.getTypeSize out i size = .error .panic

section Errors

variable {α β : Type} {index : Nat} {output : Bytes}

theorem bind_panics {first : Except AbiErr α} {next : α → Except AbiErr β} :
    (first >>= next) = .error .panic ↔ first = .error .panic ∨ ∃ value, first = .ok value ∧ next value = .error .panic := by
  cases first with
  | ok value => exact ⟨fun failed => .inr ⟨value, rfl, failed⟩, fun | .inr ⟨_, rfl, failed⟩ => failed⟩
  | error err =>
    constructor
    · intro failed
      have same : err = .panic := Except.error.inj failed
      exact .inl (by rw [same])
    · rintro (failed | ⟨value, same, -⟩)
      · exact congrArg Except.error (Except.error.inj failed)
      · cases same

theorem wordAt_bind {next : Bytes → Except AbiErr α} :
    (wordAt index output >>= next) = .error .panic ↔ index + 32 ≤ output.length ∧ next ((output.drop index).take 32) =
    .error .panic := by
  unfold wordAt
  split
  · exact ⟨nofun, fun both => by omega⟩
  · exact ⟨fun failed => ⟨by omega, failed⟩, fun both => both.2⟩

theorem lengthPrefixPointsTo_fine : lengthPrefixPointsTo index output ≠ .error .panic := by
  unfold lengthPrefixPointsTo
  dsimp only
  split
  · nofun
  · split
    · nofun
    · split
      · nofun
      · split <;> nofun

theorem tuplePointsTo_fine : tuplePointsTo index output ≠ .error .panic := by
  unfold tuplePointsTo
  dsimp only
  split
  · nofun
  · split <;> nofun

theorem readBool_fine (word : Bytes) : readBool word ≠ .error .panic := by
  unfold readBool
  split
  · nofun
  · split <;> nofun

theorem arrayPointsTo_panics {word : Bytes} :
    arrayPointsTo word output = .error .panic ↔ setBytes (word.drop 24) ≥ 2 ^ 63 ∨ setBytes (word.drop 24) > output.length := by
  unfold arrayPointsTo
  dsimp only
  split
  · next stray => exact ⟨fun _ => stray, fun _ => rfl⟩
  · next inside => exact ⟨nofun, fun stray => absurd stray inside⟩

theorem forEachUnpack_panics {kind : GoKind} {elem : AbiType} {size : Nat} :
    forEachUnpack kind elem (toGoType elem) output 0 size = .error .panic ↔ 32 * size ≤ output.length ∧
      Panics (.elements elem 0 size) output := by
  unfold forEachUnpack Panics
  rw [Nat.zero_add]
  split
  · exact ⟨nofun, fun both => by omega⟩
  · rw [bind_panics]
    exact ⟨fun | .inl failed => ⟨by omega, failed⟩ | .inr ⟨_, _, failed⟩ => (nomatch failed), fun both => .inl both.2⟩

end Errors

section Visiting

variable {elem : AbiType} {size index : Nat} {output : Bytes}

theorem Visits.panics {task : Task} {out : Bytes} (dynamic : elem.isDynamicType = true) (strays : Strays index output)
    (visits : Visits elem size index output task out) : Panics task out := by
  induction visits with
  | here there =>
    rw [Panics, toGoType, wordAt_bind, if_pos dynamic]
    exact ⟨there, bind_panics.2 (.inl (arrayPointsTo_panics.2 strays))⟩
  | dynamicTuple there any_dynamic points inner ih =>
    rw [Panics, toGoType, wordAt_bind, if_pos any_dynamic]
    exact ⟨there, bind_panics.2 (.inr ⟨_, points, bind_panics.2 (.inl ih)⟩)⟩
  | staticTuple there static inner ih =>
    rw [Panics, toGoType, wordAt_bind, if_neg (by rw [static]; nofun)]
    exact ⟨there, bind_panics.2 (.inl ih)⟩
  | slice there points room inner ih =>
    rw [Panics, toGoType, wordAt_bind, points]
    exact ⟨there, forEachUnpack_panics.2 ⟨room, ih⟩⟩
  | dynamicArray there any_dynamic points room inner ih =>
    rw [Panics, toGoType, wordAt_bind, if_pos any_dynamic, points]
    exact ⟨there, forEachUnpack_panics.2 ⟨room, ih⟩⟩
  | staticArray there static room inner ih =>
    rw [Panics, toGoType, wordAt_bind, if_neg (by rw [static]; nofun)]
    exact ⟨there, forEachUnpack_panics.2 ⟨room, ih⟩⟩
  | component inner ih =>
    rw [Panics, forTupleUnpack]
    exact bind_panics.2 (.inl ih)
  | nextComponent unpacked inner ih =>
    rw [Panics, forTupleUnpack]
    exact bind_panics.2 (.inr ⟨_, unpacked, bind_panics.2 (.inl ih)⟩)
  | element inner ih =>
    rw [Panics, unpackElems]
    exact bind_panics.2 (.inl ih)
  | nextElement unpacked inner ih =>
    rw [Panics, unpackElems]
    exact bind_panics.2 (.inr ⟨_, unpacked, bind_panics.2 (.inl ih)⟩)

theorem Lost.panics {task : Task} {out : Bytes} (lost : Lost task out) : Panics task out := by
  obtain ⟨elem, size, index, output, dynamic, visits, strays⟩ := lost
  exact visits.panics dynamic strays

theorem Lost.lift {task outer : Task} {inner out : Bytes} (lost : Lost task inner)
    (around : ∀ elem size index output, Visits elem size index output task inner → Visits elem size index output outer out) :
    Lost outer out := by
  obtain ⟨elem, size, index, output, dynamic, visits, strays⟩ := lost
  exact ⟨elem, size, index, output, dynamic, around _ _ _ _ visits, strays⟩

-- The arrays of bytes in a type fit into a word.
def Narrow (t : AbiType) : Prop := ∀ size, AbiType.Within (.fixedBytes size) t → size ≤ 32

theorem elements_lost {e : AbiType} (each : ∀ i out, toGoType e i out = .error .panic → Lost (.value e i) out) (i n : Nat)
    (out : Bytes) (panics : Panics (.elements e i n) out) : Lost (.elements e i n) out := by
  induction n generalizing i with
  | zero => cases panics
  | succ n ih =>
    rw [Panics, unpackElems] at panics
    rcases bind_panics.1 panics with failed | ⟨v, unpacked, later⟩
    · exact (each i out failed).lift fun _ _ _ _ => .element
    · rcases bind_panics.1 later with failed | ⟨_, _, done⟩
      · exact (ih _ failed).lift fun _ _ _ _ => .nextElement unpacked
      · cases done

mutual

theorem toGoType_lost : ∀ (t : AbiType), Narrow t → ∀ (index : Nat) (output : Bytes), toGoType t index output = .error .panic →
    Lost (.value t index) output
  | .tuple elems rawNames, narrow, index, output, panics => by
    rw [toGoType, wordAt_bind] at panics
    obtain ⟨there, panics⟩ := panics
    have components : ∀ out, forTupleUnpack elems 0 0 out = .error .panic → Lost (.components elems 0 0) out :=
      forTupleUnpack_lost elems (fun e member size within => narrow size (.tuple member within)) 0 0
    cases dynamic : AbiType.anyDynamicType elems with
    | true =>
      rw [if_pos dynamic] at panics
      rcases bind_panics.1 panics with failed | ⟨start, points, failed⟩
      · exact absurd failed tuplePointsTo_fine
      · rcases bind_panics.1 failed with failed | ⟨_, _, done⟩
        · exact (components _ failed).lift fun _ _ _ _ => .dynamicTuple there dynamic points
        · cases done
    | false =>
      rw [if_neg (by rw [dynamic]; nofun)] at panics
      rcases bind_panics.1 panics with failed | ⟨_, _, done⟩
      · exact (components _ failed).lift fun _ _ _ _ => .staticTuple there dynamic
      · cases done
  | .slice elem, narrow, index, output, panics => by
    rw [toGoType, wordAt_bind] at panics
    obtain ⟨there, panics⟩ := panics
    rcases bind_panics.1 panics with failed | ⟨⟨start, length⟩, points, failed⟩
    · exact absurd failed lengthPrefixPointsTo_fine
    · obtain ⟨room, failed⟩ := forEachUnpack_panics.1 failed
      have each := toGoType_lost elem fun size within => narrow size (.slice within)
      exact (elements_lost each 0 length _ failed).lift fun _ _ _ _ => .slice there points room
  | .array elem size, narrow, index, output, panics => by
    have each := toGoType_lost elem fun size within => narrow size (.array within)
    rw [toGoType, wordAt_bind] at panics
    obtain ⟨there, panics⟩ := panics
    cases dynamic : elem.isDynamicType with
    | true =>
      rw [if_pos dynamic] at panics
      rcases bind_panics.1 panics with failed | ⟨offset, points, failed⟩
      · exact ⟨elem, size, index, output, dynamic, .here there, arrayPointsTo_panics.1 failed⟩
      · obtain ⟨room, failed⟩ := forEachUnpack_panics.1 failed
        exact (elements_lost each 0 size _ failed).lift fun _ _ _ _ => .dynamicArray there dynamic points room
    | false =>
      rw [if_neg (by rw [dynamic]; nofun)] at panics
      obtain ⟨room, failed⟩ := forEachUnpack_panics.1 panics
      exact (elements_lost each 0 size _ failed).lift fun _ _ _ _ => .staticArray there dynamic room
  | .string, _, index, output, panics => by
    rw [toGoType, wordAt_bind] at panics
    rcases bind_panics.1 panics.2 with failed | ⟨_, _, done⟩
    · exact absurd failed lengthPrefixPointsTo_fine
    · cases done
  | .int _, _, index, output, panics => by
    rw [toGoType, wordAt_bind] at panics
    cases panics.2
  | .uint _, _, index, output, panics => by
    rw [toGoType, wordAt_bind] at panics
    cases panics.2
  | .bool, _, index, output, panics => by
    rw [toGoType, wordAt_bind] at panics
    exact absurd panics.2 (readBool_fine _)
  | .address, _, index, output, panics => by
    rw [toGoType, wordAt_bind] at panics
    cases panics.2
  | .bytes, _, index, output, panics => by
    rw [toGoType, wordAt_bind] at panics
    rcases bind_panics.1 panics.2 with failed | ⟨_, _, done⟩
    · exact absurd failed lengthPrefixPointsTo_fine
    · cases done
  | .fixedBytes size, narrow, index, output, panics => by
    rw [toGoType, wordAt_bind] at panics
    obtain ⟨there, panics⟩ := panics
    have few := narrow size .here
    rw [readFixedBytes, if_neg (by rw [Checked.word_length there]; omega)] at panics
    cases panics

theorem forTupleUnpack_lost : ∀ (elems : List AbiType), (∀ e ∈ elems, Narrow e) → ∀ (index virtual : Nat) (output : Bytes),
    forTupleUnpack elems index virtual output = .error .panic → Lost (.components elems index virtual) output
  | [], _, index, virtual, output, panics => by
    rw [forTupleUnpack] at panics
    cases panics
  | e :: elems, narrow, index, virtual, output, panics => by
    obtain ⟨first, others⟩ := List.forall_mem_cons.mp narrow
    rw [forTupleUnpack] at panics
    rcases bind_panics.1 panics with failed | ⟨v, unpacked, later⟩
    · exact (toGoType_lost e first _ output failed).lift fun _ _ _ _ => .component
    · rcases bind_panics.1 later with failed | ⟨_, _, done⟩
      · exact (forTupleUnpack_lost elems others _ _ output failed).lift fun _ _ _ _ => .nextComponent unpacked
      · cases done

end

end Visiting

-- Unpacking slices out of range exactly if it comes to a fixed-size array of dynamic elements whose offset is out of range.
theorem unpackValues_in_range (arguments : List Argument) (data : Bytes) (short : data.length ≤ maxAlloc)
    (narrow : ∀ arg ∈ arguments, Narrow arg.type) (bounded : ∀ arg ∈ arguments, Checked.Bounded data.length arg.type) :
    Checked.unpackValues arguments data ≠ .error .panic ↔
      ∀ elem size index output, elem.isDynamicType = true →
        Visits elem size index output (.components ((nonIndexed arguments).map Argument.type) 0 0) data →
        ¬ Strays index output := by
  have types : ∀ {P : AbiType → Prop}, (∀ arg ∈ arguments, P arg.type) → ∀ t ∈ (nonIndexed arguments).map Argument.type, P t := by
    intro P holds t member
    obtain ⟨arg, there, rfl⟩ := List.mem_map.mp member
    exact holds arg (List.mem_of_mem_filter there)
  have same := Checked.forTupleUnpack_eq short _ (types bounded) data (Nat.le_refl _) 0 0 (by decide)
  rw [Checked.unpackValues, show Checked.forTupleUnpack _ 0 0 data = _ from same]
  constructor
  · intro fine elem size index output dynamic visits strays
    exact fine (visits.panics dynamic strays)
  · intro inside panics
    obtain ⟨elem, size, index, output, dynamic, visits, strays⟩ := forTupleUnpack_lost _ (types narrow) 0 0 data panics
    exact inside elem size index output dynamic visits strays

theorem narrow_bytes : Narrow .bytes := fun _ within => by cases within

theorem bounded_bytes : Checked.Bounded 32 .bytes := by
  rintro _ ⟨⟩
  exact ⟨by decide, by decide, by decide, nofun⟩

-- Bytes whose offset is as large as it can be.
theorem unpackValues_in_range_bytes :
    Checked.unpackValues [{ name := "a", type := .bytes }] (List.replicate 32 0xff) ≠ .error .panic := by
  refine (unpackValues_in_range [{ name := "a", type := .bytes }] (List.replicate 32 0xff) (by decide) ?_ ?_).2 ?_
  · intro arg member
    obtain rfl := List.mem_singleton.mp member
    exact narrow_bytes
  · intro arg member
    obtain rfl := List.mem_singleton.mp member
    exact bounded_bytes
  · intro elem size index output dynamic visits
    cases visits with
    | component inner => cases inner
    | nextComponent unpacked inner => cases inner

theorem bounded_strings : Checked.Bounded 32 (.array .string 1) := by
  intro u within
  cases within with
  | here => exact ⟨by decide, by decide, by decide, by rintro _ _ ⟨⟩; decide⟩
  | array within =>
    cases within
    exact ⟨by decide, by decide, by decide, nofun⟩

-- An array of one string, whose offset is negative as an `int64`.
theorem unpackValues_stray :
    Checked.unpackValues [{ name := "a", type := .array .string 1 }] (List.replicate 32 0xff) = .error .panic := by
  have lost : Lost (.components [.array .string 1] 0 0) (List.replicate 32 0xff) :=
    ⟨.string, 1, 0, List.replicate 32 0xff, rfl, .component (.here (by decide)), .inl (by decide +kernel)⟩
  have same := Checked.forTupleUnpack_eq (show 32 ≤ maxAlloc by decide) [.array .string 1]
    (fun e member => List.mem_singleton.mp member ▸ bounded_strings) (List.replicate 32 0xff) (by decide) 0 0 (by decide)
  exact same.trans lost.panics

end CuteEVM
