import CuteEVM.Abi.RoundTrip

set_option autoImplicit false

namespace CuteEVM

open HeadTail (Part tails)
open AbiType

section RoundTrip

theorem packArguments_ok {arguments : List Argument} {args : List GoVal} {out : Bytes} (same : args.length = arguments.length) :
    packArguments arguments args = .ok out ↔ ∃ parts, Packs (arguments.map Argument.type) args parts ∧
      out = HeadTail.heads packLen (getTypeSizes (arguments.map Argument.type)) parts ++ tails parts := by
  unfold packArguments
  rw [if_neg (not_not.mpr same), except_bind_ok]
  have bytes := run_bytes [] (getTypeSizes (arguments.map Argument.type))
  constructor
  · rintro ⟨p, ran, result⟩
    obtain ⟨parts, packs, rfl⟩ := (packArgs_ok same).1 ran
    exact ⟨parts, packs, (Except.ok.inj result).symm.trans (bytes parts)⟩
  · rintro ⟨parts, packs, rfl⟩
    exact ⟨_, (packArgs_ok same).2 ⟨parts, packs, rfl⟩, congrArg Except.ok (bytes parts)⟩

theorem forTupleUnpack_length {ts : List AbiType} {index virtual : Nat} {output : Bytes} {vs : List GoVal}
    (unpacked : forTupleUnpack ts index virtual output = .ok vs) : vs.length = ts.length := by
  induction ts generalizing index virtual vs with
  | nil =>
    rw [forTupleUnpack] at unpacked
    cases unpacked
    rfl
  | cons t ts ih =>
    rw [forTupleUnpack, except_bind_ok] at unpacked
    obtain ⟨v, -, unpacked⟩ := unpacked
    obtain ⟨rest, others, result⟩ := except_bind_ok.1 unpacked
    cases result
    rw [List.length_cons, List.length_cons, ih others]

-- The round trip of the arguments, and the sizes of the static types in them, if and only if no argument is indexed, no
-- array has tuples of several words, and no slice of arrays is empty.
theorem abi_round_trip (arguments : List Argument) (args : List GoVal) (valid : ∀ t ∈ arguments.map Argument.type, Supported t)
    (typed : List.Forall₂ HasType (arguments.map Argument.type) args)
    (fits : ∀ out, packArguments arguments args = .ok out → out.length < 2 ^ 63) :
    ((∃ out, packArguments arguments args = .ok out ∧ unpackValues arguments out = .ok args) ∧
      ∀ t ∈ arguments.map Argument.type, t.Measured) ↔
    (∀ arg ∈ arguments, arg.indexed = false) ∧ (∀ t ∈ arguments.map Argument.type, OneWordTuples t) ∧
      ∀ pair ∈ (arguments.map Argument.type).zip args, HasFirst pair.1 pair.2 := by
  have same : args.length = arguments.length := by
    rw [← typed.length_eq, List.length_map]
  constructor
  · rintro ⟨⟨out, packed, unpacked⟩, measured⟩
    obtain ⟨parts, packs, rfl⟩ := (packArguments_ok same).1 packed
    refine ⟨?_, fun t member => oneWordTuples_of_measured (valid t member) (measured t member), ?_⟩
    · -- There are as many values as arguments that are not indexed.
      have count := forTupleUnpack_length unpacked
      rw [List.length_map, same] at count
      have all := List.length_filter_eq_length_iff.1 count.symm
      intro arg member
      simpa using all arg member
    · intro pair member
      obtain ⟨enc, packed⟩ := packs.each pair member
      exact pack_hasFirst (valid _ (List.of_mem_zip member).1) (List.forall₂_zip typed member) packed
  · rintro ⟨plain, narrow, first⟩
    refine ⟨?_, fun t member => measured_of_oneWordTuples (valid t member) (narrow t member)⟩
    have each : ∀ pair ∈ (arguments.map Argument.type).zip args, Supported pair.1 ∧ OneWordTuples pair.1 ∧ HasType pair.1 pair.2 :=
      fun pair member => ⟨valid _ (List.of_mem_zip member).1, narrow _ (List.of_mem_zip member).1, List.forall₂_zip typed member⟩
    obtain ⟨parts, packs⟩ := packs_of_each typed.length_eq.symm
      (fun pair member => pack_succeeds (each pair member).1 (each pair member).2.2 (first pair member))
    have packed := (packArguments_ok same).2 ⟨parts, packs, rfl⟩
    refine ⟨_, packed, ?_⟩
    have none_indexed : nonIndexed arguments = arguments := List.filter_eq_self.2 fun arg member => by rw [plain arg member]; rfl
    unfold unpackValues
    rw [none_indexed]
    exact forTupleUnpack_packed valid narrow packs
      (fun pair member => unpacks_typed (each pair member).1 (each pair member).2.1 (each pair member).2.2)
      (List.append_nil _).symm (fits _ packed)

end RoundTrip

section Samples

def sampleRecord : AbiType := .tuple [.string, .array (.uint 8) 2] ["name", "pair_of"]

def sampleArguments : List Argument := [⟨"records", .slice sampleRecord, false⟩, ⟨"shift", .int 24, false⟩]

def sampleArgs : List GoVal :=
  [.seq .slice .struct [.struct [⟨"Name", none⟩, ⟨"PairOf", none⟩]
    [.string [0x61], .seq .array .uint8 [.num .uint8 7, .num .uint8 8]]], .num .ptr (-5)]

theorem sampleNames : ["name", "pair_of"].map toCamelCase = ["Name", "PairOf"] := rfl

theorem sampleRecord_valid : Supported sampleRecord := by
  refine .tuple nofun rfl (by rw [sampleNames]; decide) (by rw [sampleNames]; decide) ?_
  rw [List.forall_mem_cons, List.forall_mem_cons]
  exact ⟨.string, .array (by decide) (.uint (by decide) (by decide)), nofun⟩

theorem sampleArguments_valid : ∀ t ∈ sampleArguments.map Argument.type, Supported t := by
  show ∀ t ∈ [AbiType.slice sampleRecord, .int 24], Supported t
  rw [List.forall_mem_cons, List.forall_mem_cons]
  exact ⟨.slice sampleRecord_valid, .int (by decide) (by decide), nofun⟩

theorem sampleArgs_typed : List.Forall₂ HasType (sampleArguments.map Argument.type) sampleArgs := by
  have bytes : HasType (.array (.uint 8) 2) (.seq .array .uint8 [.num .uint8 7, .num .uint8 8]) := by
    have all : ∀ v ∈ [GoVal.num .uint8 7, .num .uint8 8], HasType (.uint 8) v := by
      rw [List.forall_mem_cons, List.forall_mem_cons]
      exact ⟨.uint (by decide) (by decide), .uint (by decide) (by decide), nofun⟩
    exact HasType.array all
  have record :
    HasType sampleRecord (.struct (["name", "pair_of"].map structField)
      [.string [0x61], .seq .array .uint8 [.num .uint8 7, .num .uint8 8]]) :=
    .tuple (.cons (.string _) (.cons bytes .nil))
  have names : ["name", "pair_of"].map structField = [⟨"Name", none⟩, ⟨"PairOf", none⟩] := rfl
  rw [names] at record
  refine .cons (.slice ?_) (.cons (.int (by decide) (by decide)) .nil)
  rw [List.forall_mem_cons]
  exact ⟨record, nofun⟩

-- The only array is one of numbers.
theorem sampleArguments_narrow : ∀ t ∈ sampleArguments.map Argument.type, OneWordTuples t := by
  intro t member elems rawNames size within static
  rcases List.mem_cons.1 member with rfl | member
  · cases within with
    | slice within =>
      cases within with
      | tuple member within =>
        rcases List.mem_cons.1 member with rfl | member
        · cases within
        · obtain rfl := List.mem_singleton.1 member
          cases within with
          | array within => cases within
  · obtain rfl := List.mem_singleton.1 member
    cases within

-- The only slice has an element, and is not one of arrays.
theorem sampleArgs_first : ∀ pair ∈ (sampleArguments.map Argument.type).zip sampleArgs, HasFirst pair.1 pair.2 := by
  rintro pair member elem size kind k items contains rfl
  rcases List.mem_cons.1 member with rfl | member
  · cases contains with
    | slice member contains =>
      obtain rfl := List.mem_singleton.1 member
      cases contains with
      | tuple member contains =>
        rcases List.mem_cons.1 member with same | member
        · cases same
          cases contains
        · cases List.mem_singleton.1 member
          cases contains with
          | array member contains =>
            cases contains
  · obtain rfl := List.mem_singleton.1 member
    cases contains

theorem abi_round_trip_sample :
    ∃ out, packArguments sampleArguments sampleArgs = .ok out ∧ unpackValues sampleArguments out = .ok sampleArgs := by
  have short : (packArguments sampleArguments sampleArgs).toOption.all (fun out => out.length < 2 ^ 63) = true := by decide +kernel
  refine ((abi_round_trip sampleArguments sampleArgs sampleArguments_valid sampleArgs_typed ?_).2 ⟨?_, ?_, ?_⟩).1
  · intro out packed
    rw [packed] at short
    exact of_decide_eq_true short
  · decide
  · exact sampleArguments_narrow
  · exact sampleArgs_first

-- Two pairs of numbers take four words, but are counted as two.
def pairType : AbiType := .tuple [.uint 256, .uint 256] ["a", "b"]

def pairArguments : List Argument := [⟨"pairs", .array pairType 2, false⟩, ⟨"last", .uint 256, false⟩]

def pairValue (a b : Int) : GoVal := .struct (["a", "b"].map structField) [.num .ptr a, .num .ptr b]

def pairArgs : List GoVal := [.seq .array .struct [pairValue 1 2, pairValue 3 4], .num .ptr 5]

def GoVal.num? : GoVal → Option Int
  | .num _ n => some n
  | _ => none

def lastNumber (result : Except AbiErr (List GoVal)) : Option Int := result.toOption.bind fun vs => vs.getLast?.bind GoVal.num?

def emptyArguments : List Argument := [⟨"rows", .slice (.array (.uint 256) 2), false⟩]

theorem pairArguments_valid : ∀ t ∈ pairArguments.map Argument.type, Supported t := by
  have number : Supported (.uint 256) := .uint (by decide) (by decide)
  have names : ["a", "b"].map toCamelCase = ["A", "B"] := rfl
  have pair : Supported pairType := by
    refine .tuple nofun rfl (by rw [names]; decide) (by rw [names]; decide) ?_
    rw [List.forall_mem_cons, List.forall_mem_cons]
    exact ⟨number, number, nofun⟩
  show ∀ t ∈ [AbiType.array pairType 2, .uint 256], Supported t
  rw [List.forall_mem_cons, List.forall_mem_cons]
  exact ⟨.array (by decide) pair, number, nofun⟩

theorem pairArgs_typed : List.Forall₂ HasType (pairArguments.map Argument.type) pairArgs := by
  have number : ∀ n : Int, 0 ≤ n → n < 2 ^ 256 → HasType (.uint 256) (.num .ptr n) := fun _ => .uint
  have pair : ∀ a b : Int, 0 ≤ a → a < 2 ^ 256 → 0 ≤ b → b < 2 ^ 256 → HasType pairType (pairValue a b) :=
    fun a b low high low' high' => .tuple (.cons (number a low high) (.cons (number b low' high') .nil))
  have all : ∀ v ∈ [pairValue 1 2, pairValue 3 4], HasType pairType v := by
    rw [List.forall_mem_cons, List.forall_mem_cons]
    exact ⟨pair 1 2 (by decide) (by decide) (by decide) (by decide), pair 3 4 (by decide) (by decide) (by decide) (by decide),
      nofun⟩
  exact .cons (HasType.array all) (.cons (number 5 (by decide) (by decide)) .nil)

-- The number after the pairs is read from among them, and an empty slice of arrays makes the packing panic.
theorem abi_round_trip_fails :
    ((∀ t ∈ pairArguments.map Argument.type, Supported t) ∧ List.Forall₂ HasType (pairArguments.map Argument.type) pairArgs ∧
      ∃ out, packArguments pairArguments pairArgs = .ok out ∧ lastNumber (unpackValues pairArguments out) = some 3 ∧
        unpackValues pairArguments out ≠ .ok pairArgs) ∧
    (∀ t ∈ emptyArguments.map Argument.type, Supported t) ∧
      List.Forall₂ HasType (emptyArguments.map Argument.type) [.seq .slice .array []] ∧
      packArguments emptyArguments [.seq .slice .array []] = .error .panic := by
  have number : Supported (.uint 256) := .uint (by decide) (by decide)
  have reads : ((packArguments pairArguments pairArgs).toOption.bind fun out => lastNumber (unpackValues pairArguments out)) =
      some 3 := by
    decide +kernel
  refine ⟨⟨pairArguments_valid, pairArgs_typed, ?_⟩, ?_, .cons (HasType.slice nofun) .nil, rfl⟩
  · cases packed : packArguments pairArguments pairArgs with
    | error err =>
      rw [packed] at reads
      cases reads
    | ok out =>
      rw [packed] at reads
      refine ⟨out, rfl, reads, fun same => ?_⟩
      have five : lastNumber (unpackValues pairArguments out) = some 5 := by rw [same]; rfl
      rw [show lastNumber (unpackValues pairArguments out) = some 3 from reads] at five
      cases five
  · show ∀ t ∈ [AbiType.slice (.array (.uint 256) 2)], Supported t
    rw [List.forall_mem_cons]
    exact ⟨.slice (.array (by decide) number), nofun⟩

end Samples

end CuteEVM
