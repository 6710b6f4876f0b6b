import CuteEVM.Rlp.ArrayReading

set_option autoImplicit false

-- The slice decoder ends unless it comes to a zero byte that it takes for an array of length one, and values are read
-- back as they were unless such a byte is followed by anything in its list.

namespace CuteEVM

open Rlp (Item)
open Read

namespace ArrayType

variable {b : Bytes} {n rounds : Nat} {v : List Bytes}

section Termination

theorem slice_forever (stuck : Stuck b) (rounds : Nat) : (slice 1).decodeBytes rounds b = .error .outOfFuel := by
  by_contra ends
  replace ends := decodeBytes_ends.1 ends
  obtain ⟨vs, more, tail, single, small, rfl⟩ := stuck
  obtain ⟨s₁, entered, poised⟩ := enter_complete small (start_poised _)
  rw [List.append_assoc, List.cons_append] at poised
  have length : (written vs ++ 0 :: more).length = (written vs).length + 1 + more.length := by
    rw [List.length_append, List.length_cons]
    omega
  have room : FitsList ((written vs).length + 1) [⟨0, (written vs ++ 0 :: more).length⟩] := by
    show 0 + ((written vs).length + 1) ≤ (written vs ++ 0 :: more).length
    omega
  obtain ⟨s₂, ran⟩ := elems_forever single poised room rounds []
  unfold decoder decodeArraySlice Ends at ends
  dsimp only at ends
  rw [bind_read entered, if_neg (by omega), bind_error ran] at ends
  exact ends rfl

theorem slice_ends (positive : 1 ≤ n) (free : ¬ (n = 1 ∧ Stuck b)) :
    ∃ rounds, (slice n).decodeBytes rounds b ≠ .error .outOfFuel := by
  refine ⟨b.length + 1, decodeBytes_ends.2 ?_⟩
  rcases enter_sound (start_poised b) with ⟨payload, tail, s₁, rfl, small, entered, poised⟩ | ⟨ends, never⟩
  · unfold decoder decodeArraySlice Ends
    dsimp only
    rw [bind_read entered]
    split
    · exact Ends.bind (listEnd_ends s₁) fun _ _ _ => ends_pure _ _
    · have shorter : (payload ++ tail).length < (Rlp.header 0xc0 payload.length ++ (payload ++ tail)).length + 1 := by
        simp only [List.length_append]
        omega
      rcases elems_sound positive poised (Nat.zero_le _) shorter [] with ends | ⟨single, vs, more, nonzero, shape, room⟩
      · exact Ends.bind ends fun _ s₂ _ => Ends.bind (listEnd_ends s₂) fun _ _ _ => ends_pure _ _
      · -- The zero byte is inside the list.
        refine absurd ⟨single, vs, more.take (payload.length - (written vs).length - 1), tail, nonzero, ?_⟩ free
        have inside : (written vs).length + 1 ≤ payload.length := by
          have room : 0 + ((written vs).length + 1) ≤ payload.length := room
          omega
        have split : payload = written vs ++ 0 :: more.take (payload.length - (written vs).length - 1) := by
          have front := congrArg (List.take payload.length) shape
          rw [List.take_left, List.take_append, List.take_of_length_le (by omega),
            show payload.length - (written vs).length = (payload.length - (written vs).length - 1) +
              1 by omega, List.take_succ_cons] at front
          exact front
        rw [← split]
        exact ⟨small, rfl⟩
  · exact Ends.bind ends fun size s' ran => absurd ran (never size s')

theorem fixed_ends {few : String} {fields : List (String × Nat)} (positive : ∀ field ∈ fields, 1 ≤ field.2) (b : Bytes) :
    Ends (decodeFixed few fields) { r := b, remaining := b.length } := by
  rcases enter_sound (start_poised b) with ⟨payload, tail, s₁, rfl, small, entered, poised⟩ | ⟨ends, never⟩
  · unfold decodeFixed Ends
    rw [bind_read entered]
    exact Ends.bind (fields_ends positive poised (Nat.zero_le _)) fun _ s₂ _ =>
      Ends.bind (ends_wrapped (listEnd_ends s₂)) fun _ _ _ => ends_pure _ _
  · exact Ends.bind ends fun size s' ran => absurd ran (never size s')

theorem bytes_ends (positive : 1 ≤ n) (b : Bytes) : Ends ((bytes n).decoder rounds) { r := b, remaining := b.length } := by
  refine Ends.bind ?_ fun _ _ _ => ends_pure _ _
  rcases decodeByteArray_sound (start_poised b) trivial positive with
    ⟨ended, -⟩ | ⟨v, rest, s', -, -, -, read, -⟩ | ⟨err, s', failed, proper⟩
  · exact ended.elim
  · unfold Ends
    rw [read]
    nofun
  · exact ends_of_proper failed proper

theorem ends_iff (type : ArrayType) (positive : ∀ n ∈ type.sizes, 1 ≤ n) (b : Bytes) :
    (∃ rounds, type.decodeBytes rounds b ≠ .error .outOfFuel) ↔ ¬ (type = slice 1 ∧ Stuck b) := by
  constructor
  · rintro ⟨rounds, ends⟩ ⟨rfl, stuck⟩
    exact ends (slice_forever stuck rounds)
  · intro free
    cases type with
    | bytes n => exact ⟨0, decodeBytes_ends.2 (bytes_ends (positive n (List.mem_singleton_self n)) b)⟩
    | slice n => exact slice_ends (positive n (List.mem_singleton_self n)) fun ⟨single, stuck⟩ => free ⟨by rw [single], stuck⟩
    | array length n =>
      refine ⟨0, decodeBytes_ends.2 (fixed_ends (fun field member => ?_) b)⟩
      obtain ⟨i, -, rfl⟩ := List.mem_map.mp member
      exact positive n (List.mem_singleton_self n)
    | struct name fields =>
      refine ⟨0, decodeBytes_ends.2 (fixed_ends (fun field member => ?_) b)⟩
      obtain ⟨inner, inside, rfl⟩ := List.mem_map.mp member
      exact positive inner.2 (List.mem_map_of_mem inside)

end Termination

section RoundTrip

-- No array is a zero byte, unless nothing comes after it.
def Kept : ArrayType → List Bytes → Prop
  | bytes _, _ => True
  | slice _, v => [0] ∉ v
  | array _ _, v => [0] ∉ v.dropLast
  | struct _ _, v => [0] ∉ v.dropLast

instance : ∀ (type : ArrayType) (v : List Bytes), Decidable (type.Kept v)
  | bytes _, _ => inferInstanceAs (Decidable True)
  | slice _, v => inferInstanceAs (Decidable ([0] ∉ v))
  | array _ _, v => inferInstanceAs (Decidable ([0] ∉ v.dropLast))
  | struct _ _, v => inferInstanceAs (Decidable ([0] ∉ v.dropLast))

theorem encode_list (v : List Bytes) :
    Rlp.encode (.list (v.map Item.str)) = Rlp.header 0xc0 (written v).length ++ (written v ++ []) := by
  rw [Rlp.encode, List.append_nil]
  rfl

theorem length_le_written {x : Bytes} (member : x ∈ v) : x.length ≤ (written v).length := by
  induction v with
  | nil => cases member
  | cons y v ih =>
    rw [written_cons, List.length_append]
    rcases List.mem_cons.mp member with rfl | later
    · have inside := str_le_encode x
      rw [Rlp.encode] at inside
      omega
    · have inside := ih later
      omega

theorem written_append (first second : List Bytes) : written (first ++ second) = written first ++ written second := by
  rw [written, List.map_append, Rlp.encodeAll_append]
  rfl

theorem slice_kept (sized : ∀ x ∈ v, x.length = n) (nonzero : [0] ∉ v) (small : (written v).length < 2 ^ 64) :
    ∃ rounds, (slice n).decodeBytes rounds (Rlp.header 0xc0 (written v).length ++ (written v ++ [])) = .ok v := by
  refine ⟨v.length + 1, ?_⟩
  obtain ⟨s₁, entered, poised⟩ := @enter_complete _ (written v) [] small (start_poised _)
  have ended : AtEnd (bump (written v).length [⟨0, (written v).length⟩]) := Nat.zero_add _
  by_cases empty : v = []
  · subst empty
    obtain ⟨s₂, left, poised₂⟩ := listEnd_ended poised.toAt rfl
    refine @decodeBytes_ok s₂ _ _ _ _ ?_ poised₂.input
    unfold decoder decodeArraySlice
    dsimp only
    rw [bind_read entered, if_pos (show (written []).length = 0 from rfl), bind_read left]
    rfl
  · have some_bytes := written_length_pos empty
    have length : n < 2 ^ 64 := by
      obtain ⟨x, member⟩ := List.exists_mem_of_ne_nil v empty
      have first := sized x member
      have inside := length_le_written member
      omega
    obtain ⟨s₂, ran, poised₂⟩ :=
      elems_complete (fun y member => ⟨sized y member, fun zero => nonzero (zero ▸ member)⟩) length poised ended
      (Nat.lt_succ_self _) []
    obtain ⟨s₃, left, poised₃⟩ := listEnd_ended poised₂.toAt ended
    refine @decodeBytes_ok s₃ _ _ _ _ ?_ poised₃.input
    unfold decoder decodeArraySlice
    dsimp only
    rw [bind_read entered, if_neg (by omega), bind_read ran, bind_read left]
    rfl

theorem slice_zero (sized : ∀ x ∈ v, x.length = n) (zero : [0] ∈ v) (small : (written v).length < 2 ^ 64) :
    n = 1 ∧ Stuck (Rlp.header 0xc0 (written v).length ++ (written v ++ [])) := by
  have single : n = 1 := (sized [0] zero).symm
  subst single
  obtain ⟨before, after, rfl, first⟩ := List.eq_append_cons_of_mem zero
  have self : Rlp.encodeString [0] = [0] := encodeString_byte (by decide)
  have shape : written (before ++ [0] :: after) = written before ++ 0 :: written after := by
    rw [written_append, written_cons, self]
    rfl
  refine ⟨rfl, before, written after, [], fun x member => ⟨sized x (List.mem_append_left _ member), ?_⟩, ?_, ?_⟩
  · rintro rfl
    exact first member
  · rwa [← shape]
  · rw [← shape]

theorem fixed_kept {few : String} {fields : List (String × Nat)} (sized : v.map List.length = fields.map Prod.snd)
    (nonzero : [0] ∉ v.dropLast) (small : (written v).length < 2 ^ 64) :
    ∃ s, decodeFixed few fields
      { r := Rlp.header 0xc0 (written v).length ++ (written v ++ []),
        remaining := (Rlp.header 0xc0 (written v).length ++ (written v ++ [])).length } = (.ok v, s) ∧ s.r = [] := by
  obtain ⟨s₁, entered, poised⟩ := @enter_complete _ (written v) [] small (start_poised _)
  have ended : AtEnd (bump (written v).length [⟨0, (written v).length⟩]) := Nat.zero_add _
  have short : ∀ x ∈ v, x.length < 2 ^ 64 := fun x member => Nat.lt_of_le_of_lt (length_le_written member) small
  obtain ⟨s₂, ran, at_⟩ := @fields_complete s₁ [] _ few fields v sized short nonzero poised (AtEnd.room ended)
  obtain ⟨s₃, left, poised₃⟩ := listEnd_ended at_ ended
  refine ⟨s₃, ?_, poised₃.input⟩
  have closed : wrapped listEnd s₂ = (.ok (), s₃) := by
    unfold wrapped
    rw [attempt_read left]
    rfl
  unfold decodeFixed
  rw [bind_read entered, bind_read ran, bind_read closed]
  rfl

theorem fixed_zero {few : String} {fields : List (String × Nat)} (positive : ∀ field ∈ fields, 1 ≤ field.2)
    (sized : v.map List.length = fields.map Prod.snd) (zero : [0] ∈ v.dropLast) (small : (written v).length < 2 ^ 64)
    (s : Stream) :
    decodeFixed few fields
      { r := Rlp.header 0xc0 (written v).length ++ (written v ++ []),
        remaining := (Rlp.header 0xc0 (written v).length ++ (written v ++ [])).length } ≠ (.ok v, s) := by
  obtain ⟨s₁, entered, poised⟩ := @enter_complete _ (written v) [] small (start_poised _)
  have ended : AtEnd (bump (written v).length [⟨0, (written v).length⟩]) := Nat.zero_add _
  have short : ∀ x ∈ v, x.length < 2 ^ 64 := fun x member => Nat.lt_of_le_of_lt (length_le_written member) small
  unfold decodeFixed
  rw [bind_read entered]
  rcases @fields_short s₁ [] _ few fields v positive sized short zero poised (AtEnd.room ended) with
    ⟨err, s₂, failed⟩ | ⟨vs, s₂, r, m, ran, below, at_⟩
  · rw [bind_error failed]
    nofun
  · have early := @listEnd_early s₂ ⟨0 + m, (written v).length⟩ [] r at_ (by dsimp only; omega)
    have closed : wrapped listEnd s₂ = (.error (wrapStreamError .notAtEOL), s₂) := by
      unfold wrapped
      rw [attempt_read early]
      rfl
    rw [bind_read ran, bind_error closed]
    nofun

theorem fixed_iff {type : ArrayType} {few : String} {fields : List (String × Nat)}
    (decoder : ∀ rounds, type.decoder rounds = decodeFixed few fields)
    (positive : ∀ field ∈ fields, 1 ≤ field.2) (sized : v.map List.length = fields.map Prod.snd)
    (small : (written v).length < 2 ^ 64) :
    (∃ rounds, type.decodeBytes rounds (Rlp.header 0xc0 (written v).length ++ (written v ++ [])) = .ok v) ↔ [0] ∉ v.dropLast := by
  constructor
  · rintro ⟨rounds, decoded⟩ zero
    obtain ⟨s, ran⟩ := decoder_ok decoded
    rw [decoder] at ran
    exact fixed_zero positive sized zero small s ran
  · intro nonzero
    obtain ⟨s, ran, all⟩ := @fixed_kept v few fields sized nonzero small
    exact ⟨0, @decodeBytes_ok s _ _ _ _ (by rw [decoder]; exact ran) all⟩

end RoundTrip

end ArrayType

-- When decoding into arrays ends, and when a value is read back.
theorem arrays_decoded (type : ArrayType) (positive : ∀ n ∈ type.sizes, 1 ≤ n) :
    (∀ b, (∃ rounds, type.decodeBytes rounds b ≠ .error .outOfFuel) ↔ ¬ (type = .slice 1 ∧ Stuck b)) ∧
    ∀ v, type.Holds v → (Rlp.encode (type.item v)).length < 2 ^ 63 →
      ∃ b, type.encodeToBytes v = some b ∧ ((∃ rounds, type.decodeBytes rounds b = .ok v) ↔ type.Kept v) := by
  refine ⟨type.ends_iff positive, fun v holds small => ⟨_, encodeToBytes_eq (by omega), ?_⟩⟩
  have list_small : ∀ {w : List Bytes}, (Rlp.encode (.list (w.map Item.str))).length < 2 ^ 63 → (written w).length < 2 ^ 64 := by
    intro w short
    rw [ArrayType.encode_list] at short
    simp only [List.length_append, List.length_nil] at short
    omega
  cases type with
  | bytes n =>
    obtain ⟨x, rfl, rfl⟩ : ∃ x, v = [x] ∧ x.length = n := by
      obtain ⟨x, rfl⟩ := List.length_eq_one_iff.mp (show v.length = 1 by rw [← List.length_map, holds]; rfl)
      exact ⟨x, rfl, List.head_eq_of_cons_eq holds⟩
    have inside := str_le_encode x
    have short : x.length < 2 ^ 64 := by
      have small : (Rlp.encode (.str x)).length < 2 ^ 63 := small
      omega
    have whole : Rlp.encode (.str x) = Rlp.encodeString x ++ [] := by rw [Rlp.encode, List.append_nil]
    obtain ⟨s, read, passed⟩ := @decodeByteArray_complete _ [] [] x short (start_poised _) trivial
    refine ⟨fun _ => trivial, fun _ => ⟨0, @ArrayType.decodeBytes_ok s _ _ _ _ ?_ passed.at_.input⟩⟩
    show ArrayType.decoder 0 (.bytes x.length) { r := Rlp.encode (.str x), remaining := (Rlp.encode (.str x)).length } = _
    rw [whole, ArrayType.decoder, bind_read read]
    rfl
  | slice n =>
    have short := list_small small
    show (∃ rounds, ArrayType.decodeBytes _ rounds (Rlp.encode (.list (v.map Item.str))) = .ok v) ↔ [0] ∉ v
    rw [ArrayType.encode_list]
    refine ⟨?_, fun nonzero => ArrayType.slice_kept holds nonzero short⟩
    rintro ⟨rounds, decoded⟩ zero
    obtain ⟨rfl, stuck⟩ := ArrayType.slice_zero holds zero short
    rw [ArrayType.slice_forever stuck rounds] at decoded
    cases decoded
  | array length n =>
    have short := list_small small
    show (∃ rounds, ArrayType.decodeBytes _ rounds (Rlp.encode (.list (v.map Item.str))) = .ok v) ↔ [0] ∉ v.dropLast
    rw [ArrayType.encode_list]
    refine ArrayType.fixed_iff (fun _ => rfl) (fun field member => ?_) ?_ short
    · obtain ⟨i, -, rfl⟩ := List.mem_map.mp member
      exact positive n (List.mem_singleton_self n)
    · rw [List.map_map, show v.map List.length = _ from holds]
      simp [Function.comp_def]
  | struct name fields =>
    have short := list_small small
    show (∃ rounds, ArrayType.decodeBytes _ rounds (Rlp.encode (.list (v.map Item.str))) = .ok v) ↔ [0] ∉ v.dropLast
    rw [ArrayType.encode_list]
    refine ArrayType.fixed_iff (fun _ => rfl) (fun field member => ?_) ?_ short
    · obtain ⟨inner, inside, rfl⟩ := List.mem_map.mp member
      exact positive inner.2 (List.mem_map_of_mem inside)
    · rw [List.map_map]
      exact holds

theorem arrays_decoded_pair :
    ∃ rounds, (ArrayType.slice 2).decodeBytes rounds [0xc6, 0x82, 0x00, 0x00, 0x82, 0x00, 0x07] = .ok [[0, 0], [0, 7]] := by
  obtain ⟨b, encoded, iff⟩ := (arrays_decoded (.slice 2) (by decide)).2 [[0, 0], [0, 7]] (by decide) (by decide +kernel)
  have same : (ArrayType.slice 2).encodeToBytes [[0, 0], [0, 7]] = some [0xc6, 0x82, 0x00, 0x00, 0x82, 0x00, 0x07] := by
    decide +kernel
  rw [same] at encoded
  cases encoded
  exact iff.2 (by decide)

-- A slice with one array that holds one zero byte is encoded, and decoding the result does not end.
theorem arrays_decoded_zero :
    (ArrayType.slice 1).Holds [[0]] ∧ (ArrayType.slice 1).encodeToBytes [[0]] = some [0xc1, 0x00] ∧
    ¬ ∃ rounds, (ArrayType.slice 1).decodeBytes rounds [0xc1, 0x00] ≠ .error .outOfFuel := by
  refine ⟨by decide, by decide +kernel, ?_⟩
  rintro ⟨rounds, ends⟩
  exact ends (ArrayType.slice_forever ⟨[], [], [], nofun, by decide, rfl⟩ rounds)

end CuteEVM
