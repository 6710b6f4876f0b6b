import CuteEVM.Rlp.ByteArrays
import CuteEVM.Rlp.Values

set_option autoImplicit false

-- A single zero byte is left on the stream, which then gives it again and again.

namespace CuteEVM

open Read

section Ending

variable {α β : Type} {s : Stream}

def Ends (read : Read α) (s : Stream) : Prop := (read s).1 ≠ .error .outOfFuel

theorem Ends.bind {first : Read α} {next : α → Read β} (ends : Ends first s)
    (then_ends : ∀ value s', first s = (.ok value, s') → Ends (next value) s') : Ends (first >>= next) s := by
  unfold Ends at *
  rcases ran : first s with ⟨outcome, s'⟩
  rw [ran] at ends
  cases outcome with
  | ok value =>
    rw [bind_read ran]
    exact then_ends value s' ran
  | error err =>
    rw [bind_error ran]
    exact fun cut => ends (by rw [Except.error.inj cut])

theorem ends_pure (value : α) (s : Stream) : Ends (pure value) s := nofun

theorem ends_of_proper {read : Read α} {err : RlpErr} {s' : Stream} (failed : read s = (.error err, s')) (proper : Proper err) :
    Ends read s := by
  unfold Ends
  rw [failed]
  exact fun cut => proper.2 (Except.error.inj cut)

theorem ends_wrapped {read : Read α} (ends : Ends read s) : Ends (wrapped read) s := by
  unfold Ends at *
  unfold wrapped
  rcases ran : read s with ⟨outcome, s'⟩
  rw [ran] at ends
  rw [attempt_read ran]
  cases outcome with
  | ok value => nofun
  | error err =>
    cases err with
    | outOfFuel => exact absurd rfl ends
    | _ => nofun

theorem listEnd_ends (s : Stream) : Ends listEnd s := by
  refine .bind nofun fun value s' _ => ?_
  unfold Ends
  cases value.stack with
  | nil => nofun
  | cons tos outer =>
    dsimp only
    by_cases early : tos.pos ≠ tos.size
    · rw [if_pos early]
      nofun
    · rw [if_neg early]
      nofun

end Ending

section Elements

variable {s s' : Stream} {r rest : Bytes} {st : List ListPos} {k : Kind} {size n : Nat} {bv : UInt8}

theorem decodeByteArray_looked (looked : Read.kind s = (.ok (k, size), s')) (cached : Cached s' k size bv r st) :
    decodeByteArray n s = decodeByteArray n s' := by
  unfold decodeByteArray
  rw [bind_read looked, bind_read (kind_cached cached)]

theorem uintValue_byte (cached : Cached s .byte 0 bv r st) :
    ∃ s', Read.uintValue s = (.ok bv.toNat, s') ∧ (bv ≠ 0 → Poised s' r st) ∧ (bv = 0 → s' = s) := by
  have byteval := cached.byteval rfl
  by_cases zero : bv = 0
  · subst zero
    have failed : uint 64 s = (.error .canonInt, s) := by
      unfold uint
      rw [bind_read (kind_cached cached)]
      dsimp only
      rw [bind_read (show Read.get s = (.ok s, s) from rfl), if_pos byteval]
      rfl
    refine ⟨s, ?_, fun nonzero => absurd rfl nonzero, fun _ => rfl⟩
    unfold uintValue
    rw [attempt_read failed]
    rfl
  · have read : uint 64 s = (.ok s.byteval.toNat, { s with kind := none }) := by
      unfold uint
      rw [bind_read (kind_cached cached)]
      dsimp only
      rw [bind_read (show Read.get s = (.ok s, s) from rfl), if_neg (by rwa [byteval])]
      rfl
    refine ⟨{ s with kind := none }, ?_, fun _ => ⟨⟨cached.input, cached.remaining, cached.limited, cached.stack⟩, rfl⟩, fun is =>
      absurd is zero⟩
    unfold uintValue
    rw [attempt_read read, ← byteval]
    rfl

theorem decodeByteArray_byte (cached : Cached s .byte 0 bv r st) :
    ∃ s', decodeByteArray 1 s = (.ok [bv], s') ∧ (bv ≠ 0 → Poised s' r st) ∧ (bv = 0 → s' = s) := by
  obtain ⟨s', read, known⟩ := uintValue_byte cached
  refine ⟨s', ?_, known⟩
  unfold decodeByteArray
  rw [bind_read (kind_cached cached)]
  dsimp only
  rw [if_neg (by decide), if_neg (by decide), bind_read read, UInt8.ofNat_toNat]
  rfl

theorem decodeByteArray_short (cached : Cached s .byte 0 bv r st) (long : 1 < n) :
    ∃ err, decodeByteArray n s = (.error err, s) ∧ Proper err := by
  refine ⟨.decodeError "input string too short" [], ?_, nofun, nofun⟩
  unfold decodeByteArray
  rw [bind_read (kind_cached cached)]
  dsimp only
  rw [if_neg (by omega), if_pos long]
  rfl

theorem decodeByteArray_list (cached : Cached s .list size bv r st) :
    ∃ err, decodeByteArray n s = (.error err, s) ∧ Proper err := by
  refine ⟨.decodeError "expected input string or byte" [], ?_, nofun, nofun⟩
  unfold decodeByteArray
  rw [bind_read (kind_cached cached)]
  rfl

theorem decodeByteArray_string (cached : Cached s .string size bv r st) (sane : FitsList 0 st) :
    ((size = n ∧ FitsList n st ∧ n ≤ r.length) ∧ ¬ (n = 1 ∧ (r.take n).headD 0 < 128) ∧
      ∃ s', decodeByteArray n s = (.ok (r.take n), s') ∧ Poised s' (r.drop n) (bump n st)) ∨
    (¬ ((size = n ∧ FitsList n st ∧ n ≤ r.length) ∧ ¬ (n = 1 ∧ (r.take n).headD 0 < 128)) ∧
      ∃ err s', decodeByteArray n s = (.error err, s') ∧ Proper err) := by
  unfold decodeByteArray
  rw [bind_read (kind_cached cached)]
  dsimp only
  by_cases less : n < size
  · rw [if_pos less]
    exact .inr ⟨fun both => by omega, _, _, rfl, nofun, nofun⟩
  · by_cases more : size < n
    · rw [if_neg less, if_pos more]
      exact .inr ⟨fun both => by omega, _, _, rfl, nofun, nofun⟩
    · obtain rfl : size = n := by omega
      rw [if_neg less, if_neg more]
      rcases readFull_spec cached.toAt sane size with ⟨there, s', ran, poised⟩ | ⟨missing, err, s', ran, proper⟩
      · rw [bind_read ran]
        split
        · next single => exact .inr ⟨fun both => both.2 single, _, _, rfl, nofun, nofun⟩
        · next plain => exact .inl ⟨⟨rfl, there⟩, plain, s', rfl, poised⟩
      · exact .inr ⟨fun both => missing both.1.2, err, s', bind_error ran, proper⟩

structure Passed (s : Stream) (b rest : Bytes) (st : List ListPos) : Prop where
  behind : b ≠ [0] → Poised s rest (bump (Rlp.encodeString b).length st)
  stuck : b = [0] → Cached s .byte 0 0 rest (bump (Rlp.encodeString b).length st)

theorem encodeString_byte (low : bv.toNat < 0x80) : Rlp.encodeString [bv] = [bv] :=
  if_pos ⟨rfl, by simpa using show bv < 128 from low⟩

theorem byte_passed (low : bv.toNat < 0x80) (cached : Cached s .byte 0 bv r (bump 1 st)) :
    ∃ s', decodeByteArray 1 s = (.ok [bv], s') ∧ Passed s' [bv] r st := by
  obtain ⟨s', read, behind, stuck⟩ := decodeByteArray_byte cached
  refine ⟨s', read, fun nonzero => ?_, fun zero => ?_⟩
  · rw [encodeString_byte low]
    exact behind fun zero => nonzero (by rw [zero])
  · obtain rfl : bv = 0 := List.head_eq_of_cons_eq zero
    rw [encodeString_byte low, stuck rfl]
    exact cached

theorem string_passed {b : Bytes} (plain : ¬ (b.length = 1 ∧ b.headD 0 < 128))
    (poised : Poised s rest (bump b.length (bump (Rlp.header 0x80 b.length).length st))) : Passed s b rest st := by
  refine ⟨fun _ => ?_, ?_⟩
  · rw [encodeString_plain plain, List.length_append, ← bump_bump]
    exact poised
  · rintro rfl
    exact absurd ⟨rfl, by decide⟩ plain

theorem decodeByteArray_sound (poised : Poised s r st) (sane : FitsList 0 st) (some_bytes : 1 ≤ n) :
    (AtEnd st ∧ ∃ s', decodeByteArray n s = (.error .EOL, s') ∧ Poised s' r st) ∨
    (∃ b rest s', b.length = n ∧ r = Rlp.encodeString b ++ rest ∧ FitsList (Rlp.encodeString b).length st ∧
      decodeByteArray n s = (.ok b, s') ∧ Passed s' b rest st) ∨
    ∃ err s', decodeByteArray n s = (.error err, s') ∧ Proper err := by
  rcases kind_sound poised sane with ⟨ended, s', ran, poised'⟩ | ⟨k, size, bv, h, t, s₁, rfl, head, ⟨fits, -⟩, looked, cached⟩
    | ⟨err, s', ran, proper⟩
  · exact .inl ⟨ended, s', bind_error ran, poised'⟩
  · refine .inr ?_
    rw [decodeByteArray_looked looked cached]
    have inside : FitsList 0 (bump h.length st) := fitsList_bump (fits.mono (Nat.le_add_right _ _))
    cases head with
    | byte low =>
      by_cases single : n = 1
      · subst single
        obtain ⟨s', read, passed⟩ := byte_passed low cached
        refine .inl ⟨[bv], t, s', rfl, by rw [encodeString_byte low], ?_, read, passed⟩
        rw [encodeString_byte low]
        exact fits
      · obtain ⟨err, failed, proper⟩ := @decodeByteArray_short _ _ _ n _ cached (by omega)
        exact .inr ⟨err, _, failed, proper⟩
    | string small =>
      rcases @decodeByteArray_string _ _ _ _ n _ cached inside with
        ⟨⟨rfl, room, enough⟩, plain, s', read, poised'⟩ | ⟨-, err, s', failed, proper⟩
      · have length : (t.take size).length = size := List.length_take_of_le enough
        have written := @encodeString_plain (t.take size) (by rwa [length])
        rw [length] at written
        refine .inl ⟨t.take size, t.drop size, s', length, ?_, ?_, read, string_passed (by rwa [length]) (by rwa [length])⟩
        · rw [written, List.append_assoc, List.take_append_drop]
        · rw [written, List.length_append, length]
          exact fits
      · exact .inr ⟨err, s', failed, proper⟩
    | list small =>
      obtain ⟨err, failed, proper⟩ := @decodeByteArray_list _ _ _ _ n _ cached
      exact .inr ⟨err, _, failed, proper⟩
  · exact .inr (.inr ⟨err, s', bind_error ran, proper⟩)

theorem decodeByteArray_complete {b : Bytes} (small : b.length < 2 ^ 64) (poised : Poised s (Rlp.encodeString b ++ rest) st)
    (fits : FitsList (Rlp.encodeString b).length st) : ∃ s', decodeByteArray b.length s = (.ok b, s') ∧ Passed s' b rest st := by
  by_cases single : b.length = 1 ∧ b.headD 0 < 128
  · obtain ⟨length, low⟩ := single
    obtain ⟨bv, rfl⟩ := List.length_eq_one_iff.mp length
    have low : bv.toNat < 0x80 := low
    rw [encodeString_byte low] at poised fits
    obtain ⟨s₁, looked, cached⟩ := kind_complete (.byte low) poised fits (Nat.zero_le _)
    obtain ⟨s', read, passed⟩ := byte_passed low cached
    exact ⟨s', by rw [← read]; exact decodeByteArray_looked looked cached, passed⟩
  · have written := encodeString_plain single
    rw [written, List.append_assoc] at poised
    rw [written, List.length_append] at fits
    obtain ⟨s₁, looked, cached⟩ := kind_complete (.string small) poised fits (by rw [List.length_append]; omega)
    have taken : (b ++ rest).take b.length = b := List.take_left
    have dropped : (b ++ rest).drop b.length = rest := List.drop_left
    rcases @decodeByteArray_string _ _ _ _ b.length _ cached (fitsList_bump (fits.mono (Nat.le_add_right _ _))) with
      ⟨-, -, s', read, poised'⟩ | ⟨wrong, -⟩
    · rw [taken] at read
      rw [dropped] at poised'
      exact ⟨s', by rw [← read]; exact decodeByteArray_looked looked cached, string_passed single poised'⟩
    · rw [taken] at wrong
      exact absurd ⟨⟨rfl, fitsList_bump fits, by simp⟩, single⟩ wrong

end Elements

section Lists

open Rlp (Item)

variable {s s' : Stream} {r rest : Bytes} {st : List ListPos} {n : Nat} {vs : List Bytes}

def written (vs : List Bytes) : Bytes := Rlp.encodeAll (vs.map Item.str)

@[simp] theorem written_nil : written [] = [] := rfl

@[simp] theorem written_cons (b : Bytes) (vs : List Bytes) : written (b :: vs) = Rlp.encodeString b ++ written vs := by
  rw [written, List.map_cons, Rlp.encodeAll, Rlp.encode]
  rfl

theorem written_length_pos (some_arrays : vs ≠ []) : 0 < (written vs).length := by
  obtain ⟨b, vs, rfl⟩ := List.exists_cons_of_ne_nil some_arrays
  have first := List.length_pos_iff.mpr (Rlp.encodeString_ne_nil b)
  rw [written_cons, List.length_append]
  omega

theorem elems_stuck (cached : Cached s .byte 0 0 r st) (rounds : Nat) (val : List Bytes) :
    decodeArrayElems (decodeByteArray 1) rounds val s = (.error .outOfFuel, s) := by
  induction rounds generalizing val with
  | zero => rfl
  | succ rounds ih =>
    obtain ⟨s', read, -, same⟩ := decodeByteArray_byte cached
    rw [decodeArrayElems, attempt_read read, same rfl]
    exact ih (val ++ [[0]])

theorem elems_forever {more : Bytes} (single : ∀ b ∈ vs, b.length = 1 ∧ b ≠ [0]) (poised : Poised s (written vs ++ 0 :: more) st)
    (fits : FitsList ((written vs).length + 1) st) (rounds : Nat) (val : List Bytes) :
    ∃ s', decodeArrayElems (decodeByteArray 1) rounds val s = (.error .outOfFuel, s') := by
  induction rounds generalizing vs s st val with
  | zero => exact ⟨s, rfl⟩
  | succ rounds ih =>
    cases vs with
    | nil =>
      have zero : Rlp.encodeString [0] = [0] := encodeString_byte (by decide)
      obtain ⟨s', read, passed⟩ :=
        @decodeByteArray_complete s more st [0] (by decide) (by rw [zero]; exact poised) (by rw [zero]; exact fits)
      have read : decodeByteArray 1 s = (.ok [0], s') := read
      rw [decodeArrayElems, attempt_read read]
      exact ⟨s', elems_stuck (passed.stuck rfl) rounds _⟩
    | cons b vs =>
      obtain ⟨⟨length, nonzero⟩, others⟩ := List.forall_mem_cons.mp single
      rw [written_cons, List.append_assoc] at poised
      rw [written_cons, List.length_append, Nat.add_assoc] at fits
      obtain ⟨s', read, passed⟩ := decodeByteArray_complete (by rw [length]; decide) poised (fits.mono (Nat.le_add_right _ _))
      rw [length] at read
      rw [decodeArrayElems, attempt_read read]
      exact ih others (passed.behind nonzero) (fitsList_bump fits) _

theorem elems_complete (sized : ∀ b ∈ vs, b.length = n ∧ b ≠ [0]) (small : n < 2 ^ 64) (poised : Poised s (written vs ++ rest) st)
    (ended : AtEnd (bump (written vs).length st)) {rounds : Nat} (enough : vs.length < rounds) (val : List Bytes) :
    ∃ s', decodeArrayElems (decodeByteArray n) rounds val s = (.ok (val ++ vs), s') ∧
      Poised s' rest (bump (written vs).length st) := by
  induction rounds generalizing vs s st val with
  | zero => omega
  | succ rounds ih =>
    cases vs with
    | nil =>
      rw [written_nil, List.length_nil, bump_zero] at ended ⊢
      obtain ⟨s', looked, poised'⟩ := kind_ended poised ended
      have failed : decodeByteArray n s = (.error .EOL, s') := bind_error looked
      refine ⟨s', ?_, poised'⟩
      rw [decodeArrayElems, attempt_read failed, List.append_nil]
      rfl
    | cons b vs =>
      obtain ⟨⟨length, nonzero⟩, others⟩ := List.forall_mem_cons.mp sized
      rw [written_cons, List.append_assoc] at poised
      rw [written_cons, List.length_append, ← bump_bump] at ended ⊢
      have fits : FitsList (Rlp.encodeString b).length st := by
        have room := AtEnd.room ended
        exact (fitsList_add room).mono (Nat.le_add_right _ _)
      obtain ⟨s', read, passed⟩ := decodeByteArray_complete (by rw [length]; exact small) poised fits
      rw [length] at read
      rw [decodeArrayElems, attempt_read read]
      obtain ⟨s'', ran, poised'⟩ :=
        ih others (passed.behind nonzero) ended (by rw [List.length_cons] at enough; omega) (val ++ [b])
      refine ⟨s'', ?_, poised'⟩
      rw [List.append_cons]
      exact ran

theorem elems_sound (some_bytes : 1 ≤ n) (poised : Poised s r st) (sane : FitsList 0 st) {rounds : Nat}
    (enough : r.length < rounds) (val : List Bytes) :
    Ends (decodeArrayElems (decodeByteArray n) rounds val) s ∨
    (n = 1 ∧ ∃ vs more, (∀ b ∈ vs, b.length = 1 ∧ b ≠ [0]) ∧ r = written vs ++ 0 :: more ∧
      FitsList ((written vs).length + 1) st) := by
  induction rounds generalizing s r st val with
  | zero => omega
  | succ rounds ih =>
    unfold Ends
    rw [decodeArrayElems]
    rcases decodeByteArray_sound poised sane some_bytes with
      ⟨-, s', failed, -⟩ | ⟨b, rest, s', length, rfl, fits, read, passed⟩ | ⟨err, s', failed, proper⟩
    · rw [attempt_read failed]
      exact .inl nofun
    · rw [attempt_read read]
      by_cases zero : b = [0]
      · subst zero
        have self : Rlp.encodeString [0] = [0] := encodeString_byte (by decide)
        rw [self] at fits
        refine .inr ⟨length.symm, [], rest, nofun, by rw [self]; rfl, fits⟩
      · have shorter := List.length_pos_iff.mpr (Rlp.encodeString_ne_nil b)
        rw [List.length_append] at enough
        rcases ih (passed.behind zero) (fitsList_bump fits) (by omega) (val ++ [b]) with
          ends | ⟨single, vs, more, nonzero, shape, room⟩
        · exact .inl ends
        · refine .inr ⟨single, b :: vs, more, List.forall_mem_cons.mpr ⟨⟨length.trans single, zero⟩, nonzero⟩, ?_, ?_⟩
          · rw [shape, written_cons, List.append_assoc]
          · rw [written_cons, List.length_append, Nat.add_assoc]
            exact fitsList_add room
    · rw [attempt_read failed]
      cases err with
      | EOL => exact absurd rfl proper.1
      | outOfFuel => exact absurd rfl proper.2
      | _ => exact .inl nofun

end Lists

section Fields

variable {s s' : Stream} {r rest : Bytes} {st : List ListPos} {few : String} {fields : List (String × Nat)} {vs : List Bytes}

theorem Passed.at_ {b : Bytes} (passed : Passed s b rest st) : At s rest (bump (Rlp.encodeString b).length st) := by
  by_cases zero : b = [0]
  · exact (passed.stuck zero).toAt
  · exact (passed.behind zero).toAt

theorem fields_complete (sized : vs.map List.length = fields.map Prod.snd) (small : ∀ b ∈ vs, b.length < 2 ^ 64)
    (nonzero : [0] ∉ vs.dropLast) (poised : Poised s (written vs ++ rest) st) (fits : FitsList (written vs).length st) :
    ∃ s', decodeFields few fields s = (.ok vs, s') ∧ At s' rest (bump (written vs).length st) := by
  induction vs generalizing fields s st with
  | nil =>
    obtain rfl : fields = [] := List.map_eq_nil_iff.mp sized.symm
    rw [written_nil, List.length_nil, bump_zero]
    exact ⟨s, rfl, poised.toAt⟩
  | cons b vs ih =>
    cases fields with
    | nil => cases sized
    | cons field fields =>
      obtain ⟨length, sizes⟩ := List.cons_eq_cons.mp sized
      obtain ⟨short, others⟩ := List.forall_mem_cons.mp small
      rw [written_cons, List.append_assoc] at poised
      rw [written_cons, List.length_append] at fits
      obtain ⟨s₁, read, passed⟩ := decodeByteArray_complete short poised (fits.mono (Nat.le_add_right _ _))
      rw [length] at read
      cases vs with
      | nil =>
        obtain rfl : fields = [] := List.map_eq_nil_iff.mp sizes.symm
        refine ⟨s₁, ?_, ?_⟩
        · rw [decodeFields, attempt_read read]
          rfl
        · rw [written_cons, written_nil, List.append_nil]
          exact passed.at_
      | cons c vs =>
        rw [List.dropLast_cons_cons, List.mem_cons, not_or] at nonzero
        obtain ⟨s₂, ran, after⟩ := ih sizes others nonzero.2 (passed.behind (Ne.symm nonzero.1)) (fitsList_bump fits)
        refine ⟨s₂, ?_, ?_⟩
        · rw [decodeFields, attempt_read read]
          dsimp only
          rw [bind_read ran]
          rfl
        · rw [written_cons, List.length_append, ← bump_bump]
          exact after

theorem fields_stuck (positive : ∀ field ∈ fields, 1 ≤ field.2) (cached : Cached s .byte 0 0 r st) :
    (∃ vs, decodeFields few fields s = (.ok vs, s)) ∨ ∃ err, decodeFields few fields s = (.error err, s) ∧ Proper err := by
  induction fields with
  | nil => exact .inl ⟨[], rfl⟩
  | cons field fields ih =>
    obtain ⟨some_bytes, others⟩ := List.forall_mem_cons.mp positive
    rw [decodeFields]
    by_cases single : field.2 = 1
    · obtain ⟨s', read, -, same⟩ := decodeByteArray_byte cached
      rw [single, attempt_read read, same rfl]
      dsimp only
      rcases ih others with ⟨vs, ran⟩ | ⟨err, failed, proper⟩
      · exact .inl ⟨[0] :: vs, by rw [bind_read ran]; rfl⟩
      · exact .inr ⟨err, bind_error failed, proper⟩
    · obtain ⟨err, failed, proper⟩ := @decodeByteArray_short _ _ _ field.2 _ cached (by omega)
      rw [attempt_read failed]
      refine .inr ⟨addErrorContext err field.1, ?_, proper.addErrorContext _⟩
      cases err with
      | EOL => exact absurd rfl proper.1
      | _ => rfl

theorem fields_short (positive : ∀ field ∈ fields, 1 ≤ field.2) (sized : vs.map List.length = fields.map Prod.snd)
    (small : ∀ b ∈ vs, b.length < 2 ^ 64) (zero : [0] ∈ vs.dropLast) (poised : Poised s (written vs ++ rest) st)
    (fits : FitsList (written vs).length st) :
    (∃ err s', decodeFields few fields s = (.error err, s')) ∨
    ∃ vs' s' r' m, decodeFields few fields s = (.ok vs', s') ∧ m < (written vs).length ∧ At s' r' (bump m st) := by
  induction vs generalizing fields s st with
  | nil => cases zero
  | cons b vs ih =>
    cases fields with
    | nil => cases sized
    | cons field fields =>
      obtain ⟨length, sizes⟩ := List.cons_eq_cons.mp sized
      obtain ⟨short, others⟩ := List.forall_mem_cons.mp small
      obtain ⟨-, positive⟩ := List.forall_mem_cons.mp positive
      rw [written_cons, List.append_assoc] at poised
      rw [written_cons, List.length_append] at fits
      obtain ⟨s₁, read, passed⟩ := decodeByteArray_complete short poised (fits.mono (Nat.le_add_right _ _))
      rw [length] at read
      rw [decodeFields, attempt_read read]
      dsimp only
      have more : vs ≠ [] := by
        rintro rfl
        cases zero
      have left := written_length_pos more
      by_cases here : b = [0]
      · rcases @fields_stuck s₁ _ _ few fields positive (passed.stuck here) with ⟨vs', ran⟩ | ⟨err, failed, -⟩
        · refine .inr ⟨b :: vs', s₁, written vs ++ rest, _, by rw [bind_read ran]; rfl, ?_, passed.at_⟩
          rw [written_cons, List.length_append]
          omega
        · exact .inl ⟨err, s₁, bind_error failed⟩
      · have later : [0] ∈ vs.dropLast := by
          obtain ⟨c, vs, rfl⟩ := List.exists_cons_of_ne_nil more
          rw [List.dropLast_cons_cons, List.mem_cons] at zero
          exact zero.resolve_left (Ne.symm here)
        rcases ih positive sizes others later (passed.behind here) (fitsList_bump fits) with
          ⟨err, s', failed⟩ | ⟨vs', s', r', m, ran, below, at_⟩
        · exact .inl ⟨err, s', bind_error failed⟩
        · refine .inr ⟨b :: vs', s', r', (Rlp.encodeString b).length + m, by rw [bind_read ran]; rfl, ?_, ?_⟩
          · rw [written_cons, List.length_append]
            omega
          · rw [← bump_bump]
            exact at_

theorem fields_ends (positive : ∀ field ∈ fields, 1 ≤ field.2) (poised : Poised s r st) (sane : FitsList 0 st) :
    Ends (decodeFields few fields) s := by
  induction fields generalizing s r st with
  | nil => exact ends_pure [] s
  | cons field fields ih =>
    obtain ⟨some_bytes, others⟩ := List.forall_mem_cons.mp positive
    unfold Ends
    rw [decodeFields]
    rcases decodeByteArray_sound poised sane some_bytes with
      ⟨-, s', failed, -⟩ | ⟨b, rest, s', length, rfl, fits, read, passed⟩ | ⟨err, s', failed, proper⟩
    · rw [attempt_read failed]
      nofun
    · rw [attempt_read read]
      refine Ends.bind ?_ fun _ _ _ => ends_pure _ _
      by_cases zero : b = [0]
      · rcases @fields_stuck s' _ _ few fields others (passed.stuck zero) with ⟨vs, ran⟩ | ⟨err, failed, proper⟩
        · unfold Ends
          rw [ran]
          nofun
        · exact ends_of_proper failed proper
      · exact ih others (passed.behind zero) (fitsList_bump fits)
    · rw [attempt_read failed]
      cases err with
      | outOfFuel => exact absurd rfl proper.2
      | EOL => nofun
      | _ => nofun

end Fields

section Inputs

variable {s : Stream} {b payload tail : Bytes} {vs : List Bytes}

theorem start_poised (b : Bytes) : Poised { r := b, remaining := b.length } b [] := ⟨⟨rfl, rfl, rfl, rfl⟩, rfl⟩

theorem enter_sound (poised : Poised s b []) :
    (∃ payload tail s', b = Rlp.header 0xc0 payload.length ++ (payload ++ tail) ∧ payload.length < 2 ^ 64 ∧
      wrapped list s = (.ok payload.length, s') ∧ Poised s' (payload ++ tail) [⟨0, payload.length⟩]) ∨
    (Ends (wrapped list) s ∧ ∀ size s', wrapped list s ≠ (.ok size, s')) := by
  have fails : ∀ {err : RlpErr} {s' : Stream}, list s = (.error err, s') → Proper err →
      Ends (wrapped list) s ∧ ∀ size s', wrapped list s ≠ (.ok size, s') := by
    intro err s' failed proper
    refine ⟨ends_wrapped (ends_of_proper failed proper), ?_⟩
    unfold wrapped
    rw [attempt_read failed]
    nofun
  rcases kind_sound poised trivial with
    ⟨ended, -⟩ | ⟨k, size, bv, h, t, s₁, rfl, head, ⟨-, enough⟩, looked, cached⟩ | ⟨err, s', failed, proper⟩
  · exact ended.elim
  · have same : list s = list s₁ := by
      unfold list
      rw [bind_read looked, bind_read (kind_cached cached)]
    cases head with
    | list small =>
      have length : (t.take size).length = size := List.length_take_of_le (enough rfl)
      obtain ⟨s', entered, poised'⟩ := list_entered cached
      refine .inl ⟨t.take size, t.drop size, s', ?_, by omega, ?_, ?_⟩
      · rw [length, List.take_append_drop]
      · unfold wrapped
        rw [attempt_read (same.trans entered), length]
        rfl
      · rw [length, List.take_append_drop]
        exact poised'
    | byte | string =>
      refine .inr (@fails .expectedList s₁ ?_ ⟨nofun, nofun⟩)
      unfold list
      rw [bind_read looked]
      rfl
  · exact .inr (fails (bind_error failed) proper)

theorem enter_complete (small : payload.length < 2 ^ 64)
    (poised : Poised s (Rlp.header 0xc0 payload.length ++ (payload ++ tail)) []) :
    ∃ s', wrapped list s = (.ok payload.length, s') ∧ Poised s' (payload ++ tail) [⟨0, payload.length⟩] := by
  obtain ⟨s₁, looked, cached⟩ := kind_complete (.list small) poised trivial (by rw [List.length_append]; omega)
  obtain ⟨s', entered, poised'⟩ := list_entered cached
  refine ⟨s', ?_, poised'⟩
  have same : list s = list s₁ := by
    unfold list
    rw [bind_read looked, bind_read (kind_cached cached)]
  unfold wrapped
  rw [attempt_read (same.trans entered)]
  rfl

theorem listEnd_early {tos : ListPos} {st : List ListPos} {r : Bytes} (at_ : At s r (tos :: st)) (early : tos.pos ≠ tos.size) :
    listEnd s = (.error .notAtEOL, s) := by
  unfold listEnd
  rw [bind_read (show Read.get s = (.ok s, s) from rfl), at_.stack]
  dsimp only
  rw [if_pos early]
  rfl

-- The inputs whose list has a single zero byte, after elements that are single bytes too.
def Stuck (b : Bytes) : Prop :=
  ∃ vs more tail, (∀ v ∈ vs, v.length = 1 ∧ v ≠ [0]) ∧ (written vs ++ 0 :: more).length < 2 ^ 64 ∧
    b = Rlp.header 0xc0 (written vs ++ 0 :: more).length ++ ((written vs ++ 0 :: more) ++ tail)

namespace ArrayType

variable {type : ArrayType} {rounds n : Nat} {v : List Bytes}

theorem decodeBytes_ends :
    type.decodeBytes rounds b ≠ .error .outOfFuel ↔ Ends (type.decoder rounds) { r := b, remaining := b.length } := by
  unfold decodeBytes Ends
  rcases type.decoder rounds { r := b, remaining := b.length } with ⟨outcome, s⟩
  cases outcome with
  | ok v =>
    dsimp only
    split <;> exact ⟨nofun, nofun⟩
  | error err =>
    cases err with
    | decodeError msg ctx => cases ctx <;> simp
    | _ => simp

theorem decodeBytes_ok (ran : type.decoder rounds { r := b, remaining := b.length } = (.ok v, s)) (all : s.r = []) :
    type.decodeBytes rounds b = .ok v := by
  unfold decodeBytes
  rw [ran]
  dsimp only
  rw [all]
  rfl

theorem decoder_ok (decoded : type.decodeBytes rounds b = .ok v) :
    ∃ s, type.decoder rounds { r := b, remaining := b.length } = (.ok v, s) := by
  unfold decodeBytes at decoded
  rcases whole : type.decoder rounds { r := b, remaining := b.length } with ⟨outcome, s⟩
  rw [whole] at decoded
  cases outcome with
  | error err => cases decoded
  | ok w =>
    dsimp only at decoded
    split at decoded
    · cases decoded
    · cases decoded
      exact ⟨s, rfl⟩

end ArrayType

end Inputs

end CuteEVM
