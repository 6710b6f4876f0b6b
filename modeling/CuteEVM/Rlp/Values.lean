import CuteEVM.Rlp.Reading

set_option autoImplicit false

-- What `Stream` returns for a value is what stands in the input, in the only encoding that the value has.

namespace CuteEVM

open Rlp (Item)
open Read

section Operations

def AtEnd : List ListPos → Prop
  | [] => False
  | tos :: _ => tos.pos = tos.size

variable {s : Stream} {r rest h : Bytes} {st : List ListPos} {k : Kind} {size : Nat} {bv : UInt8}

theorem ended_iff (at_ : At s r st) : s.ended = true ↔ AtEnd st := by
  unfold Stream.ended AtEnd
  rw [at_.stack]
  cases st with
  | nil => exact ⟨nofun, nofun⟩
  | cons tos outer => exact decide_eq_true_iff

theorem AtEnd.full {n : Nat} (ended : AtEnd st) (fits : FitsList n st) : n = 0 := by
  cases st with
  | nil => exact ended.elim
  | cons tos outer =>
    unfold AtEnd at ended
    unfold FitsList at fits
    omega

theorem AtEnd.fits (ended : AtEnd st) : FitsList 0 st := by
  cases st with
  | nil => exact ended.elim
  | cons tos outer => exact Nat.le_of_eq ended

theorem Head.length_pos (head : Head k size bv h) : 0 < h.length := by
  cases head with
  | byte => exact Nat.one_pos
  | string | list => exact List.length_pos_iff.mpr (Rlp.header_ne_nil _ _)

theorem oversized_cases (at_ : At s r st) (sane : FitsList 0 st) (size : Nat) :
    (s.oversized size = none ∧ FitsList size st ∧ (st = [] → size ≤ r.length)) ∨
    ∃ err, s.oversized size = some err ∧ Proper err ∧ ¬ (FitsList size st ∧ size ≤ r.length) := by
  unfold Stream.oversized
  rw [at_.stack, at_.limited, at_.remaining]
  cases st with
  | nil =>
    dsimp only
    split
    · next large =>
      have above : size > r.length := by simpa using large
      exact .inr ⟨_, rfl, ⟨nofun, nofun⟩, fun both => by omega⟩
    · next small => exact .inl ⟨rfl, trivial, fun _ => by simpa using small⟩
  | cons tos outer =>
    unfold FitsList at sane ⊢
    dsimp only
    split
    · exact .inr ⟨_, rfl, ⟨nofun, nofun⟩, fun both => by omega⟩
    · exact .inl ⟨rfl, by omega, nofun⟩

theorem Poised.refreshed (poised : Poised s r st) : Poised { s with kind := none, kinderr := none } r st :=
  ⟨⟨poised.input, poised.remaining, poised.limited, poised.stack⟩, rfl⟩

theorem kind_ended (poised : Poised s r st) (ended : AtEnd st) : ∃ s', Read.kind s = (.error .EOL, s') ∧ Poised s' r st := by
  refine ⟨_, ?_, poised.refreshed⟩
  unfold Read.kind
  rw [poised.unknown]
  dsimp only
  rw [if_pos ((ended_iff poised.refreshed.toAt).2 ended)]

-- Before a value that is not the end of a list.
theorem kind_open (poised : Poised s r st) (more : ¬ AtEnd st) : ∃ s₁, Poised s₁ r st ∧
    Read.kind s = (match readKind s₁ with
      | ((k, size, err), s') => match err.or (s'.oversized size) with
        | some err => (.error err, { s' with kind := some k, size := size, kinderr := some err })
        | none => (.ok (k, size), { s' with kind := some k, size := size, kinderr := none })) := by
  refine ⟨_, poised.refreshed, ?_⟩
  conv => lhs; unfold Read.kind
  rw [poised.unknown]
  dsimp only
  exact if_neg fun finished => more ((ended_iff poised.refreshed.toAt).1 finished)

theorem kind_sound (poised : Poised s r st) (sane : FitsList 0 st) :
    (AtEnd st ∧ ∃ s', Read.kind s = (.error .EOL, s') ∧ Poised s' r st) ∨
    (∃ k size bv h rest s', r = h ++ rest ∧ Head k size bv h ∧ (FitsList (h.length + size) st ∧ (st = [] → size ≤ rest.length)) ∧
      Read.kind s = (.ok (k, size), s') ∧ Cached s' k size bv rest (bump h.length st)) ∨
    ∃ err s', Read.kind s = (.error err, s') ∧ Proper err := by
  by_cases ended : AtEnd st
  · exact .inl ⟨ended, kind_ended poised ended⟩
  · refine .inr ?_
    obtain ⟨s₁, poised₁, same⟩ := kind_open poised ended
    rw [same]
    rcases readKind_sound poised₁ sane with
      ⟨k, size, bv, h, rest, s', rfl, head, fits, ran, at', byteval⟩ | ⟨k, size, err, s', ran, proper⟩
    · rw [ran]
      dsimp only [Option.or]
      rcases oversized_cases at' (fitsList_bump fits) size with ⟨small, inside, outside⟩ | ⟨err, large, proper, -⟩
      · rw [small]
        exact .inl ⟨k, size, bv, h, rest, _, rfl, head, ⟨fitsList_add inside, fun none_open => outside (by rw [none_open]; rfl)⟩,
          rfl, ⟨at'.input, at'.remaining, at'.limited, at'.stack⟩, rfl, rfl, rfl, byteval⟩
      · rw [large]
        exact .inr ⟨err, _, rfl, proper⟩
    · rw [ran]
      exact .inr ⟨err, _, rfl, proper⟩

theorem kind_complete (head : Head k size bv h) (poised : Poised s (h ++ rest) st) (fits : FitsList (h.length + size) st)
    (enough : size ≤ rest.length) : ∃ s', Read.kind s = (.ok (k, size), s') ∧ Cached s' k size bv rest (bump h.length st) := by
  have more : ¬ AtEnd st := fun ended => by
    have empty := ended.full fits
    have some := head.length_pos
    omega
  obtain ⟨s₁, poised₁, same⟩ := kind_open poised more
  obtain ⟨s', ran, at', byteval⟩ := readKind_complete head poised₁ (fits.mono (Nat.le_add_right _ _))
  rw [same, ran]
  dsimp only [Option.or]
  have inside := fitsList_bump fits
  rcases oversized_cases at' (inside.mono (Nat.zero_le _)) size with ⟨small, -⟩ | ⟨err, -, -, wrong⟩
  · rw [small]
    exact ⟨_, rfl, ⟨at'.input, at'.remaining, at'.limited, at'.stack⟩, rfl, rfl, rfl, byteval⟩
  · exact absurd ⟨inside, enough⟩ wrong

theorem kind_cached (cached : Cached s k size bv r st) : Read.kind s = (.ok (k, size), s) := by
  unfold Read.kind
  rw [cached.known]
  dsimp only
  rw [cached.fine]
  dsimp only
  rw [cached.size]

theorem list_entered (cached : Cached s .list size bv r st) : ∃ s', list s = (.ok size, s') ∧ Poised s' r (⟨0, size⟩ :: st) := by
  refine ⟨{ s with stack := ⟨0, size⟩ :: s.stack, kind := none, size := 0 }, ?_,
    ⟨cached.input, cached.remaining, cached.limited, ?_⟩, rfl⟩
  · unfold list
    rw [bind_read (kind_cached cached)]
    rfl
  · rw [← cached.stack]

theorem list_cached (cached : Cached s .list size bv r st) :
    ∃ s', wrapped list s = (.ok size, s') ∧ Poised s' r (⟨0, size⟩ :: st) := by
  obtain ⟨s', entered, poised⟩ := list_entered cached
  refine ⟨s', ?_, poised⟩
  unfold wrapped
  rw [attempt_read entered]
  rfl

theorem listEnd_ended {tos : ListPos} (at_ : At s r (tos :: st)) (ended : AtEnd (tos :: st)) :
    ∃ s', listEnd s = (.ok (), s') ∧ Poised s' r (bump tos.size st) := by
  refine ⟨{ s with stack := bump tos.size st, kind := none, size := 0 }, ?_, ⟨at_.input, at_.remaining, at_.limited, rfl⟩, rfl⟩
  unfold listEnd
  rw [bind_read (show Read.get s = (.ok s, s) from rfl), at_.stack]
  dsimp only
  rw [if_neg (not_not.mpr (show tos.pos = tos.size from ended))]
  cases st <;> rfl

theorem bytes_byte (cached : Cached s .byte size bv r st) : ∃ s', bytes s = (.ok [bv], s') ∧ Poised s' r st := by
  refine ⟨{ s with kind := none }, ?_, ⟨cached.input, cached.remaining, cached.limited, cached.stack⟩, rfl⟩
  unfold bytes
  rw [bind_read (kind_cached cached)]
  rw [← cached.byteval rfl]
  rfl

-- A string, unless it is a single byte that should have been written without a header.
theorem bytes_string (cached : Cached s .string size bv r st) (sane : FitsList 0 st) :
    ((FitsList size st ∧ size ≤ r.length) ∧ ¬ (size = 1 ∧ (r.take size).headD 0 < 128) ∧
      ∃ s', bytes s = (.ok (r.take size), s') ∧ Poised s' (r.drop size) (bump size st)) ∨
    (¬ ((FitsList size st ∧ size ≤ r.length) ∧ ¬ (size = 1 ∧ (r.take size).headD 0 < 128)) ∧
      ∃ err s', bytes s = (.error err, s') ∧ Proper err) := by
  unfold bytes
  rw [bind_read (kind_cached cached)]
  dsimp only
  rcases readFull_spec cached.toAt sane size with ⟨there, s', ran, poised⟩ | ⟨missing, err, s', ran, proper⟩
  · rw [bind_read ran]
    split
    · next single => exact .inr ⟨fun both => both.2 single, _, _, rfl, nofun, nofun⟩
    · next plain => exact .inl ⟨there, plain, s', rfl, poised⟩
  · exact .inr ⟨fun both => missing both.1, err, s', bind_error ran, proper⟩

theorem encodeString_plain {b : Bytes} (plain : ¬ (b.length = 1 ∧ b.headD 0 < 128)) :
    Rlp.encodeString b = Rlp.header 0x80 b.length ++ b := by
  unfold Rlp.encodeString
  refine if_neg fun ⟨single, low⟩ => plain ⟨single, ?_⟩
  obtain ⟨first, rfl⟩ := List.length_eq_one_iff.mp single
  simpa using low

theorem bytes_sound (head : Head k size bv h) (flat : k ≠ .list) (cached : Cached s k size bv r st) (sane : FitsList 0 st) :
    (∃ b rest s', h ++ r = Rlp.encodeString b ++ rest ∧ (Rlp.encodeString b).length = h.length + size ∧
      bytes s = (.ok b, s') ∧ Poised s' rest (bump size st)) ∨
    ∃ err s', bytes s = (.error err, s') ∧ Proper err := by
  cases head with
  | byte low =>
    obtain ⟨s', ran, poised⟩ := bytes_byte cached
    have self : Rlp.encodeString [bv] = [bv] := if_pos ⟨rfl, by simpa using show bv < 128 from low⟩
    refine .inl ⟨[bv], r, s', by rw [self], by rw [self]; rfl, ran, ?_⟩
    rw [bump_zero]
    exact poised
  | string =>
    rcases bytes_string cached sane with ⟨⟨fits, enough⟩, plain, s', ran, poised⟩ | ⟨-, err, s', ran, proper⟩
    · have length : (r.take size).length = size := List.length_take_of_le enough
      have written := @encodeString_plain (r.take size) (by rwa [length])
      rw [length] at written
      refine .inl ⟨_, _, s', ?_, ?_, ran, poised⟩
      · rw [written, List.append_assoc, List.take_append_drop]
      · rw [written, List.length_append, length]
    · exact .inr ⟨err, s', ran, proper⟩
  | list => exact absurd rfl flat

theorem bytes_complete (b : Bytes) (small : b.length < 2 ^ 64) : ∃ k bv h payload, k ≠ .list ∧ Rlp.encodeString b = h ++ payload ∧
    Head k payload.length bv h ∧ ∀ {s : Stream} {rest : Bytes} {st : List ListPos},
      Cached s k payload.length bv (payload ++ rest) st → FitsList payload.length st →
      ∃ s', bytes s = (.ok b, s') ∧ Poised s' rest (bump payload.length st) := by
  by_cases single : b.length = 1 ∧ b.headD 0 < 128
  · obtain ⟨length, low⟩ := single
    obtain ⟨first, rfl⟩ := List.length_eq_one_iff.mp length
    have self : Rlp.encodeString [first] = [first] := if_pos ⟨rfl, by simpa using low⟩
    refine ⟨.byte, first, [first], [], nofun, self, .byte low, fun cached _ => ?_⟩
    rw [List.length_nil, bump_zero]
    exact bytes_byte cached
  · refine ⟨.string, 0, _, b, nofun, encodeString_plain single, .string small, fun {s rest st} cached fits => ?_⟩
    have taken : (b ++ rest).take b.length = b := List.take_left
    have dropped : (b ++ rest).drop b.length = rest := List.drop_left
    rcases bytes_string cached (fits.mono (Nat.zero_le _)) with ⟨-, -, s', ran, poised⟩ | ⟨wrong, -⟩
    · rw [taken] at ran
      rw [dropped] at poised
      exact ⟨s', ran, poised⟩
    · rw [taken] at wrong
      exact absurd ⟨⟨fits, by simp⟩, single⟩ wrong

end Operations

section Decoding

def ReadsItem (read : Read Item) (r : Bytes) (st : List ListPos) (s : Stream) : Prop :=
  (AtEnd st ∧ ∃ s', read s = (.error .EOL, s') ∧ Poised s' r st) ∨
  (∃ item rest s', r = Rlp.encode item ++ rest ∧ FitsList (Rlp.encode item).length st ∧ read s = (.ok item, s') ∧
    Poised s' rest (bump (Rlp.encode item).length st)) ∨
  ∃ err s', read s = (.error err, s') ∧ Proper err

def ReadsList (read : Read (List Item)) (size : Nat) (r : Bytes) (st : List ListPos) (s : Stream) : Prop :=
  (∃ items rest s', r = Rlp.encodeAll items ++ rest ∧ (Rlp.encodeAll items).length = size ∧ read s = (.ok items, s') ∧
    Poised s' rest (bump size st)) ∨
  ∃ err s', read s = (.error err, s') ∧ Proper err

def ReadsElems (read : Read (List Item)) (items : List Item) (r : Bytes) (st : List ListPos) (s : Stream) : Prop :=
  (∃ more rest s', r = Rlp.encodeAll more ++ rest ∧ read s = (.ok (items ++ more), s') ∧
    Poised s' rest (bump (Rlp.encodeAll more).length st) ∧ AtEnd (bump (Rlp.encodeAll more).length st)) ∨
  ∃ err s', read s = (.error err, s') ∧ Proper err

theorem Proper.addErrorContext {err : RlpErr} (proper : Proper err) (ctx : String) : Proper (addErrorContext err ctx) := by
  cases err with
  | decodeError => exact ⟨nofun, nofun⟩
  | _ => exact proper

variable {fuel : Nat} {s : Stream} {r : Bytes} {st : List ListPos}

theorem decodeInterface_step
    (lists : ∀ {s : Stream} {size : Nat} {r : Bytes} {st : List ListPos}, Cached s .list size 0 r st → 3 * r.length + 3 ≤ fuel →
      ReadsList (decodeListSlice fuel) size r st s)
    (poised : Poised s r st) (sane : FitsList 0 st) (enough : 3 * r.length + 1 ≤ fuel + 1) :
    ReadsItem (decodeInterface (fuel + 1)) r st s := by
  unfold ReadsItem
  rw [decodeInterface]
  rcases kind_sound poised sane with ⟨ended, s', ran, poised'⟩ | ⟨k, size, bv, h, rest, s', rfl, head, ⟨fits, -⟩, ran, cached⟩ |
    ⟨err, s', ran, proper⟩
  · exact .inl ⟨ended, s', bind_error ran, poised'⟩
  · rw [bind_read ran]
    dsimp only
    have inside : FitsList 0 (bump h.length st) := fitsList_bump (fits.mono (Nat.le_add_right _ _))
    split
    · next isList =>
      subst isList
      cases head with
      | list small =>
        have shorter := (Head.list small).length_pos
        rw [List.length_append] at enough
        rcases lists cached (by omega) with ⟨items, rest', s'', rfl, rfl, ran', poised'⟩ | ⟨err, s'', ran', proper⟩
        · have written : Rlp.encode (.list items) = Rlp.header 0xc0 (Rlp.encodeAll items).length ++ Rlp.encodeAll items := by
            rw [Rlp.encode]
          have length : (Rlp.encode (.list items)).length =
              (Rlp.header 0xc0 (Rlp.encodeAll items).length).length + (Rlp.encodeAll items).length := by
            rw [written, List.length_append]
          refine .inr (.inl ⟨.list items, rest', s'', ?_, ?_, ?_, ?_⟩)
          · rw [written, List.append_assoc]
          · rw [length]
            exact fits
          · rw [bind_read ran']
            rfl
          · rw [length, ← bump_bump]
            exact poised'
        · exact .inr (.inr ⟨err, s'', bind_error ran', proper⟩)
    · next flat =>
      rcases bytes_sound head flat cached inside with ⟨b, rest', s'', same, length, ran', poised'⟩ | ⟨err, s'', ran', proper⟩
      · refine .inr (.inl ⟨.str b, rest', s'', ?_, ?_, ?_, ?_⟩)
        · rw [same, Rlp.encode]
        · rw [Rlp.encode, length]
          exact fits
        · rw [bind_read ran']
          rfl
        · rw [Rlp.encode, length, ← bump_bump]
          exact poised'
      · exact .inr (.inr ⟨err, s'', bind_error ran', proper⟩)
  · exact .inr (.inr ⟨err, s', bind_error ran, proper⟩)

theorem decodeListSlice_step
    (elems : ∀ {s : Stream} {r : Bytes} {st : List ListPos}, Poised s r st → FitsList 0 st → 3 * r.length + 2 ≤ fuel →
      ReadsElems (decodeSliceElems fuel []) [] r st s)
    {size : Nat} (cached : Cached s .list size 0 r st) (enough : 3 * r.length + 3 ≤ fuel + 1) :
    ReadsList (decodeListSlice (fuel + 1)) size r st s := by
  unfold ReadsList
  rw [decodeListSlice]
  obtain ⟨s₁, entered, poised⟩ := list_cached cached
  rw [bind_read entered]
  split
  · next empty =>
    subst empty
    obtain ⟨s₂, left, poised'⟩ := listEnd_ended poised.toAt rfl
    exact .inl ⟨[], r, s₂, rfl, rfl, by rw [bind_read left]; rfl, poised'⟩
  · rcases elems poised (Nat.zero_le _) (by omega) with ⟨items, rest, s₂, rfl, ran, poised', ended⟩ | ⟨err, s₂, ran, proper⟩
    · obtain ⟨s₃, left, poised''⟩ := listEnd_ended poised'.toAt ended
      have length : (Rlp.encodeAll items).length = size := (Nat.zero_add _).symm.trans ended
      refine .inl ⟨items, rest, s₃, rfl, length, ?_, poised''⟩
      rw [bind_read ran, bind_read left]
      rfl
    · exact .inr ⟨err, s₂, bind_error ran, proper⟩

theorem decodeSliceElems_item {items : List Item} {item : Item} {s' : Stream} (ran : decodeInterface fuel s = (.ok item, s')) :
    decodeSliceElems (fuel + 1) items s = decodeSliceElems fuel (items ++ [item]) s' := by
  rw [decodeSliceElems]
  exact attempt_read ran

theorem decodeSliceElems_ended {items : List Item} {s' : Stream} (ran : decodeInterface fuel s = (.error .EOL, s')) :
    decodeSliceElems (fuel + 1) items s = (.ok items, s') := by
  rw [decodeSliceElems]
  exact attempt_read ran

theorem decodeSliceElems_error {items : List Item} {err : RlpErr} {s' : Stream} (ran : decodeInterface fuel s = (.error err, s'))
    (proper : Proper err) : ∃ err', decodeSliceElems (fuel + 1) items s = (.error err', s') ∧ Proper err' := by
  refine ⟨_, ?_, proper.addErrorContext ("[" ++ toString items.length ++ "]")⟩
  rw [decodeSliceElems]
  refine (attempt_read ran).trans ?_
  cases err with
  | EOL => exact absurd rfl proper.1
  | _ => rfl

theorem decodeSliceElems_step
    (item : ∀ {s : Stream} {r : Bytes} {st : List ListPos}, Poised s r st → FitsList 0 st → 3 * r.length + 1 ≤ fuel →
      ReadsItem (decodeInterface fuel) r st s)
    (elems : ∀ {s : Stream} {r : Bytes} {st : List ListPos} {items : List Item}, Poised s r st → FitsList 0 st →
      3 * r.length + 2 ≤ fuel → ReadsElems (decodeSliceElems fuel items) items r st s)
    {items : List Item} (poised : Poised s r st) (sane : FitsList 0 st) (enough : 3 * r.length + 2 ≤ fuel + 1) :
    ReadsElems (decodeSliceElems (fuel + 1) items) items r st s := by
  unfold ReadsElems
  rcases item poised sane (by omega) with
    ⟨ended, s', ran, poised'⟩ | ⟨next, rest, s', rfl, fits, ran, poised'⟩ | ⟨err, s', ran, proper⟩
  · refine .inl ⟨[], r, s', rfl, ?_, ?_, ?_⟩
    · rw [decodeSliceElems_ended ran, List.append_nil]
    · rw [Rlp.encodeAll, List.length_nil, bump_zero]
      exact poised'
    · rw [Rlp.encodeAll, List.length_nil, bump_zero]
      exact ended
  · rw [decodeSliceElems_item ran]
    have shorter := Rlp.encode_length_pos next
    rw [List.length_append] at enough
    rcases @elems _ _ _ (items ++ [next]) poised' (fitsList_bump fits) (by omega) with
      ⟨more, rest', s'', rfl, ran', poised'', ended⟩ | ⟨err, s'', ran', proper⟩
    · rw [bump_bump] at poised'' ended
      rw [ran']
      refine .inl ⟨next :: more, rest', s'', ?_, ?_, ?_, ?_⟩
      · rw [Rlp.encodeAll, List.append_assoc]
      · rw [List.append_assoc]
        rfl
      · rw [Rlp.encodeAll, List.length_append]
        exact poised''
      · rw [Rlp.encodeAll, List.length_append]
        exact ended
    · exact .inr ⟨err, s'', ran', proper⟩
  · obtain ⟨err', ran', proper'⟩ := decodeSliceElems_error ran proper
    exact .inr ⟨err', s', ran', proper'⟩

theorem decode_sound (fuel : Nat) :
    (∀ {s : Stream} {r : Bytes} {st : List ListPos}, Poised s r st → FitsList 0 st → 3 * r.length + 1 ≤ fuel →
      ReadsItem (decodeInterface fuel) r st s) ∧
    (∀ {s : Stream} {size : Nat} {r : Bytes} {st : List ListPos}, Cached s .list size 0 r st → 3 * r.length + 3 ≤ fuel →
      ReadsList (decodeListSlice fuel) size r st s) ∧
    (∀ {s : Stream} {r : Bytes} {st : List ListPos} {items : List Item}, Poised s r st → FitsList 0 st → 3 * r.length + 2 ≤ fuel →
      ReadsElems (decodeSliceElems fuel items) items r st s) := by
  induction fuel with
  | zero => exact ⟨fun _ _ enough => by omega, fun _ enough => by omega, fun _ _ enough => by omega⟩
  | succ fuel ih =>
    obtain ⟨item, lists, elems⟩ := ih
    exact ⟨decodeInterface_step lists, decodeListSlice_step elems, decodeSliceElems_step item elems⟩

theorem AtEnd.room {n : Nat} (ended : AtEnd (bump n st)) : FitsList n st := fitsList_add ended.fits

theorem decodeString_complete {b rest : Bytes} (small : (Rlp.encode (.str b)).length < 2 ^ 64)
    (poised : Poised s (Rlp.encode (.str b) ++ rest) st) (fits : FitsList (Rlp.encode (.str b)).length st) :
    ∃ s', decodeInterface (fuel + 1) s = (.ok (.str b), s') ∧ Poised s' rest (bump (Rlp.encode (.str b)).length st) := by
  obtain ⟨k, bv, h, payload, flat, written, head, reads⟩ := bytes_complete b (Nat.lt_of_le_of_lt (str_le_encode b) small)
  rw [Rlp.encode, written, List.append_assoc] at poised
  rw [Rlp.encode, written, List.length_append] at fits ⊢
  obtain ⟨s₁, looked, cached⟩ := kind_complete head poised fits (by simp)
  obtain ⟨s', ran, poised'⟩ := reads cached (fitsList_bump fits)
  refine ⟨s', ?_, bump_bump ▸ poised'⟩
  rw [decodeInterface, bind_read looked]
  dsimp only
  rw [if_neg flat, bind_read ran]
  rfl

theorem decodeList_complete {items : List Item} {rest : Bytes}
    (elems : ∀ {s : Stream} {fuel : Nat} {st : List ListPos}, Poised s (Rlp.encodeAll items ++ rest) st →
      AtEnd (bump (Rlp.encodeAll items).length st) → 3 * (Rlp.encodeAll items).length + 2 ≤ fuel →
      ∃ s', decodeSliceElems fuel [] s = (.ok items, s') ∧ Poised s' rest (bump (Rlp.encodeAll items).length st))
    (small : (Rlp.encode (.list items)).length < 2 ^ 64) (poised : Poised s (Rlp.encode (.list items) ++ rest) st)
    (fits : FitsList (Rlp.encode (.list items)).length st) (enough : 3 * (Rlp.encode (.list items)).length + 1 ≤ fuel + 2) :
    ∃ s', decodeInterface (fuel + 2) s = (.ok (.list items), s') ∧ Poised s' rest (bump (Rlp.encode (.list items)).length st) := by
  rw [Rlp.encode, List.length_append] at small enough
  rw [Rlp.encode, List.append_assoc] at poised
  rw [Rlp.encode, List.length_append] at fits ⊢
  have head : Head .list (Rlp.encodeAll items).length 0 _ := .list (by omega)
  have longer := head.length_pos
  obtain ⟨s₁, looked, cached⟩ := kind_complete head poised fits (by simp)
  obtain ⟨s₂, entered, poised₂⟩ := list_cached cached
  rw [decodeInterface, bind_read looked]
  dsimp only
  rw [if_pos rfl, ← bump_bump]
  -- The elements are read, if there are any, and the list is left.
  have finished : ∃ s', decodeListSlice (fuel + 1) s₁ = (.ok items, s') ∧
      Poised s' rest (bump (Rlp.encodeAll items).length (bump (Rlp.header 0xc0 (Rlp.encodeAll items).length).length st)) := by
    rw [decodeListSlice, bind_read entered]
    split
    · next empty =>
      obtain rfl := Rlp.encodeAll_eq_nil empty
      obtain ⟨s₃, left, poised₃⟩ := listEnd_ended poised₂.toAt rfl
      exact ⟨s₃, by rw [bind_read left]; rfl, poised₃⟩
    · have ended : ∀ outer, AtEnd (bump (Rlp.encodeAll items).length (⟨0, (Rlp.encodeAll items).length⟩ :: outer)) :=
        fun _ => Nat.zero_add _
      obtain ⟨s₃, ran, poised₃⟩ := elems poised₂ (ended _) (show _ ≤ fuel by omega)
      obtain ⟨s₄, left, poised₄⟩ := listEnd_ended poised₃.toAt (ended _)
      exact ⟨s₄, by rw [bind_read ran, bind_read left]; rfl, poised₄⟩
  obtain ⟨s', ran, poised'⟩ := finished
  exact ⟨s', by rw [bind_read ran]; rfl, poised'⟩

mutual

theorem decodeInterface_complete : ∀ (item : Item) {fuel : Nat} {s : Stream} {rest : Bytes} {st : List ListPos},
    (Rlp.encode item).length < 2 ^ 64 → Poised s (Rlp.encode item ++ rest) st → FitsList (Rlp.encode item).length st →
    3 * (Rlp.encode item).length + 1 ≤ fuel →
    ∃ s', decodeInterface fuel s = (.ok item, s') ∧ Poised s' rest (bump (Rlp.encode item).length st)
  | .str b, fuel, s, rest, st, small, poised, fits, enough => by
    obtain ⟨fuel, rfl⟩ : ∃ less, fuel = less + 1 := ⟨fuel - 1, by omega⟩
    exact decodeString_complete small poised fits
  | .list items, fuel, s, rest, st, small, poised, fits, enough => by
    have longer := Rlp.encode_length_pos (.list items)
    obtain ⟨fuel, rfl⟩ : ∃ less, fuel = less + 2 := ⟨fuel - 2, by omega⟩
    have shorter : (Rlp.encodeAll items).length < 2 ^ 64 := by
      rw [Rlp.encode, List.length_append] at small
      omega
    exact decodeList_complete (decodeSliceElems_complete items shorter []) small poised fits enough

theorem decodeSliceElems_complete : ∀ (items : List Item), (Rlp.encodeAll items).length < 2 ^ 64 → ∀ (done : List Item)
    {rest : Bytes} {s : Stream} {fuel : Nat} {st : List ListPos}, Poised s (Rlp.encodeAll items ++ rest) st →
    AtEnd (bump (Rlp.encodeAll items).length st) → 3 * (Rlp.encodeAll items).length + 2 ≤ fuel →
    ∃ s', decodeSliceElems fuel done s = (.ok (done ++ items), s') ∧ Poised s' rest (bump (Rlp.encodeAll items).length st)
  | [], _, done, rest, s, fuel, st, poised, ended, enough => by
    rw [Rlp.encodeAll, List.length_nil, bump_zero] at ended ⊢
    obtain ⟨fuel, rfl⟩ : ∃ less, fuel = less + 2 := ⟨fuel - 2, by omega⟩
    obtain ⟨s₁, looked, poised₁⟩ := kind_ended poised ended
    have ran : decodeInterface (fuel + 1) s = (.error .EOL, s₁) := by rw [decodeInterface, bind_error looked]
    exact ⟨s₁, by rw [decodeSliceElems_ended ran, List.append_nil], poised₁⟩
  | item :: items, small, done, rest, s, fuel, st, poised, ended, enough => by
    rw [Rlp.encodeAll, List.length_append] at small enough
    rw [Rlp.encodeAll, List.append_assoc] at poised
    rw [Rlp.encodeAll, List.length_append] at ended ⊢
    have longer := Rlp.encode_length_pos item
    obtain ⟨fuel, rfl⟩ : ∃ less, fuel = less + 1 := ⟨fuel - 1, by omega⟩
    obtain ⟨s₁, ran, poised₁⟩ :=
      @decodeInterface_complete item fuel s _ st (by omega) poised (ended.room.mono (Nat.le_add_right _ _)) (by omega)
    rw [← bump_bump] at ended ⊢
    obtain ⟨s₂, ran', poised₂⟩ :=
      @decodeSliceElems_complete items (by omega) (done ++ [item]) rest s₁ fuel _ poised₁ ended (by omega)
    refine ⟨s₂, ?_, poised₂⟩
    rw [decodeSliceElems_item ran, ran', List.append_assoc]
    rfl

end

end Decoding

section Input

theorem decodeBytes_sound {b : Bytes} {item : Item} (decoded : decodeBytes b = .ok item) : Rlp.encode item = b := by
  unfold decodeBytes at decoded
  have start : Poised { r := b, remaining := b.length } b [] := ⟨⟨rfl, rfl, rfl, rfl⟩, rfl⟩
  rcases (decode_sound (3 * b.length + 3)).1 start trivial (by omega) with
    ⟨ended, -⟩ | ⟨found, rest, s', same, -, ran, poised⟩ | ⟨err, s', ran, -⟩
  · exact ended.elim
  · rw [ran] at decoded
    dsimp only at decoded
    rw [poised.input] at decoded
    split at decoded
    · cases decoded
    · next none =>
      cases decoded
      have empty : rest = [] := List.length_eq_zero_iff.mp (by omega)
      rw [same, empty, List.append_nil]
  · rw [ran] at decoded
    cases decoded

theorem decodeBytes_complete {item : Item} (small : (Rlp.encode item).length < 2 ^ 64) :
    decodeBytes (Rlp.encode item) = .ok item := by
  have start : Poised { r := Rlp.encode item, remaining := (Rlp.encode item).length } (Rlp.encode item ++ []) [] := by
    rw [List.append_nil]
    exact ⟨⟨rfl, rfl, rfl, rfl⟩, rfl⟩
  obtain ⟨s', ran, poised⟩ :=
    decodeInterface_complete item small start trivial (show _ ≤ 3 * (Rlp.encode item).length + 3 by omega)
  unfold decodeBytes
  rw [ran]
  dsimp only
  rw [poised.input]
  rfl

theorem decodeBytes_fuel (b : Bytes) : decodeBytes b ≠ .error .outOfFuel := by
  unfold decodeBytes
  have start : Poised { r := b, remaining := b.length } b [] := ⟨⟨rfl, rfl, rfl, rfl⟩, rfl⟩
  rcases (decode_sound (3 * b.length + 3)).1 start trivial (by omega) with
    ⟨ended, -⟩ | ⟨found, rest, s', same, -, ran, poised⟩ | ⟨err, s', ran, proper⟩
  · exact ended.elim
  · rw [ran]
    dsimp only
    split <;> nofun
  · rw [ran]
    dsimp only
    split
    · nofun
    · exact fun same => proper.2 (Except.error.inj same)

end Input

end CuteEVM
