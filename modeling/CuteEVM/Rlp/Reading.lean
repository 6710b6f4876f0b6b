import CuteEVM.Rlp.Decode
import CuteEVM.Rlp.Writing

set_option autoImplicit false

-- A stream is described by its unread input and its stack of lists.

namespace CuteEVM

open Rlp (Item)
open Read

section Streams

def bump (n : Nat) : List ListPos → List ListPos
  | [] => []
  | tos :: outer => { tos with pos := tos.pos + n } :: outer

def FitsList (n : Nat) : List ListPos → Prop
  | [] => True
  | tos :: _ => tos.pos + n ≤ tos.size

structure At (s : Stream) (r : Bytes) (st : List ListPos) : Prop where
  input : s.r = r
  remaining : s.remaining = r.length
  limited : s.limited = true
  stack : s.stack = st

structure Poised (s : Stream) (r : Bytes) (st : List ListPos) : Prop extends At s r st where
  unknown : s.kind = none

structure Cached (s : Stream) (k : Kind) (size : Nat) (byteval : UInt8) (r : Bytes) (st : List ListPos) :
    Prop extends At s r st where
  known : s.kind = some k
  size : s.size = size
  fine : s.kinderr = none
  byteval : k = .byte → s.byteval = byteval

def Proper (err : RlpErr) : Prop := err ≠ .EOL ∧ err ≠ .outOfFuel

variable {α β : Type} {s : Stream} {r : Bytes} {st : List ListPos} {n m : Nat}

theorem bump_bump : bump m (bump n st) = bump (n + m) st := by
  cases st with
  | nil => rfl
  | cons tos outer => simp [bump, Nat.add_assoc]

theorem bump_zero : bump 0 st = st := by cases st <;> rfl

theorem fitsList_bump (fits : FitsList (n + m) st) : FitsList m (bump n st) := by
  cases st with
  | nil => trivial
  | cons tos outer =>
    unfold FitsList at fits
    show tos.pos + n + m ≤ tos.size
    omega

theorem fitsList_add (fits : FitsList m (bump n st)) : FitsList (n + m) st := by
  cases st with
  | nil => trivial
  | cons tos outer =>
    change tos.pos + n + m ≤ tos.size at fits
    show tos.pos + (n + m) ≤ tos.size
    omega

theorem FitsList.mono (fits : FitsList n st) (le : m ≤ n) : FitsList m st := by
  cases st with
  | nil => trivial
  | cons tos outer =>
    unfold FitsList at fits ⊢
    omega

theorem bind_read {first : Read α} {next : α → Read β} {value : α} {s s₁ : Stream} (ran : first s = (.ok value, s₁)) :
    (first >>= next) s = next value s₁ := by
  show Read.bind first next s = _
  rw [Read.bind, ran]

theorem bind_error {first : Read α} {next : α → Read β} {err : RlpErr} {s s₁ : Stream} (ran : first s = (.error err, s₁)) :
    (first >>= next) s = (.error err, s₁) := by
  show Read.bind first next s = _
  rw [Read.bind, ran]

theorem attempt_read {first : Read α} {next : Except RlpErr α → Read β} {outcome : Except RlpErr α} {s s₁ : Stream}
    (ran : first s = (outcome, s₁)) : attempt first next s = next outcome s₁ := by
  unfold attempt
  rw [ran]

theorem willRead_spec (at_ : At s r st) (sane : FitsList 0 st) (n : Nat) :
    ((FitsList n st ∧ n ≤ r.length) ∧ ∃ s', willRead n s = (.ok (), s') ∧ s'.r = r ∧ s'.remaining = r.length - n ∧
      s'.limited = true ∧ s'.stack = bump n st ∧ s'.kind = none) ∨
    (¬ (FitsList n st ∧ n ≤ r.length) ∧ ∃ err s', willRead n s = (.error err, s') ∧ Proper err) := by
  obtain ⟨rfl, remaining, limited, rfl⟩ := at_
  have tooLarge : Proper .elemTooLarge ∧ Proper .valueTooLarge := ⟨⟨nofun, nofun⟩, ⟨nofun, nofun⟩⟩
  unfold willRead
  dsimp only
  cases shape : s.stack with
  | nil =>
    dsimp only [withinLimit]
    rw [if_pos limited, remaining]
    split
    · next large => exact .inr ⟨fun both => by omega, _, _, rfl, tooLarge.2⟩
    · next small => exact .inl ⟨⟨trivial, by omega⟩, _, rfl, rfl, rfl, limited, rfl, rfl⟩
  | cons tos outer =>
    rw [shape] at sane
    dsimp only [withinLimit]
    have within : FitsList n (tos :: outer) ↔ ¬ n > tos.size - tos.pos := by
      unfold FitsList at sane ⊢
      omega
    rw [within, if_pos limited]
    split
    · next large => exact .inr ⟨fun both => both.1 large, _, _, rfl, tooLarge.1⟩
    · next small =>
      rw [remaining]
      split
      · next large => exact .inr ⟨fun both => by omega, _, _, rfl, tooLarge.2⟩
      · next enough => exact .inl ⟨⟨small, by omega⟩, _, rfl, rfl, rfl, limited, rfl, rfl⟩

theorem readFull_spec (at_ : At s r st) (sane : FitsList 0 st) (n : Nat) :
    ((FitsList n st ∧ n ≤ r.length) ∧ ∃ s', readFull n s = (.ok (r.take n), s') ∧ Poised s' (r.drop n) (bump n st)) ∨
    (¬ (FitsList n st ∧ n ≤ r.length) ∧ ∃ err s', readFull n s = (.error err, s') ∧ Proper err) := by
  unfold readFull
  rcases willRead_spec at_ sane n with ⟨there, s', ran, input, remaining, limited, stack, kind⟩ | ⟨missing, err, s', ran, proper⟩
  · refine .inl ⟨there, ?_⟩
    rw [bind_read ran]
    unfold inputBytes
    rw [input, if_neg (by omega)]
    exact ⟨_, rfl, ⟨⟨rfl, by rw [List.length_drop]; exact remaining, limited, stack⟩, kind⟩⟩
  · exact .inr ⟨missing, err, s', bind_error ran, proper⟩

theorem readByte_spec (at_ : At s r st) (sane : FitsList 0 st) :
    (∃ b rest, r = b :: rest ∧ FitsList 1 st ∧ ∃ s', readByte s = (.ok b, s') ∧ Poised s' rest (bump 1 st)) ∨
    (¬ (FitsList 1 st ∧ 1 ≤ r.length) ∧ ∃ err s', readByte s = (.error err, s') ∧ Proper err) := by
  unfold readByte
  rcases willRead_spec at_ sane 1 with ⟨there, s', ran, input, remaining, limited, stack, kind⟩ | ⟨missing, err, s', ran, proper⟩
  · cases r with
    | nil => exact absurd there.2 (by decide)
    | cons b rest =>
      refine .inl ⟨b, rest, rfl, there.1, ?_⟩
      rw [bind_read ran]
      unfold inputByte
      rw [input]
      exact ⟨_, rfl, ⟨⟨rfl, remaining, limited, stack⟩, kind⟩⟩
  · exact .inr ⟨missing, err, s', bind_error ran, proper⟩

end Streams

section Headers

variable {s : Stream} {r : Bytes} {st : List ListPos}

inductive Head : Kind → Nat → UInt8 → Bytes → Prop where
  | byte {b : UInt8} (low : b.toNat < 0x80) : Head .byte 0 b [b]
  | string {size : Nat} (fits : size < 2 ^ 64) : Head .string size 0 (Rlp.header 0x80 size)
  | list {size : Nat} (fits : size < 2 ^ 64) : Head .list size 0 (Rlp.header 0xc0 size)

theorem header_cases {tag size : Nat} (room : tag ≤ 0xc0) (fits : size < 2 ^ 64) :
    ∃ b t, Rlp.header tag size = b :: t ∧
      ((size < 56 ∧ b.toNat = tag + size ∧ t = []) ∨
        (56 ≤ size ∧ b.toNat = tag + 55 + BigEndian.width size ∧ 1 ≤ BigEndian.width size ∧ BigEndian.width size ≤ 8 ∧
          t = BigEndian.digits size)) := by
  unfold Rlp.header
  split
  · next short =>
    refine ⟨_, _, rfl, .inl ⟨short, ?_, rfl⟩⟩
    rw [UInt8.toNat_ofNat']
    omega
  · next long =>
    have most : BigEndian.width size ≤ 8 := BigEndian.width_le (by omega)
    have least : 0 < BigEndian.width size := BigEndian.width_pos (by omega)
    refine ⟨_, _, rfl, .inr ⟨by omega, ?_, least, most, rfl⟩⟩
    rw [UInt8.toNat_ofNat']
    omega

theorem readUint_one : readUint 1 = (do
    let b ← readByte
    pure b.toNat) := rfl

theorem readUint_more (size : Nat) : readUint (size + 2) = (do
    let buf ← readFull (size + 2)
    if buf.headD 0 = 0 then fail .canonSize else pure (setBytes buf)) := rfl

theorem readUint_sound {n : Nat} (at_ : At s r st) (sane : FitsList 0 st) (some_bytes : 1 ≤ n) :
    (∃ buf rest s', r = buf ++ rest ∧ buf.length = n ∧ FitsList n st ∧ (n = 1 ∨ buf.headD 0 ≠ 0) ∧
      readUint n s = (.ok (BigEndian.read buf), s') ∧ Poised s' rest (bump n st)) ∨
    ∃ err s', readUint n s = (.error err, s') ∧ Proper err := by
  match n, some_bytes with
  | 1, _ =>
    rw [readUint_one]
    rcases readByte_spec at_ sane with ⟨b, rest, rfl, fits, s', ran, poised⟩ | ⟨-, err, s', ran, proper⟩
    · refine .inl ⟨[b], rest, s', rfl, rfl, fits, .inl rfl, ?_, poised⟩
      rw [bind_read ran]
      have single : BigEndian.read [b] = b.toNat := by simp [BigEndian.read_cons]
      rw [single]
      rfl
    · exact .inr ⟨err, s', bind_error ran, proper⟩
  | size + 2, _ =>
    rw [readUint_more]
    rcases readFull_spec at_ sane (size + 2) with ⟨⟨fits, enough⟩, s', ran, poised⟩ | ⟨-, err, s', ran, proper⟩
    · rw [bind_read ran]
      split
      · exact .inr ⟨_, _, rfl, nofun, nofun⟩
      · next nonzero =>
        exact .inl ⟨_, _, s', (List.take_append_drop (size + 2) r).symm, List.length_take_of_le enough, fits, .inr nonzero, rfl,
          poised⟩
    · exact .inr ⟨err, s', bind_error ran, proper⟩

theorem readSized_sound {k : Kind} {n : UInt8} (at_ : At s r st) (sane : FitsList 0 st) (some_bytes : 1 ≤ n.toNat)
    (few : n.toNat ≤ 8) :
    (∃ size rest s', r = BigEndian.digits size ++ rest ∧ BigEndian.width size = n.toNat ∧ 56 ≤ size ∧ size < 2 ^ 64 ∧
      FitsList n.toNat st ∧ readSized k n s = ((k, size, none), s') ∧ Poised s' rest (bump n.toNat st)) ∨
    ∃ size err s', readSized k n s = ((k, size, some err), s') ∧ Proper err := by
  unfold readSized
  rcases readUint_sound at_ sane some_bytes with ⟨buf, rest, s', rfl, length, fits, leading, ran, poised⟩ | ⟨err, s', ran, proper⟩
  · rw [ran]
    dsimp only
    split
    · exact .inr ⟨_, _, _, rfl, nofun, nofun⟩
    · next large =>
      have small : BigEndian.read buf < 2 ^ 64 := by
        have below := BigEndian.read_lt buf
        have power : 256 ^ buf.length ≤ 256 ^ 8 := Nat.pow_le_pow_right (by decide) (by omega)
        omega
      have minimal : BigEndian.digits (BigEndian.read buf) = buf := by
        match buf, length, leading, large with
        | [], length, _, _ => simp at length; omega
        | b :: low, length, leading, large =>
          apply BigEndian.digits_read
          rintro rfl
          rcases leading with single | nonzero
          · -- A single zero byte is not a size of 56 or more.
            obtain rfl : low = [] := List.length_eq_zero_iff.mp (by rw [List.length_cons] at length; omega)
            exact large (by decide)
          · exact nonzero rfl
      have width : BigEndian.width (BigEndian.read buf) = n.toNat := by rw [← BigEndian.digits_length, minimal, length]
      exact .inl ⟨_, rest, s', by rw [minimal], width, by omega, small, fits, rfl, poised⟩
  · rw [ran]
    exact .inr ⟨_, _, _, rfl, proper⟩

theorem readUint_complete {buf rest : Bytes} (at_ : At s (buf ++ rest) st) (fits : FitsList buf.length st)
    (leading : ∃ b low, buf = b :: low ∧ b ≠ 0) :
    ∃ s', readUint buf.length s = (.ok (BigEndian.read buf), s') ∧ Poised s' rest (bump buf.length st) := by
  have sane := fits.mono (Nat.zero_le _)
  obtain ⟨b, low, rfl, nonzero⟩ := leading
  cases low with
  | nil =>
    show ∃ s', readUint 1 s = _ ∧ _
    rw [readUint_one]
    rcases readByte_spec at_ sane with ⟨b', rest', same, -, s', ran, poised⟩ | ⟨missing, -⟩
    · obtain ⟨rfl, rfl⟩ := List.cons.inj same
      have single : BigEndian.read [b] = b.toNat := by simp [BigEndian.read_cons]
      exact ⟨s', by rw [bind_read ran, single]; rfl, poised⟩
    · exact absurd ⟨fits, by simp⟩ missing
  | cons second low =>
    show ∃ s', readUint (low.length + 2) s = _ ∧ _
    rw [readUint_more]
    rcases readFull_spec at_ sane (low.length + 2) with ⟨-, s', ran, poised⟩ | ⟨missing, -⟩
    · have taken : (b :: second :: low ++ rest).take (low.length + 2) = b :: second :: low := by simp
      have dropped : (b :: second :: low ++ rest).drop (low.length + 2) = rest := by simp
      rw [taken] at ran
      rw [dropped] at poised
      refine ⟨s', ?_, poised⟩
      rw [bind_read ran, if_neg (show ¬ (b :: second :: low).headD 0 = 0 from nonzero)]
      rfl
    · exact absurd ⟨fits, by simp⟩ missing

theorem header_short {tag : Nat} {b : UInt8} (above : tag ≤ b.toNat) (below : b.toNat < tag + 56) :
    Rlp.header tag (b.toNat - tag) = [b] := by
  unfold Rlp.header
  rw [if_pos (by omega), Nat.add_sub_cancel' above, UInt8.ofNat_toNat]

theorem header_long {tag size : Nat} {b : UInt8} (large : 56 ≤ size) (first : b.toNat = tag + 55 + BigEndian.width size) :
    Rlp.header tag size = b :: BigEndian.digits size := by
  unfold Rlp.header
  rw [if_neg (by omega), ← first, UInt8.ofNat_toNat]

theorem header_long_length {tag size : Nat} (large : 56 ≤ size) : (Rlp.header tag size).length = 1 + BigEndian.width size := by
  unfold Rlp.header
  rw [if_neg (by omega), List.length_cons, BigEndian.digits_length, Nat.add_comm]

theorem readSized_head {k : Kind} {tag : Nat} {b n : UInt8} {rest : Bytes}
    (head : ∀ size, size < 2 ^ 64 → Head k size 0 (Rlp.header tag size)) (lower : tag + 56 ≤ b.toNat) (upper : b.toNat < tag + 64)
    (amount : n.toNat = b.toNat - (tag + 55)) (at_ : At s rest (bump 1 st)) (fits : FitsList 1 st) :
    (∃ size h rest' s', b :: rest = h ++ rest' ∧ Head k size 0 h ∧ FitsList h.length st ∧ readSized k n s = ((k, size, none), s') ∧
      At s' rest' (bump h.length st)) ∨
    ∃ size err s', readSized k n s = ((k, size, some err), s') ∧ Proper err := by
  have sane : FitsList 0 (bump 1 st) := fitsList_bump fits
  have few : 1 ≤ n.toNat ∧ n.toNat ≤ 8 := by omega
  rcases @readSized_sound s rest _ k n at_ sane few.1 few.2 with
    ⟨size, rest', s', rfl, width, large, small, fits', ran, poised⟩ | ⟨size, err, s', ran, proper⟩
  · have shape : Rlp.header tag size = b :: BigEndian.digits size := header_long large (by omega)
    have length : (Rlp.header tag size).length = 1 + n.toNat := by rw [header_long_length large, width]
    refine .inl ⟨size, _, rest', s', ?_, head size small, ?_, ran, ?_⟩
    · rw [shape]
      rfl
    · rw [length]
      exact fitsList_add fits'
    · rw [length, ← bump_bump]
      exact poised.toAt
  · exact .inr ⟨size, err, s', ran, proper⟩

theorem readKind_sound (poised : Poised s r st) (sane : FitsList 0 st) :
    (∃ k size bv h rest s', r = h ++ rest ∧ Head k size bv h ∧ FitsList h.length st ∧ readKind s = ((k, size, none), s') ∧
      At s' rest (bump h.length st) ∧ (k = .byte → s'.byteval = bv)) ∨
    ∃ k size err s', readKind s = ((k, size, some err), s') ∧ Proper err := by
  unfold readKind
  rcases readByte_spec poised.toAt sane with ⟨b, rest, rfl, fits, s₁, ran, poised₁⟩ | ⟨-, err, s₁, ran, proper⟩
  · have cleared : ∀ byteval, At { s₁ with byteval := byteval } rest (bump 1 st) :=
      fun _ => ⟨poised₁.input, poised₁.remaining, poised₁.limited, poised₁.stack⟩
    rw [ran]
    dsimp only
    -- Each range of the first byte is one shape of a header.
    split
    · next below => exact .inl ⟨_, _, _, [b], rest, _, rfl, .byte below, fits, rfl, cleared b, fun _ => rfl⟩
    · next above₁ =>
      have lower₁ : 0x80 ≤ b.toNat := Nat.not_lt.mp above₁
      split
      · next below =>
        have upper : b.toNat < 0xb8 := below
        rw [UInt8.toNat_sub_of_le b 0x80 lower₁]
        have head : Head .string (b.toNat - 0x80) 0 [b] := header_short lower₁ upper ▸ Head.string (by omega)
        exact .inl ⟨_, _, _, [b], rest, _, rfl, head, fits, rfl, cleared 0, nofun⟩
      · next above₂ =>
        have lower₂ : 0xb8 ≤ b.toNat := Nat.not_lt.mp above₂
        split
        · next below =>
          have upper : b.toNat < 0xc0 := below
          rcases readSized_head (fun _ => .string) lower₂ upper (UInt8.toNat_sub_of_le b 0xB7 (Nat.le_of_succ_le lower₂))
            (cleared 0) fits with
            ⟨size, h, rest', s', same, head, inside, ran', at'⟩ | ⟨size, err, s', ran', proper⟩
          · exact .inl ⟨_, size, _, h, rest', s', same, head, inside, ran', at', nofun⟩
          · exact .inr ⟨_, size, err, s', ran', proper⟩
        · next above₃ =>
          have lower₃ : 0xc0 ≤ b.toNat := Nat.not_lt.mp above₃
          split
          · next below =>
            have upper : b.toNat < 0xf8 := below
            rw [UInt8.toNat_sub_of_le b 0xC0 lower₃]
            have head : Head .list (b.toNat - 0xc0) 0 [b] := header_short lower₃ upper ▸ Head.list (by omega)
            exact .inl ⟨_, _, _, [b], rest, _, rfl, head, fits, rfl, cleared 0, nofun⟩
          · next above₄ =>
            have lower₄ : 0xf8 ≤ b.toNat := Nat.not_lt.mp above₄
            rcases readSized_head (fun _ => .list) lower₄ b.toNat_lt (UInt8.toNat_sub_of_le b 0xF7 (Nat.le_of_succ_le lower₄))
              (cleared 0) fits with
              ⟨size, h, rest', s', same, head, inside, ran', at'⟩ | ⟨size, err, s', ran', proper⟩
            · exact .inl ⟨_, size, _, h, rest', s', same, head, inside, ran', at', nofun⟩
            · exact .inr ⟨_, size, err, s', ran', proper⟩
  · rw [ran]
    refine .inr ⟨_, _, _, _, rfl, ?_⟩
    unfold atToplevel
    split
    · exact ⟨nofun, nofun⟩
    · exact proper

theorem readSized_complete {k : Kind} {n : UInt8} {size : Nat} {rest : Bytes} (large : 56 ≤ size)
    (width : BigEndian.width size = n.toNat) (at_ : At s (BigEndian.digits size ++ rest) st) (fits : FitsList n.toNat st) :
    ∃ s', readSized k n s = ((k, size, none), s') ∧ At s' rest (bump n.toNat st) := by
  have length : (BigEndian.digits size).length = n.toNat := by rw [BigEndian.digits_length, width]
  rw [← length] at fits ⊢
  obtain ⟨s', ran, poised⟩ := readUint_complete at_ fits (BigEndian.digits_cons (by omega))
  rw [length, BigEndian.read_digits] at ran
  refine ⟨s', ?_, poised.toAt⟩
  unfold readSized
  rw [ran]
  dsimp only
  rw [if_neg (by omega)]

theorem not_below {b k : UInt8} {low : Nat} (above : low ≤ b.toNat) (le : k.toNat ≤ low) : ¬ b < k :=
  Nat.not_lt.2 (le.trans above)

theorem readKind_complete {k : Kind} {size : Nat} {bv : UInt8} {h rest : Bytes} (head : Head k size bv h)
    (poised : Poised s (h ++ rest) st) (fits : FitsList h.length st) :
    ∃ s', readKind s = ((k, size, none), s') ∧ At s' rest (bump h.length st) ∧ (k = .byte → s'.byteval = bv) := by
  have sane := fits.mono (Nat.zero_le _)
  -- The first byte, whatever follows it.
  have first : ∀ {b : UInt8} {t : Bytes}, h = b :: t → ∃ s₁, readByte s = (.ok b, s₁) ∧
      ∀ byteval, At { s₁ with byteval := byteval } (t ++ rest) (bump 1 st) := by
    rintro b t rfl
    rcases readByte_spec poised.toAt sane with ⟨b', rest', same, -, s₁, ran, poised₁⟩ | ⟨missing, -⟩
    · obtain ⟨rfl, rfl⟩ := List.cons.inj same
      exact ⟨s₁, ran, fun _ => ⟨poised₁.input, poised₁.remaining, poised₁.limited, poised₁.stack⟩⟩
    · rw [List.length_cons] at fits
      exact absurd ⟨fits.mono (by omega), by simp⟩ missing
  unfold readKind
  cases head with
  | byte low =>
    obtain ⟨s₁, ran, cleared⟩ := first rfl
    rw [ran]
    dsimp only
    rw [if_pos (show bv < 0x80 from low)]
    exact ⟨_, rfl, cleared bv, fun _ => rfl⟩
  | string small =>
    obtain ⟨b, t, shape, ⟨short, value, rfl⟩ | ⟨large, value, least, most, rfl⟩⟩ := @header_cases 0x80 size (by decide) small
    · obtain ⟨s₁, ran, cleared⟩ := first shape
      have above : 0x80 ≤ b.toNat := by omega
      have amount : (b - 0x80).toNat = size := (UInt8.toNat_sub_of_le b 0x80 above).trans (show b.toNat - 0x80 = size by omega)
      rw [ran, shape]
      dsimp only
      rw [if_neg (not_below above (by decide)), if_pos (show b < 0xb8 from show b.toNat < 0xb8 by omega), amount]
      exact ⟨_, rfl, cleared 0, nofun⟩
    · obtain ⟨s₁, ran, cleared⟩ := first shape
      have above : 0xb8 ≤ b.toNat := by omega
      have amount : (b - 0xB7).toNat = b.toNat - 0xb7 := UInt8.toNat_sub_of_le b 0xB7 (Nat.le_of_succ_le above)
      have length : (Rlp.header 0x80 size).length = 1 + (b - 0xB7).toNat := by rw [header_long_length large, amount]; omega
      rw [length] at fits ⊢
      obtain ⟨s', sized, at'⟩ := @readSized_complete _ _ .string _ _ _ large (show _ = (b - 0xB7).toNat by omega) (cleared 0)
        (fitsList_bump fits)
      rw [ran]
      dsimp only
      rw [if_neg (not_below above (by decide)), if_neg (not_below above (by decide)),
        if_pos (show b < 0xc0 from show b.toNat < 0xc0 by omega)]
      exact ⟨s', sized, bump_bump ▸ at', nofun⟩
  | list small =>
    obtain ⟨b, t, shape, ⟨short, value, rfl⟩ | ⟨large, value, least, most, rfl⟩⟩ := @header_cases 0xc0 size (by decide) small
    · obtain ⟨s₁, ran, cleared⟩ := first shape
      have above : 0xc0 ≤ b.toNat := by omega
      have amount : (b - 0xC0).toNat = size := (UInt8.toNat_sub_of_le b 0xC0 above).trans (show b.toNat - 0xc0 = size by omega)
      rw [ran, shape]
      dsimp only
      rw [if_neg (not_below above (by decide)), if_neg (not_below above (by decide)), if_neg (not_below above (by decide)),
        if_pos (show b < 0xf8 from show b.toNat < 0xf8 by omega), amount]
      exact ⟨_, rfl, cleared 0, nofun⟩
    · obtain ⟨s₁, ran, cleared⟩ := first shape
      have above : 0xf8 ≤ b.toNat := by omega
      have amount : (b - 0xF7).toNat = b.toNat - 0xf7 := UInt8.toNat_sub_of_le b 0xF7 (Nat.le_of_succ_le above)
      have length : (Rlp.header 0xc0 size).length = 1 + (b - 0xF7).toNat := by rw [header_long_length large, amount]; omega
      rw [length] at fits ⊢
      obtain ⟨s', sized, at'⟩ := @readSized_complete _ _ .list _ _ _ large (show _ = (b - 0xF7).toNat by omega) (cleared 0)
        (fitsList_bump fits)
      rw [ran]
      dsimp only
      rw [if_neg (not_below above (by decide)), if_neg (not_below above (by decide)), if_neg (not_below above (by decide)),
        if_neg (not_below above (by decide))]
      exact ⟨s', sized, bump_bump ▸ at', nofun⟩

end Headers

end CuteEVM
