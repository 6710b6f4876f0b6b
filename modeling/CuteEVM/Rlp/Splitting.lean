import CuteEVM.Rlp.Raw
import CuteEVM.Rlp.Values

set_option autoImplicit false

-- Both are compared with one grammar of the first value of an input.

namespace CuteEVM

inductive First : Bytes → Kind → Bytes → Bytes → Prop where
  | byte {b : UInt8} (rest : Bytes) (low : b.toNat < 0x80) : First (b :: rest) .byte [b] rest
  | string {content : Bytes} (rest : Bytes) (fits : content.length < 2 ^ 64)
    (plain : ¬ (content.length = 1 ∧ content.headD 0 < 128)) :
      First (Rlp.header 0x80 content.length ++ (content ++ rest)) .string content rest
  | list {content : Bytes} (rest : Bytes) (fits : content.length < 2 ^ 64) :
      First (Rlp.header 0xc0 content.length ++ (content ++ rest)) .list content rest

theorem First.shorter {p content rest : Bytes} {k : Kind} (first : First p k content rest) : rest.length < p.length := by
  have header := fun tag => List.length_pos_iff.mpr (Rlp.header_ne_nil tag content.length)
  cases first with
  | byte rest low => exact Nat.lt_succ_self _
  | string rest fits plain =>
    have some := header 0x80
    simp only [List.length_append]
    omega
  | list rest fits =>
    have some := header 0xc0
    simp only [List.length_append]
    omega

namespace Raw

section Sizes

theorem shifted_eq (b : Bytes) : shifted b = BigEndian.read b := by
  induction b with
  | nil => rfl
  | cons first rest ih =>
    have low := BigEndian.read_lt rest
    rw [show (256 : Nat) = 2 ^ 8 from rfl, ← Nat.pow_mul] at low
    rw [shifted, ih, BigEndian.read_cons, ← Nat.shiftLeft_add_eq_or_of_lt low, Nat.shiftLeft_eq, show (256 : Nat) = 2 ^ 8 from rfl,
      ← Nat.pow_mul]

theorem readSize_cases {b : Bytes} {slen : Nat} (some_bytes : 1 ≤ slen) (few : slen ≤ 8) :
    (∃ err, readSize b slen = some (.error err)) ∨
    ∃ size rest, readSize b slen = some (.ok size) ∧ 56 ≤ size ∧ BigEndian.width size = slen ∧ b = BigEndian.digits size ++
      rest := by
  unfold readSize
  split
  · exact .inl ⟨_, rfl⟩
  · next enough =>
    have within : 1 ≤ slen ∧ slen ≤ 8 := ⟨some_bytes, few⟩
    dsimp only
    rw [if_pos within, shifted_eq]
    split
    · exact .inl ⟨_, rfl⟩
    · next large =>
      cases b with
      | nil =>
        rw [List.length_nil] at enough
        omega
      | cons first rest =>
        obtain ⟨more, rfl⟩ : ∃ more, slen = more + 1 := ⟨slen - 1, by omega⟩
        dsimp only [List.getElem?_cons_zero, Option.bind_eq_bind, Option.bind_some]
        split
        · exact .inl ⟨_, rfl⟩
        · next nonzero =>
          have written := BigEndian.digits_read (rest.take more) nonzero
          rw [List.take_succ_cons] at large ⊢
          refine .inr ⟨_, rest.drop more, rfl, by omega, ?_, ?_⟩
          · rw [← BigEndian.digits_length, written, List.length_cons, List.length_take]
            rw [List.length_cons] at enough
            omega
          · rw [written, List.cons_append, List.take_append_drop]

theorem readSize_digits {size : Nat} (large : 56 ≤ size) (fits : size < 2 ^ 64) (rest : Bytes) :
    readSize (BigEndian.digits size ++ rest) (BigEndian.width size) = some (.ok size) := by
  have few : BigEndian.width size ≤ 8 := BigEndian.width_le (by omega)
  have within : 1 ≤ BigEndian.width size ∧ BigEndian.width size ≤ 8 := ⟨BigEndian.width_pos (by omega), few⟩
  obtain ⟨first, low, shape, nonzero⟩ := @BigEndian.digits_cons size (by omega)
  have length := BigEndian.digits_length size
  unfold readSize
  rw [if_neg (by rw [List.length_append]; omega)]
  dsimp only
  rw [if_pos within, shifted_eq, ← length, List.take_left, BigEndian.read_digits, if_neg (by omega), shape]
  dsimp only [List.cons_append, List.getElem?_cons_zero, Option.bind_eq_bind, Option.bind_some]
  rw [if_neg nonzero]
  rfl

end Sizes

section Kinds

variable {p t content rest : Bytes} {k : Kind} {size : Nat}

theorem withinInput_eq (small : p.length < 2 ^ 64) {tagsize : Nat} (tagged : tagsize ≤ p.length) (few : tagsize < 2 ^ 64)
    (size : Nat) :
    withinInput p k tagsize size = if size > p.length - tagsize then .error .valueTooLarge else .ok (k, tagsize, size) := by
  unfold withinInput
  rw [show (p.length + (2 ^ 64 - tagsize)) % 2 ^ 64 = p.length - tagsize by omega]

theorem readKind_short {b : UInt8} {tag : Nat} (tagged : (tag = 0x80 ∧ k = .string) ∨ (tag = 0xc0 ∧ k = .list))
    (above : tag ≤ b.toNat)
    (below : b.toNat < tag + 56) (plain : ¬ (k = .string ∧ b.toNat - tag = 1 ∧ t.length > 0 ∧ t.headD 0 < 128)) :
    readKind (b :: t) = some (withinInput (b :: t) k 1 (b.toNat - tag)) := by
  unfold readKind
  rcases tagged with ⟨rfl, rfl⟩ | ⟨rfl, rfl⟩
  · have size : (b - 0x80).toNat = b.toNat - 0x80 := UInt8.toNat_sub_of_le b 0x80 above
    dsimp only
    rw [if_neg (show ¬ b < 0x80 from (by omega : ¬ b.toNat < 0x80)), if_pos (show b < 0xB8 from (by omega : b.toNat < 0xB8)), size,
      if_neg fun single => plain ⟨rfl, single⟩]
  · have size : (b - 0xC0).toNat = b.toNat - 0xC0 := UInt8.toNat_sub_of_le b 0xC0 above
    dsimp only
    rw [if_neg (show ¬ b < 0x80 from (by omega : ¬ b.toNat < 0x80)), if_neg (show ¬ b < 0xB8 from (by omega : ¬ b.toNat < 0xB8)),
      if_neg (show ¬ b < 0xC0 from (by omega : ¬ b.toNat < 0xC0)), if_pos (show b < 0xF8 from (by omega : b.toNat < 0xF8)), size]

theorem readKind_long {b : UInt8} {tag : Nat} (tagged : (tag = 0x80 ∧ k = .string) ∨ (tag = 0xc0 ∧ k = .list))
    (above : tag + 56 ≤ b.toNat) (below : b.toNat < tag + 64) :
    readKind (b :: t) = (readSize t (b.toNat - (tag + 55))).bind fun
      | .error err => some (.error err)
      | .ok size => some (withinInput (b :: t) k (b.toNat - (tag + 55) + 1) size) := by
  unfold readKind
  rcases tagged with ⟨rfl, rfl⟩ | ⟨rfl, rfl⟩
  · have size : (b - 0xB7).toNat = b.toNat - 0xB7 := UInt8.toNat_sub_of_le b 0xB7 (show 0xB7 ≤ b.toNat by omega)
    dsimp only
    rw [if_neg (show ¬ b < 0x80 from (by omega : ¬ b.toNat < 0x80)), if_neg (show ¬ b < 0xB8 from (by omega : ¬ b.toNat < 0xB8)),
      if_pos (show b < 0xC0 from (by omega : b.toNat < 0xC0))]
    unfold readSized
    rw [size]
    rfl
  · have size : (b - 0xF7).toNat = b.toNat - 0xF7 := UInt8.toNat_sub_of_le b 0xF7 (show 0xF7 ≤ b.toNat by omega)
    dsimp only
    rw [if_neg (show ¬ b < 0x80 from (by omega : ¬ b.toNat < 0x80)), if_neg (show ¬ b < 0xB8 from (by omega : ¬ b.toNat < 0xB8)),
      if_neg (show ¬ b < 0xC0 from (by omega : ¬ b.toNat < 0xC0)), if_neg (show ¬ b < 0xF8 from (by omega : ¬ b.toNat < 0xF8))]
    unfold readSized
    rw [size]
    rfl

theorem readKind_header {tag : Nat} (tagged : (tag = 0x80 ∧ k = .string) ∨ (tag = 0xc0 ∧ k = .list)) (fits : size < 2 ^ 64)
    (small : (Rlp.header tag size ++ t).length < 2 ^ 64) (plain : ¬ (k = .string ∧ size = 1 ∧ t.length > 0 ∧ t.headD 0 < 128)) :
    readKind (Rlp.header tag size ++ t) =
      some (if size > t.length then .error .valueTooLarge else .ok (k, (Rlp.header tag size).length, size)) := by
  obtain ⟨b, low, shape, ⟨few, first, rfl⟩ | ⟨large, first, least, most, rfl⟩⟩ := @header_cases tag size (by omega) fits
  · have amount : b.toNat - tag = size := by omega
    rw [shape] at small ⊢
    rw [List.singleton_append] at small ⊢
    rw [readKind_short tagged (by omega) (by omega) (by rwa [amount]), amount,
      withinInput_eq small (by rw [List.length_cons]; omega) (by decide)]
    simp only [List.length_cons, Nat.add_sub_cancel, List.length_nil, Nat.zero_add]
  · have amount : b.toNat - (tag + 55) = BigEndian.width size := by omega
    have length := BigEndian.digits_length size
    rw [shape] at small ⊢
    rw [List.cons_append] at small ⊢
    rw [List.length_cons, List.length_append] at small
    rw [readKind_long tagged (by omega) (by omega), amount, readSize_digits large fits, Option.bind_some]
    dsimp only
    rw [withinInput_eq (by rw [List.length_cons, List.length_append]; omega) (by rw [List.length_cons, List.length_append]; omega)
      (by omega)]
    simp only [List.length_cons, List.length_append, length]
    rw [show BigEndian.width size + t.length + 1 - (BigEndian.width size + 1) = t.length by omega]

theorem readKind_first (first : First p k content rest) (small : p.length < 2 ^ 64) :
    ∃ ts, readKind p = some (.ok (k, ts, content.length)) ∧ p.drop ts = content ++ rest ∧ p.length = ts + content.length +
      rest.length := by
  cases first with
  | byte rest low =>
    refine ⟨0, ?_, rfl, by rw [List.length_cons, List.length_singleton]; omega⟩
    unfold readKind
    dsimp only
    rw [if_pos (show _ < (0x80 : UInt8) from low), withinInput_eq small (Nat.zero_le _) (by decide),
      if_neg (by rw [List.length_cons]; omega)]
    rfl
  | string rest fits plain =>
    refine ⟨(Rlp.header 0x80 content.length).length, ?_, List.drop_left, by simp only [List.length_append]; omega⟩
    rw [readKind_header (.inl ⟨rfl, rfl⟩) fits small ?_, if_neg (by rw [List.length_append]; omega)]
    rintro ⟨-, single, -, low⟩
    obtain ⟨byte, rfl⟩ := List.length_eq_one_iff.mp single
    exact plain ⟨rfl, low⟩
  | list rest fits =>
    refine ⟨(Rlp.header 0xc0 content.length).length, ?_, List.drop_left, by simp only [List.length_append]; omega⟩
    rw [readKind_header (.inr ⟨rfl, rfl⟩) fits small nofun, if_neg (by rw [List.length_append]; omega)]

theorem First.of_header {tag : Nat} (tagged : (tag = 0x80 ∧ k = .string) ∨ (tag = 0xc0 ∧ k = .list)) (fits : size < 2 ^ 64)
    (enough : size ≤ t.length) (plain : ¬ (k = .string ∧ size = 1 ∧ t.length > 0 ∧ t.headD 0 < 128)) :
    First (Rlp.header tag size ++ t) k (t.take size) (t.drop size) := by
  have length : (t.take size).length = size := List.length_take_of_le enough
  have joined : Rlp.header tag size ++ t = Rlp.header tag (t.take size).length ++ (t.take size ++ t.drop size) := by
    rw [length, List.take_append_drop]
  rw [joined]
  rcases tagged with ⟨rfl, rfl⟩ | ⟨rfl, rfl⟩
  · refine .string _ (by omega) ?_
    rintro ⟨single, low⟩
    rw [length] at single
    subst single
    cases t with
    | nil => cases enough
    | cons byte t => exact plain ⟨rfl, rfl, Nat.succ_pos _, low⟩
  · exact .list _ (by omega)

theorem readKind_cases (small : p.length < 2 ^ 64) :
    (∃ err, readKind p = some (.error err)) ∨ ∃ k content rest, First p k content rest := by
  have headed : ∀ {tag : Nat} {k : Kind} (size : Nat) (t : Bytes), (tag = 0x80 ∧ k = .string) ∨ (tag = 0xc0 ∧ k = .list) →
    size < 2 ^ 64 →
      p = Rlp.header tag size ++ t → ¬ (k = .string ∧ size = 1 ∧ t.length > 0 ∧ t.headD 0 < 128) →
      (∃ err, readKind p = some (.error err)) ∨ ∃ k content rest, First p k content rest := by
    rintro tag k size t tagged fits rfl plain
    by_cases large : size > t.length
    · rw [readKind_header tagged fits small plain, if_pos large]
      exact .inl ⟨_, rfl⟩
    · exact .inr ⟨_, _, _, First.of_header tagged fits (by omega) plain⟩
  have sized : ∀ {tag : Nat} {k : Kind} (b : UInt8) (t : Bytes), (tag = 0x80 ∧ k = .string) ∨ (tag = 0xc0 ∧ k = .list) →
      tag + 56 ≤ b.toNat → b.toNat < tag + 64 → p = b :: t →
      (∃ err, readKind p = some (.error err)) ∨ ∃ k content rest, First p k content rest := by
    rintro tag k b t tagged above below rfl
    rcases @readSize_cases t (b.toNat - (tag + 55)) (by omega) (by omega) with ⟨err, failed⟩ | ⟨size, rest, -, large, width, rfl⟩
    · rw [readKind_long tagged above below, failed]
      exact .inl ⟨_, rfl⟩
    · have bound := BigEndian.lt_pow_width size
      have most : 256 ^ BigEndian.width size ≤ 256 ^ 8 := Nat.pow_le_pow_right (by decide) (by omega)
      refine headed size rest tagged (by omega) ?_ (by omega)
      rw [header_long large (show b.toNat = tag + 55 + BigEndian.width size by omega)]
      rfl
  cases p with
  | nil => exact .inl ⟨_, rfl⟩
  | cons b t =>
    have byte := b.toNat_lt
    by_cases single : b.toNat < 0x80
    · exact .inr ⟨_, _, _, .byte t single⟩
    · by_cases short : b.toNat < 0xb8
      · by_cases plain : b.toNat - 0x80 = 1 ∧ t.length > 0 ∧ t.headD 0 < 128
        · refine .inl ⟨.canonSize, ?_⟩
          have size : (b - 0x80).toNat = b.toNat - 0x80 := UInt8.toNat_sub_of_le b 0x80 (show 0x80 ≤ b.toNat by omega)
          unfold readKind
          dsimp only
          rw [if_neg (show ¬ b < 0x80 from single), if_pos (show b < 0xB8 from short), size, if_pos plain]
        · exact headed (b.toNat - 0x80) t (.inl ⟨rfl, rfl⟩) (by omega) (by rw [header_short (by omega) (by omega)]; rfl)
            fun both => plain both.2
      · by_cases long : b.toNat < 0xc0
        · exact sized b t (.inl ⟨rfl, rfl⟩) (by omega) (by omega) rfl
        · by_cases few : b.toNat < 0xf8
          · exact headed (b.toNat - 0xc0) t (.inr ⟨rfl, rfl⟩) (by omega) (by rw [header_short (by omega) (by omega)]; rfl) nofun
          · exact sized b t (.inr ⟨rfl, rfl⟩) (by omega) (by omega) rfl

end Kinds

section Values

variable {p content rest : Bytes} {k : Kind}

theorem split_first (first : First p k content rest) (small : p.length < 2 ^ 64) : split p = some (.ok (k, content, rest)) := by
  obtain ⟨ts, read, after, length⟩ := readKind_first first small
  have past : p.drop (ts + content.length) = rest := by rw [← List.drop_drop, after, List.drop_left]
  unfold split
  rw [read]
  simp only [Option.bind_eq_bind, Option.bind_some]
  rw [Nat.mod_eq_of_lt (by omega), subslice, if_pos ⟨by omega, by omega⟩, subslice, if_pos ⟨by omega, Nat.le_refl _⟩, after, past,
    Nat.add_sub_cancel_left, List.take_left, List.take_of_length_le (by omega)]
  rfl

theorem split_cases (small : p.length < 2 ^ 64) :
    (∃ err, split p = some (.error err)) ∨ ∃ k content rest, split p = some (.ok (k, content, rest)) ∧ First p k content rest := by
  rcases readKind_cases small with ⟨err, failed⟩ | ⟨k, content, rest, first⟩
  · refine .inl ⟨err, ?_⟩
    unfold split
    rw [failed]
    rfl
  · exact .inr ⟨k, content, rest, split_first first small, first⟩

theorem split_iff (small : p.length < 2 ^ 64) : split p = some (.ok (k, content, rest)) ↔ First p k content rest := by
  refine ⟨fun ran => ?_, fun first => split_first first small⟩
  rcases split_cases small with ⟨err, failed⟩ | ⟨k', content', rest', same, first⟩
  · rw [failed] at ran
    cases ran
  · rw [same] at ran
    cases ran
    exact first

theorem countFrom_ends {rounds : Nat} (i : Nat) (small : p.length < 2 ^ 64) (enough : p.length < rounds) :
    countFrom rounds i p ≠ none := by
  induction rounds generalizing i p with
  | zero => omega
  | succ rounds ih =>
    unfold countFrom
    split
    · rcases readKind_cases small with ⟨err, failed⟩ | ⟨k, content, rest, first⟩
      · rw [failed]
        nofun
      · obtain ⟨ts, read, after, length⟩ := readKind_first first small
        have past : p.drop (ts + content.length) = rest := by rw [← List.drop_drop, after, List.drop_left]
        have shorter := first.shorter
        rw [read]
        simp only [Option.bind_eq_bind, Option.bind_some]
        rw [Nat.mod_eq_of_lt (by omega), subslice, if_pos ⟨by omega, Nat.le_refl _⟩, past, List.take_of_length_le (by omega)]
        exact ih (i + 1) (by omega) (by omega)
    · nofun

end Values

end Raw

section Streams

open Read

variable {s : Stream} {p content rest : Bytes} {us : List Bytes} {st : List ListPos} {k : Kind} {n : Nat}

-- The lists a stream is in, against what is unread of each. A list that was entered counts for the one around it only when
-- it is left.
def Nested : List Bytes → List ListPos → Prop
  | [], _ => False
  | _ :: us, [] => us = []
  | u :: us, tos :: st => tos.pos + u.length = tos.size ∧ Nested us (bump tos.size st)

def Follows (s : Stream) (unread : List Bytes) : Prop := ∃ st, Poised s unread.flatten st ∧ Nested unread st

theorem Nested.room (nested : Nested (p :: us) st) : (FitsList n st ∧ n ≤ (p :: us).flatten.length) ↔ n ≤ p.length := by
  cases st with
  | nil =>
    obtain rfl : us = [] := nested
    simp [FitsList]
  | cons tos st =>
    have total := nested.1
    rw [List.flatten_cons, List.length_append]
    unfold FitsList
    omega

theorem Nested.sane (nested : Nested (p :: us) st) : FitsList 0 st := ((nested.room).2 (Nat.zero_le _)).1

theorem Nested.read {h : Bytes} (nested : Nested ((h ++ p) :: us) st) : Nested (p :: us) (bump h.length st) := by
  cases st with
  | nil => exact nested
  | cons tos st =>
    refine ⟨?_, nested.2⟩
    have total := nested.1
    rw [List.length_append] at total
    show tos.pos + h.length + p.length = tos.size
    omega

theorem Nested.enter (nested : Nested ((content ++ rest) :: us) st) : Nested (content :: rest :: us) (⟨0, content.length⟩ :: st) :=
  ⟨Nat.zero_add _, nested.read⟩

theorem Nested.ended_iff (nested : Nested (p :: us) st) : AtEnd st ↔ p = [] ∧ us ≠ [] := by
  cases st with
  | nil =>
    obtain rfl : us = [] := nested
    exact ⟨False.elim, fun both => both.2 rfl⟩
  | cons tos st =>
    have total := nested.1
    have outer : us ≠ [] := by
      rintro rfl
      exact nested.2
    unfold AtEnd
    rw [← List.length_eq_zero_iff]
    exact ⟨fun ended => ⟨by omega, outer⟩, fun both => by omega⟩

theorem Follows.kind_sound (follows : Follows s (p :: us)) :
    (∃ k size bv h t s' st, p = h ++ t ∧ Head k size bv h ∧ size ≤ t.length ∧ Read.kind s = (.ok (k, size), s') ∧
      Cached s' k size bv (t :: us).flatten st ∧ Nested (t :: us) st) ∨
    ∃ err s', Read.kind s = (.error err, s') := by
  obtain ⟨st, poised, nested⟩ := follows
  rcases CuteEVM.kind_sound poised nested.sane with
    ⟨-, s', ran, -⟩ | ⟨k, size, bv, h, t, s', split, head, ⟨fits, outside⟩, ran, cached⟩ | ⟨err, s', ran, -⟩
  · exact .inr ⟨_, s', ran⟩
  · have inside : h.length + size ≤ p.length := by
      refine nested.room.1 ⟨fits, ?_⟩
      rw [split, List.length_append]
      cases st with
      | nil => exact Nat.add_le_add_left (outside rfl) _
      | cons tos st =>
        have total := nested.1
        have whole := congrArg List.length split
        rw [List.flatten_cons, List.length_append, List.length_append] at whole
        unfold FitsList at fits
        omega
    have front : h <+: p := by
      have front : h <+: (p :: us).flatten := ⟨t, split.symm⟩
      rw [List.flatten_cons] at front
      exact List.prefix_of_prefix_length_le front (List.prefix_append p us.flatten) (by omega)
    obtain ⟨u, rfl⟩ := front
    rw [List.flatten_cons, List.append_assoc] at split
    obtain rfl := List.append_cancel_left split
    rw [List.length_append] at inside
    exact .inl ⟨k, size, bv, h, u, s', bump h.length st, rfl, head, by omega, ran, cached, nested.read⟩
  · exact .inr ⟨err, s', ran⟩

theorem Follows.kind_complete {size : Nat} {bv : UInt8} {h : Bytes} (follows : Follows s ((h ++ p) :: us))
    (head : Head k size bv h) (enough : size ≤ p.length) :
    ∃ s' st, Read.kind s = (.ok (k, size), s') ∧ Cached s' k size bv (p :: us).flatten st ∧ Nested (p :: us) st := by
  obtain ⟨st, poised, nested⟩ := follows
  rw [List.flatten_cons, List.append_assoc, ← List.flatten_cons] at poised
  obtain ⟨s', ran, cached⟩ := CuteEVM.kind_complete head poised (nested.room.2 (by rw [List.length_append]; omega)).1
    (by rw [List.flatten_cons, List.length_append]; omega)
  exact ⟨s', _, ran, cached, nested.read⟩

theorem Nested.take {size : Nat} (nested : Nested (p :: us) st) (enough : size ≤ p.length) :
    Nested (p.drop size :: us) (bump size st) := by
  have parts : Nested ((p.take size ++ p.drop size) :: us) st := by rwa [List.take_append_drop]
  have read := parts.read
  rwa [List.length_take_of_le enough] at read

section Steps

variable {size : Nat} {bv : UInt8}

theorem bytes_inside (cached : Cached s .string size bv (p :: us).flatten st) (nested : Nested (p :: us) st)
    (enough : size ≤ p.length) :
    (size = 1 ∧ (p.take size).headD 0 < 128 → ∃ err s', bytes s = (.error err, s')) ∧
    (¬ (size = 1 ∧ (p.take size).headD 0 < 128) → ∃ s', bytes s = (.ok (p.take size), s') ∧ Follows s' (p.drop size :: us)) := by
  have taken : (p :: us).flatten.take size = p.take size := by rw [List.flatten_cons, List.take_append_of_le_length enough]
  have dropped : (p :: us).flatten.drop size = (p.drop size :: us).flatten := by
    rw [List.flatten_cons, List.drop_append_of_le_length enough, List.flatten_cons]
  rcases bytes_string cached nested.sane with ⟨-, plain, s', ran, poised⟩ | ⟨wrong, err, s', ran, -⟩
  · rw [taken] at plain ran
    rw [dropped] at poised
    exact ⟨fun single => absurd single plain, fun _ => ⟨s', ran, _, poised, nested.take enough⟩⟩
  · rw [taken] at wrong
    exact ⟨fun _ => ⟨err, s', ran⟩, fun plain => absurd ⟨nested.room.2 enough, plain⟩ wrong⟩

theorem visit_value {s₁ : Stream} (looked : Read.kind s = (.ok (k, size), s₁)) :
    Read.visit .value s = (bytes >>= fun content => pure (some (k, content))) s₁ := by
  rw [Read.visit, bind_read looked]

theorem value_first (follows : Follows s (p :: us)) (first : First p k content rest) (flat : k ≠ .list) :
    ∃ s', Read.visit .value s = (.ok (some (k, content)), s') ∧ Follows s' (rest :: us) := by
  cases first with
  | @byte b rest low =>
    have shape : Follows s (([b] ++ rest) :: us) := follows
    obtain ⟨s₁, st, ran, cached, nested⟩ := shape.kind_complete (.byte low) (Nat.zero_le _)
    obtain ⟨s₂, read, poised⟩ := bytes_byte cached
    refine ⟨s₂, ?_, st, poised, nested⟩
    rw [visit_value ran, bind_read read]
    rfl
  | string rest fits plain =>
    obtain ⟨s₁, st, ran, cached, nested⟩ := follows.kind_complete (.string fits) (by rw [List.length_append]; omega)
    have reads := (bytes_inside cached nested (by rw [List.length_append]; omega)).2
    rw [List.take_left, List.drop_left] at reads
    obtain ⟨s₂, read, later⟩ := reads plain
    refine ⟨s₂, ?_, later⟩
    rw [visit_value ran, bind_read read]
    rfl
  | list rest fits => exact absurd rfl flat

theorem value_sound {reading : Option (Kind × Bytes)} {s' : Stream} (follows : Follows s (p :: us))
    (ran : Read.visit .value s = (.ok reading, s')) : ∃ k content rest, First p k content rest ∧ k ≠ .list := by
  rcases follows.kind_sound with ⟨k, size, bv, h, t, s₁, st, rfl, head, enough, looked, cached, nested⟩ | ⟨err, s₁, failed⟩
  · rw [visit_value looked] at ran
    cases head with
    | byte low => exact ⟨_, _, _, .byte t low, nofun⟩
    | string fits =>
      by_cases single : size = 1 ∧ (t.take size).headD 0 < 128
      · obtain ⟨err, s₂, failed⟩ := (bytes_inside cached nested enough).1 single
        rw [bind_error failed] at ran
        cases ran
      · refine ⟨_, _, _, Raw.First.of_header (.inl ⟨rfl, rfl⟩) fits enough ?_, nofun⟩
        rintro ⟨-, rfl, some_bytes, low⟩
        cases t with
        | nil => cases some_bytes
        | cons byte t => exact single ⟨rfl, low⟩
    | list fits =>
      have failed : bytes s₁ = (.error .expectedString, s₁) := by
        unfold bytes
        rw [bind_read (kind_cached cached)]
        rfl
      rw [bind_error failed] at ran
      cases ran
  · rw [Read.visit, bind_error failed] at ran
    cases ran

theorem list_first (follows : Follows s (p :: us)) (first : First p .list content rest) :
    ∃ s', Read.visit .list s = (.ok (some (.list, content)), s') ∧ Follows s' (content :: rest :: us) := by
  cases first with
  | list rest fits =>
    obtain ⟨s₁, st, looked, cached, nested⟩ := follows.kind_complete (.list fits) (by rw [List.length_append]; omega)
    obtain ⟨s₂, entered, poised⟩ := list_entered cached
    have ran : list s = (.ok content.length, s₂) := by
      have same : list s = list s₁ := by
        unfold list
        rw [bind_read looked, bind_read (kind_cached cached)]
      rw [same, entered]
    refine ⟨s₂, ?_, _, ?_, nested.enter⟩
    · rw [Read.visit, bind_read ran, bind_read (show Read.get s₂ = (.ok s₂, s₂) from rfl), poised.input, List.flatten_cons,
        List.append_assoc, List.take_left]
      rfl
    · rw [List.flatten_cons, List.flatten_cons, ← List.append_assoc, ← List.flatten_cons]
      exact poised

theorem list_sound {reading : Option (Kind × Bytes)} {s' : Stream} (follows : Follows s (p :: us))
    (ran : Read.visit .list s = (.ok reading, s')) : ∃ content rest, First p .list content rest := by
  rcases follows.kind_sound with ⟨k, size, bv, h, t, s₁, st, rfl, head, enough, looked, cached, nested⟩ | ⟨err, s₁, failed⟩
  · cases head with
    | list fits => exact ⟨_, _, Raw.First.of_header (.inr ⟨rfl, rfl⟩) fits enough nofun⟩
    | byte | string =>
      have failed : list s = (.error .expectedList, s₁) := by
        unfold list
        rw [bind_read looked]
        rfl
      rw [Read.visit, bind_error failed] at ran
      cases ran
  · have failed : list s = (.error err, s₁) := by
      unfold list
      rw [bind_error failed]
    rw [Read.visit, bind_error failed] at ran
    cases ran

theorem listEnd_follows (follows : Follows s ([] :: p :: us)) :
    ∃ s', Read.visit .listEnd s = (.ok none, s') ∧ Follows s' (p :: us) := by
  obtain ⟨st, poised, nested⟩ := follows
  cases st with
  | nil => cases nested
  | cons tos st =>
    obtain ⟨s', ran, later⟩ := listEnd_ended poised.toAt (nested.ended_iff.2 ⟨rfl, nofun⟩)
    refine ⟨s', ?_, _, later, nested.2⟩
    rw [Read.visit, bind_read ran]
    rfl

theorem listEnd_sound {reading : Option (Kind × Bytes)} {s' : Stream} (follows : Follows s (p :: us))
    (ran : Read.visit .listEnd s = (.ok reading, s')) : p = [] ∧ us ≠ [] := by
  obtain ⟨st, poised, nested⟩ := follows
  refine nested.ended_iff.1 ?_
  cases st with
  | nil =>
    have failed : listEnd s = (.error .notInList, s) := by
      unfold listEnd
      rw [bind_read (show Read.get s = (.ok s, s) from rfl), poised.stack]
      rfl
    rw [Read.visit, bind_error failed] at ran
    cases ran
  | cons tos st =>
    by_contra unfinished
    have failed : listEnd s = (.error .notAtEOL, s) := by
      unfold listEnd
      rw [bind_read (show Read.get s = (.ok s, s) from rfl), poised.stack]
      dsimp only
      rw [if_pos (show tos.pos ≠ tos.size from unfinished)]
      rfl
    rw [Read.visit, bind_error failed] at ran
    cases ran

end Steps

theorem raw_value (small : p.length < 2 ^ 64) (first : First p k content rest) (flat : k ≠ .list) :
    Raw.visit (p :: us) .value = some (some (k, content), rest :: us) := by
  have split := Raw.split_first first small
  unfold Raw.visit Raw.splitString
  simp only [List.head?_cons, Option.bind_eq_bind, Option.bind_some, split, if_neg flat]
  rfl

theorem raw_list (small : p.length < 2 ^ 64) (first : First p .list content rest) :
    Raw.visit (p :: us) .list = some (some (.list, content), content :: rest :: us) := by
  have split := Raw.split_first first small
  unfold Raw.visit Raw.splitList
  simp only [List.head?_cons, Option.bind_eq_bind, Option.bind_some, split]
  rfl

theorem raw_value_some {result : Option (Kind × Bytes) × List Bytes} (small : p.length < 2 ^ 64)
    (ran : Raw.visit (p :: us) .value = some result) : ∃ k content rest, First p k content rest ∧ k ≠ .list := by
  unfold Raw.visit Raw.splitString at ran
  simp only [List.head?_cons, Option.bind_eq_bind, Option.bind_some] at ran
  rcases Raw.split_cases small with ⟨err, failed⟩ | ⟨k, content, rest, split, first⟩
  · rw [failed] at ran
    cases ran
  · refine ⟨k, content, rest, first, ?_⟩
    rintro rfl
    rw [split] at ran
    cases ran

theorem raw_list_some {result : Option (Kind × Bytes) × List Bytes} (small : p.length < 2 ^ 64)
    (ran : Raw.visit (p :: us) .list = some result) : ∃ content rest, First p .list content rest := by
  unfold Raw.visit Raw.splitList at ran
  simp only [List.head?_cons, Option.bind_eq_bind, Option.bind_some] at ran
  rcases Raw.split_cases small with ⟨err, failed⟩ | ⟨k, content, rest, split, first⟩
  · rw [failed] at ran
    cases ran
  · by_cases isList : k = .list
    · subst isList
      exact ⟨content, rest, first⟩
    · rw [split] at ran
      simp only [Option.bind_some, if_pos isList] at ran
      cases ran

def Short (unread : List Bytes) : Prop := ∀ u ∈ unread, u.length < 2 ^ 64

theorem First.content_le (first : First p k content rest) : content.length ≤ p.length := by
  cases first with
  | byte rest low => exact Nat.succ_le_succ (Nat.zero_le _)
  | string rest fits plain =>
    simp only [List.length_append]
    omega
  | list rest fits =>
    simp only [List.length_append]
    omega

theorem visit_agrees {unread : List Bytes} (follows : Follows s unread) (short : Short unread) (step : Visit) :
    (∃ reading s' unread', Read.visit step s = (.ok reading, s') ∧ Raw.visit unread step = some (reading, unread') ∧
      Follows s' unread' ∧ Short unread') ∨
    ((∃ err s', Read.visit step s = (.error err, s')) ∧ Raw.visit unread step = none) := by
  have fails : (∀ reading s', Read.visit step s ≠ (.ok reading, s')) → ∃ err s', Read.visit step s = (.error err, s') := by
    intro never
    rcases ran : Read.visit step s with ⟨outcome, s'⟩
    cases outcome with
    | ok reading => exact absurd ran (never reading s')
    | error err => exact ⟨err, s', rfl⟩
  cases unread with
  | nil =>
    obtain ⟨st, -, nested⟩ := follows
    cases nested
  | cons p us =>
    have small := short p (List.mem_cons_self ..)
    have others : Short us := fun u member => short u (List.mem_cons_of_mem _ member)
    cases step with
    | value =>
      by_cases there : ∃ k content rest, First p k content rest ∧ k ≠ .list
      · obtain ⟨k, content, rest, first, flat⟩ := there
        obtain ⟨s', ran, later⟩ := value_first follows first flat
        have less := first.shorter
        refine .inl ⟨_, s', _, ran, raw_value small first flat, later, ?_⟩
        exact List.forall_mem_cons.mpr ⟨by omega, others⟩
      · refine .inr ⟨fails fun _ _ ran => there (value_sound follows ran), ?_⟩
        exact Option.eq_none_iff_forall_ne_some.mpr fun _ ran => there (raw_value_some small ran)
    | list =>
      by_cases there : ∃ content rest, First p .list content rest
      · obtain ⟨content, rest, first⟩ := there
        obtain ⟨s', ran, later⟩ := list_first follows first
        have less := first.shorter
        have inside := first.content_le
        refine .inl ⟨_, s', _, ran, raw_list small first, later, ?_⟩
        exact List.forall_mem_cons.mpr ⟨by omega, List.forall_mem_cons.mpr ⟨by omega, others⟩⟩
      · refine .inr ⟨fails fun _ _ ran => there (list_sound follows ran), ?_⟩
        exact Option.eq_none_iff_forall_ne_some.mpr fun _ ran => there (raw_list_some small ran)
    | listEnd =>
      by_cases there : p = [] ∧ us ≠ []
      · obtain ⟨rfl, outer⟩ := there
        obtain ⟨q, us, rfl⟩ := List.exists_cons_of_ne_nil outer
        obtain ⟨s', ran, later⟩ := listEnd_follows follows
        exact .inl ⟨_, s', _, ran, rfl, later, others⟩
      · refine .inr ⟨fails fun _ _ ran => there (listEnd_sound follows ran), ?_⟩
        match p, us with
        | [], [] => rfl
        | [], _ :: _ => exact absurd ⟨rfl, nofun⟩ there
        | _ :: _, _ => rfl

theorem walk_agrees {unread : List Bytes} (follows : Follows s unread) (short : Short unread) (visits : List Visit) :
    (∃ readings s' unread', Read.walk visits s = (.ok readings, s') ∧ Raw.walk visits unread = some (readings, unread') ∧
      Follows s' unread') ∨
    ((∃ err s', Read.walk visits s = (.error err, s')) ∧ Raw.walk visits unread = none) := by
  induction visits generalizing s unread with
  | nil => exact .inl ⟨[], s, unread, rfl, rfl, follows⟩
  | cons step visits ih =>
    rw [Read.walk, Raw.walk]
    rcases visit_agrees follows short step with ⟨reading, s₁, unread₁, ran, same, follows₁, short₁⟩ | ⟨⟨err, s₁, failed⟩, stuck⟩
    · rw [bind_read ran, same]
      rcases ih follows₁ short₁ with ⟨readings, s₂, unread₂, ran', same', follows₂⟩ | ⟨⟨err, s₂, failed⟩, stuck⟩
      · refine .inl ⟨reading :: readings, s₂, unread₂, ?_, ?_, follows₂⟩
        · rw [bind_read ran']
          rfl
        · simp only [Option.bind_eq_bind, Option.bind_some, same']
          rfl
      · refine .inr ⟨⟨err, s₂, bind_error failed⟩, ?_⟩
        simp only [Option.bind_eq_bind, Option.bind_some, stuck]
        rfl
    · exact .inr ⟨⟨err, s₁, bind_error failed⟩, by rw [stuck]; rfl⟩

theorem Follows.unread {unread : List Bytes} (follows : Follows s unread) : s.r = unread.flatten := by
  obtain ⟨st, poised, -⟩ := follows
  exact poised.input

theorem split_value (small : p.length < 2 ^ 64) (follows : Follows s (p :: us)) (flat : k ≠ .list) :
    Raw.split p = some (.ok (k, content, rest)) ↔
      ∃ s', Read.visit .value s = (.ok (some (k, content)), s') ∧ s'.r = (rest :: us).flatten := by
  rw [Raw.split_iff small]
  constructor
  · intro first
    obtain ⟨s', ran, later⟩ := value_first follows first flat
    exact ⟨s', ran, later.unread⟩
  · rintro ⟨s', ran, left⟩
    obtain ⟨k', content', rest', first, flat'⟩ := value_sound follows ran
    obtain ⟨s'', ran', later⟩ := value_first follows first flat'
    rw [ran] at ran'
    cases ran'
    rw [later.unread, List.flatten_cons, List.flatten_cons] at left
    rwa [List.append_cancel_right left] at first

theorem split_list (small : p.length < 2 ^ 64) (follows : Follows s (p :: us)) :
    Raw.split p = some (.ok (.list, content, rest)) ↔
      ∃ s', Read.visit .list s = (.ok (some (.list, content)), s') ∧ s'.r = (content :: rest :: us).flatten := by
  rw [Raw.split_iff small]
  constructor
  · intro first
    obtain ⟨s', ran, later⟩ := list_first follows first
    exact ⟨s', ran, later.unread⟩
  · rintro ⟨s', ran, left⟩
    obtain ⟨content', rest', first⟩ := list_sound follows ran
    obtain ⟨s'', ran', later⟩ := list_first follows first
    rw [ran] at ran'
    cases ran'
    rw [later.unread, List.flatten_cons, List.flatten_cons, List.flatten_cons, List.flatten_cons] at left
    rwa [List.append_cancel_right (List.append_cancel_left left)] at first

theorem newStream_follows (b : Bytes) : Follows (newStream b) [b] := by
  refine ⟨[], ⟨⟨?_, ?_, rfl, rfl⟩, rfl⟩, rfl⟩
  · exact (List.append_nil b).symm
  · rw [List.flatten_cons, List.flatten_nil, List.append_nil]
    rfl

end Streams

end CuteEVM
