import CuteEVM.Rlp.Writing

set_option autoImplicit false

-- A buffer that was filled by properly nested calls holds a sequence of trees.

namespace CuteEVM

open Rlp (Item)

section Nesting

mutual

def callsOf : Item → List BufCall
  | .str b => [.encodeString b]
  | .list items => .list :: (callsOfAll items ++ [.listEnd])

def callsOfAll : List Item → List BufCall
  | [] => []
  | item :: items => callsOf item ++ callsOfAll items

end

mutual

theorem calls_item : ∀ (item : Item) (rest : List BufCall) (w : Encbuf) (opened : List Nat),
    (callsOf item ++ rest).foldlM Encbuf.call (w, opened) = rest.foldlM Encbuf.call (writeItem item w, opened)
  | .str b, rest, w, opened => by
    rw [callsOf, writeItem]
    rfl
  | .list items, rest, w, opened => by
    rw [callsOf, List.cons_append, List.append_assoc, List.foldlM_cons, writeItem]
    exact calls_items items (.listEnd :: rest) w.list.2 (w.list.1 :: opened)

theorem calls_items : ∀ (items : List Item) (rest : List BufCall) (w : Encbuf) (opened : List Nat),
    (callsOfAll items ++ rest).foldlM Encbuf.call (w, opened) = rest.foldlM Encbuf.call (writeItems items w, opened)
  | [], rest, w, opened => by rw [callsOfAll, writeItems, List.nil_append]
  | item :: items, rest, w, opened => by
    rw [callsOfAll, writeItems, List.append_assoc, calls_item item, calls_items items]

end

theorem calls_nested {calls : List BufCall} {w w' : Encbuf} {opened : List Nat}
    (ran : calls.foldlM Encbuf.call (w, opened) = some (w', [])) :
    ∃ (items : List Item) (outer : List (List Item)), outer.length = opened.length ∧
      calls = callsOfAll items ++ outer.flatMap fun around => .listEnd :: callsOfAll around := by
  induction calls generalizing w opened with
  | nil =>
    cases ran
    exact ⟨[], [], rfl, rfl⟩
  | cons first calls ih =>
    rw [List.foldlM_cons] at ran
    cases first with
    | list =>
      obtain ⟨items, outer, depth, rest⟩ := ih ran
      obtain ⟨around, outer, rfl⟩ := List.exists_cons_of_length_eq_add_one depth
      refine ⟨.list items :: around, outer, Nat.succ.inj depth, ?_⟩
      rw [rest, callsOfAll, callsOf]
      simp
    | encodeString b =>
      obtain ⟨items, outer, depth, rest⟩ := ih ran
      exact ⟨.str b :: items, outer, depth, by rw [rest, callsOfAll, callsOf]; rfl⟩
    | listEnd =>
      cases opened with
      | nil => cases ran
      | cons lh opened =>
        obtain ⟨items, outer, depth, rest⟩ := ih ran
        exact ⟨[], items :: outer, congrArg Nat.succ depth, by rw [rest, callsOfAll]; rfl⟩

theorem calls_closed {calls : List BufCall} {w : Encbuf} (ran : calls.foldlM Encbuf.call ({}, []) = some (w, [])) :
    ∃ items, calls = callsOfAll items ∧ w = writeItems items {} := by
  obtain ⟨items, outer, depth, shape⟩ := calls_nested ran
  rw [List.eq_nil_of_length_eq_zero depth, List.flatMap_nil] at shape
  have same := calls_items items [] {} []
  rw [← shape, ran] at same
  exact ⟨items, by rw [shape, List.append_nil], congrArg Prod.fst (Option.some.inj same)⟩

end Nesting

section Sizes

theorem encodeString_grows (w : Encbuf) (b : Bytes) : w.size + b.length ≤ (w.encodeString b).size := by
  unfold Encbuf.encodeString
  split
  · next single =>
    simp only [Encbuf.size, List.length_append, List.length_singleton, single.1]
    omega
  · unfold Encbuf.encodeStringHeader
    split <;> simp only [Encbuf.size, List.length_append, List.length_cons] <;> omega

theorem listEnd_grows (w : Encbuf) (lh : Nat) : w.size ≤ (w.listEnd lh).size := by
  unfold Encbuf.listEnd Encbuf.size
  dsimp only
  split <;> omega

mutual

theorem writeItem_grows : ∀ (item : Item) (w : Encbuf), w.size ≤ (writeItem item w).size
  | .str b, w => by
    rw [writeItem]
    exact Nat.le_trans (Nat.le_add_right _ _) (encodeString_grows w b)
  | .list items, w => by
    rw [writeItem]
    exact Nat.le_trans (writeItems_grows items w.list.2) (listEnd_grows _ _)

theorem writeItems_grows : ∀ (items : List Item) (w : Encbuf), w.size ≤ (writeItems items w).size
  | [], w => by rw [writeItems]
  | item :: items, w => by
    rw [writeItems]
    exact Nat.le_trans (writeItem_grows item w) (writeItems_grows items _)

end

theorem encodeString_le (b : Bytes) (large : 2 ^ 64 ≤ (Rlp.encode (.str b)).length) : 2 ^ 63 ≤ b.length := by
  rw [Rlp.encode] at large
  unfold Rlp.encodeString at large
  split at large
  · omega
  · by_contra short
    rw [List.length_append, header_length 0x80 (by omega)] at large
    have few : BigEndian.width b.length ≤ 8 := BigEndian.width_le (by omega)
    split at large
    · omega
    · rw [intsize_eq (by omega) (by omega)] at large
      omega

mutual

theorem writeItem_large : ∀ (item : Item) (w : Encbuf), 2 ^ 64 ≤ (Rlp.encode item).length → 2 ^ 63 ≤ (writeItem item w).size
  | .str b, w, large => by
    have long := encodeString_le b large
    have grown := encodeString_grows w b
    rw [writeItem]
    omega
  | .list items, w, large => by
    rw [writeItem]
    refine Nat.le_trans ?_ (listEnd_grows _ _)
    by_cases beyond : 2 ^ 64 ≤ (Rlp.encodeAll items).length
    · exact writeItems_large items _ beyond
    · -- The contents alone are nearly as large, and their size is exact.
      rw [Rlp.encode, List.length_append, header_length 0xc0 (by omega)] at large
      have few : BigEndian.width (Rlp.encodeAll items).length ≤ 8 := BigEndian.width_le (by omega)
      have size := encodeAll_size items
      rw [writeItems_eq items _ (by omega)]
      simp only [Encbuf.size, List.length_append]
      split at large
      · omega
      · rw [intsize_eq (by omega) (by omega)] at large
        omega

theorem writeItems_large :
    ∀ (items : List Item) (w : Encbuf), 2 ^ 64 ≤ (Rlp.encodeAll items).length → 2 ^ 63 ≤ (writeItems items w).size
  | [], w, large => by
    rw [Rlp.encodeAll] at large
    cases large
  | item :: items, w, large => by
    rw [writeItems]
    by_cases beyond : 2 ^ 64 ≤ (Rlp.encode item).length
    · exact Nat.le_trans (writeItem_large item w beyond) (writeItems_grows items _)
    · by_cases rest : 2 ^ 64 ≤ (Rlp.encodeAll items).length
      · exact writeItems_large items _ rest
      · have first := encode_size item
        have second := encodeAll_size items
        rw [Rlp.encodeAll, List.length_append] at large
        rw [writeItem_eq item w (by omega), writeItems_eq items _ (by omega)]
        simp only [Encbuf.size, List.length_append]
        omega

end

end Sizes

section Writer

variable {str : Bytes}

theorem subslice_inside {low high : Nat} (ordered : low ≤ high) (inside : high ≤ str.length) :
    subslice str low high = some ((str.drop low).take (high - low)) := if_pos ⟨ordered, inside⟩

theorem subslice_rest {low : Nat} (inside : low ≤ str.length) : subslice str low str.length = some (str.drop low) := by
  rw [subslice_inside inside (Nat.le_refl _), List.take_of_length_le (Nat.le_of_eq List.length_drop)]

theorem between_length {low high : Nat} (inside : high ≤ str.length) : ((str.drop low).take (high - low)).length = high - low := by
  rw [List.length_take, List.length_drop]
  omega

theorem writeHead_eq {strpos : Nat} {head : ListHead} (out : Bytes) (below : strpos ≤ head.offset)
    (inside : head.offset ≤ str.length) :
    Encbuf.writeHead str (strpos, out) head =
      some (head.offset, out ++ (str.drop strpos).take (head.offset - strpos) ++ head.encode) := by
  unfold Encbuf.writeHead
  dsimp only
  split
  · rw [subslice_inside below inside]
    simp only [Option.bind_eq_bind, Option.bind_some, Option.pure_def, between_length inside, Nat.add_sub_cancel' below]
  · next none_before =>
    have same : strpos = head.offset := by omega
    rw [same, Nat.sub_self, List.take_zero, List.append_nil]
    rfl

theorem toWriter_render {strpos : Nat} {rest : List ListHead} (out : Bytes) (ordered : InOrder str strpos rest) :
    ∃ last, rest.foldlM (Encbuf.writeHead str) (strpos, out) = some last ∧ last.1 ≤ str.length ∧
      last.2 ++ str.drop last.1 = out ++ render str strpos rest := by
  induction rest generalizing strpos out with
  | nil => exact ⟨_, rfl, ordered, rfl⟩
  | cons head rest ih =>
    obtain ⟨below, small, later⟩ := ordered
    obtain ⟨last, ran, inside, joined⟩ := ih (out ++ (str.drop strpos).take (head.offset - strpos) ++ head.encode) later
    refine ⟨last, ?_, inside, ?_⟩
    · rw [List.foldlM_cons, writeHead_eq out below later.le]
      exact ran
    · rw [joined, render, ← ListHead.encode_eq small]
      simp only [List.append_assoc]

theorem toWriter_eq {w : Encbuf} (ordered : InOrder w.str 0 w.lheads) : w.toWriter = some (render w.str 0 w.lheads) := by
  obtain ⟨last, ran, inside, joined⟩ := toWriter_render [] ordered
  rw [List.nil_append] at joined
  unfold Encbuf.toWriter
  rw [ran, ← joined]
  simp only [Option.bind_eq_bind, Option.bind_some, Option.pure_def]
  split
  · rw [subslice_rest inside, Option.bind_some]
  · rw [List.drop_of_length_le (by omega), List.append_nil]

end Writer

section Reader

open EncReader

variable {r : EncReader} {buf : Encbuf} {p : Bytes}

structure Left (r : EncReader) (buf : Encbuf) (p : Bytes) : Prop where
  reads : r.buf = some buf
  ordered : InOrder buf.str r.strpos (buf.lheads.drop r.lhpos)
  is : p = r.piece.getD [] ++ render buf.str r.strpos (buf.lheads.drop r.lhpos)
  piece : r.piece ≠ some []
  short : p.length ≤ buf.size

theorem next_ended (left : Left r buf []) : r.next = some (none, r) := by
  obtain ⟨reads, ordered, is, piece, -⟩ := left
  obtain ⟨no_piece, nothing⟩ := List.append_eq_nil_iff.mp is.symm
  have none_left : r.piece = none := by
    cases held : r.piece with
    | none => rfl
    | some bytes =>
      rw [held, Option.getD_some] at no_piece
      exact absurd (by rw [held, no_piece]) piece
  cases heads : buf.lheads.drop r.lhpos with
  | nil =>
    rw [heads, render, List.drop_eq_nil_iff] at nothing
    have past : buf.lheads[r.lhpos]? = none := List.getElem?_eq_none (List.drop_eq_nil_iff.mp heads)
    unfold EncReader.next
    simp only [reads, none_left, past]
    rw [if_neg (by omega)]
  | cons head rest =>
    rw [heads, render] at nothing
    simp [Rlp.header_ne_nil] at nothing

theorem next_piece (left : Left r buf p) (more : p ≠ []) :
    ∃ piece rest r', piece ≠ [] ∧ p = piece ++ rest ∧ r.next = some (some piece, r') ∧
      Left { r' with piece := none } buf rest := by
  obtain ⟨reads, ordered, is, piece, short⟩ := left
  cases held : r.piece with
  | some bytes =>
    rw [held, Option.getD_some] at is
    refine ⟨bytes, _, r, fun empty => piece (by rw [held, empty]), is, ?_, reads, ordered, rfl, nofun, ?_⟩
    · unfold EncReader.next
      simp only [reads, held]
    · rw [is, List.length_append] at short
      omega
  | none =>
    rw [held, Option.getD_none, List.nil_append] at is
    cases heads : buf.lheads.drop r.lhpos with
    | nil =>
      -- The string data after the last header.
      rw [heads, render] at is
      have past : buf.lheads[r.lhpos]? = none := List.getElem?_eq_none (List.drop_eq_nil_iff.mp heads)
      have inside : r.strpos < buf.str.length := by
        rcases Nat.lt_or_ge r.strpos buf.str.length with inside | outside
        · exact inside
        · exact absurd (is.trans (List.drop_of_length_le outside)) more
      refine ⟨p, [], { r with strpos := buf.str.length }, more, (List.append_nil p).symm, ?_, reads, ?_, ?_, nofun, Nat.zero_le _⟩
      · unfold EncReader.next
        simp only [reads, held, past]
        rw [if_pos inside, subslice_rest (Nat.le_of_lt inside), is]
        rfl
      · dsimp only
        rw [heads]
        exact Nat.le_refl _
      · dsimp only
        rw [heads, render, List.drop_length]
        rfl
    | cons head rest =>
      rw [heads] at ordered is
      rw [render] at is
      obtain ⟨below, small, later⟩ := ordered
      have here : buf.lheads[r.lhpos]? = some head := by
        have first := congrArg List.head? heads
        rwa [List.head?_drop, List.head?_cons] at first
      by_cases before : r.strpos < head.offset
      · -- The string data before the next header.
        refine ⟨_, _, { r with strpos := head.offset }, ?_, is.trans (List.append_assoc _ _ _), ?_, reads, ?_, ?_, nofun, ?_⟩
        · rw [← List.length_pos_iff, between_length later.le]
          omega
        · unfold EncReader.next
          simp only [reads, held, here]
          rw [if_pos before, subslice_inside below later.le, Nat.add_sub_cancel' below]
          rfl
        · dsimp only
          rw [heads]
          exact ⟨Nat.le_refl _, small, later⟩
        · dsimp only
          rw [heads, render, Nat.sub_self, List.take_zero, List.nil_append, Option.getD_none, List.nil_append]
        · rw [is, List.length_append, List.length_append] at short
          rw [List.length_append]
          omega
      · -- The header itself.
        have at_head : r.strpos = head.offset := by omega
        have after : buf.lheads.drop (r.lhpos + 1) = rest := by
          rw [← List.drop_drop, heads]
          rfl
        rw [at_head, Nat.sub_self, List.take_zero, List.nil_append, ← ListHead.encode_eq small] at is
        refine ⟨head.encode, _, { r with lhpos := r.lhpos + 1 }, ?_, is, ?_, reads, ?_, ?_, nofun, ?_⟩
        · rw [ListHead.encode_eq small]
          exact Rlp.header_ne_nil _ _
        · unfold EncReader.next
          simp only [reads, held, here]
          rw [if_neg before]
        · dsimp only
          rw [after, at_head]
          exact later
        · dsimp only
          rw [after, at_head, Option.getD_none, List.nil_append]
        · rw [is, List.length_append] at short
          omega

theorem fill_spec {rounds room : Nat} (b : Bytes) (left : Left r buf p) (enough : p.length < rounds) :
    (p.length ≤ room → ∃ r', fill rounds room b r = some (b ++ p, true, r')) ∧
    (room < p.length → ∃ r', fill rounds room b r = some (b ++ p.take room, false, r') ∧ Left r' buf (p.drop room)) := by
  induction rounds generalizing room b r p with
  | zero => omega
  | succ rounds ih =>
    by_cases more : p = []
    · subst more
      refine ⟨fun _ => ⟨{ r with buf := none, piece := none }, ?_⟩, fun beyond => absurd beyond (Nat.not_lt_zero _)⟩
      rw [fill, next_ended left, List.append_nil]
      rfl
    · obtain ⟨piece, rest, r', some_bytes, rfl, given, after⟩ := next_piece left more
      have positive := List.length_pos_iff.mpr some_bytes
      have bound := left.short
      rw [List.length_append] at enough bound
      rw [fill, given]
      simp only [Option.bind_eq_bind, Option.bind_some, Option.pure_def, List.length_append]
      by_cases fits : piece.length ≤ room
      · -- The whole piece fits, and the loop goes on with the rest.
        have tail := @ih _ rest (room - piece.length) (b ++ piece) after (by omega)
        rw [Nat.min_eq_right fits, if_neg (Nat.lt_irrefl _), List.take_length]
        refine ⟨fun all => ?_, fun beyond => ?_⟩
        · obtain ⟨r'', ran⟩ := tail.1 (by omega)
          exact ⟨r'', by rw [ran, List.append_assoc]⟩
        · obtain ⟨r'', ran, later⟩ := tail.2 (by omega)
          refine ⟨r'', ?_, ?_⟩
          · rw [ran, List.append_assoc, List.take_append, List.take_of_length_le fits]
          · rw [List.drop_append, List.drop_of_length_le fits, List.nil_append]
            exact later
      · have beyond : room < piece.length := by omega
        rw [Nat.min_eq_left (Nat.le_of_lt beyond), if_pos beyond]
        refine ⟨fun all => absurd all (by omega), fun _ => ⟨_, by rw [List.take_append_of_le_length (Nat.le_of_lt beyond)], ?_⟩⟩
        refine ⟨after.reads, after.ordered, ?_, ?_, ?_⟩
        · rw [List.drop_append_of_le_length (Nat.le_of_lt beyond)]
          dsimp only [Option.getD_some]
          rw [after.is]
          rfl
        · intro empty
          have gone := congrArg List.length (Option.some.inj empty)
          rw [List.length_drop, List.length_nil] at gone
          omega
        · rw [List.length_drop, List.length_append]
          omega

theorem readAll_left {sizes : Nat → Nat} (nonzero : ∀ call, 0 < sizes call) {rounds : Nat} (call : Nat) (left : Left r buf p)
    (enough : p.length < rounds) : readAll sizes rounds call r = some p := by
  induction rounds generalizing call r p with
  | zero => omega
  | succ rounds ih =>
    have size := nonzero call
    have bound := left.short
    have filled := @fill_spec r buf p (buf.size + 1) (sizes call) [] left (by omega)
    rw [readAll, EncReader.read, left.reads, Option.elim_some]
    by_cases all : p.length ≤ sizes call
    · obtain ⟨r', ran⟩ := filled.1 all
      rw [ran]
      rfl
    · obtain ⟨r', ran, later⟩ := filled.2 (by omega)
      rw [ran, List.nil_append]
      simp only [Option.bind_eq_bind, Option.bind_some, Option.pure_def, Bool.false_eq_true, if_false]
      rw [ih (call + 1) later (by rw [List.length_drop]; omega), Option.bind_some, List.take_append_drop]

theorem Left.start {w : Encbuf} (ordered : InOrder w.str 0 w.lheads) (sized : (render w.str 0 w.lheads).length = w.size) :
    Left { buf := some w } w (render w.str 0 w.lheads) where
  reads := rfl
  ordered := ordered
  is := rfl
  piece := nofun
  short := Nat.le_of_eq sized

end Reader

end CuteEVM
