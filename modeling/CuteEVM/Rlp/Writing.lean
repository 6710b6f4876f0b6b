import CuteEVM.Rlp.Encode

set_option autoImplicit false

-- String data and list headers are collected apart and joined at the end.

namespace CuteEVM

open Rlp (Item)

section Numbers

theorem bigEndian_eq (size value : Nat) : bigEndian size value = BigEndian.write size value := by
  induction size generalizing value with
  | zero => rfl
  | succ size ih => rw [bigEndian, BigEndian.write, ih]

theorem setBytes_eq (bytes : Bytes) : setBytes bytes = BigEndian.read bytes := rfl

theorem digits_of_width {value size : Nat} (lower : 256 ^ size ≤ value) (upper : value < 256 ^ (size + 1)) :
    BigEndian.digits value = bigEndian (size + 1) value := by
  rw [BigEndian.digits, BigEndian.width_eq lower upper, bigEndian_eq]

theorem putint_eq {i : Nat} (positive : 0 < i) (fits : i < 2 ^ 64) : putint i = BigEndian.digits i := by
  unfold putint
  simp only [Nat.shiftLeft_eq, one_mul]
  repeat' split
  · exact (digits_of_width (by omega) (by omega)).symm
  · exact (digits_of_width (by omega) (by omega)).symm
  · exact (digits_of_width (by omega) (by omega)).symm
  · exact (digits_of_width (by omega) (by omega)).symm
  · exact (digits_of_width (by omega) (by omega)).symm
  · exact (digits_of_width (by omega) (by omega)).symm
  · exact (digits_of_width (by omega) (by omega)).symm
  · exact (digits_of_width (by omega) (by omega)).symm

theorem width_div {i : Nat} (large : 256 ≤ i) : BigEndian.width i = BigEndian.width (i / 256) + 1 := by
  have lower : BigEndian.width (i / 256) ≠ 0 := Nat.pos_iff_ne_zero.mp (BigEndian.width_pos (by omega))
  obtain ⟨size, shape⟩ := Nat.exists_eq_succ_of_ne_zero lower
  have above := BigEndian.pow_le_of_width shape
  have below := BigEndian.lt_pow_width (i / 256)
  rw [shape, Nat.succ_eq_add_one] at below
  rw [shape]
  apply BigEndian.width_eq
  · rw [pow_succ]
    omega
  · rw [pow_succ]
    omega

theorem intsizeFrom_eq {rounds i : Nat} (size : Nat) (positive : 0 < i) (fits : i < 256 ^ (rounds + 1)) :
    intsizeFrom rounds size i + 1 = size + BigEndian.width i := by
  have single : ∀ {i : Nat}, 0 < i → i < 256 → BigEndian.width i = 1 := fun lower upper => BigEndian.width_eq (by omega) (by omega)
  induction rounds generalizing size i with
  | zero =>
    rw [single positive (by omega)]
    rfl
  | succ rounds ih =>
    have shift : i >>> 8 = i / 256 := Nat.shiftRight_eq_div_pow i 8
    unfold intsizeFrom
    rw [shift]
    split
    · next done => rw [single positive (by omega)]
    · next more =>
      rw [pow_succ] at fits
      rw [width_div (by omega), ih (size + 1) (by omega) (by omega)]
      omega

theorem intsize_eq {i : Nat} (positive : 0 < i) (fits : i < 2 ^ 64) : intsize i = BigEndian.width i := by
  have total := @intsizeFrom_eq 8 i 1 positive (by omega)
  unfold intsize
  omega

end Numbers

section Headers

theorem tag_add (tag size : Nat) : UInt8.ofNat tag + UInt8.ofNat size = UInt8.ofNat (tag + size) := (UInt8.ofNat_add tag size).symm

theorem puthead_eq (tag : Nat) {size : Nat} (fits : size < 2 ^ 64) :
    puthead (UInt8.ofNat tag) (UInt8.ofNat (tag + 55)) size = Rlp.header tag size := by
  unfold puthead Rlp.header
  split
  · rw [tag_add]
  · rw [putint_eq (by omega) fits, BigEndian.digits_length, tag_add]

theorem ListHead.encode_eq {head : ListHead} (fits : head.size < 2 ^ 64) : head.encode = Rlp.header 0xc0 head.size :=
  puthead_eq 0xc0 fits

theorem header_length {size : Nat} (tag : Nat) (fits : size < 2 ^ 64) :
    (Rlp.header tag size).length = if size < 56 then 1 else 1 + intsize size := by
  unfold Rlp.header
  split
  · rfl
  · rw [List.length_cons, BigEndian.digits_length, intsize_eq (by omega) fits, Nat.add_comm]

theorem encodeString_eq (w : Encbuf) {b : Bytes} (fits : b.length < 2 ^ 64) :
    w.encodeString b = { w with str := w.str ++ Rlp.encodeString b } := by
  have head : w.encodeStringHeader b.length = { w with str := w.str ++ Rlp.header 0x80 b.length } := by
    rw [← puthead_eq 0x80 fits]
    unfold Encbuf.encodeStringHeader puthead
    split <;> rfl
  unfold Encbuf.encodeString Rlp.encodeString
  rw [head]
  match b with
  | [] => simp
  | [x] =>
    by_cases small : x < 0x80
    · have low : x ≤ 0x7F := by
        rw [UInt8.le_iff_toNat_le]
        rw [UInt8.lt_iff_toNat_lt] at small
        exact Nat.le_of_lt_succ small
      simp [small, low]
    · have high : ¬ x ≤ 0x7F := by
        rw [UInt8.le_iff_toNat_le]
        rw [UInt8.lt_iff_toNat_lt] at small
        exact fun low => small (Nat.lt_succ_of_le low)
      simp [small, high]
  | x :: y :: rest => simp

end Headers

section Collected

mutual

def flat : Item → Bytes
  | .str b => Rlp.encodeString b
  | .list items => flatAll items

def flatAll : List Item → Bytes
  | [] => []
  | item :: items => flat item ++ flatAll items

end

mutual

def heads : Nat → Item → List ListHead
  | _, .str _ => []
  | base, .list items => ⟨base, (Rlp.encodeAll items).length⟩ :: headsAll base items

def headsAll : Nat → List Item → List ListHead
  | _, [] => []
  | base, item :: items => heads base item ++ headsAll (base + (flat item).length) items

end

mutual

def headed : Item → Nat
  | .str _ => 0
  | .list items => headedAll items + (Rlp.header 0xc0 (Rlp.encodeAll items).length).length

def headedAll : List Item → Nat
  | [] => 0
  | item :: items => headed item + headedAll items

end

mutual

theorem encode_size : ∀ item : Item, (Rlp.encode item).length = (flat item).length + headed item
  | .str b => by rw [Rlp.encode, flat, headed, Nat.add_zero]
  | .list items => by
    rw [Rlp.encode, flat, headed, List.length_append, encodeAll_size items]
    omega

theorem encodeAll_size : ∀ items : List Item, (Rlp.encodeAll items).length = (flatAll items).length + headedAll items
  | [] => rfl
  | item :: items => by
    rw [Rlp.encodeAll, flatAll, headedAll, List.length_append, List.length_append, encode_size item, encodeAll_size items]
    omega

end

theorem str_le_encode (b : Bytes) : b.length ≤ (Rlp.encode (.str b)).length := by
  rw [Rlp.encode]
  unfold Rlp.encodeString
  split
  · exact Nat.le_refl _
  · rw [List.length_append]
    omega

theorem modify_middle {α : Type} (above below : List α) (item : α) (change : α → α) :
    (above ++ item :: below).modify above.length change = above ++ change item :: below := by
  induction above with
  | nil => rfl
  | cons first above ih => rw [List.cons_append, List.length_cons, List.modify_succ_cons, ih, List.cons_append]

theorem listEnd_list (w : Encbuf) {str : Bytes} {inner : List ListHead} {added : Nat} (fits : str.length + added < 2 ^ 64) :
    Encbuf.listEnd ⟨w.str ++ str, w.lheads ++ [⟨w.str.length, w.lhsize⟩] ++ inner, w.lhsize + added⟩ w.lheads.length =
      ⟨w.str ++ str, w.lheads ++ ⟨w.str.length, str.length + added⟩ :: inner,
        w.lhsize + (added + (Rlp.header 0xc0 (str.length + added)).length)⟩ := by
  have size : (w.str ++ str).length + (w.lhsize + added) - w.str.length - w.lhsize = str.length + added := by
    rw [List.length_append]
    omega
  have here : (w.lheads ++ [(⟨w.str.length, w.lhsize⟩ : ListHead)] ++ inner)[w.lheads.length]? =
      some ⟨w.str.length, w.lhsize⟩ := by
    simp
  have changed : ∀ close : ListHead → ListHead,
      (w.lheads ++ [(⟨w.str.length, w.lhsize⟩ : ListHead)] ++ inner).modify w.lheads.length close =
      w.lheads ++ close ⟨w.str.length, w.lhsize⟩ :: inner := by
    intro close
    rw [List.append_assoc, List.singleton_append, modify_middle]
  unfold Encbuf.listEnd
  simp only [Encbuf.size, here, Option.map_some, Option.elim_some, changed, size, header_length 0xc0 fits]
  split <;> simp only [Nat.add_assoc]

mutual

theorem writeItem_eq : ∀ (item : Item) (w : Encbuf), (Rlp.encode item).length < 2 ^ 64 →
    writeItem item w = ⟨w.str ++ flat item, w.lheads ++ heads w.str.length item, w.lhsize + headed item⟩
  | .str b, w, fits => by
    have short := Nat.lt_of_le_of_lt (str_le_encode b) fits
    rw [writeItem, flat, heads, headed, encodeString_eq w short, List.append_nil, Nat.add_zero]
  | .list items, w, fits => by
    rw [Rlp.encode, List.length_append] at fits
    have size := encodeAll_size items
    rw [writeItem, flat, heads, headed]
    dsimp only [Encbuf.list]
    rw [writeItems_eq items _ (by omega)]
    dsimp only
    rw [listEnd_list w (by omega), size]

theorem writeItems_eq : ∀ (items : List Item) (w : Encbuf), (Rlp.encodeAll items).length < 2 ^ 64 →
    writeItems items w = ⟨w.str ++ flatAll items, w.lheads ++ headsAll w.str.length items, w.lhsize + headedAll items⟩
  | [], w, _ => by rw [writeItems, flatAll, headsAll, headedAll, List.append_nil, List.append_nil, Nat.add_zero]
  | item :: items, w, fits => by
    rw [Rlp.encodeAll, List.length_append] at fits
    rw [writeItems, writeItem_eq item w (by omega), writeItems_eq items _ (by omega), flatAll, headsAll, headedAll]
    dsimp only
    rw [List.append_assoc, List.append_assoc, List.length_append, Nat.add_assoc]

end

end Collected

section Joined

variable {str : Bytes}

def render (str : Bytes) : Nat → List ListHead → Bytes
  | strpos, [] => str.drop strpos
  | strpos, head :: rest => (str.drop strpos).take (head.offset - strpos) ++ Rlp.header 0xc0 head.size ++
  render str head.offset rest

def InOrder (str : Bytes) : Nat → List ListHead → Prop
  | strpos, [] => strpos ≤ str.length
  | strpos, head :: rest => strpos ≤ head.offset ∧ head.size < 2 ^ 64 ∧ InOrder str head.offset rest

theorem InOrder.le {strpos : Nat} {rest : List ListHead} (ordered : InOrder str strpos rest) : strpos ≤ str.length := by
  induction rest generalizing strpos with
  | nil => exact ordered
  | cons head rest ih => exact Nat.le_trans ordered.1 (ih ordered.2.2)

theorem render_advance {strpos next : Nat} {rest : List ListHead} (here : strpos ≤ next) (ordered : InOrder str next rest) :
    render str strpos rest = (str.drop strpos).take (next - strpos) ++ render str next rest := by
  cases rest with
  | nil =>
    show str.drop strpos = _ ++ str.drop next
    have split := List.take_append_drop (next - strpos) (str.drop strpos)
    rw [List.drop_drop, Nat.add_sub_cancel' here] at split
    exact split.symm
  | cons head rest =>
    have later := ordered.1
    have split : (str.drop strpos).take (head.offset - strpos) =
        (str.drop strpos).take (next - strpos) ++ (str.drop next).take (head.offset - next) := by
      rw [show head.offset - strpos = (next - strpos) + (head.offset - next) by omega, List.take_add, List.drop_drop,
        Nat.add_sub_cancel' here]
    rw [render, render, split]
    simp only [List.append_assoc]

theorem overwrite (done src : Bytes) (room : Nat) :
    (done ++ List.replicate room 0).take done.length ++ src ++ (done ++ List.replicate room 0).drop (done.length + src.length) =
      done ++ src ++ List.replicate (room - src.length) 0 := by
  rw [List.take_left, List.drop_append, List.drop_of_length_le (Nat.le_add_right _ _), List.nil_append, Nat.add_sub_cancel_left,
    List.drop_replicate]

theorem copyAt_room (done src : Bytes) {room : Nat} (fits : src.length ≤ room) :
    copyAt (done ++ List.replicate room 0) done.length src =
      some (src.length, done ++ src ++ List.replicate (room - src.length) 0) := by
  have space : (done ++ List.replicate room (0 : UInt8)).length - done.length = room := by
    rw [List.length_append, List.length_replicate, Nat.add_sub_cancel_left]
  have inside : done.length ≤ (done ++ List.replicate room (0 : UInt8)).length := by
    rw [List.length_append]
    omega
  unfold copyAt
  rw [if_pos inside]
  dsimp only
  rw [space, Nat.min_eq_left fits, List.take_length, overwrite done src room]

theorem putAt_room (done src : Bytes) {room : Nat} (fits : src.length ≤ room) :
    putAt (done ++ List.replicate room 0) done.length src = some (done ++ src ++ List.replicate (room - src.length) 0) := by
  have inside : done.length + src.length ≤ (done ++ List.replicate room (0 : UInt8)).length := by
    rw [List.length_append, List.length_replicate]
    omega
  unfold putAt
  rw [if_pos inside, overwrite done src room]

theorem writeHeads_render {done : Bytes} {strpos room : Nat} {rest : List ListHead} (ordered : InOrder str strpos rest)
    (fits : (render str strpos rest).length = room) :
    ((rest.foldlM (Output.writeHead str) ⟨done ++ List.replicate room 0, strpos, done.length⟩).bind fun o =>
      (subslice str o.strpos str.length).bind fun tail => (copyAt o.out o.pos tail).map Prod.snd) =
      some (done ++ render str strpos rest) := by
  induction rest generalizing done strpos room with
  | nil =>
    have within : strpos ≤ str.length := ordered
    have tail : subslice str strpos str.length = some (str.drop strpos) := by
      unfold subslice
      rw [if_pos ⟨within, Nat.le_refl _⟩, List.take_of_length_le (Nat.le_of_eq List.length_drop)]
    change (str.drop strpos).length = room at fits
    simp only [List.foldlM_nil, Option.pure_def, Option.bind_some, tail, copyAt_room done _ (Nat.le_of_eq fits), Option.map_some,
      fits, Nat.sub_self, List.replicate_zero, List.append_nil]
    rfl
  | cons head rest ih =>
    obtain ⟨below, small, later⟩ := ordered
    have end_of_head := later.le
    rw [render, List.length_append, List.length_append] at fits
    have before : subslice str strpos head.offset = some ((str.drop strpos).take (head.offset - strpos)) := by
      unfold subslice
      rw [if_pos ⟨below, end_of_head⟩]
    have amount : ((str.drop strpos).take (head.offset - strpos)).length = head.offset - strpos := by
      rw [List.length_take, List.length_drop]
      omega
    generalize taken : (str.drop strpos).take (head.offset - strpos) = chunk at before amount fits
    rw [← ListHead.encode_eq small] at fits
    have copied := @copyAt_room done chunk room (by omega)
    have put := @putAt_room (done ++ chunk) head.encode (room - chunk.length) (by omega)
    rw [List.length_append] at put
    have step : Output.writeHead str ⟨done ++ List.replicate room 0, strpos, done.length⟩ head =
        some ⟨done ++ chunk ++ head.encode ++ List.replicate (room - chunk.length - head.encode.length) 0, head.offset,
          (done ++ chunk ++ head.encode).length⟩ := by
      unfold Output.writeHead
      simp only [before, copied, put, Option.bind_eq_bind, Option.bind_some, Option.pure_def, List.length_append]
      rw [amount, Nat.add_sub_cancel' below]
    have rest_fits : (render str head.offset rest).length = room - chunk.length - head.encode.length := by omega
    rw [List.foldlM_cons, step, Option.bind_eq_bind, Option.bind_some, ih later rest_fits, ListHead.encode_eq small, render, taken]
    simp only [List.append_assoc]

theorem drop_of_starts {first second : Bytes} {base : Nat} (starts : first ++ second <+: str.drop base) :
    second <+: str.drop (base + first.length) := by
  obtain ⟨post, shape⟩ := starts
  refine ⟨post, ?_⟩
  rw [← List.drop_drop, ← shape, List.append_assoc, List.drop_left]

mutual

theorem render_item : ∀ (item : Item) (base : Nat) (rest : List ListHead), (Rlp.encode item).length < 2 ^ 64 →
    flat item <+: str.drop base → InOrder str (base + (flat item).length) rest →
    InOrder str base (heads base item ++ rest) ∧
      render str base (heads base item ++ rest) = Rlp.encode item ++ render str (base + (flat item).length) rest
  | .str b, base, rest, _, starts, ordered => by
    have within : base ≤ base + (flat (.str b)).length := Nat.le_add_right _ _
    refine ⟨?_, ?_⟩
    · cases rest with
      | nil => exact Nat.le_trans within ordered
      | cons head rest => exact ⟨Nat.le_trans within ordered.1, ordered.2⟩
    · rw [heads, List.nil_append, render_advance within ordered, Nat.add_sub_cancel_left, ← List.prefix_iff_eq_take.mp starts]
      rfl
  | .list items, base, rest, fits, starts, ordered => by
    rw [Rlp.encode, List.length_append] at fits
    have small : (Rlp.encodeAll items).length < 2 ^ 64 := by omega
    obtain ⟨inner, joined⟩ := render_items items base rest small starts ordered
    refine ⟨⟨Nat.le_refl _, small, inner⟩, ?_⟩
    rw [heads, List.cons_append, render, Nat.sub_self, List.take_zero, List.nil_append, joined, Rlp.encode, flat,
      List.append_assoc]

theorem render_items : ∀ (items : List Item) (base : Nat) (rest : List ListHead), (Rlp.encodeAll items).length < 2 ^ 64 →
    flatAll items <+: str.drop base → InOrder str (base + (flatAll items).length) rest →
    InOrder str base (headsAll base items ++ rest) ∧
      render str base (headsAll base items ++ rest) = Rlp.encodeAll items ++ render str (base + (flatAll items).length) rest
  | [], base, rest, _, _, ordered => ⟨ordered, rfl⟩
  | item :: items, base, rest, fits, starts, ordered => by
    rw [Rlp.encodeAll, List.length_append] at fits
    rw [flatAll] at starts ordered
    rw [List.length_append, ← Nat.add_assoc] at ordered
    obtain ⟨inner, joined⟩ := render_items items (base + (flat item).length) rest (by omega) (drop_of_starts starts) ordered
    obtain ⟨all, whole⟩ := render_item item base (headsAll (base + (flat item).length) items ++ rest) (by omega)
      ((List.prefix_append _ _).trans starts) inner
    rw [headsAll, List.append_assoc]
    refine ⟨all, ?_⟩
    rw [whole, joined, Rlp.encodeAll, flatAll, List.length_append, List.append_assoc, Nat.add_assoc]

end

theorem render_written {items : List Item} (fits : (Rlp.encodeAll items).length < 2 ^ 64) :
    InOrder (writeItems items {}).str 0 (writeItems items {}).lheads ∧
      render (writeItems items {}).str 0 (writeItems items {}).lheads = Rlp.encodeAll items ∧
      (writeItems items {}).size = (Rlp.encodeAll items).length := by
  obtain ⟨ordered, joined⟩ :=
    render_items items 0 [] fits (List.prefix_refl (flatAll items)) (by rw [Nat.zero_add]; exact Nat.le_refl _)
  rw [List.append_nil] at ordered joined
  rw [writeItems_eq items {} fits, encodeAll_size]
  simp only [List.nil_append, List.length_nil, Nat.zero_add, Encbuf.size]
  refine ⟨ordered, ?_, trivial⟩
  rw [joined, Nat.zero_add, render, List.drop_length, List.append_nil]

theorem toBytes_eq {w : Encbuf} (ordered : InOrder w.str 0 w.lheads) (sized : (render w.str 0 w.lheads).length = w.size) :
    w.toBytes = some (render w.str 0 w.lheads) := by
  have result := @writeHeads_render w.str [] 0 _ _ ordered sized
  simp only [List.nil_append, List.length_nil, Option.map_eq_bind, Function.comp_def] at result
  exact result

theorem encodeToBytes_eq {item : Item} (fits : (Rlp.encode item).length < 2 ^ 64) :
    encodeToBytes item = some (Rlp.encode item) := by
  have single : Rlp.encodeAll [item] = Rlp.encode item := by rw [Rlp.encodeAll, Rlp.encodeAll, List.append_nil]
  have written : writeItems [item] {} = writeItem item {} := by rw [writeItems, writeItems]
  obtain ⟨ordered, joined, size⟩ := @render_written [item] (by rw [single]; exact fits)
  rw [written, single] at joined size
  rw [written] at ordered
  rw [encodeToBytes, toBytes_eq ordered (by rw [joined, size]), joined]

end Joined

end CuteEVM
