import CuteEVM.Shared.BigEndian

set_option autoImplicit false

-- The format itself: trees of byte strings and lists, and the one encoding that each of them has.

namespace Rlp

inductive Item where
  | str (bytes : List UInt8)
  | list (items : List Item)
  deriving Inhabited

-- The header in front of `size` bytes. Sizes from 56 on are written out, after their own length.
def header (tag size : Nat) : List UInt8 :=
  if size < 56 then [UInt8.ofNat (tag + size)]
  else UInt8.ofNat (tag + 55 + BigEndian.width size) :: BigEndian.digits size

-- A single byte below 0x80 stands for itself.
def encodeString (bytes : List UInt8) : List UInt8 :=
  if bytes.length = 1 ∧ bytes.all (· < 0x80) = true then bytes else header 0x80 bytes.length ++ bytes

mutual

def encode : Item → List UInt8
  | .str bytes => encodeString bytes
  | .list items => header 0xc0 (encodeAll items).length ++ encodeAll items

def encodeAll : List Item → List UInt8
  | [] => []
  | item :: items => encode item ++ encodeAll items

end

theorem encodeAll_append (first second : List Item) : encodeAll (first ++ second) = encodeAll first ++ encodeAll second := by
  induction first with
  | nil => rfl
  | cons item items ih => rw [List.cons_append, encodeAll, encodeAll, ih, List.append_assoc]

theorem header_ne_nil (tag size : Nat) : header tag size ≠ [] := by
  unfold header
  split <;> exact nofun

theorem encodeString_ne_nil (bytes : List UInt8) : encodeString bytes ≠ [] := by
  unfold encodeString
  split
  · next single =>
    rintro rfl
    cases single.1
  · exact List.append_ne_nil_of_left_ne_nil (header_ne_nil _ _) _

theorem encode_ne_nil (item : Item) : encode item ≠ [] := by
  cases item with
  | str bytes => exact encodeString_ne_nil bytes
  | list items => exact List.append_ne_nil_of_left_ne_nil (header_ne_nil _ _) _

theorem encode_length_pos (item : Item) : 0 < (encode item).length := List.length_pos_iff.mpr (encode_ne_nil item)

theorem encodeAll_eq_nil {items : List Item} (empty : (encodeAll items).length = 0) : items = [] := by
  cases items with
  | nil => rfl
  | cons item items =>
    have some := encode_length_pos item
    rw [encodeAll, List.length_append] at empty
    omega

end Rlp
