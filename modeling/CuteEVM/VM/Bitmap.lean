import CuteEVM.VM.Contract

set_option autoImplicit false

-- `codeBitmap` once more, with the bounds check of every write and the byte-typed counter of its inner loops.

namespace CuteEVM

namespace Bitvec

def orAt (bits : Bitvec) (index : Nat) (mask : UInt8) : Except Panic Bitvec :=
  if index < bits.length then .ok (bits.modify index (· ||| mask)) else .error .sliceBounds

def setAt (bits : Bitvec) (pos : Nat) : Except Panic Bitvec := bits.orAt (pos / 8) (0x80 >>> UInt8.ofNat (pos % 8))

def set8At (bits : Bitvec) (pos : Nat) : Except Panic Bitvec := do
  let low : UInt8 := 0xFF >>> UInt8.ofNat (pos % 8)
  let bits ← bits.orAt (pos / 8) low
  bits.orAt (pos / 8 + 1) (~~~low)

def fillBytes (numbits : UInt8) (bits : Bitvec) (pc : Nat) : Except Panic (UInt8 × Bitvec × Nat) :=
  if 8 ≤ numbits then do
    let bits ← bits.set8At pc
    fillBytes (numbits - 8) bits (pc + 8)
  else .ok (numbits, bits, pc)
termination_by numbits.toNat
decreasing_by
  have large : 8 ≤ numbits.toNat := by assumption
  rw [UInt8.toNat_sub_of_le _ _ (by assumption)]
  exact Nat.sub_lt (by omega) (by decide)

def fillBits (numbits : UInt8) (bits : Bitvec) (pc : Nat) : Except Panic (Bitvec × Nat) :=
  if 0 < numbits then do
    let bits ← bits.setAt pc
    fillBits (numbits - 1) bits (pc + 1)
  else .ok (bits, pc)
termination_by numbits.toNat
decreasing_by
  have positive : 0 < numbits.toNat := by assumption
  rw [UInt8.toNat_sub_of_le _ _ (by show 1 ≤ numbits.toNat; omega)]
  exact Nat.sub_lt positive (by decide)

end Bitvec

def bitmapRounds (code : Bytes) : Nat → Nat → Bitvec → Option (Except Panic Bitvec)
  | rounds, pc, bits =>
    match code[pc]? with
    | none => some (.ok bits)
    | some op =>
      match rounds with
      | 0 => none
      | rounds + 1 =>
        if PUSH1 ≤ op ∧ op ≤ PUSH32 then
          match Bitvec.fillBytes (op - PUSH1 + 1) bits (pc + 1) with
          | .error fault => some (.error fault)
          | .ok (numbits, bits, pc) =>
            match Bitvec.fillBits numbits bits pc with
            | .error fault => some (.error fault)
            | .ok (bits, pc) => bitmapRounds code rounds pc bits
        else bitmapRounds code rounds (pc + 1) bits

end CuteEVM
