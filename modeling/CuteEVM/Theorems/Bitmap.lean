import CuteEVM.Proofs.Decoding
import CuteEVM.VM.Bitmap

set_option autoImplicit false

-- No write of `codeBitmap` goes out of range, whatever the code ends in, and the bitmap tells instructions from data.

namespace CuteEVM

namespace Bitvec

variable {bits : Bitvec} {pc : Nat}

theorem setAt_eq (inside : pc / 8 < bits.length) : bits.setAt pc = .ok (bits.set pc) := if_pos inside

theorem set8At_eq (inside : pc / 8 + 1 < bits.length) : bits.set8At pc = .ok (bits.set8 pc) := by
  have second : pc / 8 + 1 < (bits.modify (pc / 8) (· ||| (0xFF >>> UInt8.ofNat (pc % 8)))).length := by
    rw [List.length_modify]
    exact inside
  unfold set8At orAt
  dsimp only
  rw [if_pos (show pc / 8 < bits.length by omega)]
  exact if_pos second

theorem set_length (bits : Bitvec) (pos : Nat) : (bits.set pos).length = bits.length := by simp [set]

theorem set8_length (bits : Bitvec) (pos : Nat) : (bits.set8 pos).length = bits.length := by simp [set8]

theorem markBytes_length (rounds : Nat) (bits : Bitvec) (pc : Nat) : (markBytes rounds bits pc).length = bits.length := by
  induction rounds generalizing bits pc with
  | zero => rfl
  | succ rounds ih => rw [markBytes, ih, set8_length]

theorem fillBytes_eq (numbits : UInt8) (inside : (pc + numbits.toNat) / 8 < bits.length) :
    fillBytes numbits bits pc =
      .ok (UInt8.ofNat (numbits.toNat % 8), markBytes (numbits.toNat / 8) bits pc, pc + 8 * (numbits.toNat / 8)) := by
  -- The counter goes down by 8 in each round.
  generalize count : numbits.toNat / 8 = rounds
  induction rounds generalizing numbits bits pc with
  | zero =>
    have small : ¬ 8 ≤ numbits := fun large => by
      have large : 8 ≤ numbits.toNat := large
      omega
    have rest : numbits.toNat % 8 = numbits.toNat := by omega
    rw [fillBytes, if_neg small, rest, UInt8.ofNat_toNat]
    rfl
  | succ rounds ih =>
    have large : 8 ≤ numbits.toNat := by omega
    have less : (numbits - 8).toNat = numbits.toNat - 8 := UInt8.toNat_sub_of_le _ _ large
    have rest : (numbits - 8).toNat % 8 = numbits.toNat % 8 := by omega
    have next := @ih (bits.set8 pc) (pc + 8) (numbits - 8) (by rw [set8_length, less]; omega) (by omega)
    rw [fillBytes, if_pos (show 8 ≤ numbits from large), set8At_eq (by omega), markBytes]
    rw [rest] at next
    refine next.trans ?_
    congr 3
    omega

theorem fillBits_eq (numbits : UInt8) (inside : (pc + numbits.toNat) / 8 < bits.length) :
    fillBits numbits bits pc = .ok (markBits numbits.toNat bits pc, pc + numbits.toNat) := by
  generalize count : numbits.toNat = rounds at inside
  induction rounds generalizing numbits bits pc with
  | zero =>
    have none : ¬ 0 < numbits := fun positive => by
      have positive : 0 < numbits.toNat := positive
      omega
    rw [fillBits, if_neg none]
    rfl
  | succ rounds ih =>
    have positive : 0 < numbits.toNat := by omega
    have less : (numbits - 1).toNat = numbits.toNat - 1 := UInt8.toNat_sub_of_le _ _ positive
    have next := @ih (bits.set pc) (pc + 1) (numbits - 1) (by omega) (by rw [set_length]; omega)
    rw [fillBits, if_pos (show 0 < numbits from positive), setAt_eq (by omega), markBits]
    refine next.trans ?_
    congr 2
    omega

theorem fill_eq (numbits : UInt8) (inside : (pc + numbits.toNat) / 8 < bits.length) :
    ∃ left bits' pc', fillBytes numbits bits pc = .ok (left, bits', pc') ∧
      fillBits left bits' pc' = .ok (mark numbits.toNat bits pc, pc + numbits.toNat) := by
  have left : (UInt8.ofNat (numbits.toNat % 8)).toNat = numbits.toNat % 8 := by
    rw [UInt8.toNat_ofNat']
    omega
  refine ⟨_, _, _, fillBytes_eq numbits inside, ?_⟩
  rw [fillBits_eq _ (by rw [left, markBytes_length]; omega), left]
  have total : pc + 8 * (numbits.toNat / 8) + numbits.toNat % 8 = pc + numbits.toNat := by omega
  rw [total]
  rfl

end Bitvec

section Rounds

variable {code : Bytes} {pc : Nat} {bits : Bitvec}

theorem bitmapRounds_eq (rounds : Nat) (scanned : Scanned code pc bits) (enough : code.length ≤ pc + rounds) :
    bitmapRounds code rounds pc bits = some (.ok (codeBitmapLoop code rounds pc bits)) := by
  induction rounds generalizing pc bits with
  | zero =>
    have past : code[pc]? = none := List.getElem?_eq_none enough
    rw [bitmapRounds, past]
    rfl
  | succ rounds ih =>
    unfold bitmapRounds codeBitmapLoop
    cases found : code[pc]? with
    | none => rfl
    | some op =>
      have inside := (List.getElem?_eq_some_iff.mp found).1
      have here : code.getD pc 0 = op := by simp [List.getD_eq_getElem?_getD, found]
      dsimp only
      by_cases push : PUSH1 ≤ op ∧ op ≤ PUSH32
      · have size : pushSize (code.getD pc 0) = (op - PUSH1 + 1).toNat := by rw [here, pushSize, if_pos push]
        have short := pushSize_le (code.getD pc 0)
        have next := scanned.push inside
        rw [size] at next short
        -- The four spare bytes take what a push at the end of the code marks.
        obtain ⟨left, bits', pc', bytes, rest⟩ := @Bitvec.fill_eq bits (pc + 1) (op - PUSH1 + 1) (by rw [scanned.length]; omega)
        rw [if_pos push, if_pos push, bytes]
        dsimp only
        rw [rest]
        exact ih next (by omega)
      · have size : pushSize (code.getD pc 0) = 0 := by rw [here, pushSize, if_neg push]
        rw [if_neg push, if_neg push]
        exact ih (scanned.plain size) (by omega)

end Rounds

theorem codeBitmap_exact (code : Bytes) :
    bitmapRounds code code.length 0 (List.replicate (code.length / 8 + 1 + 4) 0) = some (.ok (codeBitmap code)) ∧
    ∀ pos, pos < code.length →
      ∃ answer, (codeBitmap code).codeSegment pos = .ok answer ∧ (answer = true ↔ InstructionStart code pos) :=
  ⟨bitmapRounds_eq _ (blank_scanned code) (by omega), fun _ inside => codeSegment_codeBitmap inside⟩

-- A code that ends within the data of its last push.
theorem codeBitmap_exact_cut : ∃ answer, (codeBitmap [0x60, 0x5b, 0x7f, 0x5b]).codeSegment 3 = .ok answer ∧
    (answer = true ↔ InstructionStart [0x60, 0x5b, 0x7f, 0x5b] 3) :=
  (codeBitmap_exact [0x60, 0x5b, 0x7f, 0x5b]).2 3 (by decide)

end CuteEVM
