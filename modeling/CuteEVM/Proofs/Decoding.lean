import CuteEVM.Shared.Decoding
import CuteEVM.VM.Instructions

set_option autoImplicit false

-- The bitmap of `codeBitmap` marks exactly the bytes that are skipped when the code is decoded from its first byte on.

namespace CuteEVM

-- The number of bytes after an instruction that belong to it.
def pushSize (op : OpCode) : Nat := if PUSH1 ≤ op ∧ op ≤ PUSH32 then (op - PUSH1 + 1).toNat else 0

abbrev InstructionStart (code : Bytes) (pos : Nat) : Prop := Decoding.Start (fun n => pushSize (code.getD n 0)) pos

theorem pushSize_le (op : OpCode) : pushSize op ≤ 32 := by
  unfold pushSize
  split
  · next range =>
    have low : PUSH1.toNat ≤ op.toNat := range.1
    have high : op.toNat ≤ PUSH32.toNat := range.2
    simp only [UInt8.toNat_add, UInt8.toNat_sub, PUSH1, PUSH32, UInt8.reduceToNat] at low high ⊢
    omega
  · omega

namespace Bitvec

def bit (bits : Bitvec) (pos : Nat) : Bool := bits.getD (pos / 8) 0 &&& (0x80 >>> UInt8.ofNat (pos % 8)) != 0

theorem mask_bit (byte mask probe : UInt8) :
    (((byte ||| mask) &&& probe) != 0) = ((byte &&& probe != 0) || (mask &&& probe != 0)) := by
  have split : (byte ||| mask) &&& probe = (byte &&& probe) ||| (mask &&& probe) := by
    apply UInt8.eq_of_toBitVec_eq
    ext i
    simp only [UInt8.toBitVec_and, UInt8.toBitVec_or, BitVec.getElem_and, BitVec.getElem_or, Bool.and_or_distrib_right]
  rw [split, Bool.eq_iff_iff]
  simp only [bne_iff_ne, ne_eq, UInt8.or_eq_zero_iff, Bool.or_eq_true, not_and_or]

-- The three masks, place by place.
theorem set_mask : ∀ i < 8, ∀ j < 8, ((0x80 >>> UInt8.ofNat i : UInt8) &&& (0x80 >>> UInt8.ofNat j) != 0) = decide (j = i) := by
  decide

theorem low_mask : ∀ i < 8, ∀ j < 8, ((0xFF >>> UInt8.ofNat i : UInt8) &&& (0x80 >>> UInt8.ofNat j) != 0) = decide (i ≤ j) := by
  decide

theorem high_mask :
    ∀ i < 8, ∀ j < 8, (~~~(0xFF >>> UInt8.ofNat i : UInt8) &&& (0x80 >>> UInt8.ofNat j) != 0) = decide (j < i) := by
  decide

theorem bit_modify (bits : Bitvec) {byte : Nat} (mask : UInt8) (inside : byte < bits.length) (pos : Nat) :
    bit (bits.modify byte (· ||| mask)) pos =
      (bits.bit pos || (decide (pos / 8 = byte) && (mask &&& (0x80 >>> UInt8.ofNat (pos % 8)) != 0))) := by
  unfold bit
  by_cases same : pos / 8 = byte
  · subst same
    simp only [List.getD_eq_getElem?_getD, List.getElem?_modify, if_true, List.getElem?_eq_getElem inside, Option.map_eq_map,
      Option.map_some, Option.getD_some, decide_true, Bool.true_and, mask_bit]
  · simp only [List.getD_eq_getElem?_getD, List.getElem?_modify, if_neg (Ne.symm same), same, decide_false, Bool.false_and,
      Bool.or_false, Option.map_eq_map, Option.map_id']

def Marks (bits : Bitvec) (low count : Nat) (marked : Bitvec) : Prop :=
  marked.length = bits.length ∧ ∀ pos, marked.bit pos = (bits.bit pos || (decide (low ≤ pos) && decide (pos < low + count)))

theorem Marks.refl (bits : Bitvec) (low : Nat) : Marks bits low 0 bits := by
  refine ⟨rfl, fun pos => ?_⟩
  have none : (decide (low ≤ pos) && decide (pos < low + 0)) = false := by simp
  rw [none, Bool.or_false]

theorem Marks.trans {bits more most : Bitvec} {low count count' : Nat} (first : Marks bits low count more)
    (second : Marks more (low + count) count' most) : Marks bits low (count + count') most := by
  refine ⟨second.1.trans first.1, fun pos => ?_⟩
  rw [second.2, first.2, Bool.or_assoc]
  congr 1
  rw [Bool.eq_iff_iff]
  simp only [Bool.or_eq_true, Bool.and_eq_true, decide_eq_true_eq]
  omega

theorem set_marks (bits : Bitvec) {pos : Nat} (inside : pos / 8 < bits.length) : Marks bits pos 1 (bits.set pos) := by
  refine ⟨by simp [set], fun other => ?_⟩
  unfold set
  rw [bit_modify bits _ inside, set_mask _ (Nat.mod_lt _ (by decide)) _ (Nat.mod_lt _ (by decide))]
  congr 1
  rw [Bool.eq_iff_iff]
  simp only [Bool.and_eq_true, decide_eq_true_eq]
  omega

theorem set8_marks (bits : Bitvec) {pos : Nat} (inside : pos / 8 + 1 < bits.length) : Marks bits pos 8 (bits.set8 pos) := by
  refine ⟨by simp [set8], fun other => ?_⟩
  have small : pos % 8 < 8 := Nat.mod_lt _ (by decide)
  have small' : other % 8 < 8 := Nat.mod_lt _ (by decide)
  simp only [set8]
  rw [bit_modify _ _ (by simpa using inside), bit_modify bits _ (by omega), low_mask _ small _ small', high_mask _ small _ small',
    Bool.or_assoc]
  congr 1
  rw [Bool.eq_iff_iff]
  simp only [Bool.or_eq_true, Bool.and_eq_true, decide_eq_true_eq]
  omega

theorem markBytes_marks (rounds : Nat) (bits : Bitvec) {pc : Nat} (inside : (pc + 8 * rounds) / 8 < bits.length) :
    Marks bits pc (8 * rounds) (markBytes rounds bits pc) := by
  induction rounds generalizing bits pc with
  | zero => exact .refl bits pc
  | succ rounds ih =>
    have first := set8_marks bits (show pc / 8 + 1 < bits.length by omega)
    have rest := ih (bits.set8 pc) (show (pc + 8 + 8 * rounds) / 8 < (bits.set8 pc).length by rw [first.1]; omega)
    rw [show 8 * (rounds + 1) = 8 + 8 * rounds by omega]
    exact first.trans rest

theorem markBits_marks (numbits : Nat) (bits : Bitvec) {pc : Nat} (inside : (pc + numbits) / 8 < bits.length) :
    Marks bits pc numbits (markBits numbits bits pc) := by
  induction numbits generalizing bits pc with
  | zero => exact .refl bits pc
  | succ numbits ih =>
    have first := set_marks bits (show pc / 8 < bits.length by omega)
    have rest := ih (bits.set pc) (show (pc + 1 + numbits) / 8 < (bits.set pc).length by rw [first.1]; omega)
    have both := first.trans rest
    rw [Nat.add_comm 1 numbits] at both
    exact both

theorem mark_marks (numbits : Nat) (bits : Bitvec) {pc : Nat} (inside : (pc + numbits) / 8 < bits.length) :
    Marks bits pc numbits (mark numbits bits pc) := by
  have bytes := markBytes_marks (numbits / 8) bits (show (pc + 8 * (numbits / 8)) / 8 < bits.length by omega)
  have rest := markBits_marks (numbits % 8) (markBytes (numbits / 8) bits pc)
    (show (pc + 8 * (numbits / 8) + numbits % 8) / 8 < _ by rw [bytes.1]; omega)
  have total : 8 * (numbits / 8) + numbits % 8 = numbits := by omega
  have both := bytes.trans rest
  rw [total] at both
  exact both

theorem codeSegment_eq (bits : Bitvec) {pos : Nat} (inside : pos / 8 < bits.length) :
    bits.codeSegment pos = .ok (!bits.bit pos) := by
  unfold codeSegment bit
  simp only [List.getD_eq_getElem?_getD, List.getElem?_eq_getElem inside, Option.getD_some, bne, Bool.not_not]

end Bitvec

section Bitmap

variable (code : Bytes)

-- What the loop of `codeBitmap` keeps: up to `pc`, where an instruction starts, the data is marked.
structure Scanned (pc : Nat) (bits : Bitvec) : Prop where
  start : InstructionStart code pc
  length : bits.length = code.length / 8 + 1 + 4
  marks : ∀ pos, bits.bit pos = true ↔ pos < pc ∧ ¬ InstructionStart code pos

variable {code} {pc : Nat} {bits : Bitvec}

theorem Scanned.plain (scanned : Scanned code pc bits) (size : pushSize (code.getD pc 0) = 0) : Scanned code (pc + 1) bits where
  start := by
    have next := scanned.start.next
    rwa [size] at next
  length := scanned.length
  marks := by
    intro pos
    rw [scanned.marks]
    refine ⟨fun ⟨below, data⟩ => ⟨by omega, data⟩, fun ⟨below, data⟩ => ⟨?_, data⟩⟩
    rcases Nat.lt_succ_iff_lt_or_eq.mp below with lower | rfl
    · exact lower
    · exact absurd scanned.start data

theorem Scanned.push (scanned : Scanned code pc bits) (inside : pc < code.length) :
    Scanned code (pc + 1 + pushSize (code.getD pc 0)) (bits.mark (pushSize (code.getD pc 0)) (pc + 1)) := by
  have short := pushSize_le (code.getD pc 0)
  have marked := Bitvec.mark_marks (pushSize (code.getD pc 0)) bits
    (show (pc + 1 + pushSize (code.getD pc 0)) / 8 < bits.length by rw [scanned.length]; omega)
  refine ⟨scanned.start.next, marked.1.trans scanned.length, fun pos => ?_⟩
  rw [marked.2, Bool.or_eq_true, scanned.marks, Bool.and_eq_true, decide_eq_true_eq, decide_eq_true_eq]
  constructor
  · rintro (⟨below, data⟩ | ⟨above, below⟩)
    · exact ⟨by omega, data⟩
    · exact ⟨below, scanned.start.not_inside (by omega) (by omega)⟩
  · rintro ⟨below, data⟩
    rcases Nat.lt_trichotomy pos pc with lower | rfl | upper
    · exact .inl ⟨lower, data⟩
    · exact absurd scanned.start data
    · exact .inr ⟨upper, below⟩

theorem codeBitmapLoop_scans (rounds : Nat) (scanned : Scanned code pc bits) (enough : code.length ≤ pc + rounds) :
    ∃ last, code.length ≤ last ∧ Scanned code last (codeBitmapLoop code rounds pc bits) := by
  induction rounds generalizing pc bits with
  | zero => exact ⟨pc, enough, scanned⟩
  | succ rounds ih =>
    unfold codeBitmapLoop
    cases found : code[pc]? with
    | none => exact ⟨pc, List.getElem?_eq_none_iff.mp found, scanned⟩
    | some op =>
      have inside := (List.getElem?_eq_some_iff.mp found).1
      have here : code.getD pc 0 = op := by simp [List.getD_eq_getElem?_getD, found]
      by_cases push : PUSH1 ≤ op ∧ op ≤ PUSH32
      · have size : pushSize (code.getD pc 0) = (op - PUSH1 + 1).toNat := by rw [here, pushSize, if_pos push]
        have next := scanned.push inside
        rw [size] at next
        simp only [if_pos push]
        exact ih next (by omega)
      · have size : pushSize (code.getD pc 0) = 0 := by rw [here, pushSize, if_neg push]
        simp only [if_neg push]
        exact ih (scanned.plain size) (by omega)

theorem blank_scanned (code : Bytes) : Scanned code 0 (List.replicate (code.length / 8 + 1 + 4) 0) := by
  refine ⟨.zero, by simp, fun pos => ?_⟩
  have blank : Bitvec.bit (List.replicate (code.length / 8 + 1 + 4) 0) pos = false := by
    unfold Bitvec.bit
    rw [List.getD_eq_getElem?_getD, List.getElem?_replicate]
    split <;> simp
  simp [blank]

theorem codeBitmap_scanned (code : Bytes) : ∃ last, code.length ≤ last ∧ Scanned code last (codeBitmap code) :=
  codeBitmapLoop_scans code.length (blank_scanned code) (by omega)

theorem codeSegment_codeBitmap {pos : Nat} (inside : pos < code.length) :
    ∃ answer, (codeBitmap code).codeSegment pos = .ok answer ∧ (answer = true ↔ InstructionStart code pos) := by
  obtain ⟨last, past, scanned⟩ := codeBitmap_scanned code
  refine ⟨_, Bitvec.codeSegment_eq _ (by rw [scanned.length]; omega), ?_⟩
  rw [Bool.not_eq_true', ← Bool.not_eq_true, scanned.marks, not_and_or, not_not]
  exact ⟨fun either => either.resolve_left (by omega), .inr⟩

end Bitmap

end CuteEVM
