import CuteEVM.VM.Words
import CuteEVM.Rlp.Writing

set_option autoImplicit false

-- `getData` and `getDataBig` select the bytes of a range that are there and put zeros for the others.

namespace CuteEVM

-- `data[min(start, len) : min(min(start, len) + size, len)]`, without wrap-around.
def chosen (data : Bytes) (start size : Nat) : Bytes :=
  let first := min start data.length
  let last := min (first + size) data.length
  (data.drop first).take (last - first)

-- The number in a range of the data, bytes past the end counting as zero.
def field (data : Bytes) (start size : Nat) : Nat := setBytes ((List.range size).map fun i => data.getD (start + i) 0)

section Reading

variable {data : Bytes} {start size : Nat}

theorem intLength_eq (small : size < 2 ^ 63) : intLength size = size := if_pos small

theorem rightPadBytes_ok {bytes : Bytes} {l : Nat} (fits : l ≤ maxAlloc) : rightPadBytes bytes l = .ok (rightPadded bytes l) :=
  if_pos (.inr fits)

theorem leftPadBytes_ok {bytes : Bytes} {l : Nat} (fits : l ≤ maxAlloc) : leftPadBytes bytes l = .ok (leftPadded bytes l) :=
  if_pos (.inr fits)

theorem chosen_length (data : Bytes) (start size : Nat) : (chosen data start size).length ≤ data.length := by
  simp only [chosen, List.length_take, List.length_drop]
  omega

theorem getData_eq (fits : min start data.length + size < 2 ^ 64) :
    getData data start size = rightPadBytes (chosen data start size) (intLength size) := by
  have first : (if start > data.length then data.length else start) = min start data.length := by
    split <;> omega
  have last : (if add64 (min start data.length) size > data.length then data.length else add64 (min start data.length) size) =
      min (min start data.length + size) data.length := by
    rw [add64_eq fits]
    split <;> omega
  unfold getData
  dsimp only
  rw [first, last, slice, if_pos (by omega)]
  rfl

theorem getData_wraps (small : start < 2 ^ 64) (limit : size < 2 ^ 64) (wraps : 2 ^ 64 ≤ min start data.length + size) :
    getData data start size = .error .sliceBounds := by
  have first : (if start > data.length then data.length else start) = min start data.length := by
    split <;> omega
  have last : add64 (min start data.length) size = min start data.length + size - 2 ^ 64 := by
    unfold add64
    omega
  unfold getData
  dsimp only
  rw [first, last, if_neg (by omega), slice, if_neg (by omega)]
  rfl

theorem getDataBig_eq (short : data.length < 2 ^ 63) (limit : size < 2 ^ 64) :
    getDataBig data start size = rightPadBytes (chosen data start size) (intLength size) := by
  have first : uint64 (min (start : Int) data.length) = min start data.length := by
    unfold uint64
    omega
  have last : uint64 (min (min (start : Int) data.length + size) data.length) =
      min (min start data.length + size) data.length := by
    unfold uint64
    omega
  have length : uint64 size = size := by
    unfold uint64
    omega
  unfold getDataBig
  dsimp only
  rw [first, last, length, slice, if_pos (by omega)]
  rfl

theorem chosen_padded (data : Bytes) (start size : Nat) :
    rightPadded (chosen data start size) size = (List.range size).map fun i => data.getD (start + i) 0 := by
  unfold rightPadded chosen
  dsimp only
  apply List.ext_getElem
  · simp only [List.length_append, List.length_take, List.length_drop, List.length_replicate, List.length_map, List.length_range]
    omega
  · intro i inside short
    have below : i < size := by simpa using short
    rw [List.getElem_map, List.getElem_range, List.getElem_append]
    split
    · next there =>
      simp only [List.length_take, List.length_drop] at there
      rw [List.getElem_take, List.getElem_drop, List.getD_eq_getElem _ _ (by omega)]
      congr 2
      omega
    · next past =>
      simp only [List.length_take, List.length_drop] at past
      rw [List.getElem_replicate, List.getD_eq_default _ _ (by omega)]

-- A byte slice of the program has at most `maxAlloc` bytes.
theorem chosen_pads_iff (short : data.length ≤ maxAlloc) {l : Nat} :
    rightPadBytes (chosen data start size) l = .ok (rightPadded (chosen data start size) l) ↔ l ≤ maxAlloc := by
  have length := chosen_length data start size
  refine ⟨fun padded => ?_, rightPadBytes_ok⟩
  by_contra huge
  rw [rightPadBytes, if_neg (by omega)] at padded
  cases padded

theorem getData_field (small : size ≤ maxAlloc) (fits : min start data.length + size < 2 ^ 64) :
    ∃ bytes, getData data start size = .ok bytes ∧ bytes.length = size ∧ setBytes bytes = field data start size := by
  have signed : intLength size = size := intLength_eq (by unfold maxAlloc at small; omega)
  refine ⟨_, by rw [getData_eq fits, signed, rightPadBytes_ok small], ?_, ?_⟩
  · rw [chosen_padded, List.length_map, List.length_range]
  · rw [chosen_padded]
    rfl

end Reading

end CuteEVM
