import CuteEVM.Proofs.Effects
import CuteEVM.Proofs.Powers
import CuteEVM.Rlp.Writing

set_option autoImplicit false

-- `ReadBits` goes through the machine words of a number from the low end and stops when the number or the buffer does.

namespace CuteEVM

section ReadBits

variable {buf : Bytes} {i : Nat}

theorem readWord_eq (rounds : Nat) (inside : i ≤ buf.length) (d : Nat) :
    readWord rounds (buf, i) d =
      (buf.take (i - min rounds i) ++ BigEndian.write (min rounds i) d ++ buf.drop i, i - min rounds i) := by
  induction rounds generalizing buf i d with
  | zero => simp [readWord, BigEndian.write]
  | succ rounds ih =>
    cases i with
    | zero => simp [readWord, BigEndian.write]
    | succ i =>
      have within : i < buf.length := inside
      have count : min (rounds + 1) (i + 1) = min rounds i + 1 := by omega
      have low : (buf.set i (UInt8.ofNat (d % 256))).drop i = UInt8.ofNat (d % 256) :: buf.drop (i + 1) := by
        rw [List.drop_eq_getElem_cons (by rw [List.length_set]; exact within), List.getElem_set_self,
          List.drop_set_of_lt (by omega)]
      have high : (buf.set i (UInt8.ofNat (d % 256))).take (i - min rounds i) = buf.take (i - min rounds i) :=
        List.take_set_of_le (by omega)
      have place : i + 1 - (min rounds i + 1) = i - min rounds i := by omega
      rw [readWord, ih (by rw [List.length_set]; omega), low, high, count, place, BigEndian.write]
      simp only [List.append_assoc, List.singleton_append]

theorem write_word {wordBytes room d rest : Nat} (small : d < 256 ^ wordBytes) (more : Nat) (full : room < wordBytes → more = 0)
    (part : room ≤ wordBytes) :
    BigEndian.write (more + room) (d + 256 ^ wordBytes * rest) = BigEndian.write more rest ++ BigEndian.write room d := by
  have multiple : 256 ^ wordBytes = 256 ^ room * 256 ^ (wordBytes - room) := by
    rw [← pow_add]
    congr 1
    omega
  have low : BigEndian.write room (d + 256 ^ wordBytes * rest) = BigEndian.write room d := by
    rw [← BigEndian.write_mod, multiple, Nat.mul_assoc, Nat.add_mul_mod_self_left, BigEndian.write_mod]
  rw [BigEndian.write_split, low]
  by_cases short : room < wordBytes
  · rw [full short]
    rfl
  · obtain rfl : room = wordBytes := by omega
    rw [Nat.add_mul_div_left _ _ (Nat.pow_pos (by decide)), Nat.div_eq_of_lt small, Nat.zero_add]

theorem readWords_eq (wordBytes : Nat) {words : List Nat} (small : ∀ word ∈ words, word < 256 ^ wordBytes)
    (inside : i ≤ buf.length) :
    words.foldl (readWord wordBytes) (buf, i) =
      (buf.take (i - min (wordBytes * words.length) i) ++
        BigEndian.write (min (wordBytes * words.length) i) (Nat.ofDigits (256 ^ wordBytes) words) ++ buf.drop i,
        i - min (wordBytes * words.length) i) := by
  induction words generalizing buf i with
  | nil => simp [BigEndian.write]
  | cons d words ih =>
    have small_d := small d List.mem_cons_self
    have later : ∀ word ∈ words, word < 256 ^ wordBytes := fun word member => small word (List.mem_cons_of_mem _ member)
    -- The first word takes its place at the end, the others come before it.
    let first := min wordBytes i
    let others := min (wordBytes * words.length) (i - first)
    have total : min (wordBytes * (d :: words).length) i = others + first := by
      simp only [List.length_cons, Nat.mul_succ, others, first]
      omega
    have length : (buf.take (i - first) ++ BigEndian.write first d ++ buf.drop i).length = buf.length := by
      simp only [List.length_append, List.length_take, List.length_drop, BigEndian.write_length, first]
      omega
    have head : (buf.take (i - first)).length = i - first := by
      rw [List.length_take]
      omega
    have high : (buf.take (i - first) ++ BigEndian.write first d ++ buf.drop i).take (i - first - others) =
        buf.take (i - first - others) := by
      rw [List.append_assoc, List.take_append_of_le_length (by omega), List.take_take, Nat.min_eq_left (by omega)]
    have low : (buf.take (i - first) ++ BigEndian.write first d ++ buf.drop i).drop (i - first) =
        BigEndian.write first d ++ buf.drop i := by
      rw [List.append_assoc, List.drop_left' head]
    have place : i - (others + first) = i - first - others := by omega
    rw [List.foldl_cons, readWord_eq wordBytes inside d]
    rw [ih later (by rw [length]; omega), high, low, total, place, Nat.ofDigits_cons]
    rw [write_word small_d others (by simp only [others, first]; omega) (by omega)]
    simp only [List.append_assoc]
    rfl

theorem readBits_zeros {wordBytes : Nat} (positive : 0 < wordBytes) (bigint : Int) (length : Nat) :
    readBits wordBytes bigint (List.replicate length 0) = BigEndian.write length bigint.natAbs := by
  have scale : 2 ^ (8 * wordBytes) = 256 ^ wordBytes := by rw [Nat.pow_mul]
  have small := machineWords_small (show 0 < 8 * wordBytes by omega) bigint
  have value := ofDigits_machineWords (8 * wordBytes) bigint
  rw [scale] at small value
  rw [readBits, List.length_replicate, readWords_eq wordBytes small (by rw [List.length_replicate]), value]
  generalize taken : wordBytes * (machineWords (8 * wordBytes) bigint).length = count
  dsimp only
  rw [List.take_replicate, List.drop_replicate, Nat.sub_self, List.replicate_zero, List.append_nil, Nat.min_eq_left (by omega)]
  by_cases long : length ≤ count
  · rw [Nat.min_eq_right long, Nat.sub_self, List.replicate_zero, List.nil_append]
  · -- The words end before the buffer does.
    have fits : bigint.natAbs < 256 ^ count := by
      have bound := Nat.lt_base_pow_length_digits (b := 2 ^ (8 * wordBytes)) (m := bigint.natAbs)
        (Nat.one_lt_two_pow (by omega))
      rw [scale, ← Nat.pow_mul] at bound
      rw [← taken, machineWords, scale]
      exact bound
    have filled := BigEndian.write_add fits (length - count)
    rw [Nat.min_eq_left (by omega), ← filled, Nat.sub_add_cancel (by omega)]

end ReadBits

section Splices

variable {store bytes : Bytes} {offset : Nat}

theorem splice_take (store bytes : Bytes) {offset : Nat} (inside : offset ≤ store.length) :
    (splice store offset bytes).take offset = store.take offset := by
  have length : (store.take offset).length = offset := by rw [List.length_take, Nat.min_eq_left inside]
  rw [splice, List.append_assoc, List.take_left' length]

theorem splice_drop (fits : offset + bytes.length ≤ store.length) :
    (splice store offset bytes).drop offset = bytes ++ store.drop (offset + bytes.length) := by
  have length : (store.take offset).length = offset := by rw [List.length_take]; omega
  rw [splice, List.append_assoc, List.drop_left' length]

theorem splice_splice {first : Bytes} (same : first.length = bytes.length) (fits : offset + bytes.length ≤ store.length) :
    splice (splice store offset first) offset bytes = splice store offset bytes := by
  have tail : (splice store offset first).drop (offset + bytes.length) = store.drop (offset + bytes.length) := by
    rw [← List.drop_drop, splice_drop (by omega), List.drop_left' same, same]
  rw [splice, tail, splice_take store first (by omega)]
  rfl

theorem getElem?_splice (fits : offset + bytes.length ≤ store.length) (i : Nat) :
    (splice store offset bytes)[i]? =
      if offset ≤ i ∧ i < offset + bytes.length then bytes[i - offset]? else store[i]? := by
  have length : (store.take offset).length = offset := by rw [List.length_take]; omega
  rw [splice, List.append_assoc, List.getElem?_append, length]
  by_cases before : i < offset
  · rw [if_pos before, if_neg (by omega), List.getElem?_take_of_lt before]
  · rw [if_neg before, List.getElem?_append]
    by_cases within : i < offset + bytes.length
    · rw [if_pos (by omega), if_pos ⟨by omega, within⟩]
    · rw [if_neg (by omega), if_neg (by omega), List.getElem?_drop]
      congr 1
      omega

end Splices

theorem Memory.resize_getD (m : Memory) (size i : Nat) : (m.resize size).store.getD i 0 = m.store.getD i 0 := by
  unfold Memory.resize
  split
  · simp only [List.getD_eq_getElem?_getD, List.getElem?_append, List.getElem?_replicate]
    split
    · rfl
    · rw [List.getElem?_eq_none (show m.store.length ≤ i by omega)]
      split <;> rfl
  · rfl

theorem set32Words_eq {wordBytes : Nat} (positive : 0 < wordBytes) (m : Memory) (offset : Nat) (val : Int) :
    m.set32Words wordBytes offset val = m.set32 offset val := by
  unfold Memory.set32Words Memory.set32
  split
  · rfl
  · next within =>
    split
    · rfl
    · next above =>
      have sum : add64 offset 32 = offset + 32 := by
        unfold add64 at within above ⊢
        omega
      have zeros : (List.replicate 32 (0 : UInt8)).length = 32 := List.length_replicate
      have range : ((splice m.store offset (List.replicate 32 0)).drop offset).take 32 = List.replicate 32 0 := by
        rw [splice_drop (by rw [zeros]; omega), List.take_left' zeros]
      dsimp only
      rw [range, readBits_zeros positive, bigEndian_eq, splice_splice (by rw [zeros, BigEndian.write_length])
        (by rw [BigEndian.write_length]; omega)]

end CuteEVM
