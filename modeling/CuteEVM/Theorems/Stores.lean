import CuteEVM.Proofs.Memory
import CuteEVM.Proofs.Stores
import CuteEVM.Theorems.Gas

set_option autoImplicit false

-- Memory behaves as an unbounded map of bytes that is zero at first.

namespace CuteEVM

open CallTree Exec

inductive Write where
  | resize (size : Nat)
  | set (offset size : Nat) (value : Bytes) (fits : size < 2 ^ 64)
  | set32 (offset : Nat) (val : Int)
  | storeByte (off : Int) (value : UInt8)

namespace Write

def run (wordBytes : Nat) (m : Memory) : Write → Except Panic Memory
  | .resize size => .ok (m.resize size)
  | .set offset size value _ => m.set offset size value
  | .set32 offset val => m.set32Words wordBytes offset val
  | .storeByte off value => m.storeByte off value

def byteAt (i : Nat) : Write → Option UInt8
  | .resize _ => none
  | .set offset size value _ => if offset ≤ i ∧ i < offset + size then value[i - offset]? else none
  | .set32 offset val => if offset ≤ i ∧ i < offset + 32 then (bigEndian 32 val.natAbs)[i - offset]? else none
  | .storeByte off value => if off = i then some value else none

-- What is at a position after some writes: the last byte that was put there, or zero.
def contents (writes : List Write) (i : Nat) : UInt8 := writes.foldl (fun byte write => (write.byteAt i).getD byte) 0

variable {wordBytes : Nat} {m m' : Memory}

theorem getD_splice {store bytes : Bytes} {offset : Nat} (fits : offset + bytes.length ≤ store.length) (i : Nat) :
    (splice store offset bytes).getD i 0 =
      ((if offset ≤ i ∧ i < offset + bytes.length then bytes[i - offset]? else none).getD (store.getD i 0)) := by
  rw [List.getD_eq_getElem?_getD, getElem?_splice fits]
  split
  · next inside =>
    rw [List.getElem?_eq_getElem (by omega)]
    rfl
  · rw [List.getD_eq_getElem?_getD]
    rfl

theorem set_byteAt {offset size : Nat} {value : Bytes} (fits : size < 2 ^ 64) (done : m.set offset size value = .ok m') (i : Nat) :
    m'.store.getD i 0 = ((Write.set offset size value fits).byteAt i).getD (m.store.getD i 0) := by
  unfold Memory.set at done
  rw [byteAt]
  split at done
  · split at done
    · cases done
    · split at done
      · cases done
      · next within above =>
        cases done
        have sum : add64 offset size = offset + size := by
          unfold add64 at within above ⊢
          omega
        have length : (value.take size).length = min size value.length := List.length_take
        rw [getD_splice (by omega)]
        -- A value that is shorter than the range leaves the rest of it as it was.
        by_cases inside : offset ≤ i ∧ i < offset + size
        · rw [if_pos inside]
          by_cases there : i - offset < value.length
          · rw [if_pos (by omega), List.getElem?_take_of_lt (by omega)]
          · rw [if_neg (by omega), List.getElem?_eq_none (by omega)]
        · rw [if_neg inside, if_neg (by omega)]
  · next empty =>
    cases done
    rw [if_neg (by omega)]
    rfl

theorem set32_byteAt {offset : Nat} {val : Int} (done : m.set32 offset val = .ok m') (i : Nat) :
    m'.store.getD i 0 = ((Write.set32 offset val).byteAt i).getD (m.store.getD i 0) := by
  unfold Memory.set32 at done
  split at done
  · cases done
  · split at done
    · cases done
    · next within above =>
      cases done
      have sum : add64 offset 32 = offset + 32 := by
        unfold add64 at within above ⊢
        omega
      have length := bigEndian_length 32 val.natAbs
      rw [getD_splice (by omega), length]
      rfl

theorem storeByte_byteAt {off : Int} {value : UInt8} (done : m.storeByte off value = .ok m') (i : Nat) :
    m'.store.getD i 0 = ((Write.storeByte off value).byteAt i).getD (m.store.getD i 0) := by
  unfold Memory.storeByte at done
  rw [byteAt]
  split at done
  · next inside =>
    cases done
    rw [List.getD_eq_getElem?_getD, List.getElem?_set]
    by_cases same : off = i
    · rw [if_pos (by omega), if_pos (by omega), if_pos same]
      rfl
    · rw [if_neg (by omega), if_neg same, List.getD_eq_getElem?_getD]
      rfl
  · cases done

theorem run_byteAt (positive : 0 < wordBytes) {write : Write} (done : write.run wordBytes m = .ok m') (i : Nat) :
    m'.store.getD i 0 = (write.byteAt i).getD (m.store.getD i 0) := by
  cases write with
  | resize size =>
    cases done
    exact m.resize_getD size i
  | set offset size value fits => exact set_byteAt fits done i
  | set32 offset val =>
    rw [run, set32Words_eq positive] at done
    exact set32_byteAt done i
  | storeByte off value => exact storeByte_byteAt done i

theorem runs_contents (positive : 0 < wordBytes) (writes : List Write) (done : writes.foldlM (run wordBytes) m = .ok m')
    (i : Nat) :
    m'.store.getD i 0 = writes.foldl (fun byte write => (write.byteAt i).getD byte) (m.store.getD i 0) := by
  induction writes generalizing m with
  | nil =>
    cases done
    rfl
  | cons write writes ih =>
    rw [List.foldlM_cons] at done
    cases first : write.run wordBytes m with
    | error fault =>
      rw [first] at done
      cases done
    | ok mid =>
      rw [first] at done
      rw [ih done, List.foldl_cons, run_byteAt positive first]

theorem contents_untouched {writes : List Write} {i : Nat} (untouched : ∀ write ∈ writes, write.byteAt i = none) :
    contents writes i = 0 := by
  unfold contents
  induction writes with
  | nil => rfl
  | cons write writes ih =>
    rw [List.foldl_cons, untouched write List.mem_cons_self]
    exact ih fun other member => untouched other (List.mem_cons_of_mem _ member)

end Write

section Instructions

variable {fr : Frame} {offset value : Int} {rest : Stack}

theorem opMstore_eq {m : Memory} (shape : fr.stack = offset :: value :: rest)
    (stored : fr.memory.set32 (uint64 offset) value = .ok m) :
    ∃ fr', opMstore fr = .ret (.ok [], fr') ∧ fr'.stack = rest ∧ fr'.memory = m := by
  obtain ⟨fr', recorded, memory, stack⟩ := record_keeps (uint64 offset) 32 { fr with stack := rest }
  refine ⟨{ fr' with memory := m }, ?_, stack, rfl⟩
  simp only [opMstore, memorySet32, bind_apply, pop, shape, Prog.bind_ret, recorded, changeMemory, memory, stored, done,
    pure_apply]

theorem opMstore8_eq {m : Memory} (shape : fr.stack = offset :: value :: rest)
    (stored : fr.memory.storeByte (int64 offset) (UInt8.ofNat (int64 value % 256).toNat) = .ok m) :
    ∃ fr', opMstore8 fr = .ret (.ok [], fr') ∧ fr'.stack = rest ∧ fr'.memory = m := by
  obtain ⟨fr', recorded, memory, stack⟩ := record_keeps (int64 offset) 1 { fr with stack := rest }
  refine ⟨{ fr' with memory := m }, ?_, stack, rfl⟩
  simp only [opMstore8, memoryStore, bind_apply, pop, shape, Prog.bind_ret, recorded, changeMemory, memory, stored, done,
    pure_apply]

theorem opMload_eq {bytes : Bytes} (shape : fr.stack = offset :: rest) (loaded : fr.memory.get (int64 offset) 32 = .ok bytes) :
    ∃ fr', opMload fr = .ret (.ok [], fr') ∧ fr'.stack = (setBytes bytes : Int) :: rest ∧ fr'.memory = fr.memory := by
  obtain ⟨fr', recorded, memory, stack⟩ := record_keeps (int64 offset) 32 { fr with stack := rest }
  refine ⟨{ fr' with stack := (setBytes bytes : Int) :: fr'.stack }, ?_, by rw [stack], memory⟩
  simp only [opMload, memoryGet, bind_apply, pop, shape, Prog.bind_ret, recorded, get_apply, memory, lift, loaded, push_apply,
    done, pure_apply]

theorem int64_low (value : Int) : int64 value % 256 = value % 256 := by
  unfold int64
  rw [Int.bmod_def]
  omega

end Instructions

section Words

variable {m : Memory} {offset value : Int}

theorem set32_inside (low : 0 ≤ offset) (high : offset + 32 ≤ m.store.length) (short : m.store.length < 2 ^ 63) (value : Int) :
    m.set32 (uint64 offset) value = .ok { m with store := splice m.store offset.toNat (bigEndian 32 value.natAbs) } := by
  have place : uint64 offset = offset.toNat := by
    unfold uint64
    omega
  have sum : add64 offset.toNat 32 = offset.toNat + 32 := add64_eq (by omega)
  rw [place, Memory.set32, sum, if_neg (by omega), if_neg (by omega)]

theorem storeByte_inside (low : 0 ≤ offset) (high : offset < m.store.length) (short : m.store.length < 2 ^ 63) (value : Int) :
    m.storeByte (int64 offset) (UInt8.ofNat (int64 value % 256).toNat) =
      .ok { m with store := m.store.set offset.toNat (UInt8.ofNat (value % 256).toNat) } := by
  rw [int64_eq low (by omega), int64_low, Memory.storeByte, if_pos ⟨low, high⟩]

theorem get_spliced {store bytes : Bytes} (length : bytes.length = 32) (low : 0 ≤ offset) (high : offset + 32 ≤ store.length)
    (short : store.length < 2 ^ 63) (cost : Nat) :
    Memory.get ⟨splice store offset.toNat bytes, cost⟩ (int64 offset) 32 = .ok bytes := by
  have size : (splice store offset.toNat bytes).length = store.length := splice_length (by omega)
  rw [int64_eq low (by omega), Memory.get, if_neg (by decide)]
  dsimp only
  rw [size, if_pos (by omega), if_pos ⟨low, by decide, high⟩, splice_drop (by omega)]
  exact congrArg _ (List.take_left' length)

end Words

theorem memory_words (wordBytes : Nat) (positive : 0 < wordBytes) :
    (∀ (fr : Frame) (offset value : Int) (rest : Stack), fr.stack = offset :: value :: rest → fr.memory.store.length < 2 ^ 63 →
      0 ≤ value → value < 2 ^ 256 →
      -- MSTORE, and MLOAD at the same offset of any frame with that memory
      (0 ≤ offset → offset + 32 ≤ fr.memory.store.length → ∃ fr', opMstore fr = .ret (.ok [], fr') ∧ fr'.stack = rest ∧
        fr.memory.set32Words wordBytes (uint64 offset) value = .ok fr'.memory ∧
        fr'.memory.store.length = fr.memory.store.length ∧
        (fr'.memory.store.drop offset.toNat).take 32 = bigEndian 32 value.toNat ∧
        (∀ i : Nat, i < offset ∨ offset + 32 ≤ i → fr'.memory.store[i]? = fr.memory.store[i]?) ∧
        ∀ (later : Frame) (below : Stack), later.memory = fr'.memory → later.stack = offset :: below →
          ∃ last, opMload later = .ret (.ok [], last) ∧ last.stack = value :: below ∧ last.memory = later.memory) ∧
      (0 ≤ offset → offset < fr.memory.store.length → ∃ fr', opMstore8 fr = .ret (.ok [], fr') ∧ fr'.stack = rest ∧
        fr'.memory.store = fr.memory.store.set offset.toNat (UInt8.ofNat (value % 256).toNat))) ∧
    -- any sequence of expansions and writes, from the empty memory on
    ∀ (writes : List Write) (m : Memory), writes.foldlM (Write.run wordBytes) {} = .ok m → ∀ i, i < m.store.length →
      m.store[i]? = some (Write.contents writes i) ∧ ((∀ write ∈ writes, write.byteAt i = none) → m.store[i]? = some 0) := by
  refine ⟨fun fr offset value rest shape short nonneg small => ⟨fun low high => ?_, fun low high => ?_⟩,
    fun writes m done i inside => ?_⟩
  · have stored := set32_inside low high short value
    have length := bigEndian_length 32 value.natAbs
    have same : value.natAbs = value.toNat := by omega
    obtain ⟨fr', ran, stack, memory⟩ := opMstore_eq shape stored
    refine ⟨fr', ran, stack, ?_, ?_, ?_, fun i outside => ?_, fun later below held top => ?_⟩
    · rw [set32Words_eq positive, stored, memory]
    · rw [memory]
      exact splice_length (by omega)
    · rw [memory]
      dsimp only
      rw [splice_drop (by omega), ← same]
      exact List.take_left' length
    · rw [memory]
      exact (getElem?_splice (by omega) i).trans (if_neg (by omega))
    · have loaded : later.memory.get (int64 offset) 32 = .ok (bigEndian 32 value.natAbs) := by
        rw [held, memory]
        exact get_spliced length low high short _
      obtain ⟨last, read, words, kept⟩ := opMload_eq top loaded
      refine ⟨last, read, ?_, kept⟩
      rw [words, bigEndian_eq, setBytes_eq, BigEndian.read_write (by omega), same, Int.toNat_of_nonneg nonneg]
  · obtain ⟨fr', ran, stack, memory⟩ := opMstore8_eq shape (storeByte_inside low high short value)
    exact ⟨fr', ran, stack, by rw [memory]⟩
  · have there := Write.runs_contents positive writes done i
    rw [List.getD_eq_getElem _ _ inside] at there
    have found : m.store[i]? = some (Write.contents writes i) := by
      rw [List.getElem?_eq_getElem inside, there]
      rfl
    exact ⟨found, fun untouched => by rw [found, Write.contents_untouched untouched]⟩

def aboutToStore : Frame where
  evm := { db := sampleState returnFive }
  contract := { callerAddress := 1, self := 0x100, gas := 1000, value := 0 }
  memory := { store := List.replicate 32 0 }
  stack := [0, 5]

theorem memory_words_sample : (∃ fr', opMstore aboutToStore = .ret (.ok [], fr') ∧ fr'.memory.store.take 32 = bigEndian 32 5) ∧
    (Memory.resize {} 32).store[7]? = some 0 := by
  obtain ⟨words, history⟩ := memory_words 8 (by decide)
  obtain ⟨fr', stored, -, -, -, contents, -⟩ :=
    (words aboutToStore 0 5 [] rfl (by decide) (by decide) (by decide)).1 (by decide) (by decide)
  exact ⟨⟨fr', stored, contents⟩, (history [.resize 32] (Memory.resize {} 32) rfl 7 (by decide)).2 (by simp [Write.byteAt])⟩

end CuteEVM
