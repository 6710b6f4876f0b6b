import CuteEVM.State.Snapshot
import CuteEVM.VM.EVM

set_option autoImplicit false

-- One relation says what every instruction but the calls and `SELFDESTRUCT` leaves alone.

namespace CuteEVM

open CallTree

variable {m : Memory}

section Runs

variable {α β : Type}

@[simp] theorem Exec.bind_apply (first : Exec α) (next : α → Exec β) (fr : Frame) :
    (first >>= next) fr = (first fr).bind fun
      | (.ok value, fr) => next value fr
      | (.error err, fr) => .ret (.error err, fr) := rfl

@[simp] theorem Exec.pure_apply (value : α) (fr : Frame) : (pure value : Exec α) fr = .ret (.ok value, fr) := rfl

@[simp] theorem Exec.fail_apply (err : Err) (fr : Frame) :
    (Exec.fail err : Exec α) fr = .ret (.error err, fr) := rfl

@[simp] theorem Exec.get_apply (fr : Frame) : Exec.get fr = .ret (.ok fr, fr) := rfl

@[simp] theorem Exec.modify_apply (change : Frame → Frame) (fr : Frame) :
    Exec.modify change fr = .ret (.ok (), change fr) := rfl

@[simp] theorem Exec.push_apply (word : Int) (fr : Frame) :
    Exec.push word fr = .ret (.ok (), { fr with stack := word :: fr.stack }) := rfl

theorem Exec.pop_apply {fr : Frame} {word : Int} {rest : Stack} (shape : fr.stack = word :: rest) :
    Exec.pop fr = .ret (.ok word, { fr with stack := rest }) := by
  simp [Exec.pop, shape]

theorem Exec.back_apply {fr : Frame} {n : Nat} {word : Int} (found : fr.stack[n]? = some word) :
    Exec.back n fr = .ret (.ok word, fr) := by
  simp [Exec.back, found]

@[simp] theorem Exec.readDb_apply (read : StateDB → α × StateDB) (fr : Frame) :
    Exec.readDb read fr =
      .ret (.ok (read fr.evm.db).1, { fr with evm := { fr.evm with db := (read fr.evm.db).2 } }) := rfl

@[simp] theorem Exec.writeDb_apply (write : StateDB → StateDB) (fr : Frame) :
    Exec.writeDb write fr = .ret (.ok (), { fr with evm := { fr.evm with db := write fr.evm.db } }) := rfl

theorem Exec.sat_bind {spec : Spec Invocation Reply Panic} {good : Except Err β × Frame → Prop}
    {mid : Except Err α × Frame → Prop} {first : Exec α} {next : α → Exec β} {fr : Frame}
    (head : (first fr).Sat spec mid) (tail : ∀ value fr', mid (.ok value, fr') → (next value fr').Sat spec good)
    (errors : ∀ err fr', mid (.error err, fr') → good (.error err, fr')) :
    ((first >>= next) fr).Sat spec good := by
  refine head.bind ?_
  rintro ⟨value | err, fr'⟩ reached
  · exact errors _ _ reached
  · exact tail _ _ reached

end Runs

def memoryLimit : Nat := 0x1FFFFFFFE0

namespace Access

def InRange (access : Access) : Prop :=
  0 ≤ access.offset ∧ 0 < access.size ∧ access.offset + access.size ≤ access.length

end Access

def Logged (old new : List Access) : Prop := ∀ access ∈ new, access ∈ old ∨ access.InRange

theorem Logged.refl (log : List Access) : Logged log log := fun _ member => .inl member

theorem Logged.trans {first second third : List Access} (before : Logged first second)
    (after : Logged second third) : Logged first third := by
  intro access member
  rcases after access member with older | fits
  · exact before access older
  · exact .inr fits

theorem Logged.cons {access : Access} (log : List Access) (fits : access.InRange) :
    Logged log (access :: log) := by
  intro other member
  rcases List.mem_cons.mp member with rfl | older
  · exact .inr fits
  · exact .inl older

section Effects

variable [Crypto]

-- An effect on the state that moves no ether. Without `writes` nothing shows but new empty accounts.
structure Gentle (writes : Bool) (s s' : StateDB) : Prop where
  evolves : Evolves s s'
  balances : s'.balances = s.balances
  quiet : writes = false → s.world.Quiet s'.world

theorem Reads.gentle {s s' : StateDB} (reads : Reads s s') (writes : Bool) : Gentle writes s s' :=
  ⟨reads.evolves, reads.balances, fun _ => reads.quiet⟩

theorem Gentle.refl {s : StateDB} (valid : Valid s) (writes : Bool) : Gentle writes s s :=
  (Reads.refl valid).gentle writes

theorem Gentle.trans {writes : Bool} {s t u : StateDB} (first : Gentle writes s t) (second : Gentle writes t u) :
    Gentle writes s u where
  evolves := first.evolves.trans second.evolves
  balances := second.balances.trans first.balances
  quiet := fun silent => (first.quiet silent).trans (second.quiet silent)

def Frame.Nonneg (fr : Frame) : Prop := ∀ word ∈ fr.stack, 0 ≤ word

structure Frame.Funded (fr : Frame) : Prop where
  words : fr.Nonneg
  value : 0 ≤ fr.contract.value
  balances : ∀ a, 0 ≤ fr.evm.db.balances a

def Err.ofRun : Err → Bool
  | .depth => false
  | .insufficientBalance => false
  | .contractAddressCollision => false
  | .codeStoreOutOfGas => false
  | .maxCodeSizeExceeded => false
  | _ => true

structure Local (writes : Bool) (fr : Frame) (result : Except Err Bytes) (fr' : Frame) : Prop where
  contract : fr'.contract = { fr.contract with analysis := fr'.contract.analysis }
  evm : fr'.evm = { fr.evm with
    db := fr'.evm.db
    jumpdests := fr'.evm.jumpdests
    trace := { fr.evm.trace with accesses := fr'.evm.trace.accesses } }
  resets : fr'.resets = fr.resets
  memory : fr'.memory.store.length = fr.memory.store.length
  logged : Logged fr.evm.trace.accesses fr'.evm.trace.accesses
  height : fr'.stack.length ≤ StackLimit
  words : fr.Funded → fr'.Nonneg
  db : Valid fr.evm.db → Gentle writes fr.evm.db fr'.evm.db
  ret : ∀ res, result = .ok res → res.length ≤ fr.memory.store.length
  err : ∀ err, result = .error err → err.ofRun = true

def localSpec : Spec Invocation Reply Panic where
  pre := fun _ => False
  post := fun _ _ => False
  safe := fun fault => fault = .sliceBounds

theorem Local.of_stack (writes : Bool) {fr : Frame} {stack : Stack} (pc : Nat)
    (height : stack.length ≤ StackLimit) (words : fr.Funded → ∀ word ∈ stack, 0 ≤ word) :
    Local writes fr (.ok []) { fr with stack := stack, pc := pc } where
  contract := rfl
  evm := rfl
  resets := rfl
  memory := rfl
  logged := .refl _
  height := height
  words := words
  db := fun valid => .refl valid writes
  ret := by rintro res ⟨⟩; simp
  err := by rintro err ⟨⟩

end Effects

/-! Memory ranges -/

def Covered (offset size : Int) (m : Memory) : Prop :=
  size = 0 ∨ (0 ≤ offset ∧ 0 < size ∧ offset + size ≤ m.store.length)

theorem calcMemSize64WithUint_covers {off : Int} {length64 size : Nat}
    (asked : calcMemSize64WithUint off length64 = (size, false)) (small : length64 < 2 ^ 64)
    (resized : size ≤ m.store.length) : Covered off length64 m := by
  unfold calcMemSize64WithUint at asked
  split at asked
  · next empty => exact .inl (by omega)
  · split at asked
    · simp at asked
    · next nonempty fits =>
      have range := (isUint64_iff off).mp (by simpa using fits)
      have same := uint64_eq range.1 range.2
      obtain ⟨total, above⟩ := Prod.mk.inj asked
      have above := of_decide_eq_false above
      unfold add64 at total above
      refine .inr ⟨range.1, by omega, by omega⟩

theorem calcMemSize64_covers {off l : Int} {size : Nat} (asked : calcMemSize64 off l = (size, false))
    (resized : size ≤ m.store.length) : Covered off l m := by
  unfold calcMemSize64 at asked
  split at asked
  · simp at asked
  · next fits =>
    have range := (isUint64_iff l).mp (by simpa using fits)
    have same := uint64_eq range.1 range.2
    rw [← same]
    exact calcMemSize64WithUint_covers asked (uint64_lt l) resized

theorem Covered.int64 {offset size : Int} (covered : Covered offset size m)
    (limit : m.store.length ≤ memoryLimit) : Covered (int64 offset) (int64 size) m := by
  unfold memoryLimit at limit
  rcases covered with rfl | ⟨low, nonempty, high⟩
  · exact .inl rfl
  · rw [int64_eq low (by omega), int64_eq (Int.le_of_lt nonempty) (by omega)]
    exact .inr ⟨low, nonempty, high⟩

theorem Covered.uint64 {offset size : Int} (covered : Covered offset size m)
    (limit : m.store.length ≤ memoryLimit) : Covered (uint64 offset) (uint64 size) m := by
  unfold memoryLimit at limit
  rcases covered with rfl | ⟨low, nonempty, high⟩
  · exact .inl rfl
  · rw [uint64_eq low (by omega), uint64_eq (Int.le_of_lt nonempty) (by omega)]
    exact .inr ⟨low, nonempty, high⟩

def Touched (fr fr' : Frame) : Prop :=
  ∃ memory accesses,
    fr' = { fr with memory := memory, evm := { fr.evm with trace := { fr.evm.trace with accesses := accesses } } } ∧
    memory.store.length = fr.memory.store.length ∧ Logged fr.evm.trace.accesses accesses

theorem record_touched {fr : Frame} {offset size : Int} (covered : Covered offset size fr.memory) :
    ∃ fr', Exec.record offset size fr = .ret (.ok (), fr') ∧ fr'.memory = fr.memory ∧ Touched fr fr' := by
  rcases covered with rfl | ⟨low, nonempty, high⟩
  · exact ⟨fr, rfl, rfl, fr.memory, fr.evm.trace.accesses, rfl, rfl, .refl _⟩
  · have used : ¬ size = 0 := by omega
    refine ⟨{ fr with evm := { fr.evm with trace := { fr.evm.trace with
      accesses := ⟨offset, size, fr.memory.store.length⟩ :: fr.evm.trace.accesses } } }, ?_, rfl, ?_⟩
    · simp only [Exec.record, Exec.modify_apply, if_neg used]
    · exact ⟨_, _, rfl, rfl, .cons _ ⟨low, nonempty, high⟩⟩

theorem record_keeps (offset size : Int) (fr : Frame) :
    ∃ fr', Exec.record offset size fr = .ret (.ok (), fr') ∧ fr'.memory = fr.memory ∧ fr'.stack = fr.stack := by
  unfold Exec.record
  rw [Exec.modify_apply]
  refine ⟨_, rfl, ?_, ?_⟩
  · split <;> rfl
  · split <;> rfl

theorem splice_length {store bytes : Bytes} {offset : Nat} (fits : offset + bytes.length ≤ store.length) :
    (splice store offset bytes).length = store.length := by
  simp [splice]
  omega

theorem Memory.set_covered {offset size : Nat} (covered : Covered offset size m)
    (limit : m.store.length ≤ memoryLimit) (value : Bytes) :
    ∃ m', m.set offset size value = .ok m' ∧ m'.store.length = m.store.length := by
  unfold memoryLimit at limit
  unfold Memory.set
  rcases covered with empty | ⟨-, nonempty, high⟩
  · exact ⟨m, by simp [show size = 0 by omega], rfl⟩
  · have total : add64 offset size = offset + size := add64_eq (by omega)
    rw [if_pos (by omega), total, if_neg (by omega), if_neg (by omega)]
    exact ⟨_, rfl, splice_length (by simp; omega)⟩

theorem bigEndian_length (size value : Nat) : (bigEndian size value).length = size := by
  induction size generalizing value with
  | zero => rfl
  | succ size ih => simp [bigEndian, ih]

theorem Memory.set32_covered {offset : Nat} (covered : Covered offset 32 m)
    (limit : m.store.length ≤ memoryLimit) (val : Int) :
    ∃ m', m.set32 offset val = .ok m' ∧ m'.store.length = m.store.length := by
  unfold memoryLimit at limit
  unfold Memory.set32
  rcases covered with empty | ⟨-, nonempty, high⟩
  · omega
  · have total : add64 offset 32 = offset + 32 := add64_eq (by omega)
    rw [total, if_neg (by omega), if_neg (by omega)]
    exact ⟨_, rfl, splice_length (by simp [bigEndian_length]; omega)⟩

theorem Memory.get_covered {offset size : Int} (covered : Covered offset size m) :
    ∃ bytes, m.get offset size = .ok bytes ∧ bytes.length ≤ m.store.length := by
  unfold Memory.get
  rcases covered with rfl | ⟨low, nonempty, high⟩
  · exact ⟨[], by simp⟩
  · rw [if_neg (by omega), if_pos (by omega), if_pos ⟨low, by omega, high⟩]
    exact ⟨_, rfl, by simp⟩

theorem Memory.storeByte_covered {off : Int} (covered : Covered off 1 m) (value : UInt8) :
    ∃ m', m.storeByte off value = .ok m' ∧ m'.store.length = m.store.length := by
  unfold Memory.storeByte
  rcases covered with empty | ⟨low, nonempty, high⟩
  · omega
  · exact ⟨_, if_pos ⟨low, by omega⟩, by simp⟩

end CuteEVM
