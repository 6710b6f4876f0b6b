import CuteEVM.Proofs.Fees
import CuteEVM.Proofs.Step

set_option autoImplicit false

-- Gas functions move `lastGasCost` ahead, and the loop lets the memory follow. No instruction touches either.

namespace CuteEVM

open CallTree Exec

def Memory.meter (m : Memory) : Nat × Nat := (m.store.length, m.lastGasCost)

def anySpec : Spec Invocation Reply Panic where
  pre := fun _ => True
  post := fun _ _ => True
  safe := fun _ => True

def KeepsMeter {α : Type} (action : Exec α) : Prop :=
  ∀ fr, (action fr).Sat anySpec fun p => p.2.memory.meter = fr.memory.meter

namespace KeepsMeter

variable {α β : Type}

theorem pure (value : α) : KeepsMeter (Pure.pure value : Exec α) := fun _ => rfl

theorem fail (err : Err) : KeepsMeter (Exec.fail err : Exec α) := fun _ => rfl

theorem get : KeepsMeter Exec.get := fun _ => rfl

theorem bind {first : Exec α} {next : α → Exec β} (head : KeepsMeter first) (tail : ∀ value, KeepsMeter (next value)) :
    KeepsMeter (first >>= next) := by
  intro fr
  apply sat_bind (head fr)
  · intro value mid before
    exact Prog.Sat.mono (tail value mid) fun _ after => after.trans before
  · intro _ _ before
    exact before

theorem modify {change : Frame → Frame} (keeps : ∀ fr, (change fr).memory.meter = fr.memory.meter) :
    KeepsMeter (Exec.modify change) := keeps

theorem pop : KeepsMeter Exec.pop := by
  intro fr
  unfold Exec.pop
  split
  · trivial
  · rfl

theorem push (word : Int) : KeepsMeter (Exec.push word) := fun _ => rfl

theorem back (n : Nat) : KeepsMeter (Exec.back n) := by
  intro fr
  unfold Exec.back
  split
  · rfl
  · trivial

theorem lift (result : Except Panic α) : KeepsMeter (Exec.lift result) := by
  intro fr
  cases result with
  | ok value => rfl
  | error fault => trivial

theorem readDb (read : StateDB → α × StateDB) : KeepsMeter (Exec.readDb read) := fun _ => rfl

theorem writeDb (write : StateDB → StateDB) : KeepsMeter (Exec.writeDb write) := fun _ => rfl

theorem useGas (gas : Nat) : KeepsMeter (Exec.useGas gas) := fun _ => rfl

theorem returnGas (gas : Nat) : KeepsMeter (Exec.returnGas gas) := fun _ => rfl

theorem gasSum (x y : Nat) : KeepsMeter (Exec.gasSum x y) := fun _ => rfl

theorem invoke (request : Frame → Invocation) : KeepsMeter (Exec.invoke request) := fun _ => ⟨trivial, fun _ _ => rfl⟩

theorem record (offset size : Int) : KeepsMeter (Exec.record offset size) := by
  apply modify
  intro fr
  split <;> rfl

theorem changeMemory {change : Memory → Except Panic Memory} (keeps : ∀ m m', change m = .ok m' → m'.meter = m.meter) :
    KeepsMeter (Exec.changeMemory change) := by
  intro fr
  unfold Exec.changeMemory
  split
  · next changed => exact keeps _ _ changed
  · trivial

end KeepsMeter

section Writes

theorem meter_splice {m : Memory} {offset : Nat} {bytes : Bytes} (fits : offset + bytes.length ≤ m.store.length) :
    Memory.meter { m with store := splice m.store offset bytes } = m.meter := by
  unfold Memory.meter
  rw [splice_length fits]

theorem add64_within {offset size length : Nat} (below : ¬ add64 offset size > length) (carry : ¬ add64 offset size < offset)
    (small : size < 2 ^ 64) : offset + size ≤ length ∨ 2 ^ 64 ≤ offset := by
  unfold add64 at below carry
  omega

theorem memorySet_keeps {offset size : Nat} (first : offset < 2 ^ 64) (second : size < 2 ^ 64) (value : Bytes) :
    KeepsMeter (memorySet offset size value) := by
  apply (KeepsMeter.record _ _).bind
  intro _
  apply KeepsMeter.changeMemory
  intro m m' changed
  unfold Memory.set at changed
  repeat' split at changed
  · cases changed
  · cases changed
  · next below carry =>
    cases changed
    apply meter_splice
    have within := add64_within below carry second
    have taken := List.length_take_le size value
    omega
  · cases changed
    rfl

theorem memorySet32_keeps {offset : Nat} (first : offset < 2 ^ 64) (val : Int) : KeepsMeter (memorySet32 offset val) := by
  apply (KeepsMeter.record _ _).bind
  intro _
  apply KeepsMeter.changeMemory
  intro m m' changed
  unfold Memory.set32 at changed
  repeat' split at changed
  · cases changed
  · cases changed
  · next below carry =>
    cases changed
    apply meter_splice
    have within := add64_within below carry (by decide)
    rw [bigEndian_length]
    omega

theorem memoryStore_keeps (off : Int) (value : UInt8) : KeepsMeter (memoryStore off value) := by
  apply (KeepsMeter.record _ _).bind
  intro _
  apply KeepsMeter.changeMemory
  intro m m' changed
  unfold Memory.storeByte at changed
  split at changed
  · cases changed
    unfold Memory.meter
    rw [List.length_set]
  · cases changed

theorem memoryGet_keeps (offset size : Int) : KeepsMeter (memoryGet offset size) :=
  (KeepsMeter.record _ _).bind fun _ => KeepsMeter.get.bind fun _ => .lift _

end Writes

section Instructions

theorem done_keeps : KeepsMeter done := .pure []

theorem unary_keepsMeter (f : Int → Int) : KeepsMeter (unary f) :=
  KeepsMeter.pop.bind fun _ => (KeepsMeter.push _).bind fun _ => done_keeps

theorem binary_keepsMeter (f : Int → Int → Int) : KeepsMeter (binary f) :=
  KeepsMeter.pop.bind fun _ => KeepsMeter.pop.bind fun _ => (KeepsMeter.push _).bind fun _ => done_keeps

theorem ternary_keepsMeter (f : Int → Int → Int → Int) : KeepsMeter (ternary f) :=
  KeepsMeter.pop.bind fun _ => KeepsMeter.pop.bind fun _ => KeepsMeter.pop.bind fun _ => (KeepsMeter.push _).bind fun _ =>
    done_keeps

theorem nullary_keepsMeter (value : Frame → Int) : KeepsMeter (nullary value) :=
  KeepsMeter.get.bind fun _ => (KeepsMeter.push _).bind fun _ => done_keeps

theorem onSlot_keepsMeter (read : Frame → Int → StateDB → Int × StateDB) : KeepsMeter (onSlot read) :=
  KeepsMeter.pop.bind fun _ => KeepsMeter.get.bind fun _ => (KeepsMeter.readDb _).bind fun _ => (KeepsMeter.push _).bind fun _ =>
    done_keeps

theorem opSignExtend_keepsMeter : KeepsMeter opSignExtend := by
  apply KeepsMeter.pop.bind
  intro back
  split
  · exact KeepsMeter.pop.bind fun _ => (KeepsMeter.push _).bind fun _ => done_keeps
  · exact done_keeps

theorem opPop_keepsMeter : KeepsMeter opPop := KeepsMeter.pop.bind fun _ => done_keeps

theorem opCallDataLoad_keepsMeter : KeepsMeter opCallDataLoad :=
  KeepsMeter.get.bind fun _ => KeepsMeter.pop.bind fun _ => (KeepsMeter.lift _).bind fun _ => (KeepsMeter.push _).bind fun _ =>
    done_keeps

theorem dataCopy_keepsMeter (data : Bytes) : KeepsMeter (dataCopy data) :=
  KeepsMeter.pop.bind fun _ => KeepsMeter.pop.bind fun _ => KeepsMeter.pop.bind fun _ => (KeepsMeter.lift _).bind fun _ =>
    (memorySet_keeps (uint64_lt _) (uint64_lt _) _).bind fun _ => done_keeps

theorem opCallDataCopy_keepsMeter : KeepsMeter opCallDataCopy := KeepsMeter.get.bind fun _ => dataCopy_keepsMeter _

theorem opCodeCopy_keepsMeter : KeepsMeter opCodeCopy := KeepsMeter.get.bind fun _ => dataCopy_keepsMeter _

theorem opExtCodeCopy_keepsMeter [Crypto] : KeepsMeter opExtCodeCopy :=
  KeepsMeter.pop.bind fun _ => (KeepsMeter.readDb _).bind fun _ => dataCopy_keepsMeter _

theorem opReturnDataCopy_keepsMeter : KeepsMeter opReturnDataCopy := by
  refine KeepsMeter.pop.bind fun memOffset => KeepsMeter.pop.bind fun dataOffset => KeepsMeter.pop.bind fun length => ?_
  apply KeepsMeter.get.bind
  intro fr
  dsimp only
  split
  · exact .fail _
  · exact (KeepsMeter.lift _).bind fun _ => (memorySet_keeps (uint64_lt _) (uint64_lt _) _).bind fun _ => done_keeps

theorem opMload_keepsMeter : KeepsMeter opMload :=
  KeepsMeter.pop.bind fun _ => (memoryGet_keeps _ _).bind fun _ => (KeepsMeter.push _).bind fun _ => done_keeps

theorem opMstore_keepsMeter : KeepsMeter opMstore :=
  KeepsMeter.pop.bind fun _ => KeepsMeter.pop.bind fun _ => (memorySet32_keeps (uint64_lt _) _).bind fun _ => done_keeps

theorem opMstore8_keepsMeter : KeepsMeter opMstore8 :=
  KeepsMeter.pop.bind fun _ => KeepsMeter.pop.bind fun _ => (memoryStore_keeps _ _).bind fun _ => done_keeps

theorem opSha3_keepsMeter [Crypto] (env : Env) : KeepsMeter (opSha3 env) :=
  KeepsMeter.pop.bind fun _ => KeepsMeter.pop.bind fun _ => (memoryGet_keeps _ _).bind fun _ =>
    (KeepsMeter.writeDb _).bind fun _ => (KeepsMeter.push _).bind fun _ => done_keeps

theorem opSstore_keepsMeter [Crypto] : KeepsMeter opSstore :=
  KeepsMeter.pop.bind fun _ => KeepsMeter.pop.bind fun _ => KeepsMeter.get.bind fun _ => (KeepsMeter.writeDb _).bind fun _ =>
    done_keeps

theorem analyse_keepsMeter : KeepsMeter analyse := by
  intro fr
  unfold analyse
  repeat' split
  all_goals rfl

theorem jumpTo_keepsMeter (pos : Int) : KeepsMeter (jumpTo pos) := by
  have probed : KeepsMeter (validJumpdest pos) := by
    apply KeepsMeter.get.bind
    intro fr
    dsimp only
    repeat' split
    · exact .pure _
    · exact .pure _
    · exact analyse_keepsMeter.bind fun _ => .lift _
  apply probed.bind
  intro valid
  split
  · exact .fail _
  · exact (KeepsMeter.modify fun _ => rfl).bind fun _ => done_keeps

theorem opJump_keepsMeter : KeepsMeter opJump := KeepsMeter.pop.bind jumpTo_keepsMeter

theorem opJumpi_keepsMeter : KeepsMeter opJumpi := by
  refine KeepsMeter.pop.bind fun pos => KeepsMeter.pop.bind fun cond => ?_
  split
  · exact jumpTo_keepsMeter pos
  · exact (KeepsMeter.modify fun _ => rfl).bind fun _ => done_keeps

theorem opPush1_keepsMeter : KeepsMeter opPush1 := by
  refine KeepsMeter.bind ?_ fun _ => nullary_keepsMeter _
  exact .modify fun _ => rfl

theorem makePush_keepsMeter (size pushByteSize : Nat) : KeepsMeter (makePush size pushByteSize) :=
  KeepsMeter.get.bind fun _ => (KeepsMeter.lift _).bind fun _ => (KeepsMeter.push _).bind fun _ =>
    (KeepsMeter.modify fun _ => rfl).bind fun _ => done_keeps

theorem makeDup_keepsMeter (size : Nat) : KeepsMeter (makeDup size) :=
  ((KeepsMeter.back _).bind fun _ => .push _).bind fun _ => done_keeps

theorem makeSwap_keepsMeter (size : Nat) : KeepsMeter (makeSwap size) := by
  have swapped : KeepsMeter (swap (size + 1)) := by
    refine (KeepsMeter.back _).bind fun deep => (KeepsMeter.back _).bind fun top => ?_
    exact .modify fun _ => rfl
  exact swapped.bind fun _ => done_keeps

theorem popTopics_keepsMeter (size : Nat) : KeepsMeter (popTopics size) := by
  induction size with
  | zero => exact .pure []
  | succ size ih => exact KeepsMeter.pop.bind fun _ => ih.bind fun _ => .pure _

theorem makeLog_keepsMeter (env : Env) (size : Nat) : KeepsMeter (makeLog env size) :=
  KeepsMeter.pop.bind fun _ => KeepsMeter.pop.bind fun _ => (popTopics_keepsMeter size).bind fun _ =>
    (memoryGet_keeps _ _).bind fun _ => KeepsMeter.get.bind fun _ => (KeepsMeter.writeDb _).bind fun _ => done_keeps

theorem returnRange_keepsMeter : KeepsMeter returnRange :=
  KeepsMeter.pop.bind fun _ => KeepsMeter.pop.bind fun _ => memoryGet_keeps _ _

theorem opSuicide_keepsMeter [Crypto] : KeepsMeter opSuicide :=
  KeepsMeter.get.bind fun _ => (KeepsMeter.readDb _).bind fun _ => KeepsMeter.pop.bind fun _ =>
    (KeepsMeter.writeDb _).bind fun _ =>
    (KeepsMeter.readDb _).bind fun _ => (KeepsMeter.modify fun _ => rfl).bind fun _ => done_keeps

theorem finishCall_keepsMeter (retOffset retSize : Int) (reply : Reply) : KeepsMeter (finishCall retOffset retSize reply) := by
  apply (KeepsMeter.push _).bind
  intro _
  split
  · exact (memorySet_keeps (uint64_lt _) (uint64_lt _) _).bind fun _ => (KeepsMeter.returnGas _).bind fun _ => .pure _
  · exact (KeepsMeter.returnGas _).bind fun _ => .pure _

theorem valueCall_keepsMeter (kind : CallKind) : KeepsMeter (valueCall kind) := by
  refine KeepsMeter.pop.bind fun _ => KeepsMeter.get.bind fun fr => KeepsMeter.pop.bind fun addr =>
    KeepsMeter.pop.bind fun value => ?_
  refine KeepsMeter.pop.bind fun inOffset => KeepsMeter.pop.bind fun inSize => KeepsMeter.pop.bind fun retOffset => ?_
  refine KeepsMeter.pop.bind fun retSize => (memoryGet_keeps _ _).bind fun args => ?_
  dsimp only
  split
  · exact (KeepsMeter.gasSum _ _).bind fun gas => (KeepsMeter.invoke _).bind fun reply => finishCall_keepsMeter _ _ reply
  · exact (KeepsMeter.pure _).bind fun gas => (KeepsMeter.invoke _).bind fun reply => finishCall_keepsMeter _ _ reply

theorem plainCall_keepsMeter (kind : CallKind) : KeepsMeter (plainCall kind) := by
  refine KeepsMeter.pop.bind fun _ => KeepsMeter.get.bind fun fr => KeepsMeter.pop.bind fun addr =>
    KeepsMeter.pop.bind fun inOffset => ?_
  refine KeepsMeter.pop.bind fun inSize => KeepsMeter.pop.bind fun retOffset => KeepsMeter.pop.bind fun retSize => ?_
  exact (memoryGet_keeps _ _).bind fun args => (KeepsMeter.invoke _).bind fun reply => finishCall_keepsMeter _ _ reply

theorem finishCreate_keepsMeter (created : Bool) (reply : Reply) : KeepsMeter (finishCreate created reply) :=
  (KeepsMeter.push _).bind fun _ => (KeepsMeter.returnGas _).bind fun _ => .pure _

theorem opCreate_keepsMeter (env : Env) : KeepsMeter (opCreate env) :=
  KeepsMeter.pop.bind fun _ => KeepsMeter.pop.bind fun _ => KeepsMeter.pop.bind fun _ => (memoryGet_keeps _ _).bind fun _ =>
    KeepsMeter.get.bind fun _ => (KeepsMeter.useGas _).bind fun _ => (KeepsMeter.invoke _).bind fun _ =>
      finishCreate_keepsMeter _ _

theorem opCreate2_keepsMeter : KeepsMeter opCreate2 :=
  KeepsMeter.pop.bind fun _ => KeepsMeter.pop.bind fun _ => KeepsMeter.pop.bind fun _ => KeepsMeter.pop.bind fun _ =>
    (memoryGet_keeps _ _).bind fun _ => KeepsMeter.get.bind fun _ => (KeepsMeter.useGas _).bind fun _ =>
    (KeepsMeter.invoke _).bind fun _ => finishCreate_keepsMeter _ _

end Instructions

section Gas

variable {fr fr' : Frame}

def Meters (gas : Nat → Exec Nat) : Prop :=
  ∀ size fr cost fr', gas size fr = .ret (.ok cost, fr') →
    fr'.contract = fr.contract ∧ ∃ fee, memoryFee fr.memory size = some (fee, fr'.memory) ∧ fee ≤ cost

theorem checked_returned {result : Nat × Bool} {value : Nat} (returned : checked result fr = .ret (.ok value, fr')) :
    result = (value, false) ∧ fr' = fr := by
  obtain ⟨first, overflow⟩ := result
  cases overflow with
  | true => cases returned
  | false =>
    cases returned
    exact ⟨rfl, rfl⟩

theorem memoryGasCost_meters : Meters memoryGasCost := by
  intro size fr cost fr' returned
  obtain ⟨memory, priced, rfl⟩ := memoryGasCost_returned returned
  exact ⟨rfl, cost, priced, Nat.le_refl _⟩

theorem gasMemory_meters (base : Nat) : Meters (gasMemory base) := by
  intro size fr cost fr' returned
  obtain ⟨fee, fr₁, first, rest⟩ := bind_returned returned
  obtain ⟨memory, priced, rfl⟩ := memoryGasCost_returned first
  obtain ⟨sum, -, rfl⟩ := add_returned (memoryFee_some priced).2.1 rest
  exact ⟨rfl, fee, priced, by omega⟩

theorem gasWords_meters (base perWord operand : Nat) : Meters (gasWords base perWord operand) := by
  intro size fr cost fr' returned
  obtain ⟨fee, fr₁, first, rest₁⟩ := bind_returned returned
  obtain ⟨memory, priced, rfl⟩ := memoryGasCost_returned first
  obtain ⟨based, fr₂, second, rest₂⟩ := bind_returned rest₁
  obtain ⟨sum, below, rfl⟩ := add_returned (memoryFee_some priced).2.1 second
  obtain ⟨length, fr₃, third, rest₃⟩ := bind_returned rest₂
  obtain ⟨-, rfl⟩ := back_returned third
  obtain ⟨bytes, fr₄, fourth, rest₄⟩ := bind_returned rest₃
  obtain ⟨-, rfl⟩ := checked_returned fourth
  obtain ⟨words, fr₅, fifth, rest₅⟩ := bind_returned rest₄
  obtain ⟨-, rfl⟩ := checked_returned fifth
  obtain ⟨total, -, rfl⟩ := add_returned (by omega) rest₅
  exact ⟨rfl, fee, priced, by omega⟩

theorem makeGasLog_meters (n : Nat) : Meters (makeGasLog n) := by
  intro size fr cost fr' returned
  obtain ⟨length, fr₁, first, rest₁⟩ := bind_returned returned
  obtain ⟨-, rfl⟩ := back_returned first
  obtain ⟨bytes, fr₂, second, rest₂⟩ := bind_returned rest₁
  obtain ⟨-, rfl⟩ := checked_returned second
  obtain ⟨fee, fr₃, third, rest₃⟩ := bind_returned rest₂
  obtain ⟨memory, priced, rfl⟩ := memoryGasCost_returned third
  obtain ⟨based, fr₄, fourth, rest₄⟩ := bind_returned rest₃
  obtain ⟨sum, below, rfl⟩ := add_returned (memoryFee_some priced).2.1 fourth
  obtain ⟨logged, fr₅, fifth, rest₅⟩ := bind_returned rest₄
  obtain ⟨sum', below', rfl⟩ := add_returned (by omega) fifth
  obtain ⟨data, fr₆, sixth, rest₆⟩ := bind_returned rest₅
  obtain ⟨-, rfl⟩ := checked_returned sixth
  obtain ⟨total, -, rfl⟩ := add_returned (by omega) rest₆
  exact ⟨rfl, fee, priced, by omega⟩

theorem gasForCall_returned {gt : GasTable} {base cost : Nat} (below : base < 2 ^ 64)
    (returned : gasForCall gt base fr = .ret (.ok cost, fr')) :
    base ≤ cost ∧ fr'.memory = fr.memory ∧ fr'.contract = fr.contract := by
  obtain ⟨callCost, fr₁, first, rest₁⟩ := bind_returned returned
  obtain ⟨-, rfl⟩ := back_returned first
  obtain ⟨here, fr₂, second, rest₂⟩ := bind_returned rest₁
  obtain ⟨rfl, rfl⟩ := get_returned second
  cases given : callGas gt fr₂.contract.gas base callCost with
  | error err =>
    rw [given] at rest₂
    cases rest₂
  | ok temp =>
    rw [given] at rest₂
    obtain ⟨done, fr₃, third, rest₃⟩ := bind_returned rest₂
    cases third
    obtain ⟨sum, -, rfl⟩ := add_returned below rest₃
    exact ⟨by omega, rfl, rfl⟩

theorem newAccountGas_keeps [Crypto] {env : Env} {transfersValue : Bool} {address : Address} {created : Nat}
    (returned : newAccountGas env transfersValue address fr = .ret (.ok created, fr')) :
    fr'.memory = fr.memory ∧ fr'.contract = fr.contract := by
  unfold newAccountGas at returned
  repeat' split at returned
  · obtain ⟨empty, fr₁, first, rest⟩ := bind_returned returned
    cases first
    cases rest
    exact ⟨rfl, rfl⟩
  · cases returned
    exact ⟨rfl, rfl⟩
  · obtain ⟨exist, fr₁, first, rest⟩ := bind_returned returned
    cases first
    cases rest
    exact ⟨rfl, rfl⟩

theorem gasCall_meters [Crypto] (env : Env) (gt : GasTable) : Meters (gasCall env gt) := by
  intro size fr cost fr' returned
  obtain ⟨value, fr₁, first, rest₁⟩ := bind_returned returned
  obtain ⟨-, rfl⟩ := back_returned first
  obtain ⟨addr, fr₂, second, rest₂⟩ := bind_returned rest₁
  obtain ⟨-, rfl⟩ := back_returned second
  obtain ⟨created, fr₃, third, rest₃⟩ := bind_returned rest₂
  obtain ⟨same, contract⟩ := newAccountGas_keeps third
  obtain ⟨fee, fr₄, fourth, rest₄⟩ := bind_returned rest₃
  obtain ⟨memory, priced, rfl⟩ := memoryGasCost_returned fourth
  obtain ⟨gas, fr₅, fifth, rest₅⟩ := bind_returned rest₄
  obtain ⟨sum, below, rfl⟩ := add_returned (add64_lt _ _) fifth
  obtain ⟨most, kept, held⟩ := gasForCall_returned (by omega) rest₅
  rw [same] at priced
  refine ⟨held.trans contract, fee, ?_, by omega⟩
  rw [priced, kept]

theorem gasCallCode_meters (gt : GasTable) : Meters (gasCallCode gt) := by
  intro size fr cost fr' returned
  obtain ⟨value, fr₁, first, rest₁⟩ := bind_returned returned
  obtain ⟨-, rfl⟩ := back_returned first
  obtain ⟨fee, fr₂, second, rest₂⟩ := bind_returned rest₁
  obtain ⟨memory, priced, rfl⟩ := memoryGasCost_returned second
  obtain ⟨gas, fr₃, third, rest₃⟩ := bind_returned rest₂
  obtain ⟨sum, below, rfl⟩ := add_returned (add64_lt _ _) third
  obtain ⟨most, kept, held⟩ := gasForCall_returned (by omega) rest₃
  refine ⟨held, fee, ?_, by omega⟩
  rw [priced, kept]

theorem gasPlainCall_meters (gt : GasTable) : Meters (gasPlainCall gt) := by
  intro size fr cost fr' returned
  obtain ⟨fee, fr₁, first, rest₁⟩ := bind_returned returned
  obtain ⟨memory, priced, rfl⟩ := memoryGasCost_returned first
  obtain ⟨gas, fr₂, second, rest₂⟩ := bind_returned rest₁
  obtain ⟨sum, below, rfl⟩ := add_returned (memoryFee_some priced).2.1 second
  obtain ⟨most, kept, held⟩ := gasForCall_returned (by omega) rest₂
  refine ⟨held, fee, ?_, by omega⟩
  rw [priced, kept]

/-! The gas functions that do not depend on memory. -/

theorem gasExp_keepsMeter (env : Env) (size : Nat) : KeepsMeter (gasExp env size) := by
  apply (KeepsMeter.back _).bind
  intro exponent
  unfold checked
  split
  · exact .fail _
  · exact .pure _

theorem addRefund_keepsMeter (gas : Nat) : KeepsMeter (addRefund gas) := .writeDb _

theorem subRefund_keepsMeter (gas : Nat) : KeepsMeter (subRefund gas) := by
  intro fr
  unfold subRefund
  split
  · rfl
  · trivial

theorem gasSStoreNet_keepsMeter (original current value : Hash) : KeepsMeter (gasSStoreNet original current value) := by
  have dirty : KeepsMeter (refundDirty original current value) := by
    unfold refundDirty
    repeat' split
    · exact subRefund_keepsMeter _
    · exact addRefund_keepsMeter _
    · exact .pure _
    · exact .pure _
  have reset : KeepsMeter (refundReset original value) := by
    unfold refundReset
    repeat' split
    · exact addRefund_keepsMeter _
    · exact addRefund_keepsMeter _
    · exact .pure _
  unfold gasSStoreNet
  repeat' split
  · exact .pure _
  · exact (addRefund_keepsMeter _).bind fun _ => .pure _
  · exact .pure _
  · exact dirty.bind fun _ => reset.bind fun _ => .pure _

theorem gasSStoreLegacy_keepsMeter (current : Hash) (y : Int) : KeepsMeter (gasSStoreLegacy current y) := by
  unfold gasSStoreLegacy
  repeat' split
  · exact .pure _
  · exact (addRefund_keepsMeter _).bind fun _ => .pure _
  · exact .pure _

theorem gasSStore_keepsMeter [Crypto] (env : Env) (size : Nat) : KeepsMeter (gasSStore env size) := by
  refine (KeepsMeter.back _).bind fun y => (KeepsMeter.back _).bind fun x => KeepsMeter.get.bind fun fr => ?_
  apply (KeepsMeter.readDb _).bind
  intro current
  repeat' split
  · exact gasSStoreLegacy_keepsMeter current y
  · exact .pure _
  · exact (KeepsMeter.readDb _).bind fun original => gasSStoreNet_keepsMeter original current _

theorem gasSuicide_keepsMeter [Crypto] (env : Env) (size : Nat) : KeepsMeter (gasSuicide env size) := by
  have created : ∀ self address, KeepsMeter (beneficiaryGas env self address) := by
    intro self address
    unfold beneficiaryGas
    split
    · apply (KeepsMeter.readDb _).bind
      intro empty
      split
      · exact (KeepsMeter.readDb _).bind fun _ => .pure _
      · exact .pure _
    · exact (KeepsMeter.readDb _).bind fun _ => .pure _
  have based : ∀ self, KeepsMeter (suicideGas env self) := by
    intro self
    unfold suicideGas
    split
    · exact (KeepsMeter.back _).bind fun _ => (created _ _).bind fun _ => .pure _
    · exact .pure _
  refine KeepsMeter.get.bind fun fr => (based _).bind fun gas => (KeepsMeter.readDb _).bind fun suicided => ?_
  split
  · exact .pure _
  · exact (addRefund_keepsMeter _).bind fun _ => .pure _

end Gas

section Table

def FromStack (memorySize : Exec (Nat × Bool)) : Prop :=
  ∀ fr value fr', memorySize fr = .ret (.ok value, fr') → fr' = fr ∧ ∀ other : Frame, other.stack = fr.stack →
    memorySize other = .ret (.ok value, other)

inductive Metering (operation : Operation) : Prop where
  | free (unsized : operation.memorySize = none) (gas : ∀ gas, operation.dynamicGas = some gas → ∀ size, KeepsMeter (gas size))
      (acts : KeepsMeter operation.execute)
  | paid {memorySize : Exec (Nat × Bool)} {gas : Nat → Exec Nat} (sized : operation.memorySize = some memorySize)
      (metered : operation.dynamicGas = some gas) (asks : FromStack memorySize)
      (meters : Meters gas) (acts : KeepsMeter operation.execute)

theorem memoryRange_asks (off l : Nat) : FromStack (memoryRange off l) := by
  intro fr value fr' returned
  obtain ⟨first, fr₁, read₁, rest₁⟩ := bind_returned returned
  obtain ⟨found₁, rfl⟩ := back_returned read₁
  obtain ⟨second, fr₂, read₂, rest₂⟩ := bind_returned rest₁
  obtain ⟨found₂, rfl⟩ := back_returned read₂
  cases rest₂
  refine ⟨rfl, fun other same => ?_⟩
  rw [← same] at found₁ found₂
  exact memoryRange_apply found₁ found₂

theorem memoryFixed_asks (off length64 : Nat) : FromStack (memoryFixed off length64) := by
  intro fr value fr' returned
  obtain ⟨first, fr₁, read₁, rest₁⟩ := bind_returned returned
  obtain ⟨found₁, rfl⟩ := back_returned read₁
  cases rest₁
  refine ⟨rfl, fun other same => ?_⟩
  rw [← same] at found₁
  exact bind_of_returned (back_apply found₁)

theorem memoryRanges_asks (retOff retLen inOff inLen : Nat) : FromStack (memoryRanges retOff retLen inOff inLen) := by
  intro fr value fr' returned
  obtain ⟨⟨x, overflow⟩, fr₁, first, rest₁⟩ := bind_returned returned
  obtain ⟨rfl, again₁⟩ := memoryRange_asks _ _ _ _ _ first
  dsimp only at rest₁
  split at rest₁
  · next wide =>
    cases rest₁
    refine ⟨rfl, fun other same => ?_⟩
    unfold memoryRanges
    rw [bind_of_returned (again₁ other same)]
    simp only [wide, if_true]
    rfl
  · next fits =>
    obtain ⟨⟨y, overflow'⟩, fr₂, second, rest₂⟩ := bind_returned rest₁
    obtain ⟨rfl, again₂⟩ := memoryRange_asks _ _ _ _ _ second
    have resumed : ∀ other : Frame, other.stack = fr₂.stack → memoryRanges retOff retLen inOff inLen other =
        (if overflow' then pure (0, true) else if x > y then pure (x, false) else pure (y, false) : Exec (Nat × Bool)) other := by
      intro other same
      unfold memoryRanges
      rw [bind_of_returned (again₁ other same)]
      dsimp only
      rw [if_neg fits, bind_of_returned (again₂ other same)]
    dsimp only at rest₂
    repeat' split at rest₂
    all_goals
      cases rest₂
      refine ⟨rfl, fun other same => ?_⟩
      rw [resumed other same]
      simp only [*, if_true, if_false]
      rfl

theorem fixed_metering {execute : Exec Bytes} (constantGas pops pushes : Nat) (acts : KeepsMeter execute) :
    Metering (fixed execute constantGas pops pushes) := .free rfl nofun acts

theorem metered_metering {execute : Exec Bytes} {gas : Nat → Exec Nat} (pops pushes : Nat) (keeps : ∀ size, KeepsMeter (gas size))
    (acts : KeepsMeter execute) : Metering (metered execute gas pops pushes) := by
  refine .free rfl ?_ acts
  rintro _ ⟨⟩
  exact keeps

theorem sized_metering {execute : Exec Bytes} {gas : Nat → Exec Nat} (pops pushes : Nat) {memorySize : Exec (Nat × Bool)}
    (asks : FromStack memorySize) (meters : Meters gas) (acts : KeepsMeter execute) :
    Metering (sized execute gas pops pushes memorySize) := .paid rfl rfl asks meters acts

theorem Metering.flags {operation : Operation} (metering : Metering operation) (halts jumps writes reverts returns : Bool) :
    Metering { operation with halts := halts, jumps := jumps, writes := writes, reverts := reverts, returns := returns } := by
  cases metering with
  | free unsized gas acts => exact .free unsized gas acts
  | paid sized metered asks meters acts => exact .paid sized metered asks meters acts

variable [Crypto] (env : Env)

omit [Crypto] in
theorem arithmetic_metering : ∀ entry ∈ arithmeticInstructions env, Metering entry.2 := by
  simp only [arithmeticInstructions, List.forall_mem_cons]
  refine ⟨?_, ?_, ?_, ?_, ?_, ?_, ?_, ?_, ?_, ?_, ?_, ?_, ?_, ?_, ?_, ?_, ?_, ?_, ?_, ?_, ?_, ?_, by rintro _ ⟨⟩⟩
  case refine_10 => exact metered_metering _ _ (gasExp_keepsMeter env) (binary_keepsMeter _)
  case refine_11 => exact fixed_metering _ _ _ opSignExtend_keepsMeter
  all_goals first
    | exact fixed_metering _ _ _ (binary_keepsMeter _)
    | exact fixed_metering _ _ _ (ternary_keepsMeter _)
    | exact fixed_metering _ _ _ (unary_keepsMeter _)

omit [Crypto] in
theorem context_metering : ∀ entry ∈ contextInstructions env, Metering entry.2 := by
  simp only [contextInstructions, List.forall_mem_cons]
  refine ⟨?_, ?_, ?_, ?_, ?_, ?_, ?_, ?_, ?_, ?_, ?_, ?_, ?_, ?_, ?_, ?_, ?_, by rintro _ ⟨⟩⟩
  case refine_5 => exact fixed_metering _ _ _ opCallDataLoad_keepsMeter
  case refine_9 => exact fixed_metering _ _ _ (unary_keepsMeter _)
  all_goals exact fixed_metering _ _ _ (nullary_keepsMeter _)

theorem state_metering : ∀ entry ∈ stateInstructions env, Metering entry.2 := by
  simp only [stateInstructions, List.forall_mem_cons]
  refine ⟨?_, ?_, ?_, ?_, by rintro _ ⟨⟩⟩
  · exact metered_metering _ _ (fun _ => .pure _) (onSlot_keepsMeter _)
  · exact metered_metering _ _ (fun _ => .pure _) (onSlot_keepsMeter _)
  · exact metered_metering _ _ (fun _ => .pure _) (onSlot_keepsMeter _)
  · exact (metered_metering _ _ (gasSStore_keepsMeter env) opSstore_keepsMeter).flags _ _ _ _ _

theorem memory_metering : ∀ entry ∈ memoryInstructions env, Metering entry.2 := by
  simp only [memoryInstructions, List.forall_mem_cons]
  refine ⟨?_, ?_, ?_, ?_, ?_, ?_, ?_, by rintro _ ⟨⟩⟩
  · exact sized_metering _ _ (memoryRange_asks _ _) (gasWords_meters _ _ _) (opSha3_keepsMeter env)
  · exact sized_metering _ _ (memoryRange_asks _ _) (gasWords_meters _ _ _) opCallDataCopy_keepsMeter
  · exact sized_metering _ _ (memoryRange_asks _ _) (gasWords_meters _ _ _) opCodeCopy_keepsMeter
  · exact sized_metering _ _ (memoryRange_asks _ _) (gasWords_meters _ _ _) opExtCodeCopy_keepsMeter
  · exact sized_metering _ _ (memoryFixed_asks _ _) (gasMemory_meters _) opMload_keepsMeter
  · exact sized_metering _ _ (memoryFixed_asks _ _) (gasMemory_meters _) opMstore_keepsMeter
  · exact sized_metering _ _ (memoryFixed_asks _ _) (gasMemory_meters _) opMstore8_keepsMeter

theorem control_metering : ∀ entry ∈ controlInstructions env, Metering entry.2 := by
  simp only [controlInstructions, List.forall_mem_cons]
  refine ⟨?_, ?_, ?_, ?_, ?_, ?_, ?_, by rintro _ ⟨⟩⟩
  · exact (fixed_metering _ _ _ done_keeps).flags _ _ _ _ _
  · exact fixed_metering _ _ _ opPop_keepsMeter
  · exact (fixed_metering _ _ _ opJump_keepsMeter).flags _ _ _ _ _
  · exact (fixed_metering _ _ _ opJumpi_keepsMeter).flags _ _ _ _ _
  · exact fixed_metering _ _ _ done_keeps
  · exact (sized_metering _ _ (memoryRange_asks _ _) memoryGasCost_meters returnRange_keepsMeter).flags _ _ _ _ _
  · exact (metered_metering _ _ (gasSuicide_keepsMeter env) opSuicide_keepsMeter).flags _ _ _ _ _

omit [Crypto] in
theorem generated_metering : ∀ entry ∈ generatedInstructions env, Metering entry.2 := by
  simp only [generatedInstructions, List.forall_mem_cons, List.cons_append, List.forall_mem_append, List.forall_mem_map]
  refine ⟨?_, ⟨⟨fun n _ => ?_, fun n _ => ?_⟩, fun n _ => ?_⟩, fun n _ => ?_⟩
  · exact fixed_metering _ _ _ opPush1_keepsMeter
  · exact fixed_metering _ _ _ (makePush_keepsMeter n n)
  · exact fixed_metering _ _ _ (makeDup_keepsMeter n)
  · exact fixed_metering _ _ _ (makeSwap_keepsMeter n)
  · exact (sized_metering _ _ (memoryRange_asks _ _) (makeGasLog_meters n) (makeLog_keepsMeter env n)).flags _ _ _ _ _

theorem call_metering : ∀ entry ∈ callInstructions env, Metering entry.2 := by
  simp only [callInstructions, List.forall_mem_cons]
  refine ⟨?_, ?_, ?_, by rintro _ ⟨⟩⟩
  · exact (sized_metering _ _ (memoryRange_asks _ _) (gasMemory_meters _) (opCreate_keepsMeter env)).flags _ _ _ _ _
  · exact (sized_metering _ _ (memoryRanges_asks _ _ _ _) (gasCall_meters env _) (valueCall_keepsMeter _)).flags _ _ _ _ _
  · exact (sized_metering _ _ (memoryRanges_asks _ _ _ _) (gasCallCode_meters _) (valueCall_keepsMeter _)).flags _ _ _ _ _

theorem frontier_metering : ∀ entry ∈ newFrontierInstructionSet env, Metering entry.2 := by
  simp only [newFrontierInstructionSet, List.forall_mem_append]
  exact ⟨⟨⟨⟨⟨⟨arithmetic_metering env, context_metering env⟩, state_metering env⟩, memory_metering env⟩,
    control_metering env⟩, generated_metering env⟩, call_metering env⟩

theorem homestead_metering : ∀ entry ∈ newHomesteadInstructionSet env, Metering entry.2 := by
  simp only [newHomesteadInstructionSet, List.forall_mem_cons]
  refine ⟨?_, frontier_metering env⟩
  exact (sized_metering _ _ (memoryRanges_asks _ _ _ _) (gasPlainCall_meters _) (plainCall_keepsMeter _)).flags _ _ _ _ _

theorem byzantium_metering : ∀ entry ∈ newByzantiumInstructionSet env, Metering entry.2 := by
  simp only [newByzantiumInstructionSet, List.forall_mem_cons, List.cons_append, List.nil_append]
  refine ⟨?_, ?_, ?_, ?_, homestead_metering env⟩
  · exact (sized_metering _ _ (memoryRanges_asks _ _ _ _) (gasPlainCall_meters _) (plainCall_keepsMeter _)).flags _ _ _ _ _
  · exact fixed_metering _ _ _ (nullary_keepsMeter _)
  · exact sized_metering _ _ (memoryRange_asks _ _) (gasWords_meters _ _ _) opReturnDataCopy_keepsMeter
  · exact (sized_metering _ _ (memoryRange_asks _ _) memoryGasCost_meters returnRange_keepsMeter).flags _ _ _ _ _

theorem constantinople_metering : ∀ entry ∈ newConstantinopleInstructionSet env, Metering entry.2 := by
  simp only [newConstantinopleInstructionSet, List.forall_mem_cons, List.cons_append, List.nil_append]
  refine ⟨?_, ?_, ?_, ?_, ?_, byzantium_metering env⟩
  · exact fixed_metering _ _ _ (binary_keepsMeter _)
  · exact fixed_metering _ _ _ (binary_keepsMeter _)
  · exact fixed_metering _ _ _ (binary_keepsMeter _)
  · exact metered_metering _ _ (fun _ => .pure _) (onSlot_keepsMeter _)
  · exact (sized_metering _ _ (memoryRange_asks _ _) (gasWords_meters _ _ _) opCreate2_keepsMeter).flags _ _ _ _ _

theorem jumpTable_metering : ∀ entry ∈ jumpTable env, Metering entry.2 := by
  unfold jumpTable
  repeat' split
  · exact constantinople_metering env
  · exact byzantium_metering env
  · exact homestead_metering env
  · exact frontier_metering env

end Table

end CuteEVM
