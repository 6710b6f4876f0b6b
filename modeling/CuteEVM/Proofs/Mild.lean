import CuteEVM.Proofs.Calls
import CuteEVM.Proofs.Decoding
import CuteEVM.Proofs.Pricing
import CuteEVM.State.Facts

set_option autoImplicit false

-- All instructions but a few leave the storage, the nonces and the codes of the accounts alone, and move the program
-- counter to the next instruction.

namespace CuteEVM

open CallTree Exec

variable [Crypto]

structure Mild (refunds : Bool) (fr fr' : Frame) : Prop where
  pc : fr'.pc = fr.pc
  contract : fr'.contract = { fr.contract with gas := fr'.contract.gas }
  jumpdests : fr'.evm.jumpdests = fr.evm.jumpdests
  db : Valid fr.evm.db → Inert refunds fr.evm.db fr'.evm.db

namespace Mild

variable {refunds : Bool} {fr fr' fr'' : Frame}

theorem of_same (pc : fr'.pc = fr.pc) (contract : fr'.contract = fr.contract) (jumpdests : fr'.evm.jumpdests = fr.evm.jumpdests)
    (db : fr'.evm.db = fr.evm.db) : Mild refunds fr fr' :=
  ⟨pc, by rw [contract], jumpdests, fun valid => by rw [db]; exact .refl valid⟩

theorem refl (fr : Frame) : Mild refunds fr fr := of_same rfl rfl rfl rfl

theorem trans (first : Mild refunds fr fr') (second : Mild refunds fr' fr'') : Mild refunds fr fr'' where
  pc := second.pc.trans first.pc
  contract := by rw [second.contract, first.contract]
  jumpdests := second.jumpdests.trans first.jumpdests
  db := fun valid =>
    have before := first.db valid
    before.trans (second.db before.evolves.valid)

theorem refunding (mild : Mild refunds fr fr') : Mild true fr fr' :=
  ⟨mild.pc, mild.contract, mild.jumpdests, fun valid => (mild.db valid).refunding⟩

theorem code (mild : Mild refunds fr fr') : fr'.contract.code = fr.contract.code := by rw [mild.contract]

end Mild

def muteSpec (refunds : Bool) : Spec Invocation Reply Panic where
  pre := fun _ => False
  post := fun _ _ => False
  safe := fun fault => fault = .refundBelowZero → refunds = true

def Gently {α : Type} (refunds : Bool) (action : Exec α) : Prop :=
  ∀ fr, (action fr).Sat (muteSpec refunds) fun p => Mild refunds fr p.2

namespace Gently

variable {α β : Type} {refunds : Bool}

theorem pure (value : α) : Gently refunds (Pure.pure value : Exec α) := fun fr => .refl fr

theorem fail (err : Err) : Gently refunds (Exec.fail err : Exec α) := fun fr => .refl fr

theorem get : Gently refunds Exec.get := fun fr => .refl fr

theorem bind {first : Exec α} {next : α → Exec β} (head : Gently refunds first) (tail : ∀ value, Gently refunds (next value)) :
    Gently refunds (first >>= next) := by
  intro fr
  refine sat_bind (head fr) (fun value mid before => ?_) fun _ _ before => before
  exact Prog.Sat.mono (tail value mid) fun _ after => before.trans after

theorem modify {change : Frame → Frame} (mild : ∀ fr, Mild refunds fr (change fr)) : Gently refunds (Exec.modify change) := mild

theorem pop : Gently refunds Exec.pop := by
  intro fr
  unfold Exec.pop
  split
  · exact nofun
  · exact .of_same rfl rfl rfl rfl

theorem push (word : Int) : Gently refunds (Exec.push word) := fun _ => .of_same rfl rfl rfl rfl

theorem back (n : Nat) : Gently refunds (Exec.back n) := by
  intro fr
  unfold Exec.back
  split
  · exact .refl fr
  · exact nofun

theorem lift {result : Except Panic α} (faults : ∀ fault, result = .error fault → fault ≠ .refundBelowZero) :
    Gently refunds (Exec.lift result) := by
  intro fr
  cases result with
  | ok value => exact .refl fr
  | error fault => exact fun below => absurd below (faults fault rfl)

theorem readDb {read : StateDB → α × StateDB} (inert : ∀ s, Valid s → Inert refunds s (read s).2) :
    Gently refunds (Exec.readDb read) :=
  fun fr => ⟨rfl, rfl, rfl, inert fr.evm.db⟩

theorem writeDb {write : StateDB → StateDB} (inert : ∀ s, Valid s → Inert refunds s (write s)) :
    Gently refunds (Exec.writeDb write) :=
  fun fr => ⟨rfl, rfl, rfl, inert fr.evm.db⟩

theorem record (offset size : Int) : Gently refunds (Exec.record offset size) := by
  refine modify fun fr => ?_
  split
  · exact .refl fr
  · exact .of_same rfl rfl rfl rfl

theorem changeMemory {change : Memory → Except Panic Memory}
    (faults : ∀ m fault, change m = .error fault → fault ≠ .refundBelowZero) :
    Gently refunds (Exec.changeMemory change) := by
  intro fr
  unfold Exec.changeMemory
  split
  · exact .of_same rfl rfl rfl rfl
  · next fault failed => exact fun below => absurd below (faults fr.memory fault failed)

theorem useGas (gas : Nat) : Gently refunds (Exec.useGas gas) := by
  refine fun fr => ⟨rfl, ?_, rfl, fun valid => .refl valid⟩
  simp only [Contract.useGas]
  split <;> rfl

theorem weaken {action : Exec α} (gently : Gently false action) : Gently true action := fun fr =>
  Prog.Sat.mono (Prog.Sat.weaken (gently fr) (fun _ no => no) (fun _ _ _ no => no) fun _ _ _ => rfl) fun _ mild => mild.refunding

end Gently

section Memory

variable {refunds : Bool}

theorem memorySet_gently (offset size : Nat) (value : Bytes) : Gently refunds (memorySet offset size value) := by
  refine (Gently.record _ _).bind fun _ => .changeMemory fun m fault failed => ?_
  unfold Memory.set at failed
  repeat' split at failed
  all_goals cases failed
  all_goals nofun

theorem memorySet32_gently (offset : Nat) (val : Int) : Gently refunds (memorySet32 offset val) := by
  refine (Gently.record _ _).bind fun _ => .changeMemory fun m fault failed => ?_
  unfold Memory.set32 at failed
  repeat' split at failed
  all_goals cases failed
  all_goals nofun

theorem memoryStore_gently (off : Int) (value : UInt8) : Gently refunds (memoryStore off value) := by
  refine (Gently.record _ _).bind fun _ => .changeMemory fun m fault failed => ?_
  unfold Memory.storeByte at failed
  split at failed
  all_goals cases failed
  nofun

theorem memoryGet_gently (offset size : Int) : Gently refunds (memoryGet offset size) := by
  refine (Gently.record _ _).bind fun _ => Gently.get.bind fun fr => .lift fun fault failed => ?_
  unfold Memory.get at failed
  repeat' split at failed
  all_goals cases failed
  nofun

theorem memoryGetPtr_gently (offset size : Int) : Gently refunds (memoryGetPtr offset size) := memoryGet_gently offset size

end Memory

section Instructions

variable {refunds : Bool}

theorem done_gently : Gently refunds done := .pure []

theorem unary_gently (f : Int → Int) : Gently refunds (unary f) :=
  Gently.pop.bind fun _ => (Gently.push _).bind fun _ => done_gently

theorem binary_gently (f : Int → Int → Int) : Gently refunds (binary f) :=
  Gently.pop.bind fun _ => Gently.pop.bind fun _ => (Gently.push _).bind fun _ => done_gently

theorem ternary_gently (f : Int → Int → Int → Int) : Gently refunds (ternary f) :=
  Gently.pop.bind fun _ => Gently.pop.bind fun _ => Gently.pop.bind fun _ => (Gently.push _).bind fun _ => done_gently

theorem nullary_gently (value : Frame → Int) : Gently refunds (nullary value) :=
  Gently.get.bind fun _ => (Gently.push _).bind fun _ => done_gently

theorem opSignExtend_gently : Gently refunds opSignExtend := by
  refine Gently.pop.bind fun back => ?_
  split
  · exact Gently.pop.bind fun _ => (Gently.push _).bind fun _ => done_gently
  · exact done_gently

theorem opPop_gently : Gently refunds opPop := Gently.pop.bind fun _ => done_gently

theorem onSlot_gently {read : Frame → Int → StateDB → Int × StateDB}
    (inert : ∀ fr slot s, Valid s → Inert refunds s (read fr slot s).2) : Gently refunds (onSlot read) := by
  refine Gently.pop.bind fun slot => Gently.get.bind fun fr => ?_
  exact (Gently.readDb (inert fr slot)).bind fun _ => (Gently.push _).bind fun _ => done_gently

theorem opBalance_gently : Gently refunds opBalance :=
  onSlot_gently fun _ slot _ valid => Op.inert_apply valid (show (Op.getBalance (bigToAddress slot)).inert = true from rfl) rfl

theorem opExtCodeSize_gently : Gently refunds opExtCodeSize :=
  onSlot_gently fun _ slot _ valid => Op.inert_apply valid (show (Op.getCodeSize (bigToAddress slot)).inert = true from rfl) rfl

theorem opSload_gently : Gently refunds opSload :=
  onSlot_gently fun fr loc _ valid =>
    Op.inert_apply valid (show (Op.getState fr.contract.self (bigToHash loc)).inert = true from rfl) rfl

theorem opExtCodeHash_gently : Gently refunds opExtCodeHash := by
  refine onSlot_gently fun fr slot s valid => ?_
  have emptied : Inert refunds s (s.empty (bigToAddress slot)).2 :=
    Op.inert_apply valid (show (Op.empty (bigToAddress slot)).inert = true from rfl) rfl
  simp only
  split
  · exact emptied
  · exact emptied.trans
      (Op.inert_apply emptied.evolves.valid (show (Op.getCodeHash (bigToAddress slot)).inert = true from rfl) rfl)

theorem opCallDataLoad_gently : Gently refunds opCallDataLoad := by
  refine Gently.get.bind fun fr => Gently.pop.bind fun start => ?_
  refine (Gently.lift fun fault failed => ?_).bind fun data => (Gently.push _).bind fun _ => done_gently
  rw [getDataBig_sliced _ _ _ _ failed]
  nofun

theorem dataCopy_gently (data : Bytes) : Gently refunds (dataCopy data) := by
  refine Gently.pop.bind fun memOffset => Gently.pop.bind fun dataOffset => Gently.pop.bind fun length => ?_
  refine (Gently.lift fun fault failed => ?_).bind fun copied => (memorySet_gently _ _ _).bind fun _ => done_gently
  rw [getDataBig_sliced _ _ _ _ failed]
  nofun

theorem opCallDataCopy_gently : Gently refunds opCallDataCopy := Gently.get.bind fun _ => dataCopy_gently _

theorem opCodeCopy_gently : Gently refunds opCodeCopy := Gently.get.bind fun _ => dataCopy_gently _

theorem opExtCodeCopy_gently : Gently refunds opExtCodeCopy := by
  refine Gently.pop.bind fun addr => (Gently.readDb fun s valid => ?_).bind fun code => dataCopy_gently code
  exact Op.inert_apply valid (show (Op.getCode (bigToAddress addr)).inert = true from rfl) rfl

theorem opReturnDataCopy_gently : Gently refunds opReturnDataCopy := by
  refine Gently.pop.bind fun memOffset => Gently.pop.bind fun dataOffset => Gently.pop.bind fun length => ?_
  refine Gently.get.bind fun fr => ?_
  dsimp only
  split
  · exact .fail _
  · refine (Gently.lift fun fault failed => ?_).bind fun copied => (memorySet_gently _ _ _).bind fun _ => done_gently
    rw [slice_sliced _ _ _ _ failed]
    nofun

theorem opMload_gently : Gently refunds opMload :=
  Gently.pop.bind fun _ => (memoryGet_gently _ _).bind fun _ => (Gently.push _).bind fun _ => done_gently

theorem opMstore_gently : Gently refunds opMstore :=
  Gently.pop.bind fun _ => Gently.pop.bind fun _ => (memorySet32_gently _ _).bind fun _ => done_gently

theorem opMstore8_gently : Gently refunds opMstore8 :=
  Gently.pop.bind fun _ => Gently.pop.bind fun _ => (memoryStore_gently _ _).bind fun _ => done_gently

theorem opSha3_gently (env : Env) : Gently refunds (opSha3 env) := by
  refine Gently.pop.bind fun offset => Gently.pop.bind fun size => (memoryGet_gently _ _).bind fun data => ?_
  refine (Gently.writeDb fun s valid => ?_).bind fun _ => (Gently.push _).bind fun _ => done_gently
  split
  · exact Op.inert_apply valid (show (Op.addPreimage (keccak256 data) data).inert = true from rfl) rfl
  · exact .refl valid

theorem makeDup_gently (size : Nat) : Gently refunds (makeDup size) :=
  ((Gently.back _).bind fun _ => .push _).bind fun _ => done_gently

theorem makeSwap_gently (size : Nat) : Gently refunds (makeSwap size) := by
  have swapped : Gently refunds (swap (size + 1)) := by
    refine (Gently.back _).bind fun deep => (Gently.back _).bind fun top => .modify fun fr => ?_
    exact .of_same rfl rfl rfl rfl
  exact swapped.bind fun _ => done_gently

theorem popTopics_gently (size : Nat) : Gently refunds (popTopics size) := by
  induction size with
  | zero => exact .pure []
  | succ size ih => exact Gently.pop.bind fun _ => ih.bind fun _ => .pure _

theorem makeLog_gently (env : Env) (size : Nat) : Gently refunds (makeLog env size) := by
  refine Gently.pop.bind fun mStart => Gently.pop.bind fun mSize => (popTopics_gently size).bind fun topics => ?_
  refine (memoryGet_gently _ _).bind fun d => Gently.get.bind fun fr => ?_
  refine (Gently.writeDb fun s valid => ?_).bind fun _ => done_gently
  exact Op.inert_apply valid
    (show (Op.addLog ⟨fr.contract.self, topics, d, env.blockNumber % 2 ^ 64, _, _, _, _⟩).inert = true from rfl) rfl

theorem returnRange_gently : Gently refunds returnRange :=
  Gently.pop.bind fun _ => Gently.pop.bind fun _ => memoryGetPtr_gently _ _

end Instructions

section Prices

variable {refunds : Bool} (env : Env)

theorem memoryRange_gently (off l : Nat) : Gently refunds (memoryRange off l) :=
  (Gently.back _).bind fun _ => (Gently.back _).bind fun _ => .pure _

theorem memoryFixed_gently (off length64 : Nat) : Gently refunds (memoryFixed off length64) :=
  (Gently.back _).bind fun _ => .pure _

theorem memoryRanges_gently (retOff retLen inOff inLen : Nat) : Gently refunds (memoryRanges retOff retLen inOff inLen) := by
  refine (memoryRange_gently _ _).bind fun ⟨x, overflow⟩ => ?_
  dsimp only
  split
  · exact .pure _
  · refine (memoryRange_gently _ _).bind fun ⟨y, overflow'⟩ => ?_
    dsimp only
    repeat' split
    all_goals exact .pure _

theorem memoryGasCost_gently (newMemSize : Nat) : Gently refunds (memoryGasCost newMemSize) := by
  intro fr
  unfold memoryGasCost
  split
  · exact .of_same rfl rfl rfl rfl
  · exact .refl fr

theorem checked_gently (result : Nat × Bool) : Gently refunds (checked result) := by
  unfold checked
  split
  · exact .fail _
  · exact .pure _

theorem gasWords_gently (base perWord operand size : Nat) : Gently refunds (gasWords base perWord operand size) := by
  refine (memoryGasCost_gently size).bind fun fee => (checked_gently _).bind fun gas => (Gently.back _).bind fun length => ?_
  exact (checked_gently _).bind fun words => (checked_gently _).bind fun words' => checked_gently _

theorem gasMemory_gently (base size : Nat) : Gently refunds (gasMemory base size) :=
  (memoryGasCost_gently size).bind fun _ => checked_gently _

theorem gasExp_gently (size : Nat) : Gently refunds (gasExp env size) := (Gently.back _).bind fun _ => checked_gently _

theorem makeGasLog_gently (n size : Nat) : Gently refunds (makeGasLog n size) := by
  refine (Gently.back _).bind fun length => (checked_gently _).bind fun requested => (memoryGasCost_gently size).bind fun fee => ?_
  refine (checked_gently _).bind fun gas => (checked_gently _).bind fun gas' => ?_
  exact (checked_gently _).bind fun data => checked_gently _

theorem gasForCall_gently (gt : GasTable) (gas : Nat) : Gently refunds (gasForCall gt gas) := by
  refine (Gently.back _).bind fun callCost => Gently.get.bind fun fr => ?_
  split
  · refine (Gently.modify fun fr => ?_).bind fun _ => .fail _
    exact .of_same rfl rfl rfl rfl
  · refine (Gently.modify fun fr => ?_).bind fun _ => checked_gently _
    exact .of_same rfl rfl rfl rfl

theorem newAccountGas_gently (transfersValue : Bool) (address : Address) :
    Gently refunds (newAccountGas env transfersValue address) := by
  unfold newAccountGas
  repeat' split
  · refine (Gently.readDb fun s valid => ?_).bind fun empty => .pure _
    exact Op.inert_apply valid (show (Op.empty address).inert = true from rfl) rfl
  · exact .pure _
  · refine (Gently.readDb fun s valid => ?_).bind fun exist => .pure _
    exact Op.inert_apply valid (show (Op.exist address).inert = true from rfl) rfl

theorem gasCall_gently (gt : GasTable) (size : Nat) : Gently refunds (gasCall env gt size) := by
  refine (Gently.back _).bind fun value => (Gently.back _).bind fun addr => (newAccountGas_gently env _ _).bind fun created => ?_
  exact (memoryGasCost_gently size).bind fun fee => (checked_gently _).bind fun gas => gasForCall_gently gt gas

theorem gasCallCode_gently (gt : GasTable) (size : Nat) : Gently refunds (gasCallCode gt size) := by
  refine (Gently.back _).bind fun value => (memoryGasCost_gently size).bind fun fee => ?_
  exact (checked_gently _).bind fun gas => gasForCall_gently gt gas

theorem gasPlainCall_gently (gt : GasTable) (size : Nat) : Gently refunds (gasPlainCall gt size) :=
  (memoryGasCost_gently size).bind fun _ => (checked_gently _).bind fun gas => gasForCall_gently gt gas

theorem beneficiaryGas_gently (self address : Address) : Gently refunds (beneficiaryGas env self address) := by
  unfold beneficiaryGas
  split
  · refine (Gently.readDb fun s valid => ?_).bind fun empty => ?_
    · exact Op.inert_apply valid (show (Op.empty address).inert = true from rfl) rfl
    · split
      · refine (Gently.readDb fun s valid => ?_).bind fun balance => .pure _
        exact Op.inert_apply valid (show (Op.getBalance self).inert = true from rfl) rfl
      · exact .pure _
  · refine (Gently.readDb fun s valid => ?_).bind fun exist => .pure _
    exact Op.inert_apply valid (show (Op.exist address).inert = true from rfl) rfl

theorem suicideGas_gently (self : Address) : Gently refunds (suicideGas env self) := by
  unfold suicideGas
  split
  · exact (Gently.back _).bind fun _ => (beneficiaryGas_gently env _ _).bind fun _ => .pure _
  · exact .pure _

theorem addRefund_gently (gas : Nat) : Gently true (addRefund gas) := .writeDb fun _ valid => addRefund_inert valid gas

theorem subRefund_gently (gas : Nat) : Gently true (subRefund gas) := by
  intro fr
  unfold subRefund
  split
  · next db result => exact ⟨rfl, rfl, rfl, fun valid => subRefund_inert valid result⟩
  · exact fun _ => rfl

theorem gasSuicide_gently (size : Nat) : Gently true (gasSuicide env size) := by
  refine Gently.get.bind fun fr => (suicideGas_gently env _).bind fun gas =>
    (Gently.readDb fun s valid => ?_).bind fun suicided => ?_
  · exact Op.inert_apply valid (show (Op.hasSuicided fr.contract.self).inert = true from rfl) rfl
  · split
    · exact .pure _
    · exact (addRefund_gently _).bind fun _ => .pure _

theorem gasSStoreLegacy_gently (current : Hash) (y : Int) : Gently true (gasSStoreLegacy current y) := by
  unfold gasSStoreLegacy
  repeat' split
  · exact .pure _
  · exact (addRefund_gently _).bind fun _ => .pure _
  · exact .pure _

theorem gasSStoreNet_gently (original current value : Hash) : Gently true (gasSStoreNet original current value) := by
  have dirty : Gently true (refundDirty original current value) := by
    unfold refundDirty
    repeat' split
    · exact subRefund_gently _
    · exact addRefund_gently _
    · exact .pure _
    · exact .pure _
  have reset : Gently true (refundReset original value) := by
    unfold refundReset
    repeat' split
    · exact addRefund_gently _
    · exact addRefund_gently _
    · exact .pure _
  unfold gasSStoreNet
  repeat' split
  · exact .pure _
  · exact (addRefund_gently _).bind fun _ => .pure _
  · exact .pure _
  · exact dirty.bind fun _ => reset.bind fun _ => .pure _

theorem gasSStore_gently (size : Nat) : Gently true (gasSStore env size) := by
  refine (Gently.back _).bind fun y => (Gently.back _).bind fun x => Gently.get.bind fun fr => ?_
  refine (Gently.readDb fun s valid => ?_).bind fun current => ?_
  · exact Op.inert_apply valid (show (Op.getState fr.contract.self (bigToHash x)).inert = true from rfl) rfl
  · repeat' split
    · exact gasSStoreLegacy_gently current y
    · exact .pure _
    · refine (Gently.readDb fun s valid => ?_).bind fun original => gasSStoreNet_gently original current _
      exact Op.inert_apply valid (show (Op.getCommittedState fr.contract.self (bigToHash x)).inert = true from rfl) rfl

end Prices

end CuteEVM
