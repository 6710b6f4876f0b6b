import CuteEVM.VM.Interpreter
import CuteEVM.VM.Precompiles

set_option autoImplicit false

namespace CuteEVM

open CallTree

variable [Crypto] (env : Env)

/-! `core.CanTransfer` and `core.Transfer` -/

def canTransfer (db : StateDB) (addr : Address) (amount : Int) : Bool × StateDB :=
  let (balance, db) := db.getBalance addr
  (balance ≥ amount, db)

def transfer (db : StateDB) (sender recipient : Address) (amount : Int) : StateDB :=
  (db.subBalance sender amount).addBalance recipient amount

/-! `evm.go` -/

-- A contract without a parent starts its own cache of jump analyses.
def EVM.shareJumpdests (evm : EVM) : ContractRef → EVM
  | .contract _ => evm
  | .accountRef _ => { evm with jumpdests := fun _ => none }

-- Precompiled contracts run natively, all other code in the interpreter.
def run (request : RunReq) : Prog RunReq RunRes Panic RunRes :=
  match request.contract.codeAddr.bind (precompiles env) with
  | none => .call request .ret
  | some p =>
    match runPrecompiledContract p request.input request.contract with
    | .error fault => .panic fault
    | .ok (.ok ret, contract) => .ret ⟨request.evm, contract, ret, none⟩
    | .ok (.error err, contract) => .ret ⟨request.evm, contract, [], some err⟩

-- The end of the four calls: an error undoes everything since the snapshot, and all but a revert
-- use up the gas.
def settle (snapshot : Nat) (suicides : List Destroyed) (res : RunRes) : Prog RunReq RunRes Panic Reply :=
  match res.err with
  | none => .ret { evm := res.evm, ret := res.ret, leftOverGas := res.contract.gas }
  | some err =>
    match res.evm.db.revertToSnapshot snapshot with
    | .error fault => .panic fault
    | .ok db => .ret {
        evm := { res.evm with db := db, trace := { res.evm.trace with suicides := suicides } }
        ret := res.ret
        leftOverGas := if err = .executionReverted then res.contract.gas else 0
        err := some err }

-- The checks at the head of the four calls. `checkBalance` is off where no value is passed.
def admitCall (inv : Invocation) (checkBalance : Bool) : Except Reply EVM :=
  if env.noRecursion && inv.evm.depth > 0 then .error { evm := inv.evm, leftOverGas := inv.gas }
  else if inv.evm.depth > CallCreateDepth then
    .error { evm := inv.evm, leftOverGas := inv.gas, err := some .depth }
  else if checkBalance then
    let (can, db) := canTransfer inv.evm.db inv.caller.address inv.value
    let evm := { inv.evm with db := db }
    if can then .ok evm
    else .error { evm := evm, leftOverGas := inv.gas, err := some .insufficientBalance }
  else .ok inv.evm

def callFrame (inv : Invocation) (evm : EVM) (snapshot : Nat) (contract : Contract) (readOnly : Bool) :
    Prog RunReq RunRes Panic Reply :=
  let (hash, db) := evm.db.getCodeHash inv.addr
  let (code, db) := db.getCode inv.addr
  -- StaticCall touches the account between setting the code and running it.
  let db := if readOnly then db.addBalance inv.addr 0 else db
  let evm := { evm.shareJumpdests inv.caller with db := db }
  (run env ⟨evm, contract.setCallCode inv.addr hash code, inv.input, readOnly⟩).bind
    (settle snapshot inv.evm.trace.suicides)

def EVM.call (inv : Invocation) : Prog RunReq RunRes Panic Reply :=
  match admitCall env inv true with
  | .error reply => .ret reply
  | .ok evm =>
    let (snapshot, db) := evm.db.snapshot
    let (exist, db) := db.exist inv.addr
    if !exist && (precompiles env inv.addr).isNone && env.isEIP158 && inv.value = 0 then
      .ret { evm := { evm with db := db }, leftOverGas := inv.gas }
    else
      let db := if exist then db else db.createAccount inv.addr
      let db := transfer db inv.caller.address inv.addr inv.value
      callFrame env inv { evm with db := db } snapshot
        (.newContract inv.caller inv.addr inv.value inv.gas) false

def EVM.callCode (inv : Invocation) : Prog RunReq RunRes Panic Reply :=
  match admitCall env inv true with
  | .error reply => .ret reply
  | .ok evm =>
    let (snapshot, db) := evm.db.snapshot
    callFrame env inv { evm with db := db } snapshot
      (.newContract inv.caller inv.caller.address inv.value inv.gas) false

def EVM.delegateCall (inv : Invocation) : Prog RunReq RunRes Panic Reply :=
  match admitCall env inv false with
  | .error reply => .ret reply
  | .ok evm =>
    let (snapshot, db) := evm.db.snapshot
    match (Contract.newContract inv.caller inv.caller.address 0 inv.gas).asDelegate inv.caller with
    | .error fault => .panic fault
    | .ok contract => callFrame env inv { evm with db := db } snapshot contract false

def EVM.staticCall (inv : Invocation) : Prog RunReq RunRes Panic Reply :=
  match admitCall env inv false with
  | .error reply => .ret reply
  | .ok evm =>
    let (snapshot, db) := evm.db.snapshot
    callFrame env inv { evm with db := db } snapshot
      (.newContract inv.caller inv.addr 0 inv.gas) true

-- Deploy the returned code, if the run succeeded, the code is not too long and its gas is paid.
def depositCode (address : Address) (maxCodeSizeExceeded : Bool) (res : RunRes) : RunRes :=
  if res.err = none ∧ !maxCodeSizeExceeded then
    match res.contract.useGas (mul64 res.ret.length CreateDataGas) with
    | (true, contract) =>
      { res with contract := contract, evm := { res.evm with db := res.evm.db.setCode address res.ret } }
    | (false, _) => { res with err := some .codeStoreOutOfGas }
  else res

-- The end of a creation. Before Homestead, gas that does not cover the code is not a failure.
def settleCreate (address : Address) (snapshot : Nat) (suicides : List Destroyed) (run : RunRes) :
    Prog RunReq RunRes Panic Reply :=
  let maxCodeSizeExceeded := env.isEIP158 && run.ret.length > MaxCodeSize
  let res := depositCode address maxCodeSizeExceeded run
  let err := if maxCodeSizeExceeded && res.err = none then some .maxCodeSizeExceeded else res.err
  if maxCodeSizeExceeded || (res.err ≠ none && (env.isHomestead || res.err ≠ some .codeStoreOutOfGas)) then
    match res.evm.db.revertToSnapshot snapshot with
    | .error fault => .panic fault
    | .ok db => .ret {
        evm := { res.evm with db := db, trace := { res.evm.trace with suicides := suicides } }
        ret := res.ret
        contractAddr := address
        leftOverGas := if res.err = some .executionReverted then res.contract.gas else 0
        err := err }
  else .ret { evm := res.evm, ret := res.ret, contractAddr := address, leftOverGas := res.contract.gas, err := err }

-- `evm.create`, which starts by raising the nonce of the caller.
def EVM.createAt (inv : Invocation) (codeHash : Hash) (address : Address) :
    Prog RunReq RunRes Panic Reply :=
  if inv.evm.depth > CallCreateDepth then
    .ret { evm := inv.evm, leftOverGas := inv.gas, err := some .depth }
  else
    let (can, db) := canTransfer inv.evm.db inv.caller.address inv.value
    if !can then .ret { evm := { inv.evm with db := db }, leftOverGas := inv.gas, err := some .insufficientBalance }
    else
      let (nonce, db) := db.getNonce inv.caller.address
      let db := db.setNonce inv.caller.address (add64 nonce 1)
      let (contractHash, db) := db.getCodeHash address
      let (taken, db) := db.getNonce address
      if taken ≠ 0 || (contractHash ≠ 0 && contractHash ≠ emptyCodeHash) then
        .ret { evm := { inv.evm with db := db }, leftOverGas := 0, err := some .contractAddressCollision }
      else
        let (snapshot, db) := db.snapshot
        let db := db.createAccount address
        let db := if env.isEIP158 then db.setNonce address 1 else db
        let db := transfer db inv.caller.address address inv.value
        let contract := { Contract.newContract inv.caller address inv.value inv.gas with
          code := inv.input, codeHash := codeHash, codeAddr := some address }
        let evm := { inv.evm.shareJumpdests inv.caller with db := db }
        if env.noRecursion && inv.evm.depth > 0 then
          .ret { evm := evm, contractAddr := address, leftOverGas := inv.gas }
        else
          (run env ⟨evm, contract, [], false⟩).bind
            (settleCreate env address snapshot inv.evm.trace.suicides)

def rlpUint (value : Nat) : Bytes :=
  let bytes := minimalBytes value
  if value ≠ 0 ∧ value < 128 then bytes else UInt8.ofNat (0x80 + bytes.length) :: bytes

-- `rlp.EncodeToBytes([]interface{}{b, nonce})`; the payload is shorter than 56 bytes.
def rlpAddressNonce (b : Address) (nonce : Nat) : Bytes :=
  let payload := 0x94 :: bigEndian 20 b.toNat ++ rlpUint nonce
  UInt8.ofNat (0xc0 + payload.length) :: payload

def createAddress (b : Address) (nonce : Nat) : Address :=
  (keccak256 (rlpAddressNonce b nonce)).setWidth 160

def createAddress2 (b : Address) (salt inithash : Hash) : Address :=
  (keccak256 (0xff :: bigEndian 20 b.toNat ++ bigEndian 32 salt.toNat ++ bigEndian 32 inithash.toNat)).setWidth 160

def EVM.create (inv : Invocation) : Prog RunReq RunRes Panic Reply :=
  let (nonce, db) := inv.evm.db.getNonce inv.caller.address
  EVM.createAt env { inv with evm := { inv.evm with db := db } } 0 (createAddress inv.caller.address nonce)

def EVM.create2 (inv : Invocation) : Prog RunReq RunRes Panic Reply :=
  let codeHash := keccak256 inv.input
  EVM.createAt env inv codeHash (createAddress2 inv.caller.address (bigToHash inv.salt) codeHash)

def entry (inv : Invocation) : Prog RunReq RunRes Panic Reply :=
  match inv.kind with
  | .call => EVM.call env inv
  | .callCode => EVM.callCode env inv
  | .delegateCall => EVM.delegateCall env inv
  | .staticCall => EVM.staticCall env inv
  | .create => EVM.create env inv
  | .create2 => EVM.create2 env inv

-- The mutual recursion of `Run` and the entry points: a loop whose nested calls start it again.
def machine : Machine Frame RunReq RunRes Panic where
  start := start
  step := fun fr => (step env fr).inline (entry env)

def invoke (fuel : Nat) (inv : Invocation) : Outcome Panic Reply :=
  (entry env inv).handle ((machine env).run fuel)

-- The call returns this reply.
def Answers (inv : Invocation) (reply : Reply) : Prop := ∃ fuel, invoke env fuel inv = .ret reply

-- The frames that are active at some point of the execution of a call from outside.
def Running (inv : Invocation) (frames : List (RunReq × Frame)) : Prop :=
  ∃ root, (entry env inv).Makes (machine env).Returns root ∧ (machine env).Active root frames

-- The calls of entry points that happen in a call from outside, with that call itself.
inductive Invoked (root : Invocation) : Invocation → Prop where
  | root : Invoked root root
  | nested {request : RunReq} {fr : Frame} {outer : List (RunReq × Frame)} {inv : Invocation}
      (running : Running env root ((request, fr) :: outer)) (makes : (step env fr).Makes (Answers env) inv) :
      Invoked root inv

end CuteEVM
