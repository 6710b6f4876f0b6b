import CuteEVM.Proofs.Natives
import CuteEVM.Proofs.Step

set_option autoImplicit false

-- What `Call`, `CallCode`, `DelegateCall`, `StaticCall`, `Create` and `Create2` do before and after they run code.

namespace CuteEVM

open CallTree

variable [Crypto] {env : Env} {inv : Invocation} {s s' : StateDB} {checkBalance : Bool}

structure Unchanged (s s' : StateDB) : Prop where
  evolves : Evolves s s'
  world : s'.world = s.world
  balances : s'.balances = s.balances

theorem Reads.unchanged (reads : Reads s s') : Unchanged s s' :=
  ⟨reads.evolves, reads.world, reads.balances⟩

theorem Unchanged.trans {s t u : StateDB} (first : Unchanged s t) (second : Unchanged t u) : Unchanged s u :=
  ⟨first.evolves.trans second.evolves, second.world.trans first.world, second.balances.trans first.balances⟩

theorem snapshot_unchanged (valid : Valid s) : Unchanged s s.snapshot.2 :=
  ⟨snapshot_evolves valid, snapshot_world s, snapshot_balances s⟩

theorem Unchanged.observe (same : Unchanged s s') : s'.observe = s.observe :=
  observe_congr same.world same.evolves.codes

def move (balances : Address → Int) (sender recipient : Address) (amount : Int) : Address → Int :=
  let paid := Function.update balances sender (balances sender - amount)
  Function.update paid recipient (paid recipient + amount)

section Transfer

theorem canTransfer_reads (valid : Valid s) (addr : Address) (amount : Int) : Reads s (canTransfer s addr amount).2 :=
  StateDB.getBalance_reads valid addr

omit [Crypto] in
theorem canTransfer_value (s : StateDB) (addr : Address) (amount : Int) :
    (canTransfer s addr amount).1 = decide (amount ≤ s.balances addr) := by
  simp only [canTransfer, StateDB.getBalance_value, ge_iff_le]

theorem transfer_evolves (valid : Valid s) (sender recipient : Address) (amount : Int) :
    Evolves s (transfer s sender recipient amount) :=
  have paid := subBalance_evolves valid sender amount
  paid.trans (addBalance_evolves paid.valid recipient amount)

theorem transfer_balances (valid : Valid s) (sender recipient : Address) (amount : Int) :
    (transfer s sender recipient amount).balances = move s.balances sender recipient amount := by
  have paid := subBalance_evolves valid sender amount
  simp only [transfer, move, addBalance_balances paid.valid, subBalance_balances valid]

theorem canTransfer_inert (valid : Valid s) (addr : Address) (amount : Int) : Inert false s (canTransfer s addr amount).2 :=
  Op.inert_apply valid (show (Op.getBalance addr).inert = true from rfl) rfl

theorem transfer_inert (valid : Valid s) (sender recipient : Address) (amount : Int) :
    Inert false s (transfer s sender recipient amount) := by
  have paid : Inert false s (s.subBalance sender amount) :=
    Op.inert_apply valid (show (Op.subBalance sender amount).inert = true from rfl) rfl
  exact paid.trans (Op.inert_apply paid.evolves.valid (show (Op.addBalance recipient amount).inert = true from rfl) rfl)

theorem snapshot_inert (valid : Valid s) : Inert false s s.snapshot.2 :=
  Op.inert_apply valid (show Op.snapshot.inert = true from rfl) rfl

theorem transfer_quiet (valid : Valid s) (sender recipient : Address) :
    s.world.Quiet (transfer s sender recipient 0).world :=
  have paid := subBalance_evolves valid sender 0
  (subBalance_quiet valid sender).trans (addBalance_quiet paid.valid recipient)

end Transfer

structure Declines (inv : Invocation) (reply : Reply) : Prop where
  evm : reply.evm = { inv.evm with db := reply.evm.db }
  gas : reply.leftOverGas = inv.gas
  err : reply.err = some .depth ∨ reply.err = some .insufficientBalance ∨
    (reply.err = none ∧ inv.kind.creates = false)
  db : Valid inv.evm.db → Unchanged inv.evm.db reply.evm.db
  inert : Valid inv.evm.db → Inert false inv.evm.db reply.evm.db

structure Nonced (s : StateDB) (creator : Address) (s' : StateDB) : Prop where
  evolves : Evolves s s'
  balances : s'.balances = s.balances
  observe : s'.observe = (s.setNonce creator (add64 (s.getNonce creator).1 1)).observe
  effects : Effects s s' (Function.update s.facts creator { s.facts creator with nonce := add64 (s.facts creator).nonce 1 })

-- The creation raises the nonce of the creator, whatever happens then.
def Invocation.Proceeds (inv : Invocation) : Prop :=
  inv.evm.depth ≤ CallCreateDepth ∧ inv.value ≤ inv.evm.db.balances inv.caller.address

structure Collides (inv : Invocation) (reply : Reply) : Prop where
  kind : inv.kind.creates = true
  proceeds : Valid inv.evm.db → inv.Proceeds
  evm : reply.evm = { inv.evm with db := reply.evm.db }
  gas : reply.leftOverGas = 0
  err : reply.err = some .contractAddressCollision
  db : Valid inv.evm.db → Nonced inv.evm.db inv.caller.address reply.evm.db

def Invocation.executes (inv : Invocation) : Address :=
  if inv.kind = .call ∨ inv.kind = .staticCall then inv.addr else inv.caller.address

structure Loads (inv : Invocation) (contract : Contract) : Prop where
  self : contract.self = inv.executes
  code : ∃ db, (Valid inv.evm.db → Inert false inv.evm.db db) ∧ contract.codeHash = (db.getCodeHash inv.addr).1 ∧
    contract.code = ((db.getCodeHash inv.addr).2.getCode inv.addr).1

structure Opens (inv : Invocation) (before : StateDB) (request : RunReq) : Prop where
  shallow : inv.evm.depth ≤ CallCreateDepth
  proceeds : inv.kind.creates = true → Valid inv.evm.db → inv.Proceeds
  evm : request.evm = { inv.evm with db := request.evm.db, jumpdests := request.evm.jumpdests }
  gas : request.contract.gas = inv.gas
  readOnly : request.readOnly = decide (inv.kind = .staticCall)
  input : inv.kind.creates = true → request.input = []
  value : 0 ≤ inv.value → (∀ parent, inv.caller = .contract parent → 0 ≤ parent.value) → 0 ≤ request.contract.value
  reads : inv.kind.creates = false → Valid inv.evm.db → Reads inv.evm.db before
  nonced : inv.kind.creates = true → Valid inv.evm.db → Nonced inv.evm.db inv.caller.address before
  evolves : Valid inv.evm.db → Evolves before.snapshot.2 request.evm.db
  moved : Valid inv.evm.db → request.evm.db.balances = before.balances ∨ inv.value ≤ before.balances inv.caller.address ∧
    ∃ recipient, request.evm.db.balances = move before.balances inv.caller.address recipient inv.value
  quiet : Valid inv.evm.db → inv.kind.creates = false → (inv.kind = .call → inv.value = 0) →
    before.world.Quiet request.evm.db.world
  cache : request.evm.jumpdests = (inv.evm.shareJumpdests inv.caller).jumpdests
  unanalysed : request.contract.analysis = none
  inert : inv.kind.creates = false → Valid inv.evm.db → Inert false inv.evm.db before ∧
    Inert false before.snapshot.2 request.evm.db
  loads : inv.kind.creates = false → Loads inv request.contract

theorem Opens.prior {inv : Invocation} {before : StateDB} {request : RunReq} (opens : Opens inv before request)
    (valid : Valid inv.evm.db) : Evolves inv.evm.db before ∧ before.balances = inv.evm.db.balances := by
  cases kind : inv.kind.creates with
  | false =>
    have reads := opens.reads kind valid
    exact ⟨reads.evolves, reads.balances⟩
  | true =>
    have nonced := opens.nonced kind valid
    exact ⟨nonced.evolves, nonced.balances⟩

section Calls

theorem admitCall_declines {reply : Reply} (kind : inv.kind.creates = false)
    (refused : admitCall env inv checkBalance = .error reply) : Declines inv reply := by
  unfold admitCall at refused
  split at refused
  · obtain rfl := Except.error.inj refused
    exact ⟨rfl, rfl, .inr (.inr ⟨rfl, kind⟩), fun valid => (Reads.refl valid).unchanged, .refl⟩
  · split at refused
    · obtain rfl := Except.error.inj refused
      exact ⟨rfl, rfl, .inl rfl, fun valid => (Reads.refl valid).unchanged, .refl⟩
    · split at refused
      · simp only at refused
        split at refused
        · simp at refused
        · obtain rfl := Except.error.inj refused
          exact ⟨rfl, rfl, .inr (.inl rfl), fun valid => (canTransfer_reads valid inv.caller.address inv.value).unchanged,
            fun valid => canTransfer_inert valid inv.caller.address inv.value⟩
      · simp at refused

theorem admitCall_ok {evm : EVM} (admitted : admitCall env inv checkBalance = .ok evm) :
    inv.evm.depth ≤ CallCreateDepth ∧ evm = { inv.evm with db := evm.db } ∧
      (Valid inv.evm.db → Reads inv.evm.db evm.db) ∧
      (checkBalance = true → inv.value ≤ inv.evm.db.balances inv.caller.address) ∧
      (Valid inv.evm.db → Inert false inv.evm.db evm.db) := by
  unfold admitCall at admitted
  split at admitted
  · simp at admitted
  · split at admitted
    · simp at admitted
    · next shallow =>
      split at admitted
      · simp only at admitted
        split at admitted
        · next can =>
          obtain rfl := Except.ok.inj admitted
          rw [canTransfer_value] at can
          exact ⟨Nat.not_lt.mp shallow, rfl, fun valid => canTransfer_reads valid inv.caller.address inv.value,
            fun _ => of_decide_eq_true can, fun valid => canTransfer_inert valid inv.caller.address inv.value⟩
        · simp at admitted
      · next unchecked =>
        obtain rfl := Except.ok.inj admitted
        exact ⟨Nat.not_lt.mp shallow, rfl, Reads.refl, fun checked => absurd checked unchecked, .refl⟩

theorem callFrame_request (env : Env) (inv : Invocation) (evm : EVM) (snapshot : Nat) (contract : Contract) (readOnly : Bool) :
    ∃ request, callFrame env inv evm snapshot contract readOnly =
        (run env request).bind (settle snapshot inv.evm.trace.suicides) ∧
      request.evm = { evm with db := request.evm.db, jumpdests := request.evm.jumpdests } ∧
      request.contract.gas = contract.gas ∧ request.contract.value = contract.value ∧ request.readOnly = readOnly ∧
      (Valid evm.db → Gentle false evm.db request.evm.db ∧ Inert false evm.db request.evm.db) ∧
      request.evm.jumpdests = (evm.shareJumpdests inv.caller).jumpdests ∧
      request.contract = { contract with
        code := ((evm.db.getCodeHash inv.addr).2.getCode inv.addr).1
        codeHash := (evm.db.getCodeHash inv.addr).1
        codeAddr := some inv.addr } := by
  refine ⟨_, rfl, ?_, rfl, rfl, rfl, fun valid => ?_, rfl, rfl⟩
  · unfold EVM.shareJumpdests
    cases inv.caller <;> rfl
  · have hash := StateDB.getCodeHash_reads valid inv.addr
    have code := StateDB.getCode_reads hash.valid inv.addr
    have loaded := (hash.trans code).gentle false
    have read : Inert false evm.db ((evm.db.getCodeHash inv.addr).2.getCode inv.addr).2 :=
      (Op.inert_apply valid (show (Op.getCodeHash inv.addr).inert = true from rfl) rfl).trans
        (Op.inert_apply hash.valid (show (Op.getCode inv.addr).inert = true from rfl) rfl)
    cases readOnly with
    | false => exact ⟨loaded, read⟩
    | true =>
      have touched := addBalance_evolves code.valid inv.addr 0
      refine ⟨?_, read.trans (Op.inert_apply code.valid (show (Op.addBalance inv.addr 0).inert = true from rfl) rfl)⟩
      show Gentle false evm.db (((evm.db.getCodeHash inv.addr).2.getCode inv.addr).2.addBalance inv.addr 0)
      refine loaded.trans ⟨touched, ?_, fun _ => addBalance_quiet code.valid inv.addr⟩
      rw [addBalance_balances code.valid, Int.add_zero, Function.update_eq_self]

theorem callFrame_opens (kind : inv.kind.creates = false) {evm : EVM}
    (admitted : admitCall env inv checkBalance = .ok evm) (db : StateDB) (contract : Contract) (readOnly : Bool)
    (made : Valid inv.evm.db → Inert false evm.db.snapshot.2 db)
    (moved : Valid inv.evm.db → db.balances = evm.db.balances ∨ inv.value ≤ evm.db.balances inv.caller.address ∧
      ∃ recipient, db.balances = move evm.db.balances inv.caller.address recipient inv.value)
    (quiet : Valid inv.evm.db → (inv.kind = .call → inv.value = 0) → evm.db.world.Quiet db.world)
    (gas : contract.gas = inv.gas) (fresh : contract.analysis = none) (self : contract.self = inv.executes)
    (static : readOnly = decide (inv.kind = .staticCall))
    (value : 0 ≤ inv.value → (∀ parent, inv.caller = .contract parent → 0 ≤ parent.value) → 0 ≤ contract.value) :
    ∃ request, callFrame env inv { evm with db := db } evm.db.snapshot.1 contract readOnly =
        (run env request).bind (settle evm.db.snapshot.1 inv.evm.trace.suicides) ∧ Opens inv evm.db request := by
  obtain ⟨shallow, same, reads, -, inert⟩ := admitCall_ok admitted
  obtain ⟨request, body, evm', gas', value', readOnly', loads, cache, built⟩ :=
    callFrame_request env inv { evm with db := db } evm.db.snapshot.1 contract readOnly
  have taken : Valid inv.evm.db → Inert false inv.evm.db db := fun valid =>
    have prior := inert valid
    prior.trans ((snapshot_inert prior.evolves.valid).trans (made valid))
  refine ⟨request, body, ?_⟩
  exact {
    shallow := shallow
    proceeds := by simp [kind]
    evm := by rw [evm', same]
    gas := gas'.trans gas
    readOnly := readOnly'.trans static
    input := by simp [kind]
    value := by rw [value']; exact value
    reads := fun _ => reads
    nonced := by simp [kind]
    evolves := fun valid =>
      have opened := (made valid).evolves
      opened.trans (loads opened.valid).1.evolves
    moved := fun valid => by
      rw [(loads (made valid).evolves.valid).1.balances]
      exact moved valid
    quiet := fun valid _ free => (quiet valid free).trans ((loads (made valid).evolves.valid).1.quiet rfl)
    cache := by
      rw [cache, same]
      unfold EVM.shareJumpdests
      cases inv.caller <;> rfl
    unanalysed := by rw [built]; exact fresh
    inert := fun _ valid => ⟨inert valid, (made valid).trans (loads (made valid).evolves.valid).2⟩
    loads := fun _ => ⟨by rw [built]; exact self, db, taken, by rw [built], by rw [built]⟩ }

def Enters (env : Env) (inv : Invocation) (body : Prog RunReq RunRes Panic Reply) : Prop :=
  (∃ reply, body = .ret reply ∧ Declines inv reply) ∨ body = .panic .notAContract ∨
    ∃ before request, body = (run env request).bind (settle before.snapshot.1 inv.evm.trace.suicides) ∧
      Opens inv before request

theorem exist_or_create (valid : Valid s) (a : Address) :
    Gentle false s (if (s.exist a).1 then (s.exist a).2 else (s.exist a).2.createAccount a) ∧
      Inert false s (if (s.exist a).1 then (s.exist a).2 else (s.exist a).2.createAccount a) := by
  have reads := StateDB.exist_reads valid a
  have inert : Inert false s (s.exist a).2 := Op.inert_apply valid (show (Op.exist a).inert = true from rfl) rfl
  split
  · exact ⟨reads.gentle false, inert⟩
  · next absent =>
    have missing : (s.exist a).2.lookup a = none := by
      cases found : s.lookup a with
      | some o => simp [StateDB.exist, s.getStateObject_eq, found] at absent
      | none =>
        simp only [StateDB.exist, s.getStateObject_eq, StateDB.load_of_missing found]
        exact found
    refine ⟨(reads.gentle false).trans ⟨createAccount_evolves reads.valid a, createAccount_balances reads.valid a,
      fun _ => createAccount_quiet missing⟩, inert.trans (createAccount_inert reads.valid missing)⟩

theorem call_enters (kind : inv.kind = .call) : Enters env inv (EVM.call env inv) := by
  have plain : inv.kind.creates = false := by rw [kind]; rfl
  unfold EVM.call
  cases admitted : admitCall env inv true with
  | error reply => exact .inl ⟨reply, rfl, admitCall_declines plain admitted⟩
  | ok evm =>
    obtain ⟨-, same, reads, covered, inert⟩ := admitCall_ok admitted
    dsimp only
    split
    · -- Nothing is run for an account that does not exist and gets no value.
      refine .inl ⟨_, rfl, ⟨by rw [same], rfl, .inr (.inr ⟨rfl, plain⟩), fun valid => ?_, fun valid => ?_⟩⟩
      · have taken := snapshot_unchanged (reads valid).valid
        exact (reads valid).unchanged.trans (taken.trans (StateDB.exist_reads taken.evolves.valid inv.addr).unchanged)
      · have taken := snapshot_inert (reads valid).valid
        exact (inert valid).trans (taken.trans
          (Op.inert_apply taken.evolves.valid (show (Op.exist inv.addr).inert = true from rfl) rfl))
    · have made : Valid inv.evm.db → Gentle false evm.db.snapshot.2 _ ∧ Inert false evm.db.snapshot.2 _ :=
        fun valid => exist_or_create (snapshot_evolves (reads valid).valid).valid inv.addr
      generalize (if (evm.db.snapshot.2.exist inv.addr).1 = true then (evm.db.snapshot.2.exist inv.addr).2
        else (evm.db.snapshot.2.exist inv.addr).2.createAccount inv.addr) = db at made
      have moved : Valid inv.evm.db → (transfer db inv.caller.address inv.addr inv.value).balances =
          move evm.db.balances inv.caller.address inv.addr inv.value := by
        intro valid
        rw [transfer_balances (made valid).1.evolves.valid, (made valid).1.balances, snapshot_balances]
      have quiet : Valid inv.evm.db → (inv.kind = .call → inv.value = 0) →
          evm.db.world.Quiet (transfer db inv.caller.address inv.addr inv.value).world := by
        intro valid free
        rw [free kind]
        exact ((made valid).1.quiet rfl).trans (transfer_quiet (made valid).1.evolves.valid _ _)
      have enough : Valid inv.evm.db → inv.value ≤ evm.db.balances inv.caller.address := by
        intro valid
        rw [(reads valid).balances]
        exact covered rfl
      obtain ⟨request, body, opens⟩ := callFrame_opens plain admitted
        (transfer db inv.caller.address inv.addr inv.value) (.newContract inv.caller inv.addr inv.value inv.gas) false
        (fun valid => (made valid).2.trans (transfer_inert (made valid).1.evolves.valid _ _ _))
        (fun valid => .inr ⟨enough valid, inv.addr, moved valid⟩) quiet rfl rfl
        (by simp [Invocation.executes, kind, Contract.newContract]) (by rw [kind]; rfl) (fun nonneg _ => nonneg)
      exact .inr (.inr ⟨evm.db, request, body, opens⟩)

theorem admitCall_taken {evm : EVM} (admitted : admitCall env inv checkBalance = .ok evm)
    (valid : Valid inv.evm.db) : Inert false evm.db.snapshot.2 evm.db.snapshot.2 :=
  .refl (snapshot_evolves ((admitCall_ok admitted).2.2.1 valid).valid).valid

theorem callCode_enters (kind : inv.kind = .callCode) : Enters env inv (EVM.callCode env inv) := by
  have plain : inv.kind.creates = false := by rw [kind]; rfl
  unfold EVM.callCode
  cases admitted : admitCall env inv true with
  | error reply => exact .inl ⟨reply, rfl, admitCall_declines plain admitted⟩
  | ok evm =>
    obtain ⟨request, body, opens⟩ := callFrame_opens plain admitted evm.db.snapshot.2
      (.newContract inv.caller inv.caller.address inv.value inv.gas) false
      (admitCall_taken admitted) (fun _ => .inl rfl) (fun _ _ => .refl _) rfl rfl
      (by simp [Invocation.executes, kind, Contract.newContract]) (by rw [kind]; rfl) (fun nonneg _ => nonneg)
    exact .inr (.inr ⟨evm.db, request, body, opens⟩)

theorem delegateCall_enters (kind : inv.kind = .delegateCall) : Enters env inv (EVM.delegateCall env inv) := by
  have plain : inv.kind.creates = false := by rw [kind]; rfl
  unfold EVM.delegateCall
  cases admitted : admitCall env inv false with
  | error reply => exact .inl ⟨reply, rfl, admitCall_declines plain admitted⟩
  | ok evm =>
    cases caller : inv.caller with
    | accountRef addr => exact .inr (.inl rfl)
    | contract parent =>
      -- The callee sees the value and the caller of the frame that delegates.
      obtain ⟨request, body, opens⟩ := callFrame_opens plain admitted evm.db.snapshot.2
        { Contract.newContract inv.caller inv.caller.address 0 inv.gas with
          callerAddress := parent.callerAddress, value := parent.value } false
        (admitCall_taken admitted) (fun _ => .inl rfl) (fun _ _ => .refl _) rfl rfl
        (by simp [Invocation.executes, kind, Contract.newContract]) (by rw [kind]; rfl) (fun _ parents => parents parent caller)
      rw [caller] at body
      exact .inr (.inr ⟨evm.db, request, body, opens⟩)

theorem staticCall_enters (kind : inv.kind = .staticCall) : Enters env inv (EVM.staticCall env inv) := by
  have plain : inv.kind.creates = false := by rw [kind]; rfl
  unfold EVM.staticCall
  cases admitted : admitCall env inv false with
  | error reply => exact .inl ⟨reply, rfl, admitCall_declines plain admitted⟩
  | ok evm =>
    obtain ⟨request, body, opens⟩ := callFrame_opens plain admitted evm.db.snapshot.2
      (.newContract inv.caller inv.addr 0 inv.gas) true
      (admitCall_taken admitted) (fun _ => .inl rfl) (fun _ _ => .refl _) rfl rfl
      (by simp [Invocation.executes, kind, Contract.newContract]) (by rw [kind]; rfl) (fun _ _ => Int.le_refl 0)
    exact .inr (.inr ⟨evm.db, request, body, opens⟩)

end Calls

section Creations

theorem Reads.getNonce (reads : Reads s s') (a : Address) : (s'.getNonce a).1 = (s.getNonce a).1 :=
  congrFun (congrArg Observation.nonce reads.observe) a

theorem Reads.getCodeHash (reads : Reads s s') (a : Address) :
    (s'.getCodeHash a).1 = (s.getCodeHash a).1 :=
  congrFun (congrArg Observation.codeHash reads.observe) a

theorem looked_again (valid : Valid s) (a : Address) :
    (((s.getCodeHash a).2.getNonce a).2.getNonce a).1 = ((s.getCodeHash a).2.getNonce a).1 ∧
      (((s.getCodeHash a).2.getNonce a).2.getCodeHash a).1 = (s.getCodeHash a).1 := by
  have hash := StateDB.getCodeHash_reads valid a
  have nonce := StateDB.getNonce_reads hash.valid a
  exact ⟨nonce.getNonce a, (hash.trans nonce).getCodeHash a⟩

theorem raise_nonced (valid : Valid s) (reads : Reads s s') (inert : Inert false s s') (creator address : Address) :
    Nonced s creator ((((s'.getNonce creator).2.setNonce creator (add64 (s'.getNonce creator).1 1)).getCodeHash
      address).2.getNonce address).2 := by
  have seen := reads.trans (StateDB.getNonce_reads reads.valid creator)
  have raised := setNonce_evolves seen.valid creator (add64 (s'.getNonce creator).1 1)
  have hash := StateDB.getCodeHash_reads raised.valid address
  have looked := hash.trans (StateDB.getNonce_reads hash.valid address)
  refine ⟨seen.evolves.trans (raised.trans looked.evolves), ?_, ?_, ?_⟩
  · rw [looked.balances, setNonce_balances seen.valid, seen.balances]
  · rw [looked.observe, setNonce_observe valid seen, reads.getNonce]
  · have read : Inert false s (s'.getNonce creator).2 :=
      inert.trans (Op.inert_apply reads.valid (show (Op.getNonce creator).inert = true from rfl) rfl)
    have effects := setNonce_effects seen.valid creator (add64 (s'.getNonce creator).1 1)
    rw [getNonce_facts, read.facts, inert.facts] at effects
    refine (read.effects.trans effects).after ?_
    rw [← inert.facts, ← getNonce_facts]
    exact (Op.inert_apply raised.valid (show (Op.getCodeHash address).inert = true from rfl) rfl).trans
      (Op.inert_apply hash.valid (show (Op.getNonce address).inert = true from rfl) rfl)

def newAccount (eip158 : Bool) (s : StateDB) (a : Address) : StateDB :=
  if eip158 then (s.createAccount a).setNonce a 1 else s.createAccount a

theorem newAccount_evolves (valid : Valid s) (eip158 : Bool) (a : Address) :
    Evolves s (newAccount eip158 s a) := by
  have made := createAccount_evolves valid a
  unfold newAccount
  split
  · exact made.trans (setNonce_evolves made.valid a 1)
  · exact made

theorem newAccount_balances (valid : Valid s) (eip158 : Bool) (a : Address) :
    (newAccount eip158 s a).balances = s.balances := by
  have made := createAccount_evolves valid a
  unfold newAccount
  split
  · rw [setNonce_balances made.valid, createAccount_balances valid]
  · exact createAccount_balances valid a

theorem newAccount_effects (valid : Valid s) (eip158 : Bool) (a : Address) :
    Effects s (newAccount eip158 s a) (Function.update s.facts a { Facts.blank with nonce := if eip158 then 1 else 0 }) := by
  have made := createAccount_effects valid a
  unfold newAccount
  cases eip158 with
  | true =>
    have raised := setNonce_effects made.evolves.valid a 1
    rw [made.facts, Function.update_self, Function.update_idem] at raised
    exact made.trans raised
  | false => exact made

structure Deploys (env : Env) (inv : Invocation) (before : StateDB) (address : Address) (request : RunReq) : Prop where
  code : request.contract.code = inv.input
  self : request.contract.self = address
  codeAddr : request.contract.codeAddr = some address
  create : inv.kind = .create → request.contract.codeHash = 0 ∧
    address = createAddress inv.caller.address (inv.evm.db.getNonce inv.caller.address).1
  create2 : inv.kind = .create2 → request.contract.codeHash = keccak256 inv.input ∧
    address = createAddress2 inv.caller.address (bigToHash inv.salt) (keccak256 inv.input)
  nonce : Valid inv.evm.db → (before.getNonce address).1 = 0
  free : Valid inv.evm.db → (before.getCodeHash address).1 = 0 ∨ (before.getCodeHash address).1 = emptyCodeHash
  db : request.evm.db = transfer (newAccount env.isEIP158 before.snapshot.2 address) inv.caller.address address inv.value

def Invocation.derived (inv : Invocation) : Address :=
  if inv.kind = .create2 then createAddress2 inv.caller.address (bigToHash inv.salt) (keccak256 inv.input)
  else createAddress inv.caller.address (inv.evm.db.getNonce inv.caller.address).1

theorem Deploys.derived {before : StateDB} {address : Address} {request : RunReq}
    (deploys : Deploys env inv before address request) (kind : inv.kind.creates = true) : address = inv.derived := by
  unfold Invocation.derived
  cases which : inv.kind with
  | create => exact (deploys.create which).2
  | create2 => exact (deploys.create2 which).2
  | _ => simp [which, CallKind.creates] at kind

theorem Deploys.vacant {before : StateDB} {address : Address} {request : RunReq}
    (deploys : Deploys env inv before address request) (valid : Valid inv.evm.db) :
    (before.facts address).nonce = 0 ∧ (before.facts address).coded = false := by
  refine ⟨(getNonce_facts address).symm.trans (deploys.nonce valid), ?_⟩
  rw [← getCodeHash_facts]
  rcases deploys.free valid with zero | empty
  · simp [zero, codedHash]
  · simp [empty, codedHash]

def Creates (env : Env) (inv : Invocation) (body : Prog RunReq RunRes Panic Reply) : Prop :=
  (∃ reply, body = .ret reply ∧ (Declines inv reply ∨ Collides inv reply)) ∨
    ∃ before address request, Opens inv before request ∧ Deploys env inv before address request ∧
      (env.noRecursion = true ∧ body = .ret { evm := request.evm, contractAddr := address, leftOverGas := inv.gas } ∨
        body = (run env request).bind (settleCreate env address before.snapshot.1 inv.evm.trace.suicides))

theorem createAt_creates (kind : inv.kind.creates = true) {db : StateDB} (reads : Valid inv.evm.db → Reads inv.evm.db db)
    (inert : Valid inv.evm.db → Inert false inv.evm.db db)
    (codeHash : Hash) (address : Address)
    (create : inv.kind = .create → codeHash = 0 ∧
      address = createAddress inv.caller.address (inv.evm.db.getNonce inv.caller.address).1)
    (create2 : inv.kind = .create2 → codeHash = keccak256 inv.input ∧
      address = createAddress2 inv.caller.address (bigToHash inv.salt) (keccak256 inv.input)) :
    Creates env inv (EVM.createAt env { inv with evm := { inv.evm with db := db } } codeHash address) := by
  have other : inv.kind ≠ .staticCall := by
    intro static
    rw [static] at kind
    cases kind
  unfold EVM.createAt
  split
  · exact .inl ⟨_, rfl, .inl ⟨rfl, rfl, .inl rfl, fun valid => (reads valid).unchanged, inert⟩⟩
  · next shallow =>
    dsimp only
    split
    · refine .inl ⟨_, rfl, .inl ⟨rfl, rfl, .inr (.inl rfl), fun valid => ?_, fun valid => ?_⟩⟩
      · exact ((reads valid).trans (canTransfer_reads (reads valid).valid inv.caller.address inv.value)).unchanged
      · exact (inert valid).trans (canTransfer_inert (reads valid).valid inv.caller.address inv.value)
    · next can =>
      have enough : inv.value ≤ db.balances inv.caller.address := by
        simpa [canTransfer_value] using can
      have read : Valid inv.evm.db → Reads inv.evm.db (canTransfer db inv.caller.address inv.value).2 := fun valid =>
        (reads valid).trans (canTransfer_reads (reads valid).valid inv.caller.address inv.value)
      have raised : Valid inv.evm.db → Nonced inv.evm.db inv.caller.address _ := fun valid =>
        raise_nonced valid (read valid)
          ((inert valid).trans (canTransfer_inert (reads valid).valid inv.caller.address inv.value)) inv.caller.address address
      have again : Valid inv.evm.db → _ ∧ _ := fun valid =>
        have seen := StateDB.getNonce_reads (read valid).valid inv.caller.address
        looked_again (setNonce_evolves seen.valid inv.caller.address
          (add64 ((canTransfer db inv.caller.address inv.value).2.getNonce inv.caller.address).1 1)).valid address
      generalize ((((canTransfer db inv.caller.address inv.value).2.getNonce inv.caller.address).2.setNonce
        inv.caller.address (add64 ((canTransfer db inv.caller.address inv.value).2.getNonce inv.caller.address).1
          1)).getCodeHash address) = hashed at raised again ⊢
      generalize hashed.2.getNonce address = taken at raised again ⊢
      have proceeds : Valid inv.evm.db → inv.Proceeds := fun valid =>
        ⟨Nat.not_lt.mp shallow, (reads valid).balances ▸ enough⟩
      split
      · exact .inl ⟨_, rfl, .inr ⟨kind, proceeds, rfl, rfl, rfl, raised⟩⟩
      · next untaken =>
        have valid₁ : Valid inv.evm.db → Valid taken.2.snapshot.2 :=
          fun valid => (snapshot_evolves (raised valid).evolves.valid).valid
        have made : Valid inv.evm.db → Evolves taken.2.snapshot.2 (newAccount env.isEIP158 taken.2.snapshot.2 address) :=
          fun valid => newAccount_evolves (valid₁ valid) env.isEIP158 address
        have opens : Opens inv taken.2
            ⟨{ EVM.shareJumpdests { inv.evm with db := db } inv.caller with
                db := transfer (newAccount env.isEIP158 taken.2.snapshot.2 address) inv.caller.address address inv.value },
              { Contract.newContract inv.caller address inv.value inv.gas with
                code := inv.input, codeHash := codeHash, codeAddr := some address }, [], false⟩ := {
          shallow := Nat.not_lt.mp shallow
          proceeds := fun _ => proceeds
          evm := by
            unfold EVM.shareJumpdests
            cases inv.caller <;> rfl
          gas := rfl
          readOnly := (decide_eq_false other).symm
          input := fun _ => rfl
          value := fun nonneg _ => nonneg
          reads := by simp [kind]
          nonced := fun _ => raised
          evolves := fun valid => (made valid).trans (transfer_evolves (made valid).valid _ _ _)
          moved := fun valid => by
            refine .inr ⟨?_, address, ?_⟩
            · rw [(raised valid).balances, ← (reads valid).balances]
              exact enough
            · rw [transfer_balances (made valid).valid, newAccount_balances (valid₁ valid), snapshot_balances]
          quiet := by simp [kind]
          cache := by
            unfold EVM.shareJumpdests
            cases inv.caller <;> rfl
          unanalysed := rfl
          inert := by simp [kind]
          loads := by simp [kind] }
        simp only [Bool.or_eq_true, Bool.and_eq_true, decide_eq_true_eq, not_or, not_and_or, not_not] at untaken
        have deploys : Deploys env inv taken.2 address
            ⟨{ EVM.shareJumpdests { inv.evm with db := db } inv.caller with
                db := transfer (newAccount env.isEIP158 taken.2.snapshot.2 address) inv.caller.address address inv.value },
              { Contract.newContract inv.caller address inv.value inv.gas with
                code := inv.input, codeHash := codeHash, codeAddr := some address }, [], false⟩ := {
          code := rfl
          self := rfl
          codeAddr := rfl
          create := create
          create2 := create2
          nonce := fun valid => (again valid).1.trans untaken.1
          free := fun valid => by
            rw [(again valid).2]
            exact untaken.2
          db := rfl }
        refine .inr ⟨taken.2, address, _, opens, deploys, ?_⟩
        dsimp only
        split
        · next skipped =>
          simp only [Bool.and_eq_true] at skipped
          exact .inl ⟨skipped.1, rfl⟩
        · exact .inr rfl

theorem create_creates (kind : inv.kind = .create) : Creates env inv (EVM.create env inv) := by
  unfold EVM.create
  exact createAt_creates (by rw [kind]; rfl) (fun valid => StateDB.getNonce_reads valid inv.caller.address)
    (fun valid => Op.inert_apply valid (show (Op.getNonce inv.caller.address).inert = true from rfl) rfl) 0
    (createAddress inv.caller.address (inv.evm.db.getNonce inv.caller.address).1) (fun _ => ⟨rfl, rfl⟩) (by simp [kind])

theorem create2_creates (kind : inv.kind = .create2) : Creates env inv (EVM.create2 env inv) := by
  unfold EVM.create2
  exact createAt_creates (by rw [kind]; rfl) Reads.refl .refl (keccak256 inv.input)
    (createAddress2 inv.caller.address (bigToHash inv.salt) (keccak256 inv.input)) (by simp [kind]) fun _ => ⟨rfl, rfl⟩

end Creations

section Runs

variable {request : RunReq} {spec : Spec RunReq RunRes Panic} {good : Reply → Prop}

theorem run_sat {next : RunRes → Prog RunReq RunRes Panic Reply} (safe : spec.safe .sliceBounds)
    (native : ∀ res, run env request = .ret res → Native request res → (next res).Sat spec good)
    (interpreted : run env request = .call request .ret →
      spec.pre request ∧ ∀ res, spec.post request res → (next res).Sat spec good) :
    ((run env request).bind next).Sat spec good := by
  cases found : request.contract.codeAddr.bind (precompiles env) with
  | none =>
    have body : run env request = .call request .ret := by simp only [run, found]
    rw [body]
    exact interpreted body
  | some p =>
    cases ran : runPrecompiledContract p request.input request.contract with
    | error fault =>
      have body : run env request = .panic fault := by simp only [run, found, ran]
      rw [body]
      obtain rfl := runPrecompiledContract_sliced p request.input request.contract fault ran
      exact safe
    | ok result =>
      obtain ⟨answer, contract⟩ := result
      obtain ⟨gas, known, short⟩ := runPrecompiledContract_gas ran
      cases answer with
      | ok ret =>
        have body : run env request = .ret ⟨request.evm, contract, ret, none⟩ := by simp only [run, found, ran]
        rw [body]
        exact native _ body ⟨rfl, gas, nofun, fun empty => Nat.le_trans (short empty ret rfl) (by decide)⟩
      | error err =>
        have body : run env request = .ret ⟨request.evm, contract, [], some err⟩ := by simp only [run, found, ran]
        rw [body]
        exact native _ body ⟨rfl, gas, by rintro _ ⟨⟩; exact known err rfl, fun _ => Nat.zero_le _⟩

omit [Crypto] in
theorem settle_sat {snapshot : Nat} {suicides : List Destroyed} {res : RunRes}
    (success : res.err = none → good { evm := res.evm, ret := res.ret, leftOverGas := res.contract.gas })
    (failure : ∀ err db, res.err = some err → res.evm.db.revertToSnapshot snapshot = .ok db → good {
      evm := { res.evm with db := db, trace := { res.evm.trace with suicides := suicides } }
      ret := res.ret
      leftOverGas := if err = .executionReverted then res.contract.gas else 0
      err := some err })
    (stuck : ∀ fault, res.evm.db.revertToSnapshot snapshot = .error fault → spec.safe fault) :
    (settle snapshot suicides res).Sat spec good := by
  unfold settle
  split
  · next ended => exact success ended
  · next err ended =>
    split
    · next fault reverted => exact stuck fault reverted
    · next db reverted => exact failure err db ended reverted

def Abandons (env : Env) (res : RunRes) (err : Err) : Prop :=
  res.err = some err ∨ res.err = none ∧
    ((err = .maxCodeSizeExceeded ∧ env.isEIP158 = true ∧ MaxCodeSize < res.ret.length) ∨
      (err = .codeStoreOutOfGas ∧ env.isHomestead = true))

omit [Crypto] in
theorem settleUndone_sat {address : Address} {snapshot : Nat} {suicides : List Destroyed} {res : RunRes} {err : Err}
    (failure : ∀ db, res.evm.db.revertToSnapshot snapshot = .ok db → good {
        evm := { res.evm with db := db, trace := { res.evm.trace with suicides := suicides } }
        ret := res.ret
        contractAddr := address
        leftOverGas := if err = .executionReverted then res.contract.gas else 0
        err := some err })
    (stuck : ∀ fault, res.evm.db.revertToSnapshot snapshot = .error fault → spec.safe fault) :
    (match res.evm.db.revertToSnapshot snapshot with
      | .error fault => .panic fault
      | .ok db => .ret {
          evm := { res.evm with db := db, trace := { res.evm.trace with suicides := suicides } }
          ret := res.ret
          contractAddr := address
          leftOverGas := if err = .executionReverted then res.contract.gas else 0
          err := some err } : Prog RunReq RunRes Panic Reply).Sat spec good := by
  split
  · next fault reverted => exact stuck fault reverted
  · next db reverted => exact failure db reverted

theorem settleCreate_sat {address : Address} {snapshot : Nat} {suicides : List Destroyed} {res : RunRes}
    (known : ∀ err, res.err = some err → err.ofRun = true)
    (success : res.err = none → (env.isEIP158 = true → res.ret.length ≤ MaxCodeSize) →
      mul64 res.ret.length CreateDataGas ≤ res.contract.gas → good {
        evm := { res.evm with db := res.evm.db.setCode address res.ret }
        ret := res.ret
        contractAddr := address
        leftOverGas := res.contract.gas - mul64 res.ret.length CreateDataGas })
    (unpaid : res.err = none → env.isHomestead = false → good {
        evm := res.evm
        ret := res.ret
        contractAddr := address
        leftOverGas := res.contract.gas
        err := some .codeStoreOutOfGas })
    (failure : ∀ err db, Abandons env res err → res.evm.db.revertToSnapshot snapshot = .ok db → good {
        evm := { res.evm with db := db, trace := { res.evm.trace with suicides := suicides } }
        ret := res.ret
        contractAddr := address
        leftOverGas := if err = .executionReverted then res.contract.gas else 0
        err := some err })
    (stuck : ∀ fault, res.evm.db.revertToSnapshot snapshot = .error fault → spec.safe fault) :
    (settleCreate env address snapshot suicides res).Sat spec good := by
  -- Every failure but an unpaid deposit before Homestead goes back to the snapshot.
  have undone (err : Err) (abandons : Abandons env res err) := settleUndone_sat (fun db => failure err db abandons) stuck
  unfold settleCreate
  cases ended : res.err with
  | some err =>
    have other : err ≠ .codeStoreOutOfGas := by
      rintro rfl
      cases known _ ended
    have kept : ∀ exceeded, depositCode address exceeded res = res := by simp [depositCode, ended]
    have reverts : (env.isEIP158 && decide (res.ret.length > MaxCodeSize) ||
        decide (some err ≠ none) && (env.isHomestead || decide (some err ≠ some .codeStoreOutOfGas))) = true := by
      simp [other]
    simp only [kept, ended, reverts, if_true, reduceCtorEq, decide_false, Bool.and_false, Bool.false_eq_true, if_false,
      Option.some.injEq]
    exact undone err (.inl ended)
  | none =>
    cases exceeded : env.isEIP158 && decide (res.ret.length > MaxCodeSize) with
    | true =>
      have kept : depositCode address true res = res := by simp [depositCode]
      simp only [Bool.and_eq_true, decide_eq_true_eq] at exceeded
      simp only [kept, ended, Bool.true_or, Bool.true_and, decide_true, if_true, reduceCtorEq, if_false]
      exact undone .maxCodeSizeExceeded (.inr ⟨ended, .inl ⟨rfl, exceeded.1, exceeded.2⟩⟩)
    | false =>
      by_cases paid : res.contract.gas < mul64 res.ret.length CreateDataGas
      · have deposited : depositCode address false res = { res with err := some .codeStoreOutOfGas } := by
          simp [depositCode, ended, Contract.useGas, paid]
        cases homestead : env.isHomestead with
        | true =>
          simp only [deposited, Bool.false_and, Bool.false_or, Bool.true_or, ne_eq, reduceCtorEq,
            not_false_eq_true, decide_true, Bool.and_true, if_true, Bool.false_eq_true, if_false, Option.some.injEq]
          exact undone .codeStoreOutOfGas (.inr ⟨ended, .inr ⟨rfl, homestead⟩⟩)
        | false =>
          have stays := unpaid ended homestead
          simpa [deposited] using stays
      · have deposited : depositCode address false res = { res with
            contract := { res.contract with gas := res.contract.gas - mul64 res.ret.length CreateDataGas }
            evm := { res.evm with db := res.evm.db.setCode address res.ret } } := by
          simp [depositCode, ended, Contract.useGas, paid]
        have short : env.isEIP158 = true → res.ret.length ≤ MaxCodeSize := by
          intro active
          simpa [active] using exceeded
        have done := success ended short (Nat.not_lt.mp paid)
        simpa [deposited, ended] using done

theorem entry_sat (panics : spec.safe .notAContract) (declines : ∀ reply, Declines inv reply → good reply)
    (collides : ∀ reply, Collides inv reply → good reply)
    (skips : ∀ before address request, inv.kind.creates = true → Opens inv before request →
      Deploys env inv before address request → env.noRecursion = true →
      good { evm := request.evm, contractAddr := address, leftOverGas := inv.gas })
    (calls : ∀ before request, inv.kind.creates = false → Opens inv before request →
      ((run env request).bind (settle before.snapshot.1 inv.evm.trace.suicides)).Sat spec good)
    (creates : ∀ before address request, inv.kind.creates = true → Opens inv before request →
      Deploys env inv before address request →
        ((run env request).bind (settleCreate env address before.snapshot.1 inv.evm.trace.suicides)).Sat spec good) :
    (entry env inv).Sat spec good := by
  have entered : ∀ body, inv.kind.creates = false → Enters env inv body → body.Sat spec good := by
    rintro body kind (⟨reply, rfl, declined⟩ | rfl | ⟨before, request, rfl, opens⟩)
    · exact declines reply declined
    · exact panics
    · exact calls before request kind opens
  have created : ∀ body, inv.kind.creates = true → Creates env inv body → body.Sat spec good := by
    rintro body kind (⟨reply, rfl, declined | collided⟩ | ⟨before, address, request, opens, deploys, ⟨never, rfl⟩ | rfl⟩)
    · exact declines reply declined
    · exact collides reply collided
    · exact skips before address request kind opens deploys never
    · exact creates before address request kind opens deploys
  unfold entry
  cases kind : inv.kind with
  | call => exact entered _ (by rw [kind]; rfl) (call_enters kind)
  | callCode => exact entered _ (by rw [kind]; rfl) (callCode_enters kind)
  | delegateCall => exact entered _ (by rw [kind]; rfl) (delegateCall_enters kind)
  | staticCall => exact entered _ (by rw [kind]; rfl) (staticCall_enters kind)
  | create => exact created _ (by rw [kind]; rfl) (create_creates kind)
  | create2 => exact created _ (by rw [kind]; rfl) (create2_creates kind)

theorem entry_opens {answers : RunReq → RunRes → Prop} (made : (entry env inv).Makes answers request) :
    ∃ before, Opens inv before request ∧ (inv.kind.creates = true → Deploys env inv before inv.derived request) := by
  let asked : Spec RunReq RunRes Panic := {
    pre := fun request => ∃ before, Opens inv before request ∧
      (inv.kind.creates = true → Deploys env inv before inv.derived request)
    post := fun _ _ => True
    safe := fun _ => True }
  have settled : ∀ snapshot suicides res, (settle snapshot suicides res).Sat asked fun _ => True := fun _ _ _ =>
    settle_sat (fun _ => trivial) (fun _ _ _ _ => trivial) fun _ _ => trivial
  have deposited : ∀ address snapshot suicides res, (settleCreate env address snapshot suicides res).Sat asked fun _ => True := by
    intro address snapshot suicides res
    unfold settleCreate
    dsimp only
    split
    · split <;> trivial
    · trivial
  have sat : (entry env inv).Sat asked fun _ => True := by
    refine entry_sat trivial (fun _ _ => trivial) (fun _ _ => trivial) (fun _ _ _ _ _ _ _ => trivial)
      (fun before request kind opens => ?_) fun before address request kind opens deploys => ?_
    · exact run_sat trivial (fun res _ _ => settled _ _ res) fun _ =>
        ⟨⟨before, opens, by simp [kind]⟩, fun res _ => settled _ _ res⟩
    · refine run_sat trivial (fun res _ _ => deposited _ _ _ res) fun _ =>
        ⟨⟨before, opens, fun _ => ?_⟩, fun res _ => deposited _ _ _ res⟩
      rw [← deploys.derived kind]
      exact deploys
  exact sat.makes (fun _ _ _ _ => trivial) made

theorem creation_refused (kind : inv.kind.creates = true) (valid : Valid inv.evm.db) (elsewhere : inv.derived ≠ inv.caller.address)
    (taken : (inv.evm.db.facts inv.derived).nonce ≠ 0 ∨ (inv.evm.db.facts inv.derived).coded = true) :
    ∃ reply err, entry env inv = .ret reply ∧ reply.err = some err ∧
      reply.evm.db.facts inv.derived = inv.evm.db.facts inv.derived := by
  have creates : Creates env inv (entry env inv) := by
    unfold entry
    cases which : inv.kind with
    | create => exact create_creates which
    | create2 => exact create2_creates which
    | _ => simp [which, CallKind.creates] at kind
  rcases creates with ⟨reply, body, declines | collides⟩ | ⟨before, address, request, opens, deploys, -⟩
  · obtain ⟨err, failed⟩ : ∃ err, reply.err = some err := by
      rcases declines.err with depth | balance | ⟨-, plain⟩
      · exact ⟨_, depth⟩
      · exact ⟨_, balance⟩
      · rw [kind] at plain
        cases plain
    exact ⟨reply, err, body, failed, by rw [(declines.inert valid).facts]⟩
  · refine ⟨reply, _, body, collides.err, ?_⟩
    rw [(collides.db valid).effects.facts, Function.update_of_ne elsewhere]
  · obtain rfl := deploys.derived kind
    have facts : before.facts inv.derived = inv.evm.db.facts inv.derived := by
      rw [(opens.nonced kind valid).effects.facts, Function.update_of_ne elsewhere]
    have vacant := deploys.vacant valid
    rw [facts] at vacant
    rcases taken with nonce | coded
    · exact absurd vacant.1 nonce
    · rw [vacant.2] at coded
      cases coded

end Runs

end CuteEVM
