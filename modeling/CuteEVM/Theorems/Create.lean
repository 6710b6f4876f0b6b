import CuteEVM.Theorems.Revert

set_option autoImplicit false

-- What each outcome of `Create` and `Create2` leaves in the state, and what it costs.

namespace CuteEVM

open CallTree

attribute [local instance] Crypto.sample

section Outcomes

variable [Crypto]

-- The run of the init code at the new address, which succeeded.
structure InitRun (env : Env) (inv : Invocation) (address : Address) (request : RunReq) (res : RunRes) : Prop where
  code : request.contract.code = inv.input
  self : request.contract.self = address
  gas : request.contract.gas = inv.gas
  input : request.input = []
  ran : (run env request).Yields (machine env).Returns res
  err : res.err = none

def raisedNonce (inv : Invocation) : StateDB :=
  inv.evm.db.setNonce inv.caller.address (add64 (inv.evm.db.getNonce inv.caller.address).1 1)

-- The outcomes of a creation.
structure Creation (env : Env) (inv : Invocation) (reply : Reply) : Prop where
  refused : reply.err = some .depth ∨ reply.err = some .insufficientBalance →
    reply.evm.db.observe = inv.evm.db.observe ∧ reply.leftOverGas = inv.gas
  collided : reply.err = some .contractAddressCollision →
    reply.evm.db.observe = (raisedNonce inv).observe ∧ reply.leftOverGas = 0
  failed : ∀ err, reply.err = some err → err ≠ .depth → err ≠ .insufficientBalance → err ≠ .contractAddressCollision →
    ¬(err = .codeStoreOutOfGas ∧ env.isHomestead = false) →
      reply.evm.db.observe = (raisedNonce inv).observe ∧ (err ≠ .executionReverted → reply.leftOverGas = 0)
  succeeded : reply.err = none →
    reply.evm.db.observe.code reply.contractAddr = reply.ret ∧
    (env.isEIP158 = true → reply.ret.length ≤ MaxCodeSize) ∧
    ∃ request res, InitRun env inv reply.contractAddr request res ∧ reply.ret = res.ret ∧
      reply.evm.db = res.evm.db.setCode reply.contractAddr res.ret ∧
      res.contract.gas = reply.leftOverGas + 200 * res.ret.length
  unpaid : reply.err = some .codeStoreOutOfGas → env.isHomestead = false →
    ∃ request res, InitRun env inv reply.contractAddr request res ∧ reply.evm = res.evm ∧
      reply.leftOverGas = res.contract.gas

def initRuns (env : Env) : Spec RunReq RunRes Panic where
  pre := (journalRuns Clean).pre
  post := fun request res => (journalRuns Clean).post request res ∧ (machine env).Returns request res
  safe := (journalRuns Clean).safe

theorem initRuns_journaled (env : Env) : Journaled (initRuns env) where
  evolves := fun _ _ post => post.1.2
  err := fun _ _ post => post.1.1.err
  slices := ⟨rfl, rfl⟩

variable {env : Env} {inv : Invocation} {before : StateDB} {address : Address} {request : RunReq} {res : RunRes}

theorem Opens.initRun (opens : Opens inv before request) (kind : inv.kind.creates = true)
    (deploys : Deploys env inv before address request) (ran : Ran env (initRuns env) request res) (done : res.err = none) :
    InitRun env inv address request res where
  code := deploys.code
  self := deploys.self
  gas := opens.gas
  input := opens.input kind
  ran := ran.yields.mono fun _ _ post => post.2
  err := done

theorem Ran.deposit (opens : Opens inv before request) (kind : inv.kind.creates = true)
    (ran : Ran env (initRuns env) request res) : mul64 res.ret.length CreateDataGas = 200 * res.ret.length := by
  have short : res.ret.length ≤ memoryLimit := by
    rcases ran.how with native | interpreted
    · exact native.ret (opens.input kind)
    · exact interpreted.1.1.ret
  unfold memoryLimit at short
  unfold mul64 CreateDataGas
  omega

theorem Opens.restored_nonce (opens : Opens inv before request) (kind : inv.kind.creates = true) (valid : Valid inv.evm.db)
    (clean : Clean inv.evm.db) {db : StateDB} (restored : Restored before db) :
    db.observe = (raisedNonce inv).observe := by
  have nonced := opens.nonced kind valid
  have world := restored.world (nonced.evolves.clean clean)
  rw [observe_congr world restored.evolves.codes]
  exact nonced.observe

theorem Declines.creation {reply : Reply} (declines : Declines inv reply) (kind : inv.kind.creates = true)
    (valid : Valid inv.evm.db) : Creation env inv reply := by
  have same := (declines.db valid).observe
  have refusal : reply.err = some .depth ∨ reply.err = some .insufficientBalance := by
    rcases declines.err with depth | balance | ⟨-, plain⟩
    · exact .inl depth
    · exact .inr balance
    · exact absurd kind (by simp [plain])
  refine ⟨fun _ => ⟨same, declines.gas⟩, fun failed => ?_, fun err failed notDepth notBalance => ?_, fun done => ?_,
    fun failed => ?_⟩
  · rcases refusal with refused | refused <;> simp [refused] at failed
  · rcases refusal with refused | refused
    · rw [refused] at failed
      exact absurd (Option.some.inj failed).symm notDepth
    · rw [refused] at failed
      exact absurd (Option.some.inj failed).symm notBalance
  · rcases refusal with refused | refused <;> simp [refused] at done
  · rcases refusal with refused | refused <;> simp [refused] at failed

theorem Collides.creation {reply : Reply} (collides : Collides inv reply) (valid : Valid inv.evm.db) :
    Creation env inv reply where
  refused := by simp [collides.err]
  collided := fun _ => ⟨(collides.db valid).observe, collides.gas⟩
  failed := fun err failed _ _ other => by
    rw [collides.err] at failed
    exact absurd (Option.some.inj failed).symm other
  succeeded := by simp [collides.err]
  unpaid := by simp [collides.err]

omit [Crypto] in
theorem Abandons.other {err : Err} (abandons : Abandons env res err) (known : ∀ e, res.err = some e → e.ofRun = true) :
    err ≠ .depth ∧ err ≠ .insufficientBalance ∧ err ≠ .contractAddressCollision ∧
      (err = .codeStoreOutOfGas → env.isHomestead = true) := by
  rcases abandons with same | ⟨-, ⟨rfl, -⟩ | ⟨rfl, homestead⟩⟩
  · have known := known err same
    refine ⟨?_, ?_, ?_, ?_⟩ <;> rintro rfl <;> cases known
  · simp
  · simp [homestead]

theorem entry_creation (recurses : env.noRecursion = false) (kind : inv.kind.creates = true) (valid : Valid inv.evm.db)
    (clean : Clean inv.evm.db) (small : inv.gas < 2 ^ 64) : (entry env inv).Sat (initRuns env) (Creation env inv) := by
  have journaled := initRuns_journaled env
  refine entry_journaled journaled valid ⟨rfl, rfl⟩ (fun before request opens => ?_) fun reply concluded => ?_
  · have opened := opens.opened valid
    have depth : request.evm.depth = inv.evm.depth := by rw [opens.evm]
    exact ⟨⟨opens.gas ▸ small, depth ▸ opens.shallow⟩, opened.valid, opened.clean clean⟩
  · cases concluded with
    | declines declined => exact declined.creation kind valid
    | collides collided => exact collided.creation valid
    | skips _ _ _ never => simp [recurses] at never
    | succeeds plain | fails plain => simp [kind] at plain
    | @deploys before address request res _ opens deployed ran done short paid =>
      have ended := opens.done journaled valid ran
      have deposit := ran.deposit opens kind
      refine ⟨by simp, by simp, by simp, fun _ => ⟨setCode_code ended.valid address res.ret, short, request, res,
        opens.initRun kind deployed ran done, rfl, rfl, ?_⟩, by simp⟩
      dsimp only
      omega
    | unpaid _ opens deployed ran done early =>
      refine ⟨by simp, by simp, ?_, by simp, fun _ _ => ⟨_, _, opens.initRun kind deployed ran done, rfl, rfl⟩⟩
      rintro _ ⟨⟩ - - - excluded
      exact absurd ⟨rfl, early⟩ excluded
    | abandons _ opens _ ran abandoned _ restored =>
      obtain ⟨depth, balance, collision, homestead⟩ := abandoned.other (ran.err journaled)
      have same := opens.restored_nonce kind valid clean restored
      refine ⟨by simp [depth, balance], by simp [collision], ?_, by simp, ?_⟩
      · rintro _ ⟨⟩ - - - -
        exact ⟨same, fun other => if_neg other⟩
      · intro unpaid early
        rw [homestead (Option.some.inj unpaid)] at early
        cases early

theorem create_outcomes (env : Env) (recurses : env.noRecursion = false) (inv : Invocation) (small : inv.gas < 2 ^ 64)
    (reached : Reached (fun s op => op.Guarded s) inv.evm.db) :
    ∀ callee, Invoked env inv callee → callee.kind = .create ∨ callee.kind = .create2 → ∀ reply, Answers env callee reply →
      Creation env callee reply := by
  have upholds := journal_upholds env steady_clean
  have pre : (journalCalls Clean).pre inv := ⟨small, reached.valid, reached.clean⟩
  intro callee invoked creates reply answered
  obtain ⟨gas, valid, clean⟩ := upholds.invoked pre invoked
  have kind : callee.kind.creates = true := by rcases creates with same | same <;> rw [same] <;> rfl
  exact (entry_creation recurses kind valid clean gas).yields
    (fun request res required returned => ⟨upholds.returns request res required returned, returned⟩) answered.yields

end Outcomes

def sampleCreate (db : StateDB) (code : Bytes) : Invocation where
  kind := .create
  evm := { db := db }
  caller := .accountRef 1
  input := code
  gas := 100000

-- The init code returns one word, which is deployed at the new address.
theorem create_outcomes_sample :
    ∃ reply, Answers sampleEnv (sampleCreate (sampleState [0xfe]) returnFive) reply ∧ reply.err = none ∧
      reply.evm.db.observe.code reply.contractAddr = bigEndian 32 5 ∧ reply.leftOverGas = 93582 := by
  obtain ⟨reply, returned, holds⟩ : ∃ reply,
      invoke sampleEnv 10 (sampleCreate (sampleState [0xfe]) returnFive) = .ret reply ∧
        (reply.err == none && reply.ret == bigEndian 32 5 && reply.leftOverGas == 93582) = true :=
    replyOf_any (by decide +kernel)
  simp only [Bool.and_eq_true, beq_iff_eq] at holds
  obtain ⟨⟨done, ret⟩, gas⟩ := holds
  have answered : Answers sampleEnv (sampleCreate (sampleState [0xfe]) returnFive) reply := ⟨10, returned⟩
  have creation := create_outcomes sampleEnv rfl (sampleCreate (sampleState [0xfe]) returnFive) (by decide)
    (sampleState_reached [0xfe] guarded_of_plain) _ .root (.inl rfl) reply answered
  exact ⟨reply, answered, done, (creation.succeeded done).1.trans ret, gas⟩

def sampleAddress : Address := 0x522b3294e6d06aa25ad0f1b8891242e335d3b459

-- The init code fails. The account at the new address did not exist, and exists afterwards.
theorem failed_create_resurrects :
    ∃ reply, Reached (fun _ _ => True) (writtenBack sampleAddress) ∧
      Answers sampleEnv (sampleCreate (writtenBack sampleAddress) [0xfe]) reply ∧
      reply.err = some (.invalidOpcode 0xfe) ∧
      (raisedNonce (sampleCreate (writtenBack sampleAddress) [0xfe])).observe.exist sampleAddress = false ∧
      reply.evm.db.observe.exist sampleAddress = true := by
  obtain ⟨reply, returned, holds⟩ : ∃ reply,
      invoke sampleEnv 2 (sampleCreate (writtenBack sampleAddress) [0xfe]) = .ret reply ∧
        (reply.err == some (.invalidOpcode 0xfe) && reply.evm.db.observe.exist sampleAddress) = true :=
    replyOf_any (by decide +kernel)
  simp only [Bool.and_eq_true] at holds
  exact ⟨reply, writtenBack_reached sampleAddress, ⟨2, returned⟩, eq_of_beq holds.1, by decide +kernel, holds.2⟩

end CuteEVM
