import CuteEVM.Proofs.Analysis

set_option autoImplicit false

-- Relations between the facts at two points of an execution, with the gas that was and is at hand.

namespace CuteEVM

open CallTree

variable [Crypto]

def Invocation.budget (inv : Invocation) : Nat := inv.gas + if inv.kind.creates then CreateGas else 0

omit [Crypto] in
theorem Invocation.gas_le_budget (inv : Invocation) : inv.gas ≤ inv.budget := Nat.le_add_right _ _

def Facts.fresh (env : Env) : Facts := { Facts.blank with nonce := if env.isEIP158 then 1 else 0 }

def Facts.deposit (facts : Facts) (code : Bytes) : Facts := { facts with code := code, coded := codedHash (keccak256 code) }

def Invocation.raised (inv : Invocation) : Address → Facts :=
  Function.update inv.evm.db.facts inv.caller.address
    { inv.evm.db.facts inv.caller.address with nonce := add64 (inv.evm.db.facts inv.caller.address).nonce 1 }

structure Lasting (env : Env) (invoked : Invocation → Prop)
    (R : Nat → (Address → Facts) → Nat → (Address → Facts) → Prop) : Prop where
  trans : ∀ {g f g' f' g'' f''}, R g f g' f' → R g' f' g'' f'' → R g f g'' f''
  spends : ∀ {g g'} f, g' ≤ g → R g f g' f
  aside : ∀ {g f g' f'} kept, R g f g' f' → R (g + kept) f (g' + kept) f'
  stores : ∀ g f a storage, R g f g (Function.update f a { f a with storage := storage })
  dies : ∀ g f a suicided, R g f g (Function.update f a { f a with suicided := suicided })
  reveals : ∀ g f f', (∀ a, f' a = f a ∨ f a = .blank) → R g f g f'
  raises : ∀ inv, invoked inv → inv.kind.creates = true → inv.Proceeds → R inv.budget inv.evm.db.facts inv.gas inv.raised
  opens : ∀ g f a, (f a).nonce = 0 → (f a).coded = false → R g f g (Function.update f a (.fresh env))
  deposits : ∀ g f g' f' a code, (f a).nonce = 0 → (f a).coded = false → R g (Function.update f a (.fresh env)) g' f' →
    R g f g' (Function.update f' a ((f' a).deposit code))

theorem Restored.facts {s s' : StateDB} (restored : Restored s s') (a : Address) :
    s'.facts a = s.facts a ∨ s.facts a = .blank := by
  cases found : s.world.accounts a with
  | none => exact .inr (by simp [StateDB.facts, Book.facts, StateDB.book, found])
  | some view =>
    have same := restored.shown.present a view found
    exact .inl (by simp [StateDB.facts, Book.facts, StateDB.book, found, same])

namespace Lasting

variable {env : Env} {invoked : Invocation → Prop} {R : Nat → (Address → Facts) → Nat → (Address → Facts) → Prop}

theorem refl (lasting : Lasting env invoked R) (g : Nat) (f : Address → Facts) : R g f g f := lasting.spends f (Nat.le_refl g)

theorem inert (lasting : Lasting env invoked R) {refunds : Bool} {s s' : StateDB} (inert : Inert refunds s s') {g g' : Nat}
    (le : g' ≤ g) : R g s.facts g' s'.facts := by
  rw [inert.facts]
  exact lasting.spends _ le

section Step

variable {fr fr' : Frame}

theorem moves (lasting : Lasting env invoked R) (moves : Moves env fr fr') (valid : Valid fr.evm.db)
    (gas : fr'.contract.gas ≤ fr.contract.gas) : R fr.contract.gas fr.evm.db.facts fr'.contract.gas fr'.evm.db.facts := by
  cases moves with
  | advances mild _ => exact lasting.inert (mild.db valid) gas
  | jumps mild jumped _ =>
    have same := (validJumpdest_probed jumped).db
    have inert := mild.db valid
    rw [← same] at inert
    exact lasting.inert inert gas
  | @stores cost priced loc val rest price _ _ =>
    have paid := ((gasSStore_gently env 0).mild price).db valid
    refine lasting.trans (lasting.inert paid gas) ?_
    show R _ _ _ (priced.evm.db.setState priced.contract.self (bigToHash loc) (bigToHash val)).facts
    rw [setState_facts paid.evolves.valid]
    exact lasting.stores _ _ _ _

theorem closes (lasting : Lasting env invoked R) {err : Option Err} (closes : Closes fr err fr') (valid : Valid fr.evm.db)
    (gas : fr'.contract.gas ≤ fr.contract.gas) : R fr.contract.gas fr.evm.db.facts fr'.contract.gas fr'.evm.db.facts := by
  cases closes with
  | mild mild _ _ _ => exact lasting.inert (mild.db valid) gas
  | jumps mild jumped _ _ _ =>
    have same := (validJumpdest_probed jumped).db
    have inert := mild.db valid
    rw [← same] at inert
    exact lasting.inert inert gas
  | refused mild _ => exact lasting.inert (mild.db valid) gas

theorem dying (lasting : Lasting env invoked R) (dies : Dies env fr fr') (valid : Valid fr.evm.db)
    (gas : fr'.contract.gas ≤ fr.contract.gas) : R fr.contract.gas fr.evm.db.facts fr'.contract.gas fr'.evm.db.facts := by
  cases dies with
  | @intro cost priced after price ran _ _ =>
    have paid := ((gasSuicide_gently env 0).mild price).db valid
    obtain ⟨beneficiary, db⟩ := opSuicide_db ran
    have read : Inert false priced.evm.db (priced.evm.db.getBalance priced.contract.self).2 :=
      Op.inert_apply paid.evolves.valid (show (Op.getBalance priced.contract.self).inert = true from rfl) rfl
    have given : Inert false _ _ := Op.inert_apply read.evolves.valid (show (Op.addBalance beneficiary
      (priced.evm.db.getBalance priced.contract.self).1).inert = true from rfl) rfl
    refine lasting.trans (lasting.inert (paid.trans (read.trans given).refunding) gas) ?_
    show R _ _ _ after.evm.db.facts
    rw [db]
    show R _ _ _ (StateDB.suicide _ _).2.facts
    rw [suicide_facts given.evolves.valid]
    exact lasting.dies _ _ _ _

theorem step (lasting : Lasting env invoked R) (fit : Fit fr) (valid : Valid fr.evm.db) :
    (CuteEVM.step env fr).Sat
      ⟨fun inv => R fr.contract.gas fr.evm.db.facts inv.budget inv.evm.db.facts,
        fun inv reply => reply.leftOverGas ≤ inv.gas ∧ R inv.budget inv.evm.db.facts reply.leftOverGas reply.evm.db.facts,
        fun _ => True⟩
      (Sum.elim (fun fr' => R fr.contract.gas fr.evm.db.facts fr'.contract.gas fr'.evm.db.facts)
        fun res => R fr.contract.gas fr.evm.db.facts res.contract.gas res.evm.db.facts) := by
  refine step_rule fit (fun _ _ => trivial) (fun fr' _ moves pays => lasting.moves moves valid (Nat.le_of_lt pays))
    (fun fr' ret err works closes _ _ => lasting.closes closes valid works.gas)
    (fun beneficiary fr' perishes dies => lasting.dying dies valid perishes.gas) fun parent inv asks => ?_
  have handed : inv.budget + parent.gas ≤ fr.contract.gas := by
    have gas := asks.gas
    have price := asks.price
    unfold Invocation.budget
    split
    · next creates => have := price creates; omega
    · omega
  have asked := asks.inert valid
  refine ⟨lasting.inert asked (by omega), fun reply post fr' continues => ?_⟩
  obtain ⟨left, lasts⟩ := post
  have total : fr'.contract.gas = reply.leftOverGas + parent.gas := by
    have gas := asks.gas
    have small := fit.gas
    rw [continues.contract, Nat.add_comm]
    exact Nat.mod_eq_of_lt (by omega)
  show R _ _ _ fr'.evm.db.facts
  rw [total, continues.db]
  exact lasting.trans (lasting.inert asked handed) (lasting.aside parent.gas lasts)

end Step

section Entry

variable {inv : Invocation} {before : StateDB} {request : RunReq} {address : Address}

theorem called (lasting : Lasting env invoked R) (kind : inv.kind.creates = false) (opens : Opens inv before request)
    (valid : Valid inv.evm.db) : R inv.budget inv.evm.db.facts inv.gas before.facts ∧
      R inv.budget inv.evm.db.facts request.contract.gas request.evm.db.facts := by
  obtain ⟨read, made⟩ := opens.inert kind valid
  have taken := snapshot_inert read.evolves.valid
  rw [opens.gas]
  exact ⟨lasting.inert read inv.gas_le_budget, lasting.inert (read.trans (taken.trans made)) inv.gas_le_budget⟩

theorem raising (lasting : Lasting env invoked R) (member : invoked inv) (kind : inv.kind.creates = true)
    (opens : Opens inv before request) (valid : Valid inv.evm.db) : R inv.budget inv.evm.db.facts inv.gas before.facts := by
  rw [(opens.nonced kind valid).effects.facts]
  exact lasting.raises inv member kind (opens.proceeds kind valid)

theorem created (lasting : Lasting env invoked R) (member : invoked inv) (kind : inv.kind.creates = true)
    (opens : Opens inv before request) (deploys : Deploys env inv before address request) (valid : Valid inv.evm.db) :
    R inv.budget inv.evm.db.facts request.contract.gas request.evm.db.facts := by
  obtain ⟨nonce, coded⟩ := deploys.vacant valid
  refine lasting.trans (lasting.raising member kind opens valid) ?_
  rw [opens.gas, (deploys.effects (opens.prior valid).1.valid).facts]
  exact lasting.opens _ _ address nonce coded

theorem entry (lasting : Lasting env invoked R) {spec : Spec RunReq RunRes Panic} (journaled : Journaled spec)
    (safe : ∀ fault, spec.safe fault) (member : invoked inv) (valid : Valid inv.evm.db)
    (pre : ∀ request, R inv.budget inv.evm.db.facts request.contract.gas request.evm.db.facts → spec.pre request)
    (post : ∀ request res, spec.post request res → res.contract.gas ≤ request.contract.gas ∧
      R request.contract.gas request.evm.db.facts res.contract.gas res.evm.db.facts) :
    (CuteEVM.entry env inv).Sat spec fun reply => R inv.budget inv.evm.db.facts reply.leftOverGas reply.evm.db.facts := by
  have ran : ∀ request res, Ran env spec request res → res.contract.gas ≤ request.contract.gas ∧
      R request.contract.gas request.evm.db.facts res.contract.gas res.evm.db.facts := by
    intro request res ran
    rcases ran.how with native | interpreted
    · rw [native.evm]
      exact ⟨native.gas, lasting.spends _ native.gas⟩
    · exact post request res interpreted
  -- Whatever the failed run did, the facts are those of the snapshot.
  have undone : ∀ before request res db err, Opens inv before request → Ran env spec request res → Restored before db →
      R inv.budget inv.evm.db.facts inv.gas before.facts →
      R inv.budget inv.evm.db.facts (if err = Err.executionReverted then res.contract.gas else 0) db.facts := by
    intro before request res db err opens done restored opened
    have left := (ran request res done).1
    rw [opens.gas] at left
    refine lasting.trans opened (lasting.trans (lasting.reveals _ _ _ restored.facts) (lasting.spends _ ?_))
    split
    · exact left
    · exact Nat.zero_le _
  refine (entry_concludes journaled valid (safe _) (fun before request kind opens => pre _ (lasting.called kind opens valid).2)
    fun before address request kind opens deploys => pre _ (lasting.created member kind opens deploys valid)).mono ?_
  intro reply concluded
  cases concluded with
  | declines declines => exact lasting.inert (declines.inert valid) (declines.gas.trans_le inv.gas_le_budget)
  | collides collides =>
    rw [collides.gas, (collides.db valid).effects.facts]
    exact lasting.trans (lasting.raises inv member collides.kind (collides.proceeds valid)) (lasting.spends _ (Nat.zero_le _))
  | skips kind opens deploys _ =>
    have created := lasting.created member kind opens deploys valid
    rw [opens.gas] at created
    exact created
  | succeeds kind opens done _ => exact lasting.trans (lasting.called kind opens valid).2 (ran _ _ done).2
  | fails kind opens done _ _ restored => exact undone _ _ _ _ _ opens done restored (lasting.called kind opens valid).1
  | @deploys before address request res kind opens deploys done _ _ _ =>
    have since := (ran _ _ done).2
    obtain ⟨nonce, coded⟩ := deploys.vacant valid
    have after := (opens.done journaled valid done).valid
    rw [opens.gas, (deploys.effects (opens.prior valid).1.valid).facts] at since
    refine lasting.trans (lasting.raising member kind opens valid) ?_
    show R _ _ _ (res.evm.db.setCode address res.ret).facts
    rw [setCode_facts after]
    exact lasting.trans (lasting.deposits _ _ _ _ address res.ret nonce coded since) (lasting.spends _ (Nat.sub_le _ _))
  | unpaid kind opens deploys done _ _ =>
    exact lasting.trans (lasting.created member kind opens deploys valid) (ran _ _ done).2
  | abandons kind opens deploys done _ _ restored =>
    exact undone _ _ _ _ _ opens done restored (lasting.raising member kind opens valid)

end Entry

section Runs

variable {inside : List (RunReq × Frame) → Prop}

theorem upholds (lasting : Lasting env invoked R) (scope : Scope env inside invoked) (gas : Nat) (facts : Address → Facts) :
    Upholds env
      ⟨fun inv => ((journalCalls fun _ => True).pre inv ∧ invoked inv) ∧ R gas facts inv.budget inv.evm.db.facts,
        fun inv reply => ((journalCalls fun _ => True).post inv reply ∧ Answers env inv reply) ∧
          R inv.budget inv.evm.db.facts reply.leftOverGas reply.evm.db.facts,
        fun fault => (journalCalls fun _ => True).safe fault ∧ True⟩
      ⟨fun request => ((journalRuns fun _ => True).pre request ∧ Started inside request) ∧
          R gas facts request.contract.gas request.evm.db.facts,
        fun request res => ((journalRuns fun _ => True).post request res ∧ (machine env).Returns request res) ∧
          R request.contract.gas request.evm.db.facts res.contract.gas res.evm.db.facts,
        fun fault => (journalRuns fun _ => True).safe fault ∧ True⟩
      fun request fr => (JournalKeeps (fun _ => True) request fr ∧ Ongoing env inside request fr) ∧
        R gas facts fr.contract.gas fr.evm.db.facts ∧
        R request.contract.gas request.evm.db.facts fr.contract.gas fr.evm.db.facts := by
  refine ((journal_upholds env steady_true).along scope).extend (fun request _ since => ?_) (fun request fr kept since => ?_)
    fun inv pre since => ?_
  · unfold start
    dsimp only
    split
    · exact lasting.refl _ _
    · exact ⟨since, lasting.refl _ _⟩
  · obtain ⟨origin, own⟩ := since
    obtain ⟨⟨bounded, evolves, -⟩, -⟩ := kept
    refine Prog.Sat.mono (Prog.Sat.weaken (lasting.step bounded.fit evolves.valid) (fun inv asked => lasting.trans origin asked)
      (fun _ _ _ post => ⟨post.1.1.1.gas, post.2⟩) fun _ _ => trivial) ?_
    rintro (later | res) next
    · exact ⟨lasting.trans origin next, lasting.trans own next⟩
    · exact lasting.trans own next
  · refine lasting.entry ⟨fun _ _ post => post.1.1.2, fun _ _ post => post.1.1.1.err, trivial⟩ (fun _ => trivial) pre.2 pre.1.2.1
      (fun request opened => lasting.trans since opened) fun request res post => ⟨post.1.1.1.gas, post.2⟩

variable {root : Invocation}

theorem instruction (lasting : Lasting env invoked R) (scope : Scope env inside invoked) {request : RunReq} {fr : Frame}
    (kept : JournalKeeps (fun _ => True) request fr ∧ Ongoing env inside request fr) :
    (∀ next, (CuteEVM.step env fr).Yields (Answers env) next →
      Sum.elim (fun later => R fr.contract.gas fr.evm.db.facts later.contract.gas later.evm.db.facts)
        (fun res => R fr.contract.gas fr.evm.db.facts res.contract.gas res.evm.db.facts) next) ∧
    ∀ inv, (CuteEVM.step env fr).Makes (Answers env) inv → R fr.contract.gas fr.evm.db.facts inv.budget inv.evm.db.facts := by
  have base := ((journal_upholds env steady_true).along scope).step request fr kept
  have both := base.and (lasting.step kept.1.1.fit kept.1.2.1.valid)
  have sound : ∀ inv reply, (journalCalls fun _ => True).pre inv ∧ invoked inv → Answers env inv reply →
      ((journalCalls fun _ => True).post inv reply ∧ Answers env inv reply) ∧
        reply.leftOverGas ≤ inv.gas ∧ R inv.budget inv.evm.db.facts reply.leftOverGas reply.evm.db.facts := by
    intro inv reply pre answered
    have since := (lasting.upholds scope inv.budget inv.evm.db.facts).answers ⟨pre, lasting.refl _ _⟩ answered
    exact ⟨since.1, since.1.1.1.gas, since.2⟩
  exact ⟨fun next yields => (both.yields (fun inv reply pre => sound inv reply pre.1) yields).2,
    fun inv makes => (both.makes (fun inv reply pre => sound inv reply pre.1) makes).2⟩

end Runs

section Trees

variable {root inv : Invocation}

theorem answered (lasting : Lasting env (Invoked env inv) R) (small : inv.gas < 2 ^ 64) (valid : Valid inv.evm.db) {reply : Reply}
    (answered : Answers env inv reply) : R inv.budget inv.evm.db.facts reply.leftOverGas reply.evm.db.facts :=
  ((lasting.upholds (running_scope env inv) _ _).answers ⟨⟨⟨small, valid, trivial⟩, .root⟩, lasting.refl _ _⟩ answered).2

theorem running (lasting : Lasting env (Invoked env inv) R) (small : inv.gas < 2 ^ 64) (valid : Valid inv.evm.db)
    {frames : List (RunReq × Frame)} (running : Running env inv frames) :
    ∀ frame ∈ frames, R inv.budget inv.evm.db.facts frame.2.contract.gas frame.2.evm.db.facts := fun frame member =>
  ((lasting.upholds (running_scope env inv) _ _).running ⟨⟨⟨small, valid, trivial⟩, .root⟩, lasting.refl _ _⟩ running
    frame member).2.2.1

theorem since (lasting : Lasting env (Invoked env inv) R) (small : inv.gas < 2 ^ 64) (valid : Valid inv.evm.db) {request : RunReq}
    (made : (CuteEVM.entry env inv).Makes (machine env).Returns request) :
    (∀ res, (machine env).Returns request res →
      R request.contract.gas request.evm.db.facts res.contract.gas res.evm.db.facts) ∧
    ∀ frames, (machine env).Active request frames → ∀ frame ∈ frames,
      R request.contract.gas request.evm.db.facts frame.2.contract.gas frame.2.evm.db.facts := by
  have upholds := lasting.upholds (running_scope env inv) request.contract.gas request.evm.db.facts
  have base := (journal_upholds env steady_true).along (running_scope env inv)
  have pre := (base.entry inv ⟨⟨small, valid, trivial⟩, .root⟩).makes base.returns made
  exact ⟨fun res returned => (upholds.returns request res ⟨pre, lasting.refl _ _⟩ returned).2, fun frames active frame member =>
    (upholds.invariant.active ⟨pre, lasting.refl _ _⟩ active frame member).2.2.1⟩

end Trees

end Lasting

/-! The codes in the state have the hashes under which they are kept, all the time. -/

section Hashed

def hashedRuns : Spec RunReq RunRes Panic where
  pre := fun request => request.evm.db.Hashed
  post := fun request res => (journalRuns fun _ => True).post request res ∧ res.evm.db.Hashed
  safe := fun _ => True

theorem hashed_upholds (env : Env) :
    Upholds env
      ⟨fun inv => (journalCalls fun _ => True).pre inv ∧ inv.evm.db.Hashed,
        fun inv reply => (journalCalls fun _ => True).post inv reply ∧ reply.evm.db.Hashed,
        fun fault => (journalCalls fun _ => True).safe fault ∧ True⟩
      ⟨fun request => (journalRuns fun _ => True).pre request ∧ request.evm.db.Hashed,
        fun request res => (journalRuns fun _ => True).post request res ∧ res.evm.db.Hashed,
        fun fault => (journalRuns fun _ => True).safe fault ∧ True⟩
      fun request fr => JournalKeeps (fun _ => True) request fr ∧ fr.evm.db.Hashed := by
  refine (journal_upholds env steady_true).extend (fun request _ hashed => ?_) (fun request fr kept hashed => ?_)
    fun inv pre hashed => ?_
  · unfold start
    dsimp only
    split
    · exact hashed
    · exact hashed
  · obtain ⟨bounded, evolves, -⟩ := kept
    have valid := evolves.valid
    refine step_rule bounded.fit (fun _ _ => trivial) (fun fr' _ moves _ => hashed.edits (moves.edits valid))
      (fun fr' ret err _ closes _ _ => hashed.edits (closes.edits valid))
      (fun beneficiary fr' _ dies => hashed.edits (dies.edits valid)) fun parent inv asks => ?_
    refine ⟨hashed.edits (asks.inert valid).edits, fun reply post fr' continues => ?_⟩
    show fr'.evm.db.Hashed
    rw [continues.db]
    exact post.2
  · have journaled : Journaled hashedRuns := ⟨fun _ _ post => post.1.2, fun _ _ post => post.1.1.err, trivial⟩
    have opened : ∀ before request, Opens inv before request →
        (inv.kind.creates = true → ∃ address, Deploys env inv before address request) → request.evm.db.Hashed :=
      fun _ _ opens deploys => hashed.edits (opens.edits env pre.2.1 deploys)
    have ended : ∀ request res, request.evm.db.Hashed → Ran env hashedRuns request res → res.evm.db.Hashed := by
      intro request res begun ran
      rcases ran.how with native | interpreted
      · rw [native.evm]
        exact begun
      · exact interpreted.2
    refine (entry_concludes journaled pre.2.1 trivial (fun before request kind opens => opened _ _ opens (by simp [kind]))
      fun before address request _ opens deploys => opened _ _ opens fun _ => ⟨address, deploys⟩).mono ?_
    intro reply concluded
    cases concluded with
    | declines declines => exact hashed.edits (declines.inert pre.2.1).edits
    | collides collides => exact hashed.edits (collides.db pre.2.1).effects.edits
    | skips _ opens deploys _ => exact opened _ _ opens fun _ => ⟨_, deploys⟩
    | succeeds kind opens ran _ => exact ended _ _ (opened _ _ opens (by simp [kind])) ran
    | fails kind opens ran _ reverted _ => exact (ended _ _ (opened _ _ opens (by simp [kind])) ran).revert reverted
    | @deploys _ address _ res _ opens deploys ran _ _ _ =>
      have done := opens.done journaled pre.2.1 ran
      exact (ended _ _ (opened _ _ opens fun _ => ⟨_, deploys⟩) ran).edits (setCode_edits done.valid address (Set.mem_univ _))
    | unpaid _ opens deploys ran _ _ => exact ended _ _ (opened _ _ opens fun _ => ⟨_, deploys⟩) ran
    | abandons _ opens deploys ran _ reverted _ => exact (ended _ _ (opened _ _ opens fun _ => ⟨_, deploys⟩) ran).revert reverted

end Hashed

end CuteEVM
