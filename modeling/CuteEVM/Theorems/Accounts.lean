import CuteEVM.Proofs.Accounts
import CuteEVM.Theorems.Create

set_option autoImplicit false

-- Within a call tree a code that an account has stays, nonces only grow, and no account in use is created again.

namespace CuteEVM

open CallTree

attribute [local instance] Crypto.sample

section Relations

-- What stays of an account. A nonce cannot wrap around while the creations that raise it are paid for.
structure Firm (gas : Nat) (facts : Facts) (gas' : Nat) (facts' : Facts) : Prop where
  coded : facts.coded = true → facts'.code = facts.code ∧ facts'.coded = true
  nonced : 0 < facts.nonce → CreateGas * facts.nonce + gas < CreateGas * 2 ^ 64 →
    facts.nonce ≤ facts'.nonce ∧ CreateGas * facts'.nonce + gas' ≤ CreateGas * facts.nonce + gas ∧
      facts'.code = facts.code ∧ facts'.coded = facts.coded

theorem Firm.refl {gas gas' : Nat} {facts facts' : Facts} (le : gas' ≤ gas) (nonce : facts'.nonce = facts.nonce)
    (code : facts'.code = facts.code) (coded : facts'.coded = facts.coded) : Firm gas facts gas' facts' where
  coded := fun present => ⟨code, coded.trans present⟩
  nonced := fun _ _ => ⟨nonce.ge, by rw [nonce]; omega, code, coded⟩

theorem Firm.trans {g g' g'' : Nat} {x y z : Facts} (first : Firm g x g' y) (second : Firm g' y g'' z) : Firm g x g'' z where
  coded := fun present => by
    obtain ⟨code, still⟩ := first.coded present
    obtain ⟨code', still'⟩ := second.coded still
    exact ⟨code'.trans code, still'⟩
  nonced := fun positive bounded => by
    obtain ⟨le, spent, code, coded⟩ := first.nonced positive bounded
    obtain ⟨le', spent', code', coded'⟩ := second.nonced (Nat.lt_of_lt_of_le positive le) (Nat.lt_of_le_of_lt spent bounded)
    exact ⟨Nat.le_trans le le', Nat.le_trans spent' spent, code'.trans code, coded'.trans coded⟩

theorem Firm.vacant {g g' : Nat} {x y : Facts} (nonce : x.nonce = 0) (coded : x.coded = false) : Firm g x g' y where
  coded := by simp [coded]
  nonced := fun positive _ => absurd nonce (Nat.ne_of_gt positive)

variable [Crypto]

theorem firm_lasting (env : Env) (invoked : Invocation → Prop) :
    Lasting env invoked fun g f g' f' => ∀ a, Firm g (f a) g' (f' a) where
  trans := fun first second a => (first a).trans (second a)
  spends := fun _ le _ => .refl le rfl rfl rfl
  aside := fun kept firm a => ⟨(firm a).coded, fun positive bounded => by
    obtain ⟨le, spent, rest⟩ := (firm a).nonced positive (by omega)
    exact ⟨le, by omega, rest⟩⟩
  stores := fun g f a storage b => by
    by_cases same : b = a
    · subst same
      rw [Function.update_self]
      exact .refl (Nat.le_refl _) rfl rfl rfl
    · rw [Function.update_of_ne same]
      exact .refl (Nat.le_refl _) rfl rfl rfl
  dies := fun g f a suicided b => by
    by_cases same : b = a
    · subst same
      rw [Function.update_self]
      exact .refl (Nat.le_refl _) rfl rfl rfl
    · rw [Function.update_of_ne same]
      exact .refl (Nat.le_refl _) rfl rfl rfl
  reveals := fun g f f' shown a => by
    rcases shown a with same | blank
    · rw [same]
      exact .refl (Nat.le_refl _) rfl rfl rfl
    · exact .vacant (by rw [blank]; rfl) (by rw [blank]; rfl)
  raises := fun inv _ creates _ a => by
    have budget : inv.budget = inv.gas + CreateGas := by rw [Invocation.budget, if_pos creates]
    by_cases same : a = inv.caller.address
    · subst same
      rw [Invocation.raised, Function.update_self, budget]
      refine ⟨fun present => ⟨rfl, present⟩, fun _ bounded => ?_⟩
      -- The price of the creation pays for the step of the nonce.
      have small : (inv.evm.db.facts inv.caller.address).nonce + 1 < 2 ^ 64 := by
        simp only [CreateGas] at bounded
        omega
      have next : add64 (inv.evm.db.facts inv.caller.address).nonce 1 = (inv.evm.db.facts inv.caller.address).nonce + 1 :=
        Nat.mod_eq_of_lt small
      dsimp only
      rw [next, Nat.mul_succ]
      exact ⟨Nat.le_succ _, by omega, rfl, rfl⟩
    · rw [Invocation.raised, Function.update_of_ne same]
      exact .refl inv.gas_le_budget rfl rfl rfl
  opens := fun g f a nonce coded b => by
    by_cases same : b = a
    · subst same
      exact .vacant nonce coded
    · rw [Function.update_of_ne same]
      exact .refl (Nat.le_refl _) rfl rfl rfl
  deposits := fun g f g' f' a code nonce coded firm b => by
    by_cases same : b = a
    · subst same
      exact .vacant nonce coded
    · have own := firm b
      rw [Function.update_of_ne same] at own ⊢
      exact own

theorem rising_lasting (env : Env) {invoked : Invocation → Prop} {a : Address}
    (fits : ∀ inv, invoked inv → inv.kind.creates = true → inv.Proceeds → inv.caller.address = a →
      (inv.evm.db.facts a).nonce + 1 < 2 ^ 64) :
    Lasting env invoked fun _ f _ f' => (f a).nonce ≤ (f' a).nonce where
  trans := Nat.le_trans
  spends := fun _ _ => Nat.le_refl _
  aside := fun _ rises => rises
  stores := fun g f b storage => by
    by_cases same : a = b
    · subst same
      rw [Function.update_self]
    · rw [Function.update_of_ne same]
  dies := fun g f b suicided => by
    by_cases same : a = b
    · subst same
      rw [Function.update_self]
    · rw [Function.update_of_ne same]
  reveals := fun g f f' shown => by
    rcases shown a with same | blank
    · rw [same]
    · rw [blank]
      exact Nat.zero_le _
  raises := fun inv member creates proceeds => by
    by_cases same : a = inv.caller.address
    · have next : add64 (inv.evm.db.facts a).nonce 1 = (inv.evm.db.facts a).nonce + 1 :=
        Nat.mod_eq_of_lt (fits inv member creates proceeds same.symm)
      subst same
      rw [Invocation.raised, Function.update_self]
      dsimp only
      rw [next]
      exact Nat.le_succ _
    · rw [Invocation.raised, Function.update_of_ne same]
  opens := fun g f b nonce _ => by
    by_cases same : a = b
    · subst same
      rw [nonce]
      exact Nat.zero_le _
    · rw [Function.update_of_ne same]
  deposits := fun g f g' f' b code nonce _ rises => by
    by_cases same : a = b
    · subst same
      rw [nonce]
      exact Nat.zero_le _
    · rw [Function.update_of_ne same] at rises ⊢
      exact rises

end Relations

section Trees

variable [Crypto] {env : Env} {inv : Invocation}

-- The states that occur in the execution of a call.
def Occurs (env : Env) (inv : Invocation) (s : StateDB) : Prop :=
  (∃ inner, Invoked env inv inner ∧ inner.evm.db = s) ∨
    ∃ frames, Running env inv frames ∧ ∃ frame ∈ frames, frame.2.evm.db = s

-- A creation by the account finds its nonce at the largest value.
def Wraps (env : Env) (inv : Invocation) (a : Address) : Prop :=
  ∃ creation, Invoked env inv creation ∧ creation.kind.creates = true ∧ creation.Proceeds ∧ creation.caller.address = a ∧
    2 ^ 64 ≤ (creation.evm.db.getNonce a).1 + 1

-- The creation is over before it has touched the account at its address.
def Refuses (env : Env) (inv : Invocation) : Prop :=
  ∃ reply err, entry env inv = .ret reply ∧ reply.err = some err ∧
    reply.evm.db.facts inv.derived = inv.evm.db.facts inv.derived

theorem StateDB.Hashed.coded {s : StateDB} (hashed : s.Hashed) (valid : Valid s) {a : Address}
    (apart : (s.getCode a).1 ≠ [] → keccak256 (s.getCode a).1 ≠ 0 ∧ keccak256 (s.getCode a).1 ≠ keccak256 [])
    (present : (s.getCode a).1 ≠ []) : (s.facts a).coded = true := by
  have same : ((s.getCodeHash a).2.getCode a).1 = (s.getCode a).1 := by
    rw [getCode_facts, getCode_facts, (StateDB.getCodeHash_reads valid a).facts]
  have hash := hashed.code a (same ▸ present)
  rw [same] at hash
  obtain ⟨zero, empty⟩ := apart present
  rw [← getCodeHash_facts, ← hash]
  simp only [codedHash, Bool.and_eq_true, decide_eq_true_eq]
  exact ⟨zero, empty⟩

structure Sane (env : Env) (inv : Invocation) : Prop where
  small : inv.gas < 2 ^ 64
  valid : Valid inv.evm.db
  hashed : inv.evm.db.Hashed

theorem Sane.invoked (ordered : Sane env inv) {inner : Invocation} (invoked : Invoked env inv inner) :
    Sane env inner := by
  have pre := (hashed_upholds env).invoked ⟨⟨ordered.small, ordered.valid, trivial⟩, ordered.hashed⟩ invoked
  exact ⟨pre.1.1, pre.1.2.1, pre.2⟩

theorem Sane.code (sane : Sane env inv) {a : Address} (coded : (inv.evm.db.facts a).coded = true) :
    (∀ frames, Running env inv frames → ∀ frame ∈ frames, (frame.2.evm.db.getCode a).1 = (inv.evm.db.getCode a).1) ∧
      ∀ reply, Answers env inv reply → (reply.evm.db.getCode a).1 = (inv.evm.db.getCode a).1 := by
  have lasting := firm_lasting env (Invoked env inv)
  simp only [getCode_facts]
  refine ⟨fun frames running frame member => ?_, fun reply answered => ?_⟩
  · exact ((lasting.running sane.small sane.valid running frame member a).coded coded).1
  · exact ((lasting.answered sane.small sane.valid answered a).coded coded).1

theorem Sane.running (sane : Sane env inv) {request : RunReq} {fr : Frame} {outer : List (RunReq × Frame)}
    (running : Running env inv ((request, fr) :: outer)) :
    (JournalKeeps (fun _ => True) request fr ∧ Ongoing env (Running env inv) request fr) ∧ fr.evm.db.Hashed := by
  have journal := (journal_upholds env steady_true).along (running_scope env inv)
  exact ⟨(journal.running ⟨⟨sane.small, sane.valid, trivial⟩, .root⟩ running _ List.mem_cons_self).2,
    ((hashed_upholds env).running ⟨⟨sane.small, sane.valid, trivial⟩, sane.hashed⟩ running _ List.mem_cons_self).2.2⟩

theorem Sane.instruction (sane : Sane env inv) {request : RunReq} {fr : Frame} {outer : List (RunReq × Frame)}
    (running : Running env inv ((request, fr) :: outer)) {a : Address} (coded : (fr.evm.db.facts a).coded = true) :
    (∀ later, (step env fr).Yields (Answers env) (.inl later) → (later.evm.db.getCode a).1 = (fr.evm.db.getCode a).1) ∧
      (∀ res, (step env fr).Yields (Answers env) (.inr res) → (res.evm.db.getCode a).1 = (fr.evm.db.getCode a).1) ∧
      ∀ inner, (step env fr).Makes (Answers env) inner → (inner.evm.db.getCode a).1 = (fr.evm.db.getCode a).1 := by
  have lasting := firm_lasting env (Invoked env inv)
  obtain ⟨yields, makes⟩ := lasting.instruction (running_scope env inv) (sane.running running).1
  simp only [getCode_facts]
  refine ⟨fun later yielded => ?_, fun res yielded => ?_, fun inner made => ?_⟩
  · exact ((yields _ yielded a).coded coded).1
  · exact ((yields _ yielded a).coded coded).1
  · exact ((makes inner made a).coded coded).1

theorem Sane.nonce (sane : Sane env inv) {a : Address} (whole : ¬ Wraps env inv a) {reply : Reply}
    (answered : Answers env inv reply) :
    (inv.evm.db.getNonce a).1 ≤ (reply.evm.db.getNonce a).1 := by
  have fits : ∀ creation, Invoked env inv creation → creation.kind.creates = true → creation.Proceeds →
      creation.caller.address = a → (creation.evm.db.facts a).nonce + 1 < 2 ^ 64 := by
    intro creation invoked creates proceeds caller
    rw [← getNonce_facts]
    exact Nat.not_le.mp fun wraps => whole ⟨creation, invoked, creates, proceeds, caller, wraps⟩
  simp only [getNonce_facts]
  exact (rising_lasting env fits).answered sane.small sane.valid answered

theorem Sane.construction (eip158 : env.isEIP158 = true) (sane : Sane env inv) (creates : inv.kind.creates = true)
    {request : RunReq} (made : (entry env inv).Makes (machine env).Returns request) :
    request.contract.self = inv.derived ∧
      (∀ res, (machine env).Returns request res → (res.evm.db.facts inv.derived).code = []) ∧
      ∀ frames, (machine env).Active request frames → ∀ frame ∈ frames,
        0 < (frame.2.evm.db.facts inv.derived).nonce ∧ (frame.2.evm.db.facts inv.derived).code = [] := by
  obtain ⟨before, opens, deploys⟩ := entry_opens made
  have deploys := deploys creates
  have fresh : request.evm.db.facts inv.derived = { Facts.blank with nonce := 1 } := by
    rw [(deploys.effects (opens.prior sane.valid).1.valid).facts, Function.update_self, if_pos eip158]
  -- A tree has too little gas for so many creations that the nonce comes back to zero.
  have bounded : CreateGas * 1 + request.contract.gas < CreateGas * 2 ^ 64 := by
    have small := sane.small
    rw [opens.gas]
    simp only [CreateGas]
    omega
  have firm : ∀ {gas facts}, Firm request.contract.gas (request.evm.db.facts inv.derived) gas facts →
      0 < facts.nonce ∧ facts.code = [] := by
    intro gas facts firm
    rw [fresh] at firm
    obtain ⟨positive, -, code, -⟩ := firm.nonced Nat.one_pos bounded
    exact ⟨positive, code⟩
  obtain ⟨returns, active⟩ := (firm_lasting env (Invoked env inv)).since sane.small sane.valid made
  exact ⟨deploys.self, fun res returned => (firm (returns res returned inv.derived)).2,
    fun frames running frame member => firm (active frames running frame member inv.derived)⟩

-- Between two calls of `Finalise`: codes stay, nonces grow, and accounts in use are not created again.
theorem codes_and_nonces_last (env : Env) (eip158 : env.isEIP158 = true) (inv : Invocation) (small : inv.gas < 2 ^ 64)
    (valid : Valid inv.evm.db) (hashed : inv.evm.db.Hashed)
    (apart : ∀ s, Occurs env inv s → ∀ a, (s.getCode a).1 ≠ [] →
      keccak256 (s.getCode a).1 ≠ 0 ∧ keccak256 (s.getCode a).1 ≠ keccak256 [])
    (elsewhere : ∀ inner, Invoked env inv inner → inner.kind.creates = true → inner.derived ≠ inner.caller.address) :
    (∀ request fr outer, Running env inv ((request, fr) :: outer) → ∀ a, (fr.evm.db.getCode a).1 ≠ [] →
      (∀ later, (step env fr).Yields (Answers env) (.inl later) → (later.evm.db.getCode a).1 = (fr.evm.db.getCode a).1) ∧
      (∀ res, (step env fr).Yields (Answers env) (.inr res) → (res.evm.db.getCode a).1 = (fr.evm.db.getCode a).1) ∧
      ∀ inner, (step env fr).Makes (Answers env) inner → (inner.evm.db.getCode a).1 = (fr.evm.db.getCode a).1) ∧
    (∀ inner, Invoked env inv inner → ∀ a, (inner.evm.db.getCode a).1 ≠ [] →
      (∀ frames, Running env inner frames → ∀ frame ∈ frames, (frame.2.evm.db.getCode a).1 = (inner.evm.db.getCode a).1) ∧
      ∀ reply, Answers env inner reply → (reply.evm.db.getCode a).1 = (inner.evm.db.getCode a).1) ∧
    (∀ inner reply, Invoked env inv inner → Answers env inner reply → ∀ a,
      ¬ Wraps env inner a → (inner.evm.db.getNonce a).1 ≤ (reply.evm.db.getNonce a).1) ∧
    ∀ inner, Invoked env inv inner → inner.kind.creates = true →
      ((inner.evm.db.getNonce inner.derived).1 ≠ 0 ∨ (inner.evm.db.getCode inner.derived).1 ≠ [] → Refuses env inner) ∧
      (∀ request, (entry env inner).Makes (machine env).Returns request → request.contract.self = inner.derived ∧
        ∀ res, (machine env).Returns request res → (res.evm.db.getCode inner.derived).1 = []) ∧
      ∀ request fr outer, Running env inner ((request, fr) :: outer) →
        (fr.evm.db.getNonce inner.derived).1 ≠ 0 ∧ (fr.evm.db.getCode inner.derived).1 = [] ∧
          ∀ again, (step env fr).Makes (Answers env) again → again.kind.creates = true → again.derived = inner.derived →
            Refuses env again := by
  have sane : Sane env inv := ⟨small, valid, hashed⟩
  have coded : ∀ inner, Invoked env inv inner → ∀ a, (inner.evm.db.getCode a).1 ≠ [] → (inner.evm.db.facts a).coded = true := by
    intro inner invoked a present
    have within := sane.invoked invoked
    exact within.hashed.coded within.valid (apart _ (.inl ⟨inner, invoked, rfl⟩) a) present
  have refuses : ∀ inner, Invoked env inv inner → inner.kind.creates = true →
      (inner.evm.db.getNonce inner.derived).1 ≠ 0 ∨ (inner.evm.db.getCode inner.derived).1 ≠ [] → Refuses env inner := by
    intro inner invoked creates taken
    refine creation_refused creates (sane.invoked invoked).valid (elsewhere inner invoked creates) ?_
    rcases taken with nonce | code
    · exact .inl (getNonce_facts (s := inner.evm.db) inner.derived ▸ nonce)
    · exact .inr (coded inner invoked _ code)
  refine ⟨fun request fr outer running a present => ?_, fun inner invoked a present => ?_,
    fun inner reply invoked answered a whole => (sane.invoked invoked).nonce whole answered, fun inner invoked creates => ?_⟩
  · obtain ⟨⟨⟨-, evolves, -⟩, -⟩, own⟩ := sane.running running
    exact sane.instruction running (own.coded evolves.valid (apart _ (.inr ⟨_, running, _, List.mem_cons_self, rfl⟩) a) present)
  · exact (sane.invoked invoked).code (coded inner invoked a present)
  · have within := sane.invoked invoked
    refine ⟨refuses inner invoked creates, fun request made => ?_, fun request fr outer running => ?_⟩
    · obtain ⟨self, ends, -⟩ := within.construction eip158 creates made
      exact ⟨self, fun res returned => (getCode_facts _).trans (ends res returned)⟩
    · obtain ⟨first, made, active⟩ := running
      obtain ⟨positive, code⟩ := (within.construction eip158 creates made).2.2 _ active _ List.mem_cons_self
      have nonce : (fr.evm.db.getNonce inner.derived).1 ≠ 0 := by
        rw [getNonce_facts]
        exact Nat.ne_of_gt positive
      refine ⟨nonce, (getCode_facts _).trans code, fun again makes again' same => ?_⟩
      have nested : Invoked env inner again := .nested ⟨first, made, active⟩ makes
      refine refuses again (invoked.trans nested) again' (.inl ?_)
      -- The instruction itself does not touch the account before it calls.
      have kept := (within.running ⟨first, made, active⟩).1.1
      have asked : again.evm.db.facts = fr.evm.db.facts := by
        have sat : (step env fr).Sat ⟨fun inv => inv.evm.db.facts = fr.evm.db.facts, fun _ _ => True, fun _ => True⟩ fun _ =>
            True :=
          step_rule kept.1.fit (fun _ _ => trivial) (fun _ _ _ _ => trivial) (fun _ _ _ _ _ _ _ => trivial)
            (fun _ _ _ _ => trivial) fun parent inv asks => ⟨(asks.inert kept.2.1.valid).facts, fun _ _ _ _ => trivial⟩
        exact sat.makes (fun _ _ _ _ => trivial) makes
      rw [same, getNonce_facts, asked]
      exact Nat.ne_of_gt positive

end Trees

def founding : Invocation := sampleCreate (sampleState [0xfe]) returnFive

def StateDB.plain (s : StateDB) : Bool := s.stateObjects.entries.all fun entry => entry.2.code == [] || entry.2.code == [0xfe]

theorem plain_apart {s : StateDB} (trie : s.trie = fun _ => none) (codes : s.codes = fun _ => none) (plain : s.plain = true)
    (a : Address) (present : (s.getCode a).1 ≠ []) : keccak256 (s.getCode a).1 ≠ 0 ∧ keccak256 (s.getCode a).1 ≠ keccak256 [] := by
  have only : (s.getCode a).1 = [0xfe] := by
    cases live : s.live a with
    | none =>
      have missing : s.lookup a = none := by simp [StateDB.lookup, live, trie]
      simp [StateDB.getCode, s.getStateObject_eq, missing] at present
    | some o =>
      have code := List.all_eq_true.mp plain ⟨a, o⟩ (AList.mem_lookup_iff.mp live)
      cases deleted : o.deleted with
      | true =>
        have missing : s.lookup a = none := by simp [StateDB.lookup, live, deleted]
        simp [StateDB.getCode, s.getStateObject_eq, missing] at present
      | false =>
        simp only [StateDB.getCode, s.getStateObject_eq, StateDB.lookup_of_live live deleted, StateDB.load_codes, codes,
          StateObject.loadCode] at present ⊢
        simp only [Bool.or_eq_true, beq_iff_eq] at code
        -- Without a code of its own the object has none, as the database is empty.
        rcases code with empty | own
        · simp [empty, apply_ite Prod.fst] at present
        · simp [own]
  rw [only]
  decide

def lonely (fr : Frame) : Bool :=
  fr.evm.db.plain && match step sampleEnv fr with
    | .call _ _ => false
    | _ => true

theorem founding_lone {frames : List (RunReq × Frame)} (running : Running sampleEnv founding frames) :
    ∃ request fr, frames = [(request, fr)] ∧ lonely fr = true :=
  running_lone 10 (by decide +kernel) running

theorem founding_invoked {inner : Invocation} (invoked : Invoked sampleEnv founding inner) : inner = founding := by
  cases invoked with
  | root => rfl
  | @nested request fr outer _ running makes =>
    obtain ⟨_, _, same, lone⟩ := founding_lone running
    cases same
    cases body : step sampleEnv fr with
    | call called resume => simp [lonely, body] at lone
    | ret _ | panic _ =>
      rw [body] at makes
      exact makes.elim

-- A contract is created. Its init code runs with a nonce that is not zero, and the code of another contract stays.
theorem codes_and_nonces_last_sample :
    (∃ request fr, Running sampleEnv founding [(request, fr)] ∧
      (fr.evm.db.getNonce founding.derived).1 ≠ 0 ∧ (fr.evm.db.getCode founding.derived).1 = []) ∧
    ∀ reply, Answers sampleEnv founding reply → (reply.evm.db.getCode 0x100).1 = [0xfe] := by
  have valid : Valid founding.evm.db := (sampleState_reached [0xfe] guarded_of_plain).valid
  have base : (StateDB.new (fun _ => none) (fun _ => none)).Hashed := ⟨nofun, nofun, nofun⟩
  have new : Reached (fun _ _ => True) (StateDB.new (fun _ => none) (fun _ => none)) := .new _ _
  have paid := addBalance_evolves new.valid 1 100
  have hashed : founding.evm.db.Hashed :=
    (base.edits (addBalance_edits new.valid 1 100)).edits (setCode_edits paid.valid 0x100 (Set.mem_univ [0xfe]))
  have apart : ∀ s, Occurs sampleEnv founding s → ∀ a, (s.getCode a).1 ≠ [] →
      keccak256 (s.getCode a).1 ≠ 0 ∧ keccak256 (s.getCode a).1 ≠ keccak256 [] := by
    rintro s (⟨inner, invoked, rfl⟩ | ⟨frames, running, frame, member, rfl⟩)
    · rw [founding_invoked invoked]
      exact plain_apart rfl rfl (by decide +kernel)
    · -- Nothing is written to the trie or the database before the journal is dropped.
      have kept := (journal_upholds (P := fun s => s.trie = (fun _ => none) ∧ s.codes = fun _ => none) sampleEnv
        fun _ _ evolves bare => ⟨evolves.trie.trans bare.1, evolves.codes.trans bare.2⟩).running
        ⟨by decide, valid, rfl, rfl⟩ running frame member
      obtain ⟨request, fr, rfl, lone⟩ := founding_lone running
      obtain rfl := List.mem_singleton.mp member
      exact plain_apart kept.2.2.2.1 kept.2.2.2.2 (Bool.and_eq_true_iff.mp lone).1
  have elsewhere : ∀ inner, Invoked sampleEnv founding inner → inner.kind.creates = true →
      inner.derived ≠ inner.caller.address := by
    intro inner invoked _
    rw [founding_invoked invoked]
    decide +kernel
  obtain ⟨-, codes, -, creations⟩ := codes_and_nonces_last sampleEnv rfl founding (by decide) valid hashed apart elsewhere
  refine ⟨?_, fun reply answered => ?_⟩
  · obtain ⟨request, fr, running, -⟩ := @firstRun_running sampleEnv founding (fun _ _ => true) (by decide +kernel)
    obtain ⟨nonce, code, -⟩ := (creations founding .root rfl).2.2 request fr [] running
    exact ⟨request, fr, running, nonce, code⟩
  · have present : (founding.evm.db.getCode 0x100).1 = [0xfe] := by decide +kernel
    exact ((codes founding .root 0x100 (by rw [present]; exact nofun)).2 reply answered).trans present

end CuteEVM
