import CuteEVM.State.Book

set_option autoImplicit false

-- An account that does not exist and one that was just created differ in nothing that is recorded here.

namespace CuteEVM

variable [Crypto]

@[ext]
structure Facts where
  nonce : Nat
  code : Bytes
  -- The code hash is neither zero nor that of the empty code.
  coded : Bool
  storage : Hash → Hash
  committed : Hash → Hash
  suicided : Bool

def Facts.blank : Facts := ⟨0, [], false, fun _ => 0, fun _ => 0, false⟩

def codedHash (codeHash : Hash) : Bool := codeHash ≠ 0 && codeHash ≠ emptyCodeHash

def AccountView.facts (view : AccountView) : Facts :=
  ⟨view.nonce, view.code, codedHash view.codeHash, view.storage, view.committed, view.suicided⟩

theorem fresh_facts (balance : Int) : ({ AccountView.fresh with balance := balance } : AccountView).facts = .blank := by
  simp [AccountView.facts, AccountView.fresh, Facts.blank, codedHash]

def Book.facts (book : Book) (a : Address) : Facts := (book.accounts a).elim .blank AccountView.facts

def StateDB.facts (s : StateDB) : Address → Facts := s.book.facts

section Getters

variable {s s' : StateDB} (a : Address)

theorem Book.facts_elim {α : Type} (book : Book) (project : Facts → α) (read : AccountView → α)
    (same : ∀ view, project view.facts = read view) :
    (book.accounts a).elim (project .blank) read = project (book.facts a) := by
  cases found : book.accounts a with
  | none => simp [facts, found]
  | some view => simp [facts, found, same]

theorem getNonce_facts : (s.getNonce a).1 = (s.facts a).nonce := by
  have seen := congrFun (congrArg Observation.nonce s.observe_book) a
  exact seen.trans (s.book.facts_elim a Facts.nonce AccountView.nonce fun _ => rfl)

theorem getCode_facts : (s.getCode a).1 = (s.facts a).code := by
  have seen := congrFun (congrArg Observation.code s.observe_book) a
  exact seen.trans (s.book.facts_elim a Facts.code AccountView.code fun _ => rfl)

theorem getCodeHash_facts : codedHash (s.getCodeHash a).1 = (s.facts a).coded := by
  have seen := congrArg codedHash (congrFun (congrArg Observation.codeHash s.observe_book) a)
  rw [StateDB.facts, ← s.book.facts_elim a Facts.coded (fun view => codedHash view.codeHash) fun _ => rfl]
  refine seen.trans ?_
  cases found : s.book.accounts a with
  | none => simp [Book.observe, World.observe, found, codedHash, Facts.blank]
  | some view => simp [Book.observe, World.observe, found]

theorem getState_facts (key : Hash) : (s.getState a key).1 = (s.facts a).storage key := by
  have seen := congrFun (congrFun (congrArg Observation.storage s.observe_book) a) key
  exact seen.trans (s.book.facts_elim a (fun facts => facts.storage key) (fun view => view.storage key) fun _ => rfl)

theorem getCommittedState_facts (key : Hash) : (s.getCommittedState a key).1 = (s.facts a).committed key := by
  have seen := congrFun (congrFun (congrArg Observation.committed s.observe_book) a) key
  exact seen.trans (s.book.facts_elim a (fun facts => facts.committed key) (fun view => view.committed key) fun _ => rfl)

end Getters

namespace Book

variable (book : Book) (a : Address)

theorem facts_put (view : AccountView) : (book.put a view).facts = Function.update book.facts a view.facts := by
  funext b
  by_cases same : b = a
  · simp [facts, put, same]
  · simp [facts, put, mark, same]

theorem obtain_facts : (book.obtain a).1.facts = book.facts a ∧ (book.obtain a).2.facts = book.facts := by
  unfold Book.obtain
  cases found : book.accounts a with
  | some view => exact ⟨by simp [facts, found], rfl⟩
  | none =>
    have fresh : AccountView.fresh.facts = .blank := fresh_facts 0
    have missing : book.facts a = .blank := by simp [facts, found]
    refine ⟨fresh.trans missing.symm, ?_⟩
    simp only [facts_put, fresh, ← missing, Function.update_eq_self]

theorem facts_change {view : AccountView} {facts : Facts} (changed : view.facts = facts) :
    ((book.obtain a).2.put a view).facts = Function.update book.facts a facts := by
  rw [facts_put, (book.obtain_facts a).2, changed]

theorem facts_pay (balance : Int) :
    ((book.obtain a).2.put a { (book.obtain a).1 with balance := balance }).facts = book.facts := by
  rw [facts_put, (book.obtain_facts a).2]
  exact (congrArg (Function.update book.facts a) (book.obtain_facts a).1).trans (Function.update_eq_self a book.facts)

theorem facts_addBalance (amount : Int) : (book.addBalance a amount).facts = book.facts := by
  have rest := (book.obtain_facts a).2
  simp only [addBalance]
  split
  · split
    · exact rest
    · exact rest
  · exact book.facts_pay a _

theorem facts_subBalance (amount : Int) : (book.subBalance a amount).facts = book.facts := by
  have rest := (book.obtain_facts a).2
  simp only [subBalance]
  split
  · exact rest
  · exact book.facts_pay a _

theorem facts_setNonce (nonce : Nat) :
    (book.setNonce a nonce).facts = Function.update book.facts a { book.facts a with nonce := nonce } := by
  refine book.facts_change a ?_
  rw [← (book.obtain_facts a).1]
  rfl

theorem facts_setCode (code : Bytes) : (book.setCode a code).facts =
    Function.update book.facts a { book.facts a with code := code, coded := codedHash (keccak256 code) } := by
  refine book.facts_change a ?_
  rw [← (book.obtain_facts a).1]
  rfl

theorem facts_setState (key value : Hash) : (book.setState a key value).facts =
    Function.update book.facts a
      { book.facts a with storage := Function.update (book.facts a).storage key value } := by
  obtain ⟨own, rest⟩ := book.obtain_facts a
  simp only [setState]
  split
  · next same =>
      have kept : (book.facts a).storage key = value := by
        rw [← own]
        exact same
      rw [rest, ← kept, Function.update_eq_self, Function.update_eq_self]
  · refine book.facts_change a ?_
    rw [← own]
    rfl

theorem facts_createAccount : (book.createAccount a).facts = Function.update book.facts a .blank := by
  unfold createAccount
  cases found : book.accounts a with
  | none => exact (book.facts_put a _).trans (by rw [show AccountView.fresh.facts = .blank from fresh_facts 0])
  | some view =>
    funext b
    by_cases same : b = a
    · simp [facts, same, fresh_facts]
    · simp [facts, same]

theorem facts_suicide : (book.suicide a).facts =
    Function.update book.facts a { book.facts a with suicided := (book.accounts a).isSome || (book.facts a).suicided } := by
  unfold suicide
  cases found : book.accounts a with
  | none => simp only [Option.isSome_none, Bool.false_or, Function.update_eq_self]
  | some view =>
    rw [facts_put]
    refine congrArg (Function.update book.facts a) ?_
    have own : book.facts a = view.facts := by simp [facts, found]
    rw [own]
    rfl

end Book

section States

variable {s s' : StateDB}

theorem Reads.facts (reads : Reads s s') : s'.facts = s.facts := congrArg Book.facts reads.book

theorem setNonce_facts (valid : Valid s) (a : Address) (nonce : Nat) :
    (s.setNonce a nonce).facts = Function.update s.facts a { s.facts a with nonce := nonce } :=
  (congrArg Book.facts (setNonce_book valid a nonce)).trans (s.book.facts_setNonce a nonce)

theorem setCode_facts (valid : Valid s) (a : Address) (code : Bytes) : (s.setCode a code).facts =
    Function.update s.facts a { s.facts a with code := code, coded := codedHash (keccak256 code) } :=
  (congrArg Book.facts (setCode_book valid a code)).trans (s.book.facts_setCode a code)

theorem setState_facts (valid : Valid s) (a : Address) (key value : Hash) : (s.setState a key value).facts =
    Function.update s.facts a { s.facts a with storage := Function.update (s.facts a).storage key value } :=
  (congrArg Book.facts (setState_book valid a key value)).trans (s.book.facts_setState a key value)

theorem createAccount_facts (valid : Valid s) (a : Address) :
    (s.createAccount a).facts = Function.update s.facts a .blank :=
  (congrArg Book.facts (createAccount_book valid a)).trans (s.book.facts_createAccount a)

theorem suicide_facts (valid : Valid s) (a : Address) : (s.suicide a).2.facts = Function.update s.facts a
    { s.facts a with suicided := (s.world.accounts a).isSome || (s.facts a).suicided } :=
  (congrArg Book.facts (suicide_book valid a)).trans (s.book.facts_suicide a)

structure Inert (refunds : Bool) (s s' : StateDB) : Prop where
  evolves : Evolves s s'
  edits : Edits Set.univ s s'
  facts : s'.facts = s.facts
  refund : refunds = false → s'.refund = s.refund

variable {refunds : Bool}

theorem Inert.refl (valid : Valid s) : Inert refunds s s := ⟨.refl valid, .refl, rfl, fun _ => rfl⟩

theorem Inert.trans {t : StateDB} (first : Inert refunds s t) (second : Inert refunds t s') : Inert refunds s s' where
  evolves := first.evolves.trans second.evolves
  edits := first.edits.trans second.edits
  facts := second.facts.trans first.facts
  refund := fun kept => (second.refund kept).trans (first.refund kept)

theorem Inert.refunding (inert : Inert refunds s s') : Inert true s s' := ⟨inert.evolves, inert.edits, inert.facts, nofun⟩

def Op.inert : Op → Bool
  | .exist _ | .empty _ | .getBalance _ | .getNonce _ | .getCode _ | .getCodeSize _ | .getCodeHash _ | .getState _ _
  | .getCommittedState _ _ | .hasSuicided _ | .addBalance _ _ | .subBalance _ _ | .addLog _ | .addPreimage _ _
  | .snapshot => true
  | _ => false

theorem Reads.refund (reads : Reads s s') : s'.refund = s.refund := congrArg World.refund reads.world

theorem Book.refund_obtain (book : Book) (a : Address) : (book.obtain a).2.refund = book.refund := by
  unfold Book.obtain
  split <;> rfl

theorem Book.refund_addBalance (book : Book) (a : Address) (amount : Int) : (book.addBalance a amount).refund = book.refund := by
  have opened := book.refund_obtain a
  simp only [Book.addBalance]
  repeat' split
  all_goals exact opened

theorem Book.refund_subBalance (book : Book) (a : Address) (amount : Int) : (book.subBalance a amount).refund = book.refund := by
  have opened := book.refund_obtain a
  simp only [Book.subBalance]
  split
  all_goals exact opened

theorem Op.inert_apply (valid : Valid s) {op : Op} (inert : op.inert = true) (result : op.apply s = .ok s') :
    Inert refunds s s' := by
  have forward : op.forward = true := by cases op <;> first | rfl | simp [Op.inert] at inert
  have familiar : op.Familiar Set.univ := by cases op <;> trivial
  have edits : Edits Set.univ s s' := Op.edits valid forward familiar result
  have read : Reads s s' → Inert refunds s s' := fun reads => ⟨reads.evolves, edits, reads.facts, fun _ => reads.refund⟩
  cases op with
  | exist a => exact read (Except.ok.inj result ▸ StateDB.exist_reads valid a)
  | empty a => exact read (Except.ok.inj result ▸ StateDB.empty_reads valid a)
  | getBalance a => exact read (Except.ok.inj result ▸ StateDB.getBalance_reads valid a)
  | getNonce a => exact read (Except.ok.inj result ▸ StateDB.getNonce_reads valid a)
  | getCode a => exact read (Except.ok.inj result ▸ StateDB.getCode_reads valid a)
  | getCodeSize a => exact read (Except.ok.inj result ▸ StateDB.getCodeSize_reads valid a)
  | getCodeHash a => exact read (Except.ok.inj result ▸ StateDB.getCodeHash_reads valid a)
  | getState a key => exact read (Except.ok.inj result ▸ StateDB.getState_reads valid a key)
  | getCommittedState a key => exact read (Except.ok.inj result ▸ StateDB.getCommittedState_reads valid a key)
  | hasSuicided a => exact read (Except.ok.inj result ▸ StateDB.hasSuicided_reads valid a)
  | addBalance a amount =>
    obtain rfl := Except.ok.inj result
    have book := addBalance_book valid a amount
    exact ⟨addBalance_evolves valid a amount, edits, (congrArg Book.facts book).trans (s.book.facts_addBalance a amount),
      fun _ => (congrArg Book.refund book).trans (s.book.refund_addBalance a amount)⟩
  | subBalance a amount =>
    obtain rfl := Except.ok.inj result
    have book := subBalance_book valid a amount
    exact ⟨subBalance_evolves valid a amount, edits, (congrArg Book.facts book).trans (s.book.facts_subBalance a amount),
      fun _ => (congrArg Book.refund book).trans (s.book.refund_subBalance a amount)⟩
  | addLog log =>
    obtain rfl := Except.ok.inj result
    exact ⟨addLog_evolves valid log, edits, rfl, fun _ => rfl⟩
  | addPreimage hash preimage =>
    obtain rfl := Except.ok.inj result
    have same : (s.addPreimage hash preimage).facts = s.facts ∧ (s.addPreimage hash preimage).refund = s.refund := by
      unfold StateDB.addPreimage
      split <;> exact ⟨rfl, rfl⟩
    exact ⟨addPreimage_evolves valid hash preimage, edits, same.1, fun _ => same.2⟩
  | snapshot =>
    obtain rfl := Except.ok.inj result
    exact ⟨snapshot_evolves valid, edits, rfl, fun _ => rfl⟩
  | _ => simp [Op.inert] at inert

theorem addRefund_inert (valid : Valid s) (gas : Nat) : Inert true s (s.addRefund gas) :=
  ⟨addRefund_evolves valid gas, addRefund_edits gas, rfl, nofun⟩

theorem subRefund_inert (valid : Valid s) {gas : Nat} (result : s.subRefund gas = .ok s') : Inert true s s' := by
  refine ⟨subRefund_evolves valid result, subRefund_edits result, ?_, nofun⟩
  unfold StateDB.subRefund at result
  split at result
  · cases result
  · obtain rfl := Except.ok.inj result
    rfl

theorem createAccount_inert (valid : Valid s) {a : Address} (missing : s.lookup a = none) :
    Inert refunds s (s.createAccount a) := by
  have blank : s.facts a = .blank := by simp [StateDB.facts, Book.facts, StateDB.book, StateDB.world, missing]
  refine ⟨createAccount_evolves valid a, createAccount_edits a, ?_, fun _ => ?_⟩
  · rw [createAccount_facts valid, ← blank, Function.update_eq_self]
  · rw [StateDB.createAccount, createObject_missing missing]
    rfl

structure Effects (s s' : StateDB) (facts : Address → Facts) : Prop where
  evolves : Evolves s s'
  edits : Edits Set.univ s s'
  facts : s'.facts = facts
  refund : s'.refund = s.refund

theorem Inert.effects (inert : Inert false s s') : Effects s s' s.facts :=
  ⟨inert.evolves, inert.edits, inert.facts, inert.refund rfl⟩

theorem Effects.trans {t : StateDB} {facts facts' : Address → Facts} (first : Effects s t facts) (second : Effects t s' facts') :
    Effects s s' facts' :=
  ⟨first.evolves.trans second.evolves, first.edits.trans second.edits, second.facts, second.refund.trans first.refund⟩

theorem Effects.after {t : StateDB} {facts : Address → Facts} (first : Effects s t facts) (second : Inert false t s') :
    Effects s s' facts := by
  have rest := second.effects
  rw [first.facts] at rest
  exact first.trans rest

theorem setNonce_effects (valid : Valid s) (a : Address) (nonce : Nat) :
    Effects s (s.setNonce a nonce) (Function.update s.facts a { s.facts a with nonce := nonce }) :=
  ⟨setNonce_evolves valid a nonce, setNonce_edits valid a nonce, setNonce_facts valid a nonce,
    (congrArg Book.refund (setNonce_book valid a nonce)).trans (s.book.refund_obtain a)⟩

theorem setState_effects (valid : Valid s) (a : Address) (key value : Hash) :
    Effects s (s.setState a key value)
      (Function.update s.facts a { s.facts a with storage := Function.update (s.facts a).storage key value }) := by
  refine ⟨setState_evolves valid a key value, setState_edits valid a key value, setState_facts valid a key value, ?_⟩
  refine (congrArg Book.refund (setState_book valid a key value)).trans ?_
  simp only [Book.setState]
  split <;> exact s.book.refund_obtain a

theorem createAccount_effects (valid : Valid s) (a : Address) :
    Effects s (s.createAccount a) (Function.update s.facts a .blank) := by
  refine ⟨createAccount_evolves valid a, createAccount_edits a, createAccount_facts valid a, ?_⟩
  refine (congrArg Book.refund (createAccount_book valid a)).trans ?_
  simp only [Book.createAccount]
  split <;> rfl

end States

end CuteEVM
