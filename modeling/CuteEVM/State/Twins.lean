import CuteEVM.State.Book

set_option autoImplicit false

-- A copy shows what the state shows. If the journal of the state is empty, both stay alike under the same operations.

namespace CuteEVM

section Twins

variable [Crypto] {known : Set Bytes} {base s s' c : StateDB}

theorem Op.grounded (valid : Valid s) (grounded : Grounded s) {op : Op} (booked : op.booked = true)
    (result : op.apply s = .ok s') : Grounded s' := by
  cases forward : op.forward with
  | true =>
    have familiar : op.Familiar Set.univ := by cases op <;> trivial
    exact (Op.edits valid forward familiar result).grounded grounded
  | false =>
    cases op <;> simp [Op.forward, Op.booked] at forward booked
    obtain rfl := Except.ok.inj result
    exact fun a marked => by cases marked

theorem applyAll_twins (valid : Valid s) (valid' : Valid c) (grounded : Grounded s) (grounded' : Grounded c)
    (same : c.book = s.book) {ops : List Op} (booked : ∀ op ∈ ops, op.booked = true) (result : Op.applyAll ops s = .ok s') :
    ∃ c', Op.applyAll ops c = .ok c' ∧ c'.book = s'.book := by
  induction ops generalizing s c with
  | nil =>
    obtain rfl := Except.ok.inj result
    exact ⟨c, rfl, same⟩
  | cons op rest ih =>
    have here := booked op List.mem_cons_self
    have refined := Op.apply_book valid grounded here
    have refined' := Op.apply_book valid' grounded' here
    rw [same, ← refined] at refined'
    simp only [Op.applyAll] at result ⊢
    cases stepped : op.apply s with
    | error fault => simp [stepped] at result
    | ok t =>
      cases stepped' : op.apply c with
      | error fault => simp [stepped, stepped', Except.map] at refined'
      | ok t' =>
        rw [stepped, stepped'] at refined'
        simp only [stepped] at result
        exact ih (Op.valid valid stepped) (Op.valid valid' stepped') (Op.grounded valid grounded here stepped)
          (Op.grounded valid' grounded' here stepped') (Except.ok.inj refined')
          (fun op member => booked op (List.mem_cons_of_mem _ member)) result

theorem copy_accounts (since : Since known base s) (resets : ResetsCarried s) (result : s.copy = .ok c) :
    c.world.accounts = s.world.accounts := by
  have copying := copy_copying result
  have trie : c.trie = s.trie := by rw [copying.rest]; rfl
  have codes : c.codes = s.codes := by rw [copying.rest]; rfl
  funext a
  cases carried : s.carried a with
  | true => simp only [StateDB.world, StateDB.lookup_congr (copying.seen a carried) trie, codes]
  | false =>
    have absent := copying.unseen a (by simp [carried])
    rw [accounts_of_absent absent, since.settled resets carried]
    simp only [StateDB.stored, trie, codes]

theorem copy_book (since : Since known base s) (resets : ResetsCarried s) (result : s.copy = .ok c) :
    c.book = { s.book with marked := fun _ => false } := by
  have copying := copy_copying result
  simp only [StateDB.book, copy_accounts since resets result, Book.mk.injEq, true_and]
  rw [copying.rest]
  exact ⟨rfl, rfl, rfl, rfl, rfl⟩

-- Accounts that `CreateAccount` has reset are carried over, and no deleted account is written back.
def Method.Carries (known : Set Bytes) (s : StateDB) : Method → Prop
  | .call (.finalise _) => ResetsCarried s
  | .call (.commit deleteEmptyObjects) => ResetsCarried s ∧ Settled deleteEmptyObjects s
  | .call op => op.Familiar known
  | .copy => True

theorem Method.since_step (apart : Apart known) {method : Method} (since : Since known base s)
    (carries : method.Carries known s) (result : method.apply s = .ok s') : ∃ base', Since known base' s' := by
  cases method with
  | copy => exact ⟨_, (copy_base since result).since⟩
  | call op =>
    cases plain : op.ends with
    | false =>
      have familiar : op.Familiar known := by
        cases op <;> first | exact carries | simp [Op.ends] at plain
      exact ⟨base, since.step plain familiar result⟩
    | true =>
      cases op <;> simp [Op.ends] at plain
      all_goals obtain rfl := Except.ok.inj result
      · exact ⟨_, (finalise_base since carries _).since⟩
      · exact ⟨_, (commit_base since carries.1 apart carries.2).since⟩
      · exact ⟨_, (reset_base since.coded _).since⟩

theorem Runs.carries {trie : Address → Option Account} {codes : Hash → Option Bytes} (apart : Apart known)
    (store : ∀ hash code, codes hash = some code → code ∈ known ∧ keccak256 code = hash)
    (run : Runs (fun s method => method.Carries known s) (StateDB.new trie codes) s) : ∃ base, Since known base s := by
  induction run with
  | refl => exact ⟨_, (new_base trie store).since⟩
  | tail _ acts ih =>
    obtain ⟨base, since⟩ := ih
    obtain ⟨method, carries, result⟩ := acts
    exact Method.since_step apart since carries result

end Twins

section Database

variable [Crypto] {known : Set Bytes} {s s' c : StateDB}

def Method.Familiar (known : Set Bytes) : Method → Prop
  | .call op => op.Familiar known
  | .copy => True

theorem Method.grown (apart : Apart known) {method : Method} (valid : Valid s) (coded : Coded known s.journal.entries s)
    (familiar : method.Familiar known) (result : method.apply s = .ok s') :
    Coded known s'.journal.entries s' ∧ Grown s.codes s'.codes := by
  cases method with
  | copy =>
    have copying := copy_copying result
    have codes : s'.codes = s.codes := by rw [copying.rest]; rfl
    have entries : s'.journal.entries = [] := by rw [copying.rest]; rfl
    rw [entries, codes]
    exact ⟨copy_coded coded result, fun _ _ stored => stored⟩
  | call op =>
    cases plain : op.ends with
    | false =>
      have codes : s'.codes = s.codes := by
        rcases Op.step valid plain result with next | ⟨_, _, _, _, _, _, rewound⟩
        · exact next.codes
        · exact rewound.codes
      refine ⟨?_, by rw [codes]; exact fun _ _ stored => stored⟩
      cases forward : op.forward with
      | true => exact (Op.edits valid forward familiar result).coded coded
      | false =>
        cases op <;> simp [Op.forward, Op.ends] at forward plain
        exact revertToSnapshot_coded coded result
    | true =>
      cases op <;> simp [Op.ends] at plain
      all_goals obtain rfl := Except.ok.inj result
      · refine ⟨finalise_coded valid coded _, ?_⟩
        rw [finalise_codes]
        exact fun _ _ stored => stored
      · exact commit_coded apart coded _
      · exact ⟨⟨coded.store, by rintro _ _ ⟨⟩, by rintro _ ⟨⟩⟩, fun _ _ stored => stored⟩

theorem Runs.grown (apart : Apart known) (valid : Valid s) (coded : Coded known s.journal.entries s)
    (run : Runs (fun _ method => method.Familiar known) s s') : Grown s.codes s'.codes := by
  have kept : Coded known s'.journal.entries s' ∧ Grown s.codes s'.codes := by
    induction run with
    | refl => exact ⟨coded, fun _ _ stored => stored⟩
    | tail earlier acts ih =>
      obtain ⟨method, familiar, result⟩ := acts
      obtain ⟨next, grown⟩ := method.grown apart (Runs.valid earlier valid) ih.1 familiar result
      exact ⟨next, ih.2.trans grown⟩
  exact kept.2

def StateDB.share (s other : StateDB) : StateDB := { s with codes := other.codes }

-- What a state shows is the same, except for code that the database did not have.
structure Unaffected (before after : Observation) : Prop where
  exist : after.exist = before.exist
  empty : after.empty = before.empty
  balance : after.balance = before.balance
  nonce : after.nonce = before.nonce
  codeHash : after.codeHash = before.codeHash
  storage : after.storage = before.storage
  committed : after.committed = before.committed
  suicided : after.suicided = before.suicided
  refund : after.refund = before.refund
  logs : after.logs = before.logs
  preimages : after.preimages = before.preimages
  code : ∀ a, (before.code a = [] → before.exist a = false ∨ before.codeHash a = emptyCodeHash) → after.code a = before.code a

theorem resolveCode_grown {codes codes' : Hash → Option Bytes} (grown : Grown codes codes') {code : Bytes} {hash : Hash}
    (known : resolveCode codes code hash = [] → hash = emptyCodeHash) :
    resolveCode codes' code hash = resolveCode codes code hash := by
  unfold resolveCode at known ⊢
  split
  · rfl
  · next missing =>
      rw [if_neg missing] at known
      split
      · rfl
      · next nonempty =>
          rw [if_neg nonempty] at known
          cases stored : codes hash with
          | none => exact absurd (known (by rw [stored]; rfl)) nonempty
          | some found => rw [grown hash found stored]

theorem share_unaffected (grown : Grown s.codes s'.codes) : Unaffected s.observe (s.share s').observe := by
  have accounts : ∀ a, (s.share s').world.accounts a = (s.lookup a).map (·.view s'.codes) := fun _ => rfl
  have shown : ∀ a, s.world.accounts a = (s.lookup a).map (·.view s.codes) := fun _ => rfl
  have same : ∀ {β : Type} (default : β) (read : AccountView → β),
    (∀ o : StateObject, read (o.view s'.codes) = read (o.view s.codes)) →
      ∀ a, ((s.share s').world.accounts a).elim default read = (s.world.accounts a).elim default read := by
    intro β default read agrees a
    rw [accounts, shown]
    cases s.lookup a with
    | none => rfl
    | some o => exact agrees o
  rw [observe_world, observe_world]
  refine ⟨funext fun a => ?_, funext (same true _ fun _ => rfl), funext (same 0 _ fun _ => rfl), funext (same 0 _ fun _ => rfl),
    funext (same 0 _ fun _ => rfl), ?_, ?_, funext (same false _ fun _ => rfl), rfl, rfl, rfl, fun a readable => ?_⟩
  · simp only [World.observe, accounts, shown, Option.isSome_map]
  · funext a key
    exact same 0 (fun view => view.storage key) (fun _ => rfl) a
  · funext a key
    exact same 0 (fun view => view.committed key) (fun _ => rfl) a
  · simp only [World.observe, accounts, shown] at readable ⊢
    cases found : s.lookup a with
    | none => rfl
    | some o =>
      simp only [found, Option.map_some, Option.elim, Option.isSome_some, Bool.true_eq_false, false_or] at readable ⊢
      exact resolveCode_grown grown readable

end Database

section Copies

variable [Crypto] {known : Set Bytes} {s c : StateDB}

-- A copy shows what the state shows. Taken while no account is marked, it goes on to show the same under the same
-- operations. Neither of the two is affected by what is done to the other one.
theorem copy_agrees {trie : Address → Option Account} {codes : Hash → Option Bytes} (apart : Apart known)
    (store : ∀ hash code, codes hash = some code → code ∈ known ∧ keccak256 code = hash)
    (run : Runs (fun s method => method.Carries known s) (StateDB.new trie codes) s) (resets : ResetsCarried s)
    (result : s.copy = .ok c) :
    c.observe = s.observe ∧
      ((∀ a, s.marked a = false) → ∀ ops : List Op, (∀ op ∈ ops, op.booked = true) → ∀ deleteEmptyObjects,
        (∀ s', Op.applyAll (ops ++ [.finalise deleteEmptyObjects]) s = .ok s' →
          ∃ c', Op.applyAll (ops ++ [.finalise deleteEmptyObjects]) c = .ok c' ∧ c'.observe = s'.observe) ∧
        ∀ c', Op.applyAll (ops ++ [.finalise deleteEmptyObjects]) c = .ok c' →
          ∃ s', Op.applyAll (ops ++ [.finalise deleteEmptyObjects]) s = .ok s' ∧ s'.observe = c'.observe) ∧
      (∀ s', Runs (fun _ method => method.Familiar known) s s' → Unaffected c.observe (c.share s').observe) ∧
      ∀ c', Runs (fun _ method => method.Familiar known) c c' → Unaffected s.observe (s.share c').observe := by
  obtain ⟨base, since⟩ := Runs.carries apart store run
  have valid := since.evolves.valid
  have copying := copy_copying result
  have shared : c.codes = s.codes := by rw [copying.rest]; rfl
  have twin := copy_book since resets result
  refine ⟨?_, fun unmarked ops booked deleteEmptyObjects => ?_, fun s' run' => ?_, fun c' run' => ?_⟩
  · rw [StateDB.observe_book, StateDB.observe_book, twin]
    rfl
  · have same : c.book = s.book := by
      rw [twin]
      exact congrArg (fun marked => { s.book with marked := marked }) (funext fun a => (unmarked a).symm)
    have grounded : Grounded s := fun a marked => by simp [unmarked a] at marked
    have marks : ∀ a, c.marked a = s.marked a := congrFun (congrArg Book.marked same)
    have grounded' : Grounded c := fun a marked => by simp [marks, unmarked a] at marked
    have all : ∀ op ∈ ops ++ [Op.finalise deleteEmptyObjects], op.booked = true := by
      intro op member
      rcases List.mem_append.mp member with before | last
      · exact booked op before
      · rw [List.mem_singleton.mp last]
        rfl
    have valid' := copy_valid valid result
    refine ⟨fun s' applied => ?_, fun c' applied => ?_⟩
    · obtain ⟨c', applied', books⟩ := applyAll_twins valid valid' grounded grounded' same all applied
      exact ⟨c', applied', by rw [StateDB.observe_book, StateDB.observe_book, books]⟩
    · obtain ⟨s', applied', books⟩ := applyAll_twins valid' valid grounded' grounded same.symm all applied
      exact ⟨s', applied', by rw [StateDB.observe_book, StateDB.observe_book, books]⟩
  · apply share_unaffected
    rw [shared]
    exact Runs.grown apart valid since.coded run'
  · apply share_unaffected
    rw [← shared]
    refine Runs.grown apart (copy_valid valid result) ?_ run'
    rw [show c.journal.entries = [] by rw [copying.rest]; rfl]
    exact copy_coded since.coded result

end Copies

section Samples

attribute [local instance] Crypto.sample

-- A copy is taken after `Finalise`, and the nonce of an account is changed in both.
theorem copy_agrees_sample :
    ∃ c c', ((StateDB.new (fun _ => none) (fun _ => none)).addBalance 1 7 |>.finalise true).copy = .ok c ∧
      Op.applyAll [.setNonce 1 3, .finalise true] c = .ok c' ∧ c'.observe.nonce 1 = 3 ∧ c'.observe.balance 1 = 7 := by
  have unreset : ResetsCarried ((StateDB.new (fun _ => none) (fun _ => none)).addBalance 1 7) := by
    intro prev member
    change _ ∈ [JournalEntry.balanceChange 1 0, .createObjectChange 1] at member
    simp at member
  have apart : Apart {[]} := ⟨rfl, by rintro code rfl code' rfl _; rfl⟩
  have run : Runs (fun s method => method.Carries {[]} s) (StateDB.new (fun _ => none) (fun _ => none))
      ((StateDB.new (fun _ => none) (fun _ => none)).addBalance 1 7 |>.finalise true) :=
    .tail (.single ⟨.call (.addBalance 1 7), trivial, rfl⟩) ⟨.call (.finalise true), unreset, rfl⟩
  obtain ⟨c, result⟩ : ∃ c, ((StateDB.new (fun _ => none) (fun _ => none)).addBalance 1 7 |>.finalise true).copy = .ok c :=
    ⟨_, rfl⟩
  have agrees := copy_agrees apart (fun _ _ stored => by cases stored) run (fun prev member => by cases member) result
  obtain ⟨c', applied, shows⟩ := (agrees.2.1 (fun _ => rfl) [.setNonce 1 3] (by decide) true).1 _ rfl
  refine ⟨c, c', result, applied, ?_⟩
  rw [shows]
  decide

-- The copy of a state does not have an account that `CreateAccount` has reset, and `Finalise` does not delete in it an
-- account that was suicided before.
theorem copy_differs :
    (∃ s c, Runs (fun _ _ => True) (StateDB.new (fun _ => none) (fun _ => none)) s ∧ s.copy = .ok c ∧
      s.observe.nonce 1 = 0 ∧ c.observe.nonce 1 = 5) ∧
    ∃ s c, Runs (fun _ _ => True) (StateDB.new (fun _ => none) (fun _ => none)) s ∧ s.copy = .ok c ∧
      (s.finalise false).observe.exist 1 = false ∧ (c.finalise false).observe.exist 1 = true := by
  refine ⟨⟨(((StateDB.new (fun _ => none) (fun _ => none)).setNonce 1 5).commit false).createAccount 1, _, ?_, rfl, by decide⟩,
    ⟨(((StateDB.new (fun _ => none) (fun _ => none)).addBalance 1 7).suicide 1).2, _, ?_, rfl, by decide⟩⟩
  · exact .tail (.tail (.single ⟨.call (.setNonce 1 5), trivial, rfl⟩) ⟨.call (.commit false), trivial, rfl⟩)
      ⟨.call (.createAccount 1), trivial, rfl⟩
  · exact .tail (.single ⟨.call (.addBalance 1 7), trivial, rfl⟩) ⟨.call (.suicide 1), trivial, rfl⟩

end Samples

end CuteEVM
