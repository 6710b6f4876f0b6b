import CuteEVM.State.Setters

set_option autoImplicit false

namespace CuteEVM

variable [Crypto]

variable {a : Address} {o : StateObject}

def AccountView.fresh : AccountView where
  nonce := 0
  balance := 0
  codeHash := emptyCodeHash
  code := []
  storage := fun _ => 0
  committed := fun _ => 0
  suicided := false

theorem freshObject_view (codes : Hash → Option Bytes) (a : Address) :
    (freshObject a).view codes = AccountView.fresh := by
  simp [StateObject.view, freshObject, newObject, resolveCode, Account.zero, StateObject.getTrie, AccountView.fresh]

structure World.Quiet (world world' : World) : Prop where
  accounts : ∀ a, world'.accounts a = world.accounts a ∨
    (world.accounts a = none ∧ world'.accounts a = some AccountView.fresh)
  refund : world'.refund = world.refund
  logs : world'.logs = world.logs
  logSize : world'.logSize = world.logSize
  preimages : ∀ hash preimage, world.preimages hash = some preimage → world'.preimages hash = some preimage

theorem World.Quiet.refl (world : World) : world.Quiet world :=
  ⟨fun _ => .inl rfl, rfl, rfl, rfl, fun _ _ found => found⟩

theorem World.Quiet.trans {first second third : World} (before : first.Quiet second) (after : second.Quiet third) :
    first.Quiet third where
  accounts := by
    intro a
    rcases before.accounts a with same | ⟨missing, fresh⟩
    · rw [← same]
      exact after.accounts a
    · rcases after.accounts a with same | ⟨missing', _⟩
      · exact .inr ⟨missing, same.trans fresh⟩
      · simp [fresh] at missing'
  refund := after.refund.trans before.refund
  logs := after.logs.trans before.logs
  logSize := after.logSize.trans before.logSize
  preimages := fun hash preimage found => after.preimages hash preimage (before.preimages hash preimage found)

theorem Reads.quiet {s s' : StateDB} (reads : Reads s s') : s.world.Quiet s'.world := by
  rw [reads.world]
  exact .refl _

section Create

variable {s : StateDB}

theorem createObject_missing (missing : s.lookup a = none) :
    s.createObject a =
      (freshObject a, none, (s.append (.createObjectChange a)).setStateObject (freshObject a)) := by
  simp only [StateDB.createObject, s.getStateObject_eq, missing, StateDB.load_of_missing missing]
  rfl

theorem createObject_found (found : s.lookup a = some o) :
    s.createObject a =
      (freshObject a, some o, ((s.load a).append (.resetObjectChange o)).setStateObject (freshObject a)) := by
  simp only [StateDB.createObject, s.getStateObject_eq, found]
  rfl

theorem world_create (missing : s.lookup a = none) :
    s.world.Quiet ((s.append (.createObjectChange a)).setStateObject (freshObject a)).world where
  accounts := by
    intro b
    have seen := StateDB.lookup_setStateObject (s.append (.createObjectChange a)) (freshObject a) b rfl
    by_cases same : b = a
    · subst same
      rw [if_pos (show b = (freshObject b).address from rfl)] at seen
      refine .inr ⟨by simp [StateDB.world, missing], ?_⟩
      simp only [StateDB.world, seen, Option.map_some, freshObject_view]
    · left
      have other : b ≠ (freshObject a).address := same
      simp only [StateDB.world, seen, other, if_false]
      rfl
  refund := rfl
  logs := rfl
  logSize := rfl
  preimages := fun _ _ found => found

theorem balances_create (missing : s.lookup a = none) :
    ((s.append (.createObjectChange a)).setStateObject (freshObject a)).balances = s.balances := by
  rw [StateDB.balances_setObject _ rfl]
  have zero : s.balances a = 0 := by simp [StateDB.balances, missing]
  exact Function.update_eq_iff.mpr ⟨zero.symm, fun _ _ => rfl⟩

structure Obtained (s : StateDB) (a : Address) (o : StateObject) (t : StateDB) : Prop where
  evolves : Evolves s t
  live : t.live a = some o
  present : o.deleted = false
  address : o.address = a
  balances : t.balances = s.balances
  quiet : s.world.Quiet t.world
  origin : (s.lookup a = some o ∧ Reads s t) ∨ (s.lookup a = none ∧ o = freshObject a)

theorem getOrNewStateObject_obtained (valid : Valid s) (a : Address) :
    ∃ o t, s.getOrNewStateObject a = (o, t) ∧ Obtained s a o t := by
  cases found : s.lookup a with
  | some o =>
    have loaded := Reads.load valid a
    obtain ⟨address, present, _⟩ := valid.kept.objects.address_of_lookup found
    refine ⟨o, s.load a, by simp only [StateDB.getOrNewStateObject, s.getStateObject_eq, found], ?_⟩
    exact ⟨loaded.evolves, StateDB.live_load found, present, address, loaded.balances, loaded.quiet,
      .inl ⟨found, loaded⟩⟩
  | none =>
    refine ⟨freshObject a, (s.append (.createObjectChange a)).setStateObject (freshObject a), ?_, ?_⟩
    · simp only [StateDB.getOrNewStateObject, s.getStateObject_eq, found, StateDB.load_of_missing found,
        createObject_missing found]
    · refine ⟨.create valid found, ?_, rfl, rfl, balances_create found, world_create found, .inr ⟨found, rfl⟩⟩
      rw [StateDB.live_setStateObject]
      exact if_pos rfl

end Create

section Setters

variable {s : StateDB}

theorem Obtained.change {o o' : StateObject} {t : StateDB} {entry : JournalEntry}
    (obtained : Obtained s a o t) (change : Change t.codes a o o' entry) :
    Evolves s ((t.append entry).setStateObject o') :=
  obtained.evolves.trans (.change obtained.evolves.valid obtained.live obtained.present change)

theorem touch_evolves (valid : Valid s) (live : s.live o.address = some o)
    (present : o.deleted = false) : Evolves s (s.touch o) := by
  have objects := valid.kept.objects
  have cached : s.caches o.address = some o.keys := StateDB.caches_of_live live present
  have appended : Counts (.touchChange o.address :: s.journal.entries) (s.append (.touchChange o.address)) := by
    refine valid.kept.counts.append _ rfl ⟨fun _ _ live _ => live, fun _ dirty => dirty⟩ ?_
      (logged_of_other valid.kept.counts fun _ => rfl) valid.kept.counts.logSize
    intro a o' live' dirtied
    obtain rfl := Option.some.inj dirtied
    rw [StateDB.live_append, live] at live'
    rwa [← Option.some.inj live']
  have entries : (s.touch o).journal.entries = .touchChange o.address :: s.journal.entries := by
    unfold StateDB.touch
    split
    · exact s.entries_append _
    · exact s.entries_append _
  have counts : Counts (.touchChange o.address :: s.journal.entries) (s.touch o) := by
    unfold StateDB.touch
    split
    · next special =>
        refine ⟨special ▸ appended.counted.dirty, fun a o' live' deleted => ?_, appended.logged, appended.logSize⟩
        have clean := appended.undeleted a o' live' deleted
        have other : a ≠ o.address := by
          rintro rfl
          change s.live o.address = some o' at live'
          simp_all
        simpa [Journal.dirty, lookup_insert_eq, other] using clean
    · exact appended
  have created : ∀ b, JournalEntry.touchChange o.address = .createObjectChange b → s.lookup b = none := by simp
  have same : ∃ journal, s.touch o = { s with journal := journal } := by
    unfold StateDB.touch
    split
    · exact ⟨_, rfl⟩
    · exact ⟨_, rfl⟩
  obtain ⟨journal, same⟩ := same
  rw [same] at entries counts ⊢
  have survives : Survives s { s with journal := journal } := ⟨fun _ _ live _ => live, fun _ dirty => dirty⟩
  refine Evolves.entry valid _ ?_ counts entries survives created rfl rfl rfl rfl rfl (.refl _ _ _)
  refine ⟨objects.keyed, objects.sound, objects.removed, ⟨?_, objects.anchored⟩, objects.pending,
    objects.unfunded.survives survives rfl (objects.unfunded.created_cons unfunded_none created)⟩
  intro a dirtied
  obtain rfl := Option.some.inj dirtied
  change (s.caches o.address).isSome
  simp [cached]

theorem touch_world (s : StateDB) (o : StateObject) : (s.touch o).world = s.world := by
  unfold StateDB.touch
  split <;> rfl

omit [Crypto] in
theorem touch_balances (s : StateDB) (o : StateObject) : (s.touch o).balances = s.balances := by
  unfold StateDB.touch
  split <;> rfl

theorem setObjectBalance_evolves {t : StateDB} (obtained : Obtained s a o t)
    (amount : Int) : Evolves s (t.setObjectBalance o amount) := by
  refine obtained.change ?_
  rw [← obtained.address]
  exact .balance t.codes o amount

theorem setObjectBalance_balances {t : StateDB} (obtained : Obtained s a o t)
    (amount : Int) : (t.setObjectBalance o amount).balances = Function.update s.balances a amount := by
  have present : (o.setBalance amount).deleted = false := obtained.present
  unfold StateDB.setObjectBalance
  rw [StateDB.balances_setObject _ present, ← obtained.balances, ← obtained.address]
  rfl

theorem Obtained.balance {t : StateDB} (obtained : Obtained s a o t) :
    s.balances a = o.data.balance := by
  rw [← obtained.balances]
  exact StateDB.balances_of_live obtained.live obtained.present

theorem addBalance_evolves (valid : Valid s) (a : Address) (amount : Int) : Evolves s (s.addBalance a amount) := by
  obtain ⟨o, t, result, obtained⟩ := getOrNewStateObject_obtained valid a
  simp only [StateDB.addBalance, result]
  split
  · split
    · refine obtained.evolves.trans (touch_evolves obtained.evolves.valid ?_ obtained.present)
      rw [obtained.address]
      exact obtained.live
    · exact obtained.evolves
  · exact setObjectBalance_evolves obtained _

theorem addBalance_balances (valid : Valid s) (a : Address) (amount : Int) :
    (s.addBalance a amount).balances = Function.update s.balances a (s.balances a + amount) := by
  obtain ⟨o, t, result, obtained⟩ := getOrNewStateObject_obtained valid a
  simp only [StateDB.addBalance, result]
  split
  · next zero =>
      rw [zero, Int.add_zero, Function.update_eq_self]
      split
      · rw [touch_balances, obtained.balances]
      · exact obtained.balances
  · rw [setObjectBalance_balances obtained, obtained.balance]

theorem addBalance_quiet (valid : Valid s) (a : Address) : s.world.Quiet (s.addBalance a 0).world := by
  obtain ⟨o, t, result, obtained⟩ := getOrNewStateObject_obtained valid a
  simp only [StateDB.addBalance, result, if_true]
  split
  · rw [touch_world]
    exact obtained.quiet
  · exact obtained.quiet

theorem subBalance_evolves (valid : Valid s) (a : Address) (amount : Int) : Evolves s (s.subBalance a amount) := by
  obtain ⟨o, t, result, obtained⟩ := getOrNewStateObject_obtained valid a
  simp only [StateDB.subBalance, result]
  split
  · exact obtained.evolves
  · exact setObjectBalance_evolves obtained _

theorem subBalance_balances (valid : Valid s) (a : Address) (amount : Int) :
    (s.subBalance a amount).balances = Function.update s.balances a (s.balances a - amount) := by
  obtain ⟨o, t, result, obtained⟩ := getOrNewStateObject_obtained valid a
  simp only [StateDB.subBalance, result]
  split
  · next zero =>
      rw [zero, Int.sub_zero, Function.update_eq_self]
      exact obtained.balances
  · rw [setObjectBalance_balances obtained, obtained.balance]

theorem subBalance_quiet (valid : Valid s) (a : Address) : s.world.Quiet (s.subBalance a 0).world := by
  obtain ⟨o, t, result, obtained⟩ := getOrNewStateObject_obtained valid a
  simp only [StateDB.subBalance, result, if_true]
  exact obtained.quiet

theorem setBalance_evolves (valid : Valid s) (a : Address) (amount : Int) : Evolves s (s.setBalance a amount) := by
  obtain ⟨o, t, result, obtained⟩ := getOrNewStateObject_obtained valid a
  simp only [StateDB.setBalance, result]
  exact setObjectBalance_evolves obtained amount

omit [Crypto] in
theorem change_balances {t : StateDB} {o o' : StateObject} (entry : JournalEntry)
    (live : t.live a = some o) (present : o.deleted = false) (address : o'.address = a)
    (here : o'.deleted = false) (balance : o'.data.balance = o.data.balance) :
    ((t.append entry).setStateObject o').balances = t.balances := by
  rw [StateDB.balances_setObject _ here, address, balance]
  exact StateDB.update_balances live present

theorem setNonce_evolves (valid : Valid s) (a : Address) (nonce : Nat) : Evolves s (s.setNonce a nonce) := by
  obtain ⟨o, t, result, obtained⟩ := getOrNewStateObject_obtained valid a
  simp only [StateDB.setNonce, result]
  obtain rfl := obtained.address
  exact obtained.change (.nonce t.codes o nonce)

theorem setNonce_balances (valid : Valid s) (a : Address) (nonce : Nat) :
    (s.setNonce a nonce).balances = s.balances := by
  obtain ⟨o, t, result, obtained⟩ := getOrNewStateObject_obtained valid a
  simp only [StateDB.setNonce, result]
  rw [← obtained.balances]
  exact change_balances _ obtained.live obtained.present obtained.address obtained.present rfl

theorem accounts_create (missing : s.lookup a = none) :
    ((s.append (.createObjectChange a)).setStateObject (freshObject a)).world.accounts =
      Function.update s.world.accounts a (some .fresh) := by
  funext b
  have seen := StateDB.lookup_setStateObject (s.append (.createObjectChange a)) (freshObject a) b rfl
  by_cases same : b = a
  · subst same
    rw [if_pos (show b = (freshObject b).address from rfl)] at seen
    simp only [StateDB.world, seen, Option.map_some, freshObject_view, Function.update_self]
  · have other : b ≠ (freshObject a).address := same
    rw [Function.update_of_ne same]
    simp only [StateDB.world, seen, other, if_false]
    rfl

theorem setNonce_accounts (valid : Valid s) (a : Address) (nonce : Nat) :
    (s.setNonce a nonce).world.accounts =
      Function.update s.world.accounts a (some { (s.world.accounts a).getD .fresh with nonce := nonce }) := by
  cases found : s.lookup a with
  | some o =>
    have loaded := Reads.load valid a
    obtain ⟨address, present, -⟩ := valid.kept.objects.address_of_lookup found
    have seen : s.world.accounts a = some (o.view s.codes) := by simp only [StateDB.world, found, Option.map_some]
    simp only [StateDB.setNonce, StateDB.getOrNewStateObject, s.getStateObject_eq, found]
    rw [world_change _ (StateDB.live_load found) present (show (o.setNonce nonce).address = a from address) present,
      loaded.world, loaded.codes, seen]
    rfl
  | none =>
    have seen : s.world.accounts a = none := by simp only [StateDB.world, found, Option.map_none]
    have live : ((s.append (.createObjectChange a)).setStateObject (freshObject a)).live a = some (freshObject a) := by
      rw [StateDB.live_setStateObject]
      exact if_pos rfl
    simp only [StateDB.setNonce, StateDB.getOrNewStateObject, s.getStateObject_eq, found,
      StateDB.load_of_missing found, createObject_missing found]
    rw [world_change _ live rfl (show ((freshObject a).setNonce nonce).address = a from rfl) rfl, World.setAccount,
      accounts_create found, Function.update_idem, seen]
    show Function.update s.world.accounts a (some { (freshObject a).view s.codes with nonce := nonce }) = _
    rw [freshObject_view]
    rfl

theorem setNonce_observe {s' : StateDB} (valid : Valid s) (reads : Reads s s') (a : Address) (nonce : Nat) :
    (s'.setNonce a nonce).observe = (s.setNonce a nonce).observe := by
  have global : ∀ t : StateDB, Valid t → (t.setNonce a nonce).codes = t.codes ∧
      (t.setNonce a nonce).world.refund = t.world.refund ∧ (t.setNonce a nonce).world.logs = t.world.logs ∧
      (t.setNonce a nonce).world.preimages = t.world.preimages := by
    intro t valid
    obtain ⟨o, t', result, obtained⟩ := getOrNewStateObject_obtained valid a
    refine ⟨(setNonce_evolves valid a nonce).codes, ?_⟩
    simp only [StateDB.setNonce, result]
    rcases obtained.origin with ⟨-, read⟩ | ⟨missing, -⟩
    · rw [← read.world]
      exact ⟨rfl, rfl, rfl⟩
    · simp only [StateDB.getOrNewStateObject, t.getStateObject_eq, missing, StateDB.load_of_missing missing,
        createObject_missing missing, Prod.mk.injEq] at result
      rw [← result.2]
      exact ⟨rfl, rfl, rfl⟩
  obtain ⟨codes, refund, logs, preimages⟩ := global s valid
  obtain ⟨codes', refund', logs', preimages'⟩ := global s' reads.valid
  have accounts : (s'.setNonce a nonce).world.accounts = (s.setNonce a nonce).world.accounts := by
    rw [setNonce_accounts valid, setNonce_accounts reads.valid, reads.world]
  rw [observe_world, observe_world, codes, codes', reads.codes]
  simp only [World.observe, accounts, refund, refund', logs, logs', preimages, preimages', reads.world]

theorem setCode_evolves (valid : Valid s) (a : Address) (code : Bytes) : Evolves s (s.setCode a code) := by
  obtain ⟨o, t, result, obtained⟩ := getOrNewStateObject_obtained valid a
  simp only [StateDB.setCode, result, (o.loadCode_cached t.codes).data]
  obtain rfl := obtained.address
  exact obtained.change (.code t.codes o (keccak256 code) code)

theorem setCode_balances (valid : Valid s) (a : Address) (code : Bytes) :
    (s.setCode a code).balances = s.balances := by
  obtain ⟨o, t, result, obtained⟩ := getOrNewStateObject_obtained valid a
  have cached := o.loadCode_cached t.codes
  have balance : (o.loadCode t.codes).2.data.balance = o.data.balance := by rw [cached.data]
  simp only [StateDB.setCode, result]
  rw [← obtained.balances]
  exact change_balances _ obtained.live obtained.present (cached.address.trans obtained.address)
    (cached.deleted.trans obtained.present) balance

theorem setCode_code (valid : Valid s) (a : Address) (code : Bytes) : (s.setCode a code).observe.code a = code := by
  obtain ⟨o, t, result, obtained⟩ := getOrNewStateObject_obtained valid a
  have cached := o.loadCode_cached t.codes
  have here : ((o.loadCode t.codes).2.setCode (keccak256 code) code).deleted = false :=
    cached.deleted.trans obtained.present
  have home : ((o.loadCode t.codes).2.setCode (keccak256 code) code).address = a :=
    cached.address.trans obtained.address
  rw [observe_world]
  simp only [StateDB.setCode, result]
  rw [world_change _ obtained.live obtained.present home here]
  simp only [World.observe, World.accounts_setAccount, Option.elim, StateObject.view, StateObject.setCode]
  by_cases empty : code = []
  · simp [resolveCode, empty, emptyCodeHash]
  · simp [resolveCode, empty]

omit [Crypto] in
theorem StateObject.getState_loaded (sound : o.Sound) (key : Hash) :
    key ∈ (o.getState key).2.keys := by
  change ((o.getState key).2.originStorage key).isSome
  unfold getState
  cases dirty : o.dirtyStorage key with
  | some value => exact sound.dirty key (by simp [dirty])
  | none =>
    unfold getCommittedState
    cases loaded : o.originStorage key with
    | some value => simp [loaded]
    | none => simp

theorem Obtained.cache {t : StateDB} {o o' : StateObject} (obtained : Obtained s a o t)
    (cached : StateObject.Cached t.codes o o') :
    Reads t (t.setStateObject o') ∧ (t.setStateObject o').live a = some o' ∧ o'.address = a ∧ o'.deleted = false := by
  have home : o'.address = a := cached.address.trans obtained.address
  refine ⟨Reads.cache obtained.evolves.valid (StateDB.lookup_of_live obtained.live obtained.present) cached, ?_, home,
    cached.deleted.trans obtained.present⟩
  rw [StateDB.live_setStateObject, if_pos home.symm]

theorem setState_evolves (valid : Valid s) (a : Address) (key value : Hash) :
    Evolves s (s.setState a key value) := by
  obtain ⟨o, t, result, obtained⟩ := getOrNewStateObject_obtained valid a
  have cached := o.getState_cached t.codes key
  have found : t.lookup a = some o := StateDB.lookup_of_live obtained.live obtained.present
  have sound := (obtained.evolves.valid.kept.objects.address_of_lookup found).2.2
  obtain ⟨loaded, live, home, here⟩ := obtained.cache cached
  simp only [StateDB.setState, result]
  refine obtained.evolves.trans (loaded.evolves.trans ?_)
  split
  · exact .refl loaded.valid
  · refine .change loaded.valid live here ?_
    have change := Change.storage t.codes (o.getState key).2 key value (StateObject.getState_loaded sound key)
    rwa [home, cached.view, ← o.getState_value] at change

theorem setState_balances (valid : Valid s) (a : Address) (key value : Hash) :
    (s.setState a key value).balances = s.balances := by
  obtain ⟨o, t, result, obtained⟩ := getOrNewStateObject_obtained valid a
  have cached := o.getState_cached t.codes key
  obtain ⟨loaded, live, home, here⟩ := obtained.cache cached
  simp only [StateDB.setState, result]
  rw [← obtained.balances, ← loaded.balances]
  split
  · rfl
  · exact change_balances _ live here home here rfl

theorem suicide_evolves (valid : Valid s) (a : Address) : Evolves s (s.suicide a).2 := by
  have loaded := Reads.load valid a
  cases found : s.lookup a with
  | none => simpa only [StateDB.suicide, s.getStateObject_eq, found] using loaded.evolves
  | some o =>
    obtain ⟨address, present, _⟩ := valid.kept.objects.address_of_lookup found
    simp only [StateDB.suicide, s.getStateObject_eq, found]
    obtain rfl := address
    exact loaded.evolves.trans
      (.change loaded.valid (StateDB.live_load found) present (.suicide (s.load o.address).codes o))

theorem suicide_balances (valid : Valid s) (a : Address) :
    (s.suicide a).2.balances = Function.update s.balances a 0 := by
  have loaded := Reads.load valid a
  cases found : s.lookup a with
  | none =>
    have zero : s.balances a = 0 := by simp [StateDB.balances, found]
    simp only [StateDB.suicide, s.getStateObject_eq, found, loaded.balances]
    rw [← zero, Function.update_eq_self]
  | some o =>
    obtain ⟨address, present, _⟩ := valid.kept.objects.address_of_lookup found
    have here : (o.markSuicided.setBalance 0).deleted = false := present
    simp only [StateDB.suicide, s.getStateObject_eq, found]
    rw [StateDB.balances_setObject _ here, ← loaded.balances, ← address]
    rfl

theorem createAccount_found {prev : StateObject} (found : s.lookup a = some prev) :
    s.createAccount a = ((s.load a).append (.resetObjectChange prev)).setStateObject
      ((freshObject a).setBalance prev.data.balance) := by
  simp only [StateDB.createAccount, createObject_found found, StateDB.setStateObject]
  exact congrArg (fun objects => { (s.load a).append (.resetObjectChange prev) with stateObjects := objects })
    (AList.insert_insert _)

theorem createAccount_evolves (valid : Valid s) (a : Address) : Evolves s (s.createAccount a) := by
  cases found : s.lookup a with
  | none =>
    simp only [StateDB.createAccount, createObject_missing found]
    exact .create valid found
  | some prev =>
    have loaded := Reads.load valid a
    have present := (valid.kept.objects.address_of_lookup found).2.1
    have sound := StateObject.newObject_sound a Account.zero
    rw [createAccount_found found]
    exact loaded.evolves.trans
      (.reset loaded.valid (StateDB.live_load found) present rfl rfl ⟨sound.origin, sound.dirty⟩)

theorem createAccount_balances (valid : Valid s) (a : Address) : (s.createAccount a).balances = s.balances := by
  cases found : s.lookup a with
  | none =>
    simp only [StateDB.createAccount, createObject_missing found]
    exact balances_create found
  | some prev =>
    have loaded := Reads.load valid a
    have present := (valid.kept.objects.address_of_lookup found).2.1
    have here : ((freshObject a).setBalance prev.data.balance).deleted = false := rfl
    rw [createAccount_found found, StateDB.balances_setObject _ here, ← loaded.balances]
    have same := StateDB.update_balances (StateDB.live_load found) present
    exact same

theorem createAccount_quiet (missing : s.lookup a = none) :
    s.world.Quiet (s.createAccount a).world := by
  simp only [StateDB.createAccount, createObject_missing missing]
  exact world_create missing

theorem addRefund_evolves (valid : Valid s) (gas : Nat) : Evolves s (s.addRefund gas) :=
  .global valid (.refundChange s.refund) _ s.logs s.logSize s.preimages rfl (fun _ => rfl)
    (fun _ _ dirtied => by simp [JournalEntry.dirtied] at dirtied)
    (logged_of_other valid.kept.counts fun _ => rfl) valid.kept.counts.logSize rfl rfl

theorem subRefund_evolves (valid : Valid s) {gas : Nat} {s' : StateDB} (result : s.subRefund gas = .ok s') :
    Evolves s s' := by
  unfold StateDB.subRefund at result
  split at result
  · simp at result
  · obtain rfl := Except.ok.inj result
    exact .global valid (.refundChange s.refund) _ s.logs s.logSize s.preimages rfl (fun _ => rfl)
      (fun _ _ dirtied => by simp [JournalEntry.dirtied] at dirtied)
      (logged_of_other valid.kept.counts fun _ => rfl) valid.kept.counts.logSize rfl rfl

theorem addLog_evolves (valid : Valid s) (log : Log) : Evolves s (s.addLog log) := by
  have size := valid.kept.counts.logSize
  refine .global valid (.addLogChange s.thash) s.refund _ _ s.preimages rfl (fun _ => rfl)
    (fun _ _ dirtied => by simp [JournalEntry.dirtied] at dirtied) ?_ (Nat.mod_lt _ (by decide)) rfl ?_
  · intro txhash
    have before := valid.kept.counts.logged txhash
    simp only [List.countP_cons, logsTo]
    by_cases same : s.thash = txhash
    · subst same
      simp only [decide_true, if_true, Function.update_self, List.length_append, List.length_singleton]
      omega
    · simpa [same, Ne.symm same] using before
  · simp only [JournalEntry.undoWorld, Function.update_self, List.dropLast_concat, Function.update_idem,
      Function.update_eq_self]
    have restored : ((s.logSize + 1) % 2 ^ 64 + (2 ^ 64 - 1)) % 2 ^ 64 = s.logSize := by omega
    rw [restored]
    rfl

theorem addPreimage_evolves (valid : Valid s) (hash : Hash) (preimage : Bytes) :
    Evolves s (s.addPreimage hash preimage) := by
  unfold StateDB.addPreimage
  cases known : s.preimages hash with
  | some _ => exact .refl valid
  | none =>
    refine .global valid (.addPreimageChange hash) s.refund s.logs s.logSize _ rfl (fun _ => rfl)
      (fun _ _ dirtied => by simp [JournalEntry.dirtied] at dirtied)
      (logged_of_other valid.kept.counts fun _ => rfl) valid.kept.counts.logSize rfl ?_
    simp only [JournalEntry.undoWorld, Function.update_idem]
    rw [← known, Function.update_eq_self]
    rfl

omit [Crypto] in
theorem addPreimage_balances (s : StateDB) (hash : Hash) (preimage : Bytes) :
    (s.addPreimage hash preimage).balances = s.balances := by
  unfold StateDB.addPreimage
  split <;> rfl

theorem addPreimage_quiet (s : StateDB) (hash : Hash) (preimage : Bytes) :
    s.world.Quiet (s.addPreimage hash preimage).world := by
  unfold StateDB.addPreimage
  cases known : s.preimages hash with
  | some _ => exact .refl _
  | none =>
    refine ⟨fun _ => .inl rfl, rfl, rfl, rfl, fun other found same => ?_⟩
    have different : other ≠ hash := by
      rintro rfl
      exact absurd (known.symm.trans same) (by simp)
    exact (Function.update_of_ne different ..).trans same

theorem prepare_evolves (valid : Valid s) (thash bhash : Hash) (ti : Nat) : Evolves s (s.prepare thash bhash ti) where
  valid := {
    kept := {
      objects := by
        have objects := valid.kept.objects
        exact ⟨objects.keyed, objects.sound, objects.removed, objects.anchored, objects.pending,
          ⟨objects.unfunded.deleted, objects.unfunded.created⟩⟩
      counts := by
        have counts := valid.kept.counts
        exact ⟨counts.counted, counts.undeleted, counts.logged, counts.logSize⟩ }
    ordered := ⟨valid.ordered.sorted, valid.ordered.bounded⟩ }
  clean := fun clean => ⟨clean.deleted, clean.created⟩
  survives := ⟨fun _ _ live _ => live, fun _ dirty => dirty⟩
  trie := rfl
  codes := rfl
  next := Nat.le_refl _
  revisions := ⟨[], by simp [StateDB.prepare]⟩
  history := ⟨[], rfl, rfl, .refl _ _ _⟩

end Setters

end CuteEVM
