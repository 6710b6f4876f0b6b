import CuteEVM.State.Flush

set_option autoImplicit false

-- If `Finalise` and `Commit` are always called with the same flag, the trie holds after each of them what the getters
-- show, provided that every account which `CreateAccount` has reset is written.

namespace CuteEVM

section Runs

variable [Crypto]

-- Every account that `CreateAccount` has put in place of another one is marked in the journal.
def ResetsMarked (s : StateDB) : Prop :=
  ∀ prev, .resetObjectChange prev ∈ s.journal.entries → s.marked prev.address = true

omit [Crypto] in
theorem ResetsMarked.carried {s : StateDB} (resets : ResetsMarked s) : ResetsCarried s := by
  intro prev member
  rw [StateDB.carried, resets prev member]
  rfl

structure Settles (flag : Bool) (s : StateDB) : Prop where
  synced : Synced s
  alive : ∀ a view, s.world.accounts a = some view → view.suicided = false
  flagged : ∀ a o, s.live a = some o → o.deleted = true → o.suicided = true ∨ flag = true

variable {known : Set Bytes} {flag : Bool} {base s s' : StateDB}

theorem stored_alive {a : Address} {view : AccountView} (shown : s.stored a = some view) : view.suicided = false := by
  simp only [StateDB.stored, Option.map_eq_some_iff] at shown
  obtain ⟨data, -, rfl⟩ := shown
  rfl

theorem unread_settles (unread : ∀ a, s.live a = none) : Settles flag s where
  synced := by
    intro a
    rw [accounts_of_absent (unread a), stored_flush]
  alive := by
    intro a view shown
    rw [accounts_of_absent (unread a)] at shown
    exact stored_alive shown
  flagged := by
    intro a o live
    rw [unread a] at live
    cases live

theorem Since.flagged (since : Since known base s) (settles : Settles flag base) :
    ∀ a o, s.live a = some o → o.deleted = true → o.suicided = true ∨ flag = true :=
  fun a o live deleted => settles.flagged a o (since.evolves.survives.live a o live deleted) deleted

theorem Since.writes (since : Since known base s) (settles : Settles flag base) : Settled flag s := by
  intro a o live deleted alive _
  rcases since.flagged settles a o live deleted with suicided | same
  · rw [alive] at suicided
    cases suicided
  · exact same

theorem Since.unmarked (since : Since known base s) (settles : Settles flag base) (resets : ResetsMarked s) {a : Address}
    (unmarked : s.marked a = false) : s.trie a = (s.world.accounts a).map AccountView.flush ∧
      ∀ view, s.world.accounts a = some view → view.suicided = false := by
  have kept : ∀ prev, .resetObjectChange prev ∈ s.journal.entries → prev.address ≠ a := by
    rintro prev member rfl
    rw [resets prev member] at unmarked
    cases unmarked
  obtain ⟨accounts, -⟩ := since.evolves.untouched since.start.clean since.start.entries unmarked kept
  rw [accounts, since.evolves.trie]
  exact ⟨settles.synced a, settles.alive a⟩

theorem finalise_settles (since : Since known base s) (settles : Settles flag base) (resets : ResetsMarked s) :
    Settles flag (s.finalise flag) := by
  have valid := since.evolves.valid
  -- at each address, what the trie holds and that no account shown is a suicided one
  have each : ∀ a, (s.finalise flag).trie a = ((s.finalise flag).world.accounts a).map AccountView.flush ∧
      ∀ view, (s.finalise flag).world.accounts a = some view → view.suicided = false := by
    intro a
    cases live : s.live a with
    | none =>
      obtain ⟨accounts, stored, -⟩ := finalise_idle valid flag (.inr live)
      rw [← stored_flush, stored, accounts, accounts_of_absent live]
      exact ⟨rfl, fun view => stored_alive⟩
    | some o =>
      cases marked : s.marked a with
      | false =>
        obtain ⟨accounts, stored, -⟩ := finalise_idle valid flag (.inl marked)
        rw [← stored_flush, stored, accounts, stored_flush]
        exact since.unmarked settles resets marked
      | true =>
        obtain ⟨accounts, trie, -⟩ := finalise_marked valid flag marked live
        rw [accounts, trie]
        refine ⟨rfl, fun view shown => ?_⟩
        unfold AccountView.finalised at shown
        split at shown
        · cases shown
        · next stays =>
            rw [← Option.some.inj shown]
            cases suicided : (o.view s.codes).suicided <;> simp_all
  refine ⟨fun a => (each a).1, fun a => (each a).2, fun a o live deleted => ?_⟩
  have slot := finalise_slot valid flag a
  have object : ((s.finalise flag).slot a).object = some o := live
  rw [slot] at object
  split at object
  · next dirty =>
      cases before : s.live a with
      | none =>
        have absent : (s.slot a).object = none := before
        simp only [finaliseSlot, absent] at object
        cases object
      | some held =>
        have present : (s.slot a).object = some held := before
        simp only [finaliseSlot, present] at object
        split at object
        · next dead =>
            obtain rfl := Option.some.inj object
            simp only [Bool.or_eq_true, Bool.and_eq_true] at dead
            exact dead.imp id And.left
        · obtain rfl := Option.some.inj object
          have here : held.deleted = false := valid.present_of_dirty dirty held before
          have same : held.deleted = true := deleted
          rw [here] at same
          cases same
  · exact since.flagged settles a o object deleted

theorem commit_settles (since : Since known base s) (settles : Settles flag base) (apart : Apart known)
    (resets : ResetsCarried s) :
    Settles flag (s.commit flag) := by
  have valid := since.evolves.valid
  have shown := commit_settled since resets apart (since.writes settles)
  refine ⟨fun a => ?_, fun a view found => ?_, fun a o live deleted => ?_⟩
  · rw [shown, stored_flush]
  · rw [shown] at found
    exact stored_alive found
  · have slot := commit_slot valid flag a
    have object : ((s.commit flag).slot a).object = some o := live
    rw [slot] at object
    cases before : s.live a with
    | none =>
      have absent : (s.markDirties.slot a).object = none := before
      simp only [commitSlot, absent] at object
      cases object
    | some held =>
      have present : (s.markDirties.slot a).object = some held := before
      have former := since.flagged settles a held before
      simp only [commitSlot, present] at object
      split at object
      · next dead =>
          obtain rfl := Option.some.inj object
          simp only [Bool.or_eq_true, Bool.and_eq_true] at dead
          exact dead.imp id fun removed => removed.1.2
      · split at object
        · obtain rfl := Option.some.inj object
          rw [committedObject_deleted] at deleted
          have same : (committedObject held).suicided = held.suicided := by
            unfold committedObject
            split <;> rfl
          rw [same]
          exact former deleted
        · obtain rfl := Option.some.inj object
          exact former deleted

-- Of the objects at these addresses, those that are not deleted have balances that can be encoded.
def StateDB.Encodes (s : StateDB) (deleteEmptyObjects : Bool) (written : Address → Bool) : Prop :=
  ∀ a o, s.live a = some o → written a = true → (o.suicided || (deleteEmptyObjects && o.empty)) = false → 0 ≤ o.data.balance

-- The code of the account is cached, or the database has it.
def StateDB.Loads (s : StateDB) (a : Address) : Prop :=
  ∀ o, s.lookup a = some o → o.code = [] → o.data.codeHash = emptyCodeHash ∨ (s.codes o.data.codeHash).isSome

-- The flag is always the same, accounts that `CreateAccount` has reset are written, nothing that cannot be encoded is,
-- and the database is asked for no code that it does not have.
def Op.Persists (flag : Bool) (known : Set Bytes) (s : StateDB) : Op → Prop
  | .finalise deleteEmptyObjects => deleteEmptyObjects = flag ∧ ResetsMarked s ∧ s.Encodes flag s.marked
  | .commit deleteEmptyObjects =>
    deleteEmptyObjects = flag ∧ ResetsCarried s ∧ s.Encodes flag fun a => s.markDirties.stateObjectsDirty a
  | .getCode a => s.Loads a
  | .setCode a code => code ∈ known ∧ s.Loads a
  | _ => True

def Method.Persists (flag : Bool) (known : Set Bytes) (s : StateDB) : Method → Prop
  | .call op => op.Persists flag known s
  | .copy => False

theorem Op.since_step (apart : Apart known) {op : Op} (since : Since known base s) (settles : Settles flag base)
    (persists : op.Persists flag known s) (result : op.apply s = .ok s') :
    ∃ base', Since known base' s' ∧ Settles flag base' := by
  cases plain : op.ends with
  | false =>
    have familiar : op.Familiar known := by
      cases op <;> first | trivial | exact persists.1
    exact ⟨base, since.step plain familiar result, settles⟩
  | true =>
    cases op <;> simp [Op.ends] at plain
    all_goals obtain rfl := Except.ok.inj result
    · obtain ⟨rfl, resets, -⟩ := persists
      exact ⟨_, (finalise_base since resets.carried _).since, finalise_settles since settles resets⟩
    · obtain ⟨rfl, resets, -⟩ := persists
      exact ⟨_, (commit_base since resets apart (since.writes settles)).since, commit_settles since settles apart resets⟩
    · exact ⟨_, (reset_base since.coded _).since, unread_settles fun _ => rfl⟩

theorem Runs.since {trie : Address → Option Account} {codes : Hash → Option Bytes} (apart : Apart known)
    (store : ∀ hash code, codes hash = some code → code ∈ known ∧ keccak256 code = hash)
    (run : Runs (fun s method => method.Persists flag known s) (StateDB.new trie codes) s) :
    ∃ base, Since known base s ∧ Settles flag base := by
  induction run with
  | refl => exact ⟨_, (new_base trie store).since, unread_settles fun _ => rfl⟩
  | tail _ acts ih =>
    obtain ⟨base, since, settles⟩ := ih
    obtain ⟨method, persists, result⟩ := acts
    cases method with
    | call op => exact Op.since_step apart since settles persists result
    | copy => exact persists.elim

def Observation.account (seen : Observation) (a : Address) : Option Account :=
  if seen.exist a then some ⟨seen.nonce a, seen.balance a, seen.storage a, seen.codeHash a⟩ else none

theorem observe_account (s : StateDB) (a : Address) : s.observe.account a = (s.world.accounts a).map AccountView.flush := by
  rw [observe_world]
  cases found : s.world.accounts a with
  | none => simp [Observation.account, World.observe, found]
  | some view =>
    simp only [Observation.account, World.observe, found, Option.isSome_some, if_true, Option.elim, Option.map_some]
    rfl

theorem getters_of_flush {world world' : World} (codes : Hash → Option Bytes)
    (same : ∀ a, (world'.accounts a).map AccountView.flush = (world.accounts a).map AccountView.flush) :
    (world'.observe codes).exist = (world.observe codes).exist ∧ (world'.observe codes).balance = (world.observe codes).balance ∧
      (world'.observe codes).nonce = (world.observe codes).nonce ∧ (world'.observe codes).codeHash =
      (world.observe codes).codeHash ∧ (world'.observe codes).storage = (world.observe codes).storage := by
  have each : ∀ {β : Type} (default : β) (read : Account → β) (a : Address),
      (world'.accounts a).elim default (fun view => read view.flush) = (world.accounts a).elim default fun view =>
        read view.flush := by
    intro β default read a
    have mapped : ∀ found : Option AccountView,
        found.elim default (fun view => read view.flush) = (found.map AccountView.flush).elim default read := by
      rintro (_ | _) <;> rfl
    rw [mapped, mapped, same]
  refine ⟨funext fun a => ?_, funext (each 0 Account.balance), funext (each 0 Account.nonce), funext (each 0 Account.codeHash), ?_⟩
  · have found := congrArg Option.isSome (same a)
    simp only [Option.isSome_map] at found
    exact found
  · funext a key
    exact each 0 (fun account => account.root key) a

theorem stored_code (apart : Apart known) (coded : Coded known [] s) {a : Address}
    (same : (s.stored a).map AccountView.flush = (s.world.accounts a).map AccountView.flush)
    (held : (s.world.accounts a).elim [] (·.code) = [] ∨
      s.codes ((s.world.accounts a).elim 0 (·.codeHash)) = some ((s.world.accounts a).elim [] (·.code))) :
    (s.stored a).elim [] (·.code) = (s.world.accounts a).elim [] (·.code) := by
  cases found : s.lookup a with
  | none =>
    have missing : s.world.accounts a = none := by simp [StateDB.world, found]
    rw [missing, Option.map_none, Option.map_eq_none_iff] at same
    rw [missing, same]
  | some o =>
    have seen : s.world.accounts a = some (o.view s.codes) := by simp [StateDB.world, found]
    rw [seen] at same held ⊢
    simp only [StateDB.stored, Option.map_map, Option.map_some, Option.map_eq_some_iff, Function.comp_apply] at same
    obtain ⟨data, account, flushed⟩ := same
    have hash := congrArg Account.codeHash flushed
    change data.codeHash = o.data.codeHash at hash
    simp only [StateDB.stored, account, Option.map_some, Option.elim] at held ⊢
    change resolveCode s.codes [] data.codeHash = resolveCode s.codes o.code o.data.codeHash
    change resolveCode s.codes o.code o.data.codeHash = [] ∨
      s.codes o.data.codeHash = some (resolveCode s.codes o.code o.data.codeHash) at held
    rw [hash]
    by_cases cached : o.code = []
    · rw [cached]
    · have own : resolveCode s.codes o.code o.data.codeHash = o.code := by simp [resolveCode, cached]
      rw [own] at held ⊢
      have stored := held.resolve_left cached
      obtain ⟨member, hashed⟩ := coded.store _ _ stored
      have nonempty : o.data.codeHash ≠ emptyCodeHash := by
        intro empty
        exact cached (apart.injective o.code member [] apart.empty (hashed.trans empty))
      simp [resolveCode, nonempty, stored]

-- After each `Finalise` and `Commit` the trie holds what the getters show, so a state that is opened on it shows the
-- same. The code of an account is in the database after `Commit`; `Finalise` does not write it there.
theorem trie_holds_getters {trie : Address → Option Account} {codes : Hash → Option Bytes} (apart : Apart known)
    (store : ∀ hash code, codes hash = some code → code ∈ known ∧ keccak256 code = hash)
    (run : Runs (fun s method => method.Persists flag known s) (StateDB.new trie codes) s) {op : Op}
    (last : op = .finalise flag ∨ op = .commit flag) (persists : op.Persists flag known s) (result : op.apply s = .ok s') :
    (∀ a, s'.trie a = s'.observe.account a) ∧
      (StateDB.new s'.trie s'.codes).observe.exist = s'.observe.exist ∧
      (StateDB.new s'.trie s'.codes).observe.balance = s'.observe.balance ∧
      (StateDB.new s'.trie s'.codes).observe.nonce = s'.observe.nonce ∧
      (StateDB.new s'.trie s'.codes).observe.codeHash = s'.observe.codeHash ∧
      (StateDB.new s'.trie s'.codes).observe.storage = s'.observe.storage ∧
      ∀ a, op = .commit flag ∨ s'.observe.code a = [] ∨ s'.codes (s'.observe.codeHash a) = some (s'.observe.code a) →
        (StateDB.new s'.trie s'.codes).observe.code a = s'.observe.code a := by
  obtain ⟨base, since, settles⟩ := Runs.since apart store run
  obtain ⟨base', since', settles'⟩ := Op.since_step apart since settles persists result
  -- the last operation drops the journal, so its result is the base
  have synced : Synced s' ∧ (op = .commit flag → ∀ a, s'.world.accounts a = s'.stored a) ∧ Coded known [] s' := by
    rcases last with rfl | rfl
    · obtain rfl := Except.ok.inj result
      exact ⟨(finalise_settles since settles persists.2.1).synced, nofun, finalise_coded since.evolves.valid since.coded _⟩
    · obtain rfl := Except.ok.inj result
      exact ⟨(commit_settles since settles apart persists.2.1).synced,
        fun _ => commit_settled since persists.2.1 apart (since.writes settles), (commit_coded apart since.coded _).1⟩
  obtain ⟨synced, committed, coded⟩ := synced
  have same : ∀ a, ((StateDB.new s'.trie s'.codes).world.accounts a).map AccountView.flush =
      (s'.world.accounts a).map AccountView.flush := by
    intro a
    rw [stored_new, stored_flush]
    exact synced a
  obtain ⟨exist, balance, nonce, codeHash, storage⟩ := getters_of_flush s'.codes same
  have opened := observe_world (StateDB.new s'.trie s'.codes)
  have shown := observe_world s'
  refine ⟨fun a => by rw [observe_account]; exact synced a, ?_⟩
  rw [opened, shown]
  refine ⟨exist, balance, nonce, codeHash, storage, fun a stored => ?_⟩
  show ((StateDB.new s'.trie s'.codes).world.accounts a).elim [] _ = (s'.world.accounts a).elim [] _
  rw [stored_new]
  rcases stored with rfl | held
  · rw [committed rfl]
  · refine stored_code apart coded (stored_new s' a ▸ same a) ?_
    simpa only [World.observe] using held

end Runs

section Samples

attribute [local instance] Crypto.sample

theorem apart_sample : Apart {[], [0xfe]} where
  empty := .inl rfl
  injective := by
    rintro code (rfl | rfl) code' (rfl | rfl) same
    · rfl
    · exact absurd same (by decide)
    · exact absurd same (by decide)
    · rfl

-- An account gets a code and is committed.
theorem trie_holds_getters_sample :
    (StateDB.new (((StateDB.new (fun _ => none) (fun _ => none)).setCode 1 [0xfe]).commit true).trie
      (((StateDB.new (fun _ => none) (fun _ => none)).setCode 1 [0xfe]).commit true).codes).observe.code 1 = [0xfe] := by
  have unreset : ResetsCarried ((StateDB.new (fun _ => none) (fun _ => none)).setCode 1 [0xfe]) := by
    intro prev member
    change _ ∈ [JournalEntry.codeChange 1 [] emptyCodeHash, .createObjectChange 1] at member
    simp at member
  have run : Runs (fun s method => method.Persists true {[], [0xfe]} s) (StateDB.new (fun _ => none) (fun _ => none))
      ((StateDB.new (fun _ => none) (fun _ => none)).setCode 1 [0xfe]) :=
    .single ⟨.call (.setCode 1 [0xfe]), ⟨.inr rfl, fun _ found => by cases found⟩, rfl⟩
  have encodes : ((StateDB.new (fun _ => none) (fun _ => none)).setCode 1 [0xfe]).Encodes true fun _ => true := by
    intro a o live _ _
    have member : (⟨a, o⟩ : Sigma fun _ : Address => StateObject) ∈ [_] := AList.mem_lookup_iff.mp live
    cases List.mem_singleton.mp member
    decide
  have held :=
    trie_holds_getters apart_sample (fun _ _ stored => by cases stored) run (.inr rfl)
      ⟨rfl, unreset, fun a o live _ => encodes a o live rfl⟩ rfl
  rw [held.2.2.2.2.2.2 1 (.inl rfl)]
  decide

-- The calls of `Finalise` and `Commit` in a run all have the same flag.
def Method.Flagged (flag : Bool) : Method → Prop
  | .call (.finalise deleteEmptyObjects) => deleteEmptyObjects = flag
  | .call (.commit deleteEmptyObjects) => deleteEmptyObjects = flag
  | .call _ => True
  | .copy => False

-- `CreateAccount` resets the nonce of an account, but does not mark the account as dirty: the trie keeps the nonce.
theorem trie_misses_reset :
    ∃ s, Runs (fun _ method => method.Flagged false) (StateDB.new (fun _ => none) (fun _ => none)) s ∧
      (s.finalise false).observe.nonce 1 = 0 ∧ ((s.finalise false).trie 1).map Account.nonce = some 5 ∧
      (StateDB.new (s.finalise false).trie (s.finalise false).codes).observe.nonce 1 = 5 := by
  refine ⟨(((StateDB.new (fun _ => none) (fun _ => none)).setNonce 1 5).finalise false).createAccount 1, ?_, by decide⟩
  exact .tail (.tail (.single ⟨.call (.setNonce 1 5), trivial, rfl⟩) ⟨.call (.finalise false), rfl, rfl⟩)
    ⟨.call (.createAccount 1), trivial, rfl⟩

end Samples

end CuteEVM
