import CuteEVM.State.Getters

set_option autoImplicit false

-- Each setter appends the entries that undo it. What it does to the world and to the balances is stated beside it.

namespace CuteEVM

variable {entries : List JournalEntry} {a : Address}

@[simp] theorem StateDB.entries_append (s : StateDB) (entry : JournalEntry) :
    (s.append entry).journal.entries = entry :: s.journal.entries := by
  simp only [append, Journal.append]
  cases entry.dirtied <;> rfl

theorem Survives.change (s : StateDB) (entry : JournalEntry) {o : StateObject} (present : o.deleted = false) :
    Survives s ((s.append entry).setStateObject o) :=
  Survives.trans (t := s.append entry) ⟨fun _ _ live _ => live, fun _ dirty => dirty⟩ (.setObject _ present)

theorem Counts.append {s s' : StateDB} (counts : Counts entries s)
    (entry : JournalEntry) (journal : s'.journal = s.journal.append entry) (survives : Survives s s')
    (present : ∀ a o, s'.live a = some o → entry.dirtied = some a → o.deleted = false)
    (logged : ∀ txhash, (entry :: entries).countP (logsTo txhash) ≤ (s'.logs txhash).length)
    (logSize : s'.logSize < 2 ^ 64) : Counts (entry :: entries) s' where
  counted := by
    rw [journal]
    exact counts.counted.append entry
  undeleted := by
    intro a o found deleted
    have clean := counts.undeleted a o (survives.live a o found deleted) deleted
    have other : entry.dirtied ≠ some a := by
      intro dirtied
      simp [present a o found dirtied] at deleted
    rw [journal]
    unfold Journal.append
    cases dirtied : entry.dirtied with
    | none => exact clean
    | some b =>
      have different : a ≠ b := by
        rintro rfl
        exact other dirtied
      simpa [Journal.dirty, lookup_insert_eq, different] using clean
  logged := logged
  logSize := logSize

theorem logged_of_other {s : StateDB} (counts : Counts entries s)
    {entry : JournalEntry} (other : ∀ txhash, logsTo txhash entry = false) (txhash : Hash) :
    (entry :: entries).countP (logsTo txhash) ≤ (s.logs txhash).length := by
  simpa [List.countP_cons, other] using counts.logged txhash

theorem Vacant.of_lookup {absent : Option Account → Prop} {s : StateDB}
    (vacant : Vacant absent entries s) (nothing : absent none) (missing : s.lookup a = none) :
    absent (s.trie a) := by
  cases live : s.live a with
  | some o =>
    cases deleted : o.deleted with
    | true => exact vacant.deleted a o live deleted
    | false => simp [StateDB.lookup_of_live live deleted] at missing
  | none =>
    rw [StateDB.lookup_of_absent live] at missing
    cases stored : s.trie a with
    | none => exact nothing
    | some data => simp [stored] at missing

theorem World.Reveals.eq_of_clean [Crypto] {s : StateDB} {w : World} (reveals : s.world.Reveals s.trie s.codes w)
    (clean : Clean s) : w = s.world := by
  have accounts : w.accounts = s.world.accounts := by
    funext a
    cases seen : s.world.accounts a with
    | some view => exact reveals.present a view seen
    | none =>
      cases shown : w.accounts a with
      | none => rfl
      | some view =>
        have missing : s.lookup a = none := by simpa [StateDB.world] using seen
        obtain ⟨data, stored, -⟩ := reveals.hidden a view seen shown
        rw [Vacant.of_lookup clean rfl missing] at stored
        cases stored
  rw [reveals.rest, accounts]

theorem Vacant.created_cons {absent : Option Account → Prop} {s : StateDB}
    (vacant : Vacant absent entries s) (nothing : absent none) {entry : JournalEntry}
    (created : ∀ a, entry = .createObjectChange a → s.lookup a = none) :
    ∀ a, .createObjectChange a ∈ entry :: entries → absent (s.trie a) := by
  intro a member
  rcases List.mem_cons.mp member with same | member
  · exact vacant.of_lookup nothing (created a same.symm)
  · exact vacant.created a member

theorem unfunded_none : Unfunded none := by simp [Unfunded]

section Entries

variable [Crypto] {s s' : StateDB}

theorem Evolves.entry (valid : Valid s) (entry : JournalEntry)
    (objects : Objects (entry :: s.journal.entries) s') (counts : Counts (entry :: s.journal.entries) s')
    (entries : s'.journal.entries = entry :: s.journal.entries) (survives : Survives s s')
    (created : ∀ a, entry = .createObjectChange a → s.lookup a = none)
    (trie : s'.trie = s.trie) (codes : s'.codes = s.codes)
    (validRevisions : s'.validRevisions = s.validRevisions) (nextRevisionId : s'.nextRevisionId = s.nextRevisionId)
    (balances : entry.undoBalance s.trie s'.balances = s.balances)
    (world : s.world.Reveals s.trie s.codes (entry.undoWorld s.trie s.codes s'.world)) : Evolves s s' where
  valid := {
    kept := by
      rw [entries]
      exact ⟨objects, counts⟩
    ordered := {
      sorted := validRevisions ▸ valid.ordered.sorted
      bounded := by
        intro r member
        rw [validRevisions] at member
        have bound := valid.ordered.bounded r member
        rw [nextRevisionId, entries, List.length_cons]
        omega } }
  clean := fun clean => by
    refine Vacant.survives clean survives trie ?_
    rw [entries]
    exact clean.created_cons rfl created
  survives := survives
  trie := trie
  codes := codes
  next := Nat.le_of_eq nextRevisionId.symm
  revisions := ⟨[], by simp [validRevisions]⟩
  history := ⟨[entry], entries, balances, world⟩

structure Change (codes : Hash → Option Bytes) (a : Address) (o o' : StateObject) (entry : JournalEntry) : Prop where
  dirtied : entry.dirtied = some a
  before : ∀ caches, entry.before caches = caches
  revertible : ∀ caches, caches a = some o'.keys → entry.Revertible caches
  created : ∀ b, entry ≠ .createObjectChange b
  silent : ∀ txhash, logsTo txhash entry = false
  address : o'.address = o.address
  deleted : o'.deleted = o.deleted
  sound : o.Sound → o'.Sound
  keys : o.keys ⊆ o'.keys
  world : ∀ trie (world : World), world.accounts a = some (o'.view codes) →
    entry.undoWorld trie codes world = world.setAccount a (o.view codes)
  balances : ∀ trie balances, entry.undoBalance trie (Function.update balances a o'.data.balance) =
    Function.update balances a o.data.balance

theorem world_change {o o' : StateObject} (entry : JournalEntry) (live : s.live a = some o)
    (present : o.deleted = false) (address : o'.address = a) (here : o'.deleted = false) :
    ((s.append entry).setStateObject o').world = s.world.setAccount a (o'.view s.codes) :=
  StateDB.world_setObject (StateDB.lookup_of_live (s := s.append entry) live present) address here

theorem Evolves.change (valid : Valid s) {o o' : StateObject} {entry : JournalEntry}
    (live : s.live a = some o) (present : o.deleted = false) (change : Change s.codes a o o' entry) :
    Evolves s ((s.append entry).setStateObject o') := by
  have home : o'.address = a := change.address.trans (valid.kept.objects.keyed a o live)
  have here : o'.deleted = false := change.deleted.trans present
  have sound := change.sound (valid.kept.objects.sound a o live)
  have objects := valid.kept.objects
  have appended : Objects s.journal.entries (s.append entry) :=
    ⟨objects.keyed, objects.sound, objects.removed, objects.anchored, objects.pending,
      ⟨objects.unfunded.deleted, objects.unfunded.created⟩⟩
  have created : ∀ b, entry = .createObjectChange b → s.lookup b = none :=
    fun b same => absurd same (change.created b)
  have survives : Survives s ((s.append entry).setStateObject o') := .change s entry here
  have caches : Function.update s.caches o'.address (some o'.keys) a = some o'.keys := by
    rw [home, Function.update_self]
  have grows : ∀ keys, s.caches o'.address = some keys → keys ⊆ o'.keys := by
    intro keys cached
    rw [home, StateDB.caches_of_live live present] at cached
    rw [← Option.some.inj cached]
    exact change.keys
  refine Evolves.entry valid entry ?_ ?_ (s.entries_append entry) survives created rfl rfl rfl rfl ?_ ?_
  · refine appended.put here sound ?_ (objects.unfunded.created_cons unfunded_none created)
    refine ⟨change.revertible _ caches, ?_⟩
    rw [change.before]
    exact objects.anchored.mono (Caches.le_set grows)
  · refine valid.kept.counts.append entry rfl survives ?_ (logged_of_other valid.kept.counts change.silent)
      valid.kept.counts.logSize
    intro b object live' dirtied
    obtain rfl : a = b := Option.some.inj (change.dirtied.symm.trans dirtied)
    rw [StateDB.live_setStateObject, if_pos home.symm] at live'
    rwa [← Option.some.inj live']
  · rw [StateDB.balances_setObject _ here, home, change.balances]
    exact StateDB.update_balances live present
  · refine .of_eq ?_
    rw [world_change entry live present home here, change.world _ _ (World.accounts_setAccount ..),
      World.setAccount_setAccount]
    exact World.setAccount_self (StateDB.accounts_of_live live present)

end Entries

section Changes

variable [Crypto] (codes : Hash → Option Bytes) (o : StateObject)

theorem Change.balance (amount : Int) :
    Change codes o.address o (o.setBalance amount) (.balanceChange o.address o.data.balance) where
  dirtied := rfl
  before := fun _ => rfl
  revertible := fun caches cached a dirtied => by
    obtain rfl := Option.some.inj dirtied
    simp [cached]
  created := by simp
  silent := fun _ => rfl
  address := rfl
  deleted := rfl
  sound := fun sound => ⟨sound.origin, sound.dirty⟩
  keys := subset_rfl
  world := fun trie world found => by
    simp only [JournalEntry.undoWorld, JournalEntry.dirtied, found]
    rfl
  balances := fun trie balances => by simp [JournalEntry.undoBalance]

theorem Change.nonce (nonce : Nat) :
    Change codes o.address o (o.setNonce nonce) (.nonceChange o.address o.data.nonce) where
  dirtied := rfl
  before := fun _ => rfl
  revertible := fun caches cached a dirtied => by
    obtain rfl := Option.some.inj dirtied
    simp [cached]
  created := by simp
  silent := fun _ => rfl
  address := rfl
  deleted := rfl
  sound := fun sound => ⟨sound.origin, sound.dirty⟩
  keys := subset_rfl
  world := fun trie world found => by
    simp only [JournalEntry.undoWorld, JournalEntry.dirtied, found]
    rfl
  balances := fun trie balances => rfl

theorem Change.code (codeHash : Hash) (code : Bytes) :
    Change codes o.address o ((o.loadCode codes).2.setCode codeHash code)
      (.codeChange o.address (o.loadCode codes).1 o.data.codeHash) := by
  have cached := o.loadCode_cached codes
  exact {
    dirtied := rfl
    before := fun _ => rfl
    revertible := fun caches known a dirtied => by
      obtain rfl := Option.some.inj dirtied
      simp [known]
    created := by simp
    silent := fun _ => rfl
    address := cached.address
    deleted := cached.deleted
    sound := fun sound => ⟨(cached.sound sound).origin, (cached.sound sound).dirty⟩
    keys := cached.keys
    world := fun trie world found => by
      have seen := cached.view
      simp only [StateObject.view, AccountView.mk.injEq] at seen
      obtain ⟨nonce, balance, _, _, storage, committed, suicided⟩ := seen
      simp only [JournalEntry.undoWorld, JournalEntry.dirtied, found, Option.map_some, JournalEntry.undoView,
        o.loadCode_code, resolveCode_resolved]
      refine congrArg (world.setAccount o.address) ?_
      simp only [StateObject.view, AccountView.mk.injEq]
      exact ⟨nonce, balance, trivial, trivial, storage, committed, suicided⟩
    balances := fun trie balances => by
      have data := cached.data
      simp only [JournalEntry.undoBalance, StateObject.setCode, data] }

theorem Change.suicide :
    Change codes o.address o (o.markSuicided.setBalance 0)
      (.suicideChange o.address o.suicided o.data.balance) where
  dirtied := rfl
  before := fun _ => rfl
  revertible := fun caches cached a dirtied => by
    obtain rfl := Option.some.inj dirtied
    simp [cached]
  created := by simp
  silent := fun _ => rfl
  address := rfl
  deleted := rfl
  sound := fun sound => ⟨sound.origin, sound.dirty⟩
  keys := subset_rfl
  world := fun trie world found => by
    simp only [JournalEntry.undoWorld, JournalEntry.dirtied, found]
    rfl
  balances := fun trie balances => by simp [JournalEntry.undoBalance]

theorem Change.storage (key value : Hash) (loaded : key ∈ o.keys) :
    Change codes o.address o (o.setState key value)
      (.storageChange o.address key ((o.view codes).storage key)) where
  dirtied := rfl
  before := fun _ => rfl
  revertible := fun caches cached => ⟨o.keys, cached, loaded⟩
  created := by simp
  silent := fun _ => rfl
  address := rfl
  deleted := rfl
  sound := fun sound => by
    refine ⟨sound.origin, fun k dirty => ?_⟩
    by_cases same : k = key
    · subst same
      exact loaded
    · exact sound.dirty k (by simpa [StateObject.setState, same] using dirty)
  keys := subset_rfl
  world := fun trie world found => by
    simp only [JournalEntry.undoWorld, JournalEntry.dirtied, found, Option.map_some, JournalEntry.undoView,
      StateObject.setState_view, Function.update_idem, Function.update_eq_self]
    rfl
  balances := fun trie balances => rfl

end Changes

section Objects

variable [Crypto] {s : StateDB}

def freshObject (a : Address) : StateObject := newObject a Account.zero

omit [Crypto] in
theorem StateDB.load_of_missing (missing : s.lookup a = none) : s.load a = s := by
  rcases s.load_eq a with same | ⟨data, absent, stored, _⟩
  · exact same
  · rw [lookup_of_absent absent, stored] at missing
    simp at missing

omit [Crypto] in
theorem StateDB.caches_of_missing (missing : s.lookup a = none) : s.caches a = none := by
  cases cached : s.caches a with
  | none => rfl
  | some keys =>
    obtain ⟨o, live, present, _⟩ := live_of_caches cached
    simp [lookup_of_live live present] at missing

theorem Evolves.create (valid : Valid s) (missing : s.lookup a = none) :
    Evolves s ((s.append (.createObjectChange a)).setStateObject (freshObject a)) := by
  have objects := valid.kept.objects
  have created : ∀ b, JournalEntry.createObjectChange a = .createObjectChange b → s.lookup b = none := by
    intro b same
    obtain rfl := JournalEntry.createObjectChange.inj same
    exact missing
  have survives : Survives s ((s.append (.createObjectChange a)).setStateObject (freshObject a)) :=
    .change s _ rfl
  have appended : Objects s.journal.entries (s.append (.createObjectChange a)) :=
    ⟨objects.keyed, objects.sound, objects.removed, objects.anchored, objects.pending,
      ⟨objects.unfunded.deleted, objects.unfunded.created⟩⟩
  have seen : ∀ b, ((s.append (.createObjectChange a)).setStateObject (freshObject a)).lookup b =
      if b = a then some (freshObject a) else s.lookup b :=
    fun b => StateDB.lookup_setStateObject _ (freshObject a) b rfl
  refine Evolves.entry valid (.createObjectChange a) ?_ ?_ (s.entries_append _) survives created rfl rfl rfl rfl
    ?_ ?_
  · refine appended.put rfl (StateObject.newObject_sound a _) ⟨?_, ?_⟩
      (objects.unfunded.created_cons unfunded_none created)
    · intro b dirtied
      obtain rfl := Option.some.inj dirtied
      simp [freshObject, newObject]
    · -- undoing the creation leaves the caches as they were: none at this address
      change Anchored s.journal.entries (Function.update (Function.update s.caches a _) a none)
      rw [Function.update_idem, ← StateDB.caches_of_missing missing, Function.update_eq_self]
      exact objects.anchored
  · refine valid.kept.counts.append _ rfl survives ?_ (logged_of_other valid.kept.counts fun _ => rfl)
      valid.kept.counts.logSize
    intro b object live dirtied
    obtain rfl := Option.some.inj dirtied
    have address : a = (freshObject a).address := rfl
    rw [StateDB.live_setStateObject, if_pos address] at live
    rw [← Option.some.inj live]
    rfl
  · funext b
    by_cases same : b = a
    · subst same
      have unfunded := objects.unfunded.of_lookup unfunded_none missing
      cases stored : s.trie b with
      | none => simp [JournalEntry.undoBalance, stored, StateDB.balances, missing]
      | some data => simp [JournalEntry.undoBalance, stored, StateDB.balances, missing, unfunded data stored]
    · simp [JournalEntry.undoBalance, same, StateDB.balances, seen]
  · have none_before : s.world.accounts a = none := by simp [StateDB.world, missing]
    have others : ∀ b, b ≠ a → ((s.append (.createObjectChange a)).setStateObject (freshObject a)).world.accounts b =
        s.world.accounts b := by
      intro b other
      simp only [StateDB.world, seen, other, if_false]
      rfl
    refine ⟨fun b view found => ?_, fun b view absent found => ?_, ?_⟩
    · have other : b ≠ a := by
        rintro rfl
        rw [none_before] at found
        cases found
      rw [← others b other] at found
      simpa [JournalEntry.undoWorld, other] using found
    · by_cases same : b = a
      · subst same
        simp only [JournalEntry.undoWorld, Function.update_self, Option.map_eq_some_iff] at found
        obtain ⟨data, stored, rfl⟩ := found
        exact ⟨data, stored, rfl⟩
      · rw [← others b same] at absent
        rw [show ((JournalEntry.createObjectChange a).undoWorld s.trie s.codes _).accounts b = _ from
          Function.update_of_ne same .., absent] at found
        cases found
    · simp only [JournalEntry.undoWorld, StateDB.world, World.mk.injEq, true_and]
      refine ⟨funext fun b => ?_, rfl, rfl, rfl, rfl⟩
      by_cases same : b = a
      · subst same
        simp [missing]
      · simp only [same, seen, if_false, ne_eq, not_false_eq_true, Function.update_of_ne]
        rfl

theorem Evolves.reset (valid : Valid s) {prev o : StateObject} (live : s.live a = some prev)
    (present : prev.deleted = false) (address : o.address = a) (here : o.deleted = false) (sound : o.Sound) :
    Evolves s ((s.append (.resetObjectChange prev)).setStateObject o) := by
  have objects := valid.kept.objects
  have home : prev.address = a := objects.keyed a prev live
  have appended : Objects s.journal.entries (s.append (.resetObjectChange prev)) :=
    ⟨objects.keyed, objects.sound, objects.removed, objects.anchored, objects.pending,
      ⟨objects.unfunded.deleted, objects.unfunded.created⟩⟩
  have created : ∀ b, JournalEntry.resetObjectChange prev = .createObjectChange b → s.lookup b = none := by simp
  have survives : Survives s ((s.append (.resetObjectChange prev)).setStateObject o) :=
    .change s _ here
  refine Evolves.entry valid (.resetObjectChange prev) ?_ ?_ (s.entries_append _) survives created rfl rfl rfl rfl
    ?_ ?_
  · refine appended.put here sound ⟨⟨?_, objects.sound a prev live, present⟩, ?_⟩
      (objects.unfunded.created_cons unfunded_none created)
    · simp [home, address]
    · change Anchored s.journal.entries (Function.update (Function.update s.caches o.address _) prev.address _)
      rw [address, home, Function.update_idem, ← StateDB.caches_of_live live present, Function.update_eq_self]
      exact objects.anchored
  · exact valid.kept.counts.append _ rfl survives (by simp [JournalEntry.dirtied])
      (logged_of_other valid.kept.counts fun _ => rfl) valid.kept.counts.logSize
  · rw [StateDB.balances_setObject _ here, address]
    simp only [JournalEntry.undoBalance, home, Function.update_idem]
    exact StateDB.update_balances live present
  · refine .of_eq ?_
    rw [world_change _ live present address here]
    simp only [JournalEntry.undoWorld, home, World.setAccount_setAccount]
    exact World.setAccount_self (StateDB.accounts_of_live live present)

theorem Evolves.global (valid : Valid s) (entry : JournalEntry) (refund : Nat) (logs : Hash → List Log)
    (logSize : Nat) (preimages : Hash → Option Bytes) (dirtied : entry.dirtied = none)
    (before : ∀ caches, entry.before caches = caches) (revertible : ∀ caches, entry.Revertible caches)
    (logged : ∀ txhash, (entry :: s.journal.entries).countP (logsTo txhash) ≤ (logs txhash).length)
    (size : logSize < 2 ^ 64) (balances : entry.undoBalance s.trie s.balances = s.balances)
    (world : entry.undoWorld s.trie s.codes
      { s.world with refund := refund, logs := logs, logSize := logSize, preimages := preimages } = s.world) :
    Evolves s { s.append entry with
      refund := refund, logs := logs, logSize := logSize, preimages := preimages } := by
  have objects := valid.kept.objects
  have created : ∀ b, entry = .createObjectChange b → s.lookup b = none := by
    rintro b rfl
    simp [JournalEntry.dirtied] at dirtied
  have survives : Survives s { s.append entry with
      refund := refund, logs := logs, logSize := logSize, preimages := preimages } :=
    ⟨fun _ _ live _ => live, fun _ dirty => dirty⟩
  refine Evolves.entry valid entry ?_ ?_ (s.entries_append _) survives created rfl rfl rfl rfl balances
    (.of_eq world)
  · refine ⟨objects.keyed, objects.sound, objects.removed, ⟨revertible _, ?_⟩, objects.pending,
      objects.unfunded.survives survives rfl (objects.unfunded.created_cons unfunded_none created)⟩
    rw [before]
    exact objects.anchored
  · exact valid.kept.counts.append entry rfl survives (by simp [dirtied]) logged size

end Objects

end CuteEVM
