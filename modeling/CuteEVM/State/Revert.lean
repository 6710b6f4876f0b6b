import CuteEVM.State.Invariant

set_option autoImplicit false

-- Reverting the newest entry of the journal never fails and acts on the world as `undoWorld` says.

namespace CuteEVM

variable {rest : List JournalEntry} {s : StateDB} {entry : JournalEntry} {a : Address} {o : StateObject}

theorem Counts.undirty {s reverted : StateDB}
    (counts : Counts (entry :: rest) s) (journal : reverted.journal = s.journal) (survives : Survives s reverted)
    (logs : ∀ txhash, rest.countP (logsTo txhash) ≤ (reverted.logs txhash).length)
    (logSize : reverted.logSize < 2 ^ 64) :
    Counts rest { reverted with journal := reverted.journal.undirty entry } where
  counted := by
    have counted := counts.counted
    rw [← journal] at counted
    exact counted.undirty
  undeleted := by
    intro a o found deleted
    have clean := counts.undeleted a o (survives.live a o found deleted) deleted
    obtain ⟨extra, _, before⟩ := counts.counted
    -- a deleted object has no changes in the journal, so the entry is about another one
    have other : entry.dirtied ≠ some a := by
      intro same
      have counted := before a
      rw [clean, changes_cons, if_pos same, Nat.add_right_comm, tally_succ] at counted
      simp at counted
    simp only [journal]
    unfold Journal.undirty
    cases dirtied : entry.dirtied with
    | none => exact clean
    | some b =>
      have different : a ≠ b := by
        rintro rfl
        exact other dirtied
      simp only
      split
      · simpa [lookup_erase_eq, different] using clean
      · simpa [lookup_insert_eq, different] using clean
  logged := logs
  logSize := logSize

theorem countP_tail (counts : Counts (entry :: rest) s) (txhash : Hash) :
    rest.countP (logsTo txhash) ≤ (s.logs txhash).length := by
  have all := counts.logged txhash
  rw [List.countP_cons] at all
  omega

theorem StateDB.getStateObject_live (live : s.live a = some o)
    (present : o.deleted = false) : s.getStateObject a = (some o, s) := by
  have found : s.stateObjects.lookup a = some o := live
  simp [getStateObject, found, present]

theorem StateDB.balances_of_live (live : s.live a = some o)
    (present : o.deleted = false) : s.balances a = o.data.balance := by
  simp [balances, lookup_of_live live present]

theorem StateDB.live_of_isSome (cached : (s.caches a).isSome) :
    ∃ o, s.live a = some o ∧ o.deleted = false := by
  obtain ⟨keys, found⟩ := Option.isSome_iff_exists.mp cached
  obtain ⟨o, live, present, _⟩ := live_of_caches found
  exact ⟨o, live, present⟩

theorem StateDB.update_balances (live : s.live a = some o)
    (present : o.deleted = false) : Function.update s.balances a o.data.balance = s.balances := by
  rw [← balances_of_live live present, Function.update_eq_self]

theorem findIdx_revision {older newer : List Revision} {r : Revision}
    (sorted : (older ++ r :: newer).Pairwise fun r r' => r.id < r'.id ∧ r.journalIndex ≤ r'.journalIndex) :
    (older ++ r :: newer).findIdx (fun revision => decide (r.id ≤ revision.id)) = older.length := by
  have below : ∀ revision ∈ older, revision.id < r.id := fun revision member =>
    ((List.pairwise_append.mp sorted).2.2 revision member r List.mem_cons_self).1
  rw [List.findIdx_append, if_neg]
  · simp [List.findIdx_cons]
  · rw [List.findIdx_lt_length]
    rintro ⟨revision, member, found⟩
    have := below revision member
    simp only [decide_eq_true_eq] at found
    omega

variable [Crypto]

structure Undone (entry : JournalEntry) (rest : List JournalEntry) (s s' : StateDB) : Prop where
  kept : Kept rest s'
  survives : Survives s s'
  world : s'.world = entry.undoWorld s.trie s.codes s.world
  balances : s'.balances = entry.undoBalance s.trie s.balances
  trie : s'.trie = s.trie
  codes : s'.codes = s.codes
  validRevisions : s'.validRevisions = s.validRevisions
  nextRevisionId : s'.nextRevisionId = s.nextRevisionId

theorem undo_object (kept : Kept (entry :: rest) s)
    (live : s.live a = some o) (present : o.deleted = false)
    (before : entry.before s.caches = s.caches) (changed : StateObject)
    (reverted : entry.revert s = .ok (s.setStateObject changed))
    (address : changed.address = o.address) (deleted : changed.deleted = o.deleted) (sound : changed.Sound)
    (keys : changed.keys = o.keys)
    (world : entry.undoWorld s.trie s.codes s.world = s.world.setAccount a (changed.view s.codes))
    (balances : entry.undoBalance s.trie s.balances = Function.update s.balances a changed.data.balance) :
    ∃ s', entry.undo s = .ok s' ∧ Undone entry rest s s' := by
  have home : changed.address = a := address.trans (kept.objects.keyed a o live)
  have here : changed.deleted = false := deleted.trans present
  refine ⟨_, by simp only [JournalEntry.undo, reverted]; rfl, ?_⟩
  have anchored : Anchored rest s.caches := by
    have all := kept.objects.anchored.2
    rwa [before] at all
  have objects : Objects rest s :=
    { kept.objects with
      anchored := anchored
      unfunded := kept.objects.unfunded.survives (.refl s) rfl
        fun b member => kept.objects.unfunded.created b (List.mem_cons_of_mem entry member) }
  have updated : Objects rest (s.setStateObject changed) := by
    refine objects.setObject here sound fun found cached => ?_
    rw [home, StateDB.caches_of_live live present] at cached
    rw [keys, ← Option.some.inj cached]
  have survives := Survives.setObject s here
  exact {
    kept := {
      objects := ⟨updated.keyed, updated.sound, updated.removed, updated.anchored, updated.pending,
        ⟨updated.unfunded.deleted, updated.unfunded.created⟩⟩
      counts := kept.counts.undirty (by rfl) survives (fun txhash => countP_tail kept.counts txhash)
        kept.counts.logSize }
    survives := ⟨survives.live, survives.pending⟩
    world := by
      rw [world]
      exact StateDB.world_setObject (StateDB.lookup_of_live live present) home here
    balances := by
      rw [balances, ← home]
      exact s.balances_setObject here
    trie := rfl
    codes := rfl
    validRevisions := rfl
    nextRevisionId := rfl }

theorem undo_global (kept : Kept (entry :: rest) s)
    (before : entry.before s.caches = s.caches) (refund : Nat) (logs : Hash → List Log) (logSize : Nat)
    (preimages : Hash → Option Bytes)
    (reverted : entry.revert s =
      .ok { s with refund := refund, logs := logs, logSize := logSize, preimages := preimages })
    (logged : ∀ txhash, rest.countP (logsTo txhash) ≤ (logs txhash).length) (size : logSize < 2 ^ 64)
    (world : entry.undoWorld s.trie s.codes s.world =
      { s.world with refund := refund, logs := logs, logSize := logSize, preimages := preimages })
    (balances : entry.undoBalance s.trie s.balances = s.balances) :
    ∃ s', entry.undo s = .ok s' ∧ Undone entry rest s s' := by
  have objects := kept.objects
  refine ⟨_, by simp only [JournalEntry.undo, reverted]; rfl, ?_⟩
  exact {
    kept := {
      objects := {
        keyed := objects.keyed
        sound := objects.sound
        removed := objects.removed
        anchored := by
          have all := objects.anchored.2
          rw [before] at all
          exact all
        pending := objects.pending
        unfunded := objects.unfunded.survives ⟨fun _ _ found _ => found, fun _ dirty => dirty⟩ rfl
          fun b member => objects.unfunded.created b (List.mem_cons_of_mem entry member) }
      counts := by
        let reverted : StateDB :=
          { s with refund := refund, logs := logs, logSize := logSize, preimages := preimages }
        change Counts rest { reverted with journal := reverted.journal.undirty entry }
        exact kept.counts.undirty rfl ⟨fun _ _ found _ => found, fun _ dirty => dirty⟩ logged size }
    survives := ⟨fun _ _ found _ => found, fun _ dirty => dirty⟩
    world := by
      rw [world]
      rfl
    balances := by
      rw [balances]
      rfl
    trie := rfl
    codes := rfl
    validRevisions := rfl
    nextRevisionId := rfl }

theorem undo_createObject (kept : Kept (.createObjectChange a :: rest) s) :
    ∃ s', (JournalEntry.createObjectChange a).undo s = .ok s' ∧ Undone (.createObjectChange a) rest s s' := by
  have objects := kept.objects
  refine ⟨_, rfl, ?_⟩
  let erased : StateDB := { s with
    stateObjects := s.stateObjects.erase a
    stateObjectsDirty := s.stateObjectsDirty.erase a }
  have live : ∀ b, erased.live b = if b = a then none else s.live b := fun b => lookup_erase_eq b a s.stateObjects
  have kept' : ∀ b o, erased.live b = some o → s.live b = some o := by
    intro b o found
    rw [live] at found
    split at found
    · simp at found
    · exact found
  have survives : Survives s erased := by
    refine ⟨fun b o found _ => kept' b o found, fun b dirty => ?_⟩
    by_cases same : b = a
    · simp [erased, same] at dirty
    · simpa [erased, same] using dirty
  have lookup : ∀ b, erased.lookup b = if b = a then (s.trie a).map (newObject a) else s.lookup b := by
    intro b
    by_cases same : b = a
    · subst same
      simp [StateDB.lookup, live, erased]
    · rw [if_neg same]
      exact StateDB.lookup_congr (by rw [live, if_neg same]) rfl
  have caches : erased.caches = Function.update s.caches a none := by
    funext b
    by_cases same : b = a
    · subst same
      simp [StateDB.caches, live]
    · simp [StateDB.caches, live, same]
  exact {
    kept := {
      objects := {
        keyed := fun b o found => objects.keyed b o (kept' b o found)
        sound := fun b o found => objects.sound b o (kept' b o found)
        removed := fun b o found => objects.removed b o (kept' b o found)
        anchored := by
          have all := objects.anchored.2
          simp only [JournalEntry.before, ← caches] at all
          exact all
        pending := by
          intro b other dirty
          change (erased.live b).isSome
          by_cases same : b = a
          · subst same
            simp at dirty
          · rw [live, if_neg same]
            exact objects.pending b other (by simpa [same] using dirty)
        unfunded := objects.unfunded.survives ⟨survives.live, survives.pending⟩ rfl
          fun b member => objects.unfunded.created b (List.mem_cons_of_mem _ member) }
      counts := kept.counts.undirty (by rfl) survives (fun txhash => countP_tail kept.counts txhash)
        kept.counts.logSize }
    survives := ⟨survives.live, survives.pending⟩
    world := by
      change erased.world = _
      simp only [StateDB.world, JournalEntry.undoWorld, World.mk.injEq]
      refine ⟨funext fun b => ?_, funext fun b => ?_, rfl, rfl, rfl, rfl⟩
      · by_cases same : b = a
        · subst same
          simp [lookup, erased, Function.comp_def]
        · simp [lookup, same, erased]
      · by_cases same : b = a
        · subst same
          simp [erased]
        · simp [lookup, same, erased]
    balances := by
      change erased.balances = _
      funext b
      by_cases same : b = a
      · subst same
        cases stored : s.trie b <;>
          simp [StateDB.balances, lookup, JournalEntry.undoBalance, stored, newObject]
      · simp [StateDB.balances, lookup, JournalEntry.undoBalance, same]
    trie := rfl
    codes := rfl
    validRevisions := rfl
    nextRevisionId := rfl }

theorem undo_resetObject {prev : StateObject} (kept : Kept (.resetObjectChange prev :: rest) s) :
    ∃ s', (JournalEntry.resetObjectChange prev).undo s = .ok s' ∧ Undone (.resetObjectChange prev) rest s s' := by
  obtain ⟨cached, sound, present⟩ := kept.objects.anchored.1
  obtain ⟨o, live, here⟩ := StateDB.live_of_isSome cached
  have updated : Objects rest (s.setStateObject prev) :=
    kept.objects.put present sound kept.objects.anchored.2
      fun b member => kept.objects.unfunded.created b (List.mem_cons_of_mem _ member)
  have survives := Survives.setObject s present
  refine ⟨_, rfl, ?_⟩
  exact {
    kept := {
      objects := ⟨updated.keyed, updated.sound, updated.removed, updated.anchored, updated.pending,
        ⟨updated.unfunded.deleted, updated.unfunded.created⟩⟩
      counts := kept.counts.undirty (by rfl) survives (fun txhash => countP_tail kept.counts txhash)
        kept.counts.logSize }
    survives := ⟨survives.live, survives.pending⟩
    world := StateDB.world_setObject (StateDB.lookup_of_live live here) rfl present
    balances := s.balances_setObject present
    trie := rfl
    codes := rfl
    validRevisions := rfl
    nextRevisionId := rfl }

theorem StateObject.setState_view (codes : Hash → Option Bytes) (o : StateObject) (key value : Hash) :
    (o.setState key value).view codes =
      { o.view codes with storage := Function.update (o.view codes).storage key value } := by
  simp only [view, setState, AccountView.mk.injEq, true_and]
  refine ⟨funext fun k => ?_, rfl, trivial⟩
  by_cases same : k = key
  · subst same
    simp
  · simp only [same, ne_eq, not_false_eq_true, Function.update_of_ne]
    rfl

theorem StateDB.accounts_of_live (live : s.live a = some o)
    (present : o.deleted = false) : s.world.accounts a = some (o.view s.codes) := by
  simp [world, lookup_of_live live present]

theorem undo_step
    (kept : Kept (entry :: rest) s) : ∃ s', entry.undo s = .ok s' ∧ Undone entry rest s s' := by
  have revertible := kept.objects.anchored.1
  have tail := fun txhash => countP_tail kept.counts txhash
  cases entry with
  | createObjectChange a => exact undo_createObject kept
  | resetObjectChange prev => exact undo_resetObject kept
  | suicideChange a prev prevbalance =>
    obtain ⟨o, live, present⟩ := StateDB.live_of_isSome (revertible a rfl)
    have sound := kept.objects.sound a o live
    refine undo_object kept live present rfl ({ o with suicided := prev }.setBalance prevbalance) ?_ rfl rfl
      ⟨sound.origin, sound.dirty⟩ rfl ?_ rfl
    · simp only [JournalEntry.revert, StateDB.getStateObject_live live present]
    · simp only [JournalEntry.undoWorld, JournalEntry.dirtied, StateDB.accounts_of_live live present]
      rfl
  | balanceChange a prev =>
    obtain ⟨o, live, present⟩ := StateDB.live_of_isSome (revertible a rfl)
    have sound := kept.objects.sound a o live
    refine undo_object kept live present rfl (o.setBalance prev) ?_ rfl rfl ⟨sound.origin, sound.dirty⟩ rfl ?_ rfl
    · simp only [JournalEntry.revert, StateDB.modifyObject, StateDB.getStateObject_live live present]
    · simp only [JournalEntry.undoWorld, JournalEntry.dirtied, StateDB.accounts_of_live live present]
      rfl
  | nonceChange a prev =>
    obtain ⟨o, live, present⟩ := StateDB.live_of_isSome (revertible a rfl)
    have sound := kept.objects.sound a o live
    refine undo_object kept live present rfl (o.setNonce prev) ?_ rfl rfl ⟨sound.origin, sound.dirty⟩ rfl ?_ ?_
    · simp only [JournalEntry.revert, StateDB.modifyObject, StateDB.getStateObject_live live present]
    · simp only [JournalEntry.undoWorld, JournalEntry.dirtied, StateDB.accounts_of_live live present]
      rfl
    · exact (StateDB.update_balances live present).symm
  | storageChange a key prevalue =>
    obtain ⟨keys, cached, loaded⟩ := revertible
    obtain ⟨o, live, present, same⟩ := StateDB.live_of_caches cached
    have sound := kept.objects.sound a o live
    refine undo_object kept live present rfl (o.setState key prevalue) ?_ rfl rfl ⟨sound.origin, ?_⟩ rfl ?_ ?_
    · simp only [JournalEntry.revert, StateDB.modifyObject, StateDB.getStateObject_live live present]
    · intro k dirty
      by_cases here : k = key
      · subst here
        subst same
        exact loaded
      · exact sound.dirty k (by simpa [StateObject.setState, here] using dirty)
    · simp only [JournalEntry.undoWorld, JournalEntry.dirtied, StateDB.accounts_of_live live present,
        StateObject.setState_view]
      rfl
    · exact (StateDB.update_balances live present).symm
  | codeChange a prevcode prevhash =>
    obtain ⟨o, live, present⟩ := StateDB.live_of_isSome (revertible a rfl)
    have sound := kept.objects.sound a o live
    refine undo_object kept live present rfl (o.setCode prevhash prevcode) ?_ rfl rfl ⟨sound.origin, sound.dirty⟩
      rfl ?_ ?_
    · simp only [JournalEntry.revert, StateDB.modifyObject, StateDB.getStateObject_live live present]
    · simp only [JournalEntry.undoWorld, JournalEntry.dirtied, StateDB.accounts_of_live live present]
      rfl
    · exact (StateDB.update_balances live present).symm
  | refundChange prev =>
    exact undo_global kept rfl prev s.logs s.logSize s.preimages rfl tail kept.counts.logSize rfl rfl
  | addLogChange txhash =>
    have logged := kept.counts.logged
    simp only [List.countP_cons, logsTo] at logged
    have some : s.logs txhash ≠ [] := by
      have own := logged txhash
      simp only [decide_true, if_true] at own
      intro none
      rw [none] at own
      simp at own
    refine undo_global kept rfl s.refund (Function.update s.logs txhash (s.logs txhash).dropLast)
      ((s.logSize + (2 ^ 64 - 1)) % 2 ^ 64) s.preimages ?_ ?_ (Nat.mod_lt _ (by decide)) rfl rfl
    · simp only [JournalEntry.revert, some, if_false]
    · intro hash
      by_cases same : hash = txhash
      · subst same
        have own := logged hash
        simp only [decide_true, if_true] at own
        simp only [Function.update_self, List.length_dropLast]
        omega
      · simpa [same] using tail hash
  | addPreimageChange hash =>
    exact undo_global kept rfl s.refund s.logs s.logSize (Function.update s.preimages hash none) rfl tail
      kept.counts.logSize rfl rfl
  | touchChange a =>
    exact undo_global kept rfl s.refund s.logs s.logSize s.preimages rfl tail kept.counts.logSize rfl rfl

structure Ordered (s : StateDB) : Prop where
  sorted : s.validRevisions.Pairwise fun r r' => r.id < r'.id ∧ r.journalIndex ≤ r'.journalIndex
  bounded : ∀ r ∈ s.validRevisions, r.id < s.nextRevisionId ∧ r.journalIndex ≤ s.journal.entries.length

structure Valid (s : StateDB) : Prop where
  kept : Kept s.journal.entries s
  ordered : Ordered s

structure Rewound (upper : List JournalEntry) (older : List Revision) (s s' : StateDB) : Prop where
  valid : Valid s'
  entries : s.journal.entries = upper ++ s'.journal.entries
  survives : Survives s s'
  world : s'.world = UndoLog.undoAll (JournalEntry.undoWorld s.trie s.codes) upper s.world
  balances : s'.balances = UndoLog.undoAll (JournalEntry.undoBalance s.trie) upper s.balances
  trie : s'.trie = s.trie
  codes : s'.codes = s.codes
  validRevisions : s'.validRevisions = older
  nextRevisionId : s'.nextRevisionId = s.nextRevisionId

structure Rewinding (origin : StateDB) (entries : List JournalEntry) (s : StateDB) : Prop where
  kept : Kept entries s
  survives : Survives origin s
  trie : s.trie = origin.trie
  codes : s.codes = origin.codes
  validRevisions : s.validRevisions = origin.validRevisions
  nextRevisionId : s.nextRevisionId = origin.nextRevisionId

theorem rewinding_reverts (origin : StateDB) :
    UndoLog.Reverts JournalEntry.undo (Rewinding origin) (fun s => (s.world, s.balances))
      (fun entry seen => (entry.undoWorld origin.trie origin.codes seen.1, entry.undoBalance origin.trie seen.2)) where
  step := by
    intro entry rest s holds
    obtain ⟨s', result, undone⟩ := undo_step holds.kept
    refine ⟨s', result, ?_, ?_⟩
    · exact {
        kept := undone.kept
        survives := holds.survives.trans undone.survives
        trie := undone.trie.trans holds.trie
        codes := undone.codes.trans holds.codes
        validRevisions := undone.validRevisions.trans holds.validRevisions
        nextRevisionId := undone.nextRevisionId.trans holds.nextRevisionId }
    · simp only [undone.world, undone.balances, holds.trie, holds.codes]

theorem Objects.congr {entries : List JournalEntry} (objects : Objects entries s)
    (journal : Journal) (validRevisions : List Revision) :
    Objects entries { s with journal := journal, validRevisions := validRevisions } :=
  ⟨objects.keyed, objects.sound, objects.removed, objects.anchored, objects.pending,
    ⟨objects.unfunded.deleted, objects.unfunded.created⟩⟩

theorem revertToSnapshot_ok (valid : Valid s) {older newer : List Revision} {r : Revision}
    (split : s.validRevisions = older ++ r :: newer) :
    ∃ s' upper, s.revertToSnapshot r.id = .ok s' ∧ Rewound upper older s s' ∧
      s'.journal.entries.length = r.journalIndex := by
  have sorted := valid.ordered.sorted
  have member : r ∈ s.validRevisions := by simp [split]
  have within := (valid.ordered.bounded r member).2
  rw [split] at sorted
  obtain ⟨upper, lower, entries, length⟩ : ∃ upper lower, s.journal.entries = upper ++ lower ∧
      lower.length = r.journalIndex :=
    ⟨s.journal.entries.take (s.journal.entries.length - r.journalIndex),
      s.journal.entries.drop (s.journal.entries.length - r.journalIndex), by simp, by simp; omega⟩
  have start : Rewinding s (upper ++ lower) s := ⟨entries ▸ valid.kept, .refl s, rfl, rfl, rfl, rfl⟩
  obtain ⟨t, result, holds, seen⟩ := (rewinding_reverts s).rewind_ok upper lower s start
  rw [UndoLog.undoAll_pair, Prod.mk.injEq] at seen
  let s' : StateDB := { t with journal.entries := lower, validRevisions := older }
  refine ⟨s', upper, ?_, ?_, length⟩
  · have index := findIdx_revision sorted
    have reverted : s.revertJournal r.journalIndex = .ok { t with journal.entries := lower } := by
      simp only [StateDB.revertJournal, entries, ← length, result]
    simp only [StateDB.revertToSnapshot, split, index, List.getElem?_append_right (Nat.le_refl older.length),
      Nat.sub_self, List.getElem?_cons_zero, ne_eq, not_true_eq_false, if_false, reverted, holds.validRevisions,
      List.take_left]
    rfl
  · have remaining : ∀ r' ∈ older, r'.journalIndex ≤ lower.length := by
      intro r' member
      rw [length]
      exact ((List.pairwise_append.mp sorted).2.2 r' member r List.mem_cons_self).2
    exact {
      valid := {
        kept := {
          objects := holds.kept.objects.congr _ _
          counts := ⟨holds.kept.counts.counted, holds.kept.counts.undeleted, holds.kept.counts.logged,
            holds.kept.counts.logSize⟩ }
        ordered := {
          sorted := (List.pairwise_append.mp sorted).1
          bounded := by
            intro r' member
            refine ⟨?_, remaining r' member⟩
            change r'.id < t.nextRevisionId
            rw [holds.nextRevisionId]
            exact (valid.ordered.bounded r' (by rw [split]; exact List.mem_append_left _ member)).1 } }
      entries := entries
      survives := ⟨holds.survives.live, holds.survives.pending⟩
      world := seen.1
      balances := seen.2
      trie := holds.trie
      codes := holds.codes
      validRevisions := rfl
      nextRevisionId := holds.nextRevisionId }

end CuteEVM
