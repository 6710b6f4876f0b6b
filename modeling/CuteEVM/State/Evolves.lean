import CuteEVM.State.Revert

set_option autoImplicit false

-- Whatever an operation changes can be undone from the entries it adds to the journal.

namespace CuteEVM

variable [Crypto]

def Clean (s : StateDB) : Prop := Vacant (· = none) s.journal.entries s

structure World.Reveals (trie : Address → Option Account) (codes : Hash → Option Bytes) (w w' : World) : Prop where
  present : ∀ a view, w.accounts a = some view → w'.accounts a = some view
  hidden : ∀ a view, w.accounts a = none → w'.accounts a = some view →
    ∃ data, trie a = some data ∧ view = (newObject a data).view codes
  rest : w' = { w with accounts := w'.accounts }

section Reveals

variable {trie : Address → Option Account} {codes : Hash → Option Bytes} {w w' w'' : World}

theorem World.Reveals.refl (trie : Address → Option Account) (codes : Hash → Option Bytes) (w : World) : w.Reveals trie codes w :=
  ⟨fun _ _ found => found, fun _ _ missing found => absurd (missing.symm.trans found) nofun, rfl⟩

theorem World.Reveals.of_eq (same : w' = w) : w.Reveals trie codes w' := same ▸ .refl trie codes w'

theorem World.Reveals.trans (first : w.Reveals trie codes w') (second : w'.Reveals trie codes w'') : w.Reveals trie codes w'' where
  present := fun a view found => second.present a view (first.present a view found)
  hidden := by
    intro a view missing found
    cases seen : w'.accounts a with
    | none => exact second.hidden a view seen found
    | some other =>
      obtain rfl := Option.some.inj ((second.present a other seen).symm.trans found)
      exact first.hidden a other missing seen
  rest := by rw [second.rest, first.rest]

theorem World.Reveals.update (reveals : w.Reveals trie codes w') (a : Address) (value : Option AccountView) :
    World.Reveals trie codes { w with accounts := Function.update w.accounts a value }
      { w' with accounts := Function.update w'.accounts a value } where
  present := by
    intro b view found
    by_cases same : b = a
    · subst same
      simpa using found
    · have before : w.accounts b = some view := by simpa [same] using found
      simpa [same] using reveals.present b view before
  hidden := by
    intro b view missing found
    by_cases same : b = a
    · subst same
      simp only [Function.update_self] at missing found
      rw [missing] at found
      cases found
    · exact reveals.hidden b view (by simpa [same] using missing) (by simpa [same] using found)
  rest := by rw [reveals.rest]

theorem World.Reveals.undo {entry : JournalEntry} {rest : List JournalEntry} {t : StateDB} (kept : Kept (entry :: rest) t)
    (reveals : t.world.Reveals trie codes w) :
    (entry.undoWorld trie codes t.world).Reveals trie codes (entry.undoWorld trie codes w) := by
  have revertible := kept.objects.anchored.1
  have own : ∀ a, (t.caches a).isSome → w.accounts a = t.world.accounts a := by
    intro a cached
    obtain ⟨o, live, present⟩ := StateDB.live_of_isSome cached
    have found := StateDB.accounts_of_live live present
    rw [found]
    exact reveals.present a _ found
  cases entry with
  | createObjectChange a =>
    have updated := reveals.update a ((trie a).map fun data => (newObject a data).view codes)
    exact ⟨updated.present, updated.hidden, by simp only [JournalEntry.undoWorld]; rw [reveals.rest]⟩
  | resetObjectChange prev => exact reveals.update prev.address (some (prev.view codes))
  | suicideChange a _ _ | balanceChange a _ | nonceChange a _ | codeChange a _ _ =>
    simp only [JournalEntry.undoWorld, JournalEntry.dirtied, own a (revertible a rfl)]
    exact reveals.update a _
  | storageChange a _ _ =>
    obtain ⟨keys, cached, -⟩ := revertible
    simp only [JournalEntry.undoWorld, JournalEntry.dirtied, own a (by simp [cached])]
    exact reveals.update a _
  | refundChange _ | addLogChange _ | addPreimageChange _ =>
    refine ⟨reveals.present, reveals.hidden, ?_⟩
    simp only [JournalEntry.undoWorld]
    rw [reveals.rest]
  | touchChange _ => exact reveals

theorem World.Reveals.undoAll {new rest : List JournalEntry} {t : StateDB} (kept : Kept (new ++ rest) t)
    (reveals : t.world.Reveals t.trie t.codes w) :
    (UndoLog.undoAll (JournalEntry.undoWorld t.trie t.codes) new t.world).Reveals t.trie t.codes
      (UndoLog.undoAll (JournalEntry.undoWorld t.trie t.codes) new w) := by
  induction new generalizing t w with
  | nil => exact reveals
  | cons entry new ih =>
    obtain ⟨t', -, undone⟩ := undo_step kept
    have shown := reveals.undo kept
    rw [← undone.world, ← undone.trie, ← undone.codes] at shown
    have later := ih undone.kept shown
    rwa [undone.world, undone.trie, undone.codes] at later

end Reveals

structure Evolves (s s' : StateDB) : Prop where
  valid : Valid s'
  clean : Clean s → Clean s'
  survives : Survives s s'
  trie : s'.trie = s.trie
  codes : s'.codes = s.codes
  next : s.nextRevisionId ≤ s'.nextRevisionId
  revisions : ∃ more, s'.validRevisions = s.validRevisions ++ more ∧
    ∀ r ∈ more, s.nextRevisionId ≤ r.id ∧ s.journal.entries.length ≤ r.journalIndex
  history : ∃ new, s'.journal.entries = new ++ s.journal.entries ∧
    UndoLog.undoAll (JournalEntry.undoBalance s.trie) new s'.balances = s.balances ∧
    s.world.Reveals s.trie s.codes (UndoLog.undoAll (JournalEntry.undoWorld s.trie s.codes) new s'.world)

theorem Evolves.refl {s : StateDB} (valid : Valid s) : Evolves s s where
  valid := valid
  clean := id
  survives := .refl s
  trie := rfl
  codes := rfl
  next := Nat.le_refl _
  revisions := ⟨[], by simp⟩
  history := ⟨[], rfl, rfl, .refl _ _ _⟩

theorem Evolves.trans {s t u : StateDB} (first : Evolves s t) (second : Evolves t u) : Evolves s u where
  valid := second.valid
  clean := second.clean ∘ first.clean
  survives := first.survives.trans second.survives
  trie := second.trie.trans first.trie
  codes := second.codes.trans first.codes
  next := Nat.le_trans first.next second.next
  revisions := by
    obtain ⟨more, revisions, recent⟩ := first.revisions
    obtain ⟨more', revisions', recent'⟩ := second.revisions
    obtain ⟨new, entries, _⟩ := first.history
    refine ⟨more ++ more', by rw [revisions', revisions, List.append_assoc], fun r member => ?_⟩
    rcases List.mem_append.mp member with member | member
    · exact recent r member
    · have later := recent' r member
      have next := first.next
      rw [entries, List.length_append] at later
      omega
  history := by
    obtain ⟨new, entries, balances, world⟩ := first.history
    obtain ⟨new', entries', balances', world'⟩ := second.history
    refine ⟨new' ++ new, by rw [entries', entries, List.append_assoc], ?_, ?_⟩
    · rw [UndoLog.undoAll_append, ← first.trie, balances', first.trie, balances]
    · have kept := first.valid.kept
      rw [entries] at kept
      have below := world'.undoAll kept
      rw [← UndoLog.undoAll_append, first.trie, first.codes] at below
      exact world.trans below

structure Reads (s s' : StateDB) : Prop where
  valid : Valid s'
  survives : Survives s s'
  trie : s'.trie = s.trie
  codes : s'.codes = s.codes
  journal : s'.journal = s.journal
  validRevisions : s'.validRevisions = s.validRevisions
  nextRevisionId : s'.nextRevisionId = s.nextRevisionId
  world : s'.world = s.world
  balances : s'.balances = s.balances

theorem Reads.refl {s : StateDB} (valid : Valid s) : Reads s s :=
  ⟨valid, .refl s, rfl, rfl, rfl, rfl, rfl, rfl, rfl⟩

theorem Reads.trans {s t u : StateDB} (first : Reads s t) (second : Reads t u) : Reads s u where
  valid := second.valid
  survives := first.survives.trans second.survives
  trie := second.trie.trans first.trie
  codes := second.codes.trans first.codes
  journal := second.journal.trans first.journal
  validRevisions := second.validRevisions.trans first.validRevisions
  nextRevisionId := second.nextRevisionId.trans first.nextRevisionId
  world := second.world.trans first.world
  balances := second.balances.trans first.balances

theorem Reads.evolves {s s' : StateDB} (reads : Reads s s') : Evolves s s' where
  valid := reads.valid
  clean := fun clean => Vacant.survives clean reads.survives reads.trie (by rw [reads.journal]; exact clean.created)
  survives := reads.survives
  trie := reads.trie
  codes := reads.codes
  next := Nat.le_of_eq reads.nextRevisionId.symm
  revisions := ⟨[], by simp [reads.validRevisions]⟩
  history := ⟨[], by simp [reads.journal], reads.balances, .of_eq reads.world⟩

theorem Reads.cache {s : StateDB} (valid : Valid s) {a : Address} {o o' : StateObject} (found : s.lookup a = some o)
    (cached : StateObject.Cached s.codes o o') : Reads s (s.setStateObject o') := by
  obtain ⟨address, present, sound⟩ := valid.kept.objects.address_of_lookup found
  have here : o'.deleted = false := cached.deleted.trans present
  have home : o'.address = a := cached.address.trans address
  have grows : ∀ keys, s.caches o'.address = some keys → keys ⊆ o'.keys := by
    intro keys known
    obtain ⟨object, live, present', same⟩ := StateDB.live_of_caches known
    rw [home] at live
    have same' := (StateDB.lookup_of_live live present').symm.trans found
    rw [← same, Option.some.inj same']
    exact cached.keys
  have accounts : s.world.accounts a = some (o'.view s.codes) := by
    simp [StateDB.world, found, cached.view]
  have balance : s.balances o'.address = o'.data.balance := by
    simp [StateDB.balances, home, found, cached.data]
  exact {
    valid := {
      kept := {
        objects := valid.kept.objects.setObject here (cached.sound sound) grows
        counts := valid.kept.counts.setObject here }
      ordered := ⟨valid.ordered.sorted, valid.ordered.bounded⟩ }
    survives := .setObject s here
    trie := rfl
    codes := rfl
    journal := rfl
    validRevisions := rfl
    nextRevisionId := rfl
    world := by
      rw [StateDB.world_setObject found home here, World.setAccount_self accounts]
    balances := by
      rw [s.balances_setObject here, ← balance, Function.update_eq_self] }

theorem Reads.load {s : StateDB} (valid : Valid s) (a : Address) : Reads s (s.load a) := by
  rcases s.load_eq a with same | ⟨data, absent, stored, loaded⟩
  · rw [same]
    exact .refl valid
  · rw [loaded]
    have found : s.lookup a = some (newObject a data) := by
      rw [StateDB.lookup_of_absent absent, stored]
      rfl
    exact .cache valid found (.refl s.codes _)

end CuteEVM
