import CuteEVM.State.World

set_option autoImplicit false

-- Every entry of the journal can be reverted, newest first: at its turn the object it is about is live.

namespace CuteEVM

variable {entries : List JournalEntry} {a : Address} {o : StateObject}

abbrev Caches := Address → Option (Set Hash)

def StateDB.caches (s : StateDB) : Caches := fun a =>
  match s.live a with
  | some o => if o.deleted then none else some o.keys
  | none => none

theorem StateDB.caches_of_live {s : StateDB} (live : s.live a = some o)
    (present : o.deleted = false) : s.caches a = some o.keys := by
  simp [caches, live, present]

theorem StateDB.live_of_caches {s : StateDB} {keys : Set Hash} (cached : s.caches a = some keys) :
    ∃ o, s.live a = some o ∧ o.deleted = false ∧ o.keys = keys := by
  unfold caches at cached
  cases live : s.live a with
  | none => simp [live] at cached
  | some o => cases deleted : o.deleted <;> simp_all

theorem StateDB.caches_setStateObject (s : StateDB) (o : StateObject) (present : o.deleted = false) :
    (s.setStateObject o).caches = Function.update s.caches o.address (some o.keys) := by
  funext a
  by_cases same : a = o.address
  · subst same
    simp [caches, present]
  · simp [caches, same]

def Caches.le (caches caches' : Caches) : Prop :=
  ∀ a keys, caches a = some keys → ∃ keys', caches' a = some keys' ∧ keys ⊆ keys'

theorem Caches.le_update {caches caches' : Caches} (grows : caches.le caches') (a : Address)
    (keys : Option (Set Hash)) : Caches.le (Function.update caches a keys) (Function.update caches' a keys) := by
  intro b found cached
  by_cases same : b = a
  · subst same
    exact ⟨found, by simpa using cached, subset_rfl⟩
  · simpa [same] using grows b found (by simpa [same] using cached)

theorem Caches.le_set {caches : Caches} {keys : Set Hash}
    (kept : ∀ found, caches a = some found → found ⊆ keys) :
    caches.le (Function.update caches a (some keys)) := by
  intro b found cached
  by_cases same : b = a
  · subst same
    exact ⟨keys, by simp, kept found cached⟩
  · exact ⟨found, by simpa [same] using cached, subset_rfl⟩

namespace JournalEntry

def before (caches : Caches) : JournalEntry → Caches
  | .createObjectChange a => Function.update caches a none
  | .resetObjectChange prev => Function.update caches prev.address (some prev.keys)
  | _ => caches

def Revertible (caches : Caches) : JournalEntry → Prop
  | .resetObjectChange prev => (caches prev.address).isSome ∧ prev.Sound ∧ prev.deleted = false
  | .storageChange a key _ => ∃ keys, caches a = some keys ∧ key ∈ keys
  | entry => ∀ a, entry.dirtied = some a → (caches a).isSome

theorem before_le {caches caches' : Caches} (grows : caches.le caches') (entry : JournalEntry) :
    (entry.before caches).le (entry.before caches') := by
  cases entry with
  | createObjectChange a => exact Caches.le_update grows a none
  | resetObjectChange prev => exact Caches.le_update grows prev.address (some prev.keys)
  | _ => exact grows

theorem Revertible.mono {caches caches' : Caches} (grows : caches.le caches') {entry : JournalEntry}
    (holds : entry.Revertible caches) : entry.Revertible caches' := by
  have present : ∀ a, (caches a).isSome → (caches' a).isSome := by
    intro a cached
    obtain ⟨keys, found⟩ := Option.isSome_iff_exists.mp cached
    obtain ⟨keys', found', _⟩ := grows a keys found
    simp [found']
  cases entry with
  | resetObjectChange prev => exact ⟨present _ holds.1, holds.2⟩
  | storageChange a key prevalue =>
    obtain ⟨keys, found, member⟩ := holds
    obtain ⟨keys', found', kept⟩ := grows a keys found
    exact ⟨keys', found', kept member⟩
  | _ => exact fun a dirtied => present a (holds a dirtied)

end JournalEntry

-- Each entry is revertible once the entries above it are reverted.
def Anchored : List JournalEntry → Caches → Prop
  | [], _ => True
  | entry :: rest, caches => entry.Revertible caches ∧ Anchored rest (entry.before caches)

theorem Anchored.mono {caches caches' : Caches} (grows : caches.le caches')
    (holds : Anchored entries caches) : Anchored entries caches' := by
  induction entries generalizing caches caches' with
  | nil => trivial
  | cons entry rest ih => exact ⟨holds.1.mono grows, ih (entry.before_le grows) holds.2⟩

section Counts

def changes (entries : List JournalEntry) (a : Address) : Nat :=
  entries.countP fun entry => entry.dirtied = some a

theorem changes_cons (entry : JournalEntry) (rest : List JournalEntry) (a : Address) :
    changes (entry :: rest) a = changes rest a + if entry.dirtied = some a then 1 else 0 := by
  simp [changes, List.countP_cons]

def tally (count : Nat) : Option Int := if count = 0 then none else some count

theorem tally_getD (count : Nat) : (tally count).getD 0 = count := by
  unfold tally
  split <;> simp_all

theorem tally_succ (count : Nat) : tally (count + 1) = some ((count : Int) + 1) := by
  simp [tally]

-- The dirty counts are those of the entries, apart from what `touch` adds for RIPEMD.
def Counted (entries : List JournalEntry) (dirties : Dirties) : Prop :=
  ∃ extra : Address → Nat, (∀ a, a ≠ ripemd → extra a = 0) ∧
    ∀ a, dirties.lookup a = tally (changes entries a + extra a)

theorem Counted.dirty {j : Journal} (counted : Counted entries j.dirties) :
    Counted entries (j.dirty ripemd).dirties := by
  obtain ⟨extra, others, counts⟩ := counted
  refine ⟨Function.update extra ripemd (extra ripemd + 1), fun a other => ?_, fun a => ?_⟩
  · rw [Function.update_of_ne other]
    exact others a other
  · simp only [Journal.dirty, lookup_insert_eq, counts, tally_getD]
    by_cases same : a = ripemd
    · simp only [same, if_true, Function.update_self, ← Nat.add_assoc, tally_succ]
    · simp only [same, if_false, Function.update_of_ne (h := same)]

theorem Counted.append {j : Journal} (counted : Counted entries j.dirties)
    (entry : JournalEntry) : Counted (entry :: entries) (j.append entry).dirties := by
  obtain ⟨extra, others, counts⟩ := counted
  refine ⟨extra, others, fun a => ?_⟩
  rw [changes_cons]
  cases dirtied : entry.dirtied with
  | none => simp [Journal.append, dirtied, counts]
  | some b =>
    simp only [Journal.append, dirtied, Journal.dirty, lookup_insert_eq, counts, tally_getD, Option.some.injEq]
    by_cases same : a = b
    · simp only [same, if_true, Nat.add_right_comm, tally_succ]
    · simp only [same, Ne.symm same, if_false, Nat.add_zero]

theorem Counted.undirty {entry : JournalEntry} {j : Journal}
    (counted : Counted (entry :: entries) j.dirties) : Counted entries (j.undirty entry).dirties := by
  obtain ⟨extra, others, counts⟩ := counted
  refine ⟨extra, others, fun a => ?_⟩
  simp only [changes_cons] at counts
  cases dirtied : entry.dirtied with
  | none => simpa [Journal.undirty, dirtied] using counts a
  | some b =>
    have own : (j.dirties.lookup b).getD 0 - 1 = ((changes entries b + extra b : Nat) : Int) := by
      simp only [counts, dirtied, if_true, Nat.add_right_comm, tally_getD]
      omega
    simp only [dirtied, Option.some.injEq] at counts
    simp only [Journal.undirty, dirtied, own]
    by_cases zero : changes entries b + extra b = 0
    · by_cases same : a = b
      · simp [zero, same, lookup_erase_eq, tally]
      · simp [zero, same, Ne.symm same, counts]
    · have positive : ((changes entries b + extra b : Nat) : Int) ≠ 0 := by omega
      rw [if_neg positive]
      by_cases same : a = b
      · simp only [same, lookup_insert_eq, if_true, tally, zero, if_false]
      · simp only [same, Ne.symm same, lookup_insert_eq, if_false, counts, Nat.add_zero]

theorem Counted.lookup_eq {dirties dirties' : Dirties}
    (counted : Counted entries dirties) (counted' : Counted entries dirties') (a : Address) (other : a ≠ ripemd) :
    dirties.lookup a = dirties'.lookup a := by
  obtain ⟨extra, others, counts⟩ := counted
  obtain ⟨extra', others', counts'⟩ := counted'
  simp only [counts, counts', others a other, others' a other]

end Counts

-- Where the state shows no account, the trie has one only as `absent` allows.
structure Vacant (absent : Option Account → Prop) (entries : List JournalEntry) (s : StateDB) : Prop where
  deleted : ∀ a o, s.live a = some o → o.deleted = true → absent (s.trie a)
  created : ∀ a, .createObjectChange a ∈ entries → absent (s.trie a)

def Unfunded (account : Option Account) : Prop := ∀ data, account = some data → data.balance = 0

def logsTo (txhash : Hash) : JournalEntry → Bool
  | .addLogChange hash => hash = txhash
  | _ => false

structure Survives (s s' : StateDB) : Prop where
  live : ∀ a o, s'.live a = some o → o.deleted = true → s.live a = some o
  pending : ∀ a, s'.stateObjectsDirty a = true → s.stateObjectsDirty a = true

theorem Survives.refl (s : StateDB) : Survives s s := ⟨fun _ _ live _ => live, fun _ dirty => dirty⟩

theorem Survives.trans {s t u : StateDB} (first : Survives s t) (second : Survives t u) : Survives s u where
  live := fun a o live deleted => first.live a o (second.live a o live deleted) deleted
  pending := fun a dirty => first.pending a (second.pending a dirty)

theorem Survives.setObject (s : StateDB) (present : o.deleted = false) :
    Survives s (s.setStateObject o) where
  live := by
    intro a found live deleted
    rw [StateDB.live_setStateObject] at live
    split at live
    · simp_all
    · exact live
  pending := fun _ dirty => dirty

theorem Vacant.survives {absent : Option Account → Prop} {entries entries' : List JournalEntry} {s s' : StateDB}
    (vacant : Vacant absent entries s) (survives : Survives s s') (trie : s'.trie = s.trie)
    (created : ∀ a, .createObjectChange a ∈ entries' → absent (s.trie a)) : Vacant absent entries' s' where
  deleted := by
    intro a o live deleted
    rw [trie]
    exact vacant.deleted a o (survives.live a o live deleted) deleted
  created := by
    rw [trie]
    exact created

structure Objects [Crypto] (entries : List JournalEntry) (s : StateDB) : Prop where
  keyed : ∀ a o, s.live a = some o → o.address = a
  sound : ∀ a o, s.live a = some o → o.Sound
  removed : ∀ a o, s.live a = some o → o.deleted = true → (o.suicided || o.empty) = true
  anchored : Anchored entries s.caches
  pending : ∀ a, a ≠ ripemd → s.stateObjectsDirty a = true → (s.live a).isSome
  unfunded : Vacant Unfunded entries s

structure Counts (entries : List JournalEntry) (s : StateDB) : Prop where
  counted : Counted entries s.journal.dirties
  undeleted : ∀ a o, s.live a = some o → o.deleted = true → s.journal.dirties.lookup a = none
  logged : ∀ txhash, entries.countP (logsTo txhash) ≤ (s.logs txhash).length
  logSize : s.logSize < 2 ^ 64

structure Kept [Crypto] (entries : List JournalEntry) (s : StateDB) : Prop where
  objects : Objects entries s
  counts : Counts entries s

theorem StateDB.balances_setObject (s : StateDB) (present : o.deleted = false) :
    (s.setStateObject o).balances = Function.update s.balances o.address o.data.balance := by
  funext b
  simp only [balances, s.lookup_setStateObject o b present]
  by_cases same : b = o.address
  · subst same
    simp
  · simp [same, balances]

theorem Counts.setObject {s : StateDB} (counts : Counts entries s)
    (present : o.deleted = false) : Counts entries (s.setStateObject o) where
  counted := counts.counted
  logged := counts.logged
  logSize := counts.logSize
  undeleted := fun a found live deleted =>
    counts.undeleted a found ((Survives.setObject s present).live a found live deleted) deleted

section Objects

variable [Crypto] {entries : List JournalEntry} {s : StateDB}

theorem Objects.put {entries' : List JournalEntry} (objects : Objects entries s)
    (present : o.deleted = false) (sound : o.Sound)
    (anchored : Anchored entries' (Function.update s.caches o.address (some o.keys)))
    (created : ∀ a, .createObjectChange a ∈ entries' → Unfunded (s.trie a)) :
    Objects entries' (s.setStateObject o) where
  keyed := by
    intro a found live
    rw [StateDB.live_setStateObject] at live
    split at live
    · simp_all
    · exact objects.keyed a found live
  sound := by
    intro a found live
    rw [StateDB.live_setStateObject] at live
    split at live
    · simp_all
    · exact objects.sound a found live
  removed := by
    intro a found live deleted
    rw [StateDB.live_setStateObject] at live
    split at live
    · simp_all
    · exact objects.removed a found live deleted
  anchored := by
    rw [StateDB.caches_setStateObject s o present]
    exact anchored
  pending := by
    intro a other dirty
    rw [StateDB.live_setStateObject]
    split
    · rfl
    · exact objects.pending a other dirty
  unfunded := objects.unfunded.survives (.setObject s present) rfl created

theorem Objects.setObject (objects : Objects entries s) (present : o.deleted = false)
    (sound : o.Sound) (grows : ∀ found, s.caches o.address = some found → found ⊆ o.keys) :
    Objects entries (s.setStateObject o) :=
  objects.put present sound (objects.anchored.mono (Caches.le_set grows)) objects.unfunded.created

theorem Objects.address_of_lookup (objects : Objects entries s)
    (found : s.lookup a = some o) : o.address = a ∧ o.deleted = false ∧ o.Sound := by
  unfold StateDB.lookup at found
  cases live : s.live a with
  | some obj =>
    cases deleted : obj.deleted with
    | true => simp [live, deleted] at found
    | false =>
      obtain rfl : obj = o := by simpa [live, deleted] using found
      exact ⟨objects.keyed a obj live, deleted, objects.sound a obj live⟩
  | none =>
    cases stored : s.trie a with
    | none => simp [live, stored] at found
    | some data =>
      obtain rfl : newObject a data = o := by simpa [live, stored] using found
      exact ⟨rfl, rfl, StateObject.newObject_sound a data⟩

theorem StateDB.world_setObject {found o : StateObject} (lookup : s.lookup a = some found)
    (address : o.address = a) (present : o.deleted = false) :
    (s.setStateObject o).world = s.world.setAccount a (o.view s.codes) := by
  subst address
  have seen : ∀ b, (s.setStateObject o).lookup b = if b = o.address then some o else s.lookup b :=
    fun b => s.lookup_setStateObject o b present
  simp only [world, World.setAccount, World.mk.injEq]
  refine ⟨?_, ?_, rfl, rfl, rfl, rfl⟩
  · funext b
    by_cases same : b = o.address
    · simp only [seen, same, if_true, Option.map_some, Function.update_self]
      rfl
    · simp only [seen, same, if_false, Function.update_of_ne (h := same)]
      rfl
  · funext b
    by_cases same : b = o.address
    · simp only [seen, same, if_true, lookup, Option.isSome_some]
      rfl
    · simp only [seen, same, if_false]
      rfl

end Objects

end CuteEVM
