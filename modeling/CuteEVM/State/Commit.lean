import CuteEVM.State.Snapshot
import CuteEVM.Shared.KeyedLoop

set_option autoImplicit false

-- Both loops treat each address on its own, so each is described by what it does to one address.

namespace CuteEVM

structure Slot where
  object : Option StateObject
  account : Option Account
  pending : Bool

def StateDB.slot (s : StateDB) (a : Address) : Slot := ⟨s.live a, s.trie a, s.stateObjectsDirty a⟩

variable {s : StateDB} {a : Address} {o : StateObject}

section Loops

structure Looping (origin s : StateDB) : Prop where
  keyed : ∀ a o, s.live a = some o → o.address = a
  logSize : s.logSize = origin.logSize

theorem markDirties_mem (s : StateDB) (a : Address) :
    s.markDirties.stateObjectsDirty a = (s.stateObjectsDirty a || (s.journal.dirties.lookup a).isSome) := by
  have member : s.journal.dirties.keys.contains a = (s.journal.dirties.lookup a).isSome := by
    rw [Bool.eq_iff_iff, List.contains_iff_mem, AList.lookup_isSome, AList.mem_keys]
  simp only [StateDB.markDirties, AddressSet.mem_foldl_insert, member, Bool.or_comm]

theorem Looping.set {origin s s' : StateDB} (holds : Looping origin s)
    (live : ∀ a, s'.live a = (s.setStateObject o).live a) (logSize : s'.logSize = s.logSize) : Looping origin s' where
  keyed := by
    intro a found live'
    rw [live, StateDB.live_setStateObject] at live'
    split at live'
    · simp_all
    · exact holds.keyed a found live'
  logSize := logSize.trans holds.logSize

-- What one round of a loop leaves at its address. The other addresses stay as they are.
structure Leaves (origin s s' : StateDB) (a : Address) (slot : Slot) : Prop where
  looping : Looping origin s'
  slots : ∀ b, s'.slot b = if b = a then slot else s.slot b

theorem Looping.leaves {origin s s' : StateDB} (holds : Looping origin s) {account : Option Account} {pending : Bool}
    (live : ∀ a, s'.live a = (s.setStateObject o).live a) (trie : s'.trie = Function.update s.trie o.address account)
    (dirty : ∀ a, s'.stateObjectsDirty a = if a = o.address then pending else s.stateObjectsDirty a)
    (logSize : s'.logSize = s.logSize) :
    Leaves origin s s' o.address ⟨some o, account, pending⟩ := by
  refine ⟨holds.set live logSize, fun a => ?_⟩
  by_cases same : a = o.address
  · subst same
    simp [StateDB.slot, live, trie, dirty]
  · simp [StateDB.slot, live, trie, dirty, same]

theorem Looping.idle {origin s : StateDB} (holds : Looping origin s) {slot : Slot} (idle : slot = s.slot a) :
    Leaves origin s s a slot := by
  refine ⟨holds, fun b => ?_⟩
  split
  · next here => rw [here, idle]
  · rfl

theorem round_of_leaves {origin : StateDB} {body : StateDB → Address → StateDB} {act : Slot → Slot}
    (leaves : ∀ s a, Looping origin s → Leaves origin s (body s a) a (act (s.slot a))) :
    KeyedLoop.Round body (Looping origin) StateDB.slot fun _ => act where
  keeps := fun s a holds => (leaves s a holds).looping
  own := fun s a holds => by rw [(leaves s a holds).slots, if_pos rfl]
  frame := fun s a b holds other => by rw [(leaves s a holds).slots, if_neg other]

variable [Crypto]

def finaliseSlot (deleteEmptyObjects : Bool) (slot : Slot) : Slot :=
  match slot.object with
  | none => slot
  | some o =>
    if o.suicided || (deleteEmptyObjects && o.empty) then ⟨some { o with deleted := true }, none, true⟩
    else ⟨some o.updateRoot, some o.updateRoot.data, true⟩

def committedObject (o : StateObject) : StateObject :=
  (if o.code ≠ [] ∧ o.dirtyCode then { o with dirtyCode := false } else o).commitTrie

omit [Crypto] in
theorem commitCode_eq (s : StateDB) (o : StateObject) :
    ∃ codes obj, s.commitCode o = (obj, { s with codes := codes }) ∧ obj.commitTrie = committedObject o := by
  by_cases dirty : o.code ≠ [] ∧ o.dirtyCode = true
  · exact ⟨Function.update s.codes o.data.codeHash (some o.code), { o with dirtyCode := false },
      by rw [StateDB.commitCode, if_pos dirty], by rw [committedObject, if_pos dirty]⟩
  · exact ⟨s.codes, o, by rw [StateDB.commitCode, if_neg dirty], by rw [committedObject, if_neg dirty]⟩

def commitSlot (deleteEmptyObjects : Bool) (slot : Slot) : Slot :=
  match slot.object with
  | none => slot
  | some o =>
    if o.suicided || (slot.pending && deleteEmptyObjects && o.empty) then
      ⟨some { o with deleted := true }, none, false⟩
    else if slot.pending then ⟨some (committedObject o), some (committedObject o).data, false⟩
    else ⟨some o, slot.account, false⟩

omit [Crypto] in
theorem committedObject_address (o : StateObject) : (committedObject o).address = o.address := by
  unfold committedObject
  split <;> rfl

theorem finalise_round (origin : StateDB) (deleteEmptyObjects : Bool) :
    KeyedLoop.Round (StateDB.finaliseObject deleteEmptyObjects) (Looping origin) StateDB.slot
      (fun _ => finaliseSlot deleteEmptyObjects) := by
  refine round_of_leaves fun s a holds => ?_
  cases live : s.live a with
  | none =>
    have absent : s.stateObjects.lookup a = none := live
    simp only [StateDB.finaliseObject, absent]
    exact holds.idle (by simp [finaliseSlot, StateDB.slot, live])
  | some o =>
    have found : s.stateObjects.lookup a = some o := live
    have address := holds.keyed a o live
    subst address
    simp only [StateDB.finaliseObject, found, finaliseSlot, StateDB.slot, live]
    split
    · exact holds.leaves (o := { o with deleted := true }) (fun _ => rfl) rfl (s.stateObjectsDirty.insert_ite o.address) rfl
    · exact holds.leaves (o := o.updateRoot) (fun _ => rfl) rfl (s.stateObjectsDirty.insert_ite o.address) rfl

theorem commit_round (origin : StateDB) (deleteEmptyObjects : Bool) :
    KeyedLoop.Round (StateDB.commitObject deleteEmptyObjects) (Looping origin) StateDB.slot
      (fun _ => commitSlot deleteEmptyObjects) := by
  refine round_of_leaves fun s a holds => ?_
  cases live : s.live a with
  | none =>
    have absent : s.stateObjects.lookup a = none := live
    simp only [StateDB.commitObject, absent]
    exact holds.idle (by simp [commitSlot, StateDB.slot, live])
  | some o =>
    have found : s.stateObjects.lookup a = some o := live
    have address := holds.keyed a o live
    subst address
    simp only [StateDB.commitObject, found, commitSlot, StateDB.slot, live]
    split
    · exact holds.leaves (o := { o with deleted := true }) (fun _ => rfl) rfl (s.stateObjectsDirty.erase_ite o.address) rfl
    · split
      · obtain ⟨codes, obj, result, committed⟩ := commitCode_eq s o
        have home := committedObject_address o
        simp only [result, committed]
        rw [← home]
        exact holds.leaves (o := committedObject o) (fun _ => rfl) rfl (s.stateObjectsDirty.erase_ite (committedObject o).address)
          rfl
      · refine ⟨⟨holds.keyed, holds.logSize⟩, fun b => ?_⟩
        by_cases here : b = o.address
        · subst here
          simp only [StateDB.slot, if_true, Slot.mk.injEq, AddressSet.erase_ite]
          exact ⟨live, trivial, trivial⟩
        · simp only [StateDB.slot, here, if_false, AddressSet.erase_ite]
          rfl

theorem finalise_slot (valid : Valid s) (deleteEmptyObjects : Bool) (a : Address) :
    (s.finalise deleteEmptyObjects).slot a =
      if (s.journal.dirties.lookup a).isSome then finaliseSlot deleteEmptyObjects (s.slot a) else s.slot a := by
  have start : Looping s s := ⟨valid.kept.objects.keyed, rfl⟩
  have loop := ((finalise_round s deleteEmptyObjects).loop s.journal.dirties.keys_nodup start).2 a
  have member : a ∈ s.journal.dirties.keys ↔ (s.journal.dirties.lookup a).isSome := by
    rw [AList.lookup_isSome, AList.mem_keys]
  simp only [member] at loop
  exact loop

theorem commit_looping (valid : Valid s) : Looping s s.markDirties :=
  ⟨valid.kept.objects.keyed, rfl⟩

theorem commit_slot (valid : Valid s) (deleteEmptyObjects : Bool) (a : Address) :
    (s.commit deleteEmptyObjects).slot a = commitSlot deleteEmptyObjects (s.markDirties.slot a) := by
  have loop := ((commit_round s deleteEmptyObjects).loop s.stateObjects.keys_nodup (commit_looping valid)).2 a
  have same : (s.commit deleteEmptyObjects).slot a =
      if a ∈ s.stateObjects.keys then commitSlot deleteEmptyObjects (s.markDirties.slot a)
      else s.markDirties.slot a := loop
  rw [same]
  split
  · rfl
  · next absent =>
      have object : (s.markDirties.slot a).object = none := by
        rw [← AList.mem_keys] at absent
        exact AList.lookup_eq_none.mpr absent
      simp only [commitSlot, object]

theorem finalise_logSize (valid : Valid s) (deleteEmptyObjects : Bool) :
    (s.finalise deleteEmptyObjects).logSize = s.logSize := by
  have start : Looping s s := ⟨valid.kept.objects.keyed, rfl⟩
  exact ((finalise_round s deleteEmptyObjects).loop s.journal.dirties.keys_nodup start).1.logSize

theorem commit_logSize (valid : Valid s) (deleteEmptyObjects : Bool) :
    (s.commit deleteEmptyObjects).logSize = s.logSize :=
  ((commit_round s deleteEmptyObjects).loop s.stateObjects.keys_nodup (commit_looping valid)).1.logSize

end Loops

section Slots

variable [Crypto]

structure SlotOk (a : Address) (slot : Slot) : Prop where
  keyed : ∀ o, slot.object = some o → o.address = a
  sound : ∀ o, slot.object = some o → o.Sound
  removed : ∀ o, slot.object = some o → o.deleted = true → (o.suicided || o.empty) = true
  pending : a ≠ ripemd → slot.pending = true → slot.object.isSome
  unfunded : ∀ o, slot.object = some o → o.deleted = true → Unfunded slot.account

def SlotClean (slot : Slot) : Prop := ∀ o, slot.object = some o → o.deleted = true → slot.account = none

theorem Valid.slotOk (valid : Valid s) (a : Address) : SlotOk a (s.slot a) where
  keyed := valid.kept.objects.keyed a
  sound := valid.kept.objects.sound a
  removed := valid.kept.objects.removed a
  pending := valid.kept.objects.pending a
  unfunded := valid.kept.objects.unfunded.deleted a

theorem Valid.of_slots (journal : s.journal = {}) (revisions : s.validRevisions = [])
    (size : s.logSize < 2 ^ 64) (slots : ∀ a, SlotOk a (s.slot a)) : Valid s where
  kept := by
    rw [journal]
    exact {
      objects := {
        keyed := fun a => (slots a).keyed
        sound := fun a => (slots a).sound
        removed := fun a => (slots a).removed
        anchored := trivial
        pending := fun a => (slots a).pending
        unfunded := ⟨fun a => (slots a).unfunded, by simp⟩ }
      counts := {
        counted := ⟨fun _ => 0, fun _ _ => rfl, fun a => by rw [journal]; rfl⟩
        undeleted := fun a o _ _ => by rw [journal]; rfl
        logged := by simp
        logSize := size } }
  ordered := by
    refine ⟨?_, ?_⟩ <;> simp [revisions]

omit [Crypto] in
theorem updateTrie_sound (sound : o.Sound) : o.updateTrie.Sound where
  origin := by
    intro key value found
    change (o.changed key).or (o.originStorage key) = some value at found
    change value = (o.changed key).getD (o.getTrie key)
    cases changed : o.changed key with
    | none => exact sound.origin key value (by simpa [changed] using found)
    | some written => simpa [changed, eq_comm] using found
  dirty := by simp [StateObject.updateTrie]

def AccountView.flush (view : AccountView) : Account where
  nonce := view.nonce
  balance := view.balance
  root := view.storage
  codeHash := view.codeHash

theorem updateTrie_root (codes : Hash → Option Bytes) (sound : o.Sound) :
    o.updateTrie.getTrie = (o.view codes).storage := by
  funext key
  change (o.changed key).getD (o.getTrie key) = (o.dirtyStorage key).getD ((o.originStorage key).getD (o.getTrie key))
  have origin : (o.originStorage key).getD (o.getTrie key) = o.getTrie key := by
    cases loaded : o.originStorage key with
    | none => rfl
    | some value => exact sound.origin key value loaded
  cases dirty : o.dirtyStorage key with
  | none => simp [StateObject.changed, dirty, origin]
  | some value =>
    obtain ⟨loaded, known⟩ := Option.isSome_iff_exists.mp (sound.dirty key (by simp [dirty]))
    have stored := sound.origin key loaded known
    by_cases same : value = loaded
    · simp [StateObject.changed, dirty, known, same, stored]
    · simp [StateObject.changed, dirty, known, same]

theorem updateRoot_data (codes : Hash → Option Bytes) (sound : o.Sound) :
    o.updateRoot.data = (o.view codes).flush := by
  have root := updateTrie_root codes sound
  simp only [StateObject.updateRoot, AccountView.flush, ← root]
  rfl

theorem committedObject_data (codes : Hash → Option Bytes) (sound : o.Sound) :
    (committedObject o).data = (o.view codes).flush := by
  have same : (committedObject o).data = o.updateRoot.data := by
    unfold committedObject
    split <;> rfl
  rw [same, updateRoot_data codes sound]

omit [Crypto] in
theorem committedObject_sound (sound : o.Sound) : (committedObject o).Sound := by
  have updated := updateTrie_sound sound
  unfold committedObject
  split <;> exact ⟨updated.origin, updated.dirty⟩

omit [Crypto] in
theorem committedObject_deleted (o : StateObject) : (committedObject o).deleted = o.deleted := by
  unfold committedObject
  split <;> rfl

theorem committedObject_empty (o : StateObject) : (committedObject o).empty = o.empty := by
  unfold committedObject
  split <;> rfl

theorem SlotOk.some (o : StateObject) (address : o.address = a) (sound : o.Sound)
    {account : Option Account}
    (removed : o.deleted = true → (o.suicided || o.empty) = true ∧ Unfunded account) (pending : Bool) :
    SlotOk a ⟨some o, account, pending⟩ where
  keyed := fun _ same => Option.some.inj same ▸ address
  sound := fun _ same => Option.some.inj same ▸ sound
  removed := fun _ same => Option.some.inj same ▸ fun deleted => (removed deleted).1
  pending := fun _ _ => rfl
  unfunded := fun _ same => Option.some.inj same ▸ fun deleted => (removed deleted).2

theorem SlotOk.deleted (address : o.address = a) (sound : o.Sound)
    (dead : (o.suicided || o.empty) = true) (pending : Bool) :
    SlotOk a ⟨Option.some { o with deleted := true }, none, pending⟩ :=
  .some { o with deleted := true } address ⟨sound.origin, sound.dirty⟩ (fun _ => ⟨dead, unfunded_none⟩) pending

theorem finaliseSlot_ok {slot : Slot} (ok : SlotOk a slot)
    (present : ∀ o, slot.object = some o → o.deleted = false) (deleteEmptyObjects : Bool) :
    SlotOk a (finaliseSlot deleteEmptyObjects slot) := by
  cases object : slot.object with
  | none =>
    have same : finaliseSlot deleteEmptyObjects slot = slot := by simp only [finaliseSlot, object]
    rwa [same]
  | some o =>
    have sound := ok.sound o object
    have address := ok.keyed o object
    simp only [finaliseSlot, object]
    split
    · next dead =>
        refine .deleted address sound ?_ true
        cases suicided : o.suicided <;> simp_all
    · have updated := updateTrie_sound sound
      have here : o.updateRoot.deleted = false := present o object
      exact .some o.updateRoot address ⟨updated.origin, updated.dirty⟩ (by simp [here]) true

theorem finaliseSlot_clean {slot : Slot} (clean : SlotClean slot)
    (present : ∀ o, slot.object = some o → o.deleted = false) (deleteEmptyObjects : Bool) :
    SlotClean (finaliseSlot deleteEmptyObjects slot) := by
  cases object : slot.object with
  | none =>
    have same : finaliseSlot deleteEmptyObjects slot = slot := by simp only [finaliseSlot, object]
    rwa [same]
  | some o =>
    simp only [finaliseSlot, object]
    split
    · exact fun _ _ _ => rfl
    · rintro _ ⟨⟩ deleted
      have here : o.updateRoot.deleted = false := present o object
      simp [here] at deleted

theorem commitSlot_ok {slot : Slot} (ok : SlotOk a slot) (deleteEmptyObjects : Bool) :
    SlotOk a (commitSlot deleteEmptyObjects slot) := by
  cases object : slot.object with
  | none =>
    have same : commitSlot deleteEmptyObjects slot = slot := by simp only [commitSlot, object]
    rwa [same]
  | some o =>
    have sound := ok.sound o object
    have address := ok.keyed o object
    have removed := ok.removed o object
    simp only [commitSlot, object]
    split
    · next dead =>
        refine .deleted address sound ?_ false
        cases suicided : o.suicided <;> simp_all
    · next alive =>
        split
        · refine .some _ ((committedObject_address o).trans address) (committedObject_sound sound) ?_ false
          intro deleted
          rw [committedObject_deleted] at deleted
          have dead := removed deleted
          -- a deleted object that is written back is an empty one
          have empty : o.empty = true := by
            cases suicided : o.suicided <;> simp_all
          refine ⟨by rw [committedObject_empty, empty, Bool.or_true], ?_⟩
          rintro _ ⟨⟩
          rw [committedObject_data (fun _ => none) sound]
          simp only [StateObject.empty, Bool.and_eq_true, beq_iff_eq] at empty
          exact empty.1.2
        · exact .some o address sound (fun deleted => ⟨removed deleted, ok.unfunded o object deleted⟩) false

def SlotSettled (deleteEmptyObjects : Bool) (slot : Slot) : Prop :=
  ∀ o, slot.object = some o → o.deleted = true → o.suicided = false → slot.pending = true → deleteEmptyObjects = true

theorem commitSlot_clean {slot : Slot} (ok : SlotOk a slot) (clean : SlotClean slot)
    (deleteEmptyObjects : Bool) (settled : SlotSettled deleteEmptyObjects slot) :
    SlotClean (commitSlot deleteEmptyObjects slot) := by
  cases object : slot.object with
  | none =>
    have same : commitSlot deleteEmptyObjects slot = slot := by simp only [commitSlot, object]
    rwa [same]
  | some o =>
    simp only [commitSlot, object]
    split
    · exact fun _ _ _ => rfl
    · next alive =>
        split
        · next pending =>
            rintro _ ⟨⟩ deleted
            rw [committedObject_deleted] at deleted
            have removed := ok.removed o object deleted
            have writes := settled o object deleted
            cases suicided : o.suicided <;> simp_all
        · rintro _ ⟨⟩ deleted
          exact clean o object deleted

theorem Valid.present_of_dirty (valid : Valid s)
    (dirty : (s.journal.dirties.lookup a).isSome) : ∀ o, (s.slot a).object = some o → o.deleted = false := by
  intro o live
  cases deleted : o.deleted with
  | false => rfl
  | true =>
    rw [valid.kept.counts.undeleted a o live deleted] at dirty
    simp at dirty

omit [Crypto] in
theorem Clean.slot (clean : Clean s) (a : Address) : SlotClean (s.slot a) := clean.deleted a

omit [Crypto] in
theorem Clean.of_slots (journal : s.journal = {}) (slots : ∀ a, SlotClean (s.slot a)) : Clean s := by
  refine ⟨fun a => slots a, ?_⟩
  simp [journal]

theorem finalise_valid (valid : Valid s) (deleteEmptyObjects : Bool) :
    Valid (s.finalise deleteEmptyObjects) := by
  refine .of_slots rfl rfl (finalise_logSize valid deleteEmptyObjects ▸ valid.kept.counts.logSize) fun a => ?_
  rw [finalise_slot valid]
  split
  · next dirty => exact finaliseSlot_ok (valid.slotOk a) (valid.present_of_dirty dirty) deleteEmptyObjects
  · exact valid.slotOk a

theorem finalise_clean (valid : Valid s) (clean : Clean s) (deleteEmptyObjects : Bool) :
    Clean (s.finalise deleteEmptyObjects) := by
  refine .of_slots rfl fun a => ?_
  rw [finalise_slot valid]
  split
  · next dirty => exact finaliseSlot_clean (clean.slot a) (valid.present_of_dirty dirty) deleteEmptyObjects
  · exact clean.slot a

omit [Crypto] in
theorem JournalEntry.Revertible.live {entry : JournalEntry} {caches : Caches} (revertible : entry.Revertible caches)
    (dirtied : entry.dirtied = some a) : (caches a).isSome := by
  cases entry with
  | resetObjectChange prev => simp [JournalEntry.dirtied] at dirtied
  | storageChange b key prevalue =>
    obtain rfl := Option.some.inj dirtied
    obtain ⟨keys, cached, _⟩ := revertible
    simp [cached]
  | _ => exact revertible a dirtied

omit [Crypto] in
theorem JournalEntry.Revertible.live_before {entry : JournalEntry} {caches : Caches}
    (revertible : entry.Revertible caches) (live : (entry.before caches a).isSome) :
    (caches a).isSome := by
  cases entry with
  | createObjectChange b =>
    by_cases same : a = b
    · subst same
      simp [before] at live
    · simpa [before, same] using live
  | resetObjectChange prev =>
    by_cases same : a = prev.address
    · subst same
      exact revertible.1
    · simpa [before, same] using live
  | _ => exact live

omit [Crypto] in
theorem changes_live {entries : List JournalEntry} {caches : Caches} (anchored : Anchored entries caches)
    (changed : changes entries a ≠ 0) : (caches a).isSome := by
  induction entries generalizing caches with
  | nil => simp [changes] at changed
  | cons entry rest ih =>
    obtain ⟨revertible, anchored⟩ := anchored
    by_cases own : entry.dirtied = some a
    · exact revertible.live own
    · refine revertible.live_before (ih anchored ?_)
      rwa [changes_cons, if_neg own, Nat.add_zero] at changed

theorem Valid.live_of_dirty (valid : Valid s) (other : a ≠ ripemd)
    (dirty : (s.journal.dirties.lookup a).isSome) : (s.live a).isSome := by
  obtain ⟨extra, others, counts⟩ := valid.kept.counts.counted
  have changed : changes s.journal.entries a ≠ 0 := by
    intro zero
    rw [counts, zero, others a other] at dirty
    simp [tally] at dirty
  obtain ⟨o, live, _⟩ := StateDB.live_of_isSome (changes_live valid.kept.objects.anchored changed)
  simp [live]

theorem Valid.markedOk (valid : Valid s) (a : Address) : SlotOk a (s.markDirties.slot a) where
  keyed := (valid.slotOk a).keyed
  sound := (valid.slotOk a).sound
  removed := (valid.slotOk a).removed
  pending := by
    intro other dirty
    simp only [StateDB.slot, markDirties_mem, Bool.or_eq_true] at dirty
    rcases dirty with pending | dirty
    · exact valid.kept.objects.pending a other pending
    · exact valid.live_of_dirty other dirty
  unfunded := (valid.slotOk a).unfunded

theorem commit_valid (valid : Valid s) (deleteEmptyObjects : Bool) :
    Valid (s.commit deleteEmptyObjects) := by
  refine .of_slots rfl rfl (commit_logSize valid deleteEmptyObjects ▸ valid.kept.counts.logSize) fun a => ?_
  rw [commit_slot valid]
  exact commitSlot_ok (valid.markedOk a) deleteEmptyObjects

-- No object that was deleted as empty waits to be written, or empty objects are deleted again.
def Settled (deleteEmptyObjects : Bool) (s : StateDB) : Prop :=
  ∀ a o, s.live a = some o → o.deleted = true → o.suicided = false → s.stateObjectsDirty a = true →
    deleteEmptyObjects = true

theorem Settled.slot (valid : Valid s) {deleteEmptyObjects : Bool}
    (settled : Settled deleteEmptyObjects s) (a : Address) :
    SlotSettled deleteEmptyObjects (s.markDirties.slot a) := by
  intro o live deleted alive pending
  have clean := valid.kept.counts.undeleted a o live deleted
  simp only [StateDB.slot, markDirties_mem, clean, Option.isSome_none, Bool.or_false] at pending
  exact settled a o live deleted alive pending

theorem commit_clean (valid : Valid s) (clean : Clean s) {deleteEmptyObjects : Bool}
    (settled : Settled deleteEmptyObjects s) : Clean (s.commit deleteEmptyObjects) := by
  refine .of_slots rfl fun a => ?_
  rw [commit_slot valid]
  exact commitSlot_clean (valid.markedOk a) (clean.slot a) deleteEmptyObjects (settled.slot valid a)

def finalisedAccount (deleteEmptyObjects : Bool) (view : AccountView) : Option Account :=
  if view.suicided || (deleteEmptyObjects && view.empty) then none else some view.flush

theorem finalise_trie (valid : Valid s) (deleteEmptyObjects : Bool) (other : a ≠ ripemd) :
    (s.finalise deleteEmptyObjects).trie a =
      if (s.journal.dirties.lookup a).isSome then (s.world.accounts a).bind (finalisedAccount deleteEmptyObjects)
      else s.trie a := by
  change ((s.finalise deleteEmptyObjects).slot a).account = _
  rw [finalise_slot valid]
  split
  · next dirty =>
      obtain ⟨o, live⟩ := Option.isSome_iff_exists.mp (valid.live_of_dirty other dirty)
      have present := valid.present_of_dirty dirty o live
      have flushed := updateRoot_data s.codes (valid.kept.objects.sound a o live)
      rw [StateDB.accounts_of_live live present]
      simp only [finaliseSlot, StateDB.slot, live, Option.bind_some, finalisedAccount, StateObject.view_empty,
        ← flushed]
      change (if (o.suicided || deleteEmptyObjects && o.empty) = true then _ else _ : Slot).account =
        if (o.suicided || deleteEmptyObjects && o.empty) = true then none else _
      split <;> rfl
  · rfl

theorem commitSlot_deleted (deleteEmptyObjects : Bool) {slot : Slot} (object : slot.object = some o)
    (deleted : o.deleted = true) :
    ∃ o', (commitSlot deleteEmptyObjects slot).object = some o' ∧ o'.deleted = true := by
  simp only [commitSlot, object]
  split
  · exact ⟨_, rfl, rfl⟩
  · split
    · exact ⟨_, rfl, by rw [committedObject_deleted, deleted]⟩
    · exact ⟨_, rfl, deleted⟩

def committedAccount (deleteEmptyObjects dirty : Bool) (view : AccountView) (account : Option Account) :
    Option Account :=
  if view.suicided || (dirty && deleteEmptyObjects && view.empty) then none
  else if dirty then some view.flush
  else account

theorem commit_trie (valid : Valid s) (clean : Clean s) {deleteEmptyObjects : Bool}
    (settled : Settled deleteEmptyObjects s) (other : a ≠ ripemd) :
    (s.commit deleteEmptyObjects).trie a =
      (s.world.accounts a).bind fun view =>
        committedAccount deleteEmptyObjects (s.world.pending a || (s.journal.dirties.lookup a).isSome) view
          (s.trie a) := by
  change ((s.commit deleteEmptyObjects).slot a).account = _
  rw [commit_slot valid]
  cases live : s.live a with
  | none =>
    -- an account that is not live is not dirty either
    have idle : s.stateObjectsDirty a = false := by
      cases pending : s.stateObjectsDirty a with
      | false => rfl
      | true => simpa [live] using valid.kept.objects.pending a other pending
    have unchanged : (s.journal.dirties.lookup a).isSome = false := by
      cases dirty : (s.journal.dirties.lookup a).isSome with
      | false => rfl
      | true => simpa [live] using valid.live_of_dirty other dirty
    have object : (s.markDirties.slot a).object = none := live
    have account : (s.markDirties.slot a).account = s.trie a := rfl
    simp only [commitSlot, object, account, StateDB.world, StateDB.lookup_of_absent live, idle, unchanged,
      Bool.false_and, Bool.or_false]
    cases s.trie a <;> rfl
  | some o =>
    have object : (s.markDirties.slot a).object = some o := live
    have pending : (s.markDirties.slot a).pending =
        (s.stateObjectsDirty a || (s.journal.dirties.lookup a).isSome) := markDirties_mem s a
    have sound := valid.kept.objects.sound a o live
    cases deleted : o.deleted with
    | false =>
      have flushed := committedObject_data s.codes sound
      rw [StateDB.accounts_of_live live deleted]
      simp only [commitSlot, object, pending, Option.bind_some, committedAccount, StateObject.view_empty,
        ← flushed, StateDB.world, StateDB.lookup_of_live live deleted, Option.isSome_some, Bool.and_true]
      have suicided : (o.view s.codes).suicided = o.suicided := rfl
      rw [suicided]
      split
      · rfl
      · split <;> rfl
    | true =>
      have missing : s.world.accounts a = none := by
        simp [StateDB.world, StateDB.lookup_of_deleted live deleted]
      have cleaned := commitSlot_clean (valid.markedOk a) (clean.slot a) deleteEmptyObjects (settled.slot valid a)
      obtain ⟨o', object', deleted'⟩ := commitSlot_deleted deleteEmptyObjects object deleted
      rw [missing, Option.bind_none, cleaned o' object' deleted']

end Slots

end CuteEVM
