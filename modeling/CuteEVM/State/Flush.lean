import CuteEVM.State.Codes

set_option autoImplicit false

-- Between two calls of `Finalise` or `Commit` only accounts with entries in the journal change.

namespace CuteEVM

variable [Crypto]

variable {a : Address} {o : StateObject}

def StateDB.stored (s : StateDB) (a : Address) : Option AccountView :=
  (s.trie a).map fun data => (newObject a data).view s.codes

theorem stored_new (s : StateDB) (a : Address) : (StateDB.new s.trie s.codes).world.accounts a = s.stored a := by
  have absent : (StateDB.new s.trie s.codes).live a = none := rfl
  simp only [StateDB.world, StateDB.lookup_of_absent absent, StateDB.stored, Option.map_map]
  rfl

theorem accounts_of_absent {s : StateDB} (absent : s.live a = none) : s.world.accounts a = s.stored a := by
  simp only [StateDB.world, StateDB.lookup_of_absent absent, StateDB.stored, Option.map_map]
  rfl

def Synced (s : StateDB) : Prop := ∀ a, s.trie a = (s.world.accounts a).map AccountView.flush

theorem stored_flush (s : StateDB) (a : Address) : (s.stored a).map AccountView.flush = s.trie a := by
  simp only [StateDB.stored, Option.map_map]
  cases s.trie a <;> rfl

section Untouched

def JournalEntry.about : JournalEntry → Option Address
  | .resetObjectChange prev => some prev.address
  | entry => entry.dirtied

theorem undoWorld_other {entry : JournalEntry} (other : entry.about ≠ some a)
    (trie : Address → Option Account) (codes : Hash → Option Bytes) (world : World) :
    (entry.undoWorld trie codes world).accounts a = world.accounts a ∧
      (entry.undoWorld trie codes world).pending a = world.pending a := by
  have away : ∀ b, entry.about = some b → a ≠ b := by
    rintro b own rfl
    exact other own
  cases entry with
  | createObjectChange b =>
    have different := away b rfl
    exact ⟨Function.update_of_ne different .., Function.update_of_ne different ..⟩
  | resetObjectChange prev => exact ⟨Function.update_of_ne (away prev.address rfl) .., rfl⟩
  | suicideChange b _ _ | balanceChange b _ | nonceChange b _ | storageChange b _ _ | codeChange b _ _ =>
    exact ⟨Function.update_of_ne (away b rfl) .., rfl⟩
  | refundChange _ | addLogChange _ | addPreimageChange _ | touchChange _ => exact ⟨rfl, rfl⟩

theorem undoAll_other {entries : List JournalEntry} (others : ∀ entry ∈ entries, entry.about ≠ some a)
    (trie : Address → Option Account) (codes : Hash → Option Bytes) (world : World) :
    (UndoLog.undoAll (JournalEntry.undoWorld trie codes) entries world).accounts a = world.accounts a ∧
      (UndoLog.undoAll (JournalEntry.undoWorld trie codes) entries world).pending a = world.pending a := by
  induction entries generalizing world with
  | nil => exact ⟨rfl, rfl⟩
  | cons entry rest ih =>
    obtain ⟨accounts, pending⟩ := undoWorld_other (others entry List.mem_cons_self) trie codes world
    obtain ⟨accounts', pending'⟩ := ih (fun entry member => others entry (List.mem_cons_of_mem _ member))
      (entry.undoWorld trie codes world)
    exact ⟨accounts'.trans accounts, pending'.trans pending⟩

theorem unmarked_dirtied {s : StateDB} (valid : Valid s) (unmarked : s.marked a = false) :
    ∀ entry ∈ s.journal.entries, entry.dirtied ≠ some a := by
  intro entry member dirtied
  obtain ⟨extra, -, counts⟩ := valid.kept.counts.counted
  have positive : changes s.journal.entries a ≠ 0 :=
    Nat.ne_of_gt (List.countP_pos_iff.mpr ⟨entry, member, by simp [dirtied]⟩)
  have counted := counts a
  rw [StateDB.marked, Option.isSome_eq_false_iff, Option.isNone_iff_eq_none] at unmarked
  rw [unmarked, tally, if_neg (by omega)] at counted
  cases counted

theorem Evolves.untouched {base s : StateDB} (evolves : Evolves base s) (clean : Clean base)
    (start : base.journal.entries = []) (unmarked : s.marked a = false)
    (kept : ∀ prev, .resetObjectChange prev ∈ s.journal.entries → prev.address ≠ a) :
    s.world.accounts a = base.world.accounts a ∧ s.world.pending a = base.world.pending a := by
  obtain ⟨new, entries, -, world⟩ := evolves.history
  rw [start, List.append_nil] at entries
  rw [← world.eq_of_clean clean, ← entries]
  have others : ∀ entry ∈ s.journal.entries, entry.about ≠ some a := by
    intro entry member own
    have dirtied := unmarked_dirtied evolves.valid unmarked entry member
    cases entry with
    | resetObjectChange prev => exact kept prev member (Option.some.inj own)
    | _ => exact dirtied own
  obtain ⟨accounts, pending⟩ := undoAll_other others base.trie base.codes s.world
  exact ⟨accounts.symm, pending.symm⟩

end Untouched

section Flushed

theorem updateRoot_view (codes : Hash → Option Bytes) (sound : o.Sound) :
    o.updateRoot.view codes = { o.view codes with committed := (o.view codes).storage } := by
  have root := updateTrie_root codes sound
  have slots : ∀ key, ((o.changed key).or (o.originStorage key)).getD (o.updateTrie.getTrie key) = (o.view codes).storage key := by
    intro key
    rw [← root]
    cases changed : o.changed key with
    | some value => simp [StateObject.updateTrie, StateObject.getTrie, changed]
    | none =>
      cases loaded : o.originStorage key with
      | none => rfl
      | some value =>
        have stored := sound.origin key value loaded
        simpa [StateObject.updateTrie, StateObject.getTrie, changed] using stored
  simp only [StateObject.view, AccountView.mk.injEq]
  refine ⟨rfl, rfl, rfl, rfl, funext slots, funext slots, rfl⟩

theorem committedObject_view (codes : Hash → Option Bytes) (sound : o.Sound) :
    (committedObject o).view codes = { o.view codes with committed := (o.view codes).storage } := by
  rw [← updateRoot_view codes sound]
  unfold committedObject
  split <;> rfl

theorem accounts_slot {s s' : StateDB} (slot : s'.slot a = s.slot a) (codes : s'.codes = s.codes) :
    s'.world.accounts a = s.world.accounts a ∧ s'.stored a = s.stored a := by
  simp only [StateDB.slot, Slot.mk.injEq] at slot
  obtain ⟨live, trie, -⟩ := slot
  simp only [StateDB.world, StateDB.lookup, StateDB.stored, live, trie, codes, and_self]

theorem accounts_of_slot {s : StateDB} {account : Option Account} {pending : Bool}
    (slot : s.slot a = ⟨some o, account, pending⟩) (present : o.deleted = false) :
    s.world.accounts a = some (o.view s.codes) ∧ s.trie a = account := by
  simp only [StateDB.slot, Slot.mk.injEq] at slot
  exact ⟨StateDB.accounts_of_live slot.1 present, slot.2.1⟩

theorem accounts_of_removed {s : StateDB} {account : Option Account} {pending : Bool}
    (slot : s.slot a = ⟨some o, account, pending⟩) (deleted : o.deleted = true) :
    s.world.accounts a = none ∧ s.trie a = account := by
  simp only [StateDB.slot, Slot.mk.injEq] at slot
  exact ⟨by simp only [StateDB.world, StateDB.lookup_of_deleted slot.1 deleted, Option.map_none], slot.2.1⟩

end Flushed

section Bases

-- A state without a journal, in which every account that is not dirty shows what the trie holds.
structure Base (known : Set Bytes) (s : StateDB) : Prop where
  valid : Valid s
  clean : Clean s
  entries : s.journal.entries = []
  unmarked : ∀ a, s.marked a = false
  revisions : s.validRevisions = []
  coded : Coded known [] s
  settled : ∀ a, s.stateObjectsDirty a = false → s.world.accounts a = s.stored a

structure Since (known : Set Bytes) (base s : StateDB) : Prop where
  start : Base known base
  evolves : Evolves base s
  coded : Coded known s.journal.entries s

-- Every account that `CreateAccount` has put in place of another one is dirty.
def ResetsCarried (s : StateDB) : Prop :=
  ∀ prev, .resetObjectChange prev ∈ s.journal.entries → s.carried prev.address = true

variable {known : Set Bytes} {base s s' : StateDB}

theorem Base.since (base : Base known s) : Since known s s :=
  ⟨base, .refl base.valid, by rw [base.entries]; exact base.coded⟩

theorem Since.clean (since : Since known base s) : Clean s := since.evolves.clean since.start.clean

theorem Since.step (since : Since known base s) {op : Op} (plain : op.ends = false) (familiar : op.Familiar known)
    (result : op.apply s = .ok s') : Since known base s' := by
  have valid := since.evolves.valid
  refine ⟨since.start, ?_, ?_⟩
  · rcases Op.step valid plain result with next | ⟨older, r, newer, upper, split, rfl, -⟩
    · exact since.evolves.trans next
    · -- the base has no revisions, so every revision is a later one
      obtain ⟨more, revisions, later⟩ := since.evolves.revisions
      rw [since.start.revisions, List.nil_append] at revisions
      have recent := (later r (by rw [← revisions, split]; simp)).1
      obtain ⟨t, reverted, evolves, -⟩ := since.evolves.revert since.start.valid split recent
      obtain rfl := Except.ok.inj (result.symm.trans reverted)
      exact evolves
  · cases forward : op.forward with
    | true => exact (Op.edits valid forward familiar result).coded since.coded
    | false =>
      cases op <;> simp [Op.forward, Op.ends] at forward plain
      exact revertToSnapshot_coded since.coded result

theorem Since.settled (since : Since known base s) (resets : ResetsCarried s) (idle : s.carried a = false) :
    s.world.accounts a = s.stored a := by
  rw [StateDB.carried, Bool.or_eq_false_iff] at idle
  have kept : ∀ prev, .resetObjectChange prev ∈ s.journal.entries → prev.address ≠ a := by
    rintro prev member rfl
    have carried := resets prev member
    simp [StateDB.carried, idle] at carried
  obtain ⟨accounts, pending⟩ := since.evolves.untouched since.start.clean since.start.entries idle.1 kept
  have stored : s.stored a = base.stored a := by
    simp only [StateDB.stored, since.evolves.trie, since.evolves.codes]
  rw [accounts, stored]
  cases dirty : base.stateObjectsDirty a with
  | false => exact since.start.settled a dirty
  | true =>
    -- the mark is gone, so there was no account that it was about
    have missing : base.lookup a = none := by
      simpa [StateDB.world, idle, dirty] using pending.symm
    have absent : base.trie a = none := Vacant.of_lookup since.start.clean rfl missing
    simp [StateDB.world, StateDB.stored, missing, absent]

theorem new_base (trie : Address → Option Account) {codes : Hash → Option Bytes}
    (store : ∀ hash code, codes hash = some code → code ∈ known ∧ keccak256 code = hash) :
    Base known (StateDB.new trie codes) where
  valid := new_valid trie codes
  clean := new_clean trie codes
  entries := rfl
  unmarked := fun _ => rfl
  revisions := rfl
  coded := ⟨store, nofun, nofun⟩
  settled := fun _ _ => accounts_of_absent rfl

theorem reset_base (coded : Coded known s.journal.entries s) (trie : Address → Option Account) : Base known (s.reset trie) where
  valid := reset_valid s trie
  clean := reset_clean s trie
  entries := rfl
  unmarked := fun _ => rfl
  revisions := rfl
  coded := ⟨coded.store, nofun, nofun⟩
  settled := fun _ _ => accounts_of_absent rfl

def AccountView.finalised (deleteEmptyObjects : Bool) (view : AccountView) : Option AccountView :=
  if view.suicided || (deleteEmptyObjects && view.empty) then none else some { view with committed := view.storage }

theorem finalise_marked (valid : Valid s) (deleteEmptyObjects : Bool) (marked : s.marked a = true)
    (live : s.live a = some o) :
    (s.finalise deleteEmptyObjects).world.accounts a = (o.view s.codes).finalised deleteEmptyObjects ∧
      (s.finalise deleteEmptyObjects).trie a = ((o.view s.codes).finalised deleteEmptyObjects).map AccountView.flush ∧
      (s.finalise deleteEmptyObjects).stateObjectsDirty a = true := by
  have slot := finalise_slot valid deleteEmptyObjects a
  have object : (s.slot a).object = some o := live
  have present := valid.present_of_dirty marked o live
  have sound := valid.kept.objects.sound a o live
  have codes := finalise_codes s deleteEmptyObjects
  rw [if_pos (show (s.journal.dirties.lookup a).isSome = true from marked)] at slot
  simp only [finaliseSlot, object] at slot
  have dead : ((o.view s.codes).suicided || deleteEmptyObjects && (o.view s.codes).empty) =
      (o.suicided || deleteEmptyObjects && o.empty) := rfl
  unfold AccountView.finalised
  rw [dead]
  split
  · next removed =>
      rw [if_pos removed] at slot
      obtain ⟨accounts, trie⟩ := accounts_of_removed slot rfl
      exact ⟨accounts, trie, congrArg Slot.pending slot⟩
  · next stays =>
      rw [if_neg stays] at slot
      obtain ⟨accounts, trie⟩ := accounts_of_slot slot present
      rw [codes, updateRoot_view s.codes sound] at accounts
      refine ⟨accounts, ?_, congrArg Slot.pending slot⟩
      rw [trie, updateRoot_data s.codes sound]
      rfl

theorem finalise_idle (valid : Valid s) (deleteEmptyObjects : Bool)
    (idle : s.marked a = false ∨ s.live a = none) :
    (s.finalise deleteEmptyObjects).world.accounts a = s.world.accounts a ∧
      (s.finalise deleteEmptyObjects).stored a = s.stored a ∧
      (s.finalise deleteEmptyObjects).stateObjectsDirty a = s.stateObjectsDirty a := by
  have same : (s.finalise deleteEmptyObjects).slot a = s.slot a := by
    rw [finalise_slot valid]
    rcases idle with unmarked | absent
    · rw [if_neg (by simpa [StateDB.marked] using unmarked)]
    · have object : (s.slot a).object = none := absent
      simp only [finaliseSlot, object, ite_self]
  obtain ⟨accounts, stored⟩ := accounts_slot same (finalise_codes s deleteEmptyObjects)
  exact ⟨accounts, stored, congrArg Slot.pending same⟩

theorem finalise_base (since : Since known base s) (resets : ResetsCarried s) (deleteEmptyObjects : Bool) :
    Base known (s.finalise deleteEmptyObjects) := by
  have valid := since.evolves.valid
  refine ⟨finalise_valid valid _, finalise_clean valid since.clean _, rfl, fun _ => rfl, rfl,
    finalise_coded valid since.coded _, fun a idle => ?_⟩
  cases live : s.live a with
  | none =>
    obtain ⟨accounts, stored, -⟩ := finalise_idle valid deleteEmptyObjects (.inr live)
    rw [accounts, stored]
    exact accounts_of_absent live
  | some o =>
    cases marked : s.marked a with
    | true =>
      have dirty := (finalise_marked valid deleteEmptyObjects marked live).2.2
      rw [idle] at dirty
      cases dirty
    | false =>
      obtain ⟨accounts, stored, dirty⟩ := finalise_idle valid deleteEmptyObjects (.inl marked)
      rw [accounts, stored]
      refine since.settled resets ?_
      rw [StateDB.carried, marked, ← dirty, idle]
      rfl

omit [Crypto] in
theorem carried_markDirties (s : StateDB) (a : Address) : s.markDirties.stateObjectsDirty a = s.carried a := by
  rw [markDirties_mem, StateDB.carried, Bool.or_comm]
  rfl

theorem coded_resolve (apart : Apart known) {codes : Hash → Option Bytes} (held : o.Coded known codes)
    (clean : o.code ≠ [] → o.dirtyCode = false) :
    resolveCode codes o.code o.data.codeHash = resolveCode codes [] o.data.codeHash := by
  by_cases cached : o.code = []
  · rw [cached]
  · obtain ⟨member, hashed, stored⟩ := held cached
    have nonempty : o.data.codeHash ≠ emptyCodeHash := by
      intro same
      exact cached (apart.injective o.code member [] apart.empty (hashed.trans same))
    simp [resolveCode, cached, nonempty, stored (clean cached)]

omit [Crypto] in
theorem committedObject_dirtyCode (o : StateObject) (held : (committedObject o).code ≠ []) :
    (committedObject o).dirtyCode = false := by
  unfold committedObject at held ⊢
  split
  · rfl
  · next clean =>
      rw [if_neg clean] at held
      have code : o.code ≠ [] := held
      have same : o.dirtyCode = false := by simpa [code] using clean
      exact same

theorem view_grown {codes codes' : Hash → Option Bytes} (grown : Grown codes codes') {data : Account}
    (same : o.view codes = (newObject a data).view codes) : o.view codes' = (newObject a data).view codes' := by
  have fields := same
  simp only [StateObject.view, AccountView.mk.injEq] at fields
  obtain ⟨nonce, balance, codeHash, code, storage, committed, suicided⟩ := fields
  simp only [StateObject.view, AccountView.mk.injEq]
  refine ⟨nonce, balance, codeHash, ?_, storage, committed, suicided⟩
  have empty : (newObject a data).code = [] := rfl
  rw [empty, codeHash] at code ⊢
  by_cases cached : o.code = []
  · rw [cached]
  · -- a cached code was resolved from the store, so the store has it
    have found : resolveCode codes [] (newObject a data).data.codeHash = o.code := by
      rw [← code]
      simp [resolveCode, cached]
    simp only [resolveCode, cached, ne_eq, not_true_eq_false, not_false_eq_true, if_true, if_false] at found ⊢
    split at found
    · exact absurd found.symm cached
    · next nonempty =>
        rw [if_neg nonempty]
        cases stored : codes (newObject a data).data.codeHash with
        | none =>
          rw [stored] at found
          exact absurd found.symm cached
        | some value =>
          rw [stored] at found
          rw [grown _ _ stored]
          exact found.symm

theorem commit_settled (since : Since known base s) (resets : ResetsCarried s) (apart : Apart known) {deleteEmptyObjects : Bool}
    (settled : Settled deleteEmptyObjects s) (a : Address) :
    (s.commit deleteEmptyObjects).world.accounts a = (s.commit deleteEmptyObjects).stored a := by
  have valid := since.evolves.valid
  have slot := commit_slot valid deleteEmptyObjects a
  obtain ⟨coded, grown⟩ := commit_coded apart since.coded deleteEmptyObjects
  have removed : ∀ {o account pending}, (s.commit deleteEmptyObjects).slot a = ⟨some o, account, pending⟩ → o.deleted = true →
      (s.commit deleteEmptyObjects).world.accounts a = (s.commit deleteEmptyObjects).stored a := by
    intro o account pending slot deleted
    obtain ⟨accounts, -⟩ := accounts_of_removed slot deleted
    have absent := (commit_clean valid since.clean settled).deleted a o (congrArg Slot.object slot) deleted
    rw [accounts, StateDB.stored, absent]
    rfl
  cases live : s.live a with
  | none =>
    have object : (s.markDirties.slot a).object = none := live
    simp only [commitSlot, object] at slot
    exact accounts_of_absent (congrArg Slot.object slot |>.trans object)
  | some o =>
    have object : (s.markDirties.slot a).object = some o := live
    have pending : (s.markDirties.slot a).pending = s.carried a := carried_markDirties s a
    have sound := valid.kept.objects.sound a o live
    simp only [commitSlot, object, pending] at slot
    split at slot
    · exact removed slot rfl
    · next stays =>
        have alive : o.suicided = false := by
          cases suicided : o.suicided <;> simp_all
        split at slot
        · cases deleted : o.deleted with
          | true => exact removed slot (by rw [committedObject_deleted, deleted])
          | false =>
            obtain ⟨accounts, trie⟩ := accounts_of_slot slot (by rw [committedObject_deleted, deleted])
            have held := coded.live a (committedObject o) (congrArg Slot.object slot)
            have resolved := coded_resolve apart held (committedObject_dirtyCode o)
            rw [accounts, StateDB.stored, trie, Option.map_some]
            have root := committedObject_data s.codes sound
            have view := committedObject_view (s.commit deleteEmptyObjects).codes sound
            refine congrArg some ?_
            have code : ((committedObject o).view (s.commit deleteEmptyObjects).codes).code =
                ((newObject a (committedObject o).data).view (s.commit deleteEmptyObjects).codes).code := resolved
            rw [view] at code ⊢
            rw [root] at code ⊢
            simp only [StateObject.view, AccountView.mk.injEq] at code ⊢
            exact ⟨rfl, rfl, rfl, code, rfl, rfl, alive⟩
        · next idle =>
            cases deleted : o.deleted with
            | true => exact removed slot deleted
            | false =>
              obtain ⟨accounts, trie⟩ := accounts_of_slot slot deleted
              have same := since.settled resets (Bool.eq_false_iff.mpr idle)
              rw [StateDB.accounts_of_live live deleted, StateDB.stored] at same
              have stored : (s.markDirties.slot a).account = s.trie a := rfl
              rw [accounts, StateDB.stored, trie, stored]
              cases account : s.trie a with
              | none => simp [account] at same
              | some data =>
                simp only [account, Option.map_some, Option.some.injEq] at same ⊢
                exact view_grown grown same

theorem commit_base (since : Since known base s) (resets : ResetsCarried s) (apart : Apart known) {deleteEmptyObjects : Bool}
    (settled : Settled deleteEmptyObjects s) : Base known (s.commit deleteEmptyObjects) where
  valid := commit_valid since.evolves.valid _
  clean := commit_clean since.evolves.valid since.clean settled
  entries := rfl
  unmarked := fun _ => rfl
  revisions := rfl
  coded := (commit_coded apart since.coded deleteEmptyObjects).1
  settled := fun a _ => commit_settled since resets apart settled a

theorem copy_base {c : StateDB} (since : Since known base s) (result : s.copy = .ok c) : Base known c := by
  have copying := copy_copying result
  have journal : c.journal = {} := by rw [copying.rest]; rfl
  refine ⟨copy_valid since.evolves.valid result, .of_slots journal fun a => ?_, by rw [journal], fun a => ?_,
    by rw [copying.rest]; rfl, copy_coded since.coded result, fun a idle => ?_⟩
  · rw [copying.slot]
    exact fun o live deleted => since.clean.deleted a o (copying.live_of live) deleted
  · rw [StateDB.marked, journal]
    rfl
  · rw [copying.dirty] at idle
    exact accounts_of_absent (by simpa using idle)

end Bases

end CuteEVM
