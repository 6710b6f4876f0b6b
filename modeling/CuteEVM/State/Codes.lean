import CuteEVM.State.Copy

set_option autoImplicit false

-- The code that an object holds is the one its hash stands for, and the database has it once it is written.

namespace CuteEVM

variable [Crypto]

-- The codes that occur are told apart by their hashes.
structure Apart (known : Set Bytes) : Prop where
  empty : [] ∈ known
  injective : ∀ code ∈ known, ∀ code' ∈ known, keccak256 code = keccak256 code' → code = code'

def StateObject.Coded (known : Set Bytes) (codes : Hash → Option Bytes) (o : StateObject) : Prop :=
  o.code ≠ [] → o.code ∈ known ∧ keccak256 o.code = o.data.codeHash ∧
    (o.dirtyCode = false → codes o.data.codeHash = some o.code)

def JournalEntry.Coded (known : Set Bytes) (codes : Hash → Option Bytes) : JournalEntry → Prop
  | .resetObjectChange prev => prev.Coded known codes
  | .codeChange _ prevcode prevhash => prevcode ≠ [] → prevcode ∈ known ∧ keccak256 prevcode = prevhash
  | _ => True

structure Coded (known : Set Bytes) (entries : List JournalEntry) (s : StateDB) : Prop where
  store : ∀ hash code, s.codes hash = some code → code ∈ known ∧ keccak256 code = hash
  live : ∀ a o, s.live a = some o → o.Coded known s.codes
  journal : ∀ entry ∈ entries, entry.Coded known s.codes

section Objects

variable {known : Set Bytes} {codes : Hash → Option Bytes} {o : StateObject}

theorem newObject_coded (a : Address) (data : Account) : (newObject a data).Coded known codes := fun held => absurd rfl held

theorem loadCode_coded (store : ∀ hash code, codes hash = some code → code ∈ known ∧ keccak256 code = hash)
    (coded : o.Coded known codes) : (o.loadCode codes).2.Coded known codes := by
  unfold StateObject.loadCode
  split
  · exact coded
  · split
    · exact coded
    · intro held
      cases stored : codes o.data.codeHash with
      | none => simp [stored] at held
      | some code =>
        simp only [Option.getD_some]
        exact ⟨(store _ _ stored).1, (store _ _ stored).2, fun _ => trivial⟩

theorem getCommittedState_coded (coded : o.Coded known codes) (key : Hash) :
    (o.getCommittedState key).2.Coded known codes := by
  unfold StateObject.getCommittedState
  split <;> exact coded

theorem getState_coded (coded : o.Coded known codes) (key : Hash) : (o.getState key).2.Coded known codes := by
  unfold StateObject.getState
  split
  · exact coded
  · exact getCommittedState_coded coded key

theorem loadCode_value (store : ∀ hash code, codes hash = some code → code ∈ known ∧ keccak256 code = hash)
    (coded : o.Coded known codes) (held : (o.loadCode codes).1 ≠ []) :
    (o.loadCode codes).1 ∈ known ∧ keccak256 (o.loadCode codes).1 = o.data.codeHash := by
  unfold StateObject.loadCode at held ⊢
  split
  · next cached => exact ⟨(coded cached).1, (coded cached).2.1⟩
  · next missing =>
      rw [if_neg missing] at held
      split
      · next empty => simp [empty] at held
      · next stored =>
          rw [if_neg stored] at held
          cases found : codes o.data.codeHash with
          | none => simp [found] at held
          | some code =>
            simp only [Option.getD_some]
            exact store _ _ found

end Objects

section States

variable {known : Set Bytes} {entries entries' : List JournalEntry} {s s' : StateDB}
variable {entry : JournalEntry} {o : StateObject}


theorem Coded.put {t : StateDB} (coded : Coded known entries s) (codes : t.codes = s.codes) (live : ∀ a, t.live a = s.live a)
    (held : o.Coded known s.codes) (journal : ∀ entry ∈ entries', entry.Coded known s.codes) :
    Coded known entries' (t.setStateObject o) where
  store := by
    intro hash code stored
    exact coded.store hash code (codes ▸ stored)
  live := by
    intro a found at_
    rw [StateDB.live_setStateObject, live] at at_
    change found.Coded known t.codes
    rw [codes]
    split at at_
    · rwa [← Option.some.inj at_]
    · exact coded.live a found at_
  journal := by
    intro entry member
    change entry.Coded known t.codes
    rw [codes]
    exact journal entry member

theorem Coded.cons (coded : Coded known entries s) (own : entry.Coded known s.codes) :
    ∀ other ∈ entry :: entries, other.Coded known s.codes := by
  intro other member
  rcases List.mem_cons.mp member with rfl | old
  · exact own
  · exact coded.journal other old

theorem Coded.change (coded : Coded known s.journal.entries s)
    (held : o.Coded known s.codes) (own : entry.Coded known s.codes) :
    Coded known ((s.append entry).setStateObject o).journal.entries ((s.append entry).setStateObject o) := by
  refine coded.put (t := s.append entry) rfl (fun _ => rfl) held ?_
  change ∀ other ∈ (s.append entry).journal.entries, _
  rw [s.entries_append]
  exact coded.cons own

theorem Alters.coded {a : Address} {o o' : StateObject}
    (store : ∀ hash code, s.codes hash = some code → code ∈ known ∧ keccak256 code = hash)
    (held : o.Coded known s.codes) (alters : Alters known s.codes a o entry o') :
    o'.Coded known s.codes ∧ entry.Coded known s.codes := by
  cases alters with
  | balance _ | nonce _ | storage _ _ _ | suicide => exact ⟨held, trivial⟩
  | code code member => exact ⟨fun _ => ⟨member, rfl, nofun⟩, loadCode_value store held⟩

theorem Edit.coded (edit : Edit known s s') (coded : Coded known s.journal.entries s) :
    Coded known s'.journal.entries s' := by
  have same := coded.journal
  cases edit with
  | load absent stored => exact coded.put rfl (fun _ => rfl) (newObject_coded _ _) same
  | loadCode live => exact coded.put rfl (fun _ => rfl) (loadCode_coded coded.store (coded.live _ _ live)) same
  | loadSlot live key read =>
    refine coded.put rfl (fun _ => rfl) ?_ same
    rcases read with rfl | rfl
    · exact getState_coded (coded.live _ _ live) key
    · exact getCommittedState_coded (coded.live _ _ live) key
  | create missing => exact coded.change (newObject_coded _ _) trivial
  | reset live present => exact coded.change (newObject_coded _ _) (coded.live _ _ live)
  | alter live present alters =>
    obtain ⟨held, own⟩ := alters.coded coded.store (coded.live _ _ live)
    exact coded.change held own
  | @touch _ o live present address =>
    have entries := coded.cons (show JournalEntry.Coded known s.codes (.touchChange o.address) from trivial)
    rw [← s.entries_append] at entries
    unfold StateDB.touch
    split <;> exact ⟨coded.store, coded.live, entries⟩
  | global entry dirtied plain refund logs logSize preimages =>
    have own : entry.Coded known s.codes := by
      cases entry with
      | resetObjectChange prev => exact absurd rfl (plain prev)
      | codeChange _ _ _ => simp [JournalEntry.dirtied] at dirtied
      | _ => trivial
    have entries := coded.cons own
    rw [← s.entries_append] at entries
    exact ⟨coded.store, coded.live, entries⟩
  | prepare _ _ _ | snapshot => exact ⟨coded.store, coded.live, coded.journal⟩

theorem Edits.coded (edits : Edits known s s') (coded : Coded known s.journal.entries s) :
    Coded known s'.journal.entries s' := by
  induction edits with
  | refl => exact coded
  | tail _ edit ih => exact edit.coded ih

theorem Coded.load (coded : Coded known entries s) (a : Address) : Coded known entries (s.load a) := by
  rcases s.load_eq a with same | ⟨data, -, -, loaded⟩
  · rwa [same]
  · rw [loaded]
    exact coded.put rfl (fun _ => rfl) (newObject_coded a data) coded.journal

theorem Undo.coded (undo : Undo s entry s') (coded : Coded known (entry :: entries) s) :
    Coded known entries s' := by
  have rest : ∀ other ∈ entries, other.Coded known s.codes := fun other member =>
    coded.journal other (List.mem_cons_of_mem entry member)
  have loaded : ∀ a, Coded known entries (s.load a) := fun a => Coded.load ⟨coded.store, coded.live, rest⟩ a
  cases undo with
  | create a =>
    refine ⟨coded.store, fun b o live => coded.live b o ?_, rest⟩
    have erased := lookup_erase_eq b a s.stateObjects
    change (s.stateObjects.erase a).lookup b = some o at live
    rw [erased] at live
    split at live
    · cases live
    · exact live
  | reset prev =>
    exact coded.put rfl (fun _ => rfl) (coded.journal (.resetObjectChange prev) List.mem_cons_self) rest
  | restore found restores =>
    rename_i a o o'
    have held : o.Coded known (s.load a).codes := (loaded a).live a o (StateDB.live_load found)
    refine (loaded a).put rfl (fun _ => rfl) ?_ (loaded a).journal
    have own := coded.journal entry List.mem_cons_self
    cases restores with
    | suicide _ _ _ | balance _ _ | nonce _ _ | storage _ _ _ => exact held
    | code _ prevcode prevhash => exact fun kept => ⟨(own kept).1, (own kept).2, nofun⟩
  | missing => exact loaded _
  | global _ _ _ _ _ => exact ⟨coded.store, coded.live, rest⟩

theorem revertToSnapshot_coded {revid : Nat} (coded : Coded known s.journal.entries s)
    (result : s.revertToSnapshot revid = .ok s') : Coded known s'.journal.entries s' :=
  revertToSnapshot_keeps (Coded known) (fun _ _ _ _ before undo => undo.coded before)
    (fun _ _ _ _ before => ⟨before.store, before.live, before.journal⟩) coded result

theorem finalise_codes (s : StateDB) (deleteEmptyObjects : Bool) : (s.finalise deleteEmptyObjects).codes = s.codes := by
  have round : ∀ (t : StateDB) (a : Address), (t.finaliseObject deleteEmptyObjects a).codes = t.codes := by
    intro t a
    unfold StateDB.finaliseObject
    split
    · rfl
    · dsimp only
      split <;> rfl
  have loop : ∀ (addrs : List Address) (t : StateDB), (addrs.foldl (StateDB.finaliseObject deleteEmptyObjects) t).codes =
      t.codes := by
    intro addrs
    induction addrs with
    | nil => exact fun _ => rfl
    | cons addr rest ih => exact fun t => (ih _).trans (round t addr)
  exact loop s.journal.dirties.keys s

theorem finalise_coded (valid : Valid s) (coded : Coded known s.journal.entries s) (deleteEmptyObjects : Bool) :
    Coded known [] (s.finalise deleteEmptyObjects) where
  store := by
    rw [finalise_codes]
    exact coded.store
  live := by
    intro a o live
    rw [finalise_codes]
    have slot := finalise_slot valid deleteEmptyObjects a
    have object : ((s.finalise deleteEmptyObjects).slot a).object = some o := live
    rw [slot] at object
    split at object
    · cases before : s.live a with
      | none =>
        have absent : (s.slot a).object = none := before
        simp only [finaliseSlot, absent] at object
        cases object
      | some held =>
        have present : (s.slot a).object = some held := before
        simp only [finaliseSlot, present] at object
        have kept := coded.live a held before
        split at object
        · rw [← Option.some.inj object]
          exact kept
        · rw [← Option.some.inj object]
          exact kept
    · exact coded.live a o object
  journal := nofun

def Grown (codes codes' : Hash → Option Bytes) : Prop := ∀ hash code, codes hash = some code → codes' hash = some code

omit [Crypto] in
theorem Grown.trans {codes codes' codes'' : Hash → Option Bytes} (first : Grown codes codes') (second : Grown codes' codes'') :
    Grown codes codes'' := fun hash code stored => second hash code (first hash code stored)

theorem StateObject.Coded.grown {codes codes' : Hash → Option Bytes} (held : o.Coded known codes)
    (grown : Grown codes codes') : o.Coded known codes' := by
  intro kept
  obtain ⟨member, hashed, stored⟩ := held kept
  exact ⟨member, hashed, fun clean => grown _ _ (stored clean)⟩

theorem JournalEntry.Coded.grown {codes codes' : Hash → Option Bytes} (held : entry.Coded known codes)
    (grown : Grown codes codes') : entry.Coded known codes' := by
  cases entry with
  | resetObjectChange prev => exact StateObject.Coded.grown held grown
  | _ => exact held

theorem commitCode_grown (apart : Apart known) (coded : Coded known entries s) (held : o.Coded known s.codes) :
    Grown s.codes (s.commitCode o).2.codes ∧ Coded known entries (s.commitCode o).2 ∧
      (s.commitCode o).1.Coded known (s.commitCode o).2.codes := by
  unfold StateDB.commitCode
  split
  · next dirty =>
      obtain ⟨member, hashed, -⟩ := held dirty.1
      have grown : Grown s.codes (Function.update s.codes o.data.codeHash (some o.code)) := by
        intro hash code stored
        by_cases same : hash = o.data.codeHash
        · obtain ⟨member', hashed'⟩ := coded.store hash code stored
          rw [same] at hashed'
          rw [same, Function.update_self, apart.injective code member' o.code member (hashed'.trans hashed.symm)]
        · rwa [Function.update_of_ne same]
      refine ⟨grown, ⟨fun hash code stored => ?_, fun a object live => (coded.live a object live).grown grown,
        fun entry at_ => (coded.journal entry at_).grown grown⟩, fun _ => ⟨member, hashed, fun _ => Function.update_self ..⟩⟩
      by_cases same : hash = o.data.codeHash
      · subst same
        change Function.update s.codes o.data.codeHash (some o.code) o.data.codeHash = some code at stored
        rw [Function.update_self] at stored
        rw [← Option.some.inj stored]
        exact ⟨member, hashed⟩
      · change Function.update s.codes o.data.codeHash (some o.code) hash = some code at stored
        rw [Function.update_of_ne same] at stored
        exact coded.store hash code stored
  · exact ⟨fun _ _ stored => stored, coded, held⟩

theorem commitObject_coded (apart : Apart known) (coded : Coded known entries s) (deleteEmptyObjects : Bool) (addr : Address) :
    Coded known entries (s.commitObject deleteEmptyObjects addr) ∧
      Grown s.codes (s.commitObject deleteEmptyObjects addr).codes := by
  have idle : Grown s.codes s.codes := fun _ _ stored => stored
  unfold StateDB.commitObject
  split
  · exact ⟨coded, idle⟩
  · next o live =>
      have held := coded.live addr o live
      dsimp only
      split
      · have put := coded.put rfl (fun _ => rfl) (show { o with deleted := true }.Coded known s.codes from held) coded.journal
        exact ⟨⟨put.store, put.live, put.journal⟩, idle⟩
      · split
        · obtain ⟨grown, stored, kept⟩ := commitCode_grown apart coded held
          have put := stored.put rfl (fun _ => rfl)
            (show (s.commitCode o).1.commitTrie.Coded known (s.commitCode o).2.codes from kept) stored.journal
          exact ⟨⟨put.store, put.live, put.journal⟩, grown⟩
        · exact ⟨⟨coded.store, coded.live, coded.journal⟩, idle⟩

theorem commit_coded (apart : Apart known) (coded : Coded known s.journal.entries s) (deleteEmptyObjects : Bool) :
    Coded known [] (s.commit deleteEmptyObjects) ∧ Grown s.codes (s.commit deleteEmptyObjects).codes := by
  have loop : ∀ (addrs : List Address) (t : StateDB), Coded known s.journal.entries t →
      Coded known s.journal.entries (addrs.foldl (StateDB.commitObject deleteEmptyObjects) t) ∧
        Grown t.codes (addrs.foldl (StateDB.commitObject deleteEmptyObjects) t).codes := by
    intro addrs
    induction addrs with
    | nil => exact fun t before => ⟨before, fun _ _ stored => stored⟩
    | cons addr rest ih =>
      intro t before
      obtain ⟨round, grown⟩ := commitObject_coded apart before deleteEmptyObjects addr
      obtain ⟨after, later⟩ := ih _ round
      exact ⟨after, grown.trans later⟩
  have start : Coded known s.journal.entries s.markDirties := ⟨coded.store, coded.live, coded.journal⟩
  obtain ⟨done, grown⟩ := loop s.stateObjects.keys s.markDirties start
  exact ⟨⟨done.store, done.live, nofun⟩, grown⟩

theorem copy_coded {c : StateDB} (coded : Coded known s.journal.entries s) (result : s.copy = .ok c) : Coded known [] c := by
  have copying := copy_copying result
  have codes : c.codes = s.codes := by rw [copying.rest]; rfl
  refine ⟨?_, fun a o live => ?_, nofun⟩
  · rw [codes]
    exact coded.store
  · rw [codes]
    exact coded.live a o (copying.live_of live)

end States

end CuteEVM
