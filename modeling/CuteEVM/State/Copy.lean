import CuteEVM.State.Edits

set_option autoImplicit false

-- A copy takes over the objects that are dirty. Everything else it reads from the trie again.

namespace CuteEVM

section Copies

def StateDB.blank (s : StateDB) : StateDB :=
  { StateDB.new s.trie s.codes with refund := s.refund, logs := s.logs, logSize := s.logSize, preimages := s.preimages }

structure Copying (s : StateDB) (visited : Address → Prop) (state : StateDB) : Prop where
  seen : ∀ a, visited a → state.live a = s.live a
  unseen : ∀ a, ¬ visited a → state.live a = none
  dirty : ∀ a, state.stateObjectsDirty a = (state.live a).isSome
  rest : state = { s.blank with stateObjects := state.stateObjects, stateObjectsDirty := state.stateObjectsDirty }

variable {s state : StateDB} {visited : Address → Prop}

theorem blank_copying (s : StateDB) : Copying s (fun _ => False) s.blank :=
  ⟨fun _ visited => visited.elim, fun _ _ => rfl, fun _ => rfl, rfl⟩

theorem Copying.congr {visited' : Address → Prop} (copying : Copying s visited state)
    (same : ∀ a, visited' a ↔ visited a) : Copying s visited' state where
  seen := fun a visited => copying.seen a ((same a).mp visited)
  unseen := fun a new => copying.unseen a fun visited => new ((same a).mpr visited)
  dirty := copying.dirty
  rest := copying.rest

theorem Copying.object (copying : Copying s visited state) {addr : Address} {object : StateObject}
    (live : s.live addr = some object) : Copying s (fun a => a = addr ∨ visited a) (state.copyObject addr object) := by
  have found : ∀ a, (state.copyObject addr object).live a = if a = addr then some object else state.live a :=
    fun a => lookup_insert_eq a addr object.deepCopy state.stateObjects
  refine ⟨fun a seen => ?_, fun a unseen => ?_, fun a => ?_, ?_⟩
  · rw [found]
    split
    · next same => rw [same, live]
    · next other => exact copying.seen a (seen.resolve_left other)
  · rw [found, if_neg fun same => unseen (.inl same)]
    exact copying.unseen a fun visited => unseen (.inr visited)
  · have dirty : (state.copyObject addr object).stateObjectsDirty a = (decide (a = addr) || state.stateObjectsDirty a) :=
      state.stateObjectsDirty.mem_insert addr a
    rw [dirty, found, copying.dirty]
    by_cases same : a = addr <;> simp [same]
  · have rest := copying.rest
    simp only [StateDB.copyObject]
    rw [rest]

theorem Copying.none (copying : Copying s visited state) {addr : Address} (absent : s.live addr = none) :
    Copying s (fun a => a = addr ∨ visited a) state where
  seen := by
    rintro a (rfl | seen)
    · by_cases before : visited a
      · exact copying.seen a before
      · rw [copying.unseen a before, absent]
    · exact copying.seen a seen
  unseen := fun a unseen => copying.unseen a fun visited => unseen (.inr visited)
  dirty := copying.dirty
  rest := copying.rest

theorem Copying.source (copying : Copying s visited state) {addr : Address} {object : StateObject}
    (live : state.live addr = some object) : visited addr ∧ s.live addr = some object := by
  have visits : visited addr := by
    by_contra new
    rw [copying.unseen addr new] at live
    cases live
  exact ⟨visits, (copying.seen addr visits).symm.trans live⟩

theorem copyMarked_copying (copying : Copying s visited state) (addr : Address) :
    Copying s (fun a => a = addr ∨ visited a) (s.copyMarked state addr) := by
  cases live : s.live addr with
  | none =>
    have absent : s.stateObjects.lookup addr = none := live
    simp only [StateDB.copyMarked, absent]
    exact copying.none live
  | some object =>
    have found : s.stateObjects.lookup addr = some object := live
    simp only [StateDB.copyMarked, found]
    exact copying.object live

theorem copyMarked_loop (addrs : List Address) (copying : Copying s visited state) :
    Copying s (fun a => a ∈ addrs ∨ visited a) (addrs.foldl s.copyMarked state) := by
  induction addrs generalizing state visited with
  | nil => exact copying.congr fun a => by simp
  | cons addr rest ih =>
    refine (ih (copyMarked_copying copying addr)).congr fun a => ?_
    simp only [List.mem_cons, or_assoc, or_left_comm]

theorem copyDirty_loop (addrs : List Address) (copying : Copying s visited state) :
    (∀ a ∈ addrs, (s.live a).isSome) →
      ∃ c, s.copyDirty addrs state = .ok c ∧ Copying s (fun a => a ∈ addrs ∨ visited a) c := by
  induction addrs generalizing state visited with
  | nil => exact fun _ => ⟨state, rfl, copying.congr fun a => by simp⟩
  | cons addr rest ih =>
    intro tracked
    obtain ⟨object, live⟩ := Option.isSome_iff_exists.mp (tracked addr List.mem_cons_self)
    have others : ∀ a ∈ rest, (s.live a).isSome := fun a member => tracked a (List.mem_cons_of_mem addr member)
    have found : s.stateObjects.lookup addr = some object := live
    cases copied : state.live addr with
    | some same =>
      have known : state.stateObjects.lookup addr = some same := copied
      have visits := (copying.source copied).1
      obtain ⟨c, result, done⟩ := ih copying others
      refine ⟨c, by simp only [StateDB.copyDirty, known, result], done.congr fun a => ?_⟩
      rw [List.mem_cons, or_assoc]
      constructor
      · rintro (rfl | seen)
        · exact .inr visits
        · exact seen
      · exact .inr
    | none =>
      have unknown : state.stateObjects.lookup addr = Option.none := copied
      obtain ⟨c, result, done⟩ := ih (copying.object live) others
      refine ⟨c, by simp only [StateDB.copyDirty, unknown, found, result], done.congr fun a => ?_⟩
      simp only [List.mem_cons, or_assoc, or_left_comm]

def StateDB.carried (s : StateDB) (a : Address) : Bool :=
  s.marked a || s.stateObjectsDirty a

def Tracked (s : StateDB) : Prop := ∀ a, s.stateObjectsDirty a = true → (s.live a).isSome

theorem copy_ok (tracked : Tracked s) : ∃ c, s.copy = .ok c ∧ Copying s (fun a => s.carried a = true) c := by
  have marked := copyMarked_loop s.journal.dirties.keys (blank_copying s)
  have dirty : ∀ a, a ∈ s.stateObjectsDirty.addrs ↔ s.stateObjectsDirty a = true := fun a => List.contains_iff_mem.symm
  obtain ⟨c, result, copied⟩ := copyDirty_loop s.stateObjectsDirty.addrs marked fun a member => tracked a ((dirty a).mp member)
  refine ⟨c, result, copied.congr fun a => ?_⟩
  have member : a ∈ s.journal.dirties.keys ↔ s.marked a = true := by
    rw [StateDB.marked, AList.lookup_isSome, AList.mem_keys]
  rw [StateDB.carried, Bool.or_eq_true, dirty, member, or_false]
  exact or_comm

theorem copyDirty_tracked {addrs : List Address} {c : StateDB} (copying : Copying s visited state)
    (result : s.copyDirty addrs state = .ok c) : ∀ a ∈ addrs, (s.live a).isSome := by
  induction addrs generalizing state visited with
  | nil => simp
  | cons addr rest ih =>
    simp only [StateDB.copyDirty] at result
    have here : (s.live addr).isSome ∧ ∃ visited state, Copying s visited state ∧ s.copyDirty rest state = .ok c := by
      split at result
      · next same known =>
          have live := (copying.source (show state.live addr = some same from known)).2
          exact ⟨by simp [live], visited, state, copying, result⟩
      · split at result
        · next object found =>
            have live : s.live addr = some object := found
            exact ⟨by simp [live], _, _, copying.object live, result⟩
        · cases result
    obtain ⟨live, _, _, copying', result'⟩ := here
    intro a member
    rcases List.mem_cons.mp member with rfl | later
    · exact live
    · exact ih copying' result' a later

theorem copy_iff (s : StateDB) : (∃ c, s.copy = .ok c) ↔ Tracked s := by
  constructor
  · rintro ⟨c, result⟩ a dirty
    have marked := copyMarked_loop s.journal.dirties.keys (blank_copying s)
    exact copyDirty_tracked marked result a (List.contains_iff_mem.mp dirty)
  · intro tracked
    obtain ⟨c, result, -⟩ := copy_ok tracked
    exact ⟨c, result⟩

theorem copy_copying {c : StateDB} (result : s.copy = .ok c) : Copying s (fun a => s.carried a = true) c := by
  obtain ⟨c', same, copied⟩ := copy_ok ((copy_iff s).mp ⟨c, result⟩)
  rwa [Except.ok.inj (result.symm.trans same)]

end Copies

section Tracking

variable [Crypto] {known : Set Bytes} {s s' : StateDB}

theorem Edit.grows (edit : Edit known s s') :
    s'.stateObjectsDirty = s.stateObjectsDirty ∧ ∀ a, (s.live a).isSome → (s'.live a).isSome := by
  have put : ∀ (t : StateDB) (o : StateObject), t.stateObjectsDirty = s.stateObjectsDirty → (∀ a, t.live a = s.live a) →
      (t.setStateObject o).stateObjectsDirty = s.stateObjectsDirty ∧
        ∀ a, (s.live a).isSome → ((t.setStateObject o).live a).isSome := by
    refine fun t o dirty live => ⟨dirty, fun a found => ?_⟩
    rw [StateDB.live_setStateObject, live]
    split
    · rfl
    · exact found
  cases edit with
  | load _ _ | loadCode _ | loadSlot _ _ _ => exact put s _ rfl fun _ => rfl
  | create _ | reset _ _ | alter _ _ _ => exact put (s.append _) _ rfl fun _ => rfl
  | touch _ _ _ =>
    unfold StateDB.touch
    split <;> exact ⟨rfl, fun _ found => found⟩
  | global _ _ _ _ _ _ _ | prepare _ _ _ | snapshot => exact ⟨rfl, fun _ found => found⟩

theorem Edits.tracked (edits : Edits known s s') (tracked : Tracked s) : Tracked s' := by
  induction edits with
  | refl => exact tracked
  | tail _ edit ih =>
    obtain ⟨dirty, live⟩ := edit.grows
    intro a
    rw [dirty]
    exact fun marked => live a (ih a marked)

omit [Crypto] in
theorem Tracked.setObject (tracked : Tracked s) (o : StateObject) : Tracked (s.setStateObject o) := by
  intro a dirty
  rw [StateDB.live_setStateObject]
  split
  · rfl
  · exact tracked a dirty

omit [Crypto] in
theorem Tracked.load (tracked : Tracked s) (a : Address) : Tracked (s.load a) := by
  rcases s.load_eq a with same | ⟨data, -, -, loaded⟩
  · rwa [same]
  · rw [loaded]
    exact tracked.setObject _

omit [Crypto] in
theorem Undo.tracked {entry : JournalEntry} (undo : Undo s entry s') (tracked : Tracked s) : Tracked s' := by
  cases undo with
  | create a =>
    intro b dirty
    have other : b ≠ a := by
      rintro rfl
      simp at dirty
    have live := lookup_erase_eq b a s.stateObjects
    rw [if_neg other] at live
    change ((s.stateObjects.erase a).lookup b).isSome
    rw [live]
    exact tracked b (by simpa [other] using dirty)
  | reset prev => exact tracked.setObject prev
  | restore _ _ => exact (tracked.load _).setObject _
  | missing => exact tracked.load _
  | global _ _ _ _ _ => exact tracked

omit [Crypto] in
theorem revertToSnapshot_tracked {revid : Nat} (tracked : Tracked s) (result : s.revertToSnapshot revid = .ok s') :
    Tracked s' :=
  revertToSnapshot_keeps (fun _ => Tracked) (fun _ _ _ _ before undo => undo.tracked before)
    (fun _ _ _ _ before => before) tracked result

theorem finalise_tracked (valid : Valid s) (tracked : Tracked s) (deleteEmptyObjects : Bool) :
    Tracked (s.finalise deleteEmptyObjects) := by
  intro a dirty
  change ((s.finalise deleteEmptyObjects).slot a).pending = true at dirty
  change ((s.finalise deleteEmptyObjects).slot a).object.isSome
  rw [finalise_slot valid] at dirty ⊢
  split at dirty
  · next marked =>
      rw [if_pos marked]
      cases object : (s.slot a).object with
      | none =>
        have same : finaliseSlot deleteEmptyObjects (s.slot a) = s.slot a := by simp only [finaliseSlot, object]
        rw [same] at dirty ⊢
        exact tracked a dirty
      | some o =>
        simp only [finaliseSlot, object]
        split <;> rfl
  · next unmarked =>
      rw [if_neg unmarked]
      exact tracked a dirty

theorem commit_tracked (valid : Valid s) (tracked : Tracked s) (grounded : Grounded s) (deleteEmptyObjects : Bool) :
    Tracked (s.commit deleteEmptyObjects) := by
  intro a dirty
  change ((s.commit deleteEmptyObjects).slot a).pending = true at dirty
  change ((s.commit deleteEmptyObjects).slot a).object.isSome
  rw [commit_slot valid] at dirty ⊢
  cases object : (s.markDirties.slot a).object with
  | none =>
    simp only [commitSlot, object] at dirty
    have marked : s.markDirties.stateObjectsDirty a = true := dirty
    rw [markDirties_mem, Bool.or_eq_true] at marked
    have live : (s.live a).isSome := marked.elim (tracked a) (grounded a)
    have absent : s.live a = none := object
    simp [absent] at live
  | some o =>
    simp only [commitSlot, object]
    split
    · rfl
    · split <;> rfl

omit [Crypto] in
theorem Copying.slot {c : StateDB} {visited : Address → Prop} (copying : Copying s visited c) (a : Address) :
    c.slot a = ⟨c.live a, s.trie a, (c.live a).isSome⟩ := by
  have trie : c.trie = s.trie := by rw [copying.rest]; rfl
  simp only [StateDB.slot, trie, copying.dirty]

omit [Crypto] in
theorem Copying.live_of {c : StateDB} {visited : Address → Prop} (copying : Copying s visited c) {a : Address} {o : StateObject}
    (live : c.live a = some o) : s.live a = some o := (copying.source live).2

theorem copy_valid {c : StateDB} (valid : Valid s) (result : s.copy = .ok c) : Valid c := by
  have copying := copy_copying result
  have journal : c.journal = {} := by rw [copying.rest]; rfl
  have revisions : c.validRevisions = [] := by rw [copying.rest]; rfl
  have logSize : c.logSize = s.logSize := by rw [copying.rest]; rfl
  refine .of_slots journal revisions (logSize ▸ valid.kept.counts.logSize) fun a => ?_
  rw [copying.slot]
  cases live : c.live a with
  | none => exact ⟨nofun, nofun, nofun, nofun, nofun⟩
  | some o =>
    have ok := valid.slotOk a
    have same := copying.live_of live
    exact .some o (ok.keyed o same) (ok.sound o same) (fun deleted => ⟨ok.removed o same deleted, ok.unfunded o same deleted⟩) true

end Tracking

section Methods

variable [Crypto]

-- A call of a public method, `Copy` included: from then on the copy is used.
inductive Method where
  | call (op : Op)
  | copy

def Method.apply (s : StateDB) : Method → Except Panic StateDB
  | .call op => op.apply s
  | .copy => s.copy

def Acts (condition : StateDB → Method → Prop) (s s' : StateDB) : Prop :=
  ∃ method, condition s method ∧ Method.apply s method = .ok s'

abbrev Runs (condition : StateDB → Method → Prop) : StateDB → StateDB → Prop := Relation.ReflTransGen (Acts condition)

-- `Commit` is not called while an address is marked that has no object.
def Method.Grounds (s : StateDB) : Method → Prop
  | .call (.commit _) => Grounded s
  | _ => True

theorem Method.valid {s s' : StateDB} {method : Method} (valid : Valid s) (result : method.apply s = .ok s') : Valid s' := by
  cases method with
  | call op => exact Op.valid valid result
  | copy => exact copy_valid valid result

theorem Method.tracked {s s' : StateDB} {method : Method} (valid : Valid s) (tracked : Tracked s)
    (grounds : method.Grounds s) (result : method.apply s = .ok s') : Tracked s' := by
  cases method with
  | copy =>
    intro a dirty
    rwa [(copy_copying result).dirty] at dirty
  | call op =>
    cases forward : op.forward with
    | true =>
      have familiar : op.Familiar Set.univ := by cases op <;> trivial
      exact (Op.edits valid forward familiar result).tracked tracked
    | false =>
      cases op <;> simp [Op.forward] at forward
      · exact revertToSnapshot_tracked tracked result
      · rw [← Except.ok.inj result]
        exact finalise_tracked valid tracked _
      · rw [← Except.ok.inj result]
        exact commit_tracked valid tracked grounds _
      · rw [← Except.ok.inj result]
        exact fun _ dirty => by cases dirty

theorem Runs.valid {condition : StateDB → Method → Prop} {s s' : StateDB} (run : Runs condition s s') (valid : Valid s) :
    Valid s' := by
  induction run with
  | refl => exact valid
  | tail _ acts ih =>
    obtain ⟨method, -, result⟩ := acts
    exact method.valid ih result

-- Every dirty address has an object, so copying never meets a nil one.
theorem copy_never_fails {trie : Address → Option Account} {codes : Hash → Option Bytes} {s : StateDB}
    (run : Runs (fun s method => method.Grounds s) (StateDB.new trie codes) s) :
    (∀ a, s.stateObjectsDirty a = true → (s.stateObjects.lookup a).isSome) ∧ ∃ c, s.copy = .ok c := by
  have tracked : Tracked s := by
    induction run with
    | refl => exact fun _ dirty => by cases dirty
    | tail earlier acts ih =>
      obtain ⟨method, grounds, result⟩ := acts
      exact method.tracked (Runs.valid earlier (new_valid trie codes)) ih grounds result
  exact ⟨tracked, (copy_iff s).mpr tracked⟩

end Methods

section Samples

attribute [local instance] Crypto.sample

theorem copy_never_fails_sample :
    ∃ c, (((StateDB.new (fun _ => none) (fun _ => none)).addBalance 3 0).commit false).copy = .ok c := by
  have touched : Edits ∅ (StateDB.new (fun _ => none) (fun _ => none)) _ :=
    addBalance_edits (new_valid (fun _ => none) (fun _ => none)) 3 0
  have grounded : Grounded ((StateDB.new (fun _ => none) (fun _ => none)).addBalance 3 0) := touched.grounded nofun
  exact (copy_never_fails ((Relation.ReflTransGen.single ⟨.call (.addBalance 3 0), trivial, rfl⟩).tail
    ⟨.call (.commit false), grounded, rfl⟩)).2

-- The touch of the RIPEMD contract survives a revert. `Commit` marks the address, which has no object any more.
theorem copy_of_missing_object :
    ∃ s, Runs (fun _ _ => True) (StateDB.new (fun _ => none) (fun _ => none)) s ∧ s.stateObjectsDirty ripemd = true ∧
      s.stateObjects.lookup ripemd = none ∧ s.copy = .error (.nilStateObject ripemd) := by
  let start := StateDB.new (fun _ => none) (fun _ => none)
  obtain ⟨s, reverted⟩ : ∃ s, (start.snapshot.2.addBalance ripemd 0).revertToSnapshot 0 = .ok s := ⟨_, rfl⟩
  refine ⟨s.commit false, ?_, ?_⟩
  · refine .tail (.tail (.tail (.single ⟨.call .snapshot, trivial, rfl⟩) ⟨.call (.addBalance ripemd 0), trivial, rfl⟩)
      ⟨.call (.revertToSnapshot 0), trivial, reverted⟩) ⟨.call (.commit false), trivial, rfl⟩
  · obtain rfl := Except.ok.inj reverted
    exact ⟨by decide, rfl, rfl⟩

end Samples

end CuteEVM
