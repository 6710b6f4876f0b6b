import CuteEVM.State.Reachable
import Mathlib.Logic.Relation

set_option autoImplicit false

-- Each operation that keeps the journal is a chain of edits: an object is cached, or it is changed together with the
-- entry that undoes the change.

namespace CuteEVM

variable [Crypto]

variable {entry : JournalEntry} {a : Address}

inductive Alters (known : Set Bytes) (codes : Hash → Option Bytes) (a : Address) (o : StateObject) :
    JournalEntry → StateObject → Prop where
  | balance (amount : Int) : Alters known codes a o (.balanceChange a o.data.balance) (o.setBalance amount)
  | nonce (nonce : Nat) : Alters known codes a o (.nonceChange a o.data.nonce) (o.setNonce nonce)
  | code (code : Bytes) (member : code ∈ known) :
      Alters known codes a o (.codeChange a (o.loadCode codes).1 o.data.codeHash)
        ((o.loadCode codes).2.setCode (keccak256 code) code)
  | storage (key value prevalue : Hash) : Alters known codes a o (.storageChange a key prevalue) (o.setState key value)
  | suicide : Alters known codes a o (.suicideChange a o.suicided o.data.balance) (o.markSuicided.setBalance 0)

inductive Edit (known : Set Bytes) (s : StateDB) : StateDB → Prop where
  | load {a : Address} {data : Account} (absent : s.live a = none) (stored : s.trie a = some data) :
      Edit known s (s.setStateObject (newObject a data))
  | loadCode {a : Address} {o : StateObject} (live : s.live a = some o) :
      Edit known s (s.setStateObject (o.loadCode s.codes).2)
  | loadSlot {a : Address} {o o' : StateObject} (live : s.live a = some o) (key : Hash)
      (read : o' = (o.getState key).2 ∨ o' = (o.getCommittedState key).2) : Edit known s (s.setStateObject o')
  | create {a : Address} (missing : s.lookup a = none) :
      Edit known s ((s.append (.createObjectChange a)).setStateObject (freshObject a))
  | reset {a : Address} {prev : StateObject} (live : s.live a = some prev) (present : prev.deleted = false) :
      Edit known s ((s.append (.resetObjectChange prev)).setStateObject ((freshObject a).setBalance prev.data.balance))
  | alter {a : Address} {o o' : StateObject} {entry : JournalEntry} (live : s.live a = some o)
      (present : o.deleted = false) (alters : Alters known s.codes a o entry o') :
      Edit known s ((s.append entry).setStateObject o')
  | touch {a : Address} {o : StateObject} (live : s.live a = some o) (present : o.deleted = false)
      (address : o.address = a) : Edit known s (s.touch o)
  | global (entry : JournalEntry) (dirtied : entry.dirtied = none) (plain : ∀ prev, entry ≠ .resetObjectChange prev)
      (refund : Nat) (logs : Hash → List Log) (logSize : Nat) (preimages : Hash → Option Bytes) :
      Edit known s { s.append entry with refund := refund, logs := logs, logSize := logSize, preimages := preimages }
  | prepare (thash bhash : Hash) (ti : Nat) : Edit known s (s.prepare thash bhash ti)
  | snapshot : Edit known s s.snapshot.2

abbrev Edits (known : Set Bytes) : StateDB → StateDB → Prop := Relation.ReflTransGen (Edit known)

section Operations

variable {known : Set Bytes} {s : StateDB}

theorem load_edits (s : StateDB) (a : Address) : Edits known s (s.load a) := by
  rcases s.load_eq a with same | ⟨data, absent, stored, loaded⟩
  · rw [same]
  · rw [loaded]
    exact .single (.load absent stored)

theorem getOrNewStateObject_edits (known : Set Bytes) (valid : Valid s) (a : Address) :
    ∃ o t, s.getOrNewStateObject a = (o, t) ∧ Edits known s t ∧ Obtained s a o t := by
  obtain ⟨o, t, result, obtained⟩ := getOrNewStateObject_obtained valid a
  refine ⟨o, t, result, ?_, obtained⟩
  cases found : s.lookup a with
  | some object =>
    simp only [StateDB.getOrNewStateObject, s.getStateObject_eq, found, Prod.mk.injEq] at result
    rw [← result.2]
    exact load_edits s a
  | none =>
    simp only [StateDB.getOrNewStateObject, s.getStateObject_eq, found, StateDB.load_of_missing found,
      createObject_missing found, Prod.mk.injEq] at result
    rw [← result.2]
    exact .single (.create found)

theorem Obtained.alter {o o' : StateObject} {t : StateDB} (obtained : Obtained s a o t)
    (edits : Edits known s t) (alters : Alters known t.codes a o entry o') :
    Edits known s ((t.append entry).setStateObject o') :=
  edits.tail (.alter obtained.live obtained.present alters)

theorem setObjectBalance_edits {o : StateObject} {t : StateDB} (obtained : Obtained s a o t)
    (edits : Edits known s t) (amount : Int) : Edits known s (t.setObjectBalance o amount) := by
  unfold StateDB.setObjectBalance
  rw [obtained.address]
  exact obtained.alter edits (.balance amount)

theorem addBalance_edits (valid : Valid s) (a : Address) (amount : Int) : Edits known s (s.addBalance a amount) := by
  obtain ⟨o, t, result, edits, obtained⟩ := getOrNewStateObject_edits known valid a
  simp only [StateDB.addBalance, result]
  split
  · split
    · exact edits.tail (.touch obtained.live obtained.present obtained.address)
    · exact edits
  · exact setObjectBalance_edits obtained edits _

theorem subBalance_edits (valid : Valid s) (a : Address) (amount : Int) : Edits known s (s.subBalance a amount) := by
  obtain ⟨o, t, result, edits, obtained⟩ := getOrNewStateObject_edits known valid a
  simp only [StateDB.subBalance, result]
  split
  · exact edits
  · exact setObjectBalance_edits obtained edits _

theorem setBalance_edits (valid : Valid s) (a : Address) (amount : Int) : Edits known s (s.setBalance a amount) := by
  obtain ⟨o, t, result, edits, obtained⟩ := getOrNewStateObject_edits known valid a
  simp only [StateDB.setBalance, result]
  exact setObjectBalance_edits obtained edits amount

theorem setNonce_edits (valid : Valid s) (a : Address) (nonce : Nat) : Edits known s (s.setNonce a nonce) := by
  obtain ⟨o, t, result, edits, obtained⟩ := getOrNewStateObject_edits known valid a
  simp only [StateDB.setNonce, result]
  exact obtained.alter edits (.nonce nonce)

theorem setCode_edits (valid : Valid s) (a : Address) {code : Bytes} (member : code ∈ known) :
    Edits known s (s.setCode a code) := by
  obtain ⟨o, t, result, edits, obtained⟩ := getOrNewStateObject_edits known valid a
  simp only [StateDB.setCode, result, (o.loadCode_cached t.codes).data]
  exact obtained.alter edits (.code code member)

theorem setState_edits (valid : Valid s) (a : Address) (key value : Hash) : Edits known s (s.setState a key value) := by
  obtain ⟨o, t, result, edits, obtained⟩ := getOrNewStateObject_edits known valid a
  have cached := o.getState_cached t.codes key
  have loaded : Edits known s (t.setStateObject (o.getState key).2) := edits.tail (.loadSlot obtained.live key (.inl rfl))
  have live : (t.setStateObject (o.getState key).2).live a = some (o.getState key).2 := by
    rw [StateDB.live_setStateObject, if_pos (cached.address.trans obtained.address).symm]
  simp only [StateDB.setState, result]
  split
  · exact loaded
  · exact loaded.tail (.alter live (cached.deleted.trans obtained.present) (.storage key value _))

theorem createAccount_edits (a : Address) : Edits known s (s.createAccount a) := by
  cases found : s.lookup a with
  | none =>
    simp only [StateDB.createAccount, createObject_missing found]
    exact .single (.create found)
  | some prev =>
    have present : prev.deleted = false := StateDB.present_of_lookup found
    rw [createAccount_found found]
    exact (load_edits s a).tail (.reset (StateDB.live_load found) present)

theorem suicide_edits (valid : Valid s) (a : Address) : Edits known s (s.suicide a).2 := by
  cases found : s.lookup a with
  | none =>
    simp only [StateDB.suicide, s.getStateObject_eq, found]
    exact load_edits s a
  | some o =>
    have present := (valid.kept.objects.address_of_lookup found).2.1
    simp only [StateDB.suicide, s.getStateObject_eq, found]
    exact (load_edits s a).tail (.alter (StateDB.live_load found) present .suicide)

theorem addRefund_edits (gas : Nat) : Edits known s (s.addRefund gas) :=
  .single (.global (.refundChange s.refund) rfl nofun _ s.logs s.logSize s.preimages)

theorem subRefund_edits {gas : Nat} {s' : StateDB} (result : s.subRefund gas = .ok s') : Edits known s s' := by
  unfold StateDB.subRefund at result
  split at result
  · cases result
  · obtain rfl := Except.ok.inj result
    exact .single (.global (.refundChange s.refund) rfl nofun _ s.logs s.logSize s.preimages)

theorem addPreimage_edits (hash : Hash) (preimage : Bytes) : Edits known s (s.addPreimage hash preimage) := by
  unfold StateDB.addPreimage
  split
  · exact .refl
  · exact .single (.global (.addPreimageChange hash) rfl nofun s.refund s.logs s.logSize _)

theorem getCode_edits (a : Address) : Edits known s (s.getCode a).2 := by
  have loaded : Edits known s (s.load a) := load_edits s a
  cases found : s.lookup a with
  | none => simpa only [StateDB.getCode, s.getStateObject_eq, found] using loaded
  | some o =>
    simp only [StateDB.getCode, s.getStateObject_eq, found]
    exact loaded.tail (.loadCode (StateDB.live_load found))

theorem getState_edits (a : Address) (key : Hash) : Edits known s (s.getState a key).2 := by
  have loaded : Edits known s (s.load a) := load_edits s a
  cases found : s.lookup a with
  | none => simpa only [StateDB.getState, s.getStateObject_eq, found] using loaded
  | some o =>
    simp only [StateDB.getState, s.getStateObject_eq, found]
    exact loaded.tail (.loadSlot (StateDB.live_load found) key (.inl rfl))

theorem getCommittedState_edits (a : Address) (key : Hash) : Edits known s (s.getCommittedState a key).2 := by
  have loaded : Edits known s (s.load a) := load_edits s a
  cases found : s.lookup a with
  | none => simpa only [StateDB.getCommittedState, s.getStateObject_eq, found] using loaded
  | some o =>
    simp only [StateDB.getCommittedState, s.getStateObject_eq, found]
    exact loaded.tail (.loadSlot (StateDB.live_load found) key (.inr rfl))

def Op.forward : Op → Bool
  | .revertToSnapshot _ | .finalise _ | .commit _ | .reset _ => false
  | _ => true

def Op.Familiar (known : Set Bytes) : Op → Prop
  | .setCode _ code => code ∈ known
  | _ => True

theorem Op.edits {s' : StateDB} (valid : Valid s) {op : Op} (forward : op.forward = true) (familiar : op.Familiar known)
    (result : op.apply s = .ok s') : Edits known s s' := by
  cases op with
  | revertToSnapshot _ | finalise _ | commit _ | reset _ => simp [Op.forward] at forward
  | subRefund gas => exact subRefund_edits result
  | exist a | getBalance a | getNonce a | getCodeSize a | getCodeHash a | hasSuicided a | empty a =>
    obtain rfl := Except.ok.inj result
    have loaded : Edits known s (s.load a) := load_edits s a
    cases found : s.lookup a <;>
      simp only [StateDB.exist, StateDB.empty, StateDB.getBalance, StateDB.getNonce, StateDB.getCodeSize,
        StateDB.getCodeHash, StateDB.hasSuicided, s.getStateObject_eq, found]
    all_goals first | exact loaded | (split <;> exact loaded)
  | _ =>
    obtain rfl := Except.ok.inj result
    first
      | exact getCode_edits _
      | exact getState_edits _ _
      | exact getCommittedState_edits _ _
      | exact addBalance_edits valid _ _
      | exact subBalance_edits valid _ _
      | exact setBalance_edits valid _ _
      | exact setNonce_edits valid _ _
      | exact setCode_edits valid _ familiar
      | exact setState_edits valid _ _ _
      | exact createAccount_edits _
      | exact suicide_edits valid _
      | exact addRefund_edits _
      | exact addPreimage_edits _ _
      | exact .single (.global (.addLogChange s.thash) rfl (by rintro _ ⟨⟩) s.refund _ _ s.preimages)
      | exact .single (.prepare _ _ _)
      | exact .single .snapshot

end Operations

section Marks

def StateDB.marked (s : StateDB) (a : Address) : Bool := (s.journal.dirties.lookup a).isSome

omit [Crypto] in
@[simp] theorem StateDB.marked_setStateObject (s : StateDB) (o : StateObject) (a : Address) :
    (s.setStateObject o).marked a = s.marked a := rfl

omit [Crypto] in
theorem StateDB.marked_append (s : StateDB) (entry : JournalEntry) (a : Address) :
    (s.append entry).marked a = (decide (entry.dirtied = some a) || s.marked a) := by
  simp only [marked, append, Journal.append]
  cases dirtied : entry.dirtied with
  | none => simp
  | some b =>
    simp only [Journal.dirty, lookup_insert_eq, Option.some.injEq]
    by_cases same : a = b
    · simp [same]
    · simp [same, Ne.symm same]

omit [Crypto] in
theorem StateDB.marked_touch (s : StateDB) (o : StateObject) (a : Address) :
    (s.touch o).marked a = (decide (a = o.address) || s.marked a) := by
  have appended : (s.append (.touchChange o.address)).marked a = (decide (a = o.address) || s.marked a) := by
    rw [s.marked_append]
    simp only [JournalEntry.dirtied, Option.some.injEq, eq_comm]
  unfold touch
  split
  · -- the second count for RIPEMD is at the same address
    simp only [marked, Journal.dirty, lookup_insert_eq]
    by_cases same : a = o.address
    · simp [same]
    · simp only [same, if_false]
      exact appended.trans (by simp [same, marked])
  · exact appended

omit [Crypto] in
@[simp] theorem StateDB.live_touch (s : StateDB) (o : StateObject) (a : Address) : (s.touch o).live a = s.live a := by
  unfold touch
  split <;> rfl

def Grounded (s : StateDB) : Prop := ∀ a, s.marked a = true → (s.live a).isSome

omit [Crypto] in
theorem Grounded.put {s : StateDB} (grounded : Grounded s) {o : StateObject}
    (dirtied : ∀ a, entry.dirtied = some a → (s.live a).isSome ∨ a = o.address) :
    Grounded ((s.append entry).setStateObject o) := by
  intro a marked
  rw [StateDB.marked_setStateObject, StateDB.marked_append, Bool.or_eq_true, decide_eq_true_eq] at marked
  rw [StateDB.live_setStateObject]
  split
  · rfl
  · next other => exact marked.elim (fun own => (dirtied a own).resolve_right other) (grounded a)

omit [Crypto] in
theorem Grounded.setObject {s : StateDB} (grounded : Grounded s) (o : StateObject) : Grounded (s.setStateObject o) := by
  intro a marked
  rw [StateDB.live_setStateObject]
  split
  · rfl
  · exact grounded a marked

theorem Alters.dirtied {known : Set Bytes} {codes : Hash → Option Bytes} {o o' : StateObject}
    (alters : Alters known codes a o entry o') : entry.dirtied = some a := by
  cases alters <;> rfl

theorem Edit.grounded {known : Set Bytes} {s s' : StateDB} (edit : Edit known s s') (grounded : Grounded s) :
    Grounded s' := by
  cases edit with
  | load _ _ | loadCode _ | loadSlot _ _ _ => exact grounded.setObject _
  | create missing =>
    refine grounded.put fun a own => .inr ?_
    exact (Option.some.inj own).symm
  | reset _ _ => exact grounded.put nofun
  | alter live present alters =>
    refine grounded.put fun b own => .inl ?_
    rw [← Option.some.inj (alters.dirtied.symm.trans own), live]
    rfl
  | touch live present address =>
    intro b marked
    rw [StateDB.marked_touch, Bool.or_eq_true, decide_eq_true_eq] at marked
    rw [StateDB.live_touch]
    rcases marked with rfl | before
    · rw [address, live]
      rfl
    · exact grounded b before
  | global entry dirtied plain refund logs logSize preimages =>
    intro b marked
    have same : (s.append entry).marked b = true := marked
    rw [StateDB.marked_append, dirtied] at same
    exact grounded b (by simpa using same)
  | prepare _ _ _ | snapshot => exact grounded

theorem Edits.grounded {known : Set Bytes} {s s' : StateDB} (edits : Edits known s s') (grounded : Grounded s) :
    Grounded s' := by
  induction edits with
  | refl => exact grounded
  | tail _ edit ih => exact edit.grounded ih

end Marks

section Undoing

omit [Crypto]

inductive Restores (o : StateObject) : JournalEntry → StateObject → Prop where
  | suicide (a : Address) (prev : Bool) (prevbalance : Int) :
      Restores o (.suicideChange a prev prevbalance) ({ o with suicided := prev }.setBalance prevbalance)
  | balance (a : Address) (prev : Int) : Restores o (.balanceChange a prev) (o.setBalance prev)
  | nonce (a : Address) (prev : Nat) : Restores o (.nonceChange a prev) (o.setNonce prev)
  | storage (a : Address) (key prevalue : Hash) : Restores o (.storageChange a key prevalue) (o.setState key prevalue)
  | code (a : Address) (prevcode : Bytes) (prevhash : Hash) :
      Restores o (.codeChange a prevcode prevhash) (o.setCode prevhash prevcode)

inductive Undo (s : StateDB) : JournalEntry → StateDB → Prop where
  | create (a : Address) : Undo s (.createObjectChange a)
      { s with stateObjects := s.stateObjects.erase a, stateObjectsDirty := s.stateObjectsDirty.erase a }
  | reset (prev : StateObject) : Undo s (.resetObjectChange prev) (s.setStateObject prev)
  | restore {entry : JournalEntry} {a : Address} {o o' : StateObject} (found : s.lookup a = some o)
      (restores : Restores o entry o') : Undo s entry ((s.load a).setStateObject o')
  | missing {a : Address} {prev : Bool} {prevbalance : Int} : Undo s (.suicideChange a prev prevbalance) (s.load a)
  | global (entry : JournalEntry) (refund : Nat) (logs : Hash → List Log) (logSize : Nat) (preimages : Hash → Option Bytes) :
      Undo s entry { s with refund := refund, logs := logs, logSize := logSize, preimages := preimages }

theorem modifyObject_undo {s t : StateDB} {change : StateObject → StateObject}
    (restores : ∀ o, Restores o entry (change o)) (result : s.modifyObject a change = .ok t) : Undo s entry t := by
  simp only [StateDB.modifyObject, s.getStateObject_eq] at result
  cases found : s.lookup a with
  | none => simp [found] at result
  | some o =>
    simp only [found] at result
    rw [← Except.ok.inj result]
    exact .restore found (restores o)

theorem JournalEntry.revert_undo {s t : StateDB} (result : entry.revert s = .ok t) :
    Undo s entry t := by
  cases entry with
  | createObjectChange a =>
    rw [← Except.ok.inj result]
    exact .create a
  | resetObjectChange prev =>
    rw [← Except.ok.inj result]
    exact .reset prev
  | suicideChange a prev prevbalance =>
    simp only [JournalEntry.revert, s.getStateObject_eq] at result
    cases found : s.lookup a with
    | none =>
      simp only [found] at result
      rw [← Except.ok.inj result]
      exact .missing
    | some o =>
      simp only [found] at result
      rw [← Except.ok.inj result]
      exact .restore found (.suicide a prev prevbalance)
  | balanceChange a prev => exact modifyObject_undo (fun o => .balance a prev) result
  | nonceChange a prev => exact modifyObject_undo (fun o => .nonce a prev) result
  | storageChange a key prevalue => exact modifyObject_undo (fun o => .storage a key prevalue) result
  | codeChange a prevcode prevhash => exact modifyObject_undo (fun o => .code a prevcode prevhash) result
  | refundChange prev =>
    rw [← Except.ok.inj result]
    exact .global _ prev s.logs s.logSize s.preimages
  | addLogChange txhash =>
    simp only [JournalEntry.revert] at result
    split at result
    · cases result
    · rw [← Except.ok.inj result]
      exact .global _ s.refund _ _ s.preimages
  | addPreimageChange hash =>
    rw [← Except.ok.inj result]
    exact .global _ s.refund s.logs s.logSize _
  | touchChange a =>
    rw [← Except.ok.inj result]
    exact .global _ s.refund s.logs s.logSize s.preimages

theorem revertToSnapshot_keeps (kept : List JournalEntry → StateDB → Prop) {s s' : StateDB} {revid : Nat}
    (keeps : ∀ entry rest s s', kept (entry :: rest) s → Undo s entry s' → kept rest s')
    (shed : ∀ entries s journal revisions, kept entries s →
      kept entries { s with journal := journal, validRevisions := revisions })
    (holds : kept s.journal.entries s) (result : s.revertToSnapshot revid = .ok s') : kept s'.journal.entries s' := by
  unfold StateDB.revertToSnapshot at result
  simp only at result
  split at result
  · cases result
  · next revision _ =>
      split at result
      · cases result
      · split at result
        · next t reverted =>
            obtain rfl := Except.ok.inj result
            unfold StateDB.revertJournal at reverted
            split at reverted
            · next entries u rewound =>
                obtain rfl := Except.ok.inj reverted
                refine shed entries u _ _ (UndoLog.rewind_keeps (fun entry rest s reverted before undone => ?_) holds rewound)
                simp only [JournalEntry.undo] at undone
                split at undone
                · next t reverted =>
                    obtain rfl := Except.ok.inj undone
                    exact shed rest t _ t.validRevisions (keeps entry rest s t before (JournalEntry.revert_undo reverted))
                · cases undone
            · cases reverted
        · cases result

end Undoing

end CuteEVM
