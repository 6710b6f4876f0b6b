import CuteEVM.State.Commit

set_option autoImplicit false

-- The states a `StateDB` can get into, and what going back to a snapshot does in each of them.

namespace CuteEVM

-- A call of a public method of `StateDB`; the reads that cannot change a state are left out.
inductive Op where
  | exist (addr : Address)
  | empty (addr : Address)
  | getBalance (addr : Address)
  | getNonce (addr : Address)
  | getCode (addr : Address)
  | getCodeSize (addr : Address)
  | getCodeHash (addr : Address)
  | getState (addr : Address) (key : Hash)
  | getCommittedState (addr : Address) (key : Hash)
  | hasSuicided (addr : Address)
  | addBalance (addr : Address) (amount : Int)
  | subBalance (addr : Address) (amount : Int)
  | setBalance (addr : Address) (amount : Int)
  | setNonce (addr : Address) (nonce : Nat)
  | setCode (addr : Address) (code : Bytes)
  | setState (addr : Address) (key value : Hash)
  | createAccount (addr : Address)
  | suicide (addr : Address)
  | addRefund (gas : Nat)
  | subRefund (gas : Nat)
  | addLog (log : Log)
  | addPreimage (hash : Hash) (preimage : Bytes)
  | prepare (thash bhash : Hash) (ti : Nat)
  | snapshot
  | revertToSnapshot (revid : Nat)
  | finalise (deleteEmptyObjects : Bool)
  | commit (deleteEmptyObjects : Bool)
  | reset (trie : Address → Option Account)

namespace Op

variable [Crypto]

def apply (s : StateDB) : Op → Except Panic StateDB
  | .exist addr => .ok (s.exist addr).2
  | .empty addr => .ok (s.empty addr).2
  | .getBalance addr => .ok (s.getBalance addr).2
  | .getNonce addr => .ok (s.getNonce addr).2
  | .getCode addr => .ok (s.getCode addr).2
  | .getCodeSize addr => .ok (s.getCodeSize addr).2
  | .getCodeHash addr => .ok (s.getCodeHash addr).2
  | .getState addr key => .ok (s.getState addr key).2
  | .getCommittedState addr key => .ok (s.getCommittedState addr key).2
  | .hasSuicided addr => .ok (s.hasSuicided addr).2
  | .addBalance addr amount => .ok (s.addBalance addr amount)
  | .subBalance addr amount => .ok (s.subBalance addr amount)
  | .setBalance addr amount => .ok (s.setBalance addr amount)
  | .setNonce addr nonce => .ok (s.setNonce addr nonce)
  | .setCode addr code => .ok (s.setCode addr code)
  | .setState addr key value => .ok (s.setState addr key value)
  | .createAccount addr => .ok (s.createAccount addr)
  | .suicide addr => .ok (s.suicide addr).2
  | .addRefund gas => .ok (s.addRefund gas)
  | .subRefund gas => s.subRefund gas
  | .addLog log => .ok (s.addLog log)
  | .addPreimage hash preimage => .ok (s.addPreimage hash preimage)
  | .prepare thash bhash ti => .ok (s.prepare thash bhash ti)
  | .snapshot => .ok s.snapshot.2
  | .revertToSnapshot revid => s.revertToSnapshot revid
  | .finalise deleteEmptyObjects => .ok (s.finalise deleteEmptyObjects)
  | .commit deleteEmptyObjects => .ok (s.commit deleteEmptyObjects)
  | .reset trie => .ok (s.reset trie)

def ends : Op → Bool
  | .finalise _ | .commit _ | .reset _ => true
  | _ => false

def applyAll : List Op → StateDB → Except Panic StateDB
  | [], s => .ok s
  | op :: rest, s =>
    match op.apply s with
    | .ok s' => applyAll rest s'
    | .error fault => .error fault

-- `Commit(false)` is not called while an object that was deleted as empty waits to be written.
def Guarded (s : StateDB) : Op → Prop
  | .commit deleteEmptyObjects => Settled deleteEmptyObjects s
  | _ => True

end Op

section Runs

variable [Crypto]
variable {s s' : StateDB}


inductive Reached (condition : StateDB → Op → Prop) : StateDB → Prop where
  | new (trie : Address → Option Account) (codes : Hash → Option Bytes) : Reached condition (StateDB.new trie codes)
  | step {s s' : StateDB} (op : Op) (reached : Reached condition s) (meets : condition s op)
      (result : op.apply s = .ok s') : Reached condition s'

theorem new_slot (trie : Address → Option Account) (codes : Hash → Option Bytes) (a : Address) :
    SlotOk a ((StateDB.new trie codes).slot a) ∧ SlotClean ((StateDB.new trie codes).slot a) := by
  have object : ((StateDB.new trie codes).slot a).object = none := rfl
  have pending : ((StateDB.new trie codes).slot a).pending = false := rfl
  refine ⟨⟨?_, ?_, ?_, ?_, ?_⟩, ?_⟩ <;> simp [object, pending, SlotClean]

theorem new_valid (trie : Address → Option Account) (codes : Hash → Option Bytes) : Valid (StateDB.new trie codes) :=
  .of_slots rfl rfl (Nat.two_pow_pos 64) fun a => (new_slot trie codes a).1

theorem new_clean (trie : Address → Option Account) (codes : Hash → Option Bytes) : Clean (StateDB.new trie codes) :=
  .of_slots rfl fun a => (new_slot trie codes a).2

theorem reset_valid (s : StateDB) (trie : Address → Option Account) : Valid (s.reset trie) :=
  .of_slots rfl rfl (Nat.two_pow_pos 64) fun a => (new_slot trie s.codes a).1

theorem reset_clean (s : StateDB) (trie : Address → Option Account) : Clean (s.reset trie) :=
  .of_slots rfl fun a => (new_slot trie s.codes a).2

omit [Crypto] in
theorem revertToSnapshot_member {revid : Nat} (result : s.revertToSnapshot revid = .ok s') :
    ∃ older r newer, s.validRevisions = older ++ r :: newer ∧ r.id = revid := by
  unfold StateDB.revertToSnapshot at result
  simp only at result
  split at result
  · simp at result
  · next r found =>
      split at result
      · simp at result
      · next same =>
          obtain ⟨older, newer, split⟩ := List.append_of_mem (List.mem_of_getElem? found)
          exact ⟨older, r, newer, split, by simpa using same⟩

theorem Op.step (valid : Valid s) {op : Op} (plain : op.ends = false) (result : op.apply s = .ok s') :
    Evolves s s' ∨ ∃ older r newer upper, s.validRevisions = older ++ r :: newer ∧
      op = .revertToSnapshot r.id ∧ Rewound upper older s s' := by
  cases op with
  | finalise _ => simp [Op.ends] at plain
  | commit _ => simp [Op.ends] at plain
  | reset _ => simp [Op.ends] at plain
  | revertToSnapshot revid =>
    right
    obtain ⟨older, r, newer, split, same⟩ := revertToSnapshot_member result
    obtain ⟨t, upper, reverted, rewound, _⟩ := revertToSnapshot_ok valid split
    subst same
    obtain rfl := Except.ok.inj (result.symm.trans reverted)
    exact ⟨older, r, newer, upper, split, rfl, rewound⟩
  | subRefund gas => exact .inl (subRefund_evolves valid result)
  | exist a => exact .inl (Except.ok.inj result ▸ (StateDB.exist_reads valid a).evolves)
  | empty a => exact .inl (Except.ok.inj result ▸ (StateDB.empty_reads valid a).evolves)
  | getBalance a => exact .inl (Except.ok.inj result ▸ (StateDB.getBalance_reads valid a).evolves)
  | getNonce a => exact .inl (Except.ok.inj result ▸ (StateDB.getNonce_reads valid a).evolves)
  | getCode a => exact .inl (Except.ok.inj result ▸ (StateDB.getCode_reads valid a).evolves)
  | getCodeSize a => exact .inl (Except.ok.inj result ▸ (StateDB.getCodeSize_reads valid a).evolves)
  | getCodeHash a => exact .inl (Except.ok.inj result ▸ (StateDB.getCodeHash_reads valid a).evolves)
  | getState a key => exact .inl (Except.ok.inj result ▸ (StateDB.getState_reads valid a key).evolves)
  | getCommittedState a key => exact .inl (Except.ok.inj result ▸ (StateDB.getCommittedState_reads valid a key).evolves)
  | hasSuicided a => exact .inl (Except.ok.inj result ▸ (StateDB.hasSuicided_reads valid a).evolves)
  | addBalance a amount => exact .inl (Except.ok.inj result ▸ addBalance_evolves valid a amount)
  | subBalance a amount => exact .inl (Except.ok.inj result ▸ subBalance_evolves valid a amount)
  | setBalance a amount => exact .inl (Except.ok.inj result ▸ setBalance_evolves valid a amount)
  | setNonce a nonce => exact .inl (Except.ok.inj result ▸ setNonce_evolves valid a nonce)
  | setCode a code => exact .inl (Except.ok.inj result ▸ setCode_evolves valid a code)
  | setState a key value => exact .inl (Except.ok.inj result ▸ setState_evolves valid a key value)
  | createAccount a => exact .inl (Except.ok.inj result ▸ createAccount_evolves valid a)
  | suicide a => exact .inl (Except.ok.inj result ▸ suicide_evolves valid a)
  | addRefund gas => exact .inl (Except.ok.inj result ▸ addRefund_evolves valid gas)
  | addLog log => exact .inl (Except.ok.inj result ▸ addLog_evolves valid log)
  | addPreimage hash preimage => exact .inl (Except.ok.inj result ▸ addPreimage_evolves valid hash preimage)
  | prepare thash bhash ti => exact .inl (Except.ok.inj result ▸ prepare_evolves valid thash bhash ti)
  | snapshot => exact .inl (Except.ok.inj result ▸ snapshot_evolves valid)

theorem Op.valid (valid : Valid s) {op : Op} (result : op.apply s = .ok s') : Valid s' := by
  cases plain : op.ends with
  | false =>
    rcases Op.step valid plain result with evolves | ⟨_, _, _, _, _, _, rewound⟩
    · exact evolves.valid
    · exact rewound.valid
  | true =>
    cases op <;> simp [Op.ends] at plain
    all_goals obtain rfl := Except.ok.inj result
    · exact finalise_valid valid _
    · exact commit_valid valid _
    · exact reset_valid s _

theorem Op.clean (valid : Valid s) (clean : Clean s) {op : Op} (guarded : op.Guarded s)
    (result : op.apply s = .ok s') : Clean s' := by
  cases plain : op.ends with
  | false =>
    rcases Op.step valid plain result with evolves | ⟨_, _, _, upper, _, _, rewound⟩
    · exact evolves.clean clean
    · refine Vacant.survives clean rewound.survives rewound.trie fun a member => clean.created a ?_
      rw [rewound.entries]
      exact List.mem_append_right upper member
  | true =>
    cases op <;> simp [Op.ends] at plain
    all_goals obtain rfl := Except.ok.inj result
    · exact finalise_clean valid clean _
    · exact commit_clean valid clean guarded
    · exact reset_clean s _

theorem Reached.valid {condition : StateDB → Op → Prop} {s : StateDB} (reached : Reached condition s) : Valid s := by
  induction reached with
  | new trie codes => exact new_valid trie codes
  | step _ _ _ result valid => exact Op.valid valid result

theorem Reached.clean {s : StateDB} (reached : Reached (fun s op => op.Guarded s) s) : Clean s := by
  induction reached with
  | new trie codes => exact new_clean trie codes
  | step _ reached guarded result clean => exact Op.clean reached.valid clean guarded result

structure Invalidated (id : Nat) (s : StateDB) : Prop where
  valid : Valid s
  gone : ∀ r ∈ s.validRevisions, r.id ≠ id
  past : id < s.nextRevisionId

theorem Invalidated.evolves {id : Nat} (gone : Invalidated id s) (evolves : Evolves s s') :
    Invalidated id s' where
  valid := evolves.valid
  gone := by
    obtain ⟨more, revisions, later⟩ := evolves.revisions
    intro r member
    rw [revisions] at member
    rcases List.mem_append.mp member with old | new
    · exact gone.gone r old
    · have bound := (later r new).1
      have past := gone.past
      omega
  past := Nat.lt_of_lt_of_le gone.past evolves.next

theorem since_snapshot {s t t' : StateDB} (valid : Valid s)
    (since : Evolves s.snapshot.2 t ∨ Invalidated s.snapshot.1 t) {op : Op} (plain : op.ends = false)
    (result : op.apply t = .ok t') : Evolves s.snapshot.2 t' ∨ Invalidated s.snapshot.1 t' := by
  have taken := (snapshot_evolves valid).valid
  rcases since with evolves | gone
  · rcases Op.step evolves.valid plain result with next | ⟨older, r, newer, upper, split, rfl, rewound⟩
    · exact .inl (evolves.trans next)
    · by_cases later : s.snapshot.2.nextRevisionId ≤ r.id
      · left
        obtain ⟨u, reverted, evolves', _⟩ := evolves.revert taken split later
        obtain rfl := Except.ok.inj (result.symm.trans reverted)
        exact evolves'
      · right
        -- the revision is that of the snapshot or an older one, so the snapshot is dropped
        refine ⟨rewound.valid, fun r' member same => ?_, ?_⟩
        · rw [rewound.validRevisions] at member
          have sorted := evolves.valid.ordered.sorted
          rw [split] at sorted
          have below := ((List.pairwise_append.mp sorted).2.2 r' member r List.mem_cons_self).1
          simp only [StateDB.snapshot] at later same
          omega
        · rw [rewound.nextRevisionId]
          exact evolves.next
  · right
    rcases Op.step gone.valid plain result with next | ⟨older, r, newer, upper, split, rfl, rewound⟩
    · exact gone.evolves next
    · refine ⟨rewound.valid, fun r' member => gone.gone r' ?_, ?_⟩
      · rw [split]
        exact List.mem_append_left _ (rewound.validRevisions ▸ member)
      · rw [rewound.nextRevisionId]
        exact gone.past

theorem applyAll_since {s t t' : StateDB} (valid : Valid s)
    (since : Evolves s.snapshot.2 t ∨ Invalidated s.snapshot.1 t) {ops : List Op}
    (plain : ∀ op ∈ ops, op.ends = false) (result : Op.applyAll ops t = .ok t') :
    Evolves s.snapshot.2 t' ∨ Invalidated s.snapshot.1 t' := by
  induction ops generalizing t with
  | nil =>
    obtain rfl := Except.ok.inj result
    exact since
  | cons op rest ih =>
    simp only [Op.applyAll] at result
    split at result
    · next next applied =>
        exact ih (since_snapshot valid since (plain op List.mem_cons_self) applied)
          (fun op member => plain op (List.mem_cons_of_mem _ member)) result
    · simp at result

theorem Restored.dirties {s t : StateDB} (valid : Valid s) (restored : Restored s t) {a : Address}
    (other : a ≠ ripemd) : t.journal.dirties.lookup a = s.journal.dirties.lookup a := by
  have counted := restored.evolves.valid.kept.counts.counted
  rw [restored.entries] at counted
  exact counted.lookup_eq valid.kept.counts.counted a other

omit [Crypto] in
theorem Settled.survives {s t : StateDB} {deleteEmptyObjects : Bool} (settled : Settled deleteEmptyObjects s)
    (survives : Survives s t) : Settled deleteEmptyObjects t :=
  fun a o live deleted alive pending =>
    settled a o (survives.live a o live deleted) deleted alive (survives.pending a pending)

theorem Restored.finalise_trie {s t : StateDB} (valid : Valid s) (clean : Clean s) (restored : Restored s t)
    (deleteEmptyObjects : Bool) {a : Address} (other : a ≠ ripemd) :
    (t.finalise deleteEmptyObjects).trie a = (s.finalise deleteEmptyObjects).trie a := by
  have dirties := restored.dirties valid other
  rw [CuteEVM.finalise_trie restored.evolves.valid _ other, CuteEVM.finalise_trie valid _ other, dirties,
    restored.world clean, restored.evolves.trie]

theorem Restored.commit_trie {s t : StateDB} (valid : Valid s) (clean : Clean s) (restored : Restored s t)
    {deleteEmptyObjects : Bool} (settled : Settled deleteEmptyObjects s) {a : Address} (other : a ≠ ripemd) :
    (t.commit deleteEmptyObjects).trie a = (s.commit deleteEmptyObjects).trie a := by
  have dirties := restored.dirties valid other
  have evolves := restored.evolves
  rw [CuteEVM.commit_trie evolves.valid (evolves.clean clean) (settled.survives evolves.survives) other,
    CuteEVM.commit_trie valid clean settled other, dirties, restored.world clean, evolves.trie]

-- Going back to a snapshot shows what the state showed when it was taken, and what is written to the
-- trie later is what would have been written without the operations in between.
theorem revertToSnapshot_exact (reached : Reached (fun s op => op.Guarded s) s) (since : List Op)
    (plain : ∀ op ∈ since, op.ends = false) (result : Op.applyAll since s.snapshot.2 = .ok s')
    (kept : s.snapshot.1 ∈ s'.validRevisions.map Revision.id) :
    ∃ t, s'.revertToSnapshot s.snapshot.1 = .ok t ∧ t.observe = s.observe ∧
      (∀ a, a ≠ ripemd → t.journal.dirties.lookup a = s.journal.dirties.lookup a) ∧
      (∀ deleteEmptyObjects a, a ≠ ripemd →
        (t.finalise deleteEmptyObjects).trie a = (s.finalise deleteEmptyObjects).trie a) ∧
      (∀ deleteEmptyObjects, Settled deleteEmptyObjects s → ∀ a, a ≠ ripemd →
        (t.commit deleteEmptyObjects).trie a = (s.commit deleteEmptyObjects).trie a) := by
  have valid := reached.valid
  have clean := reached.clean
  have start : Evolves s.snapshot.2 s.snapshot.2 := .refl (snapshot_evolves valid).valid
  rcases applyAll_since valid (.inl start) plain result with evolves | gone
  · obtain ⟨t, reverted, restored⟩ := snapshot_restores valid evolves
    exact ⟨t, reverted, observe_congr (restored.world clean) restored.evolves.codes,
      fun a other => restored.dirties valid other,
      fun deleteEmptyObjects a other => restored.finalise_trie valid clean deleteEmptyObjects other,
      fun deleteEmptyObjects settled a other => restored.commit_trie valid clean settled other⟩
  · obtain ⟨r, member, same⟩ := List.mem_map.mp kept
    exact absurd same (gone.gone r member)

end Runs

section Samples

attribute [local instance] Crypto.sample

theorem exists_ok {ε α : Type} {result : Except ε α} {test : α → Bool} (passed : (result.toOption.map test).getD false = true) :
    ∃ value, result = .ok value ∧ test value = true := by
  cases result with
  | error err => cases passed
  | ok value => exact ⟨value, rfl, passed⟩

-- An account is changed and another one created after a snapshot of a state with one account.
theorem revertToSnapshot_exact_sample :
    ∃ t, ((((StateDB.new (fun _ => none) (fun _ => none)).addBalance 1 7).snapshot.2.setNonce 1 5).addBalance 2
        3).revertToSnapshot 0 = .ok t ∧ t.observe.balance 1 = 7 ∧ t.observe.nonce 1 = 0 ∧ t.observe.exist 2 = false := by
  let s := (StateDB.new (fun _ => none) (fun _ => none)).addBalance 1 7
  obtain ⟨t, reverted, seen, _⟩ := revertToSnapshot_exact (s := s)
    (.step (.addBalance 1 7) (.new (fun _ => none) (fun _ => none)) trivial rfl)
    [.setNonce 1 5, .addBalance 2 3] (by simp [Op.ends]) rfl (by decide)
  refine ⟨t, reverted, ?_⟩
  rw [seen]
  decide

-- An empty account that `Finalise(true)` deleted is written back by `Commit(false)`. It does not exist, but after
-- it is created and the creation is reverted it does.
theorem revertToSnapshot_resurrects :
    ∃ s s' t, Reached (fun _ _ => True) s ∧ Op.applyAll [.createAccount 2] s.snapshot.2 = .ok s' ∧
      s.snapshot.1 ∈ s'.validRevisions.map Revision.id ∧ s'.revertToSnapshot s.snapshot.1 = .ok t ∧
      s.observe.exist 2 = false ∧ t.observe.exist 2 = true := by
  let start := StateDB.new (fun _ => none) (fun _ => none)
  let s := ((start.addBalance 2 0).finalise true).commit false
  have reached : Reached (fun _ _ => True) s :=
    .step (.commit false) (.step (.finalise true) (.step (.addBalance 2 0) (.new _ _) trivial rfl) trivial rfl)
      trivial rfl
  obtain ⟨t, reverted, exist⟩ : ∃ t, (s.snapshot.2.createAccount 2).revertToSnapshot s.snapshot.1 = .ok t ∧
      t.observe.exist 2 = true :=
    exists_ok (by decide +kernel)
  exact ⟨s, s.snapshot.2.createAccount 2, t, reached, rfl, by decide +kernel, reverted, by decide +kernel, exist⟩

end Samples

end CuteEVM
