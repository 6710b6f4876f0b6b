import CuteEVM.State.Operations

set_option autoImplicit false

-- Going back to a snapshot undoes all that happened since, however the operations were nested.

namespace CuteEVM

variable [Crypto] {s t : StateDB}

theorem snapshot_evolves (valid : Valid s) : Evolves s s.snapshot.2 where
  valid := {
    kept := {
      objects := by
        have objects := valid.kept.objects
        exact ⟨objects.keyed, objects.sound, objects.removed, objects.anchored, objects.pending,
          ⟨objects.unfunded.deleted, objects.unfunded.created⟩⟩
      counts := by
        have counts := valid.kept.counts
        exact ⟨counts.counted, counts.undeleted, counts.logged, counts.logSize⟩ }
    ordered := {
      sorted := by
        simp only [StateDB.snapshot]
        refine List.pairwise_append.mpr ⟨valid.ordered.sorted, List.pairwise_singleton _ _, ?_⟩
        intro r member r' last
        obtain rfl := List.mem_singleton.mp last
        exact valid.ordered.bounded r member
      bounded := by
        simp only [StateDB.snapshot]
        intro r member
        rcases List.mem_append.mp member with member | last
        · have bound := valid.ordered.bounded r member
          omega
        · obtain rfl := List.mem_singleton.mp last
          simp } }
  clean := fun clean => ⟨clean.deleted, clean.created⟩
  survives := ⟨fun _ _ live _ => live, fun _ dirty => dirty⟩
  trie := rfl
  codes := rfl
  next := Nat.le_succ _
  revisions := ⟨[⟨s.nextRevisionId, s.journal.entries.length⟩], rfl, by simp⟩
  history := ⟨[], rfl, rfl, .refl _ _ _⟩

theorem snapshot_world (s : StateDB) : s.snapshot.2.world = s.world := rfl

omit [Crypto] in
theorem snapshot_balances (s : StateDB) : s.snapshot.2.balances = s.balances := rfl

omit [Crypto] in
theorem split_revisions {older newer more : List Revision} {r : Revision}
    (split : s.validRevisions ++ more = older ++ r :: newer) (recent : r ∉ s.validRevisions) :
    ∃ between, older = s.validRevisions ++ between ∧ more = between ++ r :: newer := by
  rcases List.append_eq_append_iff.mp split with ⟨between, same, rest⟩ | ⟨between, same, rest⟩
  · exact ⟨between, same, rest⟩
  · cases between with
    | nil => exact ⟨[], by simpa using same.symm, by simpa using rest.symm⟩
    | cons first others =>
      obtain ⟨rfl, _⟩ := List.cons.inj rest
      exact absurd (by simp [same]) recent

theorem Evolves.revert (valid : Valid s) (evolves : Evolves s t) {older newer : List Revision} {r : Revision}
    (split : t.validRevisions = older ++ r :: newer) (recent : s.nextRevisionId ≤ r.id) :
    ∃ t', t.revertToSnapshot r.id = .ok t' ∧ Evolves s t' ∧ t'.journal.entries.length = r.journalIndex ∧
      t'.validRevisions = older := by
  obtain ⟨t', upper, result, rewound, length⟩ := revertToSnapshot_ok evolves.valid split
  refine ⟨t', result, ?_, length, rewound.validRevisions⟩
  obtain ⟨more, revisions, later⟩ := evolves.revisions
  obtain ⟨new, entries, balances, world⟩ := evolves.history
  have unknown : r ∉ s.validRevisions := by
    intro member
    have bound := (valid.ordered.bounded r member).1
    omega
  obtain ⟨between, same, rest⟩ := split_revisions (revisions.symm.trans split) unknown
  have above : s.journal.entries.length ≤ t'.journal.entries.length := by
    rw [length]
    exact (later r (by simp [rest])).2
  obtain ⟨kept, newEq, entriesEq⟩ : ∃ kept, new = upper ++ kept ∧
      t'.journal.entries = kept ++ s.journal.entries := by
    have both := entries.symm.trans rewound.entries
    rcases List.append_eq_append_iff.mp both with ⟨kept, same, rest⟩ | ⟨kept, same, rest⟩
    · have none : kept = [] := by
        have lengths := congrArg List.length rest
        simp only [List.length_append] at lengths
        exact List.length_eq_zero_iff.mp (by omega)
      subst none
      exact ⟨[], by simpa using same.symm, by simpa using rest.symm⟩
    · exact ⟨kept, same, rest⟩
  exact {
    valid := rewound.valid
    clean := fun clean => by
      have before := evolves.clean clean
      refine Vacant.survives before rewound.survives rewound.trie fun a member => before.created a ?_
      rw [rewound.entries]
      exact List.mem_append_right upper member
    survives := evolves.survives.trans rewound.survives
    trie := rewound.trie.trans evolves.trie
    codes := rewound.codes.trans evolves.codes
    next := rewound.nextRevisionId ▸ evolves.next
    revisions := by
      refine ⟨between, rewound.validRevisions.trans same, fun r' member => later r' ?_⟩
      rw [rest]
      exact List.mem_append_left _ member
    history := by
      refine ⟨kept, entriesEq, ?_, ?_⟩
      · rw [rewound.balances, evolves.trie, ← UndoLog.undoAll_append, ← newEq, balances]
      · rw [rewound.world, evolves.trie, evolves.codes, ← UndoLog.undoAll_append, ← newEq]
        exact world }

structure Restored (s s' : StateDB) : Prop where
  evolves : Evolves s s'
  entries : s'.journal.entries = s.journal.entries
  validRevisions : s'.validRevisions = s.validRevisions
  balances : s'.balances = s.balances
  world : Clean s → s'.world = s.world
  shown : s.world.Reveals s.trie s.codes s'.world

theorem snapshot_restores (valid : Valid s) (evolves : Evolves s.snapshot.2 t) :
    ∃ t', t.revertToSnapshot s.snapshot.1 = .ok t' ∧ Restored s t' := by
  obtain ⟨more, revisions, _⟩ := evolves.revisions
  have split : t.validRevisions =
      s.validRevisions ++ ⟨s.nextRevisionId, s.journal.entries.length⟩ :: more := by
    rw [revisions]
    simp [StateDB.snapshot]
  have since := (snapshot_evolves valid).trans evolves
  obtain ⟨t', result, evolves', length, older⟩ := since.revert valid split (Nat.le_refl _)
  refine ⟨t', result, ?_⟩
  obtain ⟨new, entries, balances, world⟩ := evolves'.history
  have none : new = [] := by
    have lengths := congrArg List.length entries
    change t'.journal.entries.length = s.journal.entries.length at length
    rw [length, List.length_append] at lengths
    exact List.length_eq_zero_iff.mp (by omega)
  subst none
  exact ⟨evolves', entries, older, balances, fun clean => world.eq_of_clean clean, world⟩

end CuteEVM
