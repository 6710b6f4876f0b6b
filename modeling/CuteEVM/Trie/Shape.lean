import CuteEVM.Trie.Contents

set_option autoImplicit false

namespace CuteEVM.Trie

variable {db db' : Reader} {n n' val : Node} {children : Fin 17 → Node} {flags : NodeFlag} {k c c' p q : Bytes} {i : Fin 17}

-- A node with all that is below it loaded, and without its flags.
inductive Expands (db : Reader) : Node → Node → Prop where
  | nil : Expands db .nil .nil
  | value (v : Bytes) : Expands db (.value v) (.value v)
  | short {k : Bytes} {val s : Node} {flags : NodeFlag} (below : Expands db val s) : Expands db (.short k val flags)
    (.short k s {})
  | full {children shapes : Fin 17 → Node} {flags : NodeFlag} (below : ∀ i, Expands db (children i) (shapes i)) :
      Expands db (.full children flags) (.full shapes {})
  | hash {h : Hash} {n s : Node} (found : db h = some (some n)) (below : Expands db n s) : Expands db (.hash h) s

theorem Sound.unhashed (sound : Sound db n) : ∃ m, m.isHash = false ∧ Sound db m ∧ (∀ p w, Holds db n p w ↔ Holds db m p w) ∧
    ∀ s, Expands db m s → Expands db n s := by
  by_cases isHash : n.isHash = true
  · cases sound with
    | hash found loaded inner => exact ⟨_, loaded, inner, fun _ _ => holds_hash found, fun _ => .hash found⟩
    | _ => cases isHash
  · exact ⟨n, Bool.eq_false_of_not_eq_true isHash, sound, fun _ _ => Iff.rfl, fun _ => id⟩

theorem Sound.entry (sound : Sound db n) : ∃ p w, Holds db n p w := by
  induction sound with
  | leaf => exact ⟨_, _, .short (.value _)⟩
  | extension _ _ _ _ ih =>
    obtain ⟨p, w, inside⟩ := ih
    exact ⟨_, w, .short inside⟩
  | @full children _ below value two ih =>
    obtain ⟨i, _, -, there, -⟩ := two
    by_cases last : i = .last 16
    · obtain ⟨v, -, isValue⟩ := value (last ▸ there)
      exact ⟨_, v, .full (i := .last 16) (by rw [isValue]; exact .value v)⟩
    · obtain ⟨p, w, inside⟩ := ih i last there
      exact ⟨_, w, .full inside⟩
  | hash found _ _ ih =>
    obtain ⟨p, w, inside⟩ := ih
    exact ⟨p, w, .hash found inside⟩

theorem Slot.entry (slot : Slot db i n) : ∃ p w, Holds db n p w := by
  rw [Slot] at slot
  split at slot
  · obtain ⟨v, -, rfl⟩ := slot
    exact ⟨[], v, .value v⟩
  · exact slot.entry

-- All keys begin in the same way, and part right after that.
structure Stem (db : Reader) (n : Node) (c : Bytes) : Prop where
  common : ∀ {p w}, Holds db n p w → c <+: p
  parts : ∃ i j p q v w, i ≠ j ∧ Holds db n (c ++ nibble i :: p) v ∧ Holds db n (c ++ nibble j :: q) w

theorem prefix_of_parts {a b : UInt8} (first : c' <+: c ++ a :: p) (second : c' <+: c ++ b :: q) (apart : a ≠ b) : c' <+: c := by
  induction c generalizing c' with
  | nil =>
    cases c' with
    | nil => exact List.nil_prefix
    | cons x c' => exact absurd ((List.cons_prefix_cons.mp first).1.symm.trans (List.cons_prefix_cons.mp second).1) apart
  | cons y c ih =>
    cases c' with
    | nil => exact List.nil_prefix
    | cons x c' =>
      obtain ⟨rfl, rest⟩ := List.cons_prefix_cons.mp first
      exact List.cons_prefix_cons.mpr ⟨rfl, ih rest (List.cons_prefix_cons.mp second).2⟩

theorem Stem.prefix_of (stem : Stem db n c) (common : ∀ {p w}, Holds db n p w → c' <+: p) : c' <+: c := by
  obtain ⟨i, j, p, q, v, w, apart, first, second⟩ := stem.parts
  exact prefix_of_parts (common first) (common second) (nibble_injective.ne apart)

theorem Stem.unique (stem : Stem db n c) (stem' : Stem db' n' c') (same : ∀ p w, Holds db n p w ↔ Holds db' n' p w) : c = c' :=
  (stem'.prefix_of fun inside => stem.common ((same _ _).mpr inside)).eq_of_length_le
    (stem.prefix_of fun inside => stem'.common ((same _ _).mp inside)).length_le

theorem Sound.stem_full (sound : Sound db (.full children flags)) : Stem db (.full children flags) [] := by
  obtain ⟨slots, i, j, apart, first, second⟩ := sound_full.mp sound
  obtain ⟨p, v, here⟩ := (slots i first).entry
  obtain ⟨q, w, there⟩ := (slots j second).entry
  exact ⟨fun _ => List.nil_prefix, i, j, p, q, v, w, apart, .full here, .full there⟩

theorem Sound.stem_short (sound : Sound db val) (branches : val.Branches db) : Stem db (.short k val flags) k := by
  have stem : Stem db val [] := by
    cases sound with
    | full below value two => exact Sound.stem_full (.full below value two)
    | hash found loaded inner =>
      obtain ⟨children, flags, isFull⟩ := branches
      cases found.symm.trans isFull
      obtain ⟨common, i, j, p, q, v, w, apart, first, second⟩ := inner.stem_full
      exact ⟨fun _ => List.nil_prefix, i, j, p, q, v, w, apart, .hash found first, .hash found second⟩
    | _ => exact branches.elim
  obtain ⟨-, i, j, p, q, v, w, apart, first, second⟩ := stem
  refine ⟨fun inside => ?_, i, j, p, q, v, w, apart, .short first, .short second⟩
  obtain ⟨q, rfl, -⟩ := holds_short.mp inside
  exact List.prefix_append k q

-- A leaf has one key.
theorem not_stem_leaf {v : Bytes} (stem : Stem db' n' c)
    (same : ∀ p w, Holds db (.short k (.value v) flags) p w ↔ Holds db' n' p w) : False := by
  obtain ⟨i, j, p, q, _, _, apart, first, second⟩ := stem.parts
  have only {p w : Bytes} (inside : Holds db' n' p w) : p = k := by
    obtain ⟨q, rfl, atEnd⟩ := holds_short.mp ((same p w).mpr inside)
    rw [(holds_value.mp atEnd).1, List.append_nil]
  exact apart (nibble_injective (List.cons.inj (List.append_cancel_left ((only first).trans (only second).symm))).1)

-- Canonical tries with the same entries are the same trie.
theorem Sound.shape_unique (sound : Sound db n) (sound' : Sound db' n') (same : ∀ p w, Holds db n p w ↔ Holds db' n' p w) :
    ∃ s, Expands db n s ∧ Expands db' n' s := by
  induction sound generalizing n' with
  | hash found loaded inner ih =>
    obtain ⟨s, expands, expands'⟩ := ih sound' fun p w => (holds_hash found).symm.trans (same p w)
    exact ⟨s, .hash found expands, expands'⟩
  | @leaf k v flags terminated nonempty =>
    obtain ⟨m, loaded, sound', holds, expands⟩ := sound'.unhashed
    have same (p w : Bytes) := (same p w).trans (holds p w)
    cases sound' with
    | @leaf k' v' _ =>
      have here := (same k v).mp (holds_short.mpr ⟨[], (List.append_nil k).symm, .value v⟩)
      obtain ⟨q, isKey, inside⟩ := holds_short.mp here
      obtain ⟨rfl, rfl⟩ := holds_value.mp inside
      rw [List.append_nil] at isKey
      subst isKey
      exact ⟨_, .short (.value v), expands _ (.short (.value v))⟩
    | extension _ _ branches inner => exact (not_stem_leaf (inner.stem_short branches) same).elim
    | full below value two => exact (not_stem_leaf (Sound.stem_full (.full below value two)) same).elim
    | hash => cases loaded
  | @extension k val flags some nibbles branches inner ih =>
    have stem := @Sound.stem_short _ _ flags k inner branches
    obtain ⟨m, loaded, sound', holds, expands⟩ := sound'.unhashed
    have same (p w : Bytes) := (same p w).trans (holds p w)
    cases sound' with
    | leaf => exact (not_stem_leaf stem fun p w => (same p w).symm).elim
    | @extension k' val' _ _ _ branches' inner' =>
      obtain rfl := stem.unique (inner'.stem_short branches') same
      obtain ⟨s, below, below'⟩ := ih inner' fun p w => by rw [← holds_below, same, holds_below]
      exact ⟨_, .short below, expands _ (.short below')⟩
    | full below value two => exact absurd (stem.unique (Sound.stem_full (.full below value two)) same) some
    | hash => cases loaded
  | @full children flags below value two ih =>
    have sound : Sound db (.full children flags) := .full below value two
    obtain ⟨m, loaded, sound', holds, expands⟩ := sound'.unhashed
    have same (p w : Bytes) := (same p w).trans (holds p w)
    cases sound' with
    | leaf => exact (not_stem_leaf sound.stem_full fun p w => (same p w).symm).elim
    | extension some _ branches inner => exact absurd (sound.stem_full.unique (inner.stem_short branches) same).symm some
    | @full children' flags' below' value' two' =>
      have sound' : Sound db' (.full children' flags') := .full below' value' two'
      have inner (i : Fin 17) (p w : Bytes) : Holds db (children i) p w ↔ Holds db' (children' i) p w := by
        rw [← holds_child, same, holds_child]
      have each (i : Fin 17) : ∃ s, Expands db (children i) s ∧ Expands db' (children' i) s := by
        by_cases none : children i = .nil
        · have none' : children' i = .nil := by
            by_contra there
            obtain ⟨p, w, inside⟩ := ((sound_full.mp sound').1 i there).entry
            exact holds_nil (none ▸ (inner i p w).mpr inside)
          rw [none, none']
          exact ⟨.nil, .nil, .nil⟩
        · obtain ⟨p, w, inside⟩ := ((sound_full.mp sound).1 i none).entry
          have there : children' i ≠ .nil := fun none => holds_nil (none ▸ (inner i p w).mp inside)
          by_cases last : i = .last 16
          · subst last
            obtain ⟨v, -, isValue⟩ := value none
            obtain ⟨v', -, isValue'⟩ := value' there
            have here := (inner (.last 16) [] v).mp (isValue ▸ .value v)
            rw [isValue'] at here
            obtain rfl := (holds_value.mp here).2
            rw [isValue, isValue']
            exact ⟨.value v, .value v, .value v⟩
          · exact ih i last none (below' i last there) (inner i)
      choose shapes shape shape' using each
      exact ⟨_, .full shape, expands _ (.full shape')⟩
    | hash => cases loaded

end CuteEVM.Trie
