import CuteEVM.Trie.Contents

set_option autoImplicit false

namespace CuteEVM.Trie

variable {db : Reader} {n n' val val' : Node} {path key k rest v p w : Bytes} {children : Fin 17 → Node} {flags flags' : NodeFlag}
    {i : Fin 17}
  {depth : Nat}

-- The calls that a node needs before a nibble of the key is used up.
def Node.cost (n : Node) : Nat := if n.isHash then 1 else 0

theorem Node.cost_le (n : Node) : n.cost ≤ 1 := by
  rw [Node.cost]
  split <;> decide

-- The rule for a function that follows a key down to where it ends or parts from the trie.
theorem Sound.walk {P : Nat → Node → Bytes → Bytes → Prop}
    (nil : ∀ {depth path rest}, rest = [] ∨ Terminated rest → P (depth + 1) .nil path rest)
    (value : ∀ {depth path u}, P (depth + 1) (.value u) path [])
    (apart : ∀ {depth path c r s val flags}, Sound db (.short (c ++ r) val flags) → Terminated (c ++ s) →
      prefixLen (c ++ s) (c ++ r) = c.length →
      r ≠ [] → s ≠ [] → (∀ a, s.head? = some a → r.head? ≠ some a) → P (depth + 2) (.short (c ++ r) val flags) path (c ++ s))
    (through : ∀ {depth path k rest val flags}, Sound db (.short k val flags) → Terminated (k ++ rest) →
      prefixLen (k ++ rest) k = k.length → P depth val (path ++ k) rest → P (depth + 1) (.short k val flags) path (k ++ rest))
    (full : ∀ {depth path i rest children flags}, Sound db (.full children flags) → (i = .last 16 ∧ rest = []) ∨
      (i ≠ .last 16 ∧ Terminated rest) →
      P depth (children i) (path ++ [nibble i]) rest → P (depth + 1) (.full children flags) path (nibble i :: rest))
    (hash : ∀ {depth path key h n}, db h = some (some n) → n.isHash = false → Sound db n → Terminated key → P depth n path key →
      P (depth + 1) (.hash h) path key)
    (sound : Sound db n) (terminated : Terminated key) (enough : n.cost + 2 * key.length < depth) : P depth n path key := by
  have succ : ∀ {a b : Nat}, a < b → ∃ d, b = d + 1 := fun {a b} lower => ⟨b - 1, by omega⟩
  induction sound generalizing key depth path with
  | @leaf k u flags isKey nonempty =>
    have sound : Sound db (.short k (.value u) flags) := .leaf isKey nonempty
    obtain ⟨depth, rfl⟩ : ∃ d, depth = d + 2 := ⟨depth - 2, by have := terminated.length_pos; omega⟩
    obtain ⟨c, s, r, rfl, rfl, length, heads⟩ := prefixLen_cases key k
    by_cases whole : r = []
    · subst whole
      rw [List.append_nil] at isKey length sound ⊢
      obtain rfl := isKey.eq_nil terminated
      exact through sound terminated length value
    · refine apart sound terminated length whole ?_ heads
      rintro rfl
      rw [List.append_nil] at terminated
      exact whole (terminated.eq_nil isKey)
  | @extension k val flags some nibbles branches inner ih =>
    have sound : Sound db (.short k val flags) := .extension some nibbles branches inner
    obtain ⟨c, s, r, rfl, rfl, length, heads⟩ := prefixLen_cases key k
    have rest := (terminated_append fun b inside => nibbles b (List.mem_append_left r inside)).mp terminated
    by_cases whole : r = []
    · subst whole
      rw [List.append_nil] at some length sound ⊢
      obtain ⟨depth, rfl⟩ := succ enough
      refine through sound terminated length (ih rest ?_)
      have := val.cost_le
      have := List.length_pos_iff.mpr some
      rw [List.length_append] at enough
      omega
    · obtain ⟨depth, rfl⟩ : ∃ d, depth = d + 2 := ⟨depth - 2, by have := terminated.length_pos; omega⟩
      exact apart sound terminated length whole rest.ne_nil heads
  | @full children flags below hasValue two ih =>
    obtain ⟨depth, rfl⟩ := succ enough
    obtain ⟨i, rest, rfl, place⟩ := terminated.uncons
    refine full (.full below hasValue two) place ?_
    have lower : (children i).cost + 2 * rest.length < depth := by
      have := (children i).cost_le
      rw [List.length_cons] at enough
      omega
    obtain ⟨fewer, rfl⟩ := succ lower
    by_cases none : children i = .nil
    · rw [none]
      exact nil (place.imp And.right And.right)
    · rcases place with ⟨rfl, rfl⟩ | ⟨other, terminated⟩
      · obtain ⟨u, -, isValue⟩ := hasValue none
        rw [isValue]
        exact value
      · exact ih i other none terminated lower
  | @hash h n found loaded sound ih =>
    obtain ⟨depth, rfl⟩ := succ enough
    refine hash found loaded sound terminated (ih terminated ?_)
    have : (Node.hash h).cost = 1 := rfl
    rw [Node.cost, if_neg (by rw [loaded]; exact Bool.false_ne_true)]
    omega

-- The node below a short node is replaced.
theorem Sound.replace (sound : Sound db (.short k val flags)) (terminated : Terminated (k ++ rest))
    (subtree : Subtree db rest val') (branches : val.Branches db → val'.Branches db) : Sound db (.short k val' flags') := by
  cases sound with
  | leaf isKey =>
    obtain rfl := isKey.eq_nil terminated
    obtain ⟨v, nonempty, rfl⟩ := subtree
    exact .leaf isKey nonempty
  | extension some nibbles isBranch =>
    have more := ((terminated_append nibbles).mp terminated).ne_nil
    rw [Subtree, if_neg more] at subtree
    exact .extension some nibbles (branches isBranch) subtree

theorem Sound.subtree (sound : Sound db (.short k val flags)) (terminated : Terminated (k ++ rest)) : Subtree db rest val := by
  cases sound with
  | leaf isKey nonempty =>
    obtain rfl := isKey.eq_nil terminated
    exact ⟨_, nonempty, rfl⟩
  | extension _ nibbles _ inner => exact .of_sound inner ((terminated_append nibbles).mp terminated)

-- The entry of one key is written, or removed, and the others are the old ones.
def Edited (db : Reader) (n : Node) (key : Bytes) (o : Option Bytes) (n' : Node) : Prop :=
  ∀ p w, Holds db n' p w ↔ (p = key ∧ o = some w) ∨ (p ≠ key ∧ Holds db n p w)

section Edited

variable {o : Option Bytes}

theorem Edited.short (child : Edited db val rest o val') (holds : ∀ p w, Holds db n' p w ↔ ∃ q, p = k ++ q ∧ Holds db val' q w) :
    Edited db (.short k val flags) (k ++ rest) o n' := by
  intro p w
  rw [holds, holds_short]
  constructor
  · rintro ⟨q, rfl, inside⟩
    rcases (child q w).mp inside with ⟨rfl, found⟩ | ⟨other, inside⟩
    · exact .inl ⟨rfl, found⟩
    · exact .inr ⟨fun same => other (List.append_cancel_left same), q, rfl, inside⟩
  · rintro (⟨rfl, found⟩ | ⟨other, q, rfl, inside⟩)
    · exact ⟨rest, rfl, (child rest w).mpr (.inl ⟨rfl, found⟩)⟩
    · exact ⟨q, rfl, (child q w).mpr (.inr ⟨fun same => other (by rw [same]), inside⟩)⟩

theorem Edited.full {c : Node} (child : Edited db (children i) rest o c)
    (holds : ∀ p w, Holds db n' p w ↔ Holds db (.full (Function.update children i c) flags') p w) :
    Edited db (.full children flags) (nibble i :: rest) o n' := by
  intro p w
  rw [holds, holds_full, holds_full]
  constructor
  · rintro ⟨x, q, rfl, inside⟩
    by_cases here : x = i
    · subst here
      rw [Function.update_self] at inside
      rcases (child q w).mp inside with ⟨rfl, found⟩ | ⟨other, inside⟩
      · exact .inl ⟨rfl, found⟩
      · exact .inr ⟨fun same => other (List.cons.inj same).2, x, q, rfl, inside⟩
    · rw [Function.update_of_ne here] at inside
      exact .inr ⟨fun same => here (nibble_injective (List.cons.inj same).1), x, q, rfl, inside⟩
  · rintro (⟨rfl, found⟩ | ⟨other, x, q, rfl, inside⟩)
    · exact ⟨i, rest, rfl, by rw [Function.update_self]; exact (child rest w).mpr (.inl ⟨rfl, found⟩)⟩
    · refine ⟨x, q, rfl, ?_⟩
      by_cases here : x = i
      · subst here
        rw [Function.update_self]
        exact (child q w).mpr (.inr ⟨fun same => other (by rw [same]), inside⟩)
      · rwa [Function.update_of_ne here]

theorem Edited.hash {h : Hash} (found : db h = some (some n)) (child : Edited db n key o n') : Edited db (.hash h) key o n' :=
  fun p w => by rw [child p w, holds_hash found]

theorem Edited.hash_self {h : Hash} (found : db h = some (some n)) (child : Edited db n key o n) :
    Edited db (.hash h) key o (.hash h) :=
  fun p w => by rw [holds_hash found]; exact child p w

-- A branch that is loaded is a full node.
theorem branches_of_hash {h : Hash} (found : db h = some (some n)) (branches : (Node.hash h).Branches db) : n.Branches db := by
  obtain ⟨children, flags, isFull⟩ := branches
  cases found.symm.trans isFull
  trivial

end Edited

/-! ## Inserting -/

structure Puts (db : Reader) (n : Node) (key v : Bytes) (n' : Node) : Prop where
  subtree : Subtree db key n'
  edited : Edited db n key (some v) n'
  branches : n.Branches db → n'.Branches db

def Inserts (db : Reader) (depth : Nat) (n : Node) (path key v : Bytes) : Prop :=
  ∃ dirty n', n.insert db depth path key (.value v) = .ok (dirty, n') ∧ Puts db n key v n' ∧ (dirty = false → Puts db n key v n)

theorem Sound.update {c : Node} (sound : Sound db (.full children flags)) (slot : Slot db i c) :
    Sound db (.full (Function.update children i c) flags') := by
  obtain ⟨slots, a, b, apart, first, second⟩ := sound_full.mp sound
  have kept : ∀ x, children x ≠ .nil → Function.update children i c x ≠ .nil := by
    intro x some
    by_cases here : x = i
    · rw [here, Function.update_self]
      exact slot.ne_nil
    · rwa [Function.update_of_ne here]
  refine sound_full.mpr ⟨fun x some => ?_, a, b, apart, kept a first, kept b second⟩
  by_cases here : x = i
  · rwa [here, Function.update_self]
  · rw [Function.update_of_ne here] at some ⊢
    exact slots x some

def hang (key : Bytes) (n : Node) : Node := if key = [] then n else .short key n newFlag

theorem holds_hang : Holds db (hang key n) p w ↔ ∃ q, p = key ++ q ∧ Holds db n q w := by
  rw [hang]
  split
  next none => simp [none]
  next => exact holds_short

theorem insert_nil (leaf : Node) : Node.insert db (depth + 1) .nil path key leaf = .ok (true, hang key leaf) := by
  rw [Node.insert, hang]
  split <;> rfl

theorem Inserts.nil (place : rest = [] ∨ Terminated rest) (nonempty : v ≠ []) : Inserts db (depth + 1) .nil path rest v := by
  refine ⟨true, hang rest (.value v), insert_nil _, ⟨?_, fun p w => ?_, False.elim⟩, by rintro ⟨⟩⟩
  · rw [Subtree, hang]
    split
    next => exact ⟨v, nonempty, rfl⟩
    next more => exact .leaf (place.resolve_left more) nonempty
  · simp [holds_hang, eq_comm]

theorem Inserts.value {u : Bytes} (nonempty : v ≠ []) : Inserts db (depth + 1) (.value u) path [] v := by
  refine ⟨decide (u ≠ v), .value v, rfl, ⟨⟨v, nonempty, rfl⟩, fun p w => ?_, False.elim⟩, fun clean => ?_⟩
  · simp only [holds_value, Option.some_inj, eq_comm]
    tauto
  · obtain rfl : u = v := not_not.mp (of_decide_eq_false clean)
    refine ⟨⟨u, nonempty, rfl⟩, fun p w => ?_, id⟩
    simp only [holds_value, Option.some_inj, eq_comm]
    tauto

-- A short node is cut at a nibble.
theorem Sound.cut {c r : Bytes} (sound : Sound db (.short (c ++ nibble i :: r) val flags)) :
    (∀ b ∈ c, b < 16) ∧ Slot db i (hang r val) := by
  rw [Slot, hang]
  cases sound with
  | leaf terminated some =>
    obtain ⟨small, here, rfl⟩ | ⟨small, here, terminated⟩ : (∀ b ∈ c, b < 16) ∧ nibble i = 16 ∧ r = [] ∨ (∀ b ∈ c, b < 16) ∧
        nibble i < 16 ∧ Terminated r :=
      and_or_left.mp (terminated.nibbles (List.cons_ne_nil _ _))
    · rw [if_pos (nibble_injective here), if_pos rfl]
      exact ⟨small, _, some, rfl⟩
    · rw [if_neg (nibble_lt.mp here), if_neg terminated.ne_nil]
      exact ⟨small, .leaf terminated some⟩
  | extension _ nibbles branches sound =>
    obtain ⟨small, here, others⟩ : (∀ b ∈ c, b < 16) ∧ nibble i < 16 ∧ ∀ b ∈ r, b < 16 := by
      simpa only [List.forall_mem_append, List.forall_mem_cons] using nibbles
    rw [if_neg (nibble_lt.mp here)]
    refine ⟨small, ?_⟩
    split
    next => exact sound
    next more => exact .extension more others branches sound

-- Where the key and that of a short node part, a full node has both.
theorem Puts.fork {c r s : Bytes} {j : Fin 17} (sound : Sound db (.short (c ++ nibble i :: r) val flags))
    (terminated : Terminated (c ++ nibble j :: s)) (apart : i ≠ j) (nonempty : v ≠ []) :
    Puts db (.short (c ++ nibble i :: r) val flags) (c ++ nibble j :: s) v
      (hang c (.full (Function.update (Function.update (fun _ => .nil) i (hang r val)) j (hang s (.value v))) newFlag)) := by
  obtain ⟨children, isChildren⟩ :
      ∃ e : Fin 17 → Node, e = Function.update (Function.update (fun _ => .nil) i (hang r val)) j (hang s (.value v)) :=
    ⟨_, rfl⟩
  have atNew : children j = hang s (.value v) := by rw [isChildren, Function.update_self]
  have atOld : children i = hang r val := by rw [isChildren, Function.update_of_ne apart, Function.update_self]
  have others : ∀ x, children x ≠ .nil → x = i ∨ x = j := by
    intro x there
    by_contra neither
    rw [not_or] at neither
    rw [isChildren, Function.update_of_ne neither.2, Function.update_of_ne neither.1] at there
    exact there rfl
  obtain ⟨small, old⟩ := sound.cut
  have new := (Sound.cut (Sound.leaf terminated nonempty : Sound db (.short (c ++ nibble j :: s) (.value v) flags))).2
  rw [← atOld] at old
  rw [← atNew] at new
  have branch : Sound db (.full children newFlag) := by
    refine sound_full.mpr ⟨fun x there => ?_, i, j, apart, old.ne_nil, new.ne_nil⟩
    rcases others x there with rfl | rfl
    · exact old
    · exact new
  rw [← isChildren]
  refine ⟨?_, fun p w => ?_, False.elim⟩
  · rw [Subtree, if_neg (by simp), hang]
    split
    next => exact branch
    next more => exact .extension more small trivial branch
  · rw [holds_hang]
    constructor
    · rintro ⟨q, rfl, below⟩
      obtain ⟨x, q, rfl, inside⟩ := holds_full.mp below
      have there : children x ≠ .nil := fun none => holds_nil (none ▸ inside)
      rcases others x there with rfl | rfl
      · rw [atOld, holds_hang] at inside
        obtain ⟨q, rfl, inside⟩ := inside
        refine .inr ⟨fun same => apart (nibble_injective (List.cons.inj (List.append_cancel_left same)).1),
          holds_short.mpr ⟨q, ?_, inside⟩⟩
        rw [List.append_assoc, List.cons_append]
      · rw [atNew, holds_hang] at inside
        obtain ⟨q, rfl, inside⟩ := inside
        obtain ⟨rfl, rfl⟩ := holds_value.mp inside
        exact .inl ⟨by rw [List.append_nil], rfl⟩
    · rintro (⟨rfl, ⟨⟩⟩ | ⟨-, below⟩)
      · refine ⟨_, rfl, holds_full.mpr ⟨j, s, rfl, ?_⟩⟩
        rw [atNew, holds_hang]
        exact ⟨[], (List.append_nil s).symm, .value v⟩
      · obtain ⟨q, rfl, inside⟩ := holds_short.mp below
        refine ⟨nibble i :: (r ++ q), by rw [List.append_assoc, List.cons_append], holds_full.mpr ⟨i, _, rfl, ?_⟩⟩
        rw [atOld, holds_hang]
        exact ⟨q, rfl, inside⟩

-- How a call ends once the call for a child has ended.
theorem Inserts.ends {n₁ n₂ : Node} {dirty : Bool}
    (ran : n.insert db depth path key (.value v) = .ok (if dirty then (true, n₁) else (false, n₂))) (puts : Puts db n key v n₁)
    (clean : dirty = false → Puts db n key v n₂ ∧ Puts db n key v n) : Inserts db depth n path key v := by
  cases dirty with
  | false => exact ⟨false, n₂, ran, (clean rfl).1, fun _ => (clean rfl).2⟩
  | true => exact ⟨true, n₁, ran, puts, by rintro ⟨⟩⟩

theorem Sound.uncons {c r : Bytes} (sound : Sound db (.short (c ++ r) val flags)) (more : r ≠ []) :
    ∃ i r', r = nibble i :: r' := by
  cases sound with
  | leaf terminated =>
    obtain ⟨i, r', isKey, -⟩ := (terminated.nibbles more).2.uncons
    exact ⟨i, r', isKey⟩
  | extension _ nibbles =>
    obtain ⟨b, r, rfl⟩ := List.exists_cons_of_ne_nil more
    obtain ⟨i, _, isNibble, -⟩ := (show Terminated [b, 16] from .inr ⟨nibbles b (by simp), .inl ⟨rfl, rfl⟩⟩).uncons
    exact ⟨i, r, by rw [(List.cons.inj isNibble).1]⟩

-- The keys part inside the short node.
theorem Inserts.fork {c r s : Bytes} (sound : Sound db (.short (c ++ r) val flags)) (terminated : Terminated (c ++ s))
    (nonempty : v ≠ [])
    (length : prefixLen (c ++ s) (c ++ r) = c.length) (left : r ≠ []) (apart : ∀ a, s.head? = some a → r.head? ≠ some a)
    (more : s ≠ []) :
    Inserts db (depth + 2) (.short (c ++ r) val flags) path (c ++ s) v := by
  obtain ⟨i, r, rfl⟩ := sound.uncons left
  obtain ⟨j, s, rfl, -⟩ := (terminated.nibbles more).2.uncons
  have apart : i ≠ j := by
    rintro rfl
    exact apart _ rfl rfl
  refine ⟨true, _, ?_, Puts.fork sound terminated apart nonempty, by rintro ⟨⟩⟩
  have inner : c.length ≠ (c ++ nibble i :: r).length := by simp
  have dropped (b : UInt8) (t : Bytes) : (c ++ b :: t).drop (c.length + 1) = t := by
    rw [← List.drop_drop, List.drop_left, List.drop_one, List.tail_cons]
  rw [Node.insert, if_neg (by simp)]
  simp only [length, if_neg inner, List.drop_left, dropped, childIndex_nibble, bind, Except.bind, insert_nil, pure, Except.pure,
    List.take_left]
  cases c <;> rfl

theorem insert_spec (sound : Sound db n) (terminated : Terminated key) (nonempty : v ≠ [])
    (enough : n.cost + 2 * key.length < depth) :
    Inserts db depth n path key v := by
  refine sound.walk (P := fun depth n path key => Inserts db depth n path key v) (fun place => .nil place nonempty)
    (.value nonempty) ?_ ?_ ?_ ?_ terminated enough
  · intro depth path c r s val flags sound terminated length left more heads
    exact .fork sound terminated nonempty length left heads more
  · intro depth path k rest val flags sound terminated length child
    obtain ⟨dirty, c, inserted, puts, clean⟩ := child
    have ran : (Node.short k val flags).insert db (depth + 1) path (k ++ rest) (.value v) =
        .ok (if dirty then (true, .short k c newFlag) else (false, .short k val flags)) := by
      rw [Node.insert, if_neg terminated.ne_nil]
      simp only [length, if_pos, List.take_left, List.drop_left, bind, Except.bind, inserted, pure, Except.pure]
    have put {val'} {flags'} (puts : Puts db val rest v val') :
        Puts db (.short k val flags) (k ++ rest) v (.short k val' flags') :=
      ⟨.of_sound (sound.replace terminated puts.subtree puts.branches) terminated,
        puts.edited.short fun _ _ => holds_short, False.elim⟩
    exact .ends ran (put puts) fun isClean => ⟨put (clean isClean), put (clean isClean)⟩
  · intro depth path i rest children flags sound place child
    obtain ⟨dirty, c, inserted, puts, clean⟩ := child
    have ran : (Node.full children flags).insert db (depth + 1) path (nibble i :: rest) (.value v) =
        .ok (if dirty then (true, .full (Function.update children i c) newFlag) else (false, .full children flags)) := by
      rw [Node.insert, if_neg (List.cons_ne_nil _ _)]
      simp only [childIndex_nibble, bind, Except.bind, List.take_succ_cons, List.take_zero, List.drop_succ_cons, List.drop_zero,
        inserted, pure, Except.pure]
    have put {c} {flags'} (puts : Puts db (children i) rest v c) :
        Puts db (.full children flags) (nibble i :: rest) v (.full (Function.update children i c) flags') := by
      refine ⟨?_, puts.edited.full fun _ _ => Iff.rfl, fun _ => trivial⟩
      rw [Subtree, if_neg (List.cons_ne_nil _ _)]
      exact sound.update ((slot_iff_subtree place).mpr puts.subtree)
    refine .ends ran (put puts) fun isClean => ?_
    have same : Puts db _ _ _ (.full _ flags) := put (clean isClean)
    rw [Function.update_eq_self] at same
    exact ⟨same, same⟩
  · intro depth path key h n found loaded sound terminated child
    obtain ⟨dirty, c, inserted, puts, clean⟩ := child
    have ran : (Node.hash h).insert db (depth + 1) path key (.value v) = .ok (if dirty then (true, c) else (false, n)) := by
      rw [Node.insert, if_neg terminated.ne_nil]
      simp only [resolveHash, found, bind, Except.bind, inserted, pure, Except.pure]
    have put {c} (puts : Puts db n key v c) : Puts db (.hash h) key v c :=
      ⟨puts.subtree, puts.edited.hash found, fun branches => puts.branches (branches_of_hash found branches)⟩
    refine .ends ran (put puts) fun isClean => ⟨put (clean isClean), ?_⟩
    exact ⟨.of_sound (.hash found loaded sound) terminated, (clean isClean).edited.hash_self found, id⟩

/-! ## Deleting -/

structure Drops (db : Reader) (n : Node) (key : Bytes) (n' : Node) : Prop where
  subtree : n' ≠ .nil → Subtree db key n'
  edited : Edited db n key none n'
  branches : n.Branches db → n' ≠ .nil

def Deletes (db : Reader) (depth : Nat) (n : Node) (path key : Bytes) : Prop :=
  ∃ dirty n', n.delete db depth path key = .ok (dirty, n') ∧ Drops db n key n' ∧ (dirty = false → Drops db n key n) ∧
    (dirty = true → n'.isHash = false)

-- A key that is not there.
theorem Deletes.absent (sound : Sound db n) (terminated : Terminated key) (ran : n.delete db depth path key = .ok (false, n))
    (absent : ∀ w, ¬ Holds db n key w) : Deletes db depth n path key := by
  have drops : Drops db n key n := by
    refine ⟨fun _ => .of_sound sound terminated, fun p w => ⟨fun inside => .inr ⟨?_, inside⟩, ?_⟩, fun _ => sound.ne_nil⟩
    · rintro rfl
      exact absent w inside
    · rintro (⟨-, ⟨⟩⟩ | ⟨-, inside⟩)
      exact inside
  exact ⟨false, n, ran, drops, fun _ => drops, by rintro ⟨⟩⟩

theorem soleChild_cases (children : Fin 17 → Node) :
    (∃ pos, soleChild children = some pos ∧ ∀ x, children x ≠ .nil ↔ x = pos) ∨
    (soleChild children = none ∧ ((∀ x, children x = .nil) ∨ ∃ i j, i ≠ j ∧ children i ≠ .nil ∧ children j ≠ .nil)) := by
  have isNil : ∀ n : Node, (!n.isNil) = true ↔ n ≠ .nil := fun n => by cases n <;> simp [Node.isNil]
  obtain ⟨left, isLeft⟩ : ∃ left, left = (List.finRange 17).filter fun i => !(children i).isNil := ⟨_, rfl⟩
  have mem : ∀ x, x ∈ left ↔ children x ≠ .nil := by
    intro x
    rw [isLeft, List.mem_filter, isNil]
    exact ⟨And.right, fun there => ⟨List.mem_finRange x, there⟩⟩
  have distinct : left.Nodup := isLeft ▸ (List.nodup_finRange 17).filter _
  rw [soleChild, ← isLeft]
  cases left with
  | nil => exact .inr ⟨rfl, .inl fun x => not_not.mp fun there => List.not_mem_nil ((mem x).mpr there)⟩
  | cons a left =>
    cases left with
    | nil => exact .inl ⟨a, rfl, fun x => by rw [← mem, List.mem_singleton]⟩
    | cons b rest =>
      refine .inr ⟨rfl, .inr ⟨a, b, ?_, (mem a).mp (by simp), (mem b).mp (by simp)⟩⟩
      rintro rfl
      exact (List.nodup_cons.mp distinct).1 List.mem_cons_self

-- A key is put in front of a short node.
theorem Sound.join {c : Bytes} (sound : Sound db (.short k val flags)) (nibbles : ∀ b ∈ c, b < 16) :
    Sound db (.short (c ++ k) val flags') := by
  cases sound with
  | leaf terminated full => exact .leaf ((terminated_append nibbles).mpr terminated) full
  | extension some others branches sound =>
    exact .extension (by simp [some]) (List.forall_mem_append.mpr ⟨nibbles, others⟩) branches sound

theorem holds_join {c : Bytes} :
    Holds db (.short (c ++ k) val flags') p w ↔ ∃ q, p = c ++ q ∧ Holds db (.short k val flags) q w := by
  simp only [holds_short]
  constructor
  · rintro ⟨q, rfl, inside⟩
    exact ⟨k ++ q, List.append_assoc .., q, rfl, inside⟩
  · rintro ⟨_, rfl, q, rfl, inside⟩
    exact ⟨q, (List.append_assoc ..).symm, inside⟩

-- A node, and how it is found when it is not a hash.
theorem Sound.resolve (sound : Sound db n) (path : Bytes) : ∃ n', Trie.resolve db n path = .ok n' ∧ Sound db n' ∧
    (∀ p w, Holds db n p w ↔ Holds db n' p w) ∧
    ((∃ k val flags, n' = .short k val flags) ∨ (n.Branches db ∧ ∃ children flags, n' = .full children flags)) := by
  have shape : ∀ {n}, Sound db n → n.isHash = false →
      (∃ k val flags, n = .short k val flags) ∨ ∃ children flags, n = .full children flags := by
    intro n sound loaded
    cases sound with
    | leaf => exact .inl ⟨_, _, _, rfl⟩
    | extension => exact .inl ⟨_, _, _, rfl⟩
    | full => exact .inr ⟨_, _, rfl⟩
    | hash => cases loaded
  by_cases isHash : n.isHash = true
  · cases sound with
    | hash found loaded inner =>
      refine ⟨_, by rw [Trie.resolve, resolveHash, found], inner, fun p w => holds_hash found, (shape inner loaded).imp_right ?_⟩
      rintro ⟨children, flags, rfl⟩
      exact ⟨⟨children, flags, found⟩, children, flags, rfl⟩
    | _ => cases isHash
  · have loaded : n.isHash = false := Bool.eq_false_of_not_eq_true isHash
    refine ⟨n, ?_, sound, fun _ _ => Iff.rfl, (shape sound loaded).imp_right ?_⟩
    · cases sound <;> first | rfl | cases loaded
    · rintro ⟨children, flags, rfl⟩
      exact ⟨trivial, children, flags, rfl⟩

theorem reduceFull_spec (slots : ∀ x, children x ≠ .nil → Slot db x (children x)) (left : ∃ x, children x ≠ .nil) (path : Bytes) :
    ∃ n', reduceFull db children path = .ok n' ∧ Sound db n' ∧ n'.isHash = false ∧
      ∀ p w, Holds db n' p w ↔ Holds db (.full children newFlag) p w := by
  rcases soleChild_cases children with ⟨pos, sole, only⟩ | ⟨several, none | two⟩
  · have slot := slots pos ((only pos).mpr rfl)
    have holds : ∀ p w, Holds db (.full children newFlag) p w ↔ ∃ q, p = [nibble pos] ++ q ∧ Holds db (children pos) q w := by
      intro p w
      rw [holds_full]
      constructor
      · rintro ⟨x, q, rfl, inside⟩
        obtain rfl := (only x).mp fun none => holds_nil (none ▸ inside)
        exact ⟨q, rfl, inside⟩
      · rintro ⟨q, rfl, inside⟩
        exact ⟨pos, q, rfl, inside⟩
    have single : ∀ flags p w, Holds db (.short [nibble pos] (children pos) flags) p w ↔ Holds db (.full children newFlag) p w :=
      fun flags p w => by rw [holds, holds_short]
    rw [reduceFull, sole]
    by_cases last : pos = .last 16
    · subst last
      rw [Slot, if_pos rfl] at slot
      obtain ⟨v, full, isValue⟩ := slot
      refine ⟨.short [nibble (.last 16)] (children (.last 16)) newFlag, rfl, ?_, rfl, single _⟩
      rw [isValue]
      exact .leaf (.inl ⟨rfl, rfl⟩) full
    · rw [Slot, if_neg last] at slot
      have small : ∀ b ∈ [nibble pos], b < 16 := List.forall_mem_singleton.mpr (nibble_lt.mpr last)
      obtain ⟨n', resolved, sound, same, ⟨k, val, flags, rfl⟩ | ⟨branches, children', flags, rfl⟩⟩ := slot.resolve path
      · refine ⟨.short ([nibble pos] ++ k) val newFlag, ?_, sound.join small, rfl, fun p w => ?_⟩
        · simp only [if_neg last, resolved, bind, Except.bind, pure, Except.pure]
          rfl
        · rw [holds, @holds_join _ _ _ _ _ _ newFlag]
          exact exists_congr fun q => and_congr_right fun _ => (same q w).symm
      · refine ⟨.short [nibble pos] (children pos) newFlag, ?_, .extension (List.cons_ne_nil _ _) small branches slot, rfl,
          single _⟩
        simp only [if_neg last, resolved, bind, Except.bind, pure, Except.pure]
        rfl
  · obtain ⟨x, there⟩ := left
    exact absurd (none x) there
  · refine ⟨.full children newFlag, ?_, sound_full.mpr ⟨slots, two⟩, rfl, fun _ _ => Iff.rfl⟩
    rw [reduceFull, several]

-- The key is not below the short node.
theorem Deletes.mismatch {c r s : Bytes} (sound : Sound db (.short (c ++ r) val flags)) (terminated : Terminated (c ++ s))
    (length : prefixLen (c ++ s) (c ++ r) = c.length) (left : r ≠ []) (apart : ∀ a, s.head? = some a → r.head? ≠ some a) :
    Deletes db (depth + 1) (.short (c ++ r) val flags) path (c ++ s) := by
  refine .absent sound terminated ?_ fun w inside => ?_
  · have shorter : c.length < (c ++ r).length := by
      rw [List.length_append]
      exact Nat.lt_add_of_pos_right (List.length_pos_iff.mpr left)
    rw [Node.delete, length, if_pos shorter]
  · obtain ⟨q, same, -⟩ := holds_short.mp inside
    rw [List.append_assoc] at same
    obtain ⟨b, r, rfl⟩ := List.exists_cons_of_ne_nil left
    exact apart b (by rw [List.append_cancel_left same]; rfl) rfl

theorem delete_spec (sound : Sound db n) (terminated : Terminated key) (enough : n.cost + 2 * key.length < depth) :
    Deletes db depth n path key := by
  refine sound.walk (P := Deletes db) (fun _ => ?_) ?_ ?_ ?_ ?_ ?_ terminated enough
  · have drops (rest : Bytes) : Drops db .nil rest .nil := ⟨fun some => absurd rfl some, fun p w => by simp, False.elim⟩
    exact ⟨false, .nil, rfl, drops _, fun _ => drops _, by rintro ⟨⟩⟩
  · intro depth path u
    refine ⟨true, .nil, rfl, ⟨fun some => absurd rfl some, fun p w => ?_, False.elim⟩, by rintro ⟨⟩, fun _ => rfl⟩
    simp only [holds_nil, holds_value, false_iff, reduceCtorEq]
    tauto
  · intro depth path c r s val flags sound terminated length left _ heads
    exact .mismatch sound terminated length left heads
  · intro depth path k rest val flags sound terminated length child
    have subtree := sound.subtree terminated
    by_cases whole : rest = []
    · subst whole
      obtain ⟨u, -, rfl⟩ := subtree
      rw [List.append_nil] at length ⊢
      refine ⟨true, .nil, ?_, ⟨fun some => absurd rfl some, fun p w => ?_, False.elim⟩, by rintro ⟨⟩, fun _ => rfl⟩
      · rw [Node.delete]
        simp only [length, lt_irrefl, if_false, if_true]
      · simp only [holds_nil, holds_short, holds_value, false_iff]
        rintro (⟨-, ⟨⟩⟩ | ⟨other, q, rfl, rfl, -⟩)
        exact other (List.append_nil k)
    · rw [Subtree, if_neg whole] at subtree
      obtain ⟨dirty, child, deleted, drops, clean, loaded⟩ := child
      have longer : k.length ≠ (k ++ rest).length := by
        have := List.length_pos_iff.mpr whole
        rw [List.length_append]
        omega
      have drop {n'} (holds : ∀ p w, Holds db n' p w ↔ ∃ q, p = k ++ q ∧ Holds db child q w) (sound : Sound db n')
        (drops : Drops db val rest child) :
          Drops db (.short k val flags) (k ++ rest) n' :=
            ⟨fun _ => .of_sound sound terminated, drops.edited.short holds, False.elim⟩
      cases dirty with
      | false =>
        have kept : Drops db (.short k val flags) (k ++ rest) (.short k val flags) :=
          ⟨fun _ => .of_sound sound terminated, (clean rfl).edited.short fun _ _ => holds_short, False.elim⟩
        refine ⟨false, .short k val flags, ?_, kept, fun _ => kept, by rintro ⟨⟩⟩
        rw [Node.delete]
        simp only [length, lt_irrefl, if_false, if_neg longer, List.take_left, List.drop_left, bind, Except.bind, deleted]
        rfl
      | true =>
        -- a full node keeps a child, and what is left of it may be merged
        obtain ⟨some, nibbles, branches⟩ : k ≠ [] ∧ (∀ b ∈ k, b < 16) ∧ val.Branches db := by
          cases sound with
          | leaf => cases subtree
          | extension some nibbles branches => exact ⟨some, nibbles, branches⟩
        have below := drops.subtree (drops.branches branches)
        rw [Subtree, if_neg whole] at below
        obtain ⟨n', reached, holds, sound', isLoaded⟩ : ∃ n', (Node.short k val flags).delete db (depth + 1) path (k ++ rest) =
          .ok (true, n') ∧
            (∀ p w, Holds db n' p w ↔ ∃ q, p = k ++ q ∧ Holds db child q w) ∧ Sound db n' ∧ n'.isHash = false := by
          rw [Node.delete]
          simp only [length, lt_irrefl, if_false, if_neg longer, List.take_left, List.drop_left, bind, Except.bind, deleted,
            if_true]
          cases child with
          | short => exact ⟨_, rfl, fun p w => holds_join, below.join nibbles, rfl⟩
          | full => exact ⟨_, rfl, fun p w => holds_short, .extension some nibbles trivial below, rfl⟩
          | nil => cases below
          | value => cases below
          | hash => cases loaded rfl
        exact ⟨true, n', reached, drop holds sound' drops, by rintro ⟨⟩, fun _ => isLoaded⟩
  · intro depth path i rest children flags sound place child
    obtain ⟨dirty, c, deleted, drops, clean, -⟩ := child
    cases dirty with
    | false =>
      have same : Drops db (.full children flags) (nibble i :: rest) (.full children flags) :=
        ⟨fun _ => by rwa [Subtree, if_neg (List.cons_ne_nil _ _)],
          (clean rfl).edited.full (show ∀ p w, _ ↔ Holds db (.full _ flags) p w from fun p w => by rw [Function.update_eq_self]),
            fun _ => sound.ne_nil⟩
      refine ⟨false, .full children flags, ?_, same, fun _ => same, by rintro ⟨⟩⟩
      rw [Node.delete]
      simp only [childIndex_nibble, bind, Except.bind, List.take_succ_cons, List.take_zero, List.drop_succ_cons, List.drop_zero,
        deleted]
      rfl
    | true =>
      obtain ⟨slots, a, b, apart, first, second⟩ := sound_full.mp sound
      have slots' : ∀ x, Function.update children i c x ≠ .nil → Slot db x (Function.update children i c x) := by
        intro x some
        by_cases here : x = i
        · subst here
          rw [Function.update_self] at some ⊢
          exact (slot_iff_subtree place).mpr (drops.subtree some)
        · rw [Function.update_of_ne here] at some ⊢
          exact slots x some
      -- of two children one is left
      have left : ∃ x, Function.update children i c x ≠ .nil := by
        by_cases here : a = i
        · exact ⟨b, by rwa [Function.update_of_ne fun same => apart (here.trans same.symm)]⟩
        · exact ⟨a, by rwa [Function.update_of_ne here]⟩
      obtain ⟨n', reduced, sound', loaded, holds⟩ := reduceFull_spec slots' left path
      have drop : Drops db (.full children flags) (nibble i :: rest) n' :=
        ⟨fun _ => by rwa [Subtree, if_neg (List.cons_ne_nil _ _)], drops.edited.full holds, fun _ => sound'.ne_nil⟩
      refine ⟨true, n', ?_, drop, by rintro ⟨⟩, fun _ => loaded⟩
      rw [Node.delete]
      simp only [childIndex_nibble, bind, Except.bind, List.take_succ_cons, List.take_zero, List.drop_succ_cons, List.drop_zero,
        deleted, if_true, reduced]
      rfl
  · intro depth path key h n found loaded sound terminated child
    obtain ⟨dirty, c, deleted, drops, clean, isLoaded⟩ := child
    have ran : (Node.hash h).delete db (depth + 1) path key = .ok (if dirty then (true, c) else (false, n)) := by
      rw [Node.delete]
      simp only [resolveHash, found, bind, Except.bind, deleted, pure, Except.pure]
    have drop {c} (drops : Drops db n key c) : Drops db (.hash h) key c :=
      ⟨drops.subtree, drops.edited.hash found, fun branches => drops.branches (branches_of_hash found branches)⟩
    cases dirty with
    | false =>
      have same : Drops db (.hash h) key (.hash h) :=
        ⟨fun _ => .of_sound (.hash found loaded sound) terminated, (clean rfl).edited.hash_self found,
        fun _ => (Sound.hash found loaded sound).ne_nil⟩
      exact ⟨false, n, ran, drop (clean rfl), fun _ => same, by rintro ⟨⟩⟩
    | true => exact ⟨true, c, ran, drop drops, by rintro ⟨⟩, isLoaded⟩

/-! ## Reading -/

structure Loads (db : Reader) (n n' : Node) : Prop where
  nil : n = .nil → n' = .nil
  subtree : ∀ rest, Subtree db rest n → Subtree db rest n'
  holds : ∀ p w, Holds db n' p w ↔ Holds db n p w
  branches : n.Branches db → n'.Branches db

theorem Loads.refl (db : Reader) (n : Node) : Loads db n n := ⟨id, fun _ => id, fun _ _ => Iff.rfl, id⟩

theorem Loads.of_sound (sound : Sound db n) (sound' : Sound db n') (holds : ∀ p w, Holds db n' p w ↔ Holds db n p w)
    (branches : n.Branches db → n'.Branches db) : Loads db n n' := by
  refine ⟨fun none => absurd none sound.ne_nil, fun rest subtree => ?_, holds, branches⟩
  rw [Subtree] at subtree ⊢
  split
  next here =>
    rw [if_pos here] at subtree
    obtain ⟨v, -, rfl⟩ := subtree
    cases sound
  next => exact sound'

def Gets (db : Reader) (depth : Nat) (n : Node) (path key : Bytes) : Prop :=
  ∃ res n' didResolve, n.tryGet db depth path key = .ok (res, n', didResolve) ∧ Loads db n n' ∧
    ∀ w, res = some w ↔ Holds db n key w

theorem tryGet_spec (sound : Sound db n) (terminated : Terminated key) (enough : n.cost + 2 * key.length < depth) :
    Gets db depth n path key := by
  refine sound.walk (P := Gets db) (fun _ => ⟨none, .nil, false, rfl, .refl _ _, fun w => by simp⟩) ?_ ?_ ?_ ?_ ?_ terminated
    enough
  · exact ⟨_, _, false, rfl, .refl _ _, fun w => by simp [eq_comm]⟩
  · intro depth path c r s val flags sound terminated length left more heads
    have absent : ¬ c ++ r <+: c ++ s := by
      rintro ⟨t, same⟩
      rw [List.append_assoc] at same
      obtain ⟨b, r, rfl⟩ := List.exists_cons_of_ne_nil left
      exact heads b (by rw [← List.append_cancel_left same]; rfl) rfl
    refine ⟨none, .short (c ++ r) val flags, false,
      by rw [Node.tryGet, if_neg absent], .refl _ _, fun w => ⟨by rintro ⟨⟩, fun inside => ?_⟩⟩
    obtain ⟨q, same, -⟩ := holds_short.mp inside
    exact absurd ⟨q, same.symm⟩ absent
  · intro depth path k rest val flags sound terminated length child
    obtain ⟨res, c, didResolve, got, loads, holds⟩ := child
    refine ⟨res, if didResolve then .short k c flags else .short k val flags, didResolve, ?_, ?_, fun w => ?_⟩
    · rw [Node.tryGet, if_pos (List.prefix_append k rest), List.drop_left]
      simp only [bind, Except.bind, got, pure, Except.pure]
    · split
      · have sound' :=
          (sound.replace terminated (loads.subtree rest (sound.subtree terminated)) loads.branches : Sound db (.short k c flags))
        exact .of_sound sound sound' (fun p w => by simp only [holds_short, loads.holds]) id
      · exact .refl _ _
    · rw [holds, holds_below]
  · intro depth path i rest children flags sound place child
    obtain ⟨res, c, didResolve, got, loads, holds⟩ := child
    refine ⟨res, if didResolve then .full (Function.update children i c) flags else .full children flags, didResolve, ?_, ?_,
      fun w => ?_⟩
    · rw [Node.tryGet]
      simp only [childIndex_nibble, bind, Except.bind, List.take_succ_cons, List.take_zero, List.drop_succ_cons, List.drop_zero,
        got, pure, Except.pure]
    · split
      · by_cases none : children i = .nil
        · rw [loads.nil none, ← none, Function.update_eq_self]
          exact .refl _ _
        · have slot := (slot_iff_subtree place).mp ((sound_full.mp sound).1 i none)
          refine .of_sound sound (sound.update ((slot_iff_subtree place).mpr (loads.subtree rest slot))) (fun p w => ?_) id
          simp only [holds_full]
          refine exists_congr fun x => exists_congr fun q => and_congr_right fun _ => ?_
          by_cases here : x = i
          · rw [here, Function.update_self, loads.holds]
          · rw [Function.update_of_ne here]
      · exact .refl _ _
    · rw [holds, holds_child]
  · intro depth path key h n found loaded sound terminated child
    obtain ⟨res, c, didResolve, got, loads, holds⟩ := child
    refine ⟨res, c, true, ?_, .of_sound (.hash found loaded sound) ?_ (fun p w => by rw [loads.holds, holds_hash found]) ?_,
      fun w => by rw [holds, holds_hash found]⟩
    · rw [Node.tryGet]
      simp only [resolveHash, found, bind, Except.bind, got, pure, Except.pure]
    · have subtree := loads.subtree key (.of_sound sound terminated)
      rwa [Subtree, if_neg terminated.ne_nil] at subtree
    · exact fun branches => loads.branches (branches_of_hash found branches)

end CuteEVM.Trie
