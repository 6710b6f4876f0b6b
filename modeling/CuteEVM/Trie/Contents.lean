import CuteEVM.Trie.Trie

set_option autoImplicit false

namespace CuteEVM.Trie

/-! ## Keys -/

-- Nibbles, and a terminator at the end.
def Terminated : Bytes → Prop
  | [] => False
  | b :: rest => (b = 16 ∧ rest = []) ∨ (b < 16 ∧ Terminated rest)

theorem terminated_append {q r : Bytes} (nibbles : ∀ b ∈ q, b < 16) : Terminated (q ++ r) ↔ Terminated r := by
  induction q with
  | nil => rfl
  | cons b q ih =>
    rw [List.cons_append, Terminated, ih fun c inside => nibbles c (List.mem_cons_of_mem b inside)]
    have small := nibbles b List.mem_cons_self
    exact ⟨fun either => either.elim (fun last => absurd small (by rw [last.1]; decide)) And.right, fun rest => .inr ⟨small, rest⟩⟩

theorem Terminated.nibbles {c s : Bytes} (terminated : Terminated (c ++ s)) (more : s ≠ []) :
    (∀ b ∈ c, b < 16) ∧ Terminated s := by
  induction c with
  | nil => exact ⟨by rintro _ ⟨⟩, terminated⟩
  | cons b c ih =>
    rw [List.cons_append, Terminated] at terminated
    rcases terminated with ⟨-, last⟩ | ⟨small, rest⟩
    · exact absurd (List.append_eq_nil_iff.mp last).2 more
    · obtain ⟨others, rest⟩ := ih rest
      exact ⟨List.forall_mem_cons.mpr ⟨small, others⟩, rest⟩

-- No key is the beginning of another one.
theorem Terminated.eq_nil {a b : Bytes} (first : Terminated a) (second : Terminated (a ++ b)) : b = [] := by
  by_contra more
  have small := (second.nibbles more).1
  have none : ∀ a : Bytes, (∀ c ∈ a, c < 16) → ¬ Terminated a := by
    intro a nibbles
    rw [← List.append_nil a, terminated_append nibbles]
    exact id
  exact none a small first

theorem Terminated.ne_nil {a : Bytes} (terminated : Terminated a) : a ≠ [] := by
  rintro rfl
  exact terminated

theorem Terminated.length_pos {a : Bytes} (terminated : Terminated a) : 0 < a.length := List.length_pos_iff.mpr terminated.ne_nil

theorem keybytesToHex_terminated (key : Bytes) : Terminated (keybytesToHex key) := by
  rw [keybytesToHex, terminated_append]
  · exact .inl ⟨rfl, rfl⟩
  · intro b inside
    obtain ⟨c, -, half⟩ := List.mem_flatMap.mp inside
    rcases List.mem_cons.mp half with rfl | half
    · rw [UInt8.lt_iff_toNat_lt, UInt8.toNat_div]
      exact Nat.div_lt_of_lt_mul (UInt8.toNat_lt c)
    · rw [List.mem_singleton.mp half, UInt8.lt_iff_toNat_lt, UInt8.toNat_mod]
      exact Nat.mod_lt _ (by decide)

theorem keybytesToHex_injective : Function.Injective keybytesToHex := by
  intro a b same
  have halves := List.append_cancel_right same
  clear same
  induction a generalizing b with
  | nil =>
    cases b with
    | nil => rfl
    | cons => cases halves
  | cons x a ih =>
    cases b with
    | nil => cases halves
    | cons y b =>
      simp only [List.flatMap_cons, List.cons_append, List.nil_append, List.cons.injEq] at halves
      obtain ⟨high, low, rest⟩ := halves
      rw [ih rest]
      have high := congrArg UInt8.toNat high
      have low := congrArg UInt8.toNat low
      simp only [UInt8.toNat_div, UInt8.toNat_mod, UInt8.reduceToNat] at high low
      rw [UInt8.toNat_inj.mp (by omega : x.toNat = y.toNat)]

theorem prefixLen_cases (key k : Bytes) :
    ∃ c s r, key = c ++ s ∧ k = c ++ r ∧ prefixLen key k = c.length ∧ ∀ a, s.head? = some a → r.head? ≠ some a := by
  induction key generalizing k with
  | nil => exact ⟨[], [], k, rfl, rfl, rfl, by rintro _ ⟨⟩⟩
  | cons x key ih =>
    cases k with
    | nil => exact ⟨[], x :: key, [], rfl, rfl, rfl, by rintro _ _ ⟨⟩⟩
    | cons y k =>
      rw [prefixLen]
      split
      next same =>
        obtain ⟨c, s, r, rfl, rfl, length, apart⟩ := ih k
        exact ⟨x :: c, s, r, rfl, by rw [same, List.cons_append], by rw [length, List.length_cons], apart⟩
      next other =>
        refine ⟨[], x :: key, y :: k, rfl, rfl, rfl, fun a first second => other ?_⟩
        rw [Option.some.inj first, Option.some.inj second]

def nibble (i : Fin 17) : UInt8 := UInt8.ofNat i.val

theorem nibble_injective : Function.Injective nibble := by decide

theorem nibble_lt {i : Fin 17} : nibble i < 16 ↔ i ≠ .last 16 := by
  revert i
  decide

theorem childIndex_nibble (i : Fin 17) (rest : Bytes) : childIndex (nibble i :: rest) = .ok i := by
  have value : (nibble i).toNat = i.val := UInt8.toNat_ofNat_of_lt' (Nat.lt_trans i.isLt (by decide))
  rw [childIndex, dif_pos (by rw [value]; exact i.isLt)]
  exact congrArg Except.ok (Fin.ext value)

theorem Terminated.uncons {key : Bytes} (terminated : Terminated key) :
    ∃ i rest, key = nibble i :: rest ∧ ((i = .last 16 ∧ rest = []) ∨ (i ≠ .last 16 ∧ Terminated rest)) := by
  cases key with
  | nil => exact terminated.elim
  | cons b rest =>
    rcases terminated with ⟨rfl, rfl⟩ | ⟨small, terminated⟩
    · exact ⟨.last 16, [], rfl, .inl ⟨rfl, rfl⟩⟩
    · have fits : b.toNat < 16 := UInt8.lt_iff_toNat_lt.mp small
      refine ⟨⟨b.toNat, by omega⟩, rest, ?_, .inr ⟨?_, terminated⟩⟩
      · rw [nibble, UInt8.ofNat_toNat]
      · exact fun last => absurd (congrArg Fin.val last) (Nat.ne_of_lt fits)

/-! ## Entries -/

-- The entries of a node, by what is left of their keys.
inductive Holds (db : Reader) : Node → Bytes → Bytes → Prop where
  | value (v : Bytes) : Holds db (.value v) [] v
  | short {key q v : Bytes} {val : Node} {flags : NodeFlag} (inside : Holds db val q v) : Holds db (.short key val flags)
    (key ++ q) v
  | full {children : Fin 17 → Node} {flags : NodeFlag} {i : Fin 17} {q v : Bytes} (inside : Holds db (children i) q v) :
      Holds db (.full children flags) (nibble i :: q) v
  | hash {h : Hash} {n : Node} {q v : Bytes} (found : db h = some (some n)) (inside : Holds db n q v) : Holds db (.hash h) q v

section Holds

variable {db : Reader} {p v : Bytes}

@[simp] theorem holds_nil : ¬ Holds db .nil p v := by rintro ⟨⟩

@[simp] theorem holds_value {u : Bytes} : Holds db (.value u) p v ↔ p = [] ∧ v = u := by
  constructor
  · rintro ⟨⟩
    exact ⟨rfl, rfl⟩
  · rintro ⟨rfl, rfl⟩
    exact .value v

@[simp] theorem holds_short {key : Bytes} {val : Node} {flags : NodeFlag} :
    Holds db (.short key val flags) p v ↔ ∃ q, p = key ++ q ∧ Holds db val q v := by
  constructor
  · rintro ⟨⟩
    exact ⟨_, rfl, ‹_›⟩
  · rintro ⟨q, rfl, inside⟩
    exact .short inside

@[simp] theorem holds_full {children : Fin 17 → Node} {flags : NodeFlag} :
    Holds db (.full children flags) p v ↔ ∃ i q, p = nibble i :: q ∧ Holds db (children i) q v := by
  constructor
  · rintro ⟨⟩
    exact ⟨_, _, rfl, ‹_›⟩
  · rintro ⟨i, q, rfl, inside⟩
    exact .full inside

theorem holds_below {key q : Bytes} {val : Node} {flags : NodeFlag} :
    Holds db (.short key val flags) (key ++ q) v ↔ Holds db val q v := by
  rw [holds_short]
  constructor
  · rintro ⟨_, same, inside⟩
    rwa [List.append_cancel_left same]
  · exact fun inside => ⟨q, rfl, inside⟩

theorem holds_child {children : Fin 17 → Node} {flags : NodeFlag} {i : Fin 17} {q : Bytes} :
    Holds db (.full children flags) (nibble i :: q) v ↔ Holds db (children i) q v := by
  rw [holds_full]
  constructor
  · rintro ⟨x, _, same, inside⟩
    obtain ⟨first, rfl⟩ := List.cons.inj same
    rwa [nibble_injective first]
  · exact fun inside => ⟨i, q, rfl, inside⟩

theorem holds_hash {h : Hash} {n : Node} (found : db h = some (some n)) : Holds db (.hash h) p v ↔ Holds db n p v := by
  constructor
  · intro holds
    cases holds with
    | hash again inside =>
      cases found.symm.trans again
      exact inside
  · exact .hash found

end Holds

/-! ## Canonical tries -/

def Node.isHash : Node → Bool
  | .hash _ => true
  | _ => false

-- A full node, if need be once it is loaded.
def Node.Branches (db : Reader) : Node → Prop
  | .full _ _ => True
  | .hash h => ∃ children flags, db h = some (some (.full children flags))
  | _ => False

-- A canonical trie, of which every node can be loaded.
inductive Sound (db : Reader) : Node → Prop where
  | leaf {key v : Bytes} {flags : NodeFlag} (terminated : Terminated key) (some : v ≠ []) : Sound db (.short key (.value v) flags)
  | extension {key : Bytes} {val : Node} {flags : NodeFlag} (some : key ≠ []) (nibbles : ∀ b ∈ key, b < 16)
    (branches : val.Branches db) (sound : Sound db val) : Sound db (.short key val flags)
  | full {children : Fin 17 → Node} {flags : NodeFlag} (below : ∀ i, i ≠ .last 16 → children i ≠ .nil → Sound db (children i))
      (value : children (.last 16) ≠ .nil → ∃ v, v ≠ [] ∧ children (.last 16) = .value v)
      (two : ∃ i j, i ≠ j ∧ children i ≠ .nil ∧ children j ≠ .nil) : Sound db (.full children flags)
  | hash {h : Hash} {n : Node} (found : db h = some (some n)) (loaded : n.isHash = false) (sound : Sound db n) : Sound db (.hash h)

-- What stands at a place of a trie where so much of the key is left.
def Subtree (db : Reader) (rest : Bytes) (n : Node) : Prop := if rest = [] then ∃ v, v ≠ [] ∧ n = .value v else Sound db n

def Slot (db : Reader) (i : Fin 17) (n : Node) : Prop := if i = .last 16 then ∃ v, v ≠ [] ∧ n = .value v else Sound db n

section Sound

variable {db : Reader} {n val : Node} {children : Fin 17 → Node} {flags : NodeFlag} {i : Fin 17} {q v : Bytes}

theorem Sound.ne_nil (sound : Sound db n) : n ≠ .nil := by
  rintro rfl
  cases sound

theorem Slot.ne_nil (slot : Slot db i n) : n ≠ .nil := by
  rw [Slot] at slot
  split at slot
  · obtain ⟨v, -, rfl⟩ := slot
    rintro ⟨⟩
  · exact slot.ne_nil

theorem sound_full : Sound db (.full children flags) ↔
    (∀ i, children i ≠ .nil → Slot db i (children i)) ∧ ∃ i j, i ≠ j ∧ children i ≠ .nil ∧ children j ≠ .nil := by
  constructor
  · intro sound
    cases sound with
    | full below value two =>
      refine ⟨fun i some => ?_, two⟩
      rw [Slot]
      split
      next last =>
        subst last
        exact value some
      next other => exact below i other some
  · rintro ⟨slots, two⟩
    refine .full (fun i other some => ?_) (fun some => ?_) two
    · have slot := slots i some
      rwa [Slot, if_neg other] at slot
    · have slot := slots (.last 16) some
      rwa [Slot, if_pos rfl] at slot

-- The place of a child, and the key that is left there.
theorem slot_iff_subtree {rest : Bytes} (place : (i = .last 16 ∧ rest = []) ∨ (i ≠ .last 16 ∧ Terminated rest)) :
    Slot db i n ↔ Subtree db rest n := by
  rcases place with ⟨rfl, rfl⟩ | ⟨other, terminated⟩
  · exact Iff.rfl
  · have more : rest ≠ [] := by
      rintro rfl
      exact terminated
    rw [Slot, Subtree, if_neg other, if_neg more]

theorem Subtree.of_sound (sound : Sound db n) {rest : Bytes} (terminated : Terminated rest) : Subtree db rest n := by
  rw [Subtree, if_neg]
  · exact sound
  · rintro rfl
    exact terminated

end Sound

end CuteEVM.Trie
