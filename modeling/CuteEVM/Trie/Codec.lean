import CuteEVM.Rlp.Splitting
import CuteEVM.Trie.Flushing

set_option autoImplicit false

namespace CuteEVM.Trie

open Rlp (Item)

/-! ## Items in front of other bytes -/

section Items

variable {b rest : Bytes} {item : Item} {items : List Item}

theorem first_str (fits : b.length < 2 ^ 64) (rest : Bytes) :
    ∃ k, k ≠ .list ∧ (b.length ≠ 1 → k = .string) ∧ First (Rlp.encode (.str b) ++ rest) k b rest := by
  rw [Rlp.encode, Rlp.encodeString]
  split
  next single =>
    obtain ⟨x, rfl⟩ := List.length_eq_one_iff.mp single.1
    exact ⟨.byte, by decide, fun other => absurd rfl other, .byte rest (UInt8.lt_iff_toNat_lt.mp (by simpa using single.2))⟩
  next plain =>
    rw [List.append_assoc]
    refine ⟨.string, by decide, fun _ => rfl, .string rest fits fun single => plain ⟨single.1, ?_⟩⟩
    obtain ⟨x, rfl⟩ := List.length_eq_one_iff.mp single.1
    simpa using single.2

theorem first_list (fits : (Rlp.encodeAll items).length < 2 ^ 64) (rest : Bytes) :
    First (Rlp.encode (.list items) ++ rest) .list (Rlp.encodeAll items) rest := by
  rw [Rlp.encode, List.append_assoc]
  exact .list rest fits

theorem str_le (b : Bytes) : b.length ≤ (Rlp.encode (.str b)).length := by
  rw [Rlp.encode, Rlp.encodeString]
  split
  · exact Nat.le_refl _
  · simp

theorem list_lt (items : List Item) : (Rlp.encodeAll items).length < (Rlp.encode (.list items)).length := by
  rw [Rlp.encode, List.length_append]
  exact Nat.lt_add_of_pos_left (List.length_pos_iff.mpr (Rlp.header_ne_nil _ _))

theorem mem_le {items : List Item} (inside : item ∈ items) : (Rlp.encode item).length ≤ (Rlp.encodeAll items).length := by
  obtain ⟨before, after, rfl⟩ := List.append_of_mem inside
  rw [Rlp.encodeAll_append, Rlp.encodeAll, List.length_append, List.length_append]
  omega

theorem split_str (small : (Rlp.encode (.str b) ++ rest).length < 2 ^ 64) :
    ∃ k, k ≠ .list ∧ (b.length ≠ 1 → k = .string) ∧ Raw.split (Rlp.encode (.str b) ++ rest) = some (.ok (k, b, rest)) := by
  have := str_le b
  obtain ⟨k, flat, long, first⟩ := first_str (b := b) (by rw [List.length_append] at small; omega) rest
  exact ⟨k, flat, long, Raw.split_first first small⟩

theorem splitString_str (small : (Rlp.encode (.str b) ++ rest).length < 2 ^ 64) :
    Raw.splitString (Rlp.encode (.str b) ++ rest) = some (.ok (b, rest)) := by
  obtain ⟨k, flat, -, split⟩ := split_str small
  simp only [Raw.splitString, split, Option.bind_eq_bind, Option.bind_some, if_neg flat]
  rfl

theorem split_list (small : (Rlp.encode (.list items) ++ rest).length < 2 ^ 64) :
    Raw.split (Rlp.encode (.list items) ++ rest) = some (.ok (.list, Rlp.encodeAll items, rest)) := by
  have := list_lt items
  exact Raw.split_first (first_list (by rw [List.length_append] at small; omega) rest) small

theorem splitList_list (small : (Rlp.encode (.list items) ++ rest).length < 2 ^ 64) :
    Raw.splitList (Rlp.encode (.list items) ++ rest) = some (.ok (Rlp.encodeAll items, rest)) := by
  simp only [Raw.splitList, split_list small, Option.bind_eq_bind, Option.bind_some, ne_eq, not_true, if_false]
  rfl

theorem countFrom_all (items : List Item) (small : (Rlp.encodeAll items).length < 2 ^ 64) {rounds : Nat}
    (enough : (Rlp.encodeAll items).length < rounds)
    (i : Nat) : Raw.countFrom rounds i (Rlp.encodeAll items) = some (.ok (i + items.length)) := by
  induction items generalizing rounds i with
  | nil =>
    obtain ⟨rounds, rfl⟩ := Nat.exists_eq_succ_of_ne_zero (Nat.ne_of_gt enough)
    rfl
  | cons item items ih =>
    obtain ⟨rounds, rfl⟩ := Nat.exists_eq_succ_of_ne_zero (Nat.ne_of_gt (Nat.zero_lt_of_lt enough))
    have some := Rlp.encode_length_pos item
    rw [Rlp.encodeAll] at small enough ⊢
    obtain ⟨k, content, first⟩ : ∃ k content, First (Rlp.encode item ++ Rlp.encodeAll items) k content (Rlp.encodeAll items) := by
      rw [List.length_append] at small
      cases item with
      | str b =>
        have := str_le b
        obtain ⟨k, -, -, first⟩ := first_str (b := b) (by omega) (Rlp.encodeAll items)
        exact ⟨k, b, first⟩
      | list inner =>
        have := list_lt inner
        exact ⟨.list, _, first_list (by omega) _⟩
    obtain ⟨ts, read, after, length⟩ := Raw.readKind_first first small
    have past : (Rlp.encode item ++ Rlp.encodeAll items).drop (ts + content.length) = Rlp.encodeAll items := by
      rw [← List.drop_drop, after, List.drop_left]
    have := list_lt items
    rw [Raw.countFrom, if_pos (by rw [List.length_append]; omega), read]
    simp only [Option.bind_eq_bind, Option.bind_some]
    rw [Nat.mod_eq_of_lt (by omega), subslice, if_pos ⟨by omega, Nat.le_refl _⟩, past, List.take_of_length_le (by omega)]
    rw [List.length_append] at small enough
    refine (ih (by omega) (by omega) (i + 1)).trans ?_
    rw [List.length_cons, Nat.add_right_comm, Nat.add_assoc]

end Items

/-! ## Nodes -/

def RawNode.childItem (c : RawNode) : Item := if c.isNil then .str [] else c.item

def RawNode.childNode (c : RawNode) : Option Node := if c.isNil then some .nil else expandNode none c

-- A node that has been collapsed: its children are hashes, or nodes with encodings of fewer than 32 bytes.
def RawNode.Collapsed : RawNode → Prop
  | .short key val =>
    if hasTerm (compactToHex key) then ∃ v, val = .value v else (∃ h, val = .hash h) ∨
      (val.Collapsed ∧ (Rlp.encode val.item).length < 32)
  | .full children =>
    (∀ i, i ≠ .last 16 → children i = .nil ∨ (∃ h, children i = .hash h) ∨
      ((children i).Collapsed ∧ (Rlp.encode (children i).item).length < 32)) ∧
    (children (.last 16) = .nil ∨ ∃ v, v ≠ [] ∧ children (.last 16) = .value v)
  | _ => False

def Decodes (n : RawNode) : Prop :=
  ∀ hash, ∃ m, expandNode hash n = some m ∧ ∀ (rest : Bytes) (depth : Nat), (Rlp.encode n.item).length < depth →
    (Rlp.encode n.item ++ rest).length < 2 ^ 64 → decodeNodeFrom depth hash (Rlp.encode n.item ++ rest) = .ok m

theorem decodeRef_child {c : RawNode} (refers : c = .nil ∨ (∃ h, c = .hash h) ∨ (c.Collapsed ∧ (Rlp.encode c.item).length < 32))
    (decodes : c.Collapsed → Decodes c) :
    ∃ m, c.childNode = some m ∧ ∀ (rest : Bytes) (depth : Nat), (Rlp.encode c.childItem).length < depth →
      (Rlp.encode c.childItem ++ rest).length < 2 ^ 64 → decodeRef (decodeNodeFrom depth none) (Rlp.encode c.childItem ++ rest) =
      .ok (m, rest) := by
  rcases refers with rfl | ⟨h, rfl⟩ | ⟨collapsed, short⟩
  · refine ⟨.nil, rfl, fun rest depth _ small => ?_⟩
    obtain ⟨k, flat, long, split⟩ := split_str (b := []) small
    obtain rfl := long (by decide)
    rw [decodeRef, show Raw.split (Rlp.encode RawNode.nil.childItem ++ rest) = _ from split]
    rfl
  · refine ⟨.hash h, rfl, fun rest depth _ small => ?_⟩
    have length : (hashBytes h).length = 32 := by rw [hashBytes, bigEndian_eq, BigEndian.write_length]
    obtain ⟨k, flat, long, split⟩ := split_str (b := hashBytes h) small
    obtain rfl := long (by omega)
    rw [decodeRef, show Raw.split (Rlp.encode (RawNode.hash h).childItem ++ rest) = _ from split]
    simp only [Decoded.ofRlp, Option.map_some, Except.mapError, Decoded.bind, reduceCtorEq, if_false, length, true_and,
      bytesToHash_hashBytes]
    rfl
  · obtain ⟨items, isList, item, node⟩ : ∃ items, c.item = .list items ∧ c.childItem = c.item ∧
        c.childNode = expandNode none c := by
      cases c with
      | short key val => exact ⟨_, rfl, rfl, rfl⟩
      | full children => exact ⟨_, rfl, rfl, rfl⟩
      | _ => exact collapsed.elim
    obtain ⟨m, expands, decoded⟩ := decodes collapsed none
    refine ⟨m, node.trans expands, fun rest depth deep small => ?_⟩
    rw [item] at deep small ⊢
    have decoded := decoded rest depth deep small
    rw [isList] at small short decoded ⊢
    rw [decodeRef, split_list small]
    simp only [Decoded.ofRlp, Option.map_some, Except.mapError, Decoded.bind, if_true, decoded, Decoded.ok, List.length_append,
      Nat.add_sub_cancel]
    rw [if_neg (by omega)]

-- The children in the order of the list, whatever stands in the others.
theorem decodeChildren_spec {nested : Bytes → Decoded Node} {items : Fin 17 → Item} {nodes : Fin 17 → Node} (is : List (Fin 17))
    (rest : Bytes) (children : Fin 17 → Node) (small : (Rlp.encodeAll (is.map items) ++ rest).length < 2 ^ 64)
    (decodes : ∀ i ∈ is, ∀ rest, (Rlp.encode (items i) ++ rest).length < 2 ^ 64 →
      decodeRef nested (Rlp.encode (items i) ++ rest) = .ok (nodes i, rest)) :
    decodeChildren nested is (Rlp.encodeAll (is.map items) ++ rest) children =
      .ok (fun j => if j ∈ is then nodes j else children j, rest) := by
  induction is generalizing children with
  | nil => simp [decodeChildren, Rlp.encodeAll]
  | cons i is ih =>
    rw [List.map_cons, Rlp.encodeAll, List.append_assoc] at small ⊢
    obtain ⟨here, others⟩ := List.forall_mem_cons.mp decodes
    rw [decodeChildren, here _ small]
    refine (ih _ (by rw [List.length_append] at small; omega) others).trans ?_
    congr 3
    funext j
    by_cases same : j = i
    · subst same
      simp
    · simp [same]

theorem decodeNodeFrom_list {items : List Item} {rest : Bytes} (small : (Rlp.encode (.list items) ++ rest).length < 2 ^ 64)
    (depth : Nat) (hash : Option Hash) :
    decodeNodeFrom (depth + 1) hash (Rlp.encode (.list items) ++ rest) =
      match items.length with
      | 2 => (decodeShort (decodeNodeFrom depth none) hash (Rlp.encodeAll items)).wrap "short"
      | 17 => (decodeFull (decodeNodeFrom depth none) hash (Rlp.encodeAll items)).wrap "full"
      | c => .fail (.elements c) := by
  have some := Rlp.encode_length_pos (.list items)
  have inner := list_lt items
  have count : Raw.countValues (Rlp.encodeAll items) = .some (.ok items.length) := by
    rw [Raw.countValues, countFrom_all items (by rw [List.length_append] at small; omega) (Nat.lt_succ_self _), Nat.zero_add]
  rw [decodeNodeFrom, if_neg (by rw [List.length_append]; omega), splitList_list small]
  simp only [Decoded.ofRlp, Option.map_some, Except.mapError, Decoded.bind, count]
  rfl

theorem decodes_short {key : Bytes} {val : RawNode} (decodes : val.Collapsed → Decodes val)
    (collapsed : (RawNode.short key val).Collapsed) :
    Decodes (.short key val) := by
  intro hash
  have parts : Rlp.encodeAll [.str key, val.item] = Rlp.encode (.str key) ++ (Rlp.encode val.item ++ []) := rfl
  have opened (rest : Bytes) (depth : Nat) (deep : (Rlp.encode (.list [.str key, val.item])).length < depth)
      (small : (Rlp.encode (.list [.str key, val.item]) ++ rest).length < 2 ^ 64) :
      ∃ inner, depth = inner + 1 ∧ (Rlp.encode val.item).length < inner ∧ (Rlp.encode val.item ++ []).length < 2 ^ 64 ∧
        Raw.splitString (Rlp.encodeAll [.str key, val.item]) = some (.ok (key, Rlp.encode val.item ++ [])) := by
    have some := Rlp.encode_length_pos (.str key)
    have within := list_lt [.str key, val.item]
    rw [parts, List.length_append, List.append_nil] at within
    rw [List.length_append] at small
    refine ⟨depth - 1, by omega, by omega, by rw [List.append_nil]; omega, ?_⟩
    rw [parts]
    exact splitString_str (by rw [List.append_nil, List.length_append]; omega)
  rw [RawNode.Collapsed] at collapsed
  split at collapsed
  next ends =>
    obtain ⟨v, rfl⟩ := collapsed
    refine ⟨_, rfl, fun rest depth deep small => ?_⟩
    obtain ⟨depth, rfl, -, room, head⟩ := opened rest depth deep small
    rw [RawNode.item, decodeNodeFrom_list small]
    simp only [List.length_cons, List.length_nil, decodeShort, head, Decoded.ofRlp, Option.map_some, Except.mapError,
      Decoded.bind, if_pos ends]
    rw [show Raw.splitString (Rlp.encode (RawNode.value v).item ++ []) = _ from splitString_str room]
    rfl
  next inside =>
    have child : val.childItem = val.item ∧ val.childNode = expandNode none val := by
      rcases collapsed with ⟨h, rfl⟩ | ⟨collapsed, -⟩
      · exact ⟨rfl, rfl⟩
      · cases val with
        | nil => exact collapsed.elim
        | _ => exact ⟨rfl, rfl⟩
    obtain ⟨m, expands, decoded⟩ := decodeRef_child (.inr collapsed) decodes
    rw [child.1] at decoded
    refine ⟨.short (compactToHex key) m { hash := hash },
      by rw [expandNode, ← child.2, expands]; rfl, fun rest depth deep small => ?_⟩
    obtain ⟨depth, rfl, deep, room, head⟩ := opened rest depth deep small
    rw [RawNode.item, decodeNodeFrom_list small]
    simp only [List.length_cons, List.length_nil, decodeShort, head, Decoded.ofRlp, Option.map_some, Except.mapError,
      Decoded.bind, if_neg inside, decoded [] depth deep room]
    rfl

theorem decodes_full {children : Fin 17 → RawNode} (decodes : ∀ i, (children i).Collapsed → Decodes (children i))
    (collapsed : (RawNode.full children).Collapsed) : Decodes (.full children) := by
  intro hash
  obtain ⟨refers, last⟩ : (∀ i, i ≠ 16 → _) ∧ (children 16 = .nil ∨ ∃ v, v ≠ [] ∧ children 16 = .value v) := collapsed
  choose! nodes expands decoded using fun i other => decodeRef_child (refers i other) (decodes i)
  -- a value, or nothing at all
  obtain ⟨v, item, value⟩ : ∃ v, (children 16).childItem = .str v ∧ (children 16).childNode =
      some (if v.length > 0 then .value v else .nil) := by
    rcases last with none | ⟨v, some, isValue⟩
    · exact ⟨[], by rw [none]; rfl, by rw [none]; rfl⟩
    · exact ⟨v, by rw [isValue]; rfl, by rw [isValue, if_pos (List.length_pos_iff.mpr some)]; rfl⟩
  have isItem : (RawNode.full children).item = .list (List.ofFn fun i => (children i).childItem) := rfl
  refine ⟨.full (Function.update nodes 16 (if v.length > 0 then .value v else .nil)) { hash := hash }, ?_,
    fun rest depth deep small => ?_⟩
  · have all : collect (fun i => (children i).childNode) =
        some (Function.update nodes 16 (if v.length > 0 then .value v else .nil)) := by
      refine collect_eq_some.mpr fun i => ?_
      by_cases isLast : i = 16
      · rw [isLast, value, Function.update_self]
      · rw [expands i isLast, Function.update_of_ne isLast]
    rw [expandNode, show (fun i => if (children i).isNil then some Node.nil else expandNode none (children i)) = fun i =>
      (children i).childNode from rfl, all]
    rfl
  · rw [isItem] at deep small ⊢
    have within := list_lt (List.ofFn fun i => (children i).childItem)
    have size (i : Fin 17) :=
      mem_le (List.mem_ofFn.mpr ⟨i, rfl⟩ : (children i).childItem ∈ List.ofFn fun i => (children i).childItem)
    have parts : List.ofFn (fun i => (children i).childItem) =
        (List.ofFn fun i : Fin 16 => i.castSucc).map (fun i => (children i).childItem) ++ [.str v] := by
      rw [List.ofFn_succ_last, List.map_ofFn, ← item]
      rfl
    obtain ⟨depth, rfl⟩ := Nat.exists_eq_succ_of_ne_zero (Nat.ne_of_gt (Nat.zero_lt_of_lt deep))
    have room : (Rlp.encodeAll ((List.ofFn fun i : Fin 16 => i.castSucc).map fun i => (children i).childItem) ++
        (Rlp.encode (.str v) ++ [])).length < 2 ^ 64 := by
      rw [parts, Rlp.encodeAll_append] at within
      exact Nat.lt_trans within (by rw [← parts]; rw [List.length_append] at small; omega)
    have first (i : Fin 17) : i ∈ List.ofFn (fun i : Fin 16 => i.castSucc) ↔ i ≠ 16 := by
      revert i
      decide
    have loop := @decodeChildren_spec (decodeNodeFrom depth none) _ nodes _ _ (fun _ => .nil) room fun i inside rest small =>
      decoded i ((first i).mp inside) rest depth (by have := size i; omega) small
    rw [decodeNodeFrom_list small, List.length_ofFn]
    rw [parts, Rlp.encodeAll_append, decodeFull, show Rlp.encodeAll [.str v] = Rlp.encode (.str v) ++ [] from rfl, loop]
    simp only [Decoded.bind, Decoded.ok,
      splitString_str (show (Rlp.encode (.str v) ++ []).length < 2 ^ 64 by rw [List.length_append] at room; omega),
      Decoded.ofRlp, Option.map_some, Except.mapError, Decoded.wrap]
    congr 3
    funext j
    by_cases isLast : j = 16
    · subst isLast
      split <;> simp
    · have inside := (first j).mpr isLast
      split <;> simp only [Function.update_of_ne isLast, if_pos inside]

theorem decodes_of_collapsed {n : RawNode} (collapsed : n.Collapsed) : Decodes n := by
  induction n with
  | nil => exact collapsed.elim
  | hash => exact collapsed.elim
  | value => exact collapsed.elim
  | short key val ih => exact decodes_short ih collapsed
  | full children ih => exact decodes_full ih collapsed

end CuteEVM.Trie
