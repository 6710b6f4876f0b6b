import CuteEVM.Rlp.Raw

set_option autoImplicit false

namespace CuteEVM.Trie

open Rlp (Item)

/-! ## Keys (`trie/encoding.go`) -/

def hasTerm (s : Bytes) : Bool := s.getLast? == some 16

def keybytesToHex (str : Bytes) : Bytes := str.flatMap (fun b => [b / 16, b % 16]) ++ [16]

def compactToHex (compact : Bytes) : Bytes :=
  if compact.length = 0 then compact
  else
    let base := keybytesToHex compact
    let base := if base.headD 0 < 2 then base.dropLast else base
    base.drop (2 - (base.headD 0 &&& 1)).toNat

def prefixLen : Bytes → Bytes → Nat
  | a :: as, b :: bs => if a = b then prefixLen as bs + 1 else 0
  | _, _ => 0

/-! ## Nodes (`trie/node.go`) -/

def hashBytes (h : Hash) : Bytes := bigEndian 32 h.toNat

def bytesToHash (b : Bytes) : Hash := BitVec.ofNat 256 (setBytes b)

structure NodeFlag where
  hash : Option Hash := none
  dirty : Bool := false
  deriving DecidableEq

-- The nodes of a live trie, and their collapsed forms.
inductive Node where
  | nil
  | full (children : Fin 17 → Node) (flags : NodeFlag)
  | short (key : Bytes) (val : Node) (flags : NodeFlag)
  | hash (h : Hash)
  | value (v : Bytes)
  deriving Inhabited

def Node.isNil : Node → Bool
  | .nil => true
  | _ => false

-- What the reflection of `rlp` writes for a node. In a full node a missing child is an empty string, anywhere else it is a nil
-- interface.
def Node.item : Node → Item
  | .nil => .list []
  | .full children _ => .list (List.ofFn fun i => if (children i).isNil then .str [] else (children i).item)
  | .short key val _ => .list [.str key, val.item]
  | .hash h => .str (hashBytes h)
  | .value v => .str v

-- The collapsed nodes of the dirty cache: `rawShortNode`, `rawFullNode`, and the hashes and values that need no other form.
inductive RawNode where
  | nil
  | full (children : Fin 17 → RawNode)
  | short (key : Bytes) (val : RawNode)
  | hash (h : Hash)
  | value (v : Bytes)
  deriving Inhabited

def RawNode.isNil : RawNode → Bool
  | .nil => true
  | _ => false

def RawNode.item : RawNode → Item
  | .nil => .list []
  | .full children => .list (List.ofFn fun i => if (children i).isNil then .str [] else (children i).item)
  | .short key val => .list [.str key, val.item]
  | .hash h => .str (hashBytes h)
  | .value v => .str v

-- A node whose children all came through.
def collect {α : Type} (children : Fin 17 → Option α) : Option (Fin 17 → α) :=
  if all : ∀ i, (children i).isSome then some fun i => (children i).get (all i) else none

theorem collect_eq_some {α : Type} {children : Fin 17 → Option α} {nodes : Fin 17 → α} :
    collect children = some nodes ↔ ∀ i, children i = some (nodes i) := by
  unfold collect
  split
  next all =>
    rw [Option.some_inj, funext_iff]
    exact forall_congr' fun i => ⟨fun same => by rw [← same, Option.some_get], fun same => Option.get_of_eq_some (all i) same⟩
  next missing => exact ⟨nofun, fun all => absurd (fun i => by rw [all i]; rfl) missing⟩

-- None for a nil node, on which the program panics.
def simplifyNode : Node → Option RawNode
  | .nil => none
  | .full children _ => do
    let node ← collect fun i => if (children i).isNil then some .nil else simplifyNode (children i)
    pure (.full node)
  | .short key val _ => do
    let val ← simplifyNode val
    pure (.short key val)
  | .hash h => some (.hash h)
  | .value v => some (.value v)

theorem simplifyNode_full {children : Fin 17 → Node} {flags : NodeFlag} {node : RawNode} :
    simplifyNode (.full children flags) = some node ↔
    ∃ nodes, node = .full nodes ∧ ∀ i, (if (children i).isNil then some .nil else simplifyNode (children i)) = some (nodes i) := by
  simp only [simplifyNode, Option.bind_eq_bind, Option.bind_eq_some_iff, collect_eq_some, pure, Option.some_inj]
  exact ⟨fun ⟨nodes, all, same⟩ => ⟨nodes, same.symm, all⟩, fun ⟨nodes, same, all⟩ => ⟨nodes, all, same.symm⟩⟩

theorem simplifyNode_short {key : Bytes} {val : Node} {flags : NodeFlag} {node : RawNode} :
    simplifyNode (.short key val flags) = some node ↔ ∃ v, simplifyNode val = some v ∧ node = .short key v := by
  simp only [simplifyNode, Option.bind_eq_bind, Option.bind_eq_some_iff, pure, Option.some_inj]
  exact exists_congr fun v => and_congr_right fun _ => eq_comm

theorem simplifyNode_isNil {n : Node} {node : RawNode} (simplified : simplifyNode n = some node) : node.isNil = false := by
  cases n with
  | nil => cases simplified
  | full => obtain ⟨_, rfl, -⟩ := simplifyNode_full.mp simplified; rfl
  | short => obtain ⟨_, -, rfl⟩ := simplifyNode_short.mp simplified; rfl
  | hash => cases simplified; rfl
  | value => cases simplified; rfl

-- The two forms have one encoding.
theorem simplifyNode_item {n : Node} {node : RawNode} (simplified : simplifyNode n = some node) : node.item = n.item := by
  induction n generalizing node with
  | nil => cases simplified
  | full children flags ih =>
    obtain ⟨nodes, rfl, all⟩ := simplifyNode_full.mp simplified
    rw [RawNode.item, Node.item]
    congr 2
    funext i
    have here := all i
    cases empty : (children i).isNil with
    | true =>
      rw [if_pos empty] at here
      rw [← Option.some.inj here]
      rfl
    | false =>
      rw [if_neg (empty ▸ Bool.false_ne_true)] at here
      rw [simplifyNode_isNil here, ih i here]
  | short key val flags ih =>
    obtain ⟨v, here, rfl⟩ := simplifyNode_short.mp simplified
    rw [RawNode.item, Node.item, ih here]
  | hash h => cases simplified; rfl
  | value v => cases simplified; rfl

-- None for a nil node, as before.
def expandNode (hash : Option Hash) : RawNode → Option Node
  | .nil => none
  | .full children => do
    let node ← collect fun i => if (children i).isNil then some .nil else expandNode none (children i)
    pure (.full node { hash := hash })
  | .short key val => do
    let val ← expandNode none val
    pure (.short (compactToHex key) val { hash := hash })
  | .hash h => some (.hash h)
  | .value v => some (.value v)

-- The hashes inside a collapsed node. The value of a full node is not looked at.
def gatherChildren : RawNode → List Hash
  | .full children => (List.ofFn fun i : Fin 16 => gatherChildren (children i.castSucc)).flatten
  | .short _ val => gatherChildren val
  | .hash h => [h]
  | _ => []

/-! ## Decoding -/

inductive NodeFault where
  | unexpectedEOF
  -- `decode error: …`
  | decode (err : RlpErr)
  -- `invalid number of list elements: …`
  | elements (count : Nat)
  | rlp (err : RlpErr)
  -- `invalid value node: …`
  | invalidValue (err : RlpErr)
  -- `oversized embedded node (size is … bytes, want size < 32)`
  | oversized (size : Nat)
  -- `invalid RLP string size … (want 0 or 32)`
  | stringSize (size : Nat)
  deriving DecidableEq

-- `decodeError`, or a bare error if no context has been added.
structure NodeErr where
  what : NodeFault
  stack : List String := []
  deriving DecidableEq

def wrapError (err : NodeErr) (ctx : String) : NodeErr := { err with stack := err.stack ++ [ctx] }

abbrev Decoded (α : Type) := Option (Except NodeErr α)

namespace Decoded

variable {α β : Type}

def bind (x : Decoded α) (f : α → Decoded β) : Decoded β :=
  match x with
  | none => none
  | some (.error err) => some (.error err)
  | some (.ok a) => f a

def wrap (ctx : String) (x : Decoded α) : Decoded α := x.map (·.mapError (wrapError · ctx))

-- A result of the `rlp` package, with its error in the words of this one.
def ofRlp (fault : RlpErr → NodeFault) (x : Option (Except RlpErr α)) : Decoded α :=
  x.map (·.mapError fun err => { what := fault err })

def ok (a : α) : Decoded α := some (.ok a)

def fail (what : NodeFault) : Decoded α := some (.error { what := what })

end Decoded

-- `decodeNode` calls itself for an embedded node: here as `nested`.
def decodeRef (nested : Bytes → Decoded Node) (buf : Bytes) : Decoded (Node × Bytes) :=
  (Decoded.ofRlp .rlp (Raw.split buf)).bind fun (kind, val, rest) =>
    if kind = .list then
      if buf.length - rest.length > 32 then .fail (.oversized (buf.length - rest.length))
      else (nested buf).bind fun n => .ok (n, rest)
    else if kind = .string ∧ val.length = 0 then .ok (.nil, rest)
    else if kind = .string ∧ val.length = 32 then .ok (.hash (bytesToHash val), rest)
    else .fail (.stringSize val.length)

def decodeShort (nested : Bytes → Decoded Node) (hash : Option Hash) (elems : Bytes) : Decoded Node :=
  (Decoded.ofRlp .rlp (Raw.splitString elems)).bind fun (kbuf, rest) =>
    let key := compactToHex kbuf
    if hasTerm key then
      (Decoded.ofRlp .invalidValue (Raw.splitString rest)).bind fun (val, _) => .ok (.short key (.value val) { hash := hash })
    else ((decodeRef nested rest).wrap "val").bind fun (r, _) => .ok (.short key r { hash := hash })

-- The loop of `decodeFull` over the first children.
def decodeChildren (nested : Bytes → Decoded Node) : List (Fin 17) → Bytes → (Fin 17 → Node) → Decoded ((Fin 17 → Node) × Bytes)
  | [], elems, children => .ok (children, elems)
  | i :: is, elems, children =>
    ((decodeRef nested elems).wrap ("[" ++ toString i.val ++ "]")).bind fun (cld, rest) =>
      decodeChildren nested is rest (Function.update children i cld)

def decodeFull (nested : Bytes → Decoded Node) (hash : Option Hash) (elems : Bytes) : Decoded Node :=
  (decodeChildren nested (List.ofFn fun i : Fin 16 => i.castSucc) elems fun _ => .nil).bind fun (children, elems) =>
    (Decoded.ofRlp .rlp (Raw.splitString elems)).bind fun (val, _) =>
      .ok (.full (if val.length > 0 then Function.update children 16 (.value val) else children) { hash := hash })

-- The nodes are nested at most so deep.
def decodeNodeFrom : Nat → Option Hash → Bytes → Decoded Node
  | 0, _, _ => none
  | depth + 1, hash, buf =>
    if buf.length = 0 then .fail .unexpectedEOF
    else
      (Decoded.ofRlp .decode (Raw.splitList buf)).bind fun (elems, _) =>
        -- an error of `CountValues` is not looked at, and the count is zero then
        match Raw.countValues elems with
        | none => none
        | some counted =>
          match counted.toOption.getD 0 with
          | 2 => (decodeShort (decodeNodeFrom depth none) hash elems).wrap "short"
          | 17 => (decodeFull (decodeNodeFrom depth none) hash elems).wrap "full"
          | c => .fail (.elements c)

-- An embedded node has fewer bytes than the one around it.
def decodeNode (hash : Option Hash) (buf : Bytes) : Decoded Node := decodeNodeFrom (buf.length + 1) hash buf

-- None if it panics, as it does on an error.
def mustDecodeNode (hash : Hash) (buf : Bytes) : Option Node :=
  match decodeNode (some hash) buf with
  | some (.ok n) => some n
  | _ => none

end CuteEVM.Trie
