import CuteEVM.Trie.Node

set_option autoImplicit false

namespace CuteEVM.Trie

/-! `trie/trie.go`: reading and changing a trie whose nodes are loaded when they are needed -/

inductive TrieErr where
  -- `MissingNodeError`
  | missing (hash : Hash) (path : Bytes)
  | panic
  -- the calls are nested deeper than they are followed here
  | depth
  deriving DecidableEq

-- `db.node`: none if it panics.
abbrev Reader := Hash → Option (Option Node)

def newFlag : NodeFlag := { dirty := true }

def resolveHash (db : Reader) (h : Hash) (path : Bytes) : Except TrieErr Node :=
  match db h with
  | none => .error .panic
  | some none => .error (.missing h path)
  | some (some n) => .ok n

def resolve (db : Reader) (n : Node) (path : Bytes) : Except TrieErr Node :=
  match n with
  | .hash h => resolveHash db h path
  | _ => .ok n

-- An index into the children of a full node.
def childIndex (key : Bytes) : Except TrieErr (Fin 17) :=
  match key with
  | [] => .error .panic
  | b :: _ => if fits : b.toNat < 17 then .ok ⟨b.toNat, fits⟩ else .error .panic

-- `tryGet`: the value, the node with what was loaded on the way, and whether anything was.
def Node.tryGet (db : Reader) : Nat → Node → Bytes → Bytes → Except TrieErr (Option Bytes × Node × Bool)
  | 0, _, _, _ => .error .depth
  | depth + 1, n, path, key =>
    match n with
    | .nil => .ok (none, .nil, false)
    | .value v => .ok (some v, n, false)
    | .short k val flags =>
      if k <+: key then do
        let (res, newnode, didResolve) ← Node.tryGet db depth val (path ++ k) (key.drop k.length)
        pure (res, if didResolve then .short k newnode flags else n, didResolve)
      else .ok (none, n, false)
    | .full children flags => do
      let i ← childIndex key
      let (res, newnode, didResolve) ← Node.tryGet db depth (children i) (path ++ key.take 1) (key.drop 1)
      pure (res, if didResolve then .full (Function.update children i newnode) flags else n, didResolve)
    | .hash h => do
      let child ← resolveHash db h path
      let (res, newnode, _) ← Node.tryGet db depth child path key
      pure (res, newnode, true)

def Node.insert (db : Reader) : Nat → Node → Bytes → Bytes → Node → Except TrieErr (Bool × Node)
  | 0, _, _, _, _ => .error .depth
  | depth + 1, n, path, key, leaf =>
    if key = [] then
      match n, leaf with
      | .value v, .value w => .ok (decide (v ≠ w), leaf)
      | .value _, _ => .error .panic
      | _, _ => .ok (true, leaf)
    else
      match n with
      | .short k val _ =>
        let matchlen := prefixLen key k
        if matchlen = k.length then do
          let (dirty, nn) ← Node.insert db depth val (path ++ key.take matchlen) (key.drop matchlen) leaf
          pure (if dirty then (true, .short k nn newFlag) else (false, n))
        else do
          -- the keys part here
          let i ← childIndex (k.drop matchlen)
          let (_, old) ← Node.insert db depth .nil (path ++ k.take (matchlen + 1)) (k.drop (matchlen + 1)) val
          let j ← childIndex (key.drop matchlen)
          let (_, new) ← Node.insert db depth .nil (path ++ key.take (matchlen + 1)) (key.drop (matchlen + 1)) leaf
          let branch := .full (Function.update (Function.update (fun _ => .nil) i old) j new) newFlag
          pure (true, if matchlen = 0 then branch else .short (key.take matchlen) branch newFlag)
      | .full children _ => do
        let i ← childIndex key
        let (dirty, nn) ← Node.insert db depth (children i) (path ++ key.take 1) (key.drop 1) leaf
        pure (if dirty then (true, .full (Function.update children i nn) newFlag) else (false, n))
      | .nil => .ok (true, .short key leaf newFlag)
      | .hash h => do
        let rn ← resolveHash db h path
        let (dirty, nn) ← Node.insert db depth rn path key leaf
        pure (if dirty then (true, nn) else (false, rn))
      | .value _ => .error .panic

def soleChild (children : Fin 17 → Node) : Option (Fin 17) :=
  match (List.finRange 17).filter fun i => !(children i).isNil with
  | [pos] => some pos
  | _ => none

-- The end of `delete` in a full node.
def reduceFull (db : Reader) (children : Fin 17 → Node) (path : Bytes) : Except TrieErr Node :=
  match soleChild children with
  | none => .ok (.full children newFlag)
  | some pos => do
    let key : Bytes := [UInt8.ofNat pos.val]
    if pos = .last 16 then pure (.short key (children pos) newFlag)
    else
      match ← resolve db (children pos) path with
      | .short k val _ => pure (.short (key ++ k) val newFlag)
      | _ => pure (.short key (children pos) newFlag)

def Node.delete (db : Reader) : Nat → Node → Bytes → Bytes → Except TrieErr (Bool × Node)
  | 0, _, _, _ => .error .depth
  | depth + 1, n, path, key =>
    match n with
    | .short k val _ =>
      let matchlen := prefixLen key k
      if matchlen < k.length then .ok (false, n)
      else if matchlen = key.length then .ok (true, .nil)
      else do
        let (dirty, child) ← Node.delete db depth val (path ++ key.take k.length) (key.drop k.length)
        if dirty then
          match child with
          | .short k' val' _ => pure (true, .short (k ++ k') val' newFlag)
          | _ => pure (true, .short k child newFlag)
        else pure (false, n)
    | .full children _ => do
      let i ← childIndex key
      let (dirty, nn) ← Node.delete db depth (children i) (path ++ key.take 1) (key.drop 1)
      if dirty then do
        let n ← reduceFull db (Function.update children i nn) path
        pure (true, n)
      else pure (false, n)
    | .value _ => .ok (true, .nil)
    | .nil => .ok (false, .nil)
    | .hash h => do
      let rn ← resolveHash db h path
      let (dirty, nn) ← Node.delete db depth rn path key
      pure (if dirty then (true, nn) else (false, rn))

-- Every second node on the way may be a hash.
def depthFor (key : Bytes) : Nat := 2 * key.length + 2

end Trie

structure Trie where
  db : Trie.Reader
  root : Trie.Node

namespace Trie

def tryGet (t : Trie) (key : Bytes) : Except TrieErr (Option Bytes × Trie) := do
  let k := keybytesToHex key
  let (value, newroot, didResolve) ← t.root.tryGet t.db (depthFor k) [] k
  pure (value, if didResolve then { t with root := newroot } else t)

def tryDelete (t : Trie) (key : Bytes) : Except TrieErr Trie := do
  let k := keybytesToHex key
  let (_, n) ← t.root.delete t.db (depthFor k) [] k
  pure { t with root := n }

-- An empty value deletes.
def tryUpdate (t : Trie) (key value : Bytes) : Except TrieErr Trie :=
  if value.length ≠ 0 then do
    let k := keybytesToHex key
    let (_, n) ← t.root.insert t.db (depthFor k) [] k (.value value)
    pure { t with root := n }
  else t.tryDelete key

end CuteEVM.Trie
