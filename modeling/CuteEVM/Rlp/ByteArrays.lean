import CuteEVM.Rlp.Decode
import CuteEVM.Rlp.Encode

set_option autoImplicit false

namespace CuteEVM

open Rlp (Item)
open Read

/-! `rlp/decode.go`, as far as it decodes into arrays of bytes, and into slices, arrays and structs of them. -/

-- `Stream.uint`. A byte that is zero is left where it is.
def Read.uint (maxbits : Nat) : Read Nat := do
  let (kind, size) ← kind
  match kind with
  | .byte => do
    let s ← get
    if s.byteval = 0 then fail .canonInt
    else do
      rearm
      pure s.byteval.toNat
  | .string =>
    if size > maxbits / 8 then fail .uintOverflow
    else attempt (readUint size) fun
      | .error .canonSize => fail .canonInt
      | .error err => fail err
      | .ok v => if size > 0 ∧ v < 128 then fail .canonSize else pure v
  | .list => fail .expectedString

def Read.uintValue : Read Nat :=
  attempt (uint 64) fun
    | .ok v => pure v
    | .error _ => pure 0

def decodeByteArray (vlen : Nat) : Read Bytes := do
  let (kind, size) ← kind
  match kind with
  | .byte =>
    if vlen = 0 then fail (.decodeError "input string too long" [])
    else if vlen > 1 then fail (.decodeError "input string too short" [])
    else do
      let bv ← uintValue
      pure [UInt8.ofNat bv]
  | .string =>
    if vlen < size then fail (.decodeError "input string too long" [])
    else if vlen > size then fail (.decodeError "input string too short" [])
    else do
      let slice ← readFull vlen
      if size = 1 ∧ slice.headD 0 < 128 then fail (wrapStreamError .canonSize) else pure slice
  | .list => fail (wrapStreamError .expectedString)

def decodeArrayElems (elemdec : Read Bytes) : Nat → List Bytes → Read (List Bytes)
  | 0, _ => fail .outOfFuel
  | rounds + 1, val =>
    attempt elemdec fun
      | .ok elem => decodeArrayElems elemdec rounds (val ++ [elem])
      | .error .EOL => pure val
      | .error err => fail (addErrorContext err ("[" ++ toString val.length ++ "]"))

def decodeArraySlice (elemdec : Read Bytes) (rounds : Nat) : Read (List Bytes) := do
  let size ← wrapped list
  if size = 0 then do
    listEnd
    pure []
  else do
    let val ← decodeArrayElems elemdec rounds []
    listEnd
    pure val

def decodeFields (few : String) : List (String × Nat) → Read (List Bytes)
  | [] => pure []
  | (ctx, vlen) :: fields =>
    attempt (decodeByteArray vlen) fun
      | .ok elem => do
        let rest ← decodeFields few fields
        pure (elem :: rest)
      | .error .EOL => fail (.decodeError few [])
      | .error err => fail (addErrorContext err ctx)

def decodeFixed (few : String) (fields : List (String × Nat)) : Read (List Bytes) := do
  let _ ← wrapped list
  let val ← decodeFields few fields
  wrapped listEnd
  pure val

-- `decodeListArray`, into an array of arrays of `vlen` bytes.
def decodeListArray (length vlen : Nat) : Read (List Bytes) :=
  decodeFixed "input list has too few elements" ((List.range length).map fun i => ("[" ++ toString i ++ "]", vlen))

def decodeStruct (fields : List (String × Nat)) : Read (List Bytes) :=
  decodeFixed "too few elements" (fields.map fun field => ("." ++ field.1, field.2))

-- The types `[n]byte`, `[][n]byte`, `[length][n]byte` and structs with such fields.
inductive ArrayType where
  | bytes (n : Nat)
  | slice (n : Nat)
  | array (length n : Nat)
  | struct (name : String) (fields : List (String × Nat))

namespace ArrayType

def name : ArrayType → String
  | bytes n => "[" ++ toString n ++ "]uint8"
  | slice n => "[][" ++ toString n ++ "]uint8"
  | array length n => "[" ++ toString length ++ "][" ++ toString n ++ "]uint8"
  | struct name _ => name

def sizes : ArrayType → List Nat
  | bytes n => [n]
  | slice n => [n]
  | array _ n => [n]
  | struct _ fields => fields.map Prod.snd

def Holds : ArrayType → List Bytes → Prop
  | bytes n, v => v.map List.length = [n]
  | slice n, v => ∀ b ∈ v, b.length = n
  | array length n, v => v.map List.length = List.replicate length n
  | struct _ fields, v => v.map List.length = fields.map Prod.snd

instance : ∀ (type : ArrayType) (v : List Bytes), Decidable (type.Holds v)
  | bytes n, v => inferInstanceAs (Decidable (v.map List.length = [n]))
  | slice n, v => inferInstanceAs (Decidable (∀ b ∈ v, b.length = n))
  | array length n, v => inferInstanceAs (Decidable (v.map List.length = List.replicate length n))
  | struct _ fields, v => inferInstanceAs (Decidable (v.map List.length = fields.map Prod.snd))

def decoder (rounds : Nat) : ArrayType → Read (List Bytes)
  | bytes n => do
    let b ← decodeByteArray n
    pure [b]
  | slice n => decodeArraySlice (decodeByteArray n) rounds
  | array length n => decodeListArray length n
  | struct _ fields => decodeStruct fields

def decodeBytes (type : ArrayType) (rounds : Nat) (b : Bytes) : Except RlpErr (List Bytes) :=
  match type.decoder rounds { r := b, remaining := b.length } with
  | (.error err, _) => .error (match err with
      | .decodeError msg (ctx :: ctxs) => .decodeError msg (ctx :: ctxs ++ ["(" ++ type.name ++ ")"])
      | err => err)
  | (.ok v, s) => if s.r.length > 0 then .error .moreThanOneValue else .ok v

-- `writeByteArray` writes a string, and the writers of slices, arrays and structs write lists of them.
def item : ArrayType → List Bytes → Item
  | bytes _, v => .str (v.headD [])
  | _, v => .list (v.map .str)

def encodeToBytes (type : ArrayType) (v : List Bytes) : Option Bytes := CuteEVM.encodeToBytes (type.item v)

end ArrayType

end CuteEVM
