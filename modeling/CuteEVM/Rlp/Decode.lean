import CuteEVM.Shared.Rlp
import CuteEVM.State.Types

set_option autoImplicit false

namespace CuteEVM

open Rlp (Item)

/-! `rlp/decode.go`, as far as it decodes into an interface value. -/

inductive RlpErr where
  | EOL
  | EOF
  | unexpectedEOF
  | expectedString
  | expectedList
  | canonInt
  | canonSize
  | uintOverflow
  | elemTooLarge
  | valueTooLarge
  | moreThanOneValue
  | notInList
  | notAtEOL
  -- A `decodeError`, with its context from the inside out. The name of the type that is decoded into is left out.
  | decodeError (msg : String) (ctx : List String)
  -- The recursion of the model was cut off.
  | outOfFuel
  deriving DecidableEq, Repr

def wrapStreamError : RlpErr → RlpErr
  | .canonInt => .decodeError "non-canonical integer (leading zero bytes)" []
  | .canonSize => .decodeError "non-canonical size information" []
  | .expectedList => .decodeError "expected input list" []
  | .expectedString => .decodeError "expected input string or byte" []
  | .uintOverflow => .decodeError "input string too long" []
  | .notAtEOL => .decodeError "input list has too many elements" []
  | err => err

def addErrorContext (err : RlpErr) (ctx : String) : RlpErr :=
  match err with
  | .decodeError msg ctxs => .decodeError msg (ctxs ++ [ctx])
  | err => err

inductive Kind where
  | byte
  | string
  | list
  deriving DecidableEq, Repr

structure ListPos where
  pos : Nat
  size : Nat

-- The innermost list is the first on the stack. Without a kind, the next value has not been looked at.
structure Stream where
  r : Bytes
  remaining : Nat
  limited : Bool := true
  kind : Option Kind := none
  size : Nat := 0
  byteval : UInt8 := 0
  kinderr : Option RlpErr := none
  stack : List ListPos := []

def Stream.oversized (s : Stream) (size : Nat) : Option RlpErr :=
  match s.stack with
  | [] => if s.limited && size > s.remaining then some .valueTooLarge else none
  | tos :: _ => if size > tos.size - tos.pos then some .elemTooLarge else none

def Stream.ended (s : Stream) : Bool :=
  match s.stack with
  | [] => false
  | tos :: _ => tos.pos = tos.size

-- A computation on a stream. What was read stays read, also if there is an error.
def Read (α : Type) : Type := Stream → Except RlpErr α × Stream

namespace Read

variable {α β : Type}

def bind (first : Read α) (next : α → Read β) : Read β := fun s =>
  match first s with
  | (.ok value, s) => next value s
  | (.error err, s) => (.error err, s)

instance : Monad Read where
  pure value := fun s => (.ok value, s)
  bind := Read.bind

def fail (err : RlpErr) : Read α := fun s => (.error err, s)

def attempt (first : Read α) (next : Except RlpErr α → Read β) : Read β := fun s =>
  match first s with
  | (outcome, s) => next outcome s

def get : Read Stream := fun s => (.ok s, s)

def modify (change : Stream → Stream) : Read Unit := fun s => (.ok (), change s)

def rearm : Read Unit := modify fun s => { s with kind := none }

def withinLimit (n : Nat) : Read Unit := fun s =>
  if s.limited then
    if n > s.remaining then (.error .valueTooLarge, s) else (.ok (), { s with remaining := s.remaining - n })
  else (.ok (), s)

def willRead (n : Nat) : Read Unit := fun s =>
  let s := { s with kind := none }
  match s.stack with
  | [] => withinLimit n s
  | tos :: outer =>
    if n > tos.size - tos.pos then (.error .elemTooLarge, s)
    else withinLimit n { s with stack := { tos with pos := tos.pos + n } :: outer }

-- `s.r.ReadByte` and `s.r.Read`, on the input that is left.
def inputByte : Read UInt8 := fun s =>
  match s.r with
  | [] => (.error .unexpectedEOF, s)
  | b :: rest => (.ok b, { s with r := rest })

def inputBytes (size : Nat) : Read Bytes := fun s =>
  if s.r.length < size then (.error .unexpectedEOF, { s with r := [] })
  else (.ok (s.r.take size), { s with r := s.r.drop size })

def readByte : Read UInt8 := do
  willRead 1
  inputByte

def readFull (size : Nat) : Read Bytes := do
  willRead size
  inputBytes size

def readUint : Nat → Read Nat
  | 0 => do
    rearm
    pure 0
  | 1 => do
    let b ← readByte
    pure b.toNat
  | size => do
    let buf ← readFull size
    if buf.headD 0 = 0 then fail .canonSize else pure (setBytes buf)

-- The kind and the size of the next value, and the error of its header.
def readSized (kind : Kind) (sizesize : UInt8) (s : Stream) : (Kind × Nat × Option RlpErr) × Stream :=
  match readUint sizesize.toNat s with
  | (.ok size, s) => ((kind, size, if size < 56 then some .canonSize else none), s)
  | (.error err, s) => ((kind, 0, some err), s)

-- At toplevel, the end of the input is `io.EOF`.
def atToplevel (s : Stream) (err : RlpErr) : RlpErr :=
  if s.stack.isEmpty ∧ (err = .unexpectedEOF ∨ err = .valueTooLarge) then .EOF else err

def readKind (s : Stream) : (Kind × Nat × Option RlpErr) × Stream :=
  match readByte s with
  | (.error err, s) => ((.byte, 0, some (atToplevel s err)), s)
  | (.ok b, s) =>
    let s := { s with byteval := 0 }
    if b < 0x80 then ((.byte, 0, none), { s with byteval := b })
    else if b < 0xB8 then ((.string, (b - 0x80).toNat, none), s)
    else if b < 0xC0 then readSized .string (b - 0xB7) s
    else if b < 0xF8 then ((.list, (b - 0xC0).toNat, none), s)
    else readSized .list (b - 0xF7) s

-- `Stream.Kind`. The answer is kept until a value is read, with its error.
def kind : Read (Kind × Nat) := fun s =>
  match s.kind with
  | some kind =>
    match s.kinderr with
    | some err => (.error err, s)
    | none => (.ok (kind, s.size), s)
  | none =>
    let s := { s with kinderr := none }
    if s.ended then (.error .EOL, s)
    else
      let ((kind, size, err), s) := readKind s
      match err.or (s.oversized size) with
      | some err => (.error err, { s with kind := some kind, size := size, kinderr := some err })
      | none => (.ok (kind, size), { s with kind := some kind, size := size, kinderr := none })

def bytes : Read Bytes := do
  let (kind, size) ← kind
  match kind with
  | .byte => do
    rearm
    let s ← get
    pure [s.byteval]
  | .string => do
    let b ← readFull size
    if size = 1 ∧ b.headD 0 < 128 then fail .canonSize else pure b
  | .list => fail .expectedString

def list : Read Nat := do
  let (kind, size) ← kind
  if kind ≠ .list then fail .expectedList
  else do
    modify fun s => { s with stack := ⟨0, size⟩ :: s.stack, kind := none, size := 0 }
    pure size

def listEnd : Read Unit := do
  let s ← get
  match s.stack with
  | [] => fail .notInList
  | tos :: outer =>
    if tos.pos ≠ tos.size then fail .notAtEOL
    else
      let outer := match outer with
        | [] => []
        | next :: rest => { next with pos := next.pos + tos.size } :: rest
      modify fun s => { s with stack := outer, kind := none, size := 0 }

end Read

open Read

def wrapped {α : Type} (read : Read α) : Read α :=
  attempt read fun
    | .ok value => pure value
    | .error err => fail (wrapStreamError err)

mutual

def decodeInterface : Nat → Read Item
  | 0 => fail .outOfFuel
  | fuel + 1 => do
    let (kind, _) ← kind
    if kind = .list then do
      let items ← decodeListSlice fuel
      pure (.list items)
    else do
      let b ← bytes
      pure (.str b)

def decodeListSlice : Nat → Read (List Item)
  | 0 => fail .outOfFuel
  | fuel + 1 => do
    let size ← wrapped list
    if size = 0 then do
      listEnd
      pure []
    else do
      let items ← decodeSliceElems fuel []
      listEnd
      pure items

def decodeSliceElems : Nat → List Item → Read (List Item)
  | 0, _ => fail .outOfFuel
  | fuel + 1, items =>
    attempt (decodeInterface fuel) fun
      | .ok item => decodeSliceElems fuel (items ++ [item])
      | .error .EOL => pure items
      | .error err => fail (addErrorContext err ("[" ++ toString items.length ++ "]"))

end

-- `DecodeBytes` into an interface value. Every value but the first needs a byte of its own, so the bound on the
-- recursion is not reached.
def decodeBytes (b : Bytes) : Except RlpErr Item :=
  match decodeInterface (3 * b.length + 3) { r := b, remaining := b.length } with
  | (.error err, _) => .error (match err with
      | .decodeError msg (ctx :: ctxs) => .decodeError msg (ctx :: ctxs ++ ["(interface {})"])
      | err => err)
  | (.ok item, s) => if s.r.length > 0 then .error .moreThanOneValue else .ok item

end CuteEVM
