import CuteEVM.Rlp.Decode
import CuteEVM.Rlp.Encode

set_option autoImplicit false

namespace CuteEVM

open Read

/-! `rlp/raw.go`. A result is none if an index or a slice is out of range. -/

namespace Raw

-- The bytes of a size, shifted to their places.
def shifted : Bytes → Nat
  | [] => 0
  | b :: rest => (b.toNat <<< (8 * rest.length)) ||| shifted rest

def readSize (b : Bytes) (slen : Nat) : Option (Except RlpErr Nat) :=
  if slen > b.length then some (.error .unexpectedEOF)
  else do
    let s := if 1 ≤ slen ∧ slen ≤ 8 then shifted (b.take slen) else 0
    if s < 56 then pure (.error .canonSize)
    else do
      let first ← b[0]?
      if first = 0 then pure (.error .canonSize) else pure (.ok s)

def withinInput (buf : Bytes) (k : Kind) (tagsize contentsize : Nat) : Except RlpErr (Kind × Nat × Nat) :=
  if contentsize > (buf.length + (2 ^ 64 - tagsize)) % 2 ^ 64 then .error .valueTooLarge else .ok (k, tagsize, contentsize)

-- A header with the size written out, in so many bytes.
def readSized (buf : Bytes) (k : Kind) (slen : UInt8) : Option (Except RlpErr (Kind × Nat × Nat)) := do
  match ← readSize (buf.drop 1) slen.toNat with
  | .error err => pure (.error err)
  | .ok contentsize => pure (withinInput buf k (slen.toNat + 1) contentsize)

-- The kind, the size of the header and the size of the content. A byte that stands for itself has no header.
def readKind (buf : Bytes) : Option (Except RlpErr (Kind × Nat × Nat)) :=
  match buf with
  | [] => some (.error .unexpectedEOF)
  | b :: rest =>
    if b < 0x80 then some (withinInput buf .byte 0 1)
    else if b < 0xB8 then
      if (b - 0x80).toNat = 1 ∧ rest.length > 0 ∧ rest.headD 0 < 128 then some (.error .canonSize)
      else some (withinInput buf .string 1 (b - 0x80).toNat)
    else if b < 0xC0 then readSized buf .string (b - 0xB7)
    else if b < 0xF8 then some (withinInput buf .list 1 (b - 0xC0).toNat)
    else readSized buf .list (b - 0xF7)

-- `Split`: the kind and the content of the first value, and the bytes after it. With an error, the rest is all of `b`.
def split (b : Bytes) : Option (Except RlpErr (Kind × Bytes × Bytes)) := do
  match ← readKind b with
  | .error err => pure (.error err)
  | .ok (k, ts, cs) =>
    let content ← subslice b ts ((ts + cs) % 2 ^ 64)
    let rest ← subslice b ((ts + cs) % 2 ^ 64) b.length
    pure (.ok (k, content, rest))

def splitString (b : Bytes) : Option (Except RlpErr (Bytes × Bytes)) := do
  match ← split b with
  | .error err => pure (.error err)
  | .ok (k, content, rest) => if k = .list then pure (.error .expectedString) else pure (.ok (content, rest))

def splitList (b : Bytes) : Option (Except RlpErr (Bytes × Bytes)) := do
  match ← split b with
  | .error err => pure (.error err)
  | .ok (k, content, rest) => if k ≠ .list then pure (.error .expectedList) else pure (.ok (content, rest))

-- The loop of `CountValues`, or none if it has not ended after so many rounds.
def countFrom : Nat → Nat → Bytes → Option (Except RlpErr Nat)
  | 0, _, _ => none
  | rounds + 1, i, b =>
    if b.length > 0 then do
      match ← readKind b with
      | .error err => pure (.error err)
      | .ok (_, tagsize, size) =>
        let b ← subslice b ((tagsize + size) % 2 ^ 64) b.length
        countFrom rounds (i + 1) b
    else pure (.ok i)

-- `CountValues`. Every value has at least one byte.
def countValues (b : Bytes) : Option (Except RlpErr Nat) := countFrom (b.length + 1) 0 b

end Raw

/-! ## Walks over the values of an input -/

inductive Visit where
  | value
  | list
  | listEnd

def newStream (b : Bytes) : Stream := { r := b, remaining := b.length }

-- What a stream reads: the kind and the content of a value. For a list, the content is the payload that is ahead.
def Read.visit : Visit → Read (Option (Kind × Bytes))
  | .value => do
    let (k, _) ← kind
    let content ← bytes
    pure (some (k, content))
  | .list => do
    let size ← list
    let s ← get
    pure (some (.list, s.r.take size))
  | .listEnd => do
    listEnd
    pure none

def Read.walk : List Visit → Read (List (Option (Kind × Bytes)))
  | [] => pure []
  | visit :: visits => do
    let first ← Read.visit visit
    let rest ← Read.walk visits
    pure (first :: rest)

namespace Raw

-- The same on slices. The innermost of the lists that were entered is the first, and each is what is still unread.
def visit (unread : List Bytes) : Visit → Option (Option (Kind × Bytes) × List Bytes)
  | .value => do
    let b ← unread.head?
    match ← split b, ← splitString b with
    | .ok (k, _, _), .ok (content, rest) => pure (some (k, content), rest :: unread.tail)
    | _, _ => none
  | .list => do
    let b ← unread.head?
    match ← splitList b with
    | .ok (content, rest) => pure (some (.list, content), content :: rest :: unread.tail)
    | .error _ => none
  | .listEnd =>
    match unread with
    | [] :: outer :: more => some (none, outer :: more)
    | _ => none

def walk : List Visit → List Bytes → Option (List (Option (Kind × Bytes)) × List Bytes)
  | [], unread => some ([], unread)
  | step :: visits, unread => do
    let (first, unread) ← visit unread step
    let (rest, unread) ← walk visits unread
    pure (first :: rest, unread)

end Raw

end CuteEVM
