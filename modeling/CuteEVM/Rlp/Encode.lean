import CuteEVM.Shared.Rlp
import CuteEVM.State.Types

set_option autoImplicit false

namespace CuteEVM

open Rlp (Item)

/-! `rlp/encode.go`. An interface value that holds a tree is `[]byte` or `[]interface{}`. -/

-- `putint`: as many bytes as the number needs.
def putint (i : Nat) : Bytes :=
  if i < 1 <<< 8 then bigEndian 1 i
  else if i < 1 <<< 16 then bigEndian 2 i
  else if i < 1 <<< 24 then bigEndian 3 i
  else if i < 1 <<< 32 then bigEndian 4 i
  else if i < 1 <<< 40 then bigEndian 5 i
  else if i < 1 <<< 48 then bigEndian 6 i
  else if i < 1 <<< 56 then bigEndian 7 i
  else bigEndian 8 i

-- The loop of `intsize`, which shifts a number of 64 bits at most eight times.
def intsizeFrom : Nat → Nat → Nat → Nat
  | 0, size, _ => size
  | rounds + 1, size, i => if i >>> 8 = 0 then size else intsizeFrom rounds (size + 1) (i >>> 8)

def intsize (i : Nat) : Nat := intsizeFrom 8 1 i

def puthead (smalltag largetag : UInt8) (size : Nat) : Bytes :=
  if size < 56 then [smalltag + UInt8.ofNat size]
  else (largetag + UInt8.ofNat (putint size).length) :: putint size

structure ListHead where
  offset : Nat
  size : Nat

def ListHead.encode (head : ListHead) : Bytes := puthead 0xC0 0xF7 head.size

-- The headers of lists are kept apart, since their sizes are known only at the end.
structure Encbuf where
  str : Bytes := []
  lheads : List ListHead := []
  lhsize : Nat := 0

namespace Encbuf

def encodeStringHeader (w : Encbuf) (size : Nat) : Encbuf :=
  if size < 56 then { w with str := w.str ++ [0x80 + UInt8.ofNat size] }
  else { w with str := w.str ++ (0xB7 + UInt8.ofNat (putint size).length) :: putint size }

def encodeString (w : Encbuf) (b : Bytes) : Encbuf :=
  if b.length = 1 ∧ b.headD 0 ≤ 0x7F then { w with str := w.str ++ [b.headD 0] }
  else
    let w := w.encodeStringHeader b.length
    { w with str := w.str ++ b }

def size (w : Encbuf) : Nat := w.str.length + w.lhsize

-- A new header, with its place among the headers. Until its list ends, it holds the size of the headers before it.
def list (w : Encbuf) : Nat × Encbuf :=
  (w.lheads.length, { w with lheads := w.lheads ++ [⟨w.str.length, w.lhsize⟩] })

def listEnd (w : Encbuf) (lh : Nat) : Encbuf :=
  let close := fun (head : ListHead) => { head with size := w.size - head.offset - head.size }
  let size := ((w.lheads[lh]?).map close).elim 0 ListHead.size
  { w with
    lheads := w.lheads.modify lh close
    lhsize := if size < 56 then w.lhsize + 1 else w.lhsize + (1 + intsize size) }

end Encbuf

mutual

-- `writeBytes`, or the writer of a slice of interface values.
def writeItem : Item → Encbuf → Encbuf
  | .str b, w => w.encodeString b
  | .list items, w =>
    let (lh, w) := w.list
    (writeItems items w).listEnd lh

def writeItems : List Item → Encbuf → Encbuf
  | [], w => w
  | item :: items, w => writeItems items (writeItem item w)

end

-- `b[low:high]`, which panics if the range is not inside.
def subslice (b : Bytes) (low high : Nat) : Option Bytes :=
  if low ≤ high ∧ high ≤ b.length then some ((b.drop low).take (high - low)) else none

-- `copy(out[pos:], src)`, with the number of bytes that were copied.
def copyAt (out : Bytes) (pos : Nat) (src : Bytes) : Option (Nat × Bytes) :=
  if pos ≤ out.length then
    let n := min src.length (out.length - pos)
    some (n, out.take pos ++ src.take n ++ out.drop (pos + n))
  else none

def putAt (out : Bytes) (pos : Nat) (src : Bytes) : Option Bytes :=
  if pos + src.length ≤ out.length then some (out.take pos ++ src ++ out.drop (pos + src.length)) else none

-- The output so far, with the places in the string data and in the output.
structure Output where
  out : Bytes
  strpos : Nat := 0
  pos : Nat := 0

def Output.writeHead (str : Bytes) (o : Output) (head : ListHead) : Option Output := do
  let before ← subslice str o.strpos head.offset
  let (n, out) ← copyAt o.out o.pos before
  let out ← putAt out (o.pos + n) head.encode
  pure ⟨out, o.strpos + n, o.pos + n + head.encode.length⟩

def Encbuf.toBytes (w : Encbuf) : Option Bytes := do
  let o ← w.lheads.foldlM (Output.writeHead w.str) ⟨List.replicate w.size 0, 0, 0⟩
  let rest ← subslice w.str o.strpos w.str.length
  let (_, out) ← copyAt o.out o.pos rest
  pure out

-- One round of `toWriter`, with the place in the string data and what was written. The writer takes everything.
def Encbuf.writeHead (str : Bytes) (state : Nat × Bytes) (head : ListHead) : Option (Nat × Bytes) := do
  let (strpos, out) := state
  if strpos < head.offset then
    let before ← subslice str strpos head.offset
    pure (strpos + before.length, out ++ before ++ head.encode)
  else pure (strpos, out ++ head.encode)

def Encbuf.toWriter (w : Encbuf) : Option Bytes := do
  let (strpos, out) ← w.lheads.foldlM (Encbuf.writeHead w.str) (0, [])
  if strpos < w.str.length then
    let rest ← subslice w.str strpos w.str.length
    pure (out ++ rest)
  else pure out

-- The reader that `EncodeToReader` returns. It has no buffer after the end of the file.
structure EncReader where
  buf : Option Encbuf
  lhpos : Nat := 0
  strpos : Nat := 0
  piece : Option Bytes := none

namespace EncReader

def next (r : EncReader) : Option (Option Bytes × EncReader) :=
  match r.buf, r.piece with
  | none, _ => some (none, r)
  | some _, some piece => some (some piece, r)
  | some buf, none =>
    match buf.lheads[r.lhpos]? with
    | some head =>
      if r.strpos < head.offset then do
        let p ← subslice buf.str r.strpos head.offset
        pure (some p, { r with strpos := r.strpos + (head.offset - r.strpos) })
      else some (some head.encode, { r with lhpos := r.lhpos + 1 })
    | none =>
      if r.strpos < buf.str.length then do
        let p ← subslice buf.str r.strpos buf.str.length
        pure (some p, { r with strpos := buf.str.length })
      else some (none, r)

-- The loop of `Read` into what is left of a buffer, with the bytes that are in it already. At the end of the file it
-- says so, and it is none if a slice is out of range or the rounds do not suffice.
def fill : Nat → Nat → Bytes → EncReader → Option (Bytes × Bool × EncReader)
  | 0, _, _, _ => none
  | rounds + 1, room, b, r => do
    let (piece, r) ← r.next
    match piece with
    | none => pure (b, true, { r with buf := none, piece := none })
    | some piece =>
      let nn := min room piece.length
      if nn < piece.length then pure (b ++ piece.take nn, false, { r with piece := some (piece.drop nn) })
      else fill rounds (room - nn) (b ++ piece.take nn) { r with piece := none }

-- `Read` into a buffer of so many bytes. Every piece has at least one byte.
def read (r : EncReader) (size : Nat) : Option (Bytes × Bool × EncReader) := fill (r.buf.elim 0 Encbuf.size + 1) size [] r

-- Calls of `Read` until the end of the file, the next of them with a buffer of `sizes call` bytes.
def readAll (sizes : Nat → Nat) : Nat → Nat → EncReader → Option Bytes
  | 0, _, _ => none
  | rounds + 1, call, r => do
    let (b, eof, r) ← r.read (sizes call)
    if eof then pure b
    else do
      let rest ← readAll sizes rounds (call + 1) r
      pure (b ++ rest)

end EncReader

inductive BufCall where
  | list
  | encodeString (b : Bytes)
  | listEnd

-- A buffer with the headers of the lists that are open, the innermost first. A list can only be ended if one is open.
def Encbuf.call (state : Encbuf × List Nat) : BufCall → Option (Encbuf × List Nat)
  | .list => some (state.1.list.2, state.1.list.1 :: state.2)
  | .encodeString b => some (state.1.encodeString b, state.2)
  | .listEnd =>
    match state.2 with
    | [] => none
    | lh :: outer => some (state.1.listEnd lh, outer)

def encodeToBytes (item : Item) : Option Bytes := (writeItem item {}).toBytes

end CuteEVM
