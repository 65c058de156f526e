/-
# `Attribute.Layout` — attribute payloads as bytes

Numbers are big-endian and lists follow their 16-bit count; code and
nested payloads follow their 32-bit length.  For every reader that takes a
value off the front of the bytes there is a writer that lays the value
out.  A payload has to be used up: `whole?` is none both where bytes are
missing and where some are left over.
-/
import MethodArea.ClassFile

namespace MethodArea.Attribute

/-- Takes a value off the front of the bytes. -/
abbrev ByteReader (α : Type) : Type := List UInt8 → Option (α × List UInt8)

/-- The value that uses up the bytes. -/
def whole? {α : Type} (read : ByteReader α) (bytes : List UInt8) : Option α :=
  match read bytes with
  | some (a, []) => some a
  | _ => none

/-! ## Numbers -/

/-- The two bytes of a 16-bit number. -/
def writeU2 (n : UInt16) : List UInt8 := [.ofNat (n.toNat / 0x100), .ofNat (n.toNat % 0x100)]

/-- A 16-bit number. -/
def readU2 : ByteReader UInt16
  | a :: b :: rest => some (.ofNat (a.toNat * 0x100 + b.toNat), rest)
  | _ => none

/-- The four bytes of a 32-bit number. -/
def writeU4 (n : UInt32) : List UInt8 :=
  [.ofNat (n.toNat / 0x1000000), .ofNat (n.toNat / 0x10000 % 0x100),
    .ofNat (n.toNat / 0x100 % 0x100), .ofNat (n.toNat % 0x100)]

/-- A 32-bit number. -/
def readU4 : ByteReader UInt32
  | a :: b :: c :: d :: rest =>
    some (.ofNat (((a.toNat * 0x100 + b.toNat) * 0x100 + c.toNat) * 0x100 + d.toNat), rest)
  | _ => none

/-! ## Sequences -/

/-- The first `n` bytes.  Whether there are so many is asked of the bytes
taken and not of all that are left: a payload may hold thousands of short
blocks. -/
def readBytes (n : Nat) : ByteReader (List UInt8) := fun bytes =>
  let block := bytes.take n
  if block.length = n then some (block, bytes.drop n) else none

/-- Bytes that follow their length. -/
def readBlock : ByteReader (List UInt8) := fun bytes => do
  let (n, bytes) ← readU4 bytes
  readBytes n.toNat bytes

/-- A block of bytes after its length. -/
def writeBlock (block : List UInt8) : List UInt8 := writeU4 (.ofNat block.length) ++ block

/-- As many values as counted, after those in `done` (last one first). -/
def readTimes {α : Type} (read : ByteReader α) (done : List α) : Nat → ByteReader (List α)
  | 0, bytes => some (done.reverse, bytes)
  | n + 1, bytes =>
    match read bytes with
    | some (a, rest) => readTimes read (a :: done) n rest
    | none => none

/-- Values that follow their number. -/
def readList {α : Type} (read : ByteReader α) : ByteReader (List α) := fun bytes => do
  let (n, bytes) ← readU2 bytes
  readTimes read [] n.toNat bytes

/-- Values after their number. -/
def writeList {α : Type} (write : α → List UInt8) (values : List α) : List UInt8 :=
  writeU2 (.ofNat values.length) ++ values.flatMap write

/-! ## Rows -/

/-- A row of the exception table of a code array; catch type zero catches
everything. -/
structure HandlerRow where
  startPc : UInt16
  endPc : UInt16
  handlerPc : UInt16
  catchType : UInt16
deriving DecidableEq

/-- A row of an exception table. -/
def readHandlerRow : ByteReader HandlerRow := fun bytes => do
  let (startPc, bytes) ← readU2 bytes
  let (endPc, bytes) ← readU2 bytes
  let (handlerPc, bytes) ← readU2 bytes
  let (catchType, bytes) ← readU2 bytes
  some (⟨startPc, endPc, handlerPc, catchType⟩, bytes)

/-- The eight bytes of a row of an exception table. -/
def writeHandlerRow (row : HandlerRow) : List UInt8 :=
  writeU2 row.startPc ++ writeU2 row.endPc ++ writeU2 row.handlerPc ++ writeU2 row.catchType

/-- A row of a line number table: the line of the code from `startPc`
on. -/
structure LineRow where
  startPc : UInt16
  line : UInt16
deriving DecidableEq

/-- A row of a line number table. -/
def readLineRow : ByteReader LineRow := fun bytes => do
  let (startPc, bytes) ← readU2 bytes
  let (line, bytes) ← readU2 bytes
  some (⟨startPc, line⟩, bytes)

/-- The four bytes of a row of a line number table. -/
def writeLineRow (row : LineRow) : List UInt8 := writeU2 row.startPc ++ writeU2 row.line

/-- An attribute with its payload undecoded. -/
def readAttributeInfo : ByteReader AttributeInfo := fun bytes => do
  let (nameIndex, bytes) ← readU2 bytes
  let (info, bytes) ← readBlock bytes
  some (⟨nameIndex, info⟩, bytes)

/-- The bytes of an attribute: its name and its payload. -/
def writeAttributeInfo (a : AttributeInfo) : List UInt8 := writeU2 a.nameIndex ++ writeBlock a.info

/-! ## The frame of a `Code` attribute -/

/-- A `Code` payload with its nested attributes still undecoded. -/
structure CodeFrame where
  maxStack : UInt16
  maxLocals : UInt16
  code : List UInt8
  handlers : List HandlerRow
  attributes : List AttributeInfo
deriving DecidableEq

/-- A `Code` payload; what follows it is left. -/
def readCodeFrame : ByteReader CodeFrame := fun bytes => do
  let (maxStack, bytes) ← readU2 bytes
  let (maxLocals, bytes) ← readU2 bytes
  let (code, bytes) ← readBlock bytes
  let (handlers, bytes) ← readList readHandlerRow bytes
  let (attributes, bytes) ← readList readAttributeInfo bytes
  some (⟨maxStack, maxLocals, code, handlers, attributes⟩, bytes)

/-- The bytes of a `Code` payload. -/
def writeCodeFrame (f : CodeFrame) : List UInt8 :=
  writeU2 f.maxStack ++ writeU2 f.maxLocals ++ writeBlock f.code ++
    writeList writeHandlerRow f.handlers ++ writeList writeAttributeInfo f.attributes

end MethodArea.Attribute
