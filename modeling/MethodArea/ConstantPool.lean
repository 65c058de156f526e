/-
# `ConstantPool` — constants with their text decoded

A pool is resolved in two passes.  The first decodes every text entry, in
order; the second puts text in place of each name index, in order, so that
a name may point forward as well as backward.  Positions are cut to 16
bits where they are used as indices, text entries look their own text up
by such an index, and index zero points nowhere: a text entry in position
65535 therefore has no text, and a later one has the text of another
entry.
-/
import MethodArea.ClassFile
import MethodArea.Error

namespace MethodArea

/-- A resolved pool. -/
structure ConstantPool where
  entries : Array (Constant String String)
deriving DecidableEq

/-- The one-based index of a position, cut to 16 bits. -/
def indexOf (position : Nat) : UInt16 := .ofNat (position + 1)

/-- The element at a one-based index. -/
def oneBased? {α : Type} (xs : Array α) (index : UInt16) : Option α :=
  if index = 0 then none else xs[index.toNat - 1]?

/-- A constant with its text and its name replaced. -/
def Constant.resolve {ε τ ν τ' ν' : Type} (text : τ → Except ε τ') (name : ν → Except ε ν') :
    Constant τ ν → Except ε (Constant τ' ν')
  | .utf8 t => .utf8 <$> text t
  | .integer v => .ok (.integer v)
  | .float b => .ok (.float b)
  | .long v => .ok (.long v)
  | .double b => .ok (.double b)
  | .classRef n => .classRef <$> name n
  | .string n => .string <$> name n
  | .fieldRef c n => .ok (.fieldRef c n)
  | .methodRef c n => .ok (.methodRef c n)
  | .interfaceMethodRef c n => .ok (.interfaceMethodRef c n)
  | .nameAndType n d => .ok (.nameAndType n d)
  | .methodHandle k i => .ok (.methodHandle k i)
  | .methodType d => .ok (.methodType d)
  | .dynamic b n => .ok (.dynamic b n)
  | .invokeDynamic b n => .ok (.invokeDynamic b n)
  | .moduleRef n => .moduleRef <$> name n
  | .packageRef n => .packageRef <$> name n
  | .empty => .ok .empty

namespace ConstantPool

/-- The text of an entry in a given position, if it is a text entry. -/
def decodeText (position : Nat) : RawConstant → Except Error (Option String)
  | .utf8 bytes =>
    match Text.ModifiedUtf8.decode? bytes with
    | some text => .ok (some text)
    | none => .error (.invalidModifiedUtf8 (indexOf position))
  | _ => .ok none

/-- The texts of a pool, by position. -/
def decodeTexts (raw : List RawConstant) : Except Error (List (Option String)) :=
  raw.zipIdx.mapM (fun (c, i) => decodeText i c)

/-- The text at an index. -/
def textAt (texts : Array (Option String)) (index : UInt16) : Except Error String :=
  match oneBased? texts index with
  | some (some text) => .ok text
  | _ => .error (.invalidConstantPoolIndex index .utf8)

/-- The resolved form of an entry in a given position. -/
def resolveEntry (texts : Array (Option String)) (position : Nat) (c : RawConstant) :
    Except Error (Constant String String) :=
  c.resolve (fun _ => textAt texts (indexOf position)) (textAt texts)

/-- The resolved form of a pool. -/
def ofRaw (raw : List RawConstant) : Except Error ConstantPool := do
  let texts := (← decodeTexts raw).toArray
  let entries ← raw.zipIdx.mapM (fun (c, i) => resolveEntry texts i c)
  pure ⟨entries.toArray⟩

/-- The number of entries. -/
def size (pool : ConstantPool) : Nat := pool.entries.size

/-- Whether the pool has no entry. -/
def isEmpty (pool : ConstantPool) : Bool := pool.entries.isEmpty

/-- The entry at an index. -/
def get? (pool : ConstantPool) (index : UInt16) : Option (Constant String String) :=
  oneBased? pool.entries index

/-- The text of the text entry at an index. -/
def utf8 (pool : ConstantPool) (index : UInt16) : Except Error String :=
  match pool.get? index with
  | some (.utf8 text) => .ok text
  | _ => .error (.invalidConstantPoolIndex index .utf8)

/-- The class name of the class entry at an index. -/
def className (pool : ConstantPool) (index : UInt16) : Except Error String :=
  match pool.get? index with
  | some (.classRef name) => .ok name
  | _ => .error (.invalidConstantPoolIndex index .classRef)

end ConstantPool

end MethodArea
