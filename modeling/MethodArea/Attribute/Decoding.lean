/-
# `Attribute.Decoding` — attributes out of payloads

The name of an attribute is a text entry of the constant pool.  A payload
has to have the shape that goes with a recognised name; under any other
name it is accepted as it is and forgotten.  The attributes inside a
`Code` payload are decoded in order by the same rules, once the payload
itself has been taken apart.
-/
import MethodArea.Attribute.Basic
import MethodArea.Attribute.Nesting
import MethodArea.ConstantPool

namespace MethodArea.Attribute

/-- A decoded payload; none stands for a payload of the wrong shape. -/
def orMalformed {α : Type} (name : String) : Option α → Except Error α
  | some a => .ok a
  | none => .error (.malformedAttribute name .layout)

/-- An attribute with its payload decoded. -/
def decode (pool : ConstantPool) (a : AttributeInfo) : Except Error Attribute := do
  let name ← pool.utf8 a.nameIndex
  match AttributeName.ofText? name with
  | some .code =>
    match _ : codeFrame? a.info with
    | none => .error (.malformedAttribute name .layout)
    | some frame =>
      let nested ← frame.attributes.attach.mapM (fun ⟨b, _⟩ => decode pool b)
      pure (.code ⟨frame.maxStack, frame.maxLocals, frame.code, frame.handlers, nested⟩)
  | some .lineNumberTable =>
    .lineNumberTable <$> orMalformed name (whole? (readList readLineRow) a.info)
  | some .exceptions => .exceptions <$> orMalformed name (whole? (readList readU2) a.info)
  | some .signature => do
    let index ← orMalformed name (whole? readU2 a.info)
    .signature <$> pool.utf8 index
  | some .constantValue => .constantValue <$> orMalformed name (whole? readU2 a.info)
  | some .annotations => pure (.annotations a.info)
  | some .parameterAnnotations => pure (.parameterAnnotations a.info)
  | some .annotationDefault => pure (.annotationDefault a.info)
  | none => pure .unknown
termination_by a.info.length
decreasing_by exact info_length_lt_of_codeFrame? ‹_› _ ‹_›

/-- Attributes with their payloads decoded, up to the first that fails. -/
def decodeAll (pool : ConstantPool) (attributes : List AttributeInfo) :
    Except Error (List Attribute) :=
  attributes.mapM (decode pool)

/-- A `Code` attribute is its frame, with the attributes inside it decoded
by the same rules. -/
theorem decode_code {pool : ConstantPool} {a : AttributeInfo} {name : String}
    (hn : pool.utf8 a.nameIndex = .ok name) (hc : AttributeName.ofText? name = some .code) :
    decode pool a = (do
      let frame ← orMalformed name (codeFrame? a.info)
      let nested ← decodeAll pool frame.attributes
      pure (.code ⟨frame.maxStack, frame.maxLocals, frame.code, frame.handlers, nested⟩)) := by
  rw [decode, hn]
  simp only [bind, Except.bind]
  rw [hc]
  dsimp only
  split
  · next e =>
    rw [e]
    rfl
  · next frame e =>
    rw [e]
    simp only [orMalformed, decodeAll]
    rw [List.mapM_subtype (g := decode pool) (fun _ _ => rfl), List.unattach_attach]

end MethodArea.Attribute
