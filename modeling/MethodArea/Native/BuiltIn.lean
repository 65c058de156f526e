/-
# `Native.BuiltIn` — the natives of the floating-point classes

Four implementations turn floating-point values into integers of the same
width and back.  Values carry their bits as they are, so each of them only
changes the kind of its first argument, and two that undo each other lose
nothing.
-/
import MethodArea.Native.Registry

namespace MethodArea.Native

/-- The bits of a 32-bit floating-point value. -/
def floatToRawIntBits : Native := fun env => do
  let v ← env.arg 0
  let bits ← v.getFloat
  pure (some (.int bits.toInt32))

/-- The 32-bit floating-point value of some bits. -/
def intBitsToFloat : Native := fun env => do
  let v ← env.arg 0
  let bits ← v.getInt
  pure (some (.float bits.toUInt32))

/-- The bits of a 64-bit floating-point value. -/
def doubleToRawLongBits : Native := fun env => do
  let v ← env.arg 0
  let bits ← v.getDouble
  pure (some (.long bits.toInt64))

/-- The 64-bit floating-point value of some bits. -/
def longBitsToDouble : Native := fun env => do
  let v ← env.arg 0
  let bits ← v.getLong
  pure (some (.double bits.toUInt64))

/-- The natives that are always at hand, with the methods they are for. -/
def builtIn : List (MethodRef × Native) :=
  [(⟨"java/lang/Float", "floatToRawIntBits", "(F)I"⟩, floatToRawIntBits),
    (⟨"java/lang/Float", "intBitsToFloat", "(I)F"⟩, intBitsToFloat),
    (⟨"java/lang/Double", "doubleToRawLongBits", "(D)J"⟩, doubleToRawLongBits),
    (⟨"java/lang/Double", "longBitsToDouble", "(J)D"⟩, longBitsToDouble)]

end MethodArea.Native
