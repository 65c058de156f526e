/-
# `AccessFlags` — the flag words of classes, fields and methods

A class file gives every class, field and method one 16-bit word of
flags.  The word is kept as it is read, unknown bits included; the four
flag sets below say which bits have a name where.  One bit may have two
names: 0x0040 is `VOLATILE` on a field and `BRIDGE` on a method.
-/
namespace MethodArea

/-- A word of flags. -/
structure AccessFlags where
  bits : UInt16
deriving DecidableEq

namespace AccessFlags

/-- Whether all bits of a mask are set. -/
def has (flags : AccessFlags) (mask : UInt16) : Bool := flags.bits &&& mask == mask

/-! ## The bits -/

def accPublic : UInt16 := 0x0001
def accPrivate : UInt16 := 0x0002
def accProtected : UInt16 := 0x0004
def accStatic : UInt16 := 0x0008
def accFinal : UInt16 := 0x0010
def accSuper : UInt16 := 0x0020
def accSynchronized : UInt16 := 0x0020
def accVolatile : UInt16 := 0x0040
def accBridge : UInt16 := 0x0040
def accTransient : UInt16 := 0x0080
def accVarargs : UInt16 := 0x0080
def accNative : UInt16 := 0x0100
def accInterface : UInt16 := 0x0200
def accAbstract : UInt16 := 0x0400
def accStrict : UInt16 := 0x0800
def accSynthetic : UInt16 := 0x1000
def accAnnotation : UInt16 := 0x2000
def accEnum : UInt16 := 0x4000
def accModule : UInt16 := 0x8000

end AccessFlags

/-- The named bits of one kind of owner, lowest first. -/
structure FlagSet where
  flags : List (String × UInt16)

namespace FlagSet

open AccessFlags

/-- The flags of a class. -/
def ofClass : FlagSet :=
  ⟨[("PUBLIC", accPublic), ("FINAL", accFinal), ("SUPER", accSuper),
    ("INTERFACE", accInterface), ("ABSTRACT", accAbstract), ("SYNTHETIC", accSynthetic),
    ("ANNOTATION", accAnnotation), ("ENUM", accEnum), ("MODULE", accModule)]⟩

/-- The flags that mean the same on fields and methods. -/
def ofMember : FlagSet :=
  ⟨[("PUBLIC", accPublic), ("PRIVATE", accPrivate), ("PROTECTED", accProtected),
    ("STATIC", accStatic), ("FINAL", accFinal), ("SYNTHETIC", accSynthetic)]⟩

/-- The flags of a field. -/
def ofField : FlagSet :=
  ⟨[("PUBLIC", accPublic), ("PRIVATE", accPrivate), ("PROTECTED", accProtected),
    ("STATIC", accStatic), ("FINAL", accFinal), ("VOLATILE", accVolatile),
    ("TRANSIENT", accTransient), ("SYNTHETIC", accSynthetic), ("ENUM", accEnum)]⟩

/-- The flags of a method. -/
def ofMethod : FlagSet :=
  ⟨[("PUBLIC", accPublic), ("PRIVATE", accPrivate), ("PROTECTED", accProtected),
    ("STATIC", accStatic), ("FINAL", accFinal), ("SYNCHRONIZED", accSynchronized),
    ("BRIDGE", accBridge), ("VARARGS", accVarargs), ("NATIVE", accNative),
    ("ABSTRACT", accAbstract), ("STRICT", accStrict), ("SYNTHETIC", accSynthetic)]⟩

/-- Every named bit. -/
def known (s : FlagSet) : UInt16 := s.flags.foldl (fun mask f => mask ||| f.2) 0

/-- The named bits of a word. -/
def truncate (s : FlagSet) (bits : UInt16) : UInt16 := bits &&& s.known

/-- The word itself, where it has no bit without a name. -/
def ofBits? (s : FlagSet) (bits : UInt16) : Option UInt16 :=
  if s.truncate bits = bits then some bits else none

/-- The names of the bits of a word. -/
def names (s : FlagSet) (bits : UInt16) : List String :=
  (s.flags.filter (fun f => bits &&& f.2 == f.2)).map Prod.fst

/-- Whether no named bit is set. -/
def isEmpty (s : FlagSet) (bits : UInt16) : Bool := s.truncate bits == 0

/-- Whether every named bit is set. -/
def isAll (s : FlagSet) (bits : UInt16) : Bool := s.truncate bits == s.known

/-- The named bits that are not set. -/
def complement (s : FlagSet) (bits : UInt16) : UInt16 := s.truncate (~~~bits)

end FlagSet

end MethodArea
