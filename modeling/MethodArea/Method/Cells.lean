/-
# `Method.Cells` — what can change about a loaded method

The code array may be replaced by one that all handlers of the method fit;
every replacement raises the revision number by one.  A native method is
bound to an implementation the first time that a look-up finds one, and
keeps it.  Everything else about a method stays as it was loaded.
-/
import MethodArea.Method.Basic

namespace MethodArea.Method

/-! ## Replacing code -/

/-- The method with another code array, if it has a body and its handlers
fit the new array. -/
def replaceCode (m : Method) (bytes : List UInt8) : Except Error Method :=
  if m.isBodiless then
    .error (.malformedAttribute AttributeName.code.text (.unexpectedCode m.ref))
  else
    match m.handlers.validate m.ref bytes.length with
    | .error e => .error e
    | .ok () =>
      .ok { m with code := some ⟨bytes, m.code.elim 0 Code.revision + 1⟩ }

/-! ## Native binding -/

/-- The implementation of a native method, and the method with it.  A
method that is bound already is not looked up again, and a look-up that
finds nothing is not remembered. -/
def resolve {m : Type → Type} [Monad m] (find : Method → m (Option BindingId))
    (method : Method) : m (Except Error BindingId × Method) :=
  if method.isNative then
    match method.bound with
    | some id => pure (.ok id, method)
    | none => do
      match ← find method with
      | some id => pure (.ok id, { method with bound := some id })
      | none => pure (.error (.missingNativeBinding method.ref), method)
  else pure (.error (.notNativeMethod method.ref), method)

end MethodArea.Method
