/-
# `Proofs.Area.CodeOrNative` — methods with code and native methods

A method should run either code or a native implementation, and the answer
"native" to a question for a source line should mean that there is no code.
Three places decide which it is: the check at the end of loading takes a
class initializer out of the native methods, whatever its flags are, while
resolving a method and asking for a source line look at the flag alone.

So the two kinds are kept apart for every method but one kind of its own, a
native method named `<clinit>`: it has code, as all class initializers do,
answers that it is native at every place of that code, and can be bound.
`code_or_native_iff` says that this is the one exception, at any time, and
`native_initializer_has_both` runs into it.
-/
import Mathlib
import MethodArea.Proofs.Area.Effects

namespace MethodArea

namespace Method

theorem sourceLine_eq_nativeMethod_iff {m : Method} {pc : Nat} :
    m.sourceLine pc = .nativeMethod ↔ m.isNative := by
  simp only [sourceLine]
  cases m.isNative with
  | true => simp
  | false =>
      refine ⟨?_, fun h => by cases h⟩
      intro h
      simp only [Bool.false_eq_true, if_false] at h
      split at h
      · cases h
      · split at h
        · cases h
        · split at h
          · cases h
          · cases h

theorem Installed.code_isSome_of_native {m : Method} (h : m.Installed) (hnative : m.isNative) :
    m.code.isSome ↔ m.name = classInitializerName := by
  rw [h.code_isSome_iff]
  refine ⟨?_, .inr⟩
  rintro (⟨hnot, -⟩ | hname)
  · rw [hnative] at hnot
    cases hnot
  · exact hname

end Method

namespace Area

/-- A method never has both code and a binding, nor code and source lines
that answer "native", unless it is native and named `<clinit>`; and one
that is does. -/
theorem Reachable.code_or_native_iff {a : Area} (h : Reachable a) {c : Class} {m : Method}
    (hc : c ∈ a.classes) (hm : m ∈ c.methods) :
    ((¬ (m.code.isSome ∧ m.bound.isSome) ∧
        ∀ pc, m.sourceLine pc = .nativeMethod → m.code = none) ↔
      ¬ (m.isNative ∧ m.name = Method.classInitializerName)) ∧
    (m.code.isSome ∧ m.bound.isSome ↔
      m.isNative ∧ m.name = Method.classInitializerName ∧ m.bound.isSome) := by
  have hinstalled := h.installed hc hm
  have hboth : m.code.isSome ∧ m.bound.isSome →
      m.isNative ∧ m.name = Method.classInitializerName := by
    rintro ⟨hcode, hbound⟩
    have hnative := hinstalled.native_of_bound hbound
    exact ⟨hnative, (hinstalled.code_isSome_of_native hnative).1 hcode⟩
  refine ⟨⟨?_, ?_⟩, ?_, ?_⟩
  · rintro ⟨-, hlines⟩ ⟨hnative, hname⟩
    have hcode := (hinstalled.code_isSome_of_native hnative).2 hname
    rw [hlines 0 (Method.sourceLine_eq_nativeMethod_iff.2 hnative)] at hcode
    cases hcode
  · intro hno
    refine ⟨fun h => hno (hboth h), ?_⟩
    intro pc hline
    have hnative := Method.sourceLine_eq_nativeMethod_iff.1 hline
    cases hcode : m.code with
    | none => rfl
    | some code =>
        have hsome : m.code.isSome := by rw [hcode]; rfl
        exact absurd ⟨hnative, (hinstalled.code_isSome_of_native hnative).1 hsome⟩ hno
  · intro h
    obtain ⟨hnative, hname⟩ := hboth h
    exact ⟨hnative, hname, h.2⟩
  · rintro ⟨hnative, hname, hbound⟩
    exact ⟨(hinstalled.code_isSome_of_native hnative).2 hname, hbound⟩

/-- A class with two native methods, one of them named `<clinit>`, with
code that has line 7. -/
def classWithNatives : ClassFile where
  constants := [.ofText "demo/A", .classRef 1, .ofText "Code", .ofText "LineNumberTable",
    .ofText "<clinit>", .ofText "()V", .ofText "run"]
  flags := ⟨1⟩
  thisClass := 2
  fields := []
  methods := [
    ⟨⟨0x0108⟩, 5, 6, [⟨3, [0, 1, 0, 1, 0, 0, 0, 1, 0xb1, 0, 0,
      0, 1, 0, 4, 0, 0, 0, 6, 0, 1, 0, 0, 0, 7]⟩]⟩,
    ⟨⟨0x0101⟩, 7, 6, []⟩]

/-- Both methods of the class are bound. -/
def bindNatives : List Operation :=
  [.load "A" classWithNatives none [],
    .register (.named "r") ⟨"demo/A", "<clinit>", "()V"⟩ Native.noOp,
    .register (.named "r") ⟨"demo/A", "run", "()V"⟩ Native.noOp,
    .resolve "A" 0 (.named "r"), .resolve "A" 1 (.named "r")]

/-- What there is to see of a method in a run of `bindNatives`. -/
structure NativeView where
  name : String
  native : Bool
  codeBytes : Option (List UInt8)
  bound : Bool
  line : SourceLine

/-- The view of a method. -/
def NativeView.of (m : Method) : NativeView :=
  ⟨m.name, m.isNative, m.codeBytes, m.bound.isSome, m.sourceLine 0⟩

theorem bindNatives_run :
    (run empty bindNatives).classes.map (fun c => c.methods.map NativeView.of) =
      [[⟨"<clinit>", true, some [0xb1], true, .nativeMethod⟩,
        ⟨"run", true, none, true, .nativeMethod⟩]] := by
  cbv

theorem exists_bindNatives : ∃ c initializer other, c ∈ (run empty bindNatives).classes ∧
    c.methods = [initializer, other] ∧
    NativeView.of initializer = ⟨"<clinit>", true, some [0xb1], true, .nativeMethod⟩ ∧
    NativeView.of other = ⟨"run", true, none, true, .nativeMethod⟩ := by
  obtain ⟨c, hclasses, hmethods⟩ := List.map_eq_singleton_iff.1 bindNatives_run
  obtain ⟨initializer, rest, hmethods, hfirst, hrest⟩ := List.map_eq_cons_iff.1 hmethods
  obtain ⟨other, rfl, hsecond⟩ := List.map_eq_singleton_iff.1 hrest
  exact ⟨c, initializer, other, hclasses ▸ List.mem_singleton_self c, hmethods, hfirst, hsecond⟩

/-- The native method that is no class initializer is bound, and so has no
code. -/
theorem code_or_native_bound : ∃ a c m, Reachable a ∧ c ∈ a.classes ∧ m ∈ c.methods ∧
    m.name = "run" ∧ m.bound.isSome ∧ ¬ (m.code.isSome ∧ m.bound.isSome) ∧
    ∀ pc, m.sourceLine pc = .nativeMethod → m.code = none := by
  obtain ⟨c, _, m, hc, hmethods, -, hview⟩ := exists_bindNatives
  have hreach : Reachable (run empty bindNatives) := ⟨bindNatives, rfl⟩
  have hm : m ∈ c.methods := by
    rw [hmethods]
    exact List.mem_cons_of_mem _ List.mem_cons_self
  have hname : m.name = "run" := congrArg NativeView.name hview
  have hno : ¬ (m.isNative ∧ m.name = Method.classInitializerName) := by
    rw [hname]
    rintro ⟨-, h⟩
    exact absurd h (by decide)
  exact ⟨_, c, m, hreach, hc, hm, hname, congrArg NativeView.bound hview,
    (hreach.code_or_native_iff hc hm).1.2 hno⟩

/-- The other one has code, is bound all the same, and answers that it is
native at the one place of its code, whose line is recorded. -/
theorem native_initializer_has_both :
    ¬ ∀ a, Reachable a → ∀ c ∈ a.classes, ∀ m ∈ c.methods,
      ¬ (m.code.isSome ∧ m.bound.isSome) ∧
        ∀ pc, m.sourceLine pc = .nativeMethod → m.code = none := by
  intro hall
  obtain ⟨c, m, _, hc, hmethods, hview, -⟩ := exists_bindNatives
  have hm : m ∈ c.methods := by
    rw [hmethods]
    exact List.mem_cons_self
  have hcode : m.codeBytes = some [0xb1] := congrArg NativeView.codeBytes hview
  have hsome : m.code.isSome := by
    rw [← Option.isSome_map (f := Code.bytes)]
    exact congrArg Option.isSome hcode
  exact (hall _ ⟨bindNatives, rfl⟩ c hc m hm).1 ⟨hsome, congrArg NativeView.bound hview⟩

end Area

end MethodArea
