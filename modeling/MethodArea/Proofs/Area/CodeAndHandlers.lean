/-
# `Proofs.Area.CodeAndHandlers` — handlers stay in the code

At any time, in every class that exists:

* a method has code exactly if it is neither native nor abstract, or is
  named `<clinit>`;
* a method without code has no handlers, no line table and no frame;
* every handler of a method with code has a non-empty range that ends in
  the code, and starts in the code itself.

So whatever a look-up answers lies in the code that is installed, even
after any number of replacements by longer and shorter code.  The reason is
that the two ways in which a method gets code ask for the same thing: a
table is made for the code that comes with it, and a replacement is checked
against the table that is there (`Method.Installed`).
-/
import Mathlib
import MethodArea.Proofs.Area.Effects

namespace MethodArea.Area

/-- Code and exception table of a method agree in every reachable area, and
a handler is only ever answered for a place in the code and is one. -/
theorem Reachable.handlers_fit_code {a : Area} (h : Reachable a) {c : Class} {m : Method}
    (hc : c ∈ a.classes) (hm : m ∈ c.methods) :
    (m.code.isSome ↔
      (m.isNative = false ∧ m.isAbstract = false) ∨ m.name = Method.classInitializerName) ∧
    (m.code = none →
      m.handlers.entries = [] ∧ m.maxStack = 0 ∧ m.maxLocals = 0 ∧ m.lines = none) ∧
    (∀ code, m.code = some code → ∀ e ∈ m.handlers.entries,
      e.startPc < e.endPc ∧ e.endPc.toNat ≤ code.bytes.length ∧
        e.handlerPc.toNat < code.bytes.length) ∧
    (∀ accepts pc handler, m.handlers.lookup accepts pc = some handler →
      ∃ code, m.code = some code ∧ pc < code.bytes.length ∧
        handler.toNat < code.bytes.length) := by
  have hinstalled := h.installed hc hm
  refine ⟨hinstalled.code_isSome_iff, ?_, hinstalled.fits, ?_⟩
  · intro hnone
    obtain ⟨hhandlers, hstack, hlocals, hlines⟩ := hinstalled.of_none hnone
    refine ⟨?_, ?_, ?_, hlines⟩
    · rw [hhandlers]
      rfl
    · rw [Method.maxStack, hstack]
      rfl
    · rw [Method.maxLocals, hlocals]
      rfl
  · intro accepts pc handler hfound
    exact hinstalled.lookup_lt hfound

/-- A class with one method of three bytes, protected up to the last one,
which is where its handler starts. -/
def classWithHandler : ClassFile where
  constants := [.ofText "demo/A", .classRef 1, .ofText "Code", .ofText "run", .ofText "()V"]
  flags := ⟨1⟩
  thisClass := 2
  fields := []
  methods := [⟨⟨1⟩, 4, 5, [⟨3,
    [0, 2, 0, 1, 0, 0, 0, 3, 0, 0, 0xb1, 0, 1, 0, 0, 0, 2, 0, 2, 0, 0, 0, 0]⟩]⟩]

/-- A replacement by two bytes is refused, one by four is not, and one by
three after that is not either; the handler is in the code all along. -/
theorem handlers_fit_code_replaced :
    ∃ a c m code, Reachable a ∧ c ∈ a.classes ∧ m ∈ c.methods ∧ m.code = some code ∧
      code.bytes = [0, 0, 0xb2] ∧ m.handlers.lookup (fun _ => false) 1 = some 2 ∧
      1 < code.bytes.length ∧ (2 : UInt16).toNat < code.bytes.length := by
  have hreach : Reachable (run empty [.load "A" classWithHandler none [],
      .replaceCode "A" 0 [0, 0], .replaceCode "A" 0 [0, 0, 0, 0xb1],
      .replaceCode "A" 0 [0, 0, 0xb2]]) := ⟨_, rfl⟩
  have hrun : (run empty [.load "A" classWithHandler none [],
      .replaceCode "A" 0 [0, 0], .replaceCode "A" 0 [0, 0, 0, 0xb1],
      .replaceCode "A" 0 [0, 0, 0xb2]]).classes.map (fun c => c.methods.map (fun m =>
        (m.codeBytes, m.handlers.lookup (fun _ => false) 1))) =
      [[(some [0, 0, 0xb2], some 2)]] := by
    cbv
  obtain ⟨c, hclasses, hmethods⟩ := List.map_eq_singleton_iff.1 hrun
  obtain ⟨m, hmethods, hpair⟩ := List.map_eq_singleton_iff.1 hmethods
  have hbytes := congrArg Prod.fst hpair
  have hfound := congrArg Prod.snd hpair
  have hc := hclasses ▸ List.mem_singleton_self c
  have hm := hmethods ▸ List.mem_singleton_self m
  obtain ⟨code, hcode, hplaces⟩ := (hreach.handlers_fit_code hc hm).2.2.2 _ _ _ hfound
  refine ⟨_, c, m, code, hreach, hc, hm, hcode, ?_, hfound, hplaces⟩
  rw [Method.codeBytes, hcode] at hbytes
  exact Option.some.inj hbytes

end MethodArea.Area
