/-
# `Proofs.Area.Subclasses` — the handlers of a class and of its subclasses

A class is accepted by every name that a class above it is accepted by: the
walk from the subclass leads there first and goes on from there.  So where
an exception is handled, an exception of a subclass is handled as well, and
not behind it:

    thrown         handler
    a class        entry i
    a subclass     entry j ≤ i; if j < i, this entry catches by a name that
                   accepts the subclass and not the class

Nothing is asked of the table.  It may be that of any method, with ranges
that overlap and with names of classes that are not loaded.
-/
import MethodArea.Proofs.Area.Dispatch

namespace MethodArea.Area

open Hierarchy

/-- What accepts a class accepts what leads to it. -/
theorem IsAccepted.of_reaches {a : Area} {c d : ClassId} {name : String}
    (hpath : Reaches a.classes d c) (h : a.IsAccepted c name) : a.IsAccepted d name := by
  obtain ⟨x, hx, habove, hname⟩ := h
  exact ⟨x, hx, hpath.trans habove, hname⟩

theorem Reachable.isSubclassOf_of_reaches {a : Area} (h : Reachable a) {c d : ClassId}
    (hpath : Reaches a.classes d c) {name : String} (hname : a.isSubclassOf c name = true) :
    a.isSubclassOf d name = true :=
  h.isSubclassOf_iff.2 ((h.isSubclassOf_iff.1 hname).of_reaches hpath)

/-- An exception of a subclass is taken by the entry that takes one of the
class, or by an earlier entry, which catches a class that the subclass has
above it and the class has not.  It is never unhandled where an exception of
the class is handled. -/
theorem Reachable.subclass_handled_no_later {a : Area} (h : Reachable a) (table : ExceptionTable)
    (pc : Nat) {c d : ClassId} (hpath : Reaches a.classes d c) :
    (∀ i, table.find? (a.isSubclassOf c) pc = some i →
      ∃ j ≤ i, table.find? (a.isSubclassOf d) pc = some j ∧
        (j < i → ∃ e name, table.entries[j]? = some e ∧ e.covers pc = true ∧
          e.catchType = .cls name ∧ a.isSubclassOf d name = true ∧
          a.isSubclassOf c name = false)) ∧
    (table.lookup (a.isSubclassOf c) pc ≠ none → table.lookup (a.isSubclassOf d) pc ≠ none) := by
  have hmore : ∀ name, a.isSubclassOf c name = true → a.isSubclassOf d name = true :=
    fun name => h.isSubclassOf_of_reaches hpath
  refine ⟨fun i hi => ExceptionTable.find?_mono hmore hi, fun hhandled hunhandled => ?_⟩
  obtain ⟨i, hi⟩ := Option.ne_none_iff_exists'.1 (mt ExceptionTable.lookup_eq_none_iff.2 hhandled)
  obtain ⟨j, -, hj, -⟩ := ExceptionTable.find?_mono hmore hi
  rw [ExceptionTable.lookup_eq_none_iff, hj] at hunhandled
  cases hunhandled

/-- Handlers for a class, then for its interface. -/
def classThenInterface : ExceptionTable :=
  ⟨[⟨0, 2, 0, .cls "demo/B"⟩, ⟨0, 2, 1, .cls "demo/I"⟩]⟩

/-- An exception of the interface is taken by the second handler.  One of a
class whose super class has the interface is taken by the first handler,
which catches that super class. -/
theorem subclass_handled_no_later_interface :
    Reaches (run empty hierarchyAndHandlers).classes 2 0 ∧
    classThenInterface.find? ((run empty hierarchyAndHandlers).isSubclassOf 0) 1 = some 1 ∧
    classThenInterface.find? ((run empty hierarchyAndHandlers).isSubclassOf 2) 1 = some 0 ∧
    (run empty hierarchyAndHandlers).isSubclassOf 2 "demo/B" = true ∧
    (run empty hierarchyAndHandlers).isSubclassOf 0 "demo/B" = false := by
  have hlinks : [2, 1].map (fun id =>
      ((run empty hierarchyAndHandlers).class? id).map Class.links) = [some [1], some [0]] := by
    cbv
  have hinterface : classThenInterface.find? ((run empty hierarchyAndHandlers).isSubclassOf 0) 1 =
      some 1 := by cbv
  have hclass : classThenInterface.find? ((run empty hierarchyAndHandlers).isSubclassOf 2) 1 =
      some 0 := by cbv
  simp only [List.map_cons, List.map_nil, List.cons.injEq, and_true,
    Option.map_eq_some_iff] at hlinks
  obtain ⟨⟨c, hc, hsuper⟩, ⟨b, hb, hinterfaces⟩⟩ := hlinks
  have hpath : Reaches (run empty hierarchyAndHandlers).classes 2 0 :=
    .step ⟨c, hc, hsuper ▸ List.mem_singleton_self 1⟩
      (.step ⟨b, hb, hinterfaces ▸ List.mem_singleton_self 0⟩ (.refl 0))
  obtain ⟨hentries, -⟩ := Reachable.subclass_handled_no_later ⟨hierarchyAndHandlers, rfl⟩
    classThenInterface 1 hpath
  obtain ⟨j, -, hj, hearlier⟩ := hentries 1 hinterface
  obtain rfl : 0 = j := Option.some.inj (hclass.symm.trans hj)
  obtain ⟨e, name, he, -, hname, haccepted, hrefused⟩ := hearlier Nat.zero_lt_one
  cases he
  cases hname
  exact ⟨hpath, hinterface, hclass, haccepted, hrefused⟩

end MethodArea.Area
