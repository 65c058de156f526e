/-
# `Proofs.Area.Dispatch` — the handler that takes an exception

An exception thrown at a program counter is taken by the first row of the
class file that qualifies:

    startPc ≤ pc < endPc, and
    catchType is 0, or the name of that class entry is accepted

"First" is in the order of the file, over the rows of the last `Code`
attribute of the method.  For an exception of a class a name is accepted if
some class can be reached from it that has the name, by steps to super
classes and interfaces (`Hierarchy.Reaches`).

`lookup_eq_iff` puts together three things: where the table of a method
comes from and that it is still there (`exists_entry`), what a look-up
answers (`firstHandler_lookup`), and what the walk along the hierarchy
finds (`Hierarchy.isSubclassOf_iff`).
-/
import Mathlib
import MethodArea.Proofs.Area.Links
import MethodArea.Proofs.Area.Origins
import MethodArea.Proofs.Loading.Entries

namespace MethodArea

open Attribute ConstantPool

/-! ## The first row that qualifies -/

/-- A row covers a program counter and catches what is accepted. -/
def Qualifies (pool : ConstantPool) (accepts : String → Prop) (pc : Nat) (row : HandlerRow) :
    Prop :=
  row.startPc.toNat ≤ pc ∧ pc < row.endPc.toNat ∧
    (row.catchType = 0 ∨ ∃ name, pool.className row.catchType = .ok name ∧ accepts name)

/-- The handler of the first row that qualifies, if there is one. -/
inductive FirstHandler (rows : List HandlerRow) (qualifies : HandlerRow → Prop) :
    Option UInt16 → Prop
  | found {i : Nat} {row : HandlerRow} : rows[i]? = some row → qualifies row →
      (∀ j < i, ∀ earlier, rows[j]? = some earlier → ¬ qualifies earlier) →
      FirstHandler rows qualifies (some row.handlerPc)
  | unhandled : (∀ row ∈ rows, ¬ qualifies row) → FirstHandler rows qualifies none

theorem FirstHandler.unique {rows : List HandlerRow} {qualifies : HandlerRow → Prop}
    {answer answer' : Option UInt16} (h : FirstHandler rows qualifies answer)
    (h' : FirstHandler rows qualifies answer') : answer = answer' := by
  cases h with
  | @found i row hrow hq hfirst =>
      cases h' with
      | @found j row' hrow' hq' hfirst' =>
          rcases Nat.lt_trichotomy i j with hij | rfl | hij
          · exact absurd hq (hfirst' i hij row hrow)
          · rw [hrow] at hrow'
            rw [Option.some.inj hrow']
          · exact absurd hq' (hfirst j hij row' hrow')
      | unhandled hnone => exact absurd hq (hnone row (List.mem_of_getElem? hrow))
  | unhandled hnone =>
      cases h' with
      | @found i row hrow hq _ => exact absurd hq (hnone row (List.mem_of_getElem? hrow))
      | unhandled _ => rfl

theorem EntryOf.qualifies_iff {pool : ConstantPool} {row : HandlerRow} {e : HandlerEntry}
    (h : EntryOf pool row e) {accepts : String → Bool} {pc : Nat} :
    (e.covers pc && e.catches accepts) = true ↔
      Qualifies pool (fun name => accepts name = true) pc row := by
  cases h with
  | any h0 =>
      simp [HandlerEntry.covers, HandlerEntry.catches, Qualifies, h0]
  | @cls name h0 hname =>
      simp [HandlerEntry.covers, HandlerEntry.catches, Qualifies, h0, hname, and_assoc]

theorem EntryOf.handlerPc_eq {pool : ConstantPool} {row : HandlerRow} {e : HandlerEntry}
    (h : EntryOf pool row e) : e.handlerPc = row.handlerPc := by
  cases h with
  | any _ => rfl
  | cls _ _ => rfl

/-- A look-up answers the handler of the first row that qualifies. -/
theorem firstHandler_lookup {pool : ConstantPool} {rows : List HandlerRow}
    {table : ExceptionTable} (h : EntriesOf pool rows table) (accepts : String → Bool)
    (pc : Nat) :
    FirstHandler rows (Qualifies pool (fun name => accepts name = true) pc)
      (table.lookup accepts pc) := by
  rw [ExceptionTable.lookup]
  cases hfind : table.entries.find? (fun e => e.covers pc && e.catches accepts) with
  | none =>
      refine .unhandled fun row hmem hq => ?_
      obtain ⟨i, hi⟩ := List.mem_iff_getElem?.1 hmem
      obtain ⟨e, he, hentry⟩ := h.exists_entry hi
      exact List.find?_eq_none.1 hfind e (List.mem_of_getElem? he) (hentry.qualifies_iff.2 hq)
  | some e =>
      obtain ⟨hq, i, hi, rfl, hearlier⟩ := List.find?_eq_some_iff_getElem.1 hfind
      obtain ⟨row, hrow, hentry⟩ := h.exists_row (List.getElem?_eq_getElem hi)
      rw [Option.map_some, hentry.handlerPc_eq]
      refine .found hrow (hentry.qualifies_iff.1 hq) fun j hj earlier hget hq' => ?_
      obtain ⟨e', he', hentry'⟩ := h.exists_entry hget
      have hno := hearlier j hj
      rw [(List.getElem?_eq_some_iff.1 he').2, hentry'.qualifies_iff.2 hq'] at hno
      cases hno

theorem lookup_eq_iff_firstHandler {pool : ConstantPool} {rows : List HandlerRow}
    {table : ExceptionTable} (h : EntriesOf pool rows table) {accepts : String → Bool}
    {pc : Nat} {answer : Option UInt16} :
    table.lookup accepts pc = answer ↔
      FirstHandler rows (Qualifies pool (fun name => accepts name = true) pc) answer := by
  constructor
  · rintro rfl
    exact firstHandler_lookup h accepts pc
  · exact fun hanswer => (firstHandler_lookup h accepts pc).unique hanswer

/-! ## The rows of a method -/

/-- The handlers that loading gives a method are those of its rows. -/
theorem entriesOf_handlers {raw : List RawConstant} {pool : ConstantPool}
    (hpool : ofRaw raw = .ok pool) {className : String} {info : MemberInfo}
    {s s' : Interner} {m : Method}
    (h : Method.load pool className info s = (.ok m, s')) :
    EntriesOf pool (info.rows raw) m.handlers :=
  entriesOf_of_ofRows (takesFrom_load hpool h).handlers

namespace Area

/-- The class of a thrown exception is accepted by the name of every class
that can be reached from it. -/
def IsAccepted (a : Area) (thrown : ClassId) (name : String) : Prop :=
  ∃ d ∈ a.classes, Hierarchy.Reaches a.classes thrown d.id ∧ d.name = name

theorem Reachable.isSubclassOf_iff {a : Area} (h : Reachable a) {thrown : ClassId}
    {name : String} : a.isSubclassOf thrown name = true ↔ a.IsAccepted thrown name :=
  Hierarchy.isSubclassOf_iff h.inOrder

/-- The handler of an exception is that of the first row that qualifies, for
every method of a class that exists after a run: whatever decides which
names are accepted, and for every class that is thrown.  The rows are those
of the file whose load answered the class. -/
theorem lookup_eq_iff {ops : List Operation} {c : Class} {m : Method} {i : Nat}
    (hc : c ∈ (run empty ops).classes) (hm : c.methods[i]? = some m) :
    ∃ file info, Origin ops ⟨c.id, i⟩ c file info ∧
      (∀ accepts pc answer, m.handlers.lookup accepts pc = answer ↔
        FirstHandler (info.rows file.constants)
          (Qualifies c.pool (fun name => accepts name = true) pc) answer) ∧
      ∀ thrown ∈ (run empty ops).classes,
        (∀ pc answer, m.handlers.lookup ((run empty ops).isSubclassOf thrown.id) pc = answer ↔
          FirstHandler (info.rows file.constants)
            (Qualifies c.pool ((run empty ops).IsAccepted thrown.id) pc) answer) ∧
        ∀ id, Hierarchy.Reaches (run empty ops).classes thrown.id id →
          ∃ d ∈ (run empty ops).classes, d.id = id := by
  have hreach : Reachable (run empty ops) := ⟨ops, rfl⟩
  have hclass := hreach.ordered.class?_eq_some_iff.2 ⟨hc, rfl⟩
  obtain ⟨-, -, -, -, -, file, info, _, _, loaded, horigin, hload, -, hfixed⟩ :=
    @exists_entry ops ⟨c.id, i⟩ c hclass m hm
  have hhandlers : (loaded.pointBack c.id).handlers = m.handlers :=
    Method.congr_of_fixed (fun _ => rfl) hfixed
  have hentries : EntriesOf c.pool (info.rows file.constants) m.handlers := by
    rw [← hhandlers]
    show EntriesOf c.pool (info.rows file.constants) loaded.handlers
    exact entriesOf_handlers horigin.pool hload
  refine ⟨file, info, horigin,
    fun accepts pc answer => lookup_eq_iff_firstHandler hentries, fun thrown hthrown => ⟨?_, ?_⟩⟩
  · intro pc answer
    rw [lookup_eq_iff_firstHandler hentries]
    simp only [hreach.isSubclassOf_iff]
  · exact fun id hpath => hreach.closed.exists_of_reaches hpath ⟨thrown, hthrown, rfl⟩

/-- A class of a given name, without members. -/
def bareClass (name : String) : ClassFile where
  constants := [.ofText name, .classRef 1]
  flags := ⟨1⟩
  thisClass := 2
  fields := []
  methods := []

/-- A method of three bytes with three handlers, one in the other: the first
two catch the classes of entries 7 and 9, the last one anything. -/
def nestedHandlersEntry : MemberInfo :=
  ⟨⟨1⟩, 4, 5, [⟨3, [0, 2, 0, 1, 0, 0, 0, 3, 0, 0, 0xb1, 0, 3,
    0, 0, 0, 2, 0, 2, 0, 7, 0, 0, 0, 2, 0, 1, 0, 9, 0, 0, 0, 3, 0, 0, 0, 0, 0, 0]⟩]⟩

/-- A class with that method, where the two entries are `demo/X` and
`demo/I`. -/
def nestedHandlers : ClassFile where
  constants := [.ofText "demo/M", .classRef 1, .ofText "Code", .ofText "run", .ofText "()V",
    .ofText "demo/X", .classRef 6, .ofText "demo/I", .classRef 8]
  flags := ⟨1⟩
  thisClass := 2
  fields := []
  methods := [nestedHandlersEntry]

/-- A class whose super class has an interface, and a class with handlers. -/
def hierarchyAndHandlers : List Operation :=
  [.load "I" (bareClass "demo/I") none [], .load "B" (bareClass "demo/B") none ["I"],
    .load "C" (bareClass "demo/C") (some "B") [], .load "M" nestedHandlers none []]

/-- The interface of the super class is what the exception is caught by;
behind the inner ranges it is the last handler, and behind the code none. -/
theorem lookup_eq_iff_interface_of_super :
    ∃ c m thrown, c ∈ (run empty hierarchyAndHandlers).classes ∧ c.methods[0]? = some m ∧
      thrown ∈ (run empty hierarchyAndHandlers).classes ∧ thrown.name = "demo/C" ∧
      Origin hierarchyAndHandlers ⟨c.id, 0⟩ c nestedHandlers nestedHandlersEntry ∧
      nestedHandlersEntry.rows nestedHandlers.constants =
        [⟨0, 2, 2, 7⟩, ⟨0, 2, 1, 9⟩, ⟨0, 3, 0, 0⟩] ∧
      ∀ answer,
        (FirstHandler [⟨0, 2, 2, 7⟩, ⟨0, 2, 1, 9⟩, ⟨0, 3, 0, 0⟩] (Qualifies c.pool
          ((run empty hierarchyAndHandlers).IsAccepted thrown.id) 1) answer ↔ answer = some 1) ∧
        (FirstHandler [⟨0, 2, 2, 7⟩, ⟨0, 2, 1, 9⟩, ⟨0, 3, 0, 0⟩] (Qualifies c.pool
          ((run empty hierarchyAndHandlers).IsAccepted thrown.id) 2) answer ↔ answer = some 0) ∧
        (FirstHandler [⟨0, 2, 2, 7⟩, ⟨0, 2, 1, 9⟩, ⟨0, 3, 0, 0⟩] (Qualifies c.pool
          ((run empty hierarchyAndHandlers).IsAccepted thrown.id) 3) answer ↔ answer = none) := by
  have hrun : (run empty hierarchyAndHandlers).classes.map (fun c => (c.name, c.id,
      c.methods.map (fun m => [1, 2, 3].map
        (m.handlers.lookup ((run empty hierarchyAndHandlers).isSubclassOf 2))))) =
      [("demo/M", 3, [[some 1, some 0, none]]), ("demo/C", 2, []), ("demo/B", 1, []),
        ("demo/I", 0, [])] := by
    cbv
  have hrows : nestedHandlersEntry.rows nestedHandlers.constants =
      [⟨0, 2, 2, 7⟩, ⟨0, 2, 1, 9⟩, ⟨0, 3, 0, 0⟩] := by cbv
  obtain ⟨c, rest, hclasses, hc, hrest⟩ := List.map_eq_cons_iff.1 hrun
  obtain ⟨thrown, rest', rfl, hthrown, -⟩ := List.map_eq_cons_iff.1 hrest
  simp only [Prod.mk.injEq] at hc hthrown
  obtain ⟨-, hcid, hmethods⟩ := hc
  obtain ⟨hname, hid, -⟩ := hthrown
  obtain ⟨m, hm, hlookups⟩ := List.map_eq_singleton_iff.1 hmethods
  simp only [List.map_cons, List.map_nil, List.cons.injEq, and_true] at hlookups
  obtain ⟨hfirst, hsecond, hthird⟩ := hlookups
  have hcmem : c ∈ (run empty hierarchyAndHandlers).classes := by simp [hclasses]
  have htmem : thrown ∈ (run empty hierarchyAndHandlers).classes := by simp [hclasses]
  have hget : c.methods[0]? = some m := by simp [hm]
  obtain ⟨file, info, horigin, -, hall⟩ := lookup_eq_iff hcmem hget
  -- three classes are loaded before the one that has identity 3
  have hops : hierarchyAndHandlers =
      hierarchyAndHandlers.take 3 ++ .load "M" nestedHandlers none [] :: [] := rfl
  have hthree : (run empty (hierarchyAndHandlers.take 3)).nextClass = 3 := by cbv
  have hfour : (run empty (hierarchyAndHandlers.take 3 ++
      [.load "M" nestedHandlers none []])).nextClass = 4 := by cbv
  obtain ⟨rfl, rfl⟩ := horigin.eq_of_load hops (hthree.trans hcid.symm)
    (hfour.trans (congrArg (· + 1) hcid.symm)) rfl rfl
  have hthrown := (hall thrown htmem).1
  rw [hrows] at hthrown
  refine ⟨c, m, thrown, hcmem, hget, htmem, hname, horigin, hrows, fun answer => ⟨?_, ?_, ?_⟩⟩
  · rw [← hthrown, hid, hfirst, eq_comm]
  · rw [← hthrown, hid, hsecond, eq_comm]
  · rw [← hthrown, hid, hthird, eq_comm]

end Area

end MethodArea
