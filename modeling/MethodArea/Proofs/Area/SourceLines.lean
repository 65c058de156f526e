/-
# `Proofs.Area.SourceLines` — the source line of a program counter

What a method answers for a program counter is settled by four things: its
flags, the line number tables in its last `Code` attribute, the length of
the code that is installed now, and the program counter.

    nativeMethod   the method is native
    noLineTable    otherwise, if there are no tables
    outOfRange     otherwise, if the code ends before pc, or no row of any
                   table starts in time
    found l        otherwise; l is the line of the row that governs pc, in
                   the tables one behind the other

`LineAnswer` has one rule for each of these, and `sourceLine_eq_iff` says
that a method answers by them after every run.  Two things can be read off
the rules.  The tables count only for their rows together and for whether
there are any (`LineAnswer.of_split`).  And the length of the code counts
only for program counters that it makes too large (`LineAnswer.of_inside`),
so replacing code changes no answer that is asked for inside both codes.
-/
import Mathlib
import MethodArea.Proofs.Area.Frame
import MethodArea.Proofs.Area.Origins
import MethodArea.Proofs.Lines
import MethodArea.Proofs.Loading.Entries

namespace MethodArea

open Attribute ConstantPool

/-! ## The rules -/

/-- What a program counter says about the source. -/
inductive LineAnswer (native : Bool) (tables : List (List LineRow)) (codeLength pc : Nat) :
    SourceLine → Prop
  | nativeMethod : native = true → LineAnswer native tables codeLength pc .nativeMethod
  | noLineTable : native = false → tables = [] →
      LineAnswer native tables codeLength pc .noLineTable
  | outOfRange : native = false → tables ≠ [] →
      codeLength ≤ pc ∨ (∀ row ∈ tables.flatten, pc < row.startPc.toNat) →
      LineAnswer native tables codeLength pc .outOfRange
  | found {i : Nat} {row : LineRow} : native = false → tables ≠ [] → pc < codeLength →
      Governs tables.flatten pc i row → LineAnswer native tables codeLength pc (.found row.line)

namespace LineAnswer

variable {native : Bool} {tables tables' : List (List LineRow)} {codeLength codeLength' pc : Nat}
  {answer answer' : SourceLine}

theorem not_outOfRange_of_governs {i : Nat} {row : LineRow} (hpc : pc < codeLength)
    (h : Governs tables.flatten pc i row) :
    ¬ (codeLength ≤ pc ∨ ∀ row ∈ tables.flatten, pc < row.startPc.toNat) := by
  intro hout
  rcases hout with hlength | hlate
  · exact Nat.not_le.2 hpc hlength
  · exact Nat.not_lt.2 h.started (hlate row (List.mem_of_getElem? h.recorded))

/-- The rules exclude each other. -/
theorem unique (h : LineAnswer native tables codeLength pc answer)
    (h' : LineAnswer native tables codeLength pc answer') : answer = answer' := by
  cases h with
  | nativeMethod hnative =>
      cases h' with
      | nativeMethod _ => rfl
      | noLineTable hnot _ | outOfRange hnot _ _ | found hnot _ _ _ =>
          rw [hnative] at hnot
          cases hnot
  | noLineTable hnot hnone =>
      cases h' with
      | nativeMethod hnative =>
          rw [hnative] at hnot
          cases hnot
      | noLineTable _ _ => rfl
      | outOfRange _ hsome _ | found _ hsome _ _ => exact absurd hnone hsome
  | outOfRange hnot hsome hout =>
      cases h' with
      | nativeMethod hnative =>
          rw [hnative] at hnot
          cases hnot
      | noLineTable _ hnone => exact absurd hnone hsome
      | outOfRange _ _ _ => rfl
      | found _ _ hpc hgoverns => exact absurd hout (not_outOfRange_of_governs hpc hgoverns)
  | found hnot hsome hpc hgoverns =>
      cases h' with
      | nativeMethod hnative =>
          rw [hnative] at hnot
          cases hnot
      | noLineTable _ hnone => exact absurd hnone hsome
      | outOfRange _ _ hout => exact absurd hout (not_outOfRange_of_governs hpc hgoverns)
      | found _ _ _ hgoverns' => rw [hgoverns.unique hgoverns']

/-- How the rows are split over tables makes no difference. -/
theorem of_split (hnone : tables = [] ↔ tables' = []) (hrows : tables.flatten = tables'.flatten)
    (h : LineAnswer native tables codeLength pc answer) :
    LineAnswer native tables' codeLength pc answer := by
  cases h with
  | nativeMethod hnative => exact .nativeMethod hnative
  | noLineTable hnot hnil => exact .noLineTable hnot (hnone.1 hnil)
  | outOfRange hnot hsome hout => exact .outOfRange hnot (mt hnone.2 hsome) (hrows ▸ hout)
  | found hnot hsome hpc hgoverns =>
      exact .found hnot (mt hnone.2 hsome) hpc (hrows ▸ hgoverns)

/-- Inside the code its length makes no difference. -/
theorem of_inside (hpc : pc < codeLength) (hpc' : pc < codeLength')
    (h : LineAnswer native tables codeLength pc answer) :
    LineAnswer native tables codeLength' pc answer := by
  cases h with
  | nativeMethod hnative => exact .nativeMethod hnative
  | noLineTable hnot hnil => exact .noLineTable hnot hnil
  | outOfRange hnot hsome hout =>
      rcases hout with hlength | hlate
      · exact absurd hlength (Nat.not_le.2 hpc)
      · exact .outOfRange hnot hsome (.inr hlate)
  | found hnot hsome _ hgoverns => exact .found hnot hsome hpc' hgoverns

end LineAnswer

/-! ## One method -/

/-- A method answers by the rules for the tables that its line table was made
of. -/
theorem Method.lineAnswer_sourceLine {m : Method} {tables : List (List LineRow)}
    (hlines : m.lines = LineTable.ofTables? tables) (pc : Nat) :
    LineAnswer m.isNative tables m.codeLength pc (m.sourceLine pc) := by
  rw [sourceLine, hlines, ← codeLength]
  cases hnative : m.isNative with
  | true => exact .nativeMethod rfl
  | false =>
      rw [if_neg Bool.false_ne_true]
      cases tables with
      | nil => exact .noLineTable rfl rfl
      | cons rows tables =>
          dsimp only [LineTable.ofTables?]
          split
          · next hlength => exact .outOfRange rfl (List.cons_ne_nil _ _) (.inl hlength)
          · next hpc =>
              split
              · next line hline =>
                  obtain ⟨i, row, hgoverns, rfl⟩ := LineTable.exists_governs_of_line? hline
                  exact .found rfl (List.cons_ne_nil _ _) (Nat.not_le.1 hpc) hgoverns
              · next hnone =>
                  exact .outOfRange rfl (List.cons_ne_nil _ _)
                    (.inr (LineTable.line?_ofRows_eq_none_iff.1 hnone))

theorem Method.sourceLine_eq_iff_lineAnswer {m : Method} {tables : List (List LineRow)}
    (hlines : m.lines = LineTable.ofTables? tables) {pc : Nat} {answer : SourceLine} :
    m.sourceLine pc = answer ↔ LineAnswer m.isNative tables m.codeLength pc answer := by
  constructor
  · intro h
    exact h ▸ lineAnswer_sourceLine hlines pc
  · intro h
    exact (lineAnswer_sourceLine hlines pc).unique h

namespace Area

/-! ## Every method, after any run -/

/-- A method answers by the rules, after any run: for the tables of the
entry that it was loaded from and the code that it has now.  Other methods
whose tables have the same rows, in whatever number of tables, answer alike,
and so does the same method later on, where both codes go so far. -/
theorem sourceLine_eq_iff (ops : List Operation) {id : MethodId} {c : Class} {m : Method}
    (hc : (run empty ops).class? id.cls = some c) (hm : c.methods[id.position]? = some m) :
    ∃ file info, Origin ops id c file info ∧
      (∀ pc answer, m.sourceLine pc = answer ↔
        LineAnswer m.isNative (info.lineTables file.constants) m.codeLength pc answer) ∧
      (∀ raw' pool' className info' s s' m', ofRaw raw' = .ok pool' →
        Method.load pool' className info' s = (.ok m', s') →
        m'.isNative = m.isNative → m'.codeLength = m.codeLength →
        (info'.lineTables raw' = [] ↔ info.lineTables file.constants = []) →
        (info'.lineTables raw').flatten = (info.lineTables file.constants).flatten →
        ∀ pc, m'.sourceLine pc = m.sourceLine pc) ∧
      (∀ later c' m', (run empty (ops ++ later)).class? id.cls = some c' →
        c'.methods[id.position]? = some m' → ∀ pc, pc < m.codeLength → pc < m'.codeLength →
        m'.sourceLine pc = m.sourceLine pc) := by
  obtain ⟨-, -, -, -, -, file, info, _, _, loaded, horigin, hload, -, hfixed⟩ :=
    exists_entry ops hc hm
  have hlines : m.lines = LineTable.ofTables? (info.lineTables file.constants) := by
    rw [← (takesFrom_load horigin.pool hload).lines]
    exact (Method.congr_of_fixed (f := Method.lines) (fun _ => rfl) hfixed).symm
  refine ⟨file, info, horigin, fun pc answer => Method.sourceLine_eq_iff_lineAnswer hlines, ?_, ?_⟩
  · intro raw' pool' className info' s s' m' hpool' hload' hnative hlength hnone hrows pc
    have hanswer := Method.lineAnswer_sourceLine (takesFrom_load hpool' hload').lines pc
    rw [hnative, hlength] at hanswer
    exact (hanswer.of_split hnone hrows).unique (Method.lineAnswer_sourceLine hlines pc)
  · intro later c' m' hc' hm' pc hpc hpc'
    obtain ⟨m'', hm'', hsame⟩ := Class.exists_method_of_fixed (fixed_eq_of_later hc hc') hm
    rw [hm'] at hm''
    cases hm''
    have hlines' : m'.lines = m.lines := Method.congr_of_fixed (fun _ => rfl) hsame
    have hnative : m'.isNative = m.isNative := Method.congr_of_fixed (fun _ => rfl) hsame
    have hanswer := Method.lineAnswer_sourceLine (hlines'.trans hlines) pc
    rw [hnative] at hanswer
    exact (hanswer.of_inside hpc' hpc).unique (Method.lineAnswer_sourceLine hlines pc)

/-- A method of four bytes with two line number tables, none of them sorted;
byte 2 stands in both. -/
def twoLineTablesEntry : MemberInfo :=
  ⟨⟨0x0001⟩, 4, 5, [⟨3, [0, 2, 0, 1, 0, 0, 0, 4, 0, 0, 0, 0xb1, 0, 0, 0, 2,
    0, 6, 0, 0, 0, 10, 0, 2, 0, 2, 0, 20, 0, 0, 0, 10,
    0, 6, 0, 0, 0, 10, 0, 2, 0, 3, 0, 30, 0, 2, 0, 21]⟩]⟩

/-- A class with that method. -/
def twoLineTables : ClassFile where
  constants := [.ofText "demo/A", .classRef 1, .ofText "Code", .ofText "run", .ofText "()V",
    .ofText "LineNumberTable"]
  flags := ⟨1⟩
  thisClass := 2
  fields := []
  methods := [twoLineTablesEntry]

/-- The rows of the two tables. -/
def rowsOfTwoTables : List (List LineRow) := [[⟨2, 20⟩, ⟨0, 10⟩], [⟨3, 30⟩, ⟨2, 21⟩]]

theorem lineTables_twoLineTablesEntry :
    twoLineTablesEntry.lineTables twoLineTables.constants = rowsOfTwoTables := by cbv

/-- The class is loaded. -/
def twoLineTablesLoaded : List Operation :=
  [.load "A" twoLineTables none []]

/-- The later row for byte 2 counts.  Without the last byte of the code
nothing is said of it any more, and what is said of the others stays. -/
theorem sourceLine_eq_iff_two_tables :
    ∃ c m c' m', (run empty twoLineTablesLoaded).class? 0 = some c ∧ c.methods[0]? = some m ∧
      (run empty (twoLineTablesLoaded ++ [.replaceCode "A" 0 [0, 0, 0xb1]])).class? 0 = some c' ∧
      c'.methods[0]? = some m' ∧
      m.codeLength = 4 ∧ m'.codeLength = 3 ∧ m'.sourceLine 2 = m.sourceLine 2 ∧
      m'.sourceLine 3 = .outOfRange ∧
      Origin twoLineTablesLoaded ⟨0, 0⟩ c twoLineTables twoLineTablesEntry ∧
      twoLineTablesEntry.lineTables twoLineTables.constants = rowsOfTwoTables ∧
      LineAnswer false rowsOfTwoTables 4 2 (.found 21) ∧
      LineAnswer false rowsOfTwoTables 4 3 (.found 30) := by
  have hrun : ((run empty twoLineTablesLoaded).nextClass,
      ((run empty twoLineTablesLoaded).class? 0).map (fun c => c.methods.map (fun m =>
        (m.isNative, m.codeLength, m.sourceLine 2, m.sourceLine 3)))) =
      (1, some [(false, 4, .found 21, .found 30)]) := by cbv
  have hafter : ((run empty (twoLineTablesLoaded ++
      [.replaceCode "A" 0 [0, 0, 0xb1]])).class? 0).map (fun c =>
        c.methods.map (fun m => (m.codeLength, m.sourceLine 3))) = some [(3, .outOfRange)] := by cbv
  obtain ⟨hnext, hbefore⟩ := Prod.mk.inj hrun
  obtain ⟨c, hc, hmethods⟩ := Option.map_eq_some_iff.1 hbefore
  obtain ⟨m, hm, hfacts⟩ := List.map_eq_singleton_iff.1 hmethods
  obtain ⟨hnative, hfacts⟩ := Prod.mk.inj hfacts
  obtain ⟨hlength, hfacts⟩ := Prod.mk.inj hfacts
  obtain ⟨hsecond, hthird⟩ := Prod.mk.inj hfacts
  obtain ⟨c', hc', hmethods'⟩ := Option.map_eq_some_iff.1 hafter
  obtain ⟨m', hm', hfacts'⟩ := List.map_eq_singleton_iff.1 hmethods'
  obtain ⟨hlength', hout⟩ := Prod.mk.inj hfacts'
  have hget : c.methods[0]? = some m := by simp [hm]
  have hget' : c'.methods[0]? = some m' := by simp [hm']
  obtain ⟨file, info, horigin, hanswers, -, hlater⟩ :=
    @sourceLine_eq_iff twoLineTablesLoaded ⟨0, 0⟩ c m hc hget
  -- the class is the first one to be loaded
  have hops : twoLineTablesLoaded = [] ++ .load "A" twoLineTables none [] :: [] := rfl
  obtain ⟨rfl, rfl⟩ := horigin.eq_of_load hops rfl hnext rfl rfl
  have hinside : 2 < m.codeLength := by
    rw [hlength]
    decide
  have hinside' : 2 < m'.codeLength := by
    rw [hlength']
    decide
  have hkept := hlater [.replaceCode "A" 0 [0, 0, 0xb1]] c' m' hc' hget' 2 hinside hinside'
  have hfound := (hanswers 2 _).1 hsecond
  have hlast := (hanswers 3 _).1 hthird
  rw [hnative, hlength, lineTables_twoLineTablesEntry] at hfound hlast
  exact ⟨c, m, c', m', hc, hget, hc', hget', hlength, hlength', hkept, hout, horigin,
    lineTables_twoLineTablesEntry, hfound, hlast⟩

end Area

end MethodArea
