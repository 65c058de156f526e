/-
# `Proofs.Loading.Entries` — what a method takes from its entry

Of the attributes of an entry that are code the last one counts.  Its frame
says what the method has:

    code array     the code of the frame
    handlers       those of the rows of the frame, for that code
    line table     the rows of all line number tables in the frame

and all three are missing or empty where no attribute is code
(`takesFrom_load`).  The definitions here are about the bytes of the entry
and do not decode anything.  An entry of a handler table is that of its row
if it has the three places of the row and catches what the row names
(`EntryOf`).
-/
import MethodArea.Proofs.Lines
import MethodArea.Proofs.Loading.Attributes

namespace MethodArea

open Attribute ConstantPool

section Entries
variable (raw : List RawConstant)

/-- The rows of an attribute that is a line number table. -/
def AttributeInfo.lineTable? (a : AttributeInfo) : Option (List LineRow) :=
  if a.known? raw = some .lineNumberTable then whole? (readList readLineRow) a.info else none

namespace MemberInfo

/-- The frame of the last attribute of a method that is code. -/
def frame? (info : MemberInfo) : Option CodeFrame :=
  (info.attributes.filterMap (AttributeInfo.frame? raw)).getLast?

/-- The rows of a method: those of its last attribute that is code. -/
def rows (info : MemberInfo) : List HandlerRow :=
  match (info.attributes.filterMap (AttributeInfo.frame? raw)).getLast? with
  | some frame => frame.handlers
  | none => []

/-- The line number tables of a method: those in its last attribute that is
code. -/
def lineTables (info : MemberInfo) : List (List LineRow) :=
  match info.frame? raw with
  | some frame => frame.attributes.filterMap (AttributeInfo.lineTable? raw)
  | none => []

end MemberInfo

end Entries

variable {raw : List RawConstant} {pool : ConstantPool}

/-! ## Frames -/

/-- The code of a frame, once the attributes in it are decoded. -/
def Attribute.CodeFrame.decode (pool : ConstantPool) (frame : CodeFrame) :
    Except Error (CodeAttribute Attribute) := do
  let nested ← decodeAll pool frame.attributes
  pure ⟨frame.maxStack, frame.maxLocals, frame.code, frame.handlers, nested⟩

/-- The code that an attribute is decoded to is that of its frame. -/
theorem code?_of_decode (hpool : ofRaw raw = .ok pool) {a : AttributeInfo} {d : Attribute}
    (h : decode pool a = .ok d) :
    d.code?.map .ok = (a.frame? raw).map (CodeFrame.decode pool) := by
  have hknown := AttributeInfo.recognised?_eq hpool a
  have hother : a.recognised? pool ≠ some .code → d.code? = none →
      d.code?.map .ok = (a.frame? raw).map (CodeFrame.decode pool) := by
    intro hname hcode
    rw [hcode, AttributeInfo.frame?, if_neg (hknown ▸ hname)]
    rfl
  cases decoded_of_decode h with
  | code hname hframe hnested =>
      rw [AttributeInfo.frame?, if_pos (hknown ▸ hname), hframe, Option.map_some,
        CodeFrame.decode, hnested]
      rfl
  | lineNumberTable hname _ | exceptions hname _ | constantValue hname _ | annotations hname
  | parameterAnnotations hname | annotationDefault hname | unknown hname =>
      exact hother (by simp [hname]) rfl
  | signature hname _ _ => exact hother (by simp [hname]) rfl

/-- An attribute is decoded to a line number table if it is one. -/
theorem lineRows?_of_decode (hpool : ofRaw raw = .ok pool) {a : AttributeInfo} {d : Attribute}
    (h : decode pool a = .ok d) : d.lineRows? = a.lineTable? raw := by
  have hknown := AttributeInfo.recognised?_eq hpool a
  have hother : a.recognised? pool ≠ some .lineNumberTable → d.lineRows? = none →
      d.lineRows? = a.lineTable? raw := by
    intro hname hnone
    rw [hnone, AttributeInfo.lineTable?, if_neg (hknown ▸ hname)]
  cases decoded_of_decode h with
  | lineNumberTable hname hrows =>
      rw [AttributeInfo.lineTable?, if_pos (hknown ▸ hname), hrows]
      rfl
  | code hname _ _ | signature hname _ _ => exact hother (by simp [hname]) rfl
  | exceptions hname _ | constantValue hname _ | annotations hname
  | parameterAnnotations hname | annotationDefault hname | unknown hname =>
      exact hother (by simp [hname]) rfl

/-- The last code of decoded attributes is that of the last frame. -/
theorem getLast?_codes (hpool : ofRaw raw = .ok pool) {info : MemberInfo}
    {attributes : List Attribute} (h : decodeAll pool info.attributes = .ok attributes) :
    (attributes.filterMap Attribute.code?).getLast?.map .ok =
      (info.frame? raw).map (CodeFrame.decode pool) := by
  have hcodes := Except.filterMap_eq_of_mapM (fun _ _ h => code?_of_decode hpool h) h
  rw [← List.map_filterMap, ← List.map_filterMap] at hcodes
  rw [MemberInfo.frame?, ← List.getLast?_map, ← List.getLast?_map, hcodes]

theorem map_ofRows_allLineRows? (attributes : List Attribute) :
    (allLineRows? attributes).map LineTable.ofRows =
      LineTable.ofTables? (attributes.filterMap lineRows?) := by
  rw [allLineRows?]
  cases attributes.filterMap lineRows? with
  | nil => rfl
  | cons rows tables => rfl

/-! ## Rows and entries -/

/-- The entry of a table that a row of a file comes to. -/
inductive EntryOf (pool : ConstantPool) (row : HandlerRow) : HandlerEntry → Prop
  | any : row.catchType = 0 →
      EntryOf pool row ⟨row.startPc, row.endPc, row.handlerPc, .any⟩
  | cls {name : String} : row.catchType ≠ 0 → pool.className row.catchType = .ok name →
      EntryOf pool row ⟨row.startPc, row.endPc, row.handlerPc, .cls name⟩

/-- The entries of a table are those of rows, place by place. -/
def EntriesOf (pool : ConstantPool) (rows : List HandlerRow) (table : ExceptionTable) : Prop :=
  ∀ i : Nat, Option.Rel (EntryOf pool) rows[i]? table.entries[i]?

theorem entryOf_of_entryOfRow {pool : ConstantPool} {codeLength : Nat} {row : HandlerRow}
    {e : HandlerEntry} (h : ExceptionTable.entryOfRow pool codeLength row = .ok e) :
    EntryOf pool row e := by
  obtain ⟨caught, hcaught, h⟩ := Except.bind_eq_ok_iff.1 h
  obtain ⟨rfl, -⟩ := ExceptionTable.checked_eq_ok_iff.1 h
  rw [ExceptionTable.catchType] at hcaught
  split at hcaught
  · next h0 =>
      cases hcaught
      exact .any h0
  · next h0 =>
      split at hcaught
      · next name hname =>
          cases hcaught
          exact .cls h0 hname
      · cases hcaught

theorem entriesOf_of_ofRows {method : MethodRef} {pool : ConstantPool} {codeLength : Nat}
    {rows : List HandlerRow} {table : ExceptionTable}
    (h : ExceptionTable.ofRows method pool codeLength rows = .ok table) :
    EntriesOf pool rows table := by
  obtain ⟨entries, hentries, h⟩ := Except.bind_eq_ok_iff.1 h
  cases h
  intro i
  have hi := getElem?_of_zipIdx_map (Except.mapM_eq_ok_iff.1 hentries) i
  rw [List.getElem?_map] at hi
  cases hrow : rows[i]? with
  | none =>
      rw [hrow] at hi
      rw [Option.map_eq_none_iff.1 hi]
      exact .none
  | some row =>
      rw [hrow] at hi
      obtain ⟨e, he, hresult⟩ := Option.map_eq_some_iff.1 hi
      rw [he]
      exact .some (entryOf_of_entryOfRow (ExceptionTable.blame_eq_ok_iff.1 hresult.symm))

theorem EntriesOf.exists_entry {pool : ConstantPool} {rows : List HandlerRow}
    {table : ExceptionTable} (h : EntriesOf pool rows table) {i : Nat} {row : HandlerRow}
    (hrow : rows[i]? = some row) : ∃ e, table.entries[i]? = some e ∧ EntryOf pool row e := by
  have hi := h i
  rw [hrow] at hi
  generalize table.entries[i]? = entry at hi
  cases hi with
  | some he => exact ⟨_, rfl, he⟩

theorem EntriesOf.exists_row {pool : ConstantPool} {rows : List HandlerRow}
    {table : ExceptionTable} (h : EntriesOf pool rows table) {i : Nat} {e : HandlerEntry}
    (he : table.entries[i]? = some e) : ∃ row, rows[i]? = some row ∧ EntryOf pool row e := by
  have hi := h i
  rw [he] at hi
  generalize rows[i]? = row at hi
  cases hi with
  | some hrow => exact ⟨_, rfl, hrow⟩

/-! ## Methods -/

/-- The number of bytes of code that a method has. -/
def Method.codeLength (m : Method) : Nat := m.codeBytes.elim 0 List.length

/-- The code, the handlers and the line table of a method are those of an
entry. -/
structure Method.TakesFrom (raw : List RawConstant) (pool : ConstantPool) (info : MemberInfo)
    (m : Method) : Prop where
  codeBytes : m.codeBytes = (info.frame? raw).map CodeFrame.code
  handlers : ExceptionTable.ofRows m.ref pool m.codeLength (info.rows raw) = .ok m.handlers
  lines : m.lines = LineTable.ofTables? (info.lineTables raw)

theorem Method.takesFrom_of_none {info : MemberInfo} {m : Method} (hframe : info.frame? raw = none)
    (hbody : m.body = .empty) : m.TakesFrom raw pool info := by
  have hcode : m.codeBytes = none := congrArg (fun b => b.code.map Code.bytes) hbody
  refine ⟨?_, ?_, ?_⟩
  · rw [hcode, hframe]
    rfl
  · rw [Method.codeLength, hcode, MemberInfo.rows, ← MemberInfo.frame?, hframe]
    exact congrArg (fun b => Except.ok b.handlers) hbody.symm
  · rw [MemberInfo.lineTables, hframe]
    exact congrArg Body.lines hbody

/-- What a `Code` attribute fills in of a method is built from its frame. -/
structure Method.BuiltFrom (raw : List RawConstant) (pool : ConstantPool) (frame : CodeFrame)
    (m : Method) : Prop where
  stackSize : m.stackSize = frame.maxStack
  localSize : m.localSize = frame.maxLocals
  code : m.code = some ⟨frame.code, 0⟩
  handlers : ExceptionTable.ofRows m.ref pool frame.code.length frame.handlers = .ok m.handlers
  lines : m.lines = LineTable.ofTables? (frame.attributes.filterMap (AttributeInfo.lineTable? raw))

theorem Method.builtFrom_of_decode (hpool : ofRaw raw = .ok pool) {m : Method} {frame : CodeFrame}
    {c : CodeAttribute Attribute} (hdecode : frame.decode pool = .ok c)
    (hbody : Body.ofCode m.ref pool c = .ok m.body) : m.BuiltFrom raw pool frame := by
  obtain ⟨nested, hnested, hc⟩ := Except.bind_eq_ok_iff.1 hdecode
  cases hc
  obtain ⟨handlers, hrows, hbody⟩ := Except.bind_eq_ok_iff.1 hbody
  have hbody := Except.ok.inj hbody
  have htables := Except.filterMap_eq_of_mapM (fun _ _ h => lineRows?_of_decode hpool h) hnested
  refine ⟨?_, ?_, ?_, ?_, ?_⟩
  · exact (congrArg Body.stackSize hbody).symm
  · exact (congrArg Body.localSize hbody).symm
  · exact (congrArg Body.code hbody).symm
  · exact hrows.trans (congrArg (fun b => Except.ok b.handlers) hbody)
  · refine (congrArg Body.lines hbody).symm.trans ?_
    exact (map_ofRows_allLineRows? nested).trans (congrArg LineTable.ofTables? htables)

theorem Method.BuiltFrom.takesFrom {info : MemberInfo} {m : Method} {frame : CodeFrame}
    (h : m.BuiltFrom raw pool frame) (hframe : info.frame? raw = some frame) :
    m.TakesFrom raw pool info := by
  have hcode : m.codeBytes = some frame.code := congrArg (Option.map Code.bytes) h.code
  refine ⟨?_, ?_, ?_⟩
  · rw [hcode, hframe]
    rfl
  · rw [Method.codeLength, hcode, MemberInfo.rows, ← MemberInfo.frame?, hframe]
    exact h.handlers
  · rw [MemberInfo.lineTables, hframe]
    exact h.lines

/-- The body of a method that loads is built from its last frame, or empty
where no attribute is code. -/
theorem body_of_load (hpool : ofRaw raw = .ok pool) {className : String}
    {info : MemberInfo} {s s' : Interner} {m : Method}
    (h : Method.load pool className info s = (.ok m, s')) :
    (info.frame? raw = none ∧ m.body = .empty) ∨
      ∃ frame, info.frame? raw = some frame ∧ m.BuiltFrom raw pool frame := by
  obtain ⟨attributes, hdecode, -, -, hbuild⟩ := Method.load_eq_ok_iff.1 h
  obtain ⟨m₀, hattributes, hbuild⟩ := Except.bind_eq_ok_iff.1 hbuild
  obtain ⟨rfl, -⟩ := Method.checkCode_eq_ok_iff.1 hbuild
  have hbody := Method.ofLast_foldlM hattributes
  have hlast := getLast?_codes hpool hdecode
  unfold Body.OfLast at hbody
  cases hframe : info.frame? raw with
  | none =>
      rw [hframe] at hlast
      rw [Option.map_eq_none_iff.1 hlast] at hbody
      exact .inl ⟨rfl, hbody⟩
  | some frame =>
      rw [hframe] at hlast
      obtain ⟨c, hc, hframeDecode⟩ := Option.map_eq_some_iff.1 hlast
      rw [hc] at hbody
      exact .inr ⟨frame, rfl, Method.builtFrom_of_decode hpool hframeDecode.symm hbody⟩

theorem takesFrom_load (hpool : ofRaw raw = .ok pool) {className : String}
    {info : MemberInfo} {s s' : Interner} {m : Method}
    (h : Method.load pool className info s = (.ok m, s')) : m.TakesFrom raw pool info := by
  rcases body_of_load hpool h with ⟨hframe, hbody⟩ | ⟨frame, hframe, hbody⟩
  · exact Method.takesFrom_of_none hframe hbody
  · exact hbody.takesFrom hframe

end MethodArea
