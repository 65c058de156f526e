/-
# `Proofs.Handlers` — exception tables and the code they apply to

A table fits a code array if every entry does: its range is not empty and
ends in the code, and its handler starts in it.  Making a table from rows
and checking a table that is made already ask for the same thing: once a
table is made, making it again for code of another length answers what the
check does, errors included (`ofRows_eq_validate`).  Longer code asks for
less.  A look-up in a table that fits answers a place in the code for a
place in the code.  Where more names are accepted, a look-up stops at the
same entry or at an earlier one (`find?_mono`).
-/
import MethodArea.ExceptionTable
import MethodArea.Proofs.Outcome

namespace MethodArea.ExceptionTable

/-- Every entry applies to code of a given length. -/
def Fits (table : ExceptionTable) (codeLength : Nat) : Prop :=
  ∀ e ∈ table.entries, e.Fits codeLength

theorem checked_eq_ok_iff {codeLength : Nat} {e e' : HandlerEntry} :
    checked codeLength e = .ok e' ↔ e' = e ∧ e.Fits codeLength := by
  rw [← HandlerEntry.defect?_eq_none_iff]
  rw [checked]
  split
  · next hd =>
      constructor
      · intro h
        cases h
        exact ⟨rfl, hd⟩
      · rintro ⟨rfl, -⟩
        rfl
  · next hd =>
      constructor
      · intro h
        cases h
      · rintro ⟨-, h⟩
        rw [hd] at h
        cases h

/-- Naming the entry that a defect is in neither makes nor hides one. -/
theorem blame_eq_ok_iff {α : Type} {method : MethodRef} {position : Nat}
    {r : Except HandlerDefect α} {a : α} : blame method position r = .ok a ↔ r = .ok a := by
  cases r with
  | ok b =>
      constructor
      · intro h
        cases h
        rfl
      · intro h
        cases h
        rfl
  | error defect =>
      constructor
      · intro h
        cases h
      · intro h
        cases h

theorem fits_of_entryOfRow {pool : ConstantPool} {codeLength : Nat} {row : Attribute.HandlerRow}
    {e : HandlerEntry} (h : entryOfRow pool codeLength row = .ok e) : e.Fits codeLength := by
  obtain ⟨caught, -, h⟩ := Except.bind_eq_ok_iff.1 h
  obtain ⟨rfl, hfits⟩ := checked_eq_ok_iff.1 h
  exact hfits

/-- A table made from rows fits the code that it was made for. -/
theorem fits_of_ofRows {method : MethodRef} {pool : ConstantPool} {codeLength : Nat}
    {rows : List Attribute.HandlerRow} {table : ExceptionTable}
    (h : ofRows method pool codeLength rows = .ok table) : table.Fits codeLength := by
  obtain ⟨entries, hentries, h⟩ := Except.bind_eq_ok_iff.1 h
  cases h
  intro e he
  obtain ⟨⟨row, i⟩, -, hrow⟩ := Except.exists_of_mem_mapM hentries e he
  exact fits_of_entryOfRow (blame_eq_ok_iff.1 hrow)

/-- The check of a table passes exactly if the table fits. -/
theorem validate_eq_ok_iff {method : MethodRef} {codeLength : Nat} {table : ExceptionTable} :
    table.validate method codeLength = .ok () ↔ table.Fits codeLength := by
  rw [validate]
  rw [Except.forM_eq_ok_iff]
  constructor
  · intro h e he
    obtain ⟨i, hi, hget⟩ := List.getElem_of_mem he
    have hmem : (e, i) ∈ table.entries.zipIdx := by
      rw [List.mk_mem_zipIdx_iff_getElem?, List.getElem?_eq_getElem hi, hget]
    obtain ⟨_, hchecked, -⟩ := Except.bind_eq_ok_iff.1 (h (e, i) hmem)
    exact (checked_eq_ok_iff.1 (blame_eq_ok_iff.1 hchecked)).2
  · rintro h ⟨e, i⟩ hmem
    have he : e ∈ table.entries := List.fst_mem_of_mem_zipIdx hmem
    refine Except.bind_eq_ok_iff.2 ⟨e, ?_, rfl⟩
    exact blame_eq_ok_iff.2 (checked_eq_ok_iff.2 ⟨rfl, h e he⟩)

/-! ## Making a table again -/

/-- What a row catches does not depend on the code, so only the entry is left
to be checked. -/
theorem entryOfRow_eq_checked {pool : ConstantPool} {codeLength : Nat} {row : Attribute.HandlerRow}
    {e : HandlerEntry} (h : entryOfRow pool codeLength row = .ok e) (codeLength' : Nat) :
    entryOfRow pool codeLength' row = checked codeLength' e := by
  obtain ⟨caught, hcaught, h⟩ := Except.bind_eq_ok_iff.1 h
  obtain ⟨rfl, -⟩ := checked_eq_ok_iff.1 h
  rw [entryOfRow, hcaught]
  rfl

/-- The same along rows and entries, whatever place the first of them is
in. -/
theorem mapM_entryOfRow_eq_forM {method : MethodRef} {pool : ConstantPool} {codeLength : Nat}
    {rows : List Attribute.HandlerRow} {entries : List HandlerEntry} {place : Nat}
    (h : (rows.zipIdx place).mapM (fun (row, i) =>
      blame method i (entryOfRow pool codeLength row)) = .ok entries) (codeLength' : Nat) :
    (rows.zipIdx place).mapM (fun (row, i) => blame method i (entryOfRow pool codeLength' row)) =
      (fun _ => entries) <$> (entries.zipIdx place).forM (fun (e, i) => do
        let _ ← blame method i (checked codeLength' e)
        pure ()) := by
  induction rows generalizing entries place with
  | nil =>
      cases h
      rfl
  | cons row rows ih =>
      rw [List.zipIdx_cons, List.mapM_cons] at h
      obtain ⟨e, he, h⟩ := Except.bind_eq_ok_iff.1 h
      obtain ⟨entries', hrest, h⟩ := Except.bind_eq_ok_iff.1 h
      cases h
      rw [List.zipIdx_cons, List.mapM_cons, ih hrest, List.zipIdx_cons, Except.forM_cons_eq_bind]
      dsimp only at he ⊢
      rw [entryOfRow_eq_checked (blame_eq_ok_iff.1 he)]
      cases hchecked : checked codeLength' e with
      | error defect => rfl
      | ok e' =>
          obtain ⟨rfl, -⟩ := checked_eq_ok_iff.1 hchecked
          rw [blame, Except.ok_bind, bind_pure_comp, Functor.map_map]
          rfl

/-- Once a table is made of rows, making it for code of another length comes
to checking it. -/
theorem ofRows_eq_validate {method : MethodRef} {pool : ConstantPool} {codeLength : Nat}
    {rows : List Attribute.HandlerRow} {table : ExceptionTable}
    (h : ofRows method pool codeLength rows = .ok table) (codeLength' : Nat) :
    ofRows method pool codeLength' rows =
      (fun _ => table) <$> table.validate method codeLength' := by
  obtain ⟨entries, hentries, h⟩ := Except.bind_eq_ok_iff.1 h
  cases h
  rw [ofRows, validate, mapM_entryOfRow_eq_forM hentries codeLength', bind_pure_comp,
    Functor.map_map]

theorem Fits.mono {table : ExceptionTable} {codeLength codeLength' : Nat}
    (h : table.Fits codeLength) (hle : codeLength ≤ codeLength') : table.Fits codeLength' := by
  intro e he
  obtain ⟨hrange, hend, hhandler⟩ := h e he
  exact ⟨hrange, Nat.le_trans hend hle, Nat.lt_of_lt_of_le hhandler hle⟩

/-- A table that is made for some code is made for longer code too. -/
theorem ofRows_mono {method : MethodRef} {pool : ConstantPool} {codeLength codeLength' : Nat}
    {rows : List Attribute.HandlerRow} {table : ExceptionTable}
    (h : ofRows method pool codeLength rows = .ok table) (hle : codeLength ≤ codeLength') :
    ofRows method pool codeLength' rows = .ok table := by
  have hvalid : table.validate method codeLength' = .ok () :=
    validate_eq_ok_iff.2 ((fits_of_ofRows h).mono hle)
  rw [ofRows_eq_validate h codeLength', hvalid]
  rfl

/-- A look-up that finds a handler was asked for a place in the code and
answers one. -/
theorem lookup_lt {table : ExceptionTable} {codeLength pc : Nat} {accepts : String → Bool}
    {handler : UInt16} (hfits : table.Fits codeLength)
    (h : table.lookup accepts pc = some handler) :
    pc < codeLength ∧ handler.toNat < codeLength := by
  obtain ⟨e, hfind, rfl⟩ := Option.map_eq_some_iff.1 h
  obtain ⟨-, hend, hhandler⟩ := hfits e (List.mem_of_find?_eq_some hfind)
  have hcovers := List.find?_some hfind
  simp only [HandlerEntry.covers, Bool.and_eq_true, decide_eq_true_eq] at hcovers
  exact ⟨Nat.lt_of_lt_of_le hcovers.1.2 hend, hhandler⟩

/-! ## Accepting more -/

theorem catches_iff {e : HandlerEntry} {accepts : String → Bool} :
    e.catches accepts = true ↔
      e.catchType = .any ∨ ∃ name, e.catchType = .cls name ∧ accepts name = true := by
  unfold HandlerEntry.catches
  cases e.catchType with
  | any => simp
  | cls name => simp

/-- Where more names are accepted an exception is taken by the same entry or by
an earlier one, and by an earlier one for the sake of a name that was not
accepted before. -/
theorem find?_mono {table : ExceptionTable} {accepts accepts' : String → Bool} {pc i : Nat}
    (hmore : ∀ name, accepts name = true → accepts' name = true)
    (h : table.find? accepts pc = some i) :
    ∃ j ≤ i, table.find? accepts' pc = some j ∧
      (j < i → ∃ e name, table.entries[j]? = some e ∧ e.covers pc = true ∧
        e.catchType = .cls name ∧ accepts' name = true ∧ accepts name = false) := by
  have htakes : ∀ e ∈ table.entries, (e.covers pc && e.catches accepts) = true →
      (e.covers pc && e.catches accepts') = true := by
    intro e _ he
    rw [Bool.and_eq_true, catches_iff] at he ⊢
    exact ⟨he.1, he.2.imp_right fun ⟨name, hname, haccepts⟩ => ⟨name, hname, hmore name haccepts⟩⟩
  obtain ⟨j, hle, hj⟩ := List.findIdx?_eq_some_le_of_findIdx?_eq_some htakes h
  refine ⟨j, hle, hj, fun hlt => ?_⟩
  obtain ⟨hlength, htaken, _⟩ := List.findIdx?_eq_some_iff_getElem.1 hj
  obtain ⟨_, _, hearlier⟩ := List.findIdx?_eq_some_iff_getElem.1 h
  obtain ⟨hcovers, hcaught⟩ := Bool.and_eq_true_iff.1 htaken
  have hrefused : ¬ table.entries[j].catches accepts = true :=
    fun hcatches => hearlier j hlt (Bool.and_eq_true_iff.2 ⟨hcovers, hcatches⟩)
  rcases catches_iff.1 hcaught with hany | ⟨name, hname, haccepts⟩
  · exact absurd (catches_iff.2 (.inl hany)) hrefused
  · refine ⟨_, name, List.getElem?_eq_getElem hlength, hcovers, hname, haccepts, ?_⟩
    exact Bool.eq_false_iff.2 fun h => hrefused (catches_iff.2 (.inr ⟨name, hname, h⟩))

theorem lookup_eq_none_iff {table : ExceptionTable} {accepts : String → Bool} {pc : Nat} :
    table.lookup accepts pc = none ↔ table.find? accepts pc = none := by
  rw [lookup, find?, Option.map_eq_none_iff, List.find?_eq_none, List.findIdx?_eq_none_iff]
  simp only [Bool.not_eq_true]

end MethodArea.ExceptionTable
