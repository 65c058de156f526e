/-
# `Proofs.ConstantPool.Acceptance` — which pools resolve

    text entries, in order     the bytes are those of a text
    name indices, in order     a text entry stands there

A pool resolves if all of this holds, and the first thing that does not is
the one reported (`decides_ofRaw`): all texts come before all names, since
a name may point forward.  That holds of pools of up to 65535 entries; in a
longer one a text entry may not find its own text.  Which bytes are no text
is reported for pools of every size (`exists_invalidModifiedUtf8_iff`).
-/
import MethodArea.Proofs.Checklist
import MethodArea.Proofs.ConstantPool.Resolution
import MethodArea.Proofs.Text.ModifiedUtf8

namespace MethodArea.ConstantPool

open Text

/-! ## Conditions on a pool -/

/-- A text entry stands at an index. -/
def IsText (raw : List RawConstant) (index : UInt16) : Prop := ∃ text, text? raw index = some text

/-- A class entry stands at an index, and its name at its own. -/
def IsClass (raw : List RawConstant) (index : UInt16) : Prop :=
  ∃ name, className? raw index = some name

/-- A text entry has to stand at an index. -/
def textRequired (raw : List RawConstant) (index : UInt16) : Condition :=
  ⟨IsText raw index, .invalidConstantPoolIndex index .utf8⟩

/-- A class entry has to stand at an index. -/
def classRequired (raw : List RawConstant) (index : UInt16) : Condition :=
  ⟨IsClass raw index, .invalidConstantPoolIndex index .classRef⟩

/-- What is asked of the bytes of an entry. -/
def textConditions (position : Nat) : RawConstant → List Condition
  | .utf8 bytes =>
    [⟨∃ text, bytes = ModifiedUtf8.encode text, .invalidModifiedUtf8 (indexOf position)⟩]
  | _ => []

/-- The index of the name of an entry. -/
def nameIndex? : RawConstant → Option UInt16
  | .classRef n => some n
  | .string n => some n
  | .moduleRef n => some n
  | .packageRef n => some n
  | _ => none

/-- What is asked of all bytes. -/
def allTextConditions (raw : List RawConstant) : List Condition :=
  raw.zipIdx.flatMap (fun (c, i) => textConditions i c)

/-- What is asked of all names. -/
def allNameConditions (raw : List RawConstant) : List Condition :=
  raw.flatMap (fun c => (nameIndex? c).toList.map (textRequired raw))

/-- What is asked of a pool. -/
def conditions (raw : List RawConstant) : List Condition :=
  allTextConditions raw ++ allNameConditions raw

/-- Every text entry holds the bytes of a text. -/
theorem allHold_allTextConditions_iff {raw : List RawConstant} :
    AllHold (allTextConditions raw) ↔
      ∀ bytes, .utf8 bytes ∈ raw → ∃ text, bytes = ModifiedUtf8.encode text := by
  rw [allTextConditions, allHold_flatMap]
  constructor
  · intro h bytes hmem
    obtain ⟨i, hi⟩ := List.mem_iff_getElem?.1 hmem
    exact (allHold_cons.1 (h (.utf8 bytes, i) (List.mk_mem_zipIdx_iff_getElem?.2 hi))).1
  · rintro h ⟨c, i⟩ hmem
    cases c with
    | utf8 bytes =>
        exact allHold_cons.2 ⟨h bytes (List.fst_mem_of_mem_zipIdx hmem), allHold_nil⟩
    | _ => exact allHold_nil

/-- Every name is the text of a text entry. -/
theorem allHold_allNameConditions_iff {raw : List RawConstant} :
    AllHold (allNameConditions raw) ↔
      ∀ c ∈ raw, ∀ n, nameIndex? c = some n → IsText raw n := by
  simp only [allNameConditions, allHold_flatMap, allHold_map, Option.mem_toList]
  rfl

/-! ## Both passes -/

theorem decides_found {index : UInt16} {kind : ConstantKind} {t : Option String} :
    Decides (found index kind t)
      [⟨∃ text, t = some text, .invalidConstantPoolIndex index kind⟩] := by
  refine .one (by simp only [found_eq_ok_iff]) fun e he => ?_
  cases t with
  | none =>
      cases he
      rfl
  | some text => cases he

theorem decides_utf8 {raw : List RawConstant} {pool : ConstantPool} (h : ofRaw raw = .ok pool)
    (index : UInt16) : Decides (pool.utf8 index) [textRequired raw index] :=
  utf8_eq h index ▸ decides_found

theorem decides_className {raw : List RawConstant} {pool : ConstantPool}
    (h : ofRaw raw = .ok pool) (index : UInt16) :
    Decides (pool.className index) [classRequired raw index] :=
  className_eq h index ▸ decides_found

theorem decides_decodeText (position : Nat) (c : RawConstant) :
    Decides (decodeText position c) (textConditions position c) := by
  cases c with
  | utf8 bytes =>
      simp only [decodeText, textConditions, ← ModifiedUtf8.decode?_eq_some_iff]
      cases ModifiedUtf8.decode? bytes with
      | some text => exact .one (by simp) fun e he => by cases he
      | none => exact .one (by simp) fun e he => by cases he; rfl
  | _ => exact .ok none allHold_nil

theorem decides_decodeTexts (raw : List RawConstant) :
    Decides (decodeTexts raw) (allTextConditions raw) :=
  .mapM fun (c, i) _ => decides_decodeText i c

/-- A text entry finds its own text, at an index that is not cut. -/
theorem text?_indexOf {raw : List RawConstant} (hsize : raw.length ≤ 65535) {position : Nat}
    {c : RawConstant} (hc : raw[position]? = some c) :
    text? raw (indexOf position) = ownText? c := by
  obtain ⟨hlt, -⟩ := List.getElem?_eq_some_iff.1 hc
  have hindex : (indexOf position).toNat = position + 1 := by
    rw [indexOf, UInt16.toNat_ofNat', Nat.mod_eq_of_lt (by omega)]
  have hentry : constant? raw (indexOf position) = some c := by
    refine oneBased?_eq_some_iff.2 ⟨fun e => ?_, ?_⟩
    · rw [e] at hindex
      cases hindex
    · rw [hindex]
      exact hc
  rw [text?, hentry, Option.bind_some]

theorem decides_resolveEntry {raw : List RawConstant} (hsize : raw.length ≤ 65535)
    {position : Nat} {c : RawConstant} (hc : raw[position]? = some c)
    (hall : AllHold (textConditions position c)) :
    Decides (resolveEntry (raw.map ownText?).toArray position c)
      ((nameIndex? c).toList.map (textRequired raw)) := by
  have hname : ∀ (n : UInt16) (f : String → Constant String String),
      Decides (f <$> textAt (raw.map ownText?).toArray n) [textRequired raw n] := by
    intro n f
    rw [textAt_eq]
    exact decides_found.map f
  cases c with
  | utf8 bytes =>
      obtain ⟨text, htext⟩ := (allHold_cons.1 hall).1
      have hown : text? raw (indexOf position) = some text :=
        (text?_indexOf hsize hc).trans (ModifiedUtf8.decode?_eq_some_iff.2 htext)
      have hresolve : resolveEntry (raw.map ownText?).toArray position (.utf8 bytes) =
          .ok (.utf8 text) := by
        rw [resolveEntry, Constant.resolve, textAt_eq, hown]
        rfl
      rw [hresolve]
      exact .ok _ allHold_nil
  | classRef n => exact hname n .classRef
  | string n => exact hname n .string
  | moduleRef n => exact hname n .moduleRef
  | packageRef n => exact hname n .packageRef
  | _ => exact .ok _ allHold_nil

/-- A pool resolves if its conditions hold, and otherwise the first that
does not is reported. -/
theorem decides_ofRaw {raw : List RawConstant} (hsize : raw.length ≤ 65535) :
    Decides (ofRaw raw) (conditions raw) := by
  refine (decides_decodeTexts raw).bind fun texts htexts => ?_
  have hall := allHold_flatMap.1 ((decides_decodeTexts raw).of_ok texts htexts)
  obtain rfl := decodeTexts_eq_ok htexts
  have hentries : Decides
      (raw.zipIdx.mapM (fun (c, i) => resolveEntry (raw.map ownText?).toArray i c))
      (raw.zipIdx.flatMap (fun p => (nameIndex? p.1).toList.map (textRequired raw))) :=
    .mapM fun (c, i) hmem =>
      decides_resolveEntry hsize (List.mk_mem_zipIdx_iff_getElem?.1 hmem) (hall (c, i) hmem)
  have hnames : allNameConditions raw =
      raw.zipIdx.flatMap (fun p => (nameIndex? p.1).toList.map (textRequired raw)) := by
    rw [allNameConditions, ← List.zipIdx_map_fst 0 raw, List.flatMap_map, List.zipIdx_map_fst]
  rw [hnames]
  exact hentries.then_ok _

/-! ## Bytes that are no text -/

theorem textAt_ne_invalidModifiedUtf8 {texts : Array (Option String)} {index i : UInt16} :
    textAt texts index ≠ .error (.invalidModifiedUtf8 i) := by
  rw [textAt]
  split
  · intro h
    cases h
  · intro h
    cases h

theorem resolveEntry_ne_invalidModifiedUtf8 {texts : Array (Option String)} {position : Nat}
    {c : RawConstant} {i : UInt16} :
    resolveEntry texts position c ≠ .error (.invalidModifiedUtf8 i) := by
  have htext : ∀ (index : UInt16) (f : String → Constant String String),
      f <$> textAt texts index ≠ .error (.invalidModifiedUtf8 i) :=
    fun _ _ h => textAt_ne_invalidModifiedUtf8 (Except.map_eq_error_iff.1 h)
  cases c with
  | utf8 bytes => exact htext _ _
  | classRef n => exact htext _ _
  | string n => exact htext _ _
  | moduleRef n => exact htext _ _
  | packageRef n => exact htext _ _
  | _ => exact fun h => by cases h

theorem exists_error_of_mem_allTextConditions {raw : List RawConstant} {c : Condition}
    (h : c ∈ allTextConditions raw) : ∃ i, c.error = .invalidModifiedUtf8 i := by
  obtain ⟨⟨entry, i⟩, -, hc⟩ := List.mem_flatMap.1 h
  cases entry with
  | utf8 bytes =>
      rw [List.mem_singleton.1 hc]
      exact ⟨indexOf i, rfl⟩
  | _ => exact absurd hc List.not_mem_nil

/-- A pool of any size is refused for its bytes if those of some entry are
no text. -/
theorem exists_invalidModifiedUtf8_iff {raw : List RawConstant} :
    (∃ i, ofRaw raw = .error (.invalidModifiedUtf8 i)) ↔
      ∃ bytes, .utf8 bytes ∈ raw ∧ ∀ text, bytes ≠ ModifiedUtf8.encode text := by
  have hall : (∃ bytes, .utf8 bytes ∈ raw ∧ ∀ text, bytes ≠ ModifiedUtf8.encode text) ↔
      ¬ AllHold (allTextConditions raw) := by
    simp only [allHold_allTextConditions_iff, Classical.not_forall, not_exists, exists_prop, ne_eq]
  rw [hall, ← (decides_decodeTexts raw).ok_iff]
  constructor
  · rintro ⟨i, hi⟩ ⟨texts, htexts⟩
    rcases Except.bind_eq_error_iff.1 hi with he | ⟨_, -, he⟩
    · rw [htexts] at he
      cases he
    · rcases Except.bind_eq_error_iff.1 he with he | ⟨_, -, he⟩
      · obtain ⟨_, ⟨c, position⟩, _, -, -, he⟩ := Except.mapM_eq_error_iff.1 he
        exact resolveEntry_ne_invalidModifiedUtf8 he
      · cases he
  · intro hnone
    cases htexts : decodeTexts raw with
    | ok texts => exact absurd ⟨texts, htexts⟩ hnone
    | error e =>
        obtain ⟨c, hc, -, rfl⟩ := ((decides_decodeTexts raw).of_error e htexts).exists_mem
        obtain ⟨i, hi⟩ := exists_error_of_mem_allTextConditions hc
        exact ⟨i, Except.bind_eq_error_iff.2 (.inl (hi ▸ htexts))⟩

end MethodArea.ConstantPool
