/-
# `Proofs.Loading.LastCode` — of several `Code` attributes the last one

An entry may have any number of attributes that are code.  All of them have
to be right, and each one takes the place of the one before it: the sizes of
a frame, the code array, the handlers and the line table are those of the
last one, together, and where the last one has no line number table there is
none (`Method.HasBodyOf`; handlers are compared with rows one for one, and
lines with recorded lines).

Put the other way round, the earlier ones might as well not be there
(`load_last_code`).  Any of them may be deleted, and the method that loads
is the same, down to the descriptor that it shares.  Deleting an attribute
leaves those of other names alone (`DropsCode`), so what these come to stays
as it is; and the effect of the last code covers that of the codes before
it (`after_congr`).
-/
import MethodArea.Proofs.Loading.Entries
import MethodArea.Proofs.Loading.Rearranged

namespace MethodArea

open Attribute ConstantPool

/-- Some attributes that are code are deleted, and nothing else is. -/
structure AttributeInfo.DropsCode (raw : List RawConstant) (xs ys : List AttributeInfo) :
    Prop where
  sublist : ys.Sublist xs
  others : ys.filter (fun a => a.known? raw ≠ some .code) =
    xs.filter (fun a => a.known? raw ≠ some .code)

/-! ## Decoding -/

namespace Attribute

/-- Decoded attributes without some of those that are code. -/
structure LacksCode (ds es : List Attribute) : Prop where
  sublist : es.Sublist ds
  others : es.filter (fun e => e.name? ≠ some .code) = ds.filter (fun d => d.name? ≠ some .code)

namespace LacksCode

variable {ds es : List Attribute}

/-- What code does not say is said as before. -/
theorem filterMap_eq (h : LacksCode ds es) {α : Type} {look : Attribute → Option α}
    (hlook : ∀ c, look (.code c) = none) : es.filterMap look = ds.filterMap look := by
  have hcode : ∀ d : Attribute, decide (d.name? ≠ some .code) = false → look d = none := by
    intro d hd
    cases d with
    | code c => exact hlook c
    | _ => cases hd
  rw [← filterMap_filter_name (p := (· ≠ some .code)) hcode es, h.others,
    filterMap_filter_name (p := (· ≠ some .code)) hcode ds]

theorem append (h : LacksCode ds es) (rest : List Attribute) :
    LacksCode (ds ++ rest) (es ++ rest) := by
  refine ⟨h.sublist.append_right rest, ?_⟩
  rw [List.filter_append, List.filter_append, h.others]

theorem memberOfInfo_eq (h : LacksCode ds es) (pool : ConstantPool)
    (className : String) (info : MemberInfo) (xs : List AttributeInfo) :
    Member.ofInfo pool className { info with attributes := xs } es =
      Member.ofInfo pool className info ds := by
  rw [Member.ofInfo, Member.ofInfo, h.filterMap_eq fun _ => rfl, h.filterMap_eq fun _ => rfl]

end LacksCode

/-- Where attributes are right, so are those that are left of them. -/
theorem exists_lacksCode {raw : List RawConstant} {pool : ConstantPool}
    (hpool : ofRaw raw = .ok pool) {xs ys : List AttributeInfo}
    (h : AttributeInfo.DropsCode raw xs ys) {ds : List Attribute}
    (hds : decodeAll pool xs = .ok ds) :
    ∃ es, decodeAll pool ys = .ok es ∧ LacksCode ds es := by
  obtain ⟨es, hes, hsublist⟩ := Except.exists_mapM_of_sublist h.sublist hds
  refine ⟨es, hes, hsublist, ?_⟩
  have hothers := h.others
  simp only [← AttributeInfo.recognised?_eq hpool] at hothers
  have hys := decodeAll_filter hes (· ≠ some .code)
  rw [hothers, decodeAll_filter hds (· ≠ some .code)] at hys
  exact (Except.ok.inj hys).symm

/-- Of attributes that begin with code the first is decoded to code. -/
theorem exists_code_cons {pool : ConstantPool} {a : AttributeInfo} {after : List AttributeInfo}
    {rest : List Attribute} (ha : a.recognised? pool = some .code)
    (h : decodeAll pool (a :: after) = .ok rest) :
    ∃ frame c ds, codeFrame? a.info = some frame ∧ rest = .code c :: ds := by
  rw [decodeAll, List.mapM_cons] at h
  obtain ⟨d, hd, h⟩ := Except.bind_eq_ok_iff.1 h
  obtain ⟨ds, -, h⟩ := Except.bind_eq_ok_iff.1 h
  cases h
  have hname := (decoded_of_decode hd).name?_eq.trans ha
  cases decoded_of_decode hd with
  | code _ hframe _ => exact ⟨_, _, ds, hframe, rfl⟩
  | _ => cases hname

end Attribute

/-! ## Effects -/

/-- Of the effects of each kind nothing but the last one is seen. -/
theorem Method.after_congr {m : Method} {e f : Effects}
    (hbodies : e.bodies.getLast? = f.bodies.getLast?) (hexceptions : e.exceptions = f.exceptions)
    (hparameters : e.parameterAnnotations = f.parameterAnnotations)
    (hdefaults : e.annotationDefaults = f.annotationDefaults) : m.after e = m.after f := by
  rw [after, after, hbodies, hexceptions, hparameters, hdefaults]

/-- Without some code attributes have the effects that they had, bodies
apart. -/
theorem Effects.exists_of_lacksCode {method : MethodRef} {pool : ConstantPool}
    {ds es : List Attribute} (h : LacksCode ds es) {e : Effects}
    (he : ofAttributes method pool ds = .ok e) :
    ∃ bodies, ofAttributes method pool es = .ok { e with bodies } := by
  obtain ⟨hbodies, hexceptions, hparameters, hdefaults⟩ := ofAttributes_eq_ok_iff.1 he
  obtain ⟨bodies, hkept, -⟩ :=
    Except.exists_mapM_of_sublist (h.sublist.filterMap Attribute.code?) hbodies
  refine ⟨bodies, ofAttributes_eq_ok_iff.2 ⟨hkept, ?_, ?_, ?_⟩⟩
  · rw [h.filterMap_eq fun _ => rfl]
    exact hexceptions
  · exact hparameters.trans (h.filterMap_eq fun _ => rfl).symm
  · exact hdefaults.trans (h.filterMap_eq fun _ => rfl).symm

/-- Code before other code does not matter to the method that is built. -/
theorem Method.build_of_lacksCode {pool : ConstantPool} {member : Member}
    {shared : SharedDescriptor} {ds es rest : List Attribute} {c : CodeAttribute Attribute}
    {m : Method}
    (h : LacksCode ds es) (hbuild : build pool member shared (ds ++ .code c :: rest) = .ok m) :
    build pool member shared (es ++ .code c :: rest) = .ok m := by
  obtain ⟨m₀, hattributes, hcheck⟩ := Except.bind_eq_ok_iff.1 hbuild
  obtain ⟨e, he, rfl⟩ := foldlM_addAttribute_eq_ok_iff.1 hattributes
  obtain ⟨before, last, hbefore, hlast, rfl⟩ := Effects.ofAttributes_append_eq_ok_iff.1 he
  obtain ⟨bodies, hkept⟩ := Effects.exists_of_lacksCode h hbefore
  -- the code that stays has a body, and this hides the bodies before it
  have hne : last.bodies ≠ [] := by
    intro hnil
    have hcodes := Except.mapM_eq_ok_iff.1 (Effects.ofAttributes_eq_ok_iff.1 hlast).1
    rw [hnil] at hcodes
    cases hcodes
  have hsame : (bare member shared).after (Effects.append { before with bodies } last) =
      (bare member shared).after (before.append last) := by
    refine after_congr ?_ rfl rfl rfl
    show (bodies ++ last.bodies).getLast? = (before.bodies ++ last.bodies).getLast?
    rw [List.getLast?_append_of_ne_nil _ hne, List.getLast?_append_of_ne_nil _ hne]
  refine Except.bind_eq_ok_iff.2 ⟨_, foldlM_addAttribute_eq_ok_iff.2
    ⟨_, Effects.ofAttributes_append_eq_ok_iff.2 ⟨_, last, hkept, hlast, rfl⟩, rfl⟩, ?_⟩
  rw [hsame]
  exact hcheck

/-! ## Methods -/

/-- The frame of an entry is that of its last attribute that is code. -/
theorem MemberInfo.frame?_of_last {raw : List RawConstant} {info : MemberInfo}
    {before after : List AttributeInfo} {last : AttributeInfo}
    (hattributes : info.attributes = before ++ last :: after)
    (hlast : last.known? raw = some .code) (hafter : ∀ a ∈ after, a.known? raw ≠ some .code)
    {frame : CodeFrame} (hframe : codeFrame? last.info = some frame) :
    info.frame? raw = some frame := by
  have hnone : after.filterMap (AttributeInfo.frame? raw) = [] :=
    List.filterMap_eq_nil_iff.2 fun a ha => if_neg (hafter a ha)
  have hsome : last.frame? raw = some frame := (if_pos hlast).trans hframe
  rw [frame?, hattributes, List.filterMap_append, List.filterMap_cons_some hsome, hnone,
    List.getLast?_concat]

/-- What a method has of a `Code` attribute is what its frame says: the
entries of the rows, one for one, and the rows of all line number tables. -/
structure Method.HasBodyOf (raw : List RawConstant) (pool : ConstantPool) (frame : CodeFrame)
    (m : Method) : Prop where
  stackSize : m.stackSize = frame.maxStack
  localSize : m.localSize = frame.maxLocals
  code : m.code = some ⟨frame.code, 0⟩
  handlers : EntriesOf pool frame.handlers m.handlers
  lines : LineTable.Holds (frame.attributes.filterMap (AttributeInfo.lineTable? raw)) m.lines

theorem Method.BuiltFrom.hasBodyOf {raw : List RawConstant} {pool : ConstantPool}
    {frame : CodeFrame} {m : Method} (h : m.BuiltFrom raw pool frame) :
    m.HasBodyOf raw pool frame where
  stackSize := h.stackSize
  localSize := h.localSize
  code := h.code
  handlers := entriesOf_of_ofRows h.handlers
  lines := h.lines ▸ LineTable.holds_ofTables? _

/-- A method that loads has all of its body from the last attribute that is
code, and without any of those before it the same method loads. -/
theorem Method.load_last_code {raw : List RawConstant} {pool : ConstantPool}
    (hpool : ofRaw raw = .ok pool) {className : String} {info : MemberInfo}
    {s s' : Interner} {m : Method} {before after : List AttributeInfo} {last : AttributeInfo}
    (hattributes : info.attributes = before ++ last :: after)
    (hlast : last.known? raw = some .code) (hafter : ∀ a ∈ after, a.known? raw ≠ some .code)
    (hload : load pool className info s = (.ok m, s')) :
    (∃ frame, codeFrame? last.info = some frame ∧ m.HasBodyOf raw pool frame) ∧
      ∀ kept, AttributeInfo.DropsCode raw before kept →
        load pool className { info with attributes := kept ++ last :: after } s =
          (.ok m, s') := by
  obtain ⟨ds, hds, hmember, hintern, hbuild⟩ := load_eq_ok_iff.1 hload
  rw [hattributes] at hds
  obtain ⟨ds₁, rest, hbefore, hrest, rfl⟩ := Except.mapM_append_eq_ok_iff.1 hds
  have hcode := (AttributeInfo.recognised?_eq hpool last).trans hlast
  obtain ⟨frame, c, ds₂, hframe, rfl⟩ := exists_code_cons hcode hrest
  have hlastFrame := MemberInfo.frame?_of_last hattributes hlast hafter hframe
  refine ⟨⟨frame, hframe, ?_⟩, fun kept hkept => ?_⟩
  · rcases body_of_load hpool hload with ⟨hnone, -⟩ | ⟨frame', hframe', hbody⟩
    · rw [hlastFrame] at hnone
      cases hnone
    · rw [hlastFrame] at hframe'
      cases hframe'
      exact hbody.hasBodyOf
  · obtain ⟨es, hes, hlacks⟩ := exists_lacksCode hpool hkept hbefore
    have hall := Except.mapM_append_eq_ok_iff.2 ⟨es, _, hes, hrest, rfl⟩
    have hsame := (hlacks.append (.code c :: ds₂)).memberOfInfo_eq pool className info
      (kept ++ last :: after)
    exact load_eq_ok_iff.2
      ⟨_, hall, hsame.trans hmember, hintern, build_of_lacksCode hlacks hbuild⟩

/-- The constants that a method with two bodies needs. -/
def constantsOfBodies : List RawConstant :=
  [.ofText "Code", .ofText "LineNumberTable", .ofText "run", .ofText "()V", .ofText "demo/X",
    .classRef 5]

/-- The pool of these. -/
def poolOfBodies : ConstantPool :=
  ⟨#[.utf8 "Code", .utf8 "LineNumberTable", .utf8 "run", .utf8 "()V", .utf8 "demo/X",
    .classRef "demo/X"]⟩

/-- A body of three bytes with a handler for anything and a line number
table. -/
def bodyOfThreeBytes : AttributeInfo := ⟨1, [0, 2, 0, 3, 0, 0, 0, 3, 0, 0, 0xb1,
  0, 1, 0, 0, 0, 2, 0, 2, 0, 0, 0, 1, 0, 2, 0, 0, 0, 6, 0, 1, 0, 0, 0, 10]⟩

/-- A body of two bytes with a handler for a class and two line number
tables, the line of the second byte in the first of them. -/
def bodyOfTwoBytes : AttributeInfo := ⟨1, [0, 1, 0, 1, 0, 0, 0, 2, 0, 0xb1,
  0, 1, 0, 0, 0, 1, 0, 1, 0, 6, 0, 2, 0, 2, 0, 0, 0, 6, 0, 1, 0, 1, 0, 21,
  0, 2, 0, 0, 0, 6, 0, 1, 0, 0, 0, 20]⟩

/-- The frame of the body of two bytes. -/
def frameOfTwoBytes : CodeFrame :=
  ⟨1, 1, [0, 0xb1], [⟨0, 1, 1, 6⟩], [⟨2, [0, 1, 0, 1, 0, 21]⟩, ⟨2, [0, 1, 0, 0, 0, 20]⟩]⟩

/-- The body of two bytes comes last: of the handlers, the lines and the
sizes of the other one none is left, as none is where it is deleted. -/
theorem Method.load_last_code_of_two_bytes :
    ofRaw constantsOfBodies = .ok poolOfBodies ∧ ∃ m s,
      load poolOfBodies "demo/A" ⟨⟨1⟩, 3, 4, [bodyOfThreeBytes, bodyOfTwoBytes]⟩ .empty =
        (.ok m, s) ∧
      load poolOfBodies "demo/A" ⟨⟨1⟩, 3, 4, [bodyOfTwoBytes]⟩ .empty = (.ok m, s) ∧
      m.HasBodyOf constantsOfBodies poolOfBodies frameOfTwoBytes ∧
      m.handlers.entries = [⟨0, 1, 1, .cls "demo/X"⟩] ∧
      m.lines.map LineTable.rows = some [⟨0, 20⟩, ⟨1, 21⟩] := by
  have hpool : ofRaw constantsOfBodies = .ok poolOfBodies := by cbv
  have hloads : (load poolOfBodies "demo/A" ⟨⟨1⟩, 3, 4, [bodyOfThreeBytes, bodyOfTwoBytes]⟩
      .empty).1.map (fun m => (m.handlers.entries, m.lines.map LineTable.rows)) =
      .ok ([⟨0, 1, 1, .cls "demo/X"⟩], some [⟨0, 20⟩, ⟨1, 21⟩]) := by cbv
  have hframe : codeFrame? bodyOfTwoBytes.info = some frameOfTwoBytes := by cbv
  obtain ⟨m, hm, htables⟩ := Except.map_eq_ok_iff.1 hloads
  obtain ⟨hhandlers, hlines⟩ := Prod.mk.inj htables
  obtain ⟨s, hload⟩ : ∃ s, load poolOfBodies "demo/A"
      ⟨⟨1⟩, 3, 4, [bodyOfThreeBytes, bodyOfTwoBytes]⟩ .empty = (.ok m, s) := ⟨_, Prod.ext hm rfl⟩
  have hattributes :
      [bodyOfThreeBytes, bodyOfTwoBytes] = [bodyOfThreeBytes] ++ bodyOfTwoBytes :: [] := rfl
  obtain ⟨⟨frame, hframe', hbody⟩, hdrop⟩ :=
    load_last_code hpool hattributes (by cbv) (fun _ h => absurd h List.not_mem_nil) hload
  cases hframe.symm.trans hframe'
  have halone := hdrop [] ⟨List.nil_sublist _, by cbv⟩
  exact ⟨hpool, m, s, hload, halone, hbody, hhandlers, hlines⟩

end MethodArea
