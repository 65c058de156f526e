/-
# `Proofs.Loading.FirstDefect` — a class loads exactly if its file is valid

Loading a class file decides `ClassFile.conditions`, and so:

* it gives a class exactly if the file is valid;
* otherwise the error is that of the first condition that does not hold.

`Reachable.load_iff_valid` says so for every area that can be reached,
every file with at most 65535 constants, and every super class and
interfaces, which have no part in it.  The area comes in by its interned
descriptors: that a text was seen before must make no difference.

The proof goes along the functions that load: members, methods one after
the other, then the class.  Each decides its share of the conditions, and
each share is put behind those before it.
-/
import Mathlib
import MethodArea.Proofs.Area.Descriptors
import MethodArea.Proofs.Loading.Attributes

namespace MethodArea

open Attribute ConstantPool Descriptor

variable {raw : List RawConstant} {pool : ConstantPool}

/-! ## Descriptors -/

theorem decides_parseField (s : String) :
    Decides (FieldType.parse s) [⟨TypeText s.toList, .malformedDescriptor s⟩] :=
  .one FieldType.exists_parse_iff fun _ => FieldType.parse_eq_error

theorem decides_intern {s : Interner} (h : s.Sound) (descriptor : String) :
    Decides (s.intern descriptor).1
      [⟨MethodText descriptor.toList, .malformedDescriptor descriptor⟩] := by
  have hparse := h.map_intern descriptor
  refine .one ?_ fun e he => ?_
  · rw [← MethodDescriptor.exists_parse_iff, ← hparse]
    simp only [Except.map_eq_ok_iff]
    exact ⟨fun ⟨shared, hs⟩ => ⟨_, shared, hs, rfl⟩, fun ⟨_, shared, hs, _⟩ => ⟨shared, hs⟩⟩
  · exact MethodDescriptor.parse_eq_error (hparse.symm.trans (Except.map_eq_error_iff.2 he))

/-! ## Members -/

theorem textOf_of_utf8 (hpool : ofRaw raw = .ok pool) {index : UInt16} {text : String}
    (h : pool.utf8 index = .ok text) : textOf raw index = text := by
  rw [utf8_eq hpool, found_eq_ok_iff] at h
  exact textOf_eq h

theorem decides_decodeAll (hpool : ofRaw raw = .ok pool) (infos : List AttributeInfo) :
    Decides (decodeAll pool infos) (infos.flatMap (AttributeInfo.conditions raw)) :=
  .mapM fun a _ => AttributeInfo.decides_decode hpool a

theorem decides_member (hpool : ofRaw raw = .ok pool) (className : String)
    (info : MemberInfo) (attributes : List Attribute) :
    Decides (Member.ofInfo pool className info attributes)
      [textRequired raw info.nameIndex, textRequired raw info.descriptorIndex] :=
  (decides_utf8 hpool info.nameIndex).bind_one fun _ _ =>
    (decides_utf8 hpool info.descriptorIndex).then_ok _

/-- A member has the name, the descriptor and the flags of its entry. -/
theorem member_eq_ok (hpool : ofRaw raw = .ok pool) {className : String}
    {info : MemberInfo} {attributes : List Attribute} {member : Member}
    (h : Member.ofInfo pool className info attributes = .ok member) :
    member.ref = ⟨className, textOf raw info.nameIndex, textOf raw info.descriptorIndex⟩ ∧
      member.flags = info.flags := by
  obtain ⟨name, hname, h⟩ := Except.bind_eq_ok_iff.1 h
  obtain ⟨descriptor, hdescriptor, h⟩ := Except.bind_eq_ok_iff.1 h
  cases h
  rw [textOf_of_utf8 hpool hname, textOf_of_utf8 hpool hdescriptor]
  exact ⟨rfl, rfl⟩

theorem decides_field (hpool : ofRaw raw = .ok pool) (className : String)
    (info : MemberInfo) :
    Decides (Field.ofInfo pool className info) (info.conditions raw TypeText) := by
  refine (decides_decodeAll hpool info.attributes).bind fun attributes _ => ?_
  refine (decides_member hpool className info attributes).bind fun member hmember => ?_
  have hdescriptor := congrArg MethodRef.descriptor (member_eq_ok hpool hmember).1
  dsimp only [Member.ref] at hdescriptor
  rw [← hdescriptor]
  exact (decides_parseField member.descriptor).then_ok _

/-! ## Methods -/

/-- A method has an attribute that gives code if its entry has one named
so. -/
theorem hasCode_iff (hpool : ofRaw raw = .ok pool) {info : MemberInfo}
    {attributes : List Attribute} (h : decodeAll pool info.attributes = .ok attributes) :
    info.HasCode raw ↔ attributes.filterMap Attribute.code? ≠ [] := by
  constructor
  · rintro ⟨a, ha, hname⟩ hnil
    have hmem : decode pool a ∈ attributes.map .ok :=
      decodeAll_eq_ok_iff.1 h ▸ List.mem_map_of_mem ha
    obtain ⟨d, hd, hdecode⟩ := List.mem_map.1 hmem
    have hnone := List.filterMap_eq_nil_iff.1 hnil d hd
    have hk := (AttributeInfo.known?_eq_some_iff .code).2 hname
    cases AttributeInfo.gives_of_decode hpool hdecode.symm with
    | code _ _ => cases hnone
    | exceptions hk' _ =>
        rw [hk] at hk'
        cases hk'
    | other hk' _ _ _ => exact hk' hk
  · intro hne
    obtain ⟨c, hc⟩ := List.exists_mem_of_ne_nil _ hne
    obtain ⟨d, hd, hcode⟩ := List.mem_filterMap.1 hc
    obtain ⟨a, ha, hdecode⟩ := Except.exists_of_mem_mapM h d hd
    cases AttributeInfo.gives_of_decode hpool hdecode with
    | code hk _ => exact ⟨a, ha, (AttributeInfo.known?_eq_some_iff .code).1 hk⟩
    | exceptions _ _ => cases hcode
    | other _ _ hother _ =>
        cases d with
        | code c' => exact absurd rfl (hother c')
        | _ => cases hcode

theorem isBodiless_iff {m : Method} {info : MemberInfo} {className : String}
    (href : m.ref = ⟨className, textOf raw info.nameIndex, textOf raw info.descriptorIndex⟩)
    (hflags : m.flags = info.flags) : m.isBodiless = true ↔ info.Bodiless raw := by
  have hname : m.name = textOf raw info.nameIndex := congrArg MethodRef.name href
  simp only [Method.isBodiless, Method.isNative, Method.isAbstract, hname, hflags,
    Bool.and_eq_true, Bool.or_eq_true, bne_iff_ne]
  rfl

theorem decides_checkCode {m : Method} {info : MemberInfo}
    (hbodiless : m.isBodiless = true ↔ info.Bodiless raw)
    (hcode : m.code.isSome = true ↔ info.HasCode raw) :
    Decides m.checkCode (info.codeConditions raw m.ref) := by
  rw [MemberInfo.codeConditions, ← hbodiless, ← hcode, Method.checkCode]
  cases m.isBodiless with
  | true =>
      cases m.code with
      | some code => exact .error (.here (by simp))
      | none => exact .ok _ (by simp)
  | false =>
      cases m.code with
      | some code => exact .ok _ (by simp)
      | none => exact .error (.later (by simp) (.here (by simp)))

/-- Building a method decides what is asked of the effect of its
attributes, and that it has code where it should. -/
theorem decides_build (hpool : ofRaw raw = .ok pool) {info : MemberInfo} {member : Member}
    {className : String} {attributes : List Attribute} (shared : SharedDescriptor)
    (hdecode : decodeAll pool info.attributes = .ok attributes)
    (href : member.ref =
      ⟨className, textOf raw info.nameIndex, textOf raw info.descriptorIndex⟩)
    (hflags : member.flags = info.flags) :
    Decides (Method.build pool member shared attributes)
      (info.attributes.flatMap (AttributeInfo.effectConditions raw member.ref) ++
        info.codeConditions raw member.ref) := by
  refine (AttributeInfo.decides_foldlM hpool hdecode (Method.bare member shared)).bind
    fun m hm => ?_
  have hmember : m.toMember = member :=
    Except.foldlM_induction (P := fun m => m.toMember = member)
      (fun _ _ _ h h' => (Method.addAttribute_keeps h').1.trans h) rfl hm
  have hcode : m.code.isSome = true ↔ info.HasCode raw := by
    rw [hasCode_iff hpool hdecode]
    exact Body.ofLast_code_isSome_iff (Method.ofLast_foldlM hm)
  have hm' : m.ref = member.ref := congrArg Member.ref hmember
  have hmflags : m.flags = info.flags := (congrArg Member.flags hmember).trans hflags
  rw [← hm'] at href ⊢
  exact decides_checkCode (isBodiless_iff href hmflags) hcode

theorem load_fst (pool : ConstantPool) (className : String)
    (info : MemberInfo) (s : Interner) :
    (Method.load pool className info s).1 =
      Method.memberOfInfo pool className info >>= fun (member, attributes) =>
        (s.intern member.descriptor).1 >>= fun shared =>
          Method.build pool member shared attributes := by
  rw [Method.load]
  cases Method.memberOfInfo pool className info with
  | error e => rfl
  | ok p =>
      rw [Except.ok_bind]
      dsimp only
      split
      · next hs => rw [hs]; rfl
      · next hs => rw [hs]; rfl

theorem decides_method (hpool : ofRaw raw = .ok pool) {thisClass : UInt16} {className : String}
    (hclass : className? raw thisClass = some className) (info : MemberInfo)
    {s : Interner} (hs : s.Sound) :
    Decides (Method.load pool className info s).1
      (info.methodConditions raw thisClass) := by
  have hlists : info.methodConditions raw thisClass =
      (info.attributes.flatMap (AttributeInfo.conditions raw) ++
        [textRequired raw info.nameIndex, textRequired raw info.descriptorIndex]) ++
      (⟨MethodText (textOf raw info.descriptorIndex).toList,
          .malformedDescriptor (textOf raw info.descriptorIndex)⟩ ::
        (info.attributes.flatMap
            (AttributeInfo.effectConditions raw (info.methodRef raw thisClass)) ++
          info.codeConditions raw (info.methodRef raw thisClass))) := by
    simp only [MemberInfo.methodConditions, MemberInfo.conditions, List.append_assoc,
      List.cons_append, List.nil_append]
  have hmember : Decides (Method.memberOfInfo pool className info)
      (info.attributes.flatMap (AttributeInfo.conditions raw) ++
        [textRequired raw info.nameIndex, textRequired raw info.descriptorIndex]) :=
    (decides_decodeAll hpool info.attributes).bind fun attributes _ =>
      (decides_member hpool className info attributes).then_ok _
  rw [load_fst, hlists]
  refine hmember.bind ?_
  rintro ⟨member, attributes⟩ h
  obtain ⟨hdecode, hinfo⟩ := Method.memberOfInfo_eq_ok_iff.1 h
  obtain ⟨href, hflags⟩ := member_eq_ok hpool hinfo
  have hmethod : info.methodRef raw thisClass = member.ref := by
    rw [href, MemberInfo.methodRef, hclass]
    rfl
  have hdescriptor : member.descriptor = textOf raw info.descriptorIndex :=
    congrArg MethodRef.descriptor href
  rw [hmethod, ← hdescriptor]
  exact (decides_intern hs member.descriptor).bind_one fun shared _ =>
    decides_build hpool shared hdecode href hflags

theorem loadAll_fst (pool : ConstantPool) (className : String)
    (info : MemberInfo) (infos : List MemberInfo) (s : Interner) :
    (Method.loadAll pool className (info :: infos) s).1 =
      (Method.load pool className info s).1 >>= fun m =>
        (m :: ·) <$> (Method.loadAll pool className infos
          (Method.load pool className info s).2).1 := by
  rw [Method.loadAll]
  split
  · next hload => rw [hload]; rfl
  · next hload =>
      rw [hload]
      split
      · next hrest => rw [Except.ok_bind, hrest]; rfl
      · next hrest => rw [Except.ok_bind, hrest]; rfl

theorem decides_methods (hpool : ofRaw raw = .ok pool) {thisClass : UInt16} {className : String}
    (hclass : className? raw thisClass = some className)
    (infos : List MemberInfo) {s : Interner} (hs : s.Sound) :
    Decides (Method.loadAll pool className infos s).1
      (infos.flatMap (MemberInfo.methodConditions raw thisClass)) := by
  induction infos generalizing s with
  | nil => exact .ok [] allHold_nil
  | cons info infos ih =>
      rw [loadAll_fst, List.flatMap_cons]
      refine (decides_method hpool hclass info hs).bind fun m _ => ?_
      exact (ih (Method.sound_load hs rfl)).map _

/-! ## Classes -/

theorem decides_header {file : ClassFile} (hsize : file.constants.length ≤ 65535) :
    Decides (Class.Header.ofFile file)
      (ConstantPool.conditions file.constants ++
        (classRequired file.constants file.thisClass ::
          file.fields.flatMap (MemberInfo.conditions file.constants TypeText))) := by
  refine (decides_ofRaw hsize).bind fun pool hpool => ?_
  refine (decides_className hpool file.thisClass).bind_one fun name _ => ?_
  exact Decides.then_ok (.mapM fun info _ => decides_field hpool name info) _

theorem header_eq_ok {file : ClassFile} {header : Class.Header}
    (h : Class.Header.ofFile file = .ok header) :
    ofRaw file.constants = .ok header.pool ∧
      className? file.constants file.thisClass = some header.name := by
  obtain ⟨hpool, hname, -⟩ := Class.Header.ofFile_eq_ok h
  rw [className_eq hpool, found_eq_ok_iff] at hname
  exact ⟨hpool, hname⟩

/-- Loading a class file decides its conditions. -/
theorem decides_load (id : ClassId) {file : ClassFile} (hsize : file.constants.length ≤ 65535)
    (superClass : Option ClassId) (interfaces : List ClassId) {s : Interner} (hs : s.Sound) :
    Decides (Class.load id file superClass interfaces s).1 file.conditions := by
  have hlists : file.conditions =
      (ConstantPool.conditions file.constants ++
        (classRequired file.constants file.thisClass ::
          file.fields.flatMap (MemberInfo.conditions file.constants TypeText))) ++
      file.methods.flatMap (MemberInfo.methodConditions file.constants file.thisClass) := by
    simp only [ClassFile.conditions, List.append_assoc, List.cons_append]
  have hheader := decides_header hsize
  rw [hlists, Class.load]
  split
  · next e he => exact .error (hheader.of_error e he).append_right
  · next header h =>
      obtain ⟨hpool, hclass⟩ := header_eq_ok h
      have hall := hheader.of_ok header h
      have hmethods := decides_methods hpool hclass file.methods hs
      split
      · next e s' hload =>
          exact .error ((hmethods.of_error e (congrArg Prod.fst hload)).append_left hall)
      · next methods s' hload =>
          exact .ok _ (allHold_append.2 ⟨hall, hmethods.of_ok _ (congrArg Prod.fst hload)⟩)

namespace Area

/-- A class loads exactly if its file is valid, and otherwise the first
condition that does not hold is reported. -/
theorem Reachable.load_iff_valid {a : Area} (h : a.Reachable) {file : ClassFile}
    (hsize : file.constants.length ≤ 65535) (id : ClassId) (superClass : Option ClassId)
    (interfaces : List ClassId) :
    ((∃ c, (Class.load id file superClass interfaces a.descriptors).1 = .ok c) ↔ file.Valid) ∧
    ∀ e, (Class.load id file superClass interfaces a.descriptors).1 = .error e ↔
      FirstViolation file.conditions e := by
  have hdecides := decides_load id hsize superClass interfaces h.sound_descriptors
  exact ⟨hdecides.ok_iff.trans ClassFile.valid_iff.symm, fun _ => hdecides.error_iff⟩

/-- A class with a method of three bytes that has a handler, and an
abstract method after it. -/
def twoMethods (handlerPc : UInt8) (descriptor : String) : ClassFile where
  constants := [.ofText "demo/A", .classRef 1, .ofText "Code", .ofText "run", .ofText "()V",
    .ofText "go", .ofText descriptor]
  flags := ⟨1⟩
  thisClass := 2
  fields := []
  methods := [⟨⟨0x0001⟩, 4, 5, [⟨3,
    [0, 2, 0, 1, 0, 0, 0, 3, 0, 0, 0xb1, 0, 1, 0, 0, 0, 2, 0, handlerPc, 0, 0, 0, 0]⟩]⟩,
    ⟨⟨0x0401⟩, 6, 7, []⟩]

/-- With a handler behind the code and a bad descriptor the handler is
reported, without it the descriptor, and without both the file is valid;
that one of the descriptors was seen before makes no difference. -/
theorem load_iff_valid_two_methods :
    ∃ a, Reachable a ∧
      FirstViolation (twoMethods 3 "(V)V").conditions
        (.malformedExceptionTable ⟨"demo/A", "run", "()V"⟩ 0 (.handlerBeyondCode 3 3)) ∧
      FirstViolation (twoMethods 2 "(V)V").conditions (.malformedDescriptor "(V)V") ∧
      (twoMethods 2 "(J)V").Valid := by
  have hreach : Reachable (run empty [.intern "()V"]) := ⟨_, rfl⟩
  have hsize : ∀ handlerPc descriptor,
      (twoMethods handlerPc descriptor).constants.length ≤ 65535 :=
    fun _ _ => Nat.le_of_ble_eq_true rfl
  have hhandler : (Class.load 0 (twoMethods 3 "(V)V") none []
      (run empty [.intern "()V"]).descriptors).1 =
      .error (.malformedExceptionTable ⟨"demo/A", "run", "()V"⟩ 0 (.handlerBeyondCode 3 3)) := by
    cbv
  have hdescriptor : (Class.load 0 (twoMethods 2 "(V)V") none []
      (run empty [.intern "()V"]).descriptors).1 = .error (.malformedDescriptor "(V)V") := by
    cbv
  have hvalid : ((Class.load 0 (twoMethods 2 "(J)V") none []
      (run empty [.intern "()V"]).descriptors).1.toOption).isSome = true := by
    cbv
  refine ⟨_, hreach, ?_, ?_, ?_⟩
  · exact ((hreach.load_iff_valid (hsize _ _) 0 none []).2 _).1 hhandler
  · exact ((hreach.load_iff_valid (hsize _ _) 0 none []).2 _).1 hdescriptor
  · refine (hreach.load_iff_valid (hsize _ _) 0 none []).1.1 ?_
    generalize (Class.load 0 (twoMethods 2 "(J)V") none []
      (run empty [.intern "()V"]).descriptors).1 = loaded at hvalid
    cases loaded with
    | ok c => exact ⟨c, rfl⟩
    | error e => cases hvalid

end Area

end MethodArea
