/-
# `Proofs.FieldSlots` — fields tile their spaces of slots

The static fields of a class share one space of slots and the fields of
its instances the other.  In declaration order the fields of one space

    take    0 .. n₁,  n₁ .. n₁ + n₂,  n₁ + n₂ .. n₁ + n₂ + n₃,  …

where `nᵢ` is two for the descriptors `J` and `D` and one for any other,
and the last of these ends is the number that the class keeps as the size
of the space.

Both spaces are filled in one pass with a counter for each, so what the
pass leaves in one of them is looked at with the fields of the other left
out (`Field.fillsFrom_assignSlots`): from where its counter stood to where
the pass leaves it.  That is the only place where the pass is opened.  That
fields do not overlap, leave no gap, and sit where they do whatever stands
between them in the file is true of any list that fills its slots one after
another (`FillsFrom`).
-/
import Mathlib
import MethodArea.Proofs.Area.Lifetime
import MethodArea.Proofs.Area.Origins
import MethodArea.Proofs.Descriptor.Grammar

namespace MethodArea

/-! ## The width of a type shows in its text -/

theorem FieldType.isWide_iff {t : FieldType} : t.isWide ↔ t.text = "J" ∨ t.text = "D" := by
  have hchars : ∀ c : Char, t.text = String.singleton c ↔ t.chars = [c] := by
    intro c
    rw [text, ← String.toList_inj, String.toList_ofList, String.toList_singleton]
  rw [show "J" = String.singleton 'J' from rfl, show "D" = String.singleton 'D' from rfl, hchars,
    hchars]
  cases t with
  | base type => cases type <;> decide
  | object className => simp [isWide, chars]
  | array element => simp [isWide, chars]

namespace Field

/-- The slots that a field with a given descriptor takes. -/
def sizeFor (descriptor : String) : Nat := if descriptor = "J" ∨ descriptor = "D" then 2 else 1

/-- A slot is one of those that a field takes. -/
def Takes (f : Field) (slot : Nat) : Prop := f.slot ≤ slot ∧ slot < f.slot + f.slotSize

/-! ## Fields that fill slots one after another -/

/-- The fields take the slots from `first` up to `next`, in order. -/
def FillsFrom : Nat → List Field → Nat → Prop
  | first, [], next => first = next
  | first, f :: fs, next => f.slot = first ∧ FillsFrom (first + f.slotSize) fs next

namespace FillsFrom

variable {first next : Nat} {fs : List Field}

theorem le (h : FillsFrom first fs next) : first ≤ next := by
  induction fs generalizing first with
  | nil => exact Nat.le_of_eq h
  | cons f fs ih => exact (Nat.le_add_right _ _).trans (ih h.2)

/-- Fields fill the same slots whatever they point back at. -/
theorem pointBack (h : FillsFrom first fs next) (id : ClassId) :
    FillsFrom first (fs.map (Field.pointBack id)) next := by
  induction fs generalizing first with
  | nil => exact h
  | cons f fs ih => exact ⟨h.1, ih h.2⟩

/-- The slots between the ends are those that are taken. -/
theorem takes_iff (h : FillsFrom first fs next) (slot : Nat) :
    (∃ f ∈ fs, f.Takes slot) ↔ first ≤ slot ∧ slot < next := by
  induction fs generalizing first with
  | nil =>
      obtain rfl : first = next := h
      simp only [List.not_mem_nil, false_and, exists_false, false_iff]
      omega
  | cons f fs ih =>
      obtain ⟨rfl, hrest⟩ := h
      have hle : f.slot + f.slotSize ≤ next := hrest.le
      rw [List.exists_mem_cons_iff, ih hrest, Takes]
      omega

/-- No slot is taken twice. -/
theorem pairwise (h : FillsFrom first fs next) :
    fs.Pairwise (fun f g => ∀ slot, ¬ (f.Takes slot ∧ g.Takes slot)) := by
  induction fs generalizing first with
  | nil => exact .nil
  | cons f fs ih =>
      obtain ⟨rfl, hrest⟩ := h
      refine .cons ?_ (ih hrest)
      intro g hg slot htakes
      -- what comes after `f` takes no slot before its end
      have hafter := ((hrest.takes_iff slot).1 ⟨g, hg, htakes.2⟩).1
      exact absurd htakes.1.2 (Nat.not_lt.2 hafter)

/-- Each field starts where the one before it ends. -/
theorem isChain (h : FillsFrom first fs next) :
    fs.IsChain (fun f g => g.slot = f.slot + f.slotSize) := by
  induction fs generalizing first with
  | nil => exact .nil
  | cons f fs ih =>
      obtain ⟨rfl, hrest⟩ := h
      cases fs with
      | nil => exact .singleton f
      | cons g fs => exact .cons_cons hrest.1 (ih hrest)

/-- Where fields start and where they end follows from how large they are. -/
theorem slots_eq {gs : List Field} {next' : Nat} (h : FillsFrom first fs next)
    (h' : FillsFrom first gs next') (hsizes : gs.map slotSize = fs.map slotSize) :
    gs.map Field.slot = fs.map Field.slot ∧ next' = next := by
  induction fs generalizing gs first with
  | nil =>
      obtain rfl := List.map_eq_nil_iff.1 hsizes
      exact ⟨rfl, h'.symm.trans h⟩
  | cons f fs ih =>
      obtain ⟨g, gs, rfl, hsize, hsizes⟩ := List.map_eq_cons_iff.1 hsizes
      obtain ⟨hslot, hrest⟩ := h
      obtain ⟨hslot', hrest'⟩ := h'
      rw [hsize] at hrest'
      obtain ⟨hslots, hnext⟩ := ih hrest hrest' hsizes
      exact ⟨by rw [List.map_cons, List.map_cons, hslot, hslot', hslots], hnext⟩

end FillsFrom

/-! ## One pass fills both spaces -/

/-- The fields of one space. -/
def inSpace (static : Bool) (fields : List Field) : List Field :=
  fields.filter (fun f => f.isStatic = static)

theorem inSpace_cons (static : Bool) (f : Field) (fields : List Field) :
    inSpace static (f :: fields) =
      if f.isStatic = static then f :: inSpace static fields else inSpace static fields := by
  simp only [inSpace, List.filter_cons, decide_eq_true_eq]

theorem inSpace_map_pointBack (static : Bool) (fields : List Field) (id : ClassId) :
    inSpace static (fields.map (pointBack id)) = (inSpace static fields).map (pointBack id) :=
  List.filter_map

/-- The size of one space once all fields have their slots. -/
def Assigned.slotsIn (assigned : Assigned) (static : Bool) : Nat :=
  if static then assigned.staticSlots else assigned.instanceSlots

/-- The next free slots of the two spaces behind a field: it takes slots of its
own space and of no other. -/
def nextAfter (next : Bool → Nat) (f : Field) : Bool → Nat :=
  Function.update next f.isStatic (next f.isStatic + f.slotSize)

theorem nextAfter_self (next : Bool → Nat) (f : Field) :
    nextAfter next f f.isStatic = next f.isStatic + f.slotSize := Function.update_self _ _ _

theorem nextAfter_of_ne (next : Bool → Nat) {f : Field} {static : Bool}
    (h : f.isStatic ≠ static) : nextAfter next f static = next static :=
  Function.update_of_ne h.symm _ _

/-- The pass over one field. -/
theorem assignSlots_cons (next : Bool → Nat) (f : Field) (fields : List Field) :
    assignSlots (next false) (next true) (f :: fields) =
      (assignSlots (nextAfter next f false) (nextAfter next f true) fields).cons
        { f with slot := next f.isStatic } := by
  rw [assignSlots, nextAfter]
  split
  · next hstatic => rw [hstatic, Function.update_self, Function.update_of_ne Bool.false_ne_true]
  · next hstatic =>
      rw [Bool.not_eq_true] at hstatic
      rw [hstatic, Function.update_self, Function.update_of_ne Bool.false_ne_true.symm]

/-- The pass fills each space from its next free slot on, up to the size that
it gives the space. -/
theorem fillsFrom_assignSlots (static : Bool) (next : Bool → Nat) (fields : List Field) :
    FillsFrom (next static) (inSpace static (assignSlots (next false) (next true) fields).fields)
      ((assignSlots (next false) (next true) fields).slotsIn static) := by
  induction fields generalizing next with
  | nil =>
      cases static with
      | false => exact rfl
      | true => exact rfl
  | cons f fields ih =>
      have hrest := ih (nextAfter next f)
      rw [assignSlots_cons, Assigned.cons, inSpace_cons]
      by_cases hspace : f.isStatic = static
      · subst hspace
        rw [nextAfter_self] at hrest
        rw [if_pos rfl]
        exact ⟨rfl, hrest⟩
      · rw [nextAfter_of_ne next hspace] at hrest
        rw [if_neg hspace]
        exact hrest

/-- Fields that tile the slots below `total`. -/
structure Tiles (fields : List Field) (total : Nat) : Prop where
  first : ∀ f, fields.head? = some f → f.slot = 0
  consecutive : fields.IsChain (fun f g => g.slot = f.slot + f.slotSize)
  disjoint : fields.Pairwise (fun f g => ∀ slot, ¬ (f.Takes slot ∧ g.Takes slot))
  covers : ∀ slot, (∃ f ∈ fields, f.Takes slot) ↔ slot < total

theorem FillsFrom.tiles {fields : List Field} {total : Nat} (h : FillsFrom 0 fields total) :
    Tiles fields total where
  first := by
    intro f hf
    cases fields with
    | nil => cases hf
    | cons g fields =>
        cases hf
        exact h.1
  consecutive := h.isChain
  disjoint := h.pairwise
  covers := fun slot => (h.takes_iff slot).trans (and_iff_right (Nat.zero_le slot))

/-! ## Entries and their fields -/

/-- A field is the one that an entry describes, wherever its slots are. -/
structure OfEntry (pool : ConstantPool) (info : MemberInfo) (f : Field) : Prop where
  flags : f.flags = info.flags
  name : pool.utf8 info.nameIndex = .ok f.name
  descriptor : pool.utf8 info.descriptorIndex = .ok f.descriptor
  type : FieldType.parse f.descriptor = .ok f.type

theorem ofEntry_ofInfo {pool : ConstantPool} {className : String}
    {info : MemberInfo} {f : Field} (h : ofInfo pool className info = .ok f) :
    OfEntry pool info f := by
  obtain ⟨attributes, -, h⟩ := Except.bind_eq_ok_iff.1 h
  obtain ⟨member, hmember, h⟩ := Except.bind_eq_ok_iff.1 h
  obtain ⟨type, htype, h⟩ := Except.bind_eq_ok_iff.1 h
  obtain ⟨name, hname, hmember⟩ := Except.bind_eq_ok_iff.1 hmember
  obtain ⟨descriptor, hdescriptor, hmember⟩ := Except.bind_eq_ok_iff.1 hmember
  cases hmember
  cases h
  exact ⟨rfl, hname, hdescriptor, htype⟩

theorem OfEntry.pointBack {pool : ConstantPool} {info : MemberInfo} {f : Field}
    (h : OfEntry pool info f) (id : ClassId) : OfEntry pool info (f.pointBack id) :=
  ⟨h.flags, h.name, h.descriptor, h.type⟩

theorem forall₂_assignSlots {pool : ConstantPool} {infos : List MemberInfo} {fields : List Field}
    (h : List.Forall₂ (OfEntry pool) infos fields) (nextInstance nextStatic : Nat) :
    List.Forall₂ (OfEntry pool) infos (assignSlots nextInstance nextStatic fields).fields := by
  induction h generalizing nextInstance nextStatic with
  | nil => exact .nil
  | cons hentry _ ih =>
      rw [assignSlots]
      split
      · exact .cons ⟨hentry.flags, hentry.name, hentry.descriptor, hentry.type⟩ (ih _ _)
      · exact .cons ⟨hentry.flags, hentry.name, hentry.descriptor, hentry.type⟩ (ih _ _)

theorem OfEntry.slotSize_eq {pool : ConstantPool} {info : MemberInfo} {f : Field}
    (h : OfEntry pool info f) : f.slotSize = sizeFor f.descriptor := by
  obtain ⟨-, htext⟩ := FieldType.parse_eq_ok_iff.1 h.type
  rw [slotSize, FieldType.slots, sizeFor]
  exact if_congr (by rw [FieldType.isWide_iff, htext]) rfl rfl

theorem slotSize_eq_of_mem {pool : ConstantPool} {infos : List MemberInfo} {fields : List Field}
    (h : List.Forall₂ (OfEntry pool) infos fields) :
    ∀ f ∈ fields, f.slotSize = sizeFor f.descriptor := by
  induction h with
  | nil => exact fun f hf => absurd hf List.not_mem_nil
  | cons hentry _ ih => exact List.forall_mem_cons.2 ⟨hentry.slotSize_eq, ih⟩

theorem map_slotSize_inSpace {pool : ConstantPool} {infos : List MemberInfo}
    {fields : List Field} (h : List.Forall₂ (OfEntry pool) infos fields) (static : Bool) :
    (inSpace static fields).map slotSize =
      ((inSpace static fields).map (fun f => f.descriptor)).map sizeFor := by
  rw [List.map_map]
  exact List.map_congr_left fun f hf => slotSize_eq_of_mem h f (List.mem_of_mem_filter hf)

end Field

/-- The descriptors of the fields of one space, as a file has them. -/
def ClassFile.descriptorsIn (file : ClassFile) (pool : ConstantPool) (static : Bool) :
    Except Error (List String) :=
  (file.fields.filter (fun info => info.flags.has AccessFlags.accStatic = static)).mapM
    (fun info => pool.utf8 info.descriptorIndex)

/-- Fields of one space have the descriptors of their entries. -/
theorem ClassFile.descriptorsIn_eq {pool : ConstantPool} {file : ClassFile} {fields : List Field}
    (h : List.Forall₂ (Field.OfEntry pool) file.fields fields) (static : Bool) :
    file.descriptorsIn pool static =
      .ok ((Field.inSpace static fields).map (fun f => f.descriptor)) := by
  refine Except.mapM_eq_ok_iff_forall₂.2 (List.forall₂_map_right_iff.2 ?_)
  refine (List.rel_filter (fun info f hentry => ?_) h).imp fun _ _ hentry => hentry.descriptor
  show decide (info.flags.has AccessFlags.accStatic = static) = true ↔
    decide (f.flags.has AccessFlags.accStatic = static) = true
  rw [hentry.flags]

namespace Class

/-- The fields of one space, in declaration order. -/
def fieldsIn (c : Class) (static : Bool) : List Field := Field.inSpace static c.fields

/-- The size of one space, as the class has it. -/
def slotsIn (c : Class) (static : Bool) : Nat := if static then c.staticSlots else c.instanceSlots

section Loaded

variable {id : ClassId} {file : ClassFile} {superClass : Option ClassId}
  {interfaces : List ClassId} {s s' : Interner} {c : Class}
  (h : load id file superClass interfaces s = (.ok c, s'))

include h

/-- The fields of a class and the sizes of its spaces are what one pass over
the fields of the file gives. -/
theorem assigned_of_load : ∃ fields, file.fields.mapM (Field.ofInfo c.pool c.name) = .ok fields ∧
    c.fields = (Field.assignSlots 0 0 fields).fields.map (Field.pointBack id) ∧
    ∀ static, c.slotsIn static = (Field.assignSlots 0 0 fields).slotsIn static := by
  obtain ⟨header, _, hheader, -, rfl⟩ := exists_header_of_load h
  obtain ⟨-, -, fields, hfields, hassigned⟩ := Header.ofFile_eq_ok hheader
  refine ⟨fields, hfields, ?_, ?_⟩
  · rw [hassigned]
  · rw [← hassigned]
    exact fun static => rfl

theorem forall₂_ofEntry_of_load : List.Forall₂ (Field.OfEntry c.pool) file.fields c.fields := by
  obtain ⟨fields, hfields, hslots, -⟩ := assigned_of_load h
  have hentries := (Except.mapM_eq_ok_iff_forall₂.1 hfields).imp fun _ _ => Field.ofEntry_ofInfo
  rw [hslots, List.forall₂_map_right_iff]
  exact (Field.forall₂_assignSlots hentries 0 0).imp fun _ _ hentry => hentry.pointBack id

/-- Fields fill the slots of their space. -/
theorem fillsFrom_of_load (static : Bool) :
    Field.FillsFrom 0 (c.fieldsIn static) (c.slotsIn static) := by
  obtain ⟨fields, -, hslots, hsizes⟩ := assigned_of_load h
  rw [fieldsIn, hslots, hsizes, Field.inSpace_map_pointBack]
  exact (Field.fillsFrom_assignSlots static (fun _ => 0) fields).pointBack id

end Loaded

/-- The fields of a class tile its two spaces of slots.  Each is the field of
the entry in its place; it takes two slots if its descriptor is that of
`long` or `double`, and one otherwise.  The slots of one space only depend
on the descriptors of its own fields, in order. -/
theorem fields_tile_slots {id : ClassId} {file : ClassFile} {superClass : Option ClassId}
    {interfaces : List ClassId} {s s' : Interner} {c : Class}
    (h : load id file superClass interfaces s = (.ok c, s')) :
    Field.Tiles (c.fieldsIn false) c.instanceSlots ∧
      Field.Tiles (c.fieldsIn true) c.staticSlots ∧
      List.Forall₂ (Field.OfEntry c.pool) file.fields c.fields ∧
      (∀ f ∈ c.fields, (f.slotSize = 2 ↔ f.descriptor = "J" ∨ f.descriptor = "D") ∧
        (f.slotSize = 1 ↔ ¬ (f.descriptor = "J" ∨ f.descriptor = "D"))) ∧
      ∀ id' file' superClass' interfaces' t t' d,
        load id' file' superClass' interfaces' t = (.ok d, t') → ∀ static,
        file'.descriptorsIn d.pool static = file.descriptorsIn c.pool static →
        (d.fieldsIn static).map Field.slot = (c.fieldsIn static).map Field.slot ∧
          d.slotsIn static = c.slotsIn static := by
  have hentries := forall₂_ofEntry_of_load h
  refine ⟨(fillsFrom_of_load h false).tiles, (fillsFrom_of_load h true).tiles, hentries, ?_, ?_⟩
  · intro f hf
    rw [Field.slotSize_eq_of_mem hentries f hf, Field.sizeFor]
    split <;> simp [*]
  · intro id' file' superClass' interfaces' t t' d h' static hdescriptors
    refine (fillsFrom_of_load h static).slots_eq (fillsFrom_of_load h' static) ?_
    have hentries' := forall₂_ofEntry_of_load h'
    rw [ClassFile.descriptorsIn_eq hentries', ClassFile.descriptorsIn_eq hentries] at hdescriptors
    rw [fieldsIn, fieldsIn, Field.map_slotSize_inSpace hentries',
      Field.map_slotSize_inSpace hentries, Except.ok.inj hdescriptors]

/-- A class with fields `I`, `J` and `[J` of its instances and static fields
`D` and `Z` between them. -/
def mixedFields : ClassFile where
  constants := [.ofText "demo/A", .classRef 1, .ofText "x", .ofText "I", .ofText "J",
    .ofText "[J", .ofText "D", .ofText "Z"]
  flags := ⟨1⟩
  thisClass := 2
  fields := [⟨⟨0⟩, 3, 4, []⟩, ⟨⟨8⟩, 3, 7, []⟩, ⟨⟨0⟩, 3, 5, []⟩, ⟨⟨8⟩, 3, 8, []⟩, ⟨⟨0⟩, 3, 6, []⟩]
  methods := []

/-- The same class with the static field `D` taken out, `Z` at the end, and
a static field `J` before all others. -/
def mixedFieldsEdited : ClassFile :=
  { mixedFields with
    fields := [⟨⟨8⟩, 3, 5, []⟩, ⟨⟨0⟩, 3, 4, []⟩, ⟨⟨0⟩, 3, 5, []⟩, ⟨⟨0⟩, 3, 6, []⟩,
      ⟨⟨8⟩, 3, 8, []⟩] }

/-- The long takes two slots and the array of longs one; the instances of the
edited class look the same. -/
theorem fields_tile_slots_edited :
    ∃ c d s t, load 0 mixedFields none [] Interner.empty = (.ok c, s) ∧
      load 1 mixedFieldsEdited none [] Interner.empty = (.ok d, t) ∧
      (c.fieldsIn false).map Field.slot = [0, 1, 3] ∧ c.instanceSlots = 4 ∧
      Field.Tiles (c.fieldsIn false) 4 ∧ Field.Tiles (c.fieldsIn true) 3 ∧
      mixedFieldsEdited.descriptorsIn d.pool false = mixedFields.descriptorsIn c.pool false ∧
      (d.fieldsIn false).map Field.slot = [0, 1, 3] ∧ d.instanceSlots = 4 := by
  have hload : (load 0 mixedFields none [] Interner.empty).1.map (fun c =>
      ((c.fieldsIn false).map Field.slot, c.instanceSlots, c.staticSlots,
        mixedFields.descriptorsIn c.pool false)) =
      .ok ([0, 1, 3], 4, 3, .ok ["I", "J", "[J"]) := by cbv
  have hload' : (load 1 mixedFieldsEdited none [] Interner.empty).1.map (fun d =>
      mixedFieldsEdited.descriptorsIn d.pool false) = .ok (.ok ["I", "J", "[J"]) := by cbv
  obtain ⟨c, hc, hfacts⟩ := Except.map_eq_ok_iff.1 hload
  obtain ⟨d, hd, hdescriptors'⟩ := Except.map_eq_ok_iff.1 hload'
  simp only [Prod.mk.injEq] at hfacts
  obtain ⟨hslots, hinstance, hstatic, hdescriptors⟩ := hfacts
  have hc : load 0 mixedFields none [] Interner.empty = (.ok c, _) := Prod.ext hc rfl
  have hd : load 1 mixedFieldsEdited none [] Interner.empty = (.ok d, _) := Prod.ext hd rfl
  obtain ⟨htiles, htilesStatic, -, -, hedited⟩ := fields_tile_slots hc
  obtain ⟨hslots', hcount⟩ :=
    hedited _ _ _ _ _ _ d hd false (hdescriptors'.trans hdescriptors.symm)
  exact ⟨c, d, _, _, hc, hd, hslots, hinstance, hinstance ▸ htiles, hstatic ▸ htilesStatic,
    hdescriptors'.trans hdescriptors.symm, hslots'.trans hslots, hcount.trans hinstance⟩

end Class

end MethodArea
