/-
# `Proofs.ArgumentSlots` — argument slots counted in the text of a descriptor

The slots that the parameters of a method take are added up over the types
that its descriptor is parsed into.  They can be counted in the text as
well, in one pass from left to right that knows nothing of types but where
it is:

    place      character     next place    slots
    before     `(`           type
    before     another       before
    type       `)`           behind
    type       `[`           element
    type       `L`           name
    type       `J`, `D`      type          2
    type       another       type          1
    element    `[`           element
    element    `L`           name
    element    another       type          1
    name       `;`           type          1
    name       another       name
    behind     any           behind

What a place is for shows in the invariant of the pass: at the start of a
type it is in `type`, and at the end of that type it is there again, with
the slots of the type added (`foldl_chars`).  Marks inside class names are
passed over in `name`, and letters after array marks are seen in `element`.

A type has one character at least and takes two slots at most, which bounds
the slots by the length of the text (`slots_le_of_parse`).  For a text as
long as one can be, the sum stays below 2^64, receiver included, so adding
up in words of 64 bits comes to the same (`addSlots?_eq_some`).
-/
import Mathlib
import MethodArea.Proofs.Area.Interning
import MethodArea.Proofs.Descriptor.Grammar

namespace MethodArea

namespace Descriptor

/-! ## The pass over the text -/

/-- Where in a descriptor a character is. -/
inductive Place where
  | before
  | type
  | element
  | name
  | behind
deriving DecidableEq

/-- Where a pass over a descriptor is, and what it has counted. -/
structure SlotCount where
  place : Place
  slots : Nat
deriving DecidableEq

namespace SlotCount

/-- The pass one character further. -/
def step (s : SlotCount) (c : Char) : SlotCount :=
  match s.place with
  | .before => if c = '(' then ⟨.type, s.slots⟩ else s
  | .type =>
    if c = ')' then ⟨.behind, s.slots⟩
    else if c = '[' then ⟨.element, s.slots⟩
    else if c = 'L' then ⟨.name, s.slots⟩
    else if c = 'J' ∨ c = 'D' then ⟨.type, s.slots + 2⟩
    else ⟨.type, s.slots + 1⟩
  | .element =>
    if c = '[' then s
    else if c = 'L' then ⟨.name, s.slots⟩
    else ⟨.type, s.slots + 1⟩
  | .name => if c = ';' then ⟨.type, s.slots + 1⟩ else s
  | .behind => s

/-- The slots that a pass over a whole text counts. -/
def ofText (descriptor : String) : Nat := (descriptor.toList.foldl step ⟨.before, 0⟩).slots

theorem foldl_marks (n k : Nat) :
    (List.replicate n '[').foldl step ⟨.element, k⟩ = ⟨.element, k⟩ := by
  induction n with
  | zero => rfl
  | succ n ih => simpa [List.replicate_succ, step] using ih

theorem foldl_name {name : List Char} (h : ';' ∉ name) (k : Nat) :
    name.foldl step ⟨.name, k⟩ = ⟨.name, k⟩ := by
  induction name with
  | nil => rfl
  | cons c name ih =>
      obtain ⟨hc, hname⟩ := not_or.1 (mt List.mem_cons.2 h)
      have hstep : step ⟨.name, k⟩ c = ⟨.name, k⟩ := if_neg (Ne.symm hc)
      rw [List.foldl_cons, hstep, ih hname]

theorem foldl_behind (text : List Char) (k : Nat) :
    text.foldl step ⟨.behind, k⟩ = ⟨.behind, k⟩ := by
  induction text with
  | nil => rfl
  | cons c text ih => exact ih

/-- An element adds its slots where a type starts, and one slot after array
marks. -/
theorem foldl_element {e : FieldType} (he : e.IsElement) (k : Nat) :
    e.chars.foldl step ⟨.type, k⟩ = ⟨.type, k + e.slots⟩ ∧
      e.chars.foldl step ⟨.element, k⟩ = ⟨.type, k + 1⟩ := by
  cases e with
  | base b => cases b <;> exact ⟨rfl, rfl⟩
  | object name =>
      have hname : (name.toList ++ [';']).foldl step ⟨.name, k⟩ = ⟨.type, k + 1⟩ := by
        rw [List.foldl_append, foldl_name he.2]
        rfl
      exact ⟨hname, hname⟩
  | array _ => exact he.elim

/-- A type adds its slots, whatever its name and its levels are. -/
theorem foldl_chars {t : FieldType} (ht : t.WellFormed) (k : Nat) :
    t.chars.foldl step ⟨.type, k⟩ = ⟨.type, k + t.slots⟩ := by
  obtain ⟨n, e, -, he, rfl⟩ := FieldType.wellFormed_iff_arrayOf.1 ht
  cases n with
  | zero => exact (foldl_element he k).1
  | succ n =>
      have hmark : step ⟨.type, k⟩ '[' = ⟨.element, k⟩ := rfl
      rw [FieldType.chars_arrayOf, List.replicate_succ, List.cons_append, List.foldl_cons, hmark,
        List.foldl_append, foldl_marks]
      exact (foldl_element he k).2

/-- A list of types adds the slots of them all. -/
theorem foldl_flatMap_chars {types : List FieldType} (h : ∀ t ∈ types, t.WellFormed) (k : Nat) :
    (types.flatMap FieldType.chars).foldl step ⟨.type, k⟩ =
      ⟨.type, k + types.foldr (fun t n => t.slots + n) 0⟩ := by
  induction types generalizing k with
  | nil => rfl
  | cons t types ih =>
      obtain ⟨ht, htypes⟩ := List.forall_mem_cons.1 h
      rw [List.flatMap_cons, List.foldl_append, foldl_chars ht, ih htypes, List.foldr_cons,
        Nat.add_assoc]

/-- The pass counts the slots of the parameters and no others. -/
theorem foldl_descriptor {d : MethodDescriptor} (h : d.WellFormed) :
    d.chars.foldl step ⟨.before, 0⟩ = ⟨.behind, d.argSlots⟩ := by
  have hopen : step ⟨.before, 0⟩ '(' = ⟨.type, 0⟩ := rfl
  have hclose : ∀ k, step ⟨.type, k⟩ ')' = ⟨.behind, k⟩ := fun _ => rfl
  rw [MethodDescriptor.chars, List.foldl_cons, hopen, List.foldl_append, foldl_flatMap_chars h.1,
    List.foldl_cons, hclose, foldl_behind, Nat.zero_add]
  rfl

end SlotCount

/-! ## Slots against bytes -/

theorem length_le_utf8Len (text : List Char) : text.length ≤ String.utf8Len text := by
  induction text with
  | nil => exact Nat.le_refl _
  | cons c text ih =>
      have hc := c.utf8Size_pos
      rw [List.length_cons, String.utf8Len_cons]
      omega

theorem slots_le_length (t : FieldType) : t.slots ≤ 2 * t.chars.length := by
  have hslots : t.slots ≤ 2 := by
    rw [FieldType.slots]
    split <;> omega
  have hchars : 0 < t.chars.length := by
    cases t <;> simp [FieldType.chars]
  omega

theorem argSlots_le_length (types : List FieldType) :
    types.foldr (fun t n => t.slots + n) 0 ≤ 2 * (types.flatMap FieldType.chars).length := by
  induction types with
  | nil => exact Nat.le_refl _
  | cons t types ih =>
      have ht := slots_le_length t
      rw [List.foldr_cons, List.flatMap_cons, List.length_append]
      omega

end Descriptor

namespace MethodDescriptor

open Descriptor

theorem argSlots_eq_ofText {s : String} {d : MethodDescriptor} (h : parse s = .ok d) :
    d.argSlots = SlotCount.ofText s := by
  obtain ⟨hwf, rfl⟩ := parse_eq_ok_iff.1 h
  rw [SlotCount.ofText, text, String.toList_ofList, SlotCount.foldl_descriptor hwf]

/-- Parentheses and a result are three bytes, and parameters take two slots
for a byte at most. -/
theorem slots_le_of_parse {s : String} {d : MethodDescriptor} (h : parse s = .ok d) :
    3 ≤ s.utf8ByteSize ∧ d.argSlots ≤ 2 * (s.utf8ByteSize - 3) := by
  obtain ⟨-, rfl⟩ := parse_eq_ok_iff.1 h
  have hbytes : d.chars.length ≤ d.text.utf8ByteSize := by
    rw [text, String.utf8ByteSize_ofList]
    exact length_le_utf8Len d.chars
  have hslots : d.argSlots ≤ 2 * (d.parameters.flatMap FieldType.chars).length :=
    argSlots_le_length d.parameters
  have hresult : 0 < (returnChars d.returnType).length := by
    cases d.returnType with
    | none => exact Nat.one_pos
    | some t => cases t <;> simp [returnChars, FieldType.chars]
  simp only [chars, List.length_cons, List.length_append] at hbytes
  omega

end MethodDescriptor

/-! ## Adding up in words -/

/-- The sum of two words of 64 bits, if it is a word. -/
def addWords? (a b : UInt64) : Option UInt64 :=
  if a.toNat + b.toNat < 2 ^ 64 then some (a + b) else none

theorem addWords?_eq_some {a b : UInt64} {n : Nat} (hsum : a.toNat + b.toNat = n)
    (hn : n < 2 ^ 64) : ∃ w, addWords? a b = some w ∧ w.toNat = n := by
  subst hsum
  refine ⟨a + b, if_pos hn, ?_⟩
  rw [UInt64.toNat_add, Nat.mod_eq_of_lt hn]

/-- The slots of a type as a word. -/
def FieldType.slotsWord (t : FieldType) : UInt64 := if t.isWide then 2 else 1

theorem FieldType.toNat_slotsWord (t : FieldType) : t.slotsWord.toNat = t.slots := by
  rw [slotsWord, slots]
  split <;> rfl

/-- A word with the slots of some types added to it one after another, unless
a sum on the way is no word. -/
def addSlots? (first : UInt64) (types : List FieldType) : Option UInt64 :=
  types.foldlM (fun sum t => addWords? sum t.slotsWord) first

theorem addSlots?_eq_some {types : List FieldType} {first : UInt64} {n : Nat}
    (hsum : first.toNat + types.foldr (fun t n => t.slots + n) 0 = n) (hn : n < 2 ^ 64) :
    ∃ w, addSlots? first types = some w ∧ w.toNat = n := by
  induction types generalizing first with
  | nil => exact ⟨first, rfl, hsum⟩
  | cons t types ih =>
      rw [List.foldr_cons, ← Nat.add_assoc] at hsum
      -- the sum so far is below the whole sum
      have hlt : first.toNat + t.slots < 2 ^ 64 := by omega
      have hfirst : first.toNat + t.slotsWord.toNat = first.toNat + t.slots := by
        rw [t.toNat_slotsWord]
      obtain ⟨next, hnext, hslots⟩ := addWords?_eq_some hfirst hlt
      rw [← hslots] at hsum
      obtain ⟨w, hw, hwn⟩ := ih hsum
      refine ⟨w, ?_, hwn⟩
      rw [addSlots?, List.foldlM_cons, hnext]
      exact hw

/-- The slots of the parameters, added up in words. -/
def MethodDescriptor.argSlotsWord? (d : MethodDescriptor) : Option UInt64 :=
  addSlots? 0 d.parameters

/-- The slots of the parameters and of the receiver, added up in words. -/
def Method.actualArgSlotsWord? (m : Method) : Option UInt64 := do
  let slots ← m.parsedDescriptor.argSlotsWord?
  if m.isStatic then some slots else addWords? slots 1

/-- The most bytes that a text can have. -/
def maxTextBytes : Nat := 2 ^ 63 - 1

open Descriptor

theorem MethodDescriptor.argSlotsWord?_eq_some {s : String} {d : MethodDescriptor}
    (h : parse s = .ok d) (hsize : s.utf8ByteSize ≤ maxTextBytes) :
    (∃ w, d.argSlotsWord? = some w ∧ w.toNat = d.argSlots) ∧ d.argSlots + 1 < 2 ^ 64 := by
  obtain ⟨-, hslots⟩ := slots_le_of_parse h
  have hlt : d.argSlots + 1 < 2 ^ 64 := by
    rw [maxTextBytes] at hsize
    omega
  refine ⟨addSlots?_eq_some (n := d.argSlots) ?_ ?_, hlt⟩
  · exact Nat.zero_add _
  · omega

/-- Whatever the flags of a method are, its slots can be added up. -/
theorem Method.actualArgSlotsWord?_eq_some {m : Method}
    (h : MethodDescriptor.parse m.descriptor = .ok m.parsedDescriptor)
    (hsize : m.descriptor.utf8ByteSize ≤ maxTextBytes) :
    ∃ w, m.actualArgSlotsWord? = some w ∧ w.toNat = m.actualArgSlots := by
  obtain ⟨⟨slots, hslots, hcount⟩, hlt⟩ := MethodDescriptor.argSlotsWord?_eq_some h hsize
  simp only [actualArgSlotsWord?, actualArgSlots, argSlots, hslots, Option.bind_eq_bind,
    Option.bind_some]
  cases m.isStatic with
  | true => exact ⟨slots, rfl, hcount⟩
  | false => exact addWords?_eq_some (by rw [hcount]; rfl) hlt

namespace Area

/-- A method that exists has the types of its own descriptor. -/
theorem Reachable.parse_descriptor {a : Area} (h : Reachable a) {c : Class} {m : Method}
    (hc : c ∈ a.classes) (hm : m ∈ c.methods) :
    MethodDescriptor.parse m.descriptor = .ok m.parsedDescriptor := by
  have hsound := h.sound_descriptors
  obtain ⟨ops, rfl⟩ := h
  exact hsound.parse_of_gives (gives_of_mem_allGiven (mem_allGiven_of_method (.inr hc) hm))

end Area

/-- The slots of the parameters of a method are those that one pass over the
text of its descriptor counts, which are two at most for each byte after
the first three.  So neither they nor the slots with the receiver are too
many for a word, and no sum on the way is, whatever the flags of the method
are. -/
theorem argument_slots_scanned :
    (∀ s d, MethodDescriptor.parse s = .ok d →
      d.argSlots = SlotCount.ofText s ∧
      3 ≤ s.utf8ByteSize ∧ d.argSlots ≤ 2 * (s.utf8ByteSize - 3) ∧
      (s.utf8ByteSize ≤ maxTextBytes →
        ∃ w, d.argSlotsWord? = some w ∧ w.toNat = d.argSlots)) ∧
    (∀ a, Area.Reachable a → ∀ c ∈ a.classes, ∀ m ∈ c.methods,
      MethodDescriptor.parse m.descriptor = .ok m.parsedDescriptor ∧
      m.actualArgSlots = SlotCount.ofText m.descriptor + (if m.isStatic then 0 else 1) ∧
      (m.descriptor.utf8ByteSize ≤ maxTextBytes →
        ∃ w, m.actualArgSlotsWord? = some w ∧ w.toNat = m.actualArgSlots)) := by
  refine ⟨?_, ?_⟩
  · intro s d h
    obtain ⟨hthree, hslots⟩ := MethodDescriptor.slots_le_of_parse h
    exact ⟨MethodDescriptor.argSlots_eq_ofText h, hthree, hslots,
      fun hsize => (MethodDescriptor.argSlotsWord?_eq_some h hsize).1⟩
  · intro a ha c hc m hm
    have hparse := ha.parse_descriptor hc hm
    refine ⟨hparse, ?_, Method.actualArgSlotsWord?_eq_some hparse⟩
    rw [← MethodDescriptor.argSlots_eq_ofText hparse, Method.actualArgSlots, Method.argSlots]
    split
    · rfl
    · rfl

/-- A class with an instance method that takes a long, an array, an object and
a byte is loaded. -/
def Area.loadWideAndNested : List Operation :=
  [.load "A" (classWithMethods "(J[DLJ(D);B)D") none []]

/-- A long counts twice where it is a parameter, and once in an array; what is
in a class name does not count, and neither does the result. -/
theorem argument_slots_scanned_marks_in_name :
    (∃ d, MethodDescriptor.parse "(J[DLJ(D);B)D" = .ok d ∧ d.argSlots = 5 ∧
      SlotCount.ofText "(J[DLJ(D);B)D" = 5 ∧ d.argSlots ≤ 2 * ("(J[DLJ(D);B)D".utf8ByteSize - 3) ∧
      "(J[DLJ(D);B)D".utf8ByteSize ≤ maxTextBytes ∧
      ∃ w, d.argSlotsWord? = some w ∧ w.toNat = 5) ∧
    ∃ a c m, Area.Reachable a ∧ c ∈ a.classes ∧ m ∈ c.methods ∧
      m.descriptor = "(J[DLJ(D);B)D" ∧ m.isStatic = false ∧ m.actualArgSlots = 6 ∧
      ∃ w, m.actualArgSlotsWord? = some w ∧ w.toNat = 6 := by
  have hscanned : SlotCount.ofText "(J[DLJ(D);B)D" = 5 := by cbv
  have hsize : "(J[DLJ(D);B)D".utf8ByteSize ≤ maxTextBytes := by decide
  obtain ⟨hparsed, hloaded⟩ := argument_slots_scanned
  constructor
  · have hparse : MethodDescriptor.parse "(J[DLJ(D);B)D" =
        .ok ⟨[.base .long, .array (.base .double), .object "J(D)", .base .byte],
          some (.base .double)⟩ := by cbv
    obtain ⟨hslots, -, hle, hword⟩ := hparsed _ _ hparse
    rw [hscanned] at hslots
    exact ⟨_, hparse, hslots, hscanned, hle, hsize, hslots ▸ hword hsize⟩
  · have hview : (Area.run Area.empty Area.loadWideAndNested).classes.map
        (fun c => c.methods.map (fun m => (m.descriptor, m.isStatic))) =
        [[("()V", false), ("(J[DLJ(D);B)D", false)]] := by cbv
    obtain ⟨c, hclasses, hmethods⟩ := List.map_eq_singleton_iff.1 hview
    obtain ⟨first, rest, hmethods, -, hrest⟩ := List.map_eq_cons_iff.1 hmethods
    obtain ⟨m, rfl, hm⟩ := List.map_eq_singleton_iff.1 hrest
    obtain ⟨hdescriptor, hstatic⟩ := Prod.mk.inj hm
    have hreach : Area.Reachable (Area.run Area.empty Area.loadWideAndNested) := ⟨_, rfl⟩
    have hc : c ∈ (Area.run Area.empty Area.loadWideAndNested).classes := by simp [hclasses]
    have hmem : m ∈ c.methods := by simp [hmethods]
    obtain ⟨-, hslots, hword⟩ := hloaded _ hreach c hc m hmem
    rw [hdescriptor, hscanned, hstatic] at hslots
    rw [hdescriptor, hslots] at hword
    exact ⟨_, c, m, hreach, hc, hmem, hdescriptor, hstatic, hslots, hword hsize⟩

end MethodArea
