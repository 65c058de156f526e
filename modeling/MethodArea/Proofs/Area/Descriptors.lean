/-
# `Proofs.Area.Descriptors` — interned descriptors are those that parsing gives

An interner holds a descriptor with what parsing it gives (`Sound`), and it
holds no text twice (`Distinct`).  As long as it does, interning a text
answers what parsing it does (`Sound.map_intern`), whether or not the text
was seen before, and two texts get the same identity only if they are the
same (`Distinct.id_eq_iff`).  An interner also never loses anything: what it
gives for a text (`Gives`) it gives for good.

Loading a class goes from one interner to the next by interning one text at
a time.  So what interning keeps, loading keeps, and with it every operation
(`step_keeps_descriptors`).
-/
import Mathlib.Data.List.Nodup
import MethodArea.Area.Run
import MethodArea.Proofs.Area.Order

namespace MethodArea

namespace Interner

/-- Every text stands with what parsing it gives. -/
def Sound (s : Interner) : Prop := ∀ e ∈ s.entries, MethodDescriptor.parse e.1 = .ok e.2

theorem sound_empty : empty.Sound := fun _ h => absurd h List.not_mem_nil

/-- An interner gives a shared value for a text. -/
def Gives (s : Interner) (descriptor : String) (shared : SharedDescriptor) : Prop :=
  s.entries[shared.id]? = some (descriptor, shared.value)

theorem gives_of_find? {s : Interner} {descriptor : String} {shared : SharedDescriptor}
    (h : s.find? descriptor = some shared) : s.Gives descriptor shared := by
  obtain ⟨id, hid, hfind⟩ := Option.bind_eq_some_iff.1 h
  obtain ⟨entry, hentry, hfind⟩ := Option.bind_eq_some_iff.1 hfind
  cases hfind
  obtain ⟨hlt, htext, -⟩ := List.findIdx?_eq_some_iff_getElem.1 hid
  obtain ⟨-, rfl⟩ := List.getElem?_eq_some_iff.1 hentry
  have htext : s.entries[id].1 = descriptor := of_decide_eq_true htext
  rw [Gives, List.getElem?_eq_getElem hlt, ← htext]

theorem Sound.parse_of_gives {s : Interner} (h : s.Sound) {descriptor : String}
    {shared : SharedDescriptor} (hgives : s.Gives descriptor shared) :
    MethodDescriptor.parse descriptor = .ok shared.value :=
  h _ (List.mem_of_getElem? hgives)

/-- Interning answers what parsing does. -/
theorem Sound.map_intern {s : Interner} (h : s.Sound) (descriptor : String) :
    SharedDescriptor.value <$> (s.intern descriptor).1 = MethodDescriptor.parse descriptor := by
  rw [intern]
  split
  · next shared hfind =>
      rw [h.parse_of_gives (gives_of_find? hfind)]
      rfl
  · split
    · next value hparse =>
        rw [hparse]
        rfl
    · next e hparse =>
        rw [hparse]
        rfl

theorem Sound.intern {s : Interner} (h : s.Sound) (descriptor : String) :
    (s.intern descriptor).2.Sound := by
  rw [Interner.intern]
  split
  · exact h
  · split
    · next value hparse =>
        intro e he
        rcases List.mem_append.1 he with he | he
        · exact h e he
        · rw [List.mem_singleton.1 he]
          exact hparse
    · exact h

/-! ## Identities -/

/-- No text stands twice. -/
def Distinct (s : Interner) : Prop := (s.entries.map Prod.fst).Nodup

theorem distinct_empty : empty.Distinct := .nil

theorem Gives.mono {s s' : Interner} {descriptor : String} {shared : SharedDescriptor}
    (h : s.Gives descriptor shared) (hextends : s.entries <+: s'.entries) :
    s'.Gives descriptor shared := by
  obtain ⟨more, hmore⟩ := hextends
  have hlt : shared.id < s.entries.length := (List.getElem?_eq_some_iff.1 h).1
  rw [Gives, ← hmore, List.getElem?_append_left hlt, h]

theorem prefix_intern (s : Interner) (descriptor : String) :
    s.entries <+: (s.intern descriptor).2.entries := by
  rw [intern]
  split
  · exact List.prefix_refl _
  · split
    · exact List.prefix_append _ _
    · exact List.prefix_refl _

/-- What interning answers is what the interner gives from then on. -/
theorem gives_intern {s s' : Interner} {descriptor : String} {shared : SharedDescriptor}
    (h : s.intern descriptor = (.ok shared, s')) : s'.Gives descriptor shared := by
  rw [intern] at h
  split at h
  · next hfind =>
      cases h
      exact gives_of_find? hfind
  · split at h
    · cases h
      exact List.getElem?_concat_length
    · cases h

/-- A text that is refused leaves nothing behind. -/
theorem intern_eq_error {s s' : Interner} {descriptor : String} {e : Error}
    (h : s.intern descriptor = (.error e, s')) : s' = s := by
  rw [intern] at h
  split at h
  · cases h
  · split at h
    · cases h
    · cases h
      rfl

theorem Distinct.intern {s : Interner} (h : s.Distinct) (descriptor : String) :
    (s.intern descriptor).2.Distinct := by
  rw [Interner.intern]
  split
  · exact h
  · next hnone =>
      split
      · have hnew : descriptor ∉ s.entries.map Prod.fst := by
          intro hmem
          obtain ⟨e, he, rfl⟩ := List.mem_map.1 hmem
          have hfound : (s.entries.findIdx? (fun d => d.1 = e.1)).isSome = true := by
            rw [List.findIdx?_isSome, List.any_eq_true]
            exact ⟨e, he, decide_eq_true rfl⟩
          obtain ⟨i, hi⟩ := Option.isSome_iff_exists.1 hfound
          have hlt := (List.findIdx?_eq_some_iff_getElem.1 hi).1
          simp [find?, hi, List.getElem?_eq_getElem hlt] at hnone
        rw [Distinct, List.map_append]
        refine List.nodup_append.2 ⟨h, List.nodup_singleton _, ?_⟩
        intro text htext other hother heq
        rw [heq, List.mem_singleton.1 hother] at htext
        exact hnew htext
      · exact h

/-- Two texts have one identity only if they are one text. -/
theorem Distinct.id_eq_iff {s : Interner} (h : s.Distinct) {descriptor descriptor' : String}
    {shared shared' : SharedDescriptor} (hgives : s.Gives descriptor shared)
    (hgives' : s.Gives descriptor' shared') :
    shared.id = shared'.id ↔ descriptor = descriptor' := by
  constructor
  · intro hid
    rw [Gives, hid, hgives'] at hgives
    exact (congrArg Prod.fst (Option.some.inj hgives)).symm
  · rintro rfl
    have hlt : shared.id < (s.entries.map Prod.fst).length := by
      rw [List.length_map]
      exact (List.getElem?_eq_some_iff.1 hgives).1
    refine (List.getElem?_inj hlt h).1 ?_
    rw [List.getElem?_map, List.getElem?_map, hgives, hgives']
    rfl

end Interner

/-! ## What interning keeps -/

section Keeps

variable {P : Interner → Prop} (hintern : ∀ s descriptor, P s → P (s.intern descriptor).2)
include hintern

theorem Method.load_keeps {pool : ConstantPool} {className : String}
    {info : MemberInfo} {s s' : Interner} {result : Except Error Method} (h : P s)
    (hs : load pool className info s = (result, s')) : P s' := by
  rw [load] at hs
  split at hs
  · cases hs
    exact h
  · next member attributes _ =>
      have hkept := hintern s member.descriptor h
      split at hs
      · next heq =>
          cases hs
          rwa [heq] at hkept
      · next heq =>
          cases hs
          rwa [heq] at hkept

theorem Method.loadAll_keeps {pool : ConstantPool} {className : String}
    {infos : List MemberInfo} {s s' : Interner} {result : Except Error (List Method)} (h : P s)
    (hs : loadAll pool className infos s = (result, s')) : P s' := by
  induction infos generalizing s result with
  | nil =>
      cases hs
      exact h
  | cons info infos ih =>
      rw [loadAll] at hs
      split at hs
      · next hload =>
          cases hs
          exact load_keeps hintern h hload
      · next hload =>
          split at hs
          · next hrest =>
              cases hs
              exact ih (load_keeps hintern h hload) hrest
          · next hrest =>
              cases hs
              exact ih (load_keeps hintern h hload) hrest

theorem Class.load_keeps {id : ClassId} {file : ClassFile} {superClass : Option ClassId}
    {interfaces : List ClassId} {s s' : Interner} {result : Except Error Class} (h : P s)
    (hs : load id file superClass interfaces s = (result, s')) : P s' := by
  rw [load] at hs
  split at hs
  · cases hs
    exact h
  · split at hs
    · next hall =>
        cases hs
        exact Method.loadAll_keeps hintern h hall
    · next hall =>
        cases hs
        exact Method.loadAll_keeps hintern h hall

theorem Area.Leaves.keeps_descriptors {a b : Area} (hb : a.Leaves b) (h : P a.descriptors) :
    P b.descriptors := by
  cases hb with
  | interned descriptor => exact hintern a.descriptors descriptor h
  | refused hload => exact Class.load_keeps hintern h hload
  | added _ hload =>
      obtain ⟨_, _, -, heq⟩ := add_eq _ _ _
      rw [heq]
      exact Class.load_keeps hintern h hload
  | held _ =>
      obtain ⟨_, _, -, heq⟩ := assign_eq _ _ _
      rw [heq]
      exact h
  | unchanged | unloaded _ | changed _ _ _ | registered _ _ => exact h

theorem Area.step_keeps_descriptors {a : Area} (h : P a.descriptors) (op : Operation) :
    P (a.step op).2.descriptors :=
  (a.leaves_step op).keeps_descriptors hintern h

end Keeps

theorem Method.sound_load {pool : ConstantPool} {className : String}
    {info : MemberInfo} {s s' : Interner} {result : Except Error Method} (h : s.Sound)
    (hs : load pool className info s = (result, s')) : s'.Sound :=
  load_keeps (fun _ descriptor h => h.intern descriptor) h hs

namespace Area

theorem Reachable.sound_descriptors {a : Area} (h : Reachable a) : a.descriptors.Sound := by
  obtain ⟨ops, rfl⟩ := h
  refine run_keeps (P := fun a => a.descriptors.Sound) ?_ ops Interner.sound_empty
  exact fun a op h => step_keeps_descriptors (fun _ descriptor h => h.intern descriptor) h op

theorem Reachable.distinct_descriptors {a : Area} (h : Reachable a) :
    a.descriptors.Distinct := by
  obtain ⟨ops, rfl⟩ := h
  refine run_keeps (P := fun a => a.descriptors.Distinct) ?_ ops Interner.distinct_empty
  exact fun a op h => step_keeps_descriptors (fun _ descriptor h => h.intern descriptor) h op

/-- Nothing that is interned is lost. -/
theorem prefix_descriptors_step (a : Area) (op : Operation) :
    a.descriptors.entries <+: (a.step op).2.descriptors.entries :=
  step_keeps_descriptors (P := fun s => a.descriptors.entries <+: s.entries)
    (fun s descriptor h => h.trans (s.prefix_intern descriptor)) (List.prefix_refl _) op

end Area

end MethodArea
