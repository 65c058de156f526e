/-
# `Proofs.Attribute.Rearranged` — what decoding sees of the order of attributes

What attributes are decoded to is told apart by name, and the attributes of
one name keep their order.  Lists of attributes are as good as each other

    if they have the same payloads under each recognised name, in the same
      order (`SamePayloads`): attributes of different names may change
      places, and those without a recognised name may come and go;
    if they differ in one `Code` attribute, and this in nothing but the
      list inside it, where these lists are as good as each other,

and `Rearranged` is the closure of the two.  Rearranged lists are decoded
alike (`Rearranged.alike`): either both fail, or what they are decoded to
says the same to a member (`SaySame`).  The same attributes they are not,
since a `Code` attribute keeps the list inside it in order.  Which defect is
met first may differ, so errors are left out.
-/
import Mathlib
import MethodArea.Proofs.Attribute.Decoded
import MethodArea.Proofs.Method.Effect

namespace MethodArea

open Attribute

namespace Attribute

/-! ## Name by name -/

/-- The attributes of each name, in order. -/
def byName (attributes : List Attribute) (name : AttributeName) : List Attribute :=
  attributes.filter (fun d => d.name? = some name)

/-- What only attributes of some names say can be read off these. -/
theorem filterMap_filter_name {α : Type} {look : Attribute → Option α}
    {p : Option AttributeName → Bool} (hlook : ∀ d, p d.name? = false → look d = none)
    (ds : List Attribute) :
    (ds.filter (fun d => p d.name?)).filterMap look = ds.filterMap look := by
  rw [List.filterMap_filter]
  refine List.filterMap_congr fun d _ => ?_
  split
  · rfl
  · next hname => exact (hlook d (by simpa using hname)).symm

theorem filterMap_byName {α : Type} {look : Attribute → Option α} {name : AttributeName}
    (hlook : ∀ d, d.name? ≠ some name → look d = none) (ds : List Attribute) :
    (byName ds name).filterMap look = ds.filterMap look :=
  filterMap_filter_name (p := (· = some name)) (fun d hd => hlook d (of_decide_eq_false hd)) ds

/-! ## What attributes say -/

/-- The body that an attribute gives to a method. -/
def body? (method : MethodRef) (pool : ConstantPool) (d : Attribute) : Option (Except Error Body) :=
  d.code?.map (Body.ofCode method pool)

/-- What members read off their attributes, and under which name.  Code says
no more than what body it gives. -/
inductive Reading (pool : ConstantPool) : (α : Type) → AttributeName → (Attribute → Option α) → Prop
  | body (method : MethodRef) : Reading pool _ .code (body? method pool)
  | lineRows : Reading pool _ .lineNumberTable lineRows?
  | exceptions : Reading pool _ .exceptions exceptions?
  | signature : Reading pool _ .signature signature?
  | constantValue : Reading pool _ .constantValue constantValue?
  | annotations : Reading pool _ .annotations annotations?
  | parameterAnnotations : Reading pool _ .parameterAnnotations parameterAnnotations?
  | annotationDefault : Reading pool _ .annotationDefault annotationDefault?

/-- Attributes of other names say nothing to a reading. -/
theorem Reading.eq_none {pool : ConstantPool} {α : Type} {name : AttributeName}
    {look : Attribute → Option α} (h : Reading pool α name look) (d : Attribute)
    (hname : d.name? ≠ some name) : look d = none := by
  cases h with
  | body method | lineRows | exceptions | signature | constantValue | annotations
  | parameterAnnotations | annotationDefault =>
      cases d <;> first | rfl | exact absurd rfl hname

/-- Attributes that say the same, each kind of thing in the same order. -/
def SaySame (pool : ConstantPool) (ds es : List Attribute) : Prop :=
  ∀ {α : Type} {name : AttributeName} {look : Attribute → Option α}, Reading pool α name look →
    ds.filterMap look = es.filterMap look

namespace SaySame

variable {pool : ConstantPool} {ds es fs : List Attribute}

theorem trans (h : SaySame pool ds es) (h' : SaySame pool es fs) : SaySame pool ds fs :=
  fun hlook => (h hlook).trans (h' hlook)

/-- Each kind of thing is said by the attributes of one name. -/
theorem of_byName (h : byName ds = byName es) : SaySame pool ds es := by
  intro α name look hlook
  rw [← filterMap_byName hlook.eq_none ds, h, filterMap_byName hlook.eq_none es]

/-- Two attributes that say the same do so between others. -/
theorem between {d e : Attribute} (h : SaySame pool [d] [e]) (before after : List Attribute) :
    SaySame pool (before ++ d :: after) (before ++ e :: after) := by
  intro α name look hlook
  have hsame := h hlook
  rw [List.append_cons before d, List.append_cons before e]
  simp only [List.filterMap_append, hsame]

theorem allLineRows?_eq (h : SaySame pool ds es) : allLineRows? ds = allLineRows? es := by
  rw [allLineRows?, allLineRows?, h .lineRows]

/-- The line number tables are all that code takes from the attributes inside
it. -/
theorem ofFrame (h : SaySame pool ds es) (frame : CodeFrame) (attributes : List AttributeInfo) :
    SaySame pool [ofFrame frame ds] [ofFrame { frame with attributes } es] := by
  intro α name look hlook
  cases hlook with
  | body method =>
      have hbody : body? method pool (Attribute.ofFrame frame ds) =
          body? method pool (Attribute.ofFrame { frame with attributes } es) := by
        simp only [body?, Attribute.ofFrame, code?, Option.map_some, Body.ofCode, h.allLineRows?_eq]
      rw [List.filterMap_cons, List.filterMap_cons, hbody]
  | lineRows | exceptions | signature | constantValue | annotations | parameterAnnotations
  | annotationDefault => rfl

end SaySame

/-- Lists that are decoded alike: both fail, or what they are decoded to says
the same. -/
inductive Alike (pool : ConstantPool) (xs ys : List AttributeInfo) : Prop
  | failing {e e' : Error} : decodeAll pool xs = .error e → decodeAll pool ys = .error e' →
      Alike pool xs ys
  | decoded {ds es : List Attribute} : decodeAll pool xs = .ok ds → decodeAll pool ys = .ok es →
      SaySame pool ds es → Alike pool xs ys

theorem Alike.trans {pool : ConstantPool} {xs ys zs : List AttributeInfo} (h : Alike pool xs ys)
    (h' : Alike pool ys zs) : Alike pool xs zs := by
  cases h with
  | failing hxs hys =>
      cases h' with
      | failing _ hzs => exact .failing hxs hzs
      | decoded hys' _ _ =>
          rw [hys] at hys'
          cases hys'
  | decoded hxs hys hsame =>
      cases h' with
      | failing hys' _ =>
          rw [hys] at hys'
          cases hys'
      | decoded hys' hzs hsame' =>
          cases hys.symm.trans hys'
          exact .decoded hxs hzs (hsame.trans hsame')

theorem decodeAll_between {pool : ConstantPool} {before after : List AttributeInfo}
    {a : AttributeInfo} :
    decodeAll pool (before ++ a :: after) = (do
      let ds ← decodeAll pool before
      let d ← decode pool a
      let es ← decodeAll pool after
      pure (ds ++ d :: es)) := by
  simp only [decodeAll, List.mapM_append, List.mapM_cons, bind_assoc, pure_bind]

/-- Lists that differ in one attribute are decoded alike if this one is. -/
theorem Alike.between {pool : ConstantPool} {a b : AttributeInfo} (h : Alike pool [a] [b])
    (before after : List AttributeInfo) :
    Alike pool (before ++ a :: after) (before ++ b :: after) := by
  cases hbefore : decodeAll pool before with
  | error e =>
      have hfails : ∀ c, decodeAll pool (before ++ c :: after) = .error e := by
        intro c
        rw [decodeAll_between, hbefore]
        rfl
      exact .failing (hfails a) (hfails b)
  | ok ds =>
      cases h with
      | @failing e e' ha hb =>
          have hfails : ∀ {c e}, decodeAll pool [c] = .error e →
              decodeAll pool (before ++ c :: after) = .error e := by
            intro c e hc
            rw [decodeAll_between, hbefore, Except.mapM_singleton_eq_error_iff.1 hc]
            rfl
          exact .failing (hfails ha) (hfails hb)
      | decoded ha hb hsame =>
          obtain ⟨d, hd, rfl⟩ := Except.mapM_singleton_eq_ok_iff.1 ha
          obtain ⟨d', hd', rfl⟩ := Except.mapM_singleton_eq_ok_iff.1 hb
          cases hafter : decodeAll pool after with
          | error e =>
              have hfails : ∀ {c d}, decode pool c = .ok d →
                  decodeAll pool (before ++ c :: after) = .error e := by
                intro c d hc
                rw [decodeAll_between, hbefore, hc, hafter]
                rfl
              exact .failing (hfails hd) (hfails hd')
          | ok es =>
              have hall : ∀ {c d}, decode pool c = .ok d →
                  decodeAll pool (before ++ c :: after) = .ok (ds ++ d :: es) := by
                intro c d hc
                rw [decodeAll_between, hbefore, hc, hafter]
                rfl
              exact .decoded (hall hd) (hall hd') (hsame.between ds es)

/-! ## One name at a time -/

/-- Of the attributes of one name, the payload alone decides. -/
theorem exists_decode_eq (pool : ConstantPool) (name : AttributeName) :
    ∃ decodeInfo : List UInt8 → Except Error Attribute,
      ∀ a : AttributeInfo, a.recognised? pool = some name → decode pool a = decodeInfo a.info := by
  by_cases hany : ∃ a : AttributeInfo, a.recognised? pool = some name
  · obtain ⟨b, hb⟩ := hany
    refine ⟨fun info => decode pool ⟨b.nameIndex, info⟩, fun a ha => decode_congr ?_ rfl⟩
    exact (AttributeInfo.utf8_of_recognised? ha).trans (AttributeInfo.utf8_of_recognised? hb).symm
  · exact ⟨fun _ => .ok .unknown, fun a ha => absurd ⟨a, ha⟩ hany⟩

/-- Leaving out attributes by name is the same before decoding and after it. -/
theorem decodeAll_filter {pool : ConstantPool} {xs : List AttributeInfo} {ds : List Attribute}
    (h : decodeAll pool xs = .ok ds) (p : Option AttributeName → Bool) :
    decodeAll pool (xs.filter (fun a => p (a.recognised? pool))) =
      .ok (ds.filter (fun d => p d.name?)) := by
  refine Except.mapM_eq_ok_iff_forall₂.2 ?_
  refine List.rel_filter (fun a d hd => ?_) (Except.mapM_eq_ok_iff_forall₂.1 h)
  show p (a.recognised? pool) = true ↔ p d.name? = true
  rw [(decoded_of_decode hd).name?_eq]

/-- The attributes of one name are what the entries of this name are decoded
to. -/
theorem decodeAll_byName {pool : ConstantPool} {xs : List AttributeInfo} {ds : List Attribute}
    (h : decodeAll pool xs = .ok ds) (name : AttributeName) :
    decodeAll pool (xs.filter (fun a => a.recognised? pool = some name)) =
      .ok (byName ds name) :=
  decodeAll_filter h (· = some name)

/-- An attribute whose name is a text that is not recognised says nothing. -/
theorem decode_of_not_recognised {pool : ConstantPool} {a : AttributeInfo} {text : String}
    (htext : pool.utf8 a.nameIndex = .ok text) (h : a.recognised? pool = none) :
    decode pool a = .ok .unknown := by
  rw [AttributeInfo.recognised?_of_utf8 htext] at h
  rw [decode, htext, Except.ok_bind, h]
  rfl

end Attribute

namespace AttributeInfo

/-- The name of an attribute is a text. -/
def HasName (pool : ConstantPool) (a : AttributeInfo) : Prop :=
  ∃ text, pool.utf8 a.nameIndex = .ok text

/-- The payloads of the attributes of a name, in order. -/
def payloads (pool : ConstantPool) (name : AttributeName) (attributes : List AttributeInfo) :
    List (List UInt8) :=
  (attributes.filter (fun a => a.recognised? pool = some name)).map AttributeInfo.info

/-- Attributes with the same payloads in the same order under each recognised
name. -/
structure SamePayloads (pool : ConstantPool) (xs ys : List AttributeInfo) : Prop where
  left_named : ∀ a ∈ xs, a.HasName pool
  right_named : ∀ b ∈ ys, b.HasName pool
  payloads_eq : ∀ name, payloads pool name xs = payloads pool name ys

/-- Attributes that are as good as others: by their payloads, or up to the
attributes inside one that is code. -/
inductive Rearranged (pool : ConstantPool) : List AttributeInfo → List AttributeInfo → Prop
  | samePayloads {xs ys : List AttributeInfo} : SamePayloads pool xs ys → Rearranged pool xs ys
  | nested {before after : List AttributeInfo} {a b : AttributeInfo} {frame : CodeFrame}
      {attributes : List AttributeInfo} :
      a.recognised? pool = some .code → b.recognised? pool = some .code →
      codeFrame? a.info = some frame → codeFrame? b.info = some { frame with attributes } →
      Rearranged pool frame.attributes attributes →
      Rearranged pool (before ++ a :: after) (before ++ b :: after)
  | trans {xs ys zs : List AttributeInfo} :
      Rearranged pool xs ys → Rearranged pool ys zs → Rearranged pool xs zs

theorem SamePayloads.symm {pool : ConstantPool} {xs ys : List AttributeInfo}
    (h : SamePayloads pool xs ys) : SamePayloads pool ys xs :=
  ⟨h.right_named, h.left_named, fun name => (h.payloads_eq name).symm⟩

theorem Rearranged.symm {pool : ConstantPool} {xs ys : List AttributeInfo}
    (h : Rearranged pool xs ys) : Rearranged pool ys xs := by
  induction h with
  | samePayloads h => exact .samePayloads h.symm
  | nested ha hb hframe hframe' _ ih => exact .nested hb ha hframe' hframe ih
  | trans _ _ ih₁ ih₂ => exact .trans ih₂ ih₁

/-! ## Changing places, coming and going -/

theorem payloads_cons (pool : ConstantPool) (name : AttributeName) (a : AttributeInfo)
    (attributes : List AttributeInfo) :
    payloads pool name (a :: attributes) =
      if a.recognised? pool = some name then a.info :: payloads pool name attributes
      else payloads pool name attributes := by
  rw [payloads, List.filter_cons]
  by_cases hname : a.recognised? pool = some name
  · rw [if_pos (decide_eq_true hname), if_pos hname]
    rfl
  · rw [if_neg (by simpa using hname), if_neg hname]
    rfl

theorem payloads_append (pool : ConstantPool) (name : AttributeName)
    (before after : List AttributeInfo) :
    payloads pool name (before ++ after) =
      payloads pool name before ++ payloads pool name after := by
  rw [payloads, List.filter_append, List.map_append]
  rfl

/-- Neighbours of different names may change places. -/
theorem Rearranged.swap {pool : ConstantPool} {before after : List AttributeInfo}
    {a b : AttributeInfo} (hnamed : ∀ c ∈ before ++ a :: b :: after, c.HasName pool)
    (hne : pool.utf8 a.nameIndex ≠ pool.utf8 b.nameIndex) :
    Rearranged pool (before ++ a :: b :: after) (before ++ b :: a :: after) := by
  have hperm : (before ++ b :: a :: after).Perm (before ++ a :: b :: after) :=
    (List.Perm.swap a b after).append_left before
  refine .samePayloads ⟨hnamed, fun c hc => hnamed c (hperm.mem_iff.1 hc), fun name => ?_⟩
  simp only [payloads_append, payloads_cons]
  by_cases ha : a.recognised? pool = some name
  · have hb : b.recognised? pool ≠ some name := fun hb =>
      hne ((utf8_of_recognised? ha).trans (utf8_of_recognised? hb).symm)
    rw [if_neg hb, if_neg hb]
  · rw [if_neg ha, if_neg ha]

/-- An attribute whose name is a text that is not recognised may go, and come
back anywhere. -/
theorem Rearranged.drop {pool : ConstantPool} {before after : List AttributeInfo}
    {a : AttributeInfo} (hnamed : ∀ c ∈ before ++ a :: after, c.HasName pool)
    (hname : a.recognised? pool = none) :
    Rearranged pool (before ++ a :: after) (before ++ after) := by
  have hsub : (before ++ after).Sublist (before ++ a :: after) :=
    (List.sublist_cons_self a after).append_left before
  refine .samePayloads ⟨hnamed, fun c hc => hnamed c (hsub.subset hc), fun name => ?_⟩
  rw [payloads_append, payloads_append, payloads_cons, hname,
    if_neg (Option.some_ne_none name).symm]

/-! ## Rearranged attributes are decoded alike -/

namespace SamePayloads

variable {pool : ConstantPool} {xs ys : List AttributeInfo}

/-- The attributes of one name are decoded alike. -/
theorem map_decode_eq (h : SamePayloads pool xs ys) (name : AttributeName) :
    (xs.filter (fun a => a.recognised? pool = some name)).map (decode pool) =
      (ys.filter (fun a => a.recognised? pool = some name)).map (decode pool) := by
  obtain ⟨decodeInfo, hdecode⟩ := exists_decode_eq pool name
  have hmap : ∀ zs : List AttributeInfo,
      (zs.filter (fun a => a.recognised? pool = some name)).map (decode pool) =
        (payloads pool name zs).map decodeInfo := by
    intro zs
    rw [payloads, List.map_map]
    exact List.map_congr_left fun a ha => hdecode a (by simpa using List.of_mem_filter ha)
  rw [hmap, hmap, h.payloads_eq]

/-- Where the attributes of one list are right, so are those of the other,
which come to the same name by name. -/
theorem exists_decodeAll (h : SamePayloads pool xs ys) {ds : List Attribute}
    (hds : decodeAll pool xs = .ok ds) :
    ∃ es, decodeAll pool ys = .ok es ∧ byName es = byName ds := by
  have hright : ∀ b ∈ ys, ∃ d, decode pool b = .ok d := by
    intro b hb
    cases hname : b.recognised? pool with
    | none =>
        obtain ⟨text, htext⟩ := h.right_named b hb
        exact ⟨_, decode_of_not_recognised htext hname⟩
    | some name =>
        -- an attribute of the other list is decoded to the same
        have hmem : decode pool b ∈
            (xs.filter (fun a => a.recognised? pool = some name)).map (decode pool) := by
          rw [h.map_decode_eq name]
          exact List.mem_map_of_mem (List.mem_filter.2 ⟨hb, decide_eq_true hname⟩)
        obtain ⟨a, ha, hdecode⟩ := List.mem_map.1 hmem
        rw [← hdecode]
        exact Except.exists_mapM_iff.1 ⟨ds, hds⟩ a (List.mem_of_mem_filter ha)
  obtain ⟨es, hes⟩ := Except.exists_mapM_iff.2 hright
  refine ⟨es, hes, funext fun name => ?_⟩
  have hok : Function.Injective (Except.ok : Attribute → Except Error Attribute) :=
    fun _ _ => Except.ok.inj
  refine List.map_injective_iff.2 hok ?_
  rw [← Except.mapM_eq_ok_iff.1 (decodeAll_byName hes name),
    ← Except.mapM_eq_ok_iff.1 (decodeAll_byName hds name), h.map_decode_eq]

theorem alike (h : SamePayloads pool xs ys) : Alike pool xs ys := by
  cases hxs : decodeAll pool xs with
  | ok ds =>
      obtain ⟨es, hes, hsame⟩ := h.exists_decodeAll hxs
      exact .decoded hxs hes (SaySame.of_byName hsame.symm)
  | error e =>
      cases hys : decodeAll pool ys with
      | error e' => exact .failing hxs hys
      | ok es =>
          obtain ⟨ds, hds, -⟩ := h.symm.exists_decodeAll hys
          rw [hxs] at hds
          cases hds

end SamePayloads

/-- Two attributes that are code are decoded alike if they differ in nothing
but the lists inside them, and these are decoded alike. -/
theorem alike_code {pool : ConstantPool} {a b : AttributeInfo} {frame : CodeFrame}
    {attributes : List AttributeInfo} (ha : a.recognised? pool = some .code)
    (hb : b.recognised? pool = some .code) (hframe : codeFrame? a.info = some frame)
    (hframe' : codeFrame? b.info = some { frame with attributes })
    (h : Alike pool frame.attributes attributes) : Alike pool [a] [b] := by
  have hleft := decode_of_codeFrame? ha hframe
  have hright := decode_of_codeFrame? hb hframe'
  cases h with
  | failing hxs hys =>
      rw [hxs] at hleft
      rw [hys] at hright
      exact .failing (Except.mapM_singleton_eq_error_iff.2 hleft)
        (Except.mapM_singleton_eq_error_iff.2 hright)
  | decoded hxs hys hsame =>
      rw [hxs] at hleft
      rw [hys] at hright
      exact .decoded (Except.mapM_singleton_eq_ok_iff.2 ⟨_, hleft, rfl⟩)
        (Except.mapM_singleton_eq_ok_iff.2 ⟨_, hright, rfl⟩) (hsame.ofFrame frame attributes)

/-- Rearranged attributes are decoded alike. -/
theorem Rearranged.alike {pool : ConstantPool} {xs ys : List AttributeInfo}
    (h : Rearranged pool xs ys) : Alike pool xs ys := by
  induction h with
  | samePayloads h => exact h.alike
  | trans _ _ ih₁ ih₂ => exact ih₁.trans ih₂
  | @nested before after a b frame attributes ha hb hframe hframe' _ ih =>
      exact (alike_code ha hb hframe hframe' ih).between before after

end AttributeInfo

end MethodArea
