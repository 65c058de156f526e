/-
# `Proofs.Loading.Rearranged` — members and the order of their attributes

Methods and fields that differ in nothing but rearranged attributes load
alike: both fail, or both are the same method or field.  The attributes of
a member are decoded once, and from then on all goes by what they say
(`SaySame`):

    signature, annotations    the last one counts, for methods and fields
    initial value             the first one counts, for fields
    the rest                  by the effects on a method

What attributes of one name do to a method depends on their order among
each other, and on nothing between them; that they are not in each other's
way is `Method.foldlM_addAttribute_eq_ok_iff`.  A method whose attributes
are not right leaves no descriptor interned, whichever of them it is, so
the descriptors come out the same as well.
-/
import Mathlib
import MethodArea.Class
import MethodArea.Proofs.Attribute.Rearranged

namespace MethodArea

open Attribute

/-! ## What loading reads off attributes -/

namespace Attribute.SaySame

variable {pool : ConstantPool} {ds es : List Attribute}

theorem memberOfInfo_eq (h : SaySame pool ds es) (className : String) (info : MemberInfo)
    (xs ys : List AttributeInfo) :
    Member.ofInfo pool className { info with attributes := xs } ds =
      Member.ofInfo pool className { info with attributes := ys } es := by
  rw [Member.ofInfo, Member.ofInfo, h .signature, h .annotations]

theorem effects_eq (h : SaySame pool ds es) (method : MethodRef) :
    Effects.ofAttributes method pool ds = Effects.ofAttributes method pool es := by
  have hbodies : ∀ zs : List Attribute, (zs.filterMap code?).mapM (Body.ofCode method pool) =
      (zs.filterMap (body? method pool)).mapM id := by
    intro zs
    have hmap : zs.filterMap (body? method pool) =
        (zs.filterMap code?).map (Body.ofCode method pool) := List.map_filterMap.symm
    rw [hmap, List.mapM_map]
    rfl
  rw [Effects.ofAttributes, Effects.ofAttributes, hbodies, hbodies, h (.body method), h .exceptions,
    h .parameterAnnotations, h .annotationDefault]

/-- What attributes come to as they take effect one after the other is what
they say. -/
theorem foldlM_addAttribute_eq (h : SaySame pool ds es) (m : Method) :
    (ds.foldlM (Method.addAttribute pool) m).toOption =
      (es.foldlM (Method.addAttribute pool) m).toOption := by
  refine Except.toOption_eq_iff.2 fun m' => ?_
  rw [Method.foldlM_addAttribute_eq_ok_iff, Method.foldlM_addAttribute_eq_ok_iff, h.effects_eq]

theorem build_eq (h : SaySame pool ds es) (member : Member) (shared : SharedDescriptor) :
    (Method.build pool member shared ds).toOption =
      (Method.build pool member shared es).toOption :=
  Except.toOption_bind_congr (h.foldlM_addAttribute_eq _) fun _ _ => rfl

end Attribute.SaySame

/-- The method of an entry with attributes that are right. -/
theorem Method.load_of_decodeAll {pool : ConstantPool} {className : String} {info : MemberInfo}
    {ds : List Attribute} (h : decodeAll pool info.attributes = .ok ds) (s : Interner) :
    load pool className info s =
      match Member.ofInfo pool className info ds with
      | .error e => (.error e, s)
      | .ok member =>
        match s.intern member.descriptor with
        | (.error e, s) => (.error e, s)
        | (.ok shared, s) => (build pool member shared ds, s) := by
  rw [load, memberOfInfo, h, Except.ok_bind]
  cases Member.ofInfo pool className info ds with
  | error e => rfl
  | ok member => rfl

theorem Method.load_of_decodeAll_eq_error {pool : ConstantPool} {className : String}
    {info : MemberInfo} {e : Error} (h : decodeAll pool info.attributes = .error e)
    (s : Interner) : load pool className info s = (.error e, s) := by
  rw [load, memberOfInfo, h]
  rfl

/-! ## Members alike -/

namespace Attribute.Alike

/-- Two attributes that are decoded alike make the same of every method. -/
theorem addAttribute_eq {pool : ConstantPool} {a b : AttributeInfo} (h : Alike pool [a] [b])
    (m : Method) :
    (decode pool a >>= m.addAttribute pool).toOption =
      (decode pool b >>= m.addAttribute pool).toOption := by
  cases h with
  | failing ha hb =>
      rw [Except.mapM_singleton_eq_error_iff.1 ha, Except.mapM_singleton_eq_error_iff.1 hb]
      rfl
  | decoded ha hb hsame =>
      obtain ⟨d, hd, rfl⟩ := Except.mapM_singleton_eq_ok_iff.1 ha
      obtain ⟨d', hd', rfl⟩ := Except.mapM_singleton_eq_ok_iff.1 hb
      rw [hd, hd', Except.ok_bind, Except.ok_bind]
      have hfold := hsame.foldlM_addAttribute_eq m
      simpa only [List.foldlM_cons, List.foldlM_nil, bind_pure] using hfold

variable {pool : ConstantPool} {xs ys : List AttributeInfo}

/-- Methods with attributes that are decoded alike load alike, and leave the
same descriptors interned. -/
theorem load_eq (h : Alike pool xs ys) (className : String) (info : MemberInfo) (s : Interner) :
    (Method.load pool className { info with attributes := xs } s).1.toOption =
        (Method.load pool className { info with attributes := ys } s).1.toOption ∧
      (Method.load pool className { info with attributes := xs } s).2 =
        (Method.load pool className { info with attributes := ys } s).2 := by
  cases h with
  | failing hxs hys =>
      rw [Method.load_of_decodeAll_eq_error hxs, Method.load_of_decodeAll_eq_error hys]
      exact ⟨rfl, rfl⟩
  | @decoded ds es hxs hys hsame =>
      rw [Method.load_of_decodeAll hxs, Method.load_of_decodeAll hys,
        hsame.memberOfInfo_eq className info xs ys]
      cases Member.ofInfo pool className { info with attributes := ys } es with
      | error e => exact ⟨rfl, rfl⟩
      | ok member =>
          dsimp only
          cases s.intern member.descriptor with
          | mk interned s =>
              cases interned with
              | error e => exact ⟨rfl, rfl⟩
              | ok shared => exact ⟨hsame.build_eq member shared, rfl⟩

/-- Fields with attributes that are decoded alike are alike. -/
theorem ofInfo_eq (h : Alike pool xs ys) (className : String) (info : MemberInfo) :
    (Field.ofInfo pool className { info with attributes := xs }).toOption =
      (Field.ofInfo pool className { info with attributes := ys }).toOption := by
  rw [Field.ofInfo, Field.ofInfo]
  cases h with
  | failing hxs hys =>
      rw [hxs, hys]
      rfl
  | decoded hxs hys hsame =>
      rw [hxs, hys, Except.ok_bind, Except.ok_bind, hsame.memberOfInfo_eq className info xs ys,
        hsame .constantValue]

end Attribute.Alike

namespace AttributeInfo

/-- Methods and fields that differ in nothing but rearranged attributes load
alike: both fail, or both are the same.  Two `Code` attributes that hold them
make the same of every method, and attributes that these are among are
rearranged as well.  So are those that have the same payloads in the same
order under each recognised name, and those of which two neighbours of
different names change places, or one without a recognised name goes or
comes. -/
theorem load_alike_of_rearranged (pool : ConstantPool) :
    (∀ xs ys, Rearranged pool xs ys →
      (∀ className (info : MemberInfo) s,
        (Method.load pool className { info with attributes := xs } s).1.toOption =
            (Method.load pool className { info with attributes := ys } s).1.toOption ∧
          (Method.load pool className { info with attributes := xs } s).2 =
            (Method.load pool className { info with attributes := ys } s).2) ∧
      (∀ className (info : MemberInfo),
        (Field.ofInfo pool className { info with attributes := xs }).toOption =
          (Field.ofInfo pool className { info with attributes := ys }).toOption) ∧
      ∀ a b (frame : CodeFrame), a.recognised? pool = some .code → b.recognised? pool = some .code →
        codeFrame? a.info = some { frame with attributes := xs } →
        codeFrame? b.info = some { frame with attributes := ys } →
        (∀ m : Method, (decode pool a >>= m.addAttribute pool).toOption =
          (decode pool b >>= m.addAttribute pool).toOption) ∧
          ∀ before after, Rearranged pool (before ++ a :: after) (before ++ b :: after)) ∧
    (∀ xs ys, (∀ a ∈ xs, a.HasName pool) → (∀ b ∈ ys, b.HasName pool) →
      (∀ name, payloads pool name xs = payloads pool name ys) → Rearranged pool xs ys) ∧
    (∀ before after a b, (∀ c ∈ before ++ a :: b :: after, c.HasName pool) →
      pool.utf8 a.nameIndex ≠ pool.utf8 b.nameIndex →
      Rearranged pool (before ++ a :: b :: after) (before ++ b :: a :: after)) ∧
    (∀ before after a, (∀ c ∈ before ++ a :: after, c.HasName pool) → a.recognised? pool = none →
      Rearranged pool (before ++ a :: after) (before ++ after) ∧
        Rearranged pool (before ++ after) (before ++ a :: after)) := by
  refine ⟨fun xs ys h => ⟨h.alike.load_eq, h.alike.ofInfo_eq, ?_⟩, fun xs ys hxs hys hsame =>
    .samePayloads ⟨hxs, hys, hsame⟩, fun before after a b => .swap, ?_⟩
  · intro a b frame ha hb hframe hframe'
    refine ⟨(alike_code ha hb hframe hframe' h.alike).addAttribute_eq, fun before after => ?_⟩
    exact .nested ha hb hframe hframe' h
  · intro before after a hnamed hname
    exact ⟨.drop hnamed hname, (Rearranged.drop hnamed hname).symm⟩

/-- A pool with three recognised names and one that is not. -/
def poolOfNames : ConstantPool :=
  ⟨#[.utf8 "Code", .utf8 "LineNumberTable", .utf8 "Signature", .utf8 "StackMapTable",
    .utf8 "run", .utf8 "()V"]⟩

/-- A body of one byte with two line number tables. -/
def plainCode : AttributeInfo := ⟨1, [0, 1, 0, 1, 0, 0, 0, 1, 0xb1, 0, 0,
  0, 2, 0, 2, 0, 0, 0, 6, 0, 1, 0, 0, 0, 10, 0, 2, 0, 0, 0, 6, 0, 1, 0, 0, 0, 20]⟩

/-- The same body with a stack map between the two. -/
def mappedCode : AttributeInfo := ⟨1, [0, 1, 0, 1, 0, 0, 0, 1, 0xb1, 0, 0,
  0, 3, 0, 2, 0, 0, 0, 6, 0, 1, 0, 0, 0, 10, 0, 4, 0, 0, 0, 1, 0xff,
  0, 2, 0, 0, 0, 6, 0, 1, 0, 0, 0, 20]⟩

/-- The signature stands before the code, or behind the code with a stack
map; the method is the same, with the line of the second table. -/
theorem load_alike_of_rearranged_stack_map :
    ∃ m, (Method.load poolOfNames "demo/A" ⟨⟨1⟩, 5, 6, [⟨3, [0, 6]⟩, plainCode]⟩
        Interner.empty).1 = .ok m ∧
      (Method.load poolOfNames "demo/A" ⟨⟨1⟩, 5, 6, [mappedCode, ⟨3, [0, 6]⟩]⟩
        Interner.empty).1 = .ok m ∧
      m.signature = some "()V" ∧ m.sourceLine 0 = .found 20 := by
  have hloads : ((Method.load poolOfNames "demo/A" ⟨⟨1⟩, 5, 6, [⟨3, [0, 6]⟩, plainCode]⟩
      Interner.empty).1.map (fun m => (m.signature, m.sourceLine 0))) =
      .ok (some "()V", .found 20) := by cbv
  have hframe : codeFrame? plainCode.info = some ⟨1, 1, [0xb1], [],
      [⟨2, [0, 1, 0, 0, 0, 10]⟩] ++ [⟨2, [0, 1, 0, 0, 0, 20]⟩]⟩ := by cbv
  have hframe' : codeFrame? mappedCode.info = some ⟨1, 1, [0xb1], [],
      [⟨2, [0, 1, 0, 0, 0, 10]⟩] ++ ⟨4, [0xff]⟩ :: [⟨2, [0, 1, 0, 0, 0, 20]⟩]⟩ := by cbv
  obtain ⟨hall, -, hswap, hdrop⟩ := load_alike_of_rearranged poolOfNames
  have hnested := (hdrop [⟨2, [0, 1, 0, 0, 0, 10]⟩] [⟨2, [0, 1, 0, 0, 0, 20]⟩] ⟨4, [0xff]⟩
    (by intro c hc; fin_cases hc <;> exact ⟨_, rfl⟩) rfl).2
  obtain ⟨-, -, hcode⟩ := hall _ _ hnested
  obtain ⟨-, hbehind⟩ := hcode plainCode mappedCode ⟨1, 1, [0xb1], [], []⟩ rfl rfl hframe hframe'
  have hswapped := hswap [] [] ⟨3, [0, 6]⟩ mappedCode
    (by intro c hc; fin_cases hc <;> exact ⟨_, rfl⟩) (by decide)
  obtain ⟨halike, -⟩ := hall _ _ (.trans (hbehind [⟨3, [0, 6]⟩] []) hswapped)
  obtain ⟨m, hm, hfacts⟩ := Except.map_eq_ok_iff.1 hloads
  obtain ⟨hsignature, hline⟩ := Prod.mk.inj hfacts
  refine ⟨m, hm, ?_, hsignature, hline⟩
  obtain ⟨hsame, -⟩ := halike "demo/A" ⟨⟨1⟩, 5, 6, []⟩ Interner.empty
  exact (Except.toOption_eq_iff.1 hsame m).1 hm

end AttributeInfo

end MethodArea
