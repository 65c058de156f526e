/-
# `Proofs.Area.Interning` — nothing but identities depends on what is interned

Descriptors are interned by direct request and by every load, those that
fail included.  Over a run of any such operations in any order:

* interning a text answers what parsing it does, and an error leaves
  nothing behind;
* what is given for texts at any two moments of the run (`given`) has one
  identity exactly if the texts are the same;
* what is held for a text is what the text is parsed to, and is written as
  that text;
* two methods of loaded classes share their descriptor exactly if its text
  is the same;
* a load answers the same whatever else was interned before, but for the
  identities of the descriptors (`Class.unshared`).

The second point follows from the first moment to the last: what an
interner gives, it gives for good (`Gives.mono`), so everything that was
given in a run is given by the last interner, which holds no text twice.
For the last point, an attribute does not look at the shared descriptor of
the method that it is added to, so to build a method with another one is to
build it and to exchange the descriptor afterwards (`build_withShared`).
-/
import MethodArea.Proofs.Area.Descriptors
import MethodArea.Proofs.Area.Loads
import MethodArea.Proofs.Descriptor.Grammar

namespace MethodArea

open Interner

/-! ## Building a method with another shared descriptor -/

namespace Method

/-- A method with another shared descriptor. -/
def withShared (m : Method) (shared : SharedDescriptor) : Method := { m with shared }

/-- A method without the identity of its descriptor. -/
def unshared (m : Method) : Method := m.withShared ⟨0, m.shared.value⟩

theorem addAttribute_withShared (pool : ConstantPool) (m : Method) (shared : SharedDescriptor)
    (a : Attribute) :
    (m.withShared shared).addAttribute pool a =
      (fun m => m.withShared shared) <$> m.addAttribute pool a := by
  cases a with
  | code c =>
      have href : (m.withShared shared).ref = m.ref := rfl
      simp only [addAttribute, addCode, href]
      cases ExceptionTable.ofRows m.ref pool c.code.length c.handlers with
      | error e => rfl
      | ok handlers => rfl
  | exceptions indices =>
      simp only [addAttribute]
      cases indices.mapM pool.className with
      | error e => rfl
      | ok names => rfl
  | parameterAnnotations _ | annotationDefault _ | lineNumberTable _ | signature _
  | constantValue _ | annotations _ | unknown => rfl

theorem foldlM_withShared (pool : ConstantPool) (attributes : List Attribute) (m : Method)
    (shared : SharedDescriptor) :
    attributes.foldlM (addAttribute pool) (m.withShared shared) =
      (fun m => m.withShared shared) <$> attributes.foldlM (addAttribute pool) m := by
  induction attributes generalizing m with
  | nil => rfl
  | cons a attributes ih =>
      rw [List.foldlM_cons, List.foldlM_cons, addAttribute_withShared]
      cases m.addAttribute pool a with
      | error e => rfl
      | ok m' => exact ih m'

theorem checkCode_withShared (m : Method) (shared : SharedDescriptor) :
    (m.withShared shared).checkCode = (fun m => m.withShared shared) <$> m.checkCode := by
  have hbody : (m.withShared shared).isBodiless = m.isBodiless := rfl
  have hcode : (m.withShared shared).code = m.code := rfl
  simp only [checkCode, hbody, hcode]
  split
  · rfl
  · split
    · rfl
    · rfl

theorem build_withShared (pool : ConstantPool) (member : Member)
    (shared other : SharedDescriptor) (attributes : List Attribute) :
    build pool member shared attributes =
      (fun m => m.withShared shared) <$> build pool member other attributes := by
  have hbare : bare member shared = (bare member other).withShared shared := rfl
  rw [build, build, hbare, foldlM_withShared]
  cases attributes.foldlM (addAttribute pool) (bare member other) with
  | error e => rfl
  | ok m => exact checkCode_withShared m shared

theorem unshared_build (pool : ConstantPool) (member : Member)
    {shared other : SharedDescriptor} (h : shared.value = other.value)
    (attributes : List Attribute) :
    unshared <$> build pool member shared attributes =
      unshared <$> build pool member other attributes := by
  rw [build_withShared pool member shared other attributes]
  cases hbuild : build pool member other attributes with
  | error e => rfl
  | ok m =>
      obtain ⟨-, -, rfl, -⟩ := build_eq_ok hbuild
      refine congrArg Except.ok ?_
      show (m.withShared shared).withShared ⟨0, shared.value⟩ = m.withShared ⟨0, m.shared.value⟩
      rw [h]
      rfl

/-! ## Loading, from one interner or from another -/

theorem unshared_load (pool : ConstantPool) (className : String)
    (info : MemberInfo) {s t : Interner} (hs : s.Sound) (ht : t.Sound) :
    unshared <$> (load pool className info s).1 =
      unshared <$> (load pool className info t).1 := by
  rw [load, load]
  split
  · rfl
  · next member attributes _ =>
      have hvalues : SharedDescriptor.value <$> (s.intern member.descriptor).1 =
          SharedDescriptor.value <$> (t.intern member.descriptor).1 :=
        (hs.map_intern _).trans (ht.map_intern _).symm
      rcases Except.cases_of_map_fst_eq hvalues with
        ⟨e, s', t', hs, ht⟩ | ⟨shared, other, s', t', hs, ht, h⟩
      · rw [hs, ht]
      · rw [hs, ht]
        exact unshared_build pool member h attributes

theorem unshared_loadAll (pool : ConstantPool) (className : String)
    (infos : List MemberInfo) {s t : Interner} (hs : s.Sound) (ht : t.Sound) :
    List.map unshared <$> (loadAll pool className infos s).1 =
      List.map unshared <$> (loadAll pool className infos t).1 := by
  induction infos generalizing s t with
  | nil => rfl
  | cons info infos ih =>
      have hfirst := unshared_load pool className info hs ht
      rw [loadAll, loadAll]
      rcases Except.cases_of_map_fst_eq hfirst with
        ⟨e, s', t', hs', ht'⟩ | ⟨m, m', s', t', hs', ht', hm⟩
      · rw [hs', ht']
      · rw [hs', ht']
        have hrest := ih (sound_load hs hs') (sound_load ht ht')
        dsimp only
        rcases Except.cases_of_map_fst_eq hrest with
          ⟨e, s'', t'', hs'', ht''⟩ | ⟨ms, ms', s'', t'', hs'', ht'', hms⟩
        · rw [hs'', ht'']
        · rw [hs'', ht'']
          refine congrArg Except.ok ?_
          rw [List.map_cons, List.map_cons, hm, hms]

/-- The interner that a load ends with gives the descriptors of its
methods. -/
theorem gives_of_loadAll {pool : ConstantPool} {className : String}
    {infos : List MemberInfo} {s s' : Interner} {ms : List Method}
    (h : loadAll pool className infos s = (.ok ms, s')) :
    ∀ m ∈ ms, s'.Gives m.descriptor m.shared := by
  induction infos generalizing s ms with
  | nil =>
      cases h
      exact fun _ hm => absurd hm List.not_mem_nil
  | cons info infos ih =>
      rw [loadAll] at h
      split at h
      · cases h
      · next m s₁ hload =>
          split at h
          · cases h
          · next ms' s₂ hrest =>
              cases h
              obtain ⟨_, -, -, hintern, -⟩ := load_eq_ok_iff.1 hload
              have hextends : s₁.entries <+: s'.entries :=
                loadAll_keeps (P := fun s => s₁.entries <+: s.entries)
                  (fun s descriptor h => h.trans (s.prefix_intern descriptor))
                  (List.prefix_refl _) hrest
              exact List.forall_mem_cons.2 ⟨(gives_intern hintern).mono hextends, ih hrest⟩

/-- Pointing back at a class does not touch the descriptor. -/
theorem map_unshared_pointBack (id : ClassId) (ms : List Method) :
    (ms.map (pointBack id)).map unshared = (ms.map unshared).map (pointBack id) := by
  rw [List.map_map, List.map_map]
  rfl

end Method

/-- A class without the identities of its descriptors. -/
def Class.unshared (c : Class) : Class := { c with methods := c.methods.map Method.unshared }

theorem Class.unshared_load (id : ClassId) (file : ClassFile) (superClass : Option ClassId)
    (interfaces : List ClassId) {s t : Interner} (hs : s.Sound) (ht : t.Sound) :
    unshared <$> (load id file superClass interfaces s).1 =
      unshared <$> (load id file superClass interfaces t).1 := by
  rw [load, load]
  split
  · rfl
  · next header _ =>
      have hall := Method.unshared_loadAll header.pool header.name file.methods hs ht
      rcases Except.cases_of_map_fst_eq hall with
        ⟨e, s', t', hs', ht'⟩ | ⟨ms, ms', s', t', hs', ht', hms⟩
      · rw [hs', ht']
      · rw [hs', ht']
        refine congrArg Except.ok ?_
        simp only [unshared, Method.map_unshared_pointBack, hms]

namespace Area

theorem unshared_load (a : Area) (handle : String) (file : ClassFile)
    (superClass : Option String) (interfaces : List String) (ha : a.descriptors.Sound)
    {s : Interner} (hs : s.Sound) :
    Class.unshared <$> (a.load handle file superClass interfaces).1 =
      Class.unshared <$> (load { a with descriptors := s } handle file superClass interfaces).1 := by
  have hlinks : linksOf { a with descriptors := s } superClass interfaces =
      a.linksOf superClass interfaces := rfl
  rw [load, load, hlinks]
  split
  · rfl
  · next superId interfaceIds _ =>
      have hload := Class.unshared_load a.nextClass file superId interfaceIds ha hs
      rcases Except.cases_of_map_fst_eq hload with
        ⟨e, s', t', hs', ht'⟩ | ⟨c, c', s', t', hs', ht', hc⟩
      · simp only [hs', ht']
      · simp only [hs', ht']
        exact congrArg Except.ok hc

/-! ## What was given in a run -/

/-- What an operation gives for texts: the answer to a request, or the
descriptors of the methods of a class. -/
def given : Area × Operation → List (String × SharedDescriptor)
  | (a, .intern descriptor) =>
    match (a.intern descriptor).1 with
    | .ok shared => [(descriptor, shared)]
    | .error _ => []
  | (a, op) =>
    match loaded? (a, op) with
    | some c => c.methods.map (fun m => (m.descriptor, m.shared))
    | none => []

/-- All that a run has given for texts. -/
def allGiven (ops : List Operation) : List (String × SharedDescriptor) :=
  (trace empty ops).flatMap given

theorem allGiven_concat (ops : List Operation) (op : Operation) :
    allGiven (ops ++ [op]) = allGiven ops ++ given (run empty ops, op) := by
  rw [allGiven, trace_concat, List.flatMap_append, List.flatMap_singleton]
  rfl

theorem given_eq_of_loaded? {a : Area} {op : Operation} {c : Class}
    (h : loaded? (a, op) = some c) :
    given (a, op) = c.methods.map (fun m => (m.descriptor, m.shared)) := by
  obtain ⟨_, _, _, _, _, _, _, rfl, -⟩ := exists_load_of_loaded? h
  simp only [given, h]

/-- What an operation gives, the interner that it leaves gives as well. -/
theorem gives_of_mem_given {a : Area} {op : Operation} {p : String × SharedDescriptor}
    (hp : p ∈ given (a, op)) : (a.step op).2.descriptors.Gives p.1 p.2 := by
  have hload : (∀ descriptor, op ≠ .intern descriptor) →
      (a.step op).2.descriptors.Gives p.1 p.2 := by
    intro hop
    cases hloaded : loaded? (a, op) with
    | none =>
        cases op with
        | intern descriptor => exact absurd rfl (hop descriptor)
        | _ =>
            simp only [given, hloaded] at hp
            exact absurd hp List.not_mem_nil
    | some c =>
        rw [given_eq_of_loaded? hloaded] at hp
        obtain ⟨m, hm, rfl⟩ := List.mem_map.1 hp
        obtain ⟨_, _, _, _, _, _, descriptors, -, -, hload, hstep⟩ := exists_load_of_loaded? hloaded
        obtain ⟨-, methods, hmethods, hpoint⟩ := Class.load_eq_ok hload
        obtain ⟨_, _, -, hadd⟩ := add_eq { a with descriptors } _ c
        rw [hstep, hadd]
        rw [hpoint] at hm
        obtain ⟨loaded, hmem, rfl⟩ := List.mem_map.1 hm
        exact Method.gives_of_loadAll hmethods loaded hmem
  cases op with
  | intern descriptor =>
      simp only [given] at hp
      split at hp
      · next shared heq =>
          obtain rfl := List.mem_singleton.1 hp
          exact gives_intern (Prod.ext heq rfl)
      · exact absurd hp List.not_mem_nil
  | _ => exact hload fun _ h => by cases h

/-- All that was given in a run, the last interner gives. -/
theorem gives_of_mem_allGiven {ops : List Operation} {p : String × SharedDescriptor}
    (hp : p ∈ allGiven ops) : (run empty ops).descriptors.Gives p.1 p.2 := by
  induction ops using List.reverseRecOn with
  | nil => exact absurd hp List.not_mem_nil
  | append_singleton ops op ih =>
      rw [run_concat]
      rw [allGiven_concat] at hp
      rcases List.mem_append.1 hp with hp | hp
      · exact (ih hp).mono (prefix_descriptors_step _ op)
      · exact gives_of_mem_given hp

/-- The descriptors of all methods that were ever loaded are among what was
given, and so are those of the methods that exist. -/
theorem mem_allGiven_of_method {ops : List Operation} {c : Class}
    (hc : c ∈ loads ops ∨ c ∈ (run empty ops).classes) {m : Method} (hm : m ∈ c.methods) :
    (m.descriptor, m.shared) ∈ allGiven ops := by
  have hloaded : ∀ d ∈ loads ops, ∀ m ∈ d.methods, (m.descriptor, m.shared) ∈ allGiven ops := by
    intro d hd m hm
    obtain ⟨⟨a, op⟩, hmem, hd⟩ := List.mem_filterMap.1 (List.mem_reverse.1 hd)
    refine List.mem_flatMap.2 ⟨(a, op), hmem, ?_⟩
    rw [given_eq_of_loaded? hd]
    exact List.mem_map_of_mem hm
  rcases hc with hc | hc
  · exact hloaded c hc m hm
  · have hreach : Reachable (run empty ops) := ⟨ops, rfl⟩
    obtain ⟨d, hd, -, hfixed⟩ :=
      (recorded ops).asLoaded c.id c (hreach.ordered.class?_eq_some_iff.2 ⟨hc, rfl⟩)
    obtain ⟨i, hi⟩ := List.mem_iff_getElem?.1 hm
    obtain ⟨m', hm', hsame⟩ := Class.exists_method_of_fixed hfixed hi
    have hdescriptor : m'.descriptor = m.descriptor := congrArg (fun m => m.descriptor) hsame
    have hshared : m'.shared = m.shared := congrArg (fun m => m.shared) hsame
    have hmem := hloaded d hd m' (List.mem_of_getElem? hm')
    rwa [hdescriptor, hshared] at hmem

theorem step_intern_eq_error {a : Area} {descriptor : String} {e : Error}
    (h : (a.intern descriptor).1 = .error e) : (a.intern descriptor).2 = a := by
  have hsame : (a.descriptors.intern descriptor).2 = a.descriptors :=
    intern_eq_error (Prod.ext h rfl)
  show { a with descriptors := (a.descriptors.intern descriptor).2 } = a
  rw [hsame]

/-! ## The interner as a cache -/

/-- Interning is parsing, with one identity for each text over a whole run,
and what is interned makes no difference to what is loaded. -/
theorem interning_transparent (ops : List Operation) :
    (∀ descriptor,
      SharedDescriptor.value <$> ((run empty ops).intern descriptor).1 =
        MethodDescriptor.parse descriptor ∧
      ∀ e, ((run empty ops).intern descriptor).1 = .error e →
        ((run empty ops).intern descriptor).2 = run empty ops) ∧
    (∀ p ∈ allGiven ops, ∀ q ∈ allGiven ops, p.2.id = q.2.id ↔ p.1 = q.1) ∧
    (((run empty ops).descriptors.entries.map Prod.fst).Nodup ∧
      ∀ e ∈ (run empty ops).descriptors.entries,
        MethodDescriptor.parse e.1 = .ok e.2 ∧ e.2.text = e.1) ∧
    (∀ c d : Class, (c ∈ loads ops ∨ c ∈ (run empty ops).classes) →
      (d ∈ loads ops ∨ d ∈ (run empty ops).classes) → ∀ m ∈ c.methods, ∀ n ∈ d.methods,
        MethodDescriptor.parse m.descriptor = .ok m.parsedDescriptor ∧
        (sharesDescriptor m n = true ↔ m.descriptor = n.descriptor)) ∧
    ∀ (others : List Operation) handle file superClass interfaces,
      Class.unshared <$> ((run empty ops).load handle file superClass interfaces).1 =
        Class.unshared <$> (load { run empty ops with descriptors := (run empty others).descriptors }
          handle file superClass interfaces).1 := by
  have hreach : Reachable (run empty ops) := ⟨ops, rfl⟩
  have hsound := hreach.sound_descriptors
  have hid : ∀ p ∈ allGiven ops, ∀ q ∈ allGiven ops, p.2.id = q.2.id ↔ p.1 = q.1 :=
    fun p hp q hq => hreach.distinct_descriptors.id_eq_iff (gives_of_mem_allGiven hp)
      (gives_of_mem_allGiven hq)
  refine ⟨?_, hid, ⟨hreach.distinct_descriptors, ?_⟩, ?_, ?_⟩
  · intro descriptor
    exact ⟨hsound.map_intern descriptor, fun e he => step_intern_eq_error he⟩
  · intro e he
    have hparse := hsound e he
    exact ⟨hparse, (MethodDescriptor.parse_eq_ok_iff.1 hparse).2⟩
  · intro c d hc hd m hm n hn
    have hm := mem_allGiven_of_method hc hm
    have hn := mem_allGiven_of_method hd hn
    refine ⟨hsound.parse_of_gives (gives_of_mem_allGiven hm), ?_⟩
    rw [sharesDescriptor, beq_iff_eq]
    exact hid _ hm _ hn
  · intro others handle file superClass interfaces
    have hother : Reachable (run empty others) := ⟨others, rfl⟩
    exact unshared_load _ handle file superClass interfaces hsound hother.sound_descriptors

/-- A class with two native methods, the second one of a given descriptor. -/
def classWithMethods (descriptor : String) : ClassFile where
  constants := [.ofText "demo/A", .classRef 1, .ofText "f", .ofText "()V", .ofText descriptor]
  flags := ⟨1⟩
  thisClass := 2
  fields := []
  methods := [⟨⟨0x0101⟩, 3, 4, []⟩, ⟨⟨0x0101⟩, 3, 5, []⟩]

/-- A request, a load that fails at its second method, a load that does not
fail, and a request that does. -/
def requestsAndLoads : List Operation :=
  [.intern "(J)V", .load "A" (classWithMethods "()") none [],
    .load "A" (classWithMethods "(J)V") none [], .intern "()"]

/-- The load answers with what the request and the failed load have left, and
without them it would have answered the same, but for the identities. -/
theorem interning_transparent_failed_load :
    (allGiven requestsAndLoads).map (fun p => (p.1, p.2.id)) =
      [("(J)V", 0), ("()V", 1), ("(J)V", 0)] ∧
    (∃ p ∈ allGiven requestsAndLoads, ∃ q ∈ allGiven requestsAndLoads,
      p.1 = "(J)V" ∧ q.1 = "()V" ∧ p.2.id ≠ q.2.id) ∧
    ∃ c d, ((run empty requestsAndLoads).load "A" (classWithMethods "(J)V") none []).1 = .ok c ∧
      (load { run empty requestsAndLoads with descriptors := .empty } "A"
        (classWithMethods "(J)V") none []).1 = .ok d ∧
      c.methods.map (fun m => m.shared.id) = [1, 0] ∧
      d.methods.map (fun m => m.shared.id) = [0, 1] ∧ c.unshared = d.unshared := by
  have hgiven : (allGiven requestsAndLoads).map (fun p => (p.1, p.2.id)) =
      [("(J)V", 0), ("()V", 1), ("(J)V", 0)] := by cbv
  have hids : (fun c : Class => c.methods.map (fun m => m.shared.id)) <$>
      ((run empty requestsAndLoads).load "A" (classWithMethods "(J)V") none []).1 =
      .ok [1, 0] := by cbv
  have hids' : (fun c : Class => c.methods.map (fun m => m.shared.id)) <$>
      (load { run empty requestsAndLoads with descriptors := .empty } "A"
        (classWithMethods "(J)V") none []).1 = .ok [0, 1] := by cbv
  obtain ⟨-, hidentity, -, -, hloads⟩ := interning_transparent requestsAndLoads
  refine ⟨hgiven, ?_, ?_⟩
  · have hp : ("(J)V", 0) ∈ (allGiven requestsAndLoads).map (fun p => (p.1, p.2.id)) := by
      simp [hgiven]
    have hq : ("()V", 1) ∈ (allGiven requestsAndLoads).map (fun p => (p.1, p.2.id)) := by
      simp [hgiven]
    obtain ⟨p, hp, heq⟩ := List.mem_map.1 hp
    obtain ⟨q, hq, heq'⟩ := List.mem_map.1 hq
    obtain ⟨htext, -⟩ := Prod.mk.inj heq
    obtain ⟨htext', -⟩ := Prod.mk.inj heq'
    refine ⟨p, hp, q, hq, htext, htext', ?_⟩
    rw [Ne, hidentity p hp q hq, htext, htext']
    decide
  · obtain ⟨c, hc, hmethods⟩ := Except.map_eq_ok_iff.1 hids
    obtain ⟨d, hd, hmethods'⟩ := Except.map_eq_ok_iff.1 hids'
    have hsame := hloads [] "A" (classWithMethods "(J)V") none []
    rw [hc] at hsame
    have hsame := hsame.trans (congrArg (Class.unshared <$> ·) hd)
    exact ⟨c, d, hc, hd, hmethods, hmethods', Except.ok.inj hsame⟩

end Area

end MethodArea
