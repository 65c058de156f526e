/-
# `Proofs.Area.Effects` — what one operation makes of a class

A method is identified by its class and its position there.  `effect` says
what an operation makes of the method of an identity: replacing code and
resolving change the one method that they name, and no other operation
changes any.  `class?_step` says that this is all there is to it.  A class
that exists after an operation is the one that the operation loaded, or was
there before and has the same parts, with each of its methods as `effect`
makes it.

Two kinds of statement follow.  What loading gives and every
`Method.Change` keeps holds of every method at any time
(`Reachable.forall_method`).  And the exact value of `effect` says how a
particular method came to be what it is, which is what the history of
native bindings needs.
-/
import MethodArea.Proofs.Area.Order
import MethodArea.Proofs.Method.Installed

namespace MethodArea

/-- The identity of a loaded method: that of its class, and its position
there. -/
structure MethodId where
  cls : ClassId
  position : Nat
deriving DecidableEq

/-! ## Resolving a method, without counting look-ups -/

namespace Method

/-- What a resolution against a registry answers. -/
def answer (registry : Registry) (m : Method) : Except Error BindingId :=
  if m.isNative then
    match m.bound with
    | some id => .ok id
    | none =>
      match registry.find m with
      | some id => .ok id
      | none => .error (.missingNativeBinding m.ref)
  else .error (.notNativeMethod m.ref)

/-- The method once a resolution of it has been answered. -/
def answered (m : Method) : Except Error BindingId → Method
  | .ok id => { m with bound := some id }
  | .error _ => m

theorem countedFind_bind {α : Type} (registry : Registry) (m : Method)
    (k : Option BindingId → StateM Nat α) (n : Nat) :
    (Area.countedFind registry m >>= k).run n = (k (registry.find m)).run (n + 1) := rfl

theorem resolve_countedFind (registry : Registry) (m : Method) :
    ((m.resolve (Area.countedFind registry)).run 0).1 =
      (m.answer registry, m.answered (m.answer registry)) := by
  simp only [resolve, answer]
  cases hnative : m.isNative with
  | false => rfl
  | true =>
      cases hbound : m.bound with
      | some id =>
          have hsame : { m with bound := some id } = m := by
            rw [← hbound]
          simp only [if_true, answered, hsame]
          rfl
      | none =>
          simp only [if_true, countedFind_bind]
          cases registry.find m with
          | some id => rfl
          | none => rfl

/-- An answer changes a method only if it is a binding and the method had
none. -/
theorem answered_eq_or_change (registry : Registry) (m : Method) :
    m.answered (m.answer registry) = m ∨ m.Change (m.answered (m.answer registry)) := by
  simp only [answer]
  cases hnative : m.isNative with
  | false => exact .inl rfl
  | true =>
      cases hbound : m.bound with
      | some id =>
          refine .inl ?_
          simp only [if_true, answered]
          rw [← hbound]
      | none =>
          simp only [if_true]
          cases registry.find m with
          | none => exact .inl rfl
          | some id => exact .inr (.bind hnative hbound)

end Method

/-! ## Methods of a class that is loaded -/

/-- A method of a class that is loaded is what loading makes of the entry in
its place, pointing back at the class. -/
theorem Class.exists_entry_of_load {id : ClassId} {file : ClassFile}
    {superClass : Option ClassId} {interfaces : List ClassId} {s s' : Interner} {c : Class}
    (h : load id file superClass interfaces s = (.ok c, s')) {i : Nat} {m : Method}
    (hm : c.methods[i]? = some m) :
    ∃ info s₁ s₂ loaded, file.methods[i]? = some info ∧
      Method.load c.pool c.name info s₁ = (.ok loaded, s₂) ∧ m = loaded.pointBack id := by
  obtain ⟨-, methods, hmethods, hpoint⟩ := load_eq_ok h
  rw [hpoint, List.getElem?_map] at hm
  obtain ⟨loaded, hloaded, rfl⟩ := Option.map_eq_some_iff.1 hm
  obtain ⟨info, s₁, s₂, hinfo, hload⟩ := Method.load_of_loadAll hmethods hloaded
  exact ⟨info, s₁, s₂, loaded, hinfo, hload, rfl⟩

namespace Area

/-! ## Methods by identity -/

/-- The method of an identity, if it still exists. -/
def method? (a : Area) (id : MethodId) : Option Method :=
  (a.class? id.cls).bind (fun c => c.methods[id.position]?)

/-- The identity of the method in a position of the class that a handle
names. -/
def methodId? (a : Area) (handle : String) (position : Nat) : Option MethodId :=
  match a.methodOf handle position with
  | .ok (c, _) => some ⟨c.id, position⟩
  | .error _ => none

theorem method?_eq_some_iff {a : Area} {id : MethodId} {m : Method} :
    a.method? id = some m ↔ ∃ c, a.class? id.cls = some c ∧ c.methods[id.position]? = some m :=
  Option.bind_eq_some_iff

theorem classOf_eq_ok {a : Area} {handle : String} {c : Class} (h : a.classOf handle = .ok c) :
    a.class? c.id = some c := by
  simp only [classOf] at h
  split at h
  · next c' hc =>
      cases h
      obtain ⟨id, -, hid⟩ := Option.bind_eq_some_iff.1 hc
      rwa [class?_id hid]
  · cases h

theorem methodOf_eq_ok {a : Area} {handle : String} {position : Nat} {c : Class} {m : Method}
    (h : a.methodOf handle position = .ok (c, m)) :
    a.class? c.id = some c ∧ c.methods[position]? = some m := by
  obtain ⟨c', hc, h⟩ := Except.bind_eq_ok_iff.1 h
  split at h
  · next m' hm =>
      cases h
      exact ⟨classOf_eq_ok hc, hm⟩
  · cases h

theorem method?_of_methodOf {a : Area} {handle : String} {position : Nat} {c : Class}
    {m : Method} (h : a.methodOf handle position = .ok (c, m)) :
    a.method? ⟨c.id, position⟩ = some m := by
  obtain ⟨hc, hm⟩ := methodOf_eq_ok h
  exact method?_eq_some_iff.2 ⟨c, hc, hm⟩

theorem methodId?_of_ok {a : Area} {handle : String} {position : Nat} {c : Class} {m : Method}
    (h : a.methodOf handle position = .ok (c, m)) :
    a.methodId? handle position = some ⟨c.id, position⟩ := by
  simp only [methodId?, h]

theorem methodId?_of_error {a : Area} {handle : String} {position : Nat} {failure : Failure}
    (h : a.methodOf handle position = .error failure) : a.methodId? handle position = none := by
  simp only [methodId?, h]

theorem methodOf_of_methodId? {a : Area} {handle : String} {position : Nat} {id : MethodId}
    {m : Method} (hid : a.methodId? handle position = some id) (hm : a.method? id = some m) :
    ∃ c, a.methodOf handle position = .ok (c, m) := by
  cases hof : a.methodOf handle position with
  | error failure =>
      rw [methodId?_of_error hof] at hid
      cases hid
  | ok found =>
      obtain ⟨c, m'⟩ := found
      rw [methodId?_of_ok hof] at hid
      cases hid
      rw [method?_of_methodOf hof] at hm
      cases hm
      exact ⟨c, rfl⟩

theorem Ordered.cls_lt_nextClass {a : Area} (h : a.Ordered) {id : MethodId} {m : Method}
    (hm : a.method? id = some m) : id.cls < a.nextClass := by
  obtain ⟨c, hc, -⟩ := method?_eq_some_iff.1 hm
  obtain ⟨hmem, hid⟩ := h.class?_eq_some_iff.1 hc
  exact hid ▸ h.below c hmem

/-- No handle names a method under an identity that is not given out yet. -/
theorem Ordered.methodId?_ne {a : Area} (h : a.Ordered) {id : MethodId}
    (hid : a.nextClass ≤ id.cls) (handle : String) (position : Nat) :
    a.methodId? handle position ≠ some id := by
  intro hmethod
  cases hof : a.methodOf handle position with
  | error failure =>
      rw [methodId?_of_error hof] at hmethod
      cases hmethod
  | ok found =>
      rw [methodId?_of_ok hof] at hmethod
      cases hmethod
      have hlt := h.cls_lt_nextClass (method?_of_methodOf hof)
      exact absurd hlt (Nat.not_lt.2 hid)

/-! ## The effect of an operation -/

/-- What an operation makes of the method of an identity. -/
def effect (a : Area) (id : MethodId) (m : Method) : Operation → Method
  | .replaceCode handle position bytes =>
    if a.methodId? handle position = some id then
      match m.replaceCode bytes with
      | .ok replaced => replaced
      | .error _ => m
    else m
  | .resolve handle position name =>
    if a.methodId? handle position = some id then m.answered (m.answer (a.registry name)) else m
  | _ => m

/-- A class with each of its methods as an operation makes it. -/
def effectOn (a : Area) (op : Operation) (c : Class) : Class :=
  { c with methods := c.methods.mapIdx (fun i m => a.effect ⟨c.id, i⟩ m op) }

theorem effect_eq_or_change (a : Area) (id : MethodId) (m : Method) (op : Operation) :
    a.effect id m op = m ∨ m.Change (a.effect id m op) := by
  cases op with
  | replaceCode handle position bytes =>
      simp only [effect]
      split
      · split
        · next h => exact .inr (.replaceCode h)
        · exact .inl rfl
      · exact .inl rfl
  | resolve handle position name =>
      simp only [effect]
      split
      · exact Method.answered_eq_or_change _ m
      · exact .inl rfl
  | load _ _ _ _ | hold _ _ | unload _ | intern _ | register _ _ _ | unregister _ _
  | registerNatives => exact .inl rfl

/-- An operation without effect on the methods of a class leaves the class
as it is. -/
theorem effectOn_eq_self {a : Area} {op : Operation} {c : Class}
    (h : ∀ i m, a.effect ⟨c.id, i⟩ m op = m) : a.effectOn op c = c := by
  have hmethods : c.methods.mapIdx (fun i m => a.effect ⟨c.id, i⟩ m op) = c.methods := by
    refine List.ext_getElem? fun i => ?_
    rw [List.getElem?_mapIdx]
    cases c.methods[i]? with
    | none => rfl
    | some m => exact congrArg some (h i m)
  simp only [effectOn, hmethods]

/-! ## The parts of a step -/

theorem class?_setMethod (a : Area) (cls : ClassId) (position : Nat) (m : Method)
    (id : ClassId) :
    (a.setMethod cls position m).class? id =
      (a.class? id).map (fun c => if c.id = cls then c.setMethod position m else c) := by
  simp only [class?, Hierarchy.class?, setMethod, List.find?_map, Function.comp_def,
    Class.id_setMethod_if]

/-- The effect of an operation on the classes is to put a method in place of
the one that it names, if that is what `effect` makes of this one and
`effect` leaves all others alone. -/
theorem class?_setMethod_eq_effectOn {a : Area} {op : Operation} {handle : String}
    {position : Nat} {c₀ : Class} {m₀ m₁ : Method}
    (hof : a.methodOf handle position = .ok (c₀, m₀))
    (htarget : a.effect ⟨c₀.id, position⟩ m₀ op = m₁)
    (hother : ∀ id m, a.methodId? handle position ≠ some id → a.effect id m op = m)
    (id : ClassId) :
    (a.setMethod c₀.id position m₁).class? id = (a.class? id).map (a.effectOn op) := by
  obtain ⟨hc₀, hm₀⟩ := methodOf_eq_ok hof
  have hlt : position < c₀.methods.length := (List.getElem?_eq_some_iff.1 hm₀).1
  have hne : ∀ id m, id ≠ ⟨c₀.id, position⟩ → a.effect id m op = m := by
    intro id m h
    refine hother id m ?_
    rw [methodId?_of_ok hof]
    exact fun e => h (Option.some.inj e).symm
  rw [class?_setMethod]
  cases hc : a.class? id with
  | none => rfl
  | some c =>
      rw [Option.map_some, Option.map_some, Option.some.injEq]
      split
      · next hid =>
          rw [← class?_id hc, hid, hc₀] at hc
          cases hc
          simp only [effectOn, Class.setMethod, Class.mk.injEq, true_and, and_true]
          refine List.ext_getElem? fun i => ?_
          rw [List.getElem?_mapIdx]
          by_cases hi : position = i
          · subst hi
            rw [List.getElem?_set_self hlt, hm₀, Option.map_some, htarget]
          · rw [List.getElem?_set_ne hi]
            cases hget : c₀.methods[i]? with
            | none => rfl
            | some m =>
                refine (congrArg some (hne _ m ?_)).symm
                exact fun e => hi (congrArg MethodId.position e).symm
      · next hid =>
          refine (effectOn_eq_self fun i m => hne _ m ?_).symm
          exact fun e => hid (congrArg MethodId.cls e)

/-- What is left where classes are dropped was there. -/
theorem Ordered.class?_of_sublist {a b : Area} (h : a.Ordered)
    (hsub : b.classes.Sublist a.classes) {id : ClassId} {c : Class}
    (hc : b.class? id = some c) : a.class? id = some c :=
  h.class?_eq_some_iff.2 ⟨hsub.subset (List.mem_of_find?_eq_some hc), class?_id hc⟩

/-- Where a class is added, it is the only one that is new. -/
theorem Ordered.class?_add {a : Area} (h : a.Ordered) {handle : String} {c : Class}
    (hc : c.id = a.nextClass) {id : ClassId} {d : Class}
    (hd : (a.add handle c).class? id = some d) : d = c ∨ a.class? id = some d := by
  obtain ⟨hmem, hid⟩ := (h.add hc).class?_eq_some_iff.1 hd
  obtain ⟨classes, strong, hsub, heq⟩ := a.add_eq handle c
  rw [heq] at hmem
  rcases List.mem_cons.1 (hsub.subset hmem) with heq | hmem
  · exact .inl heq
  · exact .inr (h.class?_eq_some_iff.2 ⟨hmem, hid⟩)

theorem Ordered.class?_load {a : Area} (h : a.Ordered) {handle : String} {file : ClassFile}
    {superClass : Option String} {interfaces : List String} {id : ClassId} {c : Class}
    (hc : (a.load handle file superClass interfaces).2.class? id = some c) :
    (id = a.nextClass ∧ ∃ superId interfaceIds descriptors,
      Class.load id file superId interfaceIds a.descriptors = (.ok c, descriptors)) ∨
    a.class? id = some c := by
  rcases a.load_cases handle file superClass interfaces with
    ⟨descriptors, heq⟩ | ⟨superId, interfaceIds, descriptors, d, hload, heq⟩
  · rw [heq] at hc
    exact .inr hc
  · rw [heq] at hc
    have hid := (Class.load_eq_ok hload).1
    have hordered : Ordered { a with descriptors } := h.of_eq rfl rfl
    rcases hordered.class?_add hid hc with rfl | hold
    · have hnext : id = a.nextClass := (class?_id hc).symm.trans hid
      exact .inl ⟨hnext, superId, interfaceIds, descriptors, hnext ▸ hload⟩
    · exact .inr hold

/-- Putting a method back in its place changes nothing. -/
theorem class?_setMethod_self {a : Area} {c₀ : Class} {position : Nat} {m₀ : Method}
    (hc₀ : a.class? c₀.id = some c₀) (hm₀ : c₀.methods[position]? = some m₀) (id : ClassId) :
    (a.setMethod c₀.id position m₀).class? id = a.class? id := by
  rw [class?_setMethod]
  cases hc : a.class? id with
  | none => rfl
  | some c =>
      rw [Option.map_some]
      split
      · next hid =>
          rw [← class?_id hc, hid, hc₀] at hc
          cases hc
          obtain ⟨hlt, hget⟩ := List.getElem?_eq_some_iff.1 hm₀
          rw [Class.setMethod, ← hget, List.set_getElem_self]
      · rfl

theorem class?_map_effectOn_of_error {a : Area} {op : Operation} {handle : String}
    {position : Nat} {failure : Failure} (hof : a.methodOf handle position = .error failure)
    (hother : ∀ id m, a.methodId? handle position ≠ some id → a.effect id m op = m)
    (id : ClassId) : (a.class? id).map (a.effectOn op) = a.class? id := by
  have hsame : a.effectOn op = fun c => c := by
    refine funext fun c => effectOn_eq_self fun i m => hother _ m ?_
    rw [methodId?_of_error hof]
    exact fun h => by cases h
  rw [hsame, Option.map_id']

theorem class?_replaceCode (a : Area) (handle : String) (position : Nat) (bytes : List UInt8)
    (id : ClassId) :
    (a.replaceCode handle position bytes).2.class? id =
      (a.class? id).map (a.effectOn (.replaceCode handle position bytes)) := by
  have hother : ∀ id m, a.methodId? handle position ≠ some id →
      a.effect id m (.replaceCode handle position bytes) = m := by
    intro id m h
    simp only [effect, if_neg h]
  cases hof : a.methodOf handle position with
  | error failure =>
      simp only [Area.replaceCode, hof]
      exact (class?_map_effectOn_of_error hof hother id).symm
  | ok found =>
      obtain ⟨c₀, m₀⟩ := found
      obtain ⟨hc₀, hm₀⟩ := methodOf_eq_ok hof
      simp only [Area.replaceCode, hof]
      cases hreplace : m₀.replaceCode bytes with
      | error e =>
          have htarget : a.effect ⟨c₀.id, position⟩ m₀ (.replaceCode handle position bytes) =
              m₀ := by
            simp only [effect, methodId?_of_ok hof, if_true, hreplace]
          rw [← class?_setMethod_eq_effectOn hof htarget hother id]
          exact (class?_setMethod_self hc₀ hm₀ id).symm
      | ok m₁ =>
          refine class?_setMethod_eq_effectOn hof ?_ hother id
          simp only [effect, methodId?_of_ok hof, if_true, hreplace]

theorem class?_resolve (a : Area) (handle : String) (position : Nat) (name : RegistryName)
    (id : ClassId) :
    (a.resolve handle position name).2.class? id =
      (a.class? id).map (a.effectOn (.resolve handle position name)) := by
  have hother : ∀ id m, a.methodId? handle position ≠ some id →
      a.effect id m (.resolve handle position name) = m := by
    intro id m h
    simp only [effect, if_neg h]
  cases hof : a.methodOf handle position with
  | error failure =>
      simp only [Area.resolve, hof]
      exact (class?_map_effectOn_of_error hof hother id).symm
  | ok found =>
      obtain ⟨c₀, m₀⟩ := found
      simp only [Area.resolve, hof]
      show (a.setMethod c₀.id position
        ((m₀.resolve (countedFind (a.registry name))).run 0).1.2).class? id = _
      rw [Method.resolve_countedFind]
      refine class?_setMethod_eq_effectOn hof ?_ hother id
      simp only [effect, methodId?_of_ok hof, if_true]

/-! ## The whole step -/

/-- The class file that an operation loads. -/
def Operation.file? : Operation → Option ClassFile
  | .load _ file _ _ => some file
  | _ => none

/-- What a class is after an operation: newly loaded, or what the operation
makes of it. -/
theorem Ordered.class?_step {a : Area} (h : a.Ordered) {op : Operation} {id : ClassId}
    {c' : Class} (hc' : (a.step op).2.class? id = some c') :
    (id = a.nextClass ∧ ∃ file superId interfaceIds descriptors, op.file? = some file ∧
      Class.load id file superId interfaceIds a.descriptors = (.ok c', descriptors)) ∨
    ∃ c, a.class? id = some c ∧ c' = a.effectOn op c := by
  have hkept : (∀ id m, a.effect id m op = m) → a.class? id = some c' →
      ∃ c, a.class? id = some c ∧ c' = a.effectOn op c :=
    fun heffect hc => ⟨c', hc, (effectOn_eq_self fun i m => heffect _ m).symm⟩
  cases op with
  | load handle file superClass interfaces =>
      rcases h.class?_load hc' with ⟨hid, superId, interfaceIds, descriptors, hload⟩ | hold
      · exact .inl ⟨hid, file, superId, interfaceIds, descriptors, rfl, hload⟩
      · exact .inr (hkept (fun _ _ => rfl) hold)
  | hold handle cls =>
      have hsub := a.classes_hold_sublist handle cls
      exact .inr (hkept (fun _ _ => rfl) (h.class?_of_sublist hsub hc'))
  | unload handle =>
      have hsub := a.classes_unload_sublist handle
      exact .inr (hkept (fun _ _ => rfl) (h.class?_of_sublist hsub hc'))
  | replaceCode handle position bytes =>
      have hstep := class?_replaceCode a handle position bytes id
      obtain ⟨c, hc, rfl⟩ := Option.map_eq_some_iff.1 (hstep.symm.trans hc')
      exact .inr ⟨c, hc, rfl⟩
  | resolve handle position name =>
      have hstep := class?_resolve a handle position name id
      obtain ⟨c, hc, rfl⟩ := Option.map_eq_some_iff.1 (hstep.symm.trans hc')
      exact .inr ⟨c, hc, rfl⟩
  | intern _ | register _ _ _ | unregister _ _ | registerNatives =>
      exact .inr (hkept (fun _ _ => rfl) hc')

theorem method?_map_effectOn (a : Area) (op : Operation) (id : MethodId) :
    ((a.class? id.cls).map (a.effectOn op)).bind (fun c => c.methods[id.position]?) =
      (a.method? id).map (fun m => a.effect id m op) := by
  rw [method?]
  cases hc : a.class? id.cls with
  | none => rfl
  | some c =>
      show (c.methods.mapIdx (fun i m => a.effect ⟨c.id, i⟩ m op))[id.position]? = _
      rw [List.getElem?_mapIdx, class?_id hc]
      rfl

/-- What a method is after an operation: newly loaded and not bound, or what
the operation makes of it. -/
theorem Ordered.method?_step {a : Area} (h : a.Ordered) {op : Operation} {id : MethodId}
    {m' : Method} (hm' : (a.step op).2.method? id = some m') :
    (id.cls = a.nextClass ∧ m'.bound = none) ∨
    ∃ m, a.method? id = some m ∧ m' = a.effect id m op := by
  obtain ⟨c', hc', hget⟩ := method?_eq_some_iff.1 hm'
  rcases h.class?_step hc' with ⟨hnext, file, _, _, _, -, hloaded⟩ | ⟨c, hc, rfl⟩
  · obtain ⟨info, s₁, s₂, loaded, -, hload, rfl⟩ := Class.exists_entry_of_load hloaded hget
    exact .inl ⟨hnext, (Method.load_eq_ok hload).2.2⟩
  · refine .inr (Option.map_eq_some_iff.1 ?_ |>.imp fun m hm => ⟨hm.1, hm.2.symm⟩)
    rw [← method?_map_effectOn, hc]
    exact hget

/-! ## Invariants of methods -/

/-- What loading gives and every change keeps holds of every method of a
class that exists, with the identity and the name of the class. -/
theorem Reachable.forall_method {P : ClassId → String → Method → Prop}
    (hload : ∀ id pool className info s m s',
      Method.load pool className info s = (.ok m, s') → P id className (m.pointBack id))
    (hchange : ∀ id className m m', P id className m → Method.Change m m' →
      P id className m') {a : Area} (h : Reachable a) {c : Class} {m : Method}
    (hc : c ∈ a.classes) (hm : m ∈ c.methods) : P c.id c.name m := by
  obtain ⟨ops, rfl⟩ := h
  have hrun : (run empty ops).Ordered ∧ ∀ id c, (run empty ops).class? id = some c →
      ∀ m ∈ c.methods, P c.id c.name m := by
    refine run_keeps (P := fun a => a.Ordered ∧ ∀ id c, a.class? id = some c →
      ∀ m ∈ c.methods, P c.id c.name m) ?_ ops ⟨ordered_empty, fun _ _ h => by cases h⟩
    rintro a op ⟨hordered, hall⟩
    refine ⟨hordered.step op, ?_⟩
    intro id c' hc' m' hm'
    rcases hordered.class?_step hc' with ⟨-, file, _, _, _, -, hloaded⟩ | ⟨c, hc, rfl⟩
    · obtain ⟨i, hget⟩ := List.mem_iff_getElem?.1 hm'
      obtain ⟨info, s₁, s₂, loaded, -, hinfo, rfl⟩ := Class.exists_entry_of_load hloaded hget
      rw [(Class.load_eq_ok hloaded).1]
      exact hload _ _ _ _ _ _ _ hinfo
    · obtain ⟨i, hi, hget⟩ := List.mem_mapIdx.1 hm'
      have hbefore := hall id c hc _ (List.getElem_mem hi)
      rcases effect_eq_or_change a ⟨c.id, i⟩ c.methods[i] op with heq | hchanged
      · rw [← hget, heq]
        exact hbefore
      · rw [← hget]
        exact hchange _ _ _ _ hbefore hchanged
  exact hrun.2 c.id c (hrun.1.class?_eq_some_iff.2 ⟨hc, rfl⟩) m hm

theorem Reachable.installed {a : Area} (h : Reachable a) {c : Class} {m : Method}
    (hc : c ∈ a.classes) (hm : m ∈ c.methods) : m.Installed :=
  h.forall_method (P := fun _ _ m => m.Installed)
    (fun id _ _ _ _ _ _ hload => (Method.load_eq_ok hload).1.pointBack id)
    (fun _ _ _ _ hm hchange => hchange.installed hm) hc hm

/-- A method knows the name of the class that it is in. -/
theorem Reachable.className {a : Area} (h : Reachable a) {c : Class} {m : Method}
    (hc : c ∈ a.classes) (hm : m ∈ c.methods) : m.className = c.name :=
  h.forall_method (P := fun _ className m => m.className = className)
    (fun _ _ _ _ _ _ _ hload => (Method.load_eq_ok hload).2.1)
    (fun _ _ _ _ hm hchange => by rw [hchange.toMember, hm]) hc hm

end Area

end MethodArea
