/-
# `Proofs.Area.NativeBinding` — how native methods get bound

A run may register and take back implementations in any number of
registries, resolve any methods against any of them, and load, drop and
change classes in between.  For every method that exists at the end:

* it is bound to what its first successful resolution answered, and every
  later one has answered the same; without one it is not bound;
* what a resolution answers next is settled by the history (`Due`): its
  binding if it is bound, the implementation that does nothing for a hook,
  what stands in the registry that is asked under the full name of the
  method, and an error with that name if nothing stands there;
* an error leaves the method as it was, and an implementation is its
  binding from then on, whatever happens later.

The invariant along the run is the first of these (`Remembers`).  It speaks
about all identities, those not given out yet included: nothing has been
resolved under them, so a method that is loaded starts with an empty
history.
-/
import Mathlib
import MethodArea.Proofs.Area.History

namespace MethodArea

namespace Method

/-- The hooks by which library classes install their natives. -/
def Hook (m : Method) : Prop :=
  m.isStatic ∧ m.descriptor = "()V" ∧ (m.name = "registerNatives" ∨ m.name = "initIDs")

theorem isHook_iff {m : Method} : (m.isRegisterNatives || m.isInitIds) = true ↔ m.Hook := by
  simp only [isRegisterNatives, isInitIds, isStaticNoArgVoid, Bool.or_eq_true, Bool.and_eq_true,
    beq_iff_eq]
  refine ⟨?_, ?_⟩
  · rintro (⟨⟨hstatic, hname⟩, hdescriptor⟩ | ⟨⟨hstatic, hname⟩, hdescriptor⟩)
    · exact ⟨hstatic, hdescriptor, .inl hname⟩
    · exact ⟨hstatic, hdescriptor, .inr hname⟩
  · rintro ⟨hstatic, hdescriptor, hname | hname⟩
    · exact .inl ⟨⟨hstatic, hname⟩, hdescriptor⟩
    · exact .inr ⟨⟨hstatic, hname⟩, hdescriptor⟩

/-- A binding that is answered is the binding of the method from then on. -/
theorem bound_answered (registry : Registry) (m : Method) :
    (m.answered (m.answer registry)).bound = m.bound.or (m.answer registry).toOption := by
  simp only [answer]
  cases hnative : m.isNative with
  | false => exact (Option.or_none).symm
  | true =>
      cases hbound : m.bound with
      | some id => rfl
      | none =>
          simp only [if_true]
          cases registry.find m with
          | some id => rfl
          | none => exact hbound

end Method

namespace Area

/-! ## Resolving one method -/

/-- What a resolution replies. -/
theorem step_resolve {a : Area} {handle : String} {position : Nat} {id : MethodId} {m : Method}
    (hid : a.methodId? handle position = some id) (hm : a.method? id = some m)
    (name : RegistryName) :
    (a.step (.resolve handle position name)).1 =
      .resolved <$> (m.answer (a.registry name)).mapError .refused := by
  obtain ⟨c, hof⟩ := methodOf_of_methodId? hid hm
  have hanswer : ((m.resolve (countedFind (a.registry name))).run 0).1.1 =
      m.answer (a.registry name) := by
    rw [Method.resolve_countedFind]
  simp only [step, resolve, hof]
  rw [← hanswer]
  rfl

theorem resolved?_resolve {a : Area} {handle : String} {position : Nat} {id : MethodId}
    {m : Method} (hid : a.methodId? handle position = some id) (hm : a.method? id = some m)
    (name : RegistryName) :
    resolved? id (a, .resolve handle position name) =
      (m.answer (a.registry name)).toOption := by
  simp only [resolved?, if_pos hid, step_resolve hid hm]
  cases m.answer (a.registry name) with
  | error e => rfl
  | ok binding => rfl

/-- An operation binds a method as the method's resolution answers, and not
otherwise. -/
theorem bound_effect {a : Area} {id : MethodId} {m : Method} (hm : a.method? id = some m)
    (op : Operation) : (a.effect id m op).bound = m.bound.or (resolved? id (a, op)) ∧
      ∀ b, resolved? id (a, op) = some b → (a.effect id m op).bound = some b := by
  have hsame : resolved? id (a, op) = none → (a.effect id m op).bound = m.bound →
      (a.effect id m op).bound = m.bound.or (resolved? id (a, op)) ∧
        ∀ b, resolved? id (a, op) = some b → (a.effect id m op).bound = some b := by
    intro hnone hbound
    rw [hnone, Option.or_none]
    refine ⟨hbound, ?_⟩
    intro b hb
    cases hb
  cases op with
  | resolve handle position name =>
      by_cases hid : a.methodId? handle position = some id
      · rw [resolved?_resolve hid hm]
        simp only [effect, if_pos hid]
        refine ⟨Method.bound_answered _ m, ?_⟩
        intro b hb
        cases hanswer : m.answer (a.registry name) with
        | error e =>
            rw [hanswer] at hb
            cases hb
        | ok binding =>
            rw [hanswer] at hb
            cases hb
            rfl
      · refine hsame ?_ ?_
        · simp only [resolved?, if_neg hid]
        · simp only [effect, if_neg hid]
  | replaceCode handle position bytes =>
      refine hsame rfl ?_
      simp only [effect]
      split
      · split
        · next replaced hreplace =>
            obtain ⟨-, -, rfl⟩ := Method.replaceCode_eq_ok_iff.1 hreplace
            rfl
        · rfl
      · rfl
  | load _ _ _ _ | hold _ _ | unload _ | intern _ | register _ _ _ | unregister _ _
  | registerNatives => exact hsame rfl rfl

/-! ## One method along a run -/

theorem method?_resolve (a : Area) (handle : String) (position : Nat) (name : RegistryName)
    (id : MethodId) :
    (a.step (.resolve handle position name)).2.method? id =
      (a.method? id).map (fun m => a.effect id m (.resolve handle position name)) := by
  rw [← method?_map_effectOn, ← class?_resolve]
  rfl

/-- Nothing is resolved under an identity that is not given out yet. -/
theorem Ordered.resolved?_eq_none {a : Area} (h : a.Ordered) {id : MethodId}
    (hid : a.nextClass ≤ id.cls) (op : Operation) : resolved? id (a, op) = none := by
  cases op with
  | resolve handle position name =>
      simp only [resolved?]
      exact if_neg (h.methodId?_ne hid handle position)
  | load _ _ _ _ | hold _ _ | unload _ | intern _ | replaceCode _ _ _ | register _ _ _
  | unregister _ _ | registerNatives => rfl

/-- The area after a run remembers the first successful resolution of every
method in it, and all others have agreed with the first. -/
structure Remembers (ops : List Operation) : Prop where
  fresh : ∀ id : MethodId, (run empty ops).nextClass ≤ id.cls → resolutions id ops = []
  first : ∀ id m, (run empty ops).method? id = some m → m.bound = (resolutions id ops).head?
  all : ∀ id m, (run empty ops).method? id = some m →
    ∀ b ∈ resolutions id ops, m.bound = some b

theorem remembers_nil : Remembers [] where
  fresh := fun _ _ => rfl
  first := fun _ _ h => by cases h
  all := fun _ _ _ _ h => absurd h List.not_mem_nil

theorem Remembers.concat {ops : List Operation} (h : Remembers ops) (op : Operation) :
    Remembers (ops ++ [op]) := by
  have hordered : (run empty ops).Ordered := ordered_empty.run ops
  have hfresh : ∀ id : MethodId, (run empty ops).nextClass ≤ id.cls →
      resolutions id (ops ++ [op]) = [] := by
    intro id hid
    rw [resolutions_concat, h.fresh id hid, hordered.resolved?_eq_none hid]
    rfl
  refine ⟨?_, ?_, ?_⟩
  · intro id hid
    rw [run_concat] at hid
    exact hfresh id (Nat.le_trans (nextClass_le_step _ op) hid)
  · intro id m' hm'
    rw [run_concat] at hm'
    rcases hordered.method?_step hm' with ⟨hnext, hbound⟩ | ⟨m, hm, rfl⟩
    · rw [hfresh id (Nat.le_of_eq hnext.symm), hbound]
      rfl
    · rw [(bound_effect hm op).1, h.first id m hm, resolutions_concat, List.head?_append]
      cases resolved? id (run empty ops, op) with
      | none => rfl
      | some b => rfl
  · intro id m' hm' b hb
    rw [run_concat] at hm'
    rcases hordered.method?_step hm' with ⟨hnext, -⟩ | ⟨m, hm, rfl⟩
    · rw [hfresh id (Nat.le_of_eq hnext.symm)] at hb
      cases hb
    · rw [resolutions_concat] at hb
      rcases List.mem_append.1 hb with hb | hb
      · rw [(bound_effect hm op).1, h.all id m hm b hb]
        rfl
      · exact (bound_effect hm op).2 b (Option.mem_toList.1 hb)

theorem remembers (ops : List Operation) : Remembers ops := by
  induction ops using List.reverseRecOn with
  | nil => exact remembers_nil
  | append_singleton ops op ih => exact ih.concat op

/-! ## What a resolution is to answer -/

/-- What resolving a method against a registry is to answer after a run;
`owner` is the name of the method's class. -/
inductive Due (ops : List Operation) (name : RegistryName) (owner : String) (m : Method) :
    Except Error BindingId → Prop
  | notNative : m.isNative = false →
      Due ops name owner m (.error (.notNativeMethod ⟨owner, m.name, m.descriptor⟩))
  | bound {b : BindingId} : m.isNative → m.bound = some b → Due ops name owner m (.ok b)
  | hook : m.isNative → m.bound = none → m.Hook → Due ops name owner m (.ok Native.noOpId)
  | found {b : BindingId} : m.isNative → m.bound = none → ¬ m.Hook →
      standing name ⟨owner, m.name, m.descriptor⟩ ops = some b → Due ops name owner m (.ok b)
  | missing : m.isNative → m.bound = none → ¬ m.Hook →
      standing name ⟨owner, m.name, m.descriptor⟩ ops = none →
      Due ops name owner m (.error (.missingNativeBinding ⟨owner, m.name, m.descriptor⟩))

theorem due_answer (ops : List Operation) (name : RegistryName) {owner : String} {m : Method}
    (howner : m.className = owner) :
    Due ops name owner m (m.answer ((run empty ops).registry name)) := by
  have href : m.ref = ⟨owner, m.name, m.descriptor⟩ := by rw [← howner]; rfl
  simp only [Method.answer]
  cases hnative : m.isNative with
  | false =>
      rw [href]
      exact .notNative hnative
  | true =>
      cases hbound : m.bound with
      | some b => exact .bound hnative hbound
      | none =>
          simp only [if_true, Registry.find]
          by_cases hhook : m.Hook
          · rw [if_pos (Method.isHook_iff.2 hhook)]
            exact .hook hnative hbound hhook
          · rw [if_neg fun h => hhook (Method.isHook_iff.1 h), href, registry_get?_run]
            cases hstanding : standing name ⟨owner, m.name, m.descriptor⟩ ops with
            | some b => exact .found hnative hbound hhook hstanding
            | none => exact .missing hnative hbound hhook hstanding

/-! ## The life cycle -/

theorem step_resolve_of_bound {ops : List Operation} {handle : String} {position : Nat}
    {id : MethodId} {m : Method} {b : BindingId}
    (hid : (run empty ops).methodId? handle position = some id)
    (hm : (run empty ops).method? id = some m) (hbound : m.bound = some b)
    (name : RegistryName) :
    ((run empty ops).step (.resolve handle position name)).1 = .ok (.resolved b) := by
  have hreach : Reachable (run empty ops) := ⟨ops, rfl⟩
  obtain ⟨c, hc, hget⟩ := method?_eq_some_iff.1 hm
  have hmem := (hreach.ordered.class?_eq_some_iff.1 hc).1
  have hnative : m.isNative = true :=
    (hreach.installed hmem (List.mem_of_getElem? hget)).native_of_bound (by rw [hbound]; rfl)
  have hanswer : m.answer ((run empty ops).registry name) = .ok b := by
    simp only [Method.answer, hnative, hbound, if_true]
  rw [step_resolve hid hm, hanswer]
  rfl

/-- What binds a method, when, and to what, over all runs. -/
theorem native_binding_life_cycle (ops : List Operation) {id : MethodId} {c : Class} {m : Method}
    (hc : (run empty ops).class? id.cls = some c) (hm : c.methods[id.position]? = some m) :
    (m.bound = (resolutions id ops).head? ∧ ∀ b ∈ resolutions id ops, m.bound = some b) ∧
    (∀ handle position name, (run empty ops).methodId? handle position = some id →
      ∃ answer, Due ops name c.name m answer ∧
        ((run empty ops).step (.resolve handle position name)).1 =
          .resolved <$> answer.mapError .refused ∧
        (run empty (ops ++ [.resolve handle position name])).method? id =
          some (m.answered answer)) ∧
    (∀ b, m.bound = some b → ∀ later handle position name,
      (run empty (ops ++ later)).methodId? handle position = some id →
        ((run empty (ops ++ later)).step (.resolve handle position name)).1 =
          .ok (.resolved b)) ∧
    (run empty ops).natives.zipIdx = (Native.noOp, Native.noOpId) :: registrations ops := by
  have hreach : Reachable (run empty ops) := ⟨ops, rfl⟩
  have hmem := (hreach.ordered.class?_eq_some_iff.1 hc).1
  have hmethod : (run empty ops).method? id = some m := method?_eq_some_iff.2 ⟨c, hc, hm⟩
  have hfirst := (remembers ops).first id m hmethod
  refine ⟨⟨hfirst, (remembers ops).all id m hmethod⟩, ?_, ?_, natives_run ops⟩
  · intro handle position name hid
    have hname := hreach.className hmem (List.mem_of_getElem? hm)
    refine ⟨_, due_answer ops name hname, step_resolve hid hmethod name, ?_⟩
    rw [run_concat, method?_resolve, hmethod, Option.map_some, effect, if_pos hid]
  · intro b hb later handle position name hid
    cases hof : (run empty (ops ++ later)).methodOf handle position with
    | error failure =>
        rw [methodId?_of_error hof] at hid
        cases hid
    | ok found =>
        obtain ⟨c', m'⟩ := found
        have hid' := methodId?_of_ok hof
        rw [hid] at hid'
        have hmethod' := method?_of_methodOf hof
        rw [← Option.some.inj hid'] at hmethod'
        -- the history of the method starts as it did before
        have hbound' : m'.bound = some b := by
          rw [(remembers (ops ++ later)).first id m' hmethod', resolutions_append,
            List.head?_append, ← hfirst, hb]
          rfl
        exact step_resolve_of_bound hid hmethod' hbound' name

/-- A class with one native method. -/
def classWithNative : ClassFile where
  constants := [.ofText "demo/A", .classRef 1, .ofText "seven", .ofText "()I"]
  flags := ⟨1⟩
  thisClass := 2
  fields := []
  methods := [⟨⟨0x0101⟩, 3, 4, []⟩]

/-- The method is resolved before anything is registered for it, while
something is, and after that is taken back. -/
def lateRegistration : List Operation :=
  [.load "A" classWithNative none [],
    .resolve "A" 0 (.named "r"),
    .register (.named "r") ⟨"demo/A", "seven", "()I"⟩ Native.noOp,
    .resolve "A" 0 (.named "r"),
    .unregister (.named "r") ⟨"demo/A", "seven", "()I"⟩,
    .resolve "A" 0 .processWide]

/-- The first attempt is not remembered, the second one is for good. -/
theorem late_registration_binds : ∃ c m, (run empty lateRegistration).class? 0 = some c ∧
    c.methods[0]? = some m ∧ resolutions ⟨0, 0⟩ lateRegistration = [1, 1] ∧
    m.bound = some 1 ∧
    ∀ later handle position name,
      (run empty (lateRegistration ++ later)).methodId? handle position = some ⟨0, 0⟩ →
        ((run empty (lateRegistration ++ later)).step (.resolve handle position name)).1 =
          .ok (.resolved 1) := by
  have hsome : ((run empty lateRegistration).method? ⟨0, 0⟩).isSome := by cbv
  have hresolutions : resolutions ⟨0, 0⟩ lateRegistration = [1, 1] := by cbv
  obtain ⟨m, hmethod⟩ := Option.isSome_iff_exists.1 hsome
  obtain ⟨c, hc, hm⟩ := method?_eq_some_iff.1 hmethod
  obtain ⟨⟨hfirst, -⟩, -, hlater, -⟩ := native_binding_life_cycle lateRegistration hc hm
  have hbound : m.bound = some 1 := by rw [hfirst, hresolutions]; rfl
  exact ⟨c, m, hc, hm, hresolutions, hbound, hlater 1 hbound⟩

end Area

end MethodArea
