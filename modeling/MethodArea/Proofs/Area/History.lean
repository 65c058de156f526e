/-
# `Proofs.Area.History` — what a run has done

A run is more than the area that it ends in.  `trace` lists its operations,
each with the area that it was carried out in, and what has happened to one
thing is read off that list:

    resolutions id ops     what a method was found to be bound to, in order
    standing name key ops  the registration under a name that stands
    registrations ops      all implementations, by the identities they got

The last two look at single registrations; installing the built-in natives
counts as one registration for each of them (`Operation.single`).

Two theorems say that the area remembers what it has to.  Its registries
hold what stands (`registry_get?_run`), and its list of implementations
gives to each the identity of its registration (`natives_run`); an identity
is a place in that list, so no two registrations share one.
-/
import MethodArea.Proofs.Area.Effects

namespace MethodArea.Area

/-! ## Runs with their states -/

/-- The operations of a run, each with the area that it is carried out
in. -/
def trace (a : Area) : List Operation → List (Area × Operation)
  | [] => []
  | op :: ops => (a, op) :: trace (a.step op).2 ops

theorem trace_append (a : Area) (ops ops' : List Operation) :
    trace a (ops ++ ops') = trace a ops ++ trace (run a ops) ops' := by
  induction ops generalizing a with
  | nil => rfl
  | cons op ops ih => exact congrArg ((a, op) :: ·) (ih (a.step op).2)

theorem trace_concat (ops : List Operation) (op : Operation) :
    trace empty (ops ++ [op]) = trace empty ops ++ [(run empty ops, op)] :=
  trace_append empty ops [op]

/-- What is read off an area and changes only where something is written is,
over a run, what was written last. -/
theorem last_written {β : Type} (look : Area → β) (written? : Area × Operation → Option β)
    {ops : List Operation}
    (hstep : ∀ a, ∀ op ∈ ops, look (a.step op).2 = (written? (a, op)).getD (look a)) (a : Area) :
    look (run a ops) = (((trace a ops).filterMap written?).getLast?).getD (look a) := by
  induction ops generalizing a with
  | nil => rfl
  | cons op ops ih =>
      have hrest := ih (fun a op' hop' => hstep a op' (List.mem_cons_of_mem _ hop')) (a.step op).2
      rw [hstep a op List.mem_cons_self] at hrest
      show look (run (a.step op).2 ops) = _
      rw [hrest, trace, List.filterMap_cons]
      cases written? (a, op) with
      | none => rfl
      | some entry => rw [List.getLast?_cons, Option.getD_some, Option.getD_some]

/-! ## Single registrations -/

/-- An operation as single registrations, if it makes several.  Which keys the
built-in natives have is what `mem_builtIn_iff` says. -/
def Operation.single : Operation → List Operation
  | .registerNatives =>
    Native.builtIn.map (fun (key, native) => .register .processWide key native)
  | op => [op]

/-- A list of operations, with all registrations single. -/
def singles (ops : List Operation) : List Operation := ops.flatMap Operation.single

theorem run_single (a : Area) (op : Operation) : run a op.single = (a.step op).2 := by
  cases op with
  | registerNatives => rfl
  | load _ _ _ _ | hold _ _ | unload _ | intern _ | replaceCode _ _ _ | resolve _ _ _
  | register _ _ _ | unregister _ _ => rfl

theorem run_singles (a : Area) (ops : List Operation) : run a (singles ops) = run a ops := by
  induction ops generalizing a with
  | nil => rfl
  | cons op ops ih =>
      have hcons : singles (op :: ops) = op.single ++ singles ops := List.flatMap_cons
      rw [hcons, run_append, run_single]
      exact ih (a.step op).2

theorem registerNatives_not_mem_singles (ops : List Operation) :
    Operation.registerNatives ∉ singles ops := by
  intro h
  obtain ⟨op, -, hop⟩ := List.mem_flatMap.1 h
  cases op with
  | registerNatives =>
      obtain ⟨entry, -, hentry⟩ := List.mem_map.1 hop
      cases hentry
  | load _ _ _ _ | hold _ _ | unload _ | intern _ | replaceCode _ _ _ | resolve _ _ _
  | register _ _ _ | unregister _ _ => cases List.mem_singleton.1 hop

/-- What registrations are about: the registries and the implementations. -/
def nativeState (a : Area) : Table RegistryName Registry × List Native :=
  (a.registries, a.natives)

/-- Whether an operation is about registrations. -/
def Operation.isRegistration : Operation → Bool
  | .register _ _ _ | .unregister _ _ | .registerNatives => true
  | _ => false

theorem nativeState_assign (a : Area) (handle : String) (id : ClassId) :
    (a.assign handle id).nativeState = a.nativeState := by
  obtain ⟨_, _, -, heq⟩ := a.assign_eq handle id
  rw [heq]
  rfl

theorem nativeState_step (a : Area) {op : Operation} (hop : op.isRegistration = false) :
    (a.step op).2.nativeState = a.nativeState := by
  have hsame : ∀ {b d : Area}, d = b → b.nativeState = a.nativeState →
      d.nativeState = a.nativeState := fun heq h => heq ▸ h
  cases op with
  | load handle file superClass interfaces =>
      rcases a.load_cases handle file superClass interfaces with
        ⟨descriptors, heq⟩ | ⟨_, _, descriptors, c, -, heq⟩
      · exact hsame heq rfl
      · exact hsame heq (nativeState_assign _ handle c.id)
  | hold handle id =>
      show (a.hold handle id).2.nativeState = a.nativeState
      rcases a.hold_eq_cases handle id with ⟨-, heq⟩ | ⟨_, -, heq⟩
      · rw [heq]
      · rw [heq]
        exact nativeState_assign _ handle id
  | unload handle =>
      show (a.unload handle).2.nativeState = a.nativeState
      rcases a.unload_eq_cases handle with ⟨-, heq⟩ | ⟨_, -, heq⟩
      · rw [heq]
      · rw [heq]
        rfl
  | replaceCode handle position bytes =>
      rcases a.replaceCode_cases handle position bytes with heq | ⟨id, m, heq⟩
      · exact hsame heq rfl
      · exact hsame heq rfl
  | resolve handle position name =>
      rcases a.resolve_cases handle position name with heq | ⟨id, m, heq⟩
      · exact hsame heq rfl
      · exact hsame heq rfl
  | intern _ => rfl
  | register _ _ _ | unregister _ _ | registerNatives => cases hop

/-! ## What stands in a registry -/

/-- What an operation makes of a name in a registry, if it is about that
name: a registration that stands from now on, or none. -/
def written? (name : RegistryName) (key : MethodRef) :
    Area × Operation → Option (Option BindingId)
  | (a, .register name' key' native) =>
    if name = name' ∧ key = key' then some (some (a.register name' key' native).1.binding)
    else none
  | (_, .unregister name' key') => if name = name' ∧ key = key' then some none else none
  | _ => none

/-- The registration under a name that was made last and not taken back
since. -/
def standing (name : RegistryName) (key : MethodRef) (ops : List Operation) :
    Option BindingId :=
  ((trace empty (singles ops)).filterMap (written? name key)).getLast?.join

theorem registry_setRegistry (a : Area) (name name' : RegistryName) (r : Registry) :
    (a.setRegistry name' r).registry name = if name = name' then r else a.registry name := by
  simp only [registry, setRegistry, Table.get?_insert]
  split
  · rfl
  · rfl

/-- A registry changes under the name that an operation is about, and
nowhere else. -/
theorem registry_get?_step (a : Area) {op : Operation} (hop : op ≠ .registerNatives)
    (name : RegistryName) (key : MethodRef) :
    ((a.step op).2.registry name).get? key =
      (written? name key (a, op)).getD ((a.registry name).get? key) := by
  have hkept : op.isRegistration = false → written? name key (a, op) = none →
      ((a.step op).2.registry name).get? key =
        (written? name key (a, op)).getD ((a.registry name).get? key) := by
    intro hno hnone
    have hregistries : (a.step op).2.registries = a.registries :=
      congrArg Prod.fst (nativeState_step a hno)
    rw [hnone, Option.getD_none, registry, registry, hregistries]
  cases op with
  | register name' key' native =>
      show ((Area.setRegistry _ name' ((a.registry name').insert key' _)).registry name).get? key
        = _
      rw [registry_setRegistry]
      by_cases hname : name = name'
      · subst hname
        rw [if_pos rfl, Table.get?_insert]
        by_cases hkey : key = key'
        · simp [written?, hkey, Area.register]
        · simp [written?, hkey]
      · rw [if_neg hname]
        simp [written?, hname]
        rfl
  | unregister name' key' =>
      show ((Area.setRegistry a name' ((a.registry name').erase key')).registry name).get? key = _
      rw [registry_setRegistry]
      by_cases hname : name = name'
      · subst hname
        rw [if_pos rfl, Table.get?_erase]
        by_cases hkey : key = key'
        · simp [written?, hkey]
        · simp [written?, hkey]
      · rw [if_neg hname]
        simp [written?, hname]
  | load _ _ _ _ | hold _ _ | unload _ | intern _ | replaceCode _ _ _ | resolve _ _ _ =>
      exact hkept rfl rfl
  | registerNatives => exact absurd rfl hop

/-- Over a run, the last operation that was about a name counts. -/
theorem registry_get?_trace (name : RegistryName) (key : MethodRef) (a : Area)
    {ops : List Operation} (h : Operation.registerNatives ∉ ops) :
    ((run a ops).registry name).get? key =
      (((trace a ops).filterMap (written? name key)).getLast?).getD
        ((a.registry name).get? key) := by
  refine last_written (fun a => (a.registry name).get? key) (written? name key) ?_ a
  intro a op hop
  exact registry_get?_step a (fun heq => h (heq ▸ hop)) name key

/-- The registries of an area hold what stands. -/
theorem registry_get?_run (ops : List Operation) (name : RegistryName) (key : MethodRef) :
    ((run empty ops).registry name).get? key = standing name key ops := by
  have h := registry_get?_trace name key empty (registerNatives_not_mem_singles ops)
  rw [run_singles] at h
  rw [h, standing]
  cases ((trace empty (singles ops)).filterMap (written? name key)).getLast? with
  | none => rfl
  | some entry => rfl

/-! ## The implementations and their identities -/

/-- The implementation that an operation registers, and the identity that
it answers. -/
def registration? : Area × Operation → Option (Native × BindingId)
  | (a, .register name key native) => some (native, (a.register name key native).1.binding)
  | _ => none

/-- All registrations of a run, in order. -/
def registrations (ops : List Operation) : List (Native × BindingId) :=
  (trace empty (singles ops)).filterMap registration?

theorem natives_step (a : Area) {op : Operation} (hop : op ≠ .registerNatives) :
    (a.step op).2.natives.zipIdx = a.natives.zipIdx ++ (registration? (a, op)).toList := by
  have hkept : op.isRegistration = false → registration? (a, op) = none →
      (a.step op).2.natives.zipIdx = a.natives.zipIdx ++ (registration? (a, op)).toList := by
    intro hno hnone
    have hnatives : (a.step op).2.natives = a.natives :=
      congrArg Prod.snd (nativeState_step a hno)
    rw [hnatives, hnone, Option.toList_none, List.append_nil]
  cases op with
  | register name key native =>
      show (a.natives ++ [native]).zipIdx = a.natives.zipIdx ++ [(native, a.natives.length)]
      rw [List.zipIdx_append, Nat.zero_add]
      rfl
  | unregister name key => exact (List.append_nil _).symm
  | load _ _ _ _ | hold _ _ | unload _ | intern _ | replaceCode _ _ _ | resolve _ _ _ =>
      exact hkept rfl rfl
  | registerNatives => exact absurd rfl hop

theorem natives_trace (a : Area) {ops : List Operation}
    (h : Operation.registerNatives ∉ ops) :
    (run a ops).natives.zipIdx = a.natives.zipIdx ++ (trace a ops).filterMap registration? := by
  induction ops generalizing a with
  | nil => exact (List.append_nil _).symm
  | cons op ops ih =>
      obtain ⟨hop, hops⟩ := not_or.1 (mt List.mem_cons.2 h)
      have hrest := ih (a.step op).2 hops
      rw [natives_step a (Ne.symm hop)] at hrest
      show (run (a.step op).2 ops).natives.zipIdx = _
      rw [hrest, trace, List.filterMap_cons, List.append_assoc]
      cases registration? (a, op) with
      | none => rfl
      | some registration => rfl

/-- The identity of an implementation is its place in the list of all,
after the one that does nothing. -/
theorem natives_run (ops : List Operation) :
    (run empty ops).natives.zipIdx = (Native.noOp, Native.noOpId) :: registrations ops := by
  have h := natives_trace empty (registerNatives_not_mem_singles ops)
  rwa [run_singles] at h

/-! ## What a method was bound to -/

/-- What an operation finds a method to be bound to, if it resolves that
method and succeeds. -/
def resolved? (id : MethodId) : Area × Operation → Option BindingId
  | (a, .resolve handle position name) =>
    if a.methodId? handle position = some id then
      match (a.step (.resolve handle position name)).1 with
      | .ok (.resolved binding) => some binding
      | _ => none
    else none
  | _ => none

/-- What all successful resolutions of a method have answered, in order. -/
def resolutions (id : MethodId) (ops : List Operation) : List BindingId :=
  (trace empty ops).filterMap (resolved? id)

theorem resolutions_append (id : MethodId) (ops ops' : List Operation) :
    resolutions id (ops ++ ops') =
      resolutions id ops ++ (trace (run empty ops) ops').filterMap (resolved? id) := by
  rw [resolutions, trace_append, List.filterMap_append]
  rfl

theorem resolutions_concat (id : MethodId) (ops : List Operation) (op : Operation) :
    resolutions id (ops ++ [op]) =
      resolutions id ops ++ (resolved? id (run empty ops, op)).toList := by
  rw [resolutions, trace_concat, List.filterMap_append, List.filterMap_cons]
  cases resolved? id (run empty ops, op) with
  | none => rfl
  | some binding => rfl

end MethodArea.Area
