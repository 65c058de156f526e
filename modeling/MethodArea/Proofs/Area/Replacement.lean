/-
# `Proofs.Area.Replacement` — replacing code asks for what loading asks for

Loading makes the table of a method from the rows of its entry, replacing
code checks the table that was made.  Still, for every method of a class
that exists after a run, a replacement answers as loading would with the new
code in place of the old one (`Replacement`):

    bodiless     the method must not have code, and nothing changes
    malformed    the table of the rows cannot be made for the new code; the
                 error is the one that making it gives, and nothing changes
    accepted     it can be made; the answer is the code that was there, the
                 method has the new code, and nothing else changes

So longer code is accepted where shorter code is, and the code of a method
is what its last accepted replacement brought (`replacements`), or what it
was loaded with.  The second fact follows a method along the part of the run
after its class was loaded: before that no operation can name it.
-/
import Mathlib
import MethodArea.Proofs.Area.Frame
import MethodArea.Proofs.Area.Origins
import MethodArea.Proofs.Loading.Entries

namespace MethodArea

open Attribute ConstantPool

namespace Method

/-- Native and abstract methods have no body, class initializers always
do. -/
def Bodiless (m : Method) : Prop :=
  (m.isNative = true ∨ m.isAbstract = true) ∧ m.name ≠ "<clinit>"

theorem isBodiless_eq_true_iff {m : Method} : m.isBodiless = true ↔ m.Bodiless := by
  simp only [isBodiless, Bodiless, Bool.and_eq_true, Bool.or_eq_true, bne_iff_ne]
  rfl

end Method

namespace Area

/-! ## One replacement -/

/-- What replacing the code of a method comes to, for the rows of its
entry. -/
inductive Replacement (a : Area) (id : MethodId) (m : Method) (pool : ConstantPool)
    (rows : List HandlerRow) (bytes : List UInt8) : Except Failure Reply → Area → Prop
  | bodiless : m.Bodiless → Replacement a id m pool rows bytes
      (.error (.refused (.malformedAttribute "Code" (.unexpectedCode m.ref)))) a
  | malformed {e : Error} : ¬ m.Bodiless →
      ExceptionTable.ofRows m.ref pool bytes.length rows = .error e →
      Replacement a id m pool rows bytes (.error (.refused e)) a
  | accepted {table : ExceptionTable} {revision : Nat} {a' : Area} : ¬ m.Bodiless →
      ExceptionTable.ofRows m.ref pool bytes.length rows = .ok table →
      a.Rewrites id { m with code := some ⟨bytes, revision⟩ } a' →
      Replacement a id m pool rows bytes (.ok (.replaced m.codeBytes)) a'

theorem Ordered.replacement_step {a : Area} (h : a.Ordered) {handle : String} {position : Nat}
    {id : MethodId} {m : Method} (hid : a.methodId? handle position = some id)
    (hm : a.method? id = some m) {pool : ConstantPool} {codeLength : Nat} {rows : List HandlerRow}
    (hrows : ExceptionTable.ofRows m.ref pool codeLength rows = .ok m.handlers)
    (bytes : List UInt8) :
    Replacement a id m pool rows bytes (a.step (.replaceCode handle position bytes)).1
      (a.step (.replaceCode handle position bytes)).2 := by
  obtain ⟨c, hof⟩ := methodOf_of_methodId? hid hm
  rw [methodId?_of_ok hof] at hid
  cases hid
  have hremade := ExceptionTable.ofRows_eq_validate hrows bytes.length
  simp only [Area.step, Area.replaceCode, hof, Method.replaceCode]
  cases hbodiless : m.isBodiless with
  | true => exact .bodiless (Method.isBodiless_eq_true_iff.1 hbodiless)
  | false =>
      have hbody : ¬ m.Bodiless := by
        rw [← Method.isBodiless_eq_true_iff, hbodiless]
        exact Bool.false_ne_true
      cases hvalid : m.handlers.validate m.ref bytes.length with
      | error e =>
          rw [hvalid] at hremade
          exact .malformed hbody hremade
      | ok _ =>
          rw [hvalid] at hremade
          exact .accepted hbody hremade (h.rewrites hof rfl)

theorem Replacement.ok_iff {a a' : Area} {id : MethodId} {m : Method} {pool : ConstantPool}
    {rows : List HandlerRow} {bytes : List UInt8} {reply : Except Failure Reply}
    (h : Replacement a id m pool rows bytes reply a') :
    reply = .ok (.replaced m.codeBytes) ↔
      ¬ m.Bodiless ∧ ∃ table, ExceptionTable.ofRows m.ref pool bytes.length rows = .ok table := by
  cases h with
  | bodiless hbodiless =>
      constructor
      · intro hok
        cases hok
      · intro hok
        exact absurd hbodiless hok.1
  | malformed _ herror =>
      constructor
      · intro hok
        cases hok
      · intro hok
        obtain ⟨-, table, htable⟩ := hok
        rw [herror] at htable
        cases htable
  | accepted hbody htable _ => exact ⟨fun _ => ⟨hbody, _, htable⟩, fun _ => rfl⟩

/-! ## The code of a method along a run -/

/-- The code that an operation brings to a method, if it replaces the code of
that method and succeeds. -/
def replaced? (id : MethodId) : Area × Operation → Option (List UInt8)
  | (a, .replaceCode handle position bytes) =>
    if a.methodId? handle position = some id then
      match (a.step (.replaceCode handle position bytes)).1 with
      | .ok _ => some bytes
      | .error _ => none
    else none
  | _ => none

/-- The code that all accepted replacements have brought to a method, in
order. -/
def replacements (id : MethodId) (ops : List Operation) : List (List UInt8) :=
  (trace empty ops).filterMap (replaced? id)

/-- An operation changes the code of a method as it replaces it, and not
otherwise. -/
theorem codeBytes_effect {a : Area} {id : MethodId} {m : Method} (hm : a.method? id = some m)
    (op : Operation) : (a.effect id m op).codeBytes = (replaced? id (a, op)).or m.codeBytes := by
  cases op with
  | replaceCode handle position bytes =>
      by_cases hid : a.methodId? handle position = some id
      · obtain ⟨c, hof⟩ := methodOf_of_methodId? hid hm
        simp only [effect, replaced?, if_pos hid, step, replaceCode, hof]
        cases hreplace : m.replaceCode bytes with
        | error e => rfl
        | ok m' =>
            obtain ⟨-, -, rfl⟩ := Method.replaceCode_eq_ok_iff.1 hreplace
            rfl
      · simp only [effect, replaced?, if_neg hid]
        rfl
  | resolve handle position name =>
      simp only [effect, replaced?]
      split
      · cases m.answer (a.registry name) with
        | error e => rfl
        | ok b => rfl
      · rfl
  | load _ _ _ _ | hold _ _ | unload _ | intern _ | register _ _ _ | unregister _ _
  | registerNatives => rfl

/-- Along any further run a method has the code that was brought last, or the
code that it had. -/
theorem Ordered.codeBytes_run {a : Area} (h : a.Ordered) {id : MethodId} {m m' : Method}
    (hm : a.method? id = some m) {later : List Operation}
    (hm' : (Area.run a later).method? id = some m') :
    m'.codeBytes = ((trace a later).filterMap (replaced? id)).getLast?.or m.codeBytes := by
  induction later using List.reverseRecOn generalizing m' with
  | nil =>
      have hsame : some m = some m' := hm.symm.trans hm'
      cases hsame
      rfl
  | append_singleton later op ih =>
      rw [run_concat] at hm'
      rcases (h.run later).method?_step hm' with ⟨hnext, -⟩ | ⟨m₁, hm₁, rfl⟩
      · -- the class was there before, so it is not the one loaded now
        have hlt := h.cls_lt_nextClass hm
        rw [hnext] at hlt
        exact absurd hlt (Nat.not_lt.2 (nextClass_le_run a later))
      · rw [codeBytes_effect hm₁ op, ih hm₁, trace_append, List.filterMap_append,
          List.getLast?_append, Option.or_assoc]
        show _ = (([(Area.run a later, op)].filterMap (replaced? id)).getLast?).or _
        rw [List.filterMap_cons]
        cases replaced? id (Area.run a later, op) with
        | none => rfl
        | some bytes => rfl

theorem Ordered.replaced?_eq_none {a : Area} (h : a.Ordered) {id : MethodId}
    (hid : a.nextClass ≤ id.cls) (op : Operation) : replaced? id (a, op) = none := by
  cases op with
  | replaceCode handle position bytes =>
      simp only [replaced?]
      exact if_neg (h.methodId?_ne hid handle position)
  | load _ _ _ _ | hold _ _ | unload _ | intern _ | resolve _ _ _ | register _ _ _
  | unregister _ _ | registerNatives => rfl

/-- No code is replaced under an identity that is not given out yet. -/
theorem replacements_eq_nil {ops : List Operation} {id : MethodId}
    (hid : (run empty ops).nextClass ≤ id.cls) : replacements id ops = [] := by
  induction ops using List.reverseRecOn with
  | nil => rfl
  | append_singleton ops op ih =>
      rw [run_concat] at hid
      have hbefore := Nat.le_trans (nextClass_le_step _ op) hid
      have hop := (ordered_empty.run ops).replaced?_eq_none hbefore op
      rw [replacements, trace_concat, List.filterMap_append, List.filterMap_cons_none hop,
        ← replacements, ih hbefore]
      rfl

/-- A method has the code that was brought last, or the code that it was
loaded with. -/
theorem codeBytes_of_load {before after : List Operation} {op : Operation} {id : MethodId}
    {loaded m : Method} (hid : id.cls = (run empty before).nextClass)
    (hloaded : (run empty (before ++ [op])).method? id = some loaded)
    (hm : (run empty (before ++ op :: after)).method? id = some m) :
    m.codeBytes = (replacements id (before ++ op :: after)).getLast?.or loaded.codeBytes := by
  have hop := (ordered_empty.run before).replaced?_eq_none (Nat.le_of_eq hid.symm) op
  have hnone : replacements id (before ++ [op]) = [] := by
    rw [replacements, trace_concat, List.filterMap_append, List.filterMap_cons_none hop,
      ← replacements, replacements_eq_nil (Nat.le_of_eq hid.symm)]
    rfl
  rw [List.append_cons, run_append] at hm
  rw [List.append_cons, replacements, trace_append, List.filterMap_append, ← replacements, hnone,
    List.nil_append]
  exact (ordered_empty.run (before ++ [op])).codeBytes_run hloaded hm

/-! ## Every method, after any run -/

/-- Replacing the code of a method asks for what loading asks for, changes
nothing where it fails, and is what the code of the method comes from. -/
theorem replacement_revalidates (ops : List Operation) {id : MethodId} {c : Class} {m : Method}
    (hc : (run empty ops).class? id.cls = some c) (hm : c.methods[id.position]? = some m) :
    ∃ file info, Origin ops id c file info ∧
      (∀ handle position bytes, (run empty ops).methodId? handle position = some id →
        Replacement (run empty ops) id m c.pool (info.rows file.constants) bytes
          ((run empty ops).step (.replaceCode handle position bytes)).1
          ((run empty ops).step (.replaceCode handle position bytes)).2 ∧
        (((run empty ops).step (.replaceCode handle position bytes)).1 =
            .ok (.replaced m.codeBytes) ↔
          ¬ m.Bodiless ∧ ∃ table, ExceptionTable.ofRows m.ref c.pool bytes.length
            (info.rows file.constants) = .ok table) ∧
        ∀ longer, bytes.length ≤ longer.length →
          ((run empty ops).step (.replaceCode handle position bytes)).1 =
            .ok (.replaced m.codeBytes) →
          ((run empty ops).step (.replaceCode handle position longer)).1 =
            .ok (.replaced m.codeBytes)) ∧
      m.codeBytes = (replacements id ops).getLast?.or
        ((info.frame? file.constants).map CodeFrame.code) := by
  obtain ⟨before, op, after, rfl, hid, file, info, _, _, loaded, horigin, hload, hloaded, hfixed⟩ :=
    exists_entry ops hc hm
  have hmethod := method?_eq_some_iff.2 ⟨c, hc, hm⟩
  have htakes := takesFrom_load horigin.pool hload
  have hrows : ExceptionTable.ofRows m.ref c.pool loaded.codeLength (info.rows file.constants) =
      .ok m.handlers := by
    rw [← Method.congr_of_fixed (f := fun m => m.ref) (fun _ => rfl) hfixed,
      ← Method.congr_of_fixed (f := Method.handlers) (fun _ => rfl) hfixed]
    exact htakes.handlers
  have hordered : (run empty (before ++ op :: after)).Ordered := ordered_empty.run _
  refine ⟨file, info, horigin, ?_, ?_⟩
  · intro handle position bytes hhandle
    have hreplacement := hordered.replacement_step hhandle hmethod hrows bytes
    refine ⟨hreplacement, hreplacement.ok_iff, ?_⟩
    intro longer hle hok
    obtain ⟨hbody, table, htable⟩ := hreplacement.ok_iff.1 hok
    refine (hordered.replacement_step hhandle hmethod hrows longer).ok_iff.2 ⟨hbody, table, ?_⟩
    exact ExceptionTable.ofRows_mono htable hle
  · have hlast := codeBytes_of_load hid hloaded hmethod
    rw [← htakes.codeBytes]
    exact hlast

/-- A method of three bytes, protected up to the last one, which is where its
handler starts. -/
def handlerAtEndEntry : MemberInfo :=
  ⟨⟨1⟩, 4, 5, [⟨3, [0, 2, 0, 1, 0, 0, 0, 3, 0, 0, 0xb1, 0, 1, 0, 0, 0, 2, 0, 2, 0, 0, 0, 0]⟩]⟩

/-- A class with that method. -/
def handlerAtEnd : ClassFile where
  constants := [.ofText "demo/A", .classRef 1, .ofText "Code", .ofText "run", .ofText "()V"]
  flags := ⟨1⟩
  thisClass := 2
  fields := []
  methods := [handlerAtEndEntry]

/-- A replacement that is too short, and one that is not. -/
def shortThenLong : List Operation :=
  [.load "A" handlerAtEnd none [], .replaceCode "A" 0 [0, 0], .replaceCode "A" 0 [0, 0, 0, 0xb1]]

/-- The code is that of the second replacement.  Two bytes are refused again,
since no table can be made for them, and three are not. -/
theorem replacement_revalidates_too_short :
    ∃ c m, (run empty shortThenLong).class? 0 = some c ∧ c.methods[0]? = some m ∧
      (run empty shortThenLong).methodId? "A" 0 = some ⟨0, 0⟩ ∧
      m.codeBytes = some [0, 0, 0, 0xb1] ∧
      replacements ⟨0, 0⟩ shortThenLong = [[0, 0, 0, 0xb1]] ∧
      Origin shortThenLong ⟨0, 0⟩ c handlerAtEnd handlerAtEndEntry ∧
      handlerAtEndEntry.rows handlerAtEnd.constants = [⟨0, 2, 2, 0⟩] ∧
      (¬ ∃ table, ExceptionTable.ofRows m.ref c.pool 2 [⟨0, 2, 2, 0⟩] = .ok table) ∧
      ∃ table, ExceptionTable.ofRows m.ref c.pool 3 [⟨0, 2, 2, 0⟩] = .ok table := by
  have hrun : ((run empty shortThenLong).class? 0).map (fun c => c.methods.map (fun m =>
      (m.isBodiless, m.codeBytes))) = some [(false, some [0, 0, 0, 0xb1])] := by cbv
  have hhandle : (run empty shortThenLong).methodId? "A" 0 = some ⟨0, 0⟩ := by cbv
  have hbrought : replacements ⟨0, 0⟩ shortThenLong = [[0, 0, 0, 0xb1]] := by cbv
  have hrows : handlerAtEndEntry.rows handlerAtEnd.constants = [⟨0, 2, 2, 0⟩] := by cbv
  have hshort : ((run empty shortThenLong).step (.replaceCode "A" 0 [0, 0])).1 =
      .error (.refused (.malformedExceptionTable ⟨"demo/A", "run", "()V"⟩ 0
        (.handlerBeyondCode 2 2))) := by cbv
  have hlong : ((run empty shortThenLong).step (.replaceCode "A" 0 [0, 0, 0])).1 =
      .ok (.replaced (some [0, 0, 0, 0xb1])) := by cbv
  obtain ⟨c, hc, hmethods⟩ := Option.map_eq_some_iff.1 hrun
  obtain ⟨m, hm, hfacts⟩ := List.map_eq_singleton_iff.1 hmethods
  obtain ⟨hbodiless, hcode⟩ := Prod.mk.inj hfacts
  have hget : c.methods[0]? = some m := by simp [hm]
  have hbody : ¬ m.Bodiless := by
    rw [← Method.isBodiless_eq_true_iff, hbodiless]
    exact Bool.false_ne_true
  obtain ⟨file, info, horigin, hreplace, -⟩ :=
    @replacement_revalidates shortThenLong ⟨0, 0⟩ c m hc hget
  -- the class is the first one to be loaded
  have hops : shortThenLong = [] ++ .load "A" handlerAtEnd none [] :: shortThenLong.tail := rfl
  have hloaded : (run empty ([] ++ [.load "A" handlerAtEnd none []])).nextClass = 1 := by cbv
  obtain ⟨rfl, rfl⟩ := horigin.eq_of_load hops rfl hloaded rfl rfl
  obtain ⟨-, hshortIff, -⟩ := hreplace "A" 0 [0, 0] hhandle
  obtain ⟨-, hlongIff, -⟩ := hreplace "A" 0 [0, 0, 0] hhandle
  rw [hshort, hrows] at hshortIff
  rw [hlong, hcode, hrows] at hlongIff
  refine ⟨c, m, hc, hget, hhandle, hcode, hbrought, horigin, hrows, ?_, (hlongIff.1 rfl).2⟩
  intro htable
  cases hshortIff.2 ⟨hbody, htable⟩

end Area

end MethodArea
