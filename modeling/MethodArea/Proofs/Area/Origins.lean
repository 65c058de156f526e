/-
# `Proofs.Area.Origins` — classes and the files that they come from

A class that exists after a run was loaded by one of its operations, which
answered that it was (`exists_load`), and is still what was loaded then,
code and bindings of its methods apart (`fixed_eq_of_load`).  So its pool is
the resolved pool of the file of that load, and each of its methods comes
from the entry in its place (`Origin`, `exists_entry`): handlers, line table
and all else that loading gave it are still there.
-/
import MethodArea.Proofs.Area.Loads

namespace MethodArea

namespace Class

theorem ofRaw_of_load {id : ClassId} {file : ClassFile} {superClass : Option ClassId}
    {interfaces : List ClassId} {s s' : Interner} {c : Class}
    (h : load id file superClass interfaces s = (.ok c, s')) :
    ConstantPool.ofRaw file.constants = .ok c.pool := by
  obtain ⟨_, _, hheader, -, rfl⟩ := exists_header_of_load h
  exact (Header.ofFile_eq_ok hheader).1

end Class

namespace Area

/-- A class that exists after a run was loaded by one of its operations. -/
theorem exists_load (ops : List Operation) {id : ClassId} {c : Class}
    (hc : (run empty ops).class? id = some c) :
    ∃ before op after, ops = before ++ op :: after ∧ id = (run empty before).nextClass ∧
      ∃ file superId interfaceIds s s' d, op.file? = some file ∧
        Class.load id file superId interfaceIds s = (.ok d, s') ∧
        ((run empty before).step op).1 = .ok (.loaded d) ∧
        (run empty (before ++ [op])).class? id = some d := by
  induction ops using List.reverseRecOn generalizing c with
  | nil => cases hc
  | append_singleton ops op ih =>
      have hstep := hc
      rw [run_concat] at hstep
      rcases (ordered_empty.run ops).loaded_or_fixed hstep with hloaded | ⟨d, hd, -⟩
      · obtain ⟨_, file, _, _, superId, interfaceIds, _, rfl, -, hload, -⟩ :=
          exists_load_of_loaded? hloaded
        have hid : id = (run empty ops).nextClass :=
          (class?_id hc).symm.trans (Class.load_eq_ok hload).1
        rw [← hid] at hload
        exact ⟨ops, _, [], rfl, hid, file, superId, interfaceIds, _, _, c, rfl, hload,
          loaded?_eq_some_iff.1 hloaded, hc⟩
      · obtain ⟨before, op', after, rfl, hid, hrest⟩ := ih hd
        refine ⟨before, op', after ++ [op], ?_, hid, hrest⟩
        rw [List.append_assoc, List.cons_append]

/-- The class is still what was loaded, cells apart. -/
theorem fixed_eq_of_load {before after : List Operation} {op : Operation} {id : ClassId}
    {c d : Class} (hd : (run empty (before ++ [op])).class? id = some d)
    (hc : (run empty (before ++ op :: after)).class? id = some c) : d.fixed = c.fixed := by
  rw [List.append_cons] at hc
  exact (fixed_eq_of_later hd hc).symm

/-- The entry of a class file that a method of a class was loaded from: the
load of the file answered that class, cells apart, under the identity that
it has. -/
structure Origin (ops : List Operation) (id : MethodId) (c : Class) (file : ClassFile)
    (info : MemberInfo) : Prop where
  loaded : ∃ before op after, ops = before ++ op :: after ∧ op.file? = some file ∧
    ∃ d, ((run empty before).step op).1 = .ok (.loaded d) ∧ d.id = id.cls ∧ d.fixed = c.fixed
  pool : ConstantPool.ofRaw file.constants = .ok c.pool
  entry : file.methods[id.position]? = some info

/-- An operation that is answered by a class gives out one identity. -/
theorem nextClass_of_loaded {a : Area} {op : Operation} {d : Class}
    (h : (a.step op).1 = .ok (.loaded d)) :
    d.id = a.nextClass ∧ (a.step op).2.nextClass = a.nextClass + 1 := by
  obtain ⟨handle, _, _, _, _, _, descriptors, -, -, hload, hstep⟩ :=
    exists_load_of_loaded? (loaded?_eq_some_iff.2 h)
  obtain ⟨_, _, -, hadd⟩ := add_eq { a with descriptors } handle d
  refine ⟨(Class.load_eq_ok hload).1, ?_⟩
  rw [hstep, hadd]

/-- No identity is given out twice, so that the place of a run where one is
given out can be told by counting. -/
theorem Origin.file?_eq {ops before after : List Operation} {op : Operation} {id : MethodId}
    {c : Class} {file : ClassFile} {info : MemberInfo} (h : Origin ops id c file info)
    (hops : ops = before ++ op :: after) (hfirst : (run empty before).nextClass = id.cls)
    (hthen : (run empty (before ++ [op])).nextClass = id.cls + 1) : op.file? = some file := by
  obtain ⟨before', op', after', hops', hfile, d, hreply, hid, -⟩ := h.loaded
  obtain ⟨hfirst', hthen'⟩ := nextClass_of_loaded hreply
  rw [← run_concat] at hthen'
  rw [hid] at hfirst'
  have hnot : ∀ {front : List Operation} {o : Operation} {rest : List Operation},
      (run empty (front ++ [o])).nextClass = id.cls + 1 →
      (run empty (front ++ o :: rest)).nextClass ≠ id.cls := by
    intro front o rest hcount heq
    have hle := nextClass_le_run (run empty (front ++ [o])) rest
    rw [← run_append, List.append_assoc, List.singleton_append, hcount, heq] at hle
    exact Nat.not_succ_le_self _ hle
  rcases List.append_eq_append_iff.1 (hops.symm.trans hops') with
    ⟨more, hmore, hrest⟩ | ⟨more, hmore, hrest⟩
  · cases more with
    | nil =>
        obtain ⟨rfl, -⟩ := List.cons.inj hrest
        exact hfile
    | cons o more =>
        obtain ⟨rfl, -⟩ := List.cons.inj hrest
        exact absurd (hmore ▸ hfirst'.symm) (hnot hthen)
  · cases more with
    | nil =>
        obtain ⟨rfl, -⟩ := List.cons.inj hrest
        exact hfile
    | cons o more =>
        obtain ⟨rfl, -⟩ := List.cons.inj hrest
        have hcount : (run empty (before' ++ [op'])).nextClass = id.cls + 1 := by
          rw [hthen', ← hfirst']
        exact absurd (hmore ▸ hfirst) (hnot hcount)

/-- Where the load that gives out the identity is known, so are the file and
the entry. -/
theorem Origin.eq_of_load {ops before after : List Operation} {op : Operation} {id : MethodId}
    {c : Class} {file file' : ClassFile} {info info' : MemberInfo} (h : Origin ops id c file info)
    (hops : ops = before ++ op :: after) (hfirst : (run empty before).nextClass = id.cls)
    (hthen : (run empty (before ++ [op])).nextClass = id.cls + 1) (hfile : op.file? = some file')
    (hinfo : file'.methods[id.position]? = some info') : file = file' ∧ info = info' := by
  obtain rfl : file = file' := Option.some.inj ((h.file?_eq hops hfirst hthen).symm.trans hfile)
  exact ⟨rfl, Option.some.inj (h.entry.symm.trans hinfo)⟩

/-- A method of a class that exists was loaded from an entry by one of the
operations, and only its cells may have changed since. -/
theorem exists_entry (ops : List Operation) {id : MethodId} {c : Class}
    (hc : (run empty ops).class? id.cls = some c) {m : Method}
    (hm : c.methods[id.position]? = some m) :
    ∃ before op after, ops = before ++ op :: after ∧ id.cls = (run empty before).nextClass ∧
      ∃ file info s s' loaded, Origin ops id c file info ∧
        Method.load c.pool c.name info s = (.ok loaded, s') ∧
        (run empty (before ++ [op])).method? id = some (loaded.pointBack id.cls) ∧
        (loaded.pointBack id.cls).fixed = m.fixed := by
  obtain ⟨before, op, after, rfl, hid, file, _, _, _, _, d, hfile, hload, hreply, hd⟩ :=
    exists_load ops hc
  have hfixed := fixed_eq_of_load hd hc
  obtain ⟨pointing, hpointing, hsame⟩ := Class.exists_method_of_fixed hfixed hm
  obtain ⟨info, s, s', loaded, hinfo, hmethod, rfl⟩ :=
    Class.exists_entry_of_load hload hpointing
  have hpool := Class.pool_eq_of_fixed hfixed
  rw [hpool, Class.name_eq_of_fixed hfixed] at hmethod
  have horigin : Origin (before ++ op :: after) id c file info :=
    ⟨⟨before, op, after, rfl, hfile, d, hreply, (Class.load_eq_ok hload).1, hfixed⟩,
      hpool ▸ Class.ofRaw_of_load hload, hinfo⟩
  exact ⟨before, op, after, rfl, hid, file, info, s, s', loaded, horigin, hmethod,
    method?_eq_some_iff.2 ⟨d, hd, hpointing⟩, hsame⟩

end Area

end MethodArea
