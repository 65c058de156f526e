/-
# `Proofs.ConstantPool.Resolution` — a resolved pool, entry by entry

What a resolved pool answers at an index is settled by the raw pool alone:
the entry that stands there (`constant?`), the text of a text entry (`text?`),
and the name of a class entry, which is the text that its own index leads
to (`className?`).  `utf8_eq` and `className_eq` say so for every index and
for pools of every size.  An index has 16 bits, so it never reaches the
positions whose own index is cut, where a text entry would take its text
from another place.

`Related` is the pointwise relation behind them: a resolved entry is of the
kind of the raw one and differs from it in its text or its name only.
-/
import MethodArea.ConstantPool
import MethodArea.Proofs.Outcome

namespace MethodArea

/-- Entries of one kind whose texts and whose names go together; all else
about them is the same. -/
inductive Constant.Related {τ ν τ' ν' : Type} (text : τ → τ' → Prop) (name : ν → ν' → Prop) :
    Constant τ ν → Constant τ' ν' → Prop
  | utf8 {t : τ} {t' : τ'} : text t t' → Related text name (.utf8 t) (.utf8 t')
  | integer (v : Int32) : Related text name (.integer v) (.integer v)
  | float (b : UInt32) : Related text name (.float b) (.float b)
  | long (v : Int64) : Related text name (.long v) (.long v)
  | double (b : UInt64) : Related text name (.double b) (.double b)
  | classRef {n : ν} {n' : ν'} : name n n' → Related text name (.classRef n) (.classRef n')
  | string {n : ν} {n' : ν'} : name n n' → Related text name (.string n) (.string n')
  | fieldRef (c n : UInt16) : Related text name (.fieldRef c n) (.fieldRef c n)
  | methodRef (c n : UInt16) : Related text name (.methodRef c n) (.methodRef c n)
  | interfaceMethodRef (c n : UInt16) :
      Related text name (.interfaceMethodRef c n) (.interfaceMethodRef c n)
  | nameAndType (n d : UInt16) : Related text name (.nameAndType n d) (.nameAndType n d)
  | methodHandle (k : UInt8) (i : UInt16) :
      Related text name (.methodHandle k i) (.methodHandle k i)
  | methodType (d : UInt16) : Related text name (.methodType d) (.methodType d)
  | dynamic (b n : UInt16) : Related text name (.dynamic b n) (.dynamic b n)
  | invokeDynamic (b n : UInt16) : Related text name (.invokeDynamic b n) (.invokeDynamic b n)
  | moduleRef {n : ν} {n' : ν'} : name n n' → Related text name (.moduleRef n) (.moduleRef n')
  | packageRef {n : ν} {n' : ν'} : name n n' → Related text name (.packageRef n) (.packageRef n')
  | empty : Related text name .empty .empty

theorem Constant.related_of_resolve {ε τ ν τ' ν' : Type} {text : τ → Except ε τ'}
    {name : ν → Except ε ν'} {c : Constant τ ν} {c' : Constant τ' ν'}
    (h : c.resolve text name = .ok c') :
    Related (fun t t' => text t = .ok t') (fun n n' => name n = .ok n') c c' := by
  cases c with
  | utf8 t =>
      obtain ⟨t', ht, rfl⟩ := Except.map_eq_ok_iff.1 h
      exact .utf8 ht
  | classRef n =>
      obtain ⟨n', hn, rfl⟩ := Except.map_eq_ok_iff.1 h
      exact .classRef hn
  | string n =>
      obtain ⟨n', hn, rfl⟩ := Except.map_eq_ok_iff.1 h
      exact .string hn
  | moduleRef n =>
      obtain ⟨n', hn, rfl⟩ := Except.map_eq_ok_iff.1 h
      exact .moduleRef hn
  | packageRef n =>
      obtain ⟨n', hn, rfl⟩ := Except.map_eq_ok_iff.1 h
      exact .packageRef hn
  | integer _ | float _ | long _ | double _ | fieldRef _ _ | methodRef _ _
  | interfaceMethodRef _ _ | nameAndType _ _ | methodHandle _ _ | methodType _ | dynamic _ _
  | invokeDynamic _ _ | empty =>
      cases h
      constructor

namespace ConstantPool

/-! ## What a raw pool says at an index -/

/-- The entry at an index. -/
def constant? (raw : List RawConstant) (index : UInt16) : Option RawConstant :=
  oneBased? raw.toArray index

/-- The text of an entry that is one. -/
def ownText? : RawConstant → Option String
  | .utf8 bytes => Text.ModifiedUtf8.decode? bytes
  | _ => none

/-- The text at an index. -/
def text? (raw : List RawConstant) (index : UInt16) : Option String :=
  (constant? raw index).bind ownText?

/-- The class name at an index. -/
def className? (raw : List RawConstant) (index : UInt16) : Option String :=
  match constant? raw index with
  | some (.classRef n) => text? raw n
  | _ => none

/-- What was looked for at an index, or that it is not there. -/
def found (index : UInt16) (kind : ConstantKind) : Option String → Except Error String
  | some text => .ok text
  | none => .error (.invalidConstantPoolIndex index kind)

@[simp] theorem found_eq_ok_iff {index : UInt16} {kind : ConstantKind} {t : Option String}
    {text : String} : found index kind t = .ok text ↔ t = some text := by
  cases t with
  | none => simp [found]
  | some text' => simp [found]

theorem oneBased?_map {α β : Type} (xs : List α) (f : α → β) (index : UInt16) :
    oneBased? (xs.map f).toArray index = (oneBased? xs.toArray index).map f := by
  simp only [oneBased?]
  split
  · rfl
  · rw [List.getElem?_toArray, List.getElem?_toArray, List.getElem?_map]

theorem oneBased?_eq_some_iff {α : Type} {xs : List α} {index : UInt16} {x : α} :
    oneBased? xs.toArray index = some x ↔ index ≠ 0 ∧ xs[index.toNat - 1]? = some x := by
  simp only [oneBased?]
  split
  · next h => simp [h]
  · next h => simp [h]

/-! ## The two passes -/

theorem decodeText_eq_ok {position : Nat} {c : RawConstant} {t : Option String}
    (h : decodeText position c = .ok t) : ownText? c = t := by
  cases c with
  | utf8 bytes =>
      simp only [decodeText] at h
      split at h
      · next text hdecode =>
          cases h
          exact hdecode
      · cases h
  | _ =>
      cases h
      rfl

/-- What a pass gives for a position comes from the entry there. -/
theorem getElem?_of_zipIdx_map {α β : Type} {f : α × Nat → β} {xs : List α} {ys : List β}
    (h : xs.zipIdx.map f = ys) (i : Nat) : ys[i]? = xs[i]?.map (fun x => f (x, i)) := by
  rw [← h, List.getElem?_map, List.getElem?_zipIdx, Option.map_map, Nat.zero_add]
  rfl

theorem decodeTexts_eq_ok {raw : List RawConstant} {texts : List (Option String)}
    (h : decodeTexts raw = .ok texts) : texts = raw.map ownText? := by
  refine List.ext_getElem? fun i => ?_
  have hi := getElem?_of_zipIdx_map (Except.mapM_eq_ok_iff.1 h) i
  rw [List.getElem?_map] at hi ⊢
  cases hc : raw[i]? with
  | none =>
      rw [hc] at hi
      exact Option.map_eq_none_iff.1 hi
  | some c =>
      rw [hc] at hi
      obtain ⟨t, ht, htext⟩ := Option.map_eq_some_iff.1 hi
      rw [ht, Option.map_some, decodeText_eq_ok htext.symm]

theorem textAt_eq (raw : List RawConstant) (index : UInt16) :
    textAt (raw.map ownText?).toArray index = found index .utf8 (text? raw index) := by
  rw [textAt, oneBased?_map, text?, constant?]
  cases oneBased? raw.toArray index with
  | none => rfl
  | some c =>
      rw [Option.map_some, Option.bind_some]
      cases ownText? c with
      | none => rfl
      | some t => rfl

/-- The entry at an index, raw and resolved. -/
theorem related_get? {raw : List RawConstant} {pool : ConstantPool} (h : ofRaw raw = .ok pool)
    (index : UInt16) :
    Option.Rel
      (Constant.Related (fun _ t => text? raw index = some t) (fun n t => text? raw n = some t))
      (constant? raw index) (pool.get? index) := by
  obtain ⟨texts, htexts, h⟩ := Except.bind_eq_ok_iff.1 h
  obtain ⟨entries, hentries, h⟩ := Except.bind_eq_ok_iff.1 h
  cases h
  obtain rfl := decodeTexts_eq_ok htexts
  rw [constant?, get?, oneBased?, oneBased?]
  by_cases h0 : index = 0
  · rw [if_pos h0, if_pos h0]
    exact .none
  · rw [if_neg h0, if_neg h0, List.getElem?_toArray, List.getElem?_toArray]
    have hentry := getElem?_of_zipIdx_map (Except.mapM_eq_ok_iff.1 hentries) (index.toNat - 1)
    have hindex : indexOf (index.toNat - 1) = index := by
      have hpos : index.toNat ≠ 0 := fun e => h0 (UInt16.toNat_inj.1 e)
      rw [indexOf, Nat.sub_add_cancel (Nat.pos_of_ne_zero hpos), UInt16.ofNat_toNat]
    rw [List.getElem?_map] at hentry
    cases hc : raw[index.toNat - 1]? with
    | none =>
        rw [hc] at hentry
        rw [Option.map_eq_none_iff.1 hentry]
        exact .none
    | some c =>
        rw [hc] at hentry
        obtain ⟨c', hc', hresolve⟩ := Option.map_eq_some_iff.1 hentry
        rw [hc']
        have hrelated := Constant.related_of_resolve hresolve.symm
        simp only [hindex, textAt_eq, found_eq_ok_iff] at hrelated
        exact .some hrelated

/-! ## What a resolved pool answers -/

theorem utf8_eq {raw : List RawConstant} {pool : ConstantPool} (h : ofRaw raw = .ok pool)
    (index : UInt16) : pool.utf8 index = found index .utf8 (text? raw index) := by
  have hrel := related_get? h index
  rw [utf8]
  generalize hc : constant? raw index = c at hrel
  generalize pool.get? index = c' at hrel
  have htext : text? raw index = c.bind ownText? := congrArg (Option.bind · ownText?) hc
  cases hrel with
  | none =>
      rw [htext]
      rfl
  | some hrel =>
      cases hrel with
      | utf8 ht =>
          rw [ht]
          rfl
      | _ =>
          rw [htext]
          rfl

theorem className_eq {raw : List RawConstant} {pool : ConstantPool} (h : ofRaw raw = .ok pool)
    (index : UInt16) : pool.className index = found index .classRef (className? raw index) := by
  have hrel := related_get? h index
  rw [className, className?]
  generalize constant? raw index = c at hrel
  generalize pool.get? index = c' at hrel
  cases hrel with
  | none => rfl
  | some hrel =>
      cases hrel with
      | classRef hn =>
          dsimp only
          rw [hn]
          rfl
      | _ => rfl

end ConstantPool
end MethodArea
