/-
# `Proofs.Area.BuiltIn` — the natives of the floating-point classes, installed

To install the built-in natives is to write four names of the registry of
the process, whatever stands there.  Each of the four takes its first
argument for another value with the same bits, and ignores the rest:

    java/lang/Float     floatToRawIntBits    (F)I    float   to   int
    java/lang/Float     intBitsToFloat       (I)F    int     to   float
    java/lang/Double    doubleToRawLongBits  (D)J    double  to   long
    java/lang/Double    longBitsToDouble     (J)D    long    to   double

So the two of a class undo each other on all values, those that are no
numbers included.  Without an argument, or with a first one of another
kind, they throw (`Conversion.Answers`).

Whoever has registered something else under one of these names has it
replaced; all other names are left alone.  A second installation replaces
the four by natives that do the same, so nothing that is found by name can
tell that there was one, nor any number of them (`SameByName`).  That the
other names keep their natives, and not only their identities, needs that
an identity which stands in a registry has been given out: new natives take
new ones.
-/
import Mathlib
import MethodArea.Proofs.Area.Frame

namespace MethodArea

/-! ## Tables with the same keys -/

namespace Table

variable {κ ν : Type} [DecidableEq κ]

theorem isSome_get?_iff {t : Table κ ν} {k : κ} :
    (t.get? k).isSome ↔ k ∈ t.entries.map Prod.fst := by
  simp [get?]

/-- A table has as many entries as it has keys. -/
theorem size_eq_of_keys {t t' : Table κ ν}
    (h : ∀ k, (t'.get? k).isSome = (t.get? k).isSome) : t'.size = t.size := by
  have hperm : (t'.entries.map Prod.fst).Perm (t.entries.map Prod.fst) := by
    refine (List.perm_ext_iff_of_nodup t'.distinct t.distinct).2 ?_
    intro k
    rw [← isSome_get?_iff, ← isSome_get?_iff, h k]
  simpa [size] using hperm.length_eq

end Table

/-! ## The four conversions -/

namespace Native

/-- What the built-in natives are for. -/
inductive Conversion where
  | floatToInt
  | intToFloat
  | doubleToLong
  | longToDouble
deriving DecidableEq

namespace Conversion

/-- The method that a conversion implements. -/
def key : Conversion → MethodRef
  | floatToInt => ⟨"java/lang/Float", "floatToRawIntBits", "(F)I"⟩
  | intToFloat => ⟨"java/lang/Float", "intBitsToFloat", "(I)F"⟩
  | doubleToLong => ⟨"java/lang/Double", "doubleToRawLongBits", "(D)J"⟩
  | longToDouble => ⟨"java/lang/Double", "longBitsToDouble", "(J)D"⟩

/-- The built-in native of a conversion. -/
def native : Conversion → Native
  | floatToInt => floatToRawIntBits
  | intToFloat => intBitsToFloat
  | doubleToLong => doubleToRawLongBits
  | longToDouble => longBitsToDouble

/-- The conversion in the other direction. -/
def inverse : Conversion → Conversion
  | floatToInt => intToFloat
  | intToFloat => floatToInt
  | doubleToLong => longToDouble
  | longToDouble => doubleToLong

/-- The kind of value that a conversion asks for. -/
def asked : Conversion → String
  | floatToInt => "float"
  | intToFloat => "int"
  | doubleToLong => "double"
  | longToDouble => "long"

/-- A conversion makes one value of another; the bits are the same. -/
inductive Converts : Conversion → Value → Value → Prop
  | floatToInt (bits : UInt32) : Converts .floatToInt (.float bits) (.int bits.toInt32)
  | intToFloat (v : Int32) : Converts .intToFloat (.int v) (.float v.toUInt32)
  | doubleToLong (bits : UInt64) : Converts .doubleToLong (.double bits) (.long bits.toInt64)
  | longToDouble (v : Int64) : Converts .longToDouble (.long v) (.double v.toUInt64)

/-- What a conversion answers to some arguments; only the first counts. -/
inductive Answers (conv : Conversion) : List Value → Except Exception (Option Value) → Prop
  | converted {v w : Value} {extra : List Value} : conv.Converts v w →
      Answers conv (v :: extra) (.ok (some w))
  | wrongKind {v : Value} {extra : List Value} : (∀ w, ¬ conv.Converts v w) →
      Answers conv (v :: extra)
        (.error (.illegalArgument s!"get_{conv.asked}: invalid type {v.text}"))
  | missing : Answers conv [] (.error (.illegalArgument "missing argument #0"))

theorem Converts.inverse {conv : Conversion} {v w : Value} (h : conv.Converts v w) :
    conv.inverse.Converts w v := by
  cases h with
  | floatToInt bits =>
      have hback := Converts.intToFloat bits.toInt32
      rwa [UInt32.toUInt32_toInt32] at hback
  | intToFloat i =>
      have hback := Converts.floatToInt i.toUInt32
      rwa [Int32.toInt32_toUInt32] at hback
  | doubleToLong bits =>
      have hback := Converts.longToDouble bits.toInt64
      rwa [UInt64.toUInt64_toInt64] at hback
  | longToDouble i =>
      have hback := Converts.doubleToLong i.toUInt64
      rwa [Int64.toInt64_toUInt64] at hback

/-- A conversion has one result, so it answers with that. -/
theorem Answers.eq_of_converts {conv : Conversion} {v w : Value} {extra : List Value}
    {answer : Except Exception (Option Value)} (h : conv.Answers (v :: extra) answer)
    (hw : conv.Converts v w) : answer = .ok (some w) := by
  cases h with
  | converted hw' =>
      cases hw <;> cases hw' <;> rfl
  | wrongKind hno => exact absurd hw (hno w)

/-- What asks the first argument for one kind and gives a value of another. -/
theorem answers_of_get {conv : Conversion} {α : Type} (get : Value → Except Exception α)
    {give : α → Value}
    (hget : ∀ v, (∃ x, get v = .ok x ∧ conv.Converts v (give x)) ∨
      (get v = .error (v.mismatch conv.asked) ∧ ∀ w, ¬ conv.Converts v w)) (env : Env) :
    conv.Answers env.args (do
      let v ← env.arg 0
      let x ← get v
      pure (some (give x))) := by
  obtain ⟨args, cls⟩ := env
  cases args with
  | nil => exact .missing
  | cons v extra =>
      show conv.Answers (v :: extra) (do
        let x ← get v
        pure (some (give x)))
      rcases hget v with ⟨x, hx, hconverts⟩ | ⟨herror, hno⟩
      · rw [hx]
        exact .converted hconverts
      · rw [herror]
        exact .wrongKind hno

theorem answers_native (conv : Conversion) (env : Env) :
    conv.Answers env.args (conv.native env) := by
  cases conv with
  | floatToInt =>
      refine answers_of_get Value.getFloat ?_ env
      intro v
      cases v with
      | float bits => exact .inl ⟨bits, rfl, .floatToInt bits⟩
      | _ => exact .inr ⟨rfl, nofun⟩
  | intToFloat =>
      refine answers_of_get Value.getInt ?_ env
      intro v
      cases v with
      | int v => exact .inl ⟨v, rfl, .intToFloat v⟩
      | _ => exact .inr ⟨rfl, nofun⟩
  | doubleToLong =>
      refine answers_of_get Value.getDouble ?_ env
      intro v
      cases v with
      | double bits => exact .inl ⟨bits, rfl, .doubleToLong bits⟩
      | _ => exact .inr ⟨rfl, nofun⟩
  | longToDouble =>
      refine answers_of_get Value.getLong ?_ env
      intro v
      cases v with
      | long v => exact .inl ⟨v, rfl, .longToDouble v⟩
      | _ => exact .inr ⟨rfl, nofun⟩

end Conversion

theorem mem_builtIn_iff {e : MethodRef × Native} :
    e ∈ builtIn ↔ ∃ conv : Conversion, e = (conv.key, conv.native) := by
  constructor
  · intro he
    simp only [builtIn, List.mem_cons, List.not_mem_nil, or_false] at he
    rcases he with rfl | rfl | rfl | rfl
    · exact ⟨.floatToInt, rfl⟩
    · exact ⟨.intToFloat, rfl⟩
    · exact ⟨.doubleToLong, rfl⟩
    · exact ⟨.longToDouble, rfl⟩
  · rintro ⟨conv, rfl⟩
    cases conv <;> simp [builtIn, Conversion.key, Conversion.native]

theorem mem_keys_builtIn_iff {key : MethodRef} :
    key ∈ builtIn.map Prod.fst ↔ ∃ conv : Conversion, key = conv.key := by
  simp only [List.mem_map, mem_builtIn_iff]
  constructor
  · rintro ⟨_, ⟨conv, rfl⟩, rfl⟩
    exact ⟨conv, rfl⟩
  · rintro ⟨conv, rfl⟩
    exact ⟨_, ⟨conv, rfl⟩, rfl⟩

theorem distinct_keys_builtIn : (builtIn.map Prod.fst).Nodup := by
  simp [builtIn]

end Native

open Native

namespace Area

/-! ## Natives by name -/

/-- The native that stands under a name in the registry of the process. -/
def nativeAt? (a : Area) (key : MethodRef) : Option Native :=
  ((a.registry .processWide).get? key).bind a.native?

/-- What a native answers that is found by name. -/
def call (a : Area) (key : MethodRef) (env : Env) : Option (Except Exception (Option Value)) :=
  (a.nativeAt? key).map (fun native => native env)

/-- What stands in a registry has been registered. -/
theorem Reachable.lt_length_natives {a : Area} (h : Reachable a) {name : RegistryName}
    {key : MethodRef} {id : BindingId} (hid : (a.registry name).get? key = some id) :
    id < a.natives.length := by
  obtain ⟨ops, rfl⟩ := h
  rw [registry_get?_run, standing, Option.join_eq_some_iff] at hid
  obtain ⟨⟨b, op⟩, hop, hwritten⟩ := List.mem_filterMap.1 (List.mem_of_getLast? hid)
  cases op with
  | register name' key' native =>
      have hregistration : (native, id) ∈ registrations ops := by
        refine List.mem_filterMap.2 ⟨_, hop, ?_⟩
        simp only [written?, Option.ite_none_right_eq_some, Option.some.injEq] at hwritten
        simp only [registration?, hwritten.2]
      have hmem : (native, id) ∈ (run empty ops).natives.zipIdx := by
        rw [natives_run]
        exact List.mem_cons_of_mem _ hregistration
      exact (List.getElem?_eq_some_iff.1 (List.mem_zipIdx_iff_getElem?.1 hmem)).1
  | unregister name' key' => simp [written?] at hwritten
  | load _ _ _ _ | hold _ _ | unload _ | intern _ | replaceCode _ _ _ | resolve _ _ _
  | registerNatives => cases hwritten

theorem Reachable.isSome_nativeAt? {a : Area} (h : Reachable a) (key : MethodRef) :
    (a.nativeAt? key).isSome = ((a.registry .processWide).get? key).isSome := by
  rw [nativeAt?]
  cases hid : (a.registry .processWide).get? key with
  | none => rfl
  | some id =>
      show (a.natives[id]?).isSome = true
      rw [List.getElem?_eq_getElem (h.lt_length_natives hid)]
      rfl

/-- What is not registered anew is found as before. -/
theorem Registers.nativeAt?_eq {a b : Area} {about : RegistryName → MethodRef → Prop}
    (hb : a.Registers about b) (h : Reachable a) {key : MethodRef}
    (hkey : ¬ about .processWide key) : b.nativeAt? key = a.nativeAt? key := by
  rw [nativeAt?, nativeAt?, hb.others .processWide key hkey]
  cases hid : (a.registry .processWide).get? key with
  | none => rfl
  | some id =>
      obtain ⟨more, hmore⟩ := hb.natives
      show b.natives[id]? = a.natives[id]?
      rw [hmore, List.getElem?_append_left (h.lt_length_natives hid)]

theorem nativeAt?_register (a : Area) (key : MethodRef) (native : Native) :
    (a.register .processWide key native).2.nativeAt? key = some native := by
  rw [nativeAt?, registry_get?_register, if_pos ⟨rfl, rfl⟩]
  exact List.getElem?_concat_length

/-- Natives that are registered under names of their own are all found. -/
theorem Reachable.nativeAt?_foldl {natives : List (MethodRef × Native)}
    (hdistinct : (natives.map Prod.fst).Nodup) {a : Area} (h : Reachable a) :
    ∀ e ∈ natives,
      (natives.foldl (fun a (key, native) => (a.register .processWide key native).2) a).nativeAt?
        e.1 = some e.2 := by
  induction natives generalizing a with
  | nil => exact fun e he => absurd he List.not_mem_nil
  | cons first rest ih =>
      obtain ⟨key, native⟩ := first
      obtain ⟨hkey, hrest⟩ := List.nodup_cons.1 hdistinct
      have hnext : Reachable (a.register .processWide key native).2 :=
        h.step (.register .processWide key native)
      intro e he
      rcases List.mem_cons.1 he with rfl | he
      · -- the names that come after are others, so this one stays
        have hlater := (registers_foldl rest _).nativeAt?_eq hnext (fun hmem => hkey hmem.2)
        exact hlater.trans (nativeAt?_register a key native)
      · exact ih hrest hnext e he

/-! ## The built-in natives, found -/

theorem Reachable.registerNatives {a : Area} (h : Reachable a) : Reachable a.registerNatives :=
  h.step .registerNatives

theorem registers_registerNatives (a : Area) :
    a.Registers (fun name key => name = .processWide ∧ key ∈ builtIn.map Prod.fst)
      a.registerNatives :=
  registers_foldl builtIn a

theorem Reachable.nativeAt?_registerNatives {a : Area} (h : Reachable a) (conv : Conversion) :
    a.registerNatives.nativeAt? conv.key = some conv.native :=
  h.nativeAt?_foldl distinct_keys_builtIn _ (mem_builtIn_iff.2 ⟨conv, rfl⟩)

theorem Reachable.call_registerNatives {a : Area} (h : Reachable a) (conv : Conversion)
    (env : Env) : a.registerNatives.call conv.key env = some (conv.native env) := by
  rw [call, h.nativeAt?_registerNatives conv]
  rfl

/-- A value that is converted and converted back is the same again, whatever
is passed along with it. -/
def GivesBack (a : Area) (conv : Conversion) (v : Value) : Prop :=
  ∃ w, conv.Converts v w ∧
    (∀ extra cls, a.call conv.key ⟨v :: extra, cls⟩ = some (.ok (some w))) ∧
    ∀ extra cls, a.call conv.inverse.key ⟨w :: extra, cls⟩ = some (.ok (some v))

theorem Reachable.call_of_converts {a : Area} (h : Reachable a) {conv : Conversion}
    {v w : Value} (hw : conv.Converts v w) (extra : List Value) (cls : Class) :
    a.registerNatives.call conv.key ⟨v :: extra, cls⟩ = some (.ok (some w)) := by
  rw [h.call_registerNatives, (conv.answers_native ⟨v :: extra, cls⟩).eq_of_converts hw]

theorem Reachable.givesBack {a : Area} (h : Reachable a) {conv : Conversion} {v w : Value}
    (hw : conv.Converts v w) : a.registerNatives.GivesBack conv v :=
  ⟨w, hw, h.call_of_converts hw, h.call_of_converts hw.inverse⟩

/-! ## Installing them again -/

/-- What is found by name in the registry of the process is the same in two
areas, as far as calls can tell. -/
structure SameByName (a b : Area) : Prop where
  keys : ∀ key, ((b.registry .processWide).get? key).isSome =
    ((a.registry .processWide).get? key).isSome
  size : (b.registry .processWide).size = (a.registry .processWide).size
  calls : ∀ key env, b.call key env = a.call key env

theorem Reachable.sameByName {a b : Area} (ha : Reachable a) (hb : Reachable b)
    (h : ∀ key, b.nativeAt? key = a.nativeAt? key) : a.SameByName b := by
  have hkeys : ∀ key, ((b.registry .processWide).get? key).isSome =
      ((a.registry .processWide).get? key).isSome := by
    intro key
    rw [← hb.isSome_nativeAt?, ← ha.isSome_nativeAt?, h key]
  refine ⟨hkeys, Table.size_eq_of_keys hkeys, ?_⟩
  intro key env
  rw [call, call, h key]

theorem Reachable.nativeAt?_again {a : Area} (h : Reachable a) (key : MethodRef) :
    a.registerNatives.registerNatives.nativeAt? key = a.registerNatives.nativeAt? key := by
  by_cases hkey : key ∈ builtIn.map Prod.fst
  · obtain ⟨conv, rfl⟩ := mem_keys_builtIn_iff.1 hkey
    rw [h.registerNatives.nativeAt?_registerNatives, h.nativeAt?_registerNatives]
  · have hregisters := registers_registerNatives a.registerNatives
    exact hregisters.nativeAt?_eq h.registerNatives (fun hmem => hkey hmem.2)

theorem Reachable.nativeAt?_run_again {a : Area} (h : Reachable a) (times : Nat)
    (key : MethodRef) :
    (run a.registerNatives (List.replicate times .registerNatives)).nativeAt? key =
      a.registerNatives.nativeAt? key := by
  induction times generalizing a with
  | zero => rfl
  | succ times ih =>
      have hrun : ∀ b ops, run b (.registerNatives :: ops) = run b.registerNatives ops :=
        fun b ops => rfl
      rw [List.replicate_succ, hrun, ih h.registerNatives, h.nativeAt?_again key]

/-- Whatever has been registered before, the built-in natives are found once
they are installed, and convert all values there and back; nothing else
changes, and to install them again makes no difference. -/
theorem built_in_natives_convert {a : Area} (h : Reachable a) :
    ((∀ v, a.registerNatives.GivesBack .intToFloat (.int v)) ∧
      (∀ bits, a.registerNatives.GivesBack .floatToInt (.float bits)) ∧
      (∀ v, a.registerNatives.GivesBack .longToDouble (.long v)) ∧
      ∀ bits, a.registerNatives.GivesBack .doubleToLong (.double bits)) ∧
    (∀ (conv : Conversion) env, ∃ answer,
      a.registerNatives.call conv.key env = some answer ∧ conv.Answers env.args answer) ∧
    (∀ name key, ¬ (name = .processWide ∧ ∃ conv : Conversion, key = conv.key) →
      (a.registerNatives.registry name).get? key = (a.registry name).get? key ∧
      ∀ id, (a.registry name).get? key = some id →
        a.registerNatives.native? id = a.native? id) ∧
    ∀ times, a.registerNatives.SameByName
      (run a.registerNatives (List.replicate times .registerNatives)) := by
  refine ⟨⟨?_, ?_, ?_, ?_⟩, ?_, ?_, ?_⟩
  · intro v
    exact h.givesBack (.intToFloat v)
  · intro bits
    exact h.givesBack (.floatToInt bits)
  · intro v
    exact h.givesBack (.longToDouble v)
  · intro bits
    exact h.givesBack (.doubleToLong bits)
  · intro conv env
    exact ⟨_, h.call_registerNatives conv env, conv.answers_native env⟩
  · intro name key hkey
    have hregisters := registers_registerNatives a
    refine ⟨hregisters.others name key ?_, ?_⟩
    · rwa [mem_keys_builtIn_iff]
    · intro id hid
      obtain ⟨more, hmore⟩ := hregisters.natives
      show a.registerNatives.natives[id]? = a.natives[id]?
      rw [hmore, List.getElem?_append_left (h.lt_length_natives hid)]
  · intro times
    exact h.registerNatives.sameByName (reachable_run h.registerNatives _)
      (h.nativeAt?_run_again times)

/-- Somebody's own natives, one of them under a name of a built-in one. -/
def ownNatives : List Operation :=
  [.register .processWide Conversion.intToFloat.key Native.noOp,
    .register .processWide ⟨"demo/A", "f", "()V"⟩ Native.noOp]

/-- The built-in native takes the place of the one under its name, and gives
back the integer whose bits are all set, which are those of no number.
The other one stays. -/
theorem built_in_natives_convert_over_own :
    ((run empty ownNatives).registry .processWide).get? Conversion.intToFloat.key = some 1 ∧
    (run empty ownNatives).registerNatives.GivesBack .intToFloat (.int (-1)) ∧
    ((run empty ownNatives).registerNatives.registry .processWide).get?
      ⟨"demo/A", "f", "()V"⟩ = some 2 := by
  have hreach : Reachable (run empty ownNatives) := ⟨ownNatives, rfl⟩
  obtain ⟨⟨hint, -, -, -⟩, -, hothers, -⟩ := built_in_natives_convert hreach
  refine ⟨by cbv, hint (-1), ?_⟩
  rw [(hothers .processWide ⟨"demo/A", "f", "()V"⟩ ?_).1]
  · cbv
  · rintro ⟨-, conv, hkey⟩
    cases conv <;> simp [Conversion.key] at hkey

end Area

end MethodArea
