/-
# `Proofs.ConstantPool.Pointwise` — a resolved pool against the raw one

A raw pool says at each index, counted from one, which entry stands there
(`StandsAt`).  A pool that resolves has as many entries, and at each index

    a text entry            the text that its own bytes are the form of
    a class, string,        the text of the text entry that its index
    module or package       designates, before it or behind it
    any other entry         itself

That much holds of pools of every size.  For those of up to 65535 entries
it is also settled which resolve: all bytes are those of a text and every
name index designates a text entry.  Otherwise the first entry that is not
so is reported, and bytes come before names (`Defect`).

The bound is sharp.  A text entry behind it finds its text under an index
that is cut to zero, so no pool with a text in position 65535 resolves
(`ofRaw_ne_ok_of_text_at_cut`).
-/
import Mathlib
import MethodArea.Proofs.ConstantPool.Acceptance

namespace MethodArea.ConstantPool

open Text.ModifiedUtf8

/-! ## What a raw pool says -/

/-- An entry stands at an index, which counts from one. -/
def StandsAt (raw : List RawConstant) (index : UInt16) (c : RawConstant) : Prop :=
  index ≠ 0 ∧ raw[index.toNat - 1]? = some c

/-- A text entry stands at an index. -/
def Designates (raw : List RawConstant) (index : UInt16) : Prop :=
  ∃ bytes, StandsAt raw index (.utf8 bytes)

/-- A text entry stands at an index, and a text is what it holds. -/
def Names (raw : List RawConstant) (index : UInt16) (text : String) : Prop :=
  ∃ bytes, StandsAt raw index (.utf8 bytes) ∧ TextForm text.toList bytes

/-- An entry and its resolved form: of the same kind, with the text of its
own bytes or of the entry that it names, and else the same. -/
def ResolvesTo (raw : List RawConstant) : RawConstant → Constant String String → Prop :=
  Constant.Related (fun bytes text => TextForm text.toList bytes) (Names raw)

/-- The bytes of an entry, if it is a text entry, are those of a text. -/
def Readable (c : RawConstant) : Prop :=
  ∀ bytes, c = .utf8 bytes → ∃ text : String, TextForm text.toList bytes

/-- The name index of an entry, if it has one, designates a text entry. -/
def Anchored (raw : List RawConstant) (c : RawConstant) : Prop :=
  ∀ index, nameIndex? c = some index → Designates raw index

/-- What is reported of a pool that does not resolve. -/
inductive Defect (raw : List RawConstant) : Error → Prop
  | bytes {position : Nat} {c : RawConstant} {index : UInt16} :
      raw[position]? = some c → ¬ Readable c →
      (∀ j < position, ∀ d, raw[j]? = some d → Readable d) →
      index.toNat = position + 1 → Defect raw (.invalidModifiedUtf8 index)
  | name {position : Nat} {c : RawConstant} {index : UInt16} :
      (∀ d ∈ raw, Readable d) → raw[position]? = some c →
      nameIndex? c = some index → ¬ Designates raw index →
      (∀ j < position, ∀ d, raw[j]? = some d → Anchored raw d) →
      Defect raw (.invalidConstantPoolIndex index .utf8)

/-! ## Entry by entry -/

theorem standsAt_iff {raw : List RawConstant} {index : UInt16} {c : RawConstant} :
    StandsAt raw index c ↔ constant? raw index = some c :=
  oneBased?_eq_some_iff.symm

theorem text?_eq_some_iff {raw : List RawConstant} {index : UInt16} {text : String} :
    text? raw index = some text ↔ Names raw index text := by
  simp only [text?, Option.bind_eq_some_iff, Names, standsAt_iff, textForm_toList_iff]
  constructor
  · rintro ⟨c, hc, htext⟩
    cases c with
    | utf8 bytes => exact ⟨bytes, hc, decode?_eq_some_iff.1 htext⟩
    | _ => cases htext
  · rintro ⟨bytes, hc, htext⟩
    exact ⟨.utf8 bytes, hc, decode?_eq_some_iff.2 htext⟩

theorem size_of_ofRaw {raw : List RawConstant} {pool : ConstantPool} (h : ofRaw raw = .ok pool) :
    pool.size = raw.length := by
  obtain ⟨texts, -, h⟩ := Except.bind_eq_ok_iff.1 h
  obtain ⟨entries, hentries, h⟩ := Except.bind_eq_ok_iff.1 h
  cases h
  have hlength := congrArg List.length (Except.mapM_eq_ok_iff.1 hentries)
  rw [List.length_map, List.length_map, List.length_zipIdx] at hlength
  exact hlength.symm

theorem get?_eq_none_iff {pool : ConstantPool} {index : UInt16} :
    pool.get? index = none ↔ index = 0 ∨ pool.size < index.toNat := by
  rw [get?, oneBased?]
  split
  · next h0 => simp [h0]
  · next h0 =>
      have hpos : index.toNat ≠ 0 := fun e => h0 (UInt16.toNat_inj.1 e)
      rw [Array.getElem?_eq_none_iff, size]
      simp only [h0, false_or]
      omega

/-- What stands at an index of a pool that resolves, stands there resolved. -/
theorem exists_resolvesTo {raw : List RawConstant} {pool : ConstantPool}
    (h : ofRaw raw = .ok pool) {index : UInt16} {c : RawConstant} (hc : StandsAt raw index c) :
    ∃ c', pool.get? index = some c' ∧ ResolvesTo raw c c' := by
  have hconstant := standsAt_iff.1 hc
  have hrel := related_get? h index
  rw [hconstant] at hrel
  generalize pool.get? index = entry at hrel
  cases hrel with
  | @some _ c' hrel =>
      refine ⟨c', rfl, ?_⟩
      simp only [text?_eq_some_iff] at hrel
      cases hrel with
      | utf8 htext =>
          -- the text found at the index of the entry is that of its own bytes
          obtain ⟨bytes, hbytes, hform⟩ := htext
          obtain rfl : _ = bytes := by
            have heq := hconstant.symm.trans (standsAt_iff.1 hbytes)
            cases heq
            rfl
          exact .utf8 hform
      | classRef hname => exact .classRef hname
      | string hname => exact .string hname
      | moduleRef hname => exact .moduleRef hname
      | packageRef hname => exact .packageRef hname
      | _ => constructor

theorem utf8_eq_ok_iff {pool : ConstantPool} {index : UInt16} {text : String} :
    pool.utf8 index = .ok text ↔ pool.get? index = some (.utf8 text) := by
  rw [utf8]
  split
  · next t ht => simp [ht]
  · next hno =>
      constructor
      · intro h
        cases h
      · intro h
        exact absurd h (hno text)

theorem className_eq_ok_iff {pool : ConstantPool} {index : UInt16} {name : String} :
    pool.className index = .ok name ↔ pool.get? index = some (.classRef name) := by
  rw [className]
  split
  · next n hn => simp [hn]
  · next hno =>
      constructor
      · intro h
        cases h
      · intro h
        exact absurd h (hno name)

theorem utf8_eq_error {pool : ConstantPool} {index : UInt16}
    (h : ∀ text, pool.get? index ≠ some (.utf8 text)) :
    pool.utf8 index = .error (.invalidConstantPoolIndex index .utf8) := by
  rw [utf8]
  split
  · next t ht => exact absurd ht (h t)
  · rfl

theorem className_eq_error {pool : ConstantPool} {index : UInt16}
    (h : ∀ name, pool.get? index ≠ some (.classRef name)) :
    pool.className index = .error (.invalidConstantPoolIndex index .classRef) := by
  rw [className]
  split
  · next n hn => exact absurd hn (h n)
  · rfl

/-! ## Which pools resolve -/

theorem readable_iff_allHold {c : RawConstant} (position : Nat) :
    Readable c ↔ AllHold (textConditions position c) := by
  cases c with
  | utf8 bytes =>
      simp only [Readable, textConditions, allHold_cons, allHold_nil, and_true,
        textForm_toList_iff]
      constructor
      · intro h
        exact h bytes rfl
      · intro h bytes' heq
        cases heq
        exact h
  | _ => exact ⟨fun _ => allHold_nil, fun _ _ heq => by cases heq⟩

theorem firstViolation_textConditions_iff {position : Nat} {c : RawConstant} {e : Error} :
    FirstViolation (textConditions position c) e ↔
      ¬ Readable c ∧ e = .invalidModifiedUtf8 (indexOf position) := by
  rw [readable_iff_allHold position]
  cases c with
  | utf8 bytes =>
      rw [textConditions, firstViolation_singleton_iff, allHold_cons]
      simp only [allHold_nil, and_true]
  | _ =>
      constructor
      · intro h
        cases h
      · rintro ⟨h, -⟩
        exact absurd allHold_nil h

/-- Where all bytes are readable, a text entry is a text. -/
theorem isText_iff_designates {raw : List RawConstant} (hread : ∀ c ∈ raw, Readable c)
    {index : UInt16} : IsText raw index ↔ Designates raw index := by
  simp only [IsText, text?_eq_some_iff]
  constructor
  · rintro ⟨text, bytes, hbytes, -⟩
    exact ⟨bytes, hbytes⟩
  · rintro ⟨bytes, hbytes⟩
    obtain ⟨text, htext⟩ := hread _ (List.mem_of_getElem? hbytes.2) bytes rfl
    exact ⟨text, bytes, hbytes, htext⟩

theorem allHold_names_iff {raw : List RawConstant} (hread : ∀ c ∈ raw, Readable c)
    {c : RawConstant} :
    AllHold ((nameIndex? c).toList.map (textRequired raw)) ↔ Anchored raw c := by
  simp only [allHold_map, Option.mem_toList, Anchored, ← isText_iff_designates hread]
  rfl

theorem firstViolation_names_iff {raw : List RawConstant} (hread : ∀ c ∈ raw, Readable c)
    {c : RawConstant} {e : Error} :
    FirstViolation ((nameIndex? c).toList.map (textRequired raw)) e ↔
      ∃ index, nameIndex? c = some index ∧ ¬ Designates raw index ∧
        e = .invalidConstantPoolIndex index .utf8 := by
  cases nameIndex? c with
  | none =>
      constructor
      · intro h
        cases h
      · rintro ⟨_, h, -⟩
        cases h
  | some index =>
      rw [Option.toList_some, List.map_singleton, firstViolation_singleton_iff]
      show ¬ IsText raw index ∧ _ ↔ _
      rw [isText_iff_designates hread]
      constructor
      · rintro ⟨hno, he⟩
        exact ⟨index, rfl, hno, he⟩
      · rintro ⟨_, heq, hno, he⟩
        cases heq
        exact ⟨hno, he⟩

theorem allHold_texts_iff {raw : List RawConstant} :
    AllHold (allTextConditions raw) ↔ ∀ c ∈ raw, Readable c := by
  simp only [allHold_allTextConditions_iff, Readable, textForm_toList_iff]
  constructor
  · rintro h c hc bytes rfl
    exact h bytes hc
  · intro h bytes hmem
    exact h _ hmem bytes rfl

theorem allHold_conditions_iff {raw : List RawConstant} :
    AllHold (conditions raw) ↔ ∀ c ∈ raw, Readable c ∧ Anchored raw c := by
  rw [conditions, allHold_append, allHold_texts_iff, forall₂_and]
  refine and_congr_right fun hread => ?_
  rw [allNameConditions, allHold_flatMap]
  simp only [allHold_names_iff hread]

theorem firstViolation_conditions_iff {raw : List RawConstant} (hsize : raw.length ≤ 65535)
    {e : Error} : FirstViolation (conditions raw) e ↔ Defect raw e := by
  have hindex : ∀ {position : Nat} {c : RawConstant}, raw[position]? = some c →
      (indexOf position).toNat = position + 1 := by
    intro position c hc
    obtain ⟨hlt, -⟩ := List.getElem?_eq_some_iff.1 hc
    rw [indexOf, UInt16.toNat_ofNat', Nat.mod_eq_of_lt (by omega)]
  have hzip : ∀ (position : Nat) (c : RawConstant) (j : Nat),
      raw.zipIdx[position]? = some (c, j) ↔ raw[position]? = some c ∧ j = position := by
    intro position c j
    rw [List.getElem?_zipIdx]
    cases raw[position]? with
    | none => simp
    | some d => simp [eq_comm]
  rw [conditions, firstViolation_append_iff, allHold_texts_iff, allTextConditions,
    allNameConditions, firstViolation_flatMap_iff, firstViolation_flatMap_iff]
  simp only [Prod.forall, Prod.exists, hzip, firstViolation_textConditions_iff]
  constructor
  · rintro (⟨i, c, j, ⟨hc, rfl⟩, ⟨hbad, rfl⟩, hbefore⟩ | ⟨hread, i, c, hc, hviolated, hbefore⟩)
    · refine .bytes hc hbad (fun k hk d hd => ?_) (hindex hc)
      exact (readable_iff_allHold k).2 (hbefore k hk d k ⟨hd, rfl⟩)
    · obtain ⟨index, hname, hno, rfl⟩ := (firstViolation_names_iff hread).1 hviolated
      refine .name hread hc hname hno fun k hk d hd => ?_
      exact (allHold_names_iff hread).1 (hbefore k hk d hd)
  · intro h
    cases h with
    | @bytes position c index hc hbad hbefore hposition =>
        obtain rfl : index = indexOf position :=
          UInt16.toNat_inj.1 (hposition.trans (hindex hc).symm)
        refine .inl ⟨position, c, position, ⟨hc, rfl⟩, ⟨hbad, rfl⟩, ?_⟩
        rintro k hk d j ⟨hd, rfl⟩
        exact (readable_iff_allHold _).1 (hbefore _ hk d hd)
    | @name position c index hread hc hname hno hbefore =>
        refine .inr ⟨hread, position, c, hc, ?_, fun k hk d hd => ?_⟩
        · exact (firstViolation_names_iff hread).2 ⟨index, hname, hno, rfl⟩
        · exact (allHold_names_iff hread).2 (hbefore k hk d hd)

/-- A text in position 65535 has no text of its own, so no pool with one
resolves. -/
theorem ofRaw_ne_ok_of_text_at_cut {raw : List RawConstant} {bytes : List UInt8}
    (hbytes : raw[65535]? = some (.utf8 bytes)) (pool : ConstantPool) :
    ofRaw raw ≠ .ok pool := by
  intro h
  obtain ⟨texts, -, h⟩ := Except.bind_eq_ok_iff.1 h
  obtain ⟨entries, hentries, -⟩ := Except.bind_eq_ok_iff.1 h
  have hentry := getElem?_of_zipIdx_map (Except.mapM_eq_ok_iff.1 hentries) 65535
  have hcut : indexOf 65535 = 0 := by decide
  simp only [hbytes, Option.map_some, resolveEntry, Constant.resolve, hcut,
    List.getElem?_map] at hentry
  obtain ⟨_, -, hentry⟩ := Option.map_eq_some_iff.1 hentry
  cases hentry

/-- A resolved pool is the raw one, entry by entry; and up to 65535 entries a
pool resolves exactly if each entry is as it should be, and else the first
that is not is reported. -/
theorem resolution_pointwise (raw : List RawConstant) :
    (∀ pool, ofRaw raw = .ok pool → pool.size = raw.length ∧ ∀ index : UInt16,
      (pool.get? index = none ↔ index = 0 ∨ raw.length < index.toNat) ∧
      (∀ c, StandsAt raw index c → ∃ c', pool.get? index = some c' ∧ ResolvesTo raw c c') ∧
      (∀ text, pool.utf8 index = .ok text ↔ pool.get? index = some (.utf8 text)) ∧
      ((∀ text, pool.get? index ≠ some (.utf8 text)) →
        pool.utf8 index = .error (.invalidConstantPoolIndex index .utf8)) ∧
      (∀ name, pool.className index = .ok name ↔ pool.get? index = some (.classRef name)) ∧
      ((∀ name, pool.get? index ≠ some (.classRef name)) →
        pool.className index = .error (.invalidConstantPoolIndex index .classRef))) ∧
    (raw.length ≤ 65535 →
      ((∃ pool, ofRaw raw = .ok pool) ↔ ∀ c ∈ raw, Readable c ∧ Anchored raw c) ∧
      ∀ e, ofRaw raw = .error e ↔ Defect raw e) := by
  constructor
  · intro pool h
    have hsize := size_of_ofRaw h
    refine ⟨hsize, fun index => ⟨?_, fun c hc => exists_resolvesTo h hc, fun _ => utf8_eq_ok_iff,
      utf8_eq_error, fun _ => className_eq_ok_iff, className_eq_error⟩⟩
    rw [get?_eq_none_iff, hsize]
  · intro hsize
    have hdecides := decides_ofRaw hsize
    exact ⟨hdecides.ok_iff.trans allHold_conditions_iff,
      fun e => hdecides.error_iff.trans (firstViolation_conditions_iff hsize)⟩

/-- A class whose name stands behind it, and a text that is named from
before and from behind. -/
def crossNamed : List RawConstant :=
  [.classRef 3, .long 42, .ofText "demo/A", .string 3, .nameAndType 3 9]

/-- Nothing but a text of one zero byte, at the last index there is. -/
def zeroAtEnd : List RawConstant := List.replicate 65534 .empty ++ [.utf8 [0]]

/-- Names are found forward and backward and other indices are left alone;
of two texts that are none the first is reported although a name before it
is dangling as well; without them that name is; and at the last index the
position is right. -/
theorem resolution_pointwise_cross_named :
    (∃ pool, ofRaw crossNamed = .ok pool ∧ pool.size = 5 ∧ pool.get? 6 = none ∧
      pool.className 1 = .ok "demo/A" ∧ pool.get? 1 = some (.classRef "demo/A") ∧
      ResolvesTo crossNamed (.classRef 3) (.classRef "demo/A") ∧
      pool.utf8 4 = .error (.invalidConstantPoolIndex 4 .utf8)) ∧
    Defect [.classRef 9, .utf8 [0x41], .utf8 [0xc0], .utf8 [0x00]] (.invalidModifiedUtf8 3) ∧
    Defect [.string 2, .utf8 [0x41], .classRef 9, .moduleRef 1]
      (.invalidConstantPoolIndex 9 .utf8) ∧
    ofRaw zeroAtEnd = .error (.invalidModifiedUtf8 65535) := by
  have hpool : ofRaw crossNamed = .ok ⟨#[.classRef "demo/A", .long 42, .utf8 "demo/A",
      .string "demo/A", .nameAndType 3 9]⟩ := by
    cbv
  obtain ⟨hsize, hindex⟩ := (resolution_pointwise crossNamed).1 _ hpool
  refine ⟨⟨_, hpool, hsize, ?_, ?_, rfl, ?_, ?_⟩, ?_, ?_, ?_⟩
  · exact (hindex 6).1.2 (.inr (by decide))
  · exact ((hindex 1).2.2.2.2.1 "demo/A").2 rfl
  · obtain ⟨c', hget, hresolves⟩ := (hindex 1).2.1 (.classRef 3) ⟨by decide, rfl⟩
    cases hget
    exact hresolves
  · exact (hindex 4).2.2.2.1 fun text h => by cases h
  · exact (((resolution_pointwise _).2 (by decide)).2 _).1 (by cbv)
  · exact (((resolution_pointwise _).2 (by decide)).2 _).1 (by cbv)
  · have hlength : zeroAtEnd.length = 65535 := by
      rw [zeroAtEnd, List.length_append, List.length_replicate, List.length_singleton]
    have hlast : zeroAtEnd[65534]? = some (.utf8 [0]) := by
      rw [zeroAtEnd, List.getElem?_append_right (by rw [List.length_replicate]),
        List.length_replicate]
      rfl
    refine (((resolution_pointwise zeroAtEnd).2 (Nat.le_of_eq hlength)).2 _).2 ?_
    refine .bytes hlast (fun h => ?_) (fun j hj d hd => ?_) rfl
    · obtain ⟨text, htext⟩ := h [0] rfl
      exact zero_notMem_encode text (textForm_toList_iff.1 htext ▸ List.mem_singleton_self 0)
    · rw [zeroAtEnd, List.getElem?_append_left (by rw [List.length_replicate]; exact hj)] at hd
      rw [(List.mem_replicate.1 (List.mem_of_getElem? hd)).2]
      exact fun bytes heq => by cases heq

end MethodArea.ConstantPool
