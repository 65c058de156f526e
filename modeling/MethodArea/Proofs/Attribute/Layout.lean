/-
# `Proofs.Attribute.Layout` — which bytes a payload is

A layout says of a value which bytes it may be laid out as:

    u2, u4        a number in two or four bytes, the most significant first
    block         u4 n, then n bytes
    listed row    u2 n, then n rows one after the other
    code          u2 stack, u2 locals, block, listed rows of four u2,
                  listed (u2, block)

Each reader of `Attribute.Layout` reads one layout (`Reads`): it takes a
value off the front of the bytes exactly if these start with the bytes of
that value, whatever follows.  So a payload that has to be used up is read
exactly if it is the layout of something (`Reads.whole`).

Each writer writes one layout (`Writes`), of the values that fit it: counts
have 16 bits and lengths 32, and a value that needs more has no layout.
-/
import MethodArea.Attribute.Nesting

namespace MethodArea.Attribute

/-- Which bytes a value may be laid out as. -/
abbrev Layout (α : Type) : Type := α → List UInt8 → Prop

namespace Layout

/-! ## Layouts -/

/-- A 16-bit number, the more significant byte first. -/
inductive U2 (n : UInt16) : List UInt8 → Prop
  | mk {a b : UInt8} : n.toNat = a.toNat * 0x100 + b.toNat → U2 n [a, b]

/-- A 32-bit number, the most significant byte first. -/
inductive U4 (n : UInt32) : List UInt8 → Prop
  | mk {a b c d : UInt8} :
      n.toNat = a.toNat * 0x1000000 + b.toNat * 0x10000 + c.toNat * 0x100 + d.toNat →
      U4 n [a, b, c, d]

/-- Bytes after their number. -/
inductive Block (block : List UInt8) : List UInt8 → Prop
  | mk {n : UInt32} {length : List UInt8} : U4 n length → n.toNat = block.length →
      Block block (length ++ block)

/-- Rows one after the other. -/
inductive Rows {α : Type} (row : Layout α) : List α → List UInt8 → Prop
  | nil : Rows row [] []
  | cons {a : α} {rows : List α} {front rest : List UInt8} : row a front → Rows row rows rest →
      Rows row (a :: rows) (front ++ rest)

/-- Rows after their number. -/
inductive Listed {α : Type} (row : Layout α) (rows : List α) : List UInt8 → Prop
  | mk {n : UInt16} {count bytes : List UInt8} : U2 n count → n.toNat = rows.length →
      Rows row rows bytes → Listed row rows (count ++ bytes)

/-- A row of an exception table. -/
inductive Handler (r : HandlerRow) : List UInt8 → Prop
  | mk {startPc endPc handlerPc catchType : List UInt8} : U2 r.startPc startPc →
      U2 r.endPc endPc → U2 r.handlerPc handlerPc → U2 r.catchType catchType →
      Handler r (startPc ++ endPc ++ handlerPc ++ catchType)

/-- A row of a line number table. -/
inductive Line (r : LineRow) : List UInt8 → Prop
  | mk {startPc line : List UInt8} : U2 r.startPc startPc → U2 r.line line →
      Line r (startPc ++ line)

/-- An attribute inside a payload. -/
inductive Nested (a : AttributeInfo) : List UInt8 → Prop
  | mk {name info : List UInt8} : U2 a.nameIndex name → Block a.info info →
      Nested a (name ++ info)

/-- The frame of a `Code` payload. -/
inductive Code (f : CodeFrame) : List UInt8 → Prop
  | mk {stack locals code handlers attributes : List UInt8} : U2 f.maxStack stack →
      U2 f.maxLocals locals → Block f.code code → Listed Handler f.handlers handlers →
      Listed Nested f.attributes attributes →
      Code f (stack ++ locals ++ code ++ handlers ++ attributes)

end Layout

/-! ## Readers -/

/-- A reader takes off the front what a layout says, and nothing else. -/
def Reads {α : Type} (read : ByteReader α) (layout : Layout α) : Prop :=
  ∀ bytes a rest, read bytes = some (a, rest) ↔ ∃ front, layout a front ∧ bytes = front ++ rest

section Reads
variable {α : Type} {read : ByteReader α} {layout : Layout α}

/-- The value that uses up the bytes is the one that they are laid out
as. -/
theorem Reads.whole (h : Reads read layout) {bytes : List UInt8} {a : α} :
    whole? read bytes = some a ↔ layout a bytes := by
  constructor
  · intro hw
    rw [whole?] at hw
    split at hw
    · next a' hread =>
        cases hw
        obtain ⟨front, hfront, rfl⟩ := (h _ _ _).1 hread
        rwa [List.append_nil]
    · cases hw
  · intro hl
    have hread : read bytes = some (a, []) := (h _ _ _).2 ⟨bytes, hl, (List.append_nil _).symm⟩
    simp only [whole?, hread]

/-- A reader followed by more. -/
theorem Reads.bind {β : Type} (h : Reads read layout) {f : α × List UInt8 → Option β}
    {bytes : List UInt8} {b : β} :
    read bytes >>= f = some b ↔
      ∃ a front rest, layout a front ∧ bytes = front ++ rest ∧ f (a, rest) = some b := by
  constructor
  · intro hb
    obtain ⟨⟨a, rest⟩, hread, hb⟩ := Option.bind_eq_some_iff.1 hb
    obtain ⟨front, hfront, hbytes⟩ := (h _ _ _).1 hread
    exact ⟨a, front, rest, hfront, hbytes, hb⟩
  · rintro ⟨a, front, rest, hfront, hbytes, hb⟩
    exact Option.bind_eq_some_iff.2 ⟨(a, rest), (h _ _ _).2 ⟨front, hfront, hbytes⟩, hb⟩

end Reads

theorem reads_u2 : Reads readU2 Layout.U2 := by
  intro bytes n rest
  constructor
  · intro h
    unfold readU2 at h
    split at h
    · next a b tail =>
        cases h
        refine ⟨[a, b], .mk ?_, rfl⟩
        have ha := a.toNat_lt
        have hb := b.toNat_lt
        rw [UInt16.toNat_ofNat', Nat.mod_eq_of_lt (by omega)]
    · cases h
  · rintro ⟨_, ⟨hn⟩, rfl⟩
    rw [List.cons_append, List.cons_append, List.nil_append, readU2, ← hn, UInt16.ofNat_toNat]

theorem reads_u4 : Reads readU4 Layout.U4 := by
  intro bytes n rest
  constructor
  · intro h
    unfold readU4 at h
    split at h
    · next a b c d tail =>
        cases h
        refine ⟨[a, b, c, d], .mk ?_, rfl⟩
        have ha := a.toNat_lt
        have hb := b.toNat_lt
        have hc := c.toNat_lt
        have hd := d.toNat_lt
        rw [UInt32.toNat_ofNat', Nat.mod_eq_of_lt (by omega)]
        omega
    · cases h
  · rintro ⟨_, @⟨a, b, c, d, hn⟩, rfl⟩
    have hsum : ((a.toNat * 0x100 + b.toNat) * 0x100 + c.toNat) * 0x100 + d.toNat = n.toNat := by
      omega
    rw [List.cons_append, List.cons_append, List.cons_append, List.cons_append, List.nil_append,
      readU4, hsum, UInt32.ofNat_toNat]

theorem readBytes_eq_some_iff {n : Nat} {bytes block rest : List UInt8} :
    readBytes n bytes = some (block, rest) ↔ block.length = n ∧ bytes = block ++ rest := by
  constructor
  · intro h
    unfold readBytes at h
    dsimp only at h
    split at h
    · next hlength =>
        cases h
        exact ⟨hlength, (List.take_append_drop n bytes).symm⟩
    · cases h
  · rintro ⟨rfl, rfl⟩
    simp only [readBytes, List.take_left, List.drop_left, if_true]

theorem reads_block : Reads readBlock Layout.Block := by
  intro bytes block rest
  rw [readBlock, reads_u4.bind]
  constructor
  · rintro ⟨n, length, tail, hn, rfl, hblock⟩
    obtain ⟨hlength, rfl⟩ := readBytes_eq_some_iff.1 hblock
    exact ⟨length ++ block, .mk hn hlength.symm, (List.append_assoc _ _ _).symm⟩
  · rintro ⟨_, @⟨n, length, hn, hlength⟩, rfl⟩
    exact ⟨n, length, block ++ rest, hn, List.append_assoc _ _ _,
      readBytes_eq_some_iff.2 ⟨hlength.symm, rfl⟩⟩

/-- As many rows as counted are read one after the other. -/
theorem readTimes_eq_some_iff {α : Type} {read : ByteReader α} {row : Layout α}
    (h : Reads read row) {done values : List α} {n : Nat} {bytes rest : List UInt8} :
    readTimes read done n bytes = some (values, rest) ↔
      ∃ rows front, values = done.reverse ++ rows ∧ rows.length = n ∧ Layout.Rows row rows front ∧
        bytes = front ++ rest := by
  induction n generalizing done bytes with
  | zero =>
      rw [readTimes]
      constructor
      · intro heq
        cases heq
        exact ⟨[], [], (List.append_nil _).symm, rfl, .nil, rfl⟩
      · rintro ⟨rows, front, rfl, hlength, hrows, rfl⟩
        obtain rfl := List.eq_nil_of_length_eq_zero hlength
        cases hrows
        rw [List.append_nil, List.nil_append]
  | succ n ih =>
      have hstep : readTimes read done (n + 1) bytes =
          read bytes >>= fun (a, tail) => readTimes read (a :: done) n tail := by
        rw [readTimes]
        cases read bytes with
        | none => rfl
        | some p => rfl
      rw [hstep, h.bind]
      simp only [ih]
      constructor
      · rintro ⟨a, front, _, hfront, rfl, rows, back, rfl, hlength, hrows, rfl⟩
        refine ⟨a :: rows, front ++ back, ?_, congrArg (· + 1) hlength, .cons hfront hrows,
          (List.append_assoc _ _ _).symm⟩
        rw [List.reverse_cons, List.append_assoc, List.singleton_append]
      · rintro ⟨rows, front, rfl, hlength, hrows, rfl⟩
        cases hrows with
        | nil => cases hlength
        | @cons a rows front back hfront hrows =>
            refine ⟨a, front, back ++ rest, hfront, List.append_assoc _ _ _, rows, back, ?_,
              Nat.succ.inj hlength, hrows, rfl⟩
            rw [List.reverse_cons, List.append_assoc, List.singleton_append]

theorem reads_listed {α : Type} {read : ByteReader α} {row : Layout α} (h : Reads read row) :
    Reads (readList read) (Layout.Listed row) := by
  intro bytes values rest
  rw [readList, reads_u2.bind]
  simp only [readTimes_eq_some_iff h]
  constructor
  · rintro ⟨n, count, _, hn, rfl, rows, front, rfl, hlength, hrows, rfl⟩
    exact ⟨count ++ front, .mk hn hlength.symm hrows, (List.append_assoc _ _ _).symm⟩
  · rintro ⟨_, @⟨n, count, front, hn, hlength, hrows⟩, rfl⟩
    exact ⟨n, count, front ++ rest, hn, List.append_assoc _ _ _, values, front, rfl, hlength.symm,
      hrows, rfl⟩

theorem reads_handler : Reads readHandlerRow Layout.Handler := by
  intro bytes r rest
  simp only [readHandlerRow, reads_u2.bind, Option.some.injEq, Prod.mk.injEq]
  constructor
  · rintro ⟨_, _, _, h₁, rfl, _, _, _, h₂, rfl, _, _, _, h₃, rfl, _, _, _, h₄, rfl, rfl, rfl⟩
    exact ⟨_, .mk h₁ h₂ h₃ h₄, by simp only [List.append_assoc]⟩
  · rintro ⟨_, ⟨h₁, h₂, h₃, h₄⟩, rfl⟩
    exact ⟨_, _, _, h₁, by simp only [List.append_assoc], _, _, _, h₂, rfl, _, _, _, h₃, rfl,
      _, _, _, h₄, rfl, rfl, rfl⟩

theorem reads_line : Reads readLineRow Layout.Line := by
  intro bytes r rest
  simp only [readLineRow, reads_u2.bind, Option.some.injEq, Prod.mk.injEq]
  constructor
  · rintro ⟨_, _, _, h₁, rfl, _, _, _, h₂, rfl, rfl, rfl⟩
    exact ⟨_, .mk h₁ h₂, by simp only [List.append_assoc]⟩
  · rintro ⟨_, ⟨h₁, h₂⟩, rfl⟩
    exact ⟨_, _, _, h₁, by simp only [List.append_assoc], _, _, _, h₂, rfl, rfl, rfl⟩

theorem reads_nested : Reads readAttributeInfo Layout.Nested := by
  intro bytes a rest
  simp only [readAttributeInfo, reads_u2.bind, reads_block.bind, Option.some.injEq, Prod.mk.injEq]
  constructor
  · rintro ⟨_, _, _, h₁, rfl, _, _, _, h₂, rfl, rfl, rfl⟩
    exact ⟨_, .mk h₁ h₂, by simp only [List.append_assoc]⟩
  · rintro ⟨_, ⟨h₁, h₂⟩, rfl⟩
    exact ⟨_, _, _, h₁, by simp only [List.append_assoc], _, _, _, h₂, rfl, rfl, rfl⟩

theorem reads_code : Reads readCodeFrame Layout.Code := by
  intro bytes f rest
  simp only [readCodeFrame, reads_u2.bind, reads_block.bind, (reads_listed reads_handler).bind,
    (reads_listed reads_nested).bind, Option.some.injEq, Prod.mk.injEq]
  constructor
  · rintro ⟨_, _, _, h₁, rfl, _, _, _, h₂, rfl, _, _, _, h₃, rfl, _, _, _, h₄, rfl, _, _, _, h₅,
      rfl, rfl, rfl⟩
    exact ⟨_, .mk h₁ h₂ h₃ h₄ h₅, by simp only [List.append_assoc]⟩
  · rintro ⟨_, ⟨h₁, h₂, h₃, h₄, h₅⟩, rfl⟩
    exact ⟨_, _, _, h₁, by simp only [List.append_assoc], _, _, _, h₂, rfl, _, _, _, h₃, rfl,
      _, _, _, h₄, rfl, _, _, _, h₅, rfl, rfl, rfl⟩

theorem codeFrame?_eq_some_iff {info : List UInt8} {f : CodeFrame} :
    codeFrame? info = some f ↔ Layout.Code f info := reads_code.whole

/-! ## Writers -/

/-- A writer writes what a layout says, for the values that fit. -/
def Writes {α : Type} (write : α → List UInt8) (fits : α → Prop) (layout : Layout α) : Prop :=
  ∀ a bytes, layout a bytes ↔ fits a ∧ bytes = write a

section Writes
variable {α : Type} {write : α → List UInt8} {fits : α → Prop} {layout : Layout α}

theorem Writes.eq_write (h : Writes write fits layout) {a : α} {bytes : List UInt8}
    (ha : layout a bytes) : bytes = write a :=
  ((h _ _).1 ha).2

theorem Writes.fits_of (h : Writes write fits layout) {a : α} {bytes : List UInt8}
    (ha : layout a bytes) : fits a :=
  ((h _ _).1 ha).1

theorem Writes.layout_write (h : Writes write fits layout) {a : α} (ha : fits a) :
    layout a (write a) :=
  (h _ _).2 ⟨ha, rfl⟩

end Writes

/-- Every value fits. -/
def Always {α : Type} (_ : α) : Prop := True

theorem writes_u2 : Writes writeU2 Always Layout.U2 := by
  intro n bytes
  constructor
  · rintro @⟨a, b, hn⟩
    have hb := b.toNat_lt
    have hhigh : n.toNat / 0x100 = a.toNat := by omega
    have hlow : n.toNat % 0x100 = b.toNat := by omega
    refine ⟨trivial, ?_⟩
    rw [writeU2, hhigh, hlow, UInt8.ofNat_toNat, UInt8.ofNat_toNat]
  · rintro ⟨-, rfl⟩
    refine .mk ?_
    have hn := n.toNat_lt
    rw [UInt8.toNat_ofNat', UInt8.toNat_ofNat']
    omega

theorem writes_u4 : Writes writeU4 Always Layout.U4 := by
  intro n bytes
  constructor
  · rintro @⟨a, b, c, d, hn⟩
    have hb := b.toNat_lt
    have hc := c.toNat_lt
    have hd := d.toNat_lt
    have h₁ : n.toNat / 0x1000000 = a.toNat := by omega
    have h₂ : n.toNat / 0x10000 % 0x100 = b.toNat := by omega
    have h₃ : n.toNat / 0x100 % 0x100 = c.toNat := by omega
    have h₄ : n.toNat % 0x100 = d.toNat := by omega
    refine ⟨trivial, ?_⟩
    rw [writeU4, h₁, h₂, h₃, h₄, UInt8.ofNat_toNat, UInt8.ofNat_toNat, UInt8.ofNat_toNat,
      UInt8.ofNat_toNat]
  · rintro ⟨-, rfl⟩
    refine .mk ?_
    have hn := n.toNat_lt
    rw [UInt8.toNat_ofNat', UInt8.toNat_ofNat', UInt8.toNat_ofNat', UInt8.toNat_ofNat']
    omega

theorem writes_block : Writes writeBlock (·.length < 0x100000000) Layout.Block := by
  intro block bytes
  constructor
  · rintro @⟨n, length, hn, hlength⟩
    have hlt := n.toNat_lt
    have hfits : block.length < 0x100000000 := by omega
    refine ⟨hfits, ?_⟩
    rw [writeBlock, ← hlength, UInt32.ofNat_toNat, writes_u4.eq_write hn]
  · rintro ⟨hlt, rfl⟩
    refine .mk (writes_u4.layout_write trivial) ?_
    rw [UInt32.toNat_ofNat', Nat.mod_eq_of_lt hlt]

theorem writes_rows {α : Type} {write : α → List UInt8} {fits : α → Prop} {row : Layout α}
    (h : Writes write fits row) :
    Writes (List.flatMap write) (fun rows => ∀ a ∈ rows, fits a) (Layout.Rows row) := by
  intro rows bytes
  constructor
  · intro hrows
    induction hrows with
    | nil => exact ⟨fun _ h => absurd h List.not_mem_nil, rfl⟩
    | cons hrow _ ih =>
        obtain ⟨hall, rfl⟩ := ih
        refine ⟨List.forall_mem_cons.2 ⟨h.fits_of hrow, hall⟩, ?_⟩
        rw [List.flatMap_cons, h.eq_write hrow]
  · rintro ⟨hall, rfl⟩
    induction rows with
    | nil => exact .nil
    | cons a rows ih =>
        obtain ⟨hfits, hall⟩ := List.forall_mem_cons.1 hall
        rw [List.flatMap_cons]
        exact .cons (h.layout_write hfits) (ih hall)

theorem writes_listed {α : Type} {write : α → List UInt8} {fits : α → Prop} {row : Layout α}
    (h : Writes write fits row) :
    Writes (writeList write) (fun rows => rows.length < 0x10000 ∧ ∀ a ∈ rows, fits a)
      (Layout.Listed row) := by
  intro rows bytes
  constructor
  · rintro @⟨n, count, bytes, hn, hlength, hrows⟩
    have hlt := n.toNat_lt
    have hfits : rows.length < 0x10000 := by omega
    refine ⟨⟨hfits, (writes_rows h).fits_of hrows⟩, ?_⟩
    rw [writeList, ← hlength, UInt16.ofNat_toNat, writes_u2.eq_write hn,
      (writes_rows h).eq_write hrows]
  · rintro ⟨⟨hlt, hall⟩, rfl⟩
    refine .mk (writes_u2.layout_write trivial) ?_ ((writes_rows h).layout_write hall)
    rw [UInt16.toNat_ofNat', Nat.mod_eq_of_lt hlt]

/-- Rows that all fit. -/
theorem writes_listed_always {α : Type} {write : α → List UInt8} {row : Layout α}
    (h : Writes write Always row) :
    Writes (writeList write) (·.length < 0x10000) (Layout.Listed row) := by
  intro rows bytes
  rw [writes_listed h rows bytes]
  exact and_congr_left fun _ => and_iff_left fun _ _ => trivial

theorem writes_handler : Writes writeHandlerRow Always Layout.Handler := by
  intro r bytes
  constructor
  · rintro ⟨h₁, h₂, h₃, h₄⟩
    refine ⟨trivial, ?_⟩
    rw [writeHandlerRow, writes_u2.eq_write h₁, writes_u2.eq_write h₂, writes_u2.eq_write h₃,
      writes_u2.eq_write h₄]
  · rintro ⟨-, rfl⟩
    have h : ∀ n, Layout.U2 n (writeU2 n) := fun _ => writes_u2.layout_write trivial
    exact .mk (h _) (h _) (h _) (h _)

theorem writes_line : Writes writeLineRow Always Layout.Line := by
  intro r bytes
  constructor
  · rintro ⟨h₁, h₂⟩
    refine ⟨trivial, ?_⟩
    rw [writeLineRow, writes_u2.eq_write h₁, writes_u2.eq_write h₂]
  · rintro ⟨-, rfl⟩
    exact .mk (writes_u2.layout_write trivial) (writes_u2.layout_write trivial)

theorem writes_nested :
    Writes writeAttributeInfo (·.info.length < 0x100000000) Layout.Nested := by
  intro a bytes
  constructor
  · rintro ⟨h₁, h₂⟩
    refine ⟨writes_block.fits_of h₂, ?_⟩
    rw [writeAttributeInfo, writes_u2.eq_write h₁, writes_block.eq_write h₂]
  · rintro ⟨hlt, rfl⟩
    exact .mk (writes_u2.layout_write trivial) (writes_block.layout_write hlt)

/-- A frame whose counts and lengths can be written. -/
structure CodeFrame.Fits (f : CodeFrame) : Prop where
  code : f.code.length < 0x100000000
  handlers : f.handlers.length < 0x10000
  attributes : f.attributes.length < 0x10000
  infos : ∀ a ∈ f.attributes, a.info.length < 0x100000000

theorem writes_code : Writes writeCodeFrame CodeFrame.Fits Layout.Code := by
  have hhandlers := writes_listed_always writes_handler
  have hnested := writes_listed writes_nested
  intro f bytes
  constructor
  · rintro ⟨h₁, h₂, h₃, h₄, h₅⟩
    refine ⟨⟨writes_block.fits_of h₃, hhandlers.fits_of h₄, (hnested.fits_of h₅).1,
      (hnested.fits_of h₅).2⟩, ?_⟩
    rw [writeCodeFrame, writes_u2.eq_write h₁, writes_u2.eq_write h₂, writes_block.eq_write h₃,
      hhandlers.eq_write h₄, hnested.eq_write h₅]
  · rintro ⟨hfits, rfl⟩
    exact .mk (writes_u2.layout_write trivial) (writes_u2.layout_write trivial)
      (writes_block.layout_write hfits.code) (hhandlers.layout_write hfits.handlers)
      (hnested.layout_write ⟨hfits.attributes, hfits.infos⟩)

end MethodArea.Attribute
