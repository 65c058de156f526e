/-
# `Proofs.Text.ModifiedUtf8` — text and its bytes

A text is written character by character, and a character in one of the
byte forms of modified UTF-8:

    form      units            bytes
    one       1 … 7F           the unit itself
    zero      0                C0 80
    two       80 … 7FF         110xxxxx 10xxxxxx
    three     800 … FFFF       1110xxxx 10xxxxxx 10xxxxxx
    pair      two surrogates   three bytes for each

`UnitForm`, `CharForm` and `TextForm` state these forms by what the bytes
stand for and how large it is at least; that leaves out a raw zero byte,
forms of four bytes, overlong forms, surrogates that stand alone, and text
that is cut off.

Main statement: what `decode?` reads is what `encode` writes
(`decode?_eq_some_iff`), and that is what the forms say (`textForm_iff`).
Both directions go by units first, then by characters.  The first byte of a
unit tells its form, so the reader never has to look back.
-/
import MethodArea.Text.ModifiedUtf8

namespace MethodArea.Text

/-! ## Characters and their units -/

namespace Units

/-- No character is a surrogate. -/
theorem toNat_bounds (c : Char) :
    c.toNat < 0xD800 ∨ 0xDFFF < c.toNat ∧ c.toNat < 0x110000 := c.valid

theorem lt_of_mem_ofChar {c : Char} {u : Nat} (h : u ∈ ofChar c) : u < 0x10000 := by
  have hc := toNat_bounds c
  unfold ofChar at h
  split at h
  · have hu : u = c.toNat := List.mem_singleton.1 h
    omega
  · simp only [List.mem_cons, List.not_mem_nil, or_false] at h
    omega

theorem toNat_ofNat_of_valid {n : Nat} (h : n.isValidChar) : (Char.ofNat n).toNat = n := by
  rw [Char.ofNat, dif_pos h]
  rfl

/-- A pair of surrogates is a character above all single units. -/
theorem toNat_pair {high low : Nat} (hh : IsHigh high) (hl : IsLow low) :
    (pair high low).toNat = 0x10000 + (high - 0xD800) * 0x400 + (low - 0xDC00) := by
  obtain ⟨hh₁, hh₂⟩ := hh
  obtain ⟨hl₁, hl₂⟩ := hl
  exact toNat_ofNat_of_valid (.inr (by omega))

theorem ofChar_pair {high low : Nat} (hh : IsHigh high) (hl : IsLow low) :
    ofChar (pair high low) = [high, low] := by
  have hp := toNat_pair hh hl
  obtain ⟨hh₁, hh₂⟩ := hh
  obtain ⟨hl₁, hl₂⟩ := hl
  rw [ofChar, if_neg (by omega), List.cons.injEq, List.cons.injEq]
  exact ⟨by omega, by omega, rfl⟩

theorem ofChar_ofNat {u : Nat} (hu : u < 0x10000) (hh : ¬ IsHigh u) (hl : ¬ IsLow u) :
    ofChar (Char.ofNat u) = [u] := by
  have hu' : (Char.ofNat u).toNat = u := by
    simp only [IsHigh, IsLow] at hh hl
    exact toNat_ofNat_of_valid (by omega)
  rw [ofChar, hu', if_pos hu]

/-! ### One step of the reader -/

theorem toCharsFrom_high {done : List Char} {u v : Nat} {rest : List Nat} (hh : IsHigh u) :
    toCharsFrom done (u :: v :: rest) =
      if IsLow v then toCharsFrom (pair u v :: done) rest else none := by
  rw [toCharsFrom, if_pos hh]

theorem toCharsFrom_low {done : List Char} {u : Nat} {rest : List Nat} (hh : ¬ IsHigh u)
    (hl : IsLow u) : toCharsFrom done (u :: rest) = none := by
  cases rest with
  | nil => rw [toCharsFrom, if_neg hh, if_pos hl]
  | cons v rest => rw [toCharsFrom, if_neg hh, if_pos hl]

theorem toCharsFrom_single {done : List Char} {u : Nat} {rest : List Nat} (hh : ¬ IsHigh u)
    (hl : ¬ IsLow u) : toCharsFrom done (u :: rest) = toCharsFrom (Char.ofNat u :: done) rest := by
  cases rest with
  | nil => simp only [toCharsFrom, if_neg hh, if_neg hl]
  | cons v rest => rw [toCharsFrom, if_neg hh, if_neg hl]

/-! ### The reader and the units of characters -/

theorem toCharsFrom_ofChar (done : List Char) (c : Char) (rest : List Nat) :
    toCharsFrom done (ofChar c ++ rest) = toCharsFrom (c :: done) rest := by
  have hc := toNat_bounds c
  unfold ofChar
  split
  · have hh : ¬ IsHigh c.toNat := fun h => by
      obtain ⟨h₁, h₂⟩ := h
      omega
    have hl : ¬ IsLow c.toNat := fun h => by
      obtain ⟨h₁, h₂⟩ := h
      omega
    rw [List.singleton_append, toCharsFrom_single hh hl, Char.ofNat_toNat]
  · have hh : IsHigh (0xD800 + (c.toNat - 0x10000) / 0x400) := ⟨by omega, by omega⟩
    have hl : IsLow (0xDC00 + (c.toNat - 0x10000) % 0x400) := ⟨by omega, by omega⟩
    have hpair : pair (0xD800 + (c.toNat - 0x10000) / 0x400)
        (0xDC00 + (c.toNat - 0x10000) % 0x400) = c := by
      rw [← Char.toNat_inj, toNat_pair hh hl]
      omega
    rw [List.cons_append, List.singleton_append, toCharsFrom_high hh, if_pos hl, hpair]

theorem toCharsFrom_flatMap (done cs : List Char) :
    toCharsFrom done (cs.flatMap ofChar) = some (done.reverse ++ cs) := by
  induction cs generalizing done with
  | nil => rw [List.flatMap_nil, List.append_nil, toCharsFrom]
  | cons c cs ih =>
      rw [List.flatMap_cons, toCharsFrom_ofChar, ih, List.reverse_cons, List.append_assoc,
        List.singleton_append]

theorem eq_append_of_toCharsFrom {done cs : List Char} {units : List Nat}
    (h16 : ∀ u ∈ units, u < 0x10000) (h : toCharsFrom done units = some cs) :
    ∃ more, cs = done.reverse ++ more ∧ units = more.flatMap ofChar := by
  induction done, units using toCharsFrom.induct with
  | case1 done =>
      rw [toCharsFrom] at h
      cases h
      exact ⟨[], (List.append_nil _).symm, rfl⟩
  | case2 done u hh =>
      rw [toCharsFrom, if_pos hh] at h
      cases h
  | case3 done u hh v rest hl ih =>
      rw [toCharsFrom_high hh, if_pos hl] at h
      have hrest : ∀ u ∈ rest, u < 0x10000 := fun u hu =>
        h16 u (List.mem_cons_of_mem _ (List.mem_cons_of_mem _ hu))
      obtain ⟨more, rfl, rfl⟩ := ih hrest h
      refine ⟨pair u v :: more, ?_, ?_⟩
      · rw [List.reverse_cons, List.append_assoc, List.singleton_append]
      · rw [List.flatMap_cons, ofChar_pair hh hl]
        rfl
  | case4 done u hh v rest hl =>
      rw [toCharsFrom_high hh, if_neg hl] at h
      cases h
  | case5 done u rest hh hl =>
      rw [toCharsFrom_low hh hl] at h
      cases h
  | case6 done u rest hh hl ih =>
      rw [toCharsFrom_single hh hl] at h
      obtain ⟨more, rfl, rfl⟩ := ih (fun u hu => h16 u (List.mem_cons_of_mem _ hu)) h
      refine ⟨Char.ofNat u :: more, ?_, ?_⟩
      · rw [List.reverse_cons, List.append_assoc, List.singleton_append]
      · rw [List.flatMap_cons, ofChar_ofNat (h16 u List.mem_cons_self) hh hl]
        rfl

/-- The characters of a list of units are those whose units they are. -/
theorem toChars?_eq_some_iff {units : List Nat} {cs : List Char}
    (h16 : ∀ u ∈ units, u < 0x10000) :
    toChars? units = some cs ↔ units = cs.flatMap ofChar := by
  constructor
  · intro h
    obtain ⟨more, rfl, hunits⟩ := eq_append_of_toCharsFrom h16 h
    exact hunits
  · rintro rfl
    exact toCharsFrom_flatMap [] cs

end Units
namespace ModifiedUtf8

/-! ## The byte forms -/

/-- The bytes of a 16-bit unit: the form that its size asks for, and for
zero the one with two bytes. -/
inductive UnitForm (u : Nat) : List UInt8 → Prop
  | one {a : UInt8} : 1 ≤ u → u ≤ 0x7F → u = a.toNat → UnitForm u [a]
  | zero : u = 0 → UnitForm u [0xC0, 0x80]
  | two {a b : UInt8} : 0x80 ≤ u → u ≤ 0x7FF → 0xC0 ≤ a → IsTail b →
      u = (a.toNat - 0xC0) * 0x40 + (b.toNat - 0x80) → UnitForm u [a, b]
  | three {a b c : UInt8} : 0x800 ≤ u → u ≤ 0xFFFF → 0xE0 ≤ a → IsTail b → IsTail c →
      u = (a.toNat - 0xE0) * 0x1000 + (b.toNat - 0x80) * 0x40 + (c.toNat - 0x80) →
      UnitForm u [a, b, c]

/-- The bytes of a character: those of one unit, or those of a pair of
surrogates. -/
inductive CharForm (c : Char) : List UInt8 → Prop
  | single {bytes : List UInt8} : c.toNat ≤ 0xFFFF → UnitForm c.toNat bytes → CharForm c bytes
  | pair {high low : Nat} {front back : List UInt8} : 0xD800 ≤ high → high ≤ 0xDBFF →
      0xDC00 ≤ low → low ≤ 0xDFFF → c.toNat = 0x10000 + (high - 0xD800) * 0x400 + (low - 0xDC00) →
      UnitForm high front → UnitForm low back → CharForm c (front ++ back)

/-- The bytes of a list of characters, one after the other. -/
inductive TextForm : List Char → List UInt8 → Prop
  | nil : TextForm [] []
  | cons {c : Char} {cs : List Char} {front rest : List UInt8} :
      CharForm c front → TextForm cs rest → TextForm (c :: cs) (front ++ rest)

theorem eq_ofNat_of_toNat_eq {a : UInt8} {n : Nat} (h : a.toNat = n) : a = .ofNat n := by
  rw [← h, UInt8.ofNat_toNat]

theorem toNat_ofNat_of_lt {n : Nat} (h : n < 0x100) : (UInt8.ofNat n).toNat = n := by
  rw [UInt8.toNat_ofNat', Nat.mod_eq_of_lt h]

theorem isTail_iff {b : UInt8} : IsTail b ↔ 0x80 ≤ b.toNat ∧ b.toNat ≤ 0xBF := Iff.rfl

theorem unitForm_encodeUnit {u : Nat} (hu : u < 0x10000) : UnitForm u (encodeUnit u) := by
  unfold encodeUnit
  split
  · next h =>
      exact .one h.1 (Nat.le_of_lt_succ h.2) (toNat_ofNat_of_lt (by omega)).symm
  · next h₁ =>
      have hlast : (UInt8.ofNat (0x80 + u % 0x40)).toNat = 0x80 + u % 0x40 :=
        toNat_ofNat_of_lt (by omega)
      split
      · next h₂ =>
          have hlead : (UInt8.ofNat (0xC0 + u / 0x40)).toNat = 0xC0 + u / 0x40 :=
            toNat_ofNat_of_lt (by omega)
          by_cases h₀ : u = 0
          · rw [h₀]
            exact .zero rfl
          · refine .two (by omega) (by omega) ?_ ?_ ?_
            · rw [UInt8.le_iff_toNat_le, hlead]
              exact Nat.le_add_right _ _
            · rw [isTail_iff, hlast]
              omega
            · rw [hlead, hlast]
              omega
      · next h₂ =>
          have hlead : (UInt8.ofNat (0xE0 + u / 0x1000)).toNat = 0xE0 + u / 0x1000 :=
            toNat_ofNat_of_lt (by omega)
          have hmiddle : (UInt8.ofNat (0x80 + u / 0x40 % 0x40)).toNat = 0x80 + u / 0x40 % 0x40 :=
            toNat_ofNat_of_lt (by omega)
          refine .three (by omega) (by omega) ?_ ?_ ?_ ?_
          · rw [UInt8.le_iff_toNat_le, hlead]
            exact Nat.le_add_right _ _
          · rw [isTail_iff, hmiddle]
            omega
          · rw [isTail_iff, hlast]
            omega
          · rw [hlead, hmiddle, hlast]
            omega

theorem UnitForm.ne_zero {u : Nat} {bytes : List UInt8} (h : UnitForm u bytes) :
    ∀ b ∈ bytes, b ≠ 0 := by
  have htail : ∀ {b : UInt8}, IsTail b → b ≠ 0 := by
    rintro b hb rfl
    exact absurd hb.1 (by decide)
  cases h with
  | one hu _ hval =>
      simp only [List.forall_mem_cons, List.not_mem_nil, false_implies, implies_true, and_true]
      rintro rfl
      rw [hval] at hu
      exact absurd hu (by decide)
  | zero _ =>
      simp only [List.forall_mem_cons, List.not_mem_nil, false_implies, implies_true, and_true]
      exact ⟨by decide, by decide⟩
  | two _ _ ha hb _ =>
      simp only [List.forall_mem_cons, List.not_mem_nil, false_implies, implies_true, and_true]
      refine ⟨?_, htail hb⟩
      rintro rfl
      exact absurd ha (by decide)
  | three _ _ ha hb hc _ =>
      simp only [List.forall_mem_cons, List.not_mem_nil, false_implies, implies_true, and_true]
      refine ⟨?_, htail hb, htail hc⟩
      rintro rfl
      exact absurd ha (by decide)

/-- A unit has one form. -/
theorem unitForm_iff {u : Nat} {bytes : List UInt8} :
    UnitForm u bytes ↔ u < 0x10000 ∧ bytes = encodeUnit u := by
  constructor
  · intro h
    cases h with
    | @one a h₁ h₂ hval =>
        refine ⟨by omega, ?_⟩
        rw [encodeUnit, if_pos ⟨h₁, Nat.lt_succ_of_le h₂⟩, hval, UInt8.ofNat_toNat]
    | zero hval =>
        rw [hval]
        exact ⟨by decide, by decide⟩
    | @two a b h₁ h₂ ha hb hval =>
        have ha : 0xC0 ≤ a.toNat := ha
        rw [isTail_iff] at hb
        have ha' : a = .ofNat (0xC0 + u / 0x40) := eq_ofNat_of_toNat_eq (by omega)
        have hb' : b = .ofNat (0x80 + u % 0x40) := eq_ofNat_of_toNat_eq (by omega)
        refine ⟨by omega, ?_⟩
        rw [encodeUnit, if_neg (by omega), if_pos (by omega), ← ha', ← hb']
    | @three a b c h₁ h₂ ha hb hc hval =>
        have ha : 0xE0 ≤ a.toNat := ha
        rw [isTail_iff] at hb hc
        have ha' : a = .ofNat (0xE0 + u / 0x1000) := eq_ofNat_of_toNat_eq (by omega)
        have hb' : b = .ofNat (0x80 + u / 0x40 % 0x40) := eq_ofNat_of_toNat_eq (by omega)
        have hc' : c = .ofNat (0x80 + u % 0x40) := eq_ofNat_of_toNat_eq (by omega)
        refine ⟨by omega, ?_⟩
        rw [encodeUnit, if_neg (by omega), if_neg (by omega), ← ha', ← hb', ← hc']
  · rintro ⟨hu, rfl⟩
    exact unitForm_encodeUnit hu

/-- A character has one form. -/
theorem charForm_iff {c : Char} {bytes : List UInt8} :
    CharForm c bytes ↔ bytes = encodeChar c := by
  constructor
  · intro h
    cases h with
    | single hc hunit =>
        have hsmall : c.toNat < 0x10000 := Nat.lt_succ_of_le hc
        rw [encodeChar, Units.ofChar, if_pos hsmall, List.flatMap_singleton]
        exact (unitForm_iff.1 hunit).2
    | @pair high low front back hh₁ hh₂ hl₁ hl₂ hval hfront hback =>
        have hhigh : Units.IsHigh high := ⟨hh₁, Nat.lt_succ_of_le hh₂⟩
        have hlow : Units.IsLow low := ⟨hl₁, Nat.lt_succ_of_le hl₂⟩
        have hc : c = Units.pair high low := by
          rw [← Char.toNat_inj, Units.toNat_pair hhigh hlow, hval]
        rw [hc, encodeChar, Units.ofChar_pair hhigh hlow, List.flatMap_cons,
          List.flatMap_singleton, (unitForm_iff.1 hfront).2, (unitForm_iff.1 hback).2]
  · rintro rfl
    by_cases hc : c.toNat < 0x10000
    · refine .single (Nat.le_of_lt_succ hc) ?_
      rw [encodeChar, Units.ofChar, if_pos hc, List.flatMap_singleton]
      exact unitForm_encodeUnit hc
    · have hbounds := Units.toNat_bounds c
      rw [encodeChar, Units.ofChar, if_neg hc, List.flatMap_cons, List.flatMap_singleton]
      exact .pair (by omega) (by omega) (by omega) (by omega) (by omega)
        (unitForm_encodeUnit (by omega)) (unitForm_encodeUnit (by omega))

/-- The bytes that a text is written as are those of its characters. -/
theorem textForm_iff {cs : List Char} {bytes : List UInt8} :
    TextForm cs bytes ↔ bytes = cs.flatMap encodeChar := by
  constructor
  · intro h
    induction h with
    | nil => rfl
    | cons hc _ ih => rw [List.flatMap_cons, charForm_iff.1 hc, ih]
  · rintro rfl
    induction cs with
    | nil => exact .nil
    | cons c cs ih => exact .cons (charForm_iff.2 rfl) ih

/-! ## Reading one unit -/

theorem single?_eq_some_iff {a : UInt8} {u : Nat} : single? a = some u ↔ UnitForm u [a] := by
  constructor
  · intro h
    unfold single? at h
    split at h
    · next hbounds =>
        cases h
        exact .one hbounds.1 hbounds.2 rfl
    · cases h
  · intro h
    cases h with
    | one h₁ h₂ hval =>
        have ha₁ : 1 ≤ a.toNat := by omega
        have ha₂ : a.toNat ≤ 0x7F := by omega
        rw [single?, if_pos ⟨ha₁, ha₂⟩, hval]

theorem double?_eq_some_iff {a b : UInt8} {u : Nat} :
    double? a b = some u ↔ UnitForm u [a, b] := by
  constructor
  · intro h
    unfold double? at h
    split at h
    · next hbounds =>
        obtain rfl := Option.some.inj h
        rcases hbounds with ⟨rfl, rfl⟩ | ⟨ha₁, ha₂, htail⟩
        · exact .zero rfl
        · have ha : 0xC2 ≤ a.toNat ∧ a.toNat ≤ 0xDF := ⟨ha₁, ha₂⟩
          have hb := isTail_iff.1 htail
          exact .two (by omega) (by omega) (UInt8.le_trans (by decide) ha₁) htail rfl
    · cases h
  · intro h
    cases h with
    | zero hval =>
        rw [hval]
        rfl
    | two h₁ h₂ ha htail hval =>
        have ha : 0xC0 ≤ a.toNat := ha
        have hb := isTail_iff.1 htail
        -- the least unit of this form leaves out the two lead bytes of overlong forms
        have ha₁ : 0xC2 ≤ a.toNat := by omega
        have ha₂ : a.toNat ≤ 0xDF := by omega
        rw [double?, if_pos (.inr ⟨ha₁, ha₂, htail⟩), hval]

theorem triple?_eq_some_iff {a b c : UInt8} {u : Nat} :
    triple? a b c = some u ↔ UnitForm u [a, b, c] := by
  constructor
  · intro h
    unfold triple? at h
    split at h
    · next hbounds =>
        obtain rfl := Option.some.inj h
        obtain ⟨hab, hctail⟩ := hbounds
        have hc := isTail_iff.1 hctail
        rcases hab with ⟨rfl, hb₁, hb₂⟩ | ⟨ha₁, ha₂, hbtail⟩
        · have hb : 0xA0 ≤ b.toNat ∧ b.toNat ≤ 0xBF := ⟨hb₁, hb₂⟩
          have hbtail : IsTail b := isTail_iff.2 (by omega)
          have ha : (0xE0 : UInt8).toNat = 0xE0 := rfl
          exact .three (by omega) (by omega) (by decide) hbtail hctail rfl
        · have ha : 0xE1 ≤ a.toNat ∧ a.toNat ≤ 0xEF := ⟨ha₁, ha₂⟩
          have hb := isTail_iff.1 hbtail
          exact .three (by omega) (by omega) (UInt8.le_trans (by decide) ha₁) hbtail hctail rfl
    · cases h
  · intro h
    cases h with
    | three h₁ h₂ ha hbtail hctail hval =>
        have ha : 0xE0 ≤ a.toNat := ha
        have hb := isTail_iff.1 hbtail
        have hc := isTail_iff.1 hctail
        have ha₂ : a.toNat ≤ 0xEF := by omega
        have hab : (a = 0xE0 ∧ 0xA0 ≤ b ∧ b ≤ 0xBF) ∨ (0xE1 ≤ a ∧ a ≤ 0xEF ∧ IsTail b) := by
          rcases Nat.eq_or_lt_of_le ha with ha | ha
          · have hb₁ : 0xA0 ≤ b.toNat := by omega
            exact .inl ⟨UInt8.toNat_inj.1 ha.symm, hb₁, hb.2⟩
          · exact .inr ⟨ha, ha₂, hbtail⟩
        rw [triple?, if_pos ⟨hab, hctail⟩, hval]

/-! ## Reading all units -/

/-- The forms of two and three bytes start with a byte that is no form of
its own. -/
theorem single?_eq_none {u : Nat} {a b : UInt8} {rest : List UInt8}
    (h : UnitForm u (a :: b :: rest)) : single? a = none := by
  have hlead : 0xC0 ≤ a.toNat := by
    cases h with
    | zero _ => exact Nat.le_refl _
    | two _ _ ha _ _ => exact ha
    | three _ _ ha _ _ _ => exact Nat.le_trans (by decide) ha
  rw [single?, if_neg]
  rintro ⟨-, hsmall⟩
  have hsmall : a.toNat ≤ 0x7F := hsmall
  omega

/-- The form of three bytes starts with a byte that starts no form of
two. -/
theorem double?_eq_none {u : Nat} {a b c : UInt8} (h : UnitForm u [a, b, c]) :
    double? a b = none := by
  cases h with
  | three _ _ ha _ _ _ =>
      have ha : 0xE0 ≤ a.toNat := ha
      rw [double?, if_neg]
      rintro (⟨rfl, -⟩ | ⟨-, hsmall, -⟩)
      · exact absurd ha (by decide)
      · have hsmall : a.toNat ≤ 0xDF := hsmall
        omega

theorem unitsFrom_single {done : List Nat} {a : UInt8} {u : Nat} {rest : List UInt8}
    (h : single? a = some u) : unitsFrom done (a :: rest) = unitsFrom (u :: done) rest := by
  rw [unitsFrom.eq_def]
  simp only [h]

theorem unitsFrom_double {done : List Nat} {a b : UInt8} {u : Nat} {rest : List UInt8}
    (h₁ : single? a = none) (h₂ : double? a b = some u) :
    unitsFrom done (a :: b :: rest) = unitsFrom (u :: done) rest := by
  rw [unitsFrom.eq_def]
  simp only [h₁, h₂]

theorem unitsFrom_triple {done : List Nat} {a b c : UInt8} {rest : List UInt8}
    (h₁ : single? a = none) (h₂ : double? a b = none) :
    unitsFrom done (a :: b :: c :: rest) =
      (triple? a b c).bind (fun u => unitsFrom (u :: done) rest) := by
  rw [unitsFrom.eq_def]
  simp only [h₁, h₂]
  cases triple? a b c with
  | none => rfl
  | some u => rfl

theorem unitsFrom_append {u : Nat} {front : List UInt8} (h : UnitForm u front) (done : List Nat)
    (rest : List UInt8) : unitsFrom done (front ++ rest) = unitsFrom (u :: done) rest := by
  match front, h with
  | [a], h => exact unitsFrom_single (single?_eq_some_iff.2 h)
  | [a, b], h => exact unitsFrom_double (single?_eq_none h) (double?_eq_some_iff.2 h)
  | [a, b, c], h =>
      rw [List.cons_append, List.cons_append, List.singleton_append,
        unitsFrom_triple (single?_eq_none h) (double?_eq_none h), triple?_eq_some_iff.2 h,
        Option.bind_some]

theorem unitsFrom_flatMap {units : List Nat} (h : ∀ u ∈ units, u < 0x10000) (done : List Nat) :
    unitsFrom done (units.flatMap encodeUnit) = some (done.reverse ++ units) := by
  induction units generalizing done with
  | nil => rw [List.flatMap_nil, List.append_nil, unitsFrom]
  | cons u units ih =>
      have hu : UnitForm u (encodeUnit u) := unitForm_encodeUnit (h u List.mem_cons_self)
      rw [List.flatMap_cons, unitsFrom_append hu, ih (fun u hu => h u (List.mem_cons_of_mem _ hu)),
        List.reverse_cons, List.append_assoc, List.singleton_append]

/-- Units that are read stand in the bytes in their forms. -/
def ReadsAs (done units : List Nat) (bytes : List UInt8) : Prop :=
  ∃ more, units = done.reverse ++ more ∧ (∀ u ∈ more, u < 0x10000) ∧
    bytes = more.flatMap encodeUnit

theorem ReadsAs.cons {u : Nat} {done units : List Nat} {front rest : List UInt8}
    (hu : UnitForm u front) (h : ReadsAs (u :: done) units rest) :
    ReadsAs done units (front ++ rest) := by
  obtain ⟨more, rfl, hmore, rfl⟩ := h
  obtain ⟨hsmall, rfl⟩ := unitForm_iff.1 hu
  refine ⟨u :: more, ?_, List.forall_mem_cons.2 ⟨hsmall, hmore⟩, ?_⟩
  · rw [List.reverse_cons, List.append_assoc, List.singleton_append]
  · rw [List.flatMap_cons]

theorem readsAs_of_unitsFrom {done units : List Nat} {bytes : List UInt8}
    (h : unitsFrom done bytes = some units) : ReadsAs done units bytes := by
  induction done, bytes using unitsFrom.induct with
  | case1 done =>
      rw [unitsFrom] at h
      cases h
      exact ⟨[], (List.append_nil _).symm, fun _ h => absurd h List.not_mem_nil, rfl⟩
  | case2 done a rest u hu ih =>
      rw [unitsFrom_single hu] at h
      exact (ih h).cons (single?_eq_some_iff.1 hu)
  | case3 done a h₁ =>
      rw [unitsFrom.eq_def] at h
      simp only [h₁] at h
      cases h
  | case4 done a h₁ b rest u hu ih =>
      rw [unitsFrom_double h₁ hu] at h
      exact (ih h).cons (double?_eq_some_iff.1 hu)
  | case5 done a h₁ b h₂ =>
      rw [unitsFrom.eq_def] at h
      simp only [h₁, h₂] at h
      cases h
  | case6 done a h₁ b h₂ c rest u hu ih =>
      rw [unitsFrom_triple h₁ h₂, hu] at h
      exact (ih h).cons (triple?_eq_some_iff.1 hu)
  | case7 done a h₁ b h₂ c rest h₃ =>
      rw [unitsFrom_triple h₁ h₂, h₃] at h
      cases h

theorem units?_eq_some_iff {bytes : List UInt8} {units : List Nat} :
    units? bytes = some units ↔ (∀ u ∈ units, u < 0x10000) ∧ bytes = units.flatMap encodeUnit := by
  constructor
  · intro h
    obtain ⟨more, rfl, hmore⟩ := readsAs_of_unitsFrom h
    exact hmore
  · rintro ⟨h, rfl⟩
    exact unitsFrom_flatMap h []

/-! ## Reading a text -/

theorem encode_eq_flatMap (text : String) :
    encode text = (text.toList.flatMap Units.ofChar).flatMap encodeUnit := by
  rw [List.flatMap_assoc]
  rfl

/-- Reading and writing are inverse to each other: the bytes that are read
are those that some text is written as. -/
theorem decode?_eq_some_iff {bytes : List UInt8} {text : String} :
    decode? bytes = some text ↔ bytes = encode text := by
  have h16 : ∀ u ∈ text.toList.flatMap Units.ofChar, u < 0x10000 := by
    intro u hu
    obtain ⟨c, -, hu⟩ := List.mem_flatMap.1 hu
    exact Units.lt_of_mem_ofChar hu
  rw [encode_eq_flatMap]
  constructor
  · intro h
    obtain ⟨cs, hread, rfl⟩ := Option.map_eq_some_iff.1 h
    obtain ⟨units, hunits, hcs⟩ := Option.bind_eq_some_iff.1 hread
    obtain ⟨hsmall, hbytes⟩ := units?_eq_some_iff.1 hunits
    rw [hbytes, (Units.toChars?_eq_some_iff hsmall).1 hcs, String.toList_ofList]
  · intro h
    rw [decode?, units?_eq_some_iff.2 ⟨h16, h⟩, Option.bind_some,
      (Units.toChars?_eq_some_iff h16).2 rfl, Option.map_some, String.ofList_toList]

/-- The forms of a text are the bytes that it is written as. -/
theorem textForm_toList_iff {text : String} {bytes : List UInt8} :
    TextForm text.toList bytes ↔ bytes = encode text := textForm_iff

/-- Whatever writes every text in its form writes what `encode` writes. -/
theorem eq_encode_of_textForm {write : String → List UInt8}
    (h : ∀ text, TextForm text.toList (write text)) : write = encode :=
  funext fun text => textForm_toList_iff.1 (h text)

/-- Whatever reads the forms and nothing else reads what `decode?` reads. -/
theorem eq_decode?_of_textForm {read : List UInt8 → Option String}
    (h : ∀ bytes text, read bytes = some text ↔ TextForm text.toList bytes) : read = decode? := by
  funext bytes
  refine Option.ext fun text => ?_
  rw [h, textForm_toList_iff, decode?_eq_some_iff]

/-- No text is written with a zero byte. -/
theorem zero_notMem_encode (text : String) : 0 ∉ encode text := by
  rw [encode_eq_flatMap]
  intro h
  obtain ⟨u, hu, hzero⟩ := List.mem_flatMap.1 h
  obtain ⟨c, -, hu⟩ := List.mem_flatMap.1 hu
  exact (unitForm_encodeUnit (Units.lt_of_mem_ofChar hu)).ne_zero 0 hzero rfl

end ModifiedUtf8

end MethodArea.Text
