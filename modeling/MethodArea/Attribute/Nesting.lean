/-
# `Attribute.Nesting` — payloads inside payloads

A `Code` payload holds further attributes, which may be code again.  Every
reader of the layout leaves fewer bytes than it was given, so a payload
inside another one is shorter than it (`info_length_lt_of_codeFrame?`),
and taking payloads apart comes to an end.
-/
import MethodArea.Attribute.Layout

namespace MethodArea.Attribute

/-- The frame that a `Code` payload is. -/
def codeFrame? (info : List UInt8) : Option CodeFrame := whole? readCodeFrame info

theorem length_of_readU2 {bytes rest : List UInt8} {n : UInt16}
    (h : readU2 bytes = some (n, rest)) : rest.length < bytes.length := by
  unfold readU2 at h
  split at h
  · cases h
    simp only [List.length_cons]
    omega
  · cases h

theorem length_of_readU4 {bytes rest : List UInt8} {n : UInt32}
    (h : readU4 bytes = some (n, rest)) : rest.length < bytes.length := by
  unfold readU4 at h
  split at h
  · cases h
    simp only [List.length_cons]
    omega
  · cases h

theorem length_of_readBlock {bytes rest block : List UInt8}
    (h : readBlock bytes = some (block, rest)) :
    block.length + rest.length < bytes.length := by
  obtain ⟨⟨n, tail⟩, hn, h⟩ := Option.bind_eq_some_iff.1 h
  have hn := length_of_readU4 hn
  dsimp only at h
  unfold readBytes at h
  dsimp only at h
  split at h
  · cases h
    simp only [List.length_take, List.length_drop]
    omega
  · cases h

theorem length_of_readAttributeInfo {bytes rest : List UInt8} {a : AttributeInfo}
    (h : readAttributeInfo bytes = some (a, rest)) :
    a.info.length + rest.length < bytes.length := by
  obtain ⟨⟨n, tail⟩, hn, h⟩ := Option.bind_eq_some_iff.1 h
  obtain ⟨⟨info, tail'⟩, hb, h⟩ := Option.bind_eq_some_iff.1 h
  have hn := length_of_readU2 hn
  have hb := length_of_readBlock hb
  cases h
  dsimp only at hn hb ⊢
  omega

/-- A reader that leaves no more than it was given does so as often as it
is used. -/
theorem length_of_readTimes {α : Type} {read : ByteReader α}
    (hr : ∀ {bytes rest a}, read bytes = some (a, rest) → rest.length ≤ bytes.length) :
    ∀ {n : Nat} {done values : List α} {bytes rest : List UInt8},
      readTimes read done n bytes = some (values, rest) → rest.length ≤ bytes.length
  | 0, _, _, _, _, h => by
    cases h
    exact Nat.le_refl _
  | n + 1, _, _, _, _, h => by
    unfold readTimes at h
    split at h
    · next e => exact Nat.le_trans (length_of_readTimes hr h) (hr e)
    · cases h

theorem length_of_readList {α : Type} {read : ByteReader α}
    (hr : ∀ {bytes rest a}, read bytes = some (a, rest) → rest.length ≤ bytes.length)
    {values : List α} {bytes rest : List UInt8}
    (h : readList read bytes = some (values, rest)) : rest.length < bytes.length := by
  obtain ⟨⟨n, tail⟩, hn, h⟩ := Option.bind_eq_some_iff.1 h
  exact Nat.lt_of_le_of_lt (length_of_readTimes hr h) (length_of_readU2 hn)

theorem length_of_readHandlerRow {bytes rest : List UInt8} {row : HandlerRow}
    (h : readHandlerRow bytes = some (row, rest)) : rest.length ≤ bytes.length := by
  obtain ⟨⟨_, _⟩, h₁, h⟩ := Option.bind_eq_some_iff.1 h
  obtain ⟨⟨_, _⟩, h₂, h⟩ := Option.bind_eq_some_iff.1 h
  obtain ⟨⟨_, _⟩, h₃, h⟩ := Option.bind_eq_some_iff.1 h
  obtain ⟨⟨_, _⟩, h₄, h⟩ := Option.bind_eq_some_iff.1 h
  have h₁ := length_of_readU2 h₁
  have h₂ := length_of_readU2 h₂
  have h₃ := length_of_readU2 h₃
  have h₄ := length_of_readU2 h₄
  cases h
  omega

theorem info_length_of_readTimes :
    ∀ {n : Nat} {done values : List AttributeInfo} {bytes rest : List UInt8} {bound : Nat},
      readTimes readAttributeInfo done n bytes = some (values, rest) →
      bytes.length ≤ bound → (∀ a ∈ done, a.info.length ≤ bound) →
      ∀ a ∈ values, a.info.length ≤ bound
  | 0, _, _, _, _, _, h, _, hd => by
    cases h
    intro a ha
    exact hd a (List.mem_reverse.1 ha)
  | n + 1, _, _, _, _, _, h, hb, hd => by
    unfold readTimes at h
    split at h
    · next e =>
      have hl := length_of_readAttributeInfo e
      refine info_length_of_readTimes h (by omega) (fun a ha => ?_)
      rcases List.mem_cons.1 ha with rfl | ha
      · omega
      · exact hd a ha
    · cases h

/-- A payload inside a `Code` payload is shorter than it. -/
theorem info_length_lt_of_codeFrame? {info : List UInt8} {frame : CodeFrame}
    (h : codeFrame? info = some frame) : ∀ a ∈ frame.attributes, a.info.length < info.length := by
  unfold codeFrame? whole? at h
  split at h
  · next e =>
    cases h
    obtain ⟨⟨_, _⟩, h₁, e⟩ := Option.bind_eq_some_iff.1 e
    obtain ⟨⟨_, _⟩, h₂, e⟩ := Option.bind_eq_some_iff.1 e
    obtain ⟨⟨_, _⟩, h₃, e⟩ := Option.bind_eq_some_iff.1 e
    obtain ⟨⟨_, _⟩, h₄, e⟩ := Option.bind_eq_some_iff.1 e
    obtain ⟨⟨_, _⟩, h₅, e⟩ := Option.bind_eq_some_iff.1 e
    obtain ⟨⟨_, _⟩, h₆, h₇⟩ := Option.bind_eq_some_iff.1 h₅
    have h₁ := length_of_readU2 h₁
    have h₂ := length_of_readU2 h₂
    have h₃ := length_of_readBlock h₃
    have h₄ := length_of_readList length_of_readHandlerRow h₄
    have h₆ := length_of_readU2 h₆
    have nested := info_length_of_readTimes h₇ (Nat.le_refl _) (by simp)
    cases e
    intro a ha
    have ha := nested a ha
    omega
  · cases h

end MethodArea.Attribute
