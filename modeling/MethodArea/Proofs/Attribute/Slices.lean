/-
# `Proofs.Attribute.Slices` — every byte of a `Code` payload has its use

A `Code` payload is

    u2 u2        stack and locals
    u4, bytes    the code after its length
    u2, rows     the handlers after their number, eight bytes each
    u2, rows     the attributes after their number, each of them
                 u2 its name, u4 its length, and its payload

and nothing else, so its length is twelve and what the code, the handlers
and the attributes take (`CodeFrame.Accounts`).  The payloads of the
attributes are slices of it, one after another with six bytes in front of
each (`payloadSlices`): they do not overlap, and each is shorter than the
whole by eighteen bytes at least.

How long a layout is depends on the value alone, with one lemma for each
layout that a frame is made of.
-/
import Mathlib
import MethodArea.Proofs.Attribute.Layout

namespace MethodArea.Attribute

/-! ## How long a layout is -/

namespace Layout

theorem U2.length_eq {n : UInt16} {bytes : List UInt8} (h : U2 n bytes) : bytes.length = 2 := by
  obtain ⟨_⟩ := h
  rfl

theorem U4.length_eq {n : UInt32} {bytes : List UInt8} (h : U4 n bytes) : bytes.length = 4 := by
  obtain ⟨_⟩ := h
  rfl

theorem Block.length_eq {block bytes : List UInt8} (h : Block block bytes) :
    bytes.length = 4 + block.length := by
  obtain ⟨hlength, -⟩ := h
  rw [List.length_append, hlength.length_eq]

theorem Rows.length_eq {α : Type} {row : Layout α} {size : α → Nat}
    (hrow : ∀ a bytes, row a bytes → bytes.length = size a) {rows : List α} {bytes : List UInt8}
    (h : Rows row rows bytes) : bytes.length = (rows.map size).sum := by
  induction h with
  | nil => rfl
  | cons hfront _ ih =>
      rw [List.length_append, hrow _ _ hfront, ih, List.map_cons, List.sum_cons]

theorem Handler.length_eq {r : HandlerRow} {bytes : List UInt8} (h : Handler r bytes) :
    bytes.length = 8 := by
  obtain ⟨h₁, h₂, h₃, h₄⟩ := h
  simp only [List.length_append, h₁.length_eq, h₂.length_eq, h₃.length_eq, h₄.length_eq]

/-- Handlers take eight bytes each, after the two of their number. -/
theorem Listed.length_handlers {rows : List HandlerRow} {bytes : List UInt8}
    (h : Listed Handler rows bytes) : bytes.length = 2 + 8 * rows.length := by
  obtain ⟨hcount, -, hrows⟩ := h
  have hsum := hrows.length_eq (fun _ _ hrow => hrow.length_eq)
  rw [List.map_const', List.sum_replicate, smul_eq_mul] at hsum
  rw [List.length_append, hcount.length_eq, hsum, Nat.mul_comm]

theorem Nested.length_eq {a : AttributeInfo} {bytes : List UInt8} (h : Nested a bytes) :
    bytes.length = 6 + a.info.length := by
  obtain ⟨hname, hinfo⟩ := h
  rw [List.length_append, hname.length_eq, hinfo.length_eq]
  omega

end Layout

/-! ## Slices -/

/-- A stretch of some bytes. -/
structure Slice where
  start : Nat
  length : Nat

namespace Slice

/-- The place behind a slice. -/
def stop (s : Slice) : Nat := s.start + s.length

/-- The bytes of a slice. -/
def of (s : Slice) (bytes : List UInt8) : List UInt8 := (bytes.drop s.start).take s.length

/-- A place is one of a slice. -/
def Covers (s : Slice) (place : Nat) : Prop := s.start ≤ place ∧ place < s.stop

/-- Slices without a place in common. -/
def Apart (s t : Slice) : Prop := ∀ place, ¬ (s.Covers place ∧ t.Covers place)

theorem apart_of_le {s t : Slice} (h : s.stop ≤ t.start) : s.Apart t := by
  rintro place ⟨⟨-, hs⟩, ⟨ht, -⟩⟩
  omega

theorem of_append (front block rest : List UInt8) :
    (⟨front.length, block.length⟩ : Slice).of (front ++ (block ++ rest)) = block := by
  rw [of, List.drop_left, List.take_left]

end Slice

/-- Where the payloads of attributes are that are laid out one after another
from a place on, each behind its name and its length. -/
def payloadSlices : Nat → List AttributeInfo → List Slice
  | _, [] => []
  | start, a :: rest =>
    ⟨start + 6, a.info.length⟩ :: payloadSlices (start + 6 + a.info.length) rest

theorem le_start_of_mem_payloadSlices {attributes : List AttributeInfo} {start : Nat} {s : Slice}
    (h : s ∈ payloadSlices start attributes) : start ≤ s.start := by
  induction attributes generalizing start with
  | nil => exact absurd h List.not_mem_nil
  | cons a rest ih =>
      rcases List.mem_cons.1 h with rfl | h
      · exact Nat.le_add_right _ _
      · have hle := ih h
        omega

theorem pairwise_apart_payloadSlices (start : Nat) (attributes : List AttributeInfo) :
    (payloadSlices start attributes).Pairwise Slice.Apart := by
  induction attributes generalizing start with
  | nil => exact .nil
  | cons a rest ih =>
      refine .cons (fun s hs => Slice.apart_of_le ?_) (ih _)
      exact le_start_of_mem_payloadSlices hs

/-- The slices hold the payloads, whatever comes before the attributes. -/
theorem map_of_payloadSlices {attributes : List AttributeInfo} {bytes : List UInt8}
    (h : Layout.Rows Layout.Nested attributes bytes) (front : List UInt8) :
    (payloadSlices front.length attributes).map (·.of (front ++ bytes)) =
      attributes.map (·.info) := by
  induction h generalizing front with
  | nil => rfl
  | @cons a rest _ bytes hrow _ ih =>
      obtain @⟨name, _, hname, @⟨_, length, hlength, -⟩⟩ := hrow
      have hsix : (front ++ name ++ length).length = front.length + 6 := by
        rw [List.length_append, List.length_append, hname.length_eq, hlength.length_eq]
      have hnext : (front ++ name ++ length ++ a.info).length =
          front.length + 6 + a.info.length := by
        rw [List.length_append, hsix]
      have hhere := Slice.of_append (front ++ name ++ length) a.info bytes
      have hrest := ih (front ++ name ++ length ++ a.info)
      rw [hsix] at hhere
      rw [hnext] at hrest
      simp only [List.append_assoc] at hhere hrest
      rw [payloadSlices, List.map_cons, List.map_cons]
      simp only [List.append_assoc]
      rw [hhere, hrest]

theorem stop_le_of_mem_payloadSlices {attributes : List AttributeInfo} {start : Nat} {s : Slice}
    (h : s ∈ payloadSlices start attributes) :
    s.stop ≤ start + (attributes.map (fun a => 6 + a.info.length)).sum := by
  induction attributes generalizing start with
  | nil => exact absurd h List.not_mem_nil
  | cons a rest ih =>
      rw [List.map_cons, List.sum_cons]
      rcases List.mem_cons.1 h with rfl | h
      · dsimp only [Slice.stop]
        omega
      · have hle := ih h
        omega

/-! ## The bytes of a frame -/

namespace CodeFrame

/-- Where the attributes of a frame are laid out. -/
def attributesStart (f : CodeFrame) : Nat := 12 + f.code.length + 8 * f.handlers.length

/-- Where the payloads of the attributes of a frame are. -/
def slices (f : CodeFrame) : List Slice := payloadSlices f.attributesStart f.attributes

/-- A frame accounts for each byte of a payload. -/
structure Accounts (f : CodeFrame) (info : List UInt8) : Prop where
  payloads : f.slices.map (·.of info) = f.attributes.map (·.info)
  inside : ∀ s ∈ f.slices, s.stop ≤ info.length
  apart : f.slices.Pairwise Slice.Apart
  total : (f.attributes.map (·.info.length)).sum + 6 * f.attributes.length + 12 + f.code.length +
    8 * f.handlers.length = info.length

/-- The attributes of a frame are what its payload ends with. -/
theorem exists_attributes_of_layout {f : CodeFrame} {info : List UInt8} (h : Layout.Code f info) :
    ∃ front bytes, info = front ++ bytes ∧ front.length = f.attributesStart ∧
      Layout.Rows Layout.Nested f.attributes bytes := by
  obtain ⟨hstack, hlocals, hcode, hhandlers, hattributes⟩ := h
  obtain ⟨hcount, -, hrows⟩ := hattributes
  refine ⟨_, _, (List.append_assoc _ _ _).symm, ?_, hrows⟩
  simp only [List.length_append, hstack.length_eq, hlocals.length_eq, hcode.length_eq,
    hhandlers.length_handlers, hcount.length_eq, attributesStart]
  omega

theorem accounts_of_layout {f : CodeFrame} {info : List UInt8} (h : Layout.Code f info) :
    f.Accounts info := by
  obtain ⟨front, bytes, rfl, hfront, hrows⟩ := exists_attributes_of_layout h
  have hbytes := hrows.length_eq (fun _ _ hrow => hrow.length_eq)
  constructor
  case payloads =>
    rw [slices, ← hfront]
    exact map_of_payloadSlices hrows front
  case inside =>
    intro s hs
    rw [List.length_append, hfront, hbytes]
    exact stop_le_of_mem_payloadSlices hs
  case apart => exact pairwise_apart_payloadSlices _ _
  case total =>
    rw [List.sum_map_add, List.map_const', List.sum_replicate, smul_eq_mul] at hbytes
    rw [List.length_append, hfront, hbytes, attributesStart]
    omega

/-- A payload inside another one is shorter by the twelve bytes of the frame
and its own six. -/
theorem Accounts.info_length_le {f : CodeFrame} {info : List UInt8} (h : f.Accounts info)
    {a : AttributeInfo} (ha : a ∈ f.attributes) : a.info.length + 18 ≤ info.length := by
  have hle : a.info.length ≤ (f.attributes.map (·.info.length)).sum :=
    List.single_le_sum (fun _ _ => Nat.zero_le _) _ (List.mem_map_of_mem ha)
  have hcount : 0 < f.attributes.length := List.length_pos_of_mem ha
  have htotal := h.total
  omega

end CodeFrame

end MethodArea.Attribute
