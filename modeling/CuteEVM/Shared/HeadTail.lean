import Mathlib.Algebra.GroupWithZero.Nat
import Mathlib.Data.List.Basic

set_option autoImplicit false

-- A sequence of components is written as a block of heads and a block of tails.

namespace HeadTail

structure Part where
  dynamic : Bool
  bytes : List UInt8

section Layout

variable (word : Nat → List UInt8)

def heads : Nat → List Part → List UInt8
  | _, [] => []
  | offset, part :: parts =>
    if part.dynamic then word offset ++ heads (offset + part.bytes.length) parts else part.bytes ++ heads offset parts

def tails : List Part → List UInt8
  | [] => []
  | part :: parts => if part.dynamic then part.bytes ++ tails parts else tails parts

def Part.headSize (part : Part) : Nat := if part.dynamic then (word 0).length else part.bytes.length

def headSizes (parts : List Part) : Nat := (parts.map (Part.headSize word)).sum

def Held (output : List UInt8) (index : Nat) (part : Part) : Prop :=
  if part.dynamic then
    ∃ offset rest rest', offset ≤ output.length ∧ output.drop index = word offset ++ rest ∧ output.drop offset = part.bytes ++
      rest'
  else ∃ rest, output.drop index = part.bytes ++ rest

def Placed (output : List UInt8) (index offset : Nat) (parts : List Part) : Prop :=
  ∃ before between after, output = before ++ (heads word offset parts ++ (between ++ (tails parts ++ after))) ∧
    before.length = index ∧ before.length + (heads word offset parts).length + between.length = offset

end Layout

section Placement

variable {word : Nat → List UInt8} {output : List UInt8} {index offset : Nat} {part : Part} {parts : List Part}

theorem heads_length (even : ∀ n, (word n).length = (word 0).length) (offset : Nat) (parts : List Part) :
    (heads word offset parts).length = headSizes word parts := by
  induction parts generalizing offset with
  | nil => rfl
  | cons part parts ih =>
    unfold headSizes at ih ⊢
    rw [heads, List.map_cons, List.sum_cons, Part.headSize]
    split
    · rw [List.length_append, ih, even]
    · rw [List.length_append, ih]

theorem tails_static (static : ∀ part ∈ parts, part.dynamic = false) : tails parts = [] := by
  induction parts with
  | nil => rfl
  | cons part parts ih =>
    rw [List.forall_mem_cons] at static
    rw [tails, static.1, if_neg Bool.false_ne_true, ih static.2]

theorem heads_static (static : ∀ part ∈ parts, part.dynamic = false) (offset offset' : Nat) :
    heads word offset parts = heads word offset' parts := by
  induction parts with
  | nil => rfl
  | cons part parts ih =>
    rw [List.forall_mem_cons] at static
    rw [heads, heads, static.1, if_neg Bool.false_ne_true, if_neg Bool.false_ne_true, ih static.2]

theorem placed_layout (even : ∀ n, (word n).length = (word 0).length) (parts : List Part) (after : List UInt8) :
    Placed word (heads word (headSizes word parts) parts ++ (tails parts ++ after)) 0 (headSizes word parts) parts := by
  refine ⟨[], [], after, rfl, rfl, ?_⟩
  rw [heads_length even]
  simp

theorem drop_middle {α : Type} {n : Nat} (first second : List α) (length : first.length = n) :
    (first ++ second).drop n = second := by
  rw [← length]
  exact List.drop_left

theorem Placed.cons (even : ∀ n, (word n).length = (word 0).length) (placed : Placed word output index offset (part :: parts)) :
    Held word output index part ∧ ∃ offset', Placed word output (index + part.headSize word) offset' parts := by
  obtain ⟨before, between, after, rfl, rfl, place⟩ := placed
  unfold Held Part.headSize
  rw [heads] at place ⊢
  rw [tails]
  split
  · next dynamic =>
    rw [if_pos dynamic] at place
    rw [List.length_append] at place
    -- The tail of this component separates the other heads from the other tails.
    refine ⟨⟨offset, heads word (offset + part.bytes.length) parts ++ (between ++ (part.bytes ++ tails parts ++ after)),
      tails parts ++ after,
      ?_, ?_, ?_⟩, offset + part.bytes.length, before ++ word offset, between ++ part.bytes, after, ?_, ?_, ?_⟩
    · simp only [List.length_append]
      omega
    · rw [drop_middle _ _ rfl, List.append_assoc]
    · rw [show ∀ a b c d e f : List UInt8, a ++ (b ++ c ++ (d ++ (e ++ f ++ after))) = (a ++ (b ++ c ++ d)) ++
        (e ++ (f ++ after)) by simp]
      exact drop_middle _ _ (by simp only [List.length_append]; omega)
    · simp
    · rw [List.length_append, even]
    · simp only [List.length_append]
      omega
  · next static =>
    rw [if_neg static] at place
    rw [List.length_append] at place
    refine ⟨⟨heads word offset parts ++ (between ++ (tails parts ++ after)), ?_⟩, offset, before ++ part.bytes, between, after,
      ?_, ?_, ?_⟩
    · rw [drop_middle _ _ rfl, List.append_assoc]
    · simp
    · rw [List.length_append]
    · rw [List.length_append]
      omega

end Placement

end HeadTail
