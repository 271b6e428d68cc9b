import Mathlib.Algebra.Ring.Int.Defs
import Stencil.Proofs.Types.Compatible

/-!
# Data that a template is rendered with

This file defines:

* `Value`       : a piece of the render input;
* `Outcome`     : what looking at data gives, which may be a fault;
* `Setting`     : what a text depends on besides the data;
* `Shape.Holds` : the values of a type.

A value that has the type of a node has the types of the nodes inside it at its own places
(`holds_iff`), and types that differ in the order of members only have the same values
(`holds_of_same`).
-/

namespace Stencil
namespace Meaning

/-- Text as it is stored: its bytes. -/
abbrev Bytes := List UInt8

/-- A piece of the render input. -/
inductive Value where
  | text (bytes : Bytes)
  | number (n : Int)
  | flag (b : Bool)
  | array (items : List Value)
  | record (fields : List (String × Value))

/-- Why there is no result. -/
inductive Fault where
  /-- A numbered element that the array does not have. -/
  | outOfRange
  /-- Data that is missing or of another kind than what is done with it. -/
  | stuck
  deriving DecidableEq, Repr

/-- A result, or the reason why there is none. -/
abbrev Outcome (α : Type) := Except Fault α

/-- The texts of shared constants, and how numbers are written. -/
structure Setting where
  constants : String → Bytes
  format : (signed : Bool) → Int → (decimals : Nat) → Bytes

/-- The number that a text of digits stands for. -/
def decimal? (text : String) : Option Nat :=
  if !text.isEmpty && text.toList.all Char.isDigit then
    some (text.toList.foldl (fun n c => 10 * n + (c.toNat - '0'.toNat)) 0)
  else none

namespace Value

def items : Value → List Value
  | .array items => items
  | _ => []

def fields : Value → List (String × Value)
  | .record fields => fields
  | _ => []

def asText : Value → Outcome Bytes
  | .text bytes => .ok bytes
  | _ => .error .stuck

def asNumber : Value → Outcome Int
  | .number n => .ok n
  | _ => .error .stuck

def asFlag : Value → Outcome Bool
  | .flag b => .ok b
  | _ => .error .stuck

def asArray : Value → Outcome (List Value)
  | .array items => .ok items
  | _ => .error .stuck

/-- The field of a name. -/
def member (name : String) (v : Value) : Outcome Value :=
  match v.fields.lookup name with
  | some w => .ok w
  | none => .error .stuck

/-- The element of a number. -/
def item (k : Nat) : Value → Outcome Value
  | .array items =>
    match items[k]? with
    | some w => .ok w
    | none => .error .outOfRange
  | _ => .error .stuck

end Value
end Meaning

/-! ## Values of a type -/

namespace Types

open Meaning (Value)

/-- The values of a kind; a length is a number of bytes, bits or elements. -/
def Label.Holds : Label → Value → Prop
  | ⟨none, _⟩, _ => True
  | ⟨some .string, length⟩, .text bytes => ∀ n, length = some n → bytes.length = n
  | ⟨some .uint, length⟩, .number k => 0 ≤ k ∧ k < 2 ^ length.getD 256
  | ⟨some .int, length⟩, .number k =>
    -(2 ^ (length.getD 256 - 1)) ≤ k ∧ k < 2 ^ (length.getD 256 - 1)
  | ⟨some .bool, _⟩, .flag _ => True
  | ⟨some .array, length⟩, .array items => ∀ n, length = some n → items.length = n
  | ⟨some .struct, _⟩, .record _ => True
  | _, _ => False

namespace Shape

mutual

/-- The values of a type. -/
def Holds : Shape → Value → Prop
  | .array length element, v =>
    Label.Holds ⟨some .array, length⟩ v ∧ ∀ x ∈ v.items, element.Holds x
  | .struct members, v => Label.Holds ⟨some .struct, none⟩ v ∧ MembersHold members v.fields
  | .unknown, _ => True
  | .string length, v => Label.Holds ⟨some .string, length⟩ v
  | .uint length, v => Label.Holds ⟨some .uint, length⟩ v
  | .int length, v => Label.Holds ⟨some .int, length⟩ v
  | .bool, v => Label.Holds ⟨some .bool, none⟩ v

/-- A field for each member, of its type. -/
def MembersHold : List (String × Shape) → List (String × Value) → Prop
  | [], _ => True
  | (name, member) :: rest, fields =>
    (∃ w, fields.lookup name = some w ∧ member.Holds w) ∧ MembersHold rest fields

end

theorem membersHold_iff {members : List (String × Shape)} {fields : List (String × Value)} :
    MembersHold members fields ↔
      ∀ m ∈ members, ∃ w, fields.lookup m.1 = some w ∧ m.2.Holds w := by
  induction members with
  | nil => simp [MembersHold]
  | cons m members ih =>
    rw [MembersHold, ih]
    simp

end Shape

namespace Store

variable {s : Store}

/-- The values of a node's type, one level at a time. -/
theorem holds_iff (hs : s.Forest) (id : Nat) (v : Value) :
    (s.shape id).Holds v ↔ (s.get id).label.Holds v ∧
      (∀ c, (s.get id).child? .element = some c → ∀ x ∈ v.items, (s.shape c).Holds x) ∧
      ∀ name c, (s.get id).child? (.member name) = some c →
        ∃ w, v.fields.lookup name = some w ∧ (s.shape c).Holds w := by
  rw [shape_eq hs]
  cases hn : s.get id with
  | array length element =>
    simp only [Shape.Holds, Node.label, Node.kind?, Node.length?]
    constructor
    · rintro ⟨hlabel, hitems⟩
      refine ⟨hlabel, ?_, ?_⟩
      · rintro c ⟨⟩
        exact hitems
      · rintro name c ⟨⟩
    · rintro ⟨hlabel, hitems, _⟩
      exact ⟨hlabel, hitems element rfl⟩
  | struct members =>
    simp only [Shape.Holds, Node.label, Node.kind?, Node.length?]
    rw [Shape.membersHold_iff]
    constructor
    · rintro ⟨hlabel, hmembers⟩
      refine ⟨hlabel, ?_, ?_⟩
      · rintro c ⟨⟩
      · intro name c hc
        have hmem : (name, s.shape c) ∈ members.map fun m => (m.1, s.shape m.2) :=
          List.mem_map.2 ⟨(name, c), Lookup.mem_of_lookup hc, rfl⟩
        exact hmembers _ hmem
    · rintro ⟨hlabel, _, hmembers⟩
      refine ⟨hlabel, ?_⟩
      intro m hm
      rcases List.mem_map.1 hm with ⟨m', hm', rfl⟩
      exact hmembers m'.1 m'.2 (Lookup.lookup_of_mem (hs.names_nodup hn) hm')
  | _ => simp [Shape.Holds, Node.label, Node.kind?, Node.length?, Node.child?, Label.Holds]

/-- Nodes of the same type have the same values. -/
theorem holds_of_same (hs : s.Forest) {a b : Nat} (h : (s.shape a).Same (s.shape b)) {v : Value}
    (hv : (s.shape a).Holds v) : (s.shape b).Holds v := by
  induction b using hs.inside_out generalizing a v with
  | inside b ih =>
    have hinside : ∀ {σ : Step} {d : Nat}, (s.get b).child? σ = some d →
        ∃ c, (s.get a).child? σ = some c ∧
          ∀ w, (s.shape c).Holds w → (s.shape d).Holds w := by
      intro σ d hd
      rcases child?_of_same hs.acyclic h.symm hd with ⟨c, hc, hsame⟩
      refine ⟨c, hc, ?_⟩
      intro w hw
      exact ih hd hsame.symm hw
    rcases (holds_iff hs a v).1 hv with ⟨hlabel, hitems, hfields⟩
    refine (holds_iff hs b v).2 ⟨?_, ?_, ?_⟩
    · rw [← label_of_same hs.acyclic h]
      exact hlabel
    · intro d hd x hx
      rcases hinside hd with ⟨c, hc, himp⟩
      exact himp x (hitems c hc x hx)
    · intro name d hd
      rcases hinside hd with ⟨c, hc, himp⟩
      rcases hfields name c hc with ⟨w, hw, hwc⟩
      exact ⟨w, hw, himp w hwc⟩

end Store
end Types
end Stencil
