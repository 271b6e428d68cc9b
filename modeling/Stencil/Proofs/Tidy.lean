import Stencil.Proofs.Counter

/-!
# Tidy names

A tidy name has no characters but those that identifiers have. Identifiers and numbers are tidy,
and so are all names that are made from tidy ones: the names of structs (`Tidy.capitalize`,
`Tidy.singularize`) and those that are found in place of taken ones (`Tidy.freshName`).
-/

namespace Stencil
namespace Name

/-- A name of characters that identifiers have. It may be empty, or start with a digit. -/
def Tidy (name : String) : Prop := ∀ c ∈ name.toList, isIdentifierRest c = true

instance (name : String) : Decidable (Tidy name) :=
  List.decidableBAll _ _

theorem isIdentifierRest_of_isDigit {c : Char} (h : c.isDigit = true) :
    isIdentifierRest c = true := by
  simp [isIdentifierRest, Char.isAlphanum, h]

theorem isIdentifierRest_of_start {c : Char} (h : isIdentifierStart c = true) :
    isIdentifierRest c = true := by
  unfold isIdentifierStart at h
  unfold isIdentifierRest Char.isAlphanum
  grind

variable {name other : String}

theorem Tidy.of_isDigit (h : ∀ c ∈ name.toList, c.isDigit = true) : Tidy name :=
  fun c hc => isIdentifierRest_of_isDigit (h c hc)

theorem Tidy.of_isIdentifier (h : isIdentifier name = true) : Tidy name := by
  unfold isIdentifier at h
  intro c hc
  split at h
  · next hname =>
    rw [hname] at hc
    cases hc
  · next first rest hname =>
    rw [Bool.and_eq_true, List.all_eq_true] at h
    rw [hname] at hc
    obtain rfl | hc := List.mem_cons.1 hc
    · exact isIdentifierRest_of_start h.1
    · exact h.2 c hc

theorem Tidy.repr (n : Nat) : Tidy (Nat.repr n) := .of_isDigit (isDigit_repr n)

theorem Tidy.append (h : Tidy name) (h' : Tidy other) : Tidy (name ++ other) := by
  intro c hc
  rw [String.toList_append] at hc
  exact (List.mem_append.1 hc).elim (h c) (h' c)

theorem Tidy.singularize (h : Tidy name) : Tidy (singularize name) := by
  unfold Name.singularize
  split
  · intro c hc
    rw [String.toList_ofList] at hc
    exact h c (List.dropLast_subset _ hc)
  · exact h

theorem toNat_lt_of_isIdentifierRest {c : Char} (h : isIdentifierRest c = true) :
    c.toNat < 128 := by
  unfold isIdentifierRest at h
  rw [Bool.or_eq_true, Bool.or_eq_true, beq_iff_eq, beq_iff_eq] at h
  obtain (h | rfl) | rfl := h
  · obtain h | hdigit := (Bool.or_eq_true _ _).mp h
    · obtain hupper | hlower := (Bool.or_eq_true _ _).mp h
      · have hle : c.toNat ≤ 90 := (of_decide_eq_true hupper).2
        omega
      · have hle : c.toNat ≤ 122 := of_decide_eq_true ((Bool.and_eq_true _ _).mp hlower).2
        omega
    · exact toNat_lt_of_isDigit hdigit
  · decide
  · decide

/-- The characters of identifiers are in ASCII, where upper case is one of them again. -/
theorem isIdentifierRest_uppercase {c : Char} (h : isIdentifierRest c = true) :
    ∀ d ∈ Text.uppercase c, isIdentifierRest d = true := by
  -- ASCII is small enough to be looked through
  have hall : ∀ n : Fin 128, isIdentifierRest (Char.ofNat n) = true →
      (Text.uppercase (Char.ofNat n)).all isIdentifierRest = true := by
    decide +kernel
  have hc := hall ⟨c.toNat, toNat_lt_of_isIdentifierRest h⟩
  rw [Char.ofNat_toNat] at hc
  exact List.all_eq_true.1 (hc h)

theorem Tidy.capitalize (h : Tidy name) : Tidy (capitalize name) := by
  unfold Name.capitalize
  split
  · exact (by decide : Tidy "")
  · next first rest hname =>
    have hchars : ∀ c ∈ first :: rest, isIdentifierRest c = true := hname ▸ h
    intro c hc
    rw [String.toList_ofList] at hc
    obtain hc | hc := List.mem_append.1 hc
    · exact isIdentifierRest_uppercase (hchars first List.mem_cons_self) c hc
    · exact hchars c (List.mem_cons_of_mem _ hc)

theorem Tidy.incrementName (h : Tidy name) : Tidy (incrementName name) := by
  unfold Name.incrementName
  split
  · exact h.append (by decide)
  · next base digits hsplit =>
    refine Tidy.append ?_ (.repr _)
    intro c hc
    rw [String.toList_ofList] at hc
    unfold splitCounter at hsplit
    split at hsplit
    · cases hsplit
    · next first rest hname =>
      split at hsplit
      · cases hsplit
        refine h c ?_
        rw [hname]
        obtain rfl | hc := List.mem_cons.1 hc
        · exact List.mem_cons_self
        · exact List.mem_cons_of_mem _ (List.mem_of_mem_take hc)
      · cases hsplit

/-- The name that a search finds comes from the one that it begins with. -/
theorem Tidy.freshName (h : Tidy name) {taken : List String} {fresh : String}
    (hfresh : freshName taken name = some fresh) : Tidy fresh := by
  obtain ⟨k, hsearch⟩ := freshName_eq_some hfresh
  clear hfresh
  induction hsearch with
  | stop => exact h
  | next _ _ ih => exact ih h.incrementName

end Name
end Stencil
