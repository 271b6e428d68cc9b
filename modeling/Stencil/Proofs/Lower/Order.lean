import Stencil.Proofs.Lower.TypingComplete
import Stencil.Proofs.Lower.TypingSound
import Stencil.Proofs.Types.Reordered

/-!
# The order of statements

Lowering goes through the statements of a template in order, and each of them acts on what those
before it have found out: which call of a partial is the first one, at which node its body is
lowered, what is left for the rounds in the end. A typing does not speak of any order. As lowering
finds a typing wherever there is one, and the least type of the input, the order of statements makes
no difference (`lower_perm`), other than to the order of members (`Shape.Reordered`).
-/

namespace Stencil

namespace Lower

open Template (Program)
open Stencil.Types (Shape Store)

/-- Whether a template can be lowered, and the type of its input up to the order of members, do not
depend on the order of its statements. -/
theorem lower_perm {programs : List (String × Program)} {P Q : Program} (h : P.Perm Q) :
    ((∃ l, lower programs P = .ok l) ↔ ∃ l, lower programs Q = .ok l) ∧
      ∀ l l', lower programs P = .ok l → lower programs Q = .ok l' →
        (l.store.shape l.root).Reordered (l'.store.shape l'.root) := by
  -- what is lowered in one order is lowered in the other one, with no more in the type of its input
  have hone : ∀ {P Q : Program}, P.Perm Q → ∀ {l : Lowered}, lower programs P = .ok l →
      ∃ l', lower programs Q = .ok l' ∧ (l'.store.shape 0).Le (l.store.shape 0) := by
    intro P Q hperm l hl
    exact lower_of_typing ((lower_typing hl).perm hperm)
  refine ⟨⟨?_, ?_⟩, ?_⟩
  · rintro ⟨l, hl⟩
    obtain ⟨l', hl', _⟩ := hone h hl
    exact ⟨l', hl'⟩
  · rintro ⟨l', hl'⟩
    obtain ⟨l, hl, _⟩ := hone h.symm hl'
    exact ⟨l, hl⟩
  · intro l l' hl hl'
    obtain ⟨st, hst, hstore, _, _, _, hroot⟩ := lower_valid hl
    obtain ⟨st', hst', hstore', _, _, _, hroot'⟩ := lower_valid hl'
    have hsame : (l.store.shape 0).Same (l'.store.shape 0) := by
      obtain ⟨k, hk, hle⟩ := hone h.symm hl'
      rw [hl] at hk
      cases hk
      obtain ⟨k, hk, hge⟩ := hone h hl
      rw [hl'] at hk
      cases hk
      exact ⟨hle, hge⟩
    rw [hroot, hroot']
    rw [← hstore, ← hstore'] at hsame ⊢
    exact (hst.forest.acyclic.same_iff_reordered hst'.forest.acyclic).1 hsame

/-- Two calls of a partial, and a member of the second context that the partial does not use. -/
def annotated : Program :=
  [.inclusion "note" [.path { written := "a", parts := ["a"] }] [] {},
    .inclusion "note" [.path { written := "b", parts := ["b"] }] [] {},
    .interpolation (.path { written := "b.y", parts := ["b", "y"] }) [] [] true {}]

/-- The partial. -/
def notePartials : List (String × Program) :=
  [("note", [.interpolation (.path { written := "x", parts := ["x"] }) [] [] true {}])]

/-- Backwards, another call is the first one, and members come in another order. -/
theorem lower_perm_annotated : ∃ l l', lower notePartials annotated = .ok l ∧
    lower notePartials annotated.reverse = .ok l' ∧
    l.store.get l.root = .struct [("a", 1), ("b", 3)] ∧
    l'.store.get l'.root = .struct [("b", 1), ("a", 4)] ∧
    (l.store.shape l.root).Reordered (l'.store.shape l'.root) := by
  have hrun : endsWith (lowerProgram notePartials 0 annotated State.initial)
      (fun st => settlesWith 2 st fun st' =>
        st'.store.get 0 == .struct [("a", 1), ("b", 3)]) = true := by
    decide +kernel
  have hrun' : endsWith (lowerProgram notePartials 0 annotated.reverse State.initial)
      (fun st => settlesWith 1 st fun st' =>
        st'.store.get 0 == .struct [("b", 1), ("a", 4)]) = true := by
    decide +kernel
  obtain ⟨l, st, hl, _, hstore, hroot, hget⟩ := exists_lower_of_endsWith hrun
  obtain ⟨l', st', hl', _, hstore', hroot', hget'⟩ := exists_lower_of_endsWith hrun'
  refine ⟨l, l', hl, hl', ?_, ?_, ?_⟩
  · rw [hstore, hroot]
    exact beq_iff_eq.1 hget
  · rw [hstore', hroot']
    exact beq_iff_eq.1 hget'
  · exact (lower_perm annotated.reverse_perm.symm).2 l l' hl hl'

end Lower
end Stencil
