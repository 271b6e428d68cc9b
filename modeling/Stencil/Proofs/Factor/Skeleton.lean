import Mathlib.Data.List.Perm.Basic
import Stencil.Proofs.Factor.Faithful

/-!
# The tags of a program

A program without its text, comments and constants: what is left are the tags. How the text of a
template is shared does not change its tags, so that any two shared forms of a template have the
same ones.

* `skeleton`            : the tags of a program, in their blocks;
* `SameSkeletons`       : two templates with the same tags, in them and in their partials;
* `Faithful.skeletons`  : templates that stand for the same sources.
-/

namespace Stencil
namespace Factor

open Template (Expr Hash PathExpr Program Span Statement)

/-- A tag, and nothing for all else. -/
def tagLeaf : Statement → Program
  | .content _ _ | .comment _ _ | .constant _ _ => []
  | s => [s]

/-- The tags of a program. -/
def skeleton (program : Program) : Program := replace tagLeaf program

theorem skeleton_append (P Q : Program) : skeleton (P ++ Q) = skeleton P ++ skeleton Q :=
  replace_append P Q

/-! ## Replacing twice -/

section

variable {f g : Statement → Program}

mutual

theorem replace_replaceStatement (h : ∀ s, isLeaf s = true → replace f (g s) = f s) :
    (s : Statement) → replace f (replaceStatement g s) = replaceStatement f s
  | .block head params hash binders body none span => by
    simp [replace_replace h body]
  | .block head params hash binders body (some otherwise) span => by
    simp [replace_replace h body, replace_replace h otherwise]
  | .inclusion name params hash span => by simp
  | .content value span => by
    rw [replaceStatement_leaf rfl, replaceStatement_leaf rfl]
    exact h _ rfl
  | .comment value span => by
    rw [replaceStatement_leaf rfl, replaceStatement_leaf rfl]
    exact h _ rfl
  | .constant name span => by
    rw [replaceStatement_leaf rfl, replaceStatement_leaf rfl]
    exact h _ rfl
  | .interpolation head params hash escaped span => by
    rw [replaceStatement_leaf rfl, replaceStatement_leaf rfl]
    exact h _ rfl

/-- A replacement that the next one does not see. -/
theorem replace_replace (h : ∀ s, isLeaf s = true → replace f (g s) = f s) :
    (P : Program) → replace f (replace g P) = replace f P
  | [] => by simp
  | s :: rest => by
    rw [replace_cons, replace_append, replace_replaceStatement h s, replace_replace h rest,
      replace_cons]

end

end

/-- Constants and their text are no tags. -/
theorem skeleton_restore (constants : List (String × String)) (P : Program) :
    skeleton (restore constants P) = skeleton P := by
  refine replace_replace ?_ P
  intro s hs
  have hleaf : replace tagLeaf [s] = tagLeaf s := replace_leaf hs
  unfold restoreLeaf
  split
  · split
    · exact replace_leaf rfl
    · exact hleaf
  · exact hleaf

/-! ## Joining text -/

theorem skeleton_fuseOnto (s : Statement) (rest : Program) :
    skeleton (fuseOnto s rest) = skeleton (s :: rest) := by
  have htext : ∀ value span others, skeleton (.content value span :: others) = skeleton others := by
    intro value span others
    unfold skeleton
    rw [replace_cons, replaceStatement_leaf rfl]
    rfl
  unfold fuseOnto
  split
  · rw [htext]
    split
    · rfl
    · split
      · rw [htext, htext]
      · rw [htext]
  · rfl

mutual

theorem skeleton_fuseInside : (s : Statement) → skeleton [fuseInside s] = skeleton [s]
  | .block head params hash binders body none span => by
    have hbody := skeleton_fuse body
    unfold skeleton at hbody ⊢
    simp [hbody]
  | .block head params hash binders body (some otherwise) span => by
    have hbody := skeleton_fuse body
    have hotherwise := skeleton_fuse otherwise
    unfold skeleton at hbody hotherwise ⊢
    simp [hbody, hotherwise]
  | .content .. | .comment .. | .constant .. | .interpolation .. => by rw [fuseInside_leaf rfl]
  | .inclusion .. => rfl

/-- Joining text keeps the tags. -/
theorem skeleton_fuse : (P : Program) → skeleton (fuse P) = skeleton P
  | [] => by rw [fuse_nil]
  | s :: rest => by
    have hcons : ∀ t others, skeleton (t :: others) = skeleton [t] ++ skeleton others :=
      fun t others => skeleton_append [t] others
    rw [fuse_cons, skeleton_fuseOnto, hcons, skeleton_fuseInside s, skeleton_fuse rest, ← hcons]

end

theorem skeleton_eq_of_fuse {constants : List (String × String)} {P Q : Program}
    (h : fuse (restore constants P) = fuse Q) : skeleton P = skeleton Q := by
  rw [← skeleton_restore constants P, ← skeleton_fuse, h, skeleton_fuse]

/-! ## Shared templates -/

/-- Partials with the same tags. -/
structure SameSkeletons (programs others : List (String × Program)) : Prop where
  length_eq : programs.length = others.length
  lookup_eq : ∀ name, (programs.lookup name).map skeleton = (others.lookup name).map skeleton

variable {bodies : String → Option Program} {program : Program} {shared other : SharedTemplate}

/-- The partials of a shared template have the tags of their sources. -/
theorem Faithful.lookup_skeleton (h : Faithful bodies program shared) {name : String}
    (hname : Reachable bodies program name) :
    (shared.partials.lookup name).map skeleton = (bodies name).map skeleton := by
  obtain ⟨body, hbody⟩ := Lookup.exists_lookup_of_mem ((h.mem_keys_iff name).2 hname)
  obtain ⟨source, hsource, hfuse⟩ := h.partials_eq _ (Lookup.mem_of_lookup hbody)
  rw [hbody, hsource, Option.map_some, Option.map_some, skeleton_eq_of_fuse hfuse]

theorem Faithful.lookup_eq_none (h : Faithful bodies program shared) {name : String}
    (hname : ¬ Reachable bodies program name) : shared.partials.lookup name = none := by
  rw [← Option.not_isSome_iff_eq_none, Lookup.lookup_isSome, h.mem_keys_iff]
  exact hname

/-- Two templates that stand for the same sources have the same tags. -/
theorem Faithful.skeletons (h : Faithful bodies program shared)
    (h' : Faithful bodies program other) :
    skeleton shared.program = skeleton other.program ∧
      SameSkeletons shared.partials other.partials := by
  refine ⟨?_, ?_, ?_⟩
  · rw [skeleton_eq_of_fuse h.program_eq, skeleton_eq_of_fuse h'.program_eq]
  · -- both have the partials that are reached, each once
    have hperm : (shared.partials.map (·.1)).Perm (other.partials.map (·.1)) := by
      rw [List.perm_ext_iff_of_nodup h.nodup_keys h'.nodup_keys]
      intro name
      rw [h.mem_keys_iff, h'.mem_keys_iff]
    simpa using hperm.length_eq
  · intro name
    by_cases hname : Reachable bodies program name
    · rw [h.lookup_skeleton hname, h'.lookup_skeleton hname]
    · rw [h.lookup_eq_none hname, h'.lookup_eq_none hname]

end Factor
end Stencil
