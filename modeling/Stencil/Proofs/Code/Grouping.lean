import Mathlib.Data.List.Basic
import Mathlib.Tactic.Common
import Stencil.Code.Append

/-!
# Groups of appends

Adjacent appends are joined one after the other, as long as they fit into one call. This file
defines what such a grouping is:

* `Block`   : a complete statement, or adjacent appends that share one;
* `Divides` : blocks that make up a list of outputs, each of which fits into a call.

Joining gives such blocks (`exists_blocks`), and no others have fewer groups (`appendCount_le`): an
open append that holds more makes at most one group more of what follows (`appendCount_mergeAfter`).
A run of single items fills all groups but the last (`closeAppends_run`). What outputs say is not
changed by joining them (`mergeAppends_keeps`).
-/

namespace Stencil
namespace Code

variable {σ φ : Type}

/-! ## Blocks -/

/-- A complete statement, or adjacent appends that share one. -/
inductive Block (σ φ : Type) where
  | statement (s : σ)
  | group (appends : List (List φ))

namespace Block

/-- The outputs that a block is made of. -/
def outputs : Block σ φ → List (Output σ φ)
  | .statement s => [.statement s]
  | .group appends => appends.map .append

/-- The output that a block becomes. -/
def joined : Block σ φ → Output σ φ
  | .statement s => .statement s
  | .group appends => .append appends.flatten

/-- A group is one append, or its items fit into one call together. -/
def Fits : Block σ φ → Prop
  | .statement _ => True
  | .group appends =>
    appends.length = 1 ∨ (appends ≠ [] ∧ appends.flatten.length ≤ maxAppendArity)

def isGroup : Block σ φ → Bool
  | .statement _ => false
  | .group _ => true

end Block

/-- The number of groups. -/
def groupCount (blocks : List (Block σ φ)) : Nat := blocks.countP Block.isGroup

/-- Outputs in order, divided into blocks that fit. -/
structure Divides (outputs : List (Output σ φ)) (blocks : List (Block σ φ)) : Prop where
  covers : blocks.flatMap Block.outputs = outputs
  fits : ∀ b ∈ blocks, b.Fits

theorem Divides.nil : Divides ([] : List (Output σ φ)) [] := ⟨rfl, by simp⟩

theorem Divides.cons {b : Block σ φ} {outputs : List (Output σ φ)} {blocks : List (Block σ φ)}
    (hb : b.Fits) (h : Divides outputs blocks) : Divides (b.outputs ++ outputs) (b :: blocks) := by
  refine ⟨?_, List.forall_mem_cons.2 ⟨hb, h.fits⟩⟩
  rw [List.flatMap_cons, h.covers]

/-- Joining appends gives blocks that fit, also behind a group that is still open. -/
theorem exists_blocks_both (outputs : List (Output σ φ)) :
    (∃ blocks, Divides outputs blocks ∧ mergeAppends outputs = blocks.map Block.joined) ∧
      ∀ appends : List (List φ), (Block.group appends : Block σ φ).Fits →
        ∃ blocks, Divides (appends.map .append ++ outputs) blocks ∧
          mergeAfter appends.flatten outputs = blocks.map Block.joined := by
  induction outputs with
  | nil =>
    refine ⟨⟨[], .nil, rfl⟩, ?_⟩
    intro appends hfits
    exact ⟨[.group appends], Divides.nil.cons hfits, rfl⟩
  | cons output rest ih =>
    obtain ⟨⟨blocks, hblocks, hmerged⟩, hafter⟩ := ih
    cases output with
    | statement s =>
      have hrest : Divides (.statement s :: rest) (.statement s :: blocks) :=
        hblocks.cons (b := .statement s) trivial
      refine ⟨⟨_, hrest, by rw [mergeAppends, hmerged]; rfl⟩, ?_⟩
      intro appends hfits
      exact ⟨_, hrest.cons hfits, by rw [mergeAfter, hmerged]; rfl⟩
    | append items =>
      obtain ⟨blocks', hblocks', hmerged'⟩ := hafter [items] (.inl rfl)
      rw [List.flatten_singleton] at hmerged'
      refine ⟨⟨blocks', hblocks', hmerged'⟩, ?_⟩
      intro appends hfits
      rw [mergeAfter]
      split
      · -- the group goes on
        next hle =>
        have hgroup : (Block.group (appends ++ [items]) : Block σ φ).Fits := by
          refine .inr ⟨by simp, ?_⟩
          rw [List.flatten_append, List.flatten_singleton, List.length_append]
          exact hle
        obtain ⟨blocks'', hblocks'', hmerged''⟩ := hafter (appends ++ [items]) hgroup
        rw [List.flatten_append, List.flatten_singleton] at hmerged''
        refine ⟨blocks'', ?_, hmerged''⟩
        rw [List.map_append, List.append_assoc] at hblocks''
        exact hblocks''
      · exact ⟨_, hblocks'.cons hfits, by rw [hmerged']; rfl⟩

theorem exists_blocks (outputs : List (Output σ φ)) :
    ∃ blocks, Divides outputs blocks ∧ mergeAppends outputs = blocks.map Block.joined :=
  (exists_blocks_both outputs).1

/-! ## What joining keeps -/

/-- Joining keeps what takes outputs one by one and does not tell one append from two. -/
theorem mergeAppends_keeps {β : Type} (f : List (Output σ φ) → β)
    (hcons : ∀ output {xs ys}, f xs = f ys → f (output :: xs) = f (output :: ys))
    (happend : ∀ items items' rest,
      f (.append (items ++ items') :: rest) = f (.append items :: .append items' :: rest))
    (outputs : List (Output σ φ)) : f (mergeAppends outputs) = f outputs := by
  suffices h : f (mergeAppends outputs) = f outputs ∧
      ∀ open_, f (mergeAfter open_ outputs) = f (.append open_ :: outputs) from h.1
  induction outputs with
  | nil => exact ⟨rfl, fun _ => rfl⟩
  | cons output rest ih =>
    obtain ⟨hmerged, hafter⟩ := ih
    cases output with
    | statement s =>
      have hstatement : f (mergeAppends (.statement s :: rest)) = f (.statement s :: rest) :=
        hcons (.statement s) hmerged
      exact ⟨hstatement, fun open_ => hcons (.append open_) hstatement⟩
    | append items =>
      refine ⟨hafter items, fun open_ => ?_⟩
      rw [mergeAfter]
      split
      · rw [hafter (open_ ++ items), happend]
      · exact hcons (.append open_) (hafter items)

/-! ## Few groups -/

def Output.isAppend : Output σ φ → Bool
  | .statement _ => false
  | .append _ => true

/-- The number of appends among outputs. -/
def appendCount (outputs : List (Output σ φ)) : Nat := outputs.countP Output.isAppend

@[simp] theorem appendCount_nil : appendCount ([] : List (Output σ φ)) = 0 := rfl

@[simp] theorem appendCount_statement (s : σ) (outputs : List (Output σ φ)) :
    appendCount (.statement s :: outputs) = appendCount outputs :=
  List.countP_cons_of_neg (by simp [Output.isAppend])

@[simp] theorem appendCount_append (items : List φ) (outputs : List (Output σ φ)) :
    appendCount (.append items :: outputs) = appendCount outputs + 1 :=
  List.countP_cons_of_pos rfl

theorem appendCount_joined (blocks : List (Block σ φ)) :
    appendCount (blocks.map Block.joined) = groupCount blocks := by
  unfold appendCount groupCount
  rw [List.countP_map]
  congr 1
  funext b
  cases b <;> rfl

/-- An open append that holds more makes no fewer groups, and at most one more. -/
theorem appendCount_mergeAfter (rest : List (Output σ φ)) :
    (∀ few many : List φ, few.length ≤ many.length →
      appendCount (mergeAfter few rest) ≤ appendCount (mergeAfter many rest)) ∧
    ∀ open_ others : List φ,
      appendCount (mergeAfter open_ rest) ≤ appendCount (mergeAfter others rest) + 1 := by
  induction rest with
  | nil => simp [mergeAfter]
  | cons output rest ih =>
    obtain ⟨hmono, hclose⟩ := ih
    cases output with
    | statement s => simp [mergeAfter]
    | append items =>
      refine ⟨?_, ?_⟩
      · intro few many hle
        simp only [mergeAfter]
        by_cases hmany : many.length + items.length ≤ maxAppendArity
        · rw [if_pos hmany, if_pos (by omega)]
          exact hmono _ _ (by simpa using hle)
        · rw [if_neg hmany, appendCount_append]
          by_cases hfew : few.length + items.length ≤ maxAppendArity
          · rw [if_pos hfew]
            exact hclose _ _
          · rw [if_neg hfew]
            exact Nat.le_of_eq (appendCount_append _ _)
      · intro open_ others
        -- whatever was open before, the new items alone make no more groups than with it
        have hothers : appendCount (mergeAfter items rest) ≤
            appendCount (mergeAfter others (.append items :: rest)) := by
          simp only [mergeAfter]
          split
          · exact hmono _ _ (by simp)
          · rw [appendCount_append]
            exact Nat.le_succ _
        simp only [mergeAfter] at hothers ⊢
        by_cases hfits : open_.length + items.length ≤ maxAppendArity
        · rw [if_pos hfits]
          exact Nat.le_trans (hclose _ items) (Nat.succ_le_succ hothers)
        · rw [if_neg hfits, appendCount_append]
          exact Nat.succ_le_succ hothers

/-- An append that is open makes at most one group more. -/
theorem appendCount_mergeAfter_le (open_ : List φ) (rest : List (Output σ φ)) :
    appendCount (mergeAfter open_ rest) ≤ appendCount (mergeAppends rest) + 1 := by
  cases rest with
  | nil => simp [mergeAfter, mergeAppends]
  | cons output rest =>
    cases output with
    | statement s => simp [mergeAfter, mergeAppends]
    | append items =>
      rw [mergeAppends, mergeAfter]
      split
      · exact (appendCount_mergeAfter rest).2 _ _
      · exact Nat.le_of_eq (appendCount_append _ _)

/-- Appends that fit into one call with what is open join it. -/
theorem mergeAfter_group {open_ : List φ} {appends : List (List φ)}
    (h : open_.length + appends.flatten.length ≤ maxAppendArity) (rest : List (Output σ φ)) :
    mergeAfter open_ (appends.map .append ++ rest) = mergeAfter (open_ ++ appends.flatten) rest := by
  induction appends generalizing open_ with
  | nil => rw [List.flatten_nil, List.append_nil, List.map_nil, List.nil_append]
  | cons items appends ih =>
    rw [List.flatten_cons, List.length_append] at h
    rw [List.map_cons, List.cons_append, mergeAfter, if_pos (by omega), ih, List.flatten_cons,
      List.append_assoc]
    rw [List.length_append]
    omega

/-- Joining makes at most one append of a group, and not more of what follows. -/
theorem appendCount_group_le {appends : List (List φ)}
    (h : (Block.group appends : Block σ φ).Fits) (rest : List (Output σ φ)) :
    appendCount (mergeAppends (appends.map .append ++ rest)) ≤
      appendCount (mergeAppends rest) + 1 := by
  cases appends with
  | nil => exact Nat.le_succ _
  | cons items appends =>
    rw [List.map_cons, List.cons_append, mergeAppends]
    obtain hone | ⟨_, hsmall⟩ := h
    · obtain rfl : appends = [] := by simpa using hone
      exact appendCount_mergeAfter_le items rest
    · rw [List.flatten_cons, List.length_append] at hsmall
      rw [mergeAfter_group hsmall]
      exact appendCount_mergeAfter_le _ rest

/-- No division into blocks that fit has fewer groups than joining makes. -/
theorem appendCount_le {outputs : List (Output σ φ)} {blocks : List (Block σ φ)}
    (h : Divides outputs blocks) : appendCount (mergeAppends outputs) ≤ groupCount blocks := by
  obtain ⟨rfl, hfits⟩ := h
  induction blocks with
  | nil => exact Nat.le_refl _
  | cons b blocks ih =>
    obtain ⟨hb, hblocks⟩ := List.forall_mem_cons.1 hfits
    have hrest := ih hblocks
    rw [List.flatMap_cons]
    cases b with
    | statement s =>
      have hcount : groupCount (.statement s :: blocks) = groupCount blocks :=
        List.countP_cons_of_neg (by simp [Block.isGroup])
      rw [hcount]
      exact hrest
    | group appends =>
      have hcount : groupCount (.group appends :: blocks) = groupCount blocks + 1 :=
        List.countP_cons_of_pos rfl
      rw [hcount]
      exact Nat.le_trans (appendCount_group_le hb _) (Nat.succ_le_succ hrest)

/-! ## Runs -/

/-- Outputs that no append is joined with from the front. -/
def StartsClosed (outputs : List (Output σ φ)) : Prop :=
  ∀ items, outputs.head? ≠ some (.append items)

theorem mergeAfter_of_startsClosed {after : List (Output σ φ)} (h : StartsClosed after)
    (open_ : List φ) : mergeAfter open_ after = .append open_ :: mergeAppends after := by
  cases after with
  | nil => rfl
  | cons output after =>
    cases output with
    | statement s => rfl
    | append items => exact absurd rfl (h items)

/-- Nothing is joined across the front of a statement. -/
theorem mergeAppends_append_both {after : List (Output σ φ)} (h : StartsClosed after)
    (before : List (Output σ φ)) :
    mergeAppends (before ++ after) = mergeAppends before ++ mergeAppends after ∧
      ∀ open_,
      mergeAfter open_ (before ++ after) = mergeAfter open_ before ++ mergeAppends after := by
  induction before with
  | nil => exact ⟨rfl, fun open_ => mergeAfter_of_startsClosed h open_⟩
  | cons output before ih =>
    obtain ⟨hmerge, hafter⟩ := ih
    cases output with
    | statement s =>
      refine ⟨?_, ?_⟩
      · rw [List.cons_append, mergeAppends, mergeAppends, hmerge]
        rfl
      · intro open_
        rw [List.cons_append, mergeAfter, mergeAfter, hmerge]
        rfl
    | append items =>
      refine ⟨hafter items, ?_⟩
      intro open_
      rw [List.cons_append, mergeAfter, mergeAfter]
      split
      · exact hafter _
      · rw [hafter]
        rfl

theorem mergeAppends_append {after : List (Output σ φ)} (h : StartsClosed after)
    (before : List (Output σ φ)) :
    mergeAppends (before ++ after) = mergeAppends before ++ mergeAppends after :=
  (mergeAppends_append_both h before).1

/-- Nothing is joined across the end of a statement. -/
theorem mergeAppends_append_of_endsClosed {before : List (Output σ φ)}
    (h : ∀ items, before.getLast? ≠ some (.append items)) (after : List (Output σ φ)) :
    mergeAppends (before ++ after) = mergeAppends before ++ mergeAppends after := by
  obtain rfl | ⟨before, last, rfl⟩ := List.eq_nil_or_concat before
  · rfl
  · rw [List.concat_eq_append] at h ⊢
    cases last with
    | append items => exact absurd (by simp) (h items)
    | statement s =>
      have hclosed : ∀ rest : List (Output σ φ), StartsClosed (.statement s :: rest) := by
        rintro rest items ⟨⟩
      rw [mergeAppends_append (hclosed []), List.append_assoc, List.append_assoc,
        List.singleton_append, mergeAppends_append (hclosed after)]
      rfl

/-- Single items fill up what is open, and then groups of their own. -/
theorem mergeAfter_singles {open_ : List φ} (hne : open_ ≠ [])
    (hle : open_.length ≤ maxAppendArity) (items : List φ) :
    ∃ groups : List (List φ),
      mergeAfter open_ (items.map fun i => (.append [i] : Output σ φ)) = groups.map .append ∧
        groups.flatten = open_ ++ items ∧
        groups.length = (open_.length + items.length + (maxAppendArity - 1)) / maxAppendArity := by
  unfold maxAppendArity at hle ⊢
  induction items generalizing open_ with
  | nil =>
    have hpos := List.length_pos_iff.2 hne
    refine ⟨[open_], rfl, by simp, ?_⟩
    simp only [List.length_singleton, List.length_nil]
    omega
  | cons i items ih =>
    rw [List.map_cons, mergeAfter]
    unfold maxAppendArity
    by_cases hfits : open_.length + [i].length ≤ 16
    · have hmore : open_ ++ [i] ≠ [] := by simp
      obtain ⟨groups, hmerged, hflatten, hlength⟩ := ih hmore (by simpa using hfits)
      rw [if_pos hfits]
      refine ⟨groups, hmerged, by rw [hflatten, List.append_assoc]; rfl, ?_⟩
      rw [hlength, List.length_append, List.length_singleton, List.length_cons]
      congr 1
      omega
    · obtain ⟨groups, hmerged, hflatten, hlength⟩ := ih (List.cons_ne_nil i []) (by simp)
      rw [if_neg hfits]
      refine ⟨open_ :: groups, by rw [hmerged]; rfl, by rw [List.flatten_cons, hflatten]; rfl, ?_⟩
      rw [List.length_singleton] at hfits hlength
      rw [List.length_cons, hlength, List.length_cons]
      omega

theorem mergeAppends_singles (items : List φ) :
    ∃ groups : List (List φ),
      mergeAppends (items.map fun i => (.append [i] : Output σ φ)) = groups.map .append ∧
        groups.flatten = items ∧
        groups.length = (items.length + (maxAppendArity - 1)) / maxAppendArity := by
  cases items with
  | nil =>
    refine ⟨[], rfl, rfl, ?_⟩
    simp [maxAppendArity]
  | cons i items =>
    have hone : [i].length ≤ maxAppendArity := by
      rw [List.length_singleton]
      decide
    obtain ⟨groups, hmerged, hflatten, hlength⟩ :=
      mergeAfter_singles (List.cons_ne_nil i []) hone items
    refine ⟨groups, hmerged, hflatten, ?_⟩
    rw [hlength, List.length_singleton, List.length_cons, Nat.add_comm 1]

/-! ## Statements -/

/-- The statements of outputs are those of blocks that fit, of which there is no division with
fewer groups. -/
theorem closeAppends_divides (append : List φ → σ) (outputs : List (Output σ φ)) :
    ∃ blocks, Divides outputs blocks ∧
      closeAppends append outputs = blocks.map (fun b => b.joined.close append) ∧
      ∀ others, Divides outputs others → groupCount blocks ≤ groupCount others := by
  obtain ⟨blocks, hblocks, hmerged⟩ := exists_blocks outputs
  refine ⟨blocks, hblocks, ?_, ?_⟩
  · rw [closeAppends, hmerged, List.map_map]
    rfl
  · intro others hothers
    rw [← appendCount_joined, ← hmerged]
    exact appendCount_le hothers

/-- A run of single items becomes as many statements as calls are needed for them. -/
theorem closeAppends_run (append : List φ → σ) {before after : List (Output σ φ)}
    (hbefore : ∀ items, before.getLast? ≠ some (.append items)) (hafter : StartsClosed after)
    (items : List φ) :
    ∃ groups : List (List φ), groups.flatten = items ∧
      groups.length = (items.length + (maxAppendArity - 1)) / maxAppendArity ∧
      closeAppends append (before ++ items.map (fun i => .append [i]) ++ after) =
        closeAppends append before ++ groups.map append ++ closeAppends append after := by
  obtain ⟨groups, hmerged, hflatten, hlength⟩ := mergeAppends_singles items
  refine ⟨groups, hflatten, hlength, ?_⟩
  unfold closeAppends
  rw [mergeAppends_append hafter, mergeAppends_append_of_endsClosed hbefore, hmerged,
    List.map_append, List.map_append, List.map_map]
  rfl

end Code
end Stencil
