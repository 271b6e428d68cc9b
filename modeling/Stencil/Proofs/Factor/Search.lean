import Stencil.Proofs.Factor.Greedy

/-!
# Searching in chunks

A text is looked for in chunks from a place on, which is given by a chunk and a byte in it. This
file defines:

* `byteLength` : how many bytes characters take;
* `StandsIn`   : a text stands at a place in chunks, where the search comes by.

The search finds the first such place (`indexOf_eq_some_iff`), and a repeat is what this search
finds behind its first occurrence (`repeats_eq_indexOf`).
-/

namespace Stencil
namespace Factor

/-! ## Bytes -/

def byteLength (cs : List Char) : Nat := (cs.map Char.utf8Size).sum

@[simp]
theorem byteLength_nil : byteLength [] = 0 := rfl

@[simp]
theorem byteLength_cons (c : Char) (cs : List Char) :
    byteLength (c :: cs) = c.utf8Size + byteLength cs := by
  simp [byteLength]

@[simp]
theorem byteLength_append (cs ds : List Char) :
    byteLength (cs ++ ds) = byteLength cs + byteLength ds := by
  simp [byteLength]

theorem eq_nil_of_byteLength {cs : List Char} (h : byteLength cs = 0) : cs = [] := by
  cases cs with
  | nil => rfl
  | cons c cs =>
    rw [byteLength_cons] at h
    exact absurd h (Nat.ne_of_gt (Nat.add_pos_left c.utf8Size_pos _))

theorem dropBytes?_eq_some {n : Nat} {text rest : List Char} :
    dropBytes? n text = some rest ↔ ∃ skipped, text = skipped ++ rest ∧ byteLength skipped = n := by
  induction text generalizing n with
  | nil =>
    cases n with
    | zero =>
      constructor
      · intro h
        cases h
        exact ⟨[], rfl, rfl⟩
      · rintro ⟨skipped, htext, _⟩
        rw [(List.append_eq_nil_iff.1 htext.symm).2]
        rfl
    | succ n =>
      constructor
      · intro h
        cases h
      · rintro ⟨skipped, htext, hbytes⟩
        rw [(List.append_eq_nil_iff.1 htext.symm).1] at hbytes
        cases hbytes
  | cons c text ih =>
    cases n with
    | zero =>
      constructor
      · intro h
        cases h
        exact ⟨[], rfl, rfl⟩
      · rintro ⟨skipped, htext, hbytes⟩
        rw [eq_nil_of_byteLength hbytes, List.nil_append] at htext
        rw [← htext]
        rfl
    | succ n =>
      rw [dropBytes?]
      split
      · -- the first character is skipped as a whole
        next hle =>
        rw [ih]
        constructor
        · rintro ⟨skipped, rfl, hbytes⟩
          refine ⟨c :: skipped, rfl, ?_⟩
          rw [byteLength_cons, hbytes]
          exact Nat.add_sub_cancel' hle
        · rintro ⟨skipped, htext, hbytes⟩
          cases skipped with
          | nil => cases hbytes
          | cons d skipped =>
            cases htext
            refine ⟨skipped, rfl, ?_⟩
            rw [← hbytes, byteLength_cons]
            exact (Nat.add_sub_cancel_left ..).symm
      · -- the offset lies inside the first character
        next hle =>
        constructor
        · intro h
          cases h
        · rintro ⟨skipped, htext, hbytes⟩
          cases skipped with
          | nil => cases hbytes
          | cons d skipped =>
            cases htext
            refine absurd ?_ hle
            rw [← hbytes, byteLength_cons]
            exact Nat.le_add_right _ _

/-! ## Occurrences in a text -/

theorem byteOffset?_eq_none {needle text : List Char} :
    byteOffset? needle text = none ↔ ¬ needle <:+: text := by
  induction text with
  | nil => simp [byteOffset?, List.isEmpty_iff]
  | cons c text ih =>
    rw [byteOffset?, List.infix_cons_iff, ← List.isPrefixOf_iff_prefix, not_or]
    split
    · next h => simp [h]
    · next h =>
      rw [Option.map_eq_none_iff, ih]
      exact (and_iff_right h).symm

/-- The offset is that of the leftmost occurrence. -/
theorem byteOffset?_spec {needle text : List Char} {n : Nat}
    (h : byteOffset? needle text = some n) :
    (∃ before behind, text = before ++ needle ++ behind ∧ byteLength before = n) ∧
      ∀ before behind, text = before ++ needle ++ behind → n ≤ byteLength before := by
  induction text generalizing n with
  | nil =>
    rw [byteOffset?] at h
    split at h
    · next hempty =>
      cases h
      rw [List.isEmpty_iff] at hempty
      exact ⟨⟨[], [], by rw [hempty]; rfl, rfl⟩, fun _ _ _ => Nat.zero_le _⟩
    · cases h
  | cons c text ih =>
    rw [byteOffset?] at h
    split at h
    · next hprefix =>
      cases h
      obtain ⟨behind, hbehind⟩ := List.isPrefixOf_iff_prefix.1 hprefix
      exact ⟨⟨[], behind, hbehind.symm, rfl⟩, fun _ _ _ => Nat.zero_le _⟩
    · next hprefix =>
      obtain ⟨m, hm, rfl⟩ := Option.map_eq_some_iff.1 h
      obtain ⟨⟨before, behind, htext, hbytes⟩, hfirst⟩ := ih hm
      refine ⟨⟨c :: before, behind, ?_, ?_⟩, ?_⟩
      · rw [htext]
        rfl
      · rw [byteLength_cons, hbytes, Nat.add_comm]
      · intro before' behind' htext'
        cases before' with
        | nil =>
          -- no occurrence starts at the first character
          exact absurd (List.isPrefixOf_iff_prefix.2 ⟨behind', htext'.symm⟩) hprefix
        | cons d before' =>
          cases htext'
          rw [byteLength_cons, Nat.add_comm]
          exact Nat.add_le_add_left (hfirst before' behind' rfl) _

/-! ## Occurrences in chunks -/

/-- A text stands at a byte of the chunk with the number `k`. In the first chunk only what is
behind `start` bytes counts. -/
def StandsIn (needle : List Char) (start : Nat) (chunks : List Chunk) (k offset : Nat) : Prop :=
  ∃ before behind, chunks[k]? = some (.literal (before ++ needle ++ behind)) ∧
    byteLength before = offset ∧
    (k = 0 → ∃ skipped, skipped <+: before ∧ byteLength skipped = start)

section

variable {needle : List Char} {start : Nat} {c : Chunk} {chunks : List Chunk} {k offset : Nat}

theorem standsIn_succ :
    StandsIn needle start (c :: chunks) (k + 1) offset ↔ StandsIn needle 0 chunks k offset := by
  unfold StandsIn
  rw [List.getElem?_cons_succ]
  constructor
  · rintro ⟨before, behind, hchunk, hbytes, _⟩
    exact ⟨before, behind, hchunk, hbytes, fun _ => ⟨[], List.nil_prefix, rfl⟩⟩
  · rintro ⟨before, behind, hchunk, hbytes, _⟩
    exact ⟨before, behind, hchunk, hbytes, fun h => absurd h (Nat.succ_ne_zero k)⟩

theorem standsIn_zero {text : List Char} :
    StandsIn needle start (.literal text :: chunks) 0 offset ↔
      ∃ rest before behind, dropBytes? start text = some rest ∧
        rest = before ++ needle ++ behind ∧ start + byteLength before = offset := by
  constructor
  · rintro ⟨before, behind, hchunk, hbytes, hskipped⟩
    cases hchunk
    obtain ⟨skipped, ⟨between, rfl⟩, hstart⟩ := hskipped rfl
    refine ⟨between ++ needle ++ behind, between, behind, ?_, rfl, ?_⟩
    · exact dropBytes?_eq_some.2 ⟨skipped, by simp, hstart⟩
    · rw [← hbytes, byteLength_append, hstart]
  · rintro ⟨rest, between, behind, hdrop, rfl, hoffset⟩
    obtain ⟨skipped, rfl, hstart⟩ := dropBytes?_eq_some.1 hdrop
    refine ⟨skipped ++ between, behind, ?_, ?_, ?_⟩
    · simp
    · rw [byteLength_append, hstart, hoffset]
    · exact fun _ => ⟨skipped, List.prefix_append _ _, hstart⟩

theorem not_standsIn_shared {number : Nat} :
    ¬ StandsIn needle start (.shared number :: chunks) 0 offset := by
  rintro ⟨before, behind, hchunk, _⟩
  cases hchunk

end

/-- The search stops at the first place, or has come by none. -/
theorem indexOfFrom_spec (needle : List Char) (i start : Nat) (chunks : List Chunk) :
    (∃ k offset, indexOfFrom needle i start chunks = some (i + k, offset) ∧
      StandsIn needle start chunks k offset ∧
      ∀ k' offset', StandsIn needle start chunks k' offset' → k < k' ∨ k = k' ∧ offset ≤ offset') ∨
    (indexOfFrom needle i start chunks = none ∧
      ∀ k offset, ¬ StandsIn needle start chunks k offset) := by
  induction chunks generalizing i start with
  | nil =>
    refine .inr ⟨rfl, ?_⟩
    rintro k offset ⟨before, behind, hchunk, _⟩
    cases hchunk
  | cons c chunks ih =>
    -- what is found behind the first chunk is the first place if there is none in that chunk
    have hlater (hnone : ∀ offset, ¬ StandsIn needle start (c :: chunks) 0 offset)
        (heq : indexOfFrom needle i start (c :: chunks) = indexOfFrom needle (i + 1) 0 chunks) :
        (∃ k offset, indexOfFrom needle i start (c :: chunks) = some (i + k, offset) ∧
          StandsIn needle start (c :: chunks) k offset ∧
          ∀ k' offset', StandsIn needle start (c :: chunks) k' offset' →
            k < k' ∨ k = k' ∧ offset ≤ offset') ∨
        (indexOfFrom needle i start (c :: chunks) = none ∧
          ∀ k offset, ¬ StandsIn needle start (c :: chunks) k offset) := by
      rcases ih (i + 1) 0 with ⟨k, offset, hfound, hstands, hfirst⟩ | ⟨hmissing, hnot⟩
      · refine .inl ⟨k + 1, offset, ?_, standsIn_succ.2 hstands, ?_⟩
        · rw [heq, hfound, Nat.add_assoc, Nat.add_comm 1]
        · intro k' offset' h'
          cases k' with
          | zero => exact absurd h' (hnone offset')
          | succ k' =>
            rcases hfirst k' offset' (standsIn_succ.1 h') with hlt | ⟨rfl, hle⟩
            · exact .inl (Nat.succ_lt_succ hlt)
            · exact .inr ⟨rfl, hle⟩
      · refine .inr ⟨heq.trans hmissing, ?_⟩
        intro k offset h
        cases k with
        | zero => exact hnone offset h
        | succ k => exact hnot k offset (standsIn_succ.1 h)
    cases c with
    | shared number => exact hlater (fun _ => not_standsIn_shared) rfl
    | literal text =>
      cases hoffset : (dropBytes? start text).bind (byteOffset? needle) with
      | none =>
        refine hlater ?_ (by rw [indexOfFrom, hoffset])
        intro offset h
        obtain ⟨rest, before, behind, hdrop, hrest, _⟩ := standsIn_zero.1 h
        rw [hdrop, Option.bind_some, byteOffset?_eq_none] at hoffset
        exact hoffset ⟨before, behind, hrest.symm⟩
      | some m =>
        obtain ⟨rest, hdrop, hm⟩ := Option.bind_eq_some_iff.1 hoffset
        obtain ⟨⟨before, behind, hrest, hbytes⟩, hleftmost⟩ := byteOffset?_spec hm
        refine .inl ⟨0, start + m, by rw [indexOfFrom, hoffset]; rfl, ?_, ?_⟩
        · exact standsIn_zero.2 ⟨rest, before, behind, hdrop, hrest, by rw [hbytes]⟩
        · intro k' offset' h'
          cases k' with
          | zero =>
            obtain ⟨rest', before', behind', hdrop', hrest', rfl⟩ := standsIn_zero.1 h'
            cases hdrop.symm.trans hdrop'
            exact .inr ⟨rfl, Nat.add_le_add_left (hleftmost before' behind' hrest') start⟩
          | succ k' => exact .inl (Nat.succ_pos k')

/-- The search finds the first place in the chunks at which the text stands. -/
theorem indexOf_eq_some_iff {chunks : List Chunk} {needle : List Char} {i start j offset : Nat} :
    indexOf chunks needle i start = some (j, offset) ↔
      ∃ k, j = i + k ∧ StandsIn needle start (chunks.drop i) k offset ∧
        ∀ k' offset', StandsIn needle start (chunks.drop i) k' offset' →
          k < k' ∨ k = k' ∧ offset ≤ offset' := by
  unfold indexOf
  rcases indexOfFrom_spec needle i start (chunks.drop i) with
    ⟨k, o, hfound, hstands, hfirst⟩ | ⟨hmissing, hnot⟩
  · rw [hfound]
    constructor
    · intro h
      cases h
      exact ⟨k, rfl, hstands, hfirst⟩
    · rintro ⟨k', rfl, hstands', hfirst'⟩
      -- there is only one first place
      rcases hfirst k' offset hstands' with hlt | ⟨rfl, hle⟩
      · rcases hfirst' k o hstands with hlt' | ⟨rfl, _⟩
        · exact absurd hlt' (Nat.lt_asymm hlt)
        · exact absurd hlt (Nat.lt_irrefl _)
      · rcases hfirst' k o hstands with hlt | ⟨_, hle'⟩
        · exact absurd hlt (Nat.lt_irrefl _)
        · rw [Nat.le_antisymm hle hle']
  · rw [hmissing]
    constructor
    · intro h
      cases h
    · rintro ⟨k, _, hstands, _⟩
      exact absurd hstands (hnot k offset)

theorem indexOf_isSome_iff {chunks : List Chunk} {needle : List Char} {i start : Nat} :
    (indexOf chunks needle i start).isSome = true ↔
      ∃ k offset, StandsIn needle start (chunks.drop i) k offset := by
  unfold indexOf
  rcases indexOfFrom_spec needle i start (chunks.drop i) with
    ⟨k, o, hfound, hstands, _⟩ | ⟨hmissing, hnot⟩
  · rw [hfound]
    exact ⟨fun _ => ⟨k, o, hstands⟩, fun _ => rfl⟩
  · rw [hmissing]
    constructor
    · intro h
      cases h
    · rintro ⟨k, offset, hstands⟩
      exact absurd hstands (hnot k offset)

/-! ## Repeats -/

theorem standsIn_later {needle : List Char} {later : List Piece} :
    (∃ k offset, StandsIn needle 0 (later.map (·.chunk)) k offset) ↔
      ∃ q ∈ later, ∃ text, q.chunk = .literal text ∧ needle <:+: text := by
  constructor
  · rintro ⟨k, offset, before, behind, hchunk, _⟩
    rw [List.getElem?_map] at hchunk
    obtain ⟨q, hq, hchunk⟩ := Option.map_eq_some_iff.1 hchunk
    exact ⟨q, List.mem_of_getElem? hq, _, hchunk, before, behind, rfl⟩
  · rintro ⟨q, hq, text, hchunk, before, behind, htext⟩
    obtain ⟨k, hk⟩ := List.mem_iff_getElem?.1 hq
    refine ⟨k, byteLength before, before, behind, ?_, rfl, fun _ => ⟨[], List.nil_prefix, rfl⟩⟩
    rw [List.getElem?_map, hk, Option.map_some, hchunk, htext]

/-- Characters of a piece occur again if and only if the search finds them behind the place at which
they stand. -/
theorem repeats_eq_indexOf {done later : List Piece} {p : Piece} {before text : List Char}
    (hp : p.chunk = .literal (before ++ text)) (length : Nat) :
    repeats later text length =
      (indexOf ((done ++ p :: later).map (·.chunk)) (text.take length) done.length
        (byteLength (before ++ text.take length))).isSome := by
  have hdrop : ((done ++ p :: later).map (·.chunk)).drop done.length =
      .literal (before ++ text) :: later.map (·.chunk) := by
    rw [List.map_append, List.drop_left' (by simp), List.map_cons, hp]
  have hbehind : dropBytes? (byteLength (before ++ text.take length)) (before ++ text) =
      some (text.drop length) := by
    refine dropBytes?_eq_some.2 ⟨before ++ text.take length, ?_, rfl⟩
    rw [List.append_assoc, List.take_append_drop]
  rw [Bool.eq_iff_iff, repeats_iff, indexOf_isSome_iff, hdrop]
  unfold Recurs
  rw [← standsIn_later]
  constructor
  · rintro (⟨a, b, hab⟩ | ⟨k, offset, hstands⟩)
    · exact ⟨0, _, standsIn_zero.2 ⟨_, a, b, hbehind, hab.symm, rfl⟩⟩
    · exact ⟨k + 1, offset, standsIn_succ.2 hstands⟩
  · rintro ⟨k, offset, hstands⟩
    cases k with
    | zero =>
      obtain ⟨rest, a, b, hrest, hab, _⟩ := standsIn_zero.1 hstands
      cases hbehind.symm.trans hrest
      exact .inl ⟨a, b, hab.symm⟩
    | succ k => exact .inr ⟨k, offset, standsIn_succ.1 hstands⟩

end Factor
end Stencil
