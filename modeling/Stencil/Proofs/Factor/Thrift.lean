import Stencil.Proofs.Factor.Greedy

/-!
# No repeat is left, and none is taken out in vain

The search is a run of greedy steps to their end. This file looks at what one step does and at what
it means that there is none left:

* `uses`    : how many pieces refer to a substring;
* `Thrifty` : the invariant of the steps. Substrings are as long as asked for and referred to more
  than once, and none of them occurs in a literal or in a later substring.

A step keeps the invariant (`GreedyStep.thrifty`), and where a word still occurs twice there is
another step (`quiet_of_no_step`).
-/

namespace Stencil
namespace Factor

/-- How many pieces refer to a substring. -/
def uses (pieces : List Piece) (number : Nat) : Nat :=
  (pieces.map (·.chunk)).count (.shared number)

/-- What is taken out is long enough, used more than once, and nowhere left: neither in a literal
nor in what is taken out later. -/
structure Thrifty (minLength : Nat) (found : Repeats) : Prop where
  long : ∀ part ∈ found.substrings, minLength ≤ part.length
  used : ∀ number < found.substrings.length, 2 ≤ uses found.pieces number
  absent : ∀ p ∈ found.pieces, ∀ text, p.chunk = .literal text →
    ∀ part ∈ found.substrings, ¬ part <:+: text
  apart : found.substrings.Pairwise fun earlier later => ¬ earlier <:+: later

variable {part : List Char} {number minLength : Nat} {pieces done todo later : List Piece}

/-! ## References -/

theorem uses_append (pieces others : List Piece) (number : Nat) :
    uses (pieces ++ others) number = uses pieces number + uses others number := by
  unfold uses
  rw [List.map_append, List.count_append]

theorem Replaces.count_pos {text : List Char} {chunks : List Chunk}
    (h : Replaces part number text chunks) (hoccurs : part <:+: text) :
    0 < chunks.count (.shared number) := by
  cases h with
  | none hnone => exact absurd hoccurs hnone
  | first _ _ _ =>
    rw [List.count_append, List.count_cons_self]
    omega

/-- Replacing from the left finds two occurrences if there are two without overlap, although the
first that it takes need not be one of them. -/
theorem Replaces.two_le_count {before behind : List Char} {chunks : List Chunk}
    (h : Replaces part number (before ++ part ++ behind) chunks) (hoccurs : part <:+: behind) :
    2 ≤ chunks.count (.shared number) := by
  generalize htext : before ++ part ++ behind = text at h
  cases h with
  | none hnone => exact absurd ⟨_, _, htext⟩ hnone
  | @first _ first rest chunks hsplit hleft hrest =>
    -- what is behind the leftmost occurrence reaches at least as far to the left
    have hle := hleft before behind htext.symm
    have hlength := congrArg List.length (htext.trans hsplit)
    simp only [List.length_append] at hlength
    have hbehind : behind <:+ first ++ part ++ rest := by
      rw [← hsplit, ← htext]
      exact List.suffix_append _ _
    have hsuffix : behind <:+ rest :=
      List.suffix_of_suffix_length_le hbehind (List.suffix_append _ _) (by omega)
    have hpos := hrest.count_pos (hoccurs.trans hsuffix.isInfix)
    rw [List.count_append, List.count_cons_self]
    omega

/-- The literals between leftmost occurrences contain none. -/
theorem Replaces.not_within (hpart : part ≠ []) {text literal : List Char} {chunks : List Chunk}
    (h : Replaces part number text chunks) (hmem : .literal literal ∈ chunks) :
    ¬ part <:+: literal := by
  induction h with
  | none hnone =>
    cases mem_literalChunk hmem
    exact hnone
  | @first text before behind chunks htext hleft _ ih =>
    rcases List.mem_append.1 hmem with hmem | hmem
    · cases mem_literalChunk hmem
      rintro ⟨a, b, rfl⟩
      have hle := hleft a (b ++ part ++ behind) (by rw [htext]; simp)
      have hpos : 0 < part.length := List.length_pos_iff.2 hpart
      simp only [List.length_append] at hle
      omega
    · exact ih (by simpa using hmem)

/-! ## Cutting all pieces -/

theorem uses_cut_literal {p : Piece} {text : List Char} (hp : p.chunk = .literal text)
    (part : List Char) (number n : Nat) :
    uses (p.cut part number) n = (cutText part number text).count (.shared n) := by
  unfold uses Piece.cut
  simp [hp, Function.comp_def]

/-- References are never cut. -/
theorem uses_le_cut (part : List Char) (number n : Nat) (pieces : List Piece) :
    uses pieces n ≤ uses (pieces.flatMap (Piece.cut part number)) n := by
  induction pieces with
  | nil => exact Nat.le_refl _
  | cons p pieces ih =>
    have hfirst : uses [p] n ≤ uses (p.cut part number) n := by
      unfold uses Piece.cut
      cases hp : p.chunk with
      | literal text => simp [hp]
      | shared m => simp [hp]
    rw [List.flatMap_cons, uses_append, ← List.singleton_append, uses_append]
    exact Nat.add_le_add hfirst ih

theorem uses_cut_pos (hpart : part ≠ []) (number : Nat) {q : Piece} (hq : q ∈ pieces)
    {text : List Char} (htext : q.chunk = .literal text) (hoccurs : part <:+: text) :
    0 < uses (pieces.flatMap (Piece.cut part number)) number := by
  obtain ⟨before, behind, rfl⟩ := List.append_of_mem hq
  have hpos := (cutText_replaces hpart number text).count_pos hoccurs
  rw [List.flatMap_append, List.flatMap_cons, uses_append, uses_append, uses_cut_literal htext]
  omega

/-- A word that occurs again is replaced at least twice. -/
theorem RepeatsAt.two_le_uses (hpart : part ≠ []) {i start : Nat}
    (h : RepeatsAt pieces i start part) (number : Nat) :
    2 ≤ uses (pieces.flatMap (Piece.cut part number)) number := by
  obtain ⟨earlier, p, later, before, behind, rfl, -, hp, -, hrecurs⟩ := h
  rw [List.flatMap_append, List.flatMap_cons, uses_append, uses_append, uses_cut_literal hp]
  have hreplaces := cutText_replaces hpart number (before ++ part ++ behind)
  rcases hrecurs with hbehind | ⟨q, hq, text, htext, hoccurs⟩
  · have htwo := hreplaces.two_le_count hbehind
    omega
  · have hone := hreplaces.count_pos ⟨before, behind, rfl⟩
    have hother := uses_cut_pos hpart number hq htext hoccurs
    omega

/-- What the literals are after a cut: parts of what they were, without the word. -/
theorem literal_of_cut (hpart : part ≠ []) {q : Piece}
    (hq : q ∈ pieces.flatMap (Piece.cut part number)) {literal : List Char}
    (hliteral : q.chunk = .literal literal) :
    (∃ p ∈ pieces, ∃ text, p.chunk = .literal text ∧ literal <:+: text) ∧
      ¬ part <:+: literal := by
  obtain ⟨p, hp, hqp⟩ := List.mem_flatMap.1 hq
  unfold Piece.cut at hqp
  split at hqp
  · next text htext =>
    obtain ⟨chunk, hchunk, rfl⟩ := List.mem_map.1 hqp
    cases hliteral
    have hreplaces := cutText_replaces hpart number text
    exact ⟨⟨p, hp, text, htext, hreplaces.literal_within hchunk⟩, hreplaces.not_within hpart hchunk⟩
  · next n hn =>
    cases List.mem_singleton.1 hqp
    rw [hn] at hliteral
    cases hliteral

/-! ## What a step keeps -/

/-- A greedy step cuts the chosen word out of all pieces. -/
theorem GreedyStep.exists_cut {found next : Repeats} (hmin : 0 < minLength)
    (h : GreedyStep minLength found next) :
    ∃ i start part, part ≠ [] ∧ Chosen minLength found.pieces i start part ∧
      next = ⟨found.pieces.flatMap (Piece.cut part found.substrings.length),
        found.substrings ++ [part]⟩ := by
  obtain ⟨i, start, part, _, hchosen, _⟩ := id h
  have hpart : part ≠ [] := List.ne_nil_of_length_pos (Nat.lt_of_lt_of_le hmin hchosen.long)
  refine ⟨i, start, part, hpart, hchosen, h.eq ?_⟩
  exact ⟨i, start, part, _, hchosen, cuts_replace hpart _ _, by rw [List.flatMap_def]⟩

theorem GreedyStep.thrifty {found next : Repeats} (hmin : 0 < minLength)
    (h : GreedyStep minLength found next) (hfound : Thrifty minLength found) :
    Thrifty minLength next := by
  obtain ⟨i, start, part, hpart, hchosen, rfl⟩ := h.exists_cut hmin
  refine ⟨?_, ?_, ?_, ?_⟩
  · intro other hother
    rcases List.mem_append.1 hother with hother | hother
    · exact hfound.long other hother
    · cases List.mem_singleton.1 hother
      exact hchosen.long
  · intro number hnumber
    rw [List.length_append, List.length_singleton] at hnumber
    rcases Nat.lt_succ_iff_lt_or_eq.1 hnumber with hlt | rfl
    · exact Nat.le_trans (hfound.used number hlt) (uses_le_cut part _ number _)
    · exact hchosen.repeats.two_le_uses hpart _
  · intro q hq literal hliteral other hother
    obtain ⟨⟨p, hp, text, htext, hwithin⟩, hnone⟩ := literal_of_cut hpart hq hliteral
    rcases List.mem_append.1 hother with hother | hother
    · exact fun hinside => hfound.absent p hp text htext other hother (hinside.trans hwithin)
    · cases List.mem_singleton.1 hother
      exact hnone
  · -- the new substring stood in a literal, in which no earlier one occurs
    obtain ⟨earlier, p, later, before, behind, hpieces, -, hp, -, -⟩ := hchosen.repeats
    have hmem : p ∈ found.pieces := by
      rw [hpieces]
      simp
    refine List.pairwise_append.2 ⟨hfound.apart, List.pairwise_singleton _ _, ?_⟩
    intro old hold new hnew hinside
    cases List.mem_singleton.1 hnew
    exact hfound.absent p hmem _ hp old hold (hinside.trans ⟨before, behind, rfl⟩)

/-! ## The end of the steps -/

/-- Where there is no step left, no repeat starts in any piece. -/
theorem quiet_of_no_step (hmin : 0 < minLength) {substrings : List (List Char)}
    (h : ∀ next, ¬ GreedyStep minLength ⟨done ++ todo, substrings⟩ next)
    (hquiet : Quiet minLength done todo) : Quiet minLength (done ++ todo) [] := by
  induction todo generalizing done with
  | nil => rwa [List.append_nil]
  | cons p later ih =>
    have hsnoc : done ++ p :: later = done ++ [p] ++ later := by simp
    suffices hp : QuietAt minLength p later by
      rw [hsnoc] at h ⊢
      exact ih h (quiet_snoc hquiet hp)
    cases hchunk : p.chunk with
    | shared n => exact quietAt_shared hchunk
    | literal text =>
      cases hfound : firstRepeat? later minLength 0 text with
      | none => exact quietAt_of_firstRepeat? hmin hchunk hfound
      | some found =>
        -- the search would find a repeat here, and that would be the next step
        obtain ⟨before, behind, htext, -, hhit⟩ := firstRepeat?_hit hfound
        have hpart := firstRepeat?_ne_nil hmin hfound
        rw [htext] at hchunk
        exact absurd ⟨_, _, _, _, hhit.chosen hchunk hquiet,
          cuts_replace hpart substrings.length _, rfl⟩ (h _)

/-- What a run keeps. -/
theorem thrifty_of_run {start found : Repeats} (hmin : 0 < minLength)
    (h : Relation.ReflTransGen (GreedyStep minLength) start found)
    (hstart : Thrifty minLength start) : Thrifty minLength found := by
  induction h with
  | refl => exact hstart
  | tail _ hstep ih => exact hstep.thrifty hmin ih

/-- Substrings that are taken out have at least the length asked for and are referred to at least
twice. They are different, none contains an earlier one, and none occurs in a literal that is left.
No word of the length asked for occurs twice without overlap in the literals. -/
theorem findRepeats_thrifty (texts : List (List Char)) (minLength : Nat) :
    Thrifty (max minLength 1) (findRepeats texts minLength) ∧
      (findRepeats texts minLength).substrings.Nodup ∧
      ∀ i start word, word.length = max minLength 1 →
        ¬ RepeatsAt (findRepeats texts minLength).pieces i start word := by
  have hmin : 0 < max minLength 1 := Nat.lt_of_lt_of_le Nat.zero_lt_one (Nat.le_max_right _ _)
  have henough : weight (initialPieces texts) ≤ enoughSteps texts := by
    rw [weight_initialPieces]
    exact Nat.le_succ _
  obtain ⟨hrun, hend⟩ : GreedyResult (max minLength 1) ⟨[] ++ initialPieces texts, []⟩
      (findRepeats texts minLength) := factorFrom_greedy hmin henough trivial
  -- at the start nothing has been taken out
  have hthrifty : Thrifty (max minLength 1) (findRepeats texts minLength) :=
    thrifty_of_run hmin hrun ⟨by simp, by simp, by simp, by simp⟩
  refine ⟨hthrifty, ?_, ?_⟩
  · apply hthrifty.apart.imp
    rintro earlier later hapart rfl
    exact hapart List.infix_rfl
  · intro i start word hlength
    have hquiet : Quiet (max minLength 1) ([] ++ (findRepeats texts minLength).pieces) [] :=
      quiet_of_no_step hmin hend trivial
    exact hquiet.not_repeatsAt hlength

/-- A text in which the only repeat overlaps itself: it is found twice, from the left, and a
character is left. -/
theorem findRepeats_thrifty_overlap :
    (findRepeats ["aaaaa".toList] 2).substrings = ["aa".toList] ∧
      uses (findRepeats ["aaaaa".toList] 2).pieces 0 = 2 ∧
      (findRepeats ["aaaaa".toList] 2).substrings.Nodup ∧
      "aa".toList.length = max 2 1 ∧
      ¬ RepeatsAt (findRepeats ["aaaaa".toList] 2).pieces 2 0 "aa".toList := by
  obtain ⟨_, hnodup, hnone⟩ := findRepeats_thrifty ["aaaaa".toList] 2
  exact ⟨by decide +kernel, by decide +kernel, hnodup, rfl, hnone 2 0 _ rfl⟩

end Factor
end Stencil
