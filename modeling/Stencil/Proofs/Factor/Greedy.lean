import Mathlib.Data.List.Forall2
import Mathlib.Logic.Relation
import Stencil.Proofs.Factor.Repeats

/-!
# The search is the plain greedy one

The search goes on behind the substring that it has just taken out, and never looks at earlier
pieces again. The plain procedure starts from the first piece after each step. Both find the same,
because what is behind the search has no repeat, and cutting other pieces cannot make one.

This file defines:

* `RepeatsAt`   : a word at a place that occurs again without overlap;
* `Chosen`      : the longest such word at the first place that has one;
* `Replaces`    : a text with the leftmost occurrences of a word replaced;
* `GreedyStep`  : one step of the plain procedure, over all pieces;
* `Quiet`       : the invariant of the search, that no repeat starts in what is behind it.

`factorFrom_greedy` says that a run of the search is a run of greedy steps to their end, and
`GreedyStep.eq` that there is only one.
-/

namespace Stencil
namespace Factor

/-! ## The plain procedure -/

/-- A word occurs in what is behind it in its literal, or in one of the pieces after that. -/
def Recurs (later : List Piece) (word behind : List Char) : Prop :=
  word <:+: behind ∨ ∃ q ∈ later, ∃ text, q.chunk = .literal text ∧ word <:+: text

/-- A word that starts behind `start` characters of the piece with the number `i` occurs again. -/
def RepeatsAt (pieces : List Piece) (i start : Nat) (word : List Char) : Prop :=
  ∃ earlier p later before behind, pieces = earlier ++ p :: later ∧ earlier.length = i ∧
    p.chunk = .literal (before ++ word ++ behind) ∧ before.length = start ∧
    Recurs later word behind

/-- A word of at least `minLength` characters that occurs again, at the first place where one of
`minLength` does, and the longest one there. -/
structure Chosen (minLength : Nat) (pieces : List Piece) (i start : Nat) (part : List Char) :
    Prop where
  repeats : RepeatsAt pieces i start part
  long : minLength ≤ part.length
  first : ∀ j place word, RepeatsAt pieces j place word → word.length = minLength →
    i < j ∨ i = j ∧ start ≤ place
  longest : ∀ word, RepeatsAt pieces i start word → word.length ≤ part.length

/-- The chunks of a text in which each leftmost occurrence of `part` is a reference and no literal
is empty. -/
inductive Replaces (part : List Char) (number : Nat) : List Char → List Chunk → Prop where
  | none {text : List Char} : ¬ part <:+: text → Replaces part number text (literalChunk text)
  | first {text before behind : List Char} {chunks : List Chunk} :
      text = before ++ part ++ behind →
      (∀ a b, text = a ++ part ++ b → before.length ≤ a.length) →
      Replaces part number behind chunks →
      Replaces part number text (literalChunk before ++ .shared number :: chunks)

/-- The pieces that a piece is replaced by. -/
inductive PieceReplaces (part : List Char) (number : Nat) : Piece → List Piece → Prop where
  | literal {text : List Char} {owner : Nat} {chunks : List Chunk} :
      Replaces part number text chunks →
      PieceReplaces part number ⟨.literal text, owner⟩ (chunks.map fun chunk => ⟨chunk, owner⟩)
  | shared {n owner : Nat} :
      PieceReplaces part number ⟨.shared n, owner⟩ [⟨.shared n, owner⟩]

/-- One step over all pieces: the chosen word becomes a substring and is replaced everywhere. -/
def GreedyStep (minLength : Nat) (found next : Repeats) : Prop :=
  ∃ i start part replaced, Chosen minLength found.pieces i start part ∧
    List.Forall₂ (PieceReplaces part found.substrings.length) found.pieces replaced ∧
    next = ⟨replaced.flatten, found.substrings ++ [part]⟩

/-- What greedy steps lead to when they are taken until there is none. -/
def GreedyResult (minLength : Nat) (start found : Repeats) : Prop :=
  Relation.ReflTransGen (GreedyStep minLength) start found ∧
    ∀ next, ¬ GreedyStep minLength found next

/-! ## There is one step -/

variable {part : List Char} {number minLength : Nat} {pieces done todo later : List Piece}

/-- The word at a place is known by its length. -/
theorem RepeatsAt.eq {i start : Nat} {word other : List Char} (h : RepeatsAt pieces i start word)
    (h' : RepeatsAt pieces i start other) (hlength : word.length = other.length) :
    word = other := by
  obtain ⟨earlier, p, later, before, behind, hpieces, rfl, hp, rfl, -⟩ := h
  obtain ⟨earlier', p', later', before', behind', hpieces', hi, hp', hstart, -⟩ := h'
  rw [hpieces] at hpieces'
  obtain ⟨-, hrest⟩ := List.append_inj hpieces' hi.symm
  cases hrest
  have htext : before ++ word ++ behind = before' ++ other ++ behind' :=
    Chunk.literal.inj (hp.symm.trans hp')
  rw [List.append_assoc, List.append_assoc] at htext
  obtain ⟨-, hwords⟩ := List.append_inj htext hstart.symm
  exact (List.append_inj hwords hlength).1

theorem Recurs.mono {word longer behind longBehind : List Char}
    (h : Recurs later longer longBehind) (hword : word <:+: longer)
    (hbehind : longBehind <:+: behind) : Recurs later word behind := by
  rcases h with h | ⟨q, hq, text, htext, h⟩
  · exact .inl ((hword.trans h).trans hbehind)
  · exact .inr ⟨q, hq, text, htext, hword.trans h⟩

/-- Where a word occurs again, its beginnings do. -/
theorem RepeatsAt.take {i start : Nat} {word : List Char} (h : RepeatsAt pieces i start word)
    (n : Nat) : RepeatsAt pieces i start (word.take n) := by
  obtain ⟨earlier, p, later, before, behind, hpieces, hi, hp, hstart, hrecurs⟩ := h
  refine ⟨earlier, p, later, before, word.drop n ++ behind, hpieces, hi, ?_, hstart, ?_⟩
  · rw [hp, List.append_assoc, List.append_assoc, ← List.append_assoc (word.take n),
      List.take_append_drop]
  · apply hrecurs.mono
    · exact (List.take_prefix n word).isInfix
    · exact (List.suffix_append _ _).isInfix

/-- The choice has no freedom. -/
theorem Chosen.eq {i start j place : Nat} {other : List Char}
    (h : Chosen minLength pieces i start part) (h' : Chosen minLength pieces j place other) :
    part = other := by
  have hlength : (part.take minLength).length = minLength :=
    List.length_take_of_le h.long
  have hlength' : (other.take minLength).length = minLength :=
    List.length_take_of_le h'.long
  -- each of the two places is not behind the other
  have hfirst := h.first j place _ (h'.repeats.take minLength) hlength'
  have hfirst' := h'.first i start _ (h.repeats.take minLength) hlength
  obtain ⟨rfl, rfl⟩ : i = j ∧ start = place := by omega
  apply h.repeats.eq h'.repeats
  exact Nat.le_antisymm (h'.longest _ h.repeats) (h.longest _ h'.repeats)

theorem Replaces.eq {text : List Char} {chunks others : List Chunk}
    (h : Replaces part number text chunks) (h' : Replaces part number text others) :
    chunks = others := by
  induction h generalizing others with
  | none hnone =>
    cases h' with
    | none _ => rfl
    | first htext _ _ => exact absurd ⟨_, _, htext.symm⟩ hnone
  | first htext hfirst _ ih =>
    cases h' with
    | none hnone => exact absurd ⟨_, _, htext.symm⟩ hnone
    | first htext' hfirst' hrest =>
      -- both are the first occurrence
      have hlength := Nat.le_antisymm (hfirst _ _ htext') (hfirst' _ _ htext)
      rw [htext, List.append_assoc, List.append_assoc] at htext'
      obtain ⟨rfl, hbehind⟩ := List.append_inj htext' hlength
      cases List.append_cancel_left hbehind
      rw [ih hrest]

theorem PieceReplaces.eq {p : Piece} {ps qs : List Piece} (h : PieceReplaces part number p ps)
    (h' : PieceReplaces part number p qs) : ps = qs := by
  cases h with
  | literal hchunks =>
    cases h' with
    | literal hchunks' => rw [hchunks.eq hchunks']
  | shared =>
    cases h' with
    | shared => rfl

/-- A greedy step leads to one result. -/
theorem GreedyStep.eq {found next other : Repeats} (h : GreedyStep minLength found next)
    (h' : GreedyStep minLength found other) : next = other := by
  obtain ⟨i, start, part, replaced, hchosen, hreplaced, rfl⟩ := h
  obtain ⟨j, place, part', replaced', hchosen', hreplaced', rfl⟩ := h'
  cases hchosen.eq hchosen'
  have hunique : Relator.RightUnique (PieceReplaces part found.substrings.length) :=
    fun _ _ _ => PieceReplaces.eq
  cases hunique.forall₂ hreplaced hreplaced'
  rfl

/-- So do the steps taken to their end. -/
theorem GreedyResult.eq {start found other : Repeats} (h : GreedyResult minLength start found)
    (h' : GreedyResult minLength start other) : found = other := by
  obtain ⟨hrun, hend⟩ := h
  obtain ⟨hrun', hend'⟩ := h'
  -- the runs go through the same states, and neither ends where the other goes on
  induction hrun using Relation.ReflTransGen.head_induction_on with
  | refl =>
    rcases hrun'.cases_head with rfl | ⟨next, hstep, -⟩
    · rfl
    · exact absurd hstep (hend next)
  | head hstep _ ih =>
    rcases hrun'.cases_head with rfl | ⟨next, hstep', hrest⟩
    · exact absurd hstep (hend' _)
    · cases hstep.eq hstep'
      exact ih hrest

/-! ## Cutting is replacing -/

theorem occurs_iff {needle text : List Char} : occurs needle text = true ↔ needle <:+: text := by
  induction text with
  | nil => simp [occurs, List.isEmpty_iff]
  | cons c rest ih =>
    rw [occurs, Bool.or_eq_true, List.isPrefixOf_iff_prefix, ih, List.infix_cons_iff]

theorem cutFrom_skip (skip : Nat) (before text : List Char) :
    cutFrom part number skip before text = cutFrom part number 0 before (text.drop skip) := by
  induction text generalizing skip with
  | nil => cases skip <;> simp [cutFrom]
  | cons c rest ih =>
    cases skip with
    | zero => rfl
    | succ skip => simpa [cutFrom] using ih skip

/-- The text behind an occurrence of a substring that is not empty. -/
theorem drop_length_pred {c : Char} {rest tail : List Char} (hpart : part ≠ [])
    (h : part ++ tail = c :: rest) : rest.drop (part.length - 1) = tail := by
  cases part with
  | nil => exact absurd rfl hpart
  | cons d part =>
    have hrest : part ++ tail = rest := (List.cons.inj h).2
    simp [← hrest]

/-- Cutting a text replaces, if no occurrence starts in the characters that were passed. -/
theorem cutFrom_replaces (hpart : part ≠ []) (before text : List Char)
    (hbefore : ∀ a b, before.reverse ++ text = a ++ part ++ b → before.length ≤ a.length) :
    Replaces part number (before.reverse ++ text) (cutFrom part number 0 before text) := by
  have hpos : 0 < part.length := List.length_pos_iff.2 hpart
  -- after an occurrence its characters are skipped, so the induction is on the length
  induction hn : text.length using Nat.strongRecOn generalizing before text with
  | ind n ih =>
    cases text with
    | nil =>
      rw [cutFrom]
      · simp only [List.append_nil] at hbefore ⊢
        apply Replaces.none
        rintro ⟨a, b, hab⟩
        have hle := hbefore a b hab.symm
        have hlength := congrArg List.length hab
        simp only [List.length_append, List.length_reverse] at hlength
        omega
    | cons c rest =>
      rw [cutFrom]
      split
      · next hprefix =>
        obtain ⟨tail, htail⟩ := List.isPrefixOf_iff_prefix.1 hprefix
        rw [cutFrom_skip, drop_length_pred hpart htail]
        apply Replaces.first
        · rw [List.append_assoc, htail]
        · rw [List.length_reverse]
          exact hbefore
        · have hlt : tail.length < n := by
            have hlength := congrArg List.length htail
            rw [List.length_append] at hlength
            omega
          simpa using ih tail.length hlt [] tail (fun a b _ => Nat.zero_le _) rfl
      · next hprefix =>
        have hlt : rest.length < n := by
          rw [← hn]
          exact Nat.lt_succ_self _
        have hpassed : (c :: before).reverse ++ rest = before.reverse ++ c :: rest := by simp
        rw [← hpassed]
        apply ih rest.length hlt (c :: before) rest ?_ rfl
        intro a b hab
        rw [hpassed] at hab
        have hle := hbefore a b hab
        -- an occurrence right here would be a prefix of the rest
        have hne : before.length ≠ a.length := by
          intro heq
          rw [List.append_assoc] at hab
          obtain ⟨-, htext⟩ := List.append_inj hab (by simpa using heq)
          exact hprefix (List.isPrefixOf_iff_prefix.2 ⟨b, htext.symm⟩)
        rw [List.length_cons]
        omega

theorem cutText_replaces (hpart : part ≠ []) (number : Nat) (text : List Char) :
    Replaces part number text (cutText part number text) :=
  cutFrom_replaces hpart [] text fun _ _ _ => Nat.zero_le _

theorem cut_replaces (hpart : part ≠ []) (number : Nat) (p : Piece) :
    PieceReplaces part number p (p.cut part number) := by
  obtain ⟨chunk, owner⟩ := p
  cases chunk with
  | literal text => exact .literal (cutText_replaces hpart number text)
  | shared n => exact .shared

theorem cuts_replace (hpart : part ≠ []) (number : Nat) (pieces : List Piece) :
    List.Forall₂ (PieceReplaces part number) pieces (pieces.map (Piece.cut part number)) := by
  induction pieces with
  | nil => exact .nil
  | cons p pieces ih => exact .cons (cut_replaces hpart number p) ih

/-- The literals of a text that is cut are parts of it. -/
theorem Replaces.literal_within {text literal : List Char} {chunks : List Chunk}
    (h : Replaces part number text chunks) (hmem : .literal literal ∈ chunks) :
    literal <:+: text := by
  induction h with
  | none _ =>
    cases mem_literalChunk hmem
    exact List.infix_rfl
  | @first text before behind chunks htext _ _ ih =>
    subst htext
    rcases List.mem_append.1 hmem with hmem | hmem
    · cases mem_literalChunk hmem
      rw [List.append_assoc]
      exact (List.prefix_append _ _).isInfix
    · have hmem : .literal literal ∈ chunks := by simpa using hmem
      exact (ih hmem).trans (List.suffix_append _ _).isInfix

theorem cutText_of_absent (hpart : part ≠ []) {text : List Char} (h : ¬ part <:+: text) :
    cutText part number text = literalChunk text :=
  (cutText_replaces hpart number text).eq (.none h)

theorem cutText_of_first (hpart : part ≠ []) {before behind : List Char}
    (hfirst : ∀ a b, before ++ part ++ behind = a ++ part ++ b → before.length ≤ a.length) :
    cutText part number (before ++ part ++ behind) =
      literalChunk before ++ .shared number :: cutText part number behind :=
  (cutText_replaces hpart number _).eq (.first rfl hfirst (cutText_replaces hpart number behind))

/-- The pieces after a cut hold no text that was not there. -/
theorem Recurs.of_cut (hpart : part ≠ []) {word behind : List Char}
    (h : Recurs (later.flatMap (Piece.cut part number)) word behind) :
    Recurs later word behind := by
  rcases h with h | ⟨q, hq, text, htext, h⟩
  · exact .inl h
  · obtain ⟨p, hp, hqp⟩ := List.mem_flatMap.1 hq
    obtain ⟨chunk, owner⟩ := p
    cases chunk with
    | shared n =>
      cases List.mem_singleton.1 hqp
      cases htext
    | literal whole =>
      obtain ⟨chunk, hchunk, rfl⟩ := List.mem_map.1 hqp
      cases htext
      exact .inr ⟨_, hp, whole, rfl,
        h.trans ((cutText_replaces hpart number whole).literal_within hchunk)⟩

theorem Recurs.append {word behind : List Char} (h : Recurs later word behind)
    (others : List Piece) : Recurs (others ++ later) word behind := by
  rcases h with h | ⟨q, hq, text, htext, h⟩
  · exact .inl h
  · exact .inr ⟨q, List.mem_append_right _ hq, text, htext, h⟩

/-! ## What the search finds -/

theorem repeats_iff {text : List Char} {length : Nat} :
    repeats later text length = true ↔ Recurs later (text.take length) (text.drop length) := by
  unfold repeats Recurs
  simp only [Bool.or_eq_true, List.any_eq_true, occurs_iff]
  apply or_congr Iff.rfl
  apply exists_congr
  intro q
  apply and_congr_right
  intro _
  unfold Piece.has
  cases q.chunk with
  | literal other => simp [occurs_iff]
  | shared n => simp

/-- The first characters of a text, as many as the length says, occur again. -/
def Grows (later : List Piece) (text : List Char) (length : Nat) : Prop :=
  length ≤ text.length ∧ Recurs later (text.take length) (text.drop length)

theorem grows_append {word behind : List Char} (h : Recurs later word behind) :
    Grows later (word ++ behind) word.length := by
  refine ⟨?_, ?_⟩
  · rw [List.length_append]
    exact Nat.le_add_right _ _
  · rw [List.take_left, List.drop_left]
    exact h

theorem Grows.mono {text : List Char} {m n : Nat} (h : Grows later text n) (hmn : m ≤ n) :
    Grows later text m := by
  obtain ⟨hlength, hrecurs⟩ := h
  refine ⟨Nat.le_trans hmn hlength, hrecurs.mono ?_ ?_⟩
  · exact (List.take_prefix_take_left hmn).isInfix
  · exact (List.drop_suffix_drop_left text hmn).isInfix

/-- A word that occurs again splits the text that it stands in. -/
theorem RepeatsAt.grows {start : Nat} {p : Piece} {word text : List Char}
    (h : RepeatsAt (done ++ p :: later) done.length start word) (hp : p.chunk = .literal text) :
    ∃ before behind, text = before ++ (word ++ behind) ∧ before.length = start ∧
      Grows later (word ++ behind) word.length := by
  obtain ⟨earlier, q, rest, before, behind, hpieces, hi, hq, hstart, hrecurs⟩ := h
  obtain ⟨-, hrest⟩ := List.append_inj hpieces hi.symm
  cases hrest
  refine ⟨before, behind, ?_, hstart, grows_append hrecurs⟩
  rw [← List.append_assoc]
  exact Chunk.literal.inj (hp.symm.trans hq)

/-- Growing stops at the first length that does not occur again. -/
theorem growRepeat_spec (later : List Piece) {text : List Char} {fuel length : Nat}
    (hfuel : text.length < length + fuel) :
    length ≤ growRepeat later text fuel length ∧
      (∀ n, length ≤ n → n < growRepeat later text fuel length → Grows later text n) ∧
      ¬ Grows later text (growRepeat later text fuel length) := by
  induction fuel generalizing length with
  | zero =>
    refine ⟨Nat.le_refl _, ?_, ?_⟩
    · intro n hn hlt
      exact absurd hlt (Nat.not_lt.2 hn)
    · intro hgrows
      exact absurd hgrows.1 (Nat.not_le.2 hfuel)
  | succ fuel ih =>
    have hgrows : (length ≤ text.length && repeats later text length) = true ↔
        Grows later text length := by
      rw [Bool.and_eq_true, decide_eq_true_iff, repeats_iff]
      rfl
    rw [growRepeat]
    split
    · next hyes =>
      obtain ⟨hle, hall, hstop⟩ := @ih (length + 1) (by omega)
      refine ⟨by omega, ?_, hstop⟩
      intro n hn hlt
      rcases Nat.eq_or_lt_of_le hn with rfl | hn
      · exact hgrows.1 hyes
      · exact hall n hn hlt
    · next hno =>
      refine ⟨Nat.le_refl _, ?_, fun h => hno (hgrows.2 h)⟩
      intro n hn hlt
      exact absurd hlt (Nat.not_lt.2 hn)

/-- Nothing is found at the start of a text exactly if the shortest length does not occur again. -/
theorem repeatLength?_eq_none {text : List Char} :
    repeatLength? later minLength text = none ↔ ¬ Grows later text minLength := by
  have hfuel : text.length < minLength + (text.length + 1) := by omega
  obtain ⟨hle, hall, hstop⟩ := growRepeat_spec later hfuel
  unfold repeatLength?
  simp only
  split
  · next hlt => simpa using hall minLength (Nat.le_refl _) hlt
  · next hge =>
    rw [show growRepeat later text (text.length + 1) minLength = minLength by omega] at hstop
    simpa using hstop

/-- The length that is found is the greatest. -/
theorem repeatLength?_eq_some {text : List Char} {length : Nat}
    (h : repeatLength? later minLength text = some length) :
    minLength ≤ length ∧ Grows later text length ∧ ∀ n, Grows later text n → n ≤ length := by
  have hfuel : text.length < minLength + (text.length + 1) := by omega
  obtain ⟨hle, hall, hstop⟩ := growRepeat_spec later hfuel
  unfold repeatLength? at h
  simp only at h
  split at h
  · next hlt =>
    cases h
    refine ⟨by omega, hall _ (by omega) (by omega), ?_⟩
    intro n hn
    -- all that is longer than a length that does not occur again does not either
    by_contra hgt
    exact hstop (hn.mono (by omega))
  · cases h

theorem firstRepeat?_eq_none (hmin : 0 < minLength) {start : Nat} {text : List Char} :
    firstRepeat? later minLength start text = none ↔
      ∀ before behind, text = before ++ behind → ¬ Grows later behind minLength := by
  induction text generalizing start with
  | nil =>
    refine ⟨?_, fun _ => rfl⟩
    intro _ before behind htext hgrows
    obtain ⟨rfl, rfl⟩ := List.append_eq_nil_iff.1 htext.symm
    exact absurd hgrows.1 (Nat.not_le.2 hmin)
  | cons c rest ih =>
    rw [firstRepeat?]
    cases hlength : repeatLength? later minLength (c :: rest) with
    | some length =>
      obtain ⟨hle, hgrows, -⟩ := repeatLength?_eq_some hlength
      refine ⟨fun h => ?_, fun h => absurd (hgrows.mono hle) (h [] _ rfl)⟩
      cases h
    | none =>
      have hhere := repeatLength?_eq_none.1 hlength
      simp only
      rw [ih]
      constructor
      · intro h before behind htext
        cases before with
        | nil =>
          cases htext
          exact hhere
        | cons d before =>
          cases htext
          exact h before behind rfl
      · intro h before behind htext
        subst htext
        exact h (c :: before) behind rfl

/-- The repeat that is found is the longest at the first place that has one. -/
theorem firstRepeat?_eq_some {start place length : Nat} {text : List Char}
    (h : firstRepeat? later minLength start text = some (place, length)) :
    ∃ before behind, text = before ++ behind ∧ place = start + before.length ∧
      minLength ≤ length ∧ Grows later behind length ∧
      (∀ n, Grows later behind n → n ≤ length) ∧
      ∀ a b, text = a ++ b → Grows later b minLength → before.length ≤ a.length := by
  induction text generalizing start with
  | nil => cases h
  | cons c rest ih =>
    rw [firstRepeat?] at h
    cases hlength : repeatLength? later minLength (c :: rest) with
    | some found =>
      simp only [hlength] at h
      cases h
      obtain ⟨hle, hgrows, hmax⟩ := repeatLength?_eq_some hlength
      exact ⟨[], c :: rest, rfl, rfl, hle, hgrows, hmax, fun _ _ _ _ => Nat.zero_le _⟩
    | none =>
      simp only [hlength] at h
      obtain ⟨before, behind, rfl, rfl, hle, hgrows, hmax, hfirst⟩ := ih h
      refine ⟨c :: before, behind, rfl, ?_, hle, hgrows, hmax, ?_⟩
      · rw [List.length_cons]
        omega
      · intro a b htext hb
        cases a with
        | nil =>
          cases htext
          exact absurd hb (repeatLength?_eq_none.1 hlength)
        | cons d a =>
          exact Nat.succ_le_succ (hfirst a b (List.cons.inj htext).2 hb)

/-! ## The invariant of the search -/

/-- No word of `minLength` characters in a piece occurs again. -/
def QuietAt (minLength : Nat) (p : Piece) (later : List Piece) : Prop :=
  ∀ before word behind, p.chunk = .literal (before ++ word ++ behind) →
    word.length = minLength → ¬ Recurs later word behind

/-- No repeat starts in the pieces of `done`, which are followed by those of `todo`. -/
def Quiet (minLength : Nat) : (done todo : List Piece) → Prop
  | [], _ => True
  | p :: done, todo => QuietAt minLength p (done ++ todo) ∧ Quiet minLength done todo

theorem QuietAt.mono {p : Piece} {others : List Piece} (h : QuietAt minLength p later)
    (hrecurs : ∀ word behind, Recurs others word behind → Recurs later word behind) :
    QuietAt minLength p others := by
  intro before word behind hp hlength hothers
  exact h before word behind hp hlength (hrecurs word behind hothers)

theorem quietAt_shared {p : Piece} {n : Nat} (hp : p.chunk = .shared n) :
    QuietAt minLength p later := by
  intro before word behind hliteral
  rw [hp] at hliteral
  cases hliteral

/-- A literal in which the search finds nothing is quiet. -/
theorem quietAt_of_firstRepeat? (hmin : 0 < minLength) {p : Piece} {text : List Char}
    (hp : p.chunk = .literal text) (hnone : firstRepeat? later minLength 0 text = none) :
    QuietAt minLength p later := by
  intro before word behind hchunk hlength hrecurs
  rw [hp, List.append_assoc] at hchunk
  apply (firstRepeat?_eq_none hmin).1 hnone before (word ++ behind) (Chunk.literal.inj hchunk)
  rw [← hlength]
  exact grows_append hrecurs

theorem quiet_append {more : List Piece} :
    Quiet minLength (done ++ more) todo ↔
      Quiet minLength done (more ++ todo) ∧ Quiet minLength more todo := by
  induction done with
  | nil => simp [Quiet]
  | cons p done ih =>
    rw [List.cons_append, Quiet, Quiet, ih, List.append_assoc, and_assoc]

theorem quiet_snoc {p : Piece} (hdone : Quiet minLength done (p :: later))
    (hp : QuietAt minLength p later) : Quiet minLength (done ++ [p]) later :=
  quiet_append.2 ⟨hdone, hp, trivial⟩

namespace Quiet

theorem quietAt {earlier rest : List Piece} {p : Piece}
    (h : Quiet minLength (earlier ++ p :: rest) todo) : QuietAt minLength p (rest ++ todo) :=
  (quiet_append.1 h).2.1

/-- A repeat starts behind the quiet pieces. -/
theorem le_of_repeatsAt (h : Quiet minLength done todo) {i start : Nat} {word : List Char}
    (hrepeats : RepeatsAt (done ++ todo) i start word) (hlength : word.length = minLength) :
    done.length ≤ i := by
  obtain ⟨earlier, p, later, before, behind, hpieces, rfl, hp, rfl, hrecurs⟩ := hrepeats
  rcases List.append_eq_append_iff.1 hpieces with ⟨rest, rfl, -⟩ | ⟨rest, rfl, htodo⟩
  · rw [List.length_append]
    exact Nat.le_add_right _ _
  · cases rest with
    | nil => simp
    | cons q rest =>
      cases htodo
      exact absurd hrecurs (h.quietAt before word behind hp hlength)

/-- Where all is quiet, nothing occurs twice. -/
theorem not_repeatsAt (h : Quiet minLength done []) {i start : Nat} {word : List Char}
    (hlength : word.length = minLength) : ¬ RepeatsAt done i start word := by
  rintro ⟨earlier, p, later, before, behind, rfl, -, hp, -, hrecurs⟩
  have hpiece := h.quietAt before word behind hp hlength
  rw [List.append_nil] at hpiece
  exact hpiece hrecurs

/-- What is long enough and occurs later does not occur in a quiet piece. -/
theorem not_within (h : Quiet minLength done todo) (hlong : minLength ≤ part.length)
    (htodo : Recurs todo part []) {p : Piece} (hp : p ∈ done) {text : List Char}
    (htext : p.chunk = .literal text) : ¬ part <:+: text := by
  rintro ⟨before, behind, rfl⟩
  obtain ⟨earlier, rest, rfl⟩ := List.append_of_mem hp
  -- the beginning of the occurrence is a word that occurs again
  have hsplit : before ++ part ++ behind =
      before ++ part.take minLength ++ (part.drop minLength ++ behind) := by
    rw [List.append_assoc, List.append_assoc, ← List.append_assoc (part.take minLength),
      List.take_append_drop]
  rw [hsplit] at htext
  apply h.quietAt before _ _ htext
  · exact List.length_take_of_le hlong
  · apply (htodo.append rest).mono
    · exact (List.take_prefix _ _).isInfix
    · exact (List.nil_prefix).isInfix

/-- Quiet pieces stay quiet when what does not occur in them is cut out of all pieces. -/
theorem cut (h : Quiet minLength done todo) (hpart : part ≠ []) (number : Nat)
    (hnone : ∀ p ∈ done, ∀ text, p.chunk = .literal text → ¬ part <:+: text) :
    Quiet minLength (done.flatMap (Piece.cut part number))
      (todo.flatMap (Piece.cut part number)) := by
  induction done with
  | nil => trivial
  | cons p done ih =>
    obtain ⟨hp, hdone⟩ := h
    have hrest := ih hdone fun q hq => hnone q (List.mem_cons_of_mem _ hq)
    have hquiet : QuietAt minLength p (done.flatMap (Piece.cut part number) ++
        todo.flatMap (Piece.cut part number)) := by
      apply hp.mono
      intro word behind hrecurs
      rw [← List.flatMap_append] at hrecurs
      exact hrecurs.of_cut hpart
    rw [List.flatMap_cons]
    obtain ⟨chunk, owner⟩ := p
    cases chunk with
    | shared n => exact ⟨hquiet, hrest⟩
    | literal text =>
      have hcut : Piece.cut part number ⟨.literal text, owner⟩ =
          (literalChunk text).map fun chunk => ⟨chunk, owner⟩ := by
        simp only [Piece.cut]
        rw [cutText_of_absent hpart (hnone _ List.mem_cons_self text rfl)]
      rw [hcut]
      unfold literalChunk
      -- an empty text is dropped
      split
      · exact hrest
      · exact ⟨hquiet, hrest⟩

end Quiet

/-! ## One step of the search -/

/-- A literal with a repeat, as the search takes it apart. -/
structure Hit (minLength : Nat) (later : List Piece) (before part behind : List Char) : Prop where
  long : minLength ≤ part.length
  recurs : Recurs later part behind
  longest : ∀ n, Grows later (part ++ behind) n → n ≤ part.length
  first : ∀ a b, before ++ part ++ behind = a ++ b → Grows later b minLength →
    before.length ≤ a.length

theorem firstRepeat?_hit {text : List Char} {place length : Nat}
    (h : firstRepeat? later minLength 0 text = some (place, length)) :
    ∃ before behind, text = before ++ (text.drop place).take length ++ behind ∧
      place = before.length ∧ Hit minLength later before ((text.drop place).take length) behind := by
  obtain ⟨before, rest, rfl, hplace, hle, ⟨hlength, hrecurs⟩, hmax, hfirst⟩ :=
    firstRepeat?_eq_some h
  rw [Nat.zero_add] at hplace
  subst hplace
  have hsplit : before ++ rest.take length ++ rest.drop length = before ++ rest := by
    rw [List.append_assoc, List.take_append_drop]
  have hpart : (rest.take length).length = length :=
    List.length_take_of_le hlength
  rw [List.drop_left]
  refine ⟨before, rest.drop length, hsplit.symm, rfl, ?_, hrecurs, ?_, ?_⟩
  · rw [hpart]
    exact hle
  · rw [hpart, List.take_append_drop]
    exact hmax
  · rw [hsplit]
    exact hfirst

namespace Hit

variable {before behind : List Char}

/-- The word that the search takes out is the one that the plain procedure chooses. -/
theorem chosen {p : Piece} (h : Hit minLength later before part behind)
    (hp : p.chunk = .literal (before ++ part ++ behind))
    (hquiet : Quiet minLength done (p :: later)) :
    Chosen minLength (done ++ p :: later) done.length before.length part where
  repeats := ⟨done, p, later, before, behind, rfl, rfl, hp, rfl, h.recurs⟩
  long := h.long
  first := by
    intro j place word hword hlength
    -- no repeat starts in an earlier piece, and none starts earlier in this one
    rcases Nat.eq_or_lt_of_le (hquiet.le_of_repeatsAt hword hlength) with rfl | hlt
    · obtain ⟨a, b, htext, rfl, hgrows⟩ := hword.grows hp
      rw [hlength] at hgrows
      exact .inr ⟨rfl, h.first a (word ++ b) htext hgrows⟩
    · exact .inl hlt
  longest := by
    intro word hword
    obtain ⟨a, b, htext, ha, hgrows⟩ := hword.grows hp
    rw [List.append_assoc] at htext
    obtain ⟨-, hrest⟩ := List.append_inj htext ha.symm
    apply h.longest
    rw [hrest]
    exact hgrows

/-- The word does not occur earlier in its literal: the earlier occurrence would be a repeat. -/
theorem first_occurrence (h : Hit minLength later before part behind) (a b : List Char)
    (hab : before ++ part ++ behind = a ++ part ++ b) : before.length ≤ a.length := by
  by_contra hlt
  apply hlt
  rw [List.append_assoc] at hab
  apply h.first a (part ++ b) (by rw [List.append_assoc, hab, List.append_assoc])
  -- what follows the later occurrence follows the earlier one too
  have hsuffix : behind <:+ b := by
    have hlength := congrArg List.length hab
    simp only [List.length_append] at hlength
    have hbehind : behind <:+ a ++ part ++ b := by
      rw [← hab, ← List.append_assoc]
      exact List.suffix_append _ _
    exact List.suffix_of_suffix_length_le hbehind (List.suffix_append _ _) (by omega)
  exact (grows_append (h.recurs.mono List.infix_rfl hsuffix.isInfix)).mono h.long

theorem cut_eq (h : Hit minLength later before part behind) (hpart : part ≠ []) {p : Piece}
    (hp : p.chunk = .literal (before ++ part ++ behind)) (number : Nat) :
    p.cut part number =
      ((literalChunk before).map fun chunk => ⟨chunk, p.owner⟩) ++ ⟨.shared number, p.owner⟩ ::
        Piece.cut part number ⟨.literal behind, p.owner⟩ := by
  unfold Piece.cut
  rw [hp]
  simp only
  rw [cutText_of_first hpart h.first_occurrence, List.map_append, List.map_cons]

/-- What the search leaves behind in the literal is its text before the repeat and a reference. -/
theorem cut_settled (h : Hit minLength later before part behind) (hpart : part ≠ []) {p : Piece}
    (hp : p.chunk = .literal (before ++ part ++ behind)) (number : Nat) :
    (p.cut part number).take (if before.length > 0 then 2 else 1) =
        ((literalChunk before).map fun chunk => ⟨chunk, p.owner⟩) ++
          [⟨.shared number, p.owner⟩] ∧
      (p.cut part number).drop (if before.length > 0 then 2 else 1) =
        Piece.cut part number ⟨.literal behind, p.owner⟩ := by
  rw [h.cut_eq hpart hp number]
  cases before with
  | nil => exact ⟨rfl, rfl⟩
  | cons c before => exact ⟨rfl, rfl⟩

/-- The text before the repeat is quiet: a word that occurs again there would have been first. -/
theorem quiet_before (h : Hit minLength later before part behind) (hmin : 0 < minLength)
    (hpart : part ≠ []) (owner number : Nat) :
    QuietAt minLength ⟨.literal before, owner⟩ (⟨.shared number, owner⟩ ::
      List.flatMap (Piece.cut part number) (⟨.literal behind, owner⟩ :: later)) := by
  rintro a word b hbefore hlength hrecurs
  cases hbefore
  -- wherever the word occurs again after the cut, it did so before, behind its first occurrence
  have hgrows : Grows later (word ++ (b ++ part ++ behind)) minLength := by
    rw [← hlength]
    apply grows_append
    rcases hrecurs with hrecurs | ⟨q, hq, text, htext, hword⟩
    · refine .inl (hrecurs.trans ?_)
      rw [List.append_assoc]
      exact (List.prefix_append _ _).isInfix
    · rcases List.mem_cons.1 hq with rfl | hq
      · cases htext
      · rcases Recurs.of_cut hpart (.inr ⟨q, hq, text, htext, hword⟩ :
          Recurs _ word []) with hnil | ⟨q, hq, text, htext, hword⟩
        · exact .inl (hnil.trans List.nil_infix)
        · rcases List.mem_cons.1 hq with rfl | hq
          · cases htext
            exact .inl (hword.trans (List.suffix_append _ _).isInfix)
          · exact .inr ⟨q, hq, text, htext, hword⟩
  have hle := h.first a (word ++ (b ++ part ++ behind)) (by simp) hgrows
  simp only [List.length_append] at hle
  omega

/-- One step keeps what is behind the search quiet. -/
theorem quiet {p : Piece} (h : Hit minLength later before part behind) (hmin : 0 < minLength)
    (hpart : part ≠ []) (hp : p.chunk = .literal (before ++ part ++ behind))
    (hquiet : Quiet minLength done (p :: later)) (number : Nat) :
    Quiet minLength
      (done.flatMap (Piece.cut part number) ++
        (((literalChunk before).map fun chunk => ⟨chunk, p.owner⟩) ++
          [⟨.shared number, p.owner⟩]))
      (List.flatMap (Piece.cut part number) (⟨.literal behind, p.owner⟩ :: later)) := by
  have hfound : Recurs (p :: later) part [] :=
    .inr ⟨p, List.mem_cons_self, _, hp, before, behind, rfl⟩
  have hdone := hquiet.cut hpart number fun q hq text =>
    hquiet.not_within h.long hfound hq
  rw [List.flatMap_cons, h.cut_eq hpart hp number] at hdone
  rw [quiet_append]
  constructor
  · simpa [List.append_assoc] using hdone
  · apply quiet_snoc
    · have hbefore := h.quiet_before hmin hpart p.owner number
      unfold literalChunk
      split
      · trivial
      · exact ⟨hbefore, trivial⟩
    · exact quietAt_shared rfl

end Hit

/-! ## The whole search -/

theorem not_greedyStep_of_quiet (h : Quiet minLength done []) (substrings : List (List Char))
    (next : Repeats) : ¬ GreedyStep minLength ⟨done, substrings⟩ next := by
  rintro ⟨i, start, part, replaced, hchosen, -, -⟩
  have hword : (part.take minLength).length = minLength :=
    List.length_take_of_le hchosen.long
  exact h.not_repeatsAt hword (hchosen.repeats.take minLength)

/-- A run of the search is a run of greedy steps, up to where there is none left. -/
theorem factorFrom_greedy (hmin : 0 < minLength) {fuel : Nat} {substrings : List (List Char)}
    (hweight : weight todo ≤ fuel) (hquiet : Quiet minLength done todo) :
    GreedyResult minLength ⟨done ++ todo, substrings⟩
      (factorFrom minLength fuel done todo substrings) := by
  fun_induction factorFrom minLength fuel done todo substrings with
  | case1 done todo substrings =>
    cases todo with
    | nil =>
      rw [List.append_nil]
      exact ⟨.refl, not_greedyStep_of_quiet hquiet substrings⟩
    | cons p later =>
      have hpos := p.weight_pos
      rw [weight_cons] at hweight
      omega
  | case2 fuel done substrings =>
    -- the search has come to its end, and all is quiet
    rw [List.append_nil]
    exact ⟨.refl, not_greedyStep_of_quiet hquiet substrings⟩
  | case3 fuel done p later substrings number hp ih =>
    have hpos := p.weight_pos
    rw [weight_cons] at hweight
    have hrest := ih (by omega) (quiet_snoc hquiet (quietAt_shared hp))
    rwa [List.append_assoc] at hrest
  | case4 fuel done p later substrings text hp hnone ih =>
    have hpos := p.weight_pos
    rw [weight_cons] at hweight
    have hpiece := quietAt_of_firstRepeat? hmin hp hnone
    have hrest := ih (by omega) (quiet_snoc hquiet hpiece)
    rwa [List.append_assoc] at hrest
  | case5 fuel done p later substrings text hp place length hfound part cut settled ih =>
    have hpart : part ≠ [] := firstRepeat?_ne_nil hmin hfound
    obtain ⟨before, behind, htext, rfl, hhit⟩ := firstRepeat?_hit hfound
    have hchunk : p.chunk = .literal (before ++ part ++ behind) := hp.trans (by rw [← htext])
    obtain ⟨htake, hdrop⟩ := hhit.cut_settled hpart hchunk substrings.length
    have htodo : (cut p).drop settled ++ later.flatMap cut =
        List.flatMap cut (⟨.literal behind, p.owner⟩ :: later) := by
      rw [List.flatMap_cons, hdrop]
    have hall : done.flatMap cut ++ (cut p).take settled ++
        ((cut p).drop settled ++ later.flatMap cut) =
          ((done ++ p :: later).map cut).flatten := by
      rw [List.append_assoc, ← List.append_assoc ((cut p).take settled), List.take_append_drop,
        ← List.flatMap_cons, ← List.flatMap_append, List.flatMap_def]
    have hstep : GreedyStep minLength ⟨done ++ p :: later, substrings⟩
        ⟨done.flatMap cut ++ (cut p).take settled ++
          ((cut p).drop settled ++ later.flatMap cut), substrings ++ [part]⟩ := by
      refine ⟨_, _, part, _, hhit.chosen hchunk hquiet,
        cuts_replace hpart substrings.length (done ++ p :: later), ?_⟩
      rw [hall]
    -- what is left to look at is shorter by what was taken out
    have hless : weight ((cut p).drop settled ++ later.flatMap cut) ≤ fuel := by
      have hcut := weight_flatMap_cut part substrings.length (⟨.literal behind, p.owner⟩ :: later)
      rw [htodo]
      refine Nat.le_trans hcut ?_
      have hlong : 0 < part.length := List.length_pos_iff.2 hpart
      simp only [weight_cons, Piece.weight, hchunk, List.length_append] at hweight ⊢
      omega
    -- the search resumes behind the reference, and all before that stays quiet
    have hnext : Quiet minLength (done.flatMap cut ++ (cut p).take settled)
        ((cut p).drop settled ++ later.flatMap cut) := by
      rw [htodo, htake]
      exact hhit.quiet hmin hpart hchunk hquiet substrings.length
    obtain ⟨hrun, hend⟩ := ih hless hnext
    exact ⟨.head hstep hrun, hend⟩

/-- The search comes to its end by itself, with what the plain greedy procedure ends with. -/
theorem findRepeats_greedy (texts : List (List Char)) (minLength : Nat) :
    (∀ more, factorFrom (max minLength 1) (enoughSteps texts + more) [] (initialPieces texts) [] =
      findRepeats texts minLength) ∧
    ∀ found, GreedyResult (max minLength 1) ⟨initialPieces texts, []⟩ found ↔
      found = findRepeats texts minLength := by
  have hmin : 0 < max minLength 1 := Nat.lt_of_lt_of_le Nat.zero_lt_one (Nat.le_max_right _ _)
  have henough : weight (initialPieces texts) ≤ enoughSteps texts := by
    rw [weight_initialPieces]
    exact Nat.le_succ _
  have hresult : GreedyResult (max minLength 1) ⟨initialPieces texts, []⟩
      (findRepeats texts minLength) := by
    have hnone : Quiet (max minLength 1) [] (initialPieces texts) := trivial
    exact factorFrom_greedy hmin henough hnone
  refine ⟨factorFrom_add hmin henough [], ?_⟩
  intro found
  constructor
  · intro h
    exact h.eq hresult
  · rintro rfl
    exact hresult

end Factor
end Stencil
