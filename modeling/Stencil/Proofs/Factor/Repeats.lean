import Mathlib.Algebra.GroupWithZero.Nat
import Mathlib.Data.List.Induction
import Mathlib.Data.List.Pairwise
import Mathlib.Tactic.Common
import Stencil.Factor.Repeats

/-!
# Taking out repeats loses nothing

Each step of the search cuts one substring out of all pieces, also out of those it has passed. What
a step keeps is that the pieces of each text, put together, are that text.

This file defines:

* `Chunk.text`, `Repeats.textOf` : what a chunk stands for, and the text of an owner;
* `Divides`                      : the invariant of the pieces;
* `Piece.weight`                 : how many steps a piece can still take.

`Divides.cut` is what one step keeps and `factorFrom_divides` what a run keeps. The weight of the
pieces that are still to be looked at falls with each step, so `enoughSteps` are enough
(`factorFrom_add`).
-/

namespace Stencil
namespace Factor

/-! ## What pieces stand for -/

/-- The text that a chunk stands for. -/
def Chunk.text (substrings : List (List Char)) : Chunk → List Char
  | .literal text => text
  | .shared number => substrings.getD number []

/-- The pieces of a text, put together. -/
def Repeats.textOf (found : Repeats) (owner : Nat) : List Char :=
  (found.pieces.filter (·.owner == owner)).flatMap (·.chunk.text found.substrings)

@[simp] theorem Chunk.text_literal (substrings : List (List Char)) (text : List Char) :
    (Chunk.literal text).text substrings = text := rfl

@[simp] theorem Chunk.text_shared (substrings : List (List Char)) (number : Nat) :
    (Chunk.shared number).text substrings = substrings.getD number [] := rfl

variable {part : List Char} {number : Nat}

/-! ## Cutting -/

theorem literalChunk_text (substrings : List (List Char)) (text : List Char) :
    (literalChunk text).flatMap (Chunk.text substrings) = text := by
  unfold literalChunk
  cases text with
  | nil => rfl
  | cons c rest => simp

theorem mem_literalChunk {text : List Char} {chunk : Chunk} (h : chunk ∈ literalChunk text) :
    chunk = .literal text := by
  unfold literalChunk at h
  split at h
  · cases h
  · exact List.mem_singleton.1 h

/-- The chunks of a text that is cut stand for that text. -/
theorem cutFrom_text {substrings : List (List Char)} (hpart : part ≠ [])
    (hnumber : substrings.getD number [] = part) (skip : Nat) (before text : List Char) :
    (cutFrom part number skip before text).flatMap (Chunk.text substrings) =
      before.reverse ++ text.drop skip := by
  fun_induction cutFrom part number skip before text with
  | case1 skip before => simp [literalChunk_text]
  | case2 before skip c rest ih => simpa using ih
  | case3 before c rest hprefix ih =>
    obtain ⟨tail, htail⟩ := List.isPrefixOf_iff_prefix.1 hprefix
    -- an occurrence is not empty, so its first character is the one at hand
    have hdrop : rest.drop (part.length - 1) = tail := by
      cases part with
      | nil => exact absurd rfl hpart
      | cons d part =>
        have hrest : part ++ tail = rest := (List.cons.inj htail).2
        simp [← hrest]
    calc
      (literalChunk before.reverse ++
          .shared number :: cutFrom part number (part.length - 1) [] rest).flatMap
            (Chunk.text substrings)
          = before.reverse ++ (substrings.getD number [] ++ rest.drop (part.length - 1)) := by
            rw [List.flatMap_append, literalChunk_text, List.flatMap_cons, ih]
            rfl
      _ = before.reverse ++ (c :: rest) := by rw [hnumber, hdrop, htail]
  | case4 before c rest _ ih => simp [ih]

theorem mem_cutFrom {skip : Nat} {before text : List Char} {chunk : Chunk}
    (h : chunk ∈ cutFrom part number skip before text) :
    (∃ literal, chunk = .literal literal) ∨ chunk = .shared number := by
  fun_induction cutFrom part number skip before text with
  | case1 skip before => exact .inl ⟨_, mem_literalChunk h⟩
  | case2 before skip c rest ih => exact ih h
  | case3 before c rest _ ih =>
    rcases List.mem_append.1 h with h | h
    · exact .inl ⟨_, mem_literalChunk h⟩
    · rcases List.mem_cons.1 h with rfl | h
      · exact .inr rfl
      · exact ih h
  | case4 before c rest _ ih => exact ih h

/-- The pieces that a piece is cut into stand for the same text, by the substrings with the new
one behind them. -/
theorem Piece.cut_text {substrings : List (List Char)} (hpart : part ≠ []) (p : Piece)
    (hp : ∀ n, p.chunk = .shared n → n < substrings.length) :
    (p.cut part substrings.length).flatMap (·.chunk.text (substrings ++ [part])) =
      p.chunk.text substrings := by
  unfold Piece.cut
  cases hchunk : p.chunk with
  | literal text =>
    have hnumber : (substrings ++ [part]).getD substrings.length [] = part := by simp
    simpa [cutText, List.flatMap_map] using cutFrom_text hpart hnumber 0 [] text
  | shared n =>
    have hlt : n < substrings.length := hp n hchunk
    simp [hchunk, List.getElem?_append_left hlt]

theorem Piece.mem_cut {p q : Piece} (h : q ∈ p.cut part number) :
    q.owner = p.owner ∧ ∀ n, q.chunk = .shared n → p.chunk = .shared n ∨ n = number := by
  unfold Piece.cut at h
  split at h
  · obtain ⟨chunk, hchunk, rfl⟩ := List.mem_map.1 h
    refine ⟨rfl, ?_⟩
    intro n hn
    rcases mem_cutFrom hchunk with ⟨literal, rfl⟩ | rfl
    · cases hn
    · cases hn
      exact .inr rfl
  · cases List.mem_singleton.1 h
    exact ⟨rfl, fun n hn => .inl hn⟩

/-! ## The invariant -/

/-- The pieces of each text stand in order, refer to substrings that exist, and are that text. -/
structure Divides (texts : List (List Char)) (found : Repeats) : Prop where
  ordered : found.pieces.Pairwise fun a b => a.owner ≤ b.owner
  owner_lt : ∀ p ∈ found.pieces, p.owner < texts.length
  number_lt : ∀ p ∈ found.pieces, ∀ n, p.chunk = .shared n → n < found.substrings.length
  text_eq : ∀ k, found.textOf k = texts.getD k []

theorem initialPieces_text (texts : List (List Char)) (k : Nat) :
    Repeats.textOf ⟨initialPieces texts, []⟩ k = texts.getD k [] := by
  unfold Repeats.textOf initialPieces
  -- the induction takes texts from the end, so that the numbers of the others stay
  induction texts using List.reverseRecOn with
  | nil => simp
  | append_singleton texts text ih =>
    simp only at ih ⊢
    rw [List.mapIdx_concat, List.filter_append, List.flatMap_append, ih]
    rcases Nat.lt_trichotomy k texts.length with hlt | rfl | hgt
    · simp [Nat.ne_of_gt hlt, List.getElem?_append_left hlt]
    · simp
    · have hle : texts.length ≤ k := Nat.le_of_lt hgt
      have hle' : (texts ++ [text]).length ≤ k := by
        rw [List.length_append]
        exact hgt
      simp [Nat.ne_of_lt hgt, List.getElem?_eq_none hle, List.getElem?_eq_none hle']

theorem initialPieces_divides (texts : List (List Char)) :
    Divides texts ⟨initialPieces texts, []⟩ where
  ordered := by
    unfold initialPieces
    rw [List.pairwise_iff_getElem]
    intro i j hi hj hij
    simpa using Nat.le_of_lt hij
  owner_lt := by
    intro p hp
    obtain ⟨i, hi, rfl⟩ := List.mem_mapIdx.1 hp
    exact hi
  number_lt := by
    intro p hp n hn
    obtain ⟨i, hi, rfl⟩ := List.mem_mapIdx.1 hp
    cases hn
  text_eq := initialPieces_text texts

namespace Divides

variable {texts : List (List Char)} {pieces : List Piece} {substrings : List (List Char)}

/-- Cutting a substring out of all pieces leaves the text of each owner as it is. -/
theorem textOf_cut (hpart : part ≠ [])
    (hnumber : ∀ p ∈ pieces, ∀ n, p.chunk = .shared n → n < substrings.length) (k : Nat) :
    Repeats.textOf
        ⟨pieces.flatMap (Piece.cut part substrings.length), substrings ++ [part]⟩ k =
      Repeats.textOf ⟨pieces, substrings⟩ k := by
  unfold Repeats.textOf
  induction pieces with
  | nil => rfl
  | cons p pieces ih =>
    have hrest := ih fun q hq => hnumber q (List.mem_cons_of_mem _ hq)
    simp only at hrest ⊢
    rw [List.flatMap_cons, List.filter_append, List.flatMap_append, hrest]
    have howner : ∀ q ∈ p.cut part substrings.length, (q.owner == k) = (p.owner == k) := by
      intro q hq
      rw [(Piece.mem_cut hq).1]
    -- the pieces of `p` are kept or left out together, as `p` is
    cases hk : p.owner == k with
    | true =>
      rw [List.filter_eq_self.2 fun q hq => (howner q hq).trans hk, List.filter_cons, if_pos hk,
        List.flatMap_cons, Piece.cut_text hpart p (hnumber p List.mem_cons_self)]
    | false =>
      have hnone : (p.cut part substrings.length).filter (·.owner == k) = [] := by
        rw [List.filter_eq_nil_iff]
        intro q hq
        simp [howner q hq, hk]
      rw [hnone, List.filter_cons, if_neg (by simp [hk])]
      rfl

/-- One step: a substring is cut out of all pieces. -/
theorem cut (h : Divides texts ⟨pieces, substrings⟩) (hpart : part ≠ []) :
    Divides texts
      ⟨pieces.flatMap (Piece.cut part substrings.length), substrings ++ [part]⟩ where
  ordered := by
    rw [List.pairwise_flatMap]
    constructor
    · intro p _
      apply List.pairwise_of_forall_mem_list
      intro a ha b hb
      exact Nat.le_of_eq ((Piece.mem_cut ha).1.trans (Piece.mem_cut hb).1.symm)
    · apply h.ordered.imp
      intro p q hle a ha b hb
      rw [(Piece.mem_cut ha).1, (Piece.mem_cut hb).1]
      exact hle
  owner_lt := by
    intro q hq
    obtain ⟨p, hp, hqp⟩ := List.mem_flatMap.1 hq
    rw [(Piece.mem_cut hqp).1]
    exact h.owner_lt p hp
  number_lt := by
    intro q hq n hn
    obtain ⟨p, hp, hqp⟩ := List.mem_flatMap.1 hq
    rw [List.length_append, List.length_singleton]
    rcases (Piece.mem_cut hqp).2 n hn with hold | rfl
    · exact Nat.lt_succ_of_lt (h.number_lt p hp n hold)
    · exact Nat.lt_succ_self _
  text_eq := by
    intro k
    rw [textOf_cut hpart h.number_lt]
    exact h.text_eq k

end Divides

/-! ## The search -/

theorem repeatLength?_le {later : List Piece} {minLength length : Nat} {text : List Char}
    (h : repeatLength? later minLength text = some length) : minLength ≤ length := by
  unfold repeatLength? at h
  simp only at h
  split at h
  · next hlt =>
    cases h
    omega
  · cases h

/-- A repeat that is found starts inside the text and is not shorter than asked for. -/
theorem firstRepeat?_some {later : List Piece} {minLength start : Nat} {text : List Char}
    {place length : Nat} (h : firstRepeat? later minLength start text = some (place, length)) :
    start ≤ place ∧ place < start + text.length ∧ minLength ≤ length := by
  induction text generalizing start with
  | nil => cases h
  | cons c rest ih =>
    unfold firstRepeat? at h
    cases hlength : repeatLength? later minLength (c :: rest) with
    | some found =>
      simp only [hlength] at h
      cases h
      refine ⟨Nat.le_refl _, ?_, repeatLength?_le hlength⟩
      simp
    | none =>
      simp only [hlength] at h
      obtain ⟨hstart, hplace, hle⟩ := ih h
      rw [List.length_cons]
      omega

/-- What is taken out is not empty. -/
theorem firstRepeat?_ne_nil {later : List Piece} {minLength : Nat} (hmin : 0 < minLength)
    {text : List Char} {place length : Nat}
    (h : firstRepeat? later minLength 0 text = some (place, length)) :
    (text.drop place).take length ≠ [] := by
  obtain ⟨_, hplace, hlength⟩ := firstRepeat?_some h
  apply List.ne_nil_of_length_pos
  rw [List.length_take, List.length_drop]
  omega

/-- What a run keeps. -/
theorem factorFrom_divides {texts : List (List Char)} {minLength : Nat} (hmin : 0 < minLength)
    {fuel : Nat} {done todo : List Piece} {substrings : List (List Char)}
    (h : Divides texts ⟨done ++ todo, substrings⟩) :
    Divides texts (factorFrom minLength fuel done todo substrings) := by
  fun_induction factorFrom minLength fuel done todo substrings with
  | case1 done todo substrings => exact h
  | case2 fuel done substrings => simpa using h
  | case3 fuel done p later substrings number hp ih => exact ih (by simpa using h)
  | case4 fuel done p later substrings text hp hnone ih => exact ih (by simpa using h)
  | case5 fuel done p later substrings text hp place length hfound part cut settled ih =>
    apply ih
    -- the pieces are all cut, wherever the border between the two lists is drawn
    have hall : done.flatMap cut ++ (cut p).take settled ++
        ((cut p).drop settled ++ later.flatMap cut) = (done ++ p :: later).flatMap cut := by
      simp only [List.flatMap_append, List.flatMap_cons, List.append_assoc]
      rw [← List.append_assoc ((cut p).take settled), List.take_append_drop]
    rw [hall]
    exact h.cut (firstRepeat?_ne_nil hmin hfound)

/-! ## Steps -/

/-- How many steps a piece can take at most: a literal is cut at most at each character. -/
def Piece.weight (p : Piece) : Nat :=
  match p.chunk with
  | .literal text => 2 * text.length + 1
  | .shared _ => 1

/-- The weight of pieces together. -/
def weight (pieces : List Piece) : Nat := (pieces.map Piece.weight).sum

theorem weight_cons (p : Piece) (pieces : List Piece) :
    weight (p :: pieces) = p.weight + weight pieces := rfl

theorem weight_append (pieces others : List Piece) :
    weight (pieces ++ others) = weight pieces + weight others := by
  simp [weight]

theorem Piece.weight_pos (p : Piece) : 0 < p.weight := by
  unfold Piece.weight
  split <;> omega

theorem weight_literalChunk (text : List Char) (owner : Nat) :
    weight ((literalChunk text).map fun chunk => ⟨chunk, owner⟩) ≤ 2 * text.length + 1 := by
  unfold literalChunk
  split
  · exact Nat.zero_le _
  · exact Nat.le_refl _

/-- Cutting does not make pieces heavier: each reference takes the place of a character at least. -/
theorem weight_cutFrom (part : List Char) (number skip : Nat) (before text : List Char)
    (owner : Nat) :
    weight ((cutFrom part number skip before text).map fun chunk => ⟨chunk, owner⟩) ≤
      2 * (before.length + (text.length - skip)) + 1 := by
  fun_induction cutFrom part number skip before text with
  | case1 skip before => simpa using weight_literalChunk before.reverse owner
  | case2 before skip c rest ih => simpa using ih
  | case3 before c rest _ ih =>
    have hbefore := weight_literalChunk before.reverse owner
    have hshared : Piece.weight ⟨.shared number, owner⟩ = 1 := rfl
    rw [List.map_append, weight_append, List.map_cons, weight_cons, hshared]
    simp only [List.length_reverse, List.length_nil, List.length_cons] at hbefore ih ⊢
    omega
  | case4 before c rest _ ih =>
    simp only [List.length_cons] at ih ⊢
    omega

theorem weight_cut (part : List Char) (number : Nat) (p : Piece) :
    weight (p.cut part number) ≤ p.weight := by
  unfold Piece.cut
  cases hchunk : p.chunk with
  | literal text =>
    have hcut := weight_cutFrom part number 0 [] text p.owner
    simpa [Piece.weight, hchunk, cutText] using hcut
  | shared n => simp [weight]

theorem weight_flatMap_cut (part : List Char) (number : Nat) (pieces : List Piece) :
    weight (pieces.flatMap (Piece.cut part number)) ≤ weight pieces := by
  induction pieces with
  | nil => exact Nat.le_refl _
  | cons p pieces ih =>
    rw [List.flatMap_cons, weight_append, weight_cons]
    exact Nat.add_le_add (weight_cut part number p) ih

theorem cut_ne_nil {p : Piece} {text : List Char} (hchunk : p.chunk = .literal text)
    (htext : text ≠ []) (hpart : part ≠ []) (number : Nat) : p.cut part number ≠ [] := by
  intro hnil
  -- no pieces stand for no text
  have hnumber : (List.replicate number [] ++ [part]).getD number [] = part := by simp
  have hcut := cutFrom_text hpart hnumber 0 [] text
  unfold Piece.cut at hnil
  simp only [hchunk, List.map_eq_nil_iff] at hnil
  rw [show cutFrom part number 0 [] text = [] from hnil] at hcut
  exact htext hcut.symm

theorem weight_drop_lt {pieces : List Piece} (hne : pieces ≠ []) {k : Nat} (hk : 0 < k) :
    weight (pieces.drop k) < weight pieces := by
  obtain ⟨first, rest, rfl⟩ := List.exists_cons_of_ne_nil hne
  obtain ⟨k, rfl⟩ := Nat.exists_eq_succ_of_ne_zero (Nat.ne_of_gt hk)
  have hfirst := first.weight_pos
  have hsplit : weight rest = weight (rest.take k) + weight (rest.drop k) := by
    rw [← weight_append, List.take_append_drop]
  rw [List.drop_succ_cons, weight_cons]
  omega

/-- A run that has as many steps as its pieces weigh does not run out of them. -/
theorem factorFrom_add {minLength : Nat} (hmin : 0 < minLength) {fuel : Nat}
    {done todo : List Piece} (hweight : weight todo ≤ fuel) (substrings : List (List Char))
    (more : Nat) :
    factorFrom minLength (fuel + more) done todo substrings =
      factorFrom minLength fuel done todo substrings := by
  induction fuel generalizing done todo substrings with
  | zero =>
    cases todo with
    | nil =>
      cases more with
      | zero => rfl
      | succ more => simp [factorFrom]
    | cons p later =>
      have hpos := p.weight_pos
      rw [weight_cons] at hweight
      omega
  | succ fuel ih =>
    rw [Nat.add_right_comm]
    cases todo with
    | nil => rfl
    | cons p later =>
      have hpos := p.weight_pos
      rw [weight_cons] at hweight
      have hlater : weight later ≤ fuel := by omega
      unfold factorFrom
      cases hchunk : p.chunk with
      | shared n => exact ih hlater substrings
      | literal text =>
        cases hfound : firstRepeat? later minLength 0 text with
        | none => simpa only [hfound] using ih hlater substrings
        | some found =>
          obtain ⟨place, length⟩ := found
          simp only [hfound]
          apply ih
          have hpart := firstRepeat?_ne_nil hmin hfound
          have htext : text ≠ [] := by
            rintro rfl
            simp at hpart
          generalize (text.drop place).take length = part at hpart ⊢
          have hne := cut_ne_nil hchunk htext hpart substrings.length
          have hsettled : 0 < if place > 0 then 2 else 1 := by
            split <;> omega
          -- at least one of the pieces of `p` is left behind
          have hdrop := weight_drop_lt hne hsettled
          have hcut := weight_cut part substrings.length p
          have hflat := weight_flatMap_cut part substrings.length later
          rw [weight_append]
          omega

theorem weight_initialPieces (texts : List (List Char)) :
    weight (initialPieces texts) = texts.length + 2 * texts.flatten.length := by
  unfold initialPieces
  induction texts using List.reverseRecOn with
  | nil => rfl
  | append_singleton texts text ih =>
    rw [List.mapIdx_concat, weight_append, ih]
    have hlast : weight [⟨.literal text, texts.length⟩] = 2 * text.length + 1 := rfl
    rw [hlast]
    simp only [List.length_append, List.length_singleton, List.flatten_append, List.flatten_singleton]
    omega

/-! ## The result -/

theorem findRepeats_divides (texts : List (List Char)) (minLength : Nat) :
    Divides texts (findRepeats texts minLength) :=
  factorFrom_divides (Nat.lt_of_lt_of_le Nat.zero_lt_one (Nat.le_max_right _ _))
    (initialPieces_divides texts)

/-- The search comes to its end by itself. Its pieces stand in the order of the texts that they
belong to, each of them belongs to a text and refers to a substring that exists, and the pieces of
each text, put together, are that text. -/
theorem findRepeats_lossless (texts : List (List Char)) (minLength : Nat) :
    (∀ more, factorFrom (max minLength 1) (enoughSteps texts + more) [] (initialPieces texts) [] =
      findRepeats texts minLength) ∧
    ((findRepeats texts minLength).pieces.map (·.chunk)).length =
      ((findRepeats texts minLength).pieces.map (·.owner)).length ∧
    ((findRepeats texts minLength).pieces.map (·.owner)).Pairwise (· ≤ ·) ∧
    (∀ owner ∈ (findRepeats texts minLength).pieces.map (·.owner), owner < texts.length) ∧
    (∀ number, .shared number ∈ (findRepeats texts minLength).pieces.map (·.chunk) →
      number < (findRepeats texts minLength).substrings.length) ∧
    ∀ k (hk : k < texts.length), (findRepeats texts minLength).textOf k = texts[k] := by
  have hdivides := findRepeats_divides texts minLength
  refine ⟨?_, ?_, ?_, ?_, ?_, ?_⟩
  · intro more
    apply factorFrom_add (Nat.lt_of_lt_of_le Nat.zero_lt_one (Nat.le_max_right _ _))
    rw [weight_initialPieces]
    exact Nat.le_succ _
  · rw [List.length_map, List.length_map]
  · exact List.pairwise_map.2 hdivides.ordered
  · intro owner howner
    obtain ⟨p, hp, rfl⟩ := List.mem_map.1 howner
    exact hdivides.owner_lt p hp
  · intro number hnumber
    obtain ⟨p, hp, hchunk⟩ := List.mem_map.1 hnumber
    exact hdivides.number_lt p hp number hchunk
  · intro k hk
    simpa [hk] using hdivides.text_eq k

/-- Two texts with a common substring, which overlaps itself in the first one. -/
theorem findRepeats_lossless_overlap :
    (findRepeats ["banana".toList, "anna".toList] 2).substrings = ["an".toList] ∧
      .shared 0 ∈ (findRepeats ["banana".toList, "anna".toList] 2).pieces.map (·.chunk) ∧
      0 < (findRepeats ["banana".toList, "anna".toList] 2).substrings.length ∧
      1 ∈ (findRepeats ["banana".toList, "anna".toList] 2).pieces.map (·.owner) ∧
      (findRepeats ["banana".toList, "anna".toList] 2).textOf 1 = "anna".toList := by
  obtain ⟨_, _, _, howner, hnumber, htext⟩ :=
    findRepeats_lossless ["banana".toList, "anna".toList] 2
  have hshared : .shared 0 ∈
      (findRepeats ["banana".toList, "anna".toList] 2).pieces.map (·.chunk) := by
    decide +kernel
  have hone : 1 ∈ (findRepeats ["banana".toList, "anna".toList] 2).pieces.map (·.owner) := by
    decide +kernel
  exact ⟨by decide +kernel, hshared, hnumber 0 hshared, hone, htext 1 (howner 1 hone)⟩

end Factor
end Stencil
