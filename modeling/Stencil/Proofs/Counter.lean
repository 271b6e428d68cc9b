import Mathlib.Data.List.Dedup
import Mathlib.Data.List.Nodup
import Mathlib.Data.List.Perm.Subperm
import Mathlib.Data.Nat.Find
import Stencil.Proofs.Name

/-!
# Counted names

Names that are taken are passed by in the order of their numeric suffixes: `Item`, `Item2`,
`Item3`.

* `incrementName_counted` : the suffix counts up, modulo `2 ^ 64`;
* `exists_freshName`      : the search finds a name as long as the names along it differ;
* `exists_fresh_counted`, `exists_freshName_of_lt` : they do, for up to `2 ^ 64` taken names.
-/

namespace Stencil
namespace Name

open Text

/-! ## Digits -/

theorem toNat_lt_of_isDigit {c : Char} (h : c.isDigit = true) : c.toNat < 128 := by
  simp only [Char.isDigit, Bool.and_eq_true, decide_eq_true_eq] at h
  have hle : c.toNat ≤ 57 := h.2
  omega

theorem isDecimalDigit_of_isDigit {c : Char} (h : c.isDigit = true) : isDecimalDigit c = true := by
  simp [isDecimalDigit, toNat_lt_of_isDigit h, h]

theorem isWord_of_isDigit {c : Char} (h : c.isDigit = true) : isWord c = true := by
  simp [isWord, toNat_lt_of_isDigit h, Char.isAlphanum, h]

theorem isDigit_repr (n : Nat) : ∀ c ∈ (Nat.repr n).toList, c.isDigit = true := by
  intro c hc
  rw [Nat.toList_repr] at hc
  exact Nat.isDigit_of_mem_toDigits (by decide) (by decide) hc

theorem decimalValue_repr (n : Nat) : decimalValue (Nat.repr n).toList = n := by
  rw [Nat.toList_repr]
  exact Nat.ofDigitChars_ten_toDigits

theorem repr_toList_ne_nil (n : Nat) : (Nat.repr n).toList ≠ [] := by
  rw [Nat.toList_repr]
  exact Nat.toDigits_ne_nil

/-- Digits are read for the number that they denote, if it is below the bound. -/
theorem readUnsigned_digits {digits : List Char} (hne : digits ≠ [])
    (hdigits : ∀ c ∈ digits, c.isDigit = true) (bound : Nat) :
    readUnsigned bound digits =
      if decimalValue digits < bound then some (decimalValue digits) else none := by
  have hread : readDigits bound digits =
      if decimalValue digits < bound then some (decimalValue digits) else none := by
    unfold readDigits
    rw [List.all_eq_true.2 hdigits, List.isEmpty_eq_false_iff.2 hne]
    rfl
  unfold readUnsigned
  split
  · -- a plus sign is no digit
    exact absurd (hdigits '+' List.mem_cons_self) (by decide)
  · exact hread

theorem readUnsigned_repr {n bound : Nat} (h : n < bound) :
    readUnsigned bound (Nat.repr n).toList = some n := by
  rw [readUnsigned_digits (repr_toList_ne_nil n) (isDigit_repr n), decimalValue_repr, if_pos h]

theorem counter_repr {n : Nat} (h : n < bound64) : counter (Nat.repr n).toList = n := by
  unfold counter
  rw [readUnsigned_repr h]
  rfl

/-! ## Counting up -/

/-- A base that a counter can be written behind: word characters, of which the last is no digit. -/
structure Countable (base : List Char) : Prop where
  nonempty : base ≠ []
  words : ∀ c ∈ base, isWord c = true
  last : ∀ last ∈ base.getLast?, isDecimalDigit last = false

/-- The suffix of a name is what is written behind its base. -/
theorem digitSuffix_append {before digits : List Char}
    (hbefore : ∀ last ∈ before.getLast?, isDecimalDigit last = false)
    (hdigits : ∀ c ∈ digits, c.isDigit = true) : digitSuffix (before ++ digits) = digits := by
  have hreverse : ∀ c ∈ digits.reverse, isDecimalDigit c = true := by
    intro c hc
    exact isDecimalDigit_of_isDigit (hdigits c (List.mem_reverse.1 hc))
  have hnone : before.reverse.takeWhile isDecimalDigit = [] := by
    cases hlast : before.reverse with
    | nil => rfl
    | cons last rest =>
      have hmem : last ∈ before.getLast? := by
        rw [List.getLast?_eq_head?_reverse, hlast]
        rfl
      rw [List.takeWhile_cons, hbefore last hmem]
      rfl
  unfold digitSuffix
  rw [List.reverse_append, List.takeWhile_append_of_pos hreverse, hnone, List.append_nil,
    List.reverse_reverse]

/-- A base that a name is split from again when a number is written behind it. -/
def Splits (base : List Char) : Prop :=
  ∀ digits, (∀ c ∈ digits, c.isDigit = true) → splitCounter (base ++ digits) = some (base, digits)

/-- The first character is no part of the suffix, even where it is the last of the base. -/
theorem Splits.of_words {first : Char} {rest : List Char}
    (hwords : ∀ c ∈ first :: rest, isWord c = true)
    (hlast : ∀ last ∈ rest.getLast?, isDecimalDigit last = false) : Splits (first :: rest) := by
  intro digits hdigits
  have hall : (first :: (rest ++ digits)).all isWord = true := by
    rw [List.all_eq_true, ← List.cons_append]
    intro c hc
    obtain hc | hc := List.mem_append.1 hc
    · exact hwords c hc
    · exact isWord_of_isDigit (hdigits c hc)
  rw [List.cons_append]
  unfold splitCounter
  simp only [hall, if_true, digitSuffix_append hlast hdigits, List.length_append,
    Nat.add_sub_cancel, List.take_left']

theorem Countable.splits {base : List Char} (hbase : Countable base) : Splits base := by
  cases base with
  | nil => exact absurd rfl hbase.nonempty
  | cons first rest =>
    refine .of_words hbase.words ?_
    intro last hlast
    refine hbase.last last ?_
    cases rest with
    | nil => cases hlast
    | cons c rest => rw [List.getLast?_cons_cons]; exact hlast

/-- What stands before the suffix of a text. -/
theorem take_append_digitSuffix (cs : List Char) :
    cs.take (cs.length - (digitSuffix cs).length) ++ digitSuffix cs = cs ∧
      ∀ last ∈ (cs.take (cs.length - (digitSuffix cs).length)).getLast?,
        isDecimalDigit last = false := by
  obtain ⟨before, hbefore⟩ : ∃ before, before = (cs.reverse.dropWhile isDecimalDigit).reverse :=
    ⟨_, rfl⟩
  have hcs : before ++ digitSuffix cs = cs := by
    unfold digitSuffix
    rw [hbefore, ← List.reverse_append, List.takeWhile_append_dropWhile, List.reverse_reverse]
  have hlength := congrArg List.length hcs
  rw [List.length_append] at hlength
  have htake : cs.take (cs.length - (digitSuffix cs).length) = before := by
    rw [← hlength, Nat.add_sub_cancel]
    exact (List.prefix_iff_eq_take.1 ⟨_, hcs⟩).symm
  rw [htake]
  refine ⟨hcs, ?_⟩
  intro last hlast
  rw [hbefore, List.getLast?_reverse] at hlast
  have hnot := List.head?_dropWhile_not isDecimalDigit cs.reverse
  rw [hlast] at hnot
  exact hnot

/-- The base of a name, and its digits. -/
theorem split_spec {cs base digits : List Char} (h : splitCounter cs = some (base, digits)) :
    base ++ digits = cs ∧ Splits base := by
  unfold splitCounter at h
  split at h
  · cases h
  · next first rest =>
    split at h
    · next hwords =>
      obtain ⟨happend, hlast⟩ := take_append_digitSuffix rest
      cases h
      refine ⟨by rw [List.cons_append, happend], .of_words ?_ hlast⟩
      intro c hc
      refine List.all_eq_true.1 hwords c ?_
      obtain rfl | hc := List.mem_cons.1 hc
      · exact List.mem_cons_self
      · exact List.mem_cons_of_mem _ (List.mem_of_mem_take hc)
    · cases h

/-- The suffix of a name counts up. -/
theorem incrementName_counted {name : String} {base digits : List Char}
    (h : splitCounter name.toList = some (base, digits)) :
    incrementName name = String.ofList base ++ Nat.repr ((counter digits + 1) % bound64) := by
  unfold incrementName
  rw [h]

/-- The names after one with a base are the numbers after its own. -/
theorem iterate_counted {name : String} {base digits : List Char}
    (h : splitCounter name.toList = some (base, digits)) (k : Nat) :
    incrementName^[k + 1] name =
      String.ofList base ++ Nat.repr ((counter digits + (k + 1)) % bound64) := by
  induction k with
  | zero => exact incrementName_counted h
  | succ k ih =>
    have hsplit : splitCounter (String.ofList base ++
        Nat.repr ((counter digits + (k + 1)) % bound64)).toList =
          some (base, (Nat.repr ((counter digits + (k + 1)) % bound64)).toList) := by
      rw [String.toList_append, String.toList_ofList]
      exact (split_spec h).2 _ (isDigit_repr _)
    have hlt : (counter digits + (k + 1)) % bound64 < bound64 := Nat.mod_lt _ (by decide)
    rw [Function.iterate_succ_apply', ih, incrementName_counted hsplit, counter_repr hlt,
      Nat.mod_add_mod]
    rfl

/-- The names after a base are its numbers from two on. -/
theorem iterate_incrementName {base : List Char} (hbase : Countable base) (k : Nat) :
    incrementName^[k + 1] (String.ofList base) =
      String.ofList base ++ Nat.repr ((k + 2) % bound64) := by
  have hsplit : splitCounter (String.ofList base).toList = some (base, []) := by
    have hnone := hbase.splits [] (by simp)
    rw [List.append_nil] at hnone
    rw [String.toList_ofList, hnone]
  have hstart : counter [] = 1 := by decide
  rw [iterate_counted hsplit, hstart]
  congr 3
  omega

/-! ## Searching -/

/-- Names along a search that differ and are all taken are no more than are taken. -/
theorem passed_le {taken : List String} {base : String} {k : Nat}
    (hne : ∀ i j, i < j → j < k → incrementName^[i] base ≠ incrementName^[j] base)
    (hpassed : ∀ i < k, incrementName^[i] base ∈ taken) : k ≤ taken.dedup.length := by
  have hnodup : ((List.range k).map (incrementName^[·] base)).Nodup := by
    refine List.Nodup.map_on ?_ List.nodup_range
    intro i hi j hj heq
    rcases Nat.lt_trichotomy i j with hlt | rfl | hlt
    · exact absurd heq (hne i j hlt (List.mem_range.1 hj))
    · rfl
    · exact absurd heq.symm (hne j i hlt (List.mem_range.1 hi))
  have hsub : ((List.range k).map (incrementName^[·] base)) ⊆ taken.dedup := by
    intro name hname
    obtain ⟨i, hi, rfl⟩ := List.mem_map.1 hname
    exact List.mem_dedup.2 (hpassed i (List.mem_range.1 hi))
  have hle := (List.subperm_of_subset hnodup hsub).length_le
  rwa [List.length_map, List.length_range] at hle

/-- A search ends among one name more than are taken, where these names differ. -/
theorem exists_search {taken : List String} {base : String}
    (hne : ∀ i j, i < j → j ≤ taken.dedup.length →
      incrementName^[i] base ≠ incrementName^[j] base) :
    ∃ passed fresh, Search taken base passed fresh ∧ passed.length ≤ taken.dedup.length := by
  have hfree : ∃ k ≤ taken.dedup.length, incrementName^[k] base ∉ taken := by
    by_contra hall
    have hle : taken.dedup.length + 1 ≤ taken.dedup.length := by
      refine passed_le (fun i j hij hj => hne i j hij (Nat.le_of_lt_succ hj)) ?_
      intro i hi
      by_contra hi'
      exact hall ⟨i, Nat.le_of_lt_succ hi, hi'⟩
    omega
  -- the search stops at the first of the free names
  obtain ⟨hle, hfirst⟩ := Nat.find_spec hfree
  refine ⟨_, _, .of_iterate ?_ hfirst, ?_⟩
  · intro i hi
    by_contra hi'
    exact Nat.find_min hfree hi ⟨Nat.le_trans (Nat.le_of_lt hi) hle, hi'⟩
  · rwa [List.length_map, List.length_range]

/-- There is a free name among more names than are taken. -/
theorem exists_freshName {taken : List String} {base : String}
    (hne : ∀ i j, i < j → j ≤ taken.length → incrementName^[i] base ≠ incrementName^[j] base) :
    ∃ name, freshName taken base = some name := by
  have hdedup := (List.dedup_sublist taken).length_le
  obtain ⟨passed, name, hsearch, hpassed⟩ :=
    exists_search fun i j hij hj => hne i j hij (Nat.le_trans hj hdedup)
  exact ⟨name, nextFree_eq_some_iff.2 ⟨passed, Nat.le_trans hpassed hdedup, hsearch⟩⟩

theorem append_repr_injective (base : String) {m n : Nat}
    (h : base ++ Nat.repr m = base ++ Nat.repr n) : m = n := by
  have hdigits := congrArg String.toList h
  rw [String.toList_append, String.toList_append] at hdigits
  rw [← decimalValue_repr m, List.append_cancel_left hdigits, decimalValue_repr]

/-- The search finds a name behind a base unless there are more than `2 ^ 64` names. -/
theorem exists_fresh_counted {base : List Char} (hbase : Countable base) {taken : List String}
    (htaken : taken.length ≤ bound64) :
    ∃ name, freshName taken (String.ofList base) = some name := by
  apply exists_freshName
  intro i j hij hj
  obtain ⟨j, rfl⟩ := Nat.exists_eq_succ_of_ne_zero (Nat.ne_zero_of_lt hij)
  rw [iterate_incrementName hbase]
  cases i with
  | zero =>
    intro heq
    have hlength := congrArg (fun s => s.toList.length) heq
    simp only [Function.iterate_zero, id_eq, String.toList_append, List.length_append] at hlength
    have hpos := List.length_pos_iff.2 (repr_toList_ne_nil ((j + 2) % bound64))
    omega
  | succ i =>
    rw [iterate_incrementName hbase]
    intro heq
    have hmod := append_repr_injective _ heq
    -- the two numbers are less than a whole turn apart
    have hdiff : (j + 2 - (i + 2)) % bound64 = 0 := Nat.sub_mod_eq_zero_of_mod_eq hmod.symm
    rw [Nat.mod_eq_of_lt (by omega)] at hdiff
    omega

/-! ## Any name -/

theorem incrementName_ne_empty (name : String) : incrementName name ≠ "" := by
  intro hempty
  have hlength := congrArg (fun s => s.toList.length) hempty
  unfold incrementName at hlength
  cases hsplit : splitCounter name.toList with
  | none => simp [hsplit] at hlength
  | some parts =>
    obtain ⟨base, digits⟩ := parts
    have hpos := List.length_pos_iff.2 (repr_toList_ne_nil ((counter digits + 1) % bound64))
    simp only [hsplit, String.toList_append, List.length_append, String.toList_empty,
      List.length_nil] at hlength
    omega

/-- Names with a base differ along less than a turn of their numbers. -/
theorem iterate_ne_of_split {name : String} {base digits : List Char}
    (h : splitCounter name.toList = some (base, digits)) {i j : Nat} (hij : i < j)
    (hj : j < bound64) : incrementName^[i] name ≠ incrementName^[j] name := by
  obtain ⟨j, rfl⟩ := Nat.exists_eq_succ_of_ne_zero (Nat.ne_zero_of_lt hij)
  rw [iterate_counted h]
  cases i with
  | zero =>
    intro heq
    -- the name itself has digits already, which would have to be those of a later number
    have hdigits := congrArg String.toList heq
    rw [Function.iterate_zero_apply, ← (split_spec h).1, String.toList_append,
      String.toList_ofList, List.append_cancel_left_eq] at hdigits
    have hcounter := congrArg counter hdigits
    rw [counter_repr (Nat.mod_lt _ (by decide))] at hcounter
    have hlt : counter digits < bound64 := hcounter ▸ Nat.mod_lt _ (by decide)
    unfold bound64 at hj hlt hcounter
    omega
  | succ i =>
    rw [iterate_counted h]
    intro heq
    have hmod := append_repr_injective _ heq
    unfold bound64 at hj hmod
    omega

/-- The names after one that is more than a word get longer and longer. -/
theorem iterate_of_not_word {name : String} (hne : name.toList ≠ [])
    (h : splitCounter name.toList = none) (k : Nat) :
    (incrementName^[k] name).toList = name.toList ++ List.replicate k '2' := by
  have hnot : ¬ name.toList.all isWord = true := by
    intro hall
    obtain ⟨c, rest, hname⟩ := List.exists_cons_of_ne_nil hne
    rw [hname] at h hall
    simp [splitCounter, hall] at h
  induction k with
  | zero => simp
  | succ k ih =>
    have hsplit : splitCounter (incrementName^[k] name).toList = none := by
      unfold splitCounter
      split
      · rfl
      · rw [if_neg]
        rw [ih, List.all_append, Bool.and_eq_true]
        exact fun hall => hnot hall.1
    rw [Function.iterate_succ_apply', incrementName, hsplit, String.toList_append, ih,
      List.append_assoc, List.replicate_succ']
    rfl

/-- The names along a search differ for less than `2 ^ 64` steps. -/
theorem iterate_incrementName_ne (name : String) {i j : Nat} (hij : i < j) (hj : j < bound64) :
    incrementName^[i] name ≠ incrementName^[j] name := by
  cases hsplit : splitCounter name.toList with
  | some parts => exact iterate_ne_of_split hsplit hij hj
  | none =>
    by_cases hne : name.toList = []
    · -- no name leads to the empty one, and the one after it is a word
      obtain rfl : name = "" := String.toList_eq_nil_iff.1 hne
      obtain ⟨j, rfl⟩ := Nat.exists_eq_succ_of_ne_zero (Nat.ne_zero_of_lt hij)
      cases i with
      | zero =>
        rw [Function.iterate_succ_apply']
        exact (incrementName_ne_empty _).symm
      | succ i =>
        have hword : splitCounter (incrementName "").toList = some (['2'], []) := by decide
        exact iterate_ne_of_split hword (by omega) (by omega)
    · intro heq
      have hlength := congrArg (fun s => s.toList.length) heq
      simp only [iterate_of_not_word hne hsplit, List.length_append, List.length_replicate]
        at hlength
      omega

/-- The search finds a name unless `2 ^ 64` are taken, whatever it begins with. -/
theorem exists_freshName_of_lt (base : String) {taken : List String}
    (htaken : taken.length < bound64) : ∃ name, freshName taken base = some name :=
  exists_freshName fun _ _ hij hj =>
    iterate_incrementName_ne base hij (Nat.lt_of_le_of_lt hj htaken)

/-- The names that the search finds behind a base. -/
theorem freshName_counted {base : List Char} (hbase : Countable base) {taken : List String}
    {fresh : String} (h : freshName taken (String.ofList base) = some fresh) :
    fresh = String.ofList base ∨ ∃ n, fresh = String.ofList base ++ Nat.repr n := by
  obtain ⟨passed, hsearch⟩ := freshName_eq_some h
  rw [hsearch.fresh_eq]
  cases passed.length with
  | zero => exact .inl rfl
  | succ k => exact .inr ⟨_, iterate_incrementName hbase k⟩

end Name
end Stencil
