import Mathlib.Tactic.Common
import Stencil.Proofs.Factor.Reading
import Stencil.Proofs.Factor.Repeats

/-!
# Sharing text keeps the template

Text is shared on a second tour, which takes the texts in the order in which they were collected on
the first one. This file defines:

* `Sharing.Sound`  : constants have the names and the values that they were made with;
* `Advances`       : what a part of the tour adds to what has been shared;
* `Place`          : where the tour stands;
* `Shares`         : the result of a part of the tour, which with its constants replaced is the
  program that it was made from, up to how text is divided.

`Tour.shares` follows the tour, with a case for each of its rules.
-/

namespace Stencil
namespace Factor

open Template (Expr Hash PathExpr Program Span Statement)

/-! ## Names of constants -/

/-- The name of a constant by the order of first use. -/
def constantKey (i : Nat) : String := "__constant" ++ Nat.repr i

theorem constantKey_injective {i j : Nat} (h : constantKey i = constantKey j) : i = j := by
  have hdigits : Nat.toDigits 10 i = Nat.toDigits 10 j := by
    simpa [constantKey] using congrArg String.toList h
  rw [← Nat.ofDigitChars_ten_toDigits (n := i), hdigits, Nat.ofDigitChars_ten_toDigits]

/-- Names with one more, which comes last if it is new. -/
def addNew (names : List String) (name : String) : List String :=
  if name ∈ names then names else names ++ [name]

/-- Names that are added one by one stand in the order of their first occurrence. -/
theorem foldl_addNew (names : List String) : names.foldl addNew [] = names.eraseDups := by
  suffices h : ∀ seen : List String, names.foldl addNew seen.reverse =
      List.eraseDupsBy.loop (· == ·) names seen from h []
  induction names with
  | nil =>
    intro seen
    rfl
  | cons name names ih =>
    intro seen
    unfold List.eraseDupsBy.loop
    by_cases hname : name ∈ seen
    · have hseen : (seen.any fun x => name == x) = true := by simpa using hname
      have hstep : addNew seen.reverse name = seen.reverse := by simp [addNew, hname]
      simp only [List.foldl_cons, hstep, hseen, ih]
    · have hseen : (seen.any fun x => name == x) = false := by
        simpa using fun x hx (heq : name = x) => hname (heq ▸ hx)
      have hstep : addNew seen.reverse name = (name :: seen).reverse := by simp [addNew, hname]
      simp only [List.foldl_cons, hstep, hseen, ih]

variable {bodies : String → Option Program} {substrings : List (List Char)}

/-- The constants in use are named by the order of their first use, and have the values of their
substrings. -/
structure Sharing.Sound (substrings : List (List Char)) (S : Sharing) : Prop where
  keys : S.constants.map (·.1) = (List.range S.constants.length).map constantKey
  named : ∀ number name, S.names.lookup number = some name →
    S.constants.lookup name = some (String.ofList (substrings.getD number []))

theorem Sharing.Sound.key_not_mem {S : Sharing} (h : S.Sound substrings) :
    constantKey S.constants.length ∉ S.constants.map (·.1) := by
  rw [h.keys]
  intro hmem
  obtain ⟨i, hi, heq⟩ := List.mem_map.1 hmem
  have hlt := List.mem_range.1 hi
  exact Nat.ne_of_lt hlt (constantKey_injective heq)

theorem lookup_of_prefix {entries more : List (String × String)} (h : entries <+: more)
    {key value : String} (hkey : entries.lookup key = some value) :
    more.lookup key = some value := by
  obtain ⟨rest, rfl⟩ := h
  rw [List.lookup_append, hkey]
  rfl

/-! ## What is added -/

/-- What a part of the tour adds: the number of its texts, the partials that it completes, with the
text that they had, and the constants that it refers to. -/
structure Advances (bodies : String → Option Program) (substrings : List (List Char))
    (S S' : Sharing) (met' : List String) (count : Nat) (done refs : List String) : Prop where
  visited : S'.visited = met'
  next : S'.next = S.next + count
  sound : S'.Sound substrings
  constants : S.constants <+: S'.constants
  keys : S'.constants.map (·.1) = refs.foldl addNew (S.constants.map (·.1))
  programs : ∃ added, S'.programs = S.programs ++ added ∧ added.map (·.1) = done ∧
    ∀ C, S'.constants <+: C → ∀ e ∈ added, ∃ body, bodies e.1 = some body ∧
      fuse (restore C e.2) = fuse body

namespace Advances

variable {S S₁ S₂ : Sharing} {met₁ met₂ : List String} {n₁ n₂ : Nat} {d₁ d₂ r₁ r₂ : List String}

theorem refl (h : S.Sound substrings) : Advances bodies substrings S S S.visited 0 [] [] where
  visited := rfl
  next := rfl
  sound := h
  constants := List.prefix_refl _
  keys := rfl
  programs := ⟨[], by simp, rfl, by simp⟩

theorem trans (h : Advances bodies substrings S S₁ met₁ n₁ d₁ r₁)
    (h' : Advances bodies substrings S₁ S₂ met₂ n₂ d₂ r₂) :
    Advances bodies substrings S S₂ met₂ (n₁ + n₂) (d₁ ++ d₂) (r₁ ++ r₂) where
  visited := h'.visited
  next := by rw [h'.next, h.next, Nat.add_assoc]
  sound := h'.sound
  constants := h.constants.trans h'.constants
  keys := by rw [h'.keys, h.keys, List.foldl_append]
  programs := by
    obtain ⟨added, hprograms, hnames, hfused⟩ := h.programs
    obtain ⟨more, hprograms', hnames', hfused'⟩ := h'.programs
    refine ⟨added ++ more, by simp [hprograms', hprograms], by simp [hnames, hnames'], ?_⟩
    intro C hC e he
    rcases List.mem_append.1 he with he | he
    · exact hfused C (h'.constants.trans hC) e he
    · exact hfused' C hC e he

theorem mem_programs (h : Advances bodies substrings S S₁ met₁ n₁ d₁ r₁) :
    ∀ e ∈ S.programs, e ∈ S₁.programs := by
  obtain ⟨added, hprograms, _, _⟩ := h.programs
  intro e he
  rw [hprograms]
  exact List.mem_append_left _ he

end Advances

/-! ## Text -/

/-- A substring gets a name when it is first needed. -/
theorem constantName_eq (substrings : List (List Char)) (number : Nat) (S : Sharing) :
    constantName substrings number S =
      match S.names.lookup number with
      | some name => (name, S)
      | none =>
        (constantKey S.constants.length,
          { S with
            names := (number, constantKey S.constants.length) :: S.names
            constants := S.constants ++ [(constantKey S.constants.length,
              String.ofList (substrings.getD number []))] }) := by
  unfold constantName
  change StateT.bind get _ S = _
  simp only [StateT.bind, get, getThe, MonadStateOf.get, StateT.get, pure_bind]
  cases S.names.lookup number with
  | some name => rfl
  | none => rfl

theorem constantName_advances {S : Sharing} (hsound : S.Sound substrings) (number : Nat)
    {name : String} {S' : Sharing} (hrun : constantName substrings number S = (name, S')) :
    Advances bodies substrings S S' S.visited 0 [] [name] ∧
      ∀ C, S'.constants <+: C →
        C.lookup name = some (String.ofList (substrings.getD number [])) := by
  rw [constantName_eq] at hrun
  cases hname : S.names.lookup number with
  | some old =>
    simp only [hname] at hrun
    cases hrun
    have hvalue := hsound.named number name hname
    refine ⟨{ Advances.refl hsound with keys := ?_ }, fun C hC => lookup_of_prefix hC hvalue⟩
    have hmem : name ∈ S.constants.map (·.1) := List.mem_map_of_mem (Lookup.mem_of_lookup hvalue)
    simp [addNew, hmem]
  | none =>
    simp only [hname] at hrun
    cases hrun
    have hnew := hsound.key_not_mem
    have hnone : S.constants.lookup (constantKey S.constants.length) = none := by
      rw [List.lookup_eq_none_iff]
      intro e he
      have hne : constantKey S.constants.length ≠ e.1 := by
        intro heq
        exact hnew (heq ▸ List.mem_map_of_mem he)
      simpa using hne
    have hlast : (S.constants ++ [(constantKey S.constants.length,
        String.ofList (substrings.getD number []))]).lookup (constantKey S.constants.length) =
          some (String.ofList (substrings.getD number [])) := by
      simp [List.lookup_append, hnone]
    refine ⟨?_, fun C hC => lookup_of_prefix hC hlast⟩
    refine ⟨rfl, rfl, ⟨?_, ?_⟩, List.prefix_append _ _, ?_, [], by simp, rfl, by simp⟩
    · simp [hsound.keys, List.range_succ]
    · intro n nm hn
      rw [List.lookup_cons] at hn
      split at hn
      · next heq =>
        cases hn
        obtain rfl := beq_iff_eq.1 heq
        exact hlast
      · exact lookup_of_prefix (List.prefix_append _ _) (hsound.named n nm hn)
    · simp [addNew, hnew]

/-- What a part of the tour gives, besides what it adds: statements without parts that stand for
the given text at a place. -/
structure Spells (S' : Sharing) (span : Span) (pieces : List (List Char))
    (statements : Program) : Prop where
  leaves : ∀ s ∈ statements, isLeaf s = true
  restored : ∀ C, S'.constants <+: C →
    restore C statements = pieces.map fun piece => .content (String.ofList piece) span

theorem run_bind_eq {α β : Type} {m : StateM Sharing α} {k : α → StateM Sharing β}
    {S S₂ : Sharing} {b : β} (h : (m >>= k) S = (b, S₂)) :
    ∃ a S₁, m S = (a, S₁) ∧ k a S₁ = (b, S₂) :=
  ⟨(m S).1, (m S).2, rfl, h⟩

theorem run_pure_eq {α : Type} {S S' : Sharing} {a b : α}
    (h : (pure a : StateM Sharing α) S = (b, S')) : a = b ∧ S = S' :=
  Prod.mk.inj h

theorem pieceStatement_spells (bodies : String → Option Program) {S : Sharing}
    (hsound : S.Sound substrings) (span : Span) (p : Piece) {s : Statement} {S' : Sharing}
    (hrun : pieceStatement substrings span p S = (s, S')) :
    Advances bodies substrings S S' S.visited 0 [] (references [s]) ∧
      Spells S' span [p.chunk.text substrings] [s] := by
  unfold pieceStatement at hrun
  cases hchunk : p.chunk with
  | literal text =>
    simp only [hchunk] at hrun
    obtain ⟨rfl, rfl⟩ := run_pure_eq hrun
    exact ⟨.refl hsound, ⟨by simp [isLeaf], fun C _ => replace_leaf rfl⟩⟩
  | shared number =>
    simp only [hchunk] at hrun
    obtain ⟨name, S₁, hname, hrun⟩ := run_bind_eq hrun
    obtain ⟨rfl, rfl⟩ := run_pure_eq hrun
    obtain ⟨hadvances, hvalue⟩ := constantName_advances hsound number hname
    refine ⟨hadvances, ⟨by simp [isLeaf], fun C hC => ?_⟩⟩
    calc
      restore C [.constant name span] = restoreLeaf C (.constant name span) := replace_leaf rfl
      _ = [.content (String.ofList (substrings.getD number [])) span] := by
          simp only [restoreLeaf, hvalue C hC]

theorem pieces_spell (bodies : String → Option Program) (pieces : List Piece) {S : Sharing}
    (hsound : S.Sound substrings) (span : Span) {statements : Program} {S' : Sharing}
    (hrun : pieces.mapM (pieceStatement substrings span) S = (statements, S')) :
    Advances bodies substrings S S' S.visited 0 [] (references statements) ∧
      Spells S' span (pieces.map (·.chunk.text substrings)) statements := by
  induction pieces generalizing S statements with
  | nil =>
    obtain ⟨rfl, rfl⟩ := run_pure_eq hrun
    exact ⟨.refl hsound, ⟨by simp, fun C _ => replace_nil⟩⟩
  | cons p pieces ih =>
    rw [List.mapM_cons] at hrun
    obtain ⟨s, S₁, hs, hrun⟩ := run_bind_eq hrun
    obtain ⟨rest, S₂, hrest, hrun⟩ := run_bind_eq hrun
    obtain ⟨rfl, rfl⟩ := run_pure_eq hrun
    obtain ⟨hfirst, hspells⟩ := pieceStatement_spells bodies hsound span p hs
    obtain ⟨hmore, hspells'⟩ := ih hfirst.sound hrest
    rw [hfirst.visited] at hmore
    refine ⟨?_, ⟨?_, ?_⟩⟩
    · simpa [← references_append] using hfirst.trans hmore
    · intro t ht
      rcases List.mem_cons.1 ht with rfl | ht
      · exact hspells.leaves t List.mem_cons_self
      · exact hspells'.leaves t ht
    · intro C hC
      calc
        restore C (s :: rest) = restore C [s] ++ restore C rest := replace_append [s] rest
        _ = _ := by
          rw [hspells.restored C (hmore.constants.trans hC), hspells'.restored C hC]
          rfl

variable {found : Repeats} {contents : List String} {enter : String → StateM Sharing Unit}

/-- The pieces of a text stand for that text, if it is the one with the next number. -/
theorem share_spells (bodies : String → Option Program)
    (hdivides : Divides (contents.map String.toList) found) {S : Sharing}
    (hsound : S.Sound found.substrings) {value : String} (hahead : [value] <+: contents.drop S.next)
    (span : Span) {statements : Program} {S' : Sharing}
    (hrun : share found value span S = (statements, S')) :
    Advances bodies found.substrings S S' S.visited 1 [] (references statements) ∧
      (∀ s ∈ statements, isLeaf s = true) ∧
      ∀ C, S'.constants <+: C → ∀ rest,
        (restore C statements).foldr (fun s rest => fuseOnto (fuseInside s) rest) rest =
          fuseOnto (.content value span) rest := by
  have hnext : Advances bodies found.substrings S { S with next := S.next + 1 } S.visited 1 [] [] :=
    { Advances.refl hsound with sound := ⟨hsound.keys, hsound.named⟩, next := rfl }
  have htext : found.textOf S.next = value.toList := by
    obtain ⟨rest, hrest⟩ := hahead
    have hget : contents[S.next]? = some value := by
      rw [← List.head?_drop, ← hrest]
      rfl
    rw [hdivides.text_eq]
    simp [hget]
  obtain ⟨hmore, hspells⟩ := pieces_spell bodies (found.pieces.filter (·.owner == S.next))
    hnext.sound span hrun
  refine ⟨hnext.trans hmore, hspells.leaves, ?_⟩
  intro C hC rest
  have hflat : ((found.pieces.filter (·.owner == S.next)).map
      (·.chunk.text found.substrings)).flatten = value.toList := by
    rw [← htext, Repeats.textOf, List.flatMap_def]
  rw [hspells.restored C hC, fuse_parts, hflat, String.ofList_toList]

/-- A statement without parts is shared as its text, if it has one. -/
theorem leaf_shares (bodies : String → Option Program)
    (hdivides : Divides (contents.map String.toList) found) {S : Sharing}
    (hsound : S.Sound found.substrings) {s : Statement} (hs : isLeaf s = true)
    (hreference : reference? s = none) (hahead : texts [s] <+: contents.drop S.next)
    {statements : Program} {S' : Sharing}
    (hrun : traverseProgram (share found) enter (trimLeaf s) S = (statements, S')) :
    Advances bodies found.substrings S S' S.visited (texts [s]).length [] (references statements) ∧
      (∀ t ∈ statements, isLeaf t = true) ∧
      ∀ C, S'.constants <+: C → ∀ rest,
        (restore C statements).foldr (fun s rest => fuseOnto (fuseInside s) rest) rest =
          fuseOnto s rest := by
  cases s with
  | content value span =>
    by_cases hvalue : value.isEmpty = true
    · simp only [trimLeaf, hvalue, if_true, traverseProgram] at hrun
      obtain ⟨rfl, rfl⟩ := run_pure_eq hrun
      have htexts : texts [.content value span] = [] := by simp [texts, textOf?, hvalue]
      rw [htexts]
      refine ⟨.refl hsound, by simp, ?_⟩
      intro C _ rest
      simp [fuseOnto, hvalue, restore]
    · have htexts : texts [.content value span] = [value] := by simp [texts, textOf?, hvalue]
      have htrim : trimLeaf (.content value span) = [.content value span] := by
        simp [trimLeaf, hvalue]
      simp only [htrim, traverseProgram_singleton, traverseStatement] at hrun
      rw [htexts] at hahead ⊢
      exact share_spells bodies hdivides hsound hahead span hrun
  | constant name span => cases hreference
  | block => cases hs
  | inclusion => cases hs
  | comment | interpolation =>
    simp only [trimLeaf, traverseProgram_singleton, traverseStatement] at hrun
    obtain ⟨rfl, rfl⟩ := run_pure_eq hrun
    refine ⟨.refl hsound, by simp [isLeaf], ?_⟩
    intro C _ rest
    rw [restore, replace_leaf rfl]
    simp [restoreLeaf, fuseInside_leaf hs]

/-! ## The tour -/

/-- Where the tour stands: the partials that it has met, a level for each of the others, and the
texts that it comes to next. -/
structure Place (substrings : List (List Char)) (contents keys : List String) (level : Nat)
    (met ahead : List String) (S : Sharing) : Prop where
  visited : S.visited = met
  unmet_le : unmet keys met ≤ level
  kept : ∀ e ∈ S.programs, e.1 ∈ met
  sound : S.Sound substrings
  ahead : ahead <+: contents.drop S.next

namespace Place

variable {keys met met' ahead more : List String} {level : Nat} {S S' : Sharing}
  {P : Program} {leaves : List Statement} {done refs : List String}

theorem before (h : Place substrings contents keys level met (ahead ++ more) S) :
    Place substrings contents keys level met ahead S :=
  { h with ahead := (List.prefix_append _ _).trans h.ahead }

theorem after (h : Place substrings contents keys level met (ahead ++ more) S)
    (htour : Tour bodies met P leaves done met')
    (hadvances : Advances bodies substrings S S' met' ahead.length done refs) :
    Place substrings contents keys level met' more S' where
  visited := hadvances.visited
  unmet_le := Nat.le_trans (Factor.unmet_le keys fun _ => htour.mem_of_met) h.unmet_le
  kept := by
    obtain ⟨added, hprograms, hnames, _⟩ := hadvances.programs
    intro e he
    rw [hprograms] at he
    rcases List.mem_append.1 he with he | he
    · exact htour.mem_of_met (h.kept e he)
    · exact htour.mem_of_done (hnames ▸ List.mem_map_of_mem he)
  sound := hadvances.sound
  ahead := by
    obtain ⟨rest, hrest⟩ := h.ahead
    rw [hadvances.next, ← List.drop_drop, ← hrest, List.append_assoc, List.drop_left]
    exact List.prefix_append _ _

/-- A partial that is met first takes a level. -/
theorem lower (h : Place substrings contents keys level met ahead S) {name : String}
    (hkey : name ∈ keys) (hnew : name ∉ met) :
    ∃ lower, level = lower + 1 ∧
      Place substrings contents keys lower (name :: met) ahead
        { S with visited := name :: S.visited } := by
  have hlt := unmet_lt hkey hnew
  have hle := h.unmet_le
  refine ⟨level - 1, by omega, ⟨by rw [h.visited], by omega, ?_, ⟨h.sound.keys, h.sound.named⟩,
    h.ahead⟩⟩
  exact fun e he => List.mem_cons_of_mem _ (h.kept e he)

end Place

/-- The result of a part of the tour: a program that with its constants replaced is the one it was
made from, up to how text is divided, and whose own tour completes the same partials. -/
def Shares (bodies : String → Option Program) (substrings : List (List Char)) (met : List String)
    (P : Program) (leaves : List Statement) (done met' : List String) (S : Sharing)
    (P' : Program) (S' : Sharing) : Prop :=
  ∃ leaves', Advances bodies substrings S S' met' (texts leaves).length done (references leaves') ∧
    (∀ C, S'.constants <+: C → fuse (restore C P') = fuse P) ∧
    ∀ final : String → Option Program, (∀ e ∈ S'.programs, final e.1 = some e.2) →
      Tour final met P' leaves' done met'

theorem Tour.leaves_append {bodies : String → Option Program} {met met' done : List String}
    {rest statements : Program} {leaves : List Statement}
    (hleaves : ∀ s ∈ statements, isLeaf s = true) (h : Tour bodies met rest leaves done met') :
    Tour bodies met (statements ++ rest) (statements ++ leaves) done met' := by
  induction statements with
  | nil => exact h
  | cons s statements ih =>
    apply Tour.leaf (hleaves s List.mem_cons_self)
    exact ih fun t ht => hleaves t (List.mem_cons_of_mem _ ht)

theorem sharePartial_of_met {programs : List (String × Program)} (level : Nat) {name : String}
    {S : Sharing} (h : name ∈ S.visited) : sharePartial found programs level name S = ((), S) := by
  have hmet : S.visited.contains name = true := by simpa using h
  unfold sharePartial
  change (if S.visited.contains name = true then _ else _ : StateM Sharing Unit) S = _
  rw [if_pos hmet]
  rfl

/-- A partial that has not been met is shared and put last. -/
theorem sharePartial_of_new {programs : List (String × Program)} {level : Nat} {name : String}
    {body : Program} {S S₂ : Sharing} (hnew : name ∉ S.visited)
    (hbody : programs.lookup name = some body)
    (hrun : sharePartial found programs (level + 1) name S = ((), S₂)) :
    ∃ body' S₁, traverseProgram (share found) (sharePartial found programs level) body
        { S with visited := name :: S.visited } = (body', S₁) ∧
      S₂ = { S₁ with programs := Ordered.put name body' S₁.programs } := by
  have hmet : ¬ S.visited.contains name = true := by simpa using hnew
  unfold sharePartial at hrun
  change (if S.visited.contains name = true then _ else _ : StateM Sharing Unit) S = _ at hrun
  rw [if_neg hmet, hbody] at hrun
  exact ⟨_, _, rfl, (Prod.mk.inj hrun).2.symm⟩

theorem run_inclusion {name : String} {params : List Expr} {hash : Hash} {span : Span}
    {rest P' : Program} {S S' : Sharing}
    (hrun : traverseProgram (share found) enter (trim (.inclusion name params hash span :: rest)) S =
      (P', S')) :
    ∃ S₁ rest', enter name S = ((), S₁) ∧
      traverseProgram (share found) enter (trim rest) S₁ = (rest', S') ∧
      P' = .inclusion name params hash span :: rest' := by
  have htrim : trim (.inclusion name params hash span :: rest) =
      .inclusion name params hash span :: trim rest := by simp [trim]
  rw [htrim, traverseProgram_cons, traverseStatement] at hrun
  obtain ⟨_, S₁, hinclusion, hrun⟩ := run_bind_eq hrun
  obtain ⟨_, _, henter, hinclusion⟩ := run_bind_eq hinclusion
  obtain ⟨rfl, rfl⟩ := run_pure_eq hinclusion
  obtain ⟨rest', S₂, hrest, hrun⟩ := run_bind_eq hrun
  obtain ⟨rfl, rfl⟩ := run_pure_eq hrun
  exact ⟨_, rest', henter, hrest, rfl⟩

/-- A partial that has been shared comes behind the partials that it has led to. -/
theorem advances_put {S S' : Sharing} {met met' done refs : List String} {leaves : List Statement}
    {count : Nat} {name : String} {body body' : Program} (hkept : ∀ e ∈ S.programs, e.1 ∈ met)
    (hnew : name ∉ met) (hbody : bodies name = some body)
    (htour : Tour bodies (name :: met) body leaves done met')
    (hadvances : Advances bodies substrings { S with visited := name :: S.visited } S' met' count
      done refs)
    (hfused : ∀ C, S'.constants <+: C → fuse (restore C body') = fuse body) :
    S'.programs ++ [(name, body')] = Ordered.put name body' S'.programs ∧
    Advances bodies substrings S { S' with programs := Ordered.put name body' S'.programs } met'
      count (done ++ [name]) refs := by
  obtain ⟨added, hprograms, hnames, hadded⟩ := hadvances.programs
  have hother : ∀ e ∈ S'.programs, (e.1 != name) = true := by
    intro e he
    rw [hprograms] at he
    suffices e.1 ≠ name by simpa using this
    rcases List.mem_append.1 he with he | he
    · intro heq
      exact hnew (heq ▸ hkept e he)
    · intro heq
      have hmem : name ∈ done := heq ▸ hnames ▸ List.mem_map_of_mem he
      exact htour.not_mem_met hmem List.mem_cons_self
  have hput : Ordered.put name body' S'.programs = S'.programs ++ [(name, body')] := by
    rw [Ordered.put, List.filter_eq_self.2 hother]
  refine ⟨hput.symm, ?_⟩
  refine ⟨hadvances.visited, hadvances.next, ⟨hadvances.sound.keys, hadvances.sound.named⟩,
    hadvances.constants, hadvances.keys, added ++ [(name, body')], ?_, by simp [hnames], ?_⟩
  · calc
      Ordered.put name body' S'.programs = S'.programs ++ [(name, body')] := hput
      _ = S.programs ++ (added ++ [(name, body')]) := by rw [hprograms, List.append_assoc]
  · intro C hC e he
    rcases List.mem_append.1 he with he | he
    · exact hadded C hC e he
    · obtain rfl := List.mem_singleton.1 he
      exact ⟨body, hbody, hfused C hC⟩

theorem Place.after_shares {keys met met' more : List String} {level : Nat} {S S' : Sharing}
    {P P' : Program} {leaves : List Statement} {done : List String}
    (h : Place substrings contents keys level met (texts leaves ++ more) S)
    (htour : Tour bodies met P leaves done met')
    (hshares : Shares bodies substrings met P leaves done met' S P' S') :
    Place substrings contents keys level met' more S' := by
  obtain ⟨_, hadvances, _, _⟩ := hshares
  exact h.after htour hadvances

theorem Place.after_first {keys met met' more : List String} {level : Nat} {S S' : Sharing}
    {name : String} {body body' : Program} {leaves : List Statement} {done : List String}
    (h : Place substrings contents keys level met (texts leaves ++ more) S) (hnew : name ∉ met)
    (hname : bodies name = some body) (htour : Tour bodies (name :: met) body leaves done met')
    (hshares : Shares bodies substrings (name :: met) body leaves done met'
      { S with visited := name :: S.visited } body' S') :
    Place substrings contents keys level met' more
      { S' with programs := Ordered.put name body' S'.programs } := by
  obtain ⟨_, hadvances, hfused, _⟩ := hshares
  have hfirst : Tour bodies met [.inclusion name [] [] {}] leaves (done ++ [name]) met' := by
    simpa using Tour.first hnew hname htour .nil
  exact h.after hfirst (advances_put h.kept hnew hname htour hadvances hfused).2

namespace Shares

variable {met met₁ met₂ met₃ d₁ d₂ d₃ : List String} {l₁ l₂ l₃ : List Statement}
  {S S₁ S₂ S₃ : Sharing} {rest rest' body body' otherwise : Program}

theorem nil (hsound : S.Sound substrings) :
    Shares bodies substrings S.visited [] [] [] S.visited S [] S := by
  refine ⟨[], .refl hsound, ?_, fun _ _ => .nil⟩
  exact fun C _ => by simp [restore]

theorem leaf {s : Statement} {statements : Program} (hs : isLeaf s = true)
    (hadvances : Advances bodies substrings S S₁ met (texts [s]).length [] (references statements))
    (hstatements : ∀ t ∈ statements, isLeaf t = true)
    (hfused : ∀ C, S₁.constants <+: C → ∀ rest,
      (restore C statements).foldr (fun s rest => fuseOnto (fuseInside s) rest) rest =
        fuseOnto s rest)
    (hrest : Shares bodies substrings met rest l₁ d₁ met₁ S₁ rest' S₂) :
    Shares bodies substrings met (s :: rest) (s :: l₁) d₁ met₁ S (statements ++ rest') S₂ := by
  obtain ⟨leaves, hadvances', hfused', htour⟩ := hrest
  refine ⟨statements ++ leaves, ?_, ?_, fun final h => .leaves_append hstatements (htour final h)⟩
  · rw [texts_cons, references_append, List.length_append]
    exact hadvances.trans hadvances'
  · intro C hC
    calc
      fuse (restore C (statements ++ rest'))
          = fuse (restore C statements ++ restore C rest') := by rw [restore, replace_append]; rfl
      _ = fuseOnto s (fuse rest) := by
          rw [fuse_append, hfused' C hC, hfused C (hadvances'.constants.trans hC)]
      _ = fuse (s :: rest) := by rw [fuse_cons, fuseInside_leaf hs]

theorem block {head : PathExpr} {params : List Expr} {hash : Hash} {binders : List String}
    {inverse : Option Program} {span : Span}
    (hbody : Shares bodies substrings met body l₁ d₁ met₁ S body' S₁)
    (hinverse : Shares bodies substrings met₁ (inverse.getD []) l₂ d₂ met₂ S₁ otherwise S₂)
    (hnone : inverse = none → otherwise = [])
    (hrest : Shares bodies substrings met₂ rest l₃ d₃ met₃ S₂ rest' S₃) :
    Shares bodies substrings met (.block head params hash binders body inverse span :: rest)
      (l₁ ++ (l₂ ++ l₃)) (d₁ ++ (d₂ ++ d₃)) met₃ S
      (.block head params hash binders body' (inverse.map fun _ => otherwise) span :: rest') S₃ := by
  obtain ⟨leaves₁, hadvances₁, hfused₁, htour₁⟩ := hbody
  obtain ⟨leaves₂, hadvances₂, hfused₂, htour₂⟩ := hinverse
  obtain ⟨leaves₃, hadvances₃, hfused₃, htour₃⟩ := hrest
  refine ⟨leaves₁ ++ (leaves₂ ++ leaves₃), ?_, ?_, ?_⟩
  · simp only [texts_append, references_append, List.length_append]
    exact hadvances₁.trans (hadvances₂.trans hadvances₃)
  · intro C hC
    have hC₂ := hadvances₃.constants.trans hC
    have hinside : (inverse.map fun _ => fuse (restore C otherwise)) = inverse.map fuse := by
      cases inverse with
      | none => rfl
      | some branch => exact congrArg some (hfused₂ C hC₂)
    have hbranches : fuse (restore C body') = fuse body :=
      hfused₁ C (hadvances₂.constants.trans hC₂)
    simp only [restore] at hbranches hinside hfused₃ ⊢
    simp [hbranches, hinside, hfused₃ C hC, Function.comp_def]
  · intro final hfinal
    have hfinal₂ := fun e he => hfinal e (hadvances₃.mem_programs e he)
    have hotherwise : (inverse.map fun _ => otherwise).getD [] = otherwise := by
      cases inverse with
      | none => exact (hnone rfl).symm
      | some branch => rfl
    apply Tour.block
    · exact htour₁ final fun e he => hfinal₂ e (hadvances₂.mem_programs e he)
    · rw [hotherwise]
      exact htour₂ final hfinal₂
    · exact htour₃ final hfinal

theorem again {name : String} {params : List Expr} {hash : Hash} {span : Span} (hmem : name ∈ met)
    (hrest : Shares bodies substrings met rest l₁ d₁ met₁ S rest' S₁) :
    Shares bodies substrings met (.inclusion name params hash span :: rest) l₁ d₁ met₁ S
      (.inclusion name params hash span :: rest') S₁ := by
  obtain ⟨leaves, hadvances, hfused, htour⟩ := hrest
  refine ⟨leaves, hadvances, ?_, fun final h => .again hmem (htour final h)⟩
  intro C hC
  have hfusedC := hfused C hC
  simp only [restore] at hfusedC ⊢
  simp [hfusedC, fuseInside]

/-- A partial that is met first: it is put behind those that it has led to, before the tour goes
on. -/
theorem first {name : String} {params : List Expr} {hash : Hash} {span : Span}
    (hkept : ∀ e ∈ S.programs, e.1 ∈ met) (hnew : name ∉ met) (hname : bodies name = some body)
    (htour : Tour bodies (name :: met) body l₁ d₁ met₁)
    (hbody : Shares bodies substrings (name :: met) body l₁ d₁ met₁
      { S with visited := name :: S.visited } body' S₁)
    (hrest : Shares bodies substrings met₁ rest l₂ d₂ met₂
      { S₁ with programs := Ordered.put name body' S₁.programs } rest' S₂) :
    Shares bodies substrings met (.inclusion name params hash span :: rest) (l₁ ++ l₂)
      (d₁ ++ name :: d₂) met₂ S (.inclusion name params hash span :: rest') S₂ := by
  obtain ⟨leaves₁, hadvances₁, hfused₁, htour₁⟩ := hbody
  obtain ⟨leaves₂, hadvances₂, hfused₂, htour₂⟩ := hrest
  obtain ⟨hput, hadvances⟩ := advances_put hkept hnew hname htour hadvances₁ hfused₁
  refine ⟨leaves₁ ++ leaves₂, ?_, ?_, ?_⟩
  · simpa only [texts_append, references_append, List.length_append, List.append_assoc,
      List.singleton_append] using hadvances.trans hadvances₂
  · intro C hC
    have hfusedC := hfused₂ C hC
    simp only [restore] at hfusedC ⊢
    simp [hfusedC, fuseInside]
  · intro final hfinal
    have hfinal₁ : ∀ e ∈ S₁.programs ++ [(name, body')], final e.1 = some e.2 := by
      intro e he
      rw [hput] at he
      exact hfinal e (hadvances₂.mem_programs e he)
    apply Tour.first hnew (hfinal₁ (name, body') (by simp)) (htour₁ final _) (htour₂ final hfinal)
    exact fun e he => hfinal₁ e (List.mem_append_left _ he)

end Shares

/-- The second tour shares what the first one has collected. -/
theorem Tour.shares (hdivides : Divides (contents.map String.toList) found)
    {programs : List (String × Program)} {met met' done : List String} {P : Program}
    {leaves : List Statement} (htour : Tour bodies met P leaves done met')
    (hleaves : ∀ s ∈ leaves, reference? s = none)
    (hprograms : ∀ name ∈ done, ∀ body, bodies name = some body →
      programs.lookup name = some (trim body))
    {level : Nat} {S S' : Sharing} {P' : Program}
    (hplace : Place found.substrings contents (programs.map (·.1)) level met (texts leaves) S)
    (hrun : traverseProgram (share found) (sharePartial found programs level) (trim P) S =
      (P', S')) :
    Shares bodies found.substrings met P leaves done met' S P' S' := by
  -- the second tour passes the same places as the first one, so that the texts ahead of it are those
  -- that the first one collected there
  induction htour generalizing level S S' P' with
  | nil =>
    simp only [trim, replace_nil, traverseProgram] at hrun
    obtain ⟨rfl, rfl⟩ := run_pure_eq hrun
    exact hplace.visited ▸ Shares.nil hplace.sound
  | @leaf met met' s rest leaves done hs hrest ih =>
    have htrim : trim (s :: rest) = trimLeaf s ++ trim rest := by
      simp [trim, replaceStatement_leaf hs]
    rw [htrim, traverseProgram_append] at hrun
    obtain ⟨statements, S₁, hfirst, hrun⟩ := run_bind_eq hrun
    obtain ⟨rest', S₂, hrest', hrun⟩ := run_bind_eq hrun
    obtain ⟨rfl, rfl⟩ := run_pure_eq hrun
    rw [texts_cons] at hplace
    obtain ⟨hadvances, hstatements, hfused⟩ := leaf_shares bodies hdivides hplace.sound hs
      (hleaves s List.mem_cons_self) hplace.before.ahead hfirst
    rw [hplace.visited] at hadvances
    have hplace₁ := hplace.after (.leaf hs .nil) hadvances
    exact .leaf hs hadvances hstatements hfused
      (ih (fun t ht => hleaves t (List.mem_cons_of_mem _ ht)) hprograms hplace₁ hrest')
  | @block met met₁ met₂ met₃ head params hash binders body inverse span rest l₁ l₂ l₃ d₁ d₂ d₃
      hbody hinverse hrest ihbody ihinverse ih =>
    have htrim : trim (.block head params hash binders body inverse span :: rest) =
        .block head params hash binders (trim body) (inverse.map trim) span :: trim rest := by
      simp [trim]
      rfl
    have hbranch : (inverse.map trim).getD [] = trim (inverse.getD []) := (replace_getD _).symm
    rw [htrim, traverseProgram_cons, traverseStatement_block, hbranch] at hrun
    obtain ⟨_, S₂, hblock, hrun⟩ := run_bind_eq hrun
    obtain ⟨body', S₁, hbody', hblock⟩ := run_bind_eq hblock
    obtain ⟨otherwise, S₂', hotherwise, hblock⟩ := run_bind_eq hblock
    obtain ⟨rfl, rfl⟩ := run_pure_eq hblock
    obtain ⟨rest', S₃, hrest', hrun⟩ := run_bind_eq hrun
    obtain ⟨rfl, rfl⟩ := run_pure_eq hrun
    simp only [List.mem_append, or_imp, forall_and] at hleaves hprograms
    rw [texts_append, texts_append] at hplace
    have hshares := ihbody hleaves.1 hprograms.1 hplace.before hbody'
    have hplace₁ := hplace.after_shares hbody hshares
    have hshares₁ := ihinverse hleaves.2.1 hprograms.2.1 hplace₁.before hotherwise
    have hplace₂ := hplace₁.after_shares hinverse hshares₁
    have hshares₂ := ih hleaves.2.2 hprograms.2.2 hplace₂ hrest'
    have hnone : inverse = none → otherwise = [] := by
      rintro rfl
      simp only [Option.getD_none, trim, replace_nil, traverseProgram] at hotherwise
      exact (run_pure_eq hotherwise).1.symm
    simpa [Function.comp_def] using Shares.block hshares hshares₁ hnone hshares₂
  | again hmem hrest ih =>
    obtain ⟨S₁, rest', henter, hrest', rfl⟩ := run_inclusion hrun
    rw [sharePartial_of_met level (hplace.visited ▸ hmem)] at henter
    obtain rfl := (Prod.mk.inj henter).2
    exact .again hmem (ih hleaves hprograms hplace hrest')
  | @first met met₁ met₂ name params hash span body rest l₁ l₂ d₁ d₂ hnew hname hbody hrest
      ihbody ih =>
    obtain ⟨S₂, rest', henter, hrest', rfl⟩ := run_inclusion hrun
    simp only [List.mem_append, List.mem_cons, or_imp, forall_and, forall_eq] at hleaves hprograms
    rw [texts_append] at hplace
    have hlookup := hprograms.2.1 body hname
    have hkey : name ∈ programs.map (·.1) := List.mem_map_of_mem (Lookup.mem_of_lookup hlookup)
    -- a partial that is entered for the first time leaves a level for those inside it
    obtain ⟨lower, rfl, hlower⟩ := hplace.lower hkey hnew
    obtain ⟨body', S₁, hbody', rfl⟩ :=
      sharePartial_of_new (hplace.visited ▸ hnew) hlookup henter
    have hshares := ihbody hleaves.1 hprograms.1 hlower.before hbody'
    have hplace₂ := hplace.after_first hnew hname hbody hshares
    exact .first hplace.kept hnew hname hbody hshares (ih hleaves.2 hprograms.2.2 hplace₂ hrest')

end Factor
end Stencil
