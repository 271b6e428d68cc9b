import Mathlib.Tactic.Common
import Stencil.Proofs.Factor.Content
import Stencil.Proofs.Lookup
import Stencil.Proofs.Results

/-!
# Reading a template with its partials

Reading follows the tour of the template. It fails where the tour comes to a partial that has no
body, and otherwise collects the text that the tour passes and the partials that it completes. This
file defines:

* `bodyOf read sources` : the bodies of the partials, where they have one;
* `Ready`               : the levels suffice for the partials that have not been met;
* `Reads`               : a computation reads a program, or fails at a partial without a body.

The rules of `Reads` follow how computations are put together. The level is the only bound on how
deep partials are read inside each other; since each of them is entered once, it is never reached.
-/

namespace Stencil
namespace Factor

open Results (run_bind_error run_bind_ok toOption_eq_some)
open Template (Expr Hash PathExpr Program Span Statement)

/-- The body of a partial: what its source is read as. -/
def bodyOf (read : String → Except Error Program) (sources : List (String × String))
    (name : String) : Option Program :=
  (sources.lookup name).bind fun source => (read source).toOption

variable {read : String → Except Error Program} {sources : List (String × String)}
  {bodies : String → Option Program} {keys : List String} {level : Nat} {P Q R : Program}

/-! ## What reading adds -/

/-- What has been read allows for reading more: the partials that are complete have been met, and
there are levels for the others. -/
structure Ready (keys : List String) (level : Nat) (L : Library) : Prop where
  met : ∀ e ∈ L.programs, e.1 ∈ L.visited
  unmet_le : unmet keys L.visited ≤ level

/-- The text and the partials of a tour have been added to what had been read. -/
structure Gathers (bodies : String → Option Program) (L L' : Library) (leaves : List Statement)
    (done : List String) : Prop where
  contents : L'.contents = L.contents ++ texts leaves
  programs : L'.programs =
    L.programs ++ done.map fun name => (name, trim ((bodies name).getD []))

namespace Gathers

variable {L L₁ L₂ : Library} {leaves more : List Statement} {done done' : List String}

theorem refl : Gathers bodies L L [] [] where
  contents := by simp
  programs := by simp

theorem trans (h : Gathers bodies L L₁ leaves done) (h' : Gathers bodies L₁ L₂ more done') :
    Gathers bodies L L₂ (leaves ++ more) (done ++ done') where
  contents := by simp [h'.contents, h.contents, texts_append]
  programs := by simp [h'.programs, h.programs]

/-- What has been added determines the result. -/
theorem eq (h : Gathers bodies L L₁ leaves done) (h' : Gathers bodies L L₂ leaves done)
    (hvisited : L₁.visited = L₂.visited) : L₁ = L₂ := by
  cases L₁
  cases L₂
  have hcontents := h.contents.trans h'.contents.symm
  have hprograms := h.programs.trans h'.programs.symm
  congr

end Gathers

theorem Ready.of_tour {L L' : Library} {leaves : List Statement} {done : List String}
    (h : Ready keys level L) (htour : Tour bodies L.visited P leaves done L'.visited)
    (hgathers : Gathers bodies L L' leaves done) : Ready keys level L' where
  met := by
    intro e he
    rw [hgathers.programs] at he
    rcases List.mem_append.1 he with he | he
    · exact htour.mem_of_met (h.met e he)
    · obtain ⟨name, hname, rfl⟩ := List.mem_map.1 he
      exact htour.mem_of_done hname
  unmet_le := Nat.le_trans (Factor.unmet_le keys fun _ => htour.mem_of_met) h.unmet_le

/-! ## Reading programs -/

/-- A computation reads a program with the result `a`, or it fails and the program reaches a
partial without a body. -/
def Reads (bodies : String → Option Program) (keys : List String) (level : Nat) (P : Program)
    {α : Type} (m : Reading α) (a : α) : Prop :=
  ∀ L, Ready keys level L →
    (∃ L' leaves done, m L = .ok a L' ∧ Tour bodies L.visited P leaves done L'.visited ∧
      Gathers bodies L L' leaves done) ∨
    ∃ e L' name, m L = .error e L' ∧ Reachable bodies P name ∧ bodies name = none

namespace Reads

variable {α β : Type} {m : Reading α} {a : α} {b : β}

theorem pure (a : α) : Reads bodies keys level [] (pure a : Reading α) a :=
  fun L _ => .inl ⟨L, [], [], rfl, .nil, .refl⟩

/-- Two computations, one after the other, read what is toured as one program after the other. -/
theorem bind {k : α → Reading β} (hm : Reads bodies keys level P m a)
    (hk : Reads bodies keys level Q (k a) b)
    (htour : ∀ {met met₁ met₂ l₁ l₂ d₁ d₂}, Tour bodies met P l₁ d₁ met₁ →
      Tour bodies met₁ Q l₂ d₂ met₂ → Tour bodies met R (l₁ ++ l₂) (d₁ ++ d₂) met₂)
    (hleft : ∀ s, Within P s → Within R s) (hright : ∀ s, Within Q s → Within R s) :
    Reads bodies keys level R (m >>= k) b := by
  intro L hready
  rcases hm L hready with ⟨L₁, l₁, d₁, hrun, htour₁, hgathers⟩ | ⟨e, L₁, name, hrun, hname, hnone⟩
  · have hbind : (m >>= k) L = k a L₁ := run_bind_ok hrun
    rcases hk L₁ (hready.of_tour htour₁ hgathers) with
      ⟨L₂, l₂, d₂, hrun₂, htour₂, hgathers₂⟩ | ⟨e, L₂, name, hrun₂, hname, hnone⟩
    · exact .inl ⟨L₂, _, _, hbind.trans hrun₂, htour htour₁ htour₂, hgathers.trans hgathers₂⟩
    · exact .inr ⟨e, L₂, name, hbind.trans hrun₂, hname.mono hright, hnone⟩
  · exact .inr ⟨e, L₁, name, run_bind_error hrun, hname.mono hleft, hnone⟩

theorem append {k : α → Reading β} (hm : Reads bodies keys level P m a)
    (hk : Reads bodies keys level Q (k a) b) : Reads bodies keys level (P ++ Q) (m >>= k) b :=
  hm.bind hk Tour.append (fun _ h => h.append_left Q) fun _ h => h.append_right P

theorem map (h : Reads bodies keys level P m a) (f : α → β) :
    Reads bodies keys level P (f <$> m) (f a) := by
  rw [map_eq_pure_bind]
  simpa only [List.append_nil] using
    h.append (k := fun x => Pure.pure (f x)) (Reads.pure (f a))

end Reads

/-- A statement without parts gives its text. -/
theorem leaf_reads (enter : String → Reading Unit) {s : Statement} (hs : isLeaf s = true) :
    Reads bodies keys level [s] (traverseStatement collect enter s) (trimLeaf s) := by
  intro L _
  have htour : Tour bodies L.visited [s] [s] [] L.visited := .leaf hs .nil
  cases s with
  | content value span =>
    by_cases hvalue : value.isEmpty = true
    · refine .inl ⟨L, [.content value span], [], ?_, htour, ?_⟩
      · simp only [traverseStatement, collect, trimLeaf, hvalue, if_true]
        rfl
      · exact ⟨by simp [texts, textOf?, hvalue], by simp⟩
    · refine .inl ⟨{ L with contents := L.contents ++ [value] }, [.content value span], [], ?_,
        htour, ?_⟩
      · simp only [traverseStatement, collect, trimLeaf, hvalue]
        rfl
      · exact ⟨by simp [texts, textOf?, hvalue], by simp⟩
  | comment value span => exact .inl ⟨L, _, [], rfl, htour, ⟨by simp [texts, textOf?], by simp⟩⟩
  | constant name span => exact .inl ⟨L, _, [], rfl, htour, ⟨by simp [texts, textOf?], by simp⟩⟩
  | interpolation head params hash escaped span =>
    exact .inl ⟨L, _, [], rfl, htour, ⟨by simp [texts, textOf?], by simp⟩⟩
  | block => cases hs
  | inclusion => cases hs

section Traversal

theorem leaf_reads_trim (enter : String → Reading Unit) {s : Statement} (hs : isLeaf s = true) :
    Reads bodies keys level [s] (traverseStatement collect enter s) (trim [s]) := by
  have htrim : trim [s] = trimLeaf s := replace_leaf hs
  rw [htrim]
  exact leaf_reads enter hs

/-- A computation enters the partials, up to a level. -/
def Enters (bodies : String → Option Program) (keys : List String) (level : Nat)
    (enter : String → Reading Unit) : Prop :=
  ∀ name params hash span,
    Reads bodies keys level [.inclusion name params hash span] (enter name) ()

variable {enter : String → Reading Unit}

mutual

theorem statement_reads (henter : Enters bodies keys level enter) : (s : Statement) →
    Reads bodies keys level [s] (traverseStatement collect enter s) (trim [s])
  | .block head params hash binders body inverse span => by
    have hbody := program_reads henter body
    have hinverse : Reads bodies keys level (inverse.getD [])
        (traverseProgram collect enter (inverse.getD [])) (trim (inverse.getD [])) := by
      cases inverse with
      | none =>
        unfold traverseProgram trim
        exact Reads.pure _
      | some otherwise => exact program_reads henter otherwise
    have hblock : trim [.block head params hash binders body inverse span] =
        [.block head params hash binders (trim body)
          (inverse.map fun _ => trim (inverse.getD [])) span] := by
      cases inverse with
      | none => simp [trim]
      | some otherwise => simp [trim]
    rw [traverseStatement_block, hblock]
    simp only [bind_pure_comp]
    apply hbody.bind (hinverse.map _)
    · intro _ _ _ l₁ l₂ d₁ d₂ h₁ h₂
      simpa using Tour.block h₁ h₂ .nil
    · exact fun _ => .body
    · exact fun _ => .inverse_getD
  | .inclusion name params hash span => by
    have hmap := (henter name params hash span).map fun _ =>
      [Statement.inclusion name params hash span]
    simpa [traverseStatement, trim] using hmap
  | .content value span => leaf_reads_trim enter rfl
  | .comment value span => leaf_reads_trim enter rfl
  | .constant name span => leaf_reads_trim enter rfl
  | .interpolation head params hash escaped span => leaf_reads_trim enter rfl

theorem program_reads (henter : Enters bodies keys level enter) : (P : Program) →
    Reads bodies keys level P (traverseProgram collect enter P) (trim P)
  | [] => by
    unfold traverseProgram trim
    exact Reads.pure _
  | s :: rest => by
    have hrest := (program_reads henter rest).map (trim [s] ++ ·)
    have hall := (statement_reads henter s).append
      (k := fun first => (first ++ ·) <$> traverseProgram collect enter rest) hrest
    simpa [traverseProgram, trim] using hall

end

end Traversal

/-! ## Partials -/

theorem readPartial_of_met (level : Nat) {name : String} {L : Library} (h : name ∈ L.visited) :
    readPartial read sources level name L = .ok () L := by
  have hmet : L.visited.contains name = true := by simpa using h
  unfold readPartial
  change (if L.visited.contains name = true then _ else _ : Reading Unit) L = _
  rw [if_pos hmet]
  rfl

/-- A partial that has not been met is met, and read if there is a level for it. -/
theorem readPartial_of_new (level : Nat) {name : String} {L : Library} (h : name ∉ L.visited) :
    readPartial read sources level name L =
      (match sources.lookup name, level with
        | none, _ => throw (.unknownPartial name)
        | some _, 0 => return ()
        | some source, level + 1 =>
          match read source with
          | .error e => throw e
          | .ok program => do
            let program ← traverseProgram collect (readPartial read sources level) program
            modify fun l => { l with programs := Ordered.put name program l.programs } :
        Reading Unit) { L with visited := name :: L.visited } := by
  have hnew : ¬ L.visited.contains name = true := by simpa using h
  cases level
  all_goals
    unfold readPartial
    change (if L.visited.contains name = true then _ else _ : Reading Unit) L = _
    rw [if_neg hnew]
    rfl

/-- A partial that has been read comes behind the partials that it has led to. -/
theorem gathers_put {L L' : Library} {name : String} {body : Program} {leaves : List Statement}
    {done : List String} (hready : ∀ e ∈ L.programs, e.1 ∈ L.visited) (hnew : name ∉ L.visited)
    (hbody : bodies name = some body)
    (htour : Tour bodies (name :: L.visited) body leaves done L'.visited)
    (hgathers : Gathers bodies { L with visited := name :: L.visited } L' leaves done) :
    Gathers bodies L { L' with programs := Ordered.put name (trim body) L'.programs } leaves
      (done ++ [name]) where
  contents := hgathers.contents
  programs := by
    have hother : ∀ e ∈ L'.programs, (e.1 != name) = true := by
      intro e he
      rw [hgathers.programs] at he
      suffices e.1 ≠ name by simpa using this
      rcases List.mem_append.1 he with he | he
      · intro heq
        exact hnew (heq ▸ hready e he)
      · obtain ⟨x, hx, rfl⟩ := List.mem_map.1 he
        rintro rfl
        exact htour.not_mem_met hx List.mem_cons_self
    simp only [Ordered.put, List.filter_eq_self.2 hother]
    simp [hgathers.programs, hbody]

/-- What a partial reads, if those that it leads to are read with one level less. -/
theorem readPartial_reads {level : Nat}
    (hlower : ∀ lower, level = lower + 1 →
      Enters (bodyOf read sources) (sources.map (·.1)) lower (readPartial read sources lower)) :
    Enters (bodyOf read sources) (sources.map (·.1)) level (readPartial read sources level) := by
  intro name params hash span L hready
  have hreach : Reachable (bodyOf read sources) [.inclusion name params hash span] name :=
    .direct ⟨_, _, _, .here⟩
  by_cases hmet : name ∈ L.visited
  · exact .inl ⟨L, [], [], readPartial_of_met level hmet, .again hmet .nil, .refl⟩
  rw [readPartial_of_new level hmet]
  cases hsource : sources.lookup name with
  | none => exact .inr ⟨_, _, name, rfl, hreach, by simp [bodyOf, hsource]⟩
  | some source =>
    -- a partial that has a source and has not been met still has a level
    have hkey : name ∈ sources.map (·.1) := List.mem_map_of_mem (Lookup.mem_of_lookup hsource)
    have hlt := unmet_lt hkey hmet
    have hle := hready.unmet_le
    obtain ⟨lower, rfl⟩ : ∃ lower, level = lower + 1 := ⟨level - 1, by omega⟩
    cases hread : read source with
    | error e =>
      have hnone : bodyOf read sources name = none := by
        simp [bodyOf, hsource, hread, Except.toOption]
      simp only [hread]
      exact .inr ⟨e, _, name, rfl, hreach, hnone⟩
    | ok body =>
      have hbody : bodyOf read sources name = some body := by
        simp [bodyOf, hsource, hread, Except.toOption]
      simp only [hread]
      have hready' : Ready (sources.map (·.1)) lower { L with visited := name :: L.visited } :=
        ⟨fun e he => List.mem_cons_of_mem _ (hready.met e he),
          Nat.le_of_lt_succ (Nat.lt_of_lt_of_le hlt hle)⟩
      rcases program_reads (hlower lower rfl) body _ hready' with
        ⟨L', leaves, done, hrun, htour, hgathers⟩ | ⟨e, L', missing, hrun, hmissing, hnone⟩
      · refine .inl ⟨_, leaves, done ++ [name], ?_, ?_,
          gathers_put hready.met hmet hbody htour hgathers⟩
        · exact run_bind_ok hrun
        · simpa using Tour.first hmet hbody htour .nil
      · exact .inr ⟨e, L', missing, run_bind_error hrun, hreach.trans hbody hmissing, hnone⟩

theorem readPartial_enters (read : String → Except Error Program)
    (sources : List (String × String)) (level : Nat) :
    Enters (bodyOf read sources) (sources.map (·.1)) level (readPartial read sources level) := by
  induction level with
  | zero => exact readPartial_reads fun lower h => by cases h
  | succ level ih =>
    apply readPartial_reads
    intro lower h
    obtain rfl := Nat.succ.inj h
    exact ih

/-- A template that is read is read with all that it reaches, unless some of that has no body. -/
theorem readAll_reads (sources : List (String × String)) {template : String} {program : Program}
    (hprogram : read template = .ok program) :
    (∃ L leaves done, readAll read sources template {} = .ok (trim program) L ∧
      Tour (bodyOf read sources) [] program leaves done L.visited ∧
      Gathers (bodyOf read sources) {} L leaves done) ∨
    ∃ e L name, readAll read sources template {} = .error e L ∧
      Reachable (bodyOf read sources) program name ∧ bodyOf read sources name = none := by
  have hlevel : unmet (sources.map (·.1)) [] ≤ sources.length := by simp [unmet]
  have hready : Ready (sources.map (·.1)) sources.length {} := ⟨by simp, hlevel⟩
  unfold readAll
  simp only [hprogram]
  exact program_reads (readPartial_enters read sources sources.length) program {} hready

/-! ## Readers that differ in faults only -/

variable {read' : String → Except Error Program}

theorem readAll_of_agree (hread : ∀ source, (read source).toOption = (read' source).toOption)
    (sources : List (String × String)) {template : String} {program : Program} {L : Library}
    (h : readAll read sources template {} = .ok program L) :
    readAll read' sources template {} = .ok program L := by
  cases htemplate : read template with
  | error e =>
    unfold readAll at h
    simp only [htemplate] at h
    cases h
  | ok body =>
    have htemplate' : read' template = .ok body := by
      rw [← toOption_eq_some, ← hread, htemplate]
      rfl
    have hbodies : bodyOf read' sources = bodyOf read sources := by
      funext name
      simp only [bodyOf, hread]
    rcases readAll_reads sources htemplate with ⟨L₁, leaves, done, hrun, htour, hgathers⟩ |
      ⟨e, _, _, hrun, _⟩
    · obtain ⟨rfl, rfl⟩ : trim body = program ∧ L₁ = L := by
        rw [hrun] at h
        cases h
        exact ⟨rfl, rfl⟩
      rcases readAll_reads sources htemplate' with ⟨L₂, leaves', done', hrun', htour', hgathers'⟩ |
        ⟨_, _, name, _, hname, hnone⟩
      · -- there is one tour only, and both libraries are what it gathers
        rw [hbodies] at htour' hgathers'
        obtain ⟨rfl, rfl, hmet⟩ := htour.unique htour'
        rw [hrun', hgathers.eq hgathers' hmet]
      · -- the first tour has completed all partials, so that none is without a body
        rw [hbodies] at hname hnone
        obtain ⟨_, hbody, _⟩ := htour.body_of_done ((htour.mem_done_iff name).2 hname)
        rw [hnone] at hbody
        cases hbody
    · rw [hrun] at h
      cases h

theorem factor_congr (hread : ∀ source, (read source).toOption = (read' source).toOption)
    (sources : List (String × String)) (minLength : Nat) (template : String) :
    (factor read sources minLength template).toOption =
      (factor read' sources minLength template).toOption := by
  unfold factor
  cases h : readAll read sources template {} with
  | ok program L => rw [readAll_of_agree hread sources h]
  | error e L =>
    cases h' : readAll read' sources template {} with
    | error e' L' => rfl
    | ok program L' =>
      rw [readAll_of_agree (fun source => (hread source).symm) sources h'] at h
      cases h

end Factor
end Stencil
