import Stencil.Proofs.Lower.Declarable
import Stencil.Proofs.Lower.Standing

/-!
# Where texts have fixed bytes

A text has a fixed length if some tag asks for it. The tag may stand anywhere: in the function that
uses the text, in a partial that the text is passed to, or in another function that passes a text of
its own to the same place of a partial. This file defines:

* `Passes`      : a function passes a place of its input to a partial;
* `FixedBytes`  : the places where fixed bytes are asked for, up to such passing on;
* `Shape.loosen` : a type whose texts have a fixed length at some places only.

That fixed bytes are there is what the types of partials say (`FixedBytes.sized`). That there are no
others follows as in `Declarable`: the inferred types are the least ones, and lengths that nothing
asks for can be left out of any typing (`Typing.loosen`). Together this is `fixedBytes_iff`.
-/

namespace Stencil
namespace Types

/-! ## Leaving out lengths -/

namespace Shape

mutual

/-- A type without the lengths of its texts, but for those at the places to keep. -/
def loosen (keep : List Step → Bool) : Shape → Shape
  | .string length => .string (if keep [] then length else none)
  | .array length element => .array length (element.loosen fun p => keep (.element :: p))
  | .struct members => .struct (loosenMembers keep members)
  | .unknown => .unknown
  | .uint length => .uint length
  | .int length => .int length
  | .bool => .bool

def loosenMembers (keep : List Step → Bool) : List (String × Shape) → List (String × Shape)
  | [] => []
  | m :: members =>
    (m.1, m.2.loosen fun p => keep (.member m.1 :: p)) :: loosenMembers keep members

end

variable {keep : List Step → Bool}

theorem lookup_loosenMembers (members : List (String × Shape)) (name : String) :
    (loosenMembers keep members).lookup name =
      (members.lookup name).map (loosen fun p => keep (.member name :: p)) := by
  induction members with
  | nil => rfl
  | cons m members ih =>
    rw [loosenMembers, List.lookup_cons, List.lookup_cons, ih]
    cases hname : name == m.1 with
    | false => rfl
    | true => rw [beq_iff_eq.1 hname, Option.map_some]

theorem child?_loosen (t : Shape) (σ : Step) :
    (t.loosen keep).child? σ = (t.child? σ).map (loosen fun p => keep (σ :: p)) := by
  cases t with
  | array length element => cases σ <;> simp [loosen, child?]
  | struct members =>
    cases σ with
    | element => simp [loosen, child?]
    | member name => simpa [loosen, child?] using lookup_loosenMembers members name
  | _ => cases σ <;> simp [loosen, child?]

theorem follow_loosen (t : Shape) (p : List Step) :
    (t.loosen keep).follow p = (t.follow p).map (loosen fun q => keep (p ++ q)) := by
  induction p generalizing t keep with
  | nil => simp
  | cons σ p ih =>
    rw [follow_cons_eq, follow_cons_eq, child?_loosen]
    cases t.child? σ with
    | none => rfl
    | some c => exact ih c

/-- Only texts lose their lengths, and only where these are not kept. -/
theorem label_loosen (t : Shape) : (t.loosen keep).label =
    if t.label.kind = some .string ∧ keep [] = false then ⟨some .string, none⟩ else t.label := by
  cases t with
  | string length => cases hkeep : keep [] <;> simp [loosen, label, hkeep]
  | _ => simp [loosen, label]

theorem Le.loosen {a b : Shape} (h : a.Le b) : (a.loosen keep).Le (b.loosen keep) := by
  -- what is kept is a matter of the place, which is the same in both types
  intro p x hx
  rw [follow_loosen] at hx
  obtain ⟨u, hu, rfl⟩ := Option.map_eq_some_iff.1 hx
  obtain ⟨v, hv, huv⟩ := h p u hu
  refine ⟨_, by rw [follow_loosen, hv]; rfl, ?_⟩
  rw [label_loosen, label_loosen]
  by_cases hloose : u.label.kind = some .string ∧ keep (p ++ []) = false
  · -- what is above a text is one
    rw [if_pos hloose, if_pos ⟨huv.1 .string hloose.1, hloose.2⟩]
    exact Label.Le.refl _
  · rw [if_neg hloose]
    split
    · next hother =>
      -- what is below a text is one, or unknown
      cases hkind : u.label.kind with
      | none =>
        cases u with
        | unknown => exact Label.unknown_le _
        | _ => cases hkind
      | some kind =>
        have hsame := huv.1 kind hkind
        rw [hother.1] at hsame
        cases hsame
        exact absurd ⟨hkind, hother.2⟩ hloose
    · exact huv

theorem Same.loosen {a b : Shape} (h : a.Same b) : (a.loosen keep).Same (b.loosen keep) :=
  ⟨h.1.loosen, h.2.loosen⟩

end Shape

end Types

namespace Lower

open Code (Stmt)
open Template (Expr Hash PathExpr Program Span Statement)
open Stencil.Types (Kind Label NodeId Shape Store)

/-! ## What is asked for is kept -/

section

variable {keep : List Step → Bool} {t : Shape} {use : Use} {target : AccessPath}

/-- Only fixed bytes need the length of a text. -/
theorem metBy_loosen
    (hkeep : ∀ width steps, use = .bytes width → target.place = some steps → keep steps = true)
    {d : Demand} (hd : d ∈ use.demand? target) (h : d.MetBy t) : d.MetBy (t.loosen keep) := by
  intro horigin
  obtain ⟨u, hu, hle⟩ := h horigin
  refine ⟨_, by rw [Shape.follow_loosen, hu]; rfl, ?_⟩
  rw [Shape.label_loosen]
  split
  · next hloose =>
    obtain ⟨⟨kind, length⟩, hasks, rfl⟩ := Option.map_eq_some_iff.1 hd
    have hkind : kind = .string := by
      have hsame := hle.1 kind rfl
      rw [hloose.1] at hsame
      cases hsame
      rfl
    subst hkind
    refine ⟨fun _ hk => hk, ?_⟩
    cases use with
    | text =>
      cases hasks
      exact Types.LengthLe.none_left _
    | bytes width =>
      have hkept := hkeep width _ rfl (AccessPath.place_of_input horigin)
      rw [List.append_nil] at hloose
      cases hkept.symm.trans hloose.2
    | number signed width => cases signed <;> cases hasks
    | items | flag | context | place => cases hasks
  · exact hle

end

/-- The lengths to keep in the inputs of the functions agree with a tag: they are kept where it asks
for fixed bytes, and the same are kept in what it passes to a partial and in the input of the
partial. -/
structure KeepsTag (keep : Option String → List Step → Bool) (name : Option String) (scope : Scope)
    (s : Statement) : Prop where
  bytes : ∀ {target width steps}, TagUses scope s target (.bytes width) →
    target.place = some steps → keep name steps = true
  context : ∀ {part params hash span target steps}, s = .inclusion part params hash span →
    TagUses scope s target .context → target.place = some steps →
    ∀ rest, keep name (steps ++ rest) = keep (some part) rest

/-- The same for all tags of a program. -/
def Keeps (keep : Option String → List Step → Bool) (name : Option String) (scope : Scope)
    (loops : List Loop) (P : Program) : Prop :=
  ∀ s inner around, Stands scope loops P s inner around → KeepsTag keep name inner s

/-- What stands in a statement stands where the statement does. -/
theorem Stands.of_mem {scope inner : Scope} {loops around : List Loop} {P : Program}
    {x s : Statement} (h : Stands scope loops [x] s inner around) (hx : x ∈ P) :
    Stands scope loops P s inner around := by
  induction P with
  | nil => cases hx
  | cons y P ih =>
    obtain rfl | hx := List.mem_cons.1 hx
    · cases h with
      | here => exact .here
      | later hnil => cases hnil
      | inLoop hkind hitems hinside => exact .inLoop hkind hitems hinside
      | inPlace hkind hplace hinside => exact .inPlace hkind hplace hinside
      | inBranch hkind hinside => exact .inBranch hkind hinside
      | inInverse hkind hinside => exact .inInverse hkind hinside
    · exact .later (ih hx)

/-! ## Typings without lengths -/

section

variable {programs : List (String × Program)} {Γ : List Signature} {t : Shape}
  {keep : Option String → List Step → Bool} {name : Option String} {scope : Scope}
  {loops : List Loop} {P : Program} {s : Statement}

/-- A partial whose contexts have some lengths only. -/
def Signature.loosen (keep : Option String → List Step → Bool) (σ : Signature) : Signature :=
  { σ with input := σ.input.loosen (keep (some σ.name)) }

theorem Fits.loosen (h : Fits programs Γ t scope s) (hkeeps : Keeps keep name scope loops [s]) :
    Fits programs (Γ.map (Signature.loosen keep)) (t.loosen (keep name)) scope s := by
  -- the lengths to keep agree with the tags inside a block if they agree with all in the block
  induction h generalizing loops with
  | content => exact .content
  | comment => exact .comment
  | constant => exact .constant
  | @interpolation _ _ _ _ escaped span plan hplan hmet =>
    refine .interpolation hplan fun d hd => ?_
    obtain ⟨target, use, huses, _, hdemand | ⟨hnone, _⟩⟩ :=
      interpolationPlan_uses hplan escaped span
    · refine metBy_loosen ?_ (hdemand ▸ hd) (hmet d hd)
      rintro width steps rfl hplace
      exact (hkeeps _ _ _ .here).bytes huses hplace
    · rw [hnone] at hd
      cases hd
  | inclusion hplan horigin hσ hname hgroup hu hsame =>
    obtain ⟨_, _, _, _, hcontext⟩ := inclusionPlan_eq_ok.1 hplan
    have hkept := (hkeeps _ _ _ .here).context rfl (.context hcontext)
      (AccessPath.place_of_input horigin)
    subst hname
    refine .inclusion hplan horigin (List.mem_map_of_mem hσ) rfl hgroup ?_ hsame.loosen
    -- the context loses in the input what it loses for the partial
    rw [Shape.follow_loosen, hu, Option.map_some, funext hkept]
  | @each _ _ _ _ binders body inverse span d hkind hplan hmet _ ih =>
    obtain ⟨huses, hdemand, _⟩ := loopPlan_uses hkind hplan binders body inverse span
    cases huses with
    | items _ hitems _ =>
      refine .each hkind hplan (metBy_loosen ?_ hdemand hmet) fun x hx => ?_
      · rintro width steps ⟨⟩
      · have hbody : Keeps keep name _ (⟨binders, indexBase, d.target⟩ :: loops) [x] :=
          fun y _ _ hy => hkeeps y _ _ (.inLoop hkind hitems (hy.of_mem hx))
        exact ih x hx hbody
  | dive hkind hopen _ ih =>
    obtain ⟨place, hplace, rfl⟩ := openWith_ok hopen
    exact .dive hkind hopen fun x hx => ih x hx fun y _ _ hy =>
      hkeeps y _ _ (.inPlace hkind hplace (hy.of_mem hx))
  | @conditional _ _ _ _ binders body inverse span _ d hkind hplan hmet _ _ ih ih' =>
    obtain ⟨_, hdemand, _⟩ := conditionPlan_uses hkind hplan binders body inverse span
    refine .conditional hkind hplan (metBy_loosen ?_ hdemand hmet) ?_ ?_
    · rintro width steps ⟨⟩
    · exact fun x hx => ih x hx fun y _ _ hy =>
        hkeeps y _ _ (.inBranch hkind (hy.of_mem hx))
    · rintro otherwise rfl x hx
      exact ih' otherwise rfl x hx fun y _ _ hy =>
        hkeeps y _ _ (.inInverse hkind (hy.of_mem hx))

theorem Typing.loosen (h : Typing programs P Γ t) (hmain : Keeps keep none {} [] P)
    (hpartials : ∀ σ ∈ Γ, ∀ body, programs.lookup σ.name = some body →
      Keeps keep (some σ.name) {} [] body) :
    Typing programs P (Γ.map (Signature.loosen keep)) (t.loosen (keep none)) where
  root := by
    rw [Shape.label_loosen, if_neg]
    · exact h.root
    · rw [h.root]
      simp
  names := by
    rw [List.map_map]
    exact h.names
  partials := by
    intro i σ' hσ'
    rw [List.getElem?_map] at hσ'
    obtain ⟨σ, hσ, rfl⟩ := Option.map_eq_some_iff.1 hσ'
    obtain ⟨body, hbody, hloops, hfits⟩ := h.partials i σ hσ
    have hkeeps := hpartials σ (List.mem_of_getElem? hσ) body hbody
    refine ⟨body, hbody, hloops, fun s hs => ?_⟩
    rw [← List.map_take]
    exact (hfits s hs).loosen fun x _ _ hx => hkeeps x _ _ (hx.of_mem hs)
  loops := h.loops
  body := fun s hs => (h.body s hs).loosen fun x _ _ hx => hmain x _ _ (hx.of_mem hs)

end

/-! ## Fixed bytes -/

section

variable (programs : List (String × Program)) (program : Program) (l : Lowered)

/-- A function passes a place of its input to a partial. -/
inductive Passes : Option String → List Step → String → Prop where
  | intro {name : Option String} {P : Program} {code : List Stmt} {input : NodeId} {part : String}
      {params : List Expr} {hash : Hash} {span : Span} {scope : Scope} {loops : List Loop}
      {target : AccessPath} {context : List Step} :
      Routine programs program l name P code input →
        Stands {} [] P (.inclusion part params hash span) scope loops →
        TagUses scope (.inclusion part params hash span) target .context →
        target.place = some context → Passes name context part

/-- Fixed bytes are asked for at a place of the input of a function: by a tag, or by what the place
is passed to or passed from. -/
inductive FixedBytes : Option String → List Step → Prop where
  | asked {name : Option String} {P : Program} {code : List Stmt} {input : NodeId}
      {target : AccessPath} {width : Nat} {steps : List Step} :
      Routine programs program l name P code input → Uses {} P target (.bytes width) →
        target.place = some steps → FixedBytes name steps
  | ofCaller {name : Option String} {context steps : List Step} {part : String} :
      Passes programs program l name context part → FixedBytes name (context ++ steps) →
        FixedBytes (some part) steps
  | ofPartial {name : Option String} {context steps : List Step} {part : String} :
      Passes programs program l name context part → FixedBytes (some part) steps →
        FixedBytes name (context ++ steps)

end

section

variable {programs : List (String × Program)} {program P : Program} {l : Lowered}
  {name : Option String} {code : List Stmt} {input : NodeId} {steps : List Step}

/-- A name belongs to one partial. -/
theorem partial_unique (hl : lower programs program = .ok l) {p q : LoweredPartial}
    (hp : p ∈ l.partials) (hq : q ∈ l.partials) (hname : p.name = q.name) : p = q := by
  have hnames := (lower_typing hl).names
  rw [signatures, List.map_map] at hnames
  exact List.inj_on_of_nodup_map hnames hp hq hname

/-- A name belongs to one function. -/
theorem Routine.unique (hl : lower programs program = .ok l)
    (h : Routine programs program l name P code input) {P' : Program} {code' : List Stmt}
    {input' : NodeId} (h' : Routine programs program l name P' code' input') :
    P = P' ∧ input = input' := by
  cases h with
  | main =>
    cases h'
    exact ⟨rfl, rfl⟩
  | @part p _ hp hbody =>
    generalize hname : some p.name = other at h'
    cases h' with
    | main => cases hname
    | @part q _ hq hbody' =>
      cases partial_unique hl hp hq (Option.some.inj hname)
      exact ⟨Option.some.inj (hbody.symm.trans hbody'), rfl⟩

/-- A partial has the type that its contexts have in the functions that they are passed from. -/
theorem Passes.same (hl : lower programs program = .ok l) {context : List Step} {part : String}
    (h : Passes programs program l name context part)
    (hroutine : Routine programs program l name P code input) :
    ∃ (body : Program) (p : LoweredPartial) (u : Shape),
      Routine programs program l (some part) body p.code p.input ∧
      (l.store.shape input).follow context = some u ∧ u.Same (l.store.shape p.input) := by
  obtain ⟨hroutine', hstands, huses, hplace⟩ := h
  obtain ⟨rfl, rfl⟩ := hroutine.unique hl hroutine'
  obtain ⟨_, rfl⟩ := AccessPath.input_of_place hplace
  -- the inclusion fits in a scope that differs in the names of indices only
  obtain ⟨scope', hscope, hfits⟩ := hstands.fits (.refl _) (hroutine.fits hl)
  obtain ⟨target', huses', houtline⟩ := huses.parallel hscope
  rw [AccessPath.steps_eq_of_outline houtline]
  cases hfits with
  | inclusion hplan _ hσ hname _ hu hsame =>
    obtain ⟨_, hbody, _, _, hcontext⟩ := inclusionPlan_eq_ok.1 hplan
    obtain ⟨rfl, _⟩ := huses'.unique (.context hcontext)
    obtain ⟨p, hp, rfl⟩ := List.mem_map.1 hσ
    subst hname
    exact ⟨_, p, _, .part hp hbody, hu, hsame⟩

/-- What a function uses is there in its input. -/
theorem Routine.met (h : Routine programs program l name P code input)
    (hl : lower programs program = .ok l) {target : AccessPath} {use : Use}
    (huses : Uses {} P target use) : ∀ d ∈ use.demand? target, d.MetBy (l.store.shape input) := by
  obtain ⟨s, scope, loops, hstands, htag⟩ := huses.stands []
  obtain ⟨scope', hscope, hfits⟩ := hstands.fits (.refl _) (h.fits hl)
  obtain ⟨target', htag', houtline⟩ := htag.parallel hscope
  intro d hd
  obtain ⟨asked, hasks, rfl⟩ := Option.map_eq_some_iff.1 hd
  have hmet := hfits.met htag' ⟨target', asked.1, asked.2⟩
    (Option.map_eq_some_iff.2 ⟨_, hasks, rfl⟩)
  have hparallel : Demand.Parallel ⟨target', asked.1, asked.2⟩ ⟨target, asked.1, asked.2⟩ :=
    ⟨houtline.symm, rfl, rfl⟩
  exact hparallel.metBy hmet

/-- Bytes that are asked for are at least one. -/
theorem Uses.bytes_ne_zero {scope : Scope} {target : AccessPath} {width : Nat}
    (h : Uses scope P target (.bytes width)) : width ≠ 0 := by
  obtain ⟨s, inner, around, _, htag⟩ := h.stands []
  generalize huse : Use.bytes width = use at htag
  cases htag with
  | helper hhelper _ =>
    have hwide := helper_wide hhelper
    rw [← huse] at hwide
    exact hwide
  | _ => cases huse

/-- All fixed bytes that are asked for are there. -/
theorem FixedBytes.sized (hl : lower programs program = .ok l)
    (h : FixedBytes programs program l name steps)
    (hroutine : Routine programs program l name P code input) :
    ∃ u n, (l.store.shape input).follow steps = some u ∧ u.label = ⟨some .string, some n⟩ := by
  induction h generalizing P code input with
  | @asked _ _ _ _ target width _ hroutine' huses hplace =>
    obtain ⟨rfl, rfl⟩ := hroutine.unique hl hroutine'
    obtain ⟨horigin, rfl⟩ := AccessPath.input_of_place hplace
    obtain ⟨u, hu, hkind, hlength⟩ := hroutine.met hl huses _ rfl horigin
    obtain ⟨n, rfl⟩ := Nat.exists_eq_succ_of_ne_zero huses.bytes_ne_zero
    obtain ⟨m, hm, _⟩ := hlength (n + 1) rfl
    exact ⟨u, m, hu, congrArg₂ Label.mk (hkind .string rfl) hm⟩
  | @ofCaller caller context steps part hpasses _ ih =>
    -- the caller has the bytes below the context, which is of the type of the partial's input
    obtain ⟨hcaller, hstands, huses, hplace⟩ := id hpasses
    obtain ⟨v, n, hv, hlabel⟩ := ih hcaller
    obtain ⟨body, p, u, hpart, hu, hsame⟩ := hpasses.same hl hcaller
    obtain ⟨_, rfl⟩ := hroutine.unique hl hpart
    obtain ⟨u', hu', hv'⟩ := Shape.follow_append.1 hv
    cases Option.some.inj (hu.symm.trans hu')
    obtain ⟨w, hw, hvw⟩ := hsame.follow hv'
    exact ⟨w, n, hw, hvw.label_eq ▸ hlabel⟩
  | ofPartial hpasses _ ih =>
    obtain ⟨body, p, u, hpart, hu, hsame⟩ := hpasses.same hl hroutine
    obtain ⟨v, n, hv, hlabel⟩ := ih hpart
    obtain ⟨w, hw, hvw⟩ := hsame.symm.follow hv
    exact ⟨w, n, Shape.follow_append.2 ⟨u, hu, hw⟩, hvw.label_eq ▸ hlabel⟩

open Classical in
/-- The places where fixed bytes are asked for, as the ones to keep. -/
noncomputable def fixedPlaces (programs : List (String × Program)) (program : Program)
    (l : Lowered) (name : Option String) (steps : List Step) : Bool :=
  decide (FixedBytes programs program l name steps)

open Classical in
theorem fixedPlaces_iff : fixedPlaces programs program l name steps = true ↔
    FixedBytes programs program l name steps := by
  rw [fixedPlaces, decide_eq_true_iff]

/-- The places agree with all tags: what is passed on asks for fixed bytes on both sides or on
none. -/
theorem Routine.keeps (h : Routine programs program l name P code input) :
    Keeps (fixedPlaces programs program l) name {} [] P := by
  intro s scope loops hstands
  refine ⟨?_, ?_⟩
  · intro target width steps huses hplace
    exact fixedPlaces_iff.2 (.asked h (hstands.uses huses) hplace)
  · rintro part params hash span target context rfl huses hplace rest
    have hpasses : Passes programs program l name context part := .intro h hstands huses hplace
    rw [Bool.eq_iff_iff, fixedPlaces_iff, fixedPlaces_iff]
    exact ⟨.ofCaller hpasses, .ofPartial hpasses⟩

/-- No other bytes are fixed: the types without them are a typing as well, and those that are
inferred are the least. -/
theorem Routine.le_loosen (h : Routine programs program l name P code input)
    (hl : lower programs program = .ok l) :
    (l.store.shape input).Le
      ((l.store.shape input).loosen (fixedPlaces programs program l name)) := by
  have hpartials : ∀ σ ∈ signatures l.store l.partials, ∀ body,
      programs.lookup σ.name = some body →
        Keeps (fixedPlaces programs program l) (some σ.name) {} [] body := by
    intro σ hσ body hbody
    obtain ⟨p, hp, rfl⟩ := List.mem_map.1 hσ
    exact Routine.keeps (.part hp hbody)
  have htyping := (lower_typing hl).loosen (Routine.keeps .main) hpartials
  obtain ⟨l', hl', hmain, hparts⟩ := lower_within_typing htyping
  rw [hl] at hl'
  cases hl'
  cases h with
  | main =>
    obtain ⟨_, _, _, _, _, _, hroot⟩ := lower_ok.1 hl
    rw [hroot]
    exact hmain
  | @part p _ hp _ =>
    -- the signature of a partial is the only one of its name
    obtain ⟨σ', hσ', hname, hle⟩ := hparts p hp
    obtain ⟨σ, hσ, rfl⟩ := List.mem_map.1 hσ'
    obtain ⟨q, hq, rfl⟩ := List.mem_map.1 hσ
    cases partial_unique hl hq hp hname
    exact hle

/-- A text of the input of a function has a fixed length just where fixed bytes are asked for. -/
theorem Routine.fixedBytes_iff (h : Routine programs program l name P code input)
    (hl : lower programs program = .ok l) {u : Shape}
    (hu : (l.store.shape input).follow steps = some u) (hkind : u.label.kind = some .string) :
    FixedBytes programs program l name steps ↔ u.label.length ≠ none := by
  constructor
  · intro hfixed
    obtain ⟨v, n, hv, hlabel⟩ := hfixed.sized hl h
    rw [hu] at hv
    cases hv
    simp [hlabel]
  · intro hlength
    by_contra hfree
    have hnot : fixedPlaces programs program l name (steps ++ []) = false := by
      rw [List.append_nil, ← Bool.not_eq_true, fixedPlaces_iff]
      exact hfree
    obtain ⟨v, hv, hle⟩ := h.le_loosen hl steps u hu
    rw [Shape.follow_loosen, hu] at hv
    cases hv
    rw [Shape.label_loosen, if_pos ⟨hkind, hnot⟩] at hle
    obtain ⟨n, hn⟩ := Option.ne_none_iff_exists'.1 hlength
    obtain ⟨m, hm, _⟩ := hle.2 n hn
    cases hm

end

end Lower
end Stencil
