import Stencil.Proofs.Lower.Rounds
import Stencil.Proofs.Lower.Uses

/-!
# Inferred types justify every use

A type that one tag asks for has to outlast everything that comes later: other tags, the contexts
of partials, and the rounds that give all contexts of a partial one type. All of these only make
the store grow, so that uses are justified by the store `s` in which lowering ends:

* `Met s root steps use`           : the place is there, and its type allows the use;
* `Justifies s root scope P`       : so it is for all that the program uses;
* `PartialsJustified s programs`   : so it is for the partials, each from its own input;
* `Establishes`                    : what lowering a program has to do for this.

The main result is `lower_justifies_uses`.
-/

namespace Stencil
namespace Lower

open Template (Expr Hash PathExpr Program Span Statement)
open Stencil.Types (Kind LengthLe Node NodeId Store)

/-! ## Uses that are met -/

/-- The kind and the length that a use asks of a node. -/
def Use.asks : Use → Option (Kind × Option Nat)
  | .text => some (.string, none)
  | .bytes width => some (.string, some width)
  | .number signed width => some (if signed then .int else .uint, width)
  | .items length => some (.array, length)
  | .flag => some (.bool, none)
  | .context | .place => none

/-- A use whose width, if it has one, is positive. -/
def Use.Wide : Use → Prop
  | .bytes width => width ≠ 0
  | .number _ width => width ≠ some 0
  | _ => True

/-- A length that is asked for is reached, if it is positive. -/
theorem lengthLe_of_positive {length known : Option Nat} (hne : length ≠ some 0)
    (h : ∀ n, length = some (n + 1) → ∃ m, known = some m ∧ n + 1 ≤ m) : LengthLe length known := by
  intro n hn
  cases n with
  | zero => exact absurd hn hne
  | succ n => exact h n hn

theorem Use.metBy_of_asks {use : Use} {kind : Kind} {length : Option Nat} {node : Node}
    (hasks : use.asks = some (kind, length)) (hwide : use.Wide) (hkind : node.kind? = some kind)
    (hlength : ∀ n, length = some (n + 1) → ∃ m, node.length? = some m ∧ n + 1 ≤ m) :
    use.MetBy node := by
  cases use with
  | text =>
    cases hasks
    cases node with
    | string known => exact ⟨known, rfl⟩
    | _ => cases hkind
  | bytes width =>
    cases hasks
    cases node with
    | string known =>
      have hwidth : some width ≠ some 0 := fun h => hwide (Option.some.inj h)
      obtain ⟨m, hm, hle⟩ := lengthLe_of_positive hwidth hlength width rfl
      have hknown : known = some m := hm
      exact ⟨m, by rw [hknown], hle⟩
    | _ => cases hkind
  | number signed width =>
    cases hasks
    have hle := lengthLe_of_positive hwide hlength
    cases signed with
    | false =>
      cases node with
      | uint known => exact ⟨known, rfl, hle⟩
      | _ => cases hkind
    | true =>
      cases node with
      | int known => exact ⟨known, rfl, hle⟩
      | _ => cases hkind
  | items length =>
    cases hasks
    cases node with
    | array known element =>
      refine ⟨known, element, rfl, ?_⟩
      intro n hn hpos
      cases n with
      | zero => exact absurd hpos (Nat.lt_irrefl 0)
      | succ n => exact hlength n hn
    | _ => cases hkind
  | flag =>
    cases hasks
    cases node with
    | bool => rfl
    | _ => cases hkind
  | context => exact trivial
  | place => exact trivial

/-- No helper has width zero. -/
theorem helper_wide {p : PathExpr} {helper : Helper} (h : headHelper? p = .ok (some helper)) :
    helper.use.Wide := by
  have hallowed := helper_allowed h
  cases helper with
  | integer signed width =>
    rintro rfl
    have hzero := hallowed 0 rfl
    cases signed <;> cases hzero
  | bytes width =>
    rintro rfl
    cases hallowed

/-- The place is there, and its type allows the use. -/
def Met (s : Store) (root : NodeId) (steps : List Step) (use : Use) : Prop :=
  ∃ id, s.follow root steps = some id ∧ use.MetBy (s.get id)

/-- What was asked of a place is met in the end. -/
theorem Narrowed.met {s t : Store} {root : NodeId} {path : AccessPath} {kind : Kind}
    {length : Option Nat} {use : Use} {steps : List Step} (h : Narrowed t root path kind length)
    (hgrows : t.Grows s) (hasks : use.asks = some (kind, length)) (hwide : use.Wide)
    (hplace : path.place = some steps) : Met s root steps use := by
  obtain ⟨horigin, rfl⟩ := AccessPath.input_of_place hplace
  obtain ⟨id, hid, hkind, hlength⟩ := h horigin
  refine ⟨id, hgrows.follow hid, Use.metBy_of_asks hasks hwide (hgrows.kind? hkind) ?_⟩
  intro n hn
  -- the length that was reached at first may have been raised since
  obtain ⟨m, hm, hle⟩ := hlength n hn
  obtain ⟨k, hk, hle'⟩ := (hgrows.label_le id).2 m hm
  exact ⟨k, hk, Nat.le_trans hle hle'⟩

/-! ## Programs -/

/-- Types justify what a program uses in a scope, whatever the indices of the loops are called. -/
def Justifies (s : Store) (root : NodeId) (scope : Scope) (P : Program) : Prop :=
  ∀ other, scope.Alike other → ∀ target use, Uses other P target use → use ≠ .place →
    ∀ steps, target.place = some steps → Met s root steps use

namespace Justifies

variable {s : Store} {root : NodeId} {scope : Scope}

theorem nil : Justifies s root scope [] := by
  intro other _ target use huses
  cases huses

/-- One statement, and then the others. -/
theorem cons {statement : Statement} {rest : Program} (h : Justifies s root scope [statement])
    (h' : Justifies s root scope rest) : Justifies s root scope (statement :: rest) := by
  intro other halike target use huses
  have hfirst := h other halike target use
  cases huses with
  | later huses => exact h' other halike target use huses
  | text hhelper hresolve => exact hfirst (.text hhelper hresolve)
  | helper hhelper hresolve => exact hfirst (.helper hhelper hresolve)
  | context hcontext => exact hfirst (.context hcontext)
  | items hkind hresolve hlength => exact hfirst (.items hkind hresolve hlength)
  | inLoop hkind hresolve huses => exact hfirst (.inLoop hkind hresolve huses)
  | place hkind hresolve => exact hfirst (.place hkind hresolve)
  | inPlace hkind hresolve huses => exact hfirst (.inPlace hkind hresolve huses)
  | flag hkind hresolve => exact hfirst (.flag hkind hresolve)
  | inBranch hkind huses => exact hfirst (.inBranch hkind huses)
  | inInverse hkind huses => exact hfirst (.inInverse hkind huses)

/-- A statement that uses no data. -/
theorem of_not_uses {statement : Statement}
    (h : ∀ {other : Scope} {target : AccessPath} {use : Use},
      ¬ Uses other [statement] target use) : Justifies s root scope [statement] := by
  intro other _ target use huses
  exact absurd huses h

/-- An interpolation uses what it has narrowed. -/
theorem interpolation {t : Store} (hgrows : t.Grows s) {p : PathExpr} {params : List Expr}
    {hash : Hash} {a : Code.Atom} (h : Interpolated t root scope p params hash a) (escaped : Bool)
    (span : Span) :
    Justifies s root scope [.interpolation (.path p) params hash escaped span] := by
  intro other halike target use huses _ steps hplace
  cases huses with
  | later huses => cases huses
  | text hhelper hresolve =>
    cases h with
    | integer helper | bytes helper =>
      rw [hhelper] at helper
      cases helper
    | @index found _ resolved loopIndex =>
      -- an index is no place of the input
      have hnone : found.place = none := AccessPath.place_of_isVariable loopIndex
      rw [halike.place_eq resolved hresolve, hplace] at hnone
      cases hnone
    | text _ resolved _ narrowed =>
      rw [← halike.place_eq resolved hresolve] at hplace
      exact narrowed.met hgrows rfl trivial hplace
  | helper hhelper hresolve =>
    have hwide := helper_wide hhelper
    cases h with
    | integer helper _ argument narrowed =>
      rw [hhelper] at helper
      cases helper
      rw [← halike.place_eq_of_bind argument hresolve] at hplace
      exact narrowed.met hgrows rfl hwide hplace
    | bytes helper argument narrowed =>
      rw [hhelper] at helper
      cases helper
      rw [← halike.place_eq_of_bind argument hresolve] at hplace
      exact narrowed.met hgrows rfl hwide hplace
    | index helper | text helper =>
      rw [hhelper] at helper
      cases helper

/-- A partial is given a place that is there. -/
theorem inclusion {name : String} {params : List Expr} {context : AccessPath} {node : NodeId}
    (hcontext : inclusionContext scope name params = .ok context)
    (hnode : s.follow root (context.accessors.map Accessor.step) = some node) (hash : Hash)
    (span : Span) : Justifies s root scope [.inclusion name params hash span] := by
  intro other halike target use huses _ steps hplace
  cases huses with
  | later huses => cases huses
  | context hcontext' =>
    rw [← place_eq_of_inclusionContext halike hcontext hcontext'] at hplace
    obtain ⟨_, rfl⟩ := AccessPath.input_of_place hplace
    exact ⟨node, hnode, trivial⟩

section

variable {head : PathExpr} {params : List Expr} {hash : Hash} {binders : List String}
  {body : Program} {inverse : Option Program} {span : Span}

/-- A loop uses its items, and its body looks from them. -/
theorem each {st st' : State} {loop : OpenLoop} (hkind : blockKind head params = .ok .each)
    (hopened : LoopOpened st st' root scope params hash binders loop)
    (hgrows : st'.store.Grows s) (hbody : Justifies s root loop.scope body) :
    Justifies s root scope [.block head params hash binders body inverse span] := by
  intro other halike target use huses hne steps hplace
  cases huses with
  | later huses => cases huses
  | items _ hresolve hlength =>
    obtain ⟨length, hkeyword, hnarrowed⟩ := hopened.keyword
    rw [hlength] at hkeyword
    cases hkeyword
    rw [← halike.place_eq_of_bind hopened.argument hresolve] at hplace
    exact hnarrowed.met hgrows rfl trivial hplace
  | @inLoop _ _ _ _ _ _ _ _ _ items _ _ index _ hresolve huses =>
    -- the body was lowered under another name for the index, which changes no place
    have hitems := halike.place_eq_of_bind hopened.argument hresolve
    have hinner := alike_loop halike hitems binders loop.index index
    rw [← hopened.scope_eq] at hinner
    exact hbody _ hinner target use huses hne steps hplace
  | place hkind' | inPlace hkind' | flag hkind' | inBranch hkind' | inInverse hkind' =>
    rw [hkind] at hkind'
    cases hkind'

/-- A block that looks from a place uses what its body uses there. -/
theorem dive {place : AccessPath} (hkind : blockKind head params = .ok .dive)
    (hplace : (pathArgument params "with" >>= scope.resolve) = .ok place)
    (hbody : Justifies s root (scope.dive place []) body) :
    Justifies s root scope [.block head params hash binders body inverse span] := by
  intro other halike target use huses hne
  cases huses with
  | later huses => cases huses
  | place => exact absurd rfl hne
  | inPlace _ hresolve huses =>
    have hsame := halike.place_eq_of_bind hplace hresolve
    exact hbody _ (halike.dive hsame rfl) target use huses hne
  | items hkind' | inLoop hkind' | flag hkind' | inBranch hkind' | inInverse hkind' =>
    rw [hkind] at hkind'
    cases hkind'

/-- A condition uses its flag, and its branches stand in the same scope. -/
theorem conditional {t : Store} {path : AccessPath} {negated : Bool}
    (hkind : blockKind head params = .ok (.conditional negated))
    (hpath : (conditionPath head params >>= scope.resolve) = .ok path)
    (hnarrowed : Narrowed t root path .bool none) (hgrows : t.Grows s)
    (hbody : Justifies s root scope body) (hinverse : Justifies s root scope (inverse.getD [])) :
    Justifies s root scope [.block head params hash binders body inverse span] := by
  intro other halike target use huses hne steps hplace
  cases huses with
  | later huses => cases huses
  | flag _ hresolve =>
    rw [← halike.place_eq_of_bind hpath hresolve] at hplace
    exact hnarrowed.met hgrows rfl trivial hplace
  | inBranch _ huses => exact hbody other halike target use huses hne steps hplace
  | inInverse _ huses => exact hinverse other halike target use huses hne steps hplace
  | items hkind' | inLoop hkind' | place hkind' | inPlace hkind' =>
    rw [hkind] at hkind'
    cases hkind'

end

end Justifies

/-! ## Lowering -/

section

variable (s : Store) (programs : List (String × Program))

/-- Types justify what the partials use, each from its own input. -/
def PartialsJustified (partials : List LoweredPartial) : Prop :=
  ∀ p ∈ partials, ∃ body, programs.lookup p.name = some body ∧ Justifies s p.input {} body

/-- What lowering a program from `st` to `st'` has to establish, where the store goes on to `s`. -/
def Establishes (st : State) (root : NodeId) (scope : Scope) (P : Program) (st' : State) : Prop :=
  st'.store.Grows s → PartialsJustified s programs st.partials →
    PartialsJustified s programs st'.partials ∧ Justifies s root scope P

/-- An includer that establishes what inclusions need. -/
def IncluderJustified (include_ : Includer) (opened : List String) : Prop :=
  ∀ (st : State) (root : Nat) (scope : Scope) (name : String) (params : List Expr) (hash : Hash)
    (span : Span), st.Valid → root < st.store.size →
      Lowers opened st
        (fun _ st' => Establishes s programs st root scope [.inclusion name params hash span] st')
        (include_ root scope name params hash st)

end

section

variable {s : Store} {programs : List (String × Program)} {opened : List String}
  {include_ : Includer} {root : Nat}

/-- What only changes the store leaves the partials as they are. -/
theorem Establishes.of_justifies {st st' : State} {scope : Scope} {P : Program}
    (hpartials : st'.partials = st.partials)
    (h : st'.store.Grows s → Justifies s root scope P) :
    Establishes s programs st root scope P st' := by
  intro hgrows hjustified
  rw [hpartials]
  exact ⟨hjustified, h hgrows⟩

/-- One statement, and then the others: what the first one needs lasts. -/
theorem Establishes.cons {st st₁ st₂ : State} {scope : Scope} {x : Statement} {rest : Program}
    (h : Establishes s programs st root scope [x] st₁)
    (h' : Establishes s programs st₁ root scope rest st₂) (hev : st₁.Evolves opened st₂) :
    Establishes s programs st root scope (x :: rest) st₂ := by
  intro hgrows hpartials
  obtain ⟨hpartials₁, hjustifies⟩ := h (hev.grows.trans hgrows) hpartials
  obtain ⟨hpartials₂, hjustifies'⟩ := h' hgrows hpartials₁
  exact ⟨hpartials₂, .cons hjustifies hjustifies'⟩

theorem IncluderJustified.lowers (hinclude : IncluderJustified s programs include_ opened) :
    include_.Lowers opened :=
  fun st root scope name params hash hst hroot =>
    (hinclude st root scope name params hash {} hst hroot).mono fun _ _ _ _ _ => trivial

theorem Derivation.justified (hinclude : IncluderJustified s programs include_ opened)
    {scope : Scope} {P : Program} {st st' : State} {outputs : List CodeOutput}
    (h : Derivation include_ root scope P st outputs st') (hst : st.Valid)
    (hroot : root < st.store.size) : Establishes s programs st root scope P st' := by
  -- what stays as it is in the code uses no data
  have hfixed : ∀ {x : Statement} {rest : Program} {scope : Scope} {st st' : State}
      {outputs : List CodeOutput}, st.Valid → root < st.store.size →
      (∀ {other : Scope} {target : AccessPath} {use : Use}, ¬ Uses other [x] target use) →
      Derivation include_ root scope rest st outputs st' →
      Establishes s programs st root scope rest st' →
      Establishes s programs st root scope (x :: rest) st' := by
    intro x rest scope st st' outputs hst hroot hx hrest h
    have hev := (hrest.reaches hinclude.lowers hst hroot).2.2
    exact .cons (.of_justifies rfl fun _ => .of_not_uses hx) h hev
  induction h with
  | nil => exact .of_justifies rfl fun _ => .nil
  | content hrest ih =>
    refine hfixed hst hroot ?_ hrest (ih hst hroot)
    rintro other target use ⟨⟨⟩⟩
  | comment hrest ih =>
    refine hfixed hst hroot ?_ hrest (ih hst hroot)
    rintro other target use ⟨⟨⟩⟩
  | constant hrest ih =>
    refine hfixed hst hroot ?_ hrest (ih hst hroot)
    rintro other target use ⟨⟨⟩⟩
  | interpolation hatom hrest ih =>
    obtain ⟨⟨hst₁, hroot₁, _⟩, ⟨p, rfl, hinterpolated⟩, heq⟩ :=
      (interpolation_lowers hst hroot _ _ _).reaches opened hroot hatom
    have hpartials₁ := congrArg State.partials heq
    refine .cons ?_ (ih hst₁ hroot₁) (hrest.reaches hinclude.lowers hst₁ hroot₁).2.2
    exact .of_justifies hpartials₁ fun hgrows => .interpolation hgrows hinterpolated _ _
  | inclusion hatom hrest ih =>
    obtain ⟨⟨hst₁, hroot₁, _⟩, hestablishes⟩ :=
      (hinclude _ root _ _ _ _ _ hst hroot).reaches opened hroot hatom
    exact hestablishes.cons (ih hst₁ hroot₁) (hrest.reaches hinclude.lowers hst₁ hroot₁).2.2
  | each hkind hloop hbody hrest ihbody ih =>
    obtain ⟨⟨hst₁, hroot₁, _⟩, _, hopened⟩ :=
      (openLoop_lowers hst hroot _ _ _ _).reaches opened hroot hloop
    obtain ⟨hst₂, hroot₂, hev₂⟩ := hbody.reaches hinclude.lowers hst₁ hroot₁
    refine .cons ?_ (ih hst₂ hroot₂) (hrest.reaches hinclude.lowers hst₂ hroot₂).2.2
    intro hgrows hpartials
    -- opening the loop has added no partial, and its items stay an array while the body is lowered
    rw [← hopened.partials_eq] at hpartials
    obtain ⟨hpartials₂, hjustifies⟩ := ihbody hst₁ hroot₁ hgrows hpartials
    exact ⟨hpartials₂, .each hkind hopened (hev₂.grows.trans hgrows) hjustifies⟩
  | dive hkind hopen hbody hrest ihbody ih =>
    obtain ⟨hst₁, hroot₁, _⟩ := hbody.reaches hinclude.lowers hst hroot
    refine .cons ?_ (ih hst₁ hroot₁) (hrest.reaches hinclude.lowers hst₁ hroot₁).2.2
    intro hgrows hpartials
    -- nothing is asked of the place itself, so that only the body has to be justified
    obtain ⟨place, hplace, rfl⟩ := openWith_ok hopen
    obtain ⟨hpartials₁, hjustifies⟩ := ihbody hst hroot hgrows hpartials
    exact ⟨hpartials₁, .dive hkind hplace hjustifies⟩
  | conditional hkind hpath hbody hinverse hrest ihbody ihinverse ih =>
    obtain ⟨⟨hst₁, hroot₁, _⟩, ⟨hresolve, _, hnarrowed⟩, heq⟩ :=
      (openCondition_lowers hst hroot _ _ _).reaches opened hroot hpath
    obtain ⟨hst₂, hroot₂, hev₂⟩ := hbody.reaches hinclude.lowers hst₁ hroot₁
    obtain ⟨hst₃, hroot₃, hev₃⟩ := hinverse.reaches hinclude.lowers hst₂ hroot₂
    refine .cons ?_ (ih hst₃ hroot₃) (hrest.reaches hinclude.lowers hst₃ hroot₃).2.2
    intro hgrows hpartials
    have hpartials₁ := congrArg State.partials heq
    have hgrows₂ := hev₃.grows.trans hgrows
    obtain ⟨hpartials₂, hfirst⟩ := ihbody hst₁ hroot₁ hgrows₂ (hpartials₁ ▸ hpartials)
    obtain ⟨hpartials₃, hsecond⟩ := ihinverse hst₂ hroot₂ hgrows hpartials₂
    exact ⟨hpartials₃, .conditional hkind hresolve hnarrowed (hev₂.grows.trans hgrows₂) hfirst
      hsecond⟩

theorem lowerBody_justified (hinclude : IncluderJustified s programs include_ opened) {st : State}
    (hst : st.Valid) (hroot : root < st.store.size) (P : Program) :
    Lowers opened st (fun _ st' => Establishes s programs st root {} P st')
      (lowerBody include_ root P st) := by
  refine (lowerBody_lowers hinclude.lowers hst hroot P).mono ?_
  rintro _ st' _ _ ⟨outputs, hderivation, rfl⟩
  exact hderivation.justified hinclude hst hroot

/-! ## Inclusions -/

/-- Further calls make no difference to what partials use. -/
theorem PartialsJustified.called {partials : List LoweredPartial}
    (h : PartialsJustified s programs partials) (name : String) (site : CallSite) :
    PartialsJustified s programs (partials.map (·.called name site)) := by
  intro q hq
  obtain ⟨p, hp, rfl⟩ := List.mem_map.1 hq
  have hextends := p.extends_called name site
  rw [hextends.name, hextends.input]
  exact h p hp

/-- The first call of a partial, whose body is lowered for it. -/
theorem calledFirst_justified {name : String}
    (hinclude : IncluderJustified s programs include_ (name :: opened)) {st st' : State}
    (hroot : root < st.store.size) {scope : Scope} {params : List Expr} {hash : Hash} {span : Span}
    {group : Option String} {context : AccessPath} {program : Program} {node : NodeId}
    {code : List Code.Stmt} {before after : State} (hprogram : programs.lookup name = some program)
    (hcontext : inclusionContext scope name params = .ok context)
    (hcalled : CalledFirst include_ st st' root name group context program node code before after) :
    Establishes s programs st root scope [.inclusion name params hash span] st' := by
  intro hgrows hpartials
  have hroot₁ : root < before.store.size := Nat.lt_of_lt_of_le hroot hcalled.grows.size_le
  have hnode : node < before.store.size := hcalled.valid.forest.follow_lt hroot₁ hcalled.node_eq
  have hbody := lowerBody_justified hinclude hcalled.valid hnode program
  rw [hcalled.body] at hbody
  obtain ⟨_, hev, hestablishes⟩ := hbody
  -- the body starts with the partials of the call, and ends with all but the new one
  have hpartials₁ : PartialsJustified s programs before.partials := by
    rw [hcalled.before_eq]
    exact hpartials
  have hgrows₁ : after.store.Grows s := by
    simpa only [hcalled.after_eq] using hgrows
  obtain ⟨hpartials₂, hjustifies⟩ := hestablishes hgrows₁ hpartials₁
  have hfollow := (hev.grows.trans hgrows₁).follow hcalled.node_eq
  refine ⟨?_, .inclusion hcontext hfollow hash span⟩
  intro p hp
  rw [hcalled.after_eq] at hp
  obtain hp | hp := List.mem_append.1 hp
  · exact hpartials₂ p hp
  · -- the new partial has the place of its first call for its input
    have heq := List.mem_singleton.1 hp
    subst heq
    exact ⟨program, hprogram, hjustifies⟩

theorem included_justified {level : Nat}
    (hbelow : ∀ below name, level = below + 1 →
      IncluderJustified s programs (includePartial programs below (name :: opened))
        (name :: opened))
    {st st' : State} (hroot : root < st.store.size) {scope : Scope} {name : String}
    {params : List Expr} {hash : Hash} {span : Span} {a : Code.Atom}
    (h : Included programs level opened st st' root scope name params hash a) :
    Establishes s programs st root scope [.inclusion name params hash span] st' := by
  cases h with
  | again _ _ argument _ _ called =>
    intro hgrows hpartials
    obtain ⟨node, hnode, hst'⟩ := called.site
    rw [hst']
    exact ⟨hpartials.called _ _, .inclusion argument (hgrows.follow hnode) hash span⟩
  | first level_eq found _ argument called =>
    exact calledFirst_justified (hbelow _ name level_eq) hroot found argument called

theorem includePartial_justified (level : Nat) (opened : List String) :
    IncluderJustified s programs (includePartial programs level opened) opened := by
  induction level, opened using level_induction with
  | step level opened hbelow =>
    intro st root scope name params hash span hst hroot
    refine (includePartial_spec programs ?_ hst hroot name params hash).mono ?_
    · intro below other _ _
      exact includePartial_lowers programs below (other :: opened)
    · intro a st' _ _ hincluded
      exact included_justified hbelow hroot hincluded

end

/-! ## Lowered templates -/

/-- A path leads to a node that allows the use, through arrays and structs. -/
theorem Justifies.walks {s : Store} {root : NodeId} {P : Program} (h : Justifies s root {} P)
    {target : AccessPath} {use : Use} (huses : Uses {} P target use) (hne : use ≠ .place)
    (horigin : target.origin = .input) :
    ∃ id, Walks s root target.accessors id ∧ use.MetBy (s.get id) := by
  have hplace := AccessPath.place_of_input horigin
  obtain ⟨id, hid, hmet⟩ := h {} (.refl _) target use huses hne _ hplace
  exact ⟨id, walks_iff.2 hid, hmet⟩

/-- In the types of a lowered template, every place of the input that a tag of the template or of a
lowered partial uses is reached from the input of its function, through an array at each index and
a struct with the member at each name, and its type allows the use. A block that only looks from a
place is no such tag. -/
theorem lower_justifies_uses {programs : List (String × Program)} {program : Program} {l : Lowered}
    (h : lower programs program = .ok l) :
    (∀ target use, Uses {} program target use → use ≠ .place → target.origin = .input →
      ∃ id, Walks l.store l.root target.accessors id ∧ use.MetBy (l.store.get id)) ∧
    ∀ p ∈ l.partials, ∃ body, programs.lookup p.name = some body ∧
      ∀ target use, Uses {} body target use → use ≠ .place → target.origin = .input →
        ∃ id, Walks l.store p.input target.accessors id ∧ use.MetBy (l.store.get id) := by
  obtain ⟨st, st', hlower, hfinish, hpartials, hstore, hroot⟩ := lower_ok.1 h
  have hst := valid_of_lowerProgram hlower
  -- the rounds after lowering make the types grow and leave the partials alone
  obtain ⟨_, hgrows, hpartials', _⟩ := settleTypes_correct hst ((finish_ok_iff hst).1 hfinish)
  have hinclude : IncluderJustified l.store programs
      (includePartial programs programs.length []) [] :=
    includePartial_justified programs.length []
  have hbody := lowerBody_justified hinclude State.valid_initial State.valid_initial.nonempty
    program
  change Lowers _ _ _ (lowerProgram programs 0 program State.initial) at hbody
  rw [hlower] at hbody
  obtain ⟨_, _, hestablishes⟩ := hbody
  have hempty : PartialsJustified l.store programs State.initial.partials := by
    intro p hp
    cases hp
  have hend : st.store.Grows l.store := by
    rw [hstore]
    exact hgrows
  obtain ⟨hjustified, hmain⟩ := hestablishes hend hempty
  have heq : l.partials = st.partials := hpartials.trans hpartials'
  rw [hroot]
  constructor
  · intro target use
    exact hmain.walks
  · intro p hp
    rw [heq] at hp
    obtain ⟨body, hlookup, hjustifies⟩ := hjustified p hp
    exact ⟨body, hlookup, fun target use => hjustifies.walks⟩

/-- A number, and a partial for the same data. -/
def numberedItem : Program :=
  [.interpolation (.path { written := "uint8", parts := ["uint8"] })
      [.path { written := "n", parts := ["n"] }] [] true {},
    .inclusion "label" [] [] {}]

/-- A loop over at least three items. -/
def numbered : Program :=
  [.block { written := "each", parts := ["each"] }
    [.path { written := "items", parts := ["items"] }] [("length", .number "3")] []
    numberedItem none {}]

/-- The text of an item. -/
def numberedLabel : Program :=
  [.interpolation (.path { written := "s", parts := ["s"] }) [] [] true {}]

/-- The items of a loop, the number in each, and the text in the partial. -/
theorem lower_justifies_uses_numbered : ∃ l, lower [("label", numberedLabel)] numbered = .ok l ∧
    (∃ id, Walks l.store l.root [.member "items"] id ∧
      (Use.items (some 3)).MetBy (l.store.get id)) ∧
    (∃ id, Walks l.store l.root [.member "items", .index "_i", .member "n"] id ∧
      (Use.number false (some 8)).MetBy (l.store.get id)) ∧
    ∃ p ∈ l.partials, p.name = "label" ∧
      ∃ id, Walks l.store p.input [.member "s"] id ∧ Use.text.MetBy (l.store.get id) := by
  have hrun : endsWith (lowerProgram [("label", numberedLabel)] 0 numbered State.initial)
      (fun st => settlesWith 1 st fun st' => st'.partials.any (·.name == "label")) = true := by
    decide +kernel
  obtain ⟨l, st', hlower, hpartials, _, _, hlabel⟩ := exists_lower_of_endsWith hrun
  obtain ⟨p, hp, hname⟩ := List.any_eq_true.1 hlabel
  rw [← hpartials] at hp
  rw [beq_iff_eq] at hname
  obtain ⟨hmain, hothers⟩ := lower_justifies_uses hlower
  -- the data that the tags use
  have hitems : (pathArgument [.path { written := "items", parts := ["items"] }] "each" >>=
      ({} : Scope).resolve) = .ok ⟨.input, [.member "items"]⟩ := by
    decide +kernel
  have hloop : Uses {} numbered ⟨.input, [.member "items"]⟩ (.items (some 3)) :=
    .items (by decide +kernel) hitems (by decide +kernel)
  have hitem : Uses
      (({} : Scope).dive ⟨.input, [.member "items", .index "_i"]⟩
        (loopAliases [] "_i" ⟨.input, [.member "items", .index "_i"]⟩))
      numberedItem ⟨.input, [.member "items", .index "_i", .member "n"]⟩
      (Helper.use (.integer false (some 8))) :=
    .helper (by decide +kernel) (by decide +kernel)
  have hnumber : Uses {} numbered ⟨.input, [.member "items", .index "_i", .member "n"]⟩
      (.number false (some 8)) :=
    .inLoop (by decide +kernel) hitems hitem
  have htext : Uses {} numberedLabel ⟨.input, [.member "s"]⟩ .text :=
    .text (by decide +kernel) (by decide +kernel)
  refine ⟨l, hlower, hmain _ _ hloop (by decide) rfl, hmain _ _ hnumber (by decide) rfl,
    p, hp, hname, ?_⟩
  obtain ⟨body, hbody, hwalks⟩ := hothers p hp
  have heq : body = numberedLabel := by
    rw [hname] at hbody
    exact (Option.some.inj hbody).symm
  rw [heq] at hwalks
  exact hwalks _ _ htext (by decide) rfl

/-- A text, and a block that looks from a place and uses nothing there. -/
def idlePlace : Program :=
  [.interpolation (.path { written := "x", parts := ["x"] }) [] [] true {},
    .block { written := "with", parts := ["with"] }
      [.path { written := "a.b", parts := ["a", "b"] }] [] [] [.content "hi" {}] none {}]

/-- A place that is only looked from has no type of its own. -/
theorem lower_idle_place : ∃ l target, lower [] idlePlace = .ok l ∧
    Uses {} idlePlace target .place ∧ target.origin = .input ∧
    ∀ id, ¬ Walks l.store l.root target.accessors id := by
  have hrun : endsWith (lowerProgram [] 0 idlePlace State.initial)
      (fun st => settlesWith 1 st fun st' =>
        st'.store == ⟨#[.struct [("x", 1)], .string none]⟩) = true := by
    decide +kernel
  obtain ⟨l, st', hlower, _, hstore, hroot, hcheck⟩ := exists_lower_of_endsWith hrun
  have hplace : Uses {} idlePlace ⟨.input, [.member "a", .member "b"]⟩ .place :=
    .later (.place (by decide +kernel) (by decide +kernel))
  refine ⟨l, ⟨.input, [.member "a", .member "b"]⟩, hlower, hplace, rfl, ?_⟩
  intro id hwalks
  have hfollow := walks_iff.1 hwalks
  rw [hstore, hroot, beq_iff_eq.1 hcheck] at hfollow
  cases hfollow

end Lower
end Stencil
