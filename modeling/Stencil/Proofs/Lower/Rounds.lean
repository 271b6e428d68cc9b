import Stencil.Lower.Finish
import Stencil.Proofs.Lower.Evolution
import Stencil.Proofs.Types.Compatible

/-!
# Rounds over the partials

A round carries what is known about the contexts of each partial to its input and back. It speaks
of the store only, so it is stated here on stores.

* `shareRound`            : a round as a computation over the store;
* `shareRound_advances`   : what a round has carried over;
* `shareRound_bounded`    : a round stays within a bound that treats the contexts of a partial alike;
* `settleTypes_correct`   : what holds where the rounds come to an end;
* `settleWithin`          : a given number of rounds.
-/

namespace Stencil
namespace Lower

open Template (Program)
open Stencil.Types (Advances Bound CoversAll Inference Kind Label NodeId Shape Store unify
  unify_advances unify_bounded)

/-! ## A round on the store -/

/-- What `shareType` does to the store. -/
def shareSites (p : LoweredPartial) : Inference Unit := do
  p.otherSites.forM fun site => unify p.input site.node site.context.text
  p.otherSites.forM fun site => unify site.node p.input site.context.text

/-- What `shareTypes` does to the store, for given partials. -/
def shareRound (ps : List LoweredPartial) : Inference Unit :=
  ps.forM shareSites

variable {α β γ : Type}

theorem infer_bind (m : Inference α) (f : α → Inference β) :
    Lowering.infer (m >>= f) = Lowering.infer m >>= fun a => Lowering.infer (f a) := by
  funext st
  change Lowering.infer (EStateM.bind m f) st = EStateM.bind _ _ st
  unfold Lowering.infer EStateM.bind
  cases h : m st.store <;> simp only [h]

theorem infer_forM (xs : List γ) (f : γ → Inference Unit) :
    Lowering.infer (xs.forM f) = xs.forM fun x => Lowering.infer (f x) := by
  induction xs with
  | nil => rfl
  | cons x xs ih =>
    change Lowering.infer (f x >>= fun _ => xs.forM f) = _ >>= _
    rw [infer_bind, ih]

theorem shareType_eq (p : LoweredPartial) : shareType p = Lowering.infer (shareSites p) := by
  unfold shareType shareSites
  rw [infer_bind, infer_forM]
  congr 1
  funext _
  rw [infer_forM]

theorem shareTypes_eq (st : State) :
    shareTypes st = Lowering.infer (shareRound st.partials) st := by
  change st.partials.forM shareType st = _
  unfold shareRound
  rw [infer_forM, funext shareType_eq]

theorem shareTypes_ok {st st' : State} :
    shareTypes st = .ok () st' ↔
      ∃ s, shareRound st.partials st.store = .ok () s ∧ st' = { st with store := s } := by
  rw [shareTypes_eq]
  unfold Lowering.infer
  cases shareRound st.partials st.store with
  | ok a s =>
    constructor
    · intro h
      cases h
      exact ⟨s, rfl, rfl⟩
    · rintro ⟨s', hs', rfl⟩
      cases hs'
      rfl
  | error e s =>
    constructor
    · intro h
      cases h
    · rintro ⟨s', hs', _⟩
      cases hs'

/-! ## What a round carries over -/

/-- The nodes of all contexts are in use. -/
def SitesIn (s : Store) (ps : List LoweredPartial) : Prop :=
  ∀ p ∈ ps, p.input < s.size ∧ ∀ site ∈ p.callSites, site.node < s.size

theorem State.Valid.sitesIn {st : State} (hst : st.Valid) : SitesIn st.store st.partials :=
  fun p hp => ⟨hst.input_lt hp, hst.site_lt p hp⟩

theorem SitesIn.of_grows {s s' : Store} {ps : List LoweredPartial} (h : SitesIn s ps)
    (hgrows : s.Grows s') : SitesIn s' ps :=
  fun p hp => ⟨Nat.lt_of_lt_of_le (h p hp).1 hgrows.size_le,
    fun site hsite => Nat.lt_of_lt_of_le ((h p hp).2 site hsite) hgrows.size_le⟩

theorem mem_otherSites {p : LoweredPartial} {site : CallSite} :
    site ∈ p.otherSites ↔ site ∈ p.callSites ∧ site.node ≠ p.input := by
  simp [LoweredPartial.otherSites]

/-- No other context of a partial lies inside its input or around it. -/
def Apart (s : Store) (p : LoweredPartial) : Prop :=
  ∀ site ∈ p.otherSites, s.Separate p.input site.node

/-- Containment between nodes does not change while the store grows. -/
theorem contains_of_grows {s s' : Store} (hs : s.Forest) (hs' : s'.Forest) (hgrows : s.Grows s')
    {outer inner : Nat} (houter : outer < s.size) (hinner : inner < s.size) :
    s'.contains outer inner = s.contains outer inner := by
  rw [Bool.eq_iff_iff, Store.contains_iff hs houter,
    Store.contains_iff hs' (Nat.lt_of_lt_of_le houter hgrows.size_le)]
  constructor
  · rintro ⟨r, hr⟩
    exact ⟨r, hgrows.follow_old hs' hr hinner⟩
  · rintro ⟨r, hr⟩
    exact ⟨r, hgrows.follow hr⟩

theorem separate_of_grows {s s' : Store} (hs : s.Forest) (hs' : s'.Forest) (hgrows : s.Grows s')
    {a b : Nat} (ha : a < s.size) (hb : b < s.size) : s'.Separate a b ↔ s.Separate a b := by
  unfold Store.Separate
  rw [contains_of_grows hs hs' hgrows ha hb, contains_of_grows hs hs' hgrows hb ha]

/-- The input of a partial has got all that was known about its contexts, and the other way
round. -/
def Shared (s s' : Store) (p : LoweredPartial) : Prop :=
  ∀ site ∈ p.otherSites, CoversAll s s' p.input site.node ∧ CoversAll s s' site.node p.input

theorem Shared.of_grows {s s₁ s₂ s' : Store} {p : LoweredPartial} (h : Shared s₁ s₂ p)
    (hbefore : s.Grows s₁) (hafter : s₂.Grows s') : Shared s s' p :=
  fun site hmem => ⟨(h site hmem).1.of_grows hbefore hafter,
    (h site hmem).2.of_grows hbefore hafter⟩

theorem shareSites_advances {s : Store} (hs : s.Forest) {p : LoweredPartial}
    (hin : SitesIn s [p]) :
    Advances s (fun _ s' => Shared s s' p ∧ Apart s p) (shareSites p s) := by
  rcases hin p List.mem_cons_self with ⟨hinput, hsites⟩
  have hsite : ∀ site ∈ p.otherSites, site.node < s.size := by
    intro site hmem
    exact hsites site (mem_otherSites.1 hmem).1
  -- from the contexts to the input; this is also where containment would be noticed
  have hthere : Advances s
      (fun _ s' => ∀ site ∈ p.otherSites,
        CoversAll s s' p.input site.node ∧ s.Separate p.input site.node)
      (p.otherSites.forM (fun site => unify p.input site.node site.context.text) s) := by
    refine Advances.forM hs ?_ ?_
    · rintro site s' s'' hgrows ⟨hcovers, hseparate⟩
      exact ⟨hcovers.of_grows (.refl _) hgrows, hseparate⟩
    · intro site hmem s' hs' hgrows
      refine (unify_advances _ hs' (Nat.lt_of_lt_of_le hinput hgrows.size_le)
        (Nat.lt_of_lt_of_le (hsite site hmem) hgrows.size_le)).mono ?_
      rintro _ s'' _ _ ⟨hcovers, hseparate⟩
      exact ⟨hcovers.of_grows hgrows (.refl _),
        (separate_of_grows hs hs' hgrows hinput (hsite site hmem)).1 hseparate⟩
  -- from the input back to the contexts
  have hback : ∀ s₁ : Store, s₁.Forest → s.Grows s₁ →
      Advances s₁ (fun _ s' => ∀ site ∈ p.otherSites, CoversAll s s' site.node p.input)
        (p.otherSites.forM (fun site => unify site.node p.input site.context.text) s₁) := by
    intro s₁ hs₁ hgrows₁
    refine Advances.forM hs₁ ?_ ?_
    · intro site s' s'' hgrows h
      exact h.of_grows (.refl _) hgrows
    · intro site hmem s' hs' hgrows
      have hgrows' := hgrows₁.trans hgrows
      refine (unify_advances _ hs' (Nat.lt_of_lt_of_le (hsite site hmem) hgrows'.size_le)
        (Nat.lt_of_lt_of_le hinput hgrows'.size_le)).mono ?_
      rintro _ s'' _ _ ⟨hcovers, _⟩
      exact hcovers.of_grows hgrows' (.refl _)
  refine .bind hthere ?_
  intro _ s₁ hs₁ hgrows₁ hinputs
  refine (hback s₁ hs₁ hgrows₁).mono ?_
  intro _ s₂ _ hgrows₂ hcontexts
  refine ⟨?_, fun site hmem => (hinputs site hmem).2⟩
  intro site hmem
  exact ⟨(hinputs site hmem).1.of_grows (.refl _) hgrows₂, hcontexts site hmem⟩

theorem Apart.of_grows {s s' : Store} {p : LoweredPartial} (hin : SitesIn s [p])
    (hs : s.Forest) (hs' : s'.Forest) (hgrows : s.Grows s') : Apart s' p ↔ Apart s p := by
  rcases hin p List.mem_cons_self with ⟨hinput, hsites⟩
  unfold Apart
  refine forall_congr' fun site => forall_congr' fun hmem => ?_
  exact separate_of_grows hs hs' hgrows hinput (hsites site (mem_otherSites.1 hmem).1)

theorem SitesIn.single {s : Store} {ps : List LoweredPartial} (h : SitesIn s ps)
    {p : LoweredPartial} (hp : p ∈ ps) : SitesIn s [p] := by
  intro q hq
  rw [List.mem_singleton.1 hq]
  exact h p hp

theorem shareRound_advances {s : Store} (hs : s.Forest) {ps : List LoweredPartial}
    (hin : SitesIn s ps) :
    Advances s (fun _ s' => ∀ p ∈ ps, Shared s s' p ∧ Apart s p) (shareRound ps s) := by
  refine Advances.forM hs ?_ ?_
  · rintro p s' s'' hgrows ⟨hshared, hapart⟩
    exact ⟨hshared.of_grows (.refl _) hgrows, hapart⟩
  · intro p hp s' hs' hgrows
    refine (shareSites_advances hs' ((hin.of_grows hgrows).single hp)).mono ?_
    rintro _ s'' _ _ ⟨hshared, hapart⟩
    exact ⟨hshared.of_grows hgrows (.refl _),
      (Apart.of_grows (hin.single hp) hs hs' hgrows).1 hapart⟩

/-! ## Rounds within a bound -/

/-- A bound treats the contexts of a partial and its input alike. -/
def Alike (B : List Step → Label → Prop) (s : Store) (p : LoweredPartial) : Prop :=
  ∀ site ∈ p.otherSites, ∀ P Q, s.follow 0 P = some p.input → s.follow 0 Q = some site.node →
    ∀ r l, B (P ++ r) l ↔ B (Q ++ r) l

/-- What rounds keep: the store is a forest below the input that stays within a bound. -/
structure Within (B : List Step → Label → Prop) (s s' : Store) : Prop where
  forest : s'.Forest
  grows : s.Grows s'
  bounded : s'.BoundedBy 0 B

section Bounded

variable {B : List Step → Label → Prop} {s : Store}

theorem unify_within (hB : Bound B) (hroot : ∀ i : Nat, i < s.size → ∃ P, s.follow 0 P = some i)
    (hpos : 0 < s.size) {s' : Store} (h : Within B s s') {target source : Nat}
    (ht : target < s.size) (hsource : source < s.size)
    (hsub : ∀ P Q, s.follow 0 P = some target → s.follow 0 Q = some source →
      ∀ r l, B (Q ++ r) l → B (P ++ r) l)
    (hseparate : s'.Separate target source) (path : String) :
    ∃ s'', unify target source path s' = .ok () s'' ∧ Within B s s'' := by
  -- a bound speaks of paths from the input, so both nodes are reached from there
  rcases hroot target ht with ⟨P, hP⟩
  rcases hroot source hsource with ⟨Q, hQ⟩
  have hpos' : 0 < s'.size := Nat.lt_of_lt_of_le hpos h.grows.size_le
  rcases unify_bounded hB path h.forest hpos' h.bounded (h.grows.follow hP) (h.grows.follow hQ)
    (hsub P Q hP hQ) hseparate with ⟨s'', hok, hbounded⟩
  have hadv := unify_advances path h.forest (Nat.lt_of_lt_of_le ht h.grows.size_le)
    (Nat.lt_of_lt_of_le hsource h.grows.size_le)
  rw [hok] at hadv
  exact ⟨s'', hok, hadv.1, h.grows.trans hadv.2.1, hbounded⟩

theorem shareSites_within (hB : Bound B) (hs : s.Forest)
    (hroot : ∀ i : Nat, i < s.size → ∃ P, s.follow 0 P = some i) (hpos : 0 < s.size)
    {p : LoweredPartial} (hin : SitesIn s [p]) (halike : Alike B s p) (hapart : Apart s p)
    {s' : Store} (h : Within B s s') : ∃ s'', shareSites p s' = .ok () s'' ∧ Within B s s'' := by
  rcases hin p List.mem_cons_self with ⟨hinput, hsites⟩
  have hthere : ∃ s₁, p.otherSites.forM
      (fun site => unify p.input site.node site.context.text) s' = .ok () s₁ ∧ Within B s s₁ := by
    refine Types.forM_ok h ?_
    intro site hmem s₁ h₁
    have hsite := hsites site (mem_otherSites.1 hmem).1
    refine unify_within hB hroot hpos h₁ hinput hsite ?_ ?_ _
    · intro P Q hP hQ r l
      exact (halike site hmem P Q hP hQ r l).2
    · exact (Apart.of_grows hin hs h₁.forest h₁.grows).2 hapart site hmem
  rcases hthere with ⟨s₁, hok₁, h₁⟩
  have hback : ∃ s₂, p.otherSites.forM
      (fun site => unify site.node p.input site.context.text) s₁ = .ok () s₂ ∧ Within B s s₂ := by
    refine Types.forM_ok h₁ ?_
    intro site hmem s₂ h₂
    have hsite := hsites site (mem_otherSites.1 hmem).1
    refine unify_within hB hroot hpos h₂ hsite hinput ?_ ?_ _
    · intro P Q hP hQ r l
      exact (halike site hmem Q P hQ hP r l).1
    · exact Store.Separate.symm ((Apart.of_grows hin hs h₂.forest h₂.grows).2 hapart site hmem)
  rcases hback with ⟨s₂, hok₂, h₂⟩
  refine ⟨s₂, ?_, h₂⟩
  exact (Results.run_bind_ok hok₁).trans hok₂

theorem shareRound_within (hB : Bound B) (hs : s.Forest)
    (hroot : ∀ i : Nat, i < s.size → ∃ P, s.follow 0 P = some i) (hpos : 0 < s.size)
    {ps : List LoweredPartial} (hin : SitesIn s ps) (halike : ∀ p ∈ ps, Alike B s p)
    (hapart : ∀ p ∈ ps, Apart s p) (hbounded : s.BoundedBy 0 B) :
    ∃ s', shareRound ps s = .ok () s' ∧ Within B s s' := by
  refine Types.forM_ok ⟨hs, .refl _, hbounded⟩ ?_
  intro p hp s' h
  exact shareSites_within hB hs hroot hpos (hin.single hp) (halike p hp) (hapart p hp) h

end Bounded

/-! ## Rounds of a state -/

variable {st st' : State}

theorem State.Valid.of_shareTypes (hst : st.Valid) (h : shareTypes st = .ok () st') :
    st'.Valid ∧ st.store.Grows st'.store ∧ st'.partials = st.partials ∧
      ∀ p ∈ st.partials, Shared st.store st'.store p ∧ Apart st.store p := by
  rcases shareTypes_ok.1 h with ⟨s, hs, rfl⟩
  have hadv := shareRound_advances hst.forest hst.sitesIn
  rw [hs] at hadv
  exact ⟨hst.of_grows hadv.1 hadv.2.1, hadv.2.1, rfl, hadv.2.2⟩

/-- All contexts of each partial have the type of its input. -/
def Settled (st : State) : Prop :=
  ∀ p ∈ st.partials, ∀ site ∈ p.callSites,
    (st.store.shape site.node).Same (st.store.shape p.input)

/-- A round that changes nothing finds all contexts in agreement. -/
theorem settled_of_unchanged (hst : st.Valid)
    (h : ∀ p ∈ st.partials, Shared st.store st.store p) : Settled st := by
  intro p hp site hsite
  by_cases hinput : site.node = p.input
  · rw [hinput]
    exact .refl _
  · have hcovers := h p hp site (mem_otherSites.2 ⟨hsite, hinput⟩)
    exact ⟨hcovers.1.shape_le hst.forest hst.forest, hcovers.2.shape_le hst.forest hst.forest⟩

/-- Where the rounds come to an end, all contexts are in agreement. -/
theorem settleTypes_correct (hst : st.Valid) (h : st.settleTypes = some (.ok () st')) :
    st'.Valid ∧ st.store.Grows st'.store ∧ st'.partials = st.partials ∧ Settled st' := by
  -- the rounds need not end, so the induction is on the outcome that they have
  refine State.settleTypes.partial_correctness
    (motive := fun st r => st.Valid → ∀ st', r = .ok () st' →
      st'.Valid ∧ st.store.Grows st'.store ∧ st'.partials = st.partials ∧ Settled st')
    ?_ st _ h hst st' rfl
  intro settle ih st r hr hst st' hok
  subst hok
  cases hround : shareTypes st with
  | error e st₁ => simp [hround] at hr
  | ok _ st₁ =>
    rcases hst.of_shareTypes hround with ⟨hst₁, hgrows, hpartials, hshared⟩
    simp only [hround] at hr
    split at hr
    · next heq =>
      cases hr
      -- the last round has changed nothing
      have hstore : st'.store = st.store := by
        simpa using heq
      refine ⟨hst₁, hgrows, hpartials, settled_of_unchanged hst₁ ?_⟩
      rw [hpartials, hstore]
      rw [hstore] at hshared
      exact fun p hp => (hshared p hp).1
    · rcases ih st₁ _ hr hst₁ st' rfl with ⟨hst', hgrows', hpartials', hsettled⟩
      exact ⟨hst', hgrows.trans hgrows', hpartials'.trans hpartials, hsettled⟩

/-! ## Numbers of rounds -/

theorem settleTypes_eq (st : State) :
    st.settleTypes =
      match shareTypes st with
      | .error e st' => some (.error e st')
      | .ok () st' => if st'.store == st.store then some (.ok () st') else st'.settleTypes :=
  State.settleTypes.eq_1 st

/-- The outcome after at most the given number of rounds. -/
def settleWithin : Nat → State → Option (EStateM.Result Error State Unit)
  | 0, _ => none
  | n + 1, st =>
    match shareTypes st with
    | .error e st' => some (.error e st')
    | .ok () st' => if st'.store == st.store then some (.ok () st') else settleWithin n st'

/-- The rounds have an outcome if some number of them has. -/
theorem settleTypes_eq_some_iff {r : EStateM.Result Error State Unit} :
    st.settleTypes = some r ↔ ∃ n, settleWithin n st = some r := by
  constructor
  -- an outcome of the rounds is reached after finitely many of them
  · refine State.settleTypes.partial_correctness
      (motive := fun st r => ∃ n, settleWithin n st = some r) ?_ st r
    intro settle ih st r hr
    cases hround : shareTypes st with
    | error e st₁ =>
      refine ⟨1, ?_⟩
      simpa [settleWithin, hround] using hr
    | ok _ st₁ =>
      simp only [hround] at hr
      split at hr
      · next heq =>
        refine ⟨1, ?_⟩
        simp only [settleWithin, hround, heq, if_true]
        exact hr
      · next hne =>
        rcases ih st₁ r hr with ⟨n, hn⟩
        refine ⟨n + 1, ?_⟩
        simp only [settleWithin, hround, hne]
        exact hn
  · rintro ⟨n, hn⟩
    induction n generalizing st with
    | zero => cases hn
    | succ n ih =>
      rw [settleTypes_eq]
      unfold settleWithin at hn
      cases hround : shareTypes st with
      | error e st₁ => simpa [hround] using hn
      | ok _ st₁ =>
        simp only [hround] at hn ⊢
        split at hn
        · next heq =>
          simp only [heq, if_true]
          exact hn
        · next hne =>
          simp only [hne]
          exact ih hn

/-- A computation that can be seen to end in a state with a given property. -/
def endsWith (r : EStateM.Result Error State α) (check : State → Bool) : Bool :=
  match r with
  | .ok _ st => check st
  | .error _ _ => false

theorem exists_of_endsWith {r : EStateM.Result Error State α} {check : State → Bool}
    (h : endsWith r check = true) : ∃ a st, r = .ok a st ∧ check st = true := by
  cases r with
  | ok a st => exact ⟨a, st, rfl, h⟩
  | error e st => cases h

/-- The rounds can be seen to come to an end, with a given property. -/
def settlesWith (n : Nat) (st : State) (check : State → Bool) : Bool :=
  match settleWithin n st with
  | some r => endsWith r check
  | none => false

theorem exists_of_settlesWith {n : Nat} {check : State → Bool}
    (h : settlesWith n st check = true) :
    ∃ st', st.settleTypes = some (.ok () st') ∧ check st' = true := by
  unfold settlesWith at h
  cases hr : settleWithin n st with
  | none => simp [hr] at h
  | some r =>
    simp only [hr] at h
    rcases exists_of_endsWith h with ⟨_, st', rfl, hcheck⟩
    exact ⟨st', settleTypes_eq_some_iff.2 ⟨n, hr⟩, hcheck⟩

/-! ## The last check -/

theorem forM_eq_ok {xs : List γ} {f : γ → Except Error Unit} (h : ∀ x ∈ xs, f x = .ok ()) :
    xs.forM f = .ok () := by
  induction xs with
  | nil => rfl
  | cons x xs ih =>
    change (f x >>= fun _ => xs.forM f) = .ok ()
    rw [h x List.mem_cons_self]
    exact ih fun y hy => h y (List.mem_cons_of_mem _ hy)

/-- Where all contexts are in agreement, no call is refused. -/
theorem checkCalls_of_settled (hst : st.Valid) (h : Settled st) :
    checkCalls st.store st.partials = .ok () := by
  refine forM_eq_ok fun p hp => forM_eq_ok fun site hsite => ?_
  have hcompatible := Store.compatible_of_same hst.forest.acyclic hst.forest.closed
    (hst.site_lt p hp site hsite)
    (h p hp site hsite)
  simp [checkCall, hcompatible]

theorem finish_eq (st : State) :
    finish st =
      match st.settleTypes with
      | none => .error .endless st
      | some (.error e st') => .error e st'
      | some (.ok () st') => Lowering.lift (checkCalls st'.store st'.partials) st' := by
  unfold finish
  change EStateM.bind _ _ st = _
  unfold EStateM.bind
  cases h : st.settleTypes with
  | none => simp only [h, Option.getD_none]
  | some r =>
    simp only [h, Option.getD_some]
    cases r <;> rfl

/-- Once the rounds have come to an end, the last check does not fire. -/
theorem finish_ok_iff (hst : st.Valid) :
    finish st = .ok () st' ↔ st.settleTypes = some (.ok () st') := by
  rw [finish_eq]
  cases hsettle : st.settleTypes with
  | none => simp
  | some r =>
    cases r with
    | error e st₁ => simp
    | ok _ st₁ =>
      rcases settleTypes_correct hst hsettle with ⟨hst₁, _, _, hsettled⟩
      simp only [checkCalls_of_settled hst₁ hsettled]
      change EStateM.Result.ok () st₁ = _ ↔ _
      simp

/-! ## A lowered template -/

theorem evolves_of_lowerProgram {programs : List (String × Program)} {program : Program}
    {code : List Code.Stmt} (h : lowerProgram programs 0 program State.initial = .ok code st) :
    st.Valid ∧ State.initial.Evolves [] st := by
  have hlowers := lowerProgram_lowers programs State.valid_initial State.valid_initial.nonempty
    program
  rw [h] at hlowers
  exact ⟨hlowers.1, hlowers.2.1⟩

theorem valid_of_lowerProgram {programs : List (String × Program)} {program : Program}
    {code : List Code.Stmt} (h : lowerProgram programs 0 program State.initial = .ok code st) :
    st.Valid :=
  (evolves_of_lowerProgram h).1

theorem lower_eq (programs : List (String × Program)) (program : Program) :
    lower programs program =
      match (EStateM.bind (lowerProgram programs 0 program) fun code =>
          EStateM.bind finish fun _ => pure code) State.initial with
      | .ok code st => .ok { code, partials := st.partials, store := st.store, root := 0 }
      | .error e _ => .error e :=
  rfl

/-- A lowered template is what lowering and then the rounds lead to. -/
theorem lower_ok {programs : List (String × Program)} {program : Program} {l : Lowered} :
    lower programs program = .ok l ↔
      ∃ st st', lowerProgram programs 0 program State.initial = .ok l.code st ∧
        finish st = .ok () st' ∧ l.partials = st'.partials ∧ l.store = st'.store ∧ l.root = 0 := by
  rw [lower_eq]
  unfold EStateM.bind
  cases hlower : lowerProgram programs 0 program State.initial with
  | error e st => simp
  | ok code st =>
    cases hfinish : finish st with
    | error e st' =>
      simp only [hfinish]
      constructor
      · intro h
        cases h
      · rintro ⟨st₁, st₂, h₁, h₂, _⟩
        cases h₁
        rw [hfinish] at h₂
        cases h₂
    | ok _ st' =>
      simp only [hfinish]
      constructor
      · intro h
        cases h
        exact ⟨st, st', rfl, hfinish, rfl, rfl, rfl⟩
      · rintro ⟨st₁, st₂, h₁, h₂, hpartials, hstore, hroot⟩
        cases h₁
        rw [hfinish] at h₂
        cases h₂
        rcases l with ⟨code, partials, store, root⟩
        simp only at hpartials hstore hroot
        subst hpartials hstore hroot
        rfl

/-- What is known of a lowered template: its types lie below the input, which is a struct, and all
contexts of each partial are of one type. -/
theorem lower_valid {programs : List (String × Program)} {program : Program} {l : Lowered}
    (h : lower programs program = .ok l) :
    ∃ st : State, st.Valid ∧ st.store = l.store ∧ st.partials = l.partials ∧ Settled st ∧
      (l.store.get 0).kind? = some .struct ∧ l.root = 0 := by
  rcases lower_ok.1 h with ⟨st, st', hlower, hfinish, hpartials, hstore, hroot⟩
  rcases evolves_of_lowerProgram hlower with ⟨hst, hevolves⟩
  rcases settleTypes_correct hst ((finish_ok_iff hst).1 hfinish) with ⟨hst', hgrows, _, hsettled⟩
  refine ⟨st', hst', hstore.symm, hpartials.symm, hsettled, ?_, hroot⟩
  rw [hstore]
  exact (hevolves.grows.trans hgrows).kind? (k := .struct) rfl

/-- A template that can be seen to be lowered, with a given property. -/
theorem exists_lower_of_endsWith {programs : List (String × Program)} {program : Program} {n : Nat}
    {check : State → Bool}
    (h : endsWith (lowerProgram programs 0 program State.initial)
      (fun st => settlesWith n st check) = true) :
    ∃ l st', lower programs program = .ok l ∧ l.partials = st'.partials ∧ l.store = st'.store ∧
      l.root = 0 ∧ check st' = true := by
  rcases exists_of_endsWith h with ⟨code, st, hlower, hsettles⟩
  rcases exists_of_settlesWith hsettles with ⟨st', hsettle, hcheck⟩
  have hfinish := (finish_ok_iff (valid_of_lowerProgram hlower)).2 hsettle
  exact ⟨⟨code, st'.partials, st'.store, 0⟩, st',
    lower_ok.2 ⟨st, st', hlower, hfinish, rfl, rfl, rfl⟩, rfl, rfl, rfl, hcheck⟩

end Lower
end Stencil
