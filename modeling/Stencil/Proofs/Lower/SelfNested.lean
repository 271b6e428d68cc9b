import Stencil.Proofs.Lower.Principal

/-!
# Contexts inside contexts of the same partial

A context inside another context of the same partial would have to be of a type that lies inside
itself, so there is no solution. The rounds compare the contexts of a partial with its input only,
that is with the context of its first call:

* a context inside the input, or around it, is refused in the first round;
* among other contexts the nesting is not seen, and the rounds copy the one into the other for ever,
  unless two kinds clash on the way.

`finish_self_nested` says exactly when the rounds come to an end. Kinds do not clash if and only if
there is a kind for every path, to any depth, that is the known one and the same at all contexts of
a partial (`KindsFit`).
-/

namespace Stencil
namespace Lower

open Template (Program)
open Stencil.Types (Bound CoversAll Kind Label NodeId Shape Store)

/-- Some partial is called with a context and with another one inside that. -/
def SelfNested (st : State) : Prop :=
  ∃ p ∈ st.partials, ∃ a ∈ p.callSites, ∃ b ∈ p.callSites,
    st.store.contains a.node b.node = true ∧ a.node ≠ b.node

/-- A choice of kinds for all paths into the input: those that are known, and the same at all
contexts of each partial. -/
structure KindsFit (st : State) (K : List Step → Option Kind) : Prop where
  above : ∀ P j k, st.store.follow 0 P = some j → (st.store.get j).kind? = some k → K P = some k
  agree : ∀ p ∈ st.partials, ∀ a ∈ p.callSites, ∀ b ∈ p.callSites,
    ∃ P Q, st.store.follow 0 P = some a.node ∧ st.store.follow 0 Q = some b.node ∧
      ∀ r, K (P ++ r) = K (Q ++ r)

/-! ## No result -/

variable {st : State}

theorem SelfNested.not_solution (h : SelfNested st) (hst : st.Valid) (t : Shape) :
    ¬ Solution st t := by
  rcases h with ⟨p, hp, a, ha, b, hb, hcontains, hne⟩
  intro hsolution
  rw [hsolution.not_inside hst hp ha hb hne] at hcontains
  cases hcontains

theorem SelfNested.not_settled (h : SelfNested st) (hst : st.Valid) : ¬ Settled st := by
  intro hsettled
  exact h.not_solution hst _ (solution_of_settled hst hst (.refl _) rfl hsettled)

theorem SelfNested.of_grows (h : SelfNested st) (hst : st.Valid) {st' : State} (hst' : st'.Valid)
    (hgrows : st.store.Grows st'.store) (hpartials : st'.partials = st.partials) :
    SelfNested st' := by
  rcases h with ⟨p, hp, a, ha, b, hb, hcontains, hne⟩
  refine ⟨p, hpartials ▸ hp, a, ha, b, hb, ?_, hne⟩
  rw [contains_of_grows hst.forest hst'.forest hgrows (hst.site_lt p hp a ha)
    (hst.site_lt p hp b hb)]
  exact hcontains

/-! ## Fitting kinds: the rounds go on -/

/-- The labels of the chosen kinds. -/
def kindBound (K : List Step → Option Kind) (P : List Step) (l : Label) : Prop :=
  ∀ k, l.kind = some k → K P = some k

theorem isBound_kindBound (K : List Step → Option Kind) : Bound (kindBound K) where
  unknown := by
    intro P l _ k hk
    cases hk
  kind_unique := by
    intro P k k' l l' h h'
    have heq := (h k rfl).symm.trans (h' k' rfl)
    exact Option.some.inj heq
  kind := by
    intro P k l h k' hk'
    exact h k' hk'
  raise := by
    intro P k l n h _ k' hk'
    exact h k' hk'

namespace KindsFit

variable {K : List Step → Option Kind}

theorem bounded (h : KindsFit st K) : st.store.BoundedBy 0 (kindBound K) := by
  intro P j hj k hk
  exact h.above P j k hj hk

theorem alike (h : KindsFit st K) (hst : st.Valid) {p : LoweredPartial} (hp : p ∈ st.partials) :
    Alike (kindBound K) st.store p := by
  intro site hmem P Q hP hQ r l
  rcases hst.first p hp with ⟨first, hfirst, heq⟩
  rcases h.agree p hp first hfirst site (mem_otherSites.1 hmem).1 with ⟨P', Q', hP', hQ', hK⟩
  rw [heq] at hP'
  rw [hst.forest.follow_unique hP hP', hst.forest.follow_unique hQ hQ']
  unfold kindBound
  rw [hK r]

/-- A round succeeds and leaves the kinds fitting. -/
theorem shareTypes_ok (h : KindsFit st K) (hst : st.Valid)
    (hapart : ∀ p ∈ st.partials, Apart st.store p) :
    ∃ st', shareTypes st = .ok () st' ∧ KindsFit st' K := by
  rcases shareRound_within (isBound_kindBound K) hst.forest hst.rooted hst.nonempty hst.sitesIn
    (fun p hp => h.alike hst hp) hapart h.bounded with ⟨s, hround, hwithin⟩
  refine ⟨_, Lower.shareTypes_ok.2 ⟨s, hround, rfl⟩, ?_, ?_⟩
  · intro P j k hj hk
    exact hwithin.bounded P j hj k hk
  · intro p hp a ha b hb
    rcases h.agree p hp a ha b hb with ⟨P, Q, hP, hQ, hK⟩
    exact ⟨P, Q, hwithin.grows.follow hP, hwithin.grows.follow hQ, hK⟩

/-- However many rounds there are, they do not come to an end. -/
theorem settleWithin_eq_none (h : KindsFit st K) (hst : st.Valid) (hnested : SelfNested st)
    (hapart : ∀ p ∈ st.partials, Apart st.store p) (n : Nat) : settleWithin n st = none := by
  induction n generalizing st with
  | zero => rfl
  | succ n ih =>
    rcases h.shareTypes_ok hst hapart with ⟨st', hround, hfit⟩
    rcases hst.of_shareTypes hround with ⟨hst', hgrows, hpartials, hshared⟩
    have hnested' := hnested.of_grows hst hst' hgrows hpartials
    -- a round without a change would mean that all contexts agree, and they cannot
    have hchanged : (st'.store == st.store) = false := by
      rw [beq_eq_false_iff_ne]
      intro heq
      refine hnested'.not_settled hst' (settled_of_unchanged hst' ?_)
      intro p hp
      rw [hpartials] at hp
      rw [heq]
      rw [heq] at hshared
      exact (hshared p hp).1
    simp only [settleWithin, hround, hchanged, Bool.false_eq_true, if_false]
    refine ih hfit hst' hnested' ?_
    intro p hp
    rw [hpartials] at hp
    exact (Apart.of_grows (hst.sitesIn.single hp) hst.forest hst'.forest hgrows).2 (hapart p hp)

end KindsFit

/-! ## Rounds that go on: fitting kinds -/

/-- The state after one more round. -/
def nextRound (st : State) : State :=
  match shareTypes st with
  | .ok () st' => st'
  | .error _ st' => st'

theorem shareTypes_of_endless (h : st.settleTypes = none) :
    shareTypes st = .ok () (nextRound st) ∧ (nextRound st).settleTypes = none := by
  rw [settleTypes_eq] at h
  unfold nextRound
  cases hround : shareTypes st with
  | error e st' => simp [hround] at h
  | ok _ st' =>
    simp only [hround] at h
    split at h
    · cases h
    · exact ⟨rfl, h⟩

/-- The rounds go on after any number of them. -/
theorem iterate_of_endless (hst : st.Valid) (h : st.settleTypes = none) (n : Nat) :
    (nextRound^[n] st).Valid ∧ st.store.Grows (nextRound^[n] st).store ∧
      (nextRound^[n] st).partials = st.partials ∧ (nextRound^[n] st).settleTypes = none := by
  induction n with
  | zero => exact ⟨hst, .refl _, rfl, h⟩
  | succ n ih =>
    rcases ih with ⟨hst', hgrows, hpartials, hendless⟩
    rw [Function.iterate_succ_apply']
    rcases shareTypes_of_endless hendless with ⟨hround, hendless'⟩
    rcases hst'.of_shareTypes hround with ⟨hst'', hgrows', hpartials', _⟩
    exact ⟨hst'', hgrows.trans hgrows', hpartials'.trans hpartials, hendless'⟩

theorem grows_iterate (hst : st.Valid) (h : st.settleTypes = none) {n m : Nat} (hle : n ≤ m) :
    (nextRound^[n] st).store.Grows (nextRound^[m] st).store := by
  rcases Nat.exists_eq_add_of_le' hle with ⟨d, rfl⟩
  rw [Function.iterate_add_apply]
  rcases iterate_of_endless hst h n with ⟨hst', _, _, hendless⟩
  exact (iterate_of_endless hst' hendless d).2.1

/-- After some round, the path `r` from a node leads to a node of the given kind. -/
def Known (st : State) (node : NodeId) (r : List Step) (k : Kind) : Prop :=
  ∃ n j, (nextRound^[n] st).store.follow node r = some j ∧
    ((nextRound^[n] st).store.get j).kind? = some k

theorem Known.unique (hst : st.Valid) (h : st.settleTypes = none) {node : NodeId} {r : List Step}
    {k k' : Kind} (hk : Known st node r k) (hk' : Known st node r k') : k = k' := by
  rcases hk with ⟨n, j, hj, hkind⟩
  rcases hk' with ⟨m, i, hi, hkind'⟩
  -- compare the two after the later of the two rounds
  have hn := grows_iterate hst h (Nat.le_max_left n m)
  have hm := grows_iterate hst h (Nat.le_max_right n m)
  have hj' := hn.follow hj
  rw [hm.follow hi] at hj'
  cases hj'
  have heq := hn.kind? hkind
  rw [hm.kind? hkind'] at heq
  exact (Option.some.inj heq).symm

theorem Known.of_covers {target source : NodeId} {r : List Step} {k : Kind} {n : Nat}
    (hcovers : CoversAll (nextRound^[n] st).store (nextRound^[n + 1] st).store target source)
    {j : NodeId} (hj : (nextRound^[n] st).store.follow source r = some j)
    (hkind : ((nextRound^[n] st).store.get j).kind? = some k) : Known st target r k := by
  rcases hcovers r j hj with ⟨i, hi, hle⟩
  exact ⟨n + 1, i, hi, hle.1 k hkind⟩

/-- What becomes known about a context of a partial becomes known about its input, and the other way
round. -/
theorem known_site_iff (hst : st.Valid) (h : st.settleTypes = none) {p : LoweredPartial}
    (hp : p ∈ st.partials) {site : CallSite} (hsite : site ∈ p.callSites) (r : List Step)
    (k : Kind) : Known st site.node r k ↔ Known st p.input r k := by
  by_cases hinput : site.node = p.input
  · rw [hinput]
  · have hshared : ∀ n, Shared (nextRound^[n] st).store (nextRound^[n + 1] st).store p := by
      intro n
      rcases iterate_of_endless hst h n with ⟨hst', _, hpartials, hendless⟩
      have hround := (shareTypes_of_endless hendless).1
      rw [Function.iterate_succ_apply']
      exact ((hst'.of_shareTypes hround).2.2.2 p (hpartials ▸ hp)).1
    have hmem := mem_otherSites.2 ⟨hsite, hinput⟩
    constructor
    · rintro ⟨n, j, hj, hkind⟩
      exact .of_covers (hshared n site hmem).1 hj hkind
    · rintro ⟨n, j, hj, hkind⟩
      exact .of_covers (hshared n site hmem).2 hj hkind

theorem known_append_iff (hst : st.Valid) (h : st.settleTypes = none) {P : List Step}
    {node : NodeId} (hP : st.store.follow 0 P = some node) (r : List Step) (k : Kind) :
    Known st 0 (P ++ r) k ↔ Known st node r k := by
  have hP' : ∀ n, (nextRound^[n] st).store.follow 0 P = some node := by
    intro n
    exact (iterate_of_endless hst h n).2.1.follow hP
  constructor
  · rintro ⟨n, j, hj, hkind⟩
    rcases Store.follow_append.1 hj with ⟨c, hc, hcj⟩
    rw [hP' n] at hc
    cases hc
    exact ⟨n, j, hcj, hkind⟩
  · rintro ⟨n, j, hj, hkind⟩
    exact ⟨n, j, Store.follow_append.2 ⟨node, hP' n, hj⟩, hkind⟩

/-- If the rounds go on for ever, the kinds that they find fit. -/
theorem exists_kindsFit (hst : st.Valid) (h : st.settleTypes = none) : ∃ K, KindsFit st K := by
  -- the kind of a path is the one that becomes known some time, if any does
  have hchoice : ∀ P, ∃ o : Option Kind, ∀ k, o = some k ↔ Known st 0 P k := by
    intro P
    by_cases hknown : ∃ k, Known st 0 P k
    · rcases hknown with ⟨k, hk⟩
      refine ⟨some k, fun k' => ⟨?_, ?_⟩⟩
      · intro heq
        cases heq
        exact hk
      · intro hk'
        rw [hk.unique hst h hk']
    · refine ⟨none, fun k => ⟨?_, ?_⟩⟩
      · intro heq
        cases heq
      · intro hk
        exact absurd ⟨k, hk⟩ hknown
  choose K hK using hchoice
  refine ⟨K, ?_, ?_⟩
  · intro P j k hj hkind
    exact (hK P k).2 ⟨0, j, hj, hkind⟩
  · intro p hp a ha b hb
    rcases hst.rooted a.node (hst.site_lt p hp a ha) with ⟨P, hP⟩
    rcases hst.rooted b.node (hst.site_lt p hp b hb) with ⟨Q, hQ⟩
    refine ⟨P, Q, hP, hQ, fun r => Option.ext fun k => ?_⟩
    calc K (P ++ r) = some k ↔ Known st 0 (P ++ r) k := hK _ k
      _ ↔ Known st a.node r k := known_append_iff hst h hP r k
      _ ↔ Known st p.input r k := known_site_iff hst h hp ha r k
      _ ↔ Known st b.node r k := (known_site_iff hst h hp hb r k).symm
      _ ↔ Known st 0 (Q ++ r) k := (known_append_iff hst h hQ r k).symm
      _ ↔ K (Q ++ r) = some k := (hK _ k).symm

/-! ## When the rounds come to an end -/

/-- Nothing stops the rounds: no context lies inside the input of its partial or around it, and the
kinds fit. -/
def Unstopped (st : State) : Prop :=
  (∀ p ∈ st.partials, Apart st.store p) ∧ ∃ K, KindsFit st K

/-- Where a context lies inside another one of the same partial, there is never a result: the rounds
go on for ever if nothing stops them, and else they end in an error. -/
theorem finish_self_nested {programs : List (String × Program)} {program : Program}
    {code : List Code.Stmt} (h : lowerProgram programs 0 program State.initial = .ok code st)
    (hnested : SelfNested st) :
    (∀ st', finish st ≠ .ok () st') ∧ (st.settleTypes = none ↔ Unstopped st) ∧
      (¬ Unstopped st → ∃ e st', st.settleTypes = some (.error e st') ∧ finish st = .error e st') := by
  have hst := valid_of_lowerProgram h
  -- a result would be in agreement, but the containment is still there
  have hnever : ∀ st', st.settleTypes ≠ some (.ok () st') := by
    intro st' hsettle
    rcases settleTypes_correct hst hsettle with ⟨hst', hgrows, hpartials, hsettled⟩
    exact (hnested.of_grows hst hst' hgrows hpartials).not_settled hst' hsettled
  have hendless : st.settleTypes = none ↔ Unstopped st := by
    constructor
    · intro hnone
      refine ⟨?_, exists_kindsFit hst hnone⟩
      intro p hp
      exact ((hst.of_shareTypes (shareTypes_of_endless hnone).1).2.2.2 p hp).2
    · rintro ⟨hapart, K, hfit⟩
      cases hsettle : st.settleTypes with
      | none => rfl
      | some r =>
        rcases settleTypes_eq_some_iff.1 hsettle with ⟨n, hn⟩
        rw [hfit.settleWithin_eq_none hst hnested hapart n] at hn
        cases hn
  refine ⟨fun st' hfinish => hnever st' ((finish_ok_iff hst).1 hfinish), hendless, ?_⟩
  intro hstopped
  cases hsettle : st.settleTypes with
  | none => exact absurd (hendless.1 hsettle) hstopped
  | some r =>
    cases r with
    | ok _ st' => exact absurd hsettle (hnever st')
    | error e st' => exact ⟨e, st', rfl, by rw [finish_eq, hsettle]⟩

/-- Nothing stops the rounds if all that is known are structs. -/
theorem kindsFit_struct (hst : st.Valid)
    (h : st.store.nodes.all (fun n => n.kind? == none || n.kind? == some .struct) = true) :
    KindsFit st fun _ => some .struct where
  above := by
    intro P j k _ hk
    have hlt : j < st.store.nodes.size := Store.lt_size_of_kind? hk
    have hnode := Array.all_eq_true.1 h j hlt
    have hget : st.store.nodes[j] = st.store.get j := by
      simp [Store.get, Array.getD, hlt]
    rw [hget, hk] at hnode
    have hstruct : k = .struct := by
      simpa using hnode
    rw [hstruct]
  agree := by
    intro p hp a ha b hb
    rcases hst.rooted a.node (hst.site_lt p hp a ha) with ⟨P, hP⟩
    rcases hst.rooted b.node (hst.site_lt p hp b hb) with ⟨Q, hQ⟩
    exact ⟨P, Q, hP, hQ, fun _ => rfl⟩

/-- Three calls of a partial: the second context has the third one inside it, and the first one lies
apart from both. -/
theorem finish_self_nested_unseen :
    ∃ code st,
      lowerProgram [("p", [.content "hi" {}])] 0
        [.inclusion "p" [.path { written := "a", parts := ["a"] }] [] {},
          .inclusion "p" [.path { written := "b", parts := ["b"] }] [] {},
          .inclusion "p" [.path { written := "b.c", parts := ["b", "c"] }] [] {}]
        State.initial = .ok code st ∧
      SelfNested st ∧ st.settleTypes = none := by
  have hrun : endsWith (lowerProgram [("p", [.content "hi" {}])] 0
      [.inclusion "p" [.path { written := "a", parts := ["a"] }] [] {},
        .inclusion "p" [.path { written := "b", parts := ["b"] }] [] {},
        .inclusion "p" [.path { written := "b.c", parts := ["b", "c"] }] [] {}]
      State.initial) (fun st =>
        st.partials.any (fun p => p.callSites.any fun a => p.callSites.any fun b =>
          st.store.contains a.node b.node && a.node != b.node) &&
        st.partials.all (fun p => p.otherSites.all fun site =>
          !st.store.contains p.input site.node && !st.store.contains site.node p.input) &&
        st.store.nodes.all (fun n => n.kind? == none || n.kind? == some .struct)) = true := by
    decide +kernel
  rcases exists_of_endsWith hrun with ⟨code, st, hlower, hcheck⟩
  simp only [Bool.and_eq_true] at hcheck
  rcases hcheck with ⟨⟨hany, hall⟩, hkinds⟩
  have hst := valid_of_lowerProgram hlower
  have hnested : SelfNested st := by
    simpa [SelfNested] using hany
  have hapart : ∀ p ∈ st.partials, Apart st.store p := by
    intro p hp site hmem _
    have hsite := List.all_eq_true.1 (List.all_eq_true.1 hall p hp) site hmem
    simpa using hsite
  exact ⟨code, st, hlower, hnested,
    (finish_self_nested hlower hnested).2.1.2 ⟨hapart, _, kindsFit_struct hst hkinds⟩⟩

end Lower
end Stencil
