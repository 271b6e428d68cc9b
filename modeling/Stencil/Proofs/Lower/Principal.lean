import Stencil.Proofs.Lower.Rounds
import Stencil.Proofs.Types.Capacity

/-!
# The least type that fits all calls

The contexts of a partial have to be of one type. This file defines `Solution`, the types of the
input for which that is so, and shows that the rounds find the least one:

* `settleTypes_of_solution` : below a solution, the rounds come to an end;
* `finish_principal`        : the result is a solution, and it is below all others.
-/

namespace Stencil
namespace Lower

open Template (Program)
open Stencil.Types (Label NodeId Shape Store)

/-- A type of the input, above the one that was inferred, in which all contexts of each partial
have the same type. -/
structure Solution (st : State) (t : Shape) : Prop where
  above : (st.store.shape 0).Le t
  agree : ∀ p ∈ st.partials, ∀ a ∈ p.callSites, ∀ b ∈ p.callSites,
    ∃ P Q u v, st.store.follow 0 P = some a.node ∧ st.store.follow 0 Q = some b.node ∧
      t.follow P = some u ∧ t.follow Q = some v ∧ u.Same v

namespace Solution

variable {st : State} {t : Shape}

theorem agree_at (h : Solution st t) (hst : st.Valid) {p : LoweredPartial} (hp : p ∈ st.partials)
    {a b : CallSite} (ha : a ∈ p.callSites) (hb : b ∈ p.callSites) {P Q : List Step}
    (hP : st.store.follow 0 P = some a.node) (hQ : st.store.follow 0 Q = some b.node) :
    ∃ u v, t.follow P = some u ∧ t.follow Q = some v ∧ u.Same v := by
  rcases h.agree p hp a ha b hb with ⟨P', Q', u, v, hP', hQ', hu, hv, hsame⟩
  rw [hst.forest.follow_unique hP hP', hst.forest.follow_unique hQ hQ']
  exact ⟨u, v, hu, hv, hsame⟩

theorem bounded (h : Solution st t) (hst : st.Valid) : st.store.BoundedBy 0 t.bound :=
  (Store.shape_le_iff hst.forest).1 h.above

/-- Places of the same type allow the same labels. -/
theorem bound_iff_of_same {P Q : List Step} {u v : Shape} (hu : t.follow P = some u)
    (hv : t.follow Q = some v) (hsame : u.Same v) (r : List Step) (l : Label) :
    t.bound (P ++ r) l ↔ t.bound (Q ++ r) l := by
  -- both directions are the same argument, so it is made for any two places
  have hone : ∀ {P Q u v}, t.follow P = some u → t.follow Q = some v → u.Same v →
      t.bound (P ++ r) l → t.bound (Q ++ r) l := by
    rintro P Q u v hu hv hsame ⟨x, hx, hle⟩
    rcases Shape.follow_append.1 hx with ⟨u', hu', hux⟩
    rw [hu] at hu'
    cases hu'
    rcases hsame.1 r x hux with ⟨y, hy, hxy⟩
    exact ⟨y, Shape.follow_append.2 ⟨v, hv, hy⟩, hle.trans hxy⟩
  exact ⟨hone hu hv hsame, hone hv hu hsame.symm⟩

theorem alike (h : Solution st t) (hst : st.Valid) {p : LoweredPartial} (hp : p ∈ st.partials) :
    Alike t.bound st.store p := by
  intro site hmem P Q hP hQ
  -- the input is the node of the first call, so it is a context like the others
  rcases hst.first p hp with ⟨first, hfirst, heq⟩
  rw [← heq] at hP
  rcases h.agree_at hst hp hfirst (mem_otherSites.1 hmem).1 hP hQ with ⟨u, v, hu, hv, hsame⟩
  exact bound_iff_of_same hu hv hsame

/-- No context lies inside another one: its type would lie inside itself. -/
theorem not_inside (h : Solution st t) (hst : st.Valid) {p : LoweredPartial}
    (hp : p ∈ st.partials) {a b : CallSite} (ha : a ∈ p.callSites) (hb : b ∈ p.callSites)
    (hne : a.node ≠ b.node) : st.store.contains a.node b.node = false := by
  rw [Bool.eq_false_iff]
  intro hcontains
  rcases (Store.contains_iff hst.forest (hst.site_lt p hp a ha)).1 hcontains with ⟨r, hr⟩
  rcases hst.rooted a.node (hst.site_lt p hp a ha) with ⟨P, hP⟩
  have hQ := Store.follow_append.2 ⟨_, hP, hr⟩
  rcases h.agree_at hst hp ha hb hP hQ with ⟨u, v, hu, hv, hsame⟩
  rcases Shape.follow_append.1 hv with ⟨u', hu', huv⟩
  rw [hu] at hu'
  cases hu'
  -- the path from one context to the other is not empty, as they differ
  have hnil : r ≠ [] := by
    rintro rfl
    exact hne (Option.some.inj hr)
  exact Shape.not_same_inside hnil huv hsame

theorem apart (h : Solution st t) (hst : st.Valid) {p : LoweredPartial} (hp : p ∈ st.partials) :
    Apart st.store p := by
  intro site hmem hne
  rcases mem_otherSites.1 hmem with ⟨hsite, _⟩
  rcases hst.first p hp with ⟨first, hfirst, heq⟩
  rw [← heq] at hne ⊢
  exact ⟨h.not_inside hst hp hfirst hsite hne, h.not_inside hst hp hsite hfirst hne.symm⟩

/-- What is a solution remains one while the store grows below it. -/
theorem of_grows (h : Solution st t) {st' : State} (hst' : st'.Valid)
    (hgrows : st.store.Grows st'.store) (hpartials : st'.partials = st.partials)
    (hbounded : st'.store.BoundedBy 0 t.bound) : Solution st' t where
  above := (Store.shape_le_iff hst'.forest).2 hbounded
  agree := by
    intro p hp a ha b hb
    rw [hpartials] at hp
    rcases h.agree p hp a ha b hb with ⟨P, Q, u, v, hP, hQ, hrest⟩
    exact ⟨P, Q, u, v, hgrows.follow hP, hgrows.follow hQ, hrest⟩

end Solution

/-! ## The rounds below a solution -/

variable {st : State} {t : Shape}

/-- A round below a solution succeeds and stays below it. -/
theorem shareTypes_of_solution (hst : st.Valid) (h : Solution st t) :
    ∃ st', shareTypes st = .ok () st' ∧ st'.Valid ∧ st.store.Grows st'.store ∧ Solution st' t := by
  rcases shareRound_within t.isBound hst.forest hst.rooted hst.nonempty hst.sitesIn
    (fun p hp => h.alike hst hp) (fun p hp => h.apart hst hp) (h.bounded hst) with
    ⟨s, hround, hwithin⟩
  have hok := shareTypes_ok.2 ⟨s, hround, rfl⟩
  rcases hst.of_shareTypes hok with ⟨hst', hgrows, hpartials, _⟩
  exact ⟨_, hok, hst', hgrows, h.of_grows hst' hgrows hpartials hwithin.bounded⟩

/-- Below a solution the rounds come to an end, as each of them adds to what is known. -/
theorem settleTypes_of_solution (hst : st.Valid) (h : Solution st t) :
    ∃ st', st.settleTypes = some (.ok () st') ∧ (st'.store.shape 0).Le t := by
  -- the measure is the room that is left below the solution: a round that changes the store adds to
  -- what is known, and never more than the solution holds
  induction hn : t.capacity - st.store.knowledge 0 t.places using Nat.strongRecOn
    generalizing st with
  | ind n ih =>
    rcases shareTypes_of_solution hst h with ⟨st₁, hround, hst₁, hgrows, hsolution⟩
    rw [settleTypes_eq, hround]
    by_cases heq : st₁.store = st.store
    · simp only [heq, beq_self_eq_true, if_true]
      exact ⟨st₁, rfl, hsolution.above⟩
    · have hbeq : (st₁.store == st.store) = false := by
        simpa using heq
      simp only [hbeq, Bool.false_eq_true, if_false]
      have hless : st.store.knowledge 0 t.places < st₁.store.knowledge 0 t.places := by
        refine Store.knowledge_lt hgrows hst.forest hst₁.forest heq hst.nonempty hst₁.rooted ?_
        intro p j hj
        rcases hsolution.bounded hst₁ p j hj with ⟨u, hu, _⟩
        exact Shape.mem_places hu
      have hcapacity := Store.knowledge_le_capacity (hsolution.bounded hst₁)
      exact ih _ (by omega) hst₁ hsolution rfl

/-- Where the rounds come to an end, the type of the input is a solution. -/
theorem solution_of_settled {st' : State} (hst : st.Valid) (hst' : st'.Valid)
    (hgrows : st.store.Grows st'.store) (hpartials : st'.partials = st.partials)
    (hsettled : Settled st') : Solution st (st'.store.shape 0) where
  above := by
    rw [Store.shape_le_iff hst.forest]
    intro p j hj
    refine ⟨st'.store.shape j, ?_, ?_⟩
    · rw [Store.follow_shape hst'.forest, hgrows.follow hj]
      rfl
    · rw [Store.label_shape hst'.forest]
      exact hgrows.label_le j
  agree := by
    intro p hp a ha b hb
    rcases hst.rooted a.node (hst.site_lt p hp a ha) with ⟨P, hP⟩
    rcases hst.rooted b.node (hst.site_lt p hp b hb) with ⟨Q, hQ⟩
    refine ⟨P, Q, st'.store.shape a.node, st'.store.shape b.node, hP, hQ, ?_, ?_, ?_⟩
    · rw [Store.follow_shape hst'.forest, hgrows.follow hP]
      rfl
    · rw [Store.follow_shape hst'.forest, hgrows.follow hQ]
      rfl
    · have hp' : p ∈ st'.partials := by
        rw [hpartials]
        exact hp
      exact (hsettled p hp' a ha).trans (hsettled p hp' b hb).symm

/-- If there is a solution, the rounds come to an end, the last check does not fire, and the type
of the input is the least solution; whenever there is a result, it is a solution. -/
theorem finish_principal {programs : List (String × Program)} {program : Program}
    {code : List Code.Stmt} (h : lowerProgram programs 0 program State.initial = .ok code st) :
    ((∃ t, Solution st t) → ∃ st', st.settleTypes = some (.ok () st') ∧
      checkCalls st'.store st'.partials = .ok () ∧ finish st = .ok () st' ∧
      Solution st (st'.store.shape 0) ∧ ∀ t, Solution st t → (st'.store.shape 0).Le t) ∧
    ∀ st', finish st = .ok () st' → Solution st (st'.store.shape 0) := by
  have hst := valid_of_lowerProgram h
  have hsound : ∀ st', finish st = .ok () st' → Solution st (st'.store.shape 0) := by
    intro st' hfinish
    rcases settleTypes_correct hst ((finish_ok_iff hst).1 hfinish) with
      ⟨hst', hgrows, hpartials, hsettled⟩
    exact solution_of_settled hst hst' hgrows hpartials hsettled
  refine ⟨?_, hsound⟩
  rintro ⟨t₀, ht₀⟩
  rcases settleTypes_of_solution hst ht₀ with ⟨st', hsettle, _⟩
  rcases settleTypes_correct hst hsettle with ⟨hst', _, _, hsettled⟩
  have hfinish := (finish_ok_iff hst).2 hsettle
  refine ⟨st', hsettle, checkCalls_of_settled hst' hsettled, hfinish, hsound st' hfinish, ?_⟩
  intro t ht
  rcases settleTypes_of_solution hst ht with ⟨st'', hsettle', hle⟩
  rw [hsettle] at hsettle'
  cases hsettle'
  exact hle

/-- A partial that is called twice, where more about its second context becomes known later. -/
theorem finish_principal_two_calls :
    ∃ code st st',
      lowerProgram [("p", [.content "hi" {}])] 0
        [.inclusion "p" [.path { written := "a", parts := ["a"] }] [] {},
          .inclusion "p" [.path { written := "b", parts := ["b"] }] [] {},
          .interpolation (.path { written := "b.x", parts := ["b", "x"] }) [] [] true {}]
        State.initial = .ok code st ∧
      finish st = .ok () st' ∧ st'.store ≠ st.store ∧ Solution st (st'.store.shape 0) ∧
      ∀ t, Solution st t → (st'.store.shape 0).Le t := by
  have hrun : endsWith (lowerProgram [("p", [.content "hi" {}])] 0
      [.inclusion "p" [.path { written := "a", parts := ["a"] }] [] {},
        .inclusion "p" [.path { written := "b", parts := ["b"] }] [] {},
        .interpolation (.path { written := "b.x", parts := ["b", "x"] }) [] [] true {}]
      State.initial) (fun st => settlesWith 2 st fun st' => st'.store != st.store) = true := by
    decide +kernel
  rcases exists_of_endsWith hrun with ⟨code, st, hlower, hsettles⟩
  rcases exists_of_settlesWith hsettles with ⟨st', hsettle, hchanged⟩
  have hfinish := (finish_ok_iff (valid_of_lowerProgram hlower)).2 hsettle
  have hsolution := (finish_principal hlower).2 st' hfinish
  -- the result is itself a solution, so the first part applies
  rcases (finish_principal hlower).1 ⟨_, hsolution⟩ with ⟨st'', _, _, hfinish', _, hleast⟩
  rw [hfinish] at hfinish'
  cases hfinish'
  exact ⟨code, st, st', hlower, hfinish, by simpa using hchanged, hsolution, hleast⟩

end Lower
end Stencil
