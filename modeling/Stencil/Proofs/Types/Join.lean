import Mathlib.Logic.Function.Iterate
import Stencil.Proofs.Types.Built
import Stencil.Proofs.Types.Demands

/-!
# Unification as a join

Unification carries what is known about one node over to another one, level by level, and makes new
nodes in the store that it reads. For nodes of which neither lies inside the other this is the join
of two types (`unify_join`):

* it ends: what stands below the last level makes no difference (`iterate_unifyLevel`);
* it fails where the two types conflict, and only there (`Store.Conflict`);
* else the target gets the least type above both (`Shape.IsJoin`), and nothing else changes.
-/

namespace Stencil
namespace Types

/-! ## The last level -/

/-- Loops whose passes do the same, on stores with some property that the passes keep. -/
theorem forM_congr_of_inv {γ : Type} {xs : List γ} {f g : γ → Inference Unit} {I : Store → Prop}
    {s : Store} (hs : I s) (hrun : ∀ x ∈ xs, ∀ s, I s → f x s = g x s)
    (hinv : ∀ x ∈ xs, ∀ s s', I s → g x s = .ok () s' → I s') :
    xs.forM f s = xs.forM g s := by
  induction xs generalizing s with
  | nil => rfl
  | cons x xs ih =>
    obtain ⟨hx, hxs⟩ := List.forall_mem_cons.1 hrun
    obtain ⟨hx', hxs'⟩ := List.forall_mem_cons.1 hinv
    change (f x >>= fun _ => xs.forM f) s = (g x >>= fun _ => xs.forM g) s
    cases hg : g x s with
    | error e s₁ =>
      rw [Results.run_bind_error hg, Results.run_bind_error ((hx s hs).trans hg)]
    | ok _ s₁ =>
      rw [Results.run_bind_ok hg, Results.run_bind_ok ((hx s hs).trans hg)]
      exact ih (hx' s s₁ hs hg) hxs hxs'

/-- If all paths into the source are shorter than the depth, whatever is done in the target, then
what stands below the last level is never run. -/
theorem iterate_unifyLevel (below : NodeId → NodeId → String → Inference Unit) (depth : Nat)
    {s : Store} {target : Nat} (source : NodeId) (path : String) (hs : s.Forest)
    (ht : target < s.size)
    (hdeep : Steady s target fun s' => ∀ p j, s'.follow source p = some j → p.length < depth) :
    unifyLevel^[depth] below target source path s = unifyUpTo depth target source path s := by
  induction depth generalizing s target source path with
  | zero => exact absurd (hdeep s (.refl hs target) [] source rfl) (Nat.lt_irrefl 0)
  | succ depth ih =>
    rw [Function.iterate_succ_apply', unifyUpTo_eq_unifyLevel, unifyLevel_eq, unifyLevel_eq]
    cases hk : (s.get source).kind? with
    | none => rfl
    | some kind =>
      simp only
      split
      · next hagree =>
        have hgrows₁ := Store.growsInside_absorb hs ht (s.get source) kind
        have hlabel := (Store.absorb_advances hs ht hk hagree).2.2
        generalize s.absorb target (s.get source) kind = s₁ at hgrows₁ hlabel ⊢
        refine forM_congr_of_inv (I := (s₁.GrowsInside · target)) (.refl hgrows₁.forest target)
          ?_ ?_
        · rintro ⟨a, c⟩ hpart s₂ hgrows₂
          obtain ⟨hc, hkind⟩ := Store.child?_of_mem_parts hs hpart
          have hkind₂ := hgrows₂.grows.kind? (hlabel.1 _ hkind)
          obtain ⟨hstep, hinside⟩ := Store.growsInside_step hgrows₂.forest hkind₂
          have hgrows := (hgrows₁.trans hgrows₂).trans hstep
          have hlt := hstep.forest.follow_lt (Nat.lt_of_lt_of_le ht hgrows.grows.size_le) hinside
          refine ih c (path ++ a.text) hstep.forest hlt ?_
          -- one step further inside the source there is one level less to go
          intro s' hgrows' p j hj
          have hchild := (hgrows.grows.trans hgrows'.grows).child hc
          have hlen := (hdeep.inward hgrows hinside) s' hgrows' (a.step :: p) j
            (Store.follow_cons.2 ⟨c, hchild, hj⟩)
          exact Nat.lt_of_succ_lt_succ hlen
        · rintro ⟨a, c⟩ hpart s₂ s₃ hgrows₂ hok
          have hkind := (Store.child?_of_mem_parts hs hpart).2
          have hconfines := unifyPart_confines (unifyUpTo_confines depth) hgrows₂.forest
            (hgrows₂.grows.kind? (hlabel.1 _ hkind)) c path
          rw [hok] at hconfines
          exact hgrows₂.trans hconfines
      · rfl

/-! ## Conflicts -/

/-- There are nodes of different kinds at the same place inside two nodes. -/
def Store.Conflict (s : Store) (a b : NodeId) : Prop :=
  ∃ p i j k k', s.follow a p = some i ∧ s.follow b p = some j ∧
    (s.get i).kind? = some k ∧ (s.get j).kind? = some k' ∧ k ≠ k'

/-- What is known at a place inside one of two nodes. -/
def Store.KnownInside (s : Store) (a b : NodeId) (p : List Step) (l : Label) : Prop :=
  ∃ j, (s.follow a p = some j ∨ s.follow b p = some j) ∧ (s.get j).label = l

/-- Nodes with lengths are of kinds that have lengths. -/
theorem Node.hasLength_of_length? {n : Node} {m : Nat} (h : n.length? = some m) :
    ∃ k, n.kind? = some k ∧ k.hasLength = true := by
  cases n with
  | string | uint | int | array => exact ⟨_, rfl, rfl⟩
  | unknown | bool | struct => cases h

theorem Store.coherent_of_not_conflict {s : Store} {a b : NodeId} (h : ¬ s.Conflict a b) :
    Coherent (s.KnownInside a b) := by
  refine ⟨?_, ?_⟩
  · rintro p _ _ k k' ⟨i, hi, rfl⟩ ⟨j, hj, rfl⟩ hk hk'
    by_contra hne
    rcases hi with hi | hi <;> rcases hj with hj | hj
    · rw [hi] at hj
      cases hj
      exact hne (Option.some.inj (hk.symm.trans hk'))
    · exact h ⟨p, i, j, k, k', hi, hj, hk, hk', hne⟩
    · exact h ⟨p, j, i, k', k, hj, hi, hk', hk, Ne.symm hne⟩
    · rw [hi] at hj
      cases hj
      exact hne (Option.some.inj (hk.symm.trans hk'))
  · rintro p _ n ⟨j, _, rfl⟩ hn
    exact Node.hasLength_of_length? hn

/-! ## Nodes apart from each other -/

/-- The nodes inside a node make its type. -/
theorem Store.shape_congr {s s' : Store} (hs : s.Forest) (hs' : s'.Forest) {id : Nat}
    (h : ∀ p j, s.follow id p = some j → s'.get j = s.get j) : s'.shape id = s.shape id := by
  induction id using hs.inside_out with
  | inside id ih =>
    have hchild : ∀ {σ c}, (s.get id).child? σ = some c → s'.shape c = s.shape c := by
      intro σ c hc
      exact ih hc fun p j hj => h (σ :: p) j (follow_cons.2 ⟨c, hc, hj⟩)
    rw [shape_eq hs', shape_eq hs, h [] id rfl]
    cases hn : s.get id with
    | array length element =>
      have helement : (s.get id).child? .element = some element := by
        rw [hn]
        rfl
      simp only [hchild helement]
    | struct members =>
      simp only
      congr 1
      refine List.map_congr_left ?_
      intro m hm
      rw [hchild (mem_child? hs hn hm)]
    | _ => rfl

section

variable {s : Store} {target source : Nat}

/-- Nodes apart from each other are unified within any bound on both. -/
theorem unifyUpTo_apart {B : List Step → Label → Prop} (hB : Bound B) (depth : Nat) (path : String)
    (hs : s.Forest) (hapart : s.Apart target source) (htarget : s.BoundedBy target B)
    (hsource : s.BoundedBy source B) :
    ∃ s', unifyUpTo depth target source path s = .ok () s' ∧ s'.BoundedBy target B := by
  refine unifyUpTo_bounded hB depth path hs hapart.left_lt htarget (Store.follow_nil s target) ?_
  intro s' hgrows _ p j hj
  rw [hapart.get_eq hgrows hj]
  exact hsource p j ((hapart.follow_iff hgrows).1 hj)

/-- A target that has got all that is known about a source is in no conflict with it. -/
theorem CoversAll.not_conflict {s' : Store} (h : CoversAll s s' target source)
    (hgrows : s.Grows s') : ¬ s.Conflict target source := by
  rintro ⟨p, i, j, k, k', hi, hj, hk, hk', hne⟩
  obtain ⟨i', hi', hle⟩ := h p j hj
  rw [hgrows.follow hi] at hi'
  cases hi'
  exact hne (Option.some.inj ((hgrows.kind? hk).symm.trans (hle.1 k' hk')))

theorem Store.Grows.coversAll {s' : Store} (h : s.Grows s') (id : NodeId) :
    CoversAll s s' id id :=
  fun _ j hj => ⟨j, h.follow hj, h.label_le j⟩

end

/-! ## The join -/

/-- The least type above two others. -/
structure Shape.IsJoin (a b t : Shape) : Prop where
  left : a.Le t
  right : b.Le t
  least : ∀ u, a.Le u → b.Le u → t.Le u

/-- What unification leaves of a store in which it succeeds. -/
structure Store.Joins (s s' : Store) (target source : NodeId) : Prop where
  join : Shape.IsJoin (s.shape target) (s.shape source) (s'.shape target)
  source_eq : s'.shape source = s.shape source
  outside : ∀ id, id < s.size → s.contains target id = false → s'.get id = s.get id
  added : ∀ id, s.size ≤ id → id < s'.size → s'.contains target id = true

section

variable {s : Store} {target source : Nat}

theorem Store.Apart.unify_eq (h : s.Apart target source) (hs : s.Forest) (path : String) :
    unify target source path s = unifyUpTo s.size target source path s := by
  obtain ⟨hts, hst⟩ := (apart_iff hs h.left_lt h.right_lt).1 h
  exact unify_eq_unifyUpTo path hts hst

/-- Paths into the source stay the same, and none is as long as the store is large. -/
theorem Store.Apart.unify_ends (h : s.Apart target source) (hs : s.Forest) (path : String)
    (below : NodeId → NodeId → String → Inference Unit) :
    unifyLevel^[s.size] below target source path s = unify target source path s := by
  rw [h.unify_eq hs]
  refine iterate_unifyLevel below s.size source path hs h.left_lt ?_
  intro s' hgrows p j hj
  have hold := (h.follow_iff hgrows).1 hj
  have hlen := hs.follow_length hold
  have hlt := hs.follow_lt h.right_lt hold
  omega

theorem Store.Apart.unify_fails_iff (h : s.Apart target source) (hs : s.Forest) (path : String) :
    (∃ e s', unify target source path s = .error e s') ↔ s.Conflict target source := by
  constructor
  · rintro ⟨e, s', herror⟩
    by_contra hno
    -- without a conflict, what is known about the two is a bound within which unification succeeds
    have hB := (coherent_of_not_conflict hno).typeBound.toBound
    obtain ⟨s'', hok, _⟩ := unifyUpTo_apart hB s.size path hs h
      (fun p j hj => covering_of_demand ⟨j, .inl hj, rfl⟩)
      (fun p j hj => covering_of_demand ⟨j, .inr hj, rfl⟩)
    rw [← h.unify_eq hs, herror] at hok
    cases hok
  · intro hconflict
    have hadvances := unify_advances path hs h.left_lt h.right_lt
    cases hrun : unify target source path s with
    | error e s' => exact ⟨e, s', rfl⟩
    | ok _ s' =>
      rw [hrun] at hadvances
      exact absurd hconflict (hadvances.2.2.1.not_conflict hadvances.2.1)

theorem Store.Apart.unify_joins (h : s.Apart target source) (hs : s.Forest) {path : String}
    {s' : Store} (hrun : unify target source path s = .ok () s') : s.Joins s' target source := by
  have hadvances := unify_advances path hs h.left_lt h.right_lt
  have hinside := unifyUpTo_confines s.size source path hs h.left_lt
  rw [hrun] at hadvances
  rw [← h.unify_eq hs, hrun] at hinside
  obtain ⟨hs', hgrows, hcovers, _⟩ := hadvances
  have hlt' := Nat.lt_of_lt_of_le h.left_lt hgrows.size_le
  refine ⟨⟨?_, ?_, ?_⟩, ?_, ?_, ?_⟩
  · exact (hgrows.coversAll target).shape_le hs hs'
  · exact hcovers.shape_le hs hs'
  · intro u hu hu'
    obtain ⟨s'', hok, hbound⟩ := unifyUpTo_apart u.isBound s.size path hs h
      ((shape_le_iff hs).1 hu) ((shape_le_iff hs).1 hu')
    rw [← h.unify_eq hs, hrun] at hok
    cases hok
    exact (shape_le_iff hs').2 hbound
  · exact shape_congr hs hs' fun p j hj => h.get_eq hinside (hgrows.follow hj)
  · intro id hid hout
    exact hinside.get_eq hid ((contains_eq_false_iff hs h.left_lt).1 hout)
  · intro id hge hlt
    exact (contains_iff hs' hlt').2 (hinside.added hs hge hlt)

end

/-- Nodes of which neither contains the other are unified by the join of their types: unification
comes to an end, fails only for kinds that conflict, and changes nothing outside the target. -/
theorem unify_join {s : Store} (hs : s.Built) {target source : Nat} (htarget : target < s.size)
    (hsource : source < s.size) (hts : s.contains target source = false)
    (hst : s.contains source target = false) (path : String) :
    (∀ below, unifyLevel^[s.size] below target source path s = unify target source path s) ∧
      ((∃ e s', unify target source path s = .error e s') ↔ s.Conflict target source) ∧
      (∀ e s', unify target source path s = .error e s' →
        ∃ place k k', e = .typeConflict place k k') ∧
      ∀ s', unify target source path s = .ok () s' → s.Joins s' target source := by
  have hapart := (Store.apart_iff hs.forest htarget hsource).2 ⟨hts, hst⟩
  refine ⟨hapart.unify_ends hs.forest path, hapart.unify_fails_iff hs.forest path, ?_,
    fun s' => hapart.unify_joins hs.forest⟩
  intro e s' herror
  have hconfines := unifyUpTo_confines s.size source path hs.forest htarget
  rw [← hapart.unify_eq hs.forest, herror] at hconfines
  exact hconfines.2

/-- An input with two members, of which different things are known. -/
def offers : Store :=
  ⟨#[.struct [("old", 1), ("new", 3)], .struct [("price", 2)], .uint (some 8),
    .struct [("price", 4), ("tags", 5)], .uint (some 16), .array none 6, .unknown]⟩

theorem offers_built : offers.Built := by
  have hold : Store.Built ⟨#[.struct [("old", 1)], .struct [("price", 2)], .uint (some 8)]⟩ :=
    @Store.Built.narrow _ _ 0 { accessors := [.member "old", .member "price"] } .uint (some 8)
      Store.Built.empty.newRoot (by decide) (.inl ⟨(), rfl⟩)
  have hnew : Store.Built ⟨#[.struct [("old", 1), ("new", 3)], .struct [("price", 2)],
      .uint (some 8), .struct [("price", 4)], .uint (some 16)]⟩ :=
    @Store.Built.narrow _ _ 0 { accessors := [.member "new", .member "price"] } .uint (some 16)
      hold (by decide) (.inl ⟨(), rfl⟩)
  exact @Store.Built.narrow _ _ 0 { accessors := [.member "new", .member "tags"] } .array none
    hnew (by decide) (.inl ⟨(), rfl⟩)

/-- The first member gets the greater length and the list of the second one. -/
theorem unify_join_offers : ∃ s', unify 1 3 "new" offers = .ok () s' ∧
    s'.get 1 = .struct [("price", 2), ("tags", 7)] ∧ s'.get 2 = .uint (some 16) ∧
    s'.get 7 = .array none 8 ∧ ¬ offers.Conflict 1 3 ∧ offers.Joins s' 1 3 := by
  obtain ⟨_, hfails, _, hjoins⟩ := unify_join offers_built (by decide : 1 < offers.size)
    (by decide : 3 < offers.size) (by decide) (by decide) "new"
  have hrun : unify 1 3 "new" offers = .ok ()
      ⟨#[.struct [("old", 1), ("new", 3)], .struct [("price", 2), ("tags", 7)], .uint (some 16),
        .struct [("price", 4), ("tags", 5)], .uint (some 16), .array none 6, .unknown,
        .array none 8, .unknown]⟩ := rfl
  refine ⟨_, hrun, rfl, rfl, rfl, ?_, hjoins _ hrun⟩
  intro hconflict
  obtain ⟨e, s', herror⟩ := hfails.2 hconflict
  rw [hrun] at herror
  cases herror

end Types
end Stencil
