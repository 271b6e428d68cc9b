import Mathlib.Tactic.Choose
import Mathlib.Tactic.IntervalCases
import Stencil.Proofs.Types.Compatible
import Stencil.Proofs.Types.Reordered

/-!
# Common instances

What is unknown may turn out to be anything, so that a type stands for all types that it may turn
out to be. This file defines:

* `Shape.fill`       : a type with other types in the places that are unknown;
* `Shape.Proper`     : in all structs inside a type, the members have different names;
* `Shape.IsInstance` : what a type may turn out to be, up to the order of members.

Two nodes are compatible if and only if their types have an instance in common
(`compatible_iff_common_instance`).
-/

namespace Stencil
namespace Types

namespace Shape

/-! ## Filling in what is unknown -/

mutual

/-- A type with a part of its own in each unknown place. -/
def fill (part : List Step → Shape) : Shape → Shape
  | .unknown => part []
  | .string length => .string length
  | .uint length => .uint length
  | .int length => .int length
  | .bool => .bool
  | .array length element => .array length (element.fill fun p => part (.element :: p))
  | .struct members => .struct (fillMembers part members)

def fillMembers (part : List Step → Shape) : List (String × Shape) → List (String × Shape)
  | [] => []
  | m :: members => (m.1, m.2.fill fun p => part (.member m.1 :: p)) :: fillMembers part members

end

variable {part : List Step → Shape} {t u : Shape}

theorem fillMembers_eq (members : List (String × Shape)) :
    fillMembers part members =
      members.map fun m => (m.1, m.2.fill fun p => part (.member m.1 :: p)) := by
  induction members with
  | nil => rfl
  | cons m members ih => rw [fillMembers, ih, List.map_cons]

theorem lookup_fillMembers (members : List (String × Shape)) (name : String) :
    (fillMembers part members).lookup name =
      (members.lookup name).map (fill fun p => part (.member name :: p)) := by
  induction members with
  | nil => rfl
  | cons m members ih =>
    rw [fillMembers, List.lookup_cons, List.lookup_cons, ih]
    cases hname : name == m.1 with
    | false => rfl
    | true => rw [beq_iff_eq.1 hname, Option.map_some]

/-- What is known at the root of a type remains. -/
theorem label_fill (h : t.label.kind ≠ none) : (t.fill part).label = t.label := by
  cases t with
  | unknown => exact absurd rfl h
  | _ => rfl

theorem child?_fill (h : t.label.kind ≠ none) (σ : Step) :
    (t.fill part).child? σ = (t.child? σ).map (fill fun p => part (σ :: p)) := by
  cases t with
  | unknown => exact absurd rfl h
  | array length element => cases σ <;> rfl
  | struct members =>
    cases σ with
    | element => rfl
    | member name => exact lookup_fillMembers members name
  | _ => cases σ <;> rfl

theorem distinct_fill (h : t.label.kind ≠ none) (ht : t.Distinct) : (t.fill part).Distinct := by
  cases t with
  | unknown => exact absurd rfl h
  | struct members =>
    rintro ms ⟨⟩
    rw [fillMembers_eq, List.map_map]
    exact ht members rfl
  | _ => rintro ms ⟨⟩

/-! ## Instances -/

/-- In all structs inside a type, the members have different names. -/
def Proper (t : Shape) : Prop :=
  ∀ p u, t.follow p = some u → u.Distinct

theorem Proper.unknown : Proper .unknown := by
  intro p u h
  cases p with
  | nil =>
    cases h
    rintro ms ⟨⟩
  | cons σ p => cases σ <;> cases h

/-- What a type may turn out to be: each unknown place holds some type, and members may come in any
order. -/
def IsInstance (u t : Shape) : Prop :=
  ∃ part : List Step → Shape, (∀ p, (part p).Proper) ∧ (t.fill part).Reordered u

/-- Parts for the unknown places inside a type, from parts for those inside each of its children. -/
def gather (part : Step → List Step → Shape) : List Step → Shape
  | [] => .unknown
  | σ :: p => part σ p

theorem proper_gather {part : Step → List Step → Shape} (h : ∀ σ p, (part σ p).Proper)
    (p : List Step) : (gather part p).Proper := by
  cases p with
  | nil => exact .unknown
  | cons σ p => exact h σ p

end Shape

namespace Store

open Shape (fill gather)

variable {s : Store} {a b : NodeId} {part part' : List Step → Shape}

theorem Acyclic.proper_shape (hs : s.Acyclic) (id : NodeId) : (s.shape id).Proper := by
  intro p u h
  rw [hs.follow_shape] at h
  obtain ⟨j, _, rfl⟩ := Option.map_eq_some_iff.1 h
  exact hs.distinct_shape j

/-- A type stays as it is if what is unknown in it stays unknown. -/
theorem Acyclic.fill_shape_self (hs : s.Acyclic)
    (h : ∀ p j, s.follow a p = some j → (s.get j).kind? = none → part p = .unknown) :
    (s.shape a).fill part = s.shape a := by
  induction a using hs.inside_out generalizing part with
  | inside a ih =>
    have hchild : ∀ {σ c}, (s.get a).child? σ = some c →
        (s.shape c).fill (fun p => part (σ :: p)) = s.shape c :=
      fun hc => ih hc fun p j hj => h (_ :: p) j (follow_cons.2 ⟨_, hc, hj⟩)
    rw [hs.shape_eq]
    cases hn : s.get a with
    | unknown => exact h [] a rfl (by rw [hn]; rfl)
    | array length element =>
      rw [fill, hchild (by rw [hn]; rfl)]
    | struct members =>
      rw [fill, Shape.fillMembers_eq, List.map_map]
      congr 1
      refine List.map_congr_left ?_
      intro m hm
      exact congrArg (Prod.mk m.1) (hchild (hs.child?_of_mem hn hm))
    | _ => rfl

/-! ## Known nodes -/

section

variable (hs : s.Acyclic) (hknown : (s.get a).kind? ≠ none)

include hs hknown

theorem Acyclic.label_fill : ((s.shape a).fill part).label = (s.get a).label := by
  have hlabel := hs.label_shape a
  rw [Shape.label_fill (by rw [hlabel]; exact hknown), hlabel]

theorem Acyclic.child?_fill (σ : Step) :
    ((s.shape a).fill part).child? σ =
      ((s.get a).child? σ).map fun c => (s.shape c).fill fun p => part (σ :: p) := by
  have hlabel := hs.label_shape a
  rw [Shape.child?_fill (by rw [hlabel]; exact hknown), hs.child?_shape, Option.map_map]
  rfl

theorem Acyclic.distinct_fill : ((s.shape a).fill part).Distinct := by
  have hlabel := hs.label_shape a
  exact Shape.distinct_fill (by rw [hlabel]; exact hknown) (hs.distinct_shape a)

end

/-! ## Compatible nodes -/

/-- Types of compatible nodes become one type if each gets, where it is unknown, what the other one
has there. -/
theorem Acyclic.exists_fill (hs : s.Acyclic) (hclosed : s.Closed) (ha : a < s.size)
    (h : s.compatible a b = true) :
    ∃ part part' : List Step → Shape, (∀ p, (part p).Proper) ∧ (∀ p, (part' p).Proper) ∧
      ((s.shape a).fill part).Reordered ((s.shape b).fill part') := by
  induction a using hs.inside_out generalizing b with
  | inside a ih =>
    have hunknown : ∀ {id}, (s.get id).kind? = none → s.shape id = .unknown := by
      intro id hnone
      rw [hs.shape_eq, get_eq_unknown hnone]
    have hself : ∀ id, (s.shape id).fill (fun _ => .unknown) = s.shape id :=
      fun id => hs.fill_shape_self fun _ _ _ _ => rfl
    by_cases hnone : (s.get a).kind? = none
    · refine ⟨fun _ => s.shape b, fun _ => .unknown, fun _ => hs.proper_shape b,
        fun _ => .unknown, ?_⟩
      rw [hunknown hnone, hself]
      exact .refl
    by_cases hnone' : (s.get b).kind? = none
    · refine ⟨fun _ => .unknown, fun _ => s.shape a, fun _ => .unknown,
        fun _ => hs.proper_shape a, ?_⟩
      rw [hunknown hnone', hself]
      exact .refl
    obtain rfl | h | h | ⟨hlabel, hnames, hR⟩ := (hs.compatible_iff hclosed ha).1 h
    · exact ⟨_, _, fun _ => .unknown, fun _ => .unknown, .refl⟩
    · exact absurd h hnone
    · exact absurd h hnone'
    -- the parts for each two children, where both nodes have one
    have hparts : ∀ σ, ∃ part part' : List Step → Shape,
        (∀ p, (part p).Proper) ∧ (∀ p, (part' p).Proper) ∧
          ∀ c d, (s.get a).child? σ = some c → (s.get b).child? σ = some d →
            ((s.shape c).fill part).Reordered ((s.shape d).fill part') := by
      intro σ
      by_cases hboth : ∃ c d, (s.get a).child? σ = some c ∧ (s.get b).child? σ = some d
      · obtain ⟨c, d, hc, hd⟩ := hboth
        obtain ⟨part, part', hproper, hproper', hcd⟩ :=
          ih hc (hclosed _ _ _ hc) (hR σ c d hc hd)
        refine ⟨part, part', hproper, hproper', ?_⟩
        intro c' d' hc' hd'
        rw [hc] at hc'
        rw [hd] at hd'
        cases hc'
        cases hd'
        exact hcd
      · exact ⟨_, _, fun _ => .unknown, fun _ => .unknown,
          fun c d hc hd => absurd ⟨c, d, hc, hd⟩ hboth⟩
    choose part part' hproper hproper' hreordered using hparts
    refine ⟨gather part, gather part', Shape.proper_gather hproper, Shape.proper_gather hproper', ?_⟩
    rw [Shape.reordered_iff (hs.distinct_fill hnone) (hs.distinct_fill hnone')]
    refine ⟨?_, ?_, ?_⟩
    · rw [hs.label_fill hnone, hs.label_fill hnone', hlabel]
    · intro σ
      rw [hs.child?_fill hnone, hs.child?_fill hnone', Option.isSome_map, Option.isSome_map]
      exact hnames σ
    · intro σ x y hx hy
      rw [hs.child?_fill hnone] at hx
      rw [hs.child?_fill hnone'] at hy
      obtain ⟨c, hc, rfl⟩ := Option.map_eq_some_iff.1 hx
      obtain ⟨d, hd, rfl⟩ := Option.map_eq_some_iff.1 hy
      exact hreordered σ c d hc hd

/-- Nodes whose types become one type are compatible. -/
theorem Acyclic.compatible_of_fill (hs : s.Acyclic) (hclosed : s.Closed) (ha : a < s.size)
    {u : Shape} (h : ((s.shape a).fill part).Reordered u)
    (h' : ((s.shape b).fill part').Reordered u) : s.compatible a b = true := by
  induction a using hs.inside_out generalizing b part part' u with
  | inside a ih =>
    by_cases hnone : (s.get a).kind? = none
    · exact (hs.compatible_iff hclosed ha).2 (.inr (.inl hnone))
    by_cases hnone' : (s.get b).kind? = none
    · exact (hs.compatible_iff hclosed ha).2 (.inr (.inr (.inl hnone')))
    have hdistinct : ((s.shape a).fill part).Distinct := hs.distinct_fill hnone
    obtain ⟨hlabel, hsome, hchild⟩ :=
      (Shape.reordered_iff hdistinct (h.distinct hdistinct)).1 h
    obtain ⟨hlabel', hsome', hchild'⟩ :=
      (Shape.reordered_iff (hs.distinct_fill hnone') (h.distinct hdistinct)).1 h'
    rw [hs.label_fill hnone] at hlabel
    rw [hs.label_fill hnone'] at hlabel'
    simp only [hs.child?_fill hnone, Option.isSome_map] at hsome hchild
    simp only [hs.child?_fill hnone', Option.isSome_map] at hsome' hchild'
    refine (hs.compatible_iff hclosed ha).2 (.inr (.inr (.inr ⟨?_, ?_, ?_⟩)))
    · rw [hlabel, hlabel']
    · intro σ
      rw [hsome, hsome']
    · intro σ c d hc hd
      -- both children become what the common type has at this step
      have hu : (u.child? σ).isSome = true := by
        rw [← hsome, hc]
        rfl
      obtain ⟨x, hx⟩ := Option.isSome_iff_exists.1 hu
      exact ih hc (hclosed _ _ _ hc) (hchild σ _ x (by rw [hc]; rfl) hx)
        (hchild' σ _ x (by rw [hd]; rfl) hx)

/-- In an acyclic store, two nodes are compatible if and only if their types have an instance in
common. So each node is compatible with itself, the order of two nodes makes no difference, and
where nothing is unknown, compatible nodes are those whose types differ in the order of members
only. -/
theorem compatible_iff_common_instance (hs : s.Acyclic) (hclosed : s.Closed) (ha : a < s.size)
    (hb : b < s.size) :
    (s.compatible a b = true ↔ ∃ u : Shape, u.IsInstance (s.shape a) ∧ u.IsInstance (s.shape b)) ∧
      s.compatible a a = true ∧ s.compatible a b = s.compatible b a ∧
      ((s.shape a).Complete → (s.shape b).Complete →
        (s.compatible a b = true ↔ (s.shape a).Reordered (s.shape b))) := by
  have hcommon : ∀ {a b}, a < s.size → (s.compatible a b = true ↔
      ∃ u : Shape, u.IsInstance (s.shape a) ∧ u.IsInstance (s.shape b)) := by
    intro a b ha
    constructor
    · intro h
      obtain ⟨part, part', hproper, hproper', hreordered⟩ := hs.exists_fill hclosed ha h
      exact ⟨_, ⟨part, hproper, hreordered⟩, part', hproper', .refl⟩
    · rintro ⟨u, ⟨part, _, h⟩, part', _, h'⟩
      exact hs.compatible_of_fill hclosed ha h h'
  refine ⟨hcommon ha, compatible_refl s a, ?_, ?_⟩
  · rw [Bool.eq_iff_iff, hcommon ha, hcommon hb]
    exact exists_congr fun u => and_comm
  · intro hcomplete hcomplete'
    have hself : ∀ {id part}, (s.shape id).Complete → (s.shape id).fill part = s.shape id := by
      intro id part hcomplete
      apply hs.fill_shape_self
      intro p j hj hnone
      have hfollow : (s.shape id).follow p = some (s.shape j) := by
        rw [hs.follow_shape, hj]
        rfl
      have hkind := hcomplete p _ hfollow
      rw [hs.label_shape] at hkind
      exact absurd hnone hkind
    constructor
    · intro h
      obtain ⟨part, part', _, _, hreordered⟩ := hs.exists_fill hclosed ha h
      rw [hself hcomplete, hself hcomplete'] at hreordered
      exact hreordered
    · intro h
      have hfill : ((s.shape a).fill fun _ => .unknown).Reordered (s.shape b) := by
        rw [hself hcomplete]
        exact h
      have hfill' : ((s.shape b).fill fun _ => .unknown).Reordered (s.shape b) := by
        rw [hself hcomplete']
        exact .refl
      exact hs.compatible_of_fill hclosed ha hfill hfill'

/-- Offers with prices and notes, where several of them share their members. -/
def offers : Store :=
  ⟨#[.unknown, .string none, .uint (some 8), .uint (some 16), .struct [("price", 2), ("note", 0)],
    .struct [("note", 1), ("price", 0)], .struct [("note", 1), ("price", 3)],
    .struct [("price", 2), ("note", 1)], .struct [("note", 1), ("price", 2)]]⟩

theorem acyclic_offers : offers.Acyclic := by
  refine acyclic_of_descending (by decide) ?_
  intro id members hn
  have hid : id < 9 := lt_size_of_kind? (k := .struct) (by rw [hn]; rfl)
  interval_cases id
  all_goals cases hn
  all_goals decide

theorem closed_offers : offers.Closed := by
  intro id σ c hc
  have hall : ∀ id < offers.size, ∀ c ∈ (offers.get id).children, c < offers.size := by
    decide
  exact hall id (lt_size_of_child? hc) c (Node.mem_children_of_child? hc)

/-- Nothing is unknown in offers of which the note and the price are known. -/
theorem complete_offers {id : NodeId} (hkind : (offers.get id).kind? ≠ none)
    (hinside : ∀ c ∈ (offers.get id).children, c ∈ [1, 2]) : (offers.shape id).Complete := by
  refine acyclic_offers.complete_iff.2 ⟨hkind, ?_⟩
  intro σ c hc
  have hleaf : ∀ c ∈ [1, 2], (offers.get c).kind? ≠ none ∧ (offers.get c).children = [] := by
    decide
  obtain ⟨hkind', hchildren⟩ := hleaf c (hinside c (Node.mem_children_of_child? hc))
  refine acyclic_offers.complete_iff.2 ⟨hkind', ?_⟩
  intro τ d hd
  have hmem := Node.mem_children_of_child? hd
  rw [hchildren] at hmem
  cases hmem

/-- Two offers, of which one has a price and the other a note, may be alike, unless their prices
differ. Where both have both, the order makes no difference. -/
theorem compatible_iff_common_instance_offers :
    (∃ u : Shape, u.IsInstance (offers.shape 4) ∧ u.IsInstance (offers.shape 5)) ∧
      (¬ ∃ u : Shape, u.IsInstance (offers.shape 4) ∧ u.IsInstance (offers.shape 6)) ∧
      (offers.shape 7).Reordered (offers.shape 8) := by
  refine ⟨?_, ?_, ?_⟩
  · exact (compatible_iff_common_instance acyclic_offers closed_offers (by decide)
      (by decide)).1.1 (by decide)
  · intro hcommon
    have hcompatible := (compatible_iff_common_instance acyclic_offers closed_offers (by decide)
      (by decide)).1.2 hcommon
    exact absurd hcompatible (by decide)
  · exact ((compatible_iff_common_instance acyclic_offers closed_offers (by decide)
      (by decide)).2.2.2 (complete_offers (by decide) (by decide))
        (complete_offers (by decide) (by decide))).1 (by decide)

end Store

end Types
end Stencil
