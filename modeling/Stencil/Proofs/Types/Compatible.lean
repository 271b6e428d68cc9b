import Mathlib.Data.List.Perm.Subperm
import Stencil.Proofs.Types.Shape

/-!
# Compatible nodes

Two nodes can share a declaration if they agree wherever both are known.

* `compatible_iff`     : the comparison, one level at a time;
* `compatible_of_same` : nodes of the same type are compatible;
* `compatible_congr`   : it depends on types only;
* `same_of_compatible` : compatible nodes of which all is known have the same type.
-/

namespace Stencil
namespace Types
namespace Store

/-- One level of the comparison, with `R` for the nodes inside. -/
def Matches (s : Store) (R : NodeId → NodeId → Prop) (a b : NodeId) : Prop :=
  (s.get a).label = (s.get b).label ∧
    (∀ σ, ((s.get a).child? σ).isSome = ((s.get b).child? σ).isSome) ∧
    ∀ σ c d, (s.get a).child? σ = some c → (s.get b).child? σ = some d → R c d

variable {s : Store}

/-- Structs with the same number of members, each of which has a match of its name. -/
theorem members_match_iff {ma mb : List (String × NodeId)} (ha : (ma.map (·.1)).Nodup)
    (hb : (mb.map (·.1)).Nodup) {R : NodeId → NodeId → Bool} :
    (ma.length == mb.length && ma.all fun (name, ta) =>
        match mb.lookup name with
        | some tb => R ta tb
        | none => false) = true ↔
      (∀ name, (ma.lookup name).isSome = (mb.lookup name).isSome) ∧
        ∀ name c d, ma.lookup name = some c → mb.lookup name = some d → R c d = true := by
  rw [Bool.and_eq_true, beq_iff_eq, List.all_eq_true]
  constructor
  · rintro ⟨hlength, hall⟩
    have hfound : ∀ name c, ma.lookup name = some c →
      ∃ d, mb.lookup name = some d ∧ R c d = true := by
      intro name c hc
      have hmember := hall (name, c) (Lookup.mem_of_lookup hc)
      simp only at hmember
      cases hd : mb.lookup name with
      | none => simp [hd] at hmember
      | some d => exact ⟨d, rfl, by simpa [hd] using hmember⟩
    -- no name of the second struct is missing in the first, as there are equally many
    have hsub : ma.map (·.1) ⊆ mb.map (·.1) := by
      intro name hname
      rcases Lookup.exists_lookup_of_mem hname with ⟨c, hc⟩
      rcases hfound name c hc with ⟨d, hd, _⟩
      exact List.mem_map.2 ⟨_, Lookup.mem_of_lookup hd, rfl⟩
    have hperm : (ma.map (·.1)).Perm (mb.map (·.1)) :=
      (List.subperm_of_subset ha hsub).perm_of_length_le (by simp [hlength])
    refine ⟨?_, ?_⟩
    · intro name
      rw [Bool.eq_iff_iff, Lookup.lookup_isSome, Lookup.lookup_isSome]
      exact hperm.mem_iff
    · intro name c d hc hd
      rcases hfound name c hc with ⟨d', hd', hR⟩
      rw [hd] at hd'
      cases hd'
      exact hR
  · rintro ⟨hnames, hR⟩
    have hperm : (ma.map (·.1)).Perm (mb.map (·.1)) := by
      refine (List.perm_ext_iff_of_nodup ha hb).2 ?_
      intro name
      rw [← Lookup.lookup_isSome, ← Lookup.lookup_isSome, hnames name]
    refine ⟨by simpa using hperm.length_eq, ?_⟩
    rintro ⟨name, c⟩ hmem
    have hc := Lookup.lookup_of_mem ha hmem
    have hsome := hnames name
    rw [hc] at hsome
    rcases Option.isSome_iff_exists.1 hsome.symm with ⟨d, hd⟩
    simp only [hd]
    exact hR name c d hc hd

theorem Acyclic.compatibleUpTo_succ (hs : s.Acyclic) {depth : Nat} {a b : NodeId} :
    s.compatibleUpTo (depth + 1) a b = true ↔
      a = b ∨ (s.get a).kind? = none ∨ (s.get b).kind? = none ∨
        s.Matches (fun c d => s.compatibleUpTo depth c d = true) a b := by
  rw [compatibleUpTo, Bool.or_eq_true, beq_iff_eq]
  refine or_congr_right ?_
  unfold Matches
  -- two structs go by their members and two lists by their elements; everything else is one label
  cases ha : s.get a with
  | unknown => simp [Node.kind?]
  | struct ma =>
    cases hb : s.get b with
    | unknown => simp [Node.kind?]
    | struct mb =>
      refine (members_match_iff (hs.names_nodup ha) (hs.names_nodup hb)
        (R := s.compatibleUpTo depth)).trans ?_
      constructor
      · rintro ⟨hnames, hR⟩
        refine .inr (.inr ⟨rfl, ?_, ?_⟩)
        · intro σ
          cases σ with
          | element => rfl
          | member name => exact hnames name
        · intro σ c d hc hd
          cases σ with
          | element => cases hc
          | member name => exact hR name c d hc hd
      · rintro (h | h | ⟨_, hnames, hR⟩)
        · cases h
        · cases h
        · exact ⟨fun name => hnames (.member name), fun name => hR (.member name)⟩
    | _ => simp [Node.kind?, Node.label]
  | array la ea =>
    cases hb : s.get b with
    | unknown => simp [Node.kind?]
    | array lb eb =>
      simp only [Bool.and_eq_true, beq_iff_eq, Node.kind?, Node.label, Node.length?]
      constructor
      · rintro ⟨rfl, hR⟩
        refine .inr (.inr ⟨rfl, ?_, ?_⟩)
        · intro σ
          cases σ <;> rfl
        · intro σ c d hc hd
          cases σ with
          | element =>
            cases hc
            cases hd
            exact hR
          | member name => cases hc
      · rintro (h | h | ⟨hlabel, _, hR⟩)
        · cases h
        · cases h
        · cases hlabel
          exact ⟨rfl, hR .element ea eb rfl rfl⟩
    | _ => simp [Node.kind?, Node.label]
  | _ =>
    cases hb : s.get b <;> simp [Node.kind?, Node.label, Node.length?, Node.child?]

/-- Looking deeper than a node reaches makes no difference. -/
theorem Acyclic.compatibleUpTo_eq (hs : s.Acyclic) (hclosed : s.Closed) {d d' : Nat} {a b : NodeId}
    (ha : a < s.size) (hd : s.DeepEnough d a) (hd' : s.DeepEnough d' a) :
    s.compatibleUpTo d a b = s.compatibleUpTo d' a b := by
  induction d generalizing d' a b with
  | zero => exact absurd (hd [] a rfl ha) (Nat.not_lt_zero _)
  | succ d ih =>
    cases d' with
    | zero => exact absurd (hd' [] a rfl ha) (Nat.not_lt_zero _)
    | succ d' =>
      -- only the first node counts: the search goes down both at once
      have hchild : ∀ {σ c e}, (s.get a).child? σ = some c →
          s.compatibleUpTo d c e = s.compatibleUpTo d' c e :=
        fun hc => ih (hclosed _ _ _ hc) (hd.child hc) (hd'.child hc)
      rw [Bool.eq_iff_iff, hs.compatibleUpTo_succ, hs.compatibleUpTo_succ]
      refine or_congr_right (or_congr_right (or_congr_right ?_))
      refine and_congr_right fun _ => and_congr_right fun _ => ?_
      constructor
      · intro h σ c e hc he
        rw [← hchild hc]
        exact h σ c e hc he
      · intro h σ c e hc he
        rw [hchild hc]
        exact h σ c e hc he

/-- Two nodes are compatible if they are one, if one of them is unknown, or if they are alike and
the nodes inside them are compatible. -/
theorem Acyclic.compatible_iff (hs : s.Acyclic) (hclosed : s.Closed) {a b : NodeId}
    (ha : a < s.size) :
    s.compatible a b = true ↔
      a = b ∨ (s.get a).kind? = none ∨ (s.get b).kind? = none ∨
        s.Matches (fun c d => s.compatible c d = true) a b := by
  have hdeeper : s.DeepEnough (s.size + 1) a :=
    fun _ _ hj hlt => Nat.lt_succ_of_lt (hs.length_lt hj hlt)
  have hdepth : s.compatible a b = s.compatibleUpTo (s.size + 1) a b :=
    hs.compatibleUpTo_eq hclosed ha (hs.deepEnough a) hdeeper
  rw [hdepth, hs.compatibleUpTo_succ]
  rfl

theorem compatible_refl (s : Store) (a : NodeId) : s.compatible a a = true := by
  unfold compatible
  cases s.size with
  | zero => simp [compatibleUpTo]
  | succ n => simp [compatibleUpTo]

/-! ## Comparing types -/

/-- Nodes of the same type have children of the same types. -/
theorem child?_of_same (hs : s.Acyclic) {a b : NodeId} (h : (s.shape a).Same (s.shape b)) {σ : Step}
    {c : NodeId} (hc : (s.get a).child? σ = some c) :
    ∃ d, (s.get b).child? σ = some d ∧ (s.shape c).Same (s.shape d) := by
  have hchild : (s.shape a).child? σ = some (s.shape c) := by
    rw [hs.child?_shape, hc]
    rfl
  rcases h.child hchild with ⟨y, hy, hsame⟩
  rw [hs.child?_shape] at hy
  rcases Option.map_eq_some_iff.1 hy with ⟨d, hd, rfl⟩
  exact ⟨d, hd, hsame⟩

theorem isSome_child?_of_same (hs : s.Acyclic) {a b : NodeId} (h : (s.shape a).Same (s.shape b))
    (σ : Step) : ((s.get a).child? σ).isSome = ((s.get b).child? σ).isSome := by
  have hsome := (Shape.same_iff.1 h).2.1 σ
  rw [hs.child?_shape, hs.child?_shape, Option.isSome_map, Option.isSome_map] at hsome
  exact hsome

theorem label_of_same (hs : s.Acyclic) {a b : NodeId} (h : (s.shape a).Same (s.shape b)) :
    (s.get a).label = (s.get b).label := by
  rw [← hs.label_shape, ← hs.label_shape]
  exact h.label_eq

theorem compatible_of_same (hs : s.Acyclic) (hclosed : s.Closed) {a b : NodeId}
    (ha : a < s.size) (h : (s.shape a).Same (s.shape b)) : s.compatible a b = true := by
  induction a using hs.inside_out generalizing b with
  | inside a ih =>
    refine (hs.compatible_iff hclosed ha).2 (.inr (.inr (.inr ⟨?_, ?_, ?_⟩)))
    · exact label_of_same hs h
    · exact isSome_child?_of_same hs h
    · intro σ c d hc hd
      rcases child?_of_same hs h hc with ⟨d', hd', hsame⟩
      rw [hd] at hd'
      cases hd'
      exact ih hc (hclosed _ _ _ hc) hsame

/-- Whether a node is compatible depends on its type only. -/
theorem compatible_congr (hs : s.Acyclic) (hclosed : s.Closed) {a b b' : NodeId}
    (ha : a < s.size) (h : (s.shape b).Same (s.shape b')) :
    s.compatible a b = s.compatible a b' := by
  -- one direction is enough, as being of the same type is symmetric
  have hone : ∀ {a b b' : NodeId}, a < s.size → (s.shape b).Same (s.shape b') →
      s.compatible a b = true → s.compatible a b' = true := by
    intro a
    induction a using hs.inside_out with
    | inside a ih =>
      intro b b' ha h hcompatible
      have hlabel := label_of_same hs h
      -- in each way of being compatible, `b` can be replaced
      obtain rfl | hnone | hnone | ⟨hlabels, hnames, hR⟩ :=
        (hs.compatible_iff hclosed ha).1 hcompatible
      · exact compatible_of_same hs hclosed ha h
      · exact (hs.compatible_iff hclosed ha).2 (.inr (.inl hnone))
      · refine (hs.compatible_iff hclosed ha).2 (.inr (.inr (.inl ?_)))
        exact (congrArg Label.kind hlabel).symm.trans hnone
      · refine (hs.compatible_iff hclosed ha).2 (.inr (.inr (.inr ⟨hlabels.trans hlabel, ?_, ?_⟩)))
        · intro σ
          rw [hnames σ]
          exact isSome_child?_of_same hs h σ
        · intro σ c d' hc hd'
          rcases child?_of_same hs h.symm hd' with ⟨d, hd, hsame⟩
          exact ih hc (hclosed _ _ _ hc) hsame.symm (hR σ c d hc hd)
  rw [Bool.eq_iff_iff]
  exact ⟨hone ha h, hone ha h.symm⟩

end Store

/-- A type in which nothing is unknown. -/
def Shape.Complete (t : Shape) : Prop :=
  ∀ p u, t.follow p = some u → u.label.kind ≠ none

namespace Store

variable {s : Store}

/-- All is known of a node if the node is known and all is known of its children. -/
theorem Acyclic.complete_iff (hs : s.Acyclic) {a : NodeId} :
    (s.shape a).Complete ↔
      (s.get a).kind? ≠ none ∧ ∀ σ c, (s.get a).child? σ = some c → (s.shape c).Complete := by
  constructor
  · intro h
    refine ⟨?_, ?_⟩
    · have hroot := h [] (s.shape a) (Shape.follow_nil _)
      rw [hs.label_shape] at hroot
      exact hroot
    · intro σ c hc p u hu
      refine h (σ :: p) u (Shape.follow_cons.2 ⟨s.shape c, ?_, hu⟩)
      rw [hs.child?_shape, hc]
      rfl
  · rintro ⟨hkind, hchild⟩ p u hu
    cases p with
    | nil =>
      cases hu
      rw [hs.label_shape]
      exact hkind
    | cons σ p =>
      obtain ⟨x, hx, hu⟩ := Shape.follow_cons.1 hu
      rw [hs.child?_shape] at hx
      obtain ⟨c, hc, rfl⟩ := Option.map_eq_some_iff.1 hx
      exact hchild σ c hc p u hu

theorem complete_child (hs : s.Acyclic) {a : NodeId} (h : (s.shape a).Complete) {σ : Step}
    {c : NodeId} (hc : (s.get a).child? σ = some c) : (s.shape c).Complete :=
  (hs.complete_iff.1 h).2 σ c hc

theorem kind?_of_complete (hs : s.Acyclic) {a : NodeId} (h : (s.shape a).Complete) :
    (s.get a).kind? ≠ none :=
  (hs.complete_iff.1 h).1

/-- Compatible nodes of which all is known have the same type. -/
theorem same_of_compatible (hs : s.Acyclic) (hclosed : s.Closed) {a b : NodeId}
    (ha : a < s.size) (hcomplete : (s.shape a).Complete) (hcomplete' : (s.shape b).Complete)
    (h : s.compatible a b = true) : (s.shape a).Same (s.shape b) := by
  induction a using hs.inside_out generalizing b with
  | inside a ih =>
    rcases (hs.compatible_iff hclosed ha).1 h with rfl | hnone | hnone | ⟨hlabel, hnames, hR⟩
    · exact .refl _
    · -- nothing is unknown here, so the wildcards do not apply
      exact absurd hnone (kind?_of_complete hs hcomplete)
    · exact absurd hnone (kind?_of_complete hs hcomplete')
    · have hchild : ∀ {σ c d}, (s.get a).child? σ = some c → (s.get b).child? σ = some d →
          (s.shape c).Same (s.shape d) := by
        intro σ c d hc hd
        exact ih hc (hclosed _ _ _ hc) (complete_child hs hcomplete hc)
          (complete_child hs hcomplete' hd) (hR σ c d hc hd)
      refine Shape.same_iff.2 ⟨?_, ?_, ?_⟩
      · rw [hs.label_shape, hs.label_shape, hlabel]
      · intro σ
        rw [hs.child?_shape, hs.child?_shape, Option.isSome_map, Option.isSome_map]
        exact hnames σ
      · intro σ x y hx hy
        rw [hs.child?_shape] at hx hy
        obtain ⟨c, hc, rfl⟩ := Option.map_eq_some_iff.1 hx
        obtain ⟨d, hd, rfl⟩ := Option.map_eq_some_iff.1 hy
        exact hchild hc hd

end Store
end Types
end Stencil
