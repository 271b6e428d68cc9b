import Stencil.Proofs.Types.Frame

/-!
# Bounds on what unification finds out

A bound allows some labels at every path from a root. It is closed under what unification does to
labels, and leaves room for one kind at a path. If the labels of a store are within a bound that
allows at the target all that it allows at the source, unification succeeds and stays within it
(`unify_bounded`): so the bounds are the solutions of the equations that unification solves.
-/

namespace Stencil
namespace Types

/-- A family of sets of labels, one for each path, that unification does not lead out of. -/
structure Bound (B : List Step → Label → Prop) : Prop where
  unknown : ∀ {p l}, B p l → B p .unknown
  kind_unique : ∀ {p k k' l l'}, B p ⟨some k, l⟩ → B p ⟨some k', l'⟩ → k = k'
  kind : ∀ {p k l}, B p ⟨some k, l⟩ → B p ⟨some k, none⟩
  raise : ∀ {p k l n}, B p ⟨some k, l⟩ → B p ⟨some k, some n⟩ →
    B p ⟨some k, some (Node.raiseLength?.raise n l)⟩

/-- The labels of all nodes below `root` are within a bound. -/
def Store.BoundedBy (s : Store) (root : NodeId) (B : List Step → Label → Prop) : Prop :=
  ∀ p j, s.follow root p = some j → B p (s.get j).label

namespace Store.BoundedBy

variable {s : Store} {root id : Nat} {B : List Step → Label → Prop} {P : List Step}

/-- A single change keeps a bound that allows the new label and the new child. -/
theorem expands (h : s.BoundedBy root B) {s' : Store} (hexp : s.Expands s' id) (hs : s.Forest)
    (hroot : root < s.size) (hP : s.follow root P = some id) (hlabel : B P (s'.get id).label)
    (hnew : ∀ σ, (s'.get id).child? σ = some s.size → B (P ++ [σ]) .unknown) :
    s'.BoundedBy root B := by
  intro p j hj
  rcases hexp.follow_cases hs hroot hj with ⟨hold, _⟩ | ⟨q, σ, rfl, hq, rfl, hchild⟩
  · by_cases hjid : j = id
    · subst hjid
      rw [hs.follow_unique hold hP]
      exact hlabel
    · rw [hexp.other j hjid]
      exact h p j hold
  · have hne : s.size ≠ id := Nat.ne_of_gt (hs.follow_lt hroot hP)
    rw [hexp.other _ hne, get_of_size_le (Nat.le_refl _), hs.follow_unique hq hP]
    exact hnew σ hchild

theorem kind_agrees (hB : Bound B) (h : s.BoundedBy root B) (hP : s.follow root P = some id)
    {kind : Kind} {length : Option Nat} (hk : B P ⟨some kind, length⟩) :
    (s.get id).kind?.getD kind = kind := by
  cases hn : (s.get id).kind? with
  | none => rfl
  | some k =>
    have hlabel := h P id hP
    simp only [Node.label, hn] at hlabel
    exact hB.kind_unique hlabel hk

theorem settle (h : s.BoundedBy root B) (hs : s.Forest) (hroot : root < s.size)
    (hP : s.follow root P = some id) {kind : Kind} (hk : B P ⟨some kind, none⟩)
    (helement : kind = .array → B (P ++ [.element]) .unknown) :
    (s.settle id kind).BoundedBy root B := by
  have hid := hs.follow_lt hroot hP
  unfold Store.settle
  split
  · exact h
  · next hnone =>
    refine h.expands (expands_widen hid (get_eq_unknown hnone) kind) hs hroot hP ?_ ?_
    · rw [label_widen hid]
      exact hk
    · intro σ hσ
      rcases new_widen hid hσ with ⟨hkind, rfl⟩
      exact helement hkind

theorem raiseLength (hB : Bound B) (h : s.BoundedBy root B) (hs : s.Forest) (hroot : root < s.size)
    (hP : s.follow root P = some id) {kind : Kind} {length : Option Nat}
    (hkind : (s.get id).kind? = some kind) (hk : B P ⟨some kind, length⟩) :
    (s.raise id length).BoundedBy root B := by
  have hid := hs.follow_lt hroot hP
  unfold Store.raise
  split
  · exact h
  · next n =>
    split
    · next node hnode =>
      rcases raiseLength?_spec hnode with ⟨_, hk', hlen, hchild, _⟩
      refine h.expands (expands_raise hs hid hnode) hs hroot hP ?_ ?_
      · rw [get_set_self hid]
        have hlabel := h P id hP
        simp only [Node.label, hkind] at hlabel
        simp only [Node.label, hk', hkind, hlen]
        exact hB.raise hlabel hk
      · intro σ hσ
        rw [get_set_self hid, hchild] at hσ
        exact absurd (hs.child_lt hσ) (Nat.lt_irrefl _)
    · exact h

theorem absorb (hB : Bound B) (h : s.BoundedBy root B) (hs : s.Forest) (hroot : root < s.size)
    (hP : s.follow root P = some id) {known : Node} {kind : Kind} (hkind : known.kind? = some kind)
    (hk : B P known.label) (helement : kind = .array → B (P ++ [.element]) .unknown) :
    (s.absorb id known kind).BoundedBy root B := by
  have hid := hs.follow_lt hroot hP
  have hk' : B P ⟨some kind, known.length?⟩ := by
    simpa [Node.label, hkind] using hk
  have hexp := expands_settle hs hid kind
  have hroot' := Nat.lt_of_lt_of_le hroot hexp.size_le
  refine (h.settle hs hroot hP (hB.kind hk') helement).raiseLength hB (hexp.forest hs hid)
    hroot' (hexp.grows.follow hP) ?_ hk'
  rw [kind?_settle hid, h.kind_agrees hB hP hk']

theorem step (h : s.BoundedBy root B) (hs : s.Forest) (hroot : root < s.size)
    (hP : s.follow root P = some id) {a : Accessor} (hnew : B (P ++ [a.step]) .unknown) :
    (s.step id a).2.BoundedBy root B := by
  have hid := hs.follow_lt hroot hP
  refine h.expands (expands_step hs hid a) hs hroot hP ?_ ?_
  · rw [label_step hid]
    exact h P id hP
  · intro σ hσ
    rw [new_step hs hid hσ]
    exact hnew

end Store.BoundedBy

/-! ## Unification within a bound -/

/-- A loop whose passes all succeed and keep an invariant. -/
theorem forM_ok {γ : Type} {xs : List γ} {f : γ → Inference Unit} {inv : Store → Prop} {s : Store}
    (hinv : inv s) (h : ∀ x ∈ xs, ∀ s, inv s → ∃ s', f x s = .ok () s' ∧ inv s') :
    ∃ s', xs.forM f s = .ok () s' ∧ inv s' := by
  induction xs generalizing s with
  | nil => exact ⟨s, rfl, hinv⟩
  | cons x xs ih =>
    rcases h x List.mem_cons_self s hinv with ⟨s₁, hx, hinv₁⟩
    rcases ih hinv₁ fun y hy => h y (List.mem_cons_of_mem _ hy) with ⟨s₂, hxs, hinv₂⟩
    refine ⟨s₂, ?_, hinv₂⟩
    exact (Results.run_bind_ok hx).trans hxs

variable {root : Nat} {B : List Step → Label → Prop}

/-- Whatever is done inside a target, which lies at `P`, a bound allows there what is known about a
source. -/
def Admits (B : List Step → Label → Prop) (root : NodeId) (s : Store) (P : List Step)
    (target source : NodeId) : Prop :=
  Steady s target fun s' => s'.BoundedBy root B → s'.BoundedBy source fun p => B (P ++ p)

/-- What is allowed for two nodes is allowed for the nodes at the same step inside them. -/
theorem Admits.child {s s' : Store} {P : List Step} {target source c d : NodeId} {σ : Step}
    (h : Admits B root s P target source) (hgrows : s.GrowsInside s' target)
    (hd : s'.follow target [σ] = some d) (hc : (s.get source).child? σ = some c) :
    Admits B root s' (P ++ [σ]) d c := by
  intro s'' hgrows' hbound p j hj
  have hc'' := (hgrows.grows.trans hgrows'.grows).child hc
  rw [List.append_assoc]
  exact (h.inward hgrows hd) s'' hgrows' hbound (σ :: p) j (Store.follow_cons.2 ⟨c, hc'', hj⟩)

/-- Unification of one child: the step into the target, then what is below. -/
theorem unifyPart_bounded {depth : Nat}
    (below : ∀ {s : Store} {target source : Nat} {P : List Step} (path : String), s.Forest →
      root < s.size → s.BoundedBy root B → s.follow root P = some target →
        Admits B root s P target source →
          ∃ s', unifyUpTo depth target source path s = .ok () s' ∧ s'.BoundedBy root B)
    {s : Store} {target source c : Nat} {P : List Step} {a : Accessor} (path : String)
    (hs : s.Forest) (hroot : root < s.size) (hbound : s.BoundedBy root B)
    (hP : s.follow root P = some target) (hkind : (s.get target).kind? = some (containerKind a))
    (hc : (s.get source).child? a.step = some c) (hroom : B (P ++ [a.step]) .unknown)
    (hsource : Admits B root s P target source) :
    ∃ s', unifyPart (unifyUpTo depth) target path (a, c) s = .ok () s' ∧
      s.GrowsInside s' target ∧ s'.BoundedBy root B := by
  obtain ⟨hstep, hinside⟩ := Store.growsInside_step hs hkind
  have hbound₁ := hbound.step hs hroot hP hroom
  have hroot₁ := Nat.lt_of_lt_of_le hroot hstep.grows.size_le
  have hP₁ := Store.follow_append.2 ⟨target, hstep.grows.follow hP, hinside⟩
  obtain ⟨s₂, hok, hbound₂⟩ := below (path ++ a.text) hstep.forest hroot₁ hbound₁ hP₁
    (hsource.child hstep hinside hc)
  have hconfines := unifyUpTo_confines depth c (path ++ a.text) hstep.forest
    (hstep.forest.follow_lt hroot₁ hP₁)
  rw [hok] at hconfines
  exact ⟨s₂, hok, hstep.trans (Store.GrowsInside.outward hconfines hinside), hbound₂⟩

/-- A target is unified with a source within any bound that allows at the target what is known at
the source, also of a source that changes with the target. -/
theorem unifyUpTo_bounded (hB : Bound B) (depth : Nat) {s : Store} {target source : Nat}
    {P : List Step} (path : String) (hs : s.Forest) (hroot : root < s.size)
    (hbound : s.BoundedBy root B) (hP : s.follow root P = some target)
    (hsource : Admits B root s P target source) :
    ∃ s', unifyUpTo depth target source path s = .ok () s' ∧ s'.BoundedBy root B := by
  induction depth generalizing s target source P path with
  | zero => exact ⟨s, rfl, hbound⟩
  | succ depth ih =>
    rw [unifyUpTo_eq_unifyLevel, unifyLevel_eq]
    cases hk : (s.get source).kind? with
    | none => exact ⟨s, rfl, hbound⟩
    | some kind =>
      have hknown := hsource s (.refl hs target) hbound
      have hlabel : B P (s.get source).label := by
        simpa using hknown [] source rfl
      have hlabel' : B P ⟨some kind, (s.get source).length?⟩ := by
        simpa [Node.label, hk] using hlabel
      have hagree := hbound.kind_agrees hB hP hlabel'
      -- a child of the source makes room for the same child of the target
      have hroom : ∀ {σ c}, (s.get source).child? σ = some c → B (P ++ [σ]) .unknown := by
        intro σ c hc
        exact hB.unknown (hknown [σ] c (Store.follow_cons.2 ⟨c, hc, rfl⟩))
      have ht := hs.follow_lt hroot hP
      have hgrows₁ := Store.growsInside_absorb hs ht (s.get source) kind
      have hlabel₁ := (Store.absorb_advances hs ht hk hagree).2.2
      have hbound₁ : (s.absorb target (s.get source) kind).BoundedBy root B := by
        refine hbound.absorb hB hs hroot hP hk hlabel ?_
        rintro rfl
        cases hn : s.get source with
        | array length element => exact hroom (c := element) (by rw [hn]; rfl)
        | _ => simp [hn, Node.kind?] at hk
      simp only [hagree, if_true]
      generalize s.absorb target (s.get source) kind = s₁ at hgrows₁ hlabel₁ hbound₁ ⊢
      -- the children come one after the other, each on what the ones before have left
      have hloop : ∃ s', (s.get source).parts.forM (unifyPart (unifyUpTo depth) target path) s₁ =
          .ok () s' ∧ (s₁.GrowsInside s' target ∧ s'.BoundedBy root B) := by
        refine forM_ok ⟨.refl hgrows₁.forest target, hbound₁⟩ ?_
        rintro ⟨a, c⟩ hpart s₂ ⟨hgrows₂, hbound₂⟩
        obtain ⟨hc, hkind⟩ := Store.child?_of_mem_parts hs hpart
        have hgrows := hgrows₁.trans hgrows₂
        have hroot₂ := Nat.lt_of_lt_of_le hroot hgrows.grows.size_le
        have hkind₂ := hgrows₂.grows.kind? (hlabel₁.1 _ hkind)
        obtain ⟨s₃, hok, hgrows₃, hbound₃⟩ := unifyPart_bounded ih path hgrows.forest hroot₂ hbound₂
          (hgrows.grows.follow hP) hkind₂ (hgrows.grows.child hc) (hroom hc)
          (Steady.inward hsource hgrows (p := []) rfl)
        exact ⟨s₃, hok, hgrows₂.trans hgrows₃, hbound₃⟩
      obtain ⟨s', hok, _, hbound'⟩ := hloop
      exact ⟨s', hok, hbound'⟩

/-- Contexts of which neither lies inside the other are unified within any bound that allows at the
target what it allows at the source. -/
theorem unify_bounded (hB : Bound B) {s : Store} {target source : Nat} {P Q : List Step}
    (path : String) (hs : s.Forest) (hroot : root < s.size) (hbound : s.BoundedBy root B)
    (hP : s.follow root P = some target) (hQ : s.follow root Q = some source)
    (hsub : ∀ p l, B (Q ++ p) l → B (P ++ p) l)
    (hseparate : s.Separate target source) :
    ∃ s', unify target source path s = .ok () s' ∧ s'.BoundedBy root B := by
  by_cases heq : target = source
  · subst heq
    have hsame : unify target target path s = .ok () s := by
      change (if target == target then (pure () : Inference Unit) else _) s = _
      rw [beq_self_eq_true, if_pos rfl]
      rfl
    exact ⟨s, hsame, hbound⟩
  · obtain ⟨hts, hst⟩ := hseparate heq
    rw [unify_eq_unifyUpTo path hts hst]
    refine unifyUpTo_bounded hB s.size path hs hroot hbound hP ?_
    intro s' hgrows hbound' p j hj
    -- also the source stays within the bound, wherever it lies
    exact hsub p _ (hbound' (Q ++ p) j (Store.follow_append.2 ⟨source, hgrows.grows.follow hQ, hj⟩))

end Types
end Stencil
