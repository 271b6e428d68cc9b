import Stencil.Proofs.Types.Shape

/-!
# Demands

Following a path asks for containers on the way and for something at its end. Whether that can be
had depends on what else is asked for at the same places. This file defines:

* `Asks`      : what a path asks for, place by place;
* `TypeBound` : a bound that a type could have;
* `covering`  : the least bound that meets some demands, a type bound if these do not contradict
  each other (`Coherent.typeBound`).

Within a type bound, all paths that it allows are followed and stay within it: `walk_bounded`,
`narrow_bounded`, `resolveNode_bounded`.
-/

namespace Stencil
namespace Types

/-! ## Bounds that a type could have -/

/-- A bound with room for the elements of arrays, and lengths only for kinds that have them. -/
structure TypeBound (B : List Step → Label → Prop) : Prop extends Bound B where
  element : ∀ {p l}, B p ⟨some .array, l⟩ → B (p ++ [.element]) .unknown
  hasLength : ∀ {p k n}, B p ⟨some k, some n⟩ → k.hasLength = true

/-- Types with lengths are of kinds that have lengths. -/
theorem Shape.hasLength_of_label {t : Shape} {k : Kind} {n : Nat} (hkind : t.label.kind = some k)
    (hlength : t.label.length = some n) : k.hasLength = true := by
  cases t with
  | unknown | bool | struct => cases hlength
  | string | uint | int | array =>
    cases hkind
    rfl

theorem Shape.typeBound (t : Shape) : TypeBound t.bound where
  toBound := t.isBound
  element := by
    rintro p l ⟨u, hu, hle⟩
    cases u with
    | array length element =>
      have hchild : (Shape.array length element).follow [.element] = some element :=
        follow_cons.2 ⟨element, rfl, follow_nil element⟩
      exact ⟨element, follow_append.2 ⟨_, hu, hchild⟩, Label.unknown_le _⟩
    | _ => cases hle.1 .array rfl
  hasLength := by
    rintro p k n ⟨u, hu, hle⟩
    obtain ⟨m, hm, _⟩ := hle.2 n rfl
    exact hasLength_of_label (hle.1 k rfl) hm

/-! ## The least bound -/

/-- The labels that demands leave room for: there is something at a place if something is asked for
there, or an array around it, and no more is known than what is asked for. -/
def covering (A : List Step → Label → Prop) (p : List Step) (l : Label) : Prop :=
  ((∃ x, A p x) ∨ ∃ q x, p = q ++ [.element] ∧ A q x ∧ x.kind = some .array) ∧
    (∀ k, l.kind = some k → ∃ x, A p x ∧ x.kind = some k) ∧
      ∀ n, l.length = some n → ∃ x m, A p x ∧ x.length = some m ∧ n ≤ m

/-- Demands that do not contradict each other. -/
structure Coherent (A : List Step → Label → Prop) : Prop where
  kind_unique : ∀ {p x y k k'}, A p x → A p y → x.kind = some k → y.kind = some k' → k = k'
  hasLength : ∀ {p x n}, A p x → x.length = some n → ∃ k, x.kind = some k ∧ k.hasLength = true

theorem covering_of_demand {A : List Step → Label → Prop} {p : List Step} {l : Label}
    (h : A p l) : covering A p l :=
  ⟨.inl ⟨l, h⟩, fun _ hk => ⟨l, h, hk⟩, fun n hn => ⟨l, n, h, hn, Nat.le_refl n⟩⟩

theorem Coherent.typeBound {A : List Step → Label → Prop} (h : Coherent A) :
    TypeBound (covering A) where
  unknown := by
    rintro p l ⟨hroom, _, _⟩
    refine ⟨hroom, ?_, ?_⟩
    · intro k hk
      cases hk
    · intro n hn
      cases hn
  kind_unique := by
    rintro p k k' l l' ⟨_, hkind, _⟩ ⟨_, hkind', _⟩
    obtain ⟨x, hx, hk⟩ := hkind k rfl
    obtain ⟨y, hy, hk'⟩ := hkind' k' rfl
    exact h.kind_unique hx hy hk hk'
  kind := by
    rintro p k l ⟨hroom, hkind, _⟩
    refine ⟨hroom, hkind, ?_⟩
    intro n hn
    cases hn
  raise := by
    rintro p k l n ⟨hroom, hkind, hlength⟩ ⟨_, _, hlength'⟩
    refine ⟨hroom, hkind, ?_⟩
    rintro m ⟨⟩
    cases l with
    | none => exact hlength' n rfl
    | some j =>
      -- the greater of two lengths is one of the two
      rcases Nat.le_total j n with hle | hle
      · obtain ⟨x, i, hx, hi, hni⟩ := hlength' n rfl
        exact ⟨x, i, hx, hi, Nat.max_le.2 ⟨Nat.le_trans hle hni, hni⟩⟩
      · obtain ⟨x, i, hx, hi, hji⟩ := hlength j rfl
        exact ⟨x, i, hx, hi, Nat.max_le.2 ⟨hji, Nat.le_trans hle hji⟩⟩
  element := by
    rintro p l ⟨_, hkind, _⟩
    obtain ⟨x, hx, harray⟩ := hkind .array rfl
    refine ⟨.inr ⟨p, x, rfl, hx, harray⟩, ?_, ?_⟩
    · intro k hk
      cases hk
    · intro n hn
      cases hn
  hasLength := by
    rintro p k n ⟨_, hkind, hlength⟩
    obtain ⟨x, hx, hk⟩ := hkind k rfl
    obtain ⟨y, m, hy, hm, _⟩ := hlength n rfl
    obtain ⟨k', hk', hlong⟩ := h.hasLength hy hm
    rw [h.kind_unique hx hy hk hk']
    exact hlong

/-! ## What a path asks for -/

/-- What a path asks for at the places along it: containers for its steps, and `last` at its end. -/
inductive Asks (last : Label) : List Accessor → List Step → Label → Prop where
  | here : Asks last [] [] last
  | through {a : Accessor} {rest : List Accessor} :
      Asks last (a :: rest) [] ⟨some (containerKind a), none⟩
  | further {a : Accessor} {rest : List Accessor} {p : List Step} {l : Label} :
      Asks last rest p l → Asks last (a :: rest) (a.step :: p) l

namespace Asks

variable {last : Label} {path : List Accessor}

theorem start (last : Label) (path : List Accessor) : ∃ l, Asks last path [] l := by
  cases path with
  | nil => exact ⟨last, .here⟩
  | cons a rest => exact ⟨_, .through⟩

theorem finish (last : Label) (path : List Accessor) :
    Asks last path (path.map Accessor.step) last := by
  induction path with
  | nil => exact .here
  | cons a rest ih => exact .further ih

end Asks

namespace Shape

/-- Steps lead through types of the kind that they go through. -/
theorem kind_of_child? {t u : Shape} {a : Accessor} (h : t.child? a.step = some u) :
    t.label.kind = some (containerKind a) := by
  cases a with
  | index expr =>
    cases t with
    | array length element => rfl
    | _ => cases h
  | member name =>
    cases t with
    | struct members => rfl
    | _ => cases h

/-- A type that has the end of a path has all that the path asks for. -/
theorem bound_of_asks {t u : Shape} {last : Label} {path : List Accessor}
    (hu : t.follow (path.map Accessor.step) = some u) (hle : last.Le u.label) {p : List Step}
    {l : Label} (h : Asks last path p l) : t.bound p l := by
  induction h generalizing t with
  | here => exact ⟨u, hu, hle⟩
  | through =>
    obtain ⟨c, hc, _⟩ := follow_cons.1 hu
    refine ⟨t, follow_nil t, ?_, LengthLe.none_left _⟩
    rintro k ⟨⟩
    exact kind_of_child? hc
  | further _ ih =>
    obtain ⟨c, hc, hrest⟩ := follow_cons.1 hu
    obtain ⟨v, hv, hlv⟩ := ih hrest
    exact ⟨v, follow_cons.2 ⟨c, hc, hv⟩, hlv⟩

end Shape

/-! ## Paths within a bound -/

section

variable {s : Store} {root id : Nat} {B : List Step → Label → Prop} {P : List Step}

/-- What settling a node to a kind that a bound allows leaves behind. -/
structure Settles (s : Store) (root : NodeId) (B : List Step → Label → Prop) (id : NodeId)
    (kind : Kind) (s' : Store) : Prop where
  run : settleKind id kind s = .ok kind s'
  forest : s'.Forest
  grows : s.Grows s'
  bounded : s'.BoundedBy root B
  kind_eq : (s'.get id).kind? = some kind

theorem settles (hB : TypeBound B) (hs : s.Forest) (hroot : root < s.size)
    (hbound : s.BoundedBy root B) (hP : s.follow root P = some id) {kind : Kind}
    (hkind : B P ⟨some kind, none⟩) : Settles s root B id kind (s.settle id kind) := by
  have hid := hs.follow_lt hroot hP
  have hagree := hbound.kind_agrees hB.toBound hP hkind
  have hexp := Store.expands_settle hs hid kind
  refine ⟨?_, hexp.forest hs hid, hexp.grows, hbound.settle hs hroot hP hkind ?_, ?_⟩
  · rw [settleKind_eq, hagree]
  · rintro rfl
    exact hB.element hkind
  · rw [Store.kind?_settle hid, hagree]

/-- A path is followed within any bound that has what the path asks for. -/
theorem walk_bounded (hB : TypeBound B) (conflict : String → Kind → Kind → Error) (label : String)
    (hs : s.Forest) (hroot : root < s.size) (hbound : s.BoundedBy root B)
    (hP : s.follow root P = some id) {path : List Accessor} {last : Label}
    (hasks : ∀ {p l}, Asks last path p l → B (P ++ p) l) :
    ∃ j s', walk conflict label id path s = .ok j s' ∧ s'.BoundedBy root B := by
  induction path generalizing s id P label with
  | nil => exact ⟨id, s, rfl, hbound⟩
  | cons a rest ih =>
    have hkind : B P ⟨some (containerKind a), none⟩ := by
      simpa using hasks Asks.through
    have hasks₂ : ∀ {p l}, Asks last rest p l → B (P ++ [a.step] ++ p) l := by
      intro p l h
      rw [List.append_assoc]
      exact hasks (.further h)
    have hroom : B (P ++ [a.step]) .unknown := by
      obtain ⟨l, hl⟩ := Asks.start last rest
      simpa using hB.unknown (hasks₂ hl)
    have hsettles := settles hB hs hroot hbound hP hkind
    generalize s.settle id (containerKind a) = s₁ at hsettles
    have hroot₁ := Nat.lt_of_lt_of_le hroot hsettles.grows.size_le
    have hP₁ := hsettles.grows.follow hP
    have hid₁ := hsettles.forest.follow_lt hroot₁ hP₁
    -- the step leads to the place one further along the path
    have hexp := Store.expands_step hsettles.forest hid₁ a
    have hP₂ := Store.follow_concat.2
      ⟨id, hexp.grows.follow hP₁, Store.child?_step hid₁ hsettles.kind_eq⟩
    have hbound₂ := hsettles.bounded.step hsettles.forest hroot₁ hP₁ hroom
    obtain ⟨j, s', hok, hbound'⟩ := ih a.label (hexp.forest hsettles.forest hid₁)
      (Nat.lt_of_lt_of_le hroot₁ hexp.size_le) hbound₂ hP₂ hasks₂
    refine ⟨j, s', ?_, hbound'⟩
    unfold walk
    rw [Results.run_bind_ok hsettles.run]
    simp only [bne_self_eq_false, Bool.false_eq_true, if_false]
    exact hok

/-- The node at the end of a path is found within any bound that has a place for it. -/
theorem resolveNode_bounded (hB : TypeBound B) (hs : s.Forest) (hroot : root < s.size)
    (hbound : s.BoundedBy root B) (hP : s.follow root P = some id) (path : AccessPath)
    (horigin : path.origin = .input)
    (hasks : ∀ {p l}, Asks .unknown path.accessors p l → B (P ++ p) l) :
    ∃ j s', resolveNode id path s = .ok j s' ∧ s'.BoundedBy root B := by
  simp only [resolveNode, horigin]
  exact walk_bounded hB .resolution _ hs hroot hbound hP hasks

theorem raiseLength_eq (id : NodeId) (kind : Kind) (n : Nat) (s : Store) :
    raiseLength id kind n s =
      match (s.get id).raiseLength? n with
      | some node => .ok () (s.set id node)
      | none => .error (.lengthlessKind kind) s := by
  unfold raiseLength
  change EStateM.bind (fun s => .ok s s) _ s = _
  simp only [EStateM.bind]
  cases (s.get id).raiseLength? n with
  | some node => rfl
  | none => rfl

/-- Nodes of a kind with lengths can have lengths. -/
theorem exists_raiseLength?_of_hasLength {n : Node} {kind : Kind} (hn : n.kind? = some kind)
    (hkind : kind.hasLength = true) (k : Nat) : ∃ node, n.raiseLength? k = some node := by
  cases n with
  | string | uint | int | array => exact ⟨_, rfl⟩
  | unknown => cases hn
  | bool | struct =>
    cases hn
    cases hkind

theorem raiseLength_bounded (hB : TypeBound B) (hs : s.Forest) (hroot : root < s.size)
    (hbound : s.BoundedBy root B) (hP : s.follow root P = some id) {kind : Kind}
    (hkind : (s.get id).kind? = some kind) {n : Nat} (hlength : B P ⟨some kind, some n⟩) :
    ∃ s', raiseLength id kind n s = .ok () s' ∧ s'.BoundedBy root B := by
  obtain ⟨node, hnode⟩ := exists_raiseLength?_of_hasLength hkind (hB.hasLength hlength) n
  have hraised := hbound.raiseLength hB.toBound hs hroot hP hkind hlength
  have hraise : s.raise id (some n) = s.set id node := by
    simp only [Store.raise, hnode]
  rw [hraise] at hraised
  refine ⟨s.set id node, ?_, hraised⟩
  rw [raiseLength_eq, hnode]

/-- What is asked for at the end of a narrowed path; a length of 0 is no length. -/
def narrowLabel (kind : Kind) (length : Option Nat) : Label :=
  ⟨some kind, length.filter (0 < ·)⟩

/-- A path is narrowed within any bound that has what the path and its end ask for. -/
theorem narrow_bounded (hB : TypeBound B) (hs : s.Forest) (hroot : root < s.size)
    (hbound : s.BoundedBy root B) (hP : s.follow root P = some id) (path : AccessPath)
    (kind : Kind) (length : Option Nat)
    (hasks : path.origin = .input → ∀ {p l},
      Asks (narrowLabel kind length) path.accessors p l → B (P ++ p) l) :
    ∃ s', narrow id path kind length s = .ok () s' ∧ s'.BoundedBy root B := by
  cases horigin : path.origin with
  | «variable» name =>
    simp only [narrow, horigin]
    exact ⟨s, rfl, hbound⟩
  | input =>
    have hlast := hasks horigin (.finish _ path.accessors)
    -- along the path to its end
    obtain ⟨j, s₁, hwalk, hbound₁⟩ := walk_bounded hB (.accessConflict path.text) path.origin.text
      hs hroot hbound hP (hasks horigin)
    have hadvances := walk_advances (.accessConflict path.text) path.origin.text hs
      (hs.follow_lt hroot hP) path.accessors
    rw [hwalk] at hadvances
    obtain ⟨hs₁, hgrows₁, hj⟩ := hadvances
    have hP₁ := Store.follow_append.2 ⟨id, hgrows₁.follow hP, hj⟩
    have hroot₁ := Nat.lt_of_lt_of_le hroot hgrows₁.size_le
    -- its kind, and then its length if there is one
    have hsettles := settles hB hs₁ hroot₁ hbound₁ hP₁ (hB.kind hlast)
    generalize s₁.settle j kind = s₂ at hsettles
    have hroot₂ := Nat.lt_of_lt_of_le hroot₁ hsettles.grows.size_le
    simp only [narrow, horigin]
    rw [← horigin]
    rw [Results.run_bind_ok hwalk, Results.run_bind_ok hsettles.run]
    simp only [bne_self_eq_false, Bool.false_eq_true, if_false]
    split
    · next n =>
      exact raiseLength_bounded hB hsettles.forest hroot₂ hsettles.bounded
        (hsettles.grows.follow hP₁) hsettles.kind_eq hlast
    · exact ⟨s₂, rfl, hsettles.bounded⟩

end

end Types
end Stencil
