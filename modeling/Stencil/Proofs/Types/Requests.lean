import Stencil.Proofs.Types.Built
import Stencil.Proofs.Types.Demands
import Stencil.Proofs.Types.Reordered

/-!
# Requests about an input

A template narrows and resolves paths into its input, one after the other, and every request meets
what those before it have left. This file defines:

* `Request`, `runAll` : requests about paths from a root, and running them in order;
* `Consistent`        : requests that ask for one kind at every place, and for lengths where there
  can be some;
* `Meets`             : a type that meets all requests.

The order makes no difference to what is found out: requests about a new root succeed if they are
consistent, and what is then known is the least type that meets them (`runAll_least`).
-/

namespace Stencil
namespace Types

/-- A request about a path: that its end is of some kind, with a length, or only that it is there. -/
inductive Request where
  | narrow (path : List Accessor) (kind : Kind) (length : Option Nat)
  | resolve (path : List Accessor)
  deriving DecidableEq, Repr

namespace Request

def path : Request → List Accessor
  | .narrow path _ _ => path
  | .resolve path => path

/-- What is asked for at the end of the path. -/
def label : Request → Label
  | .narrow _ kind length => narrowLabel kind length
  | .resolve _ => .unknown

def run (root : NodeId) : Request → Inference Unit
  | .narrow path kind length => Types.narrow root { accessors := path } kind length
  | .resolve path => do let _ ← resolveNode root { accessors := path }

end Request

/-- Runs requests about one root, until one fails. -/
def runAll (root : NodeId) (requests : List Request) : Inference Unit :=
  requests.forM (·.run root)

/-! ## What requests ask for -/

/-- What is asked for at a place below a struct. -/
def Demanded (requests : List Request) (p : List Step) (l : Label) : Prop :=
  p = [] ∧ l = ⟨some .struct, none⟩ ∨ ∃ r ∈ requests, Asks r.label r.path p l

/-- A place below a struct has to be of some kind: as the struct itself, as a container that a path
goes through, or as the end of a path that is narrowed. -/
def Requires (requests : List Request) (p : List Step) (kind : Kind) : Prop :=
  ∃ length, Demanded requests p ⟨some kind, length⟩

/-- No place has to be of two kinds, and lengths are asked for where there can be some. -/
structure Consistent (requests : List Request) : Prop where
  kind_unique : ∀ {p k k'}, Requires requests p k → Requires requests p k' → k = k'
  hasLength : ∀ {path kind n}, .narrow path kind (some n) ∈ requests → 0 < n →
    kind.hasLength = true

/-- A struct with all that requests ask for. -/
structure Meets (requests : List Request) (t : Shape) : Prop where
  struct : t.label.kind = some .struct
  request : ∀ r ∈ requests, ∃ u, t.follow (r.path.map Accessor.step) = some u ∧
    r.label.Le u.label

section

variable {requests requests' : List Request} {t : Shape}

theorem Consistent.perm (h : Consistent requests) (hperm : requests.Perm requests') :
    Consistent requests' := by
  have hdemanded : ∀ {p l}, Demanded requests' p l → Demanded requests p l := by
    rintro p l (hroot | ⟨r, hr, hasks⟩)
    · exact .inl hroot
    · exact .inr ⟨r, hperm.mem_iff.2 hr, hasks⟩
  refine ⟨?_, fun hmem => h.hasLength (hperm.mem_iff.2 hmem)⟩
  rintro p k k' ⟨length, hk⟩ ⟨length', hk'⟩
  exact h.kind_unique ⟨length, hdemanded hk⟩ ⟨length', hdemanded hk'⟩

theorem Meets.perm (h : Meets requests t) (hperm : requests.Perm requests') : Meets requests' t :=
  ⟨h.struct, fun r hr => h.request r (hperm.mem_iff.2 hr)⟩

/-- A type that meets requests has room for all that they ask for. -/
theorem Meets.bound (h : Meets requests t) {p : List Step} {l : Label}
    (hdemanded : Demanded requests p l) : t.bound p l := by
  rcases hdemanded with ⟨rfl, rfl⟩ | ⟨r, hr, hasks⟩
  · refine ⟨t, Shape.follow_nil t, ?_, LengthLe.none_left _⟩
    rintro k ⟨⟩
    exact h.struct
  · obtain ⟨u, hu, hle⟩ := h.request r hr
    exact Shape.bound_of_asks hu hle hasks

/-- There is no type for requests that contradict each other. -/
theorem Meets.consistent (h : Meets requests t) : Consistent requests := by
  refine ⟨?_, ?_⟩
  · rintro p k k' ⟨length, hk⟩ ⟨length', hk'⟩
    exact t.isBound.kind_unique (h.bound hk) (h.bound hk')
  · intro path kind n hmem hpos
    have hdemanded : Demanded requests (path.map Accessor.step) (narrowLabel kind (some n)) :=
      .inr ⟨_, hmem, .finish _ path⟩
    have hlabel : narrowLabel kind (some n) = ⟨some kind, some n⟩ := by
      simp [narrowLabel, hpos]
    rw [hlabel] at hdemanded
    exact t.typeBound.hasLength (h.bound hdemanded)

/-- Only the end of a path can be asked to have a length. -/
theorem Asks.eq_last {last l : Label} {path : List Accessor} {p : List Step}
    (h : Asks last path p l) {n : Nat} (hn : l.length = some n) : l = last := by
  induction h with
  | here => rfl
  | through => cases hn
  | further _ ih => exact ih hn

theorem Consistent.coherent (h : Consistent requests) : Coherent (Demanded requests) := by
  refine ⟨?_, ?_⟩
  · rintro p ⟨_, length⟩ ⟨_, length'⟩ k k' hx hy rfl rfl
    exact h.kind_unique ⟨length, hx⟩ ⟨length', hy⟩
  · rintro p x n (⟨_, rfl⟩ | ⟨r, hr, hasks⟩) hn
    · cases hn
    · have hlast := hasks.eq_last hn
      subst hlast
      cases r with
      | resolve path => cases hn
      | narrow path kind length =>
        obtain ⟨rfl, hpos⟩ := Option.filter_eq_some_iff.1 hn
        exact ⟨kind, rfl, h.hasLength hr (by simpa using hpos)⟩

end

/-! ## Running requests -/

section

variable {s : Store} {root : Nat} {B : List Step → Label → Prop} {requests : List Request}

/-- After a request, its path leads to a node with all that was asked for. -/
theorem Request.run_advances (hs : s.Forest) (hroot : root < s.size) (r : Request) :
    Advances s
      (fun _ s' => ∃ j, s'.follow root (r.path.map Accessor.step) = some j ∧
        r.label.Le (s'.get j).label)
      (r.run root s) := by
  cases r with
  | narrow path kind length =>
    refine (narrow_advances hs hroot { accessors := path } kind length).mono ?_
    intro _ s' _ _ hpost
    obtain ⟨j, hj, hkind, hlength⟩ := hpost rfl
    refine ⟨j, hj, ?_, ?_⟩
    · rintro k ⟨⟩
      exact hkind
    · intro n hn
      obtain ⟨rfl, hpos⟩ := Option.filter_eq_some_iff.1 hn
      cases n with
      | zero => simp at hpos
      | succ n => exact hlength n rfl
  | resolve path =>
    refine .bind (resolveNode_advances hs hroot { accessors := path }) ?_
    rintro j s' hs' _ ⟨_, hj⟩
    exact .pure hs' ⟨j, hj, Label.unknown_le _⟩

/-- A request succeeds within any bound that has what it asks for. -/
theorem Request.run_bounded (hB : TypeBound B) (hs : s.Forest) (hroot : root < s.size)
    (hbound : s.BoundedBy root B) (r : Request)
    (hasks : ∀ {p l}, Asks r.label r.path p l → B p l) :
    ∃ s', r.run root s = .ok () s' ∧ s'.Forest ∧ root < s'.size ∧ s'.BoundedBy root B := by
  have hrun : ∃ s', r.run root s = .ok () s' ∧ s'.BoundedBy root B := by
    cases r with
    | narrow path kind length =>
      exact narrow_bounded hB hs hroot hbound (Store.follow_nil s root) { accessors := path } kind
        length fun _ => hasks
    | resolve path =>
      obtain ⟨j, s', hok, hbound'⟩ := resolveNode_bounded hB hs hroot hbound
        (Store.follow_nil s root) { accessors := path } rfl hasks
      exact ⟨s', Results.run_bind_ok hok, hbound'⟩
  obtain ⟨s', hok, hbound'⟩ := hrun
  have hadvances := r.run_advances hs hroot
  rw [hok] at hadvances
  exact ⟨s', hok, hadvances.1, Nat.lt_of_lt_of_le hroot hadvances.2.1.size_le, hbound'⟩

/-- Of a new root only its kind is known. -/
theorem Store.newRoot_bounded (s : Store) (h : B [] ⟨some .struct, none⟩) :
    s.newRoot.2.BoundedBy s.newRoot.1 B := by
  intro p j hj
  cases p with
  | nil =>
    cases hj
    rw [get_newRoot]
    exact h
  | cons σ p =>
    obtain ⟨c, hc, _⟩ := follow_cons.1 hj
    rw [get_newRoot] at hc
    cases σ <;> cases hc

/-- Requests about a new root succeed within any bound that has what they ask for. -/
theorem runAll_bounded (hB : TypeBound B) (hs : s.Forest)
    (hdemanded : ∀ {p l}, Demanded requests p l → B p l) :
    ∃ s', runAll s.newRoot.1 requests s.newRoot.2 = .ok () s' ∧
      s'.Forest ∧ s.newRoot.1 < s'.size ∧ s'.BoundedBy s.newRoot.1 B := by
  have hbound := s.newRoot_bounded (hdemanded (.inl ⟨rfl, rfl⟩))
  refine forM_ok ⟨hs.newRoot, s.newRoot_lt, hbound⟩ ?_
  rintro r hr s₁ ⟨hs₁, hroot₁, hbound₁⟩
  exact r.run_bounded hB hs₁ hroot₁ hbound₁ fun hasks => hdemanded (.inr ⟨r, hr, hasks⟩)

/-- What is known after requests about a new root meets them. -/
theorem runAll_meets (hs : s.Forest) {s' : Store}
    (hrun : runAll s.newRoot.1 requests s.newRoot.2 = .ok () s') :
    s'.Forest ∧ Meets requests (s'.shape s.newRoot.1) := by
  have hadvances : Advances s.newRoot.2
      (fun _ s' => ∀ r ∈ requests, ∃ j, s'.follow s.newRoot.1 (r.path.map Accessor.step) = some j ∧
        r.label.Le (s'.get j).label) (runAll s.newRoot.1 requests s.newRoot.2) := by
    refine Advances.forM hs.newRoot ?_ ?_
    · rintro r s₁ s₂ hgrows ⟨j, hj, hle⟩
      exact ⟨j, hgrows.follow hj, hle.trans (hgrows.label_le j)⟩
    · intro r _ s₁ hs₁ hgrows₁
      exact r.run_advances hs₁ (Nat.lt_of_lt_of_le s.newRoot_lt hgrows₁.size_le)
  rw [hrun] at hadvances
  obtain ⟨hs', hgrows, hmet⟩ := hadvances
  refine ⟨hs', ?_, ?_⟩
  · rw [Store.label_shape hs']
    exact hgrows.kind? (by rw [Store.get_newRoot]; rfl)
  · intro r hr
    obtain ⟨j, hj, hle⟩ := hmet r hr
    refine ⟨s'.shape j, ?_, ?_⟩
    · rw [Store.follow_shape hs', hj]
      rfl
    · rw [Store.label_shape hs']
      exact hle

/-- Whatever type meets requests, what is known after them is below it. -/
theorem runAll_le (hs : s.Forest) {t : Shape} (ht : Meets requests t) {s' : Store}
    (hrun : runAll s.newRoot.1 requests s.newRoot.2 = .ok () s') :
    (s'.shape s.newRoot.1).Le t := by
  obtain ⟨s₁, hok, hs₁, _, hbound⟩ := runAll_bounded t.typeBound hs ht.bound
  rw [hrun] at hok
  cases hok
  exact (Store.shape_le_iff hs₁).2 hbound

theorem exists_runAll (hs : s.Forest) (h : Consistent requests) :
    ∃ s', runAll s.newRoot.1 requests s.newRoot.2 = .ok () s' := by
  obtain ⟨s', hok, _⟩ := runAll_bounded h.coherent.typeBound hs covering_of_demand
  exact ⟨s', hok⟩

end

/-- Requests about a new root succeed if and only if they are consistent. What is then known is the
least type that meets them, so that another order gives the same type up to the order of members. -/
theorem runAll_least {s : Store} (hs : s.Built) (requests : List Request) :
    ((∃ s', runAll s.newRoot.1 requests s.newRoot.2 = .ok () s') ↔ Consistent requests) ∧
      ∀ s', runAll s.newRoot.1 requests s.newRoot.2 = .ok () s' →
        Meets requests (s'.shape s.newRoot.1) ∧
        (∀ t, Meets requests t → (s'.shape s.newRoot.1).Le t) ∧
        ∀ requests', requests.Perm requests' →
          ∃ s'', runAll s.newRoot.1 requests' s.newRoot.2 = .ok () s'' ∧
            (s'.shape s.newRoot.1).Reordered (s''.shape s.newRoot.1) := by
  refine ⟨⟨?_, exists_runAll hs.forest⟩, ?_⟩
  · rintro ⟨s', hrun⟩
    exact (runAll_meets hs.forest hrun).2.consistent
  · intro s' hrun
    obtain ⟨hs', hmeets⟩ := runAll_meets hs.forest hrun
    refine ⟨hmeets, fun t ht => runAll_le hs.forest ht hrun, ?_⟩
    intro requests' hperm
    obtain ⟨s'', hrun'⟩ := exists_runAll hs.forest (hmeets.consistent.perm hperm)
    obtain ⟨hs'', hmeets'⟩ := runAll_meets hs.forest hrun'
    -- each of the two types meets the requests of the other, and is the least that does
    have hle := runAll_le hs.forest (hmeets'.perm hperm.symm) hrun
    have hge := runAll_le hs.forest (hmeets.perm hperm) hrun'
    exact ⟨s'', hrun', (hs'.acyclic.same_iff_reordered hs''.acyclic).1 ⟨hle, hge⟩⟩

/-- Requests that meet at the list of items and inside it. -/
def itemRequests : List Request :=
  [.narrow [.member "items", .index "0", .member "price"] .uint (some 8),
    .narrow [.member "items", .index "__i", .member "price"] .uint (some 16),
    .resolve [.member "items", .index "__i", .member "tag"],
    .narrow [.member "items"] .array (some 0)]

/-- They can also be run backwards, but not with a text in place of the list. -/
theorem runAll_least_items : Consistent itemRequests ∧
    ¬ Consistent (itemRequests ++ [.narrow [.member "items"] .string none]) ∧
    ∃ s' s'', runAll 0 itemRequests ({} : Store).newRoot.2 = .ok () s' ∧
      runAll 0 itemRequests.reverse ({} : Store).newRoot.2 = .ok () s'' ∧
      s'.get 2 = .struct [("price", 3), ("tag", 4)] ∧ s'.get 3 = .uint (some 16) ∧
      s''.get 2 = .struct [("tag", 3), ("price", 4)] ∧
      (s'.shape 0).Reordered (s''.shape 0) := by
  obtain ⟨hiff, hleast⟩ := runAll_least .empty itemRequests
  have hrun : runAll 0 itemRequests ({} : Store).newRoot.2 = .ok ()
      ⟨#[.struct [("items", 1)], .array none 2, .struct [("price", 3), ("tag", 4)],
        .uint (some 16), .unknown]⟩ := rfl
  have hback : runAll 0 itemRequests.reverse ({} : Store).newRoot.2 = .ok ()
      ⟨#[.struct [("items", 1)], .array none 2, .struct [("tag", 3), ("price", 4)],
        .unknown, .uint (some 16)]⟩ := rfl
  refine ⟨hiff.1 ⟨_, hrun⟩, ?_, _, _, hrun, hback, rfl, rfl, rfl, ?_⟩
  · intro hconsistent
    obtain ⟨s', hok⟩ := (runAll_least .empty _).1.2 hconsistent
    cases hok
  · obtain ⟨s'', hok, hreordered⟩ := (hleast _ hrun).2.2 _ itemRequests.reverse_perm.symm
    cases hback.symm.trans hok
    exact hreordered

end Types
end Stencil
