import Stencil.Proofs.Counter
import Stencil.Proofs.Types.Acyclic
import Stencil.Proofs.Types.Naming

/-!
# The order of visits

Naming goes through the members of a struct, and through those of the structs in them, and stops at
the first array of arrays. What it does on the way depends on the store only. This file defines:

* `Visit`  : one thing that naming does: to name a struct after a field, or to stop;
* `visits` : all of them inside a node, in order;
* `Visit.At` : a visit is due at some member of some struct that a root leads to.

A visit of a struct is the run of its list (`visitStruct_eq`), and the list has what is due inside
(`at_of_mem_visits`, `mem_visits_of_at`), once for each node of a forest (`nodup_visits`). A run
ends without names at an array of arrays, or where `2 ^ 64` names are taken (`run_eq_error`).
-/

namespace Stencil
namespace Types
namespace Naming

open Name (capitalize freshName singularize)

/-- What naming does at a member: to name the struct that it holds, or to stop at an array of
arrays. -/
inductive Visit where
  | name (field : String) (id : NodeId)
  | nested (field : String) (id : NodeId)
  deriving DecidableEq, Repr

namespace Visit

/-- The node that a visit is about: the struct, or the array in the array. -/
def node : Visit → NodeId
  | .name _ id | .nested _ id => id

/-- One visit, after the entries so far. -/
def perform (s : Store) (entries : List NamedStruct) : Visit → Except Error (List NamedStruct)
  | .name field id => register s field id entries
  | .nested field _ => .error (.multiDimensionalArray field)

end Visit

/-- Visits one after the other. -/
def run (s : Store) (vs : List Visit) (entries : List NamedStruct) :
    Except Error (List NamedStruct) :=
  vs.foldlM (Visit.perform s) entries

/-- The visit that is due at a member. -/
def memberVisit? (s : Store) (member : String × NodeId) : Option Visit :=
  match s.get member.2 with
  | .struct _ => some (.name member.1 member.2)
  | .array _ element =>
    match s.get element with
    | .struct _ => some (.name (singularize member.1) element)
    | .array _ _ => some (.nested member.1 element)
    | _ => none
  | _ => none

/-- The visit at a member and those inside the struct that it holds. -/
def memberVisits (s : Store) (inside : NodeId → List Visit) (member : String × NodeId) :
    List Visit :=
  match memberVisit? s member with
  | some (.name field id) => .name field id :: inside id
  | some (.nested field id) => [.nested field id]
  | none => []

/-- The visits inside a struct, down to the given depth. -/
def visits (s : Store) : Nat → NodeId → List Visit
  | 0, _ => []
  | depth + 1, id =>
    match s.get id with
    | .struct members => members.flatMap (memberVisits s (visits s depth))
    | _ => []

variable {s : Store} {root : NodeId} {entries entries' : List NamedStruct} {vs : List Visit}

/-! ## Runs -/

theorem run_append (vs ws : List Visit) (entries : List NamedStruct) :
    run s (vs ++ ws) entries = run s vs entries >>= run s ws :=
  List.foldlM_append

theorem visitMember_eq {descend : NodeId → List NamedStruct → Except Error (List NamedStruct)}
    {inside : NodeId → List Visit}
    (h : ∀ id entries, descend id entries = run s (inside id) entries)
    (member : String × NodeId) (entries : List NamedStruct) :
    visitMember s descend entries member = run s (memberVisits s inside member) entries := by
  have hname : ∀ field id, register s field id entries >>= descend id =
      run s (.name field id :: inside id) entries := by
    intro field id
    rw [funext (h id)]
    rfl
  obtain ⟨field, id⟩ := member
  unfold visitMember memberVisits memberVisit?
  cases hn : s.get id with
  | struct members => simp only [hn, hname]
  | array length element =>
    cases he : s.get element with
    | struct members => simp only [hn, he, hname]
    | _ =>
      simp only [hn, he]
      rfl
  | _ =>
    simp only [hn]
    rfl

/-- A visit of a struct is the run of what is inside it. -/
theorem visitStruct_eq (s : Store) (depth : Nat) (id : NodeId) (entries : List NamedStruct) :
    visitStruct s depth id entries = run s (visits s depth id) entries := by
  induction depth generalizing id entries with
  | zero => rfl
  | succ depth ih =>
    unfold visitStruct visits
    cases hn : s.get id with
    | struct members =>
      dsimp only
      clear hn
      induction members generalizing entries with
      | nil => rfl
      | cons m members ihm =>
        rw [List.foldlM_cons, List.flatMap_cons, run_append, visitMember_eq ih, funext ihm]
    | _ => rfl

/-- What every naming of a run keeps, the run keeps. -/
theorem run_keeps {P : List NamedStruct → Prop}
    (hstep : ∀ field id, .name field id ∈ vs → ∀ es es', register s field id es = .ok es' →
      P es → P es')
    (h : run s vs entries = .ok entries') (hP : P entries) : P entries' := by
  induction vs generalizing entries with
  | nil =>
    cases h
    exact hP
  | cons v vs ih =>
    obtain ⟨mid, hfirst, hrest⟩ :=
      Results.bind_eq_ok.1 (show Visit.perform s entries v >>= _ = _ from h)
    have hmid : P mid := by
      cases v with
      | name field id => exact hstep field id List.mem_cons_self entries mid hfirst hP
      | nested field id => cases hfirst
    exact ih (fun field id hmem => hstep field id (List.mem_cons_of_mem _ hmem)) hrest hmid

/-- A run with a result has met no array of arrays. -/
theorem not_nested_of_run (h : run s vs entries = .ok entries') {field : String} {id : NodeId} :
    .nested field id ∉ vs := by
  intro hmem
  obtain ⟨before, after, rfl⟩ := List.append_of_mem hmem
  rw [run_append] at h
  obtain ⟨mid, _, hstop⟩ := Results.bind_eq_ok.1 h
  obtain ⟨out, hnested, _⟩ := Results.bind_eq_ok.1 hstop
  cases hnested

theorem length_register {field : String} {id : NodeId}
    (h : register s field id entries = .ok entries') : entries'.length = entries.length + 1 := by
  obtain ⟨e, name, _, _, rfl⟩ | ⟨e, _, rfl⟩ | ⟨name, _, _, rfl⟩ := register_ok h
  · rw [List.length_append, rename_eq, List.length_map]
    rfl
  · rw [List.length_append]
    rfl
  · rw [List.length_append]
    rfl

/-- Naming a struct has no result only if `2 ^ 64` names are taken. -/
theorem register_eq_error {field : String} {id : NodeId} {e : Error}
    (h : register s field id entries = .error e) :
    e = .endless ∧ Text.bound64 ≤ entries.length := by
  unfold register at h
  dsimp only at h
  split at h
  · split at h <;> cases h
  · split at h
    · cases h
    · next hnone =>
      cases h
      refine ⟨rfl, Nat.le_of_not_lt ?_⟩
      intro hlt
      have htaken : (entries.map (·.name)).length < Text.bound64 := by rwa [List.length_map]
      obtain ⟨name, hname⟩ := Name.exists_freshName_of_lt (capitalize field) htaken
      rw [hname] at hnone
      cases hnone

/-- Why a run has no result. -/
theorem run_eq_error {e : Error} (h : run s vs entries = .error e) :
    (∃ field id, .nested field id ∈ vs ∧ e = .multiDimensionalArray field) ∨
      (e = .endless ∧ Text.bound64 < entries.length + vs.length) := by
  induction vs generalizing entries with
  | nil => cases h
  | cons v vs ih =>
    cases hfirst : Visit.perform s entries v with
    | ok mid =>
      cases v with
      | nested field id => cases hfirst
      | name field id =>
        have hrest : run s vs mid = .error e := by
          rw [← h]
          unfold run
          rw [List.foldlM_cons, hfirst]
          rfl
        obtain ⟨field', id', hmem, rfl⟩ | ⟨rfl, hbound⟩ := ih hrest
        · exact .inl ⟨field', id', List.mem_cons_of_mem _ hmem, rfl⟩
        · refine .inr ⟨rfl, ?_⟩
          rw [length_register hfirst] at hbound
          rw [List.length_cons]
          omega
    | error e' =>
      have heq : e' = e := by
        unfold run at h
        rw [List.foldlM_cons, hfirst] at h
        exact Except.error.inj h
      subst heq
      cases v with
      | nested field id =>
        cases hfirst
        exact .inl ⟨field, id, List.mem_cons_self, rfl⟩
      | name field id =>
        obtain ⟨rfl, hbound⟩ := register_eq_error hfirst
        refine .inr ⟨rfl, ?_⟩
        rw [List.length_cons]
        omega

/-! ## What is visited -/

/-- Which structs are named after which fields. -/
theorem memberVisit?_name {member : String × NodeId} {field : String} {id : NodeId} :
    memberVisit? s member = some (.name field id) ↔
      (s.get id).kind? = some .struct ∧
        ((field = member.1 ∧ id = member.2) ∨
          (field = singularize member.1 ∧ (s.get member.2).child? .element = some id)) := by
  unfold memberVisit?
  cases hn : s.get member.2 with
  | struct members =>
    constructor
    · intro h
      cases h
      exact ⟨by rw [hn]; rfl, .inl ⟨rfl, rfl⟩⟩
    · rintro ⟨_, ⟨rfl, rfl⟩ | ⟨_, hchild⟩⟩
      · rfl
      · cases hchild
  | array length element =>
    dsimp only
    rw [Node.child?_array_element]
    constructor
    · intro h
      cases he : s.get element with
      | struct members =>
        rw [he] at h
        cases h
        exact ⟨by rw [he]; rfl, .inr ⟨rfl, rfl⟩⟩
      | _ =>
        rw [he] at h
        cases h
    · rintro ⟨hstruct, ⟨rfl, rfl⟩ | ⟨rfl, hid⟩⟩
      · rw [hn] at hstruct
        cases hstruct
      · cases hid
        cases he : s.get id with
        | struct members => rfl
        | _ =>
          rw [he] at hstruct
          cases hstruct
  | _ =>
    constructor
    · intro h
      cases h
    · rintro ⟨hstruct, ⟨rfl, rfl⟩ | ⟨rfl, hid⟩⟩
      · rw [hn] at hstruct
        cases hstruct
      · simp [Node.child?] at hid

theorem memberVisit?_nested {member : String × NodeId} {field : String} {id : NodeId} :
    memberVisit? s member = some (.nested field id) ↔
      field = member.1 ∧ (s.get member.2).child? .element = some id ∧
        (s.get id).kind? = some .array := by
  unfold memberVisit?
  cases hn : s.get member.2 with
  | array length element =>
    dsimp only
    rw [Node.child?_array_element]
    constructor
    · intro h
      cases he : s.get element with
      | array length' element' =>
        rw [he] at h
        cases h
        exact ⟨rfl, rfl, by rw [he]; rfl⟩
      | _ =>
        rw [he] at h
        cases h
    · rintro ⟨rfl, hid, harray⟩
      cases hid
      cases he : s.get id with
      | array length' element' => rfl
      | _ =>
        rw [he] at harray
        cases harray
  | _ => simp [Node.child?]

/-- A visit is due at some member of some struct that a root leads to. -/
def Visit.At (s : Store) (root : NodeId) (v : Visit) : Prop :=
  ∃ path k field c, s.follow root path = some k ∧
    (s.get k).child? (.member field) = some c ∧ memberVisit? s (field, c) = some v

theorem Visit.At.inside {p : List Step} {id : NodeId} {v : Visit} (h : v.At s id)
    (hp : s.follow root p = some id) : v.At s root := by
  obtain ⟨path, k, field, c, hk, hc, hv⟩ := h
  exact ⟨p ++ path, k, field, c, Store.follow_append.2 ⟨id, hp, hk⟩, hc, hv⟩

/-- The node of a visit lies in the member that it is due at. -/
theorem exists_follow_node {member : String × NodeId} {v : Visit}
    (h : memberVisit? s member = some v) : ∃ q, s.follow member.2 q = some v.node := by
  cases v with
  | name field id =>
    obtain ⟨_, ⟨_, rfl⟩ | ⟨_, hid⟩⟩ := memberVisit?_name.1 h
    · exact ⟨[], rfl⟩
    · exact ⟨[.element], Store.follow_cons.2 ⟨id, hid, rfl⟩⟩
  | nested field id =>
    obtain ⟨_, hid, _⟩ := memberVisit?_nested.1 h
    exact ⟨[.element], Store.follow_cons.2 ⟨id, hid, rfl⟩⟩

theorem Visit.At.exists_follow {v : Visit} (h : v.At s root) :
    ∃ p, p ≠ [] ∧ s.follow root p = some v.node := by
  obtain ⟨path, k, field, c, hk, hc, hv⟩ := h
  obtain ⟨q, hq⟩ := exists_follow_node hv
  exact ⟨path ++ .member field :: q, by simp,
    Store.follow_append.2 ⟨k, hk, Store.follow_cons.2 ⟨c, hc, hq⟩⟩⟩

theorem Visit.At.lt_size {v : Visit} (h : v.At s root) : v.node < s.size := by
  obtain ⟨path, k, field, c, hk, hc, hv⟩ := h
  cases v with
  | name field id => exact Store.lt_size_of_kind? (memberVisit?_name.1 hv).1
  | nested field id => exact Store.lt_size_of_kind? (memberVisit?_nested.1 hv).2.2

theorem mem_memberVisits {inside : NodeId → List Visit} {member : String × NodeId} {v : Visit} :
    v ∈ memberVisits s inside member ↔ memberVisit? s member = some v ∨
      ∃ field id, memberVisit? s member = some (.name field id) ∧ v ∈ inside id := by
  unfold memberVisits
  cases memberVisit? s member with
  | none => simp
  | some first =>
    cases first with
    | name field id => simp [eq_comm]
    | nested field id => simp [eq_comm]

theorem mem_visits_succ {d : Nat} {id : NodeId} {members : List (String × NodeId)}
    (hn : s.get id = .struct members) {v : Visit} :
    v ∈ visits s (d + 1) id ↔ ∃ m ∈ members, v ∈ memberVisits s (visits s d) m := by
  simp only [visits, hn, List.mem_flatMap]

theorem mem_visits_of_member {d : Nat} {id : NodeId} {members : List (String × NodeId)}
    (hn : s.get id = .struct members) {m : String × NodeId} (hm : m ∈ members) {v : Visit}
    (hv : memberVisit? s m = some v) : v ∈ visits s (d + 1) id :=
  (mem_visits_succ hn).2 ⟨m, hm, mem_memberVisits.2 (.inl hv)⟩

theorem mem_visits_of_inside {d : Nat} {id : NodeId} {members : List (String × NodeId)}
    (hn : s.get id = .struct members) {m : String × NodeId} (hm : m ∈ members) {field : String}
    {target : NodeId} (htarget : memberVisit? s m = some (.name field target)) {v : Visit}
    (hv : v ∈ visits s d target) : v ∈ visits s (d + 1) id :=
  (mem_visits_succ hn).2 ⟨m, hm, mem_memberVisits.2 (.inr ⟨field, target, htarget, hv⟩)⟩

/-- Only structs are visited. -/
theorem exists_members_of_mem_visits {d : Nat} {id : NodeId} {v : Visit}
    (h : v ∈ visits s (d + 1) id) : ∃ members, s.get id = .struct members := by
  unfold visits at h
  split at h
  · next members hn => exact ⟨members, hn⟩
  · cases h

/-- What is visited is due. -/
theorem at_of_mem_visits (hs : s.Acyclic) {d : Nat} {id : NodeId} {v : Visit}
    (h : v ∈ visits s d id) : v.At s id := by
  induction d generalizing id with
  | zero => cases h
  | succ d ih =>
    obtain ⟨members, hn⟩ := exists_members_of_mem_visits h
    obtain ⟨m, hm, hv⟩ := (mem_visits_succ hn).1 h
    have hchild := hs.child?_of_mem hn hm
    obtain hv | ⟨field, target, htarget, hv⟩ := mem_memberVisits.1 hv
    · exact ⟨[], id, m.1, m.2, rfl, hchild, hv⟩
    · obtain ⟨q, hq⟩ := exists_follow_node htarget
      exact (ih hv).inside (Store.follow_cons.2 ⟨m.2, hchild, hq⟩)

/-- The struct in a member is visited. -/
theorem exists_memberVisit?_name {field : String} {c target : NodeId}
    (h : innerStruct? s c = some target) :
    ∃ base, memberVisit? s (field, c) = some (.name base target) := by
  have hstruct := kind?_of_innerStruct? h
  unfold innerStruct? at h
  split at h
  · cases h
    exact ⟨field, memberVisit?_name.2 ⟨hstruct, .inl ⟨rfl, rfl⟩⟩⟩
  · next length element hn =>
    split at h
    · cases h
      refine ⟨singularize field, memberVisit?_name.2 ⟨hstruct, .inr ⟨rfl, ?_⟩⟩⟩
      rw [hn]
      rfl
    · cases h
  · cases h

/-- Arrays in members have no arrays in them, unless naming stops there. -/
theorem flatArray_of_not_nested {d : Nat} {id : NodeId} {members : List (String × NodeId)}
    (hn : s.get id = .struct members) (hflat : ∀ field j, .nested field j ∉ visits s (d + 1) id)
    {m : String × NodeId} (hm : m ∈ members) : FlatArray s m.2 := by
  intro length element hlist harray
  have hnested : memberVisit? s m = some (.nested m.1 element) :=
    memberVisit?_nested.2 ⟨rfl, by rw [hlist]; rfl, harray⟩
  exact hflat m.1 element (mem_visits_of_member hn hm hnested)

/-- What is due is visited, unless there are arrays of arrays. -/
theorem mem_visits_of_at {d : Nat} {id : NodeId} (hd : s.DeepEnough d id)
    (hid : (s.get id).kind? = some .struct)
    (hflat : ∀ field j, .nested field j ∉ visits s d id) {v : Visit} (h : v.At s id) :
    v ∈ visits s d id := by
  induction d generalizing id with
  | zero =>
    rw [hd.get_of_zero] at hid
    cases hid
  | succ d ih =>
    obtain ⟨path, k, field, c, hk, hc, hv⟩ := h
    cases hn : s.get id with
    | struct members =>
      cases path with
      | nil =>
        cases hk
        rw [hn] at hc
        exact mem_visits_of_member hn (Lookup.mem_of_lookup hc) hv
      | cons σ path =>
        obtain ⟨c', hc', hk'⟩ := Store.follow_cons.1 hk
        have hd' := hd.child hc'
        cases σ with
        | element =>
          rw [hn] at hc'
          cases hc'
        | member g =>
          rw [hn] at hc'
          have hmem : (g, c') ∈ members := Lookup.mem_of_lookup hc'
          have hkind : (s.get k).kind? = some .struct :=
            Node.kind?_of_child? (a := .member field) hc
          -- the way on leads through the struct that the member holds, which is visited
          obtain ⟨target, q, htarget, hq⟩ :=
            follow_innerStruct? (flatArray_of_not_nested hn hflat hmem) hk' hkind
          obtain ⟨base, hbase⟩ : ∃ base, memberVisit? s (g, c') = some (.name base target) :=
            exists_memberVisit?_name htarget
          obtain ⟨r, hr⟩ := exists_follow_innerStruct? htarget
          refine mem_visits_of_inside hn hmem hbase ?_
          refine ih (hd'.inside hr) (kind?_of_innerStruct? htarget) ?_ ⟨q, k, field, c, hq, hc, hv⟩
          intro field' j hmem'
          exact hflat field' j (mem_visits_of_inside hn hmem hbase hmem')
    | _ =>
      rw [hn] at hid
      cases hid

/-! ## How many visits there are -/

/-- In a forest, a node does not lie inside itself. -/
theorem not_mem_visits (hs : s.Forest) (d : Nat) (id : NodeId) :
    id ∉ (visits s d id).map Visit.node := by
  intro hmem
  obtain ⟨v, hv, hnode⟩ := List.mem_map.1 hmem
  obtain ⟨p, hp, hfollow⟩ := (at_of_mem_visits hs.acyclic hv).exists_follow
  rw [hnode] at hfollow
  exact hp (hs.eq_nil_of_follow_self hfollow)

/-- In a forest, every node is visited at most once. -/
theorem nodup_visits (hs : s.Forest) (d : Nat) (id : NodeId) :
    ((visits s d id).map Visit.node).Nodup := by
  induction d generalizing id with
  | zero => exact List.nodup_nil
  | succ d ih =>
    unfold visits
    split
    · next members hn =>
      rw [List.map_flatMap, List.nodup_flatMap]
      constructor
      · intro m _
        unfold memberVisits
        split
        · next field target htarget =>
          exact List.nodup_cons.2 ⟨not_mem_visits hs d target, ih target⟩
        · exact List.nodup_singleton _
        · exact List.nodup_nil
      · have hnames := List.pairwise_map.1 (hs.names_nodup hn)
        refine hnames.imp_of_mem ?_
        intro a b ha hb hne j hja hjb
        -- a node in two members would be reached on two ways
        have hreach : ∀ {m}, m ∈ members → j ∈ (memberVisits s (visits s d) m).map Visit.node →
            ∃ q, s.follow id (.member m.1 :: q) = some j := by
          intro m hm hj
          obtain ⟨v, hv, rfl⟩ := List.mem_map.1 hj
          have hchild := hs.acyclic.child?_of_mem hn hm
          obtain hv | ⟨field, target, htarget, hv⟩ := mem_memberVisits.1 hv
          · obtain ⟨q, hq⟩ := exists_follow_node hv
            exact ⟨q, Store.follow_cons.2 ⟨m.2, hchild, hq⟩⟩
          · obtain ⟨q, hq⟩ := exists_follow_node htarget
            obtain ⟨r, _, hr⟩ := (at_of_mem_visits hs.acyclic hv).exists_follow
            exact ⟨q ++ r, Store.follow_cons.2 ⟨m.2, hchild, Store.follow_append.2 ⟨_, hq, hr⟩⟩⟩
        obtain ⟨q, hq⟩ := hreach ha hja
        obtain ⟨r, hr⟩ := hreach hb hjb
        have heq := hs.follow_unique hq hr
        simp only [List.cons.injEq, Step.member.injEq] at heq
        exact hne heq.1
    · exact List.nodup_nil

theorem length_visits_lt (hs : s.Forest) (hroot : root < s.size) (d : Nat) :
    (visits s d root).length < s.size := by
  have hnodup : (root :: (visits s d root).map Visit.node).Nodup :=
    List.nodup_cons.2 ⟨not_mem_visits hs d root, nodup_visits hs d root⟩
  have hsub : root :: (visits s d root).map Visit.node ⊆ List.range s.size := by
    intro j hj
    rw [List.mem_range]
    obtain rfl | hj := List.mem_cons.1 hj
    · exact hroot
    · obtain ⟨v, hv, rfl⟩ := List.mem_map.1 hj
      exact (at_of_mem_visits hs.acyclic hv).lt_size
  have hle := (List.subperm_of_subset hnodup hsub).length_le
  rw [List.length_cons, List.length_map, List.length_range] at hle
  exact hle

/-! ## Why naming fails -/

theorem generate_eq (s : Store) (root : NodeId) (explicitTypes : Bool) :
    Naming.generate s root explicitTypes =
      run s (visits s s.size root) [⟨inputStructName, root⟩] >>=
        fun entries => return { entries, explicitTypes } := by
  unfold Naming.generate
  rw [visitStruct_eq]

/-- Naming fails at an array of arrays, or where there are more than `2 ^ 64` nodes. -/
theorem generate_eq_error (hs : s.Forest) (hroot : (s.get root).kind? = some .struct)
    {explicitTypes : Bool} {e : Error} (h : Naming.generate s root explicitTypes = .error e) :
    (∃ path field id, s.follow root (path ++ [.member field, .element, .element]) = some id ∧
        e = .multiDimensionalArray field) ∨
      (e = .endless ∧ Text.bound64 < s.size) := by
  rw [generate_eq] at h
  cases hrun : run s (visits s s.size root) [⟨inputStructName, root⟩] with
  | ok entries =>
    rw [hrun] at h
    cases h
  | error e' =>
    rw [hrun] at h
    cases h
    obtain ⟨field, id, hmem, rfl⟩ | ⟨rfl, hbound⟩ := run_eq_error hrun
    · obtain ⟨path, k, f, c, hk, hc, hv⟩ := at_of_mem_visits hs.acyclic hmem
      obtain ⟨rfl, hid, harray⟩ := memberVisit?_nested.1 hv
      cases hn : s.get id with
      | array length element =>
        refine .inl ⟨path, field, element, Store.follow_append.2 ⟨k, hk, ?_⟩, rfl⟩
        exact Store.follow_cons.2 ⟨c, hc, Store.follow_cons.2 ⟨id, hid,
          Store.follow_cons.2 ⟨element, by rw [hn]; rfl, rfl⟩⟩⟩
      | _ =>
        rw [hn] at harray
        cases harray
    · have hlt := length_visits_lt hs (Store.lt_size_of_kind? hroot) s.size
      rw [List.length_singleton] at hbound
      exact .inr ⟨rfl, by omega⟩

end Naming
end Types
end Stencil
