import Stencil.Proofs.Name
import Stencil.Proofs.Results
import Stencil.Proofs.Types.Compatible
import Stencil.Types.Naming

/-!
# Names of structs

Structs get names one after the other, and a struct shares the name of the first one that it is
compatible with. What is kept all the way (`Sound`):

* the name of the input struct is given once;
* an entry has the name of the first one that it is compatible with;
* structs of one name have members of the same names, and of the same type where all is known.

`register_sound` shows that one name keeps it. `visitStruct_visited` shows that a visit does, and
that every struct below the visited node gets a name.
-/

namespace Stencil
namespace Types
namespace Naming

variable {s : Store} {root : NodeId} {entries : List NamedStruct}

/-! ## The first compatible entry -/

/-- An entry after a renaming. -/
def renamed (old new : String) (e : NamedStruct) : NamedStruct :=
  if e.name == old then { e with name := new } else e

theorem rename_eq (entries : List NamedStruct) (old new : String) :
    rename entries old new = entries.map (renamed old new) := rfl

theorem mem_rename {old new : String} {x : NamedStruct} :
    x ∈ rename entries old new ↔ ∃ e ∈ entries, renamed old new e = x :=
  List.mem_map

@[simp] theorem renamed_node (old new : String) (e : NamedStruct) :
    (renamed old new e).node = e.node := by
  unfold renamed
  split <;> rfl

theorem renamed_name (old new : String) (e : NamedStruct) :
    (renamed old new e).name = if e.name = old then new else e.name := by
  unfold renamed
  by_cases h : e.name = old
  · simp [h]
  · simp [h]

theorem sharedStruct?_rename {old new : String} (hold : old ≠ inputStructName)
    (hnew : new ≠ inputStructName) (id : NodeId) :
    sharedStruct? s (rename entries old new) id =
      (sharedStruct? s entries id).map (renamed old new) := by
  unfold sharedStruct?
  rw [rename_eq, List.find?_map]
  congr 2
  funext e
  simp only [Function.comp_apply, renamed_node, renamed_name]
  by_cases h : e.name = old
  · rw [if_pos h, h, bne_iff_ne.2 hold, bne_iff_ne.2 hnew]
  · rw [if_neg h]

theorem sharedStruct?_append (extra : List NamedStruct) (id : NodeId) :
    sharedStruct? s (entries ++ extra) id =
      (sharedStruct? s entries id).or (sharedStruct? s extra id) :=
  List.find?_append

theorem sharedStruct?_spec {id : NodeId} {e : NamedStruct}
    (h : sharedStruct? s entries id = some e) :
    e ∈ entries ∧ e.name ≠ inputStructName ∧ s.compatible e.node id = true := by
  have hmem := List.mem_of_find?_eq_some h
  have hpred := List.find?_some h
  simp only [Bool.and_eq_true, bne_iff_ne] at hpred
  exact ⟨hmem, hpred.1, hpred.2⟩

/-! ## The invariant -/

/-- All is known about the member `field` of all structs of a name. -/
def CompleteAt (s : Store) (entries : List NamedStruct) (name field : String) : Prop :=
  ∀ e ∈ entries, e.name = name → ∀ c, (s.get e.node).child? (.member field) = some c →
    (s.shape c).Complete

/-- The invariant of the names given so far. -/
structure Sound (s : Store) (root : NodeId) (entries : List NamedStruct) : Prop where
  head : entries.head? = some ⟨inputStructName, root⟩
  input : ∀ e ∈ entries, e.name = inputStructName → e.node = root
  struct : ∀ e ∈ entries, (s.get e.node).kind? = some .struct
  shared : ∀ e ∈ entries, e.name ≠ inputStructName →
    ∃ e', sharedStruct? s entries e.node = some e' ∧ e'.name = e.name
  members : ∀ e ∈ entries, ∀ e' ∈ entries, e.name = e'.name →
    ∀ σ, ((s.get e.node).child? σ).isSome = ((s.get e'.node).child? σ).isSome
  types : ∀ e ∈ entries, ∀ e' ∈ entries, e.name = e'.name → ∀ field c c',
    CompleteAt s entries e.name field → (s.get e.node).child? (.member field) = some c →
      (s.get e'.node).child? (.member field) = some c' → (s.shape c).Same (s.shape c')

theorem isTaken_iff {name : String} :
    isTaken entries name = true ↔ ∃ e ∈ entries, e.name = name := by
  simp [isTaken]

theorem Sound.isTaken_input (h : Sound s root entries) :
    isTaken entries inputStructName = true :=
  isTaken_iff.2 ⟨_, List.mem_of_mem_head? h.head, rfl⟩

/-- A name that is not taken may be given to all structs of another name. -/
theorem Sound.rename (h : Sound s root entries) {old new : String}
    (hold : old ≠ inputStructName) (hfree : isTaken entries new = false) :
    Sound s root (rename entries old new) := by
  have hnew : new ≠ inputStructName := by
    rintro rfl
    rw [h.isTaken_input] at hfree
    cases hfree
  have huntaken : ∀ e ∈ entries, e.name ≠ new := by
    intro e he heq
    rw [isTaken_iff.2 ⟨e, he, heq⟩] at hfree
    cases hfree
  -- different names remain different, so that the structs of a name stay together
  have hname : ∀ {e}, e ∈ entries → ∀ {e'}, e' ∈ entries →
      ((renamed old new e).name = (renamed old new e').name ↔ e.name = e'.name) := by
    intro e he e' he'
    rw [renamed_name, renamed_name]
    by_cases hold₁ : e.name = old
    · by_cases hold₂ : e'.name = old
      · rw [if_pos hold₁, if_pos hold₂, hold₁, hold₂]
        simp
      · rw [if_pos hold₁, if_neg hold₂, hold₁]
        exact ⟨fun heq => absurd heq.symm (huntaken e' he'), fun heq => absurd heq.symm hold₂⟩
    · by_cases hold₂ : e'.name = old
      · rw [if_neg hold₁, if_pos hold₂, hold₂]
        exact ⟨fun heq => absurd heq (huntaken e he), fun heq => absurd heq hold₁⟩
      · rw [if_neg hold₁, if_neg hold₂]
  have hcomplete : ∀ {e}, e ∈ entries → ∀ {field},
      CompleteAt s (Types.rename entries old new) (renamed old new e).name field →
        CompleteAt s entries e.name field := by
    intro e he field hc e' he' heq c hchild
    refine hc (renamed old new e') (List.mem_map_of_mem he') ((hname he' he).2 heq) c ?_
    rw [renamed_node]
    exact hchild
  have hinput : ∀ e : NamedStruct, (renamed old new e).name = inputStructName ↔
      e.name = inputStructName := by
    intro e
    rw [renamed_name]
    by_cases heq : e.name = old
    · rw [if_pos heq, heq]
      exact ⟨fun h => absurd h hnew, fun h => absurd h hold⟩
    · rw [if_neg heq]
  refine ⟨?_, ?_, ?_, ?_, ?_, ?_⟩
  · rw [rename_eq, List.head?_map, h.head]
    have hkeep : renamed old new ⟨inputStructName, root⟩ = ⟨inputStructName, root⟩ := by
      unfold renamed
      rw [if_neg]
      simpa using hold.symm
    exact congrArg some hkeep
  · intro x hx hname
    rcases mem_rename.1 hx with ⟨e, he, rfl⟩
    rw [renamed_node]
    exact h.input e he ((hinput e).1 hname)
  · intro x hx
    rcases mem_rename.1 hx with ⟨e, he, rfl⟩
    rw [renamed_node]
    exact h.struct e he
  · intro x hx hname'
    rcases mem_rename.1 hx with ⟨e, he, rfl⟩
    rcases h.shared e he (fun heq => hname' ((hinput e).2 heq)) with ⟨e', hshared, heq⟩
    refine ⟨renamed old new e', ?_, (hname (sharedStruct?_spec hshared).1 he).2 heq⟩
    rw [renamed_node, sharedStruct?_rename hold hnew, hshared]
    rfl
  · intro x hx x' hx' heq
    rcases mem_rename.1 hx with ⟨e, he, rfl⟩
    rcases mem_rename.1 hx' with ⟨e', he', rfl⟩
    rw [renamed_node, renamed_node]
    exact h.members e he e' he' ((hname he he').1 heq)
  · intro x hx x' hx' heq field c c' hc
    rcases mem_rename.1 hx with ⟨e, he, rfl⟩
    rcases mem_rename.1 hx' with ⟨e', he', rfl⟩
    rw [renamed_node, renamed_node]
    exact h.types e he e' he' ((hname he he').1 heq) field c c' (hcomplete he hc)

theorem CompleteAt.of_append {extra : List NamedStruct} {name field : String}
    (h : CompleteAt s (entries ++ extra) name field) : CompleteAt s entries name field :=
  fun e he => h e (List.mem_append_left _ he)

/-- What it takes to give a struct a name: to be the name of the first one that it is compatible
with, and to agree with the structs that have it. -/
theorem Sound.append (h : Sound s root entries) {id : NodeId} {name : String}
    (hname : name ≠ inputStructName) (hid : (s.get id).kind? = some .struct)
    (hshared : ∃ e, sharedStruct? s (entries ++ [⟨name, id⟩]) id = some e ∧ e.name = name)
    (hmembers : ∀ e ∈ entries, e.name = name →
      ∀ σ, ((s.get e.node).child? σ).isSome = ((s.get id).child? σ).isSome)
    (htypes : ∀ e ∈ entries, e.name = name → ∀ field c c',
      CompleteAt s (entries ++ [⟨name, id⟩]) name field →
        (s.get e.node).child? (.member field) = some c →
          (s.get id).child? (.member field) = some c' → (s.shape c).Same (s.shape c')) :
    Sound s root (entries ++ [⟨name, id⟩]) := by
  have hcases : ∀ {x}, x ∈ entries ++ [⟨name, id⟩] → x ∈ entries ∨ x = ⟨name, id⟩ := by
    intro x hx
    simpa using hx
  refine ⟨?_, ?_, ?_, ?_, ?_, ?_⟩
  · rw [List.head?_append, h.head]
    rfl
  · -- the name of the input stays with the root
    intro x hx heq
    rcases hcases hx with hx | rfl
    · exact h.input x hx heq
    · exact absurd heq hname
  · intro x hx
    rcases hcases hx with hx | rfl
    · exact h.struct x hx
    · exact hid
  · intro x hx hne
    rcases hcases hx with hx | rfl
    · -- an old struct is still found first, as the new one stands behind it
      rcases h.shared x hx hne with ⟨e, he, heq⟩
      refine ⟨e, ?_, heq⟩
      rw [sharedStruct?_append, he]
      rfl
    · exact hshared
  · intro x hx x' hx' heq σ
    rcases hcases hx with hx | rfl
    · rcases hcases hx' with hx' | rfl
      · exact h.members x hx x' hx' heq σ
      · exact hmembers x hx heq σ
    · rcases hcases hx' with hx' | rfl
      · exact (hmembers x' hx' heq.symm σ).symm
      · rfl
  · intro x hx x' hx' heq field c c' hcomplete hc hc'
    rcases hcases hx with hx | rfl
    · rcases hcases hx' with hx' | rfl
      · exact h.types x hx x' hx' heq field c c' hcomplete.of_append hc hc'
      · simp only at heq
        rw [heq] at hcomplete
        exact htypes x hx heq field c c' hcomplete hc hc'
    · rcases hcases hx' with hx' | rfl
      · exact (htypes x' hx' heq.symm field c' c hcomplete hc' hc).symm
      · rw [hc] at hc'
        cases hc'
        exact .refl _

/-- A struct may get the name of the first one that it is compatible with. -/
theorem Sound.append_shared (h : Sound s root entries) (hs : s.Acyclic) (hclosed : s.Closed)
    {id : NodeId} (hid : (s.get id).kind? = some .struct) {e : NamedStruct}
    (hshared : sharedStruct? s entries id = some e) :
    Sound s root (entries ++ [⟨e.name, id⟩]) := by
  rcases sharedStruct?_spec hshared with ⟨hmem, hname, hcompatible⟩
  have hstruct := h.struct e hmem
  have hlt : e.node < s.size := Store.lt_size_of_kind? hstruct
  -- structs are known, so they are compatible only by having compatible members
  have hmatch : s.Matches (fun c d => s.compatible c d = true) e.node id := by
    rcases (hs.compatible_iff hclosed hlt).1 hcompatible with heq | hnone | hnone | hmatch
    · rw [heq]
      refine ⟨rfl, fun _ => rfl, ?_⟩
      intro σ c d hc hd
      rw [hc] at hd
      cases hd
      exact Store.compatible_refl s c
    · rw [hstruct] at hnone
      cases hnone
    · rw [hid] at hnone
      cases hnone
    · exact hmatch
  refine h.append hname hid ?_ ?_ ?_
  · refine ⟨e, ?_, rfl⟩
    rw [sharedStruct?_append, hshared]
    rfl
  · intro x hx heq σ
    rw [h.members x hx e hmem heq σ]
    exact hmatch.2.1 σ
  · intro x hx heq field c c' hcomplete hc hc'
    have hsome := hmatch.2.1 (.member field)
    rw [hc'] at hsome
    rcases Option.isSome_iff_exists.1 hsome with ⟨d, hd⟩
    -- `compatible` is not transitive: the way from `c` to `c'` goes through the member `d` of the
    -- struct that the name was taken from, where all is known
    have hsame : (s.shape c).Same (s.shape d) := by
      refine h.types x hx e hmem heq field c d ?_ hc hd
      rw [heq]
      exact hcomplete.of_append
    have hd_complete := hcomplete e (List.mem_append_left _ hmem) rfl d hd
    have hc_complete := hcomplete ⟨e.name, id⟩ (List.mem_append_right _ List.mem_cons_self) rfl c' hc'
    have hd_lt : d < s.size := hclosed _ _ _ hd
    exact hsame.trans (Store.same_of_compatible hs hclosed hd_lt hd_complete hc_complete
      (hmatch.2.2 _ d c' hd hc'))

/-- A struct that is compatible with none may get a name of its own. -/
theorem Sound.append_fresh (h : Sound s root entries) {id : NodeId}
    (hid : (s.get id).kind? = some .struct) (hnone : sharedStruct? s entries id = none)
    {name : String} (hfree : isTaken entries name = false) :
    Sound s root (entries ++ [⟨name, id⟩]) := by
  have huntaken : ∀ e ∈ entries, e.name ≠ name := by
    intro e he heq
    rw [isTaken_iff.2 ⟨e, he, heq⟩] at hfree
    cases hfree
  have hname : name ≠ inputStructName := by
    rintro rfl
    rw [h.isTaken_input] at hfree
    cases hfree
  refine h.append hname hid ⟨⟨name, id⟩, ?_, rfl⟩ ?_ ?_
  · -- no struct before it is compatible, so it finds itself
    rw [sharedStruct?_append, hnone, Option.none_or]
    simp [sharedStruct?, hname, Store.compatible_refl]
  · intro e he heq
    exact absurd heq (huntaken e he)
  · intro e he heq
    exact absurd heq (huntaken e he)

/-! ## Naming structs one after the other -/

/-- The entries after a struct has got a name: with another name for all structs that it shares it
with, with theirs, or with a new one. -/
theorem register_ok {field : String} {id : NodeId} {entries' : List NamedStruct}
    (h : register s field id entries = .ok entries') :
    (∃ e name, sharedStruct? s entries id = some e ∧ isTaken entries name = false ∧
        entries' = rename entries e.name name ++ [⟨name, id⟩]) ∨
      (∃ e, sharedStruct? s entries id = some e ∧ entries' = entries ++ [⟨e.name, id⟩]) ∨
      (∃ name, sharedStruct? s entries id = none ∧ isTaken entries name = false ∧
        entries' = entries ++ [⟨name, id⟩]) := by
  unfold register at h
  simp only at h
  cases hshared : sharedStruct? s entries id with
  | some e =>
    simp only [hshared] at h
    split at h
    · -- the new name is shorter and not taken
      next hshorter =>
      cases h
      rw [Bool.and_eq_true, Bool.not_eq_true'] at hshorter
      exact .inl ⟨e, _, rfl, hshorter.2, rfl⟩
    · cases h
      exact .inr (.inl ⟨e, rfl, rfl⟩)
  | none =>
    simp only [hshared] at h
    split at h
    · next name hfresh =>
      cases h
      refine .inr (.inr ⟨name, rfl, ?_, rfl⟩)
      have hfree := Name.freshName_not_mem hfresh
      rw [Bool.eq_false_iff]
      intro htaken
      rcases isTaken_iff.1 htaken with ⟨e, he, heq⟩
      exact hfree (heq ▸ List.mem_map_of_mem he)
    · cases h

theorem register_sound (h : Sound s root entries) (hs : s.Acyclic) (hclosed : s.Closed)
    {id : NodeId} (hid : (s.get id).kind? = some .struct) {field : String}
    {entries' : List NamedStruct} (hregister : register s field id entries = .ok entries') :
    Sound s root entries' := by
  rcases register_ok hregister with ⟨e, name, hshared, hfree, rfl⟩ | ⟨e, hshared, rfl⟩ |
    ⟨name, hnone, hfree, rfl⟩
  · rcases sharedStruct?_spec hshared with ⟨_, hname, _⟩
    have hnew : name ≠ inputStructName := by
      rintro rfl
      rw [h.isTaken_input] at hfree
      cases hfree
    -- renaming keeps the order, so that the same struct is found under its new name
    have hshared' : sharedStruct? s (Types.rename entries e.name name) id =
        some (renamed e.name name e) := by
      rw [sharedStruct?_rename hname hnew, hshared]
      rfl
    have hsound := (h.rename hname hfree).append_shared hs hclosed hid hshared'
    rw [renamed_name, if_pos rfl] at hsound
    exact hsound
  · exact h.append_shared hs hclosed hid hshared
  · exact h.append_fresh hid hnone hfree

/-- A node has a name. -/
def Named (entries : List NamedStruct) (id : NodeId) : Prop :=
  ∃ e ∈ entries, e.node = id

theorem register_named {field : String} {id : NodeId} {entries' : List NamedStruct}
    (hregister : register s field id entries = .ok entries') (j : NodeId) :
    Named entries' j ↔ Named entries j ∨ j = id := by
  have happend : ∀ (es : List NamedStruct) (name : String),
      Named (es ++ [⟨name, id⟩]) j ↔ Named es j ∨ j = id := by
    intro es name
    simp [Named, or_and_right, exists_or, eq_comm]
  have hrename : ∀ old new, Named (Types.rename entries old new) j ↔ Named entries j := by
    intro old new
    simp [Named, rename_eq]
  rcases register_ok hregister with ⟨e, name, _, _, rfl⟩ | ⟨e, _, rfl⟩ | ⟨name, _, _, rfl⟩
  · rw [happend, hrename]
  · exact happend _ _
  · exact happend _ _

/-- The struct that a member holds, itself or in an array. -/
def innerStruct? (s : Store) (id : NodeId) : Option NodeId :=
  match s.get id with
  | .struct _ => some id
  | .array _ element =>
    match s.get element with
    | .struct _ => some element
    | _ => none
  | _ => none

/-- A node is no array of arrays. -/
def FlatArray (s : Store) (id : NodeId) : Prop :=
  ∀ length element, s.get id = .array length element → (s.get element).kind? ≠ some .array

theorem visitMember_ok
    {descend : NodeId → List NamedStruct → Except Error (List NamedStruct)} {field : String}
    {id : NodeId} {entries' : List NamedStruct}
    (h : visitMember s descend entries (field, id) = .ok entries') :
    FlatArray s id ∧
      ((∃ target name mid, innerStruct? s id = some target ∧
          register s name target entries = .ok mid ∧ descend target mid = .ok entries') ∨
        (innerStruct? s id = none ∧ entries' = entries)) := by
  unfold visitMember at h
  simp only at h
  cases hn : s.get id with
  | struct members =>
    simp only [hn] at h
    rcases Results.bind_eq_ok.1 h with ⟨mid, hregister, hdescend⟩
    refine ⟨?_, .inl ⟨id, field, mid, by simp [innerStruct?, hn], hregister, hdescend⟩⟩
    intro length element heq
    rw [hn] at heq
    cases heq
  | array length element =>
    simp only [hn] at h
    cases he : s.get element with
    | struct members =>
      simp only [he] at h
      rcases Results.bind_eq_ok.1 h with ⟨mid, hregister, hdescend⟩
      refine ⟨?_, .inl ⟨element, _, mid, by simp [innerStruct?, hn, he], hregister, hdescend⟩⟩
      intro length' element' heq
      rw [hn] at heq
      cases heq
      simp [he, Node.kind?]
    | array length' element' =>
      simp only [he] at h
      cases h
    | _ =>
      simp only [he] at h
      cases h
      refine ⟨?_, .inr ⟨by simp [innerStruct?, hn, he], rfl⟩⟩
      intro length' element' heq
      rw [hn] at heq
      cases heq
      simp [he, Node.kind?]
  | _ =>
    simp only [hn] at h
    cases h
    refine ⟨?_, .inr ⟨by simp [innerStruct?, hn], rfl⟩⟩
    intro length element heq
    rw [hn] at heq
    cases heq

/-- The structs inside a node, other than itself, have names, and the members of all structs in it
are no arrays of arrays. -/
def Covered (s : Store) (entries : List NamedStruct) (id : NodeId) : Prop :=
  ∀ p j, s.follow id p = some j → (s.get j).kind? = some .struct →
    (p ≠ [] → Named entries j) ∧
      ∀ field c, (s.get j).child? (.member field) = some c → FlatArray s c

/-- What visiting does to the entries: it keeps the invariant and the nodes that have names, and
names the structs inside a node. -/
structure Visited (s : Store) (root : NodeId) (entries entries' : List NamedStruct)
    (id : NodeId) : Prop where
  sound : Sound s root entries'
  keep : ∀ j, Named entries j → Named entries' j
  covered : Covered s entries' id

theorem kind?_of_innerStruct? {id target : NodeId} (h : innerStruct? s id = some target) :
    (s.get target).kind? = some .struct := by
  unfold innerStruct? at h
  cases hn : s.get id with
  | struct members =>
    simp only [hn] at h
    cases h
    rw [hn]
    rfl
  | array length element =>
    simp only [hn] at h
    cases he : s.get element with
    | struct members =>
      simp only [he] at h
      cases h
      rw [he]
      rfl
    | _ => simp [he] at h
  | _ => simp [hn] at h

/-- A path without steps, or one whose first step leads on. -/
theorem follow_of_child?_none {id j : NodeId} {p : List Step}
    (hnone : ∀ σ, (s.get id).child? σ = none) (h : s.follow id p = some j) : p = [] ∧ j = id := by
  cases p with
  | nil =>
    cases h
    exact ⟨rfl, rfl⟩
  | cons σ p =>
    rcases Store.follow_cons.1 h with ⟨c, hc, _⟩
    rw [hnone σ] at hc
    cases hc

/-- A struct inside a node that is no array of arrays is the struct that it holds, or lies inside
that. -/
theorem follow_innerStruct? {id j : NodeId} {p : List Step} (hflat : FlatArray s id)
    (hj : s.follow id p = some j) (hstruct : (s.get j).kind? = some .struct) :
    ∃ target q, innerStruct? s id = some target ∧ s.follow target q = some j := by
  cases hn : s.get id with
  | struct members => exact ⟨id, p, by simp [innerStruct?, hn], hj⟩
  | array length element =>
    cases p with
    | nil =>
      cases hj
      rw [hn] at hstruct
      cases hstruct
    | cons σ p =>
      rcases Store.follow_cons.1 hj with ⟨c, hc, hcj⟩
      rw [hn] at hc
      cases σ with
      | member name => cases hc
      | element =>
        cases hc
        cases he : s.get element with
        | struct members => exact ⟨element, p, by simp [innerStruct?, hn, he], hcj⟩
        | array length' element' =>
          refine absurd ?_ (hflat length element hn)
          rw [he]
          rfl
        | _ =>
          rcases follow_of_child?_none (by simp [he, Node.child?]) hcj with ⟨_, rfl⟩
          rw [he] at hstruct
          cases hstruct
  | _ =>
    rcases follow_of_child?_none (by simp [hn, Node.child?]) hj with ⟨_, rfl⟩
    rw [hn] at hstruct
    cases hstruct

/-- The structs inside a member have names, and there are no arrays of arrays in it. -/
def MemberCovered (s : Store) (entries : List NamedStruct) (id : NodeId) : Prop :=
  FlatArray s id ∧ ∀ p j, s.follow id p = some j → (s.get j).kind? = some .struct →
    Named entries j ∧ ∀ field c, (s.get j).child? (.member field) = some c → FlatArray s c

theorem visitMember_visited (hs : s.Acyclic) (hclosed : s.Closed) (h : Sound s root entries)
    {descend : NodeId → List NamedStruct → Except Error (List NamedStruct)} {field : String}
    {id : NodeId} {entries' : List NamedStruct}
    (hvisit : visitMember s descend entries (field, id) = .ok entries')
    (hdescend : ∀ target mid out, innerStruct? s id = some target → Sound s root mid →
      descend target mid = .ok out → Visited s root mid out target) :
    Sound s root entries' ∧ (∀ j, Named entries j → Named entries' j) ∧
      MemberCovered s entries' id := by
  rcases visitMember_ok hvisit with ⟨hflat, hcases⟩
  rcases hcases with ⟨target, name, mid, htarget, hregister, hrun⟩ | ⟨hnone, rfl⟩
  · have hmid := register_sound h hs hclosed (kind?_of_innerStruct? htarget) hregister
    have hvisited := hdescend target mid entries' htarget hmid hrun
    refine ⟨hvisited.sound, ?_, hflat, ?_⟩
    · intro j hj
      exact hvisited.keep j ((register_named hregister j).2 (.inl hj))
    · intro p j hj hstruct
      rcases follow_innerStruct? hflat hj hstruct with ⟨target', q, htarget', hq⟩
      rw [htarget] at htarget'
      cases htarget'
      rcases hvisited.covered q j hq hstruct with ⟨hnamed, hmembers⟩
      refine ⟨?_, hmembers⟩
      -- the struct itself got its name before what is inside was visited
      by_cases hnil : q = []
      · subst hnil
        cases hq
        exact hvisited.keep target ((register_named hregister target).2 (.inr rfl))
      · exact hnamed hnil
  · refine ⟨h, fun _ hj => hj, hflat, ?_⟩
    intro p j hj hstruct
    rcases follow_innerStruct? hflat hj hstruct with ⟨target, _, htarget, _⟩
    rw [hnone] at htarget
    cases htarget

theorem visitMembers_visited (hs : s.Acyclic) (hclosed : s.Closed)
    {descend : NodeId → List NamedStruct → Except Error (List NamedStruct)}
    {members : List (String × NodeId)} {entries' : List NamedStruct}
    (hdescend : ∀ m ∈ members, ∀ target mid out, innerStruct? s m.2 = some target →
      Sound s root mid → descend target mid = .ok out → Visited s root mid out target)
    (h : Sound s root entries)
    (hvisit : members.foldlM (visitMember s descend) entries = .ok entries') :
    Sound s root entries' ∧ (∀ j, Named entries j → Named entries' j) ∧
      ∀ m ∈ members, MemberCovered s entries' m.2 := by
  induction members generalizing entries with
  | nil =>
    cases hvisit
    exact ⟨h, fun _ hj => hj, by simp⟩
  | cons m members ih =>
    rw [List.foldlM_cons] at hvisit
    rcases Results.bind_eq_ok.1 hvisit with ⟨mid, hfirst, hothers⟩
    rcases visitMember_visited hs hclosed h hfirst (hdescend m List.mem_cons_self) with
      ⟨hmid, hkeep, hcovered⟩
    rcases ih (fun m' hm' => hdescend m' (List.mem_cons_of_mem _ hm')) hmid hothers with
      ⟨hsound, hkeep', hrest⟩
    refine ⟨hsound, fun j hj => hkeep' j (hkeep j hj), ?_⟩
    intro m' hm'
    rcases List.mem_cons.1 hm' with rfl | hm'
    · -- later members take no names away
      refine ⟨hcovered.1, ?_⟩
      intro p j hj hstruct
      rcases hcovered.2 p j hj hstruct with ⟨hnamed, hflat⟩
      exact ⟨hkeep' j hnamed, hflat⟩
    · exact hrest m' hm'

/-- The struct that a node holds is reached from it. -/
theorem exists_follow_innerStruct? {id target : NodeId} (h : innerStruct? s id = some target) :
    ∃ q, s.follow id q = some target := by
  unfold innerStruct? at h
  cases hn : s.get id with
  | struct members =>
    simp only [hn] at h
    cases h
    exact ⟨[], rfl⟩
  | array length element =>
    simp only [hn] at h
    cases he : s.get element with
    | struct members =>
      simp only [he] at h
      cases h
      exact ⟨[.element], Store.follow_cons.2 ⟨target, by rw [hn]; rfl, rfl⟩⟩
    | _ => simp [he] at h
  | _ => simp [hn] at h

theorem le_innerStruct? (hs : s.Forest) {id target : Nat} (h : innerStruct? s id = some target) :
    id ≤ target := by
  rcases exists_follow_innerStruct? h with ⟨q, hq⟩
  exact Nat.le_trans (Nat.le_add_right _ _) (hs.follow_length hq)

theorem visitStruct_visited (hs : s.Acyclic) (hclosed : s.Closed) {depth : Nat} {id : NodeId}
    (hdepth : s.DeepEnough depth id) (hid : (s.get id).kind? = some .struct)
    (h : Sound s root entries) {entries' : List NamedStruct}
    (hvisit : visitStruct s depth id entries = .ok entries') :
    Visited s root entries entries' id := by
  induction depth generalizing id entries entries' with
  | zero => exact absurd (hdepth [] id rfl (Store.lt_size_of_kind? hid)) (Nat.not_lt_zero _)
  | succ depth ih =>
    unfold visitStruct at hvisit
    cases hn : s.get id with
    | struct members =>
      simp only [hn] at hvisit
      have hchild : ∀ m ∈ members, (s.get id).child? (.member m.1) = some m.2 :=
        fun m hm => hs.child?_of_mem hn hm
      have hdescend : ∀ m ∈ members, ∀ target mid out, innerStruct? s m.2 = some target →
          Sound s root mid → visitStruct s depth target mid = .ok out →
            Visited s root mid out target := by
        intro m hm target mid out htarget hmid hrun
        -- paths from inside are shorter, which makes up for the lost depth
        obtain ⟨q, hq⟩ := exists_follow_innerStruct? htarget
        have hinside : s.DeepEnough depth target := (hdepth.child (hchild m hm)).inside hq
        exact ih hinside (kind?_of_innerStruct? htarget) hmid hrun
      rcases visitMembers_visited hs hclosed hdescend h hvisit with ⟨hsound, hkeep, hcovered⟩
      refine ⟨hsound, hkeep, ?_⟩
      have hmember : ∀ {field c}, (s.get id).child? (.member field) = some c →
          MemberCovered s entries' c := by
        intro field c hc
        rw [hn] at hc
        exact hcovered (field, c) (Lookup.mem_of_lookup hc)
      intro p j hj hstruct
      -- a path from a struct is empty or leads through one of its members
      cases p with
      | nil =>
        cases hj
        exact ⟨fun hne => absurd rfl hne, fun field c hc => (hmember hc).1⟩
      | cons σ p =>
        rcases Store.follow_cons.1 hj with ⟨c, hc, hcj⟩
        cases σ with
        | element =>
          rw [hn] at hc
          cases hc
        | member field =>
          rcases (hmember hc).2 p j hcj hstruct with ⟨hnamed, hflat⟩
          exact ⟨fun _ => hnamed, hflat⟩
    | _ =>
      rw [hn] at hid
      cases hid

/-! ## The names of an input -/

theorem sound_initial (hroot : (s.get root).kind? = some .struct) :
    Sound s root [⟨inputStructName, root⟩] := by
  have hone : ∀ {e : NamedStruct}, e ∈ [⟨inputStructName, root⟩] → e = ⟨inputStructName, root⟩ := by
    intro e he
    simpa using he
  refine ⟨rfl, ?_, ?_, ?_, ?_, ?_⟩
  · intro e he _
    rw [hone he]
  · intro e he
    rw [hone he]
    exact hroot
  · intro e he hne
    rw [hone he] at hne
    exact absurd rfl hne
  · intro e he e' he' _ σ
    rw [hone he, hone he']
  · intro e he e' he' _ field c c' _ hc hc'
    rw [hone he] at hc
    rw [hone he'] at hc'
    rw [hc] at hc'
    cases hc'
    exact .refl _

theorem generate_visited (hs : s.Acyclic) (hclosed : s.Closed)
    (hroot : (s.get root).kind? = some .struct)
    {explicitTypes : Bool} {n : Naming} (h : Naming.generate s root explicitTypes = .ok n) :
    Sound s root n.entries ∧ Covered s n.entries root ∧ n.explicitTypes = explicitTypes := by
  unfold Naming.generate at h
  rcases Results.bind_eq_ok.1 h with ⟨entries, hvisit, h⟩
  cases h
  have hvisited :=
    visitStruct_visited hs hclosed (hs.deepEnough root) hroot (sound_initial hroot) hvisit
  exact ⟨hvisited.sound, hvisited.covered, rfl⟩

end Naming
end Types
end Stencil
