import Stencil.Proofs.Tidy
import Stencil.Proofs.Types.Members
import Stencil.Proofs.Types.Requests
import Stencil.Proofs.Types.Visits

/-!
# Names of structs as identifiers

A struct is named after the field that holds it. Capitals and numbers keep a name an identifier
(`isIdentifier_capitalize`, `isIdentifier_freshName`), and so does the loss of a final `s`, with one
exception: nothing is left of a field whose name is that letter alone (`isIdentifier_singularize`).
The structs in an array of that name are without a name, and no later field makes up for it, as
only shorter names replace one (`register_keeps_empty`). The main result is `generate_identifiers`.
-/

namespace Stencil
namespace Name

/-! ## Identifiers -/

variable {name : String}

/-- An identifier is a tidy name that starts as identifiers do. -/
theorem isIdentifier_iff : isIdentifier name = true ↔
    (∃ c, name.toList.head? = some c ∧ isIdentifierStart c = true) ∧ Tidy name := by
  constructor
  · intro h
    refine ⟨?_, .of_isIdentifier h⟩
    unfold isIdentifier at h
    split at h
    · cases h
    · next first rest hname => exact ⟨first, by rw [hname]; rfl, (Bool.and_eq_true _ _ ▸ h).1⟩
  · rintro ⟨⟨c, hhead, hstart⟩, htidy⟩
    obtain ⟨rest, hname⟩ := List.head?_eq_some_iff.1 hhead
    unfold isIdentifier
    rw [hname]
    have hrest : rest.all isIdentifierRest = true := by
      rw [List.all_eq_true]
      intro d hd
      exact htidy d (by rw [hname]; exact List.mem_cons_of_mem _ hd)
    rw [Bool.and_eq_true]
    exact ⟨hstart, hrest⟩

theorem isIdentifier_capitalize (h : isIdentifier name = true) :
    isIdentifier (capitalize name) = true := by
  obtain ⟨⟨c, hhead, hstart⟩, htidy⟩ := isIdentifier_iff.1 h
  obtain ⟨rest, hname⟩ := List.head?_eq_some_iff.1 hhead
  refine isIdentifier_iff.2 ⟨?_, htidy.capitalize⟩
  have hall : ∀ n : Fin 128, isIdentifierStart (Char.ofNat n) = true →
      (Text.uppercase (Char.ofNat n)).head?.any isIdentifierStart = true := by
    decide +kernel
  have hupper := hall ⟨c.toNat, toNat_lt_of_isIdentifierRest (isIdentifierRest_of_start hstart)⟩
  rw [Char.ofNat_toNat] at hupper
  obtain ⟨d, hd, hdstart⟩ := (Option.any_eq_true _ _).1 (hupper hstart)
  refine ⟨d, ?_, hdstart⟩
  unfold capitalize
  rw [hname]
  dsimp only
  rw [String.toList_ofList, List.head?_append, hd]
  rfl

theorem isIdentifier_freshName (h : isIdentifier name = true) {taken : List String}
    {fresh : String} (hfresh : freshName taken name = some fresh) : isIdentifier fresh = true := by
  obtain ⟨⟨c, hhead, hstart⟩, htidy⟩ := isIdentifier_iff.1 h
  exact isIdentifier_iff.2 ⟨⟨c, freshName_head hhead hfresh, hstart⟩, htidy.freshName hfresh⟩

/-- Only of the name `s` nothing is left. -/
theorem isIdentifier_singularize (h : isIdentifier name = true) (hne : name ≠ "s") :
    isIdentifier (singularize name) = true := by
  obtain ⟨⟨c, hhead, hstart⟩, htidy⟩ := isIdentifier_iff.1 h
  refine isIdentifier_iff.2 ⟨⟨c, ?_, hstart⟩, htidy.singularize⟩
  unfold singularize
  split
  · next hlast =>
    obtain ⟨rest, hname⟩ := List.head?_eq_some_iff.1 hhead
    rw [String.toList_ofList, hname]
    cases rest with
    | nil =>
      rw [hname, beq_iff_eq] at hlast
      cases hlast
      exact absurd (String.toList_injective hname) hne
    | cons d rest => rfl
  · exact hhead

theorem freshName_of_not_mem {taken : List String} (h : name ∉ taken) :
    freshName taken name = some name :=
  nextFree_of_free h

end Name

namespace Types
namespace Naming

open Name (capitalize freshName isIdentifier singularize)

variable {s : Store} {root : NodeId} {entries entries' : List NamedStruct}

/-! ## Names in a run -/

/-- A new name comes from the field or is there already. -/
theorem register_names {P : String → Prop} {field : String} {id : NodeId}
    (hfield : P (capitalize field))
    (hfresh : ∀ taken fresh, freshName taken (capitalize field) = some fresh → P fresh)
    (h : register s field id entries = .ok entries') (hentries : ∀ e ∈ entries, P e.name) :
    ∀ e ∈ entries', P e.name := by
  have happend : ∀ {es : List NamedStruct} {name : String}, (∀ e ∈ es, P e.name) → P name →
      ∀ e ∈ es ++ [⟨name, id⟩], P e.name := by
    intro es name hes hname e he
    obtain he | he := List.mem_append.1 he
    · exact hes e he
    · rw [List.mem_singleton.1 he]
      exact hname
  unfold register at h
  dsimp only at h
  split at h
  · next shared hshared =>
    split at h
    · cases h
      refine happend ?_ hfield
      intro e he
      obtain ⟨e', he', rfl⟩ := mem_rename.1 he
      rw [renamed_name]
      split
      · exact hfield
      · exact hentries e' he'
    · cases h
      exact happend hentries (hentries shared (sharedStruct?_spec hshared).1)
  · split at h
    · next name hname =>
      cases h
      exact happend hentries (hfresh _ name hname)
    · cases h

/-- No name replaces the empty one. -/
theorem register_keeps_empty {field : String} {id : NodeId}
    (h : register s field id entries = .ok entries') (hempty : isTaken entries "" = true) :
    isTaken entries' "" = true := by
  obtain ⟨e, he, hname⟩ := isTaken_iff.1 hempty
  unfold register at h
  dsimp only at h
  split at h
  · next shared _ =>
    split at h
    · next hshorter =>
      cases h
      rw [Bool.and_eq_true, decide_eq_true_iff] at hshorter
      refine isTaken_iff.2 ⟨renamed shared.name (capitalize field) e, ?_, ?_⟩
      · exact List.mem_append_left _ (mem_rename.2 ⟨e, he, rfl⟩)
      · rw [renamed_name, if_neg, hname]
        intro heq
        rw [← heq, hname] at hshorter
        exact absurd hshorter.1 (Nat.not_lt_zero _)
    · cases h
      exact isTaken_iff.2 ⟨e, List.mem_append_left _ he, hname⟩
  · split at h
    · cases h
      exact isTaken_iff.2 ⟨e, List.mem_append_left _ he, hname⟩
    · cases h

/-- A struct that is named after nothing has the empty name, or finds it taken. -/
theorem register_empty {id : NodeId} (h : register s "" id entries = .ok entries') :
    isTaken entries' "" = true := by
  by_cases hempty : isTaken entries "" = true
  · exact register_keeps_empty h hempty
  · rw [Bool.not_eq_true] at hempty
    have hcapital : capitalize "" = "" := by decide
    have hlast : ∀ es : List NamedStruct, isTaken (es ++ [⟨"", id⟩]) "" = true := fun es =>
      isTaken_iff.2 ⟨⟨"", id⟩, List.mem_append_right _ List.mem_cons_self, rfl⟩
    unfold register at h
    rw [hcapital] at h
    dsimp only at h
    split at h
    · next shared _ =>
      split at h
      · cases h
        exact hlast _
      · next hlong =>
        cases h
        have hname : shared.name = "" := by
          rw [hempty, Bool.not_false, Bool.and_true, decide_eq_true_iff, Nat.not_lt] at hlong
          exact String.utf8ByteSize_eq_zero_iff.1 (Nat.le_zero.1 hlong)
        rw [hname]
        exact hlast _
    · rw [Name.freshName_of_not_mem] at h
      · cases h
        exact hlast _
      · intro hmem
        obtain ⟨e, he, hname⟩ := List.mem_map.1 hmem
        rw [isTaken_iff.2 ⟨e, he, hname⟩] at hempty
        cases hempty

/-- A run in which a struct is named after nothing ends with the empty name. -/
theorem run_empty {vs : List Visit} {id : NodeId} (hmem : .name "" id ∈ vs)
    (h : run s vs entries = .ok entries') : isTaken entries' "" = true := by
  obtain ⟨before, after, rfl⟩ := List.append_of_mem hmem
  rw [run_append] at h
  obtain ⟨mid, _, h⟩ := Results.bind_eq_ok.1 h
  obtain ⟨mid', hregister, hafter⟩ := Results.bind_eq_ok.1
    (show register s "" id mid >>= run s after = .ok entries' from h)
  exact run_keeps (P := fun es => isTaken es "" = true)
    (fun _ _ _ _ _ hstep => register_keeps_empty hstep) hafter (register_empty hregister)

/-- A run in which all structs are named after identifiers ends with identifiers. -/
theorem run_identifiers {vs : List Visit}
    (hvs : ∀ field id, .name field id ∈ vs → isIdentifier field = true)
    (h : run s vs entries = .ok entries')
    (hentries : ∀ e ∈ entries, isIdentifier e.name = true) :
    ∀ e ∈ entries', isIdentifier e.name = true := by
  refine run_keeps (P := fun es => ∀ e ∈ es, isIdentifier e.name = true) ?_ h hentries
  intro field id hmem es es' hregister hes
  have hcapital := Name.isIdentifier_capitalize (hvs field id hmem)
  exact register_names (P := fun name => isIdentifier name = true) hcapital
    (fun _ _ => Name.isIdentifier_freshName hcapital) hregister hes

/-! ## The names of an input -/

/-- Where all members have identifiers as names, the names of structs are identifiers too, unless
an array of structs is called `s`. -/
theorem generate_identifiers (hs : s.Acyclic) (hnames : s.MembersIn (isIdentifier · = true))
    (hroot : (s.get root).kind? = some .struct) {explicitTypes : Bool} {n : Naming}
    (h : Naming.generate s root explicitTypes = .ok n) :
    (∀ e ∈ n.entries, isIdentifier e.name = true) ↔
      ¬ ∃ path id, s.follow root (path ++ [.member "s", .element]) = some id ∧
        (s.get id).kind? = some .struct := by
  rw [generate_eq] at h
  obtain ⟨entries, hrun, h⟩ := Results.bind_eq_ok.1 h
  cases h
  constructor
  · rintro hall ⟨path, id, hid, hstruct⟩
    obtain ⟨k, hk, hid⟩ := Store.follow_append.1 hid
    obtain ⟨c, hc, hid⟩ := Store.follow_cons.1 hid
    obtain ⟨id, hid, heq⟩ := Store.follow_cons.1 hid
    cases heq
    have hdue : (Visit.name (singularize "s") id).At s root :=
      ⟨path, k, "s", c, hk, hc, memberVisit?_name.2 ⟨hstruct, .inr ⟨rfl, hid⟩⟩⟩
    have hvisit := mem_visits_of_at (hs.deepEnough root) hroot
      (fun _ _ => not_nested_of_run hrun) hdue
    obtain ⟨e, he, hname⟩ := isTaken_iff.1 (run_empty hvisit hrun)
    have hidentifier := hall e he
    rw [hname] at hidentifier
    exact absurd hidentifier (by decide)
  · intro hnone
    have hinput : ∀ e ∈ [(⟨inputStructName, root⟩ : NamedStruct)], isIdentifier e.name = true := by
      intro e he
      rw [List.mem_singleton.1 he]
      exact (by decide : isIdentifier inputStructName = true)
    refine run_identifiers ?_ hrun hinput
    intro field id hvisit
    obtain ⟨path, k, f, c, hk, hc, hv⟩ := at_of_mem_visits hs hvisit
    have hf : isIdentifier f = true := by
      have hmembers := hnames k
      cases hn : s.get k with
      | struct members =>
        rw [hn] at hc hmembers
        exact hmembers (f, c) (Lookup.mem_of_lookup hc)
      | _ => simp [hn, Node.child?] at hc
    obtain ⟨hstruct, ⟨rfl, _⟩ | ⟨rfl, hid⟩⟩ := memberVisit?_name.1 hv
    · exact hf
    · refine Name.isIdentifier_singularize hf ?_
      rintro rfl
      exact hnone ⟨path, id, Store.follow_append.2 ⟨k, hk, Store.follow_cons.2 ⟨c, hc,
        Store.follow_cons.2 ⟨id, hid, rfl⟩⟩⟩, hstruct⟩

/-- What a template says that shows the `x` of each `s`. -/
def sequence : Store :=
  ⟨#[.struct [("s", 1)], .array none 2, .struct [("x", 3)], .string none]⟩

/-- The structs in an array called `s` have the empty name. -/
theorem generate_identifiers_sequence : ∃ n, Naming.generate sequence 0 true = .ok n ∧
    sequence.MembersIn (isIdentifier · = true) ∧ ⟨"", 2⟩ ∈ n.entries ∧
    ¬ ∀ e ∈ n.entries, isIdentifier e.name = true := by
  have hrun : runAll 0 [.narrow [.member "s", .index "0", .member "x"] .string none]
      ({} : Store).newRoot.2 = .ok () sequence := rfl
  have hforest : sequence.Forest := (runAll_meets Store.forest_empty hrun).1
  have hnames : sequence.MembersIn (isIdentifier · = true) := by
    intro id
    by_cases hid : id < sequence.size
    · have hall : ∀ id < sequence.size,
          (sequence.get id).MembersIn (isIdentifier · = true) := by
        decide +kernel
      exact hall id hid
    · rw [Store.get_of_size_le (Nat.le_of_not_lt hid)]
      exact trivial
  have hgenerate : Naming.generate sequence 0 true = .ok ⟨[⟨inputStructName, 0⟩, ⟨"", 2⟩], true⟩ := by
    decide +kernel
  refine ⟨_, hgenerate, hnames, by decide, ?_⟩
  intro hall
  exact (generate_identifiers hforest.acyclic hnames rfl hgenerate).1 hall ⟨[], 2, rfl, rfl⟩

end Naming
end Types
end Stencil
