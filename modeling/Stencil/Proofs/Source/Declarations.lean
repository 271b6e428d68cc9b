import Stencil.Proofs.Code.Lines
import Stencil.Proofs.Source.Recursion
import Stencil.Proofs.Types.Members

/-!
# Lines of declarations

Structs, functions and modules are written in level lines, if the names in them are plain. This
file defines:

* `TidyNames`                              : the names given to structs are tidy;
* `Function.Spelled`, `Module.Spelled` : all names in a declaration are plain.

Structs are named after members (`generate_tidyNames`), so that types are spelled in plain
characters (`typeName_plain`) where the members of the input have tidy names.
-/

namespace Stencil

open Name (Tidy)
open Source (Level Plain Reads)

namespace Types

variable {s : Store} {entries entries' : List NamedStruct}

/-! ## Names of structs -/

/-- The names given to structs are tidy. -/
def TidyNames (entries : List NamedStruct) : Prop := ∀ e ∈ entries, Tidy e.name

theorem TidyNames.append (h : TidyNames entries) {name : String} (hname : Tidy name) (id : NodeId) :
    TidyNames (entries ++ [⟨name, id⟩]) := by
  intro e he
  obtain he | he := List.mem_append.1 he
  · exact h e he
  · cases List.mem_singleton.1 he
    exact hname

theorem TidyNames.rename (h : TidyNames entries) {new : String} (hnew : Tidy new) (old : String) :
    TidyNames (rename entries old new) := by
  intro e he
  obtain ⟨e', he', rfl⟩ := List.mem_map.1 he
  split
  · exact hnew
  · exact h e' he'

theorem register_tidyNames (h : TidyNames entries) {field : String} (hfield : Tidy field)
    {id : NodeId} (hregister : register s field id entries = .ok entries') :
    TidyNames entries' := by
  unfold register at hregister
  dsimp only at hregister
  split at hregister
  · next shared hshared =>
    split at hregister
    · cases hregister
      exact (h.rename hfield.capitalize _).append hfield.capitalize id
    · cases hregister
      exact h.append (h shared (List.mem_of_find?_eq_some hshared)) id
  · split at hregister
    · next name hfresh =>
      cases hregister
      exact h.append (hfield.capitalize.freshName hfresh) id
    · cases hregister

theorem visitMember_tidyNames
    {descend : NodeId → List NamedStruct → Except Error (List NamedStruct)}
    (hdescend : ∀ {id entries entries'}, TidyNames entries → descend id entries = .ok entries' →
      TidyNames entries')
    (h : TidyNames entries) {member : String × NodeId} (hfield : Tidy member.1)
    (hvisit : visitMember s descend entries member = .ok entries') : TidyNames entries' := by
  unfold visitMember at hvisit
  dsimp only at hvisit
  split at hvisit
  · obtain ⟨mid, hregister, hinside⟩ := Results.bind_eq_ok.1 hvisit
    exact hdescend (register_tidyNames h hfield hregister) hinside
  · split at hvisit
    · obtain ⟨mid, hregister, hinside⟩ := Results.bind_eq_ok.1 hvisit
      exact hdescend (register_tidyNames h hfield.singularize hregister) hinside
    · cases hvisit
    · cases hvisit
      exact h
  · cases hvisit
    exact h

theorem visitStruct_tidyNames (hs : s.MembersIn Tidy) {depth : Nat} {id : NodeId}
    (h : TidyNames entries) (hvisit : visitStruct s depth id entries = .ok entries') :
    TidyNames entries' := by
  induction depth generalizing id entries entries' with
  | zero =>
    cases hvisit
    exact h
  | succ depth ih =>
    unfold visitStruct at hvisit
    split at hvisit
    · next members hstruct =>
      have hmembers : ∀ m ∈ members, Tidy m.1 := by
        have hnode := hs id
        rw [hstruct] at hnode
        exact hnode
      clear hstruct
      -- the names stay tidy from member to member, and inside each of them by `ih`
      induction members generalizing entries with
      | nil =>
        cases hvisit
        exact h
      | cons m members ihmembers =>
        obtain ⟨hm, hmembers⟩ := List.forall_mem_cons.1 hmembers
        rw [List.foldlM_cons] at hvisit
        obtain ⟨mid, hfirst, hothers⟩ := Results.bind_eq_ok.1 hvisit
        exact ihmembers (visitMember_tidyNames ih h hm hfirst) hothers hmembers
    · cases hvisit
      exact h

theorem generate_tidyNames (hs : s.MembersIn Tidy) {root : NodeId} {explicitTypes : Bool}
    {n : Naming} (h : Naming.generate s root explicitTypes = .ok n) : TidyNames n.entries := by
  unfold Naming.generate at h
  obtain ⟨entries, hvisit, h⟩ := Results.bind_eq_ok.1 h
  cases h
  refine visitStruct_tidyNames hs ?_ hvisit
  intro e he
  cases List.mem_singleton.1 he
  exact (by decide : Tidy inputStructName)

/-! ## Names of types -/

section

variable {n : Naming} {id : NodeId} {type : String}

theorem integerName_tidy {base : String} (hbase : Tidy base) (width : Option Nat) :
    Tidy (n.integerName base width) := by
  unfold Naming.integerName
  split
  · exact hbase.append (.repr _)
  · split
    · exact hbase.append (by decide)
    · exact hbase

theorem plainTypeName_tidy (hn : TidyNames n.entries) (h : n.plainTypeName s id = .ok type) :
    Tidy type := by
  unfold Naming.plainTypeName at h
  split at h
  · cases h
    exact (by decide : Tidy "string")
  · cases h
    exact (by decide : Tidy "string")
  · cases h
    exact (by decide : Tidy "bytes").append (.repr _)
  · cases h
    exact integerName_tidy (by decide) _
  · cases h
    exact integerName_tidy (by decide) _
  · cases h
    exact (by decide : Tidy "bool")
  · cases h
  · split at h
    · next name hfind =>
      cases h
      unfold Naming.find? at hfind
      obtain ⟨e, he, rfl⟩ := Option.map_eq_some_iff.1 hfind
      obtain he | ⟨_, he⟩ := Option.or_eq_some_iff.1 he
      · exact hn e (List.mem_of_find?_eq_some he)
      · exact hn e (List.mem_of_find?_eq_some he)
    · cases h

theorem typeName_plain (hn : TidyNames n.entries) (h : n.typeName s id = .ok type) :
    Plain type := by
  unfold Naming.typeName at h
  split at h
  · next length element _ =>
    split at h
    · cases h
    · obtain ⟨element, helement, h⟩ := Results.bind_eq_ok.1 h
      cases h
      have hlength : Tidy (Store.lengthText length) := by
        cases length with
        | none => exact (by decide : Tidy "")
        | some k => exact .repr k
      exact (((Plain.of_tidy (plainTypeName_tidy hn helement)).append (by decide)).append
        (.of_tidy hlength)).append (by decide)
  · exact .of_tidy (plainTypeName_tidy hn h)

end

end Types

namespace Source

open Code (Stmt)
open Lower (Lowered LoweredPartial)
open Stencil.Types (Naming NodeId Store TidyNames)

/-! ## Structs -/

/-- All names in a struct are plain. -/
structure StructDecl.Spelled (d : StructDecl) : Prop where
  name : Plain d.name
  fields : ∀ f ∈ d.fields, Plain f.1 ∧ Plain f.2

theorem StructDecl.Spelled.level {d : StructDecl} (h : d.Spelled) : Level d.lines := by
  have hhead : Reads ("struct " ++ d.name ++ " \x7b") 1 0 :=
    ((by decide : Plain "struct ").append h.name).neutral.append (by decide : Reads " \x7b" 1 0)
  have hfields : Level (d.fields.map fun f => f.1 ++ " " ++ f.2 ++ ";") := by
    refine .map fun f hf => ?_
    obtain ⟨htype, hfield⟩ := h.fields f hf
    exact (((htype.append (by decide)).append hfield).append
      (by decide : Plain ";")).neutral.level
  have hblock := Level.block hhead hfields (by decide : Reads "\x7d" 0 1)
  have hlines := hblock.append (by decide : Level [""])
  unfold StructDecl.lines
  simpa using hlines

theorem structDecl_spelled {s : Store} {naming : Naming} {e : Types.NamedStruct} {d : StructDecl}
    (hs : s.MembersIn Tidy) (hn : TidyNames naming.entries) (he : e ∈ naming.entries)
    (h : structDecl? s naming e = .ok (some d)) : d.Spelled := by
  obtain ⟨members, hstruct, hfields, hname⟩ := structDecl?_eq_some.1 h
  refine ⟨hname ▸ .of_tidy (hn e he), ?_⟩
  intro f hf
  obtain ⟨m, hm, hfield⟩ := Results.exists_of_mem_mapM hfields hf
  obtain ⟨htype, hfield_name⟩ := structField_ok.1 hfield
  refine ⟨Types.typeName_plain hn htype, ?_⟩
  rw [hfield_name]
  -- fields are sorted members
  have hmember := (List.mergeSort_perm _ _).mem_iff.1 hm
  have hnode := hs e.node
  rw [hstruct] at hnode
  exact .of_tidy (hnode m hmember)

/-! ## Functions -/

/-- All names in a function are plain. -/
structure Function.Spelled (f : Function) : Prop where
  name : Plain f.name
  parameter : Plain f.parameter
  visibility : Plain f.visibility
  body : ∀ x ∈ Stmt.allParts [] f.body, x.2.Spelled

theorem Function.Spelled.level {f : Function} (h : f.Spelled) : Level f.lines := by
  have hhead : Reads f.head 1 0 := by
    have hsignature : Plain ("function " ++ f.name ++ "(" ++ f.parameter ++ " ") :=
      ((((by decide : Plain "function ").append h.name).append (by decide)).append
        h.parameter).append (by decide)
    have hrest : Plain ("function " ++ f.name ++ "(" ++ f.parameter ++ " " ++ inputName ++ ") " ++
        f.visibility ++ " pure returns (string memory " ++ Code.resultName) :=
      ((((hsignature.append (by decide)).append (by decide)).append h.visibility).append
        (by decide)).append (by decide)
    unfold Function.head
    exact hrest.neutral.append (by decide : Reads ") \x7b" 1 0)
  have hblock := Level.block hhead (Stmt.level_allLines [] f.body h.body)
    (by decide : Reads "\x7d" 0 1)
  have hlines := hblock.append (by decide : Level [""])
  unfold Function.lines
  simpa using hlines

theorem partialFunction_spelled {s : Store} {naming : Naming} (hn : TidyNames naming.entries)
    {visibility : String} (hvisibility : Plain visibility) {main : Option String}
    (hmain : ∀ name ∈ main, Plain name) {p : LoweredPartial} (hname : Plain p.name)
    (hcode : ∀ x ∈ Stmt.allParts [] p.code, x.2.Spelled) {f : Function}
    (h : partialFunction s naming visibility main p = .ok f) : f.Spelled := by
  unfold partialFunction at h
  obtain ⟨type, htype, h⟩ := Results.bind_eq_ok.1 h
  cases h
  refine ⟨hname, Plain.append ?_ ?_, hvisibility, hcode⟩
  · refine Code.plain_qualified ?_ (Types.typeName_plain hn htype)
    split
    · exact hmain
    · rintro name ⟨⟩
  · split
    · decide
    · decide

/-! ## Modules -/

/-- All names in a module are plain. -/
structure Module.Spelled (m : Module) : Prop where
  keyword : Plain m.keyword
  name : Plain m.name
  structs : ∀ d ∈ m.structs, d.Spelled
  functions : ∀ f ∈ m.functions, f.Spelled

theorem Module.Spelled.level {m : Module} (h : m.Spelled) : Level m.lines := by
  have hhead : Reads (m.keyword ++ " " ++ m.name ++ " \x7b") 1 0 :=
    ((h.keyword.append (by decide)).append h.name).neutral.append (by decide : Reads " \x7b" 1 0)
  have hinside := (Level.flatMap fun d hd => (h.structs d hd).level).append
    (Level.flatMap fun f hf => (h.functions f hf).level)
  have hblock := Level.block hhead hinside (by decide : Reads "\x7d" 0 1)
  have hlines := hblock.append (by decide : Level [""])
  unfold Module.lines
  simpa using hlines

end Source
end Stencil
