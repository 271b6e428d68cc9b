import Mathlib.Data.Nat.Find
import Stencil.Proofs.Lower.TypingComplete
import Stencil.Proofs.Lower.TypingSound

/-!
# Types that can be declared

Declarations have numbers of whole bytes up to 256 bits, fixed bytes up to 32, arrays that are not
of length zero and structs that are not empty. Helpers check the widths that they are given, but
widths are merged, copied from one context of a partial to the others, and raised by rounds, and
structs come and go along paths. None of this has to be followed: the type that is inferred is the
least one, so it is enough that what cannot be declared can be left out of any type.

* `Kind.allows`  : the lengths that data of a kind can be declared with;
* `Shape.trim`   : a type with its lengths cut down to such lengths, and without empty structs;
* `Typing.trim`  : a typing can be cut down, as no tag asks for what is cut off;
* `lower_declarable` : so there is nothing to cut off the least one.
-/

namespace Stencil
namespace Types

/-! ## Lengths -/

namespace Kind

/-- The greatest length up to the given one that is allowed. -/
def round (k : Kind) (n : Nat) : Option Nat :=
  (some (Nat.findGreatest (fun m => k.allows m = true) n)).filter k.allows

variable {k : Kind} {m n : Nat}

theorem allows_of_round (h : k.round n = some m) : k.allows m = true := by
  unfold round at h
  rw [Option.filter_eq_some_iff] at h
  exact h.2

theorem le_of_round (h : k.round n = some m) : m ≤ n := by
  unfold round at h
  rw [Option.filter_eq_some_iff] at h
  cases h.1
  exact Nat.findGreatest_le n

/-- A length that is allowed is not cut below. -/
theorem le_round (hm : k.allows m = true) (hle : m ≤ n) : ∃ r, k.round n = some r ∧ m ≤ r := by
  have hspec := Nat.findGreatest_spec (P := fun m => k.allows m = true) hle hm
  refine ⟨Nat.findGreatest (fun m => k.allows m = true) n, ?_, Nat.le_findGreatest hle hm⟩
  unfold round
  rw [Option.filter_eq_some_iff]
  exact ⟨rfl, hspec⟩

theorem round_mono (h : m ≤ n) : LengthLe (k.round m) (k.round n) := by
  intro r hr
  exact le_round (allows_of_round hr) (Nat.le_trans (le_of_round hr) h)

end Kind

theorem LengthLe.bind_round {a b : Option Nat} (h : LengthLe a b) (k : Kind) :
    LengthLe (a.bind k.round) (b.bind k.round) := by
  intro n hn
  obtain ⟨m, rfl, hm⟩ := Option.bind_eq_some_iff.1 hn
  obtain ⟨m', rfl, hle⟩ := h m rfl
  exact Kind.round_mono hle n hm

/-! ## Cutting down -/

namespace Shape

mutual

/-- A type without what cannot be declared. -/
def trim : Shape → Shape
  | .unknown => .unknown
  | .string length => .string (length.bind Kind.string.round)
  | .uint length => .uint (length.bind Kind.uint.round)
  | .int length => .int (length.bind Kind.int.round)
  | .bool => .bool
  | .array length element => .array (length.bind Kind.array.round) element.trim
  | .struct [] => .unknown
  | .struct (m :: members) => .struct ((m.1, m.2.trim) :: trimMembers members)

def trimMembers : List (String × Shape) → List (String × Shape)
  | [] => []
  | m :: members => (m.1, m.2.trim) :: trimMembers members

end

theorem trimMembers_eq (members : List (String × Shape)) :
    trimMembers members = members.map fun m => (m.1, m.2.trim) := by
  induction members with
  | nil => rfl
  | cons m members ih => rw [trimMembers, ih, List.map_cons]

theorem child?_trim (t : Shape) (σ : Step) : t.trim.child? σ = (t.child? σ).map trim := by
  cases t with
  | array length element => cases σ <;> simp [trim, child?]
  | struct members =>
    cases members with
    | nil => cases σ <;> simp [trim, child?]
    | cons m members =>
      rw [trim, ← trimMembers, trimMembers_eq]
      cases σ with
      | element => rfl
      | member name => exact Lookup.lookup_map trim (m :: members) name
  | _ => cases σ <;> simp [trim, child?]

theorem follow_trim (t : Shape) (p : List Step) : t.trim.follow p = (t.follow p).map trim := by
  induction p generalizing t with
  | nil => simp
  | cons σ p ih =>
    rw [follow_cons_eq, follow_cons_eq, child?_trim]
    cases t.child? σ with
    | none => rfl
    | some c => exact ih c

/-- What is above a type is so at each place. -/
theorem Le.follow {a b x : Shape} {p : List Step} (h : a.Le b) (hx : a.follow p = some x) :
    ∃ y, b.follow p = some y ∧ x.Le y := by
  induction p generalizing a b with
  | nil =>
    rw [follow_nil] at hx
    cases hx
    exact ⟨b, follow_nil b, h⟩
  | cons σ p ih =>
    obtain ⟨c, hc, hcx⟩ := follow_cons.1 hx
    obtain ⟨d, hd, hcd⟩ := (le_iff.1 h).2 σ c hc
    obtain ⟨y, hy, hxy⟩ := ih hcd hcx
    exact ⟨y, follow_cons.2 ⟨d, hd, hy⟩, hxy⟩

/-- The label of a type that is not an empty struct keeps its kind. -/
theorem label_trim {t : Shape} {k : Kind} (hk : t.label.kind = some k) (ht : t ≠ .struct []) :
    t.trim.label = ⟨some k, t.label.length.bind k.round⟩ := by
  cases t with
  | unknown => cases hk
  | struct members =>
    cases hk
    cases members with
    | nil => exact absurd rfl ht
    | cons m members => rfl
  | bool =>
    cases hk
    rfl
  | string | uint | int | array =>
    cases hk
    simp [trim, label]

theorem Le.trim {a b : Shape} (h : a.Le b) : a.trim.Le b.trim := by
  intro p x hx
  rw [follow_trim] at hx
  obtain ⟨u, hu, rfl⟩ := Option.map_eq_some_iff.1 hx
  obtain ⟨v, hv, huv⟩ := h.follow hu
  refine ⟨v.trim, by rw [follow_trim, hv]; rfl, ?_⟩
  obtain ⟨⟨hkind, hlength⟩, hchild⟩ := le_iff.1 huv
  cases hk : u.label.kind with
  | none =>
    cases u with
    | unknown => exact Label.unknown_le _
    | _ => cases hk
  | some k =>
    by_cases hempty : u = .struct []
    · subst hempty
      exact Label.unknown_le _
    · -- a struct with members is below structs with members only
      have hother : v ≠ .struct [] := by
        rintro rfl
        cases hkind k hk
        cases u with
        | struct members =>
          cases members with
          | nil => exact hempty rfl
          | cons m members =>
            obtain ⟨y, hy, _⟩ := hchild (.member m.1) m.2 (List.lookup_cons_self)
            cases hy
        | _ => cases hk
      rw [label_trim hk hempty, label_trim (hkind k hk) hother]
      exact ⟨fun _ h => h, hlength.bind_round k⟩

theorem Same.trim {a b : Shape} (h : a.Same b) : a.trim.Same b.trim :=
  ⟨h.1.trim, h.2.trim⟩

/-- A type with nothing to cut off can be declared. -/
theorem declarable_of_le_trim {t : Shape} (h : t.label.Le t.trim.label) :
    t ≠ .struct [] ∧
      ∀ k n, t.label.kind = some k → t.label.length = some n → k.allows n = true := by
  have ht : t ≠ .struct [] := by
    rintro rfl
    cases h.1 .struct rfl
  refine ⟨ht, ?_⟩
  intro k n hk hn
  rw [label_trim hk ht] at h
  obtain ⟨m, hm, hle⟩ := h.2 n hn
  simp only [hn, Option.bind_some] at hm
  rw [Nat.le_antisymm hle (Kind.le_of_round hm)]
  exact Kind.allows_of_round hm

end Shape

end Types

namespace Lower

open Results (bind_eq_ok)
open Template (Expr Hash PathExpr Program Statement)
open Stencil.Types (Kind NodeId Shape Store)

/-! ## What tags ask for can be declared -/

/-- What is asked for can be declared. -/
def Demand.Allowed (d : Demand) : Prop :=
  d.kind ≠ .struct ∧ ∀ n, d.length = some (n + 1) → d.kind.allows (n + 1) = true

/-- What can be declared is not cut off. -/
theorem Demand.Allowed.metBy_trim {d : Demand} (hd : d.Allowed) {t : Shape} (h : d.MetBy t) :
    d.MetBy t.trim := by
  intro horigin
  obtain ⟨u, hu, hkind, hlength⟩ := h horigin
  have hstruct : u ≠ .struct [] := by
    rintro rfl
    exact hd.1 (Option.some.inj (hkind d.kind rfl)).symm
  refine ⟨u.trim, by rw [Shape.follow_trim, hu]; rfl, ?_⟩
  rw [Shape.label_trim (hkind d.kind rfl) hstruct]
  refine ⟨fun _ h => h, ?_⟩
  intro n hn
  obtain ⟨m, hm, hle⟩ := hlength n hn
  have hallows : d.kind.allows n = true := by
    unfold Demand.label at hn
    simp only at hn
    split at hn
    · next n' hlength =>
      cases hn
      exact hd.2 n' hlength
    · cases hn
  rw [hm]
  exact Kind.le_round hallows hle

section

variable {scope : Scope} {params : List Expr} {hash : Hash}

theorem interpolationPlan_allowed {head : Expr} {plan : Code.Atom × Option Demand}
    (h : interpolationPlan scope head params hash = .ok plan) : ∀ d ∈ plan.2, d.Allowed := by
  unfold interpolationPlan at h
  cases head with
  | path p =>
    obtain ⟨helper, hhelper, h⟩ := bind_eq_ok.1 h
    cases helper with
    | some helper =>
      have hallowed := helper_allowed hhelper
      cases helper with
      | integer signed width =>
        obtain ⟨_, _, h⟩ := bind_eq_ok.1 h
        obtain ⟨_, _, h⟩ := bind_eq_ok.1 h
        obtain ⟨target, _, h⟩ := bind_eq_ok.1 h
        cases h
        rintro d ⟨⟩
        refine ⟨?_, fun n hn => hallowed (n + 1) hn⟩
        cases signed <;> simp
      | bytes width =>
        obtain ⟨_, _, h⟩ := bind_eq_ok.1 h
        obtain ⟨target, _, h⟩ := bind_eq_ok.1 h
        cases h
        rintro d ⟨⟩
        refine ⟨by simp, ?_⟩
        rintro n ⟨⟩
        exact hallowed
    | none =>
      dsimp only at h
      split at h
      · cases h
      · obtain ⟨target, _, h⟩ := bind_eq_ok.1 h
        split at h
        · cases h
          rintro d ⟨⟩
        · cases h
          rintro d ⟨⟩
          exact ⟨by simp, by rintro n ⟨⟩⟩
  | _ => cases h

theorem loopPlan_allowed {hasInverse : Bool} {d : Demand}
    (h : loopPlan scope params hash hasInverse = .ok d) : d.Allowed := by
  unfold loopPlan at h
  cases hasInverse with
  | true => cases h
  | false =>
    obtain ⟨_, _, h⟩ := bind_eq_ok.1 h
    obtain ⟨length, _, h⟩ := bind_eq_ok.1 h
    obtain ⟨items, _, h⟩ := bind_eq_ok.1 h
    split at h
    · cases h
    · cases h
      exact ⟨by simp, fun n _ => by simp [Kind.allows]⟩

theorem conditionPlan_allowed {head : PathExpr} {d : Demand}
    (h : conditionPlan scope head params hash = .ok d) : d.Allowed := by
  unfold conditionPlan at h
  obtain ⟨_, _, h⟩ := bind_eq_ok.1 h
  obtain ⟨target, _, h⟩ := bind_eq_ok.1 h
  split at h
  · cases h
  · cases h
    exact ⟨by simp, by rintro n ⟨⟩⟩

end

/-! ## Typings can be cut down -/

/-- A partial whose contexts have a type that is cut down. -/
def Signature.trim (σ : Signature) : Signature := { σ with input := σ.input.trim }

theorem Fits.trim {programs : List (String × Program)} {Γ : List Signature} {t : Shape}
    {scope : Scope} {s : Statement} (h : Fits programs Γ t scope s) :
    Fits programs (Γ.map Signature.trim) t.trim scope s := by
  induction h with
  | content => exact .content
  | comment => exact .comment
  | constant => exact .constant
  | interpolation hplan hmet =>
    refine .interpolation hplan fun d hd => ?_
    exact (interpolationPlan_allowed hplan d hd).metBy_trim (hmet d hd)
  | inclusion hplan horigin hσ hname hgroup hu hsame =>
    -- the context is cut down in the input as it is for the partial
    refine .inclusion hplan horigin (List.mem_map_of_mem hσ) hname hgroup ?_ hsame.trim
    rw [Shape.follow_trim, hu]
    rfl
  | each hkind hplan hmet _ ih =>
    exact .each hkind hplan ((loopPlan_allowed hplan).metBy_trim hmet) ih
  | dive hkind hopen _ ih => exact .dive hkind hopen ih
  | conditional hkind hplan hmet _ _ ih ih' =>
    exact .conditional hkind hplan ((conditionPlan_allowed hplan).metBy_trim hmet) ih ih'

/-- A typing can be cut down, unless it leaves the input without members. -/
theorem Typing.trim {programs : List (String × Program)} {P : Program} {Γ : List Signature}
    {t : Shape} (h : Typing programs P Γ t) (ht : t ≠ .struct []) :
    Typing programs P (Γ.map Signature.trim) t.trim where
  root := by rw [Shape.label_trim h.root ht]
  names := by
    rw [List.map_map]
    exact h.names
  partials := by
    intro i σ' hσ'
    rw [List.getElem?_map] at hσ'
    obtain ⟨σ, hσ, rfl⟩ := Option.map_eq_some_iff.1 hσ'
    obtain ⟨program, hprogram, hloops, hbody⟩ := h.partials i σ hσ
    refine ⟨program, hprogram, hloops, fun s hs => ?_⟩
    rw [← List.map_take]
    exact (hbody s hs).trim
  loops := h.loops
  body := fun s hs => (h.body s hs).trim

/-! ## The least type is cut down already -/

/-- There is nothing to cut off the type of the input. -/
theorem le_trim_of_lower {programs : List (String × Program)} {P : Program} {l : Lowered}
    (h : lower programs P = .ok l) (hne : l.store.shape 0 ≠ .struct []) :
    (l.store.shape 0).Le (l.store.shape 0).trim := by
  obtain ⟨l', hl', hle⟩ := lower_of_typing ((lower_typing h).trim hne)
  rw [h] at hl'
  cases hl'
  exact hle

/-- The lengths of all nodes are allowed, and inside the input there is no empty struct. -/
theorem node_declarable {programs : List (String × Program)} {P : Program} {l : Lowered}
    (h : lower programs P = .ok l) (id : NodeId) :
    (∀ k n, (l.store.get id).label = ⟨some k, some n⟩ → k.allows n = true) ∧
      (id ≠ l.root → l.store.get id ≠ .struct []) := by
  obtain ⟨st, hst, hstore, _, _, hkind, hroot⟩ := lower_valid h
  have hforest : l.store.Forest := hstore ▸ hst.forest
  by_cases hsize : id < l.store.size
  · rw [← hstore] at hsize
    obtain ⟨p, hp⟩ := hst.rooted id hsize
    rw [hstore] at hp
    cases p with
    | nil =>
      -- the input itself is a struct, which has no length
      cases hp
      refine ⟨?_, fun hne => absurd hroot.symm hne⟩
      intro k n hlabel
      cases hget : l.store.get 0 with
      | struct members =>
        rw [hget] at hlabel
        cases hlabel
      | _ => simp [hget, Types.Node.kind?] at hkind
    | cons σ p =>
      have hfollow : (l.store.shape 0).follow (σ :: p) = some (l.store.shape id) := by
        rw [Store.follow_shape hforest, hp]
        rfl
      have hne : l.store.shape 0 ≠ .struct [] := by
        intro hempty
        rw [hempty] at hfollow
        obtain ⟨c, hc, _⟩ := Shape.follow_cons.1 hfollow
        cases σ <;> cases hc
      obtain ⟨u, hu, hle⟩ := le_trim_of_lower h hne (σ :: p) _ hfollow
      rw [Shape.follow_trim, hfollow] at hu
      cases hu
      obtain ⟨hstruct, hallows⟩ := Shape.declarable_of_le_trim hle
      rw [Store.label_shape hforest] at hallows
      refine ⟨?_, fun _ hget => hstruct ?_⟩
      · intro k n hlabel
        rw [hlabel] at hallows
        exact hallows k n rfl rfl
      · rw [Store.shape_eq hforest, hget]
        rfl
  · rw [Store.get_of_size_le (Nat.le_of_not_lt hsize)]
    refine ⟨?_, by simp⟩
    intro k n hlabel
    cases hlabel

/-- Numbers are inferred to have whole bytes up to 256 bits, fixed bytes to be up to 32, arrays of
a fixed length not to be empty, and structs inside the input to have members. -/
theorem lower_declarable {programs : List (String × Program)} {P : Program} {l : Lowered}
    (h : lower programs P = .ok l) (id : NodeId) :
    (∀ n, l.store.get id = .uint (some n) ∨ l.store.get id = .int (some n) →
      8 ∣ n ∧ 8 ≤ n ∧ n ≤ 256) ∧
    (∀ n, l.store.get id = .string (some n) → 1 ≤ n ∧ n ≤ 32) ∧
    (∀ n element, l.store.get id = .array (some n) element → 1 ≤ n) ∧
    ∀ members, l.store.get id = .struct members → id ≠ l.root → members ≠ [] := by
  obtain ⟨hallows, hstruct⟩ := node_declarable h id
  refine ⟨?_, ?_, ?_, ?_⟩
  · rintro n (hget | hget)
    · have hn := hallows .uint n (by rw [hget]; rfl)
      simp only [Kind.allows, Bool.and_eq_true, decide_eq_true_eq, beq_iff_eq] at hn
      omega
    · have hn := hallows .int n (by rw [hget]; rfl)
      simp only [Kind.allows, Bool.and_eq_true, decide_eq_true_eq, beq_iff_eq] at hn
      omega
  · intro n hget
    have hn := hallows .string n (by rw [hget]; rfl)
    simpa [Kind.allows] using hn
  · intro n element hget
    have hn := hallows .array n (by rw [hget]; rfl)
    simpa [Kind.allows] using hn
  · rintro members hget hne rfl
    exact hstruct hne hget

/-- A partial with two contexts, of which one gets a wider number than the other. -/
def widths : Program :=
  [.inclusion "row" [.path { written := "a", parts := ["a"] }] [] {},
    .inclusion "row" [.path { written := "b", parts := ["b"] }] [] {},
    .interpolation (.path { written := "uint8", parts := ["uint8"] })
      [.path { written := "a.n", parts := ["a", "n"] }] [] true {},
    .interpolation (.path { written := "uint16", parts := ["uint16"] })
      [.path { written := "b.n", parts := ["b", "n"] }] [] true {}]

/-- The partial. -/
def rowPartials : List (String × Program) :=
  [("row", [.interpolation (.path { written := "bytes4", parts := ["bytes4"] })
    [.path { written := "tag", parts := ["tag"] }] [] true {}])]

/-- The rounds raise the first number, and the second tag has been copied from the first. -/
theorem lower_declarable_widths : ∃ l, lower rowPartials widths = .ok l ∧
    l.store.get 5 = .uint (some 16) ∧ (8 ∣ 16 ∧ 8 ≤ 16 ∧ 16 ≤ 256) ∧
    l.store.get 4 = .string (some 4) ∧ (1 ≤ 4 ∧ 4 ≤ 32) ∧
    l.store.get 3 = .struct [("tag", 4), ("n", 6)] ∧ 3 ≠ l.root ∧ [("tag", 4), ("n", 6)] ≠ [] := by
  have hrun : endsWith (lowerProgram rowPartials 0 widths State.initial)
      (fun st => settlesWith 2 st fun st' =>
        st'.store.get 5 == .uint (some 16) && st'.store.get 4 == .string (some 4) &&
          st'.store.get 3 == .struct [("tag", 4), ("n", 6)]) = true := by
    decide +kernel
  obtain ⟨l, st, hl, _, hstore, hroot, hget⟩ := exists_lower_of_endsWith hrun
  simp only [Bool.and_eq_true, beq_iff_eq, ← hstore] at hget
  obtain ⟨⟨hnumber, htag⟩, hstruct⟩ := hget
  have hne : 3 ≠ l.root := by
    rw [hroot]
    decide
  exact ⟨l, hl, hnumber, (lower_declarable hl 5).1 16 (.inl hnumber), htag,
    (lower_declarable hl 4).2.1 4 htag, hstruct, hne, (lower_declarable hl 3).2.2.2 _ hstruct hne⟩

end Lower
end Stencil
