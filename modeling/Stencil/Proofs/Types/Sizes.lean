import Mathlib.Algebra.Ring.Nat
import Mathlib.Tactic.Choose
import Stencil.Proofs.Types.Acyclic
import Stencil.Types.Size

/-!
# Exact sizes

Sizes are computed up to a greatest number, which stands for all that is larger. This file defines
what is computed:

* `Takes`  : how many bits a node always takes, however many that are;
* `AtMost` : a node never takes more than another one, where only some sizes are told apart.

In an acyclic store, the computed size is the exact one, capped (`staticSize?_eq_some_iff`). It is
compared as if data of varying size took the greatest number (`sortKey_le_iff`).
-/

namespace Stencil
namespace Types

/-! ## Capped numbers -/

theorem capSize_le (n : Nat) : capSize n ≤ maxSize := Nat.min_le_right _ _

theorem capSize_le_self (n : Nat) : capSize n ≤ n := Nat.min_le_left _ _

theorem capSize_of_le {n : Nat} (h : n ≤ maxSize) : capSize n = n := Nat.min_eq_left h

theorem capSize_of_ge {n : Nat} (h : maxSize ≤ n) : capSize n = maxSize := Nat.min_eq_right h

theorem capSize_add (a b : Nat) : capSize (capSize a + capSize b) = capSize (a + b) := by
  unfold capSize
  omega

theorem capSize_mul (a n : Nat) : capSize (capSize a * n) = capSize (a * n) := by
  by_cases hle : a ≤ maxSize
  · rw [capSize_of_le hle]
  · have hge : maxSize ≤ a := Nat.le_of_not_le hle
    rw [capSize_of_ge hge]
    cases n with
    | zero => rfl
    | succ n =>
      rw [capSize_of_ge (Nat.le_mul_of_pos_right _ (Nat.succ_pos n)),
        capSize_of_ge (Nat.le_trans hge (Nat.le_mul_of_pos_right _ (Nat.succ_pos n)))]

namespace Store

/-! ## Sizes -/

/-- How many bits a node always takes. There is no rule for data of varying size. -/
inductive Takes (s : Store) : NodeId → Nat → Prop where
  | bytes {id : NodeId} {n : Nat} (h : s.get id = .string (some n)) : Takes s id (8 * n)
  | uint {id : NodeId} {width : Option Nat} (h : s.get id = .uint width) :
      Takes s id (width.getD 256)
  | int {id : NodeId} {width : Option Nat} (h : s.get id = .int width) :
      Takes s id (width.getD 256)
  | bool {id : NodeId} (h : s.get id = .bool) : Takes s id 8
  | array {id element : NodeId} {n k : Nat} (h : s.get id = .array (some n) element)
      (inside : Takes s element k) : Takes s id (k * n)
  | struct {id : NodeId} {members : List (String × NodeId)} {size : String × NodeId → Nat}
      (h : s.get id = .struct members) (inside : ∀ m ∈ members, Takes s m.2 (size m)) :
      Takes s id (members.map size).sum

variable {s : Store} {id : NodeId} {d k n : Nat}

theorem Takes.unique (h : s.Takes id k) (h' : s.Takes id n) : k = n := by
  induction h generalizing n with
  | bytes h | uint h | int h | bool h =>
    cases h' <;> simp_all
  | array h _ ih =>
    cases h' with
    | array h₂ inside₂ =>
      rw [h] at h₂
      cases h₂
      rw [ih inside₂]
    | _ => simp_all
  | struct h _ ih =>
    cases h' with
    | struct h₂ inside₂ =>
      rw [h] at h₂
      cases h₂
      congr 1
      exact List.map_congr_left fun m hm => ih m hm (inside₂ m hm)
    | _ => simp_all

theorem Takes.lt_size (h : s.Takes id k) : id < s.size := by
  cases h with
  | bytes h | uint h | int h | bool h | array h _ | struct h _ =>
    exact lt_size_of_kind? (by rw [h]; rfl)

/-- All lengths are 32-bit numbers, as those in templates are. -/
def LengthsFit (s : Store) : Prop :=
  ∀ id, ∀ n ∈ (s.get id).length?, n < Text.bound32

theorem LengthsFit.capSize_getD (h : s.LengthsFit) {width : Option Nat}
    (hn : (s.get id).length? = width) : capSize (width.getD 256) = width.getD 256 := by
  cases width with
  | none => rfl
  | some n =>
    have hlt : n < Text.bound32 := h id n hn
    refine capSize_of_le ?_
    unfold Text.bound32 at hlt
    unfold maxSize Text.bound64
    rw [Option.getD_some]
    omega

theorem LengthsFit.capSize_bytes (h : s.LengthsFit) (hn : (s.get id).length? = some n) :
    capSize (8 * n) = 8 * n := by
  have hlt : n < Text.bound32 := h id n hn
  refine capSize_of_le ?_
  unfold Text.bound32 at hlt
  unfold maxSize Text.bound64
  omega

/-- The next sum of sizes. -/
def addSize (size? : NodeId → Option Nat) (sum : Nat) (m : String × NodeId) : Option Nat := do
  return capSize (sum + (← size? m.2))

theorem addSize_eq_some {size? : NodeId → Option Nat} {sum : Nat} {m : String × NodeId} :
    addSize size? sum m = some n ↔ ∃ k, size? m.2 = some k ∧ capSize (sum + k) = n := by
  unfold addSize
  simp [Option.bind_eq_some_iff]

/-- The sum of the sizes of members, capped on the way. -/
theorem foldlM_addSize {size? : NodeId → Option Nat} {members : List (String × NodeId)}
    {size : String × NodeId → Nat} (h : ∀ m ∈ members, size? m.2 = some (capSize (size m)))
    (start : Nat) :
    members.foldlM (addSize size?) (capSize start) =
      some (capSize (start + (members.map size).sum)) := by
  induction members generalizing start with
  | nil => rfl
  | cons m members ih =>
    have hfirst : addSize size? (capSize start) m = some (capSize (start + size m)) :=
      addSize_eq_some.2 ⟨_, h m List.mem_cons_self, capSize_add _ _⟩
    rw [List.foldlM_cons, hfirst, List.map_cons, List.sum_cons, ← Nat.add_assoc]
    exact ih (fun m hm => h m (List.mem_cons_of_mem _ hm)) (start + size m)

/-- A sum has all its parts. -/
theorem exists_of_foldlM_addSize {size? : NodeId → Option Nat}
    {members : List (String × NodeId)} {start : Nat}
    (h : members.foldlM (addSize size?) start = some n) :
    ∀ m ∈ members, ∃ k, size? m.2 = some k := by
  induction members generalizing start with
  | nil =>
    intro m hm
    cases hm
  | cons m members ih =>
    rw [List.foldlM_cons] at h
    obtain ⟨sum, hsum, hrest⟩ := Option.bind_eq_some_iff.1 h
    obtain ⟨k, hk, _⟩ := addSize_eq_some.1 hsum
    exact List.forall_mem_cons.2 ⟨⟨k, hk⟩, ih hrest⟩

/-- What takes a number of bits is found to take it, capped. -/
theorem Takes.staticSizeUpTo (hs : s.Acyclic) (hlengths : s.LengthsFit) (h : s.Takes id k)
    (hd : s.DeepEnough d id) : s.staticSizeUpTo d id = some (capSize k) := by
  induction d generalizing id k with
  | zero => exact absurd (hd [] id rfl h.lt_size) (Nat.not_lt_zero _)
  | succ d ih =>
    unfold Store.staticSizeUpTo
    cases h with
    | bytes h =>
      simp only [h, Option.map_some]
      rw [hlengths.capSize_bytes (congrArg Node.length? h)]
    | uint h | int h =>
      simp only [h]
      exact congrArg some (hlengths.capSize_getD (congrArg Node.length? h)).symm
    | bool h =>
      simp only [h]
      rfl
    | @array _ element n k h inside =>
      have hchild : (s.get id).child? .element = some element := by
        rw [h]
        rfl
      simp only [h, ih inside (hd.child hchild), Option.pure_def, Option.bind_eq_bind,
        Option.bind_some, capSize_mul]
    | @struct _ members size h inside =>
      simp only [h]
      have hmembers : ∀ m ∈ members, s.staticSizeUpTo d m.2 = some (capSize (size m)) :=
        fun m hm => ih (inside m hm) (hd.child (hs.child?_of_mem h hm))
      have hsum := foldlM_addSize hmembers 0
      rw [Nat.zero_add] at hsum
      exact hsum

/-- What is found to take a number of bits does take one. -/
theorem exists_takes (h : s.staticSizeUpTo d id = some n) : ∃ k, s.Takes id k := by
  induction d generalizing id n with
  | zero => cases h
  | succ d ih =>
    unfold Store.staticSizeUpTo at h
    cases hn : s.get id with
    | unknown =>
      simp only [hn] at h
      cases h
    | string length =>
      simp only [hn] at h
      obtain ⟨bytes, rfl, _⟩ := Option.map_eq_some_iff.1 h
      exact ⟨_, .bytes hn⟩
    | uint width => exact ⟨_, .uint hn⟩
    | int width => exact ⟨_, .int hn⟩
    | bool => exact ⟨_, .bool hn⟩
    | array length element =>
      simp only [hn] at h
      obtain ⟨count, rfl, hrest⟩ := Option.bind_eq_some_iff.1 h
      obtain ⟨_, hinside, _⟩ := Option.bind_eq_some_iff.1 hrest
      obtain ⟨k, hk⟩ := ih hinside
      exact ⟨_, .array hn hk⟩
    | struct members =>
      simp only [hn] at h
      have hmembers : ∀ m ∈ members, ∃ k, s.staticSizeUpTo d m.2 = some k :=
        exists_of_foldlM_addSize h
      have htakes : ∀ m : String × NodeId, ∃ k, m ∈ members → s.Takes m.2 k := by
        intro m
        by_cases hm : m ∈ members
        · obtain ⟨_, hm⟩ := hmembers m hm
          obtain ⟨k, hk⟩ := ih hm
          exact ⟨k, fun _ => hk⟩
        · exact ⟨0, fun hmem => absurd hmem hm⟩
      choose size hsize using htakes
      exact ⟨_, .struct hn hsize⟩

/-- The computed size is the exact one, capped. -/
theorem staticSize?_eq_some_iff (hs : s.Acyclic) (hlengths : s.LengthsFit) :
    s.staticSize? id = some n ↔ ∃ k, s.Takes id k ∧ n = capSize k := by
  constructor
  · intro h
    obtain ⟨k, hk⟩ := exists_takes h
    have hsize := hk.staticSizeUpTo hs hlengths (hs.deepEnough id)
    rw [Store.staticSize?, hsize] at h
    exact ⟨k, hk, (Option.some.inj h).symm⟩
  · rintro ⟨k, hk, rfl⟩
    exact hk.staticSizeUpTo hs hlengths (hs.deepEnough id)

/-! ## Comparing sizes -/

/-- A node takes at most as many bits as another one takes, as far as the numbers of the latter are
told apart. Data of varying size takes more than any number. -/
def AtMost (s : Store) (told : Nat → Prop) (a b : NodeId) : Prop :=
  ∀ k, s.Takes b k → told k → ∃ k' ≤ k, s.Takes a k'

/-- What members are sorted by. -/
def sortKey (s : Store) (id : NodeId) : Nat := (s.staticSize? id).getD maxSize

theorem sortKey_le (hs : s.Acyclic) (hlengths : s.LengthsFit) (id : NodeId) :
    s.sortKey id ≤ maxSize := by
  unfold sortKey
  cases hsize : s.staticSize? id with
  | none => exact Nat.le_refl _
  | some n =>
    obtain ⟨k, _, rfl⟩ := (staticSize?_eq_some_iff hs hlengths).1 hsize
    exact capSize_le k

theorem Takes.sortKey_eq (hs : s.Acyclic) (hlengths : s.LengthsFit) (h : s.Takes id k) :
    s.sortKey id = capSize k := by
  have hsize := (staticSize?_eq_some_iff hs hlengths).2 ⟨k, h, rfl⟩
  unfold sortKey
  rw [hsize]
  rfl

/-- Keys below the greatest number are exact sizes. -/
theorem takes_sortKey (hs : s.Acyclic) (hlengths : s.LengthsFit) (h : s.sortKey id < maxSize) :
    s.Takes id (s.sortKey id) := by
  unfold sortKey at h ⊢
  cases hsize : s.staticSize? id with
  | none =>
    rw [hsize] at h
    exact absurd h (Nat.lt_irrefl _)
  | some n =>
    obtain ⟨k, hk, rfl⟩ := (staticSize?_eq_some_iff hs hlengths).1 hsize
    rw [hsize, Option.getD_some] at h
    rw [Option.getD_some]
    have hlt : k < maxSize := by
      by_contra hge
      rw [capSize_of_ge (Nat.le_of_not_lt hge)] at h
      exact absurd h (Nat.lt_irrefl _)
    rw [capSize_of_le (Nat.le_of_lt hlt)]
    exact hk

/-- Sorting tells the sizes below the greatest number apart. -/
theorem sortKey_le_iff (hs : s.Acyclic) (hlengths : s.LengthsFit) {a b : NodeId} :
    s.sortKey a ≤ s.sortKey b ↔ s.AtMost (· < maxSize) a b := by
  constructor
  · intro hle k hk hlt
    rw [hk.sortKey_eq hs hlengths, capSize_of_le (Nat.le_of_lt hlt)] at hle
    exact ⟨_, hle, takes_sortKey hs hlengths (Nat.lt_of_le_of_lt hle hlt)⟩
  · intro hmost
    by_cases hlt : s.sortKey b < maxSize
    · obtain ⟨k, hle, hk⟩ := hmost _ (takes_sortKey hs hlengths hlt) hlt
      rw [hk.sortKey_eq hs hlengths]
      exact Nat.le_trans (capSize_le_self k) hle
    · exact Nat.le_trans (sortKey_le hs hlengths a) (Nat.le_of_not_lt hlt)

end Store
end Types
end Stencil
