import SnapshotSql.Expr.Fields
import Mathlib.Data.List.Sort
import Mathlib.Order.Defs.LinearOrder
/-! # Sorted lists without repetition -/

namespace SnapshotSql.Sorted

variable {α : Type} [LT α] [DecidableLT α]

theorem mem_of_mem_insert {x y : α} {xs : List α} (h : x ∈ insert y xs) : x = y ∨ x ∈ xs := by
  induction xs with
  | nil => exact .inl (List.mem_singleton.mp h)
  | cons z zs ih =>
    rw [insert] at h
    split at h
    · exact List.mem_cons.mp h
    · split at h
      · rcases List.mem_cons.mp h with rfl | h
        · exact .inr List.mem_cons_self
        · exact (ih h).imp_right (List.mem_cons_of_mem z)
      · exact .inr h

theorem subset_insert (x : α) (xs : List α) : xs ⊆ insert x xs := by
  induction xs with
  | nil => exact List.nil_subset _
  | cons y ys ih =>
    rw [insert]
    split
    · exact List.subset_cons_self x _
    · split
      · exact List.cons_subset_cons y ih
      · exact List.Subset.refl _

variable [Std.Trichotomous (α := α) (· < ·)]

theorem gt_of_not_lt_of_ne {x y : α} (hlt : ¬x < y) (hne : x ≠ y) : y < x := by
  by_contra hgt
  exact hne (Std.Trichotomous.trichotomous (r := (· < ·)) x y hlt hgt)

theorem mem_insert_self (x : α) (xs : List α) : x ∈ insert x xs := by
  induction xs with
  | nil => exact List.mem_singleton_self x
  | cons y ys ih =>
    rw [insert]
    split
    · exact List.mem_cons_self
    · split
      · exact List.mem_cons_of_mem y ih
      · rename_i hxy hyx
        by_contra hmem
        exact hyx (gt_of_not_lt_of_ne hxy (List.ne_of_not_mem_cons hmem))

@[simp] theorem mem_insert {x y : α} {xs : List α} : x ∈ insert y xs ↔ x = y ∨ x ∈ xs := by
  constructor
  · exact mem_of_mem_insert
  · rintro (rfl | h)
    · exact mem_insert_self x xs
    · exact subset_insert y xs h

@[simp] theorem mem_union {x : α} {xs ys : List α} : x ∈ union xs ys ↔ x ∈ xs ∨ x ∈ ys := by
  induction ys generalizing xs with
  | nil => simp [union]
  | cons y ys ih =>
    have hstep : union xs (y :: ys) = union (insert y xs) ys := rfl
    simp only [hstep, ih, mem_insert, List.mem_cons]
    tauto

@[simp] theorem mem_ofList {x : α} {xs : List α} : x ∈ ofList xs ↔ x ∈ xs := by
  simp [ofList]

variable [IsTrans α (· < ·)]

theorem pairwise_insert (x : α) {xs : List α} (h : xs.Pairwise (· < ·)) :
    (insert x xs).Pairwise (· < ·) := by
  induction xs with
  | nil => simp [insert]
  | cons y ys ih =>
    obtain ⟨hy, hys⟩ := List.pairwise_cons.mp h
    rw [insert]
    by_cases hxy : x < y
    · rw [if_pos hxy, List.pairwise_cons]
      refine ⟨?_, h⟩
      intro z hz
      rcases List.mem_cons.mp hz with rfl | hz
      · exact hxy
      · exact IsTrans.trans _ _ _ hxy (hy z hz)
    · rw [if_neg hxy]
      by_cases hyx : y < x
      · rw [if_pos hyx, List.pairwise_cons]
        refine ⟨?_, ih hys⟩
        intro z hz
        rcases mem_insert.mp hz with rfl | hz
        · exact hyx
        · exact hy z hz
      · rwa [if_neg hyx]

theorem pairwise_union {xs : List α} (ys : List α) (h : xs.Pairwise (· < ·)) :
    (union xs ys).Pairwise (· < ·) := by
  induction ys generalizing xs with
  | nil => exact h
  | cons y ys ih => exact ih (pairwise_insert y h)

theorem pairwise_ofList (xs : List α) : (ofList xs).Pairwise (· < ·) := pairwise_union xs .nil

end SnapshotSql.Sorted
