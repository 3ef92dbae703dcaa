import SnapshotSql.StableSort
import Mathlib.Tactic.Common
/-! # Sorting by comparisons only -/

namespace SnapshotSql.StableSort

variable {α β : Type} {f : α → β} {before : α → α → Bool} {before' : β → β → Bool}

private theorem map_takeMerged {fromFirst : α → α → Bool} {fromFirst' : β → β → Bool}
    (hfrom : ∀ x y, fromFirst' (f x) (f y) = fromFirst x y) (n : Nat) (xs ys : List α) :
    takeMerged fromFirst' n (xs.map f) (ys.map f) =
      ((takeMerged fromFirst n xs ys).1.map f, (takeMerged fromFirst n xs ys).2) := by
  induction n generalizing xs ys with
  | zero => rfl
  | succ n ih =>
    cases xs with
    | nil => rfl
    | cons x xs =>
      cases ys with
      | nil => rfl
      | cons y ys =>
        simp only [List.map_cons, takeMerged, hfrom]
        split
        · have hrest := ih xs (y :: ys)
          rw [List.map_cons] at hrest
          simp only [hrest, List.map_cons]
        · have hrest := ih (x :: xs) ys
          rw [List.map_cons] at hrest
          simp only [hrest, List.map_cons]

private theorem map_partition (p : α → Bool) (p' : β → Bool) (hp : ∀ x, p' (f x) = p x)
    (xs : List α) :
    (xs.map f).partition p' = ((xs.partition p).1.map f, (xs.partition p).2.map f) := by
  have hkept : p' ∘ f = p := funext hp
  have hleft : (not ∘ p') ∘ f = not ∘ p := by
    rw [Function.comp_assoc, hkept]
  simp only [List.partition_eq_filter_filter, List.filter_map, hkept, hleft]

private theorem map_stretch {related : α → α → Bool} {related' : β → β → Bool}
    (hrelated : ∀ x y, related' (f x) (f y) = related x y) (last : α) (count : Nat) (xs : List α) :
    stretch related' (f last) count (xs.map f) = stretch related last count xs := by
  induction xs generalizing last count with
  | nil => rfl
  | cons x xs ih =>
    rw [List.map_cons, stretch, stretch, hrelated, ih]

section

variable (h : ∀ x y, before' (f x) (f y) = before x y)

include h

/-! ## Insertion and merging -/

private theorem map_insertLast (x : α) (xs : List α) :
    (insertLast before x xs).map f = insertLast before' (f x) (xs.map f) := by
  induction xs with
  | nil => rfl
  | cons y ys ih =>
    rw [insertLast, List.map_cons, insertLast, h]
    split
    · rw [List.map_cons, ih]
    · rfl

private theorem map_insertAll (sorted xs : List α) :
    (insertAll before sorted xs).map f = insertAll before' (sorted.map f) (xs.map f) := by
  have hfold : ∀ last : List α,
      (xs.foldl (fun last x => insertLast before x last) last).map f =
        (xs.map f).foldl (fun last x => insertLast before' x last) (last.map f) := by
    induction xs with
    | nil => intro last; rfl
    | cons x xs ih =>
      intro last
      rw [List.foldl_cons, ih, map_insertLast h, List.map_cons, List.foldl_cons]
  rw [insertAll, insertAll, List.map_reverse, hfold, List.map_reverse]

private theorem map_insertionSort (xs : List α) :
    (insertionSort before xs).map f = insertionSort before' (xs.map f) :=
  map_insertAll h [] xs

private theorem map_mergeForward (xs ys : List α) :
    (mergeForward before xs ys).map f = mergeForward before' (xs.map f) (ys.map f) := by
  apply List.map_merge
  intro x _ y _
  rw [h]

private theorem map_mergeBackward (xs ys : List α) :
    (mergeBackward before xs ys).map f = mergeBackward before' (xs.map f) (ys.map f) := by
  have hmerge : (ys.reverse.merge xs.reverse fun y x => !before y x).map f =
      (ys.reverse.map f).merge (xs.reverse.map f) fun y x => !before' y x := by
    apply List.map_merge
    intro y _ x _
    rw [h]
  rw [mergeBackward, mergeBackward, List.map_reverse, hmerge, List.map_reverse, List.map_reverse]

private theorem map_merge (xs ys : List α) :
    (merge before xs ys).map f = merge before' (xs.map f) (ys.map f) := by
  simp only [merge, List.length_map]
  split
  · exact map_mergeForward h xs ys
  · exact map_mergeBackward h xs ys

private theorem map_mergeFromBothEnds (xs ys : List α) :
    (mergeFromBothEnds before xs ys).map (List.map f) =
      mergeFromBothEnds before' (xs.map f) (ys.map f) := by
  have hfront : ∀ (n : Nat) (us vs : List α),
      takeMerged (fun x y => !before' y x) n (us.map f) (vs.map f) =
        ((takeMerged (fun x y => !before y x) n us vs).1.map f,
          (takeMerged (fun x y => !before y x) n us vs).2) := by
    intro n us vs
    apply map_takeMerged
    intro x y
    rw [h]
  have hback : ∀ (n : Nat) (us vs : List α),
      takeMerged (fun y x => !before' y x) n (us.map f) (vs.map f) =
        ((takeMerged (fun y x => !before y x) n us vs).1.map f,
          (takeMerged (fun y x => !before y x) n us vs).2) := by
    intro n us vs
    apply map_takeMerged
    intro y x
    rw [h]
  simp only [mergeFromBothEnds, List.length_map, ← List.map_reverse, hfront, hback, ← List.map_take,
    ← List.map_drop, ← List.map_append]
  split
  · simp only [Option.map_some, List.map_append]
  · rfl

/-! ## Short lists -/

private theorem map_sortTwo (x y : α) :
    sortTwo before' (f x) (f y) = (f (sortTwo before x y).1, f (sortTwo before x y).2) := by
  simp only [sortTwo, h]
  split <;> rfl

private theorem map_sortFour (p q r s : α) :
    (sortFour before p q r s).map f = sortFour before' (f p) (f q) (f r) (f s) := by
  simp only [sortFour, map_sortTwo h, h]
  split <;> simp only [map_sortTwo h, List.map_cons, List.map_nil]

private theorem map_sortFromFour (xs : List α) :
    (sortFromFour before xs).map f = sortFromFour before' (xs.map f) := by
  cases xs with
  | nil => exact map_insertionSort h []
  | cons p xs =>
    cases xs with
    | nil => exact map_insertionSort h [p]
    | cons q xs =>
      cases xs with
      | nil => exact map_insertionSort h [p, q]
      | cons r xs =>
        cases xs with
        | nil => exact map_insertionSort h [p, q, r]
        | cons s rest =>
          simp only [List.map_cons, sortFromFour, map_insertAll h, map_sortFour h]

private theorem map_sortShort (xs : List α) :
    (sortShort before xs).map (List.map f) = sortShort before' (xs.map f) := by
  have hhalf : ∀ ys : List α,
      (if 8 ≤ xs.length then sortFromFour before' else insertionSort before') (ys.map f) =
        ((if 8 ≤ xs.length then sortFromFour before else insertionSort before) ys).map f := by
    intro ys
    split
    · rw [map_sortFromFour h]
    · rw [map_insertionSort h]
  simp only [sortShort, List.length_map, ← List.map_take, ← List.map_drop, hhalf,
    map_mergeFromBothEnds h]

/-! ## Partitions -/

private theorem map_median (a b c : α) :
    median before' (f a) (f b) (f c) = f (median before a b c) := by
  simp only [median, h]
  split
  · split <;> rfl
  · rfl

private theorem map_estimateMedian (get : Nat → α) (start n : Nat) :
    estimateMedian before' (fun i => f (get i)) start n =
      f (estimateMedian before get start n) := by
  induction n using Nat.strongRecOn generalizing start with
  | ind n ih =>
    rw [estimateMedian, estimateMedian]
    have hsample : ∀ i, (if 8 ≤ n / 8 then estimateMedian before' (fun i => f (get i)) i (n / 8)
        else f (get i)) = f (if 8 ≤ n / 8 then estimateMedian before get i (n / 8) else get i) := by
      intro i
      split
      · apply ih
        omega
      · rfl
    simp only [hsample, map_median h]

private theorem map_pivot (x : α) (xs : List α) :
    pivot before' (f x) (xs.map f) = f (pivot before x xs) := by
  have hget : ∀ i, ((x :: xs).map f).toArray.getD i (f x) = f ((x :: xs).toArray.getD i x) := by
    intro i
    simp only [Array.getD_eq_getD_getElem?, List.getElem?_toArray, List.getElem?_map]
    cases (x :: xs)[i]? <;> rfl
  rw [pivot, pivot, ← map_estimateMedian h, ← List.map_cons]
  simp only [List.size_toArray, List.length_map]
  congr 1
  funext i
  exact hget i

private theorem map_partitionSort {sortRest : List α → Option (List α)}
    {sortRest' : List β → Option (List β)}
    (hrest : ∀ xs, (sortRest xs).map (List.map f) = sortRest' (xs.map f)) (limit : Nat)
    (bound : Option α) (xs : List α) :
    (partitionSort before sortRest limit bound xs).map (List.map f) =
      partitionSort before' sortRest' limit (bound.map f) (xs.map f) := by
  induction limit generalizing bound xs with
  | zero =>
    cases xs with
    | nil => rfl
    | cons x xs =>
      simp only [List.map_cons, partitionSort, List.length_map]
      split
      · exact map_sortShort h (x :: xs)
      · exact hrest (x :: xs)
  | succ limit ih =>
    cases xs with
    | nil => rfl
    | cons x xs =>
      simp only [List.map_cons, partitionSort, List.length_map]
      split
      · exact map_sortShort h (x :: xs)
      · have hlow := map_partition (before · (pivot before x xs)) (before' · (f (pivot before x xs)))
          (fun y => h y _) (x :: xs)
        have hupTo := map_partition (!before (pivot before x xs) ·)
          (!before' (f (pivot before x xs)) ·) (fun y => congrArg not (h _ y)) (x :: xs)
        have hbound : (bound.map f).any (!before' · (f (pivot before x xs))) =
            bound.any (!before · (pivot before x xs)) := by
          cases bound with
          | none => rfl
          | some b => exact congrArg not (h b _)
        simp only [map_pivot h, ← List.map_cons, hlow, hupTo, hbound, List.isEmpty_map]
        split
        · rw [← Option.map_none f, ← ih, Option.map_map, Option.map_map]
          congr 1
          funext above
          exact List.map_append
        · have hhigh := ih (some (pivot before x xs))
            ((x :: xs).partition (before · (pivot before x xs))).2
          rw [Option.map_some] at hhigh
          rw [← ih, ← hhigh]
          generalize partitionSort before sortRest limit bound _ = low
          generalize partitionSort before sortRest limit (some _) _ = high
          cases low <;> cases high <;> simp

/-! ## Runs -/

private theorem map_leadingStretch (xs : List α) :
    leadingStretch before' (xs.map f) = leadingStretch before xs := by
  cases xs with
  | nil => rfl
  | cons x xs =>
    cases xs with
    | nil => rfl
    | cons y rest =>
      have hstretch : stretch (fun new last => before' new last == before y x) (f y) 2 (rest.map f) =
          stretch (fun new last => before new last == before y x) y 2 rest := by
        apply map_stretch
        intro new last
        rw [h]
      simp only [List.map_cons, leadingStretch, h, hstretch]

private theorem map_cut {ρ ρ' : Type} {g : ρ → ρ'} {ofSorted ofChunk : List α → ρ}
    {ofSorted' ofChunk' : List β → ρ'} (hsorted : ∀ xs, g (ofSorted xs) = ofSorted' (xs.map f))
    (hchunk : ∀ xs, g (ofChunk xs) = ofChunk' (xs.map f)) (good chunk n : Nat) (xs : List α) :
    (cut before good chunk ofSorted ofChunk n xs).map g =
      cut before' good chunk ofSorted' ofChunk' n (xs.map f) := by
  induction hlen : xs.length using Nat.strongRecOn generalizing n xs with
  | ind len ih =>
    cases xs with
    | nil =>
      rw [cut, List.map_nil, List.map_nil, cut]
    | cons x xs =>
      have hstretch := map_leadingStretch h (x :: xs)
      have hlater : ∀ k m, (cut before good chunk ofSorted ofChunk m (xs.drop k)).map g =
          cut before' good chunk ofSorted' ofChunk' m ((xs.drop k).map f) := by
        intro k m
        apply ih _ _ m (xs.drop k) rfl
        rw [← hlen, List.length_drop, List.length_cons]
        omega
      rw [List.map_cons] at hstretch
      rw [List.map_cons, cut, cut, hstretch]
      generalize (if good ≤ n then leadingStretch before (x :: xs) else (0, false)) = found
      simp only
      split
      · rw [List.map_cons, hlater, hsorted, List.map_drop, ← List.map_cons, ← List.map_take]
        split
        · rw [List.map_reverse]
        · rfl
      · rw [List.map_cons, hlater, hchunk, List.map_drop, ← List.map_cons, ← List.map_take]

end

section

variable {ρ ρ' : Type} {g : ρ → ρ'} {join : ρ → ρ → Option ρ} {join' : ρ' → ρ' → Option ρ'}
  {size : ρ → Nat} {size' : ρ' → Nat} (hjoin : ∀ a b, (join a b).map g = join' (g a) (g b))

include hjoin

private theorem map_joinDeeper (depth : Nat) (waiting : List (Waiting ρ)) (run : ρ) :
    joinDeeper join' depth (waiting.map fun w => ⟨g w.run, w.depth⟩) (g run) =
      (joinDeeper join depth waiting run).map fun out =>
        (out.1.map fun w => ⟨g w.run, w.depth⟩, g out.2) := by
  induction waiting generalizing run with
  | nil => rfl
  | cons w waiting ih =>
    simp only [List.map_cons, joinDeeper]
    split
    · rw [← hjoin]
      cases join w.run run with
      | none => rfl
      | some joined => exact ih joined
    · rfl

variable (hsize : ∀ a, size' (g a) = size a)

include hsize

private theorem map_joinFrom (n position : Nat) (waiting : List (Waiting ρ)) (last : ρ)
    (runs : List ρ) :
    joinFrom join' size' n position (waiting.map fun w => ⟨g w.run, w.depth⟩) (g last)
      (runs.map g) = (joinFrom join size n position waiting last runs).map g := by
  induction runs generalizing position waiting last with
  | nil =>
    rw [List.map_nil, joinFrom, joinFrom, map_joinDeeper hjoin, Option.map_map, Option.map_map]
    rfl
  | cons run runs ih =>
    rw [List.map_cons, joinFrom, joinFrom]
    simp only [hsize, map_joinDeeper hjoin]
    cases joinDeeper join _ waiting last with
    | none => rfl
    | some out => exact ih _ (⟨out.2, _⟩ :: out.1) run

private theorem map_joinAll (n : Nat) (empty : ρ) (runs : List ρ) :
    joinAll join' size' n (g empty) (runs.map g) = (joinAll join size n empty runs).map g := by
  cases runs with
  | nil => rfl
  | cons run runs =>
    rw [List.map_cons, joinAll, joinAll, hsize]
    exact map_joinFrom hjoin hsize n (size run) [] run runs

end

/-! ## The whole sort -/

private def Part.mapped (f : α → β) (p : Part α) : Part β := ⟨p.items.map f, p.isSorted⟩

private theorem size_mapped (f : α → β) (p : Part α) : (p.mapped f).size = p.size := by
  simp [Part.size, Part.mapped]

section

variable (h : ∀ x y, before' (f x) (f y) = before x y)

include h

private theorem map_mergeRuns (xs : List α) :
    (mergeRuns before xs).map (List.map f) = mergeRuns before' (xs.map f) := by
  have hcut : (cut before (goodLength xs.length) shortLength some (sortShort before) xs.length xs).map
      (Option.map (List.map f)) = cut before' (goodLength xs.length) shortLength some
        (sortShort before') xs.length (xs.map f) := by
    apply map_cut h
    · intro xs
      rfl
    · exact map_sortShort h
  have hruns : ∀ runs : List (Option (List α)), (runs.map (Option.map (List.map f))).mapM id =
      (runs.mapM id).map (List.map (List.map f)) := by
    intro runs
    induction runs with
    | nil => rfl
    | cons run runs ih =>
      rw [List.map_cons, List.mapM_cons, List.mapM_cons, ih]
      cases run with
      | none => rfl
      | some ys => cases runs.mapM id <;> rfl
  simp only [mergeRuns, List.length_map]
  rw [← hcut, hruns]
  cases (cut before (goodLength xs.length) shortLength some (sortShort before) xs.length xs).mapM id with
  | none => rfl
  | some runs =>
    have hjoin : ∀ ys zs : List α, (some (merge before ys zs)).map (List.map f) =
        some (merge before' (ys.map f) (zs.map f)) := fun ys zs => congrArg some (map_merge h ys zs)
    exact (map_joinAll hjoin (fun ys : List α => List.length_map f) xs.length [] runs).symm

private theorem map_toSorted (p : Part α) :
    (p.toSorted before).map (List.map f) = (p.mapped f).toSorted before' := by
  simp only [Part.toSorted, Part.mapped, Part.size, List.length_map]
  split
  · rfl
  · exact map_partitionSort h (map_mergeRuns h) _ none p.items

private theorem map_join (capacity : Nat) (p q : Part α) :
    (p.join before capacity q).map (Part.mapped f) =
      (p.mapped f).join before' capacity (q.mapped f) := by
  have hsorted : ∀ p : Part α, (p.mapped f).isSorted = p.isSorted := fun _ => rfl
  simp only [Part.join, size_mapped, hsorted, ← map_toSorted h]
  split
  · cases p.toSorted before with
    | none => rfl
    | some xs =>
      cases q.toSorted before with
      | none => rfl
      | some ys => exact congrArg (fun zs => some (Part.ofSorted zs)) (map_merge h xs ys)
  · simp only [Option.map_some, Part.ofUnsorted, Part.mapped, List.map_append]

private theorem map_mergeParts (xs : List α) :
    (mergeParts before xs).map (List.map f) = mergeParts before' (xs.map f) := by
  have hcut : (cut before (goodLength xs.length) (goodLength xs.length) Part.ofSorted
      Part.ofUnsorted xs.length xs).map (Part.mapped f) =
      cut before' (goodLength xs.length) (goodLength xs.length) Part.ofSorted Part.ofUnsorted
        xs.length (xs.map f) := by
    apply map_cut h <;>
    · intro xs
      rfl
  have hjoin := map_joinAll (map_join h (capacity xs.length)) (size_mapped f) xs.length
    (.ofSorted []) (cut before (goodLength xs.length) (goodLength xs.length) Part.ofSorted
      Part.ofUnsorted xs.length xs)
  simp only [mergeParts, List.length_map]
  rw [← hcut, show Part.ofSorted ([] : List β) = (Part.ofSorted []).mapped f from rfl, hjoin]
  cases joinAll (Part.join before (capacity xs.length)) Part.size xs.length _ _ with
  | none => rfl
  | some p => exact map_toSorted h p

theorem map_sort (xs : List α) : (sort before xs).map (List.map f) = sort before' (xs.map f) := by
  simp only [sort, List.length_map]
  split
  · exact congrArg some (map_insertionSort h xs)
  · split
    · exact map_mergeRuns h xs
    · exact map_mergeParts h xs

end

end SnapshotSql.StableSort
