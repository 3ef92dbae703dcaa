/-! # Stable sorting -/

namespace SnapshotSql.StableSort

variable {α ρ : Type}

/-! ## Insertion -/

/-- Insert the next element into a list that is sorted from last to first. It moves past the
elements that it precedes strictly. -/
def insertLast (before : α → α → Bool) (x : α) : List α → List α
  | [] => [x]
  | y :: ys => if before x y then y :: insertLast before x ys else x :: y :: ys

def insertAll (before : α → α → Bool) (sorted xs : List α) : List α :=
  (xs.foldl (fun last x => insertLast before x last) sorted.reverse).reverse

def insertionSort (before : α → α → Bool) (xs : List α) : List α := insertAll before [] xs

/-! ## Merging

Of two elements that compare equal the one from the left list comes first. -/

def mergeForward (before : α → α → Bool) (xs ys : List α) : List α :=
  xs.merge ys fun x y => !before y x

def mergeBackward (before : α → α → Bool) (xs ys : List α) : List α :=
  (ys.reverse.merge xs.reverse fun y x => !before y x).reverse

def merge (before : α → α → Bool) (xs ys : List α) : List α :=
  if xs.length ≤ ys.length then mergeForward before xs ys else mergeBackward before xs ys

def takeMerged (fromFirst : α → α → Bool) : Nat → List α → List α → List α × Nat
  | n + 1, x :: xs, y :: ys =>
    if fromFirst x y then
      let (merged, count) := takeMerged fromFirst n xs (y :: ys)
      (x :: merged, count + 1)
    else
      let (merged, count) := takeMerged fromFirst n (x :: xs) ys
      (y :: merged, count)
  | _, _, _ => ([], 0)

/-- Merge two halves, one half of the result from the front and one from the back. The two do not
meet if the elements are in no order, and then there is no result. -/
def mergeFromBothEnds (before : α → α → Bool) (xs ys : List α) : Option (List α) :=
  let half := (xs.length + ys.length) / 2
  let (front, i) := takeMerged (fun x y => !before y x) half xs ys
  let (back, j) := takeMerged (fun y x => !before y x) half ys.reverse xs.reverse
  -- At most one element is left over, if the total is odd.
  let middle := (xs.take (xs.length - (half - j))).drop i ++
    (ys.take (ys.length - j)).drop (half - i)
  if front.length + middle.length + back.length = xs.length + ys.length then
    some (front ++ middle ++ back.reverse)
  else none

/-! ## Short lists -/

def sortTwo (before : α → α → Bool) (x y : α) : α × α := if before y x then (y, x) else (x, y)

def sortFour (before : α → α → Bool) (p q r s : α) : List α :=
  let (a, b) := sortTwo before p q
  let (c, d) := sortTwo before r s
  let (first, last, x, y) := match before c a, before d b with
    | false, false => (a, d, b, c)
    | false, true => (a, b, c, d)
    | true, false => (c, d, a, b)
    | true, true => (c, b, a, d)
  let (second, third) := sortTwo before x y
  [first, second, third, last]

def sortFromFour (before : α → α → Bool) : List α → List α
  | p :: q :: r :: s :: rest => insertAll before (sortFour before p q r s) rest
  | xs => insertionSort before xs

def shortLength : Nat := 32

def sortShort (before : α → α → Bool) (xs : List α) : Option (List α) :=
  let sortHalf := if 8 ≤ xs.length then sortFromFour before else insertionSort before
  let half := xs.length / 2
  mergeFromBothEnds before (sortHalf (xs.take half)) (sortHalf (xs.drop half))

/-! ## Partitions -/

def median (before : α → α → Bool) (a b c : α) : α :=
  if before a b == before a c then if before b c == before a b then b else c else a

/-- An estimate of the median of `n` elements, from samples in three of the eight parts of the
range, each again estimated if its part is large. -/
def estimateMedian (before : α → α → Bool) (get : Nat → α) (start n : Nat) : α :=
  let part := n / 8
  let sample := fun i => if 8 ≤ part then estimateMedian before get i part else get i
  median before (sample start) (sample (start + 4 * part)) (sample (start + 7 * part))
termination_by n

def pivot (before : α → α → Bool) (x : α) (xs : List α) : α :=
  let elements := (x :: xs).toArray
  estimateMedian before (elements.getD · x) 0 elements.size

/-- Sort by partition, in at most `limit` nested steps. Parts that are still long are handed to
`sortRest`. No element of the list precedes `bound`, the pivot of an earlier step. -/
def partitionSort (before : α → α → Bool) (sortRest : List α → Option (List α)) :
    (limit : Nat) → (bound : Option α) → List α → Option (List α)
  | _, _, [] => some []
  | 0, _, x :: xs =>
    if xs.length < shortLength then sortShort before (x :: xs) else sortRest (x :: xs)
  | limit + 1, bound, x :: xs =>
    if xs.length < shortLength then sortShort before (x :: xs)
    else
      let p := pivot before x xs
      let (low, high) := (x :: xs).partition (before · p)
      -- Elements equal to the pivot are set apart as soon as it is met again.
      if bound.any (!before · p) || low.isEmpty then
        let (upTo, above) := (x :: xs).partition (!before p ·)
        (partitionSort before sortRest limit none above).map (upTo ++ ·)
      else do
        let low ← partitionSort before sortRest limit bound low
        let high ← partitionSort before sortRest limit (some p) high
        pure (low ++ high)

/-! ## Runs

A list is cut into stretches that rise or strictly fall already, and chunks of fixed length where
there is none. Neighbours are joined along a nearly balanced tree. -/

def stretch (related : α → α → Bool) (last : α) (count : Nat) : List α → Nat
  | [] => count
  | x :: xs => if related x last then stretch related x (count + 1) xs else count

def leadingStretch (before : α → α → Bool) : List α → Nat × Bool
  | x :: y :: rest =>
    let falls := before y x
    (stretch (fun new last => before new last == falls) y 2 rest, falls)
  | xs => (xs.length, false)

def rootEstimate (n : Nat) : Nat :=
  let shift := (1 + n.log2) / 2
  ((1 <<< shift) + (n >>> shift)) / 2

def goodLength (n : Nat) : Nat := if n ≤ 4096 then min (n - n / 2) 64 else rootEstimate n

def cut (before : α → α → Bool) (good chunk : Nat) (ofSorted ofChunk : List α → ρ) (n : Nat) :
    List α → List ρ
  | [] => []
  | x :: xs =>
    let (count, falls) := if good ≤ n then leadingStretch before (x :: xs) else (0, false)
    if good ≤ count then
      let run := (x :: xs).take count
      ofSorted (if falls then run.reverse else run) ::
        cut before good chunk ofSorted ofChunk (n - count) (xs.drop (count - 1))
    else
      ofChunk ((x :: xs).take chunk) ::
        cut before good chunk ofSorted ofChunk (n - chunk) (xs.drop (chunk - 1))
termination_by xs => xs.length
decreasing_by all_goals rw [List.length_drop, List.length_cons]; omega

structure Waiting (ρ : Type) where
  run : ρ
  depth : Nat

/-- Depth of the joint of two neighbouring runs in the tree over a list of length `n`: the number
of leading binary digits that the middles of both runs have in common. -/
def jointDepth (n start joint stop : Nat) : Nat :=
  let scale := ((1 <<< 62) + n - 1) / n
  63 - (scale * (start + joint) ^^^ scale * (joint + stop)).log2

def joinDeeper (join : ρ → ρ → Option ρ) (depth : Nat) :
    List (Waiting ρ) → ρ → Option (List (Waiting ρ) × ρ)
  | [], run => some ([], run)
  | w :: waiting, run =>
    if depth ≤ w.depth then do
      let joined ← join w.run run
      joinDeeper join depth waiting joined
    else some (w :: waiting, run)

def joinFrom (join : ρ → ρ → Option ρ) (size : ρ → Nat) (n position : Nat)
    (waiting : List (Waiting ρ)) (last : ρ) : List ρ → Option ρ
  | [] => (joinDeeper join 0 waiting last).map (·.2)
  | run :: runs => do
    let stop := position + size run
    let depth := jointDepth n (position - size last) position stop
    let (waiting, joined) ← joinDeeper join depth waiting last
    joinFrom join size n stop (⟨joined, depth⟩ :: waiting) run runs

def joinAll (join : ρ → ρ → Option ρ) (size : ρ → Nat) (n : Nat) (empty : ρ) :
    List ρ → Option ρ
  | [] => some empty
  | run :: runs => joinFrom join size n (size run) [] run runs

/-- Sort by merging runs, where a chunk without a run is sorted at once. -/
def mergeRuns (before : α → α → Bool) (xs : List α) : Option (List α) := do
  let n := xs.length
  let runs ← (cut before (goodLength n) shortLength some (sortShort before) n xs).mapM id
  joinAll (fun xs ys => some (merge before xs ys)) List.length n [] runs

/-! ## Parts that are put off -/

structure Part (α : Type) where
  items : List α
  isSorted : Bool

namespace Part

def ofSorted (xs : List α) : Part α := ⟨xs, true⟩

def ofUnsorted (xs : List α) : Part α := ⟨xs, false⟩

def size (p : Part α) : Nat := p.items.length

/-- The elements in order. An unsorted part is sorted by partition, in at most two steps for each
halving of its length. -/
def toSorted (before : α → α → Bool) (p : Part α) : Option (List α) :=
  if p.isSorted then some p.items
  else partitionSort before (mergeRuns before) (2 * p.size.log2) none p.items

def join (before : α → α → Bool) (capacity : Nat) (p q : Part α) : Option (Part α) :=
  if p.isSorted || q.isSorted || capacity < p.size + q.size then do
    let xs ← p.toSorted before
    let ys ← q.toSorted before
    pure (ofSorted (merge before xs ys))
  else some (ofUnsorted (p.items ++ q.items))

end Part

def capacity (n : Nat) : Nat := max (n - n / 2) (min n 83333)

def mergeParts (before : α → α → Bool) (xs : List α) : Option (List α) := do
  let n := xs.length
  let good := goodLength n
  let parts := cut before good good Part.ofSorted Part.ofUnsorted n xs
  let part ← joinAll (Part.join before (capacity n)) Part.size n (.ofSorted []) parts
  part.toSorted before

/-! ## The whole sort -/

def insertionLength : Nat := 20

/-- Sort by a strict order, where elements that compare equal keep their places. If the relation is no
order on the elements the result depends on the method, and there may be none. -/
def sort (before : α → α → Bool) (xs : List α) : Option (List α) :=
  if xs.length ≤ insertionLength then some (insertionSort before xs)
  else if xs.length ≤ 2 * shortLength then mergeRuns before xs
  else mergeParts before xs

end SnapshotSql.StableSort
