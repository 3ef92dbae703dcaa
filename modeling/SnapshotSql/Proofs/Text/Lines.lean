import Mathlib.Data.List.Basic
import SnapshotSql.Value
/-! # Lines of texts -/

namespace SnapshotSql

namespace Text

/-- The lines of a text, which its line breaks keep apart. -/
def lines (t : String) : List String := (t.split '\n').toList.map (·.copy)

def breaks (t : String) : Nat := t.toList.count '\n'

/-- How many line breaks some texts have. -/
def breaksIn : List String → Nat
  | [] => 0
  | t :: ts => breaks t + breaksIn ts

variable {t : String} {ts : List String}

/-! ## Line breaks -/

theorem breaks_eq_zero : breaks t = 0 ↔ '\n' ∉ t.toList := List.count_eq_zero

@[simp] theorem breaks_append (t t' : String) : breaks (t ++ t') = breaks t + breaks t' := by
  rw [breaks, String.toList_append, List.count_append, breaks, breaks]

@[simp] theorem breaksIn_nil : breaksIn [] = 0 := rfl

@[simp] theorem breaksIn_cons (t : String) (ts : List String) :
    breaksIn (t :: ts) = breaks t + breaksIn ts := rfl

@[simp] theorem breaksIn_append (ts ts' : List String) :
    breaksIn (ts ++ ts') = breaksIn ts + breaksIn ts' := by
  induction ts with
  | nil => exact (Nat.zero_add _).symm
  | cons t ts ih => rw [List.cons_append, breaksIn_cons, breaksIn_cons, ih, Nat.add_assoc]

theorem breaksIn_eq_zero : breaksIn ts = 0 ↔ ∀ t ∈ ts, '\n' ∉ t.toList := by
  induction ts with
  | nil => exact iff_of_true rfl nofun
  | cons t ts ih =>
    rw [breaksIn_cons, Nat.add_eq_zero_iff, breaks_eq_zero, ih, List.forall_mem_cons]

/-- Texts that are made of others by a rule have the line breaks of these, if the rule adds none. -/
theorem breaksIn_map {α : Type} {f : α → String} {parts : α → List String} (xs : List α)
    (h : ∀ x, breaks (f x) = breaksIn (parts x)) :
    breaksIn (xs.map f) = breaksIn (xs.flatMap parts) := by
  induction xs with
  | nil => rfl
  | cons x xs ih => rw [List.map_cons, breaksIn_cons, List.flatMap_cons, breaksIn_append, h, ih]

theorem breaks_intercalate {separator : String} (h : breaks separator = 0) (ts : List String) :
    breaks (String.intercalate separator ts) = breaksIn ts := by
  induction ts with
  | nil => rfl
  | cons t ts ih =>
    cases ts with
    | nil => rw [String.intercalate_singleton, breaksIn_cons, breaksIn_nil, Nat.add_zero]
    | cons t' ts =>
      rw [String.intercalate_cons_cons, breaks_append, breaks_append, ih, h, Nat.add_zero,
        breaksIn_cons t]

theorem breaks_join (ts : List String) : breaks (String.join ts) = breaksIn ts := by
  induction ts with
  | nil => rfl
  | cons t ts ih => rw [String.join_cons, breaks_append, ih, breaksIn_cons]

/-! ## Lines -/

theorem lines_eq (t : String) : lines t = (t.toList.splitOn '\n').map String.ofList :=
  String.toList_split_char

private theorem lines_append_break (t t' : String) :
    lines (t ++ "\n" ++ t') = lines t ++ lines t' := by
  have hlist : (t ++ "\n" ++ t').toList = t.toList ++ '\n' :: t'.toList := by simp
  rw [lines_eq, hlist, List.splitOn_append_cons_self, List.map_append, lines_eq, lines_eq]

theorem lines_intercalate (h : ts ≠ []) :
    lines (String.intercalate "\n" ts) = ts.flatMap lines := by
  induction ts with
  | nil => exact absurd rfl h
  | cons t ts ih =>
    cases ts with
    | nil => rw [String.intercalate_singleton, List.flatMap_singleton]
    | cons t' ts =>
      rw [String.intercalate_cons_cons, lines_append_break, ih (List.cons_ne_nil _ _),
        List.flatMap_cons (x := t)]

theorem length_lines (t : String) : (lines t).length = breaks t + 1 := by
  have hlist : ∀ cs : List Char, (cs.splitOn '\n').length = cs.count '\n' + 1 := by
    intro cs
    induction cs with
    | nil => rfl
    | cons c cs ih =>
      rw [List.splitOn_cons_eq_if_modifyHead, List.count_cons]
      split
      · rw [List.length_cons, ih]
      · rw [List.length_modifyHead, ih, Nat.add_zero]
  rw [lines_eq, List.length_map, hlist, breaks]

theorem lines_of_breaks (h : breaks t = 0) : lines t = [t] := by
  rw [lines_eq, List.splitOn_eq_singleton (breaks_eq_zero.mp h), List.map_singleton, String.ofList_toList]

theorem length_flatMap_lines (ts : List String) :
    (ts.flatMap lines).length = ts.length + breaksIn ts := by
  induction ts with
  | nil => rfl
  | cons t ts ih =>
    rw [List.flatMap_cons, List.length_append, length_lines, ih, List.length_cons, breaksIn_cons]
    omega

theorem flatMap_lines_eq_self : ts.flatMap lines = ts ↔ breaksIn ts = 0 := by
  constructor
  · intro h
    have hlength := length_flatMap_lines ts
    rw [h] at hlength
    omega
  · intro h
    induction ts with
    | nil => rfl
    | cons t ts ih =>
      obtain ⟨ht, hts⟩ := Nat.add_eq_zero_iff.mp h
      rw [List.flatMap_cons, lines_of_breaks ht, ih hts, List.singleton_append]

end Text

open Text

/-! ## Numbers -/

private theorem breaks_digits {cs : List Char} (h : ∀ c ∈ cs, c.isDigit = true) :
    breaks (String.ofList cs) = 0 := by
  rw [breaks_eq_zero, String.toList_ofList]
  intro hmem
  exact absurd (h '\n' hmem) (by decide)

theorem breaks_repr (n : Nat) : breaks n.repr = 0 :=
  breaks_digits fun _ => Nat.isDigit_of_mem_toDigits (by decide) (by decide)

theorem Integer.breaks_render (n : Int64) : breaks (render n) = 0 := by
  show breaks n.toInt.repr = 0
  cases n.toInt with
  | ofNat m => exact breaks_repr m
  | negSucc m =>
    show breaks ("-" ++ (m + 1).repr) = 0
    rw [breaks_append, breaks_repr]
    rfl

namespace FloatLayout

private theorem breaks_zeros (n : Nat) : breaks (String.ofList (List.replicate n '0')) = 0 :=
  breaks_digits fun _ hc => List.eq_of_mem_replicate hc ▸ rfl

private theorem breaks_positionalText (layout : FloatLayout) (d : Decimal) :
    breaks (layout.positionalText d) = 0 := by
  have hdigits : ∀ c ∈ d.digits, c.isDigit = true :=
    fun _ => Nat.isDigit_of_mem_toDigits (by decide) (by decide)
  have hall := breaks_digits hdigits
  obtain ⟨significand, exponent⟩ := d
  cases exponent with
  | ofNat e =>
    show breaks (String.ofList _ ++ String.ofList (List.replicate e '0') ++
      if layout.point then ".0" else "") = 0
    rw [breaks_append, breaks_append, hall, breaks_zeros]
    split <;> rfl
  | negSucc e =>
    rw [positionalText]
    dsimp only
    split
    · rw [breaks_append, breaks_append, breaks_digits fun c hc => hdigits c (List.mem_of_mem_take hc),
        breaks_digits fun c hc => hdigits c (List.mem_of_mem_drop hc)]
      rfl
    · show breaks ("0." ++ String.ofList (List.replicate _ '0') ++ String.ofList _) = 0
      rw [breaks_append, breaks_append, hall, breaks_zeros]
      rfl

theorem breaks_render_sql (x : Double) : breaks (sql.render x) = 0 := by
  rw [render]
  split
  · rfl
  · split
    · split <;> rfl
    · have hmagnitude : breaks (sql.magnitudeText x.magnitude) = 0 := breaks_positionalText sql _
      rw [breaks_append, hmagnitude]
      split <;> rfl

end FloatLayout

end SnapshotSql
