import SnapshotSql.Proofs.Sorted
import SnapshotSql.Session
/-! # Rows as objects -/

namespace SnapshotSql

namespace Json

/-- The element of an array at a position. -/
def element? (i : Nat) : Json → Option Json
  | array elements => elements[i]?
  | _ => none

/-- The value of an object's member of a name. -/
def member? (name : String) : Json → Option Json
  | object members => members.lookup name
  | _ => none

variable {name other : String} {value : Json} {members : List (String × Json)}

theorem lookup_setMember : (setMember name value members).lookup other =
    if other = name then some value else members.lookup other := by
  by_cases hname : other = name
  · subst hname
    rw [if_pos rfl]
    induction members with
    | nil => exact List.lookup_cons_self
    | cons member rest ih =>
      rw [setMember]
      split
      · exact List.lookup_cons_self
      · split
        · exact List.lookup_cons_self
        · rename_i hne
          rw [List.lookup_cons, beq_eq_false_iff_ne.mpr hne]
          exact ih
  · have hother : (other == name) = false := beq_eq_false_iff_ne.mpr hname
    rw [if_neg hname]
    induction members with
    | nil => simp only [setMember, List.lookup_cons, hother]
    | cons member rest ih =>
      rw [setMember]
      split
      · rw [List.lookup_cons, hother]
      · split
        · rename_i heq
          rw [List.lookup_cons, List.lookup_cons, ← heq, hother]
        · rw [List.lookup_cons, List.lookup_cons, ih]

theorem names_setMember :
    (setMember name value members).map (·.1) = Sorted.insert name (members.map (·.1)) := by
  induction members with
  | nil => rfl
  | cons member rest ih =>
    rw [setMember, List.map_cons, Sorted.insert]
    by_cases hlt : name < member.1
    · rw [if_pos hlt, if_pos hlt]
      rfl
    · rw [if_neg hlt, if_neg hlt]
      by_cases heq : name = member.1
      · subst heq
        rw [if_pos rfl, if_neg hlt]
        rfl
      · have hgt : member.1 < name := Sorted.gt_of_not_lt_of_ne hlt heq
        rw [if_neg heq, if_pos hgt, List.map_cons, ih]

theorem lookup_foldl_setMember (cells : List (String × Value)) :
    (cells.foldl (fun members (name, v) => setMember name v.toJson members) members).lookup name =
      ((cells.reverse.lookup name).map Value.toJson).or (members.lookup name) := by
  induction cells generalizing members with
  | nil => rfl
  | cons cell rest ih =>
    rw [List.foldl_cons, ih, List.reverse_cons, List.lookup_append, lookup_setMember, List.lookup_cons]
    cases rest.reverse.lookup name with
    | some v => rfl
    | none =>
      by_cases hname : name = cell.1
      · simp [hname]
      · simp [hname, beq_eq_false_iff_ne.mpr hname]

theorem pairwise_foldl_setMember (cells : List (String × Value))
    (h : (members.map (·.1)).Pairwise (· < ·)) :
    ((cells.foldl (fun members (name, v) => setMember name v.toJson members) members).map
      (·.1)).Pairwise (· < ·) := by
  induction cells generalizing members with
  | nil => exact h
  | cons cell rest ih =>
    apply ih
    rw [names_setMember]
    exact Sorted.pairwise_insert cell.1 h

end Json

namespace ResultSet

variable {rs : ResultSet} {i : Nat} {column : String}

/-- The cell of a row under the last column of a name that the row reaches. -/
def lastCell? (rs : ResultSet) (row : Nat) (column : String) : Option Value := do
  let cells ← rs.rows[row]?
  (rs.columns.zip cells).reverse.lookup column

private theorem lookup_zip (columns : List String) (cells : List Value) :
    (columns.zip cells).lookup column =
      (columns.findIdx? (· == column)).bind fun i => cells[i]? := by
  induction columns generalizing cells with
  | nil => rfl
  | cons name columns ih =>
    cases cells with
    | nil => simp
    | cons v cells =>
      rw [List.zip_cons_cons, List.lookup_cons, List.findIdx?_cons]
      by_cases hname : column = name
      · simp [hname]
      · have hne : name ≠ column := fun h => hname h.symm
        simp [beq_eq_false_iff_ne.mpr hname, hne, ih, Option.bind_map]

private theorem names_zip (columns : List String) (cells : List Value) :
    (columns.zip cells).map (·.1) = columns.take cells.length := by
  induction columns generalizing cells with
  | nil => simp
  | cons name columns ih =>
    cases cells with
    | nil => rfl
    | cons v cells => simp [ih]

private theorem isSome_lookup_reverse (entries : List (String × Value)) :
    (entries.reverse.lookup column).isSome = (entries.lookup column).isSome := by
  rw [Bool.eq_iff_iff, List.lookup_isSome_iff, List.lookup_isSome_iff]
  simp only [List.mem_reverse]

private theorem lookup_reverse {entries : List (String × Value)}
    (h : (entries.map (·.1)).count column ≤ 1) :
    entries.reverse.lookup column = entries.lookup column := by
  induction entries with
  | nil => rfl
  | cons entry rest ih =>
    rw [List.map_cons, List.count_cons] at h
    rw [List.reverse_cons, List.lookup_append, List.lookup_cons, List.lookup_cons]
    by_cases hname : column = entry.1
    · have hcount : (rest.map (·.1)).count column = 0 := by
        simp only [hname, beq_self_eq_true, if_true] at h ⊢
        omega
      have hnone : rest.reverse.lookup column = none := by
        rw [List.lookup_eq_none_iff]
        intro other hother
        have hmem : other.1 ∈ rest.map (·.1) := List.mem_map_of_mem (List.mem_reverse.mp hother)
        rw [bne_iff_ne]
        intro he
        exact List.count_eq_zero.mp hcount (he ▸ hmem)
      simp [hname ▸ hnone, hname]
    · simp only [beq_eq_false_iff_ne.mpr hname, List.lookup_nil, Option.or_none]
      exact ih (by omega)

/-- The first column of a name is the first among those that the row reaches, if it reaches any. -/
theorem cell?_eq_lookup (rs : ResultSet) (i : Nat) (column : String) :
    rs.cell? i column = rs.rows[i]?.bind fun cells => (rs.columns.zip cells).lookup column := by
  simp only [lookup_zip, cell?]
  cases rs.columns.findIdx? (· == column) <;> cases rs.rows[i]? <;> rfl

theorem element?_toJson (rs : ResultSet) (i : Nat) :
    rs.toJson.element? i = rs.rows[i]?.map (rowJson rs.columns) := List.getElem?_map

private theorem member?_rowJson (columns : List String) (cells : List Value) :
    (rowJson columns cells).member? column =
      ((columns.zip cells).reverse.lookup column).map Value.toJson := by
  rw [rowJson, Json.member?, Json.lookup_foldl_setMember, List.lookup_nil, Option.or_none]

theorem member?_toJson (rs : ResultSet) (i : Nat) (column : String) :
    (rs.toJson.element? i).bind (·.member? column) = (rs.lastCell? i column).map Value.toJson := by
  rw [element?_toJson, lastCell?]
  cases rs.rows[i]? with
  | none => rfl
  | some cells => exact member?_rowJson rs.columns cells

/-- Rows are rendered as objects whose members have different names. An object has a member of a name just
if its row has a cell of this name, and it is the last such cell; so it is the one that looking up the name
finds, unless the row reaches a second column of the name. -/
theorem toJson_cells (rs : ResultSet) (i : Nat) (column : String) :
    (∀ json, rs.toJson.element? i = some json →
      ∃ members, json = .object members ∧ (members.map (·.1)).Pairwise (· < ·)) ∧
    ((rs.toJson.element? i).isSome ↔ i < rs.rows.length) ∧
    ((rs.toJson.element? i).bind (·.member? column)).isSome = (rs.cell? i column).isSome ∧
    (rs.toJson.element? i).bind (·.member? column) = (rs.lastCell? i column).map Value.toJson ∧
    ((∀ cells, rs.rows[i]? = some cells → (rs.columns.take cells.length).count column ≤ 1) →
      (rs.toJson.element? i).bind (·.member? column) = (rs.cell? i column).map Value.toJson) := by
  refine ⟨?_, ?_, ?_, member?_toJson rs i column, ?_⟩
  · intro json hjson
    rw [element?_toJson, Option.map_eq_some_iff] at hjson
    obtain ⟨cells, -, rfl⟩ := hjson
    exact ⟨_, rfl, Json.pairwise_foldl_setMember _ .nil⟩
  · simp [element?_toJson]
  · rw [member?_toJson, Option.isSome_map, cell?_eq_lookup, lastCell?]
    cases rs.rows[i]? with
    | none => rfl
    | some cells => exact isSome_lookup_reverse _
  · intro honce
    rw [member?_toJson, cell?_eq_lookup, lastCell?]
    cases hrow : rs.rows[i]? with
    | none => rfl
    | some cells =>
      have hcount := honce cells hrow
      rw [← names_zip] at hcount
      exact congrArg (Option.map Value.toJson) (lookup_reverse hcount)

def shortRow : ResultSet := { columns := ["a", "b", "a"], rows := [[.integer 1, .integer 2]] }

theorem toJson_cells_shortRow :
    shortRow.cell? 0 "a" = some (.integer 1) ∧
      (shortRow.toJson.element? 0).bind (·.member? "a") = some (.integer 1) := by
  obtain ⟨-, -, -, -, hcell⟩ := toJson_cells shortRow 0 "a"
  refine ⟨rfl, hcell ?_⟩
  rintro cells ⟨⟩
  decide

/-- A name stands for two columns, and the row reaches both. -/
def repeatedName : ResultSet := { columns := ["a", "a"], rows := [[.integer 1, .integer 2]] }

theorem toJson_repeatedName :
    repeatedName.cell? 0 "a" = some (.integer 1) ∧
      (repeatedName.toJson.element? 0).bind (·.member? "a") = some (.integer 2) ∧
      (repeatedName.toJson.element? 0).bind (·.member? "a") ≠
        (repeatedName.cell? 0 "a").map Value.toJson := by
  refine ⟨rfl, rfl, ?_⟩
  intro h
  have hvalues : Json.integer 2 = Json.integer 1 := Option.some.inj h
  injection hvalues with hnumbers
  exact absurd hnumbers (by decide)

end ResultSet

end SnapshotSql
