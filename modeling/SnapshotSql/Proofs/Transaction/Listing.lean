import SnapshotSql.Proofs.Query.Layout
import SnapshotSql.Proofs.Sorted
import SnapshotSql.Proofs.Transaction.Stored
/-! # Listed tables -/

namespace SnapshotSql

namespace TableSchema

structure Proper (s : TableSchema) : Prop where
  nonempty : s.columns ≠ []
  distinct : (s.columns.map (·.name)).Nodup

variable {s : TableSchema}

theorem firstRepeated_eq_none {seen names : List String} :
    firstRepeated seen names = none ↔ names.Nodup ∧ ∀ name ∈ names, name ∉ seen := by
  induction names generalizing seen with
  | nil => simp [firstRepeated]
  | cons name rest ih =>
    by_cases hseen : name ∈ seen
    · simp [firstRepeated, hseen]
    · have hcontains : seen.contains name = false := by simpa using hseen
      rw [firstRepeated, hcontains, if_neg (by decide), ih]
      simp only [List.nodup_cons, List.mem_cons, not_or, forall_eq_or_imp, hseen, not_false_eq_true,
        true_and]
      constructor
      · intro ⟨hnodup, hrest⟩
        exact ⟨⟨fun hname => (hrest name hname).1 rfl, hnodup⟩, fun other ho => (hrest other ho).2⟩
      · intro ⟨⟨hname, hnodup⟩, hrest⟩
        exact ⟨hnodup, fun other ho => ⟨fun he => hname (he ▸ ho), hrest other ho⟩⟩

theorem fault?_eq_none : s.fault? = none ↔ s.name ≠ "" ∧ s.Proper := by
  have hname : s.name.isEmpty = true ↔ s.name = "" := String.isEmpty_iff
  by_cases hempty : s.name = ""
  · simp [fault?, hempty]
  · have hempty' : s.name.isEmpty = false := by
      rw [← Bool.not_eq_true, hname]
      exact hempty
    by_cases hcolumns : s.columns = []
    · constructor
      · intro h
        simp [fault?, hempty', hcolumns] at h
      · intro h
        exact absurd hcolumns h.2.nonempty
    · have hfault : s.fault? = none ↔ (s.columns.map (·.name)).Nodup := by
        simp [fault?, hempty', hcolumns, firstRepeated_eq_none]
      rw [hfault]
      exact ⟨fun hnodup => ⟨hempty, hcolumns, hnodup⟩, fun h => h.2.distinct⟩

theorem create_eq_ok {name : String} {columns : List Column} :
    create name columns = .ok s ↔ s = ⟨name, columns⟩ ∧ s.name ≠ "" ∧ s.Proper := by
  rw [← fault?_eq_none, create]
  cases hfault : fault? ⟨name, columns⟩ with
  | some e =>
    simp only [reduceCtorEq, false_iff, not_and]
    intro hs
    rw [hs, hfault]
    exact Option.some_ne_none e
  | none =>
    simp only [Except.ok.injEq]
    constructor
    · intro hs
      rw [← hs]
      exact ⟨rfl, hfault⟩
    · intro h
      exact h.1.symm

end TableSchema

namespace Catalog

variable {c c' : Catalog} {name : String} {id : TableId} {entries : List (String × TableId)}

/-! ## Entries -/

theorem insertEntry_perm (name : String) (id : TableId) (entries : List (String × TableId)) :
    (insertEntry name id entries).Perm ((name, id) :: entries) := by
  induction entries with
  | nil => exact .refl _
  | cons entry rest ih =>
    rw [insertEntry]
    split
    · exact .refl _
    · exact (ih.cons entry).trans (.swap (name, id) entry rest)

theorem names_insertEntry (h : name ∉ entries.map (·.1)) :
    (insertEntry name id entries).map (·.1) = Sorted.insert name (entries.map (·.1)) := by
  induction entries with
  | nil => rfl
  | cons entry rest ih =>
    obtain ⟨hne, hrest⟩ : name ≠ entry.1 ∧ name ∉ rest.map (·.1) := by simpa using h
    rw [insertEntry, List.map_cons, Sorted.insert]
    by_cases hlt : name < entry.1
    · rw [if_pos hlt, if_pos hlt]
      rfl
    · have hgt : entry.1 < name := Sorted.gt_of_not_lt_of_ne hlt hne
      rw [if_neg hlt, if_neg hlt, if_pos hgt, List.map_cons, ih hrest]

theorem perm_cons_filter {old : String} (hdistinct : (entries.map (·.1)).Nodup)
    (hold : (old, id) ∈ entries) :
    entries.Perm ((old, id) :: entries.filter (·.1 != old)) := by
  have hfilter : entries.filter (·.1 != old) = entries.erase (old, id) := by
    rw [(hdistinct.of_map).erase_eq_filter]
    apply List.filter_congr
    intro entry hentry
    have hiff : entry.1 = old ↔ entry = (old, id) := by
      constructor
      · intro hname
        exact List.inj_on_of_nodup_map hdistinct hentry hold hname
      · intro he
        rw [he]
    simp only [bne, beq_eq_decide, hiff]
  rw [hfilter]
  exact List.perm_cons_erase hold

theorem find?_eq_none : c.find? name = none ↔ name ∉ c.names := by
  simp only [find?, names, List.lookup_eq_none_iff, bne_iff_ne, List.mem_map, not_exists, not_and]
  constructor
  · intro h entry hentry he
    exact h entry hentry he.symm
  · intro h entry hentry he
    exact h entry hentry he.symm

theorem mem_of_find? (h : c.find? name = some id) : (name, id) ∈ c.entries := by
  obtain ⟨before, rest, hentries, -⟩ := List.lookup_eq_some_iff.mp h
  rw [hentries]
  exact List.mem_append_right before List.mem_cons_self

/-! ## The list of tables -/

/-- The catalog lists its tables by name: each of them once, under its own name, and all with proper
columns. -/
structure Orderly (c : Catalog) : Prop where
  sorted : c.names.Pairwise (· < ·)
  named : ∀ entry ∈ c.entries, c.tableName entry.2 = entry.1
  listed : (c.entries.map (·.2.index)).Perm (List.range c.tables.size)
  proper : ∀ id, id.index < c.tables.size → (c.table id).schema.Proper

theorem Orderly.distinct (h : c.Orderly) : (c.entries.map (·.1)).Nodup := h.sorted.nodup

theorem Orderly.mem_entries (h : c.Orderly) :
    (name, id) ∈ c.entries ↔ id.index < c.tables.size ∧ c.tableName id = name := by
  constructor
  · intro hmem
    refine ⟨?_, h.named _ hmem⟩
    exact List.mem_range.mp (h.listed.mem_iff.mp (List.mem_map_of_mem hmem))
  · intro ⟨hsize, hname⟩
    obtain ⟨entry, hentry, hindex⟩ := List.mem_map.mp (h.listed.mem_iff.mpr (List.mem_range.mpr hsize))
    have hid : entry.2 = id := congrArg TableId.mk hindex
    have hentryName : entry.1 = name := by rw [← h.named entry hentry, hid, hname]
    rw [← hid, ← hentryName]
    exact hentry

theorem Orderly.find?_eq_some (h : c.Orderly) :
    c.find? name = some id ↔ id.index < c.tables.size ∧ c.tableName id = name := by
  rw [← h.mem_entries]
  constructor
  · exact mem_of_find?
  · intro hmem
    cases hfind : c.find? name with
    | none => exact absurd (List.mem_map_of_mem hmem) (find?_eq_none.mp hfind)
    | some other =>
      have hsame := List.inj_on_of_nodup_map h.distinct (mem_of_find? hfind) hmem rfl
      exact congrArg (fun entry => some entry.2) hsame

theorem orderly_empty : ({} : Catalog).Orderly where
  sorted := .nil
  named := nofun
  listed := .refl _
  proper _ h := absurd h (Nat.not_lt_zero _)

theorem orderly_create {columns : List Column} (h : c.Orderly)
    (hcreate : c.create name columns = .ok (id, c')) : c'.Orderly := by
  obtain ⟨hfree, schema, hschema, -, rfl⟩ := create_eq_ok hcreate
  obtain ⟨rfl, -, hproper⟩ := TableSchema.create_eq_ok.mp hschema
  have hperm := insertEntry_perm name ⟨c.tables.size⟩ c.entries
  refine ⟨?_, ?_, ?_, ?_⟩
  · rw [names, names_insertEntry (find?_eq_none.mp hfree)]
    exact Sorted.pairwise_insert name h.sorted
  · intro entry hentry
    rcases List.mem_cons.mp (hperm.mem_iff.mp hentry) with rfl | hold
    · exact congrArg Table.name (c.table_adopt_self ⟨name, columns⟩)
    · have hsize := (h.mem_entries.mp hold).1
      rw [← h.named entry hold]
      exact congrArg Table.name (table_adopt_of_ne _ (Nat.ne_of_lt hsize))
  · rw [size_adopt, List.range_succ]
    exact (hperm.map _).trans ((h.listed.cons _).trans (List.perm_append_singleton ..).symm)
  · intro other hother
    change ((c.adopt _).2.table other).schema.Proper
    by_cases hnew : other.index = c.tables.size
    · obtain rfl : other = ⟨c.tables.size⟩ := congrArg TableId.mk hnew
      rw [table_adopt_self]
      exact hproper
    · rw [table_adopt_of_ne _ hnew]
      rw [size_adopt] at hother
      exact h.proper other (by omega)

theorem orderly_rename {old new : String} (h : c.Orderly) (hrename : c.rename old new = .ok c') :
    c'.Orderly := by
  obtain ⟨hfree, id, hold, rfl⟩ := rename_eq_ok hrename
  have hmem := mem_of_find? hold
  obtain ⟨hsize, hname⟩ := h.mem_entries.mp hmem
  have hothers := perm_cons_filter h.distinct hmem
  have hperm := insertEntry_perm new id (c.entries.filter (·.1 != old))
  have hsublist : ((c.entries.filter (·.1 != old)).map (·.1)).Sublist c.names :=
    List.filter_sublist.map _
  refine ⟨?_, ?_, ?_, ?_⟩
  · rw [names, names_insertEntry fun hnew => find?_eq_none.mp hfree (hsublist.subset hnew)]
    exact Sorted.pairwise_insert new (h.sorted.sublist hsublist)
  · intro entry hentry
    rcases List.mem_cons.mp (hperm.mem_iff.mp hentry) with rfl | hentry
    · exact congrArg Table.name (table_modify_self hsize)
    · obtain ⟨hentry, hne⟩ := List.mem_filter.mp hentry
      have hother : entry.2 ≠ id := by
        intro he
        rw [← h.named entry hentry, he, hname] at hne
        simp at hne
      rw [← h.named entry hentry]
      exact congrArg Table.name (table_modify_of_ne hother)
  · -- The entry that is dropped and the one that is added have the same handle.
    rw [size_modify]
    exact (hperm.map _).trans ((hothers.map _).symm.trans h.listed)
  · intro other hother
    rw [size_modify] at hother
    have hproper := h.proper other hother
    change ((c.modify id _).table other).schema.Proper
    by_cases hid : other = id
    · subst hid
      rw [table_modify_self hother]
      exact ⟨hproper.nonempty, hproper.distinct⟩
    · rwa [table_modify_of_ne hid]

/-! ## Steps -/

/-- The catalogs have tables of the same schemas, listed alike. -/
structure SameListing (c c' : Catalog) : Prop where
  entries : c'.entries = c.entries
  size : c'.tables.size = c.tables.size
  layout : c.SameLayout c'

theorem SameListing.refl (c : Catalog) : c.SameListing c := ⟨rfl, rfl, .refl c⟩

theorem SameListing.trans {c'' : Catalog} (h : c.SameListing c') (h' : c'.SameListing c'') :
    c.SameListing c'' :=
  ⟨h'.entries.trans h.entries, h'.size.trans h.size, h.layout.trans h'.layout⟩

theorem orderly_sameListing (h : c.Orderly) (hsame : c.SameListing c') : c'.Orderly where
  sorted := by
    rw [names, hsame.entries]
    exact h.sorted
  named entry hentry := by
    rw [hsame.entries] at hentry
    rw [← tableName_congr hsame.layout]
    exact h.named entry hentry
  listed := by
    rw [hsame.entries, hsame.size]
    exact h.listed
  proper id hid := by
    rw [hsame.size] at hid
    rw [← hsame.layout id]
    exact h.proper id hid

/-- What becomes of a catalog in one step: nothing that matters to its list, or a table is created, or
one is renamed to `new?`. -/
inductive Relists (new? : Option String) (c : Catalog) : Catalog → Prop
  | same {c' : Catalog} (h : c.SameListing c') : Relists new? c c'
  | created {c' : Catalog} {name : String} {columns : List Column} {id : TableId}
      (h : c.create name columns = .ok (id, c')) : Relists new? c c'
  | renamed {c' : Catalog} {old new : String} (hnew : new? = some new)
      (h : c.rename old new = .ok c') : Relists new? c c'

theorem orderly_relists {new? : Option String} (h : c.Orderly) (hstep : c.Relists new? c') :
    c'.Orderly := by
  cases hstep with
  | same hsame => exact orderly_sameListing h hsame
  | created hcreate => exact orderly_create h hcreate
  | renamed _ hrename => exact orderly_rename h hrename

theorem named_relists {new? : Option String} (h : "" ∉ c.names) (hnew : new? ≠ some "")
    (hstep : c.Relists new? c') : "" ∉ c'.names := by
  cases hstep with
  | same hsame =>
    rw [names, hsame.entries]
    exact h
  | @created name columns id hcreate =>
    obtain ⟨-, schema, hschema, -, rfl⟩ := create_eq_ok hcreate
    obtain ⟨rfl, hname, -⟩ := TableSchema.create_eq_ok.mp hschema
    intro hmem
    rcases List.mem_cons.mp (((insertEntry_perm ..).map _).mem_iff.mp hmem) with hempty | hold
    · exact hname hempty.symm
    · exact h hold
  | @renamed old new hrenamed hrename =>
    obtain ⟨-, id, -, rfl⟩ := rename_eq_ok hrename
    intro hmem
    rcases List.mem_cons.mp (((insertEntry_perm ..).map _).mem_iff.mp hmem) with hempty | hold
    · exact hnew (hrenamed.trans (congrArg some hempty.symm))
    · exact h ((List.filter_sublist.map _).subset hold)

end Catalog

namespace TxOp

variable {op : TxOp} {db : Database}

/-- The name that an operation gives to a table that there is. -/
def newName? : TxOp → Option String
  | renameTable _ new => some new
  | _ => none

theorem sameListing_perform (h : op.arranges = false) (db : Database) :
    db.catalog.SameListing (op.perform db).2.catalog := by
  have hled := leadsTo_perform op db
  generalize (op.perform db).2 = db' at hled
  cases hled with
  | same => exact .refl _
  | begin isolation => exact .refl _
  | layout _ harranges =>
    rw [h] at harranges
    cases harranges
  | @work t _ _ _ hw =>
    rw [← db.begun_catalog (t := t)]
    exact ⟨Database.entries_writes hw, Database.size_writes hw,
      fun id => (Database.schema_writes hw id).symm⟩
  | ended =>
    rw [Database.ended_catalog]
    exact .refl _

/-- An operation relists tables only by creating or renaming them, as long as no table is kept unlisted. -/
theorem relists_perform (h : ∀ schema, op ≠ .keepTable schema) (db : Database) :
    db.catalog.Relists op.newName? (op.perform db).2.catalog := by
  cases op with
  | createTable name columns =>
    have hperform : (perform (.createTable name columns) db).2 =
        (db.relayout ((db.catalog.create name columns).toOption.map (·.2))).2 := rfl
    rw [hperform]
    cases hcreate : db.catalog.create name columns with
    | error e => exact .same (.refl _)
    | ok r => exact .created hcreate
  | renameTable old new =>
    have hperform : (perform (.renameTable old new) db).2 =
        (db.relayout (db.catalog.rename old new).toOption).2 := rfl
    rw [hperform]
    cases hrename : db.catalog.rename old new with
    | error e => exact .same (.refl _)
    | ok c => exact .renamed rfl hrename
  | keepTable schema => exact absurd rfl (h schema)
  | _ => exact .same (sameListing_perform rfl db)

theorem perform_refused (h : op.arranges = true) (hrefused : (op.perform db).1 = false) :
    (op.perform db).2 = db := by
  have hrelayout : ∀ c, (db.relayout c).1 = false → (db.relayout c).2 = db := by
    intro c hc
    cases c with
    | none => rfl
    | some c => cases hc
  cases op <;> cases h <;> exact hrelayout _ hrefused

theorem perform_congr {db' : Database} (h : op.arranges = true) (hc : db'.catalog = db.catalog) :
    (op.perform db').1 = (op.perform db).1 ∧
      (op.perform db').2.catalog = (op.perform db).2.catalog := by
  have hrelayout : ∀ c, (db'.relayout c).1 = (db.relayout c).1 ∧
      (db'.relayout c).2.catalog = (db.relayout c).2.catalog := by
    intro c
    cases c with
    | none => exact ⟨rfl, hc⟩
    | some c => exact ⟨rfl, rfl⟩
  have heffect : op.perform db = op.effect db ∧ op.perform db' = op.effect db' := by
    simp only [perform, actor?_of_arranges h, and_self]
  rw [heffect.1, heffect.2]
  cases op <;> cases h <;> simp only [effect, hc] <;> exact hrelayout _

end TxOp

end SnapshotSql
