import SnapshotSql.Proofs.Query.Settling
/-! # The protocol of operators -/

namespace SnapshotSql

variable {α β : Type} {op : Operator} {db : Database} {c : Catalog} {last : Option Step}

/-! ## Calls in any order -/

def Turn.map (turn : Turn α) (f : α → β) : Turn β := ⟨turn.answer.map f, turn.op, turn.db⟩

namespace Operator

/-- A call on an operator. -/
inductive Request where
  | opening (t : TxHandle)
  | advancing (env : RowView)
  | closing

def Request.make (op : Operator) (db : Database) : Request → Turn (Option Step)
  | opening t => (op.openUnder t db).map fun _ => none
  | advancing env => (op.next env db).map some
  | closing => .ok none op.close db

/-- What a call that succeeds leaves: after an opening or a closing, a tree that lends nothing. -/
structure Settled (last : Option Step) (c : Catalog) (op : Operator) : Prop where
  coherent : op.Coherent
  bare : last = none → ¬op.Lends
  stopped : ∀ step, last = some step → op.Stopped step c

end Operator

namespace Turn

open Operator (Request)

/-- Make one call after the other, each with the database that there is by then, up to the first that
fails. -/
def serve (turn : Turn (Option Step)) : List (Request × Database) → Turn (Option Step)
  | [] => turn
  | (request, db) :: rest =>
    match turn.answer with
    | .error _ => turn
    | .ok _ => serve (request.make turn.op db) rest

def Settles (turn : Turn (Option Step)) : Prop :=
  ∀ last, turn.answer = .ok last → turn.op.Settled last turn.db.catalog

theorem settles_of_starts {turn : Turn Unit} (h : turn.Starts) : (turn.map fun _ => none).Settles := by
  intro last hanswer
  obtain ⟨_, hok, rfl⟩ := map_eq_ok.mp hanswer
  obtain ⟨hop, hbare⟩ := h hok
  exact ⟨hop, fun _ => hbare, nofun⟩

theorem settles_of_stops {turn : Turn Step} (h : turn.Stops) : (turn.map some).Settles := by
  intro last hanswer
  obtain ⟨step, hok, rfl⟩ := map_eq_ok.mp hanswer
  have hstopped : turn.op.Stopped step turn.db.catalog := h step hok
  constructor
  · exact hstopped.coherent
  · exact nofun
  · intro step' hstep
    cases hstep
    exact hstopped

theorem settles_ok {last : Option Step} (h : op.Settled last db.catalog) :
    (Turn.ok last op db).Settles := by
  intro last' hanswer
  cases hanswer
  exact h

theorem settles_make (request : Request) (h : op.Coherent) : (request.make op db).Settles := by
  cases request with
  | opening t => exact settles_of_starts (Operator.starts_openIn _ h)
  | advancing env => exact settles_of_stops (Operator.stops_nextIn _ h)
  | closing =>
    exact settles_ok ⟨Operator.coherent_close h, fun _ => Operator.not_lends_close op, nofun⟩

theorem settles_serve {turn : Turn (Option Step)} (h : turn.Settles)
    (requests : List (Request × Database)) : (turn.serve requests).Settles := by
  induction requests generalizing turn with
  | nil => exact h
  | cons call rest ih =>
    obtain ⟨request, db⟩ := call
    rw [serve]
    cases hanswer : turn.answer with
    | error e => exact h
    | ok earlier => exact ih (settles_make request (h earlier hanswer).coherent)

theorem make_of_ended (h : op.Ended db.catalog) (env : RowView) :
    Request.make op db (.advancing env) = .ok (some .done) op db := by
  have hnext : op.next env db = .ok .done op db :=
    Operator.nextIn_of_ended h (Nat.le_add_right _ _)
  rw [Request.make, hnext]
  rfl

/-- What has ended stays where it is for as long as the tables keep their lengths. -/
theorem serve_of_ended {later : List (RowView × Database)} (h : op.Ended c)
    (hsize : ∀ call ∈ later, ∀ table,
      (call.2.catalog.table table).versions.size = (c.table table).versions.size) :
    ((Turn.ok (some .done) op db).serve
      (later.map fun call => (.advancing call.1, call.2))).answer = .ok (some .done) := by
  induction later generalizing db with
  | nil => rfl
  | cons call later ih =>
    obtain ⟨env, db'⟩ := call
    obtain ⟨hcall, hlater⟩ := List.forall_mem_cons.mp hsize
    have hmade : Request.make op db' (.advancing env) = .ok (some .done) op db' :=
      make_of_ended (Operator.ended_congr h hcall) env
    have hserve : ∀ rest, (Turn.ok (some .done) op db).serve ((.advancing env, db') :: rest) =
        (Turn.ok (some .done) op db').serve rest := by
      intro rest
      rw [← hmade]
      rfl
    rw [List.map_cons, hserve]
    exact ih hlater

end Turn

namespace Operator

/-- Calls on a tree as it was built, in any order, each with whatever database there is by then, and none
of them failing: the tree lends a row exactly if the last call was an advance that stopped on one, contested
or not. If the last call came to the end, every further advance comes to the end too, whatever has become of
transactions and rows in the meantime, as long as no table has grown. -/
theorem lends_iff_stopped_on_row (requests : List (Request × Database)) (hop : op.Unused)
    (hanswer : ((Turn.ok none op db).serve requests).answer = .ok last) :
    let left := (Turn.ok none op db).serve requests
    (left.op.Lends ↔ last = some .row ∨ last = some .contested) ∧
      (last = some .done → ∀ later : List (RowView × Database),
        (∀ call ∈ later, ∀ table, (call.2.catalog.table table).versions.size =
          (left.db.catalog.table table).versions.size) →
        (left.serve (later.map fun call => (.advancing call.1, call.2))).answer =
          .ok (some .done)) := by
  have hstart : (Turn.ok (none : Option Step) op db).Settles :=
    Turn.settles_ok ⟨coherent_of_unused hop, fun _ => not_lends_of_unused hop, nofun⟩
  have hserved : ((Turn.ok none op db).serve requests).Settles := Turn.settles_serve hstart requests
  generalize (Turn.ok none op db).serve requests = left at hanswer hserved
  obtain ⟨answer, op', db'⟩ := left
  obtain rfl : answer = .ok last := hanswer
  obtain ⟨_, hbare, hstopped⟩ := hserved last rfl
  cases last with
  | none => exact ⟨by simp [hbare], nofun⟩
  | some step =>
    obtain ⟨_, hended, hlends⟩ := hstopped step rfl
    cases step with
    | row => exact ⟨by simp [hlends], nofun⟩
    | contested => exact ⟨by simp [hlends], nofun⟩
    | done =>
      have hlost : ¬op'.Lends := not_lends_of_ended (hended rfl)
      exact ⟨by simp [hlost], fun _ later hsize => Turn.serve_of_ended (hended rfl) hsize⟩

def twoRows : Database where
  catalog := {
    tables := #[⟨⟨"t", [⟨"a", .integer, false⟩]⟩,
      #[⟨⟨0⟩, [.integer 1], ⟨0⟩, none⟩, ⟨⟨1⟩, [.integer 2], ⟨0⟩, none⟩]⟩]
    entries := [("t", ⟨0⟩)] }
  transactions := #[{ isolation := .repeatableRead }]

/-- Both rows of the table beside one row that is buffered, under a filter and a new name. -/
def pairedRows : Operator :=
  .subQuery "q" (.predicate (.literal (.boolean true)) .surfaceAll
    [.join
      (.tableScan { table := ⟨0⟩, columns := [0], names := [.qualified "t" "a"], access := .read
                    predicates := [], policy := .surfaceAll })
      (.cached (.stringList (.create "s" ["x"])) {} none) {}])

/-- Opened again before its end, read to its end, closed twice, and opened and read to its end once more. -/
def rereading : List (Request × Database) :=
  [.opening ⟨0⟩, .advancing .empty, .opening ⟨0⟩, .advancing .empty, .advancing .empty,
    .advancing .empty, .advancing .empty, .closing, .closing, .opening ⟨0⟩, .advancing .empty,
    .advancing .empty, .advancing .empty].map (·, twoRows)

theorem lends_iff_stopped_on_row_rereading :
    let left := (Turn.ok none pairedRows twoRows).serve rereading
    pairedRows.Unused ∧ left.answer = .ok (some .done) ∧ ¬left.op.Lends ∧
      (left.serve [(.advancing .empty, left.db), (.advancing .empty, left.db)]).answer =
        .ok (some .done) := by
  have hop : pairedRows.Unused := by
    apply Unused.subQuery
    apply Unused.predicate
    intro input hinput
    cases List.mem_singleton.mp hinput
    exact .join (.tableScan rfl rfl rfl) (.cached (.stringList "s" ["x"]))
  have hanswer : ((Turn.ok none pairedRows twoRows).serve rereading).answer = .ok (some .done) :=
    toOption_eq_some.mp (by decide +kernel)
  obtain ⟨hlends, hlater⟩ := lends_iff_stopped_on_row rereading hop hanswer
  generalize (Turn.ok none pairedRows twoRows).serve rereading = left at hanswer hlends hlater ⊢
  exact ⟨hop, hanswer, fun h => by simpa using hlends.mp h,
    hlater rfl [(.empty, left.db), (.empty, left.db)] (by simp)⟩

end Operator

end SnapshotSql
