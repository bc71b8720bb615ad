import QueryParity.Expr.Build
import QueryParity.Proofs.Session.Load

/-!
# Sessions answer like the interpreter

A session that holds a dataset answers a query over its schema as the interpreter does on every row
of the dataset, faults included. The stack that an earlier query has left, also one that faulted on
the way, is not seen by later ones. So a session keeps answering in this way, and counts.
-/

namespace QueryParity

open Outcome

/-- If the value of each row is what the tree evaluates to on it, whatever the state, the collected
result is that of the interpreter. -/
theorem QueryShape.collect_eq_queryRows {σ : Type} {query : Query} {rows : List Row} {start : Nat}
    {valueOf : Nat → σ → Except Fault Value × σ}
    (h : ∀ i r state, rows[i]? = some r →
      (valueOf (start + i) state).1 = query.tree.evaluate r.values) (state : σ) :
    (query.shape.collect valueOf start (rows.map Row.key) state).1 =
      Dataset.queryRows query rows := by
  induction rows generalizing start state with
  | nil => rfl
  | cons r rows ih =>
    have hfirst := h 0 r state rfl
    have hrest : ∀ i r state, rows[i]? = some r →
        (valueOf (start + 1 + i) state).1 = query.tree.evaluate r.values := by
      intro i r' state' hr'
      rw [Nat.add_assoc, Nat.add_comm 1 i]
      exact h (i + 1) r' state' hr'
    rw [List.map_cons, collect, Dataset.queryRows, ← hfirst, Nat.add_zero]
    obtain ⟨outcome, after⟩ := valueOf start state
    cases outcome with
    | error fault => rfl
    | ok v =>
      simp only [ok_bind]
      cases query.shape.keeps v with
      | error fault => rfl
      | ok kept =>
        simp only [ok_bind, ← ih hrest after]
        cases (query.shape.collect valueOf (start + 1) (rows.map Row.key) after).1 <;> rfl

namespace Session

variable {s : Session} {d : Dataset}

/-- A session that holds a dataset answers a query over its schema as the interpreter does. -/
theorem Holds.run_eq_query (h : s.Holds d) {query : Query} (hfits : query.tree.Fits d.schema) :
    (s.run query).value.2 = d.query query := by
  obtain ⟨p, hp⟩ := Program.exists_compile_eq_ok_iff.mpr hfits
  rw [run, h.schema_eq, hp, h.keys_eq]
  refine QueryShape.collect_eq_queryRows (fun i r stack hr => ?_) s.stack
  have hvalues : (d.rows.map Row.values)[i]? = some r.values := by
    rw [List.getElem?_map, hr, Option.map_some]
  rw [Nat.zero_add, Program.execute_of_compile hp h.represents.types,
    h.represents.values i r.values hvalues]

/-- A query leaves the data of a session as they are. -/
theorem Holds.run (h : s.Holds d) (query : Query) : (s.run query).value.1.Holds d := by
  rw [run_session]
  exact ⟨h.schema_eq, h.keys_eq, h.represents⟩

/-- Run queries one after the other: the session in the end, and the results. -/
def runAll (s : Session) : List Query → Session × List (Except Fault (List ResultRow))
  | [] => (s, [])
  | query :: queries =>
    let (after, result) := (s.run query).value
    let (last, results) := after.runAll queries
    (last, result :: results)

/-- A run of queries changes nothing in a session but the stack and the count of queries. -/
theorem runAll_session (s : Session) (queries : List Query) :
    (s.runAll queries).1 =
      { s with
        stack := (s.runAll queries).1.stack
        queries := s.queries + queries.length } := by
  induction queries generalizing s with
  | nil => rfl
  | cons query queries ih =>
    have hrun : (s.runAll (query :: queries)).1 = ((s.run query).value.1.runAll queries).1 := rfl
    rw [hrun, ih, run_session, List.length_cons, Nat.add_assoc, Nat.add_comm 1]

/-- A run of queries leaves the data of a session as they are. -/
theorem Holds.runAll (h : s.Holds d) (queries : List Query) : (s.runAll queries).1.Holds d := by
  rw [runAll_session]
  exact ⟨h.schema_eq, h.keys_eq, h.represents⟩

/-- A session that holds a dataset answers a run of queries over its schema as the interpreter
answers each of them. -/
theorem Holds.runAll_eq_map_query (h : s.Holds d) {queries : List Query}
    (hfits : ∀ query ∈ queries, query.tree.Fits d.schema) :
    (s.runAll queries).2 = queries.map d.query := by
  induction queries generalizing s with
  | nil => rfl
  | cons query queries ih =>
    rw [List.forall_mem_cons] at hfits
    rw [List.map_cons, ← h.run_eq_query hfits.1, ← ih (h.run query) hfits.2]
    rfl

/-- A dataset is loaded into a session that answers any queries over its schema, one after the
other, as the interpreter answers each of them. After each query the session has counted the queries
so far, failed ones included, and its schema, columns and keys are those that were loaded. -/
theorem load_answers_as_interpreter (d : Dataset) (h : d.Built) (queries : List Query)
    (hfits : ∀ query ∈ queries, query.tree.Fits d.schema) :
    ∃ s, load d = .ok s ∧ s.schema = d.schema ∧ s.keys = d.rows.map Row.key ∧
      (s.runAll queries).2 = queries.map d.query ∧
      ∀ i ≤ queries.length,
        (s.runAll (queries.take i)).1.queries = i ∧
          (s.runAll (queries.take i)).1.schema = s.schema ∧
          (s.runAll (queries.take i)).1.columns = s.columns ∧
          (s.runAll (queries.take i)).1.keys = s.keys := by
  obtain ⟨s, hload, hs, hzero⟩ := exists_load h.conforms
  refine ⟨s, hload, hs.schema_eq, hs.keys_eq, hs.runAll_eq_map_query hfits, fun i hi => ?_⟩
  rw [runAll_session, hzero, List.length_take_of_le hi, Nat.zero_add]
  exact ⟨rfl, rfl, rfl, rfl⟩

/-- A query that faults on its second row leaves a stack that the next one does not see; a filter by
values that are not booleans faults as well. -/
theorem load_answers_after_faults :
    ∃ s, load ⟨[.int], [⟨[0], [.int 3]⟩, ⟨[1], [.int 0]⟩]⟩ = .ok s ∧
      (s.runAll [⟨.divide (.intLit 6) (.field 0 .int), .project⟩,
        ⟨.equal (.field 0 .int) (.intLit 0), .filter⟩, ⟨.field 0 .int, .filter⟩]).2 =
        [.error .divideByZero, .ok [⟨[1], .bool true⟩],
          .error (.typeMismatch .filter .bool .int)] := by
  have hbuilt : Dataset.ofRows [.int] [[.int 3], [.int 0]] =
      .ok ⟨[.int], [⟨[0], [.int 3]⟩, ⟨[1], [.int 0]⟩]⟩ := rfl
  obtain ⟨s, hload, -, -, hresults, -⟩ := load_answers_as_interpreter _ (.ofRows hbuilt)
    [⟨.divide (.intLit 6) (.field 0 .int), .project⟩,
      ⟨.equal (.field 0 .int) (.intLit 0), .filter⟩, ⟨.field 0 .int, .filter⟩] (by decide)
  exact ⟨s, hload, hresults⟩

end Session

end QueryParity
