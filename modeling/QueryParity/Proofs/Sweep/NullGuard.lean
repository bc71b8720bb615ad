import QueryParity.Expr.Build
import QueryParity.Proofs.Dataset.Keys
import QueryParity.Proofs.Query
import QueryParity.Proofs.Substitution
import QueryParity.Sweep

/-!
# The guard against nulls

A guarded predicate is not evaluated on rows with a null: there the guard is false, and its value
decides. On all other rows the guard is true, and the value is that of the predicate. So a filter by
the guarded predicate is a filter by the predicate over the rows without a null. It drops the rows
with a null from the result, and with them the faults that the predicate raises there.
-/

namespace QueryParity

open Outcome

namespace Expr

variable {row : List Value} {l r : Expr}

/-- A column is tested for a null by looking at its value. -/
theorem evaluate_isNotNull_field {column : Nat} {type : ValueType} {v : Value}
    (h : row[column]? = some v) :
    (isNotNull (.field column type)).evaluate row = .ok (.bool (!v.isNull)) := by
  rw [isNotNull, evaluate, evaluate, h]
  rfl

/-- A conjunction is false if its left operand is, whatever the right one would give. If the left
operand is true, it is the right one, also if that is null or faults. -/
theorem evaluate_andAlso {b : Bool} (hl : l.evaluate row = .ok (.bool b))
    (hr : ∀ v, r.evaluate row = .ok v → v.type = .bool) :
    (andAlso l r).evaluate row = if b then r.evaluate row else .ok (.bool false) := by
  rw [andAlso, evaluate, hl, ok_bind]
  cases b with
  | false => rfl
  | true =>
    cases hright : r.evaluate row with
    | error fault => rfl
    | ok v =>
      have hv := hr v hright
      cases v with
      | bool b => cases b <;> rfl
      | null t =>
        obtain rfl : t = .bool := hv
        rfl
      | _ => cases hv

/-- A tree that is guarded against nulls in both columns of a row. -/
theorem evaluate_guarded {a b : ValueType} {v w : Value} {e : Expr}
    (he : ∀ x, e.evaluate [v, w] = .ok x → x.type = .bool) :
    (andAlso (andAlso (isNotNull (.field 0 a)) (isNotNull (.field 1 b))) e).evaluate [v, w] =
      if [v, w].any Value.isNull then .ok (.bool false) else e.evaluate [v, w] := by
  have hv : (isNotNull (.field 0 a)).evaluate [v, w] = .ok (.bool (!v.isNull)) :=
    evaluate_isNotNull_field rfl
  have hw : (isNotNull (.field 1 b)).evaluate [v, w] = .ok (.bool (!w.isNull)) :=
    evaluate_isNotNull_field rfl
  have hwtype : ∀ x, (isNotNull (.field 1 b)).evaluate [v, w] = .ok x → x.type = .bool := by
    intro x hx
    rw [hw] at hx
    cases hx
    rfl
  have hguard : (andAlso (isNotNull (.field 0 a)) (isNotNull (.field 1 b))).evaluate [v, w] =
      .ok (.bool (!v.isNull && !w.isNull)) := by
    rw [evaluate_andAlso hv hwtype, hw]
    cases v.isNull <;> rfl
  rw [evaluate_andAlso hguard he]
  cases hvnull : v.isNull <;> cases hwnull : w.isNull <;> simp [hvnull, hwnull]

end Expr

namespace Dataset

variable {d : Dataset} {e guarded : Expr} {rows : List Row} {results : List ResultRow}

/-- A filter by a tree that is false on some rows, and evaluates like another one on the others, is
a filter by the other tree over the others. -/
theorem queryRows_filter {keep : Row → Bool}
    (h : ∀ r ∈ rows, guarded.evaluate r.values =
      if keep r then e.evaluate r.values else .ok (.bool false)) :
    queryRows ⟨guarded, .filter⟩ rows = queryRows ⟨e, .filter⟩ (rows.filter keep) := by
  induction rows with
  | nil => rfl
  | cons r rows ih =>
    rw [List.forall_mem_cons] at h
    rw [queryRows, h.1, ih h.2]
    cases hkeep : keep r with
    | true =>
      rw [List.filter_cons_of_pos hkeep, queryRows]
      rfl
    | false =>
      -- The value is false, so that the row gives no result.
      rw [List.filter_cons_of_neg (Bool.eq_false_iff.mp hkeep)]
      simp only [Bool.false_eq_true, if_false, QueryShape.keeps, ok_bind]
      cases queryRows ⟨e, .filter⟩ (rows.filter keep) <;> rfl

/-- Over a part of the rows, chosen by their keys, a query that does not fault over all of them
gives the results with such keys. -/
theorem queryRows_filter_key {query : Query} (keep : RowKey → Bool)
    (h : queryRows query rows = .ok results) :
    queryRows query (rows.filter fun r => keep r.key) =
      .ok (results.filter fun result => keep result.key) := by
  induction rows generalizing results with
  | nil =>
    cases h
    rfl
  | cons r rows ih =>
    obtain ⟨v, hv, h⟩ := bind_eq_ok_iff.mp h
    obtain ⟨kept, hkept, h⟩ := bind_eq_ok_iff.mp h
    obtain ⟨rest, hrest, h⟩ := bind_eq_ok_iff.mp h
    cases h
    rw [List.filter_cons, apply_ite (List.filter _), List.filter_cons]
    cases keep r.key with
    | true =>
      rw [if_pos rfl, if_pos rfl, queryRows, hv, ok_bind, hkept, ok_bind, ih hrest, ok_bind]
    | false =>
      rw [if_neg Bool.false_ne_true, if_neg Bool.false_ne_true, ite_self]
      exact ih hrest

/-- Whether the row with the given key has a null. -/
def hasNull (d : Dataset) (key : RowKey) : Bool :=
  d.rows.any fun r => r.key = key && r.values.any Value.isNull

/-- The rows without a null. -/
def withoutNulls (d : Dataset) : Dataset :=
  ⟨d.schema, d.rows.filter fun r => !r.values.any Value.isNull⟩

/-- The row with the key of a row is this row. -/
theorem Built.hasNull_key (hd : d.Built) {r : Row} (hr : r ∈ d.rows) :
    d.hasNull r.key = r.values.any Value.isNull := by
  rw [Bool.eq_iff_iff, hasNull, List.any_eq_true]
  constructor
  · rintro ⟨r', hr', h⟩
    rw [Bool.and_eq_true, decide_eq_true_iff] at h
    obtain rfl := hd.ascending.eq_of_key_eq hr' hr h.1
    exact h.2
  · intro h
    exact ⟨r, hr, Bool.and_eq_true_iff.mpr ⟨decide_eq_true rfl, h⟩⟩

/-- Dropping the rows with a null before a query drops their results. -/
theorem Built.query_withoutNulls (hd : d.Built) {query : Query}
    (h : d.query query = .ok results) :
    d.withoutNulls.query query = .ok (results.filter fun result => !d.hasNull result.key) := by
  have hrows : d.withoutNulls.rows = d.rows.filter fun r => !d.hasNull r.key :=
    List.filter_congr fun r hr => by rw [hd.hasNull_key hr]
  rw [Dataset.query, hrows]
  exact queryRows_filter_key (fun key => !d.hasNull key) h

/-- Rows that are left conform. -/
theorem Conforms.withoutNulls (hd : d.Conforms) : d.withoutNulls.Conforms :=
  fun r hr => hd r (List.mem_filter.mp hr).1

/-- A filter by a guarded tree is a filter by the tree over the rows without a null. -/
theorem Conforms.query_guarded (hd : d.Conforms) {a b : ValueType} (hschema : d.schema = [a, b])
    (ht : e.infer = .ok .bool) (hfields : e.FieldsMatch d.schema) :
    d.query ⟨.andAlso (.andAlso (.isNotNull (.field 0 a)) (.isNotNull (.field 1 b))) e, .filter⟩ =
      d.withoutNulls.query ⟨e, .filter⟩ := by
  refine queryRows_filter fun r hr => ?_
  have hrow : e.FieldsMatch (r.values.map Value.type) := by rwa [hd r hr]
  have htype : ∀ v, e.evaluate r.values = .ok v → v.type = .bool :=
    fun v hv => Expr.type_of_evaluate ht hrow hv
  have hlength : r.values.length = 2 := by
    rw [← List.length_map (f := Value.type), hd r hr, hschema]
    rfl
  match hvalues : r.values, hlength with
  | [v, w], _ =>
    rw [hvalues] at htype
    rw [Expr.evaluate_guarded htype]
    cases [v, w].any Value.isNull <;> rfl

end Dataset

namespace SweepCase

/-- The guarded predicate over columns is the predicate over columns, guarded by null tests of the
columns. -/
theorem replaceRoots_guardedTree {s : Substitution} {c : SweepCase} (hresult : c.result = .bool)
    (hs : Substitution.columns [c.lhs, c.rhs] = .ok s)
    (hroots : ∀ i t, .root i t ∈ c.tree.preorder → [c.lhs, c.rhs][i]? = some t) :
    s.replaceRoots (c.guardedTree true) =
      .ok (.andAlso (.andAlso (.isNotNull (.field 0 c.lhs)) (.isNotNull (.field 1 c.rhs)))
        (c.tree.mapRoots .field)) := by
  have hguarded : c.guardedTree true =
      .andAlso (.andAlso (.isNotNull (.root 0 c.lhs)) (.isNotNull (.root 1 c.rhs))) c.tree :=
    if_pos ⟨hresult, rfl⟩
  rw [hguarded]
  refine Substitution.replaceRoots_eq_mapRoots fun i t hm => Substitution.step_columns hs ?_
  simp only [Expr.andAlso, Expr.isNotNull, Expr.mem_preorder_binary, Expr.mem_preorder_unary,
    Expr.mem_preorder_root, reduceCtorEq, false_or, Expr.root.injEq] at hm
  obtain (⟨rfl, rfl⟩ | ⟨rfl, rfl⟩) | hm := hm
  · rfl
  · rfl
  · exact hroots i t hm

/-- The guard of a predicate only drops the rows with a null. Over a dataset of two columns, a
filter by the guarded predicate gives the rows that a filter by the predicate gives, in the same
order and with the same values, except those with a null in one of the columns. If it faults, the
predicate raises that fault on a row without a null. -/
theorem guard_drops_null_rows (d : Dataset) (c : SweepCase) (hd : d.Built)
    (hschema : d.schema = [c.lhs, c.rhs]) (hresult : c.result = .bool)
    (htree : c.tree.infer = .ok .bool)
    (hroots : ∀ i t, .root i t ∈ c.tree.preorder → [c.lhs, c.rhs][i]? = some t)
    (hfields : c.tree.FieldsMatch [c.lhs, c.rhs]) :
    ∃ s plain guarded, Substitution.columns d.schema = .ok s ∧
      s.replaceRoots c.tree = .ok plain ∧ s.replaceRoots (c.guardedTree true) = .ok guarded ∧
      (∀ rows, d.query ⟨plain, .filter⟩ = .ok rows →
        d.query ⟨guarded, .filter⟩ = .ok (rows.filter fun row => !d.hasNull row.key)) ∧
      ∀ fault, d.query ⟨guarded, .filter⟩ = .error fault →
        ∃ r ∈ d.rows, (∀ v ∈ r.values, v.isNull = false) ∧
          plain.evaluate r.values = .error fault := by
  have hwidth : [c.lhs, c.rhs].length ≤ indexLimit := Nat.le_of_ble_eq_true rfl
  obtain ⟨s, hs⟩ := Substitution.exists_columns hwidth
  have hplain : s.replaceRoots c.tree = .ok (c.tree.mapRoots .field) :=
    Substitution.replaceRoots_eq_mapRoots fun i t hm => Substitution.step_columns hs (hroots i t hm)
  let query : Query := ⟨c.tree.mapRoots .field, .filter⟩
  have htype : query.tree.infer = .ok .bool := (Expr.infer_mapRoots fun _ _ _ => rfl).trans htree
  have hfits : query.tree.FieldsMatch d.schema := by
    rw [hschema]
    exact (Expr.fits_mapRoots_field hroots hfields).fieldsMatch
  have hquery := hd.conforms.query_guarded hschema htype hfits
  refine ⟨s, _, _, hschema ▸ hs, hplain, replaceRoots_guardedTree hresult hs hroots, ?_, ?_⟩
  · intro rows hrows
    rw [hquery]
    exact hd.query_withoutNulls hrows
  · intro fault hfault
    rw [hquery] at hfault
    obtain ⟨r, hr, hraises⟩ := Dataset.exists_evaluate_of_query hd.conforms.withoutNulls htype hfits
      (fun _ => rfl) hfault
    obtain ⟨hr, hnull⟩ := List.mem_filter.mp hr
    refine ⟨r, hr, fun v hv => ?_, hraises⟩
    rw [Bool.not_eq_true', List.any_eq_false] at hnull
    exact Bool.eq_false_iff.mpr (hnull v hv)

/-- The predicate asks whether six divided by the first column is the second column. Two nulls are
equal, so that it keeps a row of nulls; the guard drops it. In the other dataset the guard hides the
division by zero on the row with a null, but not the one on the row after it. -/
theorem guard_drops_row_of_nulls :
    let c : SweepCase :=
      ⟨"Equal", .int, .int, .equal (.divide (.intLit 6) (.root 0 .int)) (.root 1 .int), .bool⟩
    let plain : Expr := .equal (.divide (.intLit 6) (.field 0 .int)) (.field 1 .int)
    let guarded : Expr :=
      .andAlso (.andAlso (.isNotNull (.field 0 .int)) (.isNotNull (.field 1 .int))) plain
    let d : Dataset :=
      ⟨[.int, .int], [⟨[0], [.int 2, .int 3]⟩, ⟨[1], [.null .int, .null .int]⟩]⟩
    let d' : Dataset :=
      ⟨[.int, .int], [⟨[0], [.int 0, .null .int]⟩, ⟨[1], [.int 0, .int 1]⟩]⟩
    (∃ s, Substitution.columns d.schema = .ok s ∧ s.replaceRoots c.tree = .ok plain ∧
      s.replaceRoots (c.guardedTree true) = .ok guarded) ∧
    d.query ⟨plain, .filter⟩ = .ok [⟨[0], .bool true⟩, ⟨[1], .bool true⟩] ∧
    d.query ⟨guarded, .filter⟩ = .ok [⟨[0], .bool true⟩] ∧
    d'.query ⟨guarded, .filter⟩ = .error .divideByZero ∧
    ∃ r ∈ d'.rows, (∀ v ∈ r.values, v.isNull = false) ∧
      plain.evaluate r.values = .error .divideByZero := by
  intro c plain guarded d d'
  have hd : Dataset.ofRows [.int, .int] [[.int 2, .int 3], [.null .int, .null .int]] = .ok d := rfl
  have hd' : Dataset.ofRows [.int, .int] [[.int 0, .null .int], [.int 0, .int 1]] = .ok d' := rfl
  have hroots : ∀ i t, .root i t ∈ c.tree.preorder → [c.lhs, c.rhs][i]? = some t := by
    intro i t hm
    simp only [c, Expr.equal, Expr.divide, Expr.intLit, Expr.mem_preorder_binary,
      Expr.mem_preorder_const, Expr.mem_preorder_root, reduceCtorEq, false_or,
      Expr.root.injEq] at hm
    obtain ⟨rfl, rfl⟩ | ⟨rfl, rfl⟩ := hm <;> rfl
  have hfields : c.tree.FieldsMatch [c.lhs, c.rhs] := by decide
  obtain ⟨s, found, foundGuarded, hs, hfound, hfoundGuarded, hrows, -⟩ :=
    guard_drops_null_rows d c (.ofRows hd) rfl rfl rfl hroots hfields
  obtain ⟨s', found', foundGuarded', hs', hfound', hfoundGuarded', -, hfault⟩ :=
    guard_drops_null_rows d' c (.ofRows hd') rfl rfl rfl hroots hfields
  cases hs
  cases hs'
  cases hfound
  cases hfound'
  cases hfoundGuarded
  cases hfoundGuarded'
  have hplain : d.query ⟨plain, .filter⟩ = .ok [⟨[0], .bool true⟩, ⟨[1], .bool true⟩] := rfl
  have hguarded : d'.query ⟨guarded, .filter⟩ = .error .divideByZero := rfl
  exact ⟨⟨_, rfl, rfl, rfl⟩, hplain, hrows _ hplain, hguarded, hfault _ hguarded⟩

end SweepCase

end QueryParity
