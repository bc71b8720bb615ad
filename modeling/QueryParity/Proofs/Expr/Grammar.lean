import QueryParity.Proofs.Expr.MapRoots
import QueryParity.Proofs.Expr.Tokens

/-!
# The grammar of printed trees

Tokens are read from left to right, with the binding strength of the operator outside: an operand
first, and then every operator and null test that binds tighter than the operator outside. There is
one way at most to read tokens, and the tokens of a tree whose constants are plain are read as the
tree, except that placeholders do not show their types. So the parentheses that a tree is printed
with suffice: trees with the same tokens are the same up to the types of their placeholders.
-/

namespace QueryParity

/-- A constant that shows what it is: a boolean, a string, or an integer without sign. -/
def Value.IsPlain : Value → Prop
  | .bool _ | .string _ => True
  | .int n => 0 ≤ n.toInt
  | .null _ | .dateTime _ => False

namespace Expr

/-- Every constant of the tree is plain. -/
def PlainConstants (e : Expr) : Prop := ∀ v, .const v ∈ e.preorder → v.IsPlain

/-- The tree with integer placeholders, which keep their numbers. -/
def eraseRootTypes (e : Expr) : Expr := e.mapRoots fun index _ => .root index .int

/-- The trees differ in the types of their placeholders at most. -/
def SameUpToRootTypes (e e' : Expr) : Prop := e.eraseRootTypes = e'.eraseRootTypes

/-- The symbol of a negation: a tilde for the complement of an integer. -/
def negation (operand : Expr) : Symbol :=
  match operand.infer with
  | .ok .int => .tilde
  | _ => .bang

/-- The tokens of an operand in parentheses, or bare. -/
def operandTokens (parens : Bool) (inner : List Token) : List Token :=
  if parens then .mark .left :: (inner ++ [.mark .right]) else inner

/-- The tokens of a constant. Only those of plain constants matter. -/
def literalTokens : Value → List Token
  | .null _ => [.word .null]
  | .bool b => [.word (.bool b)]
  | .int n => [.word (.number n.toInt.toNat)]
  | .string s => [.quoted s]
  | .dateTime _ => []

/-- Rows of tokens with commas between them. -/
def commaSeparated : List (List Token) → List Token
  | [] => []
  | first :: rest => first ++ rest.flatMap (.mark .comma :: ·)

mutual

/-- The tokens of a printed tree. -/
def tokens : Expr → List Token
  | .const v => literalTokens v
  | .root index _ => [.word (.root index)]
  | .field column type => [.word (.column column), .mark .dot, .word (.property type)]
  | .binary op l r =>
    operandTokens (needsParens l (operatorStrength op) false) l.tokens ++
      .symbol (.binary op) :: operandTokens (needsParens r (operatorStrength op) true) r.tokens
  | .unary op a =>
    let operand := operandTokens (needsParens a (strength (.unary op a)) true) a.tokens
    match op with
    | .not => .symbol (negation a) :: operand
    | .negate => .symbol (.binary .subtract) :: operand
    | .isNull => operand ++ [.symbol (.binary .equal), .word .null]
    | .isNotNull => operand ++ [.symbol (.binary .notEqual), .word .null]
    | .convert target => .mark .left :: .word (.label target) :: .mark .right :: operand
  | .call f args =>
    .word (.function f) :: .mark .left :: (commaSeparated (argumentTokens args) ++ [.mark .right])

/-- The tokens of the arguments of a call. -/
def argumentTokens : List Expr → List (List Token)
  | [] => []
  | e :: es => e.tokens :: argumentTokens es

end

/-- The arguments of a call are printed one by one. -/
theorem argumentTokens_eq_map (es : List Expr) : argumentTokens es = es.map tokens := by
  induction es with
  | nil => rfl
  | cons e es ih => rw [argumentTokens, ih, List.map_cons]

end Expr

/-- The tree that a single token stands for. A placeholder does not show its type. -/
def Token.leaf? : Token → Option Expr
  | .word (.bool b) => some (.const (.bool b))
  | .word (.number n) => some (.const (.int (.ofInt n)))
  | .word (.root index) => some (.root index .int)
  | .quoted s => some (.const (.string s))
  | _ => none

/-- The operator that a symbol before an operand stands for. -/
def Symbol.prefixOp? : Symbol → Option UnaryOp
  | .bang | .tilde => some .not
  | .binary .subtract => some .negate
  | _ => none

/-- The null test that a symbol before `null` stands for. -/
def BinaryOp.nullTest? : BinaryOp → Option UnaryOp
  | .equal => some .isNull
  | .notEqual => some .isNotNull
  | _ => none

/-- What is read next. -/
inductive Phase where
  /-- An operand of an operator. -/
  | operand
  /-- A tree, up to an operator that binds no tighter than the operator outside. -/
  | tree (outer : Nat)
  /-- The rest of a tree that begins with the given one. -/
  | more (outer : Nat) (lhs : Expr)
  /-- The rest of a call that begins with the given arguments. -/
  | arguments (f : Func) (before : List Expr)

open QueryParity.Expr (operatorStrength)

/-- No operator follows that binds tighter than the operator outside. -/
def Stops (outer : Nat) (ts : List Token) : Prop :=
  ∀ op rest, ts = .symbol (.binary op) :: rest → operatorStrength op ≤ outer

/-- A tree is read from the front of the first tokens, and the second ones are left. Operators that
are written before an operand have strength 10. -/
inductive Reads : Phase → List Token → Expr → List Token → Prop where
  | leaf {t : Token} {ts : List Token} {e : Expr} : t.leaf? = some e → Reads .operand (t :: ts) e ts
  | field {column : Nat} {type : ValueType} {ts : List Token} :
      Reads .operand (.word (.column column) :: .mark .dot :: .word (.property type) :: ts)
        (.field column type) ts
  | paren {ts rest : List Token} {e : Expr} : Reads (.tree 0) ts e (.mark .right :: rest) →
      Reads .operand (.mark .left :: ts) e rest
  | prefixed {s : Symbol} {op : UnaryOp} {ts rest : List Token} {a : Expr} :
      s.prefixOp? = some op → Reads (.tree 10) ts a rest →
      Reads .operand (.symbol s :: ts) (.unary op a) rest
  | convert {target : ValueType} {ts rest : List Token} {a : Expr} : Reads (.tree 10) ts a rest →
      Reads .operand (.mark .left :: .word (.label target) :: .mark .right :: ts)
        (.unary (.convert target) a) rest
  | emptyCall {f : Func} {ts : List Token} :
      Reads .operand (.word (.function f) :: .mark .left :: .mark .right :: ts) (.call f []) ts
  | call {f : Func} {ts middle rest : List Token} {a e : Expr} : Reads (.tree 0) ts a middle →
      Reads (.arguments f [a]) middle e rest →
      Reads .operand (.word (.function f) :: .mark .left :: ts) e rest
  | tree {outer : Nat} {ts middle rest : List Token} {lhs e : Expr} :
      Reads .operand ts lhs middle → Reads (.more outer lhs) middle e rest →
      Reads (.tree outer) ts e rest
  | binary {outer : Nat} {lhs r e : Expr} {op : BinaryOp} {ts middle rest : List Token} :
      outer < operatorStrength op → Reads (.tree (operatorStrength op)) ts r middle →
      Reads (.more outer (.binary op lhs r)) middle e rest →
      Reads (.more outer lhs) (.symbol (.binary op) :: ts) e rest
  | nullTest {outer : Nat} {lhs e : Expr} {op : BinaryOp} {test : UnaryOp}
      {ts rest : List Token} :
      outer < operatorStrength op → op.nullTest? = some test →
      Reads (.more outer (.unary test lhs)) ts e rest →
      Reads (.more outer lhs) (.symbol (.binary op) :: .word .null :: ts) e rest
  | stop {outer : Nat} {e : Expr} {ts : List Token} : Stops outer ts →
      Reads (.more outer e) ts e ts
  | argument {f : Func} {before : List Expr} {a e : Expr} {ts middle rest : List Token} :
      Reads (.tree 0) ts a middle → Reads (.arguments f (before ++ [a])) middle e rest →
      Reads (.arguments f before) (.mark .comma :: ts) e rest
  | close {f : Func} {before : List Expr} {ts : List Token} :
      Reads (.arguments f before) (.mark .right :: ts) (.call f before) ts

namespace Reads

/-- No tree begins with the word `null`, a type label or a closing parenthesis. -/
theorem first_ne {outer : Nat} {t : Token} {ts rest : List Token} {e : Expr}
    (h : Reads (.tree outer) (t :: ts) e rest) :
    t ≠ .word .null ∧ t ≠ .mark .right ∧ ∀ target, t ≠ .word (.label target) := by
  cases h with
  | tree hoperand _ =>
    cases hoperand with
    | leaf hleaf =>
      refine ⟨?_, ?_, fun target => ?_⟩ <;>
      · rintro rfl
        cases hleaf
    | _ => simp

/-- There is one way at most to read tokens. -/
theorem unique {phase : Phase} {ts rest rest' : List Token} {e e' : Expr}
    (h : Reads phase ts e rest) (h' : Reads phase ts e' rest') : e = e' ∧ rest = rest' := by
  induction h generalizing e' rest' with
  | leaf hleaf =>
    cases h' with
    | leaf hleaf' => exact ⟨Option.some.inj (hleaf.symm.trans hleaf'), rfl⟩
    | _ => cases hleaf
  | field =>
    cases h' with
    | leaf hleaf => cases hleaf
    | field => exact ⟨rfl, rfl⟩
  | paren hinner ih =>
    cases h' with
    | leaf hleaf => cases hleaf
    | paren hinner' =>
      obtain ⟨rfl, hrest⟩ := ih hinner'
      exact ⟨rfl, (List.cons.inj hrest).2⟩
    | convert _ => exact absurd rfl (hinner.first_ne.2.2 _)
  | prefixed hop _ ih =>
    cases h' with
    | leaf hleaf => cases hleaf
    | prefixed hop' ha' =>
      obtain rfl := Option.some.inj (hop.symm.trans hop')
      obtain ⟨rfl, rfl⟩ := ih ha'
      exact ⟨rfl, rfl⟩
  | convert _ ih =>
    cases h' with
    | leaf hleaf => cases hleaf
    | paren hinner' => exact absurd rfl (hinner'.first_ne.2.2 _)
    | convert ha' =>
      obtain ⟨rfl, rfl⟩ := ih ha'
      exact ⟨rfl, rfl⟩
  | emptyCall =>
    cases h' with
    | leaf hleaf => cases hleaf
    | emptyCall => exact ⟨rfl, rfl⟩
    | call ha' _ => exact absurd rfl ha'.first_ne.2.1
  | call ha _ iha ih =>
    cases h' with
    | leaf hleaf => cases hleaf
    | emptyCall => exact absurd rfl ha.first_ne.2.1
    | call ha' hmore' =>
      obtain ⟨rfl, rfl⟩ := iha ha'
      exact ih hmore'
  | tree _ _ ihl ih =>
    cases h' with
    | tree hl' hmore' =>
      obtain ⟨rfl, rfl⟩ := ihl hl'
      exact ih hmore'
  | binary hlt hr _ ihr ih =>
    cases h' with
    | binary _ hr' hmore' =>
      obtain ⟨rfl, rfl⟩ := ihr hr'
      exact ih hmore'
    | nullTest _ _ _ => exact absurd rfl hr.first_ne.1
    | stop hstops => exact absurd (hstops _ _ rfl) (by omega)
  | nullTest hlt htest _ ih =>
    cases h' with
    | binary _ hr' _ => exact absurd rfl hr'.first_ne.1
    | nullTest _ htest' hmore' =>
      obtain rfl := Option.some.inj (htest.symm.trans htest')
      exact ih hmore'
    | stop hstops => exact absurd (hstops _ _ rfl) (by omega)
  | stop hstops =>
    cases h' with
    | binary hlt _ _ => exact absurd (hstops _ _ rfl) (by omega)
    | nullTest hlt _ _ => exact absurd (hstops _ _ rfl) (by omega)
    | stop _ => exact ⟨rfl, rfl⟩
  | argument _ _ iha ih =>
    cases h' with
    | argument ha' hmore' =>
      obtain ⟨rfl, rfl⟩ := iha ha'
      exact ih hmore'
  | close =>
    cases h' with
    | close => exact ⟨rfl, rfl⟩

end Reads

/-- A mark stops every tree. -/
theorem stops_mark (outer : Nat) (m : Mark) (ts : List Token) : Stops outer (.mark m :: ts) := nofun

/-- The end of the tokens stops every tree. -/
theorem stops_nil (outer : Nat) : Stops outer [] := nofun

/-- What stops a tree also stops it inside an operator that binds tighter. -/
theorem Stops.mono {outer tighter : Nat} {ts : List Token} (h : Stops outer ts)
    (hle : outer ≤ tighter) : Stops tighter ts :=
  fun op rest hts => Nat.le_trans (h op rest hts) hle

/-- Nothing that follows a prefix and its operand binds tighter. -/
theorem stops_ten (ts : List Token) : Stops 10 ts := by
  intro op rest _
  cases op <;> decide

namespace Expr

/-- Every tree binds at all. -/
theorem strength_pos (e : Expr) : 0 < e.strength := by
  cases e with
  | binary op _ _ => cases op <;> exact Nat.succ_pos _
  | unary op _ => cases op <;> exact Nat.succ_pos _
  | _ => exact Nat.succ_pos _

/-- No operator on one operand binds tighter than those that are written before it. -/
theorem strength_unary_le (op : UnaryOp) (a : Expr) : (unary op a).strength ≤ 10 := by
  cases op <;> simp [strength]

/-- The tokens of the tree are read as the tree, in front of what stops it: reading goes on with the
rest of a tree that begins with it. -/
def Readable (e : Expr) : Prop :=
  ∀ (outer : Nat) (ts rest : List Token) (whole : Expr), outer < e.strength → Stops e.strength ts →
    Reads (.more outer e.eraseRootTypes) ts whole rest →
    Reads (.tree outer) (e.tokens ++ ts) whole rest

/-- What is read as an operand is readable. -/
theorem readable_of_operand {e : Expr}
    (h : ∀ ts, Reads .operand (e.tokens ++ ts) e.eraseRootTypes ts) : e.Readable :=
  fun _ ts _ _ _ _ hmore => .tree (h ts) hmore

/-- A readable tree in parentheses is an operand, and a bare one is read where it binds tighter than
the operator outside. -/
theorem Readable.operand {a : Expr} (h : a.Readable) {parens : Bool} {outer : Nat}
    {ts rest : List Token} {whole : Expr}
    (hbare : parens = false → outer < a.strength ∧ Stops a.strength ts)
    (hmore : Reads (.more outer a.eraseRootTypes) ts whole rest) :
    Reads (.tree outer) (operandTokens parens a.tokens ++ ts) whole rest := by
  cases parens with
  | false =>
    obtain ⟨hlt, hstops⟩ := hbare rfl
    exact h _ _ _ _ hlt hstops hmore
  | true =>
    have hinner : Reads (.tree 0) (a.tokens ++ .mark .right :: ts) a.eraseRootTypes
        (.mark .right :: ts) :=
      h _ _ _ _ a.strength_pos (stops_mark _ _ _) (.stop (stops_mark _ _ _))
    have htokens : operandTokens true a.tokens ++ ts =
        .mark .left :: (a.tokens ++ .mark .right :: ts) := by
      simp [operandTokens]
    rw [htokens]
    exact .tree (.paren hinner) hmore

/-- A right operand without parentheses binds tighter than the operator outside. -/
theorem lt_strength_of_not_needsParens {a : Expr} {outer : Nat}
    (h : needsParens a outer true = false) : outer < a.strength := by
  simp only [needsParens, Bool.true_and, Bool.or_eq_false_iff, decide_eq_false_iff_not,
    beq_eq_false_iff_ne] at h
  omega

/-- A right operand is read up to what its operator leaves. -/
theorem Readable.rightOperand {a : Expr} (h : a.Readable) {outer : Nat} {ts : List Token}
    (hstops : Stops outer ts) :
    Reads (.tree outer) (operandTokens (needsParens a outer true) a.tokens ++ ts) a.eraseRootTypes
      ts := by
  refine h.operand (fun hbare => ?_) (.stop hstops)
  have hlt := lt_strength_of_not_needsParens hbare
  exact ⟨hlt, hstops.mono (Nat.le_of_lt hlt)⟩

/-- A left operand is read before its operator. -/
theorem Readable.leftOperand {a : Expr} (h : a.Readable) {op : BinaryOp} {outer : Nat}
    {ts rest : List Token} {whole : Expr} (hlt : outer < operatorStrength op)
    (hmore : Reads (.more outer a.eraseRootTypes) (.symbol (.binary op) :: ts) whole rest) :
    Reads (.tree outer) (operandTokens (needsParens a (operatorStrength op) false) a.tokens ++
      .symbol (.binary op) :: ts) whole rest := by
  refine h.operand (fun hbare => ?_) hmore
  simp only [needsParens, Bool.false_and, Bool.or_false, decide_eq_false_iff_not] at hbare
  refine ⟨by omega, ?_⟩
  rintro op' _ ⟨⟩
  omega

/-- The operand of a null test is read before it. -/
theorem Readable.reads_nullTest {a : Expr} (h : a.Readable) {op : BinaryOp} {test : UnaryOp}
    {outer : Nat} {ts rest : List Token} {whole : Expr} (htest : op.nullTest? = some test)
    (hop : operatorStrength op = 5) (hlt : outer < 5)
    (hmore : Reads (.more outer (.unary test a.eraseRootTypes)) ts whole rest) :
    Reads (.tree outer) (operandTokens (needsParens a 5 true) a.tokens ++
      .symbol (.binary op) :: .word .null :: ts) whole rest := by
  refine h.operand (fun hbare => ?_) (.nullTest (hop ▸ hlt) htest hmore)
  have hstrength := lt_strength_of_not_needsParens hbare
  refine ⟨by omega, ?_⟩
  rintro op' _ ⟨⟩
  omega

/-- An argument is read up to the comma or the closing parenthesis after it. -/
theorem Readable.reads_argument {a : Expr} (h : a.Readable) (args : List Expr) (ts : List Token) :
    Reads (.tree 0)
      (a.tokens ++ ((args.map tokens).flatMap (.mark .comma :: ·) ++ .mark .right :: ts))
      a.eraseRootTypes ((args.map tokens).flatMap (.mark .comma :: ·) ++ .mark .right :: ts) := by
  have hstops : ∀ outer, Stops outer
      ((args.map tokens).flatMap (.mark .comma :: ·) ++ .mark .right :: ts) := by
    intro outer
    cases args <;> exact stops_mark _ _ _
  exact h _ _ _ _ a.strength_pos (hstops _) (.stop (hstops 0))

/-- The arguments of a call are read one by one, up to the closing parenthesis. -/
theorem reads_arguments {args : List Expr} (h : ∀ a ∈ args, a.Readable) (f : Func)
    (before : List Expr) (ts : List Token) :
    Reads (.arguments f before)
      ((args.map tokens).flatMap (.mark .comma :: ·) ++ .mark .right :: ts)
      (.call f (before ++ args.map eraseRootTypes)) ts := by
  induction args generalizing before with
  | nil =>
    rw [List.map_nil, List.map_nil, List.append_nil]
    exact .close
  | cons a args ih =>
    rw [List.forall_mem_cons] at h
    have hrest := ih h.2 (before ++ [a.eraseRootTypes])
    rw [List.append_assoc, List.singleton_append] at hrest
    rw [List.map_cons, List.map_cons, List.flatMap_cons, List.append_assoc, List.cons_append]
    exact .argument (h.1.reads_argument args ts) hrest

/-- A call with readable arguments is an operand. -/
theorem reads_call {args : List Expr} (h : ∀ a ∈ args, a.Readable) (f : Func) (ts : List Token) :
    Reads .operand ((call f args).tokens ++ ts) (call f args).eraseRootTypes ts := by
  rw [tokens, argumentTokens_eq_map, eraseRootTypes, mapRoots, mapRootsAll_eq_map]
  cases args with
  | nil => exact .emptyCall
  | cons a args =>
    rw [List.forall_mem_cons] at h
    have hrest := reads_arguments h.2 f [a.eraseRootTypes] ts
    rw [List.map_cons, List.map_cons, commaSeparated, List.cons_append, List.cons_append,
      List.append_assoc, List.append_assoc, List.singleton_append]
    exact .call (h.1.reads_argument args ts) hrest

/-- A plain constant is an operand. -/
theorem reads_const {v : Value} (hv : v.IsPlain) (ts : List Token) :
    Reads .operand ((const v).tokens ++ ts) (const v) ts := by
  cases v with
  | bool b => exact .leaf rfl
  | string s => exact .leaf rfl
  | int n =>
    have hn : Int32.ofInt n.toInt.toNat = n := by
      rw [Int.toNat_of_nonneg hv, Int32.ofInt_toInt]
    exact .leaf (congrArg (fun n => some (const (.int n))) hn)
  | null _ | dateTime _ => cases hv

/-- The tokens of a tree with plain constants are readable. -/
theorem readable (e : Expr) (he : e.PlainConstants) : e.Readable := by
  induction e with
  | const v => exact readable_of_operand fun ts => reads_const (he v (self_mem_preorder _)) ts
  | root index type => exact readable_of_operand fun ts => .leaf rfl
  | field column type => exact readable_of_operand fun ts => .field
  | binary op l r ihl ihr =>
    intro outer ts rest whole hlt hstops hmore
    have hl : l.Readable := ihl fun v hv => he v (by simp [hv])
    have hr : r.Readable := ihr fun v hv => he v (by simp [hv])
    rw [tokens, List.append_assoc, List.cons_append]
    exact hl.leftOperand hlt (.binary hlt (hr.rightOperand hstops) hmore)
  | unary op a ih =>
    have ha : a.Readable := ih fun v hv => he v (by simp [hv])
    have hten : ∀ ts, Reads (.tree 10) (operandTokens (needsParens a 10 true) a.tokens ++ ts)
        a.eraseRootTypes ts :=
      fun ts => ha.rightOperand (stops_ten ts)
    cases op with
    | not =>
      refine readable_of_operand fun ts => .prefixed ?_ (hten ts)
      unfold negation
      split <;> rfl
    | negate => exact readable_of_operand fun ts => .prefixed rfl (hten ts)
    | convert target => exact readable_of_operand fun ts => .convert (hten ts)
    | isNull | isNotNull =>
      intro outer ts rest whole hlt _ hmore
      simp only [tokens, strength, List.append_assoc, List.cons_append, List.nil_append]
      exact ha.reads_nullTest rfl rfl hlt hmore
  | call f args ih =>
    have hargs : ∀ a ∈ args, a.Readable :=
      fun a ha => ih a ha fun v hv => he v (mem_preorder_of_mem_args ha hv)
    exact readable_of_operand (reads_call hargs f)

/-- Trees with plain constants and the same tokens are the same up to the types of their
placeholders. -/
theorem sameUpToRootTypes_of_tokens_eq {e e' : Expr} (he : e.PlainConstants)
    (he' : e'.PlainConstants) (h : e.tokens = e'.tokens) : e.SameUpToRootTypes e' := by
  have hreads : ∀ {e : Expr}, e.PlainConstants →
      Reads (.tree 0) (e.tokens ++ []) e.eraseRootTypes [] :=
    fun he => readable _ he _ _ _ _ (strength_pos _) (stops_nil _) (.stop (stops_nil _))
  exact ((hreads he).unique (h ▸ hreads he')).1

end Expr

end QueryParity
