import QueryParity.Text.Quoted

/-!
# Reading quoted text

The written forms of characters can be read back one after the other: short escapes are told apart
by the character after the backslash, a code point ends at its closing brace, and every other
character stands for itself. So a quoted text ends where it seems to, whatever follows it, and
determines the text.
-/

namespace QueryParity.Quoted

/-- Value of a hexadecimal digit. -/
def hexDigit (c : Char) : Nat := if c.isDigit then c.toNat - 48 else c.toNat - 87

/-- The number with the given hexadecimal digits. -/
def ofHex (cs : List Char) : Nat := cs.foldl (fun n c => 16 * n + hexDigit c) 0

/-- The character with the given short escape. -/
def ofShortEscape : Char → Char
  | '0' => '\x00'
  | 't' => '\t'
  | 'r' => '\r'
  | 'n' => '\n'
  | c => c

/-- Read the written form of one character; what is left is what follows it. -/
def unescape : List Char → Option (Char × List Char)
  | [] => none
  | '\\' :: 'u' :: '\x7b' :: cs =>
    some (Char.ofNat (ofHex (cs.takeWhile (· != '\x7d'))), (cs.dropWhile (· != '\x7d')).tail)
  | '\\' :: c :: cs => some (ofShortEscape c, cs)
  | c :: cs => some (c, cs)

/-- A hexadecimal digit has its value. -/
theorem hexDigit_digitChar : ∀ d < 16, hexDigit (Nat.digitChar d) = d := by decide

/-- The hexadecimal digits of a number are read as the number. -/
theorem ofHex_toDigits (n : Nat) : ofHex (Nat.toDigits 16 n) = n := by
  induction n using Nat.strongRecOn with
  | ind n ih =>
    rw [Nat.toDigits_eq_if (by decide)]
    split
    case isTrue hn => simp [ofHex, hexDigit_digitChar n hn]
    case isFalse hn =>
      have hinit := ih (n / 16) (by omega)
      rw [ofHex] at hinit ⊢
      rw [List.foldl_append, hinit, List.foldl_cons, List.foldl_nil,
        hexDigit_digitChar _ (Nat.mod_lt n (by decide))]
      omega

/-- No hexadecimal digit is a brace. -/
theorem ne_brace_of_mem_toDigits (n : Nat) : ∀ c ∈ Nat.toDigits 16 n, (c != '\x7d') = true := by
  have hdigit : ∀ d, (Nat.digitChar d != '\x7d') = true :=
    fun d => bne_iff_ne.mpr (Nat.digitChar_ne _ rfl)
  induction n using Nat.strongRecOn with
  | ind n ih =>
    rw [Nat.toDigits_eq_if (by decide)]
    split
    · simp
    · have hinit := ih (n / 16) (by omega)
      simpa [or_imp, forall_and, hdigit] using hinit

/-- The written form of a character is read as the character. -/
theorem unescape_escape (c : Char) (cs : List Char) : unescape (escape c ++ cs) = some (c, cs) := by
  unfold escape
  split <;> try rfl
  split
  · -- A visible character is not the backslash, which the cases before have left out.
    rw [List.singleton_append]
    unfold unescape
    split <;> simp_all
  · have hdigits := ne_brace_of_mem_toDigits c.toNat
    simp only [List.cons_append, List.nil_append, List.append_assoc, unescape,
      List.takeWhile_append_of_pos hdigits, List.dropWhile_append_of_pos hdigits]
    simp [ofHex_toDigits]

/-- The written form of a character does not begin with a quote. -/
theorem head?_escape_append (c : Char) (cs : List Char) : (escape c ++ cs).head? ≠ some '"' := by
  unfold escape
  split <;> try simp
  split
  · simpa using ‹¬c = '"'›
  · simp

/-- The characters of a text, up to the closing quote and what follows it, determine the text. -/
theorem flatMap_escape_inj {s s' cs cs' : List Char}
    (h : s.flatMap escape ++ '"' :: cs = s'.flatMap escape ++ '"' :: cs') : s = s' ∧ cs = cs' := by
  induction s generalizing s' with
  | nil =>
    cases s' with
    | nil => exact ⟨rfl, (List.cons.inj h).2⟩
    | cons c' s' =>
      rw [List.flatMap_cons, List.append_assoc] at h
      exact absurd (congrArg List.head? h).symm (head?_escape_append c' _)
  | cons c s ih =>
    rw [List.flatMap_cons, List.append_assoc] at h
    cases s' with
    | nil => exact absurd (congrArg List.head? h) (head?_escape_append c _)
    | cons c' s' =>
      rw [List.flatMap_cons, List.append_assoc] at h
      have hread := congrArg unescape h
      rw [unescape_escape, unescape_escape, Option.some.injEq, Prod.mk.injEq] at hread
      obtain ⟨rfl, hrest⟩ := hread
      obtain ⟨rfl, hcs⟩ := ih hrest
      exact ⟨rfl, hcs⟩

/-- A quoted text ends where it seems to, and it determines the text. -/
theorem encode_append_inj {s s' cs cs' : List Char}
    (h : encode s ++ cs = encode s' ++ cs') : s = s' ∧ cs = cs' := by
  rw [encode, encode, List.cons_append, List.cons_append, List.append_assoc, List.append_assoc] at h
  exact flatMap_escape_inj (List.cons.inj h).2

end QueryParity.Quoted
