/-
# Messages are lines

Whatever is in a source, an error about it is reported on a single line.  The only texts of a source
that get into messages are those of tokens and of what is no token, and they are quoted: in quoted
text a line end is written as a letter with a backslash.  So no source can make up lines of a
report, and to count the errors in a report it is enough to look at the beginnings of its lines.
-/
import LL1.Proofs.LifeCycle
import Mathlib.Data.Nat.Digits.Defs

namespace LL1

/-! ### Lines -/

namespace Text

/-- The text has no line end in it. -/
def IsLine (s : String) : Prop := '\n' ∉ s.toList

instance (s : String) : Decidable (IsLine s) := inferInstanceAs (Decidable (_ ∉ _))

@[simp] lemma isLine_append {s t : String} : IsLine (s ++ t) ↔ IsLine s ∧ IsLine t := by
  simp [IsLine]

/-- The digits of a number are digits. -/
lemma exists_digitChar_of_mem_toDigits {b n : Nat} {c : Char} (hb : 1 < b)
    (hc : c ∈ Nat.toDigits b n) : ∃ d, c = Nat.digitChar d := by
  induction n using Nat.strongRecOn with
  | ind n ih =>
    rw [Nat.toDigits_eq_if hb] at hc
    split at hc
    · exact ⟨n, by simpa using hc⟩
    · next hn =>
      rcases List.mem_append.mp hc with hc | hc
      · exact ih (n / b) (Nat.div_lt_self (by omega) hb) hc
      · exact ⟨n % b, by simpa using hc⟩

lemma digitChar_ne_newline (d : Nat) : Nat.digitChar d ≠ '\n' := by
  simp only [Nat.digitChar, ne_eq, ite_eq_iff]
  simp

lemma newline_not_mem_toDigits {b : Nat} (hb : 1 < b) (n : Nat) : '\n' ∉ Nat.toDigits b n := by
  intro hmem
  obtain ⟨d, hd⟩ := exists_digitChar_of_mem_toDigits hb hmem
  exact digitChar_ne_newline d hd.symm

@[simp] lemma isLine_repr (n : Nat) : IsLine n.repr := by
  have hdigits : n.repr.toList = Nat.toDigits 10 n := by simp
  rw [IsLine, hdigits]
  exact newline_not_mem_toDigits (by decide) n

/-- A text inside a message is a line or not as it is outside. -/
@[simp] lemma isLine_toString {s : String} : IsLine (toString s) ↔ IsLine s := Iff.rfl

/-- A line end is not shown as it is. -/
lemma newline_not_mem_escape (c : Char) : '\n' ∉ escape c := by
  by_cases hc : c = '\n'
  · subst hc
    decide
  · have hhexadecimal : '\n' ∉ hexadecimal c.toNat := newline_not_mem_toDigits (by decide) _
    rw [escape]
    split_ifs <;> simp [hhexadecimal, Ne.symm hc]

/-- **Quoted text is a line**, whatever has been quoted. -/
theorem isLine_quote (s : String) : IsLine (quote s) := by
  rw [IsLine, quote, String.toList_ofList]
  simp [newline_not_mem_escape]

end Text

open Text

/-! ### Messages about sources -/

lemma Terminal.isLine_name (k : Terminal) : IsLine k.name := by
  cases k <;> decide

lemma Token.isLine_text (t : Token) : IsLine t.text := by
  rw [Token.text]
  split
  · decide
  · simp only [isLine_append]
    exact ⟨⟨t.kind.isLine_name, by decide⟩, isLine_quote t.lexeme⟩

lemma Location.isLine_text (l : Location) : IsLine l.text := by
  have hwords : IsLine "line " ∧ IsLine ", columns " ∧ IsLine "-" ∧ IsLine ", column " := by
    simp [IsLine]
  rw [Location.text]
  split_ifs <;> simp [hwords]

lemma Location.isLine_remark {l : Location} {message : String} (h : IsLine message) :
    IsLine (l.remark message) := by
  simp only [Location.remark, isLine_append]
  exact ⟨⟨h, by decide⟩, l.isLine_text⟩

lemma LexError.isLine_text (e : LexError) : IsLine e.text := by
  have hwords : IsLine "unrecognized character sequence " := by simp [IsLine]
  have hmessage : IsLine e.message := isLine_append.mpr ⟨hwords, isLine_quote e.scanned⟩
  exact Location.isLine_remark hmessage

/-- The names of nonterminals in an error are names that the predictor uses. -/
def ParseError.Names (pr : Predictor) (e : ParseError) : Prop :=
  ∀ t name, e = .syntactic (.unexpected t name) → ∃ i, name = pr.name i

/-- **A message about a source is a line** if the names of nonterminals are. -/
theorem ParseError.Names.isLine_text {pr : Predictor} {e : ParseError} (h : e.Names pr)
    (hpr : ∀ i, IsLine (pr.name i)) : IsLine e.text := by
  cases e with
  | lexical e =>
    rw [ParseError.text, lexicalText, isLine_append]
    exact ⟨by decide, e.isLine_text⟩
  | syntactic e =>
    rw [ParseError.text, syntacticText, isLine_append]
    rw [SyntaxError.text]
    refine ⟨by decide, Location.isLine_remark ?_⟩
    cases e with
    | mismatch expected found =>
      have hwords : IsLine "expected " ∧ IsLine ", found " := by simp [IsLine]
      simp [SyntaxError.message, hwords, expected.isLine_name, found.isLine_text]
    | unexpected found name =>
      obtain ⟨i, rfl⟩ := h found name rfl
      have hwords : IsLine "unexpected " ∧ IsLine " while parsing " := by simp [IsLine]
      simp [SyntaxError.message, hwords, found.isLine_text, hpr i]
  | aborted => simp [ParseError.text, IsLine]

/-! ### The names in messages -/

namespace Parser

variable {pr : Predictor} {p q : Parser} {t : Token} {e : SyntaxError} {x : ParseError} {s : Step}
  {rs : List Run} {fuel limit : Nat}

lemma Acts.names (h : p.Acts t q (some e)) : (ParseError.syntactic e).Names p.predictor := by
  rintro u name hunexpected
  obtain rfl := ParseError.syntactic.inj hunexpected
  cases h with
  | popped _ _ => exact ⟨_, rfl⟩
  | scanned _ _ => exact ⟨_, rfl⟩

end Parser

end LL1
