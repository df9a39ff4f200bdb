/-
# A source is made up of what its lexer reads

Asked again and again, a lexer passes over blanks and answers each time with a token or an error.
A token stands for its text, and an error for the first of the characters that it reports, since
the others are read again.  Put one behind the other, the blanks and these blocks are the source:
nothing is lost and nothing is repeated.  Each block has at least one character, so the end of the
source is reached after at most as many results as it has characters, and it is never left again.
-/
import LL1.Proofs.MaximalMunch
import Mathlib.Data.List.TakeWhile

namespace LL1

/-- No category of the lexicon is the kind `k`. -/
def Lexicon.Avoids (lexicon : Lexicon) (k : Terminal) : Prop := ∀ c ∈ lexicon, c.kind ≠ k

lemma Lexicon.kind?_ne {lexicon : Lexicon} {k : Terminal} (h : lexicon.Avoids k) (w : List Char) :
    lexicon.kind? w ≠ some k := by
  intro hk
  obtain ⟨c, hc, hkind⟩ := Option.map_eq_some_iff.mp hk
  exact h c (List.mem_of_find?_eq_some hc) hkind

lemma Sql.avoids_endOfInput : Sql.lexicon.Avoids .endOfInput :=
  fun c hc => (ordinary_lexicon c hc).2

namespace Lexer

variable {l l' : Lexer} {lexicon : Lexicon} {r : Except LexError Token} {i n : Nat}

/-- The part of a source that a result stands for: the text of a token, or the first of the
characters in which no token begins. -/
def block : Except LexError Token → List Char
  | .ok t => t.lexeme.toList
  | .error e => e.scanned.toList.take 1

/-- The result says that the source has come to its end. -/
def IsEnd (r : Except LexError Token) : Prop :=
  ∃ t, r = .ok t ∧ t.kind = .endOfInput ∧ t.lexeme = ""

/-- The result stands for a part of the source: it is a token that is not empty, or an error about
some characters. -/
def IsPart (r : Except LexError Token) : Prop :=
  (∃ t, r = .ok t ∧ t.kind ≠ .endOfInput ∧ t.lexeme ≠ "") ∨ ∃ e, r = .error e ∧ e.scanned ≠ ""

lemma IsPart.length_block_pos (h : IsPart r) : 0 < (block r).length := by
  rcases h with ⟨t, rfl, -, hne⟩ | ⟨e, rfl, hne⟩
  · exact List.length_pos_iff.mpr fun hnil => hne (String.toList_eq_nil_iff.mp hnil)
  · have hpos : 0 < e.scanned.toList.length :=
      List.length_pos_iff.mpr fun hnil => hne (String.toList_eq_nil_iff.mp hnil)
    rw [block, List.length_take]
    omega

/-! ### Single results -/

lemma Answers.lexicon_eq (h : l.Answers (r, l')) : l'.lexicon = l.lexicon := by
  cases h <;> rfl

/-- A result takes up its block and leaves the rest. -/
lemma Answers.block_append_rest (h : l.Answers (r, l')) : block r ++ l'.rest = l.rest := by
  cases h with
  | endOfInput _ => rfl
  | @token kind w hlongest =>
    have hdrop : (l.drop w.length).rest = l.rest.drop w.length := rfl
    rw [block, String.toList_ofList, hdrop]
    exact (List.prefix_append_drop hlongest.isPrefix).symm
  | @error c cs _ hscanned =>
    have hdrop : (l.drop 1).rest = l.rest.drop 1 := rfl
    obtain ⟨rest, hrest⟩ := hscanned
    rw [block, String.toList_ofList, hdrop, ← hrest]
    rfl

/-- A lexer is at the end of the source and stays there, or its result is a part of the source. -/
lemma Answers.end_or_part (h : l.Answers (r, l')) (hl : l.lexicon.Avoids .endOfInput) :
    (IsEnd r ∧ l.rest = [] ∧ l' = l) ∨ IsPart r := by
  cases h with
  | endOfInput hrest => exact .inl ⟨⟨_, rfl, rfl, rfl⟩, hrest, rfl⟩
  | token hlongest =>
    refine .inr (.inl ⟨_, rfl, ?_, by simpa using hlongest.ne_nil⟩)
    rintro rfl
    exact Lexicon.kind?_ne hl _ hlongest.kind_eq
  | error _ _ => exact .inr (.inr ⟨_, rfl, by simp⟩)

lemma Answers.length_lt (h : l.Answers (r, l')) (hr : IsPart r) :
    l'.rest.length < l.rest.length := by
  have hpos := hr.length_block_pos
  rw [← h.block_append_rest, List.length_append]
  omega

lemma answers_next (l : Lexer) : l.skipBlanks.Answers (l.next.1, l.next.2) :=
  l.skipBlanks.answers_read

lemma lexicon_next (l : Lexer) : l.next.2.lexicon = l.lexicon := l.answers_next.lexicon_eq

/-- **A result takes up the blanks and its block**, and the rest of the source is left. -/
theorem rest_eq_append (l : Lexer) : l.rest = l.blanks ++ block l.next.1 ++ l.next.2.rest := by
  rw [List.append_assoc, l.answers_next.block_append_rest, blanks_append_rest_skipBlanks]

lemma rest_skipBlanks_of_rest (h : l.rest = []) : l.skipBlanks.rest = [] := by
  have hsplit := l.blanks_append_rest_skipBlanks
  rw [h] at hsplit
  exact (List.append_eq_nil_iff.mp hsplit).2

/-- If only blanks are left, the result says that the source has come to its end. -/
lemma isEnd_next (hl : l.lexicon.Avoids .endOfInput) (hend : l.skipBlanks.rest = []) :
    IsEnd l.next.1 ∧ l.next.2.rest = [] := by
  rcases l.answers_next.end_or_part hl with ⟨hisEnd, hrest, hl'⟩ | hpart
  · exact ⟨hisEnd, hl' ▸ hrest⟩
  · have hlt := l.answers_next.length_lt hpart
    rw [hend] at hlt
    exact absurd hlt (Nat.not_lt_zero _)

/-! ### All results -/

/-- The lexer after its first `n` results. -/
def after (l : Lexer) : Nat → Lexer
  | 0 => l
  | n + 1 => l.next.2.after n

/-- The result with the number `n`, counted from zero. -/
def result (l : Lexer) (n : Nat) : Except LexError Token := (l.after n).next.1

lemma after_add (l : Lexer) (m n : Nat) : l.after (m + n) = (l.after m).after n := by
  induction m generalizing l with
  | zero => rw [Nat.zero_add, after]
  | succ m ih =>
    rw [Nat.succ_add, after, after]
    exact ih l.next.2

lemma lexicon_after (l : Lexer) (n : Nat) : (l.after n).lexicon = l.lexicon := by
  induction n generalizing l with
  | zero => rfl
  | succ n ih => exact (ih l.next.2).trans l.lexicon_next

/-- The first `n` results with the blanks in front of them take up a beginning of the source. -/
lemma rest_eq_flatMap (l : Lexer) (n : Nat) :
    l.rest = (List.range n).flatMap (fun i => (l.after i).blanks ++ block (l.result i)) ++
      (l.after n).rest := by
  induction n generalizing l with
  | zero => rfl
  | succ n ih =>
    rw [List.range_succ_eq_map, List.flatMap_cons, List.flatMap_map, List.append_assoc]
    calc l.rest = l.blanks ++ block l.next.1 ++ l.next.2.rest := l.rest_eq_append
      _ = _ := by rw [ih l.next.2]; rfl

/-- From the end of the source on every result says so. -/
lemma isEnd_result (hl : l.lexicon.Avoids .endOfInput) (hend : l.skipBlanks.rest = []) (i : Nat) :
    IsEnd (l.result i) := by
  induction i generalizing l with
  | zero => exact (isEnd_next hl hend).1
  | succ i ih =>
    have hl' : l.next.2.lexicon.Avoids .endOfInput := l.lexicon_next ▸ hl
    exact ih hl' (rest_skipBlanks_of_rest (isEnd_next hl hend).2)

/-- The end of the source is reached after as many results as there are characters left. -/
lemma exists_end (hl : l.lexicon.Avoids .endOfInput) : ∃ n ≤ l.rest.length,
    (∀ i < n, IsPart (l.result i)) ∧ (l.after n).skipBlanks.rest = [] := by
  induction hlength : l.rest.length using Nat.strongRecOn generalizing l with
  | ind length ih =>
    rcases l.answers_next.end_or_part hl with ⟨-, hrest, -⟩ | hpart
    · exact ⟨0, Nat.zero_le _, by simp, hrest⟩
    · have hlt : l.next.2.rest.length < l.rest.length :=
        Nat.lt_of_lt_of_le (l.answers_next.length_lt hpart) l.length_skipBlanks_le
      obtain ⟨n, hn, hparts, hend⟩ :=
        ih _ (hlength ▸ hlt) (l.lexicon_next ▸ hl) rfl
      refine ⟨n + 1, by omega, fun i hi => ?_, hend⟩
      cases i with
      | zero => exact hpart
      | succ i => exact hparts i (by omega)

/-- **A lexer loses and repeats no character of its source, and it always gets on.**  After at most
as many results as the source has characters, each of which is a token that is not empty or an
error, all results say that the source has come to its end.  The blanks passed over and the blocks
that the results stand for, one behind the other, are the source. -/
theorem exists_partition (hlexicon : lexicon.Avoids .endOfInput) (source : String) :
    ∃ n ≤ source.length,
      (∀ i < n, IsPart ((ofSource lexicon source).result i)) ∧
      (∀ i, n ≤ i → IsEnd ((ofSource lexicon source).result i)) ∧
      (∀ i, ∀ c ∈ ((ofSource lexicon source).after i).blanks, Text.isBlank c = true) ∧
      source.toList = (List.range (n + 1)).flatMap fun i =>
        ((ofSource lexicon source).after i).blanks ++
          block ((ofSource lexicon source).result i) := by
  generalize hl : ofSource lexicon source = l
  have hrest : l.rest = source.toList := by rw [← hl]; rfl
  have havoids : l.lexicon.Avoids .endOfInput := by rw [← hl]; exact hlexicon
  obtain ⟨n, hn, hparts, hend⟩ := exists_end havoids
  have havoids' : (l.after n).lexicon.Avoids .endOfInput := l.lexicon_after n ▸ havoids
  refine ⟨n, by rwa [hrest, String.length_toList] at hn, hparts, fun i hi => ?_,
    fun i c hc => List.mem_takeWhile_imp hc, ?_⟩
  · obtain ⟨k, rfl⟩ := Nat.exists_eq_add_of_le hi
    have hresult : l.result (n + k) = (l.after n).result k := by
      rw [result, after_add]
      rfl
    exact hresult ▸ isEnd_result havoids' hend k
  · have hnil : (l.after (n + 1)).rest = [] := by
      rw [after_add]
      exact (isEnd_next havoids' hend).2
    rw [← hrest, l.rest_eq_flatMap (n + 1), hnil, List.append_nil]

/-- For instance a number whose point has no digits behind it is cut back, and the point is read
again as an error. -/
theorem exists_partition_overrun : Sql.lexicon.Avoids .endOfInput ∧ ∃ n ≤ "12. x".length,
    (∀ i < n, IsPart ((ofSource Sql.lexicon "12. x").result i)) ∧
    (∀ i, n ≤ i → IsEnd ((ofSource Sql.lexicon "12. x").result i)) ∧
    (∀ i, ∀ c ∈ ((ofSource Sql.lexicon "12. x").after i).blanks, Text.isBlank c = true) ∧
    "12. x".toList = (List.range (n + 1)).flatMap fun i =>
      ((ofSource Sql.lexicon "12. x").after i).blanks ++
        block ((ofSource Sql.lexicon "12. x").result i) :=
  ⟨Sql.avoids_endOfInput, exists_partition Sql.avoids_endOfInput "12. x"⟩

end Lexer

end LL1
