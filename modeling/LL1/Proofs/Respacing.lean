/-
# Tokens written with other blanks between them

If no word of a lexicon can be continued behind a blank, the texts of the tokens of a source can be
written one behind the other with any blanks in between, as long as there are some: the new text has
the same tokens again.  The lexicon of SQL is of this kind.  Quotations may have blanks in them, but
they are complete with their second quote.
-/
import LL1.Proofs.LexicalGrammar
import LL1.Proofs.Partition

namespace LL1

/-- The kind and the text of a token. -/
def Token.spelled (t : Token) : Terminal × String := (t.kind, t.lexeme)

/-- Nothing that is recognised can be continued behind a blank. -/
def Lexicon.EndsAtBlanks (lexicon : Lexicon) : Prop :=
  ∀ kind w b v, lexicon.kind? w = some kind → Text.isBlank b = true →
    lexicon.kind? (w ++ b :: v) = none

/-- Nothing that is recognised can be continued over a blank, wherever behind it the blank is. -/
def Lexicon.StopsAtBlanks (lexicon : Lexicon) : Prop :=
  ∀ kind w u b v, lexicon.kind? w = some kind → Text.isBlank b = true →
    lexicon.kind? (w ++ (u ++ b :: v)) = none

lemma Lexicon.StopsAtBlanks.endsAtBlanks {lexicon : Lexicon} (h : lexicon.StopsAtBlanks) :
    lexicon.EndsAtBlanks :=
  fun kind w b v => h kind w [] b v

/-- In front of a blank a word is the longest beginning that is recognised. -/
lemma Lexicon.EndsAtBlanks.longest {lexicon : Lexicon} {kind : Terminal} {w rest : List Char}
    {b : Char} (h : lexicon.EndsAtBlanks) (hkind : lexicon.kind? w = some kind) (hne : w ≠ [])
    (hb : Text.isBlank b = true) : lexicon.Longest (w ++ b :: rest) kind w where
  ne_nil := hne
  isPrefix := List.prefix_append _ _
  kind_eq := hkind
  maximal := by
    intro v hv hlt
    obtain ⟨u, rfl⟩ := List.prefix_of_prefix_length_le (List.prefix_append w _) hv (by omega)
    have hu : u ≠ [] := by
      rintro rfl
      simp at hlt
    obtain ⟨a, u, rfl⟩ := List.exists_cons_of_ne_nil hu
    obtain ⟨rfl, -⟩ := List.cons_prefix_cons.mp ((List.prefix_append_right_inj w).mp hv)
    exact h kind w a u hkind hb

namespace Lexer

variable {l : Lexer} {lexicon : Lexicon} {t eoi : Token} {ts : List Token}
  {text : List Char}

/-! ### Tokens of a source -/

/-- The text of the token is recognised as its kind, and it does not begin with a blank. -/
structure Readable (lexicon : Lexicon) (t : Token) : Prop where
  kind_eq : lexicon.kind? t.lexeme.toList = some t.kind
  lexeme_eq : ∃ c cs, t.lexeme.toList = c :: cs ∧ Text.isBlank c = false

/-- Behind the blanks there is none. -/
lemma not_isBlank_of_rest_skipBlanks {c : Char} {cs : List Char}
    (h : l.skipBlanks.rest = c :: cs) : Text.isBlank c = false := by
  have hfirst := List.head?_dropWhile_not Text.isBlank l.rest
  rw [← rest_skipBlanks, h] at hfirst
  exact hfirst

lemma readable_of_next {l' : Lexer} (h : l.next = (.ok t, l')) :
    t.spelled = (.endOfInput, "") ∨ Readable l.lexicon t := by
  have hanswers := l.answers_next
  rw [h] at hanswers
  cases hanswers with
  | endOfInput _ => exact .inl rfl
  | @token kind w hlongest =>
    right
    obtain ⟨c, w, rfl⟩ := List.exists_cons_of_ne_nil hlongest.ne_nil
    obtain ⟨rest, hrest⟩ := hlongest.isPrefix
    refine ⟨?_, c, w, String.toList_ofList, not_isBlank_of_rest_skipBlanks hrest.symm⟩
    rw [String.toList_ofList]
    exact hlongest.kind_eq

/-- The tokens of a source are readable, up to the one for its end. -/
lemma readable_of_scan (l : Lexer) :
    ∀ t ∈ l.scan.1, t.spelled = (.endOfInput, "") ∨ Readable l.lexicon t := by
  induction l using scan.induct with
  | case1 l e l' hnext =>
    rw [scan_of_error hnext]
    simp
  | case2 l t l' hnext ht =>
    rw [scan_of_end hnext ht]
    simpa using readable_of_next hnext
  | case3 l t l' hnext ht ih =>
    rw [scan_of_token hnext ht]
    refine List.forall_mem_cons.mpr ⟨readable_of_next hnext, ?_⟩
    rwa [← (next_ok hnext).1]

/-! ### Written words -/

/-- The text is made up of the words, each with blanks behind it, at least one, and it may have more
blanks at its end. -/
inductive Written : List String → List Char → Prop
  | nil {gap : List Char} : (∀ c ∈ gap, Text.isBlank c = true) → Written [] gap
  | cons {word : String} {words : List String} {b : Char} {gap text : List Char} :
      (∀ c ∈ b :: gap, Text.isBlank c = true) → Written words text →
      Written (word :: words) (word.toList ++ (b :: gap ++ text))

/-- A lexer in front of readable tokens, with or without blanks before them, reads these tokens. -/
lemma scan_of_written (hend : l.lexicon.Avoids .endOfInput) (hblank : l.lexicon.EndsAtBlanks)
    (hts : ∀ t ∈ ts, Readable l.lexicon t) (hwritten : Written (ts.map (·.lexeme)) text)
    (hskip : l.skipBlanks.rest = text.dropWhile Text.isBlank) :
    ∃ us, l.scan = (us, none) ∧
      us.map Token.spelled = ts.map Token.spelled ++ [(.endOfInput, "")] := by
  induction ts generalizing l text with
  | nil =>
    cases hwritten with
    | nil hgap =>
      rw [List.dropWhile_eq_nil_iff.mpr hgap] at hskip
      obtain ⟨⟨t, ht, hkind, hlexeme⟩, -⟩ := isEnd_next hend hskip
      have hnext : l.next = (.ok t, l.next.2) := Prod.ext ht rfl
      refine ⟨[t], scan_of_end hnext hkind, ?_⟩
      simp [Token.spelled, hkind, hlexeme]
  | cons t ts ih =>
    obtain ⟨⟨hkind, c, cs, hlexeme, hc⟩, hts⟩ := List.forall_mem_cons.mp hts
    rw [List.map_cons] at hwritten
    cases hwritten with
    | @cons _ _ b gap text hgap hwritten =>
      have hstop : (t.lexeme.toList ++ (b :: gap ++ text)).dropWhile Text.isBlank =
          t.lexeme.toList ++ (b :: gap ++ text) := by
        rw [hlexeme]
        exact List.dropWhile_cons_of_neg (by simp [hc])
      rw [hstop] at hskip
      have hlongest : l.skipBlanks.lexicon.Longest l.skipBlanks.rest t.kind t.lexeme.toList := by
        rw [hskip]
        exact hblank.longest hkind (by simp [hlexeme]) (hgap b List.mem_cons_self)
      have hnext := read_of_longest hlongest
      have hne : t.kind ≠ .endOfInput := fun h => Lexicon.kind?_ne hend _ (h ▸ hkind)
      -- the blanks behind the token come before the other tokens
      have hskip' : (l.skipBlanks.drop t.lexeme.toList.length).skipBlanks.rest =
          text.dropWhile Text.isBlank := by
        rw [rest_skipBlanks, drop, hskip, List.drop_left, List.dropWhile_append_of_pos hgap]
      obtain ⟨us, hus, hspelled⟩ := ih (l := l.skipBlanks.drop t.lexeme.toList.length)
        hend hblank hts hwritten hskip'
      refine ⟨_, (scan_of_token hnext hne).trans (by rw [hus]), ?_⟩
      rw [List.map_cons, hspelled, List.map_cons, Token.spelled, Token.spelled,
        String.ofList_toList]
      rfl

/-- **Tokens can be written with other blanks between them**, if words end at blanks: a text in
which the tokens of a source have been written has the same tokens, with their kinds and texts. -/
theorem scan_eq_of_written {l' : Lexer} (hend : l.lexicon.Avoids .endOfInput)
    (hblank : l.lexicon.EndsAtBlanks) (hlexicon : l'.lexicon = l.lexicon)
    (hscan : l.scan = (ts ++ [eoi], none)) (hwritten : Written (ts.map (·.lexeme)) l'.rest) :
    ∃ us, l'.scan = (us, none) ∧ us.map Token.spelled = (ts ++ [eoi]).map Token.spelled := by
  obtain ⟨ts', eoi', hscan', heoi', hts'⟩ := scan_eq_none (l := l) (by rw [hscan])
  obtain ⟨rfl, hsingle⟩ :=
    List.append_inj' (Prod.mk.inj (hscan'.symm.trans hscan)).1 (by simp)
  obtain rfl : eoi' = eoi := by simpa using hsingle
  have hreadable := l.readable_of_scan
  rw [hscan] at hreadable
  have hts : ∀ t ∈ ts', Readable l'.lexicon t := by
    intro t ht
    rw [hlexicon]
    refine (hreadable t (List.mem_append_left _ ht)).resolve_left fun hspelled => hts' t ht ?_
    exact congrArg Prod.fst hspelled
  have heoi : eoi'.spelled = (.endOfInput, "") := by
    refine (hreadable eoi' (by simp)).resolve_right fun h => ?_
    exact Lexicon.kind?_ne hend _ (heoi' ▸ h.kind_eq)
  obtain ⟨us, hus, hspelled⟩ := scan_of_written (hlexicon ▸ hend) (hlexicon ▸ hblank) hts hwritten
    l'.rest_skipBlanks
  exact ⟨us, hus, by rw [hspelled, List.map_append, List.map_singleton, heoi]⟩

end Lexer

/-! ### Words of SQL -/

namespace Sql

open Dfa

variable {b : Char} {v w : List Char} {kind : Terminal}

lemma not_isBlank_of_alphabet_number (h : number.alphabet b = true) : Text.isBlank b = false := by
  have hcases : ((b.isDigit = true ∨ (b = '+' ∨ b = '-')) ∨ b = '.') ∨ (b = 'e' ∨ b = 'E') := by
    simpa [number, isSign, isExponentMark] using h
  rcases hcases with ((hdigit | rfl | rfl) | rfl) | rfl | rfl
  · exact Text.not_isBlank_of_isAlphanum (by rw [Char.isAlphanum, hdigit, Bool.or_true])
  · decide
  · decide
  · decide
  · decide
  · decide

/-- No word of SQL can be continued over a blank. -/
lemma stopsAtBlanks_lexicon : lexicon.StopsAtBlanks := by
  intro kind w u b v hkind hb
  have hword := isWord_of_kind? hkind
  cases hlong : Lexicon.kind? lexicon (w ++ (u ++ b :: v)) with
  | none => rfl
  | some k =>
    exfalso
    have hmem : b ∈ w ++ (u ++ b :: v) := by simp
    have hform := (isWord_of_kind? hlong).hasForm
    rw [← formOf_of_isPrefix hword.ne_nil (List.prefix_append w _)] at hform
    cases hword with
    | name hw =>
      rw [formOf_of_isIdentifier hw] at hform
      exact absurd (Text.not_isBlank_of_isAlphanum (hform.isAlphanum b hmem)) (by simp [hb])
    | numeral hw =>
      rw [formOf_of_signedDigits (signedDigits_of_isNumber hw)] at hform
      have halphabet := alphabet_of_accepts (accepts_number_iff.mpr hform) b hmem
      exact absurd (not_isBlank_of_alphabet_number halphabet) (by simp [hb])
    | @quotation q body hq hbody =>
      have hlongest := longest_quotation hq hbody (u ++ b :: v)
      have htext : q :: (body ++ [q]) ++ (u ++ b :: v) = q :: (body ++ q :: (u ++ b :: v)) := by
        simp
      rw [htext] at hlong
      have hlonger : (q :: (body ++ [q])).length < (q :: (body ++ q :: (u ++ b :: v))).length := by
        simp only [List.length_cons, List.length_append, List.length_nil]
        omega
      have hnone := hlongest.maximal _ List.prefix_rfl hlonger
      exact absurd (hnone.symm.trans hlong) (by simp)
    | @punctuation kind c hc =>
      have hpunctuation : formOf [c] = some .punctuation := form?_of_punctuation hc
      rw [hpunctuation] at hform
      exact absurd hform (by simp [HasForm])

/-- **Tokens of SQL can be written with other blanks between them.**  If a source has the tokens
`ts`, and the one for its end, and no lexical error, then a text in which they are written one after
the other, with blanks behind each of them, has no lexical error either, and its tokens have the
same kinds and the same texts. -/
theorem scan_respaced {source written : String} {ts : List Token} {eoi : Token}
    (hscan : (Lexer.ofSource lexicon source).scan = (ts ++ [eoi], none))
    (hwritten : Lexer.Written (ts.map (·.lexeme)) written.toList) :
    ∃ us, (Lexer.ofSource lexicon written).scan = (us, none) ∧
      us.map Token.spelled = (ts ++ [eoi]).map Token.spelled :=
  Lexer.scan_eq_of_written (l := .ofSource lexicon source) avoids_endOfInput
    stopsAtBlanks_lexicon.endsAtBlanks rfl hscan hwritten

/-- For instance a number that is read too far at first, and a name, can be pulled apart. -/
theorem scan_respaced_overrun : ∃ ts eoi,
    (Lexer.ofSource lexicon "'a b'1ex").scan = (ts ++ [eoi], none) ∧
      Lexer.Written (ts.map (·.lexeme)) "'a b'\n1 ex  ".toList ∧
      ∃ us, (Lexer.ofSource lexicon "'a b'\n1 ex  ").scan = (us, none) ∧
        us.map Token.spelled = (ts ++ [eoi]).map Token.spelled := by
  have hnone : (Lexer.ofSource lexicon "'a b'1ex").scan.2 = none := by decide +kernel
  have hwords : (Lexer.ofSource lexicon "'a b'1ex").scan.1.map (·.lexeme) =
      ["'a b'", "1", "ex"] ++ [""] := by decide +kernel
  obtain ⟨ts, eoi, hscan, -⟩ := Lexer.scan_eq_none hnone
  rw [hscan, List.map_append] at hwords
  have hwritten : Lexer.Written (ts.map (·.lexeme)) "'a b'\n1 ex  ".toList := by
    have htext : "'a b'\n1 ex  ".toList = "'a b'".toList ++ (['\n'] ++
      ("1".toList ++ ([' '] ++ ("ex".toList ++ ([' '] ++ [' ']))))) := by decide +kernel
    rw [(List.append_inj' hwords rfl).1, htext]
    have hblank : ∀ c ∈ [' '], Text.isBlank c = true := List.forall_mem_singleton.mpr rfl
    have hline : ∀ c ∈ ['\n'], Text.isBlank c = true := List.forall_mem_singleton.mpr rfl
    exact .cons hline (.cons hblank (.cons hblank (.nil hblank)))
  exact ⟨ts, eoi, hscan, hwritten, scan_respaced hscan hwritten⟩

end Sql

end LL1
