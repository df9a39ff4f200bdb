/-
# One source behind another

If the words of a lexicon stop at blanks, a blank keeps apart what is written in front of it and
behind it.  A source in which every text is a token is read in the same way when a line end and
another source follow: the longest words stay the longest ones, since none of them goes on over the
line end.  From there on the results are those of the other source, further down by the lines of the
first one.  Without errors in the first source there is no quotation left open in it, which would
take up the line end.
-/
import LL1.Proofs.Displacement
import LL1.Proofs.Respacing
import Mathlib.Data.Set.List

namespace LL1

/-- Text behind a blank does not change the longest beginning that is recognised. -/
lemma Lexicon.StopsAtBlanks.longest {lexicon : Lexicon} {kind : Terminal} {text w cs : List Char}
    {b : Char} (h : lexicon.StopsAtBlanks) (hlongest : lexicon.Longest text kind w)
    (hb : Text.isBlank b = true) : lexicon.Longest (text ++ b :: cs) kind w where
  ne_nil := hlongest.ne_nil
  isPrefix := hlongest.isPrefix.trans (List.prefix_append _ _)
  kind_eq := hlongest.kind_eq
  maximal := by
    intro v hv hlt
    rcases List.prefix_or_prefix_of_prefix hv (List.prefix_append text (b :: cs)) with
      hv' | ⟨x, rfl⟩
    · exact hlongest.maximal v hv' hlt
    · cases x with
      | nil => exact hlongest.maximal _ (by simp) hlt
      | cons a x =>
        -- the longer text has the blank in it
        obtain ⟨u, rfl⟩ := hlongest.isPrefix
        obtain ⟨rfl, -⟩ := List.cons_prefix_cons.mp ((List.prefix_append_right_inj _).mp hv)
        rw [List.append_assoc]
        exact h kind w u a x hlongest.kind_eq hb

namespace Lexer

variable {l l' : Lexer} {t : Token} {e : LexError} {b : Char} {cs gap : List Char} {m n : Nat}

/-! ### All results of a source -/

/-- All results of a lexer, up to the first token of the kind that ends a source. -/
def allResults (l : Lexer) : List (Except LexError Token) := (results (l.rest.length + 1) l).1

/-- There are no more results than characters and one. -/
lemma results_eq_of_lt (hm : l.rest.length < m) (hn : l.rest.length < n) :
    (results m l).1 = (results n l).1 := by
  induction m generalizing l n with
  | zero => exact absurd hm (Nat.not_lt_zero _)
  | succ m ih =>
    obtain ⟨n, rfl⟩ : ∃ k, n = k + 1 := ⟨n - 1, by omega⟩
    rcases hnext : l.next with ⟨e | t, l'⟩
    · have hlt := (next_error hnext).2
      simp only [results, hnext]
      rw [ih (n := n) (by omega) (by omega)]
    · simp only [results, hnext]
      split
      · rfl
      · next hend =>
        have hlt := ((next_ok hnext).2.resolve_left fun h => hend h.1).2
        simp only
        rw [ih (n := n) (by omega) (by omega)]

lemma allResults_of_end (h : l.next = (.ok t, l')) (ht : t.kind = .endOfInput) :
    l.allResults = [.ok t] := by
  rw [allResults]
  simp only [results, h, ht, if_true]

lemma allResults_of_token (h : l.next = (.ok t, l')) (ht : t.kind ≠ .endOfInput) :
    l.allResults = .ok t :: l'.allResults := by
  have hlt := ((next_ok h).2.resolve_left fun hend => ht hend.1).2
  rw [allResults]
  simp only [results, h, ht, if_false]
  rw [results_eq_of_lt hlt (Nat.lt_succ_self _), allResults]

lemma allResults_of_error (h : l.next = (.error e, l')) :
    l.allResults = .error e :: l'.allResults := by
  have hlt := (next_error h).2
  rw [allResults]
  simp only [results, h]
  rw [results_eq_of_lt hlt (Nat.lt_succ_self _), allResults]

/-- The results depend on nothing but the next one and the lexer behind it. -/
lemma allResults_congr (h : l.next = l'.next) : l.allResults = l'.allResults := by
  rcases hnext' : l'.next with ⟨e | t, l''⟩
  · rw [allResults_of_error (h.trans hnext'), allResults_of_error hnext']
  · by_cases ht : t.kind = .endOfInput
    · rw [allResults_of_end (h.trans hnext') ht, allResults_of_end hnext' ht]
    · rw [allResults_of_token (h.trans hnext') ht, allResults_of_token hnext' ht]

/-- To show something of a lexer and all of its results, it suffices to go back from what is behind
the next result. -/
lemma allResults_induction {motive : Lexer → Prop}
    (end_of_source : ∀ l l' t, l.next = (.ok t, l') → t.kind = .endOfInput → motive l)
    (token : ∀ l l' t, l.next = (.ok t, l') → t.kind ≠ .endOfInput → motive l' → motive l)
    (error : ∀ l l' e, l.next = (.error e, l') → motive l' → motive l) (l : Lexer) : motive l := by
  induction hlength : l.rest.length using Nat.strongRecOn generalizing l with
  | ind length ih =>
    rcases hnext : l.next with ⟨e | t, l'⟩
    · exact error l l' e hnext (ih _ (hlength ▸ (next_error hnext).2) l' rfl)
    · by_cases ht : t.kind = .endOfInput
      · exact end_of_source l l' t hnext ht
      · have hlt := ((next_ok hnext).2.resolve_left fun hend => ht hend.1).2
        exact token l l' t hnext ht (ih _ (hlength ▸ hlt) l' rfl)

/-- The last of all results is the end of the source, and no other is. -/
theorem exists_allResults (l : Lexer) : ∃ rs eoi, l.allResults = rs ++ [.ok eoi] ∧
    eoi.kind = .endOfInput ∧ ∀ t, .ok t ∈ rs → t.kind ≠ .endOfInput := by
  induction l using allResults_induction with
  | end_of_source l l' t hnext ht => exact ⟨[], t, allResults_of_end hnext ht, ht, by simp⟩
  | token l l' t hnext ht ih =>
    obtain ⟨rs, eoi, hrs, heoi, hne⟩ := ih
    refine ⟨.ok t :: rs, eoi, by rw [allResults_of_token hnext ht, hrs]; rfl, heoi, ?_⟩
    intro u hu
    rcases List.mem_cons.mp hu with hu | hu
    · exact Except.ok.inj hu ▸ ht
    · exact hne u hu
  | error l l' e hnext ih =>
    obtain ⟨rs, eoi, hrs, heoi, hne⟩ := ih
    refine ⟨.error e :: rs, eoi, by rw [allResults_of_error hnext, hrs]; rfl, heoi, ?_⟩
    intro u hu
    exact hne u ((List.mem_cons.mp hu).resolve_left (by simp))

/-- All results of a lexer further down are the same, further down. -/
lemma allResults_down (l : Lexer) (k : Nat) :
    (l.down k).allResults = l.allResults.map (resultDown k) := by
  induction l using allResults_induction with
  | end_of_source l l' t hnext ht =>
    have hdown : (l.down k).next = (.ok (t.down k), l'.down k) := by rw [next_down, hnext]; rfl
    rw [allResults_of_end hnext ht, allResults_of_end hdown ht]
    rfl
  | token l l' t hnext ht ih =>
    have hdown : (l.down k).next = (.ok (t.down k), l'.down k) := by rw [next_down, hnext]; rfl
    rw [allResults_of_token hnext ht, allResults_of_token hdown ht, ih]
    rfl
  | error l l' e hnext ih =>
    have hdown : (l.down k).next = (.error (e.down k), l'.down k) := by rw [next_down, hnext]; rfl
    rw [allResults_of_error hnext, allResults_of_error hdown, ih]
    rfl

/-! ### More text behind a source -/

/-- The lexer in front of a source with more text behind it. -/
def followedBy (l : Lexer) (cs : List Char) : Lexer := { l with rest := l.rest ++ cs }

/-- The lexer behind all of the source, with other text to come. -/
def behind (l : Lexer) (cs : List Char) : Lexer :=
  { l with rest := cs, position := l.position.afterAll l.rest }

lemma drop_followedBy (hn : n ≤ l.rest.length) (cs : List Char) :
    (l.followedBy cs).drop n = (l.drop n).followedBy cs := by
  simp only [followedBy, drop, List.drop_append_of_le_length hn, List.take_append_of_le_length hn]

/-- What comes behind a character that is no blank is out of reach of the blanks before it. -/
lemma skipBlanks_followedBy (h : l.skipBlanks.rest ≠ []) (cs : List Char) :
    (l.followedBy cs).skipBlanks = l.skipBlanks.followedBy cs := by
  have hlt : ¬ l.blanks.length = l.rest.length := by
    intro heq
    have hsplit := congrArg List.length l.blanks_append_rest_skipBlanks
    rw [List.length_append, heq, Nat.add_eq_left, List.length_eq_zero_iff] at hsplit
    exact h hsplit
  have hblanks : (l.followedBy cs).blanks = l.blanks := by
    rw [blanks, followedBy, List.takeWhile_append]
    exact if_neg hlt
  have hskip : (l.followedBy cs).skipBlanks = (l.followedBy cs).drop l.blanks.length :=
    congrArg (fun gap : List Char => (l.followedBy cs).drop gap.length) hblanks
  rw [hskip]
  exact drop_followedBy (List.takeWhile_prefix Text.isBlank).length_le cs

/-- Blanks at the end of a source come before what is behind it. -/
lemma skipBlanks_behind (h : l.skipBlanks.rest = []) (cs : List Char) :
    (l.followedBy cs).skipBlanks = (l.behind cs).skipBlanks := by
  have hgap : ∀ c ∈ l.rest, Text.isBlank c = true := by
    rw [rest_skipBlanks, List.dropWhile_eq_nil_iff] at h
    exact h
  have htake : (l.rest ++ cs).takeWhile Text.isBlank = l.rest ++ cs.takeWhile Text.isBlank :=
    List.takeWhile_append_of_pos hgap
  simp only [skipBlanks, followedBy, behind, drop, htake, List.length_append,
    List.drop_length_add_append, List.take_length_add_append, Position.afterAll_append]

/-- A token is the same with a blank and other text behind the source. -/
lemma next_followedBy_token (hl : l.lexicon.StopsAtBlanks) (h : l.next = (.ok t, l'))
    (ht : t.kind ≠ .endOfInput) (hb : Text.isBlank b = true) (cs : List Char) :
    (l.followedBy (b :: cs)).next = (.ok t, l'.followedBy (b :: cs)) := by
  have hanswers := l.answers_next
  rw [h] at hanswers
  cases hanswers with
  | endOfInput _ => exact absurd rfl ht
  | @token kind w hlongest =>
    have hne : l.skipBlanks.rest ≠ [] := by
      intro hnil
      exact hlongest.ne_nil (List.prefix_nil.mp (hnil ▸ hlongest.isPrefix))
    have hlongest' : (l.skipBlanks.followedBy (b :: cs)).lexicon.Longest
        (l.skipBlanks.followedBy (b :: cs)).rest kind w :=
      Lexicon.StopsAtBlanks.longest hl hlongest hb
    rw [next, skipBlanks_followedBy hne, read_of_longest hlongest',
      drop_followedBy hlongest.isPrefix.length_le]
    rfl

/-- Instead of the end of the source there is what comes behind it. -/
lemma next_followedBy_end (hend : l.lexicon.Avoids .endOfInput) (h : l.next = (.ok t, l'))
    (ht : t.kind = .endOfInput) (cs : List Char) :
    (l.followedBy cs).next = (l.behind cs).next := by
  have hanswers := l.answers_next
  rw [h] at hanswers
  cases hanswers with
  | endOfInput hnil => rw [next, skipBlanks_behind hnil, next]
  | @token kind w hlongest =>
    obtain rfl : kind = .endOfInput := ht
    exact absurd hlongest.kind_eq (Lexicon.kind?_ne hend w)

lemma behind_drop (l : Lexer) (n : Nat) (cs : List Char) : (l.drop n).behind cs = l.behind cs := by
  simp only [behind, drop]
  rw [← Position.afterAll_append, List.take_append_drop]

/-- A token leads on towards the place behind the source. -/
lemma behind_of_next (h : l.next = (.ok t, l')) (cs : List Char) : l'.behind cs = l.behind cs := by
  have hskip : l.skipBlanks.behind cs = l.behind cs := l.behind_drop _ cs
  have hanswers := l.answers_next
  rw [h] at hanswers
  cases hanswers with
  | endOfInput _ => exact hskip
  | token _ => exact (behind_drop _ _ cs).trans hskip

/-- **A blank keeps two texts apart.**  If a source has no errors, its results with a blank and
other text behind it are its own without the last one, which is its end, and then those of the other
text. -/
theorem allResults_followedBy (hl : l.lexicon.StopsAtBlanks) (hend : l.lexicon.Avoids .endOfInput)
    (h : ∀ r ∈ l.allResults, r.isOk = true) (hb : Text.isBlank b = true) (cs : List Char) :
    (l.followedBy (b :: cs)).allResults =
      l.allResults.dropLast ++ (l.behind (b :: cs)).allResults := by
  induction l using allResults_induction with
  | end_of_source l l' t hnext ht =>
    rw [allResults_of_end hnext ht, allResults_congr (next_followedBy_end hend hnext ht _)]
    rfl
  | token l l' t hnext ht ih =>
    have hlexicon : l'.lexicon = l.lexicon := (next_ok hnext).1
    rw [allResults_of_token hnext ht] at h
    have ih := ih (hlexicon ▸ hl) (hlexicon ▸ hend) fun r hr => h r (List.mem_cons_of_mem _ hr)
    have hne : l'.allResults ≠ [] := by
      obtain ⟨rs, eoi, hrs, -⟩ := l'.exists_allResults
      simp [hrs]
    rw [allResults_of_token (next_followedBy_token hl hnext ht hb cs) ht, ih,
      behind_of_next hnext, allResults_of_token hnext ht, List.dropLast_cons_of_ne_nil hne,
      List.cons_append]
  | error l l' e hnext ih =>
    rw [allResults_of_error hnext] at h
    exact absurd (h (.error e) List.mem_cons_self) (by simp [Except.isOk, Except.toBool])

/-- Behind a source and a line end another source begins as it does alone, but further down. -/
lemma next_behind_newline (lexicon : Lexicon) (s₁ s₂ : String) :
    ((ofSource lexicon s₁).behind ('\n' :: s₂.toList)).next =
      ((ofSource lexicon s₂).down (s₁.toList.count '\n' + 1)).next := by
  -- the line end is a blank
  have hskip := skipBlanks_behind (l := ⟨lexicon, ['\n'], Position.first.afterAll s₁.toList⟩) rfl
    s₂.toList
  have hplace : (Position.first.afterAll s₁.toList).afterAll ['\n'] =
      Position.first.down (s₁.toList.count '\n' + 1) := by
    rw [← Position.afterAll_append, Position.afterAll_append_newline]
    rfl
  rw [behind, hplace] at hskip
  exact congrArg read hskip

/-- A source with a line end and another source behind it. -/
lemma ofSource_newline (lexicon : Lexicon) (s₁ s₂ : String) :
    ofSource lexicon (s₁ ++ "\n" ++ s₂) =
      (ofSource lexicon s₁).followedBy ('\n' :: s₂.toList) := by
  simp [ofSource, followedBy]

end Lexer

namespace Sql

open Lexer

/-- **SQL can be read source by source.**  The results for a source without errors, a line end and
another source are the tokens of the first one, without its end, and then all results for the other,
tokens and errors, further down by the lines of the first. -/
theorem allResults_newline {s₁ s₂ : String}
    (h : ∀ r ∈ (ofSource lexicon s₁).allResults, r.isOk = true) : ∃ (ts : List Token) (eoi : Token),
      (ofSource lexicon s₁).allResults = ts.map .ok ++ [.ok eoi] ∧ eoi.kind = .endOfInput ∧
      (∀ t ∈ ts, t.kind ≠ .endOfInput) ∧
      (ofSource lexicon (s₁ ++ "\n" ++ s₂)).allResults = ts.map .ok ++
        (ofSource lexicon s₂).allResults.map (resultDown (s₁.toList.count '\n' + 1)) := by
  obtain ⟨rs, eoi, hrs, heoi, hne⟩ := (ofSource lexicon s₁).exists_allResults
  obtain ⟨ts, rfl⟩ : rs ∈ Set.range (List.map (.ok : Token → Except LexError Token)) := by
    rw [Set.range_list_map]
    intro r hr
    have hok := h r (hrs ▸ List.mem_append_left _ hr)
    cases r with
    | ok t => exact ⟨t, rfl⟩
    | error e => exact absurd hok (by simp [Except.isOk, Except.toBool])
  refine ⟨ts, eoi, hrs, heoi, fun t ht => hne t (List.mem_map_of_mem ht), ?_⟩
  rw [ofSource_newline, allResults_followedBy stopsAtBlanks_lexicon avoids_endOfInput h rfl, hrs,
    List.dropLast_concat, allResults_congr (next_behind_newline lexicon s₁ s₂), allResults_down]

/-- For instance, a number that is read too far is cut back at the line end in the same way, a
quotation may go over lines, and the errors of the other source are its own. -/
theorem allResults_newline_quotation :
    (∀ r ∈ (ofSource lexicon "'a\n;' 1e").allResults, r.isOk = true) ∧
      ∃ (ts : List Token) (eoi : Token),
        (ofSource lexicon "'a\n;' 1e").allResults = ts.map .ok ++ [.ok eoi] ∧
        eoi.kind = .endOfInput ∧ (∀ t ∈ ts, t.kind ≠ .endOfInput) ∧
        (ofSource lexicon ("'a\n;' 1e" ++ "\n" ++ "+ 'b\n")).allResults = ts.map .ok ++
          (ofSource lexicon "+ 'b\n").allResults.map
            (resultDown ("'a\n;' 1e".toList.count '\n' + 1)) := by
  have h : ∀ r ∈ (ofSource lexicon "'a\n;' 1e").allResults, r.isOk = true := by decide +kernel
  exact ⟨h, allResults_newline h⟩

end Sql

end LL1
