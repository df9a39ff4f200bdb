/-
# The longest match, and priority

All automata of a scanner read side by side, beyond the characters that any of them accepts, and
what has been read too far is put back, to be read again with other automata in other states.  None
of this is to be seen in the results.  Whatever sources were opened and however much of them was
read, the next token is the longest beginning of what is left that some automaton accepts, and its
kind is that of the first automaton to do so.
-/
import LL1.Proofs.Scanning

namespace LL1

namespace Lexicon

variable {automata : List Automaton} {w : List Char}

/-- What the categories of automata recognise has the kind of the first automaton to accept it. -/
lemma kind?_map_toCategory (automata : List Automaton) (w : List Char) :
    Lexicon.kind? (automata.map (·.toCategory)) w =
      (automata.find? (·.dfa.accepts w)).map (·.kind) := by
  rw [kind?, List.find?_map, Option.map_map]
  rfl

lemma kind?_map_toCategory_eq_none_iff :
    Lexicon.kind? (automata.map (·.toCategory)) w = none ↔
      ∀ a ∈ automata, ¬ a.dfa.accepts w = true := by
  rw [kind?_map_toCategory, Option.map_eq_none_iff, List.find?_eq_none]

end Lexicon

/-! ### Scanners in any state -/

namespace Scanner

variable {automata : List Automaton} {s : Scanner}

/-- The scanners that come of automata, on any sources: at the beginning of one, behind any number
of results, and opened again. -/
inductive Reachable (automata : List Automaton) : Scanner → Prop
  | ofSource (source : String) : Reachable automata (.ofSource automata source)
  | next {s : Scanner} : Reachable automata s → Reachable automata s.next.2
  | reopen {s : Scanner} (source : String) :
      Reachable automata s → Reachable automata (s.reopen source)

/-- What is left to a scanner, without the blanks in front: the characters that were put back and
then those that have never been read. -/
def ahead (s : Scanner) : List Char :=
  (s.pushback.map (·.1) ++ s.source).dropWhile Text.isBlank

lemma Shows.ahead_eq {l : Lexer} (h : s.Shows l) : s.ahead = l.skipBlanks.rest := by
  have hpending := congrArg (List.map (·.1)) h.pending_eq
  rw [pending, List.map_append, Position.map_fst_placed, Position.map_fst_placed] at hpending
  rw [ahead, hpending, l.rest_skipBlanks]

/-- Behind any results a scanner shows a lexer with the categories of its automata. -/
lemma Reachable.exists_shows (h : Reachable automata s) :
    ∃ l : Lexer, l.lexicon = automata.map (·.toCategory) ∧ s.Shows l := by
  induction h with
  | ofSource source => exact ⟨_, rfl, shows_ofSource automata source⟩
  | next _ ih =>
    obtain ⟨l, hlexicon, hshows⟩ := ih
    exact ⟨l.next.2, l.lexicon_next.trans hlexicon, hshows.next.2⟩
  | reopen source _ ih =>
    obtain ⟨l, hlexicon, hshows⟩ := ih
    exact ⟨l.reopen source, hlexicon, hshows.reopen source⟩

/-- **A scanner takes the longest beginning, for the first automaton that accepts it.**  In any
state that a scanner can come to, look at what is left without the blanks in front.  If that is
nothing, the next result is the end of the source.  If some automaton accepts a beginning of it, the
next result is a token of the longest beginning that some automaton accepts, and its kind is that of
the first of these automata.  If there is no such beginning, the next result is an error. -/
theorem Reachable.takes_longest (h : Reachable automata s) :
    (s.ahead = [] → s.next.1 = .ok (.endOfInput s.next.2.cursor)) ∧
    ((∃ w, w ≠ [] ∧ w <+: s.ahead ∧ ∃ a ∈ automata, a.dfa.accepts w = true) →
      ∃ t w a, s.next.1 = .ok t ∧ t.lexeme = String.ofList w ∧ w ≠ [] ∧ w <+: s.ahead ∧
        (∀ v, v <+: s.ahead → w.length < v.length → ∀ b ∈ automata, ¬ b.dfa.accepts v = true) ∧
        automata.find? (·.dfa.accepts w) = some a ∧ t.kind = a.kind) ∧
    (s.ahead ≠ [] → (∀ w, w ≠ [] → w <+: s.ahead → ∀ a ∈ automata, ¬ a.dfa.accepts w = true) →
      ∃ e, s.next.1 = .error e) := by
  obtain ⟨l, hlexicon, hshows⟩ := h.exists_shows
  obtain ⟨hresult, hbehind⟩ := hshows.next
  have hlexicon' : l.skipBlanks.lexicon = automata.map (·.toCategory) := hlexicon
  rw [hresult, hshows.ahead_eq, Lexer.next]
  refine ⟨fun hend => ?_, fun hsome => ?_, fun hne hnone => ?_⟩
  · have hread : l.skipBlanks.read = (.ok (.endOfInput l.skipBlanks.position), l.skipBlanks) := by
      rw [Lexer.read, hend]
    rw [Lexer.next, hread] at hbehind
    rw [hread, (hbehind.nextChar_of_nil hend).2]
  · obtain ⟨v, hv, hprefix, a, ha, haccepts⟩ := hsome
    obtain ⟨kind, hkind⟩ : ∃ kind, l.skipBlanks.lexicon.kind? v = some kind := by
      rw [hlexicon', ← Option.ne_none_iff_exists', ne_eq, Lexicon.kind?_map_toCategory_eq_none_iff]
      exact fun hnone => hnone a ha haccepts
    obtain ⟨kind, w, hlongest⟩ := Munch.exists_longest hkind hv hprefix
    have hw := hlongest.kind_eq
    rw [hlexicon', Lexicon.kind?_map_toCategory, Option.map_eq_some_iff] at hw
    obtain ⟨b, hb, rfl⟩ := hw
    rw [Lexer.read_of_longest hlongest]
    refine ⟨_, w, b, rfl, rfl, hlongest.ne_nil, hlongest.isPrefix, fun u hu hlt => ?_, hb, rfl⟩
    rw [← Lexicon.kind?_map_toCategory_eq_none_iff, ← hlexicon']
    exact hlongest.maximal u hu hlt
  · have hout : l.skipBlanks.lexicon.RulesOut l.skipBlanks.rest := by
      intro w hw hprefix
      rw [hlexicon', Lexicon.kind?_map_toCategory_eq_none_iff]
      exact hnone w hw hprefix
    obtain ⟨e, hread⟩ := Lexer.read_of_rulesOut hout hne
    exact ⟨e, by rw [hread]⟩

/-- For instance, in `1.a` the automaton of numbers reads on to the letter.  The point is read again
as an error, and then the letter, which has been put back, as a name. -/
theorem Reachable.takes_longest_overrun : ∃ s, Reachable (Sql.lexicon.map Automaton.start) s ∧
    s.pushback.map (·.1) = ['a'] ∧ s.source = [] ∧
    ∃ t, s.next.1 = .ok t ∧ t.lexeme = "a" ∧ t.kind = .identifier := by
  generalize hs : (Scanner.ofSource (Sql.lexicon.map Automaton.start) "1.a").next.2.next.2 = s
  have hreachable : Reachable (Sql.lexicon.map Automaton.start) s := hs ▸ .next (.next (.ofSource _))
  obtain ⟨hpushback, hsource⟩ : s.pushback.map (·.1) = ['a'] ∧ s.source = [] := by
    rw [← hs]
    decide +kernel
  have hahead : s.ahead = ['a'] := by
    rw [ahead, hpushback, hsource]
    decide
  obtain ⟨-, htaken, -⟩ := hreachable.takes_longest
  rw [hahead] at htaken
  obtain ⟨t, w, a, ht, hlexeme, hne, hw, -, ha, hkind⟩ :=
    htaken ⟨['a'], by simp, List.prefix_rfl, by decide +kernel⟩
  obtain rfl : w = ['a'] := by
    rcases List.prefix_cons_iff.mp hw with rfl | ⟨v, rfl, hv⟩
    · exact absurd rfl hne
    · rw [List.prefix_nil.mp hv]
  have hfind : ((Sql.lexicon.map Automaton.start).find? (·.dfa.accepts ['a'])).map (·.kind) =
      some .identifier := by decide +kernel
  rw [ha, Option.map_some, Option.some.injEq] at hfind
  exact ⟨s, hreachable, hpushback, hsource, t, ht, hlexeme, hkind.trans hfind⟩

end Scanner

end LL1
