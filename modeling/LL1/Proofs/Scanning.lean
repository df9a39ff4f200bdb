/-
# Scanners read as lexers do

What is left to a scanner is what it has put back and what it has never read.  A scanner shows a
lexer if these characters and their places are those in front of which the lexer stands; the states
of its automata do not matter, since they are set back before they are used.  Then the next results
of both are the same, and the scanner shows the lexer behind this result, however much it has read
too far and put back.
-/
import LL1.Lexing.Scanner
import LL1.Proofs.Partition

namespace LL1

/-! ### Characters with places -/

/-- The characters of a text that begins at `p`, with their places. -/
def Position.placed (p : Position) : List Char → List (Char × Position)
  | [] => []
  | c :: cs => (c, p) :: (p.after c).placed cs

namespace Position

variable {p : Position} {cs ds : List Char}

@[simp] lemma placed_nil (p : Position) : p.placed [] = [] := rfl

@[simp] lemma map_fst_placed (p : Position) (cs : List Char) : (p.placed cs).map (·.1) = cs := by
  induction cs generalizing p with
  | nil => rfl
  | cons c cs ih => rw [placed, List.map_cons, ih]

@[simp] lemma length_placed (p : Position) (cs : List Char) :
    (p.placed cs).length = cs.length := by
  rw [← List.length_map, map_fst_placed]

lemma placed_append (p : Position) (cs ds : List Char) :
    p.placed (cs ++ ds) = p.placed cs ++ (p.afterAll cs).placed ds := by
  induction cs generalizing p with
  | nil => rfl
  | cons c cs ih => rw [List.cons_append, placed, ih, placed, afterAll_cons, List.cons_append]

lemma take_placed (p : Position) (cs : List Char) (n : Nat) :
    (p.placed cs).take n = p.placed (cs.take n) := by
  induction n generalizing p cs with
  | zero => rfl
  | succ n ih =>
    cases cs with
    | nil => rfl
    | cons c cs => rw [placed, List.take_succ_cons, ih, List.take_succ_cons, placed]

lemma drop_placed (p : Position) (cs : List Char) (n : Nat) :
    (p.placed cs).drop n = (p.afterAll (cs.take n)).placed (cs.drop n) := by
  induction n generalizing p cs with
  | zero => rfl
  | succ n ih =>
    cases cs with
    | nil => rfl
    | cons c cs =>
      rw [placed, List.drop_succ_cons, ih, List.take_succ_cons, List.drop_succ_cons, afterAll_cons]

/-- The last character of a text stands behind all others. -/
lemma exists_getLast?_placed (p : Position) (h : cs ≠ []) :
    ∃ c, (p.placed cs).getLast? = some (c, p.afterAll cs.dropLast) := by
  obtain ⟨ds, c, rfl⟩ := (List.eq_nil_or_concat' cs).resolve_left h
  exact ⟨c, by rw [placed_append, List.dropLast_concat, placed, placed, List.getLast?_concat]⟩

end Position

/-- What is accepted has been read. -/
lemma Munch.best_le_scanned {run : List Automaton} {best : Option (Terminal × Nat)}
    {cs : List Char} {kind : Terminal} {m n : Nat} (hbest : ∀ k m, best = some (k, m) → m ≤ n)
    (h : (resume run n best cs).best = some (kind, m)) : m ≤ (resume run n best cs).scanned := by
  induction cs generalizing run n best with
  | nil => exact hbest kind m h
  | cons c cs ih =>
    obtain ⟨best', hbest', hresume⟩ := resume_cons run n best c cs
    have hle : ∀ k m, best' = some (k, m) → m ≤ n + 1 := by
      rintro k m rfl
      rcases hbest' with hsame | ⟨k', -, hnew⟩
      · exact Nat.le_succ_of_le (hbest k m hsame.symm)
      · exact (Prod.mk.inj (Option.some.inj hnew)).2.le
    rw [hresume] at h ⊢
    split at h
    · next hfailed => exact if_pos hfailed ▸ hle kind m h
    · next hfailed => exact if_neg hfailed ▸ ih hle h

/-- A lexer passes over one part of its source after the other. -/
lemma Lexer.drop_drop (l : Lexer) (m n : Nat) : (l.drop m).drop n = l.drop (m + n) := by
  simp only [drop, List.drop_drop, List.take_add, Position.afterAll_append]

lemma Lexer.read_of_best {l : Lexer} {kind : Terminal} {n : Nat} (hrest : l.rest ≠ [])
    (h : (Munch.ofText l.lexicon l.rest).best = some (kind, n)) : l.read =
      (.ok ⟨kind, .ofList (l.rest.take n), .ofText l.position (l.rest.take n)⟩, l.drop n) := by
  rw [read]
  split
  · next hnil => exact absurd hnil hrest
  · simp only [h]

lemma Lexer.read_of_none {l : Lexer} (hrest : l.rest ≠ [])
    (h : (Munch.ofText l.lexicon l.rest).best = none) : l.read =
      (.error ⟨.ofList (l.rest.take (Munch.ofText l.lexicon l.rest).scanned),
        .ofText l.position (l.rest.take (Munch.ofText l.lexicon l.rest).scanned)⟩, l.drop 1) := by
  rw [read]
  split
  · next hnil => exact absurd hnil hrest
  · simp only [h]

namespace Scanner

variable {s s' : Scanner} {l : Lexer} {p : Position} {c : Char} {cs : List Char} {m n : Nat}

lemma textOf_placed (p : Position) (cs : List Char) : textOf (p.placed cs) = .ofList cs := by
  rw [textOf, Position.map_fst_placed]

lemma span_placed (p : Position) (h : cs ≠ []) : span (p.placed cs) = .ofText p cs := by
  obtain ⟨d, hlast⟩ := Position.exists_getLast?_placed p h
  obtain ⟨c, cs, rfl⟩ := List.exists_cons_of_ne_nil h
  rw [span, hlast]
  rfl

/-! ### What a scanner shows -/

/-- The characters to be read with their places. -/
def pending (s : Scanner) : List (Char × Position) := s.pushback ++ s.cursor.placed s.source

/-- The scanner has the categories of the lexer, and the same is left to both. -/
structure Shows (s : Scanner) (l : Lexer) : Prop where
  lexicon_eq : s.automata.map (·.toCategory) = l.lexicon
  pending_eq : s.pending = l.position.placed l.rest
  cursor_eq : s.cursor.afterAll s.source = l.position.afterAll l.rest

lemma shows_ofSource (automata : List Automaton) (source : String) :
    (ofSource automata source).Shows (.ofSource (automata.map (·.toCategory)) source) :=
  ⟨rfl, rfl, rfl⟩

/-- Setting an automaton back leaves its category as it is. -/
lemma map_toCategory_reset (automata : List Automaton) :
    (automata.map Automaton.reset).map (·.toCategory) = automata.map (·.toCategory) := by
  rw [List.map_map]
  rfl

lemma Shows.reopen (h : s.Shows l) (source : String) :
    (s.reopen source).Shows (l.reopen source) :=
  ⟨(map_toCategory_reset _).trans h.lexicon_eq, rfl, rfl⟩

lemma Shows.nextChar_of_nil (h : s.Shows l) (hrest : l.rest = []) :
    s.nextChar = (none, s) ∧ s.cursor = l.position := by
  have hpending := h.pending_eq
  rw [hrest, Position.placed, pending, List.append_eq_nil_iff] at hpending
  have hsource : s.source = [] := by
    rw [← Position.map_fst_placed s.cursor s.source, hpending.2, List.map_nil]
  have hcursor := h.cursor_eq
  rw [hrest, hsource] at hcursor
  exact ⟨by rw [nextChar, hpending.1, hsource], hcursor⟩

/-- A character comes with its place, be it read for the first time or again. -/
lemma Shows.exists_nextChar (h : s.Shows l) (hrest : l.rest = c :: cs) :
    ∃ s', s.nextChar = (some (c, l.position), s') ∧ s'.automata = s.automata ∧
      s'.Shows (l.drop 1) := by
  obtain ⟨automata, pushback, source, cursor⟩ := s
  obtain ⟨lexicon, rest, position⟩ := l
  obtain ⟨hlexicon, hpending, hcursor⟩ := h
  obtain rfl : rest = c :: cs := hrest
  simp only [pending, Position.placed] at hpending
  cases pushback with
  | cons d pushback =>
    obtain ⟨rfl, hrest⟩ := List.cons.inj hpending
    exact ⟨_, rfl, rfl, hlexicon, hrest, hcursor⟩
  | nil =>
    cases source with
    | nil => exact absurd hpending (by simp [Position.placed])
    | cons d source =>
      obtain ⟨hd, hrest⟩ := List.cons.inj hpending
      obtain ⟨rfl, rfl⟩ := Prod.mk.inj hd
      exact ⟨_, rfl, rfl, hlexicon, hrest, hcursor⟩

lemma Shows.feed (h : s.Shows l) (c : Char) : (s.feed c).Shows l := by
  refine ⟨?_, h.pending_eq, h.cursor_eq⟩
  rw [← h.lexicon_eq, Scanner.feed, List.map_map]
  rfl

lemma Shows.resetAll (h : s.Shows l) : s.resetAll.Shows l :=
  ⟨(map_toCategory_reset _).trans h.lexicon_eq, h.pending_eq, h.cursor_eq⟩

/-! ### Results -/

/-- Blanks are passed over. -/
lemma Shows.skip (h : s.Shows l) :
    (l.skipBlanks.rest = [] ∧ ∃ s', s.skip = (none, s') ∧ s'.Shows l.skipBlanks) ∨
      ∃ c cs s', l.skipBlanks.rest = c :: cs ∧
        s.skip = (some (c, l.skipBlanks.position), s') ∧ s'.Shows (l.skipBlanks.drop 1) := by
  induction hcs : l.rest generalizing s l with
  | nil =>
    have hl : l.skipBlanks = l := by
      rw [Lexer.skipBlanks, hcs]
      rfl
    obtain ⟨hnone, -⟩ := h.nextChar_of_nil hcs
    rw [hl]
    refine .inl ⟨hcs, s, ?_, h⟩
    rw [Scanner.skip]
    split <;> simp_all
  | cons c cs ih =>
    obtain ⟨s', hnext, -, h'⟩ := h.exists_nextChar hcs
    have hskip : s.skip = if Text.isBlank c then s'.skip else (some (c, l.position), s') := by
      rw [Scanner.skip]
      split <;> simp_all
    by_cases hc : Text.isBlank c = true
    · have hcs' : (l.drop 1).rest = cs := by rw [Lexer.drop, hcs]; rfl
      rw [hskip, if_pos hc, Lexer.skipBlanks_of_blank hcs hc]
      exact ih h' hcs'
    · rw [hskip, if_neg hc, Lexer.skipBlanks_of_cons hcs (by simpa using hc)]
      exact .inr ⟨c, cs, s', hcs, rfl, h'⟩

/-- A scanner stops where there is nothing more. -/
lemma scan_of_none (h : s.nextChar = (none, s)) (scanned : List (Char × Position))
    (best : Option (Terminal × Nat)) :
    s.scan scanned best = (scanned, Munch.latest s.automata scanned.length best, s) := by
  rw [Scanner.scan]
  split
  · rfl
  · split <;> simp_all

lemma scan_of_some {d : Char × Position} (h : s.nextChar = (some d, s'))
    (scanned : List (Char × Position)) (best : Option (Terminal × Nat)) :
    s.scan scanned best = if s.automata.all Automaton.isFailed then
        (scanned, Munch.latest s.automata scanned.length best, s)
      else (s'.feed d.1).scan (scanned ++ [d])
        (Munch.latest s.automata scanned.length best) := by
  rw [Scanner.scan]
  split
  · rfl
  · split <;> simp_all

/-- A munch reads a character and stops if all automata have failed. -/
lemma resume_cons_eq (run : List Automaton) (n : Nat) (best : Option (Terminal × Nat)) (c : Char)
    (cs : List Char) : Munch.resume run n best (c :: cs) =
      if (run.map (·.feed c)).all Automaton.isFailed then
        ⟨n + 1, Munch.latest (run.map (·.feed c)) (n + 1) best⟩
      else Munch.resume (run.map (·.feed c)) (n + 1)
        (Munch.latest (run.map (·.feed c)) (n + 1) best) cs := rfl

/-- Behind a character that the automata have read, they read on as far as a munch does. -/
lemma Shows.scan {run : List Automaton} {scanned : List (Char × Position)} (h : s.Shows l)
    (hs : s.automata = run.map (·.feed c)) (hn : scanned.length = n + 1)
    (best : Option (Terminal × Nat)) : ∃ v s', v <+: l.rest ∧
      s.scan scanned best =
        (scanned ++ l.position.placed v, (Munch.resume run n best (c :: l.rest)).best, s') ∧
      (Munch.resume run n best (c :: l.rest)).scanned = n + 1 + v.length ∧
      s'.Shows (l.drop v.length) := by
  -- the munch is one character behind: it reads `c` itself, which the scanner has fed before
  induction hcs : l.rest generalizing s l run n scanned best c with
  | nil =>
    obtain ⟨hnone, -⟩ := h.nextChar_of_nil hcs
    refine ⟨[], s, List.prefix_rfl, ?_, ?_, h⟩
    · rw [scan_of_none hnone, resume_cons_eq, hs, hn, Position.placed_nil, List.append_nil]
      split <;> rfl
    · rw [resume_cons_eq]
      split <;> rfl
  | cons d cs ih =>
    obtain ⟨s', hnext, hautomata, h'⟩ := h.exists_nextChar hcs
    rw [scan_of_some hnext, resume_cons_eq, hs, hn]
    split
    · exact ⟨[], s, List.nil_prefix, by simp, rfl, h⟩
    · have hposition : (l.drop 1).position = l.position.after d := by rw [Lexer.drop, hcs]; rfl
      have hrest : (l.drop 1).rest = cs := by rw [Lexer.drop, hcs]; rfl
      have hfeed : (s'.feed d).automata = (run.map (·.feed c)).map (·.feed d) := by
        rw [Scanner.feed, hautomata, hs]
      have hlength : (scanned ++ [(d, l.position)]).length = n + 1 + 1 := by simp [hn]
      obtain ⟨v, s'', hv, hscan, hscanned, hshows⟩ := ih (h'.feed d) hfeed hlength _ hrest
      refine ⟨d :: v, s'', List.cons_prefix_cons.mpr ⟨rfl, hv⟩, ?_, ?_, ?_⟩
      · rw [hscan, hposition, Position.placed, List.append_assoc, List.singleton_append]
      · rw [hscanned, List.length_cons]
        omega
      · rwa [Lexer.drop_drop, Nat.add_comm] at hshows

/-- From its first character on a scanner reads as much as a munch does. -/
lemma Shows.exists_scan (h : s.Shows (l.drop 1)) (hrest : l.rest = c :: cs) :
    ∃ s', (s.resetAll.feed c).scan [(c, l.position)] none =
        (l.position.placed (l.rest.take (Munch.ofText l.lexicon l.rest).scanned),
          (Munch.ofText l.lexicon l.rest).best, s') ∧
      s'.Shows (l.drop (Munch.ofText l.lexicon l.rest).scanned) ∧
      0 < (Munch.ofText l.lexicon l.rest).scanned ∧
      (Munch.ofText l.lexicon l.rest).scanned ≤ l.rest.length := by
  have hautomata : (s.resetAll.feed c).automata =
      (l.lexicon.map Automaton.start).map (·.feed c) := by
    have hlexicon : s.automata.map (·.toCategory) = l.lexicon := h.lexicon_eq
    rw [← hlexicon]
    simp only [Scanner.feed, Scanner.resetAll, List.map_map]
    rfl
  have hcs : (l.drop 1).rest = cs := by rw [Lexer.drop, hrest]; rfl
  have hposition : (l.drop 1).position = l.position.after c := by rw [Lexer.drop, hrest]; rfl
  have hone : [(c, l.position)].length = 0 + 1 := rfl
  obtain ⟨v, s', hv, hscan, hscanned, hshows⟩ :=
    (h.resetAll.feed c).scan hautomata hone none
  rw [hcs] at hv hscan hscanned
  rw [Lexer.drop_drop] at hshows
  have hmunch : Munch.ofText l.lexicon l.rest =
      Munch.resume (l.lexicon.map Automaton.start) 0 none (c :: cs) := by rw [hrest, Munch.ofText]
  have htake : l.rest.take (0 + 1 + v.length) = c :: v := by
    rw [hrest, Nat.zero_add, Nat.add_comm, List.take_succ_cons, ← List.prefix_iff_eq_take.mp hv]
  have hle : v.length ≤ cs.length := hv.length_le
  rw [hmunch, hscanned, htake]
  refine ⟨s', ?_, Nat.zero_add 1 ▸ hshows, by omega, by rw [hrest, List.length_cons]; omega⟩
  rw [hscan, hposition]
  rfl

/-- Characters that are put back are left again. -/
lemma Shows.putBack (h : s.Shows (l.drop m)) (hn : n ≤ m) (hm : m ≤ l.rest.length) :
    (s.putBack ((l.position.placed (l.rest.take m)).drop n)).Shows (l.drop n) := by
  have hend (k : Nat) : (l.drop k).position.afterAll (l.drop k).rest =
      l.position.afterAll l.rest := by
    rw [Lexer.drop, ← Position.afterAll_append, List.take_append_drop]
  refine ⟨h.lexicon_eq, ?_, h.cursor_eq.trans ((hend m).trans (hend n).symm)⟩
  have hlength : n ≤ (l.position.placed (l.rest.take m)).length := by
    rw [Position.length_placed, List.length_take_of_le hm]
    exact hn
  calc (l.position.placed (l.rest.take m)).drop n ++ s.pushback ++ s.cursor.placed s.source
      = (l.position.placed (l.rest.take m)).drop n ++
          (l.drop m).position.placed (l.drop m).rest := by
        rw [List.append_assoc, ← h.pending_eq, pending]
    _ = (l.position.placed (l.rest.take m) ++
          (l.position.afterAll (l.rest.take m)).placed (l.rest.drop m)).drop n :=
        (List.drop_append_of_le_length hlength).symm
    _ = (l.drop n).position.placed (l.drop n).rest := by
        rw [← Position.placed_append, List.take_append_drop, Position.drop_placed, Lexer.drop]

lemma next_of_best {s'' : Scanner} {first : Char × Position} {scanned : List (Char × Position)}
    {kind : Terminal} (hskip : s.skip = (some first, s'))
    (hscan : (s'.resetAll.feed first.1).scan [first] none = (scanned, some (kind, n), s'')) :
    s.next = (.ok ⟨kind, textOf (scanned.take n), span (scanned.take n)⟩,
      s''.putBack (scanned.drop n)) := by
  rw [Scanner.next, hskip]
  simp only [hscan]

lemma next_of_none {s'' : Scanner} {first : Char × Position} {scanned : List (Char × Position)}
    (hskip : s.skip = (some first, s'))
    (hscan : (s'.resetAll.feed first.1).scan [first] none = (scanned, none, s'')) :
    s.next = (.error ⟨textOf scanned, span scanned⟩, s''.putBack (scanned.drop 1)) := by
  rw [Scanner.next, hskip]
  simp only [hscan]

/-- **A scanner has the results of a lexer** that it shows, and shows the lexer behind them. -/
theorem Shows.next (h : s.Shows l) : s.next.1 = l.next.1 ∧ s.next.2.Shows l.next.2 := by
  rw [Lexer.next]
  rcases h.skip with ⟨hrest, s', hskip, h'⟩ | ⟨c, cs, s', hrest, hskip, h'⟩
  · obtain ⟨-, hcursor⟩ := h'.nextChar_of_nil hrest
    simp only [Scanner.next, hskip, Lexer.read, hrest, hcursor]
    exact ⟨trivial, h'⟩
  · -- from here on there are no blanks
    generalize l.skipBlanks = l at *
    obtain ⟨s'', hscan, hshows, hpos, hle⟩ := h'.exists_scan hrest
    have hne {n : Nat} (hn : 0 < n) : l.rest.take n ≠ [] := by simp [hrest]; omega
    cases hbest : (Munch.ofText l.lexicon l.rest).best with
    | none =>
      rw [hbest] at hscan
      rw [next_of_none hskip hscan, Lexer.read_of_none (by simp [hrest]) hbest, textOf_placed,
        span_placed _ (hne hpos)]
      exact ⟨rfl, hshows.putBack hpos hle⟩
    | some found =>
      obtain ⟨kind, n⟩ := found
      obtain ⟨hn, -, -⟩ := Munch.ofText_best hbest
      have hscanned : n ≤ (Munch.ofText l.lexicon l.rest).scanned :=
        Munch.best_le_scanned (by simp) hbest
      have htake :
          (l.position.placed (l.rest.take (Munch.ofText l.lexicon l.rest).scanned)).take n =
            l.position.placed (l.rest.take n) := by
        rw [Position.take_placed, List.take_take, Nat.min_eq_left hscanned]
      rw [hbest] at hscan
      rw [next_of_best hskip hscan, Lexer.read_of_best (by simp [hrest]) hbest, htake,
        textOf_placed, span_placed _ (hne hn)]
      exact ⟨rfl, hshows.putBack hscanned hle⟩

end Scanner

end LL1
