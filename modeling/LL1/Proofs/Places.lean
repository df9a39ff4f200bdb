/-
# Results stand where their texts do

The place of a character is passed on with it when it is put back, and the cursor of a scanner may
be far ahead of the token that it returns.  What the results report is nevertheless the place of
their text in the source, counted out from the beginning: a line for every line end before it, and
a column for every character between the last of these and the text.  Since every result but the
end of the source takes up at least one character, the places of the results increase.
-/
import LL1.Proofs.Displacement
import LL1.Proofs.Scanning
import Mathlib.Data.List.DropRight

namespace LL1

/-! ### Places and offsets -/

namespace Position

variable {p q : Position} {cs source : List Char} {o o' : Nat}

/-- The place of the character that `o` characters stand before. -/
def ofOffset (source : List Char) (o : Nat) : Position :=
  ⟨1 + (source.take o).count '\n', 1 + ((source.take o).rtakeWhile (· ≠ '\n')).length⟩

lemma afterAll_concat (p : Position) (cs : List Char) (c : Char) :
    p.afterAll (cs ++ [c]) = (p.afterAll cs).after c := by
  rw [afterAll_append, afterAll_cons, afterAll_nil]

/-- A text leads from the first place to where its characters count out to. -/
lemma afterAll_take_first (source : List Char) (o : Nat) :
    first.afterAll (source.take o) = ofOffset source o := by
  rw [ofOffset]
  induction source.take o using List.reverseRecOn with
  | nil => rfl
  | append_singleton cs c ih =>
    rw [afterAll_concat, ih, after]
    by_cases hc : c = '\n'
    · simp [hc, List.rtakeWhile_concat_neg, Nat.add_assoc]
    · simp [hc, List.rtakeWhile_concat_pos, Nat.add_assoc]

/-- Without a line end, a text leads on in its line. -/
lemma afterAll_of_not_mem (p : Position) (h : '\n' ∉ cs) :
    p.afterAll cs = ⟨p.line, p.column + cs.length⟩ := by
  induction cs generalizing p with
  | nil => rfl
  | cons c cs ih =>
    rw [List.mem_cons, not_or] at h
    rw [afterAll_cons, after, if_neg (Ne.symm h.1), ih _ h.2, List.length_cons]
    simp only [Nat.add_assoc, Nat.add_comm 1]

/-- One place stands before another: on an earlier line, or earlier on the same line. -/
def Before (p q : Position) : Prop :=
  p.line < q.line ∨ p.line = q.line ∧ p.column < q.column

lemma before_after (h : p.Before q ∨ p = q) (c : Char) : p.Before (q.after c) := by
  rw [Before, Position.after]
  split
  · left
    show p.line < q.line + 1
    rcases h with (hline | ⟨hline, -⟩) | rfl <;> omega
  · show p.line < q.line ∨ p.line = q.line ∧ p.column < q.column + 1
    rcases h with (hline | ⟨hline, hcolumn⟩) | rfl <;> omega

lemma before_afterAll (p : Position) (h : cs ≠ []) : p.Before (p.afterAll cs) := by
  induction cs using List.reverseRecOn with
  | nil => exact absurd rfl h
  | append_singleton cs c ih =>
    rw [afterAll_concat]
    apply before_after
    by_cases hcs : cs = []
    · right
      rw [hcs, afterAll_nil]
    · exact .inl (ih hcs)

/-- Greater offsets are places further on. -/
lemma before_ofOffset (ho : o < o') (hle : o' ≤ source.length) :
    (ofOffset source o).Before (ofOffset source o') := by
  obtain ⟨n, rfl⟩ := Nat.exists_eq_add_of_lt ho
  have hne : (source.drop o).take (n + 1) ≠ [] := by
    rw [← List.length_pos_iff, List.length_take, List.length_drop]
    omega
  rw [← afterAll_take_first, ← afterAll_take_first, Nat.add_assoc, List.take_add, afterAll_append]
  exact before_afterAll _ hne

end Position

/-- The last column of a text is counted from the first one, if no line ends before its last
character. -/
lemma Location.ofText_eq (p : Position) (cs : List Char) : ofText p cs =
    ⟨p.line, p.column, if '\n' ∈ cs.dropLast then p.column else p.column + (cs.length - 1)⟩ := by
  rw [ofText, Position.line_afterAll]
  by_cases h : '\n' ∈ cs.dropLast
  · have hpos : 0 < cs.dropLast.count '\n' := List.count_pos_iff.mpr h
    rw [if_neg (by omega), if_pos h]
  · rw [List.count_eq_zero_of_not_mem h, Nat.add_zero, if_pos rfl, if_neg h,
      Position.afterAll_of_not_mem p h, List.length_dropLast]

namespace Lexer

variable {l l' : Lexer} {source : List Char} {o n i : Nat} {r : Except LexError Token}

/-! ### Lexers in a source -/

/-- The lexer stands behind the first `o` characters of the source. -/
structure StandsAt (l : Lexer) (source : List Char) (o : Nat) : Prop where
  le_length : o ≤ source.length
  rest_eq : l.rest = source.drop o
  position_eq : l.position = .ofOffset source o

lemma standsAt_ofSource (lexicon : Lexicon) (source : String) :
    (ofSource lexicon source).StandsAt source.toList 0 :=
  ⟨Nat.zero_le _, rfl, rfl⟩

lemma StandsAt.drop (h : l.StandsAt source o) (hn : n ≤ l.rest.length) :
    (l.drop n).StandsAt source (o + n) := by
  have hlength := h.le_length
  rw [h.rest_eq, List.length_drop] at hn
  refine ⟨by omega, ?_, ?_⟩
  · rw [Lexer.drop, h.rest_eq, List.drop_drop]
  · rw [Lexer.drop, h.rest_eq, h.position_eq, ← Position.afterAll_take_first,
      ← Position.afterAll_take_first, List.take_add, Position.afterAll_append]

/-- The offset behind the blanks that come at an offset. -/
def skipFrom (source : List Char) (o : Nat) : Nat :=
  o + ((source.drop o).takeWhile Text.isBlank).length

lemma StandsAt.skipBlanks (h : l.StandsAt source o) :
    l.skipBlanks.StandsAt source (skipFrom source o) := by
  have hle : (l.rest.takeWhile Text.isBlank).length ≤ l.rest.length :=
    (List.takeWhile_prefix _).length_le
  have hdrop := h.drop hle
  rw [h.rest_eq] at hdrop
  rwa [Lexer.skipBlanks, skipFrom, h.rest_eq]

/-- Behind a result there is the end of its block. -/
lemma Answers.eq_drop (h : l.Answers (r, l')) : l' = l.drop (block r).length := by
  cases h with
  | endOfInput _ => simp [block, Lexer.drop, Token.endOfInput]
  | token _ => rw [block, String.toList_ofList]
  | error _ _ => rw [block, String.toList_ofList]; rfl

lemma StandsAt.answers (h : l.StandsAt source o) (hr : l.Answers (r, l')) :
    l'.StandsAt source (o + (block r).length) := by
  have hle : (block r).length ≤ l.rest.length := by
    rw [← hr.block_append_rest, List.length_append]
    omega
  rw [hr.eq_drop]
  exact h.drop hle

/-- Where the results stand in the source: the first one behind the blanks at the beginning, and
every other one behind the block of the one before it and the blanks there. -/
def offset (source : List Char) (results : Nat → Except LexError Token) : Nat → Nat
  | 0 => skipFrom source 0
  | i + 1 => skipFrom source (offset source results i + (block (results i)).length)

lemma standsAt_offset (lexicon : Lexicon) (source : String) (i : Nat) :
    ((ofSource lexicon source).after i).skipBlanks.StandsAt source.toList
      (offset source.toList (ofSource lexicon source).result i) := by
  induction i with
  | zero => exact (standsAt_ofSource lexicon source).skipBlanks
  | succ i ih =>
    rw [after_add]
    exact (ih.answers (answers_next _)).skipBlanks

/-! ### Results in a source -/

/-- The characters that a result reports: the text of a token, or what has been looked at before
an error. -/
def reported : Except LexError Token → List Char
  | .ok t => t.lexeme.toList
  | .error e => e.scanned.toList

/-- The location that a result reports. -/
def locationOf : Except LexError Token → Location
  | .ok t => t.location
  | .error e => e.location

/-- The place at which the location of a result begins. -/
def placeOf (r : Except LexError Token) : Position :=
  ⟨(locationOf r).line, (locationOf r).startColumn⟩

/-- The result reports the characters behind the first `o` ones of the source, and where they
stand.  Only the end of the source is reported without characters. -/
structure IsPlaced (source : List Char) (o : Nat) (r : Except LexError Token) : Prop where
  reported_isPrefix : reported r <+: source.drop o
  line_eq : (locationOf r).line = 1 + (source.take o).count '\n'
  startColumn_eq :
    (locationOf r).startColumn = 1 + ((source.take o).rtakeWhile (· ≠ '\n')).length
  endColumn_eq : (locationOf r).endColumn =
    if '\n' ∈ (reported r).dropLast then (locationOf r).startColumn
    else (locationOf r).startColumn + ((reported r).length - 1)
  end_iff : IsEnd r ↔ reported r = []
  offset_of_end : IsEnd r → o = source.length

lemma Answers.reported_isPrefix (h : l.Answers (r, l')) : reported r <+: l.rest := by
  cases h with
  | endOfInput _ => exact List.nil_prefix
  | token hlongest =>
    rw [reported, String.toList_ofList]
    exact hlongest.isPrefix
  | error _ hscanned =>
    rw [reported, String.toList_ofList]
    exact hscanned

lemma Answers.locationOf_eq (h : l.Answers (r, l')) :
    locationOf r = .ofText l.position (reported r) := by
  cases h with
  | endOfInput _ =>
    show Location.ofPosition l.position = .ofText l.position []
    rw [Location.ofText_eq]
    rfl
  | token _ => rw [reported, String.toList_ofList]; rfl
  | error _ _ => rw [reported, String.toList_ofList]; rfl

lemma Answers.isEnd_iff (h : l.Answers (r, l')) : IsEnd r ↔ reported r = [] := by
  cases h with
  | endOfInput _ => exact ⟨fun _ => rfl, fun _ => ⟨_, rfl, rfl, rfl⟩⟩
  | token hlongest => simp [IsEnd, reported, hlongest.ne_nil]
  | error _ _ => simp [IsEnd, reported]

lemma Answers.rest_of_isEnd (h : l.Answers (r, l')) (hend : IsEnd r) : l.rest = [] := by
  cases h with
  | endOfInput hrest => exact hrest
  | token hlongest => simp [IsEnd, hlongest.ne_nil] at hend
  | error _ _ => simp [IsEnd] at hend

/-- What a lexer answers is placed where it stands. -/
lemma StandsAt.isPlaced (h : l.StandsAt source o) (hr : l.Answers (r, l')) :
    IsPlaced source o r := by
  have hlocation : locationOf r = .ofText (.ofOffset source o) (reported r) := by
    rw [hr.locationOf_eq, h.position_eq]
  rw [Location.ofText_eq] at hlocation
  refine ⟨h.rest_eq ▸ hr.reported_isPrefix, ?_, ?_, ?_, hr.isEnd_iff, fun hend => ?_⟩
  · rw [hlocation, Position.ofOffset]
  · rw [hlocation, Position.ofOffset]
  · rw [hlocation]
  · have hrest := hr.rest_of_isEnd hend
    rw [h.rest_eq, List.drop_eq_nil_iff] at hrest
    exact Nat.le_antisymm h.le_length hrest

/-- A result with characters makes the next ones stand further on. -/
lemma offset_lt {results : Nat → Except LexError Token} {j : Nat} (hij : i < j)
    (hne : reported (results i) ≠ []) : offset source results i < offset source results j := by
  have hblock : 0 < (block (results i)).length := by
    cases hresult : results i with
    | ok t =>
      rw [hresult] at hne
      exact List.length_pos_iff.mpr hne
    | error e =>
      rw [hresult] at hne
      have hpos : 0 < e.scanned.toList.length := List.length_pos_iff.mpr hne
      rw [block, List.length_take]
      omega
  induction j with
  | zero => exact absurd hij (Nat.not_lt_zero i)
  | succ j ih =>
    have hle : offset source results j + (block (results j)).length ≤
        offset source results (j + 1) := Nat.le_add_right _ _
    rcases Nat.lt_succ_iff_lt_or_eq.mp hij with hij | rfl
    · have hlt := ih hij
      omega
    · omega

/-- The places of a lexer's results increase up to the end of the source. -/
lemma before_of_lt (lexicon : Lexicon) (source : String) {i j : Nat} (hij : i < j)
    (hi : ¬ IsEnd ((ofSource lexicon source).result i)) :
    (placeOf ((ofSource lexicon source).result i)).Before
      (placeOf ((ofSource lexicon source).result j)) := by
  have hplace (k : Nat) : placeOf ((ofSource lexicon source).result k) = .ofOffset source.toList
      (offset source.toList (ofSource lexicon source).result k) := by
    have hk := (standsAt_offset lexicon source k).isPlaced (answers_next _)
    rw [placeOf]
    exact congrArg₂ Position.mk hk.line_eq hk.startColumn_eq
  have hplaced := (standsAt_offset lexicon source i).isPlaced (answers_next _)
  rw [hplace, hplace]
  exact Position.before_ofOffset (offset_lt hij fun hnil => hi (hplaced.end_iff.mpr hnil))
    (standsAt_offset lexicon source j).le_length

end Lexer

/-! ### Scanners in a source -/

namespace Scanner

/-- The scanner after its first `n` results. -/
def after (s : Scanner) : Nat → Scanner
  | 0 => s
  | n + 1 => s.next.2.after n

/-- The result with the number `n`, counted from zero. -/
def result (s : Scanner) (n : Nat) : Except LexError Token := (s.after n).next.1

lemma Shows.result_eq {s : Scanner} {l : Lexer} (h : s.Shows l) : s.result = l.result := by
  funext n
  induction n generalizing s l with
  | zero => exact h.next.1
  | succ n ih => exact ih h.next.2

/-- **Results have the places of their texts in the source**, whatever was put back before.  A
result reports the characters at its offset, which is the one behind the results before it.  Its
line and its first column count the line ends and the characters before, and its last column comes
as many columns later as there are further characters, unless a line ends before the last of them.
The end of the source is where all characters have come before.  Hence places increase from result
to result, until the source has come to its end. -/
theorem result_isPlaced (automata : List Automaton) (source : String) (i : Nat) :
    Lexer.IsPlaced source.toList
      (Lexer.offset source.toList (ofSource automata source).result i)
      ((ofSource automata source).result i) ∧
    (∀ t, (ofSource automata source).result i = .ok t → t.kind = .endOfInput →
      (∀ a ∈ automata, a.kind ≠ .endOfInput) →
      Lexer.IsEnd ((ofSource automata source).result i)) ∧
    ∀ j, i < j → ¬ Lexer.IsEnd ((ofSource automata source).result i) →
      (Lexer.placeOf ((ofSource automata source).result i)).Before
        (Lexer.placeOf ((ofSource automata source).result j)) := by
  rw [(shows_ofSource automata source).result_eq]
  generalize hlexicon : automata.map (·.toCategory) = lexicon
  have hanswers := ((Lexer.ofSource lexicon source).after i).answers_next
  refine ⟨(Lexer.standsAt_offset lexicon source i).isPlaced hanswers, ?_, ?_⟩
  · intro t ht hkind hautomata
    have havoids : Lexicon.Avoids lexicon .endOfInput := by
      rw [← hlexicon]
      intro c hc
      obtain ⟨a, ha, rfl⟩ := List.mem_map.mp hc
      exact hautomata a ha
    have hafter : ((Lexer.ofSource lexicon source).after i).skipBlanks.lexicon = lexicon :=
      (Lexer.ofSource lexicon source).lexicon_after i
    rcases hanswers.end_or_part (by rwa [hafter]) with ⟨hend, -, -⟩ | hpart
    · exact hend
    · change Lexer.IsPart ((Lexer.ofSource lexicon source).result i) at hpart
      rcases hpart with ⟨u, hu, hne, -⟩ | ⟨e, he, -⟩
      · obtain rfl := Except.ok.inj (ht.symm.trans hu)
        exact absurd hkind hne
      · exact absurd (ht.symm.trans he) (by simp)
  · intro j hij hi
    exact Lexer.before_of_lt lexicon source hij hi

/-- For instance, a line ends in the quoted text, and the point is read twice. -/
example : (List.range 5).map (fun i => Lexer.locationOf
      ((ofSource (Sql.lexicon.map Automaton.start) "'a\nb' 1.c").result i)) =
    [⟨1, 1, 1⟩, ⟨2, 4, 4⟩, ⟨2, 5, 5⟩, ⟨2, 6, 6⟩, ⟨2, 7, 7⟩] := by
  decide +kernel

end Scanner

end LL1
