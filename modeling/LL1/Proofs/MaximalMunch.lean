/-
# The longest beginning that is recognised

A lexicon recognises a text as the kind of its first category whose automaton accepts it.  The
automata read side by side, and reading stops when all of them have failed; since an automaton that
has failed stays so, nothing longer is recognised then.  What a munch finds is therefore the longest
beginning of the text that the lexicon recognises, together with its kind, and a lexer makes a token
of it.
-/
import LL1.Proofs.Lexing
import Mathlib.Data.List.Infix

namespace LL1

/-! ### Texts that an automaton accepts -/

namespace Dfa

variable {d : Dfa} {s : Nat} {c : Char} {w : List Char}

/-- Whether a text leads from a state to an accepting one. -/
def acceptsFrom (d : Dfa) : Nat → List Char → Bool
  | s, [] => d.accepting.contains s
  | s, c :: w => d.alphabet c && (d.step s c).any (d.acceptsFrom · w)

/-- Whether a text is a word of the automaton. -/
def accepts (d : Dfa) (w : List Char) : Bool := d.acceptsFrom d.initial w

lemma acceptsFrom_cons : d.acceptsFrom s (c :: w) = true ↔
    d.alphabet c = true ∧ ∃ s', d.step s c = some s' ∧ d.acceptsFrom s' w = true := by
  simp [acceptsFrom, Option.any_eq_true]

end Dfa

namespace Automaton

variable {a : Automaton} {c : Category} {v w : List Char}

lemma feedAll_cons (a : Automaton) (ch : Char) (w : List Char) :
    a.feedAll (ch :: w) = (a.feed ch).feedAll w := rfl

lemma feedAll_append (a : Automaton) (v w : List Char) :
    a.feedAll (v ++ w) = (a.feedAll v).feedAll w := List.foldl_append

@[simp] lemma kind_feedAll (a : Automaton) (w : List Char) : (a.feedAll w).kind = a.kind := by
  induction w generalizing a with
  | nil => rfl
  | cons ch w ih => rw [feedAll_cons, ih, kind_feed]

@[simp] lemma dfa_feedAll (a : Automaton) (w : List Char) : (a.feedAll w).dfa = a.dfa := by
  induction w generalizing a with
  | nil => rfl
  | cons ch w ih => rw [feedAll_cons, ih, dfa_feed]

/-- A run accepts what leads from its state to an accepting one. -/
lemma isAccepting_feedAll (a : Automaton) (w : List Char) :
    (a.feedAll w).isAccepting = a.state.any (a.dfa.acceptsFrom · w) := by
  induction w generalizing a with
  | nil => rfl
  | cons ch w ih =>
    rw [feedAll_cons, ih, feed]
    cases a.state with
    | none => rfl
    | some s =>
      show ((if a.dfa.alphabet ch then a.dfa.step s ch else none).any _) = _
      cases halphabet : a.dfa.alphabet ch <;> simp [Dfa.acceptsFrom, halphabet]

lemma isAccepting_feedAll_start (c : Category) (w : List Char) :
    ((start c).feedAll w).isAccepting = c.dfa.accepts w :=
  isAccepting_feedAll (start c) w

/-- A run that has failed accepts nothing any more. -/
lemma not_accepts_of_isFailed (h : ((start c).feedAll v).isFailed = true) (w : List Char) :
    c.dfa.accepts (v ++ w) = false := by
  rw [← isAccepting_feedAll_start, feedAll_append, isAccepting_feedAll]
  rw [isFailed, Option.isNone_iff_eq_none] at h
  rw [h]
  rfl

end Automaton

/-! ### Texts that a lexicon recognises -/

namespace Lexicon

variable {lexicon : Lexicon} {text v w : List Char} {kind kind' : Terminal}

/-- The kind of the first category that accepts a text. -/
def kind? (lexicon : Lexicon) (w : List Char) : Option Terminal :=
  (lexicon.find? (·.dfa.accepts w)).map (·.kind)

lemma winner_feedAll (lexicon : Lexicon) (w : List Char) :
    Munch.winner (lexicon.map fun c => (Automaton.start c).feedAll w) = lexicon.kind? w := by
  have hkind (c : Category) : ((Automaton.start c).feedAll w).kind = c.kind :=
    Automaton.kind_feedAll _ w
  rw [Munch.winner, List.find?_map, Option.map_map, kind?]
  have haccepting : (Automaton.isAccepting ∘ fun c => (Automaton.start c).feedAll w) =
      fun c : Category => c.dfa.accepts w :=
    funext fun c => Automaton.isAccepting_feedAll_start c w
  rw [haccepting]
  congr 1
  exact funext hkind

/-- When all automata have failed, nothing longer is recognised. -/
lemma kind?_append_of_isFailed
    (h : (lexicon.map fun c => (Automaton.start c).feedAll v).all Automaton.isFailed = true)
    (w : List Char) : lexicon.kind? (v ++ w) = none := by
  rw [kind?, Option.map_eq_none_iff, List.find?_eq_none]
  intro c hc
  have hfailed : ((Automaton.start c).feedAll v).isFailed = true :=
    List.all_eq_true.mp h _ (List.mem_map_of_mem hc)
  rw [Automaton.not_accepts_of_isFailed hfailed w]
  simp

/-- The text begins with `w`, which is recognised, and with nothing longer that is. -/
structure Longest (lexicon : Lexicon) (text : List Char) (kind : Terminal) (w : List Char) :
    Prop where
  ne_nil : w ≠ []
  isPrefix : w <+: text
  kind_eq : lexicon.kind? w = some kind
  maximal : ∀ v, v <+: text → w.length < v.length → lexicon.kind? v = none

/-- The text does not begin with anything that is recognised. -/
def RulesOut (lexicon : Lexicon) (text : List Char) : Prop :=
  ∀ v, v ≠ [] → v <+: text → lexicon.kind? v = none

/-- There is only one longest beginning. -/
lemma Longest.unique (h : lexicon.Longest text kind w) (h' : lexicon.Longest text kind' v) :
    w = v ∧ kind = kind' := by
  have hle : w.length ≤ v.length := by
    by_contra hlt
    have hnone := h'.maximal w h.isPrefix (by omega)
    exact absurd (hnone.symm.trans h.kind_eq) (by simp)
  have hge : v.length ≤ w.length := by
    by_contra hlt
    have hnone := h.maximal v h'.isPrefix (by omega)
    exact absurd (hnone.symm.trans h'.kind_eq) (by simp)
  obtain rfl : w = v := by
    rw [List.prefix_iff_eq_take.mp h.isPrefix, List.prefix_iff_eq_take.mp h'.isPrefix]
    congr 1
    omega
  exact ⟨rfl, Option.some.inj (h.kind_eq.symm.trans h'.kind_eq)⟩

lemma Longest.not_rulesOut (h : lexicon.Longest text kind w) : ¬ lexicon.RulesOut text :=
  fun hout => absurd ((hout w h.ne_nil h.isPrefix).symm.trans h.kind_eq) (by simp)

end Lexicon

/-! ### What a munch finds -/

namespace Munch

variable {lexicon : Lexicon} {text read rest w : List Char} {kind : Terminal} {n : Nat}
  {best : Option (Terminal × Nat)} {c : Char}

/-- The best beginning is the longest one that is recognised. -/
def IsBest (lexicon : Lexicon) (text : List Char) : Option (Terminal × Nat) → Prop
  | none => lexicon.RulesOut text
  | some (kind, n) => ∃ w, w.length = n ∧ lexicon.Longest text kind w

lemma isBest_nil (lexicon : Lexicon) : IsBest lexicon [] none :=
  fun _ hne hbegins => absurd (List.prefix_nil.mp hbegins) hne

/-- The best beginning stays the best while nothing longer is recognised. -/
lemma IsBest.extend (h : IsBest lexicon read best) (hread : read <+: text)
    (hdead : ∀ v, v <+: text → v <+: read ∨ lexicon.kind? v = none) :
    IsBest lexicon text best := by
  cases best with
  | none =>
    intro v hne hv
    rcases hdead v hv with hv | hnone
    · exact h v hne hv
    · exact hnone
  | some found =>
    obtain ⟨w, hw, hlongest⟩ := h
    refine ⟨w, hw, ⟨hlongest.ne_nil, hlongest.isPrefix.trans hread, hlongest.kind_eq,
      fun v hv hlt => ?_⟩⟩
    rcases hdead v hv with hv | hnone
    · exact hlongest.maximal v hv hlt
    · exact hnone

/-- One more character is read: the whole text is the best beginning then if it is recognised, and
otherwise the best beginning is the one from before. -/
lemma IsBest.snoc (h : IsBest lexicon read best) (c : Char) :
    IsBest lexicon (read ++ [c]) (match lexicon.kind? (read ++ [c]) with
      | some kind => some (kind, read.length + 1)
      | none => best) := by
  cases hkind : lexicon.kind? (read ++ [c]) with
  | some kind =>
    refine ⟨read ++ [c], by simp, ⟨by simp, List.prefix_rfl, hkind, fun v hv hlt => ?_⟩⟩
    exact absurd hv.length_le (by omega)
  | none =>
    refine h.extend (List.prefix_append _ _) fun v hv => ?_
    rcases List.prefix_concat_iff.mp hv with rfl | hv
    · exact .inr hkind
    · exact .inl hv

/-- When all automata have failed, the best beginning is that of any continuation. -/
lemma IsBest.append (h : IsBest lexicon read best)
    (hdead : ∀ v, lexicon.kind? (read ++ v) = none) (rest : List Char) :
    IsBest lexicon (read ++ rest) best := by
  refine h.extend (List.prefix_append _ _) fun v hv => ?_
  rcases List.prefix_or_prefix_of_prefix hv (List.prefix_append read rest) with hv | ⟨v', rfl⟩
  · exact .inl hv
  · exact .inr (hdead v')

/-- Going on after a part of the text finds the best beginning of the whole text. -/
lemma isBest_resume (h : IsBest lexicon read best) :
    IsBest lexicon (read ++ rest) (resume
      (lexicon.map fun c => (Automaton.start c).feedAll read) read.length best rest).best := by
  induction rest generalizing read best with
  | nil => rwa [List.append_nil]
  | cons c rest ih =>
    have hrun : (lexicon.map fun c => (Automaton.start c).feedAll read).map (·.feed c) =
        lexicon.map fun c' => (Automaton.start c').feedAll (read ++ [c]) := by
      rw [List.map_map]
      exact List.map_congr_left fun c' _ => (Automaton.feedAll_append _ read [c]).symm
    rw [resume, hrun, Lexicon.winner_feedAll]
    have hsnoc := h.snoc c
    have hsplit : read ++ c :: rest = (read ++ [c]) ++ rest := by simp
    rw [hsplit]
    split
    · next hfailed => exact hsnoc.append (Lexicon.kind?_append_of_isFailed hfailed) rest
    · have hlength : read.length + 1 = (read ++ [c]).length := by simp
      rw [hlength] at hsnoc ⊢
      exact ih hsnoc

/-- **A munch finds the longest beginning that is recognised**, and nothing if there is none. -/
theorem isBest_ofText (lexicon : Lexicon) (text : List Char) :
    IsBest lexicon text (ofText lexicon text).best :=
  isBest_resume (isBest_nil lexicon)

/-- A text that begins with something recognised has a longest beginning that is. -/
lemma exists_longest (hw : lexicon.kind? w = some kind) (hne : w ≠ []) (hbegins : w <+: text) :
    ∃ kind' v, lexicon.Longest text kind' v := by
  have hbest := isBest_ofText lexicon text
  cases hfound : (ofText lexicon text).best with
  | none =>
    rw [hfound] at hbest
    exact absurd ((hbest w hne hbegins).symm.trans hw) (by simp)
  | some found =>
    rw [hfound] at hbest
    obtain ⟨v, -, hlongest⟩ := hbest
    exact ⟨found.1, v, hlongest⟩

/-- At least one character is read, if there is one. -/
lemma scanned_pos (lexicon : Lexicon) (c : Char) (rest : List Char) :
    0 < (ofText lexicon (c :: rest)).scanned := by
  have hle (run : List Automaton) (n : Nat) (best : Option (Terminal × Nat)) :
      n ≤ (resume run n best rest).scanned := by
    induction rest generalizing run n best with
    | nil => exact Nat.le_refl n
    | cons c rest ih =>
      obtain ⟨best', -, hresume⟩ := resume_cons run n best c rest
      rw [hresume]
      split
      · exact Nat.le_succ n
      · exact Nat.le_of_succ_le (ih ..)
  obtain ⟨best', -, hresume⟩ := resume_cons (lexicon.map Automaton.start) 0 none c rest
  rw [ofText, hresume]
  split
  · exact Nat.one_pos
  · exact hle ..

end Munch

/-! ### What a lexer answers -/

namespace Lexer

variable {l : Lexer} {kind : Terminal} {c : Char} {cs w : List Char}

/-- What a lexer answers that stands in front of a character which is not blank, or at the end of
the source: the token or the error, and the lexer behind it. -/
inductive Answers (l : Lexer) : Except LexError Token × Lexer → Prop
  | endOfInput : l.rest = [] → Answers l (.ok (.endOfInput l.position), l)
  | token {kind : Terminal} {w : List Char} : l.lexicon.Longest l.rest kind w →
      Answers l (.ok ⟨kind, .ofList w, .ofText l.position w⟩, l.drop w.length)
  | error {c : Char} {cs : List Char} : l.lexicon.RulesOut l.rest → c :: cs <+: l.rest →
      Answers l (.error ⟨.ofList (c :: cs), .ofText l.position (c :: cs)⟩, l.drop 1)

/-- **A lexer makes a token of the longest beginning that is recognised**, and reports an error if
there is none. -/
theorem answers_read (l : Lexer) : l.Answers l.read := by
  rw [read]
  split
  · next hrest => exact .endOfInput hrest
  · next c rest hrest =>
    have hbest := Munch.isBest_ofText l.lexicon l.rest
    dsimp only
    split
    · next kind n hfound =>
      rw [hfound] at hbest
      obtain ⟨w, rfl, hlongest⟩ := hbest
      rw [← List.prefix_iff_eq_take.mp hlongest.isPrefix]
      exact .token hlongest
    · next hfound =>
      rw [hfound] at hbest
      have hpos : 0 < (Munch.ofText l.lexicon l.rest).scanned := hrest ▸ Munch.scanned_pos ..
      obtain ⟨n, hn⟩ : ∃ n, (Munch.ofText l.lexicon l.rest).scanned = n + 1 :=
        Nat.exists_eq_succ_of_ne_zero (by omega)
      have hscanned : l.rest.take (n + 1) = c :: rest.take n := by rw [hrest, List.take_succ_cons]
      rw [hn, hscanned]
      exact .error hbest (hscanned ▸ List.take_prefix ..)

lemma read_of_longest (h : l.lexicon.Longest l.rest kind w) :
    l.read = (.ok ⟨kind, .ofList w, .ofText l.position w⟩, l.drop w.length) := by
  have hanswers := l.answers_read
  generalize l.read = answer at hanswers
  cases hanswers with
  | endOfInput hrest =>
    have hnil : w = [] := List.prefix_nil.mp (hrest ▸ h.isPrefix)
    exact absurd hnil h.ne_nil
  | token hlongest =>
    obtain ⟨rfl, rfl⟩ := h.unique hlongest
    rfl
  | error hout _ => exact absurd hout h.not_rulesOut

lemma read_of_rulesOut (h : l.lexicon.RulesOut l.rest) (hne : l.rest ≠ []) :
    ∃ e, l.read = (.error e, l.drop 1) := by
  have hanswers := l.answers_read
  generalize l.read = answer at hanswers
  cases hanswers with
  | endOfInput hrest => exact absurd hrest hne
  | token hlongest => exact absurd h hlongest.not_rulesOut
  | error _ _ => exact ⟨_, rfl⟩

/-! ### Blanks -/

/-- The blanks in front of the next token or error. -/
def blanks (l : Lexer) : List Char := l.rest.takeWhile Text.isBlank

lemma rest_skipBlanks (l : Lexer) : l.skipBlanks.rest = l.rest.dropWhile Text.isBlank := by
  have hsplit : l.blanks ++ l.rest.dropWhile Text.isBlank = l.rest :=
    List.takeWhile_append_dropWhile
  calc l.rest.drop l.blanks.length
      = (l.blanks ++ l.rest.dropWhile Text.isBlank).drop l.blanks.length := by rw [hsplit]
    _ = l.rest.dropWhile Text.isBlank := List.drop_left

lemma blanks_append_rest_skipBlanks (l : Lexer) : l.blanks ++ l.skipBlanks.rest = l.rest := by
  rw [rest_skipBlanks]
  exact List.takeWhile_append_dropWhile

/-- Nothing is passed over in front of a character that is not blank. -/
lemma skipBlanks_of_cons (hrest : l.rest = c :: cs) (hc : Text.isBlank c = false) :
    l.skipBlanks = l := by
  rw [skipBlanks, hrest, List.takeWhile_cons_of_neg (by simp [hc])]
  rfl

/-- Blanks are passed over one by one. -/
lemma skipBlanks_of_blank (hrest : l.rest = c :: cs) (hc : Text.isBlank c = true) :
    l.skipBlanks = (l.drop 1).skipBlanks := by
  simp only [skipBlanks, drop, hrest, List.takeWhile_cons_of_pos hc, List.length_cons,
    List.drop_succ_cons, List.take_succ_cons, Position.afterAll_cons, List.take_zero,
    List.drop_zero, Position.afterAll_nil]

end Lexer

end LL1
