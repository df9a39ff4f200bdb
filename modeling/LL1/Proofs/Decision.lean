/-
# The built-in automata decide their languages

An automaton that has read a text answers two questions: whether the text is a word, and whether it
is still the beginning of one.  That no word is lost by a failure holds of every automaton.  For the
other direction the states of a run must be live: some text leads from each of them to an accepting
state.  The states of the built-in automata are all live, as far as they can be reached at all, and
what is missing of a word is at most two characters, or the letters of a keyword that have not been
read.
-/
import LL1.Proofs.Languages

namespace LL1

namespace Dfa

variable {d : Dfa} {live : Nat → Prop} {L : List Char → Prop} {w : List Char} {word : String}

/-! ### Live states -/

/-- A run begins in a live state and goes from live states to live states, and from each of them
some text leads to an accepting one. -/
structure LiveStates (d : Dfa) (live : Nat → Prop) : Prop where
  initial : live d.initial
  step : ∀ s c s', live s → d.step s c = some s' → live s'
  exists_acceptsFrom : ∀ s, live s → ∃ v, d.acceptsFrom s v = true

/-- States up to a number are live if one of the `endings` can be read in each of them. -/
lemma LiveStates.of_le {n : Nat} (endings : List (List Char)) (hinitial : d.initial ≤ n)
    (hstep : ∀ s c s', d.step s c = some s' → s' ≤ n)
    (hendings : ∀ s ≤ n, ∃ v ∈ endings, d.acceptsFrom s v = true) : d.LiveStates (· ≤ n) where
  initial := hinitial
  step s c s' _ h := hstep s c s' h
  exists_acceptsFrom s hs := by
    obtain ⟨v, -, hv⟩ := hendings s hs
    exact ⟨v, hv⟩

lemma liveStates_identifier : identifier.LiveStates (· ≤ 1) := by
  refine .of_le [[], ['a']] (Nat.zero_le 1) (fun s c s' h => ?_) (by decide)
  simp only [identifier] at h
  split at h <;> grind

lemma liveStates_integer : integer.LiveStates (· ≤ 2) := by
  refine .of_le [[], ['0']] (Nat.zero_le 2) (fun s c s' h => ?_) (by decide)
  simp only [integer] at h
  split at h <;> grind

lemma liveStates_number : number.LiveStates (· ≤ 7) := by
  refine .of_le [[], ['0']] (Nat.zero_le 7) (fun s c s' h => ?_) (by decide)
  simp only [number] at h
  split at h <;> grind

lemma liveStates_quoted : quoted.LiveStates (· ≤ 3) := by
  refine .of_le [[], ['\''], ['"'], ['"', '"']] (Nat.zero_le 3) (fun s c s' h => ?_) (by decide)
  simp only [quoted] at h
  split at h <;> grind

/-- The letters of a keyword that have not been read complete it. -/
lemma liveStates_keyword (hlimit : word.toList.length < stateLimit) :
    (keyword word).LiveStates (· ≤ word.toList.length) where
  initial := Nat.zero_le _
  step s c s' _ h := by
    rw [step_keyword] at h
    split at h
    · next hletter =>
      obtain ⟨a, ha, -⟩ := (Option.any_eq_true ..).mp hletter
      have hs : s < word.toList.length := (List.getElem?_eq_some_iff.mp ha).1
      obtain rfl := Option.some.inj h
      exact (Nat.mod_le _ _).trans hs
    · exact absurd h (by simp)
  exists_acceptsFrom s hs := by
    refine ⟨word.toList.drop s, ?_⟩
    have hread : (word.toList.take s).length = s := List.length_take_of_le hs
    have haccepts := (acceptsFrom_keyword (w := word.toList.drop s)
      (List.take_append_drop s word.toList).symm hlimit).mpr rfl
    rwa [hread] at haccepts

/-! ### Runs that have failed -/

/-- A run over live states is in a live state unless it has failed. -/
lemma LiveStates.state_feedAll {a : Automaton} (h : a.dfa.LiveStates live) {s : Nat}
    (ha : ∀ s, a.state = some s → live s) (hs : (a.feedAll w).state = some s) : live s := by
  induction w generalizing a with
  | nil => exact ha s hs
  | cons c w ih =>
    refine ih (a := a.feed c) h (fun s' hs' => ?_) hs
    obtain ⟨s₀, hs₀, hstep⟩ := Option.bind_eq_some_iff.mp hs'
    split at hstep
    · exact h.step s₀ c s' (ha s₀ hs₀) hstep
    · exact absurd hstep (by simp)

/-- With live states, a run has failed if and only if no word begins with what it has read. -/
lemma LiveStates.isFailed_iff {c : Category} (h : c.dfa.LiveStates live) :
    ((Automaton.start c).feedAll w).isFailed = true ↔ ∀ v, ¬ c.dfa.accepts (w ++ v) = true := by
  constructor
  · intro hfailed v
    simp [Automaton.not_accepts_of_isFailed hfailed v]
  · intro hnone
    rw [Automaton.isFailed, Option.isNone_iff_eq_none]
    by_contra hstate
    obtain ⟨s, hs⟩ := Option.ne_none_iff_exists'.mp hstate
    have hlive : live s := by
      refine h.state_feedAll (a := Automaton.start c) (fun s' hs' => ?_) hs
      obtain rfl : c.dfa.initial = s' := Option.some.inj hs'
      exact h.initial
    obtain ⟨v, hv⟩ := h.exists_acceptsFrom s hlive
    refine hnone v ?_
    rw [← Automaton.isAccepting_feedAll_start, Automaton.feedAll_append,
      Automaton.isAccepting_feedAll, hs, Automaton.dfa_feedAll]
    exact hv

/-! ### Decisions -/

/-- Whatever state an automaton is in, after a reset and the characters of a text it accepts if and
only if the text is in the language, and it has failed if and only if nothing that begins with the
text is. -/
structure Decides (d : Dfa) (L : List Char → Prop) : Prop where
  isAccepting_iff : ∀ a : Automaton, a.dfa = d → ∀ w,
    (a.reset.feedAll w).isAccepting = true ↔ L w
  isFailed_iff : ∀ a : Automaton, a.dfa = d → ∀ w,
    (a.reset.feedAll w).isFailed = true ↔ ∀ v, ¬ L (w ++ v)

lemma LiveStates.decides (h : d.LiveStates live) (hL : ∀ w, d.accepts w = true ↔ L w) :
    d.Decides L where
  isAccepting_iff a ha w := by
    have hreset : a.reset = Automaton.start a.toCategory := rfl
    rw [hreset, Automaton.isAccepting_feedAll_start, ha, hL]
  isFailed_iff a ha w := by
    have hreset : a.reset = Automaton.start a.toCategory := rfl
    have hlive : a.toCategory.dfa.LiveStates live := ha.symm ▸ h
    rw [hreset, hlive.isFailed_iff, ha]
    exact forall_congr' fun v => not_congr (hL (w ++ v))

/-- **The built-in automata decide their languages**: a letter with letters and digits behind it,
digits behind an optional sign, such an integer with an optional fraction and an optional exponent,
what stands between two equal quotes and does not have that quote, and a word of ASCII letters in
any case, if it has fewer letters than there are states. -/
theorem decides_builtIn :
    identifier.Decides IsIdentifier ∧
    integer.Decides (SignedDigits (· = [])) ∧
    number.Decides (fun w =>
      ∃ sign digits fraction exponent, IsNumber sign digits fraction exponent w) ∧
    quoted.Decides (fun w => ∃ q body, IsQuote q ∧ q ∉ body ∧ w = q :: (body ++ [q])) ∧
    ∀ word : String, word.toList.length < stateLimit → (keyword word).Decides (Spells word) :=
  ⟨liveStates_identifier.decides fun _ => accepts_identifier_iff,
    liveStates_integer.decides fun _ => accepts_integer_iff,
    liveStates_number.decides fun _ => accepts_number_iff,
    liveStates_quoted.decides fun _ => accepts_quoted_iff,
    fun _ hlimit => (liveStates_keyword hlimit).decides fun _ => accepts_keyword_iff hlimit⟩

/-- For instance, the automaton of a keyword has failed on a text that differs from the word in its
fourth letter, so nothing that begins with this text spells the word. -/
theorem decides_builtIn_select :
    "SELECT".toList.length < stateLimit ∧ (keyword "SELECT").Decides (Spells "SELECT") ∧
    ((Automaton.start ⟨.kwSelect, keyword "SELECT"⟩).reset.feedAll "seLl".toList).isFailed = true ∧
    ∀ v, ¬ Spells "SELECT" ("seLl".toList ++ v) := by
  have hlimit : "SELECT".toList.length < stateLimit := by decide
  have hdecides : (keyword "SELECT").Decides (Spells "SELECT") :=
    decides_builtIn.2.2.2.2 "SELECT" hlimit
  have hfailed : ((Automaton.start ⟨.kwSelect, keyword "SELECT"⟩).reset.feedAll
      "seLl".toList).isFailed = true := by decide +kernel
  exact ⟨hlimit, hdecides, hfailed, (hdecides.isFailed_iff _ rfl _).mp hfailed⟩

end Dfa

end LL1
