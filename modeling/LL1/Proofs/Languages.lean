/-
# The words of the built-in automata

For each of the automata that a lexicon is built from, the texts that it accepts: a word in any
case, a letter with letters and digits behind it, digits behind an optional sign, such an integer
with an optional fraction and an optional exponent, and a text between equal quotes.  The automata
of numbers share a part that reads digits behind an optional sign, in three states and with a way
out; it is looked at once, for any automaton that has it.
-/
import LL1.Proofs.MaximalMunch

namespace LL1

namespace Dfa

variable {d : Dfa} {s s₀ s₁ s₂ : Nat} {c q : Char} {w : List Char} {word : String}
  {out : List Char → Prop}

/-- All characters of an accepted text are in the alphabet. -/
lemma alphabet_of_acceptsFrom (h : d.acceptsFrom s w = true) : ∀ c ∈ w, d.alphabet c = true := by
  induction w generalizing s with
  | nil => simp
  | cons c w ih =>
    obtain ⟨hc, s', -, hw⟩ := acceptsFrom_cons.mp h
    exact List.forall_mem_cons.mpr ⟨hc, ih hw⟩

lemma alphabet_of_accepts (h : d.accepts w = true) : ∀ c ∈ w, d.alphabet c = true :=
  alphabet_of_acceptsFrom h

/-! ### Words in any case -/

/-- The text is the word up to the case of ASCII letters. -/
def Spells (word : String) (w : List Char) : Prop :=
  w.map Char.toLower = word.toList.map Char.toLower

instance (word : String) (w : List Char) : Decidable (Spells word w) :=
  inferInstanceAs (Decidable (_ = _))

lemma alphabet_keyword (word : String) (c : Char) :
    (keyword word).alphabet c = word.toList.any (sameLetter c) := by
  simp [keyword]

lemma step_keyword (word : String) (s : Nat) (c : Char) : (keyword word).step s c =
    if word.toList[s]?.any (sameLetter c) then some ((s + 1) % stateLimit) else none := by
  simp [keyword]

/-- After some letters of the word, its automaton accepts what spells the others. -/
lemma acceptsFrom_keyword {read left : List Char} (hword : word.toList = read ++ left)
    (hlimit : word.toList.length < stateLimit) :
    (keyword word).acceptsFrom read.length w = true ↔
      w.map Char.toLower = left.map Char.toLower := by
  induction w generalizing read left with
  | nil =>
    have hfinal : (keyword word).accepting = [word.toList.length % stateLimit] := rfl
    rw [acceptsFrom, hfinal, Nat.mod_eq_of_lt hlimit, hword, List.length_append]
    cases left <;> simp
  | cons c w ih =>
    rw [acceptsFrom_cons, step_keyword, hword, List.getElem?_append_right (Nat.le_refl _),
      Nat.sub_self]
    cases left with
    | nil => simp
    | cons a left =>
      have hnext : word.toList = (read ++ [a]) ++ left := by simp [hword]
      have hmod : (read.length + 1) % stateLimit = (read ++ [a]).length := by
        rw [List.length_append, List.length_singleton, Nat.mod_eq_of_lt]
        rw [hnext, List.length_append, List.length_append, List.length_singleton] at hlimit
        omega
      have halphabet (h : sameLetter c a = true) : (keyword word).alphabet c = true := by
        rw [alphabet_keyword, hword]
        exact List.any_eq_true.mpr ⟨a, by simp, h⟩
      rw [hmod]
      by_cases hsame : sameLetter c a = true
      · have hlower : c.toLower = a.toLower := by simpa [sameLetter] using hsame
        simpa [hsame, halphabet hsame, hlower] using ih hnext
      · have hlower : c.toLower ≠ a.toLower := by simpa [sameLetter] using hsame
        simp [hsame, hlower]

/-- **A keyword is recognised in any case**, if it has fewer letters than there are states. -/
theorem accepts_keyword_iff (hlimit : word.toList.length < stateLimit) :
    (keyword word).accepts w = true ↔ Spells word w :=
  acceptsFrom_keyword (List.nil_append word.toList).symm hlimit

/-! ### Identifiers -/

/-- A letter with letters and digits behind it. -/
def IsIdentifier : List Char → Prop
  | [] => False
  | c :: w => c.isAlpha = true ∧ ∀ a ∈ w, a.isAlphanum = true

lemma IsIdentifier.isAlphanum (h : IsIdentifier w) : ∀ a ∈ w, a.isAlphanum = true := by
  cases w with
  | nil => simp
  | cons c w =>
    refine List.forall_mem_cons.mpr ⟨?_, h.2⟩
    rw [Char.isAlphanum, h.1, Bool.true_or]

lemma acceptsFrom_identifier :
    identifier.acceptsFrom 1 w = true ↔ ∀ a ∈ w, a.isAlphanum = true := by
  induction w with
  | nil => simp [acceptsFrom, identifier]
  | cons c w ih =>
    rw [acceptsFrom_cons, List.forall_mem_cons, ← ih]
    simp [identifier]

/-- **Identifiers are recognised.** -/
theorem accepts_identifier_iff : identifier.accepts w = true ↔ IsIdentifier w := by
  cases w with
  | nil => simp [accepts, acceptsFrom, identifier, IsIdentifier]
  | cons c w =>
    have hletter (h : c.isAlpha = true) : identifier.alphabet c = true := by
      show c.isAlphanum = true
      rw [Char.isAlphanum, h, Bool.true_or]
    have hstep : identifier.step 0 c = if c.isAlpha then some 1 else none := rfl
    rw [accepts, acceptsFrom_cons, IsIdentifier, ← acceptsFrom_identifier]
    show identifier.alphabet c = true ∧ (∃ s', identifier.step 0 c = some s' ∧ _) ↔ _
    rw [hstep]
    by_cases h : c.isAlpha = true
    · simp [h, hletter h]
    · simp [h]

/-! ### Digits -/

/-- One digit or more. -/
def IsDigits (w : List Char) : Prop := w ≠ [] ∧ ∀ a ∈ w, a.isDigit = true

/-- A sign, or nothing. -/
inductive OptionalSign : List Char → Prop
  | nothing : OptionalSign []
  | sign {c : Char} : isSign c = true → OptionalSign [c]

/-- Digits behind an optional sign, and then a way out. -/
def SignedDigits (out : List Char → Prop) (w : List Char) : Prop :=
  ∃ sign digits rest, OptionalSign sign ∧ IsDigits digits ∧ out rest ∧
    w = sign ++ (digits ++ rest)

/-- The state reads digits, as many as there are, or it goes the way out. -/
structure ReadsDigits (d : Dfa) (s : Nat) (out : List Char → Prop) : Prop where
  nil : d.acceptsFrom s [] = true ↔ out []
  cons : ∀ c w, d.acceptsFrom s (c :: w) = true ↔
    c.isDigit = true ∧ d.acceptsFrom s w = true ∨ out (c :: w)

lemma ReadsDigits.acceptsFrom_iff (h : d.ReadsDigits s out) : d.acceptsFrom s w = true ↔
    ∃ digits rest, (∀ a ∈ digits, a.isDigit = true) ∧ out rest ∧ w = digits ++ rest := by
  constructor
  · intro hw
    induction w with
    | nil => exact ⟨[], [], by simp, h.nil.mp hw, rfl⟩
    | cons c w ih =>
      rcases (h.cons c w).mp hw with ⟨hc, hw⟩ | hout
      · obtain ⟨digits, rest, hdigits, hout, rfl⟩ := ih hw
        exact ⟨c :: digits, rest, List.forall_mem_cons.mpr ⟨hc, hdigits⟩, hout, rfl⟩
      · exact ⟨[], c :: w, by simp, hout, rfl⟩
  · rintro ⟨digits, rest, hdigits, hout, rfl⟩
    induction digits with
    | nil =>
      cases rest with
      | nil => exact h.nil.mpr hout
      | cons c rest => exact (h.cons c rest).mpr (.inr hout)
    | cons c digits ih =>
      obtain ⟨hc, hdigits⟩ := List.forall_mem_cons.mp hdigits
      exact (h.cons c (digits ++ rest)).mpr (.inl ⟨hc, ih hdigits⟩)

/-- The state `s₁` reads one digit and goes on in `s₂`. -/
structure ReadsDigit (d : Dfa) (s₁ s₂ : Nat) : Prop where
  nil : d.acceptsFrom s₁ [] = false
  cons : ∀ c w, d.acceptsFrom s₁ (c :: w) = true ↔ c.isDigit = true ∧ d.acceptsFrom s₂ w = true

lemma ReadsDigit.acceptsFrom_iff (h : d.ReadsDigit s₁ s₂) (h₂ : d.ReadsDigits s₂ out) :
    d.acceptsFrom s₁ w = true ↔
      ∃ digits rest, IsDigits digits ∧ out rest ∧ w = digits ++ rest := by
  cases w with
  | nil =>
    have hnil : d.acceptsFrom s₁ [] ≠ true := by simp [h.nil]
    refine iff_of_false hnil ?_
    rintro ⟨digits, rest, ⟨hne, -⟩, -, hw⟩
    exact hne (List.append_eq_nil_iff.mp hw.symm).1
  | cons c w =>
    rw [h.cons, h₂.acceptsFrom_iff]
    constructor
    · rintro ⟨hc, digits, rest, hdigits, hout, rfl⟩
      exact ⟨c :: digits, rest, ⟨by simp, List.forall_mem_cons.mpr ⟨hc, hdigits⟩⟩, hout, rfl⟩
    · rintro ⟨digits, rest, ⟨hne, hdigits⟩, hout, hw⟩
      obtain ⟨a, digits, rfl⟩ := List.exists_cons_of_ne_nil hne
      obtain ⟨rfl, rfl⟩ := List.cons.inj hw
      obtain ⟨hc, hdigits⟩ := List.forall_mem_cons.mp hdigits
      exact ⟨hc, digits, rest, hdigits, hout, rfl⟩

/-- The state `s₀` reads a sign and goes on in `s₁`, or it reads one digit and goes on in `s₂`. -/
structure ReadsSign (d : Dfa) (s₀ s₁ s₂ : Nat) : Prop where
  nil : d.acceptsFrom s₀ [] = false
  cons : ∀ c w, d.acceptsFrom s₀ (c :: w) = true ↔
    isSign c = true ∧ d.acceptsFrom s₁ w = true ∨ c.isDigit = true ∧ d.acceptsFrom s₂ w = true

lemma ReadsSign.acceptsFrom_iff (h : d.ReadsSign s₀ s₁ s₂) (h₁ : d.ReadsDigit s₁ s₂)
    (h₂ : d.ReadsDigits s₂ out) : d.acceptsFrom s₀ w = true ↔ SignedDigits out w := by
  constructor
  · intro hw
    cases w with
    | nil => exact absurd (h.nil.symm.trans hw) (by simp)
    | cons c w =>
      rcases (h.cons c w).mp hw with ⟨hc, hw⟩ | hdigit
      · obtain ⟨digits, rest, hdigits, hout, rfl⟩ := (h₁.acceptsFrom_iff h₂).mp hw
        exact ⟨[c], digits, rest, .sign hc, hdigits, hout, rfl⟩
      · have hw : d.acceptsFrom s₁ (c :: w) = true := (h₁.cons c w).mpr hdigit
        obtain ⟨digits, rest, hdigits, hout, hw⟩ := (h₁.acceptsFrom_iff h₂).mp hw
        exact ⟨[], digits, rest, .nothing, hdigits, hout, hw⟩
  · rintro ⟨sign, digits, rest, hsign, hdigits, hout, rfl⟩
    have hw : d.acceptsFrom s₁ (digits ++ rest) = true :=
      (h₁.acceptsFrom_iff h₂).mpr ⟨digits, rest, hdigits, hout, rfl⟩
    cases hsign with
    | nothing =>
      obtain ⟨c, digits, rfl⟩ := List.exists_cons_of_ne_nil hdigits.1
      exact (h.cons c (digits ++ rest)).mpr (.inr ((h₁.cons c (digits ++ rest)).mp hw))
    | sign hc => exact (h.cons _ _).mpr (.inl ⟨hc, hw⟩)

/-! ### States that read digits -/

lemma beq_of_isDigit {a : Char} (h : c.isDigit = true) (ha : a.isDigit = false) :
    (c == a) = false := by
  refine beq_eq_false_iff_ne.mpr ?_
  rintro rfl
  exact absurd (h.symm.trans ha) (by simp)

lemma not_isSign_of_isDigit (h : c.isDigit = true) : isSign c = false := by
  rw [isSign, beq_of_isDigit h rfl, beq_of_isDigit h rfl, Bool.or_false]

/-- A state that goes on with digits and with nothing else. -/
lemma ReadsDigits.of_step (hdigits : ∀ c, c.isDigit = true → d.alphabet c = true)
    (hend : d.accepting.contains s = true)
    (hstep : ∀ c, d.step s c = if c.isDigit then some s else none) :
    d.ReadsDigits s (· = []) where
  nil := iff_of_true hend rfl
  cons c w := by
    rw [acceptsFrom_cons, hstep]
    by_cases hdigit : c.isDigit = true
    · simp [hdigit, hdigits c hdigit]
    · simp [hdigit]

lemma ReadsDigit.of_step (hdigits : ∀ c, c.isDigit = true → d.alphabet c = true)
    (hend : d.accepting.contains s₁ = false)
    (hstep : ∀ c, d.step s₁ c = if c.isDigit then some s₂ else none) : d.ReadsDigit s₁ s₂ where
  nil := hend
  cons c w := by
    rw [acceptsFrom_cons, hstep]
    by_cases hdigit : c.isDigit = true
    · simp [hdigit, hdigits c hdigit]
    · simp [hdigit]

lemma ReadsSign.of_step (hdigits : ∀ c, c.isDigit = true → d.alphabet c = true)
    (hsigns : ∀ c, isSign c = true → d.alphabet c = true) (hend : d.accepting.contains s₀ = false)
    (hstep : ∀ c, d.step s₀ c =
      if isSign c then some s₁ else if c.isDigit then some s₂ else none) :
    d.ReadsSign s₀ s₁ s₂ where
  nil := hend
  cons c w := by
    rw [acceptsFrom_cons, hstep]
    by_cases hdigit : c.isDigit = true
    · simp [hdigit, hdigits c hdigit, not_isSign_of_isDigit hdigit]
    · by_cases hsign : isSign c = true
      · simp [hdigit, hsign, hsigns c hsign]
      · simp [hdigit, hsign]

/-! ### Integers -/

lemma alphabet_integer_of_isDigit (c : Char) (h : c.isDigit = true) :
    integer.alphabet c = true := by
  simp [integer, h]

lemma alphabet_integer_of_isSign (c : Char) (h : isSign c = true) : integer.alphabet c = true := by
  simp [integer, h]

/-- **Integers are recognised**: digits behind an optional sign, and nothing else. -/
theorem accepts_integer_iff : integer.accepts w = true ↔ SignedDigits (· = []) w := by
  have h₂ : integer.ReadsDigits 2 (· = []) := .of_step alphabet_integer_of_isDigit rfl fun _ => rfl
  have h₁ : integer.ReadsDigit 1 2 := .of_step alphabet_integer_of_isDigit rfl fun _ => rfl
  have h₀ : integer.ReadsSign 0 1 2 :=
    .of_step alphabet_integer_of_isDigit alphabet_integer_of_isSign rfl fun _ => rfl
  exact h₀.acceptsFrom_iff h₁ h₂

/-! ### Numbers -/

/-- A point with digits behind it, or nothing. -/
inductive OptionalFraction : List Char → Prop
  | nothing : OptionalFraction []
  | digits {w : List Char} : IsDigits w → OptionalFraction ('.' :: w)

/-- The mark of an exponent with an optional sign and digits behind it, or nothing. -/
inductive OptionalExponent : List Char → Prop
  | nothing : OptionalExponent []
  | digits {c : Char} {w : List Char} :
      isExponentMark c = true → SignedDigits (· = []) w → OptionalExponent (c :: w)

/-- What comes behind the first digits of a number. -/
def EndsNumber (w : List Char) : Prop :=
  ∃ fraction exponent, OptionalFraction fraction ∧ OptionalExponent exponent ∧
    w = fraction ++ exponent

/-- The text is a number with these parts. -/
structure IsNumber (sign digits fraction exponent w : List Char) : Prop where
  optionalSign : OptionalSign sign
  isDigits : IsDigits digits
  optionalFraction : OptionalFraction fraction
  optionalExponent : OptionalExponent exponent
  eq_append : w = sign ++ (digits ++ (fraction ++ exponent))

lemma not_isExponentMark_of_isDigit (h : c.isDigit = true) : isExponentMark c = false := by
  rw [isExponentMark, beq_of_isDigit h rfl, beq_of_isDigit h rfl, Bool.or_false]

lemma alphabet_number_of_isDigit (c : Char) (h : c.isDigit = true) : number.alphabet c = true := by
  simp [number, h]

lemma alphabet_number_of_isSign (c : Char) (h : isSign c = true) : number.alphabet c = true := by
  simp [number, h]

/-- Behind the mark of an exponent the automaton of numbers accepts the digits of one. -/
lemma acceptsFrom_number_mark : number.acceptsFrom 5 w = true ↔ SignedDigits (· = []) w := by
  have h₂ : number.ReadsDigits 7 (· = []) := .of_step alphabet_number_of_isDigit rfl fun _ => rfl
  have h₁ : number.ReadsDigit 6 7 := .of_step alphabet_number_of_isDigit rfl fun _ => rfl
  have h₀ : number.ReadsSign 5 6 7 :=
    .of_step alphabet_number_of_isDigit alphabet_number_of_isSign rfl fun _ => rfl
  exact h₀.acceptsFrom_iff h₁ h₂

lemma optionalExponent_cons : OptionalExponent (c :: w) ↔
    isExponentMark c = true ∧ number.acceptsFrom 5 w = true := by
  rw [acceptsFrom_number_mark]
  constructor
  · rintro (_ | ⟨hc, hw⟩)
    exact ⟨hc, hw⟩
  · rintro ⟨hc, hw⟩
    exact .digits hc hw

/-- Behind the point it accepts digits and an optional exponent. -/
lemma acceptsFrom_number_point : number.acceptsFrom 3 w = true ↔
    ∃ digits exponent, IsDigits digits ∧ OptionalExponent exponent ∧ w = digits ++ exponent := by
  have h₂ : number.ReadsDigits 4 OptionalExponent :=
    { nil := iff_of_true rfl .nothing
      cons := fun c w => by
        rw [acceptsFrom_cons, optionalExponent_cons]
        by_cases hdigit : c.isDigit = true
        · simp [number, hdigit, not_isExponentMark_of_isDigit hdigit]
        · by_cases hmark : isExponentMark c = true <;> simp [number, hdigit, hmark] }
  have h₁ : number.ReadsDigit 3 4 := .of_step alphabet_number_of_isDigit rfl fun _ => rfl
  exact h₁.acceptsFrom_iff h₂

lemma endsNumber_cons : EndsNumber (c :: w) ↔
    c = '.' ∧ number.acceptsFrom 3 w = true ∨
      isExponentMark c = true ∧ number.acceptsFrom 5 w = true := by
  rw [acceptsFrom_number_point, ← optionalExponent_cons]
  constructor
  · rintro ⟨fraction, exponent, hfraction, hexponent, hw⟩
    cases hfraction with
    | nothing => exact .inr (hw ▸ hexponent)
    | @digits v hdigits =>
      obtain ⟨rfl, rfl⟩ := List.cons.inj hw
      exact .inl ⟨rfl, v, exponent, hdigits, hexponent, rfl⟩
  · rintro (⟨rfl, digits, exponent, hdigits, hexponent, rfl⟩ | hexponent)
    · exact ⟨_, exponent, .digits hdigits, hexponent, rfl⟩
    · exact ⟨[], _, .nothing, hexponent, rfl⟩

lemma readsDigits_number : number.ReadsDigits 2 EndsNumber where
  nil := iff_of_true rfl ⟨[], [], .nothing, .nothing, rfl⟩
  cons c w := by
    rw [acceptsFrom_cons, endsNumber_cons]
    by_cases hdigit : c.isDigit = true
    · have hpoint : c ≠ '.' := by rintro rfl; exact absurd hdigit (by decide)
      simp [number, hdigit, hpoint, not_isExponentMark_of_isDigit hdigit]
    · by_cases hpoint : c = '.'
      · have hmark : isExponentMark '.' = false := by decide
        simp [number, hpoint, hmark]
      · by_cases hmark : isExponentMark c = true <;> simp [number, hdigit, hpoint, hmark]

/-- **Numbers are recognised**: an integer, an optional fraction and an optional exponent. -/
theorem accepts_number_iff : number.accepts w = true ↔
    ∃ sign digits fraction exponent, IsNumber sign digits fraction exponent w := by
  have h₁ : number.ReadsDigit 1 2 := .of_step alphabet_number_of_isDigit rfl fun _ => rfl
  have h₀ : number.ReadsSign 0 1 2 :=
    .of_step alphabet_number_of_isDigit alphabet_number_of_isSign rfl fun _ => rfl
  have haccepts : number.accepts w = true ↔ SignedDigits EndsNumber w :=
    h₀.acceptsFrom_iff h₁ readsDigits_number
  rw [haccepts]
  constructor
  · rintro ⟨sign, digits, _, hsign, hdigits, ⟨fraction, exponent, hfraction, hexponent, rfl⟩, hw⟩
    exact ⟨sign, digits, fraction, exponent, hsign, hdigits, hfraction, hexponent, hw⟩
  · rintro ⟨sign, digits, fraction, exponent, hsign, hdigits, hfraction, hexponent, hw⟩
    exact ⟨sign, digits, _, hsign, hdigits, ⟨fraction, exponent, hfraction, hexponent, rfl⟩, hw⟩

/-! ### Quoted texts -/

/-- A single or a double quote. -/
def IsQuote (c : Char) : Prop := c = '\'' ∨ c = '"'

/-- The state reads up to the next `q`. -/
structure ReadsBody (d : Dfa) (s : Nat) (q : Char) : Prop where
  nil : d.acceptsFrom s [] = false
  cons : ∀ c w, d.acceptsFrom s (c :: w) = true ↔
    c = q ∧ w = [] ∨ c ≠ q ∧ d.acceptsFrom s w = true

lemma ReadsBody.acceptsFrom_iff (h : d.ReadsBody s q) :
    d.acceptsFrom s w = true ↔ ∃ body, q ∉ body ∧ w = body ++ [q] := by
  constructor
  · intro hw
    induction w with
    | nil => exact absurd (h.nil.symm.trans hw) (by simp)
    | cons c w ih =>
      rcases (h.cons c w).mp hw with ⟨rfl, rfl⟩ | ⟨hc, hw⟩
      · exact ⟨[], by simp, rfl⟩
      · obtain ⟨body, hbody, rfl⟩ := ih hw
        exact ⟨c :: body, by simp [hbody, hc.symm], rfl⟩
  · rintro ⟨body, hbody, rfl⟩
    induction body with
    | nil => exact (h.cons q []).mpr (.inl ⟨rfl, rfl⟩)
    | cons c body ih =>
      obtain ⟨hc, hbody⟩ : q ≠ c ∧ q ∉ body := by simpa using hbody
      exact (h.cons c (body ++ [q])).mpr (.inr ⟨Ne.symm hc, ih hbody⟩)

/-- Behind the closing quote nothing is read any more. -/
lemma acceptsFrom_quoted_end : quoted.acceptsFrom 3 w = true ↔ w = [] := by
  cases w <;> simp [acceptsFrom, quoted]

lemma readsBody_quoted (hend : quoted.accepting.contains s = false)
    (hstep : ∀ c, quoted.step s c = if c == q then some 3 else some s) :
    quoted.ReadsBody s q where
  nil := hend
  cons c w := by
    have halphabet (c : Char) : quoted.alphabet c = true := rfl
    rw [acceptsFrom_cons, ← acceptsFrom_quoted_end, hstep]
    by_cases hc : c = q <;> simp [halphabet, hc]

lemma accepts_quoted_cons : quoted.accepts (c :: w) = true ↔
    c = '\'' ∧ quoted.acceptsFrom 1 w = true ∨ c = '"' ∧ quoted.acceptsFrom 2 w = true := by
  rw [accepts, acceptsFrom_cons]
  by_cases hsingle : c = '\''
  · simp [quoted, hsingle]
  · by_cases hdouble : c = '"' <;> simp [quoted, hsingle, hdouble]

/-- **Quoted texts are recognised**: they go from a quote to the next one of its kind. -/
theorem accepts_quoted_iff : quoted.accepts w = true ↔
    ∃ q body, IsQuote q ∧ q ∉ body ∧ w = q :: (body ++ [q]) := by
  cases w with
  | nil => exact iff_of_false (by decide) (by simp)
  | cons c w =>
    have hsingle : quoted.ReadsBody 1 '\'' := readsBody_quoted rfl fun _ => rfl
    have hdouble : quoted.ReadsBody 2 '"' := readsBody_quoted rfl fun _ => rfl
    rw [accepts_quoted_cons, hsingle.acceptsFrom_iff, hdouble.acceptsFrom_iff]
    constructor
    · rintro (⟨rfl, body, hbody, rfl⟩ | ⟨rfl, body, hbody, rfl⟩)
      · exact ⟨_, body, .inl rfl, hbody, rfl⟩
      · exact ⟨_, body, .inr rfl, hbody, rfl⟩
    · rintro ⟨q, body, hq, hbody, hw⟩
      obtain ⟨rfl, rfl⟩ := List.cons.inj hw
      rcases hq with rfl | rfl
      · exact .inl ⟨rfl, body, hbody, rfl⟩
      · exact .inr ⟨rfl, body, hbody, rfl⟩

end Dfa

end LL1
