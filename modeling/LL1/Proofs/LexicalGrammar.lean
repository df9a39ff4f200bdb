/-
# The lexical grammar of SQL

Which texts the lexicon of SQL recognises, and as what: names, which are keywords, types or
identifiers, numerals, quotations, and punctuation.  The first character tells which of these a word
can be, and so the longest word at the beginning of a text can be told without all of the automata:
a name goes as far as there are letters and digits, a numeral as far as the text has the form of a
number, a quotation up to the next quote of its kind, and punctuation is a single character.
-/
import LL1.Proofs.Languages
import LL1.Sql.Lexicon
import Mathlib.Data.List.Nodup
import Mathlib.Data.List.TakeWhile

namespace LL1

/-! ### Letters, digits and blanks -/

namespace Text

variable {c : Char}

lemma isUpper_iff : c.isUpper = true ↔ 65 ≤ c.toNat ∧ c.toNat ≤ 90 := decide_eq_true_iff

lemma isLower_iff : c.isLower = true ↔ 97 ≤ c.toNat ∧ c.toNat ≤ 122 :=
  Bool.and_eq_true_iff.trans (and_congr decide_eq_true_iff decide_eq_true_iff)

lemma isAlpha_iff : c.isAlpha = true ↔
    65 ≤ c.toNat ∧ c.toNat ≤ 90 ∨ 97 ≤ c.toNat ∧ c.toNat ≤ 122 :=
  Bool.or_eq_true_iff.trans (or_congr isUpper_iff isLower_iff)

lemma toLower_of_not_isUpper (h : ¬ c.isUpper = true) : c.toLower = c :=
  dif_neg (mt decide_eq_true h)

/-- A capital letter and its small letter are 32 apart. -/
lemma toNat_toLower (h : c.isUpper = true) : c.toLower.toNat = c.toNat + 32 := by
  obtain ⟨hA, hZ⟩ := isUpper_iff.mp h
  have hlower : c.toLower.val = c.val + 32 := congrArg Char.val (dif_pos (of_decide_eq_true h))
  show c.toLower.val.toNat = c.toNat + 32
  rw [hlower, UInt32.toNat_add]
  exact Nat.mod_eq_of_lt (by show c.toNat + 32 < 2 ^ 32; omega)

lemma toLower_of_not_isAlpha (h : c.isAlpha = false) : c.toLower = c := by
  refine toLower_of_not_isUpper fun hupper => ?_
  have halpha := isAlpha_iff.mpr (.inl (isUpper_iff.mp hupper))
  exact absurd (h.symm.trans halpha) (by simp)

lemma isAlpha_toLower (c : Char) : c.toLower.isAlpha = c.isAlpha := by
  by_cases hupper : c.isUpper = true
  · have hrange := isUpper_iff.mp hupper
    rw [Bool.eq_iff_iff, isAlpha_iff, isAlpha_iff, toNat_toLower hupper]
    omega
  · rw [toLower_of_not_isUpper hupper]

lemma not_isDigit_of_isAlpha (h : c.isAlpha = true) : c.isDigit = false := by
  rw [isAlpha_iff] at h
  rw [Bool.eq_false_iff, ne_eq, Char.isDigit_iff_toNat]
  show ¬ (48 ≤ c.toNat ∧ c.toNat ≤ 57)
  omega

lemma not_isBlank_of_isAlphanum (h : c.isAlphanum = true) : isBlank c = false := by
  have hrange : 65 ≤ c.toNat ∧ c.toNat ≤ 90 ∨ 97 ≤ c.toNat ∧ c.toNat ≤ 122 ∨
      48 ≤ c.toNat ∧ c.toNat ≤ 57 := by
    rwa [Char.isAlphanum, Bool.or_eq_true, isAlpha_iff, Char.isDigit_iff_toNat, or_assoc] at h
  have hascii : c.toNat < 0x80 := by omega
  rw [isBlank, if_pos hascii]
  simp
  omega

end Text

/-! ### Kinds by parts of a lexicon -/

namespace Lexicon

lemma kind?_append (l l' : Lexicon) (w : List Char) :
    Lexicon.kind? (l ++ l') w = (l.kind? w).or (l'.kind? w) := by
  rw [kind?, List.find?_append, Option.map_or]
  rfl

lemma kind?_cons (c : Category) (l : Lexicon) (w : List Char) :
    Lexicon.kind? (c :: l) w = if c.dfa.accepts w then some c.kind else l.kind? w := by
  rw [kind?, List.find?_cons]
  cases c.dfa.accepts w <;> rfl

end Lexicon

namespace Sql

open Dfa

variable {c q : Char} {v w : List Char} {kind : Terminal} {word : String}

/-! ### The grammar -/

/-- The punctuation of the language. -/
def punctuation : List (Terminal × Char) :=
  [(.star, '*'), (.equal, '='), (.greater, '>'), (.less, '<'), (.parenOpen, '('),
    (.parenClose, ')'), (.comma, ','), (.semicolon, ';')]

/-- The kind of a name: that of the word in the table which it spells, or else an identifier. -/
def nameKind (w : List Char) : Terminal :=
  match words.find? fun x => Spells x.2 w with
  | some x => x.1
  | none => .identifier

/-- The kind of a numeral with this fraction and this exponent. -/
def numeralKind (fraction exponent : List Char) : Terminal :=
  if fraction = [] ∧ exponent = [] then .intConstant else .numberConstant

/-- The text is a word of the language, and of the given kind. -/
inductive IsWord : Terminal → List Char → Prop
  | name {w : List Char} : IsIdentifier w → IsWord (nameKind w) w
  | numeral {sign digits fraction exponent w : List Char} :
      IsNumber sign digits fraction exponent w → IsWord (numeralKind fraction exponent) w
  | quotation {q : Char} {body : List Char} :
      IsQuote q → q ∉ body → IsWord .charConstant (q :: (body ++ [q]))
  | punctuation {kind : Terminal} {c : Char} : (kind, c) ∈ punctuation → IsWord kind [c]

/-! ### The first character -/

/-- The forms of words. -/
inductive Form
  | name
  | numeral
  | quotation
  | punctuation
deriving DecidableEq

/-- The form of the words that begin with a character. -/
def form? (c : Char) : Option Form :=
  if c.isAlpha then some .name
  else if c.isDigit || isSign c then some .numeral
  else if c = '\'' || c = '"' then some .quotation
  else if punctuation.any (·.2 == c) then some .punctuation
  else none

/-- The form of a text that is a word. -/
def formOf (w : List Char) : Option Form := w.head?.bind form?

lemma form?_of_isAlpha (h : c.isAlpha = true) : form? c = some .name := by
  simp [form?, h]

lemma form?_of_isDigit (h : c.isDigit = true) : form? c = some .numeral := by
  have halpha : c.isAlpha = false := by
    by_contra halpha
    exact absurd (Text.not_isDigit_of_isAlpha (eq_true_of_ne_false halpha)) (by simp [h])
  simp [form?, h, halpha]

lemma form?_of_isSign (h : isSign c = true) : form? c = some .numeral := by
  rw [isSign, Bool.or_eq_true, beq_iff_eq, beq_iff_eq] at h
  rcases h with rfl | rfl <;> decide

lemma form?_of_isQuote (h : IsQuote q) : form? q = some .quotation := by
  rcases h with rfl | rfl <;> decide

lemma form?_of_punctuation (h : (kind, c) ∈ punctuation) : form? c = some .punctuation := by
  have hall : ∀ x ∈ punctuation, form? x.2 = some .punctuation := by decide
  exact hall _ h

lemma formOf_of_isPrefix (hne : v ≠ []) (h : v <+: w) : formOf v = formOf w := by
  obtain ⟨c, v, rfl⟩ := List.exists_cons_of_ne_nil hne
  obtain ⟨rest, rfl⟩ := h
  rfl

lemma formOf_of_isIdentifier (h : IsIdentifier w) : formOf w = some .name := by
  cases w with
  | nil => exact h.elim
  | cons c w => exact form?_of_isAlpha h.1

lemma formOf_of_signedDigits {out : List Char → Prop} (h : SignedDigits out w) :
    formOf w = some .numeral := by
  obtain ⟨sign, digits, rest, hsign, ⟨hne, hdigits⟩, -, rfl⟩ := h
  cases hsign with
  | nothing =>
    obtain ⟨c, digits, rfl⟩ := List.exists_cons_of_ne_nil hne
    exact form?_of_isDigit (hdigits c List.mem_cons_self)
  | sign hc => exact form?_of_isSign hc

lemma signedDigits_of_isNumber {sign digits fraction exponent : List Char}
    (h : IsNumber sign digits fraction exponent w) : SignedDigits EndsNumber w :=
  ⟨sign, digits, _, h.optionalSign, h.isDigits,
    ⟨fraction, exponent, h.optionalFraction, h.optionalExponent, rfl⟩, h.eq_append⟩

/-- What a word of each form is. -/
def HasForm : Option Form → List Char → Prop
  | some .name, w => IsIdentifier w
  | some .numeral, w => ∃ sign digits fraction exponent, IsNumber sign digits fraction exponent w
  | some .quotation, w => ∃ q body, q ∉ body ∧ w = q :: (body ++ [q])
  | some .punctuation, w => w.length = 1
  | none, _ => False

/-- The first character of a word tells its form. -/
lemma IsWord.hasForm (h : IsWord kind w) : HasForm (formOf w) w := by
  cases h with
  | name hw =>
    rw [formOf_of_isIdentifier hw]
    exact hw
  | numeral hw =>
    rw [formOf_of_signedDigits (signedDigits_of_isNumber hw)]
    exact ⟨_, _, _, _, hw⟩
  | @quotation q body hq hbody =>
    have hform : formOf (q :: (body ++ [q])) = some .quotation := form?_of_isQuote hq
    rw [hform]
    exact ⟨q, body, hbody, rfl⟩
  | @punctuation kind c hc =>
    have hform : formOf [c] = some .punctuation := form?_of_punctuation hc
    rw [hform]
    rfl

lemma IsWord.ne_nil (h : IsWord kind w) : w ≠ [] := by
  rintro rfl
  exact h.hasForm

/-! ### What the table recognises -/

/-- The words of the table are names or punctuation. -/
lemma words_split : ∀ x ∈ words, (x.2.toList ≠ [] ∧ x.2.toList.all Char.isAlpha = true) ∨
    ∃ y ∈ punctuation, x.1 = y.1 ∧ x.2.toList = [y.2] ∧ y.2.isAlpha = false := by
  decide

lemma isAlpha_of_spells (h : Spells word w) (hword : word.toList.all Char.isAlpha = true) :
    ∀ a ∈ w, a.isAlpha = true := by
  intro a ha
  have hmem : a.toLower ∈ word.toList.map Char.toLower := h ▸ List.mem_map_of_mem ha
  obtain ⟨b, hb, hlower⟩ := List.mem_map.mp hmem
  rw [← Text.isAlpha_toLower a, ← hlower, Text.isAlpha_toLower]
  exact List.all_eq_true.mp hword b hb

lemma eq_of_spells (h : Spells word w) (hword : word.toList = [c]) (hc : c.isAlpha = false) :
    w = [c] := by
  rw [Spells, hword, List.map_singleton, List.map_eq_singleton_iff] at h
  obtain ⟨a, rfl, hlower⟩ := h
  have ha : a.isAlpha = false := by
    rw [← Text.isAlpha_toLower a, hlower, Text.isAlpha_toLower, hc]
  rw [Text.toLower_of_not_isAlpha ha, Text.toLower_of_not_isAlpha hc] at hlower
  rw [hlower]

/-- What spells a word of the table is a name, or it is punctuation. -/
lemma spells_cases (hx : (kind, word) ∈ words) (h : Spells word w) :
    IsIdentifier w ∨ ∃ c, (kind, c) ∈ punctuation ∧ w = [c] := by
  rcases words_split _ hx with ⟨hne, hword⟩ | ⟨⟨k, c⟩, hc, rfl, hword, halpha⟩
  · left
    have hw := isAlpha_of_spells h hword
    cases w with
    | nil =>
      have hnil : word.toList.map Char.toLower = [] := h.symm
      exact absurd (List.map_eq_nil_iff.mp hnil) hne
    | cons a w =>
      refine ⟨hw a List.mem_cons_self, fun b hb => ?_⟩
      rw [Char.isAlphanum, hw b (List.mem_cons_of_mem a hb), Bool.true_or]
  · exact .inr ⟨c, hc, eq_of_spells h hword halpha⟩

lemma not_spells_of_formOf (h : formOf w = some .numeral ∨ formOf w = some .quotation) :
    ∀ x ∈ words, ¬ Spells x.2 w := by
  intro x hx hspells
  have hform : formOf w = some .name ∨ formOf w = some .punctuation := by
    rcases spells_cases hx hspells with hw | ⟨c, hc, rfl⟩
    · exact .inl (formOf_of_isIdentifier hw)
    · exact .inr (form?_of_punctuation hc)
  rcases h with h | h <;> simp [h] at hform

/-- No two words of the table are spelled alike. -/
lemma spells_unique {x y : Terminal × String} (hx : x ∈ words) (hy : y ∈ words)
    (hxw : Spells x.2 w) (hyw : Spells y.2 w) : x = y := by
  have hnodup : (words.map fun x => x.2.toList.map Char.toLower).Nodup := by decide
  exact List.inj_on_of_nodup_map hnodup hx hy (hxw.symm.trans hyw)

lemma nameKind_of_spells (hx : (kind, word) ∈ words) (h : Spells word w) : nameKind w = kind := by
  obtain ⟨y, hy⟩ : ∃ y, words.find? (fun x => Spells x.2 w) = some y :=
    Option.isSome_iff_exists.mp (List.find?_isSome.mpr ⟨_, hx, decide_eq_true h⟩)
  have hspells : Spells y.2 w := by simpa using List.find?_some hy
  obtain rfl := spells_unique (List.mem_of_find?_eq_some hy) hx hspells h
  rw [nameKind, hy]

lemma nameKind_of_not_spells (h : ∀ x ∈ words, ¬ Spells x.2 w) : nameKind w = .identifier := by
  have hnone : words.find? (fun x => Spells x.2 w) = none := by
    rw [List.find?_eq_none]
    exact fun x hx => by simpa using h x hx
  rw [nameKind, hnone]

lemma isWord_of_spells (hx : (kind, word) ∈ words) (h : Spells word w) : IsWord kind w := by
  rcases spells_cases hx h with hw | ⟨c, hc, rfl⟩
  · exact nameKind_of_spells hx h ▸ .name hw
  · exact .punctuation hc

lemma accepts_word_iff {x : Terminal × String} (hx : x ∈ words) :
    (keyword x.2).accepts w = true ↔ Spells x.2 w := by
  have hlimit : ∀ x ∈ words, x.2.toList.length < stateLimit := by decide
  exact accepts_keyword_iff (hlimit x hx)

/-- The categories of the table. -/
def table : Lexicon := words.map fun x => ⟨x.1, .keyword x.2⟩

lemma kind?_table_eq_none_iff :
    Lexicon.kind? table w = none ↔ ∀ x ∈ words, ¬ Spells x.2 w := by
  rw [Lexicon.kind?, Option.map_eq_none_iff, List.find?_eq_none, table, List.forall_mem_map]
  exact forall₂_congr fun x hx => not_congr (accepts_word_iff hx)

lemma kind?_table_eq_some_iff :
    Lexicon.kind? table w = some kind ↔ ∃ word, (kind, word) ∈ words ∧ Spells word w := by
  have hspells {k : Terminal} (h : Lexicon.kind? table w = some k) :
      ∃ word, (k, word) ∈ words ∧ Spells word w := by
    obtain ⟨c, hc, rfl⟩ := Option.map_eq_some_iff.mp h
    obtain ⟨x, hx, rfl⟩ := List.mem_map.mp (List.mem_of_find?_eq_some hc)
    have haccepts : (keyword x.2).accepts w = true := by simpa using List.find?_some hc
    exact ⟨x.2, hx, (accepts_word_iff hx).mp haccepts⟩
  refine ⟨hspells, fun ⟨word, hx, hword⟩ => ?_⟩
  cases hkind : Lexicon.kind? table w with
  | none => exact absurd hword (kind?_table_eq_none_iff.mp hkind _ hx)
  | some k =>
    obtain ⟨word', hx', hword'⟩ := hspells hkind
    rw [(Prod.mk.inj (spells_unique hx' hx hword' hword)).1]

/-! ### Recognition -/

lemma kind?_eq (w : List Char) : Lexicon.kind? lexicon w = (Lexicon.kind? table w).or
    (if integer.accepts w then some .intConstant
    else if quoted.accepts w then some .charConstant
    else if number.accepts w then some .numberConstant
    else if identifier.accepts w then some .identifier else none) := by
  have hsplit : lexicon = table ++ [⟨.intConstant, .integer⟩, ⟨.charConstant, .quoted⟩,
    ⟨.numberConstant, .number⟩, ⟨.identifier, .identifier⟩] := rfl
  rw [hsplit, Lexicon.kind?_append]
  simp only [Lexicon.kind?_cons]
  rfl

lemma not_integer_of_formOf (h : formOf w ≠ some .numeral) : integer.accepts w = false :=
  eq_false_of_ne_true fun hw => h (formOf_of_signedDigits (accepts_integer_iff.mp hw))

lemma not_number_of_formOf (h : formOf w ≠ some .numeral) : number.accepts w = false := by
  refine eq_false_of_ne_true fun hw => h ?_
  obtain ⟨_, _, _, _, hw⟩ := accepts_number_iff.mp hw
  exact formOf_of_signedDigits (signedDigits_of_isNumber hw)

lemma not_quoted_of_formOf (h : formOf w ≠ some .quotation) : quoted.accepts w = false := by
  refine eq_false_of_ne_true fun hw => h ?_
  obtain ⟨q, body, hq, -, rfl⟩ := accepts_quoted_iff.mp hw
  exact form?_of_isQuote hq

/-- A number is an integer if it has neither a fraction nor an exponent. -/
lemma accepts_integer_of_isNumber {sign digits fraction exponent : List Char}
    (h : IsNumber sign digits fraction exponent w) :
    integer.accepts w = true ↔ fraction = [] ∧ exponent = [] := by
  constructor
  · intro hw
    have hmem {c : Char} (hc : c ∈ fraction ++ exponent) : integer.alphabet c = true := by
      refine alphabet_of_accepts hw c ?_
      rw [h.eq_append, ← List.append_assoc]
      exact List.mem_append_right _ hc
    constructor
    · cases h.optionalFraction with
      | nothing => rfl
      | digits _ => exact absurd (hmem (c := '.') (by simp)) (by decide)
    · cases h.optionalExponent with
      | nothing => rfl
      | @digits c v hc _ =>
        have hmark : c = 'e' ∨ c = 'E' := by simpa [isExponentMark] using hc
        have halphabet : integer.alphabet c = true := hmem (by simp)
        rcases hmark with rfl | rfl <;> exact absurd halphabet (by decide)
  · rintro ⟨rfl, rfl⟩
    exact accepts_integer_iff.mpr ⟨sign, digits, [], h.optionalSign, h.isDigits, rfl, h.eq_append⟩

lemma isWord_of_kind? (h : Lexicon.kind? lexicon w = some kind) : IsWord kind w := by
  rw [kind?_eq, Option.or_eq_some_iff] at h
  rcases h with h | ⟨hnone, h⟩
  · obtain ⟨word, hx, hword⟩ := kind?_table_eq_some_iff.mp h
    exact isWord_of_spells hx hword
  by_cases hinteger : integer.accepts w = true
  · rw [if_pos hinteger] at h
    obtain rfl := Option.some.inj h
    obtain ⟨sign, digits, _, hsign, hdigits, rfl, hw⟩ := accepts_integer_iff.mp hinteger
    have hnumber : IsNumber sign digits [] [] w := ⟨hsign, hdigits, .nothing, .nothing, hw⟩
    exact .numeral hnumber
  rw [if_neg hinteger] at h
  by_cases hquoted : quoted.accepts w = true
  · rw [if_pos hquoted] at h
    obtain rfl := Option.some.inj h
    obtain ⟨q, body, hq, hbody, rfl⟩ := accepts_quoted_iff.mp hquoted
    exact .quotation hq hbody
  rw [if_neg hquoted] at h
  by_cases hnumber : number.accepts w = true
  · rw [if_pos hnumber] at h
    obtain rfl := Option.some.inj h
    obtain ⟨sign, digits, fraction, exponent, hw⟩ := accepts_number_iff.mp hnumber
    -- an integer would have been recognised before
    have hkind : numeralKind fraction exponent = .numberConstant :=
      if_neg fun hempty => hinteger ((accepts_integer_of_isNumber hw).mpr hempty)
    exact hkind ▸ .numeral hw
  rw [if_neg hnumber] at h
  by_cases hidentifier : identifier.accepts w = true
  · rw [if_pos hidentifier] at h
    obtain rfl := Option.some.inj h
    exact nameKind_of_not_spells (kind?_table_eq_none_iff.mp hnone) ▸
      .name (accepts_identifier_iff.mp hidentifier)
  · rw [if_neg hidentifier] at h
    exact absurd h (by simp)

lemma kind?_of_isWord (h : IsWord kind w) : Lexicon.kind? lexicon w = some kind := by
  rw [kind?_eq]
  cases h with
  | name hw =>
    cases htable : Lexicon.kind? table w with
    | some k =>
      obtain ⟨word, hx, hword⟩ := kind?_table_eq_some_iff.mp htable
      rw [Option.some_or, nameKind_of_spells hx hword]
    | none =>
      have hform := formOf_of_isIdentifier hw
      rw [not_integer_of_formOf (by simp [hform]), not_quoted_of_formOf (by simp [hform]),
        not_number_of_formOf (by simp [hform]), accepts_identifier_iff.mpr hw,
        nameKind_of_not_spells (kind?_table_eq_none_iff.mp htable)]
      rfl
  | numeral hw =>
    have hform := formOf_of_signedDigits (signedDigits_of_isNumber hw)
    rw [kind?_table_eq_none_iff.mpr (not_spells_of_formOf (.inl hform)), Option.none_or,
      accepts_number_iff.mpr ⟨_, _, _, _, hw⟩, not_quoted_of_formOf (by simp [hform])]
    simp only [accepts_integer_of_isNumber hw, numeralKind]
    split <;> rfl
  | @quotation q body hq hbody =>
    have hform : formOf (q :: (body ++ [q])) = some .quotation := form?_of_isQuote hq
    rw [kind?_table_eq_none_iff.mpr (not_spells_of_formOf (.inr hform)), Option.none_or,
      not_integer_of_formOf (by simp [hform]), accepts_quoted_iff.mpr ⟨q, body, hq, hbody, rfl⟩]
    rfl
  | @punctuation kind c hc =>
    have hall : ∀ x ∈ punctuation,
        (x.1, String.singleton x.2) ∈ words ∧ Spells (String.singleton x.2) [x.2] := by decide
    rw [kind?_table_eq_some_iff.mpr ⟨_, hall _ hc⟩, Option.some_or]

/-- **The words of the language are recognised**, with their kinds, and nothing else is. -/
theorem kind?_eq_some_iff : Lexicon.kind? lexicon w = some kind ↔ IsWord kind w :=
  ⟨isWord_of_kind?, kind?_of_isWord⟩

/-! ### The next word of a source -/

/-- The text begins with an optional sign and a digit. -/
def BeginsNumber (text : List Char) : Prop :=
  ∃ sign d rest, OptionalSign sign ∧ d.isDigit = true ∧ text = sign ++ d :: rest

variable {sign digits fraction exponent text cs : List Char}

lemma beginsNumber_of_isNumber (h : IsNumber sign digits fraction exponent w)
    (hbegins : w <+: text) : BeginsNumber text := by
  obtain ⟨hne, hdigits⟩ := h.isDigits
  obtain ⟨d, digits, rfl⟩ := List.exists_cons_of_ne_nil hne
  obtain ⟨rest, rfl⟩ := hbegins
  refine ⟨sign, d, digits ++ (fraction ++ exponent) ++ rest, h.optionalSign,
    hdigits d List.mem_cons_self, ?_⟩
  rw [h.eq_append]
  simp

/-- What begins like a number begins with one. -/
lemma BeginsNumber.exists_isNumber (h : BeginsNumber text) :
    ∃ sign digits w, IsNumber sign digits [] [] w ∧ w <+: text := by
  obtain ⟨sign, d, rest, hsign, hd, rfl⟩ := h
  have hdigits : IsDigits [d] := ⟨by simp, by simpa using hd⟩
  refine ⟨sign, [d], sign ++ [d], ⟨hsign, hdigits, .nothing, .nothing, by simp⟩, rest, ?_⟩
  simp

lemma BeginsNumber.formOf_eq (h : BeginsNumber text) : formOf text = some .numeral := by
  obtain ⟨sign, d, rest, hsign, hd, rfl⟩ := h
  cases hsign with
  | nothing => exact form?_of_isDigit hd
  | sign hc => exact form?_of_isSign hc

lemma longest_of_isWord (hw : IsWord kind w) (hbegins : w <+: text)
    (hmax : ∀ v, v <+: text → HasForm (formOf text) v → v.length ≤ w.length) :
    Lexicon.Longest lexicon text kind w where
  ne_nil := hw.ne_nil
  isPrefix := hbegins
  kind_eq := kind?_of_isWord hw
  maximal := by
    intro v hv hlt
    cases hkind : Lexicon.kind? lexicon v with
    | none => rfl
    | some k =>
      have hword := isWord_of_kind? hkind
      have hle := hmax v hv (formOf_of_isPrefix hword.ne_nil hv ▸ hword.hasForm)
      omega

/-- A name goes as far as there are letters and digits. -/
lemma longest_name (hc : c.isAlpha = true) :
    Lexicon.Longest lexicon (c :: cs) (nameKind ((c :: cs).takeWhile Char.isAlphanum))
      ((c :: cs).takeWhile Char.isAlphanum) := by
  have halphanum : c.isAlphanum = true := by rw [Char.isAlphanum, hc, Bool.true_or]
  have hrun : IsIdentifier ((c :: cs).takeWhile Char.isAlphanum) := by
    rw [List.takeWhile_cons_of_pos halphanum]
    exact ⟨hc, fun a ha => List.mem_takeWhile_imp ha⟩
  refine longest_of_isWord (.name hrun) (List.takeWhile_prefix _) fun v hv hform => ?_
  have hname : formOf (c :: cs) = some .name := form?_of_isAlpha hc
  rw [hname] at hform
  obtain ⟨rest, hrest⟩ := hv
  rw [← hrest, List.takeWhile_append_of_pos hform.isAlphanum, List.length_append]
  omega

/-- A quotation goes up to the next quote of its kind. -/
lemma longest_quotation {body : List Char} (hq : IsQuote q) (hbody : q ∉ body)
    (rest : List Char) :
    Lexicon.Longest lexicon (q :: (body ++ q :: rest)) .charConstant (q :: (body ++ [q])) := by
  refine longest_of_isWord (.quotation hq hbody) ⟨rest, by simp⟩ fun v hv hform => ?_
  have hquotation : formOf (q :: (body ++ q :: rest)) = some .quotation := form?_of_isQuote hq
  rw [hquotation] at hform
  obtain ⟨q', body', hbody', rfl⟩ := hform
  obtain ⟨rfl, hv⟩ := List.cons_prefix_cons.mp hv
  by_contra hlt
  -- a longer quotation would have the quote in its body
  have hshort : body ++ [q'] <+: body ++ q' :: rest := ⟨rest, by simp⟩
  have hlong : body' <+: body ++ q' :: rest := (List.prefix_append _ _).trans hv
  have hlength : (body ++ [q']).length ≤ body'.length := by
    simp only [List.length_cons, List.length_append, List.length_nil] at hlt ⊢
    omega
  have hquote := List.prefix_of_prefix_length_le hshort hlong hlength
  exact hbody' (hquote.subset (by simp))

lemma longest_punctuation (hc : (kind, c) ∈ punctuation) :
    Lexicon.Longest lexicon (c :: cs) kind [c] := by
  refine longest_of_isWord (.punctuation hc) ⟨cs, rfl⟩ fun v hv hform => ?_
  have hpunctuation : formOf (c :: cs) = some .punctuation := form?_of_punctuation hc
  rw [hpunctuation] at hform
  exact Nat.le_of_eq hform

/-- A numeral goes as far as the text has the form of a number. -/
lemma exists_longest_numeral (h : BeginsNumber text) :
    ∃ sign digits fraction exponent w, IsNumber sign digits fraction exponent w ∧
      Lexicon.Longest lexicon text (numeralKind fraction exponent) w := by
  obtain ⟨_, _, v, hv, hbegins⟩ := h.exists_isNumber
  have hword : IsWord (numeralKind [] []) v := .numeral hv
  obtain ⟨kind, w, hlongest⟩ :=
    Munch.exists_longest (kind?_of_isWord hword) hword.ne_nil hbegins
  have hform := (isWord_of_kind? hlongest.kind_eq).hasForm
  rw [formOf_of_isPrefix hlongest.ne_nil hlongest.isPrefix, h.formOf_eq] at hform
  obtain ⟨sign, digits, fraction, exponent, hw⟩ := hform
  have hkind := (kind?_of_isWord (.numeral hw)).symm.trans hlongest.kind_eq
  exact ⟨sign, digits, fraction, exponent, w, hw, Option.some.inj hkind ▸ hlongest⟩

/-- A text that is none of these does not begin with a word. -/
lemma rulesOut_of_cons (hname : c.isAlpha = false) (hnumber : ¬ BeginsNumber (c :: cs))
    (hquotation : ¬ (IsQuote c ∧ c ∈ cs)) (hpunctuation : ∀ kind, (kind, c) ∉ punctuation) :
    Lexicon.RulesOut lexicon (c :: cs) := by
  intro v hne hv
  cases hkind : Lexicon.kind? lexicon v with
  | none => rfl
  | some kind =>
    exfalso
    cases isWord_of_kind? hkind with
    | name hw =>
      cases v with
      | nil => exact hne rfl
      | cons a v =>
        obtain ⟨rfl, -⟩ := List.cons_prefix_cons.mp hv
        exact absurd hw.1 (by simp [hname])
    | numeral hw => exact hnumber (beginsNumber_of_isNumber hw hv)
    | @quotation q body hq hbody =>
      obtain ⟨rfl, hbegins⟩ := List.cons_prefix_cons.mp hv
      exact hquotation ⟨hq, hbegins.subset (by simp)⟩
    | @punctuation kind a ha =>
      obtain ⟨rfl, -⟩ := List.cons_prefix_cons.mp hv
      exact hpunctuation kind ha

end Sql

namespace Lexer

variable {l : Lexer} {c : Char} {cs w : List Char} {kind : Terminal}

/-- The next result is a token with this kind and this text, and the lexer goes on behind it. -/
def Takes (l : Lexer) (kind : Terminal) (w : List Char) : Prop :=
  l.next = (.ok ⟨kind, .ofList w, .ofText l.position w⟩, l.drop w.length)

lemma takes_of_longest (hrest : l.rest = c :: cs) (hc : Text.isBlank c = false)
    (h : l.lexicon.Longest (c :: cs) kind w) : l.Takes kind w := by
  rw [Takes, next, skipBlanks_of_cons hrest hc]
  exact read_of_longest (hrest ▸ h)

end Lexer

namespace Sql

open Dfa

/-- **The lexical grammar.**  In front of a character `c` that is not blank

* a letter begins a name, which goes as far as there are letters and digits and has the kind of the
  word of the table that it spells, or else is an identifier;
* a digit, or a sign with a digit behind it, begins a numeral, which is the longest number that the
  text begins with, and is an integer constant if it has neither a fraction nor an exponent;
* a quote that occurs again later begins a quotation up to its next occurrence;
* punctuation is a token of its own;
* anything else is an error, and reading goes on behind `c`. -/
theorem lexical_grammar {l : Lexer} {c : Char} {cs : List Char} (hl : l.lexicon = lexicon)
    (hrest : l.rest = c :: cs) (hc : Text.isBlank c = false) :
    (c.isAlpha = true → l.Takes (nameKind (l.rest.takeWhile Char.isAlphanum))
      (l.rest.takeWhile Char.isAlphanum)) ∧
    (BeginsNumber l.rest → ∃ sign digits fraction exponent w,
      IsNumber sign digits fraction exponent w ∧ w <+: l.rest ∧
      (∀ sign' digits' fraction' exponent' v, IsNumber sign' digits' fraction' exponent' v →
        v <+: l.rest → v.length ≤ w.length) ∧
      l.Takes (numeralKind fraction exponent) w) ∧
    (IsQuote c → c ∈ cs → ∃ body rest, c ∉ body ∧ cs = body ++ c :: rest ∧
      l.Takes .charConstant (c :: (body ++ [c]))) ∧
    (∀ kind, (kind, c) ∈ punctuation → l.Takes kind [c]) ∧
    (c.isAlpha = false → ¬ BeginsNumber l.rest → ¬ (IsQuote c ∧ c ∈ cs) →
      (∀ kind, (kind, c) ∉ punctuation) → ∃ e, l.next = (.error e, l.drop 1)) := by
  have htakes {kind : Terminal} {w : List Char} (h : Lexicon.Longest lexicon (c :: cs) kind w) :
      l.Takes kind w := Lexer.takes_of_longest hrest hc (hl ▸ h)
  rw [hrest]
  refine ⟨fun hname => htakes (longest_name hname), fun hnumber => ?_,
    fun hquote hagain => ?_, fun kind hkind => htakes (longest_punctuation hkind),
    fun hname hnumber hquotation hpunctuation => ?_⟩
  · obtain ⟨sign, digits, fraction, exponent, w, hw, hlongest⟩ := exists_longest_numeral hnumber
    refine ⟨sign, digits, fraction, exponent, w, hw, hlongest.isPrefix, ?_, htakes hlongest⟩
    intro sign' digits' fraction' exponent' v hv hbegins
    by_contra hlt
    have hnone := hlongest.maximal v hbegins (by omega)
    exact absurd (hnone.symm.trans (kind?_of_isWord (.numeral hv))) (by simp)
  · obtain ⟨body, rest, rfl, hbody⟩ := List.eq_append_cons_of_mem hagain
    exact ⟨body, rest, hbody, rfl, htakes (longest_quotation hquote hbody rest)⟩
  · rw [Lexer.next, Lexer.skipBlanks_of_cons hrest hc]
    refine Lexer.read_of_rulesOut ?_ (by simp [hrest])
    rw [hl, hrest]
    exact rulesOut_of_cons hname hnumber hquotation hpunctuation

/-- For instance `INTO` is recognised in any case, although `IN` and identifiers are words, too. -/
theorem lexical_grammar_into :
    let l := Lexer.ofSource lexicon "InTo(x"
    l.lexicon = lexicon ∧ l.rest = ['I', 'n', 'T', 'o', '(', 'x'] ∧ Text.isBlank 'I' = false ∧
      'I'.isAlpha = true ∧ l.Takes .kwInto ['I', 'n', 'T', 'o'] := by
  intro l
  have hrest : l.rest = ['I', 'n', 'T', 'o', '(', 'x'] := by decide +kernel
  have hrun : l.rest.takeWhile Char.isAlphanum = ['I', 'n', 'T', 'o'] := by
    rw [hrest]
    decide
  have hkind : nameKind ['I', 'n', 'T', 'o'] = .kwInto := by decide
  have htakes := (lexical_grammar (l := l) rfl hrest (by decide)).1 (by decide)
  rw [hrun, hkind] at htakes
  exact ⟨rfl, hrest, by decide, by decide, htakes⟩

end Sql

end LL1
