/-
# Derivations

A set of rules says which phrases a nonterminal may be replaced by.  A phrase derives another one
by such replacements, anywhere and in any order.  Two inductive descriptions of what can be
derived follow the structure of the phrase instead: `Yields` for the strings of terminals, and
`Begins` for the strings with which something that is derived can begin.  The second one always
replaces the first nonterminal, as a predictive parser does.
-/
import LL1.Grammar.Symbol
import Mathlib.Logic.Relation

namespace LL1

variable {ν μ : Type}

@[simp] lemma Phrase.mem_nonterminals {p : Phrase ν} {n : ν} :
    n ∈ Phrase.nonterminals p ↔ .nonterminal n ∈ p := by
  simp only [Phrase.nonterminals, List.mem_filterMap]
  constructor
  · rintro ⟨_ | m, hs, h⟩
    · exact absurd h (by simp [Symbol.nonterminal?])
    · obtain rfl : m = n := Option.some.inj h
      exact hs
  · exact fun h => ⟨_, h, rfl⟩

/-- The alternatives of all nonterminals: `P n a` says that `a` is an alternative of `n`. -/
abbrev RuleSet (ν : Type) := ν → Phrase ν → Prop

namespace RuleSet

variable {P Q : RuleSet ν} {p q : Phrase ν} {n : ν} {a : Phrase ν} {t : Terminal}
  {u v w : List Terminal}

/-- One replacement of a nonterminal by one of its alternatives. -/
inductive Rewrites (P : RuleSet ν) : Phrase ν → Phrase ν → Prop
  | mk (p q : Phrase ν) {n : ν} {a : Phrase ν} : P n a →
      Rewrites P (p ++ .nonterminal n :: q) (p ++ a ++ q)

/-- Any number of replacements. -/
def Derives (P : RuleSet ν) : Phrase ν → Phrase ν → Prop := Relation.ReflTransGen P.Rewrites

/-- The phrase derives the string of terminals. -/
inductive Yields (P : RuleSet ν) : Phrase ν → List Terminal → Prop
  | nil : Yields P [] []
  | terminal {t : Terminal} {p : Phrase ν} {w : List Terminal} :
      Yields P p w → Yields P (.terminal t :: p) (t :: w)
  | nonterminal {n : ν} {a p : Phrase ν} {u v : List Terminal} :
      P n a → Yields P a u → Yields P p v → Yields P (.nonterminal n :: p) (u ++ v)

/-- The phrase derives the empty string. -/
inductive Erasable (P : RuleSet ν) : Phrase ν → Prop
  | nil : Erasable P []
  | cons {n : ν} {a p : Phrase ν} :
      P n a → Erasable P a → Erasable P p → Erasable P (.nonterminal n :: p)

/-- The phrase derives a phrase that begins with the string of terminals. -/
inductive Begins (P : RuleSet ν) : Phrase ν → List Terminal → Prop
  | nil {p : Phrase ν} : Begins P p []
  | terminal {t : Terminal} {p : Phrase ν} {w : List Terminal} :
      Begins P p w → Begins P (.terminal t :: p) (t :: w)
  | nonterminal {n : ν} {a p : Phrase ν} {w : List Terminal} :
      P n a → Begins P (a ++ p) w → Begins P (.nonterminal n :: p) w

/-- No alternative contains the terminal. -/
def Avoids (P : RuleSet ν) (t : Terminal) : Prop := ∀ n a, P n a → .terminal t ∉ a

/-! ### Replacements in a context -/

lemma Rewrites.append_left (z : Phrase ν) (h : P.Rewrites p q) : P.Rewrites (z ++ p) (z ++ q) := by
  cases h with
  | mk l r hn => simpa [List.append_assoc] using Rewrites.mk (z ++ l) r hn

lemma Rewrites.append_right (z : Phrase ν) (h : P.Rewrites p q) :
    P.Rewrites (p ++ z) (q ++ z) := by
  cases h with
  | mk l r hn => simpa [List.append_assoc] using Rewrites.mk l (r ++ z) hn

lemma Derives.append_left (z : Phrase ν) (h : P.Derives p q) : P.Derives (z ++ p) (z ++ q) :=
  Relation.ReflTransGen.lift (z ++ ·) (fun _ _ => Rewrites.append_left z) _ _ h

lemma Derives.append_right (z : Phrase ν) (h : P.Derives p q) : P.Derives (p ++ z) (q ++ z) :=
  Relation.ReflTransGen.lift (· ++ z) (fun _ _ => Rewrites.append_right z) _ _ h

/-- What begins with a nonterminal derives what begins with one of its alternatives. -/
lemma Derives.head_alternative (h : P n a) (hd : P.Derives (a ++ p) q) :
    P.Derives (.nonterminal n :: p) q :=
  Relation.ReflTransGen.head (by simpa using Rewrites.mk [] p h) hd

/-- A symbol that comes with an alternative of a nonterminal stands between what has come before the
nonterminal and what has come behind it. -/
lemma Derives.replace_inside {x y l r c : Phrase ν} {s : Symbol ν}
    (h : P.Derives p (x ++ .nonterminal n :: y)) (hn : P n (l ++ s :: r)) (hr : P.Derives r c) :
    P.Derives p ((x ++ l) ++ s :: (c ++ y)) := by
  have hstep : P.Derives p (x ++ (l ++ s :: r) ++ y) := h.tail (.mk x y hn)
  have hrest : P.Derives ((x ++ l ++ [s]) ++ (r ++ y)) ((x ++ l ++ [s]) ++ (c ++ y)) :=
    (hr.append_right y).append_left _
  simp only [List.append_assoc, List.cons_append, List.nil_append] at hstep hrest ⊢
  exact hstep.trans hrest

/-- A symbol that no alternative contains does not appear. -/
lemma Derives.not_mem {s : Symbol ν} (h : P.Derives p q) (hs : ∀ m a, P m a → s ∉ a) (hp : s ∉ p) :
    s ∉ q := by
  induction h with
  | refl => exact hp
  | tail _ hstep ih =>
    cases hstep with
    | mk l r hm =>
      have ha := hs _ _ hm
      simp only [List.mem_append, List.mem_cons, not_or] at ih ⊢
      exact ⟨⟨ih.1, ha⟩, ih.2.2⟩

/-! ### Where a symbol comes from -/

lemma append_eq_append_cons_iff {x y : Phrase ν} {s : Symbol ν} : x ++ y = p ++ s :: q ↔
    (∃ r, x = p ++ s :: r ∧ q = r ++ y) ∨ ∃ r, p = x ++ r ∧ y = r ++ s :: q := by
  constructor
  · intro h
    rcases List.append_eq_append_iff.mp h with ⟨r, hp, hy⟩ | ⟨r, hx, hy⟩
    · exact .inr ⟨r, hp, hy⟩
    · cases r with
      | nil => exact .inr ⟨[], by simpa using hx.symm, by simpa using hy.symm⟩
      | cons s' r =>
        obtain ⟨rfl, rfl⟩ := List.cons.inj hy
        exact .inl ⟨r, hx, rfl⟩
  · rintro (⟨r, rfl, rfl⟩ | ⟨r, rfl, rfl⟩) <;> simp

/-- A symbol has been there before a replacement that happens behind it or before it, or it comes
with the alternative. -/
lemma Rewrites.cases_of_mem {l r : Phrase ν} {s : Symbol ν} (h : P.Rewrites p (l ++ s :: r)) :
    (∃ r', p = l ++ s :: r' ∧ P.Rewrites r' r) ∨
      (∃ x n y l' r', p = x ++ .nonterminal n :: y ∧ P n (l' ++ s :: r') ∧ l = x ++ l' ∧
        r = r' ++ y) ∨
      ∃ l', p = l' ++ s :: r ∧ P.Rewrites l' l := by
  generalize hq : l ++ s :: r = q at h
  obtain ⟨x, y, hn⟩ := h
  rcases append_eq_append_cons_iff.mp hq.symm with ⟨r₁, hxa, rfl⟩ | ⟨l₁, rfl, rfl⟩
  · rcases append_eq_append_cons_iff.mp hxa with ⟨r₂, rfl, rfl⟩ | ⟨l₂, rfl, rfl⟩
    · exact .inl ⟨r₂ ++ .nonterminal _ :: y, by simp, .mk r₂ y hn⟩
    · exact .inr (.inl ⟨x, _, y, l₂, r₁, rfl, hn, rfl, rfl⟩)
  · exact .inr (.inr ⟨x ++ .nonterminal _ :: l₁, by simp, .mk x l₁ hn⟩)

/-! ### Strings of terminals -/

lemma yields_terminals (w : List Terminal) : P.Yields (w.map .terminal) w := by
  induction w with
  | nil => exact .nil
  | cons t w ih => exact .terminal ih

lemma Yields.append (hp : P.Yields p u) (hq : P.Yields q v) : P.Yields (p ++ q) (u ++ v) := by
  induction hp with
  | nil => exact hq
  | terminal _ ih => exact .terminal ih
  | nonterminal hn ha _ _ ih =>
    rw [List.append_assoc]
    exact .nonterminal hn ha ih

lemma yields_append_iff :
    P.Yields (p ++ q) w ↔ ∃ u v, w = u ++ v ∧ P.Yields p u ∧ P.Yields q v := by
  constructor
  · intro h
    induction p generalizing w with
    | nil => exact ⟨[], w, rfl, .nil, h⟩
    | cons s p ih =>
      cases h with
      | terminal h =>
        obtain ⟨u, v, rfl, hu, hv⟩ := ih h
        exact ⟨_ :: u, v, rfl, .terminal hu, hv⟩
      | nonterminal hn ha h =>
        obtain ⟨u, v, rfl, hu, hv⟩ := ih h
        exact ⟨_ ++ u, v, by rw [List.append_assoc], .nonterminal hn ha hu, hv⟩
  · rintro ⟨u, v, rfl, hu, hv⟩
    exact hu.append hv

lemma yields_nonterminal_iff : P.Yields [.nonterminal n] w ↔ ∃ a, P n a ∧ P.Yields a w := by
  constructor
  · intro h
    cases h with
    | nonterminal hn ha h =>
      cases h
      exact ⟨_, hn, by simpa using ha⟩
  · rintro ⟨a, hn, ha⟩
    simpa using Yields.nonterminal hn ha .nil

lemma yields_cons_nonterminal_iff :
    P.Yields (.nonterminal n :: p) w ↔
      ∃ u v, w = u ++ v ∧ P.Yields [.nonterminal n] u ∧ P.Yields p v :=
  yields_append_iff (p := [.nonterminal n])

lemma Yields.derives (h : P.Yields p w) : P.Derives p (w.map .terminal) := by
  induction h with
  | nil => exact Relation.ReflTransGen.refl
  | terminal _ ih => exact ih.append_left [_]
  | nonterminal hn _ _ iha ihp =>
    refine Derives.head_alternative hn ?_
    rw [List.map_append]
    exact (iha.append_right _).trans (ihp.append_left _)

lemma Yields.of_rewrites (h : P.Rewrites p q) (hq : P.Yields q w) : P.Yields p w := by
  cases h with
  | mk l r hn =>
    obtain ⟨u, v, rfl, hl, hv⟩ := yields_append_iff.mp hq
    obtain ⟨u₁, u₂, rfl, h₁, h₂⟩ := yields_append_iff.mp hl
    rw [List.append_assoc]
    exact h₁.append (.nonterminal hn h₂ hv)

/-- `Yields` describes the strings that are derived. -/
theorem derives_terminals_iff : P.Derives p (w.map .terminal) ↔ P.Yields p w := by
  refine ⟨fun h => ?_, Yields.derives⟩
  -- replacements are taken back one by one, beginning with the last
  induction h using Relation.ReflTransGen.head_induction_on with
  | refl => exact yields_terminals w
  | head h _ ih => exact ih.of_rewrites h

/-- If every alternative of `P` only yields what its nonterminal yields by the rules `Q`, then
nothing is lost by passing from `P` to `Q`. -/
lemma Yields.transfer (h : ∀ n a u, P n a → Q.Yields a u → Q.Yields [.nonterminal n] u)
    (hp : P.Yields p w) : Q.Yields p w := by
  induction hp with
  | nil => exact .nil
  | terminal _ ih => exact .terminal ih
  | nonterminal hn _ _ iha ihp => exact (h _ _ _ hn iha).append ihp

lemma Yields.mono (h : ∀ n a, P n a → Q n a) (hp : P.Yields p w) : Q.Yields p w :=
  hp.transfer fun n a _ hn ha => yields_nonterminal_iff.mpr ⟨a, h n a hn, ha⟩

/-- Rules for nonterminals outside of a set that the other rules do not leave are of no use in
it. -/
lemma Yields.restrict {S : ν → Prop} (hS : ∀ n a, P n a → S n → Q n a)
    (hQ : ∀ n a, Q n a → ∀ m ∈ Phrase.nonterminals a, S m)
    (hs : ∀ m ∈ Phrase.nonterminals p, S m) (hp : P.Yields p w) : Q.Yields p w := by
  induction hp with
  | nil => exact .nil
  | terminal _ ih => exact .terminal (ih hs)
  | @nonterminal n a p u v hn _ _ iha ihp =>
    have hq : Q n a := hS n a hn (hs n List.mem_cons_self)
    exact .nonterminal hq (iha (hQ n a hq)) (ihp fun m hm => hs m (List.mem_cons_of_mem n hm))

/-! ### Beginnings -/

lemma begins_terminal_iff {k : Terminal} :
    P.Begins (.terminal k :: p) (t :: w) ↔ k = t ∧ P.Begins p w := by
  constructor
  · intro h
    cases h with
    | terminal h => exact ⟨rfl, h⟩
  · rintro ⟨rfl, h⟩
    exact .terminal h

lemma begins_nonterminal_iff :
    P.Begins (.nonterminal n :: p) (t :: w) ↔ ∃ a, P n a ∧ P.Begins (a ++ p) (t :: w) := by
  constructor
  · intro h
    cases h with
    | nonterminal hn h => exact ⟨_, hn, h⟩
  · rintro ⟨a, hn, h⟩
    exact .nonterminal hn h

lemma Begins.append_right (q : Phrase ν) (h : P.Begins p w) : P.Begins (p ++ q) w := by
  induction h with
  | nil => exact .nil
  | terminal _ ih => exact .terminal ih
  | nonterminal hn _ ih => exact .nonterminal hn (by rwa [List.append_assoc] at ih)

lemma begins_terminals (w : List Terminal) (q : Phrase ν) : P.Begins (w.map .terminal ++ q) w := by
  induction w with
  | nil => exact .nil
  | cons t w ih => exact .terminal ih

lemma Begins.of_append (h : P.Begins p (u ++ v)) : P.Begins p u := by
  generalize hw : u ++ v = w at h
  induction h generalizing u with
  | nil =>
    obtain ⟨rfl, -⟩ := List.append_eq_nil_iff.mp hw
    exact .nil
  | terminal _ ih =>
    cases u with
    | nil => exact .nil
    | cons s u =>
      obtain ⟨rfl, rfl⟩ := List.cons.inj hw
      exact .terminal (ih rfl)
  | nonterminal hn _ ih => exact .nonterminal hn (ih hw)

lemma Erasable.begins_append (h : P.Erasable a) (hq : P.Begins q w) : P.Begins (a ++ q) w := by
  induction h generalizing q with
  | nil => exact hq
  | cons hn _ _ iha ihp => exact .nonterminal hn (iha (ihp hq))

lemma Erasable.append (hp : P.Erasable p) (hq : P.Erasable q) : P.Erasable (p ++ q) := by
  induction hp with
  | nil => exact hq
  | cons hn ha _ _ ih => exact .cons hn ha ih

lemma Erasable.of_append (h : P.Erasable (p ++ q)) : P.Erasable p ∧ P.Erasable q := by
  induction p with
  | nil => exact ⟨.nil, h⟩
  | cons s p ih =>
    cases h with
    | cons hn ha h => exact ⟨.cons hn ha (ih h).1, (ih h).2⟩

lemma Erasable.exists_rule (h : P.Erasable (.nonterminal n :: p)) :
    ∃ a, P n a ∧ P.Erasable a ∧ P.Erasable p := by
  cases h with
  | cons hn ha hp => exact ⟨_, hn, ha, hp⟩

/-- A phrase begins with a terminal that its first part begins with, or that comes after it. -/
lemma begins_append_singleton_iff :
    P.Begins (a ++ p) [t] ↔ P.Begins a [t] ∨ P.Erasable a ∧ P.Begins p [t] := by
  constructor
  · intro h
    generalize hr : a ++ p = r at h
    generalize hw : [t] = w at h
    -- replacements happen in what is left of `a` until it has been used up
    induction h generalizing a with
    | nil => exact absurd hw (by simp)
    | terminal h ih =>
      obtain ⟨rfl, rfl⟩ := List.cons.inj hw
      cases a with
      | nil => exact .inr ⟨.nil, by rw [List.nil_append] at hr; exact hr ▸ .terminal h⟩
      | cons s a =>
        obtain ⟨rfl, -⟩ := List.cons.inj hr
        exact .inl (.terminal .nil)
    | nonterminal hn h ih =>
      subst hw
      cases a with
      | nil => exact .inr ⟨.nil, by rw [List.nil_append] at hr; exact hr ▸ .nonterminal hn h⟩
      | cons s a =>
        obtain ⟨rfl, rfl⟩ := List.cons.inj hr
        rcases ih (List.append_assoc ..) rfl with hb | ⟨hb, hp⟩
        · exact .inl (.nonterminal hn hb)
        · exact .inr ⟨.cons hn hb.of_append.1 hb.of_append.2, hp⟩
  · rintro (h | ⟨ha, hp⟩)
    · exact h.append_right p
    · exact ha.begins_append hp

lemma Begins.derives (h : P.Begins p w) : ∃ q, P.Derives p (w.map .terminal ++ q) := by
  induction h with
  | @nil p => exact ⟨p, Relation.ReflTransGen.refl⟩
  | terminal _ ih =>
    obtain ⟨q, hq⟩ := ih
    exact ⟨q, hq.append_left [_]⟩
  | nonterminal hn _ ih =>
    obtain ⟨q, hq⟩ := ih
    exact ⟨q, hq.head_alternative hn⟩

lemma Begins.of_rewrites (h : P.Rewrites p q) (hq : P.Begins q w) : P.Begins p w := by
  obtain ⟨l, r, hn⟩ := h
  rename_i n a
  generalize hp : l ++ a ++ r = q at hq
  -- the replaced nonterminal is not the first one as long as something stands before it
  induction hq generalizing l with
  | nil => exact .nil
  | terminal h ih =>
    cases l with
    | nil =>
      rw [List.nil_append] at hp
      exact .nonterminal hn (hp ▸ .terminal h)
    | cons s l =>
      obtain ⟨rfl, hp'⟩ := List.cons.inj hp
      exact .terminal (ih l hp')
  | @nonterminal m b p w hm h ih =>
    cases l with
    | nil =>
      rw [List.nil_append] at hp
      exact .nonterminal hn (hp ▸ .nonterminal hm h)
    | cons s l =>
      obtain ⟨rfl, rfl⟩ := List.cons.inj hp
      exact .nonterminal hm (by simpa using ih (b ++ l) (by simp))

/-- `Begins` describes the beginnings of what is derived. -/
theorem exists_derives_append_iff :
    (∃ q, P.Derives p (w.map .terminal ++ q)) ↔ P.Begins p w := by
  refine ⟨?_, Begins.derives⟩
  rintro ⟨q, h⟩
  induction h using Relation.ReflTransGen.head_induction_on with
  | refl => exact begins_terminals w q
  | head h _ ih => exact ih.of_rewrites h

lemma exists_derives_cons_iff : (∃ q, P.Derives p (.terminal t :: q)) ↔ P.Begins p [t] :=
  exists_derives_append_iff (w := [t])

/-- Something that can come after a phrase comes after the strings that the phrase yields. -/
lemma Yields.begins_append (hp : P.Yields p u) (hq : P.Begins q v) :
    P.Begins (p ++ q) (u ++ v) := by
  induction hp generalizing q v with
  | nil => exact hq
  | terminal _ ih => exact .terminal (ih hq)
  | nonterminal hn _ _ iha ihp =>
    rw [List.append_assoc]
    exact .nonterminal hn (iha (ihp hq))

/-- A string that is derived begins with its first terminal. -/
lemma Yields.begins (h : P.Yields p (t :: w)) : P.Begins p [t] := by
  have hbegins : P.Begins (p ++ []) (t :: w ++ []) := h.begins_append .nil
  rw [List.append_nil, List.append_nil] at hbegins
  exact Begins.of_append (u := [t]) (v := w) hbegins

lemma Erasable.yields (h : P.Erasable p) : P.Yields p [] := by
  induction h with
  | nil => exact .nil
  | cons hn _ _ iha ihp => simpa using Yields.nonterminal hn iha ihp

lemma yields_nil_iff : P.Yields p [] ↔ P.Erasable p := by
  refine ⟨fun h => ?_, Erasable.yields⟩
  generalize hw : [] = w at h
  induction h with
  | nil => exact .nil
  | terminal _ _ => exact absurd hw (by simp)
  | nonterminal hn _ _ iha ihp =>
    obtain ⟨hu, hv⟩ := List.append_eq_nil_iff.mp hw.symm
    exact .cons hn (iha hu.symm) (ihp hv.symm)

lemma derives_nil_iff : P.Derives p [] ↔ P.Erasable p :=
  (derives_terminals_iff (w := [])).trans yields_nil_iff

lemma Erasable.of_rewrites (h : P.Rewrites p q) (hq : P.Erasable q) : P.Erasable p :=
  yields_nil_iff.mp (hq.yields.of_rewrites h)

/-- A terminal that occurs nowhere is in no string. -/
lemma Yields.not_mem (h : P.Yields p w) (ht : P.Avoids t) (hp : .terminal t ∉ p) : t ∉ w := by
  induction h with
  | nil => exact List.not_mem_nil
  | terminal _ ih =>
    rw [List.mem_cons, not_or] at hp ⊢
    exact ⟨fun h => hp.1 (congrArg Symbol.terminal h), ih hp.2⟩
  | nonterminal hn _ _ iha ihp =>
    rw [List.mem_cons, not_or] at hp
    rw [List.mem_append, not_or]
    exact ⟨iha (ht _ _ hn), ihp hp.2⟩

/-- What comes before a terminal that occurs nowhere else is derived completely. -/
lemma Begins.yields (h : P.Begins (p ++ [.terminal t]) (w ++ [t])) (ht : P.Avoids t)
    (hp : .terminal t ∉ p) : P.Yields p w := by
  generalize hr : p ++ [.terminal t] = r at h
  generalize hv : w ++ [t] = v at h
  induction h generalizing p w with
  | nil => simp at hv
  | terminal h ih =>
    cases p with
    | nil =>
      -- the terminal has been reached, so nothing may be left of the string
      obtain ⟨hs, rfl⟩ := List.cons.inj hr
      cases h
      have : w = [] := by simpa using congrArg List.length hv
      exact this ▸ .nil
    | cons s p =>
      obtain ⟨rfl, rfl⟩ := List.cons.inj hr
      rw [List.mem_cons, not_or] at hp
      cases w with
      | nil => exact absurd (congrArg Symbol.terminal (List.cons.inj hv).1) hp.1
      | cons s w =>
        obtain ⟨rfl, hv'⟩ := List.cons.inj hv
        exact .terminal (ih hp.2 rfl hv')
  | @nonterminal n a r v hn _ ih =>
    cases p with
    | nil => exact absurd (List.cons.inj hr).1 (by simp)
    | cons s p =>
      obtain ⟨rfl, rfl⟩ := List.cons.inj hr
      rw [List.mem_cons, not_or] at hp
      have hap : .terminal t ∉ a ++ p := by simp [ht n a hn, hp.2]
      obtain ⟨u, v, rfl, hu, hv⟩ := yields_append_iff.mp (ih hap (List.append_assoc ..) hv)
      exact .nonterminal hn hu hv

/-- A string is derived if and only if it can come before a terminal that occurs nowhere else. -/
theorem begins_append_terminal_iff (ht : P.Avoids t) (hp : .terminal t ∉ p) :
    P.Begins (p ++ [.terminal t]) (w ++ [t]) ↔ P.Yields p w :=
  ⟨fun h => h.yields ht hp, fun h => h.begins_append (.terminal .nil)⟩

end RuleSet

/-- A phrase with its nonterminals renamed. -/
def Phrase.rename (f : ν → μ) (p : Phrase ν) : Phrase μ :=
  p.map fun
    | .terminal t => .terminal t
    | .nonterminal n => .nonterminal (f n)

@[simp] lemma Phrase.rename_nil (f : ν → μ) : Phrase.rename f [] = [] := rfl

@[simp] lemma Phrase.rename_terminal (f : ν → μ) (t : Terminal) (p : Phrase ν) :
    Phrase.rename f (.terminal t :: p) = .terminal t :: p.rename f := rfl

@[simp] lemma Phrase.rename_nonterminal (f : ν → μ) (n : ν) (p : Phrase ν) :
    Phrase.rename f (.nonterminal n :: p) = .nonterminal (f n) :: p.rename f := rfl

lemma Phrase.rename_append (f : ν → μ) (p q : Phrase ν) :
    Phrase.rename f (p ++ q) = p.rename f ++ q.rename f :=
  List.map_append ..

/-- Only the names in a phrase matter for its renaming. -/
lemma Phrase.rename_congr {f f' : ν → μ} {p : Phrase ν}
    (h : ∀ n ∈ Phrase.nonterminals p, f n = f' n) : p.rename f = p.rename f' := by
  refine List.map_congr_left fun s hs => ?_
  cases s with
  | terminal t => rfl
  | nonterminal n => exact congrArg Symbol.nonterminal (h n (Phrase.mem_nonterminals.mpr hs))

/-- Renaming can be taken back where the names come back. -/
lemma Phrase.rename_rename {f : ν → μ} {g : μ → ν} {p : Phrase ν}
    (h : ∀ n ∈ Phrase.nonterminals p, g (f n) = n) : (p.rename f).rename g = p := by
  induction p with
  | nil => rfl
  | cons s p ih =>
    have hp : (Phrase.rename f p).rename g = p :=
      ih fun n hn => h n (by simpa using .inr (Phrase.mem_nonterminals.mp hn))
    cases s with
    | terminal t => rw [rename_terminal, rename_terminal, hp]
    | nonterminal n => rw [rename_nonterminal, rename_nonterminal, hp, h n (by simp)]

lemma Phrase.mem_nonterminals_rename {f : ν → μ} {n : ν} {p : Phrase ν}
    (h : n ∈ Phrase.nonterminals p) : f n ∈ Phrase.nonterminals (p.rename f) := by
  rw [mem_nonterminals] at h ⊢
  exact List.mem_map.mpr ⟨_, h, rfl⟩

lemma Phrase.terminal_mem_rename {f : ν → μ} {t : Terminal} {p : Phrase ν}
    (h : .terminal t ∈ p) : .terminal t ∈ p.rename f :=
  List.mem_map.mpr ⟨_, h, rfl⟩

namespace RuleSet

lemma Yields.rename {P : RuleSet ν} {Q : RuleSet μ} {f : ν → μ} {p : Phrase ν}
    {w : List Terminal} (h : ∀ n a, P n a → Q (f n) (a.rename f)) (hp : P.Yields p w) :
    Q.Yields (p.rename f) w := by
  induction hp with
  | nil => exact .nil
  | terminal _ ih => exact .terminal ih
  | nonterminal hn _ _ iha ihp => exact .nonterminal (h _ _ hn) iha ihp

end RuleSet

end LL1
