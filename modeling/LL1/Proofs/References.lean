/-
# Undefined names

A grammar may refer to names that it does not define.  This is found out when the names of its
normal form are resolved, so normalization must neither lose such a reference nor define what it
refers to.  New nonterminals have names that are not mentioned anywhere.  Alternatives are copied,
split and joined together with what they refer to, and only one that begins with a nonterminal
without any alternatives is replaced by nothing.  A nonterminal comes to that only if it derives
no string at all, and then a reference can indeed be lost: `lostReference` is compiled.
-/
import LL1.Proofs.Range
import Mathlib.Data.List.Dedup

namespace LL1

/-- The names that productions refer to and that none of them has. -/
def undefinedNames (ps : List Production) : List String :=
  ((ps.flatMap (·.references)).filter (· ∉ namesOf ps)).dedup

/-- Productions by which names derive the empty string only. -/
def blanks (names : List String) : List Production := names.map (⟨·, [[]]⟩)

/-- The grammar with its undefined names defined to be empty. -/
def Grammar.complete (g : Grammar) : Grammar :=
  { g with productions := g.productions ++ blanks (undefinedNames g.productions) }

section

variable {ps l r xs later : List Production} {p q : Production} {m n T : String} {a : Alternative}

lemma mem_references : m ∈ p.references ↔ ∃ a ∈ p.alternatives, .nonterminal m ∈ a := by
  simp [Production.references]

lemma mem_undefinedNames :
    m ∈ undefinedNames ps ↔ (∃ p ∈ ps, m ∈ p.references) ∧ m ∉ namesOf ps := by
  simp [undefinedNames]

lemma mem_mentionedNames_iff_references :
    m ∈ mentionedNames ps ↔ m ∈ namesOf ps ∨ ∃ p ∈ ps, m ∈ p.references := by
  simp only [mem_mentionedNames, mem_references, Phrase.mem_nonterminals, List.mem_map]
  constructor
  · rintro ⟨p, hp, rfl | hm⟩
    · exact .inl ⟨p, hp, rfl⟩
    · exact .inr ⟨p, hp, hm⟩
  · rintro (⟨p, hp, rfl⟩ | ⟨p, hp, hm⟩)
    · exact ⟨p, hp, .inl rfl⟩
    · exact ⟨p, hp, .inr hm⟩

lemma undefinedNames_subset : undefinedNames ps ⊆ mentionedNames ps := fun _ hm =>
  mem_mentionedNames_iff_references.mpr (.inr (mem_undefinedNames.mp hm).1)

lemma mem_mentionedNames_append :
    m ∈ mentionedNames (l ++ r) ↔ m ∈ mentionedNames l ∨ m ∈ mentionedNames r := by
  simp [mentionedNames]

lemma mem_mentionedNames_blanks {names : List String} :
    m ∈ mentionedNames (blanks names) ↔ m ∈ names := by
  simp [mem_mentionedNames, blanks]

@[simp] lemma namesOf_blanks (names : List String) : namesOf (blanks names) = names := by
  simp [blanks, Function.comp_def]

lemma namesOf_append : namesOf (l ++ r) = namesOf l ++ namesOf r := List.map_append

lemma nodup_namesOf_complete (h : (namesOf ps).Nodup) :
    (namesOf (ps ++ blanks (undefinedNames ps))).Nodup := by
  have hdisjoint : (namesOf ps).Disjoint (undefinedNames ps) := fun m hm hm' =>
    (mem_undefinedNames.mp hm').2 hm
  rw [namesOf_append, namesOf_blanks]
  exact List.Nodup.append h (List.nodup_dedup _) hdisjoint

/-! ### Changes of single productions -/

/-- The productions `xs` can take the place of `p` between `l` and `r`: one of them has its name,
names that are added are fresh, and what is referred to stays the same, apart from names that are
defined. -/
structure TakesPlace (l r : List Production) (p : Production) (xs : List Production) : Prop where
  name_mem : p.name ∈ namesOf xs
  fresh : ∀ m ∈ namesOf xs, m = p.name ∨ m ∉ mentionedNames (l ++ p :: r)
  kept : ∀ m ∈ p.references, m ∈ namesOf (l ++ p :: r) ∨ ∃ x ∈ xs, m ∈ x.references
  known : ∀ x ∈ xs, ∀ m ∈ x.references, m ∈ mentionedNames (l ++ p :: r) ∨ m ∈ namesOf xs

/-- **The undefined names stay the same** if productions take the place of another one. -/
lemma TakesPlace.mem_undefinedNames_iff (h : TakesPlace l r p xs) :
    m ∈ undefinedNames (l ++ (xs ++ r)) ↔ m ∈ undefinedNames (l ++ p :: r) := by
  have hnames : m ∈ namesOf (l ++ (xs ++ r)) ↔
      m ∈ namesOf l ∨ m ∈ namesOf xs ∨ m ∈ namesOf r := by
    simp [namesOf]
  have hnames' : m ∈ namesOf (l ++ p :: r) ↔ m ∈ namesOf l ∨ m = p.name ∨ m ∈ namesOf r := by
    simp [namesOf]
  rw [mem_undefinedNames, mem_undefinedNames]
  constructor
  · rintro ⟨⟨x, hx, hm⟩, hundefined⟩
    have hold : m ∉ namesOf (l ++ p :: r) := by
      rw [hnames] at hundefined
      rw [hnames']
      rintro (hl | rfl | hr)
      · exact hundefined (.inl hl)
      · exact hundefined (.inr (.inl h.name_mem))
      · exact hundefined (.inr (.inr hr))
    refine ⟨?_, hold⟩
    rw [List.mem_append, List.mem_append] at hx
    rcases hx with hx | hx | hx
    · exact ⟨x, by simp [hx], hm⟩
    · rcases h.known x hx m hm with hmentioned | hnew
      · exact (mem_mentionedNames_iff_references.mp hmentioned).resolve_left hold
      · exact absurd (hnames.mpr (.inr (.inl hnew))) hundefined
    · exact ⟨x, by simp [hx], hm⟩
  · rintro ⟨⟨x, hx, hm⟩, hundefined⟩
    have hmentioned : m ∈ mentionedNames (l ++ p :: r) :=
      mem_mentionedNames_iff_references.mpr (.inr ⟨x, hx, hm⟩)
    constructor
    · rcases List.mem_append.mp hx with hx | hx
      · exact ⟨x, by simp [hx], hm⟩
      · rcases List.mem_cons.mp hx with rfl | hx
        · obtain ⟨y, hy, hm⟩ := (h.kept m hm).resolve_left hundefined
          exact ⟨y, by simp [hy], hm⟩
        · exact ⟨x, by simp [hx], hm⟩
    · rw [hnames]
      rw [hnames'] at hundefined
      rintro (hl | hnew | hr)
      · exact hundefined (.inl hl)
      · rcases h.fresh m hnew with heq | hfresh
        · exact hundefined (.inr (.inl heq))
        · exact hfresh hmentioned
      · exact hundefined (.inr (.inr hr))

/-- Names of an alternative of one of the productions are mentioned. -/
lemma mem_mentionedNames_of_rule (h : ruleSetOf ps n a) (hm : .nonterminal m ∈ a) :
    m ∈ mentionedNames ps := by
  obtain ⟨p, hp, -, ha⟩ := h
  exact mem_mentionedNames_iff_references.mpr (.inr ⟨p, hp, mem_references.mpr ⟨a, ha, hm⟩⟩)

/-- The alternative of a leading nonterminal is replaced by others, of which there is one. -/
lemma takesPlace_replace {rest : Phrase String} {others : List Alternative} (hq : q ∈ l ++ r)
    (hp : ∀ a, a ∈ p.alternatives ↔ a = .nonterminal q.name :: rest ∨ a ∈ others)
    (hne : q.alternatives ≠ []) : TakesPlace l r p [Elimination.replace p q rest others] where
  name_mem := by simp [Elimination.replace]
  fresh m hm := .inl (by simpa [Elimination.replace] using hm)
  kept m hm := by
    obtain ⟨a, ha, hma⟩ := mem_references.mp hm
    rcases (hp a).mp ha with rfl | ha
    · rcases List.mem_cons.mp hma with hname | hrest
      · obtain rfl := Symbol.nonterminal.inj hname
        refine .inl ?_
        have hqname : q.name ∈ namesOf (l ++ r) := List.mem_map_of_mem hq
        simp only [namesOf, List.map_append, List.mem_append] at hqname
        simp only [namesOf, List.map_append, List.map_cons, List.mem_append, List.mem_cons]
        tauto
      · obtain ⟨b, bs, hb⟩ := List.exists_cons_of_ne_nil hne
        refine .inr ⟨_, List.mem_singleton_self _, mem_references.mpr ⟨b ++ rest, ?_, ?_⟩⟩
        · simp [Elimination.replace, hb]
        · exact List.mem_append_right b hrest
    · refine .inr ⟨_, List.mem_singleton_self _, mem_references.mpr ⟨a, ?_, hma⟩⟩
      exact List.mem_append_left _ ha
  known x hx m hm := by
    obtain rfl := List.mem_singleton.mp hx
    obtain ⟨a, ha, hma⟩ := mem_references.mp hm
    have hrule (b : Alternative) (hb : b ∈ p.alternatives) : ruleSetOf (l ++ p :: r) p.name b :=
      ⟨p, by simp, rfl, hb⟩
    refine .inl ?_
    rw [Elimination.replace, List.mem_append, List.mem_map] at ha
    rcases ha with ha | ⟨b, hb, rfl⟩
    · exact mem_mentionedNames_of_rule (hrule a ((hp a).mpr (.inr ha))) hma
    · rcases List.mem_append.mp hma with hmb | hrest
      · refine mem_mentionedNames_of_rule (n := q.name) ⟨q, ?_, rfl, hb⟩ hmb
        rcases List.mem_append.mp hq with hq | hq
        · simp [hq]
        · simp [hq]
      · exact mem_mentionedNames_of_rule (hrule _ ((hp _).mpr (.inl rfl)))
          (List.mem_cons_of_mem _ hrest)

/-- A production is split into one of its name and one with a fresh name, which together refer to
the same names as before, apart from their own. -/
lemma takesPlace_split {x y : Production} (hx : x.name = p.name)
    (hy : y.name ∉ mentionedNames (l ++ p :: r))
    (hkept : ∀ m ∈ p.references, m = p.name ∨ m ∈ x.references ∨ m ∈ y.references)
    (hknown : ∀ m, m ∈ x.references ∨ m ∈ y.references → m = y.name ∨ m ∈ p.references) :
    TakesPlace l r p [x, y] where
  name_mem := by simp [hx]
  fresh m hm := by
    simp only [namesOf, List.map_cons, List.map_nil, List.mem_cons, List.not_mem_nil,
      or_false, hx] at hm
    exact hm.imp_right fun heq => by rwa [heq]
  kept m hm := by
    rcases hkept m hm with rfl | hm | hm
    · exact .inl (by simp)
    · exact .inr ⟨x, by simp, hm⟩
    · exact .inr ⟨y, by simp, hm⟩
  known z hz m hm := by
    have hm' : m ∈ x.references ∨ m ∈ y.references := by
      rcases List.mem_cons.mp hz with rfl | hz
      · exact .inl hm
      · exact .inr (List.mem_singleton.mp hz ▸ hm)
    rcases hknown m hm' with rfl | hm
    · exact .inr (by simp)
    · exact .inl (mem_mentionedNames_iff_references.mpr (.inr ⟨p, by simp, hm⟩))

lemma takesPlace_splitRecursion (hT : T ∉ mentionedNames (l ++ p :: r)) :
    TakesPlace l r p
      [(Elimination.splitRecursion p T).1, (Elimination.splitRecursion p T).2] := by
  refine takesPlace_split rfl hT (fun m hm => ?_) fun m hm => ?_
  · obtain ⟨a, ha, hma⟩ := mem_references.mp hm
    rcases mem_alternatives_iff_recurring.mp ha with hd | ⟨c, hc, rfl⟩
    · refine .inr (.inl (mem_references.mpr ⟨a ++ [.nonterminal T], ?_, ?_⟩))
      · exact mem_splitRecursion_fst.mpr ⟨a, hd, rfl⟩
      · exact List.mem_append_left _ hma
    · rcases List.mem_cons.mp hma with hname | hmc
      · exact .inl (Symbol.nonterminal.inj hname)
      · refine .inr (.inr (mem_references.mpr ⟨c ++ [.nonterminal T], ?_, ?_⟩))
        · exact mem_splitRecursion_snd.mpr (.inr ⟨c, hc, rfl⟩)
        · exact List.mem_append_left _ hmc
  · have hold {c d : Alternative} (hc : c ∈ p.alternatives) (hd : ∀ s ∈ d, s ∈ c)
        (hm : .nonterminal m ∈ d ++ [.nonterminal T]) : m = T ∨ m ∈ p.references := by
      rcases List.mem_append.mp hm with hm | hm
      · exact .inr (mem_references.mpr ⟨c, hc, hd _ hm⟩)
      · exact .inl (by simpa using hm)
    rcases hm with hm | hm
    · obtain ⟨a, ha, hma⟩ := mem_references.mp hm
      obtain ⟨d, hd, rfl⟩ := mem_splitRecursion_fst.mp ha
      exact hold hd.1 (fun s hs => hs) hma
    · obtain ⟨a, ha, hma⟩ := mem_references.mp hm
      rcases mem_splitRecursion_snd.mp ha with rfl | ⟨c, hc, rfl⟩
      · exact absurd hma List.not_mem_nil
      · exact hold hc (fun s hs => List.mem_cons_of_mem _ hs) hma

lemma mem_references_toCanonical : m ∈ p.toCanonical.references ↔ m ∈ p.references := by
  simp [mem_references, Production.toCanonical, mem_canonical]

lemma takesPlace_factor (hT : T ∉ mentionedNames (l ++ p :: r)) :
    TakesPlace l r p (p.factor T) := by
  refine takesPlace_split rfl hT (fun m hm => ?_) fun m hm => ?_
  · rw [mem_references_toCanonical, mem_references_toCanonical]
    obtain ⟨a, ha, hma⟩ := mem_references.mp hm
    rcases (mem_alternatives_iff_continues p.shared).mp ha with hd | ⟨d, hd, rfl⟩
    · exact .inr (.inl (mem_references.mpr ⟨a, mem_splitShared_fst.mpr (.inl hd), hma⟩))
    · rcases List.mem_append.mp hma with hm | hm
      · refine .inr (.inl (mem_references.mpr ⟨_, mem_splitShared_fst.mpr (.inr rfl), ?_⟩))
        exact List.mem_append_left _ hm
      · exact .inr (.inr (mem_references.mpr ⟨d, mem_splitShared_snd.mpr hd, hm⟩))
  · rw [mem_references_toCanonical, mem_references_toCanonical] at hm
    have hrule {c : Alternative} (hc : c ∈ p.alternatives) (hmc : .nonterminal m ∈ c) :
        m = T ∨ m ∈ p.references := .inr (mem_references.mpr ⟨c, hc, hmc⟩)
    rcases hm with hm | hm
    · obtain ⟨a, ha, hma⟩ := mem_references.mp hm
      rcases mem_splitShared_fst.mp ha with ha | rfl
      · exact hrule ((mem_alternatives_iff_continues _).mpr (.inl ha)) hma
      · rcases List.mem_append.mp hma with hm | hm
        · obtain ⟨d, hd⟩ := p.continues_shared (List.ne_nil_of_mem hm)
          exact hrule hd (List.mem_append_left d hm)
        · exact .inl (show m = T by simpa using hm)
    · obtain ⟨d, hd, hmd⟩ := mem_references.mp hm
      exact hrule (mem_splitShared_snd.mp hd) (List.mem_append_right _ hmd)

end

/-! ### Removing left recursion -/

/-- According to the notices no alternative has been replaced by nothing at all, at least not on
account of a nonterminal that derives no string. -/
def Grammar.Lossless (g : Grammar) (notices : List Notice) : Prop :=
  ∀ A ∈ g.nonterminals, g.complete.language A = ∅ → ∀ B, Notice.substituted A 0 B ∉ notices

/-- Nothing gets lost if every nonterminal derives a string. -/
lemma Grammar.lossless_of_nonempty {g : Grammar}
    (h : ∀ A ∈ g.nonterminals, (g.complete.language A).Nonempty) (notices : List Notice) :
    g.Lossless notices := fun A hA hempty => absurd hempty (h A hA).ne_empty

namespace Elimination

variable {g : Grammar} {e e' : Elimination} {p q : Production} {later : List Production}
  {fuel : Nat} {m : String}

/-- The state while a grammar is treated without losing anything.  The undefined names are those
of the grammar.  If they are defined to be empty, all languages are kept, and new nonterminals
have alternatives. -/
structure Keeps (g : Grammar) (e : Elimination) : Prop where
  keeps : KeepsLanguages g.complete.productions
    (e.productions ++ blanks (undefinedNames g.productions))
  undefined_iff : ∀ m, m ∈ undefinedNames e.productions ↔ m ∈ undefinedNames g.productions
  pending_mem : ∀ p ∈ e.pending, p.name ∈ g.nonterminals
  new_ne : ∀ p ∈ e.settled, p.name ∉ g.nonterminals → p.alternatives ≠ []

lemma keeps_ofProductions (hg : g.WellFormed) : (ofProductions g.productions).Keeps g where
  keeps := .refl (nodup_namesOf_complete hg.nodup)
  undefined_iff _ := Iff.rfl
  pending_mem _ hp := List.mem_map_of_mem hp
  new_ne _ hp := absurd hp List.not_mem_nil

/-- A settled nonterminal without alternatives is one of the grammar, and it derives nothing. -/
lemma Keeps.language_eq_empty (h : e.Keeps g) (hq : q ∈ e.settled) (hnil : q.alternatives = []) :
    q.name ∈ g.nonterminals ∧ g.complete.language q.name = ∅ := by
  have hname : q.name ∈ g.nonterminals := by
    by_contra hnew
    exact h.new_ne q hq hnew hnil
  refine ⟨hname, Set.eq_empty_iff_forall_notMem.mpr fun w hw => ?_⟩
  have hcomplete : q.name ∈ namesOf g.complete.productions := by
    rw [Grammar.complete, namesOf_append]
    exact List.mem_append_left _ hname
  have hyields := (h.keeps.yields_iff _ hcomplete w).mp (Grammar.mem_language_iff.mp hw)
  obtain ⟨a, ha, -⟩ := RuleSet.yields_nonterminal_iff.mp hyields
  have hmem : q ∈ e.productions ++ blanks (undefinedNames g.productions) :=
    List.mem_append_left _ (mem_productions_of_settled hq)
  rw [ruleSetOf_name_iff h.keeps.nodup hmem, hnil] at ha
  exact absurd ha List.not_mem_nil

/-- A step tells more, but takes nothing back of what has been told. -/
lemma notices_subset_step (h : e.step = some e') : e.notices ⊆ e'.notices := by
  obtain ⟨p, later, -, ⟨q, -, rest, others, -, rfl⟩ | ⟨-, rfl⟩⟩ := step_eq_some h
  · exact List.subset_cons_self _ _
  · rw [settle]
    split
    · dsimp only
      split
      · exact fun x hx => List.mem_cons_of_mem _ (List.mem_cons_of_mem _ hx)
      · exact List.subset_cons_self _ _
    · exact List.Subset.refl _

/-- The current production is changed into others that can take its place. -/
lemma Keeps.change {xs : List Production} (h : e.Keeps g) (hp : e.pending = p :: later)
    (hxs : TakesPlace e.settled.reverse later p xs)
    (hk : KeepsLanguages
      (e.settled.reverse ++ p :: (later ++ blanks (undefinedNames g.productions)))
      (e.settled.reverse ++ (xs ++ (later ++ blanks (undefinedNames g.productions)))))
    (hprod : e'.productions = e.settled.reverse ++ (xs ++ later))
    (hpending : ∀ p' ∈ e'.pending, p' ∈ later ∨ p'.name = p.name)
    (hsettled : ∀ x ∈ e'.settled, x ∈ e.settled ∨ x.name = p.name ∨ x.alternatives ≠ []) :
    e'.Keeps g := by
  have hname : p.name ∈ g.nonterminals := h.pending_mem p (by simp [hp])
  have hold : e.productions = e.settled.reverse ++ p :: later := by rw [productions, hp]
  refine ⟨h.keeps.trans ?_, fun m => ?_, fun p' hp' => ?_, fun x hx hnew => ?_⟩
  · rw [hold, hprod]
    simpa using hk
  · rw [hprod, hxs.mem_undefinedNames_iff, ← hold]
    exact h.undefined_iff m
  · rcases hpending p' hp' with hp' | hp'
    · exact h.pending_mem p' (hp ▸ List.mem_cons_of_mem p hp')
    · exact hp' ▸ hname
  · rcases hsettled x hx with hx | hx | hx
    · exact h.new_ne x hx hnew
    · exact absurd (hx ▸ hname) hnew
    · exact hx

lemma Keeps.nodup_change (h : e.Keeps g) (hp : e.pending = p :: later) :
    (namesOf (e.settled.reverse ++
      p :: (later ++ blanks (undefinedNames g.productions)))).Nodup := by
  have hnodup := h.keeps.nodup
  rwa [productions, hp, List.append_assoc, List.cons_append] at hnodup

/-- A leading nonterminal is replaced by its alternatives.  If it had none, it would derive
nothing. -/
lemma Keeps.replace {rest : Phrase String} {others : List Alternative} (h : e.Keeps g)
    (hp : e.pending = p :: later) (hq : q ∈ e.settled)
    (hperm : p.alternatives.Perm ((.nonterminal q.name :: rest) :: others))
    (hlive : g.Lossless (.substituted q.name q.alternatives.length p.name :: e.notices)) :
    Keeps g ⟨e.settled, Elimination.replace p q rest others :: later,
      .substituted q.name q.alternatives.length p.name :: e.notices⟩ := by
  have hne : q.alternatives ≠ [] := by
    intro hnil
    obtain ⟨hname, hempty⟩ := h.language_eq_empty hq hnil
    refine hlive q.name hname hempty p.name ?_
    simp [hnil]
  have hmem (a : Alternative) :
      a ∈ p.alternatives ↔ a = .nonterminal q.name :: rest ∨ a ∈ others := by
    rw [hperm.mem_iff, List.mem_cons]
  refine h.change hp (takesPlace_replace (by simp [hq]) hmem hne)
    (.substitute (h.nodup_change hp) (by simp [hq]) hmem) rfl (fun p' hp' => ?_)
    fun x hx => .inl hx
  rcases List.mem_cons.mp hp' with rfl | hp'
  · exact .inr rfl
  · exact .inl hp'

/-- A production without recursive alternatives only moves to the settled ones. -/
lemma Keeps.settle (h : e.Keeps g) (hp : e.pending = p :: later)
    (hsettled : e'.settled = p :: e.settled) (hpending : e'.pending = later) : e'.Keeps g := by
  have hprod : e'.productions = e.productions := by
    simp [productions, hpending, hsettled, hp]
  refine ⟨hprod ▸ h.keeps, hprod ▸ h.undefined_iff, fun p' hp' => ?_, fun x hx hnew => ?_⟩
  · rw [hpending] at hp'
    exact h.pending_mem p' (hp ▸ List.mem_cons_of_mem p hp')
  · rw [hsettled] at hx
    rcases List.mem_cons.mp hx with rfl | hx
    · exact absurd (h.pending_mem x (by simp [hp])) hnew
    · exact h.new_ne x hx hnew

/-- A production with recursive alternatives is split in two with a fresh name, which is not an
undefined one either. -/
lemma Keeps.split {T : String} (h : e.Keeps g) (hp : e.pending = p :: later)
    (hT : T ∉ mentionedNames (e.settled ++ p :: later))
    (hsettled : e'.settled = (splitRecursion p T).2 :: (splitRecursion p T).1 :: e.settled)
    (hpending : e'.pending = later) : e'.Keeps g := by
  have hfresh : T ∉ mentionedNames (e.settled.reverse ++ p :: later) :=
    mentionedNames_reverse_append.not.mpr hT
  have hdefined : T ∉ undefinedNames g.productions := by
    intro hundefined
    rw [← h.undefined_iff, productions, hp] at hundefined
    exact hfresh (undefinedNames_subset hundefined)
  have hfresh' : T ∉ mentionedNames
      (e.settled.reverse ++ p :: (later ++ blanks (undefinedNames g.productions))) := by
    rw [← List.cons_append, ← List.append_assoc, mem_mentionedNames_append,
      mem_mentionedNames_blanks, not_or]
    exact ⟨hfresh, hdefined⟩
  refine h.change hp (takesPlace_splitRecursion hfresh)
    (.splitRecursion (h.nodup_change hp) hfresh') (by simp [productions, hpending, hsettled])
    (fun p' hp' => .inl (hpending ▸ hp')) fun x hx => ?_
  rw [hsettled] at hx
  rcases List.mem_cons.mp hx with rfl | hx
  · exact .inr (.inr (by simp [splitRecursion]))
  · rcases List.mem_cons.mp hx with rfl | hx
    · exact .inr (.inl rfl)
    · exact .inl hx

/-- **A step keeps the undefined names** if it does not replace an alternative by nothing. -/
lemma Keeps.step (h : e.Keeps g) (hstep : e.step = some e') (hlive : g.Lossless e'.notices) :
    e'.Keeps g := by
  obtain ⟨p, later, hp, ⟨q, hq, rest, others, hperm, rfl⟩ | ⟨-, rfl⟩⟩ := step_eq_some hstep
  · exact h.replace hp hq hperm hlive
  · obtain ⟨hpend, ⟨-, hs⟩ | ⟨-, T, hT, hs⟩⟩ := settle_cases e p later
    · exact h.settle hp hs hpend
    · exact h.split hp hT hs hpend

/-- A run that does not replace an alternative by nothing keeps the undefined names. -/
lemma keeps_run (hg : g.WellFormed) (h : (ofProductions g.productions).run fuel = some e)
    (hlive : g.Lossless e.notices) : e.Keeps g := by
  refine (run_induction (motive := fun e => g.Lossless e.notices → e.Keeps g) h
    (fun _ => keeps_ofProductions hg) fun e e' ih hstep hlive => ?_).1 hlive
  have hbefore : g.Lossless e.notices := fun A hA hempty B hB =>
    hlive A hA hempty B (notices_subset_step hstep hB)
  exact (ih hbefore).step hstep hlive

end Elimination

/-! ### Normal forms -/

namespace Grammar

variable {g : Grammar} {n : Normalization} {t : Transformed} {fuel : Nat} {m : String}

lemma mem_undefinedNames_toCanonical {ps : List Production} :
    m ∈ undefinedNames (ps.map Production.toCanonical) ↔ m ∈ undefinedNames ps := by
  have hnames : namesOf (ps.map Production.toCanonical) = namesOf ps := by
    simp [Production.toCanonical]
  simp [mem_undefinedNames, hnames, mem_references_toCanonical]

lemma mem_undefinedNames_removeLeftRecursion (hg : g.WellFormed)
    (h : g.removeLeftRecursion fuel = some t) (hlive : g.Lossless t.notices) :
    m ∈ undefinedNames t.grammar.productions ↔ m ∈ undefinedNames g.productions := by
  obtain ⟨e, he, rfl⟩ := Option.map_eq_some_iff.mp h
  have hlive' : g.Lossless e.notices := fun A hA hempty B hB =>
    hlive A hA hempty B (by simp [hB])
  rw [← (Elimination.keeps_run hg he hlive').undefined_iff m]
  exact mem_undefinedNames_toCanonical

/-- Left factoring never changes the undefined names. -/
lemma mem_undefinedNames_leftFactor (g : Grammar) :
    m ∈ undefinedNames g.leftFactor.grammar.productions ↔ m ∈ undefinedNames g.productions := by
  refine Grammar.leftFactor_induction
    (motive := fun ps => m ∈ undefinedNames ps ↔ m ∈ undefinedNames g.productions) ?_ Iff.rfl
  intro l p r T hps _ hT
  exact (takesPlace_factor hT).mem_undefinedNames_iff.trans hps

/-- Names can be resolved only if all of them are defined. -/
lemma exists_resolve_eq_error (hg : g.nonterminals.Nodup)
    (h : undefinedNames g.productions ≠ []) : ∃ e, Rules.resolve g = .error e := by
  obtain ⟨m, hm⟩ := List.exists_mem_of_ne_nil _ h
  obtain ⟨⟨p, hp, hmp⟩, hundefined⟩ := mem_undefinedNames.mp hm
  obtain ⟨a, ha, hma⟩ := mem_references.mp hmp
  cases hr : Rules.resolve g with
  | error e => exact ⟨e, rfl⟩
  | ok r =>
    refine absurd ?_ hundefined
    exact Rules.mem_nonterminals_of_resolve hr hg ⟨p, hp, rfl, ha⟩ (by simpa using hma)

/-- **Normalization keeps the undefined names**, so that they are reported, unless an alternative
is replaced by nothing at all because it begins with a nonterminal that derives nothing. -/
theorem undefinedNames_normalize (hg : g.WellFormed) (h : g.normalize fuel = some n)
    (hlive : g.Lossless n.recursionFree.notices) :
    (∀ m, m ∈ undefinedNames n.grammar.productions ↔ m ∈ undefinedNames g.productions) ∧
      (undefinedNames g.productions ≠ [] → ∃ e c, Rules.resolve n.grammar = .error e ∧
        g.compile fuel = some c ∧ c.result = .error e) := by
  have hiff (m : String) :
      m ∈ undefinedNames n.grammar.productions ↔ m ∈ undefinedNames g.productions := by
    obtain ⟨t, ht, rfl⟩ := Option.map_eq_some_iff.mp h
    exact (mem_undefinedNames_leftFactor t.grammar).trans
      (mem_undefinedNames_removeLeftRecursion hg ht hlive)
  refine ⟨hiff, fun hne => ?_⟩
  have hne' : undefinedNames n.grammar.productions ≠ [] := by
    obtain ⟨m, hm⟩ := List.exists_mem_of_ne_nil _ hne
    exact List.ne_nil_of_mem ((hiff m).mpr hm)
  obtain ⟨e, he⟩ := exists_resolve_eq_error (keepsLanguages_normalize hg.nodup h).nodup hne'
  refine ⟨e, .ofNormalization true n, he, by rw [compile, h]; rfl, ?_⟩
  show (Outcome.ofNormal true n.grammar).result = .error e
  rw [Outcome.ofNormal, he]
  rfl

end Grammar

/-- A list that begins with an item, which is not defined and has the name that a new nonterminal
would be given. -/
def itemList : Grammar where
  productions := [⟨"list", [[.nonterminal "list", .terminal .comma], [.nonterminal "list_tail1"]]⟩]
  start := "list"

lemma wellFormed_itemList : itemList.WellFormed := by
  have h : Grammar.define [.rule "list" [.nonterminal "list", .terminal .comma],
      .rule "list" [.nonterminal "list_tail1"]] = .ok itemList := by decide +kernel
  exact Grammar.wellFormed_of_define h

/-- The undefined item is still there in the normal form, and it is reported. -/
theorem Grammar.undefinedNames_normalize_itemList : ∃ n, itemList.normalize 3 = some n ∧
    itemList.Lossless n.recursionFree.notices ∧
    (∀ m, m ∈ undefinedNames n.grammar.productions ↔ m ∈ undefinedNames itemList.productions) ∧
    undefinedNames itemList.productions ≠ [] ∧
    ∃ e c, Rules.resolve n.grammar = .error e ∧ itemList.compile 3 = some c ∧
      c.result = .error e := by
  have hsome : (itemList.normalize 3).isSome := by decide +kernel
  obtain ⟨n, hn⟩ := Option.isSome_iff_exists.mp hsome
  have hlive : itemList.Lossless n.recursionFree.notices := by
    refine Grammar.lossless_of_nonempty (fun A hA => ⟨[], Grammar.mem_language_iff.mpr ?_⟩) _
    obtain rfl : A = "list" := List.mem_singleton.mp hA
    have hitem : itemList.complete.ruleSet "list_tail1" [] :=
      ⟨⟨"list_tail1", [[]]⟩, by decide, rfl, by decide⟩
    have hlist : itemList.complete.ruleSet "list" [.nonterminal "list_tail1"] :=
      ⟨_, List.mem_cons_self, rfl, by decide⟩
    exact .of_rule hlist (.of_rule hitem .nil)
  have hne : undefinedNames itemList.productions ≠ [] := by decide +kernel
  obtain ⟨hiff, herror⟩ := Grammar.undefinedNames_normalize wellFormed_itemList hn hlive
  exact ⟨n, hn, hlive, hiff, hne, herror hne⟩

/-- An alternative that begins with a nonterminal which derives nothing but itself, and goes on
with one that is not defined. -/
def lostReference : Grammar where
  productions := [⟨"loop", [[.nonterminal "loop", .terminal .comma]]⟩,
    ⟨"item", [[.terminal .star], [.nonterminal "loop", .nonterminal "missing"]]⟩]
  start := "item"

/-- **An undefined name can get lost**, so that it is never reported. -/
theorem Grammar.compile_lostReference :
    Grammar.define [.rule "loop" [.nonterminal "loop", .terminal .comma],
      .rule "item" [.nonterminal "loop", .nonterminal "missing"],
      .rule "item" [.terminal .star], .startAt "item"] = .ok lostReference ∧
    "missing" ∈ undefinedNames lostReference.productions ∧
    ∃ c table, lostReference.compile 4 = some c ∧ c.result = .ok table := by
  refine ⟨by decide +kernel, by decide +kernel, ?_⟩
  obtain ⟨c, table, hc, htable, -⟩ :=
    exists_table_of_any (lostReference.compile 4) (fun _ => true) (by decide +kernel)
  exact ⟨c, table, hc, htable⟩

end LL1
