/-
# Lexers make progress

Every token but the one for the end of the source has at least one character, and an error passes
over one.  So the tokens of a source up to the first error form a list, `Lexer.scan`, which ends
with the end of the source if there is no error.  That a lexicon does not have the two markers
among its categories makes the end of the source recognisable by the category of its token.
-/
import LL1.Lexing.Lexer
import LL1.Sql.Lexicon
import Mathlib.Tactic.Lemma

namespace LL1

/-- The categories of a lexicon are those of proper tokens. -/
def Lexicon.Ordinary (l : Lexicon) : Prop :=
  ∀ c ∈ l, c.kind ≠ .epsilon ∧ c.kind ≠ .endOfInput

lemma Sql.ordinary_lexicon : Lexicon.Ordinary Sql.lexicon := by
  have h : ∀ k ∈ Sql.lexicon.map (·.kind), k ≠ .epsilon ∧ k ≠ .endOfInput := by decide
  exact fun c hc => h c.kind (List.mem_map_of_mem hc)

namespace Munch

variable {run : List Automaton} {lexicon : Lexicon} {cs : List Char} {kind : Terminal}
  {best : Option (Terminal × Nat)} {m n : Nat}

lemma winner_mem (h : winner run = some kind) : kind ∈ run.map (·.kind) := by
  obtain ⟨a, ha, rfl⟩ := Option.map_eq_some_iff.mp h
  exact List.mem_map_of_mem (List.mem_of_find?_eq_some ha)

lemma map_kind_feed (c : Char) : (run.map (·.feed c)).map (·.kind) = run.map (·.kind) := by
  simp

/-- A character that is read has a winner, or it leaves the best beginning as it was. -/
lemma resume_cons (run : List Automaton) (n : Nat) (best : Option (Terminal × Nat)) (c : Char)
    (cs : List Char) : ∃ best',
      (best' = best ∨ ∃ k ∈ run.map (·.kind), best' = some (k, n + 1)) ∧
        resume run n best (c :: cs) =
          if (run.map (·.feed c)).all Automaton.isFailed then ⟨n + 1, best'⟩
          else resume (run.map (·.feed c)) (n + 1) best' cs := by
  cases hw : winner (run.map (·.feed c)) with
  | none => exact ⟨best, .inl rfl, by simp only [resume, hw]⟩
  | some k =>
    have hk : k ∈ run.map (·.kind) := map_kind_feed c ▸ winner_mem hw
    exact ⟨some (k, n + 1), .inr ⟨k, hk, rfl⟩, by simp only [resume, hw]⟩

/-- What is found by going on is longer than what has been read, and no longer than the text. -/
lemma resume_best (h : (resume run n best cs).best = some (kind, m)) :
    best = some (kind, m) ∨ n < m ∧ m ≤ n + cs.length ∧ kind ∈ run.map (·.kind) := by
  induction cs generalizing run n best with
  | nil => exact .inl h
  | cons c cs ih =>
    obtain ⟨best', hbest', hresume⟩ := resume_cons run n best c cs
    rw [List.length_cons]
    have hshort (hm : best' = some (kind, m)) : best = some (kind, m) ∨
        n < m ∧ m ≤ n + (cs.length + 1) ∧ kind ∈ run.map (·.kind) := by
      rcases hbest' with rfl | ⟨k, hk, rfl⟩
      · exact .inl hm
      · obtain ⟨rfl, rfl⟩ := Prod.mk.inj (Option.some.inj hm)
        exact .inr ⟨by omega, by omega, hk⟩
    rw [hresume] at h
    split at h
    · exact hshort h
    · rcases ih h with h | ⟨hlt, hle, hmem⟩
      · exact hshort h
      · exact .inr ⟨by omega, by omega, map_kind_feed c ▸ hmem⟩

lemma ofText_best (h : (ofText lexicon cs).best = some (kind, m)) :
    0 < m ∧ m ≤ cs.length ∧ kind ∈ lexicon.map (·.kind) := by
  rcases resume_best h with h | ⟨hlt, hle, hmem⟩
  · exact absurd h (by simp)
  · refine ⟨hlt, by omega, ?_⟩
    rw [List.map_map] at hmem
    exact hmem

end Munch

namespace Lexer

variable {l l' : Lexer} {t : Token} {e : LexError}

lemma length_skipBlanks_le (l : Lexer) : l.skipBlanks.rest.length ≤ l.rest.length := by
  simp [skipBlanks, drop]

/-- A token is the end of the source, or it has a category of the lexicon and takes up some of
the source. -/
lemma next_ok (h : l.next = (.ok t, l')) : l'.lexicon = l.lexicon ∧
    (t.kind = .endOfInput ∧ l'.rest = [] ∨
      t.kind ∈ l.lexicon.map (·.kind) ∧ l'.rest.length < l.rest.length) := by
  have hle := l.length_skipBlanks_le
  have hlexicon : l.skipBlanks.lexicon = l.lexicon := rfl
  rw [next, read] at h
  split at h
  · next hrest =>
    obtain ⟨ht, rfl⟩ := Prod.mk.inj h
    obtain rfl := Except.ok.inj ht
    exact ⟨rfl, .inl ⟨rfl, hrest⟩⟩
  · next hrest =>
    dsimp only at h
    split at h
    · next kind n hbest =>
      obtain ⟨ht, rfl⟩ := Prod.mk.inj h
      obtain rfl := Except.ok.inj ht
      obtain ⟨hpos, hn, hmem⟩ := Munch.ofText_best hbest
      refine ⟨rfl, .inr ⟨hmem, ?_⟩⟩
      simp only [drop, List.length_drop]
      omega
    · exact absurd (Prod.mk.inj h).1 (by simp)

/-- An error takes up some of the source, too. -/
lemma next_error (h : l.next = (.error e, l')) :
    l'.lexicon = l.lexicon ∧ l'.rest.length < l.rest.length := by
  have hle := l.length_skipBlanks_le
  rw [next, read] at h
  split at h
  · exact absurd (Prod.mk.inj h).1 (by simp)
  · next hrest =>
    dsimp only at h
    split at h
    · exact absurd (Prod.mk.inj h).1 (by simp)
    · obtain ⟨-, rfl⟩ := Prod.mk.inj h
      refine ⟨rfl, ?_⟩
      have : l.skipBlanks.rest.length ≠ 0 := by simp [hrest]
      simp only [drop, List.length_drop]
      omega

/-- The tokens up to the end of the source, which is the last one, or up to the first error. -/
def scan (l : Lexer) : List Token × Option LexError :=
  match _hnext : l.next with
  | (.error e, _) => ([], some e)
  | (.ok t, l') =>
    if _ht : t.kind = .endOfInput then ([t], none)
    else (t :: (scan l').1, (scan l').2)
termination_by l.rest.length
decreasing_by
  all_goals
    obtain ⟨-, hend | hlt⟩ := next_ok _hnext
    · exact absurd hend.1 _ht
    · exact hlt.2

lemma scan_of_error (h : l.next = (.error e, l')) : l.scan = ([], some e) := by
  rw [scan]
  split <;> simp_all

lemma scan_of_end (h : l.next = (.ok t, l')) (ht : t.kind = .endOfInput) :
    l.scan = ([t], none) := by
  rw [scan]
  split <;> simp_all

lemma scan_of_token (h : l.next = (.ok t, l')) (ht : t.kind ≠ .endOfInput) :
    l.scan = (t :: l'.scan.1, l'.scan.2) := by
  rw [scan]
  split <;> simp_all

/-- Without an error, a source ends with the token for its end, and has it nowhere else. -/
theorem scan_eq_none {l : Lexer} (h : l.scan.2 = none) : ∃ ts eoi,
    l.scan = (ts ++ [eoi], none) ∧ eoi.kind = .endOfInput ∧ ∀ t ∈ ts, t.kind ≠ .endOfInput := by
  induction l using scan.induct with
  | case1 l e l' hnext =>
    rw [scan_of_error hnext] at h
    exact absurd h (by simp)
  | case2 l t l' hnext ht => exact ⟨[], t, scan_of_end hnext ht, ht, by simp⟩
  | case3 l t l' hnext ht ih =>
    rw [scan_of_token hnext ht] at h ⊢
    obtain ⟨ts, eoi, hscan, heoi, hts⟩ := ih h
    exact ⟨t :: ts, eoi, by rw [hscan]; rfl, heoi, List.forall_mem_cons.mpr ⟨ht, hts⟩⟩

end Lexer

end LL1
