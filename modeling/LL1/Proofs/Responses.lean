/-
# What calls let their caller know

A caller learns from a call how it ended, and can ask then whether the source has been recognised
and whether an error was fatal.  A caller who resumes the parser until one of these is the case gets
a list of such responses.  There is at most one such list, however long the caller is prepared to
wait, and there is one if the parser is valid.
-/
import LL1.Proofs.Recovery

namespace LL1

/-- What a call lets its caller know. -/
structure Response where
  /-- The error, unless the source was recognised. -/
  outcome : Except ParseError Unit
  /-- Whether the whole source has been recognised. -/
  accepted : Bool
  /-- Whether an error was met that cannot be recovered from. -/
  unrecoverable : Bool

/-- What is known after a run. -/
def Run.response (r : Run) : Response := ⟨r.outcome, r.parser.isAccepted, r.parser.unrecoverable⟩

namespace Parser

variable {P : RuleSet Nat} {F : Nat → Terminal → Prop} {n : Nat} {p : Parser} {r : Run}
  {rs : List Run} {es es' : List Response} {fuel limit limit' : Nat}

/-- The last of the runs is final. -/
def Finished (rs : List Run) : Prop := ∃ r, rs.getLast? = some r ∧ r.isFinal = true

lemma finished_singleton (hr : r.isFinal = true) : Finished [r] := ⟨r, rfl, hr⟩

lemma finished_cons_iff (hr : r.isFinal = false) : Finished (r :: rs) ↔ Finished rs := by
  cases rs with
  | nil => simp [Finished, hr]
  | cons r' rs => simp [Finished]

lemma runs_succ (fuel limit : Nat) (p : Parser) : p.runs fuel (limit + 1) =
    (p.proceed fuel).bind fun r =>
      if r.isFinal then some [r] else (r.parser.runs fuel limit).map (r :: ·) := rfl

/-- After a final call there are no more, however many are allowed. -/
lemma runs_of_finished (h : p.runs fuel limit = some rs) (hrs : Finished rs)
    (hle : limit ≤ limit') : p.runs fuel limit' = some rs := by
  induction limit generalizing p rs limit' with
  | zero =>
    obtain rfl : [] = rs := Option.some.inj h
    obtain ⟨r, hr, -⟩ := hrs
    exact absurd hr (by simp)
  | succ limit ih =>
    obtain ⟨k, rfl⟩ : ∃ k, limit' = k + 1 := ⟨limit' - 1, by omega⟩
    rw [runs_succ] at h ⊢
    obtain ⟨r, hr, h⟩ := Option.bind_eq_some_iff.mp h
    refine Option.bind_eq_some_iff.mpr ⟨r, hr, ?_⟩
    split at h
    · next hfinal => rwa [if_pos hfinal]
    · next hfinal =>
      obtain ⟨rs', hrs', rfl⟩ := Option.map_eq_some_iff.mp h
      have hrest := (finished_cons_iff (by simpa using hfinal)).mp hrs
      rw [if_neg hfinal]
      exact Option.map_eq_some_iff.mpr ⟨rs', ih hrs' hrest (by omega), rfl⟩

/-- The responses to a caller who goes on until the source is recognised or an error is fatal. -/
def Reports (p : Parser) (es : List Response) : Prop :=
  ∃ fuel limit rs, p.runs fuel limit = some rs ∧ Finished rs ∧ rs.map Run.response = es

/-- There are no two lists of responses. -/
lemma Reports.unique (h : p.Reports es) (h' : p.Reports es') : es = es' := by
  obtain ⟨fuel, limit, rs, hrs, hfinished, rfl⟩ := h
  obtain ⟨fuel', limit', rs', hrs', hfinished', rfl⟩ := h'
  -- with the fuel and the limit of both, both callers make the same calls
  have hmax := runs_of_finished (runs_mono hrs (Nat.le_max_left fuel fuel')) hfinished
    (Nat.le_max_left limit limit')
  have hmax' := runs_of_finished (runs_mono hrs' (Nat.le_max_right fuel fuel')) hfinished'
    (Nat.le_max_right limit limit')
  rw [Option.some.inj (hmax.symm.trans hmax')]

/-- A valid parser comes to an end with its responses. -/
lemma Valid.exists_reports (hp : p.Valid P F n) : ∃ es, p.Reports es := by
  obtain ⟨fuel, limit, rs, r, hrs, hlast, hfinal⟩ := exists_runs hp
  exact ⟨_, fuel, limit, rs, hrs, ⟨r, hlast, hfinal⟩, rfl⟩

/-- The first call recognises the source. -/
def Accepts (p : Parser) : Prop := ∃ fuel r, p.proceed fuel = some r ∧ r.outcome = .ok ()

/-- The first call recognises the source if and only if there are no errors at all. -/
lemma Reports.accepts_iff (h : p.Reports es) : p.Accepts ↔ ∀ e ∈ es, e.outcome = .ok () := by
  obtain ⟨fuel, limit, rs, hrs, hfinished, rfl⟩ := h
  cases limit with
  | zero =>
    obtain rfl : [] = rs := Option.some.inj hrs
    obtain ⟨r, hr, -⟩ := hfinished
    exact absurd hr (by simp)
  | succ limit =>
    rw [runs_succ] at hrs
    obtain ⟨first, hfirst, hrs⟩ := Option.bind_eq_some_iff.mp hrs
    have haccepts : p.Accepts ↔ first.outcome = .ok () := by
      refine ⟨fun ⟨fuel', r, hr, hok⟩ => ?_, fun hok => ⟨fuel, first, hfirst, hok⟩⟩
      have hmax := proceed_mono hfirst (Nat.le_max_left fuel fuel')
      have hmax' := proceed_mono hr (Nat.le_max_right fuel fuel')
      rwa [Option.some.inj (hmax.symm.trans hmax')]
    rw [haccepts]
    split at hrs
    · obtain rfl : [first] = rs := Option.some.inj hrs
      simp [Run.response]
    · next hfinal =>
      obtain ⟨rest, -, rfl⟩ := Option.map_eq_some_iff.mp hrs
      refine ⟨fun hok => absurd (by rw [Run.isFinal, hok]) hfinal, fun hall => ?_⟩
      exact hall first.response (by simp)

end Parser

end LL1
