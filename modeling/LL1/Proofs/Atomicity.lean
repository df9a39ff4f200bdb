/-
# Refused steps leave no trace

A step of a definition looks at everything before it writes anything, so a draft on which a step
has failed is the draft from before.  If the errors of a definition are passed over, what comes out
is therefore the same as if the steps with errors had not been there; all others succeed without
them, too.
-/
import LL1.Grammar.Drafting
import Mathlib.Tactic.Lemma

namespace LL1

namespace Drafting

variable {α β : Type} {d d' : Draft} {steps : List DraftStep}

/-! ### Running the work on a draft -/

lemma run_bind (x : Drafting α) (k : α → Drafting β) (d : Draft) :
    (x >>= k).run.run d = match x.run.run d with
      | (.ok a, d') => (k a).run.run d'
      | (.error e, d') => (.error e, d') := by
  rw [ExceptT.run_bind, StateT.run_bind]
  show (match x.run.run d with | (r, d') => _) = _
  rcases x.run.run d with ⟨_ | _, _⟩ <;> rfl

lemma run_lift (r : Except GrammarError α) (d : Draft) :
    (liftM r : Drafting α).run.run d = (r, d) := rfl

lemma run_get (d : Draft) : (get : Drafting Draft).run.run d = (.ok d, d) := rfl

lemma run_modify (f : Draft → Draft) (d : Draft) :
    (modify f : Drafting Unit).run.run d = (.ok (), f d) := rfl

lemma run_throw (e : GrammarError) (d : Draft) :
    (throw e : Drafting α).run.run d = (.error e, d) := rfl

/-! ### Single steps -/

/-- What has become of a step and of the draft: if the step is refused, the draft is as before. -/
def after (d : Draft) : Except GrammarError Draft → Except GrammarError Unit × Draft
  | .ok d' => (.ok (), d')
  | .error e => (.error e, d)

lemma run_declare (name : String) (d : Draft) :
    (declare name).run.run d = after d (d.declare name) := by
  rw [declare, run_bind, run_lift, Draft.declare]
  cases Draft.checkName name with
  | error e => rfl
  | ok _ =>
    simp only [run_bind, run_get]
    by_cases hold : d.alternatives.contains name = true
    · simp only [hold, if_true, run_bind, run_throw]
      rfl
    · simp only [hold]
      rfl

/-- The symbols of an alternative are looked at one after the other, and nothing is written. -/
lemma run_checkSymbols (a : Alternative) (d : Draft) :
    (a.forM fun s => Draft.checkSymbol s : Drafting PUnit).run.run d =
      (Draft.checkAlternative a, d) := by
  induction a with
  | nil => rfl
  | cons s a ih =>
    show (do liftM (Draft.checkSymbol s); a.forM _ : Drafting PUnit).run.run d = _
    rw [run_bind, run_lift, Draft.checkAlternative]
    cases Draft.checkSymbol s with
    | error e => rfl
    | ok _ => exact ih

lemma run_rule (name : String) (a : Alternative) (d : Draft) :
    (rule name a).run.run d = after d (d.rule name a) := by
  rw [rule, run_bind, run_lift, Draft.rule]
  cases Draft.checkName name with
  | error e => rfl
  | ok _ =>
    simp only [run_bind]
    rw [run_checkSymbols]
    cases Draft.checkAlternative a with
    | error e => rfl
    | ok _ =>
      simp only [run_modify, Draft.add, bind, Except.bind]
      cases d.alternatives[name]? <;> rfl

lemma run_startAt (name : String) (d : Draft) :
    (startAt name).run.run d = after d (d.startAt name) := by
  rw [startAt, run_bind, run_lift, Draft.startAt]
  cases Draft.checkName name <;> rfl

/-- **A step that is refused leaves the draft as it was**, and any other makes of it what it is to
make. -/
theorem run_perform (s : DraftStep) (d : Draft) :
    (perform s).run.run d = after d (d.apply s) := by
  cases s with
  | declare name => exact run_declare name d
  | rule name a => exact run_rule name a d
  | startAt name => exact run_startAt name d

/-! ### Sequences of steps -/

lemma run_performAll_cons (s : DraftStep) (steps : List DraftStep) (d : Draft) :
    (performAll (s :: steps)).run d =
      match d.apply s with
      | .ok d' => (.ok () :: ((performAll steps).run d').1, ((performAll steps).run d').2)
      | .error e => (.error e :: ((performAll steps).run d).1, ((performAll steps).run d).2) := by
  rw [performAll, List.mapM_cons, StateT.run_bind]
  show (match (perform s).run.run d with | (r, d') => _) = _
  rw [run_perform]
  cases d.apply s <;> rfl

/-- Steps of which none is refused all succeed. -/
lemma run_performAll_of_applyAll (h : d.applyAll steps = (d', none)) :
    (performAll steps).run d = (List.replicate steps.length (.ok ()), d') := by
  induction steps generalizing d with
  | nil =>
    obtain rfl : d = d' := congrArg Prod.fst h
    rfl
  | cons s steps ih =>
    rw [Draft.applyAll] at h
    rw [run_performAll_cons]
    cases hs : d.apply s with
    | error e => simp [hs] at h
    | ok d₁ =>
      rw [hs] at h
      simp only [ih h]
      rfl

lemma length_run_performAll (steps : List DraftStep) (d : Draft) :
    ((performAll steps).run d).1.length = steps.length := by
  induction steps generalizing d with
  | nil => rfl
  | cons s steps ih =>
    rw [run_performAll_cons]
    cases d.apply s <;> simp [ih]

lemma succeeding_sublist (steps : List DraftStep) (d : Draft) :
    (succeeding steps d).Sublist steps := by
  have hzip : (steps.zip ((performAll steps).run d).1).map (·.1) = steps :=
    List.map_fst_zip (Nat.le_of_eq (length_run_performAll steps d).symm)
  have hfilter : (succeeding steps d).Sublist
      ((steps.zip ((performAll steps).run d).1).map (·.1)) := List.filter_sublist.map _
  rwa [hzip] at hfilter

lemma succeeding_cons (s : DraftStep) (steps : List DraftStep) (d : Draft) :
    succeeding (s :: steps) d = match d.apply s with
      | .ok d' => s :: succeeding steps d'
      | .error _ => succeeding steps d := by
  rw [succeeding, run_performAll_cons]
  cases d.apply s <;> rfl

/-- None of the steps that succeed is refused if the others are left out, and they come to the same
draft. -/
lemma applyAll_succeeding (steps : List DraftStep) (d : Draft) :
    d.applyAll (succeeding steps d) = (((performAll steps).run d).2, none) := by
  induction steps generalizing d with
  | nil => rfl
  | cons s steps ih =>
    rw [run_performAll_cons, succeeding_cons]
    cases hs : d.apply s with
    | error e => exact ih d
    | ok d' =>
      simp only [Draft.applyAll, hs]
      exact ih d'

/-- The draft that is worked on is the one to which the possible steps lead. -/
lemma run_performAll_snd (steps : List DraftStep) (d : Draft) :
    ((performAll steps).run d).2 = d.applyPossible steps := by
  induction steps generalizing d with
  | nil => rfl
  | cons s steps ih =>
    rw [run_performAll_cons, Draft.applyPossible]
    cases d.apply s with
    | error e => exact ih d
    | ok d' => exact ih d'

end Drafting

/-- **Refused steps leave no trace.**  Every step of a definition whose errors are passed over
succeeds or is refused.  Those that succeed, taken alone, succeed again, every one of them, and come
to the same grammar or the same error in the end, whether errors are passed over or not.  It is the
grammar to which the possible steps lead. -/
theorem Grammar.defineTolerantly_succeeding (steps : List DraftStep) :
    ((Drafting.performAll steps).run .empty).1.length = steps.length ∧
    (Drafting.succeeding steps .empty).Sublist steps ∧
    (∀ result ∈ ((Drafting.performAll (Drafting.succeeding steps .empty)).run .empty).1,
      result = .ok ()) ∧
    Grammar.defineTolerantly steps = Grammar.defineTolerantly (Drafting.succeeding steps .empty) ∧
    Grammar.defineTolerantly (Drafting.succeeding steps .empty) =
      Grammar.define (Drafting.succeeding steps .empty) ∧
    Grammar.defineTolerantly steps = (Draft.empty.applyPossible steps).finish := by
  have hkept := Drafting.applyAll_succeeding steps .empty
  have hagain := Drafting.run_performAll_of_applyAll hkept
  refine ⟨Drafting.length_run_performAll steps .empty, Drafting.succeeding_sublist steps .empty,
    fun result hresult => ?_, ?_, ?_, ?_⟩
  · rw [hagain] at hresult
    exact List.eq_of_mem_replicate hresult
  · rw [defineTolerantly, defineTolerantly, hagain]
  · rw [defineTolerantly, define, hagain, hkept]
  · rw [defineTolerantly, Drafting.run_performAll_snd]

/-- The nonterminal of a rule that is refused for its last symbol is not declared, so it does not
become the start symbol. -/
example : (Grammar.defineTolerantly
    [.rule "sign" [.terminal .star, .terminal .epsilon], .declare "name"]).toOption =
    some ⟨[⟨"name", []⟩], "name"⟩ := by
  decide +kernel

end LL1
