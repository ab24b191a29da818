import DecimalCalculator.Proofs.Evaluation.Agreement
import Mathlib.Order.WellFounded

/-!
# Termination of evaluations

Evaluation is bounded in the number of expressions that may be open at a time. The bound is a limit
of the calculator and not what makes evaluation end. This module takes the bound away: `unbounded`
is the evaluation that never meets it, and it satisfies the recursion of an expression over its
nested expressions with no count at all.

What makes it end is the rank of a context, the levels that may still be entered and then the tokens
to come. Groups, arguments and calls use up a level, whatever the length of the body that is called;
an assignment stays at its level and uses up tokens. Functions may be redefined while they run, but
no body becomes longer than what was there at the start, so the number of open expressions is known
beforehand (`openings`).
-/
namespace DecimalCalculator

namespace Context

def levelsLeft (settings : Settings) (c : Context) : Nat :=
  (settings.maxDepth - c.depth).toNat

/-- The context `d` is lower than `c`: fewer levels are left, or equally many and fewer tokens. -/
def Below (settings : Settings) (d c : Context) : Prop :=
  d.levelsLeft settings < c.levelsLeft settings ∨
    d.levelsLeft settings = c.levelsLeft settings ∧ d.tokens.length < c.tokens.length

instance (settings : Settings) (d c : Context) : Decidable (Below settings d c) :=
  inferInstanceAs (Decidable (_ ∨ _ ∧ _))

theorem wellFounded_below (settings : Settings) : WellFounded (Below settings) := by
  refine Subrelation.wf (r := InvImage (Prod.Lex (· < ·) (· < ·))
    fun c : Context => (c.levelsLeft settings, c.tokens.length)) ?_
    (InvImage.wf _ (WellFounded.prod_lex Nat.lt_wfRel.wf Nat.lt_wfRel.wf))
  intro d c h
  exact Prod.lex_iff.2 h

theorem Enters.below {settings : Settings} {c d : Context} (h : c.Enters d)
    (hdepth : c.depth < settings.maxDepth) : Below settings d c := by
  rcases h.lower with ⟨hsame, htokens⟩ | hdeeper
  · refine .inr ⟨?_, htokens⟩
    rw [levelsLeft, levelsLeft, hsame]
  · refine .inl ?_
    unfold levelsLeft
    omega

/-- Neither the tokens to come nor any function body is longer than `length`. -/
def Fits (length : Nat) (c : Context) : Prop :=
  ∀ ts, c.Holds ts → ts.length ≤ length

theorem Enters.fits {length : Nat} {c d : Context} (h : c.Enters d) (hc : c.Fits length) :
    d.Fits length := by
  rintro ts (hts | ⟨name, body, hbody, hts⟩)
  · exact hc ts (h.tokens.of_isInfix hts)
  · exact hc ts ((h.functions name body hbody).of_isInfix hts)

def longest (c : Context) : Nat :=
  (c.functions.entries.map fun entry => entry.2.length).foldl max c.tokens.length

theorem fits_longest (c : Context) : c.Fits c.longest := by
  have hmax (ns : List Nat) (n : Nat) : n ≤ ns.foldl max n ∧ ∀ k ∈ ns, k ≤ ns.foldl max n := by
    induction ns generalizing n with
    | nil => simp
    | cons m ns ih =>
      obtain ⟨hfirst, hrest⟩ := ih (max n m)
      rw [List.foldl_cons]
      refine ⟨(Nat.le_max_left n m).trans hfirst, fun k hk => ?_⟩
      rcases List.mem_cons.1 hk with rfl | hk
      · exact (Nat.le_max_right n k).trans hfirst
      · exact hrest k hk
  obtain ⟨htokens, hbodies⟩ := hmax (c.functions.entries.map fun entry => entry.2.length)
    c.tokens.length
  rintro ts (hts | ⟨name, body, hbody, hts⟩)
  · exact hts.length_le.trans htokens
  · refine hts.length_le.trans (hbodies _ (List.mem_map.2 ⟨(name, body), ?_, rfl⟩))
    exact List.lookup_eq_some_iff.1 hbody |>.elim fun before h => by
      obtain ⟨after, h, -⟩ := h
      rw [h]
      simp

end Context

namespace Eval

open Context

/-- How many expressions are open at a time at most, when nothing is longer than `length`: at each
level one for every token that an assignment can have taken, and the one that begins the level. -/
def openings (settings : Settings) (length : Nat) (c : Context) : Nat :=
  c.levelsLeft settings * (length + 1) + c.tokens.length + 1

/-- Evaluates an expression without a bound on the expressions that are open at a time. -/
def unbounded (settings : Settings) : Eval Decimal := fun c =>
  calculate settings (openings settings c.longest c) c

/-- Evaluates by `m` in the contexts below `c`, and by `other` in all others. -/
def onlyBelow (settings : Settings) (c : Context) (m other : Eval Decimal) : Eval Decimal :=
  fun d => if Below settings d c then m d else other d

variable {settings : Settings} {length : Nat} {c d : Context}

theorem openings_lt_of_enters (h : c.Enters d) (hfits : c.Fits length)
    (hdepth : c.depth < settings.maxDepth) :
    openings settings length d < openings settings length c := by
  have htokens : d.tokens.length ≤ length := hfits _ h.tokens
  unfold openings
  rcases h.below hdepth with hlevels | ⟨hlevels, hlt⟩
  · have hmul := Nat.mul_le_mul_right (length + 1) (Nat.succ_le_of_lt hlevels)
    rw [Nat.succ_mul] at hmul
    omega
  · rw [hlevels]
    omega

/-- From the number of openings on, every bound gives the same outcome, and none is met. -/
theorem calculate_agree {bound bound' : Nat} (hfits : c.Fits length)
    (hbound : openings settings length c ≤ bound) (hle : bound ≤ bound') :
    Agree (fun _ => False) (· ≠ outOfBound) (calculate settings bound c)
      (calculate settings bound' c) := by
  induction bound generalizing bound' c with
  | zero => exact absurd hbound (by simp [openings])
  | succ bound ih =>
    obtain ⟨more, rfl⟩ : ∃ more, bound' = more + 1 := ⟨bound' - 1, by omega⟩
    rw [calculate, calculate]
    refine expression_agree (fun _ h => h) (calculate_follows settings bound) fun hdepth d hd => ?_
    have hlt := openings_lt_of_enters hd hfits hdepth
    exact ih (hd.fits hfits) (by omega) (by omega)

theorem calculate_eq_unbounded {bound : Nat} (hfits : c.Fits length)
    (hbound : openings settings length c ≤ bound) :
    calculate settings bound c = unbounded settings c := by
  let enough := max bound (openings settings c.longest c)
  have h : calculate settings bound c = calculate settings enough c :=
    (calculate_agree hfits hbound (Nat.le_max_left _ _)).eq
  have h' : unbounded settings c = calculate settings enough c :=
    (calculate_agree (fits_longest c) (Nat.le_refl _) (Nat.le_max_right _ _)).eq
  rw [h, h']

theorem unbounded_follows (settings : Settings) : Keeps Follows (unbounded settings) :=
  fun c => calculate_follows settings _ c

theorem result_unbounded_ne (settings : Settings) (c : Context) :
    Outcome.result (unbounded settings c) ≠ .error outOfBound := by
  have hagree : Agree (fun _ => False) (· ≠ outOfBound) (unbounded settings c)
      (unbounded settings c) :=
    calculate_agree (fits_longest c) (Nat.le_refl _) (Nat.le_refl _)
  exact hagree.result_ne

theorem unbounded_ne_outOfBound (settings : Settings) (c d : Context) :
    unbounded settings c ≠ .error outOfBound d :=
  fun h => result_unbounded_ne settings c (congrArg Outcome.result h)

/-- Without the bound, evaluation is the recursion of expressions over nested expressions. -/
theorem unbounded_unfold (settings : Settings) (c : Context) :
    unbounded settings c = expression settings (unbounded settings) c := by
  let bound := openings settings c.longest c
  have h : expression settings (calculate settings bound) c = unbounded settings c :=
    calculate_eq_unbounded (fits_longest c) (Nat.le_succ bound)
  rw [← h]
  have hagree : Agree (fun _ => False) (fun _ => True)
      (expression settings (calculate settings bound) c)
      (expression settings (unbounded settings) c) := by
    refine expression_agree (fun _ _ => trivial) (calculate_follows settings bound)
      fun hdepth d hd => ?_
    have hlt := openings_lt_of_enters hd (fits_longest c) hdepth
    exact .inr ⟨calculate_eq_unbounded (hd.fits (fits_longest c)) hlt.le, fun _ _ _ => trivial⟩
  exact hagree.eq

/-- Nested expressions are evaluated in lower contexts only: whatever evaluates expressions
elsewhere is never asked. -/
theorem expression_below (settings : Settings) (c : Context) (other : Eval Decimal) :
    expression settings (onlyBelow settings c (unbounded settings) other) c =
      unbounded settings c := by
  rw [unbounded_unfold]
  have hagree : Agree (fun _ => False) (fun _ => True)
      (expression settings (unbounded settings) c)
      (expression settings (onlyBelow settings c (unbounded settings) other) c) := by
    refine expression_agree (fun _ _ => trivial) (unbounded_follows settings) fun hdepth d hd => ?_
    rw [onlyBelow, if_pos (hd.below hdepth)]
    exact .inr ⟨rfl, fun _ _ _ => trivial⟩
  exact hagree.eq.symm

/-- A bound changes nothing but that it may be met. -/
theorem calculate_agree_unbounded (settings : Settings) (bound : Nat) (c : Context) :
    Agree (· = outOfBound) (fun _ => True) (calculate settings bound c)
      (unbounded settings c) := by
  induction bound generalizing c with
  | zero => exact .inl ⟨outOfBound, c, rfl, rfl⟩
  | succ bound ih =>
    rw [calculate, unbounded_unfold]
    exact expression_agree (fun _ _ => trivial) (calculate_follows settings bound) fun _ d _ => ih d

theorem calculate_agree_of_le {bound bound' : Nat} (hle : bound ≤ bound') (c : Context) :
    Agree (· = outOfBound) (fun _ => True) (calculate settings bound c)
      (calculate settings bound' c) := by
  have hself : Comparable (· = outOfBound) (fun _ => True) settings settings :=
    comparable_self fun _ _ _ => trivial
  exact hself.calculate_agree rfl (.inr ⟨rfl, trivial⟩) hle c

theorem calculate_eq_of_le {bound bound' : Nat} (hle : bound ≤ bound')
    (h : Outcome.result (calculate settings bound c) ≠ .error outOfBound) :
    calculate settings bound' c = calculate settings bound c := by
  rcases calculate_agree_of_le hle c with ⟨_, d, hmet, rfl⟩ | ⟨hsame, -⟩
  · exact absurd (congrArg Outcome.result hmet) h
  · exact hsame.symm

/-- Evaluation ends. Taking nested expressions in lower contexts only, it is a recursion over a
well-founded relation and needs no count; its operator loops go on until no operator follows; and
the count of a bounded evaluation is met only where it is smaller than the openings, and changes
nothing else. -/
theorem evaluation_terminates (settings : Settings) :
    WellFounded (Below settings) ∧
    (∀ c, unbounded settings c = expression settings (unbounded settings) c) ∧
    (∀ c other, expression settings (onlyBelow settings c (unbounded settings) other) c =
      unbounded settings c) ∧
    (∀ operators tiers, allOperands operators (cascade settings (unbounded settings) tiers) = (do
      match ← acceptOneOf operators with
      | none => pure []
      | some op =>
        let value ← cascade settings (unbounded settings) tiers
        let rest ← allOperands operators (cascade settings (unbounded settings) tiers)
        pure ((op, value) :: rest))) ∧
    (∀ c, Outcome.result (unbounded settings c) ≠ .error outOfBound) ∧
    (∀ c bound, calculate settings bound c = unbounded settings c ∨
      bound < openings settings c.longest c ∧
        Outcome.result (calculate settings bound c) = .error outOfBound) := by
  refine ⟨wellFounded_below settings, unbounded_unfold settings, expression_below settings,
    fun operators tiers => ?_, fun c => ?_, fun c bound => ?_⟩
  · exact allOperands_unfold operators (follows_length
      ((stable_follows settings).cascade (unbounded_follows settings) tiers))
  · cases h : unbounded settings c with
    | ok value d => simp
    | error failure d =>
      rintro ⟨⟩
      exact unbounded_ne_outOfBound settings c d h
  · rcases calculate_agree_unbounded settings bound c with ⟨failure, d, h, rfl⟩ | ⟨h, -⟩
    · refine .inr ⟨?_, by rw [h]; rfl⟩
      by_contra hle
      have hsame : calculate settings bound c = unbounded settings c :=
        calculate_eq_unbounded (fits_longest c) (Nat.le_of_not_lt hle)
      exact unbounded_ne_outOfBound settings c d (hsame ▸ h)
    · exact .inl h

end Eval

end DecimalCalculator
