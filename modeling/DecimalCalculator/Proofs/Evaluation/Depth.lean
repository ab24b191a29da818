import DecimalCalculator.Proofs.Evaluation.Agreement
import Mathlib.Control.Monad.Basic

/-!
# The depth of an evaluation

One counter says how deep an expression is nested. Groups change it in place and bodies start from a
copy. From depth zero on it is the number of groups and bodies around an expression, it never passes
the greatest depth, and an expression that is nested too deeply fails before anything of it is
evaluated (`depth_counts_groups_and_bodies`).

The greatest depth decides nothing else. An evaluation that is not refused for its depth goes the
same way under every larger bound (`evaluate_eq_of_maxDepth_le`).

Since groups and bodies are limited in this way, the limit on open expressions can be met by
assignments only: where it is, all open expressions are assignments but for as many as the greatest
depth allows (`Visits.le_assigned`).
-/
namespace DecimalCalculator

namespace Eval

open Context

variable {settings : Settings}

/-! ## Depths of nested expressions -/

section

variable {inner : Eval Decimal} {c d : Context}

theorem Nests.depth (hinner : Keeps Follows inner) {place : Place}
    (h : Nests settings inner c place d) :
    d.depth = c.depth + ([place].count .group + [place].count .body : Nat) := by
  obtain ⟨e, he, hleads⟩ := h.leads (stable_follows settings) hinner
  have hsame : e.depth = c.depth := he.depth
  cases place with
  | group =>
    have hd : d.depth = e.depth + 1 := hleads.depth
    simp [hd, hsame]
  | body =>
    obtain ⟨name, body, actuals, -, rfl⟩ := hleads
    change e.depth + 1 = _
    simp [hsame]
  | assigned =>
    obtain ⟨t, rest, -, rfl⟩ := hleads
    change e.depth = _
    simp [hsame]

variable {bound bound' : Nat} {path : List Place}

theorem Visits.depth (h : Visits settings bound c path bound' d) :
    d.depth = c.depth + (path.count .group + path.count .body : Nat) := by
  induction h with
  | here bound c => simp
  | @nested bound bound' c d e place path hnests _ ih =>
    have hd := hnests.depth (calculate_follows settings bound)
    simp only [ih, hd, List.count_cons, List.count_nil]
    omega

theorem Visits.depth_le (h : Visits settings bound c path bound' d)
    (hc : c.depth ≤ settings.maxDepth) : d.depth ≤ settings.maxDepth := by
  induction h with
  | here bound c => exact hc
  | @nested bound bound' c d e place path hnests _ ih =>
    have hd := hnests.depth (calculate_follows settings bound)
    obtain ⟨-, ⟨hlt, -⟩, -⟩ := hnests
    refine ih ?_
    rw [hd]
    cases place <;> simp <;> omega

/-- An evaluation that only visits expressions above the greatest depth is not refused for its
depth. -/
theorem calculate_agree_of_visits
    (h : ∀ path bound' d, Visits settings bound c path (bound' + 1) d →
      d.depth < settings.maxDepth) :
    Agree (fun _ => False) (· ≠ CalcError.tooDeep .depth) (calculate settings bound c)
      (calculate settings bound c) := by
  -- The evaluation agrees with itself; what is proved is where its failures lie.
  induction bound generalizing c with
  | zero => exact agree_error (by simp) c
  | succ bound ih =>
    refine (comparable_self fun _ _ hne => hne).expression_agree_of_nests (fun place d hd => ?_)
      (h [] bound c (.here _ c))
    exact ih fun path bound' e he => h (place :: path) bound' e (.nested hd he)

theorem tooDeep_iff_visits :
    Outcome.result (calculate settings bound c) = .error (CalcError.tooDeep .depth) ↔
      ∃ path bound' d, Visits settings bound c path (bound' + 1) d ∧
        settings.maxDepth ≤ d.depth := by
  constructor
  · intro h
    refine Classical.byContradiction fun hnone => ?_
    have habove (path : List Place) (bound' : Nat) (d : Context)
        (hd : Visits settings bound c path (bound' + 1) d) : d.depth < settings.maxDepth :=
      Int.not_le.1 fun hle => hnone ⟨path, bound', d, hd, hle⟩
    exact (calculate_agree_of_visits habove).result_ne h
  · rintro ⟨path, bound', d, hvisits, hle⟩
    obtain ⟨e, he⟩ := hvisits.error (expression_of_le hle)
    rw [he]
    rfl

end

/-! ## Where the limit on open expressions is met -/

section

variable {bound bound' : Nat} {c d : Context} {path : List Place}

theorem Visits.bound_eq (h : Visits settings bound c path bound' d) :
    bound = bound' + path.length := by
  induction h with
  | here bound c => rfl
  | nested _ _ ih =>
    rw [List.length_cons, ih]
    rfl

theorem length_eq_counts (path : List Place) :
    path.length = path.count .group + path.count .body + path.count .assigned := by
  induction path with
  | nil => rfl
  | cons place path ih =>
    rw [List.length_cons, ih]
    cases place <;> simp <;> omega

/-- Where the limit is met, all open expressions but those that the depth allows are assignments. -/
theorem Visits.le_assigned (h : Visits settings bound c path 0 d)
    (hc : c.depth ≤ settings.maxDepth) :
    bound + c.depth ≤ path.count .assigned + settings.maxDepth := by
  have hle := h.depth_le hc
  have hdepth := h.depth
  have hbound := h.bound_eq
  have hcounts := length_eq_counts path
  omega

/-- An evaluation fails for the limit only if it comes to an expression that is open beyond it. -/
theorem visits_of_outOfBound
    (h : Outcome.result (calculate settings bound c) = .error outOfBound) :
    ∃ path d, Visits settings bound c path 0 d := by
  have hagree (bound : Nat) (c : Context) (hnone : ∀ path d, ¬Visits settings bound c path 0 d) :
      Agree (fun _ => False) (· ≠ outOfBound) (calculate settings bound c)
        (calculate settings bound c) := by
    induction bound generalizing c with
    | zero => exact absurd (.here 0 c) (hnone [] c)
    | succ bound ih =>
      by_cases hdepth : c.depth < settings.maxDepth
      · refine (comparable_self fun _ hne _ => hne).expression_agree_of_nests
          (fun place d hd => ih d fun path e he => ?_) hdepth
        exact hnone (place :: path) e (.nested hd he)
      · rw [calculate, expression_of_le (Int.not_lt.1 hdepth)]
        exact agree_error (by simp [outOfBound]) c
  refine Classical.byContradiction fun hnone => ?_
  exact (hagree bound c fun path d hd => hnone ⟨path, d, hd⟩).result_ne h

end

/-- In an evaluation from depth zero, the depth of every expression is the number of groups and
bodies that it is nested in, which is at most the greatest depth; whatever is evaluated of it, on
any level, is so at this depth and only if it lies below the greatest; and the evaluation is refused
for its depth exactly if an expression is entered at the greatest, which then fails at once. -/
theorem depth_counts_groups_and_bodies (settings : Settings) {c : Context} (hc : c.depth = 0)
    (bound : Nat) :
    (∀ path bound' d, Visits settings bound c path bound' d →
      d.depth = (path.count .group + path.count .body : Nat) ∧ d.depth ≤ settings.maxDepth) ∧
    (∀ path bound' d tiers e, Visits settings bound c path (bound' + 1) d →
      ReachesLevel settings (calculate settings bound') d tiers e →
      e.depth = d.depth ∧ e.depth < settings.maxDepth) ∧
    (∀ path bound' d, Visits settings bound c path (bound' + 1) d → d.depth = settings.maxDepth →
      calculate settings (bound' + 1) d = .error (CalcError.tooDeep .depth) d) ∧
    (Outcome.result (calculate settings bound c) = .error (CalcError.tooDeep .depth) ↔
      ∃ path bound' d, Visits settings bound c path (bound' + 1) d ∧
        d.depth = settings.maxDepth) := by
  have hle {path : List Place} {bound' : Nat} {d : Context}
      (h : Visits settings bound c path bound' d) : d.depth ≤ settings.maxDepth :=
    h.depth_le (by omega)
  refine ⟨fun path bound' d hd => ⟨?_, hle hd⟩, fun path bound' d tiers e hd he => ?_,
    fun path bound' d _ hdepth => expression_of_le (Int.le_of_eq hdepth.symm), ?_⟩
  · rw [hd.depth, hc, Int.zero_add]
  · obtain ⟨hlt, hlevel⟩ := he
    have hkept := hlevel.keeps (stable_follows settings) (calculate_follows settings bound')
    exact ⟨hkept.depth, hkept.depth ▸ hlt⟩
  · rw [tooDeep_iff_visits]
    constructor
    · rintro ⟨path, bound', d, hd, hge⟩
      exact ⟨path, bound', d, hd, Int.le_antisymm (hle hd) hge⟩
    · rintro ⟨path, bound', d, hd, heq⟩
      exact ⟨path, bound', d, hd, Int.le_of_eq heq.symm⟩

/-! ## Larger depths and larger stacks -/

def IsTooDeep (failure : Failure) : Prop :=
  ∃ bound, failure = CalcError.tooDeep bound

theorem comparable_of_maxDepth_le {settings settings' : Settings}
    (hmachine : settings.toMachine = settings'.toMachine)
    (hprecision : settings.precision = settings'.precision)
    (hle : settings.maxDepth ≤ settings'.maxDepth) :
    Comparable IsTooDeep (fun _ => True) settings settings' where
  memory := congrArg Machine.memory hmachine
  precision := hprecision
  maxDepth := hle
  capture := fun tokens => (capture_of_le hle 1 tokens).imp id fun ⟨rest, h⟩ => ⟨rest, h, _, rfl⟩
  own := fun _ _ _ => trivial

end Eval

theorem Settings.expressionLimit_mono {settings settings' : Settings}
    (hmachine : settings.toMachine = settings'.toMachine)
    (hle : settings.maxDepth ≤ settings'.maxDepth) :
    settings.expressionLimit ≤ settings'.expressionLimit := by
  have hframes : settings.frames = settings'.frames := congrArg Machine.frames hmachine
  have hused : settings.framesInUse = settings'.framesInUse :=
    congrArg Machine.framesInUse hmachine
  have hadded := Nat.mul_le_mul_left framesPerLevel hle
  rw [expressionLimit, expressionLimit, hframes, hused]
  exact Nat.div_le_div_right (Nat.sub_le_sub_right (Nat.add_le_add_left hadded _) _)

open Eval in
/-- An evaluation that is not refused because something is nested too deeply ends on the same
machine under every larger bound on the depth in the same way: with the same value or failure and
the same bindings. -/
theorem evaluate_eq_of_maxDepth_le (settings settings' : Settings) (tokens : List Token)
    (values : Bindings Decimal) (functions : Bindings (List Token))
    (hmachine : settings.toMachine = settings'.toMachine)
    (hprecision : settings.precision = settings'.precision)
    (hle : settings.maxDepth ≤ settings'.maxDepth)
    (h : ∀ bound, Outcome.result (evaluate settings tokens values functions) ≠
      .error (CalcError.tooDeep bound)) :
    evaluate settings' tokens values functions = evaluate settings tokens values functions := by
  have hagree := (comparable_of_maxDepth_le hmachine hprecision hle).calculate_agree ⟨_, rfl⟩
    (.inl ⟨_, rfl⟩) (Settings.expressionLimit_mono hmachine hle)
    (Context.start tokens values functions)
  rcases hagree with ⟨_, c, hfailed, bound, rfl⟩ | ⟨hsame, -⟩
  · exact absurd (congrArg Outcome.result hfailed) (h bound)
  · exact hsame.symm

open Eval in
/-- Of the stack nothing is seen but where it ends: two evaluations that differ in it only are the
same, unless one of them meets the limit on open expressions. -/
theorem evaluate_eq_or_outOfBound {settings settings' : Settings}
    (hmemory : settings.memory = settings'.memory)
    (hprecision : settings.precision = settings'.precision)
    (hdepth : settings.maxDepth = settings'.maxDepth) (tokens : List Token)
    (values : Bindings Decimal) (functions : Bindings (List Token)) :
    evaluate settings tokens values functions = evaluate settings' tokens values functions ∨
      Outcome.result (evaluate settings tokens values functions) = .error outOfBound ∨
      Outcome.result (evaluate settings' tokens values functions) = .error outOfBound := by
  have hcomparable {first second : Settings} (hmemory : first.memory = second.memory)
      (hprecision : first.precision = second.precision)
      (hdepth : first.maxDepth = second.maxDepth) :
      Comparable (· = outOfBound) (fun _ => True) first second :=
    ⟨hmemory, hprecision, Nat.le_of_eq hdepth, fun _ => .inl (by rw [hdepth]), fun _ _ _ => trivial⟩
  rcases Nat.le_total settings.expressionLimit settings'.expressionLimit with hle | hle
  · rcases (hcomparable hmemory hprecision hdepth).calculate_agree rfl (.inr ⟨hdepth, trivial⟩) hle
        (Context.start tokens values functions) with ⟨_, c, hfailed, rfl⟩ | ⟨hsame, -⟩
    · exact .inr (.inl (congrArg Outcome.result hfailed))
    · exact .inl hsame
  · rcases (hcomparable hmemory.symm hprecision.symm hdepth.symm).calculate_agree rfl
        (.inr ⟨hdepth.symm, trivial⟩) hle (Context.start tokens values functions) with
      ⟨_, c, hfailed, rfl⟩ | ⟨hsame, -⟩
    · exact .inr (.inr (congrArg Outcome.result hfailed))
    · exact .inl hsame.symm

def Settings.ofDepth (maxDepth : Nat) (hpos : 0 < maxDepth) (hle : maxDepth ≤ depthCeiling) :
    Settings where
  toMachine := .default
  precision := Arithmetic.defaultPrecision
  maxDepth := maxDepth
  precision_pos := Settings.default.precision_pos
  maxDepth_pos := hpos
  maxDepth_le := hle

open Eval in
/-- The sum of an argument and one is the same under the greatest depth two and under the default. -/
theorem evaluate_default_of_twoDeep :
    evaluate Settings.default
        [.call "f", .symbol .parenOpen, .number Decimal.one, .symbol .parenClose] .empty
        (Bindings.empty.insert "f" [.read "$1", .symbol .add, .number Decimal.one]) =
      evaluate (.ofDepth 2 (by decide) (by decide))
        [.call "f", .symbol .parenOpen, .number Decimal.one, .symbol .parenClose] .empty
        (Bindings.empty.insert "f" [.read "$1", .symbol .add, .number Decimal.one]) ∧
    Outcome.result (evaluate (.ofDepth 2 (by decide) (by decide))
        [.call "f", .symbol .parenOpen, .number Decimal.one, .symbol .parenClose] .empty
        (Bindings.empty.insert "f" [.read "$1", .symbol .add, .number Decimal.one])) =
      .ok (.finite false 2 0) := by
  have hvalue : Outcome.result (evaluate (.ofDepth 2 (by decide) (by decide))
      [.call "f", .symbol .parenOpen, .number Decimal.one, .symbol .parenClose] .empty
      (Bindings.empty.insert "f" [.read "$1", .symbol .add, .number Decimal.one])) =
        .ok (.finite false 2 0) := by
    decide +kernel
  refine ⟨evaluate_eq_of_maxDepth_le _ Settings.default _ _ _ rfl rfl (by decide) ?_, hvalue⟩
  intro bound h
  rw [hvalue] at h
  cases h

end DecimalCalculator
