import DecimalCalculator.Proofs.Arithmetic.Failures
import DecimalCalculator.Proofs.Evaluation.Nested

/-!
# Two evaluators of nested expressions

An expression is evaluated with the help of an evaluator for the expressions nested in it. If two
such evaluators agree where nested expressions are evaluated, then so do the evaluations built on
them (`expression_agree_of_nests`), also under settings that differ in the greatest depth or in the
stack. Agreement may be weaker than equality: the first of the two may have given up with a failure
from a given set, and one may ask that other failures lie in a given set.

Where nested expressions are evaluated is known in advance up to a point (`expression_agree`). An
assignment evaluates its right-hand side at the same depth, with at least one token gone. Groups,
arguments and bodies lie one level deeper.

By induction on the bound, whole evaluations agree (`Comparable.calculate_agree`): a larger bound, a
larger stack and a greater depth are seen only where something is refused.
-/
namespace DecimalCalculator

namespace Eval

open Context

variable {α β : Type}

/-- The failure of an evaluation that would have more expressions open than the bound allows. -/
def outOfBound : Failure := .calculation (.tooDeep .expressions)

/-- Two outcomes are the same, with a failure of one kind if with any, unless the first has given
up with a failure of the other kind. -/
def Agree (gives own : Failure → Prop) (o o' : Outcome α) : Prop :=
  (∃ failure c, o = .error failure c ∧ gives failure) ∨
    o = o' ∧ ∀ failure c, o = .error failure c → own failure

/-- Evaluations under the first settings agree with those under the second if those of the nested
expressions do. Nothing but the greatest depth and the stack may be different, and what only the
first settings refuse makes them give up. -/
structure Comparable (gives own : Failure → Prop) (settings settings' : Settings) : Prop where
  memory : settings.memory = settings'.memory
  precision : settings.precision = settings'.precision
  maxDepth : settings.maxDepth ≤ settings'.maxDepth
  capture (tokens : TokenStream) :
    capture settings.maxDepth 1 tokens = capture settings'.maxDepth 1 tokens ∨
      ∃ rest, capture settings.maxDepth 1 tokens = (.error (.tooDeep .definition), rest) ∧
        gives (CalcError.tooDeep .definition)
  own (failure : Failure) : failure ≠ outOfBound → failure ≠ CalcError.tooDeep .depth → own failure

variable {gives own : Failure → Prop}

theorem agree_ok (a : α) (c : Context) : Agree gives own (.ok a c : Outcome α) (.ok a c) :=
  .inr ⟨rfl, by intro _ _ h; cases h⟩

theorem agree_error {failure : Failure} (h : own failure) (c : Context) :
    Agree gives own (.error failure c : Outcome α) (.error failure c) :=
  .inr ⟨rfl, by rintro _ _ ⟨⟩; exact h⟩

theorem Agree.eq {o o' : Outcome α} (h : Agree (fun _ => False) own o o') : o = o' := by
  rcases h with ⟨-, -, -, h⟩ | ⟨h, -⟩
  · exact h.elim
  · exact h

theorem Agree.result_ne {o o' : Outcome α} {failure : Failure}
    (h : Agree (fun _ => False) (· ≠ failure) o o') : Outcome.result o ≠ .error failure := by
  rcases h with ⟨-, -, -, h⟩ | ⟨-, hown⟩
  · exact h.elim
  · cases o with
    | ok a c => exact nofun
    | error other c =>
      rintro ⟨⟩
      exact hown _ c rfl rfl

theorem Agree.mapContext {o o' : Outcome α} (h : Agree gives own o o') (f : Context → Context) :
    Agree gives own (Outcome.mapContext f o) (Outcome.mapContext f o') := by
  rcases h with ⟨failure, c, rfl, hgives⟩ | ⟨rfl, hown⟩
  · exact .inl ⟨failure, f c, rfl, hgives⟩
  · cases o with
    | ok a c => exact agree_ok a (f c)
    | error failure c => exact agree_error (hown failure c rfl) (f c)

theorem Agree.bind {m m' : Eval α} {f f' : α → Eval β} {c : Context}
    (hm : Agree gives own (m c) (m' c))
    (hf : ∀ a d, m c = .ok a d → Agree gives own (f a d) (f' a d)) :
    Agree gives own ((m >>= f) c) ((m' >>= f') c) := by
  rcases hm with ⟨failure, d, h, hgives⟩ | ⟨hsame, hown⟩
  · rw [bind_error h]
    exact .inl ⟨failure, d, rfl, hgives⟩
  · cases h : m c with
    | ok a d =>
      rw [bind_ok h, bind_ok (hsame ▸ h)]
      exact hf a d h
    | error failure d =>
      rw [bind_error h, bind_error (hsame ▸ h)]
      exact agree_error (hown failure d h) d

/-! ## Chains -/

theorem agree_operands {operators : List Symbol} {m m' : Eval α} {c : Context} (bound : TokenStream)
    (h : ∀ op rest d, c.tokens = .symbol op :: rest → op ∈ operators →
      OperandAt operators m {c with tokens := rest} d → Agree gives own (m d) (m' d)) :
    Agree gives own (operands operators m bound c) (operands operators m' bound c) := by
  induction bound generalizing c with
  | nil => exact agree_ok [] c
  | cons t bound ih =>
    obtain ⟨op, rest, htokens, hop, hsome⟩ | ⟨-, hnone⟩ := acceptOneOf_cases operators c
    · have hfirst := h op rest _ htokens hop (.first _)
      rw [operands_of_some hsome, operands_of_some hsome]
      refine hfirst.bind fun a d ha => Agree.bind ?_ fun others e _ => agree_ok _ e
      exact ih fun op' rest' d' htokens' hop' hd' =>
        h op rest d' htokens hop (.next ha htokens' hop' hd')
    · rw [operands_of_none hnone, operands_of_none hnone]
      exact agree_ok [] c

/-- A chain and what is made of its operands agree if its operands do. -/
theorem agree_chain {operators : List Symbol} {m m' : Eval α} {c : Context}
    {f f' : α → List (Symbol × α) → Eval β}
    (hm : ∀ d, OperandAt operators m c d → Agree gives own (m d) (m' d))
    (hf : ∀ first rest d, Agree gives own (f first rest d) (f' first rest d)) :
    Agree gives own
      ((do
        let first ← m
        let rest ← allOperands operators m
        f first rest) c)
      ((do
        let first ← m'
        let rest ← allOperands operators m'
        f' first rest) c) := by
  refine (hm c (.first c)).bind fun first d hfirst => Agree.bind ?_ fun rest e _ => hf first rest e
  exact agree_operands d.tokens fun op rest e htokens hop he =>
    hm e (.next hfirst htokens hop he)

theorem foldBack_failsArithmetically {apply : Symbol → α → α → Except Failure α}
    (happly : ∀ op a b, Arithmetic.FailsArithmetically (apply op a b)) (first : α)
    (rest : List (Symbol × α)) : Arithmetic.FailsArithmetically (foldBack apply first rest) := by
  induction rest generalizing first with
  | nil => exact Arithmetic.failsArithmetically_ok first
  | cons pair rest ih => exact .bind (ih pair.2) fun second => happly pair.1 first second

/-! ## Atoms -/

section

variable {settings settings' : Settings} (hsettings : Comparable gives own settings settings')
include hsettings

theorem Comparable.agree_calculation {error : CalcError} (h : ∀ bound, error ≠ .tooDeep bound)
    (c : Context) :
    Agree gives own (.error error c : Outcome α) (.error error c) := by
  refine agree_error (hsettings.own _ ?_ ?_) c
  · rintro ⟨⟩
    exact h _ rfl
  · rintro ⟨⟩
    exact h _ rfl

theorem Comparable.agree_ofExcept {x : Except Failure α} (hx : Arithmetic.FailsArithmetically x)
    (c : Context) : Agree gives own (ofExcept x c) (ofExcept x c) := by
  cases x with
  | ok a => exact agree_ok a c
  | error failure =>
    have harithmetic := hx failure rfl
    refine agree_error (hsettings.own _ ?_ ?_) c
    · rintro rfl
      exact harithmetic
    · rintro rfl
      exact harithmetic

theorem Comparable.agree_sole (values : List Decimal) (c : Context) :
    Agree gives own (sole values c) (sole values c) := by
  unfold sole
  split
  · exact agree_ok _ c
  · exact hsettings.agree_calculation (by simp [CalcError.wrongCount]) c

theorem Comparable.agree_lookup (name : String) (c : Context) :
    Agree gives own (lookup name c) (lookup name c) := by
  unfold lookup
  split
  · exact agree_ok _ c
  · exact hsettings.agree_calculation (by simp) c

theorem Comparable.agree_define (name : String) (c : Context) :
    Agree gives own (define settings name c) (define settings' name c) := by
  rcases hsettings.capture c.tokens with hsame | ⟨rest, hgiven, hgives⟩
  · unfold define
    rw [← hsame]
    split
    · exact agree_ok _ _
    · next error rest hcap =>
      have herror := capture_error (congrArg Prod.fst hcap)
      refine agree_error (hsettings.own _ ?_ ?_) _
      · rintro ⟨⟩
        simp at herror
      · rintro ⟨⟩
        simp at herror
  · rw [define_of_capture_error name hgiven]
    exact .inl ⟨_, _, rfl, hgives⟩

variable {inner inner' : Eval Decimal}

theorem Comparable.agree_arguments {c : Context}
    (hinner : ∀ d, ArgumentAt inner c d → Agree gives own (inner d) (inner' d)) :
    Agree gives own (arguments inner c) (arguments inner' c) := by
  by_cases h : c.tokens.head? = some (.symbol .parenClose)
  · obtain ⟨rest, hrest⟩ := List.head?_eq_some_iff.1 h
    rw [arguments_empty hrest, arguments_empty hrest]
    exact agree_ok _ _
  · rw [arguments_items h, arguments_items h]
    refine Agree.bind ?_ fun values d _ => ?_
    · rw [inGroup_apply, inGroup_apply]
      refine Agree.mapContext ?_ Context.leaveGroup
      exact agree_chain (fun d hd => hinner d ⟨h, hd⟩) fun _ _ d => agree_ok _ d
    · by_cases hclose : d.tokens.head? = some (.symbol .parenClose)
      · obtain ⟨rest, hrest⟩ := List.head?_eq_some_iff.1 hclose
        rw [close_cons values hrest]
        exact agree_ok _ _
      · rw [close_of_ne values hclose]
        exact hsettings.agree_calculation (by simp) d

theorem Comparable.agree_call {c : Context} {name : String} (actuals : List Decimal)
    (hinner : ∀ body, name ≠ "abs" → name ≠ "pow" → c.functions.get? name = some body →
      Agree gives own (inner (c.enterBody name body actuals))
        (inner' (c.enterBody name body actuals))) :
    Agree gives own (call settings inner name actuals c)
      (call settings' inner' name actuals c) := by
  by_cases habs : name = "abs"
  · unfold call
    rw [if_pos habs, if_pos habs]
    split
    · exact agree_ok _ c
    · exact hsettings.agree_calculation (by simp [CalcError.wrongCount]) c
  by_cases hpow : name = "pow"
  · unfold call
    rw [if_neg habs, if_neg habs, if_pos hpow, if_pos hpow, hsettings.memory,
      hsettings.precision]
    split
    · exact hsettings.agree_ofExcept (Arithmetic.failsArithmetically_power _ _ _ _) c
    · exact hsettings.agree_calculation (by simp [CalcError.wrongCount]) c
  cases hbody : c.functions.get? name with
  | none =>
    rw [call_unknown habs hpow hbody, call_unknown habs hpow hbody]
    exact hsettings.agree_calculation (by simp) c
  | some body =>
    rw [call_user habs hpow hbody, call_user habs hpow hbody, callBody_apply, callBody_apply]
    exact (hinner body habs hpow hbody).mapContext _

theorem Comparable.agree_atom {c : Context}
    (hinner : ∀ place d, Opens inner c place d → Agree gives own (inner d) (inner' d)) :
    Agree gives own (atom settings inner c) (atom settings' inner' c) := by
  cases htokens : c.tokens with
  | nil =>
    rw [atom_nil htokens, atom_nil htokens]
    exact hsettings.agree_calculation (by simp) c
  | cons t rest =>
    cases t with
    | symbol s =>
      by_cases hs : s = .parenOpen
      · subst hs
        rw [atom_group htokens, atom_group htokens]
        refine (hsettings.agree_arguments fun d hd => ?_).bind fun values d _ =>
          hsettings.agree_sole values d
        exact hinner .group d (.group htokens hd)
      · rw [atom_symbol htokens hs, atom_symbol htokens hs]
        exact hsettings.agree_calculation (by simp) _
    | number value =>
      rw [atom_number htokens, atom_number htokens]
      exact agree_ok _ _
    | read name =>
      rw [atom_read htokens, atom_read htokens]
      exact hsettings.agree_lookup name _
    | call name =>
      by_cases hopen : rest.head? = some (.symbol .parenOpen)
      · obtain ⟨more, rfl⟩ := List.head?_eq_some_iff.1 hopen
        rw [atom_call htokens, atom_call htokens]
        refine (hsettings.agree_arguments fun d hd => ?_).bind fun actuals d hactuals =>
          hsettings.agree_call actuals fun body habs hpow hbody => ?_
        · exact hinner .group d (.argument htokens hd)
        · exact hinner .body _ (.body htokens hactuals habs hpow hbody)
      · rw [atom_call_of_ne htokens hopen, atom_call_of_ne htokens hopen]
        exact hsettings.agree_calculation (by simp) _
    | assign name =>
      by_cases hopen : rest.head? = some (.symbol .parenOpen)
      · obtain ⟨more, rfl⟩ := List.head?_eq_some_iff.1 hopen
        rw [atom_define htokens, atom_define htokens]
        exact (hsettings.agree_define name _).bind fun _ d _ => agree_ok _ d
      · rw [atom_assign htokens hopen, atom_assign htokens hopen]
        exact (hinner .assigned _ (.assigned htokens hopen)).bind fun _ _ _ => agree_ok _ _

/-! ## Expressions -/

theorem Comparable.agree_complemented {c : Context}
    (hatom : Agree gives own (atom settings inner c.behindSigns)
      (atom settings' inner' c.behindSigns)) :
    Agree gives own (complemented settings inner c) (complemented settings' inner' c) := by
  have hrun (s : Symbol) (d : Context) : Agree gives own (takeRun s d) (takeRun s d) := agree_ok _ _
  refine (hrun .not c).bind fun count d hd => ?_
  have hprimary : Agree gives own (primary settings inner d) (primary settings' inner' d) := by
    refine (hrun .sub d).bind fun signs e he => Agree.bind ?_ fun value e' _ => agree_ok _ e'
    cases hd
    cases he
    exact hatom
  exact hprimary.bind fun value e _ =>
    hsettings.agree_ofExcept (Arithmetic.failsArithmetically_complements count value) e

theorem Comparable.agree_operand {c : Context}
    (hatom : Agree gives own (atom settings inner c.behindSigns)
      (atom settings' inner' c.behindSigns)) :
    Agree gives own (operand settings inner c) (operand settings' inner' c) := by
  refine (hsettings.agree_complemented hatom).bind fun value d _ => ?_
  have haccept : Agree gives own (accept (.symbol .factorial) d)
      (accept (.symbol .factorial) d) := by
    rcases accept_cases .factorial d with ⟨rest, -, haccept⟩ | ⟨-, haccept⟩ <;> rw [haccept] <;>
      exact agree_ok _ _
  refine haccept.bind fun taken e _ => ?_
  cases taken with
  | none => exact agree_ok value e
  | some _ =>
    simp only [hsettings.memory]
    exact hsettings.agree_ofExcept (Arithmetic.failsArithmetically_factorial _ value) e

theorem Comparable.agree_cascade {tiers : List Level} {c : Context}
    (hatom : ∀ e, LevelAt settings inner tiers c [] e →
      Agree gives own (atom settings inner e.behindSigns) (atom settings' inner' e.behindSigns)) :
    Agree gives own (cascade settings inner tiers c) (cascade settings' inner' tiers c) := by
  induction tiers generalizing c with
  | nil => exact hsettings.agree_operand (hatom c (.here [] c))
  | cons level rest ih =>
    refine agree_chain (fun d hd => ih fun e he => hatom e (.operand hd he))
      fun first others d => ?_
    rw [hsettings.memory, hsettings.precision]
    exact hsettings.agree_ofExcept (foldBack_failsArithmetically
      (fun op a b => Arithmetic.failsArithmetically_apply _ _ _ _ a b) first others) d

/-- Expressions agree if those that are nested in them do. -/
theorem Comparable.expression_agree_of_nests {c : Context}
    (hinner : ∀ place d, Nests settings inner c place d → Agree gives own (inner d) (inner' d))
    (hdepth : c.depth < settings.maxDepth) :
    Agree gives own (expression settings inner c) (expression settings' inner' c) := by
  have hdepth' : c.depth < settings'.maxDepth :=
    Int.lt_of_lt_of_le hdepth (Int.ofNat_le.2 hsettings.maxDepth)
  rw [expression_of_lt hdepth, expression_of_lt hdepth']
  refine (hsettings.agree_cascade fun e he => hsettings.agree_atom fun place d hd => ?_).bind
    fun value d _ => ?_
  · exact hinner place d ⟨e, ⟨hdepth, he⟩, hd⟩
  · by_cases hend : d.AtEnd
    · rw [bind_ok (finish_of_atEnd hend)]
      exact agree_ok _ _
    · obtain ⟨t, rest, -, hfinish⟩ := finish_of_not_atEnd hend
      rw [bind_error hfinish]
      exact hsettings.agree_calculation (by simp) _

end

variable {settings : Settings} {inner inner' : Eval Decimal} {base : Context}

theorem comparable_self (hown : ∀ failure, failure ≠ outOfBound →
    failure ≠ CalcError.tooDeep .depth → own failure) : Comparable gives own settings settings where
  memory := rfl
  precision := rfl
  maxDepth := Nat.le_refl _
  capture := fun _ => .inl rfl
  own := hown

/-- Expressions whose nested expressions are evaluated alike are evaluated alike. -/
theorem expression_agree (hown : ∀ failure, failure ≠ outOfBound → own failure)
    (hkeeps : Keeps Follows inner)
    (hinner : base.depth < settings.maxDepth → ∀ d, base.Enters d →
      Agree gives own (inner d) (inner' d)) :
    Agree gives own (expression settings inner base) (expression settings inner' base) := by
  by_cases hdepth : base.depth < settings.maxDepth
  · exact (comparable_self fun failure h _ => hown failure h).expression_agree_of_nests
      (fun _ d hd => hinner hdepth d (hd.enters hkeeps)) hdepth
  · rw [expression_of_le (Int.not_lt.1 hdepth), expression_of_le (Int.not_lt.1 hdepth)]
    exact agree_error (hown _ (by simp [outOfBound])) base

/-- Evaluations agree under comparable settings, if the first gives up where it meets the limit on
open expressions, and either gives up where it is nested too deeply or is so together with the
second. -/
theorem Comparable.calculate_agree {gives own : Failure → Prop} {settings settings' : Settings}
    (h : Comparable gives own settings settings') (hlimit : gives outOfBound)
    (hrefused : gives (CalcError.tooDeep .depth) ∨
      settings.maxDepth = settings'.maxDepth ∧ own (CalcError.tooDeep .depth))
    {bound bound' : Nat} (hbound : bound ≤ bound') (c : Context) :
    Agree gives own (calculate settings bound c) (calculate settings' bound' c) := by
  induction bound generalizing bound' c with
  | zero => exact .inl ⟨_, c, rfl, hlimit⟩
  | succ bound ih =>
    obtain ⟨more, rfl⟩ : ∃ more, bound' = more + 1 := ⟨bound' - 1, by omega⟩
    by_cases hdepth : c.depth < settings.maxDepth
    · exact h.expression_agree_of_nests (fun _ d _ => ih (by omega) d) hdepth
    · have hfirst : calculate settings (bound + 1) c = .error (CalcError.tooDeep .depth) c :=
        expression_of_le (Int.not_lt.1 hdepth)
      rcases hrefused with hgives | ⟨hsame, hown⟩
      · exact .inl ⟨_, c, hfirst, hgives⟩
      · rw [hfirst, calculate, expression_of_le (Int.not_lt.1 (hsame ▸ hdepth))]
        exact agree_error hown c

end Eval

end DecimalCalculator
