import DecimalCalculator.Proofs.Evaluation.Steps
import DecimalCalculator.Proofs.Syntax.Nesting
import Mathlib.Tactic.SplitIfs

/-!
# What evaluations keep

A relation between contexts is lasting when it holds across every step that an evaluation makes in
its own tokens: dropping tokens, assigning after the right-hand side has been evaluated, and storing
a captured body. It then holds across a whole expression if it does across the groups and bodies in
it (`Lasting.expression`).

A relation is stable when it also comes back from the inside of a group or a body to what is around
it. A stable relation holds between the context in which an evaluation starts and the one that it
leaves, whether it returns or fails and however many expressions may be open (`Stable.calculate`).

Every invariant of whole runs is an instance: it names its relation and checks the steps. An
invariant that is not the same inside a group as around it is lasting only.
-/
namespace DecimalCalculator

namespace Eval

variable {α β : Type}

/-- The relation holds between the start of a computation and its end, however it comes. -/
def Keeps (R : Context → Context → Prop) (m : Eval α) : Prop :=
  ∀ c, R c (Outcome.context (m c))

/-- The relation holds across every step that an evaluation makes in its own tokens. -/
structure Lasting (settings : Settings) (R : Context → Context → Prop) : Prop where
  refl (c : Context) : R c c
  trans {a b c : Context} : R a b → R b c → R a c
  drop {c : Context} {rest : List Token} : rest <:+ c.tokens → R c {c with tokens := rest}
  assign {c d : Context} {name : String} {rest : List Token} (value : Decimal) :
    c.tokens = .assign name :: rest → R {c with tokens := rest} d →
    R c {d with values := d.values.insert name value}
  define {c : Context} {name : String} {body rest after : List Token} :
    c.tokens = .assign name :: .symbol .parenOpen :: rest →
    capture settings.maxDepth 1 rest = (.ok body, after) →
    R c ({c with tokens := after, functions := c.functions.insert name body}.record
      (.define name body.length))

/-- The relation holds across every step of an evaluation. -/
structure Stable (settings : Settings) (R : Context → Context → Prop) : Prop
    extends Lasting settings R where
  group {c d : Context} : R c.enterGroup d → R c d.leaveGroup
  body {c d : Context} {name : String} {body : List Token} (actuals : List Decimal) :
    c.functions.get? name = some body → R (c.enterBody name body actuals) d →
    R c (c.leaveBody actuals.length d)

section

variable {settings : Settings} {R : Context → Context → Prop} (hR : Lasting settings R)
include hR

theorem Lasting.drop_cons {c : Context} {t : Token} {rest : List Token} (h : c.tokens = t :: rest) :
    R c {c with tokens := rest} :=
  hR.drop (h ▸ List.suffix_cons t rest)

theorem Lasting.pure (a : α) : Keeps R (Pure.pure a : Eval α) := fun c => hR.refl c

theorem Lasting.fail (error : CalcError) : Keeps R (Eval.fail error : Eval α) := fun c => hR.refl c

theorem Lasting.ofExcept (result : Except Failure α) : Keeps R (Eval.ofExcept result) := by
  intro c
  cases result <;> exact hR.refl c

theorem Lasting.bind {m : Eval α} {f : α → Eval β} (hm : Keeps R m) (hf : ∀ a, Keeps R (f a)) :
    Keeps R (m >>= f) := by
  intro c
  have hfirst := hm c
  cases h : m c with
  | ok a d =>
    rw [h] at hfirst
    rw [bind_ok h]
    exact hR.trans hfirst (hf a d)
  | error failure d =>
    rw [h] at hfirst
    rw [bind_error h]
    exact hfirst

/-- One token is gone, and what comes after keeps the relation. -/
theorem Lasting.after_cons {c : Context} {t : Token} {rest : List Token} {m : Eval α}
    (h : c.tokens = t :: rest) (hm : Keeps R m) :
    R c (Outcome.context (m {c with tokens := rest})) :=
  hR.trans (hR.drop_cons h) (hm _)

theorem Lasting.accept (s : Symbol) : Keeps R (Eval.accept (.symbol s)) := by
  intro c
  rcases accept_cases s c with ⟨rest, htokens, h⟩ | ⟨_, h⟩
  · rw [h]
    exact hR.drop_cons htokens
  · rw [h]
    exact hR.refl c

theorem Lasting.acceptOneOf (symbols : List Symbol) : Keeps R (Eval.acceptOneOf symbols) := by
  intro c
  rcases acceptOneOf_cases symbols c with ⟨s, rest, htokens, _, h⟩ | ⟨_, h⟩
  · rw [h]
    exact hR.drop_cons htokens
  · rw [h]
    exact hR.refl c

theorem Lasting.takeRun (s : Symbol) : Keeps R (Eval.takeRun s) :=
  fun _ => hR.drop (List.dropWhile_suffix _)

theorem Lasting.operands (operators : List Symbol) {operand : Eval α} (hm : Keeps R operand)
    (bound : TokenStream) : Keeps R (Eval.operands operators operand bound) := by
  induction bound with
  | nil => exact hR.pure []
  | cons t bound ih =>
    refine hR.bind (hR.acceptOneOf operators) fun op => ?_
    cases op with
    | none => exact hR.pure []
    | some op => exact hR.bind hm fun value => hR.bind ih fun rest => hR.pure _

theorem Lasting.allOperands (operators : List Symbol) {operand : Eval α} (hm : Keeps R operand) :
    Keeps R (Eval.allOperands operators operand) :=
  fun c => hR.operands operators hm c.tokens c

theorem Lasting.chain (operators : List Symbol)
    (apply : Symbol → α → α → Except Failure α) {operand : Eval α} (hm : Keeps R operand) :
    Keeps R (Eval.chain operators apply operand) :=
  hR.bind hm fun _ => hR.bind (hR.allOperands operators hm) fun _ => hR.ofExcept _

theorem Lasting.finish : Keeps R Eval.finish := by
  intro c
  by_cases h : c.AtEnd
  · rw [finish_of_atEnd h]
    exact hR.refl c
  · obtain ⟨t, rest, htokens, hfinish⟩ := finish_of_not_atEnd h
    rw [hfinish]
    exact hR.drop_cons htokens

/-! ## Expressions, given their groups and bodies -/

section

variable {inner : Eval Decimal}

theorem Lasting.items (hinner : Keeps R inner) : Keeps R (Eval.items inner) :=
  hR.bind hinner fun _ => hR.bind (hR.allOperands _ hinner) fun _ => hR.pure _

theorem Lasting.arguments (hgroup : Keeps R (inGroup (Eval.items inner))) :
    Keeps R (Eval.arguments inner) := by
  intro c
  by_cases h : c.tokens.head? = some (.symbol .parenClose)
  · obtain ⟨rest, hrest⟩ := List.head?_eq_some_iff.1 h
    rw [arguments_empty hrest]
    exact hR.drop_cons hrest
  · rw [arguments_items h]
    refine hR.bind hgroup (fun values => hR.bind (hR.accept .parenClose) fun taken => ?_) c
    cases taken with
    | none => exact hR.fail _
    | some _ => exact hR.pure values

theorem Lasting.call
    (hbody : ∀ name body actuals c, c.functions.get? name = some body →
      R c (Outcome.context (callBody inner name body actuals c)))
    (name : String) (actuals : List Decimal) :
    Keeps R (Eval.call settings inner name actuals) := by
  intro c
  by_cases habs : name = "abs"
  · unfold Eval.call
    rw [if_pos habs]
    split <;> exact hR.refl c
  by_cases hpow : name = "pow"
  · unfold Eval.call
    rw [if_neg habs, if_pos hpow]
    split
    · exact hR.ofExcept _ c
    · exact hR.refl c
  cases hstored : c.functions.get? name with
  | none =>
    rw [call_unknown habs hpow hstored]
    exact hR.refl c
  | some body =>
    rw [call_user habs hpow hstored]
    exact hbody name body actuals c hstored

theorem Lasting.atom (hinner : Keeps R inner) (harguments : Keeps R (Eval.arguments inner))
    (hcall : ∀ name actuals, Keeps R (Eval.call settings inner name actuals)) :
    Keeps R (Eval.atom settings inner) := by
  intro c
  cases htokens : c.tokens with
  | nil =>
    rw [atom_nil htokens]
    exact hR.refl c
  | cons t rest =>
    cases t with
    | symbol s =>
      by_cases hs : s = .parenOpen
      · subst hs
        rw [atom_group htokens]
        refine hR.after_cons htokens (hR.bind harguments fun values => ?_)
        unfold sole
        split
        · exact hR.pure _
        · exact hR.fail _
      · rw [atom_symbol htokens hs]
        exact hR.drop_cons htokens
    | number value =>
      rw [atom_number htokens]
      exact hR.drop_cons htokens
    | read name =>
      rw [atom_read htokens]
      refine hR.after_cons htokens fun d => ?_
      unfold lookup
      split <;> exact hR.refl d
    | call name =>
      by_cases hrest : rest.head? = some (.symbol .parenOpen)
      · obtain ⟨more, rfl⟩ := List.head?_eq_some_iff.1 hrest
        rw [atom_call htokens]
        have hmore : R c {c with tokens := more} :=
          hR.drop (htokens ▸ List.suffix_append [_, _] more)
        refine hR.trans hmore ?_
        exact hR.bind harguments (fun values => hcall name values) _
      · rw [atom_call_of_ne htokens hrest]
        exact hR.drop_cons htokens
    | assign name =>
      by_cases hrest : rest.head? = some (.symbol .parenOpen)
      · obtain ⟨more, rfl⟩ := List.head?_eq_some_iff.1 hrest
        rw [atom_define htokens]
        cases hcap : capture settings.maxDepth 1 more with
        | mk captured after =>
          have hafter : after <:+ c.tokens :=
            htokens ▸ (suffix_of_capture hcap).trans (List.suffix_append [_, _] more)
          cases captured with
          | error error =>
            rw [bind_error (define_of_capture_error name (c := {c with tokens := more}) hcap)]
            exact hR.drop hafter
          | ok body =>
            rw [bind_ok (define_of_capture_ok name (c := {c with tokens := more}) hcap)]
            exact hR.define htokens hcap
      · rw [atom_assign htokens hrest]
        have hvalue := hinner {c with tokens := rest}
        cases h : inner {c with tokens := rest} with
        | ok value d =>
          rw [h] at hvalue
          rw [bind_ok h]
          exact hR.assign value htokens hvalue
        | error failure d =>
          rw [h] at hvalue
          rw [bind_error h]
          exact hR.trans (hR.drop_cons htokens) hvalue

variable (hatom : Keeps R (Eval.atom settings inner))
include hatom

theorem Lasting.primary : Keeps R (Eval.primary settings inner) :=
  hR.bind (hR.takeRun .sub) fun _ => hR.bind hatom fun _ => hR.pure _

theorem Lasting.complemented : Keeps R (Eval.complemented settings inner) :=
  hR.bind (hR.takeRun .not) fun _ => hR.bind (hR.primary hatom) fun _ => hR.ofExcept _

theorem Lasting.operand : Keeps R (Eval.operand settings inner) := by
  refine hR.bind (hR.complemented hatom) fun value =>
    hR.bind (hR.accept .factorial) fun taken => ?_
  cases taken with
  | none => exact hR.pure value
  | some _ => exact hR.ofExcept _

theorem Lasting.cascade (tiers : List Level) : Keeps R (Eval.cascade settings inner tiers) := by
  induction tiers with
  | nil => exact hR.operand hatom
  | cons level rest ih => exact hR.chain level.operators _ ih

theorem Lasting.expression : Keeps R (Eval.expression settings inner) := by
  intro c
  by_cases h : c.depth < settings.maxDepth
  · rw [expression_of_lt h]
    exact hR.bind (hR.cascade hatom levels) (fun value =>
      hR.bind hR.finish fun _ => hR.pure value) c
  · rw [expression_of_le (Int.not_lt.1 h)]
    exact hR.refl c

end

end

/-! ## Stable relations -/

section

variable {settings : Settings} {R : Context → Context → Prop} (hR : Stable settings R)
include hR

variable {inner : Eval Decimal} (hinner : Keeps R inner)
include hinner

theorem Stable.arguments : Keeps R (Eval.arguments inner) := by
  refine hR.toLasting.arguments fun c => ?_
  rw [inGroup_apply, Outcome.context_mapContext]
  exact hR.group (hR.items hinner _)

theorem Stable.call (name : String) (actuals : List Decimal) :
    Keeps R (Eval.call settings inner name actuals) := by
  refine hR.toLasting.call (fun name body actuals c hbody => ?_) name actuals
  rw [callBody_apply, Outcome.context_mapContext]
  exact hR.body actuals hbody (hinner _)

theorem Stable.atom : Keeps R (Eval.atom settings inner) :=
  hR.toLasting.atom hinner (hR.arguments hinner) (hR.call hinner)

theorem Stable.primary : Keeps R (Eval.primary settings inner) :=
  hR.toLasting.primary (hR.atom hinner)

theorem Stable.complemented : Keeps R (Eval.complemented settings inner) :=
  hR.toLasting.complemented (hR.atom hinner)

theorem Stable.operand : Keeps R (Eval.operand settings inner) :=
  hR.toLasting.operand (hR.atom hinner)

theorem Stable.cascade (tiers : List Level) : Keeps R (Eval.cascade settings inner tiers) :=
  hR.toLasting.cascade (hR.atom hinner) tiers

theorem Stable.expression : Keeps R (Eval.expression settings inner) :=
  hR.toLasting.expression (hR.atom hinner)

omit hinner in
theorem Stable.calculate (bound : Nat) : Keeps R (Eval.calculate settings bound) := by
  induction bound with
  | zero => exact hR.fail _
  | succ bound ih => exact hR.expression ih

end

end Eval

end DecimalCalculator
