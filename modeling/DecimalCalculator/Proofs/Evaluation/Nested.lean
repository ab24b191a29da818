import DecimalCalculator.Proofs.Evaluation.Progress

/-!
# Nested expressions

An expression has others nested in it: in parentheses and among arguments, in the bodies of the
functions that it calls, and on the right of assignments. This module says in which contexts they
are evaluated. A chain evaluates its first operand where it stands itself, and every further operand
behind an operator, in the context that the operands before it have left (`OperandAt`). This leads
through the levels (`LevelAt`) to the atoms, and an atom opens what is nested in it (`Opens`).
`Visits` follows the nesting to any depth, with the places that are passed on the way.

The relations are exact. Two evaluators that agree where they say evaluate alike, which is shown
where agreement is, and a failure in a context that is visited is the failure of the whole
evaluation (`Visits.error`).
-/
namespace DecimalCalculator

/-- Where an expression is nested in another: in parentheses, as an argument included, in the body
of a function that is called, or on the right of an assignment. -/
inductive Place where
  | group
  | body
  | assigned
  deriving DecidableEq, Repr

/-- How the context of a nested expression comes from the one in which it is opened. -/
def Place.Leads (R : Context → Context → Prop) : Place → Context → Context → Prop
  | .group, e, d => R e.enterGroup d
  | .body, e, d => ∃ name body actuals, e.functions.get? name = some body ∧
      d = e.enterBody name body actuals
  | .assigned, e, d => ∃ t rest, e.tokens = t :: rest ∧ d = {e with tokens := rest}

def Context.behindSigns (c : Context) : Context :=
  {c with tokens := (c.tokens.dropWhile (· == .symbol .not)).dropWhile (· == .symbol .sub)}

namespace Eval

open Context

variable {α β : Type}

/-- A chain that is evaluated at `c` evaluates an operand in the second context. -/
inductive OperandAt (operators : List Symbol) (operand : Eval α) : Context → Context → Prop
  | first (c : Context) : OperandAt operators operand c c
  | next {c d e : Context} {a : α} {op : Symbol} {rest : List Token} :
    operand c = .ok a d → d.tokens = .symbol op :: rest → op ∈ operators →
    OperandAt operators operand {d with tokens := rest} e → OperandAt operators operand c e

section

variable (settings : Settings) (inner : Eval Decimal)

/-- The first levels, evaluated at the first context, evaluate the second ones at the second
context. -/
inductive LevelAt : List Level → Context → List Level → Context → Prop
  | here (tiers : List Level) (c : Context) : LevelAt tiers c tiers c
  | operand {level : Level} {rest tiers : List Level} {c d e : Context} :
    OperandAt level.operators (cascade settings inner rest) c d → LevelAt rest d tiers e →
    LevelAt (level :: rest) c tiers e

/-- An expression evaluated at `c` is not too deep, and evaluates the given levels at `e`. -/
def ReachesLevel (c : Context) (tiers : List Level) (e : Context) : Prop :=
  c.depth < settings.maxDepth ∧ LevelAt settings inner levels c tiers e

/-- The arguments that begin at `c`, of which there is at least one, evaluate one at `d`. -/
def ArgumentAt (c d : Context) : Prop :=
  c.tokens.head? ≠ some (.symbol .parenClose) ∧ OperandAt [.separator] inner c.enterGroup d

/-- The atom at `c` evaluates an expression that is nested in it at `d`. -/
inductive Opens : Context → Place → Context → Prop
  | group {c d : Context} {rest : List Token} : c.tokens = .symbol .parenOpen :: rest →
    ArgumentAt inner {c with tokens := rest} d → Opens c .group d
  | argument {c d : Context} {name : String} {rest : List Token} :
    c.tokens = .call name :: .symbol .parenOpen :: rest →
    ArgumentAt inner {c with tokens := rest} d → Opens c .group d
  | body {c d : Context} {name : String} {rest body : List Token} {actuals : List Decimal} :
    c.tokens = .call name :: .symbol .parenOpen :: rest →
    arguments inner {c with tokens := rest} = .ok actuals d → name ≠ "abs" → name ≠ "pow" →
    d.functions.get? name = some body → Opens c .body (d.enterBody name body actuals)
  | assigned {c : Context} {name : String} {rest : List Token} : c.tokens = .assign name :: rest →
    rest.head? ≠ some (.symbol .parenOpen) → Opens c .assigned {c with tokens := rest}

/-- An expression that is evaluated at `c` evaluates one that is nested directly in it at `d`. -/
def Nests (c : Context) (place : Place) (d : Context) : Prop :=
  ∃ e, ReachesLevel settings inner c [] e ∧ Opens inner e.behindSigns place d

end

/-- The evaluation at `c` with the first bound comes to evaluate the expression at the second
context with the second bound, which is nested in it through the given places, the outermost
first. -/
inductive Visits (settings : Settings) :
    Nat → Context → List Place → Nat → Context → Prop
  | here (bound : Nat) (c : Context) : Visits settings bound c [] bound c
  | nested {bound bound' : Nat} {c d e : Context} {place : Place} {path : List Place} :
    Nests settings (calculate settings bound) c place d → Visits settings bound d path bound' e →
    Visits settings (bound + 1) c (place :: path) bound' e

/-! ## What holds where expressions are evaluated -/

section

variable {settings : Settings} {inner : Eval Decimal} {R : Context → Context → Prop}
  {c d e : Context}

theorem OperandAt.keeps (hR : Stable settings R) {operators : List Symbol} {operand : Eval α}
    (hm : Keeps R operand) (h : OperandAt operators operand c d) : R c d := by
  induction h with
  | first c => exact hR.refl c
  | @next c d e a op rest ha htokens _ _ ih =>
    have hd := hm c
    rw [ha] at hd
    exact hR.trans hd (hR.trans (hR.drop_cons htokens) ih)

theorem LevelAt.keeps (hR : Stable settings R) (hinner : Keeps R inner) {tiers rest : List Level}
    (h : LevelAt settings inner tiers c rest e) : R c e := by
  induction h with
  | here tiers c => exact hR.refl c
  | operand hd _ ih => exact hR.trans (hd.keeps hR (hR.cascade hinner _)) ih

theorem Stable.behindSigns (hR : Stable settings R) (c : Context) : R c c.behindSigns :=
  hR.drop ((List.dropWhile_suffix _).trans (List.dropWhile_suffix _))

/-- What evaluations keep holds up to the context in which a nested expression is opened. -/
theorem Nests.leads (hR : Stable settings R) (hinner : Keeps R inner) {place : Place}
    (h : Nests settings inner c place d) : ∃ e, R c e ∧ place.Leads R e d := by
  obtain ⟨e, ⟨-, hlevel⟩, hopens⟩ := h
  have he : R c e.behindSigns := hR.trans (hlevel.keeps hR hinner) (hR.behindSigns e)
  generalize e.behindSigns = e at he hopens
  cases hopens with
  | @group _ rest htokens harguments =>
    have hd : R {e with tokens := rest}.enterGroup d := harguments.2.keeps hR hinner
    exact ⟨_, hR.trans he (hR.drop_cons htokens), hd⟩
  | @argument _ name rest htokens harguments =>
    have hd : R {e with tokens := rest}.enterGroup d := harguments.2.keeps hR hinner
    exact ⟨_, hR.trans he (hR.drop (htokens ▸ List.suffix_append [_, _] rest)), hd⟩
  | @body d name rest body actuals htokens hactuals _ _ hbody =>
    have hd := hR.arguments hinner {e with tokens := rest}
    rw [hactuals] at hd
    have hrest : R e {e with tokens := rest} :=
      hR.drop (htokens ▸ List.suffix_append [_, _] rest)
    exact ⟨d, hR.trans he (hR.trans hrest hd), name, body, actuals, hbody, rfl⟩
  | assigned htokens _ => exact ⟨e, he, _, _, htokens, rfl⟩

end

/-! ## Failures of nested expressions -/

section

variable {settings : Settings} {inner : Eval Decimal} {c d e : Context} {failure : Failure}

/-- The failure of an operand is that of everything that begins with its chain. -/
theorem OperandAt.error {operators : List Symbol} {operand : Eval α} (hm : MovesForward operand)
    (h : OperandAt operators operand c d) (hd : operand d = .error failure e)
    (f : α → List (Symbol × α) → Eval β) : (do
      let first ← operand
      let rest ← allOperands operators operand
      f first rest) c = .error failure e := by
  induction h generalizing f with
  | first c => exact bind_error hd _
  | @next c d _ a op rest ha htokens hop _ ih =>
    -- What follows the operator is a chain again, whose continuation knows the operand before it.
    have hrest := ih hd fun second rest => f a ((op, second) :: rest)
    rw [bind_ok ha, allOperands_unfold operators hm, bind_assoc,
      bind_ok (acceptOneOf_cons htokens hop), bind_assoc]
    simpa only [bind_assoc, pure_bind] using hrest

theorem LevelAt.error (hinner : Keeps Follows inner) {tiers rest : List Level}
    (h : LevelAt settings inner tiers c rest d)
    (hd : cascade settings inner rest d = .error failure e) :
    cascade settings inner tiers c = .error failure e := by
  induction h with
  | here tiers c => exact hd
  | @operand _ rest _ _ _ _ hoperand _ ih =>
    have hforward := follows_length ((stable_follows settings).cascade hinner rest)
    exact hoperand.error hforward (ih hd) _

theorem operand_error (h : atom settings inner c.behindSigns = .error failure e) :
    operand settings inner c = .error failure e := by
  have hprimary : primary settings inner
      {c with tokens := c.tokens.dropWhile (· == .symbol .not)} = .error failure e :=
    bind_error h _
  have hcomplemented : complemented settings inner c = .error failure e := bind_error hprimary _
  exact bind_error hcomplemented _

theorem ArgumentAt.error (hinner : Keeps Follows inner) (h : ArgumentAt inner c d)
    (hd : inner d = .error failure e) : arguments inner c = .error failure e.leaveGroup := by
  obtain ⟨hfirst, hoperand⟩ := h
  have hitems : items inner c.enterGroup = .error failure e :=
    hoperand.error (follows_length hinner) hd fun first rest => pure (first :: rest.map Prod.snd)
  have hgroup : inGroup (items inner) c = .error failure e.leaveGroup := by
    rw [inGroup_apply, hitems]
    rfl
  exact (arguments_items hfirst).trans (bind_error hgroup _)

theorem Opens.error (hinner : Keeps Follows inner) {place : Place} (h : Opens inner c place d)
    (hd : inner d = .error failure e) : ∃ e', atom settings inner c = .error failure e' := by
  cases h with
  | group htokens harguments =>
    exact ⟨_, (atom_group htokens).trans (bind_error (harguments.error hinner hd) _)⟩
  | argument htokens harguments =>
    exact ⟨_, (atom_call htokens).trans (bind_error (harguments.error hinner hd) _)⟩
  | @body d name rest body actuals htokens hactuals habs hpow hbody =>
    refine ⟨d.leaveBody actuals.length e, ?_⟩
    rw [atom_call htokens, bind_ok hactuals, call_user habs hpow hbody, callBody_apply, hd]
    rfl
  | assigned htokens hfirst => exact ⟨e, (atom_assign htokens hfirst).trans (bind_error hd _)⟩

/-- The failure of a nested expression is that of the expression around it. -/
theorem Nests.error (hinner : Keeps Follows inner) {place : Place}
    (h : Nests settings inner c place d) (hd : inner d = .error failure e) :
    ∃ e', expression settings inner c = .error failure e' := by
  obtain ⟨e₁, ⟨hdepth, hlevel⟩, hopens⟩ := h
  obtain ⟨e₂, he₂⟩ := hopens.error hinner hd
  have hcascade := hlevel.error hinner (operand_error he₂)
  exact ⟨e₂, (expression_of_lt hdepth).trans (bind_error hcascade _)⟩

/-- The failure of an expression that is visited is that of the whole evaluation. -/
theorem Visits.error {bound bound' : Nat} {path : List Place}
    (h : Visits settings bound c path bound' d)
    (hd : calculate settings bound' d = .error failure e) :
    ∃ e', calculate settings bound c = .error failure e' := by
  induction h with
  | here bound c => exact ⟨e, hd⟩
  | nested hnests _ ih =>
    obtain ⟨e', he'⟩ := ih hd
    exact hnests.error (calculate_follows settings _) he'

end

end Eval

/-! ## Depths and tokens of nested expressions -/

/-- The context `d` is one in which an expression nested directly in one at `c` can be evaluated. -/
structure Context.Enters (c d : Context) : Prop where
  lower : d.depth = c.depth ∧ d.tokens.length < c.tokens.length ∨ d.depth = c.depth + 1
  tokens : c.Holds d.tokens
  functions : ∀ name body, d.functions.get? name = some body → c.Holds body

namespace Context

theorem Follows.enters_assigned {c d : Context} {t : Token} {rest : List Token} (h : c.Follows d)
    (htokens : d.tokens = t :: rest) : c.Enters {d with tokens := rest} where
  lower := by
    have hle := h.tokens.length_le
    rw [htokens, List.length_cons] at hle
    exact .inl ⟨h.depth, hle⟩
  tokens := h.holds ((holds_tokens d).of_isInfix (htokens ▸ List.infix_cons List.infix_rfl))
  functions := h.functions

theorem Follows.enters_group {c d e : Context} (h : c.Follows d) (he : d.enterGroup.Follows e) :
    c.Enters e where
  lower := .inr (he.depth.trans (congrArg (· + 1) h.depth))
  tokens := h.holds ((holds_tokens d).of_isInfix he.tokens.isInfix)
  functions := fun name body hbody => h.holds (he.functions name body hbody)

theorem Follows.enters_body {c d : Context} {name : String} {body : List Token} (h : c.Follows d)
    (hbody : d.functions.get? name = some body) (actuals : List Decimal) :
    c.Enters (d.enterBody name body actuals) where
  lower := .inr (congrArg (· + 1) h.depth)
  tokens := h.holds (holds_body hbody)
  functions := h.functions

end Context

namespace Eval

open Context

theorem Nests.enters {settings : Settings} {inner : Eval Decimal} (hinner : Keeps Follows inner)
    {c d : Context} {place : Place} (h : Nests settings inner c place d) : c.Enters d := by
  obtain ⟨e, he, hleads⟩ := h.leads (stable_follows settings) hinner
  cases place with
  | group => exact he.enters_group hleads
  | body =>
    obtain ⟨name, body, actuals, hbody, rfl⟩ := hleads
    exact he.enters_body hbody actuals
  | assigned =>
    obtain ⟨t, rest, htokens, rfl⟩ := hleads
    exact he.enters_assigned htokens

end Eval

end DecimalCalculator
