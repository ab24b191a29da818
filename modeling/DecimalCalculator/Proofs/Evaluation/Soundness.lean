import DecimalCalculator.Proofs.Evaluation.Atoms
import DecimalCalculator.Proofs.Evaluation.Consumption
import DecimalCalculator.Proofs.Syntax.Semantics

/-!
# Evaluations read trees

Whenever an evaluation returns, the tokens that it has taken spell a well-formed tree, and the value
and the bindings are those that the tree means (`calculate_sound`). The evaluator never builds the
tree; each level reads one whose operands were read by the level above it, and a chain reads the
tree that groups to the right.

Inside a group or a body a closing parenthesis or a separator may be left. In a body it never is,
since bodies are closed and so is the spelling of a tree.
-/
namespace DecimalCalculator

def Context.store (c : Context) : Store := ⟨c.values, c.functions⟩

namespace Eval

open Context

variable {settings : Settings}

/-- From `c` to `d` a tree of the given level or above has been read and evaluated. -/
structure Reads (settings : Settings) (rank : Nat) (c : Context) (e : Expr) (a : Decimal)
    (d : Context) : Prop where
  wellFormed : e.WellFormed settings.maxDepth
  level : rank ≤ e.level
  tokens : c.tokens = e.spelling ++ d.tokens
  evaluates : ∀ depth : Nat, c.depth = depth → Evaluates settings depth e c.store a d.store
  atEnd : e.EndsOpen → d.AtEnd
  depth : d.depth = c.depth
  closed : d.HasClosedBodies

/-- From `c` to `d` arguments have been read, with the given spelling. The depth is that outside
their parentheses. -/
structure ReadsAll (settings : Settings) (outer : Int) (spell : List Expr → List Token)
    (c : Context) (es : List Expr) (values : List Decimal) (d : Context) : Prop where
  wellFormed : ∀ e ∈ es, e.WellFormed settings.maxDepth
  count : es.length = values.length
  tokens : c.tokens = spell es ++ d.tokens
  evaluates : ∀ depth : Nat, outer = depth →
    EvaluatesAll settings depth es c.store values d.store
  depth : d.depth = c.depth
  closed : d.HasClosedBodies

/-- What a computation takes when it returns is a tree of the given level or above. -/
def Sound (settings : Settings) (rank : Nat) (m : Eval Decimal) : Prop :=
  ∀ c a d, c.HasClosedBodies → m c = .ok a d → ∃ e, Reads settings rank c e a d

/-- What a computation takes when it returns is a whole expression. -/
def SoundExpression (settings : Settings) (m : Eval Decimal) : Prop :=
  ∀ c a d, c.HasClosedBodies → m c = .ok a d →
    c.depth < settings.maxDepth ∧ d.AtEnd ∧ ∃ e, Reads settings 1 c e a d

section

variable {inner : Eval Decimal} (hkeeps : Keeps Follows inner)
  (hinner : SoundExpression settings inner)
include hinner

/-! ## Arguments -/

include hkeeps in
theorem allOperands_sound {outer : Int} {c d : Context} {pairs : List (Symbol × Decimal)}
    (houter : c.depth = outer + 1) (hclosed : c.HasClosedBodies)
    (h : allOperands [.separator] inner c = .ok pairs d) :
    ∃ es, ReadsAll settings outer Expr.spellingRest c es (pairs.map Prod.snd) d := by
  induction hlength : c.tokens.length using Nat.strongRecOn generalizing c pairs with
  | ind length ih =>
    rw [allOperands_unfold _ (follows_length hkeeps)] at h
    rcases acceptOneOf_cases [.separator] c with ⟨s, rest, htokens, hs, hsome⟩ | ⟨-, hnone⟩
    · obtain rfl := List.mem_singleton.1 hs
      rw [bind_ok hsome] at h
      obtain ⟨a, c₁, hfirst, h⟩ := bind_eq_ok_iff.1 h
      obtain ⟨more, c₂, hmore, h⟩ := bind_eq_ok_iff.1 h
      cases h
      obtain ⟨hlower, -, e, he⟩ := hinner {c with tokens := rest} a c₁ hclosed hfirst
      have hlt : c₁.tokens.length < length := by
        have hle := follows_length hkeeps hfirst
        rw [← hlength, htokens]
        exact Nat.lt_succ_of_le hle
      obtain ⟨es, hes⟩ := ih _ hlt (he.depth.trans houter) he.closed hmore rfl
      refine ⟨e :: es, ?_, congrArg (· + 1) hes.count, ?_, ?_, hes.depth.trans he.depth, hes.closed⟩
      · exact List.forall_mem_cons.2 ⟨he.wellFormed, hes.wellFormed⟩
      · have hrest : rest = e.spelling ++ c₁.tokens := he.tokens
        rw [htokens, hrest, hes.tokens, Expr.spellingRest]
        simp
      · intro depth hdepth
        have hinside : c.depth = (depth + 1 : Nat) := by omega
        have hbound : c.depth < settings.maxDepth := hlower
        exact .cons (by omega) (he.evaluates (depth + 1) hinside) (hes.evaluates depth hdepth)
    · rw [bind_ok hnone] at h
      cases h
      exact ⟨[], by simp, rfl, rfl, fun _ _ => .nil, rfl, hclosed⟩

include hkeeps in
theorem items_sound {outer : Int} {c d : Context} {values : List Decimal}
    (houter : c.depth = outer + 1) (hclosed : c.HasClosedBodies)
    (h : items inner c = .ok values d) :
    ∃ es, ReadsAll settings outer Expr.spellingAll c es values d := by
  obtain ⟨a, c₁, hfirst, h⟩ := bind_eq_ok_iff.1 h
  obtain ⟨pairs, c₂, hrest, h⟩ := bind_eq_ok_iff.1 h
  cases h
  obtain ⟨hlower, -, e, he⟩ := hinner c a c₁ hclosed hfirst
  obtain ⟨es, hes⟩ := allOperands_sound hkeeps hinner (he.depth.trans houter) he.closed hrest
  refine ⟨e :: es, ?_, congrArg (· + 1) hes.count, ?_, ?_, hes.depth.trans he.depth, hes.closed⟩
  · exact List.forall_mem_cons.2 ⟨he.wellFormed, hes.wellFormed⟩
  · rw [he.tokens, hes.tokens, Expr.spellingAll, List.append_assoc]
  · intro depth hdepth
    have hinside : c.depth = (depth + 1 : Nat) := by omega
    exact .cons (by omega) (he.evaluates (depth + 1) hinside) (hes.evaluates depth hdepth)

include hkeeps in
theorem arguments_sound {c d : Context} {values : List Decimal} (hclosed : c.HasClosedBodies)
    (h : arguments inner c = .ok values d) :
    ∃ es, ReadsAll settings c.depth (fun es => Expr.spellingAll es ++ [.symbol .parenClose]) c es
      values d := by
  by_cases hempty : c.tokens.head? = some (.symbol .parenClose)
  · obtain ⟨rest, hrest⟩ := List.head?_eq_some_iff.1 hempty
    rw [arguments_empty hrest] at h
    cases h
    exact ⟨[], by simp, rfl, hrest, fun _ _ => .nil, rfl, hclosed⟩
  · rw [arguments_items hempty] at h
    obtain ⟨given, c₁, hgroup, h⟩ := bind_eq_ok_iff.1 h
    rw [inGroup_apply] at hgroup
    obtain ⟨c₂, hitems, rfl⟩ := Outcome.mapContext_eq_ok_iff.1 hgroup
    obtain ⟨es, hes⟩ := items_sound hkeeps hinner (c := c.enterGroup) rfl hclosed hitems
    by_cases hclose : c₂.leaveGroup.tokens.head? = some (.symbol .parenClose)
    · obtain ⟨rest, hrest⟩ := List.head?_eq_some_iff.1 hclose
      rw [close_cons given hrest] at h
      cases h
      have hdepth : c₂.depth = c.depth + 1 := hes.depth
      have htokens : c.tokens = Expr.spellingAll es ++ c₂.tokens := hes.tokens
      have hafter : c₂.tokens = .symbol .parenClose :: rest := hrest
      refine ⟨es, hes.wellFormed, hes.count, ?_, hes.evaluates, ?_, hes.closed⟩
      · rw [htokens, hafter]
        simp
      · change c₂.depth - 1 = c.depth
        omega
    · rw [close_of_ne given hclose] at h
      cases h

/-! ## Atoms -/

theorem call_sound {name : String} {actuals : List Decimal} {c d : Context} {a : Decimal}
    (hclosed : c.HasClosedBodies) (h : call settings inner name actuals c = .ok a d) :
    d.tokens = c.tokens ∧ d.depth = c.depth ∧ d.HasClosedBodies ∧
      ∀ (depth : Nat) (es : List Expr) (s : Store), c.depth = depth →
        EvaluatesAll settings depth es s actuals c.store →
        Evaluates settings depth (.call name es) s a d.store := by
  by_cases habs : name = "abs"
  · subst habs
    unfold call at h
    rw [if_pos rfl] at h
    split at h
    · cases h
      exact ⟨rfl, rfl, hclosed, fun _ _ _ _ hes => .abs hes⟩
    · cases h
  by_cases hpow : name = "pow"
  · subst hpow
    unfold call at h
    rw [if_neg habs, if_pos rfl] at h
    split at h
    · obtain ⟨hresult, rfl⟩ := ofExcept_eq_ok_iff.1 h
      exact ⟨rfl, rfl, hclosed, fun _ _ _ _ hes => .pow hes hresult⟩
    · cases h
  cases hbody : c.functions.get? name with
  | none =>
    rw [call_unknown habs hpow hbody] at h
    cases h
  | some body =>
    rw [call_user habs hpow hbody, callBody_apply] at h
    obtain ⟨c₁, hinside, rfl⟩ := Outcome.mapContext_eq_ok_iff.1 h
    obtain ⟨hlower, hend, e, he⟩ := hinner (c.enterBody name body actuals) a c₁ hclosed hinside
    have hspelling : body = e.spelling ++ c₁.tokens := he.tokens
    have hrest : IsClosed c₁.tokens := by
      have hwhole : IsClosed (e.spelling ++ c₁.tokens) := hspelling ▸ hclosed name body hbody
      exact hwhole.of_append he.wellFormed.isClosed
    rw [hend.eq_nil hrest, List.append_nil] at hspelling
    subst hspelling
    refine ⟨rfl, rfl, he.closed, fun depth es s hdepth hes => ?_⟩
    have hinside : (c.enterBody name e.spelling actuals).depth = (depth + 1 : Nat) := by
      change c.depth + 1 = _
      omega
    refine .call habs hpow hes hbody he.wellFormed ?_ (he.evaluates (depth + 1) hinside)
    omega

include hkeeps in
theorem group_sound {c d : Context} {a : Decimal} {rest : List Token} (hclosed : c.HasClosedBodies)
    (htokens : c.tokens = .symbol .parenOpen :: rest)
    (h : (arguments inner >>= sole) {c with tokens := rest} = .ok a d) :
    ∃ e, Reads settings 9 c e a d := by
  obtain ⟨values, c₁, hvalues, h⟩ := bind_eq_ok_iff.1 h
  obtain ⟨es, hes⟩ := arguments_sound hkeeps hinner (c := {c with tokens := rest}) hclosed hvalues
  unfold sole at h
  split at h
  · cases h
    obtain ⟨e, rfl⟩ := List.length_eq_one_iff.1 hes.count
    refine ⟨.group e, .group (hes.wellFormed e List.mem_cons_self), Nat.le_refl 9, ?_, ?_,
      False.elim, hes.depth, hes.closed⟩
    · have hrest : rest = _ := hes.tokens
      rw [htokens, hrest]
      simp [Expr.spelling, Expr.spellingAll, Expr.spellingRest]
    · intro depth hc
      rcases hes.evaluates depth hc with _ | ⟨hlower, he, hnil⟩
      cases hnil
      exact .group hlower he
  · cases h

include hkeeps in
theorem callOfArguments_sound {c d : Context} {a : Decimal} {name : String} {rest : List Token}
    (hclosed : c.HasClosedBodies) (htokens : c.tokens = .call name :: .symbol .parenOpen :: rest)
    (h : (arguments inner >>= call settings inner name) {c with tokens := rest} = .ok a d) :
    ∃ e, Reads settings 9 c e a d := by
  obtain ⟨values, c₁, hvalues, h⟩ := bind_eq_ok_iff.1 h
  obtain ⟨es, hes⟩ := arguments_sound hkeeps hinner (c := {c with tokens := rest}) hclosed hvalues
  obtain ⟨hsame, hdepth, hbodies, hcall⟩ := call_sound hinner hes.closed h
  refine ⟨.call name es, .call name hes.wellFormed, Nat.le_refl 9, ?_, ?_, False.elim,
    hdepth.trans hes.depth, hbodies⟩
  · have hrest : rest = _ := hes.tokens
    rw [htokens, hrest, hsame]
    simp [Expr.spelling]
  · intro depth hc
    exact hcall depth es c.store (hes.depth.trans hc) (hes.evaluates depth hc)

omit hinner in
theorem definition_sound {c d : Context} {a : Decimal} {name : String} {rest : List Token}
    (hclosed : c.HasClosedBodies) (htokens : c.tokens = .assign name :: .symbol .parenOpen :: rest)
    (h : (define settings name >>= fun _ => pure Decimal.zero) {c with tokens := rest} =
      .ok a d) : ∃ e, Reads settings 9 c e a d := by
  obtain ⟨_, c₁, hdefine, h⟩ := bind_eq_ok_iff.1 h
  cases h
  unfold define at hdefine
  split at hdefine
  · next body after hcap =>
    cases hdefine
    obtain ⟨hrest, hbody⟩ := capture_eq_ok_iff.1 hcap
    have hsplit : rest = body ++ .symbol .parenClose :: after := hrest
    refine ⟨.define name body, .define name hbody, Nat.le_refl 9, ?_,
      fun _ _ => .define name body, False.elim, rfl, hclosed.insert name hbody.1⟩
    rw [htokens, hsplit]
    simp [Expr.spelling, Context.record]
  · cases hdefine

theorem assignment_sound {c d : Context} {a : Decimal} {name : String} {rest : List Token}
    (hclosed : c.HasClosedBodies) (htokens : c.tokens = .assign name :: rest)
    (hopen : rest.head? ≠ some (.symbol .parenOpen))
    (h : (inner >>= fun value => assign name value >>= fun _ => pure Decimal.zero)
      {c with tokens := rest} = .ok a d) : ∃ e, Reads settings 9 c e a d := by
  obtain ⟨value, c₁, hvalue, h⟩ := bind_eq_ok_iff.1 h
  cases h
  obtain ⟨-, hend, e, he⟩ := hinner {c with tokens := rest} value c₁ hclosed hvalue
  have hrest : rest = e.spelling ++ c₁.tokens := he.tokens
  refine ⟨.assign name e, .assign name he.wellFormed ?_, Nat.le_refl 9, ?_, ?_, fun _ => hend,
    he.depth, he.closed⟩
  · rwa [hrest, Expr.head?_spelling_append] at hopen
  · rw [htokens, hrest]
    rfl
  · exact fun depth hc => .assign name (he.evaluates depth hc)

include hkeeps in
theorem atom_sound : Sound settings 9 (atom settings inner) := by
  intro c a d hclosed h
  cases htokens : c.tokens with
  | nil =>
    rw [atom_nil htokens] at h
    cases h
  | cons t rest =>
    cases t with
    | symbol s =>
      by_cases hs : s = .parenOpen
      · subst hs
        rw [atom_group htokens] at h
        exact group_sound hkeeps hinner hclosed htokens h
      · rw [atom_symbol htokens hs] at h
        cases h
    | number value =>
      rw [atom_number htokens] at h
      cases h
      exact ⟨.number a, .number a, Nat.le_refl 9, htokens, fun _ _ => .number a, False.elim, rfl,
        hclosed⟩
    | read name =>
      rw [atom_read htokens] at h
      unfold lookup at h
      split at h
      · next hvalue =>
        cases h
        exact ⟨.read name, .read name, Nat.le_refl 9, htokens, fun _ _ => .read hvalue, False.elim,
          rfl, hclosed⟩
      · cases h
    | call name =>
      by_cases hopen : rest.head? = some (.symbol .parenOpen)
      · obtain ⟨more, rfl⟩ := List.head?_eq_some_iff.1 hopen
        rw [atom_call htokens] at h
        exact callOfArguments_sound hkeeps hinner hclosed htokens h
      · rw [atom_call_of_ne htokens hopen] at h
        cases h
    | assign name =>
      by_cases hopen : rest.head? = some (.symbol .parenOpen)
      · obtain ⟨more, rfl⟩ := List.head?_eq_some_iff.1 hopen
        rw [atom_define htokens] at h
        exact definition_sound hclosed htokens h
      · rw [atom_assign htokens hopen] at h
        exact assignment_sound hinner hclosed htokens hopen h

/-! ## Signs -/

include hkeeps in
theorem primary_sound : Sound settings 9 (primary settings inner) := by
  intro c a d hclosed h
  induction htokens : c.tokens generalizing c a with
  | nil =>
    rw [primary_of_ne (by rw [htokens]; simp)] at h
    exact atom_sound hkeeps hinner c a d hclosed h
  | cons t rest ih =>
    by_cases ht : t = .symbol .sub
    · subst ht
      rw [primary_sub htokens] at h
      obtain ⟨b, c₁, hoperand, h⟩ := bind_eq_ok_iff.1 h
      cases h
      obtain ⟨e, he⟩ := ih {c with tokens := rest} b hclosed hoperand rfl
      have hrest : rest = e.spelling ++ d.tokens := he.tokens
      refine ⟨.minus e, .minus he.wellFormed he.level, Nat.le_refl 9, ?_,
        fun depth hc => .minus (he.evaluates depth hc), he.atEnd, he.depth, he.closed⟩
      rw [htokens, hrest]
      rfl
    · rw [primary_of_ne (by rw [htokens]; simpa using ht)] at h
      exact atom_sound hkeeps hinner c a d hclosed h

include hkeeps in
theorem complemented_sound : Sound settings 8 (complemented settings inner) := by
  intro c a d hclosed h
  induction htokens : c.tokens generalizing c a with
  | nil =>
    rw [complemented_of_ne (by rw [htokens]; simp)] at h
    obtain ⟨e, he⟩ := primary_sound hkeeps hinner c a d hclosed h
    exact ⟨e, {he with level := Nat.le_of_succ_le he.level}⟩
  | cons t rest ih =>
    by_cases ht : t = .symbol .not
    · subst ht
      rw [complemented_not htokens] at h
      obtain ⟨b, c₁, hoperand, h⟩ := bind_eq_ok_iff.1 h
      obtain ⟨hresult, rfl⟩ := ofExcept_eq_ok_iff.1 h
      obtain ⟨e, he⟩ := ih {c with tokens := rest} b hclosed hoperand rfl
      have hrest : rest = e.spelling ++ c₁.tokens := he.tokens
      refine ⟨.complement e, .complement he.wellFormed he.level, Nat.le_refl 8, ?_,
        fun depth hc => .complement (he.evaluates depth hc) hresult, he.atEnd, he.depth, he.closed⟩
      rw [htokens, hrest]
      rfl
    · rw [complemented_of_ne (by rw [htokens]; simpa using ht)] at h
      obtain ⟨e, he⟩ := primary_sound hkeeps hinner c a d hclosed h
      exact ⟨e, {he with level := Nat.le_of_succ_le he.level}⟩

include hkeeps in
theorem operand_sound : Sound settings 7 (operand settings inner) := by
  intro c a d hclosed h
  obtain ⟨b, c₁, hoperand, h⟩ := bind_eq_ok_iff.1 h
  obtain ⟨e, he⟩ := complemented_sound hkeeps hinner c b c₁ hclosed hoperand
  rcases accept_cases .factorial c₁ with ⟨rest, htokens, haccept⟩ | ⟨-, haccept⟩
  · rw [bind_ok haccept] at h
    obtain ⟨hresult, rfl⟩ := ofExcept_eq_ok_iff.1 h
    have hopen : ¬e.EndsOpen := fun hends =>
      (he.atEnd hends).head?_ne_symbol (s := .factorial) (by decide) (by rw [htokens]; rfl)
    refine ⟨.factorial e, .factorial he.wellFormed he.level hopen, Nat.le_refl 7, ?_,
      fun depth hc => .factorial (he.evaluates depth hc) hresult, False.elim, he.depth, he.closed⟩
    rw [he.tokens, htokens]
    simp [Expr.spelling]
  · rw [bind_ok haccept] at h
    cases h
    exact ⟨e, {he with level := Nat.le_of_succ_le he.level}⟩

end

/-! ## Chains -/

/-- A chain over operands of the next level reads trees of the level of its operators. -/
theorem chain_sound {rank : Nat} {level : Level} {m : Eval Decimal} (hkeeps : Keeps Follows m)
    (hm : Sound settings (rank + 1) m)
    (hlevel : ∀ op ∈ level.operators, op.level = rank ∧ op.family = level.family)
    (hlow : 1 ≤ rank) (hhigh : rank ≤ 6) :
    Sound settings rank (chain level.operators
      (fun op => Arithmetic.apply settings.memory settings.precision level.family (.symbol op))
      m) := by
  intro c a d hclosed h
  induction hlength : c.tokens.length using Nat.strongRecOn generalizing c a with
  | ind length ih =>
    rw [chain_unfold _ _ (follows_length hkeeps)] at h
    obtain ⟨x, c₁, hfirst, h⟩ := bind_eq_ok_iff.1 h
    obtain ⟨e, he⟩ := hm c x c₁ hclosed hfirst
    rcases acceptOneOf_cases level.operators c₁ with ⟨op, rest, htokens, hmem, hsome⟩ | ⟨-, hnone⟩
    · obtain ⟨hrank, hfamily⟩ := hlevel op hmem
      rw [bind_ok hsome] at h
      obtain ⟨y, c₂, hsecond, h⟩ := bind_eq_ok_iff.1 h
      obtain ⟨hresult, rfl⟩ := ofExcept_eq_ok_iff.1 h
      have hlt : rest.length < length := by
        have hle := follows_length hkeeps hfirst
        rw [htokens, List.length_cons] at hle
        omega
      obtain ⟨e', he'⟩ := ih rest.length hlt {c₁ with tokens := rest} y he.closed hsecond rfl
      -- An assignment would have taken the operator.
      have hopen : ¬e.EndsOpen := fun hends =>
        (he.atEnd hends).head?_ne_symbol (s := op) (by omega) (by rw [htokens]; rfl)
      have hrest : rest = e'.spelling ++ c₂.tokens := he'.tokens
      refine ⟨.binary op e e', ?_, ?_, ?_, ?_, he'.atEnd, he'.depth.trans he.depth, he'.closed⟩
      · have hleft := he.level
        have hright := he'.level
        exact .binary (by omega) (by omega) he.wellFormed (by omega) hopen he'.wellFormed (by omega)
      · exact Nat.le_of_eq hrank.symm
      · rw [he.tokens, htokens, hrest]
        simp [Expr.spelling]
      · intro depth hc
        rw [← hfamily] at hresult
        exact .binary (he.evaluates depth hc) (he'.evaluates depth (he.depth.trans hc)) hresult
    · rw [bind_ok hnone] at h
      cases h
      exact ⟨e, {he with level := Nat.le_of_succ_le he.level}⟩

/-- The binary operators of the tree levels are those of the evaluator. -/
theorem drop_levels {k : Nat} (h : k < 6) :
    ∃ level, levels.drop k = level :: levels.drop (k + 1) ∧
      (∀ op, op ∈ level.operators ↔ op.level = k + 1) ∧
      ∀ op ∈ level.operators, op.family = level.family := by
  obtain rfl | rfl | rfl | rfl | rfl | rfl : k = 0 ∨ k = 1 ∨ k = 2 ∨ k = 3 ∨ k = 4 ∨ k = 5 := by
    omega
  all_goals
    refine ⟨_, rfl, ?_⟩
    constructor
    all_goals
      intro op
      cases op <;> decide

section

variable {inner : Eval Decimal} (hkeeps : Keeps Follows inner)
  (hinner : SoundExpression settings inner)
include hkeeps hinner

theorem cascade_sound {k : Nat} (h : k ≤ 6) :
    Sound settings (k + 1) (cascade settings inner (levels.drop k)) := by
  induction hgap : 6 - k generalizing k with
  | zero =>
    obtain rfl : k = 6 := by omega
    exact operand_sound hkeeps hinner
  | succ gap ih =>
    obtain ⟨level, hdrop, hmem, hfamily⟩ := drop_levels (k := k) (by omega)
    rw [hdrop]
    refine chain_sound ((stable_follows settings).cascade hkeeps _) (ih (by omega) (by omega)) ?_
      (Nat.succ_pos k) (by omega)
    exact fun op hop => ⟨(hmem op).1 hop, hfamily op hop⟩

theorem expression_sound : SoundExpression settings (expression settings inner) := by
  intro c a d hclosed h
  by_cases hdepth : c.depth < settings.maxDepth
  · rw [expression_of_lt hdepth] at h
    obtain ⟨b, c₁, hcascade, h⟩ := bind_eq_ok_iff.1 h
    obtain ⟨_, c₂, hfinish, h⟩ := bind_eq_ok_iff.1 h
    cases h
    by_cases hend : c₁.AtEnd
    · rw [finish_of_atEnd hend] at hfinish
      cases hfinish
      exact ⟨hdepth, hend, cascade_sound hkeeps hinner (Nat.zero_le 6) c a d hclosed hcascade⟩
    · obtain ⟨t, rest, -, hfail⟩ := finish_of_not_atEnd hend
      rw [hfail] at hfinish
      cases hfinish
  · rw [expression_of_le (Int.not_lt.1 hdepth)] at h
    cases h

end

/-- What an evaluation takes when it returns is spelled by a tree, whose meaning is what it did. -/
theorem calculate_sound (settings : Settings) (bound : Nat) :
    SoundExpression settings (calculate settings bound) := by
  induction bound with
  | zero =>
    intro c a d _ h
    cases h
  | succ bound ih => exact expression_sound (calculate_follows settings bound) ih

end Eval

end DecimalCalculator
