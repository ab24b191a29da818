import DecimalCalculator.Proofs.Bindings
import DecimalCalculator.Proofs.Evaluation.Nested

/-!
# What evaluations take

Every evaluation that returns has taken tokens whose parentheses match, at least one of them, with
every separator inside some parentheses (`Takes`). This holds on every level and in every context,
whatever the bodies of the functions are like, since a call comes back to its own tokens.

A body is evaluated to its end if it is closed itself. An expression inside something else may leave
a closing parenthesis or a separator to what encloses it, but neither can stand behind what has been
taken of a closed body (`calculate_takes_body`). Definitions capture closed bodies only, so nothing
else is ever called where no other function was to begin with.
-/
namespace DecimalCalculator

/-- In every body parentheses match, and separators stand inside them. -/
def Context.HasClosedBodies (c : Context) : Prop :=
  ∀ name body, c.functions.get? name = some body → IsClosed body

theorem Context.HasClosedBodies.insert {c : Context} (h : c.HasClosedBodies) (name : String)
    {body : List Token} (hbody : IsClosed body) :
    {c with functions := c.functions.insert name body}.HasClosedBodies :=
  Bindings.All.insert h hbody name

/-- A closed sequence at the end of an expression is empty. -/
theorem Context.AtEnd.eq_nil {d : Context} (h : d.AtEnd) (hclosed : IsClosed d.tokens) :
    d.tokens = [] := by
  rcases h with h | ⟨-, h | h⟩
  · exact h
  all_goals
    obtain ⟨rest, hrest⟩ := List.head?_eq_some_iff.1 h
    rw [hrest, IsClosed, nesting_cons] at hclosed
    cases hclosed

/-- Between two contexts at least one token has been taken, and those that were are closed. -/
def Context.Takes (c d : Context) : Prop :=
  ∃ taken, taken ≠ [] ∧ IsClosed taken ∧ c.tokens = taken ++ d.tokens

theorem Context.Takes.after {c d : Context} {front rest : List Token}
    (h : {c with tokens := rest}.Takes d) (hfront : IsClosed front)
    (htokens : c.tokens = front ++ rest) : c.Takes d := by
  obtain ⟨taken, hne, hclosed, htaken⟩ := h
  refine ⟨front ++ taken, List.append_ne_nil_of_right_ne_nil front hne, hfront.append hclosed, ?_⟩
  rw [htokens, List.append_assoc, ← htaken]

theorem Context.Takes.before {c d : Context} {back rest : List Token} (h : c.Takes d)
    (hback : IsClosed back) (htokens : d.tokens = back ++ rest) :
    c.Takes {d with tokens := rest} := by
  obtain ⟨taken, hne, hclosed, htaken⟩ := h
  refine ⟨taken ++ back, List.append_ne_nil_of_left_ne_nil hne back, hclosed.append hback, ?_⟩
  rw [htaken, htokens, List.append_assoc]

theorem Context.takes_cons {c d : Context} {t : Token} (htokens : c.tokens = t :: d.tokens)
    (ht : t.nest 0 = some 0) : c.Takes d :=
  ⟨[t], List.cons_ne_nil t [], isClosed_nil.cons ht, htokens⟩

/-- A run of one symbol that is no parenthesis and no separator is closed. -/
theorem isClosed_takeWhile {s : Symbol} (hs : Token.nest 0 (.symbol s) = some 0)
    (ts : List Token) : IsClosed (ts.takeWhile (· == .symbol s)) := by
  induction ts with
  | nil => exact isClosed_nil
  | cons t ts ih =>
    rw [List.takeWhile_cons]
    split
    · next ht =>
      rw [beq_iff_eq] at ht
      exact ih.cons (ht ▸ hs)
    · exact isClosed_nil

namespace Eval

open Context

variable {α : Type}

/-- A computation that returns has taken a closed sequence of at least one token. -/
def AlwaysTakes (m : Eval α) : Prop :=
  ∀ c a d, m c = .ok a d → c.Takes d

/-! ## Chains -/

/-- The operators of a chain and their operands are in place among as many open parentheses as the
operators are. -/
theorem operands_takes {operators : List Symbol} {operand : Eval α} {opened : Nat}
    (hoperators : ∀ op ∈ operators, Token.nest opened (.symbol op) = some opened)
    (hoperand : AlwaysTakes operand) (bound : TokenStream) {c d : Context}
    {pairs : List (Symbol × α)} (h : operands operators operand bound c = .ok pairs d) :
    ∃ taken, nesting opened taken = some opened ∧ c.tokens = taken ++ d.tokens := by
  induction bound generalizing c pairs with
  | nil =>
    cases h
    exact ⟨[], rfl, rfl⟩
  | cons t bound ih =>
    rcases acceptOneOf_cases operators c with ⟨op, rest, htokens, hop, hsome⟩ | ⟨-, hnone⟩
    · rw [operands_of_some hsome] at h
      obtain ⟨a, c₁, ha, h⟩ := bind_eq_ok_iff.1 h
      obtain ⟨others, c₂, hothers, h⟩ := bind_eq_ok_iff.1 h
      cases h
      obtain ⟨first, -, hfirst, hsplit⟩ := hoperand _ _ _ ha
      obtain ⟨more, hmore, hrest⟩ := ih hothers
      -- An operand is closed, so it is in place among any number of open parentheses.
      refine ⟨.symbol op :: first ++ more, ?_, ?_⟩
      · rw [List.cons_append, nesting_cons, hoperators op hop, Option.bind_some, nesting_append,
          hfirst.nesting]
        exact hmore
      · change rest = first ++ c₁.tokens at hsplit
        simp [htokens, hsplit, hrest]
    · rw [operands_of_none hnone] at h
      cases h
      exact ⟨[], rfl, rfl⟩

theorem chain_takes {operators : List Symbol} {apply : Symbol → α → α → Except Failure α}
    {operand : Eval α} (hoperators : ∀ op ∈ operators, Token.nest 0 (.symbol op) = some 0)
    (hoperand : AlwaysTakes operand) : AlwaysTakes (chain operators apply operand) := by
  intro c a d h
  obtain ⟨first, c₁, hfirst, h⟩ := bind_eq_ok_iff.1 h
  obtain ⟨pairs, c₂, hpairs, h⟩ := bind_eq_ok_iff.1 h
  obtain ⟨-, rfl⟩ := ofExcept_eq_ok_iff.1 h
  obtain ⟨taken, hclosed, htaken⟩ := operands_takes hoperators hoperand _ hpairs
  exact (hoperand c first c₁ hfirst).before hclosed htaken

/-! ## Atoms -/

section

variable {settings : Settings} {inner : Eval Decimal} (hinner : AlwaysTakes inner)
include hinner

theorem arguments_takes {c d : Context} {values : List Decimal}
    (h : arguments inner c = .ok values d) :
    ∃ taken, nesting 1 taken = some 1 ∧ c.tokens = taken ++ .symbol .parenClose :: d.tokens := by
  by_cases hempty : c.tokens.head? = some (.symbol .parenClose)
  · obtain ⟨rest, hrest⟩ := List.head?_eq_some_iff.1 hempty
    rw [arguments_empty hrest] at h
    cases h
    exact ⟨[], rfl, hrest⟩
  · rw [arguments_items hempty] at h
    obtain ⟨_, c₁, hgroup, h⟩ := bind_eq_ok_iff.1 h
    rw [inGroup_apply] at hgroup
    obtain ⟨c₂, hitems, rfl⟩ := Outcome.mapContext_eq_ok_iff.1 hgroup
    obtain ⟨first, c₃, hfirst, hitems⟩ := bind_eq_ok_iff.1 hitems
    obtain ⟨pairs, c₄, hpairs, hitems⟩ := bind_eq_ok_iff.1 hitems
    cases hitems
    obtain ⟨front, -, hfront, hsplit⟩ := hinner _ _ _ hfirst
    have hseparator : ∀ op ∈ [Symbol.separator], Token.nest 1 (.symbol op) = some 1 := by decide
    obtain ⟨more, hmore, hrest⟩ := operands_takes hseparator hinner _ hpairs
    change c.tokens = front ++ c₃.tokens at hsplit
    by_cases hclose : c₂.leaveGroup.tokens.head? = some (.symbol .parenClose)
    · obtain ⟨rest, hparen⟩ := List.head?_eq_some_iff.1 hclose
      rw [close_cons _ hparen] at h
      cases h
      refine ⟨front ++ more, ?_, ?_⟩
      · rw [nesting_append, hfront.nesting]
        exact hmore
      · change c₂.tokens = .symbol .parenClose :: rest at hparen
        rw [hsplit, hrest, hparen, List.append_assoc]
    · rw [close_of_ne _ hclose] at h
      cases h

theorem group_takes {c d : Context} {rest : List Token} {values : List Decimal}
    (htokens : c.tokens = .symbol .parenOpen :: rest)
    (h : arguments inner {c with tokens := rest} = .ok values d) : c.Takes d := by
  obtain ⟨taken, hnesting, htaken⟩ := arguments_takes hinner h
  change rest = taken ++ .symbol .parenClose :: d.tokens at htaken
  refine ⟨.symbol .parenOpen :: taken ++ [.symbol .parenClose], by simp,
    isClosed_group hnesting isClosed_nil, ?_⟩
  rw [htokens, htaken]
  simp

omit hinner in
theorem call_tokens {c d : Context} {name : String} {actuals : List Decimal} {a : Decimal}
    (h : call settings inner name actuals c = .ok a d) : d.tokens = c.tokens := by
  by_cases habs : name = "abs"
  · unfold call at h
    rw [if_pos habs] at h
    split at h <;> cases h
    rfl
  by_cases hpow : name = "pow"
  · unfold call at h
    rw [if_neg habs, if_pos hpow] at h
    split at h
    · obtain ⟨-, rfl⟩ := ofExcept_eq_ok_iff.1 h
      rfl
    · cases h
  cases hbody : c.functions.get? name with
  | none =>
    rw [call_unknown habs hpow hbody] at h
    cases h
  | some body =>
    rw [call_user habs hpow hbody, callBody_apply] at h
    obtain ⟨e, -, rfl⟩ := Outcome.mapContext_eq_ok_iff.1 h
    rfl

theorem atom_takes : AlwaysTakes (atom settings inner) := by
  intro c a d h
  cases htokens : c.tokens with
  | nil =>
    rw [atom_nil htokens] at h
    cases h
  | cons t rest =>
    cases t with
    | symbol s =>
      by_cases hs : s = .parenOpen
      · subst hs
        rw [atom_group htokens] at h
        obtain ⟨values, c₁, hvalues, h⟩ := bind_eq_ok_iff.1 h
        unfold sole at h
        split at h
        · cases h
          exact group_takes hinner htokens hvalues
        · cases h
      · rw [atom_symbol htokens hs] at h
        cases h
    | number value =>
      rw [atom_number htokens] at h
      cases h
      exact takes_cons htokens rfl
    | read name =>
      rw [atom_read htokens] at h
      unfold lookup at h
      split at h
      · cases h
        exact takes_cons htokens rfl
      · cases h
    | call name =>
      by_cases hopen : rest.head? = some (.symbol .parenOpen)
      · obtain ⟨more, rfl⟩ := List.head?_eq_some_iff.1 hopen
        rw [atom_call htokens] at h
        obtain ⟨values, c₁, hvalues, h⟩ := bind_eq_ok_iff.1 h
        have hname : IsClosed [.call name] := isClosed_nil.cons rfl
        have hgroup : {c with tokens := .symbol .parenOpen :: more}.Takes c₁ :=
          group_takes hinner rfl hvalues
        obtain ⟨front, hne, hclosed, hsplit⟩ := hgroup.after hname htokens
        exact ⟨front, hne, hclosed, hsplit.trans (by rw [call_tokens h])⟩
      · rw [atom_call_of_ne htokens hopen] at h
        cases h
    | assign name =>
      by_cases hopen : rest.head? = some (.symbol .parenOpen)
      · obtain ⟨more, rfl⟩ := List.head?_eq_some_iff.1 hopen
        rw [atom_define htokens] at h
        obtain ⟨_, c₁, hdefine, h⟩ := bind_eq_ok_iff.1 h
        cases h
        unfold define at hdefine
        split at hdefine
        · next body after hcap =>
          cases hdefine
          obtain ⟨front, hsplit, hne, hclosed⟩ := exists_isClosed_of_capture name hcap
          exact ⟨front, hne, hclosed, htokens.trans hsplit⟩
        · cases hdefine
      · rw [atom_assign htokens hopen] at h
        obtain ⟨value, c₁, hvalue, h⟩ := bind_eq_ok_iff.1 h
        cases h
        have hname : IsClosed [.assign name] := isClosed_nil.cons rfl
        have hwhole : c.Takes c₁ := (hinner _ _ _ hvalue).after hname htokens
        exact hwhole

/-! ## Levels -/

omit hinner in
theorem takeRun_takes {s : Symbol} (hs : Token.nest 0 (.symbol s) = some 0) {m : Eval α}
    (hm : AlwaysTakes m) (f : Nat → α → Except Failure α) :
    AlwaysTakes (do
      let signs ← takeRun s
      let value ← m
      ofExcept (f signs value)) := by
  intro c a d h
  obtain ⟨signs, c₁, hrun, h⟩ := bind_eq_ok_iff.1 h
  cases hrun
  obtain ⟨value, c₂, hvalue, h⟩ := bind_eq_ok_iff.1 h
  obtain ⟨-, rfl⟩ := ofExcept_eq_ok_iff.1 h
  exact (hm _ _ _ hvalue).after (isClosed_takeWhile hs c.tokens)
    List.takeWhile_append_dropWhile.symm

theorem primary_takes : AlwaysTakes (primary settings inner) :=
  takeRun_takes rfl (atom_takes hinner)
    fun signs value => .ok (if signs % 2 = 1 then value.neg else value)

theorem complemented_takes : AlwaysTakes (complemented settings inner) :=
  takeRun_takes rfl (primary_takes hinner) Arithmetic.complements

theorem operand_takes : AlwaysTakes (operand settings inner) := by
  intro c a d h
  obtain ⟨value, c₁, hvalue, h⟩ := bind_eq_ok_iff.1 h
  have htakes := complemented_takes hinner c value c₁ hvalue
  rcases accept_cases .factorial c₁ with ⟨rest, htokens, haccept⟩ | ⟨-, haccept⟩
  · rw [bind_ok haccept] at h
    obtain ⟨-, rfl⟩ := ofExcept_eq_ok_iff.1 h
    have hsign : IsClosed [.symbol .factorial] := isClosed_nil.cons rfl
    exact htakes.before hsign htokens
  · rw [bind_ok haccept] at h
    cases h
    exact htakes

theorem cascade_takes {tiers : List Level} (htiers : tiers ⊆ levels) :
    AlwaysTakes (cascade settings inner tiers) := by
  have hlevels : ∀ level ∈ levels, ∀ op ∈ level.operators, Token.nest 0 (.symbol op) = some 0 := by
    decide
  induction tiers with
  | nil => exact operand_takes hinner
  | cons level rest ih =>
    obtain ⟨hlevel, hrest⟩ := List.cons_subset.1 htiers
    exact chain_takes (hlevels level hlevel) (ih hrest)

theorem expression_takes {c d : Context} {a : Decimal} (h : expression settings inner c = .ok a d) :
    c.Takes d ∧ d.AtEnd := by
  by_cases hdepth : c.depth < settings.maxDepth
  · rw [expression_of_lt hdepth] at h
    obtain ⟨b, c₁, hcascade, h⟩ := bind_eq_ok_iff.1 h
    obtain ⟨_, c₂, hfinish, h⟩ := bind_eq_ok_iff.1 h
    cases h
    by_cases hend : c₁.AtEnd
    · rw [finish_of_atEnd hend] at hfinish
      cases hfinish
      exact ⟨cascade_takes hinner (List.Subset.refl levels) _ _ _ hcascade, hend⟩
    · obtain ⟨t, rest, -, hfail⟩ := finish_of_not_atEnd hend
      rw [hfail] at hfinish
      cases hfinish
  · rw [expression_of_le (Int.not_lt.1 hdepth)] at h
    cases h

end

variable {settings : Settings}

theorem calculate_takes (settings : Settings) (bound : Nat) :
    AlwaysTakes (calculate settings bound) := by
  induction bound with
  | zero =>
    intro c a d h
    cases h
  | succ bound ih => exact fun c a d h => (expression_takes ih h).1

theorem calculate_atEnd {bound : Nat} {c d : Context} {a : Decimal}
    (h : calculate settings bound c = .ok a d) : d.AtEnd := by
  cases bound with
  | zero => cases h
  | succ bound => exact (expression_takes (calculate_takes settings bound) h).2

/-- What is evaluated over closed tokens is evaluated to their end. -/
theorem calculate_takes_body {bound : Nat} {c d : Context} {a : Decimal}
    (hclosed : IsClosed c.tokens) (h : calculate settings bound c = .ok a d) : d.tokens = [] := by
  obtain ⟨taken, -, htaken, htokens⟩ := calculate_takes settings bound c a d h
  rw [htokens] at hclosed
  exact (calculate_atEnd h).eq_nil (hclosed.of_append htaken)

/-! ## Where arguments end -/

/-- Behind an expression no further arguments are taken only where its tokens are used up or the
parenthesis is closed. -/
theorem allOperands_end {bound : Nat} {c d : Context} {pairs : List (Symbol × Decimal)}
    (hc : c.AtEnd)
    (h : allOperands [.separator] (calculate settings bound) c = .ok pairs d) :
    d.tokens = [] ∨ ∃ rest, d.tokens = .symbol .parenClose :: rest := by
  have hkeeps := calculate_follows settings bound
  induction hlength : c.tokens.length using Nat.strongRecOn generalizing c pairs with
  | ind length ih =>
    rw [allOperands_unfold _ (follows_length hkeeps)] at h
    rcases acceptOneOf_cases [.separator] c with ⟨s, rest, htokens, -, hsome⟩ | ⟨hfront, hnone⟩
    · rw [bind_ok hsome] at h
      obtain ⟨a, c₁, ha, h⟩ := bind_eq_ok_iff.1 h
      obtain ⟨more, c₂, hmore, h⟩ := bind_eq_ok_iff.1 h
      cases h
      have hlt : c₁.tokens.length < length := by
        have hle := follows_length hkeeps ha
        rw [← hlength, htokens]
        exact Nat.lt_succ_of_le hle
      exact ih _ hlt (calculate_atEnd ha) hmore rfl
    · rw [bind_ok hnone] at h
      cases h
      rcases hc with hnil | ⟨-, hclose | hseparator⟩
      · exact .inl hnil
      · exact .inr (List.head?_eq_some_iff.1 hclose)
      · obtain ⟨rest, hrest⟩ := List.head?_eq_some_iff.1 hseparator
        exact absurd (List.mem_singleton_self _) (hfront _ rest hrest)

theorem items_end {bound : Nat} {c d : Context} {values : List Decimal}
    (h : items (calculate settings bound) c = .ok values d) :
    d.tokens = [] ∨ ∃ rest, d.tokens = .symbol .parenClose :: rest := by
  obtain ⟨first, c₁, hfirst, h⟩ := bind_eq_ok_iff.1 h
  obtain ⟨pairs, c₂, hpairs, h⟩ := bind_eq_ok_iff.1 h
  cases h
  exact allOperands_end (calculate_atEnd hfirst) hpairs

/-! ## Closed bodies -/

theorem stable_hasClosedBodies (settings : Settings) :
    Stable settings (fun c d => c.HasClosedBodies → d.HasClosedBodies) where
  refl _ := id
  trans h h' := h' ∘ h
  drop _ := id
  assign _ _ h := h
  define := by
    intro c name body rest after _ hcap h
    exact h.insert name (capture_eq_ok_iff.1 hcap).2.1
  group h := h
  body _ _ h := h

variable {inner : Eval Decimal} {c d : Context}

theorem Nests.hasClosedBodies
    (hinner : Keeps (fun c d => c.HasClosedBodies → d.HasClosedBodies) inner) {place : Place}
    (h : Nests settings inner c place d) (hc : c.HasClosedBodies) : d.HasClosedBodies := by
  obtain ⟨e, he, hleads⟩ := h.leads (stable_hasClosedBodies settings) hinner
  cases place with
  | group => exact hleads (he hc)
  | body =>
    obtain ⟨name, body, actuals, -, rfl⟩ := hleads
    exact he hc
  | assigned =>
    obtain ⟨t, rest, -, rfl⟩ := hleads
    exact he hc

theorem Visits.hasClosedBodies {bound bound' : Nat} {path : List Place}
    (h : Visits settings bound c path bound' d) (hc : c.HasClosedBodies) : d.HasClosedBodies := by
  induction h with
  | here bound c => exact hc
  | nested hnests _ ih =>
    exact ih (hnests.hasClosedBodies ((stable_hasClosedBodies settings).calculate _) hc)

/-- Where all bodies are closed, a call that returns has evaluated its body to the end. -/
theorem Nests.body_taken {bound : Nat} {d' : Context} {a : Decimal} (hc : c.HasClosedBodies)
    (h : Nests settings (calculate settings bound) c .body d)
    (hd : calculate settings bound d = .ok a d') : d'.tokens = [] := by
  have hR := stable_hasClosedBodies settings
  obtain ⟨e, he, name, body, actuals, hbody, rfl⟩ := h.leads hR (hR.calculate bound)
  exact calculate_takes_body (he hc name body hbody) hd

end Eval

end DecimalCalculator
