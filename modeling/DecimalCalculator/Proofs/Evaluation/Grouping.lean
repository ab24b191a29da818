import DecimalCalculator.Proofs.Evaluation.Atoms
import DecimalCalculator.Proofs.Evaluation.Consumption
import DecimalCalculator.Proofs.Evaluation.Depth

/-!
# Groups are transparent

A group has the value of what stands in it, and binds the same names. The evaluation inside the
parentheses is not that of the tokens alone: it is one level deeper, and the closing parenthesis
stands behind the tokens, so every level that looks behind an operand may see it, where there was
nothing to see before. The two evaluations are compared step by step. The second context is inside
one more pair of parentheses (`Context.IsInside`), under settings that allow one level more, and a
computation that returns in the first context returns the same in the second (`Carries`).

Only evaluations that return are carried over. One that fails may fail otherwise: at the outermost
level a closing parenthesis that is left is an error, and inside a group it is not.
-/
namespace DecimalCalculator

/-- A closing parenthesis and what follows it, or nothing at all. -/
def IsTail (tail : List Token) : Prop :=
  tail = [] ∨ tail.head? = some (.symbol .parenClose)

theorem IsTail.head?_ne {tail : List Token} (h : IsTail tail) {t : Token}
    (ht : t ≠ .symbol .parenClose) : tail.head? ≠ some t := by
  intro hhead
  rcases h with rfl | h
  · cases hhead
  · exact ht (Option.some.inj (hhead.symm.trans h))

/-- What is not in front of the tokens is not in front of them and a tail either. -/
theorem IsTail.head?_append_ne {tail : List Token} (h : IsTail tail) {t : Token}
    (ht : t ≠ .symbol .parenClose) {ts : List Token} (hts : ts.head? ≠ some t) :
    (ts ++ tail).head? ≠ some t := by
  cases ts with
  | nil => exact h.head?_ne ht
  | cons u ts => exact hts

/-- A run of signs ends before a tail. -/
theorem IsTail.takeWhile_dropWhile {tail : List Token} (h : IsTail tail) {s : Symbol}
    (hs : s ≠ .parenClose) (ts : List Token) :
    (ts ++ tail).takeWhile (· == .symbol s) = ts.takeWhile (· == .symbol s) ∧
      (ts ++ tail).dropWhile (· == .symbol s) = ts.dropWhile (· == .symbol s) ++ tail := by
  induction ts with
  | nil =>
    cases tail with
    | nil => exact ⟨rfl, rfl⟩
    | cons t tail =>
      have hne : t ≠ .symbol s := fun ht =>
        h.head?_ne (t := .symbol s) (by simpa using hs) (congrArg some ht)
      simp [hne]
  | cons t ts ih =>
    rw [List.cons_append, List.takeWhile_cons, List.takeWhile_cons, List.dropWhile_cons,
      List.dropWhile_cons]
    split
    · exact ⟨congrArg (t :: ·) ih.1, ih.2⟩
    · exact ⟨rfl, rfl⟩

/-- The second context is the first one inside one more pair of parentheses: with the same bindings
one level deeper, and with a tail behind its tokens. -/
structure Context.IsInside (depth : Nat) (tail : List Token) (c c' : Context) : Prop where
  outside : c.depth = depth
  inside : c'.depth = depth + 1
  isTail : IsTail tail
  tokens : c'.tokens = c.tokens ++ tail
  values : c'.values = c.values
  functions : c'.functions = c.functions

namespace Context.IsInside

variable {depth : Nat} {tail : List Token} {c c' : Context}

theorem tokens_eq (h : c.IsInside depth tail c') {ts : List Token} (hts : c.tokens = ts) :
    c'.tokens = ts ++ tail := by
  rw [h.tokens, hts]

theorem withTokens (h : c.IsInside depth tail c') (rest : List Token) :
    {c with tokens := rest}.IsInside depth tail {c' with tokens := rest ++ tail} :=
  ⟨h.outside, h.inside, h.isTail, rfl, h.values, h.functions⟩

theorem head?_ne (h : c.IsInside depth tail c') {s : Symbol} (hs : s ≠ .parenClose)
    (hne : c.tokens.head? ≠ some (.symbol s)) : c'.tokens.head? ≠ some (.symbol s) := by
  rw [h.tokens]
  exact h.isTail.head?_append_ne (by simpa using hs) hne

theorem enterGroup (h : c.IsInside depth tail c') :
    c.enterGroup.IsInside (depth + 1) tail c'.enterGroup :=
  ⟨congrArg (· + 1) h.outside, congrArg (· + 1) h.inside, h.isTail, h.tokens, h.values, h.functions⟩

theorem leaveGroup (h : c.IsInside (depth + 1) tail c') :
    c.leaveGroup.IsInside depth tail c'.leaveGroup := by
  refine ⟨?_, ?_, h.isTail, h.tokens, h.values, h.functions⟩
  · change c.depth - 1 = depth
    rw [h.outside]
    omega
  · change c'.depth - 1 = depth + 1
    rw [h.inside]
    omega

theorem enterBody (h : c.IsInside depth tail c') (name : String) (body : List Token)
    (actuals : List Decimal) :
    (c.enterBody name body actuals).IsInside (depth + 1) [] (c'.enterBody name body actuals) :=
  ⟨congrArg (· + 1) h.outside, congrArg (· + 1) h.inside, .inl rfl, (List.append_nil body).symm,
    congrArg (Eval.bindFrom 1 · actuals) h.values, h.functions⟩

theorem leaveBody {d d' : Context} (h : c.IsInside depth tail c')
    (hd : d.IsInside (depth + 1) [] d') (count : Nat) :
    (c.leaveBody count d).IsInside depth tail (c'.leaveBody count d') :=
  ⟨h.outside, h.inside, h.isTail, h.tokens, congrArg (Eval.unbind · count) hd.values, hd.functions⟩

theorem atEnd (h : c.IsInside depth tail c') (hend : c.AtEnd) : c'.AtEnd := by
  have hdeeper : c'.depth ≠ 0 := by
    rw [h.inside]
    omega
  have hhead {t : Token} (ht : c.tokens.head? = some t) : c'.tokens.head? = some t := by
    obtain ⟨rest, hrest⟩ := List.head?_eq_some_iff.1 ht
    rw [h.tokens_eq hrest]
    rfl
  rcases hend with hnil | ⟨-, hclose | hseparator⟩
  · rcases h.isTail with htail | htail
    · exact .inl (by rw [h.tokens, hnil, htail, List.append_nil])
    · exact .inr ⟨hdeeper, .inl (by rw [h.tokens, hnil, List.nil_append, htail])⟩
  · exact .inr ⟨hdeeper, .inl (hhead hclose)⟩
  · exact .inr ⟨hdeeper, .inr (hhead hseparator)⟩

end Context.IsInside

theorem IsShallow.mono {bound bound' opened : Nat} {ts : List Token} (h : IsShallow bound opened ts)
    (hle : bound ≤ bound') : IsShallow bound' opened ts :=
  fun front back k hts hne hk => Nat.lt_of_lt_of_le (h front back k hts hne hk) hle

namespace Eval

open Context

variable {α β : Type}

/-- A value that the first outcome returns the second returns as well, in the same place inside
parentheses. -/
def CarriesTo (depth : Nat) (tail : List Token) (o o' : Outcome α) : Prop :=
  ∀ a d, o = .ok a d → ∃ d', o' = .ok a d' ∧ d.IsInside depth tail d'

/-- What the first computation returns in a context, the second returns inside one more pair of
parentheses. -/
def Carries (m m' : Eval α) : Prop :=
  ∀ depth tail c c', c.IsInside depth tail c' → CarriesTo depth tail (m c) (m' c')

section

variable {depth : Nat} {tail : List Token} {c c' : Context}

theorem carriesTo_ok {a : α} {d d' : Context} (h : d.IsInside depth tail d') :
    CarriesTo depth tail (.ok a d) (.ok a d') := by
  rintro _ _ ⟨⟩
  exact ⟨d', rfl, h⟩

theorem carriesTo_error (failure : Failure) (d : Context) (o' : Outcome α) :
    CarriesTo depth tail (.error failure d) o' := by
  rintro _ _ ⟨⟩

theorem CarriesTo.bind_of_ok {m m' : Eval α} {f f' : α → Eval β}
    (hm : CarriesTo depth tail (m c) (m' c'))
    (hf : ∀ a d d', m c = .ok a d → d.IsInside depth tail d' →
      CarriesTo depth tail (f a d) (f' a d')) :
    CarriesTo depth tail ((m >>= f) c) ((m' >>= f') c') := by
  intro b e h
  obtain ⟨a, d, ha, h⟩ := bind_eq_ok_iff.1 h
  obtain ⟨d', ha', hd⟩ := hm a d ha
  rw [bind_ok ha']
  exact hf a d d' ha hd b e h

theorem CarriesTo.bind {m m' : Eval α} {f f' : α → Eval β}
    (hm : CarriesTo depth tail (m c) (m' c')) (hf : ∀ a, Carries (f a) (f' a)) :
    CarriesTo depth tail ((m >>= f) c) ((m' >>= f') c') :=
  hm.bind_of_ok fun a d d' _ hd => hf a depth tail d d' hd

end

theorem Carries.bind {m m' : Eval α} {f f' : α → Eval β} (hm : Carries m m')
    (hf : ∀ a, Carries (f a) (f' a)) : Carries (m >>= f) (m' >>= f') :=
  fun depth tail c c' h => (hm depth tail c c' h).bind hf

theorem carries_pure (a : α) : Carries (pure a) (pure a) :=
  fun _ _ _ _ h => carriesTo_ok h

theorem carries_fail (error : CalcError) (m' : Eval α) : Carries (fail error) m' :=
  fun _ _ c _ _ => carriesTo_error _ c _

theorem carries_ofExcept (x : Except Failure α) : Carries (ofExcept x) (ofExcept x) := by
  intro depth tail c c' h
  cases x with
  | ok a => exact carriesTo_ok h
  | error failure => exact carriesTo_error failure c _

/-! ## Taking tokens -/

theorem carries_accept {s : Symbol} (hs : s ≠ .parenClose) :
    Carries (accept (.symbol s)) (accept (.symbol s)) := by
  intro depth tail c c' h
  rcases accept_cases s c with ⟨rest, htokens, haccept⟩ | ⟨hne, haccept⟩
  · rw [haccept, accept_cons (h.tokens_eq htokens)]
    exact carriesTo_ok (h.withTokens rest)
  · rw [haccept, accept_of_ne (h.head?_ne hs hne)]
    exact carriesTo_ok h

theorem carries_acceptOneOf {symbols : List Symbol} (hsymbols : .parenClose ∉ symbols) :
    Carries (acceptOneOf symbols) (acceptOneOf symbols) := by
  intro depth tail c c' h
  rcases acceptOneOf_cases symbols c with ⟨s, rest, htokens, hs, haccept⟩ | ⟨hnone, haccept⟩
  · rw [haccept, acceptOneOf_cons (h.tokens_eq htokens) hs]
    exact carriesTo_ok (h.withTokens rest)
  · have hnone' : ∀ s rest, c'.tokens = .symbol s :: rest → s ∉ symbols := by
      intro s rest htokens hs
      refine h.head?_ne (s := s) ?_ ?_ (by rw [htokens]; rfl)
      · rintro rfl
        exact hsymbols hs
      · intro hhead
        obtain ⟨more, hmore⟩ := List.head?_eq_some_iff.1 hhead
        exact hnone s more hmore hs
    rw [haccept, acceptOneOf_of_notMem hnone']
    exact carriesTo_ok h

theorem carries_takeRun {s : Symbol} (hs : s ≠ .parenClose) : Carries (takeRun s) (takeRun s) := by
  intro depth tail c c' h
  obtain ⟨htake, hdrop⟩ := h.isTail.takeWhile_dropWhile hs c.tokens
  unfold takeRun
  rw [h.tokens, htake, hdrop]
  exact carriesTo_ok (h.withTokens _)

theorem carries_finish : Carries finish finish := by
  intro depth tail c c' h
  by_cases hend : c.AtEnd
  · rw [finish_of_atEnd hend, finish_of_atEnd (h.atEnd hend)]
    exact carriesTo_ok h
  · obtain ⟨t, rest, -, hfinish⟩ := finish_of_not_atEnd hend
    rw [hfinish]
    exact carriesTo_error _ _ _

/-! ## Chains -/

/-- The operands are counted against different streams, so their chains are compared as recursions,
by induction over the tokens that are left. -/
theorem carries_allOperands {operators : List Symbol} {m m' : Eval α}
    (hoperators : .parenClose ∉ operators) (hkeeps : Keeps Follows m) (hkeeps' : Keeps Follows m')
    (hm : Carries m m') : Carries (allOperands operators m) (allOperands operators m') := by
  intro depth tail c c' h
  induction hlength : c.tokens.length using Nat.strongRecOn generalizing c c' with
  | ind length ih =>
    rw [allOperands_unfold operators (follows_length hkeeps),
      allOperands_unfold operators (follows_length hkeeps')]
    refine (carries_acceptOneOf hoperators depth tail c c' h).bind_of_ok fun taken d d' ht hd => ?_
    cases taken with
    | none => exact carries_pure [] depth tail d d' hd
    | some op =>
      refine (hm depth tail d d' hd).bind_of_ok fun value e e' hvalue he => ?_
      have hlt : e.tokens.length < length := by
        have hle := follows_length hkeeps hvalue
        rcases acceptOneOf_cases operators c with ⟨s, rest, htokens, -, hsome⟩ | ⟨-, hnone⟩
        · rw [hsome] at ht
          cases ht
          rw [← hlength, htokens]
          exact Nat.lt_succ_of_le hle
        · rw [hnone] at ht
          cases ht
      exact (ih _ hlt e e' he rfl).bind fun rest => carries_pure _

theorem carries_chain {operators : List Symbol} {m m' : Eval α}
    (apply : Symbol → α → α → Except Failure α) (hoperators : .parenClose ∉ operators)
    (hkeeps : Keeps Follows m) (hkeeps' : Keeps Follows m') (hm : Carries m m') :
    Carries (chain operators apply m) (chain operators apply m') :=
  hm.bind fun _ => (carries_allOperands hoperators hkeeps hkeeps' hm).bind fun _ =>
    carries_ofExcept _

/-! ## Atoms -/

theorem carries_lookup (name : String) : Carries (lookup name) (lookup name) := by
  intro depth tail c c' h
  unfold lookup
  rw [h.values]
  cases c.values.get? name with
  | some value => exact carriesTo_ok h
  | none => exact carriesTo_error _ c _

theorem carries_sole (values : List Decimal) : Carries (sole values) (sole values) := by
  unfold sole
  split
  · exact carries_pure _
  · exact carries_fail _ _

theorem carries_assign (name : String) (value : Decimal) :
    Carries (assign name value) (assign name value) :=
  fun _ _ _ _ h => carriesTo_ok ⟨h.outside, h.inside, h.isTail, h.tokens,
    congrArg (·.insert name value) h.values, h.functions⟩

theorem carries_close (values : List Decimal) : Carries (close values) (close values) := by
  intro depth tail c c' h
  by_cases hclose : c.tokens.head? = some (.symbol .parenClose)
  · obtain ⟨rest, hrest⟩ := List.head?_eq_some_iff.1 hclose
    rw [close_cons values hrest, close_cons values (h.tokens_eq hrest)]
    exact carriesTo_ok (h.withTokens rest)
  · rw [close_of_ne values hclose]
    exact carriesTo_error _ c _

section

variable {settings settings' : Settings} {inner inner' : Eval Decimal}

theorem carries_define (hle : settings.maxDepth ≤ settings'.maxDepth) (name : String) :
    Carries (define settings name) (define settings' name) := by
  intro depth tail c c' h
  cases hcap : capture settings.maxDepth 1 c.tokens with
  | mk captured after =>
    cases captured with
    | error error =>
      rw [define_of_capture_error name hcap]
      exact carriesTo_error _ _ _
    | ok body =>
      obtain ⟨htokens, hclosed, hshallow⟩ := capture_eq_ok_iff.1 hcap
      have hcap' : capture settings'.maxDepth 1 c'.tokens = (.ok body, after ++ tail) :=
        capture_eq_ok_iff.2 ⟨by simp [h.tokens, htokens], hclosed, hshallow.mono hle⟩
      rw [define_of_capture_ok name hcap, define_of_capture_ok name hcap']
      exact carriesTo_ok ⟨h.outside, h.inside, h.isTail, rfl, h.values,
        congrArg (·.insert name body) h.functions⟩

variable (hkeeps : Keeps Follows inner) (hkeeps' : Keeps Follows inner')
  (htakes : AlwaysTakes inner) (hinner : Carries inner inner')
include hinner

theorem carries_call (hmemory : settings.memory = settings'.memory)
    (hprecision : settings.precision = settings'.precision) (name : String)
    (actuals : List Decimal) :
    Carries (call settings inner name actuals) (call settings' inner' name actuals) := by
  intro depth tail c c' h
  by_cases habs : name = "abs"
  · unfold call
    rw [if_pos habs, if_pos habs]
    split
    · exact carriesTo_ok h
    · exact carriesTo_error _ c _
  by_cases hpow : name = "pow"
  · unfold call
    rw [if_neg habs, if_neg habs, if_pos hpow, if_pos hpow, hmemory,
      hprecision]
    split
    · exact carries_ofExcept _ depth tail c c' h
    · exact carriesTo_error _ c _
  cases hbody : c.functions.get? name with
  | none =>
    rw [call_unknown habs hpow hbody]
    exact carriesTo_error _ c _
  | some body =>
    have hbody' : c'.functions.get? name = some body := by rw [h.functions, hbody]
    rw [call_user habs hpow hbody, call_user habs hpow hbody', callBody_apply, callBody_apply]
    intro a e he
    obtain ⟨d, hd, rfl⟩ := Outcome.mapContext_eq_ok_iff.1 he
    obtain ⟨d', hd', hinside⟩ := hinner _ _ _ _ (h.enterBody name body actuals) a d hd
    refine ⟨c'.leaveBody actuals.length d', ?_, h.leaveBody hinside actuals.length⟩
    exact Outcome.mapContext_eq_ok_iff.2 ⟨d', hd', rfl⟩

include hkeeps hkeeps'

theorem carries_items : Carries (items inner) (items inner') :=
  hinner.bind fun _ => (carries_allOperands (by decide) hkeeps hkeeps' hinner).bind fun _ =>
    carries_pure _

include htakes

theorem carries_arguments : Carries (arguments inner) (arguments inner') := by
  intro depth tail c c' h
  by_cases hempty : c.tokens.head? = some (.symbol .parenClose)
  · obtain ⟨rest, hrest⟩ := List.head?_eq_some_iff.1 hempty
    rw [arguments_empty hrest, arguments_empty (h.tokens_eq hrest)]
    exact carriesTo_ok (h.withTokens rest)
  · rw [arguments_items hempty]
    intro values e hvalues
    obtain ⟨given, c₁, hgroup, hclose⟩ := bind_eq_ok_iff.1 hvalues
    rw [inGroup_apply] at hgroup
    obtain ⟨d, hitems, rfl⟩ := Outcome.mapContext_eq_ok_iff.1 hgroup
    -- The first argument has a token, and so the parenthesis behind all tokens is not in front.
    have hempty' : c'.tokens.head? ≠ some (.symbol .parenClose) := by
      obtain ⟨first, c₂, hfirst, -⟩ := bind_eq_ok_iff.1 hitems
      obtain ⟨taken, hne, -, htaken⟩ := htakes _ _ _ hfirst
      obtain ⟨t, more, rfl⟩ := List.exists_cons_of_ne_nil hne
      change c.tokens = t :: more ++ c₂.tokens at htaken
      rw [htaken] at hempty
      rw [h.tokens, htaken]
      exact hempty
    obtain ⟨d', hitems', hd⟩ :=
      carries_items hkeeps hkeeps' hinner _ _ _ _ h.enterGroup given d hitems
    have hgroup' : inGroup (items inner') c' = .ok given d'.leaveGroup := by
      rw [inGroup_apply, hitems']
      rfl
    rw [arguments_items hempty', bind_ok hgroup']
    exact carries_close given depth tail _ _ hd.leaveGroup values e hclose

theorem carries_atom (hmemory : settings.memory = settings'.memory)
    (hprecision : settings.precision = settings'.precision)
    (hle : settings.maxDepth ≤ settings'.maxDepth) :
    Carries (atom settings inner) (atom settings' inner') := by
  intro depth tail c c' h
  cases htokens : c.tokens with
  | nil =>
    rw [atom_nil htokens]
    exact carriesTo_error _ c _
  | cons t rest =>
    have htokens' := h.tokens_eq htokens
    have hrest := h.withTokens rest
    cases t with
    | symbol s =>
      by_cases hs : s = .parenOpen
      · subst hs
        rw [atom_group htokens, atom_group htokens']
        exact (carries_arguments hkeeps hkeeps' htakes hinner _ _ _ _ hrest).bind carries_sole
      · rw [atom_symbol htokens hs]
        exact carriesTo_error _ _ _
    | number value =>
      rw [atom_number htokens, atom_number htokens']
      exact carriesTo_ok hrest
    | read name =>
      rw [atom_read htokens, atom_read htokens']
      exact carries_lookup name _ _ _ _ hrest
    | call name =>
      by_cases hopen : rest.head? = some (.symbol .parenOpen)
      · obtain ⟨more, rfl⟩ := List.head?_eq_some_iff.1 hopen
        rw [atom_call htokens, atom_call htokens']
        exact (carries_arguments hkeeps hkeeps' htakes hinner _ _ _ _ (h.withTokens more)).bind
          (carries_call hinner hmemory hprecision name)
      · rw [atom_call_of_ne htokens hopen]
        exact carriesTo_error _ _ _
    | assign name =>
      by_cases hopen : rest.head? = some (.symbol .parenOpen)
      · obtain ⟨more, rfl⟩ := List.head?_eq_some_iff.1 hopen
        rw [atom_define htokens, atom_define htokens']
        exact (carries_define hle name _ _ _ _ (h.withTokens more)).bind fun _ => carries_pure _
      · rw [atom_assign htokens hopen,
          atom_assign htokens' (h.isTail.head?_append_ne (by simp) hopen)]
        exact (hinner _ _ _ _ hrest).bind fun value =>
          (carries_assign name value).bind fun _ => carries_pure _

/-! ## Expressions -/

theorem carries_operand (hmemory : settings.memory = settings'.memory)
    (hprecision : settings.precision = settings'.precision)
    (hle : settings.maxDepth ≤ settings'.maxDepth) :
    Carries (operand settings inner) (operand settings' inner') := by
  have hprimary : Carries (primary settings inner) (primary settings' inner') :=
    (carries_takeRun (by simp)).bind fun _ =>
      (carries_atom hkeeps hkeeps' htakes hinner hmemory hprecision hle).bind fun _ => carries_pure _
  have hcomplemented : Carries (complemented settings inner) (complemented settings' inner') :=
    (carries_takeRun (by simp)).bind fun _ => hprimary.bind fun _ => carries_ofExcept _
  refine hcomplemented.bind fun value => (carries_accept (by simp)).bind fun taken => ?_
  cases taken with
  | none => exact carries_pure value
  | some _ =>
    simp only [hmemory]
    exact carries_ofExcept _

theorem carries_cascade (hmemory : settings.memory = settings'.memory)
    (hprecision : settings.precision = settings'.precision)
    (hle : settings.maxDepth ≤ settings'.maxDepth) {tiers : List Level} (htiers : tiers ⊆ levels) :
    Carries (cascade settings inner tiers) (cascade settings' inner' tiers) := by
  have hlevels : ∀ level ∈ levels, .parenClose ∉ level.operators := by decide
  induction tiers with
  | nil => exact carries_operand hkeeps hkeeps' htakes hinner hmemory hprecision hle
  | cons level rest ih =>
    obtain ⟨hlevel, hrest⟩ := List.cons_subset.1 htiers
    rw [cascade, cascade, hmemory, hprecision]
    exact carries_chain _ (hlevels level hlevel) ((stable_follows settings).cascade hkeeps rest)
      ((stable_follows settings').cascade hkeeps' rest) (ih hrest)

theorem carries_expression (hmemory : settings.memory = settings'.memory)
    (hprecision : settings.precision = settings'.precision)
    (hdepth : settings'.maxDepth = settings.maxDepth + 1) :
    Carries (expression settings inner) (expression settings' inner') := by
  intro depth tail c c' h
  by_cases hlower : c.depth < settings.maxDepth
  · have hlower' : c'.depth < settings'.maxDepth := by
      have hat := h.outside
      rw [h.inside, hdepth]
      omega
    rw [expression_of_lt hlower, expression_of_lt hlower']
    have hcascade := carries_cascade hkeeps hkeeps' htakes hinner hmemory hprecision
      (Nat.le.intro hdepth.symm) (List.Subset.refl levels) depth tail c c' h
    exact hcascade.bind fun value => carries_finish.bind fun _ => carries_pure value
  · rw [expression_of_le (Int.not_lt.1 hlower)]
    exact carriesTo_error _ c _

end

/-- What an evaluation returns it returns inside one more pair of parentheses, if one level more and
at least as many open expressions are allowed. -/
theorem calculate_carries {settings settings' : Settings}
    (hmemory : settings.memory = settings'.memory)
    (hprecision : settings.precision = settings'.precision)
    (hdepth : settings'.maxDepth = settings.maxDepth + 1) {bound bound' : Nat}
    (hbound : bound ≤ bound') :
    Carries (calculate settings bound) (calculate settings' bound') := by
  induction bound generalizing bound' with
  | zero => exact carries_fail _ _
  | succ bound ih =>
    obtain ⟨more, rfl⟩ : ∃ more, bound' = more + 1 := ⟨bound' - 1, by omega⟩
    exact carries_expression (calculate_follows settings bound) (calculate_follows settings' more)
      (calculate_takes settings bound) (ih (by omega)) hmemory hprecision hdepth

theorem atom_of_group {settings : Settings} {inner : Eval Decimal} {c d : Context}
    {rest after : List Token} {value : Decimal} (htokens : c.tokens = .symbol .parenOpen :: rest)
    (hrest : rest.head? ≠ some (.symbol .parenClose))
    (h : inner {c with tokens := rest}.enterGroup = .ok value d)
    (hd : d.tokens = .symbol .parenClose :: after) :
    atom settings inner c = .ok value {d.leaveGroup with tokens := after} := by
  have hnone : ∀ s more, d.tokens = .symbol s :: more → s ∉ [Symbol.separator] := by
    intro s more hs
    rw [hd] at hs
    cases hs
    decide
  have hothers : allOperands [.separator] inner d = .ok [] d :=
    operands_of_none (acceptOneOf_of_notMem hnone)
  have hitems : items inner {c with tokens := rest}.enterGroup = .ok [value] d := by
    rw [items, bind_ok h, bind_ok hothers]
    rfl
  have hgroup : inGroup (items inner) {c with tokens := rest} = .ok [value] d.leaveGroup := by
    rw [inGroup_apply, hitems]
    rfl
  have harguments : arguments inner {c with tokens := rest} =
      .ok [value] {d.leaveGroup with tokens := after} := by
    rw [arguments_items (c := {c with tokens := rest}) hrest, bind_ok hgroup]
    exact close_cons [value] (c := d.leaveGroup) hd
  rw [atom_group htokens, bind_ok harguments]
  rfl

end Eval

theorem Settings.expressionLimit_lt {settings settings' : Settings}
    (hmachine : settings'.toMachine = settings.toMachine)
    (hdepth : settings'.maxDepth = settings.maxDepth + 1) :
    settings.expressionLimit < settings'.expressionLimit := by
  have hroom := settings.room
  rw [expressionLimit, expressionLimit, hmachine, hdepth]
  simp only [framesPerLevel, framesPerExpression] at *
  omega

open Eval in
/-- Grouping is transparent. What an evaluation returns, it returns for the same tokens in a pair of
parentheses from the same bindings on the same machine, if one level more is allowed: the very same
value, and the same variables and functions afterwards. -/
theorem evaluate_group (settings settings' : Settings)
    (hmachine : settings'.toMachine = settings.toMachine)
    (hprecision : settings'.precision = settings.precision)
    (hdepth : settings'.maxDepth = settings.maxDepth + 1) {tokens : List Token}
    {values : Bindings Decimal} {functions : Bindings (List Token)} {value : Decimal} {d : Context}
    (h : evaluate settings tokens values functions = .ok value d) :
    ∃ d', evaluate settings' (Token.symbol .parenOpen :: tokens ++ [.symbol .parenClose]) values
        functions = .ok value d' ∧
      d'.values = d.values ∧ d'.functions = d.functions := by
  -- The evaluation inside the parentheses.
  have hlimit := Settings.expressionLimit_lt hmachine hdepth
  obtain ⟨more, hmore⟩ := Nat.exists_eq_succ_of_ne_zero (Nat.ne_zero_of_lt hlimit)
  let outer :=
    Context.start (Token.symbol .parenOpen :: tokens ++ [.symbol .parenClose]) values functions
  have hstart : (Context.start tokens values functions).IsInside 0 [.symbol .parenClose]
      {outer with tokens := tokens ++ [Token.symbol .parenClose]}.enterGroup :=
    ⟨rfl, rfl, .inr rfl, rfl, rfl, rfl⟩
  have hcarries :
      Carries (calculate settings settings.expressionLimit) (calculate settings' more) :=
    calculate_carries (congrArg Machine.memory hmachine.symm) hprecision.symm hdepth (by omega)
  obtain ⟨e, he, hinside⟩ := hcarries 0 _ _ _ hstart value d h
  -- Outside of everything the evaluation without them has come to the end.
  have hend : d.tokens = [] := by
    rcases calculate_atEnd h with hnil | ⟨hne, -⟩
    · exact hnil
    · exact absurd hinside.outside hne
  have hparen : e.tokens = [.symbol .parenClose] := hinside.tokens_eq hend
  have hfirst : (tokens ++ [Token.symbol .parenClose]).head? ≠ some (.symbol .parenClose) := by
    obtain ⟨taken, hne, hclosed, htaken⟩ := calculate_takes settings _ _ _ _ h
    obtain ⟨t, rest, rfl⟩ := List.exists_cons_of_ne_nil hne
    change tokens = t :: rest ++ d.tokens at htaken
    rw [htaken]
    rintro ⟨⟩
    cases hclosed
  have hatom : atom settings' (calculate settings' more) outer =
      .ok value {e.leaveGroup with tokens := []} :=
    atom_of_group rfl hfirst he hparen
  refine ⟨{e.leaveGroup with tokens := []}, ?_, hinside.values, hinside.functions⟩
  rw [evaluate, hmore]
  exact expression_of_atom (c := outer) (by simp [outer, Context.start])
    (by simp [outer, Context.start]) (Int.ofNat_lt.2 settings'.maxDepth_pos) hatom (.inl rfl)

open Eval in
/-- With `f` adding one to its argument, `f(1) + x = 3` gives two under a greatest depth of two and
binds `x` to three. With a pair of parentheses around it, it does so under a greatest depth of
three. -/
theorem evaluate_group_of_call :
    Outcome.result (evaluate (.ofDepth 2 (by decide) (by decide))
        [.call "f", .symbol .parenOpen, .number Decimal.one, .symbol .parenClose, .symbol .add,
          .assign "x", .number (.finite false 3 0)] .empty
        (Bindings.empty.insert "f" [.read "$1", .symbol .add, .number Decimal.one])) =
      .ok (.finite false 2 0) ∧
    ∃ d, evaluate (.ofDepth 3 (by decide) (by decide))
        [.symbol .parenOpen, .call "f", .symbol .parenOpen, .number Decimal.one,
          .symbol .parenClose, .symbol .add, .assign "x", .number (.finite false 3 0),
          .symbol .parenClose] .empty
        (Bindings.empty.insert "f" [.read "$1", .symbol .add, .number Decimal.one]) =
      .ok (.finite false 2 0) d ∧ d.values.get? "x" = some (.finite false 3 0) := by
  have hvalue : Outcome.result (evaluate (.ofDepth 2 (by decide) (by decide))
      [.call "f", .symbol .parenOpen, .number Decimal.one, .symbol .parenClose, .symbol .add,
        .assign "x", .number (.finite false 3 0)] .empty
      (Bindings.empty.insert "f" [.read "$1", .symbol .add, .number Decimal.one])) =
        .ok (.finite false 2 0) := by
    decide +kernel
  have hbound : (Outcome.context (evaluate (.ofDepth 2 (by decide) (by decide))
      [.call "f", .symbol .parenOpen, .number Decimal.one, .symbol .parenClose, .symbol .add,
        .assign "x", .number (.finite false 3 0)] .empty
      (Bindings.empty.insert "f" [.read "$1", .symbol .add, .number Decimal.one]))).values.get?
        "x" = some (.finite false 3 0) := by
    decide +kernel
  obtain ⟨d, hd, hvalues, -⟩ := evaluate_group (.ofDepth 2 (by decide) (by decide))
    (.ofDepth 3 (by decide) (by decide)) rfl rfl rfl
    (Outcome.eq_ok_of_toOption (congrArg Except.toOption hvalue))
  exact ⟨hvalue, d, hd, by rw [hvalues, hbound]⟩

end DecimalCalculator
