import DecimalCalculator.Proofs.Evaluation.Preservation

/-!
# Evaluations that mirror one another

Two contexts may show different tokens for one number: a variable that has a known value in the one
may stand as this number in the other (`Token.resolve`). They may also differ in what an evaluation
does not look at, and their evaluations may fail with failures that differ in what they carry. A
relation between contexts is mirrored when related contexts show the same tokens but for the known
variables, are at the same depth, give the variable that is read next the value that the other shows
or reads, and are led to related contexts by every step. Then a whole evaluation comes to the same
value from both, or to two failures that are related as well, and the contexts that it leaves are
related again (`Mirroring.calculate`).

How definitions and calls of user functions are mirrored is left to the relation, since there the
two may differ in what is stored.
-/
namespace DecimalCalculator

def IsUserName (name : String) : Prop :=
  name ≠ "abs" ∧ name ≠ "pow"

/-- The token with its value in the place of a variable that is known. -/
def Token.resolve (known : String → Option Decimal) : Token → Token
  | .read name =>
    match known name with
    | some value => .number value
    | none => .read name
  | t => t

namespace Token

variable {known : String → Option Decimal}

theorem resolve_known {name : String} {value : Decimal} (h : known name = some value) :
    resolve known (.read name) = .number value := by
  simp [resolve, h]

theorem resolve_unknown {name : String} (h : known name = none) :
    resolve known (.read name) = .read name := by
  simp [resolve, h]

theorem resolve_none (t : Token) : resolve (fun _ => none) t = t := by
  cases t <;> rfl

theorem map_resolve_none (ts : List Token) : ts.map (resolve fun _ => none) = ts := by
  rw [funext resolve_none, List.map_id']

theorem resolve_eq_symbol_iff {t : Token} {s : Symbol} :
    resolve known t = .symbol s ↔ t = .symbol s := by
  cases t with
  | read name =>
    cases h : known name with
    | none => simp [resolve_unknown h]
    | some value => simp [resolve_known h]
  | symbol other => rfl
  | number value => rfl
  | call name => rfl
  | assign name => rfl

theorem head?_map_resolve {ts : List Token} {s : Symbol} :
    (ts.map (resolve known)).head? = some (.symbol s) ↔ ts.head? = some (.symbol s) := by
  cases ts with
  | nil => rfl
  | cons t rest => simp [resolve_eq_symbol_iff]

end Token

namespace Eval

variable {α β : Type}

/-- The same value or two related failures, in outcomes whose contexts are related. -/
inductive Mirrored (S : Failure → Failure → Prop) (R : Context → Context → Prop) :
    Outcome α → Outcome α → Prop
  | ok {a : α} {c c' : Context} : R c c' → Mirrored S R (.ok a c) (.ok a c')
  | error {failure failure' : Failure} {c c' : Context} : S failure failure' → R c c' →
    Mirrored S R (.error failure c) (.error failure' c')

/-- From related contexts the computation comes to mirrored outcomes. -/
def Mirrors (S : Failure → Failure → Prop) (R : Context → Context → Prop) (m : Eval α) : Prop :=
  ∀ c c', R c c' → Mirrored S R (m c) (m c')

/-- Related contexts look alike to every step of an evaluation but for the variables that are known,
and stay related. -/
structure Mirroring (settings : Settings) (known : String → Option Decimal)
    (S : Failure → Failure → Prop) (R : Context → Context → Prop) : Prop where
  same (failure : Failure) : S failure failure
  leftover (t : Token) :
    S (CalcError.expectedEnd t) (CalcError.expectedEnd (t.resolve known))
  depth {c c' : Context} : R c c' → c'.depth = c.depth
  tokens {c c' : Context} : R c c' → c'.tokens = c.tokens.map (Token.resolve known)
  read {c c' : Context} {name : String} {rest : List Token} : R c c' →
    c.tokens = .read name :: rest →
    c.values.get? name = (known name).or (c'.values.get? name)
  drop {c c' : Context} {rest : List Token} : R c c' → rest <:+ c.tokens →
    R {c with tokens := rest} {c' with tokens := rest.map (Token.resolve known)}
  assign {c c' d d' : Context} {name : String} {rest : List Token} (value : Decimal) : R c c' →
    c.tokens = .assign name :: rest → R d d' →
    R {d with values := d.values.insert name value}
      {d' with values := d'.values.insert name value}
  define {c c' : Context} {name : String} {rest : List Token} : R c c' →
    c.tokens = .assign name :: .symbol .parenOpen :: rest →
    Mirrored S R (Eval.define settings name {c with tokens := rest})
      (Eval.define settings name {c' with tokens := rest.map (Token.resolve known)})
  enterGroup {c c' : Context} : R c c' → R c.enterGroup c'.enterGroup
  leaveGroup {c c' : Context} : R c c' → R c.leaveGroup c'.leaveGroup
  call {c c' d d' : Context} {name : String} {rest : List Token} {inner : Eval Decimal}
    (actuals : List Decimal) : Mirrors S R inner → R c c' →
    c.tokens = .call name :: .symbol .parenOpen :: rest → IsUserName name → R d d' →
    Mirrored S R (Eval.call settings inner name actuals d)
      (Eval.call settings inner name actuals d')

section

variable {S : Failure → Failure → Prop} {R : Context → Context → Prop}

theorem Mirrored.mapContext {o o' : Outcome α} (h : Mirrored S R o o') {f f' : Context → Context}
    (hf : ∀ d d', R d d' → R (f d) (f' d')) :
    Mirrored S R (Outcome.mapContext f o) (Outcome.mapContext f' o') := by
  cases h with
  | ok h => exact .ok (hf _ _ h)
  | error hfailure h => exact .error hfailure (hf _ _ h)

theorem Mirrored.bind {m : Eval α} {f : α → Eval β} {c c' : Context}
    (h : Mirrored S R (m c) (m c')) (hf : ∀ a, Mirrors S R (f a)) :
    Mirrored S R ((m >>= f) c) ((m >>= f) c') := by
  generalize ho : m c = o at h
  generalize ho' : m c' = o' at h
  cases h with
  | ok h =>
    rw [bind_ok ho, bind_ok ho']
    exact hf _ _ _ h
  | error hfailure h =>
    rw [bind_error ho, bind_error ho']
    exact .error hfailure h

theorem Mirrors.bind {m : Eval α} {f : α → Eval β} (hm : Mirrors S R m)
    (hf : ∀ a, Mirrors S R (f a)) : Mirrors S R (m >>= f) :=
  fun c c' h => (hm c c' h).bind hf

theorem mirrors_pure (a : α) : Mirrors S R (pure a : Eval α) := fun _ _ h => .ok h

end

section

variable {settings : Settings} {known : String → Option Decimal} {S : Failure → Failure → Prop}
  {R : Context → Context → Prop} (hR : Mirroring settings known S R)
include hR

theorem Mirroring.fail (error : CalcError) : Mirrors S R (Eval.fail error : Eval α) :=
  fun _ _ h => .error (hR.same _) h

theorem Mirroring.ofExcept (result : Except Failure α) : Mirrors S R (Eval.ofExcept result) := by
  intro c c' h
  cases result with
  | ok a => exact .ok h
  | error failure => exact .error (hR.same failure) h

theorem Mirroring.sole (values : List Decimal) : Mirrors S R (Eval.sole values) := by
  unfold Eval.sole
  split
  · exact mirrors_pure _
  · exact hR.fail _

theorem Mirroring.tokens_eq {c c' : Context} {ts : List Token} (h : R c c') (hts : c.tokens = ts) :
    c'.tokens = ts.map (Token.resolve known) := by
  rw [hR.tokens h, hts]

theorem Mirroring.drop_cons {c c' : Context} {t : Token} {rest : List Token} (h : R c c')
    (htokens : c.tokens = t :: rest) :
    R {c with tokens := rest} {c' with tokens := rest.map (Token.resolve known)} :=
  hR.drop h (htokens ▸ List.suffix_cons t rest)

theorem Mirroring.head?_iff {c c' : Context} (h : R c c') (s : Symbol) :
    c'.tokens.head? = some (.symbol s) ↔ c.tokens.head? = some (.symbol s) := by
  rw [hR.tokens h]
  exact Token.head?_map_resolve

/-! ## Taking tokens -/

theorem Mirroring.accept (s : Symbol) : Mirrors S R (Eval.accept (.symbol s)) := by
  intro c c' h
  rcases accept_cases s c with ⟨rest, htokens, haccept⟩ | ⟨hne, haccept⟩
  · rw [haccept, accept_cons (hR.tokens_eq h htokens)]
    exact .ok (hR.drop_cons h htokens)
  · rw [haccept, accept_of_ne (by rwa [ne_eq, hR.head?_iff h])]
    exact .ok h

theorem Mirroring.acceptOneOf (symbols : List Symbol) :
    Mirrors S R (Eval.acceptOneOf symbols) := by
  intro c c' h
  rcases acceptOneOf_cases symbols c with ⟨s, rest, htokens, hs, haccept⟩ | ⟨hne, haccept⟩
  · rw [haccept, acceptOneOf_cons (hR.tokens_eq h htokens) hs]
    exact .ok (hR.drop_cons h htokens)
  · have hne' : ∀ s rest, c'.tokens = .symbol s :: rest → s ∉ symbols := by
      intro s rest htokens
      have hhead := (hR.head?_iff h s).1 (by rw [htokens, List.head?_cons])
      obtain ⟨more, hmore⟩ := List.head?_eq_some_iff.1 hhead
      exact hne s more hmore
    rw [haccept, acceptOneOf_of_notMem hne']
    exact .ok h

theorem Mirroring.takeRun (s : Symbol) : Mirrors S R (Eval.takeRun s) := by
  intro c c' h
  have hsame : (fun t : Token => t == .symbol s) ∘ Token.resolve known = (· == .symbol s) := by
    funext t
    rw [Function.comp_apply, Bool.eq_iff_iff, beq_iff_eq, beq_iff_eq]
    exact Token.resolve_eq_symbol_iff
  unfold Eval.takeRun
  rw [hR.tokens h, List.takeWhile_map, List.dropWhile_map, hsame, List.length_map]
  exact .ok (hR.drop h (List.dropWhile_suffix _))

theorem Mirroring.atEnd_iff {c c' : Context} (h : R c c') : c'.AtEnd ↔ c.AtEnd := by
  unfold Context.AtEnd
  rw [hR.head?_iff h, hR.head?_iff h, hR.depth h, hR.tokens h, List.map_eq_nil_iff]

theorem Mirroring.finish : Mirrors S R Eval.finish := by
  intro c c' h
  by_cases hend : c.AtEnd
  · rw [finish_of_atEnd hend, finish_of_atEnd ((hR.atEnd_iff h).2 hend)]
    exact .ok h
  · obtain ⟨t, rest, htokens, hfinish⟩ := finish_of_not_atEnd hend
    obtain ⟨t', rest', htokens', hfinish'⟩ := finish_of_not_atEnd (mt (hR.atEnd_iff h).1 hend)
    cases (hR.tokens_eq h htokens).symm.trans htokens'
    rw [hfinish, hfinish']
    exact .error (hR.leftover t) (hR.drop_cons h htokens)

/-! ## Chains -/

theorem Mirroring.operands (operators : List Symbol) {operand : Eval α}
    (hm : Mirrors S R operand) (bound : TokenStream) :
    Mirrors S R (Eval.operands operators operand bound) := by
  induction bound with
  | nil => exact mirrors_pure []
  | cons t bound ih =>
    refine (hR.acceptOneOf operators).bind fun op => ?_
    cases op with
    | none => exact mirrors_pure []
    | some op => exact hm.bind fun value => ih.bind fun rest => mirrors_pure _

omit hR in
/-- Of the tokens that bound a chain only the number counts. -/
theorem operands_of_length_eq (operators : List Symbol) (operand : Eval α)
    {bound bound' : TokenStream} (h : bound.length = bound'.length) :
    Eval.operands operators operand bound = Eval.operands operators operand bound' := by
  induction bound generalizing bound' with
  | nil =>
    cases List.length_eq_zero_iff.1 h.symm
    rfl
  | cons t bound ih =>
    obtain ⟨t', more, rfl⟩ := List.exists_cons_of_length_eq_add_one h.symm
    rw [Eval.operands, Eval.operands, ih (Nat.succ.inj h)]

theorem Mirroring.allOperands (operators : List Symbol) {operand : Eval α}
    (hm : Mirrors S R operand) : Mirrors S R (Eval.allOperands operators operand) := by
  intro c c' h
  have hlength : c'.tokens.length = c.tokens.length := by rw [hR.tokens h, List.length_map]
  rw [Eval.allOperands, bind_ok (get_apply c), bind_ok (get_apply c'),
    operands_of_length_eq operators operand hlength]
  exact hR.operands operators hm c.tokens c c' h

theorem Mirroring.chain (operators : List Symbol) (apply : Symbol → α → α → Except Failure α)
    {operand : Eval α} (hm : Mirrors S R operand) :
    Mirrors S R (Eval.chain operators apply operand) :=
  hm.bind fun _ => (hR.allOperands operators hm).bind fun _ => hR.ofExcept _

/-! ## Atoms -/

/-- A variable that is known is read as its number stands. -/
theorem Mirroring.atom_of_read {c c' : Context} {name : String} {rest : List Token} (h : R c c')
    (htokens : c.tokens = .read name :: rest) (inner : Eval Decimal) :
    Mirrored S R (Eval.atom settings inner c) (Eval.atom settings inner c') := by
  have hrest := hR.drop_cons h htokens
  have hread := hR.read h htokens
  have htokens' := hR.tokens_eq h htokens
  rw [List.map_cons] at htokens'
  rw [atom_read htokens]
  cases hknown : known name with
  | some value =>
    rw [Token.resolve_known hknown] at htokens'
    rw [hknown, Option.some_or] at hread
    rw [atom_number htokens', lookup]
    simp only [hread]
    exact .ok hrest
  | none =>
    rw [Token.resolve_unknown hknown] at htokens'
    rw [hknown, Option.none_or] at hread
    rw [atom_read htokens', lookup, lookup]
    simp only [hread]
    cases c'.values.get? name with
    | some value => exact .ok hrest
    | none => exact .error (hR.same _) hrest

theorem Mirroring.close (values : List Decimal) : Mirrors S R (Eval.close values) := by
  refine (hR.accept .parenClose).bind fun taken => ?_
  cases taken with
  | none => exact hR.fail _
  | some _ => exact mirrors_pure values

variable {inner : Eval Decimal} (hinner : Mirrors S R inner)
include hinner

theorem Mirroring.items : Mirrors S R (Eval.items inner) :=
  hinner.bind fun _ => (hR.allOperands _ hinner).bind fun _ => mirrors_pure _

theorem Mirroring.arguments : Mirrors S R (Eval.arguments inner) := by
  intro c c' h
  by_cases hclose : c.tokens.head? = some (.symbol .parenClose)
  · obtain ⟨rest, hrest⟩ := List.head?_eq_some_iff.1 hclose
    rw [arguments_empty hrest, arguments_empty (hR.tokens_eq h hrest)]
    exact .ok (hR.drop_cons h hrest)
  · rw [arguments_items hclose, arguments_items (mt (hR.head?_iff h _).1 hclose)]
    refine Mirrored.bind ?_ hR.close
    rw [inGroup_apply, inGroup_apply]
    exact (hR.items hinner _ _ (hR.enterGroup h)).mapContext fun _ _ => hR.leaveGroup

/-- A call that stands before the arguments is mirrored: the functions of the calculator look at
nothing but their arguments. -/
theorem Mirroring.call_of_tokens {c c' d d' : Context} {name : String} {rest : List Token}
    (actuals : List Decimal) (h : R c c')
    (htokens : c.tokens = .call name :: .symbol .parenOpen :: rest) (hd : R d d') :
    Mirrored S R (Eval.call settings inner name actuals d)
      (Eval.call settings inner name actuals d') := by
  by_cases habs : name = "abs"
  · unfold Eval.call
    rw [if_pos habs]
    split
    · exact .ok hd
    · exact .error (hR.same _) hd
  by_cases hpow : name = "pow"
  · unfold Eval.call
    rw [if_neg habs, if_pos hpow]
    split
    · exact hR.ofExcept _ d d' hd
    · exact .error (hR.same _) hd
  exact hR.call actuals hinner h htokens ⟨habs, hpow⟩ hd

theorem Mirroring.atom : Mirrors S R (Eval.atom settings inner) := by
  intro c c' h
  cases htokens : c.tokens with
  | nil =>
    rw [atom_nil htokens, atom_nil (hR.tokens_eq h htokens)]
    exact .error (hR.same _) h
  | cons t rest =>
    have htokens' := hR.tokens_eq h htokens
    have hrest := hR.drop_cons h htokens
    cases t with
    | symbol s =>
      by_cases hs : s = .parenOpen
      · subst hs
        rw [atom_group htokens, atom_group htokens']
        exact (hR.arguments hinner _ _ hrest).bind hR.sole
      · rw [atom_symbol htokens hs, atom_symbol htokens' hs]
        exact .error (hR.same _) hrest
    | number value =>
      rw [atom_number htokens, atom_number htokens']
      exact .ok hrest
    | read name => exact hR.atom_of_read h htokens inner
    | call name =>
      by_cases hopen : rest.head? = some (.symbol .parenOpen)
      · obtain ⟨more, rfl⟩ := List.head?_eq_some_iff.1 hopen
        rw [atom_call htokens, atom_call htokens']
        have hmore := hR.drop h (show more <:+ c.tokens by
          rw [htokens]; exact List.suffix_append [_, _] more)
        refine (hR.arguments hinner _ _ hmore).bind fun actuals d d' hd => ?_
        exact hR.call_of_tokens hinner actuals h htokens hd
      · rw [atom_call_of_ne htokens hopen,
          atom_call_of_ne htokens' (mt Token.head?_map_resolve.1 hopen)]
        exact .error (hR.same _) hrest
    | assign name =>
      by_cases hopen : rest.head? = some (.symbol .parenOpen)
      · obtain ⟨more, rfl⟩ := List.head?_eq_some_iff.1 hopen
        rw [atom_define htokens, atom_define htokens']
        exact (hR.define h htokens).bind fun _ => mirrors_pure _
      · rw [atom_assign htokens hopen,
          atom_assign htokens' (mt Token.head?_map_resolve.1 hopen)]
        refine (hinner _ _ hrest).bind fun value => Mirrors.bind ?_ fun _ => mirrors_pure _
        exact fun _ _ hd => .ok (hR.assign value h htokens hd)

/-! ## Expressions -/

theorem Mirroring.primary : Mirrors S R (Eval.primary settings inner) :=
  (hR.takeRun .sub).bind fun _ => (hR.atom hinner).bind fun _ => mirrors_pure _

theorem Mirroring.complemented : Mirrors S R (Eval.complemented settings inner) :=
  (hR.takeRun .not).bind fun _ => (hR.primary hinner).bind fun _ => hR.ofExcept _

theorem Mirroring.operand : Mirrors S R (Eval.operand settings inner) := by
  refine (hR.complemented hinner).bind fun value => (hR.accept .factorial).bind fun taken => ?_
  cases taken with
  | none => exact mirrors_pure value
  | some _ => exact hR.ofExcept _

theorem Mirroring.cascade (tiers : List Level) :
    Mirrors S R (Eval.cascade settings inner tiers) := by
  induction tiers with
  | nil => exact hR.operand hinner
  | cons level rest ih => exact hR.chain level.operators _ ih

theorem Mirroring.expression : Mirrors S R (Eval.expression settings inner) := by
  intro c c' h
  by_cases hdepth : c.depth < settings.maxDepth
  · rw [expression_of_lt hdepth, expression_of_lt (by rwa [hR.depth h])]
    refine (hR.cascade hinner levels c c' h).bind fun value => ?_
    exact hR.finish.bind fun _ => mirrors_pure value
  · have hdepth' := Int.not_lt.1 hdepth
    rw [expression_of_le hdepth', expression_of_le (by rwa [hR.depth h])]
    exact .error (hR.same _) h

omit hinner in
theorem Mirroring.calculate (bound : Nat) : Mirrors S R (Eval.calculate settings bound) := by
  induction bound with
  | zero => exact hR.fail _
  | succ bound ih => exact hR.expression ih

end

end Eval

end DecimalCalculator
