import DecimalCalculator.Evaluation.Cascade

/-!
# Steps of an evaluation

Every evaluation is put together from a few steps: taking tokens, entering groups and bodies, and
binding names. Here each step and each kind of atom has one equation, chosen by the tokens to come.
What is proved elsewhere about whole evaluations rests on these equations alone and never opens the
steps again.
-/
namespace DecimalCalculator

namespace Context

def enterGroup (c : Context) : Context :=
  {c with depth := c.depth + 1}.record (.enterGroup (c.depth + 1))

def leaveGroup (c : Context) : Context :=
  {c with depth := c.depth - 1}.record (.leaveGroup (c.depth - 1))

def enterBody (c : Context) (name : String) (body : List Token) (actuals : List Decimal) :
    Context :=
  ({c with values := Eval.bindFrom 1 c.values actuals}.record
    (.call name actuals (c.depth + 1))).nested body

/-- The context after a call that was made in the context `c` with `count` arguments, and whose
body left the context `d`. -/
def leaveBody (c : Context) (count : Nat) (d : Context) : Context :=
  {d with depth := c.depth, tokens := c.tokens, values := Eval.unbind d.values count}

/-- Nothing is left to an expression in this context: its tokens are used up, or the next one
belongs to what encloses it. -/
def AtEnd (c : Context) : Prop :=
  c.tokens = [] ∨ c.depth ≠ 0 ∧
    (c.tokens.head? = some (.symbol .parenClose) ∨ c.tokens.head? = some (.symbol .separator))

end Context

namespace Outcome

variable {α : Type}

@[simp] theorem context_ok (a : α) (c : Context) : context (.ok a c) = c := rfl

@[simp] theorem context_error (failure : Failure) (c : Context) :
    context (.error failure c : Outcome α) = c := rfl

@[simp] theorem result_ok (a : α) (c : Context) : result (.ok a c) = .ok a := rfl

@[simp] theorem result_error (failure : Failure) (c : Context) :
    result (.error failure c : Outcome α) = .error failure := rfl

@[simp] theorem context_mapContext (f : Context → Context) (o : Outcome α) :
    context (mapContext f o) = f (context o) := by
  cases o <;> rfl

@[simp] theorem result_mapContext (f : Context → Context) (o : Outcome α) :
    result (mapContext f o) = result o := by
  cases o <;> rfl

theorem eq_ok_of_toOption {o : Outcome α} {a : α} (h : (result o).toOption = some a) :
    o = .ok a (context o) := by
  cases o with
  | ok b c =>
    cases h
    rfl
  | error failure c => cases h

theorem mapContext_eq_ok_iff {f : Context → Context} {o : Outcome α} {a : α} {d : Context} :
    mapContext f o = .ok a d ↔ ∃ e, o = .ok a e ∧ f e = d := by
  cases o with
  | ok b e => simp only [mapContext, EStateM.Result.ok.injEq]; grind
  | error failure e => simp [mapContext]

end Outcome

namespace Eval

variable {α β : Type}

/-! ## Sequences -/

theorem bind_ok {m : Eval α} {c d : Context} {a : α} (h : m c = .ok a d) (f : α → Eval β) :
    (m >>= f) c = f a d := by
  change EStateM.bind m f c = _
  rw [EStateM.bind, h]

theorem bind_error {m : Eval α} {c d : Context} {failure : Failure} (h : m c = .error failure d)
    (f : α → Eval β) : (m >>= f) c = .error failure d := by
  change EStateM.bind m f c = _
  rw [EStateM.bind, h]

theorem bind_eq_ok_iff {m : Eval α} {f : α → Eval β} {c e : Context} {b : β} :
    (m >>= f) c = .ok b e ↔ ∃ a d, m c = .ok a d ∧ f a d = .ok b e := by
  cases h : m c with
  | ok a d =>
    rw [bind_ok h]
    constructor
    · exact fun hf => ⟨a, d, rfl, hf⟩
    · rintro ⟨_, _, heq, hf⟩
      cases heq
      exact hf
  | error failure d => rw [bind_error h]; simp

theorem bind_eq_error_iff {m : Eval α} {f : α → Eval β} {c e : Context} {failure : Failure} :
    (m >>= f) c = .error failure e ↔
      m c = .error failure e ∨ ∃ a d, m c = .ok a d ∧ f a d = .error failure e := by
  cases h : m c with
  | ok a d =>
    rw [bind_ok h]
    constructor
    · exact fun hf => .inr ⟨a, d, rfl, hf⟩
    · rintro (herror | ⟨_, _, heq, hf⟩)
      · cases herror
      · cases heq
        exact hf
  | error failure' d => rw [bind_error h]; simp

theorem bind_congr_left {m m' : Eval α} {c : Context} (h : m c = m' c) (f : α → Eval β) :
    (m >>= f) c = (m' >>= f) c := by
  change EStateM.bind m f c = EStateM.bind m' f c
  rw [EStateM.bind, EStateM.bind, h]

theorem bind_congr_right {m : Eval α} {f g : α → Eval β} {c : Context}
    (h : ∀ a d, m c = .ok a d → f a d = g a d) : (m >>= f) c = (m >>= g) c := by
  cases hm : m c with
  | ok a d => rw [bind_ok hm, bind_ok hm, h a d hm]
  | error failure d => rw [bind_error hm, bind_error hm]

theorem ofExcept_eq_ok_iff {result : Except Failure α} {c d : Context} {a : α} :
    ofExcept result c = .ok a d ↔ result = .ok a ∧ c = d := by
  cases result <;> simp [ofExcept]

theorem ofExcept_eq_error_iff {result : Except Failure α} {c d : Context} {failure : Failure} :
    ofExcept result c = .error failure d ↔ result = .error failure ∧ c = d := by
  cases result <;> simp [ofExcept]

theorem inGroup_apply (m : Eval α) (c : Context) :
    inGroup m c = Outcome.mapContext Context.leaveGroup (m c.enterGroup) := rfl

theorem get_apply (c : Context) : (get : Eval Context) c = .ok c c := rfl

theorem peek_apply (c : Context) : peek c = .ok c.tokens.head? c := rfl

/-! ## Taking tokens -/

theorem kind_eq_symbol_iff {t : Token} {s : Symbol} : t.kind = .symbol s ↔ t = .symbol s := by
  cases t <;> simp [Token.kind]

theorem accept_cons {c : Context} {s : Symbol} {rest : List Token}
    (h : c.tokens = .symbol s :: rest) :
    accept (.symbol s) c = .ok (some (.symbol s)) {c with tokens := rest} := by
  simp [accept, TokenStream.peekKind, TokenStream.peek, TokenStream.next, next, h, Token.kind]

theorem accept_of_ne {c : Context} {s : Symbol} (h : c.tokens.head? ≠ some (.symbol s)) :
    accept (.symbol s) c = .ok none c := by
  have hkind : c.tokens.peekKind ≠ some (.symbol s) := by
    intro hk
    obtain ⟨t, ht, hts⟩ := Option.map_eq_some_iff.1 hk
    exact h (ht.trans (congrArg some (kind_eq_symbol_iff.1 hts)))
  simp only [accept, hkind, if_false]

theorem accept_cases (s : Symbol) (c : Context) :
    (∃ rest, c.tokens = .symbol s :: rest ∧
      accept (.symbol s) c = .ok (some (.symbol s)) {c with tokens := rest}) ∨
    (c.tokens.head? ≠ some (.symbol s) ∧ accept (.symbol s) c = .ok none c) := by
  by_cases h : c.tokens.head? = some (.symbol s)
  · obtain ⟨rest, hrest⟩ := List.head?_eq_some_iff.1 h
    exact .inl ⟨rest, hrest, accept_cons hrest⟩
  · exact .inr ⟨h, accept_of_ne h⟩

theorem acceptOneOf_cons {c : Context} {s : Symbol} {symbols : List Symbol} {rest : List Token}
    (h : c.tokens = .symbol s :: rest) (hs : s ∈ symbols) :
    acceptOneOf symbols c = .ok (some s) {c with tokens := rest} := by
  simp [acceptOneOf, h, hs]

theorem acceptOneOf_of_notMem {c : Context} {symbols : List Symbol}
    (h : ∀ s rest, c.tokens = .symbol s :: rest → s ∉ symbols) :
    acceptOneOf symbols c = .ok none c := by
  unfold acceptOneOf
  split
  · next s rest hrest => rw [if_neg (h s rest hrest)]
  · rfl

theorem acceptOneOf_cases (symbols : List Symbol) (c : Context) :
    (∃ s rest, c.tokens = .symbol s :: rest ∧ s ∈ symbols ∧
      acceptOneOf symbols c = .ok (some s) {c with tokens := rest}) ∨
    ((∀ s rest, c.tokens = .symbol s :: rest → s ∉ symbols) ∧
      acceptOneOf symbols c = .ok none c) := by
  by_cases h : ∃ s rest, c.tokens = .symbol s :: rest ∧ s ∈ symbols
  · obtain ⟨s, rest, hrest, hs⟩ := h
    exact .inl ⟨s, rest, hrest, hs, acceptOneOf_cons hrest hs⟩
  · have hnone : ∀ s rest, c.tokens = .symbol s :: rest → s ∉ symbols :=
      fun s rest hrest hs => h ⟨s, rest, hrest, hs⟩
    exact .inr ⟨hnone, acceptOneOf_of_notMem hnone⟩

/-! ## Atoms -/

section

variable {settings : Settings} {inner : Eval Decimal} {c : Context} {rest : List Token}

theorem atom_nil (h : c.tokens = []) :
    atom settings inner c = .error CalcError.invalidSyntax c := by
  obtain ⟨depth, tokens, values, functions, trace⟩ := c
  cases h
  rfl

theorem atom_number {value : Decimal} (h : c.tokens = .number value :: rest) :
    atom settings inner c = .ok value {c with tokens := rest} := by
  obtain ⟨depth, tokens, values, functions, trace⟩ := c
  cases h
  rfl

theorem atom_read {name : String} (h : c.tokens = .read name :: rest) :
    atom settings inner c = lookup name {c with tokens := rest} := by
  obtain ⟨depth, tokens, values, functions, trace⟩ := c
  cases h
  rfl

theorem atom_group (h : c.tokens = .symbol .parenOpen :: rest) :
    atom settings inner c = (arguments inner >>= sole) {c with tokens := rest} := by
  obtain ⟨depth, tokens, values, functions, trace⟩ := c
  cases h
  rfl

theorem atom_symbol {s : Symbol} (h : c.tokens = .symbol s :: rest) (hs : s ≠ .parenOpen) :
    atom settings inner c = .error CalcError.invalidSyntax {c with tokens := rest} := by
  obtain ⟨depth, tokens, values, functions, trace⟩ := c
  cases h
  cases s <;> first | rfl | exact absurd rfl hs

theorem atom_call {name : String} (h : c.tokens = .call name :: .symbol .parenOpen :: rest) :
    atom settings inner c =
      (arguments inner >>= call settings inner name) {c with tokens := rest} := by
  obtain ⟨depth, tokens, values, functions, trace⟩ := c
  cases h
  rfl

theorem atom_call_of_ne {name : String} (h : c.tokens = .call name :: rest)
    (hrest : rest.head? ≠ some (.symbol .parenOpen)) :
    atom settings inner c = .error CalcError.invalidSyntax {c with tokens := rest} := by
  have hnext : next c = .ok (some (.call name)) {c with tokens := rest} := by
    simp [next, TokenStream.next, h]
  rw [atom, bind_ok hnext]
  exact bind_ok (accept_of_ne (c := {c with tokens := rest}) hrest) _

theorem atom_define {name : String} (h : c.tokens = .assign name :: .symbol .parenOpen :: rest) :
    atom settings inner c =
      (define settings name >>= fun _ => pure Decimal.zero) {c with tokens := rest} := by
  obtain ⟨depth, tokens, values, functions, trace⟩ := c
  cases h
  rfl

theorem atom_assign {name : String} (h : c.tokens = .assign name :: rest)
    (hrest : rest.head? ≠ some (.symbol .parenOpen)) :
    atom settings inner c =
      (inner >>= fun value => assign name value >>= fun _ => pure Decimal.zero)
        {c with tokens := rest} := by
  have hnext : next c = .ok (some (.assign name)) {c with tokens := rest} := by
    simp [next, TokenStream.next, h]
  rw [atom, bind_ok hnext]
  exact bind_ok (accept_of_ne (c := {c with tokens := rest}) hrest) _

theorem define_of_capture_ok (name : String) {body : List Token}
    (h : capture settings.maxDepth 1 c.tokens = (.ok body, rest)) :
    define settings name c =
      .ok () ({c with tokens := rest, functions := c.functions.insert name body}.record
        (.define name body.length)) := by
  simp only [define, h]

theorem define_of_capture_error (name : String) {error : CalcError}
    (h : capture settings.maxDepth 1 c.tokens = (.error error, rest)) :
    define settings name c = .error error {c with tokens := rest} := by
  simp only [define, h]

/-! ## Arguments -/

/-- The arguments between the parentheses, of which there is at least one. -/
def items (inner : Eval Decimal) : Eval (List Decimal) := do
  let first ← inner
  let rest ← allOperands [.separator] inner
  pure (first :: rest.map Prod.snd)

def close (values : List Decimal) : Eval (List Decimal) := do
  match ← accept (.symbol .parenClose) with
  | some _ => pure values
  | none => fail .unclosedParen

theorem arguments_empty (h : c.tokens = .symbol .parenClose :: rest) :
    arguments inner c = .ok [] {c with tokens := rest} := by
  obtain ⟨depth, tokens, values, functions, trace⟩ := c
  cases h
  rfl

theorem arguments_items (h : c.tokens.head? ≠ some (.symbol .parenClose)) :
    arguments inner c = (inGroup (items inner) >>= close) c := by
  rw [arguments, bind_ok (peek_apply c), if_neg h]
  rfl

theorem close_cons (values : List Decimal) (h : c.tokens = .symbol .parenClose :: rest) :
    close values c = .ok values {c with tokens := rest} :=
  bind_ok (accept_cons h) _

theorem close_of_ne (values : List Decimal) (h : c.tokens.head? ≠ some (.symbol .parenClose)) :
    close values c = .error CalcError.unclosedParen c :=
  bind_ok (accept_of_ne h) _

/-! ## Calls -/

theorem callBody_apply (name : String) (body : List Token) (actuals : List Decimal) :
    callBody inner name body actuals c =
      Outcome.mapContext (c.leaveBody actuals.length) (inner (c.enterBody name body actuals)) := by
  change Outcome.mapContext _ (Outcome.mapContext _ (inner (c.enterBody name body actuals))) = _
  cases inner (c.enterBody name body actuals) <;> rfl

theorem call_user {name : String} {body : List Token} (habs : name ≠ "abs") (hpow : name ≠ "pow")
    (hbody : c.functions.get? name = some body) (actuals : List Decimal) :
    call settings inner name actuals c = callBody inner name body actuals c := by
  unfold call
  rw [if_neg habs, if_neg hpow, bind_ok (get_apply c), hbody]

theorem call_unknown {name : String} (habs : name ≠ "abs") (hpow : name ≠ "pow")
    (hbody : c.functions.get? name = none) (actuals : List Decimal) :
    call settings inner name actuals c = .error (CalcError.unknownFunction name) c := by
  unfold call
  rw [if_neg habs, if_neg hpow, bind_ok (get_apply c), hbody]
  rfl

/-! ## Signs -/

/-- Runs of signs are taken together; with one more sign the rest of the run is the same. -/
theorem takeRun_cons {s : Symbol} (h : c.tokens = .symbol s :: rest) :
    takeRun s c =
      (takeRun s >>= fun count => pure (count + 1)) {c with tokens := rest} := by
  obtain ⟨depth, tokens, values, functions, trace⟩ := c
  cases h
  change EStateM.Result.ok _ _ = EStateM.Result.ok _ _
  simp

theorem takeRun_of_ne {s : Symbol} (h : c.tokens.head? ≠ some (.symbol s)) :
    takeRun s c = .ok 0 c := by
  obtain ⟨depth, tokens, values, functions, trace⟩ := c
  cases tokens with
  | nil => rfl
  | cons t rest =>
    have ht : (t == .symbol s) = false := beq_eq_false_iff_ne.2 fun ht => h (congrArg some ht)
    simp [takeRun, ht]

/-- Counting one sign first is counting the others. -/
theorem takeRun_bind_cons {s : Symbol} (h : c.tokens = .symbol s :: rest) (f : Nat → Eval Decimal) :
    (takeRun s >>= f) c = (takeRun s >>= fun count => f (count + 1)) {c with tokens := rest} := by
  obtain ⟨count, d, hrun⟩ : ∃ count d, takeRun s {c with tokens := rest} = .ok count d :=
    ⟨_, _, rfl⟩
  have hcons : takeRun s c = .ok (count + 1) d := by
    rw [takeRun_cons h, bind_ok hrun]
    rfl
  rw [bind_ok hcons, bind_ok hrun]

theorem neg_neg (a : Decimal) : a.neg.neg = a := by
  cases a <;> simp [Decimal.neg]

theorem primary_sub (h : c.tokens = .symbol .sub :: rest) :
    primary settings inner c =
      (primary settings inner >>= fun value => pure value.neg) {c with tokens := rest} := by
  have hparity (count : Nat) (value : Decimal) :
      (if (count + 1) % 2 = 1 then value.neg else value) =
        (if count % 2 = 1 then value.neg else value).neg := by
    rcases Nat.mod_two_eq_zero_or_one count with hc | hc
    · rw [if_pos (by omega), if_neg (by omega)]
    · rw [if_neg (by omega), if_pos hc, neg_neg]
  simp only [primary, bind_assoc, pure_bind, ← hparity]
  exact takeRun_bind_cons h _

theorem primary_of_ne (h : c.tokens.head? ≠ some (.symbol .sub)) :
    primary settings inner c = atom settings inner c := by
  rw [primary, bind_ok (takeRun_of_ne h)]
  exact congrFun (bind_pure (atom settings inner)) c

theorem complements_succ (count : Nat) (value : Decimal) :
    Arithmetic.complements (count + 1) value =
      Arithmetic.complements count value >>= Arithmetic.complement := by
  induction count generalizing value with
  | zero => exact bind_pure (Arithmetic.complement value)
  | succ count ih =>
    calc Arithmetic.complements (count + 2) value
        = Arithmetic.complement value >>= Arithmetic.complements (count + 1) := rfl
      _ = Arithmetic.complement value >>=
            fun next => Arithmetic.complements count next >>= Arithmetic.complement := by
          rw [funext ih]
      _ = Arithmetic.complements (count + 1) value >>= Arithmetic.complement :=
          (bind_assoc _ _ _).symm

theorem ofExcept_bind (result : Except Failure α) (f : α → Except Failure β) :
    ofExcept (result >>= f) = ofExcept result >>= fun a => ofExcept (f a) := by
  cases result <;> rfl

theorem complemented_not (h : c.tokens = .symbol .not :: rest) :
    complemented settings inner c =
      (complemented settings inner >>= fun value => ofExcept (Arithmetic.complement value))
        {c with tokens := rest} := by
  simp only [complemented, bind_assoc, ← ofExcept_bind, ← complements_succ]
  exact takeRun_bind_cons h _

theorem complemented_of_ne (h : c.tokens.head? ≠ some (.symbol .not)) :
    complemented settings inner c = primary settings inner c := by
  rw [complemented, bind_ok (takeRun_of_ne h)]
  exact congrFun (bind_pure (primary settings inner)) c

/-! ## Expressions -/

theorem finish_of_atEnd (h : c.AtEnd) : finish c = .ok () c := by
  obtain ⟨depth, tokens, values, functions, trace⟩ := c
  rcases h with h | ⟨hdepth, h⟩
  · cases h
    rfl
  · cases tokens with
    | nil => rfl
    | cons t rest =>
      simp only [List.head?_cons, Option.some.injEq] at h
      rw [finish, bind_ok (peek_apply _)]
      exact (bind_ok (get_apply _) _).trans (by rw [if_pos ⟨hdepth, h⟩]; rfl)

theorem finish_of_not_atEnd (h : ¬c.AtEnd) :
    ∃ t rest, c.tokens = t :: rest ∧
      finish c = .error (CalcError.expectedEnd t) {c with tokens := rest} := by
  obtain ⟨depth, tokens, values, functions, trace⟩ := c
  cases tokens with
  | nil => exact absurd (.inl rfl) h
  | cons t rest =>
    refine ⟨t, rest, rfl, ?_⟩
    have hstop : ¬(depth ≠ 0 ∧ (t = .symbol .parenClose ∨ t = .symbol .separator)) := by
      rintro ⟨hdepth, ht⟩
      exact h (.inr ⟨hdepth, by simpa using ht⟩)
    rw [finish, bind_ok (peek_apply _)]
    exact (bind_ok (get_apply _) _).trans (by rw [if_neg hstop]; rfl)

theorem expression_of_le (h : (settings.maxDepth : Int) ≤ c.depth) :
    expression settings inner c = .error (CalcError.tooDeep .depth) c := by
  rw [expression, bind_ok (get_apply c), if_pos h]
  rfl

theorem expression_of_lt (h : c.depth < settings.maxDepth) :
    expression settings inner c =
      (cascade settings inner levels >>= fun value => finish >>= fun _ => pure value) c := by
  rw [expression, bind_ok (get_apply c), if_neg (Int.not_le.2 h)]

end

end Eval

end DecimalCalculator
