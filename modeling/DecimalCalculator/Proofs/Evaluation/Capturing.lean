import DecimalCalculator.Proofs.Evaluation.Steps
import DecimalCalculator.Proofs.Syntax.Nesting
import Mathlib.Data.List.Infix

/-!
# Where the capture of a definition ends

The capture counts open parentheses while it reads. Here its ends are said by counting only
afterwards: the balance of a token sequence is the number of parentheses that it opens less the
number that it closes. A sequence can be passed by a capture when no beginning of it closes more
than it opens, separators stand where something is open, and no beginning leaves open as many
parentheses as the bound allows beside the one around the body (`IsPassable`).

There are four ends. Behind a passable sequence that closes all it opens there may be the
parenthesis that ends the body, or a separator; behind any passable sequence there may be a token
that leaves too many parentheses open, or nothing. Every token sequence has exactly one of these
ends (`capture_eq_iff`), and a definition stores a body in the first case and nothing in the others.
-/
namespace DecimalCalculator

/-- The parentheses that a sequence opens, less those that it closes. -/
def balance (ts : List Token) : Int :=
  (ts.count (.symbol .parenOpen) : Int) - ts.count (.symbol .parenClose)

/-- Nothing in the sequence ends a capture. -/
structure IsPassable (bound : Nat) (ts : List Token) : Prop where
  opened : ∀ front, front <+: ts → 0 ≤ balance front
  separated : ∀ front back, ts = front ++ .symbol .separator :: back → 0 < balance front
  shallow : ∀ front, front <+: ts → front ≠ [] → balance front < (bound : Int) - 1

/-- The end of a capture: the body or the reason why there is none, and the tokens left. -/
inductive CaptureEnds (bound : Nat) :
    List Token → Except CalcError (List Token) × List Token → Prop
  | closed {body rest : List Token} : IsPassable bound body → balance body = 0 →
    CaptureEnds bound (body ++ .symbol .parenClose :: rest) (.ok body, rest)
  | separator {front rest : List Token} : IsPassable bound front → balance front = 0 →
    CaptureEnds bound (front ++ .symbol .separator :: rest) (.error .separatorInDefinition, rest)
  | tooDeep {front rest : List Token} {t : Token} : IsPassable bound front →
    (t = .symbol .separator → 0 < balance front) → 0 ≤ balance (front ++ [t]) →
    (bound : Int) - 1 ≤ balance (front ++ [t]) →
    CaptureEnds bound (front ++ t :: rest) (.error (.tooDeep .definition), rest)
  | unclosed {ts : List Token} : IsPassable bound ts →
    CaptureEnds bound ts (.error .unclosedParen, [])

/-! ## Balances and counts -/

@[simp] theorem balance_nil : balance [] = 0 := rfl

theorem balance_append (ts us : List Token) : balance (ts ++ us) = balance ts + balance us := by
  simp only [balance, List.count_append]
  omega

theorem balance_cons (t : Token) (ts : List Token) :
    balance (t :: ts) = balance [t] + balance ts :=
  balance_append [t] ts

@[simp] theorem balance_open : balance [.symbol .parenOpen] = 1 := rfl

@[simp] theorem balance_close : balance [.symbol .parenClose] = -1 := rfl

theorem balance_other {t : Token} (hopen : t ≠ .symbol .parenOpen)
    (hclose : t ≠ .symbol .parenClose) : balance [t] = 0 := by
  simp [balance, hopen, hclose]

/-- One token is in place if it closes nothing that is not open and, being a separator, stands where
something is open. -/
theorem Token.nest_eq_some_iff {opened k : Nat} {t : Token} :
    t.nest opened = some k ↔
      (t = .symbol .separator → 0 < opened) ∧ (k : Int) = opened + balance [t] := by
  unfold Token.nest
  split
  · simp
    omega
  · by_cases h : opened = 0
    · simp [h]
    · simp [h]
      omega
  · by_cases h : opened = 0
    · simp [h]
    · simp [h, balance_other]
      omega
  · next hopen hclose hseparator =>
    rw [balance_other hopen hclose, Option.some.injEq]
    constructor
    · intro h
      exact ⟨fun ht => absurd ht hseparator, by omega⟩
    · intro h
      omega

/-- The parentheses that are open behind a sequence, said by the balances of its beginnings. -/
theorem nesting_eq_some_iff {opened k : Nat} {ts : List Token} :
    nesting opened ts = some k ↔
      (∀ front, front <+: ts → 0 ≤ opened + balance front) ∧
        (∀ front back, ts = front ++ .symbol .separator :: back → 0 < opened + balance front) ∧
        (k : Int) = opened + balance ts := by
  induction ts generalizing opened with
  | nil =>
    simp
    omega
  | cons t ts ih =>
    rw [nesting_cons, Option.bind_eq_some_iff]
    constructor
    · intro h
      obtain ⟨next, hnext, hrest⟩ := h
      obtain ⟨hsep, hcount⟩ := Token.nest_eq_some_iff.1 hnext
      obtain ⟨hopened, hseparated, hk⟩ := ih.1 hrest
      refine ⟨fun front hfront => ?_, fun front back hts => ?_, ?_⟩
      · cases front with
        | nil => simp
        | cons u front =>
          obtain ⟨rfl, htail⟩ := List.cons_prefix_cons.1 hfront
          have hstep := hopened front htail
          rw [balance_cons]
          omega
      · cases front with
        | nil =>
          have ht := hsep (List.cons.inj hts).1
          simpa using ht
        | cons u front =>
          obtain ⟨rfl, htail⟩ := List.cons.inj hts
          have hstep := hseparated front back htail
          rw [balance_cons]
          omega
      · rw [balance_cons]
        omega
    · intro h
      obtain ⟨hopened, hseparated, hk⟩ := h
      have hone := hopened [t] ⟨ts, rfl⟩
      obtain ⟨next, hnext⟩ := Int.eq_ofNat_of_zero_le hone
      refine ⟨next, Token.nest_eq_some_iff.2 ⟨fun ht => ?_, hnext.symm⟩, ih.2 ⟨?_, ?_, ?_⟩⟩
      · have hempty := hseparated [] ts (by rw [ht, List.nil_append])
        simpa using hempty
      · intro front hfront
        have hstep := hopened (t :: front) (List.cons_prefix_cons.2 ⟨rfl, hfront⟩)
        rw [balance_cons] at hstep
        omega
      · intro front back hts
        have hstep := hseparated (t :: front) back (by rw [hts, List.cons_append])
        rw [balance_cons] at hstep
        omega
      · rw [balance_cons] at hk
        omega

/-- A sequence is passable when a capture that begins before it goes on behind it. -/
theorem isPassable_iff {bound : Nat} {ts : List Token} :
    IsPassable bound ts ↔ (∃ k, nesting 0 ts = some k) ∧ IsShallow bound 0 ts := by
  constructor
  · intro h
    constructor
    · have hnonneg := h.opened ts List.prefix_rfl
      refine ⟨(balance ts).toNat, nesting_eq_some_iff.2 ⟨?_, ?_, by omega⟩⟩
      · intro front hfront
        have hfront := h.opened front hfront
        omega
      · intro front back hts
        have hseparated := h.separated front back hts
        omega
    · intro front back k hts hne hk
      have hbalance := (nesting_eq_some_iff.1 hk).2.2
      have hshallow := h.shallow front ⟨back, hts.symm⟩ hne
      omega
  · intro h
    obtain ⟨⟨k, hk⟩, hshallow⟩ := h
    obtain ⟨hopened, hseparated, -⟩ := nesting_eq_some_iff.1 hk
    constructor
    · intro front hfront
      have hnonneg := hopened front hfront
      omega
    · intro front back hts
      have hpositive := hseparated front back hts
      omega
    · intro front hfront hne
      obtain ⟨back, rfl⟩ := hfront
      rw [nesting_append] at hk
      obtain ⟨j, hj, -⟩ := Option.bind_eq_some_iff.1 hk
      have hbalance := (nesting_eq_some_iff.1 hj).2.2
      have hbound := hshallow front back j rfl hne hj
      omega

theorem IsPassable.nesting {bound k : Nat} {ts : List Token} (h : IsPassable bound ts)
    (hk : balance ts = k) : nesting 0 ts = some k := by
  obtain ⟨⟨j, hj⟩, -⟩ := isPassable_iff.1 h
  have hbalance := (nesting_eq_some_iff.1 hj).2.2
  have hsame : j = k := by omega
  rw [hj, hsame]

/-! ## The ends of a capture -/

theorem capture_passable {bound opened k : Nat} {front : List Token}
    (hk : nesting opened front = some k) (hshallow : IsShallow bound opened front)
    (ts : List Token) :
    capture bound (opened + 1) (front ++ ts) =
      ((capture bound (k + 1) ts).1.map (front ++ ·), (capture bound (k + 1) ts).2) := by
  induction front generalizing opened with
  | nil =>
    cases hk
    cases h : capture bound (k + 1) ts with
    | mk captured after => cases captured <;> simp [h, Except.map]
  | cons t front ih =>
    rw [nesting_cons] at hk
    obtain ⟨next, hnext, hrest⟩ := Option.bind_eq_some_iff.1 hk
    obtain ⟨hbound, hshallow⟩ := (isShallow_cons hnext).1 hshallow
    obtain ⟨hsep, hopen⟩ := Token.openAfter_of_nest hnext
    rw [List.cons_append, capture, if_neg hsep, hopen, if_neg (Nat.succ_ne_zero next),
      if_neg (by omega), ih hrest hshallow]
    cases (capture bound (k + 1) ts).1 <;> rfl

theorem CaptureEnds.capture_eq {bound : Nat} {ts : List Token}
    {found : Except CalcError (List Token) × List Token} (h : CaptureEnds bound ts found) :
    capture bound 1 ts = found := by
  cases h with
  | @closed body rest hbody hzero =>
    obtain ⟨-, hshallow⟩ := isPassable_iff.1 hbody
    rw [capture_passable (hbody.nesting (k := 0) hzero) hshallow]
    simp [capture, Token.openAfter, Except.map]
  | @separator front rest hfront hzero =>
    obtain ⟨-, hshallow⟩ := isPassable_iff.1 hfront
    rw [capture_passable (hfront.nesting (k := 0) hzero) hshallow]
    simp [capture, Except.map]
  | @tooDeep front rest t hfront hsep hnonneg hdeep =>
    obtain ⟨⟨k, hk⟩, hshallow⟩ := isPassable_iff.1 hfront
    have hbalance := (nesting_eq_some_iff.1 hk).2.2
    rw [balance_append] at hnonneg hdeep
    obtain ⟨next, hnext⟩ := Int.eq_ofNat_of_zero_le hnonneg
    have hnest : t.nest k = some next :=
      Token.nest_eq_some_iff.2 ⟨fun ht => by have := hsep ht; omega, by omega⟩
    obtain ⟨hopensep, hopen⟩ := Token.openAfter_of_nest hnest
    rw [capture_passable hk hshallow, capture, if_neg hopensep, hopen,
      if_neg (Nat.succ_ne_zero next), if_pos (by omega)]
    rfl
  | unclosed hts =>
    obtain ⟨⟨k, hk⟩, hshallow⟩ := isPassable_iff.1 hts
    have hpassed := capture_passable hk hshallow []
    rw [List.append_nil] at hpassed
    rw [hpassed]
    rfl

theorem IsPassable.concat {bound : Nat} {front : List Token} {t : Token}
    (h : IsPassable bound front) (hsep : t = .symbol .separator → 0 < balance front)
    (hnonneg : 0 ≤ balance (front ++ [t])) (hshallow : balance (front ++ [t]) < (bound : Int) - 1) :
    IsPassable bound (front ++ [t]) := by
  constructor
  · intro start hstart
    rcases List.prefix_concat_iff.1 hstart with rfl | hstart
    · exact hnonneg
    · exact h.opened start hstart
  · intro start back heq
    rcases List.eq_nil_or_concat back with rfl | ⟨more, last, rfl⟩
    · obtain ⟨rfl, ht⟩ := List.append_inj' heq rfl
      exact hsep (List.cons.inj ht).1
    · have hsplit : front ++ [t] = (start ++ .symbol .separator :: more) ++ [last] := by
        rw [heq, List.append_assoc, List.cons_append, List.concat_eq_append]
      exact h.separated start more (List.append_inj' hsplit rfl).1
  · intro start hstart hne
    rcases List.prefix_concat_iff.1 hstart with rfl | hstart
    · exact hshallow
    · exact h.shallow start hstart hne

/-- Reading on behind a passable sequence, one of the four ends is met. -/
theorem exists_captureEnds {bound : Nat} {front : List Token} (h : IsPassable bound front)
    (ts : List Token) : ∃ found, CaptureEnds bound (front ++ ts) found := by
  induction ts generalizing front with
  | nil =>
    rw [List.append_nil]
    exact ⟨_, .unclosed h⟩
  | cons t ts ih =>
    have hfront := h.opened front List.prefix_rfl
    by_cases hsep : t = .symbol .separator ∧ balance front = 0
    · obtain ⟨rfl, hzero⟩ := hsep
      exact ⟨_, .separator h hzero⟩
    by_cases hclose : t = .symbol .parenClose ∧ balance front = 0
    · obtain ⟨rfl, hzero⟩ := hclose
      exact ⟨_, .closed h hzero⟩
    -- Any other token leaves a capture going, unless it leaves too much open.
    have hinside : t = .symbol .separator → 0 < balance front := by
      intro ht
      have hne : balance front ≠ 0 := fun hzero => hsep ⟨ht, hzero⟩
      omega
    have hnonneg : 0 ≤ balance (front ++ [t]) := by
      rw [balance_append]
      by_cases ht : t = .symbol .parenClose
      · have hne : balance front ≠ 0 := fun hzero => hclose ⟨ht, hzero⟩
        rw [ht, balance_close]
        omega
      · by_cases hopen : t = .symbol .parenOpen
        · rw [hopen, balance_open]
          omega
        · rw [balance_other hopen ht]
          omega
    by_cases hdeep : (bound : Int) - 1 ≤ balance (front ++ [t])
    · exact ⟨_, .tooDeep h hinside hnonneg hdeep⟩
    · obtain ⟨found, hfound⟩ := ih (h.concat hinside hnonneg (by omega))
      rw [List.append_assoc] at hfound
      exact ⟨found, hfound⟩

theorem isPassable_nil (bound : Nat) : IsPassable bound [] := by
  constructor
  · intro front hfront
    cases List.prefix_nil.1 hfront
    exact Int.le_refl 0
  · intro front back h
    simp at h
  · intro front hfront hne
    exact absurd (List.prefix_nil.1 hfront) hne

/-- A capture comes to the one end that the token sequence has. -/
theorem capture_eq_iff {bound : Nat} {ts : List Token}
    {found : Except CalcError (List Token) × List Token} :
    capture bound 1 ts = found ↔ CaptureEnds bound ts found := by
  constructor
  · intro h
    obtain ⟨other, hother⟩ := exists_captureEnds (isPassable_nil bound) ts
    rw [List.nil_append] at hother
    rw [← h, hother.capture_eq]
    exact hother
  · exact CaptureEnds.capture_eq

/-- Behind the parenthesis that opens a definition there is exactly one end of the capture. A
definition succeeds when that is the parenthesis which closes the body; it then stores exactly the
body, goes on behind the parenthesis and changes nothing else. Otherwise it fails with the reason
that is met first, and changes nothing but the place from which it would go on. -/
theorem definition_takes_matching_parentheses (settings : Settings) (name : String) (c : Context) :
    (∃! found, CaptureEnds settings.maxDepth c.tokens found) ∧
      (∀ d, Eval.define settings name c = .ok () d ↔ ∃ body rest,
        CaptureEnds settings.maxDepth c.tokens (.ok body, rest) ∧
          d = ({c with tokens := rest, functions := c.functions.insert name body}.record
            (.define name body.length))) ∧
      (∀ failure d, Eval.define settings name c = .error failure d ↔ ∃ error rest,
        CaptureEnds settings.maxDepth c.tokens (.error error, rest) ∧
          failure = .calculation error ∧ d = {c with tokens := rest}) := by
  refine ⟨⟨capture settings.maxDepth 1 c.tokens, capture_eq_iff.1 rfl, ?_⟩, ?_⟩
  · intro found hfound
    exact hfound.capture_eq.symm
  · simp only [← capture_eq_iff]
    cases hcap : capture settings.maxDepth 1 c.tokens with
    | mk captured rest =>
      cases captured with
      | ok body =>
        rw [Eval.define_of_capture_ok name hcap]
        constructor
        · intro d
          simp [eq_comm]
        · intro failure d
          simp
      | error error =>
        rw [Eval.define_of_capture_error name hcap]
        constructor
        · intro d
          simp
        · intro failure d
          simp [eq_comm]

end DecimalCalculator
