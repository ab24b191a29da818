import DecimalCalculator.Evaluation.Capture
import Mathlib.Tactic.SplitIfs

/-!
# Nesting of parentheses

A token sequence is closed when its parentheses match and no separator stands outside them. These
are the sequences that a definition captures, provided that they are also shallow enough: no token
of the body may leave so many parentheses open that, with the one around the body, they reach the
bound on the depth.

The capture reads one token at a time and counts. `capture_eq_ok_iff` says what it accepts without
counting: exactly a closed and shallow body before the parenthesis that ends it.
-/
namespace DecimalCalculator

/-- The parentheses open after a token, of those that are counted. None may be closed that is not
open, and a separator must stand inside one. -/
def Token.nest (opened : Nat) : Token → Option Nat
  | .symbol .parenOpen => some (opened + 1)
  | .symbol .parenClose => if opened = 0 then none else some (opened - 1)
  | .symbol .separator => if opened = 0 then none else some opened
  | _ => some opened

/-- The parentheses open after a token sequence, if all its tokens are in place. -/
def nesting (opened : Nat) (ts : List Token) : Option Nat :=
  ts.foldlM Token.nest opened

/-- Parentheses match, and every separator stands inside some. -/
def IsClosed (ts : List Token) : Prop :=
  nesting 0 ts = some 0

instance (ts : List Token) : Decidable (IsClosed ts) :=
  inferInstanceAs (Decidable (nesting 0 ts = some 0))

/-- No token of the sequence leaves as many parentheses open as the bound allows, the ones before
the sequence and the one around it included. -/
def IsShallow (bound opened : Nat) (ts : List Token) : Prop :=
  ∀ front back k, ts = front ++ back → front ≠ [] → nesting opened front = some k → k + 1 < bound

/-- What a definition can have as its body. -/
def IsBody (bound : Nat) (body : List Token) : Prop :=
  IsClosed body ∧ IsShallow bound 0 body

@[simp] theorem nesting_nil (opened : Nat) : nesting opened [] = some opened := rfl

theorem nesting_cons (opened : Nat) (t : Token) (ts : List Token) :
    nesting opened (t :: ts) = (t.nest opened).bind fun k => nesting k ts := rfl

theorem nesting_append (opened : Nat) (ts us : List Token) :
    nesting opened (ts ++ us) = (nesting opened ts).bind fun k => nesting k us :=
  List.foldlM_append

theorem nesting_add {opened k : Nat} {ts : List Token} (h : nesting opened ts = some k)
    (more : Nat) : nesting (opened + more) ts = some (k + more) := by
  induction ts generalizing opened with
  | nil =>
    cases h
    rfl
  | cons t ts ih =>
    rw [nesting_cons] at h ⊢
    obtain ⟨next, hnext, hrest⟩ := Option.bind_eq_some_iff.1 h
    have hmore : t.nest (opened + more) = some (next + more) := by
      unfold Token.nest at hnext ⊢
      split at hnext
      · grind
      · grind
      · grind
      · grind
    rw [hmore]
    exact ih hrest

theorem IsClosed.nesting {ts : List Token} (h : IsClosed ts) (opened : Nat) :
    nesting opened ts = some opened := by
  have hadd := nesting_add h opened
  rwa [Nat.zero_add] at hadd

theorem isClosed_nil : IsClosed [] := rfl

theorem IsClosed.append {ts us : List Token} (ht : IsClosed ts) (hu : IsClosed us) :
    IsClosed (ts ++ us) := by
  rw [IsClosed, nesting_append, ht]
  exact hu

theorem IsClosed.cons {t : Token} {ts : List Token} (ht : t.nest 0 = some 0) (h : IsClosed ts) :
    IsClosed (t :: ts) := by
  rw [IsClosed, nesting_cons, ht]
  exact h

theorem isClosed_group {ts us : List Token} (ht : DecimalCalculator.nesting 1 ts = some 1)
    (hu : IsClosed us) :
    IsClosed (.symbol .parenOpen :: ts ++ .symbol .parenClose :: us) := by
  rw [IsClosed, List.cons_append, nesting_cons, Token.nest, Option.bind_some, nesting_append, ht]
  exact hu

/-- What stands behind the closed beginning of a closed sequence is closed. -/
theorem IsClosed.of_append {ts us : List Token} (h : IsClosed (ts ++ us)) (ht : IsClosed ts) :
    IsClosed us := by
  rw [IsClosed, nesting_append, ht] at h
  exact h

theorem isShallow_nil (bound opened : Nat) : IsShallow bound opened [] := by
  intro front back k h hne
  exact absurd (List.append_eq_nil_iff.1 h.symm).1 hne

theorem isShallow_cons {bound opened next : Nat} {t : Token} {ts : List Token}
    (ht : t.nest opened = some next) :
    IsShallow bound opened (t :: ts) ↔ next + 1 < bound ∧ IsShallow bound next ts := by
  constructor
  · intro h
    refine ⟨h [t] ts next rfl (List.cons_ne_nil _ _) ?_, fun front back k hts hne hk => ?_⟩
    · rw [nesting_cons, ht]
      rfl
    · refine h (t :: front) back k (by rw [hts, List.cons_append]) (List.cons_ne_nil _ _) ?_
      rw [nesting_cons, ht]
      exact hk
  · rintro ⟨hnext, hts⟩ front back k heq hne hk
    cases front with
    | nil => exact absurd rfl hne
    | cons u front =>
      rw [List.cons_append, List.cons.injEq] at heq
      obtain ⟨rfl, heq⟩ := heq
      rw [nesting_cons, ht, Option.bind_some] at hk
      cases front with
      | nil =>
        cases hk
        exact hnext
      | cons v front => exact hts (v :: front) back k heq (List.cons_ne_nil _ _) hk

/-! ## What the capture accepts -/

theorem Token.nest_of_openAfter {opened : Nat} {t : Token}
    (hsep : ¬(t = .symbol .separator ∧ opened + 1 = 1)) (hzero : t.openAfter (opened + 1) ≠ 0) :
    t.nest opened = some (t.openAfter (opened + 1) - 1) := by
  unfold Token.nest
  unfold Token.openAfter at hzero ⊢
  split <;> grind

theorem Token.openAfter_of_nest {opened next : Nat} {t : Token} (h : t.nest opened = some next) :
    ¬(t = .symbol .separator ∧ opened + 1 = 1) ∧ t.openAfter (opened + 1) = next + 1 := by
  unfold Token.nest at h
  unfold Token.openAfter
  split at h <;> grind

theorem capture_append {bound opened : Nat} {body after : List Token}
    (hclosed : nesting opened body = some 0) (hshallow : IsShallow bound opened body) :
    capture bound (opened + 1) (body ++ .symbol .parenClose :: after) = (.ok body, after) := by
  induction body generalizing opened with
  | nil =>
    cases hclosed
    simp [capture, Token.openAfter]
  | cons t body ih =>
    rw [nesting_cons] at hclosed
    obtain ⟨next, hnext, hrest⟩ := Option.bind_eq_some_iff.1 hclosed
    obtain ⟨hbound, hshallow⟩ := (isShallow_cons hnext).1 hshallow
    obtain ⟨hsep, hopen⟩ := Token.openAfter_of_nest hnext
    rw [List.cons_append, capture, if_neg hsep, hopen, if_neg (Nat.succ_ne_zero next),
      if_neg (by omega), ih hrest hshallow]
    rfl

theorem eq_of_capture {bound opened : Nat} {ts body after : List Token}
    (h : capture bound (opened + 1) ts = (.ok body, after)) :
    ts = body ++ .symbol .parenClose :: after ∧ nesting opened body = some 0 ∧
      IsShallow bound opened body := by
  induction ts generalizing opened body with
  | nil => simp [capture] at h
  | cons t rest ih =>
    rw [capture] at h
    split_ifs at h with hsep hzero hdeep
    · simp at h
    · simp only [Prod.mk.injEq, Except.ok.injEq] at h
      obtain ⟨rfl, rfl⟩ := h
      have ht : t = .symbol .parenClose ∧ opened = 0 := by
        unfold Token.openAfter at hzero
        split at hzero <;> grind
      obtain ⟨rfl, rfl⟩ := ht
      exact ⟨rfl, rfl, isShallow_nil _ _⟩
    · simp at h
    · have hnest := Token.nest_of_openAfter hsep hzero
      obtain ⟨next, hnext⟩ : ∃ next, t.openAfter (opened + 1) = next + 1 :=
        ⟨_, (Nat.succ_pred_eq_of_ne_zero hzero).symm⟩
      rw [hnext, Nat.add_sub_cancel] at hnest
      rw [hnext] at hdeep h
      cases hcap : capture bound (next + 1) rest with
      | mk inside left =>
        simp only [hcap, Prod.mk.injEq] at h
        obtain ⟨hbody, rfl⟩ := h
        cases inside with
        | error e => simp [Except.map] at hbody
        | ok bs =>
          simp only [Except.map, Except.ok.injEq] at hbody
          subst hbody
          obtain ⟨hrest, hclosed, hshallow⟩ := ih hcap
          refine ⟨by rw [hrest, List.cons_append], ?_, ?_⟩
          · rw [nesting_cons, hnest]
            exact hclosed
          · exact (isShallow_cons hnest).2 ⟨by omega, hshallow⟩

/-- A body is captured exactly when it is closed and shallow, and then up to the parenthesis that
ends it. -/
theorem capture_eq_ok_iff {bound : Nat} {ts body after : List Token} :
    capture bound 1 ts = (.ok body, after) ↔
      ts = body ++ .symbol .parenClose :: after ∧ IsBody bound body := by
  constructor
  · exact fun h => ⟨(eq_of_capture h).1, (eq_of_capture h).2⟩
  · rintro ⟨rfl, hclosed, hshallow⟩
    exact capture_append hclosed hshallow

/-- The tokens of a definition that is complete are closed. -/
theorem exists_isClosed_of_capture {bound : Nat} {rest body after : List Token} (name : String)
    (h : capture bound 1 rest = (.ok body, after)) :
    ∃ front, .assign name :: .symbol .parenOpen :: rest = front ++ after ∧ front ≠ [] ∧
      IsClosed front := by
  obtain ⟨rfl, hbody⟩ := capture_eq_ok_iff.1 h
  refine ⟨.assign name :: (.symbol .parenOpen :: body ++ [.symbol .parenClose]), by simp,
    List.cons_ne_nil _ _, ?_⟩
  exact (isClosed_group (hbody.1.nesting 1) isClosed_nil).cons rfl

theorem capture_error {bound opened : Nat} {ts : List Token} {error : CalcError}
    (h : (capture bound opened ts).1 = .error error) :
    error = .unclosedParen ∨ error = .separatorInDefinition ∨ error = .tooDeep .definition := by
  induction ts generalizing opened with
  | nil =>
    cases h
    exact .inl rfl
  | cons t rest ih =>
    rw [capture] at h
    split_ifs at h with hsep hzero hdeep
    · cases h
      exact .inr (.inl rfl)
    · cases h
      exact .inr (.inr rfl)
    · refine @ih (t.openAfter opened) ?_
      change Except.map _ (capture bound (t.openAfter opened) rest).1 = _ at h
      cases hbody : (capture bound (t.openAfter opened) rest).1 with
      | ok body =>
        rw [hbody] at h
        cases h
      | error other =>
        rw [hbody] at h
        cases h
        rfl

/-- A larger bound captures alike, unless the smaller one was met. -/
theorem capture_of_le {bound bound' : Nat} (hle : bound ≤ bound') (opened : Nat) (ts : List Token) :
    capture bound opened ts = capture bound' opened ts ∨
      ∃ rest, capture bound opened ts = (.error (.tooDeep .definition), rest) := by
  induction ts generalizing opened with
  | nil => exact .inl rfl
  | cons t rest ih =>
    rw [capture, capture]
    split_ifs with hsep hzero hdeep hdeep' hdeep'
    · exact .inl rfl
    · exact .inl rfl
    · exact .inl rfl
    · exact .inr ⟨rest, rfl⟩
    · exact absurd (Nat.le_trans hle hdeep') hdeep
    · rcases ih (t.openAfter opened) with hsame | ⟨after, hmet⟩
      · exact .inl (by rw [hsame])
      · exact .inr ⟨after, by rw [hmet]; rfl⟩

theorem capture_suffix (bound opened : Nat) (ts : List Token) :
    (capture bound opened ts).2 <:+ ts := by
  induction ts generalizing opened with
  | nil => exact List.suffix_rfl
  | cons t rest ih =>
    rw [capture]
    split_ifs
    · exact List.suffix_cons t rest
    · exact List.suffix_cons t rest
    · exact List.suffix_cons t rest
    · exact (ih _).trans (List.suffix_cons t rest)

theorem suffix_of_capture {bound opened : Nat} {ts after : List Token}
    {captured : Except CalcError (List Token)} (h : capture bound opened ts = (captured, after)) :
    after <:+ ts := by
  have hsuffix := capture_suffix bound opened ts
  rwa [h] at hsuffix

end DecimalCalculator
