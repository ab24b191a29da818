import DecimalCalculator.Proofs.Arithmetic.Value
import DecimalCalculator.Proofs.Evaluation.Pure
import DecimalCalculator.Proofs.Lexing.Tokens
import DecimalCalculator.Proofs.Session.Requests

/-!
# Printed numbers as lines

A finite decimal is shown in plain notation: digits with at most one point, behind a minus sign if
the value is negative. Such a text is a line of one or two tokens, and the line is answered with the
decimal that the text shows (`positional`). It has the same value, a positive exponent has become
zeros of the coefficient, and a zero has no sign. It is shown as the same text again, so decimals
are shown alike only if their values are equal.

A decimal has no text if that does not fit into the memory. Where it fits, so does the text of the
answer.
-/
namespace DecimalCalculator

namespace Decimal

/-- A decimal as its plain notation shows it. -/
def positional : Decimal → Decimal
  | finite s c e => finite (s && c != 0) (scale c e.toNat) (min e 0)
  | d => d

theorem scale_zero_right (c : Nat) : scale c 0 = c := by
  rw [scale_eq]
  exact Nat.mul_one c

theorem scale_ne_zero (c places : Nat) : (scale c places != 0) = (c != 0) := by
  have hpos := Text.powerOfTen_pos places
  rw [scale_eq, Bool.eq_iff_iff]
  simp [hpos.ne']

theorem toRat_positional (d : Decimal) : d.positional.toRat = d.toRat := by
  cases d with
  | finite s c e =>
    have hsign : (finite (s && c != 0) c e).toRat = (finite s c e).toRat := by
      by_cases hc : c = 0
      · simp [hc, toRat]
      · rw [bne_iff_ne.2 hc, Bool.and_true]
    rw [← hsign]
    by_cases he : 0 ≤ e
    · rw [positional, min_eq_right he, toRat_of_exponent_nonneg he, toRat, zpow_zero, mul_one]
    · have hneg : e ≤ 0 := (Int.not_le.1 he).le
      rw [positional, min_eq_left hneg, Int.toNat_of_nonpos hneg, scale_zero_right]
  | infinity s => rfl
  | nan s g p => rfl

theorem plainMagnitude_positional (c : Nat) (e : Int) :
    plainMagnitude (scale c e.toNat) (min e 0) = plainMagnitude c e := by
  by_cases he : 0 ≤ e
  · rw [min_eq_right he, plainMagnitude, plainMagnitude, if_neg (by decide),
      if_neg (Int.not_lt.2 he), Int.toNat_zero, scale_zero_right]
  · have hneg : e ≤ 0 := (Int.not_le.1 he).le
    rw [min_eq_left hneg, Int.toNat_of_nonpos hneg, scale_zero_right]

theorem plainChars_magnitude (s : Bool) (c : Nat) (e : Int) : (finite s c e).plainChars =
    signChars (s && c != 0) ++ (finite false (scale c e.toNat) (-(-e).toNat)).plainChars := by
  have hexponent : -((-e).toNat : Int) = min e 0 := by omega
  rw [plainChars, plainChars, hexponent, plainMagnitude_positional]
  rfl

theorem plain_positional (d : Decimal) : d.positional.plain = d.plain := by
  cases d with
  | finite s c e =>
    rw [plain, plain, positional, plainChars, plainChars, plainMagnitude_positional,
      scale_ne_zero, Bool.and_assoc, Bool.and_self]
  | infinity s => rfl
  | nan s g p => rfl

theorem scaledCount_scale (c places : Nat) :
    scaledCount (scale c places) 0 = scaledCount c places := by
  by_cases hc : c = 0
  · rw [scale_eq, hc, Nat.zero_mul]
    rfl
  · have hne : scale c places ≠ 0 := by
      rw [scale_eq]
      exact Nat.mul_ne_zero hc (Text.powerOfTen_pos places).ne'
    rw [scaledCount, scaledCount, if_neg hne, if_neg hc, scale_eq,
      Text.digitCount_mul_powerOfTen hc, Nat.add_zero]

theorem plainCount_positional (d : Decimal) : d.positional.plainCount = d.plainCount := by
  cases d with
  | finite s c e =>
    have hplaces : (-min e 0).toNat = (-e).toNat := by omega
    have hzero : (min e 0).toNat = 0 := by omega
    rw [positional, plainCount, plainCount, hplaces, hzero, scaledCount_scale]
  | infinity s => rfl
  | nan s g p => rfl

theorem print_positional (memory : Memory) (d : Decimal) :
    d.positional.print memory = d.print memory := by
  rw [print, print, isPrintable, isPrintable, plainCount_positional, plain_positional]

end Decimal

namespace Expr

open Decimal

def plainTree (s : Bool) (c : Nat) (e : Int) : Expr :=
  let magnitude := Expr.number (finite false (scale c e.toNat) (-(-e).toNat))
  if s && c != 0 then .minus magnitude else magnitude

theorem isPure_plainTree (s : Bool) (c : Nat) (e : Int) : (plainTree s c e).IsPure := by
  unfold plainTree
  split
  · exact .minus (.number _)
  · exact .number _

theorem wellFormed_plainTree (bound : Nat) (s : Bool) (c : Nat) (e : Int) :
    (plainTree s c e).WellFormed bound := by
  unfold plainTree
  split
  · exact .minus (.number _) (Nat.le_refl 9)
  · exact .number _

theorem depth_plainTree (s : Bool) (c : Nat) (e : Int) : (plainTree s c e).depth = 0 := by
  unfold plainTree
  split <;> rfl

theorem compute_plainTree (settings : Settings) (values : Bindings Decimal) (s : Bool) (c : Nat)
    (e : Int) : (plainTree s c e).compute settings values = .ok (finite s c e).positional := by
  have hexponent : -((-e).toNat : Int) = min e 0 := by omega
  unfold plainTree
  split
  · next hminus =>
    rw [compute, compute, hexponent, positional, hminus]
    rfl
  · next hplus =>
    rw [compute, hexponent, positional, Bool.eq_false_iff.2 hplus]

end Expr

namespace Token

open Decimal DecimalCalculator.Expr

theorem readsBack_plain (s : Bool) (c : Nat) (e : Int) :
    ReadsBack (finite s c e).plainChars (plainTree s c e).spelling := by
  have hmagnitude := readsBack_number (List.forall_mem_nil _) readsBack_nil
    (fun _ h => nomatch h) (scale c e.toNat) (-e).toNat
  rw [spelling, plain, String.toList_ofList, List.append_nil, List.nil_append] at hmagnitude
  rw [plainChars_magnitude, plainTree]
  by_cases hminus : s && c != 0
  · rw [hminus]
    exact readsBack_symbol (List.forall_mem_nil _) hmagnitude .sub
  · rw [Bool.eq_false_iff.2 hminus]
    exact hmagnitude

theorem ofSource_plain (s : Bool) (c : Nat) (e : Int) :
    ofSource (finite s c e).plain = .ok (plainTree s c e).spelling := by
  refine ReadsBack.ofSource ?_
  rw [plain, String.toList_ofList]
  exact readsBack_plain s c e

end Token

namespace Session

open Decimal DecimalCalculator.Expr

theorem evaluateTokens_of_isPure {session : Session} {e : Expr} {bodyBound : Nat} (h : e.IsPure)
    (hwf : e.WellFormed bodyBound) (hdepth : e.depth < session.settings.maxDepth) {v : Decimal}
    (hv : e.compute session.settings session.values = .ok v) :
    (session.evaluateTokens e.spelling).result = .ok v ∧
      (session.evaluateTokens e.spelling).session = session := by
  obtain ⟨hresult, hat⟩ := ends_evaluate_of_isPure h hwf hdepth session.values session.functions
  rw [hv] at hresult
  rw [evaluateTokens]
  cases hrun : DecimalCalculator.evaluate session.settings e.spelling session.values
    session.functions with
  | ok a d =>
    rw [hrun] at hresult
    obtain ⟨hvalues, hfunctions⟩ := Store.mk.inj (hat a d hrun).store
    refine ⟨hresult, ?_⟩
    change {session with values := d.values, functions := d.functions} = session
    rw [hvalues, hfunctions]
  | error failure d =>
    rw [hrun] at hresult
    cases hresult

/-! ## Lines -/

theorem evaluate_plain (session : Session) {d : Decimal} (h : d.isFinite) :
    (session.evaluate d.plain).result = .ok d.positional ∧
      (session.evaluate d.plain).session = session := by
  obtain ⟨s, c, e, rfl⟩ := isFinite_iff.1 h
  have hdepth : (plainTree s c e).depth < session.settings.maxDepth := by
    rw [depth_plainTree]
    exact session.settings.maxDepth_pos
  rw [evaluate_ok (Token.ofSource_plain s c e)]
  exact evaluateTokens_of_isPure (isPure_plainTree s c e) (wellFormed_plainTree 0 s c e) hdepth
    (compute_plainTree session.settings session.values s c e)

theorem isBlankLine_plain {d : Decimal} (h : d.isFinite) : Text.isBlankLine d.plain = false := by
  obtain ⟨s, c, e, rfl⟩ := isFinite_iff.1 h
  have hnumeral := isNumeral_plainChars (scale c e.toNat) (-e).toNat
  obtain ⟨first, hfirst⟩ := List.exists_mem_of_ne_nil _ hnumeral.ne_nil
  have hmem : first ∈ (finite s c e).plain.toList := by
    rw [plain, String.toList_ofList, plainChars_magnitude]
    exact List.mem_append_right _ hfirst
  exact Lexeme.isBlankLine_of_mem hmem (isBlank_of_mem_numeralChars (hnumeral.subset hfirst))

/-- The text, typed as a line, is answered with a decimal that is printed as this text again. The
decimal stands in place of another one of the same value. -/
structure IsTypedBack (memory : Memory) (session : Session) (d : Decimal) (text : String)
    (v : Decimal) : Prop where
  value : v.toRat = d.toRat
  unchanged : (session.handleLine text).session = session
  result : (session.handleLine text).result = .ok ⟨.success, some v, none, none⟩
  printed : v.print memory = .ok text

theorem isTypedBack_positional {memory : Memory} (session : Session) {d : Decimal}
    (h : d.isFinite) (hfits : d.isPrintable memory) :
    IsTypedBack memory session d d.plain d.positional := by
  obtain ⟨hresult, hsession⟩ := evaluate_plain session h
  refine ⟨d.toRat_positional, ?_, ?_, ?_⟩
  · rw [handleLine_of_not_blank (isBlankLine_plain h), hsession]
  · rw [handleLine_result (isBlankLine_plain h), hresult]
    rfl
  · rw [print_positional, print, if_pos hfits]

/-- A finite decimal is not printed if its plain notation does not fit into the memory. Otherwise
the printed text, typed as a line, is answered with a decimal of the same value, whose exponent is
not positive and which is printed as the same text, and the session stays as it is. Texts are alike
only if the values are. -/
theorem printed_numbers_are_typed_back :
    (∀ (memory : Memory) (session : Session) (s : Bool) (c : Nat) (e : Int),
      (finite s c e).print memory = .error .outOfMemory ∧
          ¬memory.fits .text (finite s c e).plainCount ∨
        ∃ text t k, (finite s c e).print memory = .ok text ∧
          IsTypedBack memory session (finite s c e) text (finite t k (min e 0))) ∧
      ∀ a b : Decimal, a.isFinite → b.isFinite → a.plain = b.plain → a.toRat = b.toRat := by
  refine ⟨fun memory session s c e => ?_, fun a b ha hb halike => ?_⟩
  · by_cases hfits : (finite s c e).isPrintable memory
    · exact .inr ⟨_, _, _, if_pos hfits, isTypedBack_positional session rfl hfits⟩
    · exact .inl ⟨if_neg hfits, hfits⟩
  · have hfirst := (evaluate_plain (Session.new .default) ha).1
    rw [halike, (evaluate_plain (Session.new .default) hb).1] at hfirst
    rw [← toRat_positional a, ← toRat_positional b, Except.ok.inj hfirst]

/-- A small negative number, a large one with a power of ten, and a zero with a sign. -/
theorem minusHalfPercent_is_typed_back :
    (finite true 50 (-4)).print .default = .ok "-0.0050" ∧
      (∃ t k, IsTypedBack .default (Session.new .default) (finite true 50 (-4)) "-0.0050"
        (finite t k (-4))) ∧
      (finite false 12 3).print .default = .ok "12000" ∧
      (∃ t k, IsTypedBack .default (Session.new .default) (finite false 12 3) "12000"
        (finite t k 0)) ∧
      (finite true 0 0).plain = (finite false 0 5).plain ∧
      (finite true 0 0).toRat = (finite false 0 5).toRat := by
  have hsmall : (finite true 50 (-4)).print .default = .ok "-0.0050" := by decide
  have hlarge : (finite false 12 3).print .default = .ok "12000" := by decide
  have hzero : (finite true 0 0).plain = (finite false 0 5).plain := by decide
  obtain ⟨hback, halike⟩ := printed_numbers_are_typed_back
  refine ⟨hsmall, ?_, hlarge, ?_, hzero, halike _ _ rfl rfl hzero⟩
  · rcases hback .default (Session.new .default) true 50 (-4) with
      ⟨hfailed, -⟩ | ⟨text, t, k, htext, h⟩
    · rw [hsmall] at hfailed
      cases hfailed
    · rw [hsmall, Except.ok.injEq] at htext
      exact ⟨t, k, htext ▸ h⟩
  · rcases hback .default (Session.new .default) false 12 3 with
      ⟨hfailed, -⟩ | ⟨text, t, k, htext, h⟩
    · rw [hlarge] at hfailed
      cases hfailed
    · rw [hlarge, Except.ok.injEq] at htext
      exact ⟨t, k, htext ▸ h⟩

/-- One followed by so many zeros that they do not fit into the memory has no text. -/
theorem longPowerOfTen_is_not_printed :
    (finite false 1 100000000000000000).isFinite ∧
      ∀ text, (finite false 1 100000000000000000).print .default ≠ .ok text := by
  have hprint : (finite false 1 100000000000000000).print .default = .error .outOfMemory := by
    decide
  refine ⟨rfl, fun text h => ?_⟩
  rw [hprint] at h
  cases h

end Session

end DecimalCalculator
