import DecimalCalculator.Lexeme.Scan
import DecimalCalculator.Token.Kind
import Mathlib.Data.List.TakeWhile
import Mathlib.Tactic.SplitIfs

/-!
# Leaves and what follows them

A number and a name are known by their characters alone. When either is written down and followed by
a character that could not prolong it, the scanner takes exactly the number or the name, since it
always takes the longest leaf. An operator is taken whatever follows it.
-/
namespace DecimalCalculator.Lexeme

inductive IsNumeral : List Char → Prop
  | whole {ds : List Char} : ds ≠ [] → (∀ c ∈ ds, c.isDigit) → IsNumeral ds
  | pointed {whole fraction : List Char} : whole ++ fraction ≠ [] → (∀ c ∈ whole, c.isDigit) →
    (∀ c ∈ fraction, c.isDigit) → IsNumeral (whole ++ '.' :: fraction)

/-- A letter or underscore before letters, digits and underscores, or a dollar sign before
digits. -/
inductive IsName : List Char → Prop
  | word {first : Char} {rest : List Char} : isNameStart first → (∀ c ∈ rest, isNamePart c) →
    IsName (first :: rest)
  | positional {ds : List Char} : ds ≠ [] → (∀ c ∈ ds, c.isDigit) → IsName ('$' :: ds)

def IsSign (text : List Char) : Prop :=
  text = ['='] ∨ ∃ s : Symbol, text = s.spelling.toList

/-- No number or name goes on with these characters. -/
def Breaks (cs : List Char) : Prop :=
  ∀ c, cs.head? = some c → isNamePart c = false ∧ c ≠ '.'

/-! ## Characters -/

theorem isNamePart_of_isDigit {c : Char} (h : c.isDigit) : isNamePart c := by
  simp [isNamePart, Char.isAlphanum, h]

theorem toNat_of_isDigit {c : Char} (h : c.isDigit) : 48 ≤ c.toNat ∧ c.toNat ≤ 57 := by
  simp only [Char.isDigit, Bool.and_eq_true, decide_eq_true_eq] at h
  exact h

theorem toNat_of_isNameStart {c : Char} (h : isNameStart c) : 65 ≤ c.toNat ∧ c.toNat ≤ 122 := by
  rw [isNameStart, Bool.or_eq_true, beq_iff_eq] at h
  rcases h with h | rfl
  · have hletter : (c.isUpper || c.isLower) = true := h
    rcases Bool.or_eq_true_iff.1 hletter with hupper | hlower
    · obtain ⟨hlow, hhigh⟩ : 65 ≤ c.toNat ∧ c.toNat ≤ 90 := of_decide_eq_true hupper
      omega
    · obtain ⟨hlow, hhigh⟩ := Bool.and_eq_true_iff.1 hlower
      have hlow : 97 ≤ c.toNat := of_decide_eq_true hlow
      have hhigh : c.toNat ≤ 122 := of_decide_eq_true hhigh
      omega
  · decide

theorem isGap_of_visible {c : Char} (hlow : 0x21 ≤ c.toNat) (hhigh : c.toNat ≤ 0x7E) :
    Text.isGap c = false := by
  simp only [Text.isGap, Text.isCommonBlank, Bool.or_eq_false_iff, Bool.and_eq_false_iff,
    decide_eq_false_iff_not, beq_eq_false_iff_ne]
  omega

theorem isBlank_of_visible {c : Char} (hlow : 0x21 ≤ c.toNat) (hhigh : c.toNat ≤ 0x7E) :
    Text.isBlank c = false := by
  have hgap := isGap_of_visible hlow hhigh
  rw [Text.isGap, Bool.or_eq_false_iff] at hgap
  rw [Text.isBlank, hgap.1, Bool.false_or, Bool.and_eq_false_iff, decide_eq_false_iff_not,
    decide_eq_false_iff_not]
  omega

theorem isBlankLine_of_mem {line : String} {c : Char} (hmem : c ∈ line.toList)
    (hc : Text.isBlank c = false) : Text.isBlankLine line = false :=
  List.all_eq_false.2 ⟨c, hmem, Bool.eq_false_iff.1 hc⟩

/-! ## The longest leaf -/

theorem takeWhile_eq_of_stop {p : Char → Bool} {xs ys : List Char} (hx : ∀ x ∈ xs, p x)
    (hy : ∀ y, ys.head? = some y → p y = false) : (xs ++ ys).takeWhile p = xs := by
  rw [List.takeWhile_append_of_pos hx]
  cases ys with
  | nil => simp
  | cons y ys => simp [hy y rfl]

theorem dropWhile_eq_of_stop {p : Char → Bool} {xs ys : List Char} (hx : ∀ x ∈ xs, p x)
    (hy : ∀ y, ys.head? = some y → p y = false) : (xs ++ ys).dropWhile p = ys := by
  rw [List.dropWhile_append_of_pos hx]
  cases ys with
  | nil => rfl
  | cons y ys => simp [hy y rfl]

theorem Breaks.not_isDigit {cs : List Char} (h : Breaks cs) (c : Char) (hc : cs.head? = some c) :
    c.isDigit = false := by
  cases hdigit : c.isDigit with
  | false => rfl
  | true => exact absurd (isNamePart_of_isDigit hdigit) (by simp [(h c hc).1])

theorem longest?_of_isNameStart {first : Char} (h : isNameStart first) (rest : List Char) :
    longest? (first :: rest) = some (.name, first :: rest.takeWhile isNamePart) := by
  have hrange := toNat_of_isNameStart h
  have hdigit : first.isDigit = false := by
    cases hd : first.isDigit with
    | false => rfl
    | true =>
      have hdigits := toNat_of_isDigit hd
      omega
  have hpoint : first ≠ '.' := by
    rintro rfl
    exact absurd h (by decide)
  have hdollar : first ≠ '$' := by
    rintro rfl
    exact absurd h (by decide)
  simp [longest?, hdigit, hpoint, hdollar, h]

theorem longest?_name {text rest : List Char} (h : IsName text) (hrest : Breaks rest) :
    longest? (text ++ rest) = some (.name, text) := by
  cases h with
  | @word first more hfirst hmore =>
    have htake := takeWhile_eq_of_stop hmore fun c hc => (hrest c hc).1
    rw [List.cons_append, longest?_of_isNameStart hfirst, htake]
  | @positional ds hne hdigits =>
    have htake := takeWhile_eq_of_stop hdigits hrest.not_isDigit
    have hdollar : '$'.isDigit = false := rfl
    obtain ⟨d, ds, rfl⟩ := List.exists_cons_of_ne_nil hne
    simp only [List.cons_append] at htake
    simp [longest?, markedDigits, hdollar, htake]

theorem longest?_numeral {text rest : List Char} (h : IsNumeral text) (hrest : Breaks rest) :
    longest? (text ++ rest) = some (.number, text) := by
  have hstop := hrest.not_isDigit
  cases h with
  | whole hne hdigits =>
    obtain ⟨d, ds, rfl⟩ := List.exists_cons_of_ne_nil hne
    obtain ⟨hd, hds⟩ := List.forall_mem_cons.1 hdigits
    have htake := takeWhile_eq_of_stop hds hstop
    have hdrop := dropWhile_eq_of_stop hds hstop
    have hend : longestNumber d (ds ++ rest) = d :: ds := by
      rw [longestNumber, htake, hdrop]
      split
      · next fraction => exact absurd rfl (hrest '.' rfl).2
      · exact List.append_nil _
    simp [longest?, hd, hend]
  | @pointed whole fraction hne hwhole hfraction =>
    have htake := takeWhile_eq_of_stop hfraction hstop
    cases whole with
    | nil =>
      obtain ⟨d, ds, rfl⟩ := List.exists_cons_of_ne_nil hne
      have hpoint : '.'.isDigit = false := rfl
      simp only [List.nil_append, List.cons_append] at htake ⊢
      simp [longest?, markedDigits, hpoint, htake]
    | cons d ds =>
      obtain ⟨hd, hds⟩ := List.forall_mem_cons.1 hwhole
      have hpoint : ∀ c, ('.' :: (fraction ++ rest)).head? = some c → c.isDigit = false := by
        rintro _ ⟨⟩
        rfl
      have hfront := takeWhile_eq_of_stop hds hpoint
      have hback := dropWhile_eq_of_stop hds hpoint
      simp [longest?, longestNumber, hd, hfront, hback, htake]

theorem longest?_symbol (s : Symbol) (rest : List Char) :
    longest? (s.spelling.toList ++ rest) = some (.operator, s.spelling.toList) := by
  cases s <;> rfl

theorem longest?_equals (rest : List Char) :
    longest? (['='] ++ rest) = some (.operator, ['=']) := rfl

theorem isNumeral_longestNumber {first : Char} (h : first.isDigit) (rest : List Char) :
    IsNumeral (longestNumber first rest) := by
  have hdigits : ∀ c ∈ first :: rest.takeWhile Char.isDigit, c.isDigit :=
    List.forall_mem_cons.2 ⟨h, fun c hc => List.mem_takeWhile_imp hc⟩
  rw [longestNumber]
  split
  · next fraction _ =>
    exact .pointed (by simp) hdigits fun c hc => List.mem_takeWhile_imp hc
  · rw [List.append_nil]
    exact .whole (List.cons_ne_nil _ _) hdigits

theorem markedDigits_eq_some {kind kind' : LexemeKind} {mark : Char} {rest text : List Char}
    (h : markedDigits kind mark rest = some (kind', text)) :
    kind' = kind ∧ ∃ ds, ds ≠ [] ∧ (∀ c ∈ ds, c.isDigit) ∧ text = mark :: ds := by
  unfold markedDigits at h
  split at h
  · cases h
  · next ds hne =>
    cases h
    exact ⟨rfl, _, hne, fun c hc => List.mem_takeWhile_imp hc, rfl⟩

theorem isSign_of_isOperatorChar {c : Char} (h : isOperatorChar c) : IsSign [c] := by
  have hall : "-+*/^|&!~(),=".toList.all
      fun c => c == '=' || Symbol.all.any fun s => s.spelling.toList == [c] := by
    decide
  have hc := List.all_eq_true.1 hall c (List.contains_iff_mem.1 h)
  rcases Bool.or_eq_true_iff.1 hc with hequals | hsymbol
  · exact .inl (congrArg (fun c => [c]) (beq_iff_eq.1 hequals))
  · obtain ⟨s, -, hs⟩ := List.any_eq_true.1 hsymbol
    exact .inr ⟨s, (beq_iff_eq.1 hs).symm⟩

/-- The scanner finds numbers, names and operators only. -/
theorem longest?_shape {cs text : List Char} {kind : LexemeKind}
    (h : longest? cs = some (kind, text)) :
    kind = .number ∧ IsNumeral text ∨ kind = .name ∧ IsName text ∨
      kind = .operator ∧ IsSign text := by
  cases cs with
  | nil => cases h
  | cons c rest =>
    rw [longest?] at h
    split_ifs at h with hdigit hpoint hdollar hname hoperator hdouble
    · cases h
      exact .inl ⟨rfl, isNumeral_longestNumber hdigit rest⟩
    · obtain ⟨rfl, ds, hne, hds, rfl⟩ := markedDigits_eq_some h
      subst hpoint
      exact .inl ⟨rfl, @IsNumeral.pointed [] ds hne (by simp) hds⟩
    · obtain ⟨rfl, ds, hne, hds, rfl⟩ := markedDigits_eq_some h
      subst hdollar
      exact .inr (.inl ⟨rfl, .positional hne hds⟩)
    · cases h
      exact .inr (.inl ⟨rfl, .word hname fun c hc => List.mem_takeWhile_imp hc⟩)
    · cases h
      exact .inr (.inr ⟨rfl, isSign_of_isOperatorChar hoperator⟩)
    · cases h
      simp only [Bool.and_eq_true, Bool.or_eq_true, decide_eq_true_eq] at hdouble
      obtain ⟨rfl | rfl, -⟩ := hdouble
      · exact .inr (.inr ⟨rfl, .inr ⟨.shiftLeft, rfl⟩⟩)
      · exact .inr (.inr ⟨rfl, .inr ⟨.shiftRight, rfl⟩⟩)

theorem isGap_of_longest? {c : Char} {cs : List Char} {leaf : LexemeKind × List Char}
    (h : longest? (c :: cs) = some leaf) : Text.isGap c = false := by
  rw [longest?] at h
  split_ifs at h with hdigit hpoint hdollar hname hoperator hdouble
  · have hrange := toNat_of_isDigit hdigit
    exact isGap_of_visible (by omega) (by omega)
  · subst hpoint
    rfl
  · subst hdollar
    rfl
  · have hrange := toNat_of_isNameStart hname
    exact isGap_of_visible (by omega) (by omega)
  · have hall : "-+*/^|&!~(),=".toList.all (!Text.isGap ·) := by decide
    simpa using List.all_eq_true.1 hall c (List.contains_iff_mem.1 hoperator)
  · simp only [Bool.and_eq_true, Bool.or_eq_true, decide_eq_true_eq] at hdouble
    obtain ⟨rfl | rfl, -⟩ := hdouble
    · rfl
    · rfl

/-! ## Scanning -/

theorem scanFrom_nil (place : Cursor) : scanFrom place [] = some [] := by
  rw [scanFrom]
  rfl

/-- Where a leaf can be taken, no gap begins. -/
theorem isGap_head?_of_longest? {cs text : List Char} {kind : LexemeKind}
    (h : longest? cs = some (kind, text)) (c : Char) (hc : cs.head? = some c) :
    Text.isGap c = false := by
  obtain ⟨rest, rfl⟩ := List.head?_eq_some_iff.1 hc
  exact isGap_of_longest? h

theorem scanFrom_gap_leaf {gap text rest : List Char} {kind : LexemeKind}
    (hgap : ∀ c ∈ gap, Text.isGap c) (h : longest? (text ++ rest) = some (kind, text))
    (place : Cursor) :
    scanFrom place (gap ++ (text ++ rest)) =
      (scanFrom (text.foldl Cursor.after (gap.foldl Cursor.after place)) rest).map
        (⟨kind, .text (String.ofList text),
          some (gap.foldl Cursor.after place).position⟩ :: ·) := by
  obtain ⟨c, cs, rfl⟩ := List.exists_cons_of_ne_nil (longest?_ne_nil h)
  have hstop := isGap_head?_of_longest? h
  have htake : (gap ++ (c :: cs ++ rest)).takeWhile Text.isGap = gap :=
    takeWhile_eq_of_stop hgap hstop
  have hdrop : (gap ++ (c :: cs ++ rest)).dropWhile Text.isGap = c :: (cs ++ rest) :=
    dropWhile_eq_of_stop hgap hstop
  rw [scanFrom, htake]
  split
  · next hnil =>
    rw [hdrop] at hnil
    cases hnil
  · next c' rest' hcons =>
    rw [hdrop] at hcons
    cases hcons
    split
    · next hnone =>
      rw [← List.cons_append, h] at hnone
      cases hnone
    · next kind' text' hsome =>
      rw [← List.cons_append, h] at hsome
      cases hsome
      have hdrop : (c :: (cs ++ rest)).drop (c :: cs).length = rest := List.drop_left
      rw [hdrop]

theorem scanFrom_leaf {gap text rest : List Char} {kind : LexemeKind}
    (hgap : ∀ c ∈ gap, Text.isGap c) (h : longest? (text ++ rest) = some (kind, text))
    (place : Cursor) :
    ∃ position place', scanFrom place (gap ++ (text ++ rest)) =
      (scanFrom place' rest).map (⟨kind, .text (String.ofList text), some position⟩ :: ·) :=
  ⟨_, _, scanFrom_gap_leaf hgap h place⟩

def IsScanned (leaf : Lexeme) : Prop :=
  ∃ text, leaf.text = .text (String.ofList text) ∧
    (leaf.kind = .number ∧ IsNumeral text ∨ leaf.kind = .name ∧ IsName text ∨
      leaf.kind = .operator ∧ IsSign text)

theorem isScanned_of_scanFrom {place : Cursor} {cs : List Char} {leaves : List Lexeme}
    (h : scanFrom place cs = some leaves) : ∀ leaf ∈ leaves, IsScanned leaf := by
  induction hlength : cs.length using Nat.strongRecOn generalizing place cs leaves with
  | ind length ih =>
    rw [scanFrom] at h
    split at h
    · cases h
      simp
    · next c rest hcons =>
      split at h
      · cases h
      · next kind text hlongest =>
        obtain ⟨more, hmore, rfl⟩ := Option.map_eq_some_iff.1 h
        have hlt := length_drop_longest?_lt hcons hlongest
        refine List.forall_mem_cons.2 ⟨⟨text, rfl, longest?_shape hlongest⟩, ?_⟩
        exact ih _ (hlength ▸ hlt) hmore rfl

end DecimalCalculator.Lexeme
