import DecimalCalculator.Proofs.Lexing.Numerals
import DecimalCalculator.Token.OfLexemes
import DecimalCalculator.Token.Spelling
import Mathlib.Data.List.Chain
import Mathlib.Tactic.SplitIfs

/-!
# Tokens that can be written down

The scanner makes numbers without a sign or a power of ten and names of the plain form, and it tells
the uses of a name apart by the leaf that follows. A token sequence is spellable when it has these
properties: each token is one that the scanner can make, a called name stands before an opening
parenthesis, and a name that is read does not.

Every source text that can be read gives a spellable sequence (`isSpellable_of_ofSource`), and a
spellable sequence is read back token by token from the text that it is written as
(`ofSource_spellings`).
-/
namespace DecimalCalculator.Token

open Lexeme

/-- The token is one that the scanner can make of its own text. -/
def IsLexical : Token → Prop
  | symbol _ => True
  | number value => ∃ coefficient places : Nat, value = .finite false coefficient (-places)
  | call name | assign name | read name => IsName name.toList

/-- What the use of a name says about the token after it. -/
def MayPrecede : Token → Token → Prop
  | call _, t => t = .symbol .parenOpen
  | read _, t => t ≠ .symbol .parenOpen
  | _, _ => True

/-- The sequence can be written down and read again, also with a closing parenthesis after it. -/
structure IsSpellable (ts : List Token) : Prop where
  lexical : ∀ t ∈ ts, t.IsLexical
  chain : List.IsChain MayPrecede (ts ++ [symbol .parenClose])

theorem isSpellable_nil : IsSpellable [] := ⟨by simp, by simp⟩

theorem isSpellable_cons {t : Token} {ts : List Token} :
    IsSpellable (t :: ts) ↔ t.IsLexical ∧
      (∀ u, (ts ++ [symbol .parenClose]).head? = some u → t.MayPrecede u) ∧ IsSpellable ts := by
  constructor
  · rintro ⟨hlexical, hchain⟩
    obtain ⟨ht, hts⟩ := List.forall_mem_cons.1 hlexical
    obtain ⟨hfirst, hrest⟩ := List.isChain_cons.1 hchain
    exact ⟨ht, hfirst, hts, hrest⟩
  · rintro ⟨ht, hfirst, hts, hrest⟩
    exact ⟨List.forall_mem_cons.2 ⟨ht, hts⟩, List.isChain_cons.2 ⟨hfirst, hrest⟩⟩

theorem IsSpellable.suffix {ts us : List Token} (h : IsSpellable ts) (hu : us <:+ ts) :
    IsSpellable us := by
  obtain ⟨front, rfl⟩ := hu
  refine ⟨fun t ht => h.lexical t (List.mem_append_right front ht), ?_⟩
  have hchain := h.chain
  rw [List.append_assoc] at hchain
  exact hchain.right_of_append

/-- What stands before a closing parenthesis of a spellable sequence is spellable. -/
theorem IsSpellable.of_append_parenClose {ts us : List Token}
    (h : IsSpellable (ts ++ symbol .parenClose :: us)) : IsSpellable ts := by
  refine ⟨fun t ht => h.lexical t (List.mem_append_left _ ht), ?_⟩
  have hchain := h.chain
  rw [List.append_assoc, List.cons_append, List.append_cons] at hchain
  exact hchain.left_of_append

theorem IsSpellable.append_parenClose {ts : List Token} (h : IsSpellable ts) :
    IsSpellable (ts ++ [symbol .parenClose]) := by
  refine ⟨?_, List.isChain_append.2 ⟨h.chain, by simp, by simp [MayPrecede]⟩⟩
  intro t ht
  rcases List.mem_append.1 ht with ht | ht
  · exact h.lexical t ht
  · rw [List.mem_singleton.1 ht]
    trivial

/-! ## Reading a source text -/

def opens (leaf : Lexeme) : Bool := leaf.isOperator "("

theorem ofSpelling?_eq_some {text : String} {s : Symbol} (h : Symbol.ofSpelling? text = some s) :
    s.spelling = text :=
  beq_iff_eq.1 (List.find?_some (p := fun s : Symbol => s.spelling == text) h)

theorem ofLexeme_name {leaf : Lexeme} {name : String} (hkind : leaf.kind = .name)
    (htext : leaf.text = .text name) (next : Option Lexeme) :
    ofLexeme leaf next = .ok [if next.any (·.isOperator "=") then assign name
      else if next.any opens then call name else read name] := by
  have hopens : opens = fun leaf => leaf.isOperator "(" := rfl
  simp only [ofLexeme, hkind, htext, useOfName, hopens]
  split_ifs <;> rfl

theorem ofLexeme_number {leaf : Lexeme} {text : List Char} (hkind : leaf.kind = .number)
    (htext : leaf.text = .text (String.ofList text)) {value : Decimal}
    (hread : Decimal.readChars text = .ok value) (next : Option Lexeme) :
    ofLexeme leaf next = .ok [number value] := by
  have hpayload : Decimal.read (String.ofList text) = .ok value := by
    rw [Decimal.read, String.toList_ofList, hread]
  simp only [ofLexeme, hkind, htext, ofPayload, hpayload, Except.map, Failure.ofSignal]

theorem ofLexeme_operator {leaf : Lexeme} {next : Option Lexeme} {ts : List Token}
    (hkind : leaf.kind = .operator) (h : ofLexeme leaf next = .ok ts) :
    ∃ s, leaf.text = .text s.spelling ∧ ts = [symbol s] := by
  simp only [ofLexeme, hkind] at h
  split at h
  · cases h
  · unfold ofOperator at h
    split at h
    · next text hleaf =>
      split at h
      · next s hs =>
        cases h
        exact ⟨s, hleaf.trans (congrArg Datum.text (ofSpelling?_eq_some hs).symm), rfl⟩
      · cases h
    · cases h
    · cases h
    · cases h

theorem ofLexemesAfter_cons {leaf : Lexeme} {rest : List Lexeme} {ts : List Token} :
    ofLexemesAfter false (leaf :: rest) = .ok ts ↔ ∃ first more,
      ofLexeme leaf rest.head? = .ok first ∧
      ofLexemesAfter (takesNext leaf.kind rest.head?) rest = .ok more ∧ ts = first ++ more := by
  rw [ofLexemesAfter]
  cases ofLexeme leaf rest.head? with
  | error failure => simp [bind, Except.bind]
  | ok first =>
    cases ofLexemesAfter (takesNext leaf.kind rest.head?) rest with
    | error failure => simp [bind, Except.bind]
    | ok more => simp [bind, Except.bind, pure, Except.pure, eq_comm]

theorem takesNext_name (next : Option Lexeme) :
    takesNext .name next = next.any (·.isOperator "=") := by
  unfold takesNext useOfName
  split_ifs with hassign hcall
  · exact hassign.symm
  · exact (Bool.not_eq_true _ ▸ hassign : _ = false).symm
  · exact (Bool.not_eq_true _ ▸ hassign : _ = false).symm

theorem takesNext_of_ne {kind : LexemeKind} (h : kind ≠ .name) (next : Option Lexeme) :
    takesNext kind next = false := by
  cases kind <;> first | rfl | exact absurd rfl h

/-- The tokens of scanned leaves are spellable, and the first of them opens a parenthesis if the
first leaf does. The flag is that of a leaf which the one before it has taken. -/
theorem ofLexemesAfter_spellable {leaves : List Lexeme} {taken : Bool} {ts : List Token}
    (hscan : ∀ leaf ∈ leaves, IsScanned leaf) (h : ofLexemesAfter taken leaves = .ok ts) :
    IsSpellable ts ∧
      (taken = false → (ts.head? = some (symbol .parenOpen) ↔ leaves.head?.any opens)) := by
  induction leaves generalizing taken ts with
  | nil =>
    cases h
    exact ⟨isSpellable_nil, fun _ => by simp⟩
  | cons leaf rest ih =>
    obtain ⟨⟨text, htext, hshape⟩, hrest⟩ := List.forall_mem_cons.1 hscan
    cases taken with
    | true => exact ⟨(ih hrest h).1, by simp⟩
    | false =>
      obtain ⟨first, more, hfirst, hmore, rfl⟩ := ofLexemesAfter_cons.1 h
      obtain ⟨hspellable, hopens⟩ := ih hrest hmore
      rcases hshape with ⟨hkind, hnumeral⟩ | ⟨hkind, hname⟩ | ⟨hkind, -⟩
      · obtain ⟨coefficient, places, hread⟩ := Decimal.readChars_numeral hnumeral
        rw [ofLexeme_number hkind htext hread] at hfirst
        cases hfirst
        refine ⟨isSpellable_cons.2 ⟨⟨coefficient, places, rfl⟩, fun _ _ => trivial, hspellable⟩, ?_⟩
        simp [opens, isOperator, hkind]
      · rw [ofLexeme_name hkind htext] at hfirst
        rw [hkind, takesNext_name] at hopens
        have hnot : opens leaf = false := by simp [opens, isOperator, hkind]
        cases hfirst
        split_ifs with hassign hcall
        · refine ⟨isSpellable_cons.2 ⟨?_, fun _ _ => trivial, hspellable⟩, by simp [hnot]⟩
          rwa [IsLexical, String.toList_ofList]
        · have hhead := (hopens (Bool.not_eq_true _ ▸ hassign)).2 hcall
          obtain ⟨after, rfl⟩ := List.head?_eq_some_iff.1 hhead
          refine ⟨isSpellable_cons.2 ⟨?_, fun u hu => ?_, hspellable⟩, by simp [hnot]⟩
          · rwa [IsLexical, String.toList_ofList]
          · cases hu
            rfl
        · have hhead := mt (hopens (Bool.not_eq_true _ ▸ hassign)).1 hcall
          refine ⟨isSpellable_cons.2 ⟨?_, fun u hu => ?_, hspellable⟩, by simp [hnot]⟩
          · rwa [IsLexical, String.toList_ofList]
          · rintro rfl
            cases more with
            | nil => cases hu
            | cons t more => exact hhead hu
      · obtain ⟨s, hleaf, rfl⟩ := ofLexeme_operator hkind hfirst
        refine ⟨isSpellable_cons.2 ⟨trivial, fun _ _ => trivial, hspellable⟩, ?_⟩
        cases s <;> simp [opens, isOperator, hkind, hleaf, Datum.isText, Symbol.spelling]

theorem isSpellable_of_ofSource {source : String} {ts : List Token}
    (h : ofSource source = .ok ts) : IsSpellable ts := by
  unfold ofSource at h
  split at h
  · next leaves hleaves =>
    exact (ofLexemesAfter_spellable (isScanned_of_scanFrom hleaves) h).1
  · cases h

theorem ofLexeme_error {leaf : Lexeme} {next : Option Lexeme} {failure : Failure}
    (hscan : IsScanned leaf) (h : ofLexeme leaf next = .error failure) :
    failure =
      CalcError.parse "Unexpected '=' without a name to assign" leaf.position := by
  obtain ⟨text, htext, ⟨hkind, hnumeral⟩ | ⟨hkind, hname⟩ | ⟨hkind, hsign⟩⟩ := hscan
  · obtain ⟨coefficient, places, hread⟩ := Decimal.readChars_numeral hnumeral
    rw [ofLexeme_number hkind htext hread] at h
    cases h
  · rw [ofLexeme_name hkind htext] at h
    cases h
  · simp only [ofLexeme, hkind] at h
    split_ifs at h with hequals
    · cases h
      rfl
    · rcases hsign with rfl | ⟨s, rfl⟩
      · rw [htext] at hequals
        exact absurd rfl hequals
      · rw [String.ofList_toList] at htext
        rw [htext, ofOperator, Symbol.ofSpelling?_spelling] at h
        cases h

theorem ofLexemesAfter_error {leaves : List Lexeme} {taken : Bool} {failure : Failure}
    (hscan : ∀ leaf ∈ leaves, IsScanned leaf) (h : ofLexemesAfter taken leaves = .error failure) :
    ∃ message position, failure = CalcError.parse message position := by
  induction leaves generalizing taken with
  | nil => cases h
  | cons leaf rest ih =>
    obtain ⟨hleaf, hrest⟩ := List.forall_mem_cons.1 hscan
    cases taken with
    | true => exact ih hrest h
    | false =>
      rw [ofLexemesAfter] at h
      cases hfirst : ofLexeme leaf rest.head? with
      | error other =>
        rw [hfirst] at h
        cases h
        exact ⟨_, _, ofLexeme_error hleaf hfirst⟩
      | ok first =>
        cases hmore : ofLexemesAfter (takesNext leaf.kind rest.head?) rest with
        | error other =>
          rw [hfirst, hmore] at h
          cases h
          exact ih hrest hmore
        | ok more =>
          rw [hfirst, hmore] at h
          cases h

/-- A source text that cannot be read is reported as such, and for no other reason. -/
theorem ofSource_error {source : String} {failure : Failure}
    (h : ofSource source = .error failure) :
    ∃ message position, failure = CalcError.parse message position := by
  unfold ofSource at h
  split at h
  · next leaves hleaves => exact ofLexemesAfter_error (isScanned_of_scanFrom hleaves) h
  · cases h
    exact ⟨_, _, rfl⟩

/-! ## Reading what was written -/

/-- Some leaves are scanned here; they are read as these tokens; their first does not assign, and
opens a parenthesis if the first of the tokens does. -/
def ReadsBack (cs : List Char) (ts : List Token) : Prop :=
  ∀ place, ∃ leaves, scanFrom place cs = some leaves ∧ ofLexemes leaves = .ok ts ∧
    leaves.head?.any (·.isOperator "=") = false ∧
    (leaves.head?.any opens ↔ ts.head? = some (symbol .parenOpen))

theorem readsBack_nil : ReadsBack [] [] :=
  fun place => ⟨[], scanFrom_nil place, rfl, rfl, by simp⟩

section

variable {gap rest : List Char} {ts : List Token} (hgap : ∀ c ∈ gap, Text.isGap c)
  (h : ReadsBack rest ts)
include hgap h

/-- One more leaf is scanned in front. -/
theorem ReadsBack.leaf {text : List Char} {kind : LexemeKind}
    (hlongest : longest? (text ++ rest) = some (kind, text)) (place : Cursor) :
    ∃ leaf leaves, scanFrom place (gap ++ (text ++ rest)) = some (leaf :: leaves) ∧
      leaf.kind = kind ∧ leaf.text = .text (String.ofList text) ∧ ofLexemes leaves = .ok ts ∧
      leaves.head?.any (·.isOperator "=") = false ∧
      (leaves.head?.any opens ↔ ts.head? = some (symbol .parenOpen)) := by
  obtain ⟨position, place', hscan⟩ := scanFrom_leaf hgap hlongest place
  obtain ⟨leaves, hleaves, hread, hnot, hopens⟩ := h place'
  rw [hleaves] at hscan
  exact ⟨_, leaves, hscan, rfl, rfl, hread, hnot, hopens⟩

theorem readsBack_symbol (s : Symbol) :
    ReadsBack (gap ++ (s.spelling.toList ++ rest)) (symbol s :: ts) := by
  intro place
  obtain ⟨leaf, leaves, hscan, hkind, htext, hread, -, -⟩ :=
    h.leaf hgap (longest?_symbol s rest) place
  rw [String.ofList_toList] at htext
  have hleaf : ofLexeme leaf leaves.head? = .ok [symbol s] := by
    have hequals : Datum.isText "=" (.text s.spelling) = false := by cases s <;> rfl
    simp [ofLexeme, hkind, htext, hequals, ofOperator, Symbol.ofSpelling?_spelling, Except.map]
  refine ⟨leaf :: leaves, hscan, ofLexemesAfter_cons.2 ⟨[symbol s], ts, hleaf, ?_, rfl⟩, ?_, ?_⟩
  · rw [hkind, takesNext_of_ne (by decide)]
    exact hread
  · cases s <;> simp [isOperator, htext, Datum.isText, Symbol.spelling]
  · cases s <;> simp [opens, isOperator, hkind, htext, Datum.isText, Symbol.spelling]

theorem readsBack_number (hbreaks : Breaks rest) (coefficient places : Nat) :
    ReadsBack (gap ++ ((number (.finite false coefficient (-places))).spelling.toList ++ rest))
      (number (.finite false coefficient (-places)) :: ts) := by
  intro place
  have hchars : (number (.finite false coefficient (-places))).spelling.toList =
      Decimal.plainChars (.finite false coefficient (-places)) := String.toList_ofList
  rw [hchars]
  obtain ⟨leaf, leaves, hscan, hkind, htext, hread, -, -⟩ := h.leaf hgap
    (longest?_numeral (Decimal.isNumeral_plainChars coefficient places) hbreaks) place
  have hleaf := ofLexeme_number hkind htext (Decimal.readChars_plainChars coefficient places)
    leaves.head?
  refine ⟨leaf :: leaves, hscan, ofLexemesAfter_cons.2 ⟨_, ts, hleaf, ?_, rfl⟩, ?_, ?_⟩
  · rw [hkind, takesNext_of_ne (by decide)]
    exact hread
  · simp [isOperator, hkind]
  · simp [opens, isOperator, hkind]

/-- A name that is not assigned to is called or read, according to the token after it. -/
theorem readsBack_name (hbreaks : Breaks rest) {name : String} (hname : IsName name.toList) :
    ReadsBack (gap ++ (name.toList ++ rest))
      ((if ts.head? = some (symbol .parenOpen) then call name else read name) :: ts) := by
  intro place
  obtain ⟨leaf, leaves, hscan, hkind, htext, hread, hnot, hopens⟩ :=
    h.leaf hgap (longest?_name hname hbreaks) place
  rw [String.ofList_toList] at htext
  have hleaf : ofLexeme leaf leaves.head? =
      .ok [if ts.head? = some (symbol .parenOpen) then call name else read name] := by
    rw [ofLexeme_name hkind htext, hnot]
    simp only [Bool.false_eq_true, if_false, hopens]
  refine ⟨leaf :: leaves, hscan, ofLexemesAfter_cons.2 ⟨_, ts, hleaf, ?_, rfl⟩, ?_, ?_⟩
  · rw [hkind, takesNext_name, hnot]
    exact hread
  · simp [isOperator, hkind]
  · split_ifs <;> simp [opens, isOperator, hkind]

theorem readsBack_assign {name : String} (hname : IsName name.toList) :
    ReadsBack (gap ++ ((assign name).spelling.toList ++ rest)) (assign name :: ts) := by
  intro place
  have hchars : (assign name).spelling.toList ++ rest =
      name.toList ++ ([' '] ++ (['='] ++ rest)) := by
    simp [spelling]
  have hbreaks : Breaks ([' '] ++ (['='] ++ rest)) := by
    rintro _ ⟨⟩
    decide
  have hspace : ∀ c ∈ [' '], Text.isGap c = true := List.forall_mem_singleton.2 rfl
  rw [hchars]
  obtain ⟨position, place', hscan⟩ := scanFrom_leaf hgap (longest?_name hname hbreaks) place
  obtain ⟨sign, leaves, hscan', hkind, htext, hread, -, -⟩ :=
    h.leaf hspace (longest?_equals rest) place'
  rw [hscan'] at hscan
  have hequals : sign.isOperator "=" = true := by
    rw [isOperator, hkind, htext]
    rfl
  refine ⟨_, hscan, ofLexemesAfter_cons.2 ⟨[assign name], ts, ?_, ?_, rfl⟩, rfl, ?_⟩
  · rw [ofLexeme_name rfl rfl, String.ofList_toList]
    simp [hequals]
  · rw [takesNext_name]
    simp only [List.head?_cons, Option.any_some, hequals]
    exact hread
  · simp [opens, isOperator]

end

theorem isGap_spacing (before after : Token) :
    ∀ c ∈ (spacing before after).toList, Text.isGap c := by
  unfold spacing
  split
  · exact List.forall_mem_nil _
  · exact List.forall_mem_singleton.2 rfl

/-- What is written after a number or a name does not prolong it. -/
theorem breaks_spellingAfter (before : Token) {ts : List Token}
    (h : before.clingsToNext → ts.head? = some (symbol .parenOpen)) :
    Breaks (spellingAfter before ts).toList := by
  intro c hc
  cases ts with
  | nil => cases hc
  | cons t ts =>
    rw [spellingAfter, String.toList_append, String.toList_append] at hc
    by_cases hnext : before.clingsToNext
    · cases h hnext
      rw [spacing, hnext] at hc
      cases hc
      decide
    · by_cases hprevious : t.clingsToPrevious
      · rw [spacing, hprevious, Bool.or_true] at hc
        unfold clingsToPrevious at hprevious
        split at hprevious
        · cases hc
          decide
        · cases hc
          decide
        · cases hc
          decide
        · cases hprevious
      · have hspace : spacing before t = " " := by simp [spacing, hnext, hprevious]
        rw [hspace] at hc
        cases hc
        decide

theorem readsBack_spellingAfter (before : Token) {ts : List Token} (h : IsSpellable ts) :
    ReadsBack (spellingAfter before ts).toList ts := by
  induction ts generalizing before with
  | nil => exact readsBack_nil
  | cons t ts ih =>
    obtain ⟨hlexical, hfirst, hrest⟩ := isSpellable_cons.1 h
    have hgap := isGap_spacing before t
    rw [spellingAfter, String.toList_append, String.toList_append, List.append_assoc]
    cases t with
    | symbol s => exact readsBack_symbol hgap (ih _ hrest) s
    | number value =>
      obtain ⟨coefficient, places, rfl⟩ := hlexical
      exact readsBack_number hgap (ih _ hrest)
        (breaks_spellingAfter _ (by simp [clingsToNext])) coefficient places
    | call name =>
      have hopen : ts.head? = some (symbol .parenOpen) := by
        cases ts with
        | nil => exact absurd (hfirst _ rfl) (by simp [MayPrecede])
        | cons u ts => exact congrArg some (hfirst u rfl)
      have hread := readsBack_name hgap (ih _ hrest)
        (breaks_spellingAfter (call name) fun _ => hopen) hlexical
      rwa [if_pos hopen] at hread
    | assign name => exact readsBack_assign hgap (ih _ hrest) hlexical
    | read name =>
      have hopen : ts.head? ≠ some (symbol .parenOpen) := by
        intro hhead
        obtain ⟨more, rfl⟩ := List.head?_eq_some_iff.1 hhead
        exact hfirst _ rfl rfl
      have hread := readsBack_name hgap (ih _ hrest)
        (breaks_spellingAfter (read name) (by simp [clingsToNext])) hlexical
      rwa [if_neg hopen] at hread

theorem spellings_eq_spellingAfter (ts : List Token) :
    spellings ts = spellingAfter (symbol .parenOpen) ts := by
  cases ts with
  | nil => rfl
  | cons t ts =>
    have hspacing : spacing (symbol .parenOpen) t = "" := rfl
    rw [spellings, spellingAfter, hspacing, String.empty_append]

theorem ReadsBack.ofSource {source : String} {ts : List Token} (h : ReadsBack source.toList ts) :
    ofSource source = .ok ts := by
  obtain ⟨leaves, hscan, hread, -⟩ := h Cursor.start
  rw [Token.ofSource, scan, hscan]
  exact hread

/-- A spellable sequence is read back from what is written. -/
theorem ofSource_spellings {ts : List Token} (h : IsSpellable ts) :
    ofSource (spellings ts) = .ok ts := by
  rw [spellings_eq_spellingAfter]
  exact (readsBack_spellingAfter (symbol .parenOpen) h).ofSource

end DecimalCalculator.Token
