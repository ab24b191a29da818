import DecimalCalculator.Proofs.Lexing.Reading

/-!
# The token sequences of source texts

Which token sequences source texts have, told by the tokens and their neighbours alone: the names
have the form of names, the numbers have neither a sign nor a positive exponent, a called name
stands directly before an opening parenthesis and a name that is read does not. These are the
spellable sequences, so each of them is the sequence of the text that it is written as.

A memory has no room for a sequence only where it has none for a text that it was read from.
-/
namespace DecimalCalculator

/-! ## The size of what is read -/

namespace Lexeme

theorem Cuts.length_text_le {before cs : List Char} {leaves : List Leaf}
    (h : Cuts before cs leaves) : ∀ leaf ∈ leaves, leaf.text.length ≤ cs.length := by
  induction h with
  | done _ => exact List.forall_mem_nil _
  | leaf _ _ _ ih =>
    refine List.forall_mem_cons.2 ⟨?_, fun leaf hleaf => ?_⟩
    · simp only [List.length_append]
      omega
    · have hle := ih leaf hleaf
      simp only [List.length_append]
      omega

theorem IsNumeral.filter_ne_nil {text : List Char} (h : IsNumeral text) :
    text.filter Char.isDigit ≠ [] := by
  cases h with
  | whole hne hdigits => rwa [List.filter_eq_self.2 hdigits]
  | pointed hne hwhole hfraction =>
    rwa [List.filter_append, List.filter_eq_self.2 hwhole, List.filter_cons_of_neg (by decide),
      List.filter_eq_self.2 hfraction]

theorem plainCount_numeralValue_le {text : List Char} (h : IsNumeral text) :
    (numeralValue text).plainCount ≤ text.length := by
  have hne := h.filter_ne_nil
  have hdigits : ∀ c ∈ text.filter Char.isDigit, c.isDigit = true :=
    fun c hc => (List.mem_filter.1 hc).2
  have hcount := Text.digitCount_digitsValue_le hne hdigits
  have hfilter := List.length_filter_le Char.isDigit text
  have hplaces := (List.dropWhile_suffix (l := text) (· != '.')).length_le
  have hpos := List.length_pos_iff.2 hne
  simp only [numeralValue, Decimal.plainCount, Decimal.scaledCount]
  split <;> omega

end Lexeme

namespace Token

open Lexeme

theorem content_of_number_mem {ts : List Token} {leaves : List Leaf}
    (h : ts.flatMap contents = leaves.map Leaf.content) {value : Decimal}
    (hvalue : number value ∈ ts) : ∃ leaf ∈ leaves, leaf.content = .number value := by
  have hmem : Content.number value ∈ ts.flatMap contents :=
    List.mem_flatMap.2 ⟨_, hvalue, List.mem_singleton_self _⟩
  rw [h] at hmem
  exact List.mem_map.1 hmem

theorem printAll_of_ofSource {memory : Memory} {source : String} {ts : List Token}
    (h : ofSource source = .ok ts) (hfits : memory.fits .text source.length) :
    printAll memory ts = .ok (spellings ts) := by
  obtain ⟨leaves, hcuts, -⟩ := exists_ofSource_iff.1 ⟨ts, h⟩
  have hcontents := (reads_of_ofSource hcuts h).contents rfl
  have hall : ts.all (·.isPrintable memory) := by
    rw [List.all_eq_true]
    intro t ht
    cases t with
    | number value =>
      obtain ⟨leaf, hmem, hcontent⟩ := content_of_number_mem hcontents ht
      have hleaf := hcuts.isLeaf leaf hmem
      have hle := hcuts.length_text_le leaf hmem
      rw [String.length_toList] at hle
      rw [kind_of_content_number hcontent] at hleaf
      cases hleaf with
      | number hnumeral =>
        rw [Leaf.content, kind_of_content_number hcontent] at hcontent
        cases hcontent
        exact memory.fits_of_le ((plainCount_numeralValue_le hnumeral).trans hle) hfits
    | _ => rfl
  rw [printAll, if_pos hall]

/-! ## The image -/

/-- The token sequence has the form that sequences read from source texts have. -/
structure IsReadable (ts : List Token) : Prop where
  names : ∀ name, call name ∈ ts ∨ assign name ∈ ts ∨ read name ∈ ts → IsName name.toList
  numbers : ∀ value, number value ∈ ts →
    ∃ (coefficient : Nat) (exponent : Int), exponent ≤ 0 ∧
      value = .finite false coefficient exponent
  calls : ∀ name front back, ts = front ++ call name :: back →
    back.head? = some (symbol .parenOpen)
  reads : ∀ name front back, ts = front ++ read name :: back →
    back.head? ≠ some (symbol .parenOpen)

theorem IsReadable.tail {t : Token} {ts : List Token} (h : IsReadable (t :: ts)) :
    IsReadable ts where
  names name hname := h.names name (hname.imp (List.mem_cons_of_mem t)
    (Or.imp (List.mem_cons_of_mem t) (List.mem_cons_of_mem t)))
  numbers value hvalue := h.numbers value (List.mem_cons_of_mem t hvalue)
  calls name front back hts := h.calls name (t :: front) back (congrArg (t :: ·) hts)
  reads name front back hts := h.reads name (t :: front) back (congrArg (t :: ·) hts)

theorem IsReadable.isSpellable {ts : List Token} (h : IsReadable ts) : IsSpellable ts := by
  induction ts with
  | nil => exact isSpellable_nil
  | cons t ts ih =>
    have hmem : t ∈ t :: ts := List.mem_cons_self
    have hts := ih h.tail
    cases t with
    | symbol s => exact isSpellable_cons.2 ⟨trivial, fun _ _ => trivial, hts⟩
    | number value =>
      obtain ⟨coefficient, exponent, hexponent, rfl⟩ := h.numbers value hmem
      obtain ⟨places, hplaces⟩ := Int.eq_ofNat_of_zero_le (Int.neg_nonneg_of_nonpos hexponent)
      refine isSpellable_cons.2 ⟨⟨coefficient, places, ?_⟩, fun _ _ => trivial, hts⟩
      rw [← hplaces, Int.neg_neg]
    | assign name =>
      exact isSpellable_cons.2 ⟨h.names name (.inr (.inl hmem)), fun _ _ => trivial, hts⟩
    | call name =>
      refine isSpellable_cons.2 ⟨h.names name (.inl hmem), fun u hu => ?_, hts⟩
      obtain ⟨back, rfl⟩ := List.head?_eq_some_iff.1 (h.calls name [] ts rfl)
      cases hu
      rfl
    | read name =>
      refine isSpellable_cons.2 ⟨h.names name (.inr (.inr hmem)), fun u hu => ?_, hts⟩
      have hnext := h.reads name [] ts rfl
      cases ts with
      | nil =>
        cases hu
        simp [MayPrecede]
      | cons v ts =>
        cases hu
        rintro rfl
        exact hnext rfl

theorem IsSpellable.next {ts front back : List Token} {t : Token} (h : IsSpellable ts)
    (hts : ts = front ++ t :: back) :
    ∀ u, (back ++ [symbol .parenClose]).head? = some u → t.MayPrecede u := by
  subst hts
  exact (isSpellable_cons.1 (h.suffix (List.suffix_append front (t :: back)))).2.1

theorem IsSpellable.isReadable {ts : List Token} (h : IsSpellable ts) : IsReadable ts where
  names name hname := by
    rcases hname with hname | hname | hname <;> exact h.lexical _ hname
  numbers value hvalue := by
    obtain ⟨coefficient, places, rfl⟩ := h.lexical _ hvalue
    exact ⟨coefficient, -places, by omega, rfl⟩
  calls name front back hts := by
    have hnext := h.next hts
    cases back with
    | nil => exact absurd (hnext _ rfl) (by simp [MayPrecede])
    | cons u back => exact congrArg some (hnext u rfl)
  reads name front back hts := by
    have hnext := h.next hts
    rintro hhead
    obtain ⟨back, rfl⟩ := List.head?_eq_some_iff.1 hhead
    exact hnext _ rfl rfl

/-- The token sequences of source texts are the readable ones, and writing one down gives a text
that it is read from; this does not fit into the memory only where no such text does. The
leaves of a text are those that it is cut into from left to right, each as long as possible. -/
theorem printing_inverts_reading :
    (∀ ts, (∃ source, ofSource source = .ok ts) ↔ IsReadable ts) ∧
    (∀ ts, IsReadable ts → ofSource (spellings ts) = .ok ts) ∧
    (∀ memory ts, IsReadable ts → printAll memory ts = .ok (spellings ts) ∨
      printAll memory ts = .error .outOfMemory ∧
        ∀ source, ofSource source = .ok ts → ¬memory.fits .text source.length) ∧
    ∀ source lexemes, Lexeme.scan source = some lexemes ↔
      ∃ leaves, Cuts [] source.toList leaves ∧ lexemes = leaves.map Leaf.lexeme := by
  have hprint (ts : List Token) (h : IsReadable ts) : ofSource (spellings ts) = .ok ts :=
    ofSource_spellings h.isSpellable
  refine ⟨fun ts => ⟨?_, fun h => ⟨_, hprint ts h⟩⟩, hprint, fun memory ts _ => ?_,
    fun source lexemes => scan_eq_some_iff⟩
  · rintro ⟨source, hsource⟩
    exact (isSpellable_of_ofSource hsource).isReadable
  · by_cases hall : ts.all (·.isPrintable memory)
    · exact .inl (if_pos hall)
    · refine .inr ⟨if_neg hall, fun source hsource hfits => ?_⟩
      have hprinted := printAll_of_ofSource hsource hfits
      rw [printAll, if_neg hall] at hprinted
      cases hprinted

def callLessFactorial : List Token :=
  [assign "y", call "f", symbol .parenOpen, number (.finite false 250 (-2)), symbol .parenClose,
    symbol .sub, read "x", symbol .factorial]

theorem isReadable_callLessFactorial : IsReadable callLessFactorial := by
  have hword (c : Char) (hc : isNameStart c) : IsName [c] := .word hc (List.forall_mem_nil _)
  refine IsSpellable.isReadable ⟨?_, by simp [callLessFactorial, MayPrecede]⟩
  simp only [callLessFactorial, List.forall_mem_cons, IsLexical, true_and]
  exact ⟨hword 'y' rfl, hword 'f' rfl, ⟨250, 2, rfl⟩, hword 'x' rfl, List.forall_mem_nil _⟩

theorem callLessFactorial_is_read_back :
    IsReadable callLessFactorial ∧ spellings callLessFactorial = "y = f(2.50) - x!" ∧
      ofSource (spellings callLessFactorial) = .ok callLessFactorial :=
  ⟨isReadable_callLessFactorial, rfl,
    printing_inverts_reading.2.1 _ isReadable_callLessFactorial⟩

end Token

end DecimalCalculator
