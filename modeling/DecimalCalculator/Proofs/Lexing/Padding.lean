import DecimalCalculator.Proofs.Lexing.Reading

/-!
# Gaps around a text

Gaps before and after a source text do not change its tokens. No leaf has a character in it that may
stand in a gap, so the longest leaf at a place does not depend on a gap at the end of the text, and
a gap at its beginning belongs to the gap before the first leaf. What changes are the places: a text
that cannot be read is reported on with another line and column (`ofSource_padded`).
-/
namespace DecimalCalculator

namespace Lexeme

/-! ## Leaves have no gaps in them -/

theorem visible_of_isNamePart {c : Char} (h : isNamePart c) : 0x21 ≤ c.toNat ∧ c.toNat ≤ 0x7E := by
  rw [isNamePart, Char.isAlphanum, Bool.or_eq_true, Bool.or_eq_true] at h
  rcases h with (hletter | hdigit) | hunder
  · have hrange := toNat_of_isNameStart (c := c) (by simp [isNameStart, hletter])
    omega
  · have hrange := toNat_of_isDigit hdigit
    omega
  · rw [beq_iff_eq.1 hunder]
    decide

theorem visible_of_isSign {text : List Char} (h : IsSign text) :
    ∀ c ∈ text, 0x21 ≤ c.toNat ∧ c.toNat ≤ 0x7E := by
  have hall : text.all fun c => 0x21 ≤ c.toNat ∧ c.toNat ≤ 0x7E := by
    rcases h with rfl | ⟨s, rfl⟩
    · rfl
    · cases s <;> rfl
  intro c hc
  simpa using List.all_eq_true.1 hall c hc

/-- A leaf is made of visible plain characters. -/
theorem IsLeaf.visible {kind : LexemeKind} {text : List Char} (h : IsLeaf kind text) :
    ∀ c ∈ text, 0x21 ≤ c.toNat ∧ c.toNat ≤ 0x7E := by
  have hdigit : ∀ c : Char, c.isDigit → 0x21 ≤ c.toNat ∧ c.toNat ≤ 0x7E :=
    fun c hc => visible_of_isNamePart (isNamePart_of_isDigit hc)
  cases h with
  | number h =>
    cases h with
    | whole _ hdigits => exact fun c hc => hdigit c (hdigits c hc)
    | pointed _ hwhole hfraction =>
      exact List.forall_mem_append.2 ⟨fun c hc => hdigit c (hwhole c hc),
        List.forall_mem_cons.2 ⟨by decide, fun c hc => hdigit c (hfraction c hc)⟩⟩
  | name h =>
    cases h with
    | @word first _ hfirst hrest =>
      have hrange := toNat_of_isNameStart hfirst
      exact List.forall_mem_cons.2 ⟨by omega, fun c hc => visible_of_isNamePart (hrest c hc)⟩
    | positional _ hdigits =>
      exact List.forall_mem_cons.2 ⟨by decide, fun c hc => hdigit c (hdigits c hc)⟩
  | operator h => exact visible_of_isSign h

theorem IsLeaf.isGap {kind : LexemeKind} {text : List Char} (h : IsLeaf kind text) :
    ∀ c ∈ text, Text.isGap c = false :=
  fun c hc => isGap_of_visible (h.visible c hc).1 (h.visible c hc).2

/-- A leaf in front of a text with a gap at its end stands in front of the text without it. -/
theorem IsLeaf.prefix_of_append {kind : LexemeKind} {text cs gap : List Char}
    (h : IsLeaf kind text) (hgap : ∀ c ∈ gap, Text.isGap c) (hfront : text <+: cs ++ gap) :
    text <+: cs := by
  obtain ⟨rest, hrest⟩ := hfront
  rcases List.append_eq_append_iff.1 hrest with ⟨more, rfl, -⟩ | ⟨more, rfl, hmore⟩
  · exact List.prefix_append _ _
  · cases more with
    | nil => exact ⟨[], by simp⟩
    | cons c more =>
      have hc := h.isGap c (by simp)
      rw [hgap c (by simp [hmore])] at hc
      cases hc

theorem isLongest_append_gap {kind : LexemeKind} {text cs gap : List Char}
    (hgap : ∀ c ∈ gap, Text.isGap c) :
    IsLongest (cs ++ gap) kind text ↔ IsLongest cs kind text := by
  constructor
  · intro h
    refine ⟨h.leaf.prefix_of_append hgap h.front, h.leaf, fun kind' text' hleaf hfront => ?_⟩
    exact h.longest kind' text' hleaf (hfront.trans (List.prefix_append cs gap))
  · intro h
    refine ⟨h.front.trans (List.prefix_append cs gap), h.leaf, fun kind' text' hleaf hfront => ?_⟩
    exact h.longest kind' text' hleaf (hleaf.prefix_of_append hgap hfront)

/-! ## Cutting a text with gaps around it -/

section

variable {before cs gap : List Char} {leaves : List Leaf}

/-- What stands before a text changes only the places of its leaves. -/
theorem Cuts.moved (h : Cuts before cs leaves) (before' : List Char) :
    ∃ leaves', Cuts before' cs leaves' ∧ leaves'.map Leaf.content = leaves.map Leaf.content := by
  induction h generalizing before' with
  | done hgap => exact ⟨[], .done hgap, rfl⟩
  | leaf hgap hlongest _ ih =>
    obtain ⟨leaves', hcuts, hcontents⟩ := ih (before' ++ _ ++ _)
    exact ⟨_, .leaf hgap hlongest hcuts, congrArg (_ :: ·) hcontents⟩

theorem Cuts.gap_append (hgap : ∀ c ∈ gap, Text.isGap c) (h : Cuts (before ++ gap) cs leaves) :
    Cuts before (gap ++ cs) leaves := by
  generalize hplace : before ++ gap = place at h
  cases h with
  | done hmore => exact .done (List.forall_mem_append.2 ⟨hgap, hmore⟩)
  | @leaf _ more _ _ _ _ hmore hlongest hcuts =>
    subst hplace
    have hgaps : ∀ c ∈ gap ++ more, Text.isGap c := List.forall_mem_append.2 ⟨hgap, hmore⟩
    rw [List.append_assoc before gap more] at hcuts ⊢
    rw [← List.append_assoc gap more]
    exact .leaf hgaps hlongest hcuts

theorem Cuts.append_gap (hgap : ∀ c ∈ gap, Text.isGap c) (h : Cuts before cs leaves) :
    Cuts before (cs ++ gap) leaves := by
  induction h with
  | done hmore => exact .done (List.forall_mem_append.2 ⟨hmore, hgap⟩)
  | leaf hmore hlongest _ ih =>
    rw [List.append_assoc, List.append_assoc]
    refine .leaf hmore ?_ ih
    rw [← List.append_assoc]
    exact (isLongest_append_gap hgap).2 hlongest

/-- A gap in front of a leaf is all of the gap before the leaf or the beginning of it. -/
theorem exists_of_gap_append {kind : LexemeKind} {more text rest : List Char}
    (hgap : ∀ c ∈ gap, Text.isGap c) (hleaf : IsLeaf kind text) (hne : text ≠ [])
    (h : gap ++ cs = more ++ (text ++ rest)) :
    ∃ back, more = gap ++ back ∧ cs = back ++ (text ++ rest) := by
  rcases List.append_eq_append_iff.1 h with ⟨back, hmore, hcs⟩ | ⟨back, hfront, hback⟩
  · exact ⟨back, hmore, hcs⟩
  · cases back with
    | nil => exact ⟨[], by simpa using hfront.symm, hback.symm⟩
    | cons c back =>
      obtain ⟨first, tail, rfl⟩ := List.exists_cons_of_ne_nil hne
      obtain ⟨rfl, -⟩ := List.cons.inj hback
      have hc := hleaf.isGap first List.mem_cons_self
      rw [hgap first (by simp [hfront])] at hc
      cases hc

/-- A gap behind a leaf lies in what is behind the leaf. -/
theorem exists_of_append_gap {kind : LexemeKind} {more text rest : List Char}
    (hgap : ∀ c ∈ gap, Text.isGap c) (hleaf : IsLeaf kind text) (hne : text ≠ [])
    (h : cs ++ gap = more ++ (text ++ rest)) :
    ∃ back, cs = more ++ (text ++ back) ∧ rest = back ++ gap := by
  rw [← List.append_assoc] at h
  rcases List.append_eq_append_iff.1 h with ⟨back, hfront, hback⟩ | ⟨back, hcs, hrest⟩
  · cases hlast : back.getLast? with
    | none =>
      rw [List.getLast?_eq_none_iff.1 hlast] at hfront hback
      exact ⟨[], by simpa using hfront.symm, hback.symm⟩
    | some c =>
      have htext : text.getLast? = some c := by
        rw [← List.getLast?_append_of_ne_nil more hne, hfront, List.getLast?_append, hlast]
        rfl
      have hc := hleaf.isGap c (List.mem_of_getLast? htext)
      rw [hgap c (hback ▸ List.mem_append_left rest (List.mem_of_getLast? hlast))] at hc
      cases hc
  · exact ⟨back, by rw [hcs, List.append_assoc], hrest⟩

/-- Where a text with a gap at its beginning is cut, the gap is that before the first leaf. -/
theorem Cuts.of_gap_append (hgap : ∀ c ∈ gap, Text.isGap c) (h : Cuts before (gap ++ cs) leaves) :
    Cuts (before ++ gap) cs leaves := by
  generalize hcs : gap ++ cs = whole at h
  cases h with
  | done hmore => exact .done fun c hc => hmore c (hcs ▸ List.mem_append_right gap hc)
  | leaf hmore hlongest hcuts =>
    obtain ⟨back, rfl, rfl⟩ := exists_of_gap_append hgap hlongest.leaf hlongest.ne_nil hcs
    rw [← List.append_assoc before gap] at hcuts ⊢
    exact .leaf (fun c hc => hmore c (List.mem_append_right gap hc)) hlongest hcuts

/-- Where a text with a gap at its end is cut, the gap is what is left at the end. -/
theorem Cuts.of_append_gap (hgap : ∀ c ∈ gap, Text.isGap c) (h : Cuts before (cs ++ gap) leaves) :
    Cuts before cs leaves := by
  generalize hcs : cs ++ gap = whole at h
  induction h generalizing cs with
  | done hmore => exact .done fun c hc => hmore c (hcs ▸ List.mem_append_left gap hc)
  | leaf hmore hlongest _ ih =>
    obtain ⟨back, rfl, rfl⟩ := exists_of_append_gap hgap hlongest.leaf hlongest.ne_nil hcs
    rw [← List.append_assoc] at hlongest
    exact .leaf hmore ((isLongest_append_gap hgap).1 hlongest) (ih rfl)

end

/-- With gaps around it a text is cut into leaves of the same contents. -/
theorem exists_cuts_padded {lead cs trail : List Char} (hlead : ∀ c ∈ lead, Text.isGap c)
    (htrail : ∀ c ∈ trail, Text.isGap c) (contents : List Content) :
    (∃ leaves, Cuts [] (lead ++ (cs ++ trail)) leaves ∧ leaves.map Leaf.content = contents) ↔
      ∃ leaves, Cuts [] cs leaves ∧ leaves.map Leaf.content = contents := by
  constructor
  · rintro ⟨leaves, hcuts, rfl⟩
    exact ((hcuts.of_gap_append hlead).of_append_gap htrail).moved []
  · rintro ⟨leaves, hcuts, rfl⟩
    obtain ⟨leaves', hcuts', hcontents⟩ := hcuts.moved lead
    exact ⟨leaves', (hcuts'.append_gap htrail).gap_append hlead, hcontents⟩

end Lexeme

namespace Token

open Lexeme

/-! ## Tokens of leaves that say the same -/

/-- Leaves that say the same are read alike, up to the place at which reading stops. -/
theorem Reads.of_contents {leaves leaves' : List Leaf} {r : Except Leaf (List Token)}
    (h : Reads leaves r) (hsame : leaves'.map Leaf.content = leaves.map Leaf.content) :
    ∃ r', Reads leaves' r' ∧ r'.toOption = r.toOption := by
  have hmap : ∀ {r r' : Except Leaf (List Token)} (t : Token), r'.toOption = r.toOption →
      (r'.map (t :: ·)).toOption = (r.map (t :: ·)).toOption := by
    intro r r' t hr
    cases r <;> cases r' <;> simp_all [Except.map, Except.toOption]
  induction h generalizing leaves' with
  | nil =>
    cases List.map_eq_nil_iff.1 hsame
    exact ⟨_, .nil, rfl⟩
  | number hcontent _ ih =>
    obtain ⟨leaf', rest', rfl, hleaf, hrest⟩ := List.map_eq_cons_iff.1 hsame
    obtain ⟨r', hreads, hr⟩ := ih hrest
    exact ⟨_, .number (hleaf.trans hcontent) hreads, hmap _ hr⟩
  | symbol hcontent _ ih =>
    obtain ⟨leaf', rest', rfl, hleaf, hrest⟩ := List.map_eq_cons_iff.1 hsame
    obtain ⟨r', hreads, hr⟩ := ih hrest
    exact ⟨_, .symbol (hleaf.trans hcontent) hreads, hmap _ hr⟩
  | assign hname hequals _ ih =>
    obtain ⟨leaf', more', rfl, hleaf, hmore⟩ := List.map_eq_cons_iff.1 hsame
    obtain ⟨equals', rest', rfl, hsign, hrest⟩ := List.map_eq_cons_iff.1 hmore
    obtain ⟨r', hreads, hr⟩ := ih hrest
    exact ⟨_, .assign (hleaf.trans hname) (hsign.trans hequals) hreads, hmap _ hr⟩
  | @name _ leaves _ _ hname hnext _ ih =>
    obtain ⟨leaf', rest', rfl, hleaf, hrest⟩ := List.map_eq_cons_iff.1 hsame
    obtain ⟨r', hreads, hr⟩ := ih hrest
    have hhead : rest'.head?.map Leaf.content = leaves.head?.map Leaf.content := by
      rw [← List.head?_map, hrest, List.head?_map]
    rw [← hhead] at hnext ⊢
    exact ⟨_, .name (hleaf.trans hname) hnext hreads, hmap _ hr⟩
  | stray hequals =>
    obtain ⟨leaf', rest', rfl, hleaf, -⟩ := List.map_eq_cons_iff.1 hsame
    exact ⟨_, .stray (hleaf.trans hequals), rfl⟩

/-! ## Source texts -/

/-- Two texts have the same tokens, or neither can be read, for one reason but perhaps at different
places. -/
inductive ReadAlike : Except Failure (List Token) → Except Failure (List Token) → Prop
  | tokens (ts : List Token) : ReadAlike (.ok ts) (.ok ts)
  | misread (message : String) (place place' : Option Position) :
    ReadAlike (.error (CalcError.parse message place)) (.error (CalcError.parse message place'))

theorem ofSource_padded {source padded : String} {lead trail : List Char}
    (hlead : ∀ c ∈ lead, Text.isGap c) (htrail : ∀ c ∈ trail, Text.isGap c)
    (hpadded : padded.toList = lead ++ (source.toList ++ trail)) :
    ReadAlike (ofSource source) (ofSource padded) := by
  have hcontents : ∀ contents,
      (∃ leaves, Cuts [] padded.toList leaves ∧ leaves.map Leaf.content = contents) ↔
        ∃ leaves, Cuts [] source.toList leaves ∧ leaves.map Leaf.content = contents := by
    rw [hpadded]
    exact exists_cuts_padded hlead htrail
  by_cases hcuts : ∃ leaves, Cuts [] source.toList leaves
  · obtain ⟨leaves, hleaves⟩ := hcuts
    obtain ⟨leaves', hleaves', hsame⟩ := (hcontents _).2 ⟨leaves, hleaves, rfl⟩
    obtain ⟨r, hreads, hr⟩ := ofSource_of_cuts hleaves
    obtain ⟨r', hreads', hr'⟩ := hreads.of_contents hsame
    rw [hr, hreads'.ofSource hleaves']
    cases r with
    | ok ts =>
      cases r' with
      | ok ts' =>
        cases hr'
        exact .tokens ts
      | error leaf => cases hr'
    | error leaf =>
      cases r' with
      | ok ts' => cases hr'
      | error leaf' => exact .misread _ _ _
  · have hnone : ∀ leaves, ¬Cuts [] padded.toList leaves := by
      intro leaves hleaves
      obtain ⟨leaves', hleaves', -⟩ := (hcontents _).1 ⟨leaves, hleaves, rfl⟩
      exact hcuts ⟨leaves', hleaves'⟩
    rw [ofSource_of_not_cuts (not_exists.1 hcuts), ofSource_of_not_cuts hnone]
    exact .misread _ _ _

end Token

end DecimalCalculator
