import DecimalCalculator.Proofs.Lexing.Grammar
import DecimalCalculator.Proofs.Lexing.Tokens

/-!
# From leaves to tokens

A number and a sign are one token each. A name takes the equals sign after it and is assigned to; it
is called before an opening parenthesis and read before anything else. An equals sign that no name
takes cannot be read, and the first such sign is where reading stops.

`Reads` says this of a sequence of leaves, and `ofSource_loses_nothing` of a source text: which
texts have tokens, what the tokens say compared with the leaves, and what is reported about the
other texts.
-/
namespace DecimalCalculator

namespace Lexeme

/-- The value of a number. All its digits count, and those behind the point lower the exponent. -/
def numeralValue (text : List Char) : Decimal :=
  .finite false (Text.digitsValue (text.filter Char.isDigit))
    (-((text.dropWhile (· != '.')).length - 1 : Nat))

/-- What a leaf says: the value of a number, or the text of a name or a sign. -/
inductive Content where
  | number (value : Decimal)
  | name (name : String)
  | sign (text : String)
  deriving DecidableEq, Repr

def Leaf.content (leaf : Leaf) : Content :=
  match leaf.kind with
  | .number => .number (numeralValue leaf.text)
  | .name => .name (String.ofList leaf.text)
  | _ => .sign (String.ofList leaf.text)

structure EqualsFollowNames (leaves : List Leaf) : Prop where
  first : ∀ leaf, leaves.head? = some leaf → leaf.content ≠ .sign "="
  chain : leaves.IsChain fun before leaf => leaf.content = .sign "=" → before.kind = .name

theorem kind_of_content_number {leaf : Leaf} {value : Decimal} (h : leaf.content = .number value) :
    leaf.kind = .number := by
  cases hkind : leaf.kind <;> simp_all [Leaf.content]

theorem kind_of_content_name {leaf : Leaf} {name : String} (h : leaf.content = .name name) :
    leaf.kind = .name := by
  cases hkind : leaf.kind <;> simp_all [Leaf.content]

theorem kind_ne_name_of_content_sign {leaf : Leaf} {text : String} (h : leaf.content = .sign text) :
    leaf.kind ≠ .name := by
  intro hkind
  simp [Leaf.content, hkind] at h

theorem equalsFollowNames_nil : EqualsFollowNames [] := ⟨by simp, .nil⟩

theorem EqualsFollowNames.cons {leaf : Leaf} {leaves : List Leaf} (h : EqualsFollowNames leaves)
    (hleaf : leaf.content ≠ .sign "=") : EqualsFollowNames (leaf :: leaves) := by
  refine ⟨?_, List.isChain_cons.2 ⟨fun next hnext hequals => ?_, h.chain⟩⟩
  · rintro _ ⟨⟩
    exact hleaf
  · exact absurd hequals (h.first next hnext)

/-- What stands after a name may be an equals sign. -/
theorem EqualsFollowNames.cons_cons {leaf next : Leaf} {leaves : List Leaf}
    (h : EqualsFollowNames leaves) (hleaf : leaf.kind = .name) :
    EqualsFollowNames (leaf :: next :: leaves) := by
  refine ⟨?_, List.isChain_cons_cons.2 ⟨fun _ => hleaf, List.isChain_cons.2 ⟨?_, h.chain⟩⟩⟩
  · rintro _ ⟨⟩ hsign
    exact kind_ne_name_of_content_sign hsign hleaf
  · exact fun next hnext hsign => absurd hsign (h.first next hnext)

/-- No equals sign of such a sequence stands behind anything else than a name. -/
theorem EqualsFollowNames.name_before {front back : List Leaf} {leaf : Leaf}
    (h : EqualsFollowNames (front ++ leaf :: back)) (hequals : leaf.content = .sign "=") :
    ∃ name, front.getLast? = some name ∧ name.kind = .name := by
  cases hlast : front.getLast? with
  | none =>
    rw [List.getLast?_eq_none_iff.1 hlast] at h
    exact absurd hequals (h.first leaf rfl)
  | some name =>
    have hchain := (List.isChain_append.1 h.chain).2.2
    exact ⟨name, rfl, hchain name hlast leaf rfl hequals⟩

theorem readChars_numeralValue {text : List Char} (h : IsNumeral text) :
    Decimal.readChars text = .ok (numeralValue text) := by
  cases h with
  | whole hne hdigits =>
    have hpoint : ∀ c ∈ text, (c != '.') = true := by
      intro c hc
      rw [bne_iff_ne]
      rintro rfl
      exact absurd (hdigits '.' hc) (by decide)
    have hdrop : text.dropWhile (· != '.') = [] := List.dropWhile_eq_nil_iff.2 hpoint
    rw [Decimal.readChars_whole hne hdigits, numeralValue, List.filter_eq_self.2 hdigits, hdrop]
    rfl
  | @pointed whole fraction hne hwhole hfraction =>
    have hpoint : ∀ c ∈ whole, (c != '.') = true := by
      intro c hc
      rw [bne_iff_ne]
      rintro rfl
      exact absurd (hwhole '.' hc) (by decide)
    have hdrop : (whole ++ '.' :: fraction).dropWhile (· != '.') = '.' :: fraction :=
      dropWhile_eq_of_stop hpoint (by rintro _ ⟨⟩; rfl)
    have hfilter : (whole ++ '.' :: fraction).filter Char.isDigit = whole ++ fraction := by
      rw [List.filter_append, List.filter_eq_self.2 hwhole, List.filter_cons_of_neg (by decide),
        List.filter_eq_self.2 hfraction]
    rw [Decimal.readChars_pointed hne hwhole hfraction, numeralValue, hfilter, hdrop]
    rfl

end Lexeme

namespace Token

open Lexeme

def contents : Token → List Content
  | symbol s => [.sign s.spelling]
  | number value => [.number value]
  | call name | read name => [.name name]
  | assign name => [.name name, .sign "="]

/-- What a name becomes before the given leaf. -/
def ofName (name : String) (next : Option Content) : Token :=
  if next = some (.sign "=") then assign name
  else if next = some (.sign "(") then call name
  else read name

/-- How leaves are read: as tokens, or up to an equals sign that no name takes. -/
inductive Reads : List Leaf → Except Leaf (List Token) → Prop
  | nil : Reads [] (.ok [])
  | number {leaf : Leaf} {leaves : List Leaf} {value : Decimal} {r : Except Leaf (List Token)} :
    leaf.content = .number value → Reads leaves r →
    Reads (leaf :: leaves) (r.map (number value :: ·))
  | symbol {leaf : Leaf} {leaves : List Leaf} {s : Symbol} {r : Except Leaf (List Token)} :
    leaf.content = .sign s.spelling → Reads leaves r →
    Reads (leaf :: leaves) (r.map (symbol s :: ·))
  | assign {leaf equals : Leaf} {leaves : List Leaf} {name : String}
    {r : Except Leaf (List Token)} :
    leaf.content = .name name → equals.content = .sign "=" → Reads leaves r →
    Reads (leaf :: equals :: leaves) (r.map (assign name :: ·))
  | name {leaf : Leaf} {leaves : List Leaf} {name : String} {r : Except Leaf (List Token)} :
    leaf.content = .name name → leaves.head?.map Leaf.content ≠ some (.sign "=") →
    Reads leaves r →
    Reads (leaf :: leaves) (r.map (ofName name (leaves.head?.map Leaf.content) :: ·))
  | stray {leaf : Leaf} {leaves : List Leaf} :
    leaf.content = .sign "=" → Reads (leaf :: leaves) (.error leaf)

/-! ## What is read -/

theorem map_eq_ok {α β ε : Type} {f : α → β} {r : Except ε α} {b : β} (h : r.map f = .ok b) :
    ∃ a, r = .ok a ∧ b = f a := by
  cases r with
  | ok a =>
    cases h
    exact ⟨a, rfl, rfl⟩
  | error e => cases h

theorem map_eq_error {α β ε : Type} {f : α → β} {r : Except ε α} {e : ε} (h : r.map f = .error e) :
    r = .error e := by
  cases r with
  | ok a => cases h
  | error e' =>
    cases h
    rfl

theorem spelling_ne_equals (s : Symbol) : Content.sign s.spelling ≠ .sign "=" := by
  cases s <;> decide

theorem ofName_equals (name : String) : ofName name (some (.sign "=")) = assign name :=
  if_pos rfl

theorem contents_ofName {name : String} {next : Option Content} (h : next ≠ some (.sign "=")) :
    (ofName name next).contents = [.name name] := by
  rw [ofName, if_neg h]
  split <;> rfl

theorem Reads.contents {leaves : List Leaf} {r : Except Leaf (List Token)} (h : Reads leaves r)
    {ts : List Token} (hr : r = .ok ts) : ts.flatMap contents = leaves.map Leaf.content := by
  induction h generalizing ts with
  | nil =>
    cases hr
    rfl
  | number hleaf _ ih | symbol hleaf _ ih =>
    obtain ⟨more, hmore, rfl⟩ := map_eq_ok hr
    rw [List.flatMap_cons, ih hmore, List.map_cons, hleaf]
    rfl
  | assign hleaf hequals _ ih =>
    obtain ⟨more, hmore, rfl⟩ := map_eq_ok hr
    rw [List.flatMap_cons, ih hmore, List.map_cons, List.map_cons, hleaf, hequals]
    rfl
  | name hleaf hnext _ ih =>
    obtain ⟨more, hmore, rfl⟩ := map_eq_ok hr
    rw [List.flatMap_cons, ih hmore, List.map_cons, hleaf, contents_ofName hnext]
    rfl
  | stray _ => cases hr

theorem Reads.equalsFollowNames {leaves : List Leaf} {r : Except Leaf (List Token)}
    (h : Reads leaves r) {ts : List Token} (hr : r = .ok ts) : EqualsFollowNames leaves := by
  induction h generalizing ts with
  | nil => exact equalsFollowNames_nil
  | number hleaf _ ih =>
    obtain ⟨more, hmore, -⟩ := map_eq_ok hr
    exact (ih hmore).cons (by simp [hleaf])
  | @symbol _ _ s _ hleaf _ ih =>
    obtain ⟨more, hmore, -⟩ := map_eq_ok hr
    exact (ih hmore).cons (hleaf ▸ spelling_ne_equals s)
  | assign hleaf _ _ ih =>
    obtain ⟨more, hmore, -⟩ := map_eq_ok hr
    exact (ih hmore).cons_cons (kind_of_content_name hleaf)
  | name hleaf _ _ ih =>
    obtain ⟨more, hmore, -⟩ := map_eq_ok hr
    exact (ih hmore).cons (by simp [hleaf])
  | stray _ => cases hr

theorem Reads.name_at {leaves : List Leaf} {r : Except Leaf (List Token)} (h : Reads leaves r)
    {ts : List Token} (hr : r = .ok ts) {front back : List Leaf} {leaf : Leaf} {name : String}
    (hsplit : leaves = front ++ leaf :: back) (hname : leaf.content = .name name) :
    ∃ before after, ts = before ++ ofName name (back.head?.map Leaf.content) :: after ∧
      before.flatMap Token.contents = front.map Leaf.content := by
  induction h generalizing ts front with
  | nil => simp at hsplit
  | number hleaf _ ih | symbol hleaf _ ih =>
    obtain ⟨more, hmore, rfl⟩ := map_eq_ok hr
    cases front with
    | nil =>
      cases hsplit
      rw [hleaf] at hname
      cases hname
    | cons first front =>
      obtain ⟨rfl, hrest⟩ := List.cons.inj hsplit
      obtain ⟨before, after, rfl, hbefore⟩ := ih hmore hrest
      refine ⟨_ :: before, after, rfl, ?_⟩
      rw [List.flatMap_cons, hbefore, List.map_cons, hleaf]
      rfl
  | assign hleaf hequals _ ih =>
    obtain ⟨more, hmore, rfl⟩ := map_eq_ok hr
    cases front with
    | nil =>
      cases hsplit
      rw [hleaf] at hname
      cases hname
      refine ⟨[], more, ?_, rfl⟩
      rw [List.head?_cons, Option.map_some, hequals, ofName_equals, List.nil_append]
    | cons first front =>
      obtain ⟨rfl, hrest⟩ := List.cons.inj hsplit
      cases front with
      | nil =>
        cases hrest
        rw [hequals] at hname
        cases hname
      | cons second front =>
        obtain ⟨rfl, htail⟩ := List.cons.inj hrest
        obtain ⟨before, after, rfl, hbefore⟩ := ih hmore htail
        refine ⟨_ :: before, after, rfl, ?_⟩
        rw [List.flatMap_cons, hbefore, List.map_cons, List.map_cons, hleaf, hequals]
        rfl
  | name hleaf hnext _ ih =>
    obtain ⟨more, hmore, rfl⟩ := map_eq_ok hr
    cases front with
    | nil =>
      cases hsplit
      rw [hleaf] at hname
      cases hname
      exact ⟨[], more, rfl, rfl⟩
    | cons first front =>
      obtain ⟨rfl, hrest⟩ := List.cons.inj hsplit
      obtain ⟨before, after, rfl, hbefore⟩ := ih hmore hrest
      refine ⟨_ :: before, after, rfl, ?_⟩
      rw [List.flatMap_cons, hbefore, List.map_cons, hleaf, contents_ofName hnext]
      rfl
  | stray _ => cases hr

/-! ## What cannot be read -/

/-- The leaf behind `front` is the first equals sign that does not stand after a name. -/
structure FirstStray (leaves front : List Leaf) (leaf : Leaf) : Prop where
  split : ∃ back, leaves = front ++ leaf :: back
  earlier : EqualsFollowNames front
  equals : leaf.content = .sign "="
  stray : ∀ before, front.getLast? = some before → before.kind ≠ .name

theorem FirstStray.not_equalsFollowNames {leaves front : List Leaf} {leaf : Leaf}
    (h : FirstStray leaves front leaf) : ¬EqualsFollowNames leaves := by
  obtain ⟨⟨back, rfl⟩, -, hequals, hstray⟩ := h
  intro hfollow
  obtain ⟨name, hlast, hname⟩ := hfollow.name_before hequals
  exact hstray name hlast hname

theorem FirstStray.cons {leaves front : List Leaf} {first leaf : Leaf}
    (h : FirstStray leaves front leaf) (hfirst : first.content ≠ .sign "=")
    (hlast : leaves.head?.map Leaf.content = some (.sign "=") → first.kind ≠ .name) :
    FirstStray (first :: leaves) (first :: front) leaf := by
  obtain ⟨⟨back, rfl⟩, hearlier, hequals, hstray⟩ := h
  refine ⟨⟨back, rfl⟩, hearlier.cons hfirst, hequals, ?_⟩
  cases front with
  | nil =>
    rintro _ ⟨⟩
    exact hlast (congrArg some hequals)
  | cons second front => rwa [List.getLast?_cons_cons]

theorem FirstStray.cons_cons {leaves front : List Leaf} {name equals leaf : Leaf}
    (h : FirstStray leaves front leaf) (hname : name.kind = .name)
    (hequals : equals.content = .sign "=") :
    FirstStray (name :: equals :: leaves) (name :: equals :: front) leaf := by
  obtain ⟨⟨back, rfl⟩, hearlier, hleaf, hstray⟩ := h
  refine ⟨⟨back, rfl⟩, hearlier.cons_cons hname, hleaf, ?_⟩
  cases front with
  | nil =>
    rintro _ ⟨⟩
    exact kind_ne_name_of_content_sign hequals
  | cons second front => rwa [List.getLast?_cons_cons, List.getLast?_cons_cons]

theorem Reads.firstStray {leaves : List Leaf} {r : Except Leaf (List Token)} (h : Reads leaves r)
    {leaf : Leaf} (hr : r = .error leaf) : ∃ front, FirstStray leaves front leaf := by
  induction h with
  | nil => cases hr
  | number hfirst _ ih =>
    obtain ⟨front, hfront⟩ := ih (map_eq_error hr)
    have hkind := kind_of_content_number hfirst
    exact ⟨_, hfront.cons (by simp [hfirst]) fun _ => by simp [hkind]⟩
  | symbol hfirst _ ih =>
    obtain ⟨front, hfront⟩ := ih (map_eq_error hr)
    exact ⟨_, hfront.cons (hfirst ▸ spelling_ne_equals _)
      fun _ => kind_ne_name_of_content_sign hfirst⟩
  | assign hname hequals _ ih =>
    obtain ⟨front, hfront⟩ := ih (map_eq_error hr)
    exact ⟨_, hfront.cons_cons (kind_of_content_name hname) hequals⟩
  | name hname hnext _ ih =>
    obtain ⟨front, hfront⟩ := ih (map_eq_error hr)
    exact ⟨_, hfront.cons (by simp [hname]) fun hequals => absurd hequals hnext⟩
  | stray hequals =>
    cases hr
    exact ⟨[], ⟨_, rfl⟩, equalsFollowNames_nil, hequals, by simp⟩

/-! ## Reading is what happens -/

/-- What is reported where reading stops at a stray equals sign. -/
def strayFailure (leaf : Leaf) : Failure :=
  CalcError.parse "Unexpected '=' without a name to assign"
    (some (Cursor.behind leaf.before).position)

theorem content_eq_sign_iff {leaf : Leaf} (hleaf : IsLeaf leaf.kind leaf.text) (text : String) :
    leaf.content = .sign text ↔ leaf.lexeme.isOperator text := by
  obtain ⟨kind, chars, before⟩ := leaf
  cases hleaf <;>
    simp [Leaf.content, Leaf.lexeme, Lexeme.isOperator, Datum.isText]

theorem any_isOperator_iff {leaves : List Leaf} (h : ∀ leaf ∈ leaves, IsLeaf leaf.kind leaf.text)
    (text : String) : (leaves.map Leaf.lexeme).head?.any (·.isOperator text) ↔
      leaves.head?.map Leaf.content = some (.sign text) := by
  cases leaves with
  | nil => simp
  | cons leaf leaves => simp [content_eq_sign_iff (h leaf List.mem_cons_self)]

theorem sign_cases {leaf : Leaf} (hleaf : IsLeaf leaf.kind leaf.text) {text : String}
    (h : leaf.content = .sign text) :
    leaf.kind = .operator ∧ (text = "=" ∨ ∃ s : Symbol, text = s.spelling) := by
  obtain ⟨kind, chars, before⟩ := leaf
  cases hleaf with
  | number _ => cases h
  | name _ => cases h
  | operator hsign =>
    cases h
    refine ⟨rfl, ?_⟩
    rcases hsign with hequals | ⟨s, hs⟩
    · exact .inl (congrArg String.ofList hequals)
    · exact .inr ⟨s, (congrArg String.ofList hs).trans String.ofList_toList⟩

section

variable {leaf : Leaf} (hleaf : IsLeaf leaf.kind leaf.text)
include hleaf

theorem ofLexeme_of_number {value : Decimal} (h : leaf.content = .number value)
    (next : Option Lexeme) : ofLexeme leaf.lexeme next = .ok [number value] := by
  obtain ⟨kind, text, before⟩ := leaf
  cases hleaf with
  | number htext =>
    cases h
    exact ofLexeme_number rfl rfl (readChars_numeralValue htext) next
  | name _ => cases h
  | operator _ => cases h

theorem ofLexeme_of_symbol {s : Symbol} (h : leaf.content = .sign s.spelling)
    (next : Option Lexeme) : ofLexeme leaf.lexeme next = .ok [symbol s] := by
  obtain ⟨hkind, -⟩ := sign_cases hleaf h
  have htext : leaf.lexeme.text = .text s.spelling := by
    rw [Leaf.content, hkind] at h
    exact congrArg Datum.text (Content.sign.inj h)
  have hequals : Datum.isText "=" (.text s.spelling) = false := by cases s <;> rfl
  have hkind' : leaf.lexeme.kind = .operator := hkind
  simp [ofLexeme, hkind', htext, hequals, ofOperator, Symbol.ofSpelling?_spelling, Except.map]

theorem ofLexeme_of_equals (h : leaf.content = .sign "=") (next : Option Lexeme) :
    ofLexeme leaf.lexeme next = .error (strayFailure leaf) := by
  obtain ⟨hkind, -⟩ := sign_cases hleaf h
  have htext : leaf.lexeme.text = .text "=" := by
    rw [Leaf.content, hkind] at h
    exact congrArg Datum.text (Content.sign.inj h)
  have hkind' : leaf.lexeme.kind = .operator := hkind
  simp only [ofLexeme, hkind', htext]
  rfl

omit hleaf in
/-- A leaf with a token of its own is read before the leaves after it. -/
theorem ofLexemes_of_ok {rest : List Lexeme} {t : Token} (hkind : leaf.lexeme.kind ≠ .name)
    (h : ofLexeme leaf.lexeme rest.head? = .ok [t]) :
    ofLexemes (leaf.lexeme :: rest) = (ofLexemes rest).map (t :: ·) := by
  rw [ofLexemes, ofLexemesAfter, h, takesNext_of_ne hkind]
  cases ofLexemesAfter false rest <;> rfl

omit hleaf in
theorem ofLexemes_of_error {rest : List Lexeme} {failure : Failure}
    (h : ofLexeme leaf.lexeme rest.head? = .error failure) :
    ofLexemes (leaf.lexeme :: rest) = .error failure := by
  rw [ofLexemes, ofLexemesAfter, h]
  rfl

omit hleaf in
theorem ofLexeme_of_name {name : String} (h : leaf.content = .name name) (next : Option Lexeme) :
    ofLexeme leaf.lexeme next = .ok [if next.any (·.isOperator "=") then assign name
      else if next.any opens then call name else read name] := by
  have hkind := kind_of_content_name h
  rw [Leaf.content, hkind] at h
  exact ofLexeme_name hkind (congrArg Datum.text (Content.name.inj h)) next

end

theorem ofLexemes_of_assign {leaf equals : Leaf} {name : String} {rest : List Lexeme}
    (hequals : IsLeaf equals.kind equals.text) (h : leaf.content = .name name)
    (hnext : equals.content = .sign "=") :
    ofLexemes (leaf.lexeme :: equals.lexeme :: rest) =
      (ofLexemes rest).map (assign name :: ·) := by
  have hany : (some equals.lexeme).any (·.isOperator "=") :=
    (content_eq_sign_iff hequals "=").1 hnext
  have hkind : leaf.lexeme.kind = .name := kind_of_content_name h
  rw [ofLexemes, ofLexemesAfter, List.head?_cons, ofLexeme_of_name h, if_pos hany, hkind,
    takesNext_name, hany]
  change (ofLexemesAfter false rest).bind _ = _
  cases ofLexemesAfter false rest <;> rfl

/-- Any other name is a token of its own. -/
theorem ofLexemes_of_name {leaf : Leaf} {name : String} {leaves : List Leaf}
    (hleaves : ∀ leaf ∈ leaves, IsLeaf leaf.kind leaf.text) (h : leaf.content = .name name)
    (hnext : leaves.head?.map Leaf.content ≠ some (.sign "=")) :
    ofLexemes (leaf.lexeme :: leaves.map Leaf.lexeme) = (ofLexemes (leaves.map Leaf.lexeme)).map
      (ofName name (leaves.head?.map Leaf.content) :: ·) := by
  have hequals : (leaves.map Leaf.lexeme).head?.any (·.isOperator "=") = false :=
    Bool.eq_false_iff.2 (mt (any_isOperator_iff hleaves "=").1 hnext)
  have hcall : (if (leaves.map Leaf.lexeme).head?.any opens then call name else read name) =
      ofName name (leaves.head?.map Leaf.content) := by
    rw [ofName, if_neg hnext]
    exact if_congr (any_isOperator_iff hleaves "(") rfl rfl
  have hkind : leaf.lexeme.kind = .name := kind_of_content_name h
  rw [ofLexemes, ofLexemesAfter, ofLexeme_of_name h, hkind, takesNext_name, hequals, hcall]
  cases ofLexemesAfter false (leaves.map Leaf.lexeme) <;> rfl

theorem map_mapError {α β ε ε' : Type} (r : Except ε α) (f : α → β) (g : ε → ε') :
    (r.mapError g).map f = (r.map f).mapError g := by
  cases r <;> rfl

theorem Reads.ofLexemes {leaves : List Leaf} {r : Except Leaf (List Token)} (h : Reads leaves r)
    (hleaves : ∀ leaf ∈ leaves, IsLeaf leaf.kind leaf.text) :
    ofLexemes (leaves.map Leaf.lexeme) = r.mapError strayFailure := by
  induction h with
  | nil => rfl
  | number hcontent _ ih =>
    obtain ⟨hleaf, hrest⟩ := List.forall_mem_cons.1 hleaves
    have hkind := kind_of_content_number hcontent
    rw [List.map_cons, ofLexemes_of_ok (by simp [Leaf.lexeme, hkind])
      (ofLexeme_of_number hleaf hcontent _), ih hrest, map_mapError]
  | symbol hcontent _ ih =>
    obtain ⟨hleaf, hrest⟩ := List.forall_mem_cons.1 hleaves
    rw [List.map_cons, ofLexemes_of_ok (kind_ne_name_of_content_sign hcontent)
      (ofLexeme_of_symbol hleaf hcontent _), ih hrest, map_mapError]
  | assign hname hequals _ ih =>
    obtain ⟨-, hmore⟩ := List.forall_mem_cons.1 hleaves
    obtain ⟨hleaf, hrest⟩ := List.forall_mem_cons.1 hmore
    rw [List.map_cons, List.map_cons, ofLexemes_of_assign hleaf hname hequals, ih hrest,
      map_mapError]
  | name hname hnext _ ih =>
    obtain ⟨-, hrest⟩ := List.forall_mem_cons.1 hleaves
    rw [List.map_cons, ofLexemes_of_name hrest hname hnext, ih hrest, map_mapError]
  | stray hequals =>
    obtain ⟨hleaf, -⟩ := List.forall_mem_cons.1 hleaves
    rw [List.map_cons, ofLexemes_of_error (ofLexeme_of_equals hleaf hequals _)]
    rfl

theorem exists_reads {leaves : List Leaf} (h : ∀ leaf ∈ leaves, IsLeaf leaf.kind leaf.text) :
    ∃ r, Reads leaves r := by
  induction hlength : leaves.length using Nat.strongRecOn generalizing leaves with
  | ind length ih =>
    cases leaves with
    | nil => exact ⟨_, .nil⟩
    | cons leaf rest =>
      obtain ⟨hleaf, hrest⟩ := List.forall_mem_cons.1 h
      obtain ⟨r, hreads⟩ := ih rest.length (hlength ▸ Nat.lt_succ_self _) hrest rfl
      cases hcontent : leaf.content with
      | number value => exact ⟨_, .number hcontent hreads⟩
      | sign text =>
        obtain ⟨-, rfl | ⟨s, rfl⟩⟩ := sign_cases hleaf hcontent
        · exact ⟨_, .stray hcontent⟩
        · exact ⟨_, .symbol hcontent hreads⟩
      | name name =>
        by_cases hnext : rest.head?.map Leaf.content = some (.sign "=")
        · obtain ⟨equals, hhead, hequals⟩ := Option.map_eq_some_iff.1 hnext
          obtain ⟨back, rfl⟩ := List.head?_eq_some_iff.1 hhead
          have hlt : back.length < length := by
            rw [← hlength, List.length_cons, List.length_cons]
            omega
          obtain ⟨r', hreads'⟩ := ih back.length hlt (List.forall_mem_cons.1 hrest).2 rfl
          exact ⟨_, .assign hcontent hequals hreads'⟩
        · exact ⟨_, .name hcontent hnext hreads⟩

/-! ## Source texts -/

section

variable {source : String} {leaves : List Leaf}

theorem Reads.ofSource {r : Except Leaf (List Token)} (hreads : Reads leaves r)
    (h : Cuts [] source.toList leaves) : Token.ofSource source = r.mapError strayFailure := by
  rw [Token.ofSource, scan_eq_some_iff.2 ⟨leaves, h, rfl⟩]
  exact hreads.ofLexemes h.isLeaf

theorem ofSource_of_cuts (h : Cuts [] source.toList leaves) :
    ∃ r, Reads leaves r ∧ ofSource source = r.mapError strayFailure := by
  obtain ⟨r, hreads⟩ := exists_reads h.isLeaf
  exact ⟨r, hreads, hreads.ofSource h⟩

theorem ofSource_of_not_cuts (h : ∀ leaves, ¬Cuts [] source.toList leaves) :
    ofSource source = .error (CalcError.parse "parse failed" none) := by
  cases hscan : scan source with
  | none => rw [ofSource, hscan]
  | some lexemes =>
    obtain ⟨leaves, hcuts, -⟩ := scan_eq_some_iff.1 hscan
    exact absurd hcuts (h leaves)

theorem reads_of_ofSource (h : Cuts [] source.toList leaves) {ts : List Token}
    (hts : ofSource source = .ok ts) : Reads leaves (.ok ts) := by
  obtain ⟨r, hreads, hr⟩ := ofSource_of_cuts h
  rw [hr] at hts
  cases r with
  | ok more =>
    cases hts
    exact hreads
  | error leaf => cases hts

theorem exists_ofSource_iff : (∃ ts, ofSource source = .ok ts) ↔
    ∃ leaves, Cuts [] source.toList leaves ∧ EqualsFollowNames leaves := by
  constructor
  · rintro ⟨ts, hts⟩
    by_cases hcuts : ∃ leaves, Cuts [] source.toList leaves
    · obtain ⟨leaves, hleaves⟩ := hcuts
      exact ⟨leaves, hleaves, (reads_of_ofSource hleaves hts).equalsFollowNames rfl⟩
    · rw [ofSource_of_not_cuts (not_exists.1 hcuts)] at hts
      cases hts
  · rintro ⟨leaves, hleaves, hfollow⟩
    obtain ⟨r, hreads, hr⟩ := ofSource_of_cuts hleaves
    cases r with
    | ok ts => exact ⟨ts, hr⟩
    | error leaf =>
      obtain ⟨front, hstray⟩ := hreads.firstStray rfl
      exact absurd hfollow hstray.not_equalsFollowNames

theorem ofSource_failure {failure : Failure} (h : ofSource source = .error failure) :
    (failure = CalcError.parse "parse failed" none ∧ ∀ leaves, ¬Cuts [] source.toList leaves) ∨
      ∃ leaves front leaf, Cuts [] source.toList leaves ∧ FirstStray leaves front leaf ∧
        failure = strayFailure leaf := by
  by_cases hcuts : ∃ leaves, Cuts [] source.toList leaves
  · obtain ⟨leaves, hleaves⟩ := hcuts
    obtain ⟨r, hreads, hr⟩ := ofSource_of_cuts hleaves
    rw [hr] at h
    cases r with
    | ok ts => cases h
    | error leaf =>
      cases h
      obtain ⟨front, hstray⟩ := hreads.firstStray rfl
      exact .inr ⟨leaves, front, leaf, hleaves, hstray, rfl⟩
  · rw [ofSource_of_not_cuts (not_exists.1 hcuts)] at h
    cases h
    exact .inl ⟨rfl, not_exists.1 hcuts⟩

end

/-- A source text has tokens exactly if it can be cut into leaves and each of its equals signs
stands after a name. Any other text fails to be parsed, at its first stray equals sign if it can be
cut. The tokens say what the leaves say, and each name is used as the leaf after it asks. -/
theorem ofSource_loses_nothing (source : String) :
    ((∃ ts, ofSource source = .ok ts) ↔
      ∃ leaves, Cuts [] source.toList leaves ∧ EqualsFollowNames leaves) ∧
    (∀ failure, ofSource source = .error failure →
      (failure = CalcError.parse "parse failed" none ∧ ∀ leaves, ¬Cuts [] source.toList leaves) ∨
      ∃ leaves front leaf, Cuts [] source.toList leaves ∧ FirstStray leaves front leaf ∧
        failure = CalcError.parse "Unexpected '=' without a name to assign"
          (some (Cursor.behind leaf.before).position)) ∧
    ∀ ts leaves, ofSource source = .ok ts → Cuts [] source.toList leaves →
      ts.flatMap contents = leaves.map Leaf.content ∧
      ∀ front leaf back name, leaves = front ++ leaf :: back → leaf.content = .name name →
        ∃ before after, ts = before ++ ofName name (back.head?.map Leaf.content) :: after ∧
          before.flatMap contents = front.map Leaf.content := by
  refine ⟨exists_ofSource_iff, fun failure h => ofSource_failure h, fun ts leaves hts hcuts => ?_⟩
  have hreads := reads_of_ofSource hcuts hts
  exact ⟨hreads.contents rfl, fun front leaf back name => hreads.name_at rfl⟩

/-- The leaves of `x=2.y`, where nothing stands between the number and the last name. -/
def assignmentLeaves : List Leaf :=
  [⟨.name, ['x'], []⟩, ⟨.operator, ['='], ['x']⟩, ⟨.number, ['2', '.'], ['x', '=']⟩,
    ⟨.name, ['y'], ['x', '=', '2', '.']⟩]

theorem cuts_assignmentLeaves : Cuts [] "x=2.y".toList assignmentLeaves := by
  have hnone : ∀ c ∈ ([] : List Char), Text.isGap c := List.forall_mem_nil _
  have hend : Cuts ['x', '=', '2', '.', 'y'] [] [] := .done hnone
  have hlast := @Cuts.leaf ['x', '=', '2', '.'] [] ['y'] _ _ _ hnone
    (longest?_eq_some_iff.1 rfl) hend
  have hnumber := @Cuts.leaf ['x', '='] [] ['2', '.'] _ _ _ hnone
    (longest?_eq_some_iff.1 rfl) hlast
  have hequals := @Cuts.leaf ['x'] [] ['='] _ _ _ hnone (longest?_eq_some_iff.1 rfl) hnumber
  exact @Cuts.leaf [] [] ['x'] _ _ _ hnone (longest?_eq_some_iff.1 rfl) hequals

/-- The text `x=2.y` assigns to `x` and reads `y`. -/
theorem tokens_of_assignmentLeaves : ∃ ts, ofSource "x=2.y" = .ok ts ∧
    ts.flatMap contents = [.name "x", .sign "=", .number (.finite false 2 0), .name "y"] ∧
    assign "x" ∈ ts := by
  obtain ⟨haccepted, -, hread⟩ := ofSource_loses_nothing "x=2.y"
  have hfollow : EqualsFollowNames assignmentLeaves :=
    ⟨by rintro _ ⟨⟩; decide, by decide⟩
  obtain ⟨ts, hts⟩ := haccepted.2 ⟨_, cuts_assignmentLeaves, hfollow⟩
  obtain ⟨hcontents, hnames⟩ := hread ts _ hts cuts_assignmentLeaves
  obtain ⟨before, after, hsplit, -⟩ := hnames [] _ _ "x" rfl rfl
  refine ⟨ts, hts, hcontents, ?_⟩
  rw [hsplit]
  exact List.mem_append_right before List.mem_cons_self

end Token

end DecimalCalculator
