import Mathlib.Data.List.Chain
import SymbolCoverage.Proofs.Symbol.Spelling

/-!
Tokens.  Escaping a text gives a sequence of tokens in which no colon stands before a
colon or a separator.  Conversely every such sequence is what escaping gives for the
text that its tokens mean.  Together this is `isSpelling_iff`.
-/

namespace SymbolCoverage.Symbol

/-- The parts of an escaped text: a character that stands for itself, `..` for two
colons, and a code in dollars that is a name or gives a code point. -/
inductive Token
  | plain (char : Char)
  | separator
  | punctuation (name : String)
  | codePoint (char : Char)

namespace Token

/-- ASCII letters and digits, the underscore and the colon. -/
def IsPlain (c : Char) : Prop := c.isAlphanum = true ∨ c = '_' ∨ c = ':'

def names : List String := ["SP", "BP", "RF", "LT", "GT", "LP", "RP", "C"]

/-- The characters that the names stand for. -/
def named : List Char := ['@', '*', '&', '<', '>', '(', ')', ',']

/-- A code point is only given for a character that is neither plain nor named.
`coded` says for which of these it may be given. -/
def Valid (coded : Char → Prop) : Token → Prop
  | plain c => IsPlain c
  | separator => True
  | punctuation name => name ∈ names
  | codePoint c => ¬ IsPlain c ∧ c ∉ named ∧ coded c

def chars : Token → List Char
  | plain c => [c]
  | separator => ['.', '.']
  | punctuation name => '$' :: name.toList ++ ['$']
  | codePoint c => '$' :: 'u' :: Nat.toDigits 16 c.toNat ++ ['$']

def charsOf (tokens : List Token) : List Char := tokens.flatMap chars

/-- Two colons in a row are one separator, taken from the left. -/
def MayPrecede (t u : Token) : Prop := t = plain ':' → u ≠ plain ':' ∧ u ≠ separator

/-- The text is composed of one or more tokens. -/
def IsSpelling (coded : Char → Prop) (text : List Char) : Prop :=
  ∃ tokens : List Token, tokens ≠ [] ∧ (∀ t ∈ tokens, t.Valid coded) ∧
    tokens.IsChain MayPrecede ∧ text = charsOf tokens

/-- The characters whose code point has at most four hexadecimal digits. -/
def HasCode (c : Char) : Prop := c.toNat ≤ 0xFFFF

/-! ## What tokens mean -/

/-- The text that a token stands for. -/
def meaning : Token → List Char
  | plain c => [c]
  | separator => [':', ':']
  | punctuation name => (Escape.punctuationCodes.lookup name).toList
  | codePoint c => [c]

theorem isPlain_iff {c : Char} : Escape.isPlain c = true ↔ IsPlain c := by
  simp only [Escape.isPlain, IsPlain, Bool.or_eq_true, beq_iff_eq, or_assoc]

theorem punctuationName?_eq_none_iff {c : Char} :
    Escape.punctuationName? c = none ↔ c ∉ named := by
  have hnamed : named = Escape.punctuationCodes.map (·.2) := rfl
  rw [Escape.punctuationName?, Option.map_eq_none_iff, List.find?_eq_none, hnamed, List.mem_map]
  simp only [beq_iff_eq, not_exists, not_and]

theorem names_of_punctuationName? {c : Char} {name : String}
    (h : Escape.punctuationName? c = some name) :
    name ∈ names ∧ Escape.punctuationCodes.lookup name = some c := by
  have hmem := Escape.mem_of_punctuationName? h
  simp only [Escape.punctuationCodes, List.mem_cons, List.not_mem_nil, or_false,
    Prod.mk.injEq] at hmem
  rcases hmem with ⟨rfl, rfl⟩ | ⟨rfl, rfl⟩ | ⟨rfl, rfl⟩ | ⟨rfl, rfl⟩ | ⟨rfl, rfl⟩ | ⟨rfl, rfl⟩ |
    ⟨rfl, rfl⟩ | ⟨rfl, rfl⟩ <;> decide

theorem punctuationName?_of_names {name : String} (h : name ∈ names) :
    ∃ c, Escape.punctuationCodes.lookup name = some c ∧ Escape.punctuationName? c = some name ∧
      Escape.isPlain c = false := by
  simp only [names, List.mem_cons, List.not_mem_nil, or_false] at h
  rcases h with rfl | rfl | rfl | rfl | rfl | rfl | rfl | rfl <;>
    exact ⟨_, rfl, by decide, by decide⟩

/-- The spelling of a character is a token that means this character. -/
theorem exists_of_spelling? {c : Char} {cs : List Char} (h : Escape.spelling? c = some cs) :
    ∃ t : Token, t.Valid HasCode ∧ t.chars = cs ∧ t.meaning = [c] := by
  unfold Escape.spelling? at h
  split at h
  · rename_i hplain
    cases h
    exact ⟨plain c, isPlain_iff.mp hplain, rfl, rfl⟩
  · rename_i hplain
    split at h
    · rename_i name hname
      cases h
      obtain ⟨hmem, hlookup⟩ := names_of_punctuationName? hname
      exact ⟨punctuation name, hmem, rfl, by rw [meaning, hlookup, Option.toList_some]⟩
    · rename_i hname
      split at h
      · rename_i hlimit
        cases h
        refine ⟨codePoint c, ⟨?_, punctuationName?_eq_none_iff.mp hname, hlimit⟩, rfl, rfl⟩
        rwa [← isPlain_iff]
      · cases h

/-- A token other than the separator is the spelling of the one character that it means,
and only the plain colon means a colon. -/
theorem Valid.spelling? {t : Token} (h : t.Valid HasCode) (hsep : t ≠ separator) :
    ∃ c, t.meaning = [c] ∧ Escape.spelling? c = some t.chars ∧ (c = ':' → t = plain ':') := by
  cases t with
  | plain c =>
    refine ⟨c, rfl, ?_, fun hc => hc ▸ rfl⟩
    rw [Escape.spelling?, if_pos (isPlain_iff.mpr h)]
    rfl
  | separator => exact absurd rfl hsep
  | punctuation name =>
    obtain ⟨c, hlookup, hname, hplain⟩ := punctuationName?_of_names h
    refine ⟨c, by rw [meaning, hlookup, Option.toList_some], ?_, ?_⟩
    · rw [Escape.spelling?, if_neg (Bool.not_eq_true _ ▸ hplain), hname]
      rfl
    · rintro rfl
      exact absurd hplain (by decide)
  | codePoint c =>
    obtain ⟨hplain, hnamed, hlimit⟩ := h
    refine ⟨c, rfl, ?_, fun hc => absurd (.inr (.inr hc)) hplain⟩
    rw [Escape.spelling?, if_neg (fun h => hplain (isPlain_iff.mp h)),
      punctuationName?_eq_none_iff.mpr hnamed]
    exact if_pos hlimit

theorem Valid.meaning_ne_nil {t : Token} (h : t.Valid HasCode) : t.meaning ≠ [] := by
  by_cases hsep : t = separator
  · rw [hsep]
    exact List.cons_ne_nil _ _
  · obtain ⟨c, hmeaning, -⟩ := h.spelling? hsep
    rw [hmeaning]
    exact List.cons_ne_nil _ _

/-! ## Texts of tokens -/

/-- Escaping what tokens mean gives the tokens back. -/
theorem escape_meaning {tokens : List Token} (hvalid : ∀ t ∈ tokens, t.Valid HasCode)
    (hchain : tokens.IsChain MayPrecede) :
    Escape.escape (tokens.flatMap meaning) = .ok (charsOf tokens) := by
  induction tokens with
  | nil => exact Escape.escape.eq_1
  | cons t ts ih =>
    rw [List.forall_mem_cons] at hvalid
    rw [List.isChain_cons] at hchain
    have hrest := ih hvalid.2 hchain.2
    rw [charsOf, List.flatMap_cons, List.flatMap_cons, ← charsOf]
    by_cases hsep : t = separator
    · subst hsep
      show Escape.escape (':' :: ':' :: ts.flatMap meaning) = _
      rw [Escape.escape, hrest]
      rfl
    · obtain ⟨c, hmeaning, hspelling, hcolon⟩ := hvalid.1.spelling? hsep
      rw [hmeaning, List.singleton_append, Escape.escape, hspelling]
      · simp only [hrest, Except.map]
      · -- A colon here would be followed by a token that means one more.
        intro rest hc hpair
        cases ts with
        | nil => cases hpair
        | cons u us =>
          obtain ⟨hplain, hsep'⟩ := hchain.1 u rfl (hcolon hc)
          obtain ⟨d, hd, -, hdcolon⟩ := (hvalid.2 u List.mem_cons_self).spelling? hsep'
          rw [List.flatMap_cons, hd, List.singleton_append, List.cons.injEq] at hpair
          exact hplain (hdcolon hpair.1)

theorem mayPrecede_of_meaning {t u : Token} {c : Char} {rest : List Char}
    (ht : t.meaning = [c]) (hpair : ∀ tail, c = ':' → u.meaning ++ rest = ':' :: tail → False) :
    t.MayPrecede u := by
  rintro rfl
  cases ht
  constructor
  · rintro rfl
    exact hpair rest rfl rfl
  · rintro rfl
    exact hpair (':' :: rest) rfl rfl

/-- An escaped text is composed of tokens that mean the text. -/
theorem exists_tokens_of_escape {cs text : List Char} (h : Escape.escape cs = .ok text) :
    ∃ tokens : List Token, (∀ t ∈ tokens, t.Valid HasCode) ∧ tokens.IsChain MayPrecede ∧
      text = charsOf tokens ∧ cs = tokens.flatMap meaning := by
  induction cs using Escape.escape.induct generalizing text with
  | case1 =>
    rw [Escape.escape] at h
    cases h
    exact ⟨[], by simp, .nil, rfl, rfl⟩
  | case2 rest ih =>
    rw [Escape.escape] at h
    obtain ⟨text', htext, rfl⟩ := map_eq_ok.mp h
    obtain ⟨tokens, hvalid, hchain, rfl, rfl⟩ := ih htext
    refine ⟨separator :: tokens, List.forall_mem_cons.mpr ⟨trivial, hvalid⟩, ?_, rfl, rfl⟩
    refine List.isChain_cons.mpr ⟨?_, hchain⟩
    intro u _ hcolon
    cases hcolon
  | case3 c rest hpair hnone =>
    rw [Escape.escape, hnone] at h
    · cases h
    · exact hpair
  | case4 c rest hpair cs hcs ih =>
    rw [Escape.escape, hcs] at h
    · obtain ⟨text', htext, rfl⟩ := map_eq_ok.mp h
      obtain ⟨tokens, hvalid, hchain, rfl, rfl⟩ := ih htext
      obtain ⟨t, ht, rfl, hmeaning⟩ := exists_of_spelling? hcs
      refine ⟨t :: tokens, List.forall_mem_cons.mpr ⟨ht, hvalid⟩, ?_, rfl, ?_⟩
      · refine List.isChain_cons.mpr ⟨?_, hchain⟩
        intro u hu
        obtain ⟨us, rfl⟩ := List.head?_eq_some_iff.mp hu
        exact mayPrecede_of_meaning hmeaning hpair
      · rw [List.flatMap_cons, hmeaning, List.singleton_append]
    · exact hpair

/-- Spellings are what escaping gives for texts that are not empty. -/
theorem isSpelling_iff {text : List Char} :
    IsSpelling HasCode text ↔ ∃ cs, cs ≠ [] ∧ Escape.escape cs = .ok text := by
  constructor
  · intro h
    obtain ⟨tokens, hnil, hvalid, hchain, rfl⟩ := h
    refine ⟨tokens.flatMap meaning, ?_, escape_meaning hvalid hchain⟩
    obtain ⟨t, ts, rfl⟩ := List.exists_cons_of_ne_nil hnil
    rw [List.flatMap_cons]
    exact List.append_ne_nil_of_left_ne_nil (hvalid t List.mem_cons_self).meaning_ne_nil _
  · intro h
    obtain ⟨cs, hnil, hescape⟩ := h
    obtain ⟨tokens, hvalid, hchain, htext, rfl⟩ := exists_tokens_of_escape hescape
    refine ⟨tokens, ?_, hvalid, hchain, htext⟩
    rintro rfl
    exact hnil rfl

end Token
end SymbolCoverage.Symbol
