import PlatformGame.Source.Lexeme

/-! # The forms of tokens

`Terminal.Matches` says which texts a terminal has, apart from the functions that split texts. Each
of these functions gives a piece of that form (`of_name?` and so on), and gives back a piece of that
form from the front of a text if what stands behind it does not continue it (`name?_append` and so
on). `Parted` is what suffices behind every token: the end of the text, white space or a comment.
`Terminal.EndsAt` is what always holds there: no token is cut short. -/

namespace PlatformGame.Source

open Grammar

/-- A letter or underscore, then letters, digits and underscores, and no reserved word. -/
def IsName (cs : List Char) : Prop :=
  ∃ c ds, cs = c :: ds ∧ isNameStart c = true ∧ (∀ d ∈ ds, isNameChar d = true) ∧
    String.ofList cs ∉ reservedWords

/-- The inside of a string literal: no quote, backslash or newline but after a backslash, and no
newline there either. -/
inductive StringBody : List Char → Prop
  | nil : StringBody []
  | plain : c ≠ '"' → c ≠ '\\' → c ≠ '\n' → StringBody cs → StringBody (c :: cs)
  | escape : c ≠ '\n' → StringBody cs → StringBody ('\\' :: c :: cs)

def IsString (cs : List Char) : Prop := ∃ body, StringBody body ∧ cs = '"' :: (body ++ ['"'])

def IsDigits (cs : List Char) : Prop := cs ≠ [] ∧ ∀ c ∈ cs, c.isDigit = true

/-- Digits, possibly with a point and further digits. -/
def IsDecimal (cs : List Char) : Prop :=
  IsDigits cs ∨ ∃ whole fraction, IsDigits whole ∧ IsDigits fraction ∧
    cs = whole ++ '.' :: fraction

def IsNumber (cs : List Char) : Prop := IsDecimal cs ∨ ∃ ds, IsDecimal ds ∧ cs = '-' :: ds

def IsColor (cs : List Char) : Prop :=
  ∃ ds, cs = '#' :: ds ∧ ds.length = 6 ∧ ∀ d ∈ ds, isHex d = true

end PlatformGame.Source

namespace PlatformGame.Grammar

open Source

/-- The texts of a terminal. -/
def Terminal.Matches : Terminal → List Char → Prop
  | keyword k, cs => cs = k.text.toList
  | name, cs => IsName cs
  | string, cs => IsString cs
  | number, cs => IsNumber cs
  | color, cs => IsColor cs
  | endOfInput, _ => False

/-- What stands behind a text of the terminal does not belong to it: the name or the number is over,
and no character of a name follows a colour. -/
def Terminal.EndsAt : Terminal → List Char → List Char → Prop
  | name, _, rest | color, _, rest => ∀ c ∈ rest.head?, isNameChar c = false
  | number, cs, rest => (∀ c ∈ rest.head?, c.isDigit = false) ∧
      ('.' ∉ cs → ∀ ds, rest = '.' :: ds → ∀ c ∈ ds.head?, c.isDigit = false)
  | keyword _, _, _ | string, _, _ | endOfInput, _, _ => True

/-- Keywords that start like a name. -/
def namelike (k : Keyword) : Bool := (name? k.text.toList).isSome

end PlatformGame.Grammar

namespace PlatformGame.Source

open Grammar

variable {cs rest : List Char} {s : Split} {f : Char → Bool} {c : Char}

theorem isDigits_zero : IsDigits ['0'] :=
  ⟨List.cons_ne_nil _ _, List.forall_mem_singleton.2 rfl⟩

/-- Nothing stands behind, or white space or a comment does. -/
def Parted (rest : List Char) : Prop := ∀ c ∈ rest.head?, isSpace c = true ∨ c = '/'

theorem isSpace_iff : isSpace c = true ↔ c = ' ' ∨ c = '\t' ∨ c = '\x0c' ∨ c = '\r' ∨ c = '\n' := by
  simp [isSpace, or_assoc]

theorem Parted.head_notMem (h : Parted rest)
    (hf : f ' ' = false ∧ f '\t' = false ∧ f '\x0c' = false ∧ f '\r' = false ∧ f '\n' = false ∧
      f '/' = false) : ∀ c ∈ rest.head?, f c = false := by
  intro c hc
  obtain ⟨h₁, h₂, h₃, h₄, h₅, h₆⟩ := hf
  rcases h c hc with h | rfl
  · rcases isSpace_iff.1 h with rfl | rfl | rfl | rfl | rfl <;> assumption
  · exact h₆

theorem Parted.isNameChar (h : Parted rest) :
    ∀ c ∈ rest.head?, Source.isNameChar c = false := h.head_notMem (by decide)

theorem Parted.isDigit (h : Parted rest) :
    ∀ c ∈ rest.head?, c.isDigit = false := h.head_notMem (by decide)

theorem Parted.ne_point (h : Parted rest) :
    ∀ c ∈ rest.head?, (c == '.') = false := h.head_notMem (by decide)

/-! ## Runs of characters -/

/-- A run goes on into what stands behind it only if the first character there belongs to it. -/
theorem span_append_rest (cs : List Char) (hrest : ∀ c ∈ rest.head?, f c = false) :
    Split.span f (cs ++ rest) = ⟨(Split.span f cs).piece, (Split.span f cs).rest ++ rest⟩ := by
  induction cs with
  | nil =>
    cases rest with
    | nil => rfl
    | cons c rest => simp [Split.span, hrest c rfl]
  | cons c cs ih =>
    simp only [Split.span, Split.mk.injEq] at ih
    by_cases h : f c = true <;> simp [Split.span, h, ih]

theorem span_append (hcs : ∀ c ∈ cs, f c = true) (hrest : ∀ c ∈ rest.head?, f c = false) :
    Split.span f (cs ++ rest) = ⟨cs, rest⟩ := by
  have htake : (cs ++ []).takeWhile f = cs ++ [] := List.takeWhile_append_of_pos hcs
  have hdrop : (cs ++ []).dropWhile f = [] := List.dropWhile_append_of_pos hcs
  rw [List.append_nil] at htake hdrop
  rw [span_append_rest cs hrest]
  simp only [Split.span, htake, hdrop, List.nil_append]

theorem span_text (f : Char → Bool) (cs : List Char) :
    (Split.span f cs).piece ++ (Split.span f cs).rest = cs := List.takeWhile_append_dropWhile

theorem of_mem_span :
    ∀ c ∈ (Split.span f cs).piece, f c = true := List.all_eq_true.1 List.all_takeWhile

/-- A run ends where its first other character stands. -/
theorem head_rest_span (f : Char → Bool) (cs : List Char) :
    ∀ c ∈ (Split.span f cs).rest.head?, f c = false := by
  intro c hc
  have hnot := List.head?_dropWhile_not f cs
  rwa [show (cs.dropWhile f).head? = some c from hc] at hnot

/-! ## Names -/

theorem isNameChar_of_isNameStart (h : isNameStart c = true) : isNameChar c = true := by
  simp only [isNameStart, isNameChar, Char.isAlphanum, Bool.or_eq_true] at h ⊢
  rcases h with h | h
  · exact .inl (.inl h)
  · exact .inr h

theorem isNameStart_of_isDigit (h : c.isDigit = true) : isNameStart c = false := by
  have hd : 48 ≤ c.val.toNat ∧ c.val.toNat ≤ 57 := by
    simpa [Char.isDigit, UInt32.le_iff_toNat_le] using h
  cases hs : isNameStart c with
  | false => rfl
  | true =>
    simp only [isNameStart, Bool.or_eq_true, beq_iff_eq] at hs
    rcases hs with hs | rfl
    · rcases Bool.or_eq_true_iff.1 hs with hs | hs
      · have hle : 65 ≤ c.val.toNat := UInt32.le_iff_toNat_le.1 (of_decide_eq_true hs).1
        omega
      · have hle : 97 ≤ c.val.toNat :=
          UInt32.le_iff_toNat_le.1 (of_decide_eq_true (Bool.and_eq_true_iff.1 hs).1)
        omega
    · cases h

theorem of_name? (h : name? cs = some s) : IsName s.piece ∧ s.piece ++ s.rest = cs := by
  cases cs with
  | nil => cases h
  | cons c cs =>
    simp only [name?] at h
    split at h
    · next hc =>
      split at h
      · cases h
      · next hr =>
        cases h
        refine ⟨⟨c, cs.takeWhile isNameChar, ?_, hc, ?_, ?_⟩, span_text _ _⟩
        · simp [Split.span, isNameChar_of_isNameStart hc]
        · exact List.all_eq_true.1 List.all_takeWhile
        · simpa using hr
    · cases h

theorem head_rest_of_name? (h : name? cs = some s) : ∀ c ∈ s.rest.head?, isNameChar c = false := by
  cases cs with
  | nil => cases h
  | cons c cs =>
    simp only [name?] at h
    split at h
    · split at h
      · cases h
      · cases h
        exact head_rest_span _ _
    · cases h

theorem name?_append (h : IsName cs) (hrest : ∀ c ∈ rest.head?, isNameChar c = false) :
    name? (cs ++ rest) = some ⟨cs, rest⟩ := by
  obtain ⟨c, ds, rfl, hc, hds, hr⟩ := h
  have hall : ∀ d ∈ c :: ds, isNameChar d = true := by
    intro d hd
    rcases List.mem_cons.1 hd with rfl | hd
    · exact isNameChar_of_isNameStart hc
    · exact hds d hd
  have hspan := span_append hall hrest
  rw [List.cons_append] at hspan ⊢
  simp only [name?, hc, hspan, List.contains_eq_mem, decide_eq_true_eq, if_neg hr, if_true]

/-! ## Strings -/

theorem of_stringTail (h : stringTail cs = some s) :
    ∃ body, StringBody body ∧ s.piece = body ++ ['"'] ∧ s.piece ++ s.rest = cs := by
  fun_induction stringTail cs generalizing s with
  | case1 => cases h
  | case2 cs =>
    cases h
    exact ⟨[], .nil, rfl, rfl⟩
  | case3 => cases h
  | case4 => cases h
  | case5 c cs hc ih =>
    obtain ⟨s', hs, rfl⟩ := Option.map_eq_some_iff.1 h
    obtain ⟨body, hb, hp, ht⟩ := ih hs
    exact ⟨'\\' :: c :: body, .escape hc hb, by simp [Split.push, hp], by simp [Split.push, ht]⟩
  | case6 => cases h
  | case7 c cs hquote hlast hescape hc ih =>
    obtain ⟨s', hs, rfl⟩ := Option.map_eq_some_iff.1 h
    obtain ⟨body, hb, hp, ht⟩ := ih hs
    have hback : c ≠ '\\' := by
      intro hback
      cases cs with
      | nil => exact hlast hback rfl
      | cons d ds => exact hescape d ds hback rfl
    exact ⟨c :: body, .plain hquote hback hc hb, by simp [Split.push, hp],
      by simp [Split.push, ht]⟩

theorem stringTail_append {body : List Char} (h : StringBody body) (rest : List Char) :
    stringTail (body ++ '"' :: rest) = some ⟨body ++ ['"'], rest⟩ := by
  induction h with
  | nil => rfl
  | @plain c cs hquote hback hc _ ih =>
    rw [List.cons_append, stringTail]
    · simp [hc, ih, Split.push]
    · exact hquote
    · exact fun h _ => hback h
    · exact fun _ _ h _ => hback h
  | @escape c cs hc _ ih => simp [stringTail, hc, ih, Split.push]

theorem of_string? (h : string? cs = some s) : IsString s.piece ∧ s.piece ++ s.rest = cs := by
  unfold string? at h
  split at h
  · obtain ⟨s', hs, rfl⟩ := Option.map_eq_some_iff.1 h
    obtain ⟨body, hb, hp, ht⟩ := of_stringTail hs
    exact ⟨⟨body, hb, by simp [Split.push, hp]⟩, by simp [Split.push, ht]⟩
  · cases h

theorem string?_append (h : IsString cs) (rest : List Char) :
    string? (cs ++ rest) = some ⟨cs, rest⟩ := by
  obtain ⟨body, hb, rfl⟩ := h
  simp [string?, stringTail_append hb, Split.push]

/-! ## Numbers -/

theorem of_digits? (h : digits? cs = some s) : IsDigits s.piece ∧ s.piece ++ s.rest = cs := by
  simp only [digits?] at h
  split at h
  · cases h
  · next hne =>
    cases h
    exact ⟨⟨by simpa using hne, of_mem_span⟩, span_text _ _⟩

theorem head_rest_of_digits? (h : digits? cs = some s) : ∀ c ∈ s.rest.head?, c.isDigit = false := by
  simp only [digits?] at h
  split at h
  · cases h
  · cases h
    exact head_rest_span _ _

theorem digits?_append (h : IsDigits cs) (hrest : ∀ c ∈ rest.head?, c.isDigit = false) :
    digits? (cs ++ rest) = some ⟨cs, rest⟩ := by
  simp [digits?, span_append h.2 hrest, h.1]

theorem of_decimal? (h : decimal? cs = some s) : IsDecimal s.piece ∧ s.piece ++ s.rest = cs := by
  unfold decimal? at h
  split at h
  · cases h
  · next whole cs' hw =>
    obtain ⟨hd, ht⟩ := of_digits? hw
    split at h
    · next s' hf =>
      obtain ⟨hd', ht'⟩ := of_digits? hf
      cases h
      exact ⟨.inr ⟨whole, s'.piece, hd, hd', rfl⟩, by simp [← ht, ← ht']⟩
    · cases h
      exact ⟨.inl hd, ht⟩
  · next s' _ hs =>
    cases h
    obtain ⟨hd, ht⟩ := of_digits? hs
    exact ⟨.inl hd, ht⟩

/-- The digits go on as long as they can, and so does the fraction. -/
theorem endsAt_of_decimal? (h : decimal? cs = some s) : Terminal.number.EndsAt s.piece s.rest := by
  unfold decimal? at h
  split at h
  · cases h
  · next whole cs' hw =>
    split at h
    · next s' hf =>
      cases h
      have hrest : ∀ c ∈ s'.rest.head?, c.isDigit = false := head_rest_of_digits? hf
      exact ⟨hrest, fun hpoint => absurd (by simp) hpoint⟩
    · next hnone =>
      cases h
      refine ⟨by simp, fun _ ds hds c hc => ?_⟩
      cases hds
      obtain ⟨ds, rfl⟩ := List.head?_eq_some_iff.1 hc
      cases hdigit : c.isDigit with
      | false => rfl
      | true => simp [digits?, Split.span, hdigit] at hnone
  · next hpoint hs =>
    cases h
    exact ⟨head_rest_of_digits? hs, fun _ ds hds => absurd (by rw [← hds]) (hpoint s.piece ds)⟩

theorem decimal?_append (h : IsDecimal cs) (hrest : Parted rest) :
    decimal? (cs ++ rest) = some ⟨cs, rest⟩ := by
  rcases h with h | ⟨whole, fraction, hw, hf, rfl⟩
  · unfold decimal?
    rw [digits?_append h hrest.isDigit]
    cases rest with
    | nil => rfl
    | cons c rest =>
      have hc : c ≠ '.' := by simpa using hrest.ne_point c rfl
      split
      · next heq => cases heq
      · next heq =>
        cases heq
        exact absurd rfl hc
      · next heq => exact heq.symm
  · have hpoint : ∀ c ∈ ('.' :: fraction ++ rest).head?, c.isDigit = false := by simp
    rw [List.append_assoc]
    unfold decimal?
    rw [digits?_append hw hpoint]
    simp [digits?_append hf hrest.isDigit]

theorem of_number? (h : number? cs = some s) : IsNumber s.piece ∧ s.piece ++ s.rest = cs := by
  unfold number? at h
  split at h
  · obtain ⟨s', hs, rfl⟩ := Option.map_eq_some_iff.1 h
    obtain ⟨hd, ht⟩ := of_decimal? hs
    exact ⟨.inr ⟨_, hd, rfl⟩, by simp [Split.push, ht]⟩
  · obtain ⟨hd, ht⟩ := of_decimal? h
    exact ⟨.inl hd, ht⟩

theorem endsAt_of_number? (h : number? cs = some s) : Terminal.number.EndsAt s.piece s.rest := by
  unfold number? at h
  split at h
  · obtain ⟨s', hs, rfl⟩ := Option.map_eq_some_iff.1 h
    obtain ⟨hdigit, hpoint⟩ := endsAt_of_decimal? hs
    exact ⟨hdigit, fun hp => hpoint fun hmem => hp (.tail _ hmem)⟩
  · exact endsAt_of_decimal? h

theorem IsDecimal.exists_cons (h : IsDecimal cs) : ∃ c ds, cs = c :: ds ∧ c.isDigit = true := by
  rcases h with ⟨hne, hd⟩ | ⟨whole, fraction, ⟨hne, hd⟩, -, rfl⟩
  · cases cs with
    | nil => exact absurd rfl hne
    | cons c ds => exact ⟨c, ds, rfl, hd c List.mem_cons_self⟩
  · cases whole with
    | nil => exact absurd rfl hne
    | cons c ds => exact ⟨c, _, rfl, hd c List.mem_cons_self⟩

theorem number?_append (h : IsNumber cs) (hrest : Parted rest) :
    number? (cs ++ rest) = some ⟨cs, rest⟩ := by
  rcases h with h | ⟨ds, h, rfl⟩
  · have hd := decimal?_append h hrest
    obtain ⟨c, ds, rfl, hc⟩ := h.exists_cons
    unfold number?
    split
    · next heq =>
      cases heq
      exact absurd hc (by decide)
    · exact hd
  · simp [number?, decimal?_append h hrest, Split.push]

/-! ## Colours and keywords -/

theorem of_color? (h : color? cs = some s) : IsColor s.piece ∧ s.piece ++ s.rest = cs := by
  unfold color? at h
  split at h
  · next cs =>
    dsimp only at h
    split at h
    · next hc =>
      cases h
      simp only [Bool.and_eq_true, decide_eq_true_eq, List.all_eq_true] at hc
      exact ⟨⟨_, rfl, hc.1.1, hc.1.2⟩, by simp⟩
    · cases h
  · cases h

theorem head_rest_of_color? (h : color? cs = some s) :
    ∀ c ∈ s.rest.head?, isNameChar c = false := by
  unfold color? at h
  split at h
  · dsimp only at h
    split at h
    · next hc =>
      cases h
      intro c hrest
      rw [hrest, Option.any_some] at hc
      simp_all
    · cases h
  · cases h

theorem color?_append (h : IsColor cs) (hrest : Parted rest) :
    color? (cs ++ rest) = some ⟨cs, rest⟩ := by
  obtain ⟨ds, rfl, hlen, hhex⟩ := h
  have htake : (ds ++ rest).take 6 = ds := by rw [← hlen]; exact List.take_left
  have hdrop : (ds ++ rest).drop 6 = rest := by rw [← hlen]; exact List.drop_left
  have hnext : rest.head?.any isNameChar = false := by
    cases rest with
    | nil => rfl
    | cons c rest => exact hrest.isNameChar c rfl
  have hall : ds.all isHex = true := List.all_eq_true.2 hhex
  simp [color?, htake, hdrop, hnext, hall, hlen]

theorem of_keyword? {k : Keyword} (h : keyword? k cs = some s) :
    s.piece = k.text.toList ∧ s.piece ++ s.rest = cs := by
  simp only [keyword?] at h
  split at h
  · next hp =>
    cases h
    obtain ⟨rest, rfl⟩ := List.isPrefixOf_iff_prefix.1 hp
    exact ⟨rfl, by simp⟩
  · cases h

theorem keyword?_append (k : Keyword) (rest : List Char) :
    keyword? k (k.text.toList ++ rest) = some ⟨k.text.toList, rest⟩ := by
  have hp : k.text.toList.isPrefixOf (k.text.toList ++ rest) = true :=
    List.isPrefixOf_iff_prefix.2 (List.prefix_append _ _)
  simp [keyword?, hp]

end PlatformGame.Source
