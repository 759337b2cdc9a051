import PlatformGame.Program.Sheet
import PlatformGame.Proofs.Program.Values
import Mathlib.Data.List.Forall2

/-! # Reading rows before they are written

Most of a row is fixed text, so that what it does can be read off its pieces, before the numbers,
names and payloads in it are known. `Spells` takes the fixed text of a row apart into characters,
`items` reads it, and `acts?` finds what the row does; the last two are computed. Each step is shown
to agree with reading the text that the row is written as (`Composes`). The same parts show that no
closing tag begins in the row (`Composes.unclosed`). -/

namespace PlatformGame.Script

open Program Text

/-- What is known of a few tokens. -/
inductive Item
  | token (t : Token)
  | name (s : String)
  | numbers
  /-- Tokens that begin nothing. -/
  | quiet

inductive Item.Fits : Item → List Token → Prop
  | token : Fits (.token t) [t]
  | name : IsName s → Fits (.name s) [.word s.toList]
  | numbers : (∀ t ∈ ts, t.Numeral) → Fits .numbers ts
  | quiet : (∀ t ∈ ts, t.Quiet) → Fits .quiet ts

inductive FitAll : List Item → List Token → Prop
  | nil : FitAll [] []
  | cons : i.Fits ts → FitAll is us → FitAll (i :: is) (ts ++ us)

theorem FitAll.cons_token (t : Token) (h : FitAll is ts) : FitAll (.token t :: is) (t :: ts) := by
  have htoken : (Item.token t).Fits [t] := .token
  exact (FitAll.cons htoken h :)

theorem FitAll.append_tokens (ts : List Token) (h : FitAll is us) :
    FitAll (ts.map .token ++ is) (ts ++ us) := by
  induction ts with
  | nil => exact h
  | cons t ts ih => exact .cons_token t ih

/-! ## From pieces to items -/

/-- A part of a row: fixed text, or something else that can be read on its own. -/
inductive Part (α : Type)
  | code (cs : List Char)
  | item (a : α)

/-- The parts of a row. `plain` says whether the payloads of the game are known to have none of the
characters of closing tags. -/
inductive Spells (plain : Prop) : List Piece → List (Part Item) → Prop
  | nil : Spells plain [] []
  | code : Spells plain ps qs → Spells plain (.code (String.ofList cs) :: ps) (.code cs :: qs)
  | literal : Spells plain ps qs →
      Spells plain (.literal s :: ps) (.item (.token (.literal s)) :: qs)
  | number : Spells plain ps qs → Spells plain (.number q :: ps) (.item .numbers :: qs)
  | numbers {ns : List Number} : Spells plain ps qs →
      Spells plain (separate ", " (ns.map num) ++ ps) (.item .numbers :: qs)
  | labelled : Spells plain ps qs →
      Spells plain (.labelled before n after :: ps) (.item .quiet :: qs)
  | payload : (plain → j.Plain) → Spells plain ps qs →
      Spells plain (.payload j :: ps) (.item .quiet :: qs)
  | layer : Spells plain ps qs → Spells plain (.name (layerField s) :: ps)
      (.code ['t', 'h', 'i', 's', '.'] :: .item (.name (identifier s ++ "Layer")) :: qs)
  | name : IsName s → Spells plain ps qs → Spells plain (.name s :: ps) (.item (.name s) :: qs)

/-- A text with the given parts; `covers` tells the texts that can be written for an item. -/
inductive Composes (covers : α → List Char → Prop) : List (Part α) → List Char → Prop
  | nil : Composes covers [] []
  | code : Composes covers qs ds → Composes covers (.code cs :: qs) (cs ++ ds)
  | item : covers a cs → Composes covers qs ds → Composes covers (.item a :: qs) (cs ++ ds)

/-- Whether what follows ends a word. -/
def breaks : List (Part α) → Bool
  | [] => true
  | .code [] :: qs => breaks qs
  | .code (c :: _) :: _ => !isWordChar c
  | .item _ :: _ => false

def items (token : Token → α) : State → List (Part α) → Option (List α)
  | .code, [] => some []
  | .word w, [] => some [token (.word w.reverse)]
  | st, .code cs :: qs =>
    match scan st cs with
    | (st', ts) => (items token st' qs).map (ts.map token ++ ·)
  | .code, .item a :: qs => if breaks qs then (items token .code qs).map (a :: ·) else none
  | _, _ => none

theorem items_item {token : Token → α} (h : items token st (.item a :: qs) = some is) :
    st = .code ∧ breaks qs = true ∧ ∃ is', items token .code qs = some is' ∧ is = a :: is' := by
  cases st with
  | code =>
    rw [items] at h
    split at h
    · next hb =>
      obtain ⟨is', his', rfl⟩ := Option.map_eq_some_iff.1 h
      exact ⟨rfl, hb, is', his', rfl⟩
    · cases h
  | word | quoted | escaped => cases h

namespace Composes

variable {covers : α → List Char → Prop}

theorem head_of_breaks (h : Composes covers qs cs) (hb : breaks qs = true) :
    ∀ c ∈ cs.head?, isWordChar c = false := by
  induction h with
  | nil => simp
  | @code qs ds cs _ ih =>
    cases cs with
    | nil => exact ih hb
    | cons c cs => simpa [breaks] using hb
  | item => cases hb

/-- Reading the parts agrees with reading the text, for any relation of items and tokens that goes
along with putting them together. -/
theorem exists_tokens {token : Token → α} (fits : List α → List Token → Prop) (hnil : fits [] [])
    (htokens : ∀ {is us} ts, fits is us → fits (ts.map token ++ is) (ts ++ us))
    (hitem : ∀ {a cs is us}, covers a cs → fits is us →
      ∃ ts, tokens? cs = some ts ∧ fits (a :: is) (ts ++ us))
    (h : Composes covers qs cs) (hitems : items token st qs = some is) :
    ∃ ts, tokensFrom? st cs = some ts ∧ fits is ts := by
  induction h generalizing st is with
  | nil =>
    cases st with
    | code =>
      cases hitems
      exact ⟨[], rfl, hnil⟩
    | word w =>
      cases hitems
      exact ⟨[.word w.reverse], rfl, htokens [_] hnil⟩
    | quoted | escaped => cases hitems
  | @code qs ds cs _ ih =>
    rcases hscan : scan st cs with ⟨st', ts⟩
    rw [items, hscan] at hitems
    obtain ⟨is', his', rfl⟩ := Option.map_eq_some_iff.1 hitems
    obtain ⟨us, hus, hfit⟩ := ih his'
    exact ⟨ts ++ us, tokensFrom?_append hscan hus, htokens ts hfit⟩
  | @item a cs qs ds ha hqs ih =>
    obtain ⟨rfl, hb, is', his', rfl⟩ := items_item hitems
    obtain ⟨us, hus, hfit⟩ := ih his'
    obtain ⟨ts, hts, hfit⟩ := hitem ha hfit
    refine ⟨ts ++ us, ?_, hfit⟩
    cases ds with
    | nil =>
      cases hus
      rwa [List.append_nil, List.append_nil]
    | cons d ds => exact tokensFrom?_append_cons hts (hqs.head_of_breaks hb d rfl) hus

end Composes

theorem writeAll_cons (h : writeAll (p :: ps) = .ok s) :
    ∃ t u, p.write = .ok t ∧ writeAll ps = .ok u ∧ s.toList = t.toList ++ u.toList := by
  rw [writeAll] at h
  obtain ⟨t, ht, h⟩ := bind_eq_ok.1 h
  obtain ⟨u, hu, h⟩ := bind_eq_ok.1 h
  exact ⟨t, u, ht, hu, by rw [← Except.ok.inj h, String.toList_append]⟩

theorem writeAll_append (h : writeAll (ps ++ ps') = .ok s) :
    ∃ t u, writeAll ps = .ok t ∧ writeAll ps' = .ok u ∧ s.toList = t.toList ++ u.toList := by
  induction ps generalizing s with
  | nil => exact ⟨"", s, rfl, h, rfl⟩
  | cons p ps ih =>
    obtain ⟨t, s', ht, hs', hs⟩ := writeAll_cons h
    obtain ⟨u, v, hu, hv, huv⟩ := ih hs'
    refine ⟨t ++ u, v, ?_, hv, ?_⟩
    · rw [writeAll, ht, hu]
      rfl
    · rw [hs, huv, String.toList_append, List.append_assoc]

theorem writeAll_separate {f : α → Piece} {xs : List α}
    (h : writeAll (separate sep (xs.map f)) = .ok t) :
    ∃ ts, List.Forall₂ (fun x s => (f x).write = .ok s) xs ts ∧ t = sep.intercalate ts := by
  induction xs generalizing t with
  | nil =>
    cases h
    exact ⟨[], .nil, rfl⟩
  | cons x xs ih =>
    cases xs with
    | nil =>
      obtain ⟨u, v, hu, hv, huv⟩ := writeAll_cons h
      cases hv
      rw [String.toList_empty, List.append_nil, String.toList_inj] at huv
      exact ⟨[u], .cons hu .nil, huv⟩
    | cons y xs =>
      obtain ⟨u, v, hu, hv, huv⟩ := writeAll_cons h
      obtain ⟨_, w, hsep, hw, hvw⟩ := writeAll_cons hv
      obtain ⟨_, hts, rfl⟩ := ih hw
      cases hsep
      cases hts with
      | cons hy hts =>
        refine ⟨_, .cons hu (.cons hy hts), ?_⟩
        rw [← String.toList_inj, huv, hvw, String.intercalate_cons_cons, String.toList_append,
          String.toList_append, List.append_assoc]

theorem numerals_number (h : (Piece.number q).write = .ok s) : Numerals s := by
  obtain ⟨n, _, hn⟩ := bind_eq_ok.1 h
  exact Number.numerals_literal hn

theorem numerals_separate {ns : List Number} (h : writeAll (separate ", " (ns.map num)) = .ok s) :
    Numerals s := by
  obtain ⟨ts, hts, rfl⟩ := writeAll_separate h
  have hcomma : Numerals ", " := numerals_of_all rfl
  have hnumerals : ∀ t ∈ ts, Numerals t :=
    ((List.forall₂_and_left _ _).1 (hts.flip.imp fun _ _ h => ⟨numerals_number h, h⟩)).1
  exact forall_mem_intercalate hcomma hnumerals

theorem IsName.plain (h : IsName s) : Plain s.toList := .of_forall rfl rfl h.chars

/-- What is written for an item can be read on its own, fits the item and begins no closing tag. -/
structure Item.Covers (plain : Prop) (i : Item) (cs : List Char) : Prop where
  exists_fits : ∃ ts, tokens? cs = some ts ∧ i.Fits ts
  unclosed : plain → Unclosed cs

theorem covers_literal (s : String) :
    Item.Covers plain (.token (.literal s)) (scriptLiteral s).toList :=
  ⟨⟨[.literal s], tokens?_scriptLiteral s, .token⟩, fun _ => unclosed_scriptLiteral s⟩

theorem covers_labelled (h : (Piece.labelled before n after).write = .ok s) :
    Item.Covers plain .quiet s.toList := by
  obtain ⟨t, _, ht⟩ := bind_eq_ok.1 h
  rw [← Except.ok.inj ht]
  refine ⟨⟨_, tokens?_scriptLiteral _, .quiet ?_⟩, fun _ => unclosed_scriptLiteral _⟩
  simp [Token.Quiet, heads, classWord]

theorem covers_numbers (h : Numerals s) : Item.Covers plain .numbers s.toList := by
  obtain ⟨ts, hts, hnumeral⟩ := exists_tokens?_numeral h
  exact ⟨⟨ts, hts, .numbers hnumeral⟩, fun _ => (Json.plain_of_numerals h).unclosed⟩

theorem covers_payload (hj : plain → j.Plain) (h : (Piece.payload j).write = .ok s) :
    Item.Covers plain .quiet s.toList := by
  obtain ⟨ts, hts, hquiet⟩ := Json.quietText_compact h
  exact ⟨⟨ts, hts, .quiet hquiet⟩, fun hplain => (Json.plain_compact (hj hplain) h).unclosed⟩

theorem covers_name (h : IsName s) : Item.Covers plain (.name s) s.toList :=
  ⟨⟨_, h.tokens?, .name h⟩, fun _ => h.plain.unclosed⟩

theorem Spells.composes (h : Spells plain ps qs) (hs : writeAll ps = .ok s) :
    Composes (Item.Covers plain) qs s.toList := by
  induction h generalizing s with
  | nil =>
    cases hs
    exact .nil
  | code _ ih =>
    obtain ⟨t, u, ht, hu, htu⟩ := writeAll_cons hs
    rw [← Except.ok.inj ht, String.toList_ofList] at htu
    exact htu ▸ .code (ih hu)
  | literal _ ih =>
    obtain ⟨t, u, ht, hu, htu⟩ := writeAll_cons hs
    cases ht
    exact htu ▸ .item (covers_literal _) (ih hu)
  | number _ ih =>
    obtain ⟨t, u, ht, hu, htu⟩ := writeAll_cons hs
    exact htu ▸ .item (covers_numbers (numerals_number ht)) (ih hu)
  | numbers _ ih =>
    obtain ⟨t, u, ht, hu, htu⟩ := writeAll_append hs
    exact htu ▸ .item (covers_numbers (numerals_separate ht)) (ih hu)
  | labelled _ ih =>
    obtain ⟨t, u, ht, hu, htu⟩ := writeAll_cons hs
    exact htu ▸ .item (covers_labelled ht) (ih hu)
  | payload hj _ ih =>
    obtain ⟨t, u, ht, hu, htu⟩ := writeAll_cons hs
    exact htu ▸ .item (covers_payload hj ht) (ih hu)
  | layer _ ih =>
    obtain ⟨t, u, ht, hu, htu⟩ := writeAll_cons hs
    rw [← Except.ok.inj ht, toList_layerField, List.append_assoc] at htu
    exact htu ▸ .code (.item (covers_name (isName_layer _)) (ih hu))
  | name hname _ ih =>
    obtain ⟨t, u, ht, hu, htu⟩ := writeAll_cons hs
    cases ht
    exact htu ▸ .item (covers_name hname) (ih hu)

theorem Spells.exists_tokens (h : Spells plain ps qs) (hitems : items .token st qs = some is)
    (hs : writeAll ps = .ok s) : ∃ ts, tokensFrom? st s.toList = some ts ∧ FitAll is ts := by
  refine (h.composes hs).exists_tokens FitAll .nil (fun ts h => h.append_tokens ts)
    (fun ha h => ?_) hitems
  obtain ⟨ts, hts, hfit⟩ := ha.exists_fits
  exact ⟨ts, hts, .cons hfit h⟩

/-! ## Closing tags -/

/-- Whether no closing tag begins in fixed text, wherever it stands. -/
def Part.unclosed : Part α → Bool
  | .code cs => (closingTags cs).isEmpty && cs.head? != some '/'
  | .item _ => true

theorem unclosed_code (h : (Part.code cs : Part α).unclosed = true) : Unclosed cs := by
  rw [Part.unclosed, Bool.and_eq_true, List.isEmpty_iff, bne_iff_ne] at h
  exact ⟨h.1, h.2⟩

theorem Composes.unclosed (h : Composes (Item.Covers plain) qs cs) (hplain : plain)
    (hqs : qs.all Part.unclosed = true) : Unclosed cs := by
  induction h with
  | nil => exact .nil
  | code _ ih =>
    rw [List.all_cons, Bool.and_eq_true] at hqs
    exact (unclosed_code hqs.1).append (ih hqs.2)
  | item ha _ ih => exact (ha.unclosed hplain).append (ih hqs)

/-! ## From items to actions -/

/-- Whether the tokens begin with the given ones, as far as the items show. -/
def agrees : List Token → List Item → Option Bool
  | [], _ => some true
  | p :: ps, .token t :: is => if p = t then agrees ps is else some false
  | _ :: _, .name _ :: _ => some false
  | _, _ => none

/-- The literals up to a closing bracket. -/
def literals? : List Item → Option (List String)
  | .token t :: is =>
    if t = .mark ')' then some [] else (literals? is).map (t.literal?.toList ++ ·)
  | .name _ :: is => literals? is
  | .numbers :: is => literals? is
  | _ => none

def call? (is : List Item) : List Callee → Option (List Action)
  | [] => some []
  | c :: cs =>
    match agrees (Callee.path c.names) is with
    | some true => (literals? is).map fun ls => [.calls c ls]
    | some false => call? is cs
    | none => none

/-- What begins with a head. -/
def begins? (t : Token) (is : List Item) : Option (List Action) :=
  if t = classWord then
    match is with
    | .name s :: _ => some [.declares s]
    | _ => none
  else
    match agrees listOpening (.token t :: is) with
    | some false => call? (.token t :: is) Callee.all
    | _ => none

def acts? : List Item → Option (List Action)
  | [] => some []
  | .token t :: is =>
    if t ∈ heads then do pure ((← begins? t is) ++ (← acts? is)) else acts? is
  | _ :: is => acts? is

theorem isPrefixOf_of_agrees (h : agrees ps is = some b) (hps : ∀ p ∈ ps, p ∈ watched)
    (hfit : FitAll is ts) (rest : List Token) : ps.isPrefixOf (ts ++ rest) = b := by
  induction ps generalizing is ts with
  | nil =>
    cases h
    rfl
  | cons p ps ih =>
    rw [List.forall_mem_cons] at hps
    cases hfit with
    | nil => cases h
    | cons hi hfit =>
      cases hi with
      | token =>
        rw [agrees] at h
        split at h
        · next heq =>
          rw [← ih h hps.2 hfit]
          simp [heq]
        · next hne =>
          cases h
          simp [List.isPrefixOf, hne]
      | @name s hname =>
        cases h
        have hne : p ≠ .word s.toList := by
          rintro rfl
          exact hname.fresh hps.1
        simp [List.isPrefixOf, hne]
      | numbers | quiet => cases h

theorem Token.Numeral.literals_append (h : ∀ t ∈ us, Token.Numeral t) (ts : List Token) :
    literals (us ++ ts) = literals ts := by
  induction us with
  | nil => rfl
  | cons u us ih =>
    rw [List.forall_mem_cons] at h
    rw [List.cons_append, literals_cons, ih h.2]
    cases h.1 with
    | word => simp [Token.literal?]
    | @mark c hc =>
      have hne : Token.mark c ≠ .mark ')' := by
        rintro ⟨⟩
        exact absurd hc (by decide)
      rw [if_neg hne]
      rfl

theorem literals_of_literals? (h : literals? is = some ls) (hfit : FitAll is ts)
    (rest : List Token) : literals (ts ++ rest) = ls := by
  induction hfit generalizing ls with
  | nil => cases h
  | cons hi _ ih =>
    rw [List.append_assoc]
    cases hi with
    | token =>
      rw [literals?] at h
      rw [List.singleton_append, literals_cons]
      split at h
      · next hclose =>
        cases h
        exact if_pos hclose
      · next hclose =>
        obtain ⟨ls', hls', rfl⟩ := Option.map_eq_some_iff.1 h
        rw [if_neg hclose, ih hls']
    | name =>
      rw [List.singleton_append, literals_cons, ih h]
      rfl
    | numbers hnumeral =>
      rw [Token.Numeral.literals_append hnumeral]
      exact ih h
    | quiet => cases h

theorem Callee.mem_watched (c : Callee) : ∀ p ∈ path c.names, p ∈ watched := by
  intro p hp
  have hc : c ∈ all := by cases c <;> decide
  exact List.mem_append_right _ (List.mem_flatMap.2 ⟨c, hc, hp⟩)

theorem called?_of_call? (h : call? is cs = some as) (hfit : FitAll is ts) (rest : List Token) :
    ((cs.find? (·.opening.isPrefixOf (ts ++ rest))).map
      fun c => Action.calls c (literals (ts ++ rest))).toList = as := by
  induction cs with
  | nil =>
    cases h
    rfl
  | cons c cs ih =>
    rw [call?] at h
    split at h
    · next hagrees =>
      have hopening := isPrefixOf_of_agrees hagrees c.mem_watched hfit rest
      rw [← c.opening_eq] at hopening
      obtain ⟨ls, hls, rfl⟩ := Option.map_eq_some_iff.1 h
      rw [List.find?_cons, hopening, literals_of_literals? hls hfit rest]
      rfl
    · next hagrees =>
      have hopening := isPrefixOf_of_agrees hagrees c.mem_watched hfit rest
      rw [← c.opening_eq] at hopening
      rw [List.find?_cons, hopening]
      exact ih h
    · cases h

theorem action?_of_begins? (h : begins? t is = some as) (hfit : FitAll is ts)
    (rest : List Token) : (action? (t :: ts ++ rest)).toList = as := by
  unfold begins? at h
  split at h
  · next hclass =>
    split at h
    · cases h
      cases hfit with
      | cons hi _ =>
        cases hi
        simp [action?, declared?, hclass, String.ofList_toList]
    · cases h
  · next hclass =>
    split at h
    · next hagrees =>
      have hfit' : FitAll (.token t :: is) (t :: ts) := .cons_token t hfit
      have hlist := isPrefixOf_of_agrees hagrees (by decide) hfit' rest
      rw [action?, List.cons_append, declared?_of_ne hclass, ← List.cons_append, listed?, hlist]
      exact called?_of_call? h hfit' rest
    · cases h

theorem Acts.of_acts? (h : acts? is = some as) (hfit : FitAll is ts) : Acts ts as := by
  induction hfit generalizing as with
  | nil =>
    cases h
    exact .nil
  | cons hi hfit ih =>
    cases hi with
    | @token t =>
      rw [acts?] at h
      split at h
      · obtain ⟨as, has, h⟩ := Option.bind_eq_some_iff.1 h
        obtain ⟨bs, hbs, h⟩ := Option.bind_eq_some_iff.1 h
        cases h
        exact .cons (action?_of_begins? has hfit) (ih hbs)
      · next hquiet =>
        have hacts : Acts [t] [] := .of_quiet (by simpa [Token.Quiet] using hquiet)
        exact hacts.append (ih h)
    | name hname => exact (Acts.of_quiet (by simpa using hname.quiet)).append (ih h)
    | numbers hnumeral => exact (Acts.of_quiet fun t ht => (hnumeral t ht).quiet).append (ih h)
    | quiet hquiet => exact (Acts.of_quiet hquiet).append (ih h)

end PlatformGame.Script
