import PlatformGame.Proofs.Program.Listings

/-! # Lines and blocks of a program

A program is read line by line. A line that ends with an opening brace opens a block, one that
begins with a closing brace ends it, so that the lines of a program are a list of statements: single
lines, and blocks with the statements inside (`stmts?`).

How a listing is read is known before it is written (`Reads`): its fixed text is, and numbers and
payloads stand for the tokens that they will be written as (`Sign`). Listings of mostly fixed text
are read by evaluation (`Reads.of_signs`), the others part by part. -/

namespace PlatformGame.Script

open Program Text

/-- A line, or a block with the line that opens it, without its brace. The closing line is left
out. -/
inductive Stmt (α : Type)
  | line (ts : List α)
  | block (header : List α) (body : List (Stmt α))

namespace Stmt

mutual

/-- All lines, also those that open blocks. -/
def lines : Stmt α → List (List α)
  | line ts => [ts]
  | block header body => header :: linesAll body

def linesAll : List (Stmt α) → List (List α)
  | [] => []
  | s :: ss => lines s ++ linesAll ss

end

theorem linesAll_eq (ss : List (Stmt α)) : linesAll ss = ss.flatMap lines := by
  induction ss with
  | nil => rfl
  | cons s ss ih => rw [linesAll, ih, List.flatMap_cons]

mutual

/-- The statement with every part of its lines replaced. -/
def image (f : α → List β) : Stmt α → Stmt β
  | line ts => line (ts.flatMap f)
  | block header body => block (header.flatMap f) (images f body)

def images (f : α → List β) : List (Stmt α) → List (Stmt β)
  | [] => []
  | s :: ss => image f s :: images f ss

end

mutual

theorem lines_image (f : α → List β) : ∀ s : Stmt α,
    (s.image f).lines = s.lines.map (·.flatMap f)
  | line _ => rfl
  | block header body => by
    rw [image, lines, lines, List.map_cons, linesAll_images f body]

theorem linesAll_images (f : α → List β) : ∀ ss : List (Stmt α),
    linesAll (images f ss) = (linesAll ss).map (·.flatMap f)
  | [] => rfl
  | s :: ss => by
    rw [images, linesAll, linesAll, List.map_append, lines_image f s, linesAll_images f ss]

end

end Stmt

/-! ## Reading lines -/

/-- What a line is for the block structure. -/
inductive Role
  | blank
  | closing
  | opening
  | plain
  deriving DecidableEq

section Grow

variable (mark? : α → Option Char)

def role (ts : List α) : Role :=
  if ts.isEmpty then .blank
  else if ts.head?.bind mark? == some '}' then .closing
  else if ts.getLast?.bind mark? == some '{' then .opening
  else .plain

/-- Lines are read from the last to the first: a closing line begins a body, and the line that opens
the block ends it. What has been read of the bodies around a line is given innermost first. -/
def grow (ts : List α) (bodies : List (List (Stmt α))) : Option (List (List (Stmt α))) :=
  match role mark? ts, bodies with
  | .blank, bodies => some bodies
  | .closing, bodies => some ([] :: bodies)
  | .opening, body :: outer :: bodies => some ((.block ts.dropLast body :: outer) :: bodies)
  | .plain, body :: bodies => some ((.line ts :: body) :: bodies)
  | _, _ => none

def growAll (tss : List (List α)) (bodies : List (List (Stmt α))) :
    Option (List (List (Stmt α))) :=
  tss.foldr (fun ts r => r.bind (grow mark? ts)) (some bodies)

/-- The statements of the lines, if every block is closed. -/
def stmts? (tss : List (List α)) : Option (List (Stmt α)) :=
  match growAll mark? tss [[]] with
  | some [ss] => some ss
  | _ => none

variable {mark?}

theorem stmts?_eq_some {tss : List (List α)} :
    stmts? mark? tss = some ss ↔ growAll mark? tss [[]] = some [ss] := by
  unfold stmts?
  constructor
  · intro h
    split at h
    · next heq =>
      cases h
      exact heq
    · cases h
  · intro h
    rw [h]

theorem growAll_append {tss tss' : List (List α)} (h : growAll mark? tss' bodies = some bodies') :
    growAll mark? (tss ++ tss') bodies = growAll mark? tss bodies' := by
  rw [growAll, List.foldr_append, ← growAll, h]
  rfl

/-- Bodies inside others: the statements of the outermost go in front of the first of those. -/
def within (body : List (Stmt α)) (bodies : List (List (Stmt α))) :
    List (List (Stmt α)) → List (List (Stmt α))
  | [] => bodies
  | [b] => (b ++ body) :: bodies
  | b :: bs => b :: within body bodies bs

theorem grow_within (hbs : bs ≠ []) (h : grow mark? ts bs = some bs') (body : List (Stmt α))
    (bodies : List (List (Stmt α))) :
    bs' ≠ [] ∧ grow mark? ts (within body bodies bs) = some (within body bodies bs') := by
  unfold grow at h ⊢
  cases hrole : role mark? ts with
  | blank =>
    simp only [hrole] at h
    cases h
    exact ⟨hbs, rfl⟩
  | closing =>
    simp only [hrole] at h
    cases h
    obtain ⟨b, bs, rfl⟩ := List.exists_cons_of_ne_nil hbs
    exact ⟨List.cons_ne_nil _ _, rfl⟩
  | opening =>
    rcases bs with _ | ⟨b, _ | ⟨outer, bs⟩⟩
    · exact absurd rfl hbs
    · simp [hrole] at h
    · simp only [hrole] at h
      cases h
      cases bs <;> exact ⟨List.cons_ne_nil _ _, rfl⟩
  | plain =>
    obtain ⟨b, bs, rfl⟩ := List.exists_cons_of_ne_nil hbs
    simp only [hrole] at h
    cases h
    cases bs <;> exact ⟨List.cons_ne_nil _ _, rfl⟩

theorem growAll_within {tss : List (List α)} (hbs : bs ≠ [])
    (h : growAll mark? tss bs = some bs') (body : List (Stmt α)) (bodies : List (List (Stmt α))) :
    bs' ≠ [] ∧ growAll mark? tss (within body bodies bs) = some (within body bodies bs') := by
  induction tss generalizing bs' with
  | nil =>
    cases h
    exact ⟨hbs, rfl⟩
  | cons ts tss ih =>
    obtain ⟨bs'', hbs'', hgrow⟩ := Option.bind_eq_some_iff.1 h
    obtain ⟨hne, hin⟩ := ih hbs''
    obtain ⟨hne', hin'⟩ := grow_within hne hgrow body bodies
    exact ⟨hne', Option.bind_eq_some_iff.2 ⟨_, hin, hin'⟩⟩

theorem growAll_of_stmts? {tss : List (List α)} (h : stmts? mark? tss = some ss)
    (body : List (Stmt α)) (bodies : List (List (Stmt α))) :
    growAll mark? tss (body :: bodies) = some ((ss ++ body) :: bodies) :=
  (growAll_within (List.cons_ne_nil _ _) (stmts?_eq_some.1 h) body bodies).2

theorem stmts?_append {tss tss' : List (List α)} (h : stmts? mark? tss = some ss)
    (h' : stmts? mark? tss' = some ss') : stmts? mark? (tss ++ tss') = some (ss ++ ss') := by
  rw [stmts?_eq_some] at h' ⊢
  rw [growAll_append h']
  exact growAll_of_stmts? h ss' []

theorem stmts?_block {tss : List (List α)} (h : stmts? mark? tss = some ss)
    (hopen : role mark? header = .opening) (hclose : role mark? close = .closing) :
    stmts? mark? (header :: tss ++ [close]) = some [.block header.dropLast ss] := by
  have hlast : growAll mark? [close] [[]] = some [[], []] := by
    simp [growAll, grow, hclose]
  have hbody : growAll mark? (tss ++ [close]) [[]] = some [ss, []] := by
    rw [growAll_append hlast, growAll_of_stmts? h, List.append_nil]
  rw [stmts?_eq_some, List.cons_append, growAll, List.foldr_cons, ← growAll, hbody]
  simp [grow, hopen]

/-- Two lines are a block only if one opens it and the other closes it. -/
theorem roles_of_stmts?_block (h : stmts? mark? [ts, us] = some [.block header []]) :
    role mark? ts = .opening ∧ role mark? us = .closing ∧ ts.dropLast = header := by
  have hgrow : (grow mark? us [[]]).bind (grow mark? ts) = some [[.block header []]] :=
    stmts?_eq_some.1 h
  cases hus : role mark? us <;> cases hts : role mark? ts <;> simp [grow, hus, hts] at hgrow
  exact ⟨rfl, rfl, hgrow⟩

end Grow

/-! ## Signs -/

def Token.mark? : Token → Option Char
  | .mark c => some c
  | _ => none

/-- The tokens that a piece is written as, if it is written. -/
def pieceTokens (p : Piece) : List Token :=
  ((p.write.toOption).bind fun s => tokens? s.toList).getD []

/-- A part of a row that is known before the row is written. -/
inductive Sign
  | token (t : Token)
  /-- A name with a capital letter L: that of a level's scene or of a layer. -/
  | name (s : String) (h : 'L' ∈ s.toList)
  | number (q : Quantity)
  | payload (j : Json)

namespace Sign

def tokens : Sign → List Token
  | token t => [t]
  | name s _ => [.word s.toList]
  | number q => pieceTokens (.number q)
  | payload j => pieceTokens (.payload j)

def mark? : Sign → Option Char
  | token t => t.mark?
  | _ => none

/-- Whether the sign is a single token. -/
def isSingle : Sign → Bool
  | token _ => true
  | name _ _ => true
  | _ => false

theorem exists_tokens_of_isSingle {s : Sign} (h : s.isSingle = true) :
    ∃ t, s.tokens = [t] ∧ t.mark? = s.mark? := by
  cases s with
  | token t => exact ⟨t, rfl, rfl⟩
  | name s _ => exact ⟨_, rfl, rfl⟩
  | number q => cases h
  | payload j => cases h

end Sign

/-- Whether the first and the last sign of a line are single tokens. -/
def framed (ss : List Sign) : Bool := ss.head?.all Sign.isSingle && ss.getLast?.all Sign.isSingle

theorem flatMap_dropLast {ss : List Sign} (h : framed ss = true) :
    (ss.flatMap Sign.tokens).dropLast = ss.dropLast.flatMap Sign.tokens := by
  rcases ss.eq_nil_or_concat' with rfl | ⟨ss, s, rfl⟩
  · rfl
  · simp only [framed, List.getLast?_concat, Option.all_some, Bool.and_eq_true] at h
    obtain ⟨t, ht, _⟩ := Sign.exists_tokens_of_isSingle h.2
    simp [ht]

theorem role_flatMap {ss : List Sign} (h : framed ss = true) :
    role Token.mark? (ss.flatMap Sign.tokens) = role Sign.mark? ss := by
  cases ss with
  | nil => rfl
  | cons s ss =>
    simp only [framed, List.head?_cons, Option.all_some, Bool.and_eq_true] at h
    obtain ⟨t, ht, hmark⟩ := Sign.exists_tokens_of_isSingle h.1
    have hlast : ((s :: ss).flatMap Sign.tokens).getLast?.bind Token.mark? =
        (s :: ss).getLast?.bind Sign.mark? := by
      rcases (s :: ss).eq_nil_or_concat' with heq | ⟨us, u, heq⟩
      · cases heq
      · rw [heq] at h ⊢
        rw [List.getLast?_concat, Option.all_some] at h
        obtain ⟨v, hv, hmark⟩ := Sign.exists_tokens_of_isSingle h.2
        simp [hv, hmark]
    have hhead : ((s :: ss).flatMap Sign.tokens).head? = some t := by simp [ht]
    have hempty : ((s :: ss).flatMap Sign.tokens).isEmpty = false := by simp [ht]
    rw [role, role, hlast, hhead, hempty, Option.bind_some, hmark]
    rfl

theorem growAll_images (h : ∀ ss ∈ sss, framed ss = true)
    (hgrow : growAll Sign.mark? sss bodies = some bodies') :
    growAll Token.mark? (sss.map (·.flatMap Sign.tokens)) (bodies.map (Stmt.images Sign.tokens)) =
      some (bodies'.map (Stmt.images Sign.tokens)) := by
  induction sss generalizing bodies' with
  | nil =>
    cases hgrow
    rfl
  | cons ss sss ih =>
    rw [List.forall_mem_cons] at h
    obtain ⟨bs, hbs, hgrow⟩ := Option.bind_eq_some_iff.1 hgrow
    refine Option.bind_eq_some_iff.2 ⟨_, ih h.2 hbs, ?_⟩
    unfold grow at hgrow ⊢
    rw [role_flatMap h.1]
    split at hgrow
    · cases hgrow
      simp_all
    · cases hgrow
      simp_all [Stmt.images]
    · cases hgrow
      simp_all [Stmt.images, Stmt.image, flatMap_dropLast]
    · cases hgrow
      simp_all [Stmt.images, Stmt.image]
    · cases hgrow

/-! ## Rows before they are written -/

theorem mem_layer (name : String) : 'L' ∈ (identifier name ++ "Layer").toList := by
  simp [String.toList_append]

/-- The parts of a row. -/
inductive Spelled : List Piece → List (Part Sign) → Prop
  | nil : Spelled [] []
  | code : Spelled ps qs → Spelled (.code (String.ofList cs) :: ps) (.code cs :: qs)
  | literal : Spelled ps qs → Spelled (.literal s :: ps) (.item (.token (.literal s)) :: qs)
  | number : Spelled ps qs → Spelled (.number q :: ps) (.item (.number q) :: qs)
  | payload : Spelled ps qs → Spelled (.payload j :: ps) (.item (.payload j) :: qs)
  | layer : Spelled ps qs → Spelled (.name (layerField s) :: ps)
      (.code ['t', 'h', 'i', 's', '.'] :: .item (.name _ (mem_layer s)) :: qs)
  | name : IsName s → (hL : 'L' ∈ s.toList) → Spelled ps qs →
      Spelled (.name s :: ps) (.item (.name s hL) :: qs)

theorem pieceTokens_eq (hp : p.write = .ok s) (h : tokens? s.toList = some ts) :
    pieceTokens p = ts := by
  rw [pieceTokens, hp, Except.toOption, Option.bind_some, h, Option.getD_some]

theorem tokens?_number (h : (Piece.number q).write = .ok s) :
    tokens? s.toList = some (pieceTokens (.number q)) := by
  obtain ⟨ts, hts, _⟩ := exists_tokens?_numeral (numerals_number h)
  rw [pieceTokens_eq h hts, hts]

theorem tokens?_payload (h : (Piece.payload j).write = .ok s) :
    tokens? s.toList = some (pieceTokens (.payload j)) := by
  obtain ⟨ts, hts, _⟩ := Json.quietText_compact h
  rw [pieceTokens_eq h hts, hts]

theorem Spelled.composes (h : Spelled ps qs) (hs : writeAll ps = .ok s) :
    Composes (fun sign cs => tokens? cs = some sign.tokens) qs s.toList := by
  induction h generalizing s with
  | nil =>
    cases hs
    exact .nil
  | code _ ih =>
    obtain ⟨t, u, ht, hu, htu⟩ := writeAll_cons hs
    rw [← Except.ok.inj ht, String.toList_ofList] at htu
    exact htu ▸ .code (ih hu)
  | literal _ ih =>
    obtain ⟨t, u, ht, hu, htu⟩ := writeAll_cons hs
    cases ht
    exact htu ▸ .item (tokens?_scriptLiteral _) (ih hu)
  | number _ ih =>
    obtain ⟨t, u, ht, hu, htu⟩ := writeAll_cons hs
    exact htu ▸ .item (tokens?_number ht) (ih hu)
  | payload _ ih =>
    obtain ⟨t, u, ht, hu, htu⟩ := writeAll_cons hs
    exact htu ▸ .item (tokens?_payload ht) (ih hu)
  | layer _ ih =>
    obtain ⟨t, u, ht, hu, htu⟩ := writeAll_cons hs
    rw [← Except.ok.inj ht, toList_layerField, List.append_assoc] at htu
    exact htu ▸ .code (.item (isName_layer _).tokens? (ih hu))
  | name hname _ _ ih =>
    obtain ⟨t, u, ht, hu, htu⟩ := writeAll_cons hs
    cases ht
    exact htu ▸ .item hname.tokens? (ih hu)

/-- What is written for a row has the tokens of its signs. -/
theorem Spelled.tokens_eq (h : Spelled ps qs) (hsigns : items .token st qs = some ss)
    (hs : writeAll ps = .ok s) : tokensFrom? st s.toList = some (ss.flatMap Sign.tokens) := by
  let fits (ss : List Sign) (ts : List Token) : Prop := ss.flatMap Sign.tokens = ts
  have htokens (ts : List Token) : fits (ts.map .token) ts := by
    change (ts.map Sign.token).flatMap Sign.tokens = ts
    rw [List.flatMap_map]
    exact (List.flatMap_pure_eq_map id ts).trans (List.map_id ts)
  obtain ⟨_, hts, rfl⟩ := (h.composes hs).exists_tokens fits rfl
    (fun ts h => List.flatMap_append.trans (congrArg₂ _ (htokens ts) h))
    (fun ha h => ⟨_, ha, congrArg _ h⟩) hsigns
  exact hts

/-! ## Listings -/

/-- The statements of a text in lines. -/
def codeOf? (ls : List String) : Option (List (Stmt Token)) :=
  (ls.mapM fun l => tokens? l.toList).bind (stmts? Token.mark?)

/-- What the lines of a listing are read as, once they are written. -/
def Codes (rows : Listing) (ss : List (Stmt Token)) : Prop :=
  ∀ n n' ls, Written n n' rows ls → codeOf? ls = some ss

theorem codeOf?_eq_some :
    codeOf? ls = some ss ↔
      ∃ tss, (ls.mapM fun l => tokens? l.toList) = some tss ∧ stmts? Token.mark? tss = some ss :=
  Option.bind_eq_some_iff

theorem codeOf?_append (h : codeOf? ls = some ss) (h' : codeOf? ls' = some ss') :
    codeOf? (ls ++ ls') = some (ss ++ ss') := by
  obtain ⟨tss, htss, hss⟩ := codeOf?_eq_some.1 h
  obtain ⟨tss', htss', hss'⟩ := codeOf?_eq_some.1 h'
  refine codeOf?_eq_some.2 ⟨tss ++ tss', ?_, stmts?_append hss hss'⟩
  rw [List.mapM_append, htss, htss']
  rfl

/-- The lines of a block without a body are those around a body. -/
theorem mapM_tokens_minified {ls : List String}
    (h : (ls.mapM fun l => tokens? l.toList) = some tss) : ∃ tss',
    (((ls.map strip).filter (!·.isEmpty)).mapM fun l => tokens? l.toList) = some tss' ∧
    ∀ bodies, growAll Token.mark? tss' bodies = growAll Token.mark? tss bodies := by
  induction ls generalizing tss with
  | nil => exact ⟨tss, h, fun _ => rfl⟩
  | cons l ls ih =>
    rw [List.mapM_cons] at h
    obtain ⟨ts, hts, h⟩ := Option.bind_eq_some_iff.1 h
    obtain ⟨tss, htss, h⟩ := Option.bind_eq_some_iff.1 h
    cases h
    obtain ⟨tss', htss', hgrow⟩ := ih htss
    have hstrip : tokens? (strip l).toList = some ts := by
      rw [strip, String.toList_ofList, tokens?_stripChars, hts]
    rw [List.map_cons, List.filter_cons]
    split
    · refine ⟨ts :: tss', ?_, fun bodies => ?_⟩
      · rw [List.mapM_cons, hstrip, htss']
        rfl
      · exact congrArg (Option.bind · (grow Token.mark? ts)) (hgrow bodies)
    · next hempty =>
      have : strip l = "" := by simpa using hempty
      rw [this] at hstrip
      cases hstrip
      refine ⟨tss', htss', fun bodies => ?_⟩
      -- An empty line has no tokens, so that nothing grows.
      have hblank : growAll Token.mark? ([] :: tss) bodies = growAll Token.mark? tss bodies :=
        Option.bind_fun_some _
      rw [hblank, hgrow]

/-- Blanks around lines and empty lines do not matter for the reading. -/
theorem codeOf?_shown (h : codeOf? ls = some ss) (minify : Bool) :
    codeOf? (shown minify ls) = some ss := by
  cases minify with
  | false => exact h
  | true =>
    obtain ⟨tss, htss, hss⟩ := codeOf?_eq_some.1 h
    obtain ⟨tss', htss', hgrow⟩ := mapM_tokens_minified htss
    exact codeOf?_eq_some.2 ⟨tss', htss', by rw [stmts?, hgrow, ← stmts?, hss]⟩

theorem codeOf?_block (h : codeOf? [l, l'] = some [.block header []])
    (hbody : codeOf? ls = some ss) : codeOf? (l :: ls ++ [l']) = some [.block header ss] := by
  obtain ⟨frame, hframe, hblock⟩ := codeOf?_eq_some.1 h
  obtain ⟨tss, htss, hss⟩ := codeOf?_eq_some.1 hbody
  obtain ⟨ts, (hts : tokens? l.toList = some ts), hframe⟩ := Option.bind_eq_some_iff.1 hframe
  obtain ⟨us, (hus : tokens? l'.toList = some us), hframe⟩ := Option.bind_eq_some_iff.1 hframe
  cases hframe
  obtain ⟨hopen, hclose, rfl⟩ := roles_of_stmts?_block hblock
  refine codeOf?_eq_some.2 ⟨ts :: tss ++ [us], ?_, stmts?_block hss hopen hclose⟩
  rw [List.mapM_append, List.mapM_cons, hts, htss, List.mapM_cons, hus]
  rfl

namespace Codes

theorem nil : Codes [] [] := by
  intro n n' ls hls
  cases hls
  rfl

theorem append (h : Codes rows ss) (h' : Codes rows' ss') : Codes (rows ++ rows') (ss ++ ss') := by
  intro n n' ls hls
  obtain ⟨m, us, vs, hus, hvs, rfl⟩ := hls.append
  exact codeOf?_append (h n m us hus) (h' m n' vs hvs)

theorem indent (h : Codes rows ss) : Codes (Program.indent rows) ss := by
  intro n n' ls hls
  cases hls with
  | indent hls =>
    obtain ⟨m, us, vs, hus, hvs, rfl⟩ := hls.append
    cases hvs with
    | dedent hnil =>
      cases hnil
      rw [List.append_nil]
      exact h _ m us hus

theorem codeOf?_pair (n m : Nat) (s t : String) :
    codeOf? [Sheet.indented "  " n s, Sheet.indented "  " m t] = codeOf? [s, t] := by
  simp only [codeOf?, List.mapM_cons, tokens?_indented]

theorem of_lines
    (h : ∀ s t, writeAll ps = .ok s → writeAll qs = .ok t → codeOf? [s, t] = some ss) :
    Codes [line ps, line qs] ss := by
  intro n n' ls hls
  cases hls with
  | line hs hrest =>
    cases hrest with
    | line ht hnil =>
      cases hnil
      rw [codeOf?_pair]
      exact h _ _ hs ht

/-- Lines around a body are read as a block if they are one without it. -/
theorem frame (h : Codes [line ps, line qs] [.block ts []]) (hbody : Codes body ss) :
    Codes (line ps :: Program.indent body ++ [line qs]) [.block ts ss] := by
  intro n n' ls hls
  cases hls with
  | @line _ s _ _ _ _ hs hls =>
    obtain ⟨m, us, vs, hus, hvs, rfl⟩ := hls.append
    cases hvs with
    | @line _ t _ _ _ _ ht hnil =>
      cases hnil
      have hpair := h n n _ (.line hs (.line ht .nil))
      rw [codeOf?_pair] at hpair
      exact codeOf?_block ((codeOf?_pair n _ s t).trans hpair) (hbody.indent _ _ us hus)

/-- How a block is read is known from the block without its body. -/
theorem blockTo (h : Codes (blockTo close header []) [.block ts []]) (hbody : Codes body ss) :
    Codes (Program.blockTo close header body) [.block ts ss] := by
  apply frame (fun n n' ls hls => h n n' ls ?_) hbody
  -- The step in and the step out that are left of the body cancel out.
  cases hls with
  | line hs hrest => exact .line hs (.indent (.dedent hrest))

end Codes

/-! ## Listings of mostly fixed text -/

inductive SpelledAll : Listing → List (List (Part Sign)) → Prop
  | nil : SpelledAll [] []
  | line : Spelled ps qs → SpelledAll rows qss → SpelledAll (.line ps :: rows) (qs :: qss)
  | indent : SpelledAll rows qss → SpelledAll (.indent :: rows) qss
  | dedent : SpelledAll rows qss → SpelledAll (.dedent :: rows) qss

/-- The signs of rows, if they are enough to tell the statements. -/
def framedSigns? (qss : List (List (Part Sign))) : Option (List (List Sign)) :=
  (qss.mapM (items .token .code)).filter (·.all framed)

theorem SpelledAll.tokens_eq (h : SpelledAll rows qss)
    (hsss : qss.mapM (items .token .code) = some sss) (hls : Written n n' rows ls) :
    (ls.mapM fun l => tokens? l.toList) = some (sss.map (·.flatMap Sign.tokens)) := by
  induction h generalizing n sss ls with
  | nil =>
    cases hsss
    cases hls
    rfl
  | line hps _ ih =>
    cases hls with
    | line hs hus =>
      rw [List.mapM_cons] at hsss
      obtain ⟨ss, hss, hsss⟩ := Option.bind_eq_some_iff.1 hsss
      obtain ⟨sss, hrest, hsss⟩ := Option.bind_eq_some_iff.1 hsss
      cases hsss
      rw [List.mapM_cons, tokens?_indented, tokens?, hps.tokens_eq hss hs, ih hrest hus]
      rfl
  | indent _ ih | dedent _ ih =>
    cases hls
    exact ih hsss ‹_›

/-- The rows determine how they are spelled, and what is spelled is read by evaluation. -/
theorem Codes.of_signs (hspelled : SpelledAll rows qss)
    (hread : (framedSigns? qss).bind (stmts? Sign.mark?) = some ss')
    (himages : Stmt.images Sign.tokens ss' = ss) : Codes rows ss := by
  subst himages
  obtain ⟨sss, hsss, hss⟩ := Option.bind_eq_some_iff.1 hread
  obtain ⟨hsss, hframed⟩ := Option.filter_eq_some_iff.1 hsss
  intro n n' ls hls
  refine codeOf?_eq_some.2 ⟨_, hspelled.tokens_eq hsss hls, stmts?_eq_some.2 ?_⟩
  exact growAll_images (List.all_eq_true.1 hframed) (stmts?_eq_some.1 hss)

end PlatformGame.Script
