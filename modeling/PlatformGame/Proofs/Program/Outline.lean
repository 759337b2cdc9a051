import PlatformGame.Proofs.Program.Listings
import PlatformGame.Proofs.Program.Skeleton

/-! # The skeletons of listings

Which brackets a row opens and closes can be told from its fixed text alone (`outline`), since what
else stands in it is calm or a literal. The same goes for minus signs that stand next to each other,
where a number is known to have no sign of its own. `Tidy` is what follows for a listing, from the
brackets that are open before it to those that are open after it; its text, minified or not, has a
skeleton with these brackets (`Tidy.exists_skeleton`). Every row is a single line
(`newline_notMem_writeAll`). -/

namespace PlatformGame.Script

open Program Text

/-! ## Rows -/

/-- A part of a row: fixed text, a literal, or something without quotes around it, of which it may
be open whether it starts with a minus sign. -/
inductive Bit
  | code (cs : List Char)
  | quotes
  | value (signed : Bool)

/-- The parts of a row; `bare` says whether numbers that stand after a minus sign have no sign. -/
inductive Reads (bare : Prop) : List Piece → List Bit → Prop
  | nil : Reads bare [] []
  | code : Reads bare ps qs → Reads bare (.code (String.ofList cs) :: ps) (.code cs :: qs)
  | literal : Reads bare ps qs → Reads bare (.literal s :: ps) (.quotes :: qs)
  | labelled : Reads bare ps qs → Reads bare (.labelled before n after :: ps) (.quotes :: qs)
  | number : Reads bare ps qs → Reads bare (.number q :: ps) (.value true :: qs)
  | unsigned : (bare → n.isNegative = false) → Reads bare ps qs →
      Reads bare (.number (.value n) :: ps) (.value false :: qs)
  | numbers {ns : List Number} : Reads bare ps qs →
      Reads bare (separate ", " (ns.map num) ++ ps) (.value true :: qs)
  | payload : Reads bare ps qs → Reads bare (.payload j :: ps) (.value true :: qs)
  | layer : Reads bare ps qs → Reads bare (.name (layerField s) :: ps) (.value true :: qs)
  | name : IsName s → Reads bare ps qs → Reads bare (.name s :: ps) (.value true :: qs)
  | names {ss : List String} : (∀ s ∈ ss, IsName s) → Reads bare ps qs →
      Reads bare (separate ", " (ss.map .name) ++ ps) (.value true :: qs)

/-- Whether the last character is a minus sign, unless two stand next to each other. -/
def dashes : Bool → List Char → Option Bool
  | d, [] => some d
  | d, c :: cs => if c = '-' then (if d then none else dashes true cs) else dashes false cs

/-- Whether no `<` of a text has a `!` after it, whatever follows the text. -/
def unopened : List Char → Bool
  | [] => true
  | c :: cs => (c != '<' || cs.head?.any (· != '!')) && unopened cs

/-- Fixed text that opens no comment of the page and stays in its line. -/
def settled (cs : List Char) : Bool := unopened cs && cs.all (· != '\n')

/-- The brackets that are open after a row, in which all fixed text has to be settled. -/
def outline : Mode → Bool → List Char → List Bit → Option (List Char)
  | .code, _, st, [] => some st
  | m, d, st, .code cs :: qs =>
    if settled cs then
      (sift m cs).bind fun r => (dashes d r.2).bind fun d' => (nest st r.2).bind fun st' =>
        outline r.1 d' st' qs
    else none
  | .code, _, st, .quotes :: qs => outline .code false st qs
  | .code, d, st, .value signed :: qs => if d && signed then none else outline .code d st qs
  | _, _, _, _ => none

theorem undoubled_of_dashes (h : dashes d xs = some d') (hy : Undoubled ys)
    (hd' : d' = true → ys.head? ≠ some '-') :
    Undoubled (xs ++ ys) ∧ (d = true → (xs ++ ys).head? ≠ some '-') := by
  induction xs generalizing d with
  | nil =>
    cases h
    exact ⟨hy, hd'⟩
  | cons c xs ih =>
    rw [dashes] at h
    split at h
    · next hc =>
      subst hc
      split at h
      · cases h
      · next hd =>
        obtain ⟨hxs, hhead⟩ := ih h
        refine ⟨List.isChain_cons.2 ⟨fun e he hdash => hhead rfl ?_, hxs⟩, fun h => absurd h hd⟩
        exact hdash.2 ▸ he
    · next hc =>
      refine ⟨List.isChain_cons.2 ⟨fun _ _ hdash => hc hdash.1, (ih h).1⟩, fun _ hhead => ?_⟩
      exact hc (Option.some.inj hhead)

theorem outline_code (h : outline m d st (.code cs :: qs) = some st') :
    settled cs = true ∧ ∃ m' xs d' st₁, sift m cs = some (m', xs) ∧ dashes d xs = some d' ∧
      nest st xs = some st₁ ∧ outline m' d' st₁ qs = some st' := by
  have hif : (if settled cs then (sift m cs).bind fun r => (dashes d r.2).bind fun d' =>
      (nest st r.2).bind fun st' => outline r.1 d' st' qs else none) = some st' := by
    cases m <;> exact h
  split at hif
  · next hcs =>
    obtain ⟨r, hr, hif⟩ := Option.bind_eq_some_iff.1 hif
    obtain ⟨d', hd', hif⟩ := Option.bind_eq_some_iff.1 hif
    obtain ⟨st₁, hst₁, hif⟩ := Option.bind_eq_some_iff.1 hif
    exact ⟨hcs, r.1, r.2, d', st₁, hr, hd', hst₁, hif⟩
  · cases hif

theorem outline_quotes (h : outline m d st (.quotes :: qs) = some st') :
    m = .code ∧ outline .code false st qs = some st' := by
  cases m with
  | code => exact ⟨rfl, h⟩
  | quoted | escaped => cases h

theorem outline_value (h : outline m d st (.value signed :: qs) = some st') :
    m = .code ∧ (d && signed) = false ∧ outline .code d st qs = some st' := by
  cases m with
  | code =>
    rw [outline] at h
    split at h
    · cases h
    · next hd => exact ⟨rfl, by simpa using hd, h⟩
  | quoted | escaped => cases h

/-- What the rest of a row is like, where `d` says whether a minus sign stands in front of it. -/
def Drawn (bare : Prop) (m : Mode) (d : Bool) (st st' cs : List Char) : Prop :=
  ∃ xs, sift m cs = some (.code, xs) ∧ nest st xs = some st' ∧
    (bare → Undoubled xs ∧ (d = true → xs.head? ≠ some '-'))

/-- What a value is like in a row. -/
def Fills (bare : Prop) (signed : Bool) (cs : List Char) : Prop :=
  ∃ xs, sift .code cs = some (.code, xs) ∧ Calm xs ∧
    (signed = false → bare → xs.head? ≠ some '-')

theorem CalmText.fills (h : CalmText cs) : Fills bare true cs := by
  obtain ⟨xs, hxs, hcalm⟩ := h
  exact ⟨xs, hxs, hcalm, nofun⟩

namespace Drawn

variable {bare : Prop} {m m' : Mode} {d d' signed : Bool} {st st₁ st' cs ds xs : List Char}

theorem code (hs : sift m cs = some (m', xs)) (hd : dashes d xs = some d')
    (hn : nest st xs = some st₁) (h : Drawn bare m' d' st₁ st' ds) :
    Drawn bare m d st st' (cs ++ ds) := by
  obtain ⟨ys, hys, hnest, hdash⟩ := h
  refine ⟨xs ++ ys, sift_append hs hys, by rw [nest_append hn, hnest], fun hbare => ?_⟩
  exact undoubled_of_dashes hd (hdash hbare).1 (hdash hbare).2

theorem quotes (s : String) (h : Drawn bare .code false st st' ds) :
    Drawn bare .code d st st' ((scriptLiteral s).toList ++ ds) :=
  .code (sift_scriptLiteral s) rfl rfl h

theorem value (hv : Fills bare signed cs) (hd : (d && signed) = false)
    (h : Drawn bare .code d st st' ds) : Drawn bare .code d st st' (cs ++ ds) := by
  obtain ⟨xs, hxs, hcalm, hhead⟩ := hv
  obtain ⟨ys, hys, hnest, hdash⟩ := h
  refine ⟨xs ++ ys, sift_append hxs hys, by rw [nest_append (hcalm.nest_eq st), hnest],
    fun hbare => ⟨hcalm.undoubled.append (hdash hbare).1 (.inl hcalm.last), fun hdtrue => ?_⟩⟩
  rw [hdtrue, Bool.true_and] at hd
  cases xs with
  | nil => exact (hdash hbare).2 hdtrue
  | cons x xs => exact hhead hd hbare

end Drawn

theorem calmText_number (h : (Piece.number q).write = .ok s) : CalmText s.toList := by
  obtain ⟨n, _, hn⟩ := bind_eq_ok.1 h
  exact calmText_literal hn

theorem fills_unsigned {bare : Prop} {n : Number} {s : String} (hn : bare → n.isNegative = false)
    (h : n.literal = .ok s) : Fills bare false s.toList := by
  obtain ⟨xs, hxs, hcalm⟩ := calmText_literal h
  refine ⟨xs, hxs, hcalm, fun _ hbare => ?_⟩
  obtain ⟨cs, hcs, hm⟩ := Number.exists_magnitude h
  have hsift : sift .code s.toList = some (.code, s.toList) :=
    sift_of_notMem_special fun c hc => notMem_of_all rfl (Number.numerals_literal h c hc)
  rw [hsift] at hxs
  cases hxs
  rw [hcs, hn hbare]
  exact hm.head

theorem calmText_layerField (name : String) : CalmText (layerField name).toList := by
  rw [toList_layerField]
  exact (CalmText.of_all rfl).append (isName_layer name).calmText

theorem calmText_separate {f : α → Piece} {xs : List α}
    (hf : ∀ x ∈ xs, ∀ t, (f x).write = .ok t → CalmText t.toList)
    (h : writeAll (separate ", " (xs.map f)) = .ok s) : CalmText s.toList := by
  obtain ⟨ts, hts, rfl⟩ := writeAll_separate h
  refine .intercalate ?_
  clear h
  induction hts with
  | nil => exact List.forall_mem_nil _
  | cons hx _ ih =>
    rw [List.forall_mem_cons] at hf
    exact List.forall_mem_cons.2 ⟨hf.1 _ hx, ih hf.2⟩

/-- The outline of a row is that of the text that is written for it. -/
theorem Reads.drawn {bare : Prop} {ps : List Piece} {qs : List Bit} (h : Reads bare ps qs)
    {m : Mode} {d : Bool} {st st' : List Char} (hout : outline m d st qs = some st') {s : String}
    (hs : writeAll ps = .ok s) : Drawn bare m d st st' s.toList := by
  induction h generalizing m d st s with
  | nil =>
    cases hs
    cases m with
    | code =>
      cases hout
      exact ⟨[], rfl, rfl, fun _ => ⟨.nil, nofun⟩⟩
    | quoted | escaped => cases hout
  | code _ ih =>
    obtain ⟨-, m', xs, d', st₁, hsift, hdash, hnest, hout⟩ := outline_code hout
    obtain ⟨t, u, ht, hu, htu⟩ := writeAll_cons hs
    rw [← Except.ok.inj ht, String.toList_ofList] at htu
    exact htu ▸ .code hsift hdash hnest (ih hout hu)
  | literal _ ih =>
    obtain ⟨rfl, hout⟩ := outline_quotes hout
    obtain ⟨t, u, ht, hu, htu⟩ := writeAll_cons hs
    cases ht
    exact htu ▸ .quotes _ (ih hout hu)
  | labelled _ ih =>
    obtain ⟨rfl, hout⟩ := outline_quotes hout
    obtain ⟨t, u, ht, hu, htu⟩ := writeAll_cons hs
    obtain ⟨v, _, ht⟩ := bind_eq_ok.1 ht
    cases ht
    exact htu ▸ .quotes _ (ih hout hu)
  | number _ ih =>
    obtain ⟨rfl, hd, hout⟩ := outline_value hout
    obtain ⟨t, u, ht, hu, htu⟩ := writeAll_cons hs
    exact htu ▸ .value (calmText_number ht).fills hd (ih hout hu)
  | unsigned hn _ ih =>
    obtain ⟨rfl, hd, hout⟩ := outline_value hout
    obtain ⟨t, u, ht, hu, htu⟩ := writeAll_cons hs
    exact htu ▸ .value (fills_unsigned hn ht) hd (ih hout hu)
  | numbers _ ih =>
    obtain ⟨rfl, hd, hout⟩ := outline_value hout
    obtain ⟨t, u, ht, hu, htu⟩ := writeAll_append hs
    have hcalm := calmText_separate (fun _ _ _ h => calmText_number h) ht
    exact htu ▸ .value hcalm.fills hd (ih hout hu)
  | payload _ ih =>
    obtain ⟨rfl, hd, hout⟩ := outline_value hout
    obtain ⟨t, u, ht, hu, htu⟩ := writeAll_cons hs
    exact htu ▸ .value (Json.calmText_compact ht).fills hd (ih hout hu)
  | layer _ ih =>
    obtain ⟨rfl, hd, hout⟩ := outline_value hout
    obtain ⟨t, u, ht, hu, htu⟩ := writeAll_cons hs
    cases ht
    exact htu ▸ .value (calmText_layerField _).fills hd (ih hout hu)
  | name hname _ ih =>
    obtain ⟨rfl, hd, hout⟩ := outline_value hout
    obtain ⟨t, u, ht, hu, htu⟩ := writeAll_cons hs
    cases ht
    exact htu ▸ .value hname.calmText.fills hd (ih hout hu)
  | names hnames _ ih =>
    obtain ⟨rfl, hd, hout⟩ := outline_value hout
    obtain ⟨t, u, ht, hu, htu⟩ := writeAll_append hs
    refine htu ▸ .value (calmText_separate (fun s hs t h => ?_) ht).fills hd (ih hout hu)
    cases h
    exact (hnames s hs).calmText

/-- A piece whose text is settled if it is fixed, and stays in its line. -/
def Settled : Piece → Prop
  | .code s => settled s.toList = true
  | .name s => '\n' ∉ s.toList
  | .html _ => False
  | _ => True

theorem settled_separate {f : α → Piece} {xs : List α} (hf : ∀ x ∈ xs, Settled (f x)) :
    ∀ p ∈ separate ", " (xs.map f), Settled p := by
  induction xs with
  | nil => exact List.forall_mem_nil _
  | cons x xs ih =>
    rw [List.forall_mem_cons] at hf
    cases xs with
    | nil => exact List.forall_mem_singleton.2 hf.1
    | cons y ys =>
      have hcomma : Settled (.code ", ") := by
        rw [Settled, String.toList_ofList]
        rfl
      exact List.forall_mem_cons.2 ⟨hf.1, List.forall_mem_cons.2 ⟨hcomma, ih hf.2⟩⟩

theorem CalmText.newline_notMem (h : CalmText cs) : '\n' ∉ cs := by
  obtain ⟨xs, hxs, hcalm⟩ := h
  exact newline_notMem_of_sift hxs hcalm.newline_notMem

theorem Reads.settled (h : Reads bare ps qs) (hout : outline m d st qs = some st') :
    ∀ p ∈ ps, Settled p := by
  induction h generalizing m d st with
  | nil => exact List.forall_mem_nil _
  | code _ ih =>
    obtain ⟨hcs, _, _, _, _, -, -, -, hout⟩ := outline_code hout
    refine List.forall_mem_cons.2 ⟨?_, ih hout⟩
    rwa [Settled, String.toList_ofList]
  | literal _ ih | labelled _ ih =>
    exact List.forall_mem_cons.2 ⟨trivial, ih (outline_quotes hout).2⟩
  | number _ ih | unsigned _ _ ih | payload _ ih =>
    exact List.forall_mem_cons.2 ⟨trivial, ih (outline_value hout).2.2⟩
  | layer _ ih =>
    exact List.forall_mem_cons.2
      ⟨(calmText_layerField _).newline_notMem, ih (outline_value hout).2.2⟩
  | name hname _ ih =>
    exact List.forall_mem_cons.2 ⟨hname.calmText.newline_notMem, ih (outline_value hout).2.2⟩
  | numbers _ ih =>
    exact List.forall_mem_append.2
      ⟨settled_separate fun _ _ => trivial, ih (outline_value hout).2.2⟩
  | names hnames _ ih =>
    exact List.forall_mem_append.2
      ⟨settled_separate fun s hs => (hnames s hs).calmText.newline_notMem,
        ih (outline_value hout).2.2⟩

theorem newline_notMem_write (h : Settled p) (hs : p.write = .ok s) : '\n' ∉ s.toList := by
  have hliteral (t : String) : '\n' ∉ (scriptLiteral t).toList :=
    newline_notMem_of_sift (sift_scriptLiteral t) (by decide)
  cases p with
  | code t =>
    cases hs
    exact fun hmem => absurd (List.all_eq_true.1 (Bool.and_eq_true_iff.1 h).2 _ hmem) (by decide)
  | literal t =>
    cases hs
    exact hliteral t
  | labelled before n after =>
    obtain ⟨_, _, hs⟩ := bind_eq_ok.1 hs
    cases hs
    exact hliteral _
  | number q => exact (calmText_number hs).newline_notMem
  | payload j => exact (Json.calmText_compact hs).newline_notMem
  | name t =>
    cases hs
    exact h
  | html t => exact h.elim

/-- A row is a single line: texts that may have newlines stand in it as literals. -/
theorem newline_notMem_writeAll (h : ∀ p ∈ ps, Settled p) (hs : writeAll ps = .ok s) :
    '\n' ∉ s.toList := by
  induction ps generalizing s with
  | nil =>
    cases hs
    exact List.not_mem_nil
  | cons p ps ih =>
    rw [List.forall_mem_cons] at h
    obtain ⟨t, u, ht, hu, htu⟩ := writeAll_cons hs
    exact htu ▸ List.not_mem_append (newline_notMem_write h.1 ht) (ih h.2 hu)

/-! ## Listings -/

/-- A text that is read on its own, from some open brackets to others. -/
def TidyText (bare : Prop) (st st' cs : List Char) : Prop := Drawn bare .code false st st' cs

theorem TidyText.frame (h : TidyText bare st st' cs) (outer : List Char) :
    TidyText bare (st ++ outer) (st' ++ outer) cs := by
  obtain ⟨xs, hxs, hnest, hdash⟩ := h
  exact ⟨xs, hxs, nest_frame hnest outer, hdash⟩

/-- A line in which every literal ends that begins in it, and the brackets that are open change from
the first to the second list. -/
structure TidyLine (bare : Prop) (st st' : List Char) (ps : List Piece) : Prop where
  tidyText : ∀ s, writeAll ps = .ok s → TidyText bare st st' s.toList
  settled : ∀ p ∈ ps, Settled p

/-- The lines of a listing are tidy, from some open brackets and a level to others. No step out is
cut short at level zero. -/
inductive Tidy (bare : Prop) : List Char → Nat → List Char → Nat → Listing → Prop
  | nil : Tidy bare st n st n []
  | line : TidyLine bare st st₁ ps → Tidy bare st₁ n st' n' rows →
      Tidy bare st n st' n' (.line ps :: rows)
  | indent : Tidy bare st (n + 1) st' n' rows → Tidy bare st n st' n' (.indent :: rows)
  | dedent : Tidy bare st n st' n' rows → Tidy bare st (n + 1) st' n' (.dedent :: rows)

/-- Rows that close all brackets that they open, and end at the level at which they begin. -/
def Balanced (bare : Prop) (rows : Listing) : Prop := Tidy bare [] 0 [] 0 rows

namespace Tidy

variable {bare : Prop} {st st₁ st' : List Char} {n n₁ n' : Nat} {rows rows' : Listing}

theorem append (h : Tidy bare st n st₁ n₁ rows) (h' : Tidy bare st₁ n₁ st' n' rows') :
    Tidy bare st n st' n' (rows ++ rows') := by
  induction h with
  | nil => exact h'
  | line hr _ ih => exact line hr (ih h')
  | indent _ ih => exact indent (ih h')
  | dedent _ ih => exact dedent (ih h')

theorem frame (h : Tidy bare st n st' n' rows) (outer : List Char) (k : Nat) :
    Tidy bare (st ++ outer) (n + k) (st' ++ outer) (n' + k) rows := by
  induction h with
  | nil => exact nil
  | line hr _ ih => exact line ⟨fun s hs => (hr.tidyText s hs).frame outer, hr.settled⟩ ih
  | indent _ ih => exact indent (Nat.add_right_comm .. ▸ ih)
  | dedent _ ih => exact Nat.add_right_comm .. ▸ dedent ih

theorem single (h : TidyLine bare st st' ps) : Tidy bare st n st' n [Program.line ps] := line h nil

theorem settled (h : Tidy bare st n st' n' rows) : ∀ r ∈ rows, ∀ p ∈ r.pieces, Settled p := by
  induction h with
  | nil => exact List.forall_mem_nil _
  | line hr _ ih => exact List.forall_mem_cons.2 ⟨hr.settled, ih⟩
  | indent _ ih | dedent _ ih => exact List.forall_mem_cons.2 ⟨List.forall_mem_nil _, ih⟩

/-- The rows lead to the level that they are written at in the end. -/
theorem level_eq (h : Tidy bare st n st' n' rows) (hls : Written n m rows ls) : m = n' := by
  induction h generalizing ls with
  | nil =>
    cases hls
    rfl
  | line _ _ ih | indent _ ih | dedent _ ih =>
    cases hls
    exact ih ‹_›

end Tidy

namespace Balanced

variable {bare : Prop} {st : List Char} {rows rows' body : Listing}

theorem nil : Balanced bare [] := Tidy.nil

theorem append (h : Balanced bare rows) (h' : Balanced bare rows') :
    Balanced bare (rows ++ rows') :=
  Tidy.append h h'

theorem ite [Decidable c] (h : Balanced bare rows) (h' : Balanced bare rows') :
    Balanced bare (if c then rows else rows') := by
  split
  · exact h
  · exact h'

theorem flatMap {f : α → Listing} {xs : List α} (h : ∀ x ∈ xs, Balanced bare (f x)) :
    Balanced bare (xs.flatMap f) := by
  induction xs with
  | nil => exact nil
  | cons x xs ih =>
    rw [List.forall_mem_cons] at h
    exact h.1.append (ih h.2)

theorem map {f : α → Row} {xs : List α} (h : ∀ x ∈ xs, Balanced bare [f x]) :
    Balanced bare (xs.map f) := by
  rw [List.map_eq_flatMap]
  exact flatMap h

theorem indent (h : Balanced bare rows) (st : List Char) :
    Tidy bare st 0 st 0 (Program.indent rows) :=
  .indent ((h.frame st 1).append (.dedent .nil))

/-- A block closes what its header opens. -/
theorem blockTo (header : List Piece)
    (hopen : TidyLine bare [] st (if header.isEmpty then [r"{"] else header ++ [.code r" {"]))
    (hbody : Balanced bare body) (hclose : TidyLine bare st [] [.code close]) :
    Balanced bare (blockTo close header body) :=
  ((Tidy.single hopen).append (hbody.indent st)).append (.single hclose)

end Balanced

/-! ### Listings of mostly fixed text -/

/-- A row as it is read. -/
inductive Stroke
  | line (bits : List Bit)
  | indent
  | dedent

inductive ReadsAll (bare : Prop) : Listing → List Stroke → Prop
  | nil : ReadsAll bare [] []
  | line : Reads bare ps qs → ReadsAll bare rows qss →
      ReadsAll bare (.line ps :: rows) (.line qs :: qss)
  | indent : ReadsAll bare rows qss → ReadsAll bare (.indent :: rows) (.indent :: qss)
  | dedent : ReadsAll bare rows qss → ReadsAll bare (.dedent :: rows) (.dedent :: qss)

/-- The brackets that are open after some rows, and the level that is reached. -/
def outlineAll : List Char → Nat → List Stroke → Option (List Char × Nat)
  | st, n, [] => some (st, n)
  | st, n, .line qs :: qss => (outline .code false st qs).bind fun st' => outlineAll st' n qss
  | st, n, .indent :: qss => outlineAll st (n + 1) qss
  | st, n + 1, .dedent :: qss => outlineAll st n qss
  | _, 0, .dedent :: _ => none

theorem TidyLine.of_reads (hps : Reads bare ps qs) (hout : outline .code false st qs = some st') :
    TidyLine bare st st' ps :=
  ⟨fun _ hs => hps.drawn hout hs, hps.settled hout⟩

/-- The rows determine how they are read, and brackets and levels are found by evaluation. -/
theorem Tidy.of_reads (hreads : ReadsAll bare rows qss)
    (hout : outlineAll st n qss = some (st', n')) : Tidy bare st n st' n' rows := by
  induction hreads generalizing st n with
  | nil =>
    cases hout
    exact nil
  | line hps _ ih =>
    obtain ⟨st₁, hst₁, hout⟩ := Option.bind_eq_some_iff.1 hout
    exact line (.of_reads hps hst₁) (ih hout)
  | indent _ ih => exact indent (ih hout)
  | dedent _ ih =>
    cases n with
    | zero => cases hout
    | succ n => exact dedent (ih hout)

/-! ## The text of a listing -/

inductive TidyLines (bare : Prop) : List Char → List Char → List String → Prop
  | nil : TidyLines bare st st []
  | cons {l : String} : TidyText bare st st₁ l.toList → TidyLines bare st₁ st' ls →
      TidyLines bare st st' (l :: ls)

theorem isBlank_notMem_special (h : isBlank c = true) : c ∉ special :=
  notMem_of_all rfl h

theorem tidyText_blanks (h : ∀ c ∈ bs, isBlank c = true) (hcs : TidyText bare st st' cs) :
    TidyText bare st st' (bs ++ cs) := by
  have hspecial : ∀ c ∈ bs, c ∉ special := fun c hc => isBlank_notMem_special (h c hc)
  have hminus : '-' ∉ bs := fun hmem => absurd (h _ hmem) (by decide)
  have hdashes : dashes false bs = some false := by
    clear hspecial h
    induction bs with
    | nil => rfl
    | cons c bs ih =>
      rw [List.mem_cons, not_or] at hminus
      rw [dashes, if_neg (Ne.symm hminus.1), ih hminus.2]
  exact .code (sift_of_notMem_special hspecial) hdashes (nest_of_notMem_special hspecial st) hcs

/-- Blanks at the end of a text stand outside of its literals. -/
theorem eq_code_of_sift_blanks (h : ∀ c ∈ bs, isBlank c = true)
    (hs : sift m bs = some (.code, xs)) : m = .code := by
  induction bs generalizing m xs with
  | nil =>
    cases hs
    rfl
  | cons b bs ih =>
    rw [List.forall_mem_cons] at h
    obtain ⟨m', ys, hm', hys, rfl⟩ := sift_cons_iff.1 hs
    obtain rfl := ih h.2 hys
    cases m with
    | code => rfl
    | quoted q =>
      have hquote : b ≠ q.char := by
        rintro rfl
        cases q <;> exact absurd h.1 (by decide)
      rw [Mode.next] at hm'
      split_ifs at hm' <;> cases hm'
    | escaped q =>
      rw [Mode.next] at hm'
      split_ifs at hm'
      cases hm'

/-- Blanks around a text can be left out. -/
theorem TidyText.of_blanks (h : TidyText bare st st' (bs ++ (cs ++ bs')))
    (hbs : ∀ c ∈ bs, isBlank c = true) (hbs' : ∀ c ∈ bs', isBlank c = true) :
    TidyText bare st st' cs := by
  obtain ⟨zs, hzs, hnest, hdash⟩ := h
  have hspecial : ∀ c ∈ bs, c ∉ special := fun c hc => isBlank_notMem_special (hbs c hc)
  have hspecial' : ∀ c ∈ bs', c ∉ special := fun c hc => isBlank_notMem_special (hbs' c hc)
  obtain ⟨m, xs, ys, hxs, hys, rfl⟩ := sift_append_iff.1 hzs
  rw [sift_of_notMem_special hspecial] at hxs
  cases hxs
  obtain ⟨m', us, vs, hus, hvs, rfl⟩ := sift_append_iff.1 hys
  obtain rfl := eq_code_of_sift_blanks hbs' hvs
  rw [sift_of_notMem_special hspecial'] at hvs
  cases hvs
  rw [nest_append (nest_of_notMem_special hspecial st)] at hnest
  obtain ⟨st₁, hst₁, hnest⟩ := nest_append_iff.1 hnest
  rw [nest_of_notMem_special hspecial' st₁] at hnest
  cases hnest
  refine ⟨us, hus, hst₁, fun hbare => ⟨?_, nofun⟩⟩
  exact List.IsChain.infix (hdash hbare).1 ⟨bs, bs', by simp⟩

/-- A line has only blanks around what is left of it. -/
theorem exists_strip (l : String) : ∃ bs bs', (∀ c ∈ bs, isBlank c = true) ∧
    (∀ c ∈ bs', isBlank c = true) ∧ l.toList = bs ++ ((strip l).toList ++ bs') := by
  rw [Text.strip, String.toList_ofList, stripChars]
  generalize hcs : l.toList.dropWhile isBlank = cs
  generalize hds : cs.reverse.dropWhile isBlank = ds
  have hback : cs = ds.reverse ++ (cs.reverse.takeWhile isBlank).reverse := by
    rw [← List.reverse_append, ← hds, List.takeWhile_append_dropWhile, List.reverse_reverse]
  refine ⟨l.toList.takeWhile isBlank, (cs.reverse.takeWhile isBlank).reverse,
    List.all_eq_true.1 List.all_takeWhile, fun c hc => ?_, ?_⟩
  · exact List.all_eq_true.1 List.all_takeWhile c (List.mem_reverse.1 hc)
  · rw [← hback, ← hcs, List.takeWhile_append_dropWhile]

theorem TidyText.strip (h : TidyText bare st st' l.toList) :
    TidyText bare st st' (strip l).toList := by
  obtain ⟨bs, bs', hbs, hbs', hl⟩ := exists_strip l
  rw [hl] at h
  exact h.of_blanks hbs hbs'

theorem TidyText.indented (h : TidyText bare st st' s.toList) (n : Nat) :
    TidyText bare st st' (Sheet.indented "  " n s).toList := by
  unfold Sheet.indented
  split
  · next hempty => rwa [String.isEmpty_iff.1 hempty] at h
  · rw [String.toList_append]
    exact tidyText_blanks (fun c hc => spaces_repeated n c hc ▸ rfl) h

theorem Tidy.lines (h : Tidy bare st n st' n' rows) (hls : Written m m' rows ls) :
    TidyLines bare st st' ls := by
  induction h generalizing m ls with
  | nil =>
    cases hls
    exact .nil
  | line hr _ ih =>
    cases hls with
    | line hs hrest => exact .cons ((hr.tidyText _ hs).indented _) (ih hrest)
  | indent _ ih | dedent _ ih =>
    cases hls
    exact ih ‹_›

namespace TidyLines

variable {bare : Prop} {st st' : List Char} {ls : List String}

theorem minified (h : TidyLines bare st st' ls) :
    TidyLines bare st st' ((ls.map Text.strip).filter (!·.isEmpty)) := by
  induction h with
  | nil => exact nil
  | @cons st st₁ st' ls l hl _ ih =>
    have hstrip := hl.strip
    rw [List.map_cons, List.filter_cons]
    split
    · exact cons hstrip ih
    · next hempty =>
      -- no bracket is opened or closed in an empty line
      have : Text.strip l = "" := by simpa using hempty
      rw [this] at hstrip
      obtain ⟨xs, hxs, hnest, -⟩ := hstrip
      cases hxs
      cases hnest
      exact ih

theorem shown (h : TidyLines bare st st' ls) (minify : Bool) :
    TidyLines bare st st' (shown minify ls) := by
  cases minify
  · exact h
  · exact h.minified

theorem tidyText (h : TidyLines bare st st' ls) :
    TidyText bare st st' ("\n".intercalate ls).toList := by
  induction h with
  | nil => exact ⟨[], rfl, rfl, fun _ => ⟨.nil, nofun⟩⟩
  | @cons st st₁ st' ls l hl hls ih =>
    cases ls with
    | nil =>
      cases hls
      exact hl
    | cons l' ls =>
      rw [String.intercalate_cons_cons, String.toList_append, String.toList_append,
        String.toList_ofList, List.append_assoc]
      obtain ⟨xs, hxs, hnest, hdash⟩ := hl
      obtain ⟨ys, hys, hnest', hdash'⟩ := ih
      have hnewline : sift .code ['\n'] = some (.code, ['\n']) := rfl
      refine ⟨xs ++ '\n' :: ys, sift_append hxs (sift_append hnewline hys), ?_,
        fun hbare => ⟨?_, nofun⟩⟩
      · rw [nest_append hnest]
        exact hnest'
      · have hrest : Undoubled ('\n' :: ys) :=
          List.isChain_cons.2 ⟨fun _ _ hd => absurd hd.1 (by decide), (hdash' hbare).1⟩
        exact (hdash hbare).1.append hrest (.inr (by simp))

end TidyLines

/-- The text of a listing has a skeleton with the brackets of the listing. -/
theorem Tidy.exists_skeleton (h : Tidy bare st n st' n' rows) (hb : Listing.sheet rows = .ok b)
    (minify : Bool) :
    ∃ xs, sift .code (b.render minify).toList = some (.code, xs) ∧ nest st xs = some st' ∧
      (bare → Undoubled xs) := by
  rw [Sheet.render_eq]
  obtain ⟨xs, hxs, hnest, hdash⟩ := ((h.lines (written_of_sheet hb)).shown minify).tidyText
  exact ⟨xs, hxs, hnest, fun hbare => (hdash hbare).1⟩

end PlatformGame.Script
