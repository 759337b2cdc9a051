import PlatformGame.Proofs.Number.Meaning
import PlatformGame.Proofs.Program.Emitters
import PlatformGame.Proofs.Program.Occurrences

/-! # Numbers in a program

Wherever a number of the game stands in the program, it is a numeric literal with at most one minus
sign that means the number, if the number is finite. Around it there are no minus signs, with one
exception: the speed of a jump is the jump force with a minus sign in front, so that a jump force
below zero has two of them. -/

namespace PlatformGame

open Program Script Text

variable {s t : String} {n : Number} {cs : List Char} {rows : Listing} {g : Game} {ls : List String}
  {force : Int}

/-! ## The texts of numbers -/

theorem isBlank_of_isDigit (h : c.isDigit = true) : isBlank c = false := by
  have hbounds : 48 ≤ c.toNat ∧ c.toNat ≤ 57 := by
    simpa [Char.isDigit, UInt32.le_iff_toNat_le] using h
  simp [isBlank]
  omega

theorem Program.Solid.append (hc : Solid cs) (hd : ∀ d ∈ ds, isBlank d = false) :
    Solid (cs ++ ds) where
  ne_nil := List.append_ne_nil_of_left_ne_nil hc.ne_nil ds
  isBlank_eq_false := List.forall_mem_append.2 ⟨hc.isBlank_eq_false, hd⟩

theorem Program.Solid.signText_append (h : Solid cs) (negative : Bool) :
    Solid (signText negative ++ cs) := by
  refine ⟨List.append_ne_nil_of_right_ne_nil _ h.ne_nil, List.forall_mem_append.2 ⟨?_, h.2⟩⟩
  cases negative
  · exact List.forall_mem_nil _
  · exact List.forall_mem_singleton.2 rfl

theorem Numeric.solid_text (n : Numeric) : Solid n.text := by
  have hdigits {cs : List Char} (h : ∀ c ∈ cs, c.isDigit = true) : ∀ c ∈ cs, isBlank c = false :=
    fun c hc => isBlank_of_isDigit (h c hc)
  have hwhole : Solid n.whole := ⟨n.whole_digits.1, hdigits n.whole_digits.2⟩
  refine hwhole.append (List.forall_mem_append.2 ⟨?_, ?_⟩)
  · cases hf : n.fraction with
    | nil => exact List.forall_mem_nil _
    | cons c cs =>
      refine List.forall_mem_cons.2 ⟨rfl, hdigits fun d hd => n.fraction_digits d ?_⟩
      rwa [hf]
  · cases he : n.exponent with
    | none => exact List.forall_mem_nil _
    | some e =>
      obtain ⟨negative, ds⟩ := e
      refine List.forall_mem_cons.2 ⟨rfl, List.forall_mem_cons.2 ⟨?_, ?_⟩⟩
      · cases negative <;> rfl
      · exact hdigits (n.exponent_digits _ he).2

theorem solid_integerText {n : Int} (h : integerText n = .ok s) : Solid s.toList := by
  rw [toList_integerText h]
  exact (Numeric.solid_text _).signText_append _

theorem Binary64.solid_textWith (hinfinity : Solid infinity.toList) (hnan : Solid nanWord.toList)
    (x : Binary64) : Solid (x.textWith infinity nanWord).toList := by
  cases x with
  | finite s m e =>
    obtain ⟨num, hs, -⟩ := exists_numeric_textWith s m e infinity nanWord
    rw [hs]
    exact num.solid_text.signText_append s
  | infinite s =>
    have hs : ((infinite s).textWith infinity nanWord).toList = signText s ++ infinity.toList := by
      cases s <;> simp [textWith, signText]
    rw [hs]
    exact hinfinity.signText_append s
  | nan => exact hnan

theorem Number.solid_literal (h : n.literal = .ok s) : Solid s.toList := by
  cases n with
  | int k => exact solid_integerText h
  | float x =>
    rw [literal] at h
    split at h
    · exact solid_integerText h
    · cases h
      exact x.solid_textWith (.of_all (by decide) rfl) (.of_all (by decide) rfl)

theorem Json.solid_numberLiteral (h : numberLiteral n = .ok s) : Solid s.toList := by
  cases n with
  | int k => exact solid_integerText h
  | float x =>
    cases h
    exact x.solid_textWith (.of_all (by decide) rfl) (.of_all (by decide) rfl)

/-! ## Numbers in range -/

theorem Number.Bounded.inRange (h : n.Bounded) : n.InRange := by
  cases n with
  | int => trivial
  | float => exact h

theorem Program.Quantity.inRange {q : Quantity} (hq : ∀ n ∈ q.numbers, n.Bounded)
    (h : q.compute = .ok n) : n.InRange := by
  cases q with
  | value m =>
    cases h
    exact (List.forall_mem_singleton.1 hq).inRange
  | shifted m k =>
    cases h
    cases m with
    | int => trivial
    | float => exact Binary64.bounded_add _ _
  | middle start extent =>
    obtain ⟨x, -, h⟩ := bind_eq_ok.1 h
    obtain ⟨y, -, h⟩ := bind_eq_ok.1 h
    cases h
    exact Binary64.bounded_add _ _
  | centred extent width =>
    obtain ⟨x, -, h⟩ := bind_eq_ok.1 h
    cases h
    exact Binary64.bounded_add _ _
  | absent => cases h

/-! ## Where numbers stand -/

namespace Text

theorem literalBody_append (h : ds.head? ≠ some '/') (cs : List Char) :
    literalBody (cs ++ ds) = literalBody cs ++ literalBody ds := by
  fun_induction literalBody cs with
  | case1 => rfl
  | case2 cs ih => rw [List.cons_append, List.cons_append, literalBody, ih]; rfl
  | case3 c cs hne ih =>
    have hne' : ∀ es, c = '<' → cs ++ ds = '/' :: es → False := by
      intro es hc hes
      cases cs with
      | nil => exact h (by rw [show ds = '/' :: es from hes]; rfl)
      | cons d cs =>
        cases hes
        exact hne cs hc rfl
    rw [List.cons_append, literalBody, ih, List.append_assoc]
    exact hne'

/-- The characters of numbers stand in a literal as they are. -/
theorem literalBody_numerals_append (h : ∀ c ∈ cs, isNumeral c = true) (ds : List Char) :
    literalBody (cs ++ ds) = cs ++ literalBody ds := by
  induction cs with
  | nil => rfl
  | cons c cs ih =>
    rw [List.forall_mem_cons] at h
    have hc {d : Char} (hd : isNumeral d = false) : c ≠ d := by
      rintro rfl
      rw [h.1] at hd
      cases hd
    have hescape : escapeScriptChar c = [c] := by
      rw [escapeScriptChar, if_neg (hc rfl), if_neg (hc rfl), if_neg (hc rfl), if_neg (hc rfl),
        if_neg (hc rfl)]
    rw [List.cons_append, literalBody, hescape, ih h.2]
    · rfl
    · exact fun _ hlt => absurd hlt (hc rfl)

end Text

theorem infix_intercalate {sep : String} {ts : List String} (h : t ∈ ts) :
    t.toList <:+: (sep.intercalate ts).toList := by
  induction ts with
  | nil => cases h
  | cons u ts ih =>
    cases ts with
    | nil =>
      obtain rfl := List.mem_singleton.1 h
      simp
    | cons v ts =>
      rw [String.intercalate_cons_cons, String.toList_append, String.toList_append]
      rcases List.mem_cons.1 h with rfl | h
      · rw [List.append_assoc]
        exact (List.prefix_append _ _).isInfix
      · exact (ih h).trans (List.suffix_append _ _).isInfix

mutual

/-- A number of a value is written in the text of the value. -/
theorem Json.exists_numberLiteral_of_compact : ∀ {j : Json} {s : String}, j.compact = .ok s →
    ∀ n ∈ j.numbersIn, ∃ t, numberLiteral n = .ok t ∧ t.toList <:+: s.toList
  | .null, _, _ | .bool _, _, _ | .text _, _, _ => List.forall_mem_nil _
  | .number _, s, h => List.forall_mem_singleton.2 ⟨s, h, List.infix_refl _⟩
  | .list xs, s, h => by
    obtain ⟨ts, hts, hs⟩ := compact_list h
    intro n hn
    obtain ⟨t, ht, u, hu, hin⟩ := exists_numberLiteral_of_compactAll hts n hn
    exact ⟨t, ht, hs ▸ (hin.trans (infix_intercalate hu)).trans (List.infix_append ['['] _ [']'])⟩
  | .object ms, s, h => by
    obtain ⟨ts, hts, hs⟩ := compact_object h
    intro n hn
    obtain ⟨t, ht, u, hu, hin⟩ := exists_numberLiteral_of_compactMembers hts n hn
    exact ⟨t, ht,
      hs ▸ (hin.trans (infix_intercalate hu)).trans (List.infix_append ['{'] _ ['}'])⟩

theorem Json.exists_numberLiteral_of_compactAll : ∀ {xs : List Json} {ts : List String},
    compactAll xs = .ok ts → ∀ n ∈ numbersInAll xs, ∃ t, numberLiteral n = .ok t ∧
      ∃ s ∈ ts, t.toList <:+: s.toList
  | [], _, _ => List.forall_mem_nil _
  | x :: xs, ts, h => by
    obtain ⟨s, us, hs, hus, rfl⟩ := compactAll_cons h
    refine List.forall_mem_append.2 ⟨fun n hn => ?_, fun n hn => ?_⟩
    · obtain ⟨t, ht, hin⟩ := exists_numberLiteral_of_compact hs n hn
      exact ⟨t, ht, s, List.mem_cons_self, hin⟩
    · obtain ⟨t, ht, u, hu, hin⟩ := exists_numberLiteral_of_compactAll hus n hn
      exact ⟨t, ht, u, List.mem_cons_of_mem _ hu, hin⟩

theorem Json.exists_numberLiteral_of_compactMembers : ∀ {ms : List (String × Json)}
    {ts : List String}, compactMembers ms = .ok ts → ∀ n ∈ numbersInMembers ms, ∃ t,
      numberLiteral n = .ok t ∧ ∃ s ∈ ts, t.toList <:+: s.toList
  | [], _, _ => List.forall_mem_nil _
  | (k, x) :: ms, ts, h => by
    obtain ⟨s, us, hs, hus, rfl⟩ := compactMembers_cons h
    refine List.forall_mem_append.2 ⟨fun n hn => ?_, fun n hn => ?_⟩
    · obtain ⟨t, ht, hin⟩ := exists_numberLiteral_of_compact hs n hn
      refine ⟨t, ht, _, List.mem_cons_self, hin.trans ?_⟩
      rw [String.toList_append]
      exact (List.suffix_append _ _).isInfix
    · obtain ⟨t, ht, u, hu, hin⟩ := exists_numberLiteral_of_compactMembers hus n hn
      exact ⟨t, ht, u, List.mem_cons_of_mem _ hu, hin⟩

end

namespace Program

/-- The numbers that a piece has, each with its text. -/
def Piece.interpolations : Piece → List (Except NumberError (Number × String))
  | number q => [do
      let n ← q.compute
      pure (n, ← n.literal)]
  | labelled _ n _ => [do pure (n, ← n.literal)]
  | payload j => j.numbersIn.map fun n => do pure (n, ← Json.numberLiteral n)
  | code _ | literal _ | name _ | html _ => []

theorem infix_scriptLiteral (hs : Numerals s) (hne : s.toList ≠ []) (before after : String) :
    s.toList <:+: (scriptLiteral (before ++ s ++ after)).toList := by
  have hhead : (s.toList ++ after.toList).head? ≠ some '/' := by
    rw [List.head?_append_of_ne_nil _ hne]
    intro hslash
    exact absurd (hs _ (List.mem_of_mem_head? hslash)) (by decide)
  rw [toList_scriptLiteral, String.toList_append, String.toList_append, List.append_assoc,
    literalBody_append hhead, literalBody_numerals_append hs]
  exact ⟨'\'' :: literalBody before.toList, literalBody after.toList ++ ['\''], by simp⟩

/-- Every number of a piece is conveyed by the text of the piece. -/
theorem Piece.Holds.conveyed {texts : List String} {computes : Quantity → Prop} {p : Piece}
    (h : p.Holds texts computes) (ht : p.write = .ok t) :
    ∀ x ∈ p.interpolations, ∃ n s, x = .ok (n, s) ∧ Solid s.toList ∧ s.toList <:+: t.toList ∧
      n.Conveyed s.toList := by
  cases p with
  | code | literal | name | html => exact List.forall_mem_nil _
  | number q =>
    obtain ⟨n, hn, ht⟩ := bind_eq_ok.1 ht
    refine List.forall_mem_singleton.2 ⟨n, t, ?_, ?_, List.infix_refl _, ?_⟩
    · rw [hn]
      exact congrArg (· >>= fun s => pure (n, s)) ht
    · exact Number.solid_literal ht
    · exact Number.conveyed_literal (q.inRange h.1 hn) ht
  | labelled before n after =>
    obtain ⟨s, hs, ht⟩ := bind_eq_ok.1 ht
    cases ht
    have hsolid := Number.solid_literal hs
    refine List.forall_mem_singleton.2 ⟨n, s, by rw [hs]; rfl, hsolid, ?_, ?_⟩
    · exact infix_scriptLiteral (Number.numerals_literal hs) hsolid.ne_nil before after
    · exact Number.conveyed_literal h.2.1.inRange hs
  | payload j =>
    refine List.forall_mem_map.2 fun n hn => ?_
    obtain ⟨s, hs, hin⟩ := Json.exists_numberLiteral_of_compact ht n hn
    refine ⟨n, s, by rw [hs]; rfl, Json.solid_numberLiteral hs, hin, ?_⟩
    exact Json.conveyed_numberLiteral (h.2 n hn).inRange hs

theorem infix_writeAll (hp : p ∈ ps) (hs : writeAll ps = .ok s) (ht : p.write = .ok t) :
    t.toList <:+: s.toList := by
  induction ps generalizing s with
  | nil => cases hp
  | cons q ps ih =>
    obtain ⟨u, v, hu, hv, hs⟩ := writeAll_cons hs
    rw [hs]
    rcases List.mem_cons.1 hp with rfl | hp
    · rw [hu] at ht
      cases ht
      exact (List.prefix_append _ _).isInfix
    · exact (ih hp hv).trans (List.suffix_append _ _).isInfix

/-- Every number of a listing is conveyed by the text of the listing. -/
theorem HoldsAll.conveyed {texts : List String} {computes : Quantity → Prop}
    (h : HoldsAll texts computes rows) {b : Sheet} (hb : rows.sheet = .ok b) (minify : Bool) :
    ∀ r ∈ rows, ∀ p ∈ r.pieces, ∀ x ∈ p.interpolations, ∃ n s, x = .ok (n, s) ∧
      s.toList <:+: (b.render minify).toList ∧ n.Conveyed s.toList := by
  intro r hr p hp x hx
  have hwrites := (written_of_sheet hb).writes r hr
  obtain ⟨t, ht⟩ := hwrites p hp
  obtain ⟨u, hu⟩ := writeAll_eq_ok_iff.2 hwrites
  obtain ⟨n, s, hxs, hsolid, hin, hconveyed⟩ := (h r hr p hp).conveyed ht x hx
  refine ⟨n, s, hxs, (hsolid.infix_render_iff hb minify).2 ⟨r, hr, u, hu, ?_⟩, hconveyed⟩
  exact hin.trans (infix_writeAll hp hu ht)

/-! ## The jump -/

/-- The row in which the player jumps. -/
def jumpPieces (p : Player) : List Piece :=
  ["this.player.setVelocityY(-", num p.jumpForce, ");"]

theorem hasRow_playerUpdate (p : Player) : HasRow (· = jumpPieces p) (playerUpdate p) := by
  unfold playerUpdate
  simp only [HasRow.append]
  refine .inr (.block _ ?_)
  simp only [HasRow.append]
  exact .inl (.inl ⟨_, List.mem_singleton_self _, rfl⟩)

theorem hasRow_programListing (h : g.levels ≠ []) :
    HasRow (· = jumpPieces g.player) (programListing g) := by
  obtain ⟨l, hl⟩ := List.exists_mem_of_ne_nil _ h
  refine .programListing hl fun index => .block _ ?_
  have hplayer := hasRow_playerUpdate g.player
  have hupdate : HasRow (· = jumpPieces g.player) (levelUpdate g l) := by
    refine .block _ ?_
    simp only [HasRow.append, hplayer, or_true, true_or]
  simp only [HasRow.append, hupdate, or_true, true_or]

def jumpCall : List Char := "this.player.setVelocityY(".toList

/-- The text of that row. -/
def jumpText (s : String) : List Char := jumpCall ++ ('-' :: (s.toList ++ [')', ';']))

theorem writeAll_jumpPieces (h : writeAll (jumpPieces p) = .ok s) :
    ∃ t, p.jumpForce.literal = .ok t ∧ s.toList = jumpText t := by
  obtain ⟨u, v, hu, hv, hs⟩ := writeAll_cons h
  obtain ⟨t, w, ht, hw, hv⟩ := writeAll_cons hv
  obtain ⟨x, y, hx, hy, hw⟩ := writeAll_cons hw
  have hfront : u.toList = jumpCall ++ ['-'] := by
    rw [← Except.ok.inj hu]
    rfl
  have hback : x.toList = [')', ';'] := by
    rw [← Except.ok.inj hx]
    rfl
  have hend : y.toList = [] := by
    rw [← Except.ok.inj hy]
    rfl
  refine ⟨t, ht, ?_⟩
  rw [hs, hv, hw, hfront, hback, hend, jumpText, List.append_nil, List.append_assoc]
  rfl

theorem solid_jumpText (h : n.literal = .ok s) : Solid (jumpText s) := by
  have hcall : Solid jumpCall := .of_all (by decide) rfl
  refine hcall.append (List.forall_mem_cons.2 ⟨rfl, List.forall_mem_append.2 ⟨?_, ?_⟩⟩)
  · exact (Number.solid_literal h).isBlank_eq_false
  · exact List.forall_mem_cons.2 ⟨rfl, List.forall_mem_singleton.2 rfl⟩

theorem sift_jumpText (h : n.literal = .ok s) :
    sift .code (jumpText s) = some (.code, jumpText s) := by
  have hcall : sift .code jumpCall = some (.code, jumpCall) := rfl
  have hminus : sift .code ['-'] = some (.code, ['-']) := rfl
  have hback : sift .code [')', ';'] = some (.code, [')', ';']) := rfl
  have hnumber : sift .code s.toList = some (.code, s.toList) :=
    sift_of_notMem_special fun c hc => notMem_of_all rfl (Number.numerals_literal h c hc)
  exact sift_append hcall (sift_append hminus (sift_append hnumber hback))

/-- A jump force below zero brings its own minus sign. -/
theorem minus_infix_jumpText (h : n.literal = .ok s) (hneg : n.isNegative = true) :
    ['-', '-'] <:+: jumpText s := by
  obtain ⟨cs, hcs, -⟩ := Number.exists_magnitude h
  refine ⟨jumpCall, cs ++ [')', ';'], ?_⟩
  rw [jumpText, hcs, hneg, List.append_assoc]
  rfl

theorem exists_mem_lines {n n' : Nat} (hls : Written n n' rows ls) {r : Row} (hr : r ∈ rows)
    (hs : writeAll r.pieces = .ok s) (hne : s ≠ "") : ∃ k, Sheet.indented "  " k s ∈ ls := by
  induction rows generalizing n ls with
  | nil => cases hr
  | cons r' rows ih =>
    obtain ⟨s', _, us, hs', hus, hline⟩ := hls.cons
    rcases List.mem_cons.1 hr with rfl | hr
    · cases hs.symm.trans hs'
      obtain rfl | ⟨hempty, -⟩ := hline
      · exact ⟨n, List.mem_cons_self⟩
      · exact absurd hempty hne
    · obtain ⟨k, hk⟩ := ih hus hr
      obtain rfl | ⟨-, rfl⟩ := hline
      · exact ⟨k, List.mem_cons_of_mem _ hk⟩
      · exact ⟨k, hk⟩

/-- A row without blanks is shown with blanks in front, if any. -/
theorem exists_mem_shown (hs : Solid s.toList) {n : Nat} (hl : Sheet.indented "  " n s ∈ ls)
    (minify : Bool) :
    ∃ l ∈ shown minify ls, ∃ bs, (∀ c ∈ bs, isBlank c = true) ∧ l.toList = bs ++ s.toList := by
  have hframed : framed s.toList = true := by
    have hhead := hs.isBlank_eq_false _ (List.head_mem hs.ne_nil)
    have hlast := hs.isBlank_eq_false _ (List.getLast_mem hs.ne_nil)
    simp [framed, List.head?_eq_some_head hs.ne_nil, List.getLast?_eq_some_getLast hs.ne_nil, hhead,
      hlast]
  cases minify with
  | false =>
    refine ⟨_, hl, (Sheet.repeated "  " n).toList, fun c hc => spaces_repeated n c hc ▸ rfl, ?_⟩
    rw [Sheet.indented, if_neg (by simpa using hs.ne_nil), String.toList_append]
  | true =>
    have hstrip := strip_indented hframed n
    rw [String.ofList_toList] at hstrip
    refine ⟨s, List.mem_filter.2 ⟨List.mem_map.2 ⟨_, hl, hstrip⟩, by simpa using hs.ne_nil⟩, [],
      List.forall_mem_nil _, rfl⟩

end Program

namespace Script

/-- The skeleton of a line is a part of the skeleton of the text. -/
theorem TidyLines.infix_skeleton (h : TidyLines bare st st' ls) (hl : l ∈ ls)
    (hys : sift .code l.toList = some (.code, ys)) :
    ∃ xs, sift .code ("\n".intercalate ls).toList = some (.code, xs) ∧ ys <:+: xs := by
  induction h with
  | nil => cases hl
  | @cons st st₁ st' ls k hk hls ih =>
    cases ls with
    | nil =>
      obtain rfl := List.mem_singleton.1 hl
      exact ⟨ys, by simpa using hys, List.infix_refl _⟩
    | cons l' ls =>
      rw [String.intercalate_cons_cons, String.toList_append, String.toList_append,
        String.toList_ofList, List.append_assoc]
      have hnewline : sift .code ['\n'] = some (.code, ['\n']) := rfl
      rcases List.mem_cons.1 hl with rfl | hl
      · obtain ⟨zs, hzs, -⟩ := hls.tidyText
        exact ⟨_, sift_append hys (sift_append hnewline hzs), (List.prefix_append _ _).isInfix⟩
      · obtain ⟨us, hus, -⟩ := hk
        obtain ⟨xs, hxs, hin⟩ := ih hl
        refine ⟨_, sift_append hus (sift_append hnewline hxs), hin.trans ?_⟩
        exact ((List.suffix_cons _ _).trans (List.suffix_append _ _)).isInfix

/-- The skeleton of a row without blanks is a part of the skeleton of the listing. -/
theorem Balanced.infix_skeleton {bare : Prop} (h : Balanced bare rows) {b : Sheet}
    (hb : rows.sheet = .ok b) {r : Row} (hr : r ∈ rows) (hs : writeAll r.pieces = .ok s)
    (hsolid : Solid s.toList) {ys : List Char} (hys : sift .code s.toList = some (.code, ys))
    (minify : Bool) :
    ∃ xs, sift .code (b.render minify).toList = some (.code, xs) ∧ ys <:+: xs := by
  have hls := written_of_sheet hb
  obtain ⟨k, hk⟩ := exists_mem_lines hls hr hs fun hempty => hsolid.ne_nil (by simp [hempty])
  obtain ⟨l, hl, bs, hbs, hline⟩ := exists_mem_shown hsolid hk minify
  have hblanks : sift .code bs = some (.code, bs) :=
    sift_of_notMem_special fun c hc => isBlank_notMem_special (hbs c hc)
  have hsift : sift .code l.toList = some (.code, bs ++ ys) := by
    rw [hline]
    exact sift_append hblanks hys
  obtain ⟨xs, hxs, hin⟩ := ((Tidy.lines h hls).shown minify).infix_skeleton hl hsift
  rw [Sheet.render_eq]
  exact ⟨xs, hxs, (List.suffix_append bs ys).isInfix.trans hin⟩

theorem not_infix_of_undoubled (h : Undoubled xs) : ¬ ['-', '-'] <:+: xs := by
  intro hin
  have hchain := List.IsChain.infix h hin
  rw [List.isChain_cons_cons] at hchain
  exact hchain.1 ⟨rfl, rfl⟩

end Script

/-- Outside of its literals, a program holds two minus signs next to each other exactly if the
player jumps in it with a force below zero. -/
theorem exists_skeleton_script (h : g.script minify = .ok script) :
    ∃ xs, sift .code script.toList = some (.code, xs) ∧
      (['-', '-'] <:+: xs ↔ g.levels ≠ [] ∧ g.player.jumpForce.isNegative = true) := by
  obtain ⟨b, hb, h⟩ := bind_eq_ok.1 h
  cases h
  by_cases hjump : g.levels ≠ [] ∧ g.player.jumpForce.isNegative = true
  · obtain ⟨r, hr, hpieces⟩ := hasRow_programListing hjump.1
    obtain ⟨s, hs⟩ := writeAll_eq_ok_iff.2 ((written_of_sheet hb).writes r hr)
    rw [hpieces] at hs
    obtain ⟨t, ht, hst⟩ := writeAll_jumpPieces hs
    have hbalanced : Balanced False (programListing g) := balanced_programListing g False.elim
    obtain ⟨xs, hxs, hin⟩ := hbalanced.infix_skeleton hb hr (hpieces ▸ hs)
      (hst ▸ solid_jumpText ht) (hst ▸ sift_jumpText ht) minify
    exact ⟨xs, hxs, iff_of_true ((minus_infix_jumpText ht hjump.2).trans (hst ▸ hin)) hjump⟩
  · have hbalanced : Balanced True (programListing g) :=
      balanced_programListing g fun _ hlevels =>
        Bool.eq_false_iff.2 fun hneg => hjump ⟨hlevels, hneg⟩
    obtain ⟨xs, hxs, -, hdash⟩ := hbalanced.exists_skeleton hb minify
    exact ⟨xs, hxs, iff_of_false (not_infix_of_undoubled (hdash trivial)) hjump⟩

/-- In every level the player jumps with the jump force and a minus sign in front. -/
theorem exists_jumpText (hg : g.Proper) (hlevels : g.levels ≠ [])
    (h : g.script minify = .ok script) :
    ∃ s, g.player.jumpForce.literal = .ok s ∧ jumpText s <:+: script.toList ∧
      g.player.jumpForce.Negated ('-' :: s.toList) := by
  obtain ⟨b, hb, h⟩ := bind_eq_ok.1 h
  cases h
  obtain ⟨r, hr, hpieces⟩ := hasRow_programListing hlevels
  obtain ⟨t, ht⟩ := writeAll_eq_ok_iff.2 ((written_of_sheet hb).writes r hr)
  obtain ⟨s, hs, hts⟩ := writeAll_jumpPieces (hpieces ▸ ht)
  refine ⟨s, hs, ?_, Number.negated_minus_literal hg.player.jumpForce.inRange hs⟩
  exact ((solid_jumpText hs).infix_render_iff hb _).2 ⟨r, hr, t, ht, hts ▸ List.infix_refl _⟩

theorem Program.Frame.infix_fill (f : Frame) (title url script : List Char) :
    script <:+: f.fill title url script :=
  ⟨f.prologue ++ titleMark ++ title ++ titleEnd ++ f.style ++ engineMark ++ url ++ engineEnd ++
    Frame.opening, Frame.closing, by simp [Frame.fill, Frame.lead]⟩

/-! ### A game with a jump -/

def jumpDraft (force : Int) : Draft :=
  { title := some "t", player := some { jumpForce := some (.int force) },
    levels := [{ name := "l" }] }

theorem written_jumpDraft (h : force.natAbs < 10 ^ 3) :
    (jumpDraft force).Written Number.Whole True where
  title := rfl
  config := by simp [jumpDraft]
  assets := List.forall_mem_nil _
  player := by
    rintro _ ⟨⟩
    have hforce : (Number.int force).Whole := ⟨force, rfl, Number.bounded_int h⟩
    exact ⟨by simp, by simp, by simp, by simpa using hforce, by simp, by simp [Draft.WrittenClips]⟩
  enemies := List.forall_mem_nil _
  collectibles := List.forall_mem_nil _
  levels := by
    refine List.forall_mem_singleton.2 ⟨by simp, by simp, by simp, ?_, ?_, ?_, by simp⟩
    all_goals exact List.forall_mem_nil _
  hud := by simp [jumpDraft]
  rules := by simp [jumpDraft]
  sounds := by simp [jumpDraft]

theorem readGame_jumpDraft (h : force.natAbs < 10 ^ 3) :
    (readGame (jumpDraft force).print).outcome = .ok (jumpDraft force).complete :=
  readGame_print (written_jumpDraft h)

theorem compile_jumpDraft (h : force.natAbs < 10 ^ 3)
    (ha : (jumpDraft force).complete.artifactFor (.ok {}) = .ok a) :
    (compile (jumpDraft force).print (.ok {})).outcome = .ok a :=
  bind_eq_ok.2 ⟨_, readGame_jumpDraft h, ha⟩

/-- Where a text compiles, every number of its game stands in the program as a numeric literal that
means the number, if it is finite. Two minus signs stand next to each other, outside of literals,
exactly if there is a level and the jump force is below zero. The speed of a jump is a literal for
the jump force with its sign changed, unless the jump force is below zero or not finite. -/
theorem conveyed_of_compile {source : String} {options : Except OptionError Options}
    {a : Artifact} (h : (compile source options).outcome = .ok a) :
    ∃ g o script, (readGame source).outcome = .ok g ∧ options = .ok o ∧
      g.script o.minify.isTrue = .ok script ∧ script.toList <:+: a.page.toList ∧
      (∀ r ∈ programListing g, ∀ p ∈ r.pieces, ∀ x ∈ p.interpolations, ∃ n s, x = .ok (n, s) ∧
        s.toList <:+: script.toList ∧ n.Conveyed s.toList) ∧
      (∃ xs, sift .code script.toList = some (.code, xs) ∧
        (['-', '-'] <:+: xs ↔ g.levels ≠ [] ∧ g.player.jumpForce.isNegative = true)) ∧
      (g.levels ≠ [] → ∃ s, g.player.jumpForce.literal = .ok s ∧
        jumpText s <:+: script.toList ∧ g.player.jumpForce.Negated ('-' :: s.toList)) := by
  obtain ⟨g, o, url, hg, ho, -, hpage⟩ := exists_page_of_compile h
  obtain ⟨f, script, hscript, hfill⟩ := exists_frame hpage
  have hproper := proper_of_readGame hg
  refine ⟨g, o, script, hg, ho, hscript, hfill ▸ f.infix_fill _ _ _, ?_,
    exists_skeleton_script hscript, fun hlevels => exists_jumpText hproper hlevels hscript⟩
  obtain ⟨b, hb, hscript⟩ := bind_eq_ok.1 hscript
  cases hscript
  exact (holdsAll_programListing hproper).conveyed hb _

/-- A player jumps with a force of five. -/
theorem conveyed_of_compile_five :
    let source := r#"game "t" { assets { } player { jumpForce : 5 , } "# ++
      r#"level "l" { enemies : [ ] , collectibles : [ ] , platforms : [ ] , } }"#
    ∃ a, (compile source (.ok {})).outcome = .ok a ∧
      ∃ script, script <:+: a.page.toList ∧ jumpText "5" <:+: script ∧
        (∃ v, SignedLiteral "-5".toList (-v) ∧ (Number.int 5).Means v) ∧
        ∃ xs, sift .code script = some (.code, xs) ∧ ¬ ['-', '-'] <:+: xs := by
  intro source
  have hsource : (jumpDraft 5).print = source := by decide +kernel
  obtain ⟨a, ha⟩ : ∃ a, (jumpDraft 5).complete.artifactFor (.ok {}) = .ok a :=
    exists_of_isOk (by decide +kernel)
  have hsmall : (5 : Int).natAbs < 10 ^ 3 := by decide
  have hcompile := compile_jumpDraft hsmall ha
  obtain ⟨g, o, script, hg, -, -, hpage, -, ⟨xs, hxs, hdash⟩, hjump⟩ := conveyed_of_compile hcompile
  cases hg.symm.trans (readGame_jumpDraft hsmall)
  obtain ⟨s, hs, htext, hnegated⟩ := hjump (List.cons_ne_nil _ _)
  cases hs
  refine ⟨a, hsource ▸ hcompile, script.toList, hpage, htext, hnegated.literal rfl rfl, xs, hxs, ?_⟩
  rw [hdash]
  exact fun hneg => absurd hneg.2 (by decide)

/-- A player jumps with a force below zero. -/
theorem exists_minus_infix_program :
    let source := r#"game "t" { assets { } player { jumpForce : -5 , } "# ++
      r#"level "l" { enemies : [ ] , collectibles : [ ] , platforms : [ ] , } }"#
    ∃ a g script xs, (compile source (.ok {})).outcome = .ok a ∧
      (readGame source).outcome = .ok g ∧ g.script false = .ok script ∧
      sift .code script.toList = some (.code, xs) ∧ ['-', '-'] <:+: xs ∧
      jumpText "-5" <:+: script.toList ∧ ∀ v, ¬ SignedLiteral "--5".toList v := by
  intro source
  have hsource : (jumpDraft (-5)).print = source := by decide +kernel
  obtain ⟨a, ha⟩ : ∃ a, (jumpDraft (-5)).complete.artifactFor (.ok {}) = .ok a :=
    exists_of_isOk (by decide +kernel)
  have hsmall : (-5 : Int).natAbs < 10 ^ 3 := by decide
  have hgame := readGame_jumpDraft hsmall
  obtain ⟨script, hscript⟩ : ∃ script, (jumpDraft (-5)).complete.script false = .ok script :=
    exists_of_isOk (by decide +kernel)
  obtain ⟨xs, hxs, hdash⟩ := exists_skeleton_script hscript
  obtain ⟨s, hs, htext, hnegated⟩ :=
    exists_jumpText (proper_of_readGame hgame) (List.cons_ne_nil _ _) hscript
  cases hs
  exact ⟨a, _, script, xs, hsource ▸ compile_jumpDraft hsmall ha, hsource ▸ hgame, hscript, hxs,
    hdash.2 ⟨List.cons_ne_nil _ _, rfl⟩, htext, hnegated.other (.inr rfl)⟩

end PlatformGame
