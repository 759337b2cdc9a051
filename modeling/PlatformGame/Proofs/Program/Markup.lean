import PlatformGame.Compile.Artifact
import PlatformGame.Proofs.Draft.Origin
import PlatformGame.Proofs.Program.Brackets

/-! # The page around a program

A page is a frame of fixed lines around the title of the game, the address of the engine and the
program of the game (`exists_frame`). The closing tags of a page are those of its frame, whatever
the game and the options are: the title and the address are escaped, and nothing in the program
closes its element (`closingTags_page`). -/

namespace PlatformGame.Program

open Text

/-! ## Lines of fixed text -/

/-- Pieces outside of a program, with the characters that are written for them. -/
inductive Shows : List Piece → List Char → Prop
  | nil : Shows [] []
  | code : Shows ps ds → Shows (.code (String.ofList cs) :: ps) (cs ++ ds)
  | html : Shows ps ds → Shows (.html s :: ps) ((escapeHtml s).toList ++ ds)

theorem Shows.writeAll_eq (h : Shows ps cs) : writeAll ps = .ok (String.ofList cs) := by
  induction h with
  | nil => rfl
  | @code ps ds cs _ ih =>
    rw [writeAll, ih, String.ofList_append]
    rfl
  | @html ps ds s _ ih =>
    rw [writeAll, ih, String.ofList_append, String.ofList_toList]
    rfl

/-- Whether a text begins and ends with something else than a blank. -/
def framed (cs : List Char) : Bool :=
  cs.head?.any (!isBlank ·) && cs.getLast?.any (!isBlank ·)

theorem framed_ne_nil (h : framed cs = true) : cs ≠ [] := by
  rintro rfl
  cases h

theorem framed_append (ha : as.head?.any (!isBlank ·) = true)
    (hc : cs.getLast?.any (!isBlank ·) = true) : framed (as ++ (bs ++ cs)) = true := by
  cases as with
  | nil => cases ha
  | cons a as =>
    cases hlast : cs.getLast? with
    | none => simp [hlast] at hc
    | some c =>
      have ha : isBlank a = false := by simpa using ha
      have hc : isBlank c = false := by simpa [hlast] using hc
      simp [framed, List.getLast?_append, List.getLast?_cons, hlast, ha, hc]

theorem dropWhile_isBlank {cs : List Char} (h : cs.head?.any (!isBlank ·) = true) :
    cs.dropWhile isBlank = cs := by
  cases cs with
  | nil => rfl
  | cons c cs =>
    have hc : isBlank c = false := by simpa using h
    rw [List.dropWhile_cons_of_neg (by simp [hc])]

theorem stripChars_append (hbs : ∀ b ∈ bs, isBlank b = true) (h : framed cs = true) :
    stripChars (bs ++ cs) = cs := by
  rw [framed, Bool.and_eq_true, ← List.head?_reverse] at h
  rw [stripChars, List.dropWhile_append_of_pos hbs, dropWhile_isBlank h.1, dropWhile_isBlank h.2,
    List.reverse_reverse]

theorem toList_repeated (n : Nat) :
    (Sheet.repeated "  " n).toList = List.replicate (n * 2) ' ' := by
  have hunit : "  ".toList = List.replicate 2 ' ' := String.toList_ofList
  rw [Sheet.repeated, String.toList_join, List.flatMap_replicate, hunit,
    List.flatten_replicate_replicate]

theorem indented_framed (h : framed cs = true) (n : Nat) :
    Sheet.indented "  " n (String.ofList cs) =
      String.ofList (List.replicate (n * 2) ' ' ++ cs) := by
  have hempty : (String.ofList cs).isEmpty = false := by simpa using framed_ne_nil h
  rw [Sheet.indented, hempty, ← toList_repeated, String.ofList_append, String.ofList_toList]
  rfl

theorem strip_indented (h : framed cs = true) (n : Nat) :
    strip (Sheet.indented "  " n (String.ofList cs)) = String.ofList cs := by
  have hblanks : ∀ b ∈ List.replicate (n * 2) ' ', isBlank b = true :=
    fun b hb => List.eq_of_mem_replicate hb ▸ rfl
  rw [indented_framed h, strip, String.toList_ofList, stripChars_append hblanks h]

/-- The indentation of a line. -/
def margin (minify : Bool) (depth : Nat) : List Char :=
  if minify then [] else List.replicate (depth * 2) ' '

/-- Lines, each with its newline. -/
def textOf (minify : Bool) (ls : List (Nat × List Char)) : List Char :=
  ls.flatMap fun l => margin minify l.1 ++ l.2 ++ ['\n']

/-- Rows outside of a program, with the characters of their lines, from one level to another. -/
inductive ShowsAll : Nat → Nat → Listing → List (Nat × List Char) → Prop
  | nil : ShowsAll n n [] []
  | line : Shows ps cs → framed cs = true → ShowsAll n n' rows ls →
      ShowsAll n n' (.line ps :: rows) ((n, cs) :: ls)
  | indent : ShowsAll (n + 1) n' rows ls → ShowsAll n n' (.indent :: rows) ls
  | dedent : ShowsAll n n' rows ls → ShowsAll (n + 1) n' (.dedent :: rows) ls

namespace ShowsAll

theorem append (h : ShowsAll n m rows ls) (h' : ShowsAll m n' rows' ls') :
    ShowsAll n n' (rows ++ rows') (ls ++ ls') := by
  induction h with
  | nil => exact h'
  | line hps hcs _ ih => exact .line hps hcs (ih h')
  | indent _ ih => exact .indent (ih h')
  | dedent _ ih => exact .dedent (ih h')

theorem written_eq (h : ShowsAll n n' rows ls) (hw : Written n m rows ls') :
    m = n' ∧ ls' = ls.map fun l => Sheet.indented "  " l.1 (String.ofList l.2) := by
  induction h generalizing ls' with
  | nil =>
    cases hw
    exact ⟨rfl, rfl⟩
  | line hps _ _ ih =>
    cases hw with
    | line hs hrest =>
      obtain ⟨rfl, rfl⟩ := ih hrest
      cases hps.writeAll_eq.symm.trans hs
      exact ⟨rfl, rfl⟩
  | indent _ ih | dedent _ ih =>
    cases hw
    exact ih ‹_›

theorem shown_eq (h : ShowsAll n n' rows ls) (minify : Bool) :
    shown minify (ls.map fun l => Sheet.indented "  " l.1 (String.ofList l.2)) =
      ls.map fun l => String.ofList (margin minify l.1 ++ l.2) := by
  induction h with
  | nil => cases minify <;> rfl
  | indent _ ih | dedent _ ih => exact ih
  | @line ps cs d _ rows ls _ hcs _ ih =>
    have hline : shown minify [Sheet.indented "  " d (String.ofList cs)] =
        [String.ofList (margin minify d ++ cs)] := by
      cases minify with
      | false => exact congrArg (fun l => [l]) (indented_framed hcs d)
      | true =>
        have hempty : (!(String.ofList cs).isEmpty) = true := by simpa using framed_ne_nil hcs
        rw [shown, if_pos rfl, List.map_singleton, strip_indented hcs, List.filter_singleton,
          hempty]
        rfl
    rw [List.map_cons, List.map_cons, ← ih, ← List.singleton_append, shown_append, hline]
    rfl

end ShowsAll

/-! ## The frame -/

/-- The lines in front of the title. -/
def prologue : Listing :=
  [line ["<!DOCTYPE html>"], line ["<html lang=\"en\">"], line ["<head>"]]
  ++ [.indent, line ["<meta charset=\"UTF-8\">"],
    line ["<meta name=\"viewport\" content=\"width=device-width, initial-scale=1.0\">"]]

def titleRow (title : String) : Row := line ["<title>", .html title, "</title>"]

def styleRows : Listing :=
  [line ["<style>"]]
  ++ indent [line [r"* { margin: 0; padding: 0; }"],
    line [r"body { background: #000; display: flex; justify-content: center; ",
      r"align-items: center; min-height: 100vh; }"]]
  ++ [line ["</style>"]]

def engineRow (url : String) : Row := line ["<script src=\"", .html url, "\"></script>"]

def bodyRows : Listing := [.dedent, line ["</head>"], line ["<body>"], line ["<script>"]]

def epilogue : Listing := [line ["</script>"], line ["</body>"], line ["</html>"]]

theorem pageListing_eq (g : Game) (url : String) :
    pageListing g url =
      prologue ++ ([titleRow g.title] ++ (styleRows ++ ([engineRow url] ++ bodyRows))) ++
        (programListing g ++ epilogue) := rfl

/-! ## Reading the frame -/

/-- The text has the given closing tags, whatever follows it. -/
def Closes (cs : List Char) (tags : List String) : Prop :=
  ∀ rest, closingTags (cs ++ rest) = tags ++ closingTags rest

/-- A mark does not begin in the text, whatever follows it. -/
def Skips (mark cs : List Char) : Prop :=
  ∀ rest, textAfter mark (cs ++ rest) = textAfter mark rest

def titleMark : List Char := ['<', 't', 'i', 't', 'l', 'e', '>']

def titleEnd : List Char := ['<', '/', 't', 'i', 't', 'l', 'e', '>']

def engineMark : List Char := ['<', 's', 'c', 'r', 'i', 'p', 't', ' ', 's', 'r', 'c', '=', '"']

def engineEnd : List Char := ['"', '>', '<', '/', 's', 'c', 'r', 'i', 'p', 't', '>']

def scriptMark : List Char := ['<', 's', 'c', 'r', 'i', 'p', 't', '>']

def scriptEnd : List Char := ['<', '/', 's', 'c', 'r', 'i', 'p', 't', '>']

/-- The lines between the address of the engine and the program's element. -/
def headEnd : List Char :=
  ['\n', '<', '/', 'h', 'e', 'a', 'd', '>', '\n', '<', 'b', 'o', 'd', 'y', '>']

/-- The lines after the program's element. -/
def pageEnd : List Char :=
  ['<', '/', 'b', 'o', 'd', 'y', '>', '\n', '<', '/', 'h', 't', 'm', 'l', '>']

/-- The fixed text in front of the title and from there to the address of the engine, as far as a
page is read for it. -/
structure Frame where
  prologue : List Char
  style : List Char
  closes_prologue : Closes prologue []
  closes_style : Closes style ["</style>"]
  skips_title : Skips titleMark prologue
  skips_engine : Skips engineMark prologue ∧ Skips engineMark style
  skips_script : Skips scriptMark prologue ∧ Skips scriptMark style

namespace Frame

/-- What stands before the program. -/
def opening : List Char := headEnd ++ '\n' :: (scriptMark ++ ['\n'])

/-- What stands after the program. -/
def closing : List Char := '\n' :: (scriptEnd ++ '\n' :: pageEnd)

variable (f : Frame)

/-- The frame up to the address of the engine, and what follows it. -/
def lead (title url rest : List Char) : List Char :=
  f.prologue ++ (titleMark ++ (title ++ (titleEnd ++ (f.style ++ (engineMark ++ (url ++
    (engineEnd ++ rest)))))))

/-- The frame with everything else in its place. -/
def fill (title url script : List Char) : List Char :=
  f.lead title url (opening ++ (script ++ closing))

variable {f} {title url script : List Char}

theorem closingTags_fill (ht : '<' ∉ title) (hu : '<' ∉ url) (hs : closingTags script = []) :
    closingTags (f.fill title url script) = ["</title>", "</style>", "</script>", "</head>",
      "</script>", "</body>", "</html>"] := by
  have htitle : Closes titleMark [] := fun _ => rfl
  have htitleEnd : Closes titleEnd ["</title>"] := fun _ => rfl
  have hengine : Closes engineMark [] := fun _ => rfl
  have hengineEnd : Closes engineEnd ["</script>"] := fun _ => rfl
  have hopening : Closes opening ["</head>"] := fun _ => rfl
  rw [fill, lead, f.closes_prologue, htitle, closingTags_of_lt_notMem_append ht, htitleEnd,
    f.closes_style, hengine, closingTags_of_lt_notMem_append hu, hengineEnd, hopening,
    closingTags_append hs (by simp [closing])]
  rfl

theorem textBetween_title (ht : '<' ∉ title) :
    textBetween titleMark titleEnd (f.fill title url script) = some title := by
  have hopen (rest : List Char) : textAfter titleMark (titleMark ++ rest) = some rest := rfl
  have hend (rest : List Char) : textBefore titleEnd (titleEnd ++ rest) = [] := rfl
  rw [textBetween, fill, lead, f.skips_title, hopen, Option.map_some, titleEnd,
    textBefore_append ht, ← titleEnd, hend, List.append_nil]

theorem textBetween_engine (ht : '<' ∉ title) (hu : '"' ∉ url) :
    textBetween engineMark ['"'] (f.fill title url script) = some url := by
  have htitle : Skips engineMark titleMark := fun _ => rfl
  have htitleEnd : Skips engineMark titleEnd := fun _ => rfl
  have hskip : Skips engineMark title := textAfter_append ht
  have hopen (rest : List Char) : textAfter engineMark (engineMark ++ rest) = some rest := rfl
  have hend (rest : List Char) : textBefore ['"'] (engineEnd ++ rest) = [] := rfl
  rw [textBetween, fill, lead, f.skips_engine.1, htitle, hskip, htitleEnd, f.skips_engine.2, hopen,
    Option.map_some, textBefore_append hu, hend, List.append_nil]

theorem textAfter_lead (ht : '<' ∉ title) (hu : '<' ∉ url) (rest : List Char) :
    textAfter scriptMark (f.lead title url rest) = textAfter scriptMark rest := by
  have htitle : Skips scriptMark titleMark := fun _ => rfl
  have htitleEnd : Skips scriptMark titleEnd := fun _ => rfl
  have hengine : Skips scriptMark engineMark := fun _ => rfl
  have hengineEnd : Skips scriptMark engineEnd := fun _ => rfl
  have hskip : Skips scriptMark title := textAfter_append ht
  have hskip' : Skips scriptMark url := textAfter_append hu
  rw [lead, f.skips_script.1, htitle, hskip, htitleEnd, f.skips_script.2, hengine, hskip',
    hengineEnd]

theorem textAfter_script (ht : '<' ∉ title) (hu : '<' ∉ url) :
    textAfter scriptMark (f.fill title url script) = some ('\n' :: (script ++ closing)) :=
  textAfter_lead ht hu _

theorem textBetween_script (ht : '<' ∉ title) (hu : '<' ∉ url) (hs : closingTags script = []) :
    textBetween scriptMark scriptEnd (f.fill title url script) =
      some ('\n' :: (script ++ ['\n'])) := by
  have hscript : textBefore scriptEnd ('\n' :: (script ++ closing)) =
      '\n' :: textBefore scriptEnd (script ++ closing) := rfl
  rw [textBetween, textAfter_script ht hu, Option.map_some, hscript, scriptEnd,
    textBefore_closing hs (by simp [closing])]
  rfl

end Frame

/-! ## The frame of a page -/

-- Reading a fixed line takes a step for each of its characters.
set_option maxRecDepth 4096

theorem exists_prologue : ∃ ls, ShowsAll 0 1 prologue ls ∧
    ∀ minify, Closes (textOf minify ls ++ margin minify 1) [] ∧
      Skips titleMark (textOf minify ls ++ margin minify 1) ∧
      Skips engineMark (textOf minify ls ++ margin minify 1) ∧
      Skips scriptMark (textOf minify ls ++ margin minify 1) := by
  refine ⟨_, by repeat' constructor, fun minify => ?_⟩
  cases minify <;> exact ⟨fun _ => rfl, fun _ => rfl, fun _ => rfl, fun _ => rfl⟩

theorem exists_styleRows : ∃ ls, ShowsAll 1 1 styleRows ls ∧
    ∀ minify, Closes ('\n' :: (textOf minify ls ++ margin minify 1)) ["</style>"] ∧
      Skips engineMark ('\n' :: (textOf minify ls ++ margin minify 1)) ∧
      Skips scriptMark ('\n' :: (textOf minify ls ++ margin minify 1)) := by
  refine ⟨_, by repeat' constructor, fun minify => ?_⟩
  cases minify <;> exact ⟨fun _ => rfl, fun _ => rfl, fun _ => rfl⟩

theorem exists_bodyRows : ∃ ls, ShowsAll 1 0 bodyRows ls ∧
    ∀ minify, '\n' :: textOf minify ls = Frame.opening := by
  refine ⟨_, by repeat' constructor, fun minify => ?_⟩
  cases minify <;> rfl

/-- The last line has no newline. -/
theorem exists_epilogue : ∃ ls l, ShowsAll 0 0 epilogue (ls ++ [l]) ∧
    ∀ minify, '\n' :: (textOf minify ls ++ (margin minify l.1 ++ l.2)) = Frame.closing := by
  refine ⟨[_, _], _, .line (.code .nil) rfl (.line (.code .nil) rfl (.line (.code .nil) rfl .nil)),
    fun minify => ?_⟩
  cases minify <;> rfl

theorem exists_programListing (g : Game) :
    ∃ rows, programListing g = rows ++ [line ["const game = new Phaser.Game(config);"]] := by
  have hconfig :
      ∃ rows, configListing g = rows ++ [line ["const game = new Phaser.Game(config);"]] :=
    ⟨_ ++ [blank], by rw [List.append_assoc]; rfl⟩
  obtain ⟨rows, hrows⟩ := hconfig
  exact ⟨_, by rw [programListing, hrows, ← List.append_assoc]⟩

/-- The last line of a program is never empty. -/
theorem shown_programListing_ne_nil (h : Written n n' (programListing g) ls) (minify : Bool) :
    shown minify ls ≠ [] := by
  obtain ⟨rows, hrows⟩ := exists_programListing g
  rw [hrows] at h
  obtain ⟨m, us, vs, -, hvs, rfl⟩ := h.append
  have hlast : ShowsAll m m [line ["const game = new Phaser.Game(config);"]] [_] :=
    .line (.code .nil) rfl .nil
  rw [shown_append, (hlast.written_eq hvs).2, hlast.shown_eq]
  simp

theorem flatMap_shown (minify : Bool) (ls : List (Nat × List Char)) :
    (ls.map fun l => String.ofList (margin minify l.1 ++ l.2)).flatMap
      (fun l => l.toList ++ ['\n']) = textOf minify ls := by
  rw [List.flatMap_map]
  simp only [String.toList_ofList]
  rfl

/-- Where a listing stands among rows outside of it, its lines do. -/
theorem render_between (hfront : ShowsAll 0 0 front fl) (hend : ShowsAll 0 0 back (el ++ [l]))
    (h : Listing.sheet (front ++ (rows ++ back)) = .ok b)
    (hrows : ∀ n ls, Written 0 n rows ls → n = 0 ∧ shown minify ls ≠ []) :
    ∃ b', Listing.sheet rows = .ok b' ∧ (b.render minify).toList = textOf minify fl ++
      ((b'.render minify).toList ++
        '\n' :: (textOf minify el ++ (margin minify l.1 ++ l.2))) := by
  obtain ⟨_, us, vs, hus, hvs, hlines⟩ := (written_of_sheet h).append
  obtain ⟨rfl, rfl⟩ := hfront.written_eq hus
  obtain ⟨_, ws, xs, hws, hxs, rfl⟩ := hvs.append
  obtain ⟨rfl, hshown⟩ := hrows _ ws hws
  obtain ⟨-, rfl⟩ := hend.written_eq hxs
  refine ⟨_, hws.sheet, ?_⟩
  have hback : (el ++ [l]).map (fun l => String.ofList (margin minify l.1 ++ l.2)) ≠ [] := by simp
  rw [Sheet.render_eq, hlines, Sheet.render_eq, shown_append, shown_append, hfront.shown_eq,
    hend.shown_eq, toList_intercalate_append (by simp), flatMap_shown,
    String.intercalate_append_of_ne_nil hshown hback, String.toList_append,
    String.toList_append, String.toList_ofList, List.map_append,
    toList_intercalate_append (by simp), flatMap_shown, List.append_assoc, List.map_singleton,
    String.intercalate_singleton, String.toList_ofList]
  rfl

end PlatformGame.Program

namespace PlatformGame

open Program Text

/-- A page is a frame around the title of the game, the address of the engine and the program. -/
theorem exists_frame {g : Game} (h : g.page url minify = .ok page) :
    ∃ (f : Frame) (script : String), g.script minify = .ok script ∧
      page.toList = f.fill (escapeHtml g.title).toList (escapeHtml url).toList script.toList := by
  obtain ⟨pl, hpl, hp⟩ := exists_prologue
  obtain ⟨sl, hsl, hs⟩ := exists_styleRows
  obtain ⟨bl, hbl, hb⟩ := exists_bodyRows
  obtain ⟨el, l, hel, he⟩ := exists_epilogue
  have htitle : ShowsAll 1 1 [titleRow g.title]
      [(1, titleMark ++ ((escapeHtml g.title).toList ++ (titleEnd ++ [])))] :=
    .line (.code (.html (.code .nil))) (framed_append rfl rfl) .nil
  have hengine : ShowsAll 1 1 [engineRow url]
      [(1, engineMark ++ ((escapeHtml url).toList ++ (engineEnd ++ [])))] :=
    .line (.code (.html (.code .nil))) (framed_append rfl rfl) .nil
  have hfront := hpl.append (htitle.append (hsl.append (hengine.append hbl)))
  have hprogram : Script.Balanced False (programListing g) :=
    Script.balanced_programListing g False.elim
  obtain ⟨b, hsheet, h⟩ := bind_eq_ok.1 h
  rw [pageListing_eq] at hsheet
  obtain ⟨b', hb', hpage⟩ := render_between hfront hel hsheet
    fun n ls hls => ⟨hprogram.level_eq hls, shown_programListing_ne_nil hls minify⟩
  let f : Frame :=
    { prologue := textOf minify pl ++ margin minify 1
      style := '\n' :: (textOf minify sl ++ margin minify 1)
      closes_prologue := (hp minify).1
      closes_style := (hs minify).1
      skips_title := (hp minify).2.1
      skips_engine := ⟨(hp minify).2.2.1, (hs minify).2.1⟩
      skips_script := ⟨(hp minify).2.2.2, (hs minify).2.2⟩ }
  refine ⟨f, b'.render minify, bind_eq_ok.2 ⟨b', hb', rfl⟩, ?_⟩
  rw [← Except.ok.inj h, hpage, he, Frame.fill, ← hb minify, Frame.lead]
  simp [f, textOf]

theorem Named.plain (h : Named s) : Plain s.toList := by
  obtain ⟨c, cs, hs, hc, hcs, -⟩ := h
  rw [hs]
  exact .of_forall rfl rfl (List.forall_mem_cons.2 ⟨Source.isNameChar_of_isNameStart hc, hcs⟩)

theorem plainNames_of_readGame (h : (readGame source).outcome = .ok g) : g.PlainNames := by
  obtain ⟨d, hd, rfl⟩ := exists_written_of_readGame h
  constructor
  · intro e he
    obtain ⟨e', he', rfl⟩ := List.mem_map.1 he
    exact (hd.enemies e' he').name.plain
  · intro c hc
    obtain ⟨c', hc', rfl⟩ := List.mem_map.1 hc
    exact (hd.collectibles c' hc').name.plain

/-- The closing tags of a page are those of its frame, in their order, whatever the source and the
options are. The program stands between the tags of its element, and the title and the address of
the engine in their places, where they neither end a tag nor an attribute and are meant as given. -/
theorem closingTags_page (R : References) {source : String}
    {options : Except OptionError Options} {a : Artifact}
    (h : (compile source options).outcome = .ok a) :
    ∃ g o url script, (readGame source).outcome = .ok g ∧ options = .ok o ∧ o.url = .ok url ∧
      g.script o.minify.isTrue = .ok script ∧
      closingTags a.page.toList = ["</title>", "</style>", "</script>", "</head>", "</script>",
        "</body>", "</html>"] ∧
      textBetween "<script>".toList "</script>".toList a.page.toList =
        some ('\n' :: (script.toList ++ ['\n'])) ∧
      (∃ t, textBetween "<title>".toList "</title>".toList a.page.toList = some t ∧
        Conveys R t g.title) ∧
      ∃ t, textBetween "<script src=\"".toList "\"".toList a.page.toList = some t ∧
        Conveys R t url := by
  obtain ⟨g, hg, h⟩ := bind_eq_ok.1 h
  obtain ⟨o, ho, h⟩ := bind_eq_ok.1 h
  obtain ⟨url, hurl, h⟩ := bind_eq_ok.1 h
  rw [mapError_eq_ok] at ho hurl h
  obtain ⟨page, hpage, h⟩ := bind_eq_ok.1 h
  cases h
  obtain ⟨f, script, hscript, hfill⟩ := exists_frame hpage
  have htitle := conveys_escapeHtml R g.title
  have hengine := conveys_escapeHtml R url
  have hlt : '<' ∉ (escapeHtml g.title).toList := fun hc => htitle.inert _ hc (by simp)
  have hlt' : '<' ∉ (escapeHtml url).toList := fun hc => hengine.inert _ hc (by simp)
  have hquote : '"' ∉ (escapeHtml url).toList := fun hc => hengine.inert _ hc (by simp)
  have htags := closingTags_script (plainNames_of_readGame hg) hscript
  refine ⟨g, o, url, script, hg, ho, hurl, hscript, ?_⟩
  dsimp only
  rw [hfill]
  refine ⟨Frame.closingTags_fill hlt hlt' htags, ?_, ⟨_, ?_, htitle⟩, _, ?_, hengine⟩
  · rw [String.toList_ofList, String.toList_ofList]
    exact Frame.textBetween_script hlt hlt' htags
  · rw [String.toList_ofList, String.toList_ofList]
    exact Frame.textBetween_title hlt
  · rw [String.toList_ofList, String.toList_ofList]
    exact Frame.textBetween_engine hlt hquote

/-- The title and the address of the engine try to leave the places in which they stand. -/
theorem closingTags_page_marked :
    let source := r#"game "</script>&amp;'" { }"#
    let options : Except OptionError Options :=
      .ok { runtimeUrl := .text "\"></script><p title='&lt;", minify := .bool true }
    ∃ a, (compile source options).outcome = .ok a ∧
      closingTags a.page.toList = ["</title>", "</style>", "</script>", "</head>", "</script>",
        "</body>", "</html>"] ∧
      (∃ t, textBetween "<title>".toList "</title>".toList a.page.toList = some t ∧
        Conveys .basic t "</script>&amp;'") ∧
      ∃ t, textBetween "<script src=\"".toList "\"".toList a.page.toList = some t ∧
        Conveys .basic t "\"></script><p title='&lt;" := by
  intro source options
  obtain ⟨a, ha⟩ : ∃ a, (compile source options).outcome = .ok a :=
    exists_of_isOk (by decide +kernel)
  obtain ⟨g, o, url, script, hg, ho, hurl, _, htags, _, htitle, hengine⟩ :=
    closingTags_page .basic ha
  have hname : (readGame source).outcome.toOption.map Game.title = some "</script>&amp;'" := by
    decide +kernel
  rw [hg] at hname
  obtain rfl := Except.ok.inj ho
  obtain rfl := Except.ok.inj hurl
  exact ⟨a, ha, htags, Option.some.inj hname ▸ htitle, hengine⟩

end PlatformGame
