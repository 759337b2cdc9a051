import PlatformGame.Proofs.Program.Brackets
import PlatformGame.Proofs.Program.Holdings

/-! # The parts of a program, each on its own

A program is put together from parts, and each part can be written by itself. Where a text compiles,
every part of its program can be written, and reading it finds all literals closed in their lines
and all brackets closed in order (`wellBracketed_of_compile`). Parts without computed quantities can
always be written. -/

namespace PlatformGame

variable {rows : Listing} {g : Game}

/-! ## Writing -/

theorem Json.exists_numberLiteral (h : n.Bounded) : ∃ s, Json.numberLiteral n = .ok s := by
  cases n with
  | int n => exact Number.exists_integerText h
  | float x => exact ⟨_, rfl⟩

mutual

theorem Json.exists_compact : ∀ {j : Json}, (∀ n ∈ j.numbersIn, n.Bounded) →
    ∃ s, j.compact = .ok s
  | .null, _ | .bool _, _ | .text _, _ => ⟨_, rfl⟩
  | .number _, h => exists_numberLiteral (List.forall_mem_singleton.1 h)
  | .list xs, h => by
    have hxs : ∀ n ∈ numbersInAll xs, n.Bounded := h
    obtain ⟨ts, hts⟩ := exists_compactAll hxs
    exact ⟨_, by rw [compact, hts]; rfl⟩
  | .object ms, h => by
    have hms : ∀ n ∈ numbersInMembers ms, n.Bounded := h
    obtain ⟨ts, hts⟩ := exists_compactMembers hms
    exact ⟨_, by rw [compact, hts]; rfl⟩

theorem Json.exists_compactAll : ∀ {xs : List Json}, (∀ n ∈ numbersInAll xs, n.Bounded) →
    ∃ ts, compactAll xs = .ok ts
  | [], _ => ⟨[], rfl⟩
  | x :: xs, h => by
    rw [numbersInAll, List.forall_mem_append] at h
    obtain ⟨t, ht⟩ := exists_compact h.1
    obtain ⟨ts, hts⟩ := exists_compactAll h.2
    exact ⟨t :: ts, by rw [compactAll, ht, hts]; rfl⟩

theorem Json.exists_compactMembers : ∀ {ms : List (String × Json)},
    (∀ n ∈ numbersInMembers ms, n.Bounded) → ∃ ts, compactMembers ms = .ok ts
  | [], _ => ⟨[], rfl⟩
  | (k, x) :: ms, h => by
    rw [numbersInMembers, List.forall_mem_append] at h
    obtain ⟨t, ht⟩ := exists_compact h.1
    obtain ⟨ts, hts⟩ := exists_compactMembers h.2
    exact ⟨_ :: ts, by rw [compactMembers, ht, hts]; rfl⟩

end

/-- What compiles is read as a game of which a page is made. -/
theorem exists_page_of_compile (h : (compile source options).outcome = .ok a) :
    ∃ g o url, (readGame source).outcome = .ok g ∧ options = .ok o ∧ o.url = .ok url ∧
      g.page url o.minify.isTrue = .ok a.page := by
  obtain ⟨g, hg, h⟩ := bind_eq_ok.1 h
  obtain ⟨o, ho, h⟩ := bind_eq_ok.1 h
  obtain ⟨url, hurl, h⟩ := bind_eq_ok.1 h
  rw [mapError_eq_ok] at ho hurl h
  obtain ⟨page, hpage, h⟩ := bind_eq_ok.1 h
  cases h
  exact ⟨g, o, url, hg, ho, hurl, hpage⟩

namespace Program

open Script

/-- What holds numbers in range is written, if all that it computes is in range as well. -/
theorem Piece.Holds.exists_write {texts : List String} {computes : Quantity → Prop} {p : Piece}
    (h : p.Holds texts computes)
    (hc : ∀ q, computes q → ∃ n, q.compute = .ok n ∧ n.Bounded) : ∃ s, p.write = .ok s := by
  have hcomputed (q : Quantity) (hq : computes q) : ∃ s, (Piece.number q).write = .ok s := by
    obtain ⟨n, hn, hbounded⟩ := hc q hq
    obtain ⟨s, hs⟩ := hbounded.exists_literal
    exact ⟨s, by rw [write, hn]; exact hs⟩
  cases p with
  | number q =>
    cases q with
    | value n => exact (List.forall_mem_singleton.1 h.1).exists_literal
    | shifted | middle | centred | absent => exact hcomputed _ (h.2 rfl)
  | labelled before n after =>
    obtain ⟨s, hs⟩ := h.2.1.exists_literal
    exact ⟨_, by rw [write, hs]; rfl⟩
  | payload j => exact Json.exists_compact h.2
  | code | literal | name | html => exact ⟨_, rfl⟩

def Row.Writes (r : Row) : Prop := ∀ p ∈ r.pieces, ∃ s, p.write = .ok s

theorem writeAll_eq_ok_iff : (∃ s, writeAll ps = .ok s) ↔ ∀ p ∈ ps, ∃ s, p.write = .ok s := by
  induction ps with
  | nil => simp [writeAll]
  | cons p ps ih =>
    rw [List.forall_mem_cons, ← ih]
    constructor
    · rintro ⟨s, hs⟩
      obtain ⟨t, u, ht, hu, -⟩ := writeAll_cons hs
      exact ⟨⟨t, ht⟩, u, hu⟩
    · rintro ⟨⟨t, ht⟩, u, hu⟩
      exact ⟨t ++ u, by rw [writeAll, ht, hu]; rfl⟩

theorem Written.writes (h : Written n n' rows ls) : ∀ r ∈ rows, r.Writes := by
  induction h with
  | nil => exact List.forall_mem_nil _
  | line hs _ ih => exact List.forall_mem_cons.2 ⟨writeAll_eq_ok_iff.1 ⟨_, hs⟩, ih⟩
  | indent _ ih | dedent _ ih => exact List.forall_mem_cons.2 ⟨List.forall_mem_nil _, ih⟩

/-- A listing is written if each of its pieces is. -/
theorem exists_sheet (h : ∀ r ∈ rows, r.Writes) : ∃ b, rows.sheet = .ok b := by
  have hcommands : ∃ cs, rows.mapM Row.command = .ok cs := by
    induction rows with
    | nil => exact ⟨[], rfl⟩
    | cons r rows ih =>
      rw [List.forall_mem_cons] at h
      obtain ⟨s, hs⟩ := writeAll_eq_ok_iff.2 h.1
      obtain ⟨cs, hcs⟩ := ih h.2
      have hc : ∃ c, r.command = .ok c := by
        cases r with
        | line => exact ⟨_, bind_eq_ok.2 ⟨s, hs, rfl⟩⟩
        | indent | dedent => exact ⟨_, rfl⟩
      obtain ⟨c, hc⟩ := hc
      exact ⟨c :: cs, by rw [List.mapM_cons, hc, hcs]; rfl⟩
  obtain ⟨cs, hcs⟩ := hcommands
  exact ⟨_, bind_eq_ok.2 ⟨cs, hcs, rfl⟩⟩

/-- The program of a page is written with the page. -/
theorem writes_programListing (h : (pageListing g url).sheet = .ok b) :
    ∀ r ∈ programListing g, r.Writes := by
  have hrows := (written_of_sheet h).writes
  simp only [pageListing_eq, List.forall_mem_append] at hrows
  exact hrows.2.1

/-! ## Parts of a program -/

/-- The program of a game and its parts. -/
inductive Emitted (g : Game) : Listing → Prop
  | program : Emitted g (programListing g)
  | boot : Emitted g (bootListing g)
  | level : (l, i) ∈ g.levels.zipIdx → Emitted g (levelListing g l i)
  | display : es ∈ g.hud → Emitted g (hudListing g es)
  | config : Emitted g (configListing g)
  | input : Emitted g (inputSetup g.player)
  | player : l ∈ g.levels → Emitted g (playerCreate g.player l.spawn)
  | playerUpdate : Emitted g (playerUpdate g.player)
  | tilemap : l ∈ g.levels → Emitted g (tilemapCreate l g.assets)
  | enemies : l ∈ g.levels → Emitted g (enemyCreate l g.symbols)
  | enemyUpdate : Emitted g (enemyUpdate g.enemies)
  | enemyCollision (defeatAll : Bool) : l ∈ g.levels → Emitted g (enemyCollision l defeatAll)
  | collectibles : l ∈ g.levels → Emitted g (collectibleCreate l g.symbols)
  | collectibleCollision (goal : Option String) : Emitted g (collectibleCollision goal)

/-- Each part closes the brackets that it opens, and ends at the level at which it begins. -/
theorem Emitted.balanced (h : Emitted g rows) : Balanced False rows := by
  cases h with
  | program => exact balanced_programListing g False.elim
  | boot => exact balanced_bootListing g
  | level => exact balanced_levelListing g _ _ False.elim
  | display => exact balanced_hudListing g _
  | config => exact balanced_configListing g
  | input => exact balanced_inputSetup g.player
  | player => exact balanced_playerCreate g.player _
  | playerUpdate => exact balanced_playerUpdate g.player False.elim
  | tilemap => exact balanced_tilemapCreate _ g.assets
  | enemies => exact balanced_enemyCreate g _
  | enemyUpdate => exact balanced_enemyUpdate g.enemies
  | enemyCollision => exact balanced_enemyCollision _ _
  | collectibles => exact balanced_collectibleCreate g _
  | collectibleCollision => exact balanced_collectibleCollision _

/-- A part with computed quantities stands in the program as it is; all others hold only numbers
that are written. -/
theorem Emitted.writes (hg : g.Proper) (h : Emitted g rows)
    (hprogram : ∀ r ∈ programListing g, r.Writes) : ∀ r ∈ rows, r.Writes := by
  have hholds (texts : List String) {rows : Listing} (h : HoldsAll texts (fun _ => False) rows) :
      ∀ r ∈ rows, r.Writes := fun r hr p hp => (h r hr p hp).exists_write fun _ => False.elim
  have hparts := hprogram
  simp only [programListing, List.forall_mem_append, List.forall_mem_flatMap] at hparts
  obtain ⟨⟨⟨⟨hboot, -⟩, hlevels⟩, hhud⟩, hconfig⟩ := hparts
  cases h with
  | program => exact hprogram
  | boot => exact hboot
  | level hl => exact (hlevels _ hl).1
  | @display es hes =>
    rw [Option.mem_def.1 hes, List.forall_mem_append] at hhud
    exact hhud.1
  | config => exact hconfig
  | input => exact hholds [] (holdsAll_inputSetup g.player)
  | player hl => exact hholds [] (holdsAll_playerCreate hg.player (hg.levels _ hl))
  | playerUpdate => exact hholds [] (holdsAll_playerUpdate hg.player)
  | tilemap hl =>
    exact hholds (foreignTexts g) (holdsAll_tilemapCreate (hg.levels _ hl) hg.assets
      fun _ => tiled_mem_foreignTexts hl)
  | enemies hl => exact hholds [] (holdsAll_enemyCreate hg (hg.levels _ hl))
  | enemyUpdate => exact hholds [] (holdsAll_enemyUpdate g.enemies)
  | enemyCollision => exact hholds [] (holdsAll_enemyCollision _ _)
  | collectibles hl => exact hholds [] (holdsAll_collectibleCreate hg (hg.levels _ hl))
  | collectibleCollision goal =>
    refine hholds goal.toList (holdsAll_collectibleCollision fun name hname => .inr ?_)
    exact Option.mem_toList.2 hname

end Program

namespace Script

/-- Every literal of a text ends in the line that it begins in, and outside of the literals all
brackets are closed in order. -/
def WellBracketed (cs : List Char) : Prop :=
  ∃ xs, sift .code cs = some (.code, xs) ∧ nest [] xs = some []

end Script

open Program Script

/-- Where a text compiles, the program of its game and all parts of the program are written, well
bracketed whether minified or not, each on a sheet that ends at level zero. -/
theorem wellBracketed_of_compile {source : String} {options : Except OptionError Options}
    {a : Artifact} (h : (compile source options).outcome = .ok a) :
    ∃ g, (readGame source).outcome = .ok g ∧ ∀ rows, Emitted g rows →
      ∃ b, rows.sheet = .ok b ∧ b.level = 0 ∧
        ∀ minify, WellBracketed (b.render minify).toList := by
  obtain ⟨g, o, url, hg, -, -, hpage⟩ := exists_page_of_compile h
  obtain ⟨b, hb, -⟩ := bind_eq_ok.1 hpage
  have hprogram := writes_programListing hb
  refine ⟨g, hg, fun rows hrows => ?_⟩
  obtain ⟨b, hb⟩ := exists_sheet (hrows.writes (proper_of_readGame hg) hprogram)
  refine ⟨b, hb, hrows.balanced.level_eq (written_of_sheet hb), fun minify => ?_⟩
  obtain ⟨xs, hxs, hnest, -⟩ := hrows.balanced.exists_skeleton hb minify
  exact ⟨xs, hxs, hnest⟩

/-- The texts of the game open brackets and quotes that they do not close. -/
theorem wellBracketed_of_compile_open :
    let source := r#"game "(" { assets { image hero "['" } level "{" { } }"#
    ∃ a, (compile source (.ok {})).outcome = .ok a ∧
      ∃ g, (readGame source).outcome = .ok g ∧ Emitted g (bootListing g) ∧
        ∃ b, (bootListing g).sheet = .ok b ∧ b.level = 0 ∧
          ∀ minify, WellBracketed (b.render minify).toList := by
  intro source
  obtain ⟨a, ha⟩ : ∃ a, (compile source (.ok {})).outcome = .ok a :=
    exists_of_isOk (by decide +kernel)
  obtain ⟨g, hg, h⟩ := wellBracketed_of_compile ha
  exact ⟨a, ha, g, hg, .boot, h _ .boot⟩

end PlatformGame
