import PlatformGame.Proofs.Program.Statements

/-! # What is passed to calls

`passed` finds what stands behind given tokens, such as those of a call, wherever they occur in a
line. Since these tokens begin with a word that is in no number, payload or name, what is found in a
row is known before the row is written (`passed?`). -/

namespace PlatformGame.Script

open Program

/-- The literal behind the given tokens, if these stand at the front; what is no literal counts as
none. -/
def behind (opening ts : List Token) : List (Option String) :=
  if opening.isPrefixOf ts then [(ts.drop opening.length).head?.bind Token.literal?] else []

/-- The literals behind all occurrences of the given tokens. -/
def passed (opening : List Token) : List Token → List (Option String)
  | [] => []
  | t :: ts => behind opening (t :: ts) ++ passed opening ts

/-- The literals behind all occurrences in the lines of a program. -/
def passedAll (opening : List Token) (ss : List (Stmt Token)) : List (Option String) :=
  (Stmt.linesAll ss).flatMap (passed opening)

theorem passedAll_append (opening : List Token) (ss ss' : List (Stmt Token)) :
    passedAll opening (ss ++ ss') = passedAll opening ss ++ passedAll opening ss' := by
  simp only [passedAll, Stmt.linesAll_eq, List.flatMap_append]

theorem passedAll_block (opening header : List Token) (body : List (Stmt Token)) :
    passedAll opening [.block header body] = passed opening header ++ passedAll opening body := by
  simp [passedAll, Stmt.linesAll, Stmt.lines]

/-! ## What programs are read for -/

/-- The tokens of `anims.play(`. -/
def playing : List Token :=
  [.word ['a', 'n', 'i', 'm', 's'], .mark '.', .word ['p', 'l', 'a', 'y'], .mark '(']

/-- What a program passes to `anims.play`, in the order in which it is written. -/
def plays (ss : List (Stmt Token)) : List (Option String) := passedAll playing ss

/-- The tokens of `anims.create(`. -/
def creating : List Token :=
  Callee.path [['a', 'n', 'i', 'm', 's'], ['c', 'r', 'e', 'a', 't', 'e']]

/-- The tokens of `super({ key:`. -/
def registering : List Token :=
  [.word ['s', 'u', 'p', 'e', 'r'], .mark '(', .mark '{', .word ['k', 'e', 'y'], .mark ':']

/-- The tokens of `scene.start(`. -/
def starting : List Token :=
  [.word ['s', 'c', 'e', 'n', 'e'], .mark '.', .word ['s', 't', 'a', 'r', 't'], .mark '(']

/-- The tokens in front of a text in the middle of the screen. -/
def showing : List Token :=
  Callee.path [['a', 'd', 'd'], ['t', 'e', 'x', 't']] ++ center ['X'] ++ .mark ',' :: center ['Y']
    ++ [.mark ',']
where
  center (axis : List Char) : List Token :=
    [.word ['t', 'h', 'i', 's'], .mark '.', .word ['c', 'a', 'm', 'e', 'r', 'a', 's'], .mark '.',
      .word ['m', 'a', 'i', 'n'], .mark '.', .word (['c', 'e', 'n', 't', 'e', 'r'] ++ axis)]

/-! ## Before rows are written -/

/-- A word that is in no number and no payload, and is no name of a level's scene or of a layer. -/
def Token.isLoud : Token → Bool
  | .word w => !w.contains 'L' && w.any (!isNumeral ·) && !constants.contains w
  | _ => false

theorem Token.Inert.isLoud_eq_false (h : Token.Inert t) : t.isLoud = false := by
  cases h with
  | literal | mark => rfl
  | numeral hnumeral =>
    cases hnumeral with
    | @word w hw =>
      have hany : (w.any fun c => !isNumeral c) = false := by simpa using hw
      rw [isLoud, hany, Bool.and_false, Bool.false_and]
    | mark _ => rfl
  | constant hw => simp [isLoud, hw]

theorem numeral_of_mem_pieceTokens (h : t ∈ pieceTokens (.number q)) : t.Numeral := by
  unfold pieceTokens at h
  cases hq : (Piece.number q).write with
  | error e =>
    rw [hq] at h
    cases h
  | ok s =>
    obtain ⟨ts, hts, hnumeral⟩ := exists_tokens?_numeral (numerals_number hq)
    rw [hq, Except.toOption, Option.bind_some, hts] at h
    exact hnumeral t h

theorem inert_of_mem_pieceTokens (h : t ∈ pieceTokens (.payload j)) : t.Inert := by
  unfold pieceTokens at h
  cases hj : (Piece.payload j).write with
  | error e =>
    rw [hj] at h
    cases h
  | ok s =>
    obtain ⟨ts, hts, hinert⟩ := Json.inertText_compact hj
    rw [hj, Except.toOption, Option.bind_some, hts] at h
    exact hinert t h

theorem Sign.isLoud_eq_false {s : Sign} (hs : ∀ u, s ≠ .token u) (ht : t ∈ s.tokens) :
    t.isLoud = false := by
  cases s with
  | token u => exact absurd rfl (hs u)
  | name w h => simp [List.mem_singleton.1 ht, Token.isLoud, h]
  | number q => exact Token.Inert.isLoud_eq_false (.numeral (numeral_of_mem_pieceTokens ht))
  | payload j => exact (inert_of_mem_pieceTokens ht).isLoud_eq_false

/-- What stands behind the given tokens at the front, as far as the signs show. -/
def behind? : List Token → List Sign → Option (List (Option String))
  | [], [] => some [none]
  | [], .token t :: _ => some [t.literal?]
  | _ :: _, [] => some []
  | p :: ps, .token t :: ss => if p = t then behind? ps ss else some []
  | _, _ => none

def passed? (opening : List Token) : List Sign → Option (List (Option String))
  | [] => some []
  | .token t :: ss => do
    pure ((← behind? opening (.token t :: ss)) ++ (← passed? opening ss))
  | _ :: ss => passed? opening ss

def passedAll? (opening : List Token) (ss : List (Stmt Sign)) : Option (List (Option String)) :=
  ((Stmt.linesAll ss).mapM (passed? opening)).map List.flatten

theorem behind_of_behind? (h : behind? opening ss = some xs) :
    behind opening (ss.flatMap Sign.tokens) = xs := by
  induction opening generalizing ss with
  | nil =>
    rcases ss with _ | ⟨s, ss⟩
    · cases h
      rfl
    · cases s <;> cases h
      rfl
  | cons p ps ih =>
    rcases ss with _ | ⟨s, ss⟩
    · cases h
      rfl
    · cases s with
      | token t =>
        rw [behind?] at h
        split at h
        · next heq =>
          rw [← ih h]
          simp [behind, heq, Sign.tokens]
        · next hne =>
          cases h
          simp [behind, List.isPrefixOf, hne, Sign.tokens]
      | name | number | payload => cases h

/-- Nothing is found among tokens without the first of those that are looked for. -/
theorem passed_append_of_notMem (h : p ∉ us) (ts : List Token) :
    passed (p :: ps) (us ++ ts) = passed (p :: ps) ts := by
  induction us with
  | nil => rfl
  | cons u us ih =>
    rw [List.mem_cons, not_or] at h
    rw [List.cons_append, passed, behind, ih h.2]
    simp [List.isPrefixOf, h.1]

theorem passed_of_passed? (hp : p.isLoud = true) (h : passed? (p :: ps) ss = some xs) :
    passed (p :: ps) (ss.flatMap Sign.tokens) = xs := by
  induction ss generalizing xs with
  | nil =>
    cases h
    rfl
  | cons s ss ih =>
    have hgap (hs : ∀ u, s ≠ .token u) (h : passed? (p :: ps) ss = some xs) :
        passed (p :: ps) ((s :: ss).flatMap Sign.tokens) = xs := by
      rw [List.flatMap_cons, passed_append_of_notMem fun hmem => ?_, ih h]
      rw [Sign.isLoud_eq_false hs hmem] at hp
      cases hp
    cases s with
    | token t =>
      rw [passed?] at h
      obtain ⟨ys, hys, h⟩ := Option.bind_eq_some_iff.1 h
      obtain ⟨zs, hzs, h⟩ := Option.bind_eq_some_iff.1 h
      cases h
      have hfront := behind_of_behind? hys
      rw [List.flatMap_cons] at hfront ⊢
      exact congrArg₂ (· ++ ·) hfront (ih hzs)
    | name | number | payload => exact hgap (by simp) h

theorem flatMap_passed {sss : List (List Sign)} (hp : Token.isLoud p = true)
    (h : sss.mapM (passed? (p :: ps)) = some xss) :
    (sss.flatMap fun ss => passed (p :: ps) (ss.flatMap Sign.tokens)) = xss.flatten := by
  induction sss generalizing xss with
  | nil =>
    cases h
    rfl
  | cons ss sss ih =>
    rw [List.mapM_cons] at h
    obtain ⟨ys, hys, h⟩ := Option.bind_eq_some_iff.1 h
    obtain ⟨yss, hyss, h⟩ := Option.bind_eq_some_iff.1 h
    cases h
    rw [List.flatMap_cons, List.flatten_cons, passed_of_passed? hp hys, ih hyss]

theorem passedAll_images (hp : p.isLoud = true) (h : passedAll? (p :: ps) ss = some xs) :
    passedAll (p :: ps) (Stmt.images Sign.tokens ss) = xs := by
  obtain ⟨xss, hxss, rfl⟩ := Option.map_eq_some_iff.1 h
  rw [passedAll, Stmt.linesAll_images, List.flatMap_map]
  exact flatMap_passed hp hxss

end PlatformGame.Script
