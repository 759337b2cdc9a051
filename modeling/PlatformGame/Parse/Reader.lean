import PlatformGame.Grammar.Rules
import PlatformGame.Parse.Tree

/-! # Reading a text

A reader keeps the nodes that are still open, innermost first, each with the phrases that remain to
be read in it. A token is fed by closing nodes that are complete until one can take the token
(`Reader.feed`), which may open further nodes.

Two sets of terminals belong to a reader and differ in general:

* `expected` are the terminals that it can really take next;
* `admitted` are those that some text allows after the innermost node (`Grammar.follow`); the next
  token is recognised among these.

So a token may be recognised and then be refused, and a refused token may have closed nodes on the
way: every node after which it could stand somewhere. -/

namespace PlatformGame.Parse

open Grammar Source

/-- What may come next when the given phrases are left and `after` stands behind them. -/
def firstOfAll : List Phrase → List Terminal → List Terminal
  | [], after => after
  | p :: ps, after => p.firstOr (firstOfAll ps after)

def allNullable (ps : List Phrase) : Bool := ps.all Phrase.nullable

/-- An open node: its parts so far and the phrases left to read. -/
structure Frame where
  label : Label
  first : Position
  parts : List Tree
  rest : List Phrase

/-- What taking a token does to a phrase: nodes opened inside it, innermost first, parts that belong
to the node around it, and the phrases that are left there. -/
structure Opening where
  frames : List Frame
  parts : List Tree
  rest : List Phrase

namespace Opening

def followedBy (o : Opening) (p : Phrase) : Opening := { o with rest := o.rest ++ [p] }

def enclose (o : Opening) (l : Label) (first : Position) : Opening :=
  ⟨o.frames ++ [⟨l, first, o.parts, o.rest⟩], [], []⟩

end Opening

/-- Takes a token as the first one of a phrase. -/
def take (tok : Token) : Phrase → Option Opening
  | .nothing => none
  | .token t keep =>
    if t = tok.terminal then some ⟨[], if keep then [Tree.ofToken tok] else [], []⟩ else none
  | .seq p q =>
    match take tok p with
    | some o => some (o.followedBy q)
    | none => if p.nullable then take tok q else none
  | .alt p q => take tok p <|> take tok q
  | .many p => (take tok p).map (·.followedBy (.many p))
  | .afterItem item =>
    if tok.terminal = .keyword .comma then some ⟨[], [], [.afterComma item]⟩ else none
  | .afterComma item => (take tok item).map (·.followedBy (.afterItem item))
  | .node l p => (take tok p).map (·.enclose l tok.span.first)

/-- Takes a token as the first one of a list of phrases. -/
def takeAll (tok : Token) : List Phrase → Option Opening
  | [] => none
  | p :: ps =>
    match take tok p with
    | some o => some { o with rest := o.rest ++ ps }
    | none => if p.nullable then takeAll tok ps else none

structure Reader where
  /-- Open nodes, innermost first. -/
  frames : List Frame
  /-- Trees and phrases outside all nodes. -/
  trees : List Tree
  goal : List Phrase
  /-- The token taken last. -/
  last : Option Token

namespace Reader

def start (p : Phrase) : Reader := ⟨[], [], [p], none⟩

/-- The terminals that can be taken next while the given nodes are open. -/
def expectedIn (goal : List Phrase) : List Frame → List Terminal
  | [] => firstOfAll goal [.endOfInput]
  | f :: fs => firstOfAll f.rest (expectedIn goal fs)

/-- The terminals that can be taken next. When all nodes are closed and nothing is left to read,
the text is complete and there are none. -/
def expected (r : Reader) : List Terminal :=
  if r.frames.isEmpty && allNullable r.goal then [] else expectedIn r.goal r.frames

/-- The terminals among which the next token is recognised. -/
def admitted (r : Reader) : List Terminal :=
  match r.frames with
  | [] => firstOfAll r.goal []
  | f :: _ => firstOfAll f.rest (follow f.label)

/-- The span of an innermost node that ends with the last token. -/
def spanFrom (r : Reader) (first : Position) : Span :=
  ⟨first, (r.last.map (·.span.last)).getD first⟩

/-- Closes the innermost node. -/
def close (r : Reader) : Reader :=
  match r.frames with
  | [] => r
  | f :: rest =>
    let tree := Tree.node f.label (some (r.spanFrom f.first)) f.parts
    match rest with
    | [] => { r with frames := [], trees := r.trees ++ [tree] }
    | g :: gs => { r with frames := { g with parts := g.parts ++ [tree] } :: gs }

inductive Feed
  | taken (r : Reader)
  | finished (trees : List Tree)
  | refused (r : Reader)

/-- Offers a token to a reader with the given number of open nodes. -/
def feedFrom (tok : Token) : Nat → Reader → Feed
  | 0, r =>
    if tok.terminal = .endOfInput then
      if allNullable r.goal then .finished r.trees else .refused r
    else
      match takeAll tok r.goal with
      | some o => .taken { r with
          frames := o.frames, trees := r.trees ++ o.parts, goal := o.rest, last := some tok }
      | none => .refused r
  | depth + 1, r =>
    match r.frames with
    | [] => .refused r
    | f :: fs =>
      match takeAll tok f.rest with
      | some o => .taken { r with
          frames := o.frames ++ { f with parts := f.parts ++ o.parts, rest := o.rest } :: fs,
          last := some tok }
      | none =>
        if allNullable f.rest && (follow f.label).contains tok.terminal then
          feedFrom tok depth r.close
        else .refused r

def feed (r : Reader) (tok : Token) : Feed := feedFrom tok r.frames.length r

end Reader

/-- Why a text could not be read. -/
inductive Failure
  /-- A character that no token starts with, and what was admitted there. -/
  | character (c : Char) (position : Position) (admitted : List Terminal)
  /-- A token, possibly the end of input, where it cannot stand, and what can. -/
  | token (tok : Token) (expected : List Terminal)

namespace Reader

/-- The end of input, which is reported at the token before it. -/
def endToken (r : Reader) : Token :=
  ⟨.endOfInput, "", (r.last.map (·.span)).getD ⟨.first, .first⟩⟩

def finish (r : Reader) : Except Failure (List Tree) :=
  match r.feed r.endToken with
  | .finished trees => .ok trees
  | .taken r | .refused r => .error (.token r.endToken r.expected)

/-- The failure at a place where no admitted token stands. -/
def unrecognised (r : Reader) (c : Cursor) (ch : Char) : Failure :=
  match c.token? Terminal.all with
  | some (tok, _) => .token tok r.expected
  | none => .character ch c.position (scanned r.admitted)

/-- Reads to the end. The fuel counts tokens, of which there are no more than characters. -/
def run : Nat → Reader → Cursor → Except Failure (List Tree)
  | 0, r, _ => r.finish
  | fuel + 1, r, c =>
    let c := c.nextStart
    match c.rest with
    | [] => r.finish
    | ch :: _ =>
      match c.token? r.admitted with
      | none => .error (r.unrecognised c ch)
      | some (tok, c') =>
        match r.feed tok with
        | .taken r' => run fuel r' c'
        | .refused r' => .error (.token tok r'.expected)
        | .finished trees => .ok trees

end Reader

/-- Reads a whole text as one phrase. -/
def readAs (p : Phrase) (source : String) : Except Failure (List Tree) :=
  let c := Cursor.ofString source
  (Reader.start p).run (c.rest.length + 1) c

end PlatformGame.Parse
