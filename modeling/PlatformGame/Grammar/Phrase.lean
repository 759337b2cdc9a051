import PlatformGame.Grammar.Label
import PlatformGame.Grammar.Terminal

/-! # Phrases

A phrase is a form that a stretch of tokens may have. The language has no nested phrases of
unbounded depth, so the grammar is a handful of closed terms of this type, one for each kind of
block or value, and every question about it is answered by recursion on the term.

* `first p` lists the terminals that a text of `p` may start with, `p.nullable` says whether it may
  be empty.
* `p.followers after` lists, for every node inside `p`, what may stand after that node when `after`
  may stand after `p`. -/

namespace PlatformGame.Grammar

inductive Phrase
  /-- No token. -/
  | nothing
  /-- One token, which becomes a leaf of the tree if `keep` is set. -/
  | token (t : Terminal) (keep : Bool)
  | seq (p q : Phrase)
  | alt (p q : Phrase)
  /-- Any number of times, none included. -/
  | many (p : Phrase)
  /-- What may stand after an item of a listing: further items, each after a comma, and at the end
  possibly one more comma. -/
  | afterItem (item : Phrase)
  /-- What may stand after a comma of a listing. -/
  | afterComma (item : Phrase)
  /-- A text of `p` that becomes a node of the tree. -/
  | node (label : Label) (p : Phrase)
  deriving DecidableEq

namespace Phrase

def word (k : Keyword) : Phrase := token (.keyword k) false

def chain (ps : List Phrase) : Phrase := ps.foldr seq nothing

def oneOf : List Phrase → Phrase
  | [] => nothing
  | [p] => p
  | p :: ps => alt p (oneOf ps)

def optional (p : Phrase) : Phrase := alt p nothing

/-- Items divided by commas, with a comma allowed after the last. -/
def listing (item : Phrase) : Phrase := seq item (afterItem item)

def nullable : Phrase → Bool
  | nothing => true
  | token _ _ => false
  | seq p q => p.nullable && q.nullable
  | alt p q => p.nullable || q.nullable
  | many _ => true
  | afterItem _ => true
  | afterComma _ => true
  | node _ p => p.nullable

def first : Phrase → List Terminal
  | nothing => []
  | token t _ => [t]
  | seq p q => p.first ++ if p.nullable then q.first else []
  | alt p q => p.first ++ q.first
  | many p => p.first
  | afterItem _ => [.keyword .comma]
  | afterComma item => item.first
  | node _ p => p.first

/-- What may come next while a text of `p` and then one of `after` is read. -/
def firstOr (p : Phrase) (after : List Terminal) : List Terminal :=
  p.first ++ if p.nullable then after else []

def followers : Phrase → List Terminal → List (Label × List Terminal)
  | nothing, _ => []
  | token _ _, _ => []
  | seq p q, after => p.followers (q.firstOr after) ++ q.followers after
  | alt p q, after => p.followers after ++ q.followers after
  | many p, after => p.followers (p.first ++ after)
  | afterItem item, after => item.followers (.keyword .comma :: after)
  | afterComma item, after => item.followers (.keyword .comma :: after)
  | node l p, after => (l, after) :: p.followers after

end Phrase

end PlatformGame.Grammar
