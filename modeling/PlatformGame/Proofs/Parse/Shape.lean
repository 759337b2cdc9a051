import PlatformGame.Parse.Reader
import PlatformGame.Proofs.Source.Gap

/-! # Reading up to positions

The shape of a tree is the tree with all its spans moved to the start of the text, and the same is
said of tokens and readers: two of one shape differ in positions only. A reader takes a token in
lockstep with its shape (`feed_shape`), since no decision of it depends on a position.

`Reader.read` is a run with fuel for every character, which is never used up, so that a run is told
step by step without counting (`read_of_taken` and its companions). -/

namespace PlatformGame.Source

def Span.origin : Span := ⟨.first, .first⟩

def Token.shape (t : Token) : Token := { t with span := .origin }

@[simp] theorem Token.terminal_shape (t : Token) : t.shape.terminal = t.terminal := rfl

end PlatformGame.Source

namespace PlatformGame.Parse

open Grammar Source

namespace Tree

mutual

def shape : Tree → Tree
  | node l span children => node l (span.map fun _ => .origin) (shapes children)
  | leaf kind text span => leaf kind text (span.map fun _ => .origin)

def shapes : List Tree → List Tree
  | [] => []
  | t :: ts => t.shape :: shapes ts

end

@[simp] theorem shapes_eq_map (ts : List Tree) : shapes ts = ts.map shape := by
  induction ts with
  | nil => rfl
  | cons t ts ih => rw [shapes, ih, List.map_cons]

@[simp] theorem shape_ofToken (tok : Token) : (ofToken tok).shape = ofToken tok.shape := rfl

end Tree

def Frame.shape (f : Frame) : Frame := ⟨f.label, .first, f.parts.map Tree.shape, f.rest⟩

def Opening.shape (o : Opening) : Opening :=
  ⟨o.frames.map Frame.shape, o.parts.map Tree.shape, o.rest⟩

namespace Reader

def shape (r : Reader) : Reader :=
  ⟨r.frames.map Frame.shape, r.trees.map Tree.shape, r.goal, r.last.map Token.shape⟩

def Feed.shape : Feed → Feed
  | taken r => taken r.shape
  | finished trees => finished (trees.map Tree.shape)
  | refused r => refused r.shape

end Reader

/-! ## Taking a token -/

theorem take_shape (tok : Token) (p : Phrase) :
    take tok.shape p = (take tok p).map Opening.shape := by
  induction p with
  | nothing => rfl
  | token t keep =>
    by_cases h : t = tok.terminal
    · cases keep <;> simp [take, h, Opening.shape]
    · simp [take, h]
  | seq p q ihp ihq =>
    simp only [take, ihp, ihq]
    cases take tok p with
    | some o => rfl
    | none => cases p.nullable <;> rfl
  | alt p q ihp ihq =>
    simp only [take, ihp, ihq]
    cases take tok p <;> rfl
  | many p ih | afterComma p ih =>
    simp only [take, ih, Option.map_map]
    rfl
  | afterItem p ih =>
    by_cases h : tok.terminal = .keyword .comma <;> simp [take, h, Opening.shape]
  | node l p ih =>
    simp only [take, ih, Option.map_map]
    refine congrArg (Option.map · (take tok p)) (funext fun o => ?_)
    simp [Opening.enclose, Opening.shape, Frame.shape, Token.shape, Span.origin]

theorem takeAll_shape (tok : Token) (ps : List Phrase) :
    takeAll tok.shape ps = (takeAll tok ps).map Opening.shape := by
  induction ps with
  | nil => rfl
  | cons p ps ih =>
    simp only [takeAll, take_shape, ih]
    cases take tok p with
    | some o => rfl
    | none => cases p.nullable <;> rfl

namespace Reader

theorem spanFrom_shape (r : Reader) : r.shape.spanFrom .first = .origin := by
  cases h : r.last <;> simp [spanFrom, shape, h, Token.shape, Span.origin]

theorem close_shape (r : Reader) : r.shape.close = r.close.shape := by
  have hspan := r.spanFrom_shape
  obtain ⟨frames, trees, goal, last⟩ := r
  rcases frames with _ | ⟨f, _ | ⟨g, gs⟩⟩
  · rfl
  · simp [close, shape, Tree.shape, Frame.shape, ← hspan]
  · simp [close, shape, Tree.shape, Frame.shape, ← hspan]

theorem feedFrom_shape (tok : Token) (depth : Nat) (r : Reader) :
    feedFrom tok.shape depth r.shape = (feedFrom tok depth r).shape := by
  induction depth generalizing r with
  | zero =>
    have hgoal : r.shape.goal = r.goal := rfl
    simp only [feedFrom, takeAll_shape, hgoal, Token.terminal_shape]
    split
    · split <;> rfl
    · cases takeAll tok r.goal with
      | none => rfl
      | some o => simp [Feed.shape, shape, Opening.shape]
  | succ depth ih =>
    have hclose := ih r.close
    rw [← close_shape] at hclose
    obtain ⟨frames, trees, goal, last⟩ := r
    cases frames with
    | nil => rfl
    | cons f fs =>
      cases ho : takeAll tok f.rest with
      | some o => simp [feedFrom, shape, Frame.shape, takeAll_shape, ho, Feed.shape, Opening.shape]
      | none =>
        by_cases h : (allNullable f.rest && (follow f.label).contains tok.terminal) = true
        · simp only [shape, List.map_cons, Frame.shape] at hclose
          simp only [feedFrom, shape, List.map_cons, Frame.shape, takeAll_shape, ho,
            Option.map_none, Token.terminal_shape, if_pos h, hclose]
        · simp only [feedFrom, shape, List.map_cons, Frame.shape, takeAll_shape, ho,
            Option.map_none, Token.terminal_shape, if_neg h, Feed.shape]

theorem feed_shape (r : Reader) (tok : Token) : r.shape.feed tok.shape = (r.feed tok).shape := by
  rw [feed, feed, ← feedFrom_shape]
  simp [shape]

/-- Readers of one shape take a token alike. -/
theorem exists_feed_of_shape_eq {r r' s : Reader} (hr : r'.shape = r.shape) {tok tok' : Token}
    (htok : tok'.shape = tok.shape) (h : r.feed tok = .taken s) :
    ∃ s', r'.feed tok' = .taken s' ∧ s'.shape = s.shape := by
  have hfeed : (r'.feed tok').shape = .taken s.shape := by
    rw [← feed_shape, hr, htok, feed_shape, h]
    rfl
  cases hf : r'.feed tok' with
  | taken s' =>
    rw [hf] at hfeed
    exact ⟨s', rfl, Feed.taken.inj hfeed⟩
  | finished trees => simp [hf, Feed.shape] at hfeed
  | refused s' => simp [hf, Feed.shape] at hfeed

theorem admitted_shape (r : Reader) : r.shape.admitted = r.admitted := by
  obtain ⟨_ | ⟨f, fs⟩, trees, goal, last⟩ := r <;> rfl

theorem endToken_shape (r : Reader) : r.shape.endToken = r.endToken.shape := by
  cases h : r.last <;> simp [endToken, shape, h, Token.shape, Span.origin]

/-- Readers of one shape come to an end alike. -/
theorem finish_toOption_eq {r r' : Reader} (h : r.shape = r'.shape) :
    r.finish.toOption.map (List.map Tree.shape) = r'.finish.toOption.map (List.map Tree.shape) := by
  have hfeed : (r.feed r.endToken).shape = (r'.feed r'.endToken).shape := by
    rw [← feed_shape, ← feed_shape, ← endToken_shape, ← endToken_shape, h]
  unfold finish
  cases hr : r.feed r.endToken <;> cases hr' : r'.feed r'.endToken <;>
    simp_all [Feed.shape, Except.toOption]

/-! ## Runs without fuel -/

/-- Reads to the end of a text. -/
def read (r : Reader) (c : Cursor) : Except Failure (List Tree) := r.run (c.rest.length + 1) c

theorem length_rest_lt_of_token? {c c' : Cursor} {ts : List Terminal} {tok : Token}
    (h : c.token? ts = some (tok, c')) : c'.rest.length < c.rest.length := by
  obtain ⟨hm, htext, -⟩ := Cursor.of_token? h
  rw [← htext, List.length_append]
  exact Nat.lt_add_of_pos_left (List.length_pos_iff.2 hm.ne_nil)

theorem run_eq_run {fuel fuel' : Nat} {r : Reader} {c : Cursor} (h : c.rest.length < fuel)
    (h' : c.rest.length < fuel') : r.run fuel c = r.run fuel' c := by
  induction fuel generalizing fuel' r c with
  | zero => exact absurd h (Nat.not_lt_zero _)
  | succ fuel ih =>
    cases fuel' with
    | zero => exact absurd h' (Nat.not_lt_zero _)
    | succ fuel' =>
      have hle := c.length_nextStart_le
      simp only [run]
      split
      · rfl
      · split
        · rfl
        · next htok =>
          have hlt := length_rest_lt_of_token? htok
          split
          · exact ih (by omega) (by omega)
          · rfl
          · rfl

variable {r r' : Reader} {c c' : Cursor} {tok : Token}

/-- A run goes by where the next token starts. -/
theorem read_congr (h : c.nextStart = c'.nextStart) : r.read c = r.read c' := by
  have hle : c.rest.length < c.rest.length + c'.rest.length + 1 := by omega
  have hle' : c'.rest.length < c.rest.length + c'.rest.length + 1 := by omega
  rw [read, read, run_eq_run (Nat.lt_succ_self _) hle, run_eq_run (Nat.lt_succ_self _) hle', run,
    run, h]

theorem read_of_nil (h : c.nextStart.rest = []) : r.read c = r.finish := by
  simp only [read, run, h]

theorem toOption_read_of_none (hne : c.nextStart.rest ≠ [])
    (h : c.nextStart.token? r.admitted = none) : (r.read c).toOption = none := by
  simp only [read, run, h]
  split
  · next hnil => exact absurd hnil hne
  · rfl

theorem nextStart_ne_nil {ts : List Terminal} (h : c.nextStart.token? ts = some (tok, c')) :
    c.nextStart.rest ≠ [] := by
  have hlt := length_rest_lt_of_token? h
  exact fun hnil => by simp [hnil] at hlt

theorem read_of_taken (h : c.nextStart.token? r.admitted = some (tok, c'))
    (hfeed : r.feed tok = .taken r') : r.read c = r'.read c' := by
  have hlt := length_rest_lt_of_token? h
  have hle := c.length_nextStart_le
  simp only [read, run, h, hfeed]
  split
  · next hnil => exact absurd hnil (nextStart_ne_nil h)
  · exact run_eq_run (by omega) (Nat.lt_succ_self _)

theorem read_of_finished {trees : List Tree}
    (h : c.nextStart.token? r.admitted = some (tok, c')) (hfeed : r.feed tok = .finished trees) :
    r.read c = .ok trees := by
  simp only [read, run, h, hfeed]
  split
  · next hnil => exact absurd hnil (nextStart_ne_nil h)
  · rfl

theorem toOption_read_of_refused (h : c.nextStart.token? r.admitted = some (tok, c'))
    (hfeed : r.feed tok = .refused r') : (r.read c).toOption = none := by
  simp only [read, run, h, hfeed]
  split
  · next hnil => exact absurd hnil (nextStart_ne_nil h)
  · rfl

end Reader

end PlatformGame.Parse
