import PlatformGame.Proofs.Draft.Order
import PlatformGame.Proofs.Draft.Silence
import PlatformGame.Proofs.Parse.Sentence

/-! # Movement patterns

The tokens of a text tell which movements are built and which parameters are ignored: a pattern is a
keyword with the parameters up to the next closing brace (`patternsIn`). -/

namespace PlatformGame

open Grammar Parse Source

variable {toks : List Token} {key : String} {l : Label} {parts : List Sketch} {k : Keyword}
  {trees : List Tree}

namespace MovementKind

/-- The keys of the parameters that movements of a kind use. -/
def parameters : MovementKind → List String
  | patrol => ["speed", "distance"]
  | chase => ["speed", "range"]
  | fly => ["speed", "amplitude", "frequency"]
  | static => []

def word : MovementKind → Keyword
  | patrol => .patrol
  | chase => .chase
  | fly => .fly
  | static => .static

def label : MovementKind → Label
  | patrol => .patrol
  | chase => .chase
  | fly => .fly
  | static => .staticMovement

def record : MovementKind → RecordKind
  | patrol => .patrol
  | chase => .chase
  | fly => .fly
  | static => .static

/-- The kinds with parameters. -/
def moving : List MovementKind := [patrol, chase, fly]

end MovementKind

namespace Draft

/-! ## Patterns among tokens -/

/-- What tokens add to what is found in those after them. -/
def Adds (find : List Token → List α) (toks : List Token) (found : List α) : Prop :=
  ∀ after, find (toks ++ after) = found ++ find after

namespace Adds

variable {find : List Token → List α}

theorem nil : Adds find [] [] := fun _ => rfl

theorem append {ts us : List Token} {as bs : List α} (ht : Adds find ts as)
    (hu : Adds find us bs) : Adds find (ts ++ us) (as ++ bs) := by
  intro after
  rw [List.append_assoc, ht, hu, List.append_assoc]

theorem eq {as : List α} (h : Adds find toks as) (hnil : find [] = []) : find toks = as := by
  simpa [hnil] using h []

theorem of_forall (h : ∀ tok ∈ toks, Adds find [tok] []) : Adds find toks [] := by
  induction toks with
  | nil => exact nil
  | cons tok toks ih =>
    rw [List.forall_mem_cons] at h
    exact h.1.append (ih h.2)

end Adds

/-- The key of the parameter that a word starts. -/
def parameterKey? : Terminal → Option String
  | .keyword .speed => some "speed"
  | .keyword .distance => some "distance"
  | .keyword .range => some "range"
  | .keyword .amplitude => some "amplitude"
  | .keyword .frequency => some "frequency"
  | _ => none

/-- The parameters among the tokens: a key, a colon and a literal. -/
def parametersIn : List Token → List (String × String)
  | [] => []
  | tok :: toks => (do
      let key ← parameterKey? tok.terminal
      let value ← toks[1]?
      pure (key, value.text)).toList ++ parametersIn toks

theorem adds_parametersIn_of_none {tok : Token} (h : parameterKey? tok.terminal = none) :
    Adds parametersIn [tok] [] := by
  intro after
  simp [parametersIn, h]

theorem adds_parameter {name colon value : Token} (hname : parameterKey? name.terminal = some key)
    (hcolon : parameterKey? colon.terminal = none) (hvalue : parameterKey? value.terminal = none) :
    Adds parametersIn [name, colon, value] [(key, value.text)] := by
  intro after
  simp [parametersIn, hname, hcolon, hvalue]

/-- A movement with all parameters that are given for it, at the place of its keyword. -/
structure Pattern where
  kind : MovementKind
  place : Position
  parameters : List (String × String)

/-- The kind of movement that a word stands for. -/
def movementKind? : Terminal → Option MovementKind
  | .keyword .patrol => some .patrol
  | .keyword .chase => some .chase
  | .keyword .fly => some .fly
  | .keyword .static => some .static
  | _ => none

/-- The pattern that starts with the first of the tokens. -/
def patternOf (kind : MovementKind) (tok : Token) (toks : List Token) : Pattern where
  kind := kind
  place := tok.span.first
  parameters := if kind = .static then [] else
    parametersIn (toks.takeWhile fun t => t.terminal != .keyword .closeBrace)

/-- The movement patterns among the tokens. -/
def patternsIn : List Token → List Pattern
  | [] => []
  | tok :: toks =>
    ((movementKind? tok.terminal).map fun kind => patternOf kind tok toks).toList ++ patternsIn toks

theorem adds_patternsIn_of_none {tok : Token} (h : movementKind? tok.terminal = none) :
    Adds patternsIn [tok] [] := by
  intro after
  simp [patternsIn, h]

namespace Pattern

/-- One warning for each key that is not of the kind of the pattern, in order of first mention. -/
def ignored (p : Pattern) : List Warning :=
  ((p.parameters.map (·.1)).eraseDups.filter fun key => key ∉ p.kind.parameters).map fun key =>
    .ignoredParameter p.kind.text key (some p.place)

/-- The last literal that is given for a parameter. -/
def literal? (p : Pattern) (key : String) : Option String :=
  (p.parameters.filter fun e => e.1 == key).getLast?.map (·.2)

def value? (p : Pattern) (key : String) : Option Number :=
  (p.literal? key).bind fun s => (Number.ofLiteral s).toOption

/-- The movement with the last values of the parameters of its own kind. -/
def movement (p : Pattern) : Movement :=
  match p.kind with
  | .patrol => .patrol (p.value? "speed") (p.value? "distance")
  | .chase => .chase (p.value? "speed") (p.value? "range")
  | .fly => .fly (p.value? "speed") (p.value? "amplitude") (p.value? "frequency")
  | .static => .static

theorem ignored_eq_nil_iff (p : Pattern) :
    p.ignored = [] ↔ ∀ e ∈ p.parameters, e.1 ∈ p.kind.parameters := by
  simp [ignored, List.filter_eq_nil_iff]

example : (Pattern.mk .patrol ⟨3, 5⟩
    [("range", "1"), ("speed", "2"), ("amplitude", "3"), ("range", "4")]).ignored =
      [.ignoredParameter "patrol" "range" (some ⟨3, 5⟩),
        .ignoredParameter "patrol" "amplitude" (some ⟨3, 5⟩)] := by
  decide

end Pattern

/-! ## Parameters as they are built -/

/-- The part of a body that a parameter is built as. -/
def Sets (e : String × String) (x : Sketch) : Prop :=
  ∃ n, Number.ofLiteral e.2 = .ok n ∧ x = .property (.text e.1) (.number n) false

theorem getLast?_filterMap_of_isSome {f : α → Option β} {as : List α}
    (h : ∀ a ∈ as, (f a).isSome = true) : (as.filterMap f).getLast? = as.getLast?.bind f := by
  induction as using List.reverseRecOn with
  | nil => rfl
  | append_singleton as a ih =>
    obtain ⟨b, hb⟩ := Option.isSome_iff_exists.1 (h a (List.mem_concat_self))
    simp [hb]

theorem eraseDups_concat [BEq α] [LawfulBEq α] [DecidableEq α] (as : List α) (a : α) :
    (as ++ [a]).eraseDups = if a ∈ as then as.eraseDups else as.eraseDups ++ [a] := by
  rw [List.eraseDups_append]
  split
  · next h => simp [List.removeAll, h]
  · next h => simp [List.removeAll, h, List.eraseDups_cons]

/-- The keys of a body are those of its parts, in order of first mention. -/
theorem Node.keysOf_eq_eraseDups {singles lists : List String}
    (h : ∀ x ∈ parts, Fits singles lists x) :
    keysOf parts = (parts.filterMap Sketch.key?).eraseDups := by
  induction parts using List.reverseRecOn with
  | nil => rfl
  | append_singleton parts x ih =>
    rw [List.forall_mem_append, List.forall_mem_singleton] at h
    have hstep {k : String} {v : Sketch} (hk : x.key? = some k)
        (hx : addPair (parts.foldl addPair []) x = putPair k v (parts.foldl addPair [])) :
        keysOf (parts ++ [x]) = ((parts ++ [x]).filterMap Sketch.key?).eraseDups := by
      have hkeys : keysOf parts = (parts.filterMap Sketch.key?).eraseDups := ih h.1
      rw [keysOf] at hkeys
      have hlast : [x].filterMap Sketch.key? = [k] := by simp [hk]
      rw [keysOf, List.foldl_concat, hx, keys_putPair, hkeys, List.filterMap_append, hlast,
        eraseDups_concat]
      simp only [List.mem_eraseDups]
    cases h.2 with
    | clip _ => exact hstep rfl rfl
    | single _ => exact hstep rfl rfl
    | more _ => exact hstep rfl rfl

section

variable {ps : List (String × String)} {xs : List Sketch}

theorem fits_of_sets (h : List.Forall₂ Sets ps xs) (hps : ∀ e ∈ ps, e.1 ∈ paramKeys) :
    ∀ x ∈ xs, Fits paramKeys [] x := by
  induction h with
  | nil => exact List.forall_mem_nil _
  | cons hset _ ih =>
    obtain ⟨n, -, rfl⟩ := hset
    rw [List.forall_mem_cons] at hps ⊢
    exact ⟨.single hps.1, ih hps.2⟩

theorem keys_of_sets (h : List.Forall₂ Sets ps xs) :
    xs.filterMap Sketch.key? = ps.map (·.1) := by
  induction h with
  | nil => rfl
  | cons hset _ ih =>
    obtain ⟨n, -, rfl⟩ := hset
    simp [Sketch.key?, ih]

theorem exists_ofLiteral_of_sets (h : List.Forall₂ Sets ps xs) :
    ∀ e ∈ ps, ∃ n, Number.ofLiteral e.2 = .ok n := by
  induction h with
  | nil => exact List.forall_mem_nil _
  | cons hset _ ih =>
    obtain ⟨n, hn, -⟩ := hset
    exact List.forall_mem_cons.2 ⟨⟨n, hn⟩, ih⟩

theorem singles_of_sets (h : List.Forall₂ Sets ps xs) (key : String) :
    (under key xs).filterMap Sketch.single? = (ps.filter fun e => e.1 == key).filterMap fun e =>
      (Number.ofLiteral e.2).toOption.map .number := by
  induction h with
  | nil => rfl
  | @cons e x ps xs hset _ ih =>
    obtain ⟨n, hn, rfl⟩ := hset
    by_cases hkey : e.1 = key
    · simpa [under, Sketch.key?, Sketch.single?, hkey, hn, Except.toOption] using ih
    · simpa [under, List.filter_cons, Sketch.key?, hkey] using ih

/-- What is built under a key is the last value that is given for it. -/
theorem settled_of_sets (h : List.Forall₂ Sets ps xs) (hkey : key ∉ listKeys) :
    settled key xs = ((ps.filter fun e => e.1 == key).getLast?.bind fun e =>
      (Number.ofLiteral e.2).toOption).map .number := by
  rw [settled, if_neg hkey, singles_of_sets h, getLast?_filterMap_of_isSome, Option.map_bind]
  · rfl
  · intro e he
    obtain ⟨n, hn⟩ := exists_ofLiteral_of_sets h e (List.mem_of_mem_filter he)
    simp [hn, Except.toOption]

end

/-! ## From tokens to what is built -/

/-- Whatever is built of the phrase, the tokens, the warnings and the sketches are in `V`. -/
def Tells (p : Phrase) (V : List Token → List Warning → List Sketch → Prop) : Prop :=
  ∀ ⦃toks : List Token⦄ ⦃trees : List Tree⦄ ⦃xs : List Sketch⦄, Derives p toks trees →
    (∀ tok ∈ toks, tok.terminal.Matches tok.text.toList) → (meanings trees).outcome = .ok xs →
    V toks (meanings trees).warnings xs

/-- What is told of two texts is told of one after the other. -/
structure Additive (V : List Token → List Warning → List Sketch → Prop) : Prop where
  nil : V [] [] []
  append : V ts ws xs → V us vs ys → V (ts ++ us) (ws ++ vs) (xs ++ ys)

end Draft

/-- The tokens and the outermost nodes of a phrase. -/
def Grammar.Phrase.atoms : Phrase → List Phrase
  | nothing => []
  | token t keep => [token t keep]
  | seq p q | alt p q => p.atoms ++ q.atoms
  | many p => p.atoms
  | afterItem p | afterComma p => word .comma :: p.atoms
  | node l p => [node l p]

namespace Draft

theorem exists_of_meanings_append {ts us : List Tree} {zs : List Sketch}
    (h : (meanings (ts ++ us)).outcome = .ok zs) :
    ∃ xs ys, (meanings ts).outcome = .ok xs ∧ (meanings us).outcome = .ok ys ∧ zs = xs ++ ys ∧
      (meanings (ts ++ us)).warnings = (meanings ts).warnings ++ (meanings us).warnings := by
  rw [meanings_append] at h ⊢
  obtain ⟨xs, hxs, h⟩ := Build.exists_of_outcome_bind h
  obtain ⟨ys, hys, h⟩ := Build.exists_of_outcome_bind h
  cases h
  refine ⟨xs, ys, hxs, hys, rfl, ?_⟩
  rw [Build.warnings_bind hxs, Build.warnings_bind hys]
  exact congrArg _ (List.append_nil _)

theorem exists_of_meanings_node {span : Option Span} {children : List Tree} {zs : List Sketch}
    (h : (meanings [.node l span children]).outcome = .ok zs) :
    ∃ xs z, (meanings children).outcome = .ok xs ∧ zs = [z] ∧
      (Node.assemble ⟨l, span.map (·.first), xs, .noPart⟩).outcome = .ok z ∧
      (meanings [.node l span children]).warnings = (meanings children).warnings ++
        (Node.assemble ⟨l, span.map (·.first), xs, .noPart⟩).warnings := by
  rw [meanings_singleton, meaning] at h ⊢
  obtain ⟨z, hz, h⟩ := Build.exists_of_outcome_bind h
  cases h
  rw [Build.warnings_bind hz]
  obtain ⟨xs, hxs, hassemble⟩ := Build.exists_of_outcome_bind hz
  refine ⟨xs, z, hxs, rfl, hassemble, ?_⟩
  rw [Build.warnings_bind hxs]
  exact List.append_nil _

namespace Tells

variable {p : Phrase} {V W : List Token → List Warning → List Sketch → Prop}

theorem mono (h : Tells p V) (hVW : ∀ toks ws xs, V toks ws xs → W toks ws xs) : Tells p W :=
  fun _ _ _ hd hm hxs => hVW _ _ _ (h hd hm hxs)

/-- What is told of its tokens and nodes is told of a phrase. -/
theorem of_atoms (hV : Additive V) (h : ∀ q ∈ p.atoms, Tells q V) : Tells p V := by
  intro toks trees xs hd hm hxs
  have happend (ts us : List Token) (ys zs : List Tree) {xs : List Sketch}
      (hm : ∀ tok ∈ ts ++ us, tok.terminal.Matches tok.text.toList)
      (hxs : (meanings (ys ++ zs)).outcome = .ok xs)
      (hts : (∀ tok ∈ ts, tok.terminal.Matches tok.text.toList) → ∀ xs,
        (meanings ys).outcome = .ok xs → V ts (meanings ys).warnings xs)
      (hus : (∀ tok ∈ us, tok.terminal.Matches tok.text.toList) → ∀ xs,
        (meanings zs).outcome = .ok xs → V us (meanings zs).warnings xs) :
      V (ts ++ us) (meanings (ys ++ zs)).warnings xs := by
    obtain ⟨xs₁, xs₂, hxs₁, hxs₂, rfl, hws⟩ := exists_of_meanings_append hxs
    rw [List.forall_mem_append] at hm
    rw [hws]
    exact hV.append (hts hm.1 xs₁ hxs₁) (hus hm.2 xs₂ hxs₂)
  induction hd generalizing xs with
  | nothing | manyEnd | itemEnd | commaEnd =>
    cases hxs
    exact hV.nil
  | token tok keep => exact h _ List.mem_cons_self (.token tok keep) hm hxs
  | seq _ _ ihp ihq =>
    rw [Phrase.atoms, List.forall_mem_append] at h
    exact happend _ _ _ _ hm hxs (fun hm xs => ihp h.1 hm) fun hm xs => ihq h.2 hm
  | left _ ih => exact ih (List.forall_mem_append.1 h).1 hm hxs
  | right _ ih => exact ih (List.forall_mem_append.1 h).2 hm hxs
  | more _ _ ihp ihq => exact happend _ _ _ _ hm hxs (fun hm xs => ihp h hm) fun hm xs => ihq h hm
  | item _ _ ihp ihq =>
    exact happend _ _ _ _ hm hxs (fun hm xs => ihp (List.forall_mem_cons.1 h).2 hm)
      fun hm xs => ihq h hm
  | @comma item ts ys tok hcomma _ ih =>
    have hword : Derives (.word .comma) [tok] [] := derives_token_iff.2 ⟨tok, hcomma, rfl, rfl⟩
    exact happend [tok] _ [] _ hm hxs
      (fun hm xs => (List.forall_mem_cons.1 h).1 hword hm) fun hm xs => ih h hm
  | node l hd _ => exact h _ List.mem_cons_self (.node l hd) hm hxs

/-- A token that leaves no tree. -/
theorem word (h : ∀ tok : Token, tok.terminal = .keyword k → V [tok] [] []) :
    Tells (.word k) V := by
  intro toks trees xs hd _ hxs
  obtain ⟨tok, hk, rfl, rfl⟩ := derives_token_iff.1 hd
  cases hxs
  exact h tok hk

end Tells

/-! ## Parameters of patterns -/

/-- The tokens of some parameters, which are built without warnings. -/
structure TellsParameters (toks : List Token) (ws : List Warning) (xs : List Sketch) : Prop where
  silent : ws = []
  inside : ∀ tok ∈ toks, tok.terminal ≠ .keyword .closeBrace
  plain : ∀ tok ∈ toks, movementKind? tok.terminal = none
  found : ∃ ps, Adds parametersIn toks ps ∧ List.Forall₂ Sets ps xs ∧ ∀ e ∈ ps, e.1 ∈ paramKeys

theorem additive_tellsParameters : Additive TellsParameters where
  nil := ⟨rfl, List.forall_mem_nil _, List.forall_mem_nil _, [], .nil, .nil, List.forall_mem_nil _⟩
  append h h' := by
    obtain ⟨ps, hps, hsets, hkeys⟩ := h.found
    obtain ⟨qs, hqs, hsets', hkeys'⟩ := h'.found
    refine ⟨?_, List.forall_mem_append.2 ⟨h.inside, h'.inside⟩,
      List.forall_mem_append.2 ⟨h.plain, h'.plain⟩, ps ++ qs, hps.append hqs,
      List.rel_append hsets hsets', List.forall_mem_append.2 ⟨hkeys, hkeys'⟩⟩
    rw [h.silent, h'.silent, List.append_nil]

/-- The number that is built of a literal. -/
theorem exists_ofLiteral_of_number {tok : Token} {span : Option Span} {xs : List Sketch}
    (h : (meanings [.node .number span [Tree.ofToken tok]]).outcome = .ok xs) :
    ∃ n, Number.ofLiteral tok.text = .ok n ∧ xs = [.number n] ∧
      (meanings [.node .number span [Tree.ofToken tok]]).warnings = [] := by
  obtain ⟨ys, x, hys, rfl, hx, hws⟩ := exists_of_meanings_node h
  have hleaf : meanings [Tree.ofToken tok] =
      pure [.token (Tree.kindOf tok.terminal) tok.text] := by
    rw [meanings_singleton, meaning_ofToken, pure_bind]
  rw [hleaf] at hys hws
  cases hys
  change (Node.number _).outcome = _ at hx
  simp only [Node.number, Node.firstText, Node.first, pure_bind, Sketch.plain, Sketch.text?,
    Option.getD_some] at hx
  cases hn : Number.ofLiteral tok.text with
  | ok n =>
    rw [hn] at hx
    cases hx
    exact ⟨n, rfl, rfl, hws.trans Node.silently_number.silent⟩
  | error e =>
    rw [hn] at hx
    cases hx

theorem exists_of_derives_field {value : Phrase} (h : Derives (field l k value) toks trees) :
    ∃ name colon rest span children, toks = name :: colon :: rest ∧ name.terminal = .keyword k ∧
      colon.terminal = .keyword .colon ∧ Derives value rest children ∧
      trees = [.node l span children] := by
  obtain ⟨_, _, children, rfl, hparts, rfl⟩ := derives_node_iff.1 h
  obtain ⟨name, _, hname, htoks, hrest⟩ := derives_skip_iff.1 hparts
  obtain ⟨colon, rest, hcolon, rfl, hvalue⟩ := derives_skip_iff.1 hrest
  exact ⟨name, colon, rest, _, children, htoks, hname, hcolon, derives_last_iff.1 hvalue, rfl⟩

theorem tells_parameter (hl : l.single? = some key) (hk : parameterKey? (.keyword k) = some key)
    (hkey : key ∈ paramKeys) : Tells (field l k number) TellsParameters := by
  have hplain : k ≠ .closeBrace ∧ movementKind? (.keyword k) = none := by
    cases k <;> cases hk <;> exact ⟨by decide, rfl⟩
  intro toks trees xs hd _ hxs
  obtain ⟨name, colon, _, _, _, rfl, hname, hcolon, hvalue, rfl⟩ := exists_of_derives_field hd
  obtain ⟨value, _, _, rfl, hliteral, rfl⟩ := derives_node_iff.1 hvalue
  obtain ⟨_, hnumber, htoks, rfl⟩ := derives_token_iff.1 hliteral
  obtain ⟨rfl, rfl⟩ := List.cons.inj htoks
  obtain ⟨parts, x, hparts, rfl, hx, hws⟩ := exists_of_meanings_node hxs
  obtain ⟨n, hn, rfl, hsilent⟩ := exists_ofLiteral_of_number hparts
  rw [Node.assemble_of_single hl] at hx hws
  cases hx
  refine ⟨?_, ?_, ?_, [(key, value.text)], adds_parameter ?_ ?_ ?_, .cons ⟨n, hn, rfl⟩ .nil, ?_⟩
  · exact hws.trans (List.append_eq_nil_iff.2 ⟨hsilent, (Node.silently_value key).silent⟩)
  · simp [hname, hcolon, hnumber, hplain.1]
  · simpa [hname, hcolon, hnumber, hplain.2] using ⟨rfl, rfl⟩
  · rw [hname, hk]
  · rw [hcolon]
    rfl
  · rw [hnumber]
    rfl
  · simpa using hkey

theorem tells_parameters : Tells (items movementParam) TellsParameters := by
  have hcomma : Tells (.word .comma) TellsParameters := .word fun tok htok =>
    ⟨rfl, by simp [htok], by simp [htok, movementKind?], [],
      adds_parametersIn_of_none (by rw [htok]; rfl), .nil, List.forall_mem_nil _⟩
  have hparams : ∀ q ∈ movementParam.atoms, Tells q TellsParameters := by
    simp only [movementParam, Phrase.oneOf, field, Phrase.atoms, List.cons_append, List.nil_append,
      List.forall_mem_cons]
    exact ⟨tells_parameter rfl rfl (by decide), tells_parameter rfl rfl (by decide),
      tells_parameter rfl rfl (by decide), tells_parameter rfl rfl (by decide),
      tells_parameter rfl rfl (by decide), List.forall_mem_nil _⟩
  refine .of_atoms additive_tellsParameters fun q hq => ?_
  simp only [items, withComma, Phrase.optional, Phrase.atoms, List.mem_append, List.not_mem_nil,
    or_false] at hq
  rcases hq with (hq | hq) | (hq | hq)
  · exact hparams q hq
  · exact List.mem_singleton.1 hq ▸ hcomma
  · exact hparams q hq
  · exact List.mem_singleton.1 hq ▸ hcomma

/-! ## Patterns as they are built -/

/-- The literals of a pattern can all be read. -/
def Pattern.Readable (p : Pattern) : Prop :=
  ∀ e ∈ p.parameters, ∃ n, Number.ofLiteral e.2 = .ok n

/-- The tokens of a pattern, of which its movement is built. -/
def TellsPattern (toks : List Token) (ws : List Warning) (xs : List Sketch) : Prop :=
  ∃ p x, Adds patternsIn toks [p] ∧ p.Readable ∧ ws = p.ignored ∧ xs = [x] ∧
    x.asMovement? = some p.movement

theorem Pattern.value?_eq (p : Pattern) (key : String) : p.value? key =
    (p.parameters.filter fun e => e.1 == key).getLast?.bind fun e =>
      (Number.ofLiteral e.2).toOption := by
  rw [value?, literal?, Option.bind_map]
  rfl

theorem asNumber?_fieldValue {p : Pattern} (hsets : List.Forall₂ Sets p.parameters parts)
    (hkeys : ∀ e ∈ p.parameters, e.1 ∈ paramKeys) {kind : RecordKind} (hlists : kind.lists = [])
    (hkey : key ∉ listKeys) :
    (Node.fieldValue kind [] parts key).asOption? Sketch.asNumber? = some (p.value? key) := by
  have hvalue := valueOf_eq_settled (by decide) (List.forall_mem_nil _) key
    (fits_of_sets hsets hkeys)
  rw [settled_of_sets hsets hkey, ← p.value?_eq] at hvalue
  simp only [Node.fieldValue, List.lookup_nil, Option.none_or, hvalue, Node.unset, hlists]
  cases p.value? key <;> rfl

theorem asMovement?_record {p : Pattern} (hkind : p.kind ∈ MovementKind.moving)
    (hsets : List.Forall₂ Sets p.parameters parts) (hkeys : ∀ e ∈ p.parameters, e.1 ∈ paramKeys) :
    (Sketch.record p.kind.record
      (p.kind.record.fields.map (Node.fieldValue p.kind.record [] parts))).asMovement? =
        some p.movement := by
  have hvalue (kind : RecordKind) (hlists : kind.lists = []) (key : String)
      (hkey : key ∉ listKeys) := asNumber?_fieldValue hsets hkeys hlists hkey
  obtain ⟨kind, place, params⟩ := p
  simp only [MovementKind.moving, List.mem_cons, List.not_mem_nil, or_false] at hkind
  rcases hkind with rfl | rfl | rfl
  · simp [MovementKind.record, RecordKind.fields, Sketch.asMovement?, Pattern.movement,
      hvalue .patrol rfl "speed" (by decide),
      hvalue .patrol rfl "distance" (by decide)]
  · simp [MovementKind.record, RecordKind.fields, Sketch.asMovement?, Pattern.movement,
      hvalue .chase rfl "speed" (by decide),
      hvalue .chase rfl "range" (by decide)]
  · simp [MovementKind.record, RecordKind.fields, Sketch.asMovement?, Pattern.movement,
      hvalue .fly rfl "speed" (by decide),
      hvalue .fly rfl "amplitude" (by decide),
      hvalue .fly rfl "frequency" (by decide)]

/-- The node of a pattern with parameters is built as a movement. -/
theorem assemble_pattern {kind : MovementKind} (hkind : kind ∈ MovementKind.moving) {n : Node}
    (hn : n.label = kind.label) {ps : List (String × String)}
    (hsets : List.Forall₂ Sets ps n.parts) (hkeys : ∀ e ∈ ps, e.1 ∈ paramKeys) :
    n.assemble = ⟨((ps.map (·.1)).eraseDups.filter fun k => k ∉ kind.parameters).map fun k =>
        .ignoredParameter kind.text k n.place,
      .ok (.record kind.record
        (kind.record.fields.map (Node.fieldValue kind.record [] n.parts)))⟩ := by
  have hfit := fits_of_sets hsets hkeys
  have hmovement : n.assemble = n.movement kind.record := by
    rw [Node.assemble, hn]
    cases kind with
    | static => simp [MovementKind.moving] at hkind
    | _ => rfl
  have hown : Node.ownKey ∉ kind.record.fields := by cases kind <;> decide
  have hfields : kind.record.fields = kind.parameters := by cases kind <;> rfl
  have htext : kind.record.tag?.getD "" = kind.text := by cases kind <;> rfl
  rw [hmovement, n.movement_eq hfit hown, Node.keysOf_eq_eraseDups hfit, keys_of_sets hsets, htext]
  simp [hfields]

theorem adds_pattern {kind : MovementKind} (hkind : kind ≠ .static) {first : Token}
    (hfirst : movementKind? first.terminal = some kind) {body : List Token} {close : Token}
    (hclose : close.terminal = .keyword .closeBrace)
    (hinside : ∀ tok ∈ body, tok.terminal ≠ .keyword .closeBrace)
    (hplain : ∀ tok ∈ body, movementKind? tok.terminal = none) :
    Adds patternsIn (first :: (body ++ [close]))
      [⟨kind, first.span.first, parametersIn body⟩] := by
  intro after
  have hrest : Adds patternsIn (body ++ [close]) [] :=
    .append (.of_forall fun tok htok => adds_patternsIn_of_none (hplain tok htok))
      (adds_patternsIn_of_none (by rw [hclose]; rfl))
  have hbody : (body ++ [close] ++ after).takeWhile
      (fun t => t.terminal != .keyword .closeBrace) = body := by
    rw [List.append_assoc, List.takeWhile_append_of_pos (by simpa using hinside)]
    simp [hclose]
  have hpattern : patternOf kind first (body ++ [close] ++ after) =
      ⟨kind, first.span.first, parametersIn body⟩ := by
    simp only [patternOf, if_neg hkind, hbody]
  rw [List.cons_append, patternsIn, hfirst, hrest after, Option.map_some, hpattern]
  rfl

theorem exists_tokens_of_braces {p : Phrase} (h : Derives (braces p) toks trees) :
    ∃ brace body close, toks = brace :: (body ++ [close]) ∧
      brace.terminal = .keyword .openBrace ∧ close.terminal = .keyword .closeBrace ∧
      Derives p body trees := by
  obtain ⟨brace, _, hopen, rfl, hrest⟩ := derives_skip_iff.1 h
  obtain ⟨body, _, _, _, rfl, rfl, hbody, hlast⟩ := derives_seq_iff.1 hrest
  obtain ⟨close, hclose, rfl, rfl⟩ := derives_token_iff.1 (derives_last_iff.1 hlast)
  refine ⟨brace, body, close, rfl, hopen, hclose, ?_⟩
  rwa [if_neg Bool.false_ne_true, List.append_nil]

theorem tells_pattern (kind : MovementKind) (hkind : kind ∈ MovementKind.moving) :
    Tells (pattern kind.label kind.word) TellsPattern := by
  intro toks trees xs hd hm hxs
  obtain ⟨first, _, children, rfl, hwhole, rfl⟩ := derives_node_iff.1 hd
  obtain ⟨_, _, hword, htoks, hbraces⟩ := derives_skip_iff.1 hwhole
  obtain ⟨rfl, rfl⟩ := List.cons.inj htoks
  obtain ⟨brace, body, close, rfl, hopen, hclose, hbody⟩ := exists_tokens_of_braces hbraces
  obtain ⟨parts, x, hparts, rfl, hx, hws⟩ := exists_of_meanings_node hxs
  have htold := tells_parameters hbody (fun tok htok => hm tok (by simp [htok])) hparts
  obtain ⟨ps, hadds, hsets, hkeys⟩ := htold.found
  rw [assemble_pattern hkind rfl hsets hkeys] at hx hws
  have hps : parametersIn (brace :: body) = ps :=
    Adds.eq (.append (adds_parametersIn_of_none (by rw [hopen]; rfl)) hadds) rfl
  have hmoving : kind ≠ .static ∧ movementKind? first.terminal = some kind := by
    rw [hword]
    cases kind with
    | static => simp [MovementKind.moving] at hkind
    | _ => exact ⟨by decide, rfl⟩
  refine ⟨⟨kind, first.span.first, ps⟩, x, ?_, exists_ofLiteral_of_sets hsets, ?_, rfl, ?_⟩
  · have hpattern : Adds patternsIn (first :: (brace :: body ++ [close])) _ :=
      adds_pattern hmoving.1 hmoving.2 hclose
        (List.forall_mem_cons.2 ⟨by simp [hopen], htold.inside⟩)
        (List.forall_mem_cons.2 ⟨by rw [hopen]; rfl, htold.plain⟩)
    rwa [hps] at hpattern
  · rw [hws, htold.silent]
    rfl
  · cases hx
    exact asMovement?_record (p := ⟨kind, first.span.first, ps⟩) hkind hsets hkeys

theorem tells_movement : Tells movement TellsPattern := by
  intro toks trees xs hd hm hxs
  rcases derives_alt_iff.1 hd with hd | hd
  · exact tells_pattern .patrol (by decide) hd hm hxs
  rcases derives_alt_iff.1 hd with hd | hd
  · exact tells_pattern .chase (by decide) hd hm hxs
  rcases derives_alt_iff.1 hd with hd | hd
  · exact tells_pattern .fly (by decide) hd hm hxs
  obtain ⟨tok, _, _, rfl, hword, rfl⟩ := derives_node_iff.1 hd
  obtain ⟨_, hstatic, htoks, rfl⟩ := derives_token_iff.1 hword
  obtain ⟨rfl, rfl⟩ := List.cons.inj htoks
  cases hxs
  refine ⟨⟨.static, tok.span.first, []⟩, .record .static [], fun after => ?_,
    List.forall_mem_nil _, rfl, rfl, rfl⟩
  rw [List.singleton_append, patternsIn, hstatic]
  rfl

/-! ## All patterns of a text -/

/-- The tokens tell which patterns are built and what is warned about them. -/
def TellsPatterns (toks : List Token) (ws : List Warning) (_ : List Sketch) : Prop :=
  ∃ ps, Adds patternsIn toks ps ∧ ws = ps.flatMap Pattern.ignored ∧ ∀ p ∈ ps, p.Readable

theorem additive_tellsPatterns : Additive TellsPatterns where
  nil := ⟨[], .nil, rfl, List.forall_mem_nil _⟩
  append := by
    rintro _ _ _ _ _ _ ⟨ps, hps, rfl, hread⟩ ⟨qs, hqs, rfl, hread'⟩
    exact ⟨ps ++ qs, hps.append hqs, List.flatMap_append.symm,
      List.forall_mem_append.2 ⟨hread, hread'⟩⟩

end Draft

/-- Words for movements with parameters stand in patterns only, and there is no game inside. -/
def Grammar.Phrase.patterned : Phrase → Bool
  | nothing => true
  | token t _ => (Draft.movementKind? t).all (· == .static)
  | seq p q | alt p q => p.patterned && q.patterned
  | many p | afterItem p | afterComma p => p.patterned
  | node l p => (MovementKind.moving.any fun kind => node l p == pattern kind.label kind.word) ||
    !Draft.Node.warned.contains l && p.patterned

namespace Draft

theorem tellsPatterns_token {t : Terminal} (ht : (movementKind? t).all (· == .static) = true)
    (keep : Bool) : Tells (.token t keep) TellsPatterns := by
  intro toks trees xs hd _ _
  obtain ⟨tok, rfl, rfl, rfl⟩ := derives_token_iff.1 hd
  have hsilent : (meanings (if keep then [Tree.ofToken tok] else [])).warnings = [] := by
    cases keep with
    | false => rfl
    | true =>
      rw [if_pos rfl, meanings_singleton, meaning_ofToken]
      rfl
  cases hkind : movementKind? tok.terminal with
  | none => exact ⟨[], adds_patternsIn_of_none hkind, hsilent, List.forall_mem_nil _⟩
  | some kind =>
    obtain rfl : kind = .static := by simpa [hkind] using ht
    refine ⟨[⟨.static, tok.span.first, []⟩], fun after => ?_, hsilent, ?_⟩
    · rw [List.singleton_append, patternsIn, hkind]
      rfl
    · exact List.forall_mem_singleton.2 (List.forall_mem_nil _)

theorem tellsPatterns_node (hl : l ∉ Node.warned) {p : Phrase} (hp : Tells p TellsPatterns) :
    Tells (.node l p) TellsPatterns := by
  intro toks trees xs hd hm hxs
  obtain ⟨_, _, _, rfl, hinside, rfl⟩ := derives_node_iff.1 hd
  obtain ⟨parts, x, hparts, rfl, -, hws⟩ := exists_of_meanings_node hxs
  obtain ⟨ps, hadds, hignored, hread⟩ := hp hinside hm hparts
  refine ⟨ps, hadds, ?_, hread⟩
  rw [hws, hignored, (Node.silently_assemble hl).silent, List.append_nil]

theorem TellsPattern.patterns {ws : List Warning} {xs : List Sketch} (h : TellsPattern toks ws xs) :
    TellsPatterns toks ws xs := by
  obtain ⟨p, _, hadds, hread, rfl, -, -⟩ := h
  exact ⟨[p], hadds, (List.flatMap_singleton ..).symm, List.forall_mem_singleton.2 hread⟩

theorem tellsPatterns_atoms {p : Phrase} (hp : p.patterned = true) :
    ∀ q ∈ p.atoms, Tells q TellsPatterns := by
  have hcomma : Tells (.word .comma) TellsPatterns := tellsPatterns_token rfl false
  induction p with
  | nothing => exact List.forall_mem_nil _
  | token t keep => exact List.forall_mem_singleton.2 (tellsPatterns_token hp keep)
  | seq p q ihp ihq | alt p q ihp ihq =>
    obtain ⟨hp, hq⟩ := Bool.and_eq_true_iff.1 hp
    exact List.forall_mem_append.2 ⟨ihp hp, ihq hq⟩
  | many p ih => exact ih hp
  | afterItem p ih | afterComma p ih => exact List.forall_mem_cons.2 ⟨hcomma, ih hp⟩
  | node l p ih =>
    refine List.forall_mem_singleton.2 ?_
    rw [Phrase.patterned, Bool.or_eq_true, Bool.and_eq_true, Bool.not_eq_true'] at hp
    rcases hp with hpattern | ⟨hl, hp⟩
    · obtain ⟨kind, hkind, heq⟩ := List.any_eq_true.1 hpattern
      rw [beq_iff_eq.1 heq]
      exact (tells_pattern kind hkind).mono fun _ _ _ h => h.patterns
    · exact tellsPatterns_node (by simpa using hl) (.of_atoms additive_tellsPatterns (ih hp))

/-- All that is warned about while blocks are built is told by the patterns in their tokens. -/
theorem tellsPatterns {p : Phrase} (hp : p.patterned = true) : Tells p TellsPatterns :=
  .of_atoms additive_tellsPatterns (tellsPatterns_atoms hp)

/-! ## Movements of enemies -/

/-- The movements among the parts of a body. -/
def movementsOf (parts : List Sketch) : List Sketch :=
  (under "movement" parts).filterMap Sketch.single?

/-- The tokens tell which movements are among the parts. -/
def TellsMovements (toks : List Token) (_ : List Warning) (xs : List Sketch) : Prop :=
  ∃ ps, Adds patternsIn toks ps ∧
    List.Forall₂ (fun p x => x.asMovement? = some p.movement) ps (movementsOf xs)

theorem additive_tellsMovements : Additive TellsMovements where
  nil := ⟨[], .nil, .nil⟩
  append := by
    rintro _ _ _ _ _ _ ⟨ps, hps, hxs⟩ ⟨qs, hqs, hys⟩
    refine ⟨ps ++ qs, hps.append hqs, ?_⟩
    rw [movementsOf, under_append, List.filterMap_append]
    exact List.rel_append hxs hys

end Draft

/-- A word that stands for no movement, or a node without such words that is no movement. -/
def Grammar.Phrase.unmoving : Phrase → Bool
  | token t keep => !keep && (Draft.movementKind? t).isNone
  | node l p => (node l p).keyed && l != .soundProp && l.key? != some "movement" &&
    p.allTerminals fun t => (Draft.movementKind? t).isNone
  | _ => false

namespace Draft

theorem adds_patternsIn_nil (h : ∀ tok ∈ toks, (movementKind? tok.terminal).isNone = true) :
    Adds patternsIn toks [] :=
  .of_forall fun tok htok => adds_patternsIn_of_none (Option.isNone_iff_eq_none.1 (h tok htok))

theorem tellsMovements_unmoving {q : Phrase} (hq : q.unmoving = true) :
    Tells q TellsMovements := by
  intro toks trees xs hd _ hxs
  cases q with
  | token t keep =>
    obtain ⟨hkeep, ht⟩ := Bool.and_eq_true_iff.1 hq
    obtain ⟨tok, rfl, rfl, rfl⟩ := derives_token_iff.1 hd
    obtain rfl : keep = false := by simpa using hkeep
    cases hxs
    exact ⟨[], adds_patternsIn_nil (List.forall_mem_singleton.2 ht), .nil⟩
  | node l p =>
    simp only [Phrase.unmoving, Bool.and_eq_true, bne_iff_ne] at hq
    obtain ⟨⟨⟨hkeyed, hsound⟩, hkey⟩, hp⟩ := hq
    have hkeys := keys_of_derives hd hkeyed hxs
    obtain ⟨_, _, _, rfl, hinside, rfl⟩ := derives_node_iff.1 hd
    obtain ⟨_, x, _, rfl, -, -⟩ := exists_of_meanings_node hxs
    rw [List.map_singleton, List.map_singleton, List.singleton_inj, Tree.key?_node hsound] at hkeys
    refine ⟨[], adds_patternsIn_nil (hinside.forall_terminal hp), ?_⟩
    simp [movementsOf, under, hkeys, hkey]
  | _ => cases hq

theorem tellsMovements_movement :
    Tells (field .movementProp .movement movement) TellsMovements := by
  intro toks trees xs hd hm hxs
  obtain ⟨name, colon, rest, _, _, rfl, hname, hcolon, hvalue, rfl⟩ := exists_of_derives_field hd
  obtain ⟨parts, x, hparts, rfl, hx, -⟩ := exists_of_meanings_node hxs
  obtain ⟨p, y, hadds, -, -, rfl, hy⟩ :=
    tells_movement hvalue (fun tok htok => hm tok (by simp [htok])) hparts
  cases hx
  have hwords : Adds patternsIn [name, colon] [] :=
    adds_patternsIn_nil (by simpa [hname, hcolon] using ⟨rfl, rfl⟩)
  exact ⟨[p], hwords.append hadds, .cons hy .nil⟩

theorem tellsMovements_enemy : Tells enemyBlock.inside TellsMovements := by
  have hall : (enemyBlock.inside.atoms.all fun q =>
      q == field .movementProp .movement movement || q.unmoving) = true := by decide +kernel
  refine .of_atoms additive_tellsMovements fun q hq => ?_
  have hcheck := List.all_eq_true.1 hall q hq
  rw [Bool.or_eq_true, beq_iff_eq] at hcheck
  rcases hcheck with rfl | hq
  · exact tellsMovements_movement
  · exact tellsMovements_unmoving hq

end Draft

end PlatformGame
