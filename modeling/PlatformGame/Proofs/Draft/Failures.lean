import PlatformGame.Proofs.Draft.RoundTrip
import PlatformGame.Proofs.Number.Literal

/-! # When building fails

A text that is read as one of the entries of the grammar is built, unless it has an integer with too
many digits; the failure then names the first of these (`outcome_meanings`). -/

namespace PlatformGame.Draft

open Grammar Parse Source

variable {tok : Token} {o : Option Token} {ts toks : List Token} {xs xs' : List Tree} {p : Phrase}

/-- A number token with more digits than are read. -/
def TooLong (tok : Token) : Prop := tok.terminal = .number ∧ Number.Overlong tok.text

instance (tok : Token) : Decidable (TooLong tok) := inferInstanceAs (Decidable (_ ∧ _))

def tooLongError (tok : Token) : BuildError :=
  .misfit Label.number.text (.literal (.tooLong (Number.digitsIn tok.text)))

/-- A result, unless a token is in the way that has too many digits. -/
def unlessTooLong (a : α) : Option Token → Except BuildError α
  | none => .ok a
  | some tok => .error (tooLongError tok)

theorem unlessTooLong_eq_ok_iff {a b : α} : unlessTooLong a o = .ok b ↔ o = none ∧ a = b := by
  cases o <;> simp [unlessTooLong]

theorem unlessTooLong_eq_error_iff {a : α} {e : BuildError} :
    unlessTooLong a o = .error e ↔ ∃ tok, o = some tok ∧ tooLongError tok = e := by
  cases o <;> simp [unlessTooLong]

theorem Build.outcome_bind_error {x : Build α} {e : BuildError} (hx : x.outcome = .error e)
    (f : α → Build β) : (x >>= f).outcome = .error e := by
  change (x.andThen f).outcome = _
  simp [Build.andThen, hx]

theorem unlessTooLong_bind {x : Build α} {a : α} (hx : x.outcome = unlessTooLong a o)
    {f : α → Build β} {b : β} (hf : (f a).outcome = .ok b) :
    (x >>= f).outcome = unlessTooLong b o := by
  cases o with
  | none => exact (Build.outcome_bind hx f).trans hf
  | some tok => exact Build.outcome_bind_error hx f

/-! ## Texts without the numbers that are too long -/

/-- The token with a zero in place of a number that has too many digits. -/
def shorten (tok : Token) : Token := if TooLong tok then { tok with text := "0" } else tok

theorem terminal_shorten (tok : Token) : (shorten tok).terminal = tok.terminal := by
  unfold shorten
  split <;> rfl

theorem span_shorten (tok : Token) : (shorten tok).span = tok.span := by
  unfold shorten
  split <;> rfl

theorem shorten_of_not (h : ¬ TooLong tok) : shorten tok = tok := if_neg h

theorem readable_shorten (h : tok.terminal.Matches tok.text.toList) :
    Readable (fun _ => True) (shorten tok) := by
  unfold shorten
  split
  · next hlong =>
    have hzero : IsNumber "0".toList := .inl (.inl isDigits_zero)
    refine ⟨?_, fun _ => ?_⟩
    · rw [hlong.1]
      exact hzero
    · obtain ⟨n, hn⟩ := Number.exists_ofLiteral hzero (by decide)
      exact ⟨n, hn, trivial⟩
  · next hshort =>
    refine ⟨h, fun hnumber => ?_⟩
    rw [hnumber] at h
    obtain ⟨n, hn⟩ := Number.exists_ofLiteral h fun hlong => hshort ⟨hnumber, hlong⟩
    exact ⟨n, hn, trivial⟩

/-- The trees of a text mean what the given trees mean, unless a number of the text is too long. -/
def Agrees (toks : List Token) (trees trees' : List Tree) : Prop :=
  ∀ xs, (meanings trees').outcome = .ok xs →
    (meanings trees).outcome = unlessTooLong xs (toks.find? fun tok => TooLong tok)

theorem Agrees.nil : Agrees [] [] [] := fun _ hxs => hxs

theorem Agrees.append {us : List Token} {ys ys' : List Tree} (hx : Agrees ts xs xs')
    (hy : Agrees us ys ys') : Agrees (ts ++ us) (xs ++ ys) (xs' ++ ys') := by
  intro zs hzs
  rw [meanings_append] at hzs
  obtain ⟨zs₁, hzs₁, hrest⟩ := Build.exists_of_outcome_bind hzs
  obtain ⟨zs₂, hzs₂, hpure⟩ := Build.exists_of_outcome_bind hrest
  cases hpure
  rw [meanings_append, List.find?_append]
  have hfirst := hx zs₁ hzs₁
  cases hfind : ts.find? fun tok => TooLong tok with
  | none =>
    rw [hfind] at hfirst
    rw [Build.outcome_bind hfirst, Option.none_or]
    exact unlessTooLong_bind (hy zs₂ hzs₂) rfl
  | some tok =>
    rw [hfind] at hfirst
    exact Build.outcome_bind_error hfirst _

theorem Agrees.singleton (hshort : ¬ TooLong tok) (xs : List Tree) : Agrees [tok] xs xs := by
  intro zs hzs
  rw [List.find?_cons_of_neg (by simpa using hshort)]
  exact hzs

theorem Agrees.cons (h : Agrees ts xs xs') (hshort : ¬ TooLong tok) :
    Agrees (tok :: ts) xs xs' := by
  intro zs hzs
  rw [List.find?_cons_of_neg (by simpa using hshort)]
  exact h zs hzs

theorem Agrees.node (h : Agrees ts xs xs') (l : Label) {span span' : Span}
    (hspan : span.first = span'.first) :
    Agrees ts [.node l (some span) xs] [.node l (some span') xs'] := by
  intro zs hzs
  rw [meanings_singleton, meaning] at hzs ⊢
  obtain ⟨z, hz, hpure⟩ := Build.exists_of_outcome_bind hzs
  obtain ⟨ys, hys, hassemble⟩ := Build.exists_of_outcome_bind hz
  refine unlessTooLong_bind (unlessTooLong_bind (h ys hys) ?_) hpure
  rw [Option.map_some, hspan]
  exact hassemble

/-- A number that is too long is not read; any other stays as it is. -/
theorem Agrees.number (hm : tok.terminal.Matches tok.text.toList) (hnumber : tok.terminal = .number)
    (span span' : Span) (hspan : span.first = span'.first) :
    Agrees [tok] [.node .number (some span) [Tree.ofToken tok]]
      [.node .number (some span') [Tree.ofToken (shorten tok)]] := by
  intro zs hzs
  by_cases hlong : TooLong tok
  · rw [List.find?_cons_of_pos (by simpa using hlong), meanings_singleton, meaning,
      meanings_singleton, meaning_ofToken]
    refine Build.outcome_bind_error ?_ _
    rw [hnumber] at hm
    change (Node.number _).outcome = _
    simp only [Node.number, Node.firstText, Node.first, pure_bind, Sketch.plain, Sketch.text?,
      Option.getD_some, hlong.2.ofLiteral_eq hm]
    rfl
  · rw [shorten_of_not hlong] at hzs
    exact (Agrees.singleton hlong _).node .number hspan zs hzs

/-- The text with its numbers shortened means what the text itself means, unless a number had to be
shortened. -/
theorem exists_derives_shorten {trees : List Tree} (h : Derives p toks trees)
    (hp : p.numbersLabelled = true) (hm : ∀ tok ∈ toks, tok.terminal.Matches tok.text.toList) :
    ∃ trees', Derives p (toks.map shorten) trees' ∧ Agrees toks trees trees' := by
  induction h with
  | nothing => exact ⟨[], .nothing, .nil⟩
  | manyEnd => exact ⟨[], .manyEnd, .nil⟩
  | itemEnd => exact ⟨[], .itemEnd, .nil⟩
  | commaEnd => exact ⟨[], .commaEnd, .nil⟩
  | token tok keep =>
    have hshort : ¬ TooLong tok := fun hlong => by
      simp [Phrase.numbersLabelled, hlong.1] at hp
    rw [List.map_singleton, shorten_of_not hshort]
    exact ⟨_, .token tok keep, .singleton hshort _⟩
  | left _ ih =>
    obtain ⟨trees', hd, ha⟩ := ih (Bool.and_eq_true_iff.1 hp).1 hm
    exact ⟨trees', .left hd, ha⟩
  | right _ ih =>
    obtain ⟨trees', hd, ha⟩ := ih (Bool.and_eq_true_iff.1 hp).2 hm
    exact ⟨trees', .right hd, ha⟩
  | seq _ _ ih₁ ih₂ =>
    rw [List.forall_mem_append] at hm
    obtain ⟨hp₁, hp₂⟩ := Bool.and_eq_true_iff.1 hp
    obtain ⟨xs', hd₁, ha₁⟩ := ih₁ hp₁ hm.1
    obtain ⟨ys', hd₂, ha₂⟩ := ih₂ hp₂ hm.2
    exact ⟨xs' ++ ys', List.map_append ▸ hd₁.seq hd₂, ha₁.append ha₂⟩
  | more _ _ ih₁ ih₂ =>
    rw [List.forall_mem_append] at hm
    obtain ⟨xs', hd₁, ha₁⟩ := ih₁ hp hm.1
    obtain ⟨ys', hd₂, ha₂⟩ := ih₂ hp hm.2
    exact ⟨xs' ++ ys', List.map_append ▸ hd₁.more hd₂, ha₁.append ha₂⟩
  | item _ _ ih₁ ih₂ =>
    rw [List.forall_mem_append] at hm
    obtain ⟨xs', hd₁, ha₁⟩ := ih₁ hp hm.1
    obtain ⟨ys', hd₂, ha₂⟩ := ih₂ hp hm.2
    exact ⟨xs' ++ ys', List.map_append ▸ hd₁.item hd₂, ha₁.append ha₂⟩
  | @comma _ _ _ tok hcomma _ ih =>
    rw [List.forall_mem_cons] at hm
    obtain ⟨xs', hd, ha⟩ := ih hp hm.2
    refine ⟨xs', .comma ((terminal_shorten tok).trans hcomma) hd, ha.cons fun hlong => ?_⟩
    cases hcomma.symm.trans hlong.1
  | @node p ts ys l first hd ih =>
    have hspan : first.span.first = (shorten first).span.first := by rw [span_shorten]
    rcases Phrase.of_numbersLabelled_node hp with ⟨rfl, rfl⟩ | hp
    · obtain ⟨tok, hnumber, htoks, rfl⟩ := derives_token_iff.1 hd
      cases htoks
      have hshort : (shorten first).terminal = .number := (terminal_shorten first).trans hnumber
      have hd' : Derives (.token .number true) [shorten first] [Tree.ofToken (shorten first)] :=
        derives_token_iff.2 ⟨shorten first, hshort, rfl, rfl⟩
      exact ⟨_, .node _ hd', .number (hm first List.mem_cons_self) hnumber _ _ hspan⟩
    · obtain ⟨ys', hd', ha⟩ := ih hp hm
      rw [List.map_cons] at hd'
      exact ⟨_, .node l hd', ha.node l hspan⟩

theorem outcome_meanings {V : List Sketch → Prop} {trees : List Tree}
    (hmeans : Means (fun _ => True) False p V) (hp : p.numbersLabelled = true)
    (hd : Derives p toks trees) (hm : ∀ tok ∈ toks, tok.terminal.Matches tok.text.toList) :
    ∃ xs, V xs ∧
      (meanings trees).outcome = unlessTooLong xs (toks.find? fun tok => TooLong tok) := by
  obtain ⟨trees', hd', ha⟩ := exists_derives_shorten hd hp hm
  have hreadable : ∀ tok ∈ toks.map shorten, Readable (fun _ => True) tok := by
    intro tok htok
    obtain ⟨tok', htok', rfl⟩ := List.mem_map.1 htok
    exact readable_shorten (hm tok' htok')
  obtain ⟨xs, hxs, hV⟩ := hmeans hd' hreadable False.elim
  exact ⟨xs, hV, ha xs hxs⟩

/-! ## Entries of the grammar -/

/-- Each entry of the grammar is one of the phrases whose meaning is known. -/
theorem exists_means_of_mem_entries {e : String × Phrase} (he : e ∈ entries) :
    ∃ P, Means (fun _ => True) False e.2 (One P) := by
  have hall : List.Forall (fun e : String × Phrase => ∃ P, Means (fun _ => True) False e.2 (One P))
      entries :=
    ⟨⟨_, means_start⟩, ⟨_, means_configBlock⟩, ⟨_, means_assetsBlock⟩, ⟨_, means_playerBlock⟩,
      ⟨_, means_enemyBlock⟩, ⟨_, means_collectibleBlock⟩, ⟨_, means_levelBlock⟩,
      ⟨_, means_hudBlock⟩, ⟨_, means_rulesBlock⟩, ⟨_, means_soundsBlock⟩, ⟨_, means_animation⟩,
      ⟨_, means_movement⟩, ⟨_, means_ident⟩, ⟨_, means_string⟩, ⟨_, means_number⟩,
      ⟨_, means_color⟩, ⟨_, means_boolean⟩⟩
  exact List.forall_iff_forall_mem.1 hall e he

theorem exists_means_of_entry? {name : String} (hp : entry? name = .ok p) :
    ∃ P, Means (fun _ => True) False p (One P) ∧
      (name = "start" → ∀ x, P x → ∃ d, ofSketch? x = some d) := by
  by_cases hname : name = "start"
  · subst hname
    cases hp
    refine ⟨_, means_start, ?_⟩
    rintro - x ⟨d, rfl, -⟩
    exact ⟨d, ofSketch?_toSketch d⟩
  · obtain ⟨P, hP⟩ := exists_means_of_mem_entries (mem_entries_of_eq_ok hp)
    exact ⟨P, hP, fun h => absurd h hname⟩

theorem entries_numbersLabelled : ∀ e ∈ entries, e.2.numbersLabelled = true := by
  have h : (entries.all fun e => e.2.numbersLabelled) = true := by decide
  exact List.all_eq_true.1 h

theorem unlessTooLong_of_singleton {x : Build α} {a : α}
    (h : (do pure [← x] : Build (List α)).outcome = unlessTooLong [a] o) :
    x.outcome = unlessTooLong a o := by
  cases hx : x.outcome with
  | ok b =>
    rw [Build.outcome_bind hx] at h
    cases o <;> cases h
    rfl
  | error e =>
    rw [Build.outcome_bind_error hx] at h
    cases o <;> cases h
    rfl

theorem outcome_sketch {e : String × Phrase} (he : e ∈ entries) {P : Sketch → Prop}
    (hmeans : Means (fun _ => True) False e.2 (One P)) {tree : Tree} (hd : Derives e.2 toks [tree])
    (hm : ∀ tok ∈ toks, tok.terminal.Matches tok.text.toList) :
    ∃ x, P x ∧ (sketch tree).outcome = unlessTooLong x (toks.find? fun tok => TooLong tok) := by
  obtain ⟨xs, hone, hout⟩ := outcome_meanings hmeans (entries_numbersLabelled e he) hd hm
  obtain ⟨x, rfl, hx⟩ := hone.exists_eq
  rw [meanings_singleton] at hout
  rw [sketch_of_derives hd (entries_single e he) tree List.mem_cons_self]
  exact ⟨x, hx, unlessTooLong_of_singleton hout⟩

/-- What is read under any of the names of `entries` is built, and what is read as a whole game is
built as a draft, exactly if no number token without a point has more than 4300 digits. The only
failure there is tells the number of digits of the first token that has more. -/
theorem outcome_sketch_of_readAs {name source : String} {p : Phrase} {trees : List Tree}
    (hp : entry? name = .ok p) (hread : readAs p source = .ok trees) :
    ∃ toks tree, trees = [tree] ∧ Derives p toks [tree] ∧ Spelled .first source.toList toks ∧
      ((∃ x, (sketch tree).outcome = .ok x ∧ (name = "start" → ∃ d, ofSketch? x = some d)) ↔
        ∀ tok ∈ toks, tok.terminal = .number → '.' ∉ tok.text.toList →
          tok.text.toList.countP Char.isDigit ≤ 4300) ∧
      ∀ e, (sketch tree).outcome = .error e ↔
        ∃ before tok after, toks = before ++ tok :: after ∧ (∀ t ∈ before, ¬ TooLong t) ∧
          TooLong tok ∧
          e = .misfit "number" (.literal (.tooLong (tok.text.toList.countP Char.isDigit))) := by
  have he := mem_entries_of_eq_ok hp
  obtain ⟨toks, tree, rfl, hd, hs⟩ := exists_derives_of_readAs he hread
  obtain ⟨P, hmeans, hdraft⟩ := exists_means_of_entry? hp
  obtain ⟨x, hx, hout⟩ := outcome_sketch he hmeans hd hs.matches
  refine ⟨toks, tree, rfl, hd, hs, ?_, fun e => ?_⟩
  · rw [hout]
    simp only [unlessTooLong_eq_ok_iff, List.find?_eq_none, decide_eq_true_eq]
    constructor
    · rintro ⟨_, ⟨hshort, rfl⟩, -⟩ tok htok hnumber hpoint
      exact Nat.le_of_not_lt fun hlong => hshort tok htok ⟨hnumber, hpoint, hlong⟩
    · intro h
      refine ⟨x, ⟨fun tok htok hlong => ?_, rfl⟩, fun hname => hdraft hname x hx⟩
      exact absurd (h tok htok hlong.1 hlong.2.1) (Nat.not_le_of_lt hlong.2.2)
  · rw [hout]
    simp only [unlessTooLong_eq_error_iff, List.find?_eq_some_iff_append, decide_eq_true_eq]
    constructor
    · rintro ⟨tok, ⟨hlong, before, after, rfl, hbefore⟩, rfl⟩
      exact ⟨before, tok, after, rfl, by simpa using hbefore, hlong, rfl⟩
    · rintro ⟨before, tok, after, rfl, hbefore, hlong, rfl⟩
      exact ⟨tok, ⟨hlong, before, after, rfl, by simpa using hbefore⟩, rfl⟩

/-- A number of 4301 digits is read, but nothing is built. -/
theorem outcome_sketch_of_readAs_sevens :
    let sevens : Word := ⟨.number, String.ofList (List.replicate 4301 '7')⟩
    ∃ trees, readAs number (Word.spaced [sevens]) = .ok trees ∧
      ∃ toks tree, trees = [tree] ∧ Derives number toks [tree] ∧
        Spelled .first (Word.spaced [sevens]).toList toks ∧
        ((∃ x, (sketch tree).outcome = .ok x ∧ ("number" = "start" → ∃ d, ofSketch? x = some d)) ↔
          ∀ tok ∈ toks, tok.terminal = .number → '.' ∉ tok.text.toList →
            tok.text.toList.countP Char.isDigit ≤ 4300) ∧
        ∀ e, (sketch tree).outcome = .error e ↔
          ∃ before tok after, toks = before ++ tok :: after ∧ (∀ t ∈ before, ¬ TooLong t) ∧
            TooLong tok ∧
            e = .misfit "number" (.literal (.tooLong (tok.text.toList.countP Char.isDigit))) := by
  intro sevens
  have hvalid : sevens.Valid := by
    refine .inl (.inl ?_)
    rw [String.toList_ofList]
    exact ⟨List.cons_ne_nil '7' (List.replicate 4300 '7'), fun c hc =>
      List.eq_of_mem_replicate hc ▸ by decide⟩
  have hentry : entry? "number" = .ok number := rfl
  have hd : Derives number (Word.tokens .first [sevens]) _ :=
    .node .number (derives_token_iff.2 ⟨_, rfl, rfl, rfl⟩)
  have hread := readAs_of_not_clashing (mem_entries_of_eq_ok hentry)
    (List.forall_mem_singleton.2 hvalid) hd
    (not_clashing_of_isChain (List.isChain_singleton sevens))
  exact ⟨_, hread, outcome_sketch_of_readAs hentry hread⟩

end PlatformGame.Draft
