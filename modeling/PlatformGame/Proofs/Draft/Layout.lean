import PlatformGame.Compile.Artifact
import PlatformGame.Proofs.Draft.Places
import PlatformGame.Proofs.Parse.Layout
import PlatformGame.Proofs.Parse.Soundness

/-! # Layout is insignificant

How the words of a text are laid out makes no difference to what is read: neither to the tree, up to
positions, nor to the draft and the warnings, up to their places. -/

namespace PlatformGame.Draft

open Grammar Parse Source

/-- A draft is made from the tree that is read. -/
theorem readDraft_eq_of_readAs {source : String} {tree : Tree}
    (h : readAs start source = .ok [tree]) :
    readDraft source = ⟨(sketch tree).warnings, do
      let x ← (sketch tree).outcome.mapError CompileError.build
      match Draft.ofSketch? x with
      | some d => pure d
      | none => throw (.build (.noDraft x))⟩ := by
  simp only [readDraft, readSketch, h]
  rfl

theorem summaries_eq_of_unplaced {ws ws' : List Warning}
    (h : ws.map Warning.unplaced = ws'.map Warning.unplaced) :
    ws.map Warning.summary = ws'.map Warning.summary := by
  have hsummary : Warning.summary = Warning.summary ∘ Warning.unplaced :=
    funext fun w => w.summary_unplaced.symm
  rw [hsummary, ← List.map_map, ← List.map_map, h]

/-- From trees of one shape the same draft is made. -/
theorem readDraft_of_shape_eq {source source' : String} {trees trees' : List Tree}
    (h : readAs start source = .ok trees) (h' : readAs start source' = .ok trees')
    (hshape : trees.map Tree.shape = trees'.map Tree.shape) :
    (readDraft source).outcome = (readDraft source').outcome ∧
      (readDraft source).warnings.map Warning.summary =
        (readDraft source').warnings.map Warning.summary := by
  have he : ("start", start) ∈ entries := List.mem_cons_self
  obtain ⟨toks, tree, rfl, hd, -⟩ := exists_derives_of_readAs he h
  obtain ⟨toks', tree', rfl, hd', -⟩ := exists_derives_of_readAs he h'
  have halike := alike_sketch_of_shape_eq hd hd' (List.singleton_inj.1 hshape)
  have hout : (sketch tree).outcome = (sketch tree').outcome := by simpa using halike.outcome
  rw [readDraft_eq_of_readAs h, readDraft_eq_of_readAs h', hout]
  exact ⟨rfl, summaries_eq_of_unplaced halike.warnings⟩

/-- Two texts that lay out the same words are both refused, or are both read, as trees of one
shape; then they make the same draft, with the same warnings up to their places. -/
theorem readDraft_of_laid {words : List String} (hwords : ∀ w ∈ words, IsTokenText w)
    {source source' : String} (h : Laid words source.toList) (h' : Laid words source'.toList)
    (p : Phrase) :
    (∃ failure failure', readAs p source = .error failure ∧ readAs p source' = .error failure') ∨
      ∃ trees trees', readAs p source = .ok trees ∧ readAs p source' = .ok trees' ∧
        trees.map Tree.shape = trees'.map Tree.shape ∧
        (p = start → (readDraft source).outcome = (readDraft source').outcome ∧
          (readDraft source).warnings.map Warning.summary =
            (readDraft source').warnings.map Warning.summary) := by
  have hsame := toOption_readAs_of_laid (p := p) hwords h h'
  cases hread : readAs p source with
  | error failure =>
    cases hread' : readAs p source' with
    | error failure' => exact .inl ⟨failure, failure', rfl, rfl⟩
    | ok trees' => simp [hread, hread', Except.toOption] at hsame
  | ok trees =>
    cases hread' : readAs p source' with
    | error failure' => simp [hread, hread', Except.toOption] at hsame
    | ok trees' =>
      have hshape : trees.map Tree.shape = trees'.map Tree.shape := by
        simpa [hread, hread', Except.toOption] using hsame
      refine .inr ⟨trees, trees', rfl, rfl, hshape, ?_⟩
      rintro rfl
      exact readDraft_of_shape_eq hread hread' hshape

/-! ## A game with comments between its words -/

def bareGame : String := r#"game "t" { }"#

def commentedGame : String := "// a\ngame/* b */\"t\"\n\t{ }//\n"

theorem laid_bareGame : Laid ["game", "\"t\"", r"{", r"}"] bareGame.toList :=
  have hspace : Gap [' '] := .blank rfl .nil
  have hne : [' '] ≠ [] := List.cons_ne_nil _ _
  .words .nil (.next hspace hne (.next hspace hne (.next hspace hne (.last .nil))))

theorem laid_commentedGame : Laid ["game", "\"t\"", r"{", r"}"] commentedGame.toList := by
  have hline : Gap "// a\n".toList := .line (show ∀ c ∈ [' ', 'a'], c ≠ '\n' by simp) .nil
  have hblock : Gap "/* b */".toList :=
    .block (show ¬ ['*', '/'] <:+: [' ', 'b', ' '] ++ ['*'] by decide) .nil
  have htab : Gap ['\n', '\t'] := .blank rfl (.blank rfl .nil)
  have hspace : Gap [' '] := .blank rfl .nil
  have hlast : Gap "//\n".toList := .line (show ∀ c ∈ [], c ≠ '\n' by simp) .nil
  exact .words hline (.next hblock (List.cons_ne_nil _ _) (.next htab (List.cons_ne_nil _ _)
    (.next hspace (List.cons_ne_nil _ _) (.last hlast))))

theorem readDraft_of_laid_commented :
    (readAs start bareGame).isOk = true ∧
      ((∃ failure failure', readAs start bareGame = .error failure ∧
          readAs start commentedGame = .error failure') ∨
        ∃ trees trees', readAs start bareGame = .ok trees ∧
          readAs start commentedGame = .ok trees' ∧
          trees.map Tree.shape = trees'.map Tree.shape ∧
          (start = start → (readDraft bareGame).outcome = (readDraft commentedGame).outcome ∧
            (readDraft bareGame).warnings.map Warning.summary =
              (readDraft commentedGame).warnings.map Warning.summary)) := by
  have hstring : IsString "\"t\"".toList :=
    ⟨['t'], .plain (by decide) (by decide) (by decide) .nil, rfl⟩
  have hwords : ∀ w ∈ ["game", "\"t\"", r"{", r"}"], IsTokenText w := by
    simp only [List.forall_mem_cons]
    exact ⟨⟨.keyword .game, rfl⟩, ⟨.string, hstring⟩, ⟨.keyword .openBrace, rfl⟩,
      ⟨.keyword .closeBrace, rfl⟩, fun _ h => absurd h List.not_mem_nil⟩
  exact ⟨by decide +kernel, readDraft_of_laid hwords laid_bareGame laid_commentedGame start⟩

end PlatformGame.Draft
