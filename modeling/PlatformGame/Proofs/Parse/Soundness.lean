import PlatformGame.Parse.Failure
import PlatformGame.Proofs.Parse.Feed
import PlatformGame.Proofs.Source.Layout

/-! # What is read is of the grammar

Reading succeeds only on texts of the phrase, and accounts for every character: the tokens that it
took derive the tree that it returns, and with layout between them they spell the text. -/

namespace PlatformGame.Grammar

/-- Every text of the phrase has one tree. -/
def Phrase.single : Phrase → Bool
  | node _ _ => true
  | alt p q => p.single && q.single
  | _ => false

theorem entries_single : ∀ e ∈ entries, e.2.single = true := by
  have h : (entries.all fun e => e.2.single) = true := by decide
  exact List.all_eq_true.1 h

end PlatformGame.Grammar

namespace PlatformGame.Parse

open Grammar Source

namespace Reader

theorem completes_of_finish {r : Reader} {trees : List Tree} (hr : r.Ready)
    (h : r.finish = .ok trees) : r.Completes [] trees := by
  unfold finish at h
  split at h
  · next hfeed =>
    cases h
    exact (finishes_of_feedFrom rfl hfeed).2.completes hr
  · cases h
  · cases h

/-- A reader that comes to an end has taken tokens that complete it and spell the text. -/
theorem exists_spelled_of_run {fuel : Nat} {r : Reader} {c : Cursor} {trees : List Tree}
    (hr : r.Ready) (hfuel : c.rest.length < fuel) (h : r.run fuel c = .ok trees) :
    ∃ toks, r.Completes toks trees ∧ Spelled c.position c.rest toks := by
  induction fuel generalizing r c with
  | zero => exact absurd hfuel (Nat.not_lt_zero _)
  | succ fuel ih =>
    obtain ⟨gap, hgap, hrest, hpos⟩ := c.exists_layout_nextStart
    simp only [run] at h
    split at h
    · next hnil =>
      rw [hnil, List.append_nil] at hrest
      exact ⟨[], completes_of_finish hr h, .done (hrest ▸ hnil ▸ hgap)⟩
    · next ch cs hcons =>
      split at h
      · cases h
      · next tok c' htok =>
        obtain ⟨hm, htext, hspan, hlast⟩ := Cursor.of_token? htok
        split at h
        · next r' hfeed =>
          have hlen : c'.rest.length < fuel := by
            have htok := List.length_pos_iff.2 hm.ne_nil
            have hskip := congrArg List.length hrest
            have hsplit := congrArg List.length htext
            rw [List.length_append] at hskip hsplit
            omega
          have htakes := takes_of_feedFrom rfl hfeed
          obtain ⟨toks, hc, hs⟩ := ih (htakes.steady hr).ready hlen h
          refine ⟨tok :: toks, htakes.completes hr hc, ?_⟩
          rw [← hrest, ← htext, ← List.append_assoc]
          have hends := Cursor.endsAt_of_token? htok
          rw [← htext, ← List.append_nil c'.rest] at hgap
          rw [← List.append_nil c'.rest] at hends
          refine .token hgap hm hends ?_ (hlast ▸ hs)
          rw [hspan, hpos]
        · cases h
        · next hfeed =>
          -- no token is recognised as the end of input
          rw [(finishes_of_feedFrom rfl hfeed).1] at hm
          exact hm.elim

end Reader

theorem Derives.exists_eq_singleton {p : Phrase} {toks : List Token} {trees : List Tree}
    (h : Derives p toks trees) (hp : p.single = true) : ∃ tree, trees = [tree] := by
  induction h with
  | node => exact ⟨_, rfl⟩
  | left _ ih => exact ih (Bool.and_eq_true_iff.1 hp).1
  | right _ ih => exact ih (Bool.and_eq_true_iff.1 hp).2
  | _ => cases hp

theorem mem_entries_of_eq_ok {name : String} {p : Phrase} (h : entry? name = .ok p) :
    (name, p) ∈ entries := by
  unfold entry? at h
  split at h
  · next hp =>
    cases h
    obtain ⟨es, fs, heq, -⟩ := List.lookup_eq_some_iff.1 hp
    simp [heq]
  · cases h

/-- What is read is derived by tokens that spell the text. -/
theorem exists_derives_of_readAs {e : String × Phrase} (he : e ∈ entries) {source : String}
    {trees : List Tree} (h : readAs e.2 source = .ok trees) :
    ∃ toks tree, trees = [tree] ∧ Derives e.2 toks [tree] ∧ Spelled .first source.toList toks := by
  obtain ⟨toks, hc, hs⟩ := Reader.exists_spelled_of_run (Reader.ready_start (entries_sure he))
    (Nat.lt_succ_self _) h
  have hd := Reader.completes_start_iff.1 hc
  obtain ⟨tree, rfl⟩ := hd.exists_eq_singleton (entries_single _ he)
  exact ⟨toks, tree, rfl, hd, hs⟩

/-- Reading a text under any of the names of `entries` returns the tree of a derivation. Its tokens
have the forms of their terminals, none is cut short by what stands behind it, and with layout
between them they spell the text. No name among them is a reserved word. -/
theorem exists_derivation_of_readAs {name source : String} {p : Phrase} {trees : List Tree}
    (hp : entry? name = .ok p) (h : readAs p source = .ok trees) :
    ∃ toks tree, trees = [tree] ∧ Derives p toks [tree] ∧ Spelled .first source.toList toks ∧
      ∀ tok ∈ toks, tok.terminal.Matches tok.text.toList ∧
        (tok.terminal = .name → tok.text ∉ reservedWords) := by
  obtain ⟨toks, tree, rfl, hd, hs⟩ := exists_derives_of_readAs (mem_entries_of_eq_ok hp) h
  refine ⟨toks, tree, rfl, hd, hs, fun tok htok => ⟨hs.matches tok htok, fun hname => ?_⟩⟩
  have hm := hs.matches tok htok
  rw [hname] at hm
  obtain ⟨-, -, -, -, -, hfree⟩ := hm
  simpa using hfree

/-- A name among comments, which is a keyword elsewhere. -/
theorem exists_derivation_of_readAs_win :
    ∃ trees, readAs ident " /* a */ win // b" = .ok trees ∧
      ∃ toks tree, trees = [tree] ∧ Derives ident toks [tree] ∧
        Spelled .first " /* a */ win // b".toList toks ∧
        ∀ tok ∈ toks, tok.terminal.Matches tok.text.toList ∧
          (tok.terminal = .name → tok.text ∉ reservedWords) := by
  have hentry : entry? "ident" = .ok ident := rfl
  have hok : (readAs ident " /* a */ win // b").isOk = true := by decide +kernel
  cases hread : readAs ident " /* a */ win // b" with
  | error failure =>
    rw [hread] at hok
    cases hok
  | ok trees => exact ⟨trees, rfl, exists_derivation_of_readAs hentry hread⟩

end PlatformGame.Parse
