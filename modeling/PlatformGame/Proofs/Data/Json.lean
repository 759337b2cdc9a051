import PlatformGame.Proofs.Data.Except
import PlatformGame.Proofs.Number.Numerals
import PlatformGame.Proofs.Text.Html

/-! # The compact form of JSON

What the compact form of a value consists of, part by part. A value whose texts have none of the
characters of closing tags is written without them (`Json.plain_compact`). -/

namespace PlatformGame

namespace Json

theorem compact_list (h : compact (.list xs) = .ok s) :
    ∃ ts, compactAll xs = .ok ts ∧ s.toList = '[' :: ((", ".intercalate ts).toList ++ [']']) := by
  rw [compact] at h
  obtain ⟨ts, hts, h⟩ := bind_eq_ok.1 h
  rw [← Except.ok.inj h]
  exact ⟨ts, hts, by simp [String.toList_append]⟩

theorem compact_object (h : compact (.object ms) = .ok s) :
    ∃ ts, compactMembers ms = .ok ts ∧
      s.toList = '{' :: ((", ".intercalate ts).toList ++ ['}']) := by
  rw [compact] at h
  obtain ⟨ts, hts, h⟩ := bind_eq_ok.1 h
  rw [← Except.ok.inj h]
  exact ⟨ts, hts, by simp [String.toList_append]⟩

theorem compactAll_cons (h : compactAll (x :: xs) = .ok ts) :
    ∃ t us, compact x = .ok t ∧ compactAll xs = .ok us ∧ ts = t :: us := by
  rw [compactAll] at h
  obtain ⟨t, ht, h⟩ := bind_eq_ok.1 h
  obtain ⟨us, hus, h⟩ := bind_eq_ok.1 h
  exact ⟨t, us, ht, hus, (Except.ok.inj h).symm⟩

theorem compactMembers_cons (h : compactMembers ((k, x) :: ms) = .ok ts) :
    ∃ t us, compact x = .ok t ∧ compactMembers ms = .ok us ∧
      ts = (textLiteral k ++ ": " ++ t) :: us := by
  rw [compactMembers] at h
  obtain ⟨t, ht, h⟩ := bind_eq_ok.1 h
  obtain ⟨us, hus, h⟩ := bind_eq_ok.1 h
  exact ⟨t, us, ht, hus, (Except.ok.inj h).symm⟩

/-! ## Texts in a value -/

open Text

mutual

/-- The texts in a value, with the keys of its objects. -/
def textsIn : Json → List String
  | text s => [s]
  | list xs => textsInAll xs
  | object ms => textsInMembers ms
  | null | bool _ | number _ => []

def textsInAll : List Json → List String
  | [] => []
  | x :: xs => x.textsIn ++ textsInAll xs

def textsInMembers : List (String × Json) → List String
  | [] => []
  | (k, x) :: ms => k :: x.textsIn ++ textsInMembers ms

end

/-- No text in the value has a character of which closing tags are made. -/
def Plain (j : Json) : Prop := ∀ s ∈ j.textsIn, Text.Plain s.toList

namespace Plain

theorem bool (b : Bool) : (Json.bool b).Plain := List.forall_mem_nil _

theorem number (n : Number) : (Json.number n).Plain := List.forall_mem_nil _

theorem text (h : Text.Plain s.toList) : (Json.text s).Plain := List.forall_mem_singleton.2 h

theorem object_nil : (Json.object []).Plain := List.forall_mem_nil _

theorem object_cons (hk : Text.Plain k.toList) (hx : x.Plain) (h : (Json.object ms).Plain) :
    (Json.object ((k, x) :: ms)).Plain :=
  List.forall_mem_cons.2 ⟨hk, List.forall_mem_append.2 ⟨hx, h⟩⟩

end Plain

theorem exists_hexDigit_of_mem (h : c ∈ hexDigits k n) : ∃ m < 16, c = hexDigit m := by
  induction k generalizing n with
  | zero => cases h
  | succ k ih =>
    rw [hexDigits, List.mem_append, List.mem_singleton] at h
    rcases h with h | rfl
    · exact ih h
    · exact ⟨n % 16, Nat.mod_lt n (by decide), rfl⟩

theorem plain_unit (n : Nat) : Text.Plain (unit n) := by
  have hmark : Text.Plain ['\\', 'u'] := by decide
  have hall : ∀ m < 16, hexDigit m ≠ '<' ∧ hexDigit m ≠ '/' := by decide
  have hdigits : Text.Plain (hexDigits 4 n) := by
    intro c hc
    obtain ⟨m, hm, rfl⟩ := exists_hexDigit_of_mem hc
    exact hall m hm
  exact hmark.append hdigits

theorem plain_escapeChar (h : c ≠ '<' ∧ c ≠ '/') : Text.Plain (escapeChar c) := by
  unfold escapeChar
  dsimp only
  split_ifs
  iterate 7 decide
  · simpa [Text.Plain] using h
  · exact plain_unit _
  · exact (plain_unit _).append (plain_unit _)

theorem plain_textLiteral (h : Text.Plain s.toList) : Text.Plain (textLiteral s).toList := by
  have hquote : Text.Plain ['"'] := by decide
  rw [textLiteral, String.toList_ofList]
  exact (hquote.append (.flatMap fun c hc => plain_escapeChar (h c hc))).append hquote

theorem plain_of_numerals (h : Numerals s) : Text.Plain s.toList := .of_forall rfl rfl h

/-- What goes over from the parts of a compact form to the whole, if the texts are of a sort. -/
structure Carried (T : String → Prop) (P : List Char → Prop) : Prop where
  null : P ['n', 'u', 'l', 'l']
  bool : P ['t', 'r', 'u', 'e'] ∧ P ['f', 'a', 'l', 's', 'e']
  number {n : Number} {s : String} : numberLiteral n = .ok s → P s.toList
  text {s : String} : T s → P (textLiteral s).toList
  member {k : String} {cs : List Char} : T k → P cs →
    P ((textLiteral k).toList ++ ([':', ' '] ++ cs))
  brackets {o c : Char} {ts : List String} : o = '[' ∧ c = ']' ∨ o = '{' ∧ c = '}' →
    (∀ t ∈ ts, P t.toList) → P (o :: ((", ".intercalate ts).toList ++ [c]))

mutual

theorem Carried.compact (hP : Carried T P) : ∀ {j : Json} {s : String},
    (∀ t ∈ j.textsIn, T t) → compact j = .ok s → P s.toList
  | .null, _, _, h => by
    rw [← Except.ok.inj h, String.toList_ofList]
    exact hP.null
  | .bool b, _, _, h => by
    rw [← Except.ok.inj h]
    cases b
    · rw [if_neg Bool.false_ne_true, String.toList_ofList]
      exact hP.bool.2
    · rw [if_pos rfl, String.toList_ofList]
      exact hP.bool.1
  | .number _, _, _, h => hP.number h
  | .text t, _, hj, h => by
    rw [← Except.ok.inj h]
    exact hP.text (hj t (by simp [textsIn]))
  | .list xs, _, hj, h => by
    obtain ⟨ts, hts, hs⟩ := compact_list h
    rw [hs]
    exact hP.brackets (.inl ⟨rfl, rfl⟩) (hP.compactAll hj hts)
  | .object ms, _, hj, h => by
    obtain ⟨ts, hts, hs⟩ := compact_object h
    rw [hs]
    exact hP.brackets (.inr ⟨rfl, rfl⟩) (hP.compactMembers hj hts)

theorem Carried.compactAll (hP : Carried T P) : ∀ {xs : List Json} {ts : List String},
    (∀ s ∈ textsInAll xs, T s) → compactAll xs = .ok ts → ∀ t ∈ ts, P t.toList
  | [], _, _, h => by
    rw [← Except.ok.inj h]
    exact List.forall_mem_nil _
  | x :: xs, _, hxs, h => by
    obtain ⟨t, us, ht, hus, rfl⟩ := compactAll_cons h
    rw [textsInAll, List.forall_mem_append] at hxs
    exact List.forall_mem_cons.2 ⟨hP.compact hxs.1 ht, hP.compactAll hxs.2 hus⟩

theorem Carried.compactMembers (hP : Carried T P) :
    ∀ {ms : List (String × Json)} {ts : List String}, (∀ s ∈ textsInMembers ms, T s) →
      compactMembers ms = .ok ts → ∀ t ∈ ts, P t.toList
  | [], _, _, h => by
    rw [← Except.ok.inj h]
    exact List.forall_mem_nil _
  | (k, x) :: ms, _, hms, h => by
    obtain ⟨t, us, ht, hus, rfl⟩ := compactMembers_cons h
    rw [textsInMembers, List.forall_mem_append, List.forall_mem_cons] at hms
    refine List.forall_mem_cons.2 ⟨?_, hP.compactMembers hms.2 hus⟩
    rw [String.toList_append, String.toList_append, String.toList_ofList, List.append_assoc]
    exact hP.member hms.1.1 (hP.compact hms.1.2 ht)

end

theorem plain_compact (hj : j.Plain) (h : compact j = .ok s) : Text.Plain s.toList := by
  have hplain : Carried (fun s => Text.Plain s.toList) Text.Plain := by
    refine ⟨by decide, by decide, fun h => plain_of_numerals (numerals_numberLiteral h),
      plain_textLiteral, fun hk ht => ?_, fun {o c _} hoc hts => ?_⟩
    · exact (plain_textLiteral hk).append (.append (by decide) ht)
    · have hends : Text.Plain [o] ∧ Text.Plain [c] := by
        rcases hoc with ⟨rfl, rfl⟩ | ⟨rfl, rfl⟩ <;> decide
      exact hends.1.append ((Plain.intercalate hts).append hends.2)
  exact hplain.compact hj h

end Json

end PlatformGame
