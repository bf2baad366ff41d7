/-
The text of a keyword list.

A text is cut into tokens and written again with commas between them.  Nothing is lost but a
comma at the very end, if it separates the last token from nothing
(`intercalate_splitTokensFrom`); and what is written is cut as before, because each token has been
read from the start of a token to a place where a comma separates.  The last token is no
exception: it has been read to the end of the text, and so it is again.

Main result: `KeywordClassifier.parse_text_of_parse`.
-/
import ModalScript.Proofs.Keyword.Grammar

namespace ModalScript

section Cutting

variable {place : TokenPlace} {token cs t : List Char}

/-- Each token that has been cut from a text has something in it, and is read to its end. -/
theorem whole_of_mem_splitTokensFrom (hplace : TokenPlace.start.behind [] token.reverse = place)
    (hpasses : TokenPlace.start.Passes [] token.reverse) (ht : t ∈ splitTokensFrom place token cs) :
    t ≠ [] ∧ TokenPlace.start.Passes [] t := by
  -- what has been read of the token so far is such a token, as soon as it is not empty
  induction cs generalizing place token with
  | nil =>
    rw [splitTokensFrom] at ht
    split at ht
    · cases ht
    · next htoken =>
      obtain rfl := List.mem_singleton.mp ht
      exact ⟨fun hnil => htoken (List.isEmpty_iff.mpr (List.reverse_eq_nil_iff.mp hnil)), hpasses⟩
  | cons c cs ih =>
    rw [splitTokensFrom] at ht
    split at ht
    · next hc =>
      rcases List.mem_cons.mp ht with rfl | ht
      · -- a comma separates only behind something
        refine ⟨fun hnil => ?_, hpasses⟩
        rw [hnil, hc.2] at hplace
        cases hplace
      · exact @ih .start [] rfl trivial ht
    · next hc =>
      refine ih ?_ ?_ ht
      · rw [List.reverse_cons, TokenPlace.behind_append, hplace, List.reverse_reverse,
          List.append_nil]
        rfl
      · rw [List.reverse_cons, TokenPlace.passes_append, hplace]
        exact ⟨hpasses, hc, trivial⟩

/-- The tokens of a text are whole, as nothing of the first one has been read before. -/
theorem whole_of_mem_tokens (ht : t ∈ splitTokensFrom .start [] cs) :
    t ≠ [] ∧ TokenPlace.start.Passes [] t :=
  @whole_of_mem_splitTokensFrom .start [] cs t rfl trivial ht

/-- Written with commas, the tokens of a text are the text, but for a comma at the end. -/
theorem intercalate_splitTokensFrom (hplace : place = .inside → token ≠ []) :
    [','].intercalate (splitTokensFrom place token cs) = token.reverse ++ cs ∨
      [','].intercalate (splitTokensFrom place token cs) ++ [','] = token.reverse ++ cs := by
  induction cs generalizing place token with
  | nil =>
    rw [splitTokensFrom, List.append_nil]
    split
    · next htoken =>
      rw [List.isEmpty_iff.mp htoken]
      exact .inl rfl
    · exact .inl (List.intercalate_singleton ..)
  | cons c cs ih =>
    rw [splitTokensFrom]
    split
    · next hc =>
      obtain ⟨rfl, -⟩ := hc
      have hrest := @ih .start [] (by decide)
      rcases htokens : splitTokensFrom .start [] cs with - | ⟨u, us⟩
      · -- nothing follows the comma
        rw [htokens] at hrest
        rcases hrest with rfl | rfl
        · exact .inr (by rw [List.intercalate_singleton]; rfl)
        · cases htokens
      · rw [htokens] at hrest
        rw [List.intercalate_cons_cons, List.append_assoc, List.append_assoc]
        refine hrest.imp (fun h => ?_) fun h => ?_
        · rw [h]
          rfl
        · rw [List.append_assoc, h]
          rfl
    · -- the character, be it a comma, belongs to the token
      have hrest := @ih (place.next token c) (c :: token) fun _ => List.cons_ne_nil _ _
      rwa [List.reverse_cons, List.append_assoc] at hrest

end Cutting

open SettingValue (joinTokens)

/-- The tokens with commas between them are the text, but for a comma at the end. -/
theorem joinTokens_splitTokens (s : String) :
    joinTokens (splitTokens s) = s ∨ joinTokens (splitTokens s) ++ "," = s := by
  have hchars := @intercalate_splitTokensFrom .start [] s.toList (by decide)
  simp only [← String.toList_inj, joinTokens, splitTokens, map_toList_ofList, String.toList_append,
    String.toList_ofList]
  exact hchars

/-- What has been cut and written again is cut as before. -/
theorem splitTokens_joinTokens_splitTokens (s : String) :
    splitTokens (joinTokens (splitTokens s)) = splitTokens s := by
  rw [Tokenizer.splitTokens_joinTokens_eq_iff, splitTokens, map_toList_ofList,
    splitTokensFrom_intercalate fun t ht => whole_of_mem_tokens ht]
  exact fun t ht => @behind_of_mem_splitTokensFrom .start [] s.toList t rfl ht

theorem empty_notMem_splitTokens (s : String) : "" ∉ splitTokens s := by
  intro hmem
  obtain ⟨cs, hcs, hempty⟩ := List.mem_map.mp hmem
  exact mt String.ofList_eq_empty_iff.mp (whole_of_mem_tokens hcs).1 hempty

namespace KeywordClassifier

/-- A classifier keeps the tokens of its list. -/
theorem tokenTexts_of_ofTokens {ts : List String} {k : KeywordClassifier}
    (h : ofTokens ts = .ok k) : k.tokenTexts = ts := by
  have hspells := ofTokens_eq_ok_iff.mp h
  rw [tokenTexts, ← List.map_reverse]
  clear h
  generalize k.tokens.reverse = ks at hspells
  induction hspells with
  | nil => rfl
  | cons hk _ ih => rw [List.map_cons, hk.1, ih]

/-- **Keyword lists survive being written and read.**  A text is its tokens with commas between
them, but for a comma at the end that separates nothing, and what is written so is cut into the
same tokens, none of them empty.  So the text of a classifier that a text has made makes an equal
one. -/
theorem parse_text_of_parse (s : String) :
    (joinTokens (splitTokens s) = s ∨ joinTokens (splitTokens s) ++ "," = s) ∧
    splitTokens (joinTokens (splitTokens s)) = splitTokens s ∧
    "" ∉ splitTokens s ∧
    ∀ k, parse s = .ok k → parse k.text = .ok k := by
  refine ⟨joinTokens_splitTokens s, splitTokens_joinTokens_splitTokens s,
    empty_notMem_splitTokens s, fun k hk => ?_⟩
  rw [text, tokenTexts_of_ofTokens hk, parse, splitTokens_joinTokens_splitTokens]
  exact hk

/-- Commas that are tokens, ends of ranges and excluded, and one at the end that separates
nothing. -/
theorem parse_text_of_parse_of_commas :
    splitTokens ",,^,,*-,,a," = [",", "^,", "*-,", "a"] ∧
      ∃ k, parse ",,^,,*-,,a," = .ok k ∧ k.text = ",,^,,*-,,a" ∧ parse k.text = .ok k := by
  obtain ⟨k, hk, htext⟩ : ∃ k, parse ",,^,,*-,,a," = .ok k ∧ k.text = ",,^,,*-,,a" :=
    ⟨_, rfl, rfl⟩
  exact ⟨rfl, k, hk, htext, (parse_text_of_parse _).2.2.2 k hk⟩

end KeywordClassifier

end ModalScript
