import DynScript.Token.Scan

/-!
# Lexemes cover the source

Cutting a lexeme off a text loses nothing: the lexeme's text and what follows it are the text, and
the lexeme takes at least one character.  Hence the texts of all lexemes, put together, are the
source (`flatMap_text_lexemes`).
-/

namespace DynScript

namespace Lexeme

theorem append_of_closeComment {cs text rest} (h : closeComment cs = some (text, rest)) :
    text ++ rest = cs := by
  fun_induction closeComment cs generalizing text rest with
  | case1 => simp at h
  | case2 cs =>
    simp only [Option.some.injEq, Prod.mk.injEq] at h
    obtain ⟨rfl, rfl⟩ := h
    rfl
  | case3 c cs _ ih =>
    obtain ⟨⟨t, r⟩, ht, he⟩ := Option.map_eq_some_iff.1 h
    simp only [Prod.mk.injEq] at he
    obtain ⟨rfl, rfl⟩ := he
    simp [ih ht]

theorem stringTail_append (n : Nat) (cs) :
    (stringTail n cs).text ++ (stringTail n cs).rest.getD [] = cs := by
  fun_induction stringTail n cs with
  | case1 => rfl
  | case2 => rfl
  | case3 => rfl
  | case4 n e cs t c hc ih => simp_all [t]
  | case5 n e cs t hc ih => simp_all [t]
  | case6 n c cs _ _ _ t ih => simp_all [t]

theorem append_of_comment {c d cs} {l} {rest} (h : comment c d cs = some (l, rest)) :
    l.text ++ rest = c :: d :: cs := by
  unfold comment at h
  split at h
  · simp only [Option.some.injEq, Prod.mk.injEq] at h
    obtain ⟨rfl, rfl⟩ := h
    simp [List.takeWhile_append_dropWhile]
  · split at h
    · split at h
      · rename_i t r ht
        simp only [Option.some.injEq, Prod.mk.injEq] at h
        obtain ⟨rfl, rfl⟩ := h
        simp [append_of_closeComment ht]
      · simp only [Option.some.injEq, Prod.mk.injEq] at h
        obtain ⟨rfl, rfl⟩ := h
        simp
    · simp at h

theorem number_append (cs) : (number cs).1.text ++ (number cs).2 = cs := by
  have h := List.takeWhile_append_dropWhile (p := Number.isDigit) (l := cs)
  unfold number
  split
  · rename_i rest hrest
    rw [hrest] at h
    dsimp only
    split
    · exact h
    · have h' := List.takeWhile_append_dropWhile (p := Number.isDigit) (l := rest)
      simp only [List.append_assoc, List.cons_append, h', h]
  · exact h

theorem word_append (cs) : (word cs).1.text ++ (word cs).2 = cs :=
  List.takeWhile_append_dropWhile

theorem stringLiteral_append (cs) :
    (stringLiteral cs).1.text ++ (stringLiteral cs).2 = '"' :: cs := by
  have h := stringTail_append 1 cs
  unfold stringLiteral
  dsimp only
  split <;> simp_all

theorem single_text (c) : (single c).text = [c] := by
  unfold single
  split <;> rfl

theorem operator_append (c cs) : (operator c cs).1.text ++ (operator c cs).2 = c :: cs := by
  unfold operator
  split
  · simp [single_text]
  · split
    · rfl
    · simp [single_text]

theorem first_append (c cs) : (first c cs).1.text ++ (first c cs).2 = c :: cs := by
  unfold first
  split
  · rfl
  · split
    · rename_i found hfound
      obtain ⟨d, hd, hc⟩ := Option.bind_eq_some_iff.1 hfound
      cases cs with
      | nil => simp at hd
      | cons e es =>
        simp only [List.head?_cons, Option.some.injEq] at hd
        subst hd
        exact append_of_comment hc
    · split
      · rfl
      · split
        · exact number_append _
        · split
          · exact word_append _
          · split
            · rename_i hq
              subst hq
              exact stringLiteral_append cs
            · exact operator_append c cs

theorem takeWhile_cons_ne_nil {p : Char → Bool} {c} (cs) (h : p c = true) :
    (c :: cs).takeWhile p ≠ [] := by
  simp [h]

theorem first_text_ne_nil (c cs) : (first c cs).1.text ≠ [] := by
  unfold first
  split
  · simp
  · split
    · rename_i found hfound
      obtain ⟨d, hd, hc⟩ := Option.bind_eq_some_iff.1 hfound
      unfold comment at hc
      split at hc
      · simp only [Option.some.injEq] at hc
        subst hc
        simp
      · split at hc
        · split at hc <;> (simp only [Option.some.injEq] at hc; subst hc; simp)
        · simp at hc
    · split
      · simp
      · split
        · rename_i hd
          unfold number
          split
          · dsimp only
            split
            · exact takeWhile_cons_ne_nil cs hd
            · simp
          · exact takeWhile_cons_ne_nil cs hd
        · split
          · rename_i hs
            exact takeWhile_cons_ne_nil cs (by simp [continuesName, hs])
          · split
            · unfold stringLiteral
              dsimp only
              split <;> simp
            · unfold operator
              split
              · simp [single_text]
              · split <;> simp [single_text]

/-- What follows a lexeme is shorter than what it was cut from. -/
theorem length_first_lt (c cs) : (first c cs).2.length < (c :: cs).length := by
  have h := congrArg List.length (first_append c cs)
  have hpos := List.length_pos_iff.2 (first_text_ne_nil c cs)
  simp only [List.length_append] at h
  omega

end Lexeme

theorem flatMap_text_lexemesFrom (fuel : Nat) (cs : List Char) (h : cs.length ≤ fuel) :
    (lexemesFrom fuel cs).flatMap (·.text) = cs := by
  induction fuel generalizing cs with
  | zero =>
    cases cs with
    | nil => rfl
    | cons c cs => simp at h
  | succ fuel ih =>
    cases cs with
    | nil => rfl
    | cons c cs =>
      have hlt := Lexeme.length_first_lt c cs
      simp only [lexemesFrom, List.flatMap_cons]
      rw [ih _ (by simp only [List.length_cons] at h hlt; omega), Lexeme.first_append]

/-- The texts of the lexemes of a text, put together, are the text. -/
theorem flatMap_text_lexemes (cs) : (lexemes cs).flatMap (·.text) = cs :=
  flatMap_text_lexemesFrom cs.length cs (Nat.le_refl _)

end DynScript
