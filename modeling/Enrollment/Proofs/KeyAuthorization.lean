import Enrollment.KeyAuthorization
import Enrollment.Proofs.Codec.Base64Read
import Enrollment.Proofs.Text.Blank

/-! # The value of a key authorization

A value is a token and the thumbprint of a key with a dot between them, and neither of the two has a
dot in it. No thumbprint has a blank in it either, so that a body is taken for the value that it is
and for no other.
-/

namespace Enrollment.KeyAuthorization

variable {token token' : String} {key key' : AccountKey} {authorization : KeyAuthorization}
  {authorization' : KeyAuthorization} {body : String}

theorem eq_of_ofKey (h : ofKey token key = .ok authorization) :
    authorization = ⟨token, key.thumbprint⟩ := by
  unfold ofKey ofThumbprint at h
  split at h
  · cases h
  · split at h <;> cases h
    rfl

theorem isToken_of_ofKey (h : ofKey token key = .ok authorization) : isToken token = true := by
  unfold ofKey ofThumbprint at h
  split at h
  · cases h
  · split at h
    · assumption
    · cases h

theorem ofKey_of_isToken (key : AccountKey) (hEmpty : token ≠ "") (hToken : isToken token = true) :
    ofKey token key = .ok ⟨token, key.thumbprint⟩ := by
  rw [ofKey, ofThumbprint, if_neg hEmpty, if_pos hToken]

theorem dot_not_mem_token (h : isToken token = true) : '.' ∉ token.toList := by
  intro hMem
  have hDot := List.all_eq_true.mp h '.' hMem
  exact absurd hDot (by decide)

theorem dot_not_mem_thumbprint (key : AccountKey) : '.' ∉ key.thumbprint.toList := by
  intro hMem
  have hAll : ∀ c ∈ key.thumbprint.toList, c ≠ '.' := Base64.forall_mem_encodeUrl (by decide) _
  exact hAll '.' hMem rfl

theorem isBodyEnd_thumbprint (key : AccountKey) :
    ∀ c ∈ key.thumbprint.toList, isBodyEnd c = false :=
  Base64.forall_mem_encodeUrl (by decide) _

theorem toList_value (authorization : KeyAuthorization) : authorization.value.toList =
    authorization.token.toList ++ '.' :: authorization.thumbprint.toList := by
  simp [value]

theorem isBodyEnd_iff {c : Char} :
    isBodyEnd c = true ↔ c = '\n' ∨ c = '\r' ∨ c = ' ' ∨ c = '\t' := by
  simp [isBodyEnd, or_assoc]

theorem trimEndBy_value (h : ofKey token key = .ok authorization) :
    Text.trimEndBy isBodyEnd authorization.value.toList = authorization.value.toList := by
  obtain rfl := eq_of_ofKey h
  have hBack : ∀ c ∈ '.' :: key.thumbprint.toList, isBodyEnd c = false :=
    List.forall_mem_cons.mpr ⟨rfl, isBodyEnd_thumbprint key⟩
  rw [toList_value]
  exact Text.trimEndBy_append _ (List.cons_ne_nil _ _) hBack

theorem matchesBody_iff (h : ofKey token key = .ok authorization) :
    authorization.matchesBody body = true ↔
      ∃ blanks, body = authorization.value ++ blanks ∧
        ∀ c ∈ blanks.toList, c = '\n' ∨ c = '\r' ∨ c = ' ' ∨ c = '\t' := by
  rw [matchesBody, decide_eq_true_eq]
  constructor
  · intro hBody
    obtain ⟨back, hText, hBack, -⟩ := Text.exists_trimEndBy isBodyEnd body.toList
    refine ⟨String.ofList back, ?_, ?_⟩
    · rw [← String.toList_inj, String.toList_append, String.toList_ofList, ← hBody, ← hText]
    · rw [String.toList_ofList]
      exact fun c hc => isBodyEnd_iff.mp (hBack c hc)
  · rintro ⟨blanks, rfl, hBlanks⟩
    rw [String.toList_append,
      Text.trimEndBy_append_all fun c hc => isBodyEnd_iff.mpr (hBlanks c hc), trimEndBy_value h]

theorem matchesBody_value (h : ofKey token key = .ok authorization) :
    authorization.matchesBody authorization.value = true := by
  rw [matchesBody, decide_eq_true_eq, trimEndBy_value h]

/-- The dot shows where the token ends. -/
theorem value_injective (h : ofKey token key = .ok authorization)
    (h' : ofKey token' key' = .ok authorization')
    (hValue : authorization.value = authorization'.value) :
    token = token' ∧ key.thumbprint = key'.thumbprint := by
  obtain rfl := eq_of_ofKey h
  obtain rfl := eq_of_ofKey h'
  rw [← String.toList_inj, toList_value, toList_value] at hValue
  obtain ⟨hToken, -, hThumbprint⟩ := (List.append_cons_inj_of_notMem
    (dot_not_mem_token (isToken_of_ofKey h)) (dot_not_mem_thumbprint key)).mp hValue
  exact ⟨String.toList_inj.mp hToken, String.toList_inj.mp hThumbprint⟩

theorem splitOn_value (h : ofKey token key = .ok authorization) :
    authorization.value.toList.splitOn '.' = [token.toList, key.thumbprint.toList] := by
  obtain rfl := eq_of_ofKey h
  have hParts : (⟨token, key.thumbprint⟩ : KeyAuthorization).value.toList =
      ['.'].intercalate [token.toList, key.thumbprint.toList] := by
    rw [toList_value]
    simp [List.intercalate]
  rw [hParts, List.splitOn_intercalate '.' _ (List.cons_ne_nil _ _)]
  intro part hPart
  simp only [List.mem_cons, List.not_mem_nil, or_false] at hPart
  rcases hPart with rfl | rfl
  · exact dot_not_mem_token (isToken_of_ofKey h)
  · exact dot_not_mem_thumbprint key

theorem count_dot_value (h : ofKey token key = .ok authorization) :
    authorization.value.toList.count '.' = 1 := by
  obtain rfl := eq_of_ofKey h
  rw [toList_value, List.count_append, List.count_cons_self,
    List.count_eq_zero.mpr (dot_not_mem_token (isToken_of_ofKey h)),
    List.count_eq_zero.mpr (dot_not_mem_thumbprint key)]

/-- A value is taken apart at its only dot, a body matches it exactly if it is the value with
blanks after it, and what one value and another share they share in both parts. -/
theorem ofKey_unambiguous (h : ofKey token key = .ok authorization) :
    authorization.value.toList.count '.' = 1 ∧
    authorization.value.toList.splitOn '.' = [token.toList, key.thumbprint.toList] ∧
    authorization.matchesBody authorization.value = true ∧
    (∀ body, authorization.matchesBody body = true ↔
      ∃ blanks, body = authorization.value ++ blanks ∧
        ∀ c ∈ blanks.toList, c = '\n' ∨ c = '\r' ∨ c = ' ' ∨ c = '\t') ∧
    ∀ token' key' authorization', ofKey token' key' = .ok authorization' →
      (authorization.value = authorization'.value →
        token = token' ∧ key.thumbprint = key'.thumbprint) ∧
      ∀ body, authorization.matchesBody body = true → authorization'.matchesBody body = true →
        token = token' ∧ key.thumbprint = key'.thumbprint := by
  refine ⟨count_dot_value h, splitOn_value h, matchesBody_value h, fun _ => matchesBody_iff h, ?_⟩
  intro token' key' authorization' h'
  refine ⟨value_injective h h', fun body hBody hBody' => ?_⟩
  -- Both values are what is left of the body without the blanks at its end.
  rw [matchesBody, decide_eq_true_eq] at hBody hBody'
  exact value_injective h h' (String.toList_inj.mp (hBody.symm.trans hBody'))

/-- Two tokens of one key. -/
theorem unambiguous_of_two_tokens :
    let key : AccountKey := ⟨.curve .p256 1 (by decide), none⟩
    let first : KeyAuthorization := ⟨"a-_9", key.thumbprint⟩
    let second : KeyAuthorization := ⟨"a-_", key.thumbprint⟩
    ofKey "a-_9" key = .ok first ∧ ofKey "a-_" key = .ok second ∧
      first.value.toList.splitOn '.' = ["a-_9".toList, key.thumbprint.toList] ∧
      first.matchesBody (first.value ++ "\r\n") = true ∧
      ∀ body, first.matchesBody body = true → second.matchesBody body = false := by
  intro key first second
  have hFirst : ofKey "a-_9" key = .ok first := ofKey_of_isToken key (by decide) (by decide)
  have hSecond : ofKey "a-_" key = .ok second := ofKey_of_isToken key (by decide) (by decide)
  obtain ⟨-, hSplit, -, hBodies, hOthers⟩ := ofKey_unambiguous hFirst
  have hBlank : ∀ c ∈ "\r\n".toList, c = '\n' ∨ c = '\r' ∨ c = ' ' ∨ c = '\t' := by simp
  refine ⟨hFirst, hSecond, hSplit, (hBodies _).mpr ⟨"\r\n", rfl, hBlank⟩, fun body hBody => ?_⟩
  rw [← Bool.not_eq_true]
  intro hOther
  obtain ⟨hToken, -⟩ := (hOthers _ _ _ hSecond).2 body hBody hOther
  exact absurd hToken (by decide)

end Enrollment.KeyAuthorization
