import Destiny.Server.Handlers

/-!
# Reading a character list

What the queries of a character list find: the account's rows, from each the character's
name, and for each name the slot of the character that has it.
-/

namespace Destiny

open Text Sql Prog

variable {E : Env} {J : Junk} {c : Ptr} {s t : Server}

/-! ## Columns -/

theorem col_ok {row : Fetched} {i : Nat} {b : Bytes} (h : col row i s = .ok b t) :
    t = s ∧ ∃ d, row[i]? = some (some d) ∧ b = cstr d := by
  rcases hd : row[i]? with _ | _ | d <;> rw [col, hd] at h <;> cases h
  exact ⟨rfl, d, rfl, rfl⟩

theorem colInt_ok {row : Fetched} {i : Nat} {n : Int} (h : colInt row i s = .ok n t) :
    t = s ∧ ∃ d, row[i]? = some (some d) ∧ n = atoi (cstr d) := by
  obtain ⟨b, u, hb, h⟩ := of_bind_ok h
  obtain ⟨rfl, d, hd, rfl⟩ := col_ok hb
  cases h
  exact ⟨rfl, d, hd, rfl⟩

theorem colName_ok {row : Fetched} {i : Nat} {b : Bytes} (h : colName row i s = .ok b t) :
    t = s ∧ ∃ d, row[i]? = some (some d) ∧ b = cstr d := by
  obtain ⟨b', u, hb, h⟩ := of_bind_ok h
  obtain ⟨_, v, hv, h⟩ := of_bind_ok h
  unfold check at hv
  split at hv <;> cases hv
  cases h
  exact col_ok hb

/-! ## The account's characters -/

theorem selectChars_ok {r : Option (List Fetched)} (h : selectChars E c s = .ok r t) :
    ∃ cl, s.heap c = some cl ∧ t = s.asked s.reads (s.sqlCalls + 1) ∧
      (clean cl.playerSession.username.str → ∀ rows, r = some rows →
        rows = fetch s.db listCols .characters (uidCond cl.playerSession.username.str)) := by
  obtain ⟨cl, u, hu, hsql⟩ := of_bind_ok h
  obtain ⟨hcl, rfl⟩ := client_ok hu
  refine ⟨cl, hcl, doSQL_asked (by simp [Query.selects]) hsql, ?_⟩
  rintro hclean rows rfl
  exact doSQL_rows (parse_chars hclean) hsql

/-- The characters read carry the names in their rows. -/
theorem fetchChars_names {rows : List Fetched} {chars chars' : List CCharacter}
    (h : fetchChars E J rows chars s = .ok (some chars') t) :
    ∃ new, chars' = chars ++ new ∧
      List.Forall₂ (fun row ch => ∃ d, row[1]? = some (some d) ∧ ch.charName = cstr d) rows new := by
  induction rows generalizing chars s with
  | nil =>
    cases h
    exact ⟨[], by simp, .nil⟩
  | cons row rows ih =>
    rw [fetchChars] at h
    obtain ⟨_, s1, -, h⟩ := of_bind_ok h
    obtain ⟨charName, s2, hname, h⟩ := of_bind_ok h
    iterate 9 obtain ⟨_, _, -, h⟩ := of_bind_ok h
    obtain ⟨r, s3, -, h⟩ := of_bind_ok h
    rcases r with _ | rows2
    · cases h
    obtain ⟨eqitems, s4, -, h⟩ := of_bind_ok h
    obtain ⟨new, rfl, hnew⟩ := ih h
    exact ⟨_, List.append_assoc _ _ _, .cons (colName_ok hname).2 hnew⟩

/-! ## Slots -/

/-- The slot found for a name that a single character has. -/
theorem lastPosid_single {n charpos : Int} (h : 0 ≤ n ∧ n ≤ 3) :
    lastPosid [[some (decimal n)]] charpos s = .ok n s := by
  have hcol : colInt [some (decimal n)] 0 s = .ok (atoi (decimal n)) s := by
    rw [colInt, bind_apply, col]
    simp only [List.getElem?_cons_zero, cstr_decimal]
    rfl
  rw [lastPosid, bind_ok hcol, lastPosid, atoi_decimal (by omega)]
  rfl

end Destiny
