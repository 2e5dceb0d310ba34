import MapTables.Markup.Attribute
import MapTables.Proofs.Markup.Written
import MapTables.Proofs.Text.Utf8

/-!
# Values read back

Markup writes five characters of a value by their names. What is read of a value that was written
is the value itself.
-/

namespace MapTables

namespace Escape

variable {c d : Char}

/-! ## Written characters -/

theorem named_reads {name : String} (h : (name, c) ∈ named) : named? name = some c ∧
    name.toList.head? ≠ some '#' ∧ ∀ d ∈ name.toList, isInside d = true ∧ d ≠ '"' ∧ d ≠ '\'' := by
  have reads : ∀ e ∈ named, named? e.1 = some e.2 ∧ e.1.toList.head? ≠ some '#' ∧
      (e.1.toList.all fun d => isInside d && d != '"' && d != '\'') = true := by decide
  obtain ⟨hn, hhash, hin⟩ := reads _ h
  refine ⟨hn, hhash, fun d hd => ?_⟩
  simpa [and_assoc] using List.all_eq_true.mp hin d hd

theorem escapeChar_cases (c : Char) :
    (c ≠ '&' ∧ c ≠ '"' ∧ c ≠ '\'' ∧ escapeChar c = [c]) ∨
      ∃ name, (name, c) ∈ named ∧ escapeChar c = '&' :: (name.toList ++ [';']) := by
  unfold escapeChar
  cases hf : named.find? fun e => e.2 == c with
  | none =>
    left
    have hn := List.find?_eq_none.mp hf
    refine ⟨?_, ?_, ?_, rfl⟩
    · exact fun h => hn ("amp", '&') (by decide) (by simp [h])
    · exact fun h => hn ("quot", '"') (by decide) (by simp [h])
    · exact fun h => hn ("apos", '\'') (by decide) (by simp [h])
  | some e =>
    right
    have hc : e.2 = c := by simpa using List.find?_some hf
    exact ⟨e.1, hc ▸ List.mem_of_find?_eq_some hf, rfl⟩

theorem not_quote_of_mem (h : d ∈ escapeChar c) : d ≠ '"' ∧ d ≠ '\'' := by
  rcases escapeChar_cases c with ⟨-, h1, h2, he⟩ | ⟨name, hn, he⟩
  · rw [he, List.mem_singleton] at h
    exact h ▸ ⟨h1, h2⟩
  · rw [he, List.mem_cons, List.mem_append, List.mem_singleton] at h
    rcases h with rfl | h | rfl
    · decide
    · exact ((named_reads hn).2.2 d h).2
    · decide

/-! ## Written values -/

theorem resolve_of_named {start stop : Nat} {name : String} (h : (name, c) ∈ named) :
    resolve start stop name.toList = .ok c := by
  obtain ⟨hn, hhash, -⟩ := named_reads h
  unfold resolve
  split
  · next hl => exact absurd (congrArg List.head? hl) hhash
  · rw [String.ofList_toList, hn]

theorem unescapeFrom_escapeChar (length index : Nat) (done : Array Char) (c : Char)
    (rest : List Char) : ∃ index', unescapeFrom length index done (escapeChar c ++ rest) =
      unescapeFrom length index' (done.push c) rest := by
  rcases escapeChar_cases c with ⟨h, -, -, he⟩ | ⟨name, hn, he⟩
  · refine ⟨index + c.utf8Size, ?_⟩
    rw [he, List.singleton_append, unescapeFrom, if_neg h]
  · have hin : ∀ d ∈ name.toList, isInside d = true := fun d hd => ((named_reads hn).2.2 d hd).1
    have htake : (name.toList ++ ';' :: rest).takeWhile isInside = name.toList := by
      rw [List.takeWhile_append_of_pos hin]
      simp [isInside]
    have hdrop : (name.toList ++ ';' :: rest).dropWhile isInside = ';' :: rest := by
      rw [List.dropWhile_append_of_pos hin]
      simp [isInside]
    refine ⟨index + 1 + utf8Length name.toList + 1, ?_⟩
    rw [he, List.cons_append, List.append_assoc, List.singleton_append, unescapeFrom, if_pos rfl]
    simp only [htake]
    split
    · next hd =>
      cases hdrop.symm.trans hd
      rw [resolve_of_named hn]
    · next hne => exact absurd hdrop (hne rest)

theorem unescapeFrom_escape (length index : Nat) (done : Array Char) (cs : List Char) :
    unescapeFrom length index done (cs.flatMap escapeChar) = .ok (done ++ cs) := by
  induction cs generalizing index done with
  | nil =>
    rw [List.flatMap_nil, unescapeFrom]
    simp
  | cons c cs ih =>
    obtain ⟨index', hc⟩ := unescapeFrom_escapeChar length index done c (cs.flatMap escapeChar)
    rw [List.flatMap_cons, hc, ih]
    simp

/-- A written value is read as the text it was written from. -/
theorem unescape_escape (text : String) : unescape (escape text) = .ok text := by
  rw [unescape, escape, String.toList_ofList, unescapeFrom_escape]
  simp [Except.map]

theorem writtenChar_eq (c : Char) : Markup.writtenChar c = escapeChar c := by
  unfold Markup.writtenChar
  split
  · decide
  · decide
  · decide
  · decide
  · decide
  · next h1 h2 h3 h4 h5 =>
    rcases escapeChar_cases c with ⟨-, -, -, he⟩ | ⟨name, hn, -⟩
    · exact he.symm
    · simp only [named, List.mem_cons, Prod.mk.injEq, List.not_mem_nil, or_false] at hn
      rcases hn with ⟨-, hn⟩ | ⟨-, hn⟩ | ⟨-, hn⟩ | ⟨-, hn⟩ | ⟨-, hn⟩
      · exact absurd hn h2
      · exact absurd hn h3
      · exact absurd hn h1
      · exact absurd hn h5
      · exact absurd hn h4

theorem writtenValue_eq (value : String) :
    Markup.writtenValue value = Bytes.ofString (escape value) := by
  rw [Bytes.ofString_eq, escape, String.toList_ofList, Markup.writtenValue,
    funext writtenChar_eq]

end Escape

namespace Tag

variable {value : String}

theorem valueText_written : valueText (Markup.writtenValue value) = .ok value := by
  rw [Escape.writtenValue_eq, valueText, Utf8.decode_ofString]
  simp only [Escape.unescape_escape]

theorem quote_notMem_written {q : UInt8} (hq : Markup.IsQuote q) :
    q ∉ Markup.writtenValue value := by
  intro h
  rw [Escape.writtenValue_eq, Bytes.ofString_eq, Escape.escape, String.toList_ofList] at h
  rcases hq with rfl | rfl
  · obtain ⟨c, -, hc⟩ := List.mem_flatMap.mp (Utf8.mem_of_mem_ofChars (by decide) h)
    exact absurd rfl (Escape.not_quote_of_mem hc).1
  · obtain ⟨c, -, hc⟩ := List.mem_flatMap.mp (Utf8.mem_of_mem_ofChars (by decide) h)
    exact absurd rfl (Escape.not_quote_of_mem hc).2

end Tag
end MapTables
