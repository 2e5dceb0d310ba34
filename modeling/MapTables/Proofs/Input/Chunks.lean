import MapTables.Proofs.Input.Cut

/-!
# Chunks of decoded text

What a decoder fills its buffers with does not depend on where they are handed over. The chunks
are never empty and never larger than a buffer, and more octets make no difference to those that
were handed over before.
-/

namespace MapTables

/-! ## Decoding -/

namespace Decoder

theorem foldl_advance (s : Decoder × Array Char) (bytes : Bytes) :
    bytes.foldl advance s = ((s.1.run bytes).1, s.2 ++ (s.1.run bytes).2) := by
  induction bytes generalizing s with
  | nil => simp [run]
  | cons b bytes ih =>
    have hr : s.1.run (b :: bytes) = bytes.foldl advance (advance (s.1, #[]) b) := rfl
    rw [hr, List.foldl_cons, ih (advance s b), ih (advance (s.1, #[]) b), advance, advance,
      Prod.mk.injEq, ← Array.toList_inj]
    simp

theorem run_append (d : Decoder) (front back : Bytes) :
    d.run (front ++ back) =
      (((d.run front).1.run back).1, (d.run front).2 ++ ((d.run front).1.run back).2) := by
  rw [run, List.foldl_append, foldl_advance]
  rfl

theorem run_cons (d : Decoder) (b : UInt8) (bytes : Bytes) :
    d.run (b :: bytes) =
      (((d.step b).1.run bytes).1, (d.step b).2.toArray ++ ((d.step b).1.run bytes).2) := by
  have hone : d.run [b] = ((d.step b).1, (d.step b).2.toArray) := by simp [run, advance]
  rw [← List.singleton_append, run_append, hone]

end Decoder

theorem ofChars_append (cs ds : List Char) :
    Bytes.ofChars (cs ++ ds) = Bytes.ofChars cs ++ Bytes.ofChars ds := List.flatMap_append

theorem length_ofChars_cons (c : Char) (cs : List Char) :
    (Bytes.ofChars (c :: cs)).length = c.utf8Size + (Bytes.ofChars cs).length := by
  rw [← List.singleton_append, ofChars_append, List.length_append]
  simp [Bytes.ofChars]

theorem ofChars_eq_nil {cs : List Char} (h : (Bytes.ofChars cs).length = 0) : cs = [] := by
  cases cs with
  | nil => rfl
  | cons c cs =>
    rw [length_ofChars_cons] at h
    have := c.utf8Size_pos
    omega

theorem ofChars_flatten (texts : List (List Char)) :
    Bytes.ofChars texts.flatten = (texts.map Bytes.ofChars).flatten := by
  rw [Bytes.ofChars, List.flatten_eq_flatMap, List.flatMap_assoc, List.flatten_eq_flatMap,
    List.flatMap_map]
  rfl

/-! ## Filling -/

theorem Chunk.text_eq_empty {c : Chunk} (h : c.size = 0) : c.text = #[] :=
  Array.toList_eq_nil_iff.mp (ofChars_eq_nil (c.size_eq.trans h))

namespace Filling

variable {codecs : Codecs} {f g h : Filling} {cs ds : List Char}

/-- The characters of the chunks. -/
def parts (f : Filling) : List (List Char) := f.chunks.toList.map fun c => c.text.toList

theorem put_cases (codecs : Codecs) (b : Option UInt8) (f : Filling) (c : Char) :
    (∃ room, f.put codecs b c = { f with buffer := f.buffer.push c room }) ∨
      (f.buffer.size ≠ 0 ∧
        f.put codecs b c = { f with full := f.full.push f.buffer, buffer := .start c }) := by
  unfold put
  split
  · next h => exact Or.inl ⟨h.1, rfl⟩
  · next h =>
    refine Or.inr ⟨fun hs => h ⟨?_, Or.inl hs⟩, rfl⟩
    have := c.utf8Size_le_four
    simp only [hs, blockSize]
    omega

theorem parts_of_buffer (hs : f.buffer.size ≠ 0) :
    f.parts = (f.full.toList.map fun c => c.text.toList) ++ [f.buffer.text.toList] := by
  simp [parts, chunks, hs]

theorem parts_of_no_buffer (hs : f.buffer.size = 0) :
    f.parts = f.full.toList.map fun c => c.text.toList := by
  simp [parts, chunks, hs]

/-- A character makes a part of its own or goes to the last one. -/
theorem parts_put (codecs : Codecs) (b : Option UInt8) (f : Filling) (c : Char) :
    (f.put codecs b c).parts = f.parts ++ [[c]] ∨
      ∃ front t, f.parts = front ++ [t] ∧ (f.put codecs b c).parts = front ++ [t ++ [c]] := by
  have hc : c.utf8Size ≠ 0 := Nat.ne_of_gt c.utf8Size_pos
  rcases put_cases codecs b f c with ⟨room, hput⟩ | ⟨hs, hput⟩
  · have hnew : (f.put codecs b c).parts =
        (f.full.toList.map fun c => c.text.toList) ++ [f.buffer.text.toList ++ [c]] := by
      rw [hput, parts_of_buffer (Nat.ne_of_gt (Nat.add_pos_right _ c.utf8Size_pos))]
      simp [Chunk.push]
    by_cases hs : f.buffer.size = 0
    · left
      rw [hnew, parts_of_no_buffer hs, Chunk.text_eq_empty hs]
      rfl
    · exact Or.inr ⟨_, _, parts_of_buffer hs, hnew⟩
  · left
    have hstart : (Chunk.start c).size ≠ 0 := by simpa [Chunk.start, Chunk.push]
    rw [hput, parts_of_buffer hs, parts_of_buffer hstart]
    simp [Chunk.start, Chunk.push]

/-- One filling goes on from another one with these characters. -/
structure Grows (f g : Filling) (cs : List Char) : Prop where
  cut : CutOf f.parts g.parts
  text : g.parts.flatten = f.parts.flatten ++ cs
  nonempty : (∀ t ∈ f.parts, t ≠ []) → ∀ t ∈ g.parts, t ≠ []

namespace Grows

theorem refl (f : Filling) : Grows f f [] := ⟨.refl _, (List.append_nil _).symm, id⟩

theorem trans (hf : Grows f g cs) (hg : Grows g h ds) : Grows f h (cs ++ ds) where
  cut := hf.cut.trans hg.cut
  text := by rw [hg.text, hf.text, List.append_assoc]
  nonempty := hg.nonempty ∘ hf.nonempty

theorem put (codecs : Codecs) (b : Option UInt8) (f : Filling) (c : Char) :
    Grows f (f.put codecs b c) [c] := by
  rcases parts_put codecs b f c with hnew | ⟨front, t, hold, hnew⟩
  · refine ⟨?_, ?_, fun hne => ?_⟩
    · rw [hnew]
      exact (CutOf.refl _).append_right _
    · rw [hnew]
      simp
    · rw [hnew]
      exact List.forall_mem_append.mpr ⟨hne, by simp⟩
  · refine ⟨?_, ?_, fun hne => ?_⟩
    · rw [hold, hnew]
      exact .append_left front (.within t [c] [])
    · rw [hold, hnew]
      simp
    · rw [hold] at hne
      rw [hnew]
      exact List.forall_mem_append.mpr ⟨(List.forall_mem_append.mp hne).1, by simp⟩

theorem putAll (codecs : Codecs) (b : Option UInt8) (f : Filling) (cs : List Char) :
    Grows f (cs.foldl (Filling.put codecs b) f) cs := by
  induction cs generalizing f with
  | nil => exact .refl f
  | cons c cs ih => exact (put codecs b f c).trans (ih _)

theorem read (codecs : Codecs) (f : Filling) (b : UInt8) :
    Grows f (f.read codecs b) (f.decoder.step b).2 :=
  have h := putAll codecs (some b) f (f.decoder.step b).2
  ⟨h.cut, h.text, h.nonempty⟩

end Grows

theorem decoder_read (codecs : Codecs) (f : Filling) (b : UInt8) :
    (f.read codecs b).decoder = (f.decoder.step b).1 := rfl

theorem grows_readAll (codecs : Codecs) (f : Filling) (bytes : Bytes) :
    Grows f (bytes.foldl (read codecs) f) (f.decoder.run bytes).2.toList ∧
      (bytes.foldl (read codecs) f).decoder = (f.decoder.run bytes).1 := by
  induction bytes generalizing f with
  | nil => exact ⟨.refl f, rfl⟩
  | cons b bytes ih =>
    obtain ⟨hg, hd⟩ := ih (f.read codecs b)
    rw [decoder_read] at hg hd
    rw [Decoder.run_cons, Array.toList_append, List.toList_toArray]
    exact ⟨(Grows.read codecs f b).trans hg, hd⟩

theorem decoder_readAll (codecs : Codecs) (d : Decoder) (bytes : Bytes) :
    (readAll codecs d bytes).decoder = (d.run bytes).1 :=
  (grows_readAll codecs { decoder := d } bytes).2

theorem flatten_readAll (codecs : Codecs) (d : Decoder) (bytes : Bytes) :
    (readAll codecs d bytes).parts.flatten = (d.run bytes).2.toList :=
  (grows_readAll codecs { decoder := d } bytes).1.text

theorem flatten_ofFinish (codecs : Codecs) (d : Decoder) :
    (ofFinish codecs d).parts.flatten = d.finish :=
  (Grows.putAll codecs none { decoder := d } d.finish).text

theorem parts_ofFinish_of_nil (codecs : Codecs) {d : Decoder} (h : d.finish = []) :
    (ofFinish codecs d).parts = [] := by
  rw [ofFinish, h]
  rfl

/-- Of the chunks that octets come to, more octets leave all but the last one as they are. -/
theorem cutOf_readAll (codecs : Codecs) (d : Decoder) (front back : Bytes) :
    CutOf (readAll codecs d front).parts (readAll codecs d (front ++ back)).parts := by
  have h := (grows_readAll codecs (readAll codecs d front) back).1.cut
  rwa [readAll, ← List.foldl_append] at h

theorem ne_nil_of_mem_readAll {codecs : Codecs} {d : Decoder} {bytes : Bytes} {t : List Char}
    (h : t ∈ (readAll codecs d bytes).parts) : t ≠ [] :=
  (grows_readAll codecs { decoder := d } bytes).1.nonempty (fun _ h => nomatch h) t h

theorem ne_nil_of_mem_ofFinish {codecs : Codecs} {d : Decoder} {t : List Char}
    (h : t ∈ (ofFinish codecs d).parts) : t ≠ [] :=
  (Grows.putAll codecs none { decoder := d } d.finish).nonempty (fun _ h => nomatch h) t h

theorem length_of_mem_parts {f : Filling} {t : List Char} (h : t ∈ f.parts) :
    (Bytes.ofChars t).length ≤ blockSize := by
  obtain ⟨c, -, rfl⟩ := List.mem_map.mp h
  exact c.size_eq ▸ c.fits

theorem octets_pieces (f : Filling) (drawn : Nat) :
    (f.pieces drawn).toList.map Piece.octets = f.parts.map Bytes.ofChars := by
  simp [pieces, parts, Chunk.octets]

/-! ## Pieces -/

end Filling

namespace Decoder

/-- The chunks that pieces come to, one after the other. -/
def texts (codecs : Codecs) (d : Decoder) : List Bytes → List (List Char)
  | [] => []
  | p :: ps => (Filling.readAll codecs d p).parts ++ (d.run p).1.texts codecs ps

theorem ne_nil_of_mem_texts {codecs : Codecs} {d : Decoder} {ps : List Bytes} {t : List Char}
    (h : t ∈ d.texts codecs ps) : t ≠ [] := by
  induction ps generalizing d with
  | nil => cases h
  | cons p ps ih => exact (List.mem_append.mp h).elim Filling.ne_nil_of_mem_readAll ih

theorem length_of_mem_texts {codecs : Codecs} {d : Decoder} {ps : List Bytes} {t : List Char}
    (h : t ∈ d.texts codecs ps) : (Bytes.ofChars t).length ≤ blockSize := by
  induction ps generalizing d with
  | nil => cases h
  | cons p ps ih => exact (List.mem_append.mp h).elim Filling.length_of_mem_parts ih

/-- Where the octets are cut does not matter for their characters. -/
theorem flatten_texts (codecs : Codecs) (d : Decoder) (ps : List Bytes) :
    (d.texts codecs ps).flatten = (d.run ps.flatten).2.toList := by
  induction ps generalizing d with
  | nil => rfl
  | cons p ps ih =>
    rw [texts, List.flatten_append, ih, List.flatten_cons, run_append, Array.toList_append,
      Filling.flatten_readAll]

end Decoder

theorem octets_decodeFrom (codecs : Codecs) (d : Decoder) (done : Array Piece) (ps : List Piece) :
    (Delivery.decodeFrom codecs d done ps).2.toList.map Piece.octets =
      done.toList.map Piece.octets ++
        (d.texts codecs (ps.map Piece.octets)).map Bytes.ofChars := by
  induction ps generalizing d done with
  | nil => simp [Delivery.decodeFrom, Decoder.texts]
  | cons p ps ih =>
    rw [Delivery.decodeFrom, ih, Filling.decoder_readAll, Array.toList_append, List.map_append,
      Filling.octets_pieces, List.map_cons, Decoder.texts, List.map_append, List.append_assoc]

theorem decodeFrom_fst (codecs : Codecs) (d : Decoder) (done : Array Piece) (ps : List Piece) :
    (Delivery.decodeFrom codecs d done ps).1 = (d.run (ps.flatMap Piece.octets)).1 := by
  induction ps generalizing d done with
  | nil => rfl
  | cons p ps ih =>
    rw [Delivery.decodeFrom, ih, Filling.decoder_readAll, List.flatMap_cons, Decoder.run_append]

namespace Filling

/-! ## Short texts -/

/-- Room for one more character of any width is enough to go on. -/
theorem put_of_room {f : Filling} (b : Option UInt8) (c : Char)
    (room : f.buffer.size + c.utf8Size + 4 ≤ blockSize) :
    (f.put {} b c).full = f.full ∧ (f.put {} b c).buffer.size = f.buffer.size + c.utf8Size := by
  have hmargin : f.decoder.margin ≤ 4 := by
    unfold Decoder.margin
    split <;> decide
  have hspares : ({} : Codecs).spares f.decoder b f.buffer c = false := by
    have hlt : ¬ blockSize < f.buffer.size + f.decoder.margin := by omega
    simp [hlt]
  unfold put
  rw [dif_pos ⟨by omega, Or.inr hspares⟩]
  exact ⟨rfl, rfl⟩

theorem putAll_of_room {f : Filling} (b : Option UInt8) (cs : List Char)
    (room : f.buffer.size + (Bytes.ofChars cs).length + 4 ≤ blockSize) :
    (cs.foldl (put {} b) f).full = f.full ∧
      (cs.foldl (put {} b) f).buffer.size = f.buffer.size + (Bytes.ofChars cs).length := by
  induction cs generalizing f with
  | nil => exact ⟨rfl, rfl⟩
  | cons c cs ih =>
    rw [length_ofChars_cons] at room ⊢
    obtain ⟨hfull, hsize⟩ := put_of_room (f := f) b c (by omega)
    obtain ⟨hfull', hsize'⟩ := ih (f := f.put {} b c) (by omega)
    rw [List.foldl_cons, hfull', hsize', hfull, hsize, Nat.add_assoc]
    exact ⟨rfl, rfl⟩

theorem readAll_of_room {f : Filling} {bytes : Bytes}
    (room : f.buffer.size + (Bytes.ofChars (f.decoder.run bytes).2.toList).length + 4 ≤ blockSize) :
    (bytes.foldl (read {}) f).full = f.full := by
  induction bytes generalizing f with
  | nil => rfl
  | cons b bytes ih =>
    rw [Decoder.run_cons, Array.toList_append, List.toList_toArray, ofChars_append,
      List.length_append] at room
    obtain ⟨hfull, hsize⟩ := putAll_of_room (f := f) (some b) (f.decoder.step b).2 (by omega)
    have hread : (f.read {} b).buffer.size = _ := hsize
    exact (ih (by rw [hread, decoder_read]; omega)).trans hfull

theorem parts_of_short {d d' : Decoder} {bytes : Bytes} {cs : List Char}
    (h : d.run bytes = (d', cs.toArray)) (hne : cs ≠ [])
    (room : (Bytes.ofChars cs).length + 4 ≤ blockSize) : (readAll {} d bytes).parts = [cs] := by
  have hcs : (d.run bytes).2.toList = cs := congrArg (fun r => r.2.toList) h
  have hfull : (readAll {} d bytes).full = #[] :=
    readAll_of_room (f := { decoder := d }) (by rwa [hcs, Nat.zero_add])
  have htext := flatten_readAll {} d bytes
  rw [hcs] at htext
  by_cases hs : (readAll {} d bytes).buffer.size = 0
  · rw [parts_of_no_buffer hs, hfull] at htext
    exact absurd htext.symm hne
  · rw [parts_of_buffer hs, hfull] at htext ⊢
    rw [← htext]
    simp

end Filling
end MapTables
