import MapTables.Markup.Document
import MapTables.Proofs.Markup.Complete

/-!
# Reading construct by construct

The reader goes from one complete construct to the next. What it has read is then the same
for all inputs that start alike, however they go on.
-/

namespace MapTables.Markup

/-! ## Tags -/

/-- What a tag holds in front of the slash of an element without content. -/
def tagInner (content : Bytes) : Bytes :=
  if content.getLast? == some 0x2F then content.dropLast else content

def tagName (content : Bytes) : Bytes := (tagInner content).takeWhile fun b => !Tag.isSpace b

theorem openTag_eq (names : List Bytes) (content : Bytes) : openTag names content =
    let empty := content.getLast? == some 0x2F
    let openNames := if empty then names else tagName content :: names
    match elementEvents (tagName content) (tagInner content) empty with
    | .ok events => { openNames, events }
    | .error fault => { openNames, fault := some fault } := rfl

/-! ## Constructs -/

namespace Cursor

/-- Where the octets of the next construct start, behind its `<`. -/
def start (c : Cursor) : Nat := c.offset + (c.rest.takeWhile isText).length + 1

/-- The octets of the next construct and what follows it. -/
def body (c : Cursor) : Bytes := (c.rest.dropWhile isText).tail

/-- The ends of pieces that lie in the next construct or behind it. -/
def endsAhead (c : Cursor) : List (Nat × Nat) := c.ends.dropWhile fun e => e.1 ≤ c.start

def move (c : Cursor) (taken : Taken c.body) (e : Effect) : Cursor where
  rest := taken.rest
  offset := c.start + taken.advance
  openNames := e.openNames
  ends := c.endsAhead
  done := c.done ++ e.items (c.start + taken.advance)
    (drawnAt c.endsAhead (c.start + taken.advance) taken.rest)

/-- The reader behind the next construct, if that is complete and no fault ends the reading. -/
def next? (c : Cursor) : Option Cursor :=
  match take true (c.endsAhead.map Prod.fst) c.start c.body with
  | .error _ => none
  | .ok taken =>
    match effect c.openNames taken.part with
    | .error _ => none
    | .ok e => some (c.move taken e)

theorem next?_eq_some {c c' : Cursor} : c.next? = some c' ↔
    ∃ taken e, take true (c.endsAhead.map Prod.fst) c.start c.body = .ok taken ∧
      effect c.openNames taken.part = .ok e ∧ c' = c.move taken e := by
  unfold next?
  split
  · next h => simp [h]
  · next taken h =>
    split
    · next he => simp [h, he]
    · next e he => simp [h, he, eq_comm]

theorem length_body_lt {c : Cursor} (h : c.rest.dropWhile isText ≠ []) :
    c.body.length < c.rest.length := by
  have := Escape.length_dropWhile_le isText c.rest
  have : 0 < (c.rest.dropWhile isText).length := List.length_pos_iff.mpr h
  rw [body, List.length_tail]
  omega

theorem body_ne_nil {fails : Bool} {ends : List Nat} {offset : Nat} {body : Bytes}
    {taken : Taken body} (h : take fails ends offset body = .ok taken) : body ≠ [] := by
  rintro rfl
  cases h

theorem length_next? {c c' : Cursor} (h : c.next? = some c') : c'.rest.length < c.rest.length := by
  obtain ⟨taken, e, ht, -, rfl⟩ := next?_eq_some.mp h
  have hb := body_ne_nil ht
  have hlt : c.body.length < c.rest.length :=
    length_body_lt fun hd => hb (by rw [body, hd]; rfl)
  exact Nat.lt_of_le_of_lt taken.notLonger hlt

def behind (c : Cursor) : Cursor :=
  match h : c.next? with
  | none => c
  | some c' =>
    have := length_next? h
    c'.behind
termination_by c.rest.length

theorem take_congr {fails : Bool} {ends : List Nat} {offset : Nat} {body body' : Bytes}
    {taken : Taken body} (hb : body = body') (h : take fails ends offset body = .ok taken) :
    ∃ taken' : Taken body', take fails ends offset body' = .ok taken' ∧ taken'.part = taken.part ∧
      taken'.advance = taken.advance ∧ taken'.rest = taken.rest := by
  subst hb
  exact ⟨taken, h, rfl, rfl, rfl⟩

variable {c c' : Cursor} {taken : Taken c.body} {e : Effect}

theorem take_congr_error {fails : Bool} {ends : List Nat} {offset : Nat} {body body' : Bytes}
    {f : Halt} (hb : body = body') (h : take fails ends offset body = .error f) :
    take fails ends offset body' = .error f := by
  subst hb
  exact h

/-- Why the reading ends at a construct that cannot be taken, and where. -/
def faultAt (c : Cursor) (failure : Option String) : Halt → ReadFault × Nat
  | .malformed p fault => (.markup (c.start + p) fault, c.start + p)
  | .starved p => (.unreadable (c.start + p) (failure.getD ""), c.start + p)

theorem read_eq (failure : Option String) (hne : c.body ≠ []) : c.read failure =
    match take failure.isSome (c.endsAhead.map Prod.fst) c.start c.body with
    | .error f => c.halt (c.faultAt failure f).1 (c.faultAt failure f).2
    | .ok taken =>
      match effect c.openNames taken.part with
      | .error (back, fault) =>
        c.halt (.markup (c.start + taken.advance - back) fault) (c.start + taken.advance - back)
      | .ok e => (c.move taken e).read failure := by
  conv => lhs; rw [read.eq_def]
  simp only
  split
  · next hd => exact absurd (by rw [body, hd]; rfl) hne
  · next hd => exact absurd (by rw [body, hd]; rfl) hne
  · next b more hd =>
    have hb : c.body = b :: more := by rw [body, hd]; rfl
    have hs : c.offset + (c.rest.takeWhile isText).length + 1 = c.start := rfl
    rw [hs]
    cases ht : take failure.isSome (c.endsAhead.map Prod.fst) c.start c.body with
    | error f =>
      have hf := take_congr_error hb ht
      split
      · next h =>
        cases hf.symm.trans h
        rfl
      · next h =>
        cases hf.symm.trans h
        rfl
      · next h => cases hf.symm.trans h
    | ok taken =>
      obtain ⟨taken', ht', hp, ha, hr⟩ := take_congr hb ht
      split
      · next h => cases ht'.symm.trans h
      · next h => cases ht'.symm.trans h
      · next h =>
        cases ht'.symm.trans h
        simp only
        rw [hp, ha, hr]
        cases effect c.openNames taken.part with
        | error refusal => rfl
        | ok e => rfl

theorem read_of_take (failure : Option String)
    (ht : take failure.isSome (c.endsAhead.map Prod.fst) c.start c.body = .ok taken)
    (he : effect c.openNames taken.part = .ok e) : c.read failure = (c.move taken e).read failure := by
  rw [read_eq failure (body_ne_nil ht)]
  simp only [ht, he]

theorem read_of_next? (h : c.next? = some c') (failure : Option String) :
    c.read failure = c'.read failure := by
  obtain ⟨taken, e, ht, he, rfl⟩ := next?_eq_some.mp h
  exact read_of_take failure (take_of_complete ht failure.isSome) he

theorem next?_behind (c : Cursor) : c.behind.next? = none := by
  fun_induction behind c with
  | case1 c h => exact h
  | case2 c c' h _ ih => exact ih

theorem read_behind (c : Cursor) (failure : Option String) :
    c.behind.read failure = c.read failure := by
  fun_induction behind c with
  | case1 c _ => rfl
  | case2 c c' h _ ih => rw [ih, read_of_next? h]

theorem halt_items (c : Cursor) (fault : ReadFault) (position : Nat) :
    (c.halt fault position).items = c.done.toList ++ [⟨.error fault, position, 0⟩] :=
  Array.toList_push

theorem read_items (c : Cursor) (failure : Option String) :
    ∃ items, (c.read failure).items = c.done.toList ++ items := by
  fun_induction read failure c with
  | case2 c | case4 c => exact ⟨[], (List.append_nil _).symm⟩
  | case8 c start head b more hd offset ends taken ht position e he hlt ih =>
    obtain ⟨items, ih⟩ := ih
    refine ⟨e.items position (drawnAt ends position taken.rest) ++ items, ih.trans ?_⟩
    rw [Array.toList_appendList, List.append_assoc]
  | _ => exact ⟨_, halt_items _ _ _⟩

/-! ## Texts that start alike -/

/-- A reader of a text that is cut short, which ends in `tail`, and one of the whole, which has
`more` in place of that. They stand at the same place and have read the same. -/
structure Alike (tail more : Bytes) (p w : Cursor) : Prop where
  offset : p.offset = w.offset
  openNames : p.openNames = w.openNames
  done : p.done.toList.map Item.what = w.done.toList.map Item.what
  ahead : ∃ same, p.rest = same ++ tail ∧ w.rest = same ++ more ∧
    EndsAgree (p.offset + same.length) (p.ends.map Prod.fst) (w.ends.map Prod.fst)

variable {tail more : Bytes} {p p' w : Cursor}

/-- Where a `>` ends what was taken, that lies in front of what the texts differ in. -/
theorem split_at_mark (front : Bytes) {rest same tail : Bytes} {mark : UInt8} (hm : mark ∉ tail)
    (h : front ++ mark :: rest = same ++ tail) :
    ∃ same', same = front ++ mark :: same' ∧ rest = same' ++ tail := by
  rcases List.append_eq_append_iff.mp h with ⟨as, rfl, hr⟩ | ⟨bs, rfl, rfl⟩
  · cases as with
    | nil => exact absurd (by rw [List.nil_append] at hr; rw [← hr]; simp) hm
    | cons a as =>
      obtain ⟨rfl, rfl⟩ := List.cons.inj hr
      exact ⟨as, rfl, rfl⟩
  · exact absurd (by simp) hm

theorem rest_of_body (hb : p.body ≠ []) :
    ∃ text, (∀ b ∈ text, isText b = true) ∧ p.rest = text ++ 0x3C :: p.body := by
  cases hd : p.rest.dropWhile isText with
  | nil => exact absurd (by rw [body, hd]; rfl) hb
  | cons c rest =>
    obtain ⟨he, hc, htext⟩ := span_of_dropWhile hd
    have hc : c = 0x3C := by simpa [isText] using hc
    refine ⟨_, htext, ?_⟩
    rw [body, hd, List.tail_cons, ← hc]
    exact he

theorem body_of_rest {text after : Bytes} (ht : ∀ b ∈ text, isText b = true)
    (h : p.rest = text ++ 0x3C :: after) :
    p.start = p.offset + text.length + 1 ∧ p.body = after := by
  obtain ⟨htake, hdrop⟩ := span_append (c := 0x3C) ht (by decide) after
  rw [start, body, h, htake, hdrop]
  exact ⟨rfl, rfl⟩

theorem endsAhead_fst (c : Cursor) :
    c.endsAhead.map Prod.fst = (c.ends.map Prod.fst).dropWhile (· ≤ c.start) := by
  rw [List.dropWhile_map]
  rfl

theorem items_what (e : Effect) (position drawn position' drawn' : Nat)
    (hp : position = position') :
    (e.items position drawn).map Item.what = (e.items position' drawn').map Item.what := by
  subst hp
  unfold Effect.items
  split
  · rfl
  · rw [List.map_map, List.map_map]
    rfl

/-- What the reader of the text cut short does, the reader of the whole does as well. -/
theorem Alike.next? (h : Alike tail more p w) (hm : 0x3E ∉ tail) (hp : p.next? = some p') :
    ∃ w', w.next? = some w' ∧ Alike tail more p' w' := by
  obtain ⟨taken, e, ht, he, rfl⟩ := next?_eq_some.mp hp
  obtain ⟨same, hsame, hw, hends⟩ := h.ahead
  obtain ⟨used, hbody, hadvance, hused⟩ := take_complete ht
  obtain ⟨text, htext, hrest⟩ := rest_of_body (body_ne_nil ht)
  obtain ⟨hps, -⟩ := body_of_rest htext hrest
  -- The construct ends in what both texts have.
  obtain ⟨same', rfl, hrest'⟩ := split_at_mark (text ++ 0x3C :: used) hm (by
    rw [← hsame, hrest, hbody, List.append_assoc, List.cons_append])
  have hlen : p.offset + (text ++ 0x3C :: used ++ 0x3E :: same').length =
      p.start + taken.advance + same'.length := by
    simp only [List.length_append, List.length_cons, hps, hadvance]
    omega
  rw [hlen] at hends
  obtain ⟨hws, hwb⟩ := body_of_rest htext
    (show w.rest = text ++ 0x3C :: (used ++ 0x3E :: (same' ++ more)) by simp [hw])
  rw [← h.offset, ← hps] at hws
  have hahead : EndsAgree (p.start + taken.advance + same'.length) (p.endsAhead.map Prod.fst)
      (w.endsAhead.map Prod.fst) := by
    rw [endsAhead_fst, endsAhead_fst, hws]
    exact hends.dropWhile (by omega)
  obtain ⟨_, ht'⟩ := hused true (w.endsAhead.map Prod.fst) (same' ++ more)
    (hahead.mono (by omega))
  obtain ⟨taken', ht', hpart, hadvance', hr⟩ := take_congr hwb.symm ht'
  have hoffset : p.start + taken.advance = w.start + taken'.advance := by rw [hws, hadvance']
  refine ⟨w.move taken' e, next?_eq_some.mpr ⟨taken', e, ?_, ?_, rfl⟩, ?_⟩
  · rw [hws]
    exact ht'
  · rw [← h.openNames, hpart]
    exact he
  · refine ⟨hoffset, rfl, ?_, same', hrest', hr, hahead⟩
    simp only [move, Array.toList_appendList, List.map_append]
    rw [h.done, items_what e _ _ _ _ hoffset]

theorem Alike.behind (h : Alike tail more p w) (hm : 0x3E ∉ tail) (failure : Option String) :
    ∃ before after, (w.read failure).items = before ++ after ∧
      p.behind.done.toList.map Item.what = before.map Item.what := by
  fun_induction Cursor.behind p generalizing w with
  | case1 p hn =>
    obtain ⟨items, hr⟩ := read_items w failure
    exact ⟨w.done.toList, items, hr, h.done⟩
  | case2 p p' hp _ ih =>
    obtain ⟨w', hw, h'⟩ := h.next? hm hp
    rw [read_of_next? hw]
    exact ih h'

end Cursor

end MapTables.Markup
