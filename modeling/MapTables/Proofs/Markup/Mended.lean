import MapTables.Proofs.Markup.MendedTags

/-!
# Reading mended octets

A reader of mended octets comes to the same constructs as one of the octets as they are, but what
these hold is mended. Where that changes nothing of what they tell, both read the same events.
-/

namespace MapTables

def Item.event? (i : Item) : Option Event := i.what.toOption

namespace Markup

section Constructs

variable {a b : UInt8} {body content bytes : Bytes}

/-! ## Constructs -/

def Part.mend : Part → Part
  | .passed => .passed
  | .opens content => .opens (MapTables.mend content)
  | .closes content => .closes (MapTables.mend content)

/-- A construct that was taken and what follows it. -/
def taking {body : Bytes} (r : Except Halt (Taken body)) : Option (Part × Bytes) :=
  r.toOption.map fun t => (t.part, t.rest)

theorem taking_tag (body : Bytes) : taking (takeTag false body) =
    some (((cut (unquoted none) body).map (Prod.map .opens id)).getD (.opens body, [])) := by
  have hlength := tagLength_eq none 0 body
  rw [Nat.zero_add] at hlength
  unfold takeTag
  simp only
  cases hc : cut (unquoted none) body with
  | none =>
    replace hlength : tagLength none 0 body = body.length := by rw [hlength, hc]; rfl
    split
    · rfl
    · next hd =>
      rw [hlength, List.drop_length] at hd
      cases hd
  | some c =>
    obtain ⟨front, rest⟩ := c
    replace hlength : tagLength none 0 body = front.length := by rw [hlength, hc]; rfl
    have hbody := split_of_cut hc
    have hdrop : body.drop (tagLength none 0 body) = 0x3E :: rest := by
      rw [hlength, hbody, List.drop_left]
    have htake : body.take (tagLength none 0 body) = front := by
      rw [hlength, hbody, List.take_left]
    split
    · next hd => cases hdrop.symm.trans hd
    · next hd =>
      cases hdrop.symm.trans hd
      rw [taking, Except.toOption, Option.map_some, htake]
      rfl

theorem upto_eq (body : Bytes) : ∃ u, upto false body = .ok u ∧
    u.content = body.takeWhile isContent ∧ u.rest = (body.dropWhile isContent).tail := by
  unfold upto
  simp only
  split
  · next hd => exact ⟨_, rfl, rfl, (congrArg List.tail hd).symm⟩
  · next hd => exact ⟨_, rfl, rfl, (congrArg List.tail hd).symm⟩

theorem taking_endTag (body : Bytes) : taking (takeEndTag false body) =
    some (.closes (body.takeWhile isContent), (body.dropWhile isContent).tail) := by
  obtain ⟨u, hu, hc, hr⟩ := upto_eq body
  rw [takeEndTag, hu, ← hc, ← hr]
  rfl

theorem taking_declaration (body : Bytes) : taking (takeDeclaration false body) =
    if 2 < (body.takeWhile isContent).length ∧ (body.takeWhile isContent).getLast? = some 0x3F then
      some (.passed, (body.dropWhile isContent).tail) else none := by
  obtain ⟨u, hu, hc, hr⟩ := upto_eq body
  rw [takeDeclaration, hu, ← hc, ← hr]
  simp only
  split <;> rfl

theorem taking_bang (offset : Nat) (b : UInt8) (tail : Bytes) :
    taking (takeBang false [] offset (b :: tail)) = (bangKind? b).bind fun kind =>
      (cut (endsBang kind b) tail).bind fun c =>
        if bangFault? kind (b :: c.1) = none then some (.passed, c.2) else none := by
  unfold takeBang
  simp only
  cases hk : bangKind? b with
  | none => rfl
  | some kind =>
    have hb : b ≠ 0x3E := by
      rintro rfl
      cases hk
    simp only [bangLength?_eq kind hb, Option.bind_some]
    cases hc : cut (endsBang kind b) tail with
    | none => rfl
    | some c =>
      obtain ⟨front, rest⟩ := c
      obtain rfl := split_of_cut hc
      have htake : (b :: (front ++ 0x3E :: rest)).take (1 + front.length) = b :: front := by
        rw [Nat.add_comm, List.take_succ_cons, List.take_left]
      have hdrop : (b :: (front ++ 0x3E :: rest)).drop (1 + front.length + 1) = rest := by
        rw [Nat.add_comm 1, List.drop_succ_cons, ← List.drop_drop, List.drop_left]
        rfl
      simp only [Option.map_some, htake, Option.bind_some]
      cases bangFault? kind (b :: front) with
      | none => exact congrArg (fun r => some (Part.passed, r)) hdrop
      | some fault => rfl

/-! ## What follows `<!` -/

theorem lowerOctet_lt_iff : (Element.lowerOctet b).toNat < 0x80 ↔ b.toNat < 0x80 := by
  unfold Element.lowerOctet
  split
  · next h =>
    rw [UInt8.le_iff_toNat_le, UInt8.le_iff_toNat_le] at h
    simp at h ⊢
    omega
  · rfl

theorem lowered_front_mend {word : Bytes} (hw : ∀ b ∈ word, b.toNat < 0x80) (bytes : Bytes) :
    word <+: (mend bytes).map Element.lowerOctet ↔ word <+: bytes.map Element.lowerOctet := by
  induction word generalizing bytes with
  | nil => exact ⟨fun _ => List.nil_prefix, fun _ => List.nil_prefix⟩
  | cons x word ih =>
    have apart {y : UInt8} (hy : ¬ y.toNat < 0x80) (rest : Bytes) :
        ¬ x :: word <+: (y :: rest).map Element.lowerOctet := by
      intro h
      have hx := hw x List.mem_cons_self
      rw [(List.cons_prefix_cons.mp h).1] at hx
      exact hy (lowerOctet_lt_iff.mp hx)
    cases bytes with
    | nil => rfl
    | cons y bytes =>
      by_cases hy : y.toNat < 0x80
      · rw [mend_cons hy, List.map_cons, List.map_cons, List.cons_prefix_cons,
          List.cons_prefix_cons, ih fun b hb => hw b (List.mem_cons_of_mem x hb)]
      · refine iff_of_false ?_ (apart hy bytes)
        cases hm : mend (y :: bytes) with
        | nil => exact fun h => by cases List.prefix_nil.mp h
        | cons z rest => exact apart (head_beyond hy hm) rest

theorem startsWith_mend {word : String} (hw : (Bytes.ofString word).all (·.toNat < 0x80))
    (bytes : Bytes) : startsWith word (mend bytes) = startsWith word bytes := by
  have hlower : ∀ b ∈ (Bytes.ofString word).map Element.lowerOctet, b.toNat < 0x80 := by
    intro b hb
    obtain ⟨x, hx, rfl⟩ := List.mem_map.mp hb
    exact lowerOctet_lt_iff.mpr (of_decide_eq_true (List.all_eq_true.mp hw x hx))
  rw [Bool.eq_iff_iff, startsWith, startsWith, List.isPrefixOf_iff_prefix,
    List.isPrefixOf_iff_prefix, lowered_front_mend hlower]

theorem drop_mend {word : String} (hw : (Bytes.ofString word).all (·.toNat < 0x80))
    (h : startsWith word bytes = true) : (mend bytes).drop (Bytes.ofString word).length =
      mend (bytes.drop (Bytes.ofString word).length) := by
  rw [startsWith, List.isPrefixOf_iff_prefix] at h
  generalize Bytes.ofString word = w at hw h ⊢
  obtain ⟨more, hmore⟩ := h
  have hlen : w.length ≤ bytes.length := by
    have := congrArg List.length hmore
    simp at this
    omega
  have hfront : ∀ b ∈ bytes.take w.length, b.toNat < 0x80 := by
    intro b hb
    have hmem : Element.lowerOctet b ∈ w.map Element.lowerOctet := by
      have htake := congrArg (List.take w.length) hmore
      rw [← List.map_take, List.take_left' (by rw [List.length_map])] at htake
      exact htake ▸ List.mem_map_of_mem hb
    obtain ⟨x, hx, he⟩ := List.mem_map.mp hmem
    rw [← lowerOctet_lt_iff, ← he, lowerOctet_lt_iff]
    exact of_decide_eq_true (List.all_eq_true.mp hw x hx)
  conv => lhs; rw [← List.take_append_drop w.length bytes, mend_ascii_append hfront]
  exact List.drop_left' (by rw [List.length_take]; omega)

theorem bang_words : (Bytes.ofString "--").all (·.toNat < 0x80) ∧
    (Bytes.ofString "[CDATA[").all (·.toNat < 0x80) ∧
    (Bytes.ofString "DOCTYPE").all (·.toNat < 0x80) ∧ (Bytes.ofString "DOCTYPE").length = 7 := by
  decide +kernel

theorem bangFault?_mend (kind : Construct) (bytes : Bytes) :
    bangFault? kind (mend bytes) = bangFault? kind bytes := by
  obtain ⟨hcomment, hcdata, hdoctype, hlen⟩ := bang_words
  cases kind with
  | comment => rw [bangFault?, bangFault?, startsWith_mend hcomment]
  | cdata => rw [bangFault?, bangFault?, startsWith_mend hcdata]
  | doctype =>
    rw [bangFault?, bangFault?, startsWith_mend hdoctype]
    split
    · next h =>
      have hdrop := drop_mend hdoctype h
      rw [hlen] at hdrop
      rw [hdrop, all_isSpace_mend]
    · rfl
  | declaration => rfl
  | bang => rfl

/-! ## Every construct -/

theorem declares_iff : (2 < (0x3F :: bytes).length ∧ (0x3F :: bytes).getLast? = some 0x3F) ↔
    ∃ f, bytes = f ++ [0x3F] ∧ f ≠ [] := by
  rcases List.eq_nil_or_concat bytes with rfl | ⟨front, z, rfl⟩
  · simp
  · rw [List.concat_eq_append, ← List.cons_append, List.getLast?_concat]
    have hlen : 2 < (0x3F :: front ++ [z]).length ↔ front ≠ [] := by
      rw [← List.length_pos_iff]
      simp
    rw [hlen]
    constructor
    · rintro ⟨hne, hz⟩
      obtain rfl := Option.some.inj hz
      exact ⟨front, rfl, hne⟩
    · rintro ⟨f, h, hne⟩
      obtain ⟨rfl, hz⟩ := List.append_inj' h rfl
      exact ⟨hne, congrArg some (List.singleton_inj.mp hz)⟩

theorem declares_mend (h : bytes.head? = some 0x3F) :
    (2 < (mend bytes).length ∧ (mend bytes).getLast? = some 0x3F) ↔
      (2 < bytes.length ∧ bytes.getLast? = some 0x3F) := by
  have ha : (0x3F : UInt8).toNat < 0x80 := by decide
  obtain ⟨bytes, rfl⟩ := List.head?_eq_some_iff.mp h
  rw [mend_cons ha, declares_iff, declares_iff]
  constructor
  · rintro ⟨f, hf, hne⟩
    obtain ⟨g, rfl, rfl⟩ := concat_of_mend ha hf
    exact ⟨g, rfl, fun hg => hne (mend_eq_nil.mpr hg)⟩
  · rintro ⟨f, rfl, hne⟩
    exact ⟨mend f, mend_concat ha f, fun hf => hne (mend_eq_nil.mp hf)⟩

theorem taking_tag_mend (body : Bytes) : taking (takeTag false (mend body)) =
    (taking (takeTag false body)).map (Prod.map Part.mend mend) := by
  rw [taking_tag, taking_tag, cut_mend unquoted_mend]
  cases cut (unquoted none) body <;> rfl

theorem upto_mend (body : Bytes) :
    (mend body).takeWhile isContent = mend (body.takeWhile isContent) ∧
      ((mend body).dropWhile isContent).tail = mend (body.dropWhile isContent).tail := by
  have ascii (b : UInt8) : isContent b = false → b.toNat < 0x80 := ascii_of_isContent
  exact ⟨(span_mend ascii body).1, behind_mend ascii body⟩

theorem taking_endTag_mend (body : Bytes) : taking (takeEndTag false (mend body)) =
    (taking (takeEndTag false body)).map (Prod.map Part.mend mend) := by
  obtain ⟨hcontent, hrest⟩ := upto_mend body
  rw [taking_endTag, taking_endTag, hcontent, hrest]
  rfl

theorem taking_declaration_mend (h : body.head? = some 0x3F) :
    taking (takeDeclaration false (mend body)) =
      (taking (takeDeclaration false body)).map (Prod.map Part.mend mend) := by
  obtain ⟨hcontent, hrest⟩ := upto_mend body
  have hhead : (body.takeWhile isContent).head? = some 0x3F := by
    obtain ⟨more, rfl⟩ := List.head?_eq_some_iff.mp h
    rfl
  rw [taking_declaration, taking_declaration, hcontent, hrest]
  simp only [declares_mend hhead]
  split <;> rfl

theorem bangKind?_beyond (hb : ¬ b.toNat < 0x80) : bangKind? b = none := by
  cases hk : bangKind? b with
  | none => rfl
  | some kind =>
    unfold bangKind? at hk
    have ascii {c : UInt8} (hc : c.toNat < 0x80) : b ≠ c := fun h => hb (h ▸ hc)
    simp only [ascii (c := 0x2D) (by decide), ascii (c := 0x5B) (by decide),
      ascii (c := 0x44) (by decide), ascii (c := 0x64) (by decide), or_self, if_false] at hk
    cases hk

theorem taking_bang_mend (offset offset' : Nat) (more : Bytes) :
    taking (takeBang false [] offset' (mend more)) =
      (taking (takeBang false [] offset more)).map (Prod.map Part.mend mend) := by
  cases more with
  | nil => rfl
  | cons b tail =>
    by_cases hb : b.toNat < 0x80
    · rw [mend_cons hb, taking_bang, taking_bang]
      cases bangKind? b with
      | none => rfl
      | some kind =>
        simp only [Option.bind_some, cut_bang kind hb]
        cases cut (endsBang kind b) tail with
        | none => rfl
        | some c =>
          simp only [Option.map_some, Option.bind_some, Prod.map_fst, Prod.map_snd,
            ← mend_cons hb, bangFault?_mend]
          split <;> rfl
    · have refused {c : UInt8} (hc : ¬ c.toNat < 0x80) (offset : Nat) (rest : Bytes) :
          taking (takeBang false [] offset (c :: rest)) = none := by
        rw [taking_bang, bangKind?_beyond hc]
        rfl
      cases hm : mend (b :: tail) with
      | nil => cases mend_eq_nil.mp hm
      | cons c rest => rw [refused hb, refused (head_beyond hb hm)]; rfl

theorem taking_map {body : Bytes} (r : Except Halt (Taken body)) {more : Bytes}
    (h : ∀ t : Taken body, t.rest.length ≤ more.length) :
    taking (r.map fun t => (⟨t.part, t.advance, t.rest, h t⟩ : Taken more)) = taking r := by
  cases r <;> rfl

theorem take_mend (offset offset' : Nat) (body : Bytes) :
    taking (take false [] offset' (mend body)) =
      (taking (take false [] offset body)).map (Prod.map Part.mend mend) := by
  cases body with
  | nil => rfl
  | cons b more =>
    by_cases hb : b.toNat < 0x80
    · rw [mend_cons hb]
      unfold take
      simp only
      split
      · rw [← mend_cons hb]
        exact taking_endTag_mend _
      split
      · next h =>
        rw [← mend_cons hb]
        exact taking_declaration_mend (congrArg some h)
      split
      · rw [taking_map, taking_map]
        exact taking_bang_mend _ _ more
      · rw [← mend_cons hb]
        exact taking_tag_mend _
    · have tags {c : UInt8} (hc : ¬ c.toNat < 0x80) (offset : Nat) (rest : Bytes) :
          take false [] offset (c :: rest) = takeTag false (c :: rest) := by
        have beyond {d : UInt8} (hd : d.toNat < 0x80) : c ≠ d := fun h => hc (h ▸ hd)
        rw [take, if_neg (beyond (by decide)), if_neg (beyond (by decide)),
          if_neg (beyond (by decide))]
      cases hm : mend (b :: more) with
      | nil => cases mend_eq_nil.mp hm
      | cons c rest =>
        rw [tags hb, tags (head_beyond hb hm), ← hm]
        exact taking_tag_mend _

/-! ## Names -/

/-- The words for elements are of ASCII, so nothing that is mended becomes one. -/
theorem ofName?_mend (name : Bytes) : Element.ofName? (mend name) = Element.ofName? name := by
  have hwords : Element.all.all fun e => (Bytes.ofString e.word).all (·.toNat < 0x80) := by
    decide +kernel
  have hword (e : Element) : ((mend name).map Element.lowerOctet == Bytes.ofString e.word) =
      (name.map Element.lowerOctet == Bytes.ofString e.word) := by
    have hall := List.all_eq_true.mp (List.all_eq_true.mp hwords e (Element.mem_all e))
    have ascii {l : Bytes} (h : l.map Element.lowerOctet = Bytes.ofString e.word) :
        ∀ b ∈ l, b.toNat < 0x80 := fun b hb =>
      lowerOctet_lt_iff.mp (of_decide_eq_true (hall _ (h ▸ List.mem_map_of_mem hb)))
    rw [Bool.eq_iff_iff, beq_iff_eq, beq_iff_eq]
    constructor
    · intro h
      rwa [mend_ascii (ascii_of_mend (ascii h))] at h
    · intro h
      rwa [mend_ascii (ascii h)]
  unfold Element.ofName?
  congr 1
  funext e
  exact hword e

theorem trimEnd_of_last {front spaces : Bytes} (hs : ∀ b ∈ spaces, Tag.isSpace b = true)
    (hl : ∃ c ∈ front.getLast?, Tag.isSpace c = false) : trimEnd (front ++ spaces) = front := by
  obtain ⟨c, hlast, hc⟩ := hl
  obtain ⟨more, rfl⟩ := List.getLast?_eq_some_iff.mp hlast
  have hspaces : ∀ b ∈ spaces.reverse, Tag.isSpace b = true := fun b hb =>
    hs b (List.mem_reverse.mp hb)
  have hrev : (more ++ [c]).reverse = c :: more.reverse := List.reverse_concat
  unfold trimEnd
  rw [List.reverse_append, hrev, (span_append hspaces hc _).2]
  exact (congrArg List.reverse hrev).symm.trans (List.reverse_reverse _)

theorem trimEnd_mend (name : Bytes) : trimEnd (mend name) = mend (trimEnd name) := by
  cases hd : name.reverse.dropWhile Tag.isSpace with
  | nil =>
    have hname : trimEnd name = name := by rw [trimEnd, hd]
    have hspaces : ∀ b ∈ name, b.toNat < 0x80 := fun b hb =>
      ascii_of_isSpace (List.dropWhile_eq_nil_iff.mp hd b (List.mem_reverse.mpr hb))
    rw [mend_ascii hspaces, hname, mend_ascii hspaces]
  | cons c rest =>
    obtain ⟨he, hc, hall⟩ := span_of_dropWhile hd
    generalize name.reverse.takeWhile Tag.isSpace = spaces at he hall
    have hname : name = rest.reverse ++ [c] ++ spaces.reverse := by
      rw [← List.reverse_reverse name, he]
      simp
    have hspaces : ∀ b ∈ spaces.reverse, Tag.isSpace b = true := fun b hb =>
      hall b (List.mem_reverse.mp hb)
    -- The last octet in front of the spaces is none of them when it is mended.
    have hlast : ∃ z ∈ (mend (rest.reverse ++ [c])).getLast?, Tag.isSpace z = false := by
      cases hz : (mend (rest.reverse ++ [c])).getLast? with
      | none => simp at hz
      | some z =>
        refine ⟨z, rfl, ?_⟩
        rw [← Bool.not_eq_true]
        intro hspace
        have hlast := (getLast?_mend (ascii_of_isSpace hspace)).mp hz
        rw [List.getLast?_concat] at hlast
        obtain rfl := Option.some.inj hlast
        exact Bool.false_ne_true (hc.symm.trans hspace)
    rw [hname, mend_append_ascii _ fun b hb => ascii_of_isSpace (hspaces b hb),
      trimEnd_of_last hspaces hlast, trimEnd_of_last hspaces ⟨c, by simp, hc⟩]

/-! ## What constructs say -/

def endName (content : Bytes) : Bytes := trimEnd content.tail

/-- What a construct tells is not changed when it is mended: a tag of map data is legible, and an
end tag does not become that of the innermost open element. -/
def Part.Legible (names : List Bytes) : Part → Prop
  | .passed => True
  | .opens content => (Element.ofName? (Tag.localName (tagName content))).isSome →
      Tag.Legible (tagInner content) (tagName content).length
  | .closes content => ∀ name ∈ names.head?,
      MapTables.mend (endName content) = MapTables.mend name → endName content = name

instance (names : List Bytes) : (part : Part) → Decidable (part.Legible names)
  | .passed => inferInstanceAs (Decidable True)
  | .opens _ => inferInstanceAs (Decidable (_ → _))
  | .closes _ => inferInstanceAs (Decidable (∀ _ ∈ _, _ → _))

theorem tagInner_mend (content : Bytes) : tagInner (mend content) = mend (tagInner content) := by
  have ha : (0x2F : UInt8).toNat < 0x80 := by decide
  unfold tagInner
  simp only [beq_iff_eq, getLast?_mend ha]
  split
  · next h =>
    obtain ⟨front, rfl⟩ := List.getLast?_eq_some_iff.mp h
    rw [mend_concat ha, List.dropLast_concat, List.dropLast_concat]
  · rfl

theorem tagName_mend (content : Bytes) : tagName (mend content) = mend (tagName content) ∧
    (tagInner (mend content)).drop (tagName (mend content)).length =
      mend ((tagInner content).drop (tagName content).length) := by
  have ascii (b : UInt8) (hb : (!Tag.isSpace b) = false) : b.toNat < 0x80 :=
    ascii_of_isSpace (by simpa using hb)
  have behind (content : Bytes) : (tagInner content).drop (tagName content).length =
      (tagInner content).dropWhile fun b => !Tag.isSpace b := by
    conv =>
      lhs
      rw [← List.takeWhile_append_dropWhile (p := fun b => !Tag.isSpace b) (l := tagInner content)]
    exact List.drop_left
  obtain ⟨hname, hbehind⟩ := span_mend ascii (tagInner content)
  rw [behind, behind, tagInner_mend, tagName, tagInner_mend]
  exact ⟨hname, hbehind⟩

theorem endName_mend (h : content.head? = some 0x2F) :
    endName (mend content) = mend (endName content) := by
  obtain ⟨more, rfl⟩ := List.head?_eq_some_iff.mp h
  rw [endName, endName, mend_cons (by decide), List.tail_cons, List.tail_cons, trimEnd_mend]

theorem elementEvents_mend (h : (Part.opens content).Legible names) (empty : Bool) :
    (elementEvents (tagName (mend content)) (tagInner (mend content)) empty).toOption =
      (elementEvents (tagName content) (tagInner content) empty).toOption := by
  obtain ⟨hname, hbehind⟩ := tagName_mend content
  rw [hname, tagInner_mend] at hbehind
  unfold elementEvents
  rw [hname, tagInner_mend, Tag.localName_mend, ofName?_mend]
  cases he : Element.ofName? (Tag.localName (tagName content)) with
  | none => rfl
  | some e =>
    have legible := h (by rw [he]; rfl)
    simp only
    rw [toOption_map, toOption_map, Tag.attributes_mend legible hbehind]

structure Effect.Mends (e e' : Effect) : Prop where
  openNames : e'.openNames = e.openNames.map mend
  events : e'.events = e.events
  fault : e'.fault.isSome = e.fault.isSome

theorem openTag_mend (h : (Part.opens content).Legible names) :
    (openTag names content).Mends (openTag (names.map mend) (mend content)) := by
  have ha : (0x2F : UInt8).toNat < 0x80 := by decide
  have hempty : ((mend content).getLast? == some 0x2F) = (content.getLast? == some 0x2F) := by
    rw [Bool.eq_iff_iff, beq_iff_eq, beq_iff_eq, getLast?_mend ha]
  have hevents := elementEvents_mend h (content.getLast? == some 0x2F)
  rw [openTag_eq, openTag_eq, hempty]
  simp only [(tagName_mend content).1] at hevents ⊢
  have hnames (empty : Bool) :
      (if empty then names.map mend else mend (tagName content) :: names.map mend) =
        (if empty then names else tagName content :: names).map mend := by
    cases empty <;> rfl
  generalize (content.getLast? == some 0x2F) = empty at hevents ⊢
  cases he : elementEvents (tagName content) (tagInner content) empty with
  | ok events =>
    rw [he] at hevents
    rw [ok_of_toOption hevents]
    exact ⟨hnames empty, rfl, rfl⟩
  | error fault =>
    rw [he] at hevents
    obtain ⟨fault', he'⟩ := exists_error_of_isNone (Option.isNone_iff_eq_none.mpr hevents)
    rw [he']
    exact ⟨hnames empty, rfl, rfl⟩

theorem closeTag_mend (h : (Part.closes content).Legible names) (hc : content.head? = some 0x2F) :
    Option.Rel Effect.Mends (closeTag names content).toOption
      (closeTag (names.map mend) (mend content)).toOption := by
  have hname : trimEnd (mend content).tail = mend (trimEnd content.tail) := endName_mend hc
  cases names with
  | nil => exact .none
  | cons name names =>
    unfold closeTag
    simp only [List.map_cons, hname, Tag.localName_mend, ofName?_mend]
    have hiff : mend (trimEnd content.tail) = mend name ↔ trimEnd content.tail = name :=
      ⟨h name rfl, congrArg mend⟩
    simp only [hiff]
    split
    · exact .some ⟨rfl, rfl, rfl⟩
    · exact .none

theorem effect_mend {part : Part} (h : part.Legible names)
    (hc : ∀ content, part = .closes content → content.head? = some 0x2F) :
    Option.Rel Effect.Mends (effect names part).toOption
      (effect (names.map mend) part.mend).toOption := by
  cases part with
  | passed => exact .some ⟨rfl, rfl, rfl⟩
  | opens content => exact .some (openTag_mend h)
  | closes content =>
    rw [effect, Part.mend, effect, toOption_mapError, toOption_mapError]
    exact closeTag_mend h (hc content rfl)

theorem head_of_closes {offset : Nat} {taken : Taken body}
    (h : take false [] offset body = .ok taken) (hp : taken.part = .closes content) :
    content.head? = some 0x2F := by
  have htaking : taking (take false [] offset body) = some (.closes content, taken.rest) := by
    rw [h, ← hp]
    rfl
  cases body with
  | nil => cases htaking
  | cons b more =>
    unfold take at htaking
    simp only at htaking
    split at htaking
    · next hb =>
      subst hb
      rw [taking_endTag] at htaking
      obtain ⟨hcontent, -⟩ := Prod.mk.inj (Option.some.inj htaking)
      exact Part.closes.inj hcontent ▸ rfl
    split at htaking
    · rw [taking_declaration] at htaking
      split at htaking <;> cases htaking
    split at htaking
    · rw [taking_map] at htaking
      cases more with
      | nil => cases htaking
      | cons b tail =>
        rw [taking_bang] at htaking
        obtain ⟨kind, -, hcut⟩ := Option.bind_eq_some_iff.mp htaking
        obtain ⟨c, -, hpassed⟩ := Option.bind_eq_some_iff.mp hcut
        split at hpassed <;> cases hpassed
    · rw [taking_tag] at htaking
      cases hcut : cut (unquoted none) (b :: more) with
      | none =>
        rw [hcut] at htaking
        cases htaking
      | some c =>
        rw [hcut] at htaking
        cases htaking

end Constructs

/-! ## The reader -/

theorem Effect.Mends.items {e e' : Effect} (h : e.Mends e') (position drawn position' drawn' : Nat) :
    (e'.items position' drawn').map Item.event? = (e.items position drawn).map Item.event? := by
  have hfault := h.fault
  unfold Effect.items
  rw [h.events]
  cases hf : e.fault with
  | some fault =>
    rw [hf] at hfault
    obtain ⟨fault', hf'⟩ := Option.isSome_iff_exists.mp hfault
    rw [hf']
    rfl
  | none =>
    rw [hf, Option.isSome_none, Option.isSome_eq_false_iff, Option.isNone_iff_eq_none] at hfault
    rw [hfault]
    simp only [List.map_map]
    rfl

namespace Cursor

variable {c c' : Cursor}

/-- The constructs that the reader comes to, each with the names of the open elements. -/
def parts (c : Cursor) : List (List Bytes × Part) :=
  match h : take false (c.endsAhead.map Prod.fst) c.start c.body with
  | .error _ => []
  | .ok taken =>
    (c.openNames, taken.part) ::
      match effect c.openNames taken.part with
      | .error _ => []
      | .ok e =>
        have : taken.rest.length < c.rest.length :=
          Nat.lt_of_le_of_lt taken.notLonger
            (length_body_lt fun hd => body_ne_nil h (by rw [body, hd]; rfl))
        (c.move taken e).parts
termination_by c.rest.length

structure Mends (c c' : Cursor) : Prop where
  rest : c'.rest = mend c.rest
  openNames : c'.openNames = c.openNames.map mend
  done : c'.done.toList.map Item.event? = c.done.toList.map Item.event?

theorem parts_of_take {taken : Taken c.body}
    (h : take false (c.endsAhead.map Prod.fst) c.start c.body = .ok taken) :
    c.parts = (c.openNames, taken.part) ::
      match effect c.openNames taken.part with
      | .error _ => []
      | .ok e => (c.move taken e).parts := by
  rw [parts.eq_def]
  split
  · next h' => cases h.symm.trans h'
  · next h' =>
    cases h.symm.trans h'
    rfl

namespace Mends

theorem body (h : Mends c c') : c'.body = mend c.body := by
  rw [Cursor.body, Cursor.body, h.rest]
  exact behind_mend (fun _ => ascii_of_isText) c.rest

theorem halt (h : Mends c c') (fault fault' : ReadFault) (position position' : Nat) :
    (c'.halt fault' position').items.map Item.event? =
      (c.halt fault position).items.map Item.event? := by
  rw [halt_items, halt_items, List.map_append, List.map_append, h.done]
  rfl

theorem move (h : Mends c c') {taken : Taken c.body} {taken' : Taken c'.body}
    (hr : taken'.rest = mend taken.rest) {e e' : Effect} (he : e.Mends e') :
    Mends (c.move taken e) (c'.move taken' e') := by
  refine ⟨hr, he.openNames, ?_⟩
  simp only [Cursor.move, Array.toList_appendList, List.map_append]
  rw [h.done, he.items]

section Taking

variable (h : Mends c c') (hc : ¬ c.MeetsDivided) (hc' : ¬ c'.MeetsDivided)

include h hc hc'

theorem taking : taking (take false (c'.endsAhead.map Prod.fst) c'.start c'.body) =
    (Markup.taking (take false (c.endsAhead.map Prod.fst) c.start c.body)).map
      (Prod.map Part.mend mend) := by
  rw [take_of_unmet hc, take_of_unmet hc', h.body, take_mend]

theorem take_error {f : Halt}
    (ht : take false (c.endsAhead.map Prod.fst) c.start c.body = .error f) :
    ∃ f', take false (c'.endsAhead.map Prod.fst) c'.start c'.body = .error f' := by
  have htaking := h.taking hc hc'
  rw [ht] at htaking
  exact exists_error_of_isNone (Option.isNone_iff_eq_none.mpr (Option.map_eq_none_iff.mp htaking))

theorem take_ok {taken : Taken c.body}
    (ht : take false (c.endsAhead.map Prod.fst) c.start c.body = .ok taken) :
    ∃ taken', take false (c'.endsAhead.map Prod.fst) c'.start c'.body = .ok taken' ∧
      taken'.part = taken.part.mend ∧ taken'.rest = mend taken.rest := by
  have htaking := h.taking hc hc'
  rw [ht] at htaking
  obtain ⟨taken', ht', he⟩ := Option.map_eq_some_iff.mp htaking
  obtain ⟨hp, hr⟩ := Prod.mk.inj he
  exact ⟨taken', ok_of_toOption ht', hp, hr⟩

end Taking

theorem effect (h : Mends c c') (hc : ¬ c.MeetsDivided) {taken : Taken c.body}
    (ht : take false (c.endsAhead.map Prod.fst) c.start c.body = .ok taken)
    (legible : taken.part.Legible c.openNames) :
    Option.Rel Effect.Mends (Markup.effect c.openNames taken.part).toOption
      (Markup.effect c'.openNames taken.part.mend).toOption := by
  rw [h.openNames]
  refine effect_mend legible fun content hp => ?_
  rw [take_of_unmet hc] at ht
  exact head_of_closes ht hp

/-- Where all that is read is legible, mended octets read the same but for the faults. -/
theorem read (h : Mends c c') (hc : ¬ c.MeetsDivided) (hc' : ¬ c'.MeetsDivided)
    (legible : ∀ p ∈ c.parts, p.2.Legible p.1) :
    (c'.read none).items.map Item.event? = (c.read none).items.map Item.event? := by
  induction hn : c.rest.length using Nat.strong_induction_on generalizing c c' with
  | _ n ih =>
    subst hn
    by_cases hne : c.body = []
    · rw [read_of_nothing hne, read_of_nothing (by rw [h.body, hne, mend_nil]), h.done]
    have hne' : c'.body ≠ [] := by rwa [h.body, Ne, mend_eq_nil]
    rw [read_eq none hne, read_eq none hne']
    cases ht : take false (c.endsAhead.map Prod.fst) c.start c.body with
    | error f =>
      obtain ⟨f', ht'⟩ := h.take_error hc hc' ht
      simp only [Option.isSome_none, ht, ht']
      exact h.halt _ _ _ _
    | ok taken =>
      obtain ⟨taken', ht', hp, hr⟩ := h.take_ok hc hc' ht
      have hparts := parts_of_take ht
      have heffect := h.effect hc ht (legible (c.openNames, taken.part) (hparts ▸ List.mem_cons_self))
      rw [← hp] at heffect
      cases he : Markup.effect c.openNames taken.part with
      | error refusal =>
        rw [he] at heffect
        obtain ⟨refusal', he'⟩ := error_of_rel heffect
        simp only [Option.isSome_none, ht, ht', he, he']
        exact h.halt _ _ _ _
      | ok e =>
        rw [he] at heffect hparts
        obtain ⟨e', he', hmends⟩ := ok_of_rel heffect
        simp only [Option.isSome_none, ht, ht', he, he']
        have hlt : taken.rest.length < c.rest.length :=
          Nat.lt_of_le_of_lt taken.notLonger
            (length_body_lt fun hd => hne (by rw [Cursor.body, hd]; rfl))
        exact ih _ hlt (h.move hr hmends) (fun hm => hc (.of_takes ⟨taken, e, ht, he, rfl⟩ hm))
          (fun hm => hc' (.of_takes ⟨taken', e', ht', he', rfl⟩ hm))
          (fun p hp => legible p (hparts ▸ List.mem_cons_of_mem _ hp)) rfl

end Mends

end Cursor

end Markup
end MapTables
